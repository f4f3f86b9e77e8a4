import Wawo.Tlp.Framing

/-!
# Streams that are not frames (`hlen_packet.hpp`)

The peer chooses the length prefixes. `framesBefore` is what a stream holds before its first invalid
one, and `Robust` says that no call fails on the stream and exactly these are returned. A prefix of zero
stops at an assertion, before the branch for it; after a prefix over the capacity `decode_packets` is
still in `S_READ_LEN`, four bytes further, and reads on; a payload too large for a packet throws.
`Clean` streams are those where none of this happens: the calls are robust on these and on no others.
-/

namespace Wawo

open Lts

namespace HlenPacket

/-- The complete frames of a stream before the first invalid length prefix, zero or over the capacity. -/
def framesBefore (capacity : Nat) (stream : List Byte) : List (List Byte) :=
  let n := readImpl 4 stream
  if stream.length < 4 ∨ n = 0 ∨ capacity < n ∨ stream.length < 4 + n then []
  else (stream.drop 4).take n :: framesBefore capacity (stream.drop (4 + n))
termination_by stream.length

/-- Streams with nothing in them that `decode_packets` fails on, and the frames they hold before the
first invalid length prefix. Behind a prefix over the capacity no complete frame follows. -/
inductive Clean (capacity : Nat) : List Byte → List (List Byte) → Prop
  | short {s : List Byte} : s.length < 4 → Clean capacity s []
  | cut {s : List Byte} : 4 ≤ s.length → 0 < readImpl 4 s → readImpl 4 s ≤ capacity → s.length < 4 + readImpl 4 s → Clean capacity s []
  | frame {s : List Byte} {cs : List (List Byte)} : 4 + readImpl 4 s ≤ s.length → 0 < readImpl 4 s → readImpl 4 s ≤ capacity →
      readImpl 4 s ≤ packMaxRightCapacity → Clean capacity (s.drop (4 + readImpl 4 s)) cs →
      Clean capacity s ((s.drop 4).take (readImpl 4 s) :: cs)
  | oversize {s : List Byte} : 4 ≤ s.length → capacity < readImpl 4 s → Clean capacity (s.drop 4) [] → Clean capacity s []

/-- `pending` is clean for the parser, which has read the length of the frame in front of it or not. -/
def CleanAt (capacity : Nat) (tlp : HlenPacket) (pending : List Byte) (cs : List (List Byte)) : Prop :=
  match tlp.mParseState with
  | .readLen => Clean capacity pending cs
  | .readContent =>
    0 < tlp.mSize ∧ tlp.mSize ≤ capacity ∧
      (pending.length < tlp.mSize ∧ cs = [] ∨
        tlp.mSize ≤ pending.length ∧ tlp.mSize ≤ packMaxRightCapacity ∧
          ∃ cs', cs = pending.take tlp.mSize :: cs' ∧ Clean capacity (pending.drop tlp.mSize) cs')

/-- How a call ends on a clean stream: as on a stream of frames, or at a prefix over the capacity with no
frame to come. -/
def EndedClean (tlp : HlenPacket) (bytes : List Byte) (rest : List (List Byte)) (size idx : Nat) (ecO : Int) : Prop :=
  tlp.Ended bytes size idx ecO ∨ ecO = eTlpSocketBroken ∧ rest = []

theorem Clean.eq_framesBefore {capacity : Nat} {s : List Byte} {cs : List (List Byte)} (h : Clean capacity s cs) :
    cs = framesBefore capacity s := by
  induction h with
  | short hlt => rw [framesBefore, if_pos (.inl hlt)]
  | cut h4 hpos hcap hlt => rw [framesBefore, if_pos (.inr (.inr (.inr hlt)))]
  | frame hle hpos hcap _ _ ih => rw [framesBefore, if_neg (by omega), ← ih]
  | oversize h4 hcap _ _ => rw [framesBefore, if_pos (.inr (.inr (.inl hcap)))]

/-! ### Rounds -/

section

variable {s : Decoding} {q : BoundedQueue Byte} {more : List Byte} {cs : List (List Byte)}

/-- A length is read off a clean stream, which is clean behind it. -/
theorem decodeLen_clean (hq : s.buffer.Refines q) (h4 : 4 ≤ q.count) (hc : Clean q.capacity (q.items ++ more) cs) :
    ∃ buffer n, buffer.Refines (q.skip 4) ∧
      (decodeLen s = .ok { s with buffer := buffer, tlp := ⟨.readContent, n⟩ } ∧
          CleanAt q.capacity ⟨.readContent, n⟩ ((q.skip 4).items ++ more) cs ∨
        decodeLen s = .ok { s with buffer := buffer, tlp := { s.tlp with mSize := n }, ecO := eTlpSocketBroken, bExit := true } ∧
          cs = [] ∧ Clean q.capacity ((q.skip 4).items ++ more) []) := by
  obtain ⟨buffer, hbuffer, hs⟩ := decodeLen_eq hq h4
  have hfront : readImpl 4 (q.front 4) = readImpl 4 (q.items ++ more) := by
    rw [BoundedQueue.front, readImpl_take, readImpl_append h4]
  have hdrop : (q.skip 4).items ++ more = (q.items ++ more).drop 4 := (List.drop_append_of_le_length h4).symm
  rw [hfront] at hs
  refine ⟨buffer, readImpl 4 (q.items ++ more), hbuffer, ?_⟩
  rw [hs, hdrop]
  cases hc with
  | short hlt =>
    rw [List.length_append] at hlt
    unfold BoundedQueue.count at h4
    omega
  | cut h4' hpos hcap hlt =>
    rw [require_eq hpos, ok_bind, if_neg (Nat.not_lt.mpr hcap)]
    refine .inl ⟨rfl, hpos, hcap, .inl ⟨?_, rfl⟩⟩
    rw [List.length_drop]
    exact Nat.sub_lt_left_of_lt_add h4' hlt
  | frame hle hpos hcap hright hrest =>
    rw [require_eq hpos, ok_bind, if_neg (Nat.not_lt.mpr hcap)]
    refine .inl ⟨rfl, hpos, hcap, .inr ⟨?_, hright, _, rfl, ?_⟩⟩
    · rw [List.length_drop]
      exact Nat.le_sub_of_add_le' hle
    · rw [List.drop_drop]
      exact hrest
  | oversize h4' hcap hrest =>
    rw [require_eq (Nat.zero_lt_of_lt hcap), ok_bind, if_pos hcap]
    exact .inr ⟨rfl, rfl, hrest⟩

end

/-- What the rounds of a call keep on a clean stream: `done` is returned, and `rest` is to come. -/
structure Decoding.CleanInv (more : List Byte) (cs : List (List Byte)) (capacity size : Nat) (s : Decoding)
    (done rest : List (List Byte)) (q : BoundedQueue Byte) : Prop where
  refines : s.buffer.Refines q
  capacity_eq : q.capacity = capacity
  split : cs = done ++ rest
  cleanAt : CleanAt capacity s.tlp (q.items ++ more) rest
  arrives : List.Forall₂ Packet.Holds s.arrives done
  idx_le : s.arrives.length ≤ size
  running : s.bExit = false → s.ecO = ok
  stopped : s.bExit = true → s.tlp.EndedClean q.items rest size s.arrives.length s.ecO

theorem decodeRound_clean {more : List Byte} {cs : List (List Byte)} {capacity size : Nat} {s : Decoding}
    {done rest : List (List Byte)} {q : BoundedQueue Byte} (h : s.CleanInv more cs capacity size done rest q) (hrun : s.bExit = false) :
    ∃ s' done' rest' q', decodeRound size s = .ok s' ∧ s'.CleanInv more cs capacity size done' rest' q' ∧ q'.count ≤ q.count ∧
      (s'.bExit = false → q'.count < q.count) := by
  obtain ⟨hq, rfl, hsplit, hclean, harr, hidx, hok, -⟩ := h
  have hec := hok hrun
  have hgoes : ∀ {P : Prop}, s.bExit = true → P := fun he => by rw [hrun] at he; cases he
  have hclean' := hclean
  unfold decodeRound
  unfold CleanAt at hclean'
  cases hst : s.tlp.mParseState with
  | readLen =>
    rw [hst] at hclean'
    rcases Nat.lt_or_ge q.count 4 with hlt | h4
    · obtain ⟨buffer, hs, hb⟩ := decodeLen_short hq hlt
      refine ⟨_, done, rest, q, hs, ⟨hb, rfl, hsplit, hclean, harr, hidx, (fun h => by cases h), fun _ => .inl (.inl ⟨hec, ?_⟩)⟩, Nat.le_refl _, fun h => by cases h⟩
      rw [Starved, hst]
      exact hlt
    · obtain ⟨buffer, n, hb, ⟨hs, hat⟩ | ⟨hs, rfl, hrest⟩⟩ := decodeLen_clean hq h4 hclean'
      · refine ⟨_, done, rest, _, hs, ⟨hb, rfl, hsplit, hat, harr, hidx, hok, hgoes⟩, ?_, fun _ => ?_⟩
        all_goals
          rw [BoundedQueue.count_skip]
          omega
      · refine ⟨_, done, [], _, hs, ⟨hb, rfl, hsplit, ?_, harr, hidx, (fun h => by cases h), fun _ => .inr ⟨rfl, rfl⟩⟩, ?_, fun h => by cases h⟩
        · unfold CleanAt
          rw [hst]
          exact hrest
        · rw [BoundedQueue.count_skip]
          exact Nat.sub_le ..
  | readContent =>
    rw [hst] at hclean'
    obtain ⟨hpos, hcap, hcontent⟩ := hclean'
    rcases Nat.lt_or_ge q.count s.tlp.mSize with hlt | hle
    · refine ⟨_, done, rest, q, decodeContent_short hq hlt, ⟨hq, rfl, hsplit, hclean, harr, hidx, (fun h => by cases h), fun _ => .inl (.inl ⟨hec, ?_⟩)⟩,
        Nat.le_refl _, fun h => by cases h⟩
      rw [Starved, hst]
      exact hlt
    · rcases hcontent with ⟨hlt, -⟩ | ⟨hlen, hright, rest', rfl, hrest⟩
      · rw [List.length_append] at hlt
        unfold BoundedQueue.count at hle
        omega
      have htake : s.tlp.mSize = ((q.items ++ more).take s.tlp.mSize).length := (List.length_take_of_le hlen).symm
      have hfits : Fits q.capacity ((q.items ++ more).take s.tlp.mSize) :=
        ⟨List.ne_nil_of_length_pos (htake ▸ hpos), htake ▸ hcap, htake ▸ hright⟩
      rcases decodeContent_spec hq htake (List.take_append_drop ..).symm hfits hidx with
        ⟨hlt, -⟩ | ⟨-, hfull, hs⟩ | ⟨-, hroom, buffer, pack, hpack, hs, hb, hitems⟩
      · exact absurd (htake ▸ hlt) (Nat.not_lt.mpr hle)
      · refine ⟨_, done, _, q, hs, ⟨hq, rfl, hsplit, hclean, harr, hidx, (fun h => by cases h), fun _ => .inl (.inr ⟨rfl, ?_, hfull⟩)⟩, Nat.le_refl _, fun h => by cases h⟩
        rw [CompleteFrame, hst]
        exact hle
      · rw [← htake] at hb hitems
        refine ⟨_, done ++ [(q.items ++ more).take s.tlp.mSize], rest', _, hs, ⟨hb, rfl, ?_, ?_, ?_, ?_, hok, hgoes⟩, ?_, fun _ => ?_⟩
        · rw [hsplit, List.append_assoc]
          rfl
        · show Clean _ _ _
          rw [hitems]
          exact hrest
        · exact List.rel_append harr (.cons hpack .nil)
        · rw [List.length_append]
          exact hroom
        all_goals
          rw [BoundedQueue.count_skip]
          omega

/-- A call on a clean stream fails at no assertion, and returns frames from the front of those before the
first invalid prefix. -/
theorem decodePackets_clean {tlp : HlenPacket} {buffer : RingBuffer} {q : BoundedQueue Byte} {more : List Byte}
    {cs : List (List Byte)} (size : Nat) (hq : buffer.Refines q) (hclean : CleanAt q.capacity tlp (q.items ++ more) cs) :
    ∃ r done rest q', tlp.decodePackets buffer size = .ok r ∧ cs = done ++ rest ∧ List.Forall₂ Packet.Holds r.arrives done ∧
      r.buffer.Refines q' ∧ q'.capacity = q.capacity ∧ CleanAt q.capacity r.tlp (q'.items ++ more) rest ∧
      r.tlp.EndedClean q'.items rest size r.arrives.length r.ecO := by
  have hstart : Decoding.CleanInv more cs q.capacity size ⟨tlp, buffer, [], ok, false⟩ [] cs q :=
    ⟨hq, rfl, rfl, hclean, .nil, Nat.zero_le _, fun _ => rfl, nofun⟩
  obtain ⟨s, q', hs, ⟨done, rest, h⟩, hexit, -⟩ :=
    decodeLoop_inv (I := fun s q' => ∃ done rest, s.CleanInv more cs q.capacity size done rest q') (fun _ _ ⟨_, _, h⟩ => h.refines)
      (fun s q' ⟨done, rest, h⟩ hrun => by
        obtain ⟨s', done', rest', q'', hs, h', hle, hless⟩ := decodeRound_clean h hrun
        exact ⟨s', q'', hs, ⟨done', rest', h'⟩, hle, hless⟩)
      ⟨[], cs, hstart⟩
  refine ⟨s.result, done, rest, q', ?_, h.split, h.arrives, h.refines, h.capacity_eq, h.cleanAt, h.stopped hexit⟩
  rw [decodePackets, hs, ok_bind, pure_eq_ok]
  rfl

end HlenPacket

namespace Link

open HlenPacket

/-- A call on what a stream has come to, with an array of `size`, returns the frames before the first
invalid prefix: none other, all of them where it reports such a prefix, and all that are in the buffer
where it reports that there is nothing more to do. -/
structure Returns (frames : List (List Byte)) (s : Link) (size : Nat) (r : TlpResult) : Prop where
  ecO_mem : r.ecO ∈ [ok, eTlpTryAgain, eTlpSocketBroken, eTlpInvalidPacket]
  returned : s.payloads ++ r.arrives.map Packet.bytes <+: frames
  invalid : r.ecO = eTlpSocketBroken ∨ r.ecO = eTlpInvalidPacket → s.payloads ++ r.arrives.map Packet.bytes = frames
  ok_complete : r.ecO = ok → ¬ r.tlp.CompleteFrame r.buffer.bytes
  ok_written : r.ecO = ok → s.toWrite = [] → s.payloads ++ r.arrives.map Packet.bytes = frames
  tryAgain_full : r.ecO = eTlpTryAgain → r.arrives.length = size

/-- In however many chunks the stream is written to a new buffer and whatever calls are made in between,
no call fails, and each returns what it has to. -/
def Robust (capacity : Nat) (stream : List Byte) : Prop :=
  ∀ (mSize : Nat) (es : List LinkEvent), (∀ size, .decode size ∈ es → 1 ≤ size) →
    ∃ buffer s, RingBuffer.new capacity = .ok buffer ∧ exec (Link.step decodePackets) es (.start stream buffer (.new mSize)) = .ok s ∧
      ∀ size, 1 ≤ size → ∃ r, s.tlp.decodePackets s.buffer size = .ok r ∧ Returns (framesBefore capacity stream) s size r

/-- Of the frames `cs` of a clean stream, the first have arrived and the others are on their way. -/
structure FlowsClean (capacity : Nat) (cs : List (List Byte)) (s : Link) (rest : List (List Byte)) (q : BoundedQueue Byte) : Prop where
  refines : s.buffer.Refines q
  capacity_eq : q.capacity = capacity
  arrived : ∃ done, cs = done ++ rest ∧ List.Forall₂ Packet.Holds s.arrived done
  cleanAt : CleanAt capacity s.tlp (q.items ++ s.toWrite) rest

variable {capacity : Nat} {cs rest : List (List Byte)} {s : Link} {q : BoundedQueue Byte}

theorem FlowsClean.step (e : LinkEvent) (h : FlowsClean capacity cs s rest q) :
    ∃ s' rest' q', Link.step decodePackets e s = .ok s' ∧ FlowsClean capacity cs s' rest' q' := by
  obtain ⟨hq, rfl, ⟨done, rfl, harr⟩, hclean⟩ := h
  cases e with
  | write n =>
    by_cases hn : s.toWrite.take n = []
    · exact ⟨s, rest, q, if_pos hn, hq, rfl, ⟨done, rfl, harr⟩, hclean⟩
    · obtain ⟨written, buffer, q', hw, hb, hcap, hbytes, -⟩ := hq.write_chunk hn
      refine ⟨{ s with toWrite := s.toWrite.drop written, buffer := buffer }, rest, q', ?_, hb, hcap, ⟨done, rfl, harr⟩, ?_⟩
      · unfold Link.step
        dsimp only
        rw [if_neg hn, hw, ok_bind]
        rfl
      · rw [hbytes]
        exact hclean
  | decode size =>
    obtain ⟨r, done', rest', q', hr, rfl, harr', hq', hcap, hclean', -⟩ := decodePackets_clean size hq hclean
    refine ⟨{ s with buffer := r.buffer, tlp := r.tlp, arrived := s.arrived ++ r.arrives }, rest', q', ?_, hq', hcap,
      ⟨done ++ done', (List.append_assoc ..).symm, List.rel_append harr harr'⟩, hclean'⟩
    rw [Link.step, hr, ok_bind, pure_eq_ok]

theorem FlowsClean.exec (es : List LinkEvent) (h : FlowsClean capacity cs s rest q) :
    ∃ s' rest' q', Lts.exec (Link.step decodePackets) es s = .ok s' ∧ FlowsClean capacity cs s' rest' q' := by
  induction es generalizing s rest q with
  | nil => exact ⟨s, rest, q, rfl, h⟩
  | cons e es ih =>
    obtain ⟨s₁, rest₁, q₁, hs, h₁⟩ := h.step e
    obtain ⟨s', rest', q', hs', h'⟩ := ih h₁
    refine ⟨s', rest', q', ?_, h'⟩
    rw [Lts.exec, hs]
    exact hs'

/-- A parser that waits for the end of a written stream has no frame to come. -/
theorem cleanAt_starved {tlp : HlenPacket} {bytes : List Byte} (h : CleanAt capacity tlp bytes rest) (hs : tlp.Starved bytes) : rest = [] := by
  unfold CleanAt at h
  unfold Starved at hs
  cases hst : tlp.mParseState with
  | readLen =>
    rw [hst] at h hs
    have hs : bytes.length < 4 := hs
    cases h with
    | frame hle => omega
    | _ => rfl
  | readContent =>
    rw [hst] at h hs
    rcases h.2.2 with ⟨-, rfl⟩ | ⟨hle, -⟩
    · rfl
    · exact absurd hs (Nat.not_lt.mpr hle)

theorem FlowsClean.returns (h : FlowsClean capacity cs s rest q) (size : Nat) :
    ∃ r, s.tlp.decodePackets s.buffer size = .ok r ∧ Returns cs s size r := by
  obtain ⟨hq, rfl, ⟨done, rfl, harr⟩, hclean⟩ := h
  obtain ⟨r, done', rest', q', hr, rfl, harr', hq', hcap, hclean', hend⟩ := decodePackets_clean size hq hclean
  have hreturned : s.payloads ++ r.arrives.map Packet.bytes ++ rest' = done ++ (done' ++ rest') := by
    rw [payloads, bytes_of_holds harr, bytes_of_holds harr', List.append_assoc]
  have hall (hnil : rest' = []) : s.payloads ++ r.arrives.map Packet.bytes = done ++ (done' ++ rest') := by
    rw [← hreturned, hnil, List.append_nil]
  refine ⟨r, hr, ?_⟩
  rcases hend with (⟨hec, hstarved⟩ | ⟨hec, -, hfull⟩) | ⟨hec, hnil⟩
  · refine ⟨by rw [hec]; decide, ⟨rest', hreturned⟩, fun he => ?_, fun _ => ?_, fun _ hw => hall ?_, fun he => ?_⟩
    · rw [hec] at he
      exact absurd he (by decide)
    · rw [hq'.bytes_eq]
      exact hstarved.not_complete
    · rw [hw, List.append_nil] at hclean'
      exact cleanAt_starved hclean' hstarved
    · rw [hec] at he
      cases he
  · refine ⟨by rw [hec]; decide, ⟨rest', hreturned⟩, fun he => ?_, fun he => ?_, fun he => ?_, fun _ => hfull⟩
    · rw [hec] at he
      exact absurd he (by decide)
    all_goals
      rw [hec] at he
      cases he
  · refine ⟨by rw [hec]; decide, ⟨rest', hreturned⟩, fun _ => hall hnil, fun he => ?_, fun _ _ => hall hnil, fun he => ?_⟩
    all_goals
      rw [hec] at he
      cases he

end Link

/-! ### Streams that are not clean -/

namespace HlenPacket

variable {tlp : HlenPacket} {buffer : RingBuffer} {q : BoundedQueue Byte}

/-- A length of zero stops at the assertion. -/
theorem decodePackets_zero (size : Nat) (hq : buffer.Refines q) (hst : tlp.mParseState = .readLen) (h4 : 4 ≤ q.count)
    (hzero : readImpl 4 (q.front 4) = 0) : tlp.decodePackets buffer size = .error .hlenSize := by
  obtain ⟨st, mSize⟩ := tlp
  obtain rfl : st = .readLen := hst
  obtain ⟨_, _, hlen⟩ := decodeLen_eq (s := ⟨⟨.readLen, mSize⟩, buffer, [], ok, false⟩) hq h4
  have hround : decodeRound size ⟨⟨.readLen, mSize⟩, buffer, [], ok, false⟩ = .error .hlenSize := by
    refine hlen.trans ?_
    rw [hzero]
    rfl
  unfold decodePackets decodeLoop
  rw [loopWhile, if_pos (by rfl), hround]
  rfl

/-- A length is taken from a buffer that holds no more. -/
theorem decodePackets_len (size : Nat) (hq : buffer.Refines q) (hst : tlp.mParseState = .readLen) (h4 : q.count = 4)
    (hpos : 0 < readImpl 4 (q.front 4)) (hcap : readImpl 4 (q.front 4) ≤ q.capacity) :
    ∃ buffer', buffer'.Refines (q.skip 4) ∧
      tlp.decodePackets buffer size = .ok ⟨⟨.readContent, readImpl 4 (q.front 4)⟩, buffer', [], ok⟩ := by
  obtain ⟨st, mSize⟩ := tlp
  obtain rfl : st = .readLen := hst
  obtain ⟨buffer', hbuffer, hlen⟩ := decodeLen_eq (s := ⟨⟨.readLen, mSize⟩, buffer, [], ok, false⟩) hq h4.ge
  rw [require_eq hpos, ok_bind, if_neg (Nat.not_lt.mpr hcap)] at hlen
  have hround : decodeRound size ⟨⟨.readLen, mSize⟩, buffer, [], ok, false⟩ =
      .ok ⟨⟨.readContent, readImpl 4 (q.front 4)⟩, buffer', [], ok, false⟩ := hlen
  have hshort : (q.skip 4).count < readImpl 4 (q.front 4) := by
    rw [BoundedQueue.count_skip, h4]
    exact hpos
  have hround' : decodeRound size ⟨⟨.readContent, readImpl 4 (q.front 4)⟩, buffer', [], ok, false⟩ =
      .ok ⟨⟨.readContent, readImpl 4 (q.front 4)⟩, buffer', [], ok, true⟩ := decodeContent_short hbuffer hshort
  refine ⟨buffer', hbuffer, ?_⟩
  unfold decodePackets decodeLoop
  rw [loopWhile_next rfl hround, loopWhile_next rfl hround', loopWhile_done rfl, ok_bind, pure_eq_ok]

/-- A payload is taken from a buffer that holds no more. -/
theorem decodePackets_content (size : Nat) (hq : buffer.Refines q) (hst : tlp.mParseState = .readContent)
    (hsize : tlp.mSize = q.items.length) (hfit : Fits q.capacity q.items) :
    ∃ buffer' pack, buffer'.Refines (q.skip q.count) ∧ pack.Holds q.items ∧
      tlp.decodePackets buffer (size + 1) = .ok ⟨⟨.readLen, q.items.length⟩, buffer', [pack], ok⟩ := by
  obtain ⟨st, mSize⟩ := tlp
  obtain rfl : st = .readContent := hst
  obtain rfl : mSize = q.items.length := hsize
  rcases decodeContent_spec (s := ⟨⟨.readContent, q.items.length⟩, buffer, [], ok, false⟩) hq rfl
    (show q.items ++ [] = q.items ++ [] from rfl) hfit (Nat.zero_le (size + 1)) with ⟨hlt, -⟩ | ⟨-, hfull, -⟩ | ⟨-, -, buffer₁, pack, hpack, hs, hb, -⟩
  · exact absurd hlt (Nat.lt_irrefl _)
  · exact absurd hfull (Nat.succ_ne_zero size).symm
  have hround : decodeRound (size + 1) ⟨⟨.readContent, q.items.length⟩, buffer, [], ok, false⟩ =
      .ok ⟨⟨.readLen, q.items.length⟩, buffer₁, [pack], ok, false⟩ := hs
  have hempty : (q.skip q.items.length).count < 4 := by
    rw [BoundedQueue.count_skip, BoundedQueue.count, Nat.sub_self]
    exact Nat.succ_pos 3
  obtain ⟨buffer₂, hs₂, hb₂⟩ := decodeLen_short (s := ⟨⟨.readLen, q.items.length⟩, buffer₁, [pack], ok, false⟩) hb hempty
  have hround₂ : decodeRound (size + 1) ⟨⟨.readLen, q.items.length⟩, buffer₁, [pack], ok, false⟩ =
      .ok ⟨⟨.readLen, q.items.length⟩, buffer₂, [pack], ok, true⟩ := hs₂
  obtain ⟨n, hn⟩ : ∃ n, buffer.count = n + 1 := by
    rw [hq.count_eq]
    exact Nat.exists_eq_add_one_of_ne_zero (Nat.pos_iff_ne_zero.mp (List.length_pos_iff.mpr hfit.ne_nil))
  refine ⟨buffer₂, pack, hb₂, hpack, ?_⟩
  unfold decodePackets decodeLoop
  rw [hn, loopWhile_next rfl hround, loopWhile_next rfl hround₂, loopWhile_done rfl, ok_bind, pure_eq_ok]

/-- A payload that no packet can take in is not returned. -/
theorem decodePackets_large (size : Nat) (hq : buffer.Refines q) (hst : tlp.mParseState = .readContent)
    (hsize : tlp.mSize ≤ q.count) (hlarge : packMaxRightCapacity < tlp.mSize) (r : TlpResult) :
    tlp.decodePackets buffer (size + 1) ≠ .ok r := by
  obtain ⟨st, mSize⟩ := tlp
  obtain rfl : st = .readContent := hst
  have hpos : 0 < mSize := Nat.zero_lt_of_lt hlarge
  have hidx : ([] : List Packet).length ≠ size + 1 := (Nat.succ_ne_zero size).symm
  intro hr
  unfold decodePackets decodeLoop at hr
  rw [loopWhile, if_pos (by rfl)] at hr
  obtain ⟨s, hs, -⟩ := bind_eq_ok.mp hr
  obtain ⟨s₁, hround, -⟩ := bind_eq_ok.mp hs
  have hcontent : decodeContent (size + 1) ⟨⟨.readContent, mSize⟩, buffer, [], ok, false⟩ = .ok s₁ := hround
  unfold decodeContent at hcontent
  dsimp only at hcontent
  rw [require_eq hpos, ok_bind, if_neg (Nat.pos_iff_ne_zero.mp hpos), hq.count_eq, if_neg (Nat.not_lt.mpr hsize),
    if_neg hidx] at hcontent
  obtain ⟨p, hp, -⟩ := bind_eq_ok.mp hcontent
  obtain ⟨-, hright, -⟩ := Packet.new_eq_ok.mp hp
  exact absurd (Nat.le_trans (Nat.le_max_left _ _) hright) (Nat.not_le.mpr hlarge)

end HlenPacket

namespace Link

open HlenPacket

variable {capacity : Nat} {s : Link}

/-- Nothing is in the buffer and the parser is between two frames. -/
structure Idle (capacity : Nat) (s : Link) : Prop where
  readLen : s.tlp.mParseState = .readLen
  buffer : ∃ q, s.buffer.Refines q ∧ q.capacity = capacity ∧ q.items = []

/-- Bytes of the stream are written to an empty buffer. -/
theorem step_write {q : BoundedQueue Byte} {n : Nat} (hq : s.buffer.Refines q) (hempty : q.items = []) (hpos : 0 < n) (hcap : n ≤ q.capacity)
    (hle : n ≤ s.toWrite.length) :
    ∃ buffer q', Link.step decodePackets (.write n) s = .ok { s with toWrite := s.toWrite.drop n, buffer := buffer } ∧
      buffer.Refines q' ∧ q'.capacity = q.capacity ∧ q'.items = s.toWrite.take n := by
  have hlength : (s.toWrite.take n).length = n := List.length_take_of_le hle
  have hroom : n ≤ q.leftCapacity := by rwa [BoundedQueue.leftCapacity, BoundedQueue.count, hempty]
  have hlength_pos : 0 < (s.toWrite.take n).length := Nat.lt_of_lt_of_eq hpos hlength.symm
  obtain ⟨buffer, hw, hb⟩ := hq.write hlength_pos (Nat.le_refl (s.toWrite.take n).length)
  rw [List.take_length] at hb
  have hne : s.toWrite.take n ≠ [] := List.ne_nil_of_length_pos hlength_pos
  refine ⟨buffer, _, ?_, hb, rfl, ?_⟩
  · unfold Link.step
    dsimp only
    rw [if_neg hne, hw, ok_bind, hlength, Nat.min_eq_left hroom]
    rfl
  · rw [q.items_write_of_le (by rwa [hlength]), hempty, List.nil_append]

/-- The length of the next frame is written. -/
theorem Idle.write_len (hi : s.Idle capacity) (h4 : 4 ≤ s.toWrite.length) :
    ∃ buffer q, Link.step decodePackets (.write 4) s = .ok { s with toWrite := s.toWrite.drop 4, buffer := buffer } ∧
      buffer.Refines q ∧ q.capacity = capacity ∧ q.count = 4 ∧ readImpl 4 (q.front 4) = readImpl 4 s.toWrite ∧ (q.skip 4).items = [] := by
  obtain ⟨q, hq, rfl, hempty⟩ := hi.buffer
  have hmin : 4 ≤ q.capacity := Nat.le_trans (by decide) hq.min_le
  obtain ⟨buffer, q', hs, hb, hcap, hitems⟩ := step_write hq hempty (by decide) hmin h4
  refine ⟨buffer, q', hs, hb, hcap, ?_, ?_, ?_⟩
  · rw [BoundedQueue.count, hitems, List.length_take_of_le h4]
  · rw [BoundedQueue.front, readImpl_take, hitems, readImpl_take]
  · rw [BoundedQueue.items_skip, hitems]
    exact List.drop_eq_nil_of_le (List.length_take_le ..)

theorem Idle.zero (hi : s.Idle capacity) (h4 : 4 ≤ s.toWrite.length) (hzero : readImpl 4 s.toWrite = 0) (s' : Link) :
    Lts.exec (Link.step decodePackets) [.write 4, .decode 1] s ≠ .ok s' := by
  obtain ⟨buffer, q, hs, hb, -, hcount, hfront, -⟩ := hi.write_len h4
  have hcall := decodePackets_zero 1 hb hi.readLen hcount.ge (hfront.trans hzero)
  have hstep : Link.step decodePackets (.decode 1) { s with toWrite := s.toWrite.drop 4, buffer := buffer } = .error .hlenSize := by
    rw [Link.step]
    dsimp only
    rw [hcall]
    rfl
  rw [exec_cons hs, Lts.exec, hstep]
  intro h
  cases h

theorem Idle.oversize (hi : s.Idle capacity) (h4 : 4 ≤ s.toWrite.length) (hover : capacity < readImpl 4 s.toWrite) :
    ∃ s₁, Lts.exec (Link.step decodePackets) [.write 4, .decode 1] s = .ok s₁ ∧ s₁.Idle capacity ∧
      s₁.toWrite = s.toWrite.drop 4 ∧ s₁.payloads = s.payloads := by
  obtain ⟨buffer, q, hs, hb, rfl, hcount, hfront, hempty⟩ := hi.write_len h4
  obtain ⟨r, hr, -, harr, hst, hb'⟩ := decodePackets_oversize 1 hb hi.readLen hcount.ge (by rwa [hfront])
  have hstep : Link.step decodePackets (.decode 1) { s with toWrite := s.toWrite.drop 4, buffer := buffer } =
      .ok ⟨s.toWrite.drop 4, r.buffer, r.tlp, s.arrived⟩ := by
    rw [Link.step]
    dsimp only
    rw [hr, ok_bind, harr, List.append_nil, pure_eq_ok]
  refine ⟨⟨s.toWrite.drop 4, r.buffer, r.tlp, s.arrived⟩, ?_, ⟨hst, _, hb', rfl, hempty⟩, rfl, rfl⟩
  rw [exec_cons hs, exec_cons hstep, Lts.exec]

/-- The length of a frame is read, and then its payload is written. -/
theorem Idle.payload (hi : s.Idle capacity) {n : Nat} (hn : readImpl 4 s.toWrite = n) (hpos : 0 < n) (hcap : n ≤ capacity)
    (hle : 4 + n ≤ s.toWrite.length) :
    ∃ buffer q, Lts.exec (Link.step decodePackets) [.write 4, .decode 1, .write n] s =
        .ok { s with toWrite := s.toWrite.drop (4 + n), buffer := buffer, tlp := ⟨.readContent, n⟩ } ∧
      buffer.Refines q ∧ q.capacity = capacity ∧ q.items = (s.toWrite.drop 4).take n ∧ q.items.length = n := by
  obtain ⟨buffer, q, hs, hb, rfl, hcount, hfront, hempty⟩ := hi.write_len (by omega)
  rw [hn] at hfront
  obtain ⟨buffer₁, hb₁, hr⟩ := decodePackets_len 1 hb hi.readLen hcount (by rwa [hfront]) (by rwa [hfront])
  rw [hfront] at hr
  have hs₁ : Link.step decodePackets (.decode 1) { s with toWrite := s.toWrite.drop 4, buffer := buffer } =
      .ok ⟨s.toWrite.drop 4, buffer₁, ⟨.readContent, n⟩, s.arrived⟩ := by
    rw [Link.step]
    dsimp only
    rw [hr, ok_bind, List.append_nil, pure_eq_ok]
  have hrest : n ≤ (s.toWrite.drop 4).length := by
    rw [List.length_drop]
    exact Nat.le_sub_of_add_le' hle
  obtain ⟨buffer₂, q₂, hs₂, hb₂, hcap₂, hitems⟩ :=
    @step_write ⟨s.toWrite.drop 4, buffer₁, ⟨.readContent, n⟩, s.arrived⟩ _ n hb₁ hempty hpos hcap hrest
  refine ⟨buffer₂, q₂, ?_, hb₂, hcap₂, hitems, ?_⟩
  · rw [exec_cons hs, exec_cons hs₁, exec_cons hs₂, Lts.exec, List.drop_drop]
  · rw [hitems, List.length_take_of_le hrest]

theorem Idle.large (hi : s.Idle capacity) {n : Nat} (hn : readImpl 4 s.toWrite = n) (hcap : n ≤ capacity)
    (hle : 4 + n ≤ s.toWrite.length) (hlarge : packMaxRightCapacity < n) (s' : Link) :
    Lts.exec (Link.step decodePackets) [.write 4, .decode 1, .write n, .decode 1] s ≠ .ok s' := by
  obtain ⟨buffer, q, hs, hb, -, -, hlength⟩ := hi.payload hn (Nat.zero_lt_of_lt hlarge) hcap hle
  have hsplit : [LinkEvent.write 4, .decode 1, .write n, .decode 1] = [.write 4, .decode 1, .write n] ++ [.decode 1] := rfl
  rw [hsplit, exec_append hs, exec_singleton]
  intro hs'
  obtain ⟨r, hr, -⟩ := bind_eq_ok.mp hs'
  exact @decodePackets_large ⟨.readContent, n⟩ _ _ 0 hb rfl hlength.ge hlarge r hr

theorem Idle.frame (hi : s.Idle capacity) {n : Nat} (hn : readImpl 4 s.toWrite = n) (hpos : 0 < n) (hcap : n ≤ capacity)
    (hle : 4 + n ≤ s.toWrite.length) (hright : n ≤ packMaxRightCapacity) :
    ∃ s₁, Lts.exec (Link.step decodePackets) [.write 4, .decode 1, .write n, .decode 1] s = .ok s₁ ∧ s₁.Idle capacity ∧
      s₁.toWrite = s.toWrite.drop (4 + n) ∧ s₁.payloads = s.payloads ++ [(s.toWrite.drop 4).take n] := by
  obtain ⟨buffer, q, hs, hb, rfl, hitems, hlength⟩ := hi.payload hn hpos hcap hle
  have hfit : Fits q.capacity q.items :=
    ⟨List.ne_nil_of_length_pos (by rwa [hlength]), by rwa [hlength], by rwa [hlength]⟩
  obtain ⟨buffer', pack, hb', hpack, hr⟩ := @decodePackets_content ⟨.readContent, n⟩ _ _ 0 hb rfl hlength.symm hfit
  have hsplit : [LinkEvent.write 4, .decode 1, .write n, .decode 1] = [.write 4, .decode 1, .write n] ++ [.decode 1] := rfl
  refine ⟨⟨s.toWrite.drop (4 + n), buffer', ⟨.readLen, q.items.length⟩, s.arrived ++ [pack]⟩, ?_, ⟨rfl, _, hb', rfl, ?_⟩, rfl, ?_⟩
  · have hstep : Link.step decodePackets (.decode 1) ⟨s.toWrite.drop (4 + n), buffer, ⟨.readContent, n⟩, s.arrived⟩ =
        .ok ⟨s.toWrite.drop (4 + n), buffer', ⟨.readLen, q.items.length⟩, s.arrived ++ [pack]⟩ := by
      rw [Link.step]
      dsimp only
      rw [hr, ok_bind, pure_eq_ok]
    rw [hsplit, exec_append hs, exec_singleton, hstep]
  · rw [BoundedQueue.items_skip]
    exact List.drop_eq_nil_of_le (Nat.le_refl _)
  · rw [payloads, List.map_append, ← hitems, ← hpack.bytes_eq]
    rfl

/-- A stream on which no run fails, or returns other frames than `cs`, is clean. -/
theorem Idle.clean {cs : List (List Byte)} (hi : s.Idle capacity) (hcs : cs = framesBefore capacity s.toWrite ∨ cs = [])
    (hruns : ∀ es, (∀ size, .decode size ∈ es → 1 ≤ size) →
      ∃ s', Lts.exec (Link.step decodePackets) es s = .ok s' ∧ s'.payloads <+: s.payloads ++ cs) :
    Clean capacity s.toWrite cs := by
  induction hlen : s.toWrite.length using Nat.strong_induction_on generalizing s cs with
  | _ k ih =>
    have hnil (h : s.toWrite.length < 4 ∨ readImpl 4 s.toWrite = 0 ∨ capacity < readImpl 4 s.toWrite ∨
        s.toWrite.length < 4 + readImpl 4 s.toWrite) : cs = [] :=
      hcs.elim (fun he => he.trans (by rw [framesBefore, if_pos h])) id
    by_cases hshort : s.toWrite.length < 4
    · obtain rfl := hnil (.inl hshort)
      exact .short hshort
    have h4 := Nat.le_of_not_lt hshort
    rcases Nat.eq_zero_or_pos (readImpl 4 s.toWrite) with hzero | hpos
    · obtain ⟨s', hs', -⟩ := hruns [.write 4, .decode 1] (by simp)
      exact absurd hs' (hi.zero h4 hzero s')
    rcases Nat.lt_or_ge capacity (readImpl 4 s.toWrite) with hover | hcap
    · obtain rfl := hnil (.inr (.inr (.inl hover)))
      obtain ⟨s₁, hs₁, hi₁, hto, hpay⟩ := hi.oversize h4 hover
      refine .oversize h4 hover (hto ▸ ih _ ?_ hi₁ (.inr rfl) (fun es hes => ?_) rfl)
      · rw [hto, List.length_drop]
        omega
      · obtain ⟨s', hs', hpre⟩ := hruns ([.write 4, .decode 1] ++ es) (by simpa using hes)
        rw [exec_append hs₁] at hs'
        exact ⟨s', hs', by rwa [hpay]⟩
    rcases Nat.lt_or_ge s.toWrite.length (4 + readImpl 4 s.toWrite) with hcut | hle
    · obtain rfl := hnil (.inr (.inr (.inr hcut)))
      exact .cut h4 hpos hcap hcut
    rcases Nat.lt_or_ge packMaxRightCapacity (readImpl 4 s.toWrite) with hlarge | hright
    · obtain ⟨s', hs', -⟩ := hruns [.write 4, .decode 1, .write (readImpl 4 s.toWrite), .decode 1] (by simp)
      exact absurd hs' (hi.large rfl hcap hle hlarge s')
    obtain ⟨s₁, hs₁, hi₁, hto, hpay⟩ := hi.frame rfl hpos hcap hle hright
    rcases hcs with rfl | rfl
    · have hnot : ¬ (s.toWrite.length < 4 ∨ readImpl 4 s.toWrite = 0 ∨ capacity < readImpl 4 s.toWrite ∨
          s.toWrite.length < 4 + readImpl 4 s.toWrite) := by omega
      rw [framesBefore, if_neg hnot] at hruns ⊢
      refine .frame hle hpos hcap hright (hto ▸ ih _ ?_ hi₁ (.inl rfl) (fun es hes => ?_) rfl)
      · rw [hto, List.length_drop]
        omega
      · obtain ⟨s', hs', hpre⟩ :=
          hruns ([.write 4, .decode 1, .write (readImpl 4 s.toWrite), .decode 1] ++ es) (by simpa using hes)
        rw [exec_append hs₁] at hs'
        refine ⟨s', hs', ?_⟩
        rw [hpay, List.append_assoc, hto]
        exact hpre
    · obtain ⟨s', hs', hpre⟩ := hruns [.write 4, .decode 1, .write (readImpl 4 s.toWrite), .decode 1] (by simp)
      obtain rfl := Except.ok.inj (hs₁.symm.trans hs')
      rw [hpay] at hpre
      exact absurd hpre.length_le (by simp)

end Link

open HlenPacket in
/-- The calls on a stream are robust exactly if it is clean: then what is returned are the frames before
its first invalid length prefix, however the stream is cut and whatever calls are made. -/
theorem decodePackets_robust_iff {capacity : Nat} (hmin : minRingBufferSize ≤ capacity) (hmax : capacity ≤ maxRingBufferSize)
    (stream : List Byte) : Link.Robust capacity stream ↔ Clean capacity stream (framesBefore capacity stream) := by
  obtain ⟨buffer, hnew, hq⟩ := RingBuffer.new_refines hmin hmax
  constructor
  · intro h
    have hidle : Link.Idle capacity (.start stream buffer (.new 0)) := ⟨rfl, _, hq, rfl, rfl⟩
    refine hidle.clean (.inl rfl) fun es hes => ?_
    obtain ⟨buffer', s, hnew', hs, hcall⟩ := h 0 es hes
    obtain rfl := Except.ok.inj (hnew.symm.trans hnew')
    obtain ⟨r, -, hr⟩ := hcall 1 (Nat.le_refl 1)
    exact ⟨s, hs, (List.prefix_append _ _).trans hr.returned⟩
  · intro h mSize es _
    have hstart : Link.FlowsClean capacity (framesBefore capacity stream) (.start stream buffer (.new mSize))
        (framesBefore capacity stream) (.empty capacity) := ⟨hq, rfl, ⟨[], rfl, .nil⟩, h⟩
    obtain ⟨s, rest, q, hexec, hs⟩ := hstart.exec es
    exact ⟨buffer, s, hnew, hexec, fun size _ => hs.returns size⟩

/-- A frame, a prefix over the capacity and half a length. -/
theorem decodePackets_robust_oversize : Link.Robust 2048 [0, 0, 0, 1, 7, 0, 1, 0, 0, 0, 0] := by
  have hclean : HlenPacket.Clean 2048 [0, 0, 0, 1, 7, 0, 1, 0, 0, 0, 0] [[7]] :=
    .frame (by decide) (by decide) (by decide) (by decide) (.oversize (by decide) (by decide) (.short (by decide)))
  refine (decodePackets_robust_iff (by decide) (by decide) _).mpr ?_
  rw [← hclean.eq_framesBefore]
  exact hclean

/-- A prefix of zero is an assertion failure. A frame behind a prefix over the capacity is returned by
the call after the one that reports the prefix. -/
theorem decodePackets_fails : ¬ Link.Robust 2048 [0, 0, 0, 0] ∧ ¬ Link.Robust 2048 [0, 1, 0, 0, 0, 0, 0, 1, 7] := by
  refine ⟨fun h => ?_, fun h => ?_⟩
  · obtain ⟨buffer, s, hnew, hexec, -⟩ := h 0 [.write 4, .decode 1] (by simp)
    have hfault : fault? (RingBuffer.new 2048 >>= fun buffer =>
        exec (Link.step HlenPacket.decodePackets) [.write 4, .decode 1] (.start [0, 0, 0, 0] buffer (.new 0))) = some .hlenSize := by
      decide +kernel
    rw [hnew, ok_bind, hexec] at hfault
    cases hfault
  · obtain ⟨buffer, s, hnew, hexec, hcall⟩ := h 0 [.write 9, .decode 1, .decode 1] (by simp)
    have hrun : (RingBuffer.new 2048 >>= fun buffer => exec (Link.step HlenPacket.decodePackets) [.write 9, .decode 1, .decode 1]
        (.start [0, 1, 0, 0, 0, 0, 0, 1, 7] buffer (.new 0))).map Link.payloads = .ok [[7]] := by
      decide +kernel
    rw [hnew, ok_bind, hexec] at hrun
    have hpayloads : s.payloads = [[7]] := Except.ok.inj hrun
    obtain ⟨r, -, hr⟩ := hcall 1 (Nat.le_refl 1)
    have hprefix := hr.returned
    rw [hpayloads, HlenPacket.framesBefore, if_pos (by decide)] at hprefix
    exact absurd hprefix.length_le (by simp)

end Wawo
