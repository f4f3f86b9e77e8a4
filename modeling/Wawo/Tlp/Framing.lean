import Wawo.Tlp.HlenPacket

/-!
# A stream of frames

The bytes of a stream are written to a ring buffer in chunks of any sizes, as much of each as fits, and
`decode_packets` is called in between with arrays of any sizes. `Flows`: the payloads that have arrived
are a front part of those sent, and the bytes in the buffer and those not yet written are the frames of
the others. It holds for any protocol over `hlen_packet` whose calls return what they decode
(`Decodes`); `wire` is what the protocol does to a payload before it is framed.
-/

namespace Wawo

open Lts

/-- A chunk of a stream is written as far as it fits: the bytes in the buffer and the rest of the stream
are as before. -/
theorem RingBuffer.Refines.write_chunk {rb : RingBuffer} {q : BoundedQueue Byte} (h : rb.Refines q) {stream : List Byte} {n : Nat}
    (hn : stream.take n ≠ []) :
    ∃ written rb' q', rb.write (stream.take n) (stream.take n).length = .ok (written, rb') ∧ rb'.Refines q' ∧
      q'.capacity = q.capacity ∧ q'.items ++ stream.drop written = q.items ++ stream ∧
      (q.items.length + stream.length ≤ q.capacity → stream.length ≤ n → stream.drop written = []) := by
  obtain ⟨rb', hw, hb⟩ := h.write (List.length_pos_iff.mpr hn) (Nat.le_refl _)
  rw [List.take_length] at hb
  have hmin : min (stream.take n).length q.leftCapacity = min (min q.leftCapacity n) stream.length := by
    rw [List.length_take]
    omega
  rw [hmin] at hw
  refine ⟨min (min q.leftCapacity n) stream.length, rb', _, hw, hb, rfl, ?_, fun hroom hle => ?_⟩
  · rw [BoundedQueue.items_write, List.append_assoc, List.take_take]
    congr 1
    rcases Nat.le_total (min q.leftCapacity n) stream.length with hle | hle
    · rw [Nat.min_eq_left hle, List.take_append_drop]
    · rw [Nat.min_eq_right hle, List.drop_length, List.take_of_length_le hle, List.append_nil]
  · refine List.drop_eq_nil_of_le ?_
    unfold BoundedQueue.leftCapacity BoundedQueue.count
    omega

/-- The length of a frame is written to an empty ring. -/
theorem RingBuffer.Refines.write_len {rb : RingBuffer} {q : BoundedQueue Byte} (h : rb.Refines q) (hempty : q.items = []) (n : Nat) :
    ∃ rb' q', rb.write (writeImpl 4 n) (writeImpl 4 n).length = .ok (4, rb') ∧ rb'.Refines q' ∧ q'.capacity = q.capacity ∧
      q'.items = writeImpl 4 n := by
  have hlength := length_writeImpl 4 n
  have hroom : 4 ≤ q.leftCapacity := by
    have hmin : 4 ≤ q.capacity := Nat.le_trans (by decide) h.min_le
    rwa [BoundedQueue.leftCapacity, BoundedQueue.count, hempty]
  obtain ⟨rb', hw, hb⟩ := h.write (by rw [hlength]; decide) (Nat.le_refl (writeImpl 4 n).length)
  rw [List.take_length] at hb
  refine ⟨rb', _, ?_, hb, rfl, ?_⟩
  · rw [hw, hlength, Nat.min_eq_left hroom]
  · have hle : (writeImpl 4 n).length ≤ q.leftCapacity := by rwa [hlength]
    rw [q.items_write_of_le hle, hempty, List.nil_append]

/-- The receiving end of a stream: what is still to be written to the buffer, and every packet that a
call has returned. -/
structure Link where
  toWrite : List Byte
  buffer : RingBuffer
  tlp : HlenPacket
  arrived : List Packet
deriving DecidableEq

inductive LinkEvent
  | write (n : Nat) -- the next `n` bytes of the stream, or what is left of it
  | decode (size : Nat)
deriving DecidableEq

namespace Link

def start (stream : List Byte) (buffer : RingBuffer) (tlp : HlenPacket) : Link := ⟨stream, buffer, tlp, []⟩

def step (decode : HlenPacket → RingBuffer → Nat → Except ByteFault TlpResult) (e : LinkEvent) (s : Link) : Except ByteFault Link :=
  match e with
  | .write n =>
    let chunk := s.toWrite.take n
    if chunk = [] then .ok s
    else do
      let (written, buffer) ← s.buffer.write chunk chunk.length
      return { s with toWrite := s.toWrite.drop written, buffer := buffer }
  | .decode size => do
    let r ← decode s.tlp s.buffer size
    return { s with buffer := r.buffer, tlp := r.tlp, arrived := s.arrived ++ r.arrives }

/-- A call of `decode` on a parser with the payloads `rest` to come, in their wired form, returns the
first of them. -/
def Decodes (wire : List Byte → List Byte) (capacity : Nat) (Sent : List Byte → Prop)
    (decode : HlenPacket → RingBuffer → Nat → Except ByteFault TlpResult) : Prop :=
  ∀ tlp buffer q more rest size, buffer.Refines q → q.capacity = capacity → (∀ c ∈ rest, Sent c) →
    tlp.Parses (q.items ++ more) (rest.map wire) →
    ∃ r done rest' q', decode tlp buffer size = .ok r ∧ rest = done ++ rest' ∧ List.Forall₂ Packet.Holds r.arrives done ∧
      r.buffer.Refines q' ∧ q'.capacity = capacity ∧ r.tlp.Parses (q'.items ++ more) (rest'.map wire) ∧
      r.tlp.Ended q'.items size r.arrives.length r.ecO

/-- Of the payloads `cs`, the first have arrived and the others are on their way. -/
structure Flows (wire : List Byte → List Byte) (capacity : Nat) (cs : List (List Byte)) (s : Link)
    (rest : List (List Byte)) (q : BoundedQueue Byte) : Prop where
  refines : s.buffer.Refines q
  capacity_eq : q.capacity = capacity
  arrived : ∃ done, cs = done ++ rest ∧ List.Forall₂ Packet.Holds s.arrived done
  parses : s.tlp.Parses (q.items ++ s.toWrite) (rest.map wire)

variable {wire : List Byte → List Byte} {capacity : Nat} {Sent : List Byte → Prop}
  {decode : HlenPacket → RingBuffer → Nat → Except ByteFault TlpResult} {cs rest : List (List Byte)} {s : Link}
  {q : BoundedQueue Byte}

theorem Flows.step (hd : Decodes wire capacity Sent decode) (hcs : ∀ c ∈ cs, Sent c) (e : LinkEvent)
    (h : Flows wire capacity cs s rest q) :
    ∃ s' rest' q', Link.step decode e s = .ok s' ∧ Flows wire capacity cs s' rest' q' := by
  obtain ⟨hq, hcap, ⟨done, rfl, harr⟩, hp⟩ := h
  cases e with
  | write n =>
    by_cases hn : s.toWrite.take n = []
    · exact ⟨s, rest, q, if_pos hn, hq, hcap, ⟨done, rfl, harr⟩, hp⟩
    · obtain ⟨written, buffer, q', hw, hb, hcap', hbytes, -⟩ := hq.write_chunk hn
      refine ⟨{ s with toWrite := s.toWrite.drop written, buffer := buffer }, rest, q', ?_, hb, hcap'.trans hcap, ⟨done, rfl, harr⟩, ?_⟩
      · unfold Link.step
        dsimp only
        rw [if_neg hn, hw, ok_bind]
        rfl
      · rw [hbytes]
        exact hp
  | decode size =>
    obtain ⟨r, done', rest', q', hr, rfl, harr', hq', hcap', hp', -⟩ :=
      hd s.tlp s.buffer q s.toWrite rest size hq hcap (fun c hc => hcs c (List.mem_append_right _ hc)) hp
    refine ⟨{ s with buffer := r.buffer, tlp := r.tlp, arrived := s.arrived ++ r.arrives }, rest', q', ?_, hq', hcap',
      ⟨done ++ done', (List.append_assoc ..).symm, List.rel_append harr harr'⟩, hp'⟩
    rw [Link.step, hr, ok_bind, pure_eq_ok]

/-- However the stream is cut and whenever `decode` is called, no call fails and `Flows` holds. -/
theorem Flows.exec (hd : Decodes wire capacity Sent decode) (hcs : ∀ c ∈ cs, Sent c) (es : List LinkEvent)
    (h : Flows wire capacity cs s rest q) :
    ∃ s' rest' q', Lts.exec (Link.step decode) es s = .ok s' ∧ Flows wire capacity cs s' rest' q' := by
  induction es generalizing s rest q with
  | nil => exact ⟨s, rest, q, rfl, h⟩
  | cons e es ih =>
    obtain ⟨s₁, rest₁, q₁, hs, h₁⟩ := h.step hd hcs e
    obtain ⟨s', rest', q', hs', h'⟩ := ih h₁
    refine ⟨s', rest', q', ?_, h'⟩
    rw [Lts.exec, hs]
    exact hs'

/-- The contents of the packets that have arrived. -/
def payloads (s : Link) : List (List Byte) := s.arrived.map Packet.bytes

theorem bytes_of_holds {ps : List Packet} {cs : List (List Byte)} (h : List.Forall₂ Packet.Holds ps cs) : ps.map Packet.bytes = cs := by
  induction h with
  | nil => rfl
  | cons hp _ ih => rw [List.map_cons, hp.bytes_eq, ih]

theorem Flows.append (h : Flows wire capacity cs s rest q) : s.payloads ++ rest = cs := by
  obtain ⟨done, rfl, harr⟩ := h.arrived
  rw [payloads, bytes_of_holds harr]

end Link

namespace HlenPacket

/-- While a payload is to come whose frame is all in the buffer, the parser has a complete frame. -/
theorem Parses.complete {tlp : HlenPacket} {pending c : List Byte} {cs : List (List Byte)} (h : tlp.Parses pending (c :: cs))
    (hc : c.length < 2 ^ (8 * 4)) : tlp.CompleteFrame pending := by
  unfold Parses at h
  unfold CompleteFrame
  cases hst : tlp.mParseState with
  | readLen =>
    rw [hst] at h
    have hp : pending = writeImpl 4 c.length ++ (c ++ cs.flatMap frame) := by
      rw [← List.append_assoc]
      exact h
    have hlen : readImpl 4 pending = c.length := by
      rw [hp, readImpl_append (by simp), readImpl_writeImpl hc]
    have hle : 4 + c.length ≤ pending.length := by
      rw [hp, List.length_append, List.length_append, length_writeImpl]
      omega
    exact ⟨by omega, by omega⟩
  | readContent =>
    rw [hst] at h
    obtain ⟨c', cs', hcs, hsize, hp⟩ := h
    show tlp.mSize ≤ pending.length
    rw [hsize, hp, List.length_append]
    exact Nat.le_add_right _ _

/-- More frames at the end are more payloads at the end. -/
theorem Parses.append {tlp : HlenPacket} {pending : List Byte} {cs : List (List Byte)} (h : tlp.Parses pending cs) (cs' : List (List Byte)) :
    tlp.Parses (pending ++ cs'.flatMap frame) (cs ++ cs') := by
  unfold Parses at h ⊢
  cases hst : tlp.mParseState with
  | readLen =>
    rw [hst] at h
    show pending ++ cs'.flatMap frame = (cs ++ cs').flatMap frame
    rw [h, List.flatMap_append]
  | readContent =>
    rw [hst] at h
    obtain ⟨c, cs₁, rfl, hsize, hp⟩ := h
    refine ⟨c, cs₁ ++ cs', rfl, hsize, ?_⟩
    rw [hp, List.append_assoc, List.flatMap_append]

/-- What the parser has taken of the frame that comes next -/
def taken (tlp : HlenPacket) : Nat :=
  match tlp.mParseState with
  | .readLen => 0
  | .readContent => 4

theorem Parses.length_eq {tlp : HlenPacket} {pending : List Byte} {cs : List (List Byte)} (h : tlp.Parses pending cs) :
    pending.length + tlp.taken = (cs.flatMap frame).length := by
  unfold Parses at h
  unfold taken
  cases hst : tlp.mParseState with
  | readLen =>
    rw [hst] at h
    exact congrArg List.length h
  | readContent =>
    rw [hst] at h
    obtain ⟨c, cs', rfl, -, hp⟩ := h
    show pending.length + 4 = _
    rw [hp, List.flatMap_cons, List.length_append, List.length_append, length_frame]
    omega

theorem Parses.length_le {tlp : HlenPacket} {pending : List Byte} {cs : List (List Byte)} (h : tlp.Parses pending cs) :
    pending.length ≤ (cs.flatMap frame).length := by
  have := h.length_eq
  omega

/-- A frame is complete where enough bytes are there. -/
theorem Parses.complete_iff {tlp : HlenPacket} {bytes more c : List Byte} {cs : List (List Byte)} (h : tlp.Parses (bytes ++ more) (c :: cs))
    (hc : c.length < 2 ^ (8 * 4)) : tlp.CompleteFrame bytes ↔ 4 + c.length ≤ bytes.length + tlp.taken := by
  unfold Parses at h
  unfold CompleteFrame taken
  cases hst : tlp.mParseState with
  | readLen =>
    rw [hst, List.flatMap_cons, frame, List.append_assoc] at h
    have hlen (h4 : 4 ≤ bytes.length) : readImpl 4 bytes = c.length := by
      rw [← @readImpl_append 4 bytes more h4, h, readImpl_append (by simp), readImpl_writeImpl hc]
    constructor
    · rintro ⟨h4, hle⟩
      rw [hlen h4] at hle
      show _ ≤ _ + 0
      omega
    · intro hle
      have hle : 4 + c.length ≤ bytes.length + 0 := hle
      have h4 : 4 ≤ bytes.length := by omega
      exact ⟨h4, by rw [hlen h4]; omega⟩
  | readContent =>
    rw [hst] at h
    obtain ⟨c', cs', hcs, hsize, -⟩ := h
    cases hcs
    show tlp.mSize ≤ bytes.length ↔ _ ≤ _ + 4
    omega

/-- The payloads whose frames end within the first `n` bytes -/
def within (n : Nat) : List (List Byte) → List (List Byte)
  | [] => []
  | c :: cs => if 4 + c.length ≤ n then c :: within (n - (4 + c.length)) cs else []

theorem within_append (n : Nat) (done rest : List (List Byte)) : within ((done.flatMap frame).length + n) (done ++ rest) = done ++ within n rest := by
  induction done with
  | nil => simp
  | cons c done ih =>
    rw [List.flatMap_cons, List.length_append, length_frame, List.cons_append, within, if_pos (by omega), List.cons_append, ← ih]
    congr 2
    omega

theorem Parses.within_eq_nil {tlp : HlenPacket} {bytes more : List Byte} {cs : List (List Byte)} (h : tlp.Parses (bytes ++ more) cs)
    (hfit : ∀ c ∈ cs, c.length < 2 ^ (8 * 4)) (hnot : ¬ tlp.CompleteFrame bytes) : within (bytes.length + tlp.taken) cs = [] := by
  cases cs with
  | nil => rfl
  | cons c cs =>
    rw [h.complete_iff (hfit c (by simp))] at hnot
    rw [within, if_neg hnot]

/-- A parser that waits for bytes leaves room for them. -/
theorem Starved.lt_capacity {tlp : HlenPacket} {bytes more : List Byte} {cs : List (List Byte)} {capacity : Nat} (h : tlp.Starved bytes)
    (hp : tlp.Parses (bytes ++ more) cs) (hfit : ∀ c ∈ cs, Fits capacity c) (hmin : minRingBufferSize ≤ capacity) :
    bytes.length < capacity := by
  unfold Starved at h
  unfold Parses at hp
  unfold minRingBufferSize at hmin
  cases hst : tlp.mParseState with
  | readLen =>
    rw [hst] at h
    exact Nat.lt_of_lt_of_le h (by omega)
  | readContent =>
    rw [hst] at h hp
    obtain ⟨c, cs', rfl, hsize, -⟩ := hp
    have hc := (hfit c (by simp)).le_capacity
    exact Nat.lt_of_lt_of_le (h.trans_eq hsize) hc

theorem decodes {capacity : Nat} : Link.Decodes id capacity (Fits capacity) decodePackets := by
  intro tlp buffer q more rest size hq hcap hrest hp
  rw [List.map_id] at hp
  obtain ⟨r, done, rest', q', hr, hd, hend, -⟩ := decodePackets_spec size hq hp (by rw [hcap]; exact hrest)
  refine ⟨r, done, rest', q', hr, hd.split, hd.arrives, hd.refines, hd.capacity_eq.trans hcap, ?_, hend⟩
  rw [List.map_id]
  exact hd.parses

/-- The frames that `encode` makes of the packets it accepts. -/
theorem encode_frames {packets frames : List Packet} (hmade : ∀ p ∈ packets, p.Made)
    (hencode : List.Forall₂ (fun p f => encode p = .ok (ok, some f)) packets frames) :
    frames.flatMap Packet.bytes = (packets.map Packet.bytes).flatMap frame ∧ ∀ p ∈ packets, p.bytes ≠ [] := by
  induction hencode with
  | nil => exact ⟨rfl, nofun⟩
  | @cons p f packets frames hf _ ih =>
    obtain ⟨hstream, hne⟩ := ih fun p hp => hmade p (List.mem_cons_of_mem _ hp)
    obtain ⟨hp, hframe⟩ := encode_holds (hmade p (by simp)).holds hf
    refine ⟨?_, ?_⟩
    · rw [List.flatMap_cons, List.map_cons, List.flatMap_cons, hframe.bytes_eq, hstream]
    · rintro p' hp'
      rcases List.mem_cons.mp hp' with rfl | hp'
      · exact hp
      · exact hne p' hp'

end HlenPacket

namespace Link

open HlenPacket

variable {wire : List Byte → List Byte} {capacity : Nat} {Sent : List Byte → Prop}
  {decode : HlenPacket → RingBuffer → Nat → Except ByteFault TlpResult} {cs rest : List (List Byte)} {s : Link}
  {q : BoundedQueue Byte}

/-- Where a stream has got to: what is returned, what is left when it is all written, how the next call
ends. -/
theorem Flows.state (hd : Decodes wire capacity Sent decode) (hfit : ∀ c, Sent c → Fits capacity (wire c)) (hcs : ∀ c ∈ cs, Sent c)
    (hmin : minRingBufferSize ≤ capacity) (hmax : capacity ≤ maxRingBufferSize) (h : Flows wire capacity cs s rest q) :
    s.payloads <+: cs ∧ (s.toWrite = [] → ¬ s.tlp.CompleteFrame s.buffer.bytes → s.payloads = cs) ∧
      ∀ size, ∃ r, decode s.tlp s.buffer size = .ok r ∧ (r.ecO = ok ∨ r.ecO = eTlpTryAgain) ∧
        (r.ecO = ok → ¬ r.tlp.CompleteFrame r.buffer.bytes ∧ 0 < r.buffer.leftCapacity) ∧
        (r.ecO = eTlpTryAgain ↔ r.tlp.CompleteFrame r.buffer.bytes ∧ r.arrives.length = size) := by
  have happ := h.append
  have hrest : ∀ c ∈ rest, Sent c := fun c hc => hcs c (by rw [← happ]; exact List.mem_append_right _ hc)
  have hp := h.parses
  refine ⟨⟨rest, happ⟩, fun hwritten hno => ?_, fun size => ?_⟩
  · cases rest with
    | nil => rwa [List.append_nil] at happ
    | cons c rest =>
      have hlt : (wire c).length < 2 ^ (8 * 4) := by
        have := (hfit c (hrest c (by simp))).le_capacity
        unfold maxRingBufferSize at hmax
        omega
      rw [hwritten, List.append_nil, ← h.refines.bytes_eq] at hp
      exact absurd (Parses.complete hp hlt) hno
  · obtain ⟨r, done, rest', q', hr, hsplit, -, hq', hcap, hparses, hend⟩ := hd s.tlp s.buffer q s.toWrite rest size h.refines h.capacity_eq hrest hp
    have hrest' : ∀ c ∈ rest'.map wire, Fits capacity c := by
      intro c hc
      obtain ⟨c', hc', rfl⟩ := List.mem_map.mp hc
      exact hfit c' (hrest c' (by rw [hsplit]; exact List.mem_append_right _ hc'))
    refine ⟨r, hr, ?_⟩
    rw [hq'.bytes_eq, hq'.leftCapacity_eq]
    rcases hend with ⟨hec, hstarved⟩ | ⟨hec, hcomplete, hfull⟩
    · have hroom := hstarved.lt_capacity hparses hrest' hmin
      refine ⟨.inl hec, fun _ => ⟨hstarved.not_complete, ?_⟩, fun he => ?_, fun hc => absurd hc.1 hstarved.not_complete⟩
      · exact Nat.sub_pos_of_lt (Nat.lt_of_lt_of_eq hroom hcap.symm)
      · rw [hec] at he
        cases he
    · refine ⟨.inr hec, fun he => ?_, fun _ => ⟨hcomplete, hfull⟩, fun _ => hec⟩
      rw [hec] at he
      cases he

/-- The frames of `cs`, to be written to a new buffer. -/
theorem Flows.start (wire : List Byte → List Byte) (cs : List (List Byte)) {buffer : RingBuffer} (hq : buffer.Refines (.empty capacity)) (mSize : Nat) :
    Flows wire capacity cs (.start ((cs.map wire).flatMap frame) buffer (.new mSize)) cs (.empty capacity) :=
  ⟨hq, rfl, ⟨[], rfl, .nil⟩, rfl⟩

end Link

open HlenPacket in
/-- However the frames of the packets are cut into chunks and whatever calls are made in between, no
call fails, the packets returned are a front part of those sent, in order, and all of them once the
stream is written and no complete frame is left. The next call ends with `OK` only where no complete
frame is left, and there is room for more bytes then; it ends with `E_TLP_TRY_AGAIN` exactly where one
is left, and then the array is full. -/
theorem framing_roundTrip {capacity : Nat} (hmin : minRingBufferSize ≤ capacity) (hmax : capacity ≤ maxRingBufferSize)
    {packets frames : List Packet} (hmade : ∀ p ∈ packets, p.Made)
    (hencode : List.Forall₂ (fun p f => encode p = .ok (ok, some f)) packets frames)
    (hsize : ∀ p ∈ packets, p.bytes.length ≤ capacity ∧ p.bytes.length ≤ packMaxRightCapacity) (mSize : Nat)
    (es : List LinkEvent) :
    ∃ buffer s, RingBuffer.new capacity = .ok buffer ∧
      exec (Link.step decodePackets) es (.start (frames.flatMap Packet.bytes) buffer (new mSize)) = .ok s ∧
      s.payloads <+: packets.map Packet.bytes ∧
      (s.toWrite = [] → ¬ s.tlp.CompleteFrame s.buffer.bytes → s.payloads = packets.map Packet.bytes) ∧
      ∀ size, ∃ r, s.tlp.decodePackets s.buffer size = .ok r ∧ (r.ecO = ok ∨ r.ecO = eTlpTryAgain) ∧
        (r.ecO = ok → ¬ r.tlp.CompleteFrame r.buffer.bytes ∧ 0 < r.buffer.leftCapacity) ∧
        (r.ecO = eTlpTryAgain ↔ r.tlp.CompleteFrame r.buffer.bytes ∧ r.arrives.length = size) := by
  obtain ⟨buffer, hnew, hq⟩ := RingBuffer.new_refines hmin hmax
  obtain ⟨hstream, hne⟩ := encode_frames hmade hencode
  have hfit : ∀ c ∈ packets.map Packet.bytes, Fits capacity c := by
    intro c hc
    obtain ⟨p, hp, rfl⟩ := List.mem_map.mp hc
    exact ⟨hne p hp, (hsize p hp).1, (hsize p hp).2⟩
  have hstart := Link.Flows.start id (packets.map Packet.bytes) hq mSize
  rw [List.map_id, ← hstream] at hstart
  obtain ⟨s, rest, q, hexec, h⟩ := hstart.exec decodes hfit es
  exact ⟨buffer, s, hnew, hexec, h.state decodes (fun _ => id) hfit hmin hmax⟩

/-- A frame cut inside its length. -/
theorem framing_roundTrip_oneFrame :
    ∃ p f buffer s, Packet.Made p ∧ HlenPacket.encode p = .ok (ok, some f) ∧ RingBuffer.new 2048 = .ok buffer ∧
      exec (Link.step HlenPacket.decodePackets) [.write 3, .decode 1, .write 9, .decode 2]
        (.start ([f].flatMap Packet.bytes) buffer (.new 0)) = .ok s ∧
      s.payloads <+: [p].map Packet.bytes := by
  have hmin : minRingBufferSize ≤ 2048 := by decide
  have hok : ((Packet.new 0 0 >>= outputs PacketCall.run [.write [1, 2, 3] 3]) >>= fun r => HlenPacket.encode r.2).map
      (fun r => (r.1, r.2.map Packet.bytes)) = .ok (ok, some [0, 0, 0, 3, 1, 2, 3]) := by decide +kernel
  obtain ⟨⟨rt, o⟩, hrun, hres⟩ := map_eq_ok.mp hok
  obtain ⟨⟨os, p⟩, hp, hf⟩ := bind_eq_ok.mp hrun
  obtain ⟨p₁, hnew, hout⟩ := bind_eq_ok.mp hp
  obtain ⟨rfl, ho⟩ := Prod.mk.inj hres
  cases o with
  | none => cases ho
  | some f =>
    have hmade : Packet.Made p := ⟨0, 0, p₁, _, os, hnew, hout⟩
    have hbytes : p.bytes = [1, 2, 3] := by
      obtain ⟨-, h⟩ := outputs_eq PacketCall.run_holds (Packet.new_holds hnew) hout
      exact h.bytes_eq
    obtain ⟨buffer, s, hb, hs, hpre, -⟩ := framing_roundTrip hmin (by decide)
      (by simpa using hmade) (.cons hf .nil) (by simp only [List.mem_singleton, forall_eq, hbytes]; decide) 0
      [.write 3, .decode 1, .write 9, .decode 2]
    exact ⟨p, f, buffer, s, hmade, hf, hb, hs, hpre⟩

end Wawo
