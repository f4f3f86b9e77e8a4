import Wawo.Net.Receive
import Wawo.Tlp.Framing

/-!
# The receiving half: `handle_async_read`

`AtRest` says what holds of the receiving half while no call is in it: what is left in `m_rb`, with the bytes to
come, are the frames of the payloads to come, and no frame is complete. `Reads` is what the rounds of
`handle_async_read` keep; before a round that pumps no frame is complete, and a round that only decodes
finds something in `m_rb`. Each round takes bytes from the kernel, or a header or packets from `m_rb`, or leaves the
pumping to the next.
-/

namespace Wawo

open Memory Lts HlenPacket

/-- The answer after which the kernel has no more -/
def ending : List RecvAnswer → RecvAnswer
  | .chunk _ _ :: answers => ending answers
  | .interrupted :: answers => ending answers
  | a :: _ => a
  | [] => .wouldBlock

/-- `ec_o` where the kernel has no more -/
def RecvAnswer.ecO : RecvAnswer → Int
  | .eof => eSocketGraceClose
  | .failed errno => -errno
  | _ => eSocketRecvBlock

/-- An error of the system is none of the codes of this library. -/
def RecvAnswer.Sound (a : RecvAnswer) : Prop := ∀ errno, a = .failed errno → 0 < errno ∧ errno < 20000

variable {answers : List RecvAnswer}

/-- Bytes come before the end. -/
theorem tryRecv_spec {size : Nat} (hpos : 0 < size) (hsound : (ending answers).Sound) :
    ∃ r, tryRecv size answers = .ok r ∧
      (r.bytes ≠ [] ∧ r.ecO = ok ∧ r.bytes.length ≤ size ∧ r.bytes ++ arrived r.answers = arrived answers ∧ ending r.answers = ending answers ∨
        r.bytes = [] ∧ arrived answers = [] ∧ r.ecO = (ending answers).ecO) := by
  induction answers with
  | nil => exact ⟨_, rfl, .inr ⟨rfl, rfl, rfl⟩⟩
  | cons a answers ih =>
    cases a with
    | chunk b bytes =>
      rw [tryRecv]
      cases hdrop : (b :: bytes).drop size with
      | nil =>
        refine ⟨_, rfl, .inl ⟨nofun, rfl, ?_, rfl, rfl⟩⟩
        exact List.drop_eq_nil_iff.mp hdrop
      | cons b' bytes' =>
        refine ⟨_, rfl, .inl ⟨?_, rfl, ?_, ?_, rfl⟩⟩
        · show (b :: bytes).take size ≠ []
          simp [Nat.pos_iff_ne_zero.mp hpos]
        · exact List.length_take_le ..
        · show (b :: bytes).take size ++ (b' :: bytes' ++ arrived answers) = b :: bytes ++ arrived answers
          rw [← hdrop, ← List.append_assoc, List.take_append_drop]
    | interrupted => exact ih hsound
    | wouldBlock => exact ⟨_, rfl, .inr ⟨rfl, rfl, rfl⟩⟩
    | eof => exact ⟨_, rfl, .inr ⟨rfl, rfl, rfl⟩⟩
    | failed errno =>
      have herrno := hsound errno rfl
      refine ⟨⟨[], -errno, answers⟩, ?_, .inr ⟨rfl, rfl, rfl⟩⟩
      rw [tryRecv, require_eq (by omega), ok_bind, pure_eq_ok]

namespace Socket

variable {s s' : Socket} {q q' : BoundedQueue Byte} {more : List Byte} {cs : List (List Byte)}

/-- `_pump` on a socket whose receiving half is open: `m_rb` is full, or takes bytes, or there are none. -/
theorem pump_spec (hq : s.mRb.Refines q) (hcap : q.capacity = s.rcvSize) (hdata : s.mSm ≠ .listener) (hopen : s.mRflag.shutdown = false)
    (hsound : (ending answers).Sound) :
    ∃ ec s' answers', s.pump answers = .ok (ec, s', answers') ∧
      (q.leftCapacity = 0 ∧ ec = eSocketRecvBufferFull ∧ s' = s ∧ answers' = answers ∨
        (∃ bytes mRb, bytes ≠ [] ∧ ec = ok ∧ s' = { s with mRb := mRb } ∧ mRb.Refines (q.write bytes) ∧ bytes.length ≤ q.leftCapacity ∧
          bytes ++ arrived answers' = arrived answers ∧ ending answers' = ending answers) ∨
        arrived answers = [] ∧ ec = (ending answers).ecO ∧ s' = s) := by
  have hroom : q.leftCapacity ≤ q.capacity := Nat.sub_le ..
  unfold pump
  rw [require_eq hdata, ok_bind, hq.leftCapacity_eq]
  dsimp only
  by_cases hfull : q.leftCapacity = 0
  · rw [if_pos hfull]
    exact ⟨_, _, _, rfl, .inl ⟨hfull, rfl, rfl, rfl⟩⟩
  have hsize : (if s.rcvSize ≤ q.leftCapacity then s.rcvSize else q.leftCapacity) = q.leftCapacity := by
    split_ifs
    · omega
    · rfl
  have hpos := Nat.pos_of_ne_zero hfull
  obtain ⟨r, hr, hcases⟩ := tryRecv_spec hpos hsound
  rw [if_neg hfull, hsize]
  unfold baseRecv
  rw [require_eq hpos, ok_bind, hopen, if_neg Bool.false_ne_true, hr, ok_bind]
  rcases hcases with ⟨hne, hec, hle, hbytes, hending⟩ | ⟨hnil, hnone, hec⟩
  · have hlen := List.length_pos_iff.mpr hne
    obtain ⟨mRb, hwrite, hq'⟩ := hq.write hlen (Nat.le_refl _)
    rw [List.take_length] at hq'
    rw [if_pos hlen, hwrite, ok_bind]
    dsimp only
    rw [require_eq (Nat.min_eq_left hle).symm, ok_bind, pure_eq_ok]
    exact ⟨_, _, _, rfl, .inr (.inl ⟨r.bytes, mRb, hne, hec, rfl, hq', hle, hbytes, hending⟩)⟩
  · rw [if_neg (by rw [hnil]; exact Nat.lt_irrefl 0), pure_eq_ok]
    exact ⟨_, _, _, rfl, .inr (.inr ⟨hnone, hec, rfl⟩)⟩

/-- With what is in `m_rb` and `left` to come, the payloads to come are `cs`. -/
structure Readable (s : Socket) (q : BoundedQueue Byte) (left : List Byte) (cs : List (List Byte)) : Prop where
  refines : s.mRb.Refines q
  capacity_eq : q.capacity = s.rcvSize
  data : s.mSm ≠ .listener
  nonblocking : s.nonblocking = true
  opened : s.mRflag.shutdown = false
  parses : s.mTlp.Parses (q.items ++ left) cs
  fits : ∀ c ∈ cs, Fits q.capacity c

/-- What a call of `decode_packets` has made of the parser and the bytes in `m_rb` -/
structure Taken (tlp : HlenPacket) (q : BoundedQueue Byte) (done : List (List Byte)) (tlp' : HlenPacket) (q' : BoundedQueue Byte) : Prop where
  count_le : q'.count ≤ q.count
  count_eq : q.count + tlp.taken = (done.flatMap frame).length + (q'.count + tlp'.taken)

/-- How much there is for `decode_packets` to do -/
def held (tlp : HlenPacket) (count : Nat) : Nat := 4 * (count + tlp.taken) + if tlp.mParseState = .readLen then 2 else 0

theorem taken_eq_zero {tlp : HlenPacket} : tlp.taken = 0 ↔ tlp.mParseState = .readLen := by
  unfold taken
  cases tlp.mParseState <;> simp

theorem taken_le (tlp : HlenPacket) : tlp.taken ≤ 4 := by
  unfold taken
  cases tlp.mParseState <;> simp

theorem length_flatMap_frame {done : List (List Byte)} (h : done ≠ []) : 4 ≤ (done.flatMap frame).length := by
  cases done with
  | nil => exact absurd rfl h
  | cons c done =>
    rw [List.flatMap_cons, List.length_append, length_frame]
    omega

theorem Taken.held_lt {tlp tlp' : HlenPacket} {done : List (List Byte)} (h : Taken tlp q done tlp' q') (hdone : done ≠ []) :
    held tlp' q'.count + 2 < held tlp q.count := by
  have hcount := h.count_eq
  have hframe := length_flatMap_frame hdone
  unfold held
  split_ifs <;> omega

theorem Taken.held_le {tlp tlp' : HlenPacket} {done : List (List Byte)} (h : Taken tlp q done tlp' q') :
    held tlp' q'.count ≤ held tlp q.count ∧ (q'.count < q.count → held tlp' q'.count < held tlp q.count) := by
  by_cases hdone : done = []
  · have hcount := h.count_eq
    have hle := h.count_le
    rw [hdone, List.flatMap_nil, List.length_nil, Nat.zero_add] at hcount
    have hstate : tlp'.mParseState = .readLen → tlp.mParseState = .readLen := by
      rw [← taken_eq_zero, ← taken_eq_zero]
      omega
    have hstate' : q'.count < q.count → tlp'.mParseState ≠ .readLen ∧ tlp.mParseState = .readLen := by
      have := taken_le tlp'
      rw [← taken_eq_zero, Ne, ← taken_eq_zero]
      intro hlt
      have h4 : tlp.taken = 0 ∨ tlp.taken = 4 := by
        unfold taken
        cases tlp.mParseState <;> simp
      omega
    unfold held
    refine ⟨?_, fun hlt => ?_⟩
    · split_ifs with h₁ h₂
      · omega
      · exact absurd (hstate h₁) h₂
      · omega
      · omega
    · rw [if_neg (hstate' hlt).1, if_pos (hstate' hlt).2]
      omega
  · have := h.held_lt hdone
    exact ⟨by omega, fun _ => by omega⟩

/-- What `_receive_packets` has done: `done` out of the payloads `cs` are in the array. -/
structure Gets (s : Socket) (left : List Byte) (cs : List (List Byte)) (n : Receiving) (q' : BoundedQueue Byte) (done rest : List (List Byte)) :
    Prop where
  s_eq : n.s = { s with mTlp := n.s.mTlp, mRb := n.s.mRb }
  readable : Readable n.s q' left rest
  split : cs = done ++ rest
  arrives : List.Forall₂ Packet.Holds n.arrives done

theorem Readable.ne_nil {left : List Byte} (h : Readable s q left cs) (hcomplete : s.mTlp.CompleteFrame q.items) : q.items ≠ [] := by
  intro hnil
  have hp := h.parses
  rw [hnil] at hcomplete
  unfold CompleteFrame at hcomplete
  unfold Parses at hp
  cases hst : s.mTlp.mParseState with
  | readLen =>
    rw [hst] at hcomplete
    exact absurd hcomplete.1 (by simp)
  | readContent =>
    rw [hst] at hcomplete hp
    obtain ⟨c, cs', rfl, hsize, -⟩ := hp
    have hpos := List.length_pos_iff.mpr (h.fits c (by simp)).ne_nil
    have hle : s.mTlp.mSize ≤ 0 := hcomplete
    omega

/-- The array is full and `m_rb` is not empty, or the parser waits for bytes. -/
theorem decodeArrives_spec {left : List Byte} (h : Readable s q left cs) (size : Nat) (pumpEc : Int) (answers : List RecvAnswer) :
    ∃ n q' done rest, s.decodeArrives size pumpEc answers = .ok n ∧ n.answers = answers ∧ Gets s left cs n q' done rest ∧
      Taken s.mTlp q done n.s.mTlp q' ∧
      (n.ecO = eTlpTryAgain ∧ n.arrives.length = size ∧ q'.count ≠ 0 ∨
        n.ecO = (if pumpEc = ok ∨ pumpEc = eSocketRecvBufferFull then eSocketPumpTryAgain else ok) ∧ n.s.mTlp.Starved q'.items) := by
  obtain ⟨r, done, rest, q', hr, hd, hended, -, hle⟩ := decodePackets_spec size h.refines h.parses h.fits
  have hfits : ∀ c ∈ rest, Fits q'.capacity c := fun c hc => by
    rw [hd.capacity_eq]
    exact h.fits c (by rw [hd.split]; exact List.mem_append_right _ hc)
  have hreadable : Readable { s with mTlp := r.tlp, mRb := r.buffer } q' left rest :=
    ⟨hd.refines, hd.capacity_eq.trans h.capacity_eq, h.data, h.nonblocking, h.opened, hd.parses, hfits⟩
  have htaken : Taken s.mTlp q done r.tlp q' := by
    refine ⟨hle, ?_⟩
    have hbefore := h.parses.length_eq
    have hafter := hd.parses.length_eq
    rw [hd.split, List.flatMap_append, List.length_append, List.length_append] at hbefore
    rw [List.length_append] at hafter
    unfold BoundedQueue.count
    omega
  have hcount : r.buffer.count = q'.count := hd.refines.count_eq
  unfold decodeArrives
  rw [hr, ok_bind]
  dsimp only
  rw [hcount]
  by_cases hfull : r.arrives.length = size ∧ q'.count ≠ 0
  · have hec : r.ecO = ok ∨ r.ecO = eTlpTryAgain := hended.imp And.left And.left
    rw [if_neg (not_not_intro hec), if_pos hfull, pure_eq_ok]
    exact ⟨_, q', done, rest, rfl, rfl, ⟨rfl, hreadable, hd.split, hd.arrives⟩, htaken, .inl ⟨rfl, hfull⟩⟩
  · obtain ⟨hec, hstarved⟩ : r.ecO = ok ∧ r.tlp.Starved q'.items := by
      refine hended.resolve_right fun ⟨_, hcomplete, hsize⟩ => hfull ⟨hsize, fun hzero => ?_⟩
      exact hreadable.ne_nil hcomplete (q'.count_eq_zero.mp hzero)
    rw [if_neg (not_not_intro (.inl hec)), if_neg hfull, hec, pure_eq_ok]
    refine ⟨_, q', done, rest, rfl, rfl, ⟨rfl, hreadable, hd.split, hd.arrives⟩, htaken, .inr ⟨?_, hstarved⟩⟩
    simp [h.nonblocking]

/-! ### Rounds -/

/-- `ec_o` at the end: on a socket that has no more bytes it may be that of the parser. -/
def Final (a : RecvAnswer) (ecO : Int) : Prop := ecO = a.ecO ∨ a.ecO = eSocketRecvBlock ∧ ecO = ok

/-- How much there is to do in `handle_async_read` -/
def work (tlp : HlenPacket) (count : Nat) (alwaysPump : Bool) (answers : List RecvAnswer) : Nat :=
  8 * (arrived answers).length + held tlp count + if alwaysPump then 0 else 1

/-- The loop goes on: no frame is complete before a pump, and there is something to decode where none comes. -/
structure GoesOn (tlp : HlenPacket) (q : BoundedQueue Byte) (alwaysPump : Bool) : Prop where
  pumps : alwaysPump = true → ¬ tlp.CompleteFrame q.items
  decodes : alwaysPump = false → q.count ≠ 0

theorem code_cases {a : RecvAnswer} (ha : a.Sound) :
    a.ecO = eSocketRecvBlock ∨ a.ecO ≠ ok ∧ a.ecO ≠ eSocketRecvBlock ∧ a.ecO ≠ eSocketRecvBufferFull ∧ a.ecO ≠ eTlpTryAgain ∧
      a.ecO ≠ eSocketPumpTryAgain := by
  cases a with
  | eof => exact .inr (by decide)
  | failed errno =>
    have h := ha errno rfl
    refine .inr ⟨?_, ?_, ?_, ?_, ?_⟩
    all_goals
      simp only [RecvAnswer.ecO, ok, eSocketRecvBlock, eSocketRecvBufferFull, eTlpTryAgain, eSocketPumpTryAgain]
      omega
  | chunk b bytes => exact .inl rfl
  | interrupted => exact .inl rfl
  | wouldBlock => exact .inl rfl

/-- How a round ends: it has taken bytes or packets and the loop goes on, or there are no more bytes and no frame is
complete. -/
inductive Round (s : Socket) (q : BoundedQueue Byte) (alwaysPump : Bool) (answers : List RecvAnswer) (n : Receiving) (q' : BoundedQueue Byte) :
    List Byte → Prop
  | goesOn (hmore : n.ecO = eTlpTryAgain ∨ n.ecO = eSocketPumpTryAgain) (hending : ending n.answers = ending answers)
      (hgo : GoesOn n.s.mTlp q' (n.ecO = eSocketPumpTryAgain))
      (hwork : work n.s.mTlp q'.count (n.ecO = eSocketPumpTryAgain) n.answers < work s.mTlp q.count alwaysPump answers) :
      Round s q alwaysPump answers n q' (arrived n.answers)
  | ends (hincomplete : ¬ n.s.mTlp.CompleteFrame q'.items) (hfinal : Final (ending answers) n.ecO) : Round s q alwaysPump answers n q' []

theorem Readable.take {mRb : RingBuffer} {bytes left : List Byte} (h : Readable s q (bytes ++ left) cs) (hmRb : mRb.Refines (q.write bytes))
    (hroom : bytes.length ≤ q.leftCapacity) : Readable { s with mRb := mRb } (q.write bytes) left cs := by
  refine ⟨hmRb, h.capacity_eq, h.data, h.nonblocking, h.opened, ?_, h.fits⟩
  rw [q.items_write_of_le hroom, List.append_assoc]
  exact h.parses

/-- A payload that has been taken was complete. -/
theorem Gets.nil_of_incomplete {left : List Byte} {n : Receiving} {done rest : List (List Byte)} (hn : Gets s left cs n q' done rest)
    (htaken : Taken s.mTlp q done n.s.mTlp q') (h : Readable s q left cs) (hnot : ¬ s.mTlp.CompleteFrame q.items) : done = [] := by
  cases hdone : done with
  | nil => rfl
  | cons c done' =>
    have hp := h.parses
    have hsplit := hn.split
    rw [hdone, List.cons_append] at hsplit
    have hc := h.fits c (by rw [hsplit]; simp)
    have hlt : c.length < 2 ^ (8 * 4) := by
      have := hc.le_right
      unfold packMaxRightCapacity at this
      omega
    rw [hsplit] at hp
    rw [hp.complete_iff hlt] at hnot
    have hcount := htaken.count_eq
    rw [hdone, List.flatMap_cons, List.length_append, length_frame] at hcount
    exact absurd (show 4 + c.length ≤ q.count + s.mTlp.taken by omega) hnot

/-- After a pump that has not failed, or without one -/
theorem Gets.goesOn {left : List Byte} {n : Receiving} {done rest : List (List Byte)} (hn : Gets s left cs n q' done rest)
    (hcases : n.ecO = eTlpTryAgain ∧ n.arrives.length = 5 ∧ q'.count ≠ 0 ∨ n.ecO = eSocketPumpTryAgain ∧ n.s.mTlp.Starved q'.items) :
    (n.ecO = eTlpTryAgain ∨ n.ecO = eSocketPumpTryAgain) ∧ GoesOn n.s.mTlp q' (n.ecO = eSocketPumpTryAgain) ∧
      (n.ecO ≠ eSocketPumpTryAgain → done ≠ []) := by
  rcases hcases with ⟨hec, hsize, hcount⟩ | ⟨hec, hstarved⟩
  · refine ⟨.inl hec, ⟨fun hpump => ?_, fun _ => hcount⟩, fun _ hnil => ?_⟩
    · rw [hec] at hpump
      cases hpump
    · have hlen := hn.arrives.length_eq
      rw [hnil, hsize] at hlen
      cases hlen
  · refine ⟨.inr hec, ⟨fun _ => hstarved.not_complete, fun hpump => ?_⟩, fun hne => absurd hec hne⟩
    rw [hec] at hpump
    cases hpump

theorem receivePackets_spec {alwaysPump : Bool} (h : Readable s q (arrived answers ++ more) cs) (hsound : (ending answers).Sound)
    (hgo : GoesOn s.mTlp q alwaysPump) :
    ∃ n q' done rest left, s.receivePackets 5 alwaysPump answers = .ok n ∧ Gets s (left ++ more) cs n q' done rest ∧
      Round s q alwaysPump answers n q' left := by
  unfold receivePackets
  rw [h.refines.count_eq]
  cases alwaysPump with
  | false =>
    have hcount := hgo.decodes rfl
    rw [if_neg (by simp [hcount])]
    obtain ⟨n, q', done, rest, hn, hanswers, hgets, htaken, hcases⟩ := decodeArrives_spec h 5 ok answers
    rw [if_pos (.inl rfl)] at hcases
    obtain ⟨hmore, hgo', hdone⟩ := hgets.goesOn hcases
    rw [← hanswers] at hgets
    refine ⟨n, q', done, rest, _, hn, hgets, .goesOn hmore (by rw [hanswers]) hgo' ?_⟩
    rw [hanswers]
    unfold work
    by_cases hpump : n.ecO = eSocketPumpTryAgain
    · have := htaken.held_le.1
      simp [hpump]
      omega
    · have := htaken.held_lt (hdone hpump)
      simp [hpump]
      omega
  | true =>
    have hnot := hgo.pumps rfl
    rw [if_pos (.inr rfl)]
    obtain ⟨ec, s₁, answers₁, hpump, hcases⟩ := pump_spec h.refines h.capacity_eq h.data h.opened hsound
    rw [hpump, ok_bind]
    dsimp only
    rcases hcases with ⟨hfull, rfl, rfl, rfl⟩ | ⟨bytes, mRb, hne, rfl, rfl, hmRb, hroom, hbytes, hending⟩ | ⟨hnone, rfl, rfl⟩
    · have hq : q.count = q.capacity := by
        have := q.length_le
        unfold BoundedQueue.leftCapacity at hfull
        unfold BoundedQueue.count
        unfold BoundedQueue.count at hfull
        omega
      have hmin := h.refines.min_le
      unfold minRingBufferSize at hmin
      rw [if_neg (not_not_intro (.inr (.inr rfl))), h.refines.count_eq, if_neg (by omega)]
      obtain ⟨n, q', done, rest, hn, hanswers, hgets, htaken, hcases⟩ := decodeArrives_spec h 5 eSocketRecvBufferFull answers₁
      rw [if_pos (.inr rfl)] at hcases
      obtain ⟨hmore, hgo', hdone⟩ := hgets.goesOn hcases
      have hread := hgets.readable
      rw [← hanswers] at hgets
      refine ⟨n, q', done, rest, _, hn, hgets, .goesOn hmore (by rw [hanswers]) hgo' ?_⟩
      rw [hanswers]
      unfold work
      rcases hcases with ⟨hec, -, -⟩ | ⟨hec, hstarved⟩
      · have := htaken.held_lt (hdone (by rw [hec]; decide))
        simp [hec, eTlpTryAgain, eSocketPumpTryAgain]
        omega
      · have hlt := hstarved.lt_capacity hread.parses hread.fits hread.refines.min_le
        have hcap : q'.capacity = q.capacity := by rw [hread.capacity_eq, hgets.s_eq, h.capacity_eq]
        have := htaken.held_le.2 (by rw [hq, ← hcap]; exact hlt)
        simp [hec]
        omega
    · have hlen := List.length_pos_iff.mpr hne
      have hcount : (q.write bytes).count = q.count + bytes.length := by
        rw [BoundedQueue.count, q.items_write_of_le hroom, List.length_append]
        rfl
      rw [← hbytes, List.append_assoc] at h
      have h₁ := h.take hmRb hroom
      rw [if_neg (not_not_intro (.inl rfl)), hmRb.count_eq, if_neg (by omega)]
      obtain ⟨n, q', done, rest, hn, hanswers, hgets, htaken, hcases⟩ := decodeArrives_spec h₁ 5 ok answers₁
      rw [if_pos (.inl rfl)] at hcases
      obtain ⟨hmore, hgo', -⟩ := hgets.goesOn hcases
      rw [← hanswers] at hgets
      refine ⟨n, q', done, rest, _, hn, ⟨?_, hgets.readable, hgets.split, hgets.arrives⟩, .goesOn hmore (by rw [hanswers, hending]) hgo' ?_⟩
      · rw [hgets.s_eq]
      · have hheld : held s.mTlp (q.write bytes).count = held s.mTlp q.count + 4 * bytes.length := by
          unfold held
          rw [hcount]
          omega
        have hle := htaken.held_le.1
        dsimp only at hle
        rw [hheld] at hle
        rw [hanswers, work, work, ← hbytes, List.length_append]
        split_ifs <;> omega
    · rw [hnone, List.nil_append] at h
      rcases code_cases hsound with hblock | ⟨hok, hnotBlock, hfull, htlp, hpumped⟩
      · rw [if_neg (not_not_intro (.inr (.inl hblock)))]
        by_cases hcount : q.count = 0
        · rw [h.refines.count_eq, if_pos hcount, require_eq (fun _ => hblock), ok_bind, require_eq (by rw [h.nonblocking]; intro hn; cases hn), ok_bind, pure_eq_ok]
          exact ⟨_, q, [], cs, [], rfl, ⟨rfl, h, rfl, .nil⟩, .ends hnot (.inl rfl)⟩
        · rw [h.refines.count_eq, if_neg hcount, hblock]
          obtain ⟨n, q', done, rest, hn, hanswers, hgets, htaken, hcases⟩ := decodeArrives_spec h 5 eSocketRecvBlock answers₁
          have hdone := hgets.nil_of_incomplete htaken h hnot
          rcases hcases with ⟨-, hsize, -⟩ | ⟨hec, hstarved⟩
          · have hlen := hgets.arrives.length_eq
            rw [hdone, hsize] at hlen
            cases hlen
          · rw [if_neg (by decide)] at hec
            exact ⟨n, q', done, rest, [], hn, hgets, .ends hstarved.not_complete (.inr ⟨hblock, hec⟩)⟩
      · rw [if_pos (by simp [hok, hnotBlock, hfull]), pure_eq_ok]
        exact ⟨_, q, [], cs, [], rfl, ⟨rfl, h, rfl, .nil⟩, .ends hnot (.inl rfl)⟩

/-! ### The loop -/

/-- What the rounds keep: `done` have been pushed to `m_rps_q_standby`. -/
structure Reads (s : Socket) (left : List Byte) (cs : List (List Byte)) (r : Reading) (q : BoundedQueue Byte) (done rest : List (List Byte)) :
    Prop where
  s_eq : r.s = { s with mTlp := r.s.mTlp, mRb := r.s.mRb, mRpsQStandby := r.s.mRpsQStandby }
  readable : Readable r.s q left rest
  split : cs = done ++ rest
  standby : ∃ packets, r.s.mRpsQStandby = s.mRpsQStandby ++ packets ∧ List.Forall₂ Packet.Holds packets done
  hasNewArrives : r.hasNewArrives = true ↔ done ≠ []

/-- What holds before a round and after the last -/
def Loops (s : Socket) (more : List Byte) (cs : List (List Byte)) (a : RecvAnswer) (r : Reading) : Prop :=
  ∃ q done rest,
    if r.more then Reads s (arrived r.answers ++ more) cs r q done rest ∧ GoesOn r.s.mTlp q r.alwaysPump ∧ ending r.answers = a
    else Reads s more cs r q done rest ∧ ¬ r.s.mTlp.CompleteFrame q.items ∧ Final a r.ecO

def Reading.work (r : Reading) : Nat := if r.more then Socket.work r.s.mTlp r.s.mRb.count r.alwaysPump r.answers + 1 else 0

theorem Final.not_more {a : RecvAnswer} {ecO : Int} (ha : a.Sound) (h : Final a ecO) : ecO ≠ eTlpTryAgain ∧ ecO ≠ eSocketPumpTryAgain := by
  rcases h with rfl | ⟨-, rfl⟩
  · rcases code_cases ha with hblock | ⟨-, -, -, htlp, hpump⟩
    · rw [hblock]
      decide
    · exact ⟨htlp, hpump⟩
  · decide

theorem readRound_spec {r : Reading} {done rest : List (List Byte)} (h : Reads s (arrived r.answers ++ more) cs r q done rest)
    (hgo : GoesOn r.s.mTlp q r.alwaysPump) (hsound : (ending r.answers).Sound) :
    ∃ r', readRound r = .ok r' ∧ Loops s more cs (ending r.answers) r' ∧
      r'.work < Socket.work r.s.mTlp r.s.mRb.count r.alwaysPump r.answers + 1 := by
  obtain ⟨n, q', done', rest', left, hn, hgets, hround⟩ := receivePackets_spec h.readable hsound hgo
  have hread := hgets.readable
  obtain ⟨packets, hpackets, hholds⟩ := h.standby
  have hs := hgets.s_eq
  have hnew : Reads s (left ++ more) cs ⟨{ n.s with mRpsQStandby := n.s.mRpsQStandby ++ n.arrives }, n.ecO = eSocketPumpTryAgain, n.ecO,
      r.hasNewArrives || n.arrives.length > 0, n.answers⟩ q' (done ++ done') rest' := by
    refine ⟨?_, ⟨hread.refines, hread.capacity_eq, hread.data, hread.nonblocking, hread.opened, hread.parses, hread.fits⟩, ?_, ⟨packets ++ n.arrives, ?_, ?_⟩, ?_⟩
    · dsimp only
      rw [hs, h.s_eq]
    · rw [h.split, hgets.split, List.append_assoc]
    · show n.s.mRpsQStandby ++ _ = _
      rw [hs]
      show r.s.mRpsQStandby ++ _ = _
      rw [hpackets, List.append_assoc]
    · exact List.rel_append hholds hgets.arrives
    · have hlen := hgets.arrives.length_eq
      show (r.hasNewArrives || decide (n.arrives.length > 0)) = true ↔ _
      rw [Bool.or_eq_true, decide_eq_true_iff, h.hasNewArrives, hlen, ← List.length_pos_iff, ← List.length_pos_iff, List.length_append]
      omega
  refine ⟨_, by rw [readRound, hn, ok_bind, pure_eq_ok], ?_⟩
  rw [h.readable.refines.count_eq]
  rcases hround with ⟨hmore, hending, hgo', hwork⟩ | ⟨hincomplete, hfinal⟩
  · have hmore' : Reading.more ⟨{ n.s with mRpsQStandby := n.s.mRpsQStandby ++ n.arrives }, n.ecO = eSocketPumpTryAgain, n.ecO,
        r.hasNewArrives || n.arrives.length > 0, n.answers⟩ = true := by simpa [Reading.more] using hmore
    refine ⟨⟨q', done ++ done', rest', ?_⟩, ?_⟩
    · rw [if_pos hmore']
      exact ⟨hnew, hgo', hending⟩
    · rw [Reading.work, if_pos hmore']
      dsimp only
      rw [hread.refines.count_eq]
      exact Nat.succ_lt_succ hwork
  · have hmore' : Reading.more ⟨{ n.s with mRpsQStandby := n.s.mRpsQStandby ++ n.arrives }, n.ecO = eSocketPumpTryAgain, n.ecO,
        r.hasNewArrives || n.arrives.length > 0, n.answers⟩ = false := by simpa [Reading.more] using hfinal.not_more hsound
    refine ⟨⟨q', done ++ done', rest', ?_⟩, ?_⟩
    · rw [if_neg (by rw [hmore']; exact Bool.false_ne_true)]
      exact ⟨hnew, hincomplete, hfinal⟩
    · rw [Reading.work, if_neg (by rw [hmore']; exact Bool.false_ne_true)]
      exact Nat.succ_pos _

/-- Between the calls no frame is complete. -/
structure AtRest (s : Socket) (q : BoundedQueue Byte) (left : List Byte) (cs : List (List Byte)) : Prop where
  readable : Readable s q left cs
  incomplete : ¬ s.mTlp.CompleteFrame q.items

theorem loop_spec {a : RecvAnswer} (ha : a.Sound) {r : Reading} {n : Nat} (h : Loops s more cs a r) (hn : r.work < n) :
    ∃ r' q' done rest, loopWhile Reading.more readRound .loop n r = .ok r' ∧ Reads s more cs r' q' done rest ∧
      ¬ r'.s.mTlp.CompleteFrame q'.items ∧ Final a r'.ecO := by
  have hround : ∀ r : Reading, Loops s more cs a r → r.more = true →
      Ensures (fun t => Loops s more cs a t ∧ t.work < r.work) (fun _ => False) (readRound r) := by
    rintro r ⟨q, done, rest, h⟩ hmore
    rw [if_pos hmore] at h
    obtain ⟨hreads, hgo, rfl⟩ := h
    obtain ⟨r', hr', hloops, hwork⟩ := readRound_spec hreads hgo ha
    rw [hr', Reading.work, if_pos hmore]
    exact ⟨hloops, hwork⟩
  obtain ⟨r', hr', ⟨q, done, rest, h'⟩, hmore⟩ := (loopWhile_ensures Reading.work hround h hn).exists_ok
  rw [if_neg (by rw [hmore]; exact Bool.false_ne_true)] at h'
  exact ⟨r', q, done, rest, hr', h'⟩

/-- Nothing but the watch for what arrives has changed. -/
def Rewatched (s s' : Socket) : Prop := ∃ watch infinite, s' = { s with mRflag := { s.mRflag with watch := watch, infinite := infinite } }

theorem endAsyncRead_rewatched (s : Socket) (oneTime : Bool) : Rewatched s (if oneTime then s.endAsyncRead else s) := by
  unfold endAsyncRead
  split_ifs
  · exact ⟨false, false, rfl⟩
  · exact ⟨s.mRflag.watch, s.mRflag.infinite, rfl⟩
  · exact ⟨s.mRflag.watch, s.mRflag.infinite, rfl⟩

theorem beginAsyncRead_rewatched (hnon : s.nonblocking = true) : ∃ s', s.beginAsyncRead = .ok s' ∧ Rewatched s s' := by
  unfold beginAsyncRead
  rw [require_eq hnon, ok_bind]
  split_ifs
  · exact ⟨s, rfl, s.mRflag.watch, s.mRflag.infinite, rfl⟩
  · exact ⟨s, rfl, s.mRflag.watch, s.mRflag.infinite, rfl⟩
  · exact ⟨_, rfl, true, s.mRflag.infinite, rfl⟩

theorem Readable.rewatched {left : List Byte} (h : Readable s q left cs) (hs : Rewatched s s') : Readable s' q left cs := by
  obtain ⟨watch, infinite, rfl⟩ := hs
  exact ⟨h.refines, h.capacity_eq, h.data, h.nonblocking, h.opened, h.parses, h.fits⟩

/-- What one call reads -/
structure ReadBy (s : Socket) (left : List Byte) (a : RecvAnswer) (r : Reading) (q : BoundedQueue Byte) (done rest : List (List Byte)) : Prop where
  rest : AtRest r.s q left rest
  queue : r.s.mRpsQ = s.mRpsQ
  standby : ∃ packets, r.s.mRpsQStandby = s.mRpsQStandby ++ packets ∧ List.Forall₂ Packet.Holds packets done
  hasNewArrives : r.hasNewArrives = true ↔ done ≠ []
  final : Final a r.ecO

theorem readArrives_spec (h : AtRest s q (arrived answers ++ more) cs) (hsound : (ending answers).Sound) :
    ∃ r q' done rest, s.readArrives answers = .ok r ∧ ReadBy s more (ending answers) r q' done rest ∧ cs = done ++ rest := by
  obtain ⟨s₁, hs₁, hrewatched⟩ : ∃ s₁, (if !s.mWflag.infinite then s.endAsyncRead else s) = s₁ ∧ Rewatched s s₁ := ⟨_, rfl, endAsyncRead_rewatched s _⟩
  have h₁ := h.readable.rewatched hrewatched
  have hcount : s₁.mRb.count = s.mRb.count := by rw [h₁.refines.count_eq, h.readable.refines.count_eq]
  obtain ⟨watch, infinite, heq⟩ := hrewatched
  have hreads : Reads s₁ (arrived answers ++ more) cs ⟨s₁, true, ok, false, answers⟩ q [] cs :=
    ⟨rfl, h₁, rfl, ⟨[], by rw [List.append_nil], .nil⟩, by simp⟩
  have hgo : GoesOn s₁.mTlp q true := ⟨fun _ => by rw [heq]; exact h.incomplete, nofun⟩
  obtain ⟨r₁, hr₁, hloops, hwork⟩ := readRound_spec (r := ⟨s₁, true, ok, false, answers⟩) hreads hgo hsound
  have hfuel : r₁.work < 8 * (arrived answers).length + 4 * s.mRb.count + 24 := by
    have := taken_le s₁.mTlp
    dsimp only at hwork
    rw [work, held, hcount] at hwork
    simp only [if_true] at hwork
    split_ifs at hwork <;> omega
  obtain ⟨r₂, q', done, rest, hr₂, hreads₂, hincomplete, hfinal⟩ := loop_spec hsound hloops hfuel
  have hqueue : r₂.s.mRpsQ = s.mRpsQ := by rw [hreads₂.s_eq, heq]
  have hstandby : s₁.mRpsQStandby = s.mRpsQStandby := by rw [heq]
  have hpackets := hreads₂.standby
  rw [hstandby] at hpackets
  have hall : ReadBy s more (ending answers) r₂ q' done rest :=
    ⟨⟨hreads₂.readable, hincomplete⟩, hqueue, hpackets, hreads₂.hasNewArrives, hfinal⟩
  unfold readArrives
  rw [require_eq h.readable.data, ok_bind, require_eq h.readable.nonblocking, ok_bind]
  dsimp only
  rw [hs₁, hr₁, ok_bind, hr₂, ok_bind]
  split_ifs
  · obtain ⟨s₃, hs₃, hrewatched₃⟩ := beginAsyncRead_rewatched hreads₂.readable.nonblocking
    have h₃ := hreads₂.readable.rewatched hrewatched₃
    obtain ⟨watch₃, infinite₃, heq₃⟩ := hrewatched₃
    rw [hs₃, ok_bind, pure_eq_ok]
    refine ⟨_, q', done, rest, rfl, ⟨⟨h₃, ?_⟩, ?_, ?_, hreads₂.hasNewArrives, hfinal⟩, hreads₂.split⟩
    · dsimp only
      rw [heq₃]
      exact hincomplete
    · dsimp only
      rw [heq₃]
      exact hqueue
    · dsimp only
      rw [heq₃]
      exact hpackets
  · exact ⟨r₂, q', done, rest, rfl, hall, hreads₂.split⟩

theorem triggerArrives_eq (hempty : s.mRpsQ = []) : s.triggerArrives = .ok (s.mRpsQStandby, { s with mRpsQ := [], mRpsQStandby := [] }) := by
  unfold triggerArrives
  rw [require_eq hempty, ok_bind]
  by_cases hnone : s.mRpsQStandby.length ≠ 0
  · rw [if_pos hnone]
    dsimp only
    rw [hempty, require_eq List.length_nil, ok_bind, require_eq hnone, ok_bind, pure_eq_ok, ok_bind, pure_eq_ok]
  · have hnil : s.mRpsQStandby = [] := List.length_eq_zero_iff.mp (by omega)
    rw [if_neg hnone, ok_bind, pure_eq_ok, hempty, hnil]

/-- One call pushes the payloads of the frames that have been completed, in order, and reports why it ends; no
assertion fails. What is left is a frame that is not complete. If nothing waits to be given to the listeners, they
get what has been pushed. -/
theorem handleAsyncRead_complete (h : AtRest s q (arrived answers ++ more) cs) (hsound : (ending answers).Sound) :
    ∃ r q' packets rest, s.readArrives answers = .ok r ∧
      r.s.mRpsQStandby = s.mRpsQStandby ++ packets ∧
      List.Forall₂ Packet.Holds packets (within (q.count + (arrived answers).length + s.mTlp.taken) cs) ∧
      Final (ending answers) r.ecO ∧
      cs = within (q.count + (arrived answers).length + s.mTlp.taken) cs ++ rest ∧ AtRest r.s q' more rest ∧
      (s.mRpsQ = [] ∨ packets = [] →
        ∃ s', s.handleAsyncRead answers = .ok (r.ecO, if packets = [] then [] else s.mRpsQStandby ++ packets, s')) ∧
      (s.mRpsQ ≠ [] → packets ≠ [] → s.handleAsyncRead answers = .error .waits) := by
  obtain ⟨r, q', done, rest, hr, hread, hsplit⟩ := readArrives_spec h hsound
  obtain ⟨packets, hstandby, hholds⟩ := hread.standby
  have hwithin : within (q.count + (arrived answers).length + s.mTlp.taken) cs = done := by
    have hbefore := h.readable.parses.length_eq
    have hafter := hread.rest.readable.parses.length_eq
    rw [hsplit, List.flatMap_append, List.length_append, List.length_append, List.length_append] at hbefore
    rw [List.length_append] at hafter
    have hlen : q.count + (arrived answers).length + s.mTlp.taken = (done.flatMap frame).length + (q'.items.length + r.s.mTlp.taken) := by
      unfold BoundedQueue.count
      omega
    rw [hlen, hsplit, within_append, hread.rest.readable.parses.within_eq_nil ?_ hread.rest.incomplete, List.append_nil]
    intro c hc
    have := (hread.rest.readable.fits c hc).le_right
    unfold packMaxRightCapacity at this
    omega
  have hnew : packets = [] ↔ done = [] := by
    have hlen := hholds.length_eq
    rw [← List.length_eq_zero_iff, ← List.length_eq_zero_iff, hlen]
  refine ⟨r, q', packets, rest, hr, hstandby, by rwa [hwithin], hread.final, by rw [hwithin]; exact hsplit, hread.rest, fun hempty => ?_,
    fun hqueue hpackets => ?_⟩
  · unfold handleAsyncRead
    rw [hr, ok_bind]
    by_cases hdone : done = []
    · have hfalse : r.hasNewArrives = false := Bool.eq_false_iff.mpr fun htrue => hread.hasNewArrives.mp htrue hdone
      rw [hfalse, if_neg Bool.false_ne_true, if_pos (hnew.mpr hdone)]
      exact ⟨_, rfl⟩
    · have hempty : s.mRpsQ = [] := hempty.resolve_right (hdone ∘ hnew.mp)
      rw [hread.hasNewArrives.mpr hdone, if_pos rfl, triggerArrives_eq (hread.queue.trans hempty), ok_bind, if_neg (hdone ∘ hnew.mp), hstandby]
      exact ⟨_, rfl⟩
  · have hdone : done ≠ [] := hpackets ∘ hnew.mpr
    have hwaits : r.s.triggerArrives = .error .waits := by
      unfold triggerArrives require
      rw [if_neg (by rw [hread.queue]; exact hqueue)]
      rfl
    unfold handleAsyncRead
    rw [hr, ok_bind, hread.hasNewArrives.mpr hdone, if_pos rfl, hwaits]
    rfl

/-- The payloads `[7, 8]` and `[9]` arrive in pieces, before the peer closes in the middle of a third frame. -/
def pieces : List RecvAnswer := [.chunk 0 [0, 0], .interrupted, .chunk 2 [7], .chunk 8 [0, 0, 0, 1, 9, 0, 0], .eof]

theorem handleAsyncRead_complete_pieces :
    ∃ s r, init true .active .connected sockSndMinSize sockRcvMinSize 0 = .ok s ∧ s.readArrives pieces = .ok r ∧ r.ecO = eSocketGraceClose ∧
      List.Forall₂ Packet.Holds r.s.mRpsQStandby [[7, 8], [9]] := by
  obtain ⟨mSb, mRb, -, hrefines, hinit⟩ := @init_spec true .active .connected sockSndMinSize sockRcvMinSize 0 (by decide +kernel) (by decide +kernel)
  have hfits : ∀ c ∈ [[7, 8], [9], [(5 : Byte)]], Fits sockRcvMinSize c := by
    intro c hc
    simp only [List.mem_cons, List.not_mem_nil, or_false] at hc
    rcases hc with rfl | rfl | rfl <;> exact ⟨by decide, by decide +kernel, by decide +kernel⟩
  have hparses : Parses (.new 0) ([] ++ (arrived pieces ++ [0, 1, 5])) [[7, 8], [9], [5]] := by
    show _ = _
    decide +kernel
  have hrest : AtRest { nonblocking := true, mSm := .active, mState := .connected, sndSize := sockSndMinSize, rcvSize := sockRcvMinSize
                        mRflag := ⟨false, false, false⟩, mWflag := ⟨false, false, false⟩, mSb := mSb, mRb := mRb, mTlp := .new 0
                        mDelayWp := wawoMaxAsyncWritePeriod, mAsyncWt := 0, mRpsQ := [], mRpsQStandby := []
                        writeCallback := none, kernel := [], events := [] }
      (.empty sockRcvMinSize) (arrived pieces ++ [0, 1, 5]) [[7, 8], [9], [5]] :=
    ⟨⟨hrefines, rfl, nofun, rfl, rfl, hparses, hfits⟩, fun hc => absurd hc.1 (by decide)⟩
  obtain ⟨r, q', packets, rest, hr, hstandby, hholds, hfinal, -⟩ := handleAsyncRead_complete hrest nofun
  have hec : r.ecO = eSocketGraceClose := hfinal.resolve_right fun h => nomatch h.1
  refine ⟨_, r, hinit, hr, hec, ?_⟩
  rw [hstandby]
  exact hholds

end Socket

end Wawo
