import Wawo.Tlp.DhHandshake

/-!
# Runs of the handshake

From the client's hello, whatever the streams deliver and whenever the sides call `decode_packets`: no
call fails or ends with an error, and once nothing is left to decode both sides transfer data with one
key, and what one has sent has arrived at the other. `Phase` carries this. `handshake_completes` is the
run in which each side takes its frames as soon as they are there.
-/

namespace Wawo

open Lts

namespace DhPair

variable {capacity : Who → Nat} {s s' : DhPair} {i j : Who} {key : List Byte} {hs rest : List (List Byte)} {q : BoundedQueue Byte}

/-- The arrays passed to `decode_packets` are not empty, and packets are sent that the other side takes. -/
def Allowed (capacity : Who → Nat) : DhEvent → Prop
  | .deliver _ _ => True
  | .decode _ _ size => 0 < size
  | .send i p => Sendable capacity i.other p

/-- Nothing is left to decode. -/
def Drained (s : DhPair) : Prop := ∀ i, s.stream i = [] ∧ ¬ (s.side i).dh.tlp.CompleteFrame (s.side i).buffer.bytes

/-- What has arrived on side `i`. -/
def payloads (s : DhPair) (i : Who) : List (List Byte) := (s.side i).arrived.map Packet.bytes

/-- What holds in every state of a run. -/
structure Inv (capacity : Who → Nat) (s : DhPair) : Prop where
  phase : Phase capacity s
  fine : ∀ i, ∀ ec ∈ (s.side i).codes, Fine ec

theorem moves_refl (d : Dh) : Moves d d := .inl rfl

theorem Inv.step (hmin : ∀ i, minRingBufferSize ≤ capacity i) {e : DhEvent} (he : Allowed capacity e) (h : Inv capacity s) :
    ∃ s', step e s = .ok s' ∧ Inv capacity s' ∧ ∀ i, Moves (s.side i).dh (s'.side i).dh := by
  cases e with
  | deliver i n =>
    obtain ⟨key, hs, rest, q, hf⟩ := h.phase.flow i
    obtain ⟨s', hstep, hd, hphase, -⟩ := h.phase.deliver i n hf
    refine ⟨s', hstep, ⟨hphase, fun j => ?_⟩, fun j => ?_⟩
    · rw [hd.codes_eq]
      exact h.fine j
    · rw [hd.dh_eq]
      exact moves_refl _
  | decode i rand size =>
    obtain ⟨r, hr, hphase, hcall⟩ := h.phase.decode hmin i rand he
    refine ⟨s.decoded i r, ?_, ⟨hphase, forall_who i ?_ ?_⟩, forall_who i ?_ ?_⟩
    · show (_ >>= _) = _
      rw [hr, ok_bind, pure_eq_ok]
    · rw [decoded_side_self]
      intro ec hec
      rcases List.mem_append.mp hec with hec | hec
      · exact h.fine i ec hec
      · rw [List.mem_singleton.mp hec]
        exact hcall.fine
    · rw [decoded_side_other]
      exact h.fine _
    · rw [decoded_side_self]
      exact hcall.moves
    · rw [decoded_side_other]
      exact moves_refl _
  | send i p =>
    obtain ⟨s', hstep, hphase, hdh, hcodes⟩ := h.phase.send he
    refine ⟨s', hstep, ⟨hphase, fun j => ?_⟩, fun j => ?_⟩
    · rw [hcodes]
      exact h.fine j
    · rw [hdh]
      exact moves_refl _

theorem Inv.exec (hmin : ∀ i, minRingBufferSize ≤ capacity i) {es : List DhEvent} (hes : ∀ e ∈ es, Allowed capacity e) (h : Inv capacity s) :
    ∃ s', exec DhPair.step es s = .ok s' ∧ Inv capacity s' := by
  induction es generalizing s with
  | nil => exact ⟨s, rfl, h⟩
  | cons e es ih =>
    obtain ⟨s₁, hstep, h₁, -⟩ := h.step hmin (hes e (by simp))
    obtain ⟨s', hexec, h'⟩ := ih (fun e he => hes e (List.mem_cons_of_mem _ he)) h₁
    refine ⟨s', ?_, h'⟩
    rw [exec_cons hstep, hexec]

/-- The client has made its hello. -/
theorem start_inv (hmin : ∀ i, minRingBufferSize ≤ capacity i) (hmax : ∀ i, capacity i ≤ maxRingBufferSize) (littleEndian : Who → Bool)
    (mSize : Who → Nat) (rand : Randoms) :
    ∃ s x, start capacity littleEndian mSize rand = .ok s ∧ Inv capacity s ∧ (s.side .client).dh.Hailing x ∧
      (s.side .server).dh.mDhstate = .idle ∧ ∀ i, (s.side i).sent = [] := by
  obtain ⟨bufferC, hC, hqC⟩ := RingBuffer.new_refines (hmin .client) (hmax .client)
  obtain ⟨bufferS, hS, hqS⟩ := RingBuffer.new_refines (hmin .server) (hmax .server)
  obtain ⟨x, f, dh, hhello, hf, hhail, htlp⟩ := Dh.handshakeMakeHelloPacket_eq rand (littleEndian .client) (mSize .client)
  unfold start
  rw [hC, ok_bind, hS, ok_bind, hhello, ok_bind]
  refine ⟨_, x, rfl, ⟨.hailed x rand.obf₁ (.empty (capacity .server)) (.empty (capacity .client)) hhail ⟨rfl, rfl, rfl⟩ ?_ ?_ ?_, ?_⟩,
    hhail, rfl, ?_⟩
  · refine ⟨hqS, rfl, ?_, ⟨[], rfl, .nil⟩, fun c hc => ?_, List.forall_mem_nil _⟩
    · show f.bytes = _
      rw [hf.bytes_eq]
      exact (List.flatMap_singleton ..).symm
    · rw [List.mem_singleton.mp hc]
      refine fits_small ?_ ?_ (hmin _)
      all_goals
        simp only [helloBytes, typeBytes, listBytes, List.flatMap_cons, List.flatMap_nil, List.length_append, length_writeImpl, List.length_nil]
        decide
  · refine ⟨hqC, rfl, ?_, ⟨[], rfl, .nil⟩, List.forall_mem_nil _, List.forall_mem_nil _⟩
    show HlenPacket.Parses dh.tlp _ _
    rw [htlp]
    exact (rfl : ([] : List Byte) = [])
  · exact forall_who .client rfl rfl
  · exact forall_who .client (List.forall_mem_nil _) (List.forall_mem_nil _)
  · exact forall_who .client rfl rfl

/-- A side with nothing left to decode has nothing on its way to it. -/
theorem Flow.drained (h : Flow capacity s i key hs rest q) (hd : s.stream i = [] ∧ ¬ (s.side i).dh.tlp.CompleteFrame (s.side i).buffer.bytes) :
    hs = [] ∧ rest = [] := by
  have hfit := h.all_fit
  have hp := h.parses
  rw [hd.1, List.append_nil, ← h.refines.bytes_eq] at hp
  cases hcs : hs ++ rest.map (cipherBytes key) with
  | nil =>
    obtain ⟨hhs, hrest⟩ := List.append_eq_nil_iff.mp hcs
    exact ⟨hhs, List.map_eq_nil_iff.mp hrest⟩
  | cons c cs =>
    rw [hcs] at hp hfit
    have hlt : c.length < 2 ^ (8 * 4) := by
      have h₁ := (hfit c (by simp)).le_right
      unfold packMaxRightCapacity at h₁
      omega
    exact absurd (hp.complete hlt) hd.2

/-- What has arrived is a front part of what has been sent, and all of it if nothing is on its way. -/
theorem Flow.payloads_append (h : Flow capacity s i key hs rest q) : s.payloads i ++ rest = (s.side i.other).sent.map Packet.bytes := by
  obtain ⟨done, hsent, harr⟩ := h.arrived
  rw [hsent, payloads, Link.bytes_of_holds harr]

theorem Phase.drained (h : Phase capacity s) (hd : s.Drained) :
    (∀ i, (s.side i).dh.mDhstate = .dataTransfer) ∧ (∃ key, ∀ i, (s.side i).dh.Keyed key) ∧
      ∀ i, s.payloads i = (s.side i.other).sent.map Packet.bytes := by
  cases h with
  | hailed x obf q q' hclient hserver htoServer htoClient hsent => cases (htoServer.drained (hd _)).1
  | answered x y obf obf' q q' hclient hserver htoServer htoClient hsent => cases (htoClient.drained (hd _)).1
  | agreed key hkeyed hflow =>
    refine ⟨fun i => ?_, ⟨key, hkeyed⟩, fun i => ?_⟩
    · rcases hflow i with ⟨-, obf, rest, q, hf⟩ | ⟨hstate, -⟩
      · cases (hf.drained (hd i)).1
      · exact hstate
    · rcases hflow i with ⟨-, obf, rest, q, hf⟩ | ⟨-, rest, q, hf⟩
      · cases (hf.drained (hd i)).1
      · have happ := hf.payloads_append
        rwa [(hf.drained (hd i)).2, List.append_nil] at happ

/-! ### The handshake completes -/

/-- The frames of the handshake on their way to a side fit its buffer together. -/
theorem Phase.flow_small (h : Phase capacity s) (hsent : ∀ i, (s.side i).sent = []) (i : Who) :
    ∃ key hs rest q, Flow capacity s i key hs rest q ∧ q.items.length + (s.stream i).length ≤ 64 := by
  have hsmall {key hs rest q} (hf : Flow capacity s i key hs rest q) (hhs : (hs.flatMap HlenPacket.frame).length ≤ 64) :
      q.items.length + (s.stream i).length ≤ 64 := by
    obtain ⟨done, hdone, -⟩ := hf.arrived
    rw [hsent, List.map_nil] at hdone
    have hrest := (List.append_eq_nil_iff.mp hdone.symm).2
    have hle := hf.parses.length_le
    rw [hrest, List.map_nil, List.append_nil, List.length_append] at hle
    exact hle.trans hhs
  cases h with
  | hailed x obf q q' hclient hserver htoServer htoClient hsent =>
    cases i with
    | client => exact ⟨_, _, _, _, htoClient, hsmall htoClient (by decide)⟩
    | server =>
      refine ⟨_, _, _, _, htoServer, hsmall htoServer ?_⟩
      simp only [HlenPacket.length_frame, helloBytes, typeBytes, listBytes, List.flatMap_cons, List.flatMap_nil,
        List.length_append, length_writeImpl, List.length_nil]
      decide
  | answered x y obf obf' q q' hclient hserver htoServer htoClient hsent =>
    cases i with
    | server => exact ⟨_, _, _, _, htoServer, hsmall htoServer (by decide)⟩
    | client =>
      refine ⟨_, _, _, _, htoClient, hsmall htoClient ?_⟩
      simp only [List.flatMap_cons, List.flatMap_nil, HlenPacket.length_frame, respBytes, okBytes, typeBytes, List.length_append,
        length_writeImpl, length_cipherBytes, List.length_nil]
      decide
  | agreed key hkeyed hflow =>
    rcases hflow i with ⟨-, obf, rest, q, hf⟩ | ⟨-, rest, q, hf⟩
    · refine ⟨_, _, _, _, hf, hsmall hf ?_⟩
      simp only [List.flatMap_singleton, HlenPacket.length_frame, okBytes, typeBytes, List.length_append, length_writeImpl, length_cipherBytes]
      decide
    · exact ⟨_, _, _, _, hf, hsmall hf (by decide)⟩

/-- All that is on its way to a side is delivered, and the side calls `decode_packets` once. -/
def takeFrame (i : Who) (rand : Randoms) : List DhEvent := [.deliver i 64, .decode i rand 1]

theorem Phase.takeFrame (hmin : ∀ i, minRingBufferSize ≤ capacity i) (i : Who) (rand : Randoms) (h : Phase capacity s)
    (hsent : ∀ i, (s.side i).sent = []) :
    ∃ s', exec step (takeFrame i rand) s = .ok s' ∧ Phase capacity s' ∧ (∀ i, (s'.side i).sent = []) ∧
      s'.stream i = [] ∧ rank (s'.side i.other).dh = rank (s.side i.other).dh ∧
      (Turn s i → rank (s'.side i).dh = nextRank (rank (s.side i).dh)) := by
  obtain ⟨key, hs, rest, q, hf, hsmall⟩ := h.flow_small hsent i
  obtain ⟨s₁, hstep, hd, h₁, hall⟩ := h.deliver i 64 hf
  have hempty := hall (hsmall.trans ((by decide : 64 ≤ minRingBufferSize).trans (hmin i))) (le_trans (Nat.le_add_left _ _) hsmall)
  obtain ⟨r, hr, h₂, hcall⟩ := h₁.decode hmin i rand Nat.one_pos
  have hturn : Turn s i → Turn s₁ i := by
    intro hturn
    cases i <;> unfold Turn at hturn ⊢ <;> rwa [hd.dh_eq, hd.dh_eq]
  refine ⟨s₁.decoded i r, ?_, h₂, fun j => ?_, ?_, ?_, fun ht => ?_⟩
  · have hdecode : step (.decode i rand 1) s₁ = .ok (s₁.decoded i r) := by
      show (_ >>= _) = _
      rw [hr, ok_bind, pure_eq_ok]
    rw [DhPair.takeFrame, exec_cons hstep, exec_cons hdecode, exec]
  · rw [decoded_sent, hd.sent_eq, hsent]
  · rw [decoded_stream_self, hempty]
  · rw [decoded_side_other, hd.dh_eq]
  · rw [decoded_side_self]
    exact (hcall.advances (hturn ht) hempty).trans (by rw [hd.dh_eq])

/-- Both sides have got to the end. -/
theorem Phase.completed (h : Phase capacity s) (hrank : ∀ i, rank (s.side i).dh = 3) :
    ∃ key, (∀ i, (s.side i).dh.Keyed key) ∧ ∀ i, (s.side i).dh.mDhstate = .dataTransfer ∧ ∃ rest q, Flow capacity s i key [] rest q := by
  cases h with
  | hailed x obf q q' hclient => exact absurd ((rank_hailing hclient).symm.trans (hrank _)) (by decide)
  | answered x y obf obf' q q' hclient => exact absurd ((rank_hailing hclient).symm.trans (hrank _)) (by decide)
  | agreed key hkeyed hflow =>
    refine ⟨key, hkeyed, fun i => ?_⟩
    rcases hflow i with ⟨hstate, -⟩ | h
    · exact absurd ((rank_keyed hstate (hkeyed i)).symm.trans (hrank i)) (by decide)
    · exact h

/-- Each side takes its frames in turn: the handshake is done after four calls. -/
theorem handshake_completes (hmin : ∀ i, minRingBufferSize ≤ capacity i) (hmax : ∀ i, capacity i ≤ maxRingBufferSize)
    (littleEndian : Who → Bool) (mSize : Who → Nat) (rand r₁ r₂ r₃ r₄ : Randoms) :
    ∃ s key, (start capacity littleEndian mSize rand >>=
        exec step (takeFrame .server r₁ ++ (takeFrame .client r₂ ++ (takeFrame .client r₃ ++ takeFrame .server r₄)))) = .ok s ∧
      (∀ i, (s.side i).dh.Keyed key ∧ (s.side i).dh.mDhstate = .dataTransfer) ∧ s.stream .server = [] ∧
      ∃ q, Flow capacity s .server key [] [] q := by
  obtain ⟨s₀, x, hstart, ⟨h₀, -⟩, hclient, hserver, hsent₀⟩ := start_inv hmin hmax littleEndian mSize rand
  have hc₀ := rank_hailing hclient
  have hs₀ := rank_idle hserver
  obtain ⟨s₁, hexec₁, h₁, hsent₁, -, hc₁, hs₁⟩ := h₀.takeFrame hmin .server r₁ hsent₀
  replace hs₁ : rank (s₁.side .server).dh = 2 := (hs₁ (.inl hs₀)).trans (by rw [hs₀]; rfl)
  replace hc₁ : rank (s₁.side .client).dh = 1 := hc₁.trans hc₀
  obtain ⟨s₂, hexec₂, h₂, hsent₂, -, hs₂, hc₂⟩ := h₁.takeFrame hmin .client r₂ hsent₁
  replace hc₂ : rank (s₂.side .client).dh = 2 := (hc₂ ⟨by omega, by omega⟩).trans (by rw [hc₁]; rfl)
  replace hs₂ : rank (s₂.side .server).dh = 2 := hs₂.trans hs₁
  obtain ⟨s₃, hexec₃, h₃, hsent₃, -, hs₃, hc₃⟩ := h₂.takeFrame hmin .client r₃ hsent₂
  replace hc₃ : rank (s₃.side .client).dh = 3 := (hc₃ ⟨by omega, by omega⟩).trans (by rw [hc₂]; rfl)
  replace hs₃ : rank (s₃.side .server).dh = 2 := hs₃.trans hs₂
  obtain ⟨s₄, hexec₄, h₄, hsent₄, hstream, hc₄, hs₄⟩ := h₃.takeFrame hmin .server r₄ hsent₃
  replace hs₄ : rank (s₄.side .server).dh = 3 := (hs₄ (.inr ⟨hs₃, by omega⟩)).trans (by rw [hs₃]; rfl)
  replace hc₄ : rank (s₄.side .client).dh = 3 := hc₄.trans hc₃
  obtain ⟨key, hkeyed, hflow⟩ := h₄.completed (forall_who .client hc₄ hs₄)
  obtain ⟨rest, q, hf⟩ := (hflow .server).2
  have hrest : rest = [] := by
    have happ := hf.payloads_append
    rw [hsent₄] at happ
    exact (List.append_eq_nil_iff.mp happ).2
  refine ⟨s₄, key, ?_, fun i => ⟨hkeyed i, (hflow i).1⟩, hstream, q, hrest ▸ hf⟩
  rw [hstart, ok_bind, exec_append hexec₁, exec_append hexec₂, exec_append hexec₃, hexec₄]

end DhPair

open DhPair in
/-- A client and a server, each with random keys and obfuscations of its own in every call, and rings of
any two capacities: in every run no call fails or ends with an error, the state of a side moves from
`IDLE` to `HANDSHAKE` to `DATA_TRANSFER` only, and no side transfers data before its cipher is set. What
has arrived is a front part of what the other side has sent. Once nothing is left to decode, both sides
transfer data with one key, and all that was sent has arrived. -/
theorem dh_handshake_agreement {capacity : Who → Nat} (hcap : ∀ i, minRingBufferSize ≤ capacity i ∧ capacity i ≤ maxRingBufferSize)
    (littleEndian : Who → Bool) (mSize : Who → Nat) (rand : Randoms) (es : List DhEvent) (hes : ∀ e ∈ es, DhPair.Allowed capacity e) :
    ∃ s, (DhPair.start capacity littleEndian mSize rand >>= exec DhPair.step es) = .ok s ∧
      (∀ i, ∀ ec ∈ (s.side i).codes, Fine ec) ∧
      (∀ i, (s.side i).dh.mDhstate = .dataTransfer → (s.side i).dh.mCipher.isSome = true) ∧
      (∀ e, DhPair.Allowed capacity e → ∃ s', DhPair.step e s = .ok s' ∧ ∀ i, Moves (s.side i).dh (s'.side i).dh) ∧
      (∀ i, s.payloads i <+: (s.side i.other).sent.map Packet.bytes) ∧
      (s.Drained → (∀ i, (s.side i).dh.mDhstate = .dataTransfer) ∧ (∃ key, ∀ i, (s.side i).dh.Keyed key) ∧
        ∀ i, s.payloads i = (s.side i.other).sent.map Packet.bytes) := by
  have hmin : ∀ i, minRingBufferSize ≤ capacity i := fun i => (hcap i).1
  obtain ⟨s₀, x, hstart, h₀, -⟩ := start_inv hmin (fun i => (hcap i).2) littleEndian mSize rand
  obtain ⟨s, hexec, h⟩ := h₀.exec hmin hes
  refine ⟨s, ?_, h.fine, fun i hstate => ?_, fun e he => ?_, fun i => ?_, h.phase.drained⟩
  · rw [hstart, ok_bind, hexec]
  · obtain ⟨key, hkeyed, -⟩ := h.phase.keyed hstate
    obtain ⟨cipher, hcipher, -⟩ := hkeyed i
    rw [hcipher]
    rfl
  · obtain ⟨s', hstep, -, hmoves⟩ := h.step hmin he
    exact ⟨s', hstep, hmoves⟩
  · obtain ⟨key, hs, rest, q, hf⟩ := h.phase.flow i
    exact ⟨rest, hf.payloads_append⟩

/-- Two machines of either byte order and streams cut in the middle of frames. -/
theorem dh_handshake_agreement_oneRun :
    ∃ rand : Randoms, rand.keys = [0, 5] ∧ ∃ s,
      (DhPair.start (fun _ => 2048) (fun | .client => true | .server => false) (fun _ => 0) rand >>= exec DhPair.step
        [.deliver .server 3, .decode .server rand 5, .deliver .server 40, .decode .server rand 1, .deliver .client 25, .decode .client rand 2]) =
          .ok s ∧
      (∀ i, ∀ ec ∈ (s.side i).codes, DhPair.Fine ec) ∧ ∀ i, s.payloads i <+: (s.side i.other).sent.map Packet.bytes := by
  obtain ⟨s, hs, hfine, -, -, hpre, -⟩ := @dh_handshake_agreement (fun _ => 2048) (fun _ => by decide)
    (fun | .client => true | .server => false) (fun _ => 0) ⟨[0, 5], by decide, by decide, 7, 8, [0, 0, 0], rfl, [0, 0, 0, 0], rfl⟩
    [.deliver .server 3, .decode .server ⟨[0, 5], by decide, by decide, 7, 8, [0, 0, 0], rfl, [0, 0, 0, 0], rfl⟩ 5, .deliver .server 40,
      .decode .server ⟨[0, 5], by decide, by decide, 7, 8, [0, 0, 0], rfl, [0, 0, 0, 0], rfl⟩ 1, .deliver .client 25, .decode .client ⟨[0, 5], by decide, by decide, 7, 8, [0, 0, 0], rfl, [0, 0, 0, 0], rfl⟩ 2]
    (by simp only [List.mem_cons, List.not_mem_nil, or_false, forall_eq_or_imp, forall_eq, DhPair.Allowed]; decide)
  exact ⟨_, rfl, s, hs, hfine, hpre⟩

open DhPair in
/-- After the handshake, a packet of 3000 bytes breaks the connection of a server whose ring takes 2048. -/
theorem dh_packet_lost :
    ∃ rand : Randoms, rand.keys = [1] ∧ ∃ s p s',
      (DhPair.start (fun _ => 2048) (fun _ => true) (fun _ => 0) rand >>= exec DhPair.step
        (takeFrame .server rand ++ (takeFrame .client rand ++ (takeFrame .client rand ++ takeFrame .server rand)))) = .ok s ∧
      (∀ i, (s.side i).dh.mDhstate = .dataTransfer) ∧ p.Made ∧ p.bytes = List.replicate 3000 0 ∧
      exec DhPair.step [.send .client p, .deliver .server 4, .decode .server rand 1] s = .ok s' ∧
      (s'.side .client).sent = (s.side .client).sent ++ [p] ∧ eTlpSocketBroken ∈ (s'.side .server).codes := by
  refine ⟨⟨[1], by decide, by decide, 0, 0, [0, 0, 0], rfl, [0, 0, 0, 0], rfl⟩, rfl, ?_⟩
  obtain ⟨s, key, hs, hkeyed, hstream, q, hf⟩ := @handshake_completes (fun _ => 2048) (fun _ => by decide) (fun _ => by decide)
    (fun _ => true) (fun _ => 0) ⟨[1], by decide, by decide, 0, 0, [0, 0, 0], rfl, [0, 0, 0, 0], rfl⟩ ⟨[1], by decide, by decide, 0, 0, [0, 0, 0], rfl, [0, 0, 0, 0], rfl⟩ ⟨[1], by decide, by decide, 0, 0, [0, 0, 0], rfl, [0, 0, 0, 0], rfl⟩
    ⟨[1], by decide, by decide, 0, 0, [0, 0, 0], rfl, [0, 0, 0, 0], rfl⟩ ⟨[1], by decide, by decide, 0, 0, [0, 0, 0], rfl, [0, 0, 0, 0], rfl⟩
  obtain ⟨cipher, hcipher, hkey⟩ := (hkeyed .client).1
  obtain ⟨cipher', hcipher', hkey'⟩ := (hkeyed .server).1
  obtain ⟨p₁, p, hnew, hwrite, h, -⟩ := Xxtea.new_write (c := List.replicate 3000 0) (by rw [List.length_replicate]; decide)
  have hmade : p.Made := ⟨_, _, p₁, [.write (List.replicate 3000 0) _], [.done], hnew,
    outputs_cons.mpr ⟨_, p, _, map_eq_ok.mpr ⟨p, hwrite, rfl⟩, rfl, rfl⟩⟩
  have hlength : (cipherBytes cipher.mKey (List.replicate 3000 0)).length = 3004 := by rw [length_cipherBytes, List.length_replicate]
  obtain ⟨f, hencode, hframe⟩ := SymmetricEncrypt.encode_eq cipher h (by rw [hlength]; decide)
  -- the parser of the server waits for a length, and its ring is empty
  have hp : (s.side .server).dh.tlp.Parses q.items [] := by simpa [hstream] using hf.parses
  have hst : (s.side .server).dh.tlp.mParseState = .readLen ∧ q.items = [] := by
    unfold HlenPacket.Parses at hp
    split at hp
    case h_1 hst => exact ⟨hst, hp⟩
    case h_2 => obtain ⟨c, cs', hcs, -⟩ := hp; cases hcs
  obtain ⟨buffer, q', hw, hq', hcap', hitems⟩ := hf.refines.write_len hst.2 3004
  obtain ⟨r, hr, hec, harr⟩ := @SymmetricEncrypt.decodePackets_oversize cipher' _ _ _ _ 1 hq' hst.1 hitems (by decide)
    (by rw [hcap', hf.capacity_eq]; decide)
  obtain ⟨s₁, hs₁⟩ : ∃ s₁, s₁ = (s.setSide .client { s.side .client with sent := (s.side .client).sent ++ [p] }).setStream .server
      (s.stream .server ++ f.bytes) := ⟨_, rfl⟩
  have hsend : DhPair.step (.send .client p) s = .ok s₁ := by
    rw [hs₁]
    unfold DhPair.step Dh.encode
    dsimp only
    rw [if_neg (not_not_intro (hkeyed .client).2), hcipher, hencode]
    exact if_pos rfl
  have hserver₁ : s₁.side .server = s.side .server := by
    rw [hs₁]
    exact setSide_side_other (i := .client) { s.side .client with sent := (s.side .client).sent ++ [p] }
  have hclient₁ : (s₁.side .client).sent = (s.side .client).sent ++ [p] := by
    rw [hs₁, setStream_side, setSide_side_self]
  have hstream₁ : s₁.stream .server = f.bytes := by
    rw [hs₁, setStream_self, hstream, List.nil_append]
  have hchunk : (s₁.stream .server).take 4 = writeImpl 4 3004 := by
    rw [hstream₁, hframe.bytes_eq, ← hlength]
    exact List.take_left' (length_writeImpl 4 _)
  obtain ⟨s₂, hs₂⟩ : ∃ s₂, s₂ = (s₁.setSide .server { s₁.side .server with buffer := buffer }).setStream .server ((s₁.stream .server).drop 4) :=
    ⟨_, rfl⟩
  have hdeliver : DhPair.step (.deliver .server 4) s₁ = .ok s₂ := by
    rw [hs₂]
    unfold DhPair.step
    dsimp only
    rw [if_neg (by rw [hchunk]; decide), hchunk, hserver₁, hw, ok_bind, pure_eq_ok]
  have hserver₂ : s₂.side .server = { s.side .server with buffer := buffer } := by
    rw [hs₂, setStream_side, setSide_side_self, hserver₁]
  have hclient₂ : s₂.side .client = s₁.side .client := by
    rw [hs₂]
    exact setSide_side_other (i := .server) { s₁.side .server with buffer := buffer }
  have hdecode : DhPair.step (.decode .server ⟨[1], by decide, by decide, 0, 0, [0, 0, 0], rfl, [0, 0, 0, 0], rfl⟩ 1) s₂ =
      .ok (s₂.decoded .server ⟨{ (s.side .server).dh with tlp := r.tlp }, r.buffer, r.arrives, r.ecO, none⟩) := by
    unfold DhPair.step
    dsimp only
    rw [hserver₂]
    unfold Dh.decodePackets
    dsimp only
    rw [(hkeyed .server).2]
    dsimp only
    rw [require_eq (by decide), ok_bind, hcipher', hr, ok_bind, pure_eq_ok, ok_bind, pure_eq_ok]
  refine ⟨s, p, s₂.decoded .server ⟨{ (s.side .server).dh with tlp := r.tlp }, r.buffer, r.arrives, r.ecO, none⟩, hs, fun i => (hkeyed i).2, hmade,
    h.bytes_eq, ?_, ?_, ?_⟩
  · rw [exec_cons hsend, exec_cons hdeliver, exec_cons hdecode, exec]
  · rw [decoded_side_ne (by decide), hclient₂, hclient₁]
  · rw [decoded_side_self, hec]
    exact List.mem_append_right _ (List.mem_singleton_self _)

end Wawo
