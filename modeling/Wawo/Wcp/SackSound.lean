import Wawo.Wcp.Receiver

/-!
# What a receiver acknowledges selectively

Every sequence-space pack of a batch goes to the SACK list, whatever becomes of it. `idx` is the
place of a pack in the peer's stream, of which `header.seq` is the residue; `n` packs have been
delivered so far. `SackSound` says that a pack on the SACK list is delivered or held when the call
is over. The old/new test of `check_recv` is a plain `<` on residues, so it holds as long as the
residues of the packs still to be delivered have not wrapped.
-/

namespace Wawo

open Lts Relation

variable {w w' : Wcb} {now : Nat} {p : WcbReceivedPack} {rest : List WcbReceivedPack} {x : Delivery}

/-! ### Taking a batch -/

@[simp] theorem Rcv.takePack_next (r : Rcv) (p : WcbReceivedPack) : (r.takePack p).next = r.next := by
  unfold Rcv.takePack; dsimp only; split_ifs <;> rfl

@[simp] theorem Rcv.takePack_sackedPackTmp (r : Rcv) (p : WcbReceivedPack) :
    (r.takePack p).sackedPackTmp = r.sackedPackTmp ++ [p.seq] := by
  unfold Rcv.takePack; dsimp only; split_ifs <;> rfl

@[simp] theorem Rcv.takePack_hist (r : Rcv) (p : WcbReceivedPack) : (r.takePack p).hist = r.hist := by
  unfold Rcv.takePack; dsimp only; split_ifs <;> rfl

theorem Rcv.takePack_received (r : Rcv) (p : WcbReceivedPack) :
    (r.takePack p).received =
      if p.seq < r.next then r.received else SeqList.insertByKey (fun q : WcbReceivedPack => q.seq) p r.received := by
  unfold Rcv.takePack; dsimp only; split_ifs <;> rfl

theorem foldl_takePack_frame (l : List WcbReceivedPack) (r : Rcv) :
    (l.foldl Rcv.takePack r).next = r.next ∧ (l.foldl Rcv.takePack r).hist = r.hist ∧
      (l.foldl Rcv.takePack r).sackedPackTmp = r.sackedPackTmp ++ l.map (fun p => p.seq) := by
  induction l generalizing r with
  | nil => simp
  | cons p l ih =>
    obtain ⟨h1, h2, h3⟩ := ih (r.takePack p)
    refine ⟨h1.trans (by simp), h2.trans (by simp), ?_⟩
    rw [List.foldl_cons, h3]; simp

/-- What is held was held before or is a pack of the batch that is not below `next`. -/
theorem mem_foldl_takePack {l : List WcbReceivedPack} {r : Rcv} {q : WcbReceivedPack}
    (hq : q ∈ (l.foldl Rcv.takePack r).received) : q ∈ r.received ∨ (q ∈ l ∧ r.next ≤ q.seq) := by
  induction l generalizing r with
  | nil => exact .inl hq
  | cons p l ih =>
    rcases ih hq with h | ⟨h, hn⟩
    · rw [Rcv.takePack_received] at h
      split_ifs at h with hlt
      · exact .inl h
      · rcases SeqList.mem_insertByKey h with rfl | h
        · exact .inr ⟨by simp, Nat.le_of_not_lt hlt⟩
        · exact .inl h
    · rw [Rcv.takePack_next] at hn
      exact .inr ⟨by simp [h], hn⟩

theorem subset_foldl_takePack {l : List WcbReceivedPack} {r : Rcv} {q : WcbReceivedPack} (hq : q ∈ r.received) :
    q ∈ (l.foldl Rcv.takePack r).received := by
  induction l generalizing r with
  | nil => exact hq
  | cons p l ih =>
    refine ih ?_
    rw [Rcv.takePack_received]
    split_ifs
    · exact hq
    · exact SeqList.subset_insertByKey hq

/-- A pack of the batch that is not below `next` is held afterwards, itself or another one of its
number. -/
theorem exists_mem_foldl_takePack {l : List WcbReceivedPack} {r : Rcv} (hp : p ∈ l) (hn : r.next ≤ p.seq) :
    ∃ q ∈ (l.foldl Rcv.takePack r).received, q.seq = p.seq := by
  induction l generalizing r with
  | nil => simp at hp
  | cons a l ih =>
    rcases List.mem_cons.1 hp with rfl | hp
    · have hheld : ∃ q ∈ (r.takePack p).received, q.seq = p.seq := by
        rw [Rcv.takePack_received, if_neg (Nat.not_lt.2 hn)]
        rcases @SeqList.exists_mem_insertByKey _ (fun q : WcbReceivedPack => q.seq) p r.received with h | ⟨q, hq, he⟩
        · exact ⟨p, h, rfl⟩
        · exact ⟨q, SeqList.subset_insertByKey hq, he⟩
      obtain ⟨q, hq, he⟩ := hheld
      exact ⟨q, subset_foldl_takePack (r := r.takePack p) hq, he⟩
    · exact ih hp (by rw [Rcv.takePack_next]; exact hn)

/-! ### Delivering -/

/-- From `r` to `r'` packs went from the held to the consumed ones, and none got lost. -/
def Receiver.Handed (r r' : Receiver) : Prop :=
  ∃ new, r'.consumed = r.consumed ++ new ∧ ∀ q, (q ∈ new ∨ q ∈ r'.received) ↔ q ∈ r.received

namespace Receiver.Handed

theorem refl (r : Receiver) : Handed r r := ⟨[], by simp, by simp⟩

theorem trans {r r' r'' : Receiver} (h : Handed r r') (h' : Handed r' r'') : Handed r r'' := by
  obtain ⟨new, hc, hm⟩ := h
  obtain ⟨new', hc', hm'⟩ := h'
  refine ⟨new ++ new', by rw [hc', hc, List.append_assoc], fun q => ?_⟩
  rw [List.mem_append, or_assoc, hm', hm]

end Receiver.Handed

theorem deliverFlags_remoteAddr (hfrom : p.fromAddr = w.remoteAddr)
    (h : deliverFlags now w p rest = .ok (w', x)) : w'.remoteAddr = w.remoteAddr := by
  have hsyn : ∀ {w₁ y}, deliverSyn w p rest = (w₁, y) → w₁.remoteAddr = w.remoteAddr := by
    intro w₁ y hs
    unfold deliverSyn at hs
    split_ifs at hs
    · split at hs <;> cases hs
      · rfl
      · exact hfrom
      · rfl
    · cases hs; rfl
  rcases deliverFlags_cases h with ⟨-, -, rfl⟩ | ⟨-, -, hs⟩ | ⟨-, -, w₁, w₂, hs, ha, rfl⟩
  · rfl
  · exact hsyn hs
  · have h₂ : w₂.remoteAddr = w₁.remoteAddr := by
      rcases deliverAck_cases ha with rfl | ⟨-, -, timer, errno, he⟩
      · rfl
      · rw [he]
    have h₃ : (deliverFin now w₂ p).remoteAddr = w₂.remoteAddr := by
      unfold deliverFin
      split_ifs
      · dsimp only
        split <;> rfl
      · rfl
    exact h₃.trans (h₂.trans (hsyn hs))

theorem deliverOne_handed (hfrom : p.fromAddr = w.remoteAddr) (hr : w.rcv.received = p :: rest)
    (h : deliverOne now p rest w = .ok (w', x)) :
    w'.remoteAddr = w.remoteAddr ∧ Receiver.Handed w.rcv.receiver w'.rcv.receiver := by
  unfold deliverOne at h
  split_ifs at h with hlt hne
  · cases h; exact ⟨rfl, .refl _⟩
  cases hd : deliverData w p rest with
  | error e => rw [hd] at h; cases h
  | ok c =>
    obtain ⟨w₁, y⟩ := c
    rw [hd] at h
    rcases deliverData_cases hd with ⟨-, hne, -⟩ | ⟨rfl, rfl⟩ | ⟨rfl, r, rfl, hrec⟩
    · exact absurd hfrom hne
    · cases h; exact ⟨rfl, .refl _⟩
    · dsimp only [bind, Except.bind] at h
      refine ⟨deliverFlags_remoteAddr (w := { w with rcv := r.advance p }) hfrom h, [p], ?_⟩
      have hcons : (r.advance p).receiver.consumed = w.rcv.receiver.consumed ++ [p] := by
        show r.receiver.consumed ++ [p] = _; rw [hrec]
      have hheld : (r.advance p).receiver.received = p :: rest := by
        show r.receiver.received = _; rw [hrec]; exact hr
      rcases deliverFlags_receiver h with ⟨-, -, hw⟩ | ⟨b, -, hw⟩
      · rw [hw]
        refine ⟨hcons, fun q => ?_⟩
        show (q ∈ [p] ∨ q ∈ (r.advance p).receiver.received) ↔ q ∈ w.rcv.received
        rw [hheld, hr]; simp
      · rw [hw]
        refine ⟨hcons, fun q => ?_⟩
        show (q ∈ [p] ∨ q ∈ rest) ↔ q ∈ w.rcv.received
        rw [hr]; simp

theorem deliverLoop_handed {l : List WcbReceivedPack} (hfrom : ∀ q ∈ l, q.fromAddr = w.remoteAddr)
    (hl : w.rcv.received = l) (h : deliverLoop now l w = .ok w') :
    Receiver.Handed w.rcv.receiver w'.rcv.receiver := by
  induction l generalizing w with
  | nil => cases h; exact .refl _
  | cons p rest ih =>
    unfold deliverLoop at h
    cases ho : deliverOne now p rest w with
    | error e => rw [ho] at h; cases h
    | ok c =>
      obtain ⟨w₁, x⟩ := c
      obtain ⟨haddr, hs⟩ := deliverOne_handed (hfrom p (by simp)) hl ho
      have hm := (deliverOne_receiver (P := fun _ => True) hl ho).2
      rw [ho] at h
      cases x with
      | stop => cases h; exact hs
      | more =>
        refine hs.trans (ih (fun q hq => ?_) (hm rfl) h)
        rw [haddr]; exact hfrom q (by simp [hq])

/-! ### The call -/

/-- The state in which a call of `check_recv` starts to sort its batch. -/
def Wcb.sorting (now : Nat) (w : Wcb) : Wcb :=
  { w with rcv := { w.rcv with
    receivedVecStandby := [], keepaliveTimerLastReceivedPack := now, keepaliveProbesSent := 0 } }

/-- The numbers that one call of `check_recv` writes to `snd_sacked_pack_tmp`. -/
def sackList (now : Nat) (w : Wcb) : List Nat :=
  match classify w.rcv.receivedVecStandby (w.sorting now) with
  | .ok c => c.1.rcv.sackedPackTmp
  | .error _ => []

/-- A receiver and the packs it holds or gets next, in a stream of which `header.seq` is the residue of the
place `idx`. The peer's window lies within `2 ^ 32` numbers from `lo` on; `n` is the place of the
next pack to deliver. -/
structure InWindow (idx : WcbReceivedPack → Nat) (f : Nat → List Byte) (lo n : Nat) (w : Wcb) : Prop where
  next_eq : w.rcv.next = n % 2 ^ 32
  tmp_nil : w.rcv.sackedPackTmp = []
  seq_eq : ∀ p ∈ w.rcv.received ++ w.rcv.receivedVecStandby, p.seq = idx p % 2 ^ 32
  window : ∀ p ∈ w.rcv.received ++ w.rcv.receivedVecStandby, lo ≤ idx p ∧ idx p < lo + 2 ^ 32
  data_eq : ∀ p ∈ w.rcv.received ++ w.rcv.receivedVecStandby, p.data = f (idx p)
  fromAddr_eq : ∀ p ∈ w.rcv.received ++ w.rcv.receivedVecStandby, p.fromAddr = w.remoteAddr
  held_new : ∀ p ∈ w.rcv.received, n ≤ idx p ∧ w.rcv.next ≤ p.seq
  sorted : w.rcv.received.Pairwise (fun p q => p.seq < q.seq)

/-- The pack `p` is not lost: delivered before, or a pack of its place and payload was delivered in
the call from `w` to `w'` or is held after it. -/
def Kept (idx : WcbReceivedPack → Nat) (n : Nat) (w w' : Wcb) (p : WcbReceivedPack) : Prop :=
  idx p < n ∨ ∃ q ∈ w'.rcv.hist.consumed.drop w.rcv.hist.consumed.length ++ w'.rcv.received,
    idx q = idx p ∧ q.data = p.data

/-- Every pack whose number the call from `w` to `w'` puts on the SACK list is kept. -/
def SackSound (idx : WcbReceivedPack → Nat) (n now : Nat) (w w' : Wcb) : Prop :=
  ∀ s ∈ sackList now w, ∀ p ∈ w.rcv.receivedVecStandby, p.inSeqSpace = true → p.seq = s → Kept idx n w w' p

/-- The receiving half once the batch is taken. -/
def Wcb.takenRcv (now : Nat) (w : Wcb) : Rcv :=
  (w.rcv.receivedVecStandby.filter (fun p => p.inSeqSpace)).foldl Rcv.takePack (w.sorting now).rcv

/-- A call with a batch: every pack of it that is in sequence space is on the SACK list, and what
the receiver then has is delivered or still held at the end. -/
theorem checkRecv_handed (hne : w.rcv.receivedVecStandby ≠ [])
    (hfrom : ∀ p ∈ w.rcv.received ++ w.rcv.receivedVecStandby, p.fromAddr = w.remoteAddr)
    (h : checkRecv now w = .ok w') :
    sackList now w = (w.takenRcv now).sackedPackTmp ∧
      Receiver.Handed (w.takenRcv now).receiver w'.rcv.receiver := by
  obtain ⟨w₂, rfl, ⟨hnil, -⟩ | ⟨-, w₁, ht, hl⟩⟩ := checkRecv_cases h
  · exact absurd hnil hne
  obtain ⟨c, hc⟩ : ∃ c, classify w.rcv.receivedVecStandby (w.sorting now) = .ok c := takeBatch_classify ht
  refine ⟨?_, ?_⟩
  · unfold sackList Wcb.takenRcv
    rw [hc]
    dsimp only
    rw [classify_rcv hc]
  have hrcv : w₁.rcv.receiver = (w.takenRcv now).receiver := by rw [takeBatch_rcv ht]; rfl
  have haddr : w₁.remoteAddr = w.remoteAddr := by
    obtain ⟨s, r, rfl⟩ := takeBatch_frame ht
    rfl
  rw [← hrcv]
  show Receiver.Handed _ w₂.rcv.swapRb.receiver
  rw [swapRb_receiver]
  refine deliverLoop_handed (fun q hq => ?_) rfl hl
  have hheld : w₁.rcv.received = (w.takenRcv now).received := congrArg Receiver.received hrcv
  rw [hheld] at hq
  rw [haddr]
  rcases mem_foldl_takePack hq with hq | ⟨hq, -⟩
  · exact hfrom q (List.mem_append_left _ hq)
  · exact hfrom q (List.mem_append_right _ (List.mem_of_mem_filter hq))

/-- Two packs of one window with the same residue have the same place. -/
theorem eq_of_mod_eq {a b lo m : Nat} (h : a % m = b % m) (ha : lo ≤ a ∧ a < lo + m) (hb : lo ≤ b ∧ b < lo + m) :
    a = b := by
  have hd := Nat.div_add_mod a m
  have hd' := Nat.div_add_mod b m
  rcases Nat.lt_trichotomy (a / m) (b / m) with hlt | heq | hlt
  · have := Nat.mul_le_mul_left m hlt
    rw [Nat.mul_succ] at this
    omega
  · rw [heq] at hd; omega
  · have := Nat.mul_le_mul_left m hlt
    rw [Nat.mul_succ] at this
    omega

/-- A call of `check_recv` keeps what it acknowledges selectively exactly if no pack of its batch
that is still to be delivered has a number below `next`. -/
theorem sackSound_iff {idx : WcbReceivedPack → Nat} {f : Nat → List Byte} {lo n : Nat}
    (hw : InWindow idx f lo n w) (h : checkRecv now w = .ok w') :
    SackSound idx n now w w' ↔
      ∀ p ∈ w.rcv.receivedVecStandby, p.inSeqSpace = true → n ≤ idx p → w.rcv.next ≤ p.seq := by
  by_cases hne : w.rcv.receivedVecStandby = []
  · simp [SackSound, hne]
  obtain ⟨hsack, new, hcons, hmem⟩ := checkRecv_handed hne hw.fromAddr_eq h
  obtain ⟨hnext, hhist, htmp⟩ := foldl_takePack_frame
    (w.rcv.receivedVecStandby.filter (fun p => p.inSeqSpace)) (w.sorting now).rcv
  have hnext' : (w.sorting now).rcv.next = w.rcv.next := rfl
  have hdrop : w'.rcv.hist.consumed.drop w.rcv.hist.consumed.length = new := by
    have : w'.rcv.hist.consumed = w.rcv.hist.consumed ++ new := by
      have h1 : (w.takenRcv now).hist.consumed = w.rcv.hist.consumed := by unfold Wcb.takenRcv; rw [hhist]; rfl
      rw [← h1]; exact hcons
    rw [this, List.drop_left]
  have hlisted : ∀ p ∈ w.rcv.receivedVecStandby, p.inSeqSpace = true → p.seq ∈ sackList now w := by
    intro p hp hs
    rw [hsack]
    show p.seq ∈ (List.foldl Rcv.takePack _ _).sackedPackTmp
    rw [htmp]
    refine List.mem_append_right _ (List.mem_map.2 ⟨p, ?_, rfl⟩)
    rw [List.mem_filter]; exact ⟨hp, hs⟩
  have hheld : ∀ q, q ∈ new ++ w'.rcv.received ↔ q ∈ (w.takenRcv now).received := by
    intro q; rw [List.mem_append]; exact hmem q
  constructor
  · intro hsound p hp hs hn
    by_contra hlt
    -- `p` is dropped as old, but nothing below `next` is held or delivered in this call
    rcases hsound p.seq (hlisted p hp hs) p hp hs rfl with hold | ⟨q, hq, hidx, -⟩
    · omega
    · rw [hdrop, hheld] at hq
      have hpw : p.seq = idx p % 2 ^ 32 := hw.seq_eq p (List.mem_append_right _ hp)
      rcases mem_foldl_takePack hq with hq | ⟨hq, hqn⟩
      · have h1 := (hw.held_new q hq).2
        have h2 := hw.seq_eq q (List.mem_append_left _ hq)
        rw [hidx] at h2; omega
      · have h2 := hw.seq_eq q (List.mem_append_right _ (List.mem_of_mem_filter hq))
        rw [hidx] at h2; omega
  · intro hcond s hs p hp hsp hps
    by_cases hold : idx p < n
    · exact .inl hold
    right
    have hge : w.rcv.next ≤ p.seq := hcond p hp hsp (Nat.le_of_not_lt hold)
    obtain ⟨q, hq, hqs⟩ := exists_mem_foldl_takePack (r := (w.sorting now).rcv)
      (List.mem_filter.2 ⟨hp, hsp⟩ : p ∈ w.rcv.receivedVecStandby.filter (fun p => p.inSeqSpace)) hge
    have hqw : q ∈ w.rcv.received ++ w.rcv.receivedVecStandby := by
      rcases mem_foldl_takePack hq with hq | ⟨hq, -⟩
      · exact List.mem_append_left _ hq
      · exact List.mem_append_right _ (List.mem_of_mem_filter hq)
    have hpw : p ∈ w.rcv.received ++ w.rcv.receivedVecStandby := List.mem_append_right _ hp
    have hidx : idx q = idx p := by
      refine eq_of_mod_eq (m := 2 ^ 32) ?_ (hw.window q hqw) (hw.window p hpw)
      rw [← hw.seq_eq q hqw, ← hw.seq_eq p hpw, hqs]
    refine ⟨q, ?_, hidx, ?_⟩
    · rw [hdrop, hheld]; exact hq
    · rw [hw.data_eq q hqw, hw.data_eq p hpw, hidx]

/-- A client whose server has sent `2 ^ 32 - 1` packs and now the next but one. -/
def Wcb.atWrap (batch : List WcbReceivedPack) : Wcb :=
  let w := Wcb.connecting.after handshake
  { w with rcv := { w.rcv with next := 2 ^ 32 - 1, receivedVecStandby := batch } }

/-- The pack before the wrap is delivered. -/
theorem sackSound_before_wrap :
    ∃ w', checkRecv 3 (Wcb.atWrap [serverData (2 ^ 32 - 1) [5] (by decide)]) = .ok w' ∧
      SackSound (fun p => p.seq) (2 ^ 32 - 1) 3 (Wcb.atWrap [serverData (2 ^ 32 - 1) [5] (by decide)]) w' := by
  refine ⟨_, rfl, ?_⟩
  have hw : InWindow (fun p => p.seq) (fun _ => [5]) 0 (2 ^ 32 - 1)
      (Wcb.atWrap [serverData (2 ^ 32 - 1) [5] (by decide)]) :=
    ⟨by decide, by decide, by decide, by decide, by decide, by decide, by decide, by decide⟩
  exact (sackSound_iff hw rfl).2 (by decide)

/-- The pack behind it has the number 0: it is acknowledged, and dropped as old. -/
theorem not_sackSound_at_wrap :
    ∃ w', checkRecv 3 (Wcb.atWrap [serverData 0 [5] (by decide)]) = .ok w' ∧
      InWindow (fun _ => 2 ^ 32) (fun _ => [5]) (2 ^ 32 - 1) (2 ^ 32 - 1)
        (Wcb.atWrap [serverData 0 [5] (by decide)]) ∧
      ¬ SackSound (fun _ => 2 ^ 32) (2 ^ 32 - 1) 3 (Wcb.atWrap [serverData 0 [5] (by decide)]) w' := by
  refine ⟨_, rfl, ⟨by decide, by decide, by decide, by decide, by decide, by decide, by decide, by decide⟩, ?_⟩
  intro h
  rcases h 0 (by decide) (serverData 0 [5] (by decide)) (by decide) (by decide) rfl with hold | ⟨q, hq, -⟩
  · exact absurd hold (by decide)
  · exact (List.not_mem_nil : q ∉ ([] : List WcbReceivedPack)) hq

end Wawo
