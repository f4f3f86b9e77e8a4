import Wawo.Wcp.SenderSim
import Wawo.Wcp.Receiver

/-!
# Packs outside the sequence space

The packs sent from `s_sending_ignore_seq_space` carry `snd_info.dsn` and do not take it; the peer must
not count them (`CtlPack` lists what they can be). `classify` tells them apart by SACK, KEEP_ALIVE and
KEEP_ALIVE_REPLY, and a pack whose only flag is WND, as `update_rwnd` makes it, has none of these: the
peer takes it for the pack of that number (`ctlIgnored_iff`).
-/

namespace Wawo

open Lts Relation

/-- The flags of the packs in `s_sending_ignore_seq_space`. -/
def ctlFlags : List WcpFlag :=
  [.sack, .keepAlive, .keepAliveReply, .wnd, .sack ||| .wnd, .keepAlive ||| .wnd, .keepAliveReply ||| .wnd]

/-- The classification loop can read the payload. -/
def Datagram.Readable (d : Datagram) : Prop := d.testFlag .sack = true → d.data ≠ [] ∧ ∃ l, readSack d.data = .ok l

structure CtlPack (d : Datagram) : Prop where
  flag : d.header.flag ∈ ctlFlags
  readable : d.Readable

theorem ctlFlags_wnd {f : WcpFlag} (h : f ∈ ctlFlags) : f ||| .wnd ∈ ctlFlags ∧ (f ||| .wnd) &&& .sack = f &&& .sack := by
  have hall : ctlFlags.all (fun f => ctlFlags.contains (f ||| .wnd) && (f ||| .wnd) &&& .sack == f &&& .sack) = true := by
    decide
  simpa using List.all_eq_true.1 hall f h

theorem ctlFlags_inSeqSpace {f : WcpFlag} (h : f ∈ ctlFlags) :
    (f &&& .sack = 0 ∧ f &&& .keepAlive = 0 ∧ f &&& .keepAliveReply = 0) ↔ f = .wnd := by
  have hall : ctlFlags.all (fun f =>
      (f &&& .sack == 0 && (f &&& .keepAlive == 0 && f &&& .keepAliveReply == 0)) == (f == .wnd)) = true := by decide
  have := List.all_eq_true.1 hall f h
  rw [beq_iff_eq, Bool.eq_iff_iff] at this
  simpa using this

theorem CtlPack.withWnd {d : Datagram} (h : CtlPack d) : CtlPack (Sender.withWnd d) := by
  obtain ⟨h1, h2⟩ := ctlFlags_wnd h.flag
  refine ⟨h1, fun hs => h.readable ?_⟩
  have hs : (d.header.flag ||| .wnd) &&& .sack != 0 := hs
  rwa [h2] at hs

/-- A control pack is outside the sequence space unless WND is its only flag. -/
theorem CtlPack.inSeqSpace_iff {d : Datagram} (h : CtlPack d) : d.inSeqSpace = true ↔ d.header.flag = .wnd := by
  rw [← ctlFlags_inSeqSpace h.flag]
  simp [Datagram.inSeqSpace, Datagram.testFlag, WcpHeader.testFlag, and_assoc]

namespace Sender

variable {m : Mode} {s s' : Sender}

theorem readSack_writeU32 (l : List Nat) : ∃ l', readSack (l.flatMap writeU32) = .ok l' := by
  induction l with
  | nil => exact ⟨[], rfl⟩
  | cons a l ih =>
    obtain ⟨l', hl⟩ := ih
    rw [List.flatMap_cons, writeU32]
    simp only [List.cons_append, List.nil_append, readSack, hl]
    exact ⟨_, rfl⟩

theorem Ctl.ctlPack {d : Datagram} (h : Ctl m s d) : CtlPack d := by
  cases h with
  | sack l hl hlen =>
    refine ⟨by simp [Datagram.fresh, ctlFlags], fun _ => ⟨?_, readSack_writeU32 l⟩⟩
    intro hnil
    have hlen := length_flatMap_writeU32 l
    rw [show l.flatMap writeU32 = [] from hnil] at hlen
    exact hl (List.length_eq_zero_iff.1 (by simp only [List.length_nil] at hlen; omega))
  | keepalive => exact ⟨by simp [Datagram.fresh, ctlFlags], fun h => absurd h (by rw [Datagram.testFlag_fresh]; decide)⟩
  | keepaliveReply => exact ⟨by simp [Datagram.fresh, ctlFlags], fun h => absurd h (by rw [Datagram.testFlag_fresh]; decide)⟩
  | wnd _ _ => exact ⟨by simp [Datagram.fresh, ctlFlags], fun h => absurd h (by rw [Datagram.testFlag_fresh]; decide)⟩

/-- What is queued and what was sent from `s_sending_ignore_seq_space`. -/
structure CtlInv (s : Sender) : Prop where
  queued : ∀ q ∈ s.ctl, CtlPack q.pack
  emitted : ∀ d ∈ s.hist.emittedCtl, CtlPack d

theorem CtlInv.step (h : CtlInv s) (hs : Step m s s') : CtlInv s' := by
  cases hs with
  | pushCtl d dup hd =>
    refine ⟨?_, h.emitted⟩
    intro q hq
    rcases List.mem_append.1 hq with hq | hq
    · exact h.queued q hq
    · rw [List.mem_singleton.1 hq]; exact hd.ctlPack
  | mergeWnd q rest hq =>
    have hqueued := h.queued
    rw [hq] at hqueued
    refine ⟨?_, h.emitted⟩
    intro q' hq'
    rcases List.mem_cons.1 hq' with rfl | hq'
    · exact (hqueued q (by simp)).withWnd
    · exact hqueued q' (by simp [hq'])
  | emitCtl q rest wnd hq =>
    refine ⟨?_, ?_⟩
    · intro q' hq'
      obtain ⟨q₀, hq₀, he⟩ := pack_of_mem_pop hq'
      rw [← he]; exact h.queued q₀ hq₀
    · intro d hd
      rcases List.mem_append.1 hd with hd | hd
      · exact h.emitted d hd
      · rw [List.mem_singleton.1 hd]
        obtain ⟨hf, hread⟩ := h.queued q (by simp [hq])
        exact ⟨hf, hread⟩
  | _ => exact ⟨h.queued, h.emitted⟩

end Sender

variable {w w' w₀ : Wcb} {es : List Event} {p : WcbReceivedPack} {now : Nat} {rest l : List WcbReceivedPack}

theorem run_ctlInv (h₀ : Opened w₀) (h : Run step (fun _ _ => True) w₀ es w) : w.snd.sender.CtlInv :=
  run_sender_inv Sender.CtlInv (fun _ _ _ _ => ⟨nofun, nofun⟩) (fun _ _ hv ⟨_, hs⟩ => hv.step hs) h₀ h

/-! ### The delivery loop does not look at the sending half -/

theorem deliverData_setSnd (w : Wcb) (s : Snd) :
    deliverData (w.setSnd s) p rest = (deliverData w p rest).map fun c => (c.1.setSnd s, c.2) := by
  unfold deliverData
  by_cases hd : p.header.dlen > 0
  · rw [if_pos hd, if_pos hd]
    by_cases h1 : ¬ p.testFlag .dat
    · rw [if_pos h1, if_pos h1]; rfl
    rw [if_neg h1, if_neg h1]
    by_cases h2 : p.testFlag (.syn ||| .fin)
    · rw [if_pos h2, if_pos h2]; rfl
    rw [if_neg h2, if_neg h2]
    by_cases h3 : p.fromAddr ≠ w.remoteAddr
    · rw [if_pos h3, if_pos (show p.fromAddr ≠ (w.setSnd s).remoteAddr from h3)]; rfl
    rw [if_neg h3, if_neg (show ¬ p.fromAddr ≠ (w.setSnd s).remoteAddr from h3)]
    by_cases h4 : w.rcv.rbStandby.leftCapacity < p.header.dlen
    · rw [if_pos h4, if_pos (show (w.setSnd s).rcv.rbStandby.leftCapacity < p.header.dlen from h4)]; rfl
    · rw [if_neg h4, if_neg (show ¬ (w.setSnd s).rcv.rbStandby.leftCapacity < p.header.dlen from h4)]; rfl
  · rw [if_neg hd, if_neg hd]; rfl

theorem deliverSyn_setSnd (p : WcbReceivedPack) (rest : List WcbReceivedPack) (w : Wcb) (s : Snd) :
    ∃ s', deliverSyn (w.setSnd s) p rest = ((deliverSyn w p rest).1.setSnd s', (deliverSyn w p rest).2) := by
  unfold deliverSyn
  dsimp only [Wcb.setSnd]
  split_ifs
  · split <;> exact ⟨_, rfl⟩
  · exact ⟨_, rfl⟩

theorem deliverAck_setSnd (w : Wcb) (s : Snd) :
    deliverAck now (w.setSnd s) p = (deliverAck now w p).map fun w => w.setSnd s := by
  unfold deliverAck
  by_cases hf : p.testFlag .ack
  · rw [if_pos hf, if_pos hf]
    rw [Wcb.setSnd_state]
    cases w.state <;> dsimp only
    case synSent =>
      by_cases h1 : w.remoteAddr.isNull
      · rw [if_pos h1, if_pos (show (w.setSnd s).remoteAddr.isNull from h1)]; rfl
      rw [if_neg h1, if_neg (show ¬ (w.setSnd s).remoteAddr.isNull from h1)]
      by_cases h2 : w.remoteAddr ≠ p.fromAddr
      · rw [if_pos h2, if_pos (show (w.setSnd s).remoteAddr ≠ p.fromAddr from h2)]; rfl
      rw [if_neg h2, if_neg (show ¬ (w.setSnd s).remoteAddr ≠ p.fromAddr from h2)]
      by_cases h3 : w.so.connRet = ok
      · rw [if_pos h3, if_pos (show (w.setSnd s).so.connRet = ok from h3)]; rfl
      · rw [if_neg h3, if_neg (show ¬ (w.setSnd s).so.connRet = ok from h3)]; rfl
    all_goals rfl
  · rw [if_neg hf, if_neg hf]; rfl

theorem deliverFin_setSnd (now : Nat) (p : WcbReceivedPack) (w : Wcb) (s : Snd) :
    ∃ s', deliverFin now (w.setSnd s) p = (deliverFin now w p).setSnd s' := by
  unfold deliverFin
  dsimp only [Wcb.setSnd]
  split_ifs
  · split <;> exact ⟨_, rfl⟩
  · exact ⟨_, rfl⟩

theorem deliverFlags_setSnd (now : Nat) (p : WcbReceivedPack) (rest : List WcbReceivedPack) (w : Wcb) (s : Snd) :
    ∃ s', deliverFlags now (w.setSnd s) p rest = (deliverFlags now w p rest).map fun c => (c.1.setSnd s', c.2) := by
  unfold deliverFlags
  by_cases hrst : p.testFlag .rst
  · rw [if_pos hrst, if_pos hrst]; exact ⟨s, rfl⟩
  rw [if_neg hrst, if_neg hrst]
  obtain ⟨s₁, hsyn⟩ := deliverSyn_setSnd p rest w s
  rw [hsyn]
  obtain ⟨w₁, y⟩ := deliverSyn w p rest
  cases y with
  | stop => exact ⟨s₁, rfl⟩
  | more =>
    dsimp only
    rw [deliverAck_setSnd]
    cases deliverAck now w₁ p with
    | error e => exact ⟨s, rfl⟩
    | ok w₂ =>
      obtain ⟨s₂, hfin⟩ := deliverFin_setSnd now p w₂ s₁
      refine ⟨s₂, ?_⟩
      dsimp only [Except.map, bind, Except.bind]
      rw [hfin]
      rfl

theorem deliverOne_setSnd (now : Nat) (p : WcbReceivedPack) (rest : List WcbReceivedPack) (w : Wcb) (s : Snd) :
    ∃ s', deliverOne now p rest (w.setSnd s) = (deliverOne now p rest w).map fun c => (c.1.setSnd s', c.2) := by
  unfold deliverOne
  rw [Wcb.setSnd_rcv, deliverData_setSnd]
  split_ifs
  · exact ⟨s, rfl⟩
  · exact ⟨s, rfl⟩
  · cases deliverData w p rest with
    | error e => exact ⟨s, rfl⟩
    | ok c =>
      obtain ⟨w₁, y⟩ := c
      cases y with
      | stop => exact ⟨s, rfl⟩
      | more => exact deliverFlags_setSnd now p rest { w₁ with rcv := w₁.rcv.advance p } s

theorem deliverLoop_setSnd (now : Nat) (l : List WcbReceivedPack) (w : Wcb) (s : Snd) :
    ∃ s', deliverLoop now l (w.setSnd s) = (deliverLoop now l w).map fun w => w.setSnd s' := by
  induction l generalizing w s with
  | nil => exact ⟨s, rfl⟩
  | cons p rest ih =>
    unfold deliverLoop
    obtain ⟨s₁, hone⟩ := deliverOne_setSnd now p rest w s
    rw [hone]
    cases deliverOne now p rest w with
    | error e => exact ⟨s, rfl⟩
    | ok c =>
      obtain ⟨w₁, y⟩ := c
      cases y with
      | stop => exact ⟨s₁, rfl⟩
      | more => exact ih w₁ s₁

/-! ### What the delivery loop leaves alone -/

section Keeps

variable {α : Type} (π : Snd → α) (hπ : ∀ s flag, π (s.pushStandby flag) = π s)
include hπ

theorem deliverFlags_keeps {c : Wcb × Delivery} (h : deliverFlags now w p rest = .ok c) : π c.1.snd = π w.snd := by
  have hsyn : ∀ {v x}, deliverSyn w p rest = (v, x) → π v.snd = π w.snd := by
    intro v x hs
    unfold deliverSyn at hs
    split_ifs at hs
    · split at hs <;> cases hs
      · exact hπ _ _
      · exact hπ _ _
      · rfl
    · cases hs; rfl
  obtain ⟨w', x⟩ := c
  rcases deliverFlags_cases h with ⟨-, -, rfl⟩ | ⟨-, -, hs⟩ | ⟨-, -, w₁, w₂, hs, ha, rfl⟩
  · rfl
  · exact hsyn hs
  · have hfin : π (deliverFin now w₂ p).snd = π w₂.snd := by
      unfold deliverFin
      split_ifs
      · refine (hπ _ _).trans ?_
        dsimp only
        split <;> rfl
      · rfl
    exact hfin.trans ((congrArg π (deliverAck_snd ha)).trans (hsyn hs))

/-- Of the sending half, the delivery changes what a pack that takes a number changes. -/
theorem deliverLoop_keeps (h : deliverLoop now l w = .ok w') : π w'.snd = π w.snd := by
  induction l generalizing w with
  | nil => cases h; rfl
  | cons p rest ih =>
    unfold deliverLoop at h
    obtain ⟨⟨w₁, x⟩, ho, h⟩ := bind_eq_ok.1 h
    have hone : π w₁.snd = π w.snd := by
      unfold deliverOne at ho
      split_ifs at ho
      · cases ho; rfl
      obtain ⟨⟨w₂, y⟩, hd, ho⟩ := bind_eq_ok.1 ho
      have hdat : w₂.snd = w.snd := deliverData_snd hd
      cases y with
      | stop => cases ho; rw [hdat]
      | more => exact (deliverFlags_keeps π hπ ho).trans (congrArg π hdat)
    cases x with
    | stop => cases h; exact hone
    | more => exact (ih h).trans hone

end Keeps

/-- From `r` to `r'` the packs held, the place in the stream, the buffer behind the user's, its window and the
record of the FIN may have changed. -/
def Rcv.Delivered (r r' : Rcv) : Prop :=
  ∃ received next wnd rbStandby less more fin finRead hist, r' = { r with
    received := received, next := next, wnd := wnd, rbStandby := rbStandby, rwndLessThanMtu := less, rwndMoreThanMtu := more
    remoteFinReceived := fin, remoteFinReadByUser := finRead, hist := hist }

namespace Rcv.Delivered

variable {r r' r'' : Rcv}

theorem refl (r : Rcv) : Delivered r r := ⟨_, _, _, _, _, _, _, _, _, rfl⟩

theorem of_eq (h : r' = r) : Delivered r r' := h ▸ refl r

theorem trans (h : Delivered r r') (h' : Delivered r' r'') : Delivered r r'' := by
  obtain ⟨_, _, _, _, _, _, _, _, _, rfl⟩ := h
  obtain ⟨_, _, _, _, _, _, _, _, _, rfl⟩ := h'
  exact ⟨_, _, _, _, _, _, _, _, _, rfl⟩

end Rcv.Delivered

theorem deliverFlags_delivered {x : Delivery} (h : deliverFlags now w p rest = .ok (w', x)) : w.rcv.Delivered w'.rcv := by
  have hsyn : ∀ {v y}, deliverSyn w p rest = (v, y) → w.rcv.Delivered v.rcv := by
    intro v y hs
    unfold deliverSyn at hs
    split_ifs at hs
    · split at hs <;> cases hs
      · exact .refl _
      · exact .refl _
      · exact ⟨_, _, _, _, _, _, _, _, _, rfl⟩
    · cases hs; exact .refl _
  rcases deliverFlags_cases h with ⟨-, -, rfl⟩ | ⟨-, -, hs⟩ | ⟨-, -, w₁, w₂, hs, ha, rfl⟩
  · exact .refl _
  · exact hsyn hs
  · have hack : w₂.rcv = w₁.rcv := by
      rcases deliverAck_cases ha with rfl | ⟨-, -, timer, errno, he⟩
      · rfl
      · rw [he]
    have hfin : w₂.rcv.Delivered (deliverFin now w₂ p).rcv := by
      unfold deliverFin
      split_ifs
      · dsimp only
        split
        · exact ⟨_, _, _, _, _, _, _, _, _, rfl⟩
        all_goals exact .refl _
      · exact .refl _
    exact (((hsyn hs).trans (.of_eq hack)).trans hfin).trans ⟨_, _, _, _, _, _, _, _, _, rfl⟩

theorem deliverOne_delivered {x : Delivery} (h : deliverOne now p rest w = .ok (w', x)) : w.rcv.Delivered w'.rcv := by
  unfold deliverOne at h
  split_ifs at h
  · cases h; exact .refl _
  obtain ⟨⟨w₁, y⟩, hd, h⟩ := bind_eq_ok.1 h
  have hdata : w.rcv.Delivered w₁.rcv := by
    unfold deliverData at hd
    split_ifs at hd <;> cases hd
    · exact ⟨_, _, _, _, _, _, _, _, _, rfl⟩
    · exact ⟨_, _, _, _, _, _, _, _, _, rfl⟩
    · exact ⟨_, _, _, _, _, _, _, _, _, rfl⟩
    · exact .refl _
  cases y with
  | stop => cases h; exact hdata
  | more =>
    have hadvance : w₁.rcv.Delivered (w₁.rcv.advance p) := ⟨_, _, _, _, _, _, _, _, _, rfl⟩
    have hflags := deliverFlags_delivered (w := { w₁ with rcv := w₁.rcv.advance p }) h
    exact (hdata.trans hadvance).trans hflags

theorem deliverLoop_delivered (h : deliverLoop now l w = .ok w') : w.rcv.Delivered w'.rcv := by
  induction l generalizing w with
  | nil => cases h; exact .refl _
  | cons p rest ih =>
    unfold deliverLoop at h
    obtain ⟨⟨w₁, x⟩, ho, h⟩ := bind_eq_ok.1 h
    cases x with
    | stop => cases h; exact deliverOne_delivered ho
    | more => exact (deliverOne_delivered ho).trans (ih h)

/-! ### What the peer does with a control pack -/

theorem Datagram.Readable.classifyOne (h : p.Readable) (c : Wcb × List Nat) : ∃ c', classifyOne c p = .ok c' := by
  unfold Wawo.classifyOne
  dsimp only
  by_cases hs : p.testFlag .sack = true
  · obtain ⟨hd, l, hl⟩ := h hs
    rw [if_pos hs, if_neg hd, hl]
    exact ⟨_, rfl⟩
  · rw [if_neg hs]
    split_ifs <;> exact ⟨_, rfl⟩

theorem readable_of_classifyOne {c c' : Wcb × List Nat} (h : classifyOne c p = .ok c') : p.Readable := by
  intro hs
  unfold classifyOne at h
  dsimp only at h
  rw [if_pos hs] at h
  split_ifs at h with hd
  obtain ⟨l, hl, -⟩ := bind_eq_ok.1 h
  exact ⟨hd, l, hl⟩

/-- A batch can be classified if every pack can; what the receiver holds does not matter. -/
theorem classify_of_readable {batch : List WcbReceivedPack} (h : ∀ p ∈ batch, p.Readable) (w : Wcb) :
    ∃ c, classify batch w = .ok c := by
  unfold classify
  generalize ([] : List Nat) = acks
  induction batch generalizing w acks with
  | nil => exact ⟨_, rfl⟩
  | cons p batch ih =>
    rw [List.foldlM_cons]
    obtain ⟨⟨w₁, acks₁⟩, h₁⟩ := (h p (by simp)).classifyOne (w, acks)
    obtain ⟨c, h₂⟩ := ih (fun q hq => h q (by simp [hq])) w₁ acks₁
    exact ⟨c, bind_eq_ok.2 ⟨_, h₁, h₂⟩⟩

theorem readable_of_classify {batch : List WcbReceivedPack} {c : Wcb × List Nat} (h : classify batch w = .ok c) :
    ∀ p ∈ batch, p.Readable := by
  unfold classify at h
  generalize ([] : List Nat) = acks at h
  induction batch generalizing w acks with
  | nil => simp
  | cons p batch ih =>
    rw [List.foldlM_cons] at h
    obtain ⟨⟨w₁, acks₁⟩, h₁, h₂⟩ := bind_eq_ok.1 h
    exact List.forall_mem_cons.2 ⟨readable_of_classifyOne h₁, ih acks₁ h₂⟩

/-- Whatever the receiver and wherever `p` stands in a batch: behind the classification the receiving
half (`rcv_received`, `rcv_info.next` and the SACK list) is as if `p` had not been there, and so are
`rcv_received` and `rcv_info.next` behind the delivery. -/
def Ignored (p : WcbReceivedPack) : Prop :=
  ∀ (now : Nat) (w : Wcb) (pre post : List WcbReceivedPack),
    (∀ c', classify (pre ++ post) w = .ok c' → ∃ c, classify (pre ++ p :: post) w = .ok c ∧ c.1.rcv = c'.1.rcv) ∧
    (∀ w₁ w₂, recvBatch now (pre ++ p :: post) w = .ok w₁ → recvBatch now (pre ++ post) w = .ok w₂ →
      w₁.rcv.received = w₂.rcv.received ∧ w₁.rcv.next = w₂.rcv.next)

theorem filter_without {pre post : List WcbReceivedPack} (h : p.inSeqSpace = false) :
    (pre ++ p :: post).filter (fun q => q.inSeqSpace) = (pre ++ post).filter (fun q => q.inSeqSpace) := by
  simp [h]

theorem ignored_of_not_inSeqSpace (hread : p.Readable) (h : p.inSeqSpace = false) : Ignored p := by
  intro now w pre post
  refine ⟨?_, ?_⟩
  · intro c' hc'
    have hb := readable_of_classify hc'
    obtain ⟨c, hc⟩ : ∃ c, classify (pre ++ p :: post) w = .ok c := by
      refine classify_of_readable (fun q hq => ?_) w
      rcases List.mem_append.1 hq with hq | hq
      · exact hb q (List.mem_append_left _ hq)
      · rcases List.mem_cons.1 hq with rfl | hq
        · exact hread
        · exact hb q (List.mem_append_right _ hq)
    exact ⟨c, hc, by rw [classify_rcv hc, classify_rcv hc', filter_without h]⟩
  · intro w₁ w₂ h₁ h₂
    unfold recvBatch at h₁ h₂
    obtain ⟨v₁, ht₁, hd₁⟩ := bind_eq_ok.1 h₁
    obtain ⟨v₂, ht₂, hd₂⟩ := bind_eq_ok.1 h₂
    obtain ⟨s₁, r₁, hv₁⟩ := takeBatch_frame ht₁
    obtain ⟨s₂, r₂, hv₂⟩ := takeBatch_frame ht₂
    have hr : v₁.rcv = v₂.rcv := by rw [takeBatch_rcv ht₁, takeBatch_rcv ht₂, filter_without h]
    have hv : v₁ = v₂.setSnd s₁ := by
      rw [hv₁, hv₂] at hr
      rw [hv₁, hv₂, show r₁ = r₂ from hr]
      rfl
    rw [hv] at hd₁
    obtain ⟨s', hloop⟩ := deliverLoop_setSnd now v₂.rcv.received v₂ s₁
    rw [Wcb.setSnd_rcv, hloop, hd₂] at hd₁
    cases hd₁
    exact ⟨rfl, rfl⟩

/-- A pack that the classification counts shows in the SACK list of any receiver. -/
theorem not_ignored_of_inSeqSpace (h : p.inSeqSpace = true) : ¬ Ignored p := by
  intro hi
  obtain ⟨c, hc, hr⟩ := (hi 0 Wcb.connecting [] []).1 (Wcb.connecting, []) rfl
  have hfilter : ([] ++ [p]).filter (fun q : WcbReceivedPack => q.inSeqSpace) = [p] := by simp [h]
  rw [classify_rcv hc, hfilter] at hr
  have htmp : (Wcb.connecting.rcv.takePack p).sackedPackTmp = Wcb.connecting.rcv.sackedPackTmp :=
    congrArg Rcv.sackedPackTmp hr
  unfold Rcv.takePack at htmp
  dsimp only at htmp
  split_ifs at htmp <;> exact absurd htmp (by simp [Wcb.connecting, Wcb.init])

/-- A pack that a reachable sender has sent outside the sequence space is ignored by its peer exactly
if it is more than a bare window update. -/
theorem ctlIgnored_iff (h₀ : Opened w₀) (h : Run step (fun _ _ => True) w₀ es w)
    (hp : p.toDatagram ∈ w.snd.hist.emittedCtl) : Ignored p ↔ p.header.flag ≠ .wnd := by
  have hctl : CtlPack p.toDatagram := (run_ctlInv h₀ h).emitted _ hp
  rw [ne_eq, ← hctl.inSeqSpace_iff]
  refine ⟨fun hi hs => not_ignored_of_inSeqSpace hs hi, fun hs => ?_⟩
  exact ignored_of_not_inSeqSpace hctl.readable (Bool.eq_false_iff.2 hs)

/-- The SACK of the server's SYN. -/
theorem ctlIgnored_sack : ∃ p : WcbReceivedPack, p.toDatagram ∈ (Wcb.connecting.after handshake).snd.hist.emittedCtl ∧
    Ignored p := by
  have hrun : Run step (fun _ _ => True) Wcb.connecting handshake (Wcb.connecting.after handshake) :=
    Wcb.run_after (by decide +kernel)
  have hsack : ((Wcb.connecting.after handshake).snd.hist.emittedCtl.map fun d => d.header.flag) = [.sack, .sack] := by
    decide +kernel
  obtain ⟨d, hd, hf⟩ := List.mem_map.1 (hsack ▸ List.mem_cons_self : WcpFlag.sack ∈ _)
  exact ⟨⟨d, ⟨1⟩⟩, hd, (ctlIgnored_iff opened_connecting hrun hd).2 (by rw [hf]; decide)⟩

/-- A data pack of the server that is as large as a pack can be. -/
def serverBulk (seq : Nat) : WcbReceivedPack := serverData seq (List.replicate wcpMdu 8) (by simp)

/-- A client whose receive buffer was filled and then swapped sends a window update. -/
def Wcb.windowed : Wcb :=
  Wcb.connecting.after (handshake ++ (List.range 7).map (fun k => .arrive (serverBulk (k + 1))) ++
    [.update (.at 3), .update (.at 2000)])

theorem wnd_not_ignored : (∃ es, Run step (fun _ _ => True) Wcb.connecting es Wcb.windowed) ∧
    ∃ p : WcbReceivedPack, p.toDatagram ∈ Wcb.windowed.snd.hist.emittedCtl ∧ ¬ Ignored p := by
  obtain ⟨w, hrun, hlast⟩ := Run.of_reaches (f := step)
    (handshake ++ (List.range 7).map (fun k => .arrive (serverBulk (k + 1))) ++ [.update (.at 3), .update (.at 2000)])
    Wcb.connecting (P := fun w => w.snd.hist.emittedCtl.any fun d => d.inSeqSpace) (by decide +kernel)
  have hw : Wcb.windowed = w := by
    unfold Wcb.windowed Wcb.after
    rw [hrun.exec_eq]
  rw [hw]
  obtain ⟨d, hd, hs⟩ := List.any_eq_true.1 hlast
  exact ⟨⟨_, hrun⟩, ⟨d, ⟨1⟩⟩, hd, not_ignored_of_inSeqSpace hs⟩

end Wawo
