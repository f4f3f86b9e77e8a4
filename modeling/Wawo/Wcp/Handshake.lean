import Wawo.Wcp.Pair
import Wawo.Wcp.States

/-!
# The handshake

Until the client has taken a pack, both ends are idle: the client has numbered its SYN only, the server
at most its SYN|ACK, and nothing that reaches the server carries `WCP_FLAG_ACK` (`Opening`). The first
pack the client takes is then the SYN|ACK of the server (`Opening.step`), whatever happens afterwards.

This needs a client that does not call `send` too early: `check_send` packs the bytes in `sb` as
DAT|ACK in `WCB_SYNING` and `WCB_SYN_SENT` as well, and the server takes the ACK bit of such a pack for
the answer to its SYN|ACK (`established_before_synAck`).
-/

namespace Wawo

open Lts Relation

/-! ### What leaves the numbers alone -/

/-- Nothing took a number, and nothing came to or left `sb`. -/
structure Sender.SameNumbers (s s' : Sender) : Prop where
  numbered : s'.hist.numbered = s.hist.numbered
  dsn : s'.dsn = s.dsn
  sb : s'.sb = s.sb

theorem Sender.Step.sameNumbers {m : Mode} {s s' : Sender} (hs : Step m s s')
    (hm : m.actor = .flights ∨ m.actor = .send ∧ s.sb = []) : SameNumbers s s' := by
  cases hs with
  | number flag _ ha => rcases hm with hm | ⟨hm, -⟩ <;> rw [hm] at ha <;> rcases ha with ha | ha <;> cases ha
  | shutFin _ ha => rcases hm with hm | ⟨hm, -⟩ <;> rw [hm] at ha <;> cases ha
  | accept bs _ ha => rcases hm with hm | ⟨hm, -⟩ <;> rw [hm] at ha <;> cases ha
  | package hb _ ha =>
    rcases hm with hm | ⟨-, hb'⟩
    · rw [hm] at ha; cases ha
    · exact absurd hb' hb
  | _ => exact ⟨rfl, rfl, rfl⟩

theorem Sender.sameNumbers_of_star {m : Mode} {s s' : Sender} (hs : ReflTransGen (Step m) s s')
    (hm : m.actor = .flights ∨ m.actor = .send ∧ s.sb = []) : SameNumbers s s' := by
  induction hs with
  | refl => exact ⟨rfl, rfl, rfl⟩
  | tail _ hs ih =>
    have hstep := hs.sameNumbers (hm.imp_right fun ⟨ha, hb⟩ => ⟨ha, ih.sb.trans hb⟩)
    exact ⟨hstep.numbered.trans ih.numbered, hstep.dsn.trans ih.dsn, hstep.sb.trans ih.sb⟩

/-- `w'` differs from `w` in nothing the handshake depends on. -/
structure Idle (w w' : Wcb) : Prop where
  numbers : w.snd.sender.SameNumbers w'.snd.sender
  less : w'.rcv.rwndLessThanMtu = w.rcv.rwndLessThanMtu
  more : w'.rcv.rwndMoreThanMtu = w.rcv.rwndMoreThanMtu
  consumed : w'.rcv.hist.consumed = w.rcv.hist.consumed
  next : w'.rcv.next = w.rcv.next
  state : SendMove w.state w'.state

section

variable {w w' w'' : Wcb} {now : Nat} {p : WcbReceivedPack} {rest : List WcbReceivedPack} {x : Delivery}
  {P : WcbReceivedPack → Prop}

theorem Idle.trans (h : Idle w w') (h' : Idle w' w'') : Idle w w'' where
  numbers := ⟨h'.numbers.numbered.trans h.numbers.numbered, h'.numbers.dsn.trans h.numbers.dsn,
    h'.numbers.sb.trans h.numbers.sb⟩
  less := h'.less.trans h.less
  more := h'.more.trans h.more
  consumed := h'.consumed.trans h.consumed
  next := h'.next.trans h.next
  state := h.state.trans h'.state

/-! ### `check_recv` before the delivery -/

theorem takeBatch_idle {batch : List WcbReceivedPack} (h : takeBatch now batch w = .ok w') : Idle w w' := by
  obtain ⟨tmp, held, he⟩ := foldl_takePack_eq (batch.filter (fun p => p.inSeqSpace))
    { w.rcv with keepaliveTimerLastReceivedPack := now, keepaliveProbesSent := 0 }
  have hsim : SndSim (.any .flights 0) Wcb.snd w.snd.sender (takeBatch now batch w) :=
    takeBatch_sim nofun fun _ _ => trivial
  rw [h] at hsim
  have hst : w'.state = w.state := by
    obtain ⟨s, r, he⟩ := takeBatch_frame h
    rw [he]
  have hr := takeBatch_rcv h
  rw [he] at hr
  refine ⟨Sender.sameNumbers_of_star hsim (.inl rfl), ?_, ?_, ?_, ?_, .of_eq hst⟩ <;> rw [hr]

theorem takeArrived_idle (w : Wcb) : Idle w w.takeArrived := ⟨⟨rfl, rfl, rfl⟩, rfl, rfl, rfl, rfl, .stay _⟩

theorem prepare_idle (t : Tick) (w : Wcb) : Idle w (w.prepare t) := ⟨⟨rfl, rfl, rfl⟩, rfl, rfl, rfl, rfl, .stay _⟩

theorem checkKeepalive_idle (now : Nat) (w : Wcb) : Idle w (checkKeepalive now w) := by
  have hs := Sender.sameNumbers_of_star (checkKeepalive_steps (m := .any .flights 0) now w) (.inl rfl)
  refine ⟨hs, ?_, ?_, ?_, ?_, .of_eq ?_⟩ <;>
  · unfold checkKeepalive
    dsimp only
    split_ifs <;> rfl

theorem swapRb_idle (h : w.rcv.rwndLessThanMtu = false) : Idle w { w with rcv := w.rcv.swapRb } := by
  unfold Rcv.swapRb
  dsimp only
  split_ifs with _ hl
  · rw [h] at hl; cases hl
  · exact ⟨⟨rfl, rfl, rfl⟩, rfl, rfl, rfl, rfl, .stay _⟩
  · exact ⟨⟨rfl, rfl, rfl⟩, rfl, rfl, rfl, rfl, .stay _⟩

/-- The packs held once the batch is taken. -/
theorem takeBatch_held (hall : w.rcv.receiver.All P)
    (h : takeBatch now w.rcv.receivedVecStandby w.takeArrived = .ok w') :
    ∀ p ∈ w'.rcv.received, P p ∧ p.inSeqSpace = true := by
  have htake : w.takeArrived.rcv.receiver.All P := hall.step .take
  have hsteps := takeBatch_receiver (P := P) hall.arrived h
  exact (Simulates.star_inv (fun _ _ hv hs => hv.step hs) htake hsteps).held

/-! ### The delivery of packs without payload -/

theorem deliverData_of_nil (hp : p.data = []) : deliverData w p rest = .ok (w, .more) := by
  unfold deliverData
  rw [if_neg (by rw [p.dlen_eq, hp]; exact Nat.lt_irrefl 0)]

theorem deliverFin_rwnd (now : Nat) (w : Wcb) (p : WcbReceivedPack) :
    (deliverFin now w p).rcv.rwndLessThanMtu = w.rcv.rwndLessThanMtu ∧
      (deliverFin now w p).rcv.rwndMoreThanMtu = w.rcv.rwndMoreThanMtu := by
  unfold deliverFin
  split_ifs
  · dsimp only
    split <;> exact ⟨rfl, rfl⟩
  · exact ⟨rfl, rfl⟩

theorem deliverFlags_rwnd (h : deliverFlags now w p rest = .ok (w', x)) :
    w'.rcv.rwndLessThanMtu = w.rcv.rwndLessThanMtu ∧ w'.rcv.rwndMoreThanMtu = w.rcv.rwndMoreThanMtu := by
  rcases deliverFlags_cases h with ⟨-, -, rfl⟩ | ⟨-, -, hs⟩ | ⟨-, -, w₁, w₂, hs, ha, rfl⟩
  · exact ⟨rfl, rfl⟩
  · rcases deliverSyn_rcv hs with ⟨-, hr⟩ | ⟨hx, -⟩
    · rw [hr]; exact ⟨rfl, rfl⟩
    · cases hx
  · rcases deliverSyn_rcv hs with ⟨hx, -⟩ | ⟨-, hr⟩
    · cases hx
    · have hfin := deliverFin_rwnd now w₂ p
      rw [deliverAck_rcv ha, hr] at hfin
      exact hfin

/-- The window flags belong to packs with payload. -/
theorem deliverLoop_rwnd {l : List WcbReceivedPack} (hl : ∀ p ∈ l, p.data = []) (h : deliverLoop now l w = .ok w') :
    w'.rcv.rwndLessThanMtu = w.rcv.rwndLessThanMtu ∧ w'.rcv.rwndMoreThanMtu = w.rcv.rwndMoreThanMtu := by
  induction l generalizing w with
  | nil => cases h; exact ⟨rfl, rfl⟩
  | cons p rest ih =>
    unfold deliverLoop at h
    obtain ⟨⟨w₁, x⟩, ho, h⟩ := bind_eq_ok.1 h
    have hone : w₁.rcv.rwndLessThanMtu = w.rcv.rwndLessThanMtu ∧ w₁.rcv.rwndMoreThanMtu = w.rcv.rwndMoreThanMtu := by
      unfold deliverOne at ho
      rw [deliverData_of_nil (hl p (by simp))] at ho
      split_ifs at ho
      · cases ho; exact ⟨rfl, rfl⟩
      · exact deliverFlags_rwnd (w := { w with rcv := w.rcv.advance p }) ho
    cases x with
    | stop => cases h; exact hone
    | more =>
      obtain ⟨hless, hmore⟩ := ih (fun q hq => hl q (by simp [hq])) h
      exact ⟨hless.trans hone.1, hmore.trans hone.2⟩

/-- A delivery of packs without payload that consumes nothing does nothing. -/
theorem deliverLoop_of_consumed {l : List WcbReceivedPack} (hr : w.rcv.received = l) (hl : ∀ p ∈ l, p.data = [])
    (h : deliverLoop now l w = .ok w') (hc : w'.rcv.hist.consumed = w.rcv.hist.consumed) : w' = w := by
  cases l with
  | nil => cases h; rfl
  | cons p rest =>
    unfold deliverLoop at h
    obtain ⟨⟨w₁, x⟩, ho, h⟩ := bind_eq_ok.1 h
    obtain ⟨-, hm⟩ := deliverOne_receiver (P := fun _ => True) hr ho
    unfold deliverOne at ho
    rw [deliverData_of_nil (hl p (by simp))] at ho
    split_ifs at ho
    · cases ho; cases h; rfl
    -- the pack is taken, so something was consumed
    have hlt : w.rcv.hist.consumed.length < w₁.rcv.hist.consumed.length := by
      have ho : deliverFlags now { w with rcv := w.rcv.advance p } p rest = .ok (w₁, x) := ho
      have hone : w₁.rcv.hist.consumed = w.rcv.hist.consumed ++ [p] := by
        rcases deliverFlags_receiver ho with ⟨-, -, hw⟩ | ⟨b, -, hw⟩
        · rw [hw]; rfl
        · exact congrArg Receiver.consumed hw
      rw [hone]; simp
    have hle : w₁.rcv.hist.consumed.length ≤ w'.rcv.hist.consumed.length := by
      cases x with
      | stop => cases h; exact Nat.le_refl _
      | more =>
        refine Simulates.star_inv (I := fun r => w₁.rcv.hist.consumed.length ≤ r.consumed.length)
          (fun _ _ hv hs => Nat.le_trans hv hs.consumed_le) (Nat.le_refl _)
          (deliverLoop_receiver (P := fun _ => True) (hm rfl) h)
    rw [hc] at hle
    omega

/-! ### `check_recv` -/

/-- Without payload among the packs held, no window update becomes due. -/
theorem checkRecv_rwnd (hall : w.rcv.receiver.All P) (hP : ∀ p, P p → p.inSeqSpace = true → p.data = [])
    (hless : w.rcv.rwndLessThanMtu = false) (h : checkRecv now w = .ok w') :
    w'.rcv.rwndLessThanMtu = false ∧ w'.rcv.rwndMoreThanMtu = w.rcv.rwndMoreThanMtu := by
  obtain ⟨w₁, rfl, hw₁⟩ := checkRecv_cases h
  have hone : w₁.rcv.rwndLessThanMtu = false ∧ w₁.rcv.rwndMoreThanMtu = w.rcv.rwndMoreThanMtu := by
    rcases hw₁ with ⟨-, rfl⟩ | ⟨-, w₂, ht, hl⟩
    · have hk := checkKeepalive_idle now w.takeArrived
      exact ⟨hk.less.trans hless, hk.more⟩
    · have hi := takeBatch_idle ht
      have hheld := takeBatch_held hall ht
      obtain ⟨h1, h2⟩ := deliverLoop_rwnd (fun p hp => hP p (hheld p hp).1 (hheld p hp).2) hl
      exact ⟨(h1.trans hi.less).trans hless, h2.trans hi.more⟩
  have hswap := swapRb_idle hone.1
  exact ⟨hswap.less.trans hone.1, hswap.more.trans hone.2⟩

/-- A call of `check_recv` that consumes no pack, where no pack held has payload. -/
theorem checkRecv_idle (hall : w.rcv.receiver.All P) (hP : ∀ p, P p → p.inSeqSpace = true → p.data = [])
    (hless : w.rcv.rwndLessThanMtu = false) (h : checkRecv now w = .ok w')
    (hc : w'.rcv.hist.consumed = w.rcv.hist.consumed) : Idle w w' := by
  obtain ⟨w₁, rfl, hw₁⟩ := checkRecv_cases h
  have hc : w₁.rcv.hist.consumed = w.rcv.hist.consumed :=
    (congrArg Receiver.consumed (swapRb_receiver w₁.rcv)).symm.trans hc
  have hone : Idle w w₁ := by
    rcases hw₁ with ⟨-, rfl⟩ | ⟨-, w₂, ht, hl⟩
    · exact (takeArrived_idle w).trans (checkKeepalive_idle now _)
    · have hi := (takeArrived_idle w).trans (takeBatch_idle ht)
      have hheld := takeBatch_held hall ht
      rw [deliverLoop_of_consumed rfl (fun p hp => hP p (hheld p hp).1 (hheld p hp).2) hl (hc.trans hi.consumed.symm)]
      exact hi
  exact hone.trans (swapRb_idle (hone.less.trans hless))

/-! ### `check_flights` and `check_send` -/

theorem checkFlights_idle (h : checkFlights now w = .ok w') : Idle w w' := by
  have hsim : SndSim (.any .flights w.rcv.next) Wcb.snd w.snd.sender (checkFlights now w) := checkFlights_sim nofun rfl
  rw [h] at hsim
  have hr := checkFlights_rcv h
  refine ⟨Sender.sameNumbers_of_star hsim (.inl rfl), ?_, ?_, ?_, ?_, .of_eq (checkFlights_state h)⟩ <;> rw [hr]

/-- A call of `check_send` with nothing in `sb` and no window update to send. -/
theorem checkSend_idle (hsb : w.snd.sb.items = []) (hmore : w.rcv.rwndMoreThanMtu = false)
    (h : checkSend now w = .ok w') : Idle w w' := by
  have hsim : SndSim (.any .send w.rcv.next) Wcb.snd w.snd.sender (checkSend now w) := checkSend_sim rfl rfl (.inl rfl)
  rw [h] at hsim
  have hr : w'.rcv = w.rcv := by
    rcases checkSend_rcv h with hr | hr
    · exact hr
    · rw [hr]
      unfold checkRwnd rwndUpdateDue
      rw [hmore]
      simp
  refine ⟨Sender.sameNumbers_of_star hsim (.inr ⟨rfl, hsb⟩), ?_, ?_, ?_, ?_, checkSend_move h⟩ <;> rw [hr]

/-- A tick that consumes no pack, at an end without bytes to send. -/
theorem checkAll_idle (hall : w.rcv.receiver.All P) (hP : ∀ p, P p → p.inSeqSpace = true → p.data = [])
    (hless : w.rcv.rwndLessThanMtu = false) (hmore : w.rcv.rwndMoreThanMtu = false) (hsb : w.snd.sb.items = [])
    (h : checkAll now w = .ok w') (hc : w'.rcv.hist.consumed = w.rcv.hist.consumed) :
    Idle w w' := by
  unfold checkAll at h
  obtain ⟨w₁, h₁, h⟩ := bind_eq_ok.1 h
  obtain ⟨w₂, h₂, h₃⟩ := bind_eq_ok.1 h
  have hc₁ : w₁.rcv.hist.consumed = w'.rcv.hist.consumed := by
    have hr := congrArg Receiver.consumed (checkSend_receiver h₃)
    rw [checkFlights_rcv h₂] at hr
    exact hr.symm
  have hi₁ := checkRecv_idle hall hP hless h₁ (hc₁.trans hc)
  have hi₂ := hi₁.trans (checkFlights_idle h₂)
  exact hi₂.trans (checkSend_idle (hi₂.numbers.sb.trans hsb) (hi₂.more.trans hmore) h₃)

/-! ### The two ends before the client has taken a pack -/

def synContent : Nat × WcpFlag × List Byte := (0, .syn, [])
def synAckContent : Nat × WcpFlag × List Byte := (0, .syn ||| .ack, [])

/-- A client that has taken no pack yet. -/
structure AwaitsSynAck (w : Wcb) : Prop where
  numbered : w.snd.sender.contents = [synContent]
  less : w.rcv.rwndLessThanMtu = false
  more : w.rcv.rwndMoreThanMtu = false
  consumed : w.rcv.hist.consumed = []
  state : (w.state = .syning ∨ w.state = .synSent) ∧ w.snd.sb.items = [] ∨ w.state = .closed ∨ w.state = .recycle

/-- A server that has taken nothing but the SYN. -/
structure AwaitsAck (w : Wcb) : Prop where
  less : w.rcv.rwndLessThanMtu = false
  more : w.rcv.rwndMoreThanMtu = false
  sb : w.snd.sb.items = []
  state : w.state = .synReceived ∨ w.state = .closed ∨ w.state = .recycle
  numbered :
    w.rcv.hist.consumed = [] ∧ w.rcv.next = 0 ∧ w.snd.hist.numbered = [] ∧ w.snd.dsn = 0 ∨
    w.rcv.hist.consumed ≠ [] ∧ w.rcv.next = 1 ∧ w.snd.sender.contents = [synAckContent]

theorem Sender.SameNumbers.contents {s s' : Sender} (h : SameNumbers s s') : s'.contents = s.contents := by
  rw [Sender.contents, h.numbered, Sender.contents]

theorem AwaitsSynAck.idle (h : AwaitsSynAck w) (hi : Idle w w') : AwaitsSynAck w' where
  numbered := hi.numbers.contents.trans h.numbered
  less := hi.less.trans h.less
  more := hi.more.trans h.more
  consumed := hi.consumed.trans h.consumed
  state := by
    have hsb : w'.snd.sb.items = w.snd.sb.items := hi.numbers.sb
    rw [hsb]
    have hs := h.state
    have hm := hi.state
    generalize w.state = st at hs hm
    generalize w'.state = st' at hm ⊢
    cases hm with
    | stay => exact hs
    | syn =>
      rcases hs with ⟨-, hsb⟩ | hs | hs
      · exact .inl ⟨.inr rfl, hsb⟩
      · cases hs
      · cases hs
    | _ => simp at hs

theorem AwaitsAck.idle (h : AwaitsAck w) (hi : Idle w w') : AwaitsAck w' where
  less := hi.less.trans h.less
  more := hi.more.trans h.more
  sb := hi.numbers.sb.trans h.sb
  state := by
    have hs := h.state
    have hm := hi.state
    generalize w.state = st at hs hm
    generalize w'.state = st' at hm ⊢
    cases hm with
    | stay => exact hs
    | _ => simp at hs
  numbered := by
    have hn : w'.snd.hist.numbered = w.snd.hist.numbered := hi.numbers.numbered
    have hd : w'.snd.dsn = w.snd.dsn := hi.numbers.dsn
    rw [hi.consumed, hi.next, hn, hd, hi.numbers.contents]
    exact h.numbered

theorem AwaitsSynAck.setState (h : AwaitsSynAck w) {st : WcbState} (errno : Int)
    (hst : st = w.state ∨ st = .closed ∨ st = .recycle) : AwaitsSynAck { w with state := st, wcbErrno := errno } := by
  refine ⟨h.numbered, h.less, h.more, h.consumed, ?_⟩
  rcases hst with rfl | hst
  · exact h.state
  · exact .inr hst

theorem AwaitsAck.setState (h : AwaitsAck w) {st : WcbState} (errno : Int)
    (hst : st = w.state ∨ st = .closed ∨ st = .recycle) : AwaitsAck { w with state := st, wcbErrno := errno } := by
  refine ⟨h.less, h.more, h.sb, ?_, h.numbered⟩
  rcases hst with rfl | hst
  · exact h.state
  · exact .inr hst

/-- The client's SYN at the server: the SYN|ACK takes the number 0, and the state stays. -/
theorem AwaitsAck.deliverLoop {l : List WcbReceivedPack} (h : AwaitsAck w) (hst : w.state = .synReceived ∨ w.rcv.next = 1)
    (hl : ∀ p ∈ l, p.content = synContent) (hd : deliverLoop now l w = .ok w') : AwaitsAck w' := by
  have hseq : ∀ p ∈ l, p.seq = 0 := fun p hp => congrArg (fun c => c.1) (hl p hp)
  cases l with
  | nil => cases hd; exact h
  | cons p rest =>
    unfold Wawo.deliverLoop at hd
    obtain ⟨⟨w₁, x⟩, ho, hd⟩ := bind_eq_ok.1 hd
    have hp : p.data = [] := congrArg (fun c => c.2.2) (hl p (by simp))
    have hflag : p.header.flag = .syn := congrArg (fun c => c.2.1) (hl p (by simp))
    have hp0 : p.seq = 0 := hseq p (by simp)
    have hone : w.rcv.hist.consumed = [] ∧ w.rcv.next = 0 ∧ w.snd.hist.numbered = [] ∧ w.snd.dsn = 0 := by
      rcases h.numbered with hn | ⟨-, hn, -⟩
      · exact hn
      · unfold deliverOne at ho
        rw [if_pos (by rw [hp0, hn]; exact Nat.one_pos)] at ho
        cases ho
    obtain ⟨-, hnext, hnum, hdsn⟩ := hone
    have hrecv : w.state = .synReceived := by
      rcases hst with hst | hst
      · exact hst
      · rw [hnext] at hst; cases hst
    have htest : ∀ f : WcpFlag, p.testFlag f = (WcpFlag.syn &&& f != 0) := by
      intro f
      rw [Datagram.testFlag, WcpHeader.testFlag, hflag]
    have hw₁ : w₁ = { w with
        snd := w.snd.SYNSYNACK, rcv := { w.rcv.advance p with received := rest } } ∧ x = .more := by
      unfold deliverOne at ho
      rw [if_neg (by rw [hp0, hnext]; exact Nat.lt_irrefl 0), if_neg (by rw [hp0, hnext]; simp),
        deliverData_of_nil hp] at ho
      have hrst : p.testFlag .rst = false := htest .rst
      have hsyn : p.testFlag .syn = true := htest .syn
      have hack : p.testFlag .ack = false := htest .ack
      have hfin : p.testFlag .fin = false := htest .fin
      have hds : deliverSyn { w with rcv := w.rcv.advance p } p rest =
          ({ w with rcv := w.rcv.advance p, snd := w.snd.SYNSYNACK }, .more) := by
        unfold deliverSyn
        rw [if_pos hsyn]
        dsimp only
        rw [hrecv]
      have ho : deliverFlags now { w with rcv := w.rcv.advance p } p rest = .ok (w₁, x) := ho
      rcases deliverFlags_cases ho with ⟨hr, -, -⟩ | ⟨-, -, hs⟩ | ⟨-, hx, v₁, v₂, hs, ha, he⟩
      · rw [hrst] at hr; cases hr
      · rw [hds] at hs; cases hs
      · rw [hds] at hs
        cases hs
        unfold deliverAck at ha
        rw [if_neg (by rw [hack]; simp)] at ha
        cases ha
        unfold deliverFin at he
        rw [if_neg (by rw [hfin]; simp)] at he
        exact ⟨he, hx⟩
    obtain ⟨rfl, rfl⟩ := hw₁
    have hnext₁ : u32 (w.rcv.next + 1) = 1 := by rw [hnext]; rfl
    -- a second pack would carry the number just taken
    have hrest : rest = [] := by
      cases rest with
      | nil => rfl
      | cons q rest =>
        dsimp only at hd
        unfold Wawo.deliverLoop deliverOne at hd
        rw [if_pos (by rw [hseq q (by simp)]; show 0 < u32 (w.rcv.next + 1); rw [hnext₁]; exact Nat.one_pos)] at hd
        cases hd
    rw [hrest] at hd
    cases hd
    refine ⟨h.less, h.more, h.sb, h.state, .inr ⟨?_, hnext₁, ?_⟩⟩
    · show w.rcv.hist.consumed ++ [p] ≠ []
      simp
    · show (w.snd.hist.numbered ++ [_]).map _ = _
      rw [hnum]
      show [(w.snd.dsn, _)] = _
      rw [hdsn]
      rfl

theorem AwaitsAck.checkRecv (h : AwaitsAck w) (hst : w.state = .synReceived ∨ w.rcv.next = 1)
    (hall : w.rcv.receiver.All P) (hP : ∀ p, P p → p.inSeqSpace = true → p.content = synContent)
    (hr : checkRecv now w = .ok w') : AwaitsAck w' := by
  obtain ⟨w₁, rfl, hw₁⟩ := checkRecv_cases hr
  have hone : AwaitsAck w₁ := by
    rcases hw₁ with ⟨-, rfl⟩ | ⟨-, w₂, ht, hl⟩
    · exact h.idle ((takeArrived_idle w).trans (checkKeepalive_idle now _))
    · have hi := (takeArrived_idle w).trans (takeBatch_idle ht)
      have hheld := takeBatch_held hall ht
      refine (h.idle hi).deliverLoop ?_ (fun p hp => hP p (hheld p hp).1 (hheld p hp).2) hl
      rw [hi.next]
      refine hst.imp_left fun hst => ?_
      obtain ⟨s, r, he⟩ := takeBatch_frame ht
      rw [he]
      exact hst
  exact hone.idle (swapRb_idle hone.less)

theorem AwaitsAck.checkAll (h : AwaitsAck w) (hst : w.state = .synReceived)
    (hall : w.rcv.receiver.All P) (hP : ∀ p, P p → p.inSeqSpace = true → p.content = synContent)
    (hs : checkAll now w = .ok w') : AwaitsAck w' := by
  unfold Wawo.checkAll at hs
  obtain ⟨w₁, h₁, hs⟩ := bind_eq_ok.1 hs
  obtain ⟨w₂, h₂, h₃⟩ := bind_eq_ok.1 hs
  have ha₂ := (h.checkRecv (.inl hst) hall hP h₁).idle (checkFlights_idle h₂)
  exact ha₂.idle (checkSend_idle ha₂.sb ha₂.more h₃)

/-! ### Steps of one end -/

/-- A check of a tick may run: `update` runs none in `WCB_CLOSED` and `WCB_RECYCLE`, but the tick in which
`check_recv` closes the connection goes on. -/
def tickRuns (w : Wcb) : Bool :=
  (w.state ≠ .closed ∧ w.state ≠ .recycle) ∨ w.rcv.hist.consumed ≠ []

/-- The events of a handshake: `send` at the client, and ticks at both ends, whole or in parts. -/
def opensAt (x : Side) (w : Wcb) : Event → Bool
  | .send _ => x = .client
  | .update _ => true
  | .checkRecv _ | .checkFlights _ | .checkSend _ => tickRuns w
  | .recv _ | .shutdown _ | .close | .setfl _ | .arrive _ => false

/-- `send` is not called in `WCB_SYNING` and `WCB_SYN_SENT`. -/
def sendsLate (w : Wcb) : Event → Bool
  | .send _ => w.state ≠ .syning ∧ w.state ≠ .synSent
  | _ => true

variable {e : Event}

theorem AwaitsSynAck.sb (h : AwaitsSynAck w) (hst : w.state ≠ .closed) (hst' : w.state ≠ .recycle) :
    w.snd.sb.items = [] := by
  rcases h.state with ⟨-, hsb⟩ | hs | hs
  · exact hsb
  · exact absurd hs hst
  · exact absurd hs hst'

theorem AwaitsSynAck.step (h : AwaitsSynAck w) (ho : opensAt .client w e = true) (hl : sendsLate w e = true)
    (hall : w.rcv.receiver.All P) (hP : ∀ p, P p → p.inSeqSpace = true → p.data = [])
    (hs : step e w = .ok w') (hc : w'.rcv.hist.consumed = []) : AwaitsSynAck w' := by
  have hc : w'.rcv.hist.consumed = w.rcv.hist.consumed := hc.trans h.consumed.symm
  have hopen : tickRuns w = true → w.snd.sb.items = [] := by
    intro hr
    unfold tickRuns at hr
    rw [h.consumed] at hr
    obtain ⟨h1, h2⟩ : w.state ≠ .closed ∧ w.state ≠ .recycle := by simpa using hr
    exact h.sb h1 h2
  have hprep : ∀ t, AwaitsSynAck (w.prepare t) := fun t => h.idle (prepare_idle t w)
  cases e with
  | send buffer =>
    obtain ⟨hl1, hl2⟩ : w.state ≠ .syning ∧ w.state ≠ .synSent := by simpa [sendsLate] using hl
    have hst : w.state = .closed ∨ w.state = .recycle := by
      rcases h.state with ⟨hs | hs, -⟩ | hs
      · exact absurd hs hl1
      · exact absurd hs hl2
      · exact hs
    obtain ⟨⟨rt, w₁⟩, hsend, he⟩ := map_eq_ok.1 hs
    cases he
    unfold Wawo.send at hsend
    dsimp only at hsend
    split_ifs at hsend <;> cases hsend <;> exact ⟨h.numbered, h.less, h.more, h.consumed, .inr hst⟩
  | update t =>
    have hs : update t.now (w.prepare t) = .ok w' := hs
    rcases update_eq t.now (w.prepare t) with ⟨st, errno, hst, he⟩ | ⟨hlive, k, hk, he⟩ | ⟨hst, he⟩ <;> rw [he] at hs
    · cases hs
      exact (hprep t).setState errno (hst.imp_right (·.imp_right (·.1)))
    · obtain ⟨w₁, h₁, rfl⟩ := map_eq_ok.1 hs
      have hsb : w.snd.sb.items = [] := by
        refine h.sb ?_ ?_ <;> intro hst <;> rw [show (w.prepare t).state = _ from hst] at hlive <;> cases hlive
      have hi := checkAll_idle (w := w.prepare t) hall hP h.less h.more hsb h₁ hc
      exact ((hprep t).idle hi).setState w₁.wcbErrno ((hk w₁).imp_right .inl)
    · obtain ⟨w₁, h₁, h₂⟩ := bind_eq_ok.1 hs
      have hsb : w.snd.sb.items = [] := by
        refine h.sb ?_ ?_ <;> intro hst' <;> rw [show (w.prepare t).state = _ from hst'] at hst <;> cases hst
      have hi : Idle (w.prepare t) w₁ := checkFlights_idle h₁
      have hi₂ := checkSend_idle (hi.numbers.sb.trans hsb) (hi.more.trans h.more) h₂
      exact (hprep t).idle (hi.trans hi₂)
  | checkRecv t => exact (hprep t).idle (checkRecv_idle (w := w.prepare t) hall hP h.less hs hc)
  | checkFlights t => exact (hprep t).idle (checkFlights_idle (w := w.prepare t) hs)
  | checkSend t =>
    exact (hprep t).idle (checkSend_idle (w := w.prepare t) (hopen ho) h.more hs)
  | _ => cases ho

theorem AwaitsAck.step (h : AwaitsAck w) (ho : opensAt .server w e = true)
    (hall : w.rcv.receiver.All P) (hP : ∀ p, P p → p.inSeqSpace = true → p.content = synContent)
    (hs : step e w = .ok w') : AwaitsAck w' := by
  have hopen : tickRuns w = true → w.state = .synReceived ∨ w.rcv.next = 1 := by
    intro hr
    rcases h.numbered with ⟨hc, -⟩ | ⟨-, hn, -⟩
    · unfold tickRuns at hr
      rw [hc] at hr
      obtain ⟨h1, h2⟩ : w.state ≠ .closed ∧ w.state ≠ .recycle := by simpa using hr
      rcases h.state with hs | hs | hs
      · exact .inl hs
      · exact absurd hs h1
      · exact absurd hs h2
    · exact .inr hn
  have hprep : ∀ t, AwaitsAck (w.prepare t) := fun t => h.idle (prepare_idle t w)
  cases e with
  | send buffer => cases ho
  | update t =>
    have hs : update t.now (w.prepare t) = .ok w' := hs
    rcases update_eq t.now (w.prepare t) with ⟨st, errno, hst, he⟩ | ⟨hlive, k, hk, he⟩ | ⟨hst, -⟩
    · rw [he] at hs
      cases hs
      exact (hprep t).setState errno (hst.imp_right (·.imp_right (·.1)))
    · rw [he] at hs
      obtain ⟨w₁, h₁, rfl⟩ := map_eq_ok.1 hs
      have hst : w.state = .synReceived := by
        rcases h.state with hs | hs | hs
        · exact hs
        · rw [show (w.prepare t).state = _ from hs] at hlive; cases hlive
        · rw [show (w.prepare t).state = _ from hs] at hlive; cases hlive
      exact ((hprep t).checkAll hst hall hP h₁).setState w₁.wcbErrno ((hk w₁).imp_right .inl)
    · rcases h.state with hs | hs | hs <;> rw [show (w.prepare t).state = _ from hs] at hst <;> cases hst
  | checkRecv t =>
    exact (hprep t).checkRecv (hopen ho) hall hP hs
  | checkFlights t => exact (hprep t).idle (checkFlights_idle (w := w.prepare t) hs)
  | checkSend t => exact (hprep t).idle (checkSend_idle (w := w.prepare t) h.sb h.more hs)
  | _ => cases ho

/-- Without payload among the packs held, `update_rwnd` is not due in any tick. -/
theorem wndClear_of_rwnd (hall : w.rcv.receiver.All P) (hP : ∀ p, P p → p.inSeqSpace = true → p.data = [])
    (hless : w.rcv.rwndLessThanMtu = false) (hmore : w.rcv.rwndMoreThanMtu = false) : WndClear w e := by
  have hclear : ∀ (now : Nat) (v : Wcb), v.rcv.rwndMoreThanMtu = false → ¬ BareWndDue now v := by
    rintro now v hv ⟨-, hdue, -⟩
    rw [rwndUpdateDue, hv] at hdue
    simp at hdue
  cases e with
  | checkSend t => exact hclear t.now (w.prepare t) hmore
  | update t =>
    intro w₁ w₂ h₁ h₂
    refine hclear t.now w₂ ?_
    rw [checkFlights_rcv h₂]
    rcases h₁ with ⟨-, rfl⟩ | h₁
    · exact hmore
    · exact (checkRecv_rwnd (w := w.prepare t) hall hP hless h₁).2.trans hmore
  | _ => trivial

theorem step_consumed (h : step e w = .ok w') : ∀ q ∈ w.rcv.hist.consumed, q ∈ w'.rcv.hist.consumed := by
  intro q hq
  refine Simulates.star_inv (I := fun r : Receiver => q ∈ r.consumed) (fun r r' hr hs => ?_) hq
    (step_receiver (P := fun _ => True) (fun _ _ => trivial) (fun _ _ => trivial) h)
  obtain ⟨l, hl⟩ := hs.consumed_append
  rw [hl]
  exact List.mem_append_left _ hr

theorem step_contents (h : step e w = .ok w') : ∀ c ∈ w.snd.sender.contents, c ∈ w'.snd.sender.contents :=
  Sender.contents_subset_star (fun _ _ ⟨m, _, _, hs⟩ => ⟨m, hs⟩) (step_stamped (b := true) (.inl rfl) h)

end

/-! ### Both ends -/

section

variable {addr : Side → Address} {s s' s₀ : Pair} {pe : PairEvent} {es : List PairEvent}

/-- Neither end has got further than the SYN|ACK of the server. -/
structure Opening (s : Pair) : Prop where
  client : AwaitsSynAck (s .client)
  server : AwaitsAck (s .server)
  feeds : ∀ x, Feeds (fun d => d.inSeqSpace = false) x s

/-- The client has processed the SYN|ACK of the server. -/
def SynAckTaken (s : Pair) : Prop :=
  ∃ q ∈ (s .client).rcv.hist.consumed, q.header.flag = .syn ||| .ack ∧ q.content ∈ (s .server).snd.sender.contents

def handshakeEvent (s : Pair) : PairEvent → Bool
  | .on x e => opensAt x (s x) e
  | .deliver _ _ | .accept _ => true

def clientSendsLate (s : Pair) : PairEvent → Bool
  | .on .client e => sendsLate (s .client) e
  | _ => true

/-- What reaches the server is the SYN of the client. -/
theorem Opening.toServer (h : Opening s) {p : WcbReceivedPack} (hp : Known (fun d => d.inSeqSpace = false) (s .client).snd p)
    (hs : p.inSeqSpace = true) : p.content = synContent := by
  rcases hp with hp | hp
  · rw [h.client.numbered] at hp
    exact List.mem_singleton.1 hp
  · rw [hs] at hp; cases hp

/-- What reaches the client is the SYN|ACK of the server. -/
theorem Opening.toClient (h : Opening s) {p : WcbReceivedPack} (hp : Known (fun d => d.inSeqSpace = false) (s .server).snd p)
    (hs : p.inSeqSpace = true) : p.content = synAckContent := by
  rcases hp with hp | hp
  · rcases h.server.numbered with ⟨-, -, hn, -⟩ | ⟨-, -, hn⟩
    · have hnil : (s .server).snd.sender.contents = [] := by
        rw [Sender.contents, show (s .server).snd.sender.hist.numbered = [] from hn]; rfl
      rw [hnil] at hp
      cases hp
    · rw [hn] at hp
      exact List.mem_singleton.1 hp
  · rw [hs] at hp; cases hp

theorem Opening.wndClear (h : Opening s) (x : Side) (e : Event) : WndClear (s x) e := by
  cases x with
  | client =>
    exact wndClear_of_rwnd (h.feeds .server).taken
      (fun p hp hs => congrArg (fun c => c.2.2) (h.toClient hp hs)) h.client.less h.client.more
  | server =>
    exact wndClear_of_rwnd (h.feeds .client).taken
      (fun p hp hs => congrArg (fun c => c.2.2) (h.toServer hp hs)) h.server.less h.server.more

/-- Whatever happens next, the first pack that the client takes is the SYN|ACK of the server. -/
theorem Opening.step (h : Opening s) (ho : handshakeEvent s pe = true) (hl : clientSendsLate s pe = true)
    (hs : pairStep addr pe s = .ok s') : Opening s' ∨ SynAckTaken s' := by
  have hfeeds : ∀ x, Feeds (fun d => d.inSeqSpace = false) x s' := fun x =>
    (h.feeds x).step (b := false) (fun m hm => Sender.ctlClass_not_inSeqSpace hm) (.inr fun e _ => h.wndClear x e) hs
  rcases pairStep_cases hs with rfl | ⟨y, e, w, rfl, -, hw, rfl⟩ | ⟨y, d, -, rfl⟩ | ⟨d, -, -, -, rfl⟩
  · exact .inl h
  · cases y with
    | client =>
      by_cases hc : w.rcv.hist.consumed = []
      · refine .inl ⟨?_, ?_, hfeeds⟩
        · rw [Function.update_self]
          exact h.client.step ho hl (h.feeds .server).taken
            (fun p hp hs => congrArg (fun c => c.2.2) (h.toClient hp hs)) hw hc
        · rw [Function.update_of_ne (by decide)]; exact h.server
      · obtain ⟨q, hq⟩ := List.exists_mem_of_ne_nil _ hc
        have hq : q ∈ (Function.update s .client w .client).rcv.hist.consumed := by rw [Function.update_self]; exact hq
        obtain ⟨hknown, hseq⟩ := (hfeeds .server).taken.consumed q hq
        have hsame : Function.update s .client w .server = s .server := Function.update_of_ne (by decide) _ _
        rw [hsame] at hknown
        have hcontent := h.toClient hknown hseq
        refine .inr ⟨q, hq, congrArg (fun c => c.2.1) hcontent, ?_⟩
        rw [hsame]
        exact hknown.resolve_right fun hK => Bool.false_ne_true (hK.symm.trans hseq)
    | server =>
      refine .inl ⟨?_, ?_, hfeeds⟩
      · rw [Function.update_of_ne (by decide)]; exact h.client
      · rw [Function.update_self]
        exact h.server.step ho (h.feeds .client).taken (fun p hp hs => h.toServer hp hs) hw
  · refine .inl ⟨?_, ?_, hfeeds⟩ <;> cases y
    · rw [Function.update_self]
      exact ⟨h.client.numbered, h.client.less, h.client.more, h.client.consumed, h.client.state⟩
    · rw [Function.update_of_ne (by decide)]; exact h.client
    · rw [Function.update_of_ne (by decide)]; exact h.server
    · rw [Function.update_self]
      exact ⟨h.server.less, h.server.more, h.server.sb, h.server.state, h.server.numbered⟩
  · refine .inl ⟨?_, ?_, hfeeds⟩
    · rw [Function.update_of_ne (by decide)]; exact h.client
    · rw [Function.update_self]
      exact ⟨h.server.less, h.server.more, h.server.sb, .inl rfl, h.server.numbered⟩

theorem SynAckTaken.step (h : SynAckTaken s) (hs : pairStep addr pe s = .ok s') : SynAckTaken s' := by
  obtain ⟨q, hq, hflag, hc⟩ := h
  rcases pairStep_cases hs with rfl | ⟨y, e, w, -, -, hw, rfl⟩ | ⟨y, d, -, rfl⟩ | ⟨d, -, -, -, rfl⟩
  · exact ⟨q, hq, hflag, hc⟩
  · refine ⟨q, ?_, hflag, ?_⟩ <;> cases y
    · rw [Function.update_self]; exact step_consumed hw q hq
    · rw [Function.update_of_ne (by decide)]; exact hq
    · rw [Function.update_of_ne (by decide)]; exact hc
    · rw [Function.update_self]; exact step_contents hw _ hc
  · refine ⟨q, ?_, hflag, ?_⟩ <;> cases y
    · rw [Function.update_self]; exact hq
    · rw [Function.update_of_ne (by decide)]; exact hq
    · rw [Function.update_of_ne (by decide)]; exact hc
    · rw [Function.update_self]; exact hc
  · refine ⟨q, ?_, hflag, ?_⟩
    · rw [Function.update_of_ne (by decide)]; exact hq
    · rw [Function.update_self]; exact hc

theorem PairStart.opening (h : PairStart addr s) : Opening s := by
  refine ⟨?_, ?_, fun x => h.feeds x⟩
  · obtain ⟨u, now, rcvCap, sndCap, hc⟩ := h.client
    unfold connect at hc
    split_ifs at hc
    rw [show s .client = _ from (Except.ok.inj hc).symm]
    exact ⟨rfl, rfl, rfl, rfl, .inl ⟨.inl rfl, rfl⟩⟩
  · obtain ⟨u, now, rcvCap, sndCap, hs⟩ := h.server
    rw [hs]
    exact ⟨rfl, rfl, rfl, .inr (.inl rfl), .inl ⟨rfl, rfl, rfl, rfl⟩⟩

/-- In every run in which the client calls `send` only behind the handshake: a server in
`WCB_ESTABLISHED` means that the client has processed its SYN|ACK. -/
theorem handshakeAgreement (h₀ : PairStart addr s₀)
    (h : Run (pairStep addr) (fun s pe => handshakeEvent s pe = true ∧ clientSendsLate s pe = true) s₀ es s)
    (hs : (s .server).state = .established) : SynAckTaken s := by
  have hphase : Opening s ∨ SynAckTaken s := by
    refine h.inv (fun s => Opening s ∨ SynAckTaken s) (fun s pe s' hi hC hstep => ?_) (.inl h₀.opening)
    rcases hi with hi | hi
    · exact hi.step hC.1 hC.2 hstep
    · exact .inr (hi.step hstep)
  rcases hphase with hi | hi
  · rcases hi.server.state with h' | h' | h' <;> rw [hs] at h' <;> cases h'
  · exact hi

theorem handshakeAgreement_opening : ∃ s, Run (pairStep addrs) (fun _ _ => True) Pair.opening pairHandshake s ∧
    (s .server).state = .established ∧ SynAckTaken s := by
  obtain ⟨s, hpass, hs⟩ := Run.of_passes (f := pairStep addrs) (P := fun s pe => handshakeEvent s pe && clientSendsLate s pe)
    (Q := fun s => decide ((s .server).state = .established)) pairHandshake (s := Pair.opening) (by decide +kernel)
  have hrun := hpass.mono fun _ _ _ => trivial
  have hs := of_decide_eq_true hs
  have hcond := hpass.mono fun s pe h => Bool.and_eq_true_iff.1 h
  exact ⟨s, hrun, hs, handshakeAgreement pairStart_opening hcond hs⟩

/-- The client sends a byte right after `connect`; the server takes it for the end of the handshake. -/
def pairEarlySend : List PairEvent :=
  [.on .client (.send [7]), .on .client (.update (.at 1)), .accept 0, .on .server (.update (.at 2)), .deliver .server 1,
    .on .server (.update (.at 3))]

theorem established_before_synAck :
    ∃ s, Run (pairStep addrs) (fun s pe => handshakeEvent s pe = true) Pair.opening pairEarlySend s ∧
      (s .server).state = .established ∧ ¬ SynAckTaken s := by
  obtain ⟨s, hrun, hs⟩ := Run.of_reaches (f := pairStep addrs) pairEarlySend Pair.opening
    (P := fun s => decide ((s .server).state = .established ∧ (s .client).rcv.hist.consumed = [])) (by decide +kernel)
  obtain ⟨hest, hnil⟩ := of_decide_eq_true hs
  refine ⟨s, hrun.of_meets (by decide +kernel), hest, ?_⟩
  rintro ⟨q, hq, -⟩
  rw [hnil] at hq
  cases hq

end
end Wawo
