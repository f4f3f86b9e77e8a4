import Wawo.Wcp.States
import Wawo.Wcp.System

/-!
# The tables of control blocks

`TableStep` says once what an event can do to the tables, and `sysStep_cases` that every event does one of
these things, up to changes inside the control blocks (`KeepsObjs`). The invariants of whole runs are then
case analyses over `TableStep`; `Tables` is the one for the maps themselves.
-/

namespace Wawo

open Lts

/-! ### What happens inside a control block -/

section

variable {w w' : Wcb}

/-- Nothing will change a control block any more. -/
structure Wcb.Spent (w : Wcb) : Prop where
  state : w.state = .recycle
  closed : w.closedCalled = true

/-- `WCB_RECYCLE` is for good, and it needs a call of `close`. -/
structure Wcb.Keeps (w w' : Wcb) : Prop where
  spent : w.Spent → w'.Spent
  recycle : (w.state = .recycle → w.closedCalled = true) → w'.state = .recycle → w'.closedCalled = true

theorem Wcb.Keeps.of_eq (hs : w'.state = w.state) (hc : w'.closedCalled = w.closedCalled) : w.Keeps w' where
  spent h := ⟨hs.trans h.state, hc.trans h.closed⟩
  recycle h hr := hc.trans (h (hs.symm.trans hr))

theorem Wcb.Keeps.of_ne (hs : w.state ≠ .recycle) (hs' : w'.state ≠ .recycle) : w.Keeps w' where
  spent h := absurd h.state hs
  recycle _ h := absurd h hs'

theorem send_keeps {buffer : List Byte} {rt : Int} (h : send buffer w = .ok (rt, w')) : w.Keeps w' := by
  unfold send at h
  dsimp only at h
  split_ifs at h <;> cases h <;> exact .of_eq rfl rfl

theorem recv_keeps {size : Nat} {rt : RecvResult} (h : recv size w = .ok (rt, w')) : w.Keeps w' := by
  unfold recv at h
  split_ifs at h <;> cases h <;> exact .of_eq rfl rfl

theorem shutdown_keeps (how : Shut) (w : Wcb) : w.Keeps (shutdown how w).2 := by
  unfold shutdown
  cases how <;> exact .of_eq rfl rfl

theorem close_keeps {rt : Int} (h : close w = .ok (rt, w')) : w.Keeps w' := by
  cases hc : w.closedCalled with
  | true =>
    unfold close at h
    rw [if_pos hc] at h
    cases h
    exact .of_eq rfl rfl
  | false =>
    rw [close_eq hc] at h
    cases h
    exact ⟨fun hs => absurd hs.closed (by rw [hc]; decide), fun _ h => nomatch h⟩

theorem update_keeps {t : Tick} (h : step (.update t) w = .ok w') : w.Keeps w' := by
  have h : update t.now (w.prepare t) = .ok w' := h
  constructor
  · intro hs
    have hst : (w.prepare t).state = .recycle := hs.state
    unfold update at h
    rw [hst] at h
    cases h
    exact ⟨hs.state, hs.closed⟩
  · intro hr hst
    rcases update_recycle h hst with ⟨hw, rfl⟩ | ⟨-, hc⟩
    · exact hr hw
    · exact hc

theorem connect_keeps {addr : Address} {now : Nat} (h : connect addr now w = .ok w') : w.Keeps w' := by
  unfold connect at h
  split_ifs at h with h1 h2
  cases h
  refine .of_ne ?_ nofun
  rw [not_not.1 h2]
  exact nofun

end

namespace Wcp

variable {s s' t u : Wcp} {id lid fd : Nat}

@[simp] theorem setObj_self (s : Wcp) (id : Nat) (o : WcbObj) : (s.setObj id o).obj id = o := Function.update_self ..

theorem setObj_of_ne {i : Nat} (s : Wcp) (o : WcbObj) (h : i ≠ id) : (s.setObj id o).obj i = s.obj i :=
  Function.update_of_ne h ..

/-- What holds of the new control block and of the others as they were holds of all. -/
theorem forall_setObj {o : WcbObj} {P : Nat → WcbObj → Prop} (hid : P id o) (hi : ∀ i, i ≠ id → P i (s.obj i)) (i : Nat) :
    P i ((s.setObj id o).obj i) :=
  (Function.forall_update_iff s.obj P).2 ⟨hid, hi⟩ i

/-- The connections that wait at a listener. -/
def backlog (s : Wcp) (lid : Nat) : List Nat := (s.obj lid).backlogq ++ (s.obj lid).backloglistPending

/-- `t` differs from `s` inside the control blocks only. -/
structure KeepsObjs (s t : Wcp) : Prop where
  tables : t = { s with obj := t.obj }
  fd : ∀ id, (t.obj id).fd = (s.obj id).fd
  birth : ∀ id, (t.obj id).birth = (s.obj id).birth
  origin : ∀ id, (t.obj id).origin = (s.obj id).origin
  hash : ∀ id, (t.obj id).fourTupleHashId = (s.obj id).fourTupleHashId
  passive : ∀ id, (t.obj id).passiveOpen = (s.obj id).passiveOpen
  backlog : ∀ lid, ∀ id ∈ t.backlog lid, id ∈ s.backlog lid
  localAddr : ∀ id, id ∉ s.createPendingMap.vals → (t.obj id).localAddr = (s.obj id).localAddr
  conn : ∀ id, (s.obj id).conn.Keeps (t.obj id).conn

theorem KeepsObjs.refl (s : Wcp) : KeepsObjs s s :=
  ⟨rfl, fun _ => rfl, fun _ => rfl, fun _ => rfl, fun _ => rfl, fun _ => rfl, fun _ _ h => h, fun _ _ => rfl,
    fun _ => .of_eq rfl rfl⟩

/-- A change of one control block that leaves what the tables rely on. -/
theorem KeepsObjs.setObj {o : WcbObj} (hfd : o.fd = (s.obj id).fd) (hb : o.birth = (s.obj id).birth)
    (ho : o.origin = (s.obj id).origin) (hh : o.fourTupleHashId = (s.obj id).fourTupleHashId)
    (hp : o.passiveOpen = (s.obj id).passiveOpen)
    (hq : ∀ i ∈ o.backlogq ++ o.backloglistPending, i ∈ s.backlog id)
    (ha : id ∈ s.createPendingMap.vals ∨ o.localAddr = (s.obj id).localAddr)
    (hc : (s.obj id).conn.Keeps o.conn) : KeepsObjs s (s.setObj id o) := by
  refine ⟨rfl, ?_, ?_, ?_, ?_, ?_, ?_, ?_, ?_⟩
  · exact forall_setObj (P := fun i x => x.fd = (s.obj i).fd) hfd fun _ _ => rfl
  · exact forall_setObj (P := fun i x => x.birth = (s.obj i).birth) hb fun _ _ => rfl
  · exact forall_setObj (P := fun i x => x.origin = (s.obj i).origin) ho fun _ _ => rfl
  · exact forall_setObj (P := fun i x => x.fourTupleHashId = (s.obj i).fourTupleHashId) hh fun _ _ => rfl
  · exact forall_setObj (P := fun i x => x.passiveOpen = (s.obj i).passiveOpen) hp fun _ _ => rfl
  · exact forall_setObj (P := fun i x => ∀ j ∈ x.backlogq ++ x.backloglistPending, j ∈ s.backlog i) hq fun _ _ _ h => h
  · refine forall_setObj (P := fun i x => i ∉ s.createPendingMap.vals → x.localAddr = (s.obj i).localAddr) ?_
      fun _ _ _ => rfl
    exact fun hn => ha.resolve_left hn
  · exact forall_setObj (P := fun i x => (s.obj i).conn.Keeps x.conn) hc fun _ _ => .of_eq rfl rfl

theorem KeepsObjs.setConn {w : Wcb} (hc : (s.obj id).conn.Keeps w) : KeepsObjs s (s.setConn id w) :=
  .setObj rfl rfl rfl rfl rfl (fun _ h => h) (.inr rfl) hc

theorem KeepsObjs.replyRst (s : Wcp) (lid : Nat) (p : WcbReceivedPack) : KeepsObjs s (s.replyRst lid p) :=
  .setObj rfl rfl rfl rfl rfl (fun _ h => h) (.inr rfl) (.of_eq rfl rfl)

theorem KeepsObjs.trans (h : KeepsObjs s t) (h' : KeepsObjs t u) : KeepsObjs s u where
  tables := by rw [h'.tables, h.tables]
  fd id := (h'.fd id).trans (h.fd id)
  birth id := (h'.birth id).trans (h.birth id)
  origin id := (h'.origin id).trans (h.origin id)
  hash id := (h'.hash id).trans (h.hash id)
  passive id := (h'.passive id).trans (h.passive id)
  backlog lid id hid := h.backlog lid id (h'.backlog lid id hid)
  localAddr id hid := by
    have ht : t.createPendingMap = s.createPendingMap := by rw [h.tables]
    exact (h'.localAddr id (by rw [ht]; exact hid)).trans (h.localAddr id hid)
  conn id := ⟨fun hs => (h'.conn id).spent ((h.conn id).spent hs),
    fun hs => (h'.conn id).recycle ((h.conn id).recycle hs)⟩

/-! ### What happens to the tables -/

/-- A new control block, made for the descriptor that is next. -/
structure Fresh (s : Wcp) (o : WcbObj) : Prop where
  fd : o.fd = s.nextFd
  birth : o.birth = s.issued
  backlogq : o.backlogq = []
  pending : o.backloglistPending = []
  conn : o.conn.state ≠ .recycle

inductive TableStep (s : Wcp) : Wcp → Prop
  | keep : TableStep s s
  | refuse : TableStep s s.issue -- a descriptor is issued, but the control block is dropped again
  | create (o : WcbObj) (ho : Fresh s o) (hp : o.passiveOpen = false) (hg : o.origin = none)
      (hf : s.createPendingMap.find? o.fd = none) :
      TableStep s { s.issue.alloc o with createPendingMap := s.createPendingMap.insert o.fd s.allocated }
  | activate (fd id : Nat) (hf : s.createPendingMap.find? fd = some id) :
      TableStep s { s with createPendingMap := s.createPendingMap.erase fd, wcbMap := s.wcbMap.insert fd id }
  | drop (fd id : Nat) (hf : s.createPendingMap.find? fd = some id) :
      TableStep s { s with createPendingMap := s.createPendingMap.erase fd }
  | passive (lid : Nat) (a : Address) (o : WcbObj) (hl : lid ∈ s.wcbMap.vals) (ho : Fresh s o) (hp : o.passiveOpen = true)
      (hg : o.origin = some (lid, a)) (hh : o.fourTupleHashId = fourTupleHash (s.obj lid).localAddr a)
      (hz : o.fourTupleHashId ≠ 0) (hf : s.fourTupleMap.find? o.fourTupleHashId = none) :
      TableStep s
        { (s.issue.alloc o).setObj lid { (s.issue.alloc o).obj lid with
            backloglistPending := ((s.issue.alloc o).obj lid).backloglistPending ++ [s.allocated] } with
          fourTupleMap := s.fourTupleMap.insert o.fourTupleHashId s.allocated, ops := s.ops ++ [s.allocated] }
  | execute (id : Nat) (rest : List Nat) (ho : s.ops = id :: rest) :
      TableStep s { s with ops := rest, wcbMap := s.wcbMap.insert (s.obj id).fd id }
  | recycle (id : Nat) (hid : id ∈ s.wcbMap.vals) (hst : (s.obj id).conn.state = .recycle) :
      TableStep s { s with
        fourTupleMap := if (s.obj id).passiveOpen then s.fourTupleMap.erase (s.obj id).fourTupleHashId else s.fourTupleMap
        wcbMap := s.wcbMap.erase (s.obj id).fd }

/-- Up to changes inside the control blocks, `s'` comes from `s` by a step of the tables. -/
def Moves (s s' : Wcp) : Prop := ∃ t, KeepsObjs s t ∧ TableStep t s'

theorem Moves.of_keeps (h : KeepsObjs s t) : Moves s t := ⟨t, h, .keep⟩

theorem Moves.refl (s : Wcp) : Moves s s := .of_keeps (.refl s)

theorem connect_moves {addr : Address} {now : Nat} {nbRt rt : Int} (h : s.connect fd addr now nbRt = .ok (rt, s')) :
    Moves s s' := by
  unfold connect at h
  cases hf : s.createPendingMap.find? fd with
  | none => rw [hf] at h; cases h; exact .refl s
  | some id =>
    rw [hf] at h
    dsimp only at h
    split_ifs at h
    · cases h; exact .refl s
    · cases hw : Wawo.connect addr now (s.obj id).conn with
      | error f => rw [hw] at h; cases h
      | ok w => rw [hw] at h; cases h; exact ⟨_, .setConn (connect_keeps hw), .activate fd id hf⟩

theorem bind_moves (fd : Nat) (addr : Address) (rt : Int) : Moves s (s.bind fd addr rt).2 := by
  unfold bind
  cases hf : s.createPendingMap.find? fd with
  | none => exact .refl s
  | some id =>
    have hid : id ∈ s.createPendingMap.vals := KeyMap.mem_vals_of_find? hf
    dsimp only
    split_ifs
    · exact .of_keeps (.setObj rfl rfl rfl rfl rfl (fun _ h => h) (.inl hid) (.of_eq rfl rfl))
    · exact .of_keeps (.setObj rfl rfl rfl rfl rfl (fun _ h => h) (.inl hid) (.of_eq rfl rfl))

theorem listen_moves {backlog : Nat} {nbRt udpRt rt : Int} (h : s.listen fd backlog nbRt udpRt = .ok (rt, s')) :
    Moves s s' := by
  unfold listen at h
  cases hf : s.createPendingMap.find? fd with
  | none => rw [hf] at h; cases h; exact .refl s
  | some id =>
    rw [hf] at h
    dsimp only at h
    split_ifs at h with h1 h2 h3
    · cases h; exact .refl s
    · cases h; exact .refl s
    · cases h
      have hst : (s.obj id).conn.state ≠ .recycle := by rw [not_not.1 h3]; exact nofun
      have hk : KeepsObjs s (s.setObj id { s.obj id with
          backlogSize := u32 backlog, conn := { (s.obj id).conn with state := .listen, isListener := true } }) :=
        .setObj rfl rfl rfl rfl rfl (fun _ h => h) (.inr rfl) (.of_ne hst (by exact nofun))
      exact ⟨_, hk, .activate fd id hf⟩

theorem accept_moves (s : Wcp) (fd : Nat) : Moves s (s.accept fd).2 := by
  unfold accept
  cases s.wcbMap.find? fd with
  | none => exact .refl s
  | some id =>
    dsimp only
    by_cases he : (s.obj id).conn.rcv.recvError = true ∨ (s.obj id).conn.rcv.localReadShutdowned = true
    · rw [if_pos he]; exact .refl s
    · rw [if_neg he]
      split
      · exact .refl s
      · rename_i a rest hq
        refine .of_keeps (.setObj rfl rfl rfl rfl rfl (fun i hi => ?_) (.inr rfl) (.of_eq rfl rfl))
        rw [Wcp.backlog, hq]
        exact List.mem_cons_of_mem _ hi

theorem close_moves {rt : Int} (h : s.close fd = .ok (rt, s')) : Moves s s' := by
  unfold close at h
  cases hm : s.wcbMap.find? fd with
  | some id =>
    rw [hm] at h
    dsimp only at h
    cases hc : Wawo.close (s.obj id).conn with
    | error f => rw [hc] at h; cases h
    | ok c => rw [hc] at h; cases h; exact .of_keeps (.setConn (close_keeps hc))
  | none =>
    rw [hm] at h
    cases hf : s.createPendingMap.find? fd with
    | none => rw [hf] at h; cases h; exact .refl s
    | some id =>
      rw [hf] at h
      dsimp only at h
      cases hc : Wawo.close (s.obj id).conn with
      | error f => rw [hc] at h; cases h
      | ok c => rw [hc] at h; cases h; exact ⟨_, .setConn (close_keeps hc), .drop fd id hf⟩

theorem call_moves {e : Event} (h : s.call fd e = .ok s') : Moves s s' := by
  unfold call at h
  cases hm : s.wcbMap.find? fd with
  | none => rw [hm] at h; cases h; exact .refl s
  | some id =>
    rw [hm] at h
    cases e with
    | send buffer =>
      dsimp only at h
      cases hw : step (.send buffer) (s.obj id).conn with
      | error f => rw [hw] at h; cases h
      | ok w =>
        obtain ⟨c, hc, rfl⟩ := map_eq_ok.1 hw
        rw [hw] at h
        cases h
        exact .of_keeps (.setConn (send_keeps hc))
    | recv size =>
      dsimp only at h
      cases hw : step (.recv size) (s.obj id).conn with
      | error f => rw [hw] at h; cases h
      | ok w =>
        obtain ⟨c, hc, rfl⟩ := map_eq_ok.1 hw
        rw [hw] at h
        cases h
        exact .of_keeps (.setConn (recv_keeps hc))
    | setfl b => cases h; exact .of_keeps (.setConn (.of_eq rfl rfl))
    | shutdown how =>
      dsimp only at h
      split_ifs at h
      · cases h; exact .refl s
      · cases h; exact .of_keeps (.setConn (shutdown_keeps how _))
    | _ => cases h; exact .refl s

/-- The SYN is taken: its connection is entered in the four-tuple table, at the listener and in `m_ops`. -/
def acceptSyn (s : Wcp) (lid : Nat) (r : AcceptRets) (p : WcbReceivedPack) : Wcp :=
  let t := s.issue.alloc (s.passiveObj lid r p)
  { t.setObj lid { t.obj lid with backloglistPending := (t.obj lid).backloglistPending ++ [s.allocated] } with
    fourTupleMap := s.fourTupleMap.insert (fourTupleHash (s.obj lid).localAddr p.fromAddr) s.allocated
    ops := s.ops ++ [s.allocated] }

/-- `backlogq.size() + backloglist_pending.size() == backlog_size` -/
def BacklogFull (s : Wcp) (lid : Nat) : Prop :=
  (s.obj lid).backlogq.length + (s.obj lid).backloglistPending.length = (s.obj lid).backlogSize

/-- The round gets as far as `make_wcb_fd`. -/
structure MakesWcb (s : Wcp) (lid : Nat) (r : AcceptRets) (p : WcbReceivedPack) : Prop where
  room : ¬ BacklogFull s lid
  rst : ¬ p.testFlag .rst = true
  syn : p.testFlag .syn = true
  rets : ¬ r.rets.any (· ≠ ok) = true

theorem MakesWcb.handleSyn_error {f : WcpFault} (hm : MakesWcb s lid r p)
    (h : s.addToFourTupleHashMap (fourTupleHash (s.obj lid).localAddr p.fromAddr) s.allocated = .error f) :
    s.handleSyn lid r p = .error f := by
  have hroom : ¬ (s.obj lid).backlogq.length + (s.obj lid).backloglistPending.length = (s.obj lid).backlogSize := hm.room
  unfold handleSyn
  rw [if_neg hroom, if_neg hm.rst, if_neg (not_not_intro hm.syn), if_neg hm.rets, h]

/-- The control block is dropped again. -/
theorem MakesWcb.handleSyn_refused {rt : Int} {m : KeyMap Nat} (hm : MakesWcb s lid r p)
    (h : s.addToFourTupleHashMap (fourTupleHash (s.obj lid).localAddr p.fromAddr) s.allocated = .ok (rt, m)) (hrt : rt < 0) :
    s.handleSyn lid r p = .ok (s.issue.replyRst lid p) := by
  have hroom : ¬ (s.obj lid).backlogq.length + (s.obj lid).backloglistPending.length = (s.obj lid).backlogSize := hm.room
  unfold handleSyn
  rw [if_neg hroom, if_neg hm.rst, if_neg (not_not_intro hm.syn), if_neg hm.rets, h]
  exact if_pos hrt

theorem MakesWcb.handleSyn_ok (hm : MakesWcb s lid r p)
    (h : s.addToFourTupleHashMap (fourTupleHash (s.obj lid).localAddr p.fromAddr) s.allocated =
      .ok (ok, s.fourTupleMap.insert (fourTupleHash (s.obj lid).localAddr p.fromAddr) s.allocated)) :
    s.handleSyn lid r p = .ok (s.acceptSyn lid r p) := by
  have hroom : ¬ (s.obj lid).backlogq.length + (s.obj lid).backloglistPending.length = (s.obj lid).backlogSize := hm.room
  unfold handleSyn
  rw [if_neg hroom, if_neg hm.rst, if_neg (not_not_intro hm.syn), if_neg hm.rets, h]
  rfl

/-- What a round of `listen_handle_syn` can do. -/
theorem handleSyn_cases {r : AcceptRets} {p : WcbReceivedPack} (h : s.handleSyn lid r p = .ok s') :
    s' = s.replyRst lid p ∧ ¬ MakesWcb s lid r p ∧ (BacklogFull s lid ∨ ¬ p.testFlag .rst = true) ∨
    s' = s ∧ ¬ BacklogFull s lid ∧ p.testFlag .rst = true ∨
    s' = s.issue.replyRst lid p ∧ MakesWcb s lid r p ∨
    s' = s.acceptSyn lid r p ∧ MakesWcb s lid r p ∧ fourTupleHash (s.obj lid).localAddr p.fromAddr ≠ 0 ∧
      s.fourTupleMap.find? (fourTupleHash (s.obj lid).localAddr p.fromAddr) = none := by
  unfold handleSyn at h
  by_cases hfull : (s.obj lid).backlogq.length + (s.obj lid).backloglistPending.length = (s.obj lid).backlogSize
  · rw [if_pos hfull] at h; cases h; exact .inl ⟨rfl, fun hm => hm.room hfull, .inl hfull⟩
  rw [if_neg hfull] at h
  by_cases hrst : p.testFlag .rst = true
  · rw [if_pos hrst] at h; cases h; exact .inr (.inl ⟨rfl, hfull, hrst⟩)
  rw [if_neg hrst] at h
  by_cases hsyn : ¬ p.testFlag .syn = true
  · rw [if_pos hsyn] at h; cases h; exact .inl ⟨rfl, fun hm => hsyn hm.syn, .inr hrst⟩
  rw [if_neg hsyn] at h
  by_cases hrets : (r.rets.any (· ≠ ok)) = true
  · rw [if_pos hrets] at h; cases h; exact .inl ⟨rfl, fun hm => hm.rets hrets, .inr hrst⟩
  rw [if_neg hrets] at h
  have hm : MakesWcb s lid r p := ⟨hfull, hrst, not_not.1 hsyn, hrets⟩
  cases ha : s.addToFourTupleHashMap (fourTupleHash (s.obj lid).localAddr p.fromAddr) s.allocated with
  | error f => rw [ha] at h; cases h
  | ok c =>
    obtain ⟨rt, m⟩ := c
    rw [ha] at h
    dsimp only at h
    split_ifs at h with hrt
    · cases h
      exact .inr (.inr (.inl ⟨rfl, hm⟩))
    · cases h
      unfold addToFourTupleHashMap at ha
      split_ifs at ha with hzero _ hfind
      · cases ha; exact absurd (by decide) hrt
      · cases ha; exact absurd (by decide) hrt
      · cases ha
        exact .inr (.inr (.inr ⟨rfl, hm, hzero, by simpa using hfind⟩))

theorem handleSyn_moves {r : AcceptRets} {p : WcbReceivedPack} (hl : lid ∈ s.wcbMap.vals)
    (h : s.handleSyn lid r p = .ok s') : Moves s s' := by
  rcases handleSyn_cases h with ⟨rfl, -⟩ | ⟨rfl, -⟩ | ⟨rfl, -⟩ | ⟨rfl, -, hzero, hnone⟩
  · exact .of_keeps (.replyRst s lid p)
  · exact .refl s'
  · exact ⟨_, .replyRst s lid p, .refuse⟩
  · refine ⟨s, .refl s, ?_⟩
    exact .passive lid p.fromAddr (s.passiveObj lid r p) hl ⟨rfl, rfl, rfl, rfl, nofun⟩ rfl rfl rfl hzero hnone

theorem settlePending_moves (hid : id ∈ (s.obj lid).backloglistPending) (h : s.settlePending lid id = .ok s') :
    Moves s s' := by
  have herase : ∀ i ∈ (s.obj lid).backlogq ++ (s.obj lid).backloglistPending.erase id, i ∈ s.backlog lid := by
    intro i hi
    refine List.mem_append.2 ((List.mem_append.1 hi).imp_right fun hi => List.mem_of_mem_erase hi)
  have hclose : ∀ {rt : Int} {w : Wcb}, Wawo.close (s.obj id).conn = .ok (rt, w) →
      KeepsObjs s ((s.setConn id w).setObj lid { (s.setConn id w).obj lid with
        backloglistPending := (s.obj lid).backloglistPending.erase id }) := by
    intro rt w hc
    have hk : KeepsObjs s (s.setConn id w) := .setConn (close_keeps hc)
    have hq : ((s.setConn id w).obj lid).backlogq = (s.obj lid).backlogq ∧
        ((s.setConn id w).obj lid).backloglistPending = (s.obj lid).backloglistPending := by
      unfold Wcp.setConn
      by_cases he : lid = id
      · subst he; rw [setObj_self]; exact ⟨rfl, rfl⟩
      · rw [setObj_of_ne s _ he]; exact ⟨rfl, rfl⟩
    refine hk.trans (.setObj rfl rfl rfl rfl rfl (fun i hi => ?_) (.inr rfl) (.of_eq rfl rfl))
    rw [Wcp.backlog, hq.1, hq.2]
    rw [hq.1] at hi
    exact herase i hi
  unfold settlePending at h
  dsimp only at h
  split at h
  · split_ifs at h
    cases h
    refine .of_keeps (.setObj rfl rfl rfl rfl rfl (fun i hi => ?_) (.inr rfl) (.of_eq rfl rfl))
    have hi : i ∈ ((s.obj lid).backlogq ++ [id]) ++ (s.obj lid).backloglistPending.erase id := hi
    rw [List.append_assoc, List.mem_append, List.mem_append, List.mem_singleton] at hi
    rcases hi with hi | rfl | hi
    · exact herase i (List.mem_append_left _ hi)
    · exact List.mem_append_right _ hid
    · exact herase i (List.mem_append_right _ hi)
  · cases hc : Wawo.close (s.obj id).conn with
    | error f => rw [hc] at h; cases h
    | ok c => rw [hc] at h; cases h; exact .of_keeps (hclose hc)
  · cases hc : Wawo.close (s.obj id).conn with
    | error f => rw [hc] at h; cases h
    | ok c => rw [hc] at h; cases h; exact .of_keeps (hclose hc)
  · cases h; exact .refl s
  · cases h

end Wcp

open Wcp in
/-- Every event changes control blocks inside, and then the tables in one of the listed ways. -/
theorem sysStep_cases {s s' : Wcp} {e : SysEvent} (h : sysStep e s = .ok s') : Moves s s' := by
  cases e with
  | socket openRt u now =>
    cases h
    unfold Wcp.socket
    by_cases ho : openRt ≠ ok
    · rw [if_pos ho]; exact .refl s
    rw [if_neg ho]
    dsimp only
    by_cases hf : (s.createPendingMap.find? s.nextFd).isSome = true
    · rw [if_pos hf]; exact ⟨s, .refl s, .refuse⟩
    · rw [if_neg hf]
      exact ⟨s, .refl s, .create _ ⟨rfl, rfl, rfl, rfl, nofun⟩ rfl rfl (by simpa using hf)⟩
  | bind fd addr rt => cases h; exact bind_moves fd addr rt
  | connect fd addr now nbRt =>
    obtain ⟨c, hc, rfl⟩ := map_eq_ok.1 h
    exact connect_moves hc
  | listen fd backlog nbRt udpRt =>
    obtain ⟨c, hc, rfl⟩ := map_eq_ok.1 h
    exact listen_moves hc
  | accept fd => cases h; exact accept_moves s fd
  | close fd =>
    obtain ⟨c, hc, rfl⟩ := map_eq_ok.1 h
    exact close_moves hc
  | call fd e => exact call_moves h
  | arrive id p =>
    cases h
    split_ifs
    · exact .of_keeps (.setConn (.of_eq rfl rfl))
    · exact .refl s
  | executeOp =>
    cases h
    unfold Wcp.executeOp
    split
    · exact .refl s
    · rename_i id rest ho; exact ⟨s, .refl s, .execute id rest ho⟩
  | update id t =>
    dsimp only [sysStep] at h
    split_ifs at h
    · unfold updateConn at h
      cases hw : step (.update t) (s.obj id).conn with
      | error f => rw [hw] at h; cases h
      | ok w => rw [hw] at h; cases h; exact .of_keeps (.setConn (update_keeps hw))
    · cases h; exact .refl s
  | handleSyn lid r =>
    dsimp only [sysStep] at h
    split at h
    · cases h; exact .refl s
    · rename_i p rest _
      split_ifs at h with hl
      · have hmem : lid ∈ s.wcbMap.vals := by
          have := hl.1
          unfold listening at this
          exact (of_decide_eq_true this).1
        have hk : KeepsObjs s (s.setConn lid { (s.obj lid).conn with
            rcv := { (s.obj lid).conn.rcv with receivedVecStandby := rest } }) := .setConn (.of_eq rfl rfl)
        obtain ⟨t, ht, hs⟩ := handleSyn_moves (s := s.setConn lid _) hmem h
        exact ⟨t, hk.trans ht, hs⟩
      · cases h; exact .refl s
  | settle lid id =>
    dsimp only [sysStep] at h
    split_ifs at h with hs
    · exact settlePending_moves hs.2 h
    · cases h; exact .refl s
  | recycle id =>
    dsimp only [sysStep] at h
    split_ifs at h with hr
    · unfold Wcp.recycle at h
      dsimp only at h
      split_ifs at h
      all_goals cases h; exact ⟨s, .refl s, by simpa [*] using TableStep.recycle id hr.1 hr.2⟩
    · cases h; exact .refl s

/-! ### The maps -/

/-- The descriptor issued behind `n` others. -/
def fdOf (n : Nat) : Nat := makeWcbFd (BitVec.ofNat 32 (1 + n))

/-- Two of the next 2048 descriptors are never the same. -/
theorem fdOf_ne {n m : Nat} (hlt : n < m) (hnear : m < n + wcpFdMax) : fdOf n ≠ fdOf m := by
  intro he
  have hfd : ∀ k, (BitVec.ofNat 32 (1 + k)).toInt % 2048 = (1 + k : Int) % 2048 := by
    intro k
    rw [BitVec.toInt_eq_toNat_bmod, BitVec.toNat_ofNat, Int.bmod_def]
    split_ifs <;> omega
  have hlow : ∀ a : Int, 0 ≤ a.tmod 2048 + 0xFFFFFF := by
    intro a
    have h := Int.tmod_lt_of_pos (-a) (show (0 : Int) < 2048 by decide)
    rw [Int.neg_tmod] at h
    omega
  have heq : (BitVec.ofNat 32 (1 + n)).toInt.tmod 2048 = (BitVec.ofNat 32 (1 + m)).toInt.tmod 2048 := by
    have h1 := hlow (BitVec.ofNat 32 (1 + n)).toInt
    have h2 := hlow (BitVec.ofNat 32 (1 + m)).toInt
    have h3 : ((BitVec.ofNat 32 (1 + n)).toInt.tmod 2048 + 0xFFFFFF).toNat =
        ((BitVec.ofNat 32 (1 + m)).toInt.tmod 2048 + 0xFFFFFF).toNat := he
    omega
  have hmod : (BitVec.ofNat 32 (1 + n)).toInt % 2048 = (BitVec.ofNat 32 (1 + m)).toInt % 2048 := by
    have h1 := Int.mul_tdiv_add_tmod (BitVec.ofNat 32 (1 + n)).toInt 2048
    have h2 := Int.mul_tdiv_add_tmod (BitVec.ofNat 32 (1 + m)).toInt 2048
    omega
  rw [hfd, hfd] at hmod
  unfold wcpFdMax at hnear
  omega

namespace Wcp

variable {s s' t : Wcp} {id : Nat}

/-- The entries of the maps are made for the descriptors they stand under, and a control block is in one
place at a time. -/
structure Tables (s : Wcp) : Prop where
  counter : s.autoIncrementId = BitVec.ofNat 32 (1 + s.issued)
  fd : ∀ id < s.allocated, (s.obj id).fd = fdOf (s.obj id).birth
  birth_lt : ∀ id < s.allocated, (s.obj id).birth < s.issued
  birth_mono : ∀ id id', id < id' → id' < s.allocated → (s.obj id).birth < (s.obj id').birth
  pendingKey : ∀ e ∈ s.createPendingMap, e.2 < s.allocated ∧ (s.obj e.2).fd = e.1
  mapKey : ∀ e ∈ s.wcbMap, e.2 < s.allocated ∧ (s.obj e.2).fd = e.1
  ops_lt : ∀ id ∈ s.ops, id < s.allocated
  ops_nodup : s.ops.Nodup
  backlog_lt : ∀ lid, ∀ id ∈ s.backlog lid, id < s.allocated
  pending_out : ∀ id ∈ s.createPendingMap.vals, id ∉ s.wcbMap.vals ∧ id ∉ s.ops ∧ s.backlog id = []
  ops_out : ∀ id ∈ s.ops, id ∉ s.wcbMap.vals ∧ s.backlog id = []

/-- A control block that no table holds and at which nothing waits. -/
structure Unheld (s : Wcp) (id : Nat) : Prop where
  pending : id ∉ s.createPendingMap.vals
  map : id ∉ s.wcbMap.vals
  ops : id ∉ s.ops
  backlog : s.backlog id = []

theorem Tables.keep (h : Tables s) (hk : KeepsObjs s t) : Tables t := by
  obtain ⟨f, rfl⟩ : ∃ f, t = { s with obj := f } := ⟨_, hk.tables⟩
  have hback : ∀ i, s.backlog i = [] → Wcp.backlog { s with obj := f } i = [] := by
    intro i hi
    refine List.eq_nil_iff_forall_not_mem.2 fun j hj => ?_
    have hj := hk.backlog i j hj
    rw [hi] at hj
    cases hj
  refine ⟨h.counter, ?_, ?_, ?_, ?_, ?_, h.ops_lt, h.ops_nodup, ?_, ?_, ?_⟩
  · intro id hid; rw [hk.fd, hk.birth]; exact h.fd id hid
  · intro id hid; rw [hk.birth]; exact h.birth_lt id hid
  · intro id id' hlt hid; rw [hk.birth, hk.birth]; exact h.birth_mono id id' hlt hid
  · intro e he; rw [hk.fd]; exact h.pendingKey e he
  · intro e he; rw [hk.fd]; exact h.mapKey e he
  · intro lid id hid; exact h.backlog_lt lid id (hk.backlog lid id hid)
  · intro id hid
    obtain ⟨h1, h2, h3⟩ := h.pending_out id hid
    exact ⟨h1, h2, hback id h3⟩
  · intro id hid
    obtain ⟨h1, h2⟩ := h.ops_out id hid
    exact ⟨h1, hback id h2⟩

theorem Tables.issue (h : Tables s) : Tables s.issue := by
  refine ⟨?_, h.fd, fun id hid => Nat.lt_succ_of_lt (h.birth_lt id hid), h.birth_mono, h.pendingKey, h.mapKey, h.ops_lt,
    h.ops_nodup, h.backlog_lt, h.pending_out, h.ops_out⟩
  show s.autoIncrementId + 1 = BitVec.ofNat 32 (1 + (s.issued + 1))
  rw [h.counter, ← Nat.add_assoc]
  exact (BitVec.ofNat_add (1 + s.issued) 1).symm

theorem alloc_obj_self (s : Wcp) (o : WcbObj) : (s.issue.alloc o).obj s.allocated = o := Function.update_self ..

theorem alloc_obj_of_lt (o : WcbObj) (h : id < s.allocated) : (s.issue.alloc o).obj id = s.obj id :=
  Function.update_of_ne (Nat.ne_of_lt h) ..

theorem Tables.alloc {o : WcbObj} (h : Tables s) (ho : Fresh s o) :
    Tables (s.issue.alloc o) ∧ Unheld (s.issue.alloc o) s.allocated := by
  have hself : (s.issue.alloc o).obj s.allocated = o := alloc_obj_self s o
  have hold : ∀ {i}, i < s.allocated → (s.issue.alloc o).obj i = s.obj i := fun hi => alloc_obj_of_lt o hi
  have hnil : (s.issue.alloc o).backlog s.allocated = [] := by
    rw [Wcp.backlog, hself, ho.backlogq, ho.pending]; rfl
  have hback : ∀ {i}, i ≠ s.allocated → (s.issue.alloc o).backlog i = s.backlog i := by
    intro i hi
    rw [Wcp.backlog, show (s.issue.alloc o).obj i = s.obj i from Function.update_of_ne hi ..]
    rfl
  have hpend : ∀ id ∈ s.createPendingMap.vals, id < s.allocated := by
    intro id hid
    obtain ⟨k, hk⟩ := KeyMap.mem_vals.1 hid
    exact (h.pendingKey _ hk).1
  have hmap : ∀ id ∈ s.wcbMap.vals, id < s.allocated := by
    intro id hid
    obtain ⟨k, hk⟩ := KeyMap.mem_vals.1 hid
    exact (h.mapKey _ hk).1
  have hlast : ∀ {i}, i < (s.issue.alloc o).allocated → i < s.allocated ∨ i = s.allocated :=
    fun hi => Nat.lt_succ_iff_lt_or_eq.1 hi
  have hi := h.issue
  refine ⟨⟨hi.counter, ?_, ?_, ?_, ?_, ?_, ?_, h.ops_nodup, ?_, ?_, ?_⟩, ?_⟩
  · intro id hid
    rcases hlast hid with hid | rfl
    · rw [hold hid]; exact h.fd id hid
    · rw [hself, ho.fd, ho.birth, nextFd, h.counter]; rfl
  · intro id hid
    rcases hlast hid with hid | rfl
    · rw [hold hid]; exact hi.birth_lt id hid
    · rw [hself, ho.birth]; exact Nat.lt_succ_self _
  · intro id id' hlt hid
    rcases hlast hid with hid | rfl
    · rw [hold hid, hold (hlt.trans hid)]; exact h.birth_mono id id' hlt hid
    · rw [hself, hold hlt, ho.birth]; exact h.birth_lt id hlt
  · intro e he
    obtain ⟨h1, h2⟩ := h.pendingKey e he
    rw [hold h1]; exact ⟨Nat.lt_succ_of_lt h1, h2⟩
  · intro e he
    obtain ⟨h1, h2⟩ := h.mapKey e he
    rw [hold h1]; exact ⟨Nat.lt_succ_of_lt h1, h2⟩
  · exact fun id hid => Nat.lt_succ_of_lt (h.ops_lt id hid)
  · intro lid id hid
    by_cases he : lid = s.allocated
    · rw [he, hnil] at hid; cases hid
    · rw [hback he] at hid; exact Nat.lt_succ_of_lt (h.backlog_lt lid id hid)
  · intro id hid
    rw [hback (Nat.ne_of_lt (hpend id hid))]
    exact h.pending_out id hid
  · intro id hid
    rw [hback (Nat.ne_of_lt (h.ops_lt id hid))]
    exact h.ops_out id hid
  · exact ⟨fun hid => Nat.lt_irrefl _ (hpend _ hid), fun hid => Nat.lt_irrefl _ (hmap _ hid),
      fun hid => Nat.lt_irrefl _ (h.ops_lt _ hid), hnil⟩

theorem Tables.insertPending (h : Tables s) (hid : id < s.allocated) (hu : Unheld s id) :
    Tables { s with createPendingMap := s.createPendingMap.insert (s.obj id).fd id } := by
  refine ⟨h.counter, h.fd, h.birth_lt, h.birth_mono, ?_, h.mapKey, h.ops_lt, h.ops_nodup, h.backlog_lt, ?_, h.ops_out⟩
  · intro e he
    rcases KeyMap.mem_insert he with rfl | he
    · exact ⟨hid, rfl⟩
    · exact h.pendingKey e he
  · intro i hi
    rcases KeyMap.mem_vals_insert hi with rfl | hi
    · exact ⟨hu.map, hu.ops, hu.backlog⟩
    · exact h.pending_out i hi

theorem Tables.pushOp (h : Tables s) (hid : id < s.allocated) (hu : Unheld s id) :
    Tables { s with ops := s.ops ++ [id] } := by
  refine ⟨h.counter, h.fd, h.birth_lt, h.birth_mono, h.pendingKey, h.mapKey, ?_, ?_, h.backlog_lt, ?_, ?_⟩
  · intro i hi
    rcases List.mem_append.1 hi with hi | hi
    · exact h.ops_lt i hi
    · rw [List.mem_singleton.1 hi]; exact hid
  · exact List.nodup_append.2 ⟨h.ops_nodup, by simp, fun a ha b hb => by
      rw [List.mem_singleton.1 hb]; rintro rfl; exact hu.ops ha⟩
  · intro i hi
    obtain ⟨h1, h2, h3⟩ := h.pending_out i hi
    refine ⟨h1, fun ho => ?_, h3⟩
    rcases List.mem_append.1 ho with ho | ho
    · exact h2 ho
    · rw [List.mem_singleton.1 ho] at hi; exact hu.pending hi
  · intro i hi
    rcases List.mem_append.1 hi with hi | hi
    · exact h.ops_out i hi
    · rw [List.mem_singleton.1 hi]; exact ⟨hu.map, hu.backlog⟩

/-- A connection is put on the list of an open listener. -/
theorem Tables.addPending {lid : Nat} (h : Tables s) (hl : lid ∈ s.wcbMap.vals) (hid : id < s.allocated) :
    Tables (s.setObj lid { s.obj lid with backloglistPending := (s.obj lid).backloglistPending ++ [id] }) := by
  let o : WcbObj := { s.obj lid with backloglistPending := (s.obj lid).backloglistPending ++ [id] }
  have hobj : ∀ i, ((s.setObj lid o).obj i).fd = (s.obj i).fd ∧ ((s.setObj lid o).obj i).birth = (s.obj i).birth := by
    intro i
    by_cases he : i = lid
    · subst he; rw [setObj_self]; exact ⟨rfl, rfl⟩
    · rw [setObj_of_ne s o he]; exact ⟨rfl, rfl⟩
  have hback : ∀ i, i ≠ lid → (s.setObj lid o).backlog i = s.backlog i := by
    intro i hi
    rw [Wcp.backlog, setObj_of_ne s o hi]; rfl
  refine ⟨h.counter, ?_, ?_, ?_, ?_, ?_, h.ops_lt, h.ops_nodup, ?_, ?_, ?_⟩
  · intro i hi; rw [(hobj i).1, (hobj i).2]; exact h.fd i hi
  · intro i hi; rw [(hobj i).2]; exact h.birth_lt i hi
  · intro i j hlt hj; rw [(hobj i).2, (hobj j).2]; exact h.birth_mono i j hlt hj
  · intro e he; rw [(hobj e.2).1]; exact h.pendingKey e he
  · intro e he; rw [(hobj e.2).1]; exact h.mapKey e he
  · intro i j hj
    by_cases he : i = lid
    · subst he
      rw [Wcp.backlog, setObj_self, ← List.append_assoc] at hj
      rcases List.mem_append.1 hj with hj | hj
      · exact h.backlog_lt i j hj
      · rw [List.mem_singleton.1 hj]; exact hid
    · rw [hback i he] at hj; exact h.backlog_lt i j hj
  · intro i hi
    obtain ⟨h1, h2, h3⟩ := h.pending_out i hi
    exact ⟨h1, h2, (hback i fun he => h1 (he ▸ hl)).trans h3⟩
  · intro i hi
    obtain ⟨h1, h2⟩ := h.ops_out i hi
    exact ⟨h1, (hback i fun he => h1 (he ▸ hl)).trans h2⟩

theorem Tables.erasePending (h : Tables s) (fd : Nat) : Tables { s with createPendingMap := s.createPendingMap.erase fd } := by
  refine ⟨h.counter, h.fd, h.birth_lt, h.birth_mono, fun e he => h.pendingKey e (KeyMap.mem_erase.1 he).1, h.mapKey,
    h.ops_lt, h.ops_nodup, h.backlog_lt, ?_, h.ops_out⟩
  exact fun i hi => h.pending_out i (KeyMap.mem_vals_erase hi)

theorem Tables.insertMap (h : Tables s) (hid : id < s.allocated) (hp : id ∉ s.createPendingMap.vals) (ho : id ∉ s.ops) :
    Tables { s with wcbMap := s.wcbMap.insert (s.obj id).fd id } := by
  have hne : ∀ i, i ∉ s.wcbMap.vals → i ≠ id → i ∉ (s.wcbMap.insert (s.obj id).fd id).vals := by
    intro i hi hne hm
    rcases KeyMap.mem_vals_insert hm with he | hm
    · exact hne he
    · exact hi hm
  refine ⟨h.counter, h.fd, h.birth_lt, h.birth_mono, h.pendingKey, ?_, h.ops_lt, h.ops_nodup, h.backlog_lt, ?_, ?_⟩
  · intro e he
    rcases KeyMap.mem_insert he with rfl | he
    · exact ⟨hid, rfl⟩
    · exact h.mapKey e he
  · intro i hi
    obtain ⟨h1, h2, h3⟩ := h.pending_out i hi
    exact ⟨hne i h1 fun he => hp (he ▸ hi), h2, h3⟩
  · intro i hi
    obtain ⟨h1, h2⟩ := h.ops_out i hi
    exact ⟨hne i h1 fun he => ho (he ▸ hi), h2⟩

theorem Tables.eraseMap (h : Tables s) (fd : Nat) (m : KeyMap Nat) :
    Tables { s with fourTupleMap := m, wcbMap := s.wcbMap.erase fd } := by
  have hsub : ∀ i, i ∉ s.wcbMap.vals → i ∉ (s.wcbMap.erase fd).vals :=
    fun i hi hm => hi (KeyMap.mem_vals_erase hm)
  refine ⟨h.counter, h.fd, h.birth_lt, h.birth_mono, h.pendingKey, fun e he => h.mapKey e (KeyMap.mem_erase.1 he).1,
    h.ops_lt, h.ops_nodup, h.backlog_lt, ?_, ?_⟩
  · intro i hi
    obtain ⟨h1, h2⟩ := h.pending_out i hi
    exact ⟨hsub i h1, h2⟩
  · intro i hi
    obtain ⟨h1, h2⟩ := h.ops_out i hi
    exact ⟨hsub i h1, h2⟩

theorem Tables.step (h : Tables s) (hs : TableStep s s') : Tables s' := by
  cases hs with
  | keep => exact h
  | refuse => exact h.issue
  | create o ho _ _ _ =>
    obtain ⟨ht, hu⟩ := h.alloc ho
    have hself : (s.issue.alloc o).obj s.allocated = o := alloc_obj_self s o
    have hlt : s.allocated < (s.issue.alloc o).allocated := Nat.lt_succ_self s.allocated
    have hins := ht.insertPending hlt hu
    rw [hself] at hins
    exact hins
  | activate fd id hf =>
    have hmem := KeyMap.mem_of_find? hf
    obtain ⟨hlt, hfd⟩ := h.pendingKey _ hmem
    obtain ⟨-, hops, -⟩ := h.pending_out id (KeyMap.mem_vals_of_find? hf)
    have hfd : (s.obj id).fd = fd := hfd
    have hins := (h.erasePending fd).insertMap hlt (fun hm => ?_) hops
    · rw [hfd] at hins; exact hins
    · obtain ⟨k, hk⟩ := KeyMap.mem_vals.1 hm
      obtain ⟨hk, hne⟩ := KeyMap.mem_erase.1 hk
      exact hne ((h.pendingKey _ hk).2.symm.trans hfd)
  | drop fd id _ => exact h.erasePending fd
  | passive lid a o hl ho _ _ _ _ _ =>
    obtain ⟨ht, hu⟩ := h.alloc ho
    have hadd := ht.addPending hl (Nat.lt_succ_self s.allocated)
    have hne : s.allocated ≠ lid := fun he => hu.map (he ▸ hl)
    have hpush := hadd.pushOp (Nat.lt_succ_self s.allocated) ⟨hu.pending, hu.map, hu.ops, ?_⟩
    · exact ⟨hpush.counter, hpush.fd, hpush.birth_lt, hpush.birth_mono, hpush.pendingKey, hpush.mapKey, hpush.ops_lt,
        hpush.ops_nodup, hpush.backlog_lt, hpush.pending_out, hpush.ops_out⟩
    · rw [Wcp.backlog, setObj_of_ne _ _ hne]; exact hu.backlog
  | execute id rest ho =>
    have hid : id ∈ s.ops := by rw [ho]; simp
    have hnd := h.ops_nodup
    rw [ho] at hnd
    obtain ⟨hnot, hnd⟩ := List.nodup_cons.1 hnd
    have hrest : ∀ i ∈ rest, i ∈ s.ops := fun i hi => by rw [ho]; exact List.mem_cons_of_mem _ hi
    have hpop : Tables { s with ops := rest } := by
      refine ⟨h.counter, h.fd, h.birth_lt, h.birth_mono, h.pendingKey, h.mapKey, fun i hi => h.ops_lt i (hrest i hi), hnd,
        h.backlog_lt, ?_, fun i hi => h.ops_out i (hrest i hi)⟩
      intro i hi
      obtain ⟨h1, h2, h3⟩ := h.pending_out i hi
      exact ⟨h1, fun hm => h2 (hrest i hm), h3⟩
    exact hpop.insertMap (h.ops_lt id hid) (fun hp => (h.pending_out id hp).2.1 hid) hnot
  | recycle id _ _ => exact h.eraseMap _ _

theorem Tables.start (u : Uninit) : Tables (Wcp.start u) := by
  refine ⟨rfl, ?_, ?_, ?_, ?_, ?_, ?_, List.nodup_nil, ?_, ?_, ?_⟩
  · exact fun id hid => absurd hid (Nat.not_lt_zero _)
  · exact fun id hid => absurd hid (Nat.not_lt_zero _)
  · exact fun id id' _ hid => absurd hid (Nat.not_lt_zero _)
  all_goals exact nofun

theorem Moves.tables (h : Moves s s') (ht : Tables s) : Tables s' := by
  obtain ⟨t, hk, hs⟩ := h
  exact (ht.keep hk).step hs

end Wcp

theorem run_tables {C : Wcp → SysEvent → Prop} {u : Uninit} {es : List SysEvent} {s : Wcp}
    (h : Run sysStep C (Wcp.start u) es s) : s.Tables :=
  h.inv Wcp.Tables (fun _ _ _ ht _ hs => (sysStep_cases hs).tables ht) (.start u)

end Wawo
