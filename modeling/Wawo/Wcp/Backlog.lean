import Wawo.Wcp.Identity
import Wawo.Wcp.SendQueue

/-!
# The backlog of a listener

Every control block that a listener makes is on `backloglist_pending`, in `backlogq`, returned by `accept`
or dropped, and in one of these places only (`Accounts`). The loop over `backloglist_pending` knows four
states and throws in any other; a connection of which nobody has closed or shut down the writing side
(`Untouched`) is in one of the four. `backlog_accounts` is about the runs in which no `close` or `shutdown`
reaches a connection that is still pending.

A user who closes only descriptors that `accept` has returned can do just that: the descriptor of a
connection that is closed comes back 2048 issues later for one that is pending
(`backlog_logicIssue`).
-/

namespace Wawo

open Lts Relation

/-! ### A connection that nobody has closed -/

section

variable {w w' : Wcb} {now : Nat}

/-- The states that the loop over `backloglist_pending` handles. -/
def WcbState.settles : WcbState → Bool
  | .synReceived | .established | .closeWait | .closed => true
  | _ => false

/-- The writing side is open and no FIN is queued. -/
structure Sender.Open (s : Sender) : Prop where
  noFin : s.NoFin
  writeShut : s.writeShut = false

/-- What holds of a connection until the user closes it or shuts down its writing side. -/
structure Wcb.Untouched (w : Wcb) : Prop where
  state : w.state.settles = true
  sender : w.snd.sender.Open

theorem Wcb.Untouched.of_eq (h : w.Untouched) (hst : w'.state = w.state) (hs : w'.snd = w.snd) : w'.Untouched := by
  refine ⟨?_, ?_⟩
  · rw [hst]
    exact h.state
  · rw [hs]
    exact h.sender

theorem Sender.Open.step {m : Sender.Mode} {s s' : Sender} (h : s.Open) (hm : m.actor ≠ .user) (hs : Sender.Step m s s') :
    s'.Open := by
  refine ⟨h.noFin.step hs hm, ?_⟩
  have hopen := h.writeShut
  cases hs with
  | shutFin _ hu => exact absurd hu hm
  | shut hu => exact absurd hu hm
  | _ => exact hopen

/-- Whatever the parts of a tick do, they do not close. -/
theorem Sender.Open.sim {m : Sender.Mode} {x : Except Fault Wcb} (h : w.snd.sender.Open) (hm : m.actor ≠ .user)
    (hsim : SndSim m Wcb.snd w.snd.sender x) (hx : x = .ok w') : w'.snd.sender.Open := by
  rw [hx] at hsim
  exact hsim.inv (I := Sender.Open) (fun _ _ hv hs => hv.step hm hs) h

theorem recvRule_settles : RecvRule (fun st => st.settles = true) where
  closed := rfl
  ack hm hst := by
    cases hm with
    | accepted => rfl
    | _ => cases hst
  fin hm hst := by
    cases hm with
    | received => rfl
    | aborted => rfl
    | _ => cases hst

theorem sendCtlOne_queue {d : Datagram} {c : Wcb × SendExit} (h : sendCtlOne d w = .ok c) :
    c.1.snd.sending = w.snd.sending ∧ c.1.snd.sendingStandby = w.snd.sendingStandby := by
  unfold sendCtlOne at h
  obtain ⟨⟨rt, d', w₁⟩, hs, h⟩ := bind_eq_ok.1 h
  have hq : w₁.snd.sending = w.snd.sending ∧ w₁.snd.sendingStandby = w.snd.sendingStandby := by
    rcases (sendPack_cases hs).2.2.2 with ⟨-, he⟩ | ⟨-, he⟩ <;> rw [he] <;> exact ⟨rfl, rfl⟩
  dsimp only at h
  split_ifs at h
  · cases h
    have he := sender_noteSendError w₁ rt
    exact ⟨(congrArg Sender.sending he).trans hq.1, (congrArg Sender.standby he).trans hq.2⟩
  · cases h
    exact hq

/-- Without a FIN to send, `check_send` leaves the state of a connection alone. -/
theorem checkSend_state (hst : w.state ≠ .syning) (hf : w.snd.sender.NoFin) (h : checkSend now w = .ok w') :
    w'.state = w.state := by
  have hsends : Sender.Actor.send ≠ .user := nofun
  refine (SendRule.checkSend (I := fun v => v.state = w.state ∧ v.snd.sender.NoFin) ⟨?_, ?_, ?_, ?_⟩ ⟨rfl, hf⟩ h).1
  · rintro v ⟨hs, hn⟩
    unfold checkRwnd Snd.pushWnd
    split_ifs
    · dsimp only
      split <;> exact ⟨hs, hn⟩
    · exact ⟨hs, hn⟩
  · rintro v d c ⟨hs, hn⟩ hc
    obtain ⟨hsend, hstandby⟩ := sendCtlOne_queue hc
    refine ⟨(sendCtlOne_rcv hc).2.trans hs, ?_⟩
    show ∀ p ∈ c.1.snd.sending ++ c.1.snd.sendingStandby, p.testFlag .fin = false
    rw [hsend, hstandby]
    exact hn
  · rintro v q l c ⟨hs, hn⟩ hq hc
    have hsim : SndSim (.any .send v.rcv.next) (fun c : Wcb × SendExit => c.1.snd) v.snd.sender (transmitOne now q l v) :=
      transmitOne_sim rfl rfl hq
    rw [hc] at hsim
    refine ⟨?_, hsim.inv (I := Sender.NoFin) (fun _ _ hv hs => hv.step hs hsends) hn⟩
    have hmem : q ∈ v.snd.sending := by
      rw [hq]
      exact List.mem_cons_self
    have hfin : q.testFlag .fin = false := hn q (List.mem_append_left _ hmem)
    rcases transmitOne_cases hc with rfl | ⟨rt, d, v₁, hp, rfl⟩ | ⟨d, v₁, hp, -, -, -, ha⟩
    · exact hs
    · exact (noteSendError_state _ _).trans ((sendPack_cases hp).2.2.1.trans hs)
    · obtain ⟨rfl, -, hst₁, -⟩ := sendPack_cases hp
      have hst₁ : v₁.state = w.state := hst₁.trans hs
      rcases afterLaunch_cases ha with ⟨hf, -⟩ | ⟨-, -, -, -, hx⟩
      · exact absurd (hf.symm.trans hfin) nofun
      · refine hx.trans ?_
        rw [if_neg fun hsyn => hst (hst₁.symm.trans hsyn.2)]
        exact hst₁
  · rintro v ⟨hs, hn⟩
    refine ⟨hs, ?_⟩
    exact Simulates.star_inv (I := Sender.NoFin) (fun _ _ hv hs => hv.step hs hsends) hn
      (refill_steps (m := .any .send v.rcv.next) rfl v.snd)

theorem Wcb.Untouched.checkAll (h : w.Untouched) (hall : checkAll now w = .ok w') : w'.Untouched := by
  obtain ⟨w₁, hrecv, hall⟩ := bind_eq_ok.1 hall
  obtain ⟨w₂, hflights, hsend⟩ := bind_eq_ok.1 hall
  have h₁ : w₁.Untouched := by
    refine ⟨recvRule_settles.checkRecv h.state hrecv, ?_⟩
    exact h.sender.sim (m := .any .recv w.rcv.next) nofun (checkRecv_sim rfl fun _ _ => trivial) hrecv
  have h₂ : w₂.Untouched := by
    refine ⟨?_, h₁.sender.sim (m := .any .flights w₁.rcv.next) nofun (checkFlights_sim nofun rfl) hflights⟩
    rw [checkFlights_state hflights]
    exact h₁.state
  refine ⟨?_, h₂.sender.sim (m := .any .send w₂.rcv.next) nofun (checkSend_sim rfl rfl (.inl rfl)) hsend⟩
  rw [checkSend_state (fun he => absurd (he ▸ h₂.state) nofun) h₂.sender.noFin hsend]
  exact h₂.state

/-- A tick keeps a connection in the states that the listener handles. -/
theorem Wcb.Untouched.update {t : Tick} (h : w.Untouched) (hu : step (.update t) w = .ok w') : w'.Untouched := by
  have hw : (w.prepare t).Untouched := h.of_eq rfl rfl
  have hu : Wawo.update t.now (w.prepare t) = .ok w' := hu
  have hst : w.state.settles = true := h.state
  have hclosed : ∀ v : Wcb, v.snd = w.snd → v.state = .closed → v.Untouched := by
    intro v hv hs
    refine ⟨?_, ?_⟩
    · rw [hs]
      rfl
    · rw [hv]
      exact h.sender
  unfold Wawo.update at hu
  have hstate : (w.prepare t).state = w.state := rfl
  cases hs : w.state <;> rw [hs] at hst <;> rw [hstate, hs] at hu <;> dsimp only at hu
  case closed =>
    have hshut : ¬ ((w.prepare t).rcv.localReadShutdowned = true ∧ (w.prepare t).snd.localWriteShutdowned = true ∧
        (w.prepare t).closedCalled = true) := by
      rintro ⟨-, hw, -⟩
      exact absurd (hw.symm.trans h.sender.writeShut) nofun
    rw [if_neg hshut] at hu
    cases hu
    exact hw
  case synReceived | established | closeWait =>
    split_ifs at hu
    · cases hu
      exact hclosed _ rfl rfl
    · exact hw.checkAll hu
  all_goals cases hst

end

/-! ### What becomes of the connections of a listener -/

namespace Wcp

variable (s : Wcp)

/-- The control blocks that the listener `lid` has made. -/
def madeFor (lid : Nat) : List Nat :=
  (List.range s.allocated).filter fun id => (s.obj id).origin.map Prod.fst = some lid

/-- The control block waits at the listener that has made it. -/
def pendingAtListener (id : Nat) : Bool :=
  match (s.obj id).origin with
  | some (lid, _) => id ∈ (s.obj lid).backloglistPending
  | none => false

/-- The listener and the connection of which `accept` returns the descriptor. -/
def accepts (fd : Nat) : Option (Nat × Nat) :=
  match s.wcbMap.find? fd with
  | none => none
  | some lid =>
    if (s.obj lid).conn.rcv.recvError ∨ (s.obj lid).conn.rcv.localReadShutdowned then none
    else
      match (s.obj lid).backlogq with
      | [] => none
      | id :: _ => some (lid, id)

/-- The listener closes the pending connection and forgets it. -/
def drops (lid id : Nat) : Bool :=
  s.listening lid ∧ id ∈ (s.obj lid).backloglistPending ∧
    ((s.obj id).conn.state = .closeWait ∨ (s.obj id).conn.state = .closed)

/-- No `close` and no `shutdown` of the writing side reaches a connection that is pending. -/
def sparesPending : SysEvent → Bool
  | .close fd => (s.wcbMap.find? fd).all fun id => !s.pendingAtListener id
  | .call fd (.shutdown how) => !how.writes || (s.wcbMap.find? fd).all fun id => !s.pendingAtListener id
  | _ => true

end Wcp

/-- The process with the record of what each listener has done with its connections and of the descriptors
that its users have. -/
structure Counted where
  sys : Wcp
  accepted : Nat → List Nat
  dropped : Nat → List Nat
  held : List Nat

namespace Counted

def start (u : Uninit) : Counted := ⟨Wcp.start u, fun _ => [], fun _ => [], []⟩

variable (t : Counted)

def note : SysEvent → Counted
  | .accept fd =>
    match t.sys.accepts fd with
    | none => t
    | some (lid, id) =>
      { t with
        accepted := Function.update t.accepted lid (t.accepted lid ++ [id])
        held := t.held ++ [(t.sys.obj id).fd] }
  | .settle lid id =>
    if t.sys.drops lid id then { t with dropped := Function.update t.dropped lid (t.dropped lid ++ [id]) } else t
  | .close fd => { t with held := t.held.erase fd }
  | _ => t

/-- Where the connections of the listener `lid` are. -/
def places (lid : Nat) : List Nat :=
  (t.sys.obj lid).backlogq ++ t.accepted lid ++ t.dropped lid ++ (t.sys.obj lid).backloglistPending

/-- Users act on descriptors that `accept` has returned to them and that they have not closed. -/
def owned : SysEvent → Bool
  | .close fd => fd ∈ t.held
  | .call fd _ => fd ∈ t.held
  | _ => true

end Counted

def count (e : SysEvent) (t : Counted) : Except WcpFault Counted :=
  (sysStep e t.sys).map fun s => { t.note e with sys := s }

namespace Wcp

variable {s s' t : Wcp} {id lid : Nat}

/-! ### What an event does to the backlogs -/

/-- The backlogs stay as they are, and so do the connections in them as far as the listener is concerned. -/
structure Steady (s s' : Wcp) : Prop where
  allocated : s'.allocated = s.allocated
  backlogq : ∀ lid, (s'.obj lid).backlogq = (s.obj lid).backlogq
  pending : ∀ lid, (s'.obj lid).backloglistPending = (s.obj lid).backloglistPending
  size : ∀ lid, (s'.obj lid).backlogSize = (s.obj lid).backlogSize ∨ s.backlog lid = []
  origin : ∀ id, (s'.obj id).origin = (s.obj id).origin
  passive : ∀ id, (s'.obj id).passiveOpen = (s.obj id).passiveOpen
  untouched : ∀ lid, ∀ id ∈ (s.obj lid).backloglistPending, (s.obj id).conn.Untouched → (s'.obj id).conn.Untouched

theorem Steady.refl (s : Wcp) : Steady s s :=
  ⟨rfl, fun _ => rfl, fun _ => rfl, fun _ => .inl rfl, fun _ => rfl, fun _ => rfl, fun _ _ _ h => h⟩

/-- The maps are changed. -/
theorem Steady.maps (h : Steady s s') {n : BitVec 32} {k : Nat} {pm m f : KeyMap Nat} {ops : List Nat} :
    Steady s ⟨n, s'.allocated, s'.obj, pm, m, f, ops, k⟩ :=
  ⟨h.allocated, h.backlogq, h.pending, h.size, h.origin, h.passive, h.untouched⟩

theorem Steady.setObj {o : WcbObj} (hq : o.backlogq = (s.obj id).backlogq)
    (hp : o.backloglistPending = (s.obj id).backloglistPending)
    (hs : o.backlogSize = (s.obj id).backlogSize ∨ s.backlog id = []) (ho : o.origin = (s.obj id).origin)
    (hpass : o.passiveOpen = (s.obj id).passiveOpen)
    (hu : ∀ lid, id ∈ (s.obj lid).backloglistPending → (s.obj id).conn.Untouched → o.conn.Untouched) :
    Steady s (s.setObj id o) := by
  refine ⟨rfl, ?_, ?_, ?_, ?_, ?_, fun lid => ?_⟩
  · exact forall_setObj (P := fun i x => x.backlogq = (s.obj i).backlogq) hq fun _ _ => rfl
  · exact forall_setObj (P := fun i x => x.backloglistPending = (s.obj i).backloglistPending) hp fun _ _ => rfl
  · exact forall_setObj (P := fun i x => x.backlogSize = (s.obj i).backlogSize ∨ s.backlog i = []) hs fun _ _ => .inl rfl
  · exact forall_setObj (P := fun i x => x.origin = (s.obj i).origin) ho fun _ _ => rfl
  · exact forall_setObj (P := fun i x => x.passiveOpen = (s.obj i).passiveOpen) hpass fun _ _ => rfl
  · refine forall_setObj (P := fun i x => i ∈ (s.obj lid).backloglistPending → (s.obj i).conn.Untouched → x.conn.Untouched)
      (hu lid) ?_
    exact fun _ _ _ h => h

theorem setObj_conn {o : WcbObj} (h : o.conn = (s.obj id).conn) (i : Nat) : ((s.setObj id o).obj i).conn = (s.obj i).conn :=
  forall_setObj (P := fun i x => x.conn = (s.obj i).conn) h (fun _ _ => rfl) i

/-- No connection joins the pending ones. -/
theorem pending_of_setObj {o : WcbObj} {l i : Nat}
    (h : ∀ i ∈ o.backloglistPending, i ∈ (s.obj id).backloglistPending) (hi : i ∈ ((s.setObj id o).obj l).backloglistPending) :
    i ∈ (s.obj l).backloglistPending :=
  forall_setObj (P := fun l x => i ∈ x.backloglistPending → i ∈ (s.obj l).backloglistPending) (h i) (fun _ _ hi => hi) l hi

theorem Steady.setConn {w : Wcb}
    (hu : ∀ lid, id ∈ (s.obj lid).backloglistPending → (s.obj id).conn.Untouched → w.Untouched) : Steady s (s.setConn id w) :=
  .setObj rfl rfl (.inl rfl) rfl rfl hu

theorem Steady.replyRst (s : Wcp) (lid : Nat) (p : WcbReceivedPack) : Steady s (s.replyRst lid p) :=
  .setObj rfl rfl (.inl rfl) rfl rfl fun _ _ h => h

theorem Steady.bind (s : Wcp) (fd : Nat) (addr : Address) (rt : Int) : Steady s (s.bind fd addr rt).2 := by
  unfold Wcp.bind
  split
  · exact .refl _
  · dsimp only
    split_ifs
    · exact .setObj rfl rfl (.inl rfl) rfl rfl fun _ _ hu => hu.of_eq rfl rfl
    · exact .setObj rfl rfl (.inl rfl) rfl rfl fun _ _ hu => hu

theorem Steady.trans (h : Steady s s') (h' : Steady s' t) : Steady s t where
  allocated := h'.allocated.trans h.allocated
  backlogq lid := (h'.backlogq lid).trans (h.backlogq lid)
  pending lid := (h'.pending lid).trans (h.pending lid)
  size lid := by
    have hback : s'.backlog lid = s.backlog lid := by
      unfold Wcp.backlog
      rw [h.backlogq, h.pending]
    rcases h'.size lid with he | he
    · rw [he]
      exact h.size lid
    · exact .inr (hback ▸ he)
  origin id := (h'.origin id).trans (h.origin id)
  passive id := (h'.passive id).trans (h.passive id)
  untouched lid id hid hu := h'.untouched lid id (by rw [h.pending]; exact hid) (h.untouched lid id hid hu)

theorem mem_madeFor : id ∈ s.madeFor lid ↔ id < s.allocated ∧ ∃ a, (s.obj id).origin = some (lid, a) := by
  simp [madeFor, Prod.exists]

theorem madeFor_congr (ha : s'.allocated = s.allocated) (ho : ∀ id, (s'.obj id).origin = (s.obj id).origin) :
    s'.madeFor lid = s.madeFor lid := by
  unfold madeFor
  rw [ha]
  refine List.filter_congr fun id _ => ?_
  rw [ho]

theorem alloc_obj_of_ne (o : WcbObj) (h : id ≠ s.allocated) : (s.issue.alloc o).obj id = s.obj id :=
  Function.update_of_ne h ..

theorem madeFor_alloc (s : Wcp) (o : WcbObj) (lid : Nat) :
    (s.issue.alloc o).madeFor lid = s.madeFor lid ++ if o.origin.map Prod.fst = some lid then [s.allocated] else [] := by
  unfold madeFor
  show (List.range (s.allocated + 1)).filter _ = _
  rw [List.range_succ, List.filter_append]
  congr 1
  · refine List.filter_congr fun id hid => ?_
    rw [alloc_obj_of_lt o (List.mem_range.1 hid)]
  · rw [List.filter_singleton, alloc_obj_self]
    by_cases hl : o.origin.map Prod.fst = some lid
    · rw [if_pos hl, decide_eq_true hl, cond_true]
    · rw [if_neg hl, decide_eq_false hl, cond_false]

theorem nodup_madeFor (s : Wcp) (lid : Nat) : (s.madeFor lid).Nodup := List.nodup_range.filter _

end Wcp

namespace Counted

open Wcp

variable {t t' : Counted} {s s' : Wcp} {id lid fd : Nat}

/-- The accounts of all listeners are in order. -/
structure Accounts (t : Counted) : Prop where
  tables : t.sys.Tables
  registered : t.sys.Registered
  passive : ∀ id < t.sys.allocated, (t.sys.obj id).passiveOpen = (t.sys.obj id).origin.isSome
  split : ∀ lid, (t.places lid).Perm (t.sys.madeFor lid)
  room : ∀ lid, (t.sys.obj lid).backlogq.length + (t.sys.obj lid).backloglistPending.length ≤ (t.sys.obj lid).backlogSize
  waiting : ∀ lid, ∀ id ∈ (t.sys.obj lid).backloglistPending, (t.sys.obj id).conn.Untouched

namespace Accounts

theorem nodup (h : Accounts t) (lid : Nat) : (t.places lid).Nodup := (h.split lid).nodup_iff.2 (nodup_madeFor _ _)

theorem made (h : Accounts t) (hid : id ∈ t.places lid) : id < t.sys.allocated ∧ ∃ a, (t.sys.obj id).origin = some (lid, a) :=
  mem_madeFor.1 ((h.split lid).mem_iff.1 hid)

theorem made_of_pending (h : Accounts t) (hid : id ∈ (t.sys.obj lid).backloglistPending) :
    id < t.sys.allocated ∧ ∃ a, (t.sys.obj id).origin = some (lid, a) :=
  h.made (List.mem_append_right _ hid)

/-- A control block is pending at the listener that has made it, if at all. -/
theorem pendingAtListener (h : Accounts t) (hid : id ∈ (t.sys.obj lid).backloglistPending) :
    t.sys.pendingAtListener id = true := by
  obtain ⟨-, a, ho⟩ := h.made_of_pending hid
  unfold Wcp.pendingAtListener
  rw [ho]
  exact decide_eq_true hid

theorem not_pending (h : Accounts t) (hid : t.sys.pendingAtListener id = false) (lid : Nat) :
    id ∉ (t.sys.obj lid).backloglistPending :=
  fun hp => absurd (hid.symm.trans (h.pendingAtListener hp)) nofun

/-- What `socket` has made and nobody has connected yet is pending nowhere. -/
theorem not_pending_of_active (h : Accounts t) (hf : t.sys.createPendingMap.find? fd = some id) (lid : Nat) :
    id ∉ (t.sys.obj lid).backloglistPending := by
  intro hid
  obtain ⟨hlt, a, ho⟩ := h.made_of_pending hid
  have hpass := h.passive id hlt
  rw [h.registered.active id (KeyMap.mem_vals_of_find? hf), ho] at hpass
  cases hpass

/-- Of the spared calls, those that reach `id` are not about a pending connection. -/
theorem spared (h : Accounts t) (hm : t.sys.wcbMap.find? fd = some id)
    (hs : ((t.sys.wcbMap.find? fd).all fun id => !t.sys.pendingAtListener id) = true) (lid : Nat) :
    id ∉ (t.sys.obj lid).backloglistPending := by
  rw [hm] at hs
  exact h.not_pending (by simpa using hs) lid

/-! ### What a call does -/

theorem connect (h : Accounts t) {addr : Address} {now : Nat} {nbRt rt : Int}
    (hc : t.sys.connect fd addr now nbRt = .ok (rt, s')) : Steady t.sys s' := by
  unfold Wcp.connect at hc
  cases hf : t.sys.createPendingMap.find? fd with
  | none =>
    rw [hf] at hc
    cases hc
    exact .refl _
  | some id =>
    rw [hf] at hc
    dsimp only at hc
    split_ifs at hc
    · cases hc
      exact .refl _
    · cases hw : Wawo.connect addr now (t.sys.obj id).conn with
      | error f => rw [hw] at hc; cases hc
      | ok w =>
        rw [hw] at hc
        cases hc
        refine (Steady.setConn fun lid hid => ?_).maps
        exact absurd hid (h.not_pending_of_active hf lid)

theorem listen (h : Accounts t) {backlog : Nat} {nbRt udpRt rt : Int}
    (hc : t.sys.listen fd backlog nbRt udpRt = .ok (rt, s')) : Steady t.sys s' := by
  unfold Wcp.listen at hc
  cases hf : t.sys.createPendingMap.find? fd with
  | none =>
    rw [hf] at hc
    cases hc
    exact .refl _
  | some id =>
    rw [hf] at hc
    dsimp only at hc
    split_ifs at hc
    · cases hc
      exact .refl _
    · cases hc
      exact .refl _
    · cases hc
      have hnone := (h.tables.pending_out id (KeyMap.mem_vals_of_find? hf)).2.2
      have hset : Steady t.sys (t.sys.setObj id { t.sys.obj id with
          backlogSize := u32 backlog, conn := { (t.sys.obj id).conn with state := .listen, isListener := true } }) :=
        .setObj rfl rfl (.inr hnone) rfl rfl fun lid hid => absurd hid (h.not_pending_of_active hf lid)
      exact hset.maps

theorem close (h : Accounts t) {rt : Int} (hs : t.sys.sparesPending (.close fd) = true)
    (hc : t.sys.close fd = .ok (rt, s')) : Steady t.sys s' := by
  unfold Wcp.close at hc
  cases hm : t.sys.wcbMap.find? fd with
  | some id =>
    rw [hm] at hc
    dsimp only at hc
    cases hw : Wawo.close (t.sys.obj id).conn with
    | error f => rw [hw] at hc; cases hc
    | ok c =>
      rw [hw] at hc
      cases hc
      exact .setConn fun lid hid => absurd hid (h.spared hm hs lid)
  | none =>
    rw [hm] at hc
    cases hf : t.sys.createPendingMap.find? fd with
    | none =>
      rw [hf] at hc
      cases hc
      exact .refl _
    | some id =>
      rw [hf] at hc
      dsimp only at hc
      cases hw : Wawo.close (t.sys.obj id).conn with
      | error f => rw [hw] at hc; cases hc
      | ok c =>
        rw [hw] at hc
        cases hc
        refine (Steady.setConn fun lid hid => ?_).maps
        exact absurd hid (h.not_pending_of_active hf lid)

/-- The calls on a connection queue no FIN, but for `shutdown`. -/
theorem untouched_call {e : Event} {w w' : Wcb} (hw : w.Untouched)
    (he : match e with | .send _ | .recv _ | .setfl _ => True | _ => False) (hs : step e w = .ok w') : w'.Untouched := by
  cases e with
  | send buffer =>
    obtain ⟨⟨rt, w'⟩, hc, rfl⟩ := map_eq_ok.1 hs
    unfold send at hc
    dsimp only at hc
    split_ifs at hc <;> cases hc <;> exact ⟨hw.state, ⟨hw.sender.noFin, hw.sender.writeShut⟩⟩
  | recv size =>
    obtain ⟨⟨rt, w'⟩, hc, rfl⟩ := map_eq_ok.1 hs
    unfold recv at hc
    split_ifs at hc <;> cases hc <;> exact hw.of_eq rfl rfl
  | setfl b =>
    cases hs
    exact hw.of_eq rfl rfl
  | _ => cases he

theorem call (h : Accounts t) {e : Event} (hs : t.sys.sparesPending (.call fd e) = true)
    (hc : t.sys.call fd e = .ok s') : Steady t.sys s' := by
  unfold Wcp.call at hc
  cases hm : t.sys.wcbMap.find? fd with
  | none =>
    rw [hm] at hc
    cases hc
    exact .refl _
  | some id =>
    rw [hm] at hc
    cases e with
    | send _ | recv _ | setfl _ =>
      dsimp only at hc
      split at hc
      · cases hc
      · rename_i w hw
        cases hc
        exact .setConn fun _ _ hu => untouched_call hu trivial hw
    | shutdown how =>
      dsimp only at hc
      split_ifs at hc
      · cases hc
        exact .refl _
      · cases hc
        refine .setConn fun lid hid hu => ?_
        cases how with
        | rd => exact hu.of_eq rfl rfl
        | wr | rdwr => exact absurd hid (h.spared hm hs lid)
    | _ =>
      cases hc
      exact .refl _

end Accounts

/-! ### What an event does to the accounts -/

inductive Counts (t : Counted) : Counted → Prop
  | steady (s : Wcp) (held : List Nat) (hs : Steady t.sys s) : Counts t { t with sys := s, held := held }
  | create (o : WcbObj) (pm : KeyMap Nat) (ho : Fresh t.sys o) (hp : o.passiveOpen = false) (hg : o.origin = none) :
      Counts t { t with sys := { t.sys.issue.alloc o with createPendingMap := pm } }
  -- a SYN is taken by a listener whose backlog is not full
  | make (s : Wcp) (lid : Nat) (r : AcceptRets) (p : WcbReceivedPack) (hk : KeepsObjs t.sys s) (hs : Steady t.sys s)
      (hl : lid ∈ s.wcbMap.vals) (hroom : ¬ BacklogFull s lid) : Counts t { t with sys := s.acceptSyn lid r p }
  | accept (lid id : Nat) (rest held : List Nat) (hq : (t.sys.obj lid).backlogq = id :: rest) :
      Counts t { t with
        sys := t.sys.setObj lid { t.sys.obj lid with backlogq := rest }
        accepted := Function.update t.accepted lid (t.accepted lid ++ [id]), held := held }
  | enqueue (lid id : Nat) (hid : id ∈ (t.sys.obj lid).backloglistPending) (hst : (t.sys.obj id).conn.state = .established) :
      Counts t { t with sys := t.sys.setObj lid { t.sys.obj lid with
        backlogq := (t.sys.obj lid).backlogq ++ [id], backloglistPending := (t.sys.obj lid).backloglistPending.erase id } }
  | drop (lid id : Nat) (w : Wcb) (hid : id ∈ (t.sys.obj lid).backloglistPending) :
      Counts t { t with
        sys := (t.sys.setConn id w).setObj lid { (t.sys.setConn id w).obj lid with
          backloglistPending := (t.sys.obj lid).backloglistPending.erase id }
        dropped := Function.update t.dropped lid (t.dropped lid ++ [id]) }

theorem Counts.quiet {e : SysEvent} (hn : t.note e = t) (hs : Steady t.sys s') : Counts t { t.note e with sys := s' } := by
  rw [hn]
  exact .steady s' t.held hs

theorem accept_counts (t : Counted) (fd : Nat) :
    Counts t { t.note (.accept fd) with sys := (t.sys.accept fd).2 } := by
  have hnote : t.note (.accept fd) =
      match t.sys.accepts fd with
      | none => t
      | some (lid, id) =>
        { t with
          accepted := Function.update t.accepted lid (t.accepted lid ++ [id])
          held := t.held ++ [(t.sys.obj id).fd] } := rfl
  rw [hnote]
  unfold Wcp.accepts Wcp.accept
  cases hm : t.sys.wcbMap.find? fd with
  | none => exact .steady _ _ (.refl _)
  | some lid =>
    dsimp only
    by_cases he : (t.sys.obj lid).conn.rcv.recvError = true ∨ (t.sys.obj lid).conn.rcv.localReadShutdowned = true
    · rw [if_pos he, if_pos he]
      exact .steady _ _ (.refl _)
    · rw [if_neg he, if_neg he]
      cases hq : (t.sys.obj lid).backlogq with
      | nil => exact .steady _ _ (.refl _)
      | cons id rest => exact .accept lid id rest _ hq

theorem settle_counts (hid : id ∈ (t.sys.obj lid).backloglistPending) (hl : t.sys.listening lid = true)
    (hs : t.sys.settlePending lid id = .ok s') : Counts t { t.note (.settle lid id) with sys := s' } := by
  have hnote : t.note (.settle lid id) = if t.sys.drops lid id then
      { t with dropped := Function.update t.dropped lid (t.dropped lid ++ [id]) } else t := rfl
  have hdrop : ∀ {x : WcbState}, (t.sys.obj id).conn.state = x →
      t.sys.drops lid id = decide (x = .closeWait ∨ x = .closed) := by
    rintro x rfl
    unfold Wcp.drops
    simp [hl, hid]
  have hclose : (t.sys.obj id).conn.state = .closeWait ∨ (t.sys.obj id).conn.state = .closed →
      t.sys.settlePending lid id = .ok s' → Counts t { t.note (.settle lid id) with sys := s' } := by
    intro hst hs
    rw [hnote, hdrop rfl, decide_eq_true hst, if_pos rfl]
    cases hc : Wawo.close (t.sys.obj id).conn with
    | error f =>
      unfold Wcp.settlePending at hs
      rcases hst with hst | hst
      all_goals
        rw [hst, hc] at hs
        cases hs
    | ok c =>
      unfold Wcp.settlePending at hs
      rcases hst with hst | hst
      all_goals
        rw [hst, hc] at hs
        cases hs
        exact .drop lid id c.2 hid
  have hsettle := hs
  unfold Wcp.settlePending at hs
  dsimp only at hs
  split at hs
  · rename_i hst
    split_ifs at hs
    cases hs
    rw [hnote, hdrop hst, if_neg (by decide)]
    exact .enqueue lid id hid hst
  · rename_i hst
    exact hclose (.inl hst) hsettle
  · rename_i hst
    exact hclose (.inr hst) hsettle
  · rename_i hst
    cases hs
    rw [hnote, hdrop hst, if_neg (by decide)]
    exact .steady _ _ (.refl _)
  · cases hs

theorem handleSyn_counts {r : AcceptRets} {p : WcbReceivedPack} (hk : KeepsObjs t.sys s) (hst : Steady t.sys s)
    (hl : lid ∈ s.wcbMap.vals) (hs : s.handleSyn lid r p = .ok s') : Counts t { t with sys := s' } := by
  rcases handleSyn_cases hs with ⟨rfl, -⟩ | ⟨rfl, -⟩ | ⟨rfl, -⟩ | ⟨rfl, hm, -⟩
  · exact .steady _ _ (hst.trans (.replyRst s lid p))
  · exact .steady _ _ hst
  · have hissue : Steady s s.issue := (Steady.refl s).maps
    exact .steady _ _ (hst.trans (hissue.trans (.replyRst s.issue lid p)))
  · exact .make s lid r p hk hst hl hm.room

/-- As long as no pending connection is closed, every event does one of these things. -/
theorem count_cases {e : SysEvent} (h : t.Accounts) (hspare : t.sys.sparesPending e = true) (hcount : count e t = .ok t') :
    Counts t t' := by
  obtain ⟨s', hs, rfl⟩ := map_eq_ok.1 hcount
  cases e with
  | socket openRt u now =>
    cases hs
    unfold Wcp.socket
    by_cases ho : openRt ≠ ok
    · rw [if_pos ho]
      exact .quiet rfl (.refl _)
    rw [if_neg ho]
    dsimp only
    split_ifs
    · exact .quiet rfl (Steady.refl t.sys).maps
    · exact .create _ _ ⟨rfl, rfl, rfl, rfl, nofun⟩ rfl rfl
  | bind fd addr rt =>
    cases hs
    exact .quiet rfl (.bind t.sys fd addr rt)
  | connect fd addr now nbRt =>
    obtain ⟨c, hc, rfl⟩ := map_eq_ok.1 hs
    exact .quiet rfl (h.connect hc)
  | listen fd backlog nbRt udpRt =>
    obtain ⟨c, hc, rfl⟩ := map_eq_ok.1 hs
    exact .quiet rfl (h.listen hc)
  | accept fd =>
    cases hs
    exact accept_counts t fd
  | close fd =>
    obtain ⟨c, hc, rfl⟩ := map_eq_ok.1 hs
    exact .steady _ _ (h.close hspare hc)
  | call fd e => exact .quiet rfl (h.call hspare hs)
  | arrive id p =>
    cases hs
    split_ifs
    · exact .quiet rfl (.setConn fun _ _ hu => hu.of_eq rfl rfl)
    · exact .quiet rfl (.refl _)
  | executeOp =>
    cases hs
    unfold Wcp.executeOp
    split
    · exact .quiet rfl (.refl _)
    · exact .quiet rfl (Steady.refl t.sys).maps
  | update id tick =>
    dsimp only [sysStep] at hs
    split_ifs at hs
    · unfold updateConn at hs
      split at hs
      · cases hs
      · rename_i w hw
        cases hs
        exact .quiet rfl (.setConn fun _ _ hu => hu.update hw)
    · cases hs
      exact .quiet rfl (.refl _)
  | handleSyn lid r =>
    dsimp only [sysStep] at hs
    split at hs
    · cases hs
      exact .quiet rfl (.refl _)
    · rename_i p rest _
      split_ifs at hs with hl
      · have hmem : lid ∈ t.sys.wcbMap.vals := (of_decide_eq_true hl.1).1
        let w : Wcb := { (t.sys.obj lid).conn with rcv := { (t.sys.obj lid).conn.rcv with receivedVecStandby := rest } }
        have hst : Steady t.sys (t.sys.setConn lid w) := .setConn fun _ _ hu => hu.of_eq rfl rfl
        exact handleSyn_counts (s := t.sys.setConn lid w) (.setConn (.of_eq rfl rfl)) hst hmem hs
      · cases hs
        exact .quiet rfl (.refl _)
  | settle lid id =>
    dsimp only [sysStep] at hs
    split_ifs at hs with hl
    · exact settle_counts hl.2 hl.1 hs
    · cases hs
      refine .quiet ?_ (.refl _)
      refine if_neg fun hd => hl ?_
      have hd := of_decide_eq_true hd
      exact ⟨hd.1, hd.2.1⟩
  | recycle id =>
    dsimp only [sysStep] at hs
    split_ifs at hs
    · unfold Wcp.recycle at hs
      dsimp only at hs
      split_ifs at hs
      all_goals
        cases hs
        exact .quiet rfl (Steady.refl t.sys).maps
    · cases hs
      exact .quiet rfl (.refl _)

/-! ### What every event keeps -/

namespace Accounts

/-- The connections of the listeners change places, and no new ones are pending. -/
theorem moved (h : t.Accounts) (ht : t'.sys.Tables) (hr : t'.sys.Registered) (ha : t'.sys.allocated = t.sys.allocated)
    (hobj : ∀ i, (t'.sys.obj i).origin = (t.sys.obj i).origin ∧ (t'.sys.obj i).passiveOpen = (t.sys.obj i).passiveOpen)
    (hplaces : ∀ l, (t'.places l).Perm (t.places l))
    (hroom : ∀ l, (t'.sys.obj l).backlogq.length + (t'.sys.obj l).backloglistPending.length ≤ (t'.sys.obj l).backlogSize)
    (hwait : ∀ l, ∀ i ∈ (t'.sys.obj l).backloglistPending, (t'.sys.obj i).conn.Untouched) : t'.Accounts := by
  refine ⟨ht, hr, ?_, ?_, hroom, hwait⟩
  · intro i hi
    rw [(hobj i).1, (hobj i).2]
    exact h.passive i (ha ▸ hi)
  · intro l
    rw [madeFor_congr ha fun i => (hobj i).1]
    exact (hplaces l).trans (h.split l)

theorem steady (h : t.Accounts) (hs : Steady t.sys s) (ht : s.Tables) (hr : s.Registered) (held : List Nat) :
    Accounts { t with sys := s, held := held } := by
  refine h.moved ht hr hs.allocated (fun i => ⟨hs.origin i, hs.passive i⟩) (fun l => ?_) (fun l => ?_) fun l i hi => ?_
  · show ((s.obj l).backlogq ++ t.accepted l ++ t.dropped l ++ (s.obj l).backloglistPending).Perm _
    rw [hs.backlogq, hs.pending]
    exact .refl _
  · show (s.obj l).backlogq.length + (s.obj l).backloglistPending.length ≤ (s.obj l).backlogSize
    rw [hs.backlogq, hs.pending]
    rcases hs.size l with he | he
    · rw [he]
      exact h.room l
    · obtain ⟨hq, hp⟩ := List.append_eq_nil_iff.1 he
      rw [hq, hp]
      exact Nat.zero_le _
  · have hi : i ∈ (s.obj l).backloglistPending := hi
    rw [hs.pending] at hi
    exact hs.untouched l i hi (h.waiting l i hi)

/-- No connection was made for a listener that is not there yet. -/
theorem places_allocated (h : t.Accounts) : t.places t.sys.allocated = [] := by
  refine List.eq_nil_iff_forall_not_mem.2 fun i hi => ?_
  obtain ⟨hlt, a, ho⟩ := h.made hi
  exact Nat.lt_irrefl _ (h.registered.accepted i hlt _ a ho).lt

/-- A new control block brings no connection with it. -/
theorem places_alloc {o : WcbObj} (h : t.Accounts) (ho : Fresh t.sys o) (l : Nat) :
    ((t.sys.issue.alloc o).obj l).backlogq ++ t.accepted l ++ t.dropped l ++
      ((t.sys.issue.alloc o).obj l).backloglistPending = t.places l := by
  by_cases hl : l = t.sys.allocated
  · subst hl
    have hnil := h.places_allocated
    rw [alloc_obj_self, ho.backlogq, ho.pending, hnil]
    unfold Counted.places at hnil
    obtain ⟨hnil, -⟩ := List.append_eq_nil_iff.1 hnil
    obtain ⟨hnil, hdropped⟩ := List.append_eq_nil_iff.1 hnil
    rw [hdropped, (List.append_eq_nil_iff.1 hnil).2]
    rfl
  · rw [alloc_obj_of_ne o hl]
    rfl

theorem room_alloc {o : WcbObj} (h : t.Accounts) (ho : Fresh t.sys o) (l : Nat) :
    ((t.sys.issue.alloc o).obj l).backlogq.length + ((t.sys.issue.alloc o).obj l).backloglistPending.length ≤
      ((t.sys.issue.alloc o).obj l).backlogSize := by
  by_cases hl : l = t.sys.allocated
  · subst hl
    rw [alloc_obj_self, ho.backlogq, ho.pending]
    exact Nat.zero_le _
  · rw [alloc_obj_of_ne o hl]
    exact h.room l

theorem passive_alloc {o : WcbObj} (h : t.Accounts) (ho : o.passiveOpen = o.origin.isSome) {i : Nat}
    (hi : i < t.sys.allocated + 1) :
    ((t.sys.issue.alloc o).obj i).passiveOpen = ((t.sys.issue.alloc o).obj i).origin.isSome := by
  rcases Nat.lt_succ_iff_lt_or_eq.1 hi with hi | rfl
  · rw [alloc_obj_of_lt o hi]
    exact h.passive i hi
  · rw [alloc_obj_self]
    exact ho

/-- What was pending before is untouched behind the allocation, too. -/
theorem waiting_alloc {o : WcbObj} {l i : Nat} (h : t.Accounts) (hi : i ∈ (t.sys.obj l).backloglistPending) :
    ((t.sys.issue.alloc o).obj i).conn.Untouched := by
  rw [alloc_obj_of_lt o (h.made_of_pending hi).1]
  exact h.waiting l i hi

theorem create {o : WcbObj} {pm : KeyMap Nat} (h : t.Accounts) (ho : Fresh t.sys o) (hp : o.passiveOpen = false)
    (hg : o.origin = none) (ht : Tables { t.sys.issue.alloc o with createPendingMap := pm })
    (hr : Registered { t.sys.issue.alloc o with createPendingMap := pm }) :
    Accounts { t with sys := { t.sys.issue.alloc o with createPendingMap := pm } } := by
  refine ⟨ht, hr, fun i hi => h.passive_alloc (by rw [hp, hg]; rfl) hi, fun l => ?_, h.room_alloc ho, fun l i hi => ?_⟩
  · show (((t.sys.issue.alloc o).obj l).backlogq ++ t.accepted l ++ t.dropped l ++
      ((t.sys.issue.alloc o).obj l).backloglistPending).Perm ((t.sys.issue.alloc o).madeFor l)
    rw [h.places_alloc ho, madeFor_alloc, hg, if_neg (by exact nofun), List.append_nil]
    exact h.split l
  · have hi : i ∈ ((t.sys.issue.alloc o).obj l).backloglistPending := hi
    by_cases hl : l = t.sys.allocated
    · subst hl
      rw [alloc_obj_self, ho.pending] at hi
      cases hi
    · rw [alloc_obj_of_ne o hl] at hi
      exact h.waiting_alloc hi

/-- The listener takes a SYN while its backlog is not full. -/
theorem make {r : AcceptRets} {p : WcbReceivedPack} (h : t.Accounts) (hl : lid ∈ t.sys.wcbMap.vals)
    (hroom : ¬ BacklogFull t.sys lid) (ht : (t.sys.acceptSyn lid r p).Tables) (hr : (t.sys.acceptSyn lid r p).Registered) :
    Accounts { t with sys := t.sys.acceptSyn lid r p } := by
  let o := t.sys.passiveObj lid r p
  have ho : Fresh t.sys o := ⟨rfl, rfl, rfl, rfl, nofun⟩
  have hlt : lid < t.sys.allocated := by
    obtain ⟨k, hk⟩ := KeyMap.mem_vals.1 hl
    exact (h.tables.mapKey _ hk).1
  have hself : (t.sys.acceptSyn lid r p).obj lid =
      { t.sys.obj lid with backloglistPending := (t.sys.obj lid).backloglistPending ++ [t.sys.allocated] } := by
    rw [acceptSyn_obj_self, alloc_obj_of_lt _ hlt]
  have hother : ∀ {i}, i ≠ lid → (t.sys.acceptSyn lid r p).obj i = (t.sys.issue.alloc o).obj i := acceptSyn_obj_of_ne
  have hkeep : ∀ i, ((t.sys.acceptSyn lid r p).obj i).origin = ((t.sys.issue.alloc o).obj i).origin ∧
      ((t.sys.acceptSyn lid r p).obj i).passiveOpen = ((t.sys.issue.alloc o).obj i).passiveOpen ∧
      ((t.sys.acceptSyn lid r p).obj i).conn = ((t.sys.issue.alloc o).obj i).conn := by
    intro i
    by_cases he : i = lid
    · subst he
      rw [hself, alloc_obj_of_lt _ hlt]
      exact ⟨rfl, rfl, rfl⟩
    · rw [hother he]
      exact ⟨rfl, rfl, rfl⟩
  refine ⟨ht, hr, fun i hi => ?_, fun l => ?_, fun l => ?_, fun l i hi => ?_⟩
  · show ((t.sys.acceptSyn lid r p).obj i).passiveOpen = ((t.sys.acceptSyn lid r p).obj i).origin.isSome
    rw [(hkeep i).1, (hkeep i).2.1]
    exact h.passive_alloc rfl hi
  · show (((t.sys.acceptSyn lid r p).obj l).backlogq ++ t.accepted l ++ t.dropped l ++
      ((t.sys.acceptSyn lid r p).obj l).backloglistPending).Perm ((t.sys.acceptSyn lid r p).madeFor l)
    have hmade : (t.sys.acceptSyn lid r p).madeFor l = (t.sys.issue.alloc o).madeFor l := madeFor_congr rfl fun i => (hkeep i).1
    have horigin : o.origin.map Prod.fst = some lid := rfl
    rw [hmade, madeFor_alloc, horigin]
    by_cases he : l = lid
    · subst he
      rw [hself, ← List.append_assoc, if_pos rfl]
      exact (h.split l).append_right _
    · rw [hother he, h.places_alloc ho, if_neg fun hs => he (Option.some.inj hs).symm, List.append_nil]
      exact h.split l
  · show ((t.sys.acceptSyn lid r p).obj l).backlogq.length + ((t.sys.acceptSyn lid r p).obj l).backloglistPending.length ≤
      ((t.sys.acceptSyn lid r p).obj l).backlogSize
    by_cases he : l = lid
    · subst he
      rw [hself]
      have hle := h.room l
      unfold BacklogFull at hroom
      simp only [List.length_append, List.length_singleton]
      omega
    · rw [hother he]
      exact h.room_alloc ho l
  · show ((t.sys.acceptSyn lid r p).obj i).conn.Untouched
    have hi : i ∈ ((t.sys.acceptSyn lid r p).obj l).backloglistPending := hi
    rw [(hkeep i).2.2]
    have hnew : ((t.sys.issue.alloc o).obj t.sys.allocated).conn.Untouched := by
      rw [alloc_obj_self]
      refine ⟨rfl, ⟨fun q hq => ?_, rfl⟩⟩
      cases hq
    by_cases he : l = lid
    · subst he
      rw [hself] at hi
      rcases List.mem_append.1 hi with hi | hi
      · exact h.waiting_alloc hi
      · rw [List.mem_singleton.1 hi]
        exact hnew
    · rw [hother he] at hi
      by_cases hl : l = t.sys.allocated
      · subst hl
        rw [alloc_obj_self] at hi
        cases hi
      · rw [alloc_obj_of_ne o hl] at hi
        exact h.waiting_alloc hi

theorem accept {rest held : List Nat} (h : t.Accounts) (hq : (t.sys.obj lid).backlogq = id :: rest)
    (ht : (t.sys.setObj lid { t.sys.obj lid with backlogq := rest }).Tables)
    (hr : (t.sys.setObj lid { t.sys.obj lid with backlogq := rest }).Registered) :
    Accounts { t with
      sys := t.sys.setObj lid { t.sys.obj lid with backlogq := rest }
      accepted := Function.update t.accepted lid (t.accepted lid ++ [id]), held := held } := by
  refine h.moved ht hr rfl ?_ ?_ ?_ ?_
  · exact forall_setObj (P := fun i x => x.origin = (t.sys.obj i).origin ∧ x.passiveOpen = (t.sys.obj i).passiveOpen)
      ⟨rfl, rfl⟩ fun _ _ => ⟨rfl, rfl⟩
  · refine forall_setObj (P := fun l x => (x.backlogq ++ Function.update t.accepted lid (t.accepted lid ++ [id]) l ++
      t.dropped l ++ x.backloglistPending).Perm (t.places l)) ?_ fun l he => ?_
    · rw [Function.update_self]
      refine List.perm_iff_count.2 fun x => ?_
      unfold places
      simp only [hq, List.count_append, List.count_cons, List.count_nil]
      omega
    · rw [Function.update_of_ne he]
      exact .refl _
  · refine forall_setObj (P := fun _ x => x.backlogq.length + x.backloglistPending.length ≤ x.backlogSize) ?_ fun l _ => h.room l
    have hle := h.room lid
    rw [hq, List.length_cons] at hle
    dsimp only
    omega
  · intro l i hi
    show ((t.sys.setObj lid { t.sys.obj lid with backlogq := rest }).obj i).conn.Untouched
    rw [setObj_conn (by rfl)]
    refine h.waiting l i (pending_of_setObj ?_ hi)
    exact fun _ hi => hi

/-- An established connection goes from one list to the other. -/
theorem enqueue (h : t.Accounts) (hid : id ∈ (t.sys.obj lid).backloglistPending) {o : WcbObj}
    (ho : o = { t.sys.obj lid with
      backlogq := (t.sys.obj lid).backlogq ++ [id], backloglistPending := (t.sys.obj lid).backloglistPending.erase id })
    (ht : (t.sys.setObj lid o).Tables) (hr : (t.sys.setObj lid o).Registered) :
    Accounts { t with sys := t.sys.setObj lid o } := by
  have hperm := List.perm_cons_erase hid
  subst ho
  refine h.moved ht hr rfl ?_ ?_ ?_ ?_
  · exact forall_setObj (P := fun i x => x.origin = (t.sys.obj i).origin ∧ x.passiveOpen = (t.sys.obj i).passiveOpen)
      ⟨rfl, rfl⟩ fun _ _ => ⟨rfl, rfl⟩
  · refine forall_setObj (P := fun l x => (x.backlogq ++ t.accepted l ++ t.dropped l ++ x.backloglistPending).Perm (t.places l))
      ?_ fun l _ => .refl _
    refine List.perm_iff_count.2 fun x => ?_
    have hcount := hperm.count_eq x
    unfold places
    simp only [List.count_append, List.count_cons, List.count_nil] at hcount ⊢
    omega
  · refine forall_setObj (P := fun _ x => x.backlogq.length + x.backloglistPending.length ≤ x.backlogSize) ?_ fun l _ => h.room l
    have hle := h.room lid
    have hlen := hperm.length_eq
    simp only [List.length_append, List.length_cons, List.length_nil] at hlen ⊢
    omega
  · intro l i hi
    dsimp only
    rw [setObj_conn (by rfl)]
    exact h.waiting l i (pending_of_setObj (fun _ hi => List.mem_of_mem_erase hi) hi)

/-- A connection that is closed leaves the list. -/
theorem drop {w : Wcb} (h : t.Accounts) (hid : id ∈ (t.sys.obj lid).backloglistPending) {o : WcbObj}
    (ho : o = { (t.sys.setConn id w).obj lid with backloglistPending := (t.sys.obj lid).backloglistPending.erase id })
    (ht : ((t.sys.setConn id w).setObj lid o).Tables) (hr : ((t.sys.setConn id w).setObj lid o).Registered) :
    Accounts { t with
      sys := (t.sys.setConn id w).setObj lid o
      dropped := Function.update t.dropped lid (t.dropped lid ++ [id]) } := by
  have hperm := List.perm_cons_erase hid
  have hconn : ∀ i, ∃ v, (t.sys.setConn id w).obj i = { t.sys.obj i with conn := v } ∧ (i ≠ id → v = (t.sys.obj i).conn) :=
    forall_setObj (P := fun i x => ∃ v, x = { t.sys.obj i with conn := v } ∧ (i ≠ id → v = (t.sys.obj i).conn))
      ⟨w, rfl, fun he => absurd rfl he⟩ fun i _ => ⟨_, rfl, fun _ => rfl⟩
  have hself : ∃ v, o = { t.sys.obj lid with
      conn := v, backloglistPending := (t.sys.obj lid).backloglistPending.erase id } ∧ (lid ≠ id → v = (t.sys.obj lid).conn) := by
    obtain ⟨v, hv, hne⟩ := hconn lid
    exact ⟨v, by rw [ho, hv], hne⟩
  refine h.moved ht hr rfl ?_ ?_ ?_ ?_
  · refine forall_setObj (P := fun i x => x.origin = (t.sys.obj i).origin ∧ x.passiveOpen = (t.sys.obj i).passiveOpen)
      ?_ fun i _ => ?_
    · obtain ⟨v, hv, -⟩ := hself
      rw [hv]
      exact ⟨rfl, rfl⟩
    · obtain ⟨v, hv, -⟩ := hconn i
      rw [hv]
      exact ⟨rfl, rfl⟩
  · refine forall_setObj (P := fun l x => (x.backlogq ++ t.accepted l ++
      Function.update t.dropped lid (t.dropped lid ++ [id]) l ++ x.backloglistPending).Perm (t.places l)) ?_ fun l he => ?_
    · obtain ⟨v, hv, -⟩ := hself
      rw [hv, Function.update_self]
      refine List.perm_iff_count.2 fun x => ?_
      have hcount := hperm.count_eq x
      unfold places
      simp only [List.count_append, List.count_cons, List.count_nil] at hcount ⊢
      omega
    · obtain ⟨v, hv, -⟩ := hconn l
      rw [hv, Function.update_of_ne he]
      exact .refl _
  · refine forall_setObj (P := fun _ x => x.backlogq.length + x.backloglistPending.length ≤ x.backlogSize) ?_ fun l _ => ?_
    · obtain ⟨v, hv, -⟩ := hself
      have hle := h.room lid
      have hlen := hperm.length_eq
      rw [hv]
      simp only [List.length_cons] at hlen ⊢
      omega
    · obtain ⟨v, hv, -⟩ := hconn l
      rw [hv]
      exact h.room l
  · -- the connection dropped was pending once, and at this listener only
    intro l i hi
    have hi : i ∈ (t.sys.obj l).backloglistPending ∧ i ≠ id := by
      refine forall_setObj (P := fun l x => i ∈ x.backloglistPending → i ∈ (t.sys.obj l).backloglistPending ∧ i ≠ id)
        ?_ (fun l hl hi => ?_) l hi
      · obtain ⟨v, hv, -⟩ := hself
        rw [hv]
        have hnodup : (t.sys.obj lid).backloglistPending.Nodup := (List.nodup_append.1 (h.nodup lid)).2.1
        intro hi
        exact ((hnodup.mem_erase_iff).1 hi).symm
      · obtain ⟨v, hv, -⟩ := hconn l
        rw [hv] at hi
        refine ⟨hi, fun he => hl ?_⟩
        obtain ⟨-, a, ho⟩ := h.made_of_pending hi
        obtain ⟨-, a', ho'⟩ := h.made_of_pending hid
        rw [he, ho'] at ho
        cases ho
        rfl
    have hkeep : ∀ i, i ≠ id → (((t.sys.setConn id w).setObj lid o).obj i).conn = (t.sys.obj i).conn := by
      refine forall_setObj (P := fun i x => i ≠ id → x.conn = (t.sys.obj i).conn) (fun hne => ?_) fun i _ hne => ?_
      · obtain ⟨v, hv, hcv⟩ := hself
        rw [hv]
        exact hcv hne
      · obtain ⟨v, hv, hcv⟩ := hconn i
        rw [hv]
        exact hcv hne
    show (((t.sys.setConn id w).setObj lid o).obj i).conn.Untouched
    rw [hkeep i hi.2]
    exact h.waiting l i hi.1

theorem step (h : t.Accounts) (hs : Counts t t') (ht : t'.sys.Tables) (hr : t'.sys.Registered) : t'.Accounts := by
  cases hs with
  | steady s held hs => exact h.steady hs ht hr held
  | create o pm ho hp hg => exact h.create ho hp hg ht hr
  | make s lid r p hk hs hl hroom =>
    have hsteady := h.steady hs (h.tables.keep hk) (h.registered.keep hk) t.held
    exact hsteady.make hl hroom ht hr
  | accept lid id rest held hq => exact h.accept hq ht hr
  | enqueue lid id hid hst => exact h.enqueue hid rfl ht hr
  | drop lid id w hid => exact h.drop hid rfl ht hr

theorem start (u : Uninit) : (Counted.start u).Accounts :=
  ⟨.start u, .start u, fun _ hi => absurd hi (Nat.not_lt_zero _), fun _ => .refl _, fun _ => Nat.zero_le _, nofun⟩

/-- The listener's loop does not throw. -/
theorem settles (h : t.Accounts) (lid id : Nat) : sysStep (.settle lid id) t.sys ≠ .error .pendingState := by
  intro hs
  dsimp only [sysStep] at hs
  split_ifs at hs with hl
  have hst := (h.waiting lid id hl.2).state
  unfold Wcp.settlePending at hs
  dsimp only at hs
  split at hs
  · split_ifs at hs
    cases hs
  · split at hs <;> cases hs
  · split at hs <;> cases hs
  · cases hs
  · rename_i h1 h2 h3 h4
    generalize (t.sys.obj id).conn.state = x at h1 h2 h3 h4 hst
    cases x with
    | established => exact h1 rfl
    | closeWait => exact h2 rfl
    | closed => exact h3 rfl
    | synReceived => exact h4 rfl
    | _ => cases hst

end Accounts

/-! ### Who has been established -/

theorem mem_backlogq_alloc {o : WcbObj} (ho : Fresh s o) (hid : id ∈ ((s.issue.alloc o).obj lid).backlogq) :
    id ∈ (s.obj lid).backlogq := by
  by_cases hl : lid = s.allocated
  · subst hl
    rw [alloc_obj_self, ho.backlogq] at hid
    cases hid
  · rwa [alloc_obj_of_ne o hl] at hid

theorem mem_backlogq_acceptSyn {r : AcceptRets} {p : WcbReceivedPack} {l : Nat}
    (hid : id ∈ ((s.acceptSyn l r p).obj lid).backlogq) : id ∈ (s.obj lid).backlogq := by
  have ho : Fresh s (s.passiveObj l r p) := ⟨rfl, rfl, rfl, rfl, nofun⟩
  refine mem_backlogq_alloc ho ?_
  by_cases hl : lid = l
  · subst hl
    rwa [acceptSyn_obj_self] at hid
  · rwa [acceptSyn_obj_of_ne hl] at hid

/-- The connection has been in `WCB_ESTABLISHED` by the time the events `es` are over. -/
def WasEstablished (u : Uninit) (es : List SysEvent) (id : Nat) : Prop :=
  ∃ es₁ es₂ s, es = es₁ ++ es₂ ∧ exec sysStep es₁ (Wcp.start u) = .ok s ∧ (s.obj id).conn.state = .established

theorem WasEstablished.append {u : Uninit} {es es' : List SysEvent} (h : WasEstablished u es id) :
    WasEstablished u (es ++ es') id := by
  obtain ⟨es₁, es₂, s, rfl, hs, hst⟩ := h
  exact ⟨es₁, es₂ ++ es', s, List.append_assoc .., hs, hst⟩

/-- A connection comes into `backlogq` when it is established, and `accept` returns it from there. -/
theorem Counts.queue (hs : Counts t t') (hid : id ∈ (t'.sys.obj lid).backlogq ∨ id ∈ t'.accepted lid) :
    (id ∈ (t.sys.obj lid).backlogq ∨ id ∈ t.accepted lid) ∨ (t.sys.obj id).conn.state = .established := by
  cases hs with
  | steady s held hs =>
    rw [hs.backlogq] at hid
    exact .inl hid
  | create o pm ho hp hg => exact .inl (hid.imp_left (mem_backlogq_alloc ho))
  | make s lid' r p hk hs hl hroom =>
    refine .inl (hid.imp_left fun hid => ?_)
    rw [← hs.backlogq]
    exact mem_backlogq_acceptSyn hid
  | accept lid' id' rest held hq =>
    refine .inl (forall_setObj (P := fun l x =>
      id ∈ x.backlogq ∨ id ∈ Function.update t.accepted lid' (t.accepted lid' ++ [id']) l →
        id ∈ (t.sys.obj l).backlogq ∨ id ∈ t.accepted l) ?_ (fun l hl hid => ?_) lid hid)
    · rw [Function.update_self, hq]
      rintro (hid | hid)
      · exact .inl (List.mem_cons_of_mem _ hid)
      · rcases List.mem_append.1 hid with hid | hid
        · exact .inr hid
        · rw [List.mem_singleton.1 hid]
          exact .inl List.mem_cons_self
    · rwa [Function.update_of_ne hl] at hid
  | enqueue lid' id' hid' hst =>
    refine forall_setObj (P := fun l x => id ∈ x.backlogq ∨ id ∈ t.accepted l →
      (id ∈ (t.sys.obj l).backlogq ∨ id ∈ t.accepted l) ∨ (t.sys.obj id).conn.state = .established) ?_
      (fun _ _ hid => .inl hid) lid hid
    rintro (hid | hid)
    · rcases List.mem_append.1 hid with hid | hid
      · exact .inl (.inl hid)
      · rw [List.mem_singleton.1 hid]
        exact .inr hst
    · exact .inl (.inr hid)
  | drop lid' id' w hid' =>
    refine .inl (hid.imp_left fun hid => ?_)
    have hconn : ∀ l, ((t.sys.setConn id' w).obj l).backlogq = (t.sys.obj l).backlogq :=
      forall_setObj (P := fun l x => x.backlogq = (t.sys.obj l).backlogq) rfl fun _ _ => rfl
    refine forall_setObj (P := fun l x => id ∈ x.backlogq → id ∈ (t.sys.obj l).backlogq) ?_ (fun l _ => ?_) lid hid
    · rw [hconn lid']
      exact fun hid => hid
    · rw [hconn l]
      exact fun hid => hid

/-! ### Runs -/

/-- What `accept` returns. -/
theorem accepts_eq (h : s.accepts fd = some (lid, id)) :
    ∃ rest, (s.obj lid).backlogq = id :: rest ∧ (s.accept fd).1 = (s.obj id).fd := by
  unfold Wcp.accepts at h
  unfold Wcp.accept
  cases hm : s.wcbMap.find? fd with
  | none => rw [hm] at h; cases h
  | some lid' =>
    rw [hm] at h
    dsimp only at h ⊢
    split_ifs at h with he
    rw [if_neg he]
    cases hq : (s.obj lid').backlogq with
    | nil => rw [hq] at h; cases h
    | cons id' rest =>
      rw [hq] at h
      cases h
      exact ⟨rest, hq, rfl⟩

/-- No `close` and no `shutdown` of the writing side reaches a connection that is still pending. -/
def Spares (t : Counted) (e : SysEvent) : Prop := t.sys.sparesPending e = true

theorem exec_of_run {C : Counted → SysEvent → Prop} {t₀ : Counted} {es : List SysEvent} (h : Run count C t₀ es t) :
    exec sysStep es t₀.sys = .ok t.sys := by
  induction h with
  | nil => rfl
  | cons _ hf _ ih =>
    obtain ⟨s, hs, rfl⟩ := map_eq_ok.1 hf
    rw [exec_cons hs]
    exact ih

/-- What a listener does with its connections. -/
structure Sound (u : Uninit) (es : List SysEvent) (t : Counted) : Prop where
  room : ∀ lid, (t.sys.obj lid).backlogq.length + (t.sys.obj lid).backloglistPending.length ≤ (t.sys.obj lid).backlogSize
  made : ∀ id < t.sys.allocated, (t.sys.obj id).passiveOpen = true → ∃ lid a, (t.sys.obj id).origin = some (lid, a)
  -- each connection of the listener is in one place, and in one place only
  placed : ∀ lid id, id ∈ t.places lid ↔ id < t.sys.allocated ∧ ∃ a, (t.sys.obj id).origin = some (lid, a)
  once : ∀ lid, (t.places lid).Nodup
  established : ∀ lid id, id ∈ (t.sys.obj lid).backlogq ∨ id ∈ t.accepted lid → WasEstablished u es id
  -- what `accept` is about to return was established and has not been returned before
  accepts : ∀ fd lid id, t.sys.accepts fd = some (lid, id) →
    (t.sys.accept fd).1 = (t.sys.obj id).fd ∧ id ∉ t.accepted lid ∧ WasEstablished u es id
  settles : ∀ lid id, sysStep (.settle lid id) t.sys ≠ .error .pendingState

/-- As long as no `close` or `shutdown` reaches a pending connection: the backlog of a listener never
outgrows its size; every connection that a listener makes is pending, in the queue, accepted or dropped, and
never two of these; it is accepted at most once and only when it has been established; and the loop over the
pending connections does not throw. -/
theorem backlog_accounts {u : Uninit} {es : List SysEvent} (h : Run count Spares (start u) es t) : Sound u es t := by
  have hrun : ∀ {es t}, Run count Spares (start u) es t → Accounts t := fun h =>
    h.inv Accounts (fun t e t' hi hc hs => by
      obtain ⟨s', hs', rfl⟩ := map_eq_ok.1 hs
      obtain ⟨ht, hr⟩ := (sysStep_cases hs').registered ⟨hi.tables, hi.registered⟩
      exact hi.step (count_cases hi hc hs) ht hr) (.start u)
  have hacc := hrun h
  have hest : ∀ lid id, id ∈ (t.sys.obj lid).backlogq ∨ id ∈ t.accepted lid → WasEstablished u es id := by
    refine h.inv_trace (u := start u) (fun es t => ∀ lid id, id ∈ (t.sys.obj lid).backlogq ∨ id ∈ t.accepted lid →
      WasEstablished u es id) ?_ (fun lid id hid => by rcases hid with hid | hid <;> cases hid)
    intro es t e t' hi hc hs hpre lid id hid
    rcases (count_cases (hrun hpre) hc hs).queue hid with hid | hst
    · exact (hi lid id hid).append
    · exact ⟨es, [e], t.sys, rfl, exec_of_run hpre, hst⟩
  refine ⟨hacc.room, fun id hid hp => ?_, fun lid id => (hacc.split lid).mem_iff.trans mem_madeFor, hacc.nodup, hest, ?_,
    hacc.settles⟩
  · have hsome := hacc.passive id hid
    rw [hp] at hsome
    obtain ⟨⟨lid, a⟩, ho⟩ := Option.isSome_iff_exists.1 hsome.symm
    exact ⟨lid, a, ho⟩
  · intro fd lid id hfd
    obtain ⟨rest, hq, hrt⟩ := accepts_eq hfd
    have hmem : id ∈ (t.sys.obj lid).backlogq := by
      rw [hq]
      exact List.mem_cons_self
    refine ⟨hrt, fun hid => ?_, hest lid id (.inl hmem)⟩
    exact (List.nodup_append.1 (List.nodup_append.1 (List.nodup_append.1 (hacc.nodup lid)).1).1).2.2 id hmem id hid rfl

/-! ### A connection with another one's descriptor

A user has accepted a connection. While it is open, its remote sends its SYN 2047 times more; each copy costs
a descriptor, and the next connection gets the descriptor of the first. The user accepts it, too, and has
two connections with one descriptor, which leads to the first. He closes the first; when another 2047
descriptors have been issued, his second one leads to a connection that is still pending, and he closes it. -/

/-- The second pack of a remote's handshake. -/
def ackFrom (a : Address) : WcbReceivedPack := ⟨(Datagram.fresh 1 .ack [] (Nat.zero_le _)).stamp 1 (2 * wcpRcvBufferMin), a⟩

/-- The remote at `a` connects, and its connection `id` is accepted. -/
def connection (a : Address) (id : Nat) : List SysEvent :=
  synRound a ++ [.executeOp, .update id (.at 1), .arrive id (ackFrom a), .update id (.at 2), .settle 0 id, .accept (fdOf 0)]

/-- A listener at 127.0.0.1, port 80, and its first connection, with 127.0.0.2. -/
def firstConnection : List SysEvent :=
  bindAt ⟨0x0100007F5000⟩ ++ [.listen (fdOf 0) 5 ok ok] ++ connection ⟨0x0200007F5000⟩ 1

/-- The state after the events. -/
def after (es : List SysEvent) (t : Counted) : Counted :=
  match exec count es t with
  | .ok t' => t'
  | .error _ => t

theorem run_after {P : Counted → SysEvent → Bool} {es : List SysEvent} (h : passes count P (fun _ => true) es t = true) :
    Run count (fun t e => P t e = true) t es (t.after es) := by
  obtain ⟨t', hrun, -⟩ := Run.of_passes es h
  unfold after
  rw [hrun.exec_eq]
  exact hrun

/-- The connection is accepted and then closed. -/
theorem backlog_accounts_firstConnection :
    Run count Spares (start ⟨0, 0, 0, 0⟩) (firstConnection ++ [.close (fdOf 1)])
      ((start ⟨0, 0, 0, 0⟩).after (firstConnection ++ [.close (fdOf 1)])) ∧
    Sound ⟨0, 0, 0, 0⟩ (firstConnection ++ [.close (fdOf 1)])
      ((start ⟨0, 0, 0, 0⟩).after (firstConnection ++ [.close (fdOf 1)])) ∧
    ((start ⟨0, 0, 0, 0⟩).after (firstConnection ++ [.close (fdOf 1)])).accepted 0 = [1] := by
  have hrun : Run count Spares (start ⟨0, 0, 0, 0⟩) (firstConnection ++ [.close (fdOf 1)])
      ((start ⟨0, 0, 0, 0⟩).after (firstConnection ++ [.close (fdOf 1)])) :=
    run_after (P := fun t e => t.sys.sparesPending e) (by decide +kernel)
  exact ⟨hrun, backlog_accounts hrun, by decide +kernel⟩

/-- The listener number 0 refuses a SYN from `a` for the sake of an earlier one. -/
def Refuses (s : Wcp) (a : Address) : Prop :=
  s.watched 0 = true ∧ s.listening 0 = true ∧ (s.obj 0).conn.rcv.localReadShutdowned = false ∧
    (s.obj 0).conn.rcv.receivedVecStandby.isEmpty = true ∧
    (s.obj 0).backlogq.length + (s.obj 0).backloglistPending.length ≠ (s.obj 0).backlogSize ∧
    fourTupleHash (s.obj 0).localAddr a ≠ 0 ∧ s.fourTupleMap.length < wcpFdMax ∧
    (s.fourTupleMap.find? (fourTupleHash (s.obj 0).localAddr a)).isSome = true

instance (s : Wcp) (a : Address) : Decidable (Refuses s a) := inferInstanceAs (Decidable (_ ∧ _))

/-- The state when it has refused it `n` times. -/
def refusing (s : Wcp) (a : Address) (n : Nat) : Wcp :=
  { s with
    autoIncrementId := s.autoIncrementId + BitVec.ofNat 32 n, issued := s.issued + n
    obj := Function.update s.obj 0 { s.obj 0 with
      rsts := (s.obj 0).rsts ++ List.replicate n (a, .fresh (synFrom a).header.ack .rst [] (Nat.zero_le _)) } }

theorem refusing_zero (s : Wcp) (a : Address) : refusing s a 0 = s := by
  unfold refusing
  rw [List.replicate_zero, List.append_nil, Function.update_eq_self, BitVec.add_zero]
  rfl

theorem refusing_succ (s : Wcp) (a : Address) (n : Nat) :
    (refusing s a n).issue.replyRst 0 (synFrom a) = refusing s a (n + 1) := by
  have hrsts : ∀ x : Address × Datagram, List.replicate (n + 1) x = List.replicate n x ++ [x] := fun x =>
    List.replicate_succ'
  have hcounter : s.autoIncrementId + BitVec.ofNat 32 n + 1 = s.autoIncrementId + BitVec.ofNat 32 (n + 1) := by
    rw [BitVec.ofNat_add, BitVec.add_assoc]
    rfl
  unfold Wcp.replyRst Wcp.issue Wcp.setObj refusing
  dsimp only
  rw [Function.update_self, Function.update_idem, hcounter, hrsts, ← List.append_assoc]
  rfl

theorem Refuses.refusing {a b : Address} (h : Refuses s a) (n : Nat) : Refuses (refusing s b n) a := by
  have hobj : (Counted.refusing s b n).obj 0 = { s.obj 0 with
      rsts := (s.obj 0).rsts ++ List.replicate n (b, .fresh (synFrom b).header.ack .rst [] (Nat.zero_le _)) } := by
    unfold Counted.refusing
    dsimp only
    rw [Function.update_self]
  unfold Refuses Wcp.listening at h ⊢
  rw [hobj]
  exact h

theorem Refuses.exec {a : Address} (h : Refuses s a) : exec sysStep (synRound a) s = .ok (s.issue.replyRst 0 (synFrom a)) := by
  obtain ⟨hw, hl, hr, hs, hroom, hz, hmany, hf⟩ := h
  rw [exec_synRound hw hl hr (List.isEmpty_iff.1 hs)]
  have hneg : eAddrinuse < 0 := by decide
  refine MakesWcb.handleSyn_refused (m := s.fourTupleMap) (makesWcb_synFrom hroom) ?_ hneg
  have hfrom : (synFrom a).fromAddr = a := rfl
  unfold Wcp.addToFourTupleHashMap
  rw [hfrom, if_neg hz, if_neg (Nat.not_le_of_lt hmany), if_pos hf]

/-- What a run of events that the record does not mention comes to. -/
theorem run_of_exec {es : List SysEvent} (hes : ∀ e ∈ es, ∀ t : Counted, t.note e = t ∧ t.owned e = true)
    (h : exec sysStep es t.sys = .ok s) : Run count (fun t e => t.owned e = true) t es { t with sys := s } := by
  induction es generalizing t with
  | nil =>
    cases h
    exact .nil t
  | cons e es ih =>
    obtain ⟨s₁, hs₁, h⟩ := exec_cons_eq_ok.1 h
    obtain ⟨hnote, howned⟩ := hes e List.mem_cons_self t
    refine .cons howned (t := { t with sys := s₁ }) ?_ (ih (fun e he => hes e (List.mem_cons_of_mem _ he)) h)
    unfold count
    rw [hs₁, hnote]
    rfl

/-- `n` copies of the SYN arrive. -/
def copies (a : Address) (n : Nat) : List SysEvent := (List.replicate n (synRound a)).flatten

theorem run_copies {a : Address} (h : Refuses t.sys a) (n : Nat) :
    Run count (fun t e => t.owned e = true) t (copies a n) { t with sys := refusing t.sys a n } := by
  induction n with
  | zero =>
    rw [refusing_zero]
    exact .nil t
  | succ n ih =>
    have hround : Run count (fun t e => t.owned e = true) { t with sys := refusing t.sys a n } (synRound a)
        { t with sys := refusing t.sys a (n + 1) } := by
      refine run_of_exec (t := { t with sys := refusing t.sys a n }) ?_ ?_
      · intro e he t
        rcases List.mem_pair.1 he with rfl | rfl <;> exact ⟨rfl, rfl⟩
      · rw [← refusing_succ]
        exact (h.refusing n).exec
    have hsplit : copies a (n + 1) = copies a n ++ synRound a := by
      unfold copies
      rw [List.replicate_succ', List.flatten_append, List.flatten_singleton]
    rw [hsplit]
    exact ih.append hround

/-- The second connection gets the descriptor of the first, which is closed then. -/
def secondConnection : List SysEvent :=
  connection ⟨0x0300007F5000⟩ 2 ++ [.close (fdOf 1), .update 1 (.at 3), .recycle 1]

/-- The third one gets that descriptor, too, and is closed through it while it is pending. -/
def thirdConnection : List SysEvent :=
  synRound ⟨0x0400007F5000⟩ ++ [.executeOp, .close (fdOf 1), .update 3 (.at 4)]

def afterFirst : Counted := (start ⟨0, 0, 0, 0⟩).after firstConnection

def afterSecond : Counted :=
  after secondConnection { afterFirst with sys := refusing afterFirst.sys ⟨0x0200007F5000⟩ 2047 }

def afterThird : Counted :=
  after thirdConnection { afterSecond with sys := refusing afterSecond.sys ⟨0x0300007F5000⟩ 2047 }

/-- Whoever closes only what `accept` has given to him can make the listener throw. -/
theorem backlog_logicIssue :
    ∃ es t, Run count (fun t e => t.owned e = true) (start ⟨0, 0, 0, 0⟩) es t ∧
      sysStep (.settle 0 3) t.sys = .error .pendingState := by
  have h₁ : Run count (fun t e => t.owned e = true) (start ⟨0, 0, 0, 0⟩) firstConnection afterFirst :=
    run_after (P := fun t e => t.owned e) (by decide +kernel)
  have h₂ : Run count (fun t e => t.owned e = true) _ secondConnection afterSecond :=
    run_after (P := fun t e => t.owned e) (by decide +kernel)
  have h₃ : Run count (fun t e => t.owned e = true) _ thirdConnection afterThird :=
    run_after (P := fun t e => t.owned e) (by decide +kernel)
  have hcopies₁ := run_copies (t := afterFirst) (a := ⟨0x0200007F5000⟩) (by decide +kernel) 2047
  have hcopies₂ := run_copies (t := afterSecond) (a := ⟨0x0300007F5000⟩) (by decide +kernel) 2047
  refine ⟨_, afterThird, ((h₁.append hcopies₁).append h₂).append (hcopies₂.append h₃), ?_⟩
  exact fault?_eq_some.1 (by decide +kernel)

end Counted

end Wawo
