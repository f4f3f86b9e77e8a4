import Mathlib.Data.Nat.Bitwise
import Wawo.Wcp.Listener

/-!
# Four-tuple hashes as identities

`m_wcb_four_tuple_map` knows a connection by `four_tuple_hash` of the listener's address and the remote's
alone. Of the remote the hash takes no more than the xor of its IP and its port (`remoteMix`), so a
listener takes two remotes for one if these are the same, and a remote for the hash 0, on which
`add_to_four_tuple_hash_map` asserts, if the mix is that of the listener's own address (`localMix`).
`connection_identity`: nothing else goes wrong, in any run. The entry that a recycled control block takes
out of the table is always its own.
-/

namespace Wawo

open Lts

/-! ### The hash -/

/-- What the hash takes of the remote address. -/
def Address.remoteMix (a : Address) : Nat := a.hostsequenceUlongip ^^^ a.hostsequencePort

/-- What the hash takes of the local address. -/
def Address.localMix (a : Address) : Nat := u32 (a.hostsequenceUlongip * 59) ^^^ u32 (a.hostsequencePort <<< 16)

theorem fourTupleHash_eq (l a : Address) : fourTupleHash l a = l.localMix ^^^ a.remoteMix := by
  unfold fourTupleHash Address.localMix Address.remoteMix
  generalize u32 (l.hostsequenceUlongip * 59) = ip
  generalize u32 (l.hostsequencePort <<< 16) = port
  rw [Nat.xor_assoc ip a.hostsequenceUlongip, Nat.xor_comm a.hostsequenceUlongip, ← Nat.xor_assoc ip, Nat.xor_assoc]

theorem fourTupleHash_eq_iff (l a b : Address) : fourTupleHash l a = fourTupleHash l b ↔ a.remoteMix = b.remoteMix := by
  rw [fourTupleHash_eq, fourTupleHash_eq, Nat.xor_right_inj]

theorem fourTupleHash_eq_zero (l a : Address) : fourTupleHash l a = 0 ↔ a.remoteMix = l.localMix := by
  rw [fourTupleHash_eq, Nat.xor_eq_zero_iff, eq_comm]

namespace Wcp

variable {s s' t : Wcp} {id lid : Nat} {a b l : Address} {r : AcceptRets} {p : WcbReceivedPack}

/-! ### The entries of the table -/

/-- Each control block in the four-tuple table stands under its own hash. -/
def Keyed (s : Wcp) : Prop := ∀ e ∈ s.fourTupleMap, e.2 < s.allocated ∧ e.1 = (s.obj e.2).fourTupleHashId

theorem Keyed.keep (h : Keyed s) (hk : KeepsObjs s t) : Keyed t := by
  obtain ⟨f, rfl⟩ : ∃ f, t = { s with obj := f } := ⟨_, hk.tables⟩
  intro e he
  rw [hk.hash]
  exact h e he

theorem Keyed.step (h : Keyed s) (hs : TableStep s s') : Keyed s' := by
  have hold : ∀ (o : WcbObj), ∀ e ∈ s.fourTupleMap,
      e.2 < s.allocated + 1 ∧ e.1 = ((s.issue.alloc o).obj e.2).fourTupleHashId := by
    intro o e he
    obtain ⟨hlt, hkey⟩ := h e he
    rw [alloc_obj_of_lt o hlt]
    exact ⟨Nat.lt_succ_of_lt hlt, hkey⟩
  cases hs with
  | create o _ _ _ _ => exact hold o
  | passive lid a o _ _ _ _ _ _ _ =>
    intro e he
    have hhash : ∀ i, ((Wcp.setObj (s.issue.alloc o) lid { (s.issue.alloc o).obj lid with
        backloglistPending := ((s.issue.alloc o).obj lid).backloglistPending ++ [s.allocated] }).obj i).fourTupleHashId =
          ((s.issue.alloc o).obj i).fourTupleHashId := by
      intro i
      by_cases hi : i = lid
      · subst hi
        rw [setObj_self]
      · rw [setObj_of_ne _ _ hi]
    show e.2 < s.allocated + 1 ∧ e.1 = _
    rw [hhash]
    rcases KeyMap.mem_insert he with rfl | he
    · rw [alloc_obj_self]
      exact ⟨Nat.lt_succ_self _, rfl⟩
    · exact hold o e he
  | recycle id _ _ =>
    intro e he
    refine h e ?_
    dsimp only at he
    split_ifs at he
    · exact (KeyMap.mem_erase.1 he).1
    · exact he
  | _ => exact h

theorem Keyed.start (u : Uninit) : Keyed (Wcp.start u) := fun _ he => nomatch he

theorem Moves.keyed (hm : Moves s s') (h : Keyed s) : Keyed s' := by
  obtain ⟨t, hk, hs⟩ := hm
  exact (h.keep hk).step hs

/-! ### What is asked of the table -/

/-- `add_to_four_tuple_hash_map` refuses a SYN from `b` with `E_EADDRINUSE`, and what it has found is the
control block `id`. -/
def RefusedFor (s : Wcp) (lid : Nat) (b : Address) (id : Nat) : Prop :=
  s.fourTupleMap.find? (fourTupleHash (s.obj lid).localAddr b) = some id ∧
    s.addToFourTupleHashMap (fourTupleHash (s.obj lid).localAddr b) s.allocated = .ok (eAddrinuse, s.fourTupleMap)

/-- A recycled control block takes no other one's entry out of the table. -/
def RecyclesOwn (s : Wcp) : Prop :=
  ∀ id ∈ s.wcbMap.vals, (s.obj id).conn.state = .recycle → ∀ s', s.recycle id = .ok s' →
    ∀ e ∈ s.fourTupleMap, e.2 ≠ id → e ∈ s'.fourTupleMap

/-- The listener `lid` tells the remotes `a` and `b` apart: no SYN from `b` is refused for the sake of a
connection with `a`, and the hash of neither is 0. -/
structure TellsApart (s : Wcp) (lid : Nat) (a b : Address) : Prop where
  taken : ∀ id < s.allocated, (s.obj id).origin = some (lid, a) → ¬ RefusedFor s lid b id
  nonzero : ∀ r p, p.fromAddr = a ∨ p.fromAddr = b → s.handleSyn lid r p ≠ .error .hashZero

theorem Registered.recyclesOwn (h : Registered s) : RecyclesOwn s := by
  intro id hid _ s' hs' e he hne
  unfold Wcp.recycle at hs'
  dsimp only at hs'
  split_ifs at hs' with hz hp
  · cases hs'
    refine KeyMap.mem_erase.2 ⟨he, fun hkey => hne ?_⟩
    exact congrArg Prod.snd (h.functional e he _ (h.held id (.inl hid) hp) hkey)
  · cases hs'
    exact he

theorem handleSyn_hashZero (h : s.handleSyn lid r p = .error .hashZero) :
    fourTupleHash (s.obj lid).localAddr p.fromAddr = 0 := by
  by_contra hz
  obtain ⟨⟨rt, m⟩, hc⟩ : ∃ c, s.addToFourTupleHashMap (fourTupleHash (s.obj lid).localAddr p.fromAddr) s.allocated = .ok c := by
    unfold addToFourTupleHashMap
    rw [if_neg hz]
    split_ifs <;> exact ⟨_, rfl⟩
  unfold handleSyn at h
  by_cases hfull : (s.obj lid).backlogq.length + (s.obj lid).backloglistPending.length = (s.obj lid).backlogSize
  · rw [if_pos hfull] at h
    cases h
  rw [if_neg hfull] at h
  split_ifs at h
  rw [hc] at h
  dsimp only at h
  split_ifs at h

theorem Registered.tellsApart (h : Registered s) (hk : Keyed s) (hl : (s.obj lid).localAddr = l)
    (hab : a.remoteMix ≠ b.remoteMix) (ha : a.remoteMix ≠ l.localMix) (hb : b.remoteMix ≠ l.localMix) :
    TellsApart s lid a b := by
  constructor
  · rintro id hid ho ⟨hfind, -⟩
    have hacc := h.accepted id hid lid a ho
    have hkey : fourTupleHash (s.obj lid).localAddr b = (s.obj id).fourTupleHashId :=
      (hk _ (KeyMap.mem_of_find? hfind)).2
    rw [hacc.hash, fourTupleHash_eq_iff] at hkey
    exact hab hkey.symm
  · intro r p hp he
    have hz := handleSyn_hashZero he
    rw [hl, fourTupleHash_eq_zero] at hz
    rcases hp with hp | hp <;> rw [hp] at hz
    · exact ha hz
    · exact hb hz

/-! ### A listener with one connection -/

theorem acceptSyn_obj_self (s : Wcp) (lid : Nat) (r : AcceptRets) (p : WcbReceivedPack) :
    (s.acceptSyn lid r p).obj lid = { (s.issue.alloc (s.passiveObj lid r p)).obj lid with
      backloglistPending := ((s.issue.alloc (s.passiveObj lid r p)).obj lid).backloglistPending ++ [s.allocated] } :=
  setObj_self (s.issue.alloc (s.passiveObj lid r p)) lid _

theorem acceptSyn_obj_of_ne {i : Nat} (h : i ≠ lid) :
    (s.acceptSyn lid r p).obj i = (s.issue.alloc (s.passiveObj lid r p)).obj i :=
  setObj_of_ne (s.issue.alloc (s.passiveObj lid r p)) _ h

/-- A SYN from `a`. -/
def synFrom (a : Address) : WcbReceivedPack := ⟨(Datagram.fresh 0 .syn [] (Nat.zero_le _)).stamp 0 (2 * wcpRcvBufferMin), a⟩

theorem makesWcb_synFrom (h : ¬ BacklogFull s lid) : MakesWcb s lid acceptOk (synFrom a) where
  room := h
  rst := by show ¬ (WcpFlag.syn &&& .rst != 0) = true; decide
  syn := by show (WcpFlag.syn &&& .syn != 0) = true; decide
  rets := by decide

/-- The control block number 0 is made and bound to `l`. -/
def bindAt (l : Address) : List SysEvent := [.socket ok ⟨0, 0, 0, 0⟩ 0, .bind (fdOf 0) l ok]

def boundAt (l : Address) : Wcp := (((Wcp.start ⟨0, 0, 0, 0⟩).socket ok ⟨0, 0, 0, 0⟩ 0).2.bind (fdOf 0) l ok).2

/-- What is known of the listener number 0 before its first connection. -/
structure Waits (s : Wcp) (l : Address) : Prop where
  allocated : s.allocated = 1
  held : 0 ∈ s.wcbMap.vals
  watched : s.watched 0 = true
  state : (s.obj 0).conn.state = .listen
  localAddr : (s.obj 0).localAddr = l
  map : s.fourTupleMap = []
  room : ¬ BacklogFull s 0
  reads : (s.obj 0).conn.rcv.localReadShutdowned = false
  standby : (s.obj 0).conn.rcv.receivedVecStandby = []

theorem Waits.listening (h : Waits s l) : s.listening 0 = true := decide_eq_true ⟨h.held, h.state⟩

/-- A SYN finds the listener ready. -/
theorem Waits.makes (h : Waits s l) : MakesWcb s 0 acceptOk (synFrom a) := makesWcb_synFrom h.room

theorem listen_waits (hl : l.isNull = false) :
    ∃ s, Run sysStep (fun _ _ => True) (Wcp.start ⟨0, 0, 0, 0⟩) (bindAt l ++ [.listen (fdOf 0) 5 ok ok]) s ∧ Waits s l := by
  have hfind : (boundAt l).createPendingMap.find? (fdOf 0) = some 0 := rfl
  have hnull : ¬ ((boundAt l).obj 0).localAddr.isNull = true := Bool.eq_false_iff.1 hl
  have hst : ¬ ((boundAt l).obj 0).conn.state ≠ .closed := not_not_intro rfl
  have hlisten : ∃ s, (boundAt l).listen (fdOf 0) 5 ok ok = .ok (ok, s) ∧ Waits s l := by
    unfold listen
    rw [hfind]
    dsimp only
    rw [if_neg (by decide), if_neg hnull, if_neg hst]
    refine ⟨_, rfl, ⟨rfl, ?_, rfl, rfl, rfl, rfl, ?_, rfl, rfl⟩⟩
    · exact List.mem_singleton.2 rfl
    · unfold BacklogFull
      exact nofun
  obtain ⟨s, hs, hw⟩ := hlisten
  have hstep : sysStep (.listen (fdOf 0) 5 ok ok) (boundAt l) = .ok s := by
    show ((boundAt l).listen (fdOf 0) 5 ok ok).map Prod.snd = _
    rw [hs]
    rfl
  exact ⟨s, .cons trivial rfl (.cons trivial rfl (.cons trivial hstep (.nil s))), hw⟩

theorem setConn_setConn (s : Wcp) (id : Nat) (w w' : Wcb) : (s.setConn id w).setConn id w' = s.setConn id w' := by
  unfold setConn
  rw [setObj_self]
  unfold setObj
  rw [Function.update_idem]

theorem setConn_self (s : Wcp) (id : Nat) : s.setConn id (s.obj id).conn = s := by
  unfold setConn setObj
  rw [Function.update_eq_self]

/-- A SYN from `a` arrives at the listener and is handled. -/
def synRound (a : Address) : List SysEvent := [.arrive 0 (synFrom a), .handleSyn 0 acceptOk]

theorem exec_synRound (hw : s.watched 0 = true) (hl : s.listening 0 = true)
    (hr : (s.obj 0).conn.rcv.localReadShutdowned = false) (hs : (s.obj 0).conn.rcv.receivedVecStandby = []) :
    exec sysStep (synRound a) s = s.handleSyn 0 acceptOk (synFrom a) := by
  have harrive : sysStep (.arrive 0 (synFrom a)) s = .ok (s.setConn 0 (arrive (synFrom a) (s.obj 0).conn)) := by
    show Except.ok (if s.watched 0 = true then _ else _) = _
    rw [if_pos hw]
  have hobj : ((s.setConn 0 (arrive (synFrom a) (s.obj 0).conn)).obj 0).conn = arrive (synFrom a) (s.obj 0).conn := by
    unfold setConn
    rw [setObj_self]
  have hback : { arrive (synFrom a) (s.obj 0).conn with
      rcv := { (arrive (synFrom a) (s.obj 0).conn).rcv with receivedVecStandby := [] } } = (s.obj 0).conn := by
    rw [← hs]
    rfl
  have hstandby : (arrive (synFrom a) (s.obj 0).conn).rcv.receivedVecStandby = [synFrom a] := by
    show (s.obj 0).conn.rcv.receivedVecStandby ++ [synFrom a] = _
    rw [hs]
    rfl
  have hlisten : (s.setConn 0 (arrive (synFrom a) (s.obj 0).conn)).listening 0 = true := by
    have hl := of_decide_eq_true hl
    refine decide_eq_true ⟨hl.1, ?_⟩
    rw [hobj]
    exact hl.2
  have hreads : ¬ (arrive (synFrom a) (s.obj 0).conn).rcv.localReadShutdowned = true := by
    show ¬ (s.obj 0).conn.rcv.localReadShutdowned = true
    rw [hr]
    exact nofun
  unfold synRound
  rw [exec_cons harrive, exec_singleton]
  dsimp only [sysStep]
  rw [hobj, hstandby]
  dsimp only
  rw [if_pos ⟨hlisten, hreads⟩, setConn_setConn, hback, setConn_self]

/-- A SYN from `a` arrives and is accepted. -/
theorem Waits.accept (h : Waits s l) (hz : fourTupleHash l a ≠ 0) :
    Run sysStep (fun _ _ => True) s (synRound a) (s.acceptSyn 0 acceptOk (synFrom a)) := by
  have hz : fourTupleHash (s.obj 0).localAddr (synFrom a).fromAddr ≠ 0 := by rw [h.localAddr]; exact hz
  refine .of_exec (fun _ _ => trivial) ((exec_synRound h.watched h.listening h.reads h.standby).trans ?_)
  refine h.makes.handleSyn_ok ?_
  unfold addToFourTupleHashMap
  rw [if_neg hz, h.map]
  rfl

/-- What is there when it has been accepted. -/
theorem Waits.accepted (h : Waits s l) :
    (s.acceptSyn 0 acceptOk (synFrom a)).listening 0 = true ∧ ((s.acceptSyn 0 acceptOk (synFrom a)).obj 0).localAddr = l ∧
      1 < (s.acceptSyn 0 acceptOk (synFrom a)).allocated ∧
      ((s.acceptSyn 0 acceptOk (synFrom a)).obj 1).origin = some (0, a) ∧
      (s.acceptSyn 0 acceptOk (synFrom a)).fourTupleMap = [(fourTupleHash l a, 1)] := by
  have hlt : 0 < s.allocated := by rw [h.allocated]; decide
  have hlistener : (s.acceptSyn 0 acceptOk (synFrom a)).obj 0 =
      { s.obj 0 with backloglistPending := (s.obj 0).backloglistPending ++ [s.allocated] } := by
    rw [acceptSyn_obj_self, alloc_obj_of_lt _ hlt]
  have hconn : (s.acceptSyn 0 acceptOk (synFrom a)).obj 1 = s.passiveObj 0 acceptOk (synFrom a) := by
    rw [acceptSyn_obj_of_ne (by decide), ← h.allocated, alloc_obj_self]
  refine ⟨decide_eq_true ⟨h.held, ?_⟩, ?_, ?_, ?_, ?_⟩
  · rw [hlistener]
    exact h.state
  · rw [hlistener]
    exact h.localAddr
  · show 1 < s.allocated + 1
    rw [h.allocated]
    decide
  · rw [hconn]
    rfl
  · show s.fourTupleMap.insert (fourTupleHash (s.obj 0).localAddr a) s.allocated = _
    rw [h.map, h.localAddr, h.allocated]
    rfl

/-- A SYN from `b` finds the entry of `a`. -/
theorem Waits.refused (h : Waits s l) (hz : fourTupleHash l a ≠ 0) (hab : a.remoteMix = b.remoteMix) :
    RefusedFor (s.acceptSyn 0 acceptOk (synFrom a)) 0 b 1 := by
  obtain ⟨-, hl, -, -, hmap⟩ := h.accepted (a := a)
  have hsame : fourTupleHash l b = fourTupleHash l a := (fourTupleHash_eq_iff l b a).2 hab.symm
  have hfind : KeyMap.find? [(fourTupleHash l a, 1)] (fourTupleHash l a) = some 1 := by
    simp [KeyMap.find?]
  unfold RefusedFor addToFourTupleHashMap
  rw [hl, hmap, hsame, hfind]
  refine ⟨rfl, ?_⟩
  rw [if_neg hz, if_neg (by simp [wcpFdMax]), if_pos (show (some 1).isSome = true from rfl)]

end Wcp

/-- The listener tells the remotes apart in every state of every run, and no recycled control block takes
another one's entry with it. -/
def Identified (l a b : Address) : Prop :=
  ∀ (u : Uninit) (es : List SysEvent) (s : Wcp), Run sysStep (fun _ _ => True) (Wcp.start u) es s →
    s.RecyclesOwn ∧ ∀ lid, s.listening lid = true → (s.obj lid).localAddr = l → s.TellsApart lid a b

/-- A listener at `l` tells two remotes apart, in every run, if and only if the xors of their IPs and ports
differ and neither is what the hash takes of `l`. -/
theorem connection_identity {l a b : Address} (hl : l.isNull = false) :
    Identified l a b ↔ a.remoteMix ≠ b.remoteMix ∧ a.remoteMix ≠ l.localMix ∧ b.remoteMix ≠ l.localMix := by
  constructor
  · intro h
    obtain ⟨s, hrun, hw⟩ := Wcp.listen_waits hl
    have hs := (h _ _ _ hrun).2 0 hw.listening hw.localAddr
    have hzero : ∀ c : Address, c = a ∨ c = b → c.remoteMix ≠ l.localMix := by
      intro c hc hmix
      refine hs.nonzero acceptOk (Wcp.synFrom c) hc (hw.makes.handleSyn_error ?_)
      rw [hw.localAddr]
      exact if_pos ((fourTupleHash_eq_zero l c).2 hmix)
    have ha := hzero a (.inl rfl)
    refine ⟨fun hab => ?_, ha, hzero b (.inr rfl)⟩
    have hz : fourTupleHash l a ≠ 0 := fun hz => ha ((fourTupleHash_eq_zero l a).1 hz)
    have ht := (h _ _ _ (hrun.append (hw.accept hz))).2 0 hw.accepted.1 hw.accepted.2.1
    exact ht.taken 1 hw.accepted.2.2.1 hw.accepted.2.2.2.1 (hw.refused hz hab)
  · rintro ⟨hab, ha, hb⟩ u es s hrun
    have hinv : (s.Tables ∧ s.Registered) ∧ s.Keyed :=
      hrun.inv (fun s => (s.Tables ∧ s.Registered) ∧ s.Keyed)
        (fun _ _ _ hi _ hs => ⟨(sysStep_cases hs).registered hi.1, (sysStep_cases hs).keyed hi.2⟩)
        ⟨⟨.start u, .start u⟩, .start u⟩
    exact ⟨hinv.1.2.recyclesOwn, fun lid _ hlid => hinv.1.2.tellsApart hinv.2 hlid hab ha hb⟩

/-- 127.0.0.1, port 80, and the remotes 10.0.0.1, port 5000, and 10.0.0.2, port 5000 -/
theorem connection_identity_twoHosts : Identified ⟨0x0100007F5000⟩ ⟨0x0100000A8813⟩ ⟨0x0200000A8813⟩ :=
  (connection_identity (by decide)).2 (by decide)

/-- A listener on 127.0.0.1, port 80: a SYN from 69.80.0.107, port 80, fails the assertion, and when
10.0.0.1, port 5000, has a connection, a SYN from 10.0.0.2, port 5003, is refused because of it. -/
theorem identity_confused :
    ∃ s s', Run sysStep (fun _ _ => True) (Wcp.start ⟨0, 0, 0, 0⟩) (Wcp.bindAt ⟨0x0100007F5000⟩ ++ [.listen (fdOf 0) 5 ok ok]) s ∧
      s.listening 0 = true ∧ s.handleSyn 0 acceptOk (Wcp.synFrom ⟨0x6B0050455000⟩) = .error .hashZero ∧
      Run sysStep (fun _ _ => True) s [.arrive 0 (Wcp.synFrom ⟨0x0100000A8813⟩), .handleSyn 0 acceptOk] s' ∧
      s'.listening 0 = true ∧ (s'.obj 1).origin = some (0, ⟨0x0100000A8813⟩) ∧ s'.RefusedFor 0 ⟨0x0200000A8B13⟩ 1 ∧
      ¬ Identified ⟨0x0100007F5000⟩ ⟨0x0100000A8813⟩ ⟨0x0200000A8B13⟩ := by
  obtain ⟨s, hrun, hw⟩ := Wcp.listen_waits (l := ⟨0x0100007F5000⟩) (by decide)
  have hz : fourTupleHash ⟨0x0100007F5000⟩ ⟨0x0100000A8813⟩ ≠ 0 := by decide
  have haccept := hw.accept hz
  have hrefused := hw.refused hz (b := ⟨0x0200000A8B13⟩) (by decide)
  obtain ⟨hl, haddr, hlt, ho, -⟩ := hw.accepted (a := ⟨0x0100000A8813⟩)
  refine ⟨s, _, hrun, hw.listening, hw.makes.handleSyn_error ?_, haccept, hl, ho, hrefused,
    fun h => ((h _ _ _ (hrun.append haccept)).2 0 hl haddr).taken 1 hlt ho hrefused⟩
  rw [hw.localAddr]
  exact if_pos (by decide)

end Wawo
