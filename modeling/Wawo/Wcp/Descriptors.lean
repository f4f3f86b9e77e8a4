import Wawo.Wcp.Tables

/-!
# Descriptors

`make_wcb_fd` counts modulo `WCP_FD_MAX` and asks no table whether a descriptor is still in use, so the
descriptor of a control block comes back 2048 issues later. `FdsSound` is what the tables promise their
users; it lasts as long as no control block lives that long.
-/

namespace Wawo

open Lts

namespace Wcp

variable {s s' t : Wcp} {id : Nat}

/-- A control block in a table, in the backlog of an open listener or on its way to `m_wcb_map`. -/
def Live (s : Wcp) (id : Nat) : Prop :=
  id ∈ s.createPendingMap.vals ∨ id ∈ s.wcbMap.vals ∨ id ∈ s.ops ∨ ∃ lid ∈ s.wcbMap.vals, id ∈ s.backlog lid

/-- The control block made 2048 issues ago is gone. -/
def Recent (s : Wcp) : Prop := ∀ id, Live s id → (s.obj id).birth + wcpFdMax ≠ s.issued

/-- The event calls `make_wcb_fd`. -/
def issues (s : Wcp) : SysEvent → Bool
  | .socket openRt _ _ => openRt = ok
  | .handleSyn lid r =>
    match (s.obj lid).conn.rcv.receivedVecStandby with
    | [] => false
    | p :: _ =>
      s.listening lid ∧ ¬ (s.obj lid).conn.rcv.localReadShutdowned ∧
        (s.obj lid).backlogq.length + (s.obj lid).backloglistPending.length ≠ (s.obj lid).backlogSize ∧
        ¬ p.testFlag .rst ∧ p.testFlag .syn ∧ ¬ r.rets.any (· ≠ ok)
  | _ => false

/-- A descriptor names one control block, and the tables lead to it. -/
structure FdsSound (s : Wcp) : Prop where
  unique : ∀ id id', Live s id → Live s id' → (s.obj id).fd = (s.obj id').fd → id = id'
  wcbMap : ∀ fd id, s.wcbMap.find? fd = some id ↔ id ∈ s.wcbMap.vals ∧ (s.obj id).fd = fd
  createPendingMap : ∀ fd id,
    s.createPendingMap.find? fd = some id ↔ id ∈ s.createPendingMap.vals ∧ (s.obj id).fd = fd
  -- what has still to go to `m_wcb_map` finds its place free
  room : ∀ id, id ∈ s.createPendingMap.vals ∨ id ∈ s.ops → s.wcbMap.find? (s.obj id).fd = none

/-! ### Who is live -/

theorem Tables.lt_of_live (h : Tables s) (hl : Live s id) : id < s.allocated := by
  rcases hl with hl | hl | hl | ⟨lid, -, hl⟩
  · obtain ⟨k, hk⟩ := KeyMap.mem_vals.1 hl
    exact (h.pendingKey _ hk).1
  · obtain ⟨k, hk⟩ := KeyMap.mem_vals.1 hl
    exact (h.mapKey _ hk).1
  · exact h.ops_lt id hl
  · exact h.backlog_lt lid id hl

theorem KeepsObjs.live (hk : KeepsObjs s t) (hl : Live t id) : Live s id := by
  have hback := hk.backlog
  obtain ⟨f, rfl⟩ : ∃ f, t = { s with obj := f } := ⟨_, hk.tables⟩
  rcases hl with hl | hl | hl | ⟨lid, hm, hl⟩
  · exact .inl hl
  · exact .inr (.inl hl)
  · exact .inr (.inr (.inl hl))
  · exact .inr (.inr (.inr ⟨lid, hm, hback lid id hl⟩))

/-- Only a new control block becomes live. -/
theorem TableStep.live (hs : TableStep s s') (ht : Tables s) (hl : Live s' id) :
    Live s id ∧ (s'.obj id).birth = (s.obj id).birth ∨ id = s.allocated ∧ (s'.obj id).birth = s.issued := by
  have hnew : ∀ {o : WcbObj}, Fresh s o → Live s id ∨ id = s.allocated →
      Live s id ∧ ((s.issue.alloc o).obj id).birth = (s.obj id).birth ∨
        id = s.allocated ∧ ((s.issue.alloc o).obj id).birth = s.issued := by
    rintro o ho (h | rfl)
    · exact .inl ⟨h, by rw [alloc_obj_of_lt o (ht.lt_of_live h)]⟩
    · exact .inr ⟨rfl, by rw [alloc_obj_self, ho.birth]⟩
  have hmap : ∀ lid ∈ s.wcbMap.vals, lid < s.allocated := fun lid h => ht.lt_of_live (.inr (.inl h))
  cases hs with
  | keep => exact .inl ⟨hl, rfl⟩
  | refuse => exact .inl ⟨hl, rfl⟩
  | create o ho _ _ _ =>
    refine hnew ho ?_
    rcases hl with hl | hl | hl | ⟨lid, hm, hl⟩
    · rcases KeyMap.mem_vals_insert hl with rfl | hl
      · exact .inr rfl
      · exact .inl (.inl hl)
    · exact .inl (.inr (.inl hl))
    · exact .inl (.inr (.inr (.inl hl)))
    · refine .inl (.inr (.inr (.inr ⟨lid, hm, ?_⟩)))
      have hobj : (s.issue.alloc o).obj lid = s.obj lid := alloc_obj_of_lt o (hmap lid hm)
      have hl : id ∈ ((s.issue.alloc o).obj lid).backlogq ++ ((s.issue.alloc o).obj lid).backloglistPending := hl
      rw [hobj] at hl
      exact hl
  | activate fd i hf =>
    have hi : i ∈ s.createPendingMap.vals := KeyMap.mem_vals_of_find? hf
    refine .inl ⟨?_, rfl⟩
    rcases hl with hl | hl | hl | ⟨lid, hm, hl⟩
    · exact .inl (KeyMap.mem_vals_erase hl)
    · rcases KeyMap.mem_vals_insert hl with rfl | hl
      · exact .inl hi
      · exact .inr (.inl hl)
    · exact .inr (.inr (.inl hl))
    · rcases KeyMap.mem_vals_insert hm with rfl | hm
      · have hl : id ∈ s.backlog lid := hl
        rw [(ht.pending_out lid hi).2.2] at hl
        cases hl
      · exact .inr (.inr (.inr ⟨lid, hm, hl⟩))
  | drop fd i _ =>
    refine .inl ⟨?_, rfl⟩
    rcases hl with hl | hl
    · exact .inl (KeyMap.mem_vals_erase hl)
    · exact .inr hl
  | passive lid a o hm ho _ _ _ _ _ =>
    have hbirth : ∀ (x : WcbObj) (i : Nat), x.birth = ((s.issue.alloc o).obj lid).birth →
        (((s.issue.alloc o).setObj lid x).obj i).birth = ((s.issue.alloc o).obj i).birth := by
      intro x i hx
      by_cases he : i = lid
      · subst he; rw [setObj_self, hx]
      · rw [setObj_of_ne _ x he]
    have hb := hbirth { (s.issue.alloc o).obj lid with
      backloglistPending := ((s.issue.alloc o).obj lid).backloglistPending ++ [s.allocated] } id rfl
    have hobj : ∀ i ∈ s.wcbMap.vals, (s.issue.alloc o).obj i = s.obj i := fun i hi => alloc_obj_of_lt o (hmap i hi)
    have hcases : Live s id ∨ id = s.allocated := by
      rcases hl with hl | hl | hl | ⟨lid', hm', hl⟩
      · exact .inl (.inl hl)
      · exact .inl (.inr (.inl hl))
      · rcases List.mem_append.1 hl with hl | hl
        · exact .inl (.inr (.inr (.inl hl)))
        · exact .inr (List.mem_singleton.1 hl)
      · by_cases he : lid' = lid
        · subst he
          have hl : id ∈ ((s.issue.alloc o).setObj lid' { (s.issue.alloc o).obj lid' with
            backloglistPending := ((s.issue.alloc o).obj lid').backloglistPending ++ [s.allocated] }).backlog lid' := hl
          rw [Wcp.backlog, setObj_self, hobj lid' hm', ← List.append_assoc] at hl
          rcases List.mem_append.1 hl with hl | hl
          · exact .inl (.inr (.inr (.inr ⟨lid', hm', hl⟩)))
          · exact .inr (List.mem_singleton.1 hl)
        · have hl : id ∈ ((s.issue.alloc o).setObj lid { (s.issue.alloc o).obj lid with
            backloglistPending := ((s.issue.alloc o).obj lid).backloglistPending ++ [s.allocated] }).backlog lid' := hl
          rw [Wcp.backlog, setObj_of_ne _ _ he, hobj lid' hm'] at hl
          exact .inl (.inr (.inr (.inr ⟨lid', hm', hl⟩)))
    rcases hnew ho hcases with ⟨h1, h2⟩ | ⟨h1, h2⟩
    · exact .inl ⟨h1, hb.trans h2⟩
    · exact .inr ⟨h1, hb.trans h2⟩
  | execute i rest ho =>
    have hi : i ∈ s.ops := by rw [ho]; simp
    refine .inl ⟨?_, rfl⟩
    rcases hl with hl | hl | hl | ⟨lid, hm, hl⟩
    · exact .inl hl
    · rcases KeyMap.mem_vals_insert hl with rfl | hl
      · exact .inr (.inr (.inl hi))
      · exact .inr (.inl hl)
    · exact .inr (.inr (.inl (by rw [ho]; exact List.mem_cons_of_mem _ hl)))
    · rcases KeyMap.mem_vals_insert hm with rfl | hm
      · have hl : id ∈ s.backlog lid := hl
        rw [(ht.ops_out lid hi).2] at hl
        cases hl
      · exact .inr (.inr (.inr ⟨lid, hm, hl⟩))
  | recycle i _ _ =>
    refine .inl ⟨?_, rfl⟩
    rcases hl with hl | hl | hl | ⟨lid, hm, hl⟩
    · exact .inl hl
    · exact .inr (.inl (KeyMap.mem_vals_erase hl))
    · exact .inr (.inr (.inl hl))
    · exact .inr (.inr (.inr ⟨lid, KeyMap.mem_vals_erase hm, hl⟩))

theorem TableStep.issued (hs : TableStep s s') : s'.issued = s.issued ∨ s'.issued = s.issued + 1 := by
  cases hs
  case keep | activate | drop | execute | recycle => exact .inl rfl
  case refuse | create | passive => exact .inr rfl

/-! ### Who issues a descriptor -/

theorem handleSyn_issued {lid : Nat} {r : AcceptRets} {p : WcbReceivedPack} (h : s.handleSyn lid r p = .ok s')
    (hn : ¬ MakesWcb s lid r p) : s'.issued = s.issued := by
  rcases handleSyn_cases h with ⟨rfl, -⟩ | ⟨rfl, -⟩ | ⟨-, hm⟩ | ⟨-, hm, -⟩
  · rfl
  · rfl
  · exact absurd hm hn
  · exact absurd hm hn

theorem issued_of_not_issues {e : SysEvent} (h : sysStep e s = .ok s') (hn : s.issues e = false) :
    s'.issued = s.issued := by
  cases e with
  | socket openRt u now =>
    cases h
    have hrt : openRt ≠ ok := of_decide_eq_false hn
    unfold Wcp.socket
    rw [if_pos hrt]
  | bind fd addr rt =>
    cases h
    unfold Wcp.bind
    split
    · rfl
    · dsimp only; split_ifs <;> rfl
  | connect fd addr now nbRt =>
    obtain ⟨c, hc, rfl⟩ := map_eq_ok.1 h
    unfold Wcp.connect at hc
    split at hc
    · cases hc; rfl
    · split_ifs at hc
      · cases hc; rfl
      · split at hc
        · cases hc
        · cases hc; rfl
  | listen fd backlog nbRt udpRt =>
    obtain ⟨c, hc, rfl⟩ := map_eq_ok.1 h
    unfold Wcp.listen at hc
    split at hc
    · cases hc; rfl
    · dsimp only at hc
      split_ifs at hc <;> cases hc <;> rfl
  | accept fd =>
    cases h
    unfold Wcp.accept
    split
    · rfl
    · dsimp only
      split
      · rfl
      · split <;> rfl
  | close fd =>
    obtain ⟨c, hc, rfl⟩ := map_eq_ok.1 h
    unfold Wcp.close at hc
    split at hc
    · split at hc
      · cases hc
      · cases hc; rfl
    · split at hc
      · cases hc; rfl
      · split at hc
        · cases hc
        · cases hc; rfl
  | call fd e =>
    dsimp only [sysStep] at h
    unfold Wcp.call at h
    split at h
    · cases h; rfl
    · cases e with
      | send _ | recv _ | setfl _ =>
        dsimp only at h
        split at h
        · cases h
        · cases h; rfl
      | shutdown how => dsimp only at h; split_ifs at h <;> cases h <;> rfl
      | _ => cases h; rfl
  | arrive id p => cases h; split_ifs <;> rfl
  | executeOp => cases h; unfold Wcp.executeOp; split <;> rfl
  | update id t =>
    dsimp only [sysStep] at h
    split_ifs at h
    · unfold updateConn at h
      split at h
      · cases h
      · cases h; rfl
    · cases h; rfl
  | handleSyn lid r =>
    dsimp only [sysStep] at h
    dsimp only [issues] at hn
    split at h
    · cases h; rfl
    · rename_i p rest hp
      split_ifs at h with hl
      · rw [hp] at hn
        refine (handleSyn_issued h fun hm => ?_).trans rfl
        obtain ⟨hroom, hrst, hsyn, hrets⟩ := hm
        unfold BacklogFull Wcp.setConn at hroom
        rw [setObj_self] at hroom
        exact of_decide_eq_false hn ⟨hl.1, hl.2, hroom, hrst, hsyn, hrets⟩
      · cases h; rfl
  | settle lid id =>
    dsimp only [sysStep] at h
    split_ifs at h
    · unfold settlePending at h
      dsimp only at h
      split at h
      · split_ifs at h; cases h; rfl
      · split at h
        · cases h
        · cases h; rfl
      · split at h
        · cases h
        · cases h; rfl
      · cases h; rfl
      · cases h
    · cases h; rfl
  | recycle id =>
    dsimp only [sysStep] at h
    split_ifs at h
    · unfold Wcp.recycle at h
      dsimp only at h
      split_ifs at h <;> cases h <;> rfl
    · cases h; rfl

/-! ### Ages -/

/-- Nothing live is older than 2048 issues. -/
def Aged (s : Wcp) : Prop := ∀ id, Live s id → s.issued ≤ (s.obj id).birth + wcpFdMax

theorem Moves.aged (hm : Moves s s') (ht : Tables s) (ha : Aged s) (hi : s'.issued = s.issued ∨ Recent s) : Aged s' := by
  obtain ⟨t, hk, hs⟩ := hm
  have hissued : t.issued = s.issued := by rw [hk.tables]
  intro id hl
  rcases hs.live (ht.keep hk) hl with ⟨hlive, hb⟩ | ⟨-, hb⟩
  · have hold := ha id (hk.live hlive)
    rw [hb, hk.birth]
    rcases hi with hi | hi
    · omega
    · have hne := hi id (hk.live hlive)
      have hle := hs.issued
      omega
  · have hle := hs.issued
    rw [hb]
    unfold wcpFdMax
    omega

theorem Aged.unique (ha : Aged s) (ht : Tables s) {id id' : Nat} (hl : Live s id) (hl' : Live s id')
    (hfd : (s.obj id).fd = (s.obj id').fd) : id = id' := by
  have hlt : ∀ {i j}, i < j → Live s i → Live s j → (s.obj i).fd ≠ (s.obj j).fd := by
    intro i j hij hi hj
    have hj_lt := ht.lt_of_live hj
    rw [ht.fd i (ht.lt_of_live hi), ht.fd j hj_lt]
    exact fdOf_ne (ht.birth_mono i j hij hj_lt) (Nat.lt_of_lt_of_le (ht.birth_lt j hj_lt) (ha i hi))
  rcases Nat.lt_trichotomy id id' with h | h | h
  · exact absurd hfd (hlt h hl hl')
  · exact h
  · exact absurd hfd.symm (hlt h hl' hl)

/-- A map in which every control block stands under its own descriptor, and no two have the same. -/
theorem find?_iff {m : KeyMap Nat} {fd : Nat} (hkey : ∀ e ∈ m, (s.obj e.2).fd = e.1)
    (huniq : ∀ id ∈ m.vals, ∀ id' ∈ m.vals, (s.obj id).fd = (s.obj id').fd → id = id') :
    m.find? fd = some id ↔ id ∈ m.vals ∧ (s.obj id).fd = fd := by
  constructor
  · intro h
    exact ⟨KeyMap.mem_vals_of_find? h, hkey _ (KeyMap.mem_of_find? h)⟩
  · rintro ⟨hid, hfd⟩
    obtain ⟨k, hk⟩ := KeyMap.mem_vals.1 hid
    have hke : (s.obj id).fd = k := hkey _ hk
    cases hf : m.find? fd with
    | none => exact absurd (hke.symm.trans hfd) (KeyMap.find?_eq_none.1 hf _ hk)
    | some id' =>
      have hfd' : (s.obj id').fd = fd := hkey _ (KeyMap.mem_of_find? hf)
      rw [huniq id' (KeyMap.mem_vals_of_find? hf) id hid (hfd'.trans hfd.symm)]

theorem Aged.fdsSound (ha : Aged s) (ht : Tables s) : FdsSound s := by
  refine ⟨fun id id' => ha.unique ht, fun fd id => ?_, fun fd id => ?_, fun id hid => ?_⟩
  · exact find?_iff (fun e he => (ht.mapKey e he).2) fun i hi j hj => ha.unique ht (.inr (.inl hi)) (.inr (.inl hj))
  · exact find?_iff (fun e he => (ht.pendingKey e he).2) fun i hi j hj => ha.unique ht (.inl hi) (.inl hj)
  · have hout : id ∉ s.wcbMap.vals := hid.elim (fun h => (ht.pending_out id h).1) (fun h => (ht.ops_out id h).1)
    have hlive : Live s id := hid.imp_right fun h => .inr (.inl h)
    cases hf : s.wcbMap.find? (s.obj id).fd with
    | none => rfl
    | some id' =>
      have hm := KeyMap.mem_vals_of_find? hf
      have hfd : (s.obj id').fd = (s.obj id).fd := (ht.mapKey _ (KeyMap.mem_of_find? hf)).2
      rw [ha.unique ht (.inr (.inl hm)) hlive hfd] at hm
      exact absurd hm hout

end Wcp

/-- As long as no descriptor is issued while the control block made 2048 issues before is live, a new
descriptor is not that of a live control block, and every descriptor leads to the control block it was
issued for. -/
theorem descriptors_unique {u : Uninit} {es : List SysEvent} {s : Wcp}
    (h : Run sysStep (fun s e => s.issues e = true → s.Recent) (Wcp.start u) es s) :
    s.FdsSound ∧ (s.Recent → ∀ id, s.Live id → (s.obj id).fd ≠ s.nextFd) := by
  have ht : s.Tables := run_tables h
  have ha : s.Tables ∧ s.Aged := by
    refine h.inv (fun s => s.Tables ∧ s.Aged) ?_ ⟨.start u, ?_⟩
    · rintro s e s' ⟨ht, ha⟩ hc hs
      have hm := sysStep_cases hs
      refine ⟨hm.tables ht, hm.aged ht ha ?_⟩
      cases hi : s.issues e with
      | false => exact .inl (Wcp.issued_of_not_issues hs hi)
      | true => exact .inr (hc hi)
    · exact fun id _ => Nat.zero_le _
  refine ⟨ha.2.fdsSound ht, fun hr id hl => ?_⟩
  have hlt := ht.lt_of_live hl
  have hage := ha.2 id hl
  have hne := hr id hl
  rw [ht.fd id hlt, Wcp.nextFd, ht.counter]
  exact fdOf_ne (ht.birth_lt id hlt) (by omega)

/-- Two sockets, of which the first is connected. -/
theorem descriptors_unique_two :
    ∃ s, Run sysStep (fun s e => s.issues e = true → s.Recent) (Wcp.start ⟨0, 0, 0, 0⟩)
        [.socket ok ⟨0, 0, 0, 0⟩ 0, .connect (fdOf 0) ⟨1⟩ 0 ok, .socket ok ⟨0, 0, 0, 0⟩ 0] s ∧
      s.FdsSound ∧ s.Live 0 ∧ s.Live 1 := by
  have hfew : ∀ {s : Wcp}, s.issued < wcpFdMax → s.Recent := fun hs id _ he => by omega
  have hrun : Run sysStep (fun s e => s.issues e = true → s.Recent) (Wcp.start ⟨0, 0, 0, 0⟩)
      [.socket ok ⟨0, 0, 0, 0⟩ 0, .connect (fdOf 0) ⟨1⟩ 0 ok, .socket ok ⟨0, 0, 0, 0⟩ 0] _ :=
    .cons (fun _ => hfew (by decide)) rfl (.cons (fun _ => hfew (by decide)) rfl
      (.cons (fun _ => hfew (by decide)) rfl (.nil _)))
  exact ⟨_, hrun, (descriptors_unique hrun).1, .inr (.inl (by decide)), .inl (by decide)⟩

/-! ### A connection that lives on

One connection stays open while other sockets come and go. -/

/-- A socket and the call that closes it again. -/
def briefSocket (k : Nat) : List SysEvent := [.socket ok ⟨0, 0, 0, 0⟩ 0, .close (fdOf k)]

/-- The first socket is connected, and `n` others are opened and closed. -/
def longConnection (n : Nat) : List SysEvent :=
  [.socket ok ⟨0, 0, 0, 0⟩ 0, .connect (fdOf 0) ⟨1⟩ 0 ok] ++ (List.range n).flatMap fun k => briefSocket (k + 1)

/-- Behind `k` issues only the first control block is left. -/
structure OneLeft (k : Nat) (s : Wcp) : Prop where
  counter : s.autoIncrementId = BitVec.ofNat 32 (1 + k)
  allocated : s.allocated = k
  pending : s.createPendingMap = []
  map : s.wcbMap = [(fdOf 0, 0)]
  fd : (s.obj 0).fd = fdOf 0

/-- The socket that a state with one connection gives. -/
theorem OneLeft.socket {k : Nat} {s : Wcp} (h : OneLeft k s) (hk : 0 < k) :
    ∃ s', sysStep (.socket ok ⟨0, 0, 0, 0⟩ 0) s = .ok s' ∧ s'.autoIncrementId = BitVec.ofNat 32 (1 + (k + 1)) ∧
      s'.allocated = k + 1 ∧ s'.createPendingMap = [(fdOf k, k)] ∧ s'.wcbMap = [(fdOf 0, 0)] ∧
      (s'.obj 0).fd = fdOf 0 ∧ (s'.obj k).fd = fdOf k ∧ (s'.obj k).conn.closedCalled = false := by
  have hfd : s.nextFd = fdOf k := by rw [Wcp.nextFd, h.counter]; rfl
  refine ⟨_, rfl, ?_⟩
  unfold Wcp.socket
  rw [if_neg (by simp), if_neg (by rw [h.pending]; intro hp; cases hp)]
  refine ⟨?_, ?_, ?_, h.map, ?_, ?_, ?_⟩
  · show s.autoIncrementId + 1 = _
    rw [h.counter, ← Nat.add_assoc]
    exact (BitVec.ofNat_add (1 + k) 1).symm
  · show s.allocated + 1 = k + 1
    rw [h.allocated]
  · show s.createPendingMap.insert s.nextFd s.allocated = _
    rw [h.pending, hfd, h.allocated]; rfl
  · show (Function.update s.obj s.allocated _ 0).fd = _
    rw [h.allocated, Function.update_of_ne (Nat.ne_of_lt hk)]
    exact h.fd
  · show (Function.update s.obj s.allocated _ k).fd = _
    rw [h.allocated, Function.update_self]
    exact hfd
  · show (Function.update s.obj s.allocated _ k).conn.closedCalled = _
    rw [h.allocated, Function.update_self]
    rfl

theorem OneLeft.brief {k : Nat} {s : Wcp} (h : OneLeft k s) (hk : 0 < k) (hlt : k < wcpFdMax) :
    ∃ s', Run sysStep (fun _ _ => True) s (briefSocket k) s' ∧ OneLeft (k + 1) s' := by
  obtain ⟨t, ht, hcounter, halloc, hpend, hmap, hfd, hfdk, hopen⟩ := h.socket hk
  have hne : fdOf 0 ≠ fdOf k := fdOf_ne hk (by omega)
  have hmiss : t.wcbMap.find? (fdOf k) = none := by
    rw [hmap]
    exact KeyMap.find?_eq_none.2 fun e he => by rw [List.mem_singleton.1 he]; exact hne
  have hhit : t.createPendingMap.find? (fdOf k) = some k := by
    rw [hpend]; simp [KeyMap.find?]
  obtain ⟨w, hclose⟩ : ∃ w, sysStep (.close (fdOf k)) t =
      .ok { t.setConn k w with createPendingMap := t.createPendingMap.erase (fdOf k) } := by
    dsimp only [sysStep]
    unfold Wcp.close
    rw [hmiss]
    dsimp only
    rw [hhit]
    dsimp only
    rw [close_eq hopen]
    exact ⟨_, rfl⟩
  refine ⟨_, .cons trivial ht (.cons trivial hclose (.nil _)), ⟨hcounter, halloc, ?_, hmap, ?_⟩⟩
  · show t.createPendingMap.erase (fdOf k) = []
    rw [hpend]; simp [KeyMap.erase]
  · refine (congrArg WcbObj.fd (Wcp.setObj_of_ne t _ (Nat.ne_of_lt hk))).trans hfd

theorem longConnection_oneLeft (n : Nat) (hn : n < wcpFdMax) :
    ∃ s, Run sysStep (fun _ _ => True) (Wcp.start ⟨0, 0, 0, 0⟩) (longConnection n) s ∧ OneLeft (n + 1) s := by
  induction n with
  | zero => exact ⟨_, .cons trivial rfl (.cons trivial rfl (.nil _)), ⟨rfl, rfl, rfl, rfl, rfl⟩⟩
  | succ n ih =>
    obtain ⟨s, hrun, hs⟩ := ih (by omega)
    obtain ⟨s', hbrief, hs'⟩ := hs.brief (Nat.succ_pos n) hn
    refine ⟨s', ?_, hs'⟩
    have hsplit : longConnection (n + 1) = longConnection n ++ briefSocket (n + 1) := by
      unfold longConnection
      rw [List.range_succ, List.flatMap_append, List.flatMap_singleton, List.append_assoc]
    rw [hsplit]
    exact hrun.append hbrief

/-- The socket opened behind 2047 others gets the descriptor of the connection that is still open: in one
table it leads to the new control block, in the other to the connection. -/
theorem descriptor_reused :
    ∃ s, Run sysStep (fun _ _ => True) (Wcp.start ⟨0, 0, 0, 0⟩)
        (longConnection 2047 ++ [.socket ok ⟨0, 0, 0, 0⟩ 0]) s ∧
      s.Live 0 ∧ s.Live 2048 ∧ (s.obj 0).fd = (s.obj 2048).fd ∧
      s.createPendingMap.find? (s.obj 2048).fd = some 2048 ∧ s.wcbMap.find? (s.obj 2048).fd = some 0 := by
  obtain ⟨s, hrun, hs⟩ := longConnection_oneLeft 2047 (by decide)
  obtain ⟨t, ht, -, -, hpend, hmap, hfd, hfdk, -⟩ := hs.socket (Nat.succ_pos 2047)
  have hwrap : fdOf 0 = fdOf (2047 + 1) := by decide
  refine ⟨t, hrun.append (.cons trivial ht (.nil _)), .inr (.inl ?_), .inl ?_, ?_, ?_, ?_⟩
  · rw [hmap]; simp [KeyMap.vals]
  · rw [hpend]; simp [KeyMap.vals]
  · exact hfd.trans (hwrap.trans hfdk.symm)
  · rw [hpend, hfdk]; simp [KeyMap.find?]
  · rw [hmap, hfdk, ← hwrap]; simp [KeyMap.find?]

end Wawo
