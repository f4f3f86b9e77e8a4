import Wawo.Wcp.Tables

/-!
# A second SYN at a listener

`listen_handle_syn` does not look for the connection that an earlier copy of a SYN has made: it makes
another socket and control block, finds the four-tuple taken and answers with an RST. `Registered` is the
invariant behind this: the four-tuple of every connection that a listener has made stays in
`m_wcb_four_tuple_map` until its control block is recycled.
-/

namespace Wawo

open Lts

/-- A control block without the record of the RST packs. -/
def WcbObj.sansRsts (o : WcbObj) : WcbObj := { o with rsts := [] }

namespace Wcp

variable {s s' t : Wcp} {id lid : Nat} {a : Address} {r : AcceptRets} {p : WcbReceivedPack}

/-! ### The four-tuple table -/

/-- What is known of a control block that the listener `lid` has made for a SYN from `a`. -/
structure Accepted (s : Wcp) (id lid : Nat) (a : Address) : Prop where
  lt : lid < s.allocated
  listener : lid ∉ s.createPendingMap.vals -- its `local_addr` is fixed
  hash : (s.obj id).fourTupleHashId = fourTupleHash (s.obj lid).localAddr a
  hash_ne : (s.obj id).fourTupleHashId ≠ 0
  entry : (s.obj id).conn.Spent ∨ ((s.obj id).fourTupleHashId, id) ∈ s.fourTupleMap

structure Registered (s : Wcp) : Prop where
  functional : s.fourTupleMap.Functional
  recycled : ∀ id, (s.obj id).conn.state = .recycle → (s.obj id).conn.closedCalled = true
  accepted : ∀ id < s.allocated, ∀ lid a, (s.obj id).origin = some (lid, a) → Accepted s id lid a
  held : ∀ id, id ∈ s.wcbMap.vals ∨ id ∈ s.ops → (s.obj id).passiveOpen = true →
    ((s.obj id).fourTupleHashId, id) ∈ s.fourTupleMap
  active : ∀ id ∈ s.createPendingMap.vals, (s.obj id).passiveOpen = false

theorem Registered.keep (h : Registered s) (hk : KeepsObjs s t) : Registered t := by
  obtain ⟨f, rfl⟩ : ∃ f, t = { s with obj := f } := ⟨_, hk.tables⟩
  refine ⟨h.functional, fun id => (hk.conn id).recycle (h.recycled id), ?_, ?_, ?_⟩
  · intro id hid lid a ho
    rw [hk.origin] at ho
    have hacc := h.accepted id hid lid a ho
    refine ⟨hacc.lt, hacc.listener, ?_, ?_, ?_⟩
    · rw [hk.hash, hk.localAddr lid hacc.listener]; exact hacc.hash
    · rw [hk.hash]; exact hacc.hash_ne
    · rw [hk.hash]; exact hacc.entry.imp_left (hk.conn id).spent
  · intro id hid hp
    rw [hk.passive] at hp
    rw [hk.hash]
    exact h.held id hid hp
  · intro id hid
    rw [hk.passive]
    exact h.active id hid

/-- The tables change, but no control block is added and the four-tuple table stays. -/
theorem Registered.tables (h : Registered s) {pm m : KeyMap Nat} {ops : List Nat}
    (hpm : ∀ id ∈ pm.vals, id ∈ s.createPendingMap.vals)
    (hm : ∀ id, id ∈ m.vals ∨ id ∈ ops → id ∈ s.createPendingMap.vals ∨ id ∈ s.wcbMap.vals ∨ id ∈ s.ops) :
    Registered { s with createPendingMap := pm, wcbMap := m, ops := ops } := by
  refine ⟨h.functional, h.recycled, fun id hid lid a ho => ?_, fun id hid hp => ?_, fun id hid => h.active id (hpm id hid)⟩
  · have hacc := h.accepted id hid lid a ho
    exact ⟨hacc.lt, fun hl => hacc.listener (hpm lid hl), hacc.hash, hacc.hash_ne, hacc.entry⟩
  · rcases hm id hid with hid | hid
    · exact absurd (hp.symm.trans (h.active id hid)) nofun
    · exact h.held id hid hp

/-- A control block is added, for a SYN or by `socket`. -/
theorem Registered.alloc {o : WcbObj} {pm m : KeyMap Nat} {ops : List Nat} (h : Registered s) (ht : Tables s)
    (ho : Fresh s o) (hm : m.Functional) (hsub : ∀ e ∈ s.fourTupleMap, e ∈ m)
    (hpm : ∀ i ∈ pm.vals, i ∈ s.createPendingMap.vals ∨ i = s.allocated ∧ o.passiveOpen = false)
    (hops : ∀ i ∈ ops, i ∈ s.ops ∨ i = s.allocated ∧ (o.fourTupleHashId, s.allocated) ∈ m)
    (hacc : ∀ lid a, o.origin = some (lid, a) → lid ∈ s.wcbMap.vals ∧
      o.fourTupleHashId = fourTupleHash (s.obj lid).localAddr a ∧ o.fourTupleHashId ≠ 0 ∧
      (o.fourTupleHashId, s.allocated) ∈ m) :
    Registered { s.issue.alloc o with createPendingMap := pm, fourTupleMap := m, ops := ops } := by
  have hself : (s.issue.alloc o).obj s.allocated = o := alloc_obj_self s o
  have hold : ∀ {i}, i < s.allocated → (s.issue.alloc o).obj i = s.obj i := fun hi => alloc_obj_of_lt o hi
  have hmap : ∀ i ∈ s.wcbMap.vals, i < s.allocated := by
    intro i hi
    obtain ⟨k, hk⟩ := KeyMap.mem_vals.1 hi
    exact (ht.mapKey _ hk).1
  have hout : ∀ {i}, i < s.allocated → i ∉ s.createPendingMap.vals → i ∉ pm.vals := by
    intro i hi hn hp
    rcases hpm i hp with hp | ⟨rfl, -⟩
    · exact hn hp
    · exact Nat.lt_irrefl _ hi
  refine ⟨hm, fun i hi => ?_, fun i hi lid a hg => ?_, fun i hi hp => ?_, fun i hi => ?_⟩
  · change ((s.issue.alloc o).obj i).conn.state = .recycle at hi
    change ((s.issue.alloc o).obj i).conn.closedCalled = true
    by_cases he : i = s.allocated
    · subst he; rw [hself] at hi; exact absurd hi ho.conn
    · have hne : (s.issue.alloc o).obj i = s.obj i := Function.update_of_ne he ..
      rw [hne] at hi ⊢
      exact h.recycled i hi
  · change ((s.issue.alloc o).obj i).origin = _ at hg
    rcases Nat.lt_succ_iff_lt_or_eq.1 hi with hi | rfl
    · rw [hold hi] at hg
      have ha := h.accepted i hi lid a hg
      refine ⟨Nat.lt_succ_of_lt ha.lt, hout ha.lt ha.listener, ?_, ?_, ?_⟩
      · show ((s.issue.alloc o).obj i).fourTupleHashId = fourTupleHash ((s.issue.alloc o).obj lid).localAddr a
        rw [hold hi, hold ha.lt]; exact ha.hash
      · show ((s.issue.alloc o).obj i).fourTupleHashId ≠ 0
        rw [hold hi]; exact ha.hash_ne
      · show ((s.issue.alloc o).obj i).conn.Spent ∨ (((s.issue.alloc o).obj i).fourTupleHashId, i) ∈ m
        rw [hold hi]; exact ha.entry.imp_right (hsub _)
    · change ((s.issue.alloc o).obj s.allocated).origin = _ at hg
      rw [hself] at hg
      obtain ⟨hl, hh, hz, hin⟩ := hacc lid a hg
      refine ⟨Nat.lt_succ_of_lt (hmap lid hl), hout (hmap lid hl) fun hp => (ht.pending_out lid hp).1 hl, ?_, ?_, ?_⟩
      · show ((s.issue.alloc o).obj s.allocated).fourTupleHashId = fourTupleHash ((s.issue.alloc o).obj lid).localAddr a
        rw [hself, hold (hmap lid hl)]; exact hh
      · show ((s.issue.alloc o).obj s.allocated).fourTupleHashId ≠ 0
        rw [hself]; exact hz
      · right
        show (((s.issue.alloc o).obj s.allocated).fourTupleHashId, s.allocated) ∈ m
        rw [hself]; exact hin
  · change ((s.issue.alloc o).obj i).passiveOpen = true at hp
    change (((s.issue.alloc o).obj i).fourTupleHashId, i) ∈ m
    have hi : i ∈ s.wcbMap.vals ∨ i ∈ ops := hi
    have hcase : (i ∈ s.wcbMap.vals ∨ i ∈ s.ops) ∨ i = s.allocated ∧ (o.fourTupleHashId, s.allocated) ∈ m := by
      rcases hi with hi | hi
      · exact .inl (.inl hi)
      · exact (hops i hi).imp_left .inr
    rcases hcase with hi | ⟨rfl, hin⟩
    · have hlt : i < s.allocated := hi.elim (hmap i) (ht.ops_lt i)
      rw [hold hlt] at hp ⊢
      exact hsub _ (h.held i hi hp)
    · rw [hself]; exact hin
  · show ((s.issue.alloc o).obj i).passiveOpen = false
    rcases hpm i hi with hi | ⟨rfl, hp⟩
    · obtain ⟨k, hk⟩ := KeyMap.mem_vals.1 hi
      rw [hold (ht.pendingKey _ hk).1]
      exact h.active i hi
    · rw [hself]; exact hp

/-- Only the lists of pending connections change. -/
theorem Registered.pending {f : Nat → WcbObj} (h : Registered s)
    (hf : ∀ i, ∃ l, f i = { s.obj i with backloglistPending := l }) : Registered { s with obj := f } := by
  refine ⟨h.functional, fun i => ?_, fun i hi lid a => ?_, fun i hi => ?_, fun i hi => ?_⟩
  · obtain ⟨l, he⟩ := hf i
    show (f i).conn.state = _ → (f i).conn.closedCalled = true
    rw [he]; exact h.recycled i
  · obtain ⟨l, he⟩ := hf i
    obtain ⟨l', he'⟩ := hf lid
    intro hg
    change (f i).origin = _ at hg
    rw [he] at hg
    have ha := h.accepted i hi lid a hg
    refine ⟨ha.lt, ha.listener, ?_, ?_, ?_⟩
    · show (f i).fourTupleHashId = fourTupleHash (f lid).localAddr a
      rw [he, he']; exact ha.hash
    · show (f i).fourTupleHashId ≠ 0
      rw [he]; exact ha.hash_ne
    · show (f i).conn.Spent ∨ ((f i).fourTupleHashId, i) ∈ s.fourTupleMap
      rw [he]; exact ha.entry
  · obtain ⟨l, he⟩ := hf i
    show (f i).passiveOpen = true → ((f i).fourTupleHashId, i) ∈ s.fourTupleMap
    rw [he]; exact h.held i hi
  · obtain ⟨l, he⟩ := hf i
    show (f i).passiveOpen = false
    rw [he]; exact h.active i hi

/-- The entry that a recycled control block takes with it is its own. -/
theorem Registered.recycle (h : Registered s) (ht : Tables s) (hid : id ∈ s.wcbMap.vals)
    (hst : (s.obj id).conn.state = .recycle) :
    Registered { s with
      fourTupleMap := if (s.obj id).passiveOpen then s.fourTupleMap.erase (s.obj id).fourTupleHashId else s.fourTupleMap
      wcbMap := s.wcbMap.erase (s.obj id).fd } := by
  have hspent : (s.obj id).conn.Spent := ⟨hst, h.recycled id hst⟩
  have hgone : id ∉ (s.wcbMap.erase (s.obj id).fd).vals := by
    intro hm
    obtain ⟨k, hk⟩ := KeyMap.mem_vals.1 hm
    obtain ⟨hk, hne⟩ := KeyMap.mem_erase.1 hk
    exact hne (ht.mapKey _ hk).2.symm
  have hother : ∀ i, i ≠ id → ((s.obj i).fourTupleHashId, i) ∈ s.fourTupleMap →
      ((s.obj i).fourTupleHashId, i) ∈
        if (s.obj id).passiveOpen then s.fourTupleMap.erase (s.obj id).fourTupleHashId else s.fourTupleMap := by
    intro i hne hin
    split_ifs with hp
    · refine KeyMap.mem_erase.2 ⟨hin, fun he => hne ?_⟩
      exact congrArg Prod.snd (h.functional _ hin _ (h.held id (.inl hid) hp) he)
    · exact hin
  refine ⟨?_, h.recycled, fun i hi lid a hg => ?_, fun i hi hp => ?_, h.active⟩
  · show KeyMap.Functional (if (s.obj id).passiveOpen then _ else _)
    split_ifs
    · exact h.functional.erase _
    · exact h.functional
  · have ha := h.accepted i hi lid a hg
    refine ⟨ha.lt, ha.listener, ha.hash, ha.hash_ne, ?_⟩
    by_cases he : i = id
    · subst he; exact .inl hspent
    · exact ha.entry.imp_right (hother i he)
  · have hne : i ≠ id := by
      rintro rfl
      rcases hi with hi | hi
      · exact hgone hi
      · exact (ht.ops_out i hi).1 hid
    exact hother i hne (h.held i (hi.imp_left KeyMap.mem_vals_erase) hp)

theorem Registered.step (h : Registered s) (ht : Tables s) (hs : TableStep s s') : Registered s' := by
  cases hs with
  | keep => exact h
  | refuse =>
    exact ⟨h.functional, h.recycled, fun id hid lid a hg =>
      let ha := h.accepted id hid lid a hg; ⟨ha.lt, ha.listener, ha.hash, ha.hash_ne, ha.entry⟩, h.held, h.active⟩
  | create o ho hp hg _ =>
    refine h.alloc ht ho h.functional (fun _ he => he) (fun i hi => ?_) (fun i hi => .inl hi) fun lid a ha => ?_
    · exact (KeyMap.mem_vals_insert hi).symm.imp_right fun he => ⟨he, hp⟩
    · rw [hg] at ha; cases ha
  | activate fd id hf =>
    have hid : id ∈ s.createPendingMap.vals := KeyMap.mem_vals_of_find? hf
    refine h.tables (fun i hi => KeyMap.mem_vals_erase hi) fun i hi => ?_
    rcases hi with hi | hi
    · rcases KeyMap.mem_vals_insert hi with rfl | hi
      · exact .inl hid
      · exact .inr (.inl hi)
    · exact .inr (.inr hi)
  | drop fd id _ => exact h.tables (fun i hi => KeyMap.mem_vals_erase hi) fun i hi => .inr hi
  | passive lid a o hl ho _ hg hh hz hf =>
    have hin : (o.fourTupleHashId, s.allocated) ∈ s.fourTupleMap.insert o.fourTupleHashId s.allocated :=
      KeyMap.mem_insert_self hf
    have hal : Registered { s.issue.alloc o with
        createPendingMap := s.createPendingMap
        fourTupleMap := s.fourTupleMap.insert o.fourTupleHashId s.allocated, ops := s.ops ++ [s.allocated] } := by
      refine h.alloc ht ho (h.functional.insert _ _) (fun _ he => KeyMap.mem_insert_of_mem he) (fun i hi => .inl hi)
        (fun i hi => ?_) fun lid' a' ha => ?_
      · exact (List.mem_append.1 hi).imp_right fun he => ⟨List.mem_singleton.1 he, hin⟩
      · rw [hg] at ha
        cases ha
        exact ⟨hl, hh, hz, hin⟩
    refine hal.pending fun i => ?_
    by_cases he : i = lid
    · subst he; exact ⟨_, setObj_self ..⟩
    · exact ⟨_, setObj_of_ne _ _ he⟩
  | execute id rest ho =>
    refine h.tables (fun i hi => hi) fun i hi => .inr ?_
    rcases hi with hi | hi
    · rcases KeyMap.mem_vals_insert hi with rfl | hi
      · exact .inr (by rw [ho]; simp)
      · exact .inl hi
    · exact .inr (by rw [ho]; exact List.mem_cons_of_mem _ hi)
  | recycle id hid hst => exact h.recycle ht hid hst

theorem Registered.start (u : Uninit) : Registered (Wcp.start u) :=
  ⟨nofun, nofun, fun _ hid => absurd hid (Nat.not_lt_zero _), nofun, nofun⟩

theorem Moves.registered (hm : Moves s s') (h : Tables s ∧ Registered s) : Tables s' ∧ Registered s' := by
  obtain ⟨t, hk, hs⟩ := hm
  have ht := h.1.keep hk
  exact ⟨ht.step hs, (h.2.keep hk).step ht hs⟩

/-! ### What a round of `listen_handle_syn` does with a SYN -/

/-- No control block is changed or made. -/
structure SameWcbs (s s' : Wcp) : Prop where
  allocated : s'.allocated = s.allocated
  obj : ∀ id, (s'.obj id).sansRsts = (s.obj id).sansRsts

/-- The round for `p` changes no control block and sends its sender no RST. -/
def SynIdempotent (s : Wcp) (lid : Nat) (r : AcceptRets) (p : WcbReceivedPack) : Prop :=
  ∃ s', s.handleSyn lid r p = .ok s' ∧ SameWcbs s s' ∧
    ∀ x ∈ (s'.obj lid).rsts.drop (s.obj lid).rsts.length, x.1 ≠ p.fromAddr

/-- The listener has a pending or established connection with `a`. -/
def HasConn (s : Wcp) (lid : Nat) (a : Address) : Prop :=
  ∃ id < s.allocated, (s.obj id).origin = some (lid, a) ∧ (s.obj id).conn.state ≠ .recycle ∧
    (id ∈ (s.obj lid).backloglistPending ∨ (s.obj id).conn.state = .established)

/-- All that the round does is send the RST. -/
structure RepliesRst (s s' : Wcp) (lid : Nat) (p : WcbReceivedPack) : Prop where
  rsts : (s'.obj lid).rsts = (s.obj lid).rsts ++ [(p.fromAddr, .fresh p.header.ack .rst [] (Nat.zero_le _))]
  wcbs : SameWcbs s s'

theorem replyRst_repliesRst (s : Wcp) (lid : Nat) (p : WcbReceivedPack) : RepliesRst s (s.replyRst lid p) lid p := by
  refine ⟨congrArg WcbObj.rsts (setObj_self ..), rfl, fun id => ?_⟩
  unfold replyRst
  by_cases he : id = lid
  · subst he; rw [setObj_self]; rfl
  · rw [setObj_of_ne _ _ he]

theorem issue_replyRst_repliesRst (s : Wcp) (lid : Nat) (p : WcbReceivedPack) :
    RepliesRst s (s.issue.replyRst lid p) lid p := by
  obtain ⟨hr, ha, ho⟩ := replyRst_repliesRst s.issue lid p
  exact ⟨hr, ha, ho⟩

theorem RepliesRst.not_idempotent (h : RepliesRst s s' lid p) (hs : s.handleSyn lid r p = .ok s') :
    ¬ SynIdempotent s lid r p := by
  rintro ⟨t, ht, -, hq⟩
  rw [hs] at ht
  cases ht
  rw [h.rsts, List.drop_left] at hq
  exact hq _ (List.mem_singleton.2 rfl) rfl

/-- A pack goes unanswered, and without effect, only if it is an RST. -/
theorem synIdempotent_iff : SynIdempotent s lid r p ↔ p.testFlag .rst = true ∧ ¬ BacklogFull s lid := by
  constructor
  · rintro ⟨s', h, hsame, hq⟩
    rcases handleSyn_cases h with ⟨rfl, -⟩ | ⟨-, hroom, hrst⟩ | ⟨rfl, -⟩ | ⟨rfl, -⟩
    · exact absurd ⟨_, h, hsame, hq⟩ ((replyRst_repliesRst s lid p).not_idempotent h)
    · exact ⟨hrst, hroom⟩
    · exact absurd ⟨_, h, hsame, hq⟩ ((issue_replyRst_repliesRst s lid p).not_idempotent h)
    · exact absurd hsame.allocated (Nat.succ_ne_self s.allocated)
  · rintro ⟨hrst, hroom⟩
    have h : s.handleSyn lid r p = .ok s := (if_neg hroom).trans (if_pos hrst)
    refine ⟨s, h, ⟨rfl, fun _ => rfl⟩, ?_⟩
    rw [List.drop_length]
    exact nofun

/-- The four-tuple of the sender is taken. -/
theorem handleSyn_taken (hz : fourTupleHash (s.obj lid).localAddr p.fromAddr ≠ 0)
    (hf : (s.fourTupleMap.find? (fourTupleHash (s.obj lid).localAddr p.fromAddr)).isSome = true)
    (hsyn : p.testFlag .syn = true) (hrst : ¬ p.testFlag .rst = true) :
    ∃ s', s.handleSyn lid r p = .ok s' ∧ RepliesRst s s' lid p := by
  have hreply := replyRst_repliesRst s lid p
  obtain ⟨rt, hc, hrt⟩ : ∃ rt, s.addToFourTupleHashMap (fourTupleHash (s.obj lid).localAddr p.fromAddr) s.allocated =
      .ok (rt, s.fourTupleMap) ∧ rt < 0 := by
    unfold addToFourTupleHashMap
    rw [if_neg hz, if_pos hf]
    split_ifs
    · exact ⟨_, rfl, by decide⟩
    · exact ⟨_, rfl, by decide⟩
  by_cases hfull : (s.obj lid).backlogq.length + (s.obj lid).backloglistPending.length = (s.obj lid).backlogSize
  · unfold handleSyn
    rw [if_pos hfull]
    exact ⟨_, rfl, hreply⟩
  by_cases hrets : r.rets.any (· ≠ ok) = true
  · unfold handleSyn
    rw [if_neg hfull, if_neg hrst, if_neg (not_not.2 hsyn), if_pos hrets]
    exact ⟨_, rfl, hreply⟩
  · have hm : MakesWcb s lid r p := ⟨hfull, hrst, hsyn, hrets⟩
    exact ⟨_, hm.handleSyn_refused hc hrt, issue_replyRst_repliesRst s lid p⟩

theorem Registered.handleSyn_conn (h : Registered s) (hc : HasConn s lid p.fromAddr) (hsyn : p.testFlag .syn = true)
    (hrst : ¬ p.testFlag .rst = true) : ∃ s', s.handleSyn lid r p = .ok s' ∧ RepliesRst s s' lid p := by
  obtain ⟨id, hid, hg, hst, -⟩ := hc
  have ha := h.accepted id hid lid _ hg
  have hin : ((s.obj id).fourTupleHashId, id) ∈ s.fourTupleMap := ha.entry.resolve_left fun hs => hst hs.state
  refine handleSyn_taken (ha.hash ▸ ha.hash_ne) ?_ hsyn hrst
  rw [← ha.hash, Option.isSome_iff_ne_none]
  exact fun hn => KeyMap.find?_eq_none.1 hn _ hin rfl

/-! ### Batches -/

theorem handleSyn_wcbMap (h : s.handleSyn lid r p = .ok s') : s'.wcbMap = s.wcbMap := by
  rcases handleSyn_cases h with ⟨rfl, -⟩ | ⟨rfl, -⟩ | ⟨rfl, -⟩ | ⟨rfl, -⟩ <;> rfl

theorem listenHandleSyn_registered {batch : List (AcceptRets × WcbReceivedPack)} (h : Tables s ∧ Registered s)
    (hl : lid ∈ s.wcbMap.vals) (hb : listenHandleSyn lid batch s = .ok s') : Tables s' ∧ Registered s' := by
  induction batch generalizing s with
  | nil => cases hb; exact h
  | cons x batch ih =>
    obtain ⟨r, p⟩ := x
    obtain ⟨t, ht, hb⟩ := bind_eq_ok.1 hb
    exact ih ((handleSyn_moves hl ht).registered h) (by rw [handleSyn_wcbMap ht]; exact hl) hb

end Wcp

/-- In every reachable state, behind any part `pre` of a batch, a SYN from a remote that has a pending or
established connection at the listener is answered with an RST, unless it carries an RST itself. -/
theorem duplicate_syn_rst {u : Uninit} {es : List SysEvent} {s t : Wcp} {lid : Nat} {r : Wcp.AcceptRets}
    {p : WcbReceivedPack} {pre : List (Wcp.AcceptRets × WcbReceivedPack)}
    (h : Run sysStep (fun _ _ => True) (Wcp.start u) es s) (hl : s.listening lid = true)
    (hpre : Wcp.listenHandleSyn lid pre s = .ok t) (hc : t.HasConn lid p.fromAddr) (hsyn : p.testFlag .syn = true) :
    (t.SynIdempotent lid r p ↔ p.testFlag .rst = true ∧ ¬ t.BacklogFull lid) ∧
      (¬ p.testFlag .rst = true → ∃ t', t.handleSyn lid r p = .ok t' ∧ t.RepliesRst t' lid p) := by
  have hinv : s.Tables ∧ s.Registered :=
    h.inv (fun s => s.Tables ∧ s.Registered) (fun _ _ _ hi _ hs => (sysStep_cases hs).registered hi)
      ⟨.start u, .start u⟩
  have hmem : lid ∈ s.wcbMap.vals := (of_decide_eq_true hl).1
  have hreg := (Wcp.listenHandleSyn_registered hinv hmem hpre).2
  exact ⟨Wcp.synIdempotent_iff, fun hrst => hreg.handleSyn_conn hc hsyn hrst⟩

/-! ### Two copies of one SYN -/

/-- A SYN from 127.0.0.2, port 80 -/
def synCopy : WcbReceivedPack := ⟨(Datagram.fresh 0 .syn [] (Nat.zero_le _)).stamp 0 (2 * wcpRcvBufferMin), ⟨0x0200007F5000⟩⟩

/-- Every call on the socket of the accepted connection succeeds. -/
def acceptOk : Wcp.AcceptRets := ⟨[ok, ok, ok, ok, ok, ok], ⟨0x0100007F5000⟩, ⟨0, 0, 0, 0⟩, 0⟩

/-- A listener on 127.0.0.1, port 80, at which two copies of the SYN have arrived. -/
def twoCopies : List SysEvent :=
  [.socket ok ⟨0, 0, 0, 0⟩ 0, .bind (fdOf 0) ⟨0x0100007F5000⟩ ok, .listen (fdOf 0) 5 ok ok, .arrive 0 synCopy,
    .arrive 0 synCopy]

/-- The state in which the second copy is handled. -/
theorem twoCopies_second :
    ∃ s t, Run sysStep (fun _ _ => True) (Wcp.start ⟨0, 0, 0, 0⟩) twoCopies s ∧ s.listening 0 = true ∧
      Wcp.listenHandleSyn 0 [(acceptOk, synCopy)] s = .ok t ∧ t.HasConn 0 synCopy.fromAddr := by
  refine ⟨_, _, .cons trivial rfl (.cons trivial rfl (.cons trivial rfl (.cons trivial rfl (.cons trivial rfl (.nil _))))),
    by decide, rfl, 1, by decide, by decide, by decide, .inl (by decide)⟩

theorem duplicate_syn_rst_twoCopies :
    ∃ s t t', Run sysStep (fun _ _ => True) (Wcp.start ⟨0, 0, 0, 0⟩) twoCopies s ∧
      Wcp.listenHandleSyn 0 [(acceptOk, synCopy)] s = .ok t ∧ t.HasConn 0 synCopy.fromAddr ∧
      t.handleSyn 0 acceptOk synCopy = .ok t' ∧ t.RepliesRst t' 0 synCopy := by
  obtain ⟨s, t, hrun, hl, hpre, hc⟩ := twoCopies_second
  obtain ⟨t', ht', hr⟩ := (duplicate_syn_rst (r := acceptOk) hrun hl hpre hc (by decide)).2 (by decide)
  exact ⟨s, t, t', hrun, hpre, hc, ht', hr⟩

/-- The second copy in a batch makes the listener send an RST to the remote whose handshake is under way. -/
theorem duplicate_syn_not_idempotent :
    ∃ s t, Run sysStep (fun _ _ => True) (Wcp.start ⟨0, 0, 0, 0⟩) twoCopies s ∧ s.listening 0 = true ∧
      Wcp.listenHandleSyn 0 [(acceptOk, synCopy)] s = .ok t ∧ t.HasConn 0 synCopy.fromAddr ∧
      synCopy.testFlag .syn = true ∧ ¬ t.SynIdempotent 0 acceptOk synCopy := by
  obtain ⟨s, t, hrun, hl, hpre, hc⟩ := twoCopies_second
  exact ⟨s, t, hrun, hl, hpre, hc, by decide, fun hi => absurd (Wcp.synIdempotent_iff.1 hi).1 (by decide)⟩

end Wawo
