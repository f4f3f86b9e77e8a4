import Wawo.Wcp.Tables
import Wawo.Wcp.Wpoll

/-!
# What `wpoll_wait` returns

An event that `wpoll_wait` finds in the list of its handle is one that is watched (`poll_spec`,
`ScanInv`). An event that was parked need not be: the queue does not know the handle it was parked for,
and it is checked only that some bit of its watch is left. `Careful` excludes both.
-/

namespace Wawo

open Lts

/-! ### Bits -/

/-- The `WPOLLIN` and `WPOLLOUT` bits of `e` are bits of `w`. -/
def Within (e w : WpollEvts) : Prop := ∀ b ∈ [wpollin, wpollout], e &&& b ≠ 0 → w &&& b ≠ 0

theorem and_wpollin (x : WpollEvts) : x &&& wpollin ≠ 0 ↔ x.getLsbD 0 = true := by
  rw [show wpollin = BitVec.twoPow 32 0 from rfl, BitVec.and_twoPow]
  split_ifs with h
  · exact iff_of_true (by decide) h
  · exact iff_of_false (by simp) h

theorem and_wpollout (x : WpollEvts) : x &&& wpollout ≠ 0 ↔ x.getLsbD 1 = true := by
  rw [show wpollout = BitVec.twoPow 32 1 from rfl, BitVec.and_twoPow]
  split_ifs with h
  · exact iff_of_true (by decide) h
  · exact iff_of_false (by simp) h

theorem within_iff {e w : WpollEvts} :
    Within e w ↔ (e.getLsbD 0 = true → w.getLsbD 0 = true) ∧ (e.getLsbD 1 = true → w.getLsbD 1 = true) := by
  unfold Within
  simp only [List.forall_mem_cons, and_wpollin, and_wpollout, List.not_mem_nil, false_imp_iff, implies_true, and_true]

theorem Within.or {e w : WpollEvts} (h : Within e w) (x : WpollEvts) : Within e (w ||| x) := by
  rw [within_iff] at h ⊢
  simp only [BitVec.getLsbD_or, Bool.or_eq_true]
  exact ⟨fun he => .inl (h.1 he), fun he => .inl (h.2 he)⟩

theorem Within.del {e w x : WpollEvts} (h : Within e w)
    (hx : ∀ b ∈ [wpollin, wpollout], e &&& b ≠ 0 → x &&& b = 0) : Within e (w &&& ~~~x) := by
  have h0 : e.getLsbD 0 = true → ¬ x.getLsbD 0 = true := by
    rw [← and_wpollin, ← and_wpollin, not_not]
    exact hx wpollin (by simp)
  have h1 : e.getLsbD 1 = true → ¬ x.getLsbD 1 = true := by
    rw [← and_wpollout, ← and_wpollout, not_not]
    exact hx wpollout (by simp)
  rw [within_iff] at h ⊢
  simp only [BitVec.getLsbD_and, BitVec.getLsbD_not, Bool.and_eq_true, Bool.not_eq_true']
  exact ⟨fun he => ⟨h.1 he, by decide, Bool.eq_false_iff.2 (h0 he)⟩,
    fun he => ⟨h.2 he, by decide, Bool.eq_false_iff.2 (h1 he)⟩⟩

namespace WpollSys

/-! ### One watch -/

theorem readEvts_spec {o : WcbObj} {e : WpollEvts} (h : readEvts o = .ok e) : e.getLsbD 1 = false := by
  unfold readEvts at h
  dsimp only at h
  split_ifs at h <;> cases h <;> decide

theorem writeEvts_spec {o : WcbObj} {e : WpollEvts} {keep : Bool} (h : writeEvts o = .ok (e, keep)) :
    e.getLsbD 0 = false ∧ (e.getLsbD 1 = true → keep = true) := by
  unfold writeEvts at h
  split_ifs at h <;> cases h <;> decide

/-- The report of the `WPOLLOUT` part is watched afterwards, and the `WPOLLIN` bit of the watch stays. -/
theorem pollOut_spec {w w' : WpollWatchEvent} {o : WcbObj} {e : WpollEvts} (h : pollOut w o = .ok (e, w')) :
    w'.fd = w.fd ∧ w'.cookie = w.cookie ∧ w'.evts.getLsbD 0 = w.evts.getLsbD 0 ∧ e.getLsbD 0 = false ∧
      (e.getLsbD 1 = true → w'.evts.getLsbD 1 = true) := by
  unfold pollOut at h
  split_ifs at h with hout
  · cases hx : writeEvts o with
    | error f => rw [hx] at h; cases h
    | ok x =>
      obtain ⟨hx0, hx1⟩ := writeEvts_spec (o := o) hx
      rw [hx] at h
      cases h
      refine ⟨?_, ?_, ?_, hx0, fun he => ?_⟩
      · split_ifs <;> rfl
      · split_ifs <;> rfl
      · have hmask : wpollout.getLsbD 0 = false := by decide
        split_ifs
        · rfl
        · simp only [BitVec.getLsbD_and, BitVec.getLsbD_not, hmask, Nat.zero_lt_succ, decide_true, Bool.not_false, Bool.and_true]
      · rw [if_pos (hx1 he)]
        exact (and_wpollout _).1 hout
  · cases h
    exact ⟨rfl, rfl, rfl, by decide, nofun⟩

/-- What is reported is watched, also when the watch for `WPOLLOUT` is given up. -/
theorem poll_spec {w w' : WpollWatchEvent} {o : WcbObj} {e : WpollEvts} (h : poll w o = .ok (e, w')) :
    w'.fd = w.fd ∧ w'.cookie = w.cookie ∧ Within e w'.evts := by
  unfold poll at h
  split at h
  · cases h
  · rename_i r hr
    have hread : (r.getLsbD 0 = true → w.evts.getLsbD 0 = true) ∧ r.getLsbD 1 = false := by
      split_ifs at hr with hin
      · exact ⟨fun _ => (and_wpollin _).1 hin, readEvts_spec hr⟩
      · cases hr; exact ⟨nofun, by decide⟩
    split at h
    · cases h
    · rename_i x w₁ hx
      obtain ⟨hfd, hcookie, hin, hx0, hx1⟩ := pollOut_spec hx
      have h0 : wpollerr.getLsbD 0 = false := by decide
      have h1 : wpollerr.getLsbD 1 = false := by decide
      cases h
      refine ⟨hfd, hcookie, within_iff.2 ?_⟩
      split_ifs
      · simp only [BitVec.getLsbD_or, hx0, h0, h1, hread.2, hin, Bool.or_false, Bool.false_or]
        exact ⟨hread.1, hx1⟩
      · simp only [BitVec.getLsbD_or, hx0, hread.2, hin, Bool.or_false, Bool.false_or]
        exact ⟨hread.1, hx1⟩

/-! ### The watches of a handle -/

variable {s s' : WpollSys} {pid id fd : Nat} {evt : WpollEvent} {w : WpollWatchEvent}

@[simp] theorem setWatch_self (s : WpollSys) (id : Nat) (w : WpollWatchEvent) : (s.setWatch id w).watch id = w :=
  Function.update_self ..

theorem setWatch_of_ne {i : Nat} (s : WpollSys) (w : WpollWatchEvent) (h : i ≠ id) :
    (s.setWatch id w).watch i = s.watch i := Function.update_of_ne h ..

@[simp] theorem setEvts_self (s : WpollSys) (pid : Nat) (l : List Nat) : (s.setEvts pid l).evts pid = l :=
  Function.update_self ..

theorem setEvts_of_ne {p : Nat} (s : WpollSys) (l : List Nat) (h : p ≠ pid) : (s.setEvts pid l).evts p = s.evts p :=
  Function.update_of_ne h ..

/-- The lists of watches: one watch for each descriptor of a handle, and no watch in two lists. -/
structure Lists (s : WpollSys) : Prop where
  lt : ∀ pid, ∀ id ∈ s.evts pid, id < s.watches
  fds : ∀ pid, (s.evts pid).Pairwise fun i j => (s.watch i).fd ≠ (s.watch j).fd
  own : ∀ pid pid' id, id ∈ s.evts pid → id ∈ s.evts pid' → pid = pid'

theorem Lists.nodup (h : Lists s) (pid : Nat) : (s.evts pid).Nodup :=
  List.nodup_iff_pairwise_ne.2 ((h.fds pid).imp fun hne he => hne (congrArg (fun i => (s.watch i).fd) he))

theorem Lists.setWatch (h : Lists s) (hfd : w.fd = (s.watch id).fd) : Lists (s.setWatch id w) := by
  have hsame : ∀ i, ((s.setWatch id w).watch i).fd = (s.watch i).fd := by
    intro i
    by_cases he : i = id
    · subst he; rw [setWatch_self]; exact hfd
    · rw [setWatch_of_ne s w he]
  refine ⟨h.lt, fun pid => (h.fds pid).imp fun hne => ?_, h.own⟩
  rw [hsame, hsame]
  exact hne

/-- Watches are taken from a list. -/
theorem Lists.sublist {l : List Nat} (h : Lists s) (hl : l.Sublist (s.evts pid)) : Lists (s.setEvts pid l) := by
  have hsub : ∀ p, ((s.setEvts pid l).evts p).Sublist (s.evts p) := by
    intro p
    by_cases he : p = pid
    · subst he; rw [setEvts_self]; exact hl
    · rw [setEvts_of_ne s l he]
  exact ⟨fun p id hid => h.lt p id ((hsub p).subset hid), fun p => (h.fds p).sublist (hsub p),
    fun p p' id hid hid' => h.own p p' id ((hsub p).subset hid) ((hsub p').subset hid')⟩

theorem mem_of_findWatch (h : s.findWatch pid fd = some id) : id ∈ s.evts pid ∧ (s.watch id).fd = fd :=
  ⟨List.mem_of_find?_eq_some h, by simpa using List.find?_some h⟩

/-- A watch in the list is the one that `std::find_if` finds for its descriptor. -/
theorem Lists.findWatch (h : Lists s) (hid : id ∈ s.evts pid) : s.findWatch pid (s.watch id).fd = some id := by
  cases hf : s.findWatch pid (s.watch id).fd with
  | none => exact absurd (List.find?_eq_none.1 hf id hid) (by simp)
  | some id' =>
    obtain ⟨hid', hfd⟩ := mem_of_findWatch hf
    by_contra hne
    have hne : id ≠ id' := fun he => hne (by rw [he])
    have hsymm : Std.Symm fun i j => (s.watch i).fd ≠ (s.watch j).fd := ⟨fun _ _ hxy he => hxy he.symm⟩
    exact (h.fds pid).forall hid hid' hne hfd.symm

/-! ### Parked events -/

/-- The event is one that the watch stands for. -/
structure Matches (s : WpollSys) (evt : WpollEvent) (id : Nat) : Prop where
  fd : (s.watch id).fd = evt.fd
  cookie : (s.watch id).cookie = evt.cookie
  evts : Within evt.evts (s.watch id).evts

theorem Matches.congr {i : Nat} (h : Matches s evt i) (hw : s'.watch i = s.watch i) : Matches s' evt i :=
  ⟨by rw [hw]; exact h.fd, by rw [hw]; exact h.cookie, by rw [hw]; exact h.evts⟩

/-- A watch that will not be used again: `wpoll_ctl` has taken it from its list. -/
structure Dead (s : WpollSys) (id : Nat) : Prop where
  evts : (s.watch id).evts = 0
  out : ∀ pid, id ∉ s.evts pid

/-- The lists are in order, and a parked event matches its watch as long as the watch is used. -/
structure Inv (s : WpollSys) : Prop where
  lists : Lists s
  lt : ∀ x ∈ s.pending, x.2 < s.watches
  parked : ∀ x ∈ s.pending, Matches s x.1 x.2 ∨ Dead s x.2

/-- The event is for a descriptor in the list of the handle, with the cookie registered there, and its
`WPOLLIN` and `WPOLLOUT` bits are watched. -/
def Watched (s : WpollSys) (handle : Nat) (evt : WpollEvent) : Prop :=
  ∃ pid id, s.wpollMap.find? handle = some pid ∧ s.findWatch pid evt.fd = some id ∧
    (s.watch id).cookie = evt.cookie ∧ Within evt.evts (s.watch id).evts

theorem Matches.watched {handle : Nat} (h : Matches s evt id) (hl : Lists s) (hp : s.wpollMap.find? handle = some pid)
    (hid : id ∈ s.evts pid) : s.Watched handle evt :=
  ⟨pid, id, hp, by rw [← h.fd]; exact hl.findWatch hid, h.cookie, h.evts⟩

theorem drain_fst (s : WpollSys) (size : Nat) (q : List (WpollEvent × Nat)) (out : List WpollEvent) :
    (s.drain size q out).1 =
      out ++ ((q.filter fun x => (s.watch x.2).evts ≠ 0).take (size - out.length)).map Prod.fst := by
  induction q generalizing out with
  | nil => simp [drain]
  | cons x q ih =>
    unfold drain
    by_cases hlt : out.length < size
    · rw [if_pos hlt, ih]
      by_cases hz : (s.watch x.2).evts = 0
      · simp [hz]
      · obtain ⟨k, hk⟩ : ∃ k, size - out.length = k + 1 := ⟨size - out.length - 1, by omega⟩
        have hk' : size - (out ++ [x.1]).length = k := by simp; omega
        simp only [hz, ne_eq, not_false_eq_true, if_true, decide_true, List.filter_cons_of_pos, hk, List.take_succ_cons,
          List.map_cons]
        rw [hk', List.append_assoc]
        rfl
    · rw [if_neg hlt, Nat.sub_eq_zero_of_le (Nat.le_of_not_lt hlt)]
      simp

theorem drain_snd (s : WpollSys) (size : Nat) (q : List (WpollEvent × Nat)) (out : List WpollEvent) :
    ∀ x ∈ (s.drain size q out).2, x ∈ q := by
  induction q generalizing out with
  | nil => simp [drain]
  | cons y q ih =>
    unfold drain
    split_ifs
    · exact fun x hx => List.mem_cons_of_mem _ (ih _ x hx)
    · exact fun x hx => List.mem_cons_of_mem _ (ih _ x hx)
    · exact fun x hx => hx

/-! ### `wpoll_ctl` -/

theorem Dead.setWatch {i : Nat} (h : Dead s i) (hne : i ≠ id) : Dead (s.setWatch id w) i :=
  ⟨by rw [setWatch_of_ne s w hne]; exact h.evts, h.out⟩

/-- The bits of a watch in a list change, and the events parked for it still match. -/
theorem Inv.setWatch (h : Inv s) (hfd : w.fd = (s.watch id).fd)
    (hm : ∀ x ∈ s.pending, x.2 = id → Matches (s.setWatch id w) x.1 id) : Inv (s.setWatch id w) := by
  refine ⟨h.lists.setWatch hfd, h.lt, fun x hx => ?_⟩
  by_cases he : x.2 = id
  · exact .inl (he ▸ hm x hx he)
  · exact (h.parked x hx).imp (fun hmx => hmx.congr (setWatch_of_ne s w he)) fun hd => hd.setWatch he

theorem Inv.matches (h : Inv s) (hid : id ∈ s.evts pid) {x : WpollEvent × Nat} (hx : x ∈ s.pending) (he : x.2 = id) :
    Matches s x.1 id := by
  rcases h.parked x hx with hm | hd
  · exact he ▸ hm
  · exact absurd (he ▸ hid) (hd.out pid)

theorem ctlAdd_inv {wcb : Nat} {rt : Int} (h : Inv s) (ha : s.ctlAdd pid wcb evt = .ok (rt, s')) : Inv s' := by
  unfold ctlAdd at ha
  by_cases hnull : evt.cookie = 0
  · rw [if_pos hnull] at ha; cases ha
  rw [if_neg hnull] at ha
  cases hf : s.findWatch pid evt.fd with
  | some id =>
    rw [hf] at ha
    dsimp only at ha
    split_ifs at ha
    cases ha
    obtain ⟨hid, -⟩ := mem_of_findWatch hf
    refine h.setWatch rfl fun x hx he => ?_
    have hm := h.matches hid hx he
    exact ⟨by rw [setWatch_self]; exact hm.fd, by rw [setWatch_self]; exact hm.cookie,
      by rw [setWatch_self]; exact hm.evts.or _⟩
  | none =>
    rw [hf] at ha
    cases ha
    obtain ⟨hl, hlt, hparked⟩ := h
    have hold : ∀ {i}, i < s.watches → (s.setWatch s.watches ⟨evt.fd, evt.evts, evt.cookie, wcb⟩).watch i = s.watch i :=
      fun hi => setWatch_of_ne s _ (Nat.ne_of_lt hi)
    have hmem : ∀ {p i}, i ∈ (s.setEvts pid (s.evts pid ++ [s.watches])).evts p → i ∈ s.evts p ∨ p = pid ∧ i = s.watches := by
      intro p i hi
      by_cases he : p = pid
      · subst he
        rw [setEvts_self] at hi
        exact (List.mem_append.1 hi).imp_right fun hi => ⟨rfl, List.mem_singleton.1 hi⟩
      · rw [setEvts_of_ne s _ he] at hi
        exact .inl hi
    refine ⟨⟨fun p i hi => ?_, fun p => ?_, fun p p' i hi hi' => ?_⟩, fun x hx => Nat.lt_succ_of_lt (hlt x hx), fun x hx => ?_⟩
    · rcases hmem hi with hi | ⟨-, rfl⟩
      · exact Nat.lt_succ_of_lt (hl.lt p i hi)
      · exact Nat.lt_succ_self _
    · have hpair : (s.evts p).Pairwise fun i j =>
          ((s.setWatch s.watches ⟨evt.fd, evt.evts, evt.cookie, wcb⟩).watch i).fd ≠
            ((s.setWatch s.watches ⟨evt.fd, evt.evts, evt.cookie, wcb⟩).watch j).fd := by
        refine (hl.fds p).imp_of_mem fun hi hj hne => ?_
        rw [hold (hl.lt p _ hi), hold (hl.lt p _ hj)]
        exact hne
      show ((s.setEvts pid (s.evts pid ++ [s.watches])).evts p).Pairwise _
      by_cases he : p = pid
      · subst he
        rw [setEvts_self]
        refine List.pairwise_append.2 ⟨hpair, by simp, fun i hi j hj => ?_⟩
        -- `std::find_if` has not found the descriptor
        have hne := List.find?_eq_none.1 hf i hi
        rw [List.mem_singleton.1 hj]
        show ((s.setWatch _ _).watch i).fd ≠ ((s.setWatch _ _).watch s.watches).fd
        rw [hold (hl.lt p i hi), setWatch_self]
        simpa using hne
      · rw [setEvts_of_ne s _ he]; exact hpair
    · rcases hmem hi with hi | ⟨hp, rfl⟩ <;> rcases hmem hi' with hi' | ⟨hp', he⟩
      · exact hl.own p p' i hi hi'
      · exact absurd (he ▸ hl.lt p i hi) (Nat.lt_irrefl _)
      · exact absurd (hl.lt p' _ hi') (Nat.lt_irrefl _)
      · rw [hp, hp']
    · refine (hparked x hx).imp (fun hm => hm.congr (hold (hlt x hx))) fun hd => ⟨?_, fun p hp => ?_⟩
      · exact (congrArg WpollWatchEvent.evts (hold (hlt x hx))).trans hd.evts
      · rcases hmem hp with hp | ⟨-, he⟩
        · exact hd.out p hp
        · exact Nat.lt_irrefl _ (he ▸ hlt x hx)

/-- No event that is parked for the watch of the descriptor reports a bit that the call takes away, unless
the call ends the watch. -/
def DelCareful (s : WpollSys) (pid : Nat) (evt : WpollEvent) : Prop :=
  ∀ id, s.findWatch pid evt.fd = some id → (s.watch id).evts &&& ~~~evt.evts ≠ 0 → ∀ x ∈ s.pending, x.2 = id →
    ∀ b ∈ [wpollin, wpollout], x.1.evts &&& b ≠ 0 → evt.evts &&& b = 0

theorem ctlDel_inv (h : Inv s) (hd : DelCareful s pid evt) : Inv (s.ctlDel pid evt).2 := by
  unfold ctlDel
  cases hf : s.findWatch pid evt.fd with
  | none => exact h
  | some id =>
    obtain ⟨hid, -⟩ := mem_of_findWatch hf
    dsimp only
    obtain ⟨w, hw⟩ : ∃ w, w = { s.watch id with evts := (s.watch id).evts &&& ~~~evt.evts } := ⟨_, rfl⟩
    have hwfd : w.fd = (s.watch id).fd := by rw [hw]
    split_ifs with hz
    · rw [← hw]
      have hz : w.evts = 0 := by rw [hw]; exact hz
      refine ⟨(h.lists.setWatch hwfd).sublist (List.erase_sublist ..), h.lt, fun x hx => ?_⟩
      by_cases he : x.2 = id
      · refine .inr ⟨?_, fun p hp => ?_⟩
        · show ((s.setWatch id w).watch x.2).evts = 0
          rw [he, setWatch_self, hz]
        · -- the watch was in this list only
          have hp : x.2 ∈ ((s.setWatch id w).setEvts pid ((s.evts pid).erase id)).evts p := hp
          by_cases hpp : p = pid
          · subst hpp
            rw [setEvts_self, he] at hp
            exact (h.lists.nodup p).not_mem_erase hp
          · rw [setEvts_of_ne _ _ hpp, he] at hp
            exact hpp (h.lists.own p pid id hp hid)
      · refine (h.parked x hx).imp (fun hm => hm.congr (setWatch_of_ne s w he)) fun hdead => ⟨?_, fun p hp => ?_⟩
        · exact (congrArg WpollWatchEvent.evts (setWatch_of_ne s w he)).trans hdead.evts
        · have hp : x.2 ∈ ((s.setWatch id w).setEvts pid ((s.evts pid).erase id)).evts p := hp
          by_cases hpp : p = pid
          · subst hpp
            rw [setEvts_self] at hp
            exact hdead.out p (List.mem_of_mem_erase hp)
          · rw [setEvts_of_ne _ _ hpp] at hp
            exact hdead.out p hp
    · rw [← hw]
      refine h.setWatch hwfd fun x hx he => ?_
      have hm := h.matches hid hx he
      refine ⟨by rw [setWatch_self, hwfd]; exact hm.fd, ?_, ?_⟩
      · rw [setWatch_self, hw]; exact hm.cookie
      · rw [setWatch_self, hw]
        exact hm.evts.del (hd id hf hz x hx he)

/-! ### `wpoll_wait` -/

/-- The loop over the watches of `pid`, with `todo` still to come: what it has reported or parked matches
a watch it has passed. -/
structure ScanInv (pid : Nat) (m : KeyMap Nat) (todo : List Nat) (c : Scan) : Prop where
  lists : Lists c.sys
  map : c.sys.wpollMap = m
  mem : ∀ id ∈ todo, id ∈ c.sys.evts pid
  nodup : todo.Nodup
  out : ∀ evt ∈ c.out, ∃ id ∈ c.sys.evts pid, id ∉ todo ∧ Matches c.sys evt id
  parked : ∀ x ∈ c.sys.pending, x.2 ∈ c.sys.evts pid ∧ x.2 ∉ todo ∧ Matches c.sys x.1 x.2

theorem scanOne_inv {size : Nat} {m : KeyMap Nat} {todo : List Nat} {c c' : Scan} (h : ScanInv pid m (id :: todo) c)
    (hs : scanOne size pid c id = .ok c') : ScanInv pid m todo c' := by
  obtain ⟨hnot, hnd⟩ := List.nodup_cons.1 h.nodup
  have hid : id ∈ c.sys.evts pid := h.mem id (by simp)
  unfold scanOne at hs
  dsimp only at hs
  by_cases hrec : (c.sys.wcp.obj (c.sys.watch id).wcb).conn.state = .recycle
  · rw [if_pos hrec] at hs
    cases hs
    have hkeep : ∀ {i}, i ∈ c.sys.evts pid → i ≠ id →
        i ∈ (c.sys.setEvts pid ((c.sys.evts pid).erase id)).evts pid := by
      intro i hi hne
      rw [setEvts_self]
      exact (List.mem_erase_of_ne hne).2 hi
    refine ⟨h.lists.sublist (List.erase_sublist ..), h.map, fun i hi => ?_, hnd, fun evt he => ?_, fun x hx => ?_⟩
    · exact hkeep (h.mem i (List.mem_cons_of_mem _ hi)) fun he => hnot (he ▸ hi)
    · obtain ⟨i, hi, hni, hm⟩ := h.out evt he
      obtain ⟨hne, hni⟩ := not_or.1 (fun hc => hni (List.mem_cons.2 hc))
      exact ⟨i, hkeep hi hne, hni, ⟨hm.fd, hm.cookie, hm.evts⟩⟩
    · obtain ⟨hi, hni, hm⟩ := h.parked x hx
      obtain ⟨hne, hni⟩ := not_or.1 (fun hc => hni (List.mem_cons.2 hc))
      exact ⟨hkeep hi hne, hni, ⟨hm.fd, hm.cookie, hm.evts⟩⟩
  · rw [if_neg hrec] at hs
    split at hs
    · cases hs
    · rename_i e w' hp
      obtain ⟨hfd, hcookie, hin⟩ := poll_spec hp
      have hnew : Matches (c.sys.setWatch id w') ⟨(c.sys.watch id).fd, e, (c.sys.watch id).cookie⟩ id :=
        ⟨by rw [setWatch_self]; exact hfd, by rw [setWatch_self]; exact hcookie, by rw [setWatch_self]; exact hin⟩
      have hout : ∀ evt ∈ c.out, ∃ i ∈ c.sys.evts pid, i ∉ todo ∧ Matches (c.sys.setWatch id w') evt i := by
        intro evt he
        obtain ⟨i, hi, hni, hm⟩ := h.out evt he
        obtain ⟨hne, hni⟩ := not_or.1 (fun hc => hni (List.mem_cons.2 hc))
        exact ⟨i, hi, hni, hm.congr (setWatch_of_ne _ _ hne)⟩
      have hparked : ∀ x ∈ c.sys.pending,
          x.2 ∈ c.sys.evts pid ∧ x.2 ∉ todo ∧ Matches (c.sys.setWatch id w') x.1 x.2 := by
        intro x hx
        obtain ⟨hi, hni, hm⟩ := h.parked x hx
        obtain ⟨hne, hni⟩ := not_or.1 (fun hc => hni (List.mem_cons.2 hc))
        exact ⟨hi, hni, hm.congr (setWatch_of_ne _ _ hne)⟩
      have hlists : Lists (c.sys.setWatch id w') := h.lists.setWatch hfd
      have hmem : ∀ i ∈ todo, i ∈ c.sys.evts pid := fun i hi => h.mem i (List.mem_cons_of_mem _ hi)
      split_ifs at hs
      · cases hs
        exact ⟨hlists, h.map, hmem, hnd, hout, hparked⟩
      · cases hs
        refine ⟨hlists, h.map, hmem, hnd, fun evt he => ?_, hparked⟩
        rcases List.mem_append.1 he with he | he
        · exact hout evt he
        · rw [List.mem_singleton.1 he]; exact ⟨id, hid, hnot, hnew⟩
      · cases hs
        refine ⟨⟨hlists.lt, hlists.fds, hlists.own⟩, h.map, hmem, hnd, fun evt he => ?_, fun x hx => ?_⟩
        · obtain ⟨i, hi, hni, hm⟩ := hout evt he
          exact ⟨i, hi, hni, ⟨hm.fd, hm.cookie, hm.evts⟩⟩
        · have hcases : x.2 ∈ c.sys.evts pid ∧ x.2 ∉ todo ∧ Matches (c.sys.setWatch id w') x.1 x.2 := by
            rcases List.mem_append.1 hx with hx | hx
            · exact hparked x hx
            · rw [List.mem_singleton.1 hx]; exact ⟨hid, hnot, hnew⟩
          obtain ⟨hi, hni, hm⟩ := hcases
          exact ⟨hi, hni, ⟨hm.fd, hm.cookie, hm.evts⟩⟩

theorem scan_inv {size : Nat} {m : KeyMap Nat} {todo : List Nat} {c c' : Scan} (h : ScanInv pid m todo c)
    (hs : todo.foldlM (scanOne size pid) c = .ok c') : ScanInv pid m [] c' := by
  induction todo generalizing c with
  | nil => cases hs; exact h
  | cons id todo ih =>
    rw [List.foldlM_cons] at hs
    obtain ⟨c₁, hc₁, hs⟩ := bind_eq_ok.1 hs
    exact ih (scanOne_inv h hc₁) hs

/-- The events that the call hands out from the queue were parked for watches of its own handle. -/
def WaitCareful (s : WpollSys) (pid size : Nat) : Prop :=
  ∀ x ∈ (s.pending.filter fun x => (s.watch x.2).evts ≠ 0).take size, x.2 ∈ s.evts pid

theorem wpollWait_spec {handle size : Nat} {rt : Int} {out : List WpollEvent} (h : Inv s)
    (hw : s.wpollWait handle size = .ok (rt, out, s')) :
    Inv s' ∧ ((∀ pid, s.wpollMap.find? handle = some pid → WaitCareful s pid size) → ∀ evt ∈ out, s'.Watched handle evt) := by
  unfold wpollWait at hw
  cases hp : s.wpollMap.find? handle with
  | none => rw [hp] at hw; cases hw; exact ⟨h, fun _ => nofun⟩
  | some pid =>
    rw [hp] at hw
    dsimp only at hw
    have hfst := s.drain_fst size s.pending []
    have hsnd := s.drain_snd size s.pending []
    rw [List.nil_append, List.length_nil, Nat.sub_zero] at hfst
    have hdrained : Inv { s with pending := (s.drain size s.pending []).2 } :=
      ⟨⟨h.lists.lt, h.lists.fds, h.lists.own⟩, fun x hx => h.lt x (hsnd x hx), fun x hx =>
        (h.parked x (hsnd x hx)).imp (fun hm => ⟨hm.fd, hm.cookie, hm.evts⟩) fun hd => ⟨hd.evts, hd.out⟩⟩
    split_ifs at hw with hout hrest
    · cases hw
      refine ⟨hdrained, fun hcare evt he => ?_⟩
      rw [hfst] at he
      obtain ⟨x, hx, rfl⟩ := List.mem_map.1 he
      have hmem := hcare pid rfl x hx
      obtain ⟨hin, -⟩ := List.mem_filter.1 (List.mem_of_mem_take hx)
      have hm := h.matches hmem hin rfl
      exact Matches.watched ⟨hm.fd, hm.cookie, hm.evts⟩ hdrained.lists hp hmem
    · split at hw
      · cases hw
      · rename_i c hc
        cases hw
        have hrest := not_not.1 hrest
        have hstart : ScanInv pid s.wpollMap (s.evts pid) ⟨{ s with pending := (s.drain size s.pending []).2 }, []⟩ := by
          refine ⟨hdrained.lists, rfl, fun _ hi => hi, h.lists.nodup pid, nofun, fun x hx => ?_⟩
          change x ∈ (s.drain size s.pending []).2 at hx
          rw [hrest] at hx
          cases hx
        have hend := scan_inv hstart hc
        refine ⟨⟨hend.lists, fun x hx => ?_, fun x hx => .inl (hend.parked x hx).2.2⟩, fun _ evt he => ?_⟩
        · exact hend.lists.lt pid _ (hend.parked x hx).1
        · obtain ⟨i, hi, -, hm⟩ := hend.out evt he
          exact hm.watched hend.lists (hend.map ▸ hp) hi

end WpollSys

/-! ### Runs -/

open WpollSys

/-- A call that leaves the queue in order: `WPOLL_CTL_DEL` takes no bit from a watch that goes on which a
parked event reports, and `wpoll_wait` meets no event of another handle. -/
def Careful (s : WpollSys) : WpollCall → Prop
  | .ctl handle .del evt => ∀ pid, s.wpollMap.find? handle = some pid → DelCareful s pid evt
  | .wait handle size => ∀ pid, s.wpollMap.find? handle = some pid → WaitCareful s pid size
  | _ => True

instance (s : WpollSys) (pid size : Nat) : Decidable (WaitCareful s pid size) := inferInstanceAs (Decidable (∀ x ∈ _, _))

instance (s : WpollSys) (pid : Nat) (evt : WpollEvent) : Decidable (DelCareful s pid evt) :=
  inferInstanceAs (Decidable (∀ id ∈ s.findWatch pid evt.fd, _))

instance (s : WpollSys) (e : WpollCall) : Decidable (Careful s e) :=
  match e with
  | .ctl handle .del _ => inferInstanceAs (Decidable (∀ pid ∈ s.wpollMap.find? handle, _))
  | .wait handle _ => inferInstanceAs (Decidable (∀ pid ∈ s.wpollMap.find? handle, _))
  | .ctl _ .add _ | .sys _ | .create | .close _ => isTrue trivial

/-- What `wpoll_wait` promises of the events it returns. -/
def SoundCall (s : WpollSys) : WpollCall → Prop
  | .wait handle size => ∀ rt out s', s.wpollWait handle size = .ok (rt, out, s') → ∀ evt ∈ out, s'.Watched handle evt
  | _ => True

theorem wpollStep_inv {s s' : WpollSys} {e : WpollCall} (h : Inv s) (hc : Careful s e) (hs : wpollStep e s = .ok s') :
    Inv s' := by
  have hsame : ∀ {t : WpollSys}, t.evts = s.evts → t.watch = s.watch → t.watches = s.watches → t.pending = s.pending →
      Inv t := by
    rintro t he hw hn hp
    refine ⟨⟨?_, ?_, ?_⟩, ?_, ?_⟩
    · rw [he, hn]; exact h.lists.lt
    · rw [he, hw]; exact h.lists.fds
    · rw [he]; exact h.lists.own
    · rw [hp, hn]; exact h.lt
    · rw [hp]
      exact fun x hx => (h.parked x hx).imp (fun hm => hm.congr (congrFun hw _))
        fun hd => ⟨by rw [hw]; exact hd.evts, by rw [he]; exact hd.out⟩
  cases e with
  | sys e =>
    dsimp only [wpollStep] at hs
    split at hs
    · cases hs
    · cases hs; exact hsame rfl rfl rfl rfl
  | create => cases hs; exact hsame rfl rfl rfl rfl
  | close handle =>
    cases hs
    unfold wpollClose
    split <;> exact hsame rfl rfl rfl rfl
  | ctl handle op evt =>
    obtain ⟨⟨rt, t⟩, ht, rfl⟩ := map_eq_ok.1 hs
    unfold wpollCtl at ht
    split_ifs at ht
    split at ht
    · cases ht; exact h
    · rename_i pid hp
      split at ht
      · cases ht; exact h
      · cases op with
        | add => exact ctlAdd_inv h ht
        | del =>
          have hdel : t = (s.ctlDel pid evt).2 := congrArg Prod.snd (Except.ok.inj ht).symm
          rw [hdel]
          exact ctlDel_inv h (hc pid hp)
  | wait handle size =>
    obtain ⟨⟨rt, out, t⟩, ht, rfl⟩ := map_eq_ok.1 hs
    exact (wpollWait_spec h ht).1

/-- In a run of careful calls, every event that `wpoll_wait` returns is watched by its handle. -/
theorem wpoll_sound {u : Uninit} {es : List WpollCall} {s : WpollSys}
    (h : Run wpollStep Careful (WpollSys.start u) es s) : Run wpollStep SoundCall (WpollSys.start u) es s := by
  have hinv : ∀ {es s}, Run wpollStep Careful (WpollSys.start u) es s → Inv s := by
    intro es s hr
    refine hr.inv Inv (fun _ _ _ hi hc hs => wpollStep_inv hi hc hs) ⟨⟨?_, ?_, ?_⟩, ?_, ?_⟩
    · exact fun _ => nofun
    · exact fun _ => List.Pairwise.nil
    · exact fun _ _ _ => nofun
    · exact nofun
    · exact nofun
  refine h.strengthen hinv fun {s e} hi hc => ?_
  cases e with
  | wait handle size => exact fun rt out s' hw => (wpollWait_spec hi hw).2 hc
  | _ => trivial

/-! ### Two descriptors, a result array for one -/

/-- A handle watches two connections, which are closed; the second event does not fit and is parked. -/
def oneParked : List WpollCall :=
  [.sys (.socket ok ⟨0, 0, 0, 0⟩ 0), .sys (.connect (fdOf 0) ⟨1⟩ 0 ok), .sys (.socket ok ⟨0, 0, 0, 0⟩ 0),
    .sys (.connect (fdOf 1) ⟨2⟩ 0 ok), .create, .ctl 1 .add ⟨fdOf 0, wpollin, 1⟩, .ctl 1 .add ⟨fdOf 1, wpollin, 2⟩,
    .sys (.close (fdOf 0)), .sys (.close (fdOf 1)), .wait 1 1]

theorem wpoll_sound_oneParked :
    ∃ s, Run wpollStep SoundCall (WpollSys.start ⟨0, 0, 0, 0⟩) (oneParked ++ [.wait 1 1]) s := by
  obtain ⟨s, hrun, -⟩ := Run.of_decide (f := wpollStep) (s := WpollSys.start ⟨0, 0, 0, 0⟩) (P := Careful) (Q := fun _ => True)
    (oneParked ++ [.wait 1 1]) (by decide +kernel)
  exact ⟨s, wpoll_sound hrun⟩

/-- Another handle, which watches nothing, is handed the event. -/
theorem parked_event_misdelivered :
    ∃ s, Run wpollStep (fun _ _ => True) (WpollSys.start ⟨0, 0, 0, 0⟩) (oneParked ++ [.create]) s ∧
      ¬ SoundCall s (.wait 2 1) := by
  obtain ⟨s, hrun, hs⟩ := Run.of_reaches (f := wpollStep) (P := fun s => (s.wpollWait 2 1).toOption.any fun r =>
    r.2.1.any fun evt => r.2.2.wpollMap.find? 2 = some 1 ∧ r.2.2.findWatch 1 evt.fd = none) (oneParked ++ [.create])
    (WpollSys.start ⟨0, 0, 0, 0⟩) (by decide +kernel)
  refine ⟨s, hrun, fun hsound => ?_⟩
  cases hw : s.wpollWait 2 1 with
  | error f => rw [hw] at hs; cases hs
  | ok r =>
    rw [hw] at hs
    obtain ⟨evt, hevt, hnot⟩ := List.any_eq_true.1 hs
    obtain ⟨hp, hf⟩ := of_decide_eq_true hnot
    obtain ⟨pid, id, hp', hf', -⟩ := hsound r.1 r.2.1 r.2.2 hw evt hevt
    rw [hp] at hp'
    cases hp'
    rw [hf] at hf'
    cases hf'

end Wawo
