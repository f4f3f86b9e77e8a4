import Wawo.Lib.Tally
import Wawo.Thread.SharedMutex

/-!
# What the threads hold

`Locks` keeps of a thread only what it holds. A section of a function is one or two of the changes of
`Locks.Change` (`step_sim`), each of one thread and of `state_data` by the same amounts; notifications
change nothing here. So the three fields of `state_data` are what the threads hold (`Locks.Counts`).

A thread inside `unlock_upgrade_and_lock` waits on `m_upgrade_cond`, which is notified when the last reader
leaves with `upgrade == S_UP_SET`. But `upgrade` is `S_UP_UPING` by then, and with `S_UP_SET` the upgrade
holder itself is a reader: nothing ever wakes the thread. The functions that take the exclusive lock do not
look at `upgrade` at all. Both matter when the last reader leaves while a thread is upgrading
(`upgrade_lost`), and only then (`upgrade_kept`).
-/

namespace Wawo

open Lts Relation

/-- What a thread holds. -/
structure Holding where
  shared : Nat
  upgrade : Bool
  exclusive : Bool
  upgrading : Bool -- it has given the upgrade lock up for the exclusive one and waits for that

namespace StateData

variable (d : StateData)

def exclusives : Nat := d.exclusive.toNat

def upgrades : Nat := if d.upgrade = .set then 1 else 0

def upgradings : Nat := if d.upgrade = .uping then 1 else 0

end StateData

namespace Holding

variable (x : Holding)

def exclusives : Nat := x.exclusive.toNat

def upgrades : Nat := x.upgrade.toNat

def upgradings : Nat := x.upgrading.toNat

/-- The shared locks and the upgrade lock, which counts as one. -/
def shares : Nat := x.shared + x.upgrade.toNat

end Holding

def MutexThread.holding (t : MutexThread) : Holding := ⟨t.shared, t.upgrade, t.exclusive, decide t.Upgrading⟩

namespace MutexThread

variable {t : MutexThread} {w : MutexWait}

theorem holding_waitIn (hw : t.Upgrading ↔ w = .unlockUpgradeAndLock) :
    (t.waitIn w).holding = t.holding := by
  have hsame : (t.waitIn w).Upgrading ↔ t.Upgrading := by
    rw [hw]
    exact Option.some_inj
  unfold holding
  rw [decide_eq_decide.2 hsame]
  rfl

theorem holding_gain (hn : ¬ t.Upgrading) : (t.gain w).holding =
    match w with
    | .lockShared => { t.holding with shared := t.shared + 1 }
    | .lockUpgrade => { t.holding with upgrade := true }
    | .lock | .unlockSharedAndLock | .unlockUpgradeAndLock => { t.holding with exclusive := true } := by
  unfold holding
  rw [decide_eq_false hn]
  cases w <;> rfl

theorem holding_gain_upgrade :
    (t.gain .unlockUpgradeAndLock).holding = { t.holding with exclusive := true, upgrading := false } := rfl

end MutexThread

structure Locks (ι : Type) where
  state : StateData
  held : ι → Holding

namespace Locks

variable {ι : Type} [DecidableEq ι] {L : StateData → Prop} {v v' : Locks ι}

def put (v : Locks ι) (d : StateData) (i : ι) (x : Holding) : Locks ι := ⟨d, Function.update v.held i x⟩

/-- What a function does with `state_data` and its thread. A reader leaves only where `L` allows it. -/
inductive Change (L : StateData → Prop) (d : StateData) (x : Holding) : StateData → Holding → Prop
  | lockShared (hc : d.canLockShared = true) : Change L d x d.lockShared { x with shared := x.shared + 1 }
  | unlockShared (hs : d.sharedCount ≠ 0) (he : d.exclusive = false) (hx : 0 < x.shared) (hL : L d) :
      Change L d x { d with sharedCount := d.sharedCount - 1 } { x with shared := x.shared - 1 }
  | lock (hs : d.sharedCount = 0) (he : d.exclusive = false) :
      Change L d x { d with exclusive := true } { x with exclusive := true }
  | unlock (he : d.exclusive = true) (hx : x.exclusive = true) :
      Change L d x { d with exclusive := false } { x with exclusive := false }
  | lockUpgrade (hc : d.canLockUpgrade = true) :
      Change L d x ⟨u32 (d.sharedCount + 1), .set, d.exclusive⟩ { x with upgrade := true }
  | unlockUpgrade (hu : d.upgrade = .set) (hs : d.sharedCount ≠ 0) (hx : x.upgrade = true) :
      Change L d x ⟨d.sharedCount - 1, .noset, d.exclusive⟩ { x with upgrade := false }
  | beginUpgrade (hu : d.upgrade = .set) (hs : d.sharedCount ≠ 0) (hb : d.sharedCount ≠ 1 ∨ d.exclusive = true)
      (hx : x.upgrade = true) :
      Change L d x ⟨d.sharedCount - 1, .uping, d.exclusive⟩ { x with upgrade := false, upgrading := true }
  | upgradeAtOnce (hu : d.upgrade = .set) (hs : d.sharedCount = 1) (he : d.exclusive = false) (hx : x.upgrade = true) :
      Change L d x ⟨0, .noset, true⟩ { x with upgrade := false, exclusive := true, upgrading := false }
  | upgrade (hu : d.upgrade = .uping) (hs : d.sharedCount = 0) (he : d.exclusive = false) (hx : x.upgrading = true) :
      Change L d x ⟨d.sharedCount, .noset, true⟩ { x with upgrading := false, exclusive := true }

inductive Move (L : StateData → Prop) (v : Locks ι) : Locks ι → Prop
  | change {i : ι} {d : StateData} {x : Holding} (h : Change L v.state (v.held i) d x) : Move L v (v.put d i x)

end Locks

namespace SharedMutex

variable {ι : Type} [DecidableEq ι] {L : StateData → Prop} {s s' : SharedMutex ι} {i : ι} {t : MutexThread}
  {d : StateData} {w : MutexWait} {c : MutexCond} {pick : Option ι} {v : Locks ι}

def locks (s : SharedMutex ι) : Locks ι := ⟨s.state, MutexThread.holding ∘ s.thread⟩

/-! ### The functions as moves of the locks -/

theorem locks_put (s : SharedMutex ι) (d : StateData) (i : ι) (t : MutexThread) :
    (s.put d i t).locks = s.locks.put d i t.holding :=
  congrArg _ (Function.comp_update ..)

theorem locks_put_same (ht : t.holding = (s.thread i).holding) : (s.put s.state i t).locks = s.locks := by
  rw [locks_put, ht]
  exact congrArg _ (Function.update_eq_self i _)

theorem put_put (s : SharedMutex ι) (d d' : StateData) (i : ι) (t t' : MutexThread) :
    (s.put d i t).put d' i t' = s.put d' i t' := by
  unfold put
  rw [Function.update_idem]

theorem put_thread (s : SharedMutex ι) (d : StateData) (i : ι) (t : MutexThread) : (s.put d i t).thread i = t :=
  Function.update_self ..

omit [DecidableEq ι] in
theorem locks_notifyAll (s : SharedMutex ι) (c : MutexCond) : (s.notifyAll c).locks = s.locks := by
  unfold locks notifyAll
  refine congrArg _ (funext fun j => ?_)
  dsimp only [Function.comp_apply]
  split_ifs <;> rfl

theorem notifyOne_locks [Fintype ι] (h : s.notifyOne c pick = .ok s') : s'.locks = s.locks := by
  unfold notifyOne at h
  cases pick with
  | some j =>
    dsimp only at h
    split_ifs at h
    cases h
    exact locks_put_same rfl
  | none =>
    dsimp only at h
    split_ifs at h
    cases h
    rfl

theorem notifyWaiters_locks [Fintype ι] (h : s.notifyWaiters pick = .ok s') : s'.locks = s.locks := by
  obtain ⟨s₁, h₁, rfl⟩ := map_eq_ok.1 h
  rw [locks_notifyAll]
  exact notifyOne_locks h₁

/-- Functions that are moves of the locks; what they fail with does not matter. -/
abbrev Sim (L : StateData → Prop) (v : Locks ι) (x : Except SharedMutexFault (SharedMutex ι)) : Prop :=
  Simulates (Locks.Move L) (fun _ _ => True) locks v x

theorem Sim.error {e : SharedMutexFault} : Sim L v (.error e) := ⟨v, .refl, trivial⟩

theorem Sim.same {x : Except SharedMutexFault (SharedMutex ι)} (h : ∀ s', x = .ok s' → s'.locks = v) : Sim L v x := by
  cases x with
  | ok s' => exact Simulates.of_eq_ok (h s' rfl).symm
  | error e => exact .error

theorem moves_put (h : Locks.Change L s.state (s.thread i).holding d t.holding) :
    ReflTransGen (Locks.Move L) s.locks (s.put d i t).locks := by
  rw [locks_put]
  exact .single (.change h)

theorem lockExclusive_eq_ok {d' : StateData} (h : d.lockExclusive = .ok d') :
    d.sharedCount = 0 ∧ d.exclusive = false ∧ d' = { d with exclusive := true } := by
  unfold StateData.lockExclusive StateData.hasMoreShared at h
  split_ifs at h with hs he
  cases h
  exact ⟨by simpa using hs, by simpa using he, rfl⟩

theorem moves_put_put {d' : StateData} {t' : MutexThread} (h : Locks.Change L s.state (s.thread i).holding d t.holding)
    (h' : Locks.Change L d t.holding d' t'.holding) : ReflTransGen (Locks.Move L) s.locks (s.put d' i t').locks := by
  refine (moves_put h).trans ?_
  rw [← put_put s d d' i t t']
  refine moves_put ?_
  rw [put_thread]
  exact h'

/-- A thread goes on behind a wait, or comes to one. -/
theorem goOn_sim (hw : (s.thread i).Upgrading ↔ w = .unlockUpgradeAndLock) : Sim L s.locks (s.goOn i w) := by
  unfold goOn
  split_ifs with hb
  · refine .same fun s' h => ?_
    cases h
    exact locks_put_same (MutexThread.holding_waitIn hw)
  · cases hx : s.acquire w with
    | error e => exact .error
    | ok d =>
      refine moves_put (s := s) ?_
      have hn : w ≠ .unlockUpgradeAndLock → ¬ (s.thread i).Upgrading := fun h hu => h (hw.1 hu)
      unfold blocked at hb
      unfold acquire at hx
      cases w with
      | lockShared =>
        cases hx
        rw [MutexThread.holding_gain (hn nofun)]
        exact .lockShared (by simpa using hb)
      | lockUpgrade =>
        unfold StateData.lockUpgrade at hx
        split_ifs at hx
        cases hx
        rw [MutexThread.holding_gain (hn nofun)]
        exact .lockUpgrade (by simpa using hb)
      | lock =>
        obtain ⟨hs, he, rfl⟩ := lockExclusive_eq_ok hx
        rw [MutexThread.holding_gain (hn nofun)]
        exact .lock hs he
      | unlockSharedAndLock =>
        obtain ⟨hs, he, rfl⟩ := lockExclusive_eq_ok hx
        rw [MutexThread.holding_gain (hn nofun)]
        exact .lock hs he
      | unlockUpgradeAndLock =>
        obtain ⟨d', hd', hx⟩ := bind_eq_ok.1 hx
        obtain ⟨hs, he, rfl⟩ := lockExclusive_eq_ok hd'
        unfold StateData.lockUpgradeUpDone at hx
        split_ifs at hx with hu
        cases hx
        rw [MutexThread.holding_gain_upgrade]
        exact .upgrade (not_not.1 hu) hs he (decide_eq_true (hw.2 rfl))

/-- A reader leaves, and the call goes on. -/
theorem unlockShared_sim {k : StateData → Except SharedMutexFault (SharedMutex ι)} (hL : L s.state) (hh : 0 < (s.thread i).shared)
    (hk : ∀ d, Sim L (s.put d i { s.thread i with shared := (s.thread i).shared - 1 }).locks (k d)) :
    Sim L s.locks (s.state.unlockShared >>= k) := by
  unfold StateData.unlockShared
  split_ifs with he hs
  · exact .error
  · exact .error
  · exact Simulates.after (moves_put (.unlockShared hs (by simpa using he) hh hL)) (hk _)

theorem unlock_moves (he : s.state.exclusive = true) (hh : (s.thread i).exclusive = true) :
    ReflTransGen (Locks.Move L) s.locks
      (s.put { s.state with exclusive := false } i { s.thread i with exclusive := false }).locks :=
  moves_put (.unlock he hh)

/-- `unlock_upgrade_and_lock` behind `unlock_upgrade_and_up`: it waits if there is another reader. -/
theorem beginUpgrade_sim (hh : (s.thread i).upgrade = true) (hu : s.state.upgrade = .set)
    (hs : s.state.sharedCount ≠ 0) :
    Sim L s.locks ((s.put ⟨s.state.sharedCount - 1, .uping, s.state.exclusive⟩ i
      { s.thread i with upgrade := false, wait := some .unlockUpgradeAndLock }).goOn i .unlockUpgradeAndLock) := by
  unfold goOn
  rw [put_thread]
  split_ifs with hb
  · unfold setThread
    rw [put_put]
    refine moves_put ?_
    have hb : s.state.sharedCount ≠ 1 ∨ s.state.exclusive = true := by
      simp only [blocked, put, StateData.hasMoreShared, Bool.or_eq_true, bne_iff_ne] at hb
      exact hb.imp (by omega) id
    exact .beginUpgrade hu hs hb hh
  · have hb : s.state.sharedCount = 1 ∧ s.state.exclusive = false := by
      simp only [blocked, put, StateData.hasMoreShared, Bool.or_eq_true, bne_iff_ne, not_or, not_not, Bool.not_eq_true] at hb
      exact ⟨by omega, hb.2⟩
    have hacq : (s.put ⟨s.state.sharedCount - 1, .uping, s.state.exclusive⟩ i
        { s.thread i with upgrade := false, wait := some .unlockUpgradeAndLock }).acquire .unlockUpgradeAndLock =
          .ok ⟨0, .noset, true⟩ := by
      simp only [acquire, StateData.lockExclusive, StateData.hasMoreShared, put, hb.1, hb.2]
      rfl
    rw [hacq]
    show ReflTransGen _ _ (put _ _ _ _).locks
    rw [put_put]
    refine moves_put ?_
    exact .upgradeAtOnce hu hb.1 hb.2 hh

variable [Fintype ι]

theorem call_sim {c : Call} (hw : (s.thread i).wait = none) (hh : c.Held (s.thread i))
    (hL : c = .unlockShared ∨ c = .unlockSharedAndLock → L s.state) : Sim L s.locks (s.call i pick c) := by
  have hn : ¬ (s.thread i).Upgrading := by
    unfold MutexThread.Upgrading
    rw [hw]
    nofun
  have hgo : ∀ {w : MutexWait}, w ≠ .unlockUpgradeAndLock → ((s.thread i).Upgrading ↔ w = .unlockUpgradeAndLock) :=
    fun h => iff_of_false hn h
  unfold call
  cases c with
  | lockShared => exact goOn_sim (hgo nofun)
  | lock => exact goOn_sim (hgo nofun)
  | lockUpgrade => exact goOn_sim (hgo nofun)
  | unlockShared =>
    dsimp only
    split_ifs
    · exact .error
    · refine unlockShared_sim (hL (.inl rfl)) hh fun d => ?_
      dsimp only
      split_ifs
      · exact .same fun s' h => by cases h; rfl
      · exact .same fun s' h => notifyOne_locks h
      · exact .same fun s' h => notifyWaiters_locks h
  | unlockSharedAndLock =>
    dsimp only
    split_ifs
    · exact .error
    · exact .error
    · refine unlockShared_sim (hL (.inr rfl)) hh fun d => goOn_sim ?_
      rw [put_thread]
      exact hgo nofun
  | unlock =>
    dsimp only
    split_ifs with hs he
    · exact .error
    · exact .error
    · exact Simulates.after (unlock_moves (by simpa using he) hh) (Sim.same fun s' h => notifyWaiters_locks h)
  | unlockAndLockShared =>
    dsimp only
    split_ifs with hs he hc
    · exact .error
    · exact .error
    · exact .error
    · exact moves_put_put (t := { s.thread i with exclusive := false }) (.unlock (by simpa using he) hh)
        (.lockShared (by simpa using hc))
  | tryLock =>
    dsimp only
    split_ifs with hb
    · exact .same fun s' h => by cases h; rfl
    · have hb : s.state.sharedCount = 0 ∧ s.state.exclusive = false := by simpa [StateData.hasMoreShared] using hb
      exact moves_put (.lock hb.1 hb.2)
  | tryLockShared =>
    dsimp only
    split_ifs with hc
    · exact .same fun s' h => by cases h; rfl
    · exact moves_put (.lockShared (by simpa using hc))
  | unlockUpgrade =>
    dsimp only
    unfold StateData.unlockUpgrade
    split_ifs with hu hs
    · exact .error
    · exact .error
    · have hchange : Locks.Change L s.state (s.thread i).holding ⟨s.state.sharedCount - 1, .noset, s.state.exclusive⟩
          ({ s.thread i with upgrade := false } : MutexThread).holding := .unlockUpgrade (not_not.1 hu) hs hh
      refine Simulates.after (moves_put hchange) ?_
      rw [ok_bind]
      dsimp only
      split_ifs
      · exact Sim.same fun s' h => by cases h; exact locks_notifyAll _ _
      · exact Sim.same fun s' h => notifyWaiters_locks h
  | unlockUpgradeAndLock =>
    dsimp only
    unfold StateData.unlockUpgradeAndUp
    split_ifs with hu hs
    · exact .error
    · exact .error
    · exact beginUpgrade_sim hh (not_not.1 hu) hs

/-- A section is moves of the locks. -/
theorem step_sim {e : Event ι} (he : s.Allowed e) (hL : ∀ c ∈ [Call.unlockShared, .unlockSharedAndLock], e.action = .call c → L s.state) :
    Sim L s.locks (step e s) := by
  unfold step
  unfold Allowed at he
  cases ha : e.action with
  | call c =>
    rw [ha] at he
    refine call_sim he.1 he.2 fun hc => ?_
    rcases hc with rfl | rfl
    · exact hL _ (by simp) ha
    · exact hL _ (by simp) ha
  | wake =>
    dsimp only
    cases hw : (s.thread e.thread).wait with
    | none => exact Simulates.of_eq_ok rfl
    | some w =>
      refine goOn_sim ?_
      unfold MutexThread.Upgrading
      rw [hw]
      exact Option.some_inj

end SharedMutex

namespace Locks

variable {ι : Type} [DecidableEq ι] [Fintype ι] {L : StateData → Prop} {v v' : Locks ι} {i : ι} {d : StateData} {x : Holding}

/-! ### The fields of `state_data` -/

/-- A thread and `state_data` change by the same amounts. -/
structure Balanced (d : StateData) (x : Holding) (d' : StateData) (x' : Holding) : Prop where
  exclusive : d'.exclusives + x.exclusives = d.exclusives + x'.exclusives
  upgrade : d'.upgrades + x.upgrades = d.upgrades + x'.upgrades
  upgrading : d'.upgradings + x.upgradings = d.upgradings + x'.upgradings
  shared : u32 (d'.sharedCount + x.shares) = u32 (d.sharedCount + x'.shares)
  lt : d'.sharedCount < 2 ^ 32
  noShared : d'.exclusive = true → d'.sharedCount = 0

omit [DecidableEq ι] [Fintype ι] in
theorem canLock_eq_true (h : d.canLockShared = true) : d.exclusive = false ∧ d.upgrade = .noset := by
  simpa [StateData.canLockShared] using h

omit [DecidableEq ι] [Fintype ι] in
theorem Change.balanced {d' : StateData} {x' : Holding} (h : Change L d x d' x') (hE : x.exclusives ≤ d.exclusives)
    (hU : x.upgrades ≤ d.upgrades) (hP : x.upgradings ≤ d.upgradings) (hlt : d.sharedCount < 2 ^ 32)
    (hn : d.exclusive = true → d.sharedCount = 0) : Balanced d x d' x' := by
  obtain ⟨count, upgrade, exclusive⟩ := d
  obtain ⟨shared, up, ex, uping⟩ := x
  simp only [StateData.exclusives, StateData.upgrades, StateData.upgradings, Holding.exclusives, Holding.upgrades,
    Holding.upgradings] at hE hU hP hlt hn
  cases h with
  | lockShared hc =>
    obtain ⟨rfl, rfl⟩ : exclusive = false ∧ upgrade = .noset := canLock_eq_true hc
    refine ⟨rfl, rfl, rfl, ?_, Nat.mod_lt _ (by decide), nofun⟩
    simp only [StateData.lockShared, Holding.shares, u32]
    omega
  | unlockShared hs he hx hL =>
    dsimp only at hs he hx
    subst he
    refine ⟨rfl, rfl, rfl, ?_, by dsimp only; omega, nofun⟩
    simp only [Holding.shares, u32]
    omega
  | lock hs he =>
    dsimp only at hs he
    subst he
    obtain rfl : ex = false := by simpa using hE
    exact ⟨rfl, rfl, rfl, rfl, hlt, fun _ => hs⟩
  | unlock he hx =>
    dsimp only at he hx
    subst he hx
    exact ⟨rfl, rfl, rfl, rfl, hlt, nofun⟩
  | lockUpgrade hc =>
    obtain ⟨rfl, rfl⟩ : exclusive = false ∧ upgrade = .noset := canLock_eq_true hc
    obtain rfl : up = false := by simpa using hU
    refine ⟨rfl, rfl, rfl, ?_, Nat.mod_lt _ (by decide), nofun⟩
    simp only [Holding.shares, u32, Bool.toNat_true, Bool.toNat_false]
    omega
  | unlockUpgrade hu hs hx =>
    dsimp only at hu hs hx
    subst hu hx
    refine ⟨rfl, rfl, rfl, ?_, by dsimp only; omega, fun he => absurd (hn he) hs⟩
    simp only [Holding.shares, u32, Bool.toNat_true, Bool.toNat_false]
    omega
  | beginUpgrade hu hs hb hx =>
    dsimp only at hu hs hx
    subst hu hx
    obtain rfl : uping = false := by simpa using hP
    refine ⟨rfl, rfl, rfl, ?_, by dsimp only; omega, fun he => absurd (hn he) hs⟩
    simp only [Holding.shares, u32, Bool.toNat_true, Bool.toNat_false]
    omega
  | upgradeAtOnce hu hs he hx =>
    dsimp only at hu hs he hx
    subst hu hs he hx
    obtain rfl : uping = false := by simpa using hP
    obtain rfl : ex = false := by simpa using hE
    refine ⟨rfl, rfl, rfl, ?_, by decide, fun _ => rfl⟩
    simp only [Holding.shares, u32, Bool.toNat_true, Bool.toNat_false]
    omega
  | upgrade hu hs he hx =>
    dsimp only at hu hs he hx
    subst hu he hx
    obtain rfl : ex = false := by simpa using hE
    exact ⟨rfl, rfl, rfl, rfl, hlt, fun _ => hs⟩

/-- The fields of `state_data` say what the threads hold. -/
structure Counts (v : Locks ι) : Prop where
  exclusive : tally Holding.exclusives v.held = v.state.exclusives
  upgrade : tally Holding.upgrades v.held = v.state.upgrades
  upgrading : tally Holding.upgradings v.held = v.state.upgradings
  shared : v.state.sharedCount = u32 (tally Holding.shares v.held)
  noShared : v.state.exclusive = true → v.state.sharedCount = 0

omit [DecidableEq ι] in
theorem Counts.lt (h : Counts v) : v.state.sharedCount < 2 ^ 32 := by
  rw [h.shared]
  exact Nat.mod_lt _ (by decide)

theorem Counts.put (h : Counts v) (hb : Balanced v.state (v.held i) d x) : Counts (v.put d i x) := by
  have hE := Tally.update Holding.exclusives v.held i x
  have hU := Tally.update Holding.upgrades v.held i x
  have hP := Tally.update Holding.upgradings v.held i x
  have hS := Tally.update Holding.shares v.held i x
  obtain ⟨he, hu, hp, hs, hlt, hn⟩ := hb
  have h1 := h.exclusive
  have h2 := h.upgrade
  have h3 := h.upgrading
  have h4 := h.shared
  refine ⟨?_, ?_, ?_, ?_, hn⟩ <;> dsimp only [Locks.put]
  · omega
  · omega
  · omega
  · simp only [u32] at hs h4 ⊢
    omega

theorem Counts.change (h : Counts v) (hc : Change L v.state (v.held i) d x) : Counts (v.put d i x) := by
  refine h.put (hc.balanced ?_ ?_ ?_ h.lt h.noShared)
  · rw [← h.exclusive]; exact Tally.weight_le Holding.exclusives v.held i
  · rw [← h.upgrade]; exact Tally.weight_le Holding.upgrades v.held i
  · rw [← h.upgrading]; exact Tally.weight_le Holding.upgradings v.held i

omit [DecidableEq ι] in
theorem Counts.start : Counts (SharedMutex.start ι).locks := by
  have hz : ∀ f : Holding → Nat, f MutexThread.start.holding = 0 → tally f (SharedMutex.start ι).locks.held = 0 :=
    fun f hf => Tally.eq_zero.2 fun _ => hf
  exact ⟨hz _ rfl, hz _ rfl, hz _ rfl, by rw [hz _ rfl]; rfl, nofun⟩

theorem Counts.move (h : Counts v) (hm : Move L v v') : Counts v' := by
  cases hm with
  | change hc => exact h.change hc

/-- An upgrading thread waits for a reader. -/
def Guarded (v : Locks ι) : Prop := v.state.upgrade = .uping → v.state.sharedCount ≠ 0

omit [Fintype ι] in
theorem Guarded.change (h : Guarded v) (hn : v.state.exclusive = true → v.state.sharedCount = 0)
    (hc : Change (fun d => ¬ (d.sharedCount = 1 ∧ d.upgrade = .uping)) v.state (v.held i) d x) : Guarded (v.put d i x) := by
  unfold Guarded at h ⊢
  dsimp only [Locks.put]
  generalize v.state = d₀ at h hn hc
  generalize v.held i = y at hc
  cases hc with
  | lockShared hc =>
    intro hu
    rw [show d₀.lockShared.upgrade = d₀.upgrade from rfl, (canLock_eq_true hc).2] at hu
    cases hu
  | unlockShared hs he hx hL =>
    intro hu
    have h1 : d₀.sharedCount ≠ 1 := fun h1 => hL ⟨h1, hu⟩
    dsimp only at hu ⊢
    omega
  | lock hs he => exact fun hu => absurd hs (h hu)
  | unlock he hx => exact h
  | lockUpgrade hc => nofun
  | unlockUpgrade hu hs hx => nofun
  | beginUpgrade hu hs hb hx =>
    have : d₀.sharedCount ≠ 1 := hb.resolve_right fun he => hs (hn he)
    dsimp only
    omega
  | upgradeAtOnce hu hs he hx => nofun
  | upgrade hu hs he hx => nofun

end Locks

namespace SharedMutex

variable {ι : Type} [DecidableEq ι] [Fintype ι] {s : SharedMutex ι} {i j : ι}

/-! ### Runs -/

theorem run_counts {C : SharedMutex ι → Event ι → Prop} {es : List (Event ι)} (hC : ∀ s e, C s e → s.Allowed e)
    (h : Run step C (start ι) es s) : s.locks.Counts := by
  refine h.inv (fun s => s.locks.Counts) (fun s e s' hs he hstep => ?_) Locks.Counts.start
  have hsim := step_sim (L := fun _ => True) (hC s e he) fun _ _ _ => trivial
  rw [hstep] at hsim
  exact hsim.inv (fun v v' hv hm => hv.move hm) hs

/-- The locks that the threads hold, an upgrade lock counting as a shared one. -/
def shares (s : SharedMutex ι) : Nat := ∑ i, ((s.thread i).shared + (s.thread i).upgrade.toNat)

/-- Thread `i` is in the upgrade or in the upgrading role. -/
def UpgradeRole (s : SharedMutex ι) (i : ι) : Prop := (s.thread i).upgrade = true ∨ (s.thread i).Upgrading

/-- The lock excludes what it should, and `m_state` says who holds what. `shared_count` is a `u32_t`: it counts the shared
locks modulo 2^32, and exactly as long as there are fewer than 2^32. -/
structure Exclusion (s : SharedMutex ι) : Prop where
  one_exclusive : ∀ i j, (s.thread i).exclusive = true → (s.thread j).exclusive = true → i = j
  exclusive_iff : s.state.exclusive = true ↔ ∃ i, (s.thread i).exclusive = true
  no_shared : s.state.exclusive = true → s.state.sharedCount = 0
  shared_count : s.state.sharedCount = u32 s.shares
  one_upgrade : ∀ i j, s.UpgradeRole i → s.UpgradeRole j → i = j

theorem exclusion_of_counts (h : s.locks.Counts) : s.Exclusion := by
  have hpos : ∀ i, 0 < (s.locks.held i).exclusives ↔ (s.thread i).exclusive = true := by
    intro i
    show 0 < (s.thread i).exclusive.toNat ↔ _
    cases (s.thread i).exclusive <;> decide
  have hle : tally Holding.exclusives s.locks.held ≤ 1 := by
    rw [h.exclusive]
    exact Bool.toNat_le _
  refine ⟨fun i j hi hj => Tally.unique hle ((hpos i).2 hi) ((hpos j).2 hj), ?_, h.noShared, h.shared, ?_⟩
  · constructor
    · intro he
      have htally : 0 < tally Holding.exclusives s.locks.held := by
        rw [h.exclusive]
        show 0 < s.state.exclusive.toNat
        rw [he]; decide
      obtain ⟨i, hi⟩ := Tally.exists_of_pos htally
      exact ⟨i, (hpos i).1 hi⟩
    · rintro ⟨i, hi⟩
      have := Tally.weight_le Holding.exclusives s.locks.held i
      have := (hpos i).2 hi
      have he : 0 < s.state.exclusive.toNat := by
        have := h.exclusive
        show 0 < s.locks.state.exclusives
        omega
      revert he
      cases s.state.exclusive <;> decide
  · have hrole : ∀ i, s.UpgradeRole i → 0 < (s.locks.held i).upgrades + (s.locks.held i).upgradings := by
      intro i hi
      show 0 < (s.thread i).upgrade.toNat + (decide (s.thread i).Upgrading).toNat
      rcases hi with hi | hi
      · rw [hi, Bool.toNat_true]; omega
      · rw [decide_eq_true hi, Bool.toNat_true]; omega
    have hsum : tally (fun x => x.upgrades + x.upgradings) s.locks.held ≤ 1 := by
      rw [Tally.add, h.upgrade, h.upgrading]
      unfold StateData.upgrades StateData.upgradings
      cases s.locks.state.upgrade <;> decide
    exact fun i j hi hj => Tally.unique hsum (hrole i hi) (hrole j hj)

/-- Mutual exclusion, for any number of threads and every interleaving. -/
theorem sharedMutex_exclusion {es : List (Event ι)} (h : Run step Allowed (start ι) es s) : s.Exclusion :=
  exclusion_of_counts (run_counts (fun _ _ he => he) h)

/-- A reader keeps a writer waiting, leaves, and the writer wakes. -/
def readerThenWriter : List (Event (Fin 2)) :=
  [⟨0, .call .lockShared, none⟩, ⟨1, .call .lock, none⟩, ⟨0, .call .unlockShared, some 1⟩, ⟨1, .wake, none⟩]

theorem sharedMutex_exclusion_writer :
    ∃ s, Run step Allowed (start (Fin 2)) readerThenWriter s ∧ (s.thread 1).exclusive = true ∧ s.Exclusion := by
  obtain ⟨s, hrun, hs⟩ := Run.of_decide (f := step) (P := Allowed) readerThenWriter (s := start (Fin 2))
    (Q := fun s => (s.thread 1).exclusive = true) (by decide)
  exact ⟨s, hrun, hs, sharedMutex_exclusion hrun⟩

/-- The last reader leaves while a thread waits to upgrade. -/
def LastReaderLeaves (s : SharedMutex ι) (e : Event ι) : Prop :=
  e.action ∈ [.call .unlockShared, .call .unlockSharedAndLock] ∧ s.state.sharedCount = 1 ∧ s.state.upgrade = .uping

instance (s : SharedMutex ι) (e : Event ι) : Decidable (s.LastReaderLeaves e) := inferInstanceAs (Decidable (_ ∧ _))

/-- A thread that waits for the upgrade is not forgotten, and no other thread gets the exclusive lock before it. -/
structure UpgradeKept (s : SharedMutex ι) : Prop where
  not_lost : ∀ i, (s.thread i).Upgrading → (s.thread i).notified = false →
    ¬ (s.state.sharedCount = 0 ∧ s.state.exclusive = false)
  alone : ∀ i j, (s.thread i).Upgrading → (s.thread j).exclusive = false

omit [DecidableEq ι] in
theorem uping_of_upgrading (h : s.locks.Counts) (hi : (s.thread i).Upgrading) : s.state.upgrade = .uping := by
  have hle := Tally.weight_le Holding.upgradings s.locks.held i
  have hpos : (s.locks.held i).upgradings = 1 := by
    show (decide (s.thread i).Upgrading).toNat = 1
    rw [decide_eq_true hi]; rfl
  rw [h.upgrading, hpos] at hle
  unfold StateData.upgradings at hle
  by_contra hu
  rw [show s.locks.state.upgrade = s.state.upgrade from rfl, if_neg hu] at hle
  omega

/-- In every run in which the last reader never leaves while a thread waits to upgrade, upgrades are kept. -/
theorem upgrade_kept {es : List (Event ι)}
    (h : Run step (fun s e => s.Allowed e ∧ ¬ s.LastReaderLeaves e) (start ι) es s) : s.UpgradeKept := by
  have hcounts := run_counts (fun _ _ he => he.1) h
  have hguard : s.locks.Counts ∧ s.locks.Guarded := by
    refine h.inv (fun s => s.locks.Counts ∧ s.locks.Guarded) (fun s e s' hs he hstep => ?_) ⟨.start, nofun⟩
    have hsim := step_sim (L := fun d => ¬ (d.sharedCount = 1 ∧ d.upgrade = .uping)) he.1
      fun c hc ha hL => he.2 ⟨by rw [ha]; simpa using hc, hL⟩
    rw [hstep] at hsim
    refine hsim.inv (I := fun v => v.Counts ∧ v.Guarded) (fun v v' hv hm => ⟨hv.1.move hm, ?_⟩) hs
    cases hm with
    | change hc => exact hv.2.change hv.1.noShared hc
  have hcount : ∀ i, (s.thread i).Upgrading → s.state.sharedCount ≠ 0 :=
    fun i hi => hguard.2 (uping_of_upgrading hcounts hi)
  refine ⟨fun i hi _ h0 => hcount i hi h0.1, fun i j hi => ?_⟩
  by_contra hj
  have hex := exclusion_of_counts hcounts
  exact hcount i hi (hex.no_shared (hex.exclusive_iff.2 ⟨j, by simpa using hj⟩))

/-- Thread 0 wants to upgrade while thread 1 is a reader. -/
def upgradeBehindReader : List (Event (Fin 2)) :=
  [⟨1, .call .lockShared, none⟩, ⟨0, .call .lockUpgrade, none⟩, ⟨0, .call .unlockUpgradeAndLock, none⟩]

theorem upgrade_kept_reader : ∃ s, Run step (fun s e => s.Allowed e ∧ ¬ s.LastReaderLeaves e) (start (Fin 2)) upgradeBehindReader s ∧
    (s.thread 0).Upgrading ∧ s.UpgradeKept := by
  obtain ⟨s, hrun, hs⟩ := Run.of_decide (f := step) (P := fun s e => s.Allowed e ∧ ¬ s.LastReaderLeaves e)
    upgradeBehindReader (s := start (Fin 2)) (Q := fun s => (s.thread 0).Upgrading) (by decide)
  exact ⟨s, hrun, hs, upgrade_kept hrun⟩

/-- The reader leaves, and nobody wakes the thread that waits to upgrade; or the reader takes the exclusive
lock itself. -/
theorem upgrade_lost :
    (∃ es s, Run step (fun s e => s.Allowed e ∧ s.NotSpurious e) (start (Fin 2)) es s ∧ (s.thread 0).Upgrading ∧
      (s.thread 0).notified = false ∧ s.state.sharedCount = 0 ∧ s.state.exclusive = false ∧ ¬ s.UpgradeKept) ∧
    ∃ es s, Run step (fun s e => s.Allowed e ∧ s.NotSpurious e) (start (Fin 2)) es s ∧ (s.thread 0).Upgrading ∧
      (s.thread 1).exclusive = true ∧ ¬ s.UpgradeKept := by
  constructor
  · obtain ⟨s, hrun, hup, hnot, hfree⟩ := Run.of_decide (f := step) (P := fun s e => s.Allowed e ∧ s.NotSpurious e)
      (upgradeBehindReader ++ [⟨1, .call .unlockShared, none⟩]) (s := start (Fin 2))
      (Q := fun s => (s.thread 0).Upgrading ∧ (s.thread 0).notified = false ∧ s.state.sharedCount = 0 ∧
        s.state.exclusive = false) (by decide)
    exact ⟨_, s, hrun, hup, hnot, hfree.1, hfree.2, fun h => h.not_lost 0 hup hnot hfree⟩
  · obtain ⟨s, hrun, hup, hex⟩ := Run.of_decide (f := step) (P := fun s e => s.Allowed e ∧ s.NotSpurious e)
      (upgradeBehindReader ++ [⟨1, .call .unlockSharedAndLock, none⟩]) (s := start (Fin 2))
      (Q := fun s => (s.thread 0).Upgrading ∧ (s.thread 1).exclusive = true) (by decide)
    exact ⟨_, s, hrun, hup, hex, fun h => Bool.noConfusion (hex.symm.trans (h.alone 0 1 hup))⟩

end SharedMutex
end Wawo
