import Wawo.Wcp.FlowControl

/-!
# The budget of the packaging step

`check_send` packages bytes of `sb` as long as `nmax_try_bytes` is above 0. That counter is a `u32_t`: it
starts at `cwnd - snd_nflight_bytes`, which wraps when a loss has cut `cwnd` below what is in flight, and a
pack may read more than is left of it, so that it wraps on its way to 0 unless a whole number of packs of
`WCP_MDU` bytes fills it or `sb` is empty before. Behind the wrap nothing bounds the loop but `sb`
(`moved_le_iff`, `noWrap_iff`).
-/

namespace Wawo

open Lts Relation

namespace Snd

variable {s : Snd} {n nmax : Nat}

/-- The bytes that the packaging step moves from `sb` to `snd_sending`. -/
def moved (s : Snd) : Nat := s.sb.count - s.refill.sb.count

/-- What the congestion window leaves, 0 if it is exceeded. -/
def window (s : Snd) : Nat := s.cwnd - s.nflightBytes

/-- In no round of `packageLoop` the pack reads more than is left of the budget. -/
def FitsBudget : Nat → Nat → Snd → Prop
  | 0, _, _ => True
  | n + 1, nmax, s =>
    s.sb.count > 0 ∧ nmax > 0 →
      min s.sb.count wcpMdu ≤ nmax ∧ FitsBudget n (subU32 nmax (min s.sb.count wcpMdu)) s.package

/-- Neither `cwnd - snd_nflight_bytes` nor `nmax_try_bytes -= nread` wraps. -/
structure NoWrap (s : Snd) : Prop where
  initial : s.nflightBytes ≤ s.cwnd
  rounds : ¬ s.localFinSent ∧ subU32 s.cwnd s.nflightBytes > wcpMtu →
    s.moveStandby.FitsBudget s.sb.count (subU32 s.cwnd s.nflightBytes)

/-- The packaging step keeps to its budget. -/
structure WithinBudget (s : Snd) : Prop where
  moved_le : s.moved ≤ s.window + wcpMdu
  noWrap : s.NoWrap

/-- `sb` fits the window, or packs of `WCP_MDU` bytes fill it exactly, if the loop is entered at all. -/
def Fills (s : Snd) : Prop :=
  s.nflightBytes ≤ s.cwnd ∧
    (s.localFinSent = true ∨ s.window ≤ wcpMtu ∨ s.sb.count ≤ s.window ∨ wcpMdu ∣ s.window)

/-- The same when a last pack may exceed the window. -/
def NearlyFills (s : Snd) : Prop :=
  s.localFinSent = true ∨ s.sb.count ≤ s.window + wcpMdu ∨
    s.nflightBytes ≤ s.cwnd ∧ (s.window ≤ wcpMtu ∨ wcpMdu ∣ s.window)

instance (s : Snd) : Decidable s.Fills := by unfold Fills; infer_instance

instance (s : Snd) : Decidable s.NearlyFills := by unfold NearlyFills; infer_instance

/-! ### The loop -/

theorem count_package (s : Snd) : s.package.sb.count = s.sb.count - wcpMdu := BoundedQueue.count_skip _ _

theorem subU32_of_le {a b : Nat} (h : b ≤ a) (ha : a < 2 ^ 32) : subU32 a b = a - b := by
  unfold subU32
  omega

/-- A wrapped budget. -/
theorem subU32_of_lt {a b : Nat} (h : a < b) (hb : b < 2 ^ 32) : subU32 a b = a + 2 ^ 32 - b := by
  unfold subU32
  omega

theorem subU32_lt (a b : Nat) : subU32 a b < 2 ^ 32 := Nat.mod_lt _ (by decide)

theorem packageLoop_succ (h : s.sb.count > 0 ∧ nmax > 0) :
    packageLoop (n + 1) nmax s = packageLoop n (subU32 nmax (min s.sb.count wcpMdu)) s.package := if_pos h

theorem packageLoop_of_not (h : ¬ (s.sb.count > 0 ∧ nmax > 0)) : packageLoop n nmax s = s := by
  cases n with
  | zero => rfl
  | succ n => exact if_neg h

theorem packageLoop_count_le (n nmax : Nat) (s : Snd) : (packageLoop n nmax s).sb.count ≤ s.sb.count := by
  induction n generalizing nmax s with
  | zero => exact Nat.le_refl _
  | succ n ih =>
    by_cases h : s.sb.count > 0 ∧ nmax > 0
    · rw [packageLoop_succ h]
      have := ih (subU32 nmax (min s.sb.count wcpMdu)) s.package
      rw [count_package] at this
      omega
    · rw [packageLoop_of_not h]

/-- What whole packs fill, or `sb` does not, is not exceeded. -/
theorem packageLoop_count (hn : s.sb.count ≤ n) (hlt : nmax < 2 ^ 32) (h : s.sb.count ≤ nmax ∨ wcpMdu ∣ nmax) :
    (packageLoop n nmax s).sb.count = s.sb.count - nmax := by
  induction n generalizing nmax s with
  | zero =>
    show s.sb.count = _
    omega
  | succ n ih =>
    by_cases hround : s.sb.count > 0 ∧ nmax > 0
    · have hpos : 0 < wcpMdu := by decide
      have hle : min s.sb.count wcpMdu ≤ nmax := by
        rcases h with h | h
        · omega
        · have := Nat.le_of_dvd hround.2 h
          omega
      rw [packageLoop_succ hround, subU32_of_le hle hlt]
      have hnext : s.package.sb.count ≤ nmax - min s.sb.count wcpMdu ∨ wcpMdu ∣ nmax - min s.sb.count wcpMdu := by
        rw [count_package]
        rcases Nat.le_total s.sb.count wcpMdu with hc | hc
        · left; omega
        · rw [Nat.min_eq_right hc]
          rcases h with h | h
          · left; omega
          · exact .inr (Nat.dvd_sub h (Nat.dvd_refl _))
      rw [ih (by rw [count_package]; omega) (by omega) hnext, count_package]
      omega
    · rw [packageLoop_of_not hround]
      omega

/-- Two rounds of the loop, with a budget that is not 0 behind the first. -/
theorem packageLoop_two (hn : s.sb.count ≤ n) (hc : wcpMdu < s.sb.count) (h0 : 0 < nmax) (hne : nmax ≠ wcpMdu)
    (hlt : nmax < 2 ^ 32) : (packageLoop n nmax s).sb.count ≤ s.sb.count - 2 * wcpMdu := by
  have hmdu : wcpMdu = 1384 := rfl
  obtain ⟨k, rfl⟩ : ∃ k, n = k + 2 := ⟨n - 2, by omega⟩
  have hleft : 0 < subU32 nmax (min s.sb.count wcpMdu) := by
    rw [Nat.min_eq_right (Nat.le_of_lt hc)]
    unfold subU32
    omega
  have hcount := count_package s
  rw [packageLoop_succ ⟨by omega, h0⟩, packageLoop_succ ⟨by omega, hleft⟩]
  have hcount' := count_package s.package
  have hle := packageLoop_count_le k (subU32 (subU32 nmax (min s.sb.count wcpMdu)) (min s.package.sb.count wcpMdu)) s.package.package
  omega

/-- A budget that whole packs do not fill is exceeded by more than a pack. -/
theorem packageLoop_exceeds (hn : s.sb.count ≤ n) (hlt : nmax < 2 ^ 32) (hc : nmax + wcpMdu < s.sb.count)
    (h : ¬ wcpMdu ∣ nmax) : (packageLoop n nmax s).sb.count + (nmax + wcpMdu) < s.sb.count := by
  induction n generalizing nmax s with
  | zero => omega
  | succ n ih =>
    have h0 : 0 < nmax := Nat.pos_of_ne_zero fun h0 => h (h0 ▸ Nat.dvd_zero _)
    rcases Nat.lt_or_ge nmax wcpMdu with hsmall | hlarge
    · -- the second round starts with the wrapped budget
      have := packageLoop_two hn (by omega) h0 (by omega) hlt
      omega
    · have hmin : min s.sb.count wcpMdu = wcpMdu := Nat.min_eq_right (by omega)
      rw [packageLoop_succ ⟨by omega, h0⟩, hmin, subU32_of_le hlarge hlt]
      have hcount := count_package s
      have hpos : 0 < wcpMdu := by decide
      have hndvd : ¬ wcpMdu ∣ nmax - wcpMdu := fun hd => h ((Nat.dvd_sub_iff_left hlarge (Nat.dvd_refl _)).1 hd)
      have hrest := ih (s := s.package) (by omega) (by omega) (by omega) hndvd
      omega

theorem fitsBudget_iff (hn : s.sb.count ≤ n) (hlt : nmax < 2 ^ 32) :
    s.FitsBudget n nmax ↔ s.sb.count ≤ nmax ∨ wcpMdu ∣ nmax := by
  induction n generalizing nmax s with
  | zero => exact ⟨fun _ => .inl (by omega), fun _ => trivial⟩
  | succ n ih =>
    unfold FitsBudget
    by_cases hround : s.sb.count > 0 ∧ nmax > 0
    · have hcount := count_package s
      have hpos : 0 < wcpMdu := by decide
      have hrest : min s.sb.count wcpMdu ≤ nmax →
          (s.package.FitsBudget n (subU32 nmax (min s.sb.count wcpMdu)) ↔
            s.sb.count - wcpMdu ≤ nmax - min s.sb.count wcpMdu ∨ wcpMdu ∣ nmax - min s.sb.count wcpMdu) := by
        intro hle
        rw [subU32_of_le hle hlt, ih (by omega) (by omega), hcount]
      have hdvd : wcpMdu ∣ nmax → wcpMdu ≤ nmax := Nat.le_of_dvd hround.2
      rw [imp_iff_right hround, and_congr_right hrest]
      rcases Nat.le_total s.sb.count wcpMdu with hc | hc
      · rw [Nat.min_eq_left hc]
        constructor
        · exact fun h => .inl h.1
        · intro h
          have hle : s.sb.count ≤ nmax := h.elim id fun hd => Nat.le_trans hc (hdvd hd)
          exact ⟨hle, .inl (by omega)⟩
      · rw [Nat.min_eq_right hc]
        constructor
        · rintro ⟨hle, h | h⟩
          · left; omega
          · exact .inr ((Nat.dvd_sub_iff_left hle (Nat.dvd_refl _)).1 h)
        · rintro (h | h)
          · exact ⟨by omega, .inl (by omega)⟩
          · exact ⟨hdvd h, .inr (Nat.dvd_sub h (Nat.dvd_refl _))⟩
    · refine iff_of_true (fun h => absurd h hround) ?_
      by_cases h0 : nmax = 0
      · exact .inr (h0 ▸ Nat.dvd_zero _)
      · left; omega

/-! ### The packaging step -/

theorem refill_eq (s : Snd) : s.refill =
    if ¬ s.localFinSent ∧ subU32 s.cwnd s.nflightBytes > wcpMtu then
      s.moveStandby.packageLoop s.sb.count (subU32 s.cwnd s.nflightBytes)
    else s.moveStandby := rfl

theorem moved_of_not_enter (h : ¬ (¬ s.localFinSent ∧ subU32 s.cwnd s.nflightBytes > wcpMtu)) : s.moved = 0 := by
  unfold moved
  rw [refill_eq, if_neg h]
  exact Nat.sub_self _

theorem moved_of_enter (h : ¬ s.localFinSent ∧ subU32 s.cwnd s.nflightBytes > wcpMtu) :
    s.moved = s.sb.count - (s.moveStandby.packageLoop s.sb.count (subU32 s.cwnd s.nflightBytes)).sb.count := by
  unfold moved
  rw [refill_eq, if_pos h]

/-- A window that is not exceeded is the budget. -/
theorem budget_of_le (hb : s.sender.FlightBytes) (h : s.nflightBytes ≤ s.cwnd) :
    subU32 s.cwnd s.nflightBytes = s.window ∧ s.window < 2 ^ 32 := by
  have hc : s.cwnd ≤ wcpSndCwndMax := hb.cwnd_le
  have hmax : wcpSndCwndMax < 2 ^ 32 := by decide
  exact ⟨subU32_of_le h (by omega), by unfold window; omega⟩

/-- A window that is exceeded leaves nearly `2 ^ 32` bytes of budget. -/
theorem budget_of_lt (hb : s.sender.FlightBytes) (h : s.cwnd < s.nflightBytes) :
    wcpMtu < subU32 s.cwnd s.nflightBytes ∧ s.window = 0 := by
  have hn : s.nflightBytes ≤ wcpSndCwndMax := hb.nflight_le
  have hmax : wcpSndCwndMax + wcpMtu < 2 ^ 32 := by decide
  rw [subU32_of_lt h (by omega)]
  exact ⟨by omega, by unfold window; omega⟩

theorem moved_le_iff (hb : s.sender.FlightBytes) : s.moved ≤ s.window + wcpMdu ↔ s.NearlyFills := by
  have hmtu : wcpMdu < wcpMtu := by decide
  unfold NearlyFills
  by_cases hfin : s.localFinSent = true
  · rw [moved_of_not_enter (by simp [hfin])]
    exact iff_of_true (Nat.zero_le _) (.inl hfin)
  have hopen : ¬ s.localFinSent = true := hfin
  rw [or_iff_right hfin]
  by_cases hc : s.sb.count ≤ s.window + wcpMdu
  · exact iff_of_true (Nat.le_trans (Nat.sub_le _ _) hc) (.inl hc)
  rw [or_iff_right hc]
  rcases Nat.lt_or_ge s.cwnd s.nflightBytes with hlt | hle
  · obtain ⟨hbig, hw⟩ := budget_of_lt hb hlt
    rw [moved_of_enter ⟨hopen, hbig⟩]
    refine iff_of_false ?_ fun h => absurd h.1 (Nat.not_le.2 hlt)
    have hpos' : 0 < subU32 s.cwnd s.nflightBytes := by omega
    have := packageLoop_two (s := s.moveStandby) (Nat.le_refl s.sb.count)
      (show wcpMdu < s.sb.count by omega) hpos' (by omega) (subU32_lt _ _)
    have hcount : s.moveStandby.sb.count = s.sb.count := rfl
    have hpos : 0 < wcpMdu := by decide
    omega
  · obtain ⟨hn, hlt⟩ := budget_of_le hb hle
    by_cases hmin : s.window ≤ wcpMtu
    · rw [moved_of_not_enter (by rw [hn]; omega)]
      exact iff_of_true (Nat.zero_le _) ⟨hle, .inl hmin⟩
    rw [moved_of_enter ⟨hopen, by omega⟩, hn]
    by_cases hd : wcpMdu ∣ s.window
    · rw [packageLoop_count (s := s.moveStandby) (Nat.le_refl s.sb.count) hlt (.inr hd)]
      refine iff_of_true ?_ ⟨hle, .inr hd⟩
      have hcount : s.moveStandby.sb.count = s.sb.count := rfl
      omega
    · have := packageLoop_exceeds (s := s.moveStandby) (Nat.le_refl s.sb.count) hlt
        (show s.window + wcpMdu < s.sb.count by omega) hd
      have hcount : s.moveStandby.sb.count = s.sb.count := rfl
      refine iff_of_false (by omega) ?_
      rintro ⟨-, h | h⟩
      · exact hmin h
      · exact hd h

theorem noWrap_iff (hb : s.sender.FlightBytes) : s.NoWrap ↔ s.Fills := by
  have hrounds : s.nflightBytes ≤ s.cwnd →
      ((¬ s.localFinSent ∧ subU32 s.cwnd s.nflightBytes > wcpMtu →
        s.moveStandby.FitsBudget s.sb.count (subU32 s.cwnd s.nflightBytes)) ↔
      (s.localFinSent = true ∨ s.window ≤ wcpMtu ∨ s.sb.count ≤ s.window ∨ wcpMdu ∣ s.window)) := by
    intro hle
    obtain ⟨hn, hlt⟩ := budget_of_le hb hle
    rw [hn, fitsBudget_iff (s := s.moveStandby) (Nat.le_refl s.sb.count) hlt, and_imp, ← or_iff_not_imp_left,
      gt_iff_lt, ← Nat.not_le, ← or_iff_not_imp_left]
    exact Iff.rfl
  unfold Fills
  exact ⟨fun h => ⟨h.initial, (hrounds h.initial).1 h.rounds⟩, fun h => ⟨h.1, (hrounds h.1).2 h.2⟩⟩

theorem Fills.nearlyFills (h : s.Fills) : s.NearlyFills := by
  obtain ⟨hle, h | h | h | h⟩ := h
  · exact .inl h
  · exact .inr (.inr ⟨hle, .inl h⟩)
  · exact .inr (.inl (Nat.le_add_right_of_le h))
  · exact .inr (.inr ⟨hle, .inr h⟩)

theorem withinBudget_iff (hb : s.sender.FlightBytes) : s.WithinBudget ↔ s.Fills :=
  ⟨fun h => (noWrap_iff hb).1 h.noWrap, fun h => ⟨(moved_le_iff hb).2 h.nearlyFills, (noWrap_iff hb).2 h⟩⟩

end Snd

/-! ### Where `check_send` packages -/

section

variable {now : Nat} {w w₀ u v : Wcb} {es : List Event} {e : Event}

/-- The loop from `_begin_send` on, started in the first state, comes to its packaging step in the other. -/
inductive Packaging (now : Nat) : Wcb → Wcb → Prop
  | here {w v : Wcb} {x : SendExit} (ht : transmitLoop now w.snd.sending w = .ok (v, x)) (hx : x ≠ .stop) :
      Packaging now w v
  | again {w u v : Wcb} {x : SendExit} (ht : transmitLoop now w.snd.sending w = .ok (u, x)) (hx : x ≠ .stop)
      (hne : u.snd.refill.sending ≠ []) (hv : Packaging now (u.setSnd u.snd.refill) v) : Packaging now w v

/-- `check_send(now)`, called in `w`, comes to its packaging step in `v`. -/
def Packages (now : Nat) (w v : Wcb) : Prop :=
  w.snd.sendError = false ∧
    ∃ w₁, sendCtlLoop (queuedCount (checkRwnd now w).snd.sendingIgnoreSeqSpace) (checkRwnd now w) = .ok (w₁, .more) ∧
      Packaging now w₁ v

theorem flightBytes_of_star {m : Sender.Mode} {s t : Sender} (hb : s.FlightBytes)
    (h : ReflTransGen (Sender.Step m) s t) : t.FlightBytes :=
  Simulates.star_inv (fun _ _ hv hs => hv.step hs) hb h

theorem Packaging.flightBytes (h : Packaging now w v) (hb : w.snd.sender.FlightBytes) : v.snd.sender.FlightBytes := by
  have hloop : ∀ {w u : Wcb} {x : SendExit}, transmitLoop now w.snd.sending w = .ok (u, x) →
      w.snd.sender.FlightBytes → u.snd.sender.FlightBytes := by
    intro w u x ht hb
    have hs : SndSim (.any .send w.rcv.next) (fun c : Wcb × SendExit => c.1.snd) w.snd.sender (transmitLoop now w.snd.sending w) :=
      transmitLoop_sim rfl rfl rfl
    rw [ht] at hs
    exact flightBytes_of_star hb hs
  induction h with
  | here ht => exact hloop ht hb
  | @again w u v x ht _ _ _ ih =>
    exact ih (flightBytes_of_star (hloop ht hb) (refill_steps (m := .any .send 0) rfl u.snd))

theorem Packages.flightBytes (h : Packages now w v) (hb : w.snd.sender.FlightBytes) : v.snd.sender.FlightBytes := by
  obtain ⟨he, w₁, hc, hp⟩ := h
  have hrwnd := checkRwnd_steps (m := .any .send (checkRwnd now w).rcv.next) now w he (.inl rfl)
  have hctl := sendCtlLoop_sim (m := .any .send (checkRwnd now w).rcv.next) (w := checkRwnd now w)
    (k := queuedCount (checkRwnd now w).snd.sendingIgnoreSeqSpace) rfl
  rw [hc] at hctl
  exact hp.flightBytes (flightBytes_of_star (flightBytes_of_star hb hrwnd) hctl)

theorem CallsSend.flightBytes (h : CallsSend e w now u) (hb : w.snd.sender.FlightBytes) : u.snd.sender.FlightBytes := by
  cases h with
  | checkSend t => exact hb
  | update t _ hv => exact beforeSend_flightBytes (w := w.prepare t) hb hv

theorem packages_flightBytes (h₀ : Opened w₀) (h : Run step (fun _ _ => True) w₀ es w) (hc : CallsSend e w now u)
    (hp : Packages now u v) : v.snd.sender.FlightBytes :=
  hp.flightBytes (hc.flightBytes (run_flightBytes h₀ h))

/-- In every run, whenever `check_send` comes to its packaging step: the step keeps to its budget, without
a wrapped counter, if and only if the window is not exceeded and `sb` fits it, packs of `WCP_MDU` bytes fill
it exactly, or the loop is not entered; and it moves no more than a pack beyond the window under the same
condition, up to that pack. -/
theorem packaging_budget (h₀ : Opened w₀) (h : Run step (fun _ _ => True) w₀ es w) (hc : CallsSend e w now u)
    (hp : Packages now u v) :
    (v.snd.WithinBudget ↔ v.snd.Fills) ∧ (v.snd.moved ≤ v.snd.window + wcpMdu ↔ v.snd.NearlyFills) :=
  have hb := packages_flightBytes h₀ h hc hp
  ⟨Snd.withinBudget_iff hb, Snd.moved_le_iff hb⟩

/-- With nothing to transmit, `check_send` packages at once. -/
theorem packages_of_idle (he : w.snd.sendError = false) (hc : (checkRwnd now w).snd.sendingIgnoreSeqSpace = [])
    (hs : (checkRwnd now w).snd.sending = []) : Packages now w (checkRwnd now w) := by
  refine ⟨he, checkRwnd now w, ?_, .here (x := .more) ?_ nofun⟩
  · rw [hc]
    rfl
  · rw [hs]
    rfl

/-- After the events `check_send` comes to its packaging step in a state that satisfies `P`, and moves more
than its budget. -/
def Exceeds (w₀ : Wcb) (es : List Event) (t : Tick) (P : Snd → Prop) : Prop :=
  Opened w₀ ∧ ∃ w v, Run step (fun _ _ => True) w₀ es w ∧ Packages t.now (w.prepare t) v ∧ P v.snd ∧
    v.snd.window + wcpMdu < v.snd.moved ∧ ¬ v.snd.WithinBudget

/-- The condition of `exceeds_of_idle`, evaluated. -/
def idleExceeds (w₀ : Wcb) (es : List Event) (t : Tick) (P : Snd → Prop) [DecidablePred P] : Bool :=
  match Lts.exec step es w₀ with
  | .error _ => false
  | .ok w =>
    let s := (checkRwnd t.now (w.prepare t)).snd
    w.snd.sendError = false ∧ s.sendingIgnoreSeqSpace = [] ∧ s.sending = [] ∧ P s ∧ ¬ s.NearlyFills

theorem exceeds_of_idle {t : Tick} {P : Snd → Prop} [DecidablePred P] (h₀ : Opened w₀)
    (h : idleExceeds w₀ es t P = true) : Exceeds w₀ es t P := by
  unfold idleExceeds at h
  cases hexec : Lts.exec step es w₀ with
  | error e => rw [hexec] at h; cases h
  | ok w =>
    rw [hexec] at h
    obtain ⟨he, hc, hs, hP, hn⟩ := of_decide_eq_true h
    have hrun : Run step (fun _ _ => True) w₀ es w := .of_exec (fun _ _ => trivial) hexec
    have hp : Packages t.now (w.prepare t) _ := packages_of_idle he hc hs
    have hlt : ¬ Snd.moved _ ≤ Snd.window _ + wcpMdu := fun hle =>
      hn ((Snd.moved_le_iff (packages_flightBytes h₀ hrun (.checkSend t w) hp)).1 hle)
    exact ⟨h₀, w, _, hrun, hp, hP, Nat.lt_of_not_le hlt, fun hw => hlt hw.moved_le⟩

end

/-! ### Clients behind the handshake -/

/-- A single byte waits in `sb`. -/
def writeOne : List Event := handshake ++ [.send [1]]

theorem packaging_budget_writeOne :
    (checkRwnd 3 ((Wcb.connecting.after writeOne).prepare (.at 3))).snd.WithinBudget :=
  (packaging_budget opened_connecting (Wcb.run_after (by decide)) (.checkSend (.at 3) _)
    (packages_of_idle (by decide) (by decide) (by decide))).1.2 (by decide)

/-- A client right after `connect`, with the default buffers. -/
def Wcb.connectingDefault : Wcb :=
  let w := Wcb.init ⟨0, 0, 0, 0⟩ 0 wcpRcvWndDefault wcpSndWndDefault
  { w with remoteAddr := ⟨2⟩, snd := w.snd.SYN, state := .syning, timerState := 0 }

theorem opened_connectingDefault : Opened Wcb.connectingDefault :=
  .active ⟨0, 0, 0, 0⟩ 0 wcpRcvWndDefault wcpSndWndDefault ⟨2⟩ _ rfl

/-- More is written than the window and a pack. -/
def writeBulk : List Event := handshake ++ [.send (List.replicate 16000 0)]

/-- Six packs are lost, which cuts `cwnd` to 7000 and leaves 7312 bytes in flight, and two more packs are
written. -/
def writeAfterLoss : List Event :=
  handshake ++ [.send (List.replicate 7200 0), .update (.at 3), .checkFlights (.at 2000), .send (List.replicate 2000 0)]

/-- The decrement of the budget wraps in the one client, the initial subtraction in the other, and
`check_send` packages more than it may. -/
theorem budget_wraps :
    Exceeds Wcb.connectingDefault writeBulk (.at 3) (fun s => s.nflightBytes ≤ s.cwnd) ∧
      Exceeds Wcb.connecting writeAfterLoss (.at 2001) (fun s => s.cwnd < s.nflightBytes) :=
  ⟨exceeds_of_idle opened_connectingDefault (by decide +kernel), exceeds_of_idle opened_connecting (by decide +kernel)⟩

end Wawo
