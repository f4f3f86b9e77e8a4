import Wawo.Text.LenCstr

/-!
# `replace` (`string.hpp`)

`replace` looks for the leftmost occurrence in the text as it is after the last replacement, from its start. Where
the occurrences of the source are replaced one after the other in this way (`List.Settles`), it does what one pass
from left to right does; where the replacement gives a new occurrence, or makes one with what stands around it, it
goes on with that one, without an end if there always is one.
-/

namespace Wawo.Text.LenCstr

open Lts List

/-- From `begin` on, in at most `rounds` rounds -/
def replaceLoop (search replace_ : LenCstr) : Nat → LenCstr → Nat → LenCstr → Except ByteFault (Nat × LenCstr)
  | 0, _, _, _ => .error .loop
  | rounds + 1, source, replaceCount, result =>
    let pos := strpos source.cstr search.cstr
    if pos = -1 then .ok (replaceCount, result)
    else do
      let back := u32 (ofInt32 pos + search.len)
      let newStr ← (← source.substr 0 (ofInt32 pos)).add replace_
      let newStr ← newStr.add (← source.substr back (subU32 source.len back))
      require (replaceCount + 1 < 2 ^ 31) .strCount
      replaceLoop search replace_ rounds newStr (replaceCount + 1) newStr

/-- `replace(source_, search_, replace_, result)`: the count and `result` -/
def replace (rounds : Nat) (source search replace_ result : LenCstr) : Except ByteFault (Nat × LenCstr) :=
  replaceLoop search replace_ rounds source 0 result

/-- `replace` ends; in `result` the occurrences of one pass are replaced, and their number is what it returns. -/
def Replaces (source search replace_ result : LenCstr) : Prop :=
  ∃ rounds replaceCount result' us, replace rounds source search replace_ result = .ok (replaceCount, result') ∧
    Pieces search.cstr source.cstr us ∧ result'.cstr = replace_.cstr.intercalate us ∧ replaceCount + 1 = us.length

variable {source search replace_ result newStr : LenCstr} {out : Nat × LenCstr} {rounds replaceCount : Nat} {t u v w : List Byte}
  {us : List (List Byte)}

/-! ### One round -/

theorem strpos_search (source search : LenCstr) :
    (strpos source.cstr search.cstr = -1 ∧ ¬ search.cstr <:+: source.cstr) ∨
      ∃ u t, Leftmost search.cstr source.cstr u t ∧ strpos source.cstr search.cstr ≠ -1 ∧ ofInt32 (strpos source.cstr search.cstr) = u.length :=
  strpos_cases source.fits

theorem replaceLoop_done (h : ¬ search.cstr <:+: source.cstr) (rounds replaceCount : Nat) (result : LenCstr) :
    replaceLoop search replace_ (rounds + 1) source replaceCount result = .ok (replaceCount, result) := by
  obtain ⟨hpos, -⟩ := (strpos_search source search).resolve_right fun ⟨u, t, hleft, _⟩ => h hleft.isInfix
  unfold replaceLoop
  exact if_pos hpos

/-- The round in which `v`, the word and `w` are found -/
theorem replaceLoop_round (h : Leftmost search.cstr source.cstr v w) :
    replaceLoop search replace_ (rounds + 1) source replaceCount result = .ok out ↔
      ∃ newStr, newStr.cstr = v ++ replace_.cstr ++ w ∧ replaceCount + 1 < 2 ^ 31 ∧
        replaceLoop search replace_ rounds newStr (replaceCount + 1) newStr = .ok out := by
  obtain ⟨u, t, hleft, hpos, hhit⟩ := (strpos_search source search).resolve_left fun hnone => hnone.2 h.isInfix
  obtain ⟨rfl, rfl⟩ := h.unique hleft
  have hfits : source.len + 1 < 2 ^ 32 := source.fits
  have hlen : source.len = v.length + search.len + w.length := by
    show source.cstr.length = v.length + search.cstr.length + w.length
    rw [h.eq, length_append, length_append]
  have hback : u32 (v.length + search.len) = v.length + search.len := u32_of_lt (by omega)
  have hsub : subU32 source.len (v.length + search.len) = w.length := by
    unfold subU32
    omega
  have hfront {r : LenCstr} : source.substr 0 v.length = .ok r ↔ r.cstr = v := by
    rw [substr_eq_ok (by omega), drop_zero, h.eq, append_assoc, take_left]
  have hrest {r : LenCstr} : source.substr (v.length + search.len) w.length = .ok r ↔ r.cstr = w := by
    have hdrop : source.cstr.drop (v.length + search.len) = w := by
      rw [h.eq, show v.length + search.len = (v ++ search.cstr).length from length_append.symm, drop_left]
    rw [substr_eq_ok (by omega), hdrop, take_length]
  conv_lhs => unfold replaceLoop
  dsimp only
  rw [if_neg hpos, hhit, hback, hsub]
  constructor
  · intro hloop
    obtain ⟨front, hf, hloop⟩ := bind_eq_ok.mp hloop
    obtain ⟨sum, hsum, hloop⟩ := bind_eq_ok.mp hloop
    obtain ⟨back, hb, hloop⟩ := bind_eq_ok.mp hloop
    obtain ⟨newStr, hnew, hloop⟩ := bind_eq_ok.mp hloop
    obtain ⟨_, hcount, hloop⟩ := bind_eq_ok.mp hloop
    refine ⟨newStr, ?_, require_eq_ok.mp hcount, hloop⟩
    rw [add_eq_ok.mp hnew, add_eq_ok.mp hsum, hfront.mp hf, hrest.mp hb]
  · rintro ⟨newStr, hnew, hcount, hloop⟩
    have hno : 0 ∉ v ∧ 0 ∉ w := by
      have hzero := source.noNul
      rw [h.eq, mem_append, mem_append] at hzero
      exact ⟨fun hv => hzero (.inl (.inl hv)), fun hw => hzero (.inr hw)⟩
    obtain ⟨front, hf⟩ : ∃ front : LenCstr, front.cstr = v := ⟨⟨v, hno.1, by omega⟩, rfl⟩
    obtain ⟨back, hb⟩ : ∃ back : LenCstr, back.cstr = w := ⟨⟨w, hno.2, by omega⟩, rfl⟩
    obtain ⟨sum, hsum, hsumcstr⟩ := exists_add (show front.cstr ++ replace_.cstr ++ w = newStr.cstr by rw [hf, hnew])
    have hadd : sum.add back = .ok newStr := add_eq_ok.mpr (by rw [hnew, hsumcstr, hf, hb])
    rw [hfront.mpr hf, ok_bind, hsum, ok_bind, hrest.mpr hb, ok_bind, hadd, ok_bind, require_eq hcount, ok_bind]
    exact hloop

/-! ### A run that ends -/

/-- No text of `replace` is longer than the longer one of the source and the result. -/
theorem exists_newStr (h : Leftmost search.cstr source.cstr v w) (hsource : source.cstr = search.cstr.intercalate (u :: t :: us))
    (hnew : v ++ replace_.cstr ++ w = search.cstr.intercalate ((u ++ replace_.cstr ++ t) :: us))
    (hfits : (replace_.cstr.intercalate ((u ++ replace_.cstr ++ t) :: us)).length + 1 < 2 ^ 32) :
    ∃ newStr : LenCstr, newStr.cstr = v ++ replace_.cstr ++ w := by
  have hno : 0 ∉ v ++ replace_.cstr ++ w := by
    have hzero := source.noNul
    rw [h.eq, mem_append, mem_append] at hzero
    rw [mem_append, mem_append]
    rintro ((hv | hr) | hw)
    · exact hzero (.inl (.inl hv))
    · exact replace_.noNul hr
    · exact hzero (.inr hw)
  have hlen : (v ++ replace_.cstr ++ w).length + 1 < 2 ^ 32 := by
    have hsourcefits := source.fits
    rw [hnew]
    rcases Nat.le_total search.cstr.length replace_.cstr.length with hle | hle
    · have := length_intercalate_le hle ((u ++ replace_.cstr ++ t) :: us)
      omega
    · have := length_replace_le hle u t us
      rw [← hsource] at this
      omega
  exact ⟨⟨_, hno, hlen⟩, rfl⟩

/-- The rounds that are left replace what is left, whatever they have begun with. -/
theorem replaceLoop_settles (hsettles : Settles search.cstr replace_.cstr u us) (hsource : source.cstr = search.cstr.intercalate (u :: us))
    (hfits : (replace_.cstr.intercalate (u :: us)).length + 1 < 2 ^ 32) (hcount : replaceCount + us.length < 2 ^ 31)
    (hresult : us = [] → result = source) :
    ∃ result', replaceLoop search replace_ (us.length + 1) source replaceCount result = .ok (replaceCount + us.length, result') ∧
      result'.cstr = replace_.cstr.intercalate (u :: us) := by
  induction us generalizing u source replaceCount result with
  | nil =>
    rw [intercalate_singleton] at hsource
    have hnone : ¬ search.cstr <:+: source.cstr := hsource ▸ hsettles
    exact ⟨result, replaceLoop_done hnone 0 replaceCount result, by rw [hresult rfl, hsource, intercalate_singleton]⟩
  | cons t us ih =>
    obtain ⟨⟨v, w, hleft, hnew⟩, hsettles'⟩ := hsettles
    rw [intercalate_step] at hfits
    obtain ⟨newStr, hnewStr⟩ := exists_newStr (hsource ▸ hleft) hsource hnew hfits
    have hcount' : replaceCount + 1 + us.length < 2 ^ 31 := by
      rw [length_cons] at hcount
      omega
    obtain ⟨result', hloop, hresult'⟩ := ih hsettles' (hnewStr.trans hnew) hfits hcount' fun _ => rfl
    refine ⟨result', (replaceLoop_round (hsource ▸ hleft)).mpr ⟨newStr, hnewStr, by omega, ?_⟩, by rw [hresult', intercalate_step]⟩
    rw [length_cons, hloop, Nat.add_right_comm, Nat.add_assoc]

/-- A run that has begun with what it has in `result` ends without an occurrence in it. -/
theorem replaceLoop_end (hcount : replaceCount < 2 ^ 31) (h : replaceLoop search replace_ rounds source replaceCount source = .ok out) :
    out.1 < 2 ^ 31 ∧ ¬ search.cstr <:+: out.2.cstr := by
  induction rounds generalizing source replaceCount with
  | zero => cases h
  | succ rounds ih =>
    by_cases hin : search.cstr <:+: source.cstr
    · obtain ⟨v, w, hleft⟩ := exists_leftmost hin
      obtain ⟨newStr, -, hcount', hloop⟩ := (replaceLoop_round hleft).mp h
      exact ih hcount' hloop
    · rw [replaceLoop_done hin] at h
      cases h
      exact ⟨hcount, hin⟩

/-- Where there is an occurrence, the text before does not matter, and none is left. -/
theorem replace_end (hin : search.cstr <:+: source.cstr) (h : replace rounds source search replace_ result = .ok out) :
    out.1 < 2 ^ 31 ∧ ¬ search.cstr <:+: out.2.cstr := by
  cases rounds with
  | zero => cases h
  | succ rounds =>
    obtain ⟨v, w, hleft⟩ := exists_leftmost hin
    obtain ⟨newStr, -, hcount, hloop⟩ := (replaceLoop_round hleft).mp h
    exact replaceLoop_end hcount hloop

/-- A run without a replacement leaves `result` alone. -/
theorem replaceLoop_count (h : replaceLoop search replace_ rounds source replaceCount result = .ok out) :
    replaceCount ≤ out.1 ∧ (out.1 = replaceCount → out.2 = result) := by
  induction rounds generalizing source replaceCount result with
  | zero => cases h
  | succ rounds ih =>
    by_cases hin : search.cstr <:+: source.cstr
    · obtain ⟨v, w, hleft⟩ := exists_leftmost hin
      obtain ⟨newStr, -, -, hloop⟩ := (replaceLoop_round hleft).mp h
      have hle := (ih hloop).1
      exact ⟨by omega, fun heq => by omega⟩
    · rw [replaceLoop_done hin] at h
      cases h
      exact ⟨Nat.le_refl _, fun _ => rfl⟩

/-! ### One pass -/

/-- What one pass does is what `replace` does: without an occurrence, `result` is the source before; with
occurrences, replacing them one after the other settles, and the count and the result are in range. -/
def OnePass (source search replace_ result : LenCstr) : Prop :=
  ∃ u us, Pieces search.cstr source.cstr (u :: us) ∧ (us = [] → result = source) ∧
    (us ≠ [] → us.length < 2 ^ 31 ∧ (replace_.cstr.intercalate (u :: us)).length + 1 < 2 ^ 32 ∧ Settles search.cstr replace_.cstr u us)

theorem OnePass.replaces (h : OnePass source search replace_ result) : Replaces source search replace_ result := by
  obtain ⟨u, us, hus, hnone, hsome⟩ := h
  by_cases hnil : us = []
  · have hin : ¬ search.cstr <:+: source.cstr := hus.length_eq_one.mp (by rw [hnil, length_singleton])
    refine ⟨1, 0, result, [source.cstr], replaceLoop_done hin 0 0 result, .last hin, ?_, rfl⟩
    rw [hnone hnil, intercalate_singleton]
  · obtain ⟨hcount, hfits, hsettles⟩ := hsome hnil
    obtain ⟨result', hloop, hresult'⟩ := replaceLoop_settles hsettles hus.intercalate_eq.symm hfits (show 0 + us.length < 2 ^ 31 by omega)
      fun h => absurd h hnil
    exact ⟨us.length + 1, 0 + us.length, result', u :: us, hloop, hus, hresult', by rw [Nat.zero_add, length_cons]⟩

/-- What a run that does what one pass does says about the text of one pass -/
theorem Replaces.range (hus : Pieces search.cstr source.cstr (u :: us)) (h : Replaces source search replace_ result) :
    (us = [] → result = source) ∧ (us ≠ [] → us.length < 2 ^ 31 ∧ (replace_.cstr.intercalate (u :: us)).length + 1 < 2 ^ 32 ∧
      ¬ search.cstr <:+: replace_.cstr.intercalate (u :: us)) := by
  obtain ⟨rounds, replaceCount, result', us', hrun, hus', hresult', hcount⟩ := h
  obtain rfl := hus'.unique hus
  have hcount : replaceCount = us.length := Nat.succ.inj hcount
  constructor
  · intro hnil
    obtain ⟨-, hsame⟩ := replaceLoop_count hrun
    have hsame : result' = result := hsame (by rw [hcount, hnil, length_nil])
    have hsource := hus.intercalate_eq
    rw [hnil, intercalate_singleton] at hsource hresult'
    exact LenCstr.ext (by rw [← hsame, hresult', hsource])
  · intro hne
    have hin : search.cstr <:+: source.cstr := by
      by_contra hno
      have hone := hus.length_eq_one.mpr hno
      exact hne (eq_nil_of_length_eq_zero (Nat.succ.inj hone))
    obtain ⟨hlt, hno⟩ := replace_end hin hrun
    rw [hresult'] at hno
    exact ⟨hcount ▸ hlt, hresult' ▸ result'.fits, hno⟩

/-- Two replacements that end in the text of one pass settle. -/
theorem Replaces.settles (hus : Pieces search.cstr source.cstr (u :: us)) (hne : us ≠ []) (hle : us.length ≤ 2)
    (h : Replaces source search replace_ result) : Settles search.cstr replace_.cstr u us := by
  obtain ⟨-, -, hno⟩ := (h.range hus).2 hne
  obtain ⟨rounds, replaceCount, result', us', hrun, hus', hresult', hcount⟩ := h
  obtain rfl := hus'.unique hus
  obtain ⟨t, us, rfl⟩ := exists_cons_of_ne_nil hne
  have hleft := hus.leftmost
  refine ⟨⟨u, search.cstr.intercalate (t :: us), hleft, append_intercalate u replace_.cstr t us⟩, ?_⟩
  rw [intercalate_step] at hno hresult'
  cases us with
  | nil => rwa [intercalate_singleton] at hno
  | cons t' us =>
    have hnil : us = [] := by
      rw [length_cons, length_cons] at hle
      exact eq_nil_of_length_eq_zero (by omega)
    subst hnil
    have hcount : replaceCount = 2 := Nat.succ.inj hcount
    -- the first round, and the second, which is the last
    obtain ⟨rounds, rfl⟩ : ∃ n, rounds = n + 1 := Nat.exists_eq_succ_of_ne_zero fun hzero => by subst hzero; cases hrun
    rw [hus.intercalate_eq] at hleft
    obtain ⟨first, hfirst, -, hrun⟩ := (replaceLoop_round hleft).mp hrun
    rw [append_intercalate] at hfirst
    obtain ⟨rounds, rfl⟩ : ∃ n, rounds = n + 1 := Nat.exists_eq_succ_of_ne_zero fun hzero => by subst hzero; cases hrun
    obtain ⟨v, w, hsecondleft⟩ := exists_leftmost (s := first.cstr) ⟨_, t', by rw [hfirst, intercalate_cons_cons, intercalate_singleton]⟩
    obtain ⟨second, hsecond, -, hrun⟩ := (replaceLoop_round hsecondleft).mp hrun
    have hlast : result' = second := (replaceLoop_count hrun).2 hcount
    rw [intercalate_step] at hno hresult'
    rw [intercalate_singleton] at hno
    rw [hfirst] at hsecondleft
    refine ⟨⟨v, w, hsecondleft, ?_⟩, hno⟩
    rw [← hsecond, ← hlast, hresult', intercalate_singleton, intercalate_singleton]

/-- Where one pass is what `replace` does, it ends with the text of one pass and the number of the occurrences.
Where it does so, nothing is left to find in that text, and with two occurrences at most it is what one pass does. -/
theorem replace_onePass (source search replace_ result : LenCstr) :
    (OnePass source search replace_ result → Replaces source search replace_ result) ∧
    (Replaces source search replace_ result → ∀ u us, Pieces search.cstr source.cstr (u :: us) →
      (us = [] → result = source) ∧
      (us ≠ [] → us.length < 2 ^ 31 ∧ (replace_.cstr.intercalate (u :: us)).length + 1 < 2 ^ 32 ∧
        ¬ search.cstr <:+: replace_.cstr.intercalate (u :: us)) ∧
      (us.length ≤ 2 → OnePass source search replace_ result)) := by
  refine ⟨OnePass.replaces, fun h u us hus => ?_⟩
  obtain ⟨hnone, hsome⟩ := h.range hus
  refine ⟨hnone, hsome, fun hle => ⟨u, us, hus, hnone, fun hne => ?_⟩⟩
  obtain ⟨hcount, hfits, -⟩ := hsome hne
  exact ⟨hcount, hfits, h.settles hus hne hle⟩

/-- `b` for the `a` in `xax` -/
theorem replace_onePass_one :
    Replaces ⟨[120, 97, 120], by decide, by decide⟩ ⟨[97], by decide, by decide⟩ ⟨[98], by decide, by decide⟩ empty := by
  have hus : Pieces [97] [120, 97, 120] [([120] : List Byte), [120]] := @pieces_intercalate Byte [[120], [120]] 97 (by decide) (by decide)
  refine (replace_onePass _ _ _ _).1 ⟨[120], [[120]], hus, nofun, fun _ => ⟨by decide, by decide, ?_, ?_⟩⟩
  · exact ⟨[120], [120], hus.leftmost, append_intercalate [120] [98] [120] []⟩
  · exact fun hin => absurd (hin.subset mem_cons_self) (by decide)

/-- Without an occurrence `result` stays what it was; an occurrence in the replacement is found again and again. -/
theorem replace_fails :
    ¬ Replaces ⟨[120], by decide, by decide⟩ ⟨[97], by decide, by decide⟩ ⟨[98], by decide, by decide⟩ empty ∧
      ¬ Replaces ⟨[97], by decide, by decide⟩ ⟨[97], by decide, by decide⟩ ⟨[97], by decide, by decide⟩ empty := by
  constructor
  · intro h
    have hus : Pieces [97] [120] [([120] : List Byte)] := .last fun hin => absurd (hin.subset mem_cons_self) (by decide)
    have hresult := (h.range hus).1 rfl
    exact absurd (congrArg cstr hresult) (by decide)
  · intro h
    have hus : Pieces [97] [97] [([] : List Byte), []] := @pieces_intercalate Byte [[], []] 97 (by decide) (by decide)
    obtain ⟨-, -, hno⟩ := (h.range hus).2 (cons_ne_nil _ _)
    exact hno (infix_refl _)

end Wawo.Text.LenCstr
