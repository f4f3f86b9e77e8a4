import Wawo.Text.LenCstr

/-!
# `split` and `join` (`string.hpp`)

`split` goes from one occurrence of the delimiter to the next and keeps the pieces between them that are not empty.
Wherever the loop stands, what it has kept, with the pieces of the rest, is what it will have kept (`splitLoop_eq`).
-/

namespace Wawo.Text.LenCstr

open Lts List

/-- The loop of `split` from `next_check_idx` on. With a delimiter that is not empty it takes a byte at least in
each of its `rounds`. -/
def splitLoop (string delimiter : LenCstr) : Nat → Nat → List LenCstr → Except ByteFault (Nat × List LenCstr)
  | 0, _, _ => .error .loop
  | rounds + 1, nextCheckIdx, result =>
    let hitPos := strpos (string.cstr.drop nextCheckIdx) delimiter.cstr
    if nextCheckIdx < string.len ∧ hitPos ≠ -1 then do
      let tmp ← ofStr (string.cstr.drop nextCheckIdx) (ofInt32 hitPos)
      splitLoop string delimiter rounds (u32 (nextCheckIdx + u32 (ofInt32 hitPos + delimiter.len)))
        (if tmp.len > 0 then result ++ [tmp] else result)
    else return (nextCheckIdx, result)

/-- `split(string, delimiter, result)` -/
def split (string delimiter : LenCstr) (result : List LenCstr) : Except ByteFault (List LenCstr) := do
  require (result.length = 0) .strResult
  let (nextCheckIdx, result) ← splitLoop string delimiter (string.len + 1) 0 result
  if subU32 string.len nextCheckIdx > 0 then
    let leftString ← ofStr (string.cstr.drop nextCheckIdx) (subU32 string.len nextCheckIdx)
    return result ++ [leftString]
  else return result

/-- `join(strings, delimiter, result)` -/
def join (strings : List LenCstr) (delimiter result : LenCstr) : Except ByteFault LenCstr :=
  match strings with
  | [] => .ok result
  | first :: strings => do
    let result ← result.add first
    strings.foldlM (fun result s => do (← result.add delimiter).add s) result

variable {string delimiter r s other result : LenCstr} {strings : List LenCstr} {rounds nextCheckIdx : Nat} {t : List Byte} {us : List (List Byte)}

/-! ### `split` -/

theorem ofStr_drop {n k : Nat} (hle : n + k ≤ string.len) : ∃ r, ofStr (string.cstr.drop n) k = .ok r ∧ r.cstr = (string.cstr.drop n).take k := by
  have hdrop : 0 ∉ string.cstr.drop n := fun hzero => string.noNul (mem_of_mem_drop hzero)
  have hlen : string.cstr.length = string.len := rfl
  have hfits : string.len + 1 < 2 ^ 32 := string.fits
  have hk : k ≤ strlen (string.cstr.drop n) := by
    rw [strlen_eq hdrop, length_drop]
    omega
  obtain ⟨r, hr⟩ : ∃ r, ofStr (string.cstr.drop n) k = .ok r := ⟨_, dif_pos ⟨hk, by omega⟩⟩
  exact ⟨r, hr, (ofStr_eq_ok.mp hr).2⟩

theorem strpos_drop (string delimiter : LenCstr) (n : Nat) :
    (strpos (string.cstr.drop n) delimiter.cstr = -1 ∧ ¬ delimiter.cstr <:+: string.cstr.drop n) ∨
      ∃ u t, Leftmost delimiter.cstr (string.cstr.drop n) u t ∧ strpos (string.cstr.drop n) delimiter.cstr ≠ -1 ∧
        ofInt32 (strpos (string.cstr.drop n) delimiter.cstr) = u.length :=
  strpos_cases (Nat.lt_of_le_of_lt (Nat.succ_le_succ (by rw [length_drop]; exact Nat.sub_le _ _)) string.fits)

/-- One round: the piece before the next occurrence is kept unless it is empty. -/
theorem splitLoop_round {u t : List Byte} (hd : delimiter.cstr ≠ []) (h : Leftmost delimiter.cstr (string.cstr.drop nextCheckIdx) u t)
    (result : List LenCstr) (rounds : Nat) :
    ∃ kept, splitLoop string delimiter (rounds + 1) nextCheckIdx result =
        splitLoop string delimiter rounds (nextCheckIdx + u.length + delimiter.len) (result ++ kept) ∧
      kept.map cstr = [u].filter (· ≠ []) ∧ string.cstr.drop (nextCheckIdx + u.length + delimiter.len) = t ∧
      nextCheckIdx + u.length + delimiter.len ≤ string.len := by
  have hfits : string.len + 1 < 2 ^ 32 := string.fits
  have hdpos : 0 < delimiter.len := length_pos_iff.mpr hd
  have hlen : string.len - nextCheckIdx = u.length + delimiter.len + t.length := by
    show string.cstr.length - nextCheckIdx = u.length + delimiter.cstr.length + t.length
    rw [← length_drop, h.eq, length_append, length_append]
  obtain ⟨u', t', hleft, hpos, hhit⟩ := (strpos_drop string delimiter nextCheckIdx).resolve_left fun hnone => hnone.2 h.isInfix
  obtain ⟨rfl, rfl⟩ := h.unique hleft
  obtain ⟨tmp, htmp, htmpcstr⟩ := @ofStr_drop string _ _ (show nextCheckIdx + u.length ≤ string.len by omega)
  have hu : tmp.cstr = u := by
    rw [htmpcstr, h.eq, append_assoc, take_left]
  refine ⟨if tmp.len > 0 then [tmp] else [], ?_, ?_, ?_, by omega⟩
  · conv_lhs => unfold splitLoop
    dsimp only
    have hstep : u32 (u.length + delimiter.len) = u.length + delimiter.len := u32_of_lt (by omega)
    rw [if_pos ⟨by omega, hpos⟩, hhit, htmp, ok_bind, hstep, u32_of_lt (by omega), Nat.add_assoc]
    split_ifs
    · rfl
    · rw [append_nil]
  · have htmplen : tmp.len = u.length := congrArg length hu
    rw [htmplen]
    by_cases hne : u = []
    · rw [hne, if_neg (by simp)]
      rfl
    · rw [if_pos (length_pos_iff.mpr hne), map_singleton, hu]
      simp [hne]
  · have hfront : (u ++ delimiter.cstr).length = u.length + delimiter.len := length_append
    rw [Nat.add_assoc, ← drop_drop, h.eq, ← hfront]
    exact drop_left

/-- What has been kept and what is left, at every head of the loop -/
theorem splitLoop_eq (hd : delimiter.cstr ≠ []) (h : Pieces delimiter.cstr t us) (ht : string.cstr.drop nextCheckIdx = t)
    (hle : nextCheckIdx ≤ string.len) (hrounds : string.len - nextCheckIdx < rounds) (result : List LenCstr) :
    ∃ last result', splitLoop string delimiter rounds nextCheckIdx result = .ok (last, result') ∧ last ≤ string.len ∧
      result'.map cstr ++ [string.cstr.drop last].filter (· ≠ []) = result.map cstr ++ us.filter (· ≠ []) := by
  induction h generalizing nextCheckIdx rounds result with
  | @last t hnone =>
    obtain ⟨rounds, rfl⟩ := Nat.exists_eq_succ_of_ne_zero (Nat.ne_of_gt (Nat.lt_of_le_of_lt (Nat.zero_le _) hrounds))
    refine ⟨nextCheckIdx, result, ?_, hle, by rw [ht]⟩
    unfold splitLoop
    refine if_neg fun hgo => ?_
    obtain ⟨u, v, hleft, -⟩ := (strpos_drop string delimiter nextCheckIdx).resolve_left fun h => hgo.2 h.1
    exact hnone (ht ▸ hleft.isInfix)
  | @cons t u t' us hleft _ ih =>
    obtain ⟨rounds, rfl⟩ := Nat.exists_eq_succ_of_ne_zero (Nat.ne_of_gt (Nat.lt_of_le_of_lt (Nat.zero_le _) hrounds))
    have hdpos : 0 < delimiter.len := length_pos_iff.mpr hd
    obtain ⟨kept, hround, hkept, hdrop, hle'⟩ := splitLoop_round hd (ht ▸ hleft) result rounds
    have hrounds' : string.len - (nextCheckIdx + u.length + delimiter.len) < rounds := by omega
    obtain ⟨last, result', hloop, hlast, hall⟩ := ih hdrop hle' hrounds' (result ++ kept)
    refine ⟨last, result', hround.trans hloop, hlast, ?_⟩
    rw [hall, map_append, hkept, append_assoc, ← filter_append, singleton_append]

theorem split_eq (hd : delimiter.cstr ≠ []) (h : Pieces delimiter.cstr string.cstr us) :
    ∃ result, split string delimiter [] = .ok result ∧ result.map cstr = us.filter (· ≠ []) := by
  have hfits : string.len + 1 < 2 ^ 32 := string.fits
  obtain ⟨last, result, hloop, hlast, hall⟩ := splitLoop_eq hd h drop_zero (Nat.zero_le _) (show string.len - 0 < string.len + 1 by omega) []
  have hsub : subU32 string.len last = string.len - last := by
    unfold subU32
    omega
  rw [map_nil, nil_append] at hall
  unfold split
  rw [require_eq length_nil, ok_bind, hloop, ok_bind]
  dsimp only
  rw [hsub]
  by_cases hmore : string.len - last > 0
  · obtain ⟨leftString, hleft, hcstr⟩ := @ofStr_drop string _ _ (show last + (string.len - last) ≤ string.len by omega)
    have hlen : (string.cstr.drop last).length = string.len - last := length_drop
    rw [if_pos hmore, hleft, ok_bind]
    refine ⟨_, rfl, ?_⟩
    have hne : string.cstr.drop last ≠ [] := ne_nil_of_length_pos (by omega)
    rw [map_append, ← hall, map_singleton, hcstr, take_of_length_le hlen.le]
    simp [hne]
  · have hnil : string.cstr.drop last = [] := drop_of_length_le (show string.len ≤ last by omega)
    rw [if_neg hmore]
    refine ⟨_, rfl, ?_⟩
    rw [← hall, hnil]
    simp

/-! ### `join` -/

/-- What `+=` makes of the strings that are left -/
theorem join_rest : strings.foldlM (fun result s => do (← result.add delimiter).add s) result = .ok r ↔
    r.cstr = delimiter.cstr.intercalate (result.cstr :: strings.map cstr) := by
  induction strings generalizing result with
  | nil =>
    rw [map_nil, intercalate_singleton]
    constructor
    · intro h
      cases h
      rfl
    · intro h
      rw [LenCstr.ext h]
      rfl
  | cons s strings ih =>
    rw [map_cons, intercalate_step, foldlM_cons]
    constructor
    · intro h
      obtain ⟨sum', hsum', h⟩ := bind_eq_ok.mp h
      obtain ⟨sum, hsum, hsum'⟩ := bind_eq_ok.mp hsum'
      rw [ih.mp h, add_eq_ok.mp hsum', add_eq_ok.mp hsum]
    · intro hr
      have hr' := hr
      rw [← append_nil (_ ++ _ ++ _), intercalate_cons_append] at hr'
      have hfirst : result.cstr ++ delimiter.cstr ++ (s.cstr ++ delimiter.cstr.intercalate ([] :: strings.map cstr)) = r.cstr := by
        rw [hr', append_assoc _ s.cstr]
      obtain ⟨sum, hsum, hsumcstr⟩ := exists_add hfirst
      have hsecond : sum.cstr ++ s.cstr ++ delimiter.cstr.intercalate ([] :: strings.map cstr) = r.cstr := by
        rw [hr', hsumcstr]
      obtain ⟨sum', hsum', hsumcstr'⟩ := exists_add hsecond
      rw [hsum, ok_bind, hsum', ok_bind]
      exact ih.mpr (by rw [hr, hsumcstr', hsumcstr])

theorem join_eq_ok : join strings delimiter empty = .ok r ↔ r.cstr = delimiter.cstr.intercalate (strings.map cstr) := by
  cases strings with
  | nil =>
    constructor
    · intro h
      cases h
      rfl
    · intro h
      exact congrArg Except.ok (LenCstr.ext h.symm)
  | cons first strings =>
    have hfirst : empty.add first = .ok first := add_eq_ok.mpr rfl
    rw [join, hfirst, ok_bind]
    exact join_rest

/-- The joined text is a `len_cstr` if it is short enough for one. -/
theorem exists_join (h : (delimiter.cstr.intercalate (strings.map cstr)).length + 1 < 2 ^ 32) : ∃ r, join strings delimiter empty = .ok r := by
  have hno : 0 ∉ delimiter.cstr.intercalate (strings.map cstr) := by
    intro hzero
    rcases mem_intercalate hzero with hd | ⟨u, hu, hzero⟩
    · exact delimiter.noNul hd
    · obtain ⟨s, -, rfl⟩ := mem_map.mp hu
      exact s.noNul hzero
  exact ⟨⟨_, hno, h⟩, join_eq_ok.mpr rfl⟩

theorem map_cstr_inj {strings strings' : List LenCstr} (h : strings.map cstr = strings'.map cstr) : strings = strings' :=
  map_injective_iff.mpr (fun _ _ => LenCstr.ext) h

/-- Taking a joined text apart gives the strings back. -/
theorem split_join_eq {b : Byte} (hb : delimiter.cstr = [b]) (hstrings : ∀ s ∈ strings, s.cstr ≠ [] ∧ b ∉ s.cstr)
    (h : join strings delimiter empty = .ok r) : split r delimiter [] = .ok strings := by
  have hd : delimiter.cstr ≠ [] := hb ▸ cons_ne_nil b []
  have hr := join_eq_ok.mp h
  cases strings with
  | nil =>
    obtain ⟨result, hsplit, hresult⟩ := split_eq hd (.last (s := r.cstr) (by rw [hr, hb]; simp [intercalate]))
    have hnil : result.map cstr = [] := by
      rw [hresult, hr]
      rfl
    rw [hsplit, map_eq_nil_iff.mp hnil]
  | cons first strings =>
    have hpieces : Pieces delimiter.cstr r.cstr ((first :: strings).map cstr) := by
      rw [hr, hb]
      exact pieces_intercalate (cons_ne_nil _ _) (forall_mem_map.mpr fun s hs => (hstrings s hs).2)
    obtain ⟨result, hsplit, hresult⟩ := split_eq hd hpieces
    have hkept : ∀ u ∈ (first :: strings).map cstr, decide (u ≠ []) = true :=
      forall_mem_map.mpr fun s hs => decide_eq_true (hstrings s hs).1
    rw [filter_eq_self.mpr hkept] at hresult
    rw [hsplit, map_cstr_inj hresult]

/-- `split` ends and gives the pieces that are not empty; it takes apart what `join` made, which is where the
joined text is a `len_cstr`. -/
theorem split_join (string delimiter : LenCstr) (strings : List LenCstr) (c : LenCstr) (b : Byte) :
    (delimiter.cstr ≠ [] → ∃ us result, Pieces delimiter.cstr string.cstr us ∧
      split string delimiter [] = .ok result ∧ result.map cstr = us.filter (· ≠ []) ∧ ∀ u ∈ result, ¬ delimiter.cstr <:+: u.cstr) ∧
    (c.cstr = [b] → (∀ s ∈ strings, s.cstr ≠ [] ∧ b ∉ s.cstr) →
      ((∃ r, join strings c empty = .ok r ∧ split r c [] = .ok strings) ↔ (c.cstr.intercalate (strings.map cstr)).length + 1 < 2 ^ 32)) := by
  constructor
  · intro hd
    obtain ⟨us, hus⟩ := exists_pieces hd string.cstr
    obtain ⟨result, hsplit, hresult⟩ := split_eq hd hus
    refine ⟨us, result, hus, hsplit, hresult, fun u hu => ?_⟩
    have hmem : u.cstr ∈ us.filter (· ≠ []) := hresult ▸ mem_map_of_mem hu
    exact hus.not_isInfix hd u.cstr (mem_filter.mp hmem).1
  · intro hb hstrings
    constructor
    · rintro ⟨r, hjoin, -⟩
      rw [← join_eq_ok.mp hjoin]
      exact r.fits
    · intro hfits
      obtain ⟨r, hjoin⟩ := exists_join hfits
      exact ⟨r, hjoin, split_join_eq hb hstrings hjoin⟩

/-- Joining `a` and `b` at a comma, and taking them apart -/
theorem split_join_comma : ∃ r, join [⟨[97], by decide, by decide⟩, ⟨[98], by decide, by decide⟩] ⟨[44], by decide, by decide⟩ empty = .ok r ∧
    split r ⟨[44], by decide, by decide⟩ [] = .ok [⟨[97], by decide, by decide⟩, ⟨[98], by decide, by decide⟩] :=
  ((split_join empty empty _ _ 44).2 rfl (by decide)).mpr (by decide)

/-- A string of 2 GiB, no byte of it a comma -/
def longStr : LenCstr :=
  ⟨replicate (2 ^ 31) 97, fun hzero => absurd (eq_of_mem_replicate hzero) (by decide), by rw [length_replicate]; omega⟩

theorem longStr_length : longStr.cstr.length = 2 ^ 31 := length_replicate

/-- The length of the sum of two of them does not fit in a `u32_t`, and the buffer is too small for the second. -/
theorem join_long : (∀ s ∈ [longStr, longStr], s.cstr ≠ [] ∧ 44 ∉ s.cstr) ∧
    ¬ ∃ r, join [longStr, longStr] ⟨[44], by decide, by decide⟩ empty = .ok r ∧
      split r ⟨[44], by decide, by decide⟩ [] = .ok [longStr, longStr] := by
  constructor
  · intro s hs
    have hs : s = longStr := by simpa using hs
    rw [hs]
    exact ⟨ne_nil_of_length_pos (by rw [longStr_length]; omega), fun hcomma => absurd (eq_of_mem_replicate hcomma) (by decide)⟩
  · rintro ⟨r, hjoin, -⟩
    have hfits := r.fits
    rw [join_eq_ok.mp hjoin, map_cons, map_singleton, intercalate_cons_cons, intercalate_singleton, length_append, length_append,
      longStr_length] at hfits
    omega

end Wawo.Text.LenCstr
