import Mathlib.Data.List.TakeWhile
import Wawo.Bytes.Basic
import Wawo.Lib.Pieces

/-!
# Strings with a length (`string.hpp`)

A string of C is the list of its bytes up to the NUL; where a list of bytes is longer, as the buffer of an
addition is, the string ends at the first NUL in it. `LenCstr` is a `len_cstr`: no byte of it is NUL, and with the
NUL it is short enough for `malloc` to be asked for it. `strpos` finds the leftmost occurrence (`strpos_cases`),
and `+` puts two strings one after the other, where the sum is a `len_cstr` at all (`add_eq_ok`).
-/

namespace Wawo.Text

open Lts Memory

/-- An `int` from a difference of pointers -/
def toInt32 (n : Nat) : Int := if n % 2 ^ 32 < 2 ^ 31 then (n % 2 ^ 32 : Nat) else (n % 2 ^ 32 : Nat) - 2 ^ 32

/-- A `u32_t` from an `int` -/
def ofInt32 (n : Int) : Nat := (n % 2 ^ 32).toNat

def strlen (str : List Byte) : Nat := (str.takeWhile (· ≠ 0)).length

/-- `std::strstr`: where the first occurrence begins -/
def strstr (dst check : List Byte) : Option Nat :=
  if check.isPrefixOf dst then some 0
  else
    match dst with
    | [] => none
    | _ :: dst => (strstr dst check).map (· + 1)

def strpos (dst check : List Byte) : Int :=
  match strstr dst check with
  | none => -1
  | some sub => toInt32 sub

/-- `wawo::strncpy(buffer + dst, src, length)` -/
def strncpy (buffer : List Byte) (dst : Nat) (src : List Byte) (length : Nat) : Except ByteFault (List Byte) := do
  let srcLen := strlen src
  let copyLength := if srcLen > length then length else srcLen
  let buffer ← store buffer dst (← load src 0 copyLength)
  store buffer (dst + length) [0]

/-- `wawo::strncat(buffer, src, length)` -/
def strncat (buffer src : List Byte) (length : Nat) : Except ByteFault (List Byte) := do
  let dstLength := strlen buffer
  let srcLen := strlen src
  let copyLength := if srcLen > length then length else srcLen
  strncpy buffer dstLength src copyLength

/-- `len_cstr`; `len` is the length of `cstr`. -/
@[ext] structure LenCstr where
  cstr : List Byte
  noNul : 0 ∉ cstr
  fits : cstr.length + 1 < 2 ^ 32
deriving DecidableEq

theorem takeWhile_ne_zero {str : List Byte} (h : 0 ∉ str) : str.takeWhile (· ≠ 0) = str := by
  rw [List.takeWhile_eq_self_iff]
  exact fun b hb => decide_eq_true fun hzero => h (hzero ▸ hb)

theorem strlen_eq {str : List Byte} (h : 0 ∉ str) : strlen str = str.length := by
  rw [strlen, takeWhile_ne_zero h]

/-- No NUL stands before the end of a string. -/
theorem not_mem_take {str : List Byte} {n : Nat} (h : n ≤ strlen str) : 0 ∉ str.take n := by
  have htake : str.take n = (str.takeWhile (· ≠ 0)).take n := by
    conv_lhs => rw [← List.takeWhile_append_dropWhile (p := (· ≠ 0)) (l := str)]
    exact List.take_append_of_le_length h
  rw [htake]
  intro hzero
  have := List.mem_takeWhile_imp (List.mem_of_mem_take hzero)
  simp at this

namespace LenCstr

def len (s : LenCstr) : Nat := s.cstr.length

/-- `len_cstr()` -/
def empty : LenCstr := ⟨[], List.not_mem_nil, by decide⟩

/-- `len_cstr(str, slen)` -/
def ofStr (str : List Byte) (slen : Nat) : Except ByteFault LenCstr :=
  if h : slen ≤ strlen str ∧ slen + 1 < 2 ^ 32 then
    .ok ⟨str.take slen, not_mem_take h.1, Nat.lt_of_le_of_lt (Nat.succ_le_succ (List.length_take_le slen str)) h.2⟩
  else .error .strLen

/-- `substr(begin, _len)` -/
def substr (s : LenCstr) (first count : Nat) : Except ByteFault LenCstr := do
  require (u32 (first + count) ≤ s.len) .strSub
  ofStr (s.cstr.drop first) count

/-- `operator +` -/
def add (s other : LenCstr) : Except ByteFault LenCstr := do
  let bufferLength := u32 (s.len + other.len + 1)
  let buffer := List.replicate bufferLength 0
  let buffer ← (if s.len ≠ 0 then strncpy buffer 0 s.cstr s.len else .ok buffer : Except ByteFault (List Byte))
  let buffer ← (if other.len ≠ 0 then strncat buffer other.cstr other.len else .ok buffer : Except ByteFault (List Byte))
  ofStr buffer (u32 (s.len + other.len))

end LenCstr

/-! ### Finding -/

variable {dst check str src : List Byte} {n : Nat}

theorem ofInt32_toInt32 (h : n < 2 ^ 32) : ofInt32 (toInt32 n) = n := by
  unfold ofInt32 toInt32
  split_ifs <;> omega

theorem toInt32_ne (h : n + 1 < 2 ^ 32) : toInt32 n ≠ -1 := by
  unfold toInt32
  split_ifs <;> omega

theorem strstr_spec (dst check : List Byte) :
    (strstr dst check = none ∧ ¬ check <:+: dst) ∨ ∃ u t, List.Leftmost check dst u t ∧ strstr dst check = some u.length := by
  induction dst with
  | nil =>
    by_cases h : check.isPrefixOf [] = true
    · refine .inr ⟨[], [], ⟨?_, fun _ _ _ => Nat.zero_le _⟩, by rw [strstr, if_pos h, List.length_nil]⟩
      have hnil := List.prefix_nil.mp (List.isPrefixOf_iff_prefix.mp h)
      rw [hnil, List.append_nil, List.append_nil]
    · refine .inl ⟨by rw [strstr, if_neg h], fun hin => h ?_⟩
      rw [List.infix_nil.mp hin]
      rfl
  | cons a dst ih =>
    by_cases h : check.isPrefixOf (a :: dst) = true
    · obtain ⟨t, ht⟩ := List.isPrefixOf_iff_prefix.mp h
      exact .inr ⟨[], t, ⟨ht.symm, fun _ _ _ => Nat.zero_le _⟩, by rw [strstr, if_pos h, List.length_nil]⟩
    · have hpre : ¬ check <+: a :: dst := fun hpre => h (List.isPrefixOf_iff_prefix.mpr hpre)
      rcases ih with ⟨hnone, hin⟩ | ⟨u, t, hleft, hsome⟩
      · refine .inl ⟨by rw [strstr, if_neg h, hnone, Option.map_none], fun hin' => ?_⟩
        exact (List.infix_cons_iff.mp hin').elim hpre hin
      · refine .inr ⟨a :: u, t, ⟨by rw [hleft.eq]; rfl, fun u' t' heq => ?_⟩, by rw [strstr, if_neg h, hsome, Option.map_some, List.length_cons]⟩
        cases u' with
        | nil => exact absurd ⟨t', heq.symm⟩ hpre
        | cons b u' =>
          rw [List.cons_append, List.cons_append] at heq
          exact Nat.succ_le_succ (hleft.le u' t' (List.cons.inj heq).2)

/-- The position of the leftmost occurrence, in a string that is a `len_cstr` or the end of one -/
theorem strpos_cases (hfits : dst.length + 1 < 2 ^ 32) :
    (strpos dst check = -1 ∧ ¬ check <:+: dst) ∨
      ∃ u t, List.Leftmost check dst u t ∧ strpos dst check ≠ -1 ∧ ofInt32 (strpos dst check) = u.length := by
  rcases strstr_spec dst check with ⟨hnone, hin⟩ | ⟨u, t, hleft, hsome⟩
  · exact .inl ⟨by rw [strpos, hnone], hin⟩
  · have hlen : u.length ≤ dst.length := by
      rw [hleft.eq, List.length_append, List.length_append]
      omega
    refine .inr ⟨u, t, hleft, ?_, ?_⟩
    · rw [strpos, hsome]
      exact toInt32_ne (by omega)
    · rw [strpos, hsome]
      exact ofInt32_toInt32 (by omega)

/-! ### Building -/

theorem strlen_append_zero (h : 0 ∉ str) (n : Nat) : strlen (str ++ List.replicate (n + 1) 0) = str.length := by
  rw [strlen, List.takeWhile_append, takeWhile_ne_zero h, if_pos rfl, List.replicate_succ, List.takeWhile_cons_of_neg (by simp),
    List.append_nil]

/-- A copy behind a string in a buffer of zeros -/
theorem strncpy_zeros (hsrc : 0 ∉ src) (n : Nat) :
    strncpy (str ++ List.replicate (src.length + (n + 1)) 0) str.length src src.length = .ok (str ++ src ++ List.replicate (n + 1) 0) := by
  have hpoke : poke (str ++ List.replicate (src.length + (n + 1)) 0) str.length src = str ++ src ++ List.replicate (n + 1) 0 := by
    rw [poke, List.take_left, List.drop_append, List.drop_of_length_le (Nat.le_add_right _ _), List.nil_append, List.drop_replicate]
    congr 2
    omega
  have hend : poke (str ++ src ++ List.replicate (n + 1) 0) (str.length + src.length) [0] = str ++ src ++ List.replicate (n + 1) 0 := by
    rw [poke, ← List.length_append, List.take_left, List.length_singleton, List.drop_append, List.drop_of_length_le (Nat.le_add_right _ _),
      List.nil_append, Nat.add_sub_cancel_left, List.drop_replicate, List.append_assoc]
    rfl
  unfold strncpy
  rw [strlen_eq hsrc]
  dsimp only
  rw [if_neg (Nat.lt_irrefl _), load_eq (by omega), ok_bind, slice_self, store_eq (by rw [List.length_append, List.length_replicate]; omega), ok_bind, hpoke,
    store_eq (by simp only [List.length_append, List.length_replicate, List.length_singleton]; omega), hend]

namespace LenCstr

variable {s other r : LenCstr} {first count : Nat}

theorem ofStr_eq_ok : ofStr str n = .ok r ↔ n ≤ strlen str ∧ r.cstr = str.take n := by
  unfold ofStr
  constructor
  · intro h
    split_ifs at h with hn
    cases h
    exact ⟨hn.1, rfl⟩
  · rintro ⟨hn, hr⟩
    have hlen : strlen str ≤ str.length := (List.takeWhile_sublist _).length_le
    have hfits := r.fits
    rw [hr, List.length_take, Nat.min_eq_left (hn.trans hlen)] at hfits
    rw [dif_pos ⟨hn, hfits⟩]
    congr 1
    exact LenCstr.ext hr.symm

theorem substr_eq_ok (h : first + count ≤ s.len) : s.substr first count = .ok r ↔ r.cstr = (s.cstr.drop first).take count := by
  have hfits : s.len + 1 < 2 ^ 32 := s.fits
  have hdrop : 0 ∉ s.cstr.drop first := fun hzero => s.noNul (List.mem_of_mem_drop hzero)
  unfold substr
  rw [u32_of_lt (by omega), require_eq h, ok_bind, ofStr_eq_ok, strlen_eq hdrop, List.length_drop]
  exact and_iff_right (show count ≤ s.len - first by omega)

/-- A sum is a `len_cstr` where the two strings, one after the other, are. -/
theorem add_eq_ok : s.add other = .ok r ↔ r.cstr = s.cstr ++ other.cstr := by
  have hs : s.len + 1 < 2 ^ 32 := s.fits
  have hother : other.len + 1 < 2 ^ 32 := other.fits
  have hcopy (s : LenCstr) : (if s.cstr.length > s.len then s.len else s.cstr.length) = s.cstr.length := if_neg (Nat.lt_irrefl _)
  by_cases hsum : s.len + other.len + 1 < 2 ^ 32
  · have hfirst : (if s.len ≠ 0 then strncpy (List.replicate (s.len + other.len + 1) 0) 0 s.cstr s.len
        else .ok (List.replicate (s.len + other.len + 1) 0) : Except ByteFault (List Byte)) = .ok (s.cstr ++ List.replicate (other.len + 1) 0) := by
      split_ifs with h
      · exact @strncpy_zeros [] s.cstr s.noNul other.len
      · have hnil : s.cstr = [] := List.eq_nil_of_length_eq_zero (not_not.mp h)
        rw [hnil, not_not.mp h, Nat.zero_add, List.nil_append]
    have hsecond : (if other.len ≠ 0 then strncat (s.cstr ++ List.replicate (other.len + 1) 0) other.cstr other.len
        else .ok (s.cstr ++ List.replicate (other.len + 1) 0) : Except ByteFault (List Byte)) = .ok (s.cstr ++ other.cstr ++ List.replicate 1 0) := by
      split_ifs with h
      · unfold strncat
        rw [strlen_append_zero s.noNul, strlen_eq other.noNul]
        dsimp only
        rw [hcopy other]
        exact strncpy_zeros other.noNul 0
      · have hnil : other.cstr = [] := List.eq_nil_of_length_eq_zero (not_not.mp h)
        rw [hnil, not_not.mp h, List.append_nil]
    have hboth : 0 ∉ s.cstr ++ other.cstr := by
      rw [List.mem_append]
      exact fun h => h.elim s.noNul other.noNul
    have hlen : (s.cstr ++ other.cstr).length = s.len + other.len := List.length_append
    unfold add
    dsimp only
    rw [u32_of_lt hsum, u32_of_lt (by omega), hfirst, ok_bind, hsecond, ok_bind, ofStr_eq_ok, strlen_append_zero hboth, hlen,
      List.take_append_of_le_length hlen.ge, List.take_of_length_le hlen.le]
    exact and_iff_right (Nat.le_refl _)
  · constructor
    · intro h
      unfold add at h
      obtain ⟨buffer, hbuffer, -⟩ := bind_eq_ok.mp h
      -- the buffer is shorter than the first string
      have hlt : u32 (s.len + other.len + 1) < s.len := by
        unfold u32
        omega
      rw [if_pos (by omega)] at hbuffer
      unfold strncpy at hbuffer
      obtain ⟨bytes, hbytes, hbuffer⟩ := bind_eq_ok.mp hbuffer
      obtain ⟨buffer', hstore, -⟩ := bind_eq_ok.mp hbuffer
      rw [strlen_eq s.noNul, hcopy s, load_eq (by omega), slice_self] at hbytes
      cases hbytes
      have hin := (store_eq_ok.mp hstore).1
      rw [List.length_replicate] at hin
      have : s.cstr.length = s.len := rfl
      omega
    · intro h
      have hfits := r.fits
      rw [h, List.length_append] at hfits
      exact absurd hfits hsum

/-- A string that is a beginning of a `len_cstr` is one. -/
theorem exists_add (h : s.cstr ++ other.cstr ++ str = r.cstr) : ∃ sum, s.add other = .ok sum ∧ sum.cstr = s.cstr ++ other.cstr := by
  have hfits := r.fits
  have hno := r.noNul
  rw [← h] at hfits hno
  rw [List.length_append] at hfits
  exact ⟨⟨s.cstr ++ other.cstr, fun hzero => hno (List.mem_append_left _ hzero), by omega⟩, add_eq_ok.mpr rfl, rfl⟩

end LenCstr

end Wawo.Text
