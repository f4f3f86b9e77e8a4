import Mathlib.Logic.Function.Basic
import Wawo.Net.HttpUrl

/-!
# The loop over a URL

`HttpParserUrl.mark` is what becomes of a field that is read to its end. For each state of `parse_url_char` that a URL
may be read from on, what the loop accepts from there, and what it leaves in the `http_parser_url`: the fragment
(`reads_fragmentStart`), the query, the path, the server (`reads_serverStart`) and the whole (`reads_start`).
-/

namespace Wawo.HttpParser

open Lts

/-! ### Where a field is -/

namespace HttpParserUrl

variable {u : HttpParserUrl} {uf uf' : UrlField} {p n : Nat}

/-- A field of `n` characters from `p` on, if there are any -/
def mark (u : HttpParserUrl) (uf : UrlField) (p n : Nat) : HttpParserUrl :=
  if n = 0 then u
  else ⟨Function.update u.fieldSet uf true, u.port, Function.update u.fieldData uf ⟨UInt16.ofNat p, UInt16.ofNat n⟩⟩

theorem mark_zero : u.mark uf p 0 = u := if_pos rfl

theorem mark_fieldSet : (u.mark uf p n).fieldSet uf' = (u.fieldSet uf' || (decide (uf' = uf) && decide (n ≠ 0))) := by
  unfold mark
  by_cases hn : n = 0
  · simp [hn]
  · rw [if_neg hn]
    by_cases hf : uf' = uf
    · subst hf
      simp [hn]
    · simp [hf]

theorem mark_fieldData_self (hn : n ≠ 0) : (u.mark uf p n).fieldData uf = ⟨UInt16.ofNat p, UInt16.ofNat n⟩ := by
  rw [mark, if_neg hn]
  exact Function.update_self ..

theorem mark_fieldData_of_ne (hf : uf' ≠ uf) : (u.mark uf p n).fieldData uf' = u.fieldData uf' := by
  unfold mark
  split_ifs
  · rfl
  · exact Function.update_of_ne hf _ _

/-- The first character -/
theorem mark_one : (((u.setOff uf p).resetLen uf).incLen uf).set uf = u.mark uf p 1 := by
  unfold mark setOff resetLen incLen set
  simp only [Function.update_self, Function.update_idem, Nat.one_ne_zero, if_false]
  rfl

/-- One more character -/
theorem incLen_mark (hn : n ≠ 0) : (u.mark uf p n).incLen uf = u.mark uf p (n + 1) := by
  unfold mark incLen
  rw [if_neg hn, if_neg (Nat.succ_ne_zero n)]
  simp only [Function.update_self, Function.update_idem, UInt16.ofNat_add]
  rfl

end HttpParserUrl

/-! ### What the characters do -/

theorem ne_of_class {C : Byte → Bool} {a b : Byte} (ha : C a = true) (hb : C b = false) : a ≠ b := by
  rintro rfl
  exact Bool.false_ne_true (hb.symm.trans ha)

/-- The characters that no state takes -/
def blanks : List Byte := [chr ' ', 13, 10, 9, 12]

theorem parseUrlChar_blank {c : Byte} (hc : c ∈ blanks) (s : UrlState) : parseUrlChar s c = .dead := by
  simp only [blanks, List.mem_cons, List.not_mem_nil, or_false] at hc
  rcases hc with rfl | rfl | rfl | rfl | rfl <;> rfl

theorem parseUrlChar_eq {s : UrlState} {f : Byte → UrlState} (hf : blanks.map f = List.replicate 5 .dead)
    (h : ∀ c, ¬(c = chr ' ' ∨ c = 13 ∨ c = 10) → ¬(c = 9 ∨ c = 12) → parseUrlChar s c = f c) (c : Byte) : parseUrlChar s c = f c := by
  by_cases hc : c ∈ blanks
  · have hmem := List.mem_map_of_mem (f := f) hc
    rw [hf] at hmem
    rw [parseUrlChar_blank hc, List.eq_of_mem_replicate hmem]
  · simp only [blanks, List.mem_cons, List.not_mem_nil, or_false, not_or] at hc
    exact h c (by tauto) (by tauto)

theorem parseUrlChar_start : ∀ c, parseUrlChar .reqSpacesBeforeUrl c =
    if c = chr '/' ∨ c = chr '*' then .reqPath else if isAlpha c then .reqSchema else .dead :=
  parseUrlChar_eq (by decide) fun c h h' => by rw [parseUrlChar, if_neg h, if_neg h']

theorem parseUrlChar_schema : ∀ c, parseUrlChar .reqSchema c =
    if isAlpha c then .reqSchema else if c = chr ':' then .reqSchemaSlash else .dead :=
  parseUrlChar_eq (by decide) fun c h h' => by rw [parseUrlChar, if_neg h, if_neg h']

theorem parseUrlChar_schemaSlash : ∀ c, parseUrlChar .reqSchemaSlash c = if c = chr '/' then .reqSchemaSlashSlash else .dead :=
  parseUrlChar_eq (by decide) fun c h h' => by rw [parseUrlChar, if_neg h, if_neg h']

theorem parseUrlChar_schemaSlashSlash : ∀ c, parseUrlChar .reqSchemaSlashSlash c = if c = chr '/' then .reqServerStart else .dead :=
  parseUrlChar_eq (by decide) fun c h h' => by rw [parseUrlChar, if_neg h, if_neg h']

/-- A character of a server, where `at` is one -/
def isServerChar (c : Byte) : Bool := c == chr '@' || isUserinfoChar c || c == chr '[' || c == chr ']'

theorem parseUrlChar_path : ∀ c, parseUrlChar .reqPath c =
    if isUrlChar c then .reqPath else if c = chr '?' then .reqQueryStringStart else if c = chr '#' then .reqFragmentStart else .dead :=
  parseUrlChar_eq (by decide) fun c h h' => by rw [parseUrlChar, if_neg h, if_neg h']

def isQueryChar (c : Byte) : Bool := isUrlChar c || c == chr '?'

theorem parseUrlChar_query (c : Byte) (s : UrlState) (hs : s ∈ [UrlState.reqQueryStringStart, .reqQueryString]) : parseUrlChar s c =
    if isQueryChar c then .reqQueryString else if c = chr '#' then .reqFragmentStart else .dead := by
  refine parseUrlChar_eq (f := fun c => if isQueryChar c then .reqQueryString else if c = chr '#' then .reqFragmentStart else .dead)
    (by decide) (fun c h h' => ?_) c
  simp only [List.mem_cons, List.not_mem_nil, or_false] at hs
  unfold isQueryChar
  rcases hs with rfl | rfl <;> rw [parseUrlChar, if_neg h, if_neg h'] <;> by_cases hc : isUrlChar c <;> simp [hc]

def isFragmentChar (c : Byte) : Bool := isUrlChar c || c == chr '?' || c == chr '#'

theorem parseUrlChar_fragmentStart : ∀ c, parseUrlChar .reqFragmentStart c =
    if c = chr '#' then .reqFragmentStart else if isFragmentChar c then .reqFragment else .dead := by
  refine parseUrlChar_eq (by decide) fun c h h' => ?_
  have hash : isUrlChar (chr '#') = false := by decide
  rw [parseUrlChar, if_neg h, if_neg h', isFragmentChar]
  by_cases hc : c = chr '#'
  · subst hc
    rw [hash]
    rfl
  · by_cases hu : isUrlChar c <;> simp [hu, hc]

theorem parseUrlChar_fragment : ∀ c, parseUrlChar .reqFragment c = if isFragmentChar c then .reqFragment else .dead := by
  refine parseUrlChar_eq (by decide) fun c h h' => ?_
  rw [parseUrlChar, if_neg h, if_neg h', isFragmentChar]
  by_cases hu : isUrlChar c <;> simp [hu]

theorem parseServerChar_eq (c : Byte) : parseServerChar c =
    if isServerChar c then (if c = chr '@' then .reqServerWithAt else .reqServer)
    else if c = chr '/' then .reqPath else if c = chr '?' then .reqQueryStringStart else .dead := by
  have hslash : isServerChar (chr '/') = false := by decide
  have hquery : isServerChar (chr '?') = false := by decide
  unfold parseServerChar
  by_cases h : c = chr '/'
  · subst h
    rw [hslash]
    rfl
  by_cases h' : c = chr '?'
  · subst h'
    rw [hquery]
    rfl
  by_cases hat : c = chr '@'
  · subst hat
    rfl
  · simp [isServerChar, h, h', hat, beq_eq_false_iff_ne.2 hat]

theorem parseUrlChar_server (c : Byte) (s : UrlState) (hs : s ∈ [UrlState.reqServerStart, .reqServer, .reqServerWithAt]) :
    parseUrlChar s c =
      if s = .reqServerWithAt ∧ c = chr '@' then .dead
      else if isServerChar c then (if c = chr '@' then .reqServerWithAt else .reqServer)
      else if c = chr '/' then .reqPath else if c = chr '?' then .reqQueryStringStart else .dead := by
  rw [← parseServerChar_eq]
  by_cases hat : s = .reqServerWithAt
  · subst hat
    simp only [true_and]
    exact parseUrlChar_eq (f := fun c => if c = chr '@' then .dead else parseServerChar c) (by decide)
      (fun c h h' => by rw [parseUrlChar, if_neg h, if_neg h']) c
  · rw [if_neg fun h => hat h.1]
    refine parseUrlChar_eq (f := parseServerChar) (by decide) (fun c h h' => ?_) c
    simp only [List.mem_cons, hat, List.not_mem_nil, or_false] at hs
    rcases hs with rfl | rfl <;> rw [parseUrlChar, if_neg h, if_neg h']

/-! ### The loop over the URL -/

section

variable {t : UrlScan} {l : List Byte} {p : Nat} {u u₀ : HttpParserUrl} {fa b : Bool} {old : Option UrlField}

/-- What `http_parser_parse_url` has of the URL when the loop has ended -/
def Reads (l : List Byte) (p : Nat) (t : UrlScan) (u : HttpParserUrl) (b : Bool) : Prop :=
  ∃ t', scan UrlScan.round l p t = some t' ∧ t'.u = u ∧ t'.foundAt = b

theorem reads_nil : Reads [] p t u b ↔ t.u = u ∧ t.foundAt = b :=
  ⟨fun ⟨_, ht, h⟩ => by cases ht; exact h, fun h => ⟨t, rfl, h⟩⟩

theorem reads_cons {a : Byte} : Reads (a :: l) p t u b ↔ ∃ t', t.enter p (parseUrlChar t.s a) = some t' ∧ Reads l (p + 1) t' u b := by
  unfold Reads
  simp only [scan_cons_eq_some]
  exact ⟨fun ⟨t', ⟨v, hv, ht⟩, h⟩ => ⟨v, hv, t', ht, h⟩, fun ⟨v, hv, t', ht, h⟩ => ⟨t', ⟨v, hv, ht⟩, h⟩⟩

/-- Behind the word `w` of the field `uf`, which begins at `p` -/
def UrlScan.after (t : UrlScan) (s : UrlState) (uf : UrlField) (p : Nat) (w : List Byte) : UrlScan :=
  if w = [] then t else { t with s := s, oldUf := some uf, u := t.u.mark uf p w.length }

theorem UrlScan.after_nil {s : UrlState} {uf : UrlField} : t.after s uf p [] = t := if_pos rfl

theorem UrlScan.after_s {s : UrlState} {uf : UrlField} {w : List Byte} (hw : w ≠ []) : (t.after s uf p w).s = s := by
  rw [after, if_neg hw]

theorem UrlScan.after_u {s : UrlState} {uf : UrlField} (w : List Byte) : (t.after s uf p w).u = t.u.mark uf p w.length := by
  unfold after
  split_ifs with hw
  · subst hw
    exact HttpParserUrl.mark_zero.symm
  · rfl

theorem UrlScan.after_foundAt {s : UrlState} {uf : UrlField} (w : List Byte) : (t.after s uf p w).foundAt = t.foundAt := by
  unfold after
  split_ifs <;> rfl

theorem UrlScan.put_of {t' : UrlScan} {s s' : UrlState} {uf : UrlField} (hold : t'.oldUf = t.oldUf) (hu : t'.u = t.u) :
    t'.put s' uf p = { t.put s uf p with s := s', foundAt := t'.foundAt } := by
  unfold put
  rw [hold, hu]
  split_ifs <;> rfl

theorem UrlScan.put_after {s : UrlState} {uf : UrlField} (h : t.oldUf ≠ some uf) (w : List Byte) (a : Byte) :
    (t.after s uf p w).put s uf (p + w.length) = t.after s uf p (w ++ [a]) := by
  unfold after
  rw [if_neg (show w ++ [a] ≠ [] by simp)]
  by_cases hw : w = []
  · subst hw
    rw [if_pos rfl, put, if_neg h, HttpParserUrl.mark_one]
    rfl
  · have hn : w.length ≠ 0 := fun hz => hw (List.eq_nil_of_length_eq_zero hz)
    rw [if_neg hw, put, if_pos rfl, HttpParserUrl.incLen_mark hn]
    simp

theorem reads_loop {C : List Byte → Byte → Bool} {g : List Byte → UrlScan} (h : Loops UrlScan.round C p g) : Reads l p (g []) u b ↔
    ∃ w rest, l = w ++ rest ∧ Follows C w ∧ (∀ a ∈ rest.head?, C w a = false) ∧ Reads rest (p + w.length) (g w) u b := by
  unfold Reads
  simp only [h.scan_eq_some rfl]
  exact ⟨fun ⟨t, ⟨w, rest, hl, hw, hrest, ht⟩, h⟩ => ⟨w, rest, hl, hw, hrest, t, ht, h⟩,
    fun ⟨w, rest, hl, hw, hrest, t, ht, h⟩ => ⟨t, ⟨w, rest, hl, hw, hrest, ht⟩, h⟩⟩

theorem reads_class {C : Byte → Bool} {g : List Byte → UrlScan} (h : Loops UrlScan.round (fun _ => C) p g) : Reads l p (g []) u b ↔
    ∃ w rest, l = w ++ rest ∧ (∀ c ∈ w, C c = true) ∧ (∀ a ∈ rest.head?, C a = false) ∧ Reads rest (p + w.length) (g w) u b := by
  simp only [reads_loop h, follows_iff]

theorem reads_last {C : Byte → Bool} {g : List Byte → UrlScan} (h : Loops UrlScan.round (fun _ => C) p g)
    (hend : ∀ w a, C a = false → UrlScan.round (p + w.length) a (g w) = none) :
    Reads l p (g []) u b ↔ (∀ c ∈ l, C c = true) ∧ (g l).u = u ∧ (g l).foundAt = b := by
  unfold Reads
  simp only [h.scan_last rfl hend, follows_iff]
  exact ⟨fun ⟨t, ⟨hl, ht⟩, h⟩ => ⟨hl, ht ▸ h⟩, fun ⟨hl, h⟩ => ⟨_, ⟨hl, rfl⟩, h⟩⟩

/-- What `s_req_fragment_start` makes of the characters behind the first `#`: it skips more of them. -/
def HttpParserUrl.markFragment (u : HttpParserUrl) (p : Nat) (l : List Byte) : HttpParserUrl :=
  u.mark .fragment (p + (l.takeWhile (· == chr '#')).length) (l.dropWhile (· == chr '#')).length

theorem reads_fragmentStart (hold : old ≠ some .fragment) : Reads l p ⟨.reqFragmentStart, old, fa, u₀⟩ u b ↔
    (∀ c ∈ l, isFragmentChar c = true) ∧ u₀.markFragment p l = u ∧ fa = b := by
  let g : List Byte → UrlScan := fun w =>
    (UrlScan.mk .reqFragmentStart old fa u₀).after .reqFragment .fragment (p + (w.takeWhile (· == chr '#')).length)
      (w.dropWhile (· == chr '#'))
  have hskipped (w : List Byte) (hw : w.dropWhile (· == chr '#') = []) : w.takeWhile (· == chr '#') = w := by
    have := List.takeWhile_append_dropWhile (p := (· == chr '#')) (l := w)
    rwa [hw, List.append_nil] at this
  have hloop : Loops UrlScan.round (fun _ => isFragmentChar) p g := by
    intro w a ha
    have hput := UrlScan.put_after (t := ⟨.reqFragmentStart, old, fa, u₀⟩) (s := .reqFragment) (p := p + (w.takeWhile (· == chr '#')).length)
      hold (w.dropWhile (· == chr '#')) a
    have hlen : (w.takeWhile (· == chr '#')).length + (w.dropWhile (· == chr '#')).length = w.length := by
      rw [← List.length_append, List.takeWhile_append_dropWhile]
    rw [Nat.add_assoc, hlen] at hput
    dsimp only [g]
    rw [List.dropWhile_append, List.takeWhile_append]
    unfold UrlScan.round
    by_cases hw : w.dropWhile (· == chr '#') = []
    · rw [hw, hskipped w hw] at hput ⊢
      rw [UrlScan.after_nil] at hput ⊢
      rw [parseUrlChar_fragmentStart]
      by_cases hash : a = chr '#'
      · subst hash
        rw [if_pos rfl]
        rfl
      · rw [if_neg hash, if_pos ha]
        show some (UrlScan.put _ _ _ _) = _
        rw [hput]
        simp [hash]
    · rw [UrlScan.after_s hw, parseUrlChar_fragment, if_pos ha, if_neg (fun h => hw (List.eq_nil_of_length_eq_zero (by omega)))]
      show some (UrlScan.put _ _ _ _) = _
      rw [hput, if_neg (fun h => hw (List.isEmpty_iff.1 h))]
  have hend : ∀ w a, isFragmentChar a = false → UrlScan.round (p + w.length) a (g w) = none := by
    intro w a ha
    dsimp only [g]
    unfold UrlScan.round
    by_cases hw : w.dropWhile (· == chr '#') = []
    · rw [hw, UrlScan.after_nil, parseUrlChar_fragmentStart, if_neg (fun h => by subst h; cases ha), if_neg (Bool.eq_false_iff.1 ha)]
      rfl
    · rw [UrlScan.after_s hw, parseUrlChar_fragment, if_neg (Bool.eq_false_iff.1 ha)]
      rfl
  have hlast := reads_last (l := l) (u := u) (b := b) hloop hend
  rw [show (g l).u = u₀.markFragment p l from UrlScan.after_u _, show (g l).foundAt = fa from UrlScan.after_foundAt _] at hlast
  exact hlast

/-- The end of a URL -/
structure UrlTail where
  query : Option (List Byte)
  fragment : Option (List Byte)
deriving DecidableEq

def renderFragment : Option (List Byte) → List Byte
  | none => []
  | some l => chr '#' :: l

def renderQuery : Option (List Byte) → List Byte
  | none => []
  | some l => chr '?' :: l

def FragmentOk (fr : Option (List Byte)) : Prop := ∀ l ∈ fr, ∀ c ∈ l, isFragmentChar c = true

def QueryOk (q : Option (List Byte)) : Prop := ∀ l ∈ q, ∀ c ∈ l, isQueryChar c = true

namespace HttpParserUrl

/-- A fragment, the `#` of which stands at `p` -/
def markFragment? (u : HttpParserUrl) (p : Nat) : Option (List Byte) → HttpParserUrl
  | none => u
  | some l => u.markFragment (p + 1) l

/-- A query, the `?` of which stands at `p` -/
def markQuery? (u : HttpParserUrl) (p : Nat) : Option (List Byte) → HttpParserUrl
  | none => u
  | some l => u.mark .query (p + 1) l.length

end HttpParserUrl

namespace UrlTail

def render (tail : UrlTail) : List Byte := renderQuery tail.query ++ renderFragment tail.fragment

def Ok (tail : UrlTail) : Prop := QueryOk tail.query ∧ FragmentOk tail.fragment

def mark (tail : UrlTail) (u : HttpParserUrl) (p : Nat) : HttpParserUrl :=
  (u.markQuery? p tail.query).markFragment? (p + (renderQuery tail.query).length) tail.fragment

end UrlTail

/-- The marks of a query and of what follows it -/
theorem UrlTail.mark_query (w : List Byte) (fr : Option (List Byte)) :
    (u.mark .query (p + 1) w.length).markFragment? (p + 1 + w.length) fr = (UrlTail.mk (some w) fr).mark u p := by
  rw [Nat.add_assoc, Nat.add_comm 1]
  rfl

/-- What may follow where a word ends: nothing, or a fragment -/
theorem reads_fragment {C : Byte → Bool} (rest : List Byte) (hC : ∀ a, C a = false → parseUrlChar t.s a = if a = chr '#' then .reqFragmentStart else .dead)
    (hhash : C (chr '#') = false) (hold : t.oldUf ≠ some .fragment) :
    (∀ a ∈ rest.head?, C a = false) ∧ Reads rest p t u b ↔
      ∃ fr, rest = renderFragment fr ∧ FragmentOk fr ∧ t.u.markFragment? p fr = u ∧ t.foundAt = b := by
  constructor
  · rintro ⟨hrest, hr⟩
    cases rest with
    | nil => exact ⟨none, rfl, nofun, reads_nil.1 hr⟩
    | cons a rest =>
      obtain ⟨t', ht, hr⟩ := reads_cons.1 hr
      rw [hC a (hrest a rfl)] at ht
      split_ifs at ht with ha
      · subst ha
        cases ht
        obtain ⟨hl, hu⟩ := (reads_fragmentStart hold).1 hr
        refine ⟨some rest, rfl, fun l hl' => ?_, hu⟩
        cases hl'
        exact hl
      · cases ht
  · rintro ⟨fr, rfl, hfr, hu, hb⟩
    cases fr with
    | none => exact ⟨nofun, reads_nil.2 ⟨hu, hb⟩⟩
    | some l =>
      refine ⟨fun a ha => by cases ha; exact hhash, reads_cons.2 ⟨{ t with s := .reqFragmentStart }, ?_, ?_⟩⟩
      · rw [hC _ hhash, if_pos rfl]
        rfl
      · exact (reads_fragmentStart hold).2 ⟨hfr l rfl, hu, hb⟩

theorem reads_queryStart (hold : old ≠ some .query) (hold' : old ≠ some .fragment) : Reads l p ⟨.reqQueryStringStart, old, fa, u₀⟩ u b ↔
    ∃ w fr, l = w ++ renderFragment fr ∧ (∀ c ∈ w, isQueryChar c = true) ∧ FragmentOk fr ∧
      (u₀.mark .query p w.length).markFragment? (p + w.length) fr = u ∧ fa = b := by
  let t : UrlScan := ⟨.reqQueryStringStart, old, fa, u₀⟩
  have hstate (w : List Byte) : (t.after .reqQueryString .query p w).s ∈ [UrlState.reqQueryStringStart, .reqQueryString] := by
    unfold UrlScan.after
    split_ifs <;> simp [t]
  have hloop : Loops UrlScan.round (fun _ => isQueryChar) p (t.after .reqQueryString .query p) := by
    intro w a ha
    rw [UrlScan.round, parseUrlChar_query a _ (hstate w), if_pos ha, ← UrlScan.put_after hold]
    rfl
  rw [show Reads l p ⟨.reqQueryStringStart, old, fa, u₀⟩ u b ↔ _ from reads_class hloop]
  have hrest (w rest : List Byte) := reads_fragment rest (p := p + w.length) (u := u) (b := b)
    (t := t.after .reqQueryString .query p w) (C := isQueryChar)
    (fun a ha => by rw [parseUrlChar_query a _ (hstate w), if_neg (Bool.eq_false_iff.1 ha)]) (by decide) (by
      unfold UrlScan.after
      split_ifs
      · exact hold'
      · nofun)
  simp only [UrlScan.after_u, UrlScan.after_foundAt] at hrest
  constructor
  · rintro ⟨w, rest, rfl, hw, hhead, hr⟩
    obtain ⟨fr, rfl, hfr, h⟩ := (hrest w rest).1 ⟨hhead, hr⟩
    exact ⟨w, fr, rfl, hw, hfr, h⟩
  · rintro ⟨w, fr, rfl, hw, hfr, h⟩
    obtain ⟨hhead, hr⟩ := (hrest w _).2 ⟨fr, rfl, hfr, h⟩
    exact ⟨w, _, rfl, hw, hhead, hr⟩

theorem reads_tail {C : Byte → Bool} (rest : List Byte)
    (hC : ∀ a, C a = false → parseUrlChar t.s a =
      if a = chr '?' then .reqQueryStringStart else if a = chr '#' then .reqFragmentStart else .dead)
    (hquest : C (chr '?') = false) (hhash : C (chr '#') = false) (hold : t.oldUf ≠ some .query) (hold' : t.oldUf ≠ some .fragment) :
    (∀ a ∈ rest.head?, C a = false) ∧ Reads rest p t u b ↔ ∃ tail : UrlTail, rest = tail.render ∧ tail.Ok ∧ tail.mark t.u p = u ∧ t.foundAt = b := by
  constructor
  · rintro ⟨hrest, hr⟩
    cases rest with
    | nil => exact ⟨⟨none, none⟩, rfl, ⟨nofun, nofun⟩, reads_nil.1 hr⟩
    | cons a rest =>
      obtain ⟨t', ht, hr⟩ := reads_cons.1 hr
      rw [hC a (hrest a rfl)] at ht
      split_ifs at ht with ha ha'
      · subst ha
        cases ht
        obtain ⟨w, fr, rfl, hw, hfr, hu, hb⟩ := (reads_queryStart hold hold').1 hr
        refine ⟨⟨some w, fr⟩, rfl, ⟨fun l hl => ?_, hfr⟩, (UrlTail.mark_query w fr).symm.trans hu, hb⟩
        cases hl
        exact hw
      · subst ha'
        cases ht
        obtain ⟨hl, hu⟩ := (reads_fragmentStart hold').1 hr
        refine ⟨⟨none, some rest⟩, rfl, ⟨nofun, fun l hl' => ?_⟩, hu⟩
        cases hl'
        exact hl
      · cases ht
  · rintro ⟨⟨q, fr⟩, rfl, ⟨hq, hfr⟩, hu, hb⟩
    cases q with
    | some w =>
      refine ⟨fun a ha => by cases ha; exact hquest, reads_cons.2 ⟨{ t with s := .reqQueryStringStart }, ?_, ?_⟩⟩
      · rw [hC _ hquest, if_pos rfl]
        rfl
      · exact (reads_queryStart hold hold').2 ⟨w, fr, rfl, hq w rfl, hfr, (UrlTail.mark_query w fr).trans hu, hb⟩
    | none =>
      cases fr with
      | none => exact ⟨nofun, reads_nil.2 ⟨hu, hb⟩⟩
      | some l =>
        refine ⟨fun a ha => by cases ha; exact hhash, reads_cons.2 ⟨{ t with s := .reqFragmentStart }, ?_, ?_⟩⟩
        · rw [hC _ hhash, if_neg (by decide), if_pos rfl]
          rfl
        · exact (reads_fragmentStart hold').2 ⟨hfr l rfl, hu, hb⟩

theorem UrlScan.after_oldUf {s : UrlState} {uf uf' : UrlField} {w : List Byte} (h : t.oldUf ≠ some uf') (hne : uf ≠ uf') :
    (t.after s uf p w).oldUf ≠ some uf' := by
  unfold after
  split_ifs
  · exact h
  · exact fun heq => hne (Option.some.inj heq)

/-- A path, the first character of which stands at `p` -/
theorem reads_path {a : Byte} (hold : t.oldUf ≠ some .path) (hold' : t.oldUf ≠ some .query) (hold'' : t.oldUf ≠ some .fragment) :
    Reads l (p + 1) (t.put .reqPath .path p) u b ↔ ∃ (w : List Byte) (tail : UrlTail), l = w ++ tail.render ∧ (∀ c ∈ w, isUrlChar c = true) ∧ tail.Ok ∧
      tail.mark (t.u.mark .path p (a :: w).length) (p + (a :: w).length) = u ∧ t.foundAt = b := by
  have hloop : Loops UrlScan.round (fun _ => isUrlChar) (p + 1) fun w => t.after .reqPath .path p (a :: w) := by
    intro w c hc
    have hput := UrlScan.put_after (s := .reqPath) (p := p) hold (a :: w) c
    rw [List.length_cons, ← Nat.add_assoc, Nat.add_right_comm] at hput
    rw [UrlScan.round, UrlScan.after_s (List.cons_ne_nil a w), parseUrlChar_path, if_pos hc]
    exact congrArg some hput
  have hfirst : t.put .reqPath .path p = t.after .reqPath .path p [a] := UrlScan.put_after hold [] a
  rw [hfirst, show Reads l (p + 1) (t.after .reqPath .path p [a]) u b ↔ _ from reads_class hloop]
  have hrest (w rest : List Byte) := reads_tail rest (p := p + (a :: w).length) (u := u) (b := b)
    (t := t.after .reqPath .path p (a :: w)) (C := isUrlChar)
    (fun c hc => by rw [UrlScan.after_s (List.cons_ne_nil a w), parseUrlChar_path, if_neg (Bool.eq_false_iff.1 hc)])
    (by decide) (by decide) (UrlScan.after_oldUf hold' nofun) (UrlScan.after_oldUf hold'' nofun)
  simp only [UrlScan.after_u, UrlScan.after_foundAt] at hrest
  have hplace (w : List Byte) : p + 1 + w.length = p + (a :: w).length := by
    rw [List.length_cons]
    omega
  simp only [hplace]
  constructor
  · rintro ⟨w, rest, rfl, hw, hhead, hr⟩
    obtain ⟨tail, rfl, htail, h⟩ := (hrest w rest).1 ⟨hhead, hr⟩
    exact ⟨w, tail, rfl, hw, htail, h⟩
  · rintro ⟨w, tail, rfl, hw, htail, h⟩
    obtain ⟨hhead, hr⟩ := (hrest w _).2 ⟨tail, rfl, htail, h⟩
    exact ⟨w, _, rfl, hw, hhead, hr⟩

/-- What may follow the server: a path begins with a slash, and only what follows a path or a query is a fragment. -/
structure AfterServer (path : List Byte) (tail : UrlTail) : Prop where
  slash : ∀ a ∈ path.head?, a = chr '/'
  chars : ∀ c ∈ path, isUrlChar c = true
  ok : tail.Ok
  fragment : path = [] → tail.query = none → tail.fragment = none

theorem reads_afterServer (rest : List Byte) (hs : t.s ∈ [UrlState.reqServerStart, .reqServer, .reqServerWithAt])
    (hold : t.oldUf ≠ some .path) (hold' : t.oldUf ≠ some .query) (hold'' : t.oldUf ≠ some .fragment) :
    (∀ a ∈ rest.head?, isServerChar a = true → t.s = .reqServerWithAt ∧ a = chr '@') ∧ Reads rest p t u b ↔
      ∃ path tail, rest = path ++ tail.render ∧ AfterServer path tail ∧ tail.mark (t.u.mark .path p path.length) (p + path.length) = u ∧
        t.foundAt = b := by
  constructor
  · rintro ⟨hrest, hr⟩
    cases rest with
    | nil => exact ⟨[], ⟨none, none⟩, rfl, ⟨nofun, nofun, ⟨nofun, nofun⟩, fun _ _ => rfl⟩, reads_nil.1 hr⟩
    | cons a rest =>
      obtain ⟨t', ht, hr⟩ := reads_cons.1 hr
      rw [parseUrlChar_server a _ hs] at ht
      have ha := hrest a rfl
      split_ifs at ht with hat hsrv hslash hslash hquest
      · cases ht
      · exact absurd (ha hsrv) hat
      · exact absurd (ha hsrv) hat
      · subst hslash
        cases ht
        obtain ⟨w, tail, rfl, hw, htail, h⟩ := (reads_path (a := chr '/') hold hold' hold'').1 hr
        refine ⟨chr '/' :: w, tail, rfl, ⟨fun c hc => by cases hc; rfl, fun c hc => ?_, htail, nofun⟩, h⟩
        rcases List.mem_cons.1 hc with rfl | hc
        · decide
        · exact hw c hc
      · subst hquest
        cases ht
        obtain ⟨w, fr, rfl, hw, hfr, hu, hb⟩ := (reads_queryStart hold' hold'').1 hr
        refine ⟨[], ⟨some w, fr⟩, rfl, ⟨nofun, nofun, ⟨fun l hl => ?_, hfr⟩, nofun⟩, (UrlTail.mark_query w fr).symm.trans hu, hb⟩
        cases hl
        exact hw
      · cases ht
  · rintro ⟨path, tail, rfl, hafter, hu, hb⟩
    cases path with
    | cons a w =>
      have ha : a = chr '/' := hafter.slash a rfl
      subst ha
      refine ⟨fun a ha hsrv => ?_, reads_cons.2 ⟨_, ?_, (reads_path (a := chr '/') hold hold' hold'').2
        ⟨w, tail, rfl, fun c hc => hafter.chars c (List.mem_cons_of_mem _ hc), hafter.ok, hu, hb⟩⟩⟩
      · cases ha
        exact absurd hsrv (by decide)
      · rw [parseUrlChar_server _ _ hs, if_neg (fun h => absurd h.2 (by decide)), if_neg (by decide), if_pos rfl]
        rfl
    | nil =>
      obtain ⟨q, fr⟩ := tail
      cases q with
      | some w =>
        refine ⟨fun a ha hsrv => ?_, reads_cons.2 ⟨{ t with s := .reqQueryStringStart }, ?_, (reads_queryStart hold' hold'').2
          ⟨w, fr, rfl, hafter.ok.1 w rfl, hafter.ok.2, (UrlTail.mark_query w fr).trans hu, hb⟩⟩⟩
        · cases ha
          exact absurd hsrv (by decide)
        · rw [parseUrlChar_server _ _ hs, if_neg (fun h => absurd h.2 (by decide)), if_neg (by decide),
            if_neg (by decide), if_pos rfl]
          rfl
      | none =>
        have hfr : fr = none := hafter.fragment rfl rfl
        subst hfr
        exact ⟨nofun, reads_nil.2 ⟨hu, hb⟩⟩

/-- No two `@` in a row -/
def serverFollows (w : List Byte) (a : Byte) : Bool := isServerChar a && !(a == chr '@' && w.getLast? == some (chr '@'))

theorem reads_serverStart (hhost : old ≠ some .host) (hold : old ≠ some .path) (hold' : old ≠ some .query) (hold'' : old ≠ some .fragment) :
    Reads l p ⟨.reqServerStart, old, fa, u₀⟩ u b ↔ ∃ server path tail, l = server ++ (path ++ tail.render) ∧ Follows serverFollows server ∧
      AfterServer path tail ∧
      tail.mark ((u₀.mark .host p server.length).mark .path (p + server.length) path.length) (p + server.length + path.length) = u ∧
      (fa || decide (chr '@' ∈ server)) = b := by
  let t : UrlScan := ⟨.reqServerStart, old, fa, u₀⟩
  let s : List Byte → UrlState := fun w =>
    if w = [] then .reqServerStart else if w.getLast? = some (chr '@') then .reqServerWithAt else .reqServer
  let g : List Byte → UrlScan := fun w =>
    { t.after .reqServer .host p w with s := s w, foundAt := fa || decide (chr '@' ∈ w) }
  have hs (w : List Byte) : (g w).s ∈ [UrlState.reqServerStart, .reqServer, .reqServerWithAt] := by
    dsimp only [g, s]
    split_ifs <;> simp
  have hat (w : List Byte) : (g w).s = .reqServerWithAt ↔ w.getLast? = some (chr '@') := by
    dsimp only [g, s]
    split_ifs with hw hlast
    · simp [hw]
    · simp [hlast]
    · simp [hlast]
  have hloop : Loops UrlScan.round serverFollows p g := by
    intro w a ha
    obtain ⟨hsrv, hne⟩ := Bool.and_eq_true_iff.1 ha
    have hput := UrlScan.put_after (t := t) (s := .reqServer) (p := p) hhost w a
    have hdead : ¬ ((g w).s = .reqServerWithAt ∧ a = chr '@') := by
      rintro ⟨hs, rfl⟩
      simp [(hat w).1 hs] at hne
    have hg : g (w ++ [a]) = { t.after .reqServer .host p (w ++ [a]) with
        s := if a = chr '@' then .reqServerWithAt else .reqServer, foundAt := fa || decide (chr '@' ∈ w ++ [a]) } := by
      dsimp only [g, s]
      simp
    rw [UrlScan.round, parseUrlChar_server a _ (hs w), if_neg hdead, if_pos hsrv, hg, ← hput]
    split_ifs with ha
    · subst ha
      refine congrArg some ((UrlScan.put_of (t := t.after .reqServer .host p w) (s := .reqServer) (by rfl) (by rfl)).trans ?_)
      simp
    · refine congrArg some ((UrlScan.put_of (t := t.after .reqServer .host p w) (s := .reqServer) (by rfl) (by rfl)).trans ?_)
      simp [g, Ne.symm ha]
  have hafter (w : List Byte) {uf : UrlField} (h : old ≠ some uf) (hne : .host ≠ uf) : (g w).oldUf ≠ some uf :=
    UrlScan.after_oldUf (t := t) h hne
  have hrest (w rest : List Byte) := reads_afterServer rest (p := p + w.length) (u := u) (b := b) (hs w)
    (hafter w hold nofun) (hafter w hold' nofun) (hafter w hold'' nofun)
  have hu (w : List Byte) : (g w).u = u₀.mark .host p w.length := UrlScan.after_u (t := t) w
  simp only [hu, hat] at hrest
  have hhead (w rest : List Byte) : (∀ a ∈ rest.head?, serverFollows w a = false) ↔
      ∀ a ∈ rest.head?, isServerChar a = true → w.getLast? = some (chr '@') ∧ a = chr '@' := by
    refine forall₂_congr fun a _ => ?_
    unfold serverFollows
    cases isServerChar a <;> simp [and_comm]
  have hnil : g [] = ⟨.reqServerStart, old, fa, u₀⟩ := by simp [g, s, t, UrlScan.after_nil]
  rw [← hnil, reads_loop hloop]
  constructor
  · rintro ⟨w, rest, rfl, hw, hnext, hr⟩
    obtain ⟨path, tail, rfl, h⟩ := (hrest w rest).1 ⟨(hhead w rest).1 hnext, hr⟩
    exact ⟨w, path, tail, rfl, hw, h⟩
  · rintro ⟨w, path, tail, rfl, hw, h⟩
    obtain ⟨hnext, hr⟩ := (hrest w _).2 ⟨path, tail, rfl, h⟩
    exact ⟨w, _, rfl, hw, (hhead w _).2 hnext, hr⟩

/-- A state that only the character `a` leads out of -/
theorem reads_only {s : UrlState} {a : Byte} (h : ∀ c ∈ l.head?, parseUrlChar t.s c = if c = a then s else .dead)
    (henter : t.enter p s = some { t with s := s }) :
    Reads l p t u b ↔ (l = [] ∧ t.u = u ∧ t.foundAt = b) ∨ ∃ rest, l = a :: rest ∧ Reads rest (p + 1) { t with s := s } u b := by
  cases l with
  | nil => simp [reads_nil]
  | cons c l =>
    rw [reads_cons, h c rfl]
    by_cases hc : c = a
    · subst hc
      rw [if_pos rfl, henter]
      simp
    · rw [if_neg hc]
      simp [UrlScan.enter, hc]

/-- What may follow a schema -/
theorem reads_afterSchema (hl : ∀ c ∈ l.head?, isAlpha c = false) : Reads l p ⟨.reqSchema, old, fa, u₀⟩ u b ↔
    l ∈ [[], [chr ':'], [chr ':', chr '/']] ∧ u₀ = u ∧ fa = b ∨
      ∃ rest, l = chr ':' :: chr '/' :: chr '/' :: rest ∧ Reads rest (p + 3) ⟨.reqServerStart, old, fa, u₀⟩ u b := by
  have hcolon := reads_only (l := l) (p := p) (t := ⟨.reqSchema, old, fa, u₀⟩) (s := .reqSchemaSlash) (a := chr ':') (u := u) (b := b)
    (fun c hc => by rw [parseUrlChar_schema, if_neg (Bool.eq_false_iff.1 (hl c hc))]) rfl
  have hslash (l : List Byte) := reads_only (l := l) (p := p + 1) (t := ⟨.reqSchemaSlash, old, fa, u₀⟩) (s := .reqSchemaSlashSlash) (a := chr '/')
    (u := u) (b := b) (fun c _ => parseUrlChar_schemaSlash c) rfl
  have hslash' (l : List Byte) := reads_only (l := l) (p := p + 1 + 1) (t := ⟨.reqSchemaSlashSlash, old, fa, u₀⟩) (s := .reqServerStart) (a := chr '/')
    (u := u) (b := b) (fun c _ => parseUrlChar_schemaSlashSlash c) rfl
  simp only [hcolon, hslash, hslash', List.mem_cons, List.not_mem_nil, or_false]
  constructor
  · rintro (⟨rfl, h⟩ | ⟨_, rfl, ⟨rfl, h⟩ | ⟨_, rfl, ⟨rfl, h⟩ | ⟨rest, rfl, h⟩⟩⟩)
    · exact .inl ⟨.inl rfl, h⟩
    · exact .inl ⟨.inr (.inl rfl), h⟩
    · exact .inl ⟨.inr (.inr rfl), h⟩
    · exact .inr ⟨rest, rfl, h⟩
  · rintro (⟨rfl | rfl | rfl, h⟩ | ⟨rest, rfl, h⟩)
    · exact .inl ⟨rfl, h⟩
    · exact .inr ⟨_, rfl, .inl ⟨rfl, h⟩⟩
    · exact .inr ⟨_, rfl, .inr ⟨_, rfl, .inl ⟨rfl, h⟩⟩⟩
    · exact .inr ⟨_, rfl, .inr ⟨_, rfl, .inr ⟨rest, rfl, h⟩⟩⟩

/-- What the loop reads of a URL that is not the target of `CONNECT`: nothing, a path, or a schema, which a server
follows or which ends too early. -/
theorem reads_start : Reads l 0 ⟨.reqSpacesBeforeUrl, none, false, u₀⟩ u b ↔
    (l = [] ∧ u₀ = u ∧ false = b) ∨
    (∃ a w tail, l = a :: w ++ UrlTail.render tail ∧ (a = chr '/' ∨ a = chr '*') ∧ (∀ c ∈ w, isUrlChar c = true) ∧ tail.Ok ∧
      tail.mark (u₀.mark .path 0 (a :: w).length) (0 + (a :: w).length) = u ∧ false = b) ∨
    ∃ schema rest, l = schema ++ rest ∧ schema ≠ [] ∧ (∀ c ∈ schema, isAlpha c = true) ∧
      (rest ∈ [[], [chr ':'], [chr ':', chr '/']] ∧ u₀.mark .schema 0 schema.length = u ∧ false = b ∨
        ∃ rest', rest = chr ':' :: chr '/' :: chr '/' :: rest' ∧
          Reads rest' (schema.length + 3) ⟨.reqServerStart, some .schema, false, u₀.mark .schema 0 schema.length⟩ u b) := by
  let t : UrlScan := ⟨.reqSpacesBeforeUrl, none, false, u₀⟩
  have hnone : ∀ uf, t.oldUf ≠ some uf := fun uf h => by cases h
  have hslash : ∀ c, isAlpha c = true → ¬(c = chr '/' ∨ c = chr '*') := by
    rintro c hc (rfl | rfl) <;> exact absurd hc (by decide)
  have hloop : Loops UrlScan.round (fun _ => isAlpha) 0 (t.after .reqSchema .schema 0) := by
    intro w a ha
    have hput := UrlScan.put_after (t := t) (s := .reqSchema) (p := 0) (hnone .schema) w a
    unfold UrlScan.round
    by_cases hw : w = []
    · subst hw
      rw [UrlScan.after_nil] at hput ⊢
      rw [parseUrlChar_start, if_neg (hslash a ha), if_pos ha]
      exact congrArg some hput
    · rw [UrlScan.after_s hw, parseUrlChar_schema, if_pos ha]
      exact congrArg some hput
  have hnil : t.after .reqSchema .schema 0 [] = ⟨.reqSpacesBeforeUrl, none, false, u₀⟩ := UrlScan.after_nil
  have hafter (w : List Byte) (hw : w ≠ []) : t.after .reqSchema .schema 0 w = ⟨.reqSchema, some .schema, false, u₀.mark .schema 0 w.length⟩ :=
    if_neg hw
  rw [← hnil, reads_class hloop]
  constructor
  · rintro ⟨w, rest, rfl, hw, hnext, hr⟩
    rw [Nat.zero_add] at hr
    by_cases hnil : w = []
    · subst hnil
      rw [UrlScan.after_nil] at hr
      cases rest with
      | nil => exact .inl ⟨rfl, reads_nil.1 hr⟩
      | cons a rest =>
        obtain ⟨t', ht, hr⟩ := reads_cons.1 hr
        rw [parseUrlChar_start, if_neg (Bool.eq_false_iff.1 (hnext a rfl))] at ht
        split_ifs at ht with ha
        · cases ht
          obtain ⟨w, tail, rfl, hw, h⟩ := (reads_path (a := a) (hnone _) (hnone _) (hnone _)).1 hr
          exact .inr (.inl ⟨a, w, tail, rfl, ha, hw, h⟩)
        · cases ht
    · rw [hafter w hnil] at hr
      exact .inr (.inr ⟨w, rest, rfl, hnil, hw, (reads_afterSchema hnext).1 hr⟩)
  · rintro (⟨rfl, h⟩ | ⟨a, w, tail, rfl, ha, hw, h⟩ | ⟨schema, rest, rfl, hne, halpha, h⟩)
    · refine ⟨[], [], rfl, nofun, nofun, ?_⟩
      rw [UrlScan.after_nil]
      exact reads_nil.2 h
    · refine ⟨[], _, rfl, nofun, fun c hc => ?_, ?_⟩
      · cases hc
        exact Bool.eq_false_iff.2 fun hc => hslash a hc ha
      · rw [UrlScan.after_nil]
        refine reads_cons.2 ⟨t.put .reqPath .path 0, ?_, (reads_path (a := a) (hnone _) (hnone _) (hnone _)).2 ⟨w, tail, rfl, hw, h⟩⟩
        rw [parseUrlChar_start, if_pos ha]
        rfl
    · have hcolon : isAlpha (chr ':') = false := by decide
      have hhead : ∀ c ∈ rest.head?, isAlpha c = false := by
        intro c hc
        rcases h with ⟨hrest, -⟩ | ⟨rest', rfl, -⟩
        · simp only [List.mem_cons, List.not_mem_nil, or_false] at hrest
          rcases hrest with rfl | rfl | rfl <;> cases hc <;> exact hcolon
        · cases hc
          exact hcolon
      refine ⟨schema, rest, rfl, halpha, hhead, ?_⟩
      rw [hafter schema hne, Nat.zero_add]
      exact (reads_afterSchema hhead).2 h

end

end Wawo.HttpParser
