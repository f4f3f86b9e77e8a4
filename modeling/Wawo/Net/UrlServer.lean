import Wawo.Net.UrlScan

/-!
# The loop over the server of a URL

What `http_parse_host` accepts is a `Server`: perhaps a user, a host, which is a name or an address of IPv6 in
brackets, and perhaps a port (`hostReads_server`).
-/

namespace Wawo.HttpParser

open Lts

/-! ### The loop over the server -/

/-- A host name, or an address of IPv6 in brackets, perhaps with a zone -/
inductive HostName
  | name (l : List Byte)
  | v6 (l : List Byte) (zone : Option (List Byte))
deriving DecidableEq

namespace HostName

/-- The field -/
def text : HostName → List Byte
  | name l => l
  | v6 l none => l
  | v6 l (some zone) => l ++ chr '%' :: zone

def render : HostName → List Byte
  | name l => l
  | v6 l zone => chr '[' :: (text (v6 l zone) ++ [chr ']'])

/-- The characters in front of the field -/
def lead : HostName → Nat
  | name _ => 0
  | v6 _ _ => 1

def Ok : HostName → Prop
  | name l => l ≠ [] ∧ ∀ c ∈ l, isHostChar c = true
  | v6 l zone => l ≠ [] ∧ (∀ c ∈ l, isV6Char c = true) ∧ ∀ z ∈ zone, z ≠ [] ∧ ∀ c ∈ z, isZoneChar c = true

end HostName

def renderPort : Option (List Byte) → List Byte
  | none => []
  | some l => chr ':' :: l

def PortOk (port : Option (List Byte)) : Prop := ∀ l ∈ port, l ≠ [] ∧ ∀ c ∈ l, isNum c = true

/-- A port, the colon of which stands at `p` -/
def HttpParserUrl.markPort? (u : HttpParserUrl) (p : Nat) : Option (List Byte) → HttpParserUrl
  | none => u
  | some l => u.mark .port (p + 1) l.length

section

variable {l : List Byte} {p n : Nat} {t : HostScan} {u u' : HttpParserUrl}

/-- What `http_parse_host` makes of the server -/
def HostReads (l : List Byte) (p : Nat) (t : HostScan) (u' : HttpParserUrl) : Prop :=
  ∃ t', scan HostScan.round l p t = some t' ∧ HostScan.ends t'.s = true ∧ t'.u = u'

theorem hostReads_nil : HostReads [] p t u' ↔ HostScan.ends t.s = true ∧ t.u = u' :=
  ⟨fun ⟨_, ht, h⟩ => by cases ht; exact h, fun h => ⟨t, rfl, h⟩⟩

theorem hostReads_cons {a : Byte} : HostReads (a :: l) p t u' ↔ ∃ t', t.enter p (httpParseHostChar t.s a) = some t' ∧ HostReads l (p + 1) t' u' := by
  unfold HostReads
  simp only [scan_cons_eq_some]
  exact ⟨fun ⟨t', ⟨v, hv, ht⟩, h⟩ => ⟨v, hv, t', ht, h⟩, fun ⟨v, hv, t', ht, h⟩ => ⟨t', ⟨v, hv, ht⟩, h⟩⟩

/-- A server neither ends here nor goes on. -/
theorem not_hostReads (hends : HostScan.ends t.s = false) (hdead : ∀ a ∈ l.head?, httpParseHostChar t.s a = .dead) : ¬HostReads l p t u' := by
  intro hr
  cases l with
  | nil =>
    rw [(hostReads_nil.1 hr).1] at hends
    cases hends
  | cons a l =>
    obtain ⟨t', ht, -⟩ := hostReads_cons.1 hr
    rw [hdead a rfl] at ht
    cases ht

/-- Behind the word `w`, which has led from the state `s₀` to the state `s` and has made `v w` of `u` -/
def HostScan.behind (s₀ s : HttpHostState) (u : HttpParserUrl) (v : List Byte → HttpParserUrl) (w : List Byte) : HostScan :=
  if w = [] then ⟨s₀, u⟩ else ⟨s, v w⟩

theorem HostScan.behind_nil {s₀ s : HttpHostState} {v : List Byte → HttpParserUrl} : HostScan.behind s₀ s u v [] = ⟨s₀, u⟩ := if_pos rfl

theorem HostScan.behind_of_ne {s₀ s : HttpHostState} {v : List Byte → HttpParserUrl} {w : List Byte} (hw : w ≠ []) :
    HostScan.behind s₀ s u v w = ⟨s, v w⟩ := if_neg hw

/-- What is read from a loop on -/
theorem hostReads_class {C : Byte → Bool} {s₀ s : HttpHostState} {v : List Byte → HttpParserUrl}
    (hfirst : ∀ a, C a = true → HostScan.round p a ⟨s₀, u⟩ = some ⟨s, v [a]⟩)
    (hnext : ∀ w a, w ≠ [] → C a = true → HostScan.round (p + w.length) a ⟨s, v w⟩ = some ⟨s, v (w ++ [a])⟩) :
    HostReads l p ⟨s₀, u⟩ u' ↔ ∃ w rest, l = w ++ rest ∧ (∀ c ∈ w, C c = true) ∧ (∀ a ∈ rest.head?, C a = false) ∧
      HostReads rest (p + w.length) (HostScan.behind s₀ s u v w) u' := by
  have hloop : Loops HostScan.round (fun _ => C) p (HostScan.behind s₀ s u v) := by
    intro w a ha
    rw [HostScan.behind_of_ne (show w ++ [a] ≠ [] by simp)]
    by_cases hw : w = []
    · subst hw
      rw [HostScan.behind_nil]
      exact hfirst a ha
    · rw [HostScan.behind_of_ne hw]
      exact hnext w a hw ha
  unfold HostReads
  simp only [hloop.scan_eq_some HostScan.behind_nil, follows_iff]
  exact ⟨fun ⟨t, ⟨w, rest, hl, hw, hrest, ht⟩, h⟩ => ⟨w, rest, hl, hw, hrest, t, ht, h⟩,
    fun ⟨w, rest, hl, hw, hrest, t, ht, h⟩ => ⟨t, ⟨w, rest, hl, hw, hrest, ht⟩, h⟩⟩

theorem HttpParserUrl.mark_one' {uf : UrlField} : (((u.setOff uf p).resetLen uf).set uf).incLen uf = u.mark uf p 1 := by
  rw [← mark_one]
  rfl

theorem incLen_word {uf : UrlField} {w : List Byte} (hw : w ≠ []) (a : Byte) :
    (u.mark uf p w.length).incLen uf = u.mark uf p (w ++ [a]).length := by
  rw [HttpParserUrl.incLen_mark fun hz => hw (List.eq_nil_of_length_eq_zero hz), List.length_append]
  rfl

theorem hostReads_portStart : HostReads l p ⟨.hostPortStart, u⟩ u' ↔ l ≠ [] ∧ (∀ c ∈ l, isNum c = true) ∧ u.mark .port p l.length = u' := by
  rw [hostReads_class (C := isNum) (s := .hostPort) (v := fun w => u.mark .port p w.length)]
  · constructor
    · rintro ⟨w, rest, rfl, hw, hnext, hr⟩
      by_cases hnil : w = []
      · subst hnil
        rw [HostScan.behind_nil] at hr
        exact absurd hr (not_hostReads rfl fun a ha => if_neg (Bool.eq_false_iff.1 (hnext a ha)))
      · rw [HostScan.behind_of_ne hnil] at hr
        cases rest with
        | nil =>
          rw [List.append_nil]
          exact ⟨hnil, hw, (hostReads_nil.1 hr).2⟩
        | cons a rest =>
          obtain ⟨t', ht, -⟩ := hostReads_cons.1 hr
          rw [show httpParseHostChar .hostPort a = .dead from if_neg (Bool.eq_false_iff.1 (hnext a rfl))] at ht
          cases ht
    · rintro ⟨hnil, hl, hu⟩
      refine ⟨l, [], (List.append_nil l).symm, hl, nofun, hostReads_nil.2 ?_⟩
      rw [HostScan.behind_of_ne hnil]
      exact ⟨rfl, hu⟩
  · intro a ha
    rw [HostScan.round, show httpParseHostChar .hostPortStart a = .hostPort from if_pos ha]
    exact congrArg (fun u => some (HostScan.mk .hostPort u)) HttpParserUrl.mark_one'
  · intro w a hw ha
    rw [HostScan.round, show httpParseHostChar .hostPort a = .hostPort from if_pos ha]
    exact congrArg (fun u => some (HostScan.mk .hostPort u)) (incLen_word hw a)

/-- What may follow the host: nothing, or a port -/
theorem hostReads_port {C : Byte → Bool} {rest : List Byte}
    (hC : ∀ a, C a = false → httpParseHostChar t.s a = if a = chr ':' then .hostPortStart else .dead) (hcolon : C (chr ':') = false)
    (hends : HostScan.ends t.s = true) :
    (∀ a ∈ rest.head?, C a = false) ∧ HostReads rest p t u' ↔ ∃ port, rest = renderPort port ∧ PortOk port ∧ t.u.markPort? p port = u' := by
  constructor
  · rintro ⟨hrest, hr⟩
    cases rest with
    | nil => exact ⟨none, rfl, nofun, (hostReads_nil.1 hr).2⟩
    | cons a rest =>
      obtain ⟨t', ht, hr⟩ := hostReads_cons.1 hr
      rw [hC a (hrest a rfl)] at ht
      split_ifs at ht with ha
      · subst ha
        cases ht
        obtain ⟨hnil, hl, hu⟩ := hostReads_portStart.1 hr
        refine ⟨some rest, rfl, fun l hl' => ?_, hu⟩
        cases hl'
        exact ⟨hnil, hl⟩
      · cases ht
  · rintro ⟨port, rfl, hport, hu⟩
    cases port with
    | none => exact ⟨nofun, hostReads_nil.2 ⟨hends, hu⟩⟩
    | some l =>
      obtain ⟨hnil, hl⟩ := hport l rfl
      refine ⟨fun a ha => by cases ha; exact hcolon, hostReads_cons.2 ⟨⟨.hostPortStart, t.u⟩, ?_, hostReads_portStart.2 ⟨hnil, hl, hu⟩⟩⟩
      rw [hC _ hcolon, if_pos rfl]
      rfl

/-- Where the field of the host may begin -/
structure HostUnset (u : HttpParserUrl) : Prop where
  set : u.fieldSet .host = true
  len : (u.fieldData .host).len = 0

/-- The first character of the host -/
theorem HostUnset.first (h : HostUnset u) : (u.setOff .host p).incLen .host = u.mark .host p 1 := by
  have hset : Function.update u.fieldSet .host true = u.fieldSet := by
    rw [← h.set, Function.update_eq_self]
  unfold HttpParserUrl.mark HttpParserUrl.setOff HttpParserUrl.incLen
  simp only [Function.update_self, Function.update_idem, Nat.one_ne_zero, if_false, hset, h.len]
  rfl

theorem hostReads_v6End : HostReads l p ⟨.hostV6End, u⟩ u' ↔ ∃ port, l = renderPort port ∧ PortOk port ∧ u.markPort? p port = u' := by
  rw [← hostReads_port (t := ⟨.hostV6End, u⟩) (C := fun _ => false) (fun a _ => rfl) rfl rfl]
  exact ⟨fun h => ⟨fun _ _ => rfl, h⟩, fun h => h.2⟩

/-- A zone, behind the `%`; the field of the host has `n` characters already. -/
theorem hostReads_zoneStart {q : Nat} (hn : n ≠ 0) : HostReads l q ⟨.hostV6ZoneStart, u.mark .host p n⟩ u' ↔
    ∃ zone port, l = zone ++ chr ']' :: renderPort port ∧ (zone ≠ [] ∧ ∀ c ∈ zone, isZoneChar c = true) ∧ PortOk port ∧
      (u.mark .host p (n + zone.length)).markPort? (q + zone.length + 1) port = u' := by
  have hclose : isZoneChar (chr ']') = false := by decide
  have hinc (w : List Byte) (a : Byte) : (u.mark .host p (n + w.length)).incLen .host = u.mark .host p (n + (w ++ [a]).length) := by
    rw [HttpParserUrl.incLen_mark (by omega), List.length_append]
    rfl
  rw [hostReads_class (C := isZoneChar) (s := .hostV6Zone) (v := fun w => u.mark .host p (n + w.length))]
  · constructor
    · rintro ⟨w, rest, rfl, hw, hnext, hr⟩
      by_cases hnil : w = []
      · subst hnil
        rw [HostScan.behind_nil] at hr
        exact absurd hr (not_hostReads rfl fun a ha => if_neg (Bool.eq_false_iff.1 (hnext a ha)))
      · rw [HostScan.behind_of_ne hnil] at hr
        cases rest with
        | nil => cases (hostReads_nil.1 hr).1
        | cons a rest =>
          obtain ⟨t', ht, hr⟩ := hostReads_cons.1 hr
          have hstep : httpParseHostChar .hostV6Zone a = if a = chr ']' then .hostV6End else .dead :=
            if_congr Iff.rfl rfl (if_neg (Bool.eq_false_iff.1 (hnext a rfl)))
          rw [hstep] at ht
          split_ifs at ht with ha
          · subst ha
            cases ht
            obtain ⟨port, rfl, h⟩ := hostReads_v6End.1 hr
            exact ⟨w, port, rfl, ⟨hnil, hw⟩, h⟩
          · cases ht
    · rintro ⟨zone, port, rfl, ⟨hnil, hzone⟩, h⟩
      refine ⟨zone, _, rfl, hzone, fun a ha => by cases ha; exact hclose, ?_⟩
      rw [HostScan.behind_of_ne hnil]
      exact hostReads_cons.2 ⟨_, rfl, hostReads_v6End.2 ⟨port, rfl, h⟩⟩
  · intro a ha
    rw [HostScan.round, show httpParseHostChar .hostV6ZoneStart a = .hostV6Zone from if_pos ha]
    exact congrArg (fun u => some (HostScan.mk .hostV6Zone u)) (hinc [] a)
  · intro w a hw ha
    rw [HostScan.round, show httpParseHostChar .hostV6Zone a = .hostV6Zone from (if_neg (ne_of_class ha hclose)).trans (if_pos ha)]
    exact congrArg (fun u => some (HostScan.mk .hostV6Zone u)) (hinc w a)

/-- An address of IPv6, behind the bracket -/
theorem hostReads_v6Start (hu : HostUnset u) : HostReads l p ⟨.hostV6Start, u⟩ u' ↔
    ∃ addr zone port, l = (HostName.v6 addr zone).text ++ chr ']' :: renderPort port ∧ (HostName.v6 addr zone).Ok ∧ PortOk port ∧
      (u.mark .host p (HostName.v6 addr zone).text.length).markPort? (p + (HostName.v6 addr zone).text.length + 1) port = u' := by
  have hclose : isV6Char (chr ']') = false := by decide
  have hpercent : isV6Char (chr '%') = false := by decide
  rw [hostReads_class (C := isV6Char) (s := .hostV6) (v := fun w => u.mark .host p w.length)]
  · constructor
    · rintro ⟨w, rest, rfl, hw, hnext, hr⟩
      by_cases hnil : w = []
      · subst hnil
        rw [HostScan.behind_nil] at hr
        exact absurd hr (not_hostReads rfl fun a ha => if_neg (Bool.eq_false_iff.1 (hnext a ha)))
      · rw [HostScan.behind_of_ne hnil] at hr
        have hlen : w.length ≠ 0 := fun hz => hnil (List.eq_nil_of_length_eq_zero hz)
        cases rest with
        | nil => cases (hostReads_nil.1 hr).1
        | cons a rest =>
          obtain ⟨t', ht, hr⟩ := hostReads_cons.1 hr
          have hstep : httpParseHostChar .hostV6 a = if a = chr ']' then .hostV6End else if a = chr '%' then .hostV6ZoneStart else .dead :=
            if_congr Iff.rfl rfl (if_neg (Bool.eq_false_iff.1 (hnext a rfl)))
          rw [hstep] at ht
          split_ifs at ht with ha ha'
          · subst ha
            cases ht
            obtain ⟨port, rfl, h⟩ := hostReads_v6End.1 hr
            exact ⟨w, none, port, rfl, ⟨hnil, hw, nofun⟩, h⟩
          · subst ha'
            rw [show HostScan.enter ⟨.hostV6, u.mark .host p w.length⟩ (p + w.length) .hostV6ZoneStart =
              some ⟨.hostV6ZoneStart, u.mark .host p (w.length + 1)⟩ from congrArg (fun u => some (HostScan.mk _ u)) (HttpParserUrl.incLen_mark hlen)] at ht
            cases ht
            obtain ⟨zone, port, rfl, hzone, hport, h⟩ := (hostReads_zoneStart (Nat.succ_ne_zero _)).1 hr
            refine ⟨w, some zone, port, by simp [HostName.text], ⟨hnil, hw, fun z hz => by cases hz; exact hzone⟩, hport, ?_⟩
            rw [← h]
            simp only [HostName.text, List.length_append, List.length_cons]
            congr 2 <;> omega
          · cases ht
    · rintro ⟨addr, zone, port, rfl, ⟨hnil, haddr, hzone⟩, hport, h⟩
      have hlen : addr.length ≠ 0 := fun hz => hnil (List.eq_nil_of_length_eq_zero hz)
      cases zone with
      | none =>
        refine ⟨addr, _, rfl, haddr, fun a ha => by cases ha; exact hclose, ?_⟩
        rw [HostScan.behind_of_ne hnil]
        exact hostReads_cons.2 ⟨_, rfl, hostReads_v6End.2 ⟨port, rfl, hport, h⟩⟩
      | some z =>
        refine ⟨addr, chr '%' :: (z ++ chr ']' :: renderPort port), by simp [HostName.text], haddr, fun a ha => by cases ha; exact hpercent, ?_⟩
        rw [HostScan.behind_of_ne hnil]
        refine hostReads_cons.2 ⟨⟨.hostV6ZoneStart, u.mark .host p (addr.length + 1)⟩, congrArg (fun u => some (HostScan.mk _ u)) (HttpParserUrl.incLen_mark hlen),
          (hostReads_zoneStart (Nat.succ_ne_zero _)).2 ⟨z, port, rfl, hzone z rfl, hport, ?_⟩⟩
        rw [← h]
        simp only [HostName.text, List.length_append, List.length_cons]
        congr 2 <;> omega
  · intro a ha
    rw [HostScan.round, show httpParseHostChar .hostV6Start a = .hostV6 from if_pos ha]
    exact congrArg (fun u => some (HostScan.mk .hostV6 u)) hu.first
  · intro w a hw ha
    rw [HostScan.round, show httpParseHostChar .hostV6 a = .hostV6 from (if_neg (ne_of_class ha hclose)).trans (if_pos ha)]
    exact congrArg (fun u => some (HostScan.mk .hostV6 u)) (incLen_word hw a)

/-- The host, which begins at `p` -/
def HttpParserUrl.markHost (u : HttpParserUrl) (p : Nat) (host : HostName) : HttpParserUrl := u.mark .host (p + host.lead) host.text.length

theorem hostReads_hostStart (hu : HostUnset u) : HostReads l p ⟨.hostStart, u⟩ u' ↔
    ∃ host port, l = HostName.render host ++ renderPort port ∧ host.Ok ∧ PortOk port ∧
      (u.markHost p host).markPort? (p + host.render.length) port = u' := by
  have hopen : isHostChar (chr '[') = false := by decide
  have hcolon : isHostChar (chr ':') = false := by decide
  rw [hostReads_class (C := isHostChar) (s := .host) (v := fun w => u.mark .host p w.length)]
  · constructor
    · rintro ⟨w, rest, rfl, hw, hnext, hr⟩
      by_cases hnil : w = []
      · subst hnil
        rw [HostScan.behind_nil] at hr
        cases rest with
        | nil => cases (hostReads_nil.1 hr).1
        | cons a rest =>
          obtain ⟨t', ht, hr⟩ := hostReads_cons.1 hr
          have hstep : httpParseHostChar .hostStart a = if a = chr '[' then .hostV6Start else .dead :=
            if_congr Iff.rfl rfl (if_neg (Bool.eq_false_iff.1 (hnext a rfl)))
          rw [hstep] at ht
          split_ifs at ht with ha
          · subst ha
            cases ht
            obtain ⟨addr, zone, port, rfl, haddr, hport, h⟩ := (hostReads_v6Start hu).1 hr
            refine ⟨.v6 addr zone, port, by simp [HostName.render], haddr, hport, ?_⟩
            rw [← h]
            simp only [HostName.render, HttpParserUrl.markHost, HostName.lead, List.length_append, List.length_cons, List.length_nil]
            congr 1
            omega
          · cases ht
      · rw [HostScan.behind_of_ne hnil] at hr
        obtain ⟨port, rfl, hport, h⟩ := (hostReads_port (t := ⟨.host, u.mark .host p w.length⟩) (C := isHostChar)
          (fun a ha => if_neg (Bool.eq_false_iff.1 ha)) hcolon rfl).1 ⟨hnext, hr⟩
        exact ⟨.name w, port, rfl, ⟨hnil, hw⟩, hport, h⟩
    · rintro ⟨host, port, rfl, hok, hport, h⟩
      cases host with
      | name w =>
        obtain ⟨hnext, hr⟩ := (hostReads_port (t := ⟨.host, u.mark .host p w.length⟩) (C := isHostChar)
          (fun a ha => if_neg (Bool.eq_false_iff.1 ha)) hcolon rfl).2 ⟨port, rfl, hport, h⟩
        refine ⟨w, _, rfl, hok.2, hnext, ?_⟩
        rw [HostScan.behind_of_ne hok.1]
        exact hr
      | v6 addr zone =>
        refine ⟨[], _, rfl, nofun, fun a ha => by cases ha; exact hopen, ?_⟩
        rw [HostScan.behind_nil]
        refine hostReads_cons.2 ⟨⟨.hostV6Start, u⟩, rfl, (hostReads_v6Start hu).2 ⟨addr, zone, port, by simp, hok, hport, ?_⟩⟩
        rw [← h]
        simp only [HostName.render, HttpParserUrl.markHost, HostName.lead, List.length_append, List.length_cons, List.length_nil]
        congr 1
        omega
  · intro a ha
    rw [HostScan.round, show httpParseHostChar .hostStart a = .host from (if_neg (ne_of_class ha hopen)).trans (if_pos ha)]
    exact congrArg (fun u => some (HostScan.mk .host u)) hu.first
  · intro w a hw ha
    rw [HostScan.round, show httpParseHostChar .host a = .host from if_pos ha]
    exact congrArg (fun u => some (HostScan.mk .host u)) (incLen_word hw a)

theorem HostUnset.mark_userinfo (hu : HostUnset u) : HostUnset (u.mark .userinfo p n) where
  set := by
    rw [HttpParserUrl.mark_fieldSet, hu.set]
    rfl
  len := by rw [HttpParserUrl.mark_fieldData_of_ne (by decide), hu.len]

/-- A user, which an `@` follows -/
theorem hostReads_userinfoStart : HostReads l p ⟨.userinfoStart, u⟩ u' ↔
    ∃ user rest, l = user ++ chr '@' :: rest ∧ (∀ c ∈ user, isUserinfoChar c = true) ∧
      HostReads rest (p + user.length + 1) ⟨.hostStart, u.mark .userinfo p user.length⟩ u' := by
  have hat : isUserinfoChar (chr '@') = false := by decide
  have hexit (w : List Byte) (a : Byte) (ha : isUserinfoChar a = false) :
      httpParseHostChar (HostScan.behind .userinfoStart .userinfo u (fun w => u.mark .userinfo p w.length) w).s a =
        if a = chr '@' then .hostStart else .dead := by
    unfold HostScan.behind
    split_ifs <;> simp [httpParseHostChar, *]
  have hmark (w : List Byte) : (HostScan.behind .userinfoStart .userinfo u (fun w => u.mark .userinfo p w.length) w).u = u.mark .userinfo p w.length := by
    unfold HostScan.behind
    split_ifs with hw
    · subst hw
      exact HttpParserUrl.mark_zero.symm
    · rfl
  rw [hostReads_class (C := isUserinfoChar) (s := .userinfo) (v := fun w => u.mark .userinfo p w.length)]
  · constructor
    · rintro ⟨w, rest, rfl, hw, hnext, hr⟩
      cases rest with
      | nil =>
        have hends := (hostReads_nil.1 hr).1
        unfold HostScan.behind at hends
        split_ifs at hends <;> cases hends
      | cons a rest =>
        obtain ⟨t', ht, hr⟩ := hostReads_cons.1 hr
        rw [hexit w a (hnext a rfl)] at ht
        split_ifs at ht with ha
        · subst ha
          cases ht
          refine ⟨w, rest, rfl, hw, ?_⟩
          rw [← hmark]
          exact hr
        · cases ht
    · rintro ⟨w, rest, rfl, hw, hr⟩
      refine ⟨w, _, rfl, hw, fun a ha => by cases ha; exact hat, hostReads_cons.2 ⟨_, ?_, hr⟩⟩
      rw [hexit w _ hat, if_pos rfl, ← hmark]
      rfl
  · intro a ha
    rw [HostScan.round, show httpParseHostChar .userinfoStart a = .userinfo from (if_neg (ne_of_class ha hat)).trans (if_pos ha)]
    exact congrArg (fun u => some (HostScan.mk .userinfo u)) HttpParserUrl.mark_one'
  · intro w a hw ha
    rw [HostScan.round, show httpParseHostChar .userinfo a = .userinfo from (if_neg (ne_of_class ha hat)).trans (if_pos ha)]
    exact congrArg (fun u => some (HostScan.mk .userinfo u)) (incLen_word hw a)

end

/-! ### Servers -/

structure Server where
  userinfo : Option (List Byte)
  host : HostName
  port : Option (List Byte)
deriving DecidableEq

def renderUserinfo : Option (List Byte) → List Byte
  | none => []
  | some l => l ++ [chr '@']

def portNumber (l : List Byte) : Nat := l.foldl (fun v c => 10 * v + (c.toNat - (chr '0').toNat)) 0

namespace Server

def render (server : Server) : List Byte := renderUserinfo server.userinfo ++ (server.host.render ++ renderPort server.port)

structure Ok (server : Server) : Prop where
  userinfo : ∀ l ∈ server.userinfo, ∀ c ∈ l, isUserinfoChar c = true
  host : server.host.Ok
  port : PortOk server.port

/-- The fields of the server, which begins at `p` -/
def mark (server : Server) (u : HttpParserUrl) (p : Nat) : HttpParserUrl :=
  ((u.mark .userinfo p (server.userinfo.getD []).length).markHost (p + (renderUserinfo server.userinfo).length) server.host).markPort?
    (p + (renderUserinfo server.userinfo).length + server.host.render.length) server.port

end Server

section

variable {l : List Byte} {p : Nat} {u u' : HttpParserUrl} {fa : Bool} {server : Server}

theorem hostReads_server (hu : HostUnset u) : HostReads l p ⟨if fa = true then .userinfoStart else .hostStart, u⟩ u' ↔
    ∃ server : Server, l = server.render ∧ server.Ok ∧ server.userinfo.isSome = fa ∧ server.mark u p = u' := by
  cases fa with
  | false =>
    rw [if_neg nofun, hostReads_hostStart hu]
    constructor
    · rintro ⟨host, port, rfl, hhost, hport, h⟩
      exact ⟨⟨none, host, port⟩, rfl, ⟨nofun, hhost, hport⟩, rfl, h⟩
    · rintro ⟨⟨user, host, port⟩, rfl, hok, hnone, h⟩
      cases user with
      | none => exact ⟨host, port, rfl, hok.host, hok.port, h⟩
      | some user => cases hnone
  | true =>
    rw [if_pos rfl, hostReads_userinfoStart]
    have hplace (user : List Byte) : p + user.length + 1 = p + (renderUserinfo (some user)).length := by
      rw [renderUserinfo, List.length_append, Nat.add_assoc]
      rfl
    constructor
    · rintro ⟨user, rest, rfl, huser, hr⟩
      obtain ⟨host, port, rfl, hhost, hport, h⟩ := (hostReads_hostStart hu.mark_userinfo).1 hr
      refine ⟨⟨some user, host, port⟩, by simp [Server.render, renderUserinfo], ⟨fun l hl => by cases hl; exact huser, hhost, hport⟩, rfl, ?_⟩
      rw [hplace] at h
      exact h
    · rintro ⟨⟨user, host, port⟩, rfl, hok, hsome, h⟩
      cases user with
      | none => cases hsome
      | some user =>
        refine ⟨user, host.render ++ renderPort port, by simp [Server.render, renderUserinfo], hok.userinfo user rfl,
          (hostReads_hostStart hu.mark_userinfo).2 ⟨host, port, rfl, hok.host, hok.port, ?_⟩⟩
        rw [hplace]
        exact h

section

variable {c : Byte}

theorem isServerChar_of_userinfo (h : isUserinfoChar c = true) : isServerChar c = true ∧ c ≠ chr '@' := by
  have hat : isUserinfoChar (chr '@') = false := by decide
  exact ⟨by simp [isServerChar, h], ne_of_class h hat⟩

theorem isUserinfoChar_of_num (h : isNum c = true) : isUserinfoChar c = true := by simp [isUserinfoChar, isAlphanum, h]

theorem isUserinfoChar_of_host (h : isHostChar c = true) : isUserinfoChar c = true := by
  simp only [isHostChar, isUserinfoChar, isMark, Bool.or_eq_true] at h ⊢
  tauto

theorem isAlphanum_of_hex (h : isHex c = true) : isAlphanum c = true := by
  have htrans : lower c ≤ chr 'f' → lower c ≤ chr 'z' := fun hf => UInt8.le_trans hf (by decide)
  simp only [isHex, isAlphanum, isAlpha, Bool.or_eq_true, Bool.and_eq_true, decide_eq_true_eq] at h ⊢
  exact h.elim .inr fun h => .inl ⟨h.1, htrans h.2⟩

theorem isUserinfoChar_of_v6 (h : isV6Char c = true) : isUserinfoChar c = true := by
  have hhex := isAlphanum_of_hex (c := c)
  simp only [isV6Char, isUserinfoChar, isMark, Bool.or_eq_true] at h ⊢
  tauto

theorem isUserinfoChar_of_zone (h : isZoneChar c = true) : isUserinfoChar c = true := by
  simp only [isZoneChar, isUserinfoChar, isMark, Bool.or_eq_true] at h ⊢
  tauto

end

namespace Server

/-- The characters behind the user -/
theorem Ok.rest (h : server.Ok) : ∀ c ∈ server.host.render ++ renderPort server.port, isServerChar c = true ∧ c ≠ chr '@' := by
  have hhost (c) (hc : isHostChar c = true) := isServerChar_of_userinfo (isUserinfoChar_of_host hc)
  have hv6 (c) (hc : isV6Char c = true) := isServerChar_of_userinfo (isUserinfoChar_of_v6 hc)
  have hzone (c) (hc : isZoneChar c = true) := isServerChar_of_userinfo (isUserinfoChar_of_zone hc)
  have hnum (c) (hc : isNum c = true) := isServerChar_of_userinfo (isUserinfoChar_of_num hc)
  obtain ⟨-, hok, hport⟩ := h
  obtain ⟨user, host, port⟩ := server
  intro c hc
  rcases List.mem_append.1 hc with hc | hc
  · cases host with
    | name l => exact hhost c (hok.2 c hc)
    | v6 l zone =>
      rcases List.mem_cons.1 hc with rfl | hc
      · decide
      · rcases List.mem_append.1 hc with hc | hc
        · cases zone with
          | none => exact hv6 c (hok.2.1 c hc)
          | some z =>
            rcases List.mem_append.1 hc with hc | hc
            · exact hv6 c (hok.2.1 c hc)
            · rcases List.mem_cons.1 hc with rfl | hc
              · decide
              · exact hzone c ((hok.2.2 z rfl).2 c hc)
        · rw [List.mem_singleton] at hc
          subst hc
          decide
  · cases port with
    | none => cases hc
    | some l =>
      rcases List.mem_cons.1 hc with rfl | hc
      · decide
      · exact hnum c ((hport l rfl).2 c hc)

theorem Ok.mem_at (h : server.Ok) : chr '@' ∈ server.render ↔ server.userinfo.isSome = true := by
  have hrest : chr '@' ∉ server.host.render ++ renderPort server.port := fun hat => (h.rest _ hat).2 rfl
  unfold render
  rw [List.mem_append, or_iff_left hrest]
  cases server.userinfo with
  | none => exact ⟨nofun, nofun⟩
  | some l => simp [renderUserinfo]

theorem Ok.follows (h : server.Ok) : Follows serverFollows server.render := by
  have hplain {w w' : List Byte} (hw : ∀ c ∈ w', isServerChar c = true ∧ c ≠ chr '@') (hfol : Follows serverFollows w) :
      Follows serverFollows (w ++ w') := by
    induction w' using List.reverseRecOn with
    | nil => rwa [List.append_nil]
    | append_singleton w' a ih =>
      rw [← List.append_assoc, follows_snoc]
      obtain ⟨ha, hne⟩ := hw a (by simp)
      exact ⟨ih fun c hc => hw c (List.mem_append_left _ hc), by simp [serverFollows, ha, hne]⟩
  unfold render
  refine hplain h.rest ?_
  cases huser : server.userinfo with
  | none => exact follows_nil
  | some l =>
    have hl : ∀ c ∈ l, isServerChar c = true ∧ c ≠ chr '@' := fun c hc => isServerChar_of_userinfo (h.userinfo l huser c hc)
    refine follows_snoc.2 ⟨?_, ?_⟩
    · rw [← List.nil_append l]
      exact hplain hl follows_nil
    · have hlast : l.getLast? ≠ some (chr '@') := fun hlast => (hl _ (List.mem_of_getLast? hlast)).2 rfl
      unfold serverFollows
      rw [Bool.and_eq_true]
      exact ⟨by decide, by simp [hlast]⟩

theorem Ok.text_ne_nil (h : server.Ok) : server.host.text ≠ [] := by
  obtain ⟨-, hok, -⟩ := h
  cases hhost : server.host with
  | name l =>
    rw [hhost] at hok
    exact hok.1
  | v6 l zone =>
    rw [hhost] at hok
    cases zone with
    | none => exact hok.1
    | some z => simp [HostName.text]

end Server

end

end Wawo.HttpParser
