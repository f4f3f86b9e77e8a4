import Wawo.Net.UrlServer

/-!
# The URLs that are accepted

`Url` are the forms of a URL, and `Url.Accepted` says which ones `http_parser_parse_url` accepts: it has a path, or a
schema and a server, or is empty; the target of `CONNECT` has no field but the host and the port. `parseUrl_iff`: what
`parse_url` accepts is the text of such a URL, and the fields that it gives out are the fields of that URL.
-/

namespace Wawo.HttpParser

open Lts Memory

/-! ### URLs -/

/-- The forms of a URL, `A` what is known of its server; the target of `CONNECT` has no schema. -/
inductive Url (A : Type)
  | empty
  | ofPath (path : List Byte) (tail : UrlTail)
  | ofServer (schema : Option (List Byte)) (server : A) (path : List Byte) (tail : UrlTail)
deriving DecidableEq

def renderSchema : Option (List Byte) → List Byte
  | none => []
  | some l => l ++ [chr ':', chr '/', chr '/']

namespace Url

/-- The parts one after the other, where `f` is the text of the server -/
def text {A : Type} (f : A → List Byte) : Url A → List Byte
  | empty => []
  | ofPath path tail => path ++ tail.render
  | ofServer schema server path tail => renderSchema schema ++ (f server ++ (path ++ tail.render))

def SchemaOk (isConnect : Bool) (schema : Option (List Byte)) : Prop :=
  if isConnect = true then schema = none else ∃ l, schema = some l ∧ l ≠ [] ∧ ∀ c ∈ l, isAlpha c = true

theorem schemaOk_true {schema : Option (List Byte)} : SchemaOk true schema ↔ schema = none := Iff.rfl

theorem schemaOk_false {schema : Option (List Byte)} :
    SchemaOk false schema ↔ ∃ l, schema = some l ∧ l ≠ [] ∧ ∀ c ∈ l, isAlpha c = true := Iff.rfl

/-- The parts, but for the server, of which `S` holds -/
def Parts {A : Type} (S : A → Prop) (isConnect : Bool) : Url A → Prop
  | empty => isConnect = false
  | ofPath path tail =>
    isConnect = false ∧ path ≠ [] ∧ (∀ a ∈ path.head?, a = chr '/' ∨ a = chr '*') ∧ (∀ c ∈ path, isUrlChar c = true) ∧ tail.Ok
  | ofServer schema server path tail => SchemaOk isConnect schema ∧ S server ∧ AfterServer path tail

/-- What the loop over the URL leaves in `u`, where `f` is the text of the server -/
def first {A : Type} (f : A → List Byte) (u : HttpParserUrl) : Url A → HttpParserUrl
  | empty => u
  | ofPath path tail => tail.mark (u.mark .path 0 path.length) (0 + path.length)
  | ofServer schema server path tail =>
    let p := (renderSchema schema).length
    tail.mark (((u.mark .schema 0 (schema.getD []).length).mark .host p (f server).length).mark .path (p + (f server).length) path.length)
      (p + (f server).length + path.length)

/-- `found_at` behind the loop over the URL -/
def foundAt {A : Type} (f : A → List Byte) : Url A → Bool
  | ofServer _ server _ _ => decide (chr '@' ∈ f server)
  | _ => false

end Url

section

variable {buf : List Byte} {u u' : HttpParserUrl} {b isConnect : Bool}

/-- What the loop reads: a URL, or a schema that ends too early. -/
theorem reads_url : Reads buf 0 ⟨if isConnect = true then .reqServerStart else .reqSpacesBeforeUrl, none, false, u⟩ u' b ↔
    (∃ r : Url (List Byte), r.Parts (Follows serverFollows) isConnect ∧ buf = r.text id ∧ r.first id u = u' ∧ r.foundAt id = b) ∨
    (isConnect = false ∧ ∃ schema rest, buf = schema ++ rest ∧ schema ≠ [] ∧ (∀ c ∈ schema, isAlpha c = true) ∧
      rest ∈ [[], [chr ':'], [chr ':', chr '/']] ∧ u.mark .schema 0 schema.length = u' ∧ false = b) := by
  cases isConnect with
  | true =>
    rw [if_pos rfl, reads_serverStart (by decide) (by decide) (by decide) (by decide)]
    constructor
    · rintro ⟨server, path, tail, rfl, hserver, hafter, hu, hb⟩
      refine .inl ⟨.ofServer none server path tail, ⟨Url.schemaOk_true.2 rfl, hserver, hafter⟩, rfl, ?_, (Bool.false_or _).symm.trans hb⟩
      rw [← hu, Url.first, Option.getD_none, List.length_nil, HttpParserUrl.mark_zero]
      rfl
    · rintro (⟨r, hr, rfl, hu, hb⟩ | ⟨h, -⟩)
      · cases r with
        | empty => cases hr
        | ofPath path tail => cases hr.1
        | ofServer schema server path tail =>
          obtain ⟨hschema, hserver, hafter⟩ := hr
          have hnone : schema = none := Url.schemaOk_true.1 hschema
          subst hnone
          rw [Url.first, Option.getD_none, List.length_nil, HttpParserUrl.mark_zero] at hu
          exact ⟨server, path, tail, rfl, hserver, hafter, hu, (Bool.false_or _).trans hb⟩
      · cases h
  | false =>
    rw [if_neg nofun, reads_start]
    have hold : ∀ uf, uf ≠ .schema → some UrlField.schema ≠ some uf := fun uf hne heq => hne (Option.some.inj heq).symm
    have hserverStart (rest schema : List Byte) :
        Reads rest (schema.length + 3) ⟨.reqServerStart, some .schema, false, u.mark .schema 0 schema.length⟩ u' b ↔ _ :=
      reads_serverStart (hold .host nofun) (hold .path nofun) (hold .query nofun) (hold .fragment nofun)
    simp only [hserverStart]
    constructor
    · rintro (⟨rfl, rfl, rfl⟩ | ⟨a, w, tail, rfl, ha, hw, htail, hu, hb⟩ |
        ⟨schema, rest, rfl, hne, halpha, ⟨hrest, hu, hb⟩ | ⟨rest', rfl, server, path, tail, rfl, hserver, hafter, hu, hb⟩⟩)
      · exact .inl ⟨.empty, rfl, rfl, rfl, rfl⟩
      · refine .inl ⟨.ofPath (a :: w) tail, ⟨rfl, List.cons_ne_nil a w, fun c hc => by cases hc; exact ha, fun c hc => ?_, htail⟩, rfl, hu, hb⟩
        rcases List.mem_cons.1 hc with rfl | hc
        · rcases ha with rfl | rfl <;> decide
        · exact hw c hc
      · exact .inr ⟨trivial, schema, rest, rfl, hne, halpha, hrest, hu, hb⟩
      · refine .inl ⟨.ofServer (some schema) server path tail, ⟨Url.schemaOk_false.2 ⟨schema, rfl, hne, halpha⟩, hserver, hafter⟩, ?_, ?_,
          (Bool.false_or _).symm.trans hb⟩
        · simp [Url.text, renderSchema]
        · rw [← hu]
          simp [Url.first, renderSchema]
    · rintro (⟨r, hr, rfl, hu, hb⟩ | ⟨-, schema, rest, rfl, hne, halpha, hrest, hu, hb⟩)
      · cases r with
        | empty => exact .inl ⟨rfl, hu, hb⟩
        | ofPath path tail =>
          obtain ⟨-, hne, hhead, hchars, htail⟩ := hr
          cases path with
          | nil => exact absurd rfl hne
          | cons a w => exact .inr (.inl ⟨a, w, tail, rfl, hhead a rfl, fun c hc => hchars c (List.mem_cons_of_mem a hc), htail, hu, hb⟩)
        | ofServer schema server path tail =>
          obtain ⟨hschema, hserver, hafter⟩ := hr
          obtain ⟨l, rfl, hne, halpha⟩ := Url.schemaOk_false.1 hschema
          refine .inr (.inr ⟨l, _, ?_, hne, halpha, .inr ⟨_, rfl, server, path, tail, rfl, hserver, hafter, ?_, (Bool.false_or _).trans hb⟩⟩)
          · simp [Url.text, renderSchema]
          · rw [← hu]
            simp [Url.first, renderSchema]
      · exact .inr (.inr ⟨schema, rest, rfl, hne, halpha, .inl ⟨hrest, hu, hb⟩⟩)

end

/-! ### The fields -/

section

variable {buf : List Byte} {u : HttpParserUrl} {uf uf' : UrlField} {p n : Nat}

theorem HttpParserUrl.mark_fieldData : (u.mark uf p n).fieldData uf' = if uf' = uf ∧ n ≠ 0 then ⟨UInt16.ofNat p, UInt16.ofNat n⟩ else u.fieldData uf' := by
  by_cases h : uf' = uf ∧ n ≠ 0
  · obtain ⟨rfl, hn⟩ := h
    rw [if_pos ⟨rfl, hn⟩, mark_fieldData_self hn]
  · rw [if_neg h]
    by_cases hn : n = 0
    · rw [hn, mark_zero]
    · exact mark_fieldData_of_ne fun heq => h ⟨heq, hn⟩

theorem HttpParserUrl.markPort?_eq (port : Option (List Byte)) : u.markPort? p port = u.mark .port (p + 1) (port.getD []).length := by
  cases port <;> rfl

theorem HttpParserUrl.markQuery?_eq (q : Option (List Byte)) : u.markQuery? p q = u.mark .query (p + 1) (q.getD []).length := by
  cases q <;> rfl

theorem HttpParserUrl.markFragment?_eq (fr : Option (List Byte)) : u.markFragment? p fr =
    u.mark .fragment (p + 1 + ((fr.getD []).takeWhile (· == chr '#')).length) ((fr.getD []).dropWhile (· == chr '#')).length := by
  cases fr <;> rfl

@[simp] theorem HttpParserUrl.resetLen_fieldSet : (u.resetLen uf).fieldSet = u.fieldSet := rfl

theorem HttpParserUrl.resetLen_fieldData (h : uf' ≠ uf) : (u.resetLen uf).fieldData uf' = u.fieldData uf' := Function.update_of_ne h _ _

namespace Url

variable {A : Type}

def schema? : Url A → Option (List Byte)
  | ofServer schema _ _ _ => schema
  | _ => none

def server? : Url A → Option A
  | ofServer _ server _ _ => some server
  | _ => none

def path : Url A → List Byte
  | empty => []
  | ofPath path _ => path
  | ofServer _ _ path _ => path

def tail : Url A → UrlTail
  | empty => ⟨none, none⟩
  | ofPath _ tail => tail
  | ofServer _ _ _ tail => tail

/-- A field, which is empty where there is none -/
def field (url : Url Server) : UrlField → List Byte
  | .schema => url.schema?.getD []
  | .host => url.server?.elim [] (·.host.text)
  | .port => (url.server?.bind (·.port)).getD []
  | .path => url.path
  | .query => url.tail.query.getD []
  | .fragment => (url.tail.fragment.getD []).dropWhile (· == chr '#')
  | .userinfo => (url.server?.bind (·.userinfo)).getD []

/-- What `http_parser_parse_url` makes of `u` -/
def result (u : HttpParserUrl) : Url Server → HttpParserUrl
  | empty => u
  | ofPath path tail => (ofPath path tail).first Server.render u
  | ofServer schema server path tail =>
    let u' := server.mark (((ofServer schema server path tail).first Server.render u).resetLen .host) (renderSchema schema).length
    match server.port with
    | none => u'
    | some l => { u' with port := UInt16.ofNat (portNumber l) }

end Url

/-- The field is the word `w` of `buf`, or is not set. -/
structure Shown (buf : List Byte) (u : HttpParserUrl) (uf : UrlField) (w : List Byte) : Prop where
  set : u.fieldSet uf = decide (w.length ≠ 0)
  data : w.length ≠ 0 → ∃ front back, buf = front ++ (w ++ back) ∧ u.fieldData uf = ⟨UInt16.ofNat front.length, UInt16.ofNat w.length⟩

/-- The marks of a URL with a server, one after the other -/
theorem Url.result_ofServer (schema : Option (List Byte)) (server : Server) (path : List Byte) (tail : UrlTail) :
    ∃ port, (ofServer schema server path tail).result u =
      { server.mark (((ofServer schema server path tail).first Server.render u).resetLen .host) (renderSchema schema).length with port := port } := by
  refine ⟨((ofServer schema server path tail).result u).port, ?_⟩
  unfold result
  dsimp only
  cases server.port <;> rfl

theorem Url.result_fieldSet (url : Url Server) (hu : ∀ uf, u.fieldSet uf = false) (hok : ∀ server ∈ url.server?, server.host.text ≠ []) :
    (url.result u).fieldSet uf = decide ((url.field uf).length ≠ 0) := by
  cases url with
  | empty => cases uf <;> simp [result, hu, field, schema?, server?, path, tail]
  | ofPath path tail =>
    simp only [result, first, UrlTail.mark, HttpParserUrl.markQuery?_eq, HttpParserUrl.markFragment?_eq, HttpParserUrl.mark_fieldSet, hu]
    cases uf <;> simp [field, schema?, server?, Url.path, Url.tail]
  | ofServer schema server path tail =>
    have htext := hok server rfl
    obtain ⟨port, hresult⟩ := Url.result_ofServer (u := u) schema server path tail
    rw [hresult]
    simp only [Server.mark, HttpParserUrl.markHost, HttpParserUrl.markPort?_eq, first, UrlTail.mark, HttpParserUrl.markQuery?_eq,
      HttpParserUrl.markFragment?_eq, HttpParserUrl.mark_fieldSet, HttpParserUrl.resetLen_fieldSet, hu]
    cases uf <;> simp [field, schema?, server?, Url.path, Url.tail, htext]

theorem renderQuery_of_ne (q : Option (List Byte)) (h : (q.getD []).length ≠ 0) : renderQuery q = chr '?' :: q.getD [] := by
  cases q with
  | none => exact absurd rfl h
  | some l => rfl

theorem renderPort_of_ne (port : Option (List Byte)) (h : (port.getD []).length ≠ 0) : renderPort port = chr ':' :: port.getD [] := by
  cases port with
  | none => exact absurd rfl h
  | some l => rfl

theorem renderUserinfo_of_ne (user : Option (List Byte)) (h : (user.getD []).length ≠ 0) : renderUserinfo user = user.getD [] ++ [chr '@'] := by
  cases user with
  | none => exact absurd rfl h
  | some l => rfl

theorem renderSchema_of_ne (schema : Option (List Byte)) (h : (schema.getD []).length ≠ 0) :
    renderSchema schema = schema.getD [] ++ [chr ':', chr '/', chr '/'] := by
  cases schema with
  | none => exact absurd rfl h
  | some l => rfl

theorem renderFragment_of_ne (fr : Option (List Byte)) (h : ((fr.getD []).dropWhile (· == chr '#')).length ≠ 0) :
    renderFragment fr = chr '#' :: ((fr.getD []).takeWhile (· == chr '#') ++ (fr.getD []).dropWhile (· == chr '#')) := by
  cases fr with
  | none => exact absurd rfl h
  | some l => rw [List.takeWhile_append_dropWhile]; rfl

/-- The text of the host stands behind its lead. -/
theorem HostName.render_eq (host : HostName) : ∃ lead back, host.render = lead ++ (host.text ++ back) ∧ lead.length = host.lead := by
  cases host with
  | name l => exact ⟨[], [], (List.append_nil l).symm, rfl⟩
  | v6 l zone => exact ⟨[chr '['], [chr ']'], rfl, rfl⟩

/-- Two places of a field that are one -/
theorem fieldData_congr {w : List Byte} {front : List Byte} (h : p = front.length) :
    FieldData.mk (UInt16.ofNat p) (UInt16.ofNat w.length) = ⟨UInt16.ofNat front.length, UInt16.ofNat w.length⟩ := by
  rw [h]

theorem Url.result_shown (url : Url Server) (uf : UrlField) (hu : ∀ uf, u.fieldSet uf = false) (hok : ∀ server ∈ url.server?, server.host.text ≠ []) :
    Shown (url.text Server.render) (url.result u) uf (url.field uf) where
  set := url.result_fieldSet hu hok
  data := by
    intro hn
    cases url with
    | empty => cases uf <;> simp [field, schema?, server?, path, tail] at hn
    | ofPath path tail =>
      simp only [result, first, UrlTail.mark, HttpParserUrl.markQuery?_eq, HttpParserUrl.markFragment?_eq, HttpParserUrl.mark_fieldData]
      cases uf with
      | path =>
        refine ⟨[], tail.render, rfl, ?_⟩
        rw [if_neg (by simp), if_neg (by simp), if_pos ⟨rfl, hn⟩]
        rfl
      | query =>
        refine ⟨path ++ [chr '?'], renderFragment tail.fragment, ?_, ?_⟩
        · rw [Url.text, UrlTail.render, renderQuery_of_ne tail.query hn]
          simp [field, Url.tail]
        · rw [if_neg (by simp), if_pos ⟨rfl, hn⟩]
          exact fieldData_congr (by simp)
      | fragment =>
        refine ⟨path ++ (renderQuery tail.query ++ chr '#' :: (tail.fragment.getD []).takeWhile (· == chr '#')), [], ?_, ?_⟩
        · rw [Url.text, UrlTail.render, renderFragment_of_ne tail.fragment hn]
          simp [field, Url.tail]
        · rw [if_pos ⟨rfl, hn⟩]
          exact fieldData_congr (by simp; omega)
      | _ => simp [field, schema?, server?] at hn
    | ofServer schema server path tail =>
      have htext := hok server rfl
      obtain ⟨port, hresult⟩ := Url.result_ofServer (u := u) schema server path tail
      rw [hresult]
      simp only [Server.mark, HttpParserUrl.markHost, HttpParserUrl.markPort?_eq, first, UrlTail.mark, HttpParserUrl.markQuery?_eq,
        HttpParserUrl.markFragment?_eq, HttpParserUrl.mark_fieldData]
      cases uf with
      | userinfo =>
        refine ⟨renderSchema schema, chr '@' :: (server.host.render ++ renderPort server.port ++ (path ++ tail.render)), ?_, ?_⟩
        · rw [Url.text, Server.render, renderUserinfo_of_ne server.userinfo hn]
          simp [field, server?]
        · rw [if_neg (by simp), if_neg (by simp), if_pos ⟨rfl, hn⟩]
          rfl
      | host =>
        obtain ⟨lead, back, hrender, hlead⟩ := server.host.render_eq
        refine ⟨renderSchema schema ++ (renderUserinfo server.userinfo ++ lead), back ++ (renderPort server.port ++ (path ++ tail.render)), ?_, ?_⟩
        · rw [Url.text, Server.render, hrender]
          simp [field, server?]
        · rw [if_neg (by simp), if_pos ⟨rfl, hn⟩]
          exact fieldData_congr (by simp [hlead]; omega)
      | port =>
        refine ⟨renderSchema schema ++ (renderUserinfo server.userinfo ++ (server.host.render ++ [chr ':'])), path ++ tail.render, ?_, ?_⟩
        · rw [Url.text, Server.render, renderPort_of_ne server.port hn]
          simp [field, server?]
        · rw [if_pos ⟨rfl, hn⟩]
          exact fieldData_congr (by simp; omega)
      | schema =>
        refine ⟨[], [chr ':', chr '/', chr '/'] ++ (server.render ++ (path ++ tail.render)), ?_, ?_⟩
        · rw [Url.text, renderSchema_of_ne schema hn]
          simp [field, schema?]
        · rw [if_neg (by simp), if_neg (by simp), if_neg (by simp), HttpParserUrl.resetLen_fieldData (by simp)]
          simp only [HttpParserUrl.mark_fieldData]
          rw [if_neg (by simp), if_neg (by simp), if_neg (by simp), if_neg (by simp), if_pos ⟨trivial, hn⟩]
          rfl
      | path =>
        refine ⟨renderSchema schema ++ server.render, tail.render, ?_, ?_⟩
        · simp [Url.text, field, Url.path]
        · rw [if_neg (by simp), if_neg (by simp), if_neg (by simp), HttpParserUrl.resetLen_fieldData (by simp)]
          simp only [HttpParserUrl.mark_fieldData]
          rw [if_neg (by simp), if_neg (by simp), if_pos ⟨trivial, hn⟩]
          exact fieldData_congr (by simp)
      | query =>
        refine ⟨renderSchema schema ++ (server.render ++ (path ++ [chr '?'])), renderFragment tail.fragment, ?_, ?_⟩
        · rw [Url.text, UrlTail.render, renderQuery_of_ne tail.query hn]
          simp [field, Url.tail]
        · rw [if_neg (by simp), if_neg (by simp), if_neg (by simp), HttpParserUrl.resetLen_fieldData (by simp)]
          simp only [HttpParserUrl.mark_fieldData]
          rw [if_neg (by simp), if_pos ⟨trivial, hn⟩]
          exact fieldData_congr (by simp; omega)
      | fragment =>
        refine ⟨renderSchema schema ++ (server.render ++ (path ++ (renderQuery tail.query ++ chr '#' :: (tail.fragment.getD []).takeWhile (· == chr '#')))),
          [], ?_, ?_⟩
        · rw [Url.text, UrlTail.render, renderFragment_of_ne tail.fragment hn]
          simp [field, Url.tail]
        · rw [if_neg (by simp), if_neg (by simp), if_neg (by simp), HttpParserUrl.resetLen_fieldData (by simp)]
          simp only [HttpParserUrl.mark_fieldData]
          rw [if_pos ⟨trivial, hn⟩]
          exact fieldData_congr (by simp; omega)

end

/-! ### What is accepted -/

/-- A URL that `http_parser_parse_url` accepts -/
def Url.Accepted (isConnect : Bool) (url : Url Server) : Prop :=
  url.Parts Server.Ok isConnect ∧ portNumber (url.field .port) ≤ 0xffff ∧
    (isConnect = true → ∀ uf, url.field uf ≠ [] ↔ uf = .host ∨ uf = .port)

section

variable {buf front srv back : List Byte} {u u' : HttpParserUrl} {fa isConnect : Bool}

theorem toNat_ofNat {n : Nat} (h : n < 2 ^ 16) : (UInt16.ofNat n).toNat = n := UInt16.toNat_ofNat_of_lt' h

theorem httpParseHost_spec (fa : Bool) (hset : u.fieldSet .host = true)
    (hdata : u.fieldData .host = ⟨UInt16.ofNat front.length, UInt16.ofNat srv.length⟩) (hbuf : buf = front ++ (srv ++ back))
    (hlen : buf.length < 2 ^ 16) :
    ∃ r, httpParseHost buf u fa = .ok r ∧ ∀ u', r = some u' ↔
      ∃ server : Server, srv = server.render ∧ server.Ok ∧ server.userinfo.isSome = fa ∧ server.mark (u.resetLen .host) front.length = u' := by
  have hlens : buf.length = front.length + (srv.length + back.length) := by rw [hbuf, List.length_append, List.length_append]
  have hload : load buf front.length srv.length = .ok srv := by
    rw [load, if_pos (by omega), hbuf, slice, List.drop_left, List.take_left]
  have hunset : HostUnset (u.resetLen .host) := by
    exact ⟨hset, by simp [HttpParserUrl.resetLen]⟩
  have hfield : (u.fieldData .host).off.toNat = front.length ∧ (u.fieldData .host).len.toNat = srv.length := by
    rw [hdata]
    exact ⟨toNat_ofNat (by omega), toNat_ofNat (by omega)⟩
  simp only [← hostReads_server hunset]
  unfold httpParseHost
  dsimp only
  rw [hfield.1, hfield.2, hload, ok_bind]
  cases hscan : scan HostScan.round srv front.length ⟨if fa = true then .userinfoStart else .hostStart, u.resetLen .host⟩ with
  | none =>
    refine ⟨none, rfl, fun u' => ⟨(fun h => by cases h), ?_⟩⟩
    rintro ⟨t, ht, -⟩
    rw [hscan] at ht
    cases ht
  | some t =>
    refine ⟨_, rfl, fun u' => ?_⟩
    unfold HostReads
    rw [hscan]
    split_ifs with hends
    · refine ⟨fun h => ⟨t, rfl, hends, Option.some.inj h⟩, ?_⟩
      rintro ⟨t', ht, -, hu⟩
      cases ht
      rw [hu]
    · refine ⟨(fun h => by cases h), ?_⟩
      rintro ⟨t', ht, he, -⟩
      cases ht
      exact absurd he hends

/-- The digits of a port, behind which no digit follows -/
theorem strtoul_port {w : List Byte} (hw : ∀ c ∈ w, isNum c = true) (hback : ∀ a ∈ back.head?, isNum a = false) :
    strtoul (w ++ back) = min (portNumber w) (2 ^ 64 - 1) := by
  have htake : (w ++ back).takeWhile isNum = w := by
    rw [List.takeWhile_append_of_pos hw]
    cases back with
    | nil => exact List.append_nil w
    | cons a back => rw [List.takeWhile_cons_of_neg (by rw [hback a rfl]; nofun), List.append_nil]
  rw [strtoul, htake]
  rfl

theorem AfterServer.not_digit {path : List Byte} {tail : UrlTail} (h : AfterServer path tail) :
    ∀ a ∈ (path ++ tail.render).head?, isNum a = false := by
  intro a ha
  cases path with
  | cons c path =>
    cases ha
    rw [h.slash _ rfl]
    decide
  | nil =>
    obtain ⟨q, fr⟩ := tail
    cases q with
    | some l =>
      cases ha
      decide
    | none =>
      have hfr : fr = none := h.fragment rfl rfl
      subst hfr
      cases ha

theorem onlyHostPort_iff : u.onlyHostPort = true ↔ ∀ uf, u.fieldSet uf = decide (uf = .host ∨ uf = .port) := by
  unfold HttpParserUrl.onlyHostPort
  rw [List.all_eq_true]
  constructor
  · intro h uf
    have huf := h uf (by cases uf <;> simp)
    rw [beq_iff_eq] at huf
    rw [huf]
    cases uf <;> rfl
  · intro h uf _
    rw [h uf]
    cases uf <;> rfl

/-- The checks, where the fields of `u` are those of the URL -/
theorem checkUrl_server (schema : Option (List Byte)) {server : Server} (path : List Byte) (tail : UrlTail)
    (hserver : server.Ok) (hafter : AfterServer path tail) (hu : ∀ uf, u.fieldSet uf = false)
    (hbuf : buf = (Url.ofServer schema server path tail).text Server.render) (hlen : buf.length < 2 ^ 16) :
    checkUrl buf isConnect (server.mark (((Url.ofServer schema server path tail).first Server.render u).resetLen .host) (renderSchema schema).length) =
        some u' ↔
      (isConnect = true → ∀ uf, (Url.ofServer schema server path tail).field uf ≠ [] ↔ uf = .host ∨ uf = .port) ∧
        portNumber (server.port.getD []) ≤ 0xffff ∧ (Url.ofServer schema server path tail).result u = u' := by
  obtain ⟨port, hresult⟩ := Url.result_ofServer (u := u) schema server path tail
  have hshown (uf : UrlField) := Url.result_shown (Url.ofServer schema server path tail) uf hu fun s hs => by
    cases hs
    exact hserver.text_ne_nil
  rw [← hbuf, hresult] at hshown
  have hconnect : (isConnect && !(server.mark (((Url.ofServer schema server path tail).first Server.render u).resetLen .host)
      (renderSchema schema).length).onlyHostPort) = false ↔
      (isConnect = true → ∀ uf, (Url.ofServer schema server path tail).field uf ≠ [] ↔ uf = .host ∨ uf = .port) := by
    have honly := onlyHostPort_iff (u := server.mark (((Url.ofServer schema server path tail).first Server.render u).resetLen .host)
      (renderSchema schema).length)
    rw [Bool.and_eq_false_iff, Bool.not_eq_false', honly, ← Bool.not_eq_true, ← imp_iff_not_or]
    refine imp_congr_right fun _ => forall_congr' fun uf => ?_
    rw [show (server.mark _ _).fieldSet uf = _ from (hshown uf).set, decide_eq_decide, Ne, List.length_eq_zero_iff]
  have hport := (hshown .port).set
  unfold checkUrl
  rw [← hconnect]
  cases hc : isConnect && !(server.mark (((Url.ofServer schema server path tail).first Server.render u).resetLen .host)
      (renderSchema schema).length).onlyHostPort with
  | true =>
    rw [if_pos rfl]
    exact ⟨(fun h => by cases h), fun h => absurd h.1 Bool.noConfusion⟩
  | false =>
    rw [if_neg Bool.false_ne_true, show (server.mark _ _).fieldSet .port = _ from hport, and_iff_right rfl]
    cases hp : server.port with
    | none =>
      have hfield : (Url.ofServer schema server path tail).field .port = [] := by simp [Url.field, Url.server?, hp]
      rw [hfield, if_neg (by simp), Url.result, hp, Option.some.injEq]
      exact (and_iff_right (Nat.zero_le _)).symm
    | some l =>
      obtain ⟨hl, hdigits⟩ := hserver.port l hp
      have hlength : l.length ≠ 0 := fun hz => hl (List.eq_nil_of_length_eq_zero hz)
      have hfield : (Url.ofServer schema server path tail).field .port = l := by simp [Url.field, Url.server?, hp]
      have hfront : buf = (renderSchema schema ++ (renderUserinfo server.userinfo ++ (server.host.render ++ [chr ':']))) ++ (l ++ (path ++ tail.render)) := by
        rw [hbuf, Url.text, Server.render, hp, renderPort]
        simp
      have hdata : ((server.mark (((Url.ofServer schema server path tail).first Server.render u).resetLen .host)
          (renderSchema schema).length).fieldData .port).off.toNat =
          (renderSchema schema ++ (renderUserinfo server.userinfo ++ (server.host.render ++ [chr ':']))).length := by
        have hfits := congrArg List.length hfront
        rw [List.length_append] at hfits
        rw [Server.mark, hp, HttpParserUrl.markPort?, HttpParserUrl.mark_fieldData_self hlength, toNat_ofNat]
        · simp
          omega
        · simp at hfits ⊢
          omega
      rw [hfield, if_pos (by simpa using hl), hdata, hfront, List.drop_left, strtoul_port hdigits hafter.not_digit, Url.result, hp,
        Option.getD_some]
      dsimp only
      split_ifs with hbig
      · refine ⟨(fun h => by cases h), fun h => absurd h.1 ?_⟩
        omega
      · have hmin : min (portNumber l) (2 ^ 64 - 1) = portNumber l := by omega
        rw [hmin, Option.some.injEq]
        exact (and_iff_right (by omega)).symm

namespace Url

/-- The URL before the server is looked at -/
def raw : Url Server → Url (List Byte)
  | empty => .empty
  | ofPath path tail => .ofPath path tail
  | ofServer schema server path tail => .ofServer schema server.render path tail

theorem raw_text (url : Url Server) : url.raw.text id = url.text Server.render := by
  cases url <;> rfl

theorem raw_first (url : Url Server) : url.raw.first id u = url.first Server.render u := by
  cases url <;> rfl

theorem raw_foundAt (url : Url Server) : url.raw.foundAt id = url.foundAt Server.render := by
  cases url <;> rfl

theorem raw_parts {url : Url Server} (h : url.Parts Server.Ok isConnect) : url.raw.Parts (Follows serverFollows) isConnect := by
  cases url with
  | empty => exact h
  | ofPath path tail => exact h
  | ofServer schema server path tail => exact ⟨h.1, h.2.1.follows, h.2.2⟩

/-- A URL without a server has neither a host nor a schema. -/
theorem first_fieldSet_of_none {A : Type} (f : A → List Byte) (url : Url A) (hu : ∀ uf, u.fieldSet uf = false) (h : url.server? = none) :
    (url.first f u).fieldSet .schema = false ∧ (url.first f u).fieldSet .host = false ∧ (url.first f u).fieldSet .port = false := by
  cases url with
  | empty => exact ⟨hu _, hu _, hu _⟩
  | ofPath path tail =>
    simp only [first, UrlTail.mark, HttpParserUrl.markQuery?_eq, HttpParserUrl.markFragment?_eq, HttpParserUrl.mark_fieldSet, hu]
    simp
  | ofServer => cases h

theorem first_fieldSet {A : Type} (f : A → List Byte) (schema : Option (List Byte)) (server : A) (path : List Byte) (tail : UrlTail)
    (hu : ∀ uf, u.fieldSet uf = false) :
    ((ofServer schema server path tail).first f u).fieldSet .schema = decide ((schema.getD []).length ≠ 0) ∧
      ((ofServer schema server path tail).first f u).fieldSet .host = decide ((f server).length ≠ 0) := by
  simp only [first, UrlTail.mark, HttpParserUrl.markQuery?_eq, HttpParserUrl.markFragment?_eq, HttpParserUrl.mark_fieldSet, hu]
  simp

theorem first_host {A : Type} {f : A → List Byte} {schema : Option (List Byte)} {server : A} {path : List Byte} {tail : UrlTail}
    (h : (f server).length ≠ 0) : ((ofServer schema server path tail).first f u).fieldData .host =
      ⟨UInt16.ofNat (renderSchema schema).length, UInt16.ofNat (f server).length⟩ := by
  simp only [first, UrlTail.mark, HttpParserUrl.markQuery?_eq, HttpParserUrl.markFragment?_eq, HttpParserUrl.mark_fieldData]
  simp [h]

end Url

/-- The state in front of the first character -/
def opening (isConnect : Bool) (u : HttpParserUrl) : UrlScan :=
  ⟨if isConnect then .reqServerStart else .reqSpacesBeforeUrl, none, false, { u with port := 0, fieldSet := fun _ => false }⟩

theorem httpParserParseUrl_server {t : UrlScan} (schema : Option (List Byte)) {path : List Byte} {tail : UrlTail}
    (hscan : scan UrlScan.round buf 0 (opening isConnect u) = some t)
    (hu : (Url.ofServer schema srv path tail).first id (opening isConnect u).u = t.u)
    (hbuf : buf = (Url.ofServer schema srv path tail).text id) (hsrv : srv ≠ []) (hlen : buf.length < 2 ^ 16) :
    ∃ r, httpParserParseUrl buf isConnect u = .ok r ∧ ∀ u', r = some u' ↔ ∃ server : Server, srv = server.render ∧ server.Ok ∧
      server.userinfo.isSome = t.foundAt ∧ checkUrl buf isConnect (server.mark (t.u.resetLen .host) (renderSchema schema).length) = some u' := by
  have hne : srv.length ≠ 0 := fun hz => hsrv (List.eq_nil_of_length_eq_zero hz)
  have hhost : t.u.fieldSet .host = true := by
    rw [← hu, (Url.first_fieldSet _ _ _ _ _ fun _ => rfl).2]
    exact decide_eq_true hne
  obtain ⟨r, hr, hiff⟩ := httpParseHost_spec t.foundAt hhost (by rw [← hu]; exact Url.first_host hne) hbuf hlen
  unfold httpParserParseUrl
  unfold opening at hscan
  dsimp only
  rw [hscan]
  dsimp only
  rw [hhost, if_neg (by simp), if_pos rfl, hr, ok_bind]
  cases r with
  | none =>
    refine ⟨none, rfl, fun u' => ⟨nofun, ?_⟩⟩
    rintro ⟨server, hs, hok, hfa, -⟩
    exact absurd ((hiff _).2 ⟨server, hs, hok, hfa, rfl⟩) nofun
  | some v =>
    obtain ⟨server, hs, hok, hfa, hv⟩ := (hiff v).1 rfl
    refine ⟨_, rfl, fun u' => ⟨fun h => ⟨server, hs, hok, hfa, by rw [hv]; exact h⟩, ?_⟩⟩
    rintro ⟨server', hs', hok', hfa', h⟩
    cases (hiff _).2 ⟨server', hs', hok', hfa', rfl⟩
    exact h

theorem httpParserParseUrl_none {t : UrlScan} (hscan : scan UrlScan.round buf 0 (opening isConnect u) = some t)
    (hhost : t.u.fieldSet .host = false) :
    httpParserParseUrl buf isConnect u = .ok (if t.u.fieldSet .schema = true then none else checkUrl buf isConnect t.u) := by
  unfold httpParserParseUrl
  unfold opening at hscan
  dsimp only
  rw [hscan]
  dsimp only
  rw [hhost]
  cases t.u.fieldSet .schema <;> rfl

/-- A URL is accepted, and its fields are shown. -/
theorem httpParserParseUrl_accepted {url : Url Server} (hurl : url.Accepted isConnect) (hbuf : buf = url.text Server.render)
    (hlen : buf.length < 2 ^ 16) : httpParserParseUrl buf isConnect u = .ok (some (url.result (opening isConnect u).u)) := by
  obtain ⟨hparts, hport, hconnect⟩ := hurl
  obtain ⟨t, hscan, hu, hat⟩ := (reads_url (u := (opening isConnect u).u)).2
    (.inl ⟨url.raw, Url.raw_parts hparts, hbuf.trans url.raw_text.symm, url.raw_first, url.raw_foundAt⟩)
  cases hserver : url.server? with
  | none =>
    obtain ⟨hschema, hhost, hno⟩ := Url.first_fieldSet_of_none (u := (opening isConnect u).u) Server.render url (fun _ => rfl) hserver
    rw [← hu] at hschema hhost hno
    have hfalse : isConnect = false := by
      cases url with
      | empty => exact hparts
      | ofPath => exact hparts.1
      | ofServer => cases hserver
    have hresult : url.result (opening isConnect u).u = t.u := by
      rw [hu]
      cases url with
      | empty => rfl
      | ofPath => rfl
      | ofServer => cases hserver
    rw [httpParserParseUrl_none hscan hhost, hschema, if_neg nofun, checkUrl, hfalse, if_neg (by simp), hno, if_neg nofun, ← hfalse, hresult]
  | some server =>
    cases url with
    | empty => cases hserver
    | ofPath => cases hserver
    | ofServer schema server path tail =>
      obtain ⟨hschema, hok, hafter⟩ := hparts
      have hne : server.render ≠ [] := by
        intro hnil
        obtain ⟨lead, back, hrender, -⟩ := server.host.render_eq
        rw [Server.render, hrender] at hnil
        exact hok.text_ne_nil (by simp_all)
      obtain ⟨r, hr, hiff⟩ := httpParserParseUrl_server (u := u) schema hscan hu.symm hbuf hne hlen
      rw [hr, (hiff _).2 ⟨server, rfl, hok, ?_, ?_⟩]
      · rw [hat, Url.foundAt, Bool.eq_iff_iff, decide_eq_true_eq, hok.mem_at]
      · rw [hu]
        exact (checkUrl_server schema path tail hok hafter (fun _ => rfl) hbuf hlen).2 ⟨hconnect, hport, rfl⟩

/-- `http_parser_parse_url` reads nothing outside of the URL, and what it accepts is a URL. -/
theorem httpParserParseUrl_sound (isConnect : Bool) (u : HttpParserUrl) (hlen : buf.length < 2 ^ 16) :
    ∃ r, httpParserParseUrl buf isConnect u = .ok r ∧ (r.isSome = true → ∃ url : Url Server, url.Accepted isConnect ∧ buf = url.text Server.render) := by
  cases hscan : scan UrlScan.round buf 0 (opening isConnect u) with
  | none =>
    refine ⟨none, ?_, nofun⟩
    unfold httpParserParseUrl
    unfold opening at hscan
    dsimp only
    rw [hscan]
    rfl
  | some t =>
    rcases (reads_url (u := (opening isConnect u).u)).1 ⟨t, hscan, rfl, rfl⟩ with
      ⟨raw, hparts, hbuf, hu, hat⟩ | ⟨-, schema, rest, -, hne, -, -, hu, -⟩
    · cases raw with
      | empty =>
        obtain ⟨hschema, hhost, hno⟩ := Url.first_fieldSet_of_none (u := (opening isConnect u).u) id Url.empty (fun _ => rfl) rfl
        rw [hu] at hschema hhost hno
        exact ⟨_, httpParserParseUrl_none hscan hhost, fun _ => ⟨.empty, ⟨hparts, Nat.zero_le _, fun h => absurd (hparts.symm.trans h) nofun⟩, hbuf⟩⟩
      | ofPath path tail =>
        obtain ⟨hschema, hhost, hno⟩ := Url.first_fieldSet_of_none (u := (opening isConnect u).u) id (Url.ofPath path tail) (fun _ => rfl) rfl
        rw [hu] at hschema hhost hno
        exact ⟨_, httpParserParseUrl_none hscan hhost, fun _ =>
          ⟨.ofPath path tail, ⟨hparts, Nat.zero_le _, fun h => absurd (hparts.1.symm.trans h) nofun⟩, hbuf⟩⟩
      | ofServer schema srv path tail =>
        obtain ⟨hschema, -, hafter⟩ := hparts
        obtain ⟨hset, hhost⟩ := Url.first_fieldSet (u := (opening isConnect u).u) id schema srv path tail fun _ => rfl
        rw [hu] at hset hhost
        by_cases hsrv : srv = []
        · subst hsrv
          have hhost : t.u.fieldSet .host = false := hhost
          refine ⟨_, httpParserParseUrl_none hscan hhost, fun hsome => ?_⟩
          exfalso
          cases isConnect with
          | true =>
            have hnot : t.u.onlyHostPort = false := by
              rw [← Bool.not_eq_true, onlyHostPort_iff]
              intro h
              rw [h .host] at hhost
              cases hhost
            have hnone : checkUrl buf true t.u = none := by
              rw [checkUrl, hnot]
              rfl
            rw [hnone, ite_self] at hsome
            cases hsome
          | false =>
            obtain ⟨l, rfl, hl, -⟩ := Url.schemaOk_false.1 hschema
            rw [if_pos (hset.trans (decide_eq_true fun hz => hl (List.eq_nil_of_length_eq_zero hz)))] at hsome
            cases hsome
        · obtain ⟨r, hr, hiff⟩ := httpParserParseUrl_server schema hscan hu hbuf hsrv hlen
          refine ⟨r, hr, fun hsome => ?_⟩
          obtain ⟨u', hu'⟩ := Option.isSome_iff_exists.1 hsome
          obtain ⟨server, rfl, hok, -, hcheck⟩ := (hiff u').1 hu'
          rw [← hu] at hcheck
          obtain ⟨hconnect, hport, -⟩ := (checkUrl_server schema path tail hok hafter (fun _ => rfl) hbuf hlen).1 hcheck
          exact ⟨.ofServer schema server path tail, ⟨⟨hschema, hok, hafter⟩, hport, hconnect⟩, hbuf⟩
    · have hhost : t.u.fieldSet .host = false := by
        rw [← hu, HttpParserUrl.mark_fieldSet]
        rfl
      have hset : t.u.fieldSet .schema = true := by
        rw [← hu, HttpParserUrl.mark_fieldSet]
        simp [hne]
      refine ⟨_, httpParserParseUrl_none hscan hhost, fun hsome => ?_⟩
      rw [if_pos hset] at hsome
      cases hsome

/-! ### `parse_url` -/

/-- A field of the URL, where it has it, and otherwise the old one -/
def filled (old : Text.LenCstr) (w : List Byte) : List Byte := if w = [] then old.cstr else w

/-- The fields that `parse_url` gives out; the port of a URL without one is 80. -/
structure Url.Fills (url : Url Server) (old new : UrlFields) : Prop where
  schema : new.schema.cstr = filled old.schema (url.field .schema)
  host : new.host.cstr = filled old.host (url.field .host)
  path : new.path.cstr = filled old.path (url.field .path)
  query : new.query.cstr = filled old.query (url.field .query)
  fragment : new.fragment.cstr = filled old.fragment (url.field .fragment)
  userinfo : new.userinfo.cstr = filled old.userinfo (url.field .userinfo)
  port : new.port = if url.field .port = [] then 80 else UInt16.ofNat (portNumber (url.field .port))

theorem Url.Fills.unique {url : Url Server} {old new new' : UrlFields} (h : url.Fills old new) (h' : url.Fills old new') : new = new' := by
  obtain ⟨schema, host, path, query, fragment, userinfo, port⟩ := new
  obtain ⟨schema', host', path', query', fragment', userinfo', port'⟩ := new'
  rw [UrlFields.mk.injEq]
  exact ⟨Text.LenCstr.ext (h.schema.trans h'.schema.symm), Text.LenCstr.ext (h.host.trans h'.host.symm), Text.LenCstr.ext (h.path.trans h'.path.symm),
    Text.LenCstr.ext (h.query.trans h'.query.symm), Text.LenCstr.ext (h.fragment.trans h'.fragment.symm),
    Text.LenCstr.ext (h.userinfo.trans h'.userinfo.symm), h.port.trans h'.port.symm⟩

theorem urlField_spec {url : Text.LenCstr} (old : Text.LenCstr) {uf : UrlField} {w : List Byte} (h : Shown url.cstr u uf w) (hlen : url.len < 2 ^ 16) :
    ∃ s, urlField url u uf old = .ok s ∧ s.cstr = filled old w := by
  unfold urlField
  rw [h.set]
  by_cases hw : w.length = 0
  · have hnil : w = [] := List.eq_nil_of_length_eq_zero hw
    subst hnil
    exact ⟨old, rfl, rfl⟩
  · have hne : w ≠ [] := fun hnil => hw (by rw [hnil]; rfl)
    obtain ⟨front, back, hbuf, hdata⟩ := h.data hw
    have hlens : url.len = front.length + (w.length + back.length) := by
      rw [Text.LenCstr.len, hbuf, List.length_append, List.length_append]
    have hnoNul : 0 ∉ w := fun hz => url.noNul (by rw [hbuf]; simp [hz])
    refine ⟨⟨w, hnoNul, by omega⟩, ?_, (if_neg hne).symm⟩
    rw [if_pos (decide_eq_true hw), hdata, toNat_ofNat (by omega), toNat_ofNat (by omega), Text.LenCstr.substr_eq_ok (by omega), hbuf,
      List.drop_left, List.take_left]

theorem Url.result_port {url : Url Server} (hu : ∀ uf, u.fieldSet uf = false) (hok : ∀ server ∈ url.server?, server.host.text ≠ [] ∧ PortOk server.port) :
    (if (url.result u).fieldSet .port = true then (url.result u).port else 80) =
      if url.field .port = [] then 80 else UInt16.ofNat (portNumber (url.field .port)) := by
  rw [url.result_fieldSet hu fun server hs => (hok server hs).1]
  by_cases hnil : url.field .port = []
  · rw [hnil]
    rfl
  · have hlen : (url.field .port).length ≠ 0 := fun hz => hnil (List.eq_nil_of_length_eq_zero hz)
    rw [if_pos (decide_eq_true hlen), if_neg hnil]
    cases url with
    | empty => exact absurd rfl hnil
    | ofPath => exact absurd rfl hnil
    | ofServer schema server path tail =>
      cases hp : server.port with
      | none => exact absurd (by simp [field, server?, hp]) hnil
      | some l =>
        rw [result, hp]
        simp [field, server?, hp]

/-- What `parse_url` accepts are the URLs, and it gives their fields out; of what it does not accept it says so, and leaves
`urlfields` alone. -/
theorem parseUrl_iff {url : Text.LenCstr} (old : UrlFields) (isConnect : Bool) (u : HttpParserUrl) (hlen : url.len < 2 ^ 16) :
    (∀ new, parseUrl url old isConnect u = .ok (ok, new) ↔
      ∃ p : Url Server, p.Accepted isConnect ∧ url.cstr = p.text Server.render ∧ p.Fills old new) ∧
    ((∃ new, parseUrl url old isConnect u = .ok (ok, new)) ∨ parseUrl url old isConnect u = .ok (-1, old)) := by
  -- a URL that is accepted is given out
  have haccepted (p : Url Server) (hp : p.Accepted isConnect) (hbuf : url.cstr = p.text Server.render) :
      ∃ new, parseUrl url old isConnect u = .ok (ok, new) ∧ p.Fills old new := by
    have hok : ∀ server ∈ p.server?, server.host.text ≠ [] ∧ PortOk server.port := by
      intro server hs
      cases p with
      | empty => cases hs
      | ofPath => cases hs
      | ofServer =>
        cases hs
        exact ⟨hp.1.2.1.text_ne_nil, hp.1.2.1.port⟩
    have hshown (uf : UrlField) := Url.result_shown (u := (opening isConnect u).u) p uf (fun _ => rfl) fun server hs => (hok server hs).1
    rw [← hbuf] at hshown
    obtain ⟨schema, hschema, hschema'⟩ := urlField_spec old.schema (hshown .schema) hlen
    obtain ⟨host, hhost, hhost'⟩ := urlField_spec old.host (hshown .host) hlen
    obtain ⟨path, hpath, hpath'⟩ := urlField_spec old.path (hshown .path) hlen
    obtain ⟨query, hquery, hquery'⟩ := urlField_spec old.query (hshown .query) hlen
    obtain ⟨userinfo, huserinfo, huserinfo'⟩ := urlField_spec old.userinfo (hshown .userinfo) hlen
    obtain ⟨fragment, hfragment, hfragment'⟩ := urlField_spec old.fragment (hshown .fragment) hlen
    refine ⟨⟨schema, host, path, query, fragment, userinfo, _⟩, ?_, ⟨hschema', hhost', hpath', hquery', hfragment', huserinfo',
      Url.result_port (u := (opening isConnect u).u) (fun _ => rfl) hok⟩⟩
    unfold parseUrl
    rw [httpParserParseUrl_accepted hp hbuf hlen, ok_bind]
    dsimp only
    rw [hschema, ok_bind, hhost, ok_bind, hpath, ok_bind, hquery, ok_bind, huserinfo, ok_bind, hfragment, ok_bind]
    rfl
  obtain ⟨r, hr, hsound⟩ := httpParserParseUrl_sound isConnect u hlen
  cases r with
  | none =>
    have hrefused : parseUrl url old isConnect u = .ok (-1, old) := by
      unfold parseUrl
      rw [hr]
      rfl
    refine ⟨fun new => ⟨fun h => ?_, ?_⟩, .inr hrefused⟩
    · rw [hrefused] at h
      cases h
    · rintro ⟨p, hp, hbuf, -⟩
      rw [httpParserParseUrl_accepted hp hbuf hlen] at hr
      cases hr
  | some v =>
    obtain ⟨p, hp, hbuf⟩ := hsound rfl
    obtain ⟨new', hnew', hfills'⟩ := haccepted p hp hbuf
    refine ⟨fun new => ⟨fun h => ?_, ?_⟩, .inl ⟨new', hnew'⟩⟩
    · rw [hnew'] at h
      cases h
      exact ⟨p, hp, hbuf, hfills'⟩
    · rintro ⟨q, hq, hbuf', hfills⟩
      obtain ⟨new'', hnew'', hfills''⟩ := haccepted q hq hbuf'
      rw [hnew'', hfills.unique hfills'']

end

/-- `http://u@h:81/p?q#f` -/
def urlOfAll : List Byte :=
  ['h', 't', 't', 'p', ':', '/', '/', 'u', '@', 'h', ':', '8', '1', '/', 'p', '?', 'q', '#', 'f'].map chr

theorem parseUrl_iff_all : ∃ (url : Text.LenCstr) (new : UrlFields), url.cstr = urlOfAll ∧ new.host.cstr = [chr 'h'] ∧ new.port = 81 ∧
    ∃ p : Url Server, p.Accepted false ∧ urlOfAll = p.text Server.render ∧ p.Fills ⟨.empty, .empty, .empty, .empty, .empty, .empty, 0⟩ new := by
  let url : Text.LenCstr := ⟨urlOfAll, by decide, by decide +kernel⟩
  have hlen : url.len < 2 ^ 16 := by decide
  let u : HttpParserUrl := ⟨fun _ => true, 1, fun _ => ⟨1, 1⟩⟩
  have hiff := parseUrl_iff ⟨.empty, .empty, .empty, .empty, .empty, .empty, 0⟩ false u hlen
  have hparse : (match parseUrl url ⟨.empty, .empty, .empty, .empty, .empty, .empty, 0⟩ false u with
      | .ok (rt, new) => rt == ok && new.host.cstr == [chr 'h'] && new.port == 81
      | .error _ => false) = true := by decide
  cases hr : parseUrl url ⟨.empty, .empty, .empty, .empty, .empty, .empty, 0⟩ false u with
  | error e =>
    rw [hr] at hparse
    cases hparse
  | ok r =>
    obtain ⟨rt, new⟩ := r
    rw [hr] at hparse
    simp only [Bool.and_eq_true, beq_iff_eq] at hparse
    obtain ⟨⟨rfl, hhost⟩, hport⟩ := hparse
    exact ⟨url, new, rfl, hhost, hport, (hiff.1 new).1 hr⟩

end Wawo.HttpParser
