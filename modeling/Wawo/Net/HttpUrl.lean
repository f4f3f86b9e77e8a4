import Wawo.Lib.Scan
import Wawo.Text.LenCstr

/-!
# The fields of a URL (`http_parser.c`, `protocol/http_utils.cpp`)

`http_parser_parse_url` goes over the URL twice: `parse_url_char` tells the schema, the server, the path, the query
and the fragment apart, and `http_parse_host_char` the user, the host and the port within the server. Where a field
is, is kept in a `uint16_t`. The bytes of an `http_parser_url` that are not set are whatever they were.
-/

namespace Wawo.HttpParser

open Lts Memory

/-! ### Classes of characters -/

/-- A character of the source -/
def chr (c : Char) : Byte := c.toNat.toUInt8

/-- `LOWER` -/
def lower (c : Byte) : Byte := c ||| 0x20

def isAlpha (c : Byte) : Bool := chr 'a' ≤ lower c && lower c ≤ chr 'z'

def isNum (c : Byte) : Bool := chr '0' ≤ c && c ≤ chr '9'

def isAlphanum (c : Byte) : Bool := isAlpha c || isNum c

def isHex (c : Byte) : Bool := isNum c || (chr 'a' ≤ lower c && lower c ≤ chr 'f')

def isMark (c : Byte) : Bool :=
  c == chr '-' || c == chr '_' || c == chr '.' || c == chr '!' || c == chr '~' || c == chr '*' || c == 39 || c == chr '(' || c == chr ')'

def isUserinfoChar (c : Byte) : Bool :=
  isAlphanum c || isMark c || c == chr '%' || c == chr ';' || c == chr ':' || c == chr '&' || c == chr '=' || c == chr '+' ||
    c == chr '$' || c == chr ','

/-- `normal_url_char`, where the parser is strict; the rest of the 32 bytes is zero. -/
def normalUrlChar : List Nat := [0, 0, 0, 0, 246, 255, 255, 127, 255, 255, 255, 255, 255, 255, 255, 127]

/-- `IS_URL_CHAR` -/
def isUrlChar (c : Byte) : Bool := (normalUrlChar.getD (c.toNat / 8) 0).testBit (c.toNat % 8)

def isHostChar (c : Byte) : Bool := isAlphanum c || c == chr '.' || c == chr '-'

/-! ### The URL -/

/-- The states of `enum state` that a URL has -/
inductive UrlState
  | dead
  | reqSpacesBeforeUrl
  | reqSchema
  | reqSchemaSlash
  | reqSchemaSlashSlash
  | reqServerStart
  | reqServer
  | reqServerWithAt
  | reqPath
  | reqQueryStringStart
  | reqQueryString
  | reqFragmentStart
  | reqFragment
deriving DecidableEq

/-- The cases that `s_req_server_with_at` falls through to -/
def parseServerChar (ch : Byte) : UrlState :=
  if ch = chr '/' then .reqPath
  else if ch = chr '?' then .reqQueryStringStart
  else if ch = chr '@' then .reqServerWithAt
  else if isUserinfoChar ch || ch == chr '[' || ch == chr ']' then .reqServer
  else .dead

def parseUrlChar (s : UrlState) (ch : Byte) : UrlState :=
  if ch = chr ' ' ∨ ch = 13 ∨ ch = 10 then .dead
  else if ch = 9 ∨ ch = 12 then .dead
  else
    match s with
    | .reqSpacesBeforeUrl =>
      if ch = chr '/' ∨ ch = chr '*' then .reqPath else if isAlpha ch then .reqSchema else .dead
    | .reqSchema => if isAlpha ch then .reqSchema else if ch = chr ':' then .reqSchemaSlash else .dead
    | .reqSchemaSlash => if ch = chr '/' then .reqSchemaSlashSlash else .dead
    | .reqSchemaSlashSlash => if ch = chr '/' then .reqServerStart else .dead
    | .reqServerWithAt => if ch = chr '@' then .dead else parseServerChar ch
    | .reqServerStart | .reqServer => parseServerChar ch
    | .reqPath =>
      if isUrlChar ch then .reqPath
      else if ch = chr '?' then .reqQueryStringStart
      else if ch = chr '#' then .reqFragmentStart
      else .dead
    | .reqQueryStringStart | .reqQueryString =>
      if isUrlChar ch then .reqQueryString
      else if ch = chr '?' then .reqQueryString
      else if ch = chr '#' then .reqFragmentStart
      else .dead
    | .reqFragmentStart =>
      if isUrlChar ch then .reqFragment
      else if ch = chr '?' then .reqFragment
      else if ch = chr '#' then .reqFragmentStart
      else .dead
    | .reqFragment => if isUrlChar ch then .reqFragment else if ch = chr '?' ∨ ch = chr '#' then .reqFragment else .dead
    | .dead => .dead

/-- `http_parser_url_fields` -/
inductive UrlField
  | schema
  | host
  | port
  | path
  | query
  | fragment
  | userinfo
deriving DecidableEq

/-- An entry of `field_data` -/
structure FieldData where
  off : UInt16
  len : UInt16
deriving DecidableEq

structure HttpParserUrl where
  fieldSet : UrlField → Bool -- `field_set`, bit by bit
  port : UInt16
  fieldData : UrlField → FieldData

namespace HttpParserUrl

variable (u : HttpParserUrl) (uf : UrlField)

/-- `field_data[uf].len++` -/
def incLen : HttpParserUrl :=
  { u with fieldData := Function.update u.fieldData uf { u.fieldData uf with len := (u.fieldData uf).len + 1 } }

/-- `field_data[uf].len = 0` -/
def resetLen : HttpParserUrl := { u with fieldData := Function.update u.fieldData uf { u.fieldData uf with len := 0 } }

/-- `field_data[uf].off = p - buf` -/
def setOff (p : Nat) : HttpParserUrl :=
  { u with fieldData := Function.update u.fieldData uf { u.fieldData uf with off := UInt16.ofNat p } }

/-- `field_set |= (1 << uf)` -/
def set : HttpParserUrl := { u with fieldSet := Function.update u.fieldSet uf true }

/-- Whether `field_set` is `(1 << UF_HOST)|(1 << UF_PORT)` -/
def onlyHostPort : Bool :=
  [.schema, .host, .port, .path, .query, .fragment, .userinfo].all fun uf => u.fieldSet uf == (uf == .host || uf == .port)

end HttpParserUrl

/-- The variables of the loop of `http_parser_parse_url` -/
structure UrlScan where
  s : UrlState
  oldUf : Option UrlField -- `UF_MAX` is no field
  foundAt : Bool
  u : HttpParserUrl

namespace UrlScan

/-- A character of the field `uf`, which stands at `p` -/
def put (t : UrlScan) (s : UrlState) (uf : UrlField) (p : Nat) : UrlScan :=
  if t.oldUf = some uf then { t with s := s, u := t.u.incLen uf }
  else { t with s := s, oldUf := some uf, u := (((t.u.setOff uf p).resetLen uf).incLen uf).set uf }

/-- What a round does in the state that the character has led to -/
def enter (t : UrlScan) (p : Nat) : UrlState → Option UrlScan
  | .dead | .reqSpacesBeforeUrl => none
  | .reqSchemaSlash => some { t with s := .reqSchemaSlash }
  | .reqSchemaSlashSlash => some { t with s := .reqSchemaSlashSlash }
  | .reqServerStart => some { t with s := .reqServerStart }
  | .reqQueryStringStart => some { t with s := .reqQueryStringStart }
  | .reqFragmentStart => some { t with s := .reqFragmentStart }
  | .reqSchema => some (t.put .reqSchema .schema p)
  | .reqServerWithAt => some ({ t with foundAt := true }.put .reqServerWithAt .host p)
  | .reqServer => some (t.put .reqServer .host p)
  | .reqPath => some (t.put .reqPath .path p)
  | .reqQueryString => some (t.put .reqQueryString .query p)
  | .reqFragment => some (t.put .reqFragment .fragment p)

/-- A round of the loop -/
def round (p : Nat) (ch : Byte) (t : UrlScan) : Option UrlScan := t.enter p (parseUrlChar t.s ch)

end UrlScan

/-! ### The server -/

inductive HttpHostState
  | dead
  | userinfoStart
  | userinfo
  | hostStart
  | hostV6Start
  | host
  | hostV6
  | hostV6End
  | hostV6ZoneStart
  | hostV6Zone
  | hostPortStart
  | hostPort
deriving DecidableEq

def isZoneChar (ch : Byte) : Bool :=
  isAlphanum ch || ch == chr '%' || ch == chr '.' || ch == chr '-' || ch == chr '_' || ch == chr '~'

def isV6Char (ch : Byte) : Bool := isHex ch || ch == chr ':' || ch == chr '.'

def httpParseHostChar (s : HttpHostState) (ch : Byte) : HttpHostState :=
  match s with
  | .userinfo | .userinfoStart => if ch = chr '@' then .hostStart else if isUserinfoChar ch then .userinfo else .dead
  | .hostStart => if ch = chr '[' then .hostV6Start else if isHostChar ch then .host else .dead
  | .host => if isHostChar ch then .host else if ch = chr ':' then .hostPortStart else .dead
  | .hostV6End => if ch = chr ':' then .hostPortStart else .dead
  | .hostV6 =>
    if ch = chr ']' then .hostV6End
    else if isV6Char ch then .hostV6
    else if ch = chr '%' then .hostV6ZoneStart
    else .dead
  | .hostV6Start => if isV6Char ch then .hostV6 else .dead
  | .hostV6Zone => if ch = chr ']' then .hostV6End else if isZoneChar ch then .hostV6Zone else .dead
  | .hostV6ZoneStart => if isZoneChar ch then .hostV6Zone else .dead
  | .hostPort | .hostPortStart => if isNum ch then .hostPort else .dead
  | .dead => .dead

/-- The variables of the loop of `http_parse_host` -/
structure HostScan where
  s : HttpHostState
  u : HttpParserUrl

namespace HostScan

/-- What a round does in the state that the character has led to -/
def enter (t : HostScan) (p : Nat) : HttpHostState → Option HostScan
  | .dead => none
  | .host => some ⟨.host, (if t.s = .host then t.u else t.u.setOff .host p).incLen .host⟩
  | .hostV6 => some ⟨.hostV6, (if t.s = .hostV6 then t.u else t.u.setOff .host p).incLen .host⟩
  | .hostV6ZoneStart => some ⟨.hostV6ZoneStart, t.u.incLen .host⟩
  | .hostV6Zone => some ⟨.hostV6Zone, t.u.incLen .host⟩
  | .hostPort => some ⟨.hostPort, (if t.s = .hostPort then t.u else ((t.u.setOff .port p).resetLen .port).set .port).incLen .port⟩
  | .userinfo =>
    some ⟨.userinfo, (if t.s = .userinfo then t.u else ((t.u.setOff .userinfo p).resetLen .userinfo).set .userinfo).incLen .userinfo⟩
  | s => some ⟨s, t.u⟩

/-- A round of the loop -/
def round (p : Nat) (ch : Byte) (t : HostScan) : Option HostScan := t.enter p (httpParseHostChar t.s ch)

/-- Where a server may end -/
def ends : HttpHostState → Bool
  | .host | .hostV6End | .hostPort | .dead => true
  | _ => false

end HostScan

/-- `http_parse_host`; nothing where it returns 1 -/
def httpParseHost (buf : List Byte) (u : HttpParserUrl) (foundAt : Bool) : Except ByteFault (Option HttpParserUrl) := do
  let host := u.fieldData .host
  let server ← load buf host.off.toNat host.len.toNat
  match scan HostScan.round server host.off.toNat ⟨if foundAt then .userinfoStart else .hostStart, u.resetLen .host⟩ with
  | none => return none
  | some t => return if HostScan.ends t.s then some t.u else none

/-- `strtoul(str, NULL, 10)` of a string that begins with a digit -/
def strtoul (str : List Byte) : Nat :=
  min ((str.takeWhile isNum).foldl (fun v c => 10 * v + (c.toNat - (chr '0').toNat)) 0) (2 ^ 64 - 1)

/-- What `http_parser_parse_url` does when it has the fields -/
def checkUrl (buf : List Byte) (isConnect : Bool) (u : HttpParserUrl) : Option HttpParserUrl :=
  if isConnect && !u.onlyHostPort then none
  else if u.fieldSet .port then
    let v := strtoul (buf.drop (u.fieldData .port).off.toNat)
    if v > 0xffff then none else some { u with port := UInt16.ofNat v }
  else some u

/-- `http_parser_parse_url`; nothing where it returns 1 -/
def httpParserParseUrl (buf : List Byte) (isConnect : Bool) (u : HttpParserUrl) : Except ByteFault (Option HttpParserUrl) := do
  let u := { u with port := 0, fieldSet := fun _ => false }
  match scan UrlScan.round buf 0 ⟨if isConnect then .reqServerStart else .reqSpacesBeforeUrl, none, false, u⟩ with
  | none => return none
  | some t =>
    if t.u.fieldSet .schema && !t.u.fieldSet .host then return none
    else if t.u.fieldSet .host then
      match ← httpParseHost buf t.u t.foundAt with
      | none => return none
      | some u => return checkUrl buf isConnect u
    else return checkUrl buf isConnect t.u

/-! ### `parse_url` -/

structure UrlFields where
  schema : Text.LenCstr
  host : Text.LenCstr
  path : Text.LenCstr
  query : Text.LenCstr
  fragment : Text.LenCstr
  userinfo : Text.LenCstr
  port : UInt16
deriving DecidableEq

/-- A field of `url`, where it is set -/
def urlField (url : Text.LenCstr) (u : HttpParserUrl) (uf : UrlField) (old : Text.LenCstr) : Except ByteFault Text.LenCstr :=
  if u.fieldSet uf then url.substr (u.fieldData uf).off.toNat (u.fieldData uf).len.toNat else .ok old

/-- `parse_url`, which declares `u` and leaves it as it is -/
def parseUrl (url : Text.LenCstr) (urlfields : UrlFields) (isConnect : Bool) (u : HttpParserUrl) : Except ByteFault (Int × UrlFields) := do
  match ← httpParserParseUrl url.cstr isConnect u with
  | none => return (-1, urlfields)
  | some u =>
    let schema ← urlField url u .schema urlfields.schema
    let host ← urlField url u .host urlfields.host
    let path ← urlField url u .path urlfields.path
    let query ← urlField url u .query urlfields.query
    let userinfo ← urlField url u .userinfo urlfields.userinfo
    let fragment ← urlField url u .fragment urlfields.fragment
    return (ok, ⟨schema, host, path, query, fragment, userinfo, if u.fieldSet .port then u.port else 80⟩)

end Wawo.HttpParser
