import Wawo.Lib.Run
import Wawo.Wcp.Basic

/-!
# `peer::http` (`peer/http.hpp`, `peer/http.cpp`)

The peer gives what arrives to the vendored `http_parser` and builds the message from its callbacks. What
the parser does with a packet is part of the event here: the callbacks it makes. A text of the message comes
in fragments, which follow the packets (`Report`): a packet that ends inside a text, or behind its last byte
with the delimiter still to come, ends a fragment. Each chunk of a body is between its `chunk_header` and its
`chunk_complete`; between those of the last one, which has no bytes, are the trailers.

The header keeps one value for a name: where two lines of a message have one name, the later one replaces the value of
the other.
-/

namespace Wawo

open Lts

/-- The bytes of a `len_cstr`, without the NUL behind them. -/
abbrev LenCstr := List Byte

inductive HttpFault
  | cstrLen -- `len_cstr_impl(str, slen)`: `strlen(str) >= slen`
  | cstrRoom -- `len_cstr_impl`: the `u32_t` that is the size of the allocation wraps
  | emptyPacket -- `on_event`: `inpack->len() > 0`
  | noMessage -- `m_tmp != NULL`
  | noField -- `http_parser_on_header_value`: `m_tmp_field.len > 0`
  | notRequested -- `http_parser_on_message_complete`: `!m_requested.empty()`
deriving DecidableEq

namespace LenCstr

/-- `len_cstr_impl(str, slen)`, for the bytes from `str` to `str + slen`. -/
def ofData (data : List Byte) : Except HttpFault LenCstr :=
  if 0 ∈ data then .error .cstrLen
  else if 2 ^ 32 ≤ data.length + 1 then .error .cstrRoom
  else .ok data

/-- `operator+`, of strings made by `ofData`. -/
def append (a b : LenCstr) : Except HttpFault LenCstr :=
  if 2 ^ 32 ≤ a.length + b.length + 1 then .error .cstrRoom else ofData (a ++ b)

end LenCstr

/-- `protocol::http::header`; `map` in the order of insertion. -/
structure HttpHeader where
  map : List (LenCstr × LenCstr)
  keysOrder : List LenCstr
deriving DecidableEq

namespace HttpHeader

def empty : HttpHeader := ⟨[], []⟩

def set (h : HttpHeader) (field value : LenCstr) : HttpHeader :=
  if h.map.any fun e => e.1 = field then { h with map := h.map.map fun e => if e.1 = field then (e.1, value) else e }
  else ⟨h.map ++ [(field, value)], h.keysOrder ++ [field]⟩

end HttpHeader

inductive HttpType
  | none
  | request
  | response
deriving DecidableEq

inductive HttpOption
  | none
  | get
  | head
  | post
  | put
  | delete
  | connect
  | options
  | trace
  | max
  | outside -- what is read behind the end of `option_map`
deriving DecidableEq

/-- `message::http` -/
structure HttpMsg where
  type : HttpType
  option : HttpOption
  version : Nat × Nat
  url : LenCstr
  header : HttpHeader
  body : LenCstr
  code : Option Int -- not set by the constructor
  status : LenCstr
deriving DecidableEq

def HttpMsg.new : HttpMsg := ⟨.none, .none, (1, 1), [], .empty, [], none, []⟩

/-- What the parser has of the first line when the message is complete: `method`, or `status_code` and the
version. -/
inductive HttpLine
  | request (method : Nat)
  | response (code : Nat) (version : Nat × Nat)
deriving DecidableEq

inductive HttpCallback
  | messageBegin
  | url (data : List Byte)
  | status (data : List Byte)
  | headerField (data : List Byte)
  | headerValue (data : List Byte)
  | headersComplete
  | body (data : List Byte)
  | chunkHeader
  | chunkComplete
  | messageComplete (line : HttpLine)
deriving DecidableEq

structure HttpPeer where
  tmp : Option HttpMsg
  tmpField : LenCstr
  tmpBody : LenCstr
  requested : List Nat -- the callbacks of `m_requested`
  delivered : List (Option Nat × HttpMsg) -- history: the messages for the listeners and for callbacks

namespace HttpPeer

variable (s : HttpPeer)

/-- `m_tmp->…` -/
def message : Except HttpFault HttpMsg :=
  match s.tmp with
  | none => .error .noMessage
  | some m => .ok m

def optionMap : List HttpOption := [.delete, .get, .head, .post, .put, .connect]

/-- `http_parser_on_message_complete` -/
def onMessageComplete (line : HttpLine) : Except HttpFault HttpPeer := do
  let m ← s.message
  let m := { m with body := s.tmpBody }
  match line with
  | .request method =>
    let m := { m with type := .request, option := optionMap.getD method .outside }
    .ok { s with tmp := none, delivered := s.delivered ++ [(none, m)] }
  | .response code version =>
    let m := { m with type := .response, version := version, code := some code }
    match s.requested with
    | [] => .error .notRequested
    | cb :: rest => .ok { s with tmp := none, requested := rest, delivered := s.delivered ++ [(some cb, m)] }

def callback : HttpCallback → Except HttpFault HttpPeer
  | .messageBegin => .ok { s with tmp := some .new, tmpField := [], tmpBody := [] }
  | .url data => do
    let m ← s.message
    let url ← LenCstr.ofData data
    .ok { s with tmp := some { m with url := url } }
  | .status data => do
    let m ← s.message
    let status ← LenCstr.ofData data
    .ok { s with tmp := some { m with status := status } }
  | .headerField data => do
    let _ ← s.message
    let field ← LenCstr.ofData data
    .ok { s with tmpField := field }
  | .headerValue data =>
    if s.tmpField = [] then .error .noField
    else do
      let m ← s.message
      let value ← LenCstr.ofData data
      .ok { s with tmp := some { m with header := m.header.set s.tmpField value } }
  | .body data => do
    let data ← LenCstr.ofData data
    let body ← LenCstr.append s.tmpBody data
    .ok { s with tmpBody := body }
  | .headersComplete | .chunkHeader | .chunkComplete => .ok s
  | .messageComplete line => s.onMessageComplete line

/-- The callbacks of `http_parser_execute`, one after the other. -/
def run (cbs : List HttpCallback) : Except HttpFault HttpPeer := cbs.foldlM callback s

/-- `E_PACKET_ARRIVE`: the bytes of the packet and the callbacks the parser makes for it. -/
structure Arrival where
  packet : List Byte
  callbacks : List HttpCallback

/-- `on_event` -/
def onEvent (a : Arrival) (s : HttpPeer) : Except HttpFault HttpPeer :=
  if a.packet = [] then .error .emptyPacket else s.run a.callbacks

end HttpPeer

/-- A message: `text` is the url of a request and the status text of a response; `trailers` are the header
lines behind a chunked body. The name of a header is not empty. -/
structure HttpMessage where
  line : HttpLine
  text : List Byte
  headers : List (List Byte × List Byte)
  body : List Byte
  trailers : List (List Byte × List Byte)
  field_ne : ∀ e ∈ headers ++ trailers, e.1 ≠ []

namespace HttpMessage

variable (m : HttpMessage)

def lines : List (List Byte × List Byte) := m.headers ++ m.trailers

/-- The header lines set one after the other. -/
def setLines (h : HttpHeader) (lines : List (List Byte × List Byte)) : HttpHeader := lines.foldl (fun h e => h.set e.1 e.2) h

/-- A message with this text in the first line, this header and this body. -/
def msg (line : HttpLine) (text : LenCstr) (header : HttpHeader) (body : LenCstr) : HttpMsg :=
  match line with
  | .request method => ⟨.request, HttpPeer.optionMap.getD method .outside, (1, 1), text, header, body, none, []⟩
  | .response code version => ⟨.response, .none, version, [], header, body, some code, text⟩

/-- The message that is to be delivered, with all its header lines. -/
def whole : HttpMsg := msg m.line m.text ⟨m.lines, m.lines.map Prod.fst⟩ m.body

end HttpMessage

/-- The fragments of a header line; a value is reported once at least, even if it is empty. -/
structure LineReport where
  field : List (List Byte)
  value : List (List Byte)
  field_ne : field ≠ []
  value_ne : value ≠ []

namespace LineReport

variable (l : LineReport)

def whole : List Byte × List Byte := (l.field.flatten, l.value.flatten)

/-- The last fragments. -/
def last : List Byte × List Byte := (l.field.getLast l.field_ne, l.value.getLast l.value_ne)

def callbacks : List HttpCallback := l.field.map .headerField ++ l.value.map .headerValue

end LineReport

/-- What the parser reports behind the header: the fragments of the body, or those of each chunk and the trailers. -/
inductive BodyReport
  | plain (data : List (List Byte))
  | chunked (chunks : List (List (List Byte))) (trailers : List LineReport)

namespace BodyReport

def bytes : BodyReport → List Byte
  | plain data => data.flatten
  | chunked chunks _ => chunks.flatten.flatten

def trailers : BodyReport → List LineReport
  | plain _ => []
  | chunked _ trailers => trailers

def chunkCallbacks (data : List (List Byte)) : List HttpCallback := [.chunkHeader] ++ data.map .body ++ [.chunkComplete]

def callbacks : BodyReport → List HttpCallback
  | plain data => data.map .body
  | chunked chunks trailers =>
    chunks.flatMap chunkCallbacks ++ [.chunkHeader] ++ trailers.flatMap LineReport.callbacks ++ [.chunkComplete]

end BodyReport

/-- What the parser reports of a message: for each text the fragments that make it. -/
structure Report (m : HttpMessage) where
  text : List (List Byte)
  headers : List LineReport
  body : BodyReport
  text_eq : text.flatten = m.text
  headers_eq : headers.map LineReport.whole = m.headers
  body_eq : body.bytes = m.body
  trailers_eq : body.trailers.map LineReport.whole = m.trailers

namespace Report

variable {m : HttpMessage} (r : Report m)

def textCallback : HttpLine → List Byte → HttpCallback
  | .request _ => .url
  | .response .. => .status

def callbacks : List HttpCallback :=
  [.messageBegin] ++ r.text.map (textCallback m.line) ++ r.headers.flatMap LineReport.callbacks ++ [.headersComplete] ++
    r.body.callbacks ++ [.messageComplete m.line]

def lines : List LineReport := r.headers ++ r.body.trailers

end Report

end Wawo
