import Wawo.Bytes.RightRoom
import Wawo.Lib.InsertOrder
import Wawo.Net.HttpReport
import Wawo.Text.LenCstr

/-!
# Encoding an HTTP message (`peer/message/http.hpp`, `protocol/http.hpp`)

`encode` writes the first line, which has gone through a buffer of 512 or 128 bytes, then the header in the order of
`keys_order`, an empty line and the body. The header is a table in the order of insertion (`HttpHeader.Shows`), of
which the keys are compared byte by byte. So the first line is whole only where it is shorter than its buffer, and
`content-length` is there once only where no other spelling of it has been set (`framed_iff`).
-/

namespace Wawo

open Lts
open HttpPeer (ascii)

/-- `E_HTTP_REQUEST_MISSING_OPTION` -/
def eHttpRequestMissingOption : Int := -44001

/-- `E_HTTP_MESSAGE_INVALID_TYPE` -/
def eHttpMessageInvalidType : Int := -44002

/-- `WAWO_HTTP_CRLF` -/
def crlf : List Byte := [13, 10]

/-- `WAWO_HTTP_COLON` -/
def colon : List Byte := [58]

/-- `WAWO_HTTP_SP` -/
def sp : List Byte := [32]

/-- `%d` -/
def decimal (n : Int) : List Byte := (if n < 0 then ascii "-" else []) ++ (Nat.toDigits 10 n.natAbs).map fun c => c.toNat.toUInt8

/-- `%s` -/
def cString (str : List Byte) : List Byte := str.takeWhile (· ≠ 0)

/-- What `snprintf(buffer, n, ..)` leaves in the buffer, up to the NUL -/
def snprintf (n : Nat) (text : List Byte) : List Byte := text.take (n - 1)

namespace HttpHeader

/-- `have` -/
def have' (h : HttpHeader) (field : LenCstr) : Bool := h.map.any fun e => e.1 = field

def remove (h : HttpHeader) (field : LenCstr) : Except ByteFault HttpHeader :=
  if h.have' field then do
    let map := h.map.eraseP fun e => e.1 = field
    require (field ∈ h.keysOrder) .httpKey
    return ⟨map, h.keysOrder.erase field⟩
  else return h

/-- `map[key]`, which adds an empty value where there is none -/
def mapAt (h : HttpHeader) (key : LenCstr) : HttpHeader × LenCstr :=
  match h.map.find? fun e => e.1 = key with
  | some e => (h, e.2)
  | none => ({ h with map := h.map ++ [(key, [])] }, [])

/-- One round of the `for_each` of `encode` -/
def encodeKey (s : HttpHeader × Packet) (key : LenCstr) : Except ByteFault (HttpHeader × Packet) := do
  let (h, value) := s.1.mapAt key
  let opacket ← s.2.write key key.length
  let opacket ← opacket.write colon 1
  let opacket ← opacket.write sp 1
  let opacket ← opacket.write value value.length
  let opacket ← opacket.write crlf crlf.length
  return (h, opacket)

/-- `encode`, which returns `wawo::OK` -/
def encode (h : HttpHeader) : Except ByteFault (HttpHeader × Packet) := do
  let opacket ← Packet.new packInitRightCapacity packInitLeftCapacity
  let (h, opacket) ← h.keysOrder.foldlM encodeKey (h, opacket)
  let opacket ← opacket.write crlf crlf.length
  return (h, opacket)

end HttpHeader

/-- `option_name`; the options that are not in it are not from `O_GET` to `O_TRACE`. -/
def HttpOption.name : HttpOption → Option (List Byte)
  | get => some (ascii "GET")
  | head => some (ascii "HEAD")
  | post => some (ascii "POST")
  | put => some (ascii "PUT")
  | delete => some (ascii "DELETE")
  | connect => some (ascii "CONNECT")
  | options => some (ascii "OPTIONS")
  | trace => some (ascii "TRACE")
  | none | max | outside => Option.none

namespace HttpMsg

/-- `message::http::encode` from where the first line is in `resp`, whatever the type of the message is -/
def encodeRest (m : HttpMsg) (httppack : Packet) (resp : List Byte) : Except ByteFault (Int × HttpMsg × Option Packet) := do
  let httppack ← httppack.write resp (Text.strlen resp)
  let httppack ← httppack.write crlf crlf.length
  let header := if m.header.have' (ascii "Server") then m.header else m.header.set (ascii "Server") (ascii "wawo/1.1")
  let header :=
    if 0 < m.body.length then header.set (ascii "content-length") (snprintf 16 (decimal (Text.toInt32 m.body.length)))
    else header
  let (header, hpacket) ← header.encode
  let httppack ← httppack.write hpacket.bytes (← hpacket.len)
  let httppack ← (if 0 < m.body.length then httppack.write m.body m.body.length else .ok httppack : Except ByteFault Packet)
  return (ok, { m with header := header }, some httppack)

/-- `message::http::encode`: what is returned, the message after it, and `packet_o` where it is assigned -/
def encode (m : HttpMsg) : Except ByteFault (Int × HttpMsg × Option Packet) := do
  let httppack ← Packet.new packInitRightCapacity packInitLeftCapacity
  match m.type with
  | .request =>
    require (m.option ≠ .outside) .httpUnset
    match m.option.name with
    | none => return (eHttpRequestMissingOption, m, none)
    | some name =>
      let m := { m with url := if m.url = [] then ascii "/" else m.url }
      let header :=
        if m.header.have' (ascii "User-Agent") then m.header else m.header.set (ascii "User-Agent") (ascii "wawo/1.1")
      let m := { m with header := header }
      m.encodeRest httppack (snprintf 512
        (name ++ sp ++ cString m.url ++ ascii " HTTP/" ++ decimal m.version.1 ++ ascii "." ++ decimal m.version.2))
  | .response =>
    match m.code with
    | none => .error .httpUnset
    | some code =>
      let m := { m with status := if code = 200 ∧ m.status = [] then ascii "OK" else m.status }
      require (m.status.length > 0) .httpStatus
      m.encodeRest httppack (snprintf 128
        (ascii "HTTP/" ++ decimal m.version.1 ++ ascii "." ++ decimal m.version.2 ++ sp ++ decimal code ++ sp ++ cString m.status))
  | .none => return (eHttpMessageInvalidType, m, none)

end HttpMsg

/-- A call of `add_header_line` or of `remove_header` -/
abbrev HeaderCall := InsertOrder.Call LenCstr LenCstr

namespace HttpHeader

open InsertOrder (table since lists_table)

def call (h : HttpHeader) : HeaderCall → Except ByteFault HttpHeader
  | .set field value => .ok (h.set field value)
  | .remove field => h.remove field

/-- The header is what the calls have made of an empty one. -/
structure Shows (h : HttpHeader) (cs : List HeaderCall) : Prop where
  map_eq : h.map = table cs
  keys_eq : h.keysOrder = (table cs).map Prod.fst

/-- The line of a field -/
def fieldLine (e : LenCstr × LenCstr) : List Byte := e.1 ++ colon ++ sp ++ e.2 ++ crlf

variable {h : HttpHeader} {cs : List HeaderCall} {key value : LenCstr} {p : Packet} {c : List Byte}

theorem empty_shows : empty.Shows [] := ⟨rfl, rfl⟩

namespace Shows

theorem have_eq (hs : h.Shows cs) (key : LenCstr) : h.have' key = (since key cs).isSome := by
  rw [have', hs.map_eq, Bool.eq_iff_iff, List.any_eq_true, Option.isSome_iff_exists]
  constructor
  · rintro ⟨⟨k, v⟩, he, heq⟩
    obtain rfl := of_decide_eq_true heq
    obtain ⟨i, hi⟩ := ((lists_table cs).mem k v).mp he
    exact ⟨(i, v), hi⟩
  · rintro ⟨⟨i, v⟩, hi⟩
    exact ⟨(key, v), ((lists_table cs).mem key v).mpr ⟨i, hi⟩, decide_eq_true rfl⟩

theorem mapAt_eq (hs : h.Shows cs) (he : (key, value) ∈ table cs) : h.mapAt key = (h, value) := by
  unfold mapAt
  rw [hs.map_eq]
  cases hfind : (table cs).find? fun e => e.1 = key with
  | none => exact absurd (decide_eq_true rfl) (List.find?_eq_none.mp hfind _ he)
  | some e =>
    obtain ⟨k, v⟩ := e
    have hk := List.find?_some hfind
    obtain rfl : k = key := of_decide_eq_true hk
    rw [(lists_table cs).unique he (List.mem_of_find?_eq_some hfind)]

theorem set (hs : h.Shows cs) (key value : LenCstr) : (h.set key value).Shows (cs ++ [.set key value]) := by
  have htable : table (cs ++ [.set key value]) = InsertOrder.set (table cs) key value := List.foldl_concat ..
  unfold HttpHeader.set
  rw [hs.map_eq]
  unfold InsertOrder.set at htable
  split_ifs at htable ⊢
  · refine ⟨by rw [htable], ?_⟩
    rw [htable, List.map_map]
    refine hs.keys_eq.trans (List.map_congr_left fun e _ => ?_)
    dsimp only [Function.comp]
    split_ifs <;> rfl
  · exact ⟨by rw [htable], by rw [htable, List.map_append, hs.keys_eq]; rfl⟩

theorem remove (hs : h.Shows cs) (key : LenCstr) : ∃ h', h.remove key = .ok h' ∧ h'.Shows (cs ++ [.remove key]) := by
  have htable : table (cs ++ [.remove key]) = (table cs).eraseP fun e => e.1 = key := List.foldl_concat ..
  unfold HttpHeader.remove
  split_ifs with hhave
  · rw [have', hs.map_eq] at hhave
    obtain ⟨e, he, hek⟩ := List.any_eq_true.mp hhave
    have hmem : key ∈ h.keysOrder := by
      rw [hs.keys_eq, ← of_decide_eq_true hek]
      exact List.mem_map_of_mem he
    rw [require_eq hmem]
    refine ⟨_, rfl, by rw [htable, hs.map_eq], ?_⟩
    have hkey : (fun x => key == x) ∘ Prod.fst = fun e : LenCstr × LenCstr => decide (e.1 = key) :=
      funext fun _ => Bool.eq_iff_iff.mpr (beq_iff_eq.trans (eq_comm.trans decide_eq_true_iff.symm))
    dsimp only
    rw [htable, hs.keys_eq, List.erase_eq_eraseP, List.eraseP_map, hkey]
  · refine ⟨h, rfl, ?_⟩
    have herase : (table cs).eraseP (fun e => e.1 = key) = table cs := by
      rw [have', hs.map_eq] at hhave
      exact List.eraseP_of_forall_not fun e he hek => hhave (List.any_eq_true.mpr ⟨e, he, hek⟩)
    rw [herase] at htable
    exact ⟨hs.map_eq.trans htable.symm, hs.keys_eq.trans (by rw [htable])⟩

end Shows

/-- No call fails, and the header is their table. -/
theorem calls_shows (cs : List HeaderCall) : ∃ h, cs.foldlM call empty = .ok h ∧ h.Shows cs := by
  induction cs using List.reverseRecOn with
  | nil => exact ⟨_, rfl, empty_shows⟩
  | append_singleton cs c ih =>
    obtain ⟨h, hh, hs⟩ := ih
    rw [List.foldlM_append, hh, ok_bind, List.foldlM_cons]
    cases c with
    | set k v => exact ⟨_, rfl, hs.set k v⟩
    | remove k =>
      obtain ⟨h', hh', hs'⟩ := hs.remove k
      exact ⟨h', by rw [call, hh']; rfl, hs'⟩

/-! ### The bytes -/

theorem encodeKey_ifFits (hat : h.mapAt key = (h, value)) (hp : p.Grown c) :
    IfFits (c ++ fieldLine (key, value)).length (fun s => s.1 = h ∧ s.2.Grown (c ++ fieldLine (key, value))) (encodeKey (h, p) key) := by
  unfold encodeKey
  rw [hat]
  dsimp only
  rw [fieldLine, ← List.append_assoc, ← List.append_assoc, ← List.append_assoc, ← List.append_assoc]
  refine (hp.write_ifFits key).bind (by simp only [List.length_append]; omega) fun p h₁ => ?_
  refine (h₁.write_ifFits colon).bind (by simp only [List.length_append]; omega) fun p h₂ => ?_
  refine (h₂.write_ifFits sp).bind (by simp only [List.length_append]; omega) fun p h₃ => ?_
  refine (h₃.write_ifFits value).bind (by simp only [List.length_append]; omega) fun p h₄ => ?_
  refine (h₄.write_ifFits crlf).bind le_rfl fun p h₅ => ?_
  exact .ok (h₅.length_le.trans h₅.right_le) ⟨rfl, h₅⟩

theorem foldlM_encodeKey {l : List (LenCstr × LenCstr)} (hat : ∀ e ∈ l, h.mapAt e.1 = (h, e.2)) (hp : p.Grown c) :
    IfFits (c ++ l.flatMap fieldLine).length (fun s => s.1 = h ∧ s.2.Grown (c ++ l.flatMap fieldLine))
      ((l.map Prod.fst).foldlM encodeKey (h, p)) := by
  induction l generalizing p c with
  | nil =>
    rw [List.flatMap_nil, List.append_nil]
    exact .ok (hp.length_le.trans hp.right_le) ⟨rfl, hp⟩
  | cons e l ih =>
    obtain ⟨key, value⟩ := e
    rw [List.map_cons, List.foldlM_cons, List.flatMap_cons, ← List.append_assoc]
    refine (encodeKey_ifFits (hat _ List.mem_cons_self) hp).bind (by simp only [List.length_append]; omega) ?_
    rintro ⟨_, p'⟩ ⟨rfl, hp'⟩
    exact ih (fun e he => hat e (List.mem_cons_of_mem _ he)) hp'

/-- The header as it is encoded: the fields in the order of insertion, and the empty line -/
def lines (t : List (LenCstr × LenCstr)) : List Byte := t.flatMap fieldLine ++ crlf

theorem Shows.encode_ifFits (hs : h.Shows cs) :
    IfFits (lines (table cs)).length (fun s => s.1 = h ∧ s.2.Grown (lines (table cs))) h.encode := by
  obtain ⟨p, hp, hg⟩ := Packet.new_grown
  unfold HttpHeader.encode
  rw [hp, ok_bind, hs.keys_eq]
  refine (foldlM_encodeKey (fun e he => hs.mapAt_eq he) hg).bind ?_ ?_
  · rw [lines, List.nil_append, List.length_append]
    exact Nat.le_add_right _ _
  · rintro ⟨_, p⟩ ⟨rfl, hp⟩
    refine (hp.write_ifFits crlf).bind le_rfl fun p hp => ?_
    exact .ok (hp.length_le.trans hp.right_le) ⟨rfl, hp⟩

end HttpHeader

namespace HttpMsg

open InsertOrder (table since lists_table)

/-- The calls, and a `set` of the field if it is not set -/
def addMissing (cs : List HeaderCall) (field value : LenCstr) : List HeaderCall :=
  if (since field cs).isSome then cs else cs ++ [.set field value]

/-- The calls of the program and those by which `encode` adds the fields that every message is to have -/
def defaults (m : HttpMsg) (cs : List HeaderCall) : List HeaderCall :=
  addMissing (if m.type = .request then addMissing cs (ascii "User-Agent") (ascii "wawo/1.1") else cs)
    (ascii "Server") (ascii "wawo/1.1")

/-- With a `set` of `content-length` behind them if there is a body -/
def withLength (m : HttpMsg) (cs : List HeaderCall) (value : LenCstr) : List HeaderCall :=
  if 0 < m.body.length then cs ++ [.set (ascii "content-length") value] else cs

variable {m : HttpMsg} {cs : List HeaderCall} {field value v : LenCstr} {h : HttpHeader} {p : Packet} {resp : List Byte}

theorem shows_addMissing (hs : h.Shows cs) (field value : LenCstr) :
    HttpHeader.Shows (if h.have' field then h else h.set field value) (addMissing cs field value) := by
  rw [hs.have_eq, addMissing]
  split_ifs
  · exact hs
  · exact hs.set field value

theorem encodeRest_ifFits {m' : HttpMsg} (hbody : m'.body = m.body) (hs : m'.header.Shows cs) (hp : p.Grown []) (hresp : 0 ∉ resp) :
    IfFits (resp ++ crlf ++ HttpHeader.lines (table (m.withLength (addMissing cs (ascii "Server") (ascii "wawo/1.1"))
        (snprintf 16 (decimal (Text.toInt32 m.body.length))))) ++ m.body).length
      (fun r => r.1 = ok ∧ ∃ p, r.2.2 = some p ∧ p.Grown (resp ++ crlf ++ HttpHeader.lines (table (m.withLength
        (addMissing cs (ascii "Server") (ascii "wawo/1.1")) (snprintf 16 (decimal (Text.toInt32 m.body.length))))) ++ m.body))
      (m'.encodeRest p resp) := by
  generalize hv : snprintf 16 (decimal (Text.toInt32 m.body.length)) = value
  unfold encodeRest
  rw [Text.strlen_eq hresp, hbody]
  refine (hp.write_ifFits resp).bind (by simp only [List.length_append, List.length_nil]; omega) fun p h₁ => ?_
  refine (h₁.write_ifFits crlf).bind (by simp only [List.length_append, List.length_nil]; omega) fun p h₂ => ?_
  dsimp only
  rw [hv]
  have hs' := shows_addMissing hs (ascii "Server") (ascii "wawo/1.1")
  generalize addMissing cs (ascii "Server") (ascii "wawo/1.1") = cs at hs' ⊢
  generalize (if m'.header.have' (ascii "Server") then m'.header else m'.header.set (ascii "Server") (ascii "wawo/1.1")) = h at hs' ⊢
  have hlen : HttpHeader.Shows (if 0 < m.body.length then h.set (ascii "content-length") value else h) (m.withLength cs value) := by
    unfold withLength
    split_ifs
    · exact hs'.set _ _
    · exact hs'
  generalize m.withLength cs value = cs at hlen ⊢
  generalize (if 0 < m.body.length then h.set (ascii "content-length") value else h) = h at hlen ⊢
  refine hlen.encode_ifFits.bind (by simp only [List.length_append]; omega) ?_
  rintro ⟨_, hpacket⟩ ⟨rfl, hg⟩
  dsimp only
  rw [hg.holds.len_eq, ok_bind, hg.holds.bytes_eq]
  refine (h₂.write_ifFits _).bind (by simp only [List.length_append, List.length_nil]; omega) fun p h₃ => ?_
  have hlast : IfFits (([] ++ resp ++ crlf ++ HttpHeader.lines (table cs)) ++ m.body).length
      (fun p => p.Grown ([] ++ resp ++ crlf ++ HttpHeader.lines (table cs) ++ m.body))
      (if 0 < m.body.length then p.write m.body m.body.length else .ok p) := by
    split_ifs with hpos
    · exact h₃.write_ifFits m.body
    · rw [List.eq_nil_of_length_eq_zero (Nat.eq_zero_of_not_pos hpos), List.append_nil]
      exact .ok (h₃.length_le.trans h₃.right_le) h₃
  refine hlast.bind le_rfl fun p h₄ => ?_
  exact .ok (h₄.length_le.trans h₄.right_le) ⟨rfl, p, rfl, h₄⟩

/-! ### The first line -/

/-- The first line, with the url of a request or the status of a response as a whole -/
def firstLine (m : HttpMsg) : Option (List Byte) :=
  match m.type with
  | .request => m.option.name.map fun name =>
    name ++ sp ++ (if m.url = [] then ascii "/" else m.url) ++ ascii " HTTP/" ++ decimal m.version.1 ++ ascii "." ++
      decimal m.version.2
  | .response => m.code.map fun code =>
    ascii "HTTP/" ++ decimal m.version.1 ++ ascii "." ++ decimal m.version.2 ++ sp ++ decimal code ++ sp ++ m.status
  | .none => none

/-- The size of `resp` -/
def respSize (m : HttpMsg) : Nat :=
  match m.type with
  | .request => 512
  | .response => 128
  | .none => 0

/-- A request, or a response with its code and a status -/
structure Sendable (m : HttpMsg) : Prop where
  type_eq : m.type = .request ∨ m.type = .response ∧ m.code ≠ none ∧ m.status ≠ []
  url : LenCstr.Valid m.url
  status : LenCstr.Valid m.status

theorem zero_not_mem_decimal (n : Int) : 0 ∉ decimal n := by
  unfold decimal
  rw [List.mem_append, List.mem_map, not_or]
  constructor
  · split_ifs
    · decide
    · exact List.not_mem_nil
  · rintro ⟨c, hc, hzero⟩
    have hdigit : 48 ≤ c.toNat ∧ c.toNat ≤ 57 :=
      Char.isDigit_iff_toNat.mp (Nat.isDigit_of_mem_toDigits (by decide) (by decide) hc)
    have hnat : c.toNat % 256 = 0 := by simpa using congrArg UInt8.toNat hzero
    omega

theorem cString_eq {str : List Byte} (h : 0 ∉ str) : cString str = str := Text.takeWhile_ne_zero h

/-- The first line, as much of it as `resp` holds, the header and the body -/
def written (m : HttpMsg) (cs : List HeaderCall) (line : List Byte) : List Byte :=
  snprintf m.respSize line ++ crlf ++
    HttpHeader.lines (table (m.withLength (m.defaults cs) (snprintf 16 (decimal (Text.toInt32 m.body.length))))) ++ m.body

theorem zero_not_mem_name {name : List Byte} (h : m.option.name = some name) : 0 ∉ name := by
  generalize m.option = opt at h
  cases opt <;> cases h <;> decide

/-- No NUL is in the first line, so `%s` and `strlen` do not cut it. -/
theorem zero_not_mem_firstLine {line : List Byte} (hm : m.Sendable) (hline : m.firstLine = some line) : 0 ∉ line := by
  have hsp : 0 ∉ sp := by decide
  have hdot : 0 ∉ ascii "." := by decide
  have hdecimal := zero_not_mem_decimal
  unfold firstLine at hline
  rcases hm.type_eq with htype | ⟨htype, -, -⟩
  · rw [htype] at hline
    obtain ⟨name, hname, rfl⟩ := Option.map_eq_some_iff.mp hline
    have hname := zero_not_mem_name hname
    have hhttp : 0 ∉ ascii " HTTP/" := by decide
    have hurl : 0 ∉ if m.url = [] then ascii "/" else m.url := by
      split_ifs
      · decide
      · exact hm.url.1
    simp only [List.mem_append, hname, hsp, hurl, hhttp, hdecimal, hdot, or_self, not_false_eq_true]
  · rw [htype] at hline
    obtain ⟨code, -, rfl⟩ := Option.map_eq_some_iff.mp hline
    have hhttp : 0 ∉ ascii "HTTP/" := by decide
    simp only [List.mem_append, hsp, hm.status.1, hhttp, hdecimal, hdot, or_self, not_false_eq_true]

theorem encode_ifFits {line : List Byte} (hm : m.Sendable) (hs : m.header.Shows cs) (hline : m.firstLine = some line) :
    IfFits (m.written cs line).length (fun r => r.1 = ok ∧ ∃ p, r.2.2 = some p ∧ p.Grown (m.written cs line)) m.encode := by
  obtain ⟨p, hp, hg⟩ := Packet.new_grown
  unfold encode
  rw [hp, ok_bind]
  have hresp (n : Nat) : 0 ∉ snprintf n line := fun hzero => zero_not_mem_firstLine hm hline (List.mem_of_mem_take hzero)
  unfold firstLine at hline
  unfold written respSize defaults
  rcases hm.type_eq with htype | ⟨htype, -, hstatus⟩
  · rw [htype] at hline ⊢
    dsimp only at hline ⊢
    obtain ⟨name, hname, rfl⟩ := Option.map_eq_some_iff.mp hline
    have hopt : m.option ≠ .outside := fun heq => by
      rw [heq] at hname
      cases hname
    have hurl : 0 ∉ if m.url = [] then ascii "/" else m.url := by
      split_ifs
      · decide
      · exact hm.url.1
    rw [require_eq hopt, ok_bind, hname, if_pos rfl]
    dsimp only
    rw [cString_eq hurl]
    have hs := shows_addMissing hs (ascii "User-Agent") (ascii "wawo/1.1")
    exact encodeRest_ifFits rfl hs hg (hresp 512)
  · rw [htype] at hline ⊢
    dsimp only at hline ⊢
    obtain ⟨code, hcode, rfl⟩ := Option.map_eq_some_iff.mp hline
    rw [hcode, if_neg nofun]
    dsimp only
    rw [if_neg fun hand => hstatus hand.2, require_eq (List.length_pos_iff.mpr hstatus), ok_bind, cString_eq hm.status.1]
    exact encodeRest_ifFits rfl hs hg (hresp 128)

/-! ### What is to be encoded -/

/-- The calls of the program, and of `encode` behind them -/
def allCalls (m : HttpMsg) (cs : List HeaderCall) : List HeaderCall := m.withLength (m.defaults cs) (decimal m.body.length)

/-- The name of a field in small letters -/
def lower (field : LenCstr) : LenCstr := field.map fun b => if 65 ≤ b ∧ b ≤ 90 then b + 32 else b

/-- The first line with all of the url or of the status, each field that is set once and in the order in which they
have been inserted, an empty line and the body. With a body, one field is `content-length` in whatever letters and
it has the length. -/
def Encodes (m : HttpMsg) (cs : List HeaderCall) (out : List Byte) : Prop :=
  ∃ line t, m.firstLine = some line ∧ InsertOrder.Lists t (m.allCalls cs) ∧ out = line ++ crlf ++ HttpHeader.lines t ++ m.body ∧
    (m.body ≠ [] → (t.filter fun e => lower e.1 = ascii "content-length").map Prod.snd = [decimal m.body.length])

/-- `encode` of the message with the header of these calls returns `wawo::OK` and a packet with these bytes. -/
def Sends (m : HttpMsg) (cs : List HeaderCall) (out : List Byte) : Prop :=
  ∃ h m' p, cs.foldlM HttpHeader.call .empty = .ok h ∧ { m with header := h }.encode = .ok (ok, m', some p) ∧ p.bytes = out

def Framed (m : HttpMsg) (cs : List HeaderCall) : Prop := ∃ out, m.Sends cs out ∧ m.Encodes cs out

/-- The first line is shorter than `resp`, with a body no field that is set is `content-length` in other letters, and
all of it is no more than a packet takes. -/
def Fits (m : HttpMsg) (cs : List HeaderCall) : Prop :=
  ∃ line, m.firstLine = some line ∧ line.length < m.respSize ∧
    (m.body ≠ [] → ∀ e ∈ table cs, lower e.1 = ascii "content-length" → e.1 = ascii "content-length") ∧
    (line ++ crlf ++ HttpHeader.lines (table (m.allCalls cs)) ++ m.body).length ≤ packetRoom

/-- The length of a body that is in a packet is in the buffer as a whole. -/
theorem snprintf_length {n : Nat} (hn : n ≤ packetRoom) : snprintf 16 (decimal (Text.toInt32 n)) = decimal n := by
  have hroom : packetRoom < 2 ^ 31 := by decide
  have hint : Text.toInt32 n = n := by
    unfold Text.toInt32
    rw [Nat.mod_eq_of_lt (by omega), if_pos (by omega)]
  have hdigits : (Nat.toDigits 10 n).length ≤ 10 := (Nat.length_toDigits_le_iff (by decide) (by decide)).mpr (by omega)
  rw [hint, snprintf, List.take_of_length_le]
  rw [decimal, if_neg (by omega), List.nil_append, List.length_map, Int.natAbs_natCast]
  omega

theorem written_eq {line : List Byte} (hbody : m.body.length ≤ packetRoom) :
    m.written cs line = snprintf m.respSize line ++ crlf ++ HttpHeader.lines (table (m.allCalls cs)) ++ m.body := by
  rw [written, snprintf_length hbody, allCalls]

theorem mem_addMissing {key : LenCstr} (hne : key ≠ field) : (key, value) ∈ table (addMissing cs field v) ↔ (key, value) ∈ table cs := by
  unfold addMissing
  split_ifs
  · rfl
  · exact InsertOrder.mem_table_set_other hne _ _

/-- `encode` sets no other spelling of `content-length`. -/
theorem mem_allCalls {key : LenCstr} (hlower : lower key = ascii "content-length") (hne : key ≠ ascii "content-length") :
    (key, value) ∈ table (m.allCalls cs) ↔ (key, value) ∈ table cs := by
  have hagent : key ≠ ascii "User-Agent" := fun heq => absurd (heq ▸ hlower) (by decide)
  have hserver : key ≠ ascii "Server" := fun heq => absurd (heq ▸ hlower) (by decide)
  have hdefaults : (key, value) ∈ table (m.defaults cs) ↔ (key, value) ∈ table cs := by
    unfold defaults
    rw [mem_addMissing hserver]
    split_ifs
    · exact mem_addMissing hagent
    · rfl
  unfold allCalls withLength
  split_ifs
  · rw [InsertOrder.mem_table_set_other hne, hdefaults]
  · exact hdefaults

theorem mem_allCalls_length (hbody : m.body ≠ []) :
    (ascii "content-length", value) ∈ table (m.allCalls cs) ↔ value = decimal m.body.length := by
  rw [allCalls, withLength, if_pos (List.length_pos_iff.mpr hbody), InsertOrder.mem_table_set]

/-- There is one such field if and only if the calls have not set another. -/
theorem one_length_iff (hbody : m.body ≠ []) :
    ((table (m.allCalls cs)).filter fun e => lower e.1 = ascii "content-length").map Prod.snd = [decimal m.body.length] ↔
      ∀ e ∈ table cs, lower e.1 = ascii "content-length" → e.1 = ascii "content-length" := by
  have hmem {e : LenCstr × LenCstr} : e ∈ (table (m.allCalls cs)).filter (fun e => lower e.1 = ascii "content-length") ↔
      e ∈ table (m.allCalls cs) ∧ lower e.1 = ascii "content-length" := by
    rw [List.mem_filter, decide_eq_true_iff]
  have hlength : (ascii "content-length", decimal m.body.length) ∈ table (m.allCalls cs) := (mem_allCalls_length hbody).mpr rfl
  have hnodup : ((table (m.allCalls cs)).filter fun e => lower e.1 = ascii "content-length").Nodup :=
    (List.Nodup.of_map _ (lists_table (m.allCalls cs)).nodup).filter _
  generalize (table (m.allCalls cs)).filter (fun e => lower e.1 = ascii "content-length") = fields at hmem hnodup ⊢
  have hsmall : lower (ascii "content-length") = ascii "content-length" := by decide
  have hself : (ascii "content-length", decimal m.body.length) ∈ fields := hmem.mpr ⟨hlength, hsmall⟩
  constructor
  · rintro hone ⟨key, value⟩ he hlower
    by_contra hne
    have hother : (key, value) ∈ fields := hmem.mpr ⟨(mem_allCalls hlower hne).mpr he, hlower⟩
    obtain ⟨e, rfl⟩ : ∃ e, fields = [e] := List.length_eq_one_iff.mp (by rw [← List.length_map, hone, List.length_singleton])
    rw [← List.mem_singleton.mp hself] at hother
    exact hne (congrArg Prod.fst (List.mem_singleton.mp hother))
  · intro hown
    have hfields : fields = [(ascii "content-length", decimal m.body.length)] := by
      rw [← List.perm_singleton, List.perm_ext_iff_of_nodup hnodup (List.nodup_singleton _)]
      rintro ⟨key, value⟩
      rw [List.mem_singleton, hmem]
      constructor
      · rintro ⟨he, hlower⟩
        have hkey : key = ascii "content-length" := by
          by_contra hne
          exact hne (hown _ ((mem_allCalls hlower hne).mp he) hlower)
        subst hkey
        rw [(mem_allCalls_length hbody).mp he]
      · rintro heq
        cases heq
        exact ⟨hlength, hsmall⟩
    rw [hfields]
    rfl

theorem sends_iff {line out : List Byte} (hm : m.Sendable) (hline : m.firstLine = some line) :
    m.Sends cs out ↔ out = m.written cs line ∧ out.length ≤ packetRoom := by
  obtain ⟨h, hcalls, hs⟩ := HttpHeader.calls_shows cs
  have hm' : { m with header := h }.Sendable := ⟨hm.type_eq, hm.url, hm.status⟩
  have hfits := encode_ifFits hm' hs hline
  constructor
  · rintro ⟨h', m', p, hcalls', hencode, rfl⟩
    rw [hcalls] at hcalls'
    cases hcalls'
    obtain ⟨hroom, -, p', hp', hg⟩ := hfits.of_eq_ok hencode
    cases hp'
    rw [hg.holds.bytes_eq]
    exact ⟨rfl, hroom⟩
  · rintro ⟨rfl, hroom⟩
    obtain ⟨⟨_, m', _⟩, hencode, rfl, p, rfl, hg⟩ := hfits.exists_ok hroom
    exact ⟨h, m', p, hcalls, hencode, hg.holds.bytes_eq⟩

theorem fits_of_framed (hm : m.Sendable) (h : m.Framed cs) : m.Fits cs := by
  obtain ⟨out, hsends, line, t, hline, hlists, hout, hone⟩ := h
  obtain ⟨hwritten, hroom⟩ := (sends_iff hm hline).mp hsends
  rw [hlists.eq_table] at hout hone
  rw [hout] at hwritten hroom
  have hbody : m.body.length ≤ packetRoom := by
    rw [List.length_append] at hroom
    exact (Nat.le_add_left _ _).trans hroom
  rw [written_eq hbody] at hwritten
  have hresp : 0 < m.respSize := by
    unfold respSize
    rcases hm.type_eq with htype | ⟨htype, -⟩ <;> rw [htype] <;> decide
  refine ⟨line, hline, ?_, fun hne => (one_length_iff hne).mp (hone hne), hroom⟩
  have hlen := congrArg List.length hwritten
  simp only [snprintf, List.length_append, List.length_take] at hlen
  omega

theorem framed_of_fits (hm : m.Sendable) (h : m.Fits cs) : m.Framed cs := by
  obtain ⟨line, hline, hresp, hown, hroom⟩ := h
  have hbody : m.body.length ≤ packetRoom := by
    rw [List.length_append] at hroom
    exact (Nat.le_add_left _ _).trans hroom
  have hwritten : m.written cs line = line ++ crlf ++ HttpHeader.lines (table (m.allCalls cs)) ++ m.body := by
    rw [written_eq hbody, snprintf, List.take_of_length_le (Nat.le_sub_one_of_lt hresp)]
  exact ⟨_, (sends_iff hm hline).mpr ⟨hwritten.symm, hroom⟩, line, _, hline, lists_table _, rfl,
    fun hne => (one_length_iff hne).mpr (hown hne)⟩

/-- A request or a response with a status is encoded as it is to be if and only if its first line is shorter than the
buffer of it, `content-length` has not been set in other letters, and a packet takes all of it. -/
theorem framed_iff (m : HttpMsg) (cs : List HeaderCall) (hm : m.Sendable) : m.Framed cs ↔ m.Fits cs :=
  ⟨fits_of_framed hm, framed_of_fits hm⟩

/-- A request with a body of two bytes -/
def post (url : LenCstr) : HttpMsg := { HttpMsg.new with type := .request, option := .post, url := url, body := ascii "xy" }

theorem post_sendable {url : LenCstr} (h : LenCstr.Valid url) : (post url).Sendable := ⟨.inl rfl, h, .nil⟩

/-- A field that is removed, and a length that `encode` replaces -/
def postCalls : List HeaderCall :=
  [.set (ascii "content-length") (ascii "9"), .set (ascii "Host") (ascii "h"), .remove (ascii "Host"), .set (ascii "Accept") (ascii "*")]

theorem framed_iff_post : (post (ascii "/a")).Framed postCalls := by
  have hvalid : LenCstr.Valid (ascii "/a") := ⟨by decide, by decide⟩
  exact (framed_iff (post (ascii "/a")) postCalls (post_sendable hvalid)).mpr ⟨_, rfl, by decide, by decide, by decide⟩

/-- A url that the buffer of the first line cuts -/
def longUrl : LenCstr := ascii "/" ++ List.replicate 600 97

/-- Both are sent with `wawo::OK`: a first line that ends in the url, without the version, and two lengths. -/
theorem framed_fails :
    ((post longUrl).Sendable ∧ ¬ (post longUrl).Framed [] ∧
      ∃ out, (post longUrl).Sends [] out ∧ (ascii "POST /" ++ List.replicate 505 97 ++ crlf) <+: out) ∧
    (post (ascii "/a")).Sendable ∧ ¬ (post (ascii "/a")).Framed [.set (ascii "Content-Length") (ascii "2")] ∧
      (post (ascii "/a")).Sends [.set (ascii "Content-Length") (ascii "2")] (ascii
        "POST /a HTTP/1.1\r\nContent-Length: 2\r\nUser-Agent: wawo/1.1\r\nServer: wawo/1.1\r\ncontent-length: 2\r\n\r\nxy") := by
  have hlong : LenCstr.Valid longUrl := ⟨by decide +kernel, by decide +kernel⟩
  have hshort : LenCstr.Valid (ascii "/a") := ⟨by decide, by decide⟩
  refine ⟨⟨post_sendable hlong, fun h => ?_, _, (sends_iff (post_sendable hlong) rfl).mpr ⟨rfl, by decide +kernel⟩, ?_⟩,
    post_sendable hshort, fun h => ?_, (sends_iff (post_sendable hshort) rfl).mpr ⟨by decide +kernel, by decide +kernel⟩⟩
  · obtain ⟨line, hline, hresp, -⟩ := fits_of_framed (post_sendable hlong) h
    cases hline
    exact absurd hresp (by decide +kernel)
  · have hcut : snprintf (post longUrl).respSize ((post longUrl).firstLine.getD []) = ascii "POST /" ++ List.replicate 505 97 := by
      decide +kernel
    rw [← hcut, written, List.append_assoc]
    exact List.prefix_append _ _
  · obtain ⟨_, -, -, hown, -⟩ := fits_of_framed (post_sendable hshort) h
    exact absurd (hown (by decide) _ (List.mem_singleton.mpr rfl) (by decide)) (by decide)

end HttpMsg

end Wawo
