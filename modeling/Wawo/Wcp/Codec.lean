import Wawo.Bytes.Packet
import Wawo.Wcp.Datagrams

/-!
# The datagrams of WCP (`WCPPACK_TO_UDPMESSAGE`, `WCP_RECEIVED_PACK_FROM_UDPMESSAGE`)

A pack is written into a buffer at a running offset and read back from one. `encoded` is what the
offsets add up to, `Written` says that the front of a buffer is as far as that. The reader finds the
fields where the writer has put them, so a datagram determines what was sent (`udpmessage_round_trip`),
and the packs of `pump_packs` are what the reader makes of a datagram (`receivedPack_refines`).
-/

namespace Wawo

open Memory Lts

/-- A `u16_t` result. -/
def u16 (n : Nat) : Nat := n % 2 ^ 16

theorem u16_of_lt {n : Nat} (h : n < 2 ^ 16) : u16 n = n := Nat.mod_eq_of_lt h

/-- A `WCB_pack` with the packet that it points to, if it points to one. -/
structure PackInMemory where
  header : WcpHeader
  data : Option Packet

/-- The bytes of the payload -/
def payload : Option Packet → List Byte
  | none => []
  | some data => data.bytes

/-! ### The macros -/

/-- `write_impl<T>(val, mbuffer + wlen); wlen += sizeof(T)` with `sizeof(T) = size` -/
def put (size val : Nat) (x : List Byte × Nat) : Except ByteFault (List Byte × Nat) := do
  return (← store x.1 x.2 (writeImpl size val), u16 (x.2 + size))

/-- The fields of the header before the length, from the front of `mbuffer` -/
def putHeader (header : WcpHeader) (mbuffer : List Byte) : Except ByteFault (List Byte × Nat) := do
  let x ← put 4 header.seq (mbuffer, 0)
  let x ← put 4 header.ack x
  let x ← put 4 header.wnd x
  put 2 header.flag.toNat x

/-- The length and the payload; the length is 0 where `data` is `NULL` or empty. -/
def putData (data : Option Packet) (size : Nat) (x : List Byte × Nat) : Except ByteFault (List Byte × Nat) := do
  match data with
  | none => put 2 0 x
  | some data =>
    let len ← data.len
    if len ≠ 0 then
      let x ← put 2 (u16 len) x
      require (size ≥ u32 (x.2 + len)) .wcpRoom
      return (← store x.1 x.2 (← load data.mBuffer data.mReadIdx len), u16 (x.2 + (len &&& 0xFFFF)))
    else put 2 0 x

/-- `WCPPACK_TO_UDPMESSAGE`: `mbuffer` and `wlen` after it; `wlen` is a `u16_t` where it is used. -/
def PackInMemory.toUdpmessage (pack : PackInMemory) (mbuffer : List Byte) (size : Nat) : Except ByteFault (List Byte × Nat) := do
  require (wcpHeaderLen ≤ size) .wcpSize
  match pack.data with
  | none => putData none size (← putHeader pack.header mbuffer)
  | some data =>
    require ((← data.len) ≤ wcpMdu) .wcpMdu
    putData data size (← putHeader pack.header mbuffer)

/-- `read_impl<T>(mbuffer + rlen); rlen += sizeof(T)` with `sizeof(T) = size` -/
def fetch (size : Nat) (mbuffer : List Byte) (rlen : Nat) : Except ByteFault (Nat × Nat) := do
  return (readImpl size (← load mbuffer rlen size), u32 (rlen + size))

/-- `WCP_RECEIVED_PACK_FROM_UDPMESSAGE`: the `header` and the `data` of a pack just made -/
def fromUdpmessage (mbuffer : List Byte) (len : Nat) : Except ByteFault (WcpHeader × Option Packet) := do
  require (wcpHeaderLen ≤ len) .wcpHeader
  let (seq, rlen) ← fetch 4 mbuffer 0
  let (ack, rlen) ← fetch 4 mbuffer rlen
  let (wnd, rlen) ← fetch 4 mbuffer rlen
  let (flag, rlen) ← fetch 2 mbuffer rlen
  let (dlen, rlen) ← fetch 2 mbuffer rlen
  let header : WcpHeader := { seq := seq, ack := ack, wnd := wnd, flag := BitVec.ofNat 16 flag, dlen := dlen }
  if dlen ≠ 0 then
    require (dlen ≤ wcpMdu) .wcpDlenMax
    require (dlen = subU32 len rlen) .wcpDlen
    let data ← Packet.new dlen packInitLeftCapacity
    return (header, some (← data.write (mbuffer.drop rlen) dlen))
  return (header, none)

/-! ### Writing at a running offset -/

/-- The first `wlen` bytes of the buffer are `bs`. -/
structure Written (size : Nat) (bs : List Byte) (x : List Byte × Nat) : Prop where
  length_eq : x.1.length = size
  wlen_eq : x.2 = bs.length
  take_eq : x.1.take bs.length = bs

namespace Written

variable {size : Nat} {bs : List Byte} {x : List Byte × Nat} (h : Written size bs x) (hsize : size < 2 ^ 16)
include h hsize

theorem store (bs' : List Byte) (hroom : bs.length + bs'.length ≤ size) :
    ∃ m, Wawo.store x.1 x.2 bs' = .ok m ∧ Written size (bs ++ bs') (m, u16 (x.2 + bs'.length)) := by
  have hlen := h.length_eq
  have hwlen := h.wlen_eq
  have hfits : x.2 + bs'.length ≤ x.1.length := by omega
  refine ⟨poke x.1 x.2 bs', store_eq hfits, ?_, ?_, ?_⟩
  · rw [length_poke hfits, hlen]
  · rw [List.length_append, u16_of_lt (by omega), hwlen]
  · have htake := take_poke hfits
    rw [hwlen, h.take_eq] at htake
    rw [List.length_append, hwlen, htake]

theorem put (n val : Nat) (hroom : bs.length + n ≤ size) :
    ∃ x', Wawo.put n val x = .ok x' ∧ Written size (bs ++ writeImpl n val) x' := by
  obtain ⟨m, hstore, hwritten⟩ := h.store hsize (writeImpl n val) (by rwa [length_writeImpl])
  rw [length_writeImpl] at hwritten
  refine ⟨_, ?_, hwritten⟩
  unfold Wawo.put
  rw [hstore, ok_bind, pure_eq_ok]

omit hsize in
theorem length_take : (x.1.take x.2).length = x.2 := by
  rw [h.wlen_eq, h.take_eq]

end Written

/-- The bytes of a datagram -/
def encoded (header : WcpHeader) (c : List Byte) : List Byte :=
  writeImpl 4 header.seq ++ (writeImpl 4 header.ack ++ (writeImpl 4 header.wnd ++
    (writeImpl 2 header.flag.toNat ++ (writeImpl 2 c.length ++ c))))

theorem length_encoded (header : WcpHeader) (c : List Byte) : (encoded header c).length = wcpHeaderLen + c.length := by
  simp only [encoded, List.length_append, length_writeImpl, wcpHeaderLen]
  omega

section

variable {size : Nat} (hsize : size < 2 ^ 16)
include hsize

theorem putHeader_written (header : WcpHeader) {mbuffer : List Byte} (hbuffer : mbuffer.length = size) (hroom : wcpHeaderLen ≤ size) :
    ∃ x, putHeader header mbuffer = .ok x ∧
      Written size (writeImpl 4 header.seq ++ writeImpl 4 header.ack ++ writeImpl 4 header.wnd ++ writeImpl 2 header.flag.toNat) x := by
  have hheader : wcpHeaderLen = 16 := rfl
  have h₀ : Written size [] (mbuffer, 0) := ⟨hbuffer, rfl, rfl⟩
  obtain ⟨x₁, hseq, h₁⟩ := h₀.put hsize 4 header.seq (by rw [List.length_nil]; omega)
  rw [List.nil_append] at h₁
  obtain ⟨x₂, hack, h₂⟩ := h₁.put hsize 4 header.ack (by rw [length_writeImpl]; omega)
  obtain ⟨x₃, hwnd, h₃⟩ := h₂.put hsize 4 header.wnd
    (by simp only [List.length_append, length_writeImpl]; omega)
  obtain ⟨x₄, hflag, h₄⟩ := h₃.put hsize 2 header.flag.toNat
    (by simp only [List.length_append, length_writeImpl]; omega)
  refine ⟨x₄, ?_, h₄⟩
  unfold putHeader
  rw [hseq, ok_bind, hack, ok_bind, hwnd, ok_bind, hflag]

theorem putData_written {data : Option Packet} {bs : List Byte} {x : List Byte × Nat}
    (hdata : ∀ p, data = some p → p.Holds p.bytes) (h : Written size bs x) (hroom : bs.length + 2 + (payload data).length ≤ size) :
    ∃ x', putData data size x = .ok x' ∧ Written size (bs ++ (writeImpl 2 (payload data).length ++ payload data)) x' := by
  obtain ⟨x₀, hput₀, h₀⟩ := h.put hsize 2 0 (by omega)
  cases data with
  | none =>
    refine ⟨x₀, hput₀, ?_⟩
    rwa [payload, List.length_nil, List.append_nil]
  | some p =>
    have hheld : p.Holds (payload (some p)) := hdata p rfl
    obtain ⟨c, hc⟩ : ∃ c, c = payload (some p) := ⟨_, rfl⟩
    rw [← hc] at hheld hroom ⊢
    unfold putData
    dsimp only
    rw [hheld.len_eq, ok_bind]
    by_cases hnil : c = []
    · subst hnil
      refine ⟨x₀, ?_, ?_⟩
      · rw [List.length_nil, if_neg (by decide), hput₀]
      · rwa [List.length_nil, List.append_nil]
    · have hpos := List.length_pos_iff.mpr hnil
      obtain ⟨x₁, hput, h₁⟩ := h.put hsize 2 c.length (by omega)
      have hwlen := h₁.wlen_eq
      rw [List.length_append, length_writeImpl] at hwlen
      obtain ⟨m, hstore, h₂⟩ := h₁.store hsize c (by rw [List.length_append, length_writeImpl]; omega)
      have hand : c.length &&& 0xFFFF = c.length := by
        rw [show 0xFFFF = 2 ^ 16 - 1 from rfl, Nat.and_two_pow_sub_one_eq_mod, Nat.mod_eq_of_lt (by omega)]
      have hload := hheld.load_front le_rfl
      rw [List.take_length] at hload
      rw [List.append_assoc] at h₂
      refine ⟨_, ?_, h₂⟩
      rw [if_pos (by omega), u16_of_lt (by omega), hput, ok_bind, require_eq (by rw [u32_of_lt (by omega)]; omega), ok_bind, hload,
        ok_bind, hstore, ok_bind, hand, pure_eq_ok]

end

/-- The packet is well formed and not too long. -/
def PackInMemory.Fits (pack : PackInMemory) : Prop :=
  (∀ data, pack.data = some data → data.Holds data.bytes) ∧ (payload pack.data).length ≤ wcpMdu

/-- Header and payload stand at the front of a buffer that has room for them. -/
theorem PackInMemory.Fits.toUdpmessage {pack : PackInMemory} (h : pack.Fits) {mbuffer : List Byte} {size : Nat} (hsize : size < 2 ^ 16)
    (hbuffer : mbuffer.length = size) (hroom : wcpHeaderLen + (payload pack.data).length ≤ size) :
    ∃ x, pack.toUdpmessage mbuffer size = .ok x ∧ Written size (encoded pack.header (payload pack.data)) x := by
  have hheader : wcpHeaderLen = 16 := rfl
  obtain ⟨x₁, hput, h₁⟩ := putHeader_written hsize pack.header hbuffer (by omega)
  obtain ⟨x₂, hdata, h₂⟩ := putData_written hsize h.1 h₁ (by simp only [List.length_append, length_writeImpl]; omega)
  refine ⟨x₂, ?_, by simpa only [encoded, List.append_assoc] using h₂⟩
  obtain ⟨header, data⟩ := pack
  unfold PackInMemory.toUdpmessage
  dsimp only at hput hdata ⊢
  rw [require_eq (by omega), ok_bind]
  cases data with
  | none =>
    dsimp only
    rw [hput, ok_bind, hdata]
  | some data =>
    have hlen : data.len = .ok (payload (some data)).length := (h.1 data rfl).len_eq
    have hmdu : (payload (some data)).length ≤ wcpMdu := h.2
    dsimp only
    rw [hlen, ok_bind, require_eq hmdu, ok_bind, hput, ok_bind, hdata]

/-! ### Reading at a running offset -/

theorem fetch_eq {size val rlen : Nat} {mbuffer rest : List Byte} (h : mbuffer.drop rlen = writeImpl size val ++ rest) (hsize : 0 < size)
    (hval : val < 2 ^ (8 * size)) (hrlen : rlen + size < 2 ^ 32) :
    fetch size mbuffer rlen = .ok (val, rlen + size) ∧ mbuffer.drop (rlen + size) = rest := by
  have hlen := congrArg List.length h
  rw [List.length_drop, List.length_append, length_writeImpl] at hlen
  have hslice : slice mbuffer rlen size = writeImpl size val := by
    rw [slice, h, List.take_left' (length_writeImpl size val)]
  refine ⟨?_, ?_⟩
  · unfold fetch
    rw [load_eq (by omega), ok_bind, hslice, readImpl_writeImpl hval, u32_of_lt hrlen, pure_eq_ok]
  · rw [← List.drop_drop, h, List.drop_left' (length_writeImpl size val)]

/-- Only the bytes that are written are read. -/
theorem Packet.write_append {p : Packet} (c rest : List Byte) : p.write (c ++ rest) c.length = p.write c c.length := by
  have hload : load (c ++ rest) 0 c.length = load c 0 c.length := by
    rw [load_eq (by rw [List.length_append]; omega), load_eq (by omega), slice_append_of_le (by omega)]
  unfold Packet.write
  rw [hload]

/-- The numbers of a header fit into their fields. -/
structure WcpHeader.InRange (header : WcpHeader) : Prop where
  seq_lt : header.seq < 2 ^ 32
  ack_lt : header.ack < 2 ^ 32
  wnd_lt : header.wnd < 2 ^ 32

/-- The reader gives back what has been encoded, whatever stands behind it in the buffer. -/
theorem fromUdpmessage_encoded {header : WcpHeader} (hr : header.InRange) {c : List Byte} (hc : c.length ≤ wcpMdu) (rest : List Byte) :
    ∃ data, fromUdpmessage (encoded header c ++ rest) (encoded header c).length = .ok ({ header with dlen := c.length }, data) ∧
      payload data = c ∧ ∀ p, data = some p → p.Holds c := by
  have hmdu : wcpMdu = 1384 := rfl
  have hheader : wcpHeaderLen = 16 := rfl
  have h₀ : (encoded header c ++ rest).drop 0 = writeImpl 4 header.seq ++ (writeImpl 4 header.ack ++ (writeImpl 4 header.wnd ++
      (writeImpl 2 header.flag.toNat ++ (writeImpl 2 c.length ++ (c ++ rest))))) := by
    simp only [encoded, List.drop_zero, List.append_assoc]
  obtain ⟨hseq, h₁⟩ := fetch_eq h₀ (by decide) hr.seq_lt (by decide)
  obtain ⟨hack, h₂⟩ := fetch_eq h₁ (by decide) hr.ack_lt (by decide)
  obtain ⟨hwnd, h₃⟩ := fetch_eq h₂ (by decide) hr.wnd_lt (by decide)
  obtain ⟨hflag, h₄⟩ := fetch_eq h₃ (by decide) header.flag.isLt (by decide)
  obtain ⟨hdlen, h₅⟩ := fetch_eq h₄ (by decide) (by omega) (by decide)
  unfold fromUdpmessage
  rw [length_encoded, require_eq (by omega), ok_bind, hseq, ok_bind]
  dsimp only
  rw [hack, ok_bind]
  dsimp only
  rw [hwnd, ok_bind]
  dsimp only
  rw [hflag, ok_bind]
  dsimp only
  rw [hdlen, ok_bind]
  dsimp only
  rw [BitVec.ofNat_toNat, BitVec.setWidth_eq]
  by_cases hnil : c = []
  · subst hnil
    exact ⟨none, by rw [List.length_nil, if_neg (by decide), pure_eq_ok], rfl, nofun⟩
  · have hpos := List.length_pos_iff.mpr hnil
    obtain ⟨p, hnew, hheld, hs⟩ := Packet.new_spare (r := c.length) (hc.trans (by decide))
    obtain ⟨p', hwrite, hheld', -⟩ := hheld.write_spare c (r := 0) hs
    rw [← Packet.write_append c rest] at hwrite
    rw [List.nil_append] at hheld'
    have hsub : subU32 (wcpHeaderLen + c.length) (0 + 4 + 4 + 4 + 2 + 2) = c.length := by
      unfold subU32
      omega
    refine ⟨some p', ?_, hheld'.bytes_eq, fun _ hp => Option.some.inj hp ▸ hheld'⟩
    rw [if_pos (by omega), require_eq hc, ok_bind, require_eq hsub.symm, ok_bind, hnew, ok_bind, h₅, hwrite, ok_bind, pure_eq_ok]

/-! ### There and back -/

/-- What a datagram carries. -/
def PackInMemory.content (pack : PackInMemory) : WcpHeader × List Byte :=
  ({ pack.header with dlen := (payload pack.data).length }, payload pack.data)

theorem PackInMemory.Fits.toUdpmessage_mtu {pack : PackInMemory} (h : pack.Fits) {mbuffer : List Byte} (hbuffer : mbuffer.length = wcpMtu) :
    ∃ m wlen, pack.toUdpmessage mbuffer wcpMtu = .ok (m, wlen) ∧ Written wcpMtu (encoded pack.header (payload pack.data)) (m, wlen) := by
  have hmdu : wcpHeaderLen + wcpMdu = wcpMtu := rfl
  have hle := h.2
  obtain ⟨x, hput, hx⟩ := h.toUdpmessage (show wcpMtu < 2 ^ 16 by decide) hbuffer (by omega)
  exact ⟨x.1, x.2, hput, hx⟩

theorem fromUdpmessage_written {pack : PackInMemory} (h : pack.Fits) (hr : pack.header.InRange) {size wlen : Nat} {m : List Byte}
    (hx : Written size (encoded pack.header (payload pack.data)) (m, wlen)) (buffer : List Byte) (hbuffer : buffer.take wlen = m.take wlen) :
    ∃ data, fromUdpmessage buffer wlen = .ok (pack.content.1, data) ∧ payload data = pack.content.2 ∧
      ∀ p, data = some p → p.Holds pack.content.2 := by
  obtain rfl : wlen = _ := hx.wlen_eq
  have hsplit := List.take_append_drop (encoded pack.header (payload pack.data)).length buffer
  rw [hbuffer, hx.take_eq] at hsplit
  rw [← hsplit]
  exact fromUdpmessage_encoded hr h.2 _

/-- A pack of any header and of any payload up to `WCP_MDU` is written into a buffer of `WCP_MTU` bytes
without a failed assertion. A buffer that begins with the bytes written is read as the same header,
with the length of the payload, and the same payload, and packs with another header or payload are
written as other bytes. -/
theorem udpmessage_round_trip {pack : PackInMemory} (h : pack.Fits) (hr : pack.header.InRange) {mbuffer : List Byte}
    (hbuffer : mbuffer.length = wcpMtu) :
    ∃ m wlen, pack.toUdpmessage mbuffer wcpMtu = .ok (m, wlen) ∧ wlen = wcpHeaderLen + (payload pack.data).length ∧
      (∀ buffer, buffer.take wlen = m.take wlen →
        ∃ data, fromUdpmessage buffer wlen = .ok ({ pack.header with dlen := (payload pack.data).length }, data) ∧
          payload data = payload pack.data) ∧
      ∀ (pack' : PackInMemory) (mbuffer' m' : List Byte) (wlen' : Nat), pack'.Fits → pack'.header.InRange → mbuffer'.length = wcpMtu →
        pack'.toUdpmessage mbuffer' wcpMtu = .ok (m', wlen') → pack'.content ≠ pack.content → m'.take wlen' ≠ m.take wlen := by
  obtain ⟨m, wlen, hput, hx⟩ := h.toUdpmessage_mtu hbuffer
  refine ⟨m, wlen, hput, ?_, fun buffer hbuffer => ?_, ?_⟩
  · rw [← length_encoded pack.header]
    exact hx.wlen_eq
  · obtain ⟨data, hfrom, hdata, -⟩ := fromUdpmessage_written h hr hx buffer hbuffer
    exact ⟨data, hfrom, hdata⟩
  · intro pack' mbuffer' m' wlen' h' hr' hbuffer' hput' hne heq
    obtain ⟨m₂, wlen₂, hput₂, hx'⟩ := h'.toUdpmessage_mtu hbuffer'
    rw [hput₂] at hput'
    cases hput'
    obtain rfl : wlen' = wlen := hx'.length_take.symm.trans ((congrArg List.length heq).trans hx.length_take)
    obtain ⟨data, hfrom, hdata, -⟩ := fromUdpmessage_written h hr hx m rfl
    obtain ⟨data', hfrom', hdata', -⟩ := fromUdpmessage_written h' hr' hx' m heq.symm
    obtain ⟨hheader, rfl⟩ := Prod.mk.inj (Except.ok.inj (hfrom.symm.trans hfrom'))
    exact hne (Prod.ext hheader.symm (hdata'.symm.trans hdata))

/-- A pack of three bytes, with a sequence number and a flag that need their highest byte -/
theorem udpmessage_round_trip_bytes :
    ∃ (pack : PackInMemory) (m : List Byte) (wlen : Nat), pack.header = ⟨4000000000, 7, 65536, BitVec.ofNat 16 33000, 0⟩ ∧
      pack.toUdpmessage (List.replicate wcpMtu 0) wcpMtu = .ok (m, wlen) ∧ wlen = 19 ∧
      ∃ data, fromUdpmessage m wlen = .ok (⟨4000000000, 7, 65536, BitVec.ofNat 16 33000, 3⟩, data) ∧ payload data = [1, 2, 3] := by
  obtain ⟨p₀, -, hheld₀, hs⟩ := Packet.new_spare (r := 3) (by decide)
  obtain ⟨p, -, hheld, -⟩ := hheld₀.write_spare [1, 2, 3] (r := 0) hs
  have hbytes : p.bytes = [1, 2, 3] := hheld.bytes_eq
  have hfits : PackInMemory.Fits ⟨⟨4000000000, 7, 65536, BitVec.ofNat 16 33000, 0⟩, some p⟩ := by
    refine ⟨fun q hq => ?_, ?_⟩
    · cases hq
      rwa [hbytes]
    · rw [payload, hbytes]
      decide
  have hrange : WcpHeader.InRange ⟨4000000000, 7, 65536, BitVec.ofNat 16 33000, 0⟩ := ⟨by decide, by decide, by decide⟩
  have hbuffer : (List.replicate wcpMtu (0 : Byte)).length = wcpMtu := List.length_replicate ..
  obtain ⟨m, wlen, hput, hwlen, hfrom, -⟩ := udpmessage_round_trip hfits hrange hbuffer
  obtain ⟨data, hdecoded, hdata⟩ := hfrom m rfl
  rw [payload, hbytes] at hwlen hdecoded hdata
  exact ⟨_, m, wlen, rfl, hput, hwlen, data, hdecoded, hdata⟩

/-! ### `pump_packs` -/

/-- A region, cell by cell -/
theorem slice_eq_map {l : List Byte} {i n : Nat} (h : i + n ≤ l.length) : slice l i n = (List.range n).map fun k => l.getD (i + k) 0 := by
  refine List.ext_getElem ?_ fun k h₁ h₂ => ?_
  · rw [length_slice_of_le h, List.length_map, List.length_range]
  · rw [length_slice_of_le h] at h₁
    have hin : i + k < l.length := by omega
    rw [List.getElem_map, List.getElem_range, List.getD_eq_getElem?_getD, List.getElem?_eq_getElem hin, Option.getD_some]
    simp only [slice, List.getElem_take, List.getElem_drop]

theorem shiftLeft_or_byte (ret : Nat) (b : Byte) : ret <<< 8 ||| b.toNat = ret * 256 + b.toNat := by
  rw [← Nat.shiftLeft_add_eq_or_of_lt b.toNat_lt, Nat.shiftLeft_eq]

theorem readImpl_two (a b : Byte) : readImpl 2 [a, b] = a.toNat <<< 8 ||| b.toNat := by
  have ha : a.toNat < 2 ^ 8 := a.toNat_lt
  have hzero : readImplRound 2 0 a = a.toNat := by rw [readImplRound_eq (by decide), Nat.zero_mul, Nat.zero_add]
  have hrounds : readImpl 2 [a, b] = readImplRound 2 (readImplRound 2 0 a) b := rfl
  rw [hrounds, hzero, readImplRound_eq (by omega), shiftLeft_or_byte]

theorem readImpl_four (a b c d : Byte) : readImpl 4 [a, b, c, d] = readU32 a b c d := by
  have ha : a.toNat < 2 ^ 8 := a.toNat_lt
  have hb : b.toNat < 2 ^ 8 := b.toNat_lt
  have hc : c.toNat < 2 ^ 8 := c.toNat_lt
  have hzero : readImplRound 4 0 a = a.toNat := by rw [readImplRound_eq (by decide), Nat.zero_mul, Nat.zero_add]
  have hrounds : readImpl 4 [a, b, c, d] = readImplRound 4 (readImplRound 4 (readImplRound 4 (readImplRound 4 0 a) b) c) d := rfl
  have htwo : readImplRound 4 a.toNat b = a.toNat * 256 + b.toNat := readImplRound_eq (by omega)
  have hthree : readImplRound 4 (a.toNat * 256 + b.toNat) c = (a.toNat * 256 + b.toNat) * 256 + c.toNat := readImplRound_eq (by omega)
  rw [hrounds, hzero, htwo, hthree, readImplRound_eq (by omega), readU32, shiftLeft_or_byte, shiftLeft_or_byte, shiftLeft_or_byte]

theorem fetch_two {l : List Byte} {i : Nat} (h : i + 2 ≤ l.length) (hi : i + 2 < 2 ^ 32) : fetch 2 l i = .ok (readU16At l i, i + 2) := by
  unfold fetch
  rw [load_eq h, ok_bind, slice_eq_map h, u32_of_lt hi, pure_eq_ok]
  exact congrArg (fun v => Except.ok (v, i + 2)) (readImpl_two _ _)

theorem fetch_four {l : List Byte} {i : Nat} (h : i + 4 ≤ l.length) (hi : i + 4 < 2 ^ 32) : fetch 4 l i = .ok (readU32At l i, i + 4) := by
  unfold fetch
  rw [load_eq h, ok_bind, slice_eq_map h, u32_of_lt hi, pure_eq_ok]
  exact congrArg (fun v => Except.ok (v, i + 4)) (readImpl_four _ _ _ _)

/-- The macro on a datagram, by its header -/
theorem fromUdpmessage_eq (m : UdpMessage) (h : wcpHeaderLen ≤ m.bytes.length) :
    fromUdpmessage m.bytes m.bytes.length =
      if m.header.dlen ≠ 0 then do
        require (m.header.dlen ≤ wcpMdu) .wcpDlenMax
        require (m.header.dlen = m.bytes.length - wcpHeaderLen) .wcpDlen
        let data ← Packet.new m.header.dlen packInitLeftCapacity
        return (m.header, some (← data.write (m.bytes.drop wcpHeaderLen) m.header.dlen))
      else .ok (m.header, none) := by
  have hheader : wcpHeaderLen = 16 := rfl
  have hmax := m.len_le
  have hmtu : wcpMtu = 1400 := rfl
  have hsub : subU32 m.bytes.length (0 + 4 + 4 + 4 + 2 + 2) = m.bytes.length - wcpHeaderLen := by
    unfold subU32
    omega
  unfold fromUdpmessage
  rw [require_eq h, ok_bind, fetch_four (by omega) (by omega), ok_bind]
  dsimp only
  rw [fetch_four (by omega) (by omega), ok_bind]
  dsimp only
  rw [fetch_four (by omega) (by omega), ok_bind]
  dsimp only
  rw [fetch_two (by omega) (by omega), ok_bind]
  dsimp only
  rw [fetch_two (by omega) (by omega), ok_bind]
  dsimp only
  rw [hsub]
  rfl

/-- `receivedPack` is the macro, with the contents of the packet for the packet. -/
theorem receivedPack_refines (m : UdpMessage) :
    (∀ p, m.receivedPack = .ok p →
      ∃ data, fromUdpmessage m.bytes m.bytes.length = .ok (p.header, data) ∧ payload data = p.data ∧ p.fromAddr = m.fromAddr) ∧
    ∀ f, m.receivedPack = .error f → ∃ f', fromUdpmessage m.bytes m.bytes.length = .error f' := by
  have hlen : (m.bytes.drop wcpHeaderLen).length = m.bytes.length - wcpHeaderLen := List.length_drop ..
  by_cases hheader : wcpHeaderLen ≤ m.bytes.length
  case neg =>
    refine ⟨fun p hp => ?_, fun f _ => ⟨.wcpHeader, ?_⟩⟩
    · rw [UdpMessage.receivedPack, if_pos (by omega)] at hp
      cases hp
    · rw [fromUdpmessage, require_ne hheader]
      rfl
  rw [fromUdpmessage_eq m hheader, UdpMessage.receivedPack, if_neg (by omega)]
  by_cases h0 : m.header.dlen = 0
  · rw [dif_pos h0, if_neg (not_not_intro h0)]
    refine ⟨fun p hp => ?_, nofun⟩
    cases hp
    exact ⟨none, rfl, rfl, rfl⟩
  rw [dif_neg h0, if_pos h0]
  by_cases hmax : m.header.dlen ≤ wcpMdu
  case neg =>
    rw [dif_neg hmax, require_ne hmax]
    exact ⟨nofun, fun f _ => ⟨.wcpDlenMax, rfl⟩⟩
  rw [dif_pos hmax, require_eq hmax, ok_bind]
  by_cases hdlen : m.header.dlen = (m.bytes.drop wcpHeaderLen).length
  case neg =>
    rw [dif_neg hdlen, require_ne (by omega)]
    exact ⟨nofun, fun f _ => ⟨.wcpDlen, rfl⟩⟩
  rw [dif_pos hdlen, require_eq (by omega), ok_bind]
  refine ⟨fun p hp => ?_, nofun⟩
  cases hp
  obtain ⟨p, hnew, hheld, hs⟩ := Packet.new_spare (r := m.header.dlen) (hmax.trans (by decide))
  obtain ⟨p', hwrite, hheld', -⟩ := hheld.write_spare (m.bytes.drop wcpHeaderLen) (r := 0) (by rwa [← hdlen])
  rw [← hdlen] at hwrite
  refine ⟨some p', ?_, hheld'.bytes_eq, rfl⟩
  rw [hnew, ok_bind, hwrite, ok_bind, pure_eq_ok]

end Wawo
