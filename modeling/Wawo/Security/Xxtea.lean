import Wawo.Bytes.Packet
import Wawo.Security.Btea

/-!
# The cipher (`xxtea.hpp`)

The plaintext is padded with zeros to whole words, its length is the word after them, and the words
are one block. On a little-endian machine the words are copied, on a big-endian one shifted together
byte by byte; `memory` is the bytes of an array of words, least significant first, and both ways write
and read them alike (`xxtea_endian`). Allocation is taken to succeed.
-/

namespace Wawo

open Memory Lts

def eXxteaInvalidData : Int := -20012
def eXxteaDecryptFailed : Int := -20013

/-- `data[i]` -/
def byteAt (data : List Byte) (i : Nat) : Except ByteFault Byte :=
  match data[i]? with
  | some b => .ok b
  | none => .error .outOfBounds

/-- `xxtea_to_bytes_array(arr, alength, data, dlen)` -/
def xxteaToBytesArray (littleEndian : Bool) (arr : List Byte) (alength : Nat) (data : List Word) (dlen : Nat) : Except ByteFault (List Byte) := do
  require (dlen >>> 2 ≤ alength) .xxteaToBytes
  if littleEndian then
    store arr 0 (← load (memory data) 0 alength)
  else
    (List.range alength).foldlM (fun arr i => do store arr i [byteOf (← wordAt data (i >>> 2)) (i &&& 3)]) arr

/-- `xxtea_to_uint32_array(arr, alength, data, dlen)` -/
def xxteaToUint32Array (littleEndian : Bool) (arr : List Word) (alength : Nat) (data : List Byte) (dlen : Nat) : Except ByteFault (List Word) := do
  require (alength ≥ dlen >>> 2) .xxteaToWords
  if littleEndian then
    return words (← store (memory arr) 0 (← load data 0 dlen))
  else
    (List.range dlen).foldlM (fun arr i => do
      let w ← wordAt arr (i >>> 2)
      return arr.set (i >>> 2) (w ||| byteAtWord (← byteAt data i) (i &&& 3))) arr

/-- The key as `xxtea_encrypt` and `xxtea_decrypt` take it. -/
def xxteaKeyWords (littleEndian : Bool) (key : List Byte) (klen : Nat) : Except ByteFault (List Word) := do
  require (klen > 0) .xxteaKey
  let tmp ← store (List.replicate 16 0) 0 (← load key 0 (min klen 16))
  xxteaToUint32Array littleEndian (List.replicate 4 0) 4 tmp 16

/-- `xxtea_encrypt(data, dlen, key, klen, ec)`: `encrypted_data` -/
def xxteaEncrypt (littleEndian : Bool) (data : List Byte) (dlen : Nat) (key : List Byte) (klen : Nat) : Except ByteFault (List Byte) := do
  let u32k ← xxteaKeyWords littleEndian key klen
  let u32len := if dlen &&& 3 = 0 then dlen >>> 2 else (dlen >>> 2) + 1
  let u32data := (List.replicate (u32len + 1) 0).set u32len (BitVec.ofNat 32 dlen)
  let u32data ← xxteaToUint32Array littleEndian u32data u32len data dlen
  let u32data ← bteaEncrypt u32data (u32len + 1) u32k
  let length := u32 ((u32len + 1) <<< 2)
  xxteaToBytesArray littleEndian (List.replicate length 0) length u32data u32len

/-- `xxtea_decrypt(data, dlen, key, klen, ec)`: `ec`, with `decrypted_data` if it is set. -/
def xxteaDecrypt (littleEndian : Bool) (data : List Byte) (dlen : Nat) (key : List Byte) (klen : Nat) :
    Except ByteFault (Int × Option (List Byte)) := do
  require (klen > 0) .xxteaKey
  if dlen &&& 3 ≠ 0 then
    return (eXxteaInvalidData, none)
  let u32k ← xxteaKeyWords littleEndian key klen
  let u32len := dlen >>> 2
  let u32data ← xxteaToUint32Array littleEndian (List.replicate u32len 0) u32len data dlen
  let u32data ← bteaDecrypt u32data u32len u32k
  let length := (← wordAt u32data (u32len - 1)).toNat
  if length > dlen then
    return (eXxteaInvalidData, none)
  return (ok, some (← xxteaToBytesArray littleEndian (List.replicate length 0) length u32data (u32len - 1)))

/-- `xxtea`, on a machine of one byte order. -/
structure Xxtea where
  littleEndian : Bool
  mKey : List Byte
  length_mKey : mKey.length = 16
deriving DecidableEq

namespace Xxtea

/-- A copy to `m_key + off`. -/
def storeKey (cipher : Xxtea) (off : Nat) (bs : List Byte) : Except ByteFault Xxtea :=
  if h : off + bs.length ≤ cipher.mKey.length then
    .ok { cipher with mKey := poke cipher.mKey off bs, length_mKey := (length_poke h).trans cipher.length_mKey }
  else
    .error .outOfBounds

/-- `set_key(k, klen)` -/
def setKey (cipher : Xxtea) (k : List Byte) (klen : Nat) : Except ByteFault Xxtea := do
  require (klen > 0) .xxteaKey
  let cipher ← cipher.storeKey 0 (← load k 0 klen)
  cipher.storeKey klen (List.replicate (16 - klen) 'z'.toUInt8)

/-- `xxtea()` -/
def new (littleEndian : Bool) : Except ByteFault Xxtea :=
  setKey ⟨littleEndian, List.replicate 16 0, List.length_replicate⟩ (List.replicate 16 0) 16

/-- `encrypt(in, out)` with the `out` it sets; `xxtea_encrypt` does not fail. -/
def encrypt (cipher : Xxtea) (inp : Packet) : Except ByteFault (Int × Packet) := do
  let dlen ← inp.len
  let data ← xxteaEncrypt cipher.littleEndian (← load inp.mBuffer inp.mReadIdx dlen) dlen cipher.mKey 16
  let encrypted ← Packet.new data.length packInitLeftCapacity
  return (ok, ← encrypted.write data data.length)

/-- `decrypt(in, out)`: what it returns, with `out` if it is set. -/
def decrypt (cipher : Xxtea) (inp : Packet) : Except ByteFault (Int × Option Packet) := do
  let dlen ← inp.len
  let (ec, tea) ← xxteaDecrypt cipher.littleEndian (← load inp.mBuffer inp.mReadIdx dlen) dlen cipher.mKey 16
  require (ec = ok) .xxteaEc
  match tea with
  | none => return (eXxteaDecryptFailed, none)
  | some data =>
    let decrypted ← Packet.new data.length packInitLeftCapacity
    return (ec, some (← decrypted.write data data.length))

end Xxtea

/-! ### Copies between words and bytes -/

theorem byteAt_eq {data : List Byte} {i : Nat} (h : i < data.length) : byteAt data i = .ok data[i] := by
  rw [byteAt, List.getElem?_eq_getElem h]

theorem shiftRight_two (k : Nat) : k >>> 2 = k / 4 := Nat.shiftRight_eq_div_pow k 2

theorem and_three (k : Nat) : k &&& 3 = k % 4 := Nat.and_two_pow_sub_one_eq_mod k 2

theorem byteOf_wordD {ws : List Word} {k : Nat} (hk : k < (memory ws).length) : byteOf (wordD ws (k / 4)) (k % 4) = (memory ws)[k] := by
  have hin : k / 4 < ws.length := by
    rw [length_memory] at hk
    omega
  have h := getElem?_memory ws k
  rw [List.getElem?_eq_getElem hk, List.getElem?_eq_getElem hin, Option.map_some, ← wordD_eq hin] at h
  exact (Option.some.inj h).symm

/-- A byte put into a word whose byte there is zero is put there in memory. -/
theorem memory_set_or {ws : List Word} {k : Nat} {b : Byte} (hk : k < (memory ws).length) (hzero : (memory ws)[k] = 0) :
    memory (ws.set (k / 4) (wordD ws (k / 4) ||| byteAtWord b (k % 4))) = (memory ws).set k b := by
  have hin : k / 4 < ws.length := by
    rw [length_memory] at hk
    omega
  refine List.ext_getElem? fun i => ?_
  rw [getElem?_memory, List.getElem?_set, List.getElem?_set, getElem?_memory]
  by_cases hi : k / 4 = i / 4
  · rw [if_pos hi, if_pos hin, Option.map_some, byteOf_or (Nat.mod_lt _ (by decide))]
    by_cases hki : k = i
    · subst hki
      rw [if_pos rfl, if_pos rfl, if_pos hk, byteOf_wordD hk, hzero, UInt8.zero_or]
    · rw [if_neg (by omega), if_neg hki, ← hi, List.getElem?_eq_getElem hin, Option.map_some, wordD_eq hin]
  · have hki : k ≠ i := by
      rintro rfl
      exact hi rfl
    rw [if_neg hi, if_neg hki]

/-- On both machines the bytes are written over the front of an array that is zero there. -/
theorem xxteaToUint32Array_copies (littleEndian : Bool) (arr : List Word) (alength : Nat) (data : List Byte) (dlen : Nat)
    (hdata : dlen ≤ data.length) (hroom : dlen ≤ 4 * arr.length) (hzero : ∀ b ∈ (memory arr).take dlen, b = 0) (hlen : dlen >>> 2 ≤ alength) :
    ∃ ws, xxteaToUint32Array littleEndian arr alength data dlen = .ok ws ∧ memory ws = data.take dlen ++ (memory arr).drop dlen := by
  rw [← length_memory] at hroom
  unfold xxteaToUint32Array
  rw [require_eq hlen, ok_bind]
  cases littleEndian with
  | true =>
    have hslice : slice data 0 dlen = data.take dlen := by rw [slice, List.drop_zero]
    have hlength : (data.take dlen).length = dlen := List.length_take_of_le hdata
    have hin : 0 + (data.take dlen).length ≤ (memory arr).length := by omega
    have hpoke : poke (memory arr) 0 (data.take dlen) = data.take dlen ++ (memory arr).drop dlen := by
      rw [poke, hlength, List.take_zero, List.nil_append, Nat.zero_add]
    refine ⟨words (poke (memory arr) 0 (data.take dlen)), ?_, ?_⟩
    · rw [if_pos rfl, load_eq (by omega), ok_bind, hslice, store_eq hin, ok_bind, pure_eq_ok]
    · rw [memory_words (n := arr.length) (by rw [length_poke hin, length_memory]), hpoke]
  | false =>
    -- after `k` bytes, they stand before what the array had
    have hloop : ∀ k, k ≤ dlen → ∃ ws,
        (List.range k).foldlM (fun arr i => do
          let w ← wordAt arr (i >>> 2)
          return arr.set (i >>> 2) (w ||| byteAtWord (← byteAt data i) (i &&& 3))) arr = .ok ws ∧
        memory ws = data.take k ++ (memory arr).drop k := by
      intro k
      induction k with
      | zero => exact fun _ => ⟨arr, rfl, rfl⟩
      | succ k ih =>
        intro hk
        have hin : k < data.length := by omega
        obtain ⟨ws, hws, hmemory⟩ := ih (by omega)
        have hlength : (memory ws).length = (memory arr).length := by
          rw [hmemory, List.length_append, List.length_take, List.length_drop]
          omega
        have hcell : k < (memory ws).length := by omega
        have hzero : (memory ws)[k] = 0 := by
          refine hzero _ (List.mem_of_getElem? (i := k) ?_)
          rw [List.getElem?_take, if_pos (by omega), ← List.getElem?_eq_getElem, hmemory,
            List.getElem?_append_right (by rw [List.length_take]; omega), List.getElem?_drop, List.length_take, Nat.min_eq_left (by omega),
            Nat.sub_self, Nat.add_zero]
        have hword : k / 4 < ws.length := by
          rw [length_memory] at hlength
          omega
        refine ⟨ws.set (k / 4) (wordD ws (k / 4) ||| byteAtWord data[k] (k % 4)), ?_, ?_⟩
        · rw [List.range_succ, List.foldlM_append, hws, ok_bind, List.foldlM_cons, shiftRight_two, and_three, wordAt_eq hword, ok_bind,
            byteAt_eq hin, ok_bind, pure_eq_ok, ok_bind, List.foldlM_nil, pure_eq_ok]
        · rw [memory_set_or hcell hzero, hmemory, set_copied hin (by omega)]
    exact hloop dlen (Nat.le_refl _)

theorem xxteaToUint32Array_eq (littleEndian : Bool) (arr : List Word) (alength : Nat) (data : List Byte) (hroom : data.length ≤ 4 * arr.length)
    (hzero : (memory arr).take data.length = List.replicate data.length 0) (hlen : data.length >>> 2 ≤ alength) :
    ∃ ws, xxteaToUint32Array littleEndian arr alength data data.length = .ok ws ∧
      memory ws = data ++ (memory arr).drop data.length ∧ ws.length = arr.length := by
  obtain ⟨ws, hws, hmemory⟩ := xxteaToUint32Array_copies littleEndian arr alength data data.length (Nat.le_refl _) hroom
    (by rw [hzero]; exact fun b hb => List.eq_of_mem_replicate hb) hlen
  rw [List.take_length] at hmemory
  refine ⟨ws, hws, hmemory, ?_⟩
  have hlength := congrArg List.length hmemory
  rw [List.length_append, List.length_drop, length_memory, length_memory] at hlength
  omega

/-- On both machines the bytes of the words are written over the front of an array, least significant first. -/
theorem xxteaToBytesArray_copies (littleEndian : Bool) (arr : List Byte) (alength : Nat) (data : List Word) (dlen : Nat)
    (hdata : alength ≤ 4 * data.length) (hroom : alength ≤ arr.length) (hlen : dlen >>> 2 ≤ alength) :
    xxteaToBytesArray littleEndian arr alength data dlen = .ok ((memory data).take alength ++ arr.drop alength) := by
  rw [← length_memory] at hdata
  unfold xxteaToBytesArray
  rw [require_eq hlen, ok_bind]
  cases littleEndian with
  | true =>
    have hslice : slice (memory data) 0 alength = (memory data).take alength := by rw [slice, List.drop_zero]
    have hlength : ((memory data).take alength).length = alength := List.length_take_of_le hdata
    rw [if_pos rfl, load_eq (by omega), ok_bind, hslice, store_eq (by omega), poke, hlength, List.take_zero, List.nil_append, Nat.zero_add]
  | false =>
    have hloop : ∀ k, k ≤ alength →
        (List.range k).foldlM (fun arr i => do store arr i [byteOf (← wordAt data (i >>> 2)) (i &&& 3)]) arr =
          .ok ((memory data).take k ++ arr.drop k) := by
      intro k
      induction k with
      | zero => exact fun _ => rfl
      | succ k ih =>
        intro hk
        have hword : k / 4 < data.length := by
          rw [length_memory] at hdata
          omega
        have hcell : k < ((memory data).take k ++ arr.drop k).length := by
          rw [List.length_append, List.length_take, List.length_drop]
          omega
        rw [List.range_succ, List.foldlM_append, ih (by omega), ok_bind, List.foldlM_cons, shiftRight_two, and_three, wordAt_eq hword,
          ok_bind, byteOf_wordD (by omega), store_eq hcell, ok_bind, List.foldlM_nil, pure_eq_ok, poke_singleton hcell,
          set_copied (by omega) (by omega)]
    exact hloop alength (Nat.le_refl _)

theorem xxteaToBytesArray_eq (littleEndian : Bool) (alength : Nat) (data : List Word) (dlen : Nat) (hroom : alength ≤ 4 * data.length)
    (hlen : dlen >>> 2 ≤ alength) :
    xxteaToBytesArray littleEndian (List.replicate alength 0) alength data dlen = .ok ((memory data).take alength) := by
  rw [xxteaToBytesArray_copies littleEndian _ alength data dlen hroom (by rw [List.length_replicate]) hlen, List.drop_replicate,
    Nat.sub_self, List.replicate_zero, List.append_nil]

/-! ### The two byte orders

The ways that machines of the two kinds go write the same bytes, and leave the memory in the same cases. -/

theorem wordAt_outOfBounds {v : List Word} {i : Nat} (h : v.length ≤ i) : wordAt v i = .error .outOfBounds := by
  rw [wordAt, List.getElem?_eq_none h]

theorem byteAt_outOfBounds {data : List Byte} {i : Nat} (h : data.length ≤ i) : byteAt data i = .error .outOfBounds := by
  rw [byteAt, List.getElem?_eq_none h]

theorem wordAt_cases (v : List Word) (i : Nat) : wordAt v i = .error .outOfBounds ∨ ∃ w, wordAt v i = .ok w :=
  (Nat.lt_or_ge i v.length).symm.imp wordAt_outOfBounds fun h => ⟨_, wordAt_eq h⟩

theorem byteAt_cases (data : List Byte) (i : Nat) : byteAt data i = .error .outOfBounds ∨ ∃ b, byteAt data i = .ok b :=
  (Nat.lt_or_ge i data.length).symm.imp byteAt_outOfBounds fun h => ⟨_, byteAt_eq h⟩

theorem error_bind {α β : Type} (e : ByteFault) (k : α → Except ByteFault β) : ((.error e : Except ByteFault α) >>= k) = .error e := rfl

/-- Where the words lack a byte or the array lacks the room, both ways leave the memory. -/
theorem xxteaToBytesArray_outOfBounds (littleEndian : Bool) {arr : List Byte} {alength : Nat} {data : List Word} {dlen : Nat}
    (hlen : dlen >>> 2 ≤ alength) (hout : 4 * data.length < alength ∨ arr.length < alength) :
    xxteaToBytesArray littleEndian arr alength data dlen = .error .outOfBounds := by
  unfold xxteaToBytesArray
  rw [require_eq hlen, ok_bind]
  cases littleEndian with
  | true =>
    rw [if_pos rfl]
    by_cases hdata : 4 * data.length < alength
    · rw [load, if_neg (by rw [length_memory]; omega), error_bind]
    · rw [load_eq (by rw [length_memory]; omega), ok_bind, store, if_neg]
      rw [length_slice_of_le (by rw [length_memory]; omega)]
      omega
  | false =>
    have hstore : ∀ arr' : List Byte, arr'.length = arr.length → ∀ i b,
        (store arr' i [b] = .error .outOfBounds ∨ ∃ arr'', store arr' i [b] = .ok arr'' ∧ arr''.length = arr.length) := by
      intro arr' harr i b
      by_cases hi : i + [b].length ≤ arr'.length
      · exact .inr ⟨_, store_eq hi, (length_poke hi).trans harr⟩
      · exact .inl (if_neg hi)
    refine foldlM_error (a := alength - 1) (fun arr' => arr'.length = arr.length) ?_ (List.mem_range.mpr (by omega)) ?_ rfl
    · intro i _ arr' harr
      rcases wordAt_cases data (i >>> 2) with h | ⟨w, h⟩
      · exact .inl (by rw [h, error_bind])
      · rw [h, ok_bind]
        exact hstore arr' harr i _
    · intro arr' harr
      rcases hout with hdata | harr'
      · rw [wordAt_outOfBounds (by rw [shiftRight_two]; omega), error_bind]
      · rcases wordAt_cases data ((alength - 1) >>> 2) with h | ⟨w, h⟩
        · rw [h, error_bind]
        · rw [h, ok_bind, store, if_neg]
          rw [List.length_singleton]
          omega

/-- Where the bytes are fewer than they are said to be or the array lacks the room, both ways leave the memory. -/
theorem xxteaToUint32Array_outOfBounds (littleEndian : Bool) {arr : List Word} {alength : Nat} {data : List Byte} {dlen : Nat}
    (hlen : dlen >>> 2 ≤ alength) (hout : data.length < dlen ∨ 4 * arr.length < dlen) :
    xxteaToUint32Array littleEndian arr alength data dlen = .error .outOfBounds := by
  unfold xxteaToUint32Array
  rw [require_eq hlen, ok_bind]
  cases littleEndian with
  | true =>
    rw [if_pos rfl]
    by_cases hdata : data.length < dlen
    · rw [load, if_neg (by omega), error_bind]
    · rw [load_eq (by omega), ok_bind, store, if_neg, error_bind]
      rw [length_slice_of_le (by omega), length_memory]
      omega
  | false =>
    refine foldlM_error (a := dlen - 1) (fun arr' => arr'.length = arr.length) ?_ (List.mem_range.mpr (by omega)) ?_ rfl
    · intro i _ arr' harr
      rcases wordAt_cases arr' (i >>> 2) with h | ⟨w, h⟩
      · exact .inl (by rw [h, error_bind])
      · rcases byteAt_cases data i with h' | ⟨b, h'⟩
        · exact .inl (by rw [h, ok_bind, h', error_bind])
        · exact .inr ⟨_, by rw [h, ok_bind, h', ok_bind, pure_eq_ok], by rw [List.length_set, harr]⟩
    · intro arr' harr
      rcases wordAt_cases arr' ((dlen - 1) >>> 2) with h | ⟨w, h⟩
      · rw [h, error_bind]
      · rcases hout with hdata | harr'
        · rw [h, ok_bind, byteAt_outOfBounds (by omega), error_bind]
        · rw [wordAt_outOfBounds (by rw [shiftRight_two]; omega)] at h
          cases h

section

variable (littleEndian littleEndian' : Bool)

theorem xxteaToBytesArray_endian (arr : List Byte) (alength : Nat) (data : List Word) (dlen : Nat) :
    xxteaToBytesArray littleEndian arr alength data dlen = xxteaToBytesArray littleEndian' arr alength data dlen := by
  by_cases hlen : dlen >>> 2 ≤ alength
  · by_cases hin : alength ≤ 4 * data.length ∧ alength ≤ arr.length
    · rw [xxteaToBytesArray_copies littleEndian arr alength data dlen hin.1 hin.2 hlen,
        xxteaToBytesArray_copies littleEndian' arr alength data dlen hin.1 hin.2 hlen]
    · rw [xxteaToBytesArray_outOfBounds littleEndian hlen (by omega), xxteaToBytesArray_outOfBounds littleEndian' hlen (by omega)]
  · unfold xxteaToBytesArray
    rw [require_ne hlen, error_bind, error_bind]

theorem xxteaToUint32Array_endian (arr : List Word) (alength : Nat) (data : List Byte) {dlen : Nat}
    (hzero : ∀ b ∈ (memory arr).take dlen, b = 0) :
    xxteaToUint32Array littleEndian arr alength data dlen = xxteaToUint32Array littleEndian' arr alength data dlen := by
  by_cases hlen : dlen >>> 2 ≤ alength
  · by_cases hin : dlen ≤ data.length ∧ dlen ≤ 4 * arr.length
    · obtain ⟨ws, hws, hmemory⟩ := xxteaToUint32Array_copies littleEndian arr alength data dlen hin.1 hin.2 hzero hlen
      obtain ⟨ws', hws', hmemory'⟩ := xxteaToUint32Array_copies littleEndian' arr alength data dlen hin.1 hin.2 hzero hlen
      rw [hws, hws', memory_injective (hmemory.trans hmemory'.symm)]
    · rw [xxteaToUint32Array_outOfBounds littleEndian hlen (by omega), xxteaToUint32Array_outOfBounds littleEndian' hlen (by omega)]
  · unfold xxteaToUint32Array
    rw [require_ne hlen, error_bind, error_bind]

theorem zero_of_mem_replicate {k n : Nat} : ∀ b ∈ (memory (List.replicate k 0)).take n, b = 0 := by
  intro b hb
  rw [memory_replicate_zero] at hb
  exact List.eq_of_mem_replicate (List.mem_of_mem_take hb)

theorem xxteaKeyWords_endian (key : List Byte) (klen : Nat) : xxteaKeyWords littleEndian key klen = xxteaKeyWords littleEndian' key klen := by
  unfold xxteaKeyWords
  simp only [xxteaToUint32Array_endian littleEndian littleEndian' (List.replicate 4 0) 4 _ zero_of_mem_replicate]

/-- The ciphertext does not depend on the machine. -/
theorem xxteaEncrypt_endian (data : List Byte) (dlen : Nat) (key : List Byte) (klen : Nat) :
    xxteaEncrypt littleEndian data dlen key klen = xxteaEncrypt littleEndian' data dlen key klen := by
  obtain ⟨n, hn⟩ : ∃ n, n = if dlen &&& 3 = 0 then dlen >>> 2 else (dlen >>> 2) + 1 := ⟨_, rfl⟩
  have hroom : dlen ≤ 4 * n := by
    rw [hn, and_three, shiftRight_two]
    split_ifs <;> omega
  -- the word with the length is behind the data
  have hzero : ∀ b ∈ (memory ((List.replicate (n + 1) 0).set n (BitVec.ofNat 32 dlen))).take dlen, b = 0 := by
    rw [List.replicate_succ', List.set_append_right _ _ (by rw [List.length_replicate]), memory_append,
      List.take_append_of_le_length (by rw [length_memory, List.length_replicate]; exact hroom)]
    exact zero_of_mem_replicate
  unfold xxteaEncrypt
  rw [← hn]
  simp only [xxteaKeyWords_endian littleEndian littleEndian', xxteaToUint32Array_endian littleEndian littleEndian' _ _ _ hzero,
    xxteaToBytesArray_endian littleEndian littleEndian']

theorem xxteaDecrypt_endian (data : List Byte) (dlen : Nat) (key : List Byte) (klen : Nat) :
    xxteaDecrypt littleEndian data dlen key klen = xxteaDecrypt littleEndian' data dlen key klen := by
  unfold xxteaDecrypt
  simp only [xxteaKeyWords_endian littleEndian littleEndian',
    xxteaToUint32Array_endian littleEndian littleEndian' (List.replicate (dlen >>> 2) 0) _ _ zero_of_mem_replicate,
    xxteaToBytesArray_endian littleEndian littleEndian']

/-- For every byte string, every array of words and every length, the copy and the shifts give the same
result; so machines of either kind make the same ciphertext, and the same of it. -/
theorem xxtea_endian :
    (∀ (arr : List Word) alength (data : List Byte) dlen, (∀ b ∈ (memory arr).take dlen, b = 0) →
      xxteaToUint32Array littleEndian arr alength data dlen = xxteaToUint32Array littleEndian' arr alength data dlen) ∧
    (∀ (arr : List Byte) alength (data : List Word) dlen,
      xxteaToBytesArray littleEndian arr alength data dlen = xxteaToBytesArray littleEndian' arr alength data dlen) ∧
    (∀ data dlen key klen, xxteaEncrypt littleEndian data dlen key klen = xxteaEncrypt littleEndian' data dlen key klen) ∧
    (∀ data dlen key klen, xxteaDecrypt littleEndian data dlen key klen = xxteaDecrypt littleEndian' data dlen key klen) :=
  ⟨fun arr alength data _ hzero => xxteaToUint32Array_endian littleEndian littleEndian' arr alength data hzero,
    xxteaToBytesArray_endian littleEndian littleEndian', xxteaEncrypt_endian littleEndian littleEndian',
    xxteaDecrypt_endian littleEndian littleEndian'⟩

/-- A word and one byte of the next. -/
theorem xxtea_endian_five :
    xxteaToUint32Array true [0, 0] 2 [1, 2, 3, 4, 5] 5 = xxteaToUint32Array false [0, 0] 2 [1, 2, 3, 4, 5] 5 ∧
      xxteaToUint32Array true [0, 0] 2 [1, 2, 3, 4, 5] 5 = .ok [0x04030201, 5] :=
  ⟨(xxtea_endian true false).1 [0, 0] 2 [1, 2, 3, 4, 5] 5 (by decide +kernel), by decide +kernel⟩

end

/-! ### Encryption and decryption -/

/-- The sixteen bytes of a key: what is missing is zero. -/
def padKey (key : List Byte) : List Byte := key.take 16 ++ List.replicate (16 - key.length) 0

@[simp] theorem length_padKey (key : List Byte) : (padKey key).length = 16 := by
  rw [padKey, List.length_append, List.length_take, List.length_replicate]
  omega

theorem padKey_eq {key : List Byte} (hkey : key.length = 16) : padKey key = key := by
  rw [padKey, hkey, Nat.sub_self, List.replicate_zero, List.append_nil, List.take_of_length_le (Nat.le_of_eq hkey)]

theorem xxteaKeyWords_eq (littleEndian : Bool) {key : List Byte} (hkey : 0 < key.length) :
    xxteaKeyWords littleEndian key key.length = .ok (words (padKey key)) ∧ (words (padKey key)).length = 4 := by
  have hlen := length_padKey key
  have hmem : memory (words (padKey key)) = padKey key := memory_words (n := 4) hlen
  have hslice : slice key 0 (min key.length 16) = key.take 16 := by
    rw [slice, List.drop_zero, Nat.min_comm, ← List.take_take, List.take_length]
  have htake : (key.take 16).length = min 16 key.length := List.length_take
  have hpoke : poke (List.replicate 16 0) 0 (key.take 16) = padKey key := by
    rw [poke, htake, List.take_zero, List.nil_append, Nat.zero_add, List.drop_replicate, padKey]
    congr 2
    omega
  obtain ⟨ws, hws, hmemory, hlength⟩ := xxteaToUint32Array_eq littleEndian (List.replicate 4 0) 4 (padKey key)
    (by rw [hlen]; decide) (by rw [hlen]; decide) (by rw [hlen]; decide)
  rw [List.drop_eq_nil_of_le (by rw [hlen]; decide), List.append_nil] at hmemory
  obtain rfl : ws = words (padKey key) := memory_injective (hmemory.trans hmem.symm)
  refine ⟨?_, by rw [hlength, List.length_replicate]⟩
  unfold xxteaKeyWords
  rw [require_eq hkey, ok_bind, load_eq (by omega), ok_bind, hslice, store_eq (by rw [htake, List.length_replicate]; omega), ok_bind, hpoke,
    ← hws, hlen]

/-- The data in whole words, padded with zeros. -/
def padded (data : List Byte) : List Byte := data ++ List.replicate (4 * ((data.length + 3) / 4) - data.length) 0

/-- What `xxtea_encrypt` encrypts: the data in words and its length. -/
def block (data : List Byte) : List Word := words (padded data) ++ [BitVec.ofNat 32 data.length]

def cipherBytes (key data : List Byte) : List Byte := memory (encipher (words key) ((data.length + 3) / 4 + 1) (block data))

theorem memory_block (data : List Byte) : memory (block data) = padded data ++ wordBytes (BitVec.ofNat 32 data.length) := by
  have hlength : (padded data).length = 4 * ((data.length + 3) / 4) := by
    rw [padded, List.length_append, List.length_replicate]
    omega
  rw [block, memory_append, memory_words hlength, memory_cons, memory_nil, List.append_nil]

@[simp] theorem length_block (data : List Byte) : (block data).length = (data.length + 3) / 4 + 1 := by
  have h := congrArg List.length (memory_block data)
  rw [length_memory, List.length_append, padded, List.length_append, List.length_replicate] at h
  have hword : (wordBytes (BitVec.ofNat 32 data.length)).length = 4 := rfl
  omega

@[simp] theorem length_cipherBytes (key data : List Byte) : (cipherBytes key data).length = 4 * ((data.length + 3) / 4 + 1) := by
  rw [cipherBytes, length_memory, length_encipher, length_block]

theorem xxteaEncrypt_eq (littleEndian : Bool) {key data : List Byte} (hkey : 0 < key.length) (hdata : data.length < 2 ^ 32 - 8) :
    xxteaEncrypt littleEndian data data.length key key.length = .ok (cipherBytes (padKey key) data) := by
  obtain ⟨hwords, hwords4⟩ := xxteaKeyWords_eq littleEndian hkey
  obtain ⟨n, hn⟩ : ∃ n, n = (data.length + 3) / 4 := ⟨_, rfl⟩
  have hu32len : (if data.length &&& 3 = 0 then data.length >>> 2 else (data.length >>> 2) + 1) = n := by
    rw [and_three, shiftRight_two]
    split_ifs <;> omega
  -- the array `calloc` gives, with the length in its last word
  have harr : memory ((List.replicate (n + 1) 0).set n (BitVec.ofNat 32 data.length)) =
      List.replicate (4 * n) 0 ++ wordBytes (BitVec.ofNat 32 data.length) := by
    rw [List.replicate_succ', List.set_append, List.length_replicate, if_neg (Nat.lt_irrefl n), Nat.sub_self, List.set_cons_zero,
      memory_append, memory_replicate_zero, memory_cons, memory_nil, List.append_nil]
  obtain ⟨ws, hws, hmemory, -⟩ := xxteaToUint32Array_eq littleEndian
    ((List.replicate (n + 1) 0).set n (BitVec.ofNat 32 data.length)) n data
    (by rw [List.length_set, List.length_replicate]; omega)
    (by rw [harr, List.take_append_of_le_length (by rw [List.length_replicate]; omega), List.take_replicate, Nat.min_eq_left (by omega)])
    (by rw [shiftRight_two]; omega)
  obtain rfl : ws = block data := by
    refine memory_injective ?_
    rw [hmemory, harr, memory_block, padded, ← hn, List.drop_append_of_le_length (by rw [List.length_replicate]; omega),
      List.drop_replicate, List.append_assoc]
  have hlength : u32 ((n + 1) <<< 2) = 4 * (n + 1) := by
    rw [Nat.shiftLeft_eq, u32_of_lt (by omega), Nat.mul_comm]
  have hcipher : (encipher (words (padKey key)) (n + 1) (block data)).length = n + 1 := by rw [length_encipher, length_block, hn]
  have hbytes := xxteaToBytesArray_eq littleEndian (4 * (n + 1)) (encipher (words (padKey key)) (n + 1) (block data)) n
    (by rw [hcipher]) (by rw [shiftRight_two]; omega)
  unfold xxteaEncrypt
  rw [hwords, ok_bind]
  dsimp only
  rw [hu32len, hws, ok_bind, bteaEncrypt_eq hwords4 (Nat.succ_pos n) (by rw [length_block, hn]), ok_bind, hlength, hbytes,
    List.take_of_length_le (by rw [length_memory, hcipher]), cipherBytes, hn]

theorem xxteaDecrypt_eq (littleEndian : Bool) {key data : List Byte} (hkey : 0 < key.length) (hdata : data.length < 2 ^ 32 - 8)
    (hne : data ≠ []) :
    xxteaDecrypt littleEndian (cipherBytes (padKey key) data) (cipherBytes (padKey key) data).length key key.length = .ok (ok, some data) := by
  obtain ⟨hwords, hwords4⟩ := xxteaKeyWords_eq littleEndian hkey
  obtain ⟨n, hn⟩ : ∃ n, n = (data.length + 3) / 4 := ⟨_, rfl⟩
  have hpos := List.length_pos_iff.mpr hne
  have hlength : (cipherBytes (padKey key) data).length = 4 * (n + 1) := by rw [length_cipherBytes, hn]
  have hcipher : (encipher (words (padKey key)) (n + 1) (block data)).length = n + 1 := by rw [length_encipher, length_block, hn]
  obtain ⟨ws, hws, hmemory, -⟩ := xxteaToUint32Array_eq littleEndian (List.replicate (n + 1) 0) (n + 1) (cipherBytes (padKey key) data)
    (by rw [hlength, List.length_replicate])
    (by rw [hlength, memory_replicate_zero, List.take_replicate, Nat.min_self])
    (by rw [hlength, shiftRight_two]; omega)
  obtain rfl : ws = encipher (words (padKey key)) (n + 1) (block data) := by
    refine memory_injective ?_
    rw [hmemory, List.drop_eq_nil_of_le (by rw [hlength, length_memory, List.length_replicate]), List.append_nil, cipherBytes, ← hn]
  have hlast : wordAt (block data) (n + 1 - 1) = .ok (BitVec.ofNat 32 data.length) := by
    have hwlen : (words (padded data)).length = n := by
      have h := length_block data
      rw [block, List.length_append, List.length_singleton] at h
      omega
    rw [wordAt, block, Nat.add_sub_cancel, List.getElem?_append_right (by omega), hwlen, Nat.sub_self]
    rfl
  have hplain : (BitVec.ofNat 32 data.length).toNat = data.length := by
    rw [BitVec.toNat_ofNat, Nat.mod_eq_of_lt (by omega)]
  have hbytes := xxteaToBytesArray_eq littleEndian data.length (block data) (n + 1 - 1)
    (by rw [length_block]; omega) (by rw [shiftRight_two]; omega)
  have hfront : (memory (block data)).take data.length = data := by
    rw [memory_block, padded, List.append_assoc, List.take_left]
  have hmod : 4 * (n + 1) &&& 3 = 0 := by rw [and_three]; omega
  have hdiv : (4 * (n + 1)) >>> 2 = n + 1 := by rw [shiftRight_two]; omega
  rw [hlength] at hws ⊢
  unfold xxteaDecrypt
  rw [require_eq hkey, ok_bind, if_neg (not_not_intro hmod), hwords, ok_bind]
  dsimp only
  rw [hdiv, hws, ok_bind, bteaDecrypt_eq hwords4 (Nat.succ_pos n) hcipher, ok_bind, decipher_encipher (by omega) (by rw [length_block, hn]),
    hlast, ok_bind]
  rw [hplain, if_neg (by omega), hbytes, ok_bind, hfront, pure_eq_ok]

/-- For every plaintext and every key, on machines of either kind: what is encrypted is decrypted. -/
theorem xxtea_roundTrip (littleEndian littleEndian' : Bool) {key data : List Byte} (hkey : 0 < key.length) (hdata : 0 < data.length)
    (hlen : data.length < 2 ^ 32 - 8) :
    ∃ c, xxteaEncrypt littleEndian data data.length key key.length = .ok c ∧ c.length = 4 * ((data.length + 3) / 4 + 1) ∧
      xxteaDecrypt littleEndian' c c.length key key.length = .ok (ok, some data) :=
  ⟨_, xxteaEncrypt_eq littleEndian hkey hlen, length_cipherBytes _ data, xxteaDecrypt_eq littleEndian' hkey hlen (List.length_pos_iff.mp hdata)⟩

theorem xxtea_roundTrip_one :
    ∃ c, xxteaEncrypt true [7] 1 [1, 2, 3] 3 = .ok c ∧ c.length = 8 ∧ xxteaDecrypt false c c.length [1, 2, 3] 3 = .ok (ok, some [7]) :=
  @xxtea_roundTrip true false [1, 2, 3] [7] (by decide) (by decide) (by decide)

namespace Xxtea

variable {cipher : Xxtea} {p p' : Packet} {c : List Byte}

theorem storeKey_eq (cipher : Xxtea) (off : Nat) (bs : List Byte) (h : off + bs.length ≤ 16) :
    ∃ cipher', cipher.storeKey off bs = .ok cipher' ∧ cipher'.mKey = poke cipher.mKey off bs ∧
      cipher'.littleEndian = cipher.littleEndian := by
  have hin : off + bs.length ≤ cipher.mKey.length := by rwa [cipher.length_mKey]
  exact ⟨_, dif_pos hin, rfl, rfl⟩

/-- A key of up to 16 bytes is padded with `z`. -/
theorem setKey_eq (cipher : Xxtea) (k : List Byte) (klen : Nat) (hpos : 0 < klen) (hle : klen ≤ 16) (hk : klen ≤ k.length) :
    ∃ cipher', cipher.setKey k klen = .ok cipher' ∧ cipher'.mKey = k.take klen ++ List.replicate (16 - klen) 'z'.toUInt8 ∧
      cipher'.littleEndian = cipher.littleEndian := by
  have htake : slice k 0 klen = k.take klen := by rw [slice, List.drop_zero]
  have hlength : (k.take klen).length = klen := by rw [List.length_take]; omega
  obtain ⟨c₁, hc₁, hkey₁, hend₁⟩ := storeKey_eq cipher 0 (k.take klen) (by omega)
  obtain ⟨c₂, hc₂, hkey₂, hend₂⟩ := storeKey_eq c₁ klen (List.replicate (16 - klen) 'z'.toUInt8)
    (by rw [List.length_replicate]; omega)
  refine ⟨c₂, ?_, ?_, hend₂.trans hend₁⟩
  · unfold setKey
    rw [require_eq hpos, ok_bind, load_eq (by omega), ok_bind, htake, hc₁, ok_bind, hc₂]
  · have hdrop : c₁.mKey.drop (klen + (List.replicate (16 - klen) 'z'.toUInt8).length) = [] := by
      refine List.drop_eq_nil_of_le ?_
      rw [c₁.length_mKey, List.length_replicate]
      omega
    rw [hkey₂, poke, hdrop, List.append_nil, hkey₁, poke, List.take_zero, List.nil_append, List.take_left' hlength]

theorem load_packet (h : p.Holds c) : load p.mBuffer p.mReadIdx c.length = .ok c := by
  rw [h.load_front (Nat.le_refl _), List.take_length]

/-- With the key of the cipher -/
theorem encrypt_mKey (cipher : Xxtea) (hc : c.length < 2 ^ 31) :
    xxteaEncrypt cipher.littleEndian c c.length cipher.mKey 16 = .ok (cipherBytes cipher.mKey c) := by
  have h := xxteaEncrypt_eq cipher.littleEndian (show 0 < cipher.mKey.length by rw [cipher.length_mKey]; decide)
    (show c.length < 2 ^ 32 - 8 by omega)
  rwa [cipher.length_mKey, padKey_eq cipher.length_mKey] at h

theorem decrypt_mKey (cipher : Xxtea) (hc : c.length < 2 ^ 31) (hne : c ≠ []) :
    xxteaDecrypt cipher.littleEndian (cipherBytes cipher.mKey c) (cipherBytes cipher.mKey c).length cipher.mKey 16 = .ok (ok, some c) := by
  have h := xxteaDecrypt_eq cipher.littleEndian (show 0 < cipher.mKey.length by rw [cipher.length_mKey]; decide)
    (show c.length < 2 ^ 32 - 8 by omega) hne
  rwa [cipher.length_mKey, padKey_eq cipher.length_mKey] at h

theorem length_lt (h : p.Holds c) : c.length < 2 ^ 31 := by
  have h₁ := h.capacity_le
  have h₂ := h.write_le
  have h₃ := h.write_eq
  omega

/-- What `encrypt` makes of a packet. -/
theorem encrypt_holds (h : p.Holds c) {rt : Int} (hp : cipher.encrypt p = .ok (rt, p')) :
    rt = ok ∧ p'.Holds (cipherBytes cipher.mKey c) ∧ (cipherBytes cipher.mKey c).length ≤ packMaxRightCapacity := by
  unfold encrypt at hp
  rw [h.len_eq, ok_bind, load_packet h, ok_bind, encrypt_mKey cipher (length_lt h), ok_bind] at hp
  obtain ⟨p₁, hnew, hp⟩ := bind_eq_ok.mp hp
  obtain ⟨p₂, hwrite, hp⟩ := bind_eq_ok.mp hp
  cases hp
  have hheld := (Packet.new_holds hnew).write hwrite
  rw [List.nil_append, List.take_length] at hheld
  obtain ⟨-, hright, -⟩ := Packet.new_eq_ok.mp hnew
  exact ⟨rfl, hheld, (Nat.le_max_left _ _).trans hright⟩

/-- A packet made for `c` takes it in by `write`. -/
theorem new_write (hc : c.length ≤ packMaxRightCapacity) :
    ∃ p₁ p₂, Packet.new c.length packInitLeftCapacity = .ok p₁ ∧ p₁.write c c.length = .ok p₂ ∧ p₂.Holds c ∧
      p₂.Spare packInitLeftCapacity 0 := by
  obtain ⟨p₁, hnew, h, hs⟩ := Packet.new_spare hc
  obtain ⟨p₂, hwrite, h', hs'⟩ := h.write_spare c (r := 0) hs
  exact ⟨p₁, p₂, hnew, hwrite, h', hs'⟩

/-- A packet whose ciphertext a packet can take is encrypted. -/
theorem encrypt_eq (cipher : Xxtea) (h : p.Holds c) (hc : (cipherBytes cipher.mKey c).length ≤ packMaxRightCapacity) :
    ∃ p', cipher.encrypt p = .ok (ok, p') ∧ p'.Holds (cipherBytes cipher.mKey c) ∧ p'.Spare packInitLeftCapacity 0 := by
  obtain ⟨p₁, p₂, hnew, hwrite, hheld, hs⟩ := new_write hc
  refine ⟨p₂, ?_, hheld, hs⟩
  unfold encrypt
  rw [h.len_eq, ok_bind, load_packet h, ok_bind, encrypt_mKey cipher (length_lt h), ok_bind, hnew, ok_bind, hwrite, ok_bind,
    pure_eq_ok]

/-- `decrypt` gets back what `encrypt`, on a machine of either kind, has taken. -/
theorem decrypt_holds (hne : c ≠ []) (hc : c.length ≤ packMaxRightCapacity)
    (h : p.Holds (cipherBytes cipher.mKey c)) : ∃ p', cipher.decrypt p = .ok (ok, some p') ∧ p'.Holds c := by
  have hlt : c.length < 2 ^ 31 := Nat.lt_of_le_of_lt hc (by decide)
  obtain ⟨p₁, p₂, hnew, hwrite, hheld, -⟩ := new_write hc
  refine ⟨p₂, ?_, hheld⟩
  unfold decrypt
  rw [h.len_eq, ok_bind, load_packet h, ok_bind, decrypt_mKey cipher hlt hne, ok_bind]
  dsimp only
  rw [require_eq rfl, ok_bind, hnew, ok_bind, hwrite, ok_bind, pure_eq_ok]

end Xxtea

end Wawo
