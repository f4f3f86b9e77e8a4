import Wawo.Security.Xxtea

/-!
# Decryption of what comes from the network

`xxtea_decrypt` reports data that is no ciphertext, but `xxtea::decrypt` asserts that it does not; an empty packet
makes a division by zero before that, and a length that is too small fails an assertion of
`xxtea_to_bytes_array`. `decrypt_tolerates`: `decrypt` returns just for the packets that are well formed.
-/

namespace Wawo.Xxtea

open Memory Lts

/-- A packet that is no longer than the input, or an error and no packet -/
def Tolerates (cipher : Xxtea) (inp : Packet) (c : List Byte) : Prop :=
  ∃ ec out, cipher.decrypt inp = .ok (ec, out) ∧
    ((ec = ok ∧ ∃ p' c', out = some p' ∧ p'.Holds c' ∧ c'.length ≤ c.length) ∨ (ec ≠ ok ∧ out = none))

/-- What `wikipedia_btea_decrypt` makes of the input -/
def deciphered (cipher : Xxtea) (c : List Byte) : List Word := decipher (words cipher.mKey) (c.length / 4) (words c)

/-- `*(u32data + u32len - 1)` -/
def claimedLength (cipher : Xxtea) (c : List Byte) : Nat := (wordD (cipher.deciphered c) (c.length / 4 - 1)).toNat

/-- Whole words, one at least, and a length that is not too large and not too small -/
def WellFormed (cipher : Xxtea) (c : List Byte) : Prop :=
  c ≠ [] ∧ c.length % 4 = 0 ∧ cipher.claimedLength c ≤ c.length ∧ (c.length / 4 - 1) / 4 ≤ cipher.claimedLength c ∧
    cipher.claimedLength c ≤ packMaxRightCapacity

instance (cipher : Xxtea) (c : List Byte) : Decidable (cipher.WellFormed c) := inferInstanceAs (Decidable (_ ∧ _))

/-- What a well-formed input decrypts to -/
def plaintext (cipher : Xxtea) (c : List Byte) : List Byte := (memory (cipher.deciphered c)).take (cipher.claimedLength c)

section

variable {cipher : Xxtea} {p : Packet} {c : List Byte}

theorem length_words {n : Nat} (h : c.length = 4 * n) : (words c).length = n := by
  have hlen := length_memory (words c)
  rw [memory_words h] at hlen
  omega

theorem xxteaDecrypt_ragged (cipher : Xxtea) (h : c.length % 4 ≠ 0) :
    xxteaDecrypt cipher.littleEndian c c.length cipher.mKey 16 = .ok (eXxteaInvalidData, none) := by
  unfold xxteaDecrypt
  rw [require_eq (by decide), ok_bind, and_three, if_pos h]
  rfl

/-- The words of the key and of the input, ready for the rounds -/
theorem xxteaDecrypt_start (cipher : Xxtea) (h : c.length % 4 = 0) :
    ∃ u32k, xxteaKeyWords cipher.littleEndian cipher.mKey 16 = .ok u32k ∧ u32k = words cipher.mKey ∧ u32k.length = 4 ∧
      xxteaToUint32Array cipher.littleEndian (List.replicate (c.length / 4) 0) (c.length / 4) c c.length = .ok (words c) := by
  obtain ⟨hwords, hwords4⟩ := xxteaKeyWords_eq cipher.littleEndian (show 0 < cipher.mKey.length by rw [cipher.length_mKey]; decide)
  rw [cipher.length_mKey, padKey_eq cipher.length_mKey] at hwords
  rw [padKey_eq cipher.length_mKey] at hwords4
  have hc : c.length = 4 * (c.length / 4) := by omega
  obtain ⟨ws, hws, hmemory, -⟩ := xxteaToUint32Array_eq cipher.littleEndian (List.replicate (c.length / 4) 0) (c.length / 4) c
    (by rw [List.length_replicate]; omega)
    (by rw [memory_replicate_zero, ← hc, List.take_replicate, Nat.min_self])
    (by rw [shiftRight_two])
  rw [List.drop_eq_nil_of_le (by rw [length_memory, List.length_replicate]; omega), List.append_nil] at hmemory
  obtain rfl : ws = words c := memory_injective (hmemory.trans (memory_words hc).symm)
  exact ⟨_, hwords, rfl, hwords4, hws⟩

theorem xxteaDecrypt_nil (cipher : Xxtea) : xxteaDecrypt cipher.littleEndian [] 0 cipher.mKey 16 = .error .divideByZero := by
  obtain ⟨u32k, hkey, -, -, hws⟩ := xxteaDecrypt_start cipher (c := []) rfl
  have hws : xxteaToUint32Array cipher.littleEndian (List.replicate 0 0) 0 [] 0 = .ok (words []) := hws
  have hshift : 0 >>> 2 = 0 := rfl
  unfold xxteaDecrypt
  rw [require_eq (by decide), ok_bind, if_neg (by decide), hkey, ok_bind]
  dsimp only
  rw [hshift, hws, ok_bind]
  rfl

theorem xxteaDecrypt_words (cipher : Xxtea) (hne : c ≠ []) (h : c.length % 4 = 0) :
    xxteaDecrypt cipher.littleEndian c c.length cipher.mKey 16 =
      if cipher.claimedLength c > c.length then .ok (eXxteaInvalidData, none)
      else if (c.length / 4 - 1) / 4 ≤ cipher.claimedLength c then
        .ok (ok, some (cipher.plaintext c))
      else .error .xxteaToBytes := by
  obtain ⟨u32k, hkey, rfl, hkey4, hws⟩ := xxteaDecrypt_start cipher h
  have hpos := List.length_pos_iff.mpr hne
  have hc : c.length = 4 * (c.length / 4) := by omega
  have hlen : (cipher.deciphered c).length = c.length / 4 := by rw [deciphered, length_decipher, length_words hc]
  have hlast : wordAt (cipher.deciphered c) (c.length / 4 - 1) = .ok (wordD (cipher.deciphered c) (c.length / 4 - 1)) :=
    wordAt_eq (by omega)
  unfold xxteaDecrypt
  rw [require_eq (by decide), ok_bind, and_three, if_neg (not_not_intro h), hkey, ok_bind]
  dsimp only
  rw [shiftRight_two, hws, ok_bind, bteaDecrypt_eq hkey4 (by omega) (length_words hc), ok_bind]
  rw [← deciphered, hlast, ok_bind, ← claimedLength]
  split_ifs with hlarge hsmall
  · rfl
  · rw [xxteaToBytesArray_eq _ _ _ _ (by omega) (by rw [shiftRight_two]; exact hsmall), ok_bind]
    rfl
  · unfold xxteaToBytesArray require
    rw [shiftRight_two, if_neg hsmall]
    rfl

/-- `decrypt` goes on from what `xxtea_decrypt` gives. -/
theorem decrypt_eq (cipher : Xxtea) (h : p.Holds c) :
    cipher.decrypt p = xxteaDecrypt cipher.littleEndian c c.length cipher.mKey 16 >>= fun x => do
      require (x.1 = ok) .xxteaEc
      match x.2 with
      | none => return (eXxteaDecryptFailed, none)
      | some data =>
        let decrypted ← Packet.new data.length packInitLeftCapacity
        return (x.1, some (← decrypted.write data data.length)) := by
  unfold decrypt
  rw [h.len_eq, ok_bind, load_packet h]
  rfl

theorem length_plaintext (hragged : c.length % 4 = 0) (hle : cipher.claimedLength c ≤ c.length) :
    (cipher.plaintext c).length = cipher.claimedLength c := by
  have hc : c.length = 4 * (c.length / 4) := by omega
  rw [plaintext, List.length_take, length_memory, deciphered, length_decipher, length_words hc]
  omega

/-- A packet of the size of the data, with the data written to it, has room for `PACK_MIN_RIGHT_CAPACITY` bytes. -/
theorem new_write_room (hc : c.length ≤ packMaxRightCapacity) :
    ∃ p₁ p₂, Packet.new c.length packInitLeftCapacity = .ok p₁ ∧ p₁.write c c.length = .ok p₂ ∧ p₂.Holds c ∧
      p₂.mReadIdx + packMinRightCapacity ≤ p₂.mBuffer.length := by
  obtain ⟨p₁, hnew, h, hs⟩ := Packet.new_spare_max hc
  have hmax : max c.length packMinRightCapacity = c.length + (packMinRightCapacity - c.length) := by omega
  rw [hmax] at hs
  obtain ⟨p₂, hwrite, h', hs'⟩ := h.write_spare c hs
  rw [List.nil_append] at h'
  refine ⟨p₁, p₂, hnew, hwrite, h', ?_⟩
  have hright := hs'.right
  rw [h'.write_eq] at hright
  rw [h'.length_buffer]
  omega

/-- A well-formed packet is decrypted, and on every other `decrypt` fails. -/
theorem decrypt_cases (cipher : Xxtea) (h : p.Holds c) :
    (cipher.WellFormed c ∧ ∃ p', cipher.decrypt p = .ok (ok, some p') ∧ p'.Holds (cipher.plaintext c) ∧
        p'.mReadIdx + packMinRightCapacity ≤ p'.mBuffer.length) ∨
      ¬ cipher.WellFormed c ∧ ∃ e, cipher.decrypt p = .error e := by
  have hp := decrypt_eq cipher h
  by_cases hragged : c.length % 4 = 0
  case neg =>
    rw [xxteaDecrypt_ragged cipher hragged] at hp
    exact .inr ⟨fun hwf => hragged hwf.2.1, _, hp⟩
  rcases eq_or_ne c [] with rfl | hne
  · have hnil : xxteaDecrypt cipher.littleEndian [] ([] : List Byte).length cipher.mKey 16 = .error .divideByZero := xxteaDecrypt_nil cipher
    rw [hnil] at hp
    exact .inr ⟨fun hwf => hwf.1 rfl, _, hp⟩
  rw [xxteaDecrypt_words cipher hne hragged] at hp
  split_ifs at hp with hlarge hsmall
  · exact .inr ⟨fun hwf => absurd hwf.2.2.1 (Nat.not_le.2 hlarge), _, hp⟩
  · have hlength := length_plaintext hragged (Nat.not_lt.1 hlarge)
    rw [ok_bind, require_eq rfl, ok_bind] at hp
    dsimp only at hp
    by_cases hfit : cipher.claimedLength c ≤ packMaxRightCapacity
    · obtain ⟨p₁, p₂, hnew, hwrite, hheld, hroom⟩ := new_write_room (hlength.symm ▸ hfit)
      refine .inl ⟨⟨hne, hragged, Nat.not_lt.1 hlarge, hsmall, hfit⟩, p₂, ?_, hheld, hroom⟩
      rw [hp, hnew, ok_bind, hwrite, ok_bind]
      rfl
    · refine .inr ⟨fun hwf => hfit hwf.2.2.2.2, ?_⟩
      cases hnew : Packet.new (cipher.plaintext c).length packInitLeftCapacity with
      | error e =>
        rw [hnew] at hp
        exact ⟨e, hp⟩
      | ok p₁ =>
        obtain ⟨-, hright, -⟩ := Packet.new_eq_ok.mp hnew
        rw [hlength] at hright
        exact absurd ((Nat.le_max_left _ _).trans hright) hfit
  · exact .inr ⟨fun hwf => hsmall hwf.2.2.2.1, _, hp⟩

theorem not_tolerates {e : ByteFault} (h : cipher.decrypt p = .error e) : ¬ cipher.Tolerates p c := by
  rintro ⟨ec, out, hp, -⟩
  rw [h] at hp
  cases hp

end

/-- For every packet, of whatever length and contents, and every key: `decrypt` returns a packet that is no longer,
or an error, just if the packet holds whole words, one at least, the last of which deciphers to a length in bytes
that is neither larger than the packet nor smaller than a quarter of the other words, and that a packet can take. -/
theorem decrypt_tolerates {cipher : Xxtea} {p : Packet} {c : List Byte} (h : p.Holds c) : cipher.Tolerates p c ↔ cipher.WellFormed c := by
  rcases decrypt_cases cipher h with ⟨hwf, p', hp, hheld, -⟩ | ⟨hwf, e, hp⟩
  · refine iff_of_true ⟨ok, some p', hp, .inl ⟨rfl, p', _, rfl, hheld, ?_⟩⟩ hwf
    rw [length_plaintext hwf.2.1 hwf.2.2.1]
    exact hwf.2.2.1
  · exact iff_of_false (not_tolerates hp) hwf

/-- A cipher with the key `z … z` -/
def zCipher : Xxtea := ⟨true, List.replicate 16 122, by decide⟩

/-- The ciphertext of one byte is well formed. -/
theorem decrypt_tolerates_one : ∃ p : Packet, p.Holds (cipherBytes zCipher.mKey [7]) ∧ zCipher.Tolerates p (cipherBytes zCipher.mKey [7]) := by
  obtain ⟨-, p, -, -, hp, -⟩ := new_write (c := cipherBytes zCipher.mKey [7]) (by decide +kernel)
  exact ⟨p, hp, (decrypt_tolerates hp).2 (by decide +kernel)⟩

/-- A packet of one byte fails the assertion about `ec`, an empty one divides by zero. -/
theorem decrypt_fails :
    ∃ p q : Packet, p.Holds [7] ∧ zCipher.decrypt p = .error .xxteaEc ∧ ¬ zCipher.Tolerates p [7] ∧
      q.Holds [] ∧ zCipher.decrypt q = .error .divideByZero ∧ ¬ zCipher.Tolerates q [] := by
  obtain ⟨-, p, -, -, hp, -⟩ := new_write (c := [7]) (by decide)
  obtain ⟨-, q, -, -, hq, -⟩ := new_write (c := []) (by decide)
  have hpe := decrypt_eq zCipher hp
  have hqe := decrypt_eq zCipher hq
  rw [xxteaDecrypt_ragged zCipher (by decide)] at hpe
  have hnil : xxteaDecrypt zCipher.littleEndian [] ([] : List Byte).length zCipher.mKey 16 = .error .divideByZero := xxteaDecrypt_nil zCipher
  rw [hnil] at hqe
  exact ⟨p, q, hp, hpe, not_tolerates hpe, hq, hqe, not_tolerates hqe⟩

end Wawo.Xxtea
