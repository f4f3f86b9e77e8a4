import Wawo.Security.Untrusted
import Wawo.Tlp.DhSymmetricEncrypt

/-!
# Packets that are no handshake (`dh_symmetric_encrypt.hpp`)

`handshake_packet_arrive` on any bytes, in any state before the transfer of data. The counts of a hello
are compared with the length of the packet but not with the arrays, the state is asserted, and so is the
end of a packet, before the branch that would report it. `arriveHello_map`, `arriveHelloResp_map` and
`arriveHandshakeOk_cases` say what each case makes of the bytes, and `handshakePacketArrive_robust` when this is as it should be.
-/

namespace Wawo

open Memory Lts

theorem listBytes_toNat (bs : List Byte) : listBytes (bs.map UInt8.toNat) = bs := by
  have hone (b : Byte) : writeImpl 1 b.toNat = [b] := by
    have hmask : (b.toNat >>> (0 * 8)) &&& 0xff = b.toNat :=
      (Nat.and_two_pow_sub_one_eq_mod _ 8).trans (Nat.mod_eq_of_lt b.toNat_lt)
    rw [writeImpl, writeImplFrom, hmask, UInt8.ofNat_toNat]
    rfl
  induction bs with
  | nil => rfl
  | cons b bs ih =>
    unfold listBytes at ih ⊢
    rw [List.map_cons, List.flatMap_cons, hone, ih]
    rfl

section

variable {p : Packet} {c : List Byte} {count : Nat}

/-- An array that the list fits in takes it. -/
theorem readList_bytes (h : p.Holds c) (arr : List Nat) (hle : count ≤ c.length) (hroom : count ≤ arr.length) :
    ∃ arr' p', readList arr count p = .ok (arr', p') ∧ p'.Holds (c.drop count) ∧ arr'.length = arr.length ∧
      arr'.getD 0 0 = if count = 0 then arr.getD 0 0 else readImpl 1 c := by
  have hlength : ((c.take count).map UInt8.toNat).length = count := by rw [List.length_map, List.length_take_of_le hle]
  have hc : p.Holds (listBytes ((c.take count).map UInt8.toNat) ++ c.drop count) := by
    rw [listBytes_toNat, List.take_append_drop]
    exact h
  obtain ⟨p', hp', h'⟩ := readList_eq ((c.take count).map UInt8.toNat) arr hc
    (by simp only [List.mem_map]; rintro v ⟨b, -, rfl⟩; exact b.toNat_lt) (by rwa [hlength])
  rw [hlength] at hp'
  refine ⟨_, p', hp', h', ?_, ?_⟩
  · rw [List.length_append, hlength, List.length_drop]
    omega
  by_cases h0 : count = 0
  · rw [if_pos h0, h0]
    rfl
  · cases c with
    | nil => exact absurd (Nat.le_zero.mp hle) h0
    | cons b c =>
      obtain ⟨n, rfl⟩ := Nat.exists_eq_add_one_of_ne_zero h0
      rw [if_neg h0]
      simp [readImpl, readImplRound]

/-- A list that is longer than the array is stored behind its end. -/
theorem readList_overflow (h : p.Holds c) (arr : List Nat) (hle : count ≤ c.length) (hover : arr.length < count) :
    readList arr count p = .error .outOfBounds := by
  induction count, hover using Nat.le_induction with
  | base =>
    obtain ⟨arr', p', hp', h', hlength, -⟩ := readList_bytes h arr (Nat.le_of_succ_le hle) (Nat.le_refl _)
    have hone : 1 ≤ (c.drop arr.length).length := by
      rw [List.length_drop]
      exact Nat.le_sub_of_add_le' hle
    unfold readList at hp' ⊢
    rw [Nat.succ_eq_add_one, List.range_succ, List.foldlM_append, hp', ok_bind, List.foldlM_cons]
    dsimp only
    rw [h'.readT_eq hone, ok_bind]
    dsimp only
    rw [require_ne (by omega)]
    rfl
  | succ count hover ih =>
    have ih := ih (Nat.le_of_succ_le hle)
    unfold readList at ih ⊢
    rw [List.range_succ, List.foldlM_append, ih]
    rfl

end

namespace Dh

/-! ### The packets -/

/-- The type of a frame -/
def frameType (bytes : List Byte) : Byte := u8Deobfuscate (BitVec.ofNat 32 (readImpl 4 bytes))

/-- `hello.cipher_count`, in the bytes behind the type -/
def helloCipherCount (body : List Byte) : Nat := readImpl 1 (body.drop 8)

/-- `hello.compress_count` -/
def helloCompressCount (body : List Byte) : Nat := readImpl 1 (body.drop (9 + helloCipherCount body))

/-- `hello.ciphers[0]` -/
def helloSuite (rand : Randoms) (body : List Byte) : Nat :=
  if helloCipherCount body = 0 then rand.ciphers.getD 0 0 else readImpl 1 (body.drop 9)

/-- `hello_resp.cipher` -/
def respSuite (body : List Byte) : Nat := readImpl 1 (body.drop 8)

/-- A key, a suite at least, the first of them the one there is, and a compression at least -/
def ValidHello (body : List Byte) : Prop :=
  body.length = 10 + helloCipherCount body + helloCompressCount body ∧
    0 < helloCipherCount body ∧ helloCipherCount body ≤ csMax ∧ 0 < helloCompressCount body ∧ helloCompressCount body ≤ cMax ∧
    readImpl 1 (body.drop 9) = csXxtea

def ValidResp (body : List Byte) : Prop := body.length = 10 ∧ respSuite body = csXxtea

def ValidOk (cipher : Xxtea) (body : List Byte) : Prop := cipher.WellFormed body ∧ cipher.plaintext body = hokMessage

/-- The message that comes next: a hello for a side that has none, the answer to a hello for one without a
cipher, and then the message for one with a cipher. -/
def NextMessage (s : Dh) (bytes : List Byte) : Prop :=
  4 < bytes.length ∧
    match s.mDhstate, s.mCipher with
    | .idle, _ => frameType bytes = fHandshakeHello ∧ ValidHello (bytes.drop 4)
    | .handshake, none => frameType bytes = fHandshakeHelloResp ∧ ValidResp (bytes.drop 4)
    | .handshake, some cipher => frameType bytes = fHandshakeOk ∧ ValidOk cipher (bytes.drop 4)
    | _, _ => False

/-- An error code -/
def IsError (ec : Int) : Prop := ec ≠ ok ∧ ec ≠ eTlpHandshaking ∧ ec ≠ eTlpHandshakeDone

instance (ec : Int) : Decidable (IsError ec) := inferInstanceAs (Decidable (_ ∧ _))

/-- A call returns, with an error code unless the packet is the next message. -/
def Answers (next : Prop) (x : Except ByteFault (Int × Option Packet × Dh)) : Prop :=
  ∃ ec out s', x = .ok (ec, out, s') ∧ (¬ next → IsError ec)

/-- `strncmp` of a message with `HOK_MESSAGE` stops within the message. -/
def ComparedInside (message : List Byte) : Prop := hokMessage.length ≤ message.length ∨ ¬ message <+: hokMessage

/-- The call on a packet answers, and reads no message behind its end. -/
structure Robust (rand : Randoms) (s : Dh) (inp : Packet) (bytes : List Byte) : Prop where
  answers : Answers (s.NextMessage bytes) (s.handshakePacketArrive rand inp)
  inside : 4 < bytes.length → frameType bytes = fHandshakeOk → ∀ cipher, s.mCipher = some cipher → cipher.WellFormed (bytes.drop 4) →
    ComparedInside (cipher.plaintext (bytes.drop 4))

/-- Where the counts of a hello are less than what is left, they are those of the arrays and end the
packet; where the first suite is known, no list is empty. -/
def HelloTolerable (rand : Randoms) (body : List Byte) : Prop :=
  9 ≤ body.length ∧
    (9 + helloCipherCount body < body.length → helloCipherCount body ≤ csMax ∧
      (10 + helloCipherCount body + helloCompressCount body ≤ body.length → helloCompressCount body ≤ cMax ∧
        body.length = 10 + helloCipherCount body + helloCompressCount body ∧
        (helloSuite rand body = csXxtea → 0 < helloCipherCount body ∧ 0 < helloCompressCount body)))

/-- An answer to a hello that is not too long, nor comes again or too early if its suite is known -/
def RespTolerable (s : Dh) (body : List Byte) : Prop :=
  10 ≤ body.length → body.length = 10 ∧ (respSuite body = csXxtea → s.mContext.dhfactor.privKey ≠ 0 ∧ s.mCipher = none)

/-- A well-formed message that is the right one or differs from it before either ends -/
def OkTolerable (s : Dh) (body : List Byte) : Prop :=
  ∃ cipher, s.mCipher = some cipher ∧ cipher.WellFormed body ∧
    (cipher.plaintext body = hokMessage ∨ ¬ cipher.plaintext body <+: hokMessage ∧ ¬ hokMessage <+: cipher.plaintext body)

/-- A frame of the type that the state asserts, and of contents that its case bears -/
def Tolerable (rand : Randoms) (s : Dh) (bytes : List Byte) : Prop :=
  4 < bytes.length →
    (frameType bytes = fHandshakeHello → s.mDhstate = .idle ∧ HelloTolerable rand (bytes.drop 4)) ∧
    (frameType bytes = fHandshakeHelloResp → s.mDhstate = .handshake ∧ s.RespTolerable (bytes.drop 4)) ∧
    (frameType bytes = fHandshakeOk → s.mDhstate = .handshake ∧ s.OkTolerable (bytes.drop 4))

/-! ### What each case returns -/

/-- What a side that waits for a hello returns for one -/
def helloReturns (rand : Randoms) (body : List Byte) : Except ByteFault Int :=
  if body.length < 9 then .error .packetRead
  else if body.length ≤ 9 + helloCipherCount body then .ok eTlpInvalidPacket
  else if csMax < helloCipherCount body then .error .outOfBounds
  else if body.length < 10 + helloCipherCount body + helloCompressCount body then .ok eTlpInvalidPacket
  else if cMax < helloCompressCount body then .error .outOfBounds
  else if body.length ≠ 10 + helloCipherCount body + helloCompressCount body then .error .dhLeft
  else if helloSuite rand body = csXxtea then .ok eTlpHandshaking
  else .ok eTlpUnknownCipher

/-- What a side in the handshake returns for an answer -/
def respReturns (s : Dh) (body : List Byte) : Except ByteFault Int :=
  if body.length < 10 then .ok eTlpInvalidPacket
  else if body.length ≠ 10 then .error .dhLeft
  else if respSuite body = csXxtea then if s.mContext.dhfactor.privKey = 0 then .error .dhPrivKey else .ok eTlpHandshaking
  else .ok eTlpUnknownCipher

variable {s : Dh} {inp : Packet} {body : List Byte}

theorem arriveHello_map (rand : Randoms) (hs : s.mDhstate = .idle) (h : inp.Holds body) :
    (s.arriveHello rand inp).map Prod.fst = helloReturns rand body := by
  obtain ⟨x, hx⟩ : ∃ x, s.arriveHello rand inp = x := ⟨_, rfl⟩
  -- `hrun` is run until the call returns, and `hx` is kept for a hello that is read to its end
  have hrun := hx
  unfold arriveHello at hrun
  rw [require_eq hs, ok_bind] at hrun
  dsimp only at hrun
  rw [hx]
  unfold helloReturns
  by_cases h9 : body.length < 9
  · rw [if_pos h9]
    by_cases h8 : body.length < 8
    · rw [h.readT_short h8] at hrun
      exact hrun ▸ rfl
    · obtain ⟨p₁, hp₁, h₁⟩ := h.readT_drop (Nat.le_of_not_lt h8)
      rw [hp₁, ok_bind] at hrun
      dsimp only at hrun
      rw [h₁.readT_short (by rw [List.length_drop]; omega)] at hrun
      exact hrun ▸ rfl
  rw [if_neg h9]
  obtain ⟨p₁, hp₁, h₁⟩ := @Packet.Holds.readT_drop _ _ h 8 (by omega)
  obtain ⟨p₂, hp₂, h₂⟩ := @Packet.Holds.readT_drop _ _ h₁ 1 (by rw [List.length_drop]; omega)
  obtain ⟨cc, hcc⟩ : ∃ cc, cc = helloCipherCount body := ⟨_, rfl⟩
  have hcount : readImpl 1 (body.drop 8) = cc := hcc.symm
  rw [List.drop_drop] at h₂
  rw [hcount] at hp₂
  rw [← hcc]
  rw [hp₁, ok_bind] at hrun
  dsimp only at hrun
  rw [hp₂, ok_bind] at hrun
  dsimp only at hrun
  rw [h₂.len_eq, ok_bind, List.length_drop] at hrun
  by_cases hciphers : body.length ≤ 9 + cc
  · rw [if_pos (by omega)] at hrun
    rw [if_pos hciphers]
    exact hrun ▸ rfl
  rw [if_neg (not_not_intro (by omega))] at hrun
  rw [if_neg hciphers]
  by_cases hover : csMax < cc
  · rw [readList_overflow h₂ rand.ciphers (by rw [List.length_drop]; omega) (by rwa [rand.length_ciphers])] at hrun
    rw [if_pos hover]
    exact hrun ▸ rfl
  rw [if_neg hover]
  obtain ⟨ciphers, p₃, hp₃, h₃, -, hfirst⟩ := @readList_bytes _ _ cc h₂ rand.ciphers (by rw [List.length_drop]; omega)
    (by rw [rand.length_ciphers]; omega)
  rw [List.drop_drop] at h₃
  obtain ⟨p₄, hp₄, h₄⟩ := @Packet.Holds.readT_drop _ _ h₃ 1 (by rw [List.length_drop]; omega)
  obtain ⟨kc, hkc⟩ : ∃ kc, kc = helloCompressCount body := ⟨_, rfl⟩
  have hcount' : readImpl 1 (body.drop (9 + cc)) = kc := by rw [hkc, hcc, helloCompressCount]
  rw [List.drop_drop] at h₄
  rw [hcount'] at hp₄
  rw [← hkc]
  rw [hp₃, ok_bind] at hrun
  dsimp only at hrun
  rw [hp₄, ok_bind] at hrun
  dsimp only at hrun
  rw [h₄.len_eq, ok_bind, List.length_drop] at hrun
  by_cases hcompress : body.length < 10 + cc + kc
  · rw [if_pos (by omega)] at hrun
    rw [if_pos hcompress]
    exact hrun ▸ rfl
  rw [if_neg (not_not_intro (by omega))] at hrun
  rw [if_neg hcompress]
  by_cases hover' : cMax < kc
  · rw [readList_overflow h₄ rand.compress (by rw [List.length_drop]; omega) (by rwa [rand.length_compress])] at hrun
    rw [if_pos hover']
    exact hrun ▸ rfl
  rw [if_neg hover']
  obtain ⟨compress, p₅, hp₅, h₅, -, -⟩ := @readList_bytes _ _ kc h₄ rand.compress (by rw [List.length_drop]; omega)
    (by rw [rand.length_compress]; omega)
  rw [List.drop_drop] at h₅
  have hlen₅ := h₅.len_eq
  rw [List.length_drop] at hlen₅
  by_cases hleft : body.length = 10 + cc + kc
  · rw [if_neg (not_not_intro hleft)]
    obtain ⟨f, hfactor⟩ := generateFactor_isOk rand s.mContext.dhfactor
    obtain ⟨hunknown, hknown⟩ := arriveHello_read rand hs hp₁ hp₂ h₂.len_eq (by rw [List.length_drop]; omega) hp₃ hp₄ h₄.len_eq
      (by rw [List.length_drop]; omega) hp₅ (hlen₅.trans (congrArg Except.ok (by omega))) hfactor
    have hsuite : ciphers.getD 0 0 = helloSuite rand body := by rw [hfirst, helloSuite, ← hcc]
    rw [hsuite] at hunknown hknown
    by_cases heq : helloSuite rand body = csXxtea
    · obtain ⟨cipher₀, -, hanswer⟩ := hknown heq
      obtain ⟨cipher, hkeyed⟩ := keyed_isOk cipher₀ (readImpl 8 body) f.privKey
      obtain ⟨out, hout, -⟩ := hanswer cipher hkeyed
      rw [if_pos heq, ← hx, hout]
      rfl
    · obtain ⟨s', hout⟩ := hunknown heq
      rw [if_neg heq, ← hx, hout]
      rfl
  · rw [if_pos hleft]
    rw [hp₅, ok_bind] at hrun
    dsimp only at hrun
    rw [hlen₅, ok_bind, require_ne (by omega)] at hrun
    exact hrun ▸ rfl

theorem arriveHelloResp_map (rand : Randoms) (hs : s.mDhstate = .handshake) (h : inp.Holds body) :
    (s.arriveHelloResp rand inp).map Prod.fst = s.respReturns body := by
  unfold respReturns
  by_cases h10 : body.length < 10
  · unfold arriveHelloResp
    rw [if_pos h10, require_eq hs, ok_bind, h.len_eq, ok_bind, if_pos (by omega)]
    rfl
  rw [if_neg h10]
  obtain ⟨p₁, hp₁, h₁⟩ := @Packet.Holds.readT_drop _ _ h 8 (by omega)
  obtain ⟨p₂, hp₂, h₂⟩ := @Packet.Holds.readT_drop _ _ h₁ 1 (by rw [List.length_drop]; omega)
  rw [List.drop_drop] at h₂
  obtain ⟨p₃, hp₃, h₃⟩ := @Packet.Holds.readT_drop _ _ h₂ 1 (by rw [List.length_drop]; omega)
  rw [List.drop_drop] at h₃
  have hlen₃ := h₃.len_eq
  rw [List.length_drop] at hlen₃
  by_cases hleft : body.length = 10
  · rw [if_neg (not_not_intro hleft)]
    obtain ⟨hunknown, hnokey, hknown⟩ := arriveHelloResp_read rand hs h.len_eq (by omega) hp₁ hp₂ hp₃
      (hlen₃.trans (congrArg Except.ok (by omega)))
    by_cases heq : respSuite body = csXxtea
    · rw [if_pos heq]
      by_cases hpriv : s.mContext.dhfactor.privKey = 0
      · rw [if_pos hpriv, hnokey heq hpriv]
        rfl
      · obtain ⟨cipher₀, -, hanswer⟩ := hknown heq hpriv
        obtain ⟨cipher, hkeyed⟩ := keyed_isOk cipher₀ (readImpl 8 body) s.mContext.dhfactor.privKey
        obtain ⟨out, hout, -⟩ := hanswer cipher hkeyed
        rw [if_neg hpriv, hout]
        rfl
    · rw [if_neg heq, hunknown heq]
      rfl
  · unfold arriveHelloResp
    rw [if_pos hleft, require_eq hs, ok_bind, h.len_eq, ok_bind, if_neg (not_not_intro (by omega)), hp₁, ok_bind]
    dsimp only
    rw [hp₂, ok_bind]
    dsimp only
    rw [hp₃, ok_bind]
    dsimp only
    rw [hlen₃, ok_bind, require_ne (by omega)]
    rfl

/-- A message that is not well formed is not decrypted; any other is compared, by its first bytes and what
lies behind it in its buffer. -/
theorem arriveHandshakeOk_cases {cipher : Xxtea} (hs : s.mDhstate = .handshake) (hcipher : s.mCipher = some cipher) (h : inp.Holds body) :
    (¬ cipher.WellFormed body ∧ ∃ e, s.arriveHandshakeOk inp = .error e) ∨
      cipher.WellFormed body ∧ ∃ front, front.take (cipher.plaintext body).length = (cipher.plaintext body).take hokMessage.length ∧
        front.length = hokMessage.length ∧
        (s.arriveHandshakeOk inp).map Prod.fst = .ok (if front = hokMessage then eTlpHandshakeDone else eTlpHandshakeMessageCheckFailed) := by
  unfold arriveHandshakeOk
  rw [require_eq hs, ok_bind, hcipher]
  dsimp only
  rcases cipher.decrypt_cases h with ⟨hwf, message, hdecrypt, hheld, hroom⟩ | ⟨hwf, e, hdecrypt⟩
  · have hroom7 : hokMessage.length ≤ packMinRightCapacity := by decide
    have hlength : (slice message.mBuffer message.mReadIdx hokMessage.length).length = hokMessage.length := by
      rw [length_slice_of_le (by omega)]
    refine .inr ⟨hwf, slice message.mBuffer message.mReadIdx hokMessage.length, ?_, hlength, ?_⟩
    · have hfront : (slice message.mBuffer message.mReadIdx (cipher.plaintext body).length).take hokMessage.length =
          slice message.mBuffer message.mReadIdx (min hokMessage.length (cipher.plaintext body).length) := take_slice
      rw [hheld.contents] at hfront
      rw [hfront, take_slice, Nat.min_comm]
    · rw [hdecrypt, ok_bind]
      dsimp only
      rw [if_neg (not_not_intro rfl), load_eq (by omega), ok_bind]
      split_ifs <;> rfl
  · rw [hdecrypt]
    exact .inl ⟨hwf, e, rfl⟩

/-! ### When the answer is as it should be -/

theorem answers_iff {next : Prop} {x : Except ByteFault (Int × Option Packet × Dh)} {y : Except ByteFault Int} (hx : x.map Prod.fst = y) :
    Answers next x ↔ ∃ ec, y = .ok ec ∧ (¬ next → IsError ec) := by
  constructor
  · rintro ⟨ec, out, s', rfl, hec⟩
    exact ⟨ec, hx.symm, hec⟩
  · rintro ⟨ec, hy, hec⟩
    obtain ⟨⟨ec', out, s'⟩, rfl, rfl⟩ := map_eq_ok.mp (hx.trans hy)
    exact ⟨_, out, s', rfl, hec⟩

theorem not_answers {next : Prop} {x : Except ByteFault (Int × Option Packet × Dh)} {e : ByteFault} (hx : x = .error e) : ¬ Answers next x := by
  rintro ⟨ec, out, s', hx', -⟩
  rw [hx] at hx'
  cases hx'

theorem hello_iff (rand : Randoms) (body : List Byte) :
    (∃ ec, helloReturns rand body = .ok ec ∧ (¬ ValidHello body → IsError ec)) ↔ HelloTolerable rand body := by
  have hfail : ¬ ∃ ec : Int, False ∧ (¬ ValidHello body → IsError ec) := fun ⟨_, h, _⟩ => h
  have hreport {ec : Int} (he : IsError ec) : ∃ ec', (.ok ec : Except ByteFault Int) = .ok ec' ∧ (¬ ValidHello body → IsError ec') :=
    ⟨ec, rfl, fun _ => he⟩
  unfold helloReturns HelloTolerable
  split_ifs with h9 hciphers hover hcompress hover' hleft hsuite
  · exact iff_of_false hfail fun h => absurd h.1 (by omega)
  · exact iff_of_true (hreport (by decide)) ⟨by omega, fun h => absurd h (by omega)⟩
  · exact iff_of_false hfail fun h => absurd (h.2 (by omega)).1 (by omega)
  · exact iff_of_true (hreport (by decide)) ⟨by omega, fun _ => ⟨by omega, fun h => absurd h (by omega)⟩⟩
  · exact iff_of_false hfail fun h => absurd ((h.2 (by omega)).2 (by omega)).1 (by omega)
  · exact iff_of_false hfail fun h => hleft ((h.2 (by omega)).2 (by omega)).2.1
  · constructor
    · rintro ⟨ec, hec, hvalid⟩
      cases hec
      by_cases hv : ValidHello body
      · exact ⟨by omega, fun _ => ⟨by omega, fun _ => ⟨by omega, by omega, fun _ => ⟨hv.2.1, hv.2.2.2.1⟩⟩⟩⟩
      · exact absurd (hvalid hv) (by decide)
    · intro h
      obtain ⟨hcc, hkc⟩ := ((h.2 (by omega)).2 (by omega)).2.2 hsuite
      refine ⟨_, rfl, fun hv => absurd ?_ hv⟩
      rw [helloSuite, if_neg (Nat.pos_iff_ne_zero.mp hcc)] at hsuite
      exact ⟨by omega, hcc, by omega, hkc, by omega, hsuite⟩
  · exact iff_of_true (hreport (by decide))
      ⟨by omega, fun _ => ⟨by omega, fun _ => ⟨by omega, by omega, fun h => absurd h hsuite⟩⟩⟩

theorem resp_iff (s : Dh) (body : List Byte) :
    (∃ ec, s.respReturns body = .ok ec ∧ (¬ (s.mCipher = none ∧ ValidResp body) → IsError ec)) ↔ s.RespTolerable body := by
  unfold respReturns RespTolerable
  split_ifs with h10 hleft hsuite hpriv
  · exact iff_of_true ⟨_, rfl, fun _ => by decide⟩ fun h => absurd h (by omega)
  · refine iff_of_false ?_ fun h => hleft (h (by omega)).1
    rintro ⟨ec, h, -⟩
    cases h
  · refine iff_of_false ?_ fun h => ((h (by omega)).2 hsuite).1 hpriv
    rintro ⟨ec, h, -⟩
    cases h
  · constructor
    · rintro ⟨ec, hec, hvalid⟩ -
      cases hec
      refine ⟨by omega, fun _ => ⟨hpriv, ?_⟩⟩
      by_cases hv : s.mCipher = none ∧ ValidResp body
      · exact hv.1
      · exact absurd (hvalid hv) (by decide)
    · intro h
      obtain ⟨-, hnone⟩ := (h (by omega)).2 hsuite
      exact ⟨_, rfl, fun hv => absurd ⟨hnone, by omega, hsuite⟩ hv⟩
  · exact iff_of_true ⟨_, rfl, fun _ => by decide⟩ fun _ => ⟨by omega, fun h => absurd h hsuite⟩

/-- The bytes compared are `HOK_MESSAGE` although the message is not it, or they run over its end, just if
one of the two begins with the other. -/
theorem ok_iff {message front : List Byte} (hfront : front.take message.length = message.take hokMessage.length)
    (hlength : front.length = hokMessage.length) :
    ((front = hokMessage → message = hokMessage) ∧ ComparedInside message) ↔
      (message = hokMessage ∨ ¬ message <+: hokMessage ∧ ¬ hokMessage <+: message) := by
  constructor
  · rintro ⟨hdone, hinside⟩
    by_cases hm : message = hokMessage
    · exact .inl hm
    refine .inr ⟨fun hpre => ?_, fun hpre => ?_⟩
    · rcases hinside with hle | hno
      · exact hm (hpre.eq_of_length (Nat.le_antisymm hpre.length_le hle))
      · exact hno hpre
    · refine hm (hdone ?_)
      rw [List.take_of_length_le (by rw [hlength]; exact hpre.length_le)] at hfront
      rw [hfront]
      exact (List.prefix_iff_eq_take.mp hpre).symm
  · rintro (rfl | ⟨hno, hno'⟩)
    · exact ⟨fun _ => rfl, .inl (Nat.le_refl _)⟩
    · refine ⟨fun hf => ?_, .inr hno⟩
      rw [hf] at hfront
      rcases Nat.le_total message.length hokMessage.length with hle | hle
      · rw [List.take_of_length_le (l := message) hle] at hfront
        exact absurd (hfront ▸ List.take_prefix _ _) hno
      · rw [List.take_of_length_le hle] at hfront
        exact absurd (hfront ▸ List.take_prefix _ _) hno'

/-- The type of a frame decides which case it comes to. -/
theorem arrive_dispatch (rand : Randoms) {bytes : List Byte} (hs : s.mDhstate ≠ .dataTransfer) (h : inp.Holds bytes) (hlen : 4 < bytes.length) :
    ∃ inp', inp'.Holds (bytes.drop 4) ∧ s.handshakePacketArrive rand inp =
      if frameType bytes = fHandshakeHello then s.arriveHello rand inp'
      else if frameType bytes = fHandshakeHelloResp then s.arriveHelloResp rand inp'
      else if frameType bytes = fHandshakeOk then s.arriveHandshakeOk inp'
      else .ok (eTlpInvalidPacket, none, s) := by
  obtain ⟨inp', hread, h'⟩ := @Packet.Holds.readT_drop _ _ h 4 hlen.le
  refine ⟨inp', h', ?_⟩
  unfold handshakePacketArrive
  rw [require_eq hs, ok_bind, h.len_eq, ok_bind, if_neg (not_not_intro hlen), hread, ok_bind]
  rfl

theorem handshakeOk_iff (hs : s.mDhstate = .handshake) (h : inp.Holds body) {next : Prop}
    (hnext : next ↔ ∃ cipher, s.mCipher = some cipher ∧ ValidOk cipher body) :
    (Answers next (s.arriveHandshakeOk inp) ∧
        ∀ cipher, s.mCipher = some cipher → cipher.WellFormed body → ComparedInside (cipher.plaintext body)) ↔
      s.OkTolerable body := by
  cases hcipher : s.mCipher with
  | none =>
    have hfail : s.arriveHandshakeOk inp = .error .dhCipher := by
      unfold arriveHandshakeOk
      rw [require_eq hs, ok_bind, hcipher]
    refine iff_of_false (fun hboth => not_answers hfail hboth.1) ?_
    rintro ⟨cipher, hsome, -⟩
    rw [hcipher] at hsome
    cases hsome
  | some cipher =>
    have hnext' : next ↔ ValidOk cipher body := by
      rw [hnext, hcipher]
      exact ⟨fun ⟨_, he, hv⟩ => Option.some.inj he ▸ hv, fun hv => ⟨cipher, rfl, hv⟩⟩
    have hinside : (∀ cipher', some cipher = some cipher' → cipher'.WellFormed body → ComparedInside (cipher'.plaintext body)) ↔
        (cipher.WellFormed body → ComparedInside (cipher.plaintext body)) :=
      ⟨fun hall => hall cipher rfl, fun hone _ he => Option.some.inj he ▸ hone⟩
    have hright : s.OkTolerable body ↔ cipher.WellFormed body ∧
        (cipher.plaintext body = hokMessage ∨ ¬ cipher.plaintext body <+: hokMessage ∧ ¬ hokMessage <+: cipher.plaintext body) := by
      unfold OkTolerable
      rw [hcipher]
      exact ⟨fun ⟨_, he, ht⟩ => Option.some.inj he ▸ ht, fun ht => ⟨cipher, rfl, ht⟩⟩
    rw [hinside, hright]
    rcases arriveHandshakeOk_cases hs hcipher h with ⟨hwf, e, hfail⟩ | ⟨hwf, front, hfront, hlength, hmap⟩
    · exact iff_of_false (fun hboth => not_answers hfail hboth.1) fun ht => hwf ht.1
    rw [answers_iff hmap, ← ok_iff hfront hlength, hnext', ValidOk]
    have hanswer : (∃ ec, (.ok (if front = hokMessage then eTlpHandshakeDone else eTlpHandshakeMessageCheckFailed) : Except ByteFault Int) = .ok ec ∧
          (¬ (cipher.WellFormed body ∧ cipher.plaintext body = hokMessage) → IsError ec)) ↔
        (front = hokMessage → cipher.plaintext body = hokMessage) := by
      constructor
      · rintro ⟨ec, hec, hvalid⟩ hf
        rw [if_pos hf] at hec
        cases hec
        by_contra hne
        exact absurd (hvalid fun hv => hne hv.2) (by decide)
      · intro hdone
        refine ⟨_, rfl, fun hv => ?_⟩
        rw [if_neg fun hf => hv ⟨hwf, hdone hf⟩]
        decide
    rw [hanswer]
    exact ⟨fun hboth => ⟨hwf, hboth.1, hboth.2 hwf⟩, fun hboth => ⟨hboth.2.1, fun _ => hboth.2.2⟩⟩

section

variable {rand : Randoms} {bytes : List Byte}

theorem robust_hello (hs : s.mDhstate = .idle ∨ s.mDhstate = .handshake) (h : inp.Holds bytes) (hlen : 4 < bytes.length)
    (htype : frameType bytes = fHandshakeHello) :
    Robust rand s inp bytes ↔ s.mDhstate = .idle ∧ HelloTolerable rand (bytes.drop 4) := by
  obtain ⟨inp', h', harrive⟩ := arrive_dispatch rand (by rcases hs with hs | hs <;> rw [hs] <;> nofun) h hlen
  rw [htype, if_pos rfl] at harrive
  have hinside : frameType bytes ≠ fHandshakeOk := by rw [htype]; decide
  have hrobust : Robust rand s inp bytes ↔ Answers (s.NextMessage bytes) (s.arriveHello rand inp') := by
    rw [← harrive]
    exact ⟨fun hr => hr.answers, fun ha => ⟨ha, fun _ he => absurd he hinside⟩⟩
  rw [hrobust]
  rcases hs with hs | hs
  · have hnext : s.NextMessage bytes ↔ ValidHello (bytes.drop 4) := by
      unfold NextMessage
      rw [hs]
      exact ⟨fun hn => hn.2.2, fun hv => ⟨hlen, htype, hv⟩⟩
    rw [answers_iff (arriveHello_map rand hs h'), hnext, hello_iff]
    exact ⟨fun ht => ⟨hs, ht⟩, fun ht => ht.2⟩
  · have hfail : s.arriveHello rand inp' = .error .dhIdle := by
      unfold arriveHello
      rw [require_ne (by rw [hs]; nofun)]
      rfl
    refine iff_of_false (not_answers hfail) fun ht => ?_
    rw [hs] at ht
    exact nomatch ht.1

theorem robust_resp (hs : s.mDhstate = .idle ∨ s.mDhstate = .handshake) (h : inp.Holds bytes) (hlen : 4 < bytes.length)
    (htype : frameType bytes = fHandshakeHelloResp) :
    Robust rand s inp bytes ↔ s.mDhstate = .handshake ∧ s.RespTolerable (bytes.drop 4) := by
  obtain ⟨inp', h', harrive⟩ := arrive_dispatch rand (by rcases hs with hs | hs <;> rw [hs] <;> nofun) h hlen
  rw [htype, if_neg (by decide), if_pos rfl] at harrive
  have hinside : frameType bytes ≠ fHandshakeOk := by rw [htype]; decide
  have hrobust : Robust rand s inp bytes ↔ Answers (s.NextMessage bytes) (s.arriveHelloResp rand inp') := by
    rw [← harrive]
    exact ⟨fun hr => hr.answers, fun ha => ⟨ha, fun _ he => absurd he hinside⟩⟩
  rw [hrobust]
  rcases hs with hs | hs
  · have hfail : s.arriveHelloResp rand inp' = .error .dhHandshake := by
      unfold arriveHelloResp
      rw [require_ne (by rw [hs]; nofun)]
      rfl
    refine iff_of_false (not_answers hfail) fun ht => ?_
    rw [hs] at ht
    exact nomatch ht.1
  · have hnext : s.NextMessage bytes ↔ s.mCipher = none ∧ ValidResp (bytes.drop 4) := by
      unfold NextMessage
      rw [hs]
      cases s.mCipher with
      | none => exact ⟨fun hn => ⟨rfl, hn.2.2⟩, fun hv => ⟨hlen, htype, hv.2⟩⟩
      | some cipher => exact ⟨fun hn => absurd hn.2.1 hinside, fun hv => nomatch hv.1⟩
    rw [answers_iff (arriveHelloResp_map rand hs h'), hnext, resp_iff]
    exact ⟨fun ht => ⟨hs, ht⟩, fun ht => ht.2⟩

theorem robust_ok (hs : s.mDhstate = .idle ∨ s.mDhstate = .handshake) (h : inp.Holds bytes) (hlen : 4 < bytes.length)
    (htype : frameType bytes = fHandshakeOk) :
    Robust rand s inp bytes ↔ s.mDhstate = .handshake ∧ s.OkTolerable (bytes.drop 4) := by
  obtain ⟨inp', h', harrive⟩ := arrive_dispatch rand (by rcases hs with hs | hs <;> rw [hs] <;> nofun) h hlen
  rw [htype, if_neg (by decide), if_neg (by decide), if_pos rfl] at harrive
  have hrobust : Robust rand s inp bytes ↔ Answers (s.NextMessage bytes) (s.arriveHandshakeOk inp') ∧
      ∀ cipher, s.mCipher = some cipher → cipher.WellFormed (bytes.drop 4) → ComparedInside (cipher.plaintext (bytes.drop 4)) := by
    rw [← harrive]
    exact ⟨fun hr => ⟨hr.answers, hr.inside hlen htype⟩, fun hr => ⟨hr.1, fun _ _ => hr.2⟩⟩
  rw [hrobust]
  rcases hs with hs | hs
  · have hfail : s.arriveHandshakeOk inp' = .error .dhHandshake := by
      unfold arriveHandshakeOk
      rw [require_ne (by rw [hs]; nofun)]
      rfl
    refine iff_of_false (fun hr => not_answers hfail hr.1) fun ht => ?_
    rw [hs] at ht
    exact nomatch ht.1
  · have hnext : s.NextMessage bytes ↔ ∃ cipher, s.mCipher = some cipher ∧ ValidOk cipher (bytes.drop 4) := by
      unfold NextMessage
      rw [hs]
      cases s.mCipher with
      | none =>
        have hresp : frameType bytes ≠ fHandshakeHelloResp := by rw [htype]; decide
        exact ⟨fun hn => absurd hn.2.1 hresp, fun ⟨_, he, _⟩ => nomatch he⟩
      | some cipher => exact ⟨fun hn => ⟨cipher, rfl, hn.2.2⟩, fun ⟨_, he, hv⟩ => ⟨hlen, htype, Option.some.inj he ▸ hv⟩⟩
    rw [handshakeOk_iff hs h' hnext]
    exact ⟨fun ht => ⟨hs, ht⟩, fun ht => ht.2⟩

/-- A packet of another type, or one too short for a type and more, is reported. -/
theorem robust_other (hs : s.mDhstate ≠ .dataTransfer) (h : inp.Holds bytes)
    (hother : 4 < bytes.length → frameType bytes ≠ fHandshakeHello ∧ frameType bytes ≠ fHandshakeHelloResp ∧ frameType bytes ≠ fHandshakeOk) :
    Robust rand s inp bytes := by
  by_cases hlen : 4 < bytes.length
  · obtain ⟨hhello, hresp, hok⟩ := hother hlen
    obtain ⟨inp', h', harrive⟩ := arrive_dispatch rand hs h hlen
    rw [if_neg hhello, if_neg hresp, if_neg hok] at harrive
    exact ⟨⟨_, _, _, harrive, fun _ => by decide⟩, fun _ he => absurd he hok⟩
  · refine ⟨⟨eTlpInvalidPacket, none, s, ?_, fun _ => by decide⟩, fun hl => absurd hl hlen⟩
    unfold handshakePacketArrive
    rw [require_eq hs, ok_bind, h.len_eq, ok_bind, if_pos hlen]
    rfl

end

/-- In every state before the transfer of data, with every context, and for every packet of bytes: the
call stays within its arrays, its packet and its assertions and reports all but the next message, just if
the frame is of a type that the state asserts and of contents that its case bears. -/
theorem handshakePacketArrive_robust (rand : Randoms) {s : Dh} {inp : Packet} {bytes : List Byte}
    (hs : s.mDhstate = .idle ∨ s.mDhstate = .handshake) (h : inp.Holds bytes) : Robust rand s inp bytes ↔ s.Tolerable rand bytes := by
  by_cases hlen : 4 < bytes.length
  case neg =>
    exact iff_of_true (robust_other (by rcases hs with hs | hs <;> rw [hs] <;> nofun) h fun hl => absurd hl hlen) fun hl => absurd hl hlen
  unfold Tolerable
  by_cases hhello : frameType bytes = fHandshakeHello
  · have hresp : frameType bytes ≠ fHandshakeHelloResp := by rw [hhello]; decide
    have hok : frameType bytes ≠ fHandshakeOk := by rw [hhello]; decide
    rw [robust_hello hs h hlen hhello]
    exact ⟨fun ht _ => ⟨fun _ => ht, fun he => absurd he hresp, fun he => absurd he hok⟩, fun ht => (ht hlen).1 hhello⟩
  by_cases hresp : frameType bytes = fHandshakeHelloResp
  · have hok : frameType bytes ≠ fHandshakeOk := by rw [hresp]; decide
    rw [robust_resp hs h hlen hresp]
    exact ⟨fun ht _ => ⟨fun he => absurd he hhello, fun _ => ht, fun he => absurd he hok⟩, fun ht => (ht hlen).2.1 hresp⟩
  by_cases hok : frameType bytes = fHandshakeOk
  · rw [robust_ok hs h hlen hok]
    exact ⟨fun ht _ => ⟨fun he => absurd he hhello, fun he => absurd he hresp, fun _ => ht⟩, fun ht => (ht hlen).2.2 hok⟩
  · refine iff_of_true (robust_other (by rcases hs with hs | hs <;> rw [hs] <;> nofun) h fun _ => ⟨hhello, hresp, hok⟩) fun _ => ?_
    exact ⟨fun he => absurd he hhello, fun he => absurd he hresp, fun he => absurd he hok⟩

/-- Draws of a call, and arrays of zeros -/
def plainRandoms : Randoms := ⟨[1], by decide, by decide, 0, 0, List.replicate csMax 0, rfl, List.replicate cMax 0, rfl⟩

/-- A hello that is cut behind its count of suites is reported by a new side. -/
theorem handshakePacketArrive_robust_cut :
    ∃ p : Packet, p.Holds (typeBytes fHandshakeHello 0 ++ writeImpl 8 1 ++ [2]) ∧
      Robust plainRandoms (new true 0) p (typeBytes fHandshakeHello 0 ++ writeImpl 8 1 ++ [2]) := by
  obtain ⟨-, p, -, -, hp, -⟩ := Xxtea.new_write (c := typeBytes fHandshakeHello 0 ++ writeImpl 8 1 ++ [2]) (by decide)
  refine ⟨p, hp, (handshakePacketArrive_robust plainRandoms (.inl rfl) hp).mpr fun _ => ⟨fun _ => ⟨rfl, by decide, ?_⟩, ?_, ?_⟩⟩
  · exact fun hlen => absurd hlen (by decide)
  · exact fun htype => absurd htype (by decide +kernel)
  · exact fun htype => absurd htype (by decide +kernel)

/-- Three packets on which a new side fails: a hello with five suites stores two of them behind its array, one that
ends in its key is read past its end, and a message that comes before a hello fails the assertion about the state. -/
theorem handshakePacketArrive_fails :
    ∃ p q r : Packet,
      (p.Holds (typeBytes fHandshakeHello 0 ++ writeImpl 8 1 ++ [5, 2, 2, 2, 2, 2, 0]) ∧
        ¬ Robust plainRandoms (new true 0) p (typeBytes fHandshakeHello 0 ++ writeImpl 8 1 ++ [5, 2, 2, 2, 2, 2, 0])) ∧
      (q.Holds (typeBytes fHandshakeHello 0 ++ [0]) ∧ ¬ Robust plainRandoms (new true 0) q (typeBytes fHandshakeHello 0 ++ [0])) ∧
      r.Holds (typeBytes fHandshakeOk 0 ++ [0]) ∧ ¬ Robust plainRandoms (new true 0) r (typeBytes fHandshakeOk 0 ++ [0]) := by
  obtain ⟨-, p, -, -, hp, -⟩ := Xxtea.new_write (c := typeBytes fHandshakeHello 0 ++ writeImpl 8 1 ++ [5, 2, 2, 2, 2, 2, 0]) (by decide)
  obtain ⟨-, q, -, -, hq, -⟩ := Xxtea.new_write (c := typeBytes fHandshakeHello 0 ++ [0]) (by decide)
  obtain ⟨-, r, -, -, hr, -⟩ := Xxtea.new_write (c := typeBytes fHandshakeOk 0 ++ [0]) (by decide)
  have hidle : (new true 0).mDhstate = .idle ∨ (new true 0).mDhstate = .handshake := .inl rfl
  refine ⟨p, q, r, ⟨hp, fun h => ?_⟩, ⟨hq, fun h => ?_⟩, hr, fun h => ?_⟩
  · have ht := ((robust_hello hidle hp (by decide) (by decide +kernel)).mp h).2
    exact absurd (ht.2 (by decide +kernel)).1 (by decide +kernel)
  · have ht := ((robust_hello hidle hq (by decide) (by decide +kernel)).mp h).2
    exact absurd ht.1 (by decide)
  · have ht := (robust_ok hidle hr (by decide) (by decide +kernel)).mp h
    exact nomatch ht.1

end Dh

end Wawo
