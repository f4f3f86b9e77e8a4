import Wawo.Security.Dh
import Wawo.Security.Obfuscate
import Wawo.Tlp.SymmetricEncrypt

/-!
# The handshake (`dh_symmetric_encrypt.hpp`)

The client sends its public key and its cipher suites. The server answers with its own public key and
the chosen suite and, in the same packet, with a message encrypted by the key that both get; the client
answers with the same message. A side that has decrypted the message transfers data. A frame of the
handshake begins with its type, obfuscated. No cookie is assigned, and `DH_Context` starts zeroed.
-/

namespace Wawo

open Lts

def eTlpHandshakeDone : Int := -30015
def eTlpHandshaking : Int := -30016
def eTlpUnknownCipher : Int := -30018
def eTlpHandshakeMessageCheckFailed : Int := -30019
def eTlpInvalidState : Int := -30020

/-- `DH_FrameType` -/
def fHandshakeHello : Byte := 1
def fHandshakeHelloResp : Byte := 2
def fHandshakeOk : Byte := 3

/-- `DH_Cipher_Suite` -/
def csNone : Nat := 1
def csXxtea : Nat := 2
def csMax : Nat := 3

/-- `DH_Compress` -/
def cNone : Nat := 1
def cMax : Nat := 4

/-- `DH_Context` -/
structure DhContext where
  dhfactor : DhFactor
  cipherCount : Nat
  ciphers : List Nat
  compressCount : Nat
  compress : List Nat
deriving DecidableEq

/-- `DHState` -/
inductive DhState
  | idle
  | handshake
  | dataTransfer
  | changeKey
  | error
deriving DecidableEq

/-- What the calls of `random_u64`, up to one that is not zero, and of `random_u32` return in a call of
the protocol, and what the arrays of a hello hold there before they are assigned. -/
structure Randoms where
  keys : List Nat
  keys_lt : ∀ k ∈ keys, k < 2 ^ 64
  keys_ne_zero : ∃ k ∈ keys, k ≠ 0
  obf₁ : Word
  obf₂ : Word
  ciphers : List Nat
  length_ciphers : ciphers.length = csMax
  compress : List Nat
  length_compress : compress.length = cMax

/-- `dh_symmetric_encrypt`, on a machine of one byte order; `tlp` and `m_cipher` are of its base
classes. -/
structure Dh where
  littleEndian : Bool
  tlp : HlenPacket
  mCipher : Option Xxtea
  mDhstate : DhState
  mContext : DhContext
deriving DecidableEq

/-- `HOK_MESSAGE` -/
def hokMessage : List Byte := "MESSAGE".toUTF8.data.toList

/-- `make_cipher_suite(id)` -/
def makeCipherSuite (littleEndian : Bool) (id : Nat) : Except ByteFault (Option Xxtea) :=
  if id = csXxtea then do return some (← Xxtea.new littleEndian) else .ok none

/-- `while (pub_key == 0 || priv_key == 0) dhfactor = dh_generate_factor()` -/
def generateFactor (f : DhFactor) : List Nat → Except ByteFault DhFactor
  | [] => if f.pubKey = 0 ∨ f.privKey = 0 then .error .loop else .ok f
  | k :: keys => if f.pubKey = 0 ∨ f.privKey = 0 then generateFactor (dhGenerateFactor k).val keys else .ok f

/-- `for (i < count) packet->write<u8_t>(arr[i]&0xff)` -/
def writeList (arr : List Nat) (count : Nat) (packet : Packet) : Except ByteFault Packet :=
  (List.range count).foldlM (fun packet i =>
    match arr[i]? with
    | some v => packet.writeT 1 (v &&& 0xff)
    | none => .error .outOfBounds) packet

/-- `for (i < count) arr[i] = in->read<u8_t>()` -/
def readList (arr : List Nat) (count : Nat) (inp : Packet) : Except ByteFault (List Nat × Packet) :=
  (List.range count).foldlM (fun (s : List Nat × Packet) i => do
    let (v, inp) ← s.2.readT 1
    require (i < s.1.length) .outOfBounds
    return (s.1.set i v, inp)) (arr, inp)

namespace Dh

def new (littleEndian : Bool) (mSize : Nat) : Dh where
  littleEndian := littleEndian
  tlp := .new mSize
  mCipher := none
  mDhstate := .idle
  mContext := ⟨⟨0, 0⟩, 0, List.replicate csMax 0, 0, List.replicate cMax 0⟩

/-- `handshake_make_hello_packet(hello)`: what it returns, and the `hello` that `encode` sets. -/
def handshakeMakeHelloPacket (rand : Randoms) (s : Dh) : Except ByteFault (Int × Option Packet × Dh) := do
  let dhfactor ← generateFactor s.mContext.dhfactor rand.keys
  let context : DhContext :=
    { dhfactor := dhfactor, cipherCount := 2, ciphers := (s.mContext.ciphers.set 0 csXxtea).set 1 csNone
      compressCount := 1, compress := s.mContext.compress.set 0 cNone }
  let hello ← Packet.new packInitRightCapacity packInitLeftCapacity
  let hello ← hello.writeT 4 (u8Obfuscate fHandshakeHello rand.obf₁).toNat
  let hello ← hello.writeT 8 context.dhfactor.pubKey
  let hello ← hello.writeT 1 context.cipherCount
  let hello ← writeList context.ciphers context.cipherCount hello
  let hello ← hello.writeT 1 context.compressCount
  let hello ← writeList context.compress context.compressCount hello
  let (_, hlengthHello) ← HlenPacket.encode hello
  return (eTlpHandshaking, hlengthHello, { s with mContext := context, mDhstate := .handshake })

/-- The message encrypted and framed, as both answers of the handshake have it: what `encrypt` returns,
with the frame if `encode` sets it. -/
def makeHandshakeOk (cipher : Xxtea) (obf : Word) : Except ByteFault (Int × Option Packet) := do
  let message ← Packet.new packInitRightCapacity packInitLeftCapacity
  let message ← message.write hokMessage hokMessage.length
  let (encrt, encrypted) ← cipher.encrypt message
  if encrt ≠ ok then
    return (encrt, none)
  let encrypted ← encrypted.writeLeftT 4 (u8Obfuscate fHandshakeOk obf).toNat
  let (_, out) ← HlenPacket.encode encrypted
  return (encrt, out)

/-- The cipher with the key both sides get. -/
def keyed (cipher : Xxtea) (pubKey privKey : Nat) : Except ByteFault Xxtea :=
  cipher.setKey (writeImpl 8 (dhGenerateKey pubKey privKey).val ++ List.replicate 8 0) 8

/-- `case F_HANDSHAKE_HELLO` -/
def arriveHello (rand : Randoms) (s : Dh) (inp : Packet) : Except ByteFault (Int × Option Packet × Dh) := do
  require (s.mDhstate = .idle) .dhIdle
  let s : Dh := { s with mDhstate := .handshake }
  let (pubKey, inp) ← inp.readT 8
  let (cipherCount, inp) ← inp.readT 1
  if ¬ (← inp.len) > cipherCount then
    return (eTlpInvalidPacket, none, s)
  let (ciphers, inp) ← readList rand.ciphers cipherCount inp
  let (compressCount, inp) ← inp.readT 1
  if ¬ (← inp.len) ≥ compressCount then
    return (eTlpInvalidPacket, none, s)
  let (compress, inp) ← readList rand.compress compressCount inp
  require ((← inp.len) = 0) .dhLeft
  if ¬ (← inp.len) = 0 then
    return (eTlpInvalidPacket, none, s)
  let dhfactor ← generateFactor s.mContext.dhfactor rand.keys
  let s : Dh := { s with mContext := { s.mContext with dhfactor := dhfactor } }
  match ← makeCipherSuite s.littleEndian (ciphers.getD 0 0) with
  | none => return (eTlpUnknownCipher, none, s)
  | some cipher =>
    let cipher ← keyed cipher pubKey dhfactor.privKey
    let s : Dh := { s with mCipher := some cipher }
    let helloResp ← Packet.new packInitRightCapacity packInitLeftCapacity
    let helloResp ← helloResp.writeT 4 (u8Obfuscate fHandshakeHelloResp rand.obf₁).toNat
    let helloResp ← helloResp.writeT 8 dhfactor.pubKey
    let helloResp ← helloResp.writeT 1 (ciphers.getD 0 0 &&& 0xff)
    let helloResp ← helloResp.writeT 1 (compress.getD 0 0 &&& 0xff)
    let (_, ooo) ← HlenPacket.encode helloResp
    let (encrt, message) ← makeHandshakeOk cipher rand.obf₂
    if encrt ≠ ok then
      return (encrt, none, s)
    match ooo, message with
    | some ooo, some message =>
      let len ← message.len
      let out ← ooo.write (← load message.mBuffer message.mReadIdx len) len
      return (eTlpHandshaking, some out, s)
    | _, _ => .error .dhNull

/-- `case F_HANDSHAKE_HELLO_RESP` -/
def arriveHelloResp (rand : Randoms) (s : Dh) (inp : Packet) : Except ByteFault (Int × Option Packet × Dh) := do
  require (s.mDhstate = .handshake) .dhHandshake
  if ¬ (← inp.len) ≥ 8 + 1 * 2 then
    return (eTlpInvalidPacket, none, s)
  let (pubKey, inp) ← inp.readT 8
  let (suite, inp) ← inp.readT 1
  let (_, inp) ← inp.readT 1
  require ((← inp.len) = 0) .dhLeft
  if ¬ (← inp.len) = 0 then
    return (eTlpInvalidPacket, none, s)
  match ← makeCipherSuite s.littleEndian suite with
  | none => return (eTlpUnknownCipher, none, s)
  | some cipher =>
    require (s.mContext.dhfactor.privKey ≠ 0) .dhPrivKey
    let cipher ← keyed cipher pubKey s.mContext.dhfactor.privKey
    let s : Dh := { s with mCipher := some cipher }
    let (encrt, out) ← makeHandshakeOk cipher rand.obf₁
    if encrt ≠ ok then
      return (encrt, none, s)
    return (eTlpHandshaking, out, s)

/-- `case F_HANDSHAKE_OK` -/
def arriveHandshakeOk (s : Dh) (inp : Packet) : Except ByteFault (Int × Option Packet × Dh) := do
  require (s.mDhstate = .handshake) .dhHandshake
  match s.mCipher with
  | none => .error .dhCipher
  | some cipher =>
    let (decryptrt, message) ← cipher.decrypt inp
    if decryptrt ≠ ok then
      return (decryptrt, none, s)
    match message with
    | none => .error .dhNull
    | some message =>
      -- `strncmp` over the length of a text without zeros
      if (← load message.mBuffer message.mReadIdx hokMessage.length) = hokMessage then
        return (eTlpHandshakeDone, none, { s with mDhstate := .dataTransfer })
      return (eTlpHandshakeMessageCheckFailed, none, s)

/-- `handshake_packet_arrive(in, out)`: what it returns, with `out` if it is set. -/
def handshakePacketArrive (rand : Randoms) (s : Dh) (inp : Packet) : Except ByteFault (Int × Option Packet × Dh) := do
  require (s.mDhstate ≠ .dataTransfer) .dhTransfer
  if ¬ (← inp.len) > 4 then
    return (eTlpInvalidPacket, none, s)
  let (val, inp) ← inp.readT 4
  let dhFrame := u8Deobfuscate (BitVec.ofNat 32 val)
  if dhFrame = fHandshakeHello then s.arriveHello rand inp
  else if dhFrame = fHandshakeHelloResp then s.arriveHelloResp rand inp
  else if dhFrame = fHandshakeOk then s.arriveHandshakeOk inp
  else return (eTlpInvalidPacket, none, s)

/-- `encode(in, out)`: what it returns, with `out` if it is set. -/
def encode (s : Dh) (inp : Packet) : Except ByteFault (Int × Option Packet) :=
  if s.mDhstate ≠ .dataTransfer then .ok (eTlpInvalidState, none) else SymmetricEncrypt.encode s.mCipher inp

/-- What a call of `decode_packets` leaves. -/
structure Result where
  dh : Dh
  buffer : RingBuffer
  arrives : List Packet
  ecO : Int
  out : Option Packet
deriving DecidableEq

/-- `decode_packets(buffer, arrives, size, ec_o, out)`, with `ec_o` as it is passed; a packet of the
handshake is not counted in what it returns. -/
def decodePackets (rand : Randoms) (s : Dh) (buffer : RingBuffer) (size : Nat) (ecO : Int) : Except ByteFault Result :=
  match s.mDhstate with
  | .dataTransfer => do
    require (size > 0) .dhSize
    let r ← SymmetricEncrypt.decodePackets s.mCipher s.tlp buffer size
    return { dh := { s with tlp := r.tlp }, buffer := r.buffer, arrives := r.arrives, ecO := r.ecO, out := none }
  | .idle | .handshake => do
    let r ← s.tlp.decodePackets buffer 1
    let s : Dh := { s with tlp := r.tlp }
    match r.arrives with
    | [inp] =>
      let (ecO, out, s) ← s.handshakePacketArrive rand inp
      return { dh := s, buffer := r.buffer, arrives := [], ecO := ecO, out := out }
    | _ => return { dh := s, buffer := r.buffer, arrives := [], ecO := r.ecO, out := none }
  | .changeKey | .error => .ok { dh := s, buffer := buffer, arrives := [], ecO := ecO, out := none }

end Dh

/-! ### What the packets hold -/

/-- The key that both sides put into their ciphers. -/
def sharedKey (x y : Nat) : List Byte := writeImpl 8 (dhG ^ (reduced x * reduced y) % dhQ) ++ List.replicate 8 'z'.toUInt8

theorem sharedKey_comm (x y : Nat) : sharedKey x y = sharedKey y x := by
  rw [sharedKey, sharedKey, Nat.mul_comm]

/-- The bytes of a list of small numbers. -/
def listBytes (vs : List Nat) : List Byte := vs.flatMap (writeImpl 1)

/-- The type of a frame, obfuscated. -/
def typeBytes (frame : Byte) (obf : Word) : List Byte := writeImpl 4 (u8Obfuscate frame obf).toNat

def helloBytes (obf : Word) (pubKey : Nat) : List Byte :=
  typeBytes fHandshakeHello obf ++ writeImpl 8 pubKey ++ writeImpl 1 2 ++ listBytes [csXxtea, csNone] ++ writeImpl 1 1 ++ listBytes [cNone]

def respBytes (obf : Word) (pubKey : Nat) : List Byte :=
  typeBytes fHandshakeHelloResp obf ++ writeImpl 8 pubKey ++ writeImpl 1 csXxtea ++ writeImpl 1 cNone

def okBytes (key : List Byte) (obf : Word) : List Byte :=
  typeBytes fHandshakeOk obf ++ cipherBytes key hokMessage

/-- The draws end with the first key that is not zero. -/
theorem generateFactor_eq (rand : Randoms) :
    ∃ k, k < 2 ^ 64 ∧ k ≠ 0 ∧ generateFactor ⟨0, 0⟩ rand.keys = .ok ⟨k, dhG ^ reduced k % dhQ⟩ := by
  suffices h : ∀ keys : List Nat, (∀ k ∈ keys, k < 2 ^ 64) → (∃ k ∈ keys, k ≠ 0) → ∀ f : DhFactor, f.privKey = 0 →
      ∃ k, k < 2 ^ 64 ∧ k ≠ 0 ∧ generateFactor f keys = .ok ⟨k, dhG ^ reduced k % dhQ⟩ from
    h rand.keys rand.keys_lt rand.keys_ne_zero ⟨0, 0⟩ rfl
  intro keys
  induction keys with
  | nil =>
    rintro - ⟨k, hk, -⟩
    cases hk
  | cons k keys ih =>
    intro hlt hne f hf
    rw [generateFactor, if_pos (.inr hf), dhGenerateFactor_eq (hlt k (by simp))]
    by_cases hk : k = 0
    · refine ih (fun k hk => hlt k (List.mem_cons_of_mem _ hk)) ?_ _ hk
      obtain ⟨k', hk', hne'⟩ := hne
      rcases List.mem_cons.mp hk' with rfl | hk'
      · exact absurd hk hne'
      · exact ⟨k', hk', hne'⟩
    · have hdone : ¬ (dhG ^ reduced k % dhQ = 0 ∨ k = 0) := not_or.mpr ⟨pubKey_ne_zero k, hk⟩
      refine ⟨k, hlt k (by simp), hk, ?_⟩
      cases keys with
      | nil => exact if_neg hdone
      | cons k' keys => exact if_neg hdone

/-- From whatever factor, the draws end. -/
theorem generateFactor_isOk (rand : Randoms) (f : DhFactor) : ∃ f', generateFactor f rand.keys = .ok f' := by
  suffices h : ∀ keys : List Nat, (∀ k ∈ keys, k < 2 ^ 64) → (∃ k ∈ keys, k ≠ 0) → ∀ f : DhFactor, ∃ f', generateFactor f keys = .ok f' from
    h rand.keys rand.keys_lt rand.keys_ne_zero f
  intro keys
  induction keys with
  | nil =>
    rintro - ⟨k, hk, -⟩
    cases hk
  | cons k keys ih =>
    intro hlt hne f
    rw [generateFactor]
    split_ifs with hf
    · by_cases hk : k = 0
      · refine ih (fun k hk => hlt k (List.mem_cons_of_mem _ hk)) ?_ _
        obtain ⟨k', hk', hne'⟩ := hne
        rcases List.mem_cons.mp hk' with rfl | hk'
        · exact absurd hk hne'
        · exact ⟨k', hk', hne'⟩
      · rw [dhGenerateFactor_eq (hlt k (by simp))]
        have hdone : ¬ (dhG ^ reduced k % dhQ = 0 ∨ k = 0) := not_or.mpr ⟨pubKey_ne_zero k, hk⟩
        cases keys with
        | nil => exact ⟨_, if_neg hdone⟩
        | cons k' keys => exact ⟨_, if_neg hdone⟩
    · exact ⟨f, rfl⟩

theorem keyed_isOk (cipher : Xxtea) (pubKey privKey : Nat) : ∃ cipher', Dh.keyed cipher pubKey privKey = .ok cipher' := by
  obtain ⟨cipher', hset, -⟩ := Xxtea.setKey_eq cipher (writeImpl 8 (dhGenerateKey pubKey privKey).val ++ List.replicate 8 0) 8
    (by decide) (by decide) (by rw [List.length_append, length_writeImpl]; exact Nat.le_add_right _ _)
  exact ⟨cipher', hset⟩

theorem keyed_eq (cipher : Xxtea) (y : Nat) {x : Nat} (hx : x < 2 ^ 64) :
    ∃ cipher', Dh.keyed cipher (dhG ^ reduced y % dhQ) x = .ok cipher' ∧ cipher'.mKey = sharedKey y x := by
  obtain ⟨cipher', hset, hkey, -⟩ := Xxtea.setKey_eq cipher (writeImpl 8 (dhG ^ (reduced y * reduced x) % dhQ) ++ List.replicate 8 0) 8
    (by decide) (by decide) (by rw [List.length_append, length_writeImpl]; exact Nat.le_add_right _ _)
  refine ⟨cipher', ?_, ?_⟩
  · unfold Dh.keyed
    rw [dhGenerateKey_eq y hx, hset]
  · rw [hkey, List.take_left' (length_writeImpl 8 _), sharedKey]

theorem makeCipherSuite_eq (littleEndian : Bool) : ∃ cipher, makeCipherSuite littleEndian csXxtea = .ok (some cipher) := by
  obtain ⟨cipher, hnew, -⟩ := Xxtea.setKey_eq ⟨littleEndian, List.replicate 16 0, List.length_replicate⟩ (List.replicate 16 0) 16
    (by decide) (by decide) (by decide)
  refine ⟨cipher, ?_⟩
  unfold makeCipherSuite Xxtea.new
  rw [if_pos rfl, hnew, ok_bind, pure_eq_ok]

theorem writeList_eq {p : Packet} {c : List Byte} {l r : Nat} (h : p.Holds c) (arr : List Nat) (count : Nat) (hcount : count ≤ arr.length)
    (harr : ∀ v ∈ arr, v < 256) (hs : p.Spare l (count + r)) :
    ∃ p', writeList arr count p = .ok p' ∧ p'.Holds (c ++ listBytes (arr.take count)) ∧ p'.Spare l r := by
  induction count generalizing r with
  | zero =>
    rw [Nat.zero_add] at hs
    refine ⟨p, rfl, ?_, hs⟩
    rw [List.take_zero, listBytes, List.flatMap_nil, List.append_nil]
    exact h
  | succ count ih =>
    obtain ⟨p₁, hp₁, h₁, hs₁⟩ := ih (r := 1 + r) (by omega) (by rwa [← Nat.add_assoc])
    obtain ⟨p₂, hp₂, h₂, hs₂⟩ := h₁.writeT_spare 1 arr[count] hs₁
    have hmask : arr[count] &&& 0xff = arr[count] :=
      (Nat.and_two_pow_sub_one_eq_mod _ 8).trans (Nat.mod_eq_of_lt (harr _ (List.getElem_mem _)))
    refine ⟨p₂, ?_, ?_, hs₂⟩
    · unfold writeList at hp₁ ⊢
      rw [List.range_succ, List.foldlM_append, hp₁, ok_bind, List.foldlM_cons, List.getElem?_eq_getElem (by omega)]
      dsimp only
      rw [hmask, hp₂, ok_bind, List.foldlM_nil, pure_eq_ok]
    · rw [List.take_succ_eq_append_getElem (by omega), listBytes, List.flatMap_append, ← List.append_assoc, List.flatMap_singleton]
      exact h₂

theorem readList_eq {p : Packet} {rest : List Byte} (vs arr : List Nat) (h : p.Holds (listBytes vs ++ rest)) (hvs : ∀ v ∈ vs, v < 256)
    (hroom : vs.length ≤ arr.length) :
    ∃ p', readList arr vs.length p = .ok (vs ++ arr.drop vs.length, p') ∧ p'.Holds rest := by
  have hloop : ∀ k, k ≤ vs.length →
      ∃ p', readList arr k p = .ok (vs.take k ++ arr.drop k, p') ∧ p'.Holds (listBytes (vs.drop k) ++ rest) := by
    intro k
    induction k with
    | zero => exact fun _ => ⟨p, rfl, h⟩
    | succ k ih =>
      intro hk
      obtain ⟨p₁, hp₁, h₁⟩ := ih (by omega)
      have hfront : listBytes (vs.drop k) ++ rest = writeImpl 1 vs[k] ++ (listBytes (vs.drop (k + 1)) ++ rest) := by
        rw [List.drop_eq_getElem_cons hk, listBytes, List.flatMap_cons, List.append_assoc, listBytes]
      obtain ⟨p₂, hp₂, h₂⟩ := h₁.readT_front 1 vs[k] hfront (hvs _ (List.getElem_mem _))
      have hlength : k < (vs.take k ++ arr.drop k).length := by
        rw [List.length_append, List.length_take, List.length_drop]
        omega
      refine ⟨p₂, ?_, h₂⟩
      unfold readList at hp₁ ⊢
      rw [List.range_succ, List.foldlM_append, hp₁, ok_bind, List.foldlM_cons]
      dsimp only
      rw [hp₂, ok_bind]
      dsimp only
      rw [require_eq hlength, ok_bind, pure_eq_ok, ok_bind, List.foldlM_nil, pure_eq_ok, Memory.set_copied hk (by omega)]
  obtain ⟨p', hp', h'⟩ := hloop vs.length (Nat.le_refl _)
  rw [List.take_length] at hp'
  rw [List.drop_length] at h'
  exact ⟨p', hp', h'⟩

theorem makeHandshakeOk_eq (cipher : Xxtea) (obf : Word) :
    ∃ f, Dh.makeHandshakeOk cipher obf = .ok (ok, some f) ∧ f.Holds (HlenPacket.frame (okBytes cipher.mKey obf)) := by
  obtain ⟨m, hm, h, hs⟩ := Packet.new_spare (r := packInitRightCapacity) (by decide)
  obtain ⟨m', hm', h', -⟩ := h.write_spare hokMessage (r := 3833) hs
  obtain ⟨e, he, h₂, hs₂⟩ := Xxtea.encrypt_eq cipher h' (by rw [length_cipherBytes]; decide)
  obtain ⟨e', he', h₃, hs₃⟩ := h₂.writeLeftT_spare 4 (u8Obfuscate fHandshakeOk obf).toNat (l := 124) hs₂
  obtain ⟨f, hf, h₄, -⟩ := HlenPacket.encode_eq (l := 120) h₃
    (List.append_ne_nil_of_left_ne_nil (List.ne_nil_of_length_pos (by rw [length_writeImpl]; decide)) _) hs₃
  refine ⟨f, ?_, h₄⟩
  unfold Dh.makeHandshakeOk
  rw [hm, ok_bind, hm', ok_bind, he, ok_bind]
  dsimp only
  rw [if_neg (not_not_intro rfl), he', ok_bind, hf, ok_bind, pure_eq_ok]

namespace Dh

/-- A client that has made its hello. -/
structure Hailing (s : Dh) (x : Nat) : Prop where
  cipher_eq : s.mCipher = none
  dhstate_eq : s.mDhstate = .handshake
  privKey_eq : s.mContext.dhfactor.privKey = x
  privKey_ne_zero : x ≠ 0
  privKey_lt : x < 2 ^ 64

theorem handshakeMakeHelloPacket_eq (rand : Randoms) (littleEndian : Bool) (mSize : Nat) :
    ∃ x f s, (new littleEndian mSize).handshakeMakeHelloPacket rand = .ok (eTlpHandshaking, some f, s) ∧
      f.Holds (HlenPacket.frame (helloBytes rand.obf₁ (dhG ^ reduced x % dhQ))) ∧ s.Hailing x ∧ s.tlp = .new mSize := by
  obtain ⟨x, hx, hx0, hfactor⟩ := generateFactor_eq rand
  obtain ⟨p, hp, h, hs⟩ := Packet.new_spare (r := packInitRightCapacity) (by decide)
  obtain ⟨p₁, hp₁, h₁, hs₁⟩ := h.writeT_spare 4 (u8Obfuscate fHandshakeHello rand.obf₁).toNat (r := 3836) hs
  obtain ⟨p₂, hp₂, h₂, hs₂⟩ := h₁.writeT_spare 8 (dhG ^ reduced x % dhQ) (r := 3828) hs₁
  obtain ⟨p₃, hp₃, h₃, hs₃⟩ := h₂.writeT_spare 1 2 (r := 3827) hs₂
  obtain ⟨p₄, hp₄, h₄, hs₄⟩ := writeList_eq h₃ [csXxtea, csNone, 0] 2 (r := 3825) (by decide) (by decide) hs₃
  obtain ⟨p₅, hp₅, h₅, hs₅⟩ := h₄.writeT_spare 1 1 (r := 3824) hs₄
  obtain ⟨p₆, hp₆, h₆, hs₆⟩ := writeList_eq h₅ [cNone, 0, 0, 0] 1 (r := 3823) (by decide) (by decide) hs₅
  rw [List.nil_append] at h₆
  have hne : helloBytes rand.obf₁ (dhG ^ reduced x % dhQ) ≠ [] := by
    refine List.ne_nil_of_length_pos ?_
    simp only [helloBytes, typeBytes, List.length_append, length_writeImpl]
    omega
  obtain ⟨f, hf, hframe, -⟩ := HlenPacket.encode_eq (l := 124) h₆ hne hs₆
  refine ⟨x, f, { new littleEndian mSize with
      mContext := ⟨⟨x, dhG ^ reduced x % dhQ⟩, 2, [csXxtea, csNone, 0], 1, [cNone, 0, 0, 0]⟩, mDhstate := .handshake },
    ?_, hframe, ⟨rfl, rfl, rfl, hx0, hx⟩, rfl⟩
  have hciphers : ((List.replicate csMax 0).set 0 csXxtea).set 1 csNone = [csXxtea, csNone, 0] := rfl
  have hcompress : (List.replicate cMax 0).set 0 cNone = [cNone, 0, 0, 0] := rfl
  unfold handshakeMakeHelloPacket new
  dsimp only
  rw [hfactor, ok_bind, hp, ok_bind, hp₁, ok_bind, hciphers, hcompress]
  dsimp only
  rw [hp₂, ok_bind, hp₃, ok_bind, hp₄, ok_bind, hp₅, ok_bind, hp₆, ok_bind, hf, ok_bind, pure_eq_ok]

/-- The cipher is set, with this key. -/
def Keyed (s : Dh) (key : List Byte) : Prop := ∃ cipher, s.mCipher = some cipher ∧ cipher.mKey = key

variable {s : Dh} {inp : Packet} {x y : Nat} {obf : Word} {rest key : List Byte}

/-- The type of an arriving frame is read, and decides what is done with the rest. -/
theorem arrive_eq (rand : Randoms) {frame : Byte} (hs : s.mDhstate ≠ .dataTransfer) (h : inp.Holds (typeBytes frame obf ++ rest))
    (hrest : rest ≠ []) :
    ∃ inp', inp'.Holds rest ∧ s.handshakePacketArrive rand inp =
      if frame = fHandshakeHello then s.arriveHello rand inp'
      else if frame = fHandshakeHelloResp then s.arriveHelloResp rand inp'
      else if frame = fHandshakeOk then s.arriveHandshakeOk inp'
      else .ok (eTlpInvalidPacket, none, s) := by
  obtain ⟨inp', hread, h'⟩ := h.readT_front 4 _ rfl (u8Obfuscate frame obf).isLt
  have hpos := List.length_pos_iff.mpr hrest
  have hlen : ¬ ¬ (typeBytes frame obf ++ rest).length > 4 := by
    rw [List.length_append, typeBytes, length_writeImpl]
    omega
  refine ⟨inp', h', ?_⟩
  unfold handshakePacketArrive
  rw [require_eq hs, ok_bind, h.len_eq, ok_bind, if_neg hlen, hread, ok_bind]
  dsimp only
  rw [BitVec.ofNat_toNat, BitVec.setWidth_eq, deobfuscate_obfuscate, pure_eq_ok]

section

variable {pubKey cipherCount compressCount n n' : Nat} {ciphers compress : List Nat} {p₁ p₂ p₃ p₄ p₅ : Packet} {f : DhFactor}

/-- A hello that has been read to its end is answered, or its suite is not known. -/
theorem arriveHello_read (rand : Randoms) (hs : s.mDhstate = .idle) (hp₁ : inp.readT 8 = .ok (pubKey, p₁))
    (hp₂ : p₁.readT 1 = .ok (cipherCount, p₂)) (hlen₂ : p₂.len = .ok n) (hn : n > cipherCount)
    (hp₃ : readList rand.ciphers cipherCount p₂ = .ok (ciphers, p₃)) (hp₄ : p₃.readT 1 = .ok (compressCount, p₄))
    (hlen₄ : p₄.len = .ok n') (hn' : n' ≥ compressCount) (hp₅ : readList rand.compress compressCount p₄ = .ok (compress, p₅))
    (hlen₅ : p₅.len = .ok 0) (hfactor : generateFactor s.mContext.dhfactor rand.keys = .ok f) :
    (ciphers.getD 0 0 ≠ csXxtea → ∃ s', s.arriveHello rand inp = .ok (eTlpUnknownCipher, none, s')) ∧
    (ciphers.getD 0 0 = csXxtea → ∃ cipher₀, makeCipherSuite s.littleEndian csXxtea = .ok (some cipher₀) ∧
      ∀ cipher, keyed cipher₀ pubKey f.privKey = .ok cipher → ∃ out,
        s.arriveHello rand inp = .ok (eTlpHandshaking, some out, { s with
          mDhstate := .handshake, mContext := { s.mContext with dhfactor := f }, mCipher := some cipher }) ∧
        out.Holds (HlenPacket.frame (typeBytes fHandshakeHelloResp rand.obf₁ ++ writeImpl 8 f.pubKey ++ writeImpl 1 csXxtea ++
          writeImpl 1 (compress.getD 0 0 &&& 0xff)) ++ HlenPacket.frame (okBytes cipher.mKey rand.obf₂))) := by
  unfold arriveHello
  rw [require_eq hs, ok_bind]
  dsimp only
  rw [hp₁, ok_bind]
  dsimp only
  rw [hp₂, ok_bind]
  dsimp only
  rw [hlen₂, ok_bind, if_neg (not_not_intro hn), hp₃, ok_bind]
  dsimp only
  rw [hp₄, ok_bind]
  dsimp only
  rw [hlen₄, ok_bind, if_neg (not_not_intro hn'), hp₅, ok_bind]
  dsimp only
  rw [hlen₅, ok_bind, require_eq rfl, ok_bind, ok_bind, if_neg (not_not_intro rfl), hfactor, ok_bind]
  refine ⟨fun hsuite => ?_, fun hsuite => ?_⟩
  · have hnone : makeCipherSuite s.littleEndian (ciphers.getD 0 0) = .ok none := if_neg hsuite
    refine ⟨{ s with mDhstate := .handshake, mContext := { s.mContext with dhfactor := f } }, ?_⟩
    rw [hnone, ok_bind]
    rfl
  obtain ⟨cipher₀, hmake⟩ := makeCipherSuite_eq s.littleEndian
  refine ⟨cipher₀, hmake, fun cipher hkeyed => ?_⟩
  obtain ⟨r, hr, g, gs⟩ := Packet.new_spare (r := packInitRightCapacity) (by decide)
  obtain ⟨r₁, hr₁, g₁, gs₁⟩ := g.writeT_spare 4 (u8Obfuscate fHandshakeHelloResp rand.obf₁).toNat (r := 3836) gs
  obtain ⟨r₂, hr₂, g₂, gs₂⟩ := g₁.writeT_spare 8 f.pubKey (r := 3828) gs₁
  obtain ⟨r₃, hr₃, g₃, gs₃⟩ := g₂.writeT_spare 1 csXxtea (r := 3827) gs₂
  obtain ⟨r₄, hr₄, g₄, gs₄⟩ := g₃.writeT_spare 1 (compress.getD 0 0 &&& 0xff) (r := 3826) gs₃
  rw [List.nil_append] at g₄
  obtain ⟨ooo, hooo, g₅, gs₅⟩ := HlenPacket.encode_eq (l := 124) g₄
    (List.append_ne_nil_of_right_ne_nil _ (List.ne_nil_of_length_pos (by rw [length_writeImpl]; decide))) gs₄
  obtain ⟨m, hm, k⟩ := makeHandshakeOk_eq cipher rand.obf₂
  have hmlen : (HlenPacket.frame (okBytes cipher.mKey rand.obf₂)).length = 20 := by
    rw [HlenPacket.length_frame, okBytes, typeBytes, List.length_append, length_writeImpl, length_cipherBytes]
    rfl
  obtain ⟨out, hout, g₆, -⟩ := g₅.write_spare (HlenPacket.frame (okBytes cipher.mKey rand.obf₂)) (l := 124) (r := 3806) (by rwa [hmlen])
  refine ⟨out, ?_, g₆⟩
  have hmask : csXxtea &&& 0xff = csXxtea := rfl
  rw [hsuite, hmake, ok_bind]
  dsimp only
  rw [hkeyed, ok_bind, hr, ok_bind, hr₁, ok_bind, hr₂, ok_bind, hmask, hr₃, ok_bind, hr₄, ok_bind, hooo, ok_bind]
  dsimp only
  rw [hm, ok_bind]
  dsimp only
  rw [if_neg (not_not_intro rfl), k.len_eq, ok_bind, Xxtea.load_packet k, ok_bind, hout, ok_bind, pure_eq_ok]

/-- An answer to a hello that has been read to its end is answered, or its suite is not known. -/
theorem arriveHelloResp_read (rand : Randoms) (hs : s.mDhstate = .handshake) (hlen : inp.len = .ok n) (hn : n ≥ 8 + 1 * 2)
    (hp₁ : inp.readT 8 = .ok (pubKey, p₁)) (hp₂ : p₁.readT 1 = .ok (cipherCount, p₂)) (hp₃ : p₂.readT 1 = .ok (compressCount, p₃))
    (hlen₃ : p₃.len = .ok 0) :
    (cipherCount ≠ csXxtea → s.arriveHelloResp rand inp = .ok (eTlpUnknownCipher, none, s)) ∧
    (cipherCount = csXxtea → s.mContext.dhfactor.privKey = 0 → s.arriveHelloResp rand inp = .error .dhPrivKey) ∧
    (cipherCount = csXxtea → s.mContext.dhfactor.privKey ≠ 0 → ∃ cipher₀, makeCipherSuite s.littleEndian csXxtea = .ok (some cipher₀) ∧
      ∀ cipher, keyed cipher₀ pubKey s.mContext.dhfactor.privKey = .ok cipher → ∃ out,
        s.arriveHelloResp rand inp = .ok (eTlpHandshaking, some out, { s with mCipher := some cipher }) ∧
        out.Holds (HlenPacket.frame (okBytes cipher.mKey rand.obf₁))) := by
  unfold arriveHelloResp
  rw [require_eq hs, ok_bind, hlen, ok_bind, if_neg (not_not_intro hn), hp₁, ok_bind]
  dsimp only
  rw [hp₂, ok_bind]
  dsimp only
  rw [hp₃, ok_bind]
  dsimp only
  rw [hlen₃, ok_bind, require_eq rfl, ok_bind, ok_bind, if_neg (not_not_intro rfl)]
  refine ⟨fun hsuite => ?_, fun hsuite hpriv => ?_, fun hsuite hpriv => ?_⟩
  · have hnone : makeCipherSuite s.littleEndian cipherCount = .ok none := if_neg hsuite
    rw [hnone, ok_bind]
    rfl
  · obtain ⟨cipher₀, hmake⟩ := makeCipherSuite_eq s.littleEndian
    rw [hsuite, hmake, ok_bind]
    dsimp only
    rw [require_ne (not_not_intro hpriv)]
    rfl
  · obtain ⟨cipher₀, hmake⟩ := makeCipherSuite_eq s.littleEndian
    refine ⟨cipher₀, hmake, fun cipher hkeyed => ?_⟩
    obtain ⟨m, hm, k⟩ := makeHandshakeOk_eq cipher rand.obf₁
    refine ⟨m, ?_, k⟩
    rw [hsuite, hmake, ok_bind]
    dsimp only
    rw [require_eq hpriv, ok_bind, hkeyed, ok_bind, hm, ok_bind]
    dsimp only
    rw [if_neg (not_not_intro rfl), pure_eq_ok]

end

theorem arriveHello_eq (rand : Randoms) (hs : s.mDhstate = .idle) (hfactor : s.mContext.dhfactor = ⟨0, 0⟩)
    (h : inp.Holds (helloBytes obf (dhG ^ reduced x % dhQ))) :
    ∃ y out s', s.handshakePacketArrive rand inp = .ok (eTlpHandshaking, some out, s') ∧
      out.Holds (HlenPacket.frame (respBytes rand.obf₁ (dhG ^ reduced y % dhQ)) ++
        HlenPacket.frame (okBytes (sharedKey x y) rand.obf₂)) ∧
      y < 2 ^ 64 ∧ s'.mDhstate = .handshake ∧ s'.Keyed (sharedKey x y) ∧ s'.tlp = s.tlp := by
  simp only [helloBytes, List.append_assoc] at h
  obtain ⟨p, h₀, harrive⟩ := arrive_eq rand (by rw [hs]; nofun) h
    (List.append_ne_nil_of_left_ne_nil (List.ne_nil_of_length_pos (by rw [length_writeImpl]; decide)) _)
  obtain ⟨p₁, hp₁, h₁⟩ := h₀.readT_front 8 _ rfl (pubKey_lt x)
  obtain ⟨p₂, hp₂, h₂⟩ := h₁.readT_front 1 2 rfl (by decide)
  obtain ⟨p₃, hp₃, h₃⟩ := readList_eq [csXxtea, csNone] rand.ciphers h₂ (by decide) (by rw [rand.length_ciphers]; decide)
  obtain ⟨p₄, hp₄, h₄⟩ := h₃.readT_front 1 1 rfl (by decide)
  obtain ⟨p₅, hp₅, h₅⟩ := readList_eq [cNone] rand.compress (by rw [List.append_nil]; exact h₄ : p₄.Holds (listBytes [cNone] ++ [])) (by decide)
    (by rw [rand.length_compress]; decide)
  obtain ⟨y, hy, hy0, hdraw⟩ := generateFactor_eq rand
  rw [← hfactor] at hdraw
  have hlist : listBytes [csXxtea, csNone] = [2, 1] := rfl
  have hlist' : listBytes [cNone] = [1] := rfl
  obtain ⟨-, hanswer⟩ := arriveHello_read rand hs hp₁ hp₂ h₂.len_eq (by simp [hlist, hlist']) hp₃ hp₄ h₄.len_eq (by simp [hlist']) hp₅ h₅.len_eq hdraw
  obtain ⟨cipher₀, -, hanswer⟩ := hanswer rfl
  obtain ⟨cipher, hkeyed, hkey⟩ := keyed_eq cipher₀ x hy
  obtain ⟨out, hout, hheld⟩ := hanswer cipher hkeyed
  have hfirst : ([cNone] ++ rand.compress.drop [cNone].length).getD 0 0 = cNone := rfl
  have hmask : cNone &&& 0xff = cNone := rfl
  rw [hkey, hfirst, hmask] at hheld
  refine ⟨y, out, { s with
      mDhstate := .handshake, mContext := { s.mContext with dhfactor := ⟨y, dhG ^ reduced y % dhQ⟩ }, mCipher := some cipher },
    ?_, hheld, hy, rfl, ⟨cipher, rfl, hkey⟩, rfl⟩
  rw [harrive, if_pos rfl]
  exact hout

theorem arriveHelloResp_eq (rand : Randoms) (hs : s.Hailing x) (h : inp.Holds (respBytes obf (dhG ^ reduced y % dhQ))) :
    ∃ out s', s.handshakePacketArrive rand inp = .ok (eTlpHandshaking, some out, s') ∧
      out.Holds (HlenPacket.frame (okBytes (sharedKey x y) rand.obf₁)) ∧
      s'.mDhstate = .handshake ∧ s'.Keyed (sharedKey x y) ∧ s'.tlp = s.tlp := by
  simp only [respBytes, List.append_assoc] at h
  obtain ⟨p, h₀, harrive⟩ := arrive_eq rand (by rw [hs.dhstate_eq]; nofun) h
    (List.append_ne_nil_of_left_ne_nil (List.ne_nil_of_length_pos (by rw [length_writeImpl]; decide)) _)
  obtain ⟨p₁, hp₁, h₁⟩ := h₀.readT_front 8 _ rfl (pubKey_lt y)
  obtain ⟨p₂, hp₂, h₂⟩ := h₁.readT_front 1 csXxtea rfl (by decide)
  obtain ⟨p₃, hp₃, h₃⟩ := h₂.readT_front 1 cNone (List.append_nil _).symm (by decide)
  have hlen : (writeImpl 8 (dhG ^ reduced y % dhQ) ++ (writeImpl 1 csXxtea ++ writeImpl 1 cNone)).length ≥ 8 + 1 * 2 := by
    simp only [List.length_append, length_writeImpl]
    decide
  obtain ⟨-, -, hanswer⟩ := arriveHelloResp_read rand hs.dhstate_eq h₀.len_eq hlen hp₁ hp₂ hp₃ h₃.len_eq
  obtain ⟨cipher₀, -, hanswer⟩ := hanswer rfl (by rw [hs.privKey_eq]; exact hs.privKey_ne_zero)
  rw [hs.privKey_eq] at hanswer
  obtain ⟨cipher, hkeyed, hkey⟩ := keyed_eq cipher₀ y hs.privKey_lt
  obtain ⟨out, hout, hheld⟩ := hanswer cipher hkeyed
  rw [hkey, sharedKey_comm] at hheld
  refine ⟨out, { s with mCipher := some cipher }, ?_, hheld, hs.dhstate_eq, ⟨cipher, rfl, hkey.trans (sharedKey_comm y x)⟩, rfl⟩
  rw [harrive, if_neg (by decide), if_pos rfl]
  exact hout

theorem arriveHandshakeOk_eq (rand : Randoms) (hs : s.mDhstate = .handshake) (hkey : s.Keyed key) (h : inp.Holds (okBytes key obf)) :
    s.handshakePacketArrive rand inp = .ok (eTlpHandshakeDone, none, { s with mDhstate := .dataTransfer }) := by
  obtain ⟨cipher, hcipher, rfl⟩ := hkey
  obtain ⟨p, h₀, harrive⟩ := arrive_eq rand (by rw [hs]; nofun) h
    (List.ne_nil_of_length_pos (by rw [length_cipherBytes]; decide))
  obtain ⟨m, hm, k⟩ := Xxtea.decrypt_holds (by decide : hokMessage ≠ []) (by decide) h₀
  rw [harrive, if_neg (by decide), if_neg (by decide), if_pos rfl]
  unfold arriveHandshakeOk
  rw [require_eq hs, ok_bind, hcipher]
  dsimp only
  rw [hm, ok_bind]
  dsimp only
  rw [if_neg (not_not_intro rfl)]
  rw [Xxtea.load_packet k, ok_bind, if_pos rfl, pure_eq_ok]

end Dh

end Wawo
