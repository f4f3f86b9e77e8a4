import Wawo.Security.Xxtea
import Wawo.Tlp.Framing

/-!
# Encrypted framing (`symmetric_encrypt.hpp`)

A packet is encrypted and framed; `decode_packets` decodes frames into the array and then decrypts the
array in place, one packet after the other, up to the first that fails. It is a protocol over
`hlen_packet` with ciphertexts as payloads on the wire.
-/

namespace Wawo

open Lts

namespace SymmetricEncrypt

/-- `encode(in, out)`: what it returns, with `out` if it is set. -/
def encode (mCipher : Option Xxtea) (inp : Packet) : Except ByteFault (Int × Option Packet) :=
  match mCipher with
  | none => .error .symmetricCipher
  | some cipher => do
    let (rt, encrypted) ← cipher.encrypt inp
    if rt ≠ ok then
      return (rt, none)
    HlenPacket.encode encrypted

/-- The variables of the loop of `decode_packets`. -/
structure Decrypting where
  outs : List Packet
  pcount : Nat
  ecO : Int
  bBreak : Bool
deriving DecidableEq

/-- Round `i` of the loop. -/
def decryptRound (cipher : Xxtea) (size : Nat) (s : Decrypting) (i : Nat) : Except ByteFault Decrypting :=
  if s.bBreak then .ok s
  else
    match s.outs[i]? with
    | none => .error .outOfBounds
    | some out => do
      let (decryptrt, decrypted) ← cipher.decrypt out
      match decrypted with
      | none => return { s with ecO := decryptrt, bBreak := true }
      | some decrypted =>
        if decryptrt ≠ ok then
          return { s with ecO := decryptrt, bBreak := true }
        require (s.pcount < size) .symmetricCount
        return { s with outs := s.outs.set s.pcount decrypted, pcount := s.pcount + 1 }

/-- `decode_packets(buffer, outs, size, ec_o)`; the first `pcount` packets of the array are returned. -/
def decodePackets (mCipher : Option Xxtea) (tlp : HlenPacket) (buffer : RingBuffer) (size : Nat) : Except ByteFault TlpResult :=
  match mCipher with
  | none => .error .symmetricCipher
  | some cipher => do
    let r ← tlp.decodePackets buffer size
    let s ← (List.range r.arrives.length).foldlM (decryptRound cipher size)
      { outs := r.arrives, pcount := 0, ecO := r.ecO, bBreak := false }
    return { r with arrives := s.outs.take s.pcount, ecO := s.ecO }

/-- A payload that can be sent, encrypted, to a buffer of this capacity. -/
structure Sent (key : List Byte) (capacity : Nat) (c : List Byte) : Prop where
  ne_nil : c ≠ []
  fits : HlenPacket.Fits capacity (cipherBytes key c)

variable {cipher : Xxtea}

/-- The loop decrypts packets that hold ciphertexts. -/
theorem decrypt_arrives {arrives : List Packet} {cs : List (List Byte)} {size capacity : Nat} (ecO : Int)
    (harr : List.Forall₂ Packet.Holds arrives (cs.map (cipherBytes cipher.mKey))) (hsent : ∀ c ∈ cs, Sent cipher.mKey capacity c)
    (hsize : arrives.length ≤ size) :
    ∃ outs, (List.range arrives.length).foldlM (decryptRound cipher size) { outs := arrives, pcount := 0, ecO := ecO, bBreak := false } =
        .ok { outs := outs, pcount := arrives.length, ecO := ecO, bBreak := false } ∧
      outs.length = arrives.length ∧ List.Forall₂ Packet.Holds outs cs := by
  -- after `k` rounds, the first `k` packets are decrypted and the others as they were
  have hloop : ∀ k, k ≤ arrives.length → ∃ outs,
      (List.range k).foldlM (decryptRound cipher size) { outs := arrives, pcount := 0, ecO := ecO, bBreak := false } =
        .ok { outs := outs ++ arrives.drop k, pcount := k, ecO := ecO, bBreak := false } ∧
      outs.length = k ∧ List.Forall₂ Packet.Holds outs (cs.take k) := by
    intro k
    induction k with
    | zero => exact fun _ => ⟨[], rfl, rfl, .nil⟩
    | succ k ih =>
      intro hk
      obtain ⟨outs, hrun, hlen, houts⟩ := ih (by omega)
      have hcs : k < cs.length := by
        have := harr.length_eq
        rw [List.length_map] at this
        omega
      have hheld : arrives[k].Holds (cipherBytes cipher.mKey cs[k]) := by
        have h := harr.get hk (by rw [List.length_map]; exact hcs)
        simpa using h
      obtain ⟨hne, hfits⟩ := hsent cs[k] (List.getElem_mem hcs)
      have hright : cs[k].length ≤ packMaxRightCapacity := by
        have := hfits.le_right
        rw [length_cipherBytes] at this
        omega
      obtain ⟨p, hp, hdec⟩ := Xxtea.decrypt_holds hne hright hheld
      refine ⟨outs ++ [p], ?_, by rw [List.length_append, hlen, List.length_singleton], ?_⟩
      · have hget : (outs ++ arrives.drop k)[k]? = some arrives[k] := by
          rw [List.getElem?_append_right (by omega), hlen, Nat.sub_self, List.getElem?_drop, Nat.add_zero, List.getElem?_eq_getElem hk]
        have hset : (outs ++ arrives.drop k).set k p = outs ++ [p] ++ arrives.drop (k + 1) := by
          rw [List.set_append, hlen, if_neg (Nat.lt_irrefl k), Nat.sub_self, List.drop_eq_getElem_cons hk, List.set_cons_zero,
            List.append_assoc, List.singleton_append]
        have hround : decryptRound cipher size { outs := outs ++ arrives.drop k, pcount := k, ecO := ecO, bBreak := false } k =
            .ok { outs := outs ++ [p] ++ arrives.drop (k + 1), pcount := k + 1, ecO := ecO, bBreak := false } := by
          unfold decryptRound
          rw [if_neg Bool.false_ne_true]
          dsimp only
          rw [hget]
          dsimp only
          rw [hp, ok_bind]
          dsimp only
          rw [if_neg (not_not_intro rfl), require_eq (by omega), ok_bind, pure_eq_ok, hset]
        rw [List.range_succ, List.foldlM_append, hrun, ok_bind, List.foldlM_cons, hround, ok_bind, List.foldlM_nil, pure_eq_ok]
      · rw [List.take_succ_eq_append_getElem hcs]
        exact List.rel_append houts (.cons hdec .nil)
  obtain ⟨outs, hrun, hlen, houts⟩ := hloop arrives.length (Nat.le_refl _)
  have hcs : cs.length = arrives.length := by rw [harr.length_eq, List.length_map]
  rw [List.drop_length, List.append_nil] at hrun
  rw [← hcs, List.take_length] at houts
  exact ⟨outs, hrun, hlen, houts⟩

theorem decodes {capacity : Nat} :
    Link.Decodes (cipherBytes cipher.mKey) capacity (Sent cipher.mKey capacity) (decodePackets (some cipher)) := by
  intro tlp buffer q more rest size hq hcap hrest hp
  have hfit : ∀ c ∈ rest.map (cipherBytes cipher.mKey), HlenPacket.Fits q.capacity c := by
    intro c hc
    obtain ⟨c', hc', rfl⟩ := List.mem_map.mp hc
    rw [hcap]
    exact (hrest c' hc').fits
  obtain ⟨r, done, rest', q', hr, hd, hend, hsize, -⟩ := HlenPacket.decodePackets_spec size hq hp hfit
  obtain ⟨cs, cs', rfl, rfl, rfl⟩ := List.map_eq_append_iff.mp hd.split
  obtain ⟨outs, hrun, hlen, houts⟩ :=
    decrypt_arrives r.ecO hd.arrives (fun c hc => hrest c (List.mem_append_left _ hc)) hsize
  refine ⟨{ r with arrives := outs, ecO := r.ecO }, cs, cs', q', ?_, rfl, houts, hd.refines, hd.capacity_eq.trans hcap, hd.parses, ?_⟩
  · have htake : outs.take r.arrives.length = outs := by rw [← hlen, List.take_length]
    unfold decodePackets
    dsimp only
    rw [hr, ok_bind, hrun, ok_bind, pure_eq_ok, htake]
  · rw [hlen]
    exact hend

/-- What `encode` makes of a packet it accepts. -/
theorem encode_holds {p f : Packet} {c : List Byte} (h : p.Holds c) (hf : encode (some cipher) p = .ok (ok, some f)) :
    f.Holds (HlenPacket.frame (cipherBytes cipher.mKey c)) ∧ (cipherBytes cipher.mKey c).length ≤ packMaxRightCapacity := by
  unfold encode at hf
  dsimp only at hf
  obtain ⟨⟨rt, encrypted⟩, henc, hf⟩ := bind_eq_ok.mp hf
  obtain ⟨rfl, henc, hright⟩ := Xxtea.encrypt_holds h henc
  dsimp only at hf
  rw [if_neg (not_not_intro rfl)] at hf
  exact ⟨(HlenPacket.encode_holds henc hf).2, hright⟩

/-- The frames that `encode` makes of the packets it accepts. -/
theorem encode_frames {packets frames : List Packet} (hmade : ∀ p ∈ packets, p.Made)
    (hencode : List.Forall₂ (fun p f => encode (some cipher) p = .ok (ok, some f)) packets frames) :
    frames.flatMap Packet.bytes = ((packets.map Packet.bytes).map (cipherBytes cipher.mKey)).flatMap HlenPacket.frame ∧
      ∀ p ∈ packets, (cipherBytes cipher.mKey p.bytes).length ≤ packMaxRightCapacity := by
  induction hencode with
  | nil => exact ⟨rfl, nofun⟩
  | @cons p f packets frames hf _ ih =>
    obtain ⟨hstream, hright⟩ := ih fun p hp => hmade p (List.mem_cons_of_mem _ hp)
    obtain ⟨hframe, hp⟩ := encode_holds (hmade p (by simp)).holds hf
    refine ⟨?_, ?_⟩
    · rw [List.flatMap_cons, List.map_cons, List.map_cons, List.flatMap_cons, hframe.bytes_eq, hstream]
    · rintro p' hp'
      rcases List.mem_cons.mp hp' with rfl | hp'
      · exact hp
      · exact hright p' hp'

/-- A packet that takes the ciphertext has it framed. -/
theorem encode_eq (cipher : Xxtea) {p : Packet} {c : List Byte} (h : p.Holds c) (hc : (cipherBytes cipher.mKey c).length ≤ packMaxRightCapacity) :
    ∃ f, encode (some cipher) p = .ok (ok, some f) ∧ f.Holds (HlenPacket.frame (cipherBytes cipher.mKey c)) := by
  obtain ⟨p', henc, hheld, hs⟩ := Xxtea.encrypt_eq cipher h hc
  have hne : cipherBytes cipher.mKey c ≠ [] := by
    refine List.ne_nil_of_length_pos ?_
    rw [length_cipherBytes]
    omega
  obtain ⟨f, hf, hframe, -⟩ := HlenPacket.encode_eq hheld hne (l := 124) hs
  refine ⟨f, ?_, hframe⟩
  unfold encode
  dsimp only
  rw [henc, ok_bind]
  dsimp only
  rw [if_neg (not_not_intro rfl), hf]

/-- A length over the capacity of the buffer ends the call. -/
theorem decodePackets_oversize {tlp : HlenPacket} {buffer : RingBuffer} {q : BoundedQueue Byte} {n : Nat} (size : Nat) (hq : buffer.Refines q)
    (hst : tlp.mParseState = .readLen) (hitems : q.items = writeImpl 4 n) (hn : n < 2 ^ (8 * 4)) (hsize : q.capacity < n) :
    ∃ r, decodePackets (some cipher) tlp buffer size = .ok r ∧ r.ecO = eTlpSocketBroken ∧ r.arrives = [] := by
  obtain ⟨r, hr, hec, harr, -⟩ := HlenPacket.decodePackets_oversize size hq hst
    (by rw [BoundedQueue.count, hitems, length_writeImpl])
    (by rwa [BoundedQueue.front, hitems, readImpl_take, readImpl_writeImpl hn])
  refine ⟨{ r with arrives := [] }, ?_, hec, rfl⟩
  unfold decodePackets
  dsimp only
  rw [hr, ok_bind, harr]
  rfl

/-- A packet whose ciphertext is over the capacity of the buffer breaks the connection. -/
theorem decode_oversize {f : Packet} {c : List Byte} {capacity : Nat} (hmin : minRingBufferSize ≤ capacity) (hmax : capacity ≤ maxRingBufferSize)
    (hf : f.Holds (HlenPacket.frame (cipherBytes cipher.mKey c))) (hright : (cipherBytes cipher.mKey c).length ≤ packMaxRightCapacity)
    (hsize : capacity < (cipherBytes cipher.mKey c).length) (mSize size : Nat) :
    ∃ buffer s, RingBuffer.new capacity = .ok buffer ∧
      exec (Link.step (decodePackets (some cipher))) [.write 4] (.start f.bytes buffer (.new mSize)) = .ok s ∧
      ∃ r, decodePackets (some cipher) s.tlp s.buffer size = .ok r ∧ r.ecO = eTlpSocketBroken ∧ r.arrives = [] := by
  obtain ⟨buffer, hnew, hq⟩ := RingBuffer.new_refines hmin hmax
  obtain ⟨buffer', q', hwrite, hq', hcap', hitems⟩ := hq.write_len (BoundedQueue.items_empty capacity) (cipherBytes cipher.mKey c).length
  have hchunk : f.bytes.take 4 = writeImpl 4 (cipherBytes cipher.mKey c).length := by
    rw [hf.bytes_eq]
    exact List.take_left' (length_writeImpl 4 _)
  have hne : f.bytes.take 4 ≠ [] := by
    rw [hchunk]
    exact List.ne_nil_of_length_pos (by rw [length_writeImpl]; decide)
  have hstep : Link.step (decodePackets (some cipher)) (.write 4) (.start f.bytes buffer (.new mSize)) =
      .ok ⟨f.bytes.drop 4, buffer', .new mSize, []⟩ := by
    unfold Link.step Link.start
    dsimp only
    rw [if_neg hne, hchunk, hwrite, ok_bind, pure_eq_ok]
  refine ⟨buffer, ⟨f.bytes.drop 4, buffer', .new mSize, []⟩, hnew, ?_, ?_⟩
  · rw [exec_cons hstep, exec]
  · exact decodePackets_oversize size hq' rfl hitems (Nat.lt_of_le_of_lt hright (by decide)) (by rwa [hcap'])

end SymmetricEncrypt

open SymmetricEncrypt in
/-- Between machines of any byte orders whose ciphers have the same key: however the frames are cut into
chunks and whatever calls are made in between, no call fails, the packets returned are a front part of
those sent, in order, and all of them once the stream is written and no complete frame is left. The next
call ends with `OK` or, where the array is full and a complete frame left, `E_TLP_TRY_AGAIN`. -/
theorem symmetric_roundTrip (sender receiver : Xxtea) (hkey : sender.mKey = receiver.mKey) {capacity : Nat}
    (hmin : minRingBufferSize ≤ capacity) (hmax : capacity ≤ maxRingBufferSize) {packets frames : List Packet}
    (hmade : ∀ p ∈ packets, p.Made)
    (hencode : List.Forall₂ (fun p f => encode (some sender) p = .ok (ok, some f)) packets frames)
    (hsize : ∀ p ∈ packets, p.bytes ≠ [] ∧ 4 * ((p.bytes.length + 3) / 4 + 1) ≤ capacity) (mSize : Nat) (es : List LinkEvent) :
    ∃ buffer s, RingBuffer.new capacity = .ok buffer ∧
      exec (Link.step (decodePackets (some receiver))) es (.start (frames.flatMap Packet.bytes) buffer (.new mSize)) = .ok s ∧
      s.payloads <+: packets.map Packet.bytes ∧
      (s.toWrite = [] → ¬ s.tlp.CompleteFrame s.buffer.bytes → s.payloads = packets.map Packet.bytes) ∧
      ∀ size, ∃ r, decodePackets (some receiver) s.tlp s.buffer size = .ok r ∧ (r.ecO = ok ∨ r.ecO = eTlpTryAgain) ∧
        (r.ecO = ok → ¬ r.tlp.CompleteFrame r.buffer.bytes ∧ 0 < r.buffer.leftCapacity) ∧
        (r.ecO = eTlpTryAgain ↔ r.tlp.CompleteFrame r.buffer.bytes ∧ r.arrives.length = size) := by
  obtain ⟨buffer, hnew, hq⟩ := RingBuffer.new_refines hmin hmax
  obtain ⟨hstream, hright⟩ := encode_frames hmade hencode
  rw [hkey] at hstream hright
  have hsent : ∀ c ∈ packets.map Packet.bytes, Sent receiver.mKey capacity c := by
    intro c hc
    obtain ⟨p, hp, rfl⟩ := List.mem_map.mp hc
    refine ⟨(hsize p hp).1, ?_, ?_, hright p hp⟩
    · refine List.ne_nil_of_length_pos ?_
      rw [length_cipherBytes]
      omega
    · rw [length_cipherBytes]
      exact (hsize p hp).2
  have hstart := Link.Flows.start (cipherBytes receiver.mKey) (packets.map Packet.bytes) hq mSize
  rw [← hstream] at hstart
  obtain ⟨s, rest, q, hexec, h⟩ := hstart.exec decodes hsent es
  exact ⟨buffer, s, hnew, hexec, h.state decodes (fun _ hc => hc.fits) hsent hmin hmax⟩

/-- A little-endian sender, a big-endian receiver and a frame cut inside its length. -/
theorem symmetric_roundTrip_oneFrame :
    ∃ p f buffer s, Packet.Made p ∧ SymmetricEncrypt.encode (some ⟨true, List.replicate 16 7, rfl⟩) p = .ok (ok, some f) ∧
      RingBuffer.new 2048 = .ok buffer ∧
      exec (Link.step (SymmetricEncrypt.decodePackets (some ⟨false, List.replicate 16 7, rfl⟩))) [.write 3, .decode 1, .write 9, .decode 2]
        (.start ([f].flatMap Packet.bytes) buffer (.new 0)) = .ok s ∧
      s.payloads <+: [p].map Packet.bytes := by
  obtain ⟨p₁, p, hnew, hwrite, h, -⟩ := Xxtea.new_write (c := [1, 2, 3]) (by decide)
  have hmade : p.Made := ⟨_, _, p₁, [.write [1, 2, 3] 3], [.done], hnew, outputs_cons.mpr ⟨_, p, _, map_eq_ok.mpr ⟨p, hwrite, rfl⟩, rfl, rfl⟩⟩
  obtain ⟨f, hf, -⟩ := SymmetricEncrypt.encode_eq ⟨true, List.replicate 16 7, rfl⟩ h (by rw [length_cipherBytes]; decide)
  obtain ⟨buffer, s, hb, hs, hpre, -⟩ := symmetric_roundTrip ⟨true, List.replicate 16 7, rfl⟩ ⟨false, List.replicate 16 7, rfl⟩ rfl
    (by decide : minRingBufferSize ≤ 2048) (by decide) (by simpa using hmade) (.cons hf .nil)
    (by simp only [List.mem_singleton, forall_eq, h.bytes_eq]; decide) 0 [.write 3, .decode 1, .write 9, .decode 2]
  exact ⟨p, f, buffer, s, hmade, hf, hb, hs, hpre⟩

/-- Two packets that `encode` accepts and that do not arrive. The one block of an empty packet is a word
that is its own neighbour, and is not decrypted: an assertion fails. The ciphertext of a packet of 3000
bytes is over the capacity of a buffer of 2048. -/
theorem symmetric_packets_lost :
    (∃ cipher : Xxtea, cipher.mKey = List.replicate 16 0 ∧ ∃ p f buffer, Packet.Made p ∧ p.bytes = [] ∧
      SymmetricEncrypt.encode (some cipher) p = .ok (ok, some f) ∧ RingBuffer.new 2048 = .ok buffer ∧
      exec (Link.step (SymmetricEncrypt.decodePackets (some cipher))) [.write 8, .decode 1] (.start f.bytes buffer (.new 0)) =
        .error .xxteaEc) ∧
    ∀ cipher : Xxtea, ∃ p f buffer s, Packet.Made p ∧ p.bytes = List.replicate 3000 0 ∧
      SymmetricEncrypt.encode (some cipher) p = .ok (ok, some f) ∧ RingBuffer.new 2048 = .ok buffer ∧
      exec (Link.step (SymmetricEncrypt.decodePackets (some cipher))) [.write 4] (.start f.bytes buffer (.new 0)) = .ok s ∧
      ∃ r, SymmetricEncrypt.decodePackets (some cipher) s.tlp s.buffer 1 = .ok r ∧ r.ecO = eTlpSocketBroken := by
  refine ⟨⟨⟨true, List.replicate 16 0, rfl⟩, rfl, ?_⟩, fun cipher => ?_⟩
  · obtain ⟨p, hnew⟩ : ∃ p, Packet.new 0 0 = .ok p := ⟨_, Packet.new_eq_ok.mpr ⟨by decide, by decide, rfl⟩⟩
    have h := Packet.new_holds hnew
    obtain ⟨f, hf, hframe⟩ := SymmetricEncrypt.encode_eq ⟨true, List.replicate 16 0, rfl⟩ h (by rw [length_cipherBytes]; decide)
    obtain ⟨buffer, hb, -⟩ := RingBuffer.new_refines (by decide : minRingBufferSize ≤ 2048) (by decide)
    have hrun : (RingBuffer.new 2048 >>= fun buffer =>
        exec (Link.step (SymmetricEncrypt.decodePackets (some ⟨true, List.replicate 16 0, rfl⟩))) [.write 8, .decode 1]
          (.start (HlenPacket.frame (cipherBytes (List.replicate 16 0) [])) buffer (.new 0))) = .error .xxteaEc := by decide +kernel
    rw [hb, ok_bind, ← hframe.bytes_eq] at hrun
    exact ⟨p, f, buffer, ⟨0, 0, p, [], [], hnew, rfl⟩, h.bytes_eq, hf, hb, hrun⟩
  · obtain ⟨p₁, p, hnew, hwrite, h, -⟩ := Xxtea.new_write (c := List.replicate 3000 0) (by rw [List.length_replicate]; decide)
    have hmade : p.Made := ⟨_, _, p₁, [.write (List.replicate 3000 0) _], [.done], hnew,
      outputs_cons.mpr ⟨_, p, _, map_eq_ok.mpr ⟨p, hwrite, rfl⟩, rfl, rfl⟩⟩
    have hlength : (cipherBytes cipher.mKey (List.replicate 3000 0)).length = 3004 := by rw [length_cipherBytes, List.length_replicate]
    have hright : (cipherBytes cipher.mKey (List.replicate 3000 0)).length ≤ packMaxRightCapacity := by
      rw [hlength]
      decide
    obtain ⟨f, hf, hframe⟩ := SymmetricEncrypt.encode_eq cipher h hright
    obtain ⟨buffer, s, hb, hs, r, hr, hec, -⟩ :=
      SymmetricEncrypt.decode_oversize (by decide : minRingBufferSize ≤ 2048) (by decide) hframe hright (by rw [hlength]; decide) 0 1
    exact ⟨p, f, buffer, s, hmade, h.bytes_eq, hf, hb, hs, r, hr, hec⟩

end Wawo
