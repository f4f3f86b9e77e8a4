import Mathlib.Logic.Function.Basic
import Wawo.Tlp.DhSymmetricEncrypt

/-!
# Two sides of a handshake

A client and a server over two streams. The bytes of each are written to the ring buffer of the side
they go to in chunks of any sizes; both sides call `decode_packets`, and `encode` packets of their own,
at any time, and what they make goes at the end of the other's stream. `Phase` is how far the handshake
has got: whose frame is on its way, and which keys are set. What is still to be decoded on each side is
a list of payloads (`Flow`): those of the handshake, then the ciphertexts of packets sent.
-/

namespace Wawo

open Lts

inductive Who
  | client
  | server
deriving DecidableEq

def Who.other : Who → Who
  | .client => .server
  | .server => .client

@[simp] theorem Who.other_other (i : Who) : i.other.other = i := by cases i <;> rfl

@[simp] theorem Who.other_ne (i : Who) : i.other ≠ i := by cases i <;> nofun

@[simp] theorem Who.ne_other (i : Who) : i ≠ i.other := by cases i <;> nofun

/-- One side: the protocol and its ring buffer, with every packet `decode_packets` has returned, every
`ec_o`, and every packet `encode` has returned `OK` for. -/
structure DhSide where
  dh : Dh
  buffer : RingBuffer
  arrived : List Packet
  codes : List Int
  sent : List Packet

/-- The two sides; `stream i` is the bytes on their way to `i` that its buffer has not taken. -/
structure DhPair where
  side : Who → DhSide
  stream : Who → List Byte

inductive DhEvent
  | deliver (i : Who) (n : Nat) -- the next `n` bytes on their way to `i`, or what is left of them
  | decode (i : Who) (rand : Randoms) (size : Nat)
  | send (i : Who) (p : Packet)

namespace DhPair

def setSide (s : DhPair) (i : Who) (side : DhSide) : DhPair := { s with side := Function.update s.side i side }

def setStream (s : DhPair) (i : Who) (bytes : List Byte) : DhPair := { s with stream := Function.update s.stream i bytes }

/-- The client has made its hello, which is on its way. -/
def start (capacity : Who → Nat) (littleEndian : Who → Bool) (mSize : Who → Nat) (rand : Randoms) : Except ByteFault DhPair := do
  let bufferC ← RingBuffer.new (capacity .client)
  let bufferS ← RingBuffer.new (capacity .server)
  let (_, hello, dh) ← (Dh.new (littleEndian .client) (mSize .client)).handshakeMakeHelloPacket rand
  return {
    side := fun
      | .client => ⟨dh, bufferC, [], [], []⟩
      | .server => ⟨Dh.new (littleEndian .server) (mSize .server), bufferS, [], [], []⟩
    stream := fun
      | .client => []
      | .server => (hello.map Packet.bytes).getD [] }

/-- A call of `decode_packets` on side `i` has given `r`; what it makes goes to the other side. -/
def decoded (s : DhPair) (i : Who) (r : Dh.Result) : DhPair :=
  (s.setSide i { s.side i with
    dh := r.dh, buffer := r.buffer, arrived := (s.side i).arrived ++ r.arrives
    codes := (s.side i).codes ++ [r.ecO] }).setStream i.other (s.stream i.other ++ (r.out.map Packet.bytes).getD [])

def step (e : DhEvent) (s : DhPair) : Except ByteFault DhPair :=
  match e with
  | .deliver i n =>
    let chunk := (s.stream i).take n
    if chunk = [] then .ok s
    else do
      let (written, buffer) ← (s.side i).buffer.write chunk chunk.length
      return (s.setSide i { s.side i with buffer := buffer }).setStream i ((s.stream i).drop written)
  | .decode i rand size => do
    return s.decoded i (← (s.side i).dh.decodePackets rand (s.side i).buffer size ok)
  | .send i p =>
    match (s.side i).dh.encode p with
    | .ok (rt, some f) =>
      if rt = ok then
        .ok ((s.setSide i { s.side i with sent := (s.side i).sent ++ [p] }).setStream i.other (s.stream i.other ++ f.bytes))
      else .ok s
    -- nothing is sent where `encode` returns an error or throws
    | _ => .ok s

/-- What is to be decoded by `i`: `hs` of the handshake, then the ciphertexts of `rest`, the packets the
other side has sent and that have not arrived. -/
structure Flow (capacity : Who → Nat) (s : DhPair) (i : Who) (key : List Byte) (hs rest : List (List Byte)) (q : BoundedQueue Byte) :
    Prop where
  refines : (s.side i).buffer.Refines q
  capacity_eq : q.capacity = capacity i
  parses : (s.side i).dh.tlp.Parses (q.items ++ s.stream i) (hs ++ rest.map (cipherBytes key))
  arrived : ∃ done, (s.side i.other).sent.map Packet.bytes = done ++ rest ∧ List.Forall₂ Packet.Holds (s.side i).arrived done
  fits : ∀ c ∈ hs, HlenPacket.Fits (capacity i) c
  sent : ∀ c ∈ rest, SymmetricEncrypt.Sent key (capacity i) c

/-- How far the handshake has got. -/
inductive Phase (capacity : Who → Nat) (s : DhPair) : Prop
  | hailed (x : Nat) (obf : Word) (q q' : BoundedQueue Byte) (hclient : (s.side .client).dh.Hailing x)
    (hserver : (s.side .server).dh.mDhstate = .idle ∧ (s.side .server).dh.mCipher = none ∧
      (s.side .server).dh.mContext.dhfactor = ⟨0, 0⟩)
    (htoServer : Flow capacity s .server [] [helloBytes obf (dhG ^ reduced x % dhQ)] [] q) (htoClient : Flow capacity s .client [] [] [] q')
    (hsent : ∀ i, (s.side i).sent = [])
  | answered (x y : Nat) (obf obf' : Word) (q q' : BoundedQueue Byte) (hclient : (s.side .client).dh.Hailing x)
    (hserver : (s.side .server).dh.mDhstate = .handshake ∧ (s.side .server).dh.Keyed (sharedKey x y))
    (htoServer : Flow capacity s .server (sharedKey x y) [] [] q)
    (htoClient : Flow capacity s .client (sharedKey x y)
      [respBytes obf (dhG ^ reduced y % dhQ), okBytes (sharedKey x y) obf'] [] q')
    (hsent : ∀ i, (s.side i).sent = [])
  | agreed (key : List Byte) (hkeyed : ∀ i, (s.side i).dh.Keyed key)
    (hflow : ∀ i, ((s.side i).dh.mDhstate = .handshake ∧ ∃ obf rest q, Flow capacity s i key [okBytes key obf] rest q) ∨
      ((s.side i).dh.mDhstate = .dataTransfer ∧ ∃ rest q, Flow capacity s i key [] rest q))

/-! ### Calls during the handshake -/

theorem decodePackets_none {rand : Randoms} {d : Dh} (hd : d.mDhstate = .idle ∨ d.mDhstate = .handshake) {buffer : RingBuffer}
    {r : TlpResult} (hr : d.tlp.decodePackets buffer 1 = .ok r) (harrives : r.arrives = []) (size : Nat) (ecO : Int) :
    d.decodePackets rand buffer size ecO = .ok ⟨{ d with tlp := r.tlp }, r.buffer, [], r.ecO, none⟩ := by
  unfold Dh.decodePackets
  rcases hd with hd | hd
  all_goals
    rw [hd]
    dsimp only
    rw [hr, ok_bind, harrives]
    rfl

theorem decodePackets_one {rand : Randoms} {d d' : Dh} (hd : d.mDhstate = .idle ∨ d.mDhstate = .handshake) {buffer : RingBuffer}
    {r : TlpResult} (hr : d.tlp.decodePackets buffer 1 = .ok r) {inp : Packet} (harrives : r.arrives = [inp]) {ec : Int}
    {out : Option Packet} (harrive : Dh.handshakePacketArrive rand { d with tlp := r.tlp } inp = .ok (ec, out, d')) (size : Nat)
    (ecO : Int) : d.decodePackets rand buffer size ecO = .ok ⟨d', r.buffer, [], ec, out⟩ := by
  unfold Dh.decodePackets
  rcases hd with hd | hd
  all_goals
    rw [hd] at harrive ⊢
    dsimp only
    rw [hr, ok_bind, harrives]
    dsimp only
    rw [harrive]
    rfl

/-- Before it transfers data, a side takes at most one frame of the handshake in a call; it takes the next
one if all bytes have been written to its buffer. -/
theorem decode_handshake (rand : Randoms) {d : Dh} (hd : d.mDhstate = .idle ∨ d.mDhstate = .handshake) {buffer : RingBuffer}
    {q : BoundedQueue Byte} {more : List Byte} {cs : List (List Byte)} (hq : buffer.Refines q) (hp : d.tlp.Parses (q.items ++ more) cs)
    (hfit : ∀ c ∈ cs, HlenPacket.Fits q.capacity c) (size : Nat) (ecO : Int) :
    ∃ buffer' q' tlp', buffer'.Refines q' ∧ q'.capacity = q.capacity ∧
      ((d.decodePackets rand buffer size ecO = .ok ⟨{ d with tlp := tlp' }, buffer', [], ok, none⟩ ∧ tlp'.Parses (q'.items ++ more) cs ∧
          (more = [] → cs = [])) ∨
        ∃ c cs' inp, cs = c :: cs' ∧ inp.Holds c ∧ tlp'.Parses (q'.items ++ more) cs' ∧
          ∀ ec out d', Dh.handshakePacketArrive rand { d with tlp := tlp' } inp = .ok (ec, out, d') →
            d.decodePackets rand buffer size ecO = .ok ⟨d', buffer', [], ec, out⟩) := by
  obtain ⟨r, done, rest, q', hr, ⟨hq', hcap, rfl, hp', harr⟩, hend, hsize, -⟩ := HlenPacket.decodePackets_spec 1 hq hp hfit
  refine ⟨r.buffer, q', r.tlp, hq', hcap, ?_⟩
  obtain ⟨arrives, harrives⟩ : ∃ arrives, arrives = r.arrives := ⟨_, rfl⟩
  rw [← harrives] at harr hend hsize
  cases harr with
  | nil =>
    refine .inl ⟨?_, hp', fun hmore => ?_⟩
    · have hec : r.ecO = ok := by
        rcases hend with ⟨hec, -⟩ | ⟨-, -, hfull⟩
        · exact hec
        · cases hfull
      rw [← hec]
      exact decodePackets_none hd hr harrives.symm size ecO
    · cases rest with
      | nil => rfl
      | cons c rest =>
        have hlt : c.length < 2 ^ (8 * 4) := by
          have h₁ := (hfit c (by simp)).le_right
          unfold packMaxRightCapacity at h₁
          omega
        rw [hmore, List.append_nil] at hp'
        rcases hend with ⟨-, hstarved⟩ | ⟨-, -, hfull⟩
        · exact absurd (HlenPacket.Parses.complete hp' hlt) hstarved.not_complete
        · cases hfull
  | @cons inp c arrives done hinp harr =>
    obtain rfl : arrives = [] := List.eq_nil_of_length_eq_zero (Nat.le_zero.mp (Nat.le_of_succ_le_succ hsize))
    cases harr
    refine .inr ⟨c, rest, inp, rfl, hinp, hp', fun ec out d' harrive => ?_⟩
    exact decodePackets_one hd hr harrives.symm harrive size ecO

/-- The codes that are no errors. -/
def Fine (ec : Int) : Prop := ec = ok ∨ ec = eTlpTryAgain ∨ ec = eTlpHandshaking ∨ ec = eTlpHandshakeDone

/-- The moves of the handshake: a side that begins to transfer data has its cipher already. -/
def Moves (d d' : Dh) : Prop :=
  d'.mDhstate = d.mDhstate ∨ d.mDhstate = .idle ∧ d'.mDhstate = .handshake ∨
    d.mDhstate = .handshake ∧ d'.mDhstate = .dataTransfer ∧ d.mCipher.isSome = true

section

variable {capacity : Who → Nat} {s s' : DhPair} {i j : Who} {key key' : List Byte} {hs rest : List (List Byte)} {q : BoundedQueue Byte}

@[simp] theorem setSide_side_self (side : DhSide) : (s.setSide i side).side i = side := Function.update_self ..

@[simp] theorem setSide_side_other (side : DhSide) : (s.setSide i side).side i.other = s.side i.other :=
  Function.update_of_ne (Who.other_ne i) ..

@[simp] theorem setSide_stream (side : DhSide) : (s.setSide i side).stream = s.stream := rfl

@[simp] theorem setStream_side (bytes : List Byte) : (s.setStream i bytes).side = s.side := rfl

@[simp] theorem setStream_self (bytes : List Byte) : (s.setStream i bytes).stream i = bytes := Function.update_self ..

@[simp] theorem setStream_other (bytes : List Byte) : (s.setStream i bytes).stream i.other = s.stream i.other :=
  Function.update_of_ne (Who.other_ne i) ..

theorem eq_or_other (i j : Who) : j = i ∨ j = i.other := by cases i <;> cases j <;> decide

/-- Every side is `i` or the other one. -/
theorem forall_who {P : Who → Prop} (i : Who) (h : P i) (h' : P i.other) : ∀ j, P j := by
  intro j
  rcases eq_or_other i j with rfl | rfl
  · exact h
  · exact h'

/-- What is on the way to a side depends on its buffer, its parser, its stream, what has arrived and what
the other side has sent. -/
theorem Flow.congr (h : Flow capacity s i key hs rest q) (hbuffer : (s'.side i).buffer = (s.side i).buffer)
    (htlp : (s'.side i).dh.tlp = (s.side i).dh.tlp) (hstream : s'.stream i = s.stream i)
    (harrived : (s'.side i).arrived = (s.side i).arrived) (hsent : (s'.side i.other).sent = (s.side i.other).sent) :
    Flow capacity s' i key hs rest q := by
  refine ⟨by rw [hbuffer]; exact h.refines, h.capacity_eq, by rw [htlp, hstream]; exact h.parses, ?_, h.fits, h.sent⟩
  rw [hsent, harrived]
  exact h.arrived

/-- While nothing is on its way but frames of the handshake, the key does not matter. -/
theorem Flow.rekey (h : Flow capacity s i key hs [] q) : Flow capacity s i key' hs [] q :=
  ⟨h.refines, h.capacity_eq, h.parses, h.arrived, h.fits, nofun⟩

/-- All payloads on the way to a side fit its buffer. -/
theorem Flow.all_fit (h : Flow capacity s i key hs rest q) : ∀ c ∈ hs ++ rest.map (cipherBytes key), HlenPacket.Fits q.capacity c := by
  intro c hc
  rw [h.capacity_eq]
  rcases List.mem_append.mp hc with hc | hc
  · exact h.fits c hc
  · obtain ⟨c', hc', rfl⟩ := List.mem_map.mp hc
    exact (h.sent c' hc').fits

/-! ### Bytes delivered -/

/-- Bytes delivered to a side leave everything but its buffer and its stream, and what is on the way. -/
structure Delivered (i : Who) (s s' : DhPair) : Prop where
  dh_eq : ∀ j, (s'.side j).dh = (s.side j).dh
  arrived_eq : ∀ j, (s'.side j).arrived = (s.side j).arrived
  codes_eq : ∀ j, (s'.side j).codes = (s.side j).codes
  sent_eq : ∀ j, (s'.side j).sent = (s.side j).sent
  stream_eq : s'.stream i.other = s.stream i.other

theorem deliver_spec (n : Nat) (h : Flow capacity s i key hs rest q) :
    ∃ s', step (.deliver i n) s = .ok s' ∧ Delivered i s s' ∧
      (∀ {j key hs rest q}, Flow capacity s j key hs rest q → ∃ q', Flow capacity s' j key hs rest q') ∧
      (q.items.length + (s.stream i).length ≤ capacity i → (s.stream i).length ≤ n → s'.stream i = []) := by
  by_cases hn : (s.stream i).take n = []
  · refine ⟨s, if_pos hn, ⟨fun _ => rfl, fun _ => rfl, fun _ => rfl, fun _ => rfl, rfl⟩, fun h => ⟨_, h⟩, fun _ hle => ?_⟩
    rwa [List.take_of_length_le hle] at hn
  obtain ⟨written, buffer, q', hw, hq', hcap', hbytes, hall⟩ := h.refines.write_chunk hn
  refine ⟨(s.setSide i { s.side i with buffer := buffer }).setStream i ((s.stream i).drop written), ?_, ?_, ?_, ?_⟩
  · unfold step
    dsimp only
    rw [if_neg hn, hw, ok_bind, pure_eq_ok]
  · refine ⟨?_, ?_, ?_, ?_, by simp⟩ <;> refine forall_who i ?_ ?_ <;> simp
  · intro j key hs rest q₁ h₁
    rcases eq_or_other i j with rfl | rfl
    · obtain ⟨written₁, buffer₁, q₁', hw₁, hq₁', hcap₁, hbytes₁, -⟩ := h₁.refines.write_chunk hn
      obtain ⟨rfl, rfl⟩ := Prod.mk.inj (Except.ok.inj (hw.symm.trans hw₁))
      refine ⟨q₁', by simpa using hq₁', hcap₁.trans h₁.capacity_eq, ?_, by simpa using h₁.arrived, h₁.fits, h₁.sent⟩
      simp only [setStream_side, setSide_side_self, setStream_self, hbytes₁]
      exact h₁.parses
    · refine ⟨q₁, h₁.congr ?_ ?_ ?_ ?_ ?_⟩ <;> simp
  · rw [setStream_self]
    intro hroom hle
    exact hall (by rw [h.capacity_eq]; exact hroom) hle

/-! ### Calls -/

variable {r : Dh.Result}

@[simp] theorem decoded_side_self : (s.decoded i r).side i = { s.side i with
    dh := r.dh, buffer := r.buffer, arrived := (s.side i).arrived ++ r.arrives, codes := (s.side i).codes ++ [r.ecO] } := by
  unfold decoded
  rw [setStream_side, setSide_side_self]

@[simp] theorem decoded_side_other : (s.decoded i r).side i.other = s.side i.other := by
  unfold decoded
  rw [setStream_side, setSide_side_other]

@[simp] theorem decoded_stream_self : (s.decoded i r).stream i = s.stream i := by
  have h := setStream_other (s := s.setSide i { s.side i with
    dh := r.dh, buffer := r.buffer, arrived := (s.side i).arrived ++ r.arrives
    codes := (s.side i).codes ++ [r.ecO] }) (i := i.other) (s.stream i.other ++ (r.out.map Packet.bytes).getD [])
  rwa [Who.other_other] at h

@[simp] theorem decoded_stream_other :
    (s.decoded i r).stream i.other = s.stream i.other ++ (r.out.map Packet.bytes).getD [] := by
  unfold decoded
  rw [setStream_self]

theorem decoded_side_ne (hij : j ≠ i) : (s.decoded i r).side j = s.side j := by
  rcases eq_or_other i j with rfl | rfl
  · exact absurd rfl hij
  · exact decoded_side_other

theorem decoded_sent (j : Who) : ((s.decoded i r).side j).sent = (s.side j).sent := by
  rcases eq_or_other i j with rfl | rfl <;> simp

/-- What is on the way to the side that has made the call, once some frames of the handshake are taken. -/
theorem Flow.decoded_self {hs' : List (List Byte)} {q' : BoundedQueue Byte} (h : Flow capacity s i key hs' rest q) (hsub : hs <:+ hs')
    (harr : r.arrives = []) (hq : r.buffer.Refines q') (hcap : q'.capacity = q.capacity)
    (hp : r.dh.tlp.Parses (q'.items ++ s.stream i) (hs ++ rest.map (cipherBytes key))) :
    Flow capacity (s.decoded i r) i key hs rest q' := by
  refine ⟨by simpa using hq, hcap.trans h.capacity_eq, by simpa using hp, ?_, fun c hc => h.fits c (hsub.mem hc), h.sent⟩
  simpa [harr] using h.arrived

theorem Flow.decoded_other (h : Flow capacity s i.other key hs rest q) (hout : r.out = none) :
    Flow capacity (s.decoded i r) i.other key hs rest q := by
  refine h.congr (by simp) (by simp) ?_ (by simp) ?_
  · simp [hout]
  · rw [decoded_sent]

/-- The frames that the call makes go to the other side. -/
theorem Flow.decoded_out {out : Packet} {cs : List (List Byte)} (h : Flow capacity s i.other key hs [] q) (hout : r.out = some out)
    (hheld : out.Holds (cs.flatMap HlenPacket.frame)) (hfit : ∀ c ∈ cs, HlenPacket.Fits (capacity i.other) c) :
    Flow capacity (s.decoded i r) i.other key' (hs ++ cs) [] q := by
  refine ⟨by simpa using h.refines, h.capacity_eq, ?_, ?_, fun c hc => ?_, nofun⟩
  · have hp := h.parses.append cs
    rw [List.map_nil, List.append_nil, List.append_assoc] at hp
    rw [decoded_side_other, decoded_stream_other, hout, Option.map_some, Option.getD_some, hheld.bytes_eq, List.map_nil, List.append_nil]
    exact hp
  · rw [decoded_side_other, decoded_sent]
    exact h.arrived
  · rcases List.mem_append.mp hc with hc | hc
    · exact h.fits c hc
    · exact hfit c hc

/-- How far a side has got. -/
def rank (d : Dh) : Nat :=
  match d.mDhstate with
  | .idle => 0
  | .handshake => if d.mCipher.isSome then 2 else 1
  | _ => 3

def nextRank : Nat → Nat
  | 0 => 2
  | n + 1 => n + 2

/-- It is the turn of side `i` to take a frame of the handshake. -/
def Turn (s : DhPair) (i : Who) : Prop :=
  match i with
  | .server => rank (s.side .server).dh = 0 ∨ rank (s.side .server).dh = 2 ∧ 2 ≤ rank (s.side .client).dh
  | .client => rank (s.side .client).dh < 3 ∧ 2 ≤ rank (s.side .server).dh

/-- What a call does to a side. -/
structure Called (s : DhPair) (i : Who) (r : Dh.Result) : Prop where
  moves : Moves (s.side i).dh r.dh
  fine : Fine r.ecO
  advances : Turn s i → s.stream i = [] → rank r.dh = nextRank (rank (s.side i).dh)

theorem fits_small {c : List Byte} (hne : 0 < c.length) (hle : c.length ≤ minRingBufferSize) (hmin : minRingBufferSize ≤ capacity i) :
    HlenPacket.Fits (capacity i) c :=
  ⟨List.ne_nil_of_length_pos hne, hle.trans hmin, hle.trans (by decide)⟩

/-- A call of a side that does not transfer data yet: it waits, or it takes the next frame of the
handshake. -/
theorem decode_spec (rand : Randoms) (size : Nat) (h : Flow capacity s i key hs rest q)
    (hd : (s.side i).dh.mDhstate = .idle ∨ (s.side i).dh.mDhstate = .handshake) (hrest : hs = [] → rest = []) :
    (∃ tlp buffer q', (s.side i).dh.decodePackets rand (s.side i).buffer size ok = .ok ⟨{ (s.side i).dh with tlp := tlp }, buffer, [], ok, none⟩ ∧
        Flow capacity (s.decoded i ⟨{ (s.side i).dh with tlp := tlp }, buffer, [], ok, none⟩) i key hs rest q' ∧
        (s.stream i = [] → hs = [])) ∨
      ∃ c hs' inp tlp, hs = c :: hs' ∧ inp.Holds c ∧ ∀ ec out d',
        Dh.handshakePacketArrive rand { (s.side i).dh with tlp := tlp } inp = .ok (ec, out, d') → d'.tlp = tlp →
          ∃ buffer q', (s.side i).dh.decodePackets rand (s.side i).buffer size ok = .ok ⟨d', buffer, [], ec, out⟩ ∧
            Flow capacity (s.decoded i ⟨d', buffer, [], ec, out⟩) i key hs' rest q' := by
  obtain ⟨buffer, q', tlp, hq', hcap', ⟨hr, hp', hall⟩ | ⟨c, cs', inp, hcs, hinp, hp', hr⟩⟩ :=
    decode_handshake rand hd h.refines h.parses h.all_fit size ok
  · refine .inl ⟨tlp, buffer, q', hr, h.decoded_self List.suffix_rfl rfl hq' hcap' hp', fun hmore => ?_⟩
    exact (List.append_eq_nil_iff.mp (hall hmore)).1
  · cases hs with
    | nil =>
      rw [hrest rfl] at hcs
      cases hcs
    | cons c' hs' =>
      obtain ⟨rfl, rfl⟩ := List.cons.inj hcs
      refine .inr ⟨c', hs', inp, tlp, rfl, hinp, fun ec out d' harrive htlp => ⟨buffer, q', hr ec out d' harrive, ?_⟩⟩
      subst htlp
      exact h.decoded_self (List.suffix_cons c' hs') rfl hq' hcap' hp'

/-- A call that waits for bytes. -/
theorem called_waiting (tlp : HlenPacket) (buffer : RingBuffer) (hturn : Turn s i → s.stream i ≠ []) :
    Called s i ⟨{ (s.side i).dh with tlp := tlp }, buffer, [], ok, none⟩ :=
  ⟨.inl rfl, .inl rfl, fun h hs => absurd hs (hturn h)⟩

theorem rank_idle {d : Dh} (h : d.mDhstate = .idle) : rank d = 0 := by rw [rank, h]

theorem rank_transfer {d : Dh} (h : d.mDhstate = .dataTransfer) : rank d = 3 := by rw [rank, h]

theorem rank_hailing {d : Dh} {x : Nat} (h : d.Hailing x) : rank d = 1 := by
  simp only [rank, h.dhstate_eq, h.cipher_eq, Option.isSome_none, Bool.false_eq_true, if_false]

theorem rank_keyed {d : Dh} (h : d.mDhstate = .handshake) (hkey : d.Keyed key) : rank d = 2 := by
  obtain ⟨cipher, hcipher, -⟩ := hkey
  simp only [rank, h, hcipher, Option.isSome_some, if_true]

variable (hmin : ∀ i, minRingBufferSize ≤ capacity i)

include hmin in
/-- The server takes the hello. -/
theorem decode_hello (rand : Randoms) (size : Nat) {x : Nat} {obf : Word} {q' : BoundedQueue Byte}
    (hclient : (s.side .client).dh.Hailing x)
    (hserver : (s.side .server).dh.mDhstate = .idle ∧ (s.side .server).dh.mCipher = none ∧ (s.side .server).dh.mContext.dhfactor = ⟨0, 0⟩)
    (htoServer : Flow capacity s .server [] [helloBytes obf (dhG ^ reduced x % dhQ)] [] q) (htoClient : Flow capacity s .client [] [] [] q')
    (hsent : ∀ i, (s.side i).sent = []) :
    ∃ r, (s.side .server).dh.decodePackets rand (s.side .server).buffer size ok = .ok r ∧ Phase capacity (s.decoded .server r) ∧
      Called s .server r := by
  obtain ⟨hidle, hcipher, hfactor⟩ := hserver
  have hsent' (r : Dh.Result) (i : Who) : ((s.decoded .server r).side i).sent = [] := by rw [decoded_sent, hsent]
  have hclient' (r : Dh.Result) : ((s.decoded .server r).side .client).dh.Hailing x := by rwa [decoded_side_ne (by decide)]
  rcases decode_spec rand size htoServer (.inl hidle) nofun with ⟨tlp, buffer, q₁, hr, hflow, hall⟩ | ⟨c, hs', inp, tlp, hcs, hinp, hr⟩
  · refine ⟨_, hr, .hailed x obf q₁ q' (hclient' _) ?_ hflow (htoClient.decoded_other rfl) (hsent' _),
      called_waiting tlp buffer fun _ hs => nomatch hall hs⟩
    rw [decoded_side_self]
    exact ⟨hidle, hcipher, hfactor⟩
  · obtain ⟨rfl, rfl⟩ := List.cons.inj hcs
    obtain ⟨y, out, d', harrive, hout, hy, hstate, hkeyed, htlp⟩ :=
      Dh.arriveHello_eq rand (s := { (s.side .server).dh with tlp := tlp }) hidle hfactor hinp
    obtain ⟨buffer, q₁, hr, hflow⟩ := hr _ _ _ harrive htlp
    have hfits : ∀ c ∈ [respBytes rand.obf₁ (dhG ^ reduced y % dhQ), okBytes (sharedKey x y) rand.obf₂], HlenPacket.Fits (capacity .client) c := by
      intro c hc
      rcases List.mem_pair.mp hc with rfl | rfl
      all_goals
        refine fits_small ?_ ?_ (hmin _)
        all_goals
          simp only [respBytes, okBytes, typeBytes, List.length_append, length_writeImpl, length_cipherBytes]
          decide
    refine ⟨_, hr, .answered x y rand.obf₁ rand.obf₂ q₁ q' (hclient' _) ?_ hflow.rekey ?_ (hsent' _), .inr (.inl ⟨hidle, hstate⟩),
      .inr (.inr (.inl rfl)), fun _ _ => ?_⟩
    · rw [decoded_side_self]
      exact ⟨hstate, hkeyed⟩
    · refine htoClient.decoded_out (i := .server) rfl ?_ hfits
      rwa [List.flatMap_cons, List.flatMap_singleton]
    · rw [rank_idle hidle, rank_keyed hstate hkeyed]
      rfl

include hmin in
/-- The client takes the answer. -/
theorem decode_resp (rand : Randoms) (size : Nat) {x y : Nat} {obf obf' : Word} {q' : BoundedQueue Byte}
    (hclient : (s.side .client).dh.Hailing x)
    (hserver : (s.side .server).dh.mDhstate = .handshake ∧ (s.side .server).dh.Keyed (sharedKey x y))
    (htoServer : Flow capacity s .server (sharedKey x y) [] [] q)
    (htoClient : Flow capacity s .client (sharedKey x y) [respBytes obf (dhG ^ reduced y % dhQ), okBytes (sharedKey x y) obf'] [] q')
    (hsent : ∀ i, (s.side i).sent = []) :
    ∃ r, (s.side .client).dh.decodePackets rand (s.side .client).buffer size ok = .ok r ∧ Phase capacity (s.decoded .client r) ∧
      Called s .client r := by
  have hserver' (r : Dh.Result) : ((s.decoded .client r).side .server).dh = (s.side .server).dh := by rw [decoded_side_ne (by decide)]
  rcases decode_spec rand size htoClient (.inr hclient.dhstate_eq) nofun with ⟨tlp, buffer, q₁, hr, hflow, hall⟩ | ⟨c, hs', inp, tlp, hcs, hinp, hr⟩
  · refine ⟨_, hr, .answered x y obf obf' q q₁ ?_ (by rwa [hserver']) (htoServer.decoded_other rfl) hflow
      (fun i => by rw [decoded_sent, hsent]), called_waiting tlp buffer fun _ hs => nomatch hall hs⟩
    rw [decoded_side_self]
    exact ⟨hclient.cipher_eq, hclient.dhstate_eq, hclient.privKey_eq, hclient.privKey_ne_zero, hclient.privKey_lt⟩
  · obtain ⟨rfl, rfl⟩ := List.cons.inj hcs
    have hclient₁ : Dh.Hailing { (s.side .client).dh with tlp := tlp } x :=
      ⟨hclient.cipher_eq, hclient.dhstate_eq, hclient.privKey_eq, hclient.privKey_ne_zero, hclient.privKey_lt⟩
    obtain ⟨out, d', harrive, hout, hstate, hkeyed, htlp⟩ := Dh.arriveHelloResp_eq rand hclient₁ hinp
    obtain ⟨buffer, q₁, hr, hflow⟩ := hr _ _ _ harrive htlp
    have hfits : ∀ c ∈ [okBytes (sharedKey x y) rand.obf₁], HlenPacket.Fits (capacity .server) c := by
      intro c hc
      rw [List.mem_singleton.mp hc]
      refine fits_small ?_ ?_ (hmin _)
      all_goals
        simp only [okBytes, typeBytes, List.length_append, length_writeImpl, length_cipherBytes]
        decide
    refine ⟨_, hr, .agreed (sharedKey x y) ?_ ?_, .inl (hstate.trans hclient.dhstate_eq.symm), .inr (.inr (.inl rfl)), fun _ _ => ?_⟩
    · refine forall_who .client ?_ ?_
      · rw [decoded_side_self]
        exact hkeyed
      · rw [decoded_side_other]
        exact hserver.2
    · refine forall_who .client (.inl ⟨?_, obf', [], q₁, hflow⟩) (.inl ⟨?_, rand.obf₁, [], q, ?_⟩)
      · rw [decoded_side_self]
        exact hstate
      · rw [decoded_side_other]
        exact hserver.1
      · exact htoServer.decoded_out (i := .client) rfl (by rwa [List.flatMap_singleton]) hfits
    · rw [rank_hailing hclient, rank_keyed hstate hkeyed]
      rfl

/-- Once the keys are set: a side takes the other's message, or packets. -/
theorem decode_agreed (i : Who) (rand : Randoms) {size : Nat} (hsize : 0 < size) (hkeyed : ∀ i, (s.side i).dh.Keyed key)
    (hflow : ∀ i, ((s.side i).dh.mDhstate = .handshake ∧ ∃ obf rest q, Flow capacity s i key [okBytes key obf] rest q) ∨
      ((s.side i).dh.mDhstate = .dataTransfer ∧ ∃ rest q, Flow capacity s i key [] rest q)) :
    ∃ r, (s.side i).dh.decodePackets rand (s.side i).buffer size ok = .ok r ∧ Phase capacity (s.decoded i r) ∧ Called s i r := by
  -- the other side stays as it is, and nothing is made for it
  have hother (r : Dh.Result) (hout : r.out = none) :
      ((s.decoded i r).side i.other).dh.Keyed key ∧
      ((((s.decoded i r).side i.other).dh.mDhstate = .handshake ∧ ∃ obf rest q, Flow capacity (s.decoded i r) i.other key [okBytes key obf] rest q) ∨
      (((s.decoded i r).side i.other).dh.mDhstate = .dataTransfer ∧ ∃ rest q, Flow capacity (s.decoded i r) i.other key [] rest q)) := by
    rw [decoded_side_other]
    refine ⟨hkeyed _, ?_⟩
    rcases hflow i.other with ⟨hstate, obf, rest, q, hf⟩ | ⟨hstate, rest, q, hf⟩
    · exact .inl ⟨hstate, obf, rest, q, hf.decoded_other hout⟩
    · exact .inr ⟨hstate, rest, q, hf.decoded_other hout⟩
  rcases hflow i with ⟨hstate, obf, rest, q, hf⟩ | ⟨hstate, rest, q, hf⟩
  · rcases decode_spec rand size hf (.inr hstate) nofun with ⟨tlp, buffer, q₁, hr, hf', hall⟩ | ⟨c, hs', inp, tlp, hcs, hinp, hr⟩
    · refine ⟨_, hr, .agreed key ?_ ?_, called_waiting tlp buffer fun _ hs => nomatch hall hs⟩
      · refine forall_who i ?_ (hother _ rfl).1
        rw [decoded_side_self]
        exact hkeyed i
      · refine forall_who i (.inl ⟨?_, obf, rest, q₁, hf'⟩) (hother _ rfl).2
        rw [decoded_side_self]
        exact hstate
    · obtain ⟨rfl, rfl⟩ := List.cons.inj hcs
      obtain ⟨buffer, q₁, hr, hf'⟩ := hr _ _ _ (Dh.arriveHandshakeOk_eq rand hstate (hkeyed i) hinp) rfl
      have hsome : (s.side i).dh.mCipher.isSome = true := by
        obtain ⟨cipher, hcipher, -⟩ := hkeyed i
        rw [hcipher]
        rfl
      refine ⟨_, hr, .agreed key ?_ ?_, .inr (.inr ⟨hstate, rfl, hsome⟩), .inr (.inr (.inr rfl)), fun _ _ => ?_⟩
      · refine forall_who i ?_ (hother _ rfl).1
        rw [decoded_side_self]
        exact hkeyed i
      · refine forall_who i (.inr ⟨?_, rest, q₁, hf'⟩) (hother _ rfl).2
        rw [decoded_side_self]
      · rw [rank_keyed hstate (hkeyed i)]
        rfl
  · obtain ⟨cipher, hcipher, rfl⟩ := hkeyed i
    obtain ⟨r, done, rest', q', hr, rfl, harr, hq', hcap', hp', hend⟩ :=
      @SymmetricEncrypt.decodes cipher _ (s.side i).dh.tlp (s.side i).buffer q (s.stream i) rest size hf.refines hf.capacity_eq hf.sent
        (by simpa using hf.parses)
    have hdecode : (s.side i).dh.decodePackets rand (s.side i).buffer size ok =
        .ok ⟨{ (s.side i).dh with tlp := r.tlp }, r.buffer, r.arrives, r.ecO, none⟩ := by
      unfold Dh.decodePackets
      rw [hstate]
      dsimp only
      rw [require_eq hsize, ok_bind, hcipher, hr, ok_bind, pure_eq_ok, hstate]
    refine ⟨_, hdecode, .agreed cipher.mKey ?_ ?_, .inl rfl, ?_, fun hturn => ?_⟩
    · refine forall_who i ?_ (hother _ rfl).1
      rw [decoded_side_self]
      exact ⟨cipher, hcipher, rfl⟩
    · refine forall_who i (.inr ⟨?_, rest', q', ?_⟩) (hother _ rfl).2
      · rw [decoded_side_self]
        exact hstate
      · obtain ⟨done₀, hsent, harr₀⟩ := hf.arrived
        refine ⟨by simpa using hq', hcap', by simpa using hp', ⟨done₀ ++ done, ?_, ?_⟩, nofun, fun c hc => hf.sent c (List.mem_append_right _ hc)⟩
        · rw [decoded_sent, hsent, List.append_assoc]
        · rw [decoded_side_self]
          exact List.rel_append harr₀ harr
    · rcases hend with ⟨hec, -⟩ | ⟨hec, -⟩
      · exact .inl hec
      · exact .inr (.inl hec)
    · have hrank := rank_transfer hstate
      cases i <;> unfold Turn at hturn <;> omega

include hmin in
/-- A call of `decode_packets` at any time, on either side. -/
theorem Phase.decode (i : Who) (rand : Randoms) {size : Nat} (hsize : 0 < size) (h : Phase capacity s) :
    ∃ r, (s.side i).dh.decodePackets rand (s.side i).buffer size ok = .ok r ∧ Phase capacity (s.decoded i r) ∧ Called s i r := by
  cases h with
  | hailed x obf q q' hclient hserver htoServer htoClient hsent =>
    cases i with
    | client =>
      rcases decode_spec rand size htoClient (.inr hclient.dhstate_eq) (fun _ => rfl) with ⟨tlp, buffer, q₁, hr, hflow, -⟩ | ⟨c, hs', -, -, hcs, -⟩
      · have hrank := rank_idle hserver.1
        refine ⟨_, hr, .hailed x obf q q₁ ?_ ?_ (htoServer.decoded_other rfl) hflow (fun i => by rw [decoded_sent, hsent]),
          called_waiting tlp buffer fun hturn => ?_⟩
        · rw [decoded_side_self]
          exact ⟨hclient.cipher_eq, hclient.dhstate_eq, hclient.privKey_eq, hclient.privKey_ne_zero, hclient.privKey_lt⟩
        · rwa [decoded_side_ne (by decide)]
        · unfold Turn at hturn
          omega
      · cases hcs
    | server => exact decode_hello hmin rand size hclient hserver htoServer htoClient hsent
  | answered x y obf obf' q q' hclient hserver htoServer htoClient hsent =>
    cases i with
    | client => exact decode_resp hmin rand size hclient hserver htoServer htoClient hsent
    | server =>
      rcases decode_spec rand size htoServer (.inr hserver.1) (fun _ => rfl) with ⟨tlp, buffer, q₁, hr, hflow, -⟩ | ⟨c, hs', -, -, hcs, -⟩
      · have hrank := rank_hailing hclient
        have hrank' := rank_keyed hserver.1 hserver.2
        refine ⟨_, hr, .answered x y obf obf' q₁ q' ?_ ?_ hflow (htoClient.decoded_other rfl) (fun i => by rw [decoded_sent, hsent]),
          called_waiting tlp buffer fun hturn => ?_⟩
        · rwa [decoded_side_ne (by decide)]
        · rw [decoded_side_self]
          exact hserver
        · unfold Turn at hturn
          omega
      · cases hcs
  | agreed key hkeyed hflow => exact decode_agreed i rand hsize hkeyed hflow

/-! ### Bytes delivered and packets sent at any time -/

theorem Phase.flow (h : Phase capacity s) (i : Who) : ∃ key hs rest q, Flow capacity s i key hs rest q := by
  cases h with
  | hailed x obf q q' hclient hserver htoServer htoClient hsent =>
    cases i with
    | client => exact ⟨_, _, _, _, htoClient⟩
    | server => exact ⟨_, _, _, _, htoServer⟩
  | answered x y obf obf' q q' hclient hserver htoServer htoClient hsent =>
    cases i with
    | client => exact ⟨_, _, _, _, htoClient⟩
    | server => exact ⟨_, _, _, _, htoServer⟩
  | agreed key hkeyed hflow =>
    rcases hflow i with ⟨-, obf, rest, q, hf⟩ | ⟨-, rest, q, hf⟩
    · exact ⟨_, _, _, _, hf⟩
    · exact ⟨_, _, _, _, hf⟩

theorem Phase.deliver (i : Who) (n : Nat) (h : Phase capacity s) (hf : Flow capacity s i key hs rest q) :
    ∃ s', step (.deliver i n) s = .ok s' ∧ Delivered i s s' ∧ Phase capacity s' ∧
      (q.items.length + (s.stream i).length ≤ capacity i → (s.stream i).length ≤ n → s'.stream i = []) := by
  obtain ⟨s', hstep, hd, hflows, hall⟩ := deliver_spec n hf
  refine ⟨s', hstep, hd, ?_, hall⟩
  cases h with
  | hailed x obf q q' hclient hserver htoServer htoClient hsent =>
    obtain ⟨q₁, htoServer'⟩ := hflows htoServer
    obtain ⟨q₂, htoClient'⟩ := hflows htoClient
    refine .hailed x obf q₁ q₂ ?_ ?_ htoServer' htoClient' fun i => ?_
    · rwa [hd.dh_eq]
    · rwa [hd.dh_eq]
    · rw [hd.sent_eq, hsent]
  | answered x y obf obf' q q' hclient hserver htoServer htoClient hsent =>
    obtain ⟨q₁, htoServer'⟩ := hflows htoServer
    obtain ⟨q₂, htoClient'⟩ := hflows htoClient
    refine .answered x y obf obf' q₁ q₂ ?_ ?_ htoServer' htoClient' fun i => ?_
    · rwa [hd.dh_eq]
    · rwa [hd.dh_eq]
    · rw [hd.sent_eq, hsent]
  | agreed key hkeyed hflow =>
    refine .agreed key (fun j => ?_) fun j => ?_
    · rw [hd.dh_eq]
      exact hkeyed j
    · rw [hd.dh_eq]
      rcases hflow j with ⟨hstate, obf, rest, q, hf⟩ | ⟨hstate, rest, q, hf⟩
      · obtain ⟨q', hf'⟩ := hflows hf
        exact .inl ⟨hstate, obf, rest, q', hf'⟩
      · obtain ⟨q', hf'⟩ := hflows hf
        exact .inr ⟨hstate, rest, q', hf'⟩

/-- Nothing is sent before the keys are set. -/
theorem Phase.keyed (h : Phase capacity s) (hstate : (s.side i).dh.mDhstate = .dataTransfer) :
    ∃ key, (∀ i, (s.side i).dh.Keyed key) ∧
      ∀ i, ((s.side i).dh.mDhstate = .handshake ∧ ∃ obf rest q, Flow capacity s i key [okBytes key obf] rest q) ∨
        ((s.side i).dh.mDhstate = .dataTransfer ∧ ∃ rest q, Flow capacity s i key [] rest q) := by
  cases h with
  | hailed x obf q q' hclient hserver htoServer htoClient hsent =>
    cases i with
    | client => exact nomatch hclient.dhstate_eq.symm.trans hstate
    | server => exact nomatch hserver.1.symm.trans hstate
  | answered x y obf obf' q q' hclient hserver htoServer htoClient hsent =>
    cases i with
    | client => exact nomatch hclient.dhstate_eq.symm.trans hstate
    | server => exact nomatch hserver.1.symm.trans hstate
  | agreed key hkeyed hflow => exact ⟨key, hkeyed, hflow⟩

/-- A packet that can be sent to side `i`. -/
structure Sendable (capacity : Who → Nat) (i : Who) (p : Packet) : Prop where
  made : p.Made
  ne_nil : p.bytes ≠ []
  fits : 4 * ((p.bytes.length + 3) / 4 + 1) ≤ capacity i

theorem encode_transfers {p f : Packet} {d : Dh} (hf : d.encode p = .ok (ok, some f)) :
    d.mDhstate = .dataTransfer ∧ SymmetricEncrypt.encode d.mCipher p = .ok (ok, some f) := by
  unfold Dh.encode at hf
  split at hf
  case isTrue => cases hf
  case isFalse hstate => exact ⟨not_not.mp hstate, hf⟩

/-- The packets that a side sends go out as ciphertexts. -/
theorem encode_sendable {p f : Packet} {d : Dh} (hkey : d.Keyed key) (hp : Sendable capacity i p) (hf : d.encode p = .ok (ok, some f)) :
    f.Holds (HlenPacket.frame (cipherBytes key p.bytes)) ∧ SymmetricEncrypt.Sent key (capacity i) p.bytes := by
  obtain ⟨cipher, hcipher, rfl⟩ := hkey
  obtain ⟨-, hf⟩ := encode_transfers hf
  rw [hcipher] at hf
  obtain ⟨hframe, hright⟩ := SymmetricEncrypt.encode_holds hp.made.holds hf
  refine ⟨hframe, hp.ne_nil, ?_, ?_, hright⟩
  · refine List.ne_nil_of_length_pos ?_
    rw [length_cipherBytes]
    omega
  · rw [length_cipherBytes]
    exact hp.fits

/-- `encode` is called on side `i`: nothing is sent, or a frame goes to the other side. -/
theorem send_eq (i : Who) (p : Packet) (s : DhPair) :
    step (.send i p) s = .ok s ∨ ∃ f, (s.side i).dh.encode p = .ok (ok, some f) ∧ step (.send i p) s =
      .ok ((s.setSide i { s.side i with sent := (s.side i).sent ++ [p] }).setStream i.other (s.stream i.other ++ f.bytes)) := by
  unfold step
  dsimp only
  split
  case h_1 rt f hf =>
    by_cases hrt : rt = ok
    · rw [hrt] at hf
      exact .inr ⟨f, hf, if_pos hrt⟩
    · exact .inl (if_neg hrt)
  case h_2 => exact .inl rfl

theorem Phase.send {p : Packet} (hp : Sendable capacity i.other p) (h : Phase capacity s) :
    ∃ s', step (.send i p) s = .ok s' ∧ Phase capacity s' ∧ (∀ j, (s'.side j).dh = (s.side j).dh) ∧
      ∀ j, (s'.side j).codes = (s.side j).codes := by
  rcases send_eq i p s with hstep | ⟨f, hf, hstep⟩
  · exact ⟨s, hstep, h, fun _ => rfl, fun _ => rfl⟩
  · obtain ⟨key, hkeyed, hflow⟩ := h.keyed (encode_transfers hf).1
    obtain ⟨hframe, hsent⟩ := encode_sendable (hkeyed i) hp hf
    have hstream : ((s.setSide i { s.side i with sent := (s.side i).sent ++ [p] }).setStream i.other (s.stream i.other ++ f.bytes)).stream i =
        s.stream i := by
      have h := setStream_other (s := s.setSide i { s.side i with sent := (s.side i).sent ++ [p] }) (i := i.other) (s.stream i.other ++ f.bytes)
      rwa [Who.other_other] at h
    -- to the other side goes the ciphertext; what is on the way to this one stays
    have hother {hs rest q} (hf : Flow capacity s i.other key hs rest q) :
        Flow capacity ((s.setSide i { s.side i with sent := (s.side i).sent ++ [p] }).setStream i.other (s.stream i.other ++ f.bytes)) i.other
          key hs (rest ++ [p.bytes]) q := by
      obtain ⟨done, hdone, harr⟩ := hf.arrived
      refine ⟨by simpa using hf.refines, hf.capacity_eq, ?_, ⟨done, ?_, by simpa using harr⟩, hf.fits, ?_⟩
      · have hp := hf.parses.append [cipherBytes key p.bytes]
        rw [List.flatMap_singleton, ← hframe.bytes_eq] at hp
        simpa using hp
      · rw [Who.other_other] at hdone ⊢
        rw [setStream_side, setSide_side_self, List.map_append, hdone, List.append_assoc]
        rfl
      · intro c hc
        rcases List.mem_append.mp hc with hc | hc
        · exact hf.sent c hc
        · rwa [List.mem_singleton.mp hc]
    refine ⟨_, hstep, .agreed key ?_ ?_, ?_, ?_⟩
    · refine forall_who i ?_ ?_
      · simpa using hkeyed i
      · simpa using hkeyed i.other
    · refine forall_who i ?_ ?_
      · rcases hflow i with ⟨hstate, obf, rest, q, hf⟩ | ⟨hstate, rest, q, hf⟩
        · exact .inl ⟨by simpa using hstate, obf, rest, q, hf.congr (by simp) (by simp) hstream (by simp) (by simp)⟩
        · exact .inr ⟨by simpa using hstate, rest, q, hf.congr (by simp) (by simp) hstream (by simp) (by simp)⟩
      · rcases hflow i.other with ⟨hstate, obf, rest, q, hf⟩ | ⟨hstate, rest, q, hf⟩
        · exact .inl ⟨by simpa using hstate, obf, _, q, hother hf⟩
        · exact .inr ⟨by simpa using hstate, _, q, hother hf⟩
    · refine forall_who i ?_ ?_ <;> simp
    · refine forall_who i ?_ ?_ <;> simp

end

end DhPair

end Wawo
