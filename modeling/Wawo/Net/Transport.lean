import Wawo.Net.SendRuns
import Wawo.Net.ReceivePath

/-!
# Packets from one socket to another (`socket.cpp`)

A sender and a receiver with `hlen_packet` on both sides, joined by a connection that hands over the bytes
in the order in which the sender's kernel has taken them. `send_packet` encodes a packet and sends the frame;
the sender's other calls are those of its sending half. `handle_async_read` of the receiver is two events: what it
does under the lock of the receiving half, and the `trigger` of the packets, so that calls of several threads may
overlap. `got` is every byte that the receiver has read.

What the kernel has taken and what is left in `m_sb` are the frames of the accepted packets, and so is what has been
read with what is to come. `left` is what is to come; the rest of the payloads are parsed from it.
-/

namespace Wawo

open Lts HlenPacket

namespace Socket

/-- `send_packet(packet, flag)`: what it returns, with what `send` has been given and has returned -/
def sendPacket (s : Socket) (packet : Packet) (useSndBuffer : Bool) (sendEc : Int) (answers : List SendAnswer) (now : Nat) :
    Except ByteFault (Int × List (List Byte × Nat) × Socket) := do
  match ← encode packet with
  | (rt, none) => return (rt, [], s)
  | (rt, some tlpPack) =>
    if rt ≠ ok then return (rt, [], s)
    else
      let (n, ec, s) ← s.send tlpPack.bytes useSndBuffer sendEc answers now
      return (if n = (← tlpPack.len) then ok else ec, [(tlpPack.bytes, n)], s)

/-- Asked to send at once, a kernel that reports no error leaves nothing that is not kept. -/
theorem sendNow_ne_zero {s : Socket} {buffer : List Byte} {answers : List SendAnswer} {now : Nat} (hopen : s.mWflag.shutdown = false)
    (hcalm : Calm answers) (hne : 0 < buffer.length) : Ensures (fun r => r.1 ≠ 0) (fun _ => True) (s.sendNow buffer answers now) := by
  obtain ⟨r, hr, hsent, -, hblocked⟩ := baseSend_eq (s := s) hne hcalm hopen
  have hany : ∀ {σ : Type} (x : Except ByteFault σ), Ensures (fun _ => True) (fun _ => True) x := fun x => by cases x <;> trivial
  unfold sendNow
  rw [hr, ok_bind]
  dsimp only
  by_cases hready : buffer.length ≤ ready answers
  · rw [Nat.min_eq_left hready] at hsent
    rw [if_neg (by omega)]
    show r.sent ≠ 0
    omega
  · have hlt : ready answers < buffer.length := Nat.lt_of_not_le hready
    rw [Nat.min_eq_right (Nat.le_of_lt hlt)] at hsent
    rw [if_pos ⟨by omega, (hblocked hlt).1⟩]
    refine ensures_require (fun _ => trivial) fun _ => ensures_require (fun _ => trivial) fun _ => ?_
    refine (hany _).bind fun w _ => ensures_require (fun _ => trivial) fun hw => (hany _).bind fun _ _ => ?_
    show r.sent + w.1 ≠ 0
    omega

/-- What `send` refuses, it refuses with a reason. -/
theorem Half.send_refused {s : Socket} {q : BoundedQueue Byte} {buffer : List Byte} {answers : List SendAnswer} {now : Nat} (h : Half s q)
    (hcalm : Calm answers) (hne : 0 < buffer.length) (hsize : buffer.length ≤ q.capacity) (useSndBuffer : Bool) (ecO : Int) :
    Ensures (fun r => r.1 = 0 → r.2.1 ≠ ok) (fun _ => True) (s.send buffer useSndBuffer ecO answers now) := by
  unfold Socket.send
  refine ensures_require (fun _ => trivial) fun _ => ?_
  by_cases hdown : s.mWflag.shutdown = true
  · rw [if_pos hdown]
    exact fun _ => (by decide : eSocketWrShutdownAlready ≠ ok)
  rw [if_neg hdown, if_neg (by rw [← h.capacity_eq]; omega), h.refines.count_eq, h.nonblocking]
  by_cases hcount : q.count > 0
  · rw [if_pos ⟨rfl, hcount⟩, h.refines.leftCapacity_eq]
    split_ifs with hroom
    · obtain ⟨s', q', hr, -⟩ := h.sendBehind (List.ne_nil_of_length_pos hcount) hne hroom.2 ecO answers
      rw [hr]
      exact fun h0 => absurd h0 (by dsimp only; omega)
    · exact fun _ => (by decide : eSocketSendBlock ≠ ok)
  · rw [if_neg (fun hc => hcount hc.2)]
    exact (sendNow_ne_zero (by simpa using hdown) hcalm hne).mono fun r hr h0 => absurd h0 hr

/-- Only `send` adds to what it has returned. -/
theorem call_returned {c : SendCall} {p p' : InUse} (hc : ∀ buffer useSndBuffer ecO answers now, c ≠ .send buffer useSndBuffer ecO answers now)
    (h : call c p = .ok p') : p'.returned = p.returned := by
  cases c with
  | send => exact absurd rfl (hc _ _ _ _ _)
  | beginAsyncConnect =>
    rw [call] at h
    split_ifs at h
    · obtain ⟨_, -, h⟩ := bind_eq_ok.mp h
      cases h
      rfl
    · cases h
      rfl
  | asyncConnected =>
    rw [call] at h
    split_ifs at h
    · obtain ⟨_, -, h⟩ := bind_eq_ok.mp h
      cases h
      rfl
    · cases h
      rfl
  | connect | flush | asyncWrite | shutdown | rdwrCheck | close =>
    obtain ⟨_, -, h⟩ := bind_eq_ok.mp h
    cases h
    rfl

/-! ### What a read leaves alone -/

theorem pump_rcvSize (s : Socket) (answers : List RecvAnswer) : Ensures (fun r => r.2.1.rcvSize = s.rcvSize) (fun _ => True) (s.pump answers) := by
  have hany : ∀ {σ : Type} (x : Except ByteFault σ), Ensures (fun _ => True) (fun _ => True) x := fun x => by cases x <;> trivial
  unfold pump
  refine ensures_require (fun _ => trivial) fun _ => ?_
  dsimp only
  split
  · exact rfl
  · refine (hany _).bind fun r _ => ?_
    split
    · exact (hany _).bind fun w _ => ensures_require (fun _ => trivial) fun _ => rfl
    · exact rfl

theorem decodeArrives_rcvSize (s : Socket) (size : Nat) (pumpEc : Int) (answers : List RecvAnswer) :
    Ensures (fun n => n.s.rcvSize = s.rcvSize) (fun _ => True) (s.decodeArrives size pumpEc answers) := by
  have hany : ∀ {σ : Type} (x : Except ByteFault σ), Ensures (fun _ => True) (fun _ => True) x := fun x => by cases x <;> trivial
  unfold decodeArrives
  refine (hany _).bind fun r _ => ?_
  dsimp only
  split_ifs <;> exact rfl

theorem receivePackets_rcvSize (s : Socket) (size : Nat) (alwaysPump : Bool) (answers : List RecvAnswer) :
    Ensures (fun n => n.s.rcvSize = s.rcvSize) (fun _ => True) (s.receivePackets size alwaysPump answers) := by
  unfold receivePackets
  split_ifs
  · refine (s.pump_rcvSize answers).bind fun r hr => ?_
    dsimp only
    by_cases hec : ¬ (r.1 = ok ∨ r.1 = eSocketRecvBlock ∨ r.1 = eSocketRecvBufferFull)
    · rw [if_pos hec]
      exact hr
    rw [if_neg hec]
    split_ifs
    · exact ensures_require (fun _ => trivial) fun _ => ensures_require (fun _ => trivial) fun _ => hr
    · exact (r.2.1.decodeArrives_rcvSize size r.1 r.2.2).mono fun n hn => hn.trans hr
  · exact s.decodeArrives_rcvSize size ok answers

theorem readRound_rcvSize (r : Reading) : Ensures (fun r' => r'.s.rcvSize = r.s.rcvSize) (fun _ => True) (readRound r) :=
  (r.s.receivePackets_rcvSize 5 r.alwaysPump r.answers).bind fun _ hn => hn

theorem readArrives_rcvSize {s : Socket} (answers : List RecvAnswer) :
    Ensures (fun r => r.s.rcvSize = s.rcvSize) (fun _ => True) (s.readArrives answers) := by
  unfold readArrives
  refine ensures_require (fun _ => trivial) fun _ => ensures_require (fun _ => trivial) fun _ => ?_
  dsimp only
  have hend : (if (!s.mWflag.infinite) = true then s.endAsyncRead else s).rcvSize = s.rcvSize := by
    obtain ⟨watch, infinite, heq⟩ := endAsyncRead_rewatched s (!s.mWflag.infinite)
    rw [heq]
  refine (readRound_rcvSize _).bind fun r hr => ?_
  have hloop : Ensures (fun r' => r'.s.rcvSize = s.rcvSize) (fun _ => True)
      (loopWhile Reading.more readRound .loop (8 * (arrived answers).length + 4 * s.mRb.count + 24) r) := by
    cases hl : loopWhile Reading.more readRound .loop (8 * (arrived answers).length + 4 * s.mRb.count + 24) r with
    | error => trivial
    | ok r' =>
      exact loopWhile_inv (fun r => r.s.rcvSize = s.rcvSize) (fun a b ha hb => ((readRound_rcvSize a).of_eq_ok hb).trans ha) hl (hr.trans hend)
  refine hloop.bind fun r' hr' => ?_
  split_ifs
  · unfold beginAsyncRead
    refine Ensures.bind (ensures_require (fun _ => trivial) fun _ => ?_) fun s' (hs' : s'.rcvSize = s.rcvSize) => hs'
    split_ifs <;> exact hr'
  · exact hr'

end Socket

/-- The two sockets. `sent` is what has been passed to `send_packet`, with what it has returned. -/
structure Transport where
  sender : Socket.InUse
  receiver : Socket
  sent : List (Packet × Int)
  got : List Byte
  triggers : Nat -- calls of `handle_async_read` that are yet to trigger their packets
  arrived : List Packet -- the packets given to the listeners of `E_PACKET_ARRIVE`

inductive TransportEvent
  | sendPacket (packet : Packet) (useSndBuffer : Bool) (sendEc : Int) (answers : List SendAnswer) (now : Nat)
  | call (c : Socket.SendCall)
  | read (answers : List RecvAnswer)
  | trigger

namespace Transport

/-- Two connected sockets -/
def joined (s r : Socket) : Transport := ⟨Socket.inUse s, r, [], [], 0, []⟩

def step : TransportEvent → Transport → Except ByteFault Transport
  | .sendPacket packet useSndBuffer sendEc answers now, t => do
    let (rt, returned, s) ← t.sender.s.sendPacket packet useSndBuffer sendEc answers now
    return { t with sender := { t.sender with s := s, returned := t.sender.returned ++ returned }, sent := t.sent ++ [(packet, rt)] }
  | .call c, t => do return { t with sender := ← Socket.call c t.sender }
  | .read answers, t => do
    let r ← t.receiver.readArrives answers
    return { t with receiver := r.s, got := t.got ++ Wawo.arrived answers, triggers := if r.hasNewArrives then t.triggers + 1 else t.triggers }
  | .trigger, t =>
    if t.triggers = 0 then .ok t
    else do
      let (packets, r) ← t.receiver.triggerArrives
      return { t with receiver := r, triggers := t.triggers - 1, arrived := t.arrived ++ packets }

/-- The payloads that `send_packet` has accepted -/
def accepted (t : Transport) : List (List Byte) := (t.sent.filter (·.2 = ok)).map (·.1.bytes)

/-- The payloads that have arrived -/
def delivered (t : Transport) : List (List Byte) := t.arrived.map Packet.bytes

/-- Packets fit into the buffers of both sockets and the memory of `encode`; the kernels report no error when they
send, and hand over what has been sent. -/
def Fair (sndSize rcvSize : Nat) (t : Transport) : TransportEvent → Prop
  | .sendPacket packet _ _ answers now =>
    packet.Made ∧ (∃ r, encode packet = .ok r) ∧ packet.bytes.length + 4 ≤ sndSize ∧ packet.bytes.length ≤ rcvSize ∧
      Calm answers ∧ now ≠ 0
  | .call (.send _ _ _ _ _) => False
  | .call c => c.Sound sndSize
  | .read answers => t.got ++ Wawo.arrived answers <+: t.sender.s.kernel ∧ (ending answers).Sound
  | .trigger => True

variable {sndSize rcvSize : Nat} {t t' : Transport} {q rq : BoundedQueue Byte} {left : List Byte} {rest : List (List Byte)}

/-- What is to come at the receiver is what is left of the frames of the accepted packets. -/
structure Flows (sndSize rcvSize : Nat) (t : Transport) (q rq : BoundedQueue Byte) (left : List Byte) (rest : List (List Byte)) : Prop where
  steady : Socket.Steady t.sender q
  joined : Socket.Joined t.sender
  whole : Socket.Delivered t.sender q
  sndCapacity : q.capacity = sndSize
  rcvCapacity : rq.capacity = rcvSize
  framed : t.sender.s.kernel ++ q.items = t.accepted.flatMap frame
  toCome : t.sender.s.kernel ++ q.items = t.got ++ left
  atRest : Socket.AtRest t.receiver rq left rest
  queue : t.receiver.mRpsQ = []
  waiting : t.receiver.mRpsQStandby ≠ [] → 0 < t.triggers
  payloads : t.delivered ++ t.receiver.mRpsQStandby.map Packet.bytes ++ rest = t.accepted

/-- A call of the sending half other than `send` moves bytes from `m_sb` to the kernel. -/
theorem Flows.called {p' : Socket.InUse} {q' : BoundedQueue Byte} (h : Flows sndSize rcvSize t q rq left rest) (hsteady : Socket.Steady p' q')
    (hjoined : Socket.Joined p') (hwhole : Socket.Delivered p' q') (hcap : q'.capacity = q.capacity)
    (hbytes : p'.s.kernel ++ q'.items = t.sender.s.kernel ++ q.items) :
    Flows sndSize rcvSize { t with sender := p' } q' rq left rest where
  steady := hsteady
  joined := hjoined
  whole := hwhole
  sndCapacity := hcap.trans h.sndCapacity
  rcvCapacity := h.rcvCapacity
  framed := hbytes.trans h.framed
  toCome := hbytes.trans h.toCome
  atRest := h.atRest
  queue := h.queue
  waiting := h.waiting
  payloads := h.payloads

/-- A packet is accepted: its frame is to come, too. -/
theorem Flows.accept {p' : Socket.InUse} {q' : BoundedQueue Byte} {packet : Packet} (h : Flows sndSize rcvSize t q rq left rest)
    (hsteady : Socket.Steady p' q') (hjoined : Socket.Joined p') (hwhole : Socket.Delivered p' q') (hcap : q'.capacity = q.capacity)
    (hfits : Fits rcvSize packet.bytes)
    (hbytes : p'.s.kernel ++ q'.items = t.sender.s.kernel ++ q.items ++ frame packet.bytes) :
    Flows sndSize rcvSize { t with sender := p', sent := t.sent ++ [(packet, ok)] } q' rq (left ++ frame packet.bytes) (rest ++ [packet.bytes]) := by
  have haccepted : Transport.accepted { t with sender := p', sent := t.sent ++ [(packet, ok)] } = t.accepted ++ [packet.bytes] := by
    simp [Transport.accepted]
  have hrest : Socket.AtRest t.receiver rq (left ++ frame packet.bytes) (rest ++ [packet.bytes]) := by
    have hr := h.atRest.readable
    refine ⟨⟨hr.refines, hr.capacity_eq, hr.data, hr.nonblocking, hr.opened, ?_, fun c hc => ?_⟩, h.atRest.incomplete⟩
    · have := hr.parses.append [packet.bytes]
      rwa [List.flatMap_singleton, List.append_assoc] at this
    · rcases List.mem_append.1 hc with hc | hc
      · exact hr.fits c hc
      · rw [List.mem_singleton.1 hc, h.rcvCapacity]
        exact hfits
  refine ⟨hsteady, hjoined, hwhole, hcap.trans h.sndCapacity, h.rcvCapacity, ?_, ?_, hrest, h.queue, h.waiting, ?_⟩
  · rw [haccepted, List.flatMap_append, List.flatMap_singleton, ← h.framed]
    exact hbytes
  · rw [← List.append_assoc, ← h.toCome]
    exact hbytes
  · rw [haccepted, ← h.payloads, List.append_assoc _ rest]
    rfl

/-- A packet is refused: nothing of it is sent. -/
theorem Flows.refuse {p' : Socket.InUse} {q' : BoundedQueue Byte} {packet : Packet} {rt : Int} (h : Flows sndSize rcvSize t q rq left rest)
    (hsteady : Socket.Steady p' q') (hjoined : Socket.Joined p') (hwhole : Socket.Delivered p' q') (hcap : q'.capacity = q.capacity)
    (hbytes : p'.s.kernel ++ q'.items = t.sender.s.kernel ++ q.items) (hrt : rt ≠ ok) :
    Flows sndSize rcvSize { t with sender := p', sent := t.sent ++ [(packet, rt)] } q' rq left rest := by
  have haccepted : Transport.accepted { t with sender := p', sent := t.sent ++ [(packet, rt)] } = t.accepted := by
    simp [Transport.accepted, hrt]
  have h' := h.called hsteady hjoined hwhole hcap hbytes
  exact ⟨h'.steady, h'.joined, h'.whole, h'.sndCapacity, h'.rcvCapacity, haccepted ▸ h'.framed, h'.toCome, h'.atRest, h'.queue, h'.waiting,
    haccepted ▸ h'.payloads⟩

/-- A packet that `encode` refuses is empty. -/
theorem encode_cases {packet : Packet} {r : Int × Option Packet} (hmade : packet.Made) (h : encode packet = .ok r) :
    (∃ rt, r = (rt, none) ∧ rt ≠ ok) ∨ ∃ f, r = (ok, some f) ∧ packet.bytes ≠ [] ∧ f.Holds (frame packet.bytes) := by
  obtain ⟨rt, o⟩ := r
  have hcode := h
  unfold encode at hcode
  rw [hmade.holds.len_eq, ok_bind] at hcode
  by_cases hempty : packet.bytes.length = 0
  · rw [if_pos hempty] at hcode
    cases hcode
    exact .inl ⟨_, rfl, by decide⟩
  · rw [if_neg hempty] at hcode
    obtain ⟨o₁, -, hcode⟩ := bind_eq_ok.mp hcode
    obtain ⟨_, -, hcode⟩ := bind_eq_ok.mp hcode
    obtain ⟨f, -, hcode⟩ := bind_eq_ok.mp hcode
    cases hcode
    obtain ⟨hne, hholds⟩ := encode_holds hmade.holds h
    exact .inr ⟨f, rfl, hne, hholds⟩

/-- Where the packets are is a matter of some queues and of what is to come. -/
def Flowing (sndSize rcvSize : Nat) (t : Transport) : Prop := ∃ q rq left rest, Flows sndSize rcvSize t q rq left rest

theorem Flows.sendPacket (h : Flows sndSize rcvSize t q rq left rest) {packet : Packet} {answers : List SendAnswer} {now : Nat}
    (useSndBuffer : Bool) (sendEc : Int) (hrcv : rcvSize ≤ packMaxRightCapacity)
    (hfair : t.Fair sndSize rcvSize (.sendPacket packet useSndBuffer sendEc answers now)) :
    Ensures (Flowing sndSize rcvSize) (· = .waits) (step (.sendPacket packet useSndBuffer sendEc answers now) t) := by
  obtain ⟨hmade, ⟨r, hencode⟩, hsnd, hle, hcalm, hnow⟩ := hfair
  show Ensures _ _ (t.sender.s.sendPacket packet useSndBuffer sendEc answers now >>= fun r => _)
  unfold Socket.sendPacket
  rw [hencode, ok_bind]
  rcases encode_cases hmade hencode with ⟨rt, rfl, hrt⟩ | ⟨f, rfl, hne, hholds⟩
  · dsimp only
    rw [pure_eq_ok, ok_bind, List.append_nil]
    exact ⟨q, rq, left, rest, h.refuse h.steady h.joined h.whole rfl rfl hrt⟩
  · have hlen : f.bytes.length = 4 + packet.bytes.length := by rw [hholds.bytes_eq, length_frame]
    have hsize : f.bytes.length ≤ q.capacity := by rw [h.sndCapacity]; omega
    have hpos : 0 < f.bytes.length := by omega
    have hsent := h.steady.half.send hcalm hpos hsize useSndBuffer sendEc hnow
    have hrefused := @Socket.Half.send_refused _ _ _ _ now h.steady.half hcalm hpos hsize useSndBuffer sendEc
    dsimp only
    rw [if_neg (not_not.2 rfl)]
    cases hs : t.sender.s.send f.bytes useSndBuffer sendEc answers now with
    | error e =>
      rw [hs] at hsent
      exact hsent.resolve_right fun hnot => hnot h.joined.2
    | ok r =>
      obtain ⟨n, ec, s'⟩ := r
      rw [hs] at hsent hrefused
      obtain ⟨q', haccepts⟩ := hsent
      have hcalled : Socket.Called t.sender q (.send f.bytes useSndBuffer sendEc answers now) _ q' := h.steady.sent hpos haccepts
      rw [ok_bind, hholds.len_eq, ok_bind, pure_eq_ok, ok_bind, length_frame, ← hlen]
      obtain ⟨hjoined, hwhole⟩ := hcalled.joined h.joined
      rcases haccepts.moved with ⟨hall, hmoved⟩ | ⟨hnone, hmoved⟩
      · rw [if_pos hall]
        refine ⟨q', rq, _, _, h.accept hcalled.steady hjoined (hwhole h.whole) hcalled.capacity ⟨hne, hle, by omega⟩ ?_⟩
        rw [← hholds.bytes_eq]
        exact hmoved.bytes_eq
      · have hshort : n ≠ f.bytes.length := by omega
        rw [if_neg hshort]
        refine ⟨q', rq, left, rest, h.refuse hcalled.steady hjoined (hwhole h.whole) hcalled.capacity ?_ (hrefused hnone)⟩
        rw [← List.append_nil (t.sender.s.kernel ++ q.items)]
        exact hmoved.bytes_eq

theorem Flows.call (h : Flows sndSize rcvSize t q rq left rest) {c : Socket.SendCall} (hfair : t.Fair sndSize rcvSize (.call c)) :
    Ensures (Flowing sndSize rcvSize) (· = .waits) (step (.call c) t) := by
  have hsend : (∀ buffer useSndBuffer ecO answers now, c ≠ .send buffer useSndBuffer ecO answers now) ∧ c.Sound sndSize := by
    cases c with
    | send => exact hfair.elim
    | _ => exact ⟨nofun, hfair⟩
  have hspec := Socket.call_spec h.steady (by rw [h.sndCapacity]; exact hsend.2)
  show Ensures _ _ (Socket.call c t.sender >>= fun p => _)
  cases hc : Socket.call c t.sender with
  | error e =>
    rw [hc] at hspec
    exact hspec.resolve_right fun hnot => hnot h.joined
  | ok p' =>
    rw [hc] at hspec
    obtain ⟨q', hcalled⟩ := hspec
    obtain ⟨hjoined, hwhole⟩ := hcalled.joined h.joined
    refine ⟨q', rq, left, rest, h.called hcalled.steady hjoined (hwhole h.whole) hcalled.capacity ?_⟩
    rw [h.whole, hwhole h.whole, Socket.call_returned hsend.1 hc]

/-- The receiver reads what has been sent. -/
theorem Flows.read (h : Flows sndSize rcvSize t q rq left rest) {answers : List RecvAnswer} (hfair : t.Fair sndSize rcvSize (.read answers)) :
    ∃ t', step (.read answers) t = .ok t' ∧ Flowing sndSize rcvSize t' := by
  obtain ⟨⟨unread, hkernel⟩, hsound⟩ := hfair
  have hleft : left = Wawo.arrived answers ++ (unread ++ q.items) := by
    have htoCome := h.toCome
    rw [← hkernel, List.append_assoc, List.append_assoc] at htoCome
    exact (List.append_cancel_left htoCome).symm
  have hrest := h.atRest
  rw [hleft] at hrest
  obtain ⟨r, rq', done, rest', hr, hread, hsplit⟩ := Socket.readArrives_spec hrest hsound
  obtain ⟨packets, hstandby, hholds⟩ := hread.standby
  refine ⟨_, by rw [step, hr, ok_bind, pure_eq_ok], q, rq', unread ++ q.items, rest', ?_⟩
  refine ⟨h.steady, h.joined, h.whole, h.sndCapacity, ?_, h.framed, ?_, hread.rest, hread.queue.trans h.queue, fun hne => ?_, ?_⟩
  · rw [hread.rest.readable.capacity_eq, (Socket.readArrives_rcvSize answers).of_eq_ok hr, ← h.atRest.readable.capacity_eq, h.rcvCapacity]
  · rw [h.toCome, hleft, ← List.append_assoc]
  · show 0 < if r.hasNewArrives = true then t.triggers + 1 else t.triggers
    split_ifs with hnew
    · exact Nat.succ_pos _
    · refine h.waiting fun hnil => hne ?_
      have hdone : done = [] := not_not.1 (mt hread.hasNewArrives.2 hnew)
      rw [hdone] at hholds
      rw [hstandby, hnil, List.forall₂_nil_right_iff.1 hholds]
      rfl
  · show t.delivered ++ r.s.mRpsQStandby.map Packet.bytes ++ rest' = t.accepted
    rw [← h.payloads, hsplit, hstandby, List.map_append, Link.bytes_of_holds hholds]
    simp

/-- The packets that have been read are given to the listeners. -/
theorem Flows.trigger (h : Flows sndSize rcvSize t q rq left rest) : ∃ t', step .trigger t = .ok t' ∧ Flowing sndSize rcvSize t' := by
  by_cases hnone : t.triggers = 0
  · exact ⟨t, if_pos hnone, q, rq, left, rest, h⟩
  · rw [step, if_neg hnone, Socket.triggerArrives_eq h.queue, ok_bind]
    have hr := h.atRest.readable
    refine ⟨_, rfl, q, rq, left, rest, h.steady, h.joined, h.whole, h.sndCapacity, h.rcvCapacity, h.framed, h.toCome,
      ⟨⟨hr.refines, hr.capacity_eq, hr.data, hr.nonblocking, hr.opened, hr.parses, hr.fits⟩, h.atRest.incomplete⟩, rfl,
      fun hne => absurd rfl hne, ?_⟩
    show (t.arrived ++ t.receiver.mRpsQStandby).map Packet.bytes ++ [] ++ rest = t.accepted
    rw [← h.payloads, List.map_append, List.append_nil]
    rfl

theorem Flows.step (h : Flows sndSize rcvSize t q rq left rest) (hrcv : rcvSize ≤ packMaxRightCapacity) {e : TransportEvent}
    (hfair : t.Fair sndSize rcvSize e) : Ensures (Flowing sndSize rcvSize) (· = .waits) (Transport.step e t) := by
  cases e with
  | sendPacket packet useSndBuffer sendEc answers now => exact h.sendPacket useSndBuffer sendEc hrcv hfair
  | call c => exact h.call hfair
  | read answers =>
    obtain ⟨t', ht', hflowing⟩ := h.read hfair
    rw [ht']
    exact hflowing
  | trigger =>
    obtain ⟨t', ht', hflowing⟩ := h.trigger
    rw [ht']
    exact hflowing

/-- Nothing is left to come: all that has been accepted has been read. -/
theorem Flows.rest_eq_nil (h : Flows sndSize rcvSize t q rq [] rest) : rest = [] := by
  have hr := h.atRest.readable
  cases rest with
  | nil => rfl
  | cons c cs =>
    have hparses := hr.parses
    rw [List.append_nil] at hparses
    refine absurd (hparses.complete ?_) h.atRest.incomplete
    have := (hr.fits c (List.mem_cons_self ..)).le_right
    unfold packMaxRightCapacity at this
    omega

variable {mSm mSm' : SocketMode} {sndSize' rcvSize' mSize mSize' : Nat} {s r : Socket} {es : List TransportEvent}

theorem joined_flows (hs : Socket.init true mSm .connected sndSize rcvSize' mSize = .ok s) (hdata : mSm ≠ .listener)
    (hr : Socket.init true mSm' .connected sndSize' rcvSize mSize' = .ok r) (hdata' : mSm' ≠ .listener) :
    Flows sndSize rcvSize (joined s r) (.empty sndSize) (.empty rcvSize) [] [] ∧ rcvSize ≤ packMaxRightCapacity := by
  have hfresh := Socket.fresh_of_init hs hdata nofun
  obtain ⟨_, hsnd, hr₁⟩ := bind_eq_ok.mp hr
  obtain ⟨_, hrcv, -⟩ := bind_eq_ok.mp hr₁
  obtain ⟨mSb, mRb, -, hrefines, hinit⟩ := @Socket.init_spec true mSm' .connected sndSize' rcvSize mSize' (require_eq_ok.mp hsnd) (require_eq_ok.mp hrcv)
  rw [hr] at hinit
  cases hinit
  have hkernel : s.kernel ++ (BoundedQueue.empty sndSize : BoundedQueue Byte).items = [] := by rw [hfresh.kernel]; rfl
  refine ⟨⟨hfresh.steady, ⟨rfl, .inl hfresh.state, ?_⟩, hkernel, rfl, rfl, hkernel, hkernel, ?_, rfl, fun hne => absurd rfl hne, rfl⟩, ?_⟩
  · show s.writeCallback ≠ _
    rw [hfresh.callback]
    exact nofun
  · exact ⟨⟨hrefines, rfl, hdata', rfl, rfl, rfl, List.forall_mem_nil _⟩, fun hc => Nat.not_succ_le_zero 3 hc.1⟩
  · have hle : rcvSize ≤ sockRcvMaxSize := (require_eq_ok.mp hrcv).1
    exact hle.trans (by decide)

/-- For every interleaving of the calls of the sender with the reads and triggers of the receiver, what arrives is
a prefix of what `send_packet` has accepted, in order and each packet as it was, and it is all of it when nothing is on
its way. No assertion fails; `flush` may have to wait. -/
theorem packets_delivered (hs : Socket.init true mSm .connected sndSize rcvSize' mSize = .ok s) (hdata : mSm ≠ .listener)
    (hr : Socket.init true mSm' .connected sndSize' rcvSize mSize' = .ok r) (hdata' : mSm' ≠ .listener)
    (h : Run step (Fair sndSize rcvSize) (joined s r) es t) :
    t.delivered <+: t.accepted ∧
      (t.sender.s.mSb.count = 0 → t.got = t.sender.s.kernel → t.triggers = 0 → t.delivered = t.accepted) ∧
      ∀ e, t.Fair sndSize rcvSize e → Ensures (fun _ => True) (· = .waits) (step e t) := by
  obtain ⟨hstart, hrcv⟩ := joined_flows hs hdata hr hdata'
  obtain ⟨q, rq, left, rest, hflows⟩ := h.inv (Flowing sndSize rcvSize) (fun t e t' ⟨q, rq, left, rest, ht⟩ hfair hstep =>
    (ht.step hrcv hfair).of_eq_ok hstep) ⟨_, _, _, _, hstart⟩
  refine ⟨?_, fun hcount hgot htriggers => ?_, fun e he => (hflows.step hrcv he).mono fun _ _ => trivial⟩
  · rw [← hflows.payloads, List.append_assoc]
    exact List.prefix_append _ _
  · have hitems : q.items = [] := q.count_eq_zero.mp (by rw [← hflows.steady.half.refines.count_eq]; exact hcount)
    have hleft : left = [] := by
      have htoCome := hflows.toCome
      rw [hitems, ← hgot] at htoCome
      exact (List.append_cancel_left htoCome).symm
    subst hleft
    have hstandby : t.receiver.mRpsQStandby = [] := by
      by_contra hne
      have := hflows.waiting hne
      omega
    have hpayloads := hflows.payloads
    rw [hstandby, hflows.rest_eq_nil] at hpayloads
    simpa using hpayloads

/-- A packet of three bytes -/
def threeBytes : Packet :=
  match (do (← Packet.new 0 0).write [1, 2, 3] 3 : Except ByteFault Packet) with
  | .ok p => p
  | .error _ => ⟨[], 0, 0, 0, 0⟩

theorem threeBytes_made : threeBytes.Made := by
  have hrun : (Packet.new 0 0 >>= outputs PacketCall.run [.write [1, 2, 3] 3]).map Prod.snd = .ok threeBytes := by decide +kernel
  obtain ⟨⟨os, p⟩, hp, hthree⟩ := map_eq_ok.mp hrun
  obtain ⟨p₀, hnew, hout⟩ := bind_eq_ok.mp hp
  have hthree : p = threeBytes := hthree
  rw [← hthree]
  exact ⟨0, 0, p₀, _, os, hnew, hout⟩

/-- Two packets, of which the kernel takes five bytes at first; the receiver reads in pieces. -/
def inPieces : List TransportEvent :=
  [.sendPacket threeBytes false 0 [.sent 4, .wouldBlock] 1, .read [.chunk 0 [0, 0, 3, 1]], .call (.asyncWrite [.sent 1] 2 [] []),
    .sendPacket threeBytes false 0 [.sent 6] 3, .read [.chunk 2 [3, 0, 0], .interrupted, .chunk 0 [3, 1]], .trigger]

/-- `Fair`, for `inPieces` -/
def FairPiece (t : Transport) : TransportEvent → Prop
  | .sendPacket packet _ _ answers now => packet = threeBytes ∧ Calm answers ∧ now ≠ 0
  | .call (.asyncWrite answers now closeAnswers _) => Calm answers ∧ now ≠ 0 ∧ Calm closeAnswers
  | .call _ => False
  | .read answers => t.got ++ Wawo.arrived answers <+: t.sender.s.kernel ∧ ending answers = .wouldBlock
  | .trigger => True

instance (t : Transport) : (e : TransportEvent) → Decidable (t.FairPiece e)
  | .sendPacket packet _ _ answers now => inferInstanceAs (Decidable (packet = threeBytes ∧ Calm answers ∧ now ≠ 0))
  | .call (.asyncWrite answers now closeAnswers _) => inferInstanceAs (Decidable (Calm answers ∧ now ≠ 0 ∧ Calm closeAnswers))
  | .call (.send ..) | .call (.connect _) | .call .beginAsyncConnect | .call (.asyncConnected _ _) => isFalse not_false
  | .call (.flush _ _ _) | .call (.shutdown _ _ _ _) | .call (.rdwrCheck _ _ _) | .call (.close _ _ _) => isFalse not_false
  | .read answers => inferInstanceAs (Decidable (t.got ++ Wawo.arrived answers <+: t.sender.s.kernel ∧ ending answers = .wouldBlock))
  | .trigger => inferInstanceAs (Decidable True)

theorem FairPiece.fair {e : TransportEvent} (h : t.FairPiece e) : t.Fair sockSndMinSize sockRcvMinSize e := by
  cases e with
  | sendPacket packet useSndBuffer sendEc answers now =>
    obtain ⟨hpacket, hcalm, hnow⟩ := h
    have hencode : ((encode threeBytes).map fun _ => ()) = .ok () := by decide +kernel
    obtain ⟨r, hr, -⟩ := map_eq_ok.mp hencode
    have hsize : threeBytes.bytes.length + 4 ≤ sockSndMinSize ∧ threeBytes.bytes.length ≤ sockRcvMinSize := by decide +kernel
    rw [← hpacket] at hr hsize
    exact ⟨hpacket ▸ threeBytes_made, ⟨r, hr⟩, hsize.1, hsize.2, hcalm, hnow⟩
  | call c =>
    cases c with
    | asyncWrite => exact h
    | _ => exact h.elim
  | read answers =>
    obtain ⟨hgot, hending⟩ := h
    refine ⟨hgot, fun errno herrno => ?_⟩
    rw [hending] at herrno
    cases herrno
  | trigger => trivial

/-- `inPieces` between two sockets with the smallest buffers -/
def inPiecesRuns (Q : Transport → Bool) : Bool :=
  match Socket.init true .active .connected sockSndMinSize sockRcvMinSize 0, Socket.init true .passive .connected sockSndMinSize sockRcvMinSize 0 with
  | .ok s, .ok r => passes step (fun t e => decide (t.FairPiece e)) Q inPieces (joined s r)
  | _, _ => false

theorem packets_delivered_inPieces :
    ∃ s r t, Socket.init true .active .connected sockSndMinSize sockRcvMinSize 0 = .ok s ∧
      Socket.init true .passive .connected sockSndMinSize sockRcvMinSize 0 = .ok r ∧
      Run step (Fair sockSndMinSize sockRcvMinSize) (joined s r) inPieces t ∧ t.delivered = [[1, 2, 3]] ∧ t.delivered <+: t.accepted := by
  have hrun : inPiecesRuns (fun t => decide (t.delivered = [[1, 2, 3]])) = true := by decide +kernel
  unfold inPiecesRuns at hrun
  split at hrun
  case h_1 s r hs hr =>
    obtain ⟨t, hrun, ht⟩ := Run.of_passes inPieces hrun
    have hrun := hrun.mono fun _ _ h => FairPiece.fair (of_decide_eq_true h)
    exact ⟨s, r, t, hs, hr, hrun, of_decide_eq_true ht, (packets_delivered hs nofun hr nofun hrun).1⟩
  case h_2 => cases hrun

end Transport
end Wawo
