import Wawo.Wcp.Numbering
import Wawo.Wcp.Flights
import Wawo.Wcp.Receiver

/-!
# The sending queue over whole runs

`Sender.Queue`: the packs that took a number are those that went into flight, followed by
`snd_sending` and `s_sending_standby`, in that order, and `snd_info.next` counts the first part. So
the head of `snd_sending` carries the number `check_send` asserts. Every step keeps this but the
launch of a FIN: the `break` behind it leaves the FIN at the head of `snd_sending`, with
`snd_info.next` one further. `sendQueue` is about runs in which no tick finds a FIN queued, and
`seqNotNext_of_shutdown` is what a tick does that finds one.

The other assertion, `pack->header.seq >= snd_info.una`, is kept by a peer that acknowledges only what
was sent, as long as the numbers do not wrap during the tick.
-/

namespace Wawo

open Lts Relation

namespace Sender

variable {m : Mode} {s s' : Sender} {N : Nat}

structure Queue (s : Sender) : Prop where
  order : s.hist.numbered.map (fun p => p.content) = (s.hist.flown ++ s.sending ++ s.standby).map (fun p => p.content)
  next_eq : s.next = s.hist.flown.length % 2 ^ 32

/-- No FIN waits to be sent. -/
def NoFin (s : Sender) : Prop := ∀ p ∈ s.sending ++ s.standby, p.testFlag .fin = false

theorem Queue.launch (h : Queue s) {p q : WcbPack} {rest : List WcbPack} (hs : s.sending = p :: rest)
    (hq : q.content = p.content) (d : Datagram) : Queue (s.launch q rest d) := by
  refine ⟨?_, ?_⟩
  · have := h.order
    rw [hs] at this
    show s.hist.numbered.map _ = (s.hist.flown ++ [q] ++ rest ++ s.standby).map _
    rw [this]
    simp [hq]
  · show u32 (s.next + 1) = (s.hist.flown ++ [q]).length % 2 ^ 32
    rw [h.next_eq, u32_succ_mod, List.length_append, List.length_singleton]

theorem Queue.step (h : Queue s) (hs : Step m s s') (hfin : m.actor = .send → NoFin s) : Queue s' := by
  have hord := h.order
  cases hs with
  | number flag _ =>
    refine ⟨?_, h.next_eq⟩
    show (s.hist.numbered ++ [_]).map _ = (s.hist.flown ++ s.sending ++ (s.standby ++ [_])).map _
    simp [hord]
  | shutFin _ _ =>
    refine ⟨?_, h.next_eq⟩
    show (s.hist.numbered ++ [_]).map _ = (s.hist.flown ++ s.sending ++ (s.standby ++ [_])).map _
    simp [hord]
  | package _ hsb =>
    refine ⟨?_, h.next_eq⟩
    show (s.hist.numbered ++ [_]).map _ = (s.hist.flown ++ (s.sending ++ [_]) ++ s.standby).map _
    rw [hsb] at hord ⊢
    simp [hord]
  | moveStandby => exact ⟨by simpa using hord, h.next_eq⟩
  | restampSending p q rest hp hq =>
    refine ⟨?_, h.next_eq⟩
    rw [hp] at hord
    simpa [hq] using hord
  | launch p q rest wnd hp hq _ _ _ _ _ => exact h.launch hp hq _
  | launchFin p q rest wnd hp _ _ _ _ hf hm =>
    have := hfin hm p (by simp [hp])
    rw [this] at hf; cases hf
  | _ => exact ⟨hord, h.next_eq⟩

/-- The head of the sending queue has the number that is due. -/
theorem Queue.head_seq (h : Queue s) (hn : Numbered s) {p : WcbPack} {rest : List WcbPack}
    (hs : s.sending = p :: rest) : p.seq = s.next := by
  have hget := congrArg (fun l => l[s.hist.flown.length]?) h.order
  simp only [hs, List.append_assoc, List.cons_append, List.map_append, List.map_cons] at hget
  rw [List.getElem?_append_right (by simp), List.length_map, Nat.sub_self, List.getElem?_cons_zero] at hget
  obtain ⟨q, hq, hqp⟩ : ∃ q, s.hist.numbered[s.hist.flown.length]? = some q ∧ q.content = p.content := by
    simpa using hget
  have hseq := congrArg (fun l => l[s.hist.flown.length]?) hn.seqs
  obtain ⟨hlt, -⟩ := List.getElem?_eq_some_iff.1 hq
  simp only [List.getElem?_map, hq, List.getElem?_range hlt, Option.map_some] at hseq
  rw [← Datagram.seq_of_content hqp, h.next_eq]
  exact Option.some.inj hseq

theorem NoFin.step (h : NoFin s) (hs : Step m s s') (hm : m.actor ≠ .user) : NoFin s' := by
  have hcat : ∀ p : WcbPack, p.testFlag .fin = false → ∀ l : List WcbPack, (∀ q ∈ l, q = p ∨ q ∈ s.sending ++ s.standby) →
      ∀ q ∈ l, q.testFlag .fin = false := by
    intro p hp l hl q hq
    rcases hl q hq with rfl | hq
    · exact hp
    · exact h q hq
  cases hs with
  | number flag hf =>
    have hflag : flag &&& .fin = 0 := by
      simp only [List.mem_cons, List.not_mem_nil, or_false] at hf
      rcases hf with rfl | rfl | rfl <;> decide
    refine hcat ⟨.fresh s.dsn flag [] (Nat.zero_le _), 0, 0⟩ (by simp [hflag]) _ ?_
    intro q hq
    simp [Sender.number] at hq ⊢; tauto
  | package _ _ =>
    refine hcat ⟨.fresh s.dsn (.dat ||| .ack) (s.sb.take wcpMdu) (List.length_take_le _ _), 0, 0⟩
      (by rw [Datagram.testFlag_fresh]; decide) _ ?_
    intro q hq
    simp [Sender.package] at hq ⊢; tauto
  | shutFin _ hu => exact absurd hu hm
  | moveStandby =>
    intro p hp
    exact h p (by simpa using hp)
  | restampSending p q rest hp hq =>
    refine hcat q ?_ _ ?_
    · rw [Datagram.testFlag_of_content hq]; exact h p (by simp [hp])
    · intro x hx
      simp [hp] at hx ⊢; tauto
  | launch p q rest wnd hp _ _ _ _ _ _ =>
    intro x hx
    refine h x ?_
    rw [hp]
    exact List.mem_cons_of_mem _ hx
  | launchFin p q rest wnd hp _ _ _ _ hf _ =>
    have := h p (by simp [hp])
    rw [this] at hf; cases hf
  | _ => exact h

/-- What holds throughout a tick, for a peer that acknowledges numbers up to `N` only. -/
structure InStep (N : Nat) (s : Sender) : Prop where
  queue : Queue s
  numbered : Numbered s
  bytes : FlightBytes s
  una_le : s.una ≤ N

theorem InStep.step (h : InStep N s) (hs : Step m s s') (ha : ∀ a, m.acks a → a ≤ N)
    (hfin : m.actor = .send → NoFin s) : InStep N s' := by
  refine ⟨h.queue.step hs hfin, h.numbered.step hs, h.bytes.step hs, ?_⟩
  have := h.una_le
  cases hs with
  | ackUna a _ hm => exact ha a hm
  | _ => exact this

/-- The packs `check_send` launches fit into the congestion window: nothing leaves the flight list
meanwhile, so each adds its header at least to the bytes in flight. -/
def Budget (N : Nat) (s : Sender) : Prop :=
  N ≤ s.hist.flown.length ∧ wcpHeaderLen * s.hist.flown.length ≤ wcpHeaderLen * N + s.nflight

theorem Budget.launch (h : Budget N s) (hb : FlightBytes s) (q : WcbPack) (sending : List WcbPack) (d : Datagram) :
    Budget N (s.launch q sending d) := by
  obtain ⟨h1, h2⟩ := h
  have hmtu := totalBytes_le_mtu q.toDatagram
  have hcap : wcpSndCwndMax + wcpMtu < 2 ^ 32 := by decide
  have hn := hb.nflight_le
  have hsum : u32 (s.nflight + q.totalBytes) = s.nflight + q.totalBytes := u32_of_lt (by omega)
  have hq : wcpHeaderLen ≤ q.totalBytes := Nat.le_add_left _ _
  refine ⟨?_, ?_⟩
  · show N ≤ (s.hist.flown ++ [q]).length
    simp; omega
  · show wcpHeaderLen * (s.hist.flown ++ [q]).length ≤ wcpHeaderLen * N + u32 _
    rw [hsum, List.length_append, List.length_singleton, Nat.mul_add]
    omega

theorem Budget.step (h : Budget N s) (hb : FlightBytes s) (hs : Step m s s') (hm : m.actor = .send) :
    Budget N s' := by
  cases hs with
  | dropFlight _ _ _ _ _ _ hm' => exact absurd hm hm'
  | launch p q rest wnd _ _ _ _ _ _ _ => exact h.launch hb q rest _
  | launchFin p q rest wnd _ _ _ _ _ _ _ => exact h.launch hb q (q :: rest) _
  | _ => exact h

theorem Budget.flown_lt (h : Budget N s) (hb : FlightBytes s) (hN : N + wcpSndCwndMax / wcpHeaderLen < 2 ^ 32) :
    s.hist.flown.length < 2 ^ 32 := by
  have := h.2
  have := hb.nflight_le
  simp only [wcpHeaderLen, wcpSndCwndMax, wcpSndSsthreshMax] at *
  omega

/-- The assertions of `check_send` on its queue. -/
def queueFaults : List Fault := [.seqNotNext, .seqBelowUna, .finState]

theorem InStep.not_faulty (h : InStep N s) (hfin : NoFin s) (hN : N ≤ s.hist.flown.length)
    (hlt : s.hist.flown.length < 2 ^ 32) {e : Fault} (hF : Faulty e s) : e ∉ queueFaults := by
  intro he
  simp only [queueFaults, List.mem_cons, List.not_mem_nil, or_false] at he
  rcases he with rfl | rfl | rfl
  · obtain ⟨p, rest, hp, hne⟩ := hF
    exact hne (h.queue.head_seq h.numbered hp)
  · obtain ⟨p, rest, hp, hseq, hlt'⟩ := hF
    have hu := h.una_le
    have hn := h.queue.next_eq
    rw [Nat.mod_eq_of_lt hlt] at hn
    omega
  · obtain ⟨p, hp, hf⟩ := hF
    have := hfin p (List.mem_append_left _ hp)
    rw [this] at hf; cases hf

end Sender

section

variable {w w' w₀ : Wcb} {es : List Event} {now : Nat} {F : List WcbPack}

/-- The peer conforms: its packs acknowledge only what was sent. -/
def acksSent (w : Wcb) : Event → Bool
  | .arrive p => p.header.ack ≤ w.snd.next
  | _ => true

/-- A tick that sends finds no FIN queued, and the packs that fit into a congestion window do not
bring `snd_info.next` to its end. -/
def sendClear (w : Wcb) : Event → Bool
  | .update _ | .checkSend _ =>
    (w.snd.sending ++ w.snd.sendingStandby).all (fun p => !p.testFlag .fin) &&
      w.snd.next + wcpSndCwndMax / wcpHeaderLen < 2 ^ 32
  | _ => true

/-- Every pack numbered is either in flight or was there, or it waits in the queues, never both; the
order of the numbers is kept. -/
def QueueOk (s : Snd) : Prop :=
  s.hist.numbered.map (fun p => p.content) =
    (s.hist.flown ++ s.sending ++ s.sendingStandby).map (fun p => p.content)

namespace Sender

variable {m : Mode} {F : List WcbPack}

/-- What holds of a tick up to `check_send`; `F` are the packs sent before. -/
structure Ready (F : List WcbPack) (s : Sender) : Prop where
  inStep : InStep F.length s
  flown_eq : s.hist.flown = F
  noFin : NoFin s

theorem Ready.quiet {x : Except Fault Wcb} (h : Ready F w.snd.sender) (hlt : F.length < 2 ^ 32)
    (hm : m.actor ≠ .send) (hu : m.actor ≠ .user) (ha : ∀ a, m.acks a → a ≤ F.length)
    (hx : SndSim m Wcb.snd w.snd.sender x) :
    Ensures (fun w' => Ready F w'.snd.sender) (fun e => e ∉ queueFaults) x := by
  refine hx.ensures (I := Ready F) ?_ h ?_
  · intro v v' hv hs
    exact ⟨hv.inStep.step hs ha fun h => absurd h hm, (hs.flown_eq hm).trans hv.flown_eq, hv.noFin.step hs hu⟩
  · intro v e hv hF
    have hl := congrArg List.length hv.flown_eq
    exact hv.inStep.not_faulty hv.noFin (by omega) (by omega) hF

/-- What holds behind `check_send`. -/
structure Sent (N : Nat) (s : Sender) : Prop where
  inStep : InStep N s
  budget : Budget N s

theorem Ready.sent {s : Sender} (h : Ready F s) : Sent F.length s :=
  ⟨h.inStep, by unfold Budget; rw [h.flown_eq]; exact ⟨Nat.le_refl _, Nat.le_add_right _ _⟩⟩

theorem Ready.checkSend (h : Ready F w.snd.sender) (hN : F.length + wcpSndCwndMax / wcpHeaderLen < 2 ^ 32) :
    Ensures (fun w' => Sent F.length w'.snd.sender) (fun e => e ∉ queueFaults) (checkSend now w) := by
  have hsim : SndSim ⟨.send, w.rcv.next, fun a => a ≤ F.length, true⟩ Wcb.snd w.snd.sender (Wawo.checkSend now w) :=
    checkSend_sim rfl rfl (.inl rfl)
  refine (hsim.ensures (I := fun v => Sent F.length v ∧ NoFin v) ?_ ⟨h.sent, h.noFin⟩ ?_).mono fun _ h => h.1
  · intro v v' ⟨hv, hfin⟩ hs
    exact ⟨⟨hv.inStep.step hs (fun _ h => h) fun _ => hfin, hv.budget.step hv.inStep.bytes hs rfl⟩, hfin.step hs nofun⟩
  · intro v e ⟨hv, hfin⟩ hF
    exact hv.inStep.not_faulty hfin hv.budget.1 (hv.budget.flown_lt hv.inStep.bytes hN) hF

end Sender

/-- The state between two events of such a run. -/
structure SendInv (w : Wcb) : Prop where
  inStep : w.snd.sender.InStep w.snd.hist.flown.length
  acks_le : ∀ p ∈ w.rcv.receivedVecStandby, p.header.ack ≤ w.snd.hist.flown.length
  flown_lt : w.snd.hist.flown.length < 2 ^ 32

theorem SendInv.next_eq (h : SendInv w) : w.snd.next = w.snd.hist.flown.length := by
  have : w.snd.next = w.snd.hist.flown.length % 2 ^ 32 := h.inStep.queue.next_eq
  rw [this, Nat.mod_eq_of_lt h.flown_lt]

theorem checkFlights_ready (h : w.snd.sender.Ready F) (hlt : F.length < 2 ^ 32) :
    Ensures (fun w' : Wcb => w'.snd.sender.Ready F) (fun e => e ∉ Sender.queueFaults) (checkFlights now w) :=
  h.quiet (m := ⟨.flights, w.rcv.next, fun a => a ≤ F.length, true⟩) hlt nofun nofun (fun _ h => h)
    (checkFlights_sim nofun rfl)

theorem checkRecv_ready (h : w.snd.sender.Ready F) (hlt : F.length < 2 ^ 32)
    (ha : ∀ p ∈ w.rcv.receivedVecStandby, p.header.ack ≤ F.length) :
    Ensures (fun w' : Wcb => w'.snd.sender.Ready F) (fun e => e ∉ Sender.queueFaults) (checkRecv now w) :=
  h.quiet (m := ⟨.recv, w.rcv.next, fun a => a ≤ F.length, true⟩) hlt nofun nofun (fun _ h => h)
    (checkRecv_sim rfl ha)

theorem update_sent (h : w.snd.sender.Ready F) (hN : F.length + wcpSndCwndMax / wcpHeaderLen < 2 ^ 32)
    (ha : ∀ p ∈ w.rcv.receivedVecStandby, p.header.ack ≤ F.length) :
    Ensures (fun w' : Wcb => w'.snd.sender.Sent F.length) (fun e => e ∉ Sender.queueFaults) (update now w) := by
  have hlt : F.length < 2 ^ 32 := Nat.lt_of_le_of_lt (Nat.le_add_right _ _) hN
  rcases update_eq now w with ⟨state, errno, -, he⟩ | ⟨-, k, -, he⟩ | ⟨-, he⟩ <;> rw [he]
  · exact h.sent
  · refine Ensures.map (Ensures.bind (checkRecv_ready h hlt ha) fun w₁ h₁ => ?_) fun _ h => h
    exact Ensures.bind (checkFlights_ready h₁ hlt) fun w₂ h₂ => h₂.checkSend hN
  · exact Ensures.bind (checkFlights_ready h hlt) fun w₂ h₂ => h₂.checkSend hN

/-- The packs that arrived are acknowledged up to where they were. -/
theorem SendInv.arrived (h : SendInv w) {e : Event} (hacks : acksSent w e = true) (hstep : step e w = .ok w') :
    ∀ p ∈ w'.rcv.receivedVecStandby, p.header.ack ≤ w.snd.hist.flown.length := by
  have harr : ∀ p, e = .arrive p → p.header.ack ≤ w.snd.hist.flown.length := by
    rintro p rfl
    rw [← h.next_eq]
    simpa [acksSent] using hacks
  refine Simulates.star_inv (I := fun r : Receiver => ∀ p ∈ r.arrived, p.header.ack ≤ w.snd.hist.flown.length) ?_
    h.acks_le (step_receiver h.acks_le harr hstep)
  intro r r' hr hs
  exact hs.arrived hr

/-- An event that launches nothing keeps the invariant. -/
theorem SendInv.quiet {m : Sender.Mode} {e : Event} (h : SendInv w) (hacks : acksSent w e = true) (hm : m.actor ≠ .send)
    (ha : ∀ a, m.acks a → a ≤ w.snd.hist.flown.length) (hsim : SndSim m Wcb.snd w.snd.sender (step e w))
    (hstep : step e w = .ok w') : SendInv w' := by
  have harr := h.arrived hacks hstep
  rw [hstep] at hsim
  obtain ⟨hin, hflown⟩ : w'.snd.sender.InStep w.snd.hist.flown.length ∧ w'.snd.hist.flown = w.snd.hist.flown := by
    refine hsim.inv (I := fun v => v.InStep w.snd.hist.flown.length ∧ v.hist.flown = w.snd.hist.flown) ?_ ⟨h.inStep, rfl⟩
    intro v v' ⟨hv, hf⟩ hs
    exact ⟨hv.step hs ha fun h => absurd h hm, (hs.flown_eq hm).trans hf⟩
  rw [← hflown] at hin harr
  exact ⟨hin, harr, by rw [hflown]; exact h.flown_lt⟩

theorem SendInv.sent {e : Event} (h : SendInv w) (hacks : acksSent w e = true)
    (hN : w.snd.hist.flown.length + wcpSndCwndMax / wcpHeaderLen < 2 ^ 32)
    (hs : w'.snd.sender.Sent w.snd.hist.flown.length) (hstep : step e w = .ok w') : SendInv w' := by
  have hle : w.snd.hist.flown.length ≤ w'.snd.hist.flown.length := hs.budget.1
  obtain ⟨hq, hn, hb, hu⟩ := hs.inStep
  exact ⟨⟨hq, hn, hb, Nat.le_trans hu hle⟩, fun p hp => Nat.le_trans (h.arrived hacks hstep p hp) hle,
    hs.budget.flown_lt hs.inStep.bytes hN⟩

/-- A tick that may send. -/
def Event.sends : Event → Bool
  | .update _ | .checkSend _ => true
  | _ => false

theorem SendInv.tick {e : Event} (h : SendInv w) (hclear : sendClear w e = true) (he : e.sends = true) :
    w.snd.hist.flown.length + wcpSndCwndMax / wcpHeaderLen < 2 ^ 32 ∧
    Ensures (fun w' : Wcb => w'.snd.sender.Sent w.snd.hist.flown.length) (fun f => f ∉ Sender.queueFaults)
      (step e w) := by
  obtain ⟨hfin, hN⟩ : (∀ p ∈ w.snd.sending ++ w.snd.sendingStandby, p.testFlag .fin = false) ∧
      w.snd.next + wcpSndCwndMax / wcpHeaderLen < 2 ^ 32 := by
    cases e <;> cases he <;> simpa [sendClear, or_imp, forall_and] using hclear
  rw [h.next_eq] at hN
  have hready : w.snd.sender.Ready w.snd.hist.flown := ⟨h.inStep, rfl, hfin⟩
  refine ⟨hN, ?_⟩
  cases e with
  | update t => exact update_sent (w := w.prepare t) hready hN h.acks_le
  | checkSend t => exact hready.checkSend (w := w.prepare t) hN
  | _ => cases he

theorem SendInv.step {e : Event} (h : SendInv w) (hacks : acksSent w e = true) (hclear : sendClear w e = true)
    (hstep : step e w = .ok w') : SendInv w' := by
  cases he : e.sends with
  | true =>
    obtain ⟨hN, hs⟩ := h.tick hclear he
    rw [hstep] at hs
    exact h.sent hacks hN hs hstep
  | false =>
    cases hc : e.isCall with
    | true =>
      exact h.quiet (m := ⟨.user, 0, fun a => a ≤ w.snd.hist.flown.length, true⟩) hacks nofun (fun _ h => h)
        (call_sim hc rfl) hstep
    | false =>
      cases e with
      | checkRecv t =>
        exact h.quiet (m := ⟨.recv, w.rcv.next, fun a => a ≤ w.snd.hist.flown.length, true⟩) hacks nofun (fun _ h => h)
          (checkRecv_sim (w := w.prepare t) rfl h.acks_le) hstep
      | checkFlights t =>
        exact h.quiet (m := ⟨.flights, w.rcv.next, fun a => a ≤ w.snd.hist.flown.length, true⟩) hacks nofun (fun _ h => h)
          (checkFlights_sim (w := w.prepare t) nofun rfl) hstep
      | update t => cases he
      | checkSend t => cases he
      | _ => cases hc

theorem SendInv.of_opened (h₀ : Opened w₀) (hsyn : ∀ p ∈ w₀.rcv.receivedVecStandby, p.header.ack ≤ w₀.snd.next) :
    SendInv w₀ := by
  have hb := run_flightBytes h₀ (.nil w₀)
  have hn := run_numbered h₀ (.nil w₀)
  have hq : w₀.snd.sender.Queue := by
    obtain ⟨u, now, rcvCap, sndCap, h | h⟩ := h₀.sender <;> rw [h] <;> exact ⟨rfl, rfl⟩
  obtain ⟨hu, hf, hnext⟩ : w₀.snd.sender.una = 0 ∧ w₀.snd.sender.hist.flown = [] ∧ w₀.snd.sender.next = 0 := by
    obtain ⟨u, now, rcvCap, sndCap, h | h⟩ := h₀.sender <;> rw [h] <;> exact ⟨rfl, rfl, rfl⟩
  have hf : w₀.snd.hist.flown = [] := hf
  have hnext : w₀.snd.next = 0 := hnext
  refine ⟨⟨hq, hn, hb, by rw [hu]; exact Nat.zero_le _⟩, ?_, by rw [hf]; decide⟩
  intro p hp
  have := hsyn p hp
  rw [hnext] at this
  exact Nat.le_trans this (Nat.zero_le _)

/-- In every run with a conforming peer in which no tick finds a FIN queued or comes to the end of
the sequence numbers: a pack leaves the queues exactly when it enters the flight list, and the
assertions of `check_send` on its queue hold. -/
theorem sendQueue (h₀ : Opened w₀) (hsyn : ∀ p ∈ w₀.rcv.receivedVecStandby, p.header.ack ≤ w₀.snd.next)
    (h : Run step (fun w e => acksSent w e = true ∧ sendClear w e = true) w₀ es w) :
    QueueOk w.snd ∧
    ∀ e, e.sends = true → sendClear w e = true →
      step e w ≠ .error .seqNotNext ∧ step e w ≠ .error .seqBelowUna ∧ step e w ≠ .error .finState := by
  have hinv : SendInv w := h.inv SendInv (fun _ _ _ hi hC hs => hi.step hC.1 hC.2 hs) (.of_opened h₀ hsyn)
  refine ⟨hinv.inStep.queue.order, fun e he hclear => ?_⟩
  have hs := (hinv.tick hclear he).2
  refine ⟨?_, ?_, ?_⟩ <;> intro herr <;> rw [herr] at hs <;> exact hs (by decide)

/-- A client sends a byte, the server acknowledges it. -/
def sendOne : List Event :=
  handshake ++ [.send [7], .update (.blocked 3), .update (.at 4), .arrive serverByte, .update (.at 5)]

theorem sendQueue_sendOne : QueueOk (Wcb.connecting.after sendOne).snd ∧
    ∀ t, step (.update t) (Wcb.connecting.after sendOne) ≠ .error .seqNotNext := by
  have hrun : Run step (fun _ _ => True) Wcb.connecting sendOne (Wcb.connecting.after sendOne) :=
    Wcb.run_after (by decide +kernel)
  have hrun : Run step (fun w e => acksSent w e = true ∧ sendClear w e = true) Wcb.connecting sendOne
      (Wcb.connecting.after sendOne) :=
    (hrun.of_meets (P := fun w e => acksSent w e && sendClear w e) (by decide +kernel)).mono
      fun _ _ h => Bool.and_eq_true_iff.1 h
  have hclear : sendClear (Wcb.connecting.after sendOne) (.update (.at 0)) = true := by decide +kernel
  have h := sendQueue opened_connecting (by decide) hrun
  exact ⟨h.1, fun t => (h.2 (.update t) rfl hclear).1⟩

/-- A client that has shut its write side. -/
def Wcb.shut : Wcb := Wcb.connecting.after (handshake ++ [.shutdown .wr])

/-- The tick behind a `shutdown` sends the FIN, leaves it at the head of `snd_sending` and fails on
it in the next round. -/
theorem seqNotNext_of_shutdown :
    Run step (fun w e => acksSent w e = true) Wcb.connecting (handshake ++ [.shutdown .wr]) Wcb.shut ∧
    step (.update (.at 3)) Wcb.shut = .error .seqNotNext := by
  have hrun : Run step (fun _ _ => True) Wcb.connecting (handshake ++ [.shutdown .wr]) Wcb.shut :=
    Wcb.run_after (by decide +kernel)
  exact ⟨hrun.of_meets (by decide +kernel), fault?_eq_some.1 (by decide +kernel)⟩

end

end Wawo
