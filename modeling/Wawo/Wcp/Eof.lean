import Wawo.Wcp.Receiver

/-!
# The end of the stream

A tick of the background thread and the calls of the user interleave: `check_recv` holds `r_mutex`
only around the handling of a FIN and around the swap of the two receive buffers, so a user call can
fall between any two rounds of its delivery loop and before the swap. `micro` splits `check_recv` at
these points (`checkRecv_micro`: run without interruption the parts make up the whole call).

`recv` reports the end of the stream when `rb` is empty and the FIN was taken. The bytes in front of
the FIN may still wait in `rb_standby`; all of them were read if no `recv` comes in while the swap is
due (`eof_complete`).
-/

namespace Wawo

open Lts Relation

/-- Where the background thread is inside `check_recv`. -/
inductive Phase
  | idle
  | delivering (now : Nat) -- in the delivery loop
  | swapping -- behind it
deriving DecidableEq

structure Ticking where
  wcb : Wcb
  phase : Phase

inductive Micro
  | event (e : Event)
  | beginRecv (t : Tick)
  | deliver
  | swap

/-- `check_recv` up to its delivery loop. -/
def beginRecv (t : Tick) (w : Wcb) : Except Fault Ticking :=
  let w := w.prepare t
  let batch := w.rcv.receivedVecStandby
  let w := { w with rcv := { w.rcv with receivedVecStandby := [] } }
  if batch = [] then .ok ⟨checkKeepalive t.now w, .swapping⟩
  else do
    let w ← takeBatch t.now batch w
    return ⟨w, .delivering t.now⟩

/-- One round of the delivery loop. -/
def deliverRound (now : Nat) (w : Wcb) : Except Fault Ticking :=
  match w.rcv.received with
  | [] => .ok ⟨w, .swapping⟩
  | p :: rest => do
    match ← deliverOne now p rest w with
    | (w, .stop) => return ⟨w, .swapping⟩
    | (w, .more) => return ⟨w, .delivering now⟩

/-- The parts of `check_recv` and everything else that can happen; what the background thread is not
ready for leaves the state as it is. -/
def micro : Micro → Ticking → Except Fault Ticking
  | .event e, ⟨w, phase⟩ =>
    if phase = .idle ∨ e.isCall then (step e w).map fun w => ⟨w, phase⟩ else .ok ⟨w, phase⟩
  | .beginRecv t, ⟨w, .idle⟩ => beginRecv t w
  | .deliver, ⟨w, .delivering now⟩ => deliverRound now w
  | .swap, ⟨w, .swapping⟩ => .ok ⟨{ w with rcv := w.rcv.swapRb }, .idle⟩
  | _, s => .ok s

variable {w w' w₀ : Wcb} {s s' : Ticking} {now : Nat} {P : WcbReceivedPack → Prop}

/-! ### The parts make up `check_recv` -/

/-- The phase behind a round of the delivery loop. -/
def Delivery.phase (now : Nat) : Delivery → Phase
  | .stop => .swapping
  | .more => .delivering now

theorem deliverRound_eq {p : WcbReceivedPack} {rest : List WcbReceivedPack} {x : Delivery}
    (hr : w.rcv.received = p :: rest) (ho : deliverOne now p rest w = .ok (w', x)) :
    deliverRound now w = .ok ⟨w', x.phase now⟩ := by
  unfold deliverRound
  rw [hr]
  dsimp only
  rw [ho]
  cases x <;> rfl

theorem deliverLoop_micro {l : List WcbReceivedPack} (hl : w.rcv.received = l) (h : deliverLoop now l w = .ok w') :
    ∃ n, Run micro (fun _ _ => True) ⟨w, .delivering now⟩ (List.replicate n .deliver) ⟨w', .swapping⟩ := by
  induction l generalizing w with
  | nil =>
    have hround : deliverRound now w = .ok ⟨w, .swapping⟩ := by unfold deliverRound; rw [hl]
    cases h
    exact ⟨1, .cons trivial hround (.nil _)⟩
  | cons p rest ih =>
    unfold deliverLoop at h
    obtain ⟨⟨w₁, x⟩, ho, h⟩ := bind_eq_ok.1 h
    have hround := deliverRound_eq hl ho
    cases x with
    | stop =>
      cases h
      exact ⟨1, .cons trivial hround (.nil _)⟩
    | more =>
      have hrest := (deliverOne_receiver (P := fun _ => True) hl ho).2 rfl
      obtain ⟨n, hrun⟩ := ih hrest h
      exact ⟨n + 1, .cons trivial hround hrun⟩

/-- A whole `check_recv` is a run of its parts. -/
theorem checkRecv_micro (t : Tick) (h : checkRecv t.now (w.prepare t) = .ok w') :
    ∃ n, Run micro (fun _ _ => True) ⟨w, .idle⟩ (.beginRecv t :: (List.replicate n .deliver ++ [.swap])) ⟨w', .idle⟩ := by
  have hswap : ∀ w₁, Run micro (fun _ _ => True) ⟨w₁, .swapping⟩ [.swap]
      ⟨{ w₁ with rcv := w₁.rcv.swapRb }, .idle⟩ := fun w₁ => .cons trivial rfl (.nil _)
  obtain ⟨w₁, rfl, ⟨hnil, rfl⟩ | ⟨hne, w₂, ht, hl⟩⟩ := checkRecv_cases h
  · refine ⟨0, .cons trivial ?_ (hswap _)⟩
    show beginRecv t w = _
    unfold beginRecv
    dsimp only
    rw [if_pos hnil]
    rfl
  · obtain ⟨n, hrun⟩ := deliverLoop_micro rfl hl
    refine ⟨n, .cons trivial ?_ (hrun.append (hswap _))⟩
    show beginRecv t w = _
    unfold beginRecv
    dsimp only
    rw [if_neg hne]
    exact bind_eq_ok.2 ⟨w₂, ht, rfl⟩

/-! ### The log of the receiver -/

/-- The stream is the payload of the packs consumed, which are those numbered 0, 1, 2, … -/
structure Receiver.Log (r : Receiver) : Prop where
  stream_eq : r.stream = r.consumed.flatMap (fun p => p.data)
  next_eq : r.next = r.consumed.length % 2 ^ 32
  seqs : r.consumed.map (fun p => p.seq) = (List.range r.consumed.length).map (· % 2 ^ 32)
  fin : r.finReceived = true → ∃ p ∈ r.consumed, p.testFlag .fin = true

theorem Receiver.Log.consume {r : Receiver} {p : WcbReceivedPack} (h : Log r) (hn : p.seq = r.next)
    (received : List WcbReceivedPack) {fin : Bool} (hfin : fin = r.finReceived ∨ p.testFlag .fin = true) :
    Log (r.consume p received fin) := by
  have hnext := h.next_eq
  refine ⟨?_, ?_, ?_, ?_⟩
  · show r.stream ++ p.data = (r.consumed ++ [p]).flatMap _
    rw [h.stream_eq]; simp
  · show u32 (r.next + 1) = (r.consumed ++ [p]).length % 2 ^ 32
    rw [u32, hnext, List.length_append, List.length_singleton]; omega
  · show (r.consumed ++ [p]).map _ = (List.range (r.consumed ++ [p]).length).map _
    rw [List.map_append, h.seqs, List.length_append, List.length_singleton, List.range_succ, List.map_append]
    simp [hn, hnext]
  · intro hf
    rcases hfin with hfin | hfin
    · obtain ⟨q, hq, hqf⟩ := h.fin (hfin ▸ hf)
      exact ⟨q, List.mem_append_left _ hq, hqf⟩
    · exact ⟨p, by simp [Receiver.consume], hfin⟩

theorem Receiver.Log.step {r r' : Receiver} (h : Log r) (hs : Receiver.Step P r r') : Log r' := by
  cases hs with
  | consume p rest fin _ hn hfin => exact h.consume hn rest hfin
  | consumeRst p rest _ hn _ => exact h.consume hn _ (.inl rfl)
  | _ => exact ⟨h.stream_eq, h.next_eq, h.seqs, h.fin⟩

theorem Opened.receiver_log (h : Opened w) : w.rcv.receiver.Log := by
  cases h with
  | active u now rcvCap sndCap addr w h =>
    unfold connect at h
    split_ifs at h
    cases h
    exact ⟨rfl, rfl, rfl, nofun⟩
  | passive u now rcvCap sndCap synpack _ _ => exact ⟨rfl, rfl, rfl, nofun⟩

theorem micro_receiver {e : Micro} (h : micro e s = .ok s') :
    ReflTransGen (Receiver.Step (fun _ => True)) s.wcb.rcv.receiver s'.wcb.rcv.receiver := by
  obtain ⟨w, phase⟩ := s
  cases e with
  | event e =>
    have h : (if phase = .idle ∨ e.isCall = true then (step e w).map (fun w => ⟨w, phase⟩)
        else .ok ⟨w, phase⟩) = .ok s' := h
    split_ifs at h
    · obtain ⟨w₁, hs, rfl⟩ := map_eq_ok.1 h
      exact step_receiver (fun _ _ => trivial) (fun _ _ => trivial) hs
    · cases h; exact .refl
  | beginRecv t =>
    cases phase with
    | idle =>
      have h : beginRecv t w = .ok s' := h
      unfold beginRecv at h
      dsimp only at h
      refine .head .take ?_
      split_ifs at h
      · cases h
        show ReflTransGen _ _ (checkKeepalive t.now _).rcv.receiver
        rw [checkKeepalive_receiver]
        exact .refl
      · obtain ⟨w₁, ht, h⟩ := bind_eq_ok.1 h
        cases h
        exact takeBatch_receiver (fun _ _ => trivial) ht
    | _ => cases h; exact .refl
  | deliver =>
    cases phase with
    | delivering now =>
      have h : deliverRound now w = .ok s' := h
      unfold deliverRound at h
      split at h
      · cases h; exact .refl
      · rename_i p rest hr
        obtain ⟨⟨w₁, x⟩, ho, h⟩ := bind_eq_ok.1 h
        have hsteps := (deliverOne_receiver (P := fun _ => True) hr ho).1
        cases x <;> cases h <;> exact hsteps
    | _ => cases h; exact .refl
  | swap =>
    cases phase with
    | swapping =>
      cases h
      show ReflTransGen _ _ w.rcv.swapRb.receiver
      rw [swapRb_receiver]
    | _ => cases h; exact .refl

/-! ### What an end of stream means -/

/-- `rb->count() == 0 && rb_standby->count() != 0`: `check_recv` is about to swap the buffers. -/
def Rcv.swapDue (r : Rcv) : Prop := r.rb.count = 0 ∧ r.rbStandby.count ≠ 0

instance (r : Rcv) : Decidable r.swapDue := inferInstanceAs (Decidable (_ ∧ _))

/-- Once the FIN was taken, `recv` is not called while the swap is due. -/
def WaitsForSwap (s : Ticking) : Micro → Prop
  | .event (.recv _) => ¬ (s.wcb.rcv.remoteFinReceived = true ∧ s.wcb.rcv.swapDue)
  | _ => True

instance (s : Ticking) : (e : Micro) → Decidable (WaitsForSwap s e)
  | .event (.recv _) => inferInstanceAs (Decidable (¬ (_ ∧ _)))
  | .event (.send _) | .event (.shutdown _) | .event .close | .event (.setfl _) | .event (.arrive _)
  | .event (.update _) | .event (.checkRecv _) | .event (.checkFlights _) | .event (.checkSend _)
  | .beginRecv _ | .deliver | .swap => isTrue trivial

/-- The peer's FIN was taken in sequence, and every payload byte of every pack in front of it was
returned to the user. -/
structure EofComplete (w : Wcb) : Prop where
  seqs : w.rcv.hist.consumed.map (fun p => p.seq) =
    (List.range w.rcv.hist.consumed.length).map (· % 2 ^ 32)
  fin : ∃ p ∈ w.rcv.hist.consumed, p.testFlag .fin = true
  returned : ∀ pre p post, w.rcv.hist.consumed = pre ++ p :: post → p.testFlag .fin = true →
    pre.flatMap (fun q => q.data) <+: w.rcv.hist.returned

theorem recv_eof {size : Nat} (h : recv size w = .ok (.eof, w')) :
    w.rcv.rb.count = 0 ∧ w.rcv.remoteFinReceived = true := by
  unfold recv at h
  split_ifs at h with h1 h2 h3 h4 h5 <;> cases h
  exact ⟨by omega, h4⟩

/-- In every run in which `recv` is not called while a swap is due behind a FIN, `recv` reports the end
of the stream only after it has returned everything in front of the FIN. -/
theorem eof_complete {es : List Micro} {size : Nat} (h₀ : Opened w₀)
    (h : Run micro WaitsForSwap ⟨w₀, .idle⟩ es s) (hwait : WaitsForSwap s (.event (.recv size)))
    (heof : recv size s.wcb = .ok (.eof, w')) : EofComplete s.wcb := by
  have hlog : s.wcb.rcv.receiver.Log := by
    refine h.inv (fun s => s.wcb.rcv.receiver.Log) (fun s e s' hs _ hm => ?_) h₀.receiver_log
    exact Simulates.star_inv (fun _ _ hl hs => hl.step hs) hs (micro_receiver hm)
  obtain ⟨hrb, hfin⟩ := recv_eof heof
  have hstandby : s.wcb.rcv.rbStandby.count = 0 := by
    by_contra hne
    exact hwait ⟨hfin, hrb, hne⟩
  have hreturned : s.wcb.rcv.hist.returned = s.wcb.rcv.hist.consumed.flatMap (fun p => p.data) := by
    have hs : s.wcb.rcv.hist.returned ++ s.wcb.rcv.rb.items ++ s.wcb.rcv.rbStandby.items = _ := hlog.stream_eq
    rw [BoundedQueue.count_eq_zero] at hrb hstandby
    rwa [hrb, hstandby, List.append_nil, List.append_nil] at hs
  refine ⟨hlog.seqs, hlog.fin hfin, fun pre p post hc _ => ?_⟩
  rw [hreturned, hc, List.flatMap_append]
  exact List.prefix_append _ _

/-- A FIN of the server, as the client receives it. -/
def serverFin (seq : Nat) : WcbReceivedPack :=
  ⟨(Datagram.fresh seq .fin [] (Nat.zero_le _)).stamp 1 (2 * wcpRcvBufferMin), ⟨2⟩⟩

/-- A byte arrives and is read, then the FIN arrives. -/
def readThenFin : List Event :=
  handshake ++ [.arrive serverByte, .update (.at 3), .recv 1, .arrive (serverFin 2),
    .update (.at 4)]

/-- A second byte and the FIN arrive before the first byte is read. -/
def finThenRead : List Event :=
  handshake ++ [.arrive serverByte, .update (.at 3),
    .arrive (serverData 2 [9] (by decide)), .arrive (serverFin 3), .update (.at 4), .recv 1]

/-- The bytes are read when `recv` reports the FIN. -/
theorem eof_complete_read : EofComplete (Wcb.connecting.after readThenFin) := by
  have hrun : Run micro WaitsForSwap ⟨Wcb.connecting, .idle⟩ (readThenFin.map .event)
      ⟨Wcb.connecting.after readThenFin, .idle⟩ :=
    .cons trivial rfl (.cons trivial rfl (.cons trivial rfl (.cons trivial rfl (.cons trivial rfl
      (.cons (by decide) rfl (.cons trivial rfl (.cons trivial rfl (.nil _))))))))
  have hwait : WaitsForSwap ⟨Wcb.connecting.after readThenFin, .idle⟩ (.event (.recv 1)) := by decide
  exact eof_complete opened_connecting hrun hwait rfl

/-- A byte waits in `rb_standby` in front of the FIN while the user drains `rb`: the next `recv`
reports the end of the stream, and the byte is unread. -/
theorem eof_before_swap : ∃ es s w', Run micro (fun _ _ => True) ⟨Wcb.connecting, .idle⟩ es s ∧
    recv 1 s.wcb = .ok (.eof, w') ∧ ¬ EofComplete s.wcb := by
  refine ⟨finThenRead.map .event, ⟨Wcb.connecting.after finThenRead, .idle⟩, _,
    Run.of_exec (fun _ _ => trivial) rfl, rfl, ?_⟩
  intro h
  have hpre := h.returned [synSynAckPack, serverByte, serverData 2 [9] (by decide)] (serverFin 3) []
    rfl (by decide)
  exact absurd hpre (by decide)

end Wawo
