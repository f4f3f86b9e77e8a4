import Mathlib.Order.Interval.Finset.Nat
import Wawo.Wcp.Flights
import Wawo.Wcp.States

/-!
# Flow control

`check_send` compares the receiver's window with `snd_nflight_bytes`, the bytes of the packs in
`snd_flights`. A SACK takes a pack out of `snd_flights` although the receiver still holds it, so the packs
between `una` and `next` may be more than the window. `NoHoles` says that no SACK has done so; then the
window is kept (`Launch`, `flow_control`).
-/

namespace Wawo

open Lts Relation

/-- What flow control is about. -/
structure Flow where
  una : Nat
  next : Nat
  rwnd : Nat
  nflight : Nat
  flights : List WcbPack
  flown : List WcbPack

def Snd.flow (s : Snd) : Flow := ⟨s.una, s.next, s.rwnd, s.nflightBytes, s.flights, s.hist.flown⟩

namespace Flow

variable {f f' : Flow} {k : Nat}

/-- The pack last sent under the number `k`. -/
def sent (f : Flow) (k : Nat) : Option WcbPack := f.flown.reverse.find? fun p => p.seq == k

def size (f : Flow) (k : Nat) : Nat := ((f.sent k).map fun p => p.totalBytes).getD 0

/-- The total size of the packs with `una <= seq < next`. -/
def windowBytes (f : Flow) : Nat := ∑ k ∈ Finset.Ico f.una f.next, f.size k

/-- The pack sent under the number `k` is in `snd_flights`. -/
def InFlight (f : Flow) (k : Nat) : Prop := ∀ p, f.sent k = some p → ∃ q ∈ f.flights, q.content = p.content

/-- The packs with `una <= seq < next` are all in `snd_flights`. -/
def NoHoles (f : Flow) : Prop := ∀ k, f.una ≤ k → k < f.next → f.InFlight k

instance (f : Flow) (k : Nat) : Decidable (f.InFlight k) :=
  decidable_of_iff (∀ p ∈ (f.sent k).toList, ∃ q ∈ f.flights, q.content = p.content) (by simp [InFlight])

instance (f : Flow) : Decidable f.NoHoles :=
  decidable_of_iff (∀ k < f.next, f.una ≤ k → f.InFlight k) ⟨fun h k hu hk => h k hk hu, fun h k hk hu => h k hu hk⟩

/-- What `check_send` does when it transmits. -/
inductive Launch (f : Flow) : Flow → Prop
  | mk (p : WcbPack) (hseq : p.seq = f.next) (hw : u32 (f.nflight + p.totalBytes) < f.rwnd) :
      Launch f { f with
        next := u32 (f.next + 1), nflight := u32 (f.nflight + p.totalBytes), flights := f.flights ++ [p]
        flown := f.flown ++ [p] }

theorem seq_of_sent {p : WcbPack} (h : f.sent k = some p) : p.seq = k := by
  simpa using List.find?_some h

theorem NoHoles.launch (h : NoHoles f) (hl : Launch f f') : NoHoles f' := by
  obtain ⟨p, hseq, hw⟩ := hl
  intro k hu hk q hq
  have hk : k < f.next + 1 := Nat.lt_of_lt_of_le hk (Nat.mod_le _ _)
  have hq : (p :: f.flown.reverse).find? (fun x => x.seq == k) = some q := by
    simpa only [sent, List.reverse_append, List.reverse_singleton, List.singleton_append] using hq
  rw [List.find?_cons] at hq
  split at hq
  · cases hq; exact ⟨p, by simp, rfl⟩
  · rename_i hne
    have hne : p.seq ≠ k := by simpa using hne
    obtain ⟨x, hx, hc⟩ := h k hu (by omega) q hq
    exact ⟨x, by simp [hx], hc⟩

/-- Behind a number of transmissions: the window is as it was, and the last pack fitted. -/
theorem NoHoles.launches (h : NoHoles f) (hl : ReflTransGen Launch f f') :
    NoHoles f' ∧ f'.una = f.una ∧ f'.rwnd = f.rwnd ∧ (f' = f ∨ f'.nflight < f'.rwnd) := by
  induction hl with
  | refl => exact ⟨h, rfl, rfl, .inl rfl⟩
  | tail _ hl ih =>
    obtain ⟨hn, hu, hr, -⟩ := ih
    refine ⟨hn.launch hl, ?_⟩
    obtain ⟨p, -, hw⟩ := hl
    exact ⟨hu, hr, .inr hw⟩

theorem NoHoles.windowBytes_le (h : NoHoles f) : f.windowBytes ≤ Sender.bytes f.flights := by
  refine SeqList.sum_le_weight (fun p : WcbPack => p.seq) (fun p => p.totalBytes) f.size f.flights _ fun k hk hne => ?_
  obtain ⟨hu, hk⟩ := Finset.mem_Ico.1 hk
  unfold size at hne ⊢
  cases hs : f.sent k with
  | none => rw [hs] at hne; exact absurd rfl hne
  | some p =>
    obtain ⟨q, hq, hc⟩ := h k hu hk p hs
    exact ⟨q, hq, (Datagram.seq_of_content hc).trans (seq_of_sent hs), le_of_eq (Datagram.totalBytes_of_content hc).symm⟩

/-- What a receiver that has not got beyond `una` can hold in `rcv_received`: packs of different numbers
between `una` and `next`, as they were sent. -/
structure Holds (f : Flow) (received : List WcbReceivedPack) : Prop where
  sorted : received.Pairwise fun p q => p.seq < q.seq
  una_le : ∀ p ∈ received, f.una ≤ p.seq
  lt_next : ∀ p ∈ received, p.seq < f.next
  sent : ∀ p ∈ received, ∃ q, f.sent p.seq = some q ∧ p.content = q.content

theorem Holds.bytes_le {received : List WcbReceivedPack} (h : Holds f received) :
    (received.map fun p => p.totalBytes).sum ≤ f.windowBytes := by
  have hnd : (received.map fun p => p.seq).Nodup := List.nodup_iff_pairwise_ne.2
    (List.pairwise_map.2 (h.sorted.imp fun hlt => Nat.ne_of_lt hlt))
  have hsize : received.map (fun p => p.totalBytes) = (received.map fun p => p.seq).map f.size := by
    rw [List.map_map]
    refine List.map_congr_left fun p hp => ?_
    obtain ⟨q, hq, hc⟩ := h.sent p hp
    show p.totalBytes = f.size p.seq
    rw [size, hq]
    exact Datagram.totalBytes_of_content hc
  rw [hsize, ← List.sum_toFinset _ hnd]
  refine Finset.sum_le_sum_of_subset fun k hk => ?_
  obtain ⟨p, hp, rfl⟩ := List.mem_map.1 (List.mem_toFinset.1 hk)
  exact Finset.mem_Ico.2 ⟨h.una_le p hp, h.lt_next p hp⟩

end Flow

section

variable {now : Nat} {w w' w₀ v v' : Wcb} {es : List Event}

/-! ### `check_send` -/

theorem flow_noteSendError (w : Wcb) (rt : Int) : (noteSendError w rt).snd.flow = w.snd.flow := by
  unfold noteSendError; split_ifs <;> rfl

theorem flow_packageLoop (n nmax : Nat) (s : Snd) : (Snd.packageLoop n nmax s).flow = s.flow := by
  induction n generalizing nmax s with
  | zero => rfl
  | succ n ih =>
    unfold Snd.packageLoop
    split_ifs
    · exact (ih _ _).trans rfl
    · rfl

theorem flow_refill (s : Snd) : s.refill.flow = s.flow := by
  unfold Snd.refill
  dsimp only
  split_ifs
  · exact (flow_packageLoop _ _ _).trans rfl
  · rfl

theorem sendCtlOne_flow {d : Datagram} {c : Wcb × SendExit} (h : sendCtlOne d w = .ok c) : c.1.snd.flow = w.snd.flow := by
  unfold sendCtlOne at h
  obtain ⟨⟨rt, d', w₁⟩, hs, h⟩ := bind_eq_ok.1 h
  have hflow : w₁.snd.flow = w.snd.flow := by
    obtain ⟨-, -, -, ⟨-, he⟩ | ⟨-, he⟩⟩ := sendPack_cases hs
    · rw [he]; rfl
    · rw [he]
  dsimp only at h
  split_ifs at h
  · cases h; exact (flow_noteSendError w₁ rt).trans hflow
  · cases h; exact hflow

theorem afterLaunch_flow {p : WcbPack} {rest : List WcbPack} {c : Wcb × SendExit}
    (h : afterLaunch now p rest w = .ok c) : c.1.snd.flow = w.snd.flow := by
  rcases afterLaunch_cases h with ⟨hf, -⟩ | ⟨-, -, -, hs, -⟩
  · unfold afterLaunch at h
    rw [if_pos hf] at h
    split at h <;> cases h <;> rfl
  · rw [hs]; rfl

theorem transmitOne_flow {p : WcbPack} {rest : List WcbPack} {c : Wcb × SendExit}
    (h : transmitOne now p rest w = .ok c) : c.1.snd.flow = w.snd.flow ∨ Flow.Launch w.snd.flow c.1.snd.flow := by
  rcases transmitOne_cases h with rfl | ⟨rt, d, w₁, hs, rfl⟩ | ⟨d, w₁, hs, hw, hseq, -, ha⟩
  · exact .inl rfl
  · refine .inl ((flow_noteSendError _ rt).trans ?_)
    obtain ⟨-, -, -, ⟨-, he⟩ | ⟨-, he⟩⟩ := sendPack_cases hs
    · rw [Wcb.setSnd_snd, he]; rfl
    · rw [Wcb.setSnd_snd, he]; rfl
  · right
    obtain ⟨rfl, -, -, ⟨-, he⟩ | ⟨hne, -⟩⟩ := sendPack_cases hs
    · rw [afterLaunch_flow ha, Wcb.setSnd_snd, he]
      have hq : (p.stamp w.rcv.next w.rcv.wnd).totalBytes = p.totalBytes := rfl
      refine .mk ⟨p.stamp w.rcv.next w.rcv.wnd, now, 1⟩ hseq ?_
      show u32 (w.snd.nflightBytes + (p.stamp w.rcv.next w.rcv.wnd).totalBytes) < w.snd.rwnd
      rw [hq, Nat.add_comm]
      exact Nat.lt_of_lt_of_le hw (Nat.min_le_right _ _)
    · exact absurd rfl hne

theorem checkSend_flow (h : checkSend now w = .ok w') : ReflTransGen Flow.Launch w.snd.flow w'.snd.flow := by
  refine SendRule.checkSend (I := fun v => ReflTransGen Flow.Launch w.snd.flow v.snd.flow) ⟨?_, ?_, ?_, ?_⟩ .refl h
  · intro v hv
    have he : (checkRwnd now v).snd.flow = v.snd.flow := by
      unfold checkRwnd Snd.pushWnd
      split_ifs
      · dsimp only; split <;> rfl
      · rfl
    rw [he]
    exact hv
  · intro v d c hv hc
    rw [sendCtlOne_flow hc]
    exact hv
  · intro v q l c hv _ hc
    rcases transmitOne_flow hc with he | hl
    · rw [he]; exact hv
    · exact hv.tail hl
  · intro v hv
    rw [Wcb.setSnd_snd, flow_refill]
    exact hv

/-- If packs are transmitted between `w` and `w'`, the window is kept: the packs with
`una <= seq < next`, the new ones included, and whatever of them the receiver holds, are at most `rwnd`
bytes. -/
def FlowControlled (w w' : Wcb) : Prop :=
  w'.snd.hist.flown ≠ w.snd.hist.flown →
    w'.snd.flow.windowBytes ≤ w'.snd.rwnd ∧
    ∀ received, w'.snd.flow.Holds received → (received.map fun p => p.totalBytes).sum ≤ w'.snd.rwnd

theorem checkSend_flowControlled (hb : v.snd.sender.FlightBytes) (hn : v.snd.flow.NoHoles)
    (h : checkSend now v = .ok v') : FlowControlled v v' := by
  intro hne
  have hb' : v'.snd.sender.FlightBytes := by
    have hs : WcbSim v (checkSend now v) := checkSend_any
    rw [h] at hs
    exact Simulates.star_inv (fun _ _ hv ⟨_, hs⟩ => hv.step hs) hb hs
  obtain ⟨hn', -, -, he | hlt⟩ := hn.launches (checkSend_flow h)
  · exact absurd (congrArg Flow.flown he) hne
  · have hle : v'.snd.flow.windowBytes ≤ v'.snd.rwnd :=
      calc v'.snd.flow.windowBytes ≤ Sender.bytes v'.snd.flights := hn'.windowBytes_le
        _ = v'.snd.nflightBytes := hb'.nflight_eq.symm
        _ ≤ v'.snd.rwnd := Nat.le_of_lt hlt
    exact ⟨hle, fun received hr => hr.bytes_le.trans hle⟩

/-! ### Runs -/

/-- `update` gets to `check_send`. -/
def Wcb.updateSends (now : Nat) (w : Wcb) : Bool :=
  match w.state with
  | .closed | .listen | .recycle | .timeWait => false
  | .syning | .lastAck => true
  | .synSent => ¬ subU64 now w.timerState ≥ wcpSynMaxTime
  | .synReceived | .established | .closeWait => w.wcbErrno = 0
  | .finWait1 | .closing | .finWait2 => ¬ (w.wcbErrno ≠ 0 ∨ subU64 now w.timerState ≥ wcpFinMaxTime)

/-- What `update` does before `check_send`. -/
def beforeSend (now : Nat) (w : Wcb) : Except Fault Wcb :=
  if w.state = .syning then checkFlights now w else checkRecv now w >>= checkFlights now

/-- The event calls `check_send(now)` in the state `v`. -/
inductive CallsSend : Event → Wcb → Nat → Wcb → Prop
  | checkSend (t : Tick) (w : Wcb) : CallsSend (.checkSend t) w t.now (w.prepare t)
  | update (t : Tick) {w v : Wcb} (hs : (w.prepare t).updateSends t.now = true)
      (hv : beforeSend t.now (w.prepare t) = .ok v) : CallsSend (.update t) w t.now v

theorem update_updateSends (h : update now w = .ok w') :
    w.updateSends now = true ∧ (∃ v v', beforeSend now w = .ok v ∧ checkSend now v = .ok v' ∧ w'.snd = v'.snd) ∨
      w'.snd = w.snd := by
  have hall : ∀ {w'}, w.state ≠ .syning → checkAll now w = .ok w' →
      ∃ v, beforeSend now w = .ok v ∧ checkSend now v = .ok w' := by
    intro w' hst hc
    obtain ⟨u, hu, hc⟩ := bind_eq_ok.1 hc
    obtain ⟨v, hv, hc⟩ := bind_eq_ok.1 hc
    exact ⟨v, by rw [beforeSend, if_neg hst]; exact bind_eq_ok.2 ⟨u, hu, hv⟩, hc⟩
  unfold update at h
  unfold Wcb.updateSends
  cases hst : w.state <;> rw [hst] at h <;> dsimp only at h ⊢
  case closed => cases h; right; split_ifs <;> rfl
  case listen => cases h; exact .inr rfl
  case recycle => cases h; exact .inr rfl
  case timeWait => cases h; right; split_ifs <;> rfl
  case syning =>
    obtain ⟨v, hv, h⟩ := bind_eq_ok.1 h
    exact .inl ⟨rfl, v, w', by rw [beforeSend, if_pos hst]; exact hv, h, rfl⟩
  case lastAck =>
    obtain ⟨u, hu, h⟩ := bind_eq_ok.1 h
    obtain ⟨v, hv, hs⟩ := hall (by rw [hst]; exact nofun) hu
    refine .inl ⟨rfl, v, u, hv, hs, ?_⟩
    cases h
    split_ifs <;> rfl
  all_goals
    split_ifs at h with hc
    · cases h; exact .inr rfl
    · obtain ⟨v, hv, hs⟩ := hall (by rw [hst]; exact nofun) h
      exact .inl ⟨by simpa using hc, v, w', hv, hs, rfl⟩

theorem flown_of_sim {α : Type} (m : Sender.Mode) (get : α → Snd) {a : α} (hm : m.actor ≠ .send)
    (h : SndSim m get w.snd.sender (.ok a)) : (get a).hist.flown = w.snd.hist.flown :=
  Simulates.star_inv (I := fun v : Sender => v.hist.flown = w.snd.hist.flown)
    (fun _ _ hv hs => (hs.flown_eq hm).trans hv) rfl h

theorem checkRecv_flown (h : checkRecv now w = .ok w') : w'.snd.hist.flown = w.snd.hist.flown :=
  flown_of_sim (.any .recv w.rcv.next) Wcb.snd nofun (h ▸ checkRecv_sim rfl fun _ _ => trivial)

theorem checkFlights_flown (h : checkFlights now w = .ok w') : w'.snd.hist.flown = w.snd.hist.flown :=
  flown_of_sim (.any .flights w.rcv.next) Wcb.snd nofun (h ▸ checkFlights_sim nofun rfl)

theorem beforeSend_flown (h : beforeSend now w = .ok w') : w'.snd.hist.flown = w.snd.hist.flown := by
  unfold beforeSend at h
  split_ifs at h
  · exact checkFlights_flown h
  · obtain ⟨u, hu, hf⟩ := bind_eq_ok.1 h
    exact (checkFlights_flown hf).trans (checkRecv_flown hu)

theorem beforeSend_flightBytes (hb : w.snd.sender.FlightBytes) (h : beforeSend now w = .ok w') :
    w'.snd.sender.FlightBytes := by
  have hinv : ∀ {v v' : Wcb} {x : Except Fault Wcb}, WcbSim v x → x = .ok v' → v.snd.sender.FlightBytes →
      v'.snd.sender.FlightBytes := by
    rintro v v' x hx rfl hv
    exact Simulates.star_inv (fun _ _ hv ⟨_, hs⟩ => hv.step hs) hv hx
  unfold beforeSend at h
  split_ifs at h
  · exact hinv checkFlights_any h hb
  · obtain ⟨u, hu, hf⟩ := bind_eq_ok.1 h
    exact hinv checkFlights_any hf (hinv checkRecv_any hu hb)

theorem step_flowControlled {e : Event} (hb : w.snd.sender.FlightBytes)
    (hn : ∀ now v, CallsSend e w now v → v.snd.flow.NoHoles) (h : step e w = .ok w') : FlowControlled w w' := by
  cases hc : e.isCall with
  | true =>
    have hflown := flown_of_sim (.any .user 0) Wcb.snd nofun (h ▸ call_sim hc rfl)
    exact fun hne => absurd hflown hne
  | false =>
    cases e with
    | checkRecv t => exact fun hne => absurd (checkRecv_flown (w := w.prepare t) h) hne
    | checkFlights t => exact fun hne => absurd (checkFlights_flown (w := w.prepare t) h) hne
    | checkSend t => exact checkSend_flowControlled (v := w.prepare t) hb (hn t.now _ (.checkSend t w)) h
    | update t =>
      rcases update_updateSends (w := w.prepare t) h with ⟨hs, v, v', hv, hsend, he⟩ | he
      · have hflown : v.snd.hist.flown = w.snd.hist.flown := beforeSend_flown (w := w.prepare t) hv
        have hctl := checkSend_flowControlled (beforeSend_flightBytes (w := w.prepare t) hb hv)
          (hn t.now v (.update t hs hv)) hsend
        unfold FlowControlled at hctl ⊢
        rw [he, ← hflown]
        exact hctl
      · exact fun hne => absurd (congrArg (fun s : Snd => s.hist.flown) he) hne
    | _ => cases hc

/-- In a run in which `check_send` never starts while a pack between `una` and `next` is gone from
`snd_flights`, every step that transmits keeps to the receiver's window. -/
theorem flow_control (h₀ : Opened w₀)
    (h : Run step (fun w e => ∀ now v, CallsSend e w now v → v.snd.flow.NoHoles) w₀ es w) :
    Run step (fun w e => ∀ w', step e w = .ok w' → FlowControlled w w') w₀ es w := by
  have hb : ∀ {es w}, Run step (fun w e => ∀ now v, CallsSend e w now v → v.snd.flow.NoHoles) w₀ es w →
      w.snd.sender.FlightBytes := fun hr => run_flightBytes h₀ (hr.mono fun _ _ _ => trivial)
  exact h.strengthen hb fun hb hn w' hs => step_flowControlled hb hn hs

end

/-! ### A window of 50 bytes -/

/-- The server acknowledges the handshake and leaves room for 50 bytes. -/
def smallWnd : WcbReceivedPack := ⟨(Datagram.fresh 1 .wnd [] (Nat.zero_le _)).stamp 2 50, ⟨2⟩⟩

/-- The server has the second of the client's packs, but not the first. -/
def sackSecond : WcbReceivedPack := ⟨(Datagram.fresh 1 .sack (writeU32 3) (by decide)).stamp 2 50, ⟨2⟩⟩

/-- The client has sent two packs of 17 bytes, and a third byte waits in `sb`. -/
def twoInFlight : List Event :=
  handshake ++ [.arrive smallWnd, .send [1], .update (.at 3), .send [2], .update (.at 4), .send [3]]

/-- The event is an `update` that calls `check_send`, if at all, without a hole. -/
def sendsWithoutHoles (w : Wcb) : Event → Bool
  | .update t =>
    match beforeSend t.now (w.prepare t) with
    | .ok v => decide v.snd.flow.NoHoles
    | .error _ => true
  | .checkSend _ => false
  | _ => true

theorem flow_control_twoInFlight :
    Run step (fun w e => ∀ w', step e w = .ok w' → FlowControlled w w') Wcb.connecting twoInFlight
      (Wcb.connecting.after twoInFlight) := by
  have hrun : Run step (fun _ _ => True) Wcb.connecting twoInFlight (Wcb.connecting.after twoInFlight) :=
    Wcb.run_after (by decide +kernel)
  have hmeets := hrun.of_meets (P := sendsWithoutHoles) (by decide +kernel)
  refine flow_control opened_connecting (hmeets.mono fun w e he now v hc => ?_)
  cases hc with
  | checkSend t => cases he
  | update t _ hv =>
    unfold sendsWithoutHoles at he
    dsimp only at he
    rw [hv] at he
    exact of_decide_eq_true he

/-- The SACK takes the second pack out of `snd_flights`; the third is sent, and the packs from `una` on,
which the server has to hold, are 51 bytes. -/
theorem window_exceeded :
    ∃ w w', Run step (fun _ _ => True) Wcb.connecting (twoInFlight ++ [.arrive sackSecond]) w ∧
      step (.update (.at 5)) w = .ok w' ∧ ¬ FlowControlled w w' := by
  have hrun : Run step (fun _ _ => True) Wcb.connecting (twoInFlight ++ [.arrive sackSecond])
      (Wcb.connecting.after (twoInFlight ++ [.arrive sackSecond])) := Wcb.run_after (by decide +kernel)
  have hover : reaches step (fun w' => w'.snd.hist.flown.length = 5 ∧ w'.snd.flow.windowBytes = 51 ∧ w'.snd.rwnd = 50)
      [.update (.at 5)] (Wcb.connecting.after (twoInFlight ++ [.arrive sackSecond])) = true := by decide +kernel
  have hlen : (Wcb.connecting.after (twoInFlight ++ [.arrive sackSecond])).snd.hist.flown.length = 4 := by
    decide +kernel
  obtain ⟨w', hs, hw'⟩ := Run.of_reaches _ _ hover
  obtain ⟨hfive, hbytes, hrwnd⟩ := of_decide_eq_true hw'
  cases hs with
  | cons _ hs hnil =>
    cases hnil
    refine ⟨_, w', hrun, hs, fun hf => ?_⟩
    have hne : w'.snd.hist.flown ≠ (Wcb.connecting.after (twoInFlight ++ [.arrive sackSecond])).snd.hist.flown := by
      intro he
      rw [he, hlen] at hfive
      cases hfive
    have hle := (hf hne).1
    omega

end Wawo
