import Wawo.Wcp.SenderSim

/-!
# The flight list of the sending half

`FlightBytes`: `snd_nflight_bytes` is the total size of the packs in `snd_flights`, at most its
recorded maximum, and small enough that the `u32_t` sum in `check_send` does not wrap. It holds
however the sequence numbers run. `FlightSeqs`: as long as fewer than `2 ^ 32` numbers were taken,
the flights are strictly increasing and every number sent is acknowledged, named by a SACK or in
flight. Both are kept by every step of the abstract sender, hence along every run.
-/

namespace Wawo

open Lts Relation

namespace Sender

variable {m : Mode} {s s' : Sender}

/-- The bytes of the packs in a list, headers included. -/
def bytes (l : List WcbPack) : Nat := (l.map fun p => p.totalBytes).sum

@[simp] theorem bytes_nil : bytes [] = 0 := rfl

@[simp] theorem bytes_cons (p : WcbPack) (l : List WcbPack) : bytes (p :: l) = p.totalBytes + bytes l := rfl

@[simp] theorem bytes_append (l l' : List WcbPack) : bytes (l ++ l') = bytes l + bytes l' := by
  simp [bytes]

theorem totalBytes_le_bytes {p : WcbPack} {l : List WcbPack} (h : p ∈ l) : p.totalBytes ≤ bytes l := by
  obtain ⟨a, b, rfl⟩ := List.append_of_mem h
  simp; omega

/-- The byte counters of the flight list. -/
structure FlightBytes (s : Sender) : Prop where
  nflight_eq : s.nflight = bytes s.flights
  le_max : s.nflight ≤ s.nflightMax
  cwnd_le : s.cwnd ≤ wcpSndCwndMax
  nflight_le : s.nflight ≤ wcpSndCwndMax

theorem totalBytes_le_mtu (d : Datagram) : d.totalBytes ≤ wcpMtu := by
  have := d.len_le
  rw [Datagram.totalBytes, d.dlen_eq]
  simp only [wcpMdu, wcpMtu, wcpHeaderLen] at this ⊢
  omega

theorem FlightBytes.totalBytes_le (h : FlightBytes s) {p : WcbPack} (hp : p ∈ s.flights) : p.totalBytes ≤ s.nflight := by
  rw [h.nflight_eq]
  exact totalBytes_le_bytes hp

/-- A pack enters the flight list only if the sum fits the congestion window, so it does not wrap. -/
theorem FlightBytes.launch (h : FlightBytes s) {p q : WcbPack} (hq : q.content = p.content)
    (hw : u32 (p.totalBytes + s.nflight) < s.cwnd) (sending : List WcbPack) (d : Datagram) :
    FlightBytes (s.launch q sending d) := by
  have hmtu := totalBytes_le_mtu q.toDatagram
  have hpq : q.totalBytes = p.totalBytes := Datagram.totalBytes_of_content hq
  have hcap : wcpSndCwndMax + wcpMtu < 2 ^ 32 := by decide
  have hc := h.cwnd_le
  have hn := h.nflight_le
  have hsum : u32 (s.nflight + q.totalBytes) = s.nflight + q.totalBytes := u32_of_lt (by omega)
  have hsum' : u32 (p.totalBytes + s.nflight) = s.nflight + q.totalBytes := by
    rw [← hsum, hpq, Nat.add_comm]
  rw [hsum'] at hw
  refine ⟨?_, ?_, h.cwnd_le, ?_⟩
  · show u32 _ = bytes (s.flights ++ [q])
    rw [hsum, bytes_append, h.nflight_eq]; rfl
  · show u32 _ ≤ if u32 _ > s.nflightMax then u32 _ else s.nflightMax
    rw [hsum]; split_ifs <;> omega
  · show u32 _ ≤ _
    rw [hsum]; omega

theorem FlightBytes.step (h : FlightBytes s) (hs : Step m s s') : FlightBytes s' := by
  have hm := h.le_max
  cases hs with
  | setCwnd c hc => exact ⟨h.nflight_eq, h.le_max, hc, h.nflight_le⟩
  | setNflightMax k hle => exact ⟨h.nflight_eq, hle, h.cwnd_le, h.nflight_le⟩
  | dropFlight pre p post hf _ hb _ =>
    have he := h.nflight_eq
    rw [hf] at he
    refine ⟨?_, ?_, h.cwnd_le, ?_⟩
    · show s.nflight - p.totalBytes = bytes (pre ++ post)
      simp at he ⊢; omega
    · show s.nflight - p.totalBytes ≤ s.nflightMax; omega
    · have := h.nflight_le
      show s.nflight - p.totalBytes ≤ wcpSndCwndMax; omega
  | restampFlight pre p q post hf hq =>
    refine ⟨?_, h.le_max, h.cwnd_le, h.nflight_le⟩
    show s.nflight = bytes (pre ++ q :: post)
    have hpq : q.totalBytes = p.totalBytes := Datagram.totalBytes_of_content hq
    rw [h.nflight_eq, hf]; simp [hpq]
  | launch p q rest wnd _ hq _ _ hw _ _ => exact h.launch hq hw rest _
  | launchFin p q rest wnd _ hq _ _ hw _ _ => exact h.launch hq hw (q :: rest) _
  | _ => exact ⟨h.nflight_eq, h.le_max, h.cwnd_le, h.nflight_le⟩

/-- The sequence numbers of the queues and of the flight list, before the counter wraps. -/
structure FlightSeqs (s : Sender) : Prop where
  dsn_eq : s.dsn = s.hist.numbered.length
  queued_lt : ∀ p ∈ s.sending ++ s.standby, p.seq < s.dsn
  next_le : s.next ≤ s.dsn
  flight_lt : ∀ p ∈ s.flights, p.seq < s.next
  sorted : s.flights.Pairwise (fun p q => p.seq < q.seq)
  covered : ∀ k < s.next, k < s.una ∨ k ∈ s.hist.sacked ∨ ∃ p ∈ s.flights, p.seq = k

theorem Step.numbered_le (hs : Step m s s') : s.hist.numbered.length ≤ s'.hist.numbered.length := by
  obtain ⟨l, hl⟩ := hs.numbered_append
  rw [hl]; simp

/-- The next number is taken by a pack that enters the sending or the standby queue. -/
theorem FlightSeqs.number (h : FlightSeqs s) {p : WcbPack} (hp : p.seq = s.dsn) {dsn : Nat}
    {sending standby : List WcbPack} {hist : SndHist} {sb : List Byte} {shut : Bool}
    (hd : dsn = s.dsn + 1) (hq : ∀ q ∈ sending ++ standby, q = p ∨ q ∈ s.sending ++ s.standby)
    (hl : hist.numbered.length = s.hist.numbered.length + 1) (hsack : hist.sacked = s.hist.sacked) :
    FlightSeqs { s with dsn := dsn, sending := sending, standby := standby, hist := hist, sb := sb, writeShut := shut } := by
  have hn := h.next_le
  refine ⟨by rw [hl, ← h.dsn_eq]; exact hd, ?_, by dsimp only; omega, h.flight_lt, h.sorted, ?_⟩
  · intro q hq'
    rcases hq q hq' with rfl | hq'
    · dsimp only; omega
    · have := h.queued_lt q hq'; dsimp only; omega
  · intro k hk
    dsimp only
    rw [hsack]; exact h.covered k hk

theorem FlightSeqs.launch (h : FlightSeqs s) (hlt : s.hist.numbered.length < 2 ^ 32) {p q : WcbPack}
    {rest sending : List WcbPack} (hs : s.sending = p :: rest) (hq : q.content = p.content)
    (hn : p.seq = s.next) (hsub : ∀ x ∈ sending, x = q ∨ x ∈ rest) (d : Datagram) :
    FlightSeqs (s.launch q sending d) := by
  have hqs : q.seq = s.next := (Datagram.seq_of_content hq).trans hn
  have hp : p.seq < s.dsn := h.queued_lt p (by simp [hs])
  have hd := h.dsn_eq
  have hnext : u32 (s.next + 1) = s.next + 1 := u32_of_lt (by omega)
  refine ⟨h.dsn_eq, ?_, ?_, ?_, ?_, ?_⟩
  · intro x hx
    show x.seq < s.dsn
    rcases List.mem_append.1 hx with hx | hx
    · rcases hsub x hx with rfl | hx
      · omega
      · exact h.queued_lt x (by simp [hs, hx])
    · exact h.queued_lt x (List.mem_append_right _ hx)
  · show u32 (s.next + 1) ≤ s.dsn; omega
  · intro x hx
    show x.seq < u32 (s.next + 1)
    rw [hnext]
    rcases List.mem_append.1 hx with hx | hx
    · have := h.flight_lt x hx; omega
    · rw [List.mem_singleton.1 hx]; omega
  · show (s.flights ++ [q]).Pairwise _
    refine List.pairwise_append.2 ⟨h.sorted, by simp, ?_⟩
    intro x hx y hy
    rw [List.mem_singleton.1 hy, hqs]
    exact h.flight_lt x hx
  · intro k hk
    have hk : k < s.next + 1 := hnext ▸ hk
    show k < s.una ∨ k ∈ s.hist.sacked ∨ ∃ x ∈ s.flights ++ [q], x.seq = k
    rcases Nat.lt_succ_iff_lt_or_eq.1 hk with hk | rfl
    · rcases h.covered k hk with hk | hk | ⟨x, hx, rfl⟩
      · exact .inl hk
      · exact .inr (.inl hk)
      · exact .inr (.inr ⟨x, by simp [hx], rfl⟩)
    · exact .inr (.inr ⟨q, by simp, hqs⟩)

theorem FlightSeqs.step (h : FlightSeqs s) (hs : Step m s s') (hlt : s'.hist.numbered.length < 2 ^ 32) :
    FlightSeqs s' := by
  have hle := hs.numbered_le
  have hd := h.dsn_eq
  cases hs with
  | ackUna a ha _ =>
    refine ⟨h.dsn_eq, h.queued_lt, h.next_le, h.flight_lt, h.sorted, ?_⟩
    intro k hk
    rcases h.covered k hk with hk | hk
    · exact .inl (Nat.lt_trans hk ha)
    · exact .inr hk
  | nameSacked l =>
    refine ⟨h.dsn_eq, h.queued_lt, h.next_le, h.flight_lt, h.sorted, ?_⟩
    intro k hk
    rcases h.covered k hk with hk | hk | hk
    · exact .inl hk
    · exact .inr (.inl (List.mem_append_left _ hk))
    · exact .inr (.inr hk)
  | dropFlight pre p post hf hp _ _ =>
    have hsub : (pre ++ post).Sublist s.flights := by rw [hf]; simp
    refine ⟨h.dsn_eq, h.queued_lt, h.next_le, ?_, h.sorted.sublist hsub, ?_⟩
    · exact fun x hx => h.flight_lt x (hsub.subset hx)
    · intro k hk
      rcases h.covered k hk with hk | hk | ⟨x, hx, rfl⟩
      · exact .inl hk
      · exact .inr (.inl hk)
      · -- the flight of number `k` is still there, or it is the one dropped
        rw [hf] at hx
        by_cases hxp : x = p
        · subst hxp
          rcases hp with hp | hp
          · exact .inr (.inl hp)
          · exact .inl hp
        · exact .inr (.inr ⟨x, by simp [hxp] at hx ⊢; exact hx, rfl⟩)
  | restampFlight pre p q post hf hq =>
    have hseq : q.seq = p.seq := Datagram.seq_of_content hq
    have hmap : (pre ++ q :: post).map (fun x => x.seq) = s.flights.map (fun x => x.seq) := by
      rw [hf]; simp [hseq]
    refine ⟨h.dsn_eq, h.queued_lt, h.next_le, ?_, ?_, ?_⟩
    · intro x hx
      have : x.seq ∈ s.flights.map (fun x => x.seq) := hmap ▸ List.mem_map_of_mem hx
      obtain ⟨y, hy, hxy⟩ := List.mem_map.1 this
      rw [← hxy]; exact h.flight_lt y hy
    · have := List.pairwise_map.2 h.sorted
      rw [← hmap] at this
      exact List.pairwise_map.1 this
    · intro k hk
      rcases h.covered k hk with hk | hk | ⟨x, hx, rfl⟩
      · exact .inl hk
      · exact .inr (.inl hk)
      · have : x.seq ∈ (pre ++ q :: post).map (fun x => x.seq) := hmap ▸ List.mem_map_of_mem hx
        obtain ⟨y, hy, hxy⟩ := List.mem_map.1 this
        exact .inr (.inr ⟨y, hy, hxy⟩)
  | number flag _ =>
    simp only [Sender.number, List.length_append, List.length_singleton] at hlt
    refine h.number (p := ⟨.fresh s.dsn flag [] (Nat.zero_le _), 0, 0⟩) rfl (u32_of_lt (by omega)) ?_ (by simp) rfl
    intro q hq
    simp at hq ⊢; tauto
  | shutFin _ _ =>
    simp only [Sender.number, List.length_append, List.length_singleton] at hlt
    refine h.number (p := ⟨.fresh s.dsn .fin [] (Nat.zero_le _), 0, 0⟩) rfl (u32_of_lt (by omega)) ?_
      (by simp [Sender.number]) rfl
    intro q hq
    simp [Sender.number] at hq ⊢; tauto
  | package _ _ =>
    simp only [Sender.package, List.length_append, List.length_singleton] at hlt
    refine h.number (p := ⟨.fresh s.dsn (.dat ||| .ack) (s.sb.take wcpMdu) (List.length_take_le _ _), 0, 0⟩) rfl
      (u32_of_lt (by omega)) ?_ (by simp) rfl
    intro q hq
    simp at hq ⊢; tauto
  | moveStandby => exact ⟨h.dsn_eq, by simpa using h.queued_lt, h.next_le, h.flight_lt, h.sorted, h.covered⟩
  | restampSending p q rest hp hq =>
    have hseq : q.seq = p.seq := Datagram.seq_of_content hq
    refine ⟨h.dsn_eq, ?_, h.next_le, h.flight_lt, h.sorted, h.covered⟩
    intro x hx
    have := h.queued_lt
    rw [hp] at this
    rcases List.mem_append.1 hx with hx | hx
    · rcases List.mem_cons.1 hx with rfl | hx
      · show x.seq < s.dsn; rw [hseq]; exact this p (by simp)
      · exact this x (by simp [hx])
    · exact this x (by simp [hx])
  | launch p q rest wnd hp hq hn _ _ _ _ => exact h.launch hlt hp hq hn (fun x hx => .inr hx) _
  | launchFin p q rest wnd hp hq hn _ _ _ _ =>
    exact h.launch hlt hp hq hn (fun x hx => List.mem_cons.1 hx) _
  | _ => exact ⟨h.dsn_eq, h.queued_lt, h.next_le, h.flight_lt, h.sorted, h.covered⟩

end Sender

section

variable {now : Nat} {w w' w₀ : Wcb} {es : List Event}

/-- While `una` is known to have moved, the scan leaves no flight below it, wherever it ends: what it
passed lies above, and so does what stands behind a pack that was not acknowledged. -/
theorem scanFlights_una {pre rest : List WcbPack} {lost maxSent : Nat} {c : Nat × Nat × Wcb}
    (hu : w.snd.unaUpdate = true) (hf : w.snd.flights = pre ++ rest) (hpre : ∀ p ∈ pre, w.snd.una ≤ p.seq)
    (hsorted : rest.Pairwise (fun p q => p.seq < q.seq))
    (h : scanFlights now pre rest lost maxSent w = .ok c) :
    ∀ p ∈ c.2.2.snd.flights, c.2.2.snd.una ≤ p.seq := by
  induction rest generalizing pre lost maxSent w with
  | nil => cases h; rw [hf]; simpa using hpre
  | cons p rest ih =>
    obtain ⟨hp, hrest⟩ := List.pairwise_cons.1 hsorted
    unfold scanFlights at h
    by_cases hacked : w.snd.unaUpdate = true ∧ p.seq < w.snd.una
    · rw [if_pos hacked] at h
      cases ha : w.snd.handlePackAcked p now (w.so.clock p.seq) with
      | error e => rw [ha] at h; cases h
      | ok t =>
        rw [ha] at h
        obtain ⟨h1, h2⟩ := handlePackAcked_una ha
        refine ih (w := w.setSnd (t.setFlights (pre ++ rest))) (h2.trans hu) rfl ?_ hrest h
        intro x hx
        show t.una ≤ x.seq
        rw [h1]; exact hpre x hx
    rw [if_neg hacked] at h
    have hpu : w.snd.una ≤ p.seq := by simp [hu] at hacked; exact hacked
    dsimp only at h
    generalize w.snd.retransmitReason now p = reason at h
    have hs := sender_noteLost w.snd reason p
    obtain ⟨w₁, hw₁⟩ : ∃ w₁, w₁ = w.setSnd (w.snd.noteLost reason p) := ⟨_, rfl⟩
    rw [← Wcb.setSnd_snd w (w.snd.noteLost reason p), ← hw₁] at hs
    rw [← hw₁] at h
    have hua : w₁.snd.una = w.snd.una := congrArg Sender.una hs
    have huu : w₁.snd.unaUpdate = true := (congrArg Sender.unaUpdate hs).trans hu
    have hf₁ : w₁.snd.flights = pre ++ p :: rest := (congrArg Sender.flights hs).trans hf
    by_cases h0 : reason = 0
    · rw [if_pos h0] at h
      refine ih (w := w₁) huu (by rw [hf₁]; simp) ?_ hrest h
      intro x hx
      rw [hua]
      rcases List.mem_append.1 hx with hx | hx
      · exact hpre x hx
      · rw [List.mem_singleton.1 hx]; exact hpu
    rw [if_neg h0] at h
    cases hr : retransmit now p w₁ with
    | error e => rw [hr] at h; cases h
    | ok c' =>
      obtain ⟨rt, q, w₂⟩ := c'
      obtain ⟨-, hqc, h1, h2⟩ := retransmit_ok hr
      have hq : q.seq = p.seq := Datagram.seq_of_content hqc
      rw [hr] at h
      dsimp only [bind, Except.bind] at h
      by_cases hrt : rt ≠ ok
      · rw [if_pos hrt] at h
        cases h
        intro x hx
        show w₂.snd.una ≤ x.seq
        rw [h1, hua]
        rcases List.mem_append.1 hx with hx | hx
        · exact hpre x hx
        rcases List.mem_cons.1 hx with rfl | hx
        · omega
        · have := hp x hx; omega
      · rw [if_neg hrt] at h
        refine ih (w := w₂.setSnd (w₂.snd.setFlights (pre ++ q :: rest))) (h2.trans huu)
          (by simp [Wcb.setSnd, Snd.setFlights]) ?_ hrest h
        intro x hx
        show w₂.snd.una ≤ x.seq
        rw [h1, hua]
        rcases List.mem_append.1 hx with hx | hx
        · exact hpre x hx
        · rw [List.mem_singleton.1 hx]; omega

theorem detectLost_flights {lost maxSent : Nat} (h : detectLost now lost maxSent w = .ok w') :
    w'.snd.flights = w.snd.flights ∧ w'.snd.una = w.snd.una := by
  unfold detectLost at h
  dsimp only at h
  split_ifs at h <;> cases h <;> exact ⟨rfl, rfl⟩

theorem checkFlights_una (hs : w.snd.sender.FlightSeqs) (hu : w.snd.unaUpdate = true)
    (h : checkFlights now w = .ok w') : ∀ p ∈ w'.snd.flights, w'.snd.una ≤ p.seq := by
  unfold checkFlights at h
  dsimp only at h
  rw [if_neg (by simp [hu])] at h
  cases hsc : scanFlights now [] w.snd.flights 0 0 { w with snd := { w.snd with lastRtoTimer := now } } with
  | error e => rw [hsc] at h; cases h
  | ok c =>
    rw [hsc] at h
    have hc := scanFlights_una (w := { w with snd := { w.snd with lastRtoTimer := now } }) hu rfl (by simp)
      hs.sorted hsc
    obtain ⟨lost, maxSent, w₁⟩ := c
    obtain ⟨h1, h2⟩ := detectLost_flights h
    rw [h1, h2]
    exact hc

theorem run_flightBytes (h₀ : Opened w₀) (h : Run step (fun _ _ => True) w₀ es w) : w.snd.sender.FlightBytes :=
  run_sender_inv Sender.FlightBytes (fun _ _ _ _ => ⟨rfl, Nat.le_refl _, by simp [Wcb.init, Snd.sender]; decide, Nat.zero_le _⟩)
    (fun _ _ hv ⟨_, hs⟩ => hv.step hs) h₀ h

theorem run_flightSeqs (h₀ : Opened w₀) (h : Run step (fun _ _ => True) w₀ es w)
    (hlt : w.snd.hist.numbered.length < 2 ^ 32) : w.snd.sender.FlightSeqs := by
  refine run_sender_inv (fun v => v.hist.numbered.length < 2 ^ 32 → v.FlightSeqs) ?_ ?_ h₀ h hlt
  · intro u now rcvCap sndCap _
    exact ⟨rfl, by simp [Wcb.init, Snd.sender], Nat.le_refl _, by simp [Wcb.init, Snd.sender],
      by simp [Wcb.init, Snd.sender], by simp [Wcb.init, Snd.sender]⟩
  · rintro v v' hv ⟨n, hs⟩ hlt'
    have := hs.numbered_le
    exact (hv (by omega)).step hs hlt'

/-- What the sending half knows about the packs it has sent. -/
structure FlightsOk (s : Snd) : Prop where
  accounted : ∀ k < s.next, k < s.una ∨ k ∈ s.hist.sacked ∨ ∃ p ∈ s.flights, p.seq = k
  sorted : s.flights.Pairwise (fun p q => p.seq < q.seq)
  nflightBytes_eq : s.nflightBytes = (s.flights.map fun p => p.header.dlen + wcpHeaderLen).sum
  nflightBytes_le_max : s.nflightBytes ≤ s.nflightBytesMax

theorem scanFlights_compensation {lost maxSent : Nat} (hb : w.snd.sender.FlightBytes)
    (h : scanFlights now [] w.snd.flights 0 0 w = .ok (lost, maxSent, w')) :
    w'.snd.nflightBytes >>> 1 ≤ w'.snd.newSsthresh := by
  have hs : SndSim (.any .flights w.rcv.next) (fun c : Nat × Nat × Wcb => c.2.2.snd) w.snd.sender
      (scanFlights now [] w.snd.flights 0 0 w) := scanFlights_sim nofun rfl rfl
  rw [h] at hs
  have hle : w'.snd.nflightBytes ≤ w'.snd.nflightBytesMax := (Simulates.star_inv (fun _ _ hv hs => hv.step hs) hb hs).le_max
  simp only [Snd.newSsthresh, Nat.shiftRight_eq_div_pow]
  omega

/-- In every run (with any acknowledgements, SACKs and send results) before the sequence numbers
wrap: the flight list accounts for everything sent, its byte counter is exact, the assertions that
rest on it hold, the compensation of the loss detection does not underflow, and a `check_flights`
that saw `una` move leaves no flight below it. -/
theorem flight_bookkeeping (h₀ : Opened w₀) (h : Run step (fun _ _ => True) w₀ es w)
    (hlt : w.snd.hist.numbered.length < 2 ^ 32) :
    FlightsOk w.snd ∧
    (∀ e, step e w ≠ .error .nflightBytes ∧ step e w ≠ .error .nflightBytesMax) ∧
    (∀ now lost maxSent w₁, scanFlights now [] w.snd.flights 0 0 w = .ok (lost, maxSent, w₁) →
      w₁.snd.nflightBytes >>> 1 ≤ w₁.snd.newSsthresh) ∧
    (∀ now w₁, w.snd.unaUpdate = true → checkFlights now w = .ok w₁ →
      ∀ p ∈ w₁.snd.flights, w₁.snd.una ≤ p.seq) := by
  have hb := run_flightBytes h₀ h
  have hs := run_flightSeqs h₀ h hlt
  refine ⟨⟨hs.covered, hs.sorted, hb.nflight_eq, hb.le_max⟩, fun e => ⟨?_, ?_⟩, ?_, ?_⟩
  · refine Simulates.ne_error (I := Sender.FlightBytes) (fun _ _ hv ⟨_, hs⟩ => hv.step hs) hb ?_ (step_sim e w)
    rintro v hv ⟨p, hp, hlt⟩
    exact absurd hlt (Nat.not_lt.2 (hv.totalBytes_le hp))
  · refine Simulates.ne_error (I := Sender.FlightBytes) (fun _ _ hv ⟨_, hs⟩ => hv.step hs) hb ?_ (step_sim e w)
    intro v hv hlt
    have := hv.le_max
    exact absurd this (Nat.not_le.2 hlt)
  · intro now lost maxSent w₁ hscan
    exact scanFlights_compensation hb hscan
  · intro now w₁ hu hc
    exact checkFlights_una hs hu hc

/-- The client sends four packs, 2 to 5. The server has got 4, and the others are sent again; then it acknowledges 2. -/
def lossy : List Event :=
  handshake ++ [.send (List.replicate 5000 0), .update (.at 3),
    .arrive ⟨(Datagram.fresh 1 .sack (writeU32 4) (by decide)).stamp 2 (2 * wcpRcvBufferMin), ⟨2⟩⟩, .checkRecv (.at 50),
    .checkFlights (.at 2000), .arrive ⟨(Datagram.fresh 1 .ack [] (Nat.zero_le _)).stamp 3 (2 * wcpRcvBufferMin), ⟨2⟩⟩, .checkRecv (.at 2001)]

theorem flight_bookkeeping_lossy : ∃ w w₁, Run step (fun _ _ => True) Wcb.connecting lossy w ∧ w.snd.hist.sacked = [4] ∧
    w.snd.flights.map (fun p => (p.seq, p.sentTimes)) = [(2, 2), (3, 2), (5, 2)] ∧ FlightsOk w.snd ∧
    (∀ e, step e w ≠ .error .nflightBytes ∧ step e w ≠ .error .nflightBytesMax) ∧
    (∀ now lost maxSent w₁, scanFlights now [] w.snd.flights 0 0 w = .ok (lost, maxSent, w₁) →
      w₁.snd.nflightBytes >>> 1 ≤ w₁.snd.newSsthresh) ∧
    checkFlights 2001 w = .ok w₁ ∧ w₁.snd.flights.map (fun p => p.seq) = [3, 5] ∧ ∀ p ∈ w₁.snd.flights, w₁.snd.una ≤ p.seq := by
  obtain ⟨w, hrun, hw⟩ := Run.of_reaches (f := step) lossy Wcb.connecting
    (P := fun w => decide (w.snd.hist.sacked = [4] ∧ w.snd.flights.map (fun p => (p.seq, p.sentTimes)) = [(2, 2), (3, 2), (5, 2)] ∧
      w.snd.unaUpdate = true ∧ w.snd.hist.numbered.length < 2 ^ 32) &&
      reaches (fun (_ : Unit) w => checkFlights 2001 w) (fun w₁ => decide (w₁.snd.flights.map (fun p => p.seq) = [3, 5])) [()] w) (by decide +kernel)
  obtain ⟨hw, hflights⟩ := Bool.and_eq_true_iff.mp hw
  obtain ⟨hsacked, hsent, hupdate, hlt⟩ := of_decide_eq_true hw
  obtain ⟨w₁, hcheck, hleft⟩ := Run.of_reaches [()] w hflights
  cases hcheck with
  | cons _ hcheck hnil =>
    cases hnil
    obtain ⟨hok, hassert, hcompensation, huna⟩ := flight_bookkeeping opened_connecting hrun hlt
    exact ⟨w, w₁, hrun, hsacked, hsent, hok, hassert, hcompensation, hcheck, of_decide_eq_true hleft, huna 2001 w₁ hupdate hcheck⟩

end

end Wawo
