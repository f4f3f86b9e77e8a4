import Wawo.Mux.Delivery
import Wawo.Mux.Credit

/-!
# From the writer to the reader

Two peers with what their users have written and read (`Talk`). What is on its way to a side was sent behind
what has arrived there, and that has been read or is in `rb`, as long as the side is open for reading (`Flow`).
So what is read is the front of what was written at the other end, and with the `T_FIN` comes all of it
(`stream_integrity`): nothing is lost on the way, nothing is read twice or out of turn.
-/

namespace Wawo.Mux

open Lts Relation

-- so that nothing evaluates the sizes
attribute [local irreducible] SocketBufferCfg.room subU32

section

variable {ρ : Type} [Ring ρ]

/-- What a call takes from the user -/
def UserCall.taken (s : Stream ρ) : UserCall → Except ByteFault (List Byte)
  | .write opack => do
    let (ec, _) ← s.write opack
    return if ec = ok then opack else []
  | _ => .ok []

/-- What a call gives to the user -/
def UserCall.given (s : Stream ρ) : UserCall → Except ByteFault (List Byte)
  | .read max => do
    let (_, pack, _) ← s.read max
    return pack
  | _ => .ok []

/-- Two peers, what `write` has accepted at either end, and what `read` has returned there -/
structure Talk (ρ : Type) where
  p : Pair ρ
  accepted : Side → List Byte
  read : Side → List Byte

def silent (p : Pair ρ) : Talk ρ := ⟨p, fun _ => [], fun _ => []⟩

def Talk.step (e : PairEvent) (t : Talk ρ) : Except ByteFault (Talk ρ) := do
  let p ← Pair.step e t.p
  match e with
  | .user x c =>
    if (t.p.ends x).entry = .absent then
      return { t with p := p }
    let taken ← c.taken (t.p.ends x).s
    let given ← c.given (t.p.ends x).s
    return { p := p, accepted := Function.update t.accepted x (t.accepted x ++ taken), read := Function.update t.read x (t.read x ++ given) }
  | _ => return { t with p := p }

/-- A tick that determines the size of a buffer makes it large enough for what is in it. -/
def Pair.Fits (p : Pair ρ) : PairEvent → Prop
  | .tick x connected cfg codes =>
    (flushOutps (p.ends x).outps ⟨cfg, codes, []⟩).2.2 = false → (p.ends x).entry = .present →
      Mux.Fits (p.ends x).s (.tick connected cfg (flushOutps (p.ends x).outps ⟨cfg, codes, []⟩).2.1.codes)
  | _ => True

end

/-! ### What a stream sends -/

/-- There is no data behind the `T_FIN`. -/
def FinLast (sent : List Frame) : Prop := ∀ front tail, sent = front ++ .fin :: tail → payloads tail = []

/-- What a stream sends, after all it has sent, and what it accepts meanwhile -/
def Sends (s s' : QueueStream) (sent : List Frame) (taken : List Byte) : Prop :=
  ∀ before accepted, Kept ⟨s, before, accepted⟩ → FinLast before →
    Kept ⟨s', before ++ sent, accepted ++ taken⟩ ∧ FinLast (before ++ sent)

section

variable {m : Mode} {l l' : QueueLife} {s : QueueStream} {sent rsts : List Frame} {f : Frame}

theorem FinLast.of_not_mem (h : .fin ∉ sent) : FinLast sent := by
  rintro front tail rfl
  exact absurd (List.mem_append_right front List.mem_cons_self) h

theorem FinLast.append_control (h : FinLast sent) (hf : payload f = []) : FinLast (sent ++ [f]) := by
  intro front tail heq
  rcases List.eq_nil_or_concat tail with rfl | ⟨tail, g, rfl⟩
  · rfl
  · rw [List.concat_eq_append, ← List.cons_append, ← List.append_assoc] at heq
    obtain ⟨hsent, hfg⟩ := List.append_inj' heq rfl
    cases hfg
    rw [List.concat_eq_append, payloads_append, hf, h front tail hsent]
    rfl

theorem FinLast.act (h : FinLast l.sent) (hk : Kept l) (ha : Act m l l') : FinLast l'.sent := by
  cases ha with
  | credit => exact h.append_control rfl
  | fin => exact h.append_control rfl
  | syn => exact h.append_control rfl
  | data n hw =>
    have hopen : .fin ∉ l.sent := fun hfin => Bool.eq_false_iff.1 hw (hk.fin hfin).1
    exact .of_not_mem (by simpa using hopen)
  | _ => exact h

theorem Sends.refl (s : QueueStream) : Sends s s [] [] := by
  intro before accepted hk hf
  rw [List.append_nil, List.append_nil]
  exact ⟨hk, hf⟩

theorem Sends.of_rst (s : QueueStream) (h : ∀ f ∈ rsts, f = .rst) : Sends s s rsts [] := by
  intro before accepted hk hf
  rw [List.append_nil]
  induction rsts using List.reverseRecOn with
  | nil =>
    rw [List.append_nil]
    exact ⟨hk, hf⟩
  | append_singleton rsts f ih =>
    obtain ⟨hk, hf⟩ := ih fun g hg => h g (List.mem_append_left _ hg)
    cases h f (by simp)
    rw [← List.append_assoc]
    refine ⟨⟨?_, fun hfin => hk.fin (by simpa using hfin)⟩, hf.append_control rfl⟩
    rw [payloads_of_control _ rfl]
    exact hk.accepted_eq

/-- A call sends what it takes out of `wb`, in front of the `T_FIN`. -/
theorem call_sends {c : StreamCall} {o : Outcome (BoundedQueue Byte)} (hs : Sized s) (hfits : Fits s c) (h : s.call c = .ok o) :
    Sends s o.s o.sent o.accepted := by
  intro before accepted hk hf
  have hlive : live c ⟨s, before, accepted⟩ = .ok ⟨o.s, before ++ o.sent, accepted ++ o.accepted⟩ := bind_eq_ok.2 ⟨o, h, rfl⟩
  have hallows : Mode.Allows ⟨c.bufferCfg, c.bufferCfg.room, True, _⟩ s c := Mode.allows hfits fun _ => trivial
  exact live_inv (I := fun l => Kept l ∧ FinLast l.sent) (fun _ _ hi ha => ⟨hi.1.act rfl ha, hi.2.act hi.1 ha⟩) hs hallows ⟨hk, hf⟩ hlive

end

/-! ### What a stream keeps for its reader -/

section

variable {ρ : Type} [Ring ρ]

theorem sendData_rb (s : Stream ρ) (so : So) : Ensures (fun x => x.1.rb = s.rb) (fun _ => True) (s.sendData so) := by
  unfold Stream.sendData
  refine Ensures.bind (Q := fun l => l.s.rb = s.rb) ?_ fun l hl => ?_
  · cases hloop : loopWhile (fun l : Stream.Sending ρ => l.ecO = ok ∧ Ring.count l.s.wb ≠ 0 ∧ l.flushed < muxStreamWndSize ∧ l.s.wbWnd > 0)
      Stream.sendDataRound ByteFault.loop (muxStreamWndSize + 1) ⟨s, so, 0, ok⟩ with
    | error e => trivial
    | ok l =>
      refine loopWhile_inv (fun l : Stream.Sending ρ => l.s.rb = s.rb) (fun l l' hl hround => ?_) hloop rfl
      obtain ⟨⟨n, opack, _⟩, -, hround⟩ := bind_eq_ok.1 hround
      obtain ⟨-, -, hround⟩ := bind_eq_ok.1 hround
      dsimp only at hround
      split_ifs at hround
      · cases hround
        exact hl
      · obtain ⟨wb, -, hround⟩ := bind_eq_ok.1 hround
        obtain ⟨-, -, hround⟩ := bind_eq_ok.1 hround
        cases hround
        exact hl
  · split_ifs <;> exact hl

theorem sendSyn_rb (s : Stream ρ) (so : So) : Ensures (fun x => x.1.rb = s.rb) (fun _ => True) (s.sendSyn so) := by
  unfold Stream.sendSyn
  dsimp only
  split_ifs
  · rfl
  · exact sendData_rb _ _
  · exact sendData_rb s so

theorem determine_rb (s : Stream ρ) (cfg : SocketBufferCfg) : Ensures (fun t => t.rb = s.rb) (fun _ => True) (s.determine cfg) := by
  have htrue : ∀ {α : Type} (x : Except ByteFault α), Ensures (fun _ => True) (fun _ => True) x := fun x => by cases x <;> trivial
  unfold Stream.determine
  dsimp only
  split_ifs
  · rfl
  · exact (htrue _).bind fun _ _ => (htrue _).bind fun _ _ => (htrue _).bind fun _ _ => rfl
  · rfl

theorem flushWrite_rb (s : Stream ρ) (so : So) : Ensures (fun x => x.1.rb = s.rb) (fun _ => True) (s.flushWrite so) := by
  unfold Stream.flushWrite
  split_ifs
  · rfl
  · rfl
  · unfold Stream.sendFin
    dsimp only
    split_ifs <;> rfl
  · exact (determine_rb s so.cfg).bind fun t ht => ht ▸ sendSyn_rb t so

theorem flush_rb (s : Stream ρ) (so : So) : Ensures (fun x => x.1.rb = s.rb) (fun _ => True) (s.flush so) := by
  unfold Stream.flush
  dsimp only
  split_ifs
  · rfl
  · exact flushWrite_rb _ _
  · exact flushWrite_rb s so

theorem update_rb (s : Stream ρ) (so : So) : Ensures (fun x => x.1.rb = s.rb) (fun _ => True) (s.update so) := by
  unfold Stream.update
  split
  · refine (flush_rb s so).bind fun x hx => ?_
    obtain ⟨s', so, ecO, wflag⟩ := x
    dsimp only at hx ⊢
    split_ifs <;> exact hx
  · split_ifs <;> rfl
  · rfl

/-- A tick leaves the reader's bytes alone. -/
theorem tick_rb (s : Stream ρ) (connected : Bool) (cfg : SocketBufferCfg) (codes : List Int) :
    Ensures (fun o => o.s.rb = s.rb) (fun _ => True) (s.call (.tick connected cfg codes)) := by
  have hrb : Ensures (fun x => x.1.rb = s.rb) (fun _ => True) (s.tick connected ⟨cfg, codes, []⟩) := by
    unfold Stream.tick
    cases connected with
    | true => exact update_rb s _
    | false => exact update_rb s.forceClose _
  refine hrb.bind fun x hx => ?_
  obtain ⟨s', so, wflag⟩ := x
  exact hx

end

section

variable {s s' : QueueStream}

theorem read_eq {max n : Nat} {pack : List Byte} (h : s.read max = .ok (n, pack, s')) : pack ++ s'.rb.items = s.rb.items := by
  unfold Stream.read at h
  dsimp only at h
  generalize (if max ≠ 0 ∧ Ring.count s.rb > max then max else Ring.count s.rb) = k at h
  split_ifs at h
  · cases h
    rfl
  · cases h
    exact BoundedQueue.front_append_items_skip _ _

theorem closeWrite_rb {ec : Int} (h : s.closeWrite = .ok (ec, s')) : s'.rb = s.rb := by
  unfold Stream.closeWrite at h
  split_ifs at h
  · cases h
    rfl
  · obtain ⟨t, hshut, h⟩ := bind_eq_ok.1 h
    cases h
    obtain ⟨-, -, rfl⟩ := shutWrite_cases hshut
    rfl

theorem close_rb {ec : Int} (h : s.close = .ok (ec, s')) : s'.rb = s.rb := by
  have hread : (if s.flag.readShutdownCalled = true then s else s.shutRead).rb = s.rb := by
    split_ifs <;> rfl
  unfold Stream.close at h
  dsimp only at h
  generalize (if s.flag.readShutdownCalled = true then s else s.shutRead) = t at h hread
  split_ifs at h
  · cases h
    rfl
  · cases h
    exact hread
  · obtain ⟨t', hshut, h⟩ := bind_eq_ok.1 h
    cases h
    obtain ⟨-, -, rfl⟩ := shutWrite_cases hshut
    exact hread

/-- What a call takes is what the stream accepts, and what it gives comes from the front of `rb`. -/
theorem userCall_eq {c : UserCall} {o : Outcome (BoundedQueue Byte)} {taken given : List Byte} (h : s.call c.call = .ok o)
    (htaken : c.taken s = .ok taken) (hgiven : c.given s = .ok given) : o.accepted = taken ∧ given ++ o.s.rb.items = s.rb.items := by
  cases c with
  | write opack =>
    obtain ⟨⟨ec, s'⟩, hw, h⟩ := bind_eq_ok.1 h
    obtain ⟨⟨_, _⟩, hw', htaken⟩ := bind_eq_ok.1 htaken
    cases hw.symm.trans hw'
    cases h
    cases htaken
    cases hgiven
    refine ⟨rfl, ?_⟩
    rcases write_cases hw with ⟨-, rfl | rfl⟩ | ⟨-, -, -, -, rfl⟩ <;> rfl
  | read max =>
    obtain ⟨⟨n, pack, s'⟩, hr, h⟩ := bind_eq_ok.1 h
    obtain ⟨⟨_, _, _⟩, hr', hgiven⟩ := bind_eq_ok.1 hgiven
    cases hr.symm.trans hr'
    cases h
    cases htaken
    cases hgiven
    exact ⟨rfl, read_eq hr⟩
  | closeRead =>
    cases h
    cases htaken
    cases hgiven
    refine ⟨rfl, ?_⟩
    unfold Stream.closeRead
    split_ifs <;> rfl
  | closeWrite =>
    obtain ⟨⟨ec, s'⟩, hc, h⟩ := bind_eq_ok.1 h
    cases h
    cases htaken
    cases hgiven
    exact ⟨rfl, congrArg BoundedQueue.items (closeWrite_rb hc)⟩
  | close =>
    obtain ⟨⟨ec, s'⟩, hc, h⟩ := bind_eq_ok.1 h
    cases h
    cases htaken
    cases hgiven
    exact ⟨rfl, congrArg BoundedQueue.items (close_rb hc)⟩

end

/-! ### One direction -/

/-- The direction to one side: `gone` are the frames that have arrived there. -/
structure Flow (w r : QueueStream) (wire : List Frame) (accepted read : List Byte) (gone : List Frame) : Prop where
  kept : Kept ⟨w, gone ++ wire, accepted⟩
  finLast : FinLast (gone ++ wire)
  front : read ++ r.rb.items <+: payloads gone
  whole : r.flag.readShutdown = false → read ++ r.rb.items = payloads gone

namespace Flow

variable {w w' r r' : QueueStream} {wire sent gone : List Frame} {accepted read taken given : List Byte} {f : Frame}

theorem sends (h : Flow w r wire accepted read gone) (hs : Sends w w' sent taken) : Flow w' r (wire ++ sent) (accepted ++ taken) read gone := by
  obtain ⟨hk, hf⟩ := hs _ _ h.kept h.finLast
  rw [List.append_assoc] at hk hf
  exact ⟨hk, hf, h.front, h.whole⟩

theorem reads (h : Flow w r wire accepted read gone) (hopen : r'.flag.readShutdown = false → r.flag.readShutdown = false)
    (hrb : given ++ r'.rb.items = r.rb.items) : Flow w r' wire accepted (read ++ given) gone := by
  have heq : read ++ given ++ r'.rb.items = read ++ r.rb.items := by rw [List.append_assoc, hrb]
  exact ⟨h.kept, h.finLast, heq ▸ h.front, fun ho => heq.trans (h.whole (hopen ho))⟩

/-- A frame whose data goes into `rb`, or is dropped because nobody is to read it -/
theorem arrives (h : Flow w r (f :: wire) accepted read gone) (hopen : r'.flag.readShutdown = false → r.flag.readShutdown = false)
    (hrb : r.flag.readShutdown = false ∧ r'.rb.items = r.rb.items ++ payload f ∨ r'.rb.items = r.rb.items ∧ (r.flag.readShutdown = false → payload f = [])) :
    Flow w r' wire accepted read (gone ++ [f]) := by
  have hwire : gone ++ [f] ++ wire = gone ++ f :: wire := by simp
  refine ⟨hwire.symm ▸ h.kept, hwire.symm ▸ h.finLast, ?_, fun ho => ?_⟩
  · rw [payloads_append]
    rcases hrb with ⟨ho, hrb⟩ | ⟨hrb, -⟩
    · rw [hrb, ← List.append_assoc, h.whole ho]
    · rw [hrb]
      exact h.front.trans (List.prefix_append _ _)
  · rw [payloads_append]
    rcases hrb with ⟨-, hrb⟩ | ⟨hrb, hnone⟩
    · rw [hrb, ← List.append_assoc, h.whole (hopen ho)]
    · rw [hrb, hnone (hopen ho), List.append_nil, h.whole (hopen ho)]

theorem read_prefix (h : Flow w r wire accepted read gone) : read <+: accepted := by
  have hgone : payloads gone <+: accepted := by
    have heq := h.kept.accepted_eq
    unfold payloads at heq ⊢
    rw [List.flatMap_append, List.append_assoc] at heq
    exact ⟨_, heq⟩
  exact (List.prefix_append _ _).trans (h.front.trans hgone)

theorem accepted_eq (h : Flow w r wire accepted read gone) (ho : r.flag.readShutdown = false) :
    read ++ r.rb.items ++ payloads wire ++ w.wb.items = accepted := by
  have heq := h.kept.accepted_eq
  rw [h.whole ho]
  unfold payloads at heq ⊢
  rw [List.flatMap_append] at heq
  exact heq

theorem fin (h : Flow w r (.fin :: wire) accepted read gone) (ho : r.flag.readShutdown = false) : read ++ r.rb.items = accepted := by
  have heq := h.accepted_eq ho
  have hwire : payloads (.fin :: wire) = [] := h.finLast gone wire rfl
  rw [hwire, (h.kept.fin (by simp)).2, List.append_nil, List.append_nil] at heq
  exact heq

end Flow

/-! ### Both directions -/

abbrev QueueTalk := Talk (BoundedQueue Byte)

def Flows (t : QueueTalk) : Prop :=
  ∀ x, ∃ gone, Flow (t.p.ends x.other).s (t.p.ends x).s (t.p.wire x) (t.accepted x.other) (t.read x) gone

section

variable {t : QueueTalk} {p : QueuePair} {x : Side} {e : End (BoundedQueue Byte)} {sent fs : List Frame} {taken given : List Byte} {f : Frame}

/-- What `x` does on its own -/
theorem Flows.moves (h : Flows t) (given : List Byte) (hopen : e.s.flag.readShutdown = false → (t.p.ends x).s.flag.readShutdown = false)
    (hrb : given ++ e.s.rb.items = (t.p.ends x).s.rb.items) (hs : Sends (t.p.ends x).s e.s sent taken) :
    Flows ⟨(t.p.setEnd x e).send x sent, Function.update t.accepted x (t.accepted x ++ taken),
      Function.update t.read x (t.read x ++ given)⟩ := by
  intro y
  dsimp only
  rcases Side.eq_or_eq_other x y with rfl | rfl
  · obtain ⟨gone, hflow⟩ := h y
    rw [Pair.send_ends, Pair.setEnd_self, Pair.setEnd_other, Pair.send_self, Function.update_self, Function.update_of_ne y.other_ne]
    exact ⟨gone, hflow.reads hopen hrb⟩
  · obtain ⟨gone, hflow⟩ := h x.other
    rw [Side.other_other] at hflow ⊢
    rw [Pair.send_ends, Pair.setEnd_self, Pair.setEnd_other, Pair.send_other, Function.update_self, Function.update_of_ne x.other_ne]
    exact ⟨gone, hflow.sends hs⟩

/-- What `x` does without its user -/
theorem Flows.goes (h : Flows t) (hopen : e.s.flag.readShutdown = false → (t.p.ends x).s.flag.readShutdown = false)
    (hrb : e.s.rb = (t.p.ends x).s.rb) (hs : Sends (t.p.ends x).s e.s sent []) : Flows { t with p := (t.p.setEnd x e).send x sent } := by
  have hmoves := h.moves [] hopen (congrArg BoundedQueue.items hrb) hs
  rw [List.append_nil, List.append_nil, Function.update_eq_self, Function.update_eq_self] at hmoves
  exact hmoves

theorem Flows.sndRst (h : Flows t) (x : Side) (sndrt : Int) : Flows { t with p := t.p.sndRst x sndrt } := by
  unfold Pair.sndRst
  split_ifs
  · have hrst := h.goes (x := x) (e := t.p.ends x) id rfl (.of_rst _ (List.forall_mem_singleton.2 rfl))
    rw [Pair.setEnd_ends_self] at hrst
    exact hrst
  · have hkept := h.goes (x := x) (e := { t.p.ends x with outps := (t.p.ends x).outps + 1 }) id rfl (.refl _)
    rw [Pair.send_nil] at hkept
    exact hkept
  · exact h

/-- A frame that gets to `x` -/
theorem Flows.popped (h : Flows t) (hw : t.p.wire x = f :: fs) (hopen : e.s.flag.readShutdown = false → (t.p.ends x).s.flag.readShutdown = false)
    (hrb : (t.p.ends x).s.flag.readShutdown = false ∧ e.s.rb.items = (t.p.ends x).s.rb.items ++ payload f ∨
      e.s.rb.items = (t.p.ends x).s.rb.items ∧ ((t.p.ends x).s.flag.readShutdown = false → payload f = []))
    (hs : Sends (t.p.ends x).s e.s [] []) : Flows { t with p := (t.p.pop x fs).setEnd x e } := by
  intro y
  dsimp only
  rcases Side.eq_or_eq_other x y with rfl | rfl
  · obtain ⟨gone, hflow⟩ := h y
    rw [hw] at hflow
    rw [Pair.setEnd_self, Pair.setEnd_other, Pair.setEnd_wire, Pair.pop_self]
    exact ⟨_, hflow.arrives hopen hrb⟩
  · obtain ⟨gone, hflow⟩ := h x.other
    rw [Side.other_other] at hflow ⊢
    rw [Pair.setEnd_self, Pair.setEnd_other, Pair.setEnd_wire, Pair.pop_other]
    have hflow := hflow.sends hs
    rw [List.append_nil, List.append_nil] at hflow
    exact ⟨gone, hflow⟩

/-! ### Steps -/

structure Intact (t : QueueTalk) : Prop where
  conserved : Conserved t.p
  flows : Flows t

theorem payload_of_bytes (h : f.bytes = 0) : payload f = [] := by
  cases f with
  | data => exact List.eq_nil_of_length_eq_zero h
  | _ => rfl

/-- What finds no stream while there is somebody to read it is not data. -/
theorem Conserved.dropped_bytes (h : Conserved p) (hw : p.wire x = f :: fs) (hpres : (p.ends x).entry ≠ .present) (hf : f ≠ .syn)
    (ho : (p.ends x).s.flag.readShutdown = false) : f.bytes = 0 := by
  cases hx : (p.ends x).entry with
  | present => exact absurd hx hpres
  | erased => exact absurd (h.balanced.erased x hx) (Bool.eq_false_iff.1 ho)
  | absent =>
    cases x with
    | opener => exact absurd hx h.heralded.opener
    | acceptor =>
      obtain ⟨-, hh⟩ := h.heralded.absent hx
      rw [hw] at hh
      exact Frame.bytes_of_isBare (hh.cons.resolve_left fun hcons => hf hcons.1).1

/-- A frame other than a `T_SYN` for a stream that is not in the map -/
theorem Intact.dropped (h : Intact t) (hw : t.p.wire x = f :: fs) (hpres : (t.p.ends x).entry ≠ .present) (hf : f ≠ .syn) :
    Flows { t with p := t.p.pop x fs } := by
  have hends : t.p.pop x fs = (t.p.pop x fs).setEnd x (t.p.ends x) := ((t.p.pop x fs).setEnd_ends_self x).symm
  rw [hends]
  exact h.flows.popped hw id (.inr ⟨rfl, fun ho => payload_of_bytes (h.conserved.dropped_bytes hw hpres hf ho)⟩) (.refl _)

/-- A frame for a stream that is in the map -/
theorem Intact.arrived (h : Intact t) (hw : t.p.wire x = f :: fs) {o : Outcome (BoundedQueue Byte)}
    (ho : (t.p.ends x).s.call (.arrive f) = .ok o) : Flows { t with p := (t.p.pop x fs).setEnd x { t.p.ends x with s := o.s } } := by
  have ht := (arrive_ensures (h.conserved.balanced.room hw)).of_eq_ok ho
  have hfits : Fits (t.p.ends x).s (.arrive f) := fun hd => hd.elim
  have hs := call_sends (h.conserved.balanced.sized x) hfits ho
  obtain ⟨⟨s', rst⟩, harr, ho⟩ := bind_eq_ok.1 ho
  cases ho
  refine h.flows.popped hw ht.opens ?_ hs
  dsimp only
  rcases onEvent_cases harr with heq | ⟨bytes, rfl, hr, hfit, heq⟩ | ⟨incre, rfl, heq⟩ | ⟨rfl, heq⟩
  · refine .inr ⟨congrArg (fun s : QueueStream => s.rb.items) heq, fun hr => payload_of_bytes ?_⟩
    have hread := ht.read ((congrArg (fun s : QueueStream => s.flag.readShutdown) heq).trans hr)
    dsimp only at hread
    rw [heq] at hread
    omega
  · refine .inl ⟨hr, ?_⟩
    rw [heq]
    exact BoundedQueue.items_write_of_le _ hfit
  · rw [heq]
    exact .inr ⟨rfl, fun _ => rfl⟩
  · rw [heq]
    exact .inr ⟨rfl, fun _ => rfl⟩

theorem Intact.deliver (h : Intact t) {ctx : Bool} {sndrt : Int} (hp : t.p.deliver x ctx sndrt = .ok p) : Flows { t with p := p } := by
  unfold Pair.deliver at hp
  cases hw : t.p.wire x with
  | nil =>
    rw [hw] at hp
    cases hp
    exact h.flows
  | cons f fs =>
    rw [hw] at hp
    obtain ⟨-, -, hp⟩ := bind_eq_ok.1 hp
    dsimp only at hp
    rw [Pair.pop_ends] at hp
    split_ifs at hp with hpres
    · obtain ⟨o, ho, hp⟩ := bind_eq_ok.1 hp
      have harrived := h.arrived hw ho
      split_ifs at hp
      · cases hp
        exact harrived.sndRst x sndrt
      · cases hp
        exact harrived
    · cases f with
      | syn =>
        obtain ⟨-, hfresh, -⟩ := h.conserved.heralded.pop_syn hw hpres t.p.id (t.p.ends x).outps ctx
        obtain ⟨s, hs, hp⟩ := bind_eq_ok.1 hp
        cases (streamAccept_eq _ _).symm.trans hs
        cases hp
        refine h.flows.popped hw ?_ (.inr ⟨?_, fun _ => rfl⟩) ?_
        all_goals rw [hfresh]
        · exact fun _ => rfl
        · rfl
        · intro before accepted hk hf
          rw [List.append_nil, List.append_nil]
          exact ⟨⟨hk.accepted_eq, hk.fin⟩, hf⟩
      | rst =>
        cases hp
        exact h.dropped hw hpres nofun
      | _ =>
        cases hp
        exact (h.dropped hw hpres nofun).sndRst x sndrt

theorem Intact.tick (h : Intact t) {connected : Bool} {cfg : SocketBufferCfg} {codes : List Int}
    (hfits : t.p.Fits (.tick x connected cfg codes)) (hp : t.p.tick x connected cfg codes = .ok p) : Flows { t with p := p } := by
  have hrst := @flushOutps_sent (t.p.ends x).outps ⟨cfg, codes, []⟩ nofun
  unfold Pair.Fits at hfits
  unfold Pair.tick at hp
  dsimp only at hp hfits
  generalize flushOutps (t.p.ends x).outps ⟨cfg, codes, []⟩ = flushed at hrst hp hfits
  have h' : Flows { t with p := (t.p.setEnd x { t.p.ends x with outps := flushed.1 }).send x flushed.2.1.sent } :=
    h.flows.goes id rfl (.of_rst _ hrst)
  split_ifs at hp with hstop
  · cases hp
    exact h'
  · rw [not_or, Bool.not_eq_true, not_not] at hstop
    obtain ⟨o, ho, hp⟩ := bind_eq_ok.1 hp
    cases hp
    have hsized := h.conserved.balanced.sized x
    have hc : ∀ inpack, StreamCall.tick connected cfg flushed.2.1.codes ≠ .arrive inpack := nofun
    have hloc := ((call_local hsized hc (tick_ensures hsized connected cfg flushed.2.1.codes)).of_eq_ok ho).1
    have hend : ((t.p.setEnd x { t.p.ends x with outps := flushed.1 }).send x flushed.2.1.sent).ends x = { t.p.ends x with outps := flushed.1 } :=
      Pair.setEnd_self ..
    have hsends := call_sends hsized (hfits hstop.1 hstop.2) ho
    have hnone : o.accepted = [] := by
      obtain ⟨_, -, ho⟩ := bind_eq_ok.1 ho
      cases ho
      rfl
    rw [hnone] at hsends
    refine h'.goes ?_ ?_ ?_
    all_goals dsimp only
    all_goals rw [hend]
    · exact hloc.opens
    · exact (tick_rb _ connected cfg flushed.2.1.codes).of_eq_ok ho
    · exact hsends

theorem Intact.step {ev : PairEvent} {t' : QueueTalk} (h : Intact t) (hfits : t.p.Fits ev) (ht : Talk.step ev t = .ok t') : Intact t' := by
  obtain ⟨p, hp, ht⟩ := bind_eq_ok.1 ht
  have hcons := (h.conserved.step ev).of_eq_ok hp
  cases ev with
  | user x c =>
    have hp : t.p.user x c = .ok p := hp
    unfold Pair.user at hp
    dsimp only at ht
    split_ifs at hp ht
    · cases hp
      cases ht
      exact ⟨hcons, h.flows⟩
    · obtain ⟨o, ho, hp⟩ := bind_eq_ok.1 hp
      obtain ⟨taken, htaken, ht⟩ := bind_eq_ok.1 ht
      obtain ⟨given, hgiven, ht⟩ := bind_eq_ok.1 ht
      cases hp
      cases ht
      refine ⟨hcons, ?_⟩
      have hc : ∀ inpack, c.call ≠ .arrive inpack := by cases c <;> exact nofun
      obtain ⟨hloc, hsent⟩ := (call_local (h.conserved.balanced.sized x) hc (userCall_ensures _ c)).of_eq_ok ho
      obtain ⟨hacc, hrb⟩ := userCall_eq ho htaken hgiven
      have hsends := call_sends (h.conserved.balanced.sized x) (c := c.call) (fun hd => by cases c <;> exact hd.elim) ho
      rw [hsent, hacc] at hsends
      have hmoves := h.flows.moves (e := { t.p.ends x with s := o.s }) _ hloc.opens hrb hsends
      rw [Pair.send_nil] at hmoves
      exact hmoves
  | tick x connected cfg codes =>
    cases ht
    exact ⟨hcons, h.tick hfits hp⟩
  | deliver x ctx sndrt =>
    cases ht
    exact ⟨hcons, h.deliver hp⟩

theorem intact_joined (id : Nat) (ctx : Bool) : Intact (silent (joinedQueue id ctx)) := by
  refine ⟨conserved_joined id ctx, fun x => ⟨[], ⟨?_, nofun⟩, .of_not_mem nofun, ?_, fun _ => ?_⟩⟩
  all_goals cases x <;> rfl

end

/-! ### Ring buffers -/

/-- Peers that agree, and the same bytes -/
inductive Talk.Refines : Talk RingBuffer → QueueTalk → Prop
  | mk {p : Pair RingBuffer} {q : QueuePair} (h : p.Refines q) (accepted read : Side → List Byte) :
      Talk.Refines ⟨p, accepted, read⟩ ⟨q, accepted, read⟩

section

variable {s : Stream RingBuffer} {u : QueueStream}

theorem taken_agree (h : s.Refines u) (c : UserCall) : Agree Eq (c.taken s) (c.taken u) := by
  cases c with
  | write opack =>
    refine (h.write_agree opack).bind ?_
    rintro ⟨ec, _⟩ ⟨_, _⟩ ⟨rfl, -⟩
    exact rfl
  | _ => exact rfl

theorem given_agree (h : s.Refines u) (c : UserCall) : Agree Eq (c.given s) (c.given u) := by
  cases c with
  | read max =>
    refine (h.read_agree max).bind ?_
    rintro ⟨_, pack, _⟩ ⟨_, _, _⟩ ⟨-, rfl, -⟩
    exact rfl
  | _ => exact rfl

theorem talk_agree (e : PairEvent) (t : Talk RingBuffer) (u : QueueTalk) (h : t.Refines u) : Agree Talk.Refines (Talk.step e t) (Talk.step e u) := by
  obtain ⟨h, accepted, read⟩ := h
  rename_i p q
  refine (step_agree e p q h).bind fun p' q' h' => ?_
  cases e with
  | user x c =>
    refine .ite (by rw [(h.ends x).entry_eq]) (fun _ _ => .mk h' _ _) fun _ _ => ?_
    refine (taken_agree (h.ends x).s c).bind ?_
    rintro taken _ rfl
    refine (given_agree (h.ends x).s c).bind ?_
    rintro given _ rfl
    exact .mk h' _ _
  | _ => exact .mk h' _ _

theorem pairFits_congr {p : Pair RingBuffer} {q : QueuePair} (h : p.Refines q) (e : PairEvent) : p.Fits e ↔ q.Fits e := by
  cases e with
  | tick x connected cfg codes =>
    unfold Pair.Fits
    dsimp only
    rw [(h.ends x).entry_eq, (h.ends x).outps_eq, fits_congr (h.ends x).s]
  | _ => rfl

theorem rb_congr (h : s.Refines u) : s.rb.bytes = u.rb.items := by
  cases h with
  | mk _ _ _ _ _ _ _ hrb hwb => exact hrb.bytes_eq

theorem wb_congr (h : s.Refines u) : s.wb.bytes = u.wb.items := by
  cases h with
  | mk _ _ _ _ _ _ _ hrb hwb => exact hwb.bytes_eq

end

instance (q : QueuePair) : (e : PairEvent) → Decidable (q.Fits e)
  | .user _ _ => .isTrue trivial
  | .deliver _ _ _ => .isTrue trivial
  | .tick x connected cfg codes =>
    inferInstanceAs (Decidable ((flushOutps (q.ends x).outps ⟨cfg, codes, []⟩).2.2 = false → (q.ends x).entry = .present →
      Mux.Fits (q.ends x).s (.tick connected cfg (flushOutps (q.ends x).outps ⟨cfg, codes, []⟩).2.1.codes)))

/-- For every run of the two peers of a stream in which the buffers that ticks resize hold what is in them: what
is read at one end is always the front of what was accepted at the other. While the end is open for reading, what
was read, what is in `rb`, what is on its way and what is in the other end's `wb` make up all that was accepted,
in this order; and when the `T_FIN` gets there, what was read and what is in `rb` do. -/
theorem stream_integrity {id : Nat} {ctx : Bool} {p₀ : Pair RingBuffer} {t : Talk RingBuffer} {es : List PairEvent}
    (h₀ : joined id ctx = .ok p₀) (h : Run Talk.step (fun t e => t.p.Fits e) (silent p₀) es t) (x : Side) :
    t.read x <+: t.accepted x.other ∧
    ((t.p.ends x).s.flag.readShutdown = false →
      t.read x ++ (t.p.ends x).s.rb.bytes ++ payloads (t.p.wire x) ++ (t.p.ends x.other).s.wb.bytes = t.accepted x.other) ∧
    ((t.p.ends x).s.flag.readShutdown = false → (t.p.wire x).head? = some .fin →
      t.read x ++ (t.p.ends x).s.rb.bytes = t.accepted x.other) := by
  obtain ⟨q₀, hq₀, hpq₀⟩ := (joined_agree id ctx).exists_ok h₀
  rw [joined_eq] at hq₀
  cases hq₀
  obtain ⟨u, hrun, htu⟩ := Agree.run (D := fun u e => u.p.Fits e) talk_agree
    (fun e t u htu hfits => by obtain ⟨htu, _, _⟩ := htu; exact (pairFits_congr htu e).1 hfits) (.mk hpq₀ (fun _ => []) fun _ => []) h
  have hu : Intact u := hrun.inv Intact (fun u e u' hu hfits hstep => hu.step hfits hstep) (intact_joined id ctx)
  obtain ⟨hpq, accepted, read⟩ := htu
  obtain ⟨gone, hflow⟩ := hu.flows x
  dsimp only at hflow ⊢
  rw [readShutdown_congr hpq, hpq.wire_eq, rb_congr (hpq.ends x).s, wb_congr (hpq.ends x.other).s]
  refine ⟨hflow.read_prefix, hflow.accepted_eq, fun ho hfin => ?_⟩
  obtain ⟨wire, hwire⟩ := List.head?_eq_some_iff.1 hfin
  rw [hwire] at hflow
  exact hflow.fin ho

/-- The opener writes three bytes and closes, the acceptor gets them and reads two; the `T_FIN` is on its way. -/
def writeAndFin : List PairEvent :=
  [.user .opener (.write [1, 2, 3]), .tick .opener true smallCfg [ok, ok], .user .opener .closeWrite, .tick .opener true smallCfg [ok],
    .deliver .acceptor true ok, .deliver .acceptor true ok, .user .acceptor (.read 2)]

theorem stream_integrity_fin :
    ∃ (p₀ : Pair RingBuffer) (t : Talk RingBuffer), joined 1 false = .ok p₀ ∧
      Run Talk.step (fun t e => t.p.Fits e) (silent p₀) writeAndFin t ∧ t.accepted .opener = [1, 2, 3] ∧ t.read .acceptor = [1, 2] ∧
      t.read .acceptor ++ (t.p.ends .acceptor).s.rb.bytes = [1, 2, 3] := by
  obtain ⟨p₀, h₀, hpq₀⟩ := (joined_agree 1 false).symm.exists_ok (joined_eq 1 false)
  obtain ⟨u, hrun, hacc, hread, hwire, hopen⟩ := Run.of_decide (f := Talk.step) (s := silent (joinedQueue 1 false)) writeAndFin
    (P := fun u e => u.p.Fits e) (Q := fun u => u.accepted .opener = [1, 2, 3] ∧ u.read .acceptor = [1, 2] ∧
      u.p.wire .acceptor = [.fin] ∧ (u.p.ends .acceptor).s.flag.readShutdown = false) (by decide +kernel)
  obtain ⟨t, ht, htu⟩ := Agree.run (R := fun u t => Talk.Refines t u) (D := fun t e => t.p.Fits e)
    (fun e u t htu => (talk_agree e t u htu).symm) (fun e u t htu hfits => by obtain ⟨htu, _, _⟩ := htu; exact (pairFits_congr htu e).2 hfits)
    (.mk hpq₀ (fun _ => []) fun _ => []) hrun
  have hintegrity := (stream_integrity h₀ ht .acceptor).2.2
  obtain ⟨hpq, accepted, read⟩ := htu
  dsimp only at hacc hread hintegrity
  rw [readShutdown_congr hpq, hpq.wire_eq] at hintegrity
  exact ⟨p₀, _, h₀, ht, hacc, hread, (hintegrity hopen (by rw [hwire]; rfl)).trans hacc⟩

end Wawo.Mux
