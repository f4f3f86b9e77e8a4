import Wawo.Mux.Calls

/-!
# Two peers and their channel (`mux_cargo.hpp`)

The two ends of one stream id. `opener` has called `stream_open`; `acceptor` gets its stream from the `T_SYN`,
and until then it has the stream that `init` makes. `wire x` is what is on its way to `x`, first in, first out.
Both peers stay attached to their sockets. `Pair.step` is one event at either end; the user may go on calling a
stream that is no longer in the map.
-/

namespace Wawo.Mux

open Lts

inductive Side
  | opener
  | acceptor
deriving DecidableEq

def Side.other : Side → Side
  | .opener => .acceptor
  | .acceptor => .opener

@[simp] theorem Side.other_other (x : Side) : x.other.other = x := by
  cases x <;> rfl

theorem Side.other_ne (x : Side) : x.other ≠ x := by
  cases x <;> decide

theorem Side.eq_or_eq_other (x y : Side) : y = x ∨ y = x.other := by
  cases x <;> cases y <;> decide

/-- Whether the stream is in `m_stream_map` -/
inductive Entry
  | absent
  | present
  | erased
deriving DecidableEq

structure End (ρ : Type) where
  entry : Entry
  s : Stream ρ
  outps : Nat -- the `T_RST` of the stream that are in `m_outps`

structure Pair (ρ : Type) where
  id : Nat
  ends : Side → End ρ
  wire : Side → List Frame

/-- What the user of a stream calls -/
inductive UserCall
  | write (opack : List Byte)
  | read (max : Nat)
  | closeRead
  | closeWrite
  | close

def UserCall.call : UserCall → StreamCall
  | .write opack => .write opack
  | .read max => .read max
  | .closeRead => .closeRead
  | .closeWrite => .closeWrite
  | .close => .close

/-- The loop over `m_outps` in `_do_tick`: what is left of it, the socket after it, and whether the tick ends -/
def flushOutps : Nat → So → Nat × So × Bool
  | 0, so => (0, so, false)
  | outps + 1, so =>
    let (sndrt, so) := so.sendPacket .rst
    if sndrt = eSocketSendBlock then (outps + 1, so, true) else flushOutps outps so

namespace Pair

variable {ρ : Type} (p : Pair ρ) (x : Side)

def setEnd (e : End ρ) : Pair ρ := { p with ends := Function.update p.ends x e }

/-- The frames that `x` sends go to the other side. -/
def send (sent : List Frame) : Pair ρ := { p with wire := Function.update p.wire x.other (p.wire x.other ++ sent) }

/-- `wire` is left of what is on its way to `x`. -/
def pop (wire : List Frame) : Pair ρ := { p with wire := Function.update p.wire x wire }

@[simp] theorem setEnd_self (e : End ρ) : (p.setEnd x e).ends x = e := Function.update_self ..

@[simp] theorem setEnd_other (e : End ρ) : (p.setEnd x e).ends x.other = p.ends x.other :=
  Function.update_of_ne x.other_ne _ _

@[simp] theorem setEnd_wire (e : End ρ) : (p.setEnd x e).wire = p.wire := rfl

@[simp] theorem send_ends (sent : List Frame) : (p.send x sent).ends = p.ends := rfl

@[simp] theorem send_self (sent : List Frame) : (p.send x sent).wire x = p.wire x :=
  Function.update_of_ne x.other_ne.symm _ _

@[simp] theorem send_other (sent : List Frame) : (p.send x sent).wire x.other = p.wire x.other ++ sent := Function.update_self ..

@[simp] theorem pop_ends (wire : List Frame) : (p.pop x wire).ends = p.ends := rfl

@[simp] theorem pop_self (wire : List Frame) : (p.pop x wire).wire x = wire := Function.update_self ..

@[simp] theorem pop_other (wire : List Frame) : (p.pop x wire).wire x.other = p.wire x.other :=
  Function.update_of_ne x.other_ne _ _

theorem setEnd_ends_self : p.setEnd x (p.ends x) = p := by
  unfold setEnd
  rw [Function.update_eq_self]

theorem send_nil : p.send x [] = p := by
  unfold send
  rw [List.append_nil, Function.update_eq_self]

/-- `_stream_snd_rst`; `sndrt` is what `send_packet` returns. -/
def sndRst (sndrt : Int) : Pair ρ :=
  if sndrt = ok then p.send x [.rst]
  else if sndrt = eSocketSendBlock then p.setEnd x { p.ends x with outps := (p.ends x).outps + 1 }
  else p

variable [Ring ρ]

/-- A call of the user, who has a stream once there is one -/
def user (c : UserCall) : Except ByteFault (Pair ρ) := do
  if (p.ends x).entry = .absent then
    return p
  let o ← (p.ends x).s.call c.call
  return p.setEnd x { p.ends x with s := o.s }

/-- `_do_tick` -/
def tick (connected : Bool) (cfg : SocketBufferCfg) (codes : List Int) : Except ByteFault (Pair ρ) := do
  let e := p.ends x
  let (outps, so, blocked) := flushOutps e.outps ⟨cfg, codes, []⟩
  let p := (p.setEnd x { e with outps := outps }).send x so.sent
  if blocked = true ∨ e.entry ≠ .present then
    return p
  let o ← e.s.call (.tick connected cfg so.codes)
  let entry := if o.s.state = .recycle then .erased else .present
  return (p.setEnd x { entry := entry, s := o.s, outps := outps }).send x o.sent

/-- `on_event(E_PACKET_ARRIVE)` for the first frame on the way to `x`, if there is one; `ctx` is what the receiver
of `T_ACCEPTED` makes of it, `sndrt` what `send_packet` returns for a reply. -/
def deliver (ctx : Bool) (sndrt : Int) : Except ByteFault (Pair ρ) :=
  match p.wire x with
  | [] => .ok p
  | inpack :: wire => do
    require (p.id ≠ 0) .muxId
    let p := p.pop x wire
    if (p.ends x).entry = .present then
      let o ← (p.ends x).s.call (.arrive inpack)
      let p := p.setEnd x { p.ends x with s := o.s }
      return if o.rst = true then p.sndRst x sndrt else p
    match inpack with
    | .syn =>
      let s ← streamAccept p.id ctx
      return p.setEnd x { p.ends x with entry := .present, s := s }
    | .rst => return p
    | _ => return p.sndRst x sndrt

end Pair

inductive PairEvent
  | user (x : Side) (c : UserCall)
  | tick (x : Side) (connected : Bool) (cfg : SocketBufferCfg) (codes : List Int)
  | deliver (x : Side) (ctx : Bool) (sndrt : Int)

section

variable {ρ : Type} [Ring ρ]

def Pair.step : PairEvent → Pair ρ → Except ByteFault (Pair ρ)
  | .user x c, p => p.user x c
  | .tick x connected cfg codes, p => p.tick x connected cfg codes
  | .deliver x ctx sndrt, p => p.deliver x ctx sndrt

/-- After `stream_open` -/
def joined (id : Nat) (ctx : Bool) : Except ByteFault (Pair ρ) := do
  let s ← streamOpen id ctx
  let t ← Stream.init
  return { id := id, ends := fun | .opener => ⟨.present, s, 0⟩ | .acceptor => ⟨.absent, t, 0⟩, wire := fun _ => [] }

end

/-! ### Peers over ring buffers -/

structure End.Refines (e : End RingBuffer) (d : End (BoundedQueue Byte)) : Prop where
  entry_eq : e.entry = d.entry
  s : e.s.Refines d.s
  outps_eq : e.outps = d.outps

theorem End.Refines.of {s : Stream RingBuffer} {t : QueueStream} (h : s.Refines t) (entry : Entry) (outps : Nat) :
    End.Refines ⟨entry, s, outps⟩ ⟨entry, t, outps⟩ :=
  ⟨rfl, h, rfl⟩

/-- The same frames on the way, and ends that agree -/
structure Pair.Refines (p : Pair RingBuffer) (q : Pair (BoundedQueue Byte)) : Prop where
  id_eq : p.id = q.id
  ends : ∀ x, (p.ends x).Refines (q.ends x)
  wire_eq : p.wire = q.wire

section

variable {p : Pair RingBuffer} {q : Pair (BoundedQueue Byte)} {x : Side} {e : End RingBuffer} {d : End (BoundedQueue Byte)}

theorem Pair.Refines.setEnd (h : p.Refines q) (he : e.Refines d) : (p.setEnd x e).Refines (q.setEnd x d) where
  id_eq := h.id_eq
  ends y := by
    rcases Side.eq_or_eq_other x y with rfl | rfl
    · rw [Pair.setEnd_self, Pair.setEnd_self]
      exact he
    · rw [Pair.setEnd_other, Pair.setEnd_other]
      exact h.ends _
  wire_eq := h.wire_eq

theorem Pair.Refines.pop (h : p.Refines q) (wire : List Frame) : (p.pop x wire).Refines (q.pop x wire) :=
  ⟨h.id_eq, h.ends, by unfold Pair.pop; rw [h.wire_eq]⟩

theorem Pair.Refines.send (h : p.Refines q) (sent : List Frame) : (p.send x sent).Refines (q.send x sent) :=
  ⟨h.id_eq, h.ends, by unfold Pair.send; rw [h.wire_eq]⟩

theorem Pair.Refines.sndRst (h : p.Refines q) (sndrt : Int) : (p.sndRst x sndrt).Refines (q.sndRst x sndrt) := by
  unfold Pair.sndRst
  split_ifs
  · exact h.send _
  · dsimp only
    rw [(h.ends x).entry_eq, (h.ends x).outps_eq]
    exact h.setEnd (.of (h.ends x).s _ _)
  · exact h

theorem user_agree (h : p.Refines q) (c : UserCall) : Agree Pair.Refines (p.user x c) (q.user x c) := by
  have he := h.ends x
  refine .ite (by rw [he.entry_eq]) (fun _ _ => h) fun _ _ => ?_
  refine (call_agree he.s c.call).bind ?_
  rintro _ _ ⟨hs, _, _, _⟩
  dsimp only
  rw [he.entry_eq, he.outps_eq]
  exact h.setEnd (.of hs _ _)

theorem pairTick_agree (h : p.Refines q) (connected : Bool) (cfg : SocketBufferCfg) (codes : List Int) :
    Agree Pair.Refines (p.tick x connected cfg codes) (q.tick x connected cfg codes) := by
  have he := h.ends x
  unfold Pair.tick
  dsimp only
  rw [he.outps_eq, he.entry_eq]
  generalize flushOutps (q.ends x).outps ⟨cfg, codes, []⟩ = flushed
  have h' := (h.setEnd (x := x) (.of he.s (q.ends x).entry flushed.1)).send (x := x) flushed.2.1.sent
  refine .ite Iff.rfl (fun _ _ => h') fun _ _ => ?_
  refine (call_agree he.s _).bind ?_
  rintro _ _ ⟨hs, sent, _, _⟩
  have hstate : ∀ {s : Stream RingBuffer} {t : QueueStream}, s.Refines t → s.state = t.state := by
    rintro _ _ ⟨⟩
    rfl
  dsimp only
  rw [hstate hs]
  exact (h'.setEnd (.of hs _ _)).send sent

theorem deliver_agree (h : p.Refines q) (ctx : Bool) (sndrt : Int) : Agree Pair.Refines (p.deliver x ctx sndrt) (q.deliver x ctx sndrt) := by
  have he := h.ends x
  unfold Pair.deliver
  rw [h.wire_eq]
  cases q.wire x with
  | nil => exact h
  | cons inpack wire =>
    dsimp only
    rw [h.id_eq]
    refine Stream.Refines.require_agree ?_
    have h' := h.pop (x := x) wire
    refine .ite (by rw [Pair.pop_ends, Pair.pop_ends, he.entry_eq]) (fun _ _ => ?_) fun _ _ => ?_
    · refine (call_agree he.s _).bind ?_
      rintro _ _ ⟨hs, _, _, rst⟩
      have hset := h'.setEnd (x := x) (.of hs (q.ends x).entry (q.ends x).outps)
      dsimp only
      rw [Pair.pop_ends, Pair.pop_ends, he.entry_eq, he.outps_eq]
      cases rst with
      | true => exact hset.sndRst sndrt
      | false => exact hset
    · cases inpack with
      | syn =>
        dsimp only
        rw [h'.id_eq]
        refine (streamAccept_agree _ ctx).bind fun s t hs => ?_
        rw [Pair.pop_ends, Pair.pop_ends, he.outps_eq]
        exact h'.setEnd (.of hs _ _)
      | rst => exact h'
      | _ => exact h'.sndRst sndrt

theorem step_agree (e : PairEvent) (p : Pair RingBuffer) (q : Pair (BoundedQueue Byte)) (h : p.Refines q) :
    Agree Pair.Refines (Pair.step e p) (Pair.step e q) := by
  cases e with
  | user x c => exact user_agree h c
  | tick x connected cfg codes => exact pairTick_agree h connected cfg codes
  | deliver x ctx sndrt => exact deliver_agree h ctx sndrt

theorem joined_agree (id : Nat) (ctx : Bool) : Agree Pair.Refines (joined id ctx : Except ByteFault (Pair RingBuffer)) (joined id ctx) := by
  refine (streamOpen_agree id ctx).bind fun s t hs => Stream.Refines.init_agree.bind fun s' t' hs' => ?_
  refine ⟨rfl, fun x => ?_, rfl⟩
  cases x with
  | opener => exact ⟨rfl, hs, rfl⟩
  | acceptor => exact ⟨rfl, hs', rfl⟩

end

end Wawo.Mux
