import Mathlib.Data.List.Nodup
import Mathlib.Logic.Function.Basic
import Wawo.Lib.Run

/-!
# `peer_proxy` (`peer_proxy.hpp`)

`m_peers` is changed by the users (`add_peer`, `remove_peer`) and by the ticker thread, which executes what
`on_event` has planned in `m_ops`. All of them hold `m_mutex` shared, so that they interleave at the sections
under `m_ops_mutex` and `m_peers_mutex`: a call of a user and of `on_event` is one section, the ticker thread
has one for taking a planned operation and one for executing it. The step of `add_peer` and of `remove_peer` is its
section under `m_peers_mutex`, with what it does before that; conditions on the step are about the state which that
section finds, so that an `E_CLOSE` can come between the call of `remove_peer` and its step. Peers and sockets are
known by their pointers.

An `E_CLOSE` plans the removal of its peer. A removal that is planned for a peer which is gone when the tick
executes it fails the assertion of `_remove_peer`. That does not happen as long as no one removes a peer, and
no second `E_CLOSE` comes for it, while its removal is planned (`membership`).
-/

namespace Wawo

open Lts

inductive PeerOpCode
  | none
  | peerAdd
  | peerRemove
  | asyncWriteBegin
  | asyncWriteEnd
deriving DecidableEq

structure PeerOp where
  code : PeerOpCode
  peer : Nat
  so : Nat
deriving DecidableEq

/-- `_RunState` -/
inductive ProxyState
  | idle
  | run
  | exit
deriving DecidableEq

/-- The ids of the events that `peer_proxy` listens to. -/
inductive PeerEventId
  | close
  | wrBlock
  | wrUnblock
deriving DecidableEq

/-- The operation an event plans. -/
def PeerEventId.code : PeerEventId → PeerOpCode
  | .close => .peerRemove
  | .wrBlock => .asyncWriteBegin
  | .wrUnblock => .asyncWriteEnd

inductive ProxyFault
  | attached -- `_register_evts`: `m_so == NULL`
  | state -- `_add_peer`: `m_state == S_RUN`
  | noSocket -- `_add_peer`: `peer->get_socket() != NULL`
  | present -- `_add_peer`: `it == m_peers.end()`
  | absent -- `_remove_peer`: `it != m_peers.end()`
deriving DecidableEq

/-- Where the ticker thread is. -/
inductive TickPhase
  | idle
  | loop -- in front of the `while` of `_execute_ops`
  | popped (op : PeerOp) -- behind `_pop_op`
deriving DecidableEq

structure PeerProxy where
  state : ProxyState
  ops : List PeerOp
  peers : List Nat
  asyncWriteSockets : List Nat
  phase : TickPhase
  socket : Nat → Option Nat -- `m_so` of the peers
  added : List Nat -- history: the peers given to `add_peer`
  removed : List Nat -- history: the peers removed

namespace PeerProxy

/-- Behind `start`. -/
def started : PeerProxy := ⟨.run, [], [], [], .idle, fun _ => none, [], []⟩

variable (s : PeerProxy)

def planOp (op : PeerOp) : PeerProxy := { s with ops := s.ops ++ [op] }

/-- `_add_peer`; registering the listener changes only the peer. -/
def addToPeers (p : Nat) : Except ProxyFault PeerProxy :=
  if s.state ≠ .run then .error .state
  else if s.socket p = none then .error .noSocket
  else if p ∈ s.peers then .error .present
  else .ok { s with peers := s.peers ++ [p], added := s.added ++ [p] }

/-- `attach_socket` -/
def attachSocket (p so : Nat) : Except ProxyFault PeerProxy :=
  if s.socket p ≠ none then .error .attached
  else .ok { s with socket := Function.update s.socket p (some so) }

/-- `detach_socket` -/
def detachSocket (p : Nat) : PeerProxy := { s with socket := Function.update s.socket p none }

/-- `_remove_peer` -/
def removeFromPeers (p : Nat) : Except ProxyFault PeerProxy :=
  if p ∉ s.peers then .error .absent
  else .ok { s with peers := s.peers.erase p, removed := s.removed ++ [p] }

def addPeer (p so : Nat) : Except ProxyFault PeerProxy :=
  if s.state ≠ .run then .ok s
  else do
    let s ← s.attachSocket p so
    s.addToPeers p

def removePeer (p : Nat) : Except ProxyFault PeerProxy :=
  if s.state ≠ .run then .ok s else (s.detachSocket p).removeFromPeers p

def onEvent (id : PeerEventId) (p so : Nat) : PeerProxy :=
  if s.state ≠ .run then s else s.planOp ⟨id.code, p, so⟩

/-- The `switch` of `_execute_ops`. -/
def execute (op : PeerOp) : Except ProxyFault PeerProxy :=
  match op.code with
  | .peerAdd => s.addToPeers op.peer
  | .peerRemove => (s.detachSocket op.peer).removeFromPeers op.peer
  | .asyncWriteBegin =>
    .ok (if op.so ∈ s.asyncWriteSockets then s else { s with asyncWriteSockets := s.asyncWriteSockets ++ [op.so] })
  | .asyncWriteEnd => .ok { s with asyncWriteSockets := s.asyncWriteSockets.erase op.so }
  | .none => .ok s

/-- `_check_async_write_sockets`; `gone` are the sockets whose write side is shut or whose time is up. -/
def checkAsyncWriteSockets (gone : Nat → Bool) : PeerProxy :=
  { s with asyncWriteSockets := s.asyncWriteSockets.filter fun so => !gone so }

/-- The next section of the ticker thread. -/
def tick (gone : Nat → Bool) : Except ProxyFault PeerProxy :=
  match s.phase with
  | .idle => .ok (if s.state = .run then { s with phase := .loop } else s)
  | .loop =>
    match s.ops with
    | [] => .ok { s.checkAsyncWriteSockets gone with phase := .idle }
    | op :: rest => .ok { s with ops := rest, phase := .popped op }
  | .popped op =>
    if op.code = .none then .ok { s.checkAsyncWriteSockets gone with phase := .idle }
    else (s.execute op).map fun s => { s with phase := .loop }

/-- What can happen while the proxy runs. -/
inductive Event
  | addPeer (p so : Nat)
  | removePeer (p : Nat)
  | event (id : PeerEventId) (p so : Nat)
  | tick (gone : Nat → Bool)

def step : Event → PeerProxy → Except ProxyFault PeerProxy
  | .addPeer p so, s => s.addPeer p so
  | .removePeer p, s => s.removePeer p
  | .event id p so, s => .ok (s.onEvent id p so)
  | .tick gone, s => s.tick gone

/-- Each peer is added once at most, the user removes peers that are there, and events come from peers that
were added. -/
def Allowed (s : PeerProxy) (e : Event) : Prop :=
  match e with
  | .addPeer p _ => p ∉ s.added
  | .removePeer p => p ∈ s.peers
  | .event _ p _ => p ∈ s.added
  | .tick _ => True

instance (s : PeerProxy) (e : Event) : Decidable (s.Allowed e) := by unfold Allowed; cases e <;> infer_instance

/-- The peer whose removal an operation is. -/
def removal (op : PeerOp) : Option Nat := if op.code = .peerRemove then some op.peer else none

/-- The planned operations, with the one the tick is about to execute. -/
def pending : List PeerOp :=
  match s.phase with
  | .popped op => op :: s.ops
  | _ => s.ops

def planned : List Nat := s.pending.filterMap removal

/-- A peer that the user removes has no removal planned, and an `E_CLOSE` comes from a peer that is there
and has none planned. -/
def Single (s : PeerProxy) (e : Event) : Prop :=
  match e with
  | .removePeer p => p ∉ s.planned
  | .event .close p _ => p ∈ s.peers ∧ p ∉ s.planned
  | _ => True

instance (s : PeerProxy) (e : Event) : Decidable (s.Single e) := by
  unfold Single; split <;> infer_instance

/-! ### Removals -/

/-- Each planned removal is of a peer that is there, and no two are of the same peer. -/
structure Inv (s : PeerProxy) : Prop where
  run : s.state = .run
  peers : s.peers.Nodup
  added : ∀ p ∈ s.peers, p ∈ s.added
  attached : ∀ p, s.socket p ≠ none → p ∈ s.peers
  removed : s.removed.Nodup
  gone : ∀ p ∈ s.removed, p ∈ s.added ∧ p ∉ s.peers
  planned : s.planned.Nodup
  present : ∀ p ∈ s.planned, p ∈ s.peers
  noAdd : ∀ op ∈ s.pending, op.code ≠ .peerAdd

variable {s} {s' : PeerProxy} {p so : Nat} {op : PeerOp} {id : PeerEventId}

theorem Inv.started : Inv started :=
  ⟨rfl, List.nodup_nil, nofun, fun _ h => absurd rfl h, List.nodup_nil, nofun, List.nodup_nil, nofun, nofun⟩

theorem removal_eq_some : removal op = some p ↔ op.code = .peerRemove ∧ op.peer = p := by
  unfold removal
  split <;> simp [*]

theorem pending_planOp (op : PeerOp) : (s.planOp op).pending = s.pending ++ [op] := by
  unfold pending planOp
  dsimp only
  split <;> simp

theorem planned_planOp (op : PeerOp) : (s.planOp op).planned = s.planned ++ (removal op).toList := by
  unfold planned
  rw [pending_planOp, List.filterMap_append]
  cases h : removal op <;> simp [h]

theorem addPeer_eq_ok (h : Inv s) (hp : p ∉ s.added) : s.addPeer p so =
    .ok { s with socket := Function.update s.socket p (some so), peers := s.peers ++ [p], added := s.added ++ [p] } := by
  have hpeer : p ∉ s.peers := fun hin => hp (h.added p hin)
  have hso : s.socket p = none := by
    by_contra hne
    exact hpeer (h.attached p hne)
  unfold addPeer attachSocket addToPeers
  simp [h.run, hso, hpeer, Lts.ok_bind]

theorem detach_removeFromPeers (hp : p ∈ s.peers) : (s.detachSocket p).removeFromPeers p =
    .ok { s.detachSocket p with peers := s.peers.erase p, removed := s.removed ++ [p] } := by
  unfold removeFromPeers detachSocket
  dsimp only
  rw [if_neg (not_not_intro hp)]

/-- A removal of a peer that has none planned any more. -/
theorem Inv.remove (h : Inv s) (hp : p ∈ s.peers) {rest : List PeerOp} {ph : TickPhase} (hs' : s' = { s.detachSocket p with
      peers := s.peers.erase p, removed := s.removed ++ [p], ops := rest, phase := ph })
    (hpending : s'.pending <:+ s.pending) (hS : p ∉ s'.planned) : Inv s' := by
  have hplanned : s'.planned <:+ s.planned := hpending.filterMap removal
  subst hs'
  have hmem : ∀ q, q ∈ s.peers.erase p ↔ q ≠ p ∧ q ∈ s.peers := fun q => h.peers.mem_erase_iff
  refine ⟨h.run, h.peers.erase p, fun q hq => h.added q (List.mem_of_mem_erase hq), fun q hq => ?_, ?_, fun q hq => ?_,
    h.planned.sublist hplanned.sublist, fun q hq => (hmem q).2 ⟨?_, h.present q (hplanned.subset hq)⟩,
    fun op hop => h.noAdd op (hpending.subset hop)⟩
  · have hqp : q ≠ p := by
      rintro rfl
      exact hq (Function.update_self ..)
    refine (hmem q).2 ⟨hqp, h.attached q fun hnone => hq ?_⟩
    exact (Function.update_of_ne hqp ..).trans hnone
  · rw [List.nodup_append]
    exact ⟨h.removed, List.nodup_singleton p, fun q hq r hr => by
      rw [List.mem_singleton.1 hr]
      rintro rfl
      exact (h.gone q hq).2 hp⟩
  · dsimp only at hq ⊢
    rw [List.mem_append, List.mem_singleton] at hq
    rw [hmem]
    obtain hq | rfl := hq
    · exact ⟨(h.gone q hq).1, fun hin => (h.gone q hq).2 hin.2⟩
    · exact ⟨h.added q hp, fun hin => hin.1 rfl⟩
  · rintro rfl
    exact hS hq

/-- What changes only the planned operations. -/
theorem Inv.replan (h : Inv s) {sos : List Nat} {rest : List PeerOp} {ph : TickPhase}
    (hs' : s' = { s with asyncWriteSockets := sos, ops := rest, phase := ph }) (hn : s'.planned.Nodup)
    (hp : ∀ q ∈ s'.planned, q ∈ s.peers) (ha : ∀ op ∈ s'.pending, op.code ≠ .peerAdd) : Inv s' := by
  subst hs'
  exact ⟨h.run, h.peers, h.added, h.attached, h.removed, h.gone, hn, hp, ha⟩

theorem Inv.drop (h : Inv s) {sos : List Nat} {rest : List PeerOp} {ph : TickPhase}
    (hs' : s' = { s with asyncWriteSockets := sos, ops := rest, phase := ph }) (hpending : s'.pending <:+ s.pending) :
    Inv s' := by
  have hplanned : s'.planned <:+ s.planned := hpending.filterMap removal
  exact h.replan hs' (h.planned.sublist hplanned.sublist) (fun q hq => h.present q (hplanned.subset hq))
    fun op hop => h.noAdd op (hpending.subset hop)

theorem Inv.addPeer (h : Inv s) (hp : p ∉ s.added) (hs' : s.addPeer p so = .ok s') : Inv s' := by
  rw [addPeer_eq_ok h hp] at hs'
  cases hs'
  refine ⟨h.run, ?_, fun q hq => ?_, fun q hq => ?_, h.removed, fun q hq => ?_, h.planned, fun q hq => ?_, h.noAdd⟩
  · rw [List.nodup_append]
    exact ⟨h.peers, List.nodup_singleton p, fun q hq r hr => by
      rw [List.mem_singleton.1 hr]
      rintro rfl
      exact hp (h.added q hq)⟩
  · rw [List.mem_append] at hq ⊢
    exact hq.imp_left (h.added q)
  · by_cases hqp : q = p
    · exact List.mem_append_right _ (List.mem_singleton.2 hqp)
    · dsimp only at hq
      rw [Function.update_of_ne hqp] at hq
      exact List.mem_append_left _ (h.attached q hq)
  · refine ⟨List.mem_append_left _ (h.gone q hq).1, fun hin => ?_⟩
    rw [List.mem_append, List.mem_singleton] at hin
    obtain hin | rfl := hin
    · exact (h.gone q hq).2 hin
    · exact hp (h.gone q hq).1
  · exact List.mem_append_left _ (h.present q hq)

theorem Inv.removePeer (h : Inv s) (hp : p ∈ s.peers) (hS : p ∉ s.planned) (hs' : s.removePeer p = .ok s') : Inv s' := by
  unfold PeerProxy.removePeer at hs'
  rw [if_neg (not_not_intro h.run), detach_removeFromPeers hp] at hs'
  cases hs'
  exact h.remove hp rfl List.suffix_rfl hS

theorem Inv.onEvent (h : Inv s) (hS : s.Single (.event id p so)) : Inv (s.onEvent id p so) := by
  unfold PeerProxy.onEvent
  rw [if_neg (not_not_intro h.run)]
  refine h.replan rfl ?_ ?_ fun op hop => ?_
  · rw [planned_planOp]
    cases id with
    | close =>
      refine List.nodup_append.2 ⟨h.planned, List.nodup_singleton p, fun q hq r hr => ?_⟩
      rw [List.mem_singleton.1 hr]
      rintro rfl
      exact hS.2 hq
    | wrBlock | wrUnblock => exact (List.append_nil s.planned).symm ▸ h.planned
  · rw [planned_planOp]
    intro q hq
    cases id with
    | close =>
      obtain hq | hq := List.mem_append.1 hq
      · exact h.present q hq
      · exact List.mem_singleton.1 hq ▸ hS.1
    | wrBlock | wrUnblock => exact h.present q (by simpa [removal, PeerEventId.code] using hq)
  · rw [pending_planOp, List.mem_append, List.mem_singleton] at hop
    obtain hop | rfl := hop
    · exact h.noAdd op hop
    · cases id <;> nofun

theorem pending_eq_ops (h : ∀ op, s.phase ≠ .popped op) : s.pending = s.ops := by
  unfold pending
  split
  case h_1 op hph => exact absurd hph (h op)
  case h_2 => rfl

theorem pending_popped (h : s.phase = .popped op) : s.pending = op :: s.ops := by
  unfold pending
  rw [h]

/-- Executing a planned operation finds its peer. -/
theorem Inv.execute (h : Inv s) (hph : s.phase = .popped op) :
    ∃ s₁, s.execute op = .ok s₁ ∧ Inv { s₁ with phase := .loop } := by
  have hpending := pending_popped hph
  have hsuffix : s.ops <:+ s.pending := hpending ▸ List.suffix_cons op s.ops
  unfold PeerProxy.execute
  split
  case h_1 hc => exact absurd hc (h.noAdd op (hpending ▸ List.mem_cons_self))
  case h_2 hc =>
    have hplanned : s.planned = op.peer :: s.ops.filterMap removal := by
      unfold PeerProxy.planned
      rw [hpending, List.filterMap_cons, removal_eq_some.2 ⟨hc, rfl⟩]
    have hp : op.peer ∈ s.peers := h.present _ (hplanned ▸ List.mem_cons_self)
    refine ⟨_, detach_removeFromPeers hp, h.remove hp rfl hsuffix ?_⟩
    have hn := h.planned
    rw [hplanned] at hn
    exact (List.nodup_cons.1 hn).1
  case h_3 =>
    refine ⟨_, rfl, ?_⟩
    split
    · exact h.drop rfl hsuffix
    · exact h.drop rfl hsuffix
  case h_4 => exact ⟨_, rfl, h.drop rfl hsuffix⟩
  case h_5 => exact ⟨_, rfl, h.drop rfl hsuffix⟩

theorem Inv.tick (h : Inv s) (gone : Nat → Bool) : ∃ s', s.tick gone = .ok s' ∧ Inv s' := by
  unfold PeerProxy.tick
  split
  case h_1 hph =>
    refine ⟨_, rfl, ?_⟩
    rw [if_pos h.run]
    exact h.drop rfl (pending_eq_ops (s := s) (by rw [hph]; nofun) ▸ List.suffix_rfl)
  case h_2 hph =>
    have hpending := pending_eq_ops (s := s) (by rw [hph]; nofun)
    split
    case h_1 hops => exact ⟨_, rfl, h.drop rfl (hpending ▸ List.suffix_rfl)⟩
    case h_2 op rest hops => exact ⟨_, rfl, h.drop rfl (by rw [hpending, hops]; exact List.suffix_rfl)⟩
  case h_3 op hph =>
    split
    · exact ⟨_, rfl, h.drop rfl (by rw [pending_popped hph]; exact List.suffix_cons ..)⟩
    · obtain ⟨s₁, hs₁, hInv⟩ := h.execute hph
      exact ⟨_, by rw [hs₁]; rfl, hInv⟩

theorem Inv.step {e : Event} (h : Inv s) (ha : s.Allowed e) (hS : s.Single e) (hs' : step e s = .ok s') : Inv s' := by
  cases e with
  | addPeer p so => exact h.addPeer ha hs'
  | removePeer p => exact h.removePeer ha hS hs'
  | event id p so =>
    cases hs'
    exact h.onEvent hS
  | tick gone =>
    obtain ⟨t, ht, hInv⟩ := h.tick gone
    cases ht.symm.trans hs'
    exact hInv

/-- `m_peers` has each peer once, a peer is removed once at most, and no assertion fails, whatever comes next. -/
structure Membership (s : PeerProxy) : Prop where
  peers : s.peers.Nodup
  removed : s.removed.Nodup
  no_fault : ∀ e, s.Allowed e → ∃ s', step e s = .ok s'

theorem Inv.agrees (h : Inv s) : Membership s := by
  refine ⟨h.peers, h.removed, fun e ha => ?_⟩
  cases e with
  | addPeer p so => exact ⟨_, addPeer_eq_ok h ha⟩
  | removePeer p =>
    refine ⟨_, Eq.trans ?_ (detach_removeFromPeers ha)⟩
    show s.removePeer p = _
    unfold PeerProxy.removePeer
    rw [if_neg (not_not_intro h.run)]
  | event id p so => exact ⟨_, rfl⟩
  | tick gone =>
    obtain ⟨t, ht, -⟩ := h.tick gone
    exact ⟨t, ht⟩

/-- Every interleaving in which removals are single. -/
theorem membership {es : List Event} (h : Run step (fun s e => s.Allowed e ∧ s.Single e) started es s) : Membership s :=
  (h.inv Inv (fun _ _ _ hs he hstep => hs.step he.1 he.2 hstep) .started).agrees

/-- A peer closes, and the ticker thread begins a tick and takes the operation. -/
def closing : List Event := [.addPeer 1 7, .event .close 1 7, .tick fun _ => false, .tick fun _ => false]

theorem membership_closing : ∃ s, Run step (fun s e => s.Allowed e ∧ s.Single e) started (closing ++ [.tick fun _ => false]) s ∧
    s.peers = [] ∧ s.removed = [1] ∧ Membership s := by
  obtain ⟨s, hrun, hpeers, hremoved⟩ := Run.of_decide (f := step) (P := fun s e => s.Allowed e ∧ s.Single e)
    (closing ++ [.tick fun _ => false]) (s := started) (Q := fun s => s.peers = [] ∧ s.removed = [1]) (by decide)
  exact ⟨s, hrun, hpeers, hremoved, membership hrun⟩

/-- The user removes the peer before the tick executes its removal. -/
theorem remove_overtakes : ∃ es s, Run step Allowed started es s ∧ step (.tick fun _ => false) s = .error .absent ∧
    ¬ Membership s := by
  obtain ⟨s, hrun, hs⟩ := Run.of_decide (f := step) (P := Allowed) (closing ++ [.removePeer 1]) (s := started)
    (Q := fun s => fault? (step (.tick fun _ => false) s) = some .absent) (by decide)
  have hfault := fault?_eq_some.1 hs
  refine ⟨_, s, hrun, hfault, fun h => ?_⟩
  obtain ⟨t, ht⟩ := h.no_fault (.tick fun _ => false) trivial
  cases ht.symm.trans hfault

end PeerProxy
end Wawo
