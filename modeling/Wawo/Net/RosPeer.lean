import Mathlib.Data.List.Nodup
import Mathlib.Data.List.Perm.Basic
import Mathlib.Logic.Function.Basic
import Wawo.Net.RosMessage

/-!
# Requests of `peer::ros` (`peer/ros.hpp`)

`request` puts its entry into `m_requested`, sends, and looks for the entry again where sending has failed. A
response takes the entry with its net id out and calls back behind the lock; the tick and `detach_socket` take
entries out and call back under it. What is done under `m_requested_mutex` is a step, and so is what `request` does
before, between and after; `m_mutex` keeps sending and the whole of `detach_socket` apart. Messages are known by the
order in which their constructor has run, and a callback returns. The counter of the net ids is static in a header, so
that each translation unit has its own: the constructor counts in the unit that it has been compiled into.

Each entry is for good where it has come to: with a handler, called back, or erased by `request` (`owners`). Net ids
tell requests apart as long as no two of them are the messages of one number of two units (`KeepsApart`), as they never
are where one unit makes all the requests of the peer (`keepsApart_of_unit`).
-/

namespace Wawo

open Lts

def ePeerNoSocketAttached : Int := -42001
def ePeerMessageRequestTimeout : Int := -42007

/-- `requested_message`; times are in milliseconds. -/
structure RequestedMessage where
  message : Nat
  cb : Nat
  tsRequest : Nat
  timeout : Nat
deriving DecidableEq

/-- Where the `request` of a message is. -/
inductive RequestPhase
  | idle
  | entered (requested : RequestedMessage) -- in front of the section that enqueues it
  | pushed -- in front of `do_send_message`
  | failed (ec : Int) -- in front of the section that looks for the entry
  | returned (ec : Int)
  | raised -- `do_send_message` has thrown
  | notFound -- the check of the entry has thrown
deriving DecidableEq

inductive RosAnswer
  | respond (netId : UInt32) -- `on_respond`, for a response with this net id
  | error (ec : Int) -- `on_error`
deriving DecidableEq

/-- A call of a callback: the request it is for, the callback, the net id it is told. -/
structure RosCall where
  message : Nat
  cb : Nat
  netId : UInt32
  answer : RosAnswer
deriving DecidableEq

structure RosPeer where
  so : Bool -- `m_so != NULL`
  detaching : Bool -- `detach_socket` holds `m_mutex`
  requested : List RequestedMessage
  created : Nat -- history: the messages of the constructor with data
  aiRosNid : Nat → UInt32 -- `s_ai_ros_nid` of each translation unit
  issued : Nat → Nat -- history: how many messages each unit has made
  origin : Nat → Nat × Nat -- history: the unit of a message, and how many the unit had made before
  netId : Nat → UInt32
  type : Nat → RosType
  phase : Nat → RequestPhase
  handling : List (RequestedMessage × UInt32) -- what the handlers have taken out, and for which response
  calls : List RosCall -- history
  dropped : List Nat -- history: the requests whose entry `request` has erased

namespace RosPeer

def new : RosPeer :=
  { so := false, detaching := false, requested := [], created := 0, aiRosNid := fun _ => 1, issued := fun _ => 0, origin := fun _ => (0, 0),
    netId := fun _ => 0, type := fun _ => .none, phase := fun _ => .idle, handling := [], calls := [], dropped := [] }

variable (s : RosPeer)

def setPhase (m : Nat) (phase : RequestPhase) : RosPeer := { s with phase := Function.update s.phase m phase }

/-- `message::ros(data)`, compiled into the translation unit `unit` -/
def message (unit : Nat) : RosPeer :=
  { s with created := s.created + 1
           aiRosNid := Function.update s.aiRosNid unit (s.aiRosNid unit + 1)
           issued := Function.update s.issued unit (s.issued unit + 1)
           origin := Function.update s.origin s.created (unit, s.issued unit)
           netId := Function.update s.netId s.created (s.aiRosNid unit)
           type := Function.update s.type s.created .none }

def attachSocket : Except ByteFault RosPeer := do
  require (¬ s.detaching) .waits
  require (¬ s.so) .rosAttached
  return { s with so := true }

/-- `request` up to the first section -/
def request (m cb timeout now : Nat) : Except ByteFault RosPeer := do
  require (m < s.created) .waits
  require (s.type m = .none) .rosType
  let s := { s with type := Function.update s.type m .request }
  return s.setPhase m (.entered ⟨m, cb, now, timeout⟩)

/-- The first section of `request` -/
def push (m : Nat) : Except ByteFault RosPeer :=
  match s.phase m with
  | .entered requested => .ok ({ s with requested := s.requested ++ [requested] }.setPhase m .pushed)
  | _ => .error .waits

/-- `do_send_message`, where `encode` does not throw; `sent` is what `send_packet` returns. -/
def doSendMessage (sent : Int) : Int := if s.so then sent else ePeerNoSocketAttached

/-- `request` from the first section to the second; without `sent`, `encode` throws. -/
def sendRequest (m : Nat) (sent : Option Int) : Except ByteFault RosPeer := do
  require (s.phase m = .pushed) .waits
  require (¬ s.detaching) .waits
  match sent with
  | none => return s.setPhase m .raised
  | some sent =>
    let msndrt := s.doSendMessage sent
    return s.setPhase m (if msndrt = ok then .returned msndrt else .failed msndrt)

/-- The second section of `request` -/
def eraseFailed (m : Nat) : Except ByteFault RosPeer :=
  match s.phase m with
  | .failed msndrt =>
    match s.requested.find? fun req => req.message = m with
    | none => .ok (s.setPhase m .notFound)
    | some _ =>
      .ok ({ s with requested := s.requested.eraseP fun req => req.message = m, dropped := s.dropped ++ [m] }.setPhase m (.returned msndrt))
  | _ => .error .waits

/-- `send`, up to `do_send_message`: the message is used. -/
def send (m : Nat) : Except ByteFault RosPeer := do
  require (m < s.created) .waits
  require (s.type m = .none) .rosType
  return { s with type := Function.update s.type m .send }

/-- `respond`, up to `do_send_message`, to a request with this net id -/
def respond (m : Nat) (netId : UInt32) : Except ByteFault RosPeer := do
  require (m < s.created) .waits
  require (s.type m = .none) .rosType
  return { s with type := Function.update s.type m .response, netId := Function.update s.netId m netId }

/-- The section of `_handle_resp_message` -/
def handleRespMessage (netId : UInt32) : RosPeer :=
  match s.requested.find? fun req => s.netId req.message = netId with
  | none => s
  | some rm =>
    { s with requested := s.requested.eraseP fun req => s.netId req.message = netId, handling := s.handling ++ [(rm, netId)] }

/-- `_handle_resp_message` behind the section -/
def onRespond (i : Nat) : Except ByteFault RosPeer :=
  match s.handling[i]? with
  | none => .error .waits
  | some (rm, netId) => do
    require (s.netId rm.message = netId) .rosEntry
    require (s.type rm.message = .request) .rosEntry
    return { s with handling := s.handling.eraseIdx i, calls := s.calls ++ [⟨rm.message, rm.cb, s.netId rm.message, .respond netId⟩] }

def onError (ec : Int) (req : RequestedMessage) : RosCall := ⟨req.message, req.cb, s.netId req.message, .error ec⟩

/-- `now >= (it->ts_request + it->timeout)` -/
def timedOut (now : Nat) (req : RequestedMessage) : Bool := now ≥ (req.tsRequest + req.timeout) % 2 ^ 64

/-- `_check_requested_message` -/
def checkRequestedMessage (now : Nat) : RosPeer :=
  { s with requested := s.requested.filter fun req => !timedOut now req,
           calls := s.calls ++ (s.requested.filter (timedOut now)).map (s.onError ePeerMessageRequestTimeout) }

/-- `_cancel_all_request` -/
def cancelAllRequest (ec : Int) : RosPeer := { s with requested := [], calls := s.calls ++ s.requested.map (s.onError ec) }

/-- `detach_socket`, up to `_cancel_all_request` -/
def detachSocket : Except ByteFault RosPeer := do
  require (¬ s.detaching) .waits
  return { s with so := false, detaching := true }

/-- `detach_socket` from `_cancel_all_request` on -/
def detachCancel : Except ByteFault RosPeer := do
  require (s.detaching = true) .waits
  return { s.cancelAllRequest ePeerNoSocketAttached with detaching := false }

inductive Event
  | message (unit : Nat)
  | attach
  | request (m cb timeout now : Nat)
  | push (m : Nat)
  | sendRequest (m : Nat) (sent : Option Int)
  | eraseFailed (m : Nat)
  | send (m : Nat)
  | respond (m : Nat) (netId : UInt32)
  | response (netId : UInt32)
  | onRespond (i : Nat)
  | check (now : Nat)
  | cancel (ec : Int)
  | detach
  | detachCancel

def step : Event → RosPeer → Except ByteFault RosPeer
  | .message unit, s => .ok (s.message unit)
  | .attach, s => s.attachSocket
  | .request m cb timeout now, s => s.request m cb timeout now
  | .push m, s => s.push m
  | .sendRequest m sent, s => s.sendRequest m sent
  | .eraseFailed m, s => s.eraseFailed m
  | .send m, s => s.send m
  | .respond m netId, s => s.respond m netId
  | .response netId, s => .ok (s.handleRespMessage netId)
  | .onRespond i, s => s.onRespond i
  | .check now, s => .ok (s.checkRequestedMessage now)
  | .cancel ec, s => .ok (s.cancelAllRequest ec)
  | .detach, s => s.detachSocket
  | .detachCancel, s => s.detachCancel

/-- The requests whose entry has been enqueued: it still is, or it is where it has gone to. -/
def owners : List Nat :=
  s.requested.map (·.message) ++ s.handling.map (·.1.message) ++ s.calls.map (·.message) ++ s.dropped

/-- The entry has been enqueued. -/
def Enqueued : RequestPhase → Prop
  | .idle | .entered _ => False
  | _ => True

/-- The ids of the messages that may still be requested, or have been, are those of the counters; only a message with
the type `T_REQUEST` has a request; and the requests that have been enqueued are in one place each. -/
structure Inv (s : RosPeer) : Prop where
  aiRosNid : ∀ unit, s.aiRosNid unit = UInt32.ofNat (s.issued unit + 1)
  issued_le : ∀ unit, s.issued unit ≤ s.created
  origin : ∀ m < s.created, (s.origin m).2 < s.issued (s.origin m).1
  origin_inj : ∀ m < s.created, ∀ n < s.created, s.origin m = s.origin n → m = n
  netId : ∀ m < s.created, s.type m = .none ∨ s.type m = .request → s.netId m = UInt32.ofNat ((s.origin m).2 + 1)
  type : ∀ m, s.phase m ≠ .idle → m < s.created ∧ s.type m = .request
  entered : ∀ m r, s.phase m = .entered r → r.message = m
  nodup : s.owners.Nodup
  enqueued : ∀ m, m ∈ s.owners ↔ Enqueued (s.phase m)
  handling : ∀ h ∈ s.handling, s.netId h.1.message = h.2
  calls : ∀ c ∈ s.calls, s.netId c.message = c.netId
  dropped : ∀ m ec, s.phase m = .returned ec → ec ≠ ok → m ∈ s.dropped

theorem Inv.new : Inv new :=
  ⟨fun _ => rfl, fun _ => Nat.le_refl 0, fun _ h => absurd h (Nat.not_lt_zero _), fun _ h => absurd h (Nat.not_lt_zero _),
    fun _ h => absurd h (Nat.not_lt_zero _), fun _ h => absurd rfl h, nofun, List.nodup_nil, fun _ => ⟨nofun, nofun⟩, nofun, nofun,
    nofun⟩

variable {s} {s' : RosPeer} {m : Nat} {phase : RequestPhase}

/-- What `find_if` finds is what is erased. -/
theorem perm_eraseP {α : Type} {p : α → Bool} {l : List α} {a : α} (h : l.find? p = some a) : l.Perm ([a] ++ l.eraseP p) := by
  induction l with
  | nil => cases h
  | cons b l ih =>
    by_cases hb : p b = true
    · rw [List.find?_cons_of_pos hb] at h
      cases h
      rw [List.eraseP_cons_of_pos hb]
      exact .refl _
    · rw [List.find?_cons_of_neg hb] at h
      rw [List.eraseP_cons_of_neg hb]
      exact ((ih h).cons b).trans (.swap a b _)

theorem owners_of_handling {x : RequestedMessage × UInt32} (hx : x ∈ s.handling) : x.1.message ∈ s.owners := by
  have hmap : x.1.message ∈ s.handling.map (·.1.message) := List.mem_map_of_mem hx
  simp only [owners, List.mem_append]
  exact .inl (.inl (.inr hmap))

theorem owners_of_calls {c : RosCall} (hc : c ∈ s.calls) : c.message ∈ s.owners := by
  have hmap : c.message ∈ s.calls.map (·.message) := List.mem_map_of_mem hc
  simp only [owners, List.mem_append]
  exact .inl (.inr hmap)

theorem owners_of_requested {r : RequestedMessage} (hr : r ∈ s.requested) : r.message ∈ s.owners := by
  have hmap : r.message ∈ s.requested.map (·.message) := List.mem_map_of_mem hr
  simp only [owners, List.mem_append]
  exact .inl (.inl (.inl hmap))

namespace Inv

/-- A message without a type has no request. -/
theorem idle (h : Inv s) (hm : s.type m = .none) : s.phase m = .idle := by
  by_contra hne
  have := (h.type m hne).2
  rw [hm] at this
  cases this

theorem owner (h : Inv s) (hm : m ∈ s.owners) : m < s.created ∧ s.type m = .request := by
  refine h.type m fun hidle => ?_
  have := (h.enqueued m).mp hm
  rw [hidle] at this
  exact this

/-- What moves the entries, and does not lose one. -/
theorem move (h : Inv s) {so detaching : Bool} {requested : List RequestedMessage} {handling : List (RequestedMessage × UInt32)}
    {calls : List RosCall} {dropped : List Nat}
    (hs' : s' = { s with so := so, detaching := detaching, requested := requested, handling := handling, calls := calls, dropped := dropped })
    (hperm : s'.owners.Perm s.owners) (hhandling : ∀ h ∈ handling, s.netId h.1.message = h.2)
    (hcalls : ∀ c ∈ calls, s.netId c.message = c.netId) (hdropped : s.dropped ⊆ dropped) : Inv s' := by
  subst hs'
  exact ⟨h.aiRosNid, h.issued_le, h.origin, h.origin_inj, h.netId, h.type, h.entered, hperm.nodup_iff.mpr h.nodup, fun m => (hperm.mem_iff).trans (h.enqueued m), hhandling,
    hcalls, fun m ec hm hec => hdropped (h.dropped m ec hm hec)⟩

/-- A request goes on with its entry enqueued. -/
theorem setPhase (h : Inv s) (hm : Enqueued (s.phase m)) (hphase : Enqueued phase)
    (hdropped : ∀ ec, phase = .returned ec → ec ≠ ok → m ∈ s.dropped) : Inv (s.setPhase m phase) := by
  have hne : s.phase m ≠ .idle := fun hidle => by rw [hidle] at hm; exact hm
  refine ⟨h.aiRosNid, h.issued_le, h.origin, h.origin_inj, h.netId, ?_, ?_, h.nodup, ?_, h.handling, h.calls, ?_⟩
  · refine (Function.forall_update_iff s.phase fun n ph => ph ≠ .idle → n < s.created ∧ s.type n = .request).mpr ⟨?_, fun n _ => h.type n⟩
    exact fun _ => h.type m hne
  · refine (Function.forall_update_iff s.phase fun n ph => ∀ r, ph = .entered r → r.message = n).mpr ⟨?_, fun n _ => h.entered n⟩
    rintro r rfl
    exact hphase.elim
  · refine (Function.forall_update_iff s.phase fun n ph => n ∈ s.owners ↔ Enqueued ph).mpr ⟨?_, fun n _ => h.enqueued n⟩
    exact iff_of_true ((h.enqueued m).mpr hm) hphase
  · exact (Function.forall_update_iff s.phase fun n ph => ∀ ec, ph = .returned ec → ec ≠ ok → n ∈ s.dropped).mpr
      ⟨hdropped, fun n _ => h.dropped n⟩

theorem message (h : Inv s) (unit : Nat) : Inv (s.message unit) := by
  have hold (n : Nat) (hn : n < s.created) : n ≠ s.created := Nat.ne_of_lt hn
  have hissued (u : Nat) : s.issued u ≤ (s.message unit).issued u := by
    refine (Function.forall_update_iff s.issued fun u k => s.issued u ≤ k).mpr ⟨Nat.le_succ _, fun u _ => Nat.le_refl _⟩ u
  have horigin (n : Nat) (hn : n < s.created) : (s.message unit).origin n = s.origin n := Function.update_of_ne (hold n hn) ..
  have hnew : (s.message unit).origin s.created = (unit, s.issued unit) := Function.update_self ..
  -- the number of the new message is new in its unit
  have hfresh (n : Nat) (hn : n < s.created) : s.origin n ≠ (unit, s.issued unit) := by
    intro heq
    have hlt := h.origin n hn
    rw [heq] at hlt
    exact Nat.lt_irrefl _ hlt
  have hlt_or {n : Nat} (hn : n < s.created + 1) : n < s.created ∨ n = s.created := Nat.lt_succ_iff_lt_or_eq.mp hn
  refine ⟨?_, fun u => ?_, fun n hn => ?_, fun n hn k hk heq => ?_, fun n hn htype => ?_, fun n hn => ?_, h.entered, h.nodup, h.enqueued,
    fun x hx => ?_, fun c hc => ?_, h.dropped⟩
  · intro u
    show Function.update s.aiRosNid unit (s.aiRosNid unit + 1) u = UInt32.ofNat (Function.update s.issued unit (s.issued unit + 1) u + 1)
    by_cases hu : u = unit
    · subst hu
      rw [Function.update_self, Function.update_self, h.aiRosNid, UInt32.ofNat_add (s.issued u + 1) 1]
      rfl
    · rw [Function.update_of_ne hu, Function.update_of_ne hu]
      exact h.aiRosNid u
  · revert u
    exact (Function.forall_update_iff s.issued fun u k => k ≤ s.created + 1).mpr
      ⟨Nat.succ_le_succ (h.issued_le unit), fun u _ => Nat.le_succ_of_le (h.issued_le u)⟩
  · rcases hlt_or hn with hlt | rfl
    · rw [horigin n hlt]
      exact (h.origin n hlt).trans_le (hissued _)
    · rw [hnew]
      show s.issued unit < Function.update s.issued unit (s.issued unit + 1) unit
      rw [Function.update_self]
      exact Nat.lt_succ_self _
  · rcases hlt_or hn with hlt | rfl <;> rcases hlt_or hk with hklt | rfl
    · rw [horigin n hlt, horigin k hklt] at heq
      exact h.origin_inj n hlt k hklt heq
    · rw [horigin n hlt, hnew] at heq
      exact absurd heq (hfresh n hlt)
    · rw [horigin k hklt, hnew] at heq
      exact absurd heq.symm (hfresh k hklt)
    · rfl
  · rcases hlt_or hn with hlt | rfl
    · have hsame : (s.message unit).type n = s.type n := Function.update_of_ne (hold n hlt) ..
      rw [hsame] at htype
      rw [horigin n hlt]
      exact (Function.update_of_ne (hold n hlt) ..).trans (h.netId n hlt htype)
    · rw [hnew]
      exact (Function.update_self ..).trans (h.aiRosNid unit)
  · obtain ⟨hlt, htype⟩ := h.type n hn
    exact ⟨Nat.lt_succ_of_lt hlt, (Function.update_of_ne (hold n hlt) ..).trans htype⟩
  · have hlt := (h.owner (owners_of_handling hx)).1
    exact (Function.update_of_ne (hold _ hlt) ..).trans (h.handling x hx)
  · have hlt := (h.owner (owners_of_calls hc)).1
    exact (Function.update_of_ne (hold _ hlt) ..).trans (h.calls c hc)

/-- A message without a type is given one. -/
theorem setType (h : Inv s) (hm : s.type m = .none) (type : RosType) (netId : UInt32) (htype : type ≠ .none ∧ type ≠ .request) :
    Inv { s with type := Function.update s.type m type, netId := Function.update s.netId m netId } := by
  have hidle := h.idle hm
  have hother {n : Nat} (hn : s.phase n ≠ .idle) : n ≠ m := fun heq => hn (heq ▸ hidle)
  have howner {n : Nat} (hn : n ∈ s.owners) : n ≠ m := hother fun hidle => by
    have := (h.enqueued n).mp hn
    rwa [hidle] at this
  refine ⟨h.aiRosNid, h.issued_le, h.origin, h.origin_inj, fun n hn hn' => ?_, fun n hn => ?_, h.entered, h.nodup, h.enqueued, fun x hx => ?_,
    fun c hc => ?_, h.dropped⟩
  · by_cases hnm : n = m
    · subst hnm
      dsimp only at hn'
      rw [Function.update_self] at hn'
      exact absurd hn' (not_or.mpr htype)
    · dsimp only at hn' ⊢
      rw [Function.update_of_ne hnm] at hn' ⊢
      exact h.netId n hn hn'
  · obtain ⟨hlt, htype⟩ := h.type n hn
    exact ⟨hlt, (Function.update_of_ne (hother hn) ..).trans htype⟩
  · exact (Function.update_of_ne (howner (owners_of_handling hx)) ..).trans (h.handling x hx)
  · exact (Function.update_of_ne (howner (owners_of_calls hc)) ..).trans (h.calls c hc)

theorem request (h : Inv s) {cb timeout now : Nat} (hs' : s.request m cb timeout now = .ok s') : Inv s' := by
  unfold RosPeer.request at hs'
  obtain ⟨_, hm, hs'⟩ := bind_eq_ok.mp hs'
  obtain ⟨_, htype, hs'⟩ := bind_eq_ok.mp hs'
  have hm := require_eq_ok.mp hm
  have htype := require_eq_ok.mp htype
  have hidle := h.idle htype
  cases hs'
  refine ⟨h.aiRosNid, h.issued_le, h.origin, h.origin_inj, fun n hn => ?_, fun n => ?_, ?_, h.nodup, ?_, h.handling, h.calls, ?_⟩
  · revert n
    refine (Function.forall_update_iff s.type fun n ty => n < s.created → ty = .none ∨ ty = .request →
      s.netId n = .ofNat ((s.origin n).2 + 1)).mpr
      ⟨fun hlt _ => h.netId m hlt (.inl htype), fun n _ => h.netId n⟩
  · by_cases hnm : n = m
    · subst hnm
      exact fun _ => ⟨hm, Function.update_self ..⟩
    · intro hn
      obtain ⟨hlt, hntype⟩ := h.type n fun hidle => hn ((Function.update_of_ne hnm ..).trans hidle)
      exact ⟨hlt, (Function.update_of_ne hnm ..).trans hntype⟩
  · refine (Function.forall_update_iff s.phase fun n ph => ∀ r, ph = .entered r → r.message = n).mpr ⟨?_, fun n _ => h.entered n⟩
    intro r hr
    cases hr
    rfl
  · refine (Function.forall_update_iff s.phase fun n ph => n ∈ s.owners ↔ Enqueued ph).mpr ⟨?_, fun n _ => h.enqueued n⟩
    have hout := h.enqueued m
    rw [hidle] at hout
    exact hout
  · exact (Function.forall_update_iff s.phase fun n ph => ∀ ec, ph = .returned ec → ec ≠ ok → n ∈ s.dropped).mpr
      ⟨nofun, fun n _ => h.dropped n⟩

theorem push (h : Inv s) (hs' : s.push m = .ok s') : Inv s' := by
  unfold RosPeer.push at hs'
  split at hs'
  case h_2 => cases hs'
  case h_1 requested hphase =>
    have hr := h.entered m requested hphase
    have hout : m ∉ s.owners := fun hin => by
      have := (h.enqueued m).mp hin
      rwa [hphase] at this
    have hne : s.phase m ≠ .idle := fun hidle => by rw [hphase] at hidle; cases hidle
    cases hs'
    have hperm : (({ s with requested := s.requested ++ [requested] } : RosPeer).setPhase m .pushed).owners.Perm (m :: s.owners) := by
      show ((s.requested ++ [requested]).map (·.message) ++ s.handling.map (·.1.message) ++ s.calls.map (·.message) ++ s.dropped).Perm (m :: s.owners)
      rw [List.map_append, List.map_singleton, hr, owners]
      simp only [List.append_assoc, List.singleton_append]
      exact List.perm_middle
    refine ⟨h.aiRosNid, h.issued_le, h.origin, h.origin_inj, h.netId, ?_, ?_, hperm.nodup_iff.mpr (List.nodup_cons.mpr ⟨hout, h.nodup⟩), fun n => ?_, h.handling,
      h.calls, ?_⟩
    · refine (Function.forall_update_iff s.phase fun n ph => ph ≠ .idle → n < s.created ∧ s.type n = .request).mpr ⟨?_, fun n _ => h.type n⟩
      exact fun _ => h.type m hne
    · exact (Function.forall_update_iff s.phase fun n ph => ∀ r, ph = .entered r → r.message = n).mpr ⟨nofun, fun n _ => h.entered n⟩
    · rw [hperm.mem_iff, List.mem_cons]
      revert n
      refine (Function.forall_update_iff s.phase fun n ph => n = m ∨ n ∈ s.owners ↔ Enqueued ph).mpr ⟨?_, fun n hnm => ?_⟩
      · exact iff_of_true (.inl rfl) trivial
      · exact (or_iff_right hnm).trans (h.enqueued n)
    · exact (Function.forall_update_iff s.phase fun n ph => ∀ ec, ph = .returned ec → ec ≠ ok → n ∈ s.dropped).mpr
        ⟨nofun, fun n _ => h.dropped n⟩

/-- What a section takes out goes to the handlers. -/
theorem handleRespMessage (h : Inv s) (netId : UInt32) : Inv (s.handleRespMessage netId) := by
  unfold RosPeer.handleRespMessage
  split
  case h_1 => exact h
  case h_2 rm hrm =>
    have hid : s.netId rm.message = netId := by simpa using List.find?_some hrm
    refine h.move rfl (List.perm_iff_count.mpr fun m => ?_) (List.forall_mem_append.mpr ⟨h.handling, List.forall_mem_singleton.mpr hid⟩)
      h.calls (List.Subset.refl _)
    have hcount := ((perm_eraseP hrm).map (·.message)).count_eq m
    simp only [owners, List.map_append, List.map_singleton, List.count_append] at hcount ⊢
    omega

/-- What a handler has is called back. -/
theorem onRespond (h : Inv s) {i : Nat} (hs' : s.onRespond i = .ok s') : Inv s' := by
  unfold RosPeer.onRespond at hs'
  split at hs'
  case h_1 => cases hs'
  case h_2 rm netId hi =>
    obtain ⟨_, -, hs'⟩ := bind_eq_ok.mp hs'
    obtain ⟨_, -, hs'⟩ := bind_eq_ok.mp hs'
    cases hs'
    obtain ⟨hlt, hget⟩ := List.getElem?_eq_some_iff.mp hi
    refine h.move rfl (List.perm_iff_count.mpr fun m => ?_) (fun x hx => h.handling x (List.mem_of_mem_eraseIdx hx))
      (List.forall_mem_append.mpr ⟨h.calls, List.forall_mem_singleton.mpr rfl⟩) (List.Subset.refl _)
    have hcount := ((List.getElem_cons_eraseIdx_perm hlt).map (·.1.message)).count_eq m
    rw [hget, ← List.singleton_append] at hcount
    simp only [owners, List.map_append, List.map_singleton, List.count_append] at hcount ⊢
    omega

theorem map_onError (ec : Int) (l : List RequestedMessage) : (l.map (s.onError ec)).map (·.message) = l.map (·.message) := by
  rw [List.map_map]
  rfl

/-- `on_error` is told the net id of the request. -/
theorem calls_append (h : Inv s) (ec : Int) (l : List RequestedMessage) : ∀ c ∈ s.calls ++ l.map (s.onError ec), s.netId c.message = c.netId := by
  refine List.forall_mem_append.mpr ⟨h.calls, fun c hc => ?_⟩
  obtain ⟨r, -, rfl⟩ := List.mem_map.mp hc
  rfl

theorem cancelAllRequest (h : Inv s) (ec : Int) : Inv (s.cancelAllRequest ec) := by
  refine h.move rfl (List.perm_iff_count.mpr fun m => ?_) h.handling (h.calls_append ec _) (List.Subset.refl _)
  simp only [RosPeer.cancelAllRequest, owners, List.map_append, map_onError, List.map_nil, List.count_append, List.count_nil]
  omega

theorem checkRequestedMessage (h : Inv s) (now : Nat) : Inv (s.checkRequestedMessage now) := by
  refine h.move rfl (List.perm_iff_count.mpr fun m => ?_) h.handling (h.calls_append _ _) (List.Subset.refl _)
  have hcount := ((List.filter_append_perm (timedOut now) s.requested).map (·.message)).count_eq m
  simp only [RosPeer.checkRequestedMessage, owners, List.map_append, map_onError, List.count_append] at hcount ⊢
  omega

/-- A request that finds its entry drops it; one that does not has lost it. -/
theorem eraseFailed (h : Inv s) (hs' : s.eraseFailed m = .ok s') : Inv s' := by
  unfold RosPeer.eraseFailed at hs'
  split at hs'
  case h_2 => cases hs'
  case h_1 msndrt hphase =>
    have hm : Enqueued (s.phase m) := by
      rw [hphase]
      trivial
    split at hs'
    case h_1 =>
      cases hs'
      exact h.setPhase hm trivial nofun
    case h_2 rm hrm =>
      cases hs'
      have hid : rm.message = m := by simpa using List.find?_some hrm
      refine setPhase (h.move rfl (List.perm_iff_count.mpr fun n => ?_) h.handling h.calls (List.subset_append_left _ _)) hm trivial
        fun _ _ _ => List.mem_append_right _ (List.mem_singleton_self m)
      have hcount := ((perm_eraseP hrm).map (·.message)).count_eq n
      rw [List.map_append, List.map_singleton, hid] at hcount
      simp only [owners, List.count_append] at hcount ⊢
      omega

theorem sendRequest (h : Inv s) {sent : Option Int} (hs' : s.sendRequest m sent = .ok s') : Inv s' := by
  unfold RosPeer.sendRequest at hs'
  obtain ⟨_, hphase, hs'⟩ := bind_eq_ok.mp hs'
  obtain ⟨_, -, hs'⟩ := bind_eq_ok.mp hs'
  have hm : Enqueued (s.phase m) := by
    rw [require_eq_ok.mp hphase]
    trivial
  cases sent with
  | none =>
    cases hs'
    exact h.setPhase hm trivial nofun
  | some sent =>
    cases hs'
    by_cases hok : s.doSendMessage sent = ok
    · rw [if_pos hok]
      exact h.setPhase hm trivial fun ec hec hne => absurd (by cases hec; exact hok) hne
    · rw [if_neg hok]
      exact h.setPhase hm trivial nofun

theorem step (h : Inv s) {e : Event} (hs' : RosPeer.step e s = .ok s') : Inv s' := by
  cases e with
  | message unit =>
    cases hs'
    exact h.message unit
  | attach =>
    obtain ⟨_, -, hs'⟩ := bind_eq_ok.mp hs'
    obtain ⟨_, -, hs'⟩ := bind_eq_ok.mp hs'
    cases hs'
    exact h.move rfl (.refl _) h.handling h.calls (List.Subset.refl _)
  | request m cb timeout now => exact h.request hs'
  | push m => exact h.push hs'
  | sendRequest m sent => exact h.sendRequest hs'
  | eraseFailed m => exact h.eraseFailed hs'
  | send m =>
    obtain ⟨_, -, hs'⟩ := bind_eq_ok.mp hs'
    obtain ⟨_, htype, hs'⟩ := bind_eq_ok.mp hs'
    cases hs'
    have := h.setType (require_eq_ok.mp htype) .send (s.netId m) ⟨nofun, nofun⟩
    rwa [Function.update_eq_self] at this
  | respond m netId =>
    obtain ⟨_, -, hs'⟩ := bind_eq_ok.mp hs'
    obtain ⟨_, htype, hs'⟩ := bind_eq_ok.mp hs'
    cases hs'
    exact h.setType (require_eq_ok.mp htype) .response netId ⟨nofun, nofun⟩
  | response netId =>
    cases hs'
    exact h.handleRespMessage netId
  | onRespond i => exact h.onRespond hs'
  | check now =>
    cases hs'
    exact h.checkRequestedMessage now
  | cancel ec =>
    cases hs'
    exact h.cancelAllRequest ec
  | detach =>
    obtain ⟨_, -, hs'⟩ := bind_eq_ok.mp hs'
    cases hs'
    exact h.move rfl (.refl _) h.handling h.calls (List.Subset.refl _)
  | detachCancel =>
    obtain ⟨_, -, hs'⟩ := bind_eq_ok.mp hs'
    cases hs'
    exact (h.cancelAllRequest ePeerNoSocketAttached).move rfl (.refl _) h.handling (h.calls_append _ _) (List.Subset.refl _)

end Inv

/-! ### Responses -/

/-- What the event `e` adds to the handlers, to the calls and to the requests that `request` has dropped -/
structure Adds (e : Event) (s s' : RosPeer) : Prop where
  handling : ∀ x ∈ s'.handling, x ∈ s.handling ∨ e = .response x.2 ∧ x.1 ∈ s.requested ∧ s.netId x.1.message = x.2
  calls : ∀ c ∈ s'.calls, c ∈ s.calls ∨ (∃ x ∈ s.handling, c = ⟨x.1.message, x.1.cb, x.2, .respond x.2⟩) ∨ ∃ r ∈ s.requested, ∃ ec, c = s.onError ec r
  dropped : s.dropped ⊆ s'.dropped

theorem step_adds {e : Event} (hs' : step e s = .ok s') : Adds e s s' := by
  have hsame {t : RosPeer} (hh : t.handling = s.handling) (hc : t.calls = s.calls) (hd : s.dropped ⊆ t.dropped) : Adds e s t :=
    ⟨fun x hx => .inl (hh ▸ hx), fun c hc' => .inl (hc ▸ hc'), hd⟩
  have herror {t : RosPeer} {ec : Int} {l : List RequestedMessage} (hl : l ⊆ s.requested) (hh : t.handling = s.handling)
      (hc : t.calls = s.calls ++ l.map (s.onError ec)) (hd : t.dropped = s.dropped) : Adds e s t := by
    refine ⟨fun x hx => .inl (hh ▸ hx), fun c hin => ?_, hd ▸ List.Subset.refl _⟩
    rw [hc] at hin
    rcases List.mem_append.mp hin with hin | hin
    · exact .inl hin
    · obtain ⟨r, hr, rfl⟩ := List.mem_map.mp hin
      exact .inr (.inr ⟨r, hl hr, ec, rfl⟩)
  cases e with
  | message unit =>
    cases hs'
    exact hsame rfl rfl (List.Subset.refl _)
  | attach =>
    obtain ⟨_, -, hs'⟩ := bind_eq_ok.mp hs'
    obtain ⟨_, -, hs'⟩ := bind_eq_ok.mp hs'
    cases hs'
    exact hsame rfl rfl (List.Subset.refl _)
  | request m cb timeout now =>
    obtain ⟨_, -, hs'⟩ := bind_eq_ok.mp hs'
    obtain ⟨_, -, hs'⟩ := bind_eq_ok.mp hs'
    cases hs'
    exact hsame rfl rfl (List.Subset.refl _)
  | push m =>
    change s.push m = .ok s' at hs'
    unfold push at hs'
    split at hs' <;> cases hs'
    exact hsame rfl rfl (List.Subset.refl _)
  | sendRequest m sent =>
    obtain ⟨_, -, hs'⟩ := bind_eq_ok.mp hs'
    obtain ⟨_, -, hs'⟩ := bind_eq_ok.mp hs'
    cases sent <;> cases hs' <;> exact hsame rfl rfl (List.Subset.refl _)
  | eraseFailed m =>
    change s.eraseFailed m = .ok s' at hs'
    unfold eraseFailed at hs'
    split at hs'
    case h_2 => cases hs'
    case h_1 =>
      split at hs' <;> cases hs'
      · exact hsame rfl rfl (List.Subset.refl _)
      · exact hsame rfl rfl (List.subset_append_left _ _)
  | send m =>
    obtain ⟨_, -, hs'⟩ := bind_eq_ok.mp hs'
    obtain ⟨_, -, hs'⟩ := bind_eq_ok.mp hs'
    cases hs'
    exact hsame rfl rfl (List.Subset.refl _)
  | respond m netId =>
    obtain ⟨_, -, hs'⟩ := bind_eq_ok.mp hs'
    obtain ⟨_, -, hs'⟩ := bind_eq_ok.mp hs'
    cases hs'
    exact hsame rfl rfl (List.Subset.refl _)
  | response netId =>
    cases hs'
    unfold handleRespMessage
    split
    case h_1 => exact hsame rfl rfl (List.Subset.refl _)
    case h_2 rm hrm =>
      have hid : s.netId rm.message = netId := by simpa using List.find?_some hrm
      refine ⟨fun x hx => ?_, fun c hc => .inl hc, List.Subset.refl _⟩
      rcases List.mem_append.mp hx with hx | hx
      · exact .inl hx
      · obtain rfl := List.mem_singleton.mp hx
        exact .inr ⟨rfl, List.mem_of_find?_eq_some hrm, hid⟩
  | onRespond i =>
    change s.onRespond i = .ok s' at hs'
    unfold onRespond at hs'
    split at hs'
    case h_1 => cases hs'
    case h_2 rm netId hi =>
      obtain ⟨_, hid, hs'⟩ := bind_eq_ok.mp hs'
      obtain ⟨_, -, hs'⟩ := bind_eq_ok.mp hs'
      cases hs'
      refine ⟨fun x hx => .inl (List.mem_of_mem_eraseIdx hx), fun c hc => ?_, List.Subset.refl _⟩
      rcases List.mem_append.mp hc with hc | hc
      · exact .inl hc
      · rw [require_eq_ok.mp hid] at hc
        exact .inr (.inl ⟨(rm, netId), List.mem_of_getElem? hi, List.mem_singleton.mp hc⟩)
  | check now =>
    cases hs'
    exact herror (List.filter_subset_self _) rfl rfl rfl
  | cancel ec =>
    cases hs'
    exact herror (List.Subset.refl _) rfl rfl rfl
  | detach =>
    obtain ⟨_, -, hs'⟩ := bind_eq_ok.mp hs'
    cases hs'
    exact hsame rfl rfl (List.Subset.refl _)
  | detachCancel =>
    obtain ⟨_, -, hs'⟩ := bind_eq_ok.mp hs'
    cases hs'
    exact herror (List.Subset.refl _) rfl rfl rfl

/-- Among the events there is a response with this net id that has found the entry pending. -/
def Answered (es : List Event) (r : RequestedMessage) (netId : UInt32) : Prop :=
  ∃ es₁ es₂ t, es = es₁ ++ .response netId :: es₂ ∧ Run step (fun _ _ => True) new es₁ t ∧ r ∈ t.requested ∧ t.netId r.message = netId

theorem Answered.append {es : List Event} {r : RequestedMessage} {netId : UInt32} (h : Answered es r netId) (es' : List Event) :
    Answered (es ++ es') r netId := by
  obtain ⟨es₁, es₂, t, rfl, hrun, hr, hid⟩ := h
  exact ⟨es₁, es₂ ++ es', t, by rw [List.append_assoc, List.cons_append], hrun, hr, hid⟩

/-- A handler has its entry from a response, and so has a call of `on_respond`. -/
theorem answered {es : List Event} (h : Run step (fun _ _ => True) new es s) :
    (∀ x ∈ s.handling, Answered es x.1 x.2) ∧
    ∀ c ∈ s.calls, ∀ netId, c.answer = .respond netId → c.netId = netId ∧ ∃ r, r.message = c.message ∧ r.cb = c.cb ∧ Answered es r netId := by
  refine h.inv_trace (fun es s => (∀ x ∈ s.handling, Answered es x.1 x.2) ∧
    ∀ c ∈ s.calls, ∀ netId, c.answer = .respond netId → c.netId = netId ∧ ∃ r, r.message = c.message ∧ r.cb = c.cb ∧ Answered es r netId)
    ?_ ⟨nofun, nofun⟩
  rintro es s e t ⟨hhandling, hcalls⟩ - hstep hrun
  have hadds := step_adds hstep
  refine ⟨fun x hin => ?_, fun c hin netId hanswer => ?_⟩
  · rcases hadds.handling x hin with hold | ⟨rfl, hr, hid⟩
    · exact (hhandling x hold).append [e]
    · exact ⟨es, [], s, rfl, hrun, hr, hid⟩
  · rcases hadds.calls c hin with hold | ⟨x, hx, rfl⟩ | ⟨r, -, ec, rfl⟩
    · obtain ⟨hid, r, hm, hcb, hans⟩ := hcalls c hold netId hanswer
      exact ⟨hid, r, hm, hcb, hans.append [e]⟩
    · cases hanswer
      exact ⟨rfl, x.1, rfl, rfl, (hhandling x hx).append [e]⟩
    · cases hanswer

theorem run_inv {es : List Event} (h : Run step (fun _ _ => True) new es s) : Inv s :=
  h.inv Inv (fun _ _ _ hs _ hstep => hs.step hstep) .new

/-! ### Net ids -/

/-- No request is of a message that has the number, in its unit, which the message of an earlier request has in
another unit. -/
def KeepsApart (s : RosPeer) : Event → Prop
  | .request m _ _ _ => ∀ n < s.created, s.type n = .request → (s.origin n).1 ≠ (s.origin m).1 → (s.origin n).2 ≠ (s.origin m).2
  | _ => True

instance (s : RosPeer) (e : Event) : Decidable (s.KeepsApart e) := by
  unfold KeepsApart
  split <;> infer_instance

/-- A request is of a message that this unit has made. -/
def OfUnit (unit : Nat) (s : RosPeer) : Event → Prop
  | .request m _ _ _ => (s.origin m).1 = unit
  | _ => True

/-- The messages of two requests have different numbers. -/
def Apart (s : RosPeer) : Prop :=
  ∀ m < s.created, ∀ n < s.created, s.type m = .request → s.type n = .request → (s.origin m).2 = (s.origin n).2 → m = n

/-- What is requested in `s'` is requested in `s`. -/
def NoneNew (s s' : RosPeer) : Prop :=
  ∀ n < s'.created, s'.type n = .request → n < s.created ∧ s.type n = .request ∧ s'.origin n = s.origin n

namespace NoneNew

/-- What changes neither the messages nor their types -/
theorem of_eq (hcreated : s'.created = s.created) (htype : s'.type = s.type) (horigin : s'.origin = s.origin) : NoneNew s s' :=
  fun n hn hrequest => ⟨hcreated ▸ hn, htype ▸ hrequest, congrFun horigin n⟩

theorem message (s : RosPeer) (unit : Nat) : NoneNew s (s.message unit) := by
  intro n hn htype
  by_cases heq : n = s.created
  · subst heq
    cases (Function.update_self ..).symm.trans htype
  · exact ⟨Nat.lt_of_le_of_ne (Nat.le_of_lt_succ hn) heq, (Function.update_of_ne heq ..).symm.trans htype, Function.update_of_ne heq ..⟩

/-- A message that is sent without being requested -/
theorem setType {type : RosType} {netId : Nat → UInt32} (htype : type ≠ .request) :
    NoneNew s { s with type := Function.update s.type m type, netId := netId } := by
  intro n hn hrequest
  by_cases heq : n = m
  · subst heq
    exact absurd ((Function.update_self ..).symm.trans hrequest) htype
  · exact ⟨hn, (Function.update_of_ne heq ..).symm.trans hrequest, rfl⟩

end NoneNew

/-- A step requests nothing, or it is the beginning of `request`. -/
theorem step_requested {e : Event} (hs' : step e s = .ok s') :
    NoneNew s s' ∨ ∃ m cb timeout now, e = .request m cb timeout now ∧ m < s.created ∧ s'.created = s.created ∧
      s'.type = Function.update s.type m .request ∧ s'.origin = s.origin := by
  cases e with
  | message unit =>
    cases hs'
    exact .inl (.message s unit)
  | attach =>
    obtain ⟨_, -, hs'⟩ := bind_eq_ok.mp hs'
    obtain ⟨_, -, hs'⟩ := bind_eq_ok.mp hs'
    cases hs'
    exact .inl (.of_eq rfl rfl rfl)
  | request m cb timeout now =>
    obtain ⟨_, hm, hs'⟩ := bind_eq_ok.mp hs'
    obtain ⟨_, -, hs'⟩ := bind_eq_ok.mp hs'
    cases hs'
    exact .inr ⟨m, cb, timeout, now, rfl, require_eq_ok.mp hm, rfl, rfl, rfl⟩
  | push m =>
    change s.push m = .ok s' at hs'
    unfold push at hs'
    split at hs' <;> cases hs'
    exact .inl (.of_eq rfl rfl rfl)
  | sendRequest m sent =>
    obtain ⟨_, -, hs'⟩ := bind_eq_ok.mp hs'
    obtain ⟨_, -, hs'⟩ := bind_eq_ok.mp hs'
    cases sent <;> cases hs' <;> exact .inl (.of_eq rfl rfl rfl)
  | eraseFailed m =>
    change s.eraseFailed m = .ok s' at hs'
    unfold eraseFailed at hs'
    split at hs'
    case h_2 => cases hs'
    case h_1 => split at hs' <;> cases hs' <;> exact .inl (.of_eq rfl rfl rfl)
  | send m =>
    obtain ⟨_, -, hs'⟩ := bind_eq_ok.mp hs'
    obtain ⟨_, -, hs'⟩ := bind_eq_ok.mp hs'
    cases hs'
    exact .inl (.setType nofun)
  | respond m netId =>
    obtain ⟨_, -, hs'⟩ := bind_eq_ok.mp hs'
    obtain ⟨_, -, hs'⟩ := bind_eq_ok.mp hs'
    cases hs'
    exact .inl (.setType nofun)
  | response netId =>
    cases hs'
    unfold handleRespMessage
    split <;> exact .inl (.of_eq rfl rfl rfl)
  | onRespond i =>
    change s.onRespond i = .ok s' at hs'
    unfold onRespond at hs'
    split at hs'
    case h_1 => cases hs'
    case h_2 =>
      obtain ⟨_, -, hs'⟩ := bind_eq_ok.mp hs'
      obtain ⟨_, -, hs'⟩ := bind_eq_ok.mp hs'
      cases hs'
      exact .inl (.of_eq rfl rfl rfl)
  | check now =>
    cases hs'
    exact .inl (.of_eq rfl rfl rfl)
  | cancel ec =>
    cases hs'
    exact .inl (.of_eq rfl rfl rfl)
  | detach =>
    obtain ⟨_, -, hs'⟩ := bind_eq_ok.mp hs'
    cases hs'
    exact .inl (.of_eq rfl rfl rfl)
  | detachCancel =>
    obtain ⟨_, -, hs'⟩ := bind_eq_ok.mp hs'
    cases hs'
    exact .inl (.of_eq rfl rfl rfl)

theorem Apart.step (h : Apart s) (hinv : Inv s) {e : Event} (he : s.KeepsApart e) (hs' : RosPeer.step e s = .ok s') : Apart s' := by
  rcases step_requested hs' with hnone | ⟨m, cb, timeout, now, rfl, hm, hcreated, htype, horigin⟩
  · intro k hk n hn hktype hntype heq
    obtain ⟨hk, hktype, hko⟩ := hnone k hk hktype
    obtain ⟨hn, hntype, hno⟩ := hnone n hn hntype
    rw [hko, hno] at heq
    exact h k hk n hn hktype hntype heq
  · unfold Apart
    rw [hcreated, htype, horigin]
    have hold {n : Nat} (hne : n ≠ m) (hn : Function.update s.type m .request n = .request) : s.type n = .request :=
      (Function.update_of_ne hne ..).symm.trans hn
    -- the new request and an earlier one
    have hnew {n : Nat} (hn : n < s.created) (hne : n ≠ m) (hntype : s.type n = .request) : (s.origin n).2 ≠ (s.origin m).2 := by
      by_cases hunit : (s.origin n).1 = (s.origin m).1
      · exact fun heq => hne (hinv.origin_inj n hn m hm (Prod.ext hunit heq))
      · exact he n hn hntype hunit
    intro k hk n hn hktype hntype heq
    by_cases hkm : k = m <;> by_cases hnm : n = m
    · exact hkm.trans hnm.symm
    · subst hkm
      exact absurd heq.symm (hnew hn hnm (hold hnm hntype))
    · subst hnm
      exact absurd heq (hnew hk hkm (hold hkm hktype))
    · exact h k hk n hn (hold hkm hktype) (hold hnm hntype) heq

/-- The unit has made all the messages that are requested. -/
def MadeBy (unit : Nat) (s : RosPeer) : Prop := ∀ n < s.created, s.type n = .request → (s.origin n).1 = unit

theorem MadeBy.step {unit : Nat} {e : Event} (h : MadeBy unit s) (he : s.OfUnit unit e) (hs' : RosPeer.step e s = .ok s') : MadeBy unit s' := by
  rcases step_requested hs' with hnone | ⟨m, cb, timeout, now, rfl, -, hcreated, htype, horigin⟩
  · intro n hn htype
    obtain ⟨hn, htype, horigin⟩ := hnone n hn htype
    rw [horigin]
    exact h n hn htype
  · unfold MadeBy
    rw [hcreated, htype, horigin]
    intro n hn hntype
    by_cases hnm : n = m
    · rw [hnm]
      exact he
    · exact h n hn ((Function.update_of_ne hnm ..).symm.trans hntype)

theorem MadeBy.keepsApart {unit : Nat} {e : Event} (h : MadeBy unit s) (he : s.OfUnit unit e) : s.KeepsApart e := by
  cases e with
  | request m => exact fun n hn htype hne => absurd ((h n hn htype).trans (Eq.symm he)) hne
  | _ => trivial

/-- Where all requests are of messages of one unit, the numbers are apart. -/
theorem keepsApart_of_unit {unit : Nat} {es : List Event} (h : Run step (OfUnit unit) new es s) : Run step KeepsApart new es s :=
  h.strengthen (fun hrun => hrun.inv (MadeBy unit) (fun _ _ _ hs he hstep => hs.step he hstep) fun _ hn => absurd hn (Nat.not_lt_zero _))
    MadeBy.keepsApart

namespace Inv

/-- With fewer than 2^32 messages, two requests of different numbers do not have the same net id. -/
theorem netId_inj (h : Inv s) (ha : Apart s) (hids : s.created < 2 ^ 32) {n : Nat} (hm : m ∈ s.owners) (hn : n ∈ s.owners)
    (heq : s.netId m = s.netId n) : m = n := by
  have hlt {k : Nat} (hk : k < s.created) : (s.origin k).2 < s.created := (h.origin k hk).trans_le (h.issued_le _)
  obtain ⟨hmlt, hmtype⟩ := h.owner hm
  obtain ⟨hnlt, hntype⟩ := h.owner hn
  have hmplace := hlt hmlt
  have hnplace := hlt hnlt
  rw [h.netId m hmlt (.inr hmtype), h.netId n hnlt (.inr hntype)] at heq
  have htoNat := congrArg UInt32.toNat heq
  rw [UInt32.toNat_ofNat', UInt32.toNat_ofNat', Nat.mod_eq_of_lt (by omega), Nat.mod_eq_of_lt (by omega)] at htoNat
  exact ha m hmlt n hnlt hmtype hntype (Nat.succ.inj htoNat)

/-- A response for a request that is no longer pending finds nothing. -/
theorem late (h : Inv s) (ha : Apart s) (hids : s.created < 2 ^ 32) (hm : m ∈ s.owners) (hgone : ∀ r ∈ s.requested, r.message ≠ m) :
    s.handleRespMessage (s.netId m) = s := by
  have hnone : (s.requested.find? fun req => s.netId req.message = s.netId m) = none := by
    rw [List.find?_eq_none]
    intro r hr heq
    exact hgone r hr (h.netId_inj ha hids (owners_of_requested hr) hm (of_decide_eq_true heq))
  unfold RosPeer.handleRespMessage
  rw [hnone]

end Inv

/-- Requests and responses match where the numbers of the requested messages are apart: no two pending requests have
the same net id, each callback is called once at most, `on_respond` only for a response with the net id of the request
that has found it pending, and a response for a request that is no longer pending changes nothing. -/
theorem requests_matched {es : List Event} (h : Run step KeepsApart new es s) (hids : s.created < 2 ^ 32) :
    (s.requested.map fun r => s.netId r.message).Nodup ∧
    (s.calls.map (·.message)).Nodup ∧
    (∀ c ∈ s.calls, ∀ netId, c.answer = .respond netId →
      c.netId = netId ∧ s.netId c.message = netId ∧ ∃ r, r.message = c.message ∧ r.cb = c.cb ∧ Answered es r netId) ∧
    ∀ m, Enqueued (s.phase m) → (∀ r ∈ s.requested, r.message ≠ m) → s.handleRespMessage (s.netId m) = s := by
  have hany : Run step (fun _ _ => True) new es s := h.mono fun _ _ _ => trivial
  have hinv := run_inv hany
  obtain ⟨-, hapart⟩ := h.inv (fun s => Inv s ∧ Apart s) (fun _ _ _ hs he hstep => ⟨hs.1.step hstep, hs.2.step hs.1 he hstep⟩)
    ⟨.new, fun _ hm => absurd hm (Nat.not_lt_zero _)⟩
  obtain ⟨hnodup, -⟩ := List.nodup_append.mp hinv.nodup
  obtain ⟨hnodup, hcalls, -⟩ := List.nodup_append.mp hnodup
  obtain ⟨hrequested, -⟩ := List.nodup_append.mp hnodup
  refine ⟨?_, hcalls, fun c hc netId hanswer => ?_, fun m hm hgone => hinv.late hapart hids ((hinv.enqueued m).mpr hm) hgone⟩
  · have hids : ((s.requested.map (·.message)).map s.netId).Nodup := hrequested.map_on fun m hm n hn heq => by
      obtain ⟨r, hr, rfl⟩ := List.mem_map.mp hm
      obtain ⟨r', hr', rfl⟩ := List.mem_map.mp hn
      exact hinv.netId_inj hapart hids (owners_of_requested hr) (owners_of_requested hr') heq
    rwa [List.map_map] at hids
  · obtain ⟨hid, hanswered⟩ := (answered hany).2 c hc netId hanswer
    exact ⟨hid, (hinv.calls c hc).trans hid, hanswered⟩

/-- A request whose response comes before `send_packet` has returned, and comes again, and the request of a message of
another number that a second unit has made -/
def exchange : List Event :=
  [.message 0, .message 1, .message 1, .attach, .request 0 7 30000 0, .push 0, .request 2 8 30000 0, .push 2, .response 1, .sendRequest 0 (some ok),
    .response 1, .onRespond 0, .sendRequest 2 (some ok), .check 30000]

theorem requests_matched_exchange : ∃ s, Run step KeepsApart new exchange s ∧ (s.calls.map (·.message)).Nodup ∧
    s.calls = [⟨0, 7, 1, .respond 1⟩, ⟨2, 8, 2, .error ePeerMessageRequestTimeout⟩] := by
  obtain ⟨s, hrun, hs⟩ := Run.of_decide (f := step) (s := new) exchange (P := KeepsApart)
    (Q := fun s => s.created < 2 ^ 32 ∧ s.calls = [⟨0, 7, 1, .respond 1⟩, ⟨2, 8, 2, .error ePeerMessageRequestTimeout⟩]) (by decide)
  obtain ⟨hids, hcalls⟩ := hs
  exact ⟨s, hrun, (requests_matched hrun hids).2.1, hcalls⟩

/-- The first messages of two units are requested. -/
def twoUnits : List Event :=
  [.message 0, .message 1, .attach, .request 0 7 30000 0, .push 0, .sendRequest 0 (some ok), .request 1 8 30000 0, .push 1, .sendRequest 1 (some ok)]

/-- The response for one of them, which comes twice -/
def twiceOne : List Event := [.response 1, .onRespond 0, .response 1, .onRespond 0]

/-- Both are pending with one net id, and the response that comes again calls back for the other request. -/
theorem requests_confused : ∃ s, Run step (fun _ _ => True) new twoUnits s ∧ s.created < 2 ^ 32 ∧
    ¬ (s.requested.map fun r => s.netId r.message).Nodup ∧
    ∃ s', Run step (fun _ _ => True) s twiceOne s' ∧ s'.calls = [⟨0, 7, 1, .respond 1⟩, ⟨1, 8, 1, .respond 1⟩] := by
  obtain ⟨s, hrun, hs⟩ := Run.of_reaches (f := step) twoUnits new
    (P := fun s => decide (s.created < 2 ^ 32 ∧ ¬ (s.requested.map fun r => s.netId r.message).Nodup) &&
      reaches step (fun s' => decide (s'.calls = [⟨0, 7, 1, .respond 1⟩, ⟨1, 8, 1, .respond 1⟩])) twiceOne s) (by decide)
  obtain ⟨hids, hreach⟩ := Bool.and_eq_true_iff.mp hs
  obtain ⟨hcreated, hdup⟩ := of_decide_eq_true hids
  obtain ⟨s', hrun', hcalls⟩ := Run.of_reaches twiceOne s hreach
  exact ⟨s, hrun, hcreated, hdup, s', hrun', of_decide_eq_true hcalls⟩

/-! ### A request that fails -/

def Failed : RequestPhase → Bool
  | .failed _ => true
  | _ => false

/-- A request whose sending fails has its entry still there, and none is taken out between its sending and its
looking for the entry. -/
def Undisturbed (s : RosPeer) (e : Event) : Prop :=
  match e with
  | .sendRequest m (some sent) => s.doSendMessage sent ≠ ok → ∃ r ∈ s.requested, r.message = m
  | .response netId => ∀ r ∈ s.requested, s.netId r.message = netId → Failed (s.phase r.message) = false
  | .check now => ∀ r ∈ s.requested, timedOut now r = true → Failed (s.phase r.message) = false
  | .cancel _ | .detachCancel => ∀ r ∈ s.requested, Failed (s.phase r.message) = false
  | _ => True

instance (s : RosPeer) (e : Event) : Decidable (s.Undisturbed e) := by
  unfold Undisturbed
  split <;> infer_instance

/-- A request that has failed to send finds its entry. -/
structure Kept (s : RosPeer) : Prop where
  failed : ∀ m, Failed (s.phase m) = true → ∃ r ∈ s.requested, r.message = m
  found : ∀ m, s.phase m ≠ .notFound

namespace Kept

/-- The request of `m` goes on; the entries of the others stay. -/
theorem setPhase (h : Kept s) {requested : List RequestedMessage} (hs' : s'.phase = Function.update s.phase m phase) (hreq : s'.requested = requested)
    (hstay : ∀ r ∈ s.requested, r.message ≠ m → r ∈ requested) (hfailed : Failed phase = true → ∃ r ∈ requested, r.message = m)
    (hfound : phase ≠ .notFound) : Kept s' := by
  subst hreq
  constructor
  · intro n hn
    rw [hs'] at hn
    by_cases hnm : n = m
    · subst hnm
      rw [Function.update_self] at hn
      exact hfailed hn
    · rw [Function.update_of_ne hnm] at hn
      obtain ⟨r, hr, rfl⟩ := h.failed n hn
      exact ⟨r, hstay r hr hnm, rfl⟩
  · intro n
    rw [hs']
    by_cases hnm : n = m
    · subst hnm
      rw [Function.update_self]
      exact hfound
    · rw [Function.update_of_ne hnm]
      exact h.found n

/-- What is taken out is not of a request that has failed. -/
theorem take (h : Kept s) (hphase : s'.phase = s.phase)
    (hstay : ∀ r ∈ s.requested, Failed (s.phase r.message) = true → r ∈ s'.requested) : Kept s' := by
  constructor
  · intro m hm
    rw [hphase] at hm
    obtain ⟨r, hr, rfl⟩ := h.failed m hm
    exact ⟨r, hstay r hr hm, rfl⟩
  · rw [hphase]
    exact h.found

theorem step (h : Kept s) {e : Event} (he : s.Undisturbed e) (hs' : RosPeer.step e s = .ok s') : Kept s' := by
  have hnot {r : RequestedMessage} (hr : Failed (s.phase r.message) = false) (hr' : Failed (s.phase r.message) = true) : r ∈ s'.requested := by
    rw [hr] at hr'
    cases hr'
  cases e with
  | message unit =>
    cases hs'
    exact h.take rfl fun r hr _ => hr
  | attach =>
    obtain ⟨_, -, hs'⟩ := bind_eq_ok.mp hs'
    obtain ⟨_, -, hs'⟩ := bind_eq_ok.mp hs'
    cases hs'
    exact h.take rfl fun r hr _ => hr
  | request m cb timeout now =>
    obtain ⟨_, -, hs'⟩ := bind_eq_ok.mp hs'
    obtain ⟨_, -, hs'⟩ := bind_eq_ok.mp hs'
    cases hs'
    exact h.setPhase rfl rfl (fun r hr _ => hr) nofun nofun
  | push m =>
    change s.push m = .ok s' at hs'
    unfold push at hs'
    split at hs' <;> cases hs'
    exact h.setPhase rfl rfl (fun r hr _ => List.mem_append_left _ hr) nofun nofun
  | sendRequest m sent =>
    obtain ⟨_, -, hs'⟩ := bind_eq_ok.mp hs'
    obtain ⟨_, -, hs'⟩ := bind_eq_ok.mp hs'
    cases sent with
    | none =>
      cases hs'
      exact h.setPhase rfl rfl (fun r hr _ => hr) nofun nofun
    | some sent =>
      cases hs'
      by_cases hok : s.doSendMessage sent = ok
      · rw [if_pos hok]
        exact h.setPhase rfl rfl (fun r hr _ => hr) nofun nofun
      · rw [if_neg hok]
        exact h.setPhase rfl rfl (fun r hr _ => hr) (fun _ => he hok) nofun
  | eraseFailed m =>
    change s.eraseFailed m = .ok s' at hs'
    unfold eraseFailed at hs'
    split at hs'
    case h_2 => cases hs'
    case h_1 msndrt hphase =>
      split at hs'
      case h_1 hnone =>
        obtain ⟨r, hr, hrm⟩ := h.failed m (by rw [hphase]; rfl)
        exact absurd (decide_eq_true hrm) (List.find?_eq_none.mp hnone r hr)
      case h_2 =>
        cases hs'
        exact h.setPhase rfl rfl (fun r hr hne => (List.mem_eraseP_of_neg (by simpa using hne)).mpr hr) nofun nofun
  | send m =>
    obtain ⟨_, -, hs'⟩ := bind_eq_ok.mp hs'
    obtain ⟨_, -, hs'⟩ := bind_eq_ok.mp hs'
    cases hs'
    exact h.take rfl fun r hr _ => hr
  | respond m netId =>
    obtain ⟨_, -, hs'⟩ := bind_eq_ok.mp hs'
    obtain ⟨_, -, hs'⟩ := bind_eq_ok.mp hs'
    cases hs'
    exact h.take rfl fun r hr _ => hr
  | response netId =>
    cases hs'
    refine h.take ?_ fun r hr hfailed => ?_
    · unfold handleRespMessage
      split <;> rfl
    · by_cases hid : s.netId r.message = netId
      · exact hnot (he r hr hid) hfailed
      · unfold handleRespMessage
        split
        · exact hr
        · exact (List.mem_eraseP_of_neg (by simpa using hid)).mpr hr
  | onRespond i =>
    change s.onRespond i = .ok s' at hs'
    unfold onRespond at hs'
    split at hs'
    case h_1 => cases hs'
    case h_2 =>
      obtain ⟨_, -, hs'⟩ := bind_eq_ok.mp hs'
      obtain ⟨_, -, hs'⟩ := bind_eq_ok.mp hs'
      cases hs'
      exact h.take rfl fun r hr _ => hr
  | check now =>
    cases hs'
    refine h.take rfl fun r hr hfailed => ?_
    by_cases hout : timedOut now r = true
    · exact hnot (he r hr hout) hfailed
    · exact List.mem_filter.mpr ⟨hr, by simpa using hout⟩
  | cancel ec =>
    cases hs'
    exact h.take rfl fun r hr hfailed => hnot (he r hr) hfailed
  | detach =>
    obtain ⟨_, -, hs'⟩ := bind_eq_ok.mp hs'
    cases hs'
    exact h.take rfl fun r hr _ => hr
  | detachCancel =>
    obtain ⟨_, -, hs'⟩ := bind_eq_ok.mp hs'
    cases hs'
    exact h.take rfl fun r hr hfailed => hnot (he r hr) hfailed

end Kept

/-- The request of a message that `request` has dropped is neither pending nor called back, now or later. -/
theorem dropped_silent (h : Inv s) (hm : m ∈ s.dropped) :
    (∀ r ∈ s.requested, r.message ≠ m) ∧ ∀ es' s', Run step (fun _ _ => True) s es' s' → ∀ c ∈ s'.calls, c.message ≠ m := by
  have hsilent {t : RosPeer} (ht : Inv t) (hm : m ∈ t.dropped) : m ∉ t.requested.map (·.message) ∧ m ∉ t.calls.map (·.message) := by
    obtain ⟨-, -, hdisjoint⟩ := List.nodup_append.mp ht.nodup
    constructor
    · exact fun hin => hdisjoint m (List.mem_append_left _ (List.mem_append_left _ hin)) m hm rfl
    · exact fun hin => hdisjoint m (List.mem_append_right _ hin) m hm rfl
  refine ⟨fun r hr heq => (hsilent h hm).1 (heq ▸ List.mem_map_of_mem hr), fun es' s' hrun c hc heq => ?_⟩
  obtain ⟨ht, hmt⟩ : Inv s' ∧ m ∈ s'.dropped := hrun.inv (fun t => Inv t ∧ m ∈ t.dropped)
    (fun t e t' ht _ hstep => ⟨ht.1.step hstep, (step_adds hstep).dropped ht.2⟩) ⟨h, hm⟩
  exact (hsilent ht hmt).2 (heq ▸ List.mem_map_of_mem hc)

/-- Where no entry is taken out from under a request that fails, its check never throws; and where `request` returns
an error, its entry is gone and its callback is not called, now or later. -/
theorem failure_clean {es : List Event} (h : Run step Undisturbed new es s) (m : Nat) :
    s.phase m ≠ .notFound ∧ ∀ ec, s.phase m = .returned ec → ec ≠ ok →
      (∀ r ∈ s.requested, r.message ≠ m) ∧ ∀ es' s', Run step (fun _ _ => True) s es' s' → ∀ c ∈ s'.calls, c.message ≠ m := by
  have hinv := run_inv (h.mono fun _ _ _ => trivial)
  have hkept : Kept s := h.inv Kept (fun _ _ _ hs he hstep => hs.step he hstep) ⟨nofun, nofun⟩
  exact ⟨hkept.found m, fun ec hec hne => dropped_silent hinv (hinv.dropped m ec hec hne)⟩

/-- A request that the socket does not send -/
def refused : List Event := [.message 0, .attach, .request 0 7 30000 0, .push 0, .sendRequest 0 (some (-1)), .eraseFailed 0, .detach, .detachCancel]

theorem failure_clean_refused : ∃ s, Run step Undisturbed new refused s ∧ s.phase 0 = .returned (-1) ∧ s.phase 0 ≠ .notFound ∧
    (∀ r ∈ s.requested, r.message ≠ 0) ∧ ∀ es' s', Run step (fun _ _ => True) s es' s' → ∀ c ∈ s'.calls, c.message ≠ 0 := by
  obtain ⟨s, hrun, hs⟩ := Run.of_decide (f := step) (s := new) refused (P := Undisturbed) (Q := fun s => s.phase 0 = .returned (-1)) (by decide)
  obtain ⟨hfound, hclean⟩ := failure_clean hrun 0
  exact ⟨s, hrun, hs, hfound, hclean (-1) hs (by decide)⟩

/-- `detach_socket` between the first section of a request and its sending, which then has no socket -/
def overtaken : List Event :=
  [.message 0, .attach, .request 0 7 30000 0, .push 0, .detach, .detachCancel, .sendRequest 0 (some ok), .eraseFailed 0]

/-- The callback is called with `on_error`, and the check of the entry throws. -/
theorem failure_overtaken : ∃ s, Run step (fun _ _ => True) new overtaken s ∧ s.phase 0 = .notFound ∧
    s.calls = [⟨0, 7, 1, .error ePeerNoSocketAttached⟩] := by
  obtain ⟨s, hrun, hs⟩ := Run.of_reaches (f := step) overtaken new
    (P := fun s => decide (s.phase 0 = .notFound ∧ s.calls = [⟨0, 7, 1, .error ePeerNoSocketAttached⟩])) (by decide)
  exact ⟨s, hrun, of_decide_eq_true hs⟩

end RosPeer

end Wawo
