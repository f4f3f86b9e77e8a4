import Mathlib.Logic.Function.Basic
import Mathlib.Data.BitVec
import Wawo.Lib.Run

/-!
# `observer_impl::epoll` (`observer_impl/epoll.hpp`, `observer_abstract.hpp`)

What is watched is written down twice: `m_ctxs` has, for each descriptor, the directions and their callbacks,
and the kernel has an event mask. `epoll_ctl` with `EPOLL_CTL_ADD` and `EPOLL_CTL_MOD` replaces the mask;
whether a call of it succeeds is part of the event here. Callbacks and cookies are known by their pointers,
`none` for `NULL`.

`watch` computes the mask from the directions of the call alone. For a descriptor that is watched already, the
mask loses the other direction (`watch_loses`). Otherwise both records agree (`interest_agrees`).
-/

namespace Wawo

open Lts

abbrev IoeFlag := BitVec 8

def ioeRead : IoeFlag := 1#8
def ioeWrite : IoeFlag := 2#8
def ioeInfiniteWatchRead : IoeFlag := 4#8
def ioeInfiniteWatchWrite : IoeFlag := 8#8

abbrev EpollEvents := BitVec 32

def epollin : EpollEvents := 0x001#32
def epollpri : EpollEvents := 0x002#32
def epollout : EpollEvents := 0x004#32
def epollet : EpollEvents := 0x80000000#32

/-- `IOE_SLOT_READ`, `IOE_SLOT_WRITE` -/
inductive IoeSlot
  | read
  | write
deriving DecidableEq

namespace IoeSlot

def flag : IoeSlot → IoeFlag
  | read => ioeRead
  | write => ioeWrite

def infinite : IoeSlot → IoeFlag
  | read => ioeInfiniteWatchRead
  | write => ioeInfiniteWatchWrite

def event : IoeSlot → EpollEvents
  | read => epollin
  | write => epollout

end IoeSlot

structure FnInfo where
  fn : Option Nat
  err : Option Nat
  cookie : Option Nat
deriving DecidableEq

def FnInfo.null : FnInfo := ⟨none, none, none⟩

structure ObserverCtx where
  fd : Int
  flag : IoeFlag
  fnInfo : IoeSlot → FnInfo

inductive EpollFault
  | fd -- `fd > 0`
  | null -- `cookie`, `fn` or `err` is `NULL`
  | flag -- `watch`: `(flag&(IOE_READ|IOE_WRITE)) != 0`
  | epfd -- `m_epfd > 0`
  | watched -- `watch`: `(ctx->flag&flag) == 0`
  | ctxFd -- `ctx->fd == fd`
  | slot -- `ctx_update_for_watch`: the `fn_info` is not `NULL`
  | noEvents -- `unwatch`: `(epEvent.events&EPOLLIN) || (epEvent.events&EPOLLOUT)`
  | flagLeft -- `unwatch`: `ctx->flag == 0`
deriving DecidableEq

namespace ObserverCtx

variable (c : ObserverCtx) (flag : IoeFlag)

/-- The part of `ctx_update_for_watch` that is about one direction. -/
def watchSlot (info : FnInfo) (slot : IoeSlot) : Except EpollFault ObserverCtx :=
  if flag &&& slot.flag = 0 then .ok c
  else if c.fnInfo slot ≠ .null then .error .slot
  else .ok { c with
    flag := c.flag ||| slot.flag ||| (if flag &&& slot.infinite ≠ 0 then slot.infinite else 0)
    fnInfo := Function.update c.fnInfo slot info }

/-- `ctx_update_for_watch` -/
def updateForWatch (fd : Int) (info : FnInfo) : Except EpollFault ObserverCtx :=
  if flag = 0 then .error .flag
  else if info.cookie = none ∨ info.fn = none ∨ info.err = none then .error .null
  else if c.fd ≠ fd then .error .ctxFd
  else if c.flag &&& flag ≠ 0 then .error .watched
  else do
    let c ← c.watchSlot flag info .read
    c.watchSlot flag info .write

/-- The part of `ctx_update_for_unwatch` that is about one direction. -/
def unwatchSlot (slot : IoeSlot) : ObserverCtx :=
  if flag &&& slot.flag ≠ 0 ∧ c.flag &&& flag ≠ 0 then
    { c with flag := c.flag &&& ~~~(slot.flag ||| slot.infinite), fnInfo := Function.update c.fnInfo slot .null }
  else c

/-- `ctx_update_for_unwatch` -/
def updateForUnwatch (fd : Int) : Except EpollFault ObserverCtx :=
  if c.fd ≠ fd then .error .ctxFd
  else .ok ((c.unwatchSlot flag .read).unwatchSlot flag .write)

end ObserverCtx

/-- The operations of `epoll_ctl`. -/
inductive EpollOp
  | add
  | mod
  | del
deriving DecidableEq

structure Epoll where
  epfd : Int
  ctxs : Int → Option ObserverCtx -- `m_ctxs`
  kernel : Int → Option EpollEvents -- the descriptors registered with `m_epfd`, with their masks
  scheduled : List (Option Nat × Option Nat) -- the error callbacks given to the scheduler, with their cookies

namespace Epoll

/-- Behind `init`; `epfd` is what `epoll_create` returns. -/
def init (epfd : Int) : Epoll := ⟨epfd, fun _ => none, fun _ => none, []⟩

variable (s : Epoll)

def setCtx (fd : Int) (c : Option ObserverCtx) : Epoll := { s with ctxs := Function.update s.ctxs fd c }

/-- `epoll_ctl`, when it succeeds. -/
def epollCtl (op : EpollOp) (fd : Int) (events : EpollEvents) : Epoll :=
  { s with kernel := Function.update s.kernel fd (if op = .del then none else some events) }

/-- The mask of `watch`. -/
def watchEvents (flag : IoeFlag) : EpollEvents :=
  let events := epollpri ||| epollet
  let events := if flag &&& ioeRead ≠ 0 then events ||| epollin else events
  if flag &&& ioeWrite ≠ 0 then events ||| epollout else events

/-- `watch`; `rt` says whether `epoll_ctl` succeeds. -/
def watch (flag : IoeFlag) (fd : Int) (info : FnInfo) (rt : Bool) : Except EpollFault Epoll :=
  if fd ≤ 0 then .error .fd
  else if info.cookie = none ∨ info.fn = none ∨ info.err = none then .error .null
  else if flag &&& (ioeRead ||| ioeWrite) = 0 then .error .flag
  else
    let op : EpollOp := if s.ctxs fd = none then .add else .mod
    let ctx := (s.ctxs fd).getD ⟨fd, 0, fun _ => .null⟩
    if s.epfd ≤ 0 then .error .epfd
    else if !rt then .ok { s with scheduled := s.scheduled ++ [(info.err, info.cookie)] }
    else if ctx.flag &&& flag ≠ 0 then .error .watched
    else (ctx.updateForWatch flag fd info).map fun ctx => (s.epollCtl op fd (watchEvents flag)).setCtx fd (some ctx)

/-- The mask of `unwatch`, for what the context has and what the call takes away. -/
def unwatchEvents (watched flag : IoeFlag) : EpollEvents :=
  let events := epollpri ||| epollet
  let events := if watched &&& ioeRead ≠ 0 then events ||| epollin else events
  let events := if watched &&& ioeWrite ≠ 0 then events ||| epollout else events
  let events := if flag &&& ioeRead ≠ 0 then events &&& ~~~epollin else events
  if flag &&& ioeWrite ≠ 0 then events &&& ~~~epollout else events

/-- `unwatch` -/
def unwatch (flag : IoeFlag) (fd : Int) (rt : Bool) : Except EpollFault Epoll :=
  if fd ≤ 0 then .error .fd
  else if s.epfd ≤ 0 then .error .epfd
  else
    match s.ctxs fd with
    | none => .ok s
    | some ctx =>
      let op : EpollOp := if ctx.flag &&& (ioeRead ||| ioeWrite) &&& ~~~flag = 0 then .del else .mod
      let events := unwatchEvents ctx.flag flag
      if op = .mod ∧ events &&& epollin = 0 ∧ events &&& epollout = 0 then .error .noEvents
      else if !rt then .ok (s.setCtx fd none)
      else do
        let ctx ← ctx.updateForUnwatch flag fd
        let s := s.epollCtl op fd events
        if op = .del then
          if ctx.flag ≠ 0 then .error .flagLeft else .ok (s.setCtx fd none)
        else .ok (s.setCtx fd (some ctx))

inductive Event
  | watch (flag : IoeFlag) (fd : Int) (info : FnInfo) (rt : Bool)
  | unwatch (flag : IoeFlag) (fd : Int) (rt : Bool)

def step : Event → Epoll → Except EpollFault Epoll
  | .watch flag fd info rt, s => s.watch flag fd info rt
  | .unwatch flag fd rt, s => s.unwatch flag fd rt

/-- The flag of a descriptor that is not in `m_ctxs` counts as 0. -/
def flag (fd : Int) : IoeFlag := ((s.ctxs fd).map ObserverCtx.flag).getD 0

/-- The calls as they are meant: a descriptor and callbacks that are there, some direction, no direction that
is watched already, and `epoll_ctl` succeeds. -/
def Allowed (s : Epoll) (e : Event) : Prop :=
  match e with
  | .watch flag fd info rt => 0 < fd ∧ ¬ (info.cookie = none ∨ info.fn = none ∨ info.err = none) ∧
    flag &&& (ioeRead ||| ioeWrite) ≠ 0 ∧ s.flag fd &&& flag &&& (ioeRead ||| ioeWrite) = 0 ∧ rt = true
  | .unwatch _ fd rt => 0 < fd ∧ rt = true

instance (s : Epoll) (e : Event) : Decidable (s.Allowed e) := by unfold Allowed; cases e <;> infer_instance

/-- A `watch` is for a descriptor of which nothing is watched. -/
def Alone (s : Epoll) (e : Event) : Prop :=
  match e with
  | .watch _ fd _ _ => (s.ctxs fd).isNone = true
  | .unwatch .. => True

instance (s : Epoll) (e : Event) : Decidable (s.Alone e) := by unfold Alone; cases e <;> infer_instance

end Epoll

/-! ### Bits -/

namespace IoeSlot

/-- The place of a direction in a flag. -/
def bit : IoeSlot → Nat
  | read => 0
  | write => 1

/-- The place of a direction in an event mask. -/
def eventBit : IoeSlot → Nat
  | read => 0
  | write => 2

variable (slot : IoeSlot)

theorem flag_eq : slot.flag = BitVec.twoPow 8 slot.bit := by cases slot <;> rfl

theorem infinite_eq : slot.infinite = BitVec.twoPow 8 (slot.bit + 2) := by cases slot <;> rfl

theorem event_eq : slot.event = BitVec.twoPow 32 slot.eventBit := by cases slot <;> rfl

theorem bit_lt : slot.bit < 2 := by cases slot <;> decide

theorem bit_inj {slot slot' : IoeSlot} : slot.bit = slot'.bit ↔ slot = slot' := by
  cases slot <;> cases slot' <;> decide

end IoeSlot

theorem and_twoPow_ne_zero {w i : Nat} (x : BitVec w) (hi : i < w) : x &&& BitVec.twoPow w i ≠ 0 ↔ x.getLsbD i = true := by
  rw [BitVec.and_twoPow]
  split
  case isTrue h =>
    refine iff_of_true (fun h0 => ?_) h
    have hbit := congrArg (BitVec.getLsbD · i) h0
    simp [hi] at hbit
  case isFalse h => exact iff_of_false (fun hne => hne rfl) h

theorem and_flag_ne_zero (x : IoeFlag) (slot : IoeSlot) : x &&& slot.flag ≠ 0 ↔ x.getLsbD slot.bit = true := by
  rw [slot.flag_eq]
  exact and_twoPow_ne_zero x (Nat.lt_of_lt_of_le slot.bit_lt (by decide))

theorem and_infinite_ne_zero (x : IoeFlag) (slot : IoeSlot) : x &&& slot.infinite ≠ 0 ↔ x.getLsbD (slot.bit + 2) = true := by
  rw [slot.infinite_eq]
  exact and_twoPow_ne_zero x (Nat.lt_of_lt_of_le (Nat.add_lt_add_right slot.bit_lt 2) (by decide))

theorem and_event_ne_zero (x : EpollEvents) (slot : IoeSlot) : x &&& slot.event ≠ 0 ↔ x.getLsbD slot.eventBit = true := by
  rw [slot.event_eq]
  exact and_twoPow_ne_zero x (by cases slot <;> decide)

theorem and_dirs_eq_zero (x : IoeFlag) : x &&& (ioeRead ||| ioeWrite) = 0 ↔ ∀ slot : IoeSlot, x.getLsbD slot.bit = false := by
  have hbits : ∀ i, (ioeRead ||| ioeWrite).getLsbD i = decide (i < 2) := fun i => by
    rw [show (ioeRead ||| ioeWrite) = BitVec.twoPow 8 0 ||| BitVec.twoPow 8 1 from rfl]
    match i with
    | 0 | 1 => rfl
    | i + 2 => simp
  constructor
  · intro h slot
    have hbit := congrArg (BitVec.getLsbD · slot.bit) h
    simpa [hbits, slot.bit_lt] using hbit
  · intro h
    refine BitVec.eq_of_getLsbD_eq fun i _ => ?_
    rw [BitVec.getLsbD_and, hbits]
    match i with
    | 0 => rw [show x.getLsbD 0 = false from h .read]; rfl
    | 1 => rw [show x.getLsbD 1 = false from h .write]; rfl
    | i + 2 => simp

theorem watchEvents_bit (flag : IoeFlag) (slot : IoeSlot) :
    (Epoll.watchEvents flag).getLsbD slot.eventBit = flag.getLsbD slot.bit := by
  have hr := and_flag_ne_zero flag .read
  have hw := and_flag_ne_zero flag .write
  unfold Epoll.watchEvents
  dsimp only [IoeSlot.flag] at hr hw
  simp only [hr, hw]
  cases hr' : flag.getLsbD IoeSlot.read.bit <;> cases hw' : flag.getLsbD IoeSlot.write.bit <;> cases slot <;>
    simp only [hr', hw', Bool.false_eq_true, if_true, if_false] <;> decide

theorem unwatchEvents_bit (watched flag : IoeFlag) (slot : IoeSlot) :
    (Epoll.unwatchEvents watched flag).getLsbD slot.eventBit = (watched.getLsbD slot.bit && !flag.getLsbD slot.bit) := by
  have hr := and_flag_ne_zero flag .read
  have hw := and_flag_ne_zero flag .write
  have hcr := and_flag_ne_zero watched .read
  have hcw := and_flag_ne_zero watched .write
  unfold Epoll.unwatchEvents
  dsimp only [IoeSlot.flag] at hr hw hcr hcw
  simp only [hr, hw, hcr, hcw]
  cases hr' : flag.getLsbD IoeSlot.read.bit <;> cases hw' : flag.getLsbD IoeSlot.write.bit <;>
    cases hcr' : watched.getLsbD IoeSlot.read.bit <;> cases hcw' : watched.getLsbD IoeSlot.write.bit <;> cases slot <;>
    simp only [hr', hw', hcr', hcw', Bool.false_eq_true, if_true, if_false] <;> decide

/-! ### Interests -/

/-- What is wanted of one direction of a descriptor. -/
structure Interest where
  infinite : Bool
  info : FnInfo

abbrev Interests := IoeSlot → Option Interest

namespace Interests

def none : Interests := fun _ => .none

def watch (v : Interests) (flag : IoeFlag) (info : FnInfo) : Interests := fun slot =>
  if flag.getLsbD slot.bit then some ⟨flag.getLsbD (slot.bit + 2), info⟩ else v slot

def unwatch (v : Interests) (flag : IoeFlag) : Interests := fun slot => if flag.getLsbD slot.bit then .none else v slot

theorem none_unwatch (flag : IoeFlag) : none.unwatch flag = none := by
  funext slot
  unfold unwatch none
  split <;> rfl

end Interests

/-- No part is `NULL`. -/
def FnInfo.Set (info : FnInfo) : Prop := ¬ (info.cookie = none ∨ info.fn = none ∨ info.err = none)

/-- The context has these interests. -/
structure ObserverCtx.Has (c : ObserverCtx) (v : Interests) : Prop where
  dirs : ∀ slot, c.flag.getLsbD slot.bit = (v slot).isSome
  infinite : ∀ slot, c.flag.getLsbD (slot.bit + 2) = (v slot).any Interest.infinite
  rest : ∀ i, 4 ≤ i → c.flag.getLsbD i = false
  callbacks : ∀ slot, c.fnInfo slot = ((v slot).map Interest.info).getD .null

namespace ObserverCtx.Has

variable {c c' : ObserverCtx} {v : Interests} {flag : IoeFlag} {slot : IoeSlot} {info : FnInfo} {fd : Int}

theorem fresh (fd : Int) : Has ⟨fd, 0, fun _ => .null⟩ .none :=
  ⟨fun _ => BitVec.getLsbD_zero, fun _ => BitVec.getLsbD_zero, fun _ _ => BitVec.getLsbD_zero, fun _ => rfl⟩

theorem flag_eq_zero (h : c.Has v) (hv : ∀ slot, v slot = none) : c.flag = 0 := by
  refine BitVec.eq_of_getLsbD_eq fun i _ => ?_
  rw [BitVec.ofNat_eq_ofNat, BitVec.getLsbD_zero]
  match i with
  | 0 => exact (h.dirs .read).trans (by rw [hv]; rfl)
  | 1 => exact (h.dirs .write).trans (by rw [hv]; rfl)
  | 2 => exact (h.infinite .read).trans (by rw [hv]; rfl)
  | 3 => exact (h.infinite .write).trans (by rw [hv]; rfl)
  | i + 4 => exact h.rest _ (Nat.le_add_left 4 i)

/-- What a change of one direction has to do. -/
theorem update (h : c.Has v) (x : Option Interest) (hflag : ∀ i, c'.flag.getLsbD i =
      if i = slot.bit then x.isSome else if i = slot.bit + 2 then x.any Interest.infinite else c.flag.getLsbD i)
    (hinfo : c'.fnInfo = Function.update c.fnInfo slot ((x.map Interest.info).getD .null)) :
    c'.Has (Function.update v slot x) := by
  have hlt := slot.bit_lt
  refine ⟨fun s => ?_, fun s => ?_, fun i hi => ?_, fun s => ?_⟩
  · have hslt := s.bit_lt
    rw [hflag]
    by_cases hs : s = slot
    · subst hs
      rw [if_pos rfl, Function.update_self]
    · rw [if_neg (IoeSlot.bit_inj.not.2 hs), if_neg (by omega), Function.update_of_ne hs, h.dirs]
  · have hslt := s.bit_lt
    rw [hflag, if_neg (by omega)]
    by_cases hs : s = slot
    · subst hs
      rw [if_pos rfl, Function.update_self]
    · have hne := IoeSlot.bit_inj.not.2 hs
      rw [if_neg (by omega), Function.update_of_ne hs, h.infinite]
  · rw [hflag, if_neg (by omega), if_neg (by omega)]
    exact h.rest i hi
  · rw [hinfo]
    by_cases hs : s = slot
    · subst hs
      rw [Function.update_self, Function.update_self]
    · rw [Function.update_of_ne hs, Function.update_of_ne hs, h.callbacks]

theorem watchSlot (h : c.Has v) (flag : IoeFlag) (info : FnInfo) (slot : IoeSlot)
    (hv : flag.getLsbD slot.bit = true → v slot = none) : ∃ c', c.watchSlot flag info slot = .ok c' ∧ c'.fd = c.fd ∧
    c'.Has (if flag.getLsbD slot.bit then Function.update v slot (some ⟨flag.getLsbD (slot.bit + 2), info⟩) else v) := by
  have hflag := and_flag_ne_zero flag slot
  unfold ObserverCtx.watchSlot
  split
  case isTrue h0 =>
    refine ⟨c, rfl, rfl, ?_⟩
    rw [if_neg (hflag.not.1 (not_not_intro h0))]
    exact h
  case isFalse h0 =>
    have hv := hv (hflag.1 h0)
    rw [if_neg (not_not_intro (by rw [h.callbacks, hv]; rfl)), if_pos (hflag.1 h0)]
    refine ⟨_, rfl, rfl, h.update _ (fun i => ?_) rfl⟩
    have hlt := slot.bit_lt
    have hinf : c.flag.getLsbD (slot.bit + 2) = false := by rw [h.infinite, hv]; rfl
    have hadd : ∀ i, (if flag &&& slot.infinite ≠ 0 then slot.infinite else 0).getLsbD i =
        (decide (i = slot.bit + 2) && flag.getLsbD (slot.bit + 2)) := fun i => by
      have hbit := and_infinite_ne_zero flag slot
      split
      case isTrue hne =>
        rw [hbit.1 hne, slot.infinite_eq, BitVec.getLsbD_twoPow]
        grind
      case isFalse hne =>
        rw [Bool.eq_false_iff.2 (hbit.not.1 hne)]
        simp
    dsimp only
    rw [BitVec.getLsbD_or, BitVec.getLsbD_or, hadd, slot.flag_eq, BitVec.getLsbD_twoPow]
    grind

theorem unwatchSlot (h : c.Has v) (flag : IoeFlag) (slot : IoeSlot) : (c.unwatchSlot flag slot).fd = c.fd ∧
    (c.unwatchSlot flag slot).Has (if flag.getLsbD slot.bit then Function.update v slot none else v) := by
  have hflag := and_flag_ne_zero flag slot
  unfold ObserverCtx.unwatchSlot
  split
  case isTrue h0 =>
    refine ⟨rfl, ?_⟩
    rw [if_pos (hflag.1 h0.1)]
    refine h.update none (fun i => ?_) rfl
    have hlt := slot.bit_lt
    have hout : 8 ≤ i → c.flag.getLsbD i = false := fun hi => h.rest i (Nat.le_trans (by decide) hi)
    dsimp only
    rw [BitVec.getLsbD_and, BitVec.getLsbD_not, BitVec.getLsbD_or, slot.flag_eq, slot.infinite_eq, BitVec.getLsbD_twoPow,
      BitVec.getLsbD_twoPow]
    grind
  case isFalse h0 =>
    refine ⟨rfl, ?_⟩
    split
    case isTrue hbit =>
      -- the flags have nothing in common, so that the direction was not watched
      have hnone : v slot = none := by
        have hdir := h.dirs slot
        have hzero : c.flag &&& flag = 0 := not_not.1 fun hne => h0 ⟨hflag.2 hbit, hne⟩
        have hboth := congrArg (BitVec.getLsbD · slot.bit) hzero
        simpa [hbit, hdir] using hboth
      rw [← hnone, Function.update_eq_self]
      exact h
    case isFalse => exact h

theorem updateForWatch (h : c.Has v) (hfd : c.fd = fd) (hinfo : info.Set) (h0 : flag ≠ 0) (hnew : c.flag &&& flag = 0) :
    ∃ c', c.updateForWatch flag fd info = .ok c' ∧ c'.fd = fd ∧ c'.Has (v.watch flag info) := by
  have hv : ∀ slot, flag.getLsbD slot.bit = true → v slot = none := fun slot hbit => by
    have hboth := congrArg (BitVec.getLsbD · slot.bit) hnew
    simpa [hbit, h.dirs slot] using hboth
  obtain ⟨c₁, hc₁, hfd₁, h₁⟩ := h.watchSlot flag info .read (hv .read)
  obtain ⟨c₂, hc₂, hfd₂, h₂⟩ := h₁.watchSlot flag info .write fun hbit => by
    split
    · rw [Function.update_of_ne (by decide)]
      exact hv .write hbit
    · exact hv .write hbit
  refine ⟨c₂, ?_, hfd₂.trans (hfd₁.trans hfd), ?_⟩
  · unfold ObserverCtx.updateForWatch
    rw [if_neg h0, if_neg hinfo, if_neg (not_not_intro hfd), if_neg (not_not_intro hnew), hc₁]
    exact hc₂
  · convert h₂ using 1
    funext slot
    unfold Interests.watch
    cases slot <;> split <;> split <;> simp_all

theorem updateForUnwatch (h : c.Has v) (flag : IoeFlag) (hfd : c.fd = fd) :
    ∃ c', c.updateForUnwatch flag fd = .ok c' ∧ c'.fd = fd ∧ c'.Has (v.unwatch flag) := by
  obtain ⟨hfd₁, h₁⟩ := h.unwatchSlot flag .read
  obtain ⟨hfd₂, h₂⟩ := h₁.unwatchSlot flag .write
  refine ⟨_, ?_, hfd₂.trans (hfd₁.trans hfd), ?_⟩
  · unfold ObserverCtx.updateForUnwatch
    rw [if_neg (not_not_intro hfd)]
  · convert h₂ using 1
    funext slot
    unfold Interests.unwatch
    cases slot <;> split <;> split <;> simp_all

end ObserverCtx.Has

namespace Epoll

variable {s s' : Epoll} {v : Int → Interests} {fd : Int} {flag : IoeFlag} {info : FnInfo}

/-- What the kernel and `m_ctxs` have of a descriptor whose interests are `v`. -/
def At (s : Epoll) (fd : Int) (v : Interests) : Prop :=
  match s.ctxs fd with
  | none => v = .none ∧ s.kernel fd = none
  | some c => c.fd = fd ∧ c.Has v ∧ (∃ slot, (v slot).isSome) ∧ (∀ slot x, v slot = some x → x.info.Set) ∧
    ∃ m, s.kernel fd = some m ∧ ∀ slot : IoeSlot, m.getLsbD slot.eventBit = (v slot).isSome

/-- Both records are of the same interests. -/
structure Refines (s : Epoll) (v : Int → Interests) : Prop where
  epfd : 0 < s.epfd
  at_fd : ∀ fd, s.At fd (v fd)

/-- What a call does to the interests. -/
def interest (v : Int → Interests) : Event → Int → Interests
  | .watch flag fd info _ => Function.update v fd ((v fd).watch flag info)
  | .unwatch flag fd _ => Function.update v fd ((v fd).unwatch flag)

theorem Refines.init {epfd : Int} (h : 0 < epfd) : Refines (init epfd) fun _ => .none := ⟨h, fun _ => ⟨rfl, rfl⟩⟩

/-- What only concerns one descriptor. -/
theorem Refines.update (h : Refines s v) {w : Interests} {k : Option EpollEvents} {c : Option ObserverCtx}
    (hs' : s' = { s with kernel := Function.update s.kernel fd k, ctxs := Function.update s.ctxs fd c })
    (hw : s'.At fd w) : Refines s' (Function.update v fd w) := by
  refine ⟨by rw [hs']; exact h.epfd, fun fd' => ?_⟩
  by_cases hfd : fd' = fd
  · subst hfd
    rw [Function.update_self]
    exact hw
  · have hat := h.at_fd fd'
    unfold At at hat ⊢
    rw [hs', Function.update_of_ne hfd]
    dsimp only
    rw [Function.update_of_ne hfd, Function.update_of_ne hfd]
    exact hat

theorem ne_zero_of_dirs (h : flag &&& (ioeRead ||| ioeWrite) ≠ 0) : flag ≠ 0 := by
  rintro rfl
  exact h BitVec.zero_and

theorem exists_dir (h : flag &&& (ioeRead ||| ioeWrite) ≠ 0) : ∃ slot : IoeSlot, flag.getLsbD slot.bit = true := by
  by_contra hno
  exact h ((and_dirs_eq_zero flag).2 fun slot => Bool.eq_false_iff.2 fun hbit => hno ⟨slot, hbit⟩)

/-- A watch for a descriptor of which nothing is watched. -/
theorem Refines.watch (h : Refines s v) {rt : Bool} (ha : s.Allowed (.watch flag fd info rt))
    (hone : s.Alone (.watch flag fd info rt)) :
    ∃ s', s.watch flag fd info rt = .ok s' ∧ Refines s' (interest v (.watch flag fd info rt)) := by
  obtain ⟨hfd, hinfo, hdir, -, rfl⟩ := ha
  have hnone : s.ctxs fd = none := Option.isNone_iff_eq_none.1 hone
  have hv : v fd = .none := by
    have hat := h.at_fd fd
    unfold At at hat
    rw [hnone] at hat
    exact hat.1
  obtain ⟨c, hc, hcfd, hhas⟩ := (ObserverCtx.Has.fresh fd).updateForWatch rfl hinfo
    (ne_zero_of_dirs hdir) BitVec.zero_and
  refine ⟨(s.epollCtl .add fd (watchEvents flag)).setCtx fd (some c), ?_, h.update rfl ?_⟩
  · unfold Epoll.watch
    rw [if_neg (not_le.2 hfd), if_neg hinfo, if_neg hdir]
    dsimp only
    rw [if_neg (not_le.2 h.epfd), hnone, if_pos rfl, Option.getD_none, hc]
    simp [Except.map]
  · unfold At epollCtl setCtx
    dsimp only
    rw [Function.update_self, Function.update_self]
    dsimp only
    rw [hv]
    refine ⟨hcfd, hhas, ?_, fun slot x hx => ?_, _, rfl, fun slot => ?_⟩
    · obtain ⟨slot, hbit⟩ := exists_dir hdir
      exact ⟨slot, by simp [Interests.watch, hbit]⟩
    · unfold Interests.watch at hx
      split at hx
      · cases hx
        exact hinfo
      · cases hx
    · rw [watchEvents_bit]
      unfold Interests.watch
      split <;> simp_all [Interests.none]

/-- The test for `EPOLL_CTL_DEL`: the call takes away all that is watched. -/
theorem Has.del_iff {c : ObserverCtx} {v : Interests} (h : c.Has v) (flag : IoeFlag) :
    c.flag &&& (ioeRead ||| ioeWrite) &&& ~~~flag = 0 ↔ ∀ slot, v.unwatch flag slot = none := by
  rw [BitVec.and_assoc, BitVec.and_comm (ioeRead ||| ioeWrite), ← BitVec.and_assoc, and_dirs_eq_zero]
  refine forall_congr' fun slot => ?_
  have hlt : slot.bit < 8 := Nat.lt_of_lt_of_le slot.bit_lt (by decide)
  rw [BitVec.getLsbD_and, BitVec.getLsbD_not, h.dirs]
  unfold Interests.unwatch
  cases flag.getLsbD slot.bit <;> simp [hlt]

theorem Refines.unwatch (h : Refines s v) {rt : Bool} (ha : s.Allowed (.unwatch flag fd rt)) :
    ∃ s', s.unwatch flag fd rt = .ok s' ∧ Refines s' (interest v (.unwatch flag fd rt)) := by
  obtain ⟨hfd, rfl⟩ := ha
  have hat := h.at_fd fd
  unfold At at hat
  unfold Epoll.unwatch
  rw [if_neg (not_le.2 hfd), if_neg (not_le.2 h.epfd)]
  split
  case h_1 hc =>
    rw [hc] at hat
    refine ⟨s, rfl, ?_⟩
    have hsame : interest v (.unwatch flag fd true) = v := by
      dsimp only [interest]
      rw [hat.1, Interests.none_unwatch, ← hat.1, Function.update_eq_self]
    rw [hsame]
    exact h
  case h_2 c hc =>
    rw [hc] at hat
    obtain ⟨hcfd, hhas, -, hset, m, hm, hbits⟩ := hat
    obtain ⟨c', hc', hcfd', hhas'⟩ := hhas.updateForUnwatch flag hcfd
    have hdel := Has.del_iff hhas flag
    by_cases hall : ∀ slot, (v fd).unwatch flag slot = none
    · refine ⟨(s.epollCtl .del fd (unwatchEvents c.flag flag)).setCtx fd none, ?_, h.update rfl ?_⟩
      · rw [if_pos (hdel.2 hall), hc']
        simp [Lts.ok_bind, hhas'.flag_eq_zero hall]
      · unfold At epollCtl setCtx
        dsimp only
        rw [Function.update_self, Function.update_self]
        exact ⟨funext hall, rfl⟩
    · have hleft : ∃ slot, ((v fd).unwatch flag slot).isSome := by
        by_contra hno
        exact hall fun slot => Option.not_isSome_iff_eq_none.1 fun hs => hno ⟨slot, hs⟩
      have hevents : ∀ slot : IoeSlot, (unwatchEvents c.flag flag).getLsbD slot.eventBit = ((v fd).unwatch flag slot).isSome :=
        fun slot => by
          rw [unwatchEvents_bit, hhas.dirs]
          unfold Interests.unwatch
          cases flag.getLsbD slot.bit <;> simp
      have hsome : ¬ (unwatchEvents c.flag flag &&& epollin = 0 ∧ unwatchEvents c.flag flag &&& epollout = 0) := by
        rintro ⟨hin, hout⟩
        obtain ⟨slot, hs⟩ := hleft
        have hne := (and_event_ne_zero _ slot).2 ((hevents slot).trans hs)
        cases slot with
        | read => exact hne hin
        | write => exact hne hout
      refine ⟨(s.epollCtl .mod fd (unwatchEvents c.flag flag)).setCtx fd (some c'), ?_, h.update rfl ?_⟩
      · rw [if_neg (hdel.not.2 hall), hc']
        dsimp only
        rw [if_neg fun hno => hsome hno.2]
        rfl
      · unfold At epollCtl setCtx
        dsimp only
        rw [Function.update_self, Function.update_self]
        refine ⟨hcfd', hhas', hleft, fun slot x hx => ?_, _, rfl, hevents⟩
        unfold Interests.unwatch at hx
        split at hx
        · cases hx
        · exact hset slot x hx

theorem Refines.step {e : Event} (h : Refines s v) (ha : s.Allowed e) (hone : s.Alone e) :
    ∃ s', step e s = .ok s' ∧ Refines s' (interest v e) := by
  cases e with
  | watch flag fd info rt => exact h.watch ha hone
  | unwatch flag fd rt => exact h.unwatch ha

/-- The direction is watched, as the context of the descriptor says. -/
def Watched (s : Epoll) (fd : Int) (slot : IoeSlot) : Prop := s.flag fd &&& slot.flag ≠ 0

instance (s : Epoll) (fd : Int) (slot : IoeSlot) : Decidable (s.Watched fd slot) := inferInstanceAs (Decidable (¬ _))

/-- The mask of a descriptor that is not registered counts as 0. -/
def events (s : Epoll) (fd : Int) : EpollEvents := (s.kernel fd).getD 0

/-- What the kernel reports, the callbacks and `m_ctxs` go with what the contexts say is watched. -/
structure Agrees (s : Epoll) : Prop where
  mask : ∀ fd slot, s.events fd &&& slot.event ≠ 0 ↔ s.Watched fd slot
  callbacks : ∀ fd c slot, s.ctxs fd = some c →
    if s.Watched fd slot then (c.fnInfo slot).Set else c.fnInfo slot = .null
  mem : ∀ fd, (s.ctxs fd).isSome ↔ ∃ slot, s.Watched fd slot

theorem Refines.agrees (h : Refines s v) : Agrees s := by
  have hwatched : ∀ fd slot, s.Watched fd slot ↔ (v fd slot).isSome := fun fd slot => by
    have hat := h.at_fd fd
    unfold At at hat
    unfold Watched flag
    cases hc : s.ctxs fd with
    | none =>
      rw [hc] at hat
      rw [hat.1]
      simp [Interests.none]
    | some c =>
      rw [hc] at hat
      rw [Option.map_some, Option.getD_some, and_flag_ne_zero, hat.2.1.dirs]
  refine ⟨fun fd slot => ?_, fun fd c slot hc => ?_, fun fd => ?_⟩
  all_goals
    have hat := h.at_fd fd
    unfold At at hat
  · rw [hwatched]
    unfold events
    cases hc : s.ctxs fd with
    | none =>
      rw [hc] at hat
      rw [hat.1, hat.2]
      simp [Interests.none]
    | some c =>
      rw [hc] at hat
      obtain ⟨-, -, -, -, m, hm, hbits⟩ := hat
      rw [hm, Option.getD_some, and_event_ne_zero, hbits]
  · rw [hc] at hat
    obtain ⟨-, hhas, -, hset, -⟩ := hat
    rw [hhas.callbacks]
    split
    case isTrue hw =>
      obtain ⟨x, hx⟩ := Option.isSome_iff_exists.1 ((hwatched fd slot).1 hw)
      rw [hx]
      exact hset slot x hx
    case isFalse hw =>
      rw [Option.not_isSome_iff_eq_none.1 ((hwatched fd slot).not.1 hw)]
      rfl
  · simp only [hwatched]
    cases hc : s.ctxs fd with
    | none =>
      rw [hc] at hat
      rw [hat.1]
      simp [Interests.none]
    | some c =>
      rw [hc] at hat
      simpa using hat.2.2.1

theorem run_refines {es : List Event} (h : Run step (fun s e => s.Allowed e ∧ s.Alone e) s es s') (hs : Refines s v) :
    Refines s' (es.foldl interest v) := by
  induction h generalizing v with
  | nil => exact hs
  | cons he hstep _ ih =>
    obtain ⟨t, ht, href⟩ := hs.step he.1 he.2
    cases ht.symm.trans hstep
    exact ih href

/-- Every sequence of calls in which a descriptor is watched when nothing of it is watched. No assertion fails
either. -/
theorem interest_agrees {epfd : Int} (hepfd : 0 < epfd) {es : List Event}
    (h : Run step (fun s e => s.Allowed e ∧ s.Alone e) (init epfd) es s) :
    Agrees s ∧ ∀ e, s.Allowed e → s.Alone e → ∃ s', step e s = .ok s' := by
  have href := run_refines h (.init hepfd)
  refine ⟨href.agrees, fun e ha hone => ?_⟩
  obtain ⟨s', hs', -⟩ := href.step ha hone
  exact ⟨s', hs'⟩

def someInfo : FnInfo := ⟨some 1, some 2, some 3⟩

/-- Both directions at once, the first of them for good, and then not the second any more. -/
def bothAndOne : List Event :=
  [.watch (ioeRead ||| ioeInfiniteWatchRead ||| ioeWrite) 5 someInfo true, .unwatch ioeWrite 5 true]

theorem interest_agrees_bothAndOne : ∃ s, Run step (fun s e => s.Allowed e ∧ s.Alone e) (init 3) bothAndOne s ∧
    s.events 5 = epollpri ||| epollet ||| epollin ∧ Agrees s := by
  obtain ⟨s, hrun, hs⟩ := Run.of_decide (f := step) (P := fun s e => s.Allowed e ∧ s.Alone e) bothAndOne
    (s := init 3) (Q := fun s => s.events 5 = epollpri ||| epollet ||| epollin) (by decide)
  exact ⟨s, hrun, hs, (interest_agrees (by decide) hrun).1⟩

/-- A watch for the other direction of a descriptor takes the first out of the mask. -/
theorem watch_loses (h : Refines s v) (ha : s.Allowed (.watch flag fd info true)) (hin : s.ctxs fd ≠ none)
    (hs' : s.watch flag fd info true = .ok s') : ¬ Agrees s' := by
  obtain ⟨hfd, hinfo, hdir, hnew, -⟩ := ha
  obtain ⟨c, hc⟩ := Option.ne_none_iff_exists'.1 hin
  have hat := h.at_fd fd
  unfold At at hat
  rw [hc] at hat
  obtain ⟨hcfd, hhas, ⟨slot, hslot⟩, -⟩ := hat
  have hcdir : c.flag.getLsbD slot.bit = true := (hhas.dirs slot).trans hslot
  have hflag : flag.getLsbD slot.bit = false := by
    unfold Epoll.flag at hnew
    rw [hc] at hnew
    have hbit := (and_dirs_eq_zero _).1 hnew slot
    rw [BitVec.getLsbD_and, Option.map_some, Option.getD_some, hcdir, Bool.true_and] at hbit
    exact hbit
  unfold Epoll.watch at hs'
  rw [if_neg (not_le.2 hfd), if_neg hinfo, if_neg hdir] at hs'
  dsimp only at hs'
  rw [if_neg (not_le.2 h.epfd), hc, Option.getD_some, if_neg (by decide)] at hs'
  split at hs'
  case isTrue => cases hs'
  case isFalse hboth =>
    obtain ⟨c', hc', -, hhas'⟩ := hhas.updateForWatch hcfd hinfo (ne_zero_of_dirs hdir) (not_not.1 hboth)
    rw [hc'] at hs'
    cases hs'
    intro hagrees
    have hmask := hagrees.mask fd slot
    unfold Watched events Epoll.flag setCtx epollCtl at hmask
    simp only [Function.update_self, Option.map_some, Option.getD_some, reduceCtorEq, if_false] at hmask
    rw [and_event_ne_zero, and_flag_ne_zero, watchEvents_bit, hhas'.dirs, hflag] at hmask
    exact Bool.noConfusion (hmask.2 (by unfold Interests.watch; rw [hflag]; exact hslot))

/-- A socket is read for good, and then something is left to be written. -/
theorem read_lost : ∃ es s, Run step Allowed (init 3) es s ∧ s.Watched 5 .read ∧ s.events 5 &&& epollin = 0 ∧ ¬ Agrees s := by
  obtain ⟨s, hrun, hw, hs⟩ := Run.of_decide (f := step) (P := Allowed)
    [.watch (ioeRead ||| ioeInfiniteWatchRead) 5 someInfo true, .watch ioeWrite 5 someInfo true] (s := init 3)
    (Q := fun s => s.Watched 5 .read ∧ s.events 5 &&& epollin = 0) (by decide)
  exact ⟨_, s, hrun, hw, hs, fun h => (h.mask 5 .read).2 hw hs⟩

end Epoll
end Wawo
