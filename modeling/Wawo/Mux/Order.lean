import Wawo.Mux.Calls

/-!
# The frames of a stream on the wire

A stream that was opened here plans its `T_SYN`, and `_flush` sends it in front of the first `T_DATA`. But the
`T_UWND` and the `T_FIN` stand in blocks of their own before that, so that either may go out without it
(`SendsBare`): the `T_FIN` when the stream is closed before anything is written, and then the `T_SYN` is never
sent. `wire_order`: otherwise the frames are in order.
-/

namespace Wawo.Mux

open Lts

/-- `T_DATA` or `T_UWND` -/
def Frame.isBody : Frame → Bool
  | .data _ | .uwnd _ => true
  | _ => false

def Frame.isUwnd : Frame → Bool
  | .uwnd _ => true
  | _ => false

/-- A `T_SYN`, `T_DATA` and `T_UWND`, at most one `T_FIN`, and after it `T_UWND` only -/
def WireOrdered (sent : List Frame) : Prop :=
  sent = [] ∨ ∃ body tail, sent = .syn :: (body ++ tail) ∧ (∀ f ∈ body, f.isBody = true) ∧
    (tail = [] ∨ ∃ uwnds, tail = .fin :: uwnds ∧ ∀ f ∈ uwnds, f.isUwnd = true)

/-- How far a stream has got -/
inductive Phase (l : QueueLife) : Prop
  | planned (hp : l.s.flag.planSyn = true) (hsent : l.sent = [])
  | started (hp : l.s.flag.planSyn = false) (body : List Frame) (hsent : l.sent = .syn :: body) (hbody : ∀ f ∈ body, f.isBody = true)
  | finished (hp : l.s.flag.planSyn = false) (hw : l.s.flag.writeShutdown = true) (body uwnds : List Frame)
      (hsent : l.sent = .syn :: (body ++ .fin :: uwnds)) (hbody : ∀ f ∈ body, f.isBody = true) (huwnds : ∀ f ∈ uwnds, f.isUwnd = true)

section

variable {m : Mode} {l l' : QueueLife}

theorem Phase.wireOrdered (h : Phase l) : WireOrdered l.sent := by
  cases h with
  | planned _ hsent => exact .inl hsent
  | started _ body hsent hbody => exact .inr ⟨body, [], by rw [List.append_nil]; exact hsent, hbody, .inl rfl⟩
  | finished _ _ body uwnds hsent hbody huwnds => exact .inr ⟨body, _, hsent, hbody, .inr ⟨uwnds, rfl, huwnds⟩⟩

/-- A change that sends nothing and keeps the two flags keeps the phase. -/
theorem Phase.keep (h : Phase l) (hsent : l'.sent = l.sent) (hp : l'.s.flag.planSyn = l.s.flag.planSyn)
    (hw : l.s.flag.writeShutdown = true → l'.s.flag.writeShutdown = true) : Phase l' := by
  cases h with
  | planned h hs => exact .planned (hp.trans h) (hsent.trans hs)
  | started h body hs hbody => exact .started (hp.trans h) body (hsent.trans hs) hbody
  | finished h hw' body uwnds hs hbody huwnds => exact .finished (hp.trans h) (hw hw') body uwnds (hsent.trans hs) hbody huwnds

theorem forall_mem_snoc {p : Frame → Bool} {fs : List Frame} {f : Frame} (h : ∀ f ∈ fs, p f = true) (hf : p f = true) :
    ∀ g ∈ fs ++ [f], p g = true := by
  intro g hg
  rcases List.mem_append.1 hg with hg | hg
  · exact h g hg
  · rw [List.mem_singleton.1 hg]
    exact hf

theorem Phase.act (h : Phase l) (hm : ¬ m.bare) (ha : Act m l l') : Phase l' := by
  cases ha with
  | credit _ hbare =>
    cases h with
    | planned hp _ => exact absurd (hbare hp) hm
    | started hp body hsent hbody =>
      exact .started hp (body ++ [.uwnd l.s.rbIncre]) (by simp [hsent]) (forall_mem_snoc hbody rfl)
    | finished hp hw body uwnds hsent hbody huwnds =>
      exact .finished hp hw body (uwnds ++ [.uwnd l.s.rbIncre]) (by simp [hsent]) hbody (forall_mem_snoc huwnds rfl)
  | fin hw _ _ hbare =>
    cases h with
    | planned hp _ => exact absurd (hbare hp) hm
    | started hp body hsent hbody => exact .finished hp rfl body [] (by simp [hsent]) hbody nofun
    | finished _ hw' => exact absurd hw' (Bool.eq_false_iff.1 hw)
  | syn _ hp =>
    cases h with
    | planned _ hsent => exact .started rfl [] (by simp [hsent]) nofun
    | started hp' => exact absurd hp (Bool.eq_false_iff.1 hp')
    | finished hp' => exact absurd hp (Bool.eq_false_iff.1 hp')
  | data n hw hp =>
    cases h with
    | planned hp' => exact absurd hp' (Bool.eq_false_iff.1 hp)
    | started _ body hsent hbody =>
      exact .started hp (body ++ [.data (l.s.wb.front n)]) (by simp [hsent]) (forall_mem_snoc hbody rfl)
    | finished _ hw' => exact absurd hw' (Bool.eq_false_iff.1 hw)
  | forceClose => exact h.keep rfl rfl fun _ => rfl
  | _ => exact h.keep rfl rfl id

theorem Phase.live {c : StreamCall} (h : Phase l) (hs : Sized l.s) (hc : ¬ SendsBare l.s c) (hl : live c l = .ok l') :
    Phase l' ∧ Sized l'.s := by
  have hallows : Mode.Allows ⟨c.bufferCfg, muxStreamWndSize, False, _⟩ l.s c :=
    Mode.allows (fun _ => Nat.le_trans l.s.wb.length_le hs.wb_le) hc
  exact live_inv (I := fun l => Phase l ∧ Sized l.s) (fun _ _ hi ha => ⟨hi.1.act id ha, hi.2.act ha⟩) hs hallows ⟨h, hs⟩ hl

end

/-- For every stream opened here and every order of its calls, of the frames that arrive and of what the socket
answers: if no tick sends a `T_UWND` or a `T_FIN` while the `T_SYN` is planned, the frames sent are always in
order. -/
theorem wire_order {id : Nat} {ctx : Bool} {s : Stream RingBuffer} {cs : List StreamCall} {l : Life RingBuffer} (hs : streamOpen id ctx = .ok s)
    (h : Run live (fun l c => ¬ SendsBare l.s c) (begun s) cs l) : WireOrdered l.sent := by
  obtain ⟨t, ht, hst⟩ := (streamOpen_agree id ctx).exists_ok hs
  rw [streamOpen_eq] at ht
  cases ht
  obtain ⟨k, hrun, hlk⟩ := run_queue (C := fun s c => ¬ SendsBare s c) (D := fun t c => ¬ SendsBare t c) hst
    (fun s t c h => mt (sendsBare_congr h).2) h
  have hphase := hrun.inv (fun k => Phase k ∧ Sized k.s) (fun _ _ _ hi hc hl => hi.1.live hi.2 hc hl)
    ⟨.planned rfl rfl, sized_opened id ctx⟩
  obtain ⟨-, _, _⟩ := hlk
  exact hphase.1.wireOrdered

/-- A byte is written, the stream is closed and ticked until all is sent. -/
def writeAndFinish (cfg : SocketBufferCfg) : List StreamCall :=
  [.write [7], .close, .tick true cfg [ok, ok], .tick true cfg [ok]]

def anyCfg : SocketBufferCfg := ⟨sockSndMaxSize, Nat.le_refl _, sockSndMinSize_le⟩

theorem wire_order_written :
    ∃ (s : Stream RingBuffer) (l : Life RingBuffer), streamOpen 1 false = .ok s ∧
      Run live (fun l c => ¬ SendsBare l.s c) (begun s) (writeAndFinish anyCfg) l ∧ l.sent = [.syn, .data [7], .fin] ∧ WireOrdered l.sent := by
  obtain ⟨s, hs, hst⟩ := streamOpen_ring 1 false
  obtain ⟨k, hrun, hsent⟩ := Run.of_decide (f := live) (s := begun (opened 1 false)) (writeAndFinish anyCfg)
    (P := fun k c => ¬ SendsBare k.s c) (Q := fun k => k.sent = [.syn, .data [7], .fin]) (by decide +kernel)
  obtain ⟨l, hl, hlk⟩ := run_ring (C := fun s c => ¬ SendsBare s c) (D := fun t c => ¬ SendsBare t c) hst
    (fun s t c h => mt (sendsBare_congr h).1) hrun
  refine ⟨s, l, hs, hl, ?_, wire_order hs hl⟩
  obtain ⟨-, _, _⟩ := hlk
  exact hsent

/-- A stream that is closed for writing before anything is written sends its `T_FIN`, and no `T_SYN` before it. -/
theorem fin_without_syn :
    ∃ (s : Stream RingBuffer) (l : Life RingBuffer), streamOpen 1 false = .ok s ∧
      Run live (fun _ _ => True) (begun s) [.closeWrite, .tick true anyCfg [ok]] l ∧ l.sent = [.fin] ∧ ¬ WireOrdered l.sent := by
  obtain ⟨s, hs, hst⟩ := streamOpen_ring 1 false
  obtain ⟨k, hrun, hsent⟩ := Run.of_decide (f := live) (s := begun (opened 1 false)) [.closeWrite, .tick true anyCfg [ok]]
    (P := fun _ _ => True) (Q := fun k => k.sent = [.fin]) (by decide +kernel)
  obtain ⟨l, hl, hlk⟩ := run_ring (C := fun _ _ => True) (D := fun _ _ => True) hst (fun _ _ _ _ _ => trivial) hrun
  obtain ⟨-, _, _⟩ := hlk
  refine ⟨s, _, hs, hl, hsent, ?_⟩
  rintro (h | ⟨body, tail, h, -⟩)
  · cases hsent.symm.trans h
  · cases hsent.symm.trans h

end Wawo.Mux
