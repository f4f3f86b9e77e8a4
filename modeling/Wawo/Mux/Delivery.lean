import Wawo.Mux.Calls

/-!
# The delivery promise of a stream

`mux` promises to transfer all that was written before `close_write`. What has been sent and what is in `wb`
make up what was accepted (`Kept`), until `_flush` determines the size of the buffer: what the new buffer has
no room for is gone. `delivery_promise`: nothing else loses a byte.
-/

namespace Wawo.Mux

open Lts Relation

-- so that nothing evaluates the sizes
attribute [local irreducible] SocketBufferCfg.room subU32

/-- The bytes of a `T_DATA` -/
def payload : Frame → List Byte
  | .data opack => opack
  | _ => []

def payloads (sent : List Frame) : List Byte := sent.flatMap payload

/-- What was sent is the front of what was accepted, and all of it if the `T_FIN` was sent. -/
structure Delivers {ρ : Type} (l : Life ρ) : Prop where
  front : payloads l.sent <+: l.accepted
  whole : .fin ∈ l.sent → payloads l.sent = l.accepted

/-- What is in `wb` when the size of its buffer is determined goes into the new buffer. -/
def Fits {ρ : Type} [Ring ρ] (s : Stream ρ) (c : StreamCall) : Prop :=
  Determines s c → Ring.count s.wb ≤ c.bufferCfg.room

/-- What was accepted is sent or in `wb`, and the `T_FIN` is sent behind all of it. -/
structure Kept (l : QueueLife) : Prop where
  accepted_eq : payloads l.sent ++ l.s.wb.items = l.accepted
  fin : .fin ∈ l.sent → l.s.flag.writeShutdown = true ∧ l.s.wb.items = []

section

variable {m : Mode} {l l' : QueueLife}

theorem Kept.delivers (h : Kept l) : Delivers l where
  front := ⟨_, h.accepted_eq⟩
  whole hfin := by rw [← h.accepted_eq, (h.fin hfin).2, List.append_nil]

theorem payloads_append (sent : List Frame) (f : Frame) : payloads (sent ++ [f]) = payloads sent ++ payload f := by
  simp [payloads]

theorem payloads_of_control (sent : List Frame) {f : Frame} (h : payload f = []) : payloads (sent ++ [f]) = payloads sent := by
  rw [payloads_append, h, List.append_nil]

/-- A buffer that is large enough keeps everything. -/
theorem resized_items {cfg : SocketBufferCfg} {q : BoundedQueue Byte} (h : q.count ≤ cfg.room) : (resized cfg q).items = q.items := by
  have hle := q.length_le
  unfold BoundedQueue.count at h
  refine List.take_of_length_le ?_
  rw [trySize_eq]
  omega

theorem Kept.act (h : Kept l) (hlim : m.lim = m.cfg.room) (ha : Act m l l') : Kept l' := by
  cases ha with
  | write opack ho hw hfit =>
    have hopen : .fin ∉ l.sent := fun hfin => Bool.eq_false_iff.1 hw (h.fin hfin).1
    refine ⟨?_, fun hfin => absurd hfin hopen⟩
    dsimp only
    rw [BoundedQueue.items_write_of_le _ hfit, ← List.append_assoc, h.accepted_eq]
  | credit =>
    refine ⟨?_, fun hfin => h.fin (by simpa using hfin)⟩
    dsimp only
    rw [payloads_of_control _ rfl, h.accepted_eq]
  | fin hw hb =>
    refine ⟨?_, fun _ => ⟨rfl, (BoundedQueue.count_eq_zero _).1 hb⟩⟩
    dsimp only
    rw [payloads_of_control _ rfl, h.accepted_eq]
  | determine hb hd hle =>
    have hitems : (resized m.cfg l.s.wb).items = l.s.wb.items := resized_items (hlim ▸ hle)
    refine ⟨?_, fun hfin => ⟨(h.fin hfin).1, hitems.trans (h.fin hfin).2⟩⟩
    dsimp only
    rw [hitems, h.accepted_eq]
  | syn =>
    refine ⟨?_, fun hfin => h.fin (by simpa using hfin)⟩
    dsimp only
    rw [payloads_of_control _ rfl, h.accepted_eq]
  | data n hw hp hn hc =>
    have hopen : .fin ∉ l.sent := fun hfin => Bool.eq_false_iff.1 hw (h.fin hfin).1
    refine ⟨?_, fun hfin => absurd (by simpa using hfin) hopen⟩
    dsimp only
    rw [payloads_append, payload, List.append_assoc, BoundedQueue.front_append_items_skip, h.accepted_eq]
  | forceClose => exact ⟨h.accepted_eq, fun hfin => ⟨rfl, (h.fin hfin).2⟩⟩
  | _ => exact ⟨h.accepted_eq, h.fin⟩

theorem Kept.live {c : StreamCall} (h : Kept l) (hs : Sized l.s) (hfits : Fits l.s c) (hl : live c l = .ok l') : Kept l' ∧ Sized l'.s := by
  have hallows : Mode.Allows ⟨c.bufferCfg, c.bufferCfg.room, True, _⟩ l.s c := Mode.allows hfits fun _ => trivial
  exact live_inv (I := fun l => Kept l ∧ Sized l.s) (fun _ _ hi ha => ⟨hi.1.act rfl ha, hi.2.act ha⟩) hs hallows ⟨h, hs⟩ hl

theorem kept_begun {s : QueueStream} (h : Made s) : Kept (begun s) ∧ Sized s := by
  cases h with
  | opened id ctx h =>
    rw [streamOpen_eq] at h
    cases h
    exact ⟨⟨rfl, nofun⟩, sized_opened id ctx⟩
  | accepted id ctx h =>
    rw [streamAccept_eq] at h
    cases h
    exact ⟨⟨rfl, nofun⟩, sized_accepted id ctx⟩

theorem kept_of_run {s : QueueStream} {cs : List StreamCall} (hs : Made s) (h : Run live (fun l c => Fits l.s c) (begun s) cs l) :
    Kept l ∧ Sized l.s :=
  h.inv (fun l => Kept l ∧ Sized l.s) (fun _ _ _ hi hc hl => hi.1.live hi.2 hc hl) (kept_begun hs)

theorem fits_congr {s : Stream RingBuffer} {t : QueueStream} {c : StreamCall} (h : s.Refines t) : Fits s c ↔ Fits t c := by
  unfold Fits
  rw [determines_congr h]
  cases h with
  | mk _ _ _ _ _ _ _ hrb hwb => rw [count_agree hwb]

theorem delivers_congr {l : Life RingBuffer} {k : QueueLife} (h : l.Refines k) : Delivers l ↔ Delivers k := by
  obtain ⟨h, sent, accepted⟩ := h
  exact ⟨fun h => ⟨h.front, h.whole⟩, fun h => ⟨h.front, h.whole⟩⟩

end

instance (s : QueueStream) (c : StreamCall) : Decidable (Fits s c) := by unfold Fits; infer_instance

/-- For every stream and every order of its calls, of the frames that arrive and of what the socket answers: if
what is in `wb` when the size of its buffer is determined fits the buffer that the socket allows, the data
sent is always the front of what was accepted, and all of it when the `T_FIN` is sent. -/
theorem delivery_promise {s : Stream RingBuffer} {cs : List StreamCall} {l : Life RingBuffer} (hs : Made s)
    (h : Run live (fun l c => Fits l.s c) (begun s) cs l) : Delivers l := by
  obtain ⟨t, ht, hst⟩ := hs.queue
  obtain ⟨k, hrun, hlk⟩ := run_queue (C := Fits) (D := Fits) hst (fun s t c h => (fits_congr h).1) h
  exact (delivers_congr hlk).2 (kept_of_run ht hrun).1.delivers

/-- `n` bytes are written, the stream is closed for writing, and two ticks follow. -/
def writeAndClose (n : Nat) : List StreamCall :=
  [.write (List.replicate n 7), .closeWrite, .tick true smallCfg [ok, ok], .tick true smallCfg [ok, ok]]

/-- Three bytes go over in one `T_DATA`, in front of the `T_FIN`. -/
theorem delivery_promise_small :
    ∃ (s : Stream RingBuffer) (l : Life RingBuffer), Made s ∧ Run live (fun l c => Fits l.s c) (begun s) (writeAndClose 3) l ∧
      .fin ∈ l.sent ∧ Delivers l := by
  obtain ⟨s, hs, hst⟩ := streamOpen_ring 1 false
  obtain ⟨k, hrun, hfin⟩ := Run.of_decide (f := live) (s := begun (opened 1 false)) (writeAndClose 3) (P := fun k c => Fits k.s c)
    (Q := fun k => .fin ∈ k.sent) (by decide +kernel)
  obtain ⟨l, hl, hlk⟩ := run_ring (C := Fits) (D := Fits) hst (fun s t c h => (fits_congr h).2) hrun
  refine ⟨s, l, .opened 1 false hs, hl, ?_, delivery_promise (.opened 1 false hs) hl⟩
  obtain ⟨-, _, _⟩ := hlk
  exact hfin

/-- Four thousand bytes are more than the smallest buffer holds: 928 of them are lost, and the `T_FIN` is sent. -/
theorem bytes_lost :
    ∃ (s : Stream RingBuffer) (l : Life RingBuffer), streamOpen 1 false = .ok s ∧
      Run live (fun _ _ => True) (begun s) (writeAndClose 4000) l ∧ .fin ∈ l.sent ∧ (payloads l.sent).length = 3072 ∧
      l.accepted.length = 4000 ∧ ¬ Delivers l := by
  obtain ⟨s, hs, hst⟩ := streamOpen_ring 1 false
  obtain ⟨k, hrun, hfin, hsent, hacc⟩ := Run.of_decide (f := live) (s := begun (opened 1 false)) (writeAndClose 4000)
    (P := fun _ _ => True) (Q := fun k => .fin ∈ k.sent ∧ (payloads k.sent).length = 3072 ∧ k.accepted.length = 4000)
    (by decide +kernel)
  obtain ⟨l, hl, hlk⟩ := run_ring (C := fun _ _ => True) (D := fun _ _ => True) hst (fun _ _ _ _ _ => trivial) hrun
  obtain ⟨-, _, _⟩ := hlk
  refine ⟨s, _, hs, hl, hfin, hsent, hacc, fun h => ?_⟩
  have := congrArg List.length (h.whole hfin)
  dsimp only at this hsent hacc
  omega

end Wawo.Mux
