import Wawo.Wcp.SenderSim

/-!
# How packs and bytes get their sequence numbers

`Sender.Numbered`: the packs that took a number are numbered one after the other, and the bytes the
user has handed over are the payload of these packs followed by what is left in `sb`. The FIN takes
its number when `shutdown` is called, the bytes in `sb` theirs when `check_send` packs them, so the
FIN stands behind all data exactly if `sb` was empty at the call (`finFollows_iff`).
-/

namespace Wawo

open Lts Relation

namespace Sender

variable {m : Mode} {s s' : Sender}

/-- The payload of packs, in order. -/
def payload (l : List WcbPack) : List Byte := l.flatMap fun p => p.data

@[simp] theorem payload_append (l l' : List WcbPack) : payload (l ++ l') = payload l ++ payload l' := by
  simp [payload]

@[simp] theorem payload_singleton (p : WcbPack) : payload [p] = p.data := by simp [payload]

structure Numbered (s : Sender) : Prop where
  dsn_eq : s.dsn = s.hist.numbered.length % 2 ^ 32
  seqs : s.hist.numbered.map (fun p => p.seq) = (List.range s.hist.numbered.length).map (· % 2 ^ 32)
  accepted : s.hist.accepted = payload s.hist.numbered ++ s.sb
  dat : ∀ p ∈ s.hist.numbered, p.data ≠ [] → p.testFlag .dat = true
  no_fin : s.writeShut = false → ∀ p ∈ s.hist.numbered, p.testFlag .fin = false

theorem u32_succ_mod {k : Nat} : u32 (k % 2 ^ 32 + 1) = (k + 1) % 2 ^ 32 := by
  unfold u32; omega

theorem seqs_concat {l : List WcbPack} {p : WcbPack}
    (h : l.map (fun p => p.seq) = (List.range l.length).map (· % 2 ^ 32)) (hp : p.seq = l.length % 2 ^ 32) :
    (l ++ [p]).map (fun p => p.seq) = (List.range (l ++ [p]).length).map (· % 2 ^ 32) := by
  rw [List.map_append, h, List.length_append, List.length_singleton, List.range_succ, List.map_append]
  simp [hp]

/-- A pack without payload takes the next number. -/
theorem Numbered.number (h : Numbered s) (flag : WcpFlag) (shut : Bool)
    (hfin : shut = false → s.writeShut = false ∧ flag &&& .fin = 0) :
    Numbered { s.number flag with writeShut := shut } := by
  refine ⟨?_, seqs_concat h.seqs h.dsn_eq, ?_, ?_, ?_⟩
  · show u32 (s.dsn + 1) = (s.hist.numbered ++ [_]).length % 2 ^ 32
    rw [h.dsn_eq, u32_succ_mod]; simp
  · show s.hist.accepted = payload (s.hist.numbered ++ [_]) ++ s.sb
    rw [h.accepted]; simp [Datagram.fresh]
  · intro p hp hd
    rcases List.mem_append.1 hp with hp | hp
    · exact h.dat p hp hd
    · rw [List.mem_singleton.1 hp] at hd; simp [Datagram.fresh] at hd
  · intro hs p hp
    obtain ⟨h1, h2⟩ := hfin hs
    rcases List.mem_append.1 hp with hp | hp
    · exact h.no_fin h1 p hp
    · rw [List.mem_singleton.1 hp]
      simp [h2]

theorem Numbered.step (h : Numbered s) (hs : Step m s s') : Numbered s' := by
  cases hs with
  | number flag hf =>
    refine h.number flag s.writeShut fun hs => ⟨hs, ?_⟩
    simp only [List.mem_cons, List.not_mem_nil, or_false] at hf
    rcases hf with rfl | rfl | rfl <;> decide
  | shutFin _ _ => exact h.number .fin true nofun
  | package _ _ =>
    refine ⟨?_, seqs_concat h.seqs h.dsn_eq, ?_, ?_, ?_⟩
    · show u32 (s.dsn + 1) = (s.hist.numbered ++ [_]).length % 2 ^ 32
      rw [h.dsn_eq, u32_succ_mod]; simp
    · show s.hist.accepted = payload (s.hist.numbered ++ [_]) ++ s.sb.drop wcpMdu
      rw [h.accepted, payload_append, payload_singleton, List.append_assoc]
      simp [Datagram.fresh]
    · intro p hp hd
      rcases List.mem_append.1 hp with hp | hp
      · exact h.dat p hp hd
      · rw [List.mem_singleton.1 hp, Datagram.testFlag_fresh]; decide
    · intro hs p hp
      rcases List.mem_append.1 hp with hp | hp
      · exact h.no_fin hs p hp
      · rw [List.mem_singleton.1 hp, Datagram.testFlag_fresh]; decide
  | accept bs _ _ =>
    refine ⟨h.dsn_eq, h.seqs, ?_, h.dat, h.no_fin⟩
    show s.hist.accepted ++ bs = payload s.hist.numbered ++ (s.sb ++ bs)
    rw [h.accepted, List.append_assoc]
  | shut _ => exact ⟨h.dsn_eq, h.seqs, h.accepted, h.dat, nofun⟩
  | _ => exact ⟨h.dsn_eq, h.seqs, h.accepted, h.dat, h.no_fin⟩

/-- Before the numbers wrap they are strictly increasing. -/
theorem Numbered.sorted (h : Numbered s) (hlt : s.hist.numbered.length < 2 ^ 32) :
    s.hist.numbered.Pairwise (fun p q => p.seq < q.seq) := by
  have hseqs : s.hist.numbered.map (fun p => p.seq) = List.range s.hist.numbered.length := by
    rw [h.seqs]
    refine (List.map_congr_left fun k hk => ?_).trans (List.map_id _)
    rw [List.mem_range] at hk
    exact Nat.mod_eq_of_lt (by omega)
  have hlt : (s.hist.numbered.map fun p => p.seq).Pairwise (· < ·) := by rw [hseqs]; exact List.pairwise_lt_range
  exact List.pairwise_map.1 hlt

/-- What has happened since the write side was shut: no bytes were accepted, and no FIN took a
number. -/
structure AfterShut (s s' : Sender) : Prop where
  shut : s'.writeShut = true
  accepted : s'.hist.accepted = s.hist.accepted
  numbered : ∃ post, s'.hist.numbered = s.hist.numbered ++ post ∧ ∀ p ∈ post, p.testFlag .fin = false

theorem AfterShut.refl (h : s.writeShut = true) : AfterShut s s := ⟨h, rfl, [], by simp, by simp⟩

theorem AfterShut.step {s₀ : Sender} (h : AfterShut s₀ s) (hs : Step m s s') : AfterShut s₀ s' := by
  have hshut := h.shut
  obtain ⟨post, hn, hpost⟩ := h.numbered
  have hcat : ∀ p : WcbPack, p.testFlag .fin = false →
      ∃ post, s.hist.numbered ++ [p] = s₀.hist.numbered ++ post ∧ ∀ p ∈ post, p.testFlag .fin = false := by
    intro p hp
    refine ⟨post ++ [p], by rw [hn, List.append_assoc], fun q hq => ?_⟩
    rcases List.mem_append.1 hq with hq | hq
    · exact hpost q hq
    · rw [List.mem_singleton.1 hq]; exact hp
  cases hs with
  | number flag hf =>
    refine ⟨hshut, h.accepted, hcat _ ?_⟩
    simp only [List.mem_cons, List.not_mem_nil, or_false] at hf
    rw [Datagram.testFlag_fresh]
    rcases hf with rfl | rfl | rfl <;> decide
  | package _ _ => exact ⟨hshut, h.accepted, hcat _ (by rw [Datagram.testFlag_fresh]; decide)⟩
  | shutFin ho _ => rw [hshut] at ho; cases ho
  | accept bs ho _ => rw [hshut] at ho; cases ho
  | shut _ => exact ⟨rfl, h.accepted, h.numbered⟩
  | _ => exact ⟨hshut, h.accepted, h.numbered⟩

end Sender

section

variable {w w' w₀ : Wcb} {es es' : List Event} {how : Shut}

theorem run_numbered (h₀ : Opened w₀) (h : Run step (fun _ _ => True) w₀ es w) : w.snd.sender.Numbered :=
  run_sender_inv Sender.Numbered (fun _ _ _ _ => ⟨rfl, rfl, rfl, nofun, nofun⟩) (fun _ _ hv ⟨_, hs⟩ => hv.step hs) h₀ h

/-- The bytes `bs` are the payload of the data packs numbered below the FIN. -/
def FinFollows (bs : List Byte) (s : Snd) : Prop :=
  ∃ fin ∈ s.hist.numbered, fin.testFlag .fin = true ∧
    bs = (s.hist.numbered.filter (fun p => p.seq < fin.seq)).flatMap (fun p => p.data) ∧
    ∀ p ∈ s.hist.numbered, p.data ≠ [] → p.testFlag .dat = true

theorem shutdown_sender (hopen : w.snd.localWriteShutdowned = false) (hw : how.writes = true) :
    (shutdown how w).2.snd.sender = { w.snd.sender.number .fin with writeShut := true } := by
  cases how with
  | rd => cases hw
  | wr => simp [shutdown, Shut.writes, Shut.reads, Snd.shutWrite, hopen]; rfl
  | rdwr => simp [shutdown, Shut.writes, Shut.reads, Snd.shutWrite, hopen]; rfl

/-- Every byte accepted before a `shutdown` of the write side is numbered below the FIN exactly if
nothing was left in `sb` at the call, whatever happens afterwards. -/
theorem finFollows_iff (h₀ : Opened w₀) (h : Run step (fun _ _ => True) w₀ es w)
    (hopen : w.snd.localWriteShutdowned = false) (hw : how.writes = true)
    (h' : Run step (fun _ _ => True) (shutdown how w).2 es' w') (hlt : w'.snd.hist.numbered.length < 2 ^ 32) :
    FinFollows w.snd.hist.accepted w'.snd ↔ w.snd.sb.items = [] := by
  have hn := run_numbered h₀ h
  have hs := shutdown_sender hopen hw
  have hn₁ : (shutdown how w).2.snd.sender.Numbered := by rw [hs]; exact hn.number .fin true nofun
  have hn' : w'.snd.sender.Numbered := Simulates.star_inv (fun _ _ hv ⟨_, hs⟩ => hv.step hs) hn₁ (run_moves h')
  have hafter : Sender.AfterShut (shutdown how w).2.snd.sender w'.snd.sender :=
    Simulates.star_inv (fun _ _ hv ⟨_, hs⟩ => hv.step hs) (.refl (by rw [hs])) (run_moves h')
  obtain ⟨post, hpost, hnofin⟩ := hafter.numbered
  obtain ⟨fin, hfin, hlog⟩ : ∃ fin : WcbPack, fin.testFlag .fin = true ∧
      w'.snd.hist.numbered = w.snd.hist.numbered ++ fin :: post := by
    refine ⟨⟨.fresh w.snd.dsn .fin [] (Nat.zero_le _), 0, 0⟩, by rw [Datagram.testFlag_fresh]; decide, ?_⟩
    rw [hs] at hpost
    exact hpost.trans (List.append_assoc _ _ _)
  have hsorted : (w.snd.hist.numbered ++ fin :: post).Pairwise (fun p q => p.seq < q.seq) := by
    rw [← hlog]; exact hn'.sorted hlt
  have hfilter : w'.snd.hist.numbered.filter (fun p => p.seq < fin.seq) = w.snd.hist.numbered := by
    rw [hlog]; exact SeqList.filter_lt_of_pairwise hsorted
  have hacc : w.snd.hist.accepted = Sender.payload w.snd.hist.numbered ++ w.snd.sb.items := hn.accepted
  constructor
  · rintro ⟨fin', hmem, hfin', hbytes, -⟩
    -- the only FIN is the one of the call
    obtain rfl : fin' = fin := by
      rw [hlog] at hmem
      rcases List.mem_append.1 hmem with hmem | hmem
      · have := hn.no_fin hopen fin' hmem
        rw [this] at hfin'; cases hfin'
      · rcases List.mem_cons.1 hmem with rfl | hmem
        · rfl
        · rw [hnofin fin' hmem] at hfin'; cases hfin'
    rw [hfilter] at hbytes
    rw [hbytes] at hacc
    exact List.append_right_eq_self.1 hacc.symm
  · intro hsb
    refine ⟨fin, by rw [hlog]; simp, hfin, ?_, hn'.dat⟩
    rw [hfilter, hacc, hsb, List.append_nil]
    rfl

/-- A byte is packed by a tick before the write side is shut. -/
theorem finFollows_packed : FinFollows [7] (shutdown .wr
    (Wcb.connecting.after (handshake ++ [.send [7], .update (.at 3)]))).2.snd := by
  have hrun : Run step (fun _ _ => True) Wcb.connecting (handshake ++ [.send [7], .update (.at 3)])
      (Wcb.connecting.after (handshake ++ [.send [7], .update (.at 3)])) := Wcb.run_after (by decide)
  exact (finFollows_iff opened_connecting hrun (by decide) (show Shut.wr.writes = true from rfl) (.nil _) (by decide)).2 rfl

/-- A client with a byte in `sb`. -/
def Wcb.unpacked : Wcb := Wcb.connecting.after (handshake ++ [.send [7]])

/-- A byte still in `sb` when the write side is shut is packed behind the FIN. -/
theorem not_finFollows_unpacked : ∃ es es' w', Run step (fun _ _ => True) Wcb.connecting es Wcb.unpacked ∧
    Wcb.unpacked.snd.localWriteShutdowned = false ∧
    Run step (fun _ _ => True) (shutdown .wr Wcb.unpacked).2 es' w' ∧
    w'.snd.sb.items = [] ∧ ¬ FinFollows Wcb.unpacked.snd.hist.accepted w'.snd := by
  have h : Run step (fun _ _ => True) Wcb.connecting (handshake ++ [.send [7]]) Wcb.unpacked :=
    Wcb.run_after (by decide +kernel)
  have h' : Run step (fun _ _ => True) (shutdown .wr Wcb.unpacked).2 [.update (.blocked 3)]
      ((shutdown .wr Wcb.unpacked).2.after [.update (.blocked 3)]) := Wcb.run_after (by decide +kernel)
  refine ⟨_, _, _, h, by decide +kernel, h', by decide +kernel, ?_⟩
  rintro ⟨fin, hmem, hfin, hbytes, -⟩
  revert fin
  decide +kernel

end

end Wawo
