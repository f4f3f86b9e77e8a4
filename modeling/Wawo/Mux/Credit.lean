import Wawo.Mux.Peers

/-!
# The credit of a stream

What a sender may still send, what is on its way, what the receiver has not read or not yet reported, and the
reports on their way back make up the window (`Pair.credit`). A stream that gets no frame only moves credit
between its own places and the wire (`Local`), and one that gets a frame takes over what is in it (`Taken`). No
credit is lost in front of the `T_SYN`, because no data goes out there (`Heralds`).
-/

namespace Wawo.Mux

open Lts

def Frame.bytes : Frame → Nat
  | .data opack => opack.length
  | _ => 0

def Frame.incre : Frame → Nat
  | .uwnd incre => incre
  | _ => 0

def dataBytes (fs : List Frame) : Nat := (fs.map Frame.bytes).sum

def increments (fs : List Frame) : Nat := (fs.map Frame.incre).sum

/-- The credit of what the other side sends to `x` -/
def Pair.credit {ρ : Type} [Ring ρ] (p : Pair ρ) (x : Side) : Nat :=
  (p.ends x.other).s.wbWnd + dataBytes (p.wire x) + Ring.count (p.ends x).s.rb + (p.ends x).s.rbIncre + increments (p.wire x.other)

@[simp] theorem dataBytes_nil : dataBytes [] = 0 := rfl

@[simp] theorem dataBytes_cons (f : Frame) (fs : List Frame) : dataBytes (f :: fs) = f.bytes + dataBytes fs := by
  simp [dataBytes]

@[simp] theorem dataBytes_append (fs gs : List Frame) : dataBytes (fs ++ gs) = dataBytes fs + dataBytes gs := by
  simp [dataBytes]

@[simp] theorem increments_nil : increments [] = 0 := rfl

@[simp] theorem increments_cons (f : Frame) (fs : List Frame) : increments (f :: fs) = f.incre + increments fs := by
  simp [increments]

@[simp] theorem increments_append (fs gs : List Frame) : increments (fs ++ gs) = increments fs + increments gs := by
  simp [increments]

/-! ### The `T_SYN` -/

/-- Neither `T_SYN` nor `T_DATA` -/
def Frame.isBare : Frame → Bool
  | .syn | .data _ => false
  | _ => true

/-- What is sent by a stream that was opened here: up to the `T_SYN` there is no data, and the `T_SYN` is sent once. -/
inductive Heralds : Bool → List Frame → Prop
  | planned {fs : List Frame} (h : ∀ f ∈ fs, f.isBare = true) : Heralds true fs
  | sent {fs gs : List Frame} (h : ∀ f ∈ fs, f.isBare = true) (hsyn : .syn ∉ gs) : Heralds false (fs ++ .syn :: gs)

namespace Heralds

variable {planSyn : Bool} {f : Frame} {fs gs : List Frame}

theorem after (hfs : Heralds true fs) (h : Heralds planSyn gs) : Heralds planSyn (fs ++ gs) := by
  cases hfs with
  | planned hfs =>
    have hall : ∀ {hs : List Frame}, (∀ f ∈ hs, f.isBare = true) → ∀ f ∈ fs ++ hs, f.isBare = true := by
      intro hs hhs f hf
      exact (List.mem_append.1 hf).elim (hfs f) (hhs f)
    cases h with
    | planned h => exact .planned (hall h)
    | sent h hsyn =>
      rw [← List.append_assoc]
      exact .sent (hall h) hsyn

theorem append (h : Heralds false fs) (hsyn : .syn ∉ gs) : Heralds false (fs ++ gs) := by
  cases h with
  | sent h hsyn' =>
    rw [List.append_assoc, List.cons_append]
    exact .sent h fun hmem => (List.mem_append.1 hmem).elim hsyn' hsyn

/-- The first frame is the `T_SYN`, or it is one of those before it. -/
theorem cons (h : Heralds planSyn (f :: fs)) : (f = .syn ∧ planSyn = false ∧ .syn ∉ fs) ∨ (f.isBare = true ∧ Heralds planSyn fs) := by
  generalize hw : f :: fs = w at h
  cases h with
  | planned h =>
    subst hw
    exact .inr ⟨h f (by simp), .planned fun g hg => h g (List.mem_cons_of_mem _ hg)⟩
  | @sent hs gs h hsyn =>
    cases hs with
    | nil =>
      cases hw
      exact .inl ⟨rfl, rfl, hsyn⟩
    | cons g hs =>
      cases hw
      exact .inr ⟨h f (by simp), .sent (fun g hg => h g (List.mem_cons_of_mem _ hg)) hsyn⟩

end Heralds

theorem Frame.bytes_of_isBare {f : Frame} (h : f.isBare = true) : f.bytes = 0 := by
  cases f with
  | data => cases h
  | _ => rfl

/-! ### A stream on its own -/

/-- What becomes of a stream that gets no frame, and what it sends meanwhile -/
structure Local (s s' : QueueStream) (sent : List Frame) : Prop where
  sized : Sized s → Sized s'
  wbWnd_eq : s'.wbWnd + dataBytes sent = s.wbWnd
  opens : s'.flag.readShutdown = false → s.flag.readShutdown = false
  read : s'.flag.readShutdown = false → s.rb.count + s.rbIncre ≤ muxStreamWndSize →
    s'.rb.count + s'.rbIncre + increments sent = s.rb.count + s.rbIncre
  recycle : s'.state = .recycle → s.state = .recycle ∨ s'.flag.readShutdown = true
  noSyn : s.flag.planSyn = false → s'.flag.planSyn = false ∧ .syn ∉ sent
  heralds : s.flag.planSyn = true → Heralds s'.flag.planSyn sent

section

variable {m : Mode} {l l' : QueueLife} {s s' s'' : QueueStream} {sent sent' : List Frame}

/-- Nothing but `T_RST` is sent, and nothing changes. -/
theorem Local.of_rst (s : QueueStream) (h : ∀ f ∈ sent, f = .rst) : Local s s sent := by
  have hsum : dataBytes sent = 0 ∧ increments sent = 0 := by
    induction sent with
    | nil => exact ⟨rfl, rfl⟩
    | cons f fs ih =>
      obtain ⟨hbytes, hincre⟩ := ih fun g hg => h g (List.mem_cons_of_mem _ hg)
      rw [dataBytes_cons, increments_cons, hbytes, hincre, h f (by simp)]
      exact ⟨rfl, rfl⟩
  refine ⟨id, by rw [hsum.1]; rfl, id, fun _ _ => by rw [hsum.2]; rfl, .inl, fun hplan => ⟨hplan, fun hmem => nomatch h _ hmem⟩, fun hplan => ?_⟩
  rw [hplan]
  exact .planned fun f hf => h f hf ▸ rfl

theorem Local.refl (s : QueueStream) : Local s s [] := .of_rst s nofun

theorem Local.trans (h : Local s s' sent) (h' : Local s' s'' sent') : Local s s'' (sent ++ sent') where
  sized hs := h'.sized (h.sized hs)
  wbWnd_eq := by
    have h₁ := h.wbWnd_eq
    have h₂ := h'.wbWnd_eq
    rw [dataBytes_append]
    omega
  opens ho := h.opens (h'.opens ho)
  read ho hle := by
    have h₁ := h.read (h'.opens ho) hle
    have h₂ := h'.read ho (by omega)
    rw [increments_append]
    omega
  recycle hr := by
    rcases h'.recycle hr with hr | hr
    · refine (h.recycle hr).imp_right fun hsh => ?_
      by_contra hopen
      exact Bool.eq_false_iff.1 (h'.opens (Bool.eq_false_iff.2 hopen)) hsh
    · exact .inr hr
  noSyn hplan := by
    obtain ⟨hplan', hsent⟩ := h.noSyn hplan
    obtain ⟨hplan'', hsent'⟩ := h'.noSyn hplan'
    exact ⟨hplan'', fun hmem => (List.mem_append.1 hmem).elim hsent hsent'⟩
  heralds hplan := by
    have hh := h.heralds hplan
    cases hplan' : s'.flag.planSyn with
    | true => exact (hplan' ▸ hh).after (h'.heralds hplan')
    | false =>
      obtain ⟨hplan'', hsent'⟩ := h'.noSyn hplan'
      rw [hplan'']
      exact (hplan' ▸ hh).append hsent'

/-- A change that sends nothing and leaves the plan of the `T_SYN` alone -/
theorem Local.silent (hsized : Sized s → Sized s') (hwnd : s'.wbWnd = s.wbWnd)
    (hopens : s'.flag.readShutdown = false → s.flag.readShutdown = false)
    (hread : s'.flag.readShutdown = false → s.rb.count + s.rbIncre ≤ muxStreamWndSize → s'.rb.count + s'.rbIncre = s.rb.count + s.rbIncre)
    (hrecycle : s'.state = .recycle → s.state = .recycle ∨ s'.flag.readShutdown = true) (hplan : s'.flag.planSyn = s.flag.planSyn) :
    Local s s' [] where
  sized := hsized
  wbWnd_eq := hwnd
  opens := hopens
  read := hread
  recycle := hrecycle
  noSyn h := ⟨hplan.trans h, nofun⟩
  heralds h := by
    rw [hplan, h]
    exact .planned nofun

theorem bare_heralds {planSyn : Bool} {f : Frame} (hf : f.isBare = true) (h : planSyn = true) : Heralds planSyn [f] := by
  rw [h]
  exact .planned fun g hg => List.mem_singleton.1 hg ▸ hf

theorem Act.toLocal (ha : Act m l l') (hm : ¬ m.arrives) : ∃ sent, l'.sent = l.sent ++ sent ∧ Local l.s l'.s sent := by
  have hsized : Sized l.s → Sized l'.s := fun hs => hs.act ha
  have hsilent : ∀ {k : QueueLife}, Local l.s k.s [] → k.sent = l.sent → ∃ sent, k.sent = l.sent ++ sent ∧ Local l.s k.s sent :=
    fun hloc hsent => ⟨[], hsent.trans (List.append_nil _).symm, hloc⟩
  cases ha with
  | read n hn =>
    refine hsilent (.silent hsized rfl id (fun _ hle => ?_) .inl rfl) rfl
    have hcount := l.s.rb.count_skip n
    have hwnd : muxStreamWndSize < 2 ^ 32 := by decide
    dsimp only
    rw [u32, Nat.mod_eq_of_lt (by omega)]
    omega
  | shutRead => exact hsilent (.silent hsized rfl nofun nofun .inl rfl) rfl
  | take _ harr => exact absurd harr hm
  | gain _ harr => exact absurd harr hm
  | forceClose => exact hsilent (.silent hsized rfl nofun nofun nofun rfl) rfl
  | recycle hs hr => exact hsilent (.silent hsized rfl id (fun _ _ => rfl) (fun _ => .inr hr) rfl) rfl
  | closed => exact hsilent (.silent hsized rfl id (fun _ _ => rfl) nofun rfl) rfl
  | credit =>
    refine ⟨_, rfl, hsized, rfl, id, fun _ _ => ?_, .inl, fun hplan => ⟨hplan, by simp⟩, bare_heralds rfl⟩
    rw [increments_cons, increments_nil]
    rfl
  | fin => exact ⟨_, rfl, hsized, rfl, id, fun _ _ => rfl, .inl, fun hplan => ⟨hplan, by simp⟩, bare_heralds rfl⟩
  | syn _ hp =>
    refine ⟨_, rfl, hsized, rfl, id, fun _ _ => rfl, .inl, fun hplan => ?_, fun _ => ?_⟩
    · exact absurd hp (Bool.eq_false_iff.1 hplan)
    · exact @Heralds.sent [] _ nofun nofun
  | data n _ hp hn hc =>
    refine ⟨_, rfl, hsized, ?_, id, fun _ _ => rfl, .inl, fun hplan => ⟨hplan, by simp⟩, fun hplan => ?_⟩
    · have hlen : (l.s.wb.front n).length = n := List.length_take_of_le hc
      rw [dataBytes_cons, dataBytes_nil, Frame.bytes, hlen]
      dsimp only
      omega
    · exact absurd hplan (Bool.eq_false_iff.1 hp)
  | _ => exact hsilent (.silent hsized rfl id (fun _ _ => rfl) .inl rfl) rfl

/-- A fault other than the two assertions that the credit is for -/
def NotCredit (e : ByteFault) : Prop := e ≠ .muxRoom ∧ e ≠ .muxWnd

theorem notCredit_muxWrite : NotCredit .muxWrite := by
  unfold NotCredit
  decide

theorem shutWrite_ensures (s : QueueStream) : Ensures (fun _ => True) NotCredit s.shutWrite := by
  have hfault : NotCredit .muxState ∧ NotCredit .muxId ∧ NotCredit .muxFlag := by
    unfold NotCredit
    decide
  refine Ensures.bind (Q := fun _ => True) ?_ fun _ _ => trivial
  refine ensures_require (fun _ => hfault.1) fun _ => ensures_require (fun _ => hfault.2.1) fun _ => ?_
  exact ensures_require (fun _ => hfault.2.2) fun _ => ensures_require (fun _ => hfault.2.2) fun _ => trivial

theorem write_ensures (s : QueueStream) (opack : List Byte) : Ensures (fun _ => True) NotCredit (s.write opack) := by
  have hempty : NotCredit .ringWriteEmpty := by
    unfold NotCredit
    decide
  unfold Stream.write
  split_ifs
  · trivial
  · trivial
  · refine Ensures.bind (Q := fun _ => True) (ensures_require (fun _ => hempty) fun _ => trivial) fun _ _ => ?_
    exact ensures_require (fun _ => notCredit_muxWrite) fun _ => trivial

theorem userCall_ensures (s : QueueStream) (c : UserCall) : Ensures (fun o => o.sent = []) NotCredit (s.call c.call) := by
  cases c with
  | write opack => exact (write_ensures s opack).bind fun _ _ => rfl
  | read max =>
    refine Ensures.bind (Q := fun _ => True) ?_ fun _ _ => rfl
    unfold Stream.read
    split_ifs <;> trivial
  | closeRead => rfl
  | closeWrite =>
    refine Ensures.bind (Q := fun _ => True) ?_ fun _ _ => rfl
    unfold Stream.closeWrite
    split_ifs
    · trivial
    · exact (shutWrite_ensures s).bind fun _ _ => trivial
  | close =>
    refine Ensures.bind (Q := fun _ => True) ?_ fun _ _ => rfl
    unfold Stream.close
    dsimp only
    split_ifs
    · trivial
    · trivial
    · exact (shutWrite_ensures _).bind fun _ _ => trivial
    · trivial
    · exact (shutWrite_ensures _).bind fun _ _ => trivial

theorem tick_ensures (hs : Sized s) (connected : Bool) (cfg : SocketBufferCfg) (codes : List Int) :
    Ensures (fun _ => True) NotCredit (s.call (.tick connected cfg codes)) := by
  have hallows : Mode.Allows ⟨cfg, muxStreamWndSize, True, False⟩ s (.tick connected cfg codes) :=
    ⟨by rintro _ _ _ ⟨⟩; rfl, fun _ => Nat.le_trans s.wb.length_le hs.wb_le, fun _ => trivial, nofun⟩
  have hacts : Acts ⟨cfg, muxStreamWndSize, True, False⟩ [] [] s ⟨cfg, codes, []⟩ (s.tick connected ⟨cfg, codes, []⟩) := tick_acts hs hallows
  refine Ensures.bind (Q := fun _ => True) ?_ fun _ _ => trivial
  exact (hacts.ensures (I := fun _ => True) (fun _ _ _ _ => trivial) trivial (fun _ _ _ hfalse => hfalse.elim)).mono fun _ _ => trivial

/-- A call other than the arrival of a frame -/
theorem call_local {c : StreamCall} {Q : Outcome (BoundedQueue Byte) → Prop} (hs : Sized s) (hc : ∀ inpack, c ≠ .arrive inpack)
    (h : Ensures Q NotCredit (s.call c)) : Ensures (fun o => Local s o.s o.sent ∧ Q o) NotCredit (s.call c) := by
  cases hcall : s.call c with
  | error e =>
    rw [hcall] at h
    exact h
  | ok o =>
    refine ⟨?_, h.of_eq_ok hcall⟩
    have hlive : live c (begun s) = .ok ⟨o.s, [] ++ o.sent, [] ++ o.accepted⟩ := bind_eq_ok.2 ⟨o, hcall, rfl⟩
    have hallows : Mode.Allows ⟨c.bufferCfg, muxStreamWndSize, True, _⟩ s c :=
      Mode.allows (fun _ => Nat.le_trans s.wb.length_le hs.wb_le) fun _ => trivial
    refine live_inv (I := fun l => Local s l.s l.sent) (fun l l' hi ha => ?_) hs hallows (Local.refl s) hlive
    obtain ⟨sent, hsent, hloc⟩ := ha.toLocal fun ⟨inpack, harr⟩ => hc inpack harr
    rw [hsent]
    exact hi.trans hloc

/-! ### A frame that arrives -/

/-- What becomes of a stream that gets the frame -/
structure Taken (s s' : QueueStream) (f : Frame) : Prop where
  sized : Sized s → Sized s'
  wbWnd_eq : s.wbWnd + f.incre ≤ muxStreamWndSize → s'.wbWnd = s.wbWnd + f.incre
  opens : s'.flag.readShutdown = false → s.flag.readShutdown = false
  read : s'.flag.readShutdown = false → s'.rb.count + s'.rbIncre = s.rb.count + s.rbIncre + f.bytes
  recycle : s'.state = .recycle → s.state = .recycle
  planSyn_eq : s'.flag.planSyn = s.flag.planSyn

theorem Taken.refl {f : Frame} (hbytes : s.flag.readShutdown = false → f.bytes = 0) (hincre : f.incre = 0) : Taken s s f where
  sized := id
  wbWnd_eq _ := by rw [hincre]; rfl
  opens := id
  read ho := by rw [hbytes ho]; rfl
  recycle := id
  planSyn_eq := rfl

/-- There is room for what arrives. -/
def Room (s : QueueStream) (f : Frame) : Prop := s.flag.readShutdown = false → f.bytes ≤ s.rb.leftCapacity

theorem onEvent_ensures {f : Frame} (hroom : Room s f) : Ensures (fun x => Taken s x.1 f) NotCredit (s.onEvent f) := by
  cases f with
  | syn => exact Taken.refl (fun _ => rfl) rfl
  | data opack =>
    unfold Stream.onEvent
    dsimp only
    split_ifs with hr
    · exact Taken.refl (fun ho => absurd hr (Bool.eq_false_iff.1 ho)) rfl
    · have hfit : opack.length ≤ s.rb.leftCapacity := hroom (Bool.eq_false_iff.2 hr)
      refine ensures_require (fun hnot => absurd hfit hnot) fun _ => ?_
      have hempty : NotCredit .ringWriteEmpty := by
        unfold NotCredit
        decide
      have hwrite : Ensures (fun x => x.2 = s.rb.write opack) NotCredit (Ring.write s.rb opack) :=
        ensures_require (fun _ => hempty) fun _ => rfl
      refine hwrite.bind fun written hrb => ?_
      obtain ⟨n, rb⟩ := written
      have hrb : rb = s.rb.write opack := hrb
      subst hrb
      refine ⟨fun hs => ⟨hs.rb_eq, hs.wb_le, hs.wb_eq⟩, fun _ => rfl, id, fun _ => ?_, id, rfl⟩
      have hcount : (s.rb.write opack).count = s.rb.count + opack.length := by
        unfold BoundedQueue.count
        rw [BoundedQueue.items_write_of_le _ hfit, List.length_append]
      dsimp only
      rw [hcount, Frame.bytes]
      omega
  | uwnd incre =>
    refine ⟨fun hs => ⟨hs.rb_eq, hs.wb_le, hs.wb_eq⟩, fun hle => ?_, id, fun _ => rfl, id, rfl⟩
    have hwnd : muxStreamWndSize < 2 ^ 32 := by decide
    have hle : s.wbWnd + incre ≤ muxStreamWndSize := hle
    show min muxStreamWndSize (u32 (s.wbWnd + incre)) = s.wbWnd + incre
    rw [u32, Nat.mod_eq_of_lt (by omega), Nat.min_eq_right hle]
  | rst => exact ⟨fun hs => ⟨hs.rb_eq, hs.wb_le, hs.wb_eq⟩, fun _ => rfl, (fun h => by cases h), (fun h => by cases h), (fun h => by cases h), rfl⟩
  | fin =>
    have hctx : NotCredit .muxCtx := by
      unfold NotCredit
      decide
    exact ensures_require (fun _ => hctx) fun _ => Taken.refl (fun _ => rfl) rfl

theorem arrive_ensures {f : Frame} (hroom : Room s f) : Ensures (fun o => Taken s o.s f) NotCredit (s.call (.arrive f)) :=
  (onEvent_ensures hroom).bind fun _ h => h

end

/-! ### The two ends -/

abbrev QueuePair := Pair (BoundedQueue Byte)

/-- The `T_SYN` is sent once, by the opener, and gets to the acceptor in front of all data. -/
structure Heralded (p : QueuePair) : Prop where
  opener : (p.ends .opener).entry ≠ .absent
  noSyn : .syn ∉ p.wire .opener
  acceptor_planSyn : (p.ends .acceptor).s.flag.planSyn = false
  absent : (p.ends .acceptor).entry = .absent →
    (p.ends .acceptor).s = fresh ∧ Heralds (p.ends .opener).s.flag.planSyn (p.wire .acceptor)
  there : (p.ends .acceptor).entry ≠ .absent → (p.ends .opener).s.flag.planSyn = false ∧ .syn ∉ p.wire .acceptor

/-- The credit is there as long as the stream is open for reading; what is reported to a stream that is no
longer in the map is lost. -/
structure Balanced (p : QueuePair) : Prop where
  sized : ∀ x, Sized (p.ends x).s
  credit_le : ∀ x, (p.ends x).s.flag.readShutdown = false → p.credit x ≤ muxStreamWndSize
  credit_eq : ∀ x, (p.ends x).s.flag.readShutdown = false → (p.ends x.other).entry ≠ .erased → p.credit x = muxStreamWndSize
  recycled : ∀ x, (p.ends x).s.state = .recycle → (p.ends x).s.flag.readShutdown = true
  erased : ∀ x, (p.ends x).entry = .erased → (p.ends x).s.flag.readShutdown = true

section

variable {p : QueuePair} {x : Side} {e : End (BoundedQueue Byte)} {sent fs : List Frame} {f : Frame}

/-- What `x` does on its own, and what it sends -/
structure Moves (p : QueuePair) (x : Side) (e : End (BoundedQueue Byte)) (sent : List Frame) : Prop where
  toLocal : Local (p.ends x).s e.s sent
  absent : (p.ends x).entry = .absent → e.s = (p.ends x).s
  entry : e.entry = (p.ends x).entry ∨ (p.ends x).entry = .present ∧ e.entry = .erased ∧ e.s.state = .recycle

theorem Moves.entry_absent (h : Moves p x e sent) : e.entry = .absent ↔ (p.ends x).entry = .absent := by
  rcases h.entry with heq | ⟨hp, he, -⟩
  · rw [heq]
  · rw [hp, he]
    exact ⟨nofun, nofun⟩

theorem Heralded.moves (h : Heralded p) (hm : Moves p x e sent) : Heralded ((p.setEnd x e).send x sent) := by
  cases x with
  | opener =>
    refine ⟨fun he => h.opener (hm.entry_absent.1 he), h.noSyn, h.acceptor_planSyn, fun habs => ?_, fun hacc => ?_⟩
    · obtain ⟨hfresh, hh⟩ := h.absent habs
      refine ⟨hfresh, ?_⟩
      show Heralds e.s.flag.planSyn (p.wire .acceptor ++ sent)
      cases hplan : (p.ends .opener).s.flag.planSyn with
      | true => exact (hplan ▸ hh).after (hm.toLocal.heralds hplan)
      | false =>
        obtain ⟨hplan', hsyn⟩ := hm.toLocal.noSyn hplan
        rw [hplan']
        exact (hplan ▸ hh).append hsyn
    · obtain ⟨hplan, hsyn⟩ := h.there hacc
      obtain ⟨hplan', hsyn'⟩ := hm.toLocal.noSyn hplan
      exact ⟨hplan', fun hmem => (List.mem_append.1 hmem).elim hsyn hsyn'⟩
  | acceptor =>
    obtain ⟨hplan, hsyn⟩ := hm.toLocal.noSyn h.acceptor_planSyn
    refine ⟨h.opener, fun hmem => (List.mem_append.1 hmem).elim h.noSyn hsyn, hplan, fun habs => ?_, fun hacc => ?_⟩
    · have habs := hm.entry_absent.1 habs
      obtain ⟨hfresh, hh⟩ := h.absent habs
      exact ⟨(hm.absent habs).trans hfresh, hh⟩
    · exact h.there fun habs => hacc (hm.entry_absent.2 habs)

theorem credit_self (p : QueuePair) (x : Side) (e : End (BoundedQueue Byte)) (sent : List Frame) :
    ((p.setEnd x e).send x sent).credit x =
      (p.ends x.other).s.wbWnd + dataBytes (p.wire x) + e.s.rb.count + e.s.rbIncre + (increments (p.wire x.other) + increments sent) := by
  unfold Pair.credit
  rw [Pair.send_ends, Pair.setEnd_other, Pair.setEnd_self, Pair.send_self, Pair.send_other, increments_append]
  rfl

theorem credit_other (p : QueuePair) (x : Side) (e : End (BoundedQueue Byte)) (sent : List Frame) :
    ((p.setEnd x e).send x sent).credit x.other =
      e.s.wbWnd + (dataBytes (p.wire x.other) + dataBytes sent) + (p.ends x.other).s.rb.count + (p.ends x.other).s.rbIncre +
        increments (p.wire x) := by
  unfold Pair.credit
  rw [Side.other_other, Pair.send_ends, Pair.setEnd_other, Pair.setEnd_self, Pair.send_self, Pair.send_other, dataBytes_append]
  rfl

theorem Balanced.moves (h : Balanced p) (hm : Moves p x e sent) : Balanced ((p.setEnd x e).send x sent) := by
  have hloc := hm.toLocal
  -- what leaves the window of `x` is on its way, and what `x` has reported too
  have hother : ((p.setEnd x e).send x sent).credit x.other = p.credit x.other := by
    have hwnd := hloc.wbWnd_eq
    rw [credit_other, Pair.credit, Side.other_other]
    show _ = (p.ends x).s.wbWnd + _ + (p.ends x.other).s.rb.count + _ + _
    omega
  have hself : e.s.flag.readShutdown = false → ((p.setEnd x e).send x sent).credit x = p.credit x := by
    intro ho
    have hle := h.credit_le x (hloc.opens ho)
    have hcount : p.credit x = (p.ends x.other).s.wbWnd + dataBytes (p.wire x) + (p.ends x).s.rb.count + (p.ends x).s.rbIncre +
      increments (p.wire x.other) := rfl
    have hread := hloc.read ho (by omega)
    rw [credit_self]
    omega
  have hrecycled : e.s.state = .recycle → e.s.flag.readShutdown = true := by
    intro hr
    rcases hloc.recycle hr with hr | hr
    · by_contra hopen
      exact Bool.eq_false_iff.1 (hloc.opens (Bool.eq_false_iff.2 hopen)) (h.recycled x hr)
    · exact hr
  have hendself : ((p.setEnd x e).send x sent).ends x = e := Pair.setEnd_self ..
  have hendother : ((p.setEnd x e).send x sent).ends x.other = p.ends x.other := Pair.setEnd_other ..
  refine ⟨fun y => ?_, fun y => ?_, fun y => ?_, fun y => ?_, fun y => ?_⟩
  all_goals rcases Side.eq_or_eq_other x y with rfl | rfl
  · rw [hendself]
    exact hloc.sized (h.sized y)
  · rw [hendother]
    exact h.sized _
  · rw [hendself]
    exact fun ho => hself ho ▸ h.credit_le y (hloc.opens ho)
  · rw [hendother, hother]
    exact h.credit_le _
  · rw [hendself, hendother]
    exact fun ho he => hself ho ▸ h.credit_eq y (hloc.opens ho) he
  · rw [hendother, Side.other_other, hendself, hother]
    intro ho he
    refine h.credit_eq _ ho ?_
    rw [Side.other_other]
    rcases hm.entry with heq | ⟨hp, -⟩
    · exact heq ▸ he
    · rw [hp]
      exact nofun
  · rw [hendself]
    exact hrecycled
  · rw [hendother]
    exact h.recycled _
  · rw [hendself]
    intro he
    rcases hm.entry with heq | ⟨-, -, hr⟩
    · by_contra hopen
      exact Bool.eq_false_iff.1 (hloc.opens (Bool.eq_false_iff.2 hopen)) (h.erased y (heq ▸ he))
    · exact hrecycled hr
  · rw [hendother]
    exact h.erased _

/-! ### The first frame on the way -/

theorem Heralded.pop (h : Heralded p) (hw : p.wire x = f :: fs) (hentry : e.entry = .absent ↔ (p.ends x).entry = .absent)
    (habsent : (p.ends x).entry = .absent → e.s = (p.ends x).s ∧ f ≠ .syn) (hplan : e.s.flag.planSyn = (p.ends x).s.flag.planSyn) :
    Heralded ((p.pop x fs).setEnd x e) := by
  have htail : .syn ∉ p.wire x → .syn ∉ fs := fun hsyn hmem => hsyn (hw ▸ List.mem_cons_of_mem _ hmem)
  cases x with
  | opener =>
    refine ⟨fun he => h.opener (hentry.1 he), htail h.noSyn, h.acceptor_planSyn, fun habs => ?_, fun hacc => ?_⟩
    · obtain ⟨hfresh, hh⟩ := h.absent habs
      exact ⟨hfresh, hplan ▸ hh⟩
    · obtain ⟨hplan', hsyn⟩ := h.there hacc
      exact ⟨hplan.trans hplan', hsyn⟩
  | acceptor =>
    refine ⟨h.opener, h.noSyn, hplan.trans h.acceptor_planSyn, fun habs => ?_, fun hacc => ?_⟩
    · have habs := hentry.1 habs
      obtain ⟨hs, hf⟩ := habsent habs
      obtain ⟨hfresh, hh⟩ := h.absent habs
      rw [hw] at hh
      exact ⟨hs.trans hfresh, (hh.cons.resolve_left fun hcons => hf hcons.1).2⟩
    · obtain ⟨hplan', hsyn⟩ := h.there fun habs => hacc (hentry.2 habs)
      exact ⟨hplan', htail hsyn⟩

/-- A `T_SYN` that finds no stream is the opener's. -/
theorem Heralded.pop_syn (h : Heralded p) (hw : p.wire x = .syn :: fs) (hx : (p.ends x).entry ≠ .present) (id outps : Nat) (ctx : Bool) :
    (p.ends x).entry = .absent ∧ (p.ends x).s = fresh ∧ Heralded ((p.pop x fs).setEnd x ⟨.present, accepted id ctx, outps⟩) := by
  cases x with
  | opener => exact absurd (hw ▸ List.mem_cons_self) h.noSyn
  | acceptor =>
    have habs : (p.ends .acceptor).entry = .absent := by
      by_contra hacc
      exact (h.there hacc).2 (hw ▸ List.mem_cons_self)
    obtain ⟨hfresh, hh⟩ := h.absent habs
    rw [hw] at hh
    rcases hh.cons with ⟨-, hplan, hsyn⟩ | ⟨hbare, -⟩
    · exact ⟨habs, hfresh, h.opener, h.noSyn, rfl, nofun, fun _ => ⟨hplan, hsyn⟩⟩
    · cases hbare

/-- What `x` has after it got the frame -/
structure Gets (p : QueuePair) (x : Side) (e : End (BoundedQueue Byte)) (f : Frame) : Prop where
  sized : Sized e.s
  read : e.s.flag.readShutdown = false →
    (p.ends x).s.flag.readShutdown = false ∧ e.s.rb.count + e.s.rbIncre = (p.ends x).s.rb.count + (p.ends x).s.rbIncre + f.bytes
  wbWnd_le : (p.ends x.other).s.flag.readShutdown = false → e.s.wbWnd ≤ (p.ends x).s.wbWnd + f.incre
  wbWnd_eq : (p.ends x.other).s.flag.readShutdown = false → e.entry ≠ .erased →
    (p.ends x).entry ≠ .erased ∧ e.s.wbWnd = (p.ends x).s.wbWnd + f.incre
  recycled : e.s.state = .recycle → e.s.flag.readShutdown = true
  erased : e.entry = .erased → e.s.flag.readShutdown = true

theorem Balanced.pop (h : Balanced p) (hw : p.wire x = f :: fs) (hg : Gets p x e f) : Balanced ((p.pop x fs).setEnd x e) := by
  have hendself : ((p.pop x fs).setEnd x e).ends x = e := Pair.setEnd_self ..
  have hendother : ((p.pop x fs).setEnd x e).ends x.other = p.ends x.other := Pair.setEnd_other ..
  have hwireself : ((p.pop x fs).setEnd x e).wire x = fs := Pair.pop_self ..
  have hwireother : ((p.pop x fs).setEnd x e).wire x.other = p.wire x.other := Pair.pop_other ..
  have hself : e.s.flag.readShutdown = false → ((p.pop x fs).setEnd x e).credit x = p.credit x := by
    intro ho
    have hread := (hg.read ho).2
    unfold Pair.credit
    rw [hendself, hendother, hwireself, hwireother, hw, dataBytes_cons]
    show _ + _ + e.s.rb.count + _ + _ = _ + _ + (p.ends x).s.rb.count + _ + _
    omega
  have hother : ((p.pop x fs).setEnd x e).credit x.other + (p.ends x).s.wbWnd + f.incre = p.credit x.other + e.s.wbWnd := by
    unfold Pair.credit
    rw [Side.other_other, hendself, hendother, hwireself, hwireother, hw, increments_cons]
    omega
  refine ⟨fun y => ?_, fun y => ?_, fun y => ?_, fun y => ?_, fun y => ?_⟩
  all_goals rcases Side.eq_or_eq_other x y with rfl | rfl
  · rw [hendself]
    exact hg.sized
  · rw [hendother]
    exact h.sized _
  · rw [hendself]
    exact fun ho => hself ho ▸ h.credit_le y (hg.read ho).1
  · rw [hendother]
    intro ho
    have hle := h.credit_le _ ho
    have hwnd := hg.wbWnd_le ho
    omega
  · rw [hendself, hendother]
    exact fun ho he => hself ho ▸ h.credit_eq y (hg.read ho).1 he
  · rw [hendother, Side.other_other, hendself]
    intro ho he
    obtain ⟨he', hwnd⟩ := hg.wbWnd_eq ho he
    have heq := h.credit_eq _ ho ((Side.other_other x).symm ▸ he')
    omega
  · rw [hendself]
    exact hg.recycled
  · rw [hendother]
    exact h.recycled _
  · rw [hendself]
    exact hg.erased
  · rw [hendother]
    exact h.erased _

/-- What the window of `x` may grow by -/
theorem Balanced.grow_le (h : Balanced p) (hw : p.wire x = f :: fs) (ho : (p.ends x.other).s.flag.readShutdown = false) :
    (p.ends x).s.wbWnd + f.incre ≤ muxStreamWndSize := by
  have hle := h.credit_le _ ho
  unfold Pair.credit at hle
  rw [Side.other_other, hw, increments_cons] at hle
  omega

/-- There is room for what is on the way. -/
theorem Balanced.room (h : Balanced p) (hw : p.wire x = f :: fs) : Room (p.ends x).s f := by
  intro ho
  have hle := h.credit_le x ho
  have hcap := (h.sized x).rb_eq
  have hcount : p.credit x = (p.ends x.other).s.wbWnd + dataBytes (p.wire x) + (p.ends x).s.rb.count + (p.ends x).s.rbIncre +
    increments (p.wire x.other) := rfl
  rw [hcount, hw, dataBytes_cons] at hle
  unfold BoundedQueue.leftCapacity
  omega

/-! ### Steps -/

structure Conserved (p : QueuePair) : Prop where
  heralded : Heralded p
  balanced : Balanced p

theorem Conserved.moves (h : Conserved p) (hm : Moves p x e sent) : Conserved ((p.setEnd x e).send x sent) :=
  ⟨h.heralded.moves hm, h.balanced.moves hm⟩

theorem Conserved.user (h : Conserved p) (x : Side) (c : UserCall) : Ensures Conserved NotCredit (p.user x c) := by
  unfold Pair.user
  split_ifs with habs
  · exact h
  · have hc : ∀ inpack, c.call ≠ .arrive inpack := by cases c <;> exact nofun
    refine (call_local (h.balanced.sized x) hc (userCall_ensures _ c)).bind fun o ⟨hloc, hsent⟩ => ?_
    rw [hsent] at hloc
    have hm : Conserved ((p.setEnd x { p.ends x with s := o.s }).send x []) := h.moves ⟨hloc, fun he => absurd he habs, .inl rfl⟩
    rw [Pair.send_nil] at hm
    exact hm

theorem flushOutps_sent {outps : Nat} {so : So} (h : ∀ f ∈ so.sent, f = .rst) : ∀ f ∈ (flushOutps outps so).2.1.sent, f = .rst := by
  induction outps generalizing so with
  | zero => exact h
  | succ outps ih =>
    have hsend : ∀ f ∈ (so.sendPacket .rst).2.sent, f = .rst := by
      rw [(sendPacket_sent so .rst).1]
      split_ifs
      · intro f hf
        exact (List.mem_append.1 hf).elim (h f) List.mem_singleton.1
      · exact h
    unfold flushOutps
    dsimp only
    split_ifs
    · exact hsend
    · exact ih hsend

theorem Conserved.tick (h : Conserved p) (x : Side) (connected : Bool) (cfg : SocketBufferCfg) (codes : List Int) :
    Ensures Conserved NotCredit (p.tick x connected cfg codes) := by
  have hrst := @flushOutps_sent (p.ends x).outps ⟨cfg, codes, []⟩ nofun
  unfold Pair.tick
  dsimp only
  generalize flushOutps (p.ends x).outps ⟨cfg, codes, []⟩ = flushed at hrst ⊢
  have h' : Conserved ((p.setEnd x { p.ends x with outps := flushed.1 }).send x flushed.2.1.sent) :=
    h.moves ⟨.of_rst _ hrst, fun _ => rfl, .inl rfl⟩
  have hend : ((p.setEnd x { p.ends x with outps := flushed.1 }).send x flushed.2.1.sent).ends x = { p.ends x with outps := flushed.1 } :=
    Pair.setEnd_self ..
  split_ifs with hstop
  · exact h'
  · have hpres : (p.ends x).entry = .present := by
      by_contra hnot
      exact hstop (.inr hnot)
    have htick := tick_ensures (h.balanced.sized x) connected cfg flushed.2.1.codes
    have hc : ∀ inpack, StreamCall.tick connected cfg flushed.2.1.codes ≠ .arrive inpack := nofun
    refine (call_local (h.balanced.sized x) hc htick).bind fun o ⟨hloc, _⟩ => ?_
    refine h'.moves ⟨?_, ?_, ?_⟩
    · rw [hend]
      exact hloc
    · rw [hend]
      exact fun he => nomatch hpres.symm.trans he
    · rw [hend]
      dsimp only
      split_ifs with hr
      · exact .inr ⟨hpres, rfl, hr⟩
      · exact .inl hpres.symm

theorem Conserved.sndRst (h : Conserved p) (x : Side) (sndrt : Int) : Conserved (p.sndRst x sndrt) := by
  unfold Pair.sndRst
  split_ifs
  · have hm : Conserved ((p.setEnd x (p.ends x)).send x [.rst]) := h.moves ⟨.of_rst _ (by simp), fun _ => rfl, .inl rfl⟩
    rw [Pair.setEnd_ends_self] at hm
    exact hm
  · have hm : Conserved ((p.setEnd x { p.ends x with outps := (p.ends x).outps + 1 }).send x []) :=
      h.moves ⟨.refl _, fun _ => rfl, .inl rfl⟩
    rw [Pair.send_nil] at hm
    exact hm
  · exact h

/-- A frame for a stream that is in the map -/
theorem Conserved.taken (h : Conserved p) (hw : p.wire x = f :: fs) (hpres : (p.ends x).entry = .present) {s : QueueStream}
    (ht : Taken (p.ends x).s s f) : Conserved ((p.pop x fs).setEnd x { p.ends x with s := s }) := by
  refine ⟨h.heralded.pop hw Iff.rfl (fun he => nomatch hpres.symm.trans he) ht.planSyn_eq, h.balanced.pop hw ?_⟩
  have hwnd : (p.ends x.other).s.flag.readShutdown = false → s.wbWnd = (p.ends x).s.wbWnd + f.incre :=
    fun ho => ht.wbWnd_eq (h.balanced.grow_le hw ho)
  refine ⟨ht.sized (h.balanced.sized x), fun ho => ⟨ht.opens ho, ht.read ho⟩, fun ho => Nat.le_of_eq (hwnd ho), fun ho he => ⟨he, hwnd ho⟩, ?_, ?_⟩
  · intro hr
    by_contra hopen
    exact Bool.eq_false_iff.1 (ht.opens (Bool.eq_false_iff.2 hopen)) (h.balanced.recycled x (ht.recycle hr))
  · exact fun he => nomatch hpres.symm.trans he

/-- A frame other than a `T_SYN` for a stream that is not in the map: no data is lost, because none was sent or
nobody is to read it. -/
theorem Conserved.dropped (h : Conserved p) (hw : p.wire x = f :: fs) (hpres : (p.ends x).entry ≠ .present) (hf : f ≠ .syn) :
    Conserved (p.pop x fs) := by
  have hends : p.pop x fs = (p.pop x fs).setEnd x (p.ends x) := ((p.pop x fs).setEnd_ends_self x).symm
  have habsent : (p.ends x).entry = .absent → f.bytes = 0 ∧ (p.ends x).s.wbWnd = muxStreamWndSize := by
    cases x with
    | opener => exact fun he => absurd he h.heralded.opener
    | acceptor =>
      intro he
      obtain ⟨hfresh, hh⟩ := h.heralded.absent he
      rw [hw] at hh
      rw [hfresh]
      exact ⟨Frame.bytes_of_isBare (hh.cons.resolve_left fun hcons => hf hcons.1).1, rfl⟩
  rw [hends]
  refine ⟨h.heralded.pop hw Iff.rfl (fun _ => ⟨rfl, hf⟩) rfl, h.balanced.pop hw ?_⟩
  refine ⟨h.balanced.sized x, fun ho => ⟨ho, ?_⟩, fun _ => Nat.le_add_right _ _, fun ho he => ⟨he, ?_⟩, h.balanced.recycled x, h.balanced.erased x⟩
  all_goals have habs : (p.ends x).entry ≠ .erased → (p.ends x).entry = .absent := by cases hx : (p.ends x).entry <;> simp_all
  · have he : (p.ends x).entry ≠ .erased := fun he => Bool.eq_false_iff.1 ho (h.balanced.erased x he)
    rw [(habsent (habs he)).1]
    rfl
  · have hle := h.balanced.grow_le hw ho
    have hwnd := (habsent (habs he)).2
    omega

theorem Conserved.deliver (h : Conserved p) (x : Side) (ctx : Bool) (sndrt : Int) : Ensures Conserved NotCredit (p.deliver x ctx sndrt) := by
  have hid : NotCredit .muxId := by
    unfold NotCredit
    decide
  unfold Pair.deliver
  cases hw : p.wire x with
  | nil => exact h
  | cons f fs =>
    refine ensures_require (fun _ => hid) fun _ => ?_
    dsimp only
    rw [Pair.pop_ends]
    split_ifs with hpres
    · refine (arrive_ensures (h.balanced.room hw)).bind fun o ht => ?_
      have hset := h.taken hw hpres ht
      show Conserved (if o.rst = true then _ else _)
      split_ifs
      · exact hset.sndRst x sndrt
      · exact hset
    · cases f with
      | syn =>
        obtain ⟨habs, hfresh, hh⟩ := h.heralded.pop_syn hw hpres p.id (p.ends x).outps ctx
        show Ensures _ _ (streamAccept p.id ctx >>= _)
        rw [streamAccept_eq]
        refine ⟨hh, h.balanced.pop hw ⟨sized_accepted .., fun _ => ?_, fun _ => ?_, fun _ _ => ⟨?_, ?_⟩, nofun, nofun⟩⟩
        all_goals simp [hfresh, habs, fresh, accepted, Frame.bytes, Frame.incre]
      | rst => exact h.dropped hw hpres nofun
      | _ => exact (h.dropped hw hpres nofun).sndRst x sndrt

theorem Conserved.step (h : Conserved p) (e : PairEvent) : Ensures Conserved NotCredit (Pair.step e p) := by
  cases e with
  | user x c => exact h.user x c
  | tick x connected cfg codes => exact h.tick x connected cfg codes
  | deliver x ctx sndrt => exact h.deliver x ctx sndrt

/-- The two ends after `stream_open` -/
def joinedQueue (id : Nat) (ctx : Bool) : QueuePair where
  id := id
  ends := fun | .opener => ⟨.present, opened id ctx, 0⟩ | .acceptor => ⟨.absent, fresh, 0⟩
  wire _ := []

theorem joined_eq (id : Nat) (ctx : Bool) : (joined id ctx : Except ByteFault QueuePair) = .ok (joinedQueue id ctx) := by
  unfold joined
  rw [streamOpen_eq, init_eq]
  rfl

theorem conserved_joined (id : Nat) (ctx : Bool) : Conserved (joinedQueue id ctx) where
  heralded := ⟨nofun, nofun, rfl, fun _ => ⟨rfl, .planned nofun⟩, fun hacc => absurd rfl hacc⟩
  balanced := by
    have hcredit : ∀ x, (joinedQueue id ctx).credit x = muxStreamWndSize := by
      intro x
      cases x <;> rfl
    refine ⟨fun x => ?_, fun x _ => Nat.le_of_eq (hcredit x), fun x _ _ => hcredit x, fun x => ?_, fun x => ?_⟩
    · cases x with
      | opener => exact sized_opened id ctx
      | acceptor => exact ⟨rfl, Nat.le_refl _, fun _ => rfl⟩
    · cases x <;> exact fun hr => StreamState.noConfusion hr
    · cases x <;> exact fun he => Entry.noConfusion he

/-! ### Ring buffers -/

theorem readShutdown_congr {p : Pair RingBuffer} {q : QueuePair} (h : p.Refines q) (x : Side) :
    (p.ends x).s.flag.readShutdown = (q.ends x).s.flag.readShutdown :=
  congrArg StreamFlag.readShutdown (h.ends x).s.flag_eq

theorem wbWnd_congr {p : Pair RingBuffer} {q : QueuePair} (h : p.Refines q) (x : Side) : (p.ends x).s.wbWnd = (q.ends x).s.wbWnd := by
  have hs := (h.ends x).s
  generalize (p.ends x).s = s at hs ⊢
  generalize (q.ends x).s = t at hs ⊢
  cases hs
  rfl

theorem credit_congr {p : Pair RingBuffer} {q : QueuePair} (h : p.Refines q) (x : Side) : p.credit x = q.credit x := by
  have hs := (h.ends x).s
  unfold Pair.credit
  rw [wbWnd_congr h, h.wire_eq]
  generalize (p.ends x).s = s at hs ⊢
  generalize (q.ends x).s = t at hs ⊢
  cases hs with
  | mk _ _ _ _ _ _ _ hrb hwb => rw [count_agree hrb]

end

/-- For every run of the two peers of a stream: the credit makes up the window as long as the one side has not
shut down reading and the other's stream is in the map, no assertion about it fails, and the bound on the window
of a sender changes nothing. -/
theorem credit_conserved {id : Nat} {ctx : Bool} {p₀ p : Pair RingBuffer} {es : List PairEvent} (h₀ : joined id ctx = .ok p₀)
    (h : Run Pair.step (fun _ _ => True) p₀ es p) :
    (∀ x, (p.ends x).s.flag.readShutdown = false → (p.ends x.other).entry ≠ .erased → p.credit x = muxStreamWndSize) ∧
    (∀ e, Pair.step e p ≠ .error .muxRoom ∧ Pair.step e p ≠ .error .muxWnd) ∧
    ∀ x incre wire, p.wire x = .uwnd incre :: wire → (p.ends x.other).s.flag.readShutdown = false →
      min muxStreamWndSize (u32 ((p.ends x).s.wbWnd + incre)) = (p.ends x).s.wbWnd + incre := by
  obtain ⟨q₀, hq₀, hpq₀⟩ := (joined_agree id ctx).exists_ok h₀
  rw [joined_eq] at hq₀
  cases hq₀
  obtain ⟨q, hrun, hpq⟩ := Agree.run (D := fun _ _ => True) step_agree (fun _ _ _ _ _ => trivial) hpq₀ h
  have hq : Conserved q := hrun.inv Conserved (fun q e q' hq _ hstep => (hq.step e).of_eq_ok hstep) (conserved_joined id ctx)
  refine ⟨fun x ho he => ?_, fun e => ?_, fun x incre wire hw ho => ?_⟩
  · rw [readShutdown_congr hpq] at ho
    rw [(hpq.ends x.other).entry_eq] at he
    rw [credit_congr hpq]
    exact hq.balanced.credit_eq x ho he
  · have hagree := step_agree e p q hpq
    have hstep := hq.step e
    constructor <;> intro hfault <;> rw [hagree.symm.eq_error hfault] at hstep
    · exact hstep.1 rfl
    · exact hstep.2 rfl
  · rw [hpq.wire_eq] at hw
    rw [readShutdown_congr hpq] at ho
    rw [wbWnd_congr hpq]
    have hle := hq.balanced.grow_le hw ho
    have hle : (q.ends x).s.wbWnd + incre ≤ muxStreamWndSize := hle
    have hwnd : muxStreamWndSize < 2 ^ 32 := by decide
    rw [u32, Nat.mod_eq_of_lt (by omega), Nat.min_eq_right hle]

/-- The opener writes three bytes, the acceptor gets them, reads two and reports them. -/
def writeAndRead : List PairEvent :=
  [.user .opener (.write [1, 2, 3]), .tick .opener true smallCfg [ok, ok], .deliver .acceptor true ok, .deliver .acceptor true ok,
    .user .acceptor (.read 2), .tick .acceptor true smallCfg [ok]]

theorem credit_conserved_read :
    ∃ p₀ p : Pair RingBuffer, joined 1 false = .ok p₀ ∧ Run Pair.step (fun _ _ => True) p₀ writeAndRead p ∧
      p.wire .opener = [.uwnd 2] ∧ (p.ends .opener).s.wbWnd = muxStreamWndSize - 3 ∧ p.credit .acceptor = muxStreamWndSize ∧
      min muxStreamWndSize (u32 ((p.ends .opener).s.wbWnd + 2)) = muxStreamWndSize - 1 := by
  obtain ⟨p₀, h₀, hpq₀⟩ := (joined_agree 1 false).symm.exists_ok (joined_eq 1 false)
  obtain ⟨q, hrun, hwire, hwnd, hopen⟩ := Run.of_decide (f := Pair.step) (s := joinedQueue 1 false) writeAndRead (P := fun _ _ => True)
    (Q := fun q => q.wire .opener = [.uwnd 2] ∧ (q.ends .opener).s.wbWnd = muxStreamWndSize - 3 ∧
      (q.ends .acceptor).s.flag.readShutdown = false ∧ (q.ends .opener).entry ≠ .erased) (by decide +kernel)
  obtain ⟨p, hp, hpq⟩ := Agree.run (R := fun q p => Pair.Refines p q) (D := fun _ _ => True)
    (fun e q p hpq => (step_agree e p q hpq).symm) (fun _ _ _ _ _ => trivial) hpq₀ hrun
  rw [← hpq.wire_eq] at hwire
  rw [← wbWnd_congr hpq] at hwnd
  rw [← readShutdown_congr hpq, ← (hpq.ends .opener).entry_eq] at hopen
  obtain ⟨hcredit, -, hgrow⟩ := credit_conserved h₀ hp
  refine ⟨p₀, p, h₀, hp, hwire, hwnd, hcredit .acceptor hopen.1 hopen.2, ?_⟩
  rw [hgrow .opener 2 [] hwire hopen.1, hwnd]
  decide

end Wawo.Mux
