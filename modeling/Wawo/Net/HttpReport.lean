import Wawo.Net.HttpPeer

/-!
# Messages in packets

What `peer::http` delivers of a message, for every way in which its bytes come in packets. The callbacks keep the
last fragment of a text and drop what came before, except for the body; the string type asserts that there
is no NUL; and the header has one value for a name. So a message arrives whole if and only if no text but the body is
cut, no byte is 0 and no two header lines have one name (`message_intact`).
-/

namespace Wawo

open Lts

/-- The bytes can be a `len_cstr`. -/
def LenCstr.Valid (data : List Byte) : Prop := 0 ∉ data ∧ data.length + 1 < 2 ^ 32

namespace LenCstr

variable {a b data : List Byte} {x : LenCstr}

theorem ofData_eq_ok : ofData data = .ok x ↔ Valid data ∧ x = data := by
  unfold ofData Valid
  split
  case isTrue h => exact iff_of_false nofun fun hv => hv.1.1 h
  case isFalse h0 =>
    split
    case isTrue h => exact iff_of_false nofun fun hv => absurd hv.1.2 (Nat.not_lt.2 h)
    case isFalse h => exact ⟨fun hx => ⟨⟨h0, Nat.lt_of_not_le h⟩, (Except.ok.inj hx).symm⟩, fun hx => by rw [hx.2]⟩

theorem append_eq_ok : append a b = .ok x ↔ Valid (a ++ b) ∧ x = a ++ b := by
  unfold append
  rw [← List.length_append]
  split
  case isTrue h => exact iff_of_false nofun fun hv => absurd hv.1.2 (Nat.not_lt.2 h)
  case isFalse => exact ofData_eq_ok

theorem Valid.nil : Valid [] := ⟨nofun, by decide⟩

theorem Valid.left (h : Valid (a ++ b)) : Valid a := by
  refine ⟨fun h0 => h.1 (List.mem_append_left b h0), ?_⟩
  have hlen := h.2
  rw [List.length_append] at hlen
  omega

theorem Valid.right (h : Valid (a ++ b)) : Valid b := by
  refine ⟨fun h0 => h.1 (List.mem_append_right a h0), ?_⟩
  have hlen := h.2
  rw [List.length_append] at hlen
  omega

theorem Valid.of_mem_flatten {frags : List (List Byte)} (h : Valid frags.flatten) (hd : data ∈ frags) : Valid data := by
  obtain ⟨l₁, l₂, rfl⟩ := List.append_of_mem hd
  rw [List.flatten_append, List.flatten_cons] at h
  exact h.right.left

end LenCstr

theorem HttpHeader.set_set (h : HttpHeader) (k v v' : LenCstr) : (h.set k v).set k v' = h.set k v' := by
  unfold set
  split
  case isTrue hk =>
    have hk' : (h.map.map fun e => if e.1 = k then (e.1, v) else e).any (fun e => e.1 = k) = true := by
      obtain ⟨e, he, hek⟩ := List.any_eq_true.1 hk
      refine List.any_eq_true.2 ⟨_, List.mem_map_of_mem he, ?_⟩
      rw [if_pos (of_decide_eq_true hek)]
      exact hek
    rw [if_pos hk', List.map_map]
    congr 1
    refine List.map_congr_left fun e _ => ?_
    dsimp only [Function.comp]
    by_cases he : e.1 = k <;> simp [he]
  case isFalse hk =>
    have hne : ∀ e ∈ h.map, e.1 ≠ k := fun e he hek => hk (List.any_eq_true.2 ⟨e, he, decide_eq_true hek⟩)
    have hk' : (h.map ++ [(k, v)]).any (fun e => e.1 = k) = true := by simp
    dsimp only
    rw [if_pos hk', List.map_append]
    congr 2
    · refine (List.map_congr_left fun e he => if_neg (hne e he)).trans (List.map_id _)
    · simp

namespace HttpHeader

variable {h : HttpHeader} {ls : List (LenCstr × LenCstr)}

/-- `set` adds at most one entry; if it does, then to the tail. -/
theorem set_map (h : HttpHeader) (e : LenCstr × LenCstr) :
    (h.set e.1 e.2).map = h.map ++ [e] ∨ (h.set e.1 e.2).map.length = h.map.length := by
  unfold set
  split
  case isTrue => exact .inr (List.length_map _)
  case isFalse => exact .inl rfl

theorem set_new {e : LenCstr × LenCstr} (he : e.1 ∉ h.map.map Prod.fst) : (h.set e.1 e.2).map = h.map ++ [e] := by
  unfold set
  rw [if_neg fun hany => ?_]
  obtain ⟨e', he', heq⟩ := List.any_eq_true.1 hany
  exact he (List.mem_map.2 ⟨e', he', of_decide_eq_true heq⟩)

theorem setLines_length_le : (HttpMessage.setLines h ls).map.length ≤ h.map.length + ls.length := by
  unfold HttpMessage.setLines
  induction ls generalizing h with
  | nil => exact Nat.le_refl _
  | cons e ls ih =>
    have hrest := ih (h := h.set e.1 e.2)
    rw [List.foldl_cons, List.length_cons]
    obtain hmap | hlen := set_map h e
    · rw [hmap, List.length_append, List.length_singleton] at hrest
      omega
    · omega

/-- Lines of different names are all kept. -/
theorem setLines_nodup (hn : ((h.map ++ ls).map Prod.fst).Nodup) : (HttpMessage.setLines h ls).map = h.map ++ ls := by
  unfold HttpMessage.setLines
  induction ls generalizing h with
  | nil => exact (List.append_nil _).symm
  | cons e ls ih =>
    have hmap : (h.set e.1 e.2).map = h.map ++ [e] := by
      refine set_new fun he => ?_
      rw [List.map_append, List.nodup_append] at hn
      exact hn.2.2 _ he _ (by simp) rfl
    rw [List.foldl_cons, ih (by rw [hmap, List.append_assoc]; exact hn), hmap, List.append_assoc]
    rfl

/-- As many entries as lines are the lines. -/
theorem setLines_of_length (hlen : (HttpMessage.setLines h ls).map.length = h.map.length + ls.length) :
    (HttpMessage.setLines h ls).map = h.map ++ ls := by
  induction ls generalizing h with
  | nil => exact (List.append_nil _).symm
  | cons e ls ih =>
    have hstep : HttpMessage.setLines h (e :: ls) = HttpMessage.setLines (h.set e.1 e.2) ls := rfl
    rw [hstep] at hlen ⊢
    have hle : (HttpMessage.setLines (h.set e.1 e.2) ls).map.length ≤ (h.set e.1 e.2).map.length + ls.length := setLines_length_le
    rw [List.length_cons] at hlen
    obtain hmap | hsame := set_map h e
    · rw [ih (by rw [hmap, List.length_append, List.length_singleton]; omega), hmap, List.append_assoc]
      rfl
    · omega

/-- The keys are in the order in which their entries are. -/
theorem set_keys (k v : LenCstr) (hk : h.keysOrder = h.map.map Prod.fst) : (h.set k v).keysOrder = (h.set k v).map.map Prod.fst := by
  unfold set
  split
  case isTrue =>
    rw [List.map_map, hk]
    refine List.map_congr_left fun e _ => ?_
    dsimp only [Function.comp]
    split_ifs <;> rfl
  case isFalse => rw [hk, List.map_append, List.map_singleton]

/-- No key has two entries. -/
theorem set_nodup (k v : LenCstr) (hn : (h.map.map Prod.fst).Nodup) : ((h.set k v).map.map Prod.fst).Nodup := by
  unfold set
  split
  case isTrue =>
    rw [List.map_map]
    have hsame : h.map.map (Prod.fst ∘ fun e => if e.1 = k then (e.1, v) else e) = h.map.map Prod.fst := by
      refine List.map_congr_left fun e _ => ?_
      dsimp only [Function.comp]
      split_ifs <;> rfl
    rw [hsame]
    exact hn
  case isFalse hk =>
    rw [List.map_append, List.map_singleton]
    refine List.Nodup.append hn (List.nodup_singleton k) fun k' hk' hk'' => ?_
    obtain ⟨e, he, rfl⟩ := List.mem_map.1 hk'
    exact hk (List.any_eq_true.2 ⟨e, he, decide_eq_true (List.mem_singleton.1 hk'')⟩)

theorem setLines_keys (hk : h.keysOrder = h.map.map Prod.fst) :
    (HttpMessage.setLines h ls).keysOrder = (HttpMessage.setLines h ls).map.map Prod.fst := by
  unfold HttpMessage.setLines
  induction ls generalizing h with
  | nil => exact hk
  | cons e ls ih => exact ih (set_keys e.1 e.2 hk)

theorem nodup_setLines (hn : (h.map.map Prod.fst).Nodup) : ((HttpMessage.setLines h ls).map.map Prod.fst).Nodup := by
  unfold HttpMessage.setLines
  induction ls generalizing h with
  | nil => exact hn
  | cons e ls ih => exact ih (set_nodup e.1 e.2 hn)

/-- A header that is made line by line has all the lines of a message where they are what has been set, and have
different names. -/
theorem setLines_eq_iff {ls' : List (LenCstr × LenCstr)} (hlen : ls.length = ls'.length) :
    HttpMessage.setLines .empty ls = ⟨ls', ls'.map Prod.fst⟩ ↔ ls = ls' ∧ (ls'.map Prod.fst).Nodup := by
  constructor
  · intro h
    have hmap : (HttpMessage.setLines .empty ls).map = ls' := congrArg HttpHeader.map h
    refine ⟨?_, ?_⟩
    · have hall : (HttpMessage.setLines .empty ls).map = ls :=
        setLines_of_length (by rw [hmap, hlen]; exact (Nat.zero_add _).symm)
      exact hall.symm.trans hmap
    · have hn : ((HttpMessage.setLines .empty ls).map.map Prod.fst).Nodup := nodup_setLines List.nodup_nil
      rwa [hmap] at hn
  · rintro ⟨rfl, hn⟩
    have hmap : (HttpMessage.setLines .empty ls).map = ls := setLines_nodup hn
    have hkeys : (HttpMessage.setLines .empty ls).keysOrder = ls.map Prod.fst := by
      rw [setLines_keys rfl, hmap]
    cases heq : HttpMessage.setLines .empty ls with
    | mk map keysOrder =>
      rw [heq] at hmap hkeys
      rw [show map = ls from hmap, show keysOrder = ls.map Prod.fst from hkeys]

end HttpHeader

/-- All fragments can be strings, and the name that is kept is not empty. -/
structure LineReport.Good (l : LineReport) : Prop where
  field : ∀ d ∈ l.field, LenCstr.Valid d
  value : ∀ d ∈ l.value, LenCstr.Valid d
  ne : l.last.1 ≠ []

/-- A text of the first line. -/
def HttpMsg.setText (m : HttpMsg) : HttpLine → LenCstr → HttpMsg
  | .request _, d => { m with url := d }
  | .response .., d => { m with status := d }

theorem HttpMsg.setText_setText (m : HttpMsg) (line : HttpLine) (d d' : LenCstr) :
    (m.setText line d).setText line d' = m.setText line d' := by cases line <;> rfl

namespace HttpPeer

open LenCstr

variable {s s' : HttpPeer} {m : HttpMsg} {frags : List (List Byte)}

theorem run_cons (cb : HttpCallback) (cbs : List HttpCallback) : s.run (cb :: cbs) = s.callback cb >>= fun t => t.run cbs :=
  List.foldlM_cons ..

theorem run_singleton (cb : HttpCallback) : s.run [cb] = s.callback cb := by
  rw [run_cons]
  cases s.callback cb <;> rfl

theorem run_append (cbs cbs' : List HttpCallback) : s.run (cbs ++ cbs') = s.run cbs >>= fun t => t.run cbs' :=
  List.foldlM_append ..

theorem message_eq (h : s.tmp = some m) : s.message = .ok m := by
  unfold message
  rw [h]

/-- A callback that takes a fragment of a text, one after the other. -/
theorem run_texts {cb : List Byte → HttpCallback} {f : HttpPeer → List Byte → HttpPeer} (P : HttpPeer → Prop)
    (hcb : ∀ s d t, P s → (s.callback (cb d) = .ok t ↔ Valid d ∧ t = f s d)) (hP : ∀ s d, P s → P (f s d)) (hs : P s) :
    s.run (frags.map cb) = .ok s' ↔ (∀ d ∈ frags, Valid d) ∧ s' = frags.foldl f s := by
  induction frags generalizing s with
  | nil => exact ⟨fun h => ⟨nofun, (Except.ok.inj h).symm⟩, fun h => by rw [h.2]; rfl⟩
  | cons d frags ih =>
    rw [List.map_cons, run_cons, Lts.bind_eq_ok, List.forall_mem_cons, List.foldl_cons]
    constructor
    · rintro ⟨t, ht, hrun⟩
      obtain ⟨hv, rfl⟩ := (hcb s d t hs).1 ht
      obtain ⟨hvs, heq⟩ := (ih (hP s d hs)).1 hrun
      exact ⟨⟨hv, hvs⟩, heq⟩
    · rintro ⟨⟨hv, hvs⟩, heq⟩
      exact ⟨f s d, (hcb s d _ hs).2 ⟨hv, rfl⟩, (ih (hP s d hs)).2 ⟨hvs, heq⟩⟩

theorem run_text {line : HttpLine} {d₀ : LenCstr} (h : s.tmp = some (m.setText line d₀)) :
    s.run (frags.map (Report.textCallback line)) = .ok s' ↔
      (∀ d ∈ frags, Valid d) ∧ s' = { s with tmp := some (m.setText line (frags.getLastD d₀)) } := by
  have hfold : ∀ (frags : List (List Byte)) (d₀ : LenCstr) (s : HttpPeer), s.tmp = some (m.setText line d₀) →
      frags.foldl (fun s d => { s with tmp := s.tmp.map fun m => m.setText line d }) s =
        { s with tmp := some (m.setText line (frags.getLastD d₀)) } := by
    intro frags
    induction frags with
    | nil =>
      intro d₀ s hs
      rw [List.foldl_nil, List.getLastD_nil, ← hs]
    | cons d frags ih =>
      intro d₀ s hs
      rw [List.foldl_cons, ih d _ (by dsimp only; rw [hs, Option.map_some, HttpMsg.setText_setText]), List.getLastD_cons]
  rw [← hfold frags d₀ s h]
  refine run_texts (fun s => ∃ m, s.tmp = some m) (fun s d t hs => ?_) (fun s d hs => ?_) ⟨_, h⟩
  · obtain ⟨m, hm⟩ := hs
    unfold Report.textCallback
    cases line with
    | request =>
      show (s.message >>= fun m => ofData d >>= fun url => .ok { s with tmp := some { m with url := url } }) = .ok t ↔ _
      rw [message_eq hm, Lts.ok_bind, Lts.bind_eq_ok]
      simp only [ofData_eq_ok, hm, Option.map_some, HttpMsg.setText]
      grind
    | response =>
      show (s.message >>= fun m => ofData d >>= fun status => .ok { s with tmp := some { m with status := status } }) = .ok t ↔ _
      rw [message_eq hm, Lts.ok_bind, Lts.bind_eq_ok]
      simp only [ofData_eq_ok, hm, Option.map_some, HttpMsg.setText]
      grind
  · obtain ⟨m, hm⟩ := hs
    exact ⟨_, by dsimp only; rw [hm, Option.map_some]⟩

theorem run_field (h : s.tmp = some m) : s.run (frags.map .headerField) = .ok s' ↔
    (∀ d ∈ frags, Valid d) ∧ s' = { s with tmpField := frags.getLastD s.tmpField } := by
  have hfold : ∀ (frags : List (List Byte)) (s : HttpPeer), frags.foldl (fun s d => { s with tmpField := d }) s =
      { s with tmpField := frags.getLastD s.tmpField } := by
    intro frags
    induction frags with
    | nil => exact fun s => rfl
    | cons d frags ih =>
      intro s
      rw [List.foldl_cons, ih, List.getLastD_cons]
  rw [← hfold]
  refine run_texts (fun s => s.tmp = some m) (fun s d t hs => ?_) (fun s d hs => hs) h
  show (s.message >>= fun _ => ofData d >>= fun field => .ok { s with tmpField := field }) = .ok t ↔ _
  rw [message_eq hs, Lts.ok_bind, Lts.bind_eq_ok]
  simp only [ofData_eq_ok]
  grind

theorem run_value (h : s.tmp = some m) (hf : s.tmpField ≠ []) : s.run (frags.map .headerValue) = .ok s' ↔
    (∀ d ∈ frags, Valid d) ∧
      s' = { s with tmp := some { m with header := frags.foldl (fun h d => h.set s.tmpField d) m.header } } := by
  have hfold : ∀ (frags : List (List Byte)) (s : HttpPeer) (m : HttpMsg), s.tmp = some m →
      frags.foldl (fun s d => { s with tmp := s.tmp.map fun m => { m with header := m.header.set s.tmpField d } }) s =
        { s with tmp := some { m with header := frags.foldl (fun h d => h.set s.tmpField d) m.header } } := by
    intro frags
    induction frags with
    | nil =>
      intro s m hs
      rw [List.foldl_nil, List.foldl_nil, ← hs]
    | cons d frags ih =>
      intro s m hs
      rw [List.foldl_cons, ih _ { m with header := m.header.set s.tmpField d } (by dsimp only; rw [hs, Option.map_some]),
        List.foldl_cons]
  rw [← hfold frags s m h]
  refine run_texts (fun s => s.tmpField ≠ [] ∧ ∃ m, s.tmp = some m) (fun s d t hs => ?_) (fun s d hs => ?_) ⟨hf, m, h⟩
  · obtain ⟨hf, m, hm⟩ := hs
    show (if s.tmpField = [] then .error .noField else s.message >>= fun m => ofData d >>= fun value =>
      .ok { s with tmp := some { m with header := m.header.set s.tmpField value } }) = .ok t ↔ _
    rw [if_neg hf, message_eq hm, Lts.ok_bind, Lts.bind_eq_ok]
    simp only [ofData_eq_ok, hm, Option.map_some]
    grind
  · obtain ⟨hf, m, hm⟩ := hs
    exact ⟨hf, _, by dsimp only; rw [hm, Option.map_some]⟩

theorem foldl_set (h : HttpHeader) (k : LenCstr) (hne : frags ≠ []) :
    frags.foldl (fun h d => h.set k d) h = h.set k (frags.getLast hne) := by
  induction frags generalizing h with
  | nil => exact absurd rfl hne
  | cons d frags ih =>
    rw [List.foldl_cons]
    by_cases hnil : frags = []
    · subst hnil
      rfl
    · rw [ih _ hnil, HttpHeader.set_set, List.getLast_cons hnil]

/-- Of a header line the last fragments are kept. -/
theorem run_line {l : LineReport} (h : s.tmp = some m) : s.run l.callbacks = .ok s' ↔
    l.Good ∧ s' = { s with tmpField := l.last.1, tmp := some { m with header := m.header.set l.last.1 l.last.2 } } := by
  have hlast : l.field.getLastD s.tmpField = l.last.1 := by
    rw [List.getLastD_eq_getLast?, List.getLast?_eq_some_getLast l.field_ne]
    rfl
  unfold LineReport.callbacks
  rw [run_append, Lts.bind_eq_ok]
  simp only [run_field h, hlast]
  constructor
  · rintro ⟨t, ⟨hfield, rfl⟩, hrun⟩
    have hne : l.last.1 ≠ [] := fun hnil => by
      -- the first fragment of the value finds an empty name
      obtain ⟨v, vs, hv⟩ := List.exists_cons_of_ne_nil l.value_ne
      rw [hv, List.map_cons, run_cons] at hrun
      unfold callback at hrun
      dsimp only at hrun
      rw [if_pos hnil] at hrun
      cases hrun
    obtain ⟨hvalue, rfl⟩ := (run_value (s := { s with tmpField := l.last.1 }) h hne).1 hrun
    exact ⟨⟨hfield, hvalue, hne⟩, by rw [foldl_set _ _ l.value_ne]; rfl⟩
  · rintro ⟨⟨hfield, hvalue, hne⟩, rfl⟩
    refine ⟨_, ⟨hfield, rfl⟩, (run_value (s := { s with tmpField := l.last.1 }) h hne).2 ⟨hvalue, ?_⟩⟩
    rw [foldl_set _ _ l.value_ne]
    rfl

theorem run_lines {ls : List LineReport} (h : s.tmp = some m) : s.run (ls.flatMap LineReport.callbacks) = .ok s' ↔
    (∀ l ∈ ls, l.Good) ∧ s' = { s with
      tmpField := (ls.map fun l => l.last.1).getLastD s.tmpField
      tmp := some { m with header := HttpMessage.setLines m.header (ls.map LineReport.last) } } := by
  induction ls generalizing s m with
  | nil =>
    refine ⟨fun hrun => ⟨nofun, ?_⟩, fun hs' => ?_⟩
    · rw [← Except.ok.inj hrun]
      cases s
      cases h
      rfl
    · rw [hs'.2]
      cases s
      cases h
      rfl
  | cons l ls ih =>
    rw [List.flatMap_cons, run_append, Lts.bind_eq_ok, List.forall_mem_cons]
    simp only [run_line h]
    constructor
    · rintro ⟨t, ⟨hl, rfl⟩, hrun⟩
      obtain ⟨hls, rfl⟩ := (ih rfl).1 hrun
      refine ⟨⟨hl, hls⟩, ?_⟩
      rw [List.map_cons, List.map_cons, List.getLastD_cons]
      rfl
    · rintro ⟨⟨hl, hls⟩, rfl⟩
      refine ⟨_, ⟨hl, rfl⟩, (ih rfl).2 ⟨hls, ?_⟩⟩
      rw [List.map_cons, List.map_cons, List.getLastD_cons]
      rfl

theorem run_body (h : Valid s.tmpBody) : s.run (frags.map .body) = .ok s' ↔
    Valid (s.tmpBody ++ frags.flatten) ∧ s' = { s with tmpBody := s.tmpBody ++ frags.flatten } := by
  induction frags generalizing s with
  | nil =>
    rw [List.flatten_nil, List.append_nil]
    exact ⟨fun hrun => ⟨h, (Except.ok.inj hrun).symm⟩, fun hs' => by rw [hs'.2]; rfl⟩
  | cons d frags ih =>
    rw [List.map_cons, run_cons, List.flatten_cons, ← List.append_assoc]
    show ((ofData d >>= fun data => append s.tmpBody data >>= fun body => .ok { s with tmpBody := body }) >>= _) = _ ↔ _
    constructor
    · intro hrun
      obtain ⟨t, hpart, hparts⟩ := Lts.bind_eq_ok.1 hrun
      obtain ⟨data, hd, happend⟩ := Lts.bind_eq_ok.1 hpart
      obtain ⟨body, hb, hset⟩ := Lts.bind_eq_ok.1 happend
      rw [(ofData_eq_ok.1 hd).2] at hb
      obtain ⟨hv, rfl⟩ := append_eq_ok.1 hb
      cases hset
      exact (ih (s := { s with tmpBody := s.tmpBody ++ d }) hv).1 hparts
    · rintro ⟨hv, rfl⟩
      rw [ofData_eq_ok.2 ⟨hv.left.right, rfl⟩, Lts.ok_bind, append_eq_ok.2 ⟨hv.left, rfl⟩]
      exact (ih (s := { s with tmpBody := s.tmpBody ++ d }) hv.left).2 ⟨hv, rfl⟩

/-- The callbacks of a chunk but for its data do nothing. -/
theorem run_chunk (h : Valid s.tmpBody) : s.run (BodyReport.chunkCallbacks frags) = .ok s' ↔
    Valid (s.tmpBody ++ frags.flatten) ∧ s' = { s with tmpBody := s.tmpBody ++ frags.flatten } := by
  rw [BodyReport.chunkCallbacks, List.append_assoc, List.singleton_append, run_cons]
  show s.run (frags.map .body ++ [.chunkComplete]) = .ok s' ↔ _
  rw [run_append, ← run_body h, Lts.bind_eq_ok]
  constructor
  · rintro ⟨t, ht, hend⟩
    cases hend
    exact ht
  · exact fun hs' => ⟨s', hs', rfl⟩

theorem run_chunks {chunks : List (List (List Byte))} (h : Valid s.tmpBody) : s.run (chunks.flatMap BodyReport.chunkCallbacks) = .ok s' ↔
    Valid (s.tmpBody ++ chunks.flatten.flatten) ∧ s' = { s with tmpBody := s.tmpBody ++ chunks.flatten.flatten } := by
  induction chunks generalizing s with
  | nil =>
    rw [List.flatten_nil, List.flatten_nil, List.append_nil]
    exact ⟨fun hrun => ⟨h, (Except.ok.inj hrun).symm⟩, fun hs' => by rw [hs'.2]; rfl⟩
  | cons data chunks ih =>
    rw [List.flatMap_cons, run_append, List.flatten_cons, List.flatten_append, ← List.append_assoc, Lts.bind_eq_ok]
    simp only [run_chunk h]
    constructor
    · rintro ⟨t, ⟨hv, rfl⟩, hrest⟩
      exact (ih (s := { s with tmpBody := s.tmpBody ++ data.flatten }) hv).1 hrest
    · rintro ⟨hv, rfl⟩
      exact ⟨_, ⟨hv.left, rfl⟩, (ih (s := { s with tmpBody := s.tmpBody ++ data.flatten }) hv.left).2 ⟨hv, rfl⟩⟩

/-- What comes behind the header: the bytes, and the trailers as more header lines -/
theorem run_bodyReport {b : BodyReport} (h : s.tmp = some m) (hv : Valid s.tmpBody) : s.run b.callbacks = .ok s' ↔
    (Valid (s.tmpBody ++ b.bytes) ∧ ∀ l ∈ b.trailers, l.Good) ∧ s' = { s with
      tmpBody := s.tmpBody ++ b.bytes
      tmpField := (b.trailers.map fun l => l.last.1).getLastD s.tmpField
      tmp := some { m with header := HttpMessage.setLines m.header (b.trailers.map LineReport.last) } } := by
  cases b with
  | plain data =>
    have hsame (body : List Byte) : ({ s with tmpBody := body, tmpField := s.tmpField, tmp := some m } : HttpPeer) = { s with tmpBody := body } := by
      rw [← h]
    show s.run (data.map .body) = .ok s' ↔ (Valid (s.tmpBody ++ data.flatten) ∧ ∀ l ∈ ([] : List LineReport), l.Good) ∧
      s' = { s with tmpBody := s.tmpBody ++ data.flatten, tmpField := s.tmpField, tmp := some m }
    rw [hsame, run_body hv, and_iff_left fun l hl => absurd hl List.not_mem_nil]
  | chunked chunks trailers =>
    show s.run (chunks.flatMap BodyReport.chunkCallbacks ++ [.chunkHeader] ++ trailers.flatMap LineReport.callbacks ++ [.chunkComplete]) = .ok s' ↔ _
    rw [List.append_assoc, List.append_assoc, run_append, Lts.bind_eq_ok]
    simp only [run_chunks hv]
    have hrest {t : HttpPeer} (ht : t.tmp = some m) :
        t.run ([.chunkHeader] ++ (trailers.flatMap LineReport.callbacks ++ [.chunkComplete])) = .ok s' ↔ (∀ l ∈ trailers, l.Good) ∧ s' = { t with
          tmpField := (trailers.map fun l => l.last.1).getLastD t.tmpField
          tmp := some { m with header := HttpMessage.setLines m.header (trailers.map LineReport.last) } } := by
      rw [← run_lines ht, List.singleton_append, run_cons]
      show t.run (trailers.flatMap LineReport.callbacks ++ [.chunkComplete]) = .ok s' ↔ _
      rw [run_append, Lts.bind_eq_ok]
      constructor
      · rintro ⟨u, hu, hend⟩
        cases hend
        exact hu
      · exact fun hs' => ⟨s', hs', rfl⟩
    constructor
    · rintro ⟨t, ⟨hbytes, rfl⟩, hrun⟩
      obtain ⟨hgood, rfl⟩ := (hrest (t := { s with tmpBody := s.tmpBody ++ chunks.flatten.flatten }) h).1 hrun
      exact ⟨⟨hbytes, hgood⟩, rfl⟩
    · rintro ⟨⟨hbytes, hgood⟩, rfl⟩
      exact ⟨_, ⟨hbytes, rfl⟩, (hrest (t := { s with tmpBody := s.tmpBody ++ chunks.flatten.flatten }) h).2 ⟨hgood, rfl⟩⟩

/-- Who gets the message. -/
def receiver (s : HttpPeer) : HttpLine → Option Nat
  | .request _ => none
  | .response .. => s.requested.head?

def requestedAfter (s : HttpPeer) : HttpLine → List Nat
  | .request _ => s.requested
  | .response .. => s.requested.tail

/-- A response answers a request. -/
def Answered (s : HttpPeer) : HttpLine → Prop
  | .request _ => True
  | .response .. => s.requested ≠ []

instance (s : HttpPeer) (line : HttpLine) : Decidable (s.Answered line) := by cases line <;> unfold Answered <;> infer_instance

theorem onMessageComplete_eq_ok {line : HttpLine} {text body : LenCstr} {header : HttpHeader}
    (h : s.tmp = some { HttpMsg.new.setText line text with header := header }) (hb : s.tmpBody = body) :
    s.onMessageComplete line = .ok s' ↔ s.Answered line ∧ s' = { s with
      tmp := none, requested := s.requestedAfter line
      delivered := s.delivered ++ [(s.receiver line, HttpMessage.msg line text header body)] } := by
  unfold onMessageComplete
  rw [message_eq h, Lts.ok_bind, hb]
  cases line with
  | request method =>
    exact ⟨fun hok => ⟨trivial, (Except.ok.inj hok).symm⟩, fun hs' => by rw [hs'.2]; rfl⟩
  | response code version =>
    unfold Answered requestedAfter receiver
    dsimp only
    split
    case h_1 hr => exact iff_of_false nofun fun hs' => hs'.1 hr
    case h_2 cb rest hr =>
      rw [hr]
      exact ⟨fun hok => ⟨nofun, (Except.ok.inj hok).symm⟩, fun hs' => by rw [hs'.2]; rfl⟩

end HttpPeer

namespace Report

open LenCstr

variable {m : HttpMessage} (r : Report m) {s s' : HttpPeer}

/-- All that is reported can be strings, and no name that is kept is empty. -/
structure Good : Prop where
  text : ∀ d ∈ r.text, Valid d
  lines : ∀ l ∈ r.lines, l.Good
  body : Valid m.body

/-- The message that the peer makes of a report: of the last fragments. -/
def kept : HttpMsg := HttpMessage.msg m.line (r.text.getLastD []) (HttpMessage.setLines .empty (r.lines.map LineReport.last)) m.body

theorem run_append_iff {cbs cbs' : List HttpCallback} {t₀ : HttpPeer} {P : Prop} (h : ∀ t, s.run cbs = .ok t ↔ P ∧ t = t₀) :
    s.run (cbs ++ cbs') = .ok s' ↔ P ∧ t₀.run cbs' = .ok s' := by
  rw [HttpPeer.run_append, Lts.bind_eq_ok]
  exact ⟨fun ⟨t, ht, hrun⟩ => ⟨((h t).1 ht).1, ((h t).1 ht).2 ▸ hrun⟩, fun ⟨hp, hrun⟩ => ⟨t₀, (h t₀).2 ⟨hp, rfl⟩, hrun⟩⟩

/-- What the peer does with all the callbacks of a message. -/
theorem run_callbacks : s.run r.callbacks = .ok s' ↔ r.Good ∧ s.Answered m.line ∧ s' =
    { tmp := none
      tmpField := (r.body.trailers.map fun l => l.last.1).getLastD ((r.headers.map fun l => l.last.1).getLastD [])
      tmpBody := m.body
      requested := s.requestedAfter m.line
      delivered := s.delivered ++ [(s.receiver m.line, r.kept)] } := by
  have hbegin : ∀ t, s.run [.messageBegin] = .ok t ↔
      True ∧ t = { s with tmp := some (HttpMsg.new.setText m.line []), tmpField := [], tmpBody := [] } := fun t => by
    have hnew : HttpMsg.new.setText m.line [] = .new := by cases m.line <;> rfl
    rw [hnew]
    exact ⟨fun h => ⟨trivial, (Except.ok.inj h).symm⟩, fun h => by rw [h.2]; rfl⟩
  have hcomplete : ∀ {s : HttpPeer} t, s.run [.headersComplete] = .ok t ↔ True ∧ t = s := fun t =>
    ⟨fun h => ⟨trivial, (Except.ok.inj h).symm⟩, fun h => by rw [h.2]; rfl⟩
  have hempty : (HttpMsg.new.setText m.line (r.text.getLastD [])).header = .empty := by cases m.line <;> rfl
  have hlines : HttpMessage.setLines (HttpMessage.setLines .empty (r.headers.map LineReport.last))
      (r.body.trailers.map LineReport.last) = HttpMessage.setLines .empty (r.lines.map LineReport.last) := by
    unfold HttpMessage.setLines lines
    rw [List.map_append, List.foldl_append]
  unfold callbacks
  simp only [List.append_assoc]
  rw [run_append_iff hbegin, run_append_iff fun t => HttpPeer.run_text rfl, run_append_iff fun t => HttpPeer.run_lines rfl,
    run_append_iff hcomplete, run_append_iff fun t => HttpPeer.run_bodyReport rfl Valid.nil]
  dsimp only
  rw [hempty, hlines, HttpPeer.run_singleton, List.nil_append, r.body_eq]
  have hend : ∀ {t : HttpPeer}, t.requested = s.requested → t.receiver m.line = s.receiver m.line ∧
      t.requestedAfter m.line = s.requestedAfter m.line ∧ (t.Answered m.line ↔ s.Answered m.line) := fun h => by
    unfold HttpPeer.receiver HttpPeer.requestedAfter HttpPeer.Answered
    rw [h]
    cases m.line <;> exact ⟨rfl, rfl, Iff.rfl⟩
  refine (and_congr_right' (and_congr_right' (and_congr_right' (and_congr_right' (and_congr_right'
    (HttpPeer.onMessageComplete_eq_ok rfl rfl)))))).trans ?_
  obtain ⟨hreceiver, hafter, hanswered⟩ := hend (t := { s with
    tmp := some { HttpMsg.new.setText m.line (r.text.getLastD []) with
      header := HttpMessage.setLines .empty (r.lines.map LineReport.last) }
    tmpField := (r.body.trailers.map fun l => l.last.1).getLastD ((r.headers.map fun l => l.last.1).getLastD [])
    tmpBody := m.body }) rfl
  rw [hreceiver, hafter, hanswered]
  constructor
  · rintro ⟨-, htext, hheaders, -, ⟨hbody, htrailers⟩, ha, rfl⟩
    exact ⟨⟨htext, List.forall_mem_append.2 ⟨hheaders, htrailers⟩, hbody⟩, ha, rfl⟩
  · rintro ⟨⟨htext, hall, hbody⟩, ha, rfl⟩
    exact ⟨trivial, htext, (List.forall_mem_append.1 hall).1, trivial, ⟨hbody, (List.forall_mem_append.1 hall).2⟩, ha, rfl⟩

theorem lines_eq : r.lines.map LineReport.whole = m.lines := by
  unfold lines HttpMessage.lines
  rw [List.map_append, r.headers_eq, r.trailers_eq]

/-- No text but the body is cut: its last fragment is all of it. -/
structure Intact : Prop where
  text : r.text.getLastD [] = m.text
  lines : ∀ l ∈ r.lines, l.last = l.whole

end Report

namespace HttpMessage

open LenCstr

variable (m : HttpMessage)

/-- No byte is 0, and no text is too long for a string. -/
structure Clean : Prop where
  text : Valid m.text
  lines : ∀ e ∈ m.lines, Valid e.1 ∧ Valid e.2
  body : Valid m.body

end HttpMessage

namespace HttpPeer

open LenCstr Report

variable {s : HttpPeer} {m : HttpMessage} {r : Report m} {as : List Arrival}

/-- The packets that arrive bring the message, and the parser reports `r` of it. -/
structure Brings (as : List Arrival) (r : Report m) : Prop where
  packets : ∀ a ∈ as, a.packet ≠ []
  callbacks : as.flatMap Arrival.callbacks = r.callbacks

/-- No assertion fails, and the message is delivered whole. -/
def Delivers (as : List Arrival) (s : HttpPeer) (m : HttpMessage) : Prop :=
  ∃ s', exec onEvent as s = .ok s' ∧ s'.delivered = s.delivered ++ [(s.receiver m.line, m.whole)]

theorem exec_onEvent (h : ∀ a ∈ as, a.packet ≠ []) : exec onEvent as s = s.run (as.flatMap Arrival.callbacks) := by
  induction as generalizing s with
  | nil => rfl
  | cons a as ih =>
    rw [List.forall_mem_cons] at h
    rw [List.flatMap_cons, run_append, exec]
    unfold onEvent
    rw [if_neg h.1]
    cases s.run a.callbacks with
    | error e => rfl
    | ok t => exact ih h.2

theorem delivers_iff (h : Brings as r) : Delivers as s m ↔ r.Good ∧ s.Answered m.line ∧ r.kept = m.whole := by
  unfold Delivers
  rw [exec_onEvent h.packets, h.callbacks]
  constructor
  · rintro ⟨s', hrun, hdelivered⟩
    obtain ⟨hgood, ha, rfl⟩ := r.run_callbacks.1 hrun
    refine ⟨hgood, ha, ?_⟩
    have hlast := List.append_cancel_left hdelivered
    exact (Prod.mk.inj (List.cons.inj hlast).1).2
  · rintro ⟨hgood, ha, hkept⟩
    exact ⟨_, r.run_callbacks.2 ⟨hgood, ha, rfl⟩, by dsimp only; rw [hkept]⟩

theorem good_of_intact (hi : r.Intact) (hc : m.Clean) : r.Good := by
  refine ⟨fun d hd => ?_, fun l hl => ?_, hc.body⟩
  · exact Valid.of_mem_flatten (by rw [r.text_eq]; exact hc.text) hd
  · have hwhole : l.whole ∈ m.lines := r.lines_eq ▸ List.mem_map_of_mem hl
    obtain ⟨hfield, hvalue⟩ := hc.lines _ hwhole
    refine ⟨fun d hd => hfield.of_mem_flatten hd, fun d hd => hvalue.of_mem_flatten hd, ?_⟩
    rw [hi.lines l hl]
    exact m.field_ne _ hwhole

theorem valid_last {l : LineReport} (h : l.Good) : Valid l.last.1 ∧ Valid l.last.2 :=
  ⟨h.field _ (List.getLast_mem _), h.value _ (List.getLast_mem _)⟩

theorem msg_inj {line : HttpLine} {text text' body : LenCstr} {header header' : HttpHeader} :
    HttpMessage.msg line text header body = HttpMessage.msg line text' header' body ↔ text = text' ∧ header = header' := by
  cases line <;> simp [HttpMessage.msg, and_comm]

/-- What is kept is the message if nothing is cut and no header line replaces another. -/
theorem kept_iff : r.kept = m.whole ↔ r.Intact ∧ (m.lines.map Prod.fst).Nodup := by
  have hlen : (r.lines.map LineReport.last).length = m.lines.length := by
    rw [← r.lines_eq, List.length_map, List.length_map]
  unfold Report.kept HttpMessage.whole
  rw [msg_inj, HttpHeader.setLines_eq_iff hlen, ← and_assoc, ← r.lines_eq, List.map_inj_left]
  exact and_congr_left' ⟨fun h => ⟨h.1, h.2⟩, fun h => ⟨h.text, h.lines⟩⟩

/-- What can be reported without a fault, and is not cut, has no byte that is 0. -/
theorem clean_of_good (hi : r.Intact) (hg : r.Good) : m.Clean := by
  refine ⟨?_, fun e he => ?_, hg.body⟩
  · rw [← hi.text]
    obtain hnil | hne := List.eq_nil_or_concat r.text
    · rw [hnil]
      exact .nil
    · obtain ⟨frags, d, hd⟩ := hne
      rw [hd, List.concat_eq_append, List.getLastD_concat]
      exact hg.text d (by rw [hd]; simp)
  · rw [← r.lines_eq, List.mem_map] at he
    obtain ⟨l, hl, rfl⟩ := he
    rw [← hi.lines l hl]
    exact valid_last (hg.lines l hl)

/-- A peer that has asked for nothing. -/
def start : HttpPeer := ⟨none, [], [], [], []⟩

def ascii (s : String) : List Byte := s.toList.map fun c => c.toNat.toUInt8

/-- A body in one chunk, with a trailer -/
def post : HttpMessage where
  line := .request 3
  text := ascii "/a"
  headers := [(ascii "Host", ascii "h"), (ascii "Transfer-Encoding", ascii "chunked")]
  body := ascii "xy"
  trailers := [(ascii "Digest", ascii "d")]
  field_ne := by decide

def postReport : Report post where
  text := [ascii "/a"]
  headers := [⟨[ascii "Host"], [ascii "h"], by decide, by decide⟩, ⟨[ascii "Transfer-Encoding"], [ascii "chunked"], by decide, by decide⟩]
  body := .chunked [[ascii "x", ascii "y"]] [⟨[ascii "Digest"], [ascii "d"], by decide, by decide⟩]
  text_eq := rfl
  headers_eq := rfl
  body_eq := rfl
  trailers_eq := rfl

/-- The packets end between two header lines, in the chunk and in front of the trailer. -/
def postArrivals : List Arrival :=
  [⟨ascii "POST /a HTTP/1.1\r\nHost: h\r\n", [.messageBegin, .url (ascii "/a"), .headerField (ascii "Host"),
    .headerValue (ascii "h")]⟩,
  ⟨ascii "Transfer-Encoding: chunked\r\n\r\n2\r\nx", [.headerField (ascii "Transfer-Encoding"), .headerValue (ascii "chunked"),
    .headersComplete, .chunkHeader, .body (ascii "x")]⟩,
  ⟨ascii "y\r\n0\r\n", [.body (ascii "y"), .chunkComplete, .chunkHeader]⟩,
  ⟨ascii "Digest: d\r\n\r\n", [.headerField (ascii "Digest"), .headerValue (ascii "d"), .chunkComplete, .messageComplete (.request 3)]⟩]

def get : HttpMessage where
  line := .request 1
  text := ascii "/ab"
  headers := [(ascii "Host", ascii "h")]
  body := []
  trailers := []
  field_ne := by decide

/-- A report with these fragments of the url. -/
def getReport (text : List (List Byte)) (h : text.flatten = get.text) : Report get where
  text := text
  headers := [⟨[ascii "Host"], [ascii "h"], by decide, by decide⟩]
  body := .plain []
  text_eq := h
  headers_eq := rfl
  body_eq := rfl
  trailers_eq := rfl

def getRest : List HttpCallback :=
  [.headerField (ascii "Host"), .headerValue (ascii "h"), .headersComplete, .messageComplete (.request 1)]

def getOnce : List Arrival := [⟨ascii "GET /ab HTTP/1.1\r\nHost: h\r\n\r\n", [.messageBegin, .url (ascii "/ab")] ++ getRest⟩]

/-- The first packet ends in the url. -/
def getCut : List Arrival :=
  [⟨ascii "GET /a", [.messageBegin, .url (ascii "/a")]⟩, ⟨ascii "b HTTP/1.1\r\nHost: h\r\n\r\n", .url (ascii "b") :: getRest⟩]

/-- A body of one byte, which is 0. -/
def nulPost : HttpMessage where
  line := .request 3
  text := ascii "/a"
  headers := [(ascii "Content-Length", ascii "1")]
  body := [0]
  trailers := []
  field_ne := by decide

def nulReport : Report nulPost where
  text := [ascii "/a"]
  headers := [⟨[ascii "Content-Length"], [ascii "1"], by decide, by decide⟩]
  body := .plain [[0]]
  text_eq := rfl
  headers_eq := rfl
  body_eq := rfl
  trailers_eq := rfl

def nulArrival : List Arrival := [⟨ascii "POST /a HTTP/1.1\r\nContent-Length: 1\r\n\r\n" ++ [0], nulReport.callbacks⟩]

/-- Two header lines of one name -/
def cookies : HttpMessage where
  line := .request 1
  text := ascii "/"
  headers := [(ascii "Cookie", ascii "a"), (ascii "Cookie", ascii "b")]
  body := []
  trailers := []
  field_ne := by decide

def cookiesReport : Report cookies where
  text := [ascii "/"]
  headers := [⟨[ascii "Cookie"], [ascii "a"], by decide, by decide⟩, ⟨[ascii "Cookie"], [ascii "b"], by decide, by decide⟩]
  body := .plain []
  text_eq := rfl
  headers_eq := rfl
  body_eq := rfl
  trailers_eq := rfl

def cookiesArrival : List Arrival := [⟨ascii "GET / HTTP/1.1\r\nCookie: a\r\nCookie: b\r\n\r\n", cookiesReport.callbacks⟩]

end HttpPeer
end Wawo
