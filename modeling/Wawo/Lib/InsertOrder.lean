import Mathlib.Data.List.Induction
import Mathlib.Data.List.Nodup

/-!
# Tables in the order of insertion

A table is set and removed from, key by key. What is said of a key is by its calls alone: whether it is set, the
last value, and the call that has inserted it, which is the first `set` since its last removal (`since`). The table
as a list, in which `set` replaces a value or adds an entry at the end, has each key that is set once, in the order
of these calls (`lists_table`).
-/

universe u v

namespace InsertOrder

variable {α : Type u} {β : Type v}

inductive Call (α : Type u) (β : Type v)
  | set (k : α) (v : β)
  | remove (k : α)

variable [DecidableEq α]

/-- What is said of the key `k` after a call with `n` calls before it -/
def next (k : α) (n : Nat) (e : Option (Nat × β)) : Call α β → Option (Nat × β)
  | .set k' v => if k' = k then some ((e.map Prod.fst).getD n, v) else e
  | .remove k' => if k' = k then none else e

/-- The first call since the last removal that has set `k`, and the last value; the last call comes first. -/
def sinceRev (k : α) : List (Call α β) → Option (Nat × β)
  | [] => none
  | c :: calls => next k calls.length (sinceRev k calls) c

def since (k : α) (calls : List (Call α β)) : Option (Nat × β) := sinceRev k calls.reverse

/-- The call that has inserted `k` -/
def place (calls : List (Call α β)) (k : α) : Nat := ((since k calls).map Prod.fst).getD 0

def set (t : List (α × β)) (k : α) (v : β) : List (α × β) :=
  if t.any fun e => e.1 = k then t.map fun e => if e.1 = k then (e.1, v) else e else t ++ [(k, v)]

def remove (t : List (α × β)) (k : α) : List (α × β) := t.eraseP fun e => e.1 = k

def apply (t : List (α × β)) : Call α β → List (α × β)
  | .set k v => set t k v
  | .remove k => remove t k

def table (calls : List (Call α β)) : List (α × β) := calls.foldl apply []

/-- The entries of `t` are the keys that are set, in the order of the calls that have inserted them. -/
structure Lists (t : List (α × β)) (calls : List (Call α β)) : Prop where
  mem : ∀ k v, (k, v) ∈ t ↔ ∃ i, since k calls = some (i, v)
  sorted : t.Pairwise fun a b => place calls a.1 < place calls b.1

variable {t : List (α × β)} {calls : List (Call α β)} {k k' : α} {v v' : β} {i : Nat}

theorem since_snoc (k : α) (calls : List (Call α β)) (c : Call α β) : since k (calls ++ [c]) = next k calls.length (since k calls) c := by
  rw [since, List.reverse_append, List.reverse_singleton, List.singleton_append, sinceRev, List.length_reverse]
  rfl

/-- An entry has been inserted by one of the calls. -/
theorem since_lt (h : since k calls = some (i, v)) : i < calls.length := by
  induction calls using List.reverseRecOn generalizing i v with
  | nil => cases h
  | append_singleton calls c ih =>
    rw [since_snoc] at h
    rw [List.length_append, List.length_singleton]
    have hold {w : β} (hw : since k calls = some (i, w)) : i < calls.length + 1 := Nat.lt_succ_of_lt (ih hw)
    cases c with
    | set k' w =>
      dsimp only [next] at h
      split_ifs at h with hk
      · cases he : since k calls with
        | none =>
          rw [he] at h
          cases h
          exact Nat.lt_succ_self _
        | some e =>
          rw [he] at h
          cases h
          exact hold he
      · exact hold h
    | remove k' =>
      dsimp only [next] at h
      split_ifs at h
      exact hold h

namespace Lists

theorem place_lt (h : Lists t calls) {e : α × β} (he : e ∈ t) : place calls e.1 < calls.length := by
  obtain ⟨i, hi⟩ := (h.mem e.1 e.2).mp he
  rw [place, hi]
  exact since_lt hi

theorem nodup (h : Lists t calls) : (t.map Prod.fst).Nodup := by
  rw [List.Nodup, List.pairwise_map]
  exact h.sorted.imp fun hlt heq => by
    rw [heq] at hlt
    exact Nat.lt_irrefl _ hlt

/-- The key of an entry is set, and a key that is not the key of an entry is not. -/
theorem since_eq_none (h : Lists t calls) (hk : k ∉ t.map Prod.fst) : since k calls = none := by
  cases he : since k calls with
  | none => rfl
  | some e => exact absurd (List.mem_map_of_mem ((h.mem k e.2).mpr ⟨e.1, he⟩)) hk

theorem unique (h : Lists t calls) (h₁ : (k, v) ∈ t) (h₂ : (k, v') ∈ t) : v = v' := by
  obtain ⟨i, hi⟩ := (h.mem k v).mp h₁
  obtain ⟨j, hj⟩ := (h.mem k v').mp h₂
  rw [hi] at hj
  cases hj
  rfl

end Lists

theorem since_other (calls : List (Call α β)) (h : k' ≠ k) (v : β) : since k' (calls ++ [.set k v]) = since k' calls ∧ since k' (calls ++ [.remove k]) = since k' calls := by
  rw [since_snoc, since_snoc]
  exact ⟨if_neg h.symm, if_neg h.symm⟩

theorem place_other (h : k' ≠ k) (v : β) : place (calls ++ [.set k v]) k' = place calls k' ∧ place (calls ++ [.remove k]) k' = place calls k' := by
  obtain ⟨hset, hremove⟩ := since_other calls h v
  exact ⟨by rw [place, hset, place], by rw [place, hremove, place]⟩

theorem Lists.set (h : Lists t calls) (k : α) (v : β) : Lists (set t k v) (calls ++ [.set k v]) := by
  unfold InsertOrder.set
  by_cases hk : k ∈ t.map Prod.fst
  · obtain ⟨⟨k, w⟩, he, rfl⟩ := List.mem_map.mp hk
    obtain ⟨i, hi⟩ := (h.mem k w).mp he
    have hsince : since k (calls ++ [.set k v]) = some (i, v) := by
      rw [since_snoc, hi]
      exact if_pos rfl
    have hplace (k' : α) : place (calls ++ [.set k v]) k' = place calls k' := by
      by_cases hne : k' = k
      · rw [hne, place, hsince, place, hi]
        rfl
      · exact (place_other hne v).1
    have hkey (e : α × β) : (if e.1 = k then (e.1, v) else e).1 = e.1 := by
      split_ifs <;> rfl
    rw [if_pos (List.any_eq_true.mpr ⟨(k, w), he, decide_eq_true rfl⟩)]
    constructor
    · intro k' v'
      rw [List.mem_map]
      by_cases hne : k' = k
      · subst hne
        rw [hsince]
        constructor
        · rintro ⟨e, -, heq⟩
          have hek : e.1 = k' := by rw [← hkey e, heq]
          rw [if_pos hek] at heq
          cases heq
          exact ⟨i, rfl⟩
        · rintro ⟨_, heq⟩
          cases heq
          exact ⟨(k', w), he, if_pos rfl⟩
      · rw [(since_other _ hne v).1, ← h.mem]
        constructor
        · rintro ⟨e, hmem, heq⟩
          have hek : e.1 ≠ k := fun hek => hne (by rw [← hek, ← hkey e, heq])
          rw [if_neg hek] at heq
          exact heq ▸ hmem
        · exact fun hmem => ⟨(k', v'), hmem, if_neg hne⟩
    · rw [List.pairwise_map]
      refine h.sorted.imp fun hlt => ?_
      rw [hkey, hkey, hplace, hplace]
      exact hlt
  · have hany : ¬ (t.any fun e => e.1 = k) = true := fun hany => by
      obtain ⟨e, he, heq⟩ := List.any_eq_true.mp hany
      exact hk (List.mem_map.mpr ⟨e, he, of_decide_eq_true heq⟩)
    have hsince : since k (calls ++ [.set k v]) = some (calls.length, v) := by
      rw [since_snoc, h.since_eq_none hk]
      exact if_pos rfl
    rw [if_neg hany]
    constructor
    · intro k' v'
      rw [List.mem_append, List.mem_singleton]
      by_cases hne : k' = k
      · subst hne
        rw [hsince]
        constructor
        · rintro (hmem | heq)
          · exact absurd (List.mem_map_of_mem hmem) hk
          · cases heq
            exact ⟨_, rfl⟩
        · rintro ⟨_, heq⟩
          cases heq
          exact .inr rfl
      · rw [(since_other _ hne v).1, ← h.mem]
        exact or_iff_left fun heq => hne (congrArg Prod.fst heq)
    · rw [List.pairwise_append]
      have hold {e : α × β} (he : e ∈ t) : place (calls ++ [.set k v]) e.1 = place calls e.1 :=
        (place_other (fun heq => hk (List.mem_map.mpr ⟨e, he, heq⟩)) v).1
      refine ⟨h.sorted.imp_of_mem fun ha hb hlt => ?_, List.pairwise_singleton _ _, fun a ha b hb => ?_⟩
      · rw [hold ha, hold hb]
        exact hlt
      · obtain rfl := List.mem_singleton.mp hb
        have hnew : place (calls ++ [.set k v]) k = calls.length := by
          rw [place, hsince]
          rfl
        show place (calls ++ [.set k v]) a.1 < place (calls ++ [.set k v]) k
        rw [hold ha, hnew]
        exact h.place_lt ha

theorem Lists.remove (h : Lists t calls) (k : α) : Lists (remove t k) (calls ++ [.remove k]) := by
  have hsince : since k (calls ++ [.remove k]) = none := by
    rw [since_snoc]
    exact if_pos rfl
  have hsub : (InsertOrder.remove t k).Sublist t := List.eraseP_sublist
  have hmem (k' : α) (v' : β) : (k', v') ∈ InsertOrder.remove t k ↔ k' ≠ k ∧ (k', v') ∈ t := by
    unfold InsertOrder.remove
    by_cases hk : k ∈ t.map Prod.fst
    · obtain ⟨e, he, hek⟩ := List.mem_map.mp hk
      obtain ⟨a, l₁, l₂, -, hak, ht, herase⟩ := List.exists_of_eraseP (p := fun e => e.1 = k) he (decide_eq_true hek)
      have hak := of_decide_eq_true hak
      have hnodup := h.nodup
      rw [ht, List.map_append, List.map_cons, List.nodup_middle, List.nodup_cons, hak, ← List.map_append] at hnodup
      rw [herase, ht]
      constructor
      · intro hin
        refine ⟨fun heq => hnodup.1 (List.mem_map.mpr ⟨(k', v'), hin, heq⟩), ?_⟩
        rw [List.mem_append] at hin ⊢
        exact hin.imp_right (List.mem_cons_of_mem a)
      · rintro ⟨hne, hin⟩
        rw [List.mem_append, List.mem_cons] at hin
        rw [List.mem_append]
        exact hin.imp_right fun hin => hin.resolve_left fun heq => hne (by rw [← hak, ← heq])
    · have hne {e : α × β} (he : e ∈ t) : e.1 ≠ k := fun hek => hk (List.mem_map.mpr ⟨e, he, hek⟩)
      rw [List.eraseP_of_forall_not fun e he hek => hne he (of_decide_eq_true hek)]
      exact (and_iff_right_of_imp fun hin => hne hin).symm
  constructor
  · intro k' v'
    rw [hmem]
    by_cases hne : k' = k
    · rw [hne, hsince]
      exact iff_of_false (fun hand => hand.1 rfl) fun ⟨_, hnone⟩ => nomatch hnone
    · rw [(since_other _ hne v').2, ← h.mem]
      exact and_iff_right hne
  · refine (h.sorted.sublist hsub).imp_of_mem fun {a b} ha hb hlt => ?_
    rw [(place_other ((hmem a.1 a.2).mp ha).1 a.2).2, (place_other ((hmem b.1 b.2).mp hb).1 a.2).2]
    exact hlt

theorem lists_table (calls : List (Call α β)) : Lists (table calls) calls := by
  induction calls using List.reverseRecOn with
  | nil => exact ⟨fun k v => ⟨nofun, fun ⟨_, h⟩ => nomatch h⟩, .nil⟩
  | append_singleton calls c ih =>
    rw [table, List.foldl_append]
    cases c with
    | set k v => exact ih.set k v
    | remove k => exact ih.remove k

theorem mem_table_set (k : α) (v v' : β) : (k, v') ∈ table (calls ++ [.set k v]) ↔ v' = v := by
  rw [(lists_table _).mem, since_snoc]
  dsimp only [next]
  rw [if_pos rfl]
  constructor
  · rintro ⟨i, hi⟩
    cases hi
    rfl
  · rintro rfl
    exact ⟨_, rfl⟩

theorem mem_table_set_other (h : k' ≠ k) (v v' : β) : (k', v') ∈ table (calls ++ [.set k v]) ↔ (k', v') ∈ table calls := by
  rw [(lists_table _).mem, (lists_table _).mem, (since_other _ h v).1]

/-- The table is the only list of the keys that are set in this order. -/
theorem Lists.eq_table (h : Lists t calls) : t = table calls := by
  have htable := lists_table calls
  have hperm : t.Perm (table calls) := by
    rw [List.perm_ext_iff_of_nodup (List.Nodup.of_map _ h.nodup) (List.Nodup.of_map _ htable.nodup)]
    exact fun e => (h.mem e.1 e.2).trans (htable.mem e.1 e.2).symm
  exact hperm.eq_of_pairwise (fun _ _ _ _ hab hba => absurd hab (Nat.lt_asymm hba)) h.sorted htable.sorted

end InsertOrder
