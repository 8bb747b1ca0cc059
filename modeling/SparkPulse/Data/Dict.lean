import Mathlib.Data.List.AList

/-!
# Dictionaries, filled and emptied entry by entry

What is found under a key after a list of entries was put into a dictionary, or a list of keys was
taken out of it.
-/

namespace Dict

variable {α β κ : Type} [DecidableEq κ]

/-- A key that several entries are put under is found with the value of one of them. -/
theorem lookup_foldl_insert (f : α → κ) (g : α → β) (l : List α) (m : AList fun _ : κ ↦ β)
    (k : κ) :
    (∃ a ∈ l, f a = k ∧ (l.foldl (fun m a ↦ m.insert (f a) (g a)) m).lookup k = some (g a)) ∨
      (∀ a ∈ l, f a ≠ k) ∧
        (l.foldl (fun m a ↦ m.insert (f a) (g a)) m).lookup k = m.lookup k := by
  induction l generalizing m with
  | nil => exact .inr ⟨by simp, rfl⟩
  | cons a l ih =>
    rw [List.foldl_cons]
    rcases ih (m.insert (f a) (g a)) with ⟨b, hb, hk, hlookup⟩ | ⟨hnone, hlookup⟩
    · exact .inl ⟨b, List.mem_cons_of_mem _ hb, hk, hlookup⟩
    · by_cases hk : f a = k
      · refine .inl ⟨a, List.mem_cons_self, hk, ?_⟩
        rw [hlookup, ← hk, AList.lookup_insert]
      · refine .inr ⟨List.forall_mem_cons.mpr ⟨hk, hnone⟩, ?_⟩
        rw [hlookup, AList.lookup_insert_ne (Ne.symm hk)]

/-- Keys that are taken out are not found, and the others are found as before. -/
theorem lookup_foldl_erase (ks : List κ) (m : AList fun _ : κ ↦ β) (k : κ) :
    (ks.foldl (fun m k ↦ m.erase k) m).lookup k = if k ∈ ks then none else m.lookup k := by
  induction ks generalizing m with
  | nil => rfl
  | cons k' ks ih =>
    rw [List.foldl_cons, ih]
    by_cases hk : k = k'
    · subst hk
      simp
    · simp [hk, AList.lookup_erase_ne hk]

/-- Entries that are keyed by themselves are found under their keys, one by one. -/
theorem lookup_foldl_entries (f : β → κ) (source m : AList fun _ : κ ↦ β)
    (hkeyed : ∀ k b, source.lookup k = some b → f b = k) (k : κ) :
    ((source.entries.map fun e ↦ e.2).foldl (fun m b ↦ m.insert (f b) b) m).lookup k =
      (source.lookup k).or (m.lookup k) := by
  have hsource : ∀ b, b ∈ source.entries.map (fun e ↦ e.2) ↔ source.lookup (f b) = some b := by
    intro b
    rw [List.mem_map]
    constructor
    · rintro ⟨e, he, rfl⟩
      have hlookup : source.lookup e.1 = some e.2 := AList.mem_lookup_iff.mpr he
      rwa [hkeyed _ _ hlookup]
    · exact fun h ↦ ⟨⟨f b, b⟩, AList.mem_lookup_iff.mp h, rfl⟩
  rcases lookup_foldl_insert f id (source.entries.map fun e ↦ e.2) m k with
    ⟨b, hb, rfl, hlookup⟩ | ⟨hnone, hlookup⟩
  · rw [(hsource b).mp hb, Option.some_or]
    exact hlookup
  · cases hk : source.lookup k with
    | none =>
      rw [Option.none_or]
      exact hlookup
    | some b =>
      have hb := hkeyed k b hk
      exact (hnone b ((hsource b).mpr (hb ▸ hk)) hb).elim

/-- The entries whose keys satisfy a predicate. -/
def keep (P : κ → Prop) [DecidablePred P] (m : AList fun _ : κ ↦ β) : AList fun _ : κ ↦ β :=
  ⟨m.entries.filter fun e ↦ P e.1, m.nodupKeys.sublist List.filter_sublist⟩

theorem lookup_keep (P : κ → Prop) [DecidablePred P] (m : AList fun _ : κ ↦ β) (k : κ) :
    (keep P m).lookup k = if P k then m.lookup k else none := by
  ext b
  rw [← Option.mem_def, AList.mem_lookup_iff, keep, List.mem_filter, decide_eq_true_eq]
  split_ifs with h
  · rw [← AList.mem_lookup_iff, Option.mem_def, and_iff_left h]
  · simp [h]

/-- The entries of a dictionary, as pairs. -/
def pairs (m : AList fun _ : κ ↦ β) : List (κ × β) := m.entries.map fun e ↦ (e.1, e.2)

theorem perm_foldl_insert (l : List (κ × β)) (m : AList fun _ : κ ↦ β)
    (hnodup : (l.map Prod.fst).Nodup) (hnew : ∀ e ∈ l, e.1 ∉ m) :
    (pairs (l.foldl (fun m e ↦ m.insert e.1 e.2) m)).Perm (l ++ pairs m) := by
  induction l generalizing m with
  | nil => exact .refl _
  | cons e l ih =>
    rw [List.map_cons, List.nodup_cons] at hnodup
    rw [List.forall_mem_cons] at hnew
    have hnew' : ∀ e' ∈ l, e'.1 ∉ m.insert e.1 e.2 := by
      intro e' he' hmem
      rcases AList.mem_insert m |>.mp hmem with heq | hmem
      · exact hnodup.1 (heq ▸ List.mem_map_of_mem he')
      · exact hnew.2 e' he' hmem
    have hpairs : pairs (m.insert e.1 e.2) = e :: pairs m := by
      rw [pairs, AList.entries_insert_of_notMem hnew.1]
      rfl
    rw [List.foldl_cons]
    refine (ih _ hnodup.2 hnew').trans ?_
    rw [hpairs]
    exact List.perm_middle

/-- A dictionary that was filled from a list has the entries of the list exactly when their keys are
different. -/
theorem perm_foldl_insert_iff (l : List (κ × β)) :
    (pairs (l.foldl (fun m e ↦ m.insert e.1 e.2) ∅)).Perm l ↔ (l.map Prod.fst).Nodup := by
  constructor
  · intro hperm
    refine (hperm.map Prod.fst).nodup_iff.mp ?_
    rw [pairs, List.map_map]
    exact AList.keys_nodup _
  · intro hnodup
    have := perm_foldl_insert l ∅ hnodup (by simp)
    simpa [pairs] using this

end Dict
