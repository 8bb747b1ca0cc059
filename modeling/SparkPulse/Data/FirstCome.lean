import Mathlib.Data.List.Nodup

/-!
# First come, first served

Things are asked for, one after the other. Who asks gets what is asked for, unless they have got
something already, or it is gone. Things are told apart by a key.
-/

namespace FirstCome

variable {α β κ : Type}

/-- What was given to whom, in the order in which it was given. -/
structure Given (α : Type) (key : β → κ) where
  pairs : List (α × β)
  takers_nodup : (pairs.map Prod.fst).Nodup
  taken_nodup : (pairs.map fun p ↦ key p.2).Nodup

namespace Given

variable {key : β → κ}

/-- Nothing is given. -/
def empty : Given α key := ⟨[], List.nodup_nil, List.nodup_nil⟩

/-- Who has got something. -/
def takers (s : Given α key) : List α := s.pairs.map Prod.fst

/-- The keys of what is gone. -/
def taken (s : Given α key) : List κ := s.pairs.map fun p ↦ key p.2

/-- What is asked for can be given. -/
def Open (s : Given α key) (p : α × β) : Prop := p.1 ∉ s.takers ∧ key p.2 ∉ s.taken

theorem takers_nodup_of_open {s : Given α key} {p : α × β} (h : s.Open p) :
    ((s.pairs ++ [p]).map Prod.fst).Nodup := by
  rw [List.map_append, List.map_singleton]
  exact s.takers_nodup.append (List.nodup_singleton _) (List.disjoint_singleton.mpr h.1)

theorem taken_nodup_of_open {s : Given α key} {p : α × β} (h : s.Open p) :
    ((s.pairs ++ [p]).map fun p ↦ key p.2).Nodup := by
  rw [List.map_append, List.map_singleton]
  exact s.taken_nodup.append (List.nodup_singleton _) (List.disjoint_singleton.mpr h.2)

/-- What can be given later could be given before. -/
theorem open_of_isPrefix {s : Given α key} {p : α × β} {given : List (α × β)}
    (hs : s.pairs <+: given) (htaker : p.1 ∉ given.map Prod.fst)
    (htaken : key p.2 ∉ given.map fun q ↦ key q.2) : s.Open p :=
  ⟨fun h ↦ htaker ((hs.map _).subset h), fun h ↦ htaken ((hs.map _).subset h)⟩

theorem not_mem_of_split {s : Given α key} {p : α × β} {before after : List (α × β)}
    (h : s.pairs = before ++ p :: after) :
    p.1 ∉ before.map Prod.fst ∧ key p.2 ∉ before.map fun q ↦ key q.2 := by
  have htakers := s.takers_nodup
  have htaken := s.taken_nodup
  rw [h, List.map_append] at htakers htaken
  constructor
  · exact fun hp ↦ (List.disjoint_of_nodup_append htakers) hp List.mem_cons_self
  · exact fun hp ↦ (List.disjoint_of_nodup_append htaken) hp List.mem_cons_self

variable [DecidableEq α] [DecidableEq κ]

instance (s : Given α key) (p : α × β) : Decidable (s.Open p) :=
  inferInstanceAs (Decidable (_ ∉ _ ∧ _ ∉ _))

/-- Somebody asks for something. -/
def ask (s : Given α key) (p : α × β) : Given α key :=
  if h : s.Open p then ⟨s.pairs ++ [p], takers_nodup_of_open h, taken_nodup_of_open h⟩ else s

/-- One thing after the other is asked for. -/
def askAll (s : Given α key) (ps : List (α × β)) : Given α key := ps.foldl ask s

variable {s : Given α key} {p : α × β} {ps before after : List (α × β)}

theorem pairs_ask_of_open (h : s.Open p) : (s.ask p).pairs = s.pairs ++ [p] := by
  rw [ask, dif_pos h]

theorem ask_of_not_open (h : ¬s.Open p) : s.ask p = s := dif_neg h

theorem askAll_cons : s.askAll (p :: ps) = (s.ask p).askAll ps := rfl

theorem askAll_append {qs : List (α × β)} : s.askAll (ps ++ qs) = (s.askAll ps).askAll qs :=
  List.foldl_append

theorem askAll_of_not_open (h : ∀ p ∈ ps, ¬s.Open p) : s.askAll ps = s := by
  induction ps with
  | nil => rfl
  | cons p ps ih =>
    rw [askAll_cons, ask_of_not_open (h p List.mem_cons_self)]
    exact ih fun q hq ↦ h q (List.mem_cons_of_mem _ hq)

theorem prefix_ask : s.pairs <+: (s.ask p).pairs := by
  by_cases h : s.Open p
  · rw [pairs_ask_of_open h]
    exact List.prefix_append ..
  · exact ⟨[], by rw [ask_of_not_open h, List.append_nil]⟩

theorem prefix_askAll : s.pairs <+: (s.askAll ps).pairs := by
  induction ps generalizing s with
  | nil => exact List.prefix_rfl
  | cons p ps ih => exact List.IsPrefix.trans prefix_ask ih

theorem not_open_ask : ¬(s.ask p).Open p := by
  by_cases h : s.Open p
  · intro hopen
    refine hopen.1 ?_
    rw [takers, pairs_ask_of_open h, List.map_append]
    exact List.mem_append_right _ (List.mem_singleton_self _)
  · rwa [ask_of_not_open h]

/-- After something was asked for, it cannot be given to who asked for it. -/
theorem not_open_askAll (hp : p ∈ ps) : ¬(s.askAll ps).Open p := by
  induction ps generalizing s with
  | nil => cases hp
  | cons q ps ih =>
    rcases List.mem_cons.mp hp with rfl | hp
    · rw [askAll_cons]
      exact fun h ↦ not_open_ask (open_of_isPrefix prefix_askAll h.1 h.2)
    · exact ih hp

/-- What is given at last was given before, or was asked for since, and what was given before it was
given earlier. -/
theorem split_askAll (h : (s.askAll ps).pairs = before ++ p :: after) :
    (∃ rest, s.pairs = before ++ p :: rest) ∨ p ∈ ps ∧ s.pairs <+: before := by
  induction ps generalizing s with
  | nil => exact .inl ⟨after, h⟩
  | cons q ps ih =>
    rcases ih h with ⟨rest, hrest⟩ | ⟨hp, hbefore⟩
    · by_cases hopen : s.Open q
      · rw [pairs_ask_of_open hopen] at hrest
        -- the pair that was given last is this one, or was there before
        rcases rest.eq_nil_or_concat with rfl | ⟨rest, r, rfl⟩
        · obtain ⟨hpairs, hq⟩ := List.append_inj' hrest rfl
          obtain rfl := (List.cons.inj hq).1
          exact .inr ⟨List.mem_cons_self, hpairs ▸ List.prefix_rfl⟩
        · rw [List.concat_eq_append, ← List.cons_append, ← List.append_assoc] at hrest
          exact .inl ⟨rest, (List.append_inj' hrest rfl).1⟩
      · rw [ask_of_not_open hopen] at hrest
        exact .inl ⟨rest, hrest⟩
    · exact .inr ⟨List.mem_cons_of_mem _ hp, List.IsPrefix.trans prefix_ask hbefore⟩

theorem mem_askAll (h : p ∈ (s.askAll ps).pairs) : p ∈ s.pairs ∨ p ∈ ps := by
  obtain ⟨before, after, heq⟩ := List.append_of_mem h
  rcases split_askAll heq with ⟨rest, hrest⟩ | ⟨hp, -⟩
  · exact .inl (hrest ▸ List.mem_append_right _ List.mem_cons_self)
  · exact .inr hp

/-- What somebody has got. -/
def gift (s : Given α key) (a : α) : Option β := (s.pairs.find? fun p ↦ p.1 = a).map Prod.snd

omit [DecidableEq κ] in
theorem gift_eq_some_iff {a : α} {b : β} : s.gift a = some b ↔ (a, b) ∈ s.pairs := by
  constructor
  · intro h
    obtain ⟨q, hq, rfl⟩ := Option.map_eq_some_iff.mp h
    have hqa := List.find?_some hq
    obtain rfl := of_decide_eq_true hqa
    exact List.mem_of_find?_eq_some hq
  · intro h
    have hsome : (s.pairs.find? fun p ↦ p.1 = a).isSome := by
      rw [List.find?_isSome]
      exact ⟨(a, b), h, decide_eq_true rfl⟩
    obtain ⟨q, hq⟩ := Option.isSome_iff_exists.mp hsome
    have hqa := List.find?_some hq
    obtain rfl := List.inj_on_of_nodup_map s.takers_nodup (List.mem_of_find?_eq_some hq) h
      (of_decide_eq_true hqa)
    exact Option.map_eq_some_iff.mpr ⟨_, hq, rfl⟩

end Given

end FirstCome
