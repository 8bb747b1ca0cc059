import Mathlib.Algebra.Order.Monoid.NatCast
import Mathlib.Algebra.Ring.Divisibility.Basic
import Mathlib.Algebra.Ring.Nat
import Mathlib.Data.List.Basic

/-!
# Paging by a key

A list that is read in pages, each of what lies below the key of the last one shown. The pages are
the list, exactly when at the end of every page what was shown does not lie below that key, and what
was not shown does.
-/

namespace Paging

variable {α τ : Type*} [LinearOrder τ] (time : α → τ) (n : ℕ) (l : List α)

/-- What lies below a cut, if there is one. -/
def below (cut : Option τ) : List α := l.filter fun a ↦ cut.elim true fun t ↦ time a < t

/-- One page. -/
def page (cut : Option τ) : List α := (below time l cut).take n

/-- All pages until one is empty; `none` when there are more than the fuel allows. -/
def pages : ℕ → Option τ → Option (List α)
  | 0, _ => none
  | fuel + 1, cut =>
    match (page time n l cut).getLast? with
    | none => some []
    | some last => (pages fuel (some (time last))).map (page time n l cut ++ ·)

/-- The end of a page: what was shown does not lie below the last one, and the rest does. -/
def Boundary (shown rest : List α) : Prop :=
  ∀ last ∈ shown.getLast?, (∀ a ∈ shown, time last ≤ time a) ∧ ∀ a ∈ rest, time a < time last

/-- Every page after the first `shown` ends at a boundary. -/
def ApartAfter (shown rest : List α) : Prop :=
  ∀ p q, rest = p ++ q → p ≠ [] → n ∣ p.length ∨ q = [] → Boundary time (shown ++ p) q

/-- Every page ends at a boundary. -/
def Apart : Prop := ApartAfter time n [] l

variable {time n l} {cut : Option τ} {t : τ} {shown rest : List α}

theorem mem_below {a : α} : a ∈ below time l cut ↔ a ∈ l ∧ ∀ t ∈ cut, time a < t := by
  rcases cut with _ | t <;> simp [below]

theorem below_none : below time l none = l := List.filter_eq_self.mpr fun _ _ ↦ rfl

theorem below_append {l' : List α} :
    below time (l ++ l') cut = below time l cut ++ below time l' cut := List.filter_append ..

theorem below_eq_self (h : ∀ a ∈ l, time a < t) : below time l (some t) = l :=
  List.filter_eq_self.mpr fun a ha ↦ decide_eq_true (h a ha)

theorem below_eq_nil : below time l (some t) = [] ↔ ∀ a ∈ l, t ≤ time a := by
  simp [below, List.filter_eq_nil_iff]

/-! ## Reading ends -/

/-- Below the last one of a page there is less than there was. -/
theorem length_below_lt {last : α} (h : last ∈ below time l cut) :
    (below time l (some (time last))).length < (below time l cut).length := by
  have hlt := (mem_below.mp h).2
  have hsub : below time l (some (time last)) =
      (below time l cut).filter fun a ↦ time a < time last := by
    rw [below, below, List.filter_filter]
    refine List.filter_congr fun a _ ↦ ?_
    rcases cut with _ | t
    · simp
    · simpa using fun ha : time a < time last ↦ ha.trans (hlt t rfl)
  rw [hsub, List.length_filter_lt_length_iff_exists]
  exact ⟨last, h, by simp⟩

theorem mem_page {a : α} (h : a ∈ page time n l cut) : a ∈ below time l cut :=
  List.mem_of_mem_take h

/-- The pages end. -/
theorem pages_isSome {fuel : ℕ} (h : (below time l cut).length < fuel) :
    (pages time n l fuel cut).isSome = true := by
  induction fuel generalizing cut with
  | zero => cases h
  | succ fuel ih =>
    rw [pages]
    split
    · rfl
    next last hlast =>
      rw [Option.isSome_map]
      have hmem := mem_page (List.mem_of_getLast? hlast)
      exact ih ((length_below_lt hmem).trans_le (Nat.le_of_lt_succ h))

/-- What is read lies below the cut. -/
theorem below_of_mem_pages {fuel : ℕ} {read : List α} (h : pages time n l fuel cut = some read) :
    ∀ a ∈ read, a ∈ below time l cut := by
  induction fuel generalizing cut read with
  | zero => cases h
  | succ fuel ih =>
    rw [pages] at h
    split at h
    · obtain rfl := Option.some.inj h
      simp
    next last hlast =>
      obtain ⟨after, hafter, rfl⟩ := Option.map_eq_some_iff.mp h
      intro a ha
      rcases List.mem_append.mp ha with ha | ha
      · exact mem_page ha
      · obtain ⟨hmem, hlt⟩ := mem_below.mp (ih hafter a ha)
        have hbelow := (mem_below.mp (mem_page (List.mem_of_getLast? hlast))).2
        exact mem_below.mpr ⟨hmem, fun t ht ↦ (hlt _ rfl).trans (hbelow t ht)⟩

theorem mem_of_mem_pages {fuel : ℕ} {read : List α} (h : pages time n l fuel cut = some read) :
    ∀ a ∈ read, a ∈ l := fun a ha ↦ (mem_below.mp (below_of_mem_pages h a ha)).1

/-! ## What is read -/

theorem Boundary.below (h : Boundary time shown rest) {last : α} (hlast : last ∈ shown.getLast?) :
    below time (shown ++ rest) (some (time last)) = rest := by
  obtain ⟨hshown, hrest⟩ := h last hlast
  rw [below_append, below_eq_nil.mpr hshown, below_eq_self hrest, List.nil_append]

/-- Reading exactly the rest after a page, the page has ended at a boundary. -/
theorem boundary_of_pages {fuel : ℕ} {last : α} (hn : 0 < n) (hnodup : (shown ++ rest).Nodup)
    (hlast : last ∈ shown.getLast?)
    (h : pages time n (shown ++ rest) fuel (some (time last)) = some rest) :
    Boundary time shown rest := by
  have hrest : ∀ a ∈ rest, time a < time last := fun a ha ↦
    (mem_below.mp (below_of_mem_pages h a ha)).2 _ rfl
  intro last' hlast'
  obtain rfl := Option.some.inj (hlast.symm.trans hlast')
  refine ⟨below_eq_nil.mp ?_, hrest⟩
  by_contra hne
  -- Otherwise the next page starts with one that was shown.
  obtain ⟨a, as, has⟩ := List.exists_cons_of_ne_nil hne
  have hbelow : below time (shown ++ rest) (some (time last)) = a :: (as ++ rest) := by
    rw [below_append, has, below_eq_self hrest, List.cons_append]
  obtain ⟨m, rfl⟩ := Nat.exists_eq_succ_of_ne_zero hn.ne'
  have hpage : page time (m + 1) (shown ++ rest) (some (time last)) =
      a :: (as ++ rest).take m := by
    rw [page, hbelow, List.take_succ_cons]
  have ha : a ∈ shown := (mem_below.mp (has ▸ List.mem_cons_self)).1
  rcases fuel with _ | fuel
  · cases h
  rw [pages] at h
  split at h
  next hnone =>
    rw [hpage, List.getLast?_eq_none_iff] at hnone
    cases hnone
  next last' hlast' =>
    obtain ⟨after, -, hafter⟩ := Option.map_eq_some_iff.mp h
    rw [hpage] at hafter
    have ha' : a ∈ rest := hafter ▸ List.mem_cons_self
    exact (List.nodup_append.mp hnodup).2.2 a ha a ha' rfl

/-- The boundaries of what is left are the end of the next page, and the ones after it. -/
theorem apartAfter_iff (hn : 0 < n) (hrest : rest ≠ []) : ApartAfter time n shown rest ↔
    Boundary time (shown ++ rest.take n) (rest.drop n) ∧
      ApartAfter time n (shown ++ rest.take n) (rest.drop n) := by
  constructor
  · intro h
    refine ⟨h _ _ (List.take_append_drop n rest).symm ?_ ?_, fun p q hpq hp hend ↦ ?_⟩
    · simp [hrest, hn.ne']
    · by_cases hlen : n ≤ rest.length
      · exact Or.inl (dvd_of_eq (List.length_take_of_le hlen).symm)
      · exact Or.inr (List.drop_eq_nil_of_le (by omega))
    · have hsplit : rest = (rest.take n ++ p) ++ q := by
        rw [List.append_assoc, ← hpq, List.take_append_drop]
      have hlen : n ≤ rest.length := by
        by_contra hlt
        rw [List.drop_eq_nil_of_le (by omega)] at hpq
        exact hp (List.append_eq_nil_iff.mp hpq.symm).1
      rw [List.append_assoc]
      refine h _ _ hsplit (by simp [hp]) (hend.imp (fun hdvd ↦ ?_) id)
      rw [List.length_append, List.length_take_of_le hlen]
      exact dvd_add (dvd_refl n) hdvd
  · rintro ⟨hfirst, hafter⟩ p q rfl hp hend
    by_cases hlen : p.length ≤ n
    · have hlast : p.length = n ∨ q = [] := by
        rcases hend with hdvd | hq
        · exact Or.inl (hlen.antisymm (Nat.le_of_dvd (List.length_pos_iff.mpr hp) hdvd))
        · exact Or.inr hq
      rcases hlast with rfl | rfl
      · rwa [List.take_left, List.drop_left] at hfirst
      · rwa [List.append_nil, List.take_of_length_le hlen, List.drop_eq_nil_of_le hlen] at hfirst
    · have hle : n ≤ p.length := by omega
      rw [List.take_append_of_le_length hle, List.drop_append_of_le_length hle] at hafter
      have hboundary := hafter (p.drop n) q rfl (by simp; omega)
        (hend.imp (fun hdvd ↦ by rw [List.length_drop]; exact Nat.dvd_sub hdvd (dvd_refl n)) id)
      rwa [List.append_assoc, List.take_append_drop] at hboundary

/-- What is read after a cut below which the rest lies, and nothing else. -/
theorem pages_eq_rest_iff {fuel : ℕ} (hn : 0 < n) (hnodup : (shown ++ rest).Nodup)
    (hbelow : below time (shown ++ rest) cut = rest) (hfuel : rest.length < fuel) :
    pages time n (shown ++ rest) fuel cut = some rest ↔ ApartAfter time n shown rest := by
  induction fuel generalizing shown rest cut with
  | zero => cases hfuel
  | succ fuel ih =>
    rw [pages, page, hbelow]
    rcases rest.eq_nil_or_concat with rfl | ⟨_, _, hconcat⟩
    · refine ⟨fun _ p q hpq hp _ ↦ absurd (List.append_eq_nil_iff.mp hpq.symm).1 hp, fun _ ↦ ?_⟩
      rw [List.take_nil]
      rfl
    · have hrest : rest ≠ [] := by simp [hconcat]
      have htake : rest.take n ≠ [] := by simp [hrest, hn.ne']
      obtain ⟨last, hlast⟩ := Option.isSome_iff_exists.mp (List.getLast?_isSome.mpr htake)
      have hassoc : shown ++ rest = (shown ++ rest.take n) ++ rest.drop n := by
        rw [List.append_assoc, List.take_append_drop]
      have hlast' : last ∈ (shown ++ rest.take n).getLast? := by
        rw [List.getLast?_append, hlast]
        rfl
      have hshort : (rest.drop n).length < fuel := by
        rw [List.length_drop]
        have := List.length_pos_iff.mpr hrest
        omega
      rw [hlast, apartAfter_iff hn hrest]
      have hread :
          (pages time n (shown ++ rest) fuel (some (time last))).map (rest.take n ++ ·) =
              some rest ↔
            pages time n (shown ++ rest) fuel (some (time last)) = some (rest.drop n) := by
        constructor
        · intro h
          obtain ⟨after, hafter, heq⟩ := Option.map_eq_some_iff.mp h
          rw [hafter, ← List.append_cancel_left (heq.trans (List.take_append_drop n rest).symm)]
        · intro h
          rw [h, Option.map_some, List.take_append_drop]
      refine hread.trans ?_
      rw [hassoc] at hnodup ⊢
      constructor
      · intro h
        have hboundary := boundary_of_pages hn hnodup hlast' h
        exact ⟨hboundary, (ih hnodup (hboundary.below hlast') hshort).mp h⟩
      · rintro ⟨hboundary, hafter⟩
        exact (ih hnodup (hboundary.below hlast') hshort).mpr hafter

/-- **Paging.** Read page by page a list without repetition is read once and in order, exactly when
every page ends at a boundary. -/
theorem pages_eq_self_iff {fuel : ℕ} (hn : 0 < n) (hnodup : l.Nodup) (hfuel : l.length < fuel) :
    pages time n l fuel none = some l ↔ Apart time n l :=
  pages_eq_rest_iff hn (List.nil_append l ▸ hnodup) below_none hfuel

end Paging
