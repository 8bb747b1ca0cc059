import Mathlib.Algebra.BigOperators.Ring.Finset
import Mathlib.Algebra.Order.BigOperators.Group.Finset

/-!
# Counting things once

Things are come to in several ways, and each has a weight. Counting them each time they are come to
counts some of them once exactly when nothing that has a weight is come to twice, or is another.
-/

namespace Counted

variable {α κ : Type} [DecidableEq κ]

theorem sum_eq_sum_iff {ways : Finset α} {once : Finset κ} (key : α → κ) (w : κ → ℕ)
    (honce : ∀ x ∈ once, ∃ v ∈ ways, key v = x) :
    ∑ v ∈ ways, w (key v) = ∑ x ∈ once, w x ↔
      ∀ v ∈ ways, 0 < w (key v) → key v ∈ once ∧ ∀ v' ∈ ways, key v' = key v → v' = v := by
  have hsub : (ways.image key).filter (· ∈ once) = once := by
    ext x
    rw [Finset.mem_filter, Finset.mem_image, and_iff_right_iff_imp]
    exact honce x
  have hcard {v : α} (hv : v ∈ ways) : 0 < (ways.filter (key · = key v)).card :=
    Finset.card_pos.mpr ⟨v, Finset.mem_filter.mpr ⟨hv, rfl⟩⟩
  -- both sums are over what is come to
  have hle : ∀ y ∈ ways.image key,
      (if y ∈ once then w y else 0) ≤ (ways.filter (key · = y)).card • w y := by
    intro y hy
    obtain ⟨v, hv, rfl⟩ := Finset.mem_image.mp hy
    split_ifs
    · exact Nat.le_mul_of_pos_left _ (hcard hv)
    · exact Nat.zero_le _
  have honceSum : ∑ x ∈ once, w x = ∑ y ∈ ways.image key, if y ∈ once then w y else 0 := by
    rw [← Finset.sum_filter, hsub]
  rw [Finset.sum_comp, honceSum, eq_comm, Finset.sum_eq_sum_iff_of_le hle,
    Finset.forall_mem_image]
  refine forall₂_congr fun v hv ↦ ?_
  rcases Nat.eq_zero_or_pos (w (key v)) with hzero | hpos
  · simp [hzero]
  · have hone : (ways.filter (key · = key v)).card = 1 ↔
        ∀ v' ∈ ways, key v' = key v → v' = v := by
      rw [Finset.card_eq_one]
      constructor
      · rintro ⟨u, hu⟩ v' hv' hkey
        have hmem {x : α} (hx : x ∈ ways) (hkey : key x = key v) : x = u :=
          Finset.mem_singleton.mp (hu ▸ Finset.mem_filter.mpr ⟨hx, hkey⟩)
        exact (hmem hv' hkey).trans (hmem hv rfl).symm
      · intro h
        refine ⟨v, Finset.eq_singleton_iff_unique_mem.mpr
          ⟨Finset.mem_filter.mpr ⟨hv, rfl⟩, fun x hx ↦ ?_⟩⟩
        exact h x (Finset.mem_filter.mp hx).1 (Finset.mem_filter.mp hx).2
    rw [← hone, forall_prop_of_true hpos, nsmul_eq_mul, Nat.cast_id]
    split_ifs with honceMem
    · rw [and_iff_right honceMem, eq_comm, Nat.mul_eq_right hpos.ne']
    · refine iff_of_false (fun h ↦ ?_) fun h ↦ honceMem h.1
      exact (Nat.mul_pos (hcard hv) hpos).ne h

end Counted
