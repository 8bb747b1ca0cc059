import Mathlib.Algebra.Order.Floor.Ring
import Mathlib.Data.List.AList
import Mathlib.Data.Rat.Floor
import Mathlib.Tactic.FieldSimp
import Mathlib.Tactic.Linarith

/-!
# The memory budget of a node

`budget_for_node` of `tools/memory_budget.py`: what the runs on a node hold, what is left of it, the
largest fraction a new run can claim and whether its claim fits. Fractions are rationals and what
Python does to them is done exactly. A claim is cut down to bytes, and the advertised fraction to a
hundredth, after an epsilon has been added to it. A hundredth of a node's memory is advertised when
what is left falls short of it by no more than the epsilon, and the epsilon of a node with more than
`10 ^ 11` bytes is more than a byte.
-/

namespace SparkPulse.Memory

/-! ## Data -/

/-- Where the number of a claim came from. -/
inductive ClaimSource
  | fraction
  | measured
  | unknown
  deriving DecidableEq

/-- One run's claim on one node. -/
structure Holder where
  id : String
  name : String
  fraction : Option ℚ := none
  /-- What it holds, if that is known. -/
  bytes : Option ℤ := none
  source : ClaimSource := .unknown
  reason : String := ""

structure NodeBudget where
  node : String
  key : String
  label : String
  totalBytes : Option ℤ := none
  reserveBytes : ℤ
  holders : List Holder := []
  heldBytes : ℤ := 0
  leftBytes : Option ℤ := none
  maxFraction : Option ℚ := none
  claimFraction : Option ℚ := none
  claimBytes : Option ℤ := none
  fits : Option Bool := none
  complete : Bool := true
  reason : String := ""

/-- `OS_RESERVE_BYTES` -/
def osReserveBytes : ℤ := 4 * 1024 ^ 3

/-- The arguments of `budget_for_node`. -/
structure Query where
  node : String := ""
  key : String := ""
  label : String := ""
  /-- Every other run on the node, by id, name and fraction. -/
  holders : List (String × String × Option ℚ)
  totalBytes : Option ℤ
  /-- What the node says each deployment holds. -/
  measured : Option (AList fun _ : String ↦ Option ℤ)
  claimFraction : Option ℚ
  claimBytes : Option ℤ := none
  reason : String := ""
  reserveBytes : ℤ := osReserveBytes

/-! ## The budget -/

/-- Python's `int`, of a fraction. -/
def truncate (x : ℚ) : ℤ := x.num.tdiv x.den

/-- `or`, of texts. -/
def textOr (text fallback : String) : String := if text = "" then fallback else text

/-- The claim of a run on a node with a total. -/
def holderOf (q : Query) (total : Option ℤ) : String × String × Option ℚ → Holder
  | (runId, name, some fraction) =>
    { id := runId, name := textOr name runId, fraction := some fraction, source := .fraction
      bytes := total.map fun total ↦ truncate (fraction * total)
      reason :=
        if total.isSome then "" else textOr q.reason "the node did not report its total memory" }
  | (runId, name, none) =>
    let holder : Holder := { id := runId, name := textOr name runId }
    match q.measured with
    | none => { holder with reason := textOr q.reason "the node could not be asked" }
    | some measured =>
      match measured.lookup runId with
      | some (some bytes) => { holder with source := .measured, bytes := some bytes }
      | some none =>
        { holder with reason := "the node reports its process but not its memory" }
      | none => { holder with reason := "the node reports no GPU process for it" }

/-- The total, where it is a number of bytes. -/
def knownTotal (q : Query) : Option ℤ := q.totalBytes.filter (0 < ·)

/-- The claims of the runs on the node. -/
def holdersOf (q : Query) : List Holder := q.holders.map (holderOf q (knownTotal q))

/-- The bytes that are known to be held. -/
def heldBytes (holders : List Holder) : ℤ := holders.foldl (fun n h ↦ n + h.bytes.getD 0) 0

/-- The largest hundredth that is left of a total, or falls short of it by the epsilon only. -/
def largestFraction (left total : ℤ) : ℚ :=
  max 0 (⌊(left : ℚ) / total * 100 + 1 / 10 ^ 9⌋ / 100)

def budgetForNode (q : Query) : NodeBudget :=
  let holders := holdersOf q
  let unknown := holders.filter fun h ↦ h.bytes.isNone
  let budget : NodeBudget :=
    { node := q.node
      key := q.key
      label := q.label
      totalBytes := knownTotal q
      reserveBytes := q.reserveBytes
      claimFraction := q.claimFraction
      reason := q.reason
      holders
      heldBytes := heldBytes holders
      complete := unknown.isEmpty && ((knownTotal q).isSome || q.holders.isEmpty) }
  match knownTotal q with
  | none => { budget with claimBytes := q.claimBytes }
  | some total =>
    let left := max 0 (total - budget.heldBytes - q.reserveBytes)
    let claimBytes :=
      match q.claimFraction with
      | some fraction => some (truncate (fraction * total))
      | none => q.claimBytes
    { budget with
      leftBytes := some left
      maxFraction := some (largestFraction left total)
      claimBytes
      fits := claimBytes.map fun bytes ↦ decide (bytes ≤ left) }

/-! ## Hundredths of a total -/

section
variable {total left j : ℤ} {x : ℚ}

/-- How far some hundredths of a total go over what is left, in hundredths of a byte. -/
def excess (total left j : ℤ) : ℤ := j * total - 100 * left

theorem truncate_of_nonneg (h : 0 ≤ x) : truncate x = ⌊x⌋ := by
  rw [truncate, Rat.floor_def', Int.tdiv_eq_ediv_of_nonneg (Rat.num_nonneg.mpr h)]

/-- Hundredths of a total are cut down to what is left if they go over it by less than a byte. -/
theorem truncate_hundredths_le_iff (htotal : 0 < total) (hj : 0 ≤ j) :
    truncate ((j / 100 : ℚ) * total) ≤ left ↔ excess total left j < 100 := by
  have hnonneg : (0 : ℚ) ≤ (j / 100 : ℚ) * total := by
    have : (0 : ℚ) ≤ j := by exact_mod_cast hj
    have : (0 : ℚ) ≤ total := by exact_mod_cast htotal.le
    positivity
  have hcast : ((j / 100 : ℚ) * total < ((left + 1 : ℤ) : ℚ)) ↔
      ((j * total : ℤ) : ℚ) < ((100 * (left + 1) : ℤ) : ℚ) := by
    push_cast
    constructor <;> intro h <;> linarith
  rw [truncate_of_nonneg hnonneg, ← Int.lt_add_one_iff, Int.floor_lt, hcast, Int.cast_lt, excess]
  constructor <;> intro h <;> linarith

/-- The hundredths that are advertised, and fewer, go over what is left by the epsilon at most. -/
theorem le_floor_hundredths_iff (htotal : 0 < total) :
    j ≤ ⌊(left : ℚ) / total * 100 + 1 / 10 ^ 9⌋ ↔ 10 ^ 9 * excess total left j ≤ total := by
  have hpos : (0 : ℚ) < total := by exact_mod_cast htotal
  have hscale : ((left : ℚ) / total * 100 + 1 / 10 ^ 9) * (10 ^ 9 * total) =
      10 ^ 9 * (100 * left) + total := by
    field_simp
  have hcast : ((j : ℚ) ≤ (left : ℚ) / total * 100 + 1 / 10 ^ 9) ↔
      ((10 ^ 9 * excess total left j : ℤ) : ℚ) ≤ ((total : ℤ) : ℚ) := by
    rw [← mul_le_mul_iff_left₀ (show (0 : ℚ) < 10 ^ 9 * total by positivity), hscale, excess]
    push_cast
    constructor <;> intro h <;> linarith
  rw [Int.le_floor, hcast, Int.cast_le]

end

/-! ## When the figures are exact -/

/-- The bytes of the holders whose bytes are known. -/
def knownBytes (holders : List Holder) : ℤ :=
  (holders.filterMap Holder.bytes).foldr (· + ·) 0

/-- What a budget tells of its node is exact: of the advertised fraction, of the claim and of the
holders. -/
structure Exact (q : Query) (total : ℤ) : Prop where
  largest : ∃ fraction, (budgetForNode q).maxFraction = some fraction ∧
    (budgetForNode { q with claimFraction := some fraction }).fits = some true ∧
    (fraction + 1 / 100 ≤ 1 →
      (budgetForNode { q with claimFraction := some (fraction + 1 / 100) }).fits = some false)
  fits : ∀ bytes, (budgetForNode q).claimBytes = some bytes →
    ((budgetForNode q).fits = some true ↔
      knownBytes (budgetForNode q).holders + bytes + q.reserveBytes ≤ total)
  complete : (budgetForNode q).complete = true ↔
    ∀ holder ∈ (budgetForNode q).holders, holder.bytes ≠ none

/-- The room that the known holders and the reserve leave on a node. -/
def room (q : Query) (total : ℤ) : ℤ := total - knownBytes (holdersOf q) - q.reserveBytes

/-- No hundredth of the total goes over what is left by a byte and by the epsilon at most, and none
of the first hundred by less than a byte and by more than the epsilon. -/
structure RoundsAway (total left : ℤ) : Prop where
  down : ∀ j, 10 ^ 9 * excess total left j ≤ total → excess total left j < 100
  up : ∀ j ≤ 100, total < 10 ^ 9 * excess total left j → 100 ≤ excess total left j

/-- The bytes that the call claims. -/
def claimed (q : Query) (total : ℤ) : Option ℤ :=
  match q.claimFraction with
  | some fraction => some (truncate (fraction * total))
  | none => q.claimBytes

section
variable {q : Query} {total left : ℤ}

theorem heldBytes_eq (holders : List Holder) : heldBytes holders = knownBytes holders := by
  have key : ∀ n : ℤ, holders.foldl (fun n h ↦ n + h.bytes.getD 0) n = n + knownBytes holders := by
    induction holders with
    | nil => exact fun n ↦ (add_zero n).symm
    | cons h holders ih =>
      intro n
      rw [List.foldl_cons, ih, knownBytes, knownBytes, List.filterMap_cons]
      rcases h.bytes with _ | bytes
      · rw [Option.getD_none, add_zero]
      · rw [Option.getD_some, add_assoc]
        rfl
  exact (key 0).trans (zero_add _)

/-- What is advertised is a number of hundredths. -/
theorem largestFraction_eq (htotal : 0 < total) (hleft : 0 ≤ left) :
    ∃ j : ℤ, 0 ≤ j ∧ largestFraction left total = j / 100 ∧
      ∀ i, i ≤ j ↔ 10 ^ 9 * excess total left i ≤ total := by
  have hnonneg : 0 ≤ ⌊(left : ℚ) / total * 100 + 1 / 10 ^ 9⌋ := by
    rw [le_floor_hundredths_iff htotal, excess]
    linarith
  refine ⟨_, hnonneg, max_eq_right ?_, fun i ↦ le_floor_hundredths_iff htotal⟩
  exact div_nonneg (by exact_mod_cast hnonneg) (by norm_num)

theorem excess_mono (htotal : 0 < total) {i j : ℤ} (h : i ≤ j) :
    excess total left i ≤ excess total left j := by
  rw [excess, excess]
  linarith [mul_le_mul_of_nonneg_right h htotal.le]

/-- The advertised hundredths are cut down to what is left, and one more is not, where the total
rounds away from what is left. -/
theorem roundsAway_iff (htotal : 0 < total) {k : ℤ}
    (hk : ∀ i, i ≤ k ↔ 10 ^ 9 * excess total left i ≤ total) :
    RoundsAway total left ↔
      excess total left k < 100 ∧ (k + 1 ≤ 100 → 100 ≤ excess total left (k + 1)) := by
  constructor
  · intro h
    refine ⟨h.down k ((hk k).mp le_rfl), fun hle ↦ h.up _ hle ?_⟩
    by_contra hlt
    have hlt := (hk (k + 1)).mpr (not_lt.mp hlt)
    omega
  · rintro ⟨hfits, hnext⟩
    refine ⟨fun j hj ↦ lt_of_le_of_lt (excess_mono htotal ((hk j).mpr hj)) hfits, fun j hj hlt ↦ ?_⟩
    have hkj : k + 1 ≤ j := by
      by_contra hle
      exact absurd ((hk j).mp (by omega)) (not_le.mpr hlt)
    exact le_trans (hnext (le_trans hkj hj)) (excess_mono htotal hkj)

/-! ## The fields of a budget -/

section
variable (hknown : knownTotal q = some total)
include hknown

theorem maxFraction_eq : (budgetForNode q).maxFraction =
    some (largestFraction (max 0 (room q total)) total) := by
  simp only [budgetForNode, hknown, room, heldBytes_eq]

theorem claimBytes_eq : (budgetForNode q).claimBytes = claimed q total := by
  simp only [budgetForNode, hknown]
  rfl

theorem fits_eq : (budgetForNode q).fits =
    (claimed q total).map fun bytes ↦ decide (bytes ≤ max 0 (room q total)) := by
  simp only [budgetForNode, hknown, room, heldBytes_eq]
  rfl

theorem complete_iff : (budgetForNode q).complete = true ↔
    ∀ holder ∈ (budgetForNode q).holders, holder.bytes ≠ none := by
  simp only [budgetForNode, hknown, Option.isSome_some, Bool.true_or, Bool.and_true,
    List.isEmpty_iff, List.filter_eq_nil_iff, Option.isNone_iff_eq_none]

theorem fits_hundredths (htotal : 0 < total) {j : ℤ} (hj : 0 ≤ j) :
    (budgetForNode { q with claimFraction := some ((j : ℚ) / 100) }).fits =
      some (decide (excess total (max 0 (room q total)) j < 100)) := by
  rw [fits_eq (q := { q with claimFraction := some ((j : ℚ) / 100) }) hknown]
  exact congrArg some (decide_eq_decide.mpr (truncate_hundredths_le_iff htotal hj))

end

/-- **The budget of a node is exact where its hundredths stay clear of what is left.** Of a node
whose total is known, the advertised fraction fits and a hundredth more does not, a claim fits
exactly when it goes into the total with what is held and the reserve, and the budget is complete
exactly when no holder is unknown, if and only if no hundredth of the total is rounded across what is
left, and nothing of no size is claimed where more than the total is taken. -/
theorem exact_iff (hq : q.totalBytes = some total) (htotal : 0 < total) :
    Exact q total ↔ RoundsAway total (max 0 (room q total)) ∧
      ∀ bytes, claimed q total = some bytes →
        0 ≤ room q total ∨ bytes ≤ room q total ∨ 0 < bytes := by
  have hknown : knownTotal q = some total := by
    rw [knownTotal, hq, Option.filter_some, if_pos (by simpa using htotal)]
  obtain ⟨k, hk, hlargest, hle⟩ := largestFraction_eq htotal (le_max_left 0 (room q total))
  have hnext : largestFraction (max 0 (room q total)) total + 1 / 100 = ((k + 1 : ℤ) : ℚ) / 100 := by
    rw [hlargest]
    push_cast
    ring
  have hbound : ((k + 1 : ℤ) : ℚ) / 100 ≤ 1 ↔ k + 1 ≤ 100 := by
    rw [div_le_one (by norm_num)]
    exact_mod_cast Iff.rfl
  have hsum (bytes : ℤ) : knownBytes (budgetForNode q).holders + bytes + q.reserveBytes ≤ total ↔
      bytes ≤ room q total := by
    have hholders : (budgetForNode q).holders = holdersOf q := by
      simp only [budgetForNode, hknown]
    rw [hholders, room]
    constructor <;> intro h <;> linarith
  rw [roundsAway_iff htotal hle]
  constructor
  · rintro ⟨⟨fraction, hfraction, hfits, hmore⟩, hclaim, -⟩
    rw [maxFraction_eq hknown, Option.some.injEq] at hfraction
    subst hfraction
    rw [hnext, hbound] at hmore
    rw [hlargest, fits_hundredths hknown htotal hk, Option.some.injEq, decide_eq_true_eq] at hfits
    refine ⟨⟨hfits, fun hlast ↦ ?_⟩, fun bytes hbytes ↦ ?_⟩
    · have hmore := hmore hlast
      rw [fits_hundredths hknown htotal (by omega), Option.some.injEq, decide_eq_false_iff_not] at hmore
      exact not_lt.mp hmore
    · have hclaim := hclaim bytes ((claimBytes_eq hknown).trans hbytes)
      rw [hsum, fits_eq hknown, hbytes, Option.map_some, Option.some.injEq, decide_eq_true_eq,
        le_max_iff] at hclaim
      by_contra hnot
      push Not at hnot
      exact absurd (hclaim.mp (.inl hnot.2.2)) (not_le.mpr hnot.2.1)
  · rintro ⟨⟨hfits, hmore⟩, hclaim⟩
    refine ⟨⟨_, maxFraction_eq hknown, ?_, fun hlast ↦ ?_⟩, fun bytes hbytes ↦ ?_,
      complete_iff hknown⟩
    · rw [hlargest, fits_hundredths hknown htotal hk, decide_eq_true hfits]
    · rw [hnext, hbound] at hlast
      rw [hnext, fits_hundredths hknown htotal (by omega),
        decide_eq_false (not_lt.mpr (hmore hlast))]
    · rw [claimBytes_eq hknown] at hbytes
      rw [hsum, fits_eq hknown, hbytes, Option.map_some, Option.some.injEq, decide_eq_true_eq,
        le_max_iff]
      refine ⟨fun h ↦ ?_, .inr⟩
      rcases hclaim bytes hbytes with hroom | hle | hpos
      · exact h.elim (fun hbytes ↦ le_trans hbytes hroom) id
      · exact hle
      · exact h.elim (fun hbytes ↦ absurd hpos (not_lt.mpr hbytes)) id

end

/-- A node of 128 GiB, all of which but the bytes left and the reserve is measured. -/
private def almostFull (left : ℤ) : Query where
  holders := [("d", "", none)]
  totalBytes := some (128 * 1024 ^ 3)
  measured := some (AList.singleton "d" (some (124 * 1024 ^ 3 - left)))
  claimFraction := some (1 / 4)

theorem exact_almostFull : Exact (almostFull (33 * 1024 ^ 3)) (128 * 1024 ^ 3) := by
  have hroom : room (almostFull (33 * 1024 ^ 3)) (128 * 1024 ^ 3) = 33 * 1024 ^ 3 := by
    decide +kernel
  refine (exact_iff rfl (by decide)).mpr ⟨?_, fun _ _ ↦ .inl (hroom ▸ by decide)⟩
  rw [hroom]
  constructor
  · intro j h
    rw [excess] at h ⊢
    omega
  · intro j hj h
    rw [excess] at h ⊢
    omega

/-- A quarter of a node is advertised where a byte less is left. -/
theorem almostFull_not_exact : ¬Exact (almostFull (32 * 1024 ^ 3 - 1)) (128 * 1024 ^ 3) := by
  rintro ⟨⟨fraction, hfraction, hfits, -⟩, -, -⟩
  have hmax : (budgetForNode (almostFull (32 * 1024 ^ 3 - 1))).maxFraction = some (1 / 4) := by
    decide +kernel
  rw [hmax, Option.some.injEq] at hfraction
  subst hfraction
  have hover : (budgetForNode { almostFull (32 * 1024 ^ 3 - 1) with
      claimFraction := some (1 / 4) }).fits = some false := by
    decide +kernel
  rw [hover] at hfits
  cases hfits

end SparkPulse.Memory
