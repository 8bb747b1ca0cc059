import Mathlib.Data.List.Chain
import SparkPulse.Recipes.Names

/-!
# Slugs of slugs

`recipe_slug` strips an extension first and lowers, replaces and trims afterwards, so what it makes
can end in an extension again. Then, and only then, its slug is another one.
-/

open SparkPulse.Runtime (isSpace)

namespace SparkPulse.Recipes

/-! ## Replacing runs -/

section
variable {p : Char → Bool} {a b s t w : Text} {c : Char}

theorem subRuns_append_cons (hc : p c = false) :
    subRuns p (a ++ c :: b) = subRuns p a ++ c :: subRuns p b := by
  induction a with
  | nil => simp [subRuns, hc]
  | cons d a ih =>
    have hhead : (a ++ c :: b).head?.any p = a.head?.any p := by
      cases a with
      | nil => simp [hc]
      | cons => rfl
    rw [List.cons_append, subRuns, subRuns, hhead, ih]
    split_ifs <;> rfl

theorem subRuns_concat (hc : p c = false) : subRuns p (a ++ [c]) = subRuns p a ++ [c] :=
  subRuns_append_cons hc

theorem subRuns_eq_self (h : ∀ c ∈ t, p c = false) : subRuns p t = t := by
  induction t with
  | nil => rfl
  | cons c t ih =>
    rw [subRuns, if_neg (by simp [h c List.mem_cons_self]),
      ih fun d hd ↦ h d (List.mem_cons_of_mem _ hd)]

/-- A run at the end is a dash at the end. -/
theorem getLast?_subRuns (hc : p c = true) : (subRuns p (a ++ [c])).getLast? = some '-' := by
  induction a with
  | nil => simp [subRuns, hc]
  | cons d a ih =>
    have hne : subRuns p (a ++ [c]) ≠ [] := fun h ↦ by rw [h] at ih; cases ih
    rw [List.cons_append, subRuns]
    split_ifs
    · exact ih
    · rw [List.getLast?_cons_of_ne_nil hne, ih]
    · rw [List.getLast?_cons_of_ne_nil hne, ih]

/-- What has no dash at the end of what was replaced was there before. -/
theorem of_subRuns_eq_append (hs : '-' ∉ s) (h : subRuns p t = w ++ s) :
    ∃ t', t = t' ++ s ∧ subRuns p t' = w := by
  induction s using List.reverseRecOn generalizing t with
  | nil => exact ⟨t, (List.append_nil t).symm, by rw [h, List.append_nil]⟩
  | append_singleton s c ih =>
    rw [List.mem_append, not_or] at hs
    rw [← List.append_assoc] at h
    rcases t.eq_nil_or_concat with rfl | ⟨u, d, rfl⟩
    · simp [subRuns] at h
    · rw [List.concat_eq_append] at h ⊢
      by_cases hd : p d = true
      · have hlast := getLast?_subRuns (a := u) hd
        rw [h, List.getLast?_concat] at hlast
        exact absurd (Option.some.inj hlast) fun heq ↦ hs.2 (heq ▸ List.mem_singleton_self _)
      · rw [subRuns_concat (by simpa using hd)] at h
        obtain ⟨hu, rfl⟩ := List.append_inj' h rfl |>.imp_right fun h ↦ (List.cons.inj h).1
        obtain ⟨t', rfl, ht'⟩ := ih hs.1 hu
        exact ⟨t', List.append_assoc .., ht'⟩

/-- After a replacement no two dashes follow each other. -/
theorem isChain_subRuns : (subRuns (· = '-') t).IsChain fun c d ↦ ¬(c = '-' ∧ d = '-') := by
  induction t with
  | nil => exact List.IsChain.nil
  | cons c t ih =>
    rw [subRuns]
    split_ifs with hc hnext
    · exact ih
    · refine List.isChain_cons.mpr ⟨fun d hd hdash ↦ ?_, ih⟩
      rcases t with _ | ⟨e, t⟩
      · cases hd
      · have he : e ≠ '-' := by simpa using hnext
        rw [subRuns, if_neg (by simpa using he)] at hd
        exact he ((Option.some.inj hd).trans hdash.2)
    · refine List.isChain_cons.mpr ⟨fun d _ hdash ↦ ?_, ih⟩
      exact hc (by simpa using hdash.1)

theorem subRuns_of_isChain (h : t.IsChain fun c d ↦ ¬(c = '-' ∧ d = '-')) :
    subRuns (· = '-') t = t := by
  induction t with
  | nil => rfl
  | cons c t ih =>
    obtain ⟨hhead, htail⟩ := List.isChain_cons.mp h
    rw [subRuns, ih htail]
    split_ifs with hc hnext
    · rcases t with _ | ⟨d, t⟩
      · cases hnext
      · exact absurd ⟨by simpa using hc, by simpa using hnext⟩ (hhead d rfl)
    · rw [show c = '-' by simpa using hc]
    · rfl

theorem length_subRuns_le : (subRuns p t).length ≤ t.length := by
  induction t with
  | nil => exact le_rfl
  | cons c t ih =>
    rw [subRuns]
    split_ifs
    · exact ih.trans (Nat.le_succ _)
    · exact Nat.succ_le_succ ih
    · exact Nat.succ_le_succ ih

theorem trim_eq_self (h : ∀ c ∈ t, p c = false) : trim p t = t := by
  have hdrop : t.dropWhile p = t := by
    rcases t with _ | ⟨c, t⟩
    · rfl
    · exact List.dropWhile_cons_of_neg (by simp [h c List.mem_cons_self])
  rw [trim, hdrop, List.rdropWhile_eq_self_iff]
  exact fun hne ↦ by simp [h _ (List.getLast_mem hne)]

theorem trim_infix : trim p t <:+: t :=
  ((List.rdropWhile_prefix p _).isInfix).trans (List.dropWhile_suffix p).isInfix

theorem trim_trim : trim p (trim p t) = trim p t := by
  have hdrop : (trim p t).dropWhile p = trim p t := by
    rcases htrim : trim p t with _ | ⟨c, u⟩
    · rfl
    · refine List.dropWhile_cons_of_neg fun hc ↦ head?_trim_ne (t := t) hc ?_
      rw [htrim]
      rfl
  conv_lhs => rw [trim, hdrop]
  rw [trim, List.rdropWhile_idempotent]

end

/-! ## Slugs are kept -/

section
variable {t : Text} {c : Char}

theorem lowerChar_of_slugAllowed (h : slugAllowed c = true) : lowerChar c = [c] := by
  have hval : c.val.toNat ≤ 122 ∧ ¬(65 ≤ c.val.toNat ∧ c.val.toNat ≤ 90) := by
    simp only [slugAllowed, Bool.or_eq_true, Bool.and_eq_true, decide_eq_true_eq, Char.le_def,
      UInt32.le_iff_toNat_le] at h
    have ha : 'a'.val.toNat = 97 := rfl
    have hz : 'z'.val.toNat = 122 := rfl
    have h0 : '0'.val.toNat = 48 := rfl
    have h9 : '9'.val.toNat = 57 := rfl
    rcases h with (((h | h) | rfl) | rfl) | rfl
    · omega
    · omega
    · decide
    · decide
    · decide
  have hlower : c.toLower = c := by
    change dite _ _ _ = c
    split_ifs with hupper
    · have hlow : 65 ≤ c.val.toNat := UInt32.le_iff_toNat_le.mp hupper.1
      have hhigh : c.val.toNat ≤ 90 := UInt32.le_iff_toNat_le.mp hupper.2
      exact absurd ⟨hlow, hhigh⟩ hval.2
    · rfl
  rw [lowerChar, if_neg fun heq ↦ ?_, if_neg fun heq ↦ ?_, hlower]
  · simp [heq] at hval
  · simp [heq] at hval

theorem lower_of_slugAllowed (h : ∀ c ∈ t, slugAllowed c = true) : lower t = t := by
  rw [lower]
  induction t with
  | nil => rfl
  | cons c t ih =>
    rw [List.flatMap_cons, lowerChar_of_slugAllowed (h c List.mem_cons_self),
      ih fun d hd ↦ h d (List.mem_cons_of_mem _ hd)]
    rfl

/-- A slug is what is made of itself. -/
theorem slugOf_slugOf : slugOf (slugOf t) = slugOf t := by
  have hallowed : ∀ c ∈ slugOf t, slugAllowed c = true := fun c hc ↦ slugAllowed_of_mem hc
  have hchain : (slugOf t).IsChain fun c d ↦ ¬(c = '-' ∧ d = '-') :=
    isChain_subRuns.infix trim_infix
  have hkept : subRuns (fun c ↦ !slugAllowed c) (slugOf t) = slugOf t :=
    subRuns_eq_self fun c hc ↦ by rw [hallowed c hc]; rfl
  rw [slugOf, lower_of_slugAllowed hallowed, hkept, subRuns_of_isChain hchain]
  exact trim_trim

/-- What has allowed characters only gets no longer. -/
theorem length_slugOf_le (h : ∀ c ∈ t, slugAllowed c = true) : (slugOf t).length ≤ t.length := by
  rw [slugOf, lower_of_slugAllowed h]
  exact trim_infix.length_le.trans (length_subRuns_le.trans length_subRuns_le)

theorem trim_isSpace_slugOf : trim isSpace (slugOf t) = slugOf t :=
  trim_eq_self fun _ hc ↦ not_isSpace_of_slugAllowed (slugAllowed_of_mem hc)

end

/-! ## Slugs that end in an extension -/

/-- What a slug loses at its ends. -/
def slugLost (c : Char) : Bool := !slugAllowed c || slugEdge c

/-- The lowered stem, without what a slug loses at its end. -/
def slugCore (stem : Text) : Text := (lower stem).rdropWhile slugLost

/-- A core that ends so, after something that a slug keeps. -/
def CoreEndsIn (extension stem : Text) : Prop :=
  ∃ head, slugCore stem = head ++ extension ∧ ∃ c ∈ head, slugLost c = false

/-- A stem whose slug is the name of a recipe file. -/
def EndsAsRecipe (stem : Text) : Prop := CoreEndsIn yaml stem ∨ CoreEndsIn yml stem

/-- Every run of what a slug may not hold becomes one dash, and so does every run of dashes. -/
def dashed (t : Text) : Text := subRuns (· = '-') (subRuns (fun c ↦ !slugAllowed c) t)

section
variable {a b t u w stem extension : Text} {c : Char}

theorem slugLost_eq_false : slugLost c = false ↔ slugAllowed c = true ∧ slugEdge c = false := by
  rw [slugLost, Bool.or_eq_false_iff, Bool.not_eq_false']

theorem dashed_append_cons (hc : slugLost c = false) :
    dashed (a ++ c :: b) = dashed a ++ c :: dashed b := by
  obtain ⟨hallowed, hedge⟩ := slugLost_eq_false.mp hc
  have hdash : decide (c = '-') = false := (Bool.or_eq_false_iff.mp hedge).1
  rw [dashed, subRuns_append_cons (by rw [hallowed]; rfl), subRuns_append_cons hdash]
  rfl

theorem mem_dashed (hc : c ∈ dashed t) (hedge : slugEdge c = false) :
    c ∈ t ∧ slugLost c = false := by
  have hdash : c ≠ '-' := of_decide_eq_false (Bool.or_eq_false_iff.mp hedge).1
  obtain ⟨hc, -⟩ := (mem_subRuns hc).resolve_left hdash
  obtain ⟨hc, hallowed⟩ := (mem_subRuns hc).resolve_left hdash
  exact ⟨hc, slugLost_eq_false.mpr ⟨by simpa using hallowed, hedge⟩⟩

theorem mem_dashed_of_mem (hc : c ∈ t) (hkept : slugLost c = false) : c ∈ dashed t := by
  obtain ⟨hallowed, hedge⟩ := slugLost_eq_false.mp hkept
  exact mem_subRuns_of_mem (mem_subRuns_of_mem hc (by rw [hallowed]; rfl))
    (Bool.or_eq_false_iff.mp hedge).1

theorem dropWhile_append_cons {p : Char → Bool} (hc : p c = false) :
    (a ++ c :: b).dropWhile p = a.dropWhile p ++ c :: b := by
  induction a with
  | nil => rw [List.nil_append, List.dropWhile_cons_of_neg (by simp [hc]), List.dropWhile_nil,
      List.nil_append]
  | cons d a ih =>
    rw [List.cons_append, List.dropWhile_cons, List.dropWhile_cons]
    split_ifs
    · exact ih
    · rfl

theorem rdropWhile_append_of_forall {p : Char → Bool} (h : ∀ c ∈ b, p c = true) :
    (a ++ b).rdropWhile p = a.rdropWhile p := by
  induction b using List.reverseRecOn with
  | nil => rw [List.append_nil]
  | append_singleton b c ih =>
    rw [← List.append_assoc, List.rdropWhile_concat_pos _ _ _ (h c (by simp)),
      ih fun d hd ↦ h d (List.mem_append_left _ hd)]

/-- The slug of a stem is made of its core. -/
theorem slugOf_eq_dropWhile : slugOf stem = (dashed (slugCore stem)).dropWhile slugEdge := by
  have hsplit : lower stem = slugCore stem ++ (lower stem).rtakeWhile slugLost :=
    (List.rdropWhile_append_rtakeWhile ..).symm
  have hlost : ∀ c ∈ (lower stem).rtakeWhile slugLost, slugLost c = true :=
    fun c hc ↦ List.mem_rtakeWhile_imp hc
  have hedges : ∀ c ∈ dashed ((lower stem).rtakeWhile slugLost), slugEdge c = true := by
    intro c hc
    by_contra hedge
    obtain ⟨hc, hkept⟩ := mem_dashed hc (by simpa using hedge)
    simp [hlost c hc] at hkept
  have hslug : slugOf stem = trim slugEdge (dashed (lower stem)) := rfl
  rw [hslug, hsplit]
  rcases (slugCore stem).eq_nil_or_concat with hnil | ⟨core, c, hcore⟩
  · rw [hnil, List.nil_append, trim_eq_nil_iff.mpr hedges]
    rfl
  · rw [List.concat_eq_append] at hcore
    have hkept : slugLost c = false := by
      have hself : (slugCore stem).rdropWhile slugLost = slugCore stem :=
        List.rdropWhile_idempotent _ _
      rw [hcore, List.rdropWhile_eq_self_iff] at hself
      simpa using hself (by simp)
    have hedge : ¬slugEdge c = true := by simp [(slugLost_eq_false.mp hkept).2]
    have hend : dashed (core ++ [c]) = dashed core ++ [c] := dashed_append_cons hkept
    rw [hcore, List.append_assoc, List.singleton_append, dashed_append_cons hkept, hend, trim,
      dropWhile_append_cons (by simpa using hedge), dropWhile_append_cons (by simpa using hedge),
      List.append_cons, rdropWhile_append_of_forall hedges, List.rdropWhile_concat_neg _ _ _ hedge]

/-- Extensions as far as slugs are concerned: a dot, and letters that slugs keep. -/
theorem dashed_append_extension (hword : ∀ c ∈ w, slugLost c = false) :
    dashed (a ++ '.' :: w) = dashed a ++ '.' :: w := by
  have hself : ∀ p : Char → Bool, (∀ c ∈ w, p c = false) → subRuns p w = w :=
    fun p h ↦ subRuns_eq_self h
  rw [dashed, subRuns_append_cons (by decide), subRuns_append_cons (by decide),
    hself _ fun c hc ↦ by rw [(slugLost_eq_false.mp (hword c hc)).1]; rfl,
    hself _ fun c hc ↦ (Bool.or_eq_false_iff.mp (slugLost_eq_false.mp (hword c hc)).2).1]
  rfl

/-- **When a slug ends in an extension.** -/
theorem extension_suffix_slugOf_iff (hw : w ≠ []) (hword : ∀ c ∈ w, slugLost c = false) :
    '.' :: w <:+ slugOf stem ↔ CoreEndsIn ('.' :: w) stem := by
  rw [slugOf_eq_dropWhile]
  constructor
  · intro h
    obtain ⟨v, hv⟩ := h.trans (List.dropWhile_suffix _)
    have hdash : '-' ∉ '.' :: w := by
      rw [List.mem_cons, not_or]
      exact ⟨by decide, fun hmem ↦ absurd (hword _ hmem) (by decide)⟩
    obtain ⟨t', ht', hv'⟩ := of_subRuns_eq_append hdash hv.symm
    obtain ⟨head, hhead, rfl⟩ := of_subRuns_eq_append hdash ht'
    refine ⟨head, hhead, ?_⟩
    by_contra hnone
    push Not at hnone
    -- Otherwise all of the head is trimmed, and the dot with it.
    have hedges : ∀ c ∈ dashed head, slugEdge c = true := by
      intro c hc
      by_contra hedge
      obtain ⟨hc, hkept⟩ := mem_dashed hc (by simpa using hedge)
      exact hnone c hc hkept
    rw [hhead, dashed_append_extension hword] at h
    obtain ⟨c, w, rfl⟩ := List.exists_cons_of_ne_nil hw
    have hc := (slugLost_eq_false.mp (hword c List.mem_cons_self)).2
    have hdrop : (dashed head ++ '.' :: c :: w).dropWhile slugEdge = c :: w := by
      rw [List.append_cons, dropWhile_append_cons hc, List.dropWhile_eq_nil_iff.mpr]
      · rfl
      · intro d hd
        rcases List.mem_append.mp hd with hd | hd
        · exact hedges d hd
        · rw [List.mem_singleton.mp hd]
          decide
    rw [hdrop] at h
    exact absurd h.length_le (Nat.not_succ_le_self _)
  · rintro ⟨head, hhead, c, hc, hkept⟩
    rw [hhead, dashed_append_extension hword]
    have hmem := mem_dashed_of_mem hc hkept
    have hedge := (slugLost_eq_false.mp hkept).2
    obtain ⟨v, v', hv⟩ := List.append_of_mem hmem
    rw [hv, List.append_assoc, List.cons_append, dropWhile_append_cons hedge, ← List.cons_append,
      ← List.append_assoc]
    exact List.suffix_append _ _

theorem endsAsRecipe_iff : EndsAsRecipe stem ↔ yaml <:+ slugOf stem ∨ yml <:+ slugOf stem := by
  have hword : ∀ w : Text, w.all (fun c ↦ !slugLost c) = true → ∀ c ∈ w, slugLost c = false :=
    fun w h c hc ↦ by simpa using List.all_eq_true.mp h c hc
  exact or_congr
    (extension_suffix_slugOf_iff (w := "yaml".toList) (by decide) (hword _ (by decide))).symm
    (extension_suffix_slugOf_iff (w := "yml".toList) (by decide) (hword _ (by decide))).symm

/-- The stem of a slug is the slug, or what is before the extension that it ends in. -/
theorem recipeStem_slugOf (t : Text) :
    (recipeStem (slugOf t) = slugOf t ∧ ¬yaml <:+ slugOf t ∧ ¬yml <:+ slugOf t) ∨
      ∃ extension, (extension = yaml ∨ extension = yml) ∧
        slugOf t = recipeStem (slugOf t) ++ extension := by
  rw [recipeStem, trim_isSpace_slugOf]
  rcases hyaml : removeSuffix? yaml (slugOf t) with _ | head
  · rcases hyml : removeSuffix? yml (slugOf t) with _ | head
    · refine Or.inl ⟨rfl, ?_, ?_⟩
      · rintro ⟨v, hv⟩
        rw [removeSuffix?_eq_some_iff.mpr hv.symm] at hyaml
        cases hyaml
      · rintro ⟨v, hv⟩
        rw [removeSuffix?_eq_some_iff.mpr hv.symm] at hyml
        cases hyml
    · exact Or.inr ⟨yml, Or.inr rfl, removeSuffix?_eq_some_iff.mp hyml⟩
  · exact Or.inr ⟨yaml, Or.inl rfl, removeSuffix?_eq_some_iff.mp hyaml⟩

/-- **Slugs of slugs.** The slug of a name is its own slug exactly when the name's stem does not end
as a recipe file. -/
theorem recipeSlug_recipeSlug_iff {name : Text} :
    recipeSlug (recipeSlug name) = recipeSlug name ↔ ¬EndsAsRecipe (recipeStem name) := by
  rw [endsAsRecipe_iff, recipeSlug, recipeSlug]
  rcases recipeStem_slugOf (recipeStem name) with ⟨hself, hyaml, hyml⟩ | ⟨extension, hext, hsplit⟩
  · rw [hself]
    exact iff_of_true slugOf_slugOf (not_or.mpr ⟨hyaml, hyml⟩)
  · refine iff_of_false (fun heq ↦ ?_) (not_not.mpr ?_)
    · have hlength : (slugOf (recipeStem (slugOf (recipeStem name)))).length ≤ _ :=
        length_slugOf_le fun c hc ↦ slugAllowed_of_mem (t := recipeStem name) (by
          rw [hsplit]
          exact List.mem_append_left _ hc)
      have hadd := congrArg List.length hsplit
      have hpos : 0 < extension.length := by rcases hext with rfl | rfl <;> decide
      rw [List.length_append] at hadd
      rw [heq] at hlength
      omega
    · rcases hext with rfl | rfl
      · exact Or.inl ⟨_, hsplit.symm⟩
      · exact Or.inr ⟨_, hsplit.symm⟩

/-- The slug of a slug is not empty. -/
theorem recipeSlug_recipeSlug_ne_nil {name : Text} (h : recipeSlug name ≠ []) :
    recipeSlug (recipeSlug name) ≠ [] := by
  rw [recipeSlug] at h
  rw [recipeSlug, recipeSlug, Ne, slugOf_eq_nil_iff]
  intro hedges
  obtain ⟨c, hhead⟩ : ∃ c, (slugOf (recipeStem name)).head? = some c :=
    Option.isSome_iff_exists.mp (List.isSome_head?.mpr h)
  have hedge : slugEdge c ≠ true := fun hedge ↦ head?_trim_ne hedge hhead
  have hallowed : slugAllowed c = true := slugAllowed_of_mem (List.mem_of_head? hhead)
  refine hedge (hedges c (List.mem_flatMap.mpr ⟨c, ?_, ?_⟩) hallowed)
  · rcases recipeStem_slugOf (recipeStem name) with ⟨hself, -⟩ | ⟨extension, hext, hsplit⟩
    · rw [hself]
      exact List.mem_of_head? hhead
    · rcases hstem : recipeStem (slugOf (recipeStem name)) with _ | ⟨d, stem⟩
      · rw [hsplit, hstem, List.nil_append] at hhead
        rcases hext with rfl | rfl
        · exact absurd (Option.some.inj hhead ▸ rfl) hedge
        · exact absurd (Option.some.inj hhead ▸ rfl) hedge
      · rw [hsplit, hstem] at hhead
        exact Option.some.inj hhead ▸ List.mem_cons_self
  · rw [lowerChar_of_slugAllowed hallowed]
    exact List.mem_singleton_self c

end

end SparkPulse.Recipes
