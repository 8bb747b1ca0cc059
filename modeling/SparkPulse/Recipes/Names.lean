import Mathlib.Data.List.DropRight
import SparkPulse.Runtime.Persistence

/-!
# The names of recipe files

A recipe file is known by its stem, and an install writes it under a slug of the name it was
published with. This is the slug rule of `tools/oci_registry.py` and what Python's `Path` makes of a
file name, on lists of characters. Lower-casing is exact for what the rule keeps: of the characters
beyond ASCII two lower to something with an ASCII letter in it, and of the others nothing is left.
-/

open SparkPulse.Runtime (isSpace)

namespace SparkPulse.Recipes

abbrev Text := List Char

instance : LawfulBEq Text := List.instLawfulBEq

/-! ## Characters -/

/-- `str.lower`, of one character, up to characters that no slug has. -/
def lowerChar (c : Char) : Text :=
  if c.val = 0x212a then ['k']
  else if c.val = 0x130 then ['i', Char.ofNat 0x307]
  else [c.toLower]

def lower (t : Text) : Text := t.flatMap lowerChar

/-- `str.strip`, of the characters with a property. -/
def trim (p : Char → Bool) (t : Text) : Text := (t.dropWhile p).rdropWhile p

/-- `re.sub("[p]+", "-", t)`: every run of such characters becomes one dash. -/
def subRuns (p : Char → Bool) : Text → Text
  | [] => []
  | c :: cs =>
    if p c then if cs.head?.any p then subRuns p cs else '-' :: subRuns p cs
    else c :: subRuns p cs

/-- What `_SLUG_DISALLOWED` leaves alone. -/
def slugAllowed (c : Char) : Bool :=
  ('a' ≤ c && c ≤ 'z') || ('0' ≤ c && c ≤ '9') || c = '.' || c = '_' || c = '-'

/-- What is trimmed off the ends of a slug. -/
def slugEdge (c : Char) : Bool := c = '-' || c = '.'

/-! ## Stems and slugs -/

def yaml : Text := ".yaml".toList

def yml : Text := ".yml".toList

def removeSuffix? (suffix t : Text) : Option Text :=
  if suffix <:+ t then some (t.take (t.length - suffix.length)) else none

/-- `_recipe_stem`: the name without its extension, whether or not it had one. -/
def recipeStem (name : Text) : Text :=
  let name := trim isSpace name
  (removeSuffix? yaml name <|> removeSuffix? yml name).getD name

/-- The characters of a stem that a slug keeps. -/
def slugOf (stem : Text) : Text :=
  trim slugEdge (subRuns (· = '-') (subRuns (fun c ↦ !slugAllowed c) (lower stem)))

def recipeSlug (name : Text) : Text := slugOf (recipeStem name)

/-- The stem an install writes a recipe under: its slug, when it has one. -/
def installedName (filename : Text) : Text :=
  if recipeSlug filename = [] then recipeStem filename else recipeSlug filename

def installedSuffix (filename : Text) : Text := if yml <:+ filename then yml else yaml

/-- `_installed_filename` -/
def installedFilename (filename : Text) : Text :=
  installedName filename ++ installedSuffix filename

/-- `Path.stem` and `Path.suffix` -/
def splitSuffix (name : Text) : Text × Text :=
  let tail := name.rtakeWhile (· ≠ '.')
  let head := name.rdropWhile (· ≠ '.')
  if head.length ≤ 1 ∨ tail = [] then (name, []) else (head.dropLast, '.' :: tail)

/-- `.yaml` and `.yml`, in any case. -/
def IsExtension (suffix : Text) : Prop := suffix.map Char.toLower ∈ [yaml, yml]

instance : DecidablePred IsExtension := fun _ ↦ inferInstanceAs (Decidable (_ ∈ _))

/-- The stem and the suffix of a recipe file, which a hidden file is not. -/
def recipeName? (name : Text) : Option (Text × Text) :=
  if name.head? = some '.' ∨ ¬IsExtension (splitSuffix name).2 then none else some (splitSuffix name)

/-- The stem that the sidecar of a recipe file is named for. -/
def sidecarStem (name : Text) : Option Text :=
  removeSuffix? yaml name <|> removeSuffix? yml name <|> (recipeName? name).map Prod.fst

/-! ## What a slug may hold -/

section
variable {p : Char → Bool} {t : Text} {c : Char}

theorem mem_of_mem_trim (h : c ∈ trim p t) : c ∈ t :=
  (List.dropWhile_suffix p).subset ((List.rdropWhile_prefix p _).subset h)

theorem trim_eq_nil_iff : trim p t = [] ↔ ∀ c ∈ t, p c := by
  rw [trim, List.rdropWhile_eq_nil_iff]
  constructor
  · intro h c hc
    by_contra hp
    have hne : t.dropWhile p ≠ [] := fun hnil ↦ hp (List.dropWhile_eq_nil_iff.mp hnil c hc)
    exact absurd (h _ (List.head_mem hne)) (by simp [List.head_dropWhile_not p hne])
  · exact fun h c hc ↦ h c ((List.dropWhile_suffix p).subset hc)

/-- What is left of a trimmed text begins with nothing that is trimmed. -/
theorem head?_trim_ne (hc : p c = true) : (trim p t).head? ≠ some c := by
  intro h
  obtain ⟨rest, hrest⟩ : ∃ rest, t.dropWhile p = trim p t ++ rest :=
    (List.rdropWhile_prefix p _).imp fun _ ↦ Eq.symm
  obtain ⟨u, hu⟩ : ∃ u, trim p t = c :: u := by
    cases htrim : trim p t with
    | nil => rw [htrim] at h; cases h
    | cons a u =>
      rw [htrim] at h
      exact ⟨u, by rw [Option.some.inj h]⟩
  have hne : t.dropWhile p ≠ [] := by rw [hrest, hu]; exact List.cons_ne_nil _ _
  have hhead : (t.dropWhile p).head hne = c := by simp [hrest, hu]
  exact absurd hc (by rw [← hhead, List.head_dropWhile_not p hne]; exact Bool.false_ne_true)

theorem mem_subRuns (h : c ∈ subRuns p t) : c = '-' ∨ (c ∈ t ∧ p c = false) := by
  induction t with
  | nil => cases h
  | cons a t ih =>
    rw [subRuns] at h
    split_ifs at h with ha hnext
    · exact (ih h).imp_right fun h ↦ ⟨List.mem_cons_of_mem _ h.1, h.2⟩
    · rcases List.mem_cons.mp h with rfl | h
      · exact .inl rfl
      · exact (ih h).imp_right fun h ↦ ⟨List.mem_cons_of_mem _ h.1, h.2⟩
    · rcases List.mem_cons.mp h with rfl | h
      · exact .inr ⟨List.mem_cons_self, by simpa using ha⟩
      · exact (ih h).imp_right fun h ↦ ⟨List.mem_cons_of_mem _ h.1, h.2⟩

/-- A character that is not replaced is still there. -/
theorem mem_subRuns_of_mem (h : c ∈ t) (hc : p c = false) : c ∈ subRuns p t := by
  induction t with
  | nil => cases h
  | cons a t ih =>
    rw [subRuns]
    rcases List.mem_cons.mp h with rfl | h
    · rw [if_neg (by simp [hc])]
      exact List.mem_cons_self
    · split_ifs
      · exact ih h
      · exact List.mem_cons_of_mem _ (ih h)
      · exact List.mem_cons_of_mem _ (ih h)

theorem slugAllowed_of_mem (h : c ∈ slugOf t) : slugAllowed c := by
  rcases mem_subRuns (mem_of_mem_trim h) with rfl | ⟨h, -⟩
  · decide
  · rcases mem_subRuns h with rfl | ⟨-, hc⟩
    · decide
    · simpa using hc

/-- A stem has no slug exactly when it has nothing but separators once lowered. -/
theorem slugOf_eq_nil_iff : slugOf t = [] ↔ ∀ c ∈ lower t, slugAllowed c → slugEdge c := by
  rw [slugOf, trim_eq_nil_iff]
  constructor
  · intro h c hc hallowed
    by_cases hdash : c = '-'
    · subst hdash
      decide
    · exact h c (mem_subRuns_of_mem (mem_subRuns_of_mem hc (by simpa using hallowed))
        (by simpa using hdash))
  · intro h c hc
    rcases mem_subRuns hc with rfl | ⟨hc, -⟩
    · decide
    · rcases mem_subRuns hc with rfl | ⟨hc, hallowed⟩
      · decide
      · exact h c hc (by simpa using hallowed)

theorem slugOf_eq_nil_of_subset {u : Text} (h : slugOf t = []) (hu : u ⊆ t) : slugOf u = [] := by
  rw [slugOf_eq_nil_iff] at h ⊢
  intro c hc
  obtain ⟨a, ha, hca⟩ := List.mem_flatMap.mp hc
  exact h c (List.mem_flatMap.mpr ⟨a, hu ha, hca⟩)

theorem head?_slugOf_ne_dot : (slugOf t).head? ≠ some '.' := head?_trim_ne (by decide)

theorem not_isSpace_of_slugAllowed (h : slugAllowed c) : isSpace c = false := by
  have hval : 45 ≤ c.val.toNat ∧ c.val.toNat ≤ 122 := by
    simp only [slugAllowed, Bool.or_eq_true, Bool.and_eq_true, decide_eq_true_eq, Char.le_def,
      UInt32.le_iff_toNat_le] at h
    have ha : 'a'.val.toNat = 97 := rfl
    have hz : 'z'.val.toNat = 122 := rfl
    have h0 : '0'.val.toNat = 48 := rfl
    have h9 : '9'.val.toNat = 57 := rfl
    rcases h with (((h | h) | rfl) | rfl) | rfl
    · omega
    · omega
    · decide
    · decide
    · decide
  simp only [isSpace, Bool.or_eq_false_iff, Bool.and_eq_false_iff, decide_eq_false_iff_not,
    UInt32.le_iff_toNat_le, ← UInt32.toNat_inj]
  simp only [UInt32.reduceToNat]
  omega

end

/-! ## Stems on disk -/

section
variable {suffix stem name t u : Text}

theorem removeSuffix?_eq_some_iff : removeSuffix? suffix t = some u ↔ t = u ++ suffix := by
  rw [removeSuffix?]
  constructor
  · intro h
    split_ifs at h with hsuffix
    obtain ⟨v, rfl⟩ := hsuffix
    simpa using Option.some.inj h
  · rintro rfl
    rw [if_pos (List.suffix_append _ _)]
    simp

theorem removeSuffix?_append : removeSuffix? suffix (t ++ suffix) = some t :=
  removeSuffix?_eq_some_iff.mpr rfl

/-- A name with the one extension does not have the other. -/
theorem removeSuffix?_yaml_append_yml : removeSuffix? yaml (t ++ yml) = none := by
  rw [removeSuffix?, if_neg]
  rintro ⟨v, h⟩
  have hlast : (v ++ ['.']) ++ "yaml".toList = t ++ yml := by rw [← h]; simp [yaml]
  exact absurd (List.append_inj_right' hlast (by decide)) (by decide)

theorem isExtension_yaml : IsExtension yaml := by decide

theorem isExtension_yml : IsExtension yml := by decide

theorem isExtension_installedSuffix : IsExtension (installedSuffix name) := by
  rw [installedSuffix]
  split_ifs
  · exact isExtension_yml
  · exact isExtension_yaml

theorem toLower_eq_dot_iff {c : Char} : c.toLower = '.' ↔ c = '.' := by
  constructor
  · intro h
    change dite _ _ _ = '.' at h
    split_ifs at h with hupper
    · have hval := congrArg (fun d : Char ↦ d.val.toNat) h
      have hlow : 65 ≤ c.val.toNat := UInt32.le_iff_toNat_le.mp hupper.1
      have hhigh : c.val.toNat ≤ 90 := UInt32.le_iff_toNat_le.mp hupper.2
      have hsum : (c.val + ('a'.val - 'A'.val)).toNat = c.val.toNat + 32 := by
        rw [UInt32.toNat_add, show ('a'.val - 'A'.val).toNat = 32 from rfl]
        omega
      have hdot : ('.' : Char).val.toNat = 46 := rfl
      simp only [hsum, hdot] at hval
      omega
    · exact h
  · rintro rfl
    rfl

/-- An extension is a dot and a tail without one. -/
theorem IsExtension.exists_tail (h : IsExtension suffix) :
    ∃ tail, suffix = '.' :: tail ∧ tail ≠ [] ∧ '.' ∉ tail := by
  obtain ⟨tail, hne, hnodot, hmap⟩ :
      ∃ tail : Text, tail ≠ [] ∧ '.' ∉ tail ∧ suffix.map Char.toLower = '.' :: tail := by
    rcases List.mem_pair.mp h with h | h
    · exact ⟨"yaml".toList, by decide, by decide, h⟩
    · exact ⟨"yml".toList, by decide, by decide, h⟩
  cases suffix with
  | nil => cases hmap
  | cons c rest =>
    rw [List.map_cons, List.cons.injEq] at hmap
    obtain ⟨hc, hrest⟩ := hmap
    refine ⟨rest, by rw [toLower_eq_dot_iff.mp hc], ?_, ?_⟩
    · rintro rfl
      exact hne hrest.symm
    · intro hmem
      refine hnodot (hrest ▸ ?_)
      exact List.mem_map.mpr ⟨'.', hmem, rfl⟩

/-- The last dot of a name with an extension is that of the extension. -/
theorem rsplit_append (stem : Text) (h : IsExtension suffix) :
    (stem ++ suffix).rdropWhile (· ≠ '.') = stem ++ ['.'] ∧
      '.' :: (stem ++ suffix).rtakeWhile (· ≠ '.') = suffix := by
  obtain ⟨tail, rfl, hne, hnodot⟩ := h.exists_tail
  have hall : ∀ a ∈ tail.reverse, decide (a ≠ '.') = true := by
    intro a ha
    have : a ≠ '.' := fun hdot ↦ hnodot (hdot ▸ List.mem_reverse.mp ha)
    simpa using this
  have hrev : (stem ++ '.' :: tail).reverse = tail.reverse ++ '.' :: stem.reverse := by simp
  constructor
  · rw [List.rdropWhile, hrev, List.dropWhile_append_of_pos hall]
    simp
  · rw [List.rtakeWhile, hrev, List.takeWhile_append_of_pos hall]
    simp

/-- `Path.stem` and `Path.suffix` of a stem with an extension. -/
theorem splitSuffix_append (hstem : stem ≠ []) (h : IsExtension suffix) :
    splitSuffix (stem ++ suffix) = (stem, suffix) := by
  obtain ⟨hdrop, htake⟩ := rsplit_append stem h
  obtain ⟨tail, rfl, hne, -⟩ := h.exists_tail
  have hlen : ¬((stem ++ ['.']).length ≤ 1 ∨ tail = []) := by
    have := List.length_pos_iff.mpr hstem
    simp only [List.length_append, List.length_singleton, not_or]
    exact ⟨by omega, hne⟩
  rw [splitSuffix, (List.cons.inj htake).2, hdrop, if_neg hlen]
  simp

/-- A name determines the stem that was given an extension. -/
theorem eq_of_append_extension {extension : Text} (hsuffix : IsExtension suffix)
    (hextension : IsExtension extension) (h : stem ++ suffix = u ++ extension) : stem = u := by
  have hdrop := (rsplit_append stem hsuffix).1
  rw [h, (rsplit_append u hextension).1] at hdrop
  exact (List.append_cancel_right hdrop).symm

/-- A recipe file is a stem with an extension; the stem is not empty and is not hidden. -/
theorem recipeName?_eq_some_iff :
    recipeName? name = some (stem, suffix) ↔
      name = stem ++ suffix ∧ IsExtension suffix ∧ stem ≠ [] ∧ stem.head? ≠ some '.' := by
  constructor
  · intro h
    rw [recipeName?] at h
    split_ifs at h with hhidden
    obtain ⟨hhead, hext⟩ := not_or.mp hhidden
    rw [not_not] at hext
    have hname : name = stem ++ suffix ∧ stem ≠ [] := by
      have hsplit := Option.some.inj h
      rw [splitSuffix] at hsplit hext
      split_ifs at hsplit hext with hshort
      · exact absurd (show IsExtension [] from hext) (by decide)
      · obtain ⟨hlen, -⟩ := not_or.mp hshort
        have hne : name.rdropWhile (· ≠ '.') ≠ [] :=
          fun hnil ↦ hlen (by rw [hnil]; exact Nat.zero_le 1)
        have hlast := List.rdropWhile_last_not (· ≠ '.') name hne
        rw [decide_eq_true_eq, not_not] at hlast
        have hcut := List.dropLast_append_getLast hne
        rw [hlast] at hcut
        obtain ⟨rfl, rfl⟩ := Prod.mk.inj hsplit
        constructor
        · have hwhole :
              name.rdropWhile (· ≠ '.') ++ name.rtakeWhile (· ≠ '.') = name :=
            List.rdropWhile_append_rtakeWhile
          conv_lhs => rw [← hwhole, ← hcut]
          rw [List.append_assoc, List.singleton_append]
        · intro hnil
          have := congrArg List.length hnil
          rw [List.length_dropLast, List.length_nil] at this
          omega
    have hsuffix : (splitSuffix name).2 = suffix := by rw [Option.some.inj h]
    refine ⟨hname.1, hsuffix ▸ hext, hname.2, fun hdot ↦ hhead ?_⟩
    rw [hname.1, List.head?_append, hdot]
    rfl
  · rintro ⟨rfl, hext, hstem, hdot⟩
    rw [recipeName?, splitSuffix_append hstem hext, if_neg]
    rw [not_or, not_not]
    refine ⟨fun h ↦ hdot ?_, hext⟩
    rwa [List.head?_append_of_ne_nil _ hstem] at h

/-- A recipe file with a sidecar is the stem of that with an extension. -/
theorem exists_extension_of_sidecarStem (h : sidecarStem name = some stem) :
    ∃ extension, IsExtension extension ∧ name = stem ++ extension := by
  rw [sidecarStem] at h
  cases hyaml : removeSuffix? yaml name with
  | some v =>
    obtain rfl : v = stem := by simpa [hyaml] using h
    exact ⟨yaml, isExtension_yaml, removeSuffix?_eq_some_iff.mp hyaml⟩
  | none =>
    cases hyml : removeSuffix? yml name with
    | some v =>
      obtain rfl : v = stem := by simpa [hyaml, hyml] using h
      exact ⟨yml, isExtension_yml, removeSuffix?_eq_some_iff.mp hyml⟩
    | none =>
      obtain ⟨extension, h⟩ : ∃ extension, recipeName? name = some (stem, extension) := by
        simpa [hyaml, hyml] using h
      exact ⟨extension, (recipeName?_eq_some_iff.mp h).2.1, (recipeName?_eq_some_iff.mp h).1⟩

/-- The sidecar of a recipe file is named for its stem. -/
theorem sidecarStem_of_recipeName? (h : recipeName? name = some (stem, suffix)) :
    sidecarStem name = some stem := by
  obtain ⟨hname, hext, -⟩ := recipeName?_eq_some_iff.mp h
  rw [sidecarStem]
  cases hyaml : removeSuffix? yaml name with
  | some v =>
    rw [removeSuffix?_eq_some_iff, hname] at hyaml
    rw [eq_of_append_extension hext isExtension_yaml hyaml]
    rfl
  | none =>
    cases hyml : removeSuffix? yml name with
    | some v =>
      rw [removeSuffix?_eq_some_iff, hname] at hyml
      rw [eq_of_append_extension hext isExtension_yml hyml]
      rfl
    | none =>
      rw [h]
      rfl

/-- The sidecar of a file that is installed is named for the name it is installed under. -/
theorem sidecarStem_installedFilename :
    sidecarStem (installedFilename name) = some (installedName name) := by
  rw [installedFilename, installedSuffix, sidecarStem]
  split_ifs
  · rw [removeSuffix?_yaml_append_yml, removeSuffix?_append]
    rfl
  · rw [removeSuffix?_append]
    rfl

/-! ## Stems asked for -/

theorem recipeStem_subset : recipeStem name ⊆ name := by
  have htrim : trim isSpace name ⊆ name := fun _ ↦ mem_of_mem_trim
  rw [recipeStem]
  cases hyaml : removeSuffix? yaml (trim isSpace name) with
  | some v =>
    rw [removeSuffix?_eq_some_iff] at hyaml
    exact List.Subset.trans (hyaml ▸ List.subset_append_left _ _) htrim
  | none =>
    cases hyml : removeSuffix? yml (trim isSpace name) with
    | some v =>
      rw [removeSuffix?_eq_some_iff] at hyml
      exact List.Subset.trans (hyml ▸ List.subset_append_left _ _) htrim
    | none => exact htrim

/-- A stem does not begin with a space. -/
theorem head?_recipeStem_ne {c : Char} (hc : isSpace c = true) :
    (recipeStem name).head? ≠ some c := by
  have htrim := head?_trim_ne (p := isSpace) (t := name) hc
  have hprefix : ∀ v suffix : Text, trim isSpace name = v ++ suffix → v.head? ≠ some c := by
    rintro v suffix hv hhead
    rw [hv, List.head?_append, hhead] at htrim
    exact htrim rfl
  rw [recipeStem]
  cases hyaml : removeSuffix? yaml (trim isSpace name) with
  | some v => exact hprefix v _ (removeSuffix?_eq_some_iff.mp hyaml)
  | none =>
    cases hyml : removeSuffix? yml (trim isSpace name) with
    | some v => exact hprefix v _ (removeSuffix?_eq_some_iff.mp hyml)
    | none => exact htrim

theorem head?_installedName_ne {c : Char} (hc : isSpace c = true) :
    (installedName name).head? ≠ some c := by
  rw [installedName]
  split_ifs
  · exact head?_recipeStem_ne hc
  · intro h
    have hallowed : slugAllowed c := slugAllowed_of_mem (List.mem_of_mem_head? h)
    rw [not_isSpace_of_slugAllowed hallowed] at hc
    cases hc

/-- The name an install gives a file has nothing to strip. -/
theorem trim_installedFilename : trim isSpace (installedFilename name) = installedFilename name := by
  have hsuffix : installedSuffix name = yml ∨ installedSuffix name = yaml := by
    rw [installedSuffix]
    split_ifs
    · exact .inl rfl
    · exact .inr rfl
  have hdrop : (installedFilename name).dropWhile isSpace = installedFilename name := by
    rw [List.dropWhile_eq_self_iff]
    intro hpos hspace
    cases hstem : installedName name with
    | nil =>
      rcases hsuffix with h | h <;> simp [installedFilename, hstem, h, yml, yaml] at hspace <;>
        exact absurd hspace (by decide)
    | cons c stem =>
      have hhead : (installedName name).head? = some c := by rw [hstem]; rfl
      have hc : isSpace c = true := by simpa [installedFilename, hstem] using hspace
      exact head?_installedName_ne hc hhead
  rw [trim, hdrop, List.rdropWhile_eq_self_iff]
  intro _
  rcases hsuffix with h | h <;> simp [installedFilename, h, yml, yaml] <;> decide

/-- The name an install gives a file has the stem it was given. -/
theorem recipeStem_installedFilename :
    recipeStem (installedFilename name) = installedName name := by
  rw [recipeStem, trim_installedFilename, installedFilename, installedSuffix]
  split_ifs
  · rw [removeSuffix?_yaml_append_yml, removeSuffix?_append]
    rfl
  · rw [removeSuffix?_append]
    rfl

/-- A name that has no slug keeps a stem that has none either. -/
theorem recipeSlug_installedName (h : recipeSlug name = []) :
    recipeSlug (installedName name) = [] := by
  rw [installedName, if_pos h]
  exact slugOf_eq_nil_of_subset h recipeStem_subset

end

end SparkPulse.Recipes
