import SparkPulse.Recipes.Sources
import SparkPulse.Recipes.Sweep

/-!
# Recipe ids

A custom or an installed recipe is resolved in the listing that its id comes from, so nothing else
can have the id. A bundled one is resolved by a path, and many spellings of a path lead to a file
that the listing gives one id, or to a file that is not listed at all. An id that nothing has any
more, because the file was renamed to its slug, goes to the first recipe listed that it names, and
it may name one by what that one calls itself before it names its own.
-/

namespace SparkPulse.Recipes

section
variable {ρ : Type} {fmt : Format ρ} {disk : Disk} {recipeId : Text} {p : Payload ρ}

/-! ## First of a list -/

/-- The first that answers is one of those marked exactly when none before them answers. -/
theorem find?_marked_iff {α : Type} {answer mark : α → Bool} {l : List α} {a : α} (ha : a ∈ l)
    (hmark : mark a) (hanswer : ∀ c ∈ l, mark c → answer c) :
    (∃ c, l.find? answer = some c ∧ mark c) ↔ ∀ c ∈ l.takeWhile fun c ↦ !mark c, ¬answer c := by
  induction l with
  | nil => cases ha
  | cons c l ih =>
    by_cases hc : mark c
    · rw [List.takeWhile_cons_of_neg (by simpa using hc)]
      refine iff_of_true ⟨c, ?_, hc⟩ (by simp)
      exact List.find?_cons_of_pos (hanswer c List.mem_cons_self hc)
    · have ha : a ∈ l := (List.mem_cons.mp ha).resolve_left fun h ↦ hc (h ▸ hmark)
      rw [List.takeWhile_cons_of_pos (by simpa using hc), List.forall_mem_cons]
      by_cases hanswers : answer c
      · rw [List.find?_cons_of_pos hanswers]
        refine iff_of_false ?_ fun h ↦ h.1 hanswers
        rintro ⟨c', hc', hmark'⟩
        exact hc (Option.some.inj hc' ▸ hmark')
      · rw [List.find?_cons_of_neg hanswers,
          ih ha fun c hc ↦ hanswer c (List.mem_cons_of_mem _ hc)]
        exact (and_iff_right hanswers).symm

/-! ## Candidates -/

/-- The candidate can be parsed, and the id names its recipe. -/
def answers (fmt : Format ρ) (disk : Disk) (recipeId : Text) (c : Text × File) : Bool :=
  (parseFile fmt disk c.2).any fun recipe ↦
    c.1 = recipeId ∨ isTheSameRecipe fmt recipeId c.1 recipe

/-- The recipe of a candidate. -/
def payloadOf (fmt : Format ρ) (disk : Disk) (c : Text × File) : Option (Payload ρ) :=
  (parseFile fmt disk c.2).map fun recipe ↦ toPayload fmt recipe c.1 c.2

theorem firstNamed_eq (cs : List (Text × File)) :
    firstNamed fmt disk recipeId cs =
      (cs.find? (answers fmt disk recipeId)).bind (payloadOf fmt disk) := by
  induction cs with
  | nil => rfl
  | cons c cs ih =>
    obtain ⟨candidateId, file⟩ := c
    rw [firstNamed]
    cases hparse : parseFile fmt disk file with
    | none => rw [List.find?_cons_of_neg (by simp [answers, hparse]), ← ih]
    | some recipe =>
      simp only
      split_ifs with hnamed
      · rw [List.find?_cons_of_neg (by simpa [answers, hparse] using hnamed), ← ih]
      · have hanswers : answers fmt disk recipeId (candidateId, file) = true := by
          simp only [answers, hparse, Option.any_some, decide_eq_true_eq]
          tauto
        rw [List.find?_cons_of_pos hanswers, Option.bind_some, payloadOf, hparse, Option.map_some]

theorem mem_payloads_iff :
    p ∈ payloads fmt disk ↔ ∃ c ∈ disk.candidateFiles, payloadOf fmt disk c = some p :=
  List.mem_filterMap

theorem payloadOf_eq_some_iff {c : Text × File} :
    payloadOf fmt disk c = some p ↔
      ∃ recipe, parseFile fmt disk c.2 = some recipe ∧ toPayload fmt recipe c.1 c.2 = p :=
  Option.map_eq_some_iff

/-- A candidate is the first file of all sources with its id. -/
theorem mem_candidateFiles_iff {c : Text × File} :
    c ∈ disk.candidateFiles ↔ disk.sourceFiles.find? (·.1 = c.1) = some c :=
  mem_firstOfEach_iff

end

/-! ## Flat directories -/

/-- The stem of a recipe file. -/
def HasStem (name stem : Text) : Prop := (recipeName? name).map Prod.fst = some stem

instance (name stem : Text) : Decidable (HasStem name stem) :=
  inferInstanceAs (Decidable (_ = _))

/-- The first recipe file with a stem, in the order of names. -/
structure IsFirst (names : List Text) (stem name : Text) : Prop where
  mem : name ∈ names
  hasStem : HasStem name stem
  least : ∀ name' ∈ names, HasStem name' stem → name ≤ name'

section
variable {idPrefix stem stem' name name' : Text} {names : List Text} {file : Text → File}
  {e : Text × File}

theorem HasStem.eq (h : HasStem name stem) (h' : HasStem name stem') : stem = stem' :=
  Option.some.inj (h.symm.trans h')

theorem hasStem_of_recipeName? {suffix : Text} (h : recipeName? name = some (stem, suffix)) :
    HasStem name stem := by
  rw [HasStem, h]
  rfl

theorem IsFirst.eq (h : IsFirst names stem name) (h' : IsFirst names stem name') : name = name' :=
  le_antisymm (h.least name' h'.mem h'.hasStem) (h'.least name h.mem h.hasStem)

theorem mem_flatDirFiles_iff :
    e ∈ Disk.flatDirFiles idPrefix names file ↔
      ∃ name ∈ names, ∃ stem, HasStem name stem ∧ e = (idPrefix ++ stem, file name) := by
  rw [Disk.flatDirFiles, List.mem_filterMap]
  refine exists_congr fun name ↦ and_congr (List.mem_insertionSort _) ?_
  constructor
  · intro h
    obtain ⟨⟨stem, suffix⟩, hname, rfl⟩ := Option.map_eq_some_iff.mp h
    exact ⟨stem, hasStem_of_recipeName? hname, rfl⟩
  · rintro ⟨stem, hstem, rfl⟩
    obtain ⟨⟨stem, suffix⟩, hname, rfl⟩ := Option.map_eq_some_iff.mp hstem
    rw [hname]
    rfl

/-- What the listing of a flat directory gives an id to is the first file with the stem. -/
theorem find?_flatDirFiles_iff :
    (Disk.flatDirFiles idPrefix names file).find? (·.1 = idPrefix ++ stem) = some e ↔
      ∃ name, IsFirst names stem name ∧ e = (idPrefix ++ stem, file name) := by
  have hstem : ∀ name, (((recipeName? name).map fun e ↦ (idPrefix ++ e.1, file name)).any
      fun e : Text × File ↦ decide (e.1 = idPrefix ++ stem)) = true ↔ HasStem name stem := by
    intro name
    rw [HasStem]
    cases recipeName? name with
    | none => simp
    | some e => simp
  rw [Disk.flatDirFiles, List.find?_filterMap, Option.bind_eq_some_iff]
  refine exists_congr fun name ↦ ?_
  rw [find?_insertionSort_iff, hstem]
  constructor
  · rintro ⟨⟨hmem, hname, hleast⟩, he⟩
    refine ⟨⟨hmem, hname, fun b hb hb' ↦ hleast b hb ((hstem b).mpr hb')⟩, ?_⟩
    obtain ⟨⟨stem', suffix⟩, hname', rfl⟩ := Option.map_eq_some_iff.mp he
    rw [hname.eq (hasStem_of_recipeName? hname')]
  · rintro ⟨⟨hmem, hname, hleast⟩, rfl⟩
    refine ⟨⟨hmem, hname, fun b hb hb' ↦ hleast b hb ((hstem b).mp hb')⟩, ?_⟩
    obtain ⟨⟨stem', suffix⟩, hname', rfl⟩ := Option.map_eq_some_iff.mp hname
    rw [hname']
    rfl

end

/-! ## The sources of an id -/

section
variable {disk : Disk} {recipeId stem : Text} {c : Text × File}

theorem customFiles_prefix (h : c ∈ disk.customFiles) : customPrefix <+: c.1 := by
  obtain ⟨name, -, stem, -, rfl⟩ := mem_flatDirFiles_iff.mp h
  exact List.prefix_append _ _

theorem ociFiles_prefix (h : c ∈ disk.ociFiles) : ociPrefix <+: c.1 := by
  obtain ⟨name, -, stem, -, rfl⟩ := mem_flatDirFiles_iff.mp h
  exact List.prefix_append _ _

/-- An id has at most one of the prefixes. -/
theorem prefix_disjoint {a b : Text} (hab : ¬a <+: b) (hba : ¬b <+: a) (ha : a <+: recipeId) :
    ¬b <+: recipeId :=
  fun hb ↦ (List.prefix_or_prefix_of_prefix ha hb).elim hab hba

/-- Files whose ids have another prefix are passed over. -/
theorem find?_eq_none_of_foreign {idPrefix : Text} {files : List (Text × File)}
    (hfiles : ∀ c ∈ files, idPrefix <+: c.1) (h : ¬idPrefix <+: recipeId) :
    files.find? (·.1 = recipeId) = none := by
  rw [List.find?_eq_none]
  intro c hc heq
  exact h (by simpa using (of_decide_eq_true heq) ▸ hfiles c hc)

theorem find?_customFiles_eq_none (h : ¬customPrefix <+: recipeId) :
    disk.customFiles.find? (·.1 = recipeId) = none :=
  find?_eq_none_of_foreign (fun _ ↦ customFiles_prefix) h

theorem find?_ociFiles_eq_none (h : ¬ociPrefix <+: recipeId) :
    disk.ociFiles.find? (·.1 = recipeId) = none :=
  find?_eq_none_of_foreign (fun _ ↦ ociFiles_prefix) h

/-- A bundled id is one of a bundled file. -/
theorem find?_sourceFiles_of_bundled (h : bundledPrefix <+: recipeId) :
    disk.sourceFiles.find? (·.1 = recipeId) =
      (disk.bundledRecipeFiles.find? (bundledRecipeId · = recipeId)).map
        fun path ↦ (bundledRecipeId path, .bundled path) := by
  have hcustom : ¬customPrefix <+: recipeId := prefix_disjoint (by decide) (by decide) h
  have hoci : ¬ociPrefix <+: recipeId := prefix_disjoint (by decide) (by decide) h
  rw [Disk.sourceFiles, List.find?_append, List.find?_append, find?_customFiles_eq_none hcustom,
    find?_ociFiles_eq_none hoci, List.find?_map, Option.or_none, Option.or_none]
  rfl

/-- Any other id is looked up where the listing has it from. -/
theorem named_of_not_bundled (h : ¬bundledPrefix <+: recipeId) :
    named disk recipeId = (disk.sourceFiles.find? (·.1 = recipeId)).map Prod.snd := by
  have hbundled : (disk.bundledRecipeFiles.map fun path ↦
      (bundledRecipeId path, File.bundled path)).find? (·.1 = recipeId) = none := by
    refine find?_eq_none_of_foreign (fun c hc ↦ ?_) h
    obtain ⟨path, -, rfl⟩ := List.mem_map.mp hc
    exact List.prefix_append _ _
  have hcustom : (if customPrefix <+: recipeId then disk.customFiles else []).find?
      (·.1 = recipeId) = disk.customFiles.find? (·.1 = recipeId) := by
    split_ifs with hprefix
    · rfl
    · rw [find?_customFiles_eq_none hprefix]
      rfl
  have hoci : (if ociPrefix <+: recipeId then disk.ociFiles else []).find?
      (·.1 = recipeId) = disk.ociFiles.find? (·.1 = recipeId) := by
    split_ifs with hprefix
    · rfl
    · rw [find?_ociFiles_eq_none hprefix]
      rfl
  rw [named, if_neg h, List.find?_append, hcustom, hoci, Disk.sourceFiles, List.find?_append,
    List.find?_append, hbundled, Option.none_or]

/-- What an installed recipe's id is looked up as. -/
theorem find?_sourceFiles_of_oci :
    disk.sourceFiles.find? (·.1 = ociPrefix ++ stem) =
      disk.ociFiles.find? (·.1 = ociPrefix ++ stem) := by
  have hprefix : ociPrefix <+: ociPrefix ++ stem := List.prefix_append _ _
  have hbundled : (disk.bundledRecipeFiles.map fun path ↦
      (bundledRecipeId path, File.bundled path)).find? (·.1 = ociPrefix ++ stem) = none := by
    have hbundled : ¬bundledPrefix <+: ociPrefix ++ stem :=
      prefix_disjoint (by decide) (by decide) hprefix
    refine find?_eq_none_of_foreign (fun c hc ↦ ?_) hbundled
    obtain ⟨path, -, rfl⟩ := List.mem_map.mp hc
    exact List.prefix_append _ _
  have hcustom : ¬customPrefix <+: ociPrefix ++ stem :=
    prefix_disjoint (by decide) (by decide) hprefix
  rw [Disk.sourceFiles, List.find?_append, List.find?_append, hbundled,
    find?_customFiles_eq_none hcustom, Option.none_or, Option.none_or]

end

/-! ## Bundled paths -/

section
variable {disk : Disk} {path init : List Text} {stem suffix recipeId : Text} {content : Text}

/-- Something that is put after a path is put after its last part. -/
theorem asPosix_concat_append (init : List Text) (last ext : Text) :
    asPosix (init ++ [last]) ++ ext = asPosix (init ++ [last ++ ext]) := by
  induction init with
  | nil => simp [asPosix, List.intercalate_singleton]
  | cons part init ih =>
    have hne : ∀ last : Text, init ++ [last] ≠ [] := by simp
    simp only [asPosix, List.cons_append] at ih ⊢
    rw [List.intercalate_cons_of_ne_nil (hne _), List.intercalate_cons_of_ne_nil (hne _), ← ih]
    simp

theorem head?_asPosix_ne (hpath : ∀ part ∈ path, IsPart part) :
    (asPosix path).head? ≠ some '/' := by
  cases path with
  | nil => simp [asPosix]
  | cons part rest =>
    obtain ⟨hne, -, -, hslash⟩ := hpath part List.mem_cons_self
    obtain ⟨c, part, rfl⟩ := List.exists_cons_of_ne_nil hne
    have hc : c ≠ '/' := fun h ↦ hslash (h ▸ List.mem_cons_self)
    rw [asPosix, List.intercalate_cons_cons_left, List.head?_cons]
    exact fun h ↦ hc (Option.some.inj h)

/-- A path that is spelled as the listing spells it leads to itself. -/
theorem joined_asPosix (hne : path ≠ []) (hpath : ∀ part ∈ path, IsPart part) :
    joined disk (asPosix path) = (disk.read (.bundled path)).map fun _ ↦ .bundled path := by
  have hsplit : (asPosix path).splitOn '/' = path :=
    List.splitOn_intercalate '/' (fun part hpart ↦ (hpath part hpart).2.2.2) hne
  have hparts : (path.filter fun part ↦ part ≠ [] ∧ part ≠ ".".toList) = path := by
    refine List.filter_eq_self.mpr fun part hpart ↦ ?_
    simpa using ⟨(hpath part hpart).1, (hpath part hpart).2.1⟩
  have hinside : ¬((asPosix path).head? = some '/' ∨ "..".toList ∈ path) :=
    not_or.mpr ⟨head?_asPosix_ne hpath, fun h ↦ (hpath _ h).2.2.1 rfl⟩
  rw [joined, hsplit]
  simp only [hparts]
  rw [if_neg hinside]

/-- A name that is no more than an extension, which `with_suffix` leaves. -/
def IsHidden (path : List Text) : Prop := path.getLastD [] = yaml ∨ path.getLastD [] = yml

instance : DecidablePred IsHidden := fun _ ↦ inferInstanceAs (Decidable (_ ∨ _))

/-- A stem with an extension is a name in a directory. -/
theorem isPart_append {ext : Text} (hstem : stem ≠ []) (hslash : '/' ∉ stem)
    (hext : ext = yaml ∨ ext = yml) : IsPart (stem ++ ext) := by
  have hlength : 4 ≤ ext.length := by rcases hext with rfl | rfl <;> decide
  have hpos := List.length_pos_iff.mpr hstem
  have hne : ∀ part : Text, part.length ≤ 2 → stem ++ ext ≠ part := by
    rintro part hpart rfl
    rw [List.length_append] at hpart
    omega
  refine ⟨hne _ (by decide), hne _ (by decide), hne _ (by decide), fun h ↦ ?_⟩
  rcases List.mem_append.mp h with h | h
  · exact hslash h
  · rcases hext with rfl | rfl <;> exact absurd h (by decide)

/-- The name of a bundled file that is not hidden. -/
theorem exists_stem (hpath : path ≠ []) (hlast : yaml <:+ path.getLastD [] ∨ yml <:+ path.getLastD [])
    (hhidden : ¬IsHidden path) :
    ∃ init stem ext, path = init ++ [stem ++ ext] ∧ stem ≠ [] ∧ (ext = yaml ∨ ext = yml) := by
  obtain ⟨init, last, rfl⟩ : ∃ init last, path = init ++ [last] :=
    ⟨_, _, (List.dropLast_append_getLast hpath).symm⟩
  rw [List.getLastD_concat] at hlast
  obtain ⟨hyaml, hyml⟩ := not_or.mp hhidden
  rw [List.getLastD_concat] at hyaml hyml
  rcases hlast with ⟨stem, rfl⟩ | ⟨stem, rfl⟩
  · exact ⟨init, stem, yaml, rfl, fun h ↦ hyaml (by rw [h, List.nil_append]), .inl rfl⟩
  · exact ⟨init, stem, yml, rfl, fun h ↦ hyml (by rw [h, List.nil_append]), .inr rfl⟩

/-- The id of a bundled file is its path up to the extension. -/
theorem bundledRecipeId_concat (hstem : stem ≠ []) (hext : IsExtension suffix) :
    bundledRecipeId (init ++ [stem ++ suffix]) = bundledPrefix ++ asPosix (init ++ [stem]) := by
  rw [bundledRecipeId, withoutSuffix, List.getLastD_concat, List.dropLast_concat,
    splitSuffix_append hstem hext]

/-- Where the path of a bundled id leads. -/
theorem named_bundled (hinit : ∀ part ∈ init, IsPart part) (hstem : stem ≠ [])
    (hslash : '/' ∉ stem) :
    named disk (bundledPrefix ++ asPosix (init ++ [stem])) =
      (((disk.read (.bundled (init ++ [stem ++ yaml]))).map
          fun _ ↦ .bundled (init ++ [stem ++ yaml])) <|>
        ((disk.read (.bundled (init ++ [stem ++ yml]))).map
          fun _ ↦ .bundled (init ++ [stem ++ yml]))) := by
  have hjoined : ∀ ext, ext = yaml ∨ ext = yml → joined disk (asPosix (init ++ [stem]) ++ ext) =
      (disk.read (.bundled (init ++ [stem ++ ext]))).map
        fun _ ↦ .bundled (init ++ [stem ++ ext]) := by
    intro ext hext
    rw [asPosix_concat_append, joined_asPosix (by simp)]
    intro part hpart
    rcases List.mem_append.mp hpart with hpart | hpart
    · exact hinit part hpart
    · rw [List.mem_singleton.mp hpart]
      exact isPart_append hstem hslash hext
  rw [named, if_pos (List.prefix_append _ _), List.drop_left]
  simp only [hjoined _ (.inl rfl), hjoined _ (.inr rfl)]

/-- A bundled file that is not hidden is what its id names. -/
theorem named_of_find?_bundledRecipeFiles
    (hfind : disk.bundledRecipeFiles.find? (bundledRecipeId · = recipeId) = some path)
    (hread : disk.read (.bundled path) = some content) (hhidden : ¬IsHidden path) :
    named disk recipeId = some (.bundled path) := by
  obtain ⟨hmem, hfound, hleast⟩ := least_of_find?_insertionSort hfind
  obtain rfl : bundledRecipeId path = recipeId := of_decide_eq_true hfound
  obtain ⟨hkeys, hlast⟩ := List.mem_filter.mp hmem
  obtain ⟨hne, hparts⟩ := disk.bundled_parts path hkeys
  obtain ⟨init, stem, ext, rfl, hstem, hext⟩ :=
    exists_stem hne (of_decide_eq_true hlast) hhidden
  have hslash : '/' ∉ stem := fun h ↦
    (hparts (stem ++ ext) (by simp)).2.2.2 (List.mem_append_left _ h)
  have hinit : ∀ part ∈ init, IsPart part := fun part hpart ↦
    hparts part (List.mem_append_left _ hpart)
  rcases hext with rfl | rfl
  · rw [bundledRecipeId_concat hstem isExtension_yaml, named_bundled hinit hstem hslash, hread]
    rfl
  · -- What is called `.yaml` comes first, and would have the id.
    have hnone : disk.read (.bundled (init ++ [stem ++ yaml])) = none := by
      by_contra hread'
      have hkey : init ++ [stem ++ yaml] ∈ disk.bundled.keys := by
        rw [← AList.mem_keys, ← AList.lookup_isSome, Option.isSome_iff_ne_none]
        intro hlookup
        rw [Disk.read, hlookup] at hread'
        exact hread' rfl
      have hlt : init ++ [stem ++ yaml] < init ++ [stem ++ yml] := by
        refine List.append_left_lt (List.cons_lt_cons_iff.mpr (.inl (List.append_left_lt ?_)))
        decide
      refine absurd (hleast _ (List.mem_filter.mpr ⟨hkey, ?_⟩) ?_) (not_le.mpr hlt)
      · simp
      · simp only [bundledRecipeId_concat hstem isExtension_yaml,
          bundledRecipeId_concat hstem isExtension_yml, decide_true]
    rw [bundledRecipeId_concat hstem isExtension_yml, named_bundled hinit hstem hslash, hnone,
      hread]
    rfl

/-- No id leads to a hidden file by its path. -/
theorem named_ne_of_isHidden (hpath : path ∈ disk.bundled.keys) (hhidden : IsHidden path) :
    named disk (bundledRecipeId path) ≠ some (.bundled path) := by
  obtain ⟨hne, hparts⟩ := disk.bundled_parts path hpath
  obtain ⟨init, last, rfl⟩ : ∃ init last, path = init ++ [last] :=
    ⟨_, _, (List.dropLast_append_getLast hne).symm⟩
  obtain ⟨hlast, -, -, hslash⟩ := hparts last (by simp)
  rw [IsHidden, List.getLastD_concat] at hhidden
  have hid : bundledRecipeId (init ++ [last]) = bundledPrefix ++ asPosix (init ++ [last]) := by
    have hsplit : (splitSuffix last).1 = last := by rcases hhidden with rfl | rfl <;> decide
    rw [bundledRecipeId, withoutSuffix, List.getLastD_concat, List.dropLast_concat, hsplit]
  rw [hid, named_bundled (fun part hpart ↦ hparts part (List.mem_append_left _ hpart)) hlast hslash]
  have hlonger : ∀ ext : Text, ext ≠ [] → init ++ [last ++ ext] ≠ init ++ [last] := by simp
  intro h
  simp only [Option.orElse_eq_orElse, Option.orElse_eq_or] at h
  rcases Option.or_eq_some_iff.mp h with h | ⟨-, h⟩
  · obtain ⟨-, -, heq⟩ := Option.map_eq_some_iff.mp h
    exact hlonger yaml (by decide) (File.bundled.inj heq)
  · obtain ⟨-, -, heq⟩ := Option.map_eq_some_iff.mp h
    exact hlonger yml (by decide) (File.bundled.inj heq)

end

/-! ## Installed recipes in the sweep -/

section
variable {disk : Disk} {stem name : Text} {file : File} {r : Rename}

theorem mem_candidateFiles_oci_iff {c : Text × File} (hc : c.1 = ociPrefix ++ stem) :
    c ∈ disk.candidateFiles ↔
      ∃ name, IsFirst disk.recipes.files.keys stem name ∧ c.2 = .installed name := by
  rw [mem_candidateFiles_iff, hc, find?_sourceFiles_of_oci, Disk.ociFiles, find?_flatDirFiles_iff]
  refine exists_congr fun name ↦ and_congr_right fun _ ↦ ?_
  rw [Prod.ext_iff]
  exact and_iff_right hc

/-- An installed recipe's id names the first file with the stem. -/
theorem named_oci_eq_some_iff :
    named disk (ociPrefix ++ stem) = some file ↔
      ∃ name, IsFirst disk.recipes.files.keys stem name ∧ file = .installed name := by
  have hoci : ¬bundledPrefix <+: ociPrefix ++ stem :=
    prefix_disjoint (by decide) (by decide) (List.prefix_append _ _)
  rw [named_of_not_bundled hoci, find?_sourceFiles_of_oci, Option.map_eq_some_iff]
  constructor
  · rintro ⟨c, hc, rfl⟩
    obtain ⟨name, hname, rfl⟩ := find?_flatDirFiles_iff.mp hc
    exact ⟨name, hname, rfl⟩
  · rintro ⟨name, hname, rfl⟩
    exact ⟨_, find?_flatDirFiles_iff.mpr ⟨name, hname, rfl⟩, rfl⟩

theorem named_oci_eq_none_iff :
    named disk (ociPrefix ++ stem) = none ↔ ∀ name ∈ disk.recipes.files, ¬HasStem name stem := by
  have hoci : ¬bundledPrefix <+: ociPrefix ++ stem :=
    prefix_disjoint (by decide) (by decide) (List.prefix_append _ _)
  rw [named_of_not_bundled hoci, find?_sourceFiles_of_oci, Option.map_eq_none_iff,
    List.find?_eq_none]
  constructor
  · intro h name hname hstem
    have hmem : (ociPrefix ++ stem, File.installed name) ∈ disk.ociFiles :=
      mem_flatDirFiles_iff.mpr ⟨name, AList.mem_keys.mp hname, stem, hstem, rfl⟩
    exact h _ hmem (by simp)
  · intro h c hc hid
    obtain ⟨name, hname, stem', hstem, rfl⟩ := mem_flatDirFiles_iff.mp hc
    have hid : ociPrefix ++ stem' = ociPrefix ++ stem := of_decide_eq_true hid
    exact h name (AList.mem_keys.mpr hname) (List.append_cancel_left hid ▸ hstem)

/-- What is renamed is the first file of its stem. -/
theorem isFirst_of_mem_renames (h : r ∈ disk.recipes.renames) :
    IsFirst disk.recipes.files.keys r.stem r.file := by
  have hmem := (List.mem_insertionSort _).mp (of_mem_renamesOf h).1
  rw [Directory.installedStems, mem_firstOfEach_iff, List.find?_filterMap,
    Option.bind_eq_some_iff] at hmem
  obtain ⟨name, hfind, hname⟩ := hmem
  obtain ⟨hkeys, -, hleast⟩ := least_of_find?_insertionSort hfind
  obtain rfl : name = r.file := (recipeName?_eq_some_iff.mp hname).1
  refine ⟨hkeys, hasStem_of_recipeName? hname, fun name' hmem' hstem ↦ hleast name' hmem' ?_⟩
  obtain ⟨e, he, hstem⟩ := Option.map_eq_some_iff.mp hstem
  rw [he]
  simpa using hstem

namespace Directory.Movable

variable {d : Directory}

theorem hasStem_file (h : d.Movable r) : HasStem r.file r.stem := hasStem_of_recipeName? h.file

theorem hasStem_target (h : d.Movable r) : HasStem r.target r.slug :=
  hasStem_of_recipeName? h.target

/-- No recipe file has the slug. -/
theorem not_hasStem_slug (h : d.Movable r) (hname : name ∈ d.files) : ¬HasStem name r.slug := by
  intro hstem
  obtain ⟨⟨stem, suffix⟩, hname', rfl⟩ := Option.map_eq_some_iff.mp hstem
  exact h.free (mem_stems hname hname')

end Directory.Movable

/-- A sweep gives a slug to one file only. -/
theorem eq_of_slug {d : Directory} {r' : Rename} (h : r ∈ d.renames) (h' : r' ∈ d.renames)
    (hslug : r.slug = r'.slug) : r = r' := by
  by_contra hne
  have : Std.Symm fun r r' : Rename ↦ r.slug ≠ r'.slug ∧ r.stem ≠ r'.stem :=
    ⟨fun _ _ h ↦ ⟨h.1.symm, h.2.symm⟩⟩
  exact (Directory.pairwise_renames.forall h h' hne).1 hslug

/-- A renamed file is the only one of its slug after the sweep. -/
theorem isFirst_target (h : r ∈ disk.recipes.renames) :
    IsFirst disk.settle.recipes.files.keys r.slug r.target := by
  have hr := Directory.movable_of_mem_renames h
  refine ⟨AList.mem_keys.mp (Directory.mem_normalize_of_mem_renames h), hr.hasStem_target,
    fun name hname hstem ↦ ?_⟩
  rcases Directory.mem_normalize_iff.mp (AList.mem_keys.mpr hname) with ⟨r', hr', rfl⟩ | ⟨hmem, -⟩
  · have hslug := (Directory.movable_of_mem_renames hr').hasStem_target.eq hstem
    rw [eq_of_slug hr' h hslug]
  · exact (hr.not_hasStem_slug hmem hstem).elim

/-- A file that is not renamed stays the first of its stem. -/
theorem IsFirst.settle (h : IsFirst disk.recipes.files.keys stem name)
    (hunmoved : ∀ r ∈ disk.recipes.renames, r.file ≠ name) :
    IsFirst disk.settle.recipes.files.keys stem name := by
  have hmem := AList.mem_keys.mpr h.mem
  refine ⟨AList.mem_keys.mp (Directory.mem_normalize_iff.mpr
    (.inr ⟨hmem, fun r hr heq ↦ hunmoved r hr heq.symm⟩)), h.hasStem, fun name' hname hstem ↦ ?_⟩
  rcases Directory.mem_normalize_iff.mp (AList.mem_keys.mpr hname) with ⟨r, hr, rfl⟩ | ⟨hmem', -⟩
  · -- The slug of a rename was nobody's stem.
    have hr := Directory.movable_of_mem_renames hr
    exact (hr.not_hasStem_slug hmem (hstem.eq hr.hasStem_target ▸ h.hasStem)).elim
  · exact h.least name' (AList.mem_keys.mp hmem') hstem

/-- After the sweep the stem of a renamed file is that of the files that shared it. -/
theorem exists_hasStem_settle_iff (h : r ∈ disk.recipes.renames) :
    (∃ name ∈ disk.settle.recipes.files, HasStem name r.stem) ↔
      ∃ name ∈ disk.recipes.files, HasStem name r.stem ∧ name ≠ r.file := by
  have hr := Directory.movable_of_mem_renames h
  constructor
  · rintro ⟨name, hname, hstem⟩
    rcases Directory.mem_normalize_iff.mp hname with ⟨r', hr', rfl⟩ | ⟨hmem, hunmoved⟩
    · have hr' := Directory.movable_of_mem_renames hr'
      exact (hr'.not_hasStem_slug hr.present
        (hstem.eq hr'.hasStem_target ▸ hr.hasStem_file)).elim
    · exact ⟨name, hmem, hstem, hunmoved r h⟩
  · rintro ⟨name, hmem, hstem, hne⟩
    refine ⟨name, Directory.mem_normalize_iff.mpr (.inr ⟨hmem, fun r' hr' heq ↦ ?_⟩), hstem⟩
    -- Of one stem only one file is renamed.
    have hstem' : r'.stem = r.stem :=
      (heq ▸ (Directory.movable_of_mem_renames hr').hasStem_file).eq hstem
    have hfirst := isFirst_of_mem_renames hr'
    rw [hstem'] at hfirst
    exact hne (heq.trans (hfirst.eq (isFirst_of_mem_renames h)))

end

/-! ## What an id leads to -/

namespace Disk

/-- Where the sweep moves a file. -/
def movedTo (disk : Disk) : File → File
  | .installed name =>
    match disk.recipes.renames.find? (·.file = name) with
    | some r => .installed r.target
    | none => .installed name
  | file => file

end Disk

section
variable {ρ : Type} (fmt : Format ρ) (disk : Disk) (recipeId : Text)

/-- The id resolves to a recipe and the file that it was read from. -/
def ResolvesTo (recipe : ρ) (file : File) : Prop :=
  ∃ p, resolveRecipe fmt disk recipeId = some p ∧ p.recipe = recipe ∧ p.file = file

/-- No candidate before those from the file answers to the id. -/
def NotCaptured (file : File) : Prop :=
  ∀ c ∈ disk.candidateFiles.takeWhile fun c ↦ !decide (c.2 = file), ¬answers fmt disk recipeId c

instance (file : File) : Decidable (NotCaptured fmt disk recipeId file) :=
  inferInstanceAs (Decidable (∀ c ∈ _, _))

end

section
variable {ρ : Type} {fmt : Format ρ} {disk : Disk} {recipeId : Text} {p : Payload ρ} {recipe : ρ}
  {file file' : File}

theorem Disk.settle_settle (h : disk.recipes.normalize.renames = []) :
    disk.settle.settle = disk.settle := by
  simp only [Disk.settle]
  rw [Directory.normalize, h, List.foldl_nil]

/-- What is not installed stays what it is. -/
theorem parseFile_settle (h : ∀ name, file ≠ .installed name) :
    parseFile fmt disk.settle file = parseFile fmt disk file := by
  cases file with
  | installed name => exact (h name rfl).elim
  | bundled path => rfl
  | outside path => rfl
  | custom name => rfl

theorem named_settle_of_bundled (h : bundledPrefix <+: recipeId) :
    named disk.settle recipeId = named disk recipeId := by
  rw [named, named, if_pos h, if_pos h]
  rfl

/-- A path leads to no installed recipe. -/
theorem ne_installed_of_named (h : bundledPrefix <+: recipeId)
    (hnamed : named disk recipeId = some file) (name : Text) : file ≠ .installed name := by
  have hjoined : ∀ path, joined disk path = some file → file ≠ .installed name := by
    intro path hpath
    rw [joined] at hpath
    split_ifs at hpath
    · obtain ⟨-, -, rfl⟩ := Option.map_eq_some_iff.mp hpath
      exact nofun
    · obtain ⟨-, -, rfl⟩ := Option.map_eq_some_iff.mp hpath
      exact nofun
  rw [named, if_pos h] at hnamed
  simp only [Option.orElse_eq_orElse, Option.orElse_eq_or] at hnamed
  rcases Option.or_eq_some_iff.mp hnamed with hpath | ⟨-, hpath⟩
  · exact hjoined _ hpath
  · exact hjoined _ hpath

/-- A file that the id names is read, whatever is in it. -/
theorem resolveRecipe_of_named (h : named disk.settle recipeId = some file) :
    resolveRecipe fmt disk recipeId = payloadOf fmt disk.settle (recipeId, file) := by
  rw [resolveRecipe, h]
  simp only
  rw [firstNamed_eq]
  cases hparse : parseFile fmt disk.settle file with
  | none => simp [answers, payloadOf, hparse]
  | some recipe => simp [answers, payloadOf, hparse]

/-- An id that names no file is looked up among all of them. -/
theorem resolveRecipe_of_not_named (hsettled : disk.recipes.normalize.renames = []) (hne : recipeId ≠ [])
    (h : named disk.settle recipeId = none) :
    resolveRecipe fmt disk recipeId =
      (disk.settle.candidateFiles.find? (answers fmt disk.settle recipeId)).bind
        (payloadOf fmt disk.settle) := by
  rw [resolveRecipe, h, Disk.settle_settle hsettled]
  simp only
  rw [if_neg hne, firstNamed_eq]

theorem resolveRecipe_settle (h : disk.recipes.normalize.renames = []) :
    resolveRecipe fmt disk.settle recipeId = resolveRecipe fmt disk recipeId := by
  simp only [resolveRecipe, Disk.settle_settle h]

theorem resolvesTo_iff_of_named (h : named disk.settle recipeId = some file')
    (hparse : parseFile fmt disk.settle file = some recipe) :
    ResolvesTo fmt disk recipeId recipe file ↔ file' = file := by
  rw [ResolvesTo, resolveRecipe_of_named h]
  constructor
  · rintro ⟨p, hp, -, rfl⟩
    obtain ⟨recipe, -, rfl⟩ := payloadOf_eq_some_iff.mp hp
    rfl
  · rintro rfl
    exact ⟨_, payloadOf_eq_some_iff.mpr ⟨recipe, hparse, rfl⟩, rfl, rfl⟩

theorem resolvesTo_iff_of_not_named (hsettled : disk.recipes.normalize.renames = []) (hne : recipeId ≠ [])
    (h : named disk.settle recipeId = none) (hparse : parseFile fmt disk.settle file = some recipe)
    {candidateId : Text} (hmem : (candidateId, file) ∈ disk.settle.candidateFiles)
    (hanswers : ∀ c ∈ disk.settle.candidateFiles, c.2 = file →
      answers fmt disk.settle recipeId c) :
    ResolvesTo fmt disk recipeId recipe file ↔ NotCaptured fmt disk.settle recipeId file := by
  rw [ResolvesTo, resolveRecipe_of_not_named hsettled hne h, NotCaptured,
    ← find?_marked_iff hmem (decide_eq_true rfl) fun c hc hmark ↦
      hanswers c hc (of_decide_eq_true hmark)]
  constructor
  · rintro ⟨p, hp, -, rfl⟩
    obtain ⟨c, hc, hp⟩ := Option.bind_eq_some_iff.mp hp
    obtain ⟨recipe, -, rfl⟩ := payloadOf_eq_some_iff.mp hp
    exact ⟨c, hc, decide_eq_true rfl⟩
  · rintro ⟨c, hc, hmark⟩
    obtain rfl : c.2 = file := of_decide_eq_true hmark
    refine ⟨toPayload fmt recipe c.1 c.2, ?_, rfl, rfl⟩
    rw [hc, Option.bind_some]
    exact payloadOf_eq_some_iff.mpr ⟨recipe, hparse, rfl⟩

end

/-! ## Identity -/

section
variable {ρ : Type} (fmt : Format ρ) (disk : Disk) (recipeId : Text)

/-- What the id of a recipe is for. -/
structure Identifies : Prop where
  /-- What is listed under the id is what it resolves to. -/
  listed : ∀ p ∈ iterRecipePayloads fmt disk, p.id = recipeId →
    ResolvesTo fmt disk.settle recipeId p.recipe p.file
  /-- What it resolves to is listed, under the id that the answer has. -/
  known : ∀ p, resolveRecipe fmt disk recipeId = some p → p ∈ iterRecipePayloads fmt disk
  /-- What was listed under it before the sweep is what it still resolves to. -/
  survives : ∀ p ∈ payloads fmt disk, p.id = recipeId →
    ResolvesTo fmt disk recipeId p.recipe (disk.movedTo p.file)

/-- When nothing else can be taken for what the id names. -/
structure Unambiguous : Prop where
  /-- One sweep is enough. -/
  settled : disk.recipes.normalize.renames = []
  /-- The path leads to the file that the listing gives the id, or to no recipe. -/
  path : bundledPrefix <+: recipeId → ∀ file, named disk recipeId = some file →
    (parseFile fmt disk file).isSome → ∃ path, file = .bundled path ∧
      disk.bundledRecipeFiles.find? (bundledRecipeId · = recipeId) = some path
  /-- A file whose name is no more than an extension, which the path never leads to. -/
  hidden : ∀ path, disk.bundledRecipeFiles.find? (bundledRecipeId · = recipeId) = some path →
    IsHidden path → (parseFile fmt disk (.bundled path)).isSome →
      named disk recipeId = none ∧ NotCaptured fmt disk.settle recipeId (.bundled path)
  /-- A file that is renamed leaves its id to no other file of the stem, and no recipe before it
  answers to the id. -/
  renamed : ∀ r ∈ disk.recipes.renames, recipeId = ociPrefix ++ r.stem →
    (parseFile fmt disk (.installed r.file)).isSome →
      (∀ name ∈ disk.recipes.files, HasStem name r.stem → name = r.file) ∧
        NotCaptured fmt disk.settle recipeId (.installed r.target)

end

section
variable {ρ : Type} {fmt : Format ρ} {disk : Disk} {recipeId : Text} {p : Payload ρ} {recipe : ρ}
  {file : File} {path : List Text} {r : Rename}

theorem mem_payloads_of_mem (hc : (recipeId, file) ∈ disk.candidateFiles)
    (hparse : parseFile fmt disk file = some recipe) :
    toPayload fmt recipe recipeId file ∈ payloads fmt disk :=
  mem_payloads_iff.mpr ⟨_, hc, payloadOf_eq_some_iff.mpr ⟨recipe, hparse, rfl⟩⟩

theorem of_mem_payloads (hp : p ∈ payloads fmt disk) :
    (p.id, p.file) ∈ disk.candidateFiles ∧ parseFile fmt disk p.file = some p.recipe ∧
      p = toPayload fmt p.recipe p.id p.file := by
  obtain ⟨c, hc, hp⟩ := mem_payloads_iff.mp hp
  obtain ⟨recipe, hparse, rfl⟩ := payloadOf_eq_some_iff.mp hp
  exact ⟨hc, hparse, rfl⟩

/-- The candidate with a bundled id is the first bundled file with it. -/
theorem mem_candidateFiles_of_bundled (h : bundledPrefix <+: recipeId) :
    (recipeId, file) ∈ disk.candidateFiles ↔ ∃ path, file = .bundled path ∧
      disk.bundledRecipeFiles.find? (bundledRecipeId · = recipeId) = some path := by
  rw [mem_candidateFiles_iff, find?_sourceFiles_of_bundled h, Option.map_eq_some_iff]
  refine exists_congr fun path ↦ ?_
  constructor
  · rintro ⟨hfind, heq⟩
    exact ⟨(Prod.mk.inj heq).2.symm, hfind⟩
  · rintro ⟨rfl, hfind⟩
    have hid : bundledRecipeId path = recipeId := by simpa using List.find?_some hfind
    exact ⟨hfind, by rw [hid]⟩

/-- Any other id names the candidate with it. -/
theorem mem_candidateFiles_of_not_bundled (h : ¬bundledPrefix <+: recipeId) :
    (recipeId, file) ∈ disk.candidateFiles ↔ named disk recipeId = some file := by
  rw [mem_candidateFiles_iff, named_of_not_bundled h, Option.map_eq_some_iff]
  constructor
  · exact fun hfind ↦ ⟨_, hfind, rfl⟩
  · rintro ⟨⟨id, file⟩, hfind, rfl⟩
    have hid : id = recipeId := by simpa using List.find?_some hfind
    rw [hfind, hid]

/-- A bundled file is a candidate under its own id only. -/
theorem id_of_mem_candidateFiles_bundled {c : Text × File} (hc : c ∈ disk.candidateFiles)
    (hfile : c.2 = .bundled path) : c.1 = bundledRecipeId path := by
  rcases List.mem_append.mp (mem_of_mem_firstOfEach hc) with hc | hc
  · rcases List.mem_append.mp hc with hc | hc
    · obtain ⟨path', -, rfl⟩ := List.mem_map.mp hc
      rw [File.bundled.inj hfile]
    · obtain ⟨name, -, stem, -, rfl⟩ := mem_flatDirFiles_iff.mp hc
      cases hfile
  · obtain ⟨name, -, stem, -, rfl⟩ := mem_flatDirFiles_iff.mp hc
    cases hfile

theorem id_of_mem_candidateFiles_installed {c : Text × File} {name stem : Text}
    (hc : c ∈ disk.candidateFiles) (hfile : c.2 = .installed name) (hstem : HasStem name stem) :
    c.1 = ociPrefix ++ stem := by
  rcases List.mem_append.mp (mem_of_mem_firstOfEach hc) with hc | hc
  · rcases List.mem_append.mp hc with hc | hc
    · obtain ⟨path', -, rfl⟩ := List.mem_map.mp hc
      cases hfile
    · obtain ⟨name, -, stem, -, rfl⟩ := mem_flatDirFiles_iff.mp hc
      cases hfile
  · obtain ⟨name', -, stem', hstem', rfl⟩ := mem_flatDirFiles_iff.mp hc
    obtain rfl := File.installed.inj hfile
    rw [hstem'.eq hstem]

/-- A hidden file is found by looking through the recipes, if at all. -/
theorem resolvesTo_hidden_iff (hsettled : disk.recipes.normalize.renames = [])
    (hfind : disk.bundledRecipeFiles.find? (bundledRecipeId · = recipeId) = some path)
    (hhidden : IsHidden path) (hparse : parseFile fmt disk (.bundled path) = some recipe) :
    ResolvesTo fmt disk recipeId recipe (.bundled path) ↔
      named disk recipeId = none ∧ NotCaptured fmt disk.settle recipeId (.bundled path) := by
  have hid : bundledRecipeId path = recipeId := by simpa using List.find?_some hfind
  have hkeys : path ∈ disk.bundled.keys :=
    (List.mem_filter.mp ((List.mem_insertionSort _).mp (List.mem_of_find?_eq_some hfind))).1
  have hbundled : bundledPrefix <+: recipeId := hid ▸ List.prefix_append _ _
  have hparse' : parseFile fmt disk.settle (.bundled path) = some recipe := hparse
  rw [← named_settle_of_bundled hbundled]
  cases hnamed : named disk.settle recipeId with
  | some file =>
    rw [resolvesTo_iff_of_named hnamed hparse']
    refine iff_of_false ?_ (by simp)
    rintro rfl
    rw [named_settle_of_bundled hbundled, ← hid] at hnamed
    exact named_ne_of_isHidden hkeys hhidden hnamed
  | none =>
    have hne : recipeId ≠ [] := by
      rintro rfl
      exact absurd hbundled (by decide)
    have hmem : (recipeId, File.bundled path) ∈ disk.settle.candidateFiles :=
      (mem_candidateFiles_of_bundled hbundled).mpr ⟨path, rfl, hfind⟩
    rw [resolvesTo_iff_of_not_named hsettled hne hnamed hparse' hmem, and_iff_right rfl]
    intro c hc hfile
    rw [answers, hfile, hparse', id_of_mem_candidateFiles_bundled hc hfile, hid]
    simp

/-- A renamed file is found by what its id was, if at all. -/
theorem resolvesTo_renamed_iff (hsettled : disk.recipes.normalize.renames = []) (hr : r ∈ disk.recipes.renames)
    (hparse : parseFile fmt disk (.installed r.file) = some recipe) :
    ResolvesTo fmt disk (ociPrefix ++ r.stem) recipe (.installed r.target) ↔
      (∀ name ∈ disk.recipes.files, HasStem name r.stem → name = r.file) ∧
        NotCaptured fmt disk.settle (ociPrefix ++ r.stem) (.installed r.target) := by
  have hmovable := Directory.movable_of_mem_renames hr
  have hparse' : parseFile fmt disk.settle (.installed r.target) = some recipe := by
    rw [← hparse]
    exact congrArg (·.bind fmt.parse) (Directory.lookup_target_normalize hr)
  have htwin := exists_hasStem_settle_iff hr
  cases hnamed : named disk.settle (ociPrefix ++ r.stem) with
  | some file =>
    rw [resolvesTo_iff_of_named hnamed hparse']
    obtain ⟨name, hfirst, rfl⟩ := named_oci_eq_some_iff.mp hnamed
    obtain ⟨name', hmem, hstem, hne⟩ :=
      htwin.mp ⟨name, AList.mem_keys.mpr hfirst.mem, hfirst.hasStem⟩
    refine iff_of_false (fun heq ↦ ?_) fun h ↦ hne (h.1 name' hmem hstem)
    have hslug := hfirst.hasStem
    rw [File.installed.inj heq] at hslug
    exact hmovable.slug_ne_stem (hmovable.hasStem_target.eq hslug)
  | none =>
    have hmem : (ociPrefix ++ r.slug, File.installed r.target) ∈ disk.settle.candidateFiles :=
      (mem_candidateFiles_oci_iff rfl).mpr ⟨_, isFirst_target hr, rfl⟩
    have halone : ∀ name ∈ disk.recipes.files, HasStem name r.stem → name = r.file := by
      intro name hmem hstem
      by_contra hne
      obtain ⟨name', hmem', hstem'⟩ := htwin.mpr ⟨name, hmem, hstem, hne⟩
      exact named_oci_eq_none_iff.mp hnamed name' hmem' hstem'
    rw [resolvesTo_iff_of_not_named hsettled (by simp [ociPrefix]) hnamed hparse' hmem,
      and_iff_right halone]
    intro c hc hfile
    have hstem : r.stem ≠ [] := (recipeName?_eq_some_iff.mp hmovable.file).2.2.1
    rw [answers, hfile, hparse',
      id_of_mem_candidateFiles_installed hc hfile hmovable.hasStem_target]
    simp [isTheSameRecipe, hstem, hmovable.slug]

/-- Where nothing is renamed, an installed recipe keeps its id. -/
theorem movedTo_eq_self {name : Text} (h : ∀ r ∈ disk.recipes.renames, r.file ≠ name) :
    disk.movedTo (.installed name) = .installed name := by
  have hnone : disk.recipes.renames.find? (·.file = name) = none :=
    List.find?_eq_none.mpr fun r hr ↦ by simpa using h r hr
  rw [Disk.movedTo, hnone]

theorem movedTo_file (hr : r ∈ disk.recipes.renames) :
    disk.movedTo (.installed r.file) = .installed r.target := by
  cases hfind : disk.recipes.renames.find? (·.file = r.file) with
  | none => exact absurd (decide_eq_true rfl) (List.find?_eq_none.mp hfind r hr)
  | some r' =>
    have hr' := List.mem_of_find?_eq_some hfind
    have hfile : r'.file = r.file := by simpa using List.find?_some hfind
    have hname := (Directory.movable_of_mem_renames hr').file
    rw [hfile, (Directory.movable_of_mem_renames hr).file, Option.some.injEq, Prod.mk.injEq] at hname
    have hslug : r'.slug = r.slug := by
      rw [(Directory.movable_of_mem_renames hr').slug, (Directory.movable_of_mem_renames hr).slug,
        hname.1]
    rw [Disk.movedTo, hfind, eq_of_slug hr' hr hslug]

/-- A candidate is renamed, or it is one after the sweep as before. -/
theorem mem_candidateFiles_cases (fmt : Format ρ) (h : (recipeId, file) ∈ disk.candidateFiles) :
    (∃ r ∈ disk.recipes.renames, recipeId = ociPrefix ++ r.stem ∧ file = .installed r.file) ∨
      (recipeId, file) ∈ disk.settle.candidateFiles ∧ disk.movedTo file = file ∧
        parseFile fmt disk.settle file = parseFile fmt disk file := by
  rw [mem_candidateFiles_iff, Disk.sourceFiles, List.find?_append, Option.or_eq_some_iff] at h
  rcases h with h | ⟨-, hoci⟩
  · have hfile : ∀ name, file ≠ .installed name := by
      rintro name rfl
      rcases List.mem_append.mp (List.mem_of_find?_eq_some h) with hc | hc
      · obtain ⟨path, -, heq⟩ := List.mem_map.mp hc
        cases heq
      · obtain ⟨name, -, stem, -, heq⟩ := mem_flatDirFiles_iff.mp hc
        cases heq
    refine .inr ⟨?_, ?_, parseFile_settle hfile⟩
    · rw [mem_candidateFiles_iff, Disk.sourceFiles, List.find?_append, Option.or_eq_some_iff]
      exact .inl h
    · cases file with
      | installed name => exact (hfile name rfl).elim
      | bundled path => rfl
      | outside path => rfl
      | custom name => rfl
  · obtain ⟨name, -, stem, hstem, heq⟩ := mem_flatDirFiles_iff.mp (List.mem_of_find?_eq_some hoci)
    obtain ⟨rfl, rfl⟩ := Prod.mk.inj heq
    obtain ⟨name', hfirst, heq⟩ := find?_flatDirFiles_iff.mp hoci
    obtain rfl := File.installed.inj (Prod.mk.inj heq).2
    by_cases hrenamed : ∃ r ∈ disk.recipes.renames, r.file = name
    · obtain ⟨r, hr, rfl⟩ := hrenamed
      refine .inl ⟨r, hr, ?_, rfl⟩
      rw [hstem.eq (Directory.movable_of_mem_renames hr).hasStem_file]
    · push Not at hrenamed
      refine .inr ⟨?_, movedTo_eq_self hrenamed, ?_⟩
      · exact (mem_candidateFiles_oci_iff rfl).mpr ⟨name, hfirst.settle hrenamed, rfl⟩
      · refine congrArg (·.bind fmt.parse) (Directory.lookup_normalize fun r hr ↦ ?_)
        refine ⟨fun h ↦ hrenamed r hr h.symm, ?_⟩
        rintro rfl
        exact (Directory.movable_of_mem_renames hr).target_not_mem (AList.mem_keys.mpr hfirst.mem)

/-- What is listed under an id is what it resolves to, if the path of a hidden file leads nowhere
and no recipe answers before it. -/
theorem Unambiguous.resolvesTo (h : Unambiguous fmt disk recipeId)
    (hmem : (recipeId, file) ∈ disk.settle.candidateFiles)
    (hparse : parseFile fmt disk.settle file = some recipe) :
    ResolvesTo fmt disk recipeId recipe file := by
  by_cases hbundled : bundledPrefix <+: recipeId
  · obtain ⟨path, rfl, hfind⟩ := (mem_candidateFiles_of_bundled hbundled).mp hmem
    have hparse' : parseFile fmt disk (.bundled path) = some recipe := hparse
    by_cases hhidden : IsHidden path
    · rw [resolvesTo_hidden_iff h.settled hfind hhidden hparse']
      exact h.hidden path hfind hhidden (by rw [hparse']; rfl)
    · obtain ⟨content, hread, -⟩ := Option.bind_eq_some_iff.mp hparse'
      have hnamed : named disk.settle recipeId = some (.bundled path) := by
        rw [named_settle_of_bundled hbundled]
        exact named_of_find?_bundledRecipeFiles hfind hread hhidden
      exact (resolvesTo_iff_of_named hnamed hparse).mpr rfl
  · have hnamed := (mem_candidateFiles_of_not_bundled hbundled).mp hmem
    exact (resolvesTo_iff_of_named hnamed hparse).mpr rfl

/-- What an id resolves to is listed, if its path leads to no other file. -/
theorem Unambiguous.mem_payloads (h : Unambiguous fmt disk recipeId)
    (hp : resolveRecipe fmt disk recipeId = some p) : p ∈ iterRecipePayloads fmt disk := by
  cases hnamed : named disk.settle recipeId with
  | some file =>
    rw [resolveRecipe_of_named hnamed] at hp
    obtain ⟨recipe, hparse, rfl⟩ := payloadOf_eq_some_iff.mp hp
    refine mem_payloads_of_mem ?_ hparse
    by_cases hbundled : bundledPrefix <+: recipeId
    · rw [mem_candidateFiles_of_bundled hbundled]
      rw [named_settle_of_bundled hbundled] at hnamed
      refine h.path hbundled file hnamed ?_
      rw [← parseFile_settle (ne_installed_of_named hbundled hnamed), hparse]
      rfl
    · exact (mem_candidateFiles_of_not_bundled hbundled).mpr hnamed
  | none =>
    by_cases hne : recipeId = []
    · rw [resolveRecipe, hnamed] at hp
      simp [hne] at hp
    · rw [resolveRecipe_of_not_named h.settled hne hnamed] at hp
      obtain ⟨c, hc, hp⟩ := Option.bind_eq_some_iff.mp hp
      exact mem_payloads_iff.mpr ⟨c, List.mem_of_find?_eq_some hc, hp⟩

end

/-! ## Two directories -/

/-- Every text is a recipe of that name. -/
private def plainFormat : Format Text where
  parse := some
  name := id

/-- No recipes, and a file beside the package's directory. -/
private def besideTree : Disk where
  outside path := if path = "../notes.yaml".toList then some "notes".toList else none

/-- An installed recipe that the sweep renames, and one that it leaves. -/
private def oneToRename : Disk where
  recipes :=
    { files := [(⟨"My Model.yaml".toList, "mine".toList⟩ : Sigma fun _ : Text ↦ Text),
        ⟨"other.yaml".toList, "other".toList⟩].toAList }

end SparkPulse.Recipes
