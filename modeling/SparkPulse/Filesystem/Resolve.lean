import SparkPulse.Filesystem.Disk

/-!
# Where a path leads

A path is followed component by component. A name that is a link is replaced by what the link says,
and each time that happens counts against a limit: a path that passes more links leads nowhere.
`Leads` is the meaning of a path, with the entries that are passed and the number of links among
them, and `follow` finds it.
-/

namespace Filesystem

namespace Path

variable {ν : Type} (path : Path ν) (n : ν) (names : List ν)

/-- The path of an entry of a directory. -/
def child : Path ν := { path with parts := path.parts ++ [.name n] }

/-- The path of an entry of a directory's directory, and so on. -/
def extend : Path ν := { path with parts := path.parts ++ names.map .name }

@[simp] theorem extend_nil : path.extend [] = path := by
  simp [extend]

@[simp] theorem extend_child : (path.child n).extend names = path.extend (n :: names) := by
  simp [extend, child]

/-- Where a path starts that is met in a directory. -/
def start (d : Loc ν) : Loc ν := if path.isAbsolute then [] else d

end Path

variable {ν : Type} [DecidableEq ν]

namespace Disk

/-- From a directory the components lead somewhere, past some entries, some of which are links. -/
inductive Leads (D : Disk ν) : Loc ν → List (Component ν) → Loc ν → List (Loc ν) → ℕ → Prop
  | nil (d : Loc ν) : Leads D d [] d [] 0
  | here {d p : Loc ν} {cs : List (Component ν)} {passed : List (Loc ν)} {links : ℕ} :
      D.IsDir d → Leads D d cs p passed links → Leads D d (.here :: cs) p passed links
  | up {d p : Loc ν} {cs : List (Component ν)} {passed : List (Loc ν)} {links : ℕ} :
      D.IsDir d → Leads D d.dropLast cs p passed links → Leads D d (.up :: cs) p passed links
  | enter {d p : Loc ν} {n : ν} {k : Kind ν} {cs : List (Component ν)} {passed : List (Loc ν)}
      {links : ℕ} :
      D.look (d ++ [n]) = some k → k.isLink = false → Leads D (d ++ [n]) cs p passed links →
        Leads D d (.name n :: cs) p ((d ++ [n]) :: passed) links
  | follow {d p : Loc ν} {n : ν} {target : Path ν} {cs : List (Component ν)} {passed : List (Loc ν)}
      {links : ℕ} :
      D.look (d ++ [n]) = some (.link target) →
        Leads D (target.start d) (target.parts ++ cs) p passed links →
        Leads D d (.name n :: cs) p ((d ++ [n]) :: passed) (links + 1)

/-! ## Following a path -/

/-- Follow components, where links are followed as told. -/
def followWith (D : Disk ν) (next : Loc ν → List (Component ν) → Option (Loc ν × ℕ)) (left : ℕ) :
    Loc ν → List (Component ν) → Option (Loc ν × ℕ)
  | d, [] => some (d, left)
  | d, .here :: cs => if D.IsDir d then D.followWith next left d cs else none
  | d, .up :: cs => if D.IsDir d then D.followWith next left d.dropLast cs else none
  | d, .name n :: cs =>
    match D.look (d ++ [n]) with
    | none => none
    | some (.link target) => next (target.start d) (target.parts ++ cs)
    | some _ => D.followWith next left (d ++ [n]) cs

/-- Follow components past a number of links at most. What it finds comes with how many links are
left. -/
def follow (D : Disk ν) : ℕ → Loc ν → List (Component ν) → Option (Loc ν × ℕ)
  | 0 => D.followWith (fun _ _ ↦ none) 0
  | left + 1 => D.followWith (D.follow left) (left + 1)

section
variable {D : Disk ν} {d p q m : Loc ν} {n : ν} {cs cs' : List (Component ν)} {passed : List (Loc ν)}
  {links left rest : ℕ}

theorem followWith_eq_some_iff {next : Loc ν → List (Component ν) → Option (Loc ν × ℕ)}
    (hnext : ∀ d cs, next d cs = some (p, rest) ↔
      ∃ passed links, D.Leads d cs p passed links ∧ rest + links + 1 = left) :
    D.followWith next left d cs = some (p, rest) ↔
      ∃ passed links, D.Leads d cs p passed links ∧ rest + links = left := by
  induction cs generalizing d with
  | nil =>
    rw [followWith]
    constructor
    · intro h
      obtain ⟨rfl, rfl⟩ := Prod.mk.inj (Option.some.inj h)
      exact ⟨[], 0, .nil _, rfl⟩
    · rintro ⟨_, _, ⟨⟩, rfl⟩
      rfl
  | cons c cs ih =>
    rcases c with _ | _ | n <;> rw [followWith]
    case here =>
      rw [Option.ite_none_right_eq_some, ih]
      constructor
      · rintro ⟨hdir, passed, links, h, hlinks⟩
        exact ⟨passed, links, .here hdir h, hlinks⟩
      · rintro ⟨passed, links, h, hlinks⟩
        rcases h with _ | ⟨hdir, h⟩
        exact ⟨hdir, passed, links, h, hlinks⟩
    case up =>
      rw [Option.ite_none_right_eq_some, ih]
      constructor
      · rintro ⟨hdir, passed, links, h, hlinks⟩
        exact ⟨passed, links, .up hdir h, hlinks⟩
      · rintro ⟨passed, links, h, hlinks⟩
        rcases h with _ | _ | ⟨hdir, h⟩
        exact ⟨hdir, passed, links, h, hlinks⟩
    case name =>
      rcases hlook : D.look (d ++ [n]) with _ | k
      · refine ⟨fun h ↦ (by cases h), ?_⟩
        rintro ⟨passed, links, h, -⟩
        rcases h with _ | _ | _ | ⟨hk, -, -⟩ | ⟨hk, -⟩ <;> rw [hlook] at hk <;> cases hk
      · rcases hkind : k with ⟨id, bytes⟩ | target | ⟨device, readable⟩ <;> subst hkind
        case link =>
          refine (hnext _ _).trans ⟨?_, ?_⟩
          · rintro ⟨passed, links, h, hlinks⟩
            exact ⟨_, links + 1, .follow hlook h, hlinks⟩
          · rintro ⟨passed, links, h, hlinks⟩
            rcases h with _ | _ | _ | ⟨hk, hlink, -⟩ | ⟨hk, h⟩ <;> rw [hlook] at hk <;> cases hk
            · cases hlink
            · exact ⟨_, _, h, hlinks⟩
        all_goals
          refine ih.trans ⟨?_, ?_⟩
          · rintro ⟨passed, links, h, hlinks⟩
            exact ⟨_, links, .enter hlook rfl h, hlinks⟩
          · rintro ⟨passed, links, h, hlinks⟩
            rcases h with _ | _ | _ | ⟨hk, -, h⟩ | ⟨hk, -⟩
            · exact ⟨_, links, h, hlinks⟩
            · rw [hlook] at hk
              cases hk

/-- **What is found is what the path means**, if it passes no more links than it may. -/
theorem follow_eq_some_iff : D.follow left d cs = some (p, rest) ↔
    ∃ passed links, D.Leads d cs p passed links ∧ rest + links = left := by
  induction left generalizing d cs with
  | zero =>
    refine followWith_eq_some_iff fun d cs ↦ ⟨fun h ↦ (by cases h), ?_⟩
    rintro ⟨_, links, -, hlinks⟩
    omega
  | succ left ih =>
    refine followWith_eq_some_iff fun d cs ↦ ih.trans ?_
    constructor
    · rintro ⟨passed, links, h, hlinks⟩
      exact ⟨passed, links, h, by omega⟩
    · rintro ⟨passed, links, h, hlinks⟩
      exact ⟨passed, links, h, by omega⟩

/-! ## Laws of paths -/

/-- A path leads to one place, by one way. -/
theorem Leads.unique {passed' : List (Loc ν)} {links' : ℕ} (h : D.Leads d cs p passed links)
    (h' : D.Leads d cs q passed' links') : p = q ∧ passed = passed' ∧ links = links' := by
  induction h generalizing q passed' links' with
  | nil =>
    cases h'
    exact ⟨rfl, rfl, rfl⟩
  | here _ _ ih =>
    rcases h' with _ | ⟨-, h'⟩
    exact ih h'
  | up _ _ ih =>
    rcases h' with _ | _ | ⟨-, h'⟩
    exact ih h'
  | enter hk hlink _ ih =>
    rcases h' with _ | _ | _ | ⟨-, -, h'⟩ | ⟨hk', -⟩
    · obtain ⟨hp, hpassed, hlinks⟩ := ih h'
      exact ⟨hp, by rw [hpassed], hlinks⟩
    · rw [hk] at hk'
      cases hk'
      cases hlink
  | follow hk _ ih =>
    rcases h' with _ | _ | _ | ⟨hk', hlink', -⟩ | ⟨hk', h'⟩ <;> rw [hk] at hk' <;> cases hk'
    · cases hlink'
    · obtain ⟨hp, hpassed, hlinks⟩ := ih h'
      exact ⟨hp, by rw [hpassed], by rw [hlinks]⟩

/-- A path in two parts leads on from where its first part leads. -/
theorem leads_append_iff : D.Leads d (cs ++ cs') p passed links ↔
    ∃ m before after links₁ links₂, D.Leads d cs m before links₁ ∧ D.Leads m cs' p after links₂ ∧
      passed = before ++ after ∧ links = links₁ + links₂ := by
  constructor
  · intro h
    generalize hall : cs ++ cs' = all at h
    induction h generalizing cs with
    | nil d =>
      obtain ⟨rfl, rfl⟩ := List.append_eq_nil_iff.mp hall
      exact ⟨d, [], [], 0, 0, .nil d, .nil d, rfl, rfl⟩
    | @here d _ _ passed links hdir h ih =>
      rcases cs with _ | ⟨c, cs⟩
      · subst hall
        exact ⟨d, [], passed, 0, links, .nil d, .here hdir h, rfl, (Nat.zero_add _).symm⟩
      · obtain ⟨rfl, hrest⟩ := List.cons.inj hall
        obtain ⟨m, before, after, l₁, l₂, h₁, h₂, rfl, rfl⟩ := ih hrest
        exact ⟨m, before, after, l₁, l₂, .here hdir h₁, h₂, rfl, rfl⟩
    | @up d _ _ passed links hdir h ih =>
      rcases cs with _ | ⟨c, cs⟩
      · subst hall
        exact ⟨d, [], passed, 0, links, .nil d, .up hdir h, rfl, (Nat.zero_add _).symm⟩
      · obtain ⟨rfl, hrest⟩ := List.cons.inj hall
        obtain ⟨m, before, after, l₁, l₂, h₁, h₂, rfl, rfl⟩ := ih hrest
        exact ⟨m, before, after, l₁, l₂, .up hdir h₁, h₂, rfl, rfl⟩
    | @enter d _ _ _ _ passed links hk hlink h ih =>
      rcases cs with _ | ⟨c, cs⟩
      · subst hall
        exact ⟨d, [], _, 0, links, .nil d, .enter hk hlink h, rfl, (Nat.zero_add _).symm⟩
      · obtain ⟨rfl, hrest⟩ := List.cons.inj hall
        obtain ⟨m, before, after, l₁, l₂, h₁, h₂, rfl, rfl⟩ := ih hrest
        exact ⟨m, _, after, l₁, l₂, .enter hk hlink h₁, h₂, rfl, rfl⟩
    | @follow d _ _ target _ passed links hk h ih =>
      rcases cs with _ | ⟨c, cs⟩
      · subst hall
        exact ⟨d, [], _, 0, links + 1, .nil d, .follow hk h, rfl, (Nat.zero_add _).symm⟩
      · obtain ⟨rfl, hrest⟩ := List.cons.inj hall
        obtain ⟨m, before, after, l₁, l₂, h₁, h₂, rfl, rfl⟩ :=
          @ih (target.parts ++ cs) (by rw [List.append_assoc, ← hrest]; rfl)
        exact ⟨m, _, after, l₁ + 1, l₂, .follow hk h₁, h₂, rfl, by omega⟩
  · rintro ⟨m, before, after, links₁, links₂, h₁, h₂, rfl, rfl⟩
    induction h₁ with
    | nil => rwa [List.nil_append, List.nil_append, Nat.zero_add]
    | here hdir _ ih => exact .here hdir (ih h₂)
    | up hdir _ ih => exact .up hdir (ih h₂)
    | enter hk hlink _ ih => exact .enter hk hlink (ih h₂)
    | follow hk _ ih =>
      rw [Nat.add_right_comm]
      exact .follow hk (List.append_assoc _ _ cs' ▸ ih h₂)

/-- What is there under a path's name is no link. -/
theorem Leads.real (h : D.Leads d cs p passed links) (hd : D.IsDir d) :
    ∃ k, D.look p = some k ∧ k.isLink = false := by
  induction h with
  | nil =>
    obtain ⟨k, hk, hdir⟩ := hd
    exact ⟨k, hk, Kind.isLink_of_isDir hdir⟩
  | here _ _ ih => exact ih hd
  | up _ _ ih => exact ih (isDir_dropLast hd)
  | enter hk hlink h ih =>
    rcases h with _ | ⟨hdir, -⟩ | ⟨hdir, -⟩ | ⟨hk', -⟩ | ⟨hk', -⟩
    · exact ⟨_, hk, hlink⟩
    · exact ih hdir
    · exact ih hdir
    · exact ih (isDir_of_look hk')
    · exact ih (isDir_of_look hk')
  | @follow d _ _ target _ _ _ hk _ ih =>
    refine ih ?_
    rw [Path.start]
    split_ifs
    · exact isDir_root
    · exact isDir_of_look hk

theorem Leads.isDir_of_ne_nil (h : D.Leads d cs p passed links) (hcs : cs ≠ []) : D.IsDir d := by
  rcases h with _ | ⟨hdir, -⟩ | ⟨hdir, -⟩ | ⟨hk, -⟩ | ⟨hk, -⟩
  · exact absurd rfl hcs
  · exact hdir
  · exact hdir
  · exact isDir_of_look hk
  · exact isDir_of_look hk

/-- Where components lead to a directory they start at one. -/
theorem Leads.isDir (h : D.Leads d cs p passed links) (hp : D.IsDir p) : D.IsDir d := by
  rcases eq_or_ne cs [] with rfl | hcs
  · cases h
    exact hp
  · exact h.isDir_of_ne_nil hcs

/-- Components that say nothing change nothing where the others lead to a directory. -/
theorem Leads.of_filter (h : D.Leads d (cs.filter (· ≠ .here)) p passed links) (hp : D.IsDir p) :
    D.Leads d cs p passed links := by
  induction cs generalizing d passed links with
  | nil => exact h
  | cons c cs ih =>
    rcases c with _ | _ | n
    · exact .here (h.isDir hp) (ih h)
    · rcases h with _ | _ | ⟨hdir, h⟩
      exact .up hdir (ih h)
    · rcases h with _ | _ | _ | ⟨hk, hlink, h⟩ | ⟨hk, h⟩
      · exact .enter hk hlink (ih h)
      · refine .follow hk ?_
        obtain ⟨m, before, after, l₁, l₂, h₁, h₂, rfl, rfl⟩ := leads_append_iff.mp h
        exact leads_append_iff.mpr ⟨m, before, after, l₁, l₂, h₁, ih h₂, rfl, rfl⟩

/-- The names of an entry that is no link lead to it, past no link. -/
theorem leads_names {k : Kind ν} (h : D.look (d ++ p) = some k) (hlink : k.isLink = false) :
    ∃ passed, D.Leads d (p.map .name) (d ++ p) passed 0 := by
  induction p generalizing d with
  | nil => exact ⟨[], by simpa using .nil d⟩
  | cons n p ih =>
    rw [List.append_cons] at h ⊢
    obtain ⟨k', hk', hlink'⟩ : ∃ k', D.look (d ++ [n]) = some k' ∧ k'.isLink = false := by
      rcases eq_or_ne p [] with rfl | hp
      · exact ⟨k, by rwa [List.append_nil] at h, hlink⟩
      · obtain ⟨k', hk', hdir⟩ := isDir_above h (List.prefix_append _ p) (by simpa using hp)
        exact ⟨k', hk', Kind.isLink_of_isDir hdir⟩
    obtain ⟨passed, hleads⟩ := ih h
    exact ⟨_, .enter hk' hlink' hleads⟩

/-! ## After a removal -/

/-- What holds less leads to the same places, by the same ways. -/
theorem Leads.mono {D' : Disk ν} (h : D'.Leads d cs p passed links)
    (hsub : ∀ p k, D'.look p = some k → D.look p = some k) : D.Leads d cs p passed links := by
  have hdir {d : Loc ν} (hd : D'.IsDir d) : D.IsDir d := by
    obtain ⟨k, hk, hisDir⟩ := hd
    exact ⟨k, hsub _ k hk, hisDir⟩
  induction h with
  | nil d => exact .nil d
  | here h _ ih => exact .here (hdir h) ih
  | up h _ ih => exact .up (hdir h) ih
  | enter hk hlink _ ih => exact .enter (hsub _ _ hk) hlink ih
  | follow hk _ ih => exact .follow (hsub _ _ hk) ih

theorem Leads.look_ne_none (h : D.Leads d cs p passed links) (hq : q ∈ passed) :
    D.look q ≠ none := by
  induction h with
  | nil => cases hq
  | here _ _ ih | up _ _ ih => exact ih hq
  | enter hk _ _ ih =>
    rcases List.mem_cons.mp hq with rfl | hq
    · simp [hk]
    · exact ih hq
  | follow hk _ ih =>
    rcases List.mem_cons.mp hq with rfl | hq
    · simp [hk]
    · exact ih hq

/-- A path leads where it led as long as what it passes is there. -/
theorem Leads.of_kept {D' : Disk ν} (h : D.Leads d cs p passed links) (hd : D'.IsDir d)
    (hkept : ∀ q ∈ passed, D'.look q = D.look q) : D'.Leads d cs p passed links := by
  have hmem {q : Loc ν} {n : ν} {k : Kind ν} {passed : List (Loc ν)}
      (hkept : ∀ r ∈ (q ++ [n]) :: passed, D'.look r = D.look r)
      (hk : D.look (q ++ [n]) = some k) : D'.look (q ++ [n]) = some k :=
    (hkept _ List.mem_cons_self).trans hk
  induction h with
  | nil d => exact .nil d
  | here _ _ ih => exact .here hd (ih hd hkept)
  | up _ _ ih => exact .up hd (ih (isDir_dropLast hd) hkept)
  | @enter d _ n k _ _ _ hk hlink h ih =>
    refine .enter (hmem hkept hk) hlink ?_
    have hkept' := fun r hr ↦ hkept r (List.mem_cons_of_mem _ hr)
    -- a file may end the path, but nothing follows it
    rcases h with _ | ⟨⟨k', hk', hdir⟩, h⟩ | ⟨⟨k', hk', hdir⟩, h⟩ | ⟨hk', h⟩ | ⟨hk', h⟩
    · exact .nil _
    · exact ih ⟨k', hmem hkept hk', hdir⟩ hkept'
    · exact ih ⟨k', hmem hkept hk', hdir⟩ hkept'
    · exact ih (isDir_of_look ((hkept' _ List.mem_cons_self).trans hk')) hkept'
    · exact ih (isDir_of_look ((hkept' _ List.mem_cons_self).trans hk')) hkept'
  | @follow d _ _ target _ _ _ hk _ ih =>
    refine .follow (hmem hkept hk) (ih ?_ fun r hr ↦ hkept r (List.mem_cons_of_mem _ hr))
    rw [Path.start]
    split_ifs
    · exact isDir_root
    · exact hd

end

/-! ## Calls -/

section
variable (D : Disk ν) (limit : ℕ) (cwd : Loc ν) (path : Path ν)

/-- The location that a path leads to. An empty path leads nowhere. -/
def canonicalize : Option (Loc ν) :=
  if path.isAbsolute = false ∧ path.parts = [] then none
  else (D.follow limit (path.start cwd) path.parts).map Prod.fst

/-- What a path leads to. -/
def metadata : Option (Kind ν) := (D.canonicalize limit cwd path).bind D.look

/-- The location of the entry that a path names: a link that it ends with is not followed. -/
def entryAt : Option (Loc ν) :=
  match path.parts.getLast? with
  | some (.name n) =>
    (D.follow limit (path.start cwd) path.parts.dropLast).bind fun found ↦
      if (D.look (found.1 ++ [n])).isSome then some (found.1 ++ [n]) else none
  | _ => D.canonicalize limit cwd path

end

section
variable {D : Disk ν} {limit : ℕ} {cwd p d : Loc ν} {path : Path ν} {n : ν} {k : Kind ν}

theorem canonicalize_eq_some_iff : D.canonicalize limit cwd path = some p ↔
    ¬(path.isAbsolute = false ∧ path.parts = []) ∧ ∃ passed links,
      D.Leads (path.start cwd) path.parts p passed links ∧ links ≤ limit := by
  rw [canonicalize, Option.ite_none_left_eq_some, Option.map_eq_some_iff]
  refine and_congr_right fun _ ↦ ⟨?_, ?_⟩
  · rintro ⟨⟨q, rest⟩, h, rfl⟩
    obtain ⟨passed, links, hleads, hlinks⟩ := follow_eq_some_iff.mp h
    exact ⟨passed, links, hleads, by omega⟩
  · rintro ⟨passed, links, hleads, hlinks⟩
    exact ⟨(p, limit - links), follow_eq_some_iff.mpr ⟨passed, links, hleads, by omega⟩, rfl⟩

/-- What a path leads to is there, and no link. -/
theorem real_of_canonicalize (h : D.canonicalize limit cwd path = some p) :
    ∃ k, D.look p = some k ∧ k.isLink = false := by
  obtain ⟨hne, passed, links, hleads, -⟩ := canonicalize_eq_some_iff.mp h
  refine hleads.real ?_
  by_cases hparts : path.parts = []
  · rw [Path.start, if_pos (by simpa [hparts] using hne)]
    exact isDir_root
  · exact hleads.isDir_of_ne_nil hparts

/-- A location leads to itself. -/
theorem canonicalize_ofLoc (h : D.look p = some k) (hlink : k.isLink = false) :
    D.canonicalize limit cwd (.ofLoc p) = some p := by
  obtain ⟨passed, hleads⟩ := leads_names (d := []) h hlink
  exact canonicalize_eq_some_iff.mpr
    ⟨fun hempty ↦ Bool.noConfusion hempty.1, passed, 0, hleads, Nat.zero_le _⟩

/-- The names of what is below a directory can be put after its path. -/
theorem canonicalize_extend (h : D.canonicalize limit cwd path = some d) {names : List ν}
    (hk : D.look (d ++ names) = some k) (hlink : k.isLink = false) :
    D.canonicalize limit cwd (path.extend names) = some (d ++ names) := by
  obtain ⟨hne, passed, links, hleads, hlinks⟩ := canonicalize_eq_some_iff.mp h
  obtain ⟨passed', hnames⟩ := leads_names hk hlink
  refine canonicalize_eq_some_iff.mpr ⟨?_, passed ++ passed', links + 0, ?_, hlinks⟩
  · exact fun hempty ↦ hne ⟨hempty.1, (List.append_eq_nil_iff.mp hempty.2).1⟩
  · exact leads_append_iff.mpr ⟨d, passed, passed', links, 0, hleads, hnames, rfl, rfl⟩

/-- What leads on by names leads to a directory first. -/
theorem leads_of_extend {names : List ν}
    (h : D.canonicalize limit cwd (path.extend names) = some p)
    (hne : ¬(path.isAbsolute = false ∧ path.parts = [])) :
    ∃ m passed links, D.canonicalize limit cwd path = some m ∧
      D.Leads m (names.map .name) p passed links ∧ links ≤ limit := by
  obtain ⟨-, passed, links, hleads, hlinks⟩ := canonicalize_eq_some_iff.mp h
  obtain ⟨m, before, after, l₁, l₂, h₁, h₂, rfl, rfl⟩ := leads_append_iff.mp hleads
  exact ⟨m, after, l₂, canonicalize_eq_some_iff.mpr ⟨hne, before, l₁, h₁, by omega⟩, h₂, by omega⟩

/-- What is named and is no link is what the name leads to. -/
theorem canonicalize_of_entryAt (h : D.entryAt limit cwd path = some p)
    (hk : D.look p = some k) (hlink : k.isLink = false) :
    D.canonicalize limit cwd path = some p := by
  rw [entryAt] at h
  split at h
  · rename_i n hlast
    obtain ⟨⟨d, rest⟩, hfollow, h⟩ := Option.bind_eq_some_iff.mp h
    obtain ⟨-, h⟩ := Option.ite_none_right_eq_some.mp h
    cases h
    obtain ⟨passed, links, hleads, hlinks⟩ := follow_eq_some_iff.mp hfollow
    have hparts : path.parts = path.parts.dropLast ++ [.name n] :=
      (List.dropLast_append_getLast? _ hlast).symm
    refine canonicalize_eq_some_iff.mpr ⟨fun hempty ↦ ?_, passed ++ [d ++ [n]], links + 0, ?_,
      by omega⟩
    · rw [hempty.2] at hlast
      cases hlast
    · rw [hparts]
      exact leads_append_iff.mpr ⟨d, passed, [d ++ [n]], links, 0, hleads,
        .enter hk hlink (.nil _), rfl, rfl⟩
  · exact h

/-- An entry of a directory is named by the path of the directory and its name. -/
theorem entryAt_child (h : D.canonicalize limit cwd path = some d) (n : ν) :
    D.entryAt limit cwd (path.child n) =
      if (D.look (d ++ [n])).isSome then some (d ++ [n]) else none := by
  obtain ⟨-, passed, links, hleads, hlinks⟩ := canonicalize_eq_some_iff.mp h
  have hfollow : D.follow limit (path.start cwd) path.parts = some (d, limit - links) :=
    follow_eq_some_iff.mpr ⟨passed, links, hleads, by omega⟩
  have hlast : (path.child n).parts.getLast? = some (.name n) := List.getLast?_concat
  have hinit : (path.child n).parts.dropLast = path.parts := List.dropLast_concat
  have hstart : (path.child n).start cwd = path.start cwd := rfl
  simp only [entryAt, hlast, hinit, hstart, hfollow, Option.bind_some]

end

end Disk

end Filesystem
