import Mathlib.Data.List.DropRight
import SparkPulse.Recipes.Names

/-!
# Command templates

A recipe's command is a template of Python's `str.format`: `{port}` stands for a parameter, `{{` for
a brace. Here is how a template is read and filled in, and how an engine folds its lines. A field is
looked up under a name that has none of the letters that end one, and nothing else of the parameters
is looked at.

What Python makes of one value, the rest of a field's name, its conversion and its specification is
a parameter, with the documented behaviour that is relied on as its laws.
-/

namespace SparkPulse.Engines

open Recipes (Text)

/-! ## Values -/

/-- The values that a YAML document is loaded into. -/
inductive Value (Double Other : Type)
  | null
  | bool (b : Bool)
  | int (n : ℤ)
  | float (x : Double)
  | str (t : Text)
  | bytes (b : List UInt8)
  /-- A date, a list, a mapping. -/
  | other (o : Other)
  deriving DecidableEq

/-- What Python makes of them. -/
structure Python (Double Other : Type) where
  str : Value Double Other → Text
  /-- A replacement field: a value, the accessors after the name, the conversion and the format
  specification. Nothing where it raises. -/
  formatField : Value Double Other → Text → Option Char → Text → Option Text
  /-- Decimal digits of every script, of which the index of an argument is made. -/
  isDecimal : Char → Bool
  isDecimal_of_isAlpha : ∀ c : Char, c.isAlpha → isDecimal c = false
  format_null : formatField .null [] none [] = some "None".toList
  format_bool : ∀ b, formatField (.bool b) [] none [] =
    some (if b then "True".toList else "False".toList)
  format_one : formatField (.int 1) [] none [] = some "1".toList
  format_int_d : ∀ n, formatField (.int n) [] none ['d'] ≠ none
  format_bool_d : ∀ b, formatField (.bool b) [] none ['d'] ≠ none
  format_float_d : ∀ x, formatField (.float x) [] none ['d'] = none
  format_str_d : ∀ t, formatField (.str t) [] none ['d'] = none
  format_bytes_d : ∀ b, formatField (.bytes b) [] none ['d'] = none
  format_float_f : ∀ x, formatField (.float x) [] none ['f'] ≠ none
  format_str_f : ∀ t, formatField (.str t) [] none ['f'] = none
  format_bytes_f : ∀ b, formatField (.bytes b) [] none ['f'] = none
  format_str_s : ∀ t, formatField (.str t) [] none ['s'] ≠ none
  format_bytes_s : ∀ b, formatField (.bytes b) [] none ['s'] = none

/-- A dictionary is what it has under each key. -/
abbrev Dict (V : Type) := Text → Option V

/-! ## Templates -/

/-- A replacement field. -/
structure Field where
  /-- The parameter and the accessors after it. -/
  name : Text
  conversion : Option Char
  /-- The format specification, which may have fields of its own. -/
  spec : Text
  deriving DecidableEq, Repr

inductive Piece
  | letter (c : Char)
  | field (f : Field)
  deriving DecidableEq, Repr

/-- Where the reader of a template stands. -/
inductive Scan
  | literal
  /-- After a closing brace that no field was open for. -/
  | closed
  /-- In the name of a field, and whether inside the brackets of an index. -/
  | name (name : Text) (bracket : Bool)
  /-- After the exclamation mark. -/
  | mark (name : Text)
  | converted (name : Text) (conversion : Char)
  /-- In a specification, with so many braces open in it. -/
  | spec (name : Text) (conversion : Option Char) (spec : Text) (depth : ℕ)

/-- Read a template; a malformed one raises. -/
def parseTemplate : Scan → Text → Option (List Piece)
  | .literal, [] => some []
  | _, [] => none
  | .literal, c :: t =>
    if c = '{' then parseTemplate (.name [] false) t
    else if c = '}' then parseTemplate .closed t
    else (parseTemplate .literal t).map (.letter c :: ·)
  | .closed, c :: t => if c = '}' then (parseTemplate .literal t).map (.letter c :: ·) else none
  | .name name true, c :: t => parseTemplate (.name (name ++ [c]) (c ≠ ']')) t
  | .name name false, c :: t =>
    if c = '{' then
      -- a brace that is doubled stands for itself
      if name = [] then (parseTemplate .literal t).map (.letter c :: ·) else none
    else if c = '}' then
      (parseTemplate .literal t).map (.field { name, conversion := none, spec := [] } :: ·)
    else if c = '!' then parseTemplate (.mark name) t
    else if c = ':' then parseTemplate (.spec name none [] 0) t
    else parseTemplate (.name (name ++ [c]) (c = '[')) t
  | .mark name, c :: t => parseTemplate (.converted name c) t
  | .converted name conversion, c :: t =>
    if c = '}' then
      (parseTemplate .literal t).map
        (.field { name, conversion := some conversion, spec := [] } :: ·)
    else if c = ':' then parseTemplate (.spec name (some conversion) [] 0) t
    else none
  | .spec name conversion spec depth, c :: t =>
    if c = '{' then parseTemplate (.spec name conversion (spec ++ [c]) (depth + 1)) t
    else if c = '}' then
      match depth with
      | 0 => (parseTemplate .literal t).map (.field { name, conversion, spec } :: ·)
      | depth + 1 => parseTemplate (.spec name conversion (spec ++ [c]) depth) t
    else parseTemplate (.spec name conversion (spec ++ [c]) depth) t

/-- Letters that start an accessor. -/
def isAccessor (c : Char) : Bool := c = '.' || c = '['

/-- The parameter that a field stands for. -/
def Field.key (f : Field) : Text := f.name.takeWhile fun c ↦ !isAccessor c

/-- The accessors after it. -/
def Field.path (f : Field) : Text := f.name.dropWhile fun c ↦ !isAccessor c

section Format

variable {Double Other : Type} (py : Python Double Other)

/-- Fill in one piece, given what its specification is expanded to. -/
def fillPiece (params : Dict (Value Double Other)) (expand : Text → Option Text) :
    Piece → Option Text
  | .letter c => some [c]
  | .field f =>
    -- there are no positional arguments
    if f.key.all py.isDecimal then none
    else do
      let value ← params f.key
      let spec ← if '{' ∈ f.spec then expand f.spec else some f.spec
      py.formatField value f.path f.conversion spec

/-- Fill in a template whose fields are nested no deeper than this. -/
def fill (params : Dict (Value Double Other)) : ℕ → Text → Option Text
  | 0, _ => none
  | depth + 1, t => do
    let pieces ← parseTemplate .literal t
    let texts ← pieces.mapM (fillPiece py params (fill params depth))
    return texts.flatten

/-- `format_command`: `str.format` of the template; every failure is one error or another. -/
def formatCommand (template : Text) (params : Dict (Value Double Other)) : Option Text :=
  fill py params 2 template

end Format

/-! ## Lines -/

/-- The letters that `str.splitlines` splits at. -/
def isLineBreak (c : Char) : Bool :=
  c ∈ ['\n', '\r', '\x0b', '\x0c', '\x1c', '\x1d', '\x1e', '\u0085', '\u2028', '\u2029']

/-- A line without the blanks around it and without the backslashes that continue it. -/
def foldLine (line : Text) : Text :=
  (Recipes.trim Runtime.isSpace line).rdropWhile fun c ↦ c = '\\' || Runtime.isSpace c

/-- `fold_continuations`; between the two letters of a break that has two is an empty line, which
is left out like any other. -/
def foldContinuations (command : Text) : Text :=
  List.intercalate [' '] (((command.splitOnP isLineBreak).map foldLine).filter (· ≠ []))

theorem mem_splitOnP {p : Char → Bool} {t line : Text} (hline : line ∈ t.splitOnP p) :
    ∀ c ∈ line, p c = false ∧ c ∈ t := by
  induction t generalizing line with
  | nil =>
    obtain rfl := List.mem_singleton.mp hline
    simp
  | cons a t ih =>
    rw [List.splitOnP_cons_eq_if_modifyHead] at hline
    intro c hc
    split_ifs at hline with ha
    · rcases List.mem_cons.mp hline with rfl | hline
      · cases hc
      · exact ⟨(ih hline c hc).1, List.mem_cons_of_mem a (ih hline c hc).2⟩
    · rcases hlines : t.splitOnP p with _ | ⟨first, lines⟩
      · exact absurd hlines (List.splitOnP_ne_nil p t)
      · rw [hlines, List.modifyHead_cons] at hline
        have hmore : ∀ line ∈ first :: lines, ∀ c ∈ line, p c = false ∧ c ∈ a :: t :=
          fun line hl c hc ↦ ⟨(ih (hlines ▸ hl) c hc).1, List.mem_cons_of_mem a
            (ih (hlines ▸ hl) c hc).2⟩
        rcases List.mem_cons.mp hline with rfl | hline
        · rcases List.mem_cons.mp hc with rfl | hc
          · exact ⟨by simpa using ha, List.mem_cons_self⟩
          · exact hmore first List.mem_cons_self c hc
        · exact hmore line (List.mem_cons_of_mem first hline) c hc

theorem mem_of_mem_foldLine {line : Text} {c : Char} (hc : c ∈ foldLine line) : c ∈ line :=
  Recipes.mem_of_mem_trim ((List.rdropWhile_prefix _ _).subset hc)

theorem mem_intercalate {sep : Text} {lines : List Text} {c : Char}
    (hc : c ∈ List.intercalate sep lines) : c ∈ sep ∨ ∃ line ∈ lines, c ∈ line := by
  induction lines with
  | nil => cases hc
  | cons line lines ih =>
    rcases lines with _ | ⟨next, lines⟩
    · rw [List.intercalate_singleton] at hc
      exact .inr ⟨line, List.mem_cons_self, hc⟩
    · rw [List.intercalate_cons_cons, List.mem_append, List.mem_append] at hc
      rcases hc with (hc | hc) | hc
      · exact .inr ⟨line, List.mem_cons_self, hc⟩
      · exact .inl hc
      · rcases ih hc with hc | ⟨line', hline', hc⟩
        · exact .inl hc
        · exact .inr ⟨line', List.mem_cons_of_mem line hline', hc⟩

/-- A folded command is one line. -/
theorem isLineBreak_of_mem_foldContinuations {command : Text} :
    ∀ c ∈ foldContinuations command, isLineBreak c = false := by
  intro c hc
  rcases mem_intercalate hc with hc | ⟨line, hline, hc⟩
  · obtain rfl := List.mem_singleton.mp hc
    decide
  · obtain ⟨line', hline', rfl⟩ := List.mem_map.mp (List.mem_of_mem_filter hline)
    exact (mem_splitOnP hline' c (mem_of_mem_foldLine hc)).1

/-! ## What a template depends on -/

/-- Letters that a parameter's name can have in a field. -/
def isKeyLetter (c : Char) : Bool := c ∉ ['{', '}', '!', ':', '.', '[']

/-- A name under which a field can be looked up, of letters of a kind. -/
structure IsKey {Double Other : Type} (py : Python Double Other) (A : Char → Prop) (k : Text) :
    Prop where
  letters : ∀ c ∈ k, isKeyLetter c = true
  allowed : ∀ c ∈ k, A c
  named : k.all py.isDecimal = false

section Names

variable {A : Char → Prop}

/-- The name of a field so far: what stands before its first accessor is a key. -/
structure NameOk (A : Char → Prop) (name : Text) : Prop where
  letters : ∀ c ∈ name.takeWhile fun c ↦ !isAccessor c, isKeyLetter c = true
  allowed : ∀ c ∈ name, A c

/-- A field whose name and specification are of letters of a kind. -/
structure FieldOk (A : Char → Prop) (f : Field) : Prop extends NameOk A f.name where
  spec : ∀ c ∈ f.spec, A c

def Scan.Ok (A : Char → Prop) : Scan → Prop
  | .literal | .closed => True
  | .name n bracket => NameOk A n ∧ (bracket = true → '[' ∈ n)
  | .mark n | .converted n _ => NameOk A n
  | .spec n _ s _ => NameOk A n ∧ ∀ c ∈ s, A c

theorem forall_mem_concat {p : Char → Prop} {t : Text} {c : Char} (ht : ∀ a ∈ t, p a) (hc : p c) :
    ∀ a ∈ t ++ [c], p a := by
  rintro a ha
  rcases List.mem_append.mp ha with ha | ha
  · exact ht a ha
  · exact List.mem_singleton.mp ha ▸ hc

theorem takeWhile_concat_of_mem {p : Char → Bool} {t : Text} {a c : Char} (ha : a ∈ t)
    (hp : p a = false) : (t ++ [c]).takeWhile p = t.takeWhile p := by
  induction t with
  | nil => cases ha
  | cons b t ih =>
    by_cases hb : p b = true
    · have hat : a ∈ t := (List.mem_cons.mp ha).resolve_left fun heq ↦ by
        rw [heq, hb] at hp
        cases hp
      simp [hb, ih hat]
    · simp [hb]

theorem NameOk.bracket {name : Text} {c : Char} (h : NameOk A name) (hname : '[' ∈ name)
    (hc : A c) : NameOk A (name ++ [c]) where
  letters := by
    rw [takeWhile_concat_of_mem hname (by decide)]
    exact h.letters
  allowed := forall_mem_concat h.allowed hc

theorem NameOk.concat {name : Text} {c : Char} (h : NameOk A name) (hc : A c)
    (hletter : isAccessor c = true ∨ isKeyLetter c = true) : NameOk A (name ++ [c]) where
  letters := by
    by_cases hall : ∀ a ∈ name, isAccessor a = false
    · rw [List.takeWhile_append_of_pos (by simpa using hall)]
      refine fun a ha ↦ (List.mem_append.mp ha).elim (fun ha ↦ h.letters a ?_) fun ha ↦ ?_
      · rwa [List.takeWhile_eq_self_iff.mpr (by simpa using hall)]
      · have hac : isAccessor a = false := by simpa using List.mem_takeWhile_imp ha
        obtain rfl := List.mem_singleton.mp ((List.takeWhile_subset _) ha)
        exact hletter.resolve_left (by simp [hac])
    · push Not at hall
      obtain ⟨a, ha, haccessor⟩ := hall
      rw [takeWhile_concat_of_mem ha (by simpa using haccessor)]
      exact h.letters
  allowed := forall_mem_concat h.allowed hc

/-- Reading keeps to the letters of the template. -/
theorem parseTemplate_ok {s : Scan} {t : Text} {pieces : List Piece} (hs : s.Ok A)
    (ht : ∀ c ∈ t, A c) (h : parseTemplate s t = some pieces) :
    ∀ f, Piece.field f ∈ pieces → FieldOk A f := by
  induction t generalizing s pieces with
  | nil =>
    cases s with
    | literal =>
      obtain rfl := Option.some.inj h
      simp
    | _ => cases h
  | cons c t ih =>
    obtain ⟨hc, ht⟩ := List.forall_mem_cons.mp ht
    -- a letter or a field was read, and the reader is back outside of fields
    have hpiece : ∀ {p : Piece}, (∀ f, p = .field f → FieldOk A f) →
        (parseTemplate .literal t).map (p :: ·) = some pieces →
        ∀ f, Piece.field f ∈ pieces → FieldOk A f := by
      intro p hp h f hf
      obtain ⟨rest, hrest, rfl⟩ := Option.map_eq_some_iff.mp h
      rcases List.mem_cons.mp hf with heq | hf
      · exact hp f heq.symm
      · exact ih (s := .literal) trivial ht hrest f hf
    have hletter : ∀ f, Piece.letter c = .field f → FieldOk A f := fun f hf ↦ by cases hf
    cases s with
    | literal =>
      rw [parseTemplate] at h
      split_ifs at h
      · refine ih ?_ ht h
        exact ⟨⟨by simp, by simp⟩, by simp⟩
      · exact ih (s := .closed) trivial ht h
      · exact hpiece hletter h
    | closed =>
      rw [parseTemplate] at h
      split_ifs at h
      exact hpiece hletter h
    | name n bracket =>
      obtain ⟨hn, hbracket⟩ := hs
      cases bracket with
      | true =>
        rw [parseTemplate] at h
        refine ih ?_ ht h
        exact ⟨hn.bracket (hbracket rfl) hc, fun _ ↦ List.mem_append_left _ (hbracket rfl)⟩
      | false =>
        rw [parseTemplate] at h
        split_ifs at h with hopen hnil hclose hmark hcolon
        · exact hpiece hletter h
        · exact hpiece (fun f hf ↦ by cases hf; exact { toNameOk := hn, spec := by simp }) h
        · exact ih (s := .mark n) hn ht h
        · refine ih ?_ ht h
          exact ⟨hn, by simp⟩
        · refine ih ?_ ht h
          refine ⟨hn.concat hc ?_, fun hbracket ↦ by simp [of_decide_eq_true hbracket]⟩
          by_cases haccessor : isAccessor c = true
          · exact .inl haccessor
          · refine .inr ?_
            simp [isAccessor] at haccessor
            simp [isKeyLetter, hopen, hclose, hmark, hcolon, haccessor]
    | mark n =>
      rw [parseTemplate] at h
      exact ih (s := .converted n c) hs ht h
    | converted n conversion =>
      have hn : NameOk A n := hs
      rw [parseTemplate] at h
      split_ifs at h
      · exact hpiece (fun f hf ↦ by cases hf; exact { toNameOk := hn, spec := by simp }) h
      · refine ih ?_ ht h
        exact ⟨hn, by simp⟩
    | spec n conversion spec depth =>
      obtain ⟨hn, hspec⟩ := hs
      have hmore := forall_mem_concat hspec hc
      cases depth with
      | zero =>
        rw [parseTemplate] at h
        split_ifs at h
        · exact ih (s := .spec n conversion (spec ++ [c]) 1) ⟨hn, hmore⟩ ht h
        · exact hpiece (fun f hf ↦ by cases hf; exact { toNameOk := hn, spec := hspec }) h
        · exact ih (s := .spec n conversion (spec ++ [c]) 0) ⟨hn, hmore⟩ ht h
      | succ depth =>
        rw [parseTemplate] at h
        split_ifs at h
        · exact ih (s := .spec n conversion (spec ++ [c]) (depth + 2)) ⟨hn, hmore⟩ ht h
        · exact ih (s := .spec n conversion (spec ++ [c]) depth) ⟨hn, hmore⟩ ht h
        · exact ih (s := .spec n conversion (spec ++ [c]) (depth + 1)) ⟨hn, hmore⟩ ht h

end Names

section Fill

variable {Double Other : Type} {py : Python Double Other} {A : Char → Prop}
  {params params' : Dict (Value Double Other)}

theorem mapM_congr_of_mem {α β : Type} {f g : α → Option β} {l : List α}
    (h : ∀ a ∈ l, f a = g a) : l.mapM f = l.mapM g := by
  induction l with
  | nil => rfl
  | cons a l ih =>
    obtain ⟨ha, hl⟩ := List.forall_mem_cons.mp h
    rw [List.mapM_cons, List.mapM_cons, ha, ih hl]

theorem FieldOk.key_mem {f : Field} (hf : FieldOk A f) : ∀ c ∈ f.key, A c :=
  fun c hc ↦ hf.allowed c (List.takeWhile_subset _ hc)

/-- Filling in looks a parameter up under names of the template's letters only. -/
theorem fill_congr (hparams : ∀ k, IsKey py A k → params k = params' k) {t : Text}
    (ht : ∀ c ∈ t, A c) (depth : ℕ) : fill py params depth t = fill py params' depth t := by
  induction depth generalizing t with
  | zero => rfl
  | succ depth ih =>
    rw [fill, fill]
    rcases hpieces : parseTemplate .literal t with _ | pieces
    · rfl
    · have hok := parseTemplate_ok (s := .literal) trivial ht hpieces
      have hpiece : ∀ p ∈ pieces, fillPiece py params (fill py params depth) p =
          fillPiece py params' (fill py params' depth) p := by
        intro p hp
        rcases p with c | f
        · rfl
        · have hf := hok f hp
          rw [fillPiece, fillPiece, ih hf.spec]
          by_cases hnamed : f.key.all py.isDecimal = true
          · rw [if_pos hnamed, if_pos hnamed]
          · have hnamed' : f.key.all py.isDecimal = false := by simpa using hnamed
            rw [if_neg hnamed, if_neg hnamed, hparams f.key ⟨hf.letters, hf.key_mem, hnamed'⟩]
      simp only [Option.bind_eq_bind, Option.bind_some, mapM_congr_of_mem hpiece]

/-! ### A template of one field -/

/-- A field between two letters, so that it is a line of its own. -/
def single (k spec : Text) : Text := 'x' :: '{' :: (k ++ ':' :: (spec ++ ['}', 'x']))

theorem parseTemplate_name {k : Text} (hk : ∀ c ∈ k, isKeyLetter c = true)
    (name rest : Text) : parseTemplate (.name name false) (k ++ rest) =
      parseTemplate (.name (name ++ k) false) rest := by
  induction k generalizing name with
  | nil => simp
  | cons c k ih =>
    obtain ⟨hc, hk⟩ := List.forall_mem_cons.mp hk
    simp [isKeyLetter] at hc
    rw [List.cons_append, parseTemplate]
    simp only [hc, if_false, decide_false, ih hk]
    simp

theorem parseTemplate_spec {spec : Text} (hspec : ∀ c ∈ spec, c ≠ '{' ∧ c ≠ '}')
    (name read rest : Text) : parseTemplate (.spec name none read 0) (spec ++ rest) =
      parseTemplate (.spec name none (read ++ spec) 0) rest := by
  induction spec generalizing read with
  | nil => simp
  | cons c spec ih =>
    obtain ⟨hc, hspec⟩ := List.forall_mem_cons.mp hspec
    rw [List.cons_append, parseTemplate]
    simp only [hc, if_false, ih hspec]
    simp

theorem parseTemplate_single {k spec : Text} (hk : ∀ c ∈ k, isKeyLetter c = true)
    (hspec : ∀ c ∈ spec, c ≠ '{' ∧ c ≠ '}') : parseTemplate .literal (single k spec) =
      some [.letter 'x', .field { name := k, conversion := none, spec }, .letter 'x'] := by
  have hname := parseTemplate_name hk [] (':' :: (spec ++ ['}', 'x']))
  have hread := parseTemplate_spec hspec k [] ['}', 'x']
  rw [single, parseTemplate, parseTemplate]
  simp [hname, parseTemplate, hread]

theorem formatCommand_single {k spec : Text} (hk : IsKey py A k)
    (hspec : ∀ c ∈ spec, c ≠ '{' ∧ c ≠ '}') : formatCommand py (single k spec) params =
      (params k).bind fun value ↦
        (py.formatField value [] none spec).map fun t ↦ 'x' :: (t ++ ['x']) := by
  have haccessor : ∀ c ∈ k, (!isAccessor c) = true := by
    intro c hc
    have hletter := hk.letters c hc
    simp [isKeyLetter] at hletter
    simp [isAccessor, hletter]
  have hkey : Field.key { name := k, conversion := none, spec } = k :=
    List.takeWhile_eq_self_iff.mpr haccessor
  have hpath : Field.path { name := k, conversion := none, spec } = [] :=
    List.dropWhile_eq_nil_iff.mpr haccessor
  have hnested : '{' ∉ spec := fun h ↦ (hspec '{' h).1 rfl
  rw [formatCommand, fill, parseTemplate_single hk.letters hspec]
  have hnamed : ¬k.all py.isDecimal = true := by simp [hk.named]
  simp only [List.mapM_cons, List.mapM_nil, fillPiece, hkey, hpath, if_neg hnamed, if_neg hnested,
    Option.bind_eq_bind, Option.bind_some, Option.pure_def]
  rcases params k with _ | value
  · rfl
  · rcases h : py.formatField value [] none spec with _ | t <;> simp [h]

theorem foldContinuations_single {k spec : Text} (hk : ∀ c ∈ k, isLineBreak c = false)
    (hspec : ∀ c ∈ spec, isLineBreak c = false) :
    foldContinuations (single k spec) = single k spec := by
  have hbreak : ∀ c ∈ single k spec, ¬isLineBreak c = true := by
    simp only [single, List.mem_cons, List.mem_append, List.not_mem_nil, or_false]
    rintro c (rfl | rfl | hc | rfl | hc | rfl | rfl)
    all_goals first
      | decide
      | simp [hk c hc]
      | simp [hspec c hc]
  obtain ⟨middle, hmiddle⟩ : ∃ middle, single k spec = 'x' :: middle ++ ['x'] :=
    ⟨'{' :: (k ++ ':' :: (spec ++ ['}'])), by simp [single]⟩
  have hfold : foldLine (single k spec) = single k spec := by
    rw [foldLine, Recipes.trim, hmiddle, List.cons_append,
      List.dropWhile_cons_of_neg (by decide), ← List.cons_append,
      List.rdropWhile_concat_neg _ _ _ (by decide), List.rdropWhile_concat_neg _ _ _ (by decide)]
  rw [foldContinuations, List.splitOnP_eq_singleton (by simpa using hbreak), List.map_singleton,
    hfold]
  simp [single]

end Fill

end SparkPulse.Engines
