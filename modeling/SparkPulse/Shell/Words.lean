import Mathlib.Data.List.Basic

/-!
# The commands a shell reads

A shell reads a script letter by letter: a word goes on through quotes, a backslash takes the meaning
from what follows it, and a line ends a command unless a quote is open. The reader here takes simple
commands apart into their words. It does not expand anything: where a letter that is not quoted may
stand for something else, or is an operator, it gives up.

What makes texts and readings comparable is that reading never adds a letter. A word takes at least
as many letters as it has, and one more to end it; where it takes no more than that it was not quoted
at all.
-/

namespace Shell

/-- Where the reader is. -/
inductive Mode
  /-- Between words; `started` when the command has some. -/
  | gap (started : Bool)
  | gapEscape (started : Bool)
  | comment (started : Bool)
  /-- In a word, out of quotes. -/
  | bare
  | bareEscape
  | single
  | double
  | doubleEscape
  deriving DecidableEq, Repr

/-- What a letter does. -/
inductive Effect
  /-- It is no part of a word. -/
  | skip (next : Mode)
  /-- It adds these letters to a word, or begins one with them. -/
  | put (part : List Char) (next : Mode)
  | endWord
  | endCommand
  deriving DecidableEq, Repr

def isBlank (c : Char) : Bool := c = ' ' || c = '\t'

/-- Operators, and letters that are expanded. -/
def isSpecial (c : Char) : Bool := "|&;<>()$\x60*?[]~\x7b\x7d!".toList.contains c

/-- Letters that a backslash takes the meaning from within double quotes. -/
def isEscapable (c : Char) : Bool := c = '$' || c = '\x60' || c = '"' || c = '\\'

/-- A letter of a word, out of quotes. -/
def unquoted (c : Char) : Option Effect :=
  if c = '"' then some (.put [] .double)
  else if c = '\'' then some (.put [] .single)
  else if isSpecial c then none
  else some (.put [c] .bare)

def step (m : Mode) (c : Char) : Option Effect :=
  if c = '\x00' then none
  else match m with
  | .gap started =>
    if c = '\n' then some (if started then .endCommand else .skip (.gap false))
    else if isBlank c then some (.skip (.gap started))
    else if c = '#' then some (.skip (.comment started))
    else if c = '\\' then some (.skip (.gapEscape started))
    else unquoted c
  | .gapEscape started =>
    some (if c = '\n' then .skip (.gap started) else .put [c] .bare)
  | .comment started =>
    some (if c ≠ '\n' then .skip (.comment started)
      else if started then .endCommand else .skip (.gap false))
  | .bare =>
    if c = '\n' then some .endCommand
    else if isBlank c then some .endWord
    else if c = '\\' then some (.put [] .bareEscape)
    else unquoted c
  | .bareEscape => some (if c = '\n' then .put [] .bare else .put [c] .bare)
  | .single => some (if c = '\'' then .put [] .bare else .put [c] .single)
  | .double =>
    if c = '"' then some (.put [] .bare)
    else if c = '\\' then some (.put [] .doubleEscape)
    else if c = '$' ∨ c = '\x60' then none
    else some (.put [c] .double)
  | .doubleEscape =>
    some (if c = '\n' then .put [] .double
      else if isEscapable c then .put [c] .double
      else .put ['\\', c] .double)

/-- Letters before the first of these words. -/
def glue (part : List Char) : List (List Char) → List (List Char)
  | [] => [part]
  | w :: ws => (part ++ w) :: ws

/-- What the end of the script ends. -/
def finish : Mode → Option (List (List Char))
  | .gap _ | .comment _ => some []
  | .bare => some [[]]
  | _ => none

/-- The rest of a command from where the reader is, and what comes after it. -/
def words : Mode → List Char → Option (List (List Char) × List Char)
  | m, [] => (finish m).map fun ws ↦ (ws, [])
  | m, c :: s =>
    match step m c with
    | none => none
    | some (.skip next) => words next s
    | some (.put part next) => (words next s).map fun p ↦ (glue part p.1, p.2)
    | some .endWord => (words (.gap true) s).map fun p ↦ ([] :: p.1, p.2)
    | some .endCommand => some (if m = .bare then [[]] else [], s)

/-- The next command. -/
def command (s : List Char) : Option (List (List Char) × List Char) := words (.gap false) s

/-- The next so many commands. -/
def commands : ℕ → List Char → Option (List (List (List Char)) × List Char)
  | 0, s => some ([], s)
  | n + 1, s => (command s).bind fun p ↦ (commands n p.2).map fun q ↦ (p.1 :: q.1, q.2)

/-! ## What a step does -/

/-- The reader is in a word. -/
def Mode.inWord : Mode → Bool
  | .gap _ | .gapEscape _ | .comment _ => false
  | _ => true

/-- The letters that are still to come before a word can end. -/
def Mode.debt : Mode → ℕ
  | .single | .double => 1
  | _ => 0

variable {m next : Mode} {c : Char} {part s r t w : List Char} {ws : List (List Char)}

theorem step_skip (h : step m c = some (.skip next)) : m.inWord = false ∧ next.inWord = false := by
  rcases m <;> simp only [step, unquoted] at h <;> split_ifs at h <;> cases h <;> exact ⟨rfl, rfl⟩

/-- A letter is put into a word once at most, and one that opens a quote is not. -/
theorem step_put (h : step m c = some (.put part next)) :
    next.inWord = true ∧ part.length + m.debt ≤ next.debt + 1 := by
  rcases m <;> simp only [step, unquoted] at h <;> split_ifs at h <;> cases h <;>
    exact ⟨rfl, by simp [Mode.debt]⟩

theorem step_endWord (h : step m c = some .endWord) : m = .bare := by
  rcases m <;> simp only [step, unquoted] at h <;> split_ifs at h <;> first | rfl | cases h

theorem step_endCommand (h : step m c = some .endCommand) : m.inWord = true → m = .bare := by
  rcases m <;> simp only [step, unquoted] at h <;> split_ifs at h <;>
    first | exact fun _ ↦ rfl | exact Bool.noConfusion | cases h

/-- A reader that is in a word returns one. -/
theorem ne_nil_of_words (hm : m.inWord = true) (h : words m s = some (ws, r)) : ws ≠ [] := by
  rintro rfl
  rcases s with _ | ⟨c, s⟩
  · rcases m <;> first | (cases hm; done) | cases h
  · rw [words] at h
    rcases hstep : step m c with _ | next | ⟨part, next⟩ | _ | _ <;> rw [hstep] at h
    · cases h
    · rw [(step_skip hstep).1] at hm
      cases hm
    · obtain ⟨⟨_ | _, r'⟩, -, heq⟩ := Option.map_eq_some_iff.mp h <;> cases heq
    · obtain ⟨p, -, heq⟩ := Option.map_eq_some_iff.mp h
      cases heq
    · obtain rfl := step_endCommand hstep hm
      cases h

/-- How a command goes on from a letter. -/
theorem words_cons_cases (h : words m (c :: s) = some (ws, r)) :
    (∃ next, step m c = some (.skip next) ∧ words next s = some (ws, r)) ∨
      (∃ part next w ws', step m c = some (.put part next) ∧ words next s = some (w :: ws', r) ∧
        ws = (part ++ w) :: ws') ∨
      (∃ ws', step m c = some .endWord ∧ words (.gap true) s = some (ws', r) ∧ ws = [] :: ws') ∨
      step m c = some .endCommand ∧ ws = (if m = .bare then [[]] else []) ∧ r = s := by
  rw [words] at h
  rcases hstep : step m c with _ | next | ⟨part, next⟩ | _ | _ <;> rw [hstep] at h
  · cases h
  · exact .inl ⟨next, rfl, h⟩
  · obtain ⟨⟨ws', r'⟩, hwords, heq⟩ := Option.map_eq_some_iff.mp h
    obtain ⟨w, ws'', rfl⟩ :=
      List.exists_cons_of_ne_nil (ne_nil_of_words (step_put hstep).1 hwords)
    cases heq
    exact .inr (.inl ⟨part, next, w, ws'', rfl, hwords, rfl⟩)
  · obtain ⟨⟨ws', r'⟩, hwords, heq⟩ := Option.map_eq_some_iff.mp h
    cases heq
    exact .inr (.inr (.inl ⟨ws', rfl, hwords, rfl⟩))
  · cases h
    exact .inr (.inr (.inr ⟨rfl, rfl, rfl⟩))

theorem eq_nil_of_words_nil (h : words m [] = some (ws, r)) : r = [] := by
  obtain ⟨ws', -, heq⟩ := Option.map_eq_some_iff.mp h
  cases heq
  rfl

/-- What comes after a command is an end of the script. -/
theorem suffix_of_words (h : words m s = some (ws, r)) : r <:+ s := by
  induction s generalizing m ws with
  | nil => exact eq_nil_of_words_nil h ▸ List.suffix_rfl
  | cons c s ih =>
    refine List.IsSuffix.trans ?_ (List.suffix_cons c s)
    rcases words_cons_cases h with ⟨next, -, h⟩ | ⟨part, next, w, ws', -, h, -⟩ |
      ⟨ws', -, h, -⟩ | ⟨-, -, rfl⟩
    · exact ih h
    · exact ih h
    · exact ih h
    · exact List.suffix_rfl

theorem suffix_of_commands {n : ℕ} {cs : List (List (List Char))}
    (h : commands n s = some (cs, r)) : r <:+ s := by
  induction n generalizing s cs with
  | zero =>
    cases h
    exact List.suffix_rfl
  | succ n ih =>
    obtain ⟨p, hcommand, hrest⟩ := Option.bind_eq_some_iff.mp h
    obtain ⟨q, hcommands, heq⟩ := Option.map_eq_some_iff.mp hrest
    cases heq
    exact List.IsSuffix.trans (ih hcommands) (suffix_of_words hcommand)

/-! ## How much is read -/

theorem length_lt_of_words (h : words m s = some (ws, r)) (hr : r ≠ []) : r.length < s.length := by
  induction s generalizing m ws with
  | nil => exact absurd (eq_nil_of_words_nil h) hr
  | cons c s ih =>
    rw [List.length_cons, Nat.lt_succ_iff]
    rcases words_cons_cases h with ⟨next, -, h⟩ | ⟨part, next, w, ws', -, h, -⟩ |
      ⟨ws', -, h, -⟩ | ⟨-, -, rfl⟩
    · exact Nat.le_of_lt (ih h)
    · exact Nat.le_of_lt (ih h)
    · exact Nat.le_of_lt (ih h)
    · exact Nat.le_refl _

/-- What words take at least: their letters, and one to end each. -/
def extent : List (List Char) → ℕ
  | [] => 0
  | w :: ws => w.length + 1 + extent ws

@[simp] theorem extent_nil : extent [] = 0 := rfl

@[simp] theorem extent_cons (w : List Char) (ws : List (List Char)) :
    extent (w :: ws) = w.length + 1 + extent ws := rfl

/-- **Reading adds no letters.** -/
theorem extent_le_of_words (h : words m s = some (ws, r)) (hr : r ≠ []) :
    r.length + extent ws + m.debt ≤ s.length := by
  induction s generalizing m ws with
  | nil => exact absurd (eq_nil_of_words_nil h) hr
  | cons c s ih =>
    rw [List.length_cons]
    rcases words_cons_cases h with ⟨next, hstep, hwords⟩ | ⟨part, next, w, ws', hstep, hwords, rfl⟩ |
      ⟨ws', hstep, hwords, rfl⟩ | ⟨hstep, rfl, rfl⟩
    · have hdebt : m.debt = 0 := by
        obtain ⟨hm, -⟩ := step_skip hstep
        rcases m <;> first | rfl | cases hm
      have hrest := ih hwords
      omega
    · have hdebt := (step_put hstep).2
      have hrest := ih hwords
      rw [extent_cons] at hrest ⊢
      rw [List.length_append]
      omega
    · obtain rfl := step_endWord hstep
      have hrest := ih hwords
      have hdebt : Mode.debt .bare = 0 := rfl
      rw [extent_cons, List.length_nil, hdebt]
      omega
    · have hend := step_endCommand hstep
      rcases m <;> first | cases hend rfl | skip
      all_goals first | exact Nat.le_succ _ | exact Nat.le_refl _

/-- The letters that a word gains by a step out of quotes are the script's own. -/
theorem step_bare_put (h : step .bare c = some (.put part next)) (hpart : part ≠ []) :
    part = [c] ∧ next = .bare ∧ c ≠ '"' := by
  simp only [step, unquoted] at h
  split_ifs at h with hnul hline hblank hslash hdouble hsingle hspecial <;> cases h
  · exact absurd rfl hpart
  · exact absurd rfl hpart
  · exact absurd rfl hpart
  · exact ⟨rfl, rfl, hdouble⟩

/-- Where a word out of quotes takes no more than its letters, they are the script's own. -/
theorem words_bare_tight (h : words .bare s = some ([w], r)) (hr : r ≠ [])
    (hlen : s.length ≤ r.length + w.length + 1) : s = w ++ '\n' :: r ∧ '"' ∉ w := by
  induction s generalizing w with
  | nil => exact absurd (eq_nil_of_words_nil h) hr
  | cons c s ih =>
    rw [List.length_cons] at hlen
    rcases words_cons_cases h with ⟨next, hstep, -⟩ | ⟨part, next, w', ws', hstep, h, heq⟩ |
      ⟨ws', -, h, heq⟩ | ⟨hstep, heq, rfl⟩
    · cases (step_skip hstep).1
    · obtain ⟨rfl, rfl⟩ := List.cons.inj heq
      have hrest := extent_le_of_words h hr
      rw [extent_cons, extent_nil] at hrest
      rw [List.length_append] at hlen
      -- the letter was not a quote and not a backslash, or a later letter would be missing
      obtain ⟨rfl, rfl, hquote⟩ := step_bare_put hstep (by
        rintro rfl
        rw [List.length_nil] at hlen
        omega)
      rw [List.length_singleton] at hlen
      obtain ⟨rfl, hnot⟩ := ih h (by omega)
      refine ⟨rfl, fun hmem ↦ ?_⟩
      rcases List.mem_cons.mp hmem with rfl | hmem
      · exact hquote rfl
      · exact hnot hmem
    · obtain ⟨rfl, rfl⟩ := List.cons.inj heq
      have hrest := length_lt_of_words h hr
      rw [List.length_nil] at hlen
      omega
    · rw [if_pos rfl] at heq
      obtain ⟨rfl, -⟩ := List.cons.inj heq
      simp only [step, unquoted] at hstep
      split_ifs at hstep with hnul hline <;> cases hstep
      rw [hline]
      exact ⟨rfl, List.not_mem_nil⟩

/-! ## Letters that stand for themselves -/

theorem glue_append (part part' : List Char) (ws : List (List Char)) :
    glue (part ++ part') ws = glue part (glue part' ws) := by
  rcases ws with _ | ⟨w, ws⟩
  · rfl
  · rw [glue, List.append_assoc]
    rfl

/-- Letters that the reader puts into a word one by one, without leaving where it is. -/
theorem words_append (h : ∀ c ∈ t, step m c = some (.put [c] m)) (hm : m.inWord = true) :
    words m (t ++ s) = (words m s).map fun p ↦ (glue t p.1, p.2) := by
  induction t with
  | nil =>
    rw [List.nil_append]
    rcases hwords : words m s with _ | ⟨ws, r⟩
    · rfl
    · obtain ⟨w, ws, rfl⟩ := List.exists_cons_of_ne_nil (ne_nil_of_words hm hwords)
      rfl
  | cons c t ih =>
    rw [List.cons_append, words, h c List.mem_cons_self]
    dsimp only
    rw [ih fun c hc ↦ h c (List.mem_cons_of_mem _ hc), Option.map_map]
    congr 1
    funext p
    exact Prod.ext (glue_append [c] t p.1).symm rfl

/-- A word that begins with such letters. -/
theorem words_gap_append {started : Bool} (hgap : step (.gap started) c = some (.put [c] .bare))
    (h : ∀ c ∈ t, step .bare c = some (.put [c] .bare)) :
    words (.gap started) (c :: t ++ s) = (words .bare s).map fun p ↦ (glue (c :: t) p.1, p.2) := by
  rw [List.cons_append, words, hgap]
  dsimp only
  rw [words_append h rfl, Option.map_map]
  congr 1
  funext p
  exact Prod.ext (glue_append [c] t p.1).symm rfl

/-- A word of such letters, up to a blank. -/
theorem words_gap_word {started : Bool} (hgap : step (.gap started) c = some (.put [c] .bare))
    (h : ∀ c ∈ t, step .bare c = some (.put [c] .bare)) :
    words (.gap started) (c :: t ++ ' ' :: s) =
      (words (.gap true) s).map fun p ↦ ((c :: t) :: p.1, p.2) := by
  have hblank : words .bare (' ' :: s) = (words (.gap true) s).map fun p ↦ ([] :: p.1, p.2) := rfl
  rw [words_gap_append hgap h, hblank, Option.map_map]
  congr 1
  funext p
  rw [Function.comp_apply, glue, List.append_nil]

/-! ## Double quotes -/

/-- A text that double quotes leave as it is. -/
def isVerbatim : List Char → Bool
  | [] => true
  | c :: t => c ≠ '\x00' && c ≠ '"' && c ≠ '$' && c ≠ '\x60' &&
    !(c = '\\' && t.head?.all fun d ↦ isEscapable d || d = '\n') && isVerbatim t

theorem isVerbatim_cons : isVerbatim (c :: t) = true ↔
    (c ≠ '\x00' ∧ c ≠ '"' ∧ c ≠ '$' ∧ c ≠ '\x60') ∧
      (c = '\\' → ∃ d t', t = d :: t' ∧ isEscapable d = false ∧ d ≠ '\n') ∧
      isVerbatim t = true := by
  rw [isVerbatim]
  rcases t with _ | ⟨d, t⟩ <;> by_cases hc : c = '\\' <;> simp [hc, and_assoc]

/-- A letter between double quotes. -/
theorem step_double (hc : c ≠ '\x00' ∧ c ≠ '"' ∧ c ≠ '$' ∧ c ≠ '\x60') (hslash : c ≠ '\\') :
    step .double c = some (.put [c] .double) := by
  obtain ⟨hnul, hquote, hdollar, hback⟩ := hc
  simp [step, hnul, hquote, hdollar, hback, hslash]

/-- A backslash between double quotes that does not take the meaning from anything. -/
theorem words_double_backslash {d : Char} (hd : isEscapable d = false) (hline : d ≠ '\n')
    (hnul : d ≠ '\x00') : words .double ('\\' :: d :: s) =
      (words .double (d :: s)).map fun p ↦ (glue ['\\'] p.1, p.2) := by
  have hd' : ((d ≠ '$' ∧ d ≠ '\x60') ∧ d ≠ '"') ∧ d ≠ '\\' := by
    simpa [isEscapable] using hd
  have hslash : step .double '\\' = some (.put [] .doubleEscape) := by decide
  have hescape : step .doubleEscape d = some (.put ['\\', d] .double) := by
    simp [step, hnul, hline, hd]
  rw [words, hslash]
  dsimp only
  rw [words, hescape, words, step_double ⟨hnul, hd'.1.2, hd'.1.1.1, hd'.1.1.2⟩ hd'.2]
  dsimp only
  rw [Option.map_map, Option.map_map]
  rcases words .double s with _ | ⟨_ | _, r⟩ <;> rfl

/-- The closing quote is what follows the text. -/
theorem words_double_of_verbatim (h : isVerbatim t = true) :
    words .double (t ++ '"' :: s) = (words .bare s).map fun p ↦ (glue t p.1, p.2) := by
  induction t with
  | nil =>
    have hquote : step .double '"' = some (.put [] .bare) := by decide
    rw [List.nil_append, words, hquote]
  | cons c t ih =>
    obtain ⟨hc, hslash, ht⟩ := isVerbatim_cons.mp h
    have hcons : words .double (c :: t ++ '"' :: s) =
        (words .double (t ++ '"' :: s)).map fun p ↦ (glue [c] p.1, p.2) := by
      by_cases hc' : c = '\\'
      · obtain ⟨d, t', rfl, hd, hline⟩ := hslash hc'
        subst hc'
        exact words_double_backslash hd hline (isVerbatim_cons.mp ht).1.1
      · rw [List.cons_append, words, step_double hc hc']
    rw [hcons, ih ht, Option.map_map]
    congr 1
    funext p
    exact Prod.ext (glue_append [c] t p.1).symm rfl

/-- What is read from a backslash between double quotes, up to the end of the line and no further, if
it is as long as what is between the quotes. -/
theorem verbatim_of_words_escape (h : words .doubleEscape (t ++ '"' :: '\n' :: s) = some ([w], r))
    (hlen : w.length = t.length + 1) (hr : r ≠ []) (hle : s.length ≤ r.length) :
    ∃ d t' w', t = d :: t' ∧ isEscapable d = false ∧ d ≠ '\n' ∧ d ≠ '\x00' ∧ w = '\\' :: w' ∧
      words .double (t ++ '"' :: '\n' :: s) = some ([w'], r) := by
  have hcost {u w : List Char} (hwords : words .double u = some ([w], r)) :
      s.length + w.length + 2 ≤ u.length := by
    have hextent := extent_le_of_words hwords hr
    rw [extent_cons, extent_nil, Mode.debt] at hextent
    omega
  rcases t with _ | ⟨d, t⟩
  · have hquote : step .doubleEscape '"' = some (.put ['"'] .double) := by decide
    rw [List.nil_append, words, hquote] at h
    obtain ⟨⟨ws', r'⟩, hwords, heq⟩ := Option.map_eq_some_iff.mp h
    obtain ⟨w', ws', rfl⟩ := List.exists_cons_of_ne_nil (ne_nil_of_words rfl hwords)
    cases heq
    have hclose := hcost hwords
    rw [List.length_cons] at hclose
    omega
  · rw [List.cons_append, words] at h
    rw [List.length_cons] at hlen
    by_cases hnul : d = '\x00'
    · rw [step, if_pos hnul] at h
      cases h
    have hstep : step .doubleEscape d = some (if d = '\n' then .put [] .double
        else if isEscapable d then .put [d] .double else .put ['\\', d] .double) := by
      rw [step, if_neg hnul]
    rw [hstep] at h
    by_cases hline : d = '\n'
    · rw [if_pos hline] at h
      obtain ⟨⟨ws', r'⟩, hwords, heq⟩ := Option.map_eq_some_iff.mp h
      obtain ⟨w', ws', rfl⟩ := List.exists_cons_of_ne_nil (ne_nil_of_words rfl hwords)
      cases heq
      have hclose := hcost hwords
      simp only [List.length_append, List.length_cons, List.nil_append] at hclose hlen
      omega
    · rw [if_neg hline] at h
      by_cases hd : isEscapable d = true
      · rw [if_pos hd] at h
        obtain ⟨⟨ws', r'⟩, hwords, heq⟩ := Option.map_eq_some_iff.mp h
        obtain ⟨w', ws', rfl⟩ := List.exists_cons_of_ne_nil (ne_nil_of_words rfl hwords)
        cases heq
        have hclose := hcost hwords
        simp only [List.length_append, List.length_cons, List.length_nil] at hclose hlen
        omega
      · rw [if_neg hd] at h
        rw [Bool.not_eq_true] at hd
        obtain ⟨⟨ws', r'⟩, hwords, heq⟩ := Option.map_eq_some_iff.mp h
        obtain ⟨w', ws', rfl⟩ := List.exists_cons_of_ne_nil (ne_nil_of_words rfl hwords)
        cases heq
        refine ⟨d, t, d :: w', rfl, hd, hline, hnul, rfl, ?_⟩
        have hd' : ((d ≠ '$' ∧ d ≠ '\x60') ∧ d ≠ '"') ∧ d ≠ '\\' := by
          simpa [isEscapable] using hd
        rw [List.cons_append, words, step_double ⟨hnul, hd'.1.2, hd'.1.1.1, hd'.1.1.2⟩ hd'.2]
        dsimp only
        rw [hwords]
        rfl

/-- If a word gets just as many letters from a text between double quotes, and nothing is read beyond
its line, double quotes leave the text as it is. -/
theorem verbatim_of_words (h : words .double (t ++ '"' :: '\n' :: s) = some ([w], r))
    (hlen : w.length = t.length) (hr : r ≠ []) (hle : s.length ≤ r.length) :
    isVerbatim t = true := by
  induction t generalizing w with
  | nil => rfl
  | cons c t ih =>
    rw [List.length_cons] at hlen
    rw [List.cons_append] at h
    rcases words_cons_cases h with ⟨next, hstep, -⟩ | ⟨part, next, w', ws', hstep, hwords, heq⟩ |
      ⟨ws', hstep, -, -⟩ | ⟨hstep, -, -⟩
    · cases (step_skip hstep).1
    · obtain ⟨rfl, rfl⟩ := List.cons.inj heq
      rw [List.length_append] at hlen
      simp only [step] at hstep
      split_ifs at hstep with hnul hquote hslash hspecial <;> cases hstep
      · -- the quote closes, and the rest is to be read without any quoting
        have htext : (t ++ '"' :: '\n' :: s).length = t.length + 2 + s.length := by
          simp only [List.length_append, List.length_cons]
          omega
        rw [List.length_nil] at hlen
        obtain ⟨htight, hnot⟩ := words_bare_tight hwords hr (by omega)
        have hsplit : (t ++ ['"']) ++ '\n' :: s = w' ++ '\n' :: r := by
          rw [List.append_assoc, ← htight]
          rfl
        obtain ⟨rfl, -⟩ := List.append_inj hsplit (by
          rw [List.length_append, List.length_singleton]
          omega)
        exact absurd (List.mem_append_right _ List.mem_cons_self) hnot
      · rw [List.length_nil, Nat.zero_add] at hlen
        obtain ⟨d, t', w'', rfl, hd, hline, hnul', rfl, hrest⟩ :=
          verbatim_of_words_escape hwords hlen hr hle
        subst hslash
        refine isVerbatim_cons.mpr ⟨by decide, fun _ ↦ ⟨d, t', rfl, hd, hline⟩, ih hrest ?_⟩
        rw [List.length_cons] at hlen
        exact Nat.succ.inj hlen
      · rw [not_or] at hspecial
        refine isVerbatim_cons.mpr ⟨⟨hnul, hquote, hspecial⟩, fun h ↦ absurd h hslash, ih hwords ?_⟩
        rw [List.length_singleton] at hlen
        omega
    · cases step_endWord hstep
    · cases step_endCommand hstep rfl

end Shell
