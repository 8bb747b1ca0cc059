import Mathlib.Data.List.Infix
import SparkPulse.Recipes.Names
import SparkPulse.Runtime.Persistence

/-!
# Redaction of a launch script

A script is redacted after it was rendered: `_EXPORT_RE` is substituted in its text, a line at a
time. What the pattern finds in the text of one variable does not depend on the text around it,
since no match reaches over a quote; what is left of the variable's value is what stands on its
further lines, or all of it when the pattern does not find the name.

`alnum` is `str.isalnum` outside ASCII.
-/

namespace SparkPulse.Preview

open Recipes (Text)

/-! ## Names -/

def redacted : Text := "[REDACTED]".toList

/-- The letter that a letter is compared as when case is ignored. -/
def foldCase (c : Char) : Char :=
  if c = 'ı' ∨ c = 'İ' then 'I' else if c = 'ſ' then 'S' else if c = '\u212a' then 'K'
  else c.toUpper

/-- The alternatives of `_SECRET_NAME_RE`. -/
def secretWords : List Text :=
  ["TOKEN", "SECRET", "PASSWORD", "PASSWD", "API_KEY", "ACCESS_KEY", "CREDENTIAL"].map
    String.toList

/-- Whether a variable's name marks its value as a credential. -/
def isSecretEnv (name : Text) : Bool := secretWords.any fun word ↦ word <:+: name.map foldCase

/-- An environment, in the order of its insertions. -/
abbrev Env := List (Text × Text)

/-- An environment with every credential's value replaced. -/
def redactEnv (env : Env) : Env :=
  env.map fun (name, value) ↦ (name, if isSecretEnv name then redacted else value)

/-! ## The export pattern -/

variable (alnum : Char → Bool)

/-- `\w` -/
def isWord (c : Char) : Bool :=
  c.isAlphanum || c = '_' || (0x80 ≤ c.val && alnum c && !Runtime.isSpace c)

/-- What `_EXPORT_RE` finds at the start of a line, up to the end of its second group. -/
structure Export where
  /-- The first group: the keyword, the blanks, the name and the equals sign. -/
  head : Text
  name : Text
  /-- The text after the first group. -/
  value : Text
  deriving DecidableEq

def keyword : Text := "export".toList

/-- `export\s+(\w+)=` at the start of a text. -/
def findExport (s : Text) : Option Export :=
  if keyword <+: s then
    let blanks := (s.drop keyword.length).takeWhile Runtime.isSpace
    let named := (s.drop keyword.length).dropWhile Runtime.isSpace
    let name := named.takeWhile (isWord alnum)
    match named.dropWhile (isWord alnum) with
    | '=' :: value =>
      if blanks = [] ∨ name = [] then none
      else some { head := keyword ++ blanks ++ name ++ ['='], name, value }
    | _ => none
  else none

/-- The rest of the line, which is the third group. -/
def Export.line (m : Export) : Text := m.value.takeWhile (· ≠ '\n')

/-- What a match is replaced by. -/
def Export.shown (m : Export) : Text :=
  m.head ++ if isSecretEnv m.name then '"' :: redacted ++ ['"'] else m.line

/-- The length of a match. -/
def Export.size (m : Export) : Nat := m.head.length + m.line.length

/-- `_EXPORT_RE.sub` from a place in a text: whether the place starts a line, and how many of the
characters there belong to a match that was replaced. -/
def redactFrom : Bool → Nat → Text → Text
  | _, _, [] => []
  | _, skip + 1, c :: s => redactFrom (c = '\n') skip s
  | start, 0, c :: s =>
    match if start then findExport alnum (c :: s) else none with
    | some m => m.shown ++ redactFrom false (m.size - 1) s
    | none => c :: redactFrom (c = '\n') 0 s

/-- A launch script with each credential's exported value replaced. -/
def redactScript (script : Text) : Text := redactFrom alnum true 0 script

/-! ## What a match is found in -/

section Stop

variable {p : Char → Bool} {a : Char}

theorem takeWhile_append_stop (ha : p a = false) (x w : Text) :
    (x ++ a :: w).takeWhile p = x.takeWhile p := by
  induction x with
  | nil => simp [ha]
  | cons c x ih => by_cases hc : p c = true <;> simp [hc, ih]

theorem dropWhile_append_stop (ha : p a = false) (x w : Text) :
    (x ++ a :: w).dropWhile p = x.dropWhile p ++ a :: w := by
  induction x with
  | nil => simp [ha]
  | cons c x ih => by_cases hc : p c = true <;> simp [hc, ih]

/-- A list without the letter starts a text exactly when it starts what stands before the letter. -/
theorem isPrefix_append_stop {k : Text} (ha : a ∉ k) (x w : Text) :
    k <+: x ++ a :: w ↔ k <+: x := by
  induction k generalizing x with
  | nil => simp
  | cons c k ih =>
    rw [List.mem_cons, not_or] at ha
    cases x with
    | nil => simp [Ne.symm ha.1]
    | cons d x => simp [List.cons_prefix_cons, ih ha.2]

end Stop

variable {alnum : Char → Bool} {s : Text} {m : Export}

/-- A match with more text after it. -/
def Export.extend (w : Text) (m : Export) : Export := { m with value := m.value ++ w }

theorem isWord_quote : isWord alnum '"' = false := rfl

/-- No match reaches over a quote. -/
theorem findExport_append_quote (x w : Text) :
    findExport alnum (x ++ '"' :: w) = (findExport alnum x).map (Export.extend ('"' :: w)) := by
  unfold findExport
  by_cases hkey : keyword <+: x
  · obtain ⟨y, rfl⟩ := hkey
    rw [if_pos ((isPrefix_append_stop (by decide) _ _).mpr (List.prefix_append ..)),
      if_pos (List.prefix_append ..), List.append_assoc, List.drop_left, List.drop_left,
      takeWhile_append_stop rfl, dropWhile_append_stop rfl]
    generalize y.takeWhile Runtime.isSpace = blanks
    generalize y.dropWhile Runtime.isSpace = named
    simp only
    rw [takeWhile_append_stop isWord_quote, dropWhile_append_stop isWord_quote]
    generalize named.takeWhile (isWord alnum) = name
    rcases named.dropWhile (isWord alnum) with _ | ⟨c, value⟩
    · rfl
    · by_cases hc : c = '='
      · subst hc
        by_cases hblank : blanks = [] ∨ name = [] <;> simp [hblank, Export.extend]
      · simp [hc]
  · rw [if_neg ((isPrefix_append_stop (by decide) _ _).not.mpr hkey), if_neg hkey]
    rfl

/-- A match is the text it was found in, and is not empty. -/
theorem findExport_eq_some (h : findExport alnum s = some m) :
    s = m.head ++ m.value ∧ m.head ≠ [] := by
  unfold findExport at h
  split at h
  · rename_i hkey
    obtain ⟨y, rfl⟩ := hkey
    rw [List.drop_left] at h
    simp only at h
    split at h
    · rename_i value hvalue
      split at h
      · cases h
      · cases h
        have hnamed := List.takeWhile_append_dropWhile (p := isWord alnum)
          (l := y.dropWhile Runtime.isSpace)
        have hblanks := List.takeWhile_append_dropWhile (p := Runtime.isSpace) (l := y)
        rw [hvalue] at hnamed
        refine ⟨?_, by simp⟩
        simp only [List.append_assoc, List.singleton_append]
        rw [hnamed, hblanks]
    · cases h
  · cases h

/-! ## One line and the next -/

theorem Export.line_append_dropWhile (m : Export) :
    m.line ++ m.value.dropWhile (· ≠ '\n') = m.value := List.takeWhile_append_dropWhile

theorem Export.line_extend (w : Text) (m : Export) : (m.extend ('\n' :: w)).line = m.line :=
  takeWhile_append_stop (by simp) _ _

theorem Export.shown_extend (w : Text) (m : Export) : (m.extend ('\n' :: w)).shown = m.shown := by
  rw [Export.shown, line_extend]
  rfl

theorem Export.size_extend (w : Text) (m : Export) : (m.extend ('\n' :: w)).size = m.size := by
  rw [Export.size, line_extend]
  rfl

theorem size_le_length (h : findExport alnum s = some m) : m.size ≤ s.length := by
  rw [(findExport_eq_some h).1, ← m.line_append_dropWhile, Export.size, List.length_append,
    List.length_append]
  omega

theorem size_pos (h : findExport alnum s = some m) : 0 < m.size :=
  Nat.add_pos_left (List.length_pos_of_ne_nil (findExport_eq_some h).2) _

/-- A text that ends in a quote, or is empty, is redacted without regard to the lines after it. -/
theorem redactFrom_line {x : Text} (hx : ∀ c ∈ x.getLast?, c = '"') (start : Bool) (skip : Nat)
    (hskip : skip ≤ x.length) (t : Text) :
    redactFrom alnum start skip (x ++ '\n' :: t) =
      redactFrom alnum start skip x ++ '\n' :: redactFrom alnum true 0 t := by
  induction x generalizing start skip with
  | nil =>
    obtain rfl : skip = 0 := by simpa using hskip
    cases start <;> simp [redactFrom, findExport, keyword]
  | cons c x ih =>
    have hx' : ∀ c ∈ x.getLast?, c = '"' := by
      cases x with
      | nil => simp
      | cons d x => simpa [List.getLast?_cons_cons] using hx
    cases skip with
    | succ skip =>
      simp only [List.cons_append, redactFrom]
      exact ih hx' _ _ (by simpa using hskip)
    | zero =>
      -- The text ends in a quote, so what is found in it does not change with what follows.
      have hfind : findExport alnum (c :: (x ++ '\n' :: t)) =
          (findExport alnum (c :: x)).map (Export.extend ('\n' :: t)) := by
        obtain ⟨y, hy⟩ : ∃ y, c :: x = y ++ ['"'] :=
          ⟨(c :: x).dropLast, by
            have hlast := hx _ (List.getLast?_eq_some_getLast (List.cons_ne_nil c x))
            conv_lhs => rw [← List.dropLast_append_getLast (List.cons_ne_nil c x), hlast]⟩
        rw [← List.cons_append, hy, List.append_assoc, List.singleton_append,
          findExport_append_quote, findExport_append_quote, Option.map_map]
        congr 1
        funext m
        simp [Export.extend]
      rw [List.cons_append, redactFrom, redactFrom, hfind]
      cases start with
      | false => simp [ih hx' _ 0 (Nat.zero_le _)]
      | true =>
        simp only [if_true]
        cases hm : findExport alnum (c :: x) with
        | none => simp [ih hx' _ 0 (Nat.zero_le _)]
        | some m =>
          have hsize := size_le_length hm
          have hpos := size_pos hm
          simp only [Option.map_some, Export.shown_extend, Export.size_extend, List.append_assoc]
          rw [ih hx' _ _ (by simp only [List.length_cons] at hsize; omega)]

theorem count_newline_line (m : Export) : m.line.count '\n' = 0 := by
  rw [List.count_eq_zero]
  intro hmem
  simpa using List.mem_takeWhile_imp hmem

/-- Redaction keeps the lines apart. -/
theorem count_redactFrom (start : Bool) (skip : Nat) (s : Text) :
    (redactFrom alnum start skip s).count '\n' = (s.drop skip).count '\n' := by
  induction s generalizing start skip with
  | nil => simp [redactFrom]
  | cons c s ih =>
    cases skip with
    | succ skip => rw [redactFrom, ih, List.drop_succ_cons]
    | zero =>
      rw [redactFrom]
      split
      · rename_i m hm
        have hfound : findExport alnum (c :: s) = some m := by
          cases start with
          | false => cases hm
          | true => simpa using hm
        have hwhole : c :: s = (m.head ++ m.line) ++ m.value.dropWhile (· ≠ '\n') := by
          rw [List.append_assoc, m.line_append_dropWhile]
          exact (findExport_eq_some hfound).1
        have hdrop : s.drop (m.size - 1) = m.value.dropWhile (· ≠ '\n') := by
          have hsize : m.size = m.size - 1 + 1 := (Nat.sub_add_cancel (size_pos hfound)).symm
          rw [← List.drop_succ_cons (a := c), ← hsize, hwhole, Export.size, ← List.length_append,
            List.drop_left]
        have hshown : m.shown.count '\n' = m.head.count '\n' := by
          rw [Export.shown, List.count_append]
          split
          · rw [show ('"' :: redacted ++ ['"']).count '\n' = 0 by decide, Nat.add_zero]
          · rw [count_newline_line, Nat.add_zero]
        rw [List.count_append, ih, hdrop, hshown, List.drop_zero, hwhole, List.count_append,
          List.count_append, count_newline_line, Nat.add_zero]
      · rw [List.count_cons, ih, List.drop_zero, List.drop_zero, List.count_cons]

/-! ## One variable

What is shown of `export NAME="value"`. -/

/-- Whether the pattern finds a credential's name on the line where the value begins. -/
def hidesFrom (alnum : Char → Bool) : Bool → Nat → Text → Bool
  | _, _, [] => false
  | _, skip + 1, c :: s => hidesFrom alnum (c = '\n') skip s
  | start, 0, c :: s =>
    match if start then findExport alnum (c :: s) else none with
    | some m =>
      if '\n' ∈ m.value then hidesFrom alnum false (m.size - 1) s else isSecretEnv m.name
    | none => hidesFrom alnum (c = '\n') 0 s

/-- Away from the start of a line nothing is found up to its end. -/
theorem redactFrom_inline {s : Text} (hs : '\n' ∉ s) : redactFrom alnum false 0 s = s := by
  induction s with
  | nil => rfl
  | cons c s ih =>
    rw [List.mem_cons, not_or] at hs
    simp [redactFrom, Ne.symm hs.1, ih hs.2]

theorem redactFrom_of_length_le {s : Text} (start : Bool) {skip : Nat} (h : s.length ≤ skip) :
    redactFrom alnum start skip s = [] := by
  induction s generalizing start skip with
  | nil => cases start <;> simp [redactFrom]
  | cons c s ih =>
    cases skip with
    | zero => cases h
    | succ skip => exact ih _ (Nat.le_of_succ_le_succ h)

theorem Export.line_extend_of_mem {m : Export} (hm : '\n' ∈ m.value) (w : Text) :
    (m.extend w).line = m.line := by
  obtain ⟨a, b, hsplit⟩ := List.append_of_mem hm
  rw [Export.line, Export.line, Export.extend, hsplit, List.append_assoc, List.cons_append,
    takeWhile_append_stop (by simp), takeWhile_append_stop (by simp)]

theorem Export.line_of_notMem {m : Export} (hm : '\n' ∉ m.value) : m.line = m.value :=
  List.takeWhile_eq_self_iff.mpr fun c hc ↦ by
    rw [decide_eq_true_iff]
    rintro rfl
    exact hm hc

/-- What is redacted of a text that a quoted value of one line follows does not depend on the value,
or is followed by all of it. -/
theorem redactFrom_value (start : Bool) (skip : Nat) (x : Text) (hskip : skip ≤ x.length) :
    if hidesFrom alnum start skip x then
      ∃ shown, ∀ v, '\n' ∉ v → redactFrom alnum start skip (x ++ '"' :: (v ++ ['"'])) = shown
    else ∃ before, ∀ v, '\n' ∉ v →
      redactFrom alnum start skip (x ++ '"' :: (v ++ ['"'])) = before ++ '"' :: (v ++ ['"']) := by
  induction x generalizing start skip with
  | nil =>
    obtain rfl : skip = 0 := by simpa using hskip
    rw [hidesFrom, if_neg Bool.false_ne_true]
    refine ⟨[], fun v hv ↦ ?_⟩
    have hinline : redactFrom alnum false 0 (v ++ ['"']) = v ++ ['"'] :=
      redactFrom_inline (by simpa using hv)
    cases start <;> simp [redactFrom, findExport, keyword, hinline]
  | cons c x ih =>
    cases skip with
    | succ skip =>
      simp only [List.cons_append, redactFrom, hidesFrom]
      exact ih _ _ (by simpa using hskip)
    | zero =>
      simp only [List.cons_append, redactFrom, hidesFrom]
      cases hm : if start = true then findExport alnum (c :: x) else none with
      | none =>
        have hnone : ∀ w, (if start = true then findExport alnum (c :: (x ++ '"' :: w)) else none) =
            none := by
          intro w
          cases start with
          | false => rfl
          | true => 
            rw [if_pos rfl] at hm ⊢
            rw [← List.cons_append, findExport_append_quote, hm]
            rfl
        simp only [hnone]
        have := ih (c = '\n') 0 (Nat.zero_le _)
        split_ifs at this ⊢
        · obtain ⟨shown, hshown⟩ := this
          exact ⟨c :: shown, fun v hv ↦ by rw [hshown v hv]⟩
        · obtain ⟨before, hbefore⟩ := this
          exact ⟨c :: before, fun v hv ↦ by rw [hbefore v hv]; rfl⟩
      | some m =>
        obtain ⟨rfl, hfound⟩ : start = true ∧ findExport alnum (c :: x) = some m := by
          cases start with
          | false => cases hm
          | true => exact ⟨rfl, hm⟩
        have hsome : ∀ w, findExport alnum (c :: (x ++ '"' :: w)) = some (m.extend ('"' :: w)) := by
          intro w
          rw [← List.cons_append, findExport_append_quote, hfound]
          rfl
        simp only [if_true, hsome]
        by_cases hmem : '\n' ∈ m.value
        · have hline : ∀ w, (m.extend w).line = m.line := Export.line_extend_of_mem hmem
          have hshown : ∀ w, (m.extend w).shown = m.shown := fun w ↦ by
            rw [Export.shown, hline]
            rfl
          have hsize : ∀ w, (m.extend w).size = m.size := fun w ↦ by
            rw [Export.size, hline]
            rfl
          have hle : m.size - 1 ≤ x.length := by
            have := size_le_length hfound
            simp only [List.length_cons] at this
            omega
          have := ih false (m.size - 1) hle
          simp only [if_pos hmem, hshown, hsize]
          split_ifs at this ⊢
          · obtain ⟨shown, hshown⟩ := this
            exact ⟨m.shown ++ shown, fun v hv ↦ by rw [hshown v hv]⟩
          · obtain ⟨before, hbefore⟩ := this
            exact ⟨m.shown ++ before, fun v hv ↦ by rw [hbefore v hv, List.append_assoc]⟩
        · -- The match goes on to the end of the line, and so to the end of the text.
          have hline : ∀ v, '\n' ∉ v → (m.extend ('"' :: (v ++ ['"']))).line =
              m.value ++ '"' :: (v ++ ['"']) := by
            intro v hv
            exact Export.line_of_notMem (by simpa [Export.extend, hmem] using hv)
          have hrest : ∀ v, '\n' ∉ v → redactFrom alnum false
              ((m.extend ('"' :: (v ++ ['"']))).size - 1) (x ++ '"' :: (v ++ ['"'])) = [] := by
            intro v hv
            refine redactFrom_of_length_le _ ?_
            have hlength := congrArg List.length (findExport_eq_some hfound).1
            rw [Export.size, hline v hv]
            simp only [List.length_append, List.length_cons, Export.extend] at hlength ⊢
            omega
          rw [if_neg hmem]
          split_ifs with hsecret
          · refine ⟨m.head ++ ('"' :: redacted ++ ['"']), fun v hv ↦ ?_⟩
            rw [hrest v hv, List.append_nil, Export.shown]
            exact congrArg (m.head ++ ·) (if_pos hsecret)
          · refine ⟨m.head ++ m.value, fun v hv ↦ ?_⟩
            rw [hrest v hv, List.append_nil, Export.shown, hline v hv, List.append_assoc]
            exact congrArg (m.head ++ ·) (if_neg hsecret)

/-- The line of a variable in a launch script, up to its value. -/
def exportHead (name : Text) : Text := keyword ++ ' ' :: (name ++ ['='])

/-- The line of a variable in a launch script. -/
def exportLine (name value : Text) : Text := exportHead name ++ '"' :: (value ++ ['"'])

/-- Whether a one-line value of the variable is redacted. -/
def hides (alnum : Char → Bool) (name : Text) : Bool := hidesFrom alnum true 0 (exportHead name)

theorem hidesFrom_of_found (h : findExport alnum s = some m) (hm : '\n' ∉ m.value) :
    hidesFrom alnum true 0 s = isSecretEnv m.name := by
  cases s with
  | nil => simp [findExport, keyword] at h
  | cons c s =>
    rw [hidesFrom, if_pos rfl, h]
    exact if_neg hm

variable {name v v' : Text}

/-- Two one-line values of a variable are shown alike exactly when they are the same or the pattern
hides them. -/
theorem redactScript_exportLine (hv : '\n' ∉ v) (hv' : '\n' ∉ v') :
    redactScript alnum (exportLine name v) = redactScript alnum (exportLine name v') ↔
      v = v' ∨ hides alnum name = true := by
  have hvalue := @redactFrom_value alnum true 0 (exportHead name) (Nat.zero_le _)
  rw [redactScript, redactScript, exportLine, exportLine, hides]
  split_ifs at hvalue with hhides
  · obtain ⟨shown, hshown⟩ := hvalue
    rw [hshown v hv, hshown v' hv']
    exact iff_of_true rfl (.inr hhides)
  · obtain ⟨before, hbefore⟩ := hvalue
    rw [hbefore v hv, hbefore v' hv', or_iff_left hhides]
    simp

theorem isSpace_eq_false_of_isWord {c : Char} (hc : isWord alnum c = true) :
    Runtime.isSpace c = false := by
  by_contra hspace
  rw [Bool.not_eq_false] at hspace
  have halpha : c.isAlphanum = false := by
    by_contra halpha
    rw [Runtime.isSpace_eq_false_of_isAlphanum (Bool.not_eq_false _ ▸ halpha)] at hspace
    cases hspace
  have hunderscore : c ≠ '_' := by
    rintro rfl
    cases hspace
  simp [isWord, halpha, hunderscore, hspace] at hc

/-- A name of word characters is found, whatever it is. -/
theorem hides_of_isWord (hne : name ≠ []) (hword : ∀ c ∈ name, isWord alnum c = true) :
    hides alnum name = isSecretEnv name := by
  have hfind : findExport alnum (exportHead name) =
      some { head := exportHead name, name, value := [] } := by
    obtain ⟨c, n, rfl⟩ := List.exists_cons_of_ne_nil hne
    have hblanks : (' ' :: (c :: n ++ ['='])).takeWhile Runtime.isSpace = [' '] ∧
        (' ' :: (c :: n ++ ['='])).dropWhile Runtime.isSpace = c :: n ++ ['='] := by
      have hc := isSpace_eq_false_of_isWord (hword c List.mem_cons_self)
      rw [List.takeWhile_cons_of_pos rfl, List.dropWhile_cons_of_pos rfl, List.cons_append,
        List.takeWhile_cons_of_neg (by simp [hc]), List.dropWhile_cons_of_neg (by simp [hc])]
      exact ⟨rfl, rfl⟩
    have hname : (c :: n ++ ['=']).takeWhile (isWord alnum) = c :: n ∧
        (c :: n ++ ['=']).dropWhile (isWord alnum) = ['='] := by
      rw [takeWhile_append_stop rfl, dropWhile_append_stop rfl,
        List.takeWhile_eq_self_iff.mpr hword, List.dropWhile_eq_nil_iff.mpr hword]
      exact ⟨rfl, rfl⟩
    rw [findExport, exportHead, if_pos (List.prefix_append ..), List.drop_left]
    simp only [hblanks, hname]
    simp
  rw [hides, hidesFrom_of_found hfind (by simp)]

example : redactScript (fun _ ↦ false) "export HF_TOKEN=\"a\"\nexport N=\"b\"\n".toList =
    "export HF_TOKEN=\"[REDACTED]\"\nexport N=\"b\"\n".toList := by decide +kernel

end SparkPulse.Preview
