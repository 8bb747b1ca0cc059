import Mathlib.Data.Char
import Mathlib.Data.List.Basic

/-!
# The text exposition format

What a server of metrics writes: a sample on each line, with its labels, its number, perhaps a time
and perhaps an exemplar, and comments between the samples. The values of labels are quoted; in them
a backslash, a quote and the end of a line are written as two letters, and every other letter as
itself. How numbers are written is a parameter.
-/

namespace Prometheus

abbrev Text := List Char

/-! ## Names and numbers -/

def isNameChar (c : Char) : Bool := c.isAlphanum || c = '_' || c = ':'

def isMetricName : Text → Bool
  | [] => false
  | c :: cs => (c.isAlpha || c = '_' || c = ':') && cs.all isNameChar

def isLabelName : Text → Bool
  | [] => false
  | c :: cs => (c.isAlpha || c = '_') && cs.all fun c ↦ c.isAlphanum || c = '_'

def isNumberChar (c : Char) : Bool := c.isAlphanum || c = '+' || c = '-' || c = '.'

/-- Numbers, how they are written, and what is read in a text. -/
structure Numbers (V : Type) where
  text : V → Text
  read : Text → Option V
  isFinite : V → Bool
  text_ne_nil : ∀ v, text v ≠ []
  isNumberChar_of_mem : ∀ v, ∀ c ∈ text v, isNumberChar c = true
  read_text : ∀ v, read (text v) = some v

/-! ## Samples -/

structure Label where
  name : Text
  value : Text
  named : isLabelName name = true
  deriving DecidableEq, Repr

structure Exemplar (V : Type) where
  labels : List Label
  value : V
  time : Option V

/-- A sample: its number is finite, and no two of its labels have one name. -/
structure Sample {V : Type} (N : Numbers V) where
  name : Text
  named : isMetricName name = true
  labels : List Label
  nodup : (labels.map Label.name).Nodup
  value : V
  finite : N.isFinite value = true
  time : Option V
  exemplar : Option (Exemplar V)

inductive Line {V : Type} (N : Numbers V)
  | sample (s : Sample N)
  /-- A comment, without the number sign before it. -/
  | comment (text : Text) (oneLine : '\n' ∉ text)

/-! ## Printing -/

def escape : Text → Text
  | [] => []
  | c :: cs =>
    if c = '\\' then '\\' :: '\\' :: escape cs
    else if c = '"' then '\\' :: '"' :: escape cs
    else if c = '\n' then '\\' :: 'n' :: escape cs
    else c :: escape cs

def Label.print (l : Label) : Text := l.name ++ '=' :: '"' :: (escape l.value ++ ['"'])

def printLabels : List Label → Text
  | [] => []
  | [l] => l.print
  | l :: l' :: ls => l.print ++ ',' :: printLabels (l' :: ls)

section
variable {V : Type} (N : Numbers V)

/-- A number, and a time if there is one. -/
def printNumber (value : V) (time : Option V) : Text :=
  N.text value ++ (time.elim [] fun t ↦ ' ' :: N.text t)

def Exemplar.print (e : Exemplar V) : Text :=
  '{' :: (printLabels e.labels ++ '}' :: ' ' :: printNumber N e.value e.time)

variable {N}

/-- What is written before the exemplar. -/
def Sample.printBody (s : Sample N) : Text :=
  if s.labels = [] then s.name ++ ' ' :: printNumber N s.value s.time
  else s.name ++ '{' :: (printLabels s.labels ++ '}' :: ' ' :: printNumber N s.value s.time)

def Sample.print (s : Sample N) : Text :=
  s.printBody ++ s.exemplar.elim [] fun e ↦ ' ' :: '#' :: ' ' :: e.print N

def Line.print : Line N → Text
  | .sample s => s.print
  | .comment text _ => '#' :: text

/-- A file: its lines, each with its end. -/
def print (lines : List (Line N)) : Text := (lines.map Line.print).flatMap fun l ↦ l ++ ['\n']

end

/-! ## Letters -/

variable {V : Type} {N : Numbers V} {c : Char} {t : Text}

theorem isNameChar_of_isMetricName (h : isMetricName t = true) :
    t ≠ [] ∧ ∀ c ∈ t, isNameChar c = true := by
  rcases t with _ | ⟨a, t⟩
  · cases h
  · rw [isMetricName, Bool.and_eq_true] at h
    refine ⟨List.cons_ne_nil _ _, List.forall_mem_cons.mpr ⟨?_, List.all_eq_true.mp h.2⟩⟩
    obtain ⟨ha, -⟩ := h
    rw [isNameChar, Char.isAlphanum]
    rw [Bool.or_eq_true, Bool.or_eq_true] at ha
    rcases ha with (ha | ha) | ha <;> simp [ha]

theorem isNameChar_of_isLabelName (h : isLabelName t = true) :
    t ≠ [] ∧ ∀ c ∈ t, isNameChar c = true := by
  rcases t with _ | ⟨a, t⟩
  · cases h
  · rw [isLabelName, Bool.and_eq_true] at h
    obtain ⟨ha, ht⟩ := h
    refine ⟨List.cons_ne_nil _ _, List.forall_mem_cons.mpr ⟨?_, fun c hc ↦ ?_⟩⟩
    · rw [isNameChar, Char.isAlphanum]
      rw [Bool.or_eq_true] at ha
      rcases ha with ha | ha <;> simp [ha]
    · have hall := List.all_eq_true.mp ht c hc
      rw [isNameChar, hall, Bool.true_or]

/-- The letters that the format itself is made of. -/
def marks : List Char := [' ', '{', '}', '"', '=', ',', '#', '\\', '\n']

/-- Names have none of the marks in them. -/
theorem ne_of_isNameChar {d : Char} (hc : isNameChar c = true) (hd : d ∈ marks) : c ≠ d := by
  have hnone : marks.any isNameChar = false := by decide
  rintro rfl
  exact List.any_eq_false.mp hnone c hd hc

theorem ne_of_isNumberChar {d : Char} (hc : isNumberChar c = true) (hd : d ∈ marks) : c ≠ d := by
  have hnone : marks.any isNumberChar = false := by decide
  rintro rfl
  exact List.any_eq_false.mp hnone c hd hc

/-- A number, and a time, are letters of numbers and a blank. -/
theorem mem_printNumber {v : V} {time : Option V} (h : c ∈ printNumber N v time) :
    isNumberChar c = true ∨ c = ' ' := by
  rcases List.mem_append.mp h with h | h
  · exact .inl (N.isNumberChar_of_mem v c h)
  · rcases time with _ | time
    · cases h
    · rcases List.mem_cons.mp h with h | h
      · exact .inr h
      · exact .inl (N.isNumberChar_of_mem time c h)

theorem notMem_printNumber {v : V} {time : Option V} (hc : c ∈ marks) (hblank : c ≠ ' ') :
    c ∉ printNumber N v time := by
  intro h
  rcases mem_printNumber h with h | h
  · exact ne_of_isNumberChar h hc rfl
  · exact hblank h

/-- A letter of an escaped text is one of the text, no line end, or belongs to an escape. -/
theorem mem_escape (h : c ∈ escape t) : (c ∈ t ∧ c ≠ '\n') ∨ c ∈ ['\\', '"', 'n'] := by
  induction t with
  | nil => cases h
  | cons a t ih =>
    have hmore : c ∈ escape t → (c ∈ a :: t ∧ c ≠ '\n') ∨ c ∈ ['\\', '"', 'n'] := fun hc ↦
      (ih hc).imp_left fun h ↦ ⟨List.mem_cons_of_mem a h.1, h.2⟩
    rw [escape] at h
    split_ifs at h with hslash hquote hend
    · rcases List.mem_cons.mp h with rfl | h
      · exact .inr (by simp)
      · rcases List.mem_cons.mp h with rfl | h
        · exact .inr (by simp)
        · exact hmore h
    · rcases List.mem_cons.mp h with rfl | h
      · exact .inr (by simp)
      · rcases List.mem_cons.mp h with rfl | h
        · exact .inr (by simp)
        · exact hmore h
    · rcases List.mem_cons.mp h with rfl | h
      · exact .inr (by simp)
      · rcases List.mem_cons.mp h with rfl | h
        · exact .inr (by simp)
        · exact hmore h
    · rcases List.mem_cons.mp h with rfl | h
      · exact .inl ⟨List.mem_cons_self, hend⟩
      · exact hmore h

end Prometheus
