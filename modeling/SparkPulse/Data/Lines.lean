import Mathlib.Data.List.DropRight
import SparkPulse.Data.Utf8

/-!
# Lines of text and of bytes

The lines of a text are what stands between its breaks; empty ones do not count. Where bytes end at
a break, the lines of what follows are those of the whole that are not those of the bytes.
-/

namespace Lines

variable {α : Type}

/-- The lines of a text that are not empty. -/
def lines (p : α → Bool) (t : List α) : List (List α) :=
  (t.splitOnP p).filter fun l ↦ !l.isEmpty

/-- A text ends at a break, or is empty. -/
def Ended (p : α → Bool) (t : List α) : Prop := ∀ a ∈ t.getLast?, p a = true

instance (p : α → Bool) (t : List α) : Decidable (Ended p t) :=
  decidable_of_iff ((t.getLast?.all p) = true) (Option.all_eq_true _ _)

/-- The part of a text that ends at a break. -/
def ended (p : α → Bool) (t : List α) : List α := t.rdropWhile fun a ↦ !p a

/-- What follows the last break. -/
def rest (p : α → Bool) (t : List α) : List α := t.rtakeWhile fun a ↦ !p a

variable {p : α → Bool} {s t : List α}

theorem lines_nil : lines p ([] : List α) = [] := rfl

theorem ended_iff : Ended p t ↔ t = [] ∨ ∃ s a, t = s ++ [a] ∧ p a = true := by
  rcases t.eq_nil_or_concat with rfl | ⟨s, a, rfl⟩
  · exact iff_of_true (fun a ha ↦ nomatch ha) (.inl rfl)
  · rw [List.concat_eq_append, Ended, List.getLast?_concat]
    constructor
    · exact fun h ↦ .inr ⟨s, a, rfl, h a rfl⟩
    · rintro (h | ⟨s', a', h, ha⟩) b hb
      · simp at h
      · obtain ⟨-, heq⟩ := List.append_inj' h rfl
        obtain rfl := (List.cons.inj heq).1
        rwa [← Option.some.inj hb]

theorem lines_append_cons {a : α} (ha : p a = true) :
    lines p (s ++ a :: t) = lines p s ++ lines p t := by
  rw [lines, List.splitOnP_append_cons s t ha, List.filter_append, lines, lines]

/-- **Lines are read one part after the other**, when the first part ends at a break. -/
theorem lines_append (h : Ended p s) : lines p (s ++ t) = lines p s ++ lines p t := by
  rcases ended_iff.mp h with rfl | ⟨s, a, rfl, ha⟩
  · rfl
  · rw [List.append_assoc, List.singleton_append, lines_append_cons ha, lines_append_cons ha,
      lines_nil, List.append_nil]

theorem ended_append_rest (p : α → Bool) (t : List α) : ended p t ++ rest p t = t :=
  List.rdropWhile_append_rtakeWhile

theorem ended_concat_of_break {a : α} (ha : p a = true) : ended p (t ++ [a]) = t ++ [a] :=
  List.rdropWhile_concat_neg _ _ _ (by simp [ha])

theorem ended_concat {a : α} (ha : ¬p a = true) : ended p (t ++ [a]) = ended p t :=
  List.rdropWhile_concat_pos _ _ _ (by simp [ha])

theorem rest_concat_of_break {a : α} (ha : p a = true) : rest p (t ++ [a]) = [] :=
  List.rtakeWhile_concat_neg _ _ _ (by simp [ha])

theorem rest_concat {a : α} (ha : ¬p a = true) : rest p (t ++ [a]) = rest p t ++ [a] :=
  List.rtakeWhile_concat_pos _ _ _ (by simp [ha])

theorem ended_ended (p : α → Bool) (t : List α) : Ended p (ended p t) := by
  induction t using List.reverseRecOn with
  | nil => exact ended_iff.mpr (.inl rfl)
  | append_singleton t a ih =>
    by_cases ha : p a = true
    · rw [ended_concat_of_break ha]
      exact ended_iff.mpr (.inr ⟨t, a, rfl, ha⟩)
    · rw [ended_concat ha]
      exact ih

theorem rest_eq_nil_iff : rest p t = [] ↔ Ended p t := by
  rcases t.eq_nil_or_concat with rfl | ⟨s, a, rfl⟩
  · exact iff_of_true rfl (ended_iff.mpr (.inl rfl))
  · rw [List.concat_eq_append, Ended, List.getLast?_concat]
    by_cases ha : p a = true
    · rw [rest_concat_of_break ha]
      simp [ha]
    · rw [rest_concat ha]
      simp [ha]

theorem ended_eq_self (h : Ended p t) : ended p t = t := by
  have hsplit := ended_append_rest p t
  rwa [rest_eq_nil_iff.mpr h, List.append_nil] at hsplit

/-- After a text that ends at a break, breaks are those of what follows. -/
theorem ended_append (hs : Ended p s) :
    ended p (s ++ t) = s ++ ended p t ∧ rest p (s ++ t) = rest p t := by
  induction t using List.reverseRecOn with
  | nil =>
    rw [List.append_nil, ended_eq_self hs, rest_eq_nil_iff.mpr hs]
    exact ⟨(List.append_nil s).symm, rfl⟩
  | append_singleton t a ih =>
    rw [← List.append_assoc]
    by_cases ha : p a = true
    · rw [ended_concat_of_break ha, ended_concat_of_break ha, rest_concat_of_break ha,
        rest_concat_of_break ha]
      exact ⟨List.append_assoc .., rfl⟩
    · rw [ended_concat ha, ended_concat ha, rest_concat ha, rest_concat ha]
      exact ⟨ih.1, congrArg (· ++ [a]) ih.2⟩

/-- A text that is written line by line is read line by line. -/
theorem splitOnP_flatMap {b : α} (hb : p b = true) {ls : List (List α)}
    (hls : ∀ l ∈ ls, ∀ a ∈ l, p a = false) :
    (ls.flatMap fun l ↦ l ++ [b]).splitOnP p = ls ++ [[]] := by
  induction ls with
  | nil => rfl
  | cons l ls ih =>
    rw [List.flatMap_cons, List.append_assoc, List.singleton_append,
      List.splitOnP_append_cons _ _ hb, List.splitOnP_eq_singleton (hls l List.mem_cons_self),
      ih fun l' hl' ↦ hls l' (List.mem_cons_of_mem l hl')]
    rfl

/-! ## Bytes -/

/-- How lines end: a byte at which a reader may stop, and the breaks of decoded text. -/
structure Breaks where
  byte : Utf8.Byte → Bool
  char : Char → Bool
  ascii : ∀ b, byte b = true → b.toNat < 0x80
  char_of_byte : ∀ b, byte b = true → char (Char.ofNat b.toNat) = true

namespace Breaks

variable (e : Breaks) {bs cs : List Utf8.Byte}

/-- The lines of bytes, decoded. -/
def lines (bs : List Utf8.Byte) : List (List Char) := Lines.lines e.char (Utf8.decode bs)

theorem lines_append (h : Ended e.byte bs) : e.lines (bs ++ cs) = e.lines bs ++ e.lines cs := by
  rcases ended_iff.mp h with rfl | ⟨bs, b, rfl, hb⟩
  · rfl
  · have hascii := e.ascii b hb
    have hchar := e.char_of_byte b hb
    have hlines : ∀ cs, e.lines (bs ++ b :: cs) = e.lines bs ++ e.lines cs := by
      intro cs
      rw [lines, Utf8.decode_append_ascii hascii, lines_append_cons hchar, lines, lines]
    rw [List.append_assoc, List.singleton_append, hlines, hlines]
    have hnil : e.lines [] = [] := rfl
    rw [hnil, List.append_nil]

end Breaks

end Lines
