import Mathlib.Data.List.DropRight

/-!
# Unit files

What systemd reads in a unit file: sections, and in them directives with a name and a value. A line
that ends in a backslash goes on in the next one that is no comment, unless a backslash before it
takes that meaning away; blanks around names and values do not count; and in a value a percent sign
is the first letter of a specifier, which stands for something else, or of another percent sign.

A value is *as written* when none of this happens in it.
-/

namespace Systemd

/-! ## Lines -/

def isLineEnd (c : Char) : Bool := c = '\n' || c = '\r' || c = '\x00'

def isBlank (c : Char) : Bool := c = ' ' || c = '\t'

/-- A line goes on in the next one: it ends in a backslash that is not escaped. -/
def goesOn : List Char → Bool
  | [] => false
  | [c] => c = '\\'
  | c :: d :: cs => if c = '\\' then goesOn cs else goesOn (d :: cs)

/-- A line that does not count, alone or between two lines that belong together. -/
def isComment (l : List Char) : Bool :=
  match l.dropWhile isBlank with
  | [] => false
  | c :: _ => c = '#' || c = ';'

/-- The lines with those that belong together made one; `sofar` is the beginning of one. -/
def join : Option (List Char) → List (List Char) → List (List Char)
  | sofar, [] => sofar.toList
  | sofar, l :: ls =>
    if isComment l then join sofar ls
    else
      let whole := sofar.getD [] ++ l
      if goesOn whole then join (some (whole.dropLast ++ [' '])) ls
      else whole :: join none ls

/-! ## Values -/

/-- The letters that have a meaning after a percent sign. -/
def specifiers : List Char := "aAbBCdDEfgGhHiIjJlLmMnNopPqsStTuUvVwWyY".toList

/-- A letter of a value, or what stands for something else. -/
inductive Piece
  | char (c : Char)
  | specifier (c : Char)
  deriving DecidableEq, Repr

/-- What a value means. -/
def readValue : List Char → List Piece
  | [] => []
  | [c] => [.char c]
  | c :: d :: cs =>
    if c = '%' then
      if d = '%' then .char '%' :: readValue cs
      else if d ∈ specifiers then .specifier d :: readValue cs
      else .char '%' :: .char d :: readValue cs
    else .char c :: readValue (d :: cs)

/-- No percent sign of a value has a meaning. -/
def isPlain : List Char → Bool
  | [] => true
  | [_] => true
  | c :: d :: cs =>
    if c = '%' then d ≠ '%' && d ∉ specifiers && isPlain cs
    else isPlain (d :: cs)

def literal (l : List Char) : List Piece := l.map .char

/-! ## Files -/

inductive Item
  | header (name : List Char)
  | directive (key : List Char) (value : List Piece)
  /-- A header that does not end: the file is not loaded. -/
  | refused
  deriving DecidableEq, Repr

def strip (l : List Char) : List Char := (l.dropWhile isBlank).rdropWhile isBlank

/-- What a line says. One that is empty or has no equals sign is passed over. -/
def parseLine (l : List Char) : Option Item :=
  match l.dropWhile isBlank with
  | [] => none
  | '[' :: cs =>
    some (if (cs.rdropWhile isBlank).getLast? = some ']'
      then .header (cs.rdropWhile isBlank).dropLast else .refused)
  | c :: cs =>
    if '=' ∈ c :: cs then
      some (.directive (strip ((c :: cs).takeWhile (· ≠ '=')))
        (readValue (strip (((c :: cs).dropWhile (· ≠ '=')).drop 1))))
    else none

def Item.isDirective : Item → Bool
  | .directive .. => true
  | _ => false

/-- What a file says. A directive before the first section is passed over. -/
def parse (text : List Char) : List Item :=
  ((join none (text.splitOnP isLineEnd)).filterMap parseLine).dropWhile Item.isDirective

/-! ## Lines that go on -/

variable {l x y : List Char} {c : Char}

/-- What stands before a letter that is no backslash does not matter. -/
theorem goesOn_append_cons (hc : c ≠ '\\') : goesOn (x ++ c :: y) = goesOn y := by
  induction x using goesOn.induct with
  | case1 =>
    rcases y with _ | ⟨d, y⟩
    · exact decide_eq_false hc
    · exact if_neg hc
  | case2 d =>
    rw [List.singleton_append, goesOn]
    split_ifs with hd
    · rfl
    · rcases y with _ | ⟨e, y⟩
      · exact decide_eq_false hc
      · exact if_neg hc
  | case3 d xs ih =>
    rw [List.cons_append, List.cons_append, goesOn, if_pos rfl, ih]
  | case4 e d xs he ih =>
    rw [List.cons_append, List.cons_append, goesOn, if_neg he]
    exact ih

theorem goesOn_concat (hc : c ≠ '\\') : goesOn (x ++ [c]) = false := goesOn_append_cons hc

theorem join_comment {sofar : Option (List Char)} {ls : List (List Char)} (h : isComment l = true) :
    join sofar (l :: ls) = join sofar ls := by
  rw [join, if_pos h]

theorem join_cons {sofar : Option (List Char)} {ls : List (List Char)} (h : isComment l = false) :
    join sofar (l :: ls) =
      if goesOn (sofar.getD [] ++ l) then join (some ((sofar.getD [] ++ l).dropLast ++ [' '])) ls
      else (sofar.getD [] ++ l) :: join none ls := by
  rw [join, if_neg (Bool.eq_false_iff.mp h)]

theorem join_of_ends {ls : List (List Char)} (h : isComment l = false) (hl : goesOn l = false) :
    join none (l :: ls) = l :: join none ls :=
  (join_cons h).trans (if_neg (Bool.eq_false_iff.mp hl))

theorem join_of_goesOn {ls : List (List Char)} (h : isComment l = false) (hl : goesOn l = true) :
    join none (l :: ls) = join (some (l.dropLast ++ [' '])) ls :=
  (join_cons h).trans (if_pos hl)

/-- Lines none of which goes on stay as they are, without the comments. -/
theorem join_append {ls ls' : List (List Char)}
    (h : ∀ l ∈ ls, isComment l = true ∨ goesOn l = false) :
    join none (ls ++ ls') = (ls.filter fun l ↦ !isComment l) ++ join none ls' := by
  induction ls with
  | nil => rfl
  | cons l ls ih =>
    have hrest := ih fun l' hl' ↦ h l' (List.mem_cons_of_mem l hl')
    cases hl : isComment l
    · have hends : goesOn l = false :=
        (h l List.mem_cons_self).resolve_left (Bool.eq_false_iff.mp hl)
      rw [List.cons_append, join_of_ends hl hends, hrest, List.filter_cons_of_pos (by simp [hl])]
      rfl
    · rw [List.cons_append, join_comment hl, hrest, List.filter_cons_of_neg (by simp [hl])]

/-- What goes on ends with the next line that does not. -/
theorem join_some {ls : List (List Char)} (h : isComment l = false)
    (hl : goesOn (x ++ l) = false) : join (some x) (l :: ls) = (x ++ l) :: join none ls :=
  (join_cons h).trans (if_neg (Bool.eq_false_iff.mp hl))

theorem join_some_of_goesOn {ls : List (List Char)} (h : isComment l = false)
    (hl : goesOn (x ++ l) = true) :
    join (some x) (l :: ls) = join (some ((x ++ l).dropLast ++ [' '])) ls :=
  (join_cons h).trans (if_pos hl)

/-! ## Values as written -/

theorem length_readValue_le (l : List Char) : (readValue l).length ≤ l.length := by
  induction l using readValue.induct with
  | case1 => exact Nat.le_refl _
  | case2 c => exact Nat.le_refl _
  | case3 cs ih =>
    rw [readValue, if_pos rfl, if_pos rfl]
    simp only [List.length_cons]
    omega
  | case4 d cs hd hspec ih =>
    rw [readValue, if_pos rfl, if_neg hd, if_pos hspec]
    simp only [List.length_cons]
    omega
  | case5 d cs hd hspec ih =>
    rw [readValue, if_pos rfl, if_neg hd, if_neg hspec]
    simp only [List.length_cons]
    omega
  | case6 c d cs hc ih =>
    rw [readValue, if_neg hc]
    simp only [List.length_cons] at ih ⊢
    omega

/-- A value means itself exactly when no percent sign in it has a meaning. -/
theorem readValue_eq_literal_iff (l : List Char) :
    readValue l = literal l ↔ isPlain l = true := by
  induction l using readValue.induct with
  | case1 => exact iff_of_true rfl rfl
  | case2 c => exact iff_of_true rfl rfl
  | case3 cs ih =>
    rw [readValue, if_pos rfl, if_pos rfl, isPlain, if_pos rfl]
    refine iff_of_false (fun h ↦ ?_) (by simp)
    have hlength := congrArg List.length h
    have hle := length_readValue_le cs
    simp only [literal, List.length_cons, List.length_map] at hlength
    omega
  | case4 d cs hd hspec ih =>
    rw [readValue, if_pos rfl, if_neg hd, if_pos hspec, isPlain, if_pos rfl]
    refine iff_of_false (fun h ↦ ?_) (by simp [hspec])
    cases h
  | case5 d cs hd hspec ih =>
    rw [readValue, if_pos rfl, if_neg hd, if_neg hspec, isPlain, if_pos rfl]
    simp only [literal, List.map_cons, List.cons.injEq, true_and] at ih ⊢
    rw [ih]
    simp [hd, hspec]
  | case6 c d cs hc ih =>
    rw [readValue, if_neg hc, isPlain, if_neg hc, ← ih]
    simp only [literal, List.map_cons, List.cons.injEq, true_and]

/-- A letter that means nothing after a percent sign parts what is plain. -/
theorem isPlain_append_cons (hc : c ≠ '%') (hspec : c ∉ specifiers) :
    isPlain (x ++ c :: y) = (isPlain x && isPlain y) := by
  have hcons : isPlain (c :: y) = isPlain y := by
    rcases y with _ | ⟨d, y⟩
    · rfl
    · rw [isPlain, if_neg hc]
  induction x using isPlain.induct with
  | case1 => exact hcons
  | case2 d =>
    have hsingle : isPlain [d] = true := rfl
    rw [hsingle, Bool.true_and, List.singleton_append, isPlain]
    split_ifs with hd
    · simp [hc, hspec]
    · exact hcons
  | case3 d xs ih =>
    rw [List.cons_append, List.cons_append, isPlain, if_pos rfl, ih, isPlain, if_pos rfl]
    simp only [Bool.and_assoc]
  | case4 e d xs he ih =>
    rw [List.cons_append, List.cons_append, isPlain, if_neg he, isPlain, if_neg he]
    exact ih

/-! ## Blanks -/

theorem strip_sublist (l : List Char) : (strip l).Sublist l :=
  (List.rdropWhile_prefix _ _).sublist.trans (List.dropWhile_sublist _)

/-- Neither the first nor the last letter is a blank. -/
def isTight (l : List Char) : Bool := l.head?.all (!isBlank ·) && l.getLast?.all (!isBlank ·)

theorem strip_eq_self_iff (l : List Char) : strip l = l ↔ isTight l = true := by
  rw [isTight, Bool.and_eq_true]
  constructor
  · intro h
    have hlength : (strip l).length = l.length := congrArg List.length h
    have hdrop : l.dropWhile isBlank = l := by
      refine (List.dropWhile_sublist _).eq_of_length_le ?_
      rw [← hlength]
      exact (List.rdropWhile_prefix _ _).sublist.length_le
    have hrdrop : l.rdropWhile isBlank = l := by rwa [strip, hdrop] at h
    constructor
    · rcases l with _ | ⟨c, l⟩
      · rfl
      · have hc : isBlank c = false := by
          by_contra hc
          rw [List.dropWhile_cons_of_pos ((Bool.not_eq_false _).mp hc)] at hdrop
          have hle := (List.dropWhile_sublist (l := l) isBlank).length_le
          have heq := congrArg List.length hdrop
          rw [List.length_cons] at heq
          omega
        simp [hc]
    · rcases l.eq_nil_or_concat with rfl | ⟨l, c, rfl⟩
      · rfl
      · rw [List.concat_eq_append] at hrdrop ⊢
        have hc : isBlank c = false := by
          by_contra hc
          rw [List.rdropWhile_concat_pos _ _ _ ((Bool.not_eq_false _).mp hc)] at hrdrop
          have hle := (List.rdropWhile_prefix isBlank l).length_le
          have heq := congrArg List.length hrdrop
          rw [List.length_append, List.length_singleton] at heq
          omega
        simp [hc]
  · rintro ⟨hhead, hlast⟩
    have hdrop : l.dropWhile isBlank = l := by
      rcases l with _ | ⟨c, l⟩
      · rfl
      · exact List.dropWhile_cons_of_neg (by simpa using hhead)
    rw [strip, hdrop]
    rcases l.eq_nil_or_concat with rfl | ⟨l, c, rfl⟩
    · rfl
    · rw [List.concat_eq_append] at hlast ⊢
      exact List.rdropWhile_concat_neg _ _ _ (by simpa using hlast)

/-- A letter that is no blank keeps the blanks at the other ends of what it parts. -/
theorem isTight_append_cons (hc : isBlank c = false) :
    isTight (x ++ c :: y) = (x.head?.all (!isBlank ·) && y.getLast?.all (!isBlank ·)) := by
  rw [isTight, List.head?_append, List.getLast?_append, List.getLast?_cons]
  congr 1
  · rcases x with _ | ⟨d, x⟩
    · simp [hc]
    · rfl
  · rcases hlast : y.getLast? with _ | d
    · simp [hc]
    · rfl

theorem getLast?_append_cons_any (hc : isBlank c = true) :
    (x ++ c :: y).getLast?.any (!isBlank ·) = y.getLast?.any (!isBlank ·) := by
  rw [List.getLast?_append, List.getLast?_cons]
  rcases y.getLast? with _ | d
  · simp [hc]
  · rfl

/-- After a blank there has to be something. -/
theorem isTight_append_blank (hx : x ≠ []) (hc : isBlank c = true) :
    isTight (x ++ c :: y) = (x.head?.all (!isBlank ·) && y.getLast?.any (!isBlank ·)) := by
  rw [isTight, List.getLast?_append, List.getLast?_cons]
  congr 1
  · obtain ⟨d, x, rfl⟩ := List.exists_cons_of_ne_nil hx
    rfl
  · rcases y.getLast? with _ | d
    · simp [hc]
    · rfl

/-- What a directive means is what was written after its equals sign, letter by letter. -/
theorem readValue_strip_eq_iff (l : List Char) :
    readValue (strip l) = literal l ↔ isTight l = true ∧ isPlain l = true := by
  rw [← strip_eq_self_iff, ← readValue_eq_literal_iff]
  constructor
  · intro h
    have hstrip : strip l = l := by
      refine (strip_sublist l).eq_of_length_le ?_
      have hlength := congrArg List.length h
      rw [literal, List.length_map] at hlength
      exact hlength ▸ length_readValue_le _
    exact ⟨hstrip, by rwa [hstrip] at h⟩
  · rintro ⟨hstrip, h⟩
    rwa [hstrip]

/-- The line of a directive. -/
theorem parseLine_directive {key value : List Char} (hkey : key.head?.all (· ≠ '[') = true)
    (hne : key ≠ []) (hletters : (key.all fun c ↦ c ≠ '=' && !isBlank c) = true) :
    parseLine (key ++ '=' :: value) = some (.directive key (readValue (strip value))) := by
  obtain ⟨c, cs, rfl⟩ := List.exists_cons_of_ne_nil hne
  have hall : ∀ d ∈ c :: cs, d ≠ '=' ∧ isBlank d = false := by
    intro d hd
    simpa using List.all_eq_true.mp hletters d hd
  have hdrop : (c :: cs ++ '=' :: value).dropWhile isBlank = c :: cs ++ '=' :: value :=
    List.dropWhile_cons_of_neg (by simp [(hall c List.mem_cons_self).2])
  have htake : (c :: cs ++ '=' :: value).takeWhile (· ≠ '=') = c :: cs := by
    rw [List.takeWhile_append_of_pos (by simpa using fun d hd ↦ (hall d hd).1)]
    simp
  have hrest : (c :: cs ++ '=' :: value).dropWhile (· ≠ '=') = '=' :: value := by
    rw [List.dropWhile_append_of_pos (by simpa using fun d hd ↦ (hall d hd).1)]
    simp
  have hstrip : strip (c :: cs) = c :: cs := by
    rw [strip_eq_self_iff, isTight, Bool.and_eq_true]
    have htight : ∀ o : Option Char, (∀ d ∈ o, d ∈ c :: cs) → o.all (!isBlank ·) = true := by
      rintro (_ | d) ho
      · rfl
      · simp [(hall d (ho d rfl)).2]
    exact ⟨htight _ fun d hd ↦ List.mem_of_mem_head? hd,
      htight _ fun d hd ↦ List.mem_of_mem_getLast? hd⟩
  have hc : c ≠ '[' := by simpa using hkey
  unfold parseLine
  rw [hdrop]
  split
  next heq => cases heq
  next heq => exact absurd (List.cons.inj heq).1 hc
  next heq =>
    rw [← heq, if_pos (by simp), htake, hrest, hstrip]
    rfl

end Systemd
