import SparkPulse.Data.Lines
import SparkPulse.Engines.Format
import SparkPulse.Metrics.Readings
import SparkPulse.Prometheus.Exposition

/-!
# The series of a scrape

`parse_prometheus_text` of `engine_metrics.py`, and what it makes of a text in the exposition
format. It goes by lines, by the first opening brace of a line and by the last closing one, and
reads labels from left to right.

A line ends where `str.splitlines` ends it, which is at more letters than the format ends lines at;
and where a sample has an exemplar, the last closing brace is that of the exemplar.

## Main results

* `SparkPulse.Metrics.parseLine_print_iff`: when the line of a sample is read as the sample.
* `SparkPulse.Metrics.parse_print_iff`: when a text is read as the samples that it was written from.
-/

namespace SparkPulse.Metrics

open Prometheus

/-! ## The reader -/

/-- A dictionary of labels, in the order of its insertions. -/
abbrev Labels := List (Text × Text)

/-- `labels[key] = value` -/
def Labels.set (labels : Labels) (key value : Text) : Labels :=
  if key ∈ labels.map Prod.fst then labels.map fun p ↦ if p.1 = key then (key, value) else p
  else labels ++ [(key, value)]

def unescape (c : Char) : Char := if c = 'n' then '\n' else if c = 't' then '\t' else c

/-- The letters up to the closing quote, and what is left from the quote on. -/
def quoted : Text → Text × Text
  | [] => ([], [])
  | [c] => if c = '"' then ([], [c]) else ([c], [])
  | c :: d :: cs =>
    if c = '\\' then (unescape d :: (quoted cs).1, (quoted cs).2)
    else if c = '"' then ([], c :: d :: cs)
    else (c :: (quoted (d :: cs)).1, (quoted (d :: cs)).2)

/-- One label, and what is left after its value. -/
def readLabel (raw : Text) : Option (Text × Text × Text) :=
  match raw.dropWhile (· ≠ '=') with
  | [] => none
  | _ :: rest =>
    match rest.dropWhile (· ≠ '"') with
    | [] => none
    | _ :: value => some (Recipes.trim Runtime.isSpace (raw.takeWhile (· ≠ '=')), quoted value)

theorem length_quoted_le (t : Text) : (quoted t).2.length ≤ t.length := by
  induction t using quoted.induct with
  | case1 => exact Nat.le_refl _
  | case2 => exact Nat.le_refl _
  | case3 c hc =>
    rw [quoted, if_neg hc]
    exact Nat.zero_le _
  | case4 d cs ih =>
    rw [quoted, if_pos rfl]
    simp only [List.length_cons]
    omega
  | case5 d cs hd =>
    rw [quoted, if_neg hd, if_pos rfl]
  | case6 c d cs hslash hquote ih =>
    rw [quoted, if_neg hslash, if_neg hquote]
    simp only [List.length_cons] at ih ⊢
    omega

theorem length_readLabel_lt {raw key value rest : Text}
    (h : readLabel raw = some (key, value, rest)) : rest.length < raw.length := by
  rw [readLabel] at h
  split at h
  · cases h
  next a t hequals =>
    split at h
    · cases h
    next b value' hquote =>
      obtain rfl : (quoted value').2 = rest := congrArg (fun r ↦ r.2.2) (Option.some.inj h)
      have hle := length_quoted_le value'
      have hraw := (List.dropWhile_sublist (l := raw) (· ≠ '=')).length_le
      have hrest := (List.dropWhile_sublist (l := t) (· ≠ '"')).length_le
      rw [hequals, List.length_cons] at hraw
      rw [hquote, List.length_cons] at hrest
      omega

/-- The loop of `_parse_labels`, with the labels that it has so far. -/
def labelsFrom (labels : Labels) (raw : Text) : Labels :=
  match _hlabel : readLabel raw with
  | none => labels
  | some (key, value, rest) =>
    let labels := if key = [] then labels else labels.set key value
    if ',' ∈ rest then labelsFrom labels ((rest.dropWhile (· ≠ ',')).drop 1) else labels
termination_by raw.length
decreasing_by
  have hlt := length_readLabel_lt _hlabel
  have hle := ((List.drop_sublist 1 _).trans
    (List.dropWhile_sublist (l := rest) (· ≠ ','))).length_le
  omega

/-- `_parse_labels` -/
def parseLabels (raw : Text) : Labels := labelsFrom [] raw

/-- `str.split`, at blanks. -/
def words (t : Text) : List Text := (t.splitOnP Runtime.isSpace).filter (· ≠ [])

/-- The name, the labels and the number of a line, the number as it is written. -/
def splitLine (line : Text) : Option (Text × Labels × Text) :=
  match line.dropWhile (· ≠ '{') with
  | [] =>
    match words line with
    | name :: value :: _ => some (name, [], value)
    | _ => none
  | _ :: rest =>
    if '}' ∈ rest then
      match words (rest.rtakeWhile (· ≠ '}')) with
      | value :: _ => some (Recipes.trim Runtime.isSpace (line.takeWhile (· ≠ '{')),
          parseLabels (rest.rdropWhile (· ≠ '}')).dropLast, value)
      | [] => none
    else none

/-- Put a series to those of its name. -/
def addTo {V : Type} (s : Series Labels V) :
    List (String × List (Series Labels V)) → List (String × List (Series Labels V))
  | [] => [(s.name, [s])]
  | (name, ss) :: families =>
    if name = s.name then (name, ss ++ [s]) :: families else (name, ss) :: addTo s families

/-- Series by name, in order. -/
def grouped {V : Type} (ss : List (Series Labels V)) : List (String × List (Series Labels V)) :=
  ss.foldl (fun families s ↦ addTo s families) []

section
variable {V : Type} (N : Numbers V)

/-- One line of a text; `none` where it is passed over. -/
def parseLine (line : Text) : Option (Series Labels V) :=
  let line := Recipes.trim Runtime.isSpace line
  if line = [] ∨ line.head? = some '#' ∨ line.head? = some '{' then none
  else (splitLine line).bind fun r ↦
    ((N.read r.2.2).filter N.isFinite).map fun value ↦ ⟨String.ofList r.1, r.2.1, value⟩

/-- `parse_prometheus_text`; between the two letters of a line end that has two is an empty line,
which is passed over like any other. -/
def parsePrometheusText (text : Text) : List (String × List (Series Labels V)) :=
  grouped ((text.splitOnP Engines.isLineBreak).filterMap (parseLine N))

end

/-! ## Values -/

theorem quoted_quote (t : Text) : quoted ('"' :: t) = ([], '"' :: t) := by
  rcases t with _ | ⟨c, t⟩
  · rfl
  · rw [quoted, if_neg (by decide), if_pos rfl]

theorem quoted_slash (c : Char) (t : Text) :
    quoted ('\\' :: c :: t) = (unescape c :: (quoted t).1, (quoted t).2) := by
  rw [quoted, if_pos rfl]

theorem quoted_cons {c : Char} (t : Text) (hslash : c ≠ '\\') (hquote : c ≠ '"') :
    quoted (c :: t) = (c :: (quoted t).1, (quoted t).2) := by
  rcases t with _ | ⟨d, t⟩
  · exact if_neg hquote
  · rw [quoted, if_neg hslash, if_neg hquote]

/-- A value is read back, up to the quote that ends it. -/
theorem quoted_escape (v t : Text) : quoted (escape v ++ '"' :: t) = (v, '"' :: t) := by
  induction v with
  | nil => exact quoted_quote t
  | cons c v ih =>
    rw [escape]
    split_ifs with hslash hquote hend
    · rw [List.cons_append, List.cons_append, quoted_slash, ih, hslash]
      rfl
    · rw [List.cons_append, List.cons_append, quoted_slash, ih, hquote]
      rfl
    · rw [List.cons_append, List.cons_append, quoted_slash, ih, hend]
      rfl
    · rw [List.cons_append, quoted_cons _ hslash hquote, ih]

/-- What is read is made of letters of the text, and of line ends and tabs. -/
theorem mem_quoted {c : Char} {t : Text} (h : c ∈ (quoted t).1) : c ∈ t ∨ c = '\n' ∨ c = '\t' := by
  induction t using quoted.induct with
  | case1 => cases h
  | case2 => cases h
  | case3 d hd =>
    rw [quoted, if_neg hd] at h
    exact .inl h
  | case4 d cs ih =>
    rw [quoted, if_pos rfl] at h
    rcases List.mem_cons.mp h with rfl | h
    · rw [unescape]
      split_ifs
      · exact .inr (.inl rfl)
      · exact .inr (.inr rfl)
      · exact .inl (List.mem_cons_of_mem _ List.mem_cons_self)
    · exact (ih h).imp_left fun h ↦ List.mem_cons_of_mem _ (List.mem_cons_of_mem _ h)
  | case5 d cs hd =>
    rw [quoted, if_neg hd, if_pos rfl] at h
    cases h
  | case6 d e cs hslash hquote ih =>
    rw [quoted, if_neg hslash, if_neg hquote] at h
    rcases List.mem_cons.mp h with rfl | h
    · exact .inl List.mem_cons_self
    · exact (ih h).imp_left fun h ↦ List.mem_cons_of_mem _ h

/-! ## Names -/

/-- The letters of names and of numbers are no blanks. -/
theorem isSpace_eq_false {c : Char} (h : isNameChar c = true ∨ isNumberChar c = true) :
    Runtime.isSpace c = false := by
  rw [isNameChar, isNumberChar] at h
  simp only [Bool.or_eq_true, decide_eq_true_eq] at h
  rcases h with ((h | rfl) | rfl) | ((h | rfl) | rfl) | rfl
  · exact Runtime.isSpace_eq_false_of_isAlphanum h
  · decide
  · decide
  · exact Runtime.isSpace_eq_false_of_isAlphanum h
  · decide
  · decide
  · decide

theorem trim_of_ends {p : Char → Bool} {t : Text} (hhead : ∀ c ∈ t.head?, p c = false)
    (hlast : ∀ c ∈ t.getLast?, p c = false) : Recipes.trim p t = t := by
  have hdrop : t.dropWhile p = t := by
    rcases t with _ | ⟨c, t⟩
    · rfl
    · exact List.dropWhile_cons_of_neg (by simp [hhead c rfl])
  rw [Recipes.trim, hdrop]
  rcases t.eq_nil_or_concat with rfl | ⟨t, c, rfl⟩
  · rfl
  · rw [List.concat_eq_append] at hlast ⊢
    exact List.rdropWhile_concat_neg _ _ _ (by simp [hlast c (by simp)])

theorem trim_name {name : Text} (h : ∀ c ∈ name, isNameChar c = true) :
    Recipes.trim Runtime.isSpace name = name :=
  trim_of_ends (fun c hc ↦ isSpace_eq_false (.inl (h c (List.mem_of_mem_head? hc))))
    fun c hc ↦ isSpace_eq_false (.inl (h c (List.mem_of_mem_getLast? hc)))

/-- What stands before the first letter of a kind. -/
theorem span_ne {c : Char} {s t : Text} (h : c ∉ s) :
    (s ++ c :: t).takeWhile (· ≠ c) = s ∧ (s ++ c :: t).dropWhile (· ≠ c) = c :: t := by
  have hs : ∀ d ∈ s, decide (d ≠ c) = true := fun d hd ↦
    decide_eq_true fun heq ↦ h (heq ▸ hd)
  rw [List.takeWhile_append_of_pos hs, List.dropWhile_append_of_pos hs,
    List.takeWhile_cons_of_neg (by simp), List.dropWhile_cons_of_neg (by simp), List.append_nil]
  exact ⟨rfl, rfl⟩

theorem dropWhile_ne_eq_nil {c : Char} {t : Text} : t.dropWhile (· ≠ c) = [] ↔ c ∉ t := by
  rw [List.dropWhile_eq_nil_iff]
  constructor
  · exact fun h hc ↦ by simpa using h c hc
  · exact fun h d hd ↦ decide_eq_true fun heq ↦ h (heq ▸ hd)

/-! ## Labels -/

/-- The labels of a sample, as a dictionary has them. -/
def pairs (ls : List Label) : Labels := ls.map fun l ↦ (l.name, l.value)

theorem readLabel_print (l : Label) (t : Text) :
    readLabel (l.print ++ t) = some (l.name, l.value, '"' :: t) := by
  obtain ⟨-, hname⟩ := isNameChar_of_isLabelName l.named
  have hequals : '=' ∉ l.name := fun h ↦ ne_of_isNameChar (hname _ h) (by decide) rfl
  have hprint : l.print ++ t = l.name ++ '=' :: '"' :: (escape l.value ++ '"' :: t) := by
    rw [Label.print]
    simp only [List.append_assoc, List.cons_append, List.nil_append]
  obtain ⟨htake, hdrop⟩ := span_ne (t := '"' :: (escape l.value ++ '"' :: t)) hequals
  have hquote : ('"' :: (escape l.value ++ '"' :: t)).dropWhile (· ≠ '"') =
      '"' :: (escape l.value ++ '"' :: t) := List.dropWhile_cons_of_neg (by simp)
  rw [readLabel, hprint, hdrop, htake]
  simp only [hquote, quoted_escape, trim_name hname]

/-- What is done with what follows a value. -/
def labelsAfter (labels : Labels) (t : Text) : Labels :=
  if ',' ∈ t then labelsFrom labels ((t.dropWhile (· ≠ ',')).drop 1) else labels

theorem labelsFrom_of_readLabel {labels : Labels} {raw key value rest : Text}
    (h : readLabel raw = some (key, value, rest)) : labelsFrom labels raw =
      labelsAfter (if key = [] then labels else labels.set key value) rest := by
  rw [labelsFrom, labelsAfter]
  split
  next hnone =>
    rw [h] at hnone
    cases hnone
  next key' value' rest' hsome =>
    rw [h] at hsome
    obtain ⟨rfl, rfl, rfl⟩ : key = key' ∧ value = value' ∧ rest = rest' := by simpa using hsome
    rfl

theorem labelsFrom_of_none {labels : Labels} {raw : Text} (h : readLabel raw = none) :
    labelsFrom labels raw = labels := by
  rw [labelsFrom]
  split
  · rfl
  next hsome =>
    rw [h] at hsome
    cases hsome

theorem labelsAfter_cons_of_ne {labels : Labels} {c : Char} {t : Text} (hc : c ≠ ',') :
    labelsAfter labels (c :: t) = labelsAfter labels t := by
  rw [labelsAfter, labelsAfter, List.dropWhile_cons_of_pos (by simpa using hc)]
  simp [hc.symm]

theorem labelsAfter_comma {labels : Labels} {t : Text} :
    labelsAfter labels (',' :: t) = labelsFrom labels t := by
  rw [labelsAfter, if_pos List.mem_cons_self, List.dropWhile_cons_of_neg (by simp)]
  rfl

theorem labelsAfter_append {labels : Labels} {s t : Text} (hs : ',' ∉ s) :
    labelsAfter labels (s ++ t) = labelsAfter labels t := by
  induction s with
  | nil => rfl
  | cons c s ih =>
    rw [List.mem_cons, not_or] at hs
    rw [List.cons_append, labelsAfter_cons_of_ne (Ne.symm hs.1), ih hs.2]

theorem labelsAfter_nil {labels : Labels} : labelsAfter labels [] = labels := rfl

theorem set_of_notMem {labels : Labels} {key value : Text} (h : key ∉ labels.map Prod.fst) :
    labels.set key value = labels ++ [(key, value)] := if_neg h

/-- Labels are read one after the other, and then what follows them. -/
theorem labelsFrom_printLabels {ls : List Label} (hls : ls ≠ []) {labels : Labels} {t : Text}
    (hnodup : (ls.map Label.name).Nodup) (hnew : ∀ l ∈ ls, l.name ∉ labels.map Prod.fst) :
    labelsFrom labels (printLabels ls ++ t) = labelsAfter (labels ++ pairs ls) t := by
  induction ls generalizing labels with
  | nil => exact absurd rfl hls
  | cons l ls ih =>
    obtain ⟨hne, -⟩ := isNameChar_of_isLabelName l.named
    have hset : (if l.name = [] then labels else labels.set l.name l.value) =
        labels ++ [(l.name, l.value)] := by
      rw [if_neg hne, set_of_notMem (hnew l List.mem_cons_self)]
    rcases ls with _ | ⟨l', ls⟩
    · rw [printLabels, labelsFrom_of_readLabel (readLabel_print l t), hset, labelsAfter_cons_of_ne
        (by decide)]
      rfl
    · rw [List.map_cons, List.nodup_cons] at hnodup
      rw [printLabels, List.append_assoc, List.cons_append,
        labelsFrom_of_readLabel (readLabel_print l _), hset, labelsAfter_cons_of_ne (by decide),
        labelsAfter_comma, ih (List.cons_ne_nil _ _) hnodup.2]
      · rw [List.append_assoc]
        rfl
      · intro m hm hmem
        rw [List.map_append, List.mem_append] at hmem
        rcases hmem with hmem | hmem
        · exact hnew m (List.mem_cons_of_mem _ hm) hmem
        · have heq : m.name = l.name := by simpa using hmem
          exact hnodup.1 (heq ▸ List.mem_map_of_mem hm)

/-! ## Words -/

theorem words_space {t : Text} {c : Char} (hc : Runtime.isSpace c = true) :
    words (c :: t) = words t := by
  have hsplit := List.splitOnP_append_cons [] t hc
  rw [List.nil_append] at hsplit
  rw [words, hsplit, List.splitOnP_nil, List.filter_append, words]
  rfl

theorem words_word {w : Text} (hw : w ≠ []) (hletters : ∀ c ∈ w, Runtime.isSpace c = false) :
    words w = [w] := by
  rw [words, List.splitOnP_eq_singleton hletters, List.filter_cons_of_pos (by simpa using hw),
    List.filter_nil]

theorem words_append {w t : Text} {c : Char} (hw : w ≠ [])
    (hletters : ∀ c ∈ w, Runtime.isSpace c = false) (hc : Runtime.isSpace c = true) :
    words (w ++ c :: t) = w :: words t := by
  rw [words, List.splitOnP_append_cons _ _ hc, List.filter_append, ← words, ← words,
    words_word hw hletters]
  rfl

section
variable {V : Type} {N : Numbers V}

theorem isSpace_text (v : V) : ∀ c ∈ N.text v, Runtime.isSpace c = false := fun c hc ↦
  isSpace_eq_false (.inr (N.isNumberChar_of_mem v c hc))

/-- The first word of a number with its time is the number. -/
theorem words_printNumber (v : V) (time : Option V) :
    ∃ ws, words (' ' :: printNumber N v time) = N.text v :: ws := by
  rw [words_space (by decide), printNumber]
  rcases time with _ | t
  · exact ⟨[], by rw [Option.elim, List.append_nil, words_word (N.text_ne_nil v) (isSpace_text v)]⟩
  · exact ⟨words (N.text t), words_append (N.text_ne_nil v) (isSpace_text v) (by decide)⟩

/-! ## Lines -/

/-- The last letter of a number with its time is no blank. -/
theorem getLast?_printNumber (s : Text) (v : V) (time : Option V) :
    ∀ c ∈ (s ++ ' ' :: printNumber N v time).getLast?, Runtime.isSpace c = false := by
  have hnumber : ∀ (s : Text) (v : V), ∀ c ∈ (s ++ N.text v).getLast?,
      Runtime.isSpace c = false := by
    intro s v c hc
    rw [List.getLast?_append_of_ne_nil _ (N.text_ne_nil v)] at hc
    exact isSpace_text v c (List.mem_of_mem_getLast? hc)
  rcases time with _ | t
  · simpa [printNumber] using hnumber (s ++ [' ']) v
  · simpa [printNumber] using hnumber (s ++ ' ' :: (N.text v ++ [' '])) t

/-- A line with braces, up to its number. -/
theorem splitLine_braces {s raw t : Text} {value : Text} {ws : List Text} (hs : '{' ∉ s)
    (ht : '}' ∉ t) (hwords : words t = value :: ws) :
    splitLine (s ++ '{' :: (raw ++ '}' :: t)) =
      some (Recipes.trim Runtime.isSpace s, parseLabels raw, value) := by
  obtain ⟨htake, hdrop⟩ := span_ne (t := raw ++ '}' :: t) hs
  have hlast : ∀ d ∈ t, decide (d ≠ '}') = true := fun d hd ↦
    decide_eq_true fun heq ↦ ht (heq ▸ hd)
  have hreverse : (raw ++ '}' :: t).reverse = t.reverse ++ '}' :: raw.reverse := by simp
  have hlast' : ∀ d ∈ t.reverse, decide (d ≠ '}') = true := fun d hd ↦
    hlast d (List.mem_reverse.mp hd)
  have htail : (raw ++ '}' :: t).rtakeWhile (· ≠ '}') = t := by
    rw [List.rtakeWhile, hreverse, List.takeWhile_append_of_pos hlast',
      List.takeWhile_cons_of_neg (by simp), List.append_nil, List.reverse_reverse]
  have hinside : (raw ++ '}' :: t).rdropWhile (· ≠ '}') = raw ++ ['}'] := by
    rw [List.rdropWhile, hreverse, List.dropWhile_append_of_pos hlast',
      List.dropWhile_cons_of_neg (by simp), List.reverse_cons, List.reverse_reverse]
  rw [splitLine, hdrop, htake]
  simp only
  rw [if_pos (by simp), htail, hwords, hinside, List.dropLast_concat]

/-- A line without braces. -/
theorem splitLine_plain {t name value : Text} {ws : List Text} (ht : '{' ∉ t)
    (hwords : words t = name :: value :: ws) : splitLine t = some (name, [], value) := by
  rw [splitLine, dropWhile_ne_eq_nil.mpr ht]
  simp only [hwords]

/-- A line that begins with a name and ends with a number. -/
theorem parseLine_of_name {name t : Text} (hname : isMetricName name = true)
    (hlast : ∀ c ∈ (name ++ t).getLast?, Runtime.isSpace c = false) :
    parseLine N (name ++ t) = (splitLine (name ++ t)).bind fun r ↦
      ((N.read r.2.2).filter N.isFinite).map fun value ↦ ⟨String.ofList r.1, r.2.1, value⟩ := by
  obtain ⟨hne, hletters⟩ := isNameChar_of_isMetricName hname
  obtain ⟨c, cs, rfl⟩ := List.exists_cons_of_ne_nil hne
  have hc := hletters c List.mem_cons_self
  have htrim : Recipes.trim Runtime.isSpace (c :: cs ++ t) = c :: cs ++ t := by
    refine trim_of_ends (fun d hd ↦ ?_) hlast
    obtain rfl := Option.some.inj hd
    exact isSpace_eq_false (.inl hc)
  have hhash : c ≠ '#' := ne_of_isNameChar hc (by decide)
  have hbrace : c ≠ '{' := ne_of_isNameChar hc (by decide)
  rw [parseLine, htrim]
  refine if_neg ?_
  simp [hhash, hbrace]

/-! ## Samples -/

/-- What a sample is to be read as. -/
def seriesOf (s : Sample N) : Series Labels V := ⟨String.ofList s.name, pairs s.labels, s.value⟩

theorem parseLabels_append {s : Sample N} (hlabels : s.labels ≠ []) (t : Text) :
    parseLabels (printLabels s.labels ++ t) = labelsAfter (pairs s.labels) t := by
  rw [parseLabels, labelsFrom_printLabels hlabels s.nodup fun _ _ ↦ List.not_mem_nil]
  rfl

theorem read_filter {v : V} : (N.read (N.text v)).filter N.isFinite =
    if N.isFinite v = true then some v else none := by
  rw [N.read_text, Option.filter_some]

/-- A sample with labels, with or without an exemplar: braces, and a number after the last one. -/
theorem parseLine_braces {s : Sample N} {raw : Text} {v : V} {time : Option V} :
    parseLine N (s.name ++ '{' :: (raw ++ '}' :: ' ' :: printNumber N v time)) =
      if N.isFinite v = true then some ⟨String.ofList s.name, parseLabels raw, v⟩ else none := by
  obtain ⟨-, hletters⟩ := isNameChar_of_isMetricName s.named
  obtain ⟨ws, hwords⟩ := words_printNumber (N := N) v time
  have hname : '{' ∉ s.name := fun h ↦ ne_of_isNameChar (hletters _ h) (by decide) rfl
  have hnumber : '}' ∉ ' ' :: printNumber N v time := by
    rw [List.mem_cons, not_or]
    exact ⟨by decide, notMem_printNumber (by decide) (by decide)⟩
  have hlast : ∀ c ∈ (s.name ++ '{' :: (raw ++ '}' :: ' ' :: printNumber N v time)).getLast?,
      Runtime.isSpace c = false := by
    simpa using getLast?_printNumber (N := N) (s.name ++ '{' :: (raw ++ ['}'])) v time
  rw [parseLine_of_name s.named hlast, splitLine_braces hname hnumber hwords, Option.bind_some,
    trim_name hletters, read_filter]
  split_ifs <;> rfl

/-- A sample without an exemplar is read as what it is. -/
theorem parseLine_of_none {s : Sample N} (h : s.exemplar = none) :
    parseLine N s.print = some (seriesOf s) := by
  obtain ⟨hne, hletters⟩ := isNameChar_of_isMetricName s.named
  rw [Sample.print, h, Option.elim, List.append_nil, Sample.printBody]
  split_ifs with hlabels
  · obtain ⟨ws, hwords⟩ := words_printNumber (N := N) s.value s.time
    have hbrace : '{' ∉ s.name ++ ' ' :: printNumber N s.value s.time := by
      rw [List.mem_append, List.mem_cons]
      rintro (hmem | hmem | hmem)
      · exact ne_of_isNameChar (hletters _ hmem) (by decide) rfl
      · cases hmem
      · exact notMem_printNumber (by decide) (by decide) hmem
    have hall : words (s.name ++ ' ' :: printNumber N s.value s.time) =
        s.name :: N.text s.value :: ws := by
      rw [words_append hne (fun c hc ↦ isSpace_eq_false (.inl (hletters c hc))) (by decide),
        ← words_space (c := ' ') (by decide), hwords]
    rw [parseLine_of_name s.named (getLast?_printNumber _ _ _), splitLine_plain hbrace hall,
      Option.bind_some, read_filter, if_pos s.finite, seriesOf, hlabels]
    rfl
  · rw [parseLine_braces, if_pos s.finite, ← List.append_nil (printLabels s.labels),
      parseLabels_append hlabels, labelsAfter_nil]
    rfl

/-- Of a sample with an exemplar the name and the first labels are read, and the number of the
exemplar. -/
theorem parseLine_of_exemplar {s : Sample N} {e : Exemplar V} (h : s.exemplar = some e)
    (hlabels : s.labels ≠ []) : parseLine N s.print =
      if N.isFinite e.value = true then some ⟨String.ofList s.name,
        labelsAfter (pairs s.labels) (printLabels e.labels), e.value⟩ else none := by
  have hraw : s.print = s.name ++ '{' :: ((printLabels s.labels ++
      (('}' :: ' ' :: (printNumber N s.value s.time ++ [' ', '#', ' ', '{'])) ++ printLabels e.labels)) ++
        '}' :: ' ' :: printNumber N e.value e.time) := by
    rw [Sample.print, h, Option.elim, Sample.printBody, if_neg hlabels, Exemplar.print]
    simp only [List.append_assoc, List.cons_append, List.nil_append]
  have hcomma : ',' ∉ '}' :: ' ' :: (printNumber N s.value s.time ++ [' ', '#', ' ', '{']) := by
    rw [List.mem_cons, List.mem_cons, List.mem_append]
    rintro (hmem | hmem | hmem | hmem)
    · cases hmem
    · cases hmem
    · exact notMem_printNumber (by decide) (by decide) hmem
    · simp at hmem
  rw [hraw, parseLine_braces, parseLabels_append hlabels, labelsAfter_append hcomma]

theorem mem_trim {p : Char → Bool} {t : Text} {c : Char} (h : c ∈ t) (hc : p c = false) :
    c ∈ Recipes.trim p t := by
  have hdrop : ∀ u : Text, c ∈ u → c ∈ u.dropWhile p := by
    intro u hu
    rw [← List.takeWhile_append_dropWhile (p := p) (l := u), List.mem_append] at hu
    refine hu.resolve_left fun htake ↦ ?_
    rw [List.mem_takeWhile_imp htake] at hc
    cases hc
  rw [Recipes.trim, List.rdropWhile, List.mem_reverse]
  exact hdrop _ (List.mem_reverse.mpr (hdrop t h))

/-- Without labels the name is read together with the number. -/
theorem hash_mem_name {s : Sample N} {e : Exemplar V} (h : s.exemplar = some e)
    (hlabels : s.labels = []) {r : Series Labels V} (hr : parseLine N s.print = some r) :
    '#' ∈ r.name.toList := by
  obtain ⟨-, hletters⟩ := isNameChar_of_isMetricName s.named
  obtain ⟨ws, hwords⟩ := words_printNumber (N := N) e.value e.time
  have hmark : " # ".toList = [' ', '#', ' '] := rfl
  have hraw : s.print = (s.name ++ ' ' :: (printNumber N s.value s.time ++ " # ".toList)) ++
      '{' :: (printLabels e.labels ++ '}' :: ' ' :: printNumber N e.value e.time) := by
    rw [Sample.print, h, Option.elim, Sample.printBody, if_pos hlabels, Exemplar.print, hmark]
    simp only [List.append_assoc, List.cons_append, List.nil_append]
  have hbrace : '{' ∉ s.name ++ ' ' :: (printNumber N s.value s.time ++ " # ".toList) := by
    rw [List.mem_append, List.mem_cons, List.mem_append]
    rintro (hmem | hmem | hmem | hmem)
    · exact ne_of_isNameChar (hletters _ hmem) (by decide) rfl
    · cases hmem
    · exact notMem_printNumber (by decide) (by decide) hmem
    · simp at hmem
  have hnumber : '}' ∉ ' ' :: printNumber N e.value e.time := by
    rw [List.mem_cons, not_or]
    exact ⟨by decide, notMem_printNumber (by decide) (by decide)⟩
  have hlast : ∀ c ∈ s.print.getLast?, Runtime.isSpace c = false := by
    have hnumber := getLast?_printNumber (N := N)
      ((s.name ++ ' ' :: (printNumber N s.value s.time ++ " # ".toList)) ++
        '{' :: (printLabels e.labels ++ ['}'])) e.value e.time
    rw [hraw]
    simpa using hnumber
  have hparse : parseLine N s.print = (splitLine s.print).bind fun r ↦
      ((N.read r.2.2).filter N.isFinite).map fun value ↦ ⟨String.ofList r.1, r.2.1, value⟩ := by
    rw [hraw, List.append_assoc] at hlast ⊢
    exact parseLine_of_name s.named hlast
  rw [hparse, hraw, splitLine_braces hbrace hnumber hwords, Option.bind_some, read_filter] at hr
  obtain ⟨v, -, rfl⟩ := Option.map_eq_some_iff.mp hr
  rw [String.toList_ofList]
  refine mem_trim ?_ (by decide)
  rw [hmark]
  simp

end

/-! ## Line ends -/

/-- No letter ends a line, but for those that the format itself takes for line ends. -/
def Unbroken (t : Text) : Prop := ∀ c ∈ t, Engines.isLineBreak c = true → c = '\n'

theorem unbroken_iff {t : Text} :
    (t.all fun c ↦ !Engines.isLineBreak c || c = '\n') = true ↔ Unbroken t := by
  rw [List.all_eq_true]
  refine forall_congr' fun c ↦ forall_congr' fun _ ↦ ?_
  rw [Bool.or_eq_true, Bool.not_eq_true', decide_eq_true_eq, ← Bool.not_eq_true]
  exact imp_iff_not_or.symm

instance (t : Text) : Decidable (Unbroken t) := decidable_of_iff _ unbroken_iff

/-- The letters of names, of numbers and of the format itself end no lines. -/
theorem isLineBreak_eq_false {c : Char}
    (h : isNameChar c = true ∨ isNumberChar c = true ∨ c ∈ '\\' :: '"' :: 'n' :: marks.dropLast) :
    Engines.isLineBreak c = false := by
  by_contra hbreak
  rw [Bool.not_eq_false, Engines.isLineBreak, decide_eq_true_eq] at hbreak
  have hnone : (['\n', '\r', '\x0b', '\x0c', '\x1c', '\x1d', '\x1e', '\u0085', '\u2028',
      '\u2029'].any fun c ↦ isNameChar c || (isNumberChar c ||
        decide (c ∈ '\\' :: '"' :: 'n' :: marks.dropLast))) = false := by decide
  refine List.any_eq_false.mp hnone c hbreak ?_
  rw [Bool.or_eq_true, Bool.or_eq_true, decide_eq_true_eq]
  exact h

section
variable {V : Type} {N : Numbers V}

theorem isLineBreak_printNumber {v : V} {time : Option V} :
    ∀ c ∈ printNumber N v time, Engines.isLineBreak c = false := by
  intro c hc
  rcases mem_printNumber hc with h | rfl
  · exact isLineBreak_eq_false (.inr (.inl h))
  · decide

theorem isLineBreak_print {l : Label} (h : Unbroken l.value) :
    ∀ c ∈ l.print, Engines.isLineBreak c = false := by
  intro c hc
  rw [Label.print, List.mem_append, List.mem_cons, List.mem_cons, List.mem_append,
    List.mem_singleton] at hc
  rcases hc with hc | rfl | rfl | hc | rfl
  · exact isLineBreak_eq_false (.inl ((isNameChar_of_isLabelName l.named).2 c hc))
  · decide
  · decide
  · rcases mem_escape hc with ⟨hc, hne⟩ | hc
    · exact Bool.eq_false_iff.mpr fun hbreak ↦ hne (h c hc hbreak)
    · refine isLineBreak_eq_false (.inr (.inr ?_))
      simp only [List.mem_cons, List.not_mem_nil, or_false] at hc ⊢
      tauto
  · decide

theorem isLineBreak_printLabels {ls : List Label} (h : ∀ l ∈ ls, Unbroken l.value) :
    ∀ c ∈ printLabels ls, Engines.isLineBreak c = false := by
  induction ls with
  | nil => exact fun c hc ↦ absurd hc List.not_mem_nil
  | cons l ls ih =>
    have hl := isLineBreak_print (h l List.mem_cons_self)
    rcases ls with _ | ⟨l', ls⟩
    · exact hl
    · intro c hc
      rw [printLabels, List.mem_append, List.mem_cons] at hc
      rcases hc with hc | rfl | hc
      · exact hl c hc
      · decide
      · exact ih (fun m hm ↦ h m (List.mem_cons_of_mem _ hm)) c hc

/-- What a comment and an exemplar hold ends no lines before they end. -/
def Whole : Line N → Prop
  | .comment text _ => Unbroken text
  | .sample s => ∀ e, s.exemplar = some e → ∀ l ∈ e.labels, Unbroken l.value

/-- What a sample needs to be read as what it is: values that end no lines; and with an exemplar
labels of its own, the number of the exemplar, and no label beside its own in what follows the first
comma of the exemplar. -/
structure Kept (s : Sample N) : Prop where
  values : ∀ l ∈ s.labels, Unbroken l.value
  exemplar : ∀ e, s.exemplar = some e → s.labels ≠ [] ∧ e.value = s.value ∧
    labelsAfter (pairs s.labels) (printLabels e.labels) = pairs s.labels

def sampleOf : Line N → Option (Sample N)
  | .sample s => some s
  | .comment .. => none

theorem isLineBreak_sample {s : Sample N} (hvalues : ∀ l ∈ s.labels, Unbroken l.value)
    (hwhole : Whole (.sample s)) : ∀ c ∈ s.print, Engines.isLineBreak c = false := by
  have hname : ∀ c ∈ s.name, Engines.isLineBreak c = false := fun c hc ↦
    isLineBreak_eq_false (.inl ((isNameChar_of_isMetricName s.named).2 c hc))
  have hbody : ∀ c ∈ s.printBody, Engines.isLineBreak c = false := by
    intro c hc
    rw [Sample.printBody] at hc
    split_ifs at hc
    · rw [List.mem_append, List.mem_cons] at hc
      rcases hc with hc | rfl | hc
      · exact hname c hc
      · decide
      · exact isLineBreak_printNumber c hc
    · rw [List.mem_append, List.mem_cons, List.mem_append, List.mem_cons, List.mem_cons] at hc
      rcases hc with hc | rfl | hc | rfl | rfl | hc
      · exact hname c hc
      · decide
      · exact isLineBreak_printLabels hvalues c hc
      · decide
      · decide
      · exact isLineBreak_printNumber c hc
  intro c hc
  rw [Sample.print, List.mem_append] at hc
  rcases hc with hc | hc
  · exact hbody c hc
  · rcases he : s.exemplar with _ | e
    · rw [he] at hc
      cases hc
    · rw [he, Option.elim, Exemplar.print] at hc
      simp only [List.mem_cons, List.mem_append] at hc
      rcases hc with rfl | rfl | rfl | rfl | hc | rfl | rfl | hc
      all_goals first | decide | skip
      · exact isLineBreak_printLabels (hwhole e he) c hc
      · exact isLineBreak_printNumber c hc

/-- A comment is passed over. -/
theorem parseLine_comment (t : Text) : parseLine N ('#' :: t) = none := by
  have hmem : '#' ∈ Recipes.trim Runtime.isSpace ('#' :: t) :=
    mem_trim List.mem_cons_self (by decide)
  obtain ⟨c, cs, htrim⟩ := List.exists_cons_of_ne_nil (List.ne_nil_of_mem hmem)
  have hdrop : ('#' :: t).dropWhile Runtime.isSpace = '#' :: t :=
    List.dropWhile_cons_of_neg (by decide)
  have hhead : c = '#' := by
    obtain ⟨rest, hrest⟩ := List.rdropWhile_prefix Runtime.isSpace ('#' :: t)
    rw [Recipes.trim, hdrop] at htrim
    rw [htrim] at hrest
    exact (List.cons.inj hrest).1
  rw [parseLine, htrim, hhead]
  exact if_pos (.inr (.inl rfl))

/-- Where no line ends too early, each line of the text is one that was written. -/
theorem parse_print {doc : List (Line N)} (hwhole : ∀ l ∈ doc, Whole l)
    (hvalues : ∀ s ∈ doc.filterMap sampleOf, ∀ l ∈ s.labels, Unbroken l.value) :
    ((print doc).splitOnP Engines.isLineBreak).filterMap (parseLine N) =
      (doc.filterMap sampleOf).filterMap fun s ↦ parseLine N s.print := by
  have hbreak : ∀ line ∈ doc.map Line.print, ∀ c ∈ line, Engines.isLineBreak c = false := by
    intro line hline
    obtain ⟨l, hl, rfl⟩ := List.mem_map.mp hline
    rcases l with s | ⟨t, hend⟩
    · exact isLineBreak_sample (hvalues s (List.mem_filterMap.mpr ⟨_, hl, rfl⟩)) (hwhole _ hl)
    · intro c hc
      rcases List.mem_cons.mp hc with rfl | hc
      · decide
      · exact Bool.eq_false_iff.mpr fun h ↦ hend (hwhole _ hl c hc h ▸ hc)
  have hempty : parseLine N [] = none := rfl
  rw [print, Lines.splitOnP_flatMap (by decide) hbreak, List.filterMap_append,
    List.filterMap_cons_none hempty, List.filterMap_nil, List.append_nil, List.filterMap_map,
    List.filterMap_filterMap]
  refine List.filterMap_congr fun l _ ↦ ?_
  rcases l with s | ⟨t, hend⟩
  · rfl
  · exact parseLine_comment t

/-! ## What cannot be read -/

theorem unbroken_set {labels : Labels} {key value : Text} (hvalue : Unbroken value)
    (h : ∀ p ∈ labels, Unbroken p.2) : ∀ p ∈ labels.set key value, Unbroken p.2 := by
  rw [Labels.set]
  split_ifs
  · intro p hp
    obtain ⟨q, hq, rfl⟩ := List.mem_map.mp hp
    split_ifs
    · exact hvalue
    · exact h q hq
  · intro p hp
    rcases List.mem_append.mp hp with hp | hp
    · exact h p hp
    · obtain rfl := List.mem_singleton.mp hp
      exact hvalue

theorem quoted_suffix (t : Text) : (quoted t).2 <:+ t := by
  induction t using quoted.induct with
  | case1 => exact List.suffix_refl _
  | case2 => exact List.suffix_refl _
  | case3 c hc =>
    rw [quoted, if_neg hc]
    exact List.nil_suffix
  | case4 d cs ih =>
    rw [quoted, if_pos rfl]
    exact (ih.trans (List.suffix_cons d cs)).trans (List.suffix_cons _ _)
  | case5 d cs hd =>
    simp [quoted_quote]
  | case6 c d cs hslash hquote ih =>
    rw [quoted, if_neg hslash, if_neg hquote]
    exact ih.trans (List.suffix_cons c _)

theorem readLabel_suffix {raw key value rest : Text} (h : readLabel raw = some (key, value, rest)) :
    ∃ v, v <:+ raw ∧ quoted v = (value, rest) := by
  rw [readLabel] at h
  split at h
  · cases h
  next a t hequals =>
    split at h
    · cases h
    next b v hquote =>
      have hraw : a :: t <:+ raw := hequals ▸ List.dropWhile_suffix _
      have ht : b :: v <:+ t := hquote ▸ List.dropWhile_suffix _
      refine ⟨v, ?_, congrArg Prod.snd (Option.some.inj h)⟩
      exact (((List.suffix_cons b v).trans ht).trans (List.suffix_cons a t)).trans hraw

/-- In one line no value is read that has a line end of `str.splitlines` in it. -/
theorem unbroken_labelsFrom (labels : Labels) (raw : Text)
    (hraw : ∀ c ∈ raw, Engines.isLineBreak c = false) (h : ∀ p ∈ labels, Unbroken p.2) :
    ∀ p ∈ labelsFrom labels raw, Unbroken p.2 := by
  induction hlength : raw.length using Nat.strong_induction_on generalizing labels raw with
  | h n ih =>
    subst hlength
    rcases hlabel : readLabel raw with _ | ⟨key, value, rest⟩
    · rwa [labelsFrom_of_none hlabel]
    · obtain ⟨v, hv, hquoted⟩ := readLabel_suffix hlabel
      have hvalue : Unbroken value := by
        intro c hc hbreak
        have hmem : c ∈ (quoted v).1 := by rwa [hquoted]
        rcases mem_quoted hmem with hmem | rfl | rfl
        · rw [hraw c (hv.subset hmem)] at hbreak
          cases hbreak
        · rfl
        · cases hbreak
      have hrest : rest <:+ raw := by
        have hsuffix := (quoted_suffix v).trans hv
        rwa [hquoted] at hsuffix
      obtain ⟨labels', hlabels', hset⟩ : ∃ labels',
          (if key = [] then labels else labels.set key value) = labels' ∧
            ∀ p ∈ labels', Unbroken p.2 := by
        refine ⟨_, rfl, ?_⟩
        split_ifs
        · exact h
        · exact unbroken_set hvalue h
      rw [labelsFrom_of_readLabel hlabel, hlabels', labelsAfter]
      split_ifs
      · have hnext : (rest.dropWhile (· ≠ ',')).drop 1 <:+ rest :=
          (List.drop_suffix 1 _).trans (List.dropWhile_suffix _)
        refine ih _ ?_ _ _ (fun c hc ↦ hraw c (hrest.subset (hnext.subset hc))) hset rfl
        exact hnext.length_le.trans_lt (length_readLabel_lt hlabel)
      · exact hset

theorem unbroken_parseLine {line : Text} {r : Series Labels V}
    (hline : ∀ c ∈ line, Engines.isLineBreak c = false) (h : parseLine N line = some r) :
    ∀ p ∈ r.labels, Unbroken p.2 := by
  rw [parseLine] at h
  split_ifs at h
  obtain ⟨⟨name, labels, text⟩, hsplit, hread⟩ := Option.bind_eq_some_iff.mp h
  obtain ⟨v, -, rfl⟩ := Option.map_eq_some_iff.mp hread
  have htrim : ∀ c ∈ Recipes.trim Runtime.isSpace line, Engines.isLineBreak c = false := fun c hc ↦
    hline c (Recipes.mem_of_mem_trim hc)
  rw [splitLine] at hsplit
  split at hsplit
  · split at hsplit
    · obtain rfl : [] = labels := congrArg (fun r ↦ r.2.1) (Option.some.inj hsplit)
      exact fun p hp ↦ absurd hp List.not_mem_nil
    · cases hsplit
  next a rest hbrace =>
    have hrest : a :: rest <:+ Recipes.trim Runtime.isSpace line :=
      hbrace ▸ List.dropWhile_suffix _
    split_ifs at hsplit
    split at hsplit
    · obtain rfl := congrArg (fun r ↦ r.2.1) (Option.some.inj hsplit)
      refine unbroken_labelsFrom _ _ (fun c hc ↦ htrim c (hrest.subset ?_))
        fun p hp ↦ absurd hp List.not_mem_nil
      exact List.mem_cons_of_mem a ((List.rdropWhile_prefix _ _).subset
        ((List.dropLast_prefix _).subset hc))
    · cases hsplit

/-! ## Families -/

theorem lookup_addTo (s : Series Labels V) (families : List (String × List (Series Labels V)))
    (name : String) : ((addTo s families).lookup name).getD [] =
      (families.lookup name).getD [] ++ if s.name = name then [s] else [] := by
  induction families with
  | nil =>
    by_cases hname : s.name = name
    · simp [addTo, hname]
    · simp [addTo, hname, List.lookup_cons, beq_eq_false_iff_ne.mpr (Ne.symm hname)]
  | cons family families ih =>
    obtain ⟨key, ss⟩ := family
    rw [addTo]
    by_cases hkey : key = s.name
    · rw [if_pos hkey]
      by_cases hname : name = key
      · subst hname
        simp [hkey]
      · have hne : s.name ≠ name := fun heq ↦ hname (heq.symm.trans hkey.symm)
        simp [List.lookup_cons, beq_eq_false_iff_ne.mpr hname, hne]
    · rw [if_neg hkey]
      by_cases hname : name = key
      · subst hname
        simp [Ne.symm hkey]
      · simpa [List.lookup_cons, beq_eq_false_iff_ne.mpr hname] using ih

/-- The family of a name is what has the name, in order. -/
theorem lookup_grouped (ss : List (Series Labels V)) (name : String) :
    ((grouped ss).lookup name).getD [] = ss.filter fun s ↦ s.name = name := by
  induction ss using List.reverseRecOn with
  | nil => rfl
  | append_singleton ss s ih =>
    have hgrouped : grouped (ss ++ [s]) = addTo s (grouped ss) := by
      rw [grouped, List.foldl_append]
      rfl
    rw [hgrouped, lookup_addTo, ih, List.filter_append]
    by_cases hname : s.name = name <;> simp [hname]

/-- Where at most one value comes of each element, and only of the kind that is wanted of it, there
are as many of a kind as are wanted only if each is the one that is wanted. -/
theorem eq_some_of_filter {α β : Type} {f : α → Option β} {g : α → β} {q : β → Bool} {l : List α}
    (hf : ∀ a ∈ l, ∀ b, f a = some b → q b = true → q (g a) = true)
    (h : (l.filterMap f).filter q = (l.map g).filter q) :
    ∀ a ∈ l, q (g a) = true → f a = some (g a) := by
  have hlength : ∀ l : List α, (∀ a ∈ l, ∀ b, f a = some b → q b = true → q (g a) = true) →
      ((l.filterMap f).filter q).length ≤ ((l.map g).filter q).length := by
    intro l hf
    induction l with
    | nil => exact Nat.le_refl _
    | cons a l ih =>
      have hrest := ih fun a ha ↦ hf a (List.mem_cons_of_mem _ ha)
      rcases hfa : f a with _ | b
      · rw [List.filterMap_cons_none hfa, List.map_cons, List.filter_cons]
        split_ifs
        · exact hrest.trans (Nat.le_succ _)
        · exact hrest
      · rw [List.filterMap_cons_some hfa, List.map_cons, List.filter_cons, List.filter_cons]
        by_cases hb : q b = true
        · rw [if_pos hb, if_pos (hf a List.mem_cons_self b hfa hb)]
          exact Nat.succ_le_succ hrest
        · rw [if_neg hb]
          split_ifs
          · exact hrest.trans (Nat.le_succ _)
          · exact hrest
  induction l with
  | nil => exact fun a ha ↦ absurd ha List.not_mem_nil
  | cons a l ih =>
    have hl : ∀ a ∈ l, ∀ b, f a = some b → q b = true → q (g a) = true := fun a ha ↦
      hf a (List.mem_cons_of_mem _ ha)
    have hle := hlength l hl
    rcases hfa : f a with _ | b
    · rw [List.filterMap_cons_none hfa, List.map_cons, List.filter_cons] at h
      split_ifs at h with hga
      · have heq := congrArg List.length h
        rw [List.length_cons] at heq
        omega
      · intro x hx hqx
        rcases List.mem_cons.mp hx with rfl | hx
        · exact absurd hqx hga
        · exact ih hl h x hx hqx
    · rw [List.filterMap_cons_some hfa, List.map_cons, List.filter_cons, List.filter_cons] at h
      by_cases hb : q b = true
      · rw [if_pos hb, if_pos (hf a List.mem_cons_self b hfa hb)] at h
        obtain ⟨rfl, hrest⟩ := List.cons.inj h
        intro x hx hqx
        rcases List.mem_cons.mp hx with rfl | hx
        · exact hfa
        · exact ih hl hrest x hx hqx
      · rw [if_neg hb] at h
        split_ifs at h with hga
        · have heq := congrArg List.length h
          rw [List.length_cons] at heq
          omega
        · intro x hx hqx
          rcases List.mem_cons.mp hx with rfl | hx
          · exact absurd hqx hga
          · exact ih hl h x hx hqx

theorem hash_notMem_name (s : Sample N) : '#' ∉ (seriesOf s).name.toList := by
  rw [seriesOf, String.toList_ofList]
  exact fun h ↦ ne_of_isNameChar ((isNameChar_of_isMetricName s.named).2 _ h) (by decide) rfl

/-- A sample is read as what it is exactly when it is kept. -/
theorem parseLine_print_iff {s : Sample N} (hvalues : ∀ l ∈ s.labels, Unbroken l.value) :
    parseLine N s.print = some (seriesOf s) ↔ Kept s := by
  constructor
  · intro hparse
    refine ⟨hvalues, fun e he ↦ ?_⟩
    have hlabels : s.labels ≠ [] := fun hnil ↦
      hash_notMem_name s (hash_mem_name he hnil hparse)
    rw [parseLine_of_exemplar he hlabels] at hparse
    split_ifs at hparse with hfinite
    obtain ⟨-, hsame, hvalue⟩ := Series.mk.inj (Option.some.inj hparse)
    exact ⟨hlabels, hvalue, hsame⟩
  · intro hkept
    rcases he : s.exemplar with _ | e
    · exact parseLine_of_none he
    · obtain ⟨hlabels, hvalue, hsame⟩ := hkept.exemplar e he
      rw [parseLine_of_exemplar he hlabels, hvalue, hsame, if_pos s.finite]
      rfl

/-- What a line is read as has the name of the sample, or one that no sample has. -/
theorem name_of_parseLine {s : Sample N} {r : Series Labels V} (h : parseLine N s.print = some r) :
    r.name = (seriesOf s).name ∨ '#' ∈ r.name.toList := by
  rcases he : s.exemplar with _ | e
  · rw [parseLine_of_none he] at h
    exact .inl (congrArg Series.name (Option.some.inj h).symm)
  · by_cases hlabels : s.labels = []
    · exact .inr (hash_mem_name he hlabels h)
    · rw [parseLine_of_exemplar he hlabels] at h
      split_ifs at h
      obtain rfl := Option.some.inj h
      exact .inl rfl

end

/-- Two numbers, written as digits. -/
private def twoNumbers : Numbers Bool where
  text b := if b then ['1'] else ['0']
  read t := if t = ['1'] then some true else if t = ['0'] then some false else none
  isFinite _ := true
  text_ne_nil b := by cases b <;> exact List.cons_ne_nil _ _
  isNumberChar_of_mem b c hc := by
    cases b
    · obtain rfl := List.mem_singleton.mp hc
      rfl
    · obtain rfl := List.mem_singleton.mp hc
      rfl
  read_text b := by cases b <;> rfl

/-- A value with a quote, a brace, a backslash, a comma and a line end in it. -/
private def oddLabel : Label := ⟨['a'], ['"', '}', '\\', ',', '\n'], by decide⟩

private def withExemplar : Sample twoNumbers where
  name := ['h', 'i', 't', 's']
  named := by decide
  labels := [oddLabel]
  nodup := by decide
  value := true
  finite := rfl
  time := none
  exemplar := some ⟨[⟨['i', 'd'], ['}', '#'], by decide⟩], true, some false⟩

end SparkPulse.Metrics
