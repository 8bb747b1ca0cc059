import SparkPulse.Engines.Render
import SparkPulse.Shell.Words

/-!
# The environment that a launch script exports

`_script` writes `export name="value"` for each variable of a rank's environment, with nothing
escaped. A shell that reads the script line by line comes to the launch command with exactly that
environment when the names are names and double quotes leave the values as they are; and it never
does by chance: a value in which a quote closes, or a backslash takes the meaning from what follows,
gets fewer letters from its own line than it has, and what it would take from the next lines is
missing there.
-/

namespace SparkPulse.Engines

open Recipes (Text)

/-! ## What the script is to do -/

/-- A name that a variable can have. -/
def isName (t : Text) : Bool :=
  t.head?.any (fun c ↦ c.isAlpha || c = '_') && t.all fun c ↦ c.isAlphanum || c = '_'

/-- The two sides of the first `=`. -/
def assignment : Text → Option (Text × Text)
  | [] => none
  | c :: t => if c = '=' then some ([], t) else (assignment t).map fun p ↦ (c :: p.1, p.2)

/-- The variable that a command exports, and its value. -/
def exported : List Text → Option (Text × Text)
  | [command, argument] =>
    if command = "export".toList then (assignment argument).filter fun e ↦ isName e.1 else none
  | _ => none

/-- The variables that a shell has set after these exports. -/
def variablesAfter (exports : Env) : Text → Option Text :=
  exports.foldl (fun vars e ↦ Function.update vars e.1 (some e.2)) fun _ ↦ none

def setOptions : List Text := ["set", "-euo", "pipefail"].map String.toList

/-- What is left to read when the shell comes to the launch command. -/
def launchLine (command : Text) : Text := '\n' :: command ++ ['\n']

/-- A shell that reads the script sets its options and then executes one export for each variable,
and nothing else, up to the launch command; and each variable has its value then. -/
def ExportsExactly (env : Env) (command : Text) : Prop :=
  ∃ commands exports,
    Shell.commands (env.length + 1) (launchText env command) =
        some (setOptions :: commands, launchLine command) ∧
      commands.mapM exported = some exports ∧ exports.map Prod.fst = env.map Prod.fst ∧
        ∀ e ∈ env, variablesAfter exports e.1 = some e.2

/-! ## Exports -/

theorem variablesAfter_of_mem {exports : Env} (hnodup : (exports.map Prod.fst).Nodup) {e : Text × Text}
    (he : e ∈ exports) : variablesAfter exports e.1 = some e.2 := by
  induction exports using List.reverseRecOn with
  | nil => cases he
  | append_singleton exports last ih =>
    rw [List.map_append, List.nodup_append] at hnodup
    obtain ⟨hnodup, -, hdisjoint⟩ := hnodup
    rw [variablesAfter, List.foldl_append, List.foldl_cons, List.foldl_nil, Function.update_apply]
    rcases List.mem_append.mp he with he | he
    · rw [if_neg (hdisjoint e.1 (List.mem_map_of_mem he) last.1 List.mem_cons_self)]
      exact ih hnodup he
    · obtain rfl := List.mem_singleton.mp he
      rw [if_pos rfl]

/-- Exports of the same variables are the same if the variables have the same values then. -/
theorem exports_eq {env exports : Env} (hnodup : (env.map Prod.fst).Nodup)
    (hnames : exports.map Prod.fst = env.map Prod.fst)
    (hvalues : ∀ e ∈ env, variablesAfter exports e.1 = some e.2) : exports = env := by
  have hexports : (exports.map Prod.fst).Nodup := hnames ▸ hnodup
  have hlength : exports.length = env.length := by
    rw [← List.length_map (f := Prod.fst), hnames, List.length_map]
  refine List.ext_getElem hlength fun i hi hi' ↦ ?_
  have hname : exports[i].1 = env[i].1 := by
    have hget := congrArg (fun l ↦ l[i]?) hnames
    simpa [hi, hi'] using hget
  have hvalue := variablesAfter_of_mem hexports (List.getElem_mem hi)
  rw [hname, hvalues _ (List.getElem_mem hi')] at hvalue
  exact Prod.ext hname (Option.some.inj hvalue).symm

theorem eq_of_assignment {t : Text} {e : Text × Text} (h : assignment t = some e) :
    t = e.1 ++ '=' :: e.2 := by
  induction t generalizing e with
  | nil => cases h
  | cons c t ih =>
    rw [assignment] at h
    split_ifs at h with hc
    · cases h
      rw [hc, List.nil_append]
    · obtain ⟨p, hp, rfl⟩ := Option.map_eq_some_iff.mp h
      rw [ih hp, List.cons_append]

theorem assignment_of_not_mem {name value : Text} (h : '=' ∉ name) :
    assignment (name ++ '=' :: value) = some (name, value) := by
  induction name with
  | nil => rw [List.nil_append, assignment, if_pos rfl]
  | cons c name ih =>
    rw [List.mem_cons, not_or] at h
    rw [List.cons_append, assignment, if_neg (Ne.symm h.1), ih h.2]
    rfl

/-- What a command that exports a variable looks like. -/
theorem exported_eq_some {words : List Text} {e : Text × Text} (h : exported words = some e) :
    words = ["export".toList, e.1 ++ '=' :: e.2] ∧ isName e.1 = true := by
  unfold exported at h
  split at h
  next command argument =>
    split_ifs at h with hexport
    obtain ⟨hassignment, hname⟩ := Option.filter_eq_some_iff.mp h
    rw [hexport, ← eq_of_assignment hassignment]
    exact ⟨rfl, hname⟩
  · cases h

/-! ## Names -/

def isNameLetter (c : Char) : Bool := c.isAlphanum || c = '_'

/-- No letter of a name has a meaning to a shell. -/
theorem ne_of_isNameLetter {c d : Char} (hc : isNameLetter c = true) (hd : isNameLetter d = false) :
    c ≠ d := by
  rintro rfl
  rw [hc] at hd
  cases hd

theorem not_isSpecial_of_isNameLetter {c : Char} (hc : isNameLetter c = true) :
    Shell.isSpecial c = false := by
  have hnone : "|&;<>()$\x60*?[]~\x7b\x7d!".toList.all (fun d ↦ !isNameLetter d) = true := by decide
  rw [Shell.isSpecial, Bool.eq_false_iff, Ne, List.contains_iff_mem]
  intro hmem
  have hnot := List.all_eq_true.mp hnone c hmem
  rw [hc] at hnot
  cases hnot

theorem step_of_isNameLetter {c : Char} (hc : isNameLetter c = true) (started : Bool) :
    Shell.step (.gap started) c = some (.put [c] .bare) ∧
      Shell.step .bare c = some (.put [c] .bare) := by
  have hne {d : Char} (hd : isNameLetter d = false) : c ≠ d := ne_of_isNameLetter hc hd
  have hnul := hne (d := '\x00') (by decide)
  have hline := hne (d := '\n') (by decide)
  have hspace := hne (d := ' ') (by decide)
  have htab := hne (d := '\t') (by decide)
  have hhash := hne (d := '#') (by decide)
  have hslash := hne (d := '\\') (by decide)
  have hdouble := hne (d := '"') (by decide)
  have hsingle := hne (d := '\'') (by decide)
  simp [Shell.step, Shell.unquoted, Shell.isBlank, hnul, hline, hspace, htab, hhash, hslash, hdouble,
    hsingle, not_isSpecial_of_isNameLetter hc]

theorem isName_cons {t : Text} (h : isName t = true) :
    ∃ c t', t = c :: t' ∧ ∀ d ∈ t, isNameLetter d = true := by
  rcases t with _ | ⟨c, t⟩
  · cases h
  · rw [isName, Bool.and_eq_true, List.all_eq_true] at h
    exact ⟨c, t, rfl, h.2⟩

theorem exported_of_isName {name value : Text} (h : isName name = true) :
    exported ["export".toList, name ++ '=' :: value] = some (name, value) := by
  obtain ⟨c, t, -, hletters⟩ := isName_cons h
  have hequals : '=' ∉ name := fun hmem ↦ by
    have hletter := hletters _ hmem
    revert hletter
    decide
  rw [exported, if_pos rfl, assignment_of_not_mem hequals]
  exact if_pos h

/-! ## The script -/

def exportLine (e : Text × Text) : Text :=
  "export ".toList ++ e.1 ++ "=\"".toList ++ e.2 ++ ['"']

/-- The export lines, and what comes after them. -/
def exportLines (command : Text) (env : Env) : Text :=
  env.foldr (fun e rest ↦ exportLine e ++ '\n' :: rest) (launchLine command)

theorem intercalate_exports (env : Env) (command : Text) :
    List.intercalate ['\n'] (env.map exportLine ++ [[], command]) ++ ['\n'] =
      exportLines command env := by
  induction env with
  | nil =>
    rw [List.map_nil, List.nil_append, List.intercalate_cons_cons, List.intercalate_singleton]
    rfl
  | cons e env ih =>
    rw [exportLines, List.foldr_cons, ← exportLines, ← ih, List.map_cons, List.cons_append,
      List.intercalate_cons_of_ne_nil (List.append_ne_nil_of_right_ne_nil _ (List.cons_ne_nil _ _)),
      List.append_assoc, List.append_assoc, List.singleton_append]

def header : Text := "#!/usr/bin/env bash\nset -euo pipefail\n".toList

theorem launchText_eq (env : Env) (command : Text) : launchText env command =
    header ++ if env = [] then launchLine command else '\n' :: exportLines command env := by
  rw [launchText]
  by_cases henv : env = []
  · subst henv
    rw [if_pos rfl, if_pos rfl, List.map_nil, List.append_nil, List.append_nil]
    simp only [List.cons_append, List.nil_append, List.intercalate_cons_cons,
      List.intercalate_singleton, List.append_assoc]
    rfl
  · rw [if_neg henv, if_neg henv, ← intercalate_exports]
    have hlines : env.map (fun e ↦ "export ".toList ++ e.1 ++ "=\"".toList ++ e.2 ++ ['"']) =
        env.map exportLine := rfl
    have hne : env.map exportLine ++ [[], command] ≠ [] :=
      List.append_ne_nil_of_right_ne_nil _ (List.cons_ne_nil _ _)
    rw [hlines]
    simp only [List.cons_append, List.nil_append, List.append_assoc, List.intercalate_cons_cons,
      List.intercalate_cons_of_ne_nil hne]
    rfl

theorem command_header (s : Text) : Shell.command (header ++ s) = some (setOptions, s) := rfl

/-- A shell does not stop at a blank line. -/
theorem command_blank (s : Text) : Shell.command ('\n' :: s) = Shell.command s := rfl

variable {name value s : Text}

theorem append_line (start name value s : Text) :
    start ++ [' '] ++ name ++ ['=', '"'] ++ value ++ ['"'] ++ s =
      start ++ ' ' :: (name ++ '=' :: '"' :: (value ++ '"' :: s)) := by
  simp

theorem exportLine_eq (e : Text × Text) :
    exportLine e = "export".toList ++ [' '] ++ e.1 ++ ['=', '"'] ++ e.2 ++ ['"'] := by
  have hexport : "export ".toList = "export".toList ++ [' '] := by decide
  have hquote : "=\"".toList = ['=', '"'] := by decide
  change "export ".toList ++ e.1 ++ "=\"".toList ++ e.2 ++ ['"'] = _
  rw [hexport, hquote]

theorem exportLine_append : exportLine (name, value) ++ s =
    "export".toList ++ ' ' :: (name ++ '=' :: '"' :: (value ++ '"' :: s)) := by
  rw [exportLine_eq]
  exact append_line _ name value s

theorem step_bare_of_all {t : Text} (h : t.all (fun d ↦
    decide (Shell.step .bare d = some (.put [d] .bare))) = true) :
    ∀ d ∈ t, Shell.step .bare d = some (.put [d] .bare) :=
  fun d hd ↦ of_decide_eq_true (List.all_eq_true.mp h d hd)

theorem words_bare_quote : Shell.words .bare ('"' :: s) =
    (Shell.words .double s).map fun p ↦ (Shell.glue [] p.1, p.2) := rfl

/-- How an export begins is read whatever its value is. -/
theorem command_exportLine (hname : isName name = true) :
    Shell.command (exportLine (name, value) ++ s) =
      (Shell.words .double (value ++ '"' :: s)).map fun p ↦
        ("export".toList :: Shell.glue (name ++ ['=']) p.1, p.2) := by
  obtain ⟨c, t, rfl, hletters⟩ := isName_cons hname
  have htext : c :: t ++ '=' :: '"' :: (value ++ '"' :: s) =
      c :: (t ++ ['=']) ++ '"' :: (value ++ '"' :: s) := by
    rw [List.cons_append, List.cons_append, List.append_assoc]
    rfl
  have hname' : ∀ d ∈ t ++ ['='], Shell.step .bare d = some (.put [d] .bare) := by
    intro d hd
    rcases List.mem_append.mp hd with hd | hd
    · exact (step_of_isNameLetter (hletters d (List.mem_cons_of_mem _ hd)) true).2
    · obtain rfl := List.mem_singleton.mp hd
      decide
  have hexport : ∀ d ∈ "xport".toList, Shell.step .bare d = some (.put [d] .bare) :=
    step_bare_of_all (by decide)
  have hgap : Shell.step (.gap false) 'e' = some (.put ['e'] .bare) := by decide
  rw [exportLine_append, Shell.command]
  refine (Shell.words_gap_word hgap hexport).trans ?_
  rw [htext, Shell.words_gap_append
    (step_of_isNameLetter (hletters c List.mem_cons_self) true).1 hname', words_bare_quote,
    Option.map_map, Option.map_map]
  congr 1
  funext p
  have hglue := Shell.glue_append (c :: (t ++ ['='])) [] p.1
  rw [List.append_nil] at hglue
  exact Prod.ext (congrArg (List.cons _) hglue.symm) rfl

/-- A command that begins with another word does not export anything. -/
theorem exported_of_word {c : Char} {t : Text} {words : List Text} {rest : Text}
    (hct : c :: t ≠ "export".toList) (hgap : Shell.step (.gap false) c = some (.put [c] .bare))
    (hbare : ∀ d ∈ t, Shell.step .bare d = some (.put [d] .bare))
    (h : Shell.command (c :: t ++ ' ' :: s) = some (words, rest)) : exported words = none := by
  rw [Shell.command, Shell.words_gap_word hgap hbare] at h
  obtain ⟨⟨ws, r⟩, -, heq⟩ := Option.map_eq_some_iff.mp h
  cases heq
  rcases ws with _ | ⟨argument, _ | _⟩
  · rfl
  · exact if_neg hct
  · rfl

/-- From its second or third letter on, a line does not export anything. -/
theorem exported_of_late {d : ℕ} (hd : d = 1 ∨ d = 2) {words : List Text} {rest : Text}
    (h : Shell.command ((exportLine (name, value) ++ s).drop d) = some (words, rest)) :
    exported words = none := by
  have hx : ∀ d ∈ "port".toList, Shell.step .bare d = some (.put [d] .bare) :=
    step_bare_of_all (by decide)
  have hp : ∀ d ∈ "ort".toList, Shell.step .bare d = some (.put [d] .bare) :=
    step_bare_of_all (by decide)
  rw [exportLine_append] at h
  rcases hd with rfl | rfl
  · exact exported_of_word (by decide) (by decide) hx h
  · exact exported_of_word (by decide) (by decide) hp h

/-! ## Reading the export lines -/

theorem exportLines_cons (command : Text) (e : Text × Text) (env : Env) :
    exportLines command (e :: env) = exportLine e ++ '\n' :: exportLines command env := rfl

theorem length_line (start name value : Text) :
    (start ++ [' '] ++ name ++ ['=', '"'] ++ value ++ ['"']).length =
      start.length + name.length + value.length + 4 := by
  simp only [List.length_append, List.length_cons, List.length_nil]
  omega

theorem length_exportLine (e : Text × Text) :
    (exportLine e).length = e.1.length + e.2.length + 10 := by
  have hexport : "export".toList.length = 6 := by decide
  rw [exportLine_eq, length_line, hexport]
  omega

theorem extent_export (e : Text × Text) :
    Shell.extent ["export".toList, e.1 ++ '=' :: e.2] = e.1.length + e.2.length + 9 := by
  have hexport : "export".toList.length = 6 := by decide
  rw [Shell.extent_cons, Shell.extent_cons, Shell.extent_nil, hexport, List.length_append,
    List.length_cons]
  omega

/-- The commands of a run of exports, taken apart at the first. -/
theorem commands_cons {e : Text × Text} {env : Env} {cs : List (List Text)} {r : Text}
    (h : Shell.commands (e :: env).length s = some (cs, r)) (hcs : cs.mapM exported = some (e :: env)) :
    ∃ ws cs' s', Shell.command s = some (ws, s') ∧ exported ws = some e ∧
      Shell.commands env.length s' = some (cs', r) ∧ cs'.mapM exported = some env := by
  obtain ⟨⟨ws, s'⟩, hcommand, hrest⟩ := Option.bind_eq_some_iff.mp h
  obtain ⟨⟨cs', r'⟩, hcommands, heq⟩ := Option.map_eq_some_iff.mp hrest
  cases heq
  rw [List.mapM_cons] at hcs
  obtain ⟨e', hws, hcs⟩ := Option.bind_eq_some_iff.mp hcs
  obtain ⟨env', hcs', heq⟩ := Option.bind_eq_some_iff.mp hcs
  cases heq
  exact ⟨ws, cs', s', hcommand, hws, hcommands, hcs'⟩

/-- The exports are not read from any later place on. -/
theorem eq_exportLines_of_suffix {command : Text} {env : Env} {cs : List (List Text)}
    (hs : s <:+ exportLines command env)
    (h : Shell.commands env.length s = some (cs, launchLine command))
    (hcs : cs.mapM exported = some env) : s = exportLines command env := by
  induction env generalizing s cs with
  | nil =>
    cases h
    rfl
  | cons e env ih =>
    obtain ⟨ws, cs', s', hcommand, hws, hcommands, hcs'⟩ := commands_cons h hcs
    have hs' : (exportLines command env).length ≤ s'.length := by
      by_contra hlt
      have hsuffix := List.suffix_of_suffix_length_le
        (List.IsSuffix.trans (Shell.suffix_of_words hcommand) hs)
        (List.IsSuffix.trans (List.suffix_cons '\n' (exportLines command env))
          (List.suffix_append (exportLine e) _)) (Nat.le_of_not_le hlt)
      rw [ih hsuffix hcommands hcs'] at hlt
      exact hlt (Nat.le_refl _)
    have hne : s' ≠ [] := by
      rintro rfl
      have hnil := Shell.suffix_of_commands hcommands
      cases List.suffix_nil.mp hnil
    -- the command takes all but two letters of the line at least, so it begins with the line
    have hextent := Shell.extent_le_of_words hcommand hne
    rw [(exported_eq_some hws).1, extent_export] at hextent
    have hlength : (exportLines command (e :: env)).length =
        e.1.length + e.2.length + 11 + (exportLines command env).length := by
      rw [exportLines_cons, List.length_append, length_exportLine, List.length_cons]
      omega
    have hdrop := List.suffix_iff_eq_drop.mp hs
    have hd : (exportLines command (e :: env)).length - s.length = 0 ∨
        (exportLines command (e :: env)).length - s.length = 1 ∨
        (exportLines command (e :: env)).length - s.length = 2 := by omega
    rcases hd with hd | hd
    · rwa [hd, List.drop_zero] at hdrop
    · rw [hdrop, exportLines_cons] at hcommand
      rw [exported_of_late hd hcommand] at hws
      cases hws

/-- A line whose name is one and whose value is verbatim is a command of its own. -/
theorem command_of_verbatim (hname : isName name = true) (hvalue : Shell.isVerbatim value = true) :
    Shell.command (exportLine (name, value) ++ '\n' :: s) =
      some (["export".toList, name ++ '=' :: value], s) := by
  have hend : Shell.words .bare ('\n' :: s) = some ([[]], s) := rfl
  rw [command_exportLine hname, Shell.words_double_of_verbatim hvalue, hend, Option.map_some,
    Option.map_some, Shell.glue, Shell.glue, List.append_nil, List.append_assoc]
  rfl

/-- The export lines are read as the exports that they are, exactly when the values are verbatim. -/
theorem commands_exportLines_iff {command : Text} {env : Env} :
    (∃ cs, Shell.commands env.length (exportLines command env) = some (cs, launchLine command) ∧
        cs.mapM exported = some env) ↔
      ∀ e ∈ env, isName e.1 = true ∧ Shell.isVerbatim e.2 = true := by
  induction env with
  | nil => exact iff_of_true ⟨[], rfl, rfl⟩ nofun
  | cons e env ih =>
    rw [List.forall_mem_cons, ← ih]
    constructor
    · rintro ⟨cs, h, hcs⟩
      obtain ⟨ws, cs', s', hcommand, hws, hcommands, hcs'⟩ := commands_cons h hcs
      obtain ⟨hwords, hname⟩ := exported_eq_some hws
      have hne : s' ≠ [] := by
        rintro rfl
        have hnil := Shell.suffix_of_commands hcommands
        cases List.suffix_nil.mp hnil
      rw [exportLines_cons] at hcommand
      have hsuffix := Shell.suffix_of_words hcommand
      -- nothing is read beyond the line, or the next exports would be read from too late a place
      have hle : (exportLines command env).length ≤ s'.length := by
        by_contra hlt
        have hlate := List.suffix_of_suffix_length_le hsuffix
          (List.IsSuffix.trans (List.suffix_cons '\n' (exportLines command env))
            (List.suffix_append (exportLine e) _)) (Nat.le_of_not_le hlt)
        rw [eq_exportLines_of_suffix hlate hcommands hcs'] at hlt
        exact hlt (Nat.le_refl _)
      have hverbatim : Shell.isVerbatim e.2 = true := by
        rw [command_exportLine hname] at hcommand
        obtain ⟨⟨values, r⟩, hvalue, heq⟩ := Option.map_eq_some_iff.mp hcommand
        obtain ⟨value, rest, rfl⟩ := List.exists_cons_of_ne_nil (Shell.ne_nil_of_words rfl hvalue)
        obtain ⟨hvalues, rfl⟩ := Prod.mk.inj heq
        rw [hwords, Shell.glue] at hvalues
        obtain ⟨harg, rfl⟩ := List.cons.inj (List.cons.inj hvalues).2
        rw [List.append_assoc, List.append_cancel_left_eq] at harg
        exact Shell.verbatim_of_words hvalue (congrArg List.length (List.cons.inj harg).2) hne hle
      rw [command_of_verbatim hname hverbatim] at hcommand
      cases hcommand
      exact ⟨⟨hname, hverbatim⟩, cs', hcommands, hcs'⟩
    · rintro ⟨⟨hname, hverbatim⟩, cs, h, hcs⟩
      refine ⟨["export".toList, e.1 ++ '=' :: e.2] :: cs, ?_, ?_⟩
      · rw [List.length_cons, Shell.commands, exportLines_cons,
          command_of_verbatim hname hverbatim, Option.bind_some, h]
        rfl
      · rw [List.mapM_cons, exported_of_isName hname, hcs]
        rfl

/-! ## What a shell makes of the script -/

theorem commands_launchText (env : Env) (command : Text) (n : ℕ) :
    Shell.commands (n + 1) (launchText env command) =
      (Shell.commands n (if env = [] then launchLine command
        else '\n' :: exportLines command env)).map fun p ↦ (setOptions :: p.1, p.2) := by
  rw [Shell.commands, launchText_eq, command_header, Option.bind_some]

theorem exportsExactly_iff_commands {env : Env} {command : Text}
    (hnodup : (env.map Prod.fst).Nodup) : ExportsExactly env command ↔
      ∃ cs, Shell.commands env.length (exportLines command env) = some (cs, launchLine command) ∧
        cs.mapM exported = some env := by
  have hcommands : Shell.commands env.length (if env = [] then launchLine command
      else '\n' :: exportLines command env) =
        Shell.commands env.length (exportLines command env) := by
    rcases env with _ | ⟨e, env⟩
    · rfl
    · rw [if_neg (List.cons_ne_nil _ _), List.length_cons, Shell.commands, command_blank]
      rfl
  rw [ExportsExactly, commands_launchText, hcommands]
  constructor
  · rintro ⟨cs, exports, hread, hexports, hnames, hvalues⟩
    obtain rfl := exports_eq hnodup hnames hvalues
    obtain ⟨⟨cs', r⟩, hread', heq⟩ := Option.map_eq_some_iff.mp hread
    cases heq
    exact ⟨cs', hread', hexports⟩
  · rintro ⟨cs, hread, hexports⟩
    refine ⟨cs, env, ?_, hexports, rfl, fun e he ↦ variablesAfter_of_mem hnodup he⟩
    rw [hread]
    rfl

/-- A value that double quotes leave as it is: no quote is in it, and no backslash comes before
another, before a line break or at its end. -/
def Unescaped (value : Text) : Prop :=
  ∀ t c t', value = t ++ c :: t' → c ≠ '"' ∧ c ≠ '\x00' ∧
    (c = '\\' → ∃ d t'', t' = d :: t'' ∧ d ≠ '\\' ∧ d ≠ '\n')

theorem unescaped_iff_isVerbatim {value : Text} (h : '$' ∉ value ∧ '\x60' ∉ value) :
    Unescaped value ↔ Shell.isVerbatim value = true := by
  induction value with
  | nil => exact iff_of_true (fun t c t' heq ↦ absurd heq.symm (by simp)) rfl
  | cons c value ih =>
    rw [List.mem_cons, not_or, List.mem_cons, not_or] at h
    obtain ⟨⟨hdollar, hdollar'⟩, hback, hback'⟩ := h
    rw [Shell.isVerbatim_cons, ← ih ⟨hdollar', hback'⟩]
    constructor
    · intro hvalue
      obtain ⟨hquote, hnul, hslash⟩ := hvalue [] c value rfl
      refine ⟨⟨hnul, hquote, Ne.symm hdollar, Ne.symm hback⟩, fun hc ↦ ?_,
        fun t d t' heq ↦ hvalue (c :: t) d t' (by rw [heq, List.cons_append])⟩
      obtain ⟨d, t, rfl, hd, hline⟩ := hslash hc
      have hquote' := (hvalue [c] d t rfl).1
      have hdollar : d ≠ '$' := fun hd ↦ hdollar' (hd ▸ List.mem_cons_self)
      have hback : d ≠ '\x60' := fun hd ↦ hback' (hd ▸ List.mem_cons_self)
      exact ⟨d, t, rfl, by simp [Shell.isEscapable, hd, hquote', hdollar, hback], hline⟩
    · rintro ⟨⟨hnul, hquote, -, -⟩, hslash, hvalue⟩ (_ | ⟨a, t⟩) d t' heq
      · obtain ⟨rfl, rfl⟩ := List.cons.inj heq
        refine ⟨hquote, hnul, fun hd ↦ ?_⟩
        obtain ⟨d', t, rfl, hescapable, hline⟩ := hslash hd
        refine ⟨d', t, rfl, ?_, hline⟩
        rintro rfl
        cases hescapable
      · exact hvalue t d t' (List.cons.inj heq).2

/-- What a rank's launch exports. -/
private def twoVariables : Env :=
  [("NCCL_IB_DISABLE".toList, "0".toList), ("GREETING".toList, "it's\nC:\\dir".toList)]

end SparkPulse.Engines
