import SparkPulse.Data.Lines
import SparkPulse.Sudoers.Grammar
import SparkPulse.Systemd.UnitFile

/-!
# The files an install writes

`render_unit`, `render_sudoers` and `render_network_sudoers` of `agent/bootstrap.py`, and what is
read in the files they write. Where they take a value from outside they look at it first: a user
name must have a certain form, and no other value may have a line end or a null byte.

That form admits names that are no names in a file of rules, `ALL` first of all; and a value without
a line end may still take the end of its line away with a backslash, have a percent sign in it that
stands for something else, or lose the blanks at its ends. In all other cases what is read is what
was meant.

## Main results

* `SparkPulse.Agent.Rendering.parse_rules_iff`: when a file of rules grants what it should.
* `SparkPulse.Agent.Rendering.parse_unit_iff`: when a unit has the directives it should.
* `SparkPulse.Agent.Rendering.rendered_as_meant_iff`: both, of all three files.
-/

namespace SparkPulse.Agent.Rendering

/-! ## Rendering -/

def unitName : String := "spark-pulse-agent.service"

/-- `BootstrapError`, as the renderers raise it. -/
inductive BootstrapError
  | notOneLine (what value : String)
  | notUsername (user : String)
  deriving DecidableEq, Repr

/-- The message, given how a text is shown. -/
def BootstrapError.text (repr : String → String) : BootstrapError → String
  | .notOneLine what value => s!"{what} may not contain a newline or a null byte: {repr value}"
  | .notUsername user =>
    s!"{repr user} is not a username this can write a sudoers rule for; " ++
      "expected letters, digits, and any of '_', '-', '.', '$'"

/-- `InstallPaths`, as far as the renderers read it. -/
structure InstallPaths where
  scope : String
  installRoot : String
  identityDir : String
  deriving DecidableEq, Repr

namespace InstallPaths

def launcher (paths : InstallPaths) : String :=
  s!"{paths.installRoot}/current/bin/spark-pulse-agent"

def wantedBy (paths : InstallPaths) : String :=
  if paths.scope = "user" then "default.target" else "multi-user.target"

end InstallPaths

/-- Letters, digits and the underscore. -/
def isNameStart (c : Char) : Bool :=
  'A' ≤ c && c ≤ 'Z' || 'a' ≤ c && c ≤ 'z' || '0' ≤ c && c ≤ '9' || c = '_'

def isNameChar (c : Char) : Bool := isNameStart c || c = '.' || c = '-'

/-- `_POSIX_USERNAME`, of the whole text. -/
def posixUsername (user : String) : Bool :=
  match user.toList with
  | [] => false
  | c :: cs =>
    let body := if cs.getLast? = some '$' then cs.dropLast else cs
    isNameStart c && body.all isNameChar && decide (body.length ≤ 31)

/-- `_single_line`: a value with no way to become a second directive. -/
def singleLine (value what : String) : Except BootstrapError String :=
  if value.toList.any fun c ↦ c = '\r' || c = '\n' || c = '\x00' then
    .error (.notOneLine what value)
  else .ok value

/-- Lines, each with its end. -/
def unlines : List String → String
  | [] => ""
  | l :: ls => l ++ "\n" ++ unlines ls

def describe (nodeName : String) : Except BootstrapError String :=
  if nodeName = "" then .ok "spark-pulse node agent"
  else do
    let name ← singleLine nodeName "a node name"
    return s!"spark-pulse node agent ({name})"

/-- The unit, line by line. -/
def unitLines (paths : InstallPaths) (controlTarget description : String) : List String :=
  ["[Unit]",
    s!"Description={description}",
    "Documentation=https://github.com/kharkevich-engineering-lab/spark-pulse",
    "After=network-online.target",
    "Wants=network-online.target",
    "",
    "[Service]",
    "Type=simple",
    s!"Environment=SPARK_PULSE_AGENT_DIR={paths.identityDir}",
    s!"ExecStart={paths.launcher} --control {controlTarget}",
    "# A backstop, not the reconnection mechanism: the agent redials on its own.",
    "Restart=on-failure",
    "RestartSec=5",
    "# Exit 2 is a configuration error the agent has already explained. Looping on",
    "# it would replace that explanation with a unit stuck in 'activating'.",
    "RestartPreventExitStatus=2",
    "KillSignal=SIGTERM",
    "TimeoutStopSec=30",
    "",
    "[Install]",
    s!"WantedBy={paths.wantedBy}"]

/-- `render_unit` -/
def renderUnit (paths : InstallPaths) (controlTarget nodeName : String) :
    Except BootstrapError String := do
  let description ← describe nodeName
  let _ ← singleLine controlTarget "a control target"
  let _ ← singleLine paths.identityDir "an identity directory"
  let _ ← singleLine paths.launcher "a launcher path"
  return unlines (unitLines paths controlTarget description)

/-- One rule after some comments. -/
def ruleLines (comments : List String) (user : String) (commands : List String) : List String :=
  comments ++ [s!"{user} ALL=(root) NOPASSWD: " ++ ", ".intercalate commands]

/-- The shape the two renderers of rules share. -/
def renderRules (comments commands : List String) (user : String) : Except BootstrapError String :=
  if posixUsername user then .ok (unlines (ruleLines comments user commands))
  else .error (.notUsername user)

def networkComments : List String :=
  ["# Installed by spark-pulse. Covers connection add/modify/up/down —",
    "# what agent/src/executor/fabric.rs issues under sudo -n — and",
    "# nothing else: no other nmcli object, no shell, no arbitrary command."]

def networkCommands : List String :=
  ["add", "modify", "up", "down"].map fun verb ↦ s!"/usr/bin/nmcli connection {verb} *"

/-- `render_network_sudoers` -/
def renderNetworkSudoers (user : String) : Except BootstrapError String :=
  renderRules networkComments networkCommands user

def serviceComments : List String :=
  ["# Installed by spark-pulse. Covers start/stop/restart of one unit and",
    "# nothing else — no shell, no arbitrary systemctl, no other unit."]

def serviceCommands (unit : String) : List String :=
  ["start", "stop", "restart"].map fun verb ↦ s!"/usr/bin/systemctl {verb} {unit}"

/-- `render_sudoers` -/
def renderSudoers (user unit : String) : Except BootstrapError String := do
  if posixUsername user then
    let _ ← singleLine unit "a unit name"
  renderRules serviceComments (serviceCommands unit) user

/-! ## What is meant -/

/-- These commands as root, anywhere and without a password. -/
def asRoot (commands : List String) : List Sudoers.Privilege :=
  [⟨[.all], commands.map fun command ↦
    ⟨some ([.named "root".toList], []), ["NOPASSWD".toList], .command command.toList⟩⟩]

/-- One rule: this user may run these commands. -/
def granting (user : String) (commands : List String) : List Sudoers.Entry :=
  [.userSpec [.named user.toList] (asRoot commands)]

def directive (key value : String) : Systemd.Item :=
  .directive key.toList (Systemd.literal value.toList)

/-- The description that a unit is given. -/
def description (nodeName : String) : String :=
  if nodeName = "" then "spark-pulse node agent" else s!"spark-pulse node agent ({nodeName})"

/-- The sections and directives of the unit, each with the value it is written with. -/
def meant (paths : InstallPaths) (controlTarget nodeName : String) : List Systemd.Item :=
  [.header "Unit".toList,
    directive "Description" (description nodeName),
    directive "Documentation" "https://github.com/kharkevich-engineering-lab/spark-pulse",
    directive "After" "network-online.target",
    directive "Wants" "network-online.target",
    .header "Service".toList,
    directive "Type" "simple",
    directive "Environment" s!"SPARK_PULSE_AGENT_DIR={paths.identityDir}",
    directive "ExecStart" s!"{paths.launcher} --control {controlTarget}",
    directive "Restart" "on-failure",
    directive "RestartSec" "5",
    directive "RestartPreventExitStatus" "2",
    directive "KillSignal" "SIGTERM",
    directive "TimeoutStopSec" "30",
    .header "Install".toList,
    directive "WantedBy" paths.wantedBy]

/-! ## Rules -/

theorem toList_unlines (ls : List String) :
    (unlines ls).toList = (ls.map String.toList).flatMap fun l ↦ l ++ ['\n'] := by
  induction ls with
  | nil => rfl
  | cons l ls ih =>
    rw [unlines, String.toList_append, String.toList_append, ih, List.map_cons, List.flatMap_cons]
    rfl

/-- The letters that end a word, or begin something else. -/
theorem mem_of_not_isWordChar {c : Char} (h : Sudoers.isWordChar c = false) :
    c ∈ [' ', '\t', ',', '=', ':', '(', ')', '!', '#', '>', '"', '\\', '\r', '\n'] := by
  rw [Sudoers.isWordChar, Bool.not_eq_false', Bool.or_eq_true, Bool.or_eq_true] at h
  simpa [Sudoers.isBlank, Sudoers.isPunct, or_assoc] using h

theorem isWordChar_of_isNameChar {c : Char} (h : isNameChar c = true) :
    Sudoers.isWordChar c = true := by
  by_contra hc
  have hmem := mem_of_not_isWordChar (Bool.eq_false_iff.mpr hc)
  have hnone : ([' ', '\t', ',', '=', ':', '(', ')', '!', '#', '>', '"', '\\', '\r',
      '\n'].any isNameChar) = false := by decide
  exact List.any_eq_false.mp hnone c hmem h

/-- A user name begins with a letter, a digit or an underscore, and is one word. -/
theorem exists_of_posixUsername {user : String} (h : posixUsername user = true) :
    ∃ c cs, user.toList = c :: cs ∧ isNameStart c = true ∧
      (c :: cs).all Sudoers.isWordChar = true := by
  rw [posixUsername] at h
  split at h
  · cases h
  next c cs heq =>
    rw [Bool.and_eq_true, Bool.and_eq_true] at h
    obtain ⟨⟨hc, hbody⟩, -⟩ := h
    have hword : ∀ d ∈ (if cs.getLast? = some '$' then cs.dropLast else cs),
        Sudoers.isWordChar d = true := fun d hd ↦
      isWordChar_of_isNameChar (List.all_eq_true.mp hbody d hd)
    have hstart : isNameChar c = true := by rw [isNameChar, hc, Bool.true_or, Bool.true_or]
    refine ⟨c, cs, heq, hc, List.all_eq_true.mpr fun d hd ↦ ?_⟩
    rcases List.mem_cons.mp hd with rfl | hd
    · exact isWordChar_of_isNameChar hstart
    · split_ifs at hword with hlast
      · rw [← List.dropLast_append_getLast? _ hlast] at hd
        rcases List.mem_append.mp hd with hd | hd
        · exact hword d hd
        · obtain rfl := List.mem_singleton.mp hd
          decide
      · exact hword d hd

/-- What stands after the name of the user. -/
def ruleOf (commands : List String) : List Char :=
  ("ALL=(root) NOPASSWD: " ++ ", ".intercalate commands).toList

/-- Comments are read as such, and commands as commands. -/
structure Readable (comments commands : List String) : Prop where
  comments : ∀ l ∈ comments.map String.toList, ['#', ' '].isPrefixOf l = true ∧
    (l.all (· ≠ '\n')) = true ∧ l.getLast? ≠ some '\\'
  oneLine : ((ruleOf commands).all (· ≠ '\n')) = true
  ends : (ruleOf commands).getLast?.any (· ≠ '\\') = true
  starts : (Sudoers.lex (.gap false) (ruleOf commands)).bind List.head? = some .all
  tokens : ((Sudoers.lex (.gap false) (ruleOf commands)).bind fun ts ↦
    Sudoers.readPrivileges (ts.length + 1) ts) = some (asRoot commands)

theorem readable_network : Readable networkComments networkCommands := by
  refine ⟨?_, ?_, ?_, ?_, ?_⟩ <;> decide +kernel

theorem readable_service : Readable serviceComments (serviceCommands unitName) := by
  refine ⟨?_, ?_, ?_, ?_, ?_⟩ <;> decide +kernel

section
variable {user : String} {comments commands : List String}

/-- The line of the rule. -/
theorem readLine_rule (h : Readable comments commands) (huser : posixUsername user = true) :
    (Sudoers.readLine (user.toList ++ ' ' :: ruleOf commands) = some (granting user commands)) ↔
      Sudoers.isReserved user.toList = false := by
  obtain ⟨c, cs, heq, hc, hword⟩ := exists_of_posixUsername huser
  obtain ⟨ts, hts, htokens⟩ := Option.bind_eq_some_iff.mp h.tokens
  have hhead : ts.head? = some .all := by simpa [hts] using h.starts
  obtain ⟨ts, rfl⟩ := List.head?_eq_some_iff.mp hhead
  have hfirst : ∀ d ∈ ['#', '@', '/', '%', '+'], c ≠ d := by
    have hnone : (['#', '@', '/', '%', '+'].any isNameStart) = false := by decide
    rintro d hd rfl
    exact List.any_eq_false.mp hnone c hd hc
  have hincludes : Sudoers.includes (user.toList ++ ' ' :: ruleOf commands) = false := by
    rw [heq]
    simp [Sudoers.includes, List.isPrefixOf, (hfirst '#' (by decide)).symm,
      (hfirst '@' (by decide)).symm]
  have hnamed : Sudoers.namedBy user.toList = .named user.toList := by
    rw [heq]
    unfold Sudoers.namedBy
    split
    next hsplit => exact absurd (List.cons.inj hsplit).1 (hfirst '%' (by decide))
    next hsplit => exact absurd (List.cons.inj hsplit).1 (hfirst '+' (by decide))
    next hsplit => exact absurd (List.cons.inj hsplit).1 (hfirst '#' (by decide))
    · rfl
  rw [List.all_cons, Bool.and_eq_true] at hword
  have hlex : Sudoers.lex (.gap true) (user.toList ++ ' ' :: ruleOf commands) =
      some (Sudoers.classify true user.toList :: .all :: ts) := by
    rw [heq, Sudoers.lex_first_word hword.1 (hfirst '/' (by decide)) hword.2, hts]
    rfl
  have hcomma : (Sudoers.Token.all : Sudoers.Token) ≠ .punct ',' := fun h ↦ nomatch h
  rw [Sudoers.readLine, hincludes, hlex, ← Sudoers.userOf_classify_iff hnamed,
    if_neg Bool.false_ne_true, Option.bind_some, if_neg (List.cons_ne_nil _ _), granting,
    Option.map_eq_some_iff]
  constructor
  · rintro ⟨entry, hentry, hone⟩
    obtain rfl := (List.cons.inj hone).1
    exact ((Sudoers.readEntry_eq_userSpec_iff hcomma).mp hentry).1
  · intro huserOf
    exact ⟨_, (Sudoers.readEntry_eq_userSpec_iff hcomma).mpr ⟨huserOf, htokens⟩, rfl⟩

/-- **Rules.** A file of rules grants what it should, to whom it should, unless the name of the user
is a word that has another meaning. -/
theorem parse_rules_iff (h : Readable comments commands) (huser : posixUsername user = true) :
    (Sudoers.parse (unlines (ruleLines comments user commands)).toList =
      some (granting user commands)) ↔ Sudoers.isReserved user.toList = false := by
  obtain ⟨c, cs, heq, -, hword⟩ := exists_of_posixUsername huser
  have hlines : (ruleLines comments user commands).map String.toList =
      comments.map String.toList ++ [user.toList ++ ' ' :: ruleOf commands] := by
    have hblank : " ALL=(root) NOPASSWD: ".toList = ' ' :: "ALL=(root) NOPASSWD: ".toList := rfl
    simp only [ruleLines, ruleOf, toString, List.map_append, List.map_cons, List.map_nil,
      String.toList_append, hblank, List.append_assoc, List.cons_append]
  have huserLetters : ∀ d ∈ user.toList, d ≠ '\n' := by
    rw [heq]
    rintro d hd rfl
    exact absurd (List.all_eq_true.mp hword '\n' hd) (by decide)
  have hbreak : ∀ l ∈ (ruleLines comments user commands).map String.toList, ∀ d ∈ l,
      decide (d = '\n') = false := by
    rw [hlines]
    intro l hl d hd
    rw [decide_eq_false_iff_not]
    rcases List.mem_append.mp hl with hl | hl
    · simpa using List.all_eq_true.mp (h.comments l hl).2.1 d hd
    · obtain rfl := List.mem_singleton.mp hl
      rcases List.mem_append.mp hd with hd | hd
      · exact huserLetters d hd
      · rcases List.mem_cons.mp hd with rfl | hd
        · decide
        · simpa using List.all_eq_true.mp h.oneLine d hd
  have hlast : ∀ l ∈ (ruleLines comments user commands).map String.toList ++ [[]],
      l.getLast? ≠ some '\\' := by
    rw [hlines]
    intro l hl
    rcases List.mem_append.mp hl with hl | hl
    · rcases List.mem_append.mp hl with hl | hl
      · exact (h.comments l hl).2.2
      · obtain rfl := List.mem_singleton.mp hl
        have hends := h.ends
        rcases hlastOf : (ruleOf commands).getLast? with _ | d
        · rw [hlastOf] at hends
          cases hends
        · rw [hlastOf, Option.any_some, decide_eq_true_eq] at hends
          rw [List.getLast?_append, List.getLast?_cons, hlastOf]
          exact fun h ↦ hends (Option.some.inj h)
    · obtain rfl := List.mem_singleton.mp hl
      exact fun h ↦ nomatch h
  have hcomments : ∀ l ∈ comments.map String.toList, Sudoers.readLine l = some [] := by
    intro l hl
    obtain ⟨rest, rfl⟩ := List.isPrefixOf_iff_prefix.mp (h.comments l hl).1
    exact Sudoers.readLine_comment rest
  rw [Sudoers.parse, toList_unlines, Lines.splitOnP_flatMap (by decide) hbreak,
    Sudoers.logicalLines_eq_self hlast, hlines, List.append_assoc,
    Sudoers.readLines_append hcomments, ← readLine_rule h huser]
  have hrest : ∀ read : Option (List Sudoers.Entry),
      (read.bind fun entries ↦ (Sudoers.readLines [[]]).map (entries ++ ·)) = read := by
    rintro (_ | entries)
    · rfl
    · exact congrArg some (List.append_nil entries)
  rw [List.singleton_append, Sudoers.readLines, hrest]

end

/-! ## The unit -/

/-- What keeps each value of the unit inside its own directive, letter by letter. -/
structure Contained (paths : InstallPaths) (controlTarget nodeName : String) : Prop where
  plain : Systemd.isPlain nodeName.toList = true ∧ Systemd.isPlain paths.identityDir.toList = true ∧
    Systemd.isPlain paths.launcher.toList = true ∧ Systemd.isPlain controlTarget.toList = true
  ends : Systemd.goesOn paths.identityDir.toList = false ∧
    Systemd.goesOn controlTarget.toList = false
  tight : paths.identityDir.toList.getLast?.all (!Systemd.isBlank ·) = true ∧
    paths.launcher.toList.head?.all (!Systemd.isBlank ·) = true ∧
    controlTarget.toList.getLast?.any (!Systemd.isBlank ·) = true

/-- The value of `ExecStart`. -/
def startValue (paths : InstallPaths) (controlTarget : String) : List Char :=
  paths.launcher.toList ++ ' ' :: ("--control".toList ++ ' ' :: controlTarget.toList)

/-- The value of `Environment`. -/
def environmentValue (paths : InstallPaths) : List Char :=
  "SPARK_PULSE_AGENT_DIR".toList ++ '=' :: paths.identityDir.toList

def linesBefore (nodeName : String) : List (List Char) :=
  ["[Unit]".toList, "Description".toList ++ '=' :: (description nodeName).toList,
    "Documentation=https://github.com/kharkevich-engineering-lab/spark-pulse".toList,
    "After=network-online.target".toList, "Wants=network-online.target".toList, [],
    "[Service]".toList, "Type=simple".toList]

def linesAfter (paths : InstallPaths) : List (List Char) :=
  ["RestartSec=5".toList,
    "# Exit 2 is a configuration error the agent has already explained. Looping on".toList,
    "# it would replace that explanation with a unit stuck in 'activating'.".toList,
    "RestartPreventExitStatus=2".toList, "KillSignal=SIGTERM".toList, "TimeoutStopSec=30".toList,
    [], "[Install]".toList, "WantedBy".toList ++ '=' :: paths.wantedBy.toList, []]

def environmentLine (paths : InstallPaths) : List Char :=
  "Environment".toList ++ '=' :: environmentValue paths

def startLine (paths : InstallPaths) (controlTarget : String) : List Char :=
  "ExecStart".toList ++ '=' :: startValue paths controlTarget

def restartComment : List Char :=
  "# A backstop, not the reconnection mechanism: the agent redials on its own.".toList

section
variable {paths : InstallPaths} {controlTarget nodeName text : String}

theorem singleLine_eq_ok {value what line : String} (h : singleLine value what = .ok line) :
    line = value ∧ ∀ c ∈ value.toList, Systemd.isLineEnd c = false := by
  rw [singleLine] at h
  split_ifs at h with hany
  obtain rfl := Except.ok.inj h
  refine ⟨rfl, fun c hc ↦ ?_⟩
  by_contra hend
  refine hany (List.any_eq_true.mpr ⟨c, hc, ?_⟩)
  simpa [Systemd.isLineEnd, or_comm, or_assoc] using (Bool.not_eq_false _).mp hend

theorem describe_eq_ok {name : String} (h : describe nodeName = .ok name) :
    name = description nodeName ∧ ∀ c ∈ name.toList, Systemd.isLineEnd c = false := by
  rw [describe] at h
  rw [description]
  split_ifs at h ⊢ with hname
  · obtain rfl := Except.ok.inj h
    have hearly : ("spark-pulse node agent".toList.any Systemd.isLineEnd) = false := by decide
    exact ⟨rfl, fun c hc ↦ Bool.eq_false_iff.mpr (List.any_eq_false.mp hearly c hc)⟩
  · rcases hline : singleLine nodeName "a node name" with x | line
    · rw [hline] at h
      cases h
    · obtain ⟨rfl, hends⟩ := singleLine_eq_ok hline
      rw [hline] at h
      obtain rfl := Except.ok.inj h
      refine ⟨rfl, fun c hc ↦ ?_⟩
      have hletters : (s!"spark-pulse node agent ({line})").toList =
          "spark-pulse node agent (".toList ++ line.toList ++ [')'] := by
        simp only [toString, String.toList_append]
        rfl
      rw [hletters] at hc
      rcases List.mem_append.mp hc with hc | hc
      · rcases List.mem_append.mp hc with hc | hc
        · have hearly : ("spark-pulse node agent (".toList.any Systemd.isLineEnd) = false := by
            decide
          exact Bool.eq_false_iff.mpr (List.any_eq_false.mp hearly c hc)
        · exact hends c hc
      · obtain rfl := List.mem_singleton.mp hc
        decide

theorem renderUnit_eq_ok (h : renderUnit paths controlTarget nodeName = .ok text) :
    text = unlines (unitLines paths controlTarget (description nodeName)) ∧
      ∀ l ∈ (unitLines paths controlTarget (description nodeName)).map String.toList,
        ∀ c ∈ l, Systemd.isLineEnd c = false := by
  rw [renderUnit] at h
  rcases hdescription : describe nodeName with x | name
  · rw [hdescription] at h
    cases h
  rcases htarget : singleLine controlTarget "a control target" with x | target
  · rw [hdescription, htarget] at h
    cases h
  rcases hdir : singleLine paths.identityDir "an identity directory" with x | dir
  · rw [hdescription, htarget, hdir] at h
    cases h
  rcases hlauncher : singleLine paths.launcher "a launcher path" with x | launcher
  · rw [hdescription, htarget, hdir, hlauncher] at h
    cases h
  rw [hdescription, htarget, hdir, hlauncher] at h
  obtain ⟨rfl, hname⟩ := describe_eq_ok hdescription
  obtain ⟨-, htarget⟩ := singleLine_eq_ok htarget
  obtain ⟨-, hdir⟩ := singleLine_eq_ok hdir
  obtain ⟨-, hlauncher⟩ := singleLine_eq_ok hlauncher
  refine ⟨(Except.ok.inj h).symm, ?_⟩
  have hwanted : (paths.wantedBy.toList.all (!Systemd.isLineEnd ·)) = true := by
    rw [InstallPaths.wantedBy]
    split_ifs <;> decide
  have hall : ∀ {l : List Char}, (∀ c ∈ l, Systemd.isLineEnd c = false) →
      l.all (!Systemd.isLineEnd ·) = true := fun h ↦
    List.all_eq_true.mpr fun c hc ↦ by rw [h c hc, Bool.not_false]
  have hclean : ((unitLines paths controlTarget (description nodeName)).map String.toList).all
      (fun l ↦ l.all (!Systemd.isLineEnd ·)) = true := by
    simp only [unitLines, toString, List.map_cons, List.map_nil, String.toList_append,
      List.all_cons, List.all_nil, List.all_append, hall hname, hall htarget, hall hdir,
      hall hlauncher, hwanted]
    decide +kernel
  intro l hl c hc
  simpa using List.all_eq_true.mp (List.all_eq_true.mp hclean l hl) c hc

/-- The lines of the unit, around the two that end in a value from outside. -/
theorem lines_eq : (unitLines paths controlTarget (description nodeName)).map String.toList ++
    [[]] = linesBefore nodeName ++ (environmentLine paths :: startLine paths controlTarget ::
      restartComment :: "Restart=on-failure".toList :: linesAfter paths) := by
  simp only [unitLines, toString, List.map_cons, List.map_nil, String.toList_append,
    List.append_assoc]
  rfl

/-- What the lines before the two say. -/
def itemsBefore (nodeName : String) : List Systemd.Item :=
  [.header "Unit".toList,
    .directive "Description".toList
      (Systemd.readValue (Systemd.strip (description nodeName).toList)),
    directive "Documentation" "https://github.com/kharkevich-engineering-lab/spark-pulse",
    directive "After" "network-online.target", directive "Wants" "network-online.target",
    .header "Service".toList, directive "Type" "simple"]

/-- What the lines after the two say, from `RestartSec` on. -/
def itemsAfter (paths : InstallPaths) : List Systemd.Item :=
  [directive "RestartSec" "5", directive "RestartPreventExitStatus" "2",
    directive "KillSignal" "SIGTERM", directive "TimeoutStopSec" "30", .header "Install".toList,
    directive "WantedBy" paths.wantedBy]

theorem goesOn_description :
    Systemd.goesOn ("Description".toList ++ '=' :: (description nodeName).toList) = false := by
  rw [description]
  split_ifs
  · decide
  · have hletters :
        "Description".toList ++ '=' :: (s!"spark-pulse node agent ({nodeName})").toList =
          "Description=spark-pulse node agent (".toList ++ nodeName.toList ++ [')'] := by
      simp only [toString, String.toList_append]
      rfl
    rw [hletters, Systemd.goesOn_concat (by decide)]

theorem items_before : ((linesBefore nodeName).filter fun l ↦ !Systemd.isComment l).filterMap
    Systemd.parseLine = itemsBefore nodeName := by
  have hcomment : (linesBefore nodeName).filter (fun l ↦ !Systemd.isComment l) =
      linesBefore nodeName := rfl
  have hunit : Systemd.parseLine "[Unit]".toList = some (.header "Unit".toList) := by
    decide +kernel
  have hdescription : Systemd.parseLine
      ("Description".toList ++ '=' :: (description nodeName).toList) = some (.directive
        "Description".toList (Systemd.readValue (Systemd.strip (description nodeName).toList))) :=
    Systemd.parseLine_directive (by decide) (by decide) (by decide)
  have hrest : ["Documentation=https://github.com/kharkevich-engineering-lab/spark-pulse".toList,
      "After=network-online.target".toList, "Wants=network-online.target".toList, [],
      "[Service]".toList, "Type=simple".toList].filterMap Systemd.parseLine =
        [directive "Documentation" "https://github.com/kharkevich-engineering-lab/spark-pulse",
          directive "After" "network-online.target", directive "Wants" "network-online.target",
          .header "Service".toList, directive "Type" "simple"] := by
    decide +kernel
  rw [hcomment, linesBefore, List.filterMap_cons_some hunit,
    List.filterMap_cons_some hdescription, hrest]
  rfl

theorem items_after : (Systemd.join none (linesAfter paths)).filterMap Systemd.parseLine =
    itemsAfter paths := by
  have hends : ∀ l ∈ linesAfter paths, Systemd.isComment l = true ∨ Systemd.goesOn l = false := by
    rw [linesAfter, InstallPaths.wantedBy]
    split_ifs <;> decide +kernel
  have hjoin : Systemd.join none (linesAfter paths ++ []) = _ := Systemd.join_append hends
  rw [List.append_nil] at hjoin
  rw [hjoin, linesAfter, itemsAfter, InstallPaths.wantedBy]
  split_ifs <;> decide +kernel

/-- What a unit says, up to the two values. -/
theorem parse_eq (h : renderUnit paths controlTarget nodeName = .ok text) :
    Systemd.parse text.toList = itemsBefore nodeName ++
      (Systemd.join none (environmentLine paths :: startLine paths controlTarget ::
        restartComment :: "Restart=on-failure".toList :: linesAfter paths)).filterMap
          Systemd.parseLine := by
  obtain ⟨rfl, hclean⟩ := renderUnit_eq_ok h
  have hends : ∀ l ∈ linesBefore nodeName,
      Systemd.isComment l = true ∨ Systemd.goesOn l = false := by
    refine List.forall_mem_cons.mpr ⟨by decide, List.forall_mem_cons.mpr ⟨?_, by decide⟩⟩
    exact .inr goesOn_description
  rw [Systemd.parse, toList_unlines, Lines.splitOnP_flatMap (by decide) hclean, lines_eq,
    Systemd.join_append hends, List.filterMap_append, items_before]
  rfl

/-- The two values and what follows them, when neither line goes on. -/
theorem items_of_ends (hdir : Systemd.goesOn (environmentLine paths) = false)
    (htarget : Systemd.goesOn (startLine paths controlTarget) = false) :
    (Systemd.join none (environmentLine paths :: startLine paths controlTarget ::
      restartComment :: "Restart=on-failure".toList :: linesAfter paths)).filterMap
        Systemd.parseLine =
      .directive "Environment".toList
        (Systemd.readValue (Systemd.strip (environmentValue paths))) ::
      .directive "ExecStart".toList
        (Systemd.readValue (Systemd.strip (startValue paths controlTarget))) ::
      directive "Restart" "on-failure" :: itemsAfter paths := by
  have henvironment : Systemd.parseLine (environmentLine paths) = some (.directive
      "Environment".toList (Systemd.readValue (Systemd.strip (environmentValue paths)))) :=
    Systemd.parseLine_directive (by decide) (by decide) (by decide)
  have hstart : Systemd.parseLine (startLine paths controlTarget) = some (.directive
      "ExecStart".toList (Systemd.readValue (Systemd.strip (startValue paths controlTarget)))) :=
    Systemd.parseLine_directive (by decide) (by decide) (by decide)
  have hrestart : Systemd.parseLine "Restart=on-failure".toList =
      some (directive "Restart" "on-failure") := by decide +kernel
  rw [Systemd.join_of_ends rfl hdir, Systemd.join_of_ends rfl htarget, Systemd.join_comment rfl,
    Systemd.join_of_ends rfl (by decide), List.filterMap_cons_some henvironment,
    List.filterMap_cons_some hstart, List.filterMap_cons_some hrestart, items_after]

/-- The line of a directive that goes on is still a line of that directive. -/
theorem exists_parseLine_goesOn {line key value : List Char} (hline : line = key ++ '=' :: value)
    (hvalue : value ≠ []) (hkey : key.head?.all (· ≠ '[') = true) (hne : key ≠ [])
    (hletters : (key.all fun c ↦ c ≠ '=' && !Systemd.isBlank c) = true) (l : List Char) :
    ∃ pieces, Systemd.parseLine (line.dropLast ++ l) = some (.directive key pieces) := by
  have hdrop : line.dropLast ++ l = key ++ '=' :: (value.dropLast ++ l) := by
    rw [hline, List.dropLast_append_of_ne_nil (List.cons_ne_nil _ _),
      List.dropLast_cons_of_ne_nil hvalue, List.append_assoc, List.cons_append]
  rw [hdrop]
  exact ⟨_, Systemd.parseLine_directive hkey hne hletters⟩

theorem environmentValue_ne_nil : environmentValue paths ≠ [] :=
  List.append_ne_nil_of_right_ne_nil _ (List.cons_ne_nil _ _)

theorem startValue_ne_nil : startValue paths controlTarget ≠ [] :=
  List.append_ne_nil_of_right_ne_nil _ (List.cons_ne_nil _ _)

/-- A line that goes on takes the next directive into its own. -/
theorem items_ne_of_goesOn (hgoes : Systemd.goesOn (environmentLine paths) = true ∨
      Systemd.goesOn (startLine paths controlTarget) = true) (pieces pieces' : List Systemd.Piece) :
    (Systemd.join none (environmentLine paths :: startLine paths controlTarget ::
      restartComment :: "Restart=on-failure".toList :: linesAfter paths)).filterMap
        Systemd.parseLine ≠
      .directive "Environment".toList pieces :: .directive "ExecStart".toList pieces' ::
        directive "Restart" "on-failure" :: itemsAfter paths := by
  have hrestart : Systemd.parseLine "Restart=on-failure".toList =
      some (directive "Restart" "on-failure") := by decide +kernel
  have hends : ∀ x, Systemd.goesOn (x ++ "Restart=on-failure".toList) = false := by
    intro x
    have hlast : x ++ "Restart=on-failure".toList = (x ++ "Restart=on-failur".toList) ++ ['e'] := by
      rw [List.append_assoc]
      rfl
    rw [hlast, Systemd.goesOn_concat (by decide)]
  have henvironment : ∀ l, ∃ pieces, Systemd.parseLine
      ((environmentLine paths).dropLast ++ l) = some (.directive "Environment".toList pieces) :=
    exists_parseLine_goesOn rfl environmentValue_ne_nil (by decide) (by decide) (by decide)
  have hnames : "Restart".toList ≠ "ExecStart".toList ∧
      "RestartSec".toList ≠ "ExecStart".toList ∧ "RestartSec".toList ≠ "Restart".toList := by
    decide
  cases hdir : Systemd.goesOn (environmentLine paths)
  · have htarget := hgoes.resolve_left (Bool.eq_false_iff.mp hdir)
    obtain ⟨start, hstart⟩ : ∃ pieces,
        Systemd.parseLine ((startLine paths controlTarget).dropLast ++
          ([' '] ++ "Restart=on-failure".toList)) = some (.directive "ExecStart".toList pieces) :=
      exists_parseLine_goesOn rfl startValue_ne_nil (by decide) (by decide) (by decide) _
    have hfirst : Systemd.parseLine (environmentLine paths) = some (.directive
        "Environment".toList (Systemd.readValue (Systemd.strip (environmentValue paths)))) :=
      Systemd.parseLine_directive (by decide) (by decide) (by decide)
    rw [Systemd.join_of_ends rfl hdir, Systemd.join_of_goesOn rfl htarget,
      Systemd.join_comment rfl, Systemd.join_some rfl (hends _), List.append_assoc,
      List.filterMap_cons_some hfirst, List.filterMap_cons_some hstart, items_after]
    intro heq
    obtain ⟨-, heq⟩ := List.cons.inj heq
    obtain ⟨-, heq⟩ := List.cons.inj heq
    exact hnames.2.2 (Systemd.Item.directive.inj (List.cons.inj heq).1).1
  · cases htarget : Systemd.goesOn
      ((environmentLine paths).dropLast ++ [' '] ++ startLine paths controlTarget)
    · obtain ⟨environment, hfirst⟩ := henvironment ([' '] ++ startLine paths controlTarget)
      rw [← List.append_assoc] at hfirst
      rw [Systemd.join_of_goesOn rfl hdir, Systemd.join_some rfl htarget, Systemd.join_comment rfl,
        Systemd.join_of_ends rfl (by decide), List.filterMap_cons_some hfirst,
        List.filterMap_cons_some hrestart]
      intro heq
      obtain ⟨-, heq⟩ := List.cons.inj heq
      exact hnames.1 (Systemd.Item.directive.inj (List.cons.inj heq).1).1
    · have hparts : ((environmentLine paths).dropLast ++ [' '] ++
          startLine paths controlTarget).dropLast =
            (environmentLine paths).dropLast ++
              ([' '] ++ startLine paths controlTarget).dropLast := by
        rw [List.append_assoc, List.dropLast_append_of_ne_nil (by simp)]
      obtain ⟨environment, hfirst⟩ := henvironment
        (([' '] ++ startLine paths controlTarget).dropLast ++
          ([' '] ++ "Restart=on-failure".toList))
      rw [Systemd.join_of_goesOn rfl hdir, Systemd.join_some_of_goesOn rfl htarget,
        Systemd.join_comment rfl, Systemd.join_some rfl (hends _), hparts, List.append_assoc,
        List.append_assoc, List.filterMap_cons_some hfirst, items_after]
      intro heq
      obtain ⟨-, heq⟩ := List.cons.inj heq
      exact hnames.2.1 (Systemd.Item.directive.inj (List.cons.inj heq).1).1

/-- The value of `Description` is read as it is written when the name of the node is. -/
theorem description_iff :
    (Systemd.isTight (description nodeName).toList = true ∧
      Systemd.isPlain (description nodeName).toList = true) ↔
        Systemd.isPlain nodeName.toList = true := by
  rw [description]
  split_ifs with hname
  · rw [hname]
    decide
  · have hletters : (s!"spark-pulse node agent ({nodeName})").toList =
        "spark-pulse node agent ".toList ++ '(' :: (nodeName.toList ++ ')' :: []) := by
      simp only [toString, String.toList_append]
      rfl
    have htight : Systemd.isTight ("spark-pulse node agent ".toList ++
        '(' :: (nodeName.toList ++ ')' :: [])) = true := by
      rw [Systemd.isTight, ← List.cons_append, ← List.append_assoc, List.getLast?_concat]
      rfl
    have hearly : Systemd.isPlain "spark-pulse node agent ".toList = true := by decide
    rw [hletters, htight, Systemd.isPlain_append_cons (by decide) (by decide), hearly,
      Systemd.isPlain_append_cons (by decide) (by decide), Bool.true_and, Systemd.isPlain,
      Bool.and_true]
    exact and_iff_right rfl

/-- The value of `Environment` is read as it is written when the directory is. -/
theorem environmentValue_iff :
    (Systemd.isTight (environmentValue paths) = true ∧
      Systemd.isPlain (environmentValue paths) = true) ↔
        paths.identityDir.toList.getLast?.all (!Systemd.isBlank ·) = true ∧
          Systemd.isPlain paths.identityDir.toList = true := by
  have htight : Systemd.isTight (environmentValue paths) =
      ("SPARK_PULSE_AGENT_DIR".toList.head?.all (!Systemd.isBlank ·) &&
        paths.identityDir.toList.getLast?.all (!Systemd.isBlank ·)) :=
    Systemd.isTight_append_cons (by decide)
  have hplain : Systemd.isPlain (environmentValue paths) =
      (Systemd.isPlain "SPARK_PULSE_AGENT_DIR".toList &&
        Systemd.isPlain paths.identityDir.toList) :=
    Systemd.isPlain_append_cons (by decide) (by decide)
  have hkey : "SPARK_PULSE_AGENT_DIR".toList.head?.all (!Systemd.isBlank ·) = true ∧
      Systemd.isPlain "SPARK_PULSE_AGENT_DIR".toList = true := by decide
  rw [htight, hplain, hkey.1, hkey.2, Bool.true_and, Bool.true_and]

/-- The value of `ExecStart` is read as it is written when both of its ends are. -/
theorem startValue_iff :
    (Systemd.isTight (startValue paths controlTarget) = true ∧
      Systemd.isPlain (startValue paths controlTarget) = true) ↔
        (paths.launcher.toList.head?.all (!Systemd.isBlank ·) = true ∧
          controlTarget.toList.getLast?.any (!Systemd.isBlank ·) = true) ∧
          Systemd.isPlain paths.launcher.toList = true ∧
            Systemd.isPlain controlTarget.toList = true := by
  have hlauncher : paths.launcher.toList ≠ [] := by
    simp only [InstallPaths.launcher, toString, String.toList_append]
    exact List.append_ne_nil_of_right_ne_nil _ (by decide)
  have htight : Systemd.isTight (startValue paths controlTarget) =
      (paths.launcher.toList.head?.all (!Systemd.isBlank ·) &&
        ("--control".toList ++ ' ' :: controlTarget.toList).getLast?.any (!Systemd.isBlank ·)) :=
    Systemd.isTight_append_blank hlauncher (by decide)
  have hplain : Systemd.isPlain (startValue paths controlTarget) =
      (Systemd.isPlain paths.launcher.toList &&
        Systemd.isPlain ("--control".toList ++ ' ' :: controlTarget.toList)) :=
    Systemd.isPlain_append_cons (by decide) (by decide)
  have hoption : Systemd.isPlain ("--control".toList ++ ' ' :: controlTarget.toList) =
      (Systemd.isPlain "--control".toList && Systemd.isPlain controlTarget.toList) :=
    Systemd.isPlain_append_cons (by decide) (by decide)
  have hword : Systemd.isPlain "--control".toList = true := by decide
  rw [htight, hplain, hoption, hword, Systemd.getLast?_append_cons_any (by decide), Bool.true_and,
    Bool.and_eq_true, Bool.and_eq_true]

/-- Whether a line goes on is a matter of the value at its end. -/
theorem goesOn_environmentLine :
    Systemd.goesOn (environmentLine paths) = Systemd.goesOn paths.identityDir.toList := by
  have hline : Systemd.goesOn (environmentLine paths) = Systemd.goesOn (environmentValue paths) :=
    Systemd.goesOn_append_cons (by decide)
  have hvalue : Systemd.goesOn (environmentValue paths) =
      Systemd.goesOn paths.identityDir.toList := Systemd.goesOn_append_cons (by decide)
  exact hline.trans hvalue

theorem goesOn_startLine :
    Systemd.goesOn (startLine paths controlTarget) = Systemd.goesOn controlTarget.toList := by
  have hline : Systemd.goesOn (startLine paths controlTarget) =
      Systemd.goesOn (startValue paths controlTarget) := Systemd.goesOn_append_cons (by decide)
  have hoption : Systemd.goesOn (startValue paths controlTarget) =
      Systemd.goesOn ("--control".toList ++ ' ' :: controlTarget.toList) :=
    Systemd.goesOn_append_cons (by decide)
  have hvalue : Systemd.goesOn ("--control".toList ++ ' ' :: controlTarget.toList) =
      Systemd.goesOn controlTarget.toList := Systemd.goesOn_append_cons (by decide)
  exact (hline.trans hoption).trans hvalue

/-- What the lines before the two should say. -/
def meantBefore (nodeName : String) : List Systemd.Item :=
  [.header "Unit".toList, directive "Description" (description nodeName),
    directive "Documentation" "https://github.com/kharkevich-engineering-lab/spark-pulse",
    directive "After" "network-online.target", directive "Wants" "network-online.target",
    .header "Service".toList, directive "Type" "simple"]

/-- What is meant, with the two values as the lines have them. -/
theorem meant_eq : meant paths controlTarget nodeName = meantBefore nodeName ++
    (.directive "Environment".toList (Systemd.literal (environmentValue paths)) ::
      .directive "ExecStart".toList (Systemd.literal (startValue paths controlTarget)) ::
        directive "Restart" "on-failure" :: itemsAfter paths) := by
  have henvironment : (s!"SPARK_PULSE_AGENT_DIR={paths.identityDir}").toList =
      environmentValue paths := by
    simp only [toString, String.toList_append]
    rfl
  have hstart : (s!"{paths.launcher} --control {controlTarget}").toList =
      startValue paths controlTarget := by
    simp only [toString, String.toList_append, List.append_assoc]
    rfl
  rw [← henvironment, ← hstart]
  rfl

theorem itemsBefore_eq_iff :
    itemsBefore nodeName = meantBefore nodeName ↔ Systemd.isPlain nodeName.toList = true := by
  rw [← description_iff, ← Systemd.readValue_strip_eq_iff, itemsBefore, meantBefore]
  constructor
  · intro h
    exact (Systemd.Item.directive.inj (List.cons.inj (List.cons.inj h).2).1).2
  · intro h
    rw [h]
    rfl

/-- **The unit.** A unit has the directives it should, each with the value that was meant, unless
one of the values is read as something else or the end of its line is. -/
theorem parse_unit_iff (h : renderUnit paths controlTarget nodeName = .ok text) :
    Systemd.parse text.toList = meant paths controlTarget nodeName ↔
      Contained paths controlTarget nodeName := by
  rw [parse_eq h, meant_eq]
  constructor
  · intro heq
    obtain ⟨hbefore, hrest⟩ := List.append_inj heq rfl
    have hends : Systemd.goesOn (environmentLine paths) = false ∧
        Systemd.goesOn (startLine paths controlTarget) = false := by
      by_contra hgoes
      rw [not_and_or, Bool.not_eq_false, Bool.not_eq_false] at hgoes
      exact items_ne_of_goesOn hgoes _ _ hrest
    rw [items_of_ends hends.1 hends.2] at hrest
    obtain ⟨henvironment, hrest⟩ := List.cons.inj hrest
    obtain ⟨hstart, -⟩ := List.cons.inj hrest
    obtain ⟨hdir, hdirPlain⟩ := environmentValue_iff.mp
      ((Systemd.readValue_strip_eq_iff _).mp (Systemd.Item.directive.inj henvironment).2)
    obtain ⟨⟨hlauncher, htarget⟩, hlauncherPlain, htargetPlain⟩ := startValue_iff.mp
      ((Systemd.readValue_strip_eq_iff _).mp (Systemd.Item.directive.inj hstart).2)
    exact ⟨⟨itemsBefore_eq_iff.mp hbefore, hdirPlain, hlauncherPlain, htargetPlain⟩,
      ⟨goesOn_environmentLine ▸ hends.1, goesOn_startLine ▸ hends.2⟩,
      ⟨hdir, hlauncher, htarget⟩⟩
  · rintro ⟨⟨hname, hdirPlain, hlauncherPlain, htargetPlain⟩, ⟨hdirEnds, htargetEnds⟩,
      hdir, hlauncher, htarget⟩
    have henvironment := (Systemd.readValue_strip_eq_iff _).mpr
      (environmentValue_iff.mpr ⟨hdir, hdirPlain⟩)
    have hstart := (Systemd.readValue_strip_eq_iff _).mpr
      (startValue_iff.mpr ⟨⟨hlauncher, htarget⟩, hlauncherPlain, htargetPlain⟩)
    rw [itemsBefore_eq_iff.mpr hname, items_of_ends (goesOn_environmentLine.trans hdirEnds)
      (goesOn_startLine.trans htargetEnds), henvironment, hstart]

end

/-! ## All three files -/

theorem renderRules_eq_ok {comments commands : List String} {user text : String}
    (h : renderRules comments commands user = .ok text) :
    posixUsername user = true ∧ text = unlines (ruleLines comments user commands) := by
  rw [renderRules] at h
  split_ifs at h with huser
  exact ⟨huser, (Except.ok.inj h).symm⟩

theorem renderSudoers_eq_ok {user unit text : String} (h : renderSudoers user unit = .ok text) :
    renderRules serviceComments (serviceCommands unit) user = .ok text := by
  rw [renderSudoers] at h
  split_ifs at h with huser
  · rcases hunit : singleLine unit "a unit name" with x | line
    · rw [hunit] at h
      cases h
    · rw [hunit] at h
      exact h
  · exact h

/-- **What an install writes is what it means.** The two files of rules grant their commands to
their user, and no more, exactly when the name of the user is no word with a meaning of its own; and
the unit has its sections and directives exactly when each value stays inside its own. -/
theorem rendered_as_meant_iff (user : String) (paths : InstallPaths)
    (controlTarget nodeName : String) :
    (∀ text, renderSudoers user unitName = .ok text →
      (Sudoers.parse text.toList = some (granting user (serviceCommands unitName)) ↔
        Sudoers.isReserved user.toList = false)) ∧
    (∀ text, renderNetworkSudoers user = .ok text →
      (Sudoers.parse text.toList = some (granting user networkCommands) ↔
        Sudoers.isReserved user.toList = false)) ∧
    ∀ text, renderUnit paths controlTarget nodeName = .ok text →
      (Systemd.parse text.toList = meant paths controlTarget nodeName ↔
        Contained paths controlTarget nodeName) := by
  refine ⟨fun text h ↦ ?_, fun text h ↦ ?_, fun text h ↦ parse_unit_iff h⟩
  · obtain ⟨huser, rfl⟩ := renderRules_eq_ok (renderSudoers_eq_ok h)
    exact parse_rules_iff readable_service huser
  · obtain ⟨huser, rfl⟩ := renderRules_eq_ok h
    exact parse_rules_iff readable_network huser

/-- Where an install for the whole machine goes. -/
private def wholeMachine : InstallPaths :=
  ⟨"system", "/opt/spark-pulse/agent", "/var/lib/spark-pulse/agent"⟩

theorem spark_rendered_as_meant :
    Sudoers.parse (unlines (ruleLines serviceComments "spark" (serviceCommands unitName))).toList =
      some (granting "spark" (serviceCommands unitName)) ∧
    Sudoers.parse (unlines (ruleLines networkComments "spark" networkCommands)).toList =
      some (granting "spark" networkCommands) ∧
    Systemd.parse (unlines (unitLines wholeMachine "10.0.0.1:8110"
      (description "spark-02"))).toList = meant wholeMachine "10.0.0.1:8110" "spark-02" := by
  obtain ⟨hservice, hnetwork, hunit⟩ :=
    rendered_as_meant_iff "spark" wholeMachine "10.0.0.1:8110" "spark-02"
  refine ⟨(hservice _ rfl).mpr (by decide), (hnetwork _ rfl).mpr (by decide), (hunit _ rfl).mpr ?_⟩
  exact ⟨by decide, by decide, by decide⟩

/-- A user called `ALL` is everybody; and a control target that ends in a backslash takes the
directive after it away. -/
theorem rendered_not_as_meant :
    (∃ text, renderSudoers "ALL" unitName = .ok text ∧
      Sudoers.parse text.toList =
        some [.userSpec [.all] (asRoot (serviceCommands unitName))] ∧
      Sudoers.parse text.toList ≠ some (granting "ALL" (serviceCommands unitName))) ∧
    ∃ text, renderUnit wholeMachine "10.0.0.1:8110\\" "spark-02" = .ok text ∧
      Systemd.parse text.toList ≠ meant wholeMachine "10.0.0.1:8110\\" "spark-02" := by
  have hall : Sudoers.parse
      (unlines (ruleLines serviceComments "ALL" (serviceCommands unitName))).toList =
        some [.userSpec [.all] (asRoot (serviceCommands unitName))] := by
    decide +kernel
  refine ⟨⟨_, rfl, hall, ?_⟩, _, rfl, ?_⟩
  · rw [hall]
    decide
  · rw [Ne, parse_unit_iff rfl]
    intro h
    exact absurd h.ends.2 (by decide)

end SparkPulse.Agent.Rendering
