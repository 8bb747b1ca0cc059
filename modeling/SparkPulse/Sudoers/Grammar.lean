import Mathlib.Data.List.Basic

/-!
# The sudoers grammar

What sudo reads in a file of rules. A letter means what it does by the word it is in, and a word by
what it is, not by where it stands: at the start of a line five names of lists of aliases and
`Defaults` are no names; `ALL` is everybody, everywhere and every command; a word of capital
letters, digits and underscores is an alias; some words begin commands; and four numbers with dots
are an address. Only what is left over can be the name of a user.

Quoted words, options and digests of commands are not read.
-/

namespace Sudoers

/-! ## Tokens -/

inductive Token
  /-- `Defaults`, at the start of a line. -/
  | defaults
  /-- One of the kinds of aliases, at the start of a line. -/
  | aliasKind (kind : List Char)
  | all
  | alias (name : List Char)
  | network (address : List Char)
  /-- A word that begins a command or the digest of one. -/
  | reserved (word : List Char)
  | word (text : List Char)
  /-- A command with its arguments. -/
  | command (text : List Char)
  | punct (c : Char)
  deriving DecidableEq, Repr

def aliasKinds : List (List Char) :=
  ["User_Alias", "Runas_Alias", "Host_Alias", "Cmnd_Alias", "Cmd_Alias"].map String.toList

def reservedWords : List (List Char) :=
  ["sudoedit", "list", "sha224", "sha256", "sha384", "sha512"].map String.toList

def isUpper (c : Char) : Bool := 'A' ≤ c && c ≤ 'Z'

def isDigit (c : Char) : Bool := '0' ≤ c && c ≤ '9'

/-- The form of the name of an alias. -/
def isAliasName : List Char → Bool
  | [] => false
  | c :: cs => isUpper c && cs.all fun c ↦ isUpper c || isDigit c || c = '_'

/-- A number below 256, in at most three digits. -/
def isOctet (l : List Char) : Bool :=
  match l with
  | [a] => isDigit a
  | [a, b] => isDigit a && isDigit b
  | [a, b, c] => isDigit c &&
      (a = '1' && isDigit b || a = '2' && (isDigit b && b < '5' || b = '5' && c < '6'))
  | _ => false

def isNetwork (w : List Char) : Bool :=
  match w.splitOnP (· = '.') with
  | [a, b, c, d] => isOctet a && isOctet b && isOctet c && isOctet d
  | _ => false

/-- What a word is. -/
def classify (first : Bool) (w : List Char) : Token :=
  if first && w = "Defaults".toList then .defaults
  else if first && w ∈ aliasKinds then .aliasKind w
  else if w = "ALL".toList then .all
  else if isAliasName w then .alias w
  else if isNetwork w then .network w
  else if w ∈ reservedWords then .reserved w
  else .word w

/-- Where the reader of a line is, with what it has of a word, latest letter first. -/
inductive Lexing
  | gap (first : Bool)
  | word (first : Bool) (sofar : List Char)
  | wordEscape (first : Bool) (sofar : List Char)
  /-- After a number sign: a digit makes it the number of a user. -/
  | hash
  | comment
  | command (sofar : List Char)
  | commandEscape (sofar : List Char)
  deriving DecidableEq, Repr

def isBlank (c : Char) : Bool := c = ' ' || c = '\t'

def isPunct (c : Char) : Bool := ",=:()!".toList.contains c

def isWordChar (c : Char) : Bool :=
  !(isBlank c || isPunct c || "#>\"\\\r\n".toList.contains c)

/-- A letter between two words. -/
def enter (first : Bool) (c : Char) : Option (List Token × Lexing) :=
  if isBlank c then some ([], .gap first)
  else if c = '#' then some ([], .hash)
  else if c = '/' then some ([], .command [c])
  else if isPunct c then some ([.punct c], .gap false)
  else if c = '\\' then some ([], .wordEscape first [])
  else if isWordChar c then some ([], .word first [c])
  else none

/-- A command without the blanks after it. -/
def commandOf (sofar : List Char) : Token := .command (sofar.dropWhile isBlank).reverse

/-- What a letter ends, and where the reader is after it. -/
def step (s : Lexing) (c : Char) : Option (List Token × Lexing) :=
  match s with
  | .gap first => enter first c
  | .word first w =>
    if isWordChar c then some ([], .word first (c :: w))
    else if c = '\\' then some ([], .wordEscape first w)
    else (enter false c).map fun r ↦ (classify first w.reverse :: r.1, r.2)
  | .wordEscape first w => some ([], .word first (c :: w))
  | .hash => some ([], if isDigit c then .word false [c, '#'] else .comment)
  | .comment => some ([], .comment)
  | .command w =>
    if ",:=#".toList.contains c then (enter false c).map fun r ↦ (commandOf w :: r.1, r.2)
    else if c = '\\' then some ([], .commandEscape w)
    else some ([], .command (c :: w))
  | .commandEscape w => some ([], .command (c :: w))

def finish : Lexing → Option (List Token)
  | .gap _ | .hash | .comment => some []
  | .word first w => some [classify first w.reverse]
  | .command w => some [commandOf w]
  | .wordEscape .. | .commandEscape _ => none

/-- The tokens of a line from where the reader is. -/
def lex : Lexing → List Char → Option (List Token)
  | s, [] => finish s
  | s, c :: cs => (step s c).bind fun r ↦ (lex r.2 cs).map (r.1 ++ ·)

/-! ## Entries -/

/-- Whom, where or as whom. -/
inductive Member
  | all
  | alias (name : List Char)
  | named (name : List Char)
  | group (name : List Char)
  | netgroup (name : List Char)
  | uid (number : List Char)
  | network (address : List Char)
  | except (m : Member)
  deriving DecidableEq, Repr

inductive Cmnd
  | all
  | alias (name : List Char)
  | command (text : List Char)
  | except (c : Cmnd)
  deriving DecidableEq, Repr

/-- A command, as whom it may be run, and under which tags. -/
structure Grant where
  runas : Option (List Member × List Member)
  tags : List (List Char)
  cmnd : Cmnd
  deriving DecidableEq, Repr

structure Privilege where
  hosts : List Member
  grants : List Grant
  deriving DecidableEq, Repr

inductive Entry
  | userSpec (users : List Member) (privileges : List Privilege)
  | defaults (rest : List Token)
  | aliases (kind name : List Char) (rest : List Token)
  | included (line : List Char)
  deriving DecidableEq, Repr

/-- A word that names a user, or many. -/
def namedBy : List Char → Member
  | '%' :: name => .group name
  | '+' :: name => .netgroup name
  | '#' :: number => .uid number
  | name => .named name

def userOf : Token → Option Member
  | .all => some .all
  | .alias name => some (.alias name)
  | .word name => some (namedBy name)
  | _ => none

def hostOf : Token → Option Member
  | .network address => some (.network address)
  | t => userOf t

/-- One member of a list. -/
def readMember (memberOf : Token → Option Member) : List Token → Option (Member × List Token)
  | [] => none
  | t :: ts =>
    if t = .punct '!' then (readMember memberOf ts).map fun r ↦ (.except r.1, r.2)
    else (memberOf t).map (·, ts)

/-- Members with commas between them, as many as there may be. -/
def readMembers (memberOf : Token → Option Member) :
    ℕ → List Token → Option (List Member × List Token)
  | 0, _ => none
  | n + 1, ts => (readMember memberOf ts).bind fun r ↦
    match r.2 with
    | .punct ',' :: ts => (readMembers memberOf n ts).map fun rest ↦ (r.1 :: rest.1, rest.2)
    | ts => some ([r.1], ts)

/-- What is between the parentheses: users, and after a colon groups. -/
def readRunas (n : ℕ) (ts : List Token) : Option ((List Member × List Member) × List Token) := do
  let (users, ts) ← match ts with
    | .punct ':' :: _ | .punct ')' :: _ => some ([], ts)
    | _ => readMembers userOf n ts
  let (groups, ts) ← match ts with
    | .punct ':' :: ts => readMembers userOf n ts
    | _ => some ([], ts)
  match ts with
  | .punct ')' :: ts => some ((users, groups), ts)
  | _ => none

def tagNames : List (List Char) :=
  ["EXEC", "NOEXEC", "FOLLOW", "NOFOLLOW", "INTERCEPT", "NOINTERCEPT", "LOG_INPUT", "NOLOG_INPUT",
    "LOG_OUTPUT", "NOLOG_OUTPUT", "MAIL", "NOMAIL", "PASSWD", "NOPASSWD", "SETENV",
    "NOSETENV"].map String.toList

def readTags (sofar : List (List Char)) : List Token → List (List Char) × List Token
  | .alias tag :: .punct ':' :: ts =>
    if tag ∈ tagNames then readTags (sofar ++ [tag]) ts
    else (sofar, .alias tag :: .punct ':' :: ts)
  | ts => (sofar, ts)

def readCmnd : List Token → Option (Cmnd × List Token)
  | .all :: ts => some (.all, ts)
  | .alias name :: ts => some (.alias name, ts)
  | .command text :: ts => some (.command text, ts)
  | .punct '!' :: ts => (readCmnd ts).map fun r ↦ (.except r.1, r.2)
  | _ => none

/-- Commands with commas between them. A command is run as the one before it, and under its tags,
unless it says otherwise. -/
def readGrants (runas : Option (List Member × List Member)) (tags : List (List Char)) :
    ℕ → List Token → Option (List Grant × List Token)
  | 0, _ => none
  | n + 1, ts => do
    let (runas, ts) ← match ts with
      | .punct '(' :: ts => (readRunas n ts).map fun r ↦ (some r.1, r.2)
      | _ => some (runas, ts)
    let (tags, ts) := readTags tags ts
    let (cmnd, ts) ← readCmnd ts
    match ts with
    | .punct ',' :: ts =>
      (readGrants runas tags n ts).map fun rest ↦ (⟨runas, tags, cmnd⟩ :: rest.1, rest.2)
    | _ => some ([⟨runas, tags, cmnd⟩], ts)

def readPrivileges : ℕ → List Token → Option (List Privilege)
  | 0, _ => none
  | n + 1, ts => do
    let (hosts, ts) ← readMembers hostOf n ts
    match ts with
    | .punct '=' :: ts =>
      let (grants, ts) ← readGrants none [] n ts
      match ts with
      | [] => some [⟨hosts, grants⟩]
      | .punct ':' :: ts => (readPrivileges n ts).map (⟨hosts, grants⟩ :: ·)
      | _ => none
    | _ => none

def readUserSpec (ts : List Token) : Option Entry :=
  (readMembers userOf ts.length ts).bind fun r ↦
    (readPrivileges ts.length r.2).map (.userSpec r.1)

/-- What the tokens of a line say. -/
def readEntry : List Token → Option Entry
  | .defaults :: ts => some (.defaults ts)
  | .aliasKind kind :: .alias name :: .punct '=' :: ts => some (.aliases kind name ts)
  | ts => readUserSpec ts

/-! ## Files -/

/-- Lines of which one ends in a backslash are one. -/
def logicalLines : List (List Char) → List (List Char)
  | [] => []
  | l :: ls =>
    match logicalLines ls with
    | next :: rest =>
      if l.getLast? = some '\\' then (l.dropLast ++ next) :: rest else l :: next :: rest
    | [] => [l]

def includes (l : List Char) : Bool :=
  "#include".toList.isPrefixOf l || "@include".toList.isPrefixOf l

def readLine (l : List Char) : Option (List Entry) :=
  if includes l then some [.included l]
  else (lex (.gap true) l).bind fun ts ↦ if ts = [] then some [] else (readEntry ts).map ([·])

def readLines : List (List Char) → Option (List Entry)
  | [] => some []
  | l :: ls => (readLine l).bind fun entries ↦ (readLines ls).map (entries ++ ·)

/-- What a file says, when it can be read. -/
def parse (text : List Char) : Option (List Entry) :=
  readLines (logicalLines (text.splitOnP (· = '\n')))

/-! ## The first word of a line -/

/-- The words that cannot name a user where they begin a line. -/
def isReserved (w : List Char) : Bool :=
  w = "Defaults".toList || w ∈ aliasKinds || isAliasName w || isNetwork w || w ∈ reservedWords

theorem classify_eq_word_iff {w : List Char} :
    classify true w = .word w ↔ isReserved w = false := by
  have hall : w = "ALL".toList → isAliasName w = true := by
    rintro rfl
    decide
  unfold classify isReserved
  simp only [Bool.true_and, Bool.or_eq_false_iff, decide_eq_false_iff_not, decide_eq_true_eq]
  split_ifs with hdefaults hkind hcapital halias hnetwork hword <;> simp_all

section
variable {first : Bool} {sofar w rest : List Char} {c : Char}

theorem lex_word (hw : w.all isWordChar = true) :
    lex (.word first sofar) (w ++ ' ' :: rest) =
      (lex (.gap false) rest).map (classify first (sofar.reverse ++ w) :: ·) := by
  induction w generalizing sofar with
  | nil =>
    rw [List.append_nil]
    rfl
  | cons d w ih =>
    rw [List.all_cons, Bool.and_eq_true] at hw
    have hstep : step (.word first sofar) d = some ([], .word first (d :: sofar)) := if_pos hw.1
    rw [List.cons_append, lex, hstep, Option.bind_some, ih hw.2, List.reverse_cons,
      List.append_assoc, List.singleton_append]
    simp only [List.nil_append, Option.map_id']

/-- The first word of a line is one token. -/
theorem lex_first_word (hc : isWordChar c = true) (hslash : c ≠ '/')
    (hw : w.all isWordChar = true) : lex (.gap first) (c :: w ++ ' ' :: rest) =
      (lex (.gap false) rest).map (classify first (c :: w) :: ·) := by
  have hletter : isBlank c = false ∧ isPunct c = false ∧ c ≠ '#' ∧ c ≠ '>' ∧ c ≠ '"' ∧
      c ≠ '\\' ∧ c ≠ '\r' ∧ c ≠ '\n' := by
    simpa [isWordChar, and_assoc] using hc
  obtain ⟨hblank, hpunct, hhash, -, -, hback, -, -⟩ := hletter
  have hstep : step (.gap first) c = some ([], .word first [c]) := by
    simp only [step, enter, hblank, hhash, hslash, hpunct, hback, hc, if_false, if_true,
      Bool.false_eq_true]
  rw [List.cons_append, lex, hstep, Option.bind_some, lex_word hw]
  simp only [List.nil_append, Option.map_id', List.reverse_singleton, List.singleton_append]

end

section
variable {memberOf : Token → Option Member} {t u : Token} {ts : List Token} {n : ℕ}

/-- One member, when no comma follows it. -/
theorem readMembers_one (ht : t ≠ .punct '!') (hu : u ≠ .punct ',') :
    readMembers memberOf (n + 1) (t :: u :: ts) =
      (memberOf t).map fun m ↦ ([m], u :: ts) := by
  rw [readMembers, readMember, if_neg ht]
  rcases memberOf t with _ | m
  · rfl
  · simp only [Option.map_some, Option.bind_some]
    split
    next heq =>
      obtain ⟨rfl, -⟩ := List.cons.inj heq
      exact absurd rfl hu
    · rfl

theorem readMembers_except {r : List Member × List Token}
    (h : readMembers memberOf n (.punct '!' :: ts) = some r) :
    ∃ m ms, r.1 = .except m :: ms := by
  rcases n with _ | n
  · cases h
  rw [readMembers, readMember, if_pos rfl] at h
  obtain ⟨r', hr', h⟩ := Option.bind_eq_some_iff.mp h
  obtain ⟨r'', -, rfl⟩ := Option.map_eq_some_iff.mp hr'
  split at h
  · obtain ⟨rest, -, rfl⟩ := Option.map_eq_some_iff.mp h
    exact ⟨_, _, rfl⟩
  · obtain rfl := Option.some.inj h
    exact ⟨_, _, rfl⟩

theorem readUserSpec_eq_iff {name : List Char} {privileges : List Privilege}
    (hu : u ≠ .punct ',') :
    readUserSpec (t :: u :: ts) = some (.userSpec [.named name] privileges) ↔
      userOf t = some (.named name) ∧
        readPrivileges (ts.length + 2) (u :: ts) = some privileges := by
  rw [readUserSpec, Option.bind_eq_some_iff]
  constructor
  · rintro ⟨r, hr, h⟩
    obtain ⟨ps, hps, h⟩ := Option.map_eq_some_iff.mp h
    obtain ⟨husers, rfl⟩ := Entry.userSpec.inj h
    by_cases ht : t = .punct '!'
    · subst ht
      obtain ⟨m, ms, hexcept⟩ := readMembers_except hr
      rw [hexcept] at husers
      cases husers
    · rw [List.length_cons, List.length_cons, readMembers_one ht hu] at hr
      obtain ⟨m, hm, rfl⟩ := Option.map_eq_some_iff.mp hr
      obtain ⟨rfl, -⟩ := List.cons.inj husers
      exact ⟨hm, hps⟩
  · rintro ⟨hm, hps⟩
    have ht : t ≠ .punct '!' := by
      rintro rfl
      cases hm
    refine ⟨([.named name], u :: ts), ?_, ?_⟩
    · rw [List.length_cons, List.length_cons, readMembers_one ht hu, hm]
      rfl
    · exact Option.map_eq_some_iff.mpr ⟨privileges, hps, rfl⟩

/-- Who the one user of a line is, is decided by its first token. -/
theorem readEntry_eq_userSpec_iff {name : List Char} {privileges : List Privilege}
    (hu : u ≠ .punct ',') :
    readEntry (t :: u :: ts) = some (.userSpec [.named name] privileges) ↔
      userOf t = some (.named name) ∧
        readPrivileges (ts.length + 2) (u :: ts) = some privileges := by
  unfold readEntry
  split
  next heq =>
    obtain ⟨rfl, -⟩ := List.cons.inj heq
    exact iff_of_false (fun h ↦ nomatch h) (fun h ↦ nomatch h.1)
  next heq =>
    obtain ⟨rfl, -⟩ := List.cons.inj heq
    exact iff_of_false (fun h ↦ nomatch h) (fun h ↦ nomatch h.1)
  · exact readUserSpec_eq_iff hu

end

/-- A word is the name of a user unless it is reserved. -/
theorem userOf_classify_iff {w : List Char} (hw : namedBy w = .named w) :
    userOf (classify true w) = some (.named w) ↔ isReserved w = false := by
  rw [← classify_eq_word_iff]
  constructor
  · intro h
    unfold classify at h ⊢
    split_ifs at h ⊢ with hdefaults hkind hall halias hnetwork hword
    all_goals first
      | rfl
      | cases h
  · intro h
    rw [h, userOf, hw]

/-! ## Lines -/

theorem lex_comment (l : List Char) : lex .comment l = some [] := by
  induction l with
  | nil => rfl
  | cons c l ih =>
    rw [lex, step, Option.bind_some, ih]
    rfl

theorem readLine_comment (l : List Char) : readLine ('#' :: ' ' :: l) = some [] := by
  have hlex : lex (.gap true) ('#' :: ' ' :: l) = some [] := by
    have hhash : step (.gap true) '#' = some ([], .hash) := rfl
    have hblank : step .hash ' ' = some ([], .comment) := rfl
    rw [lex, hhash, Option.bind_some, lex, hblank, Option.bind_some, lex_comment]
    rfl
  have hincludes : includes ('#' :: ' ' :: l) = false := rfl
  rw [readLine, hincludes, hlex]
  rfl

theorem readLines_append {ls ls' : List (List Char)} (h : ∀ l ∈ ls, readLine l = some []) :
    readLines (ls ++ ls') = readLines ls' := by
  induction ls with
  | nil => rfl
  | cons l ls ih =>
    rw [List.cons_append, readLines, h l List.mem_cons_self, Option.bind_some,
      ih fun l' hl' ↦ h l' (List.mem_cons_of_mem l hl')]
    simp only [List.nil_append, Option.map_id']

/-- Lines that do not end in a backslash stay as they are. -/
theorem logicalLines_eq_self {ls : List (List Char)} (h : ∀ l ∈ ls, l.getLast? ≠ some '\\') :
    logicalLines ls = ls := by
  induction ls with
  | nil => rfl
  | cons l ls ih =>
    rw [logicalLines, ih fun l' hl' ↦ h l' (List.mem_cons_of_mem l hl')]
    rcases ls with _ | ⟨next, rest⟩
    · rfl
    · exact if_neg (h l List.mem_cons_self)

end Sudoers
