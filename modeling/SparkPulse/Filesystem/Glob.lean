import Mathlib.Data.List.Infix

/-!
# Shell-style patterns

`fnmatch` matches a whole name against a pattern: `*` stands for any text, `?` for one character
and `[..]` for one character of a set, or of its complement when the set starts with `!`. A bracket
that is not closed is a character like any other.
-/

namespace Glob

/-- What a piece of a pattern stands for. -/
inductive Piece
  | star
  | any
  | char (c : Char)
  | set (negated : Bool) (ranges : List (Char × Char))
  deriving DecidableEq, Repr

/-- The text up to the closing bracket, and what follows it. -/
def close : List Char → Option (List Char × List Char)
  | [] => none
  | c :: p => if c = ']' then some ([], p) else (close p).map fun q ↦ (c :: q.1, q.2)

/-- The members of a set: a closing bracket that comes first is one of them. -/
def body (p : List Char) : Option (List Char × List Char) :=
  if p.head? = some ']' then (close p.tail).map fun q ↦ (']' :: q.1, q.2) else close p

/-- The ranges of a set; a hyphen with nothing on one side of it stands for itself. -/
def ranges : List Char → List (Char × Char)
  | a :: '-' :: b :: s => (a, b) :: ranges s
  | a :: s => (a, a) :: ranges s
  | [] => []

/-- The set that starts after an opening bracket, and the rest of the pattern. -/
def bracket (p : List Char) : Option (Piece × List Char) :=
  if p.head? = some '!' then (body p.tail).map fun q ↦ (.set true (ranges q.1), q.2)
  else (body p).map fun q ↦ (.set false (ranges q.1), q.2)

theorem close_length {p : List Char} {q : List Char × List Char} (h : close p = some q) :
    q.2.length < p.length := by
  induction p generalizing q with
  | nil => cases h
  | cons c p ih =>
    rw [close] at h
    split_ifs at h with hc
    · obtain rfl := Option.some.inj h
      exact Nat.lt_succ_self _
    · obtain ⟨r, hr, rfl⟩ := Option.map_eq_some_iff.mp h
      exact (ih hr).trans (Nat.lt_succ_self _)

theorem body_length {p : List Char} {q : List Char × List Char} (h : body p = some q) :
    q.2.length < p.length := by
  rw [body] at h
  split_ifs at h with hc
  · obtain ⟨r, hr, rfl⟩ := Option.map_eq_some_iff.mp h
    exact (close_length hr).trans_le (List.tail_sublist p).length_le
  · exact close_length h

theorem bracket_length {p : List Char} {q : Piece × List Char} (h : bracket p = some q) :
    q.2.length < p.length := by
  rw [bracket] at h
  split_ifs at h with hc
  · obtain ⟨r, hr, rfl⟩ := Option.map_eq_some_iff.mp h
    exact (body_length hr).trans_le (List.tail_sublist p).length_le
  · obtain ⟨r, hr, rfl⟩ := Option.map_eq_some_iff.mp h
    exact body_length hr

/-- The pieces of a pattern. -/
def pieces : List Char → List Piece
  | [] => []
  | c :: p =>
    if c = '*' then .star :: pieces p
    else if c = '?' then .any :: pieces p
    else if c = '[' then
      match _h : bracket p with
      | some (set, rest) => set :: pieces rest
      | none => .char '[' :: pieces p
    else .char c :: pieces p
termination_by p => p.length
decreasing_by
  all_goals first
    | exact Nat.lt_succ_self _
    | exact (bracket_length _h).trans (Nat.lt_succ_self _)

/-- Whether a piece stands for a character. -/
def Piece.admits : Piece → Char → Bool
  | .star, _ => false
  | .any, _ => true
  | .char d, c => c = d
  | .set negated ranges, c => (ranges.any fun r ↦ r.1 ≤ c ∧ c ≤ r.2) ^^ negated

/-- Whether a text is made of what the pieces stand for. -/
def matchPieces : List Piece → List Char → Bool
  | [], s => s.isEmpty
  | .star :: ps, s => s.tails.any (matchPieces ps)
  | p :: ps, s => s.head?.any p.admits && matchPieces ps s.tail

/-- `fnmatch.fnmatch` -/
def fnmatch (name pattern : String) : Bool :=
  matchPieces (pieces pattern.toList) name.toList

/-! ## One more star -/

theorem close_append_star (p : List Char) :
    close (p ++ ['*']) = (close p).map fun r ↦ (r.1, r.2 ++ ['*']) := by
  induction p with
  | nil => rfl
  | cons c p ih =>
    rw [List.cons_append, close, close, ih]
    split_ifs with hc
    · rfl
    · rw [Option.map_map, Option.map_map]
      rfl

theorem body_append_star (p : List Char) :
    body (p ++ ['*']) = (body p).map fun r ↦ (r.1, r.2 ++ ['*']) := by
  cases p with
  | nil => rfl
  | cons c p =>
    rw [body, body, List.cons_append, List.head?_cons, List.head?_cons, List.tail_cons,
      List.tail_cons, ← List.cons_append, close_append_star, close_append_star]
    split_ifs with hc
    · rw [Option.map_map, Option.map_map]
      rfl
    · rfl

theorem bracket_append_star (p : List Char) :
    bracket (p ++ ['*']) = (bracket p).map fun r ↦ (r.1, r.2 ++ ['*']) := by
  cases p with
  | nil => rfl
  | cons c p =>
    rw [bracket, bracket, List.cons_append, List.head?_cons, List.head?_cons, List.tail_cons,
      List.tail_cons, ← List.cons_append, body_append_star, body_append_star]
    split_ifs with hc
    · rw [Option.map_map, Option.map_map]
      rfl
    · rw [Option.map_map, Option.map_map]
      rfl

theorem pieces_of_bracket {p : List Char} {q : Piece × List Char} (h : bracket p = some q) :
    pieces ('[' :: p) = q.1 :: pieces q.2 := by
  rw [pieces, if_neg (by decide), if_neg (by decide), if_pos rfl]
  split
  · next set rest hset =>
    obtain rfl := Option.some.inj (h.symm.trans hset)
    rfl
  · next hset => cases h.symm.trans hset

theorem pieces_of_open {p : List Char} (h : bracket p = none) :
    pieces ('[' :: p) = .char '[' :: pieces p := by
  rw [pieces, if_neg (by decide), if_neg (by decide), if_pos rfl]
  split
  · next hset => cases h.symm.trans hset
  · rfl

theorem pieces_append_star (p : List Char) : pieces (p ++ ['*']) = pieces p ++ [.star] := by
  induction hn : p.length using Nat.strong_induction_on generalizing p with
  | _ n ih =>
    cases p with
    | nil => simp [pieces]
    | cons c p =>
      subst hn
      have htail := ih _ (Nat.lt_succ_self p.length) p rfl
      rw [List.cons_append]
      by_cases hset : c = '['
      · subst hset
        have happend := bracket_append_star p
        -- an open bracket stays open, for the star is no closing one
        cases hb : bracket p with
        | none =>
          rw [hb] at happend
          rw [pieces_of_open happend, pieces_of_open hb, htail, List.cons_append]
        | some q =>
          have hrest := ih _ ((bracket_length hb).trans (Nat.lt_succ_self _)) q.2 rfl
          rw [hb] at happend
          rw [pieces_of_bracket happend, pieces_of_bracket hb, hrest, List.cons_append]
      · rw [pieces, pieces, htail, if_neg hset, if_neg hset]
        split_ifs
        · rfl
        · rfl
        · rfl

theorem matchPieces_append_star {ps : List Piece} {s : List Char} (h : matchPieces ps s = true) :
    matchPieces (ps ++ [.star]) s = true := by
  induction ps generalizing s with
  | nil =>
    obtain rfl := List.isEmpty_iff.mp h
    rfl
  | cons p ps ih =>
    cases p with
    | star =>
      obtain ⟨t, ht, h⟩ := List.any_eq_true.mp h
      exact List.any_eq_true.mpr ⟨t, ht, ih h⟩
    | _ =>
      obtain ⟨hhead, h⟩ := (Bool.and_eq_true _ _).mp h
      exact (Bool.and_eq_true _ _).mpr ⟨hhead, ih h⟩

/-- A name that matches still matches with a star after the pattern. -/
theorem fnmatch_append_star {name pattern : String} (h : fnmatch name pattern = true) :
    fnmatch name (pattern ++ "*") = true := by
  rw [fnmatch, String.toList_append]
  exact (congrArg (matchPieces · name.toList) (pieces_append_star _)).trans
    (matchPieces_append_star h)

example : fnmatch "onnx/model-3.bin" "onnx/*[0-9].[!a]??" = true := by
  simp [fnmatch, pieces, bracket, body, close, ranges, matchPieces, Piece.admits]

end Glob
