import Mathlib.Data.List.Basic
import Mathlib.Tactic.SplitIfs

/-!
# Decoding UTF-8, with replacements

Bytes that are not UTF-8 become replacement characters: one for every longest start of a character
that is not continued. What precedes an ASCII character does not change how it is decoded, and what
follows it is decoded on its own.
-/

namespace Utf8

abbrev Byte := UInt8

def replacement : Char := '\uFFFD'

/-- The number of bytes that follow the first byte of a character, and the range of the next. -/
def lead (b : ℕ) : Option (ℕ × ℕ × ℕ) :=
  if b < 0xC2 then none
  else if b < 0xE0 then some (1, 0x80, 0xBF)
  else if b = 0xE0 then some (2, 0xA0, 0xBF)
  else if b = 0xED then some (2, 0x80, 0x9F)
  else if b < 0xF0 then some (2, 0x80, 0xBF)
  else if b = 0xF0 then some (3, 0x90, 0xBF)
  else if b < 0xF4 then some (3, 0x80, 0xBF)
  else if b = 0xF4 then some (3, 0x80, 0x8F)
  else none

/-- The bytes that continue a character: at most `k`, the first of them in a range. -/
def continued : ℕ → ℕ → ℕ → List Byte → List Byte
  | 0, _, _, _ => []
  | _ + 1, _, _, [] => []
  | k + 1, low, high, b :: bs =>
    if low ≤ b.toNat ∧ b.toNat ≤ high then b :: continued k 0x80 0xBF bs else []

/-- The character of a first byte and the `k` bytes that follow it. -/
def charOf (b : Byte) (k : ℕ) (bs : List Byte) : Char :=
  Char.ofNat (bs.foldl (fun n b ↦ n * 64 + b.toNat % 64) (b.toNat % (64 >>> k)))

/-- The character of a first byte that `k` bytes should follow, and the number of those that do. -/
def closed (b : Byte) (k : ℕ) (bs : List Byte) : Char × ℕ :=
  (if bs.length = k then charOf b k bs else replacement, bs.length)

/-- One character, and the number of bytes that belong to it after the first. -/
def decodeOne (b : Byte) (bs : List Byte) : Char × ℕ :=
  if b.toNat < 0x80 then (Char.ofNat b.toNat, 0)
  else
    match lead b.toNat with
    | none => (replacement, 0)
    | some (k, low, high) => closed b k (continued k low high bs)

/-- The characters of the first bytes, as many as there is fuel for. -/
def decodeFuel : ℕ → List Byte → List Char
  | _, [] => []
  | 0, _ :: _ => []
  | n + 1, b :: bs => (decodeOne b bs).1 :: decodeFuel n (bs.drop (decodeOne b bs).2)

/-- `bytes.decode("utf-8", errors="replace")` -/
def decode (bs : List Byte) : List Char := decodeFuel bs.length bs

example : decode [0x61, 0xE2, 0x82, 0xAC, 0xE2, 0x82, 0x62, 0xFF] = "a€\uFFFDb\uFFFD".toList := by
  decide

variable {a b : Byte} {bs cs : List Byte}

theorem decodeFuel_of_le {n m : ℕ} (hn : bs.length ≤ n) (hm : bs.length ≤ m) :
    decodeFuel n bs = decodeFuel m bs := by
  induction n generalizing m bs with
  | zero =>
    obtain rfl := List.eq_nil_of_length_eq_zero (Nat.le_zero.mp hn)
    rw [decodeFuel, decodeFuel]
  | succ n ih =>
    rcases bs with _ | ⟨b, bs⟩
    · rw [decodeFuel, decodeFuel]
    · obtain ⟨m, rfl⟩ : ∃ m', m = m' + 1 := ⟨m - 1, by rw [List.length_cons] at hm; omega⟩
      rw [List.length_cons] at hn hm
      rw [decodeFuel, decodeFuel, ih]
      · rw [List.length_drop]
        omega
      · rw [List.length_drop]
        omega

theorem decode_cons :
    decode (b :: bs) = (decodeOne b bs).1 :: decode (bs.drop (decodeOne b bs).2) := by
  rw [decode, List.length_cons, decodeFuel, decode]
  congr 1
  exact decodeFuel_of_le (by rw [List.length_drop]; omega) (Nat.le_refl _)

/-- An ASCII character is decoded as such. -/
theorem decode_ascii (ha : a.toNat < 0x80) :
    decode (a :: bs) = Char.ofNat a.toNat :: decode bs := by
  rw [decode_cons, decodeOne, if_pos ha, List.drop_zero]

theorem length_continued_le (k low high : ℕ) (bs : List Byte) :
    (continued k low high bs).length ≤ bs.length := by
  induction bs generalizing k low high with
  | nil => rcases k with _ | k <;> exact Nat.le_refl _
  | cons b bs ih =>
    rcases k with _ | k
    · exact Nat.zero_le _
    · rw [continued]
      split
      · exact Nat.succ_le_succ (ih k 0x80 0xBF)
      · exact Nat.zero_le _

/-- An ASCII character continues nothing. -/
theorem continued_append (k : ℕ) {low high : ℕ} (hlow : 0x80 ≤ low) (ha : a.toNat < 0x80)
    (bs cs : List Byte) :
    continued k low high (bs ++ a :: cs) = continued k low high bs := by
  induction bs generalizing k low high with
  | nil =>
    rcases k with _ | k
    · rfl
    · rw [List.nil_append, continued, continued, if_neg (by omega)]
  | cons b bs ih =>
    rcases k with _ | k
    · rfl
    · rw [List.cons_append, continued, continued, ih k (Nat.le_refl _)]

theorem le_of_lead {n k low high : ℕ} (h : lead n = some (k, low, high)) : 0x80 ≤ low := by
  unfold lead at h
  split_ifs at h
  all_goals
    obtain ⟨-, hrange⟩ := Prod.mk.inj (Option.some.inj h)
    obtain ⟨rfl, -⟩ := Prod.mk.inj hrange
    decide

theorem snd_decodeOne_le : (decodeOne b bs).2 ≤ bs.length := by
  rw [decodeOne]
  split
  · exact Nat.zero_le _
  · split
    · exact Nat.zero_le _
    · exact length_continued_le ..

theorem decodeOne_append (ha : a.toNat < 0x80) (b : Byte) (bs cs : List Byte) :
    decodeOne b (bs ++ a :: cs) = decodeOne b bs := by
  rw [decodeOne, decodeOne]
  split
  · rfl
  · rcases hlead : lead b.toNat with _ | ⟨k, low, high⟩
    · rfl
    · change closed b k _ = closed b k _
      rw [continued_append k (le_of_lead hlead) ha bs cs]

/-- **What stands around an ASCII character is decoded on its own.** -/
theorem decode_append_ascii (ha : a.toNat < 0x80) (bs cs : List Byte) :
    decode (bs ++ a :: cs) = decode bs ++ Char.ofNat a.toNat :: decode cs := by
  induction hn : bs.length using Nat.strongRecOn generalizing bs with
  | ind n ih =>
    rcases bs with _ | ⟨b, bs⟩
    · exact decode_ascii ha
    · have hle : (decodeOne b bs).2 ≤ bs.length := snd_decodeOne_le
      rw [List.cons_append, decode_cons, decode_cons, decodeOne_append ha,
        List.drop_append_of_le_length hle, List.cons_append]
      refine congrArg _ (ih _ ?_ _ rfl)
      rw [← hn, List.length_cons, List.length_drop]
      omega

end Utf8
