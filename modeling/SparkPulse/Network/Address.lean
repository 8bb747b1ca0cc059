import Mathlib.Data.List.Basic
import Mathlib.Data.List.Perm.Basic
import Mathlib.Data.List.TakeWhile
import Mathlib.Tactic.IntervalCases

/-!
# Addresses of interfaces

The text of an internet address with the length of its prefix, as Python's `ipaddress` reads it: an
address of version 4 in four decimal octets, or one of version 6 in hexadecimal groups, of which a
run may be left out and the last two may be written as an address of version 4. What follows the
slash is the length or, for version 4, a netmask or a hostmask.
-/

namespace SparkPulse.Network

/-! ## Interfaces -/

inductive Family
  | v4
  | v6
  deriving DecidableEq

def Family.width : Family → ℕ
  | v4 => 32
  | v6 => 128

/-- An address in the network that the length of its prefix makes of it. -/
structure Interface where
  family : Family
  address : ℕ
  prefixLength : ℕ
  deriving DecidableEq

namespace Interface

variable (i : Interface)

/-- The number of addresses of the network. -/
def size : ℕ := 2 ^ (i.family.width - i.prefixLength)

/-- The network: the family, the prefix and its length. -/
def network : Family × ℕ × ℕ := (i.family, i.address / i.size, i.prefixLength)

/-- The address without the network. -/
def host : Family × ℕ := (i.family, i.address)

/-- An address that a machine can have: not that of the network itself nor, in version 4, that of
the broadcast, where the network is larger than a link between two. -/
def IsHost : Prop :=
  i.size ≤ 2 ∨ i.address % i.size ≠ 0 ∧ (i.family = .v4 → i.address % i.size ≠ i.size - 1)

instance : Decidable i.IsHost := inferInstanceAs (Decidable (_ ∨ _))

end Interface

/-! ## Reading -/

def decimal? (t : List Char) : Option ℕ :=
  if t ≠ [] ∧ t.all Char.isDigit then some (Nat.ofDigitChars 10 t 0) else none

/-- `_parse_octet` -/
def octet? (t : List Char) : Option ℕ :=
  if 3 < t.length ∨ t ≠ ['0'] ∧ t.head? = some '0' then none
  else (decimal? t).filter (· ≤ 255)

def v4? (t : List Char) : Option ℕ :=
  match t.splitOn '.' with
  | [a, b, c, d] => do
    let a ← octet? a
    let b ← octet? b
    let c ← octet? c
    let d ← octet? d
    return ((a * 256 + b) * 256 + c) * 256 + d
  | _ => none

/-- The length of the prefix that a netmask leaves. -/
def maskLength? (mask : ℕ) : Option ℕ :=
  (List.range 33).find? fun length ↦ mask = 2 ^ 32 - 2 ^ (32 - length)

def v4Length? (t : List Char) : Option ℕ :=
  (decimal? t).filter (· ≤ 32) <|>
    (v4? t).bind fun mask ↦ maskLength? mask <|> maskLength? (2 ^ 32 - 1 - mask)

def hexDigit? (c : Char) : Option ℕ :=
  if c.isDigit then some (c.toNat - '0'.toNat)
  else if 'a' ≤ c ∧ c ≤ 'f' then some (c.toNat - 'a'.toNat + 10)
  else if 'A' ≤ c ∧ c ≤ 'F' then some (c.toNat - 'A'.toNat + 10)
  else none

/-- `_parse_hextet` -/
def hextet? (t : List Char) : Option ℕ :=
  if t = [] ∨ 4 < t.length then none
  else (t.mapM hexDigit?).map fun ds ↦ ds.foldl (fun n d ↦ 16 * n + d) 0

/-- The groups with what was left out of them. -/
def groups? (parts : List (List Char)) : Option (List (List Char)) :=
  let inner := parts.tail.dropLast
  if 1 < inner.count [] then none
  else
    match inner.idxOf? [] with
    | some i =>
      let high := parts.take (i + 1)
      let low := parts.drop (i + 2)
      -- Only a run of groups at an end may leave that end empty.
      if high.head? = some [] ∧ high ≠ [[]] ∨ low.getLast? = some [] ∧ low ≠ [[]] then none
      else
        let high := if high = [[]] then [] else high
        let low := if low = [[]] then [] else low
        if high.length + low.length < 8 then
          some (high ++ List.replicate (8 - (high.length + low.length)) ['0'] ++ low)
        else none
    | none =>
      if parts.length = 8 ∧ parts.head? ≠ some [] ∧ parts.getLast? ≠ some [] then some parts
      else none

def v6? (t : List Char) : Option ℕ :=
  let zone := (t.dropWhile (· ≠ '%')).tail
  if '%' ∈ t ∧ (zone = [] ∨ '%' ∈ zone) then none
  else
    let parts := (t.takeWhile (· ≠ '%')).splitOn ':'
    if parts.length < 3 then none
    else do
      let last := parts.getLastD []
      let parts ← if '.' ∈ last then
          (v4? last).map fun n ↦
            parts.dropLast ++ [Nat.toDigits 16 (n / 65536), Nat.toDigits 16 (n % 65536)]
        else some parts
      if 9 < parts.length then none
      else
        let hextets ← (← groups? parts).mapM hextet?
        return hextets.foldl (fun n d ↦ 65536 * n + d) 0

/-- `ip_interface` -/
def interface? (t : List Char) : Option Interface :=
  match t.splitOn '/' with
  | [a] => ((v4? a).map (⟨.v4, ·, 32⟩)) <|> ((v6? a).map (⟨.v6, ·, 128⟩))
  | [a, p] =>
    (do return ⟨.v4, ← v4? a, ← v4Length? p⟩) <|>
      (do return ⟨.v6, ← v6? a, ← (decimal? p).filter (· ≤ 128)⟩)
  | _ => none

/-! ## Writing -/

/-- An address of version 4 with the length of its prefix. -/
def dotted (octets : List ℕ) (length : ℕ) : List Char :=
  ['.'].intercalate (octets.map (Nat.toDigits 10)) ++ '/' :: Nat.toDigits 10 length

/-- The first of the longest runs of zeros: where it starts and how long it is. -/
def zeroRun (hextets : List ℕ) : ℕ × ℕ :=
  (List.range hextets.length).foldl
    (fun best start ↦
      let length := ((hextets.drop start).takeWhile (· = 0)).length
      if best.2 < length then (start, length) else best) (0, 0)

/-- `_compress_hextets` -/
def compressed (hextets : List ℕ) : List Char :=
  let (start, length) := zeroRun hextets
  let texts := hextets.map (Nat.toDigits 16)
  let parts :=
    if length ≤ 1 then texts
    else
      (if start = 0 then [[]] else []) ++ texts.take start ++ [[]] ++ texts.drop (start + length) ++
        if start + length = hextets.length then [[]] else []
  [':'].intercalate parts

/-- The text of a network. -/
def networkText (network : Family × ℕ × ℕ) : List Char :=
  let address := network.2.1 * 2 ^ (network.1.width - network.2.2)
  match network.1 with
  | .v4 =>
    dotted ((List.range 4).reverse.map fun i ↦ address / 256 ^ i % 256) network.2.2
  | .v6 =>
    compressed ((List.range 8).reverse.map fun i ↦ address / 65536 ^ i % 65536) ++
      '/' :: Nat.toDigits 10 network.2.2

theorem isDigit_of_mem_toDigits {n : ℕ} {c : Char} (h : c ∈ Nat.toDigits 10 n) : c.isDigit :=
  Nat.isDigit_of_mem_toDigits (by decide) (by decide) h

theorem decimal?_toDigits (n : ℕ) : decimal? (Nat.toDigits 10 n) = some n := by
  have hdigits : (Nat.toDigits 10 n).all Char.isDigit :=
    List.all_eq_true.mpr fun _ hc ↦ isDigit_of_mem_toDigits hc
  rw [decimal?, if_pos ⟨Nat.toDigits_ne_nil, hdigits⟩,
    Nat.ofDigitChars_ten_toDigits]

/-- The first digit of a number is zero only if there is no other. -/
theorem head?_toDigits_ne {n : ℕ} (h : n ≠ 0) : (Nat.toDigits 10 n).head? ≠ some '0' := by
  induction n using Nat.strong_induction_on with
  | _ n ih =>
    rw [Nat.toDigits_eq_if (by decide)]
    split_ifs with hlt
    · interval_cases n <;> first | exact (h rfl).elim | decide
    · rw [List.head?_append_of_ne_nil _ Nat.toDigits_ne_nil]
      exact ih (n / 10) (by omega) (by omega)

/-- A number is read as an octet when it is one. -/
theorem octet?_toDigits (n : ℕ) :
    octet? (Nat.toDigits 10 n) = if n ≤ 255 then some n else none := by
  have hlength : (Nat.toDigits 10 n).length ≤ 3 ↔ n < 10 ^ 3 :=
    Nat.length_toDigits_le_iff (by decide) (by decide)
  have hzero : ¬(Nat.toDigits 10 n ≠ ['0'] ∧ (Nat.toDigits 10 n).head? = some '0') := by
    rintro ⟨hne, hhead⟩
    by_cases h : n = 0
    · exact hne (by rw [h]; rfl)
    · exact head?_toDigits_ne h hhead
  rw [octet?, decimal?_toDigits]
  by_cases hlong : 3 < (Nat.toDigits 10 n).length
  · rw [if_pos (.inl hlong), if_neg (by omega)]
  · rw [if_neg (not_or.mpr ⟨hlong, hzero⟩)]
    simp [Option.filter]

theorem not_mem_toDigits {n : ℕ} {c : Char} (h : ¬c.isDigit) : c ∉ Nat.toDigits 10 n :=
  fun hc ↦ h (isDigit_of_mem_toDigits hc)

/-- Four numbers are read as an address when they are octets. -/
theorem v4?_intercalate (a b c d : ℕ) :
    v4? (['.'].intercalate ([a, b, c, d].map (Nat.toDigits 10))) =
      if a ≤ 255 ∧ b ≤ 255 ∧ c ≤ 255 ∧ d ≤ 255 then
        some (((a * 256 + b) * 256 + c) * 256 + d)
      else none := by
  have hdot : ∀ t ∈ [a, b, c, d].map (Nat.toDigits 10), '.' ∉ t := by
    intro t ht
    obtain ⟨n, -, rfl⟩ := List.mem_map.mp ht
    exact not_mem_toDigits (by decide)
  rw [v4?, List.splitOn_intercalate '.' hdot (by simp)]
  simp only [List.map_cons, List.map_nil, octet?_toDigits]
  split_ifs <;> simp_all

/-- What is written without colons is no address of version 6. -/
theorem v6?_eq_none {t : List Char} (hcolon : ':' ∉ t) (hzone : '%' ∉ t) : v6? t = none := by
  have hall : t.takeWhile (· ≠ '%') = t :=
    List.takeWhile_eq_self_iff.mpr fun c hc ↦ by simpa using ne_of_mem_of_not_mem hc hzone
  have hparts : t.splitOn ':' = [t] := by
    have h := List.splitOn_intercalate ':' (List.forall_mem_singleton.mpr hcolon)
      (List.cons_ne_nil t [])
    rwa [List.intercalate_singleton] at h
  rw [v6?, if_neg (by tauto), hall, hparts]
  rfl

theorem not_mem_intercalate_toDigits {ns : List ℕ} {c : Char} (hdot : c ≠ '.')
    (hdigit : ¬c.isDigit) : c ∉ ['.'].intercalate (ns.map (Nat.toDigits 10)) := by
  induction ns with
  | nil => simp
  | cons n ns ih =>
    cases ns with
    | nil => simpa [List.intercalate_singleton] using not_mem_toDigits hdigit
    | cons m ns =>
      rw [List.map_cons, List.map_cons, List.intercalate_cons_cons]
      rw [List.map_cons] at ih
      simpa [hdot, not_mem_toDigits hdigit] using ih

/-- Four numbers and a length are read as what they say when the numbers are octets. -/
theorem interface?_dotted (a b c d : ℕ) {length : ℕ} (hlength : length ≤ 32) :
    interface? (dotted [a, b, c, d] length) =
      if a ≤ 255 ∧ b ≤ 255 ∧ c ≤ 255 ∧ d ≤ 255 then
        some ⟨.v4, ((a * 256 + b) * 256 + c) * 256 + d, length⟩
      else none := by
  have hparts : (dotted [a, b, c, d] length).splitOn '/' =
      [['.'].intercalate ([a, b, c, d].map (Nat.toDigits 10)), Nat.toDigits 10 length] := by
    have hslash : ∀ t ∈ [['.'].intercalate ([a, b, c, d].map (Nat.toDigits 10)),
        Nat.toDigits 10 length], '/' ∉ t := by
      intro t ht
      rcases List.mem_pair.mp ht with rfl | rfl
      · exact not_mem_intercalate_toDigits (by decide) (by decide)
      · exact not_mem_toDigits (by decide)
    have h := List.splitOn_intercalate '/' hslash (by simp)
    rwa [List.intercalate_cons_cons, List.intercalate_singleton, List.append_assoc] at h
  have hv6 : v6? (['.'].intercalate ([a, b, c, d].map (Nat.toDigits 10))) = none :=
    v6?_eq_none (not_mem_intercalate_toDigits (by decide) (by decide))
      (not_mem_intercalate_toDigits (by decide) (by decide))
  have hv4 : v4Length? (Nat.toDigits 10 length) = some length := by
    simp [v4Length?, decimal?_toDigits, Option.filter, hlength]
  rw [interface?, hparts]
  simp only [v4?_intercalate, hv6, hv4]
  split_ifs <;> rfl

/-! ## Address plans -/

/-- The address that a text says. -/
def hostOf (t : List Char) : Option (Family × ℕ) := (interface? t).map (·.host)

/-- The network that a text says. -/
def networkOf (t : List Char) : Option (Family × ℕ × ℕ) := (interface? t).map (·.network)

/-- The text says an address that a machine can have. -/
def HostText (t : List Char) : Prop := ∃ i, interface? t = some i ∧ i.IsHost

/-- The addresses of several machines can be used together. -/
structure Usable {ι : Type} (machines : List ι) (texts : ι → List (List Char)) : Prop where
  host : ∀ m ∈ machines, ∀ t ∈ texts m, HostText t
  /-- No two of all the addresses are the same. -/
  distinct : (machines.flatMap texts).Pairwise fun t t' ↦ hostOf t ≠ hostOf t'
  /-- No machine has two addresses in one network. -/
  networks : ∀ m ∈ machines, (texts m).Pairwise fun t t' ↦ networkOf t ≠ networkOf t'

section
variable {ι κ : Type} {ms ms' : List ι} {texts texts' : ι → List (List Char)}

/-- The order of machines, and that of the addresses of one of them, does not matter. -/
theorem usable_congr (hms : ms.Perm ms') (htexts : ∀ m ∈ ms, (texts m).Perm (texts' m)) :
    Usable ms texts ↔ Usable ms' texts' := by
  have hflat : (ms.flatMap texts).Perm (ms'.flatMap texts') :=
    (List.Perm.flatMap_left ms htexts).trans (hms.flatMap_right texts')
  have hhost : (∀ m ∈ ms, ∀ t ∈ texts m, HostText t) ↔
      ∀ m ∈ ms', ∀ t ∈ texts' m, HostText t := by
    constructor
    · intro h m hm t ht
      have hm := hms.mem_iff.mpr hm
      exact h m hm t ((htexts m hm).mem_iff.mpr ht)
    · intro h m hm t ht
      exact h m (hms.mem_iff.mp hm) t ((htexts m hm).mem_iff.mp ht)
  have hnetworks : (∀ m ∈ ms, (texts m).Pairwise fun t t' ↦ networkOf t ≠ networkOf t') ↔
      ∀ m ∈ ms', (texts' m).Pairwise fun t t' ↦ networkOf t ≠ networkOf t' := by
    constructor
    · intro h m hm
      have hm := hms.mem_iff.mpr hm
      exact ((htexts m hm).pairwise_iff Ne.symm).mp (h m hm)
    · intro h m hm
      exact ((htexts m hm).pairwise_iff Ne.symm).mpr (h m (hms.mem_iff.mp hm))
  constructor
  · exact fun h ↦
      ⟨hhost.mp h.host, (hflat.pairwise_iff Ne.symm).mp h.distinct, hnetworks.mp h.networks⟩
  · exact fun h ↦
      ⟨hhost.mpr h.host, (hflat.pairwise_iff Ne.symm).mpr h.distinct, hnetworks.mpr h.networks⟩

theorem usable_map_iff {f : κ → ι} {ks : List κ} :
    Usable (ks.map f) texts ↔ Usable ks fun k ↦ texts (f k) := by
  constructor
  · intro h
    refine ⟨fun k hk ↦ h.host (f k) (List.mem_map_of_mem hk), ?_,
      fun k hk ↦ h.networks (f k) (List.mem_map_of_mem hk)⟩
    simpa [List.flatMap_map] using h.distinct
  · intro h
    refine ⟨?_, by simpa [List.flatMap_map] using h.distinct, ?_⟩
    · rintro m hm
      obtain ⟨k, hk, rfl⟩ := List.mem_map.mp hm
      exact h.host k hk
    · rintro m hm
      obtain ⟨k, hk, rfl⟩ := List.mem_map.mp hm
      exact h.networks k hk

/-- The addresses of two groups of machines can be used together when those of each can and no
address is in both. -/
theorem usable_append_iff :
    Usable (ms ++ ms') texts ↔ Usable ms texts ∧ Usable ms' texts ∧
      ∀ m ∈ ms, ∀ t ∈ texts m, ∀ m' ∈ ms', ∀ t' ∈ texts m', hostOf t ≠ hostOf t' := by
  constructor
  · intro h
    have hdistinct := h.distinct
    rw [List.flatMap_append, List.pairwise_append] at hdistinct
    obtain ⟨hleft, hright, hcross⟩ := hdistinct
    refine ⟨⟨fun m hm ↦ h.host m (List.mem_append_left _ hm), hleft,
      fun m hm ↦ h.networks m (List.mem_append_left _ hm)⟩,
      ⟨fun m hm ↦ h.host m (List.mem_append_right _ hm), hright,
      fun m hm ↦ h.networks m (List.mem_append_right _ hm)⟩, fun m hm t ht m' hm' t' ht' ↦ ?_⟩
    exact hcross t (List.mem_flatMap.mpr ⟨m, hm, ht⟩) t' (List.mem_flatMap.mpr ⟨m', hm', ht'⟩)
  · rintro ⟨hleft, hright, hcross⟩
    refine ⟨fun m hm ↦ ?_, ?_, fun m hm ↦ ?_⟩
    · exact (List.mem_append.mp hm).elim (hleft.host m) (hright.host m)
    · rw [List.flatMap_append, List.pairwise_append]
      refine ⟨hleft.distinct, hright.distinct, fun t ht t' ht' ↦ ?_⟩
      obtain ⟨m, hm, ht⟩ := List.mem_flatMap.mp ht
      obtain ⟨m', hm', ht'⟩ := List.mem_flatMap.mp ht'
      exact hcross m hm t ht m' hm' t' ht'
    · exact (List.mem_append.mp hm).elim (hleft.networks m) (hright.networks m)

end

end SparkPulse.Network
