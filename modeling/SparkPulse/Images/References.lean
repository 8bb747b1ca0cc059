import Mathlib.Data.List.TakeWhile
import SparkPulse.Deletion.Guards

/-!
# References of images

A reference names an image by a repository and a tag, a digest or both. Three functions take one
apart at its colons: `split_ref` of `tools/docker.py`, which `tools/registry.py` makes a location
of, the agent's own `split_ref`, and `_split_ref` of `engines/registry.py`. They read a reference
alike when it does not have both a tag and a digest, and the last only when it has no digest.
-/

namespace SparkPulse.Images

open Deletion
open SparkPulse.Runtime (strip isSpace)

/-! ## The splitters -/

/-- `char::is_whitespace`, which leaves out the separators that Python's counts. -/
def isWhitespace (c : Char) : Bool := isSpace c && !('\x1c' ≤ c && c ≤ '\x1f')

/-- `str::trim` -/
def trim (s : String) : String :=
  .ofList ((s.toList.dropWhile isWhitespace).reverse.dropWhile isWhitespace).reverse

/-- The `split_ref` of the agent. -/
def agentSplitRef (reference : String) : String × String :=
  let reference := trim reference
  if reference = "" then ("", "")
  else
    match partition '@' reference with
    | (repo, some digest) => (repo, digest)
    | (_, none) =>
      match rpartition ':' reference with
      | (some head, tail) => if '/' ∉ tail.toList then (head, tail) else (reference, "latest")
      | (none, _) => (reference, "latest")

/-- `_split_ref` of `engines/registry.py` -/
def enginesSplitRef (ref : String) : String × String :=
  match rpartition ':' ref with
  | (some head, tail) => if '/' ∈ tail.toList then (ref, "latest") else (head, tail)
  | (none, _) => (ref, "latest")

/-- `pull_reference` -/
def pullReference (ref digest registryBase : String) : String :=
  let location := locationFor ref digest
  if location.digest = "" then
    if registryBase = "" then ref
    else s!"{registryBase}/{location.repository}:{(splitRef ref).2}"
  else { location with registryBase := orElse registryBase location.registryBase }.reference

/-- What a repository and a tag or digest are put together to. -/
def compose (split : String × String) : String :=
  if ':' ∈ split.2.toList then split.1 ++ "@" ++ split.2 else split.1 ++ ":" ++ split.2

/-- The repository with its host. -/
def locationName (l : ImageLocation) : String :=
  if l.registryBase = "" then l.repository else l.registryBase ++ "/" ++ l.repository

/-! ## Taking texts apart -/

section
variable {c : Char} {s a b : String}

theorem dropWhile_reverse_eq_self {p : Char → Bool} {l : List Char} (h : ∀ c ∈ l, p c = false) :
    ((l.dropWhile p).reverse.dropWhile p).reverse = l := by
  have hdrop : ∀ l : List Char, (∀ c ∈ l, p c = false) → l.dropWhile p = l := by
    intro l h
    cases l with
    | nil => rfl
    | cons c l => rw [List.dropWhile_cons_of_neg (by rw [h c List.mem_cons_self]; decide)]
  rw [hdrop l h, hdrop _ fun c hc ↦ h c (List.mem_reverse.mp hc), List.reverse_reverse]

theorem strip_eq_self (h : ∀ c ∈ s.toList, isSpace c = false) : strip s = s := by
  rw [strip, dropWhile_reverse_eq_self h, String.ofList_toList]

theorem trim_eq_self (h : ∀ c ∈ s.toList, isSpace c = false) : trim s = s := by
  have hwhite : ∀ c ∈ s.toList, isWhitespace c = false := fun c hc ↦ by
    rw [isWhitespace, h c hc, Bool.false_and]
  rw [trim, dropWhile_reverse_eq_self hwhite, String.ofList_toList]

theorem partition_eq_none (h : c ∉ s.toList) : partition c s = (s, none) := by
  have hdrop : s.toList.dropWhile (· ≠ c) = [] := by
    rw [List.dropWhile_eq_nil_iff]
    exact fun d hd ↦ decide_eq_true fun heq ↦ h (heq ▸ hd)
  rw [partition, hdrop]

theorem partition_append (h : c ∉ a.toList) (hs : s.toList = a.toList ++ c :: b.toList) :
    partition c s = (a, some b) := by
  have hpos : ∀ d ∈ a.toList, (decide (d ≠ c)) = true :=
    fun d hd ↦ decide_eq_true fun heq ↦ h (heq ▸ hd)
  have hdrop : s.toList.dropWhile (· ≠ c) = c :: b.toList := by
    rw [hs, List.dropWhile_append_of_pos hpos, List.dropWhile_cons_of_neg (by simp)]
  have htake : s.toList.takeWhile (· ≠ c) = a.toList := by
    rw [hs, List.takeWhile_append_of_pos hpos, List.takeWhile_cons_of_neg (by simp),
      List.append_nil]
  rw [partition, hdrop, htake, String.ofList_toList]
  exact congrArg (fun t ↦ (a, some t)) String.ofList_toList

theorem rpartition_append (h : c ∉ b.toList) (hs : s.toList = a.toList ++ c :: b.toList) :
    rpartition c s = (some a, b) := by
  have hpos : ∀ d ∈ b.toList.reverse, (decide (d ≠ c)) = true :=
    fun d hd ↦ decide_eq_true fun heq ↦ h (heq ▸ List.mem_reverse.mp hd)
  have hrev : s.toList.reverse = b.toList.reverse ++ c :: a.toList.reverse := by
    rw [hs, List.reverse_append, List.reverse_cons, List.append_assoc]
    rfl
  have hdrop : s.toList.reverse.dropWhile (· ≠ c) = c :: a.toList.reverse := by
    rw [hrev, List.dropWhile_append_of_pos hpos, List.dropWhile_cons_of_neg (by simp)]
  have htake : s.toList.reverse.takeWhile (· ≠ c) = b.toList.reverse := by
    rw [hrev, List.takeWhile_append_of_pos hpos, List.takeWhile_cons_of_neg (by simp),
      List.append_nil]
  rw [rpartition, hdrop, htake, List.reverse_reverse, String.ofList_toList]
  dsimp only
  rw [List.reverse_reverse, String.ofList_toList]

/-- What is before and after the first such letter is the text. -/
theorem toList_of_partition (h : partition c s = (a, some b)) :
    s.toList = a.toList ++ c :: b.toList ∧ c ∉ a.toList := by
  rw [partition] at h
  rcases hdrop : s.toList.dropWhile (· ≠ c) with _ | ⟨d, tail⟩
  · rw [hdrop] at h
    cases h
  · rw [hdrop] at h
    obtain ⟨rfl, hb⟩ := Prod.mk.inj h
    obtain rfl := Option.some.inj hb
    have hd : d = c := by
      have hhead := List.head?_dropWhile_not (fun d ↦ decide (d ≠ c)) s.toList
      rw [hdrop] at hhead
      simpa using hhead
    subst hd
    rw [String.toList_ofList, String.toList_ofList]
    refine ⟨?_, fun hmem ↦ ?_⟩
    · rw [← hdrop, List.takeWhile_append_dropWhile]
    · have hne := List.mem_takeWhile_imp hmem
      simp at hne

/-- What is before and after the last such letter is the text. -/
theorem toList_of_rpartition (h : rpartition c s = (some a, b)) :
    s.toList = a.toList ++ c :: b.toList := by
  rw [rpartition] at h
  rcases hdrop : s.toList.reverse.dropWhile (· ≠ c) with _ | ⟨d, head⟩
  · rw [hdrop] at h
    cases h
  · rw [hdrop] at h
    obtain ⟨ha, rfl⟩ := Prod.mk.inj h
    obtain rfl := Option.some.inj ha
    have hd : d = c := by
      have hhead := List.head?_dropWhile_not (fun d ↦ decide (d ≠ c)) s.toList.reverse
      rw [hdrop] at hhead
      simpa using hhead
    subst hd
    rw [String.toList_ofList, String.toList_ofList]
    have hsplit := List.takeWhile_append_dropWhile (p := fun a ↦ decide (a ≠ d))
      (l := s.toList.reverse)
    rw [hdrop] at hsplit
    have hreverse := congrArg List.reverse hsplit
    rw [List.reverse_reverse, List.reverse_append, List.reverse_cons, List.append_assoc] at hreverse
    exact hreverse.symm

/-- Without spaces around it a reference is taken apart alike in both languages. -/
theorem agentSplitRef_eq (h : ∀ c ∈ s.toList, isSpace c = false) :
    agentSplitRef s = splitRef s := by
  rw [agentSplitRef, splitRef, trim_eq_self h, strip_eq_self h]
  rcases partition '@' s with ⟨repo, _ | digest⟩
  · rcases rpartition ':' s with ⟨_ | head, tail⟩
    · rfl
    · dsimp only
      rw [ite_not]
  · rfl

theorem stripSlashes_eq_self (hhead : s.toList.head? ≠ some '/')
    (hlast : s.toList.getLast? ≠ some '/') : stripSlashes s = s := by
  have hdrop : ∀ l : List Char, l.head? ≠ some '/' → l.dropWhile (· = '/') = l := by
    intro l h
    cases l with
    | nil => rfl
    | cons c l =>
      have hc : c ≠ '/' := fun heq ↦ h (congrArg some heq)
      rw [List.dropWhile_cons_of_neg (by simpa using hc)]
  rw [stripSlashes, hdrop _ hhead, hdrop _ (by rwa [List.head?_reverse]), List.reverse_reverse,
    String.ofList_toList]

/-- A repository as a location can be made of it. -/
structure IsRepository (s : String) : Prop where
  head : s.toList.head? ≠ some '/'
  last : s.toList.getLast? ≠ some '/'
  space : ∀ c ∈ s.toList, isSpace c = false

/-- The two ways a repository is told apart from its host. -/
theorem hosted_cases (h : IsRepository s) :
    registryHost s = "" ∧ repositoryPath s = s ∨
      ∃ tail, registryHost s ≠ "" ∧ repositoryPath s = tail ∧
        stripSlashes (strip (registryHost s)) = registryHost s ∧
        registryHost s ++ "/" ++ tail = s := by
  rw [registryHost, repositoryPath, strip_eq_self h.space, stripSlashes_eq_self h.head h.last]
  rcases hsplit : partition '/' s with ⟨head, _ | tail⟩
  · exact .inl ⟨rfl, rfl⟩
  · obtain ⟨htext, hslash⟩ := toList_of_partition hsplit
    dsimp only
    by_cases hhost : isHost head = true
    · refine .inr ⟨tail, ?_, if_pos hhost, ?_, ?_⟩
      · rw [if_pos hhost]
        rintro rfl
        revert hhost
        decide
      · have hspace : ∀ c ∈ head.toList, isSpace c = false := fun c hc ↦
          h.space c (htext ▸ List.mem_append_left _ hc)
        rw [if_pos hhost, strip_eq_self hspace]
        exact stripSlashes_eq_self (fun h ↦ hslash (List.mem_of_mem_head? h))
          fun h ↦ hslash (List.mem_of_getLast? h)
      · rw [if_pos hhost]
        apply String.toList_inj.mp
        rw [htext, String.toList_append, String.toList_append, List.append_assoc]
        rfl
    · exact .inl ⟨if_neg hhost, if_neg hhost⟩

theorem locationName_eq {digest : String} (h : IsRepository s) :
    locationName ⟨registryHost s, repositoryPath s, digest⟩ = s := by
  rcases hosted_cases h with ⟨hhost, hpath⟩ | ⟨tail, hhost, hpath, -, hjoin⟩
  · simp only [locationName, hhost, if_true, hpath]
  · simp only [locationName, if_neg hhost, hpath, hjoin]

theorem reference_eq {digest : String} (h : IsRepository s) (hdigest : digest ≠ "") :
    ImageLocation.reference ⟨registryHost s, repositoryPath s, digest⟩ = s ++ "@" ++ digest := by
  rcases hosted_cases h with ⟨hhost, hpath⟩ | ⟨tail, hhost, hpath, hbase, hjoin⟩
  · have hempty : stripSlashes (strip "") = "" := by
      rw [strip_eq_self (by simp), stripSlashes_eq_self (by simp) (by simp)]
    simp only [ImageLocation.reference, hhost, hempty, if_true, hpath, if_neg hdigest]
    change s ++ "@" ++ digest = _
    rfl
  · simp only [ImageLocation.reference, hbase, if_neg hhost, hpath, if_neg hdigest]
    change registryHost s ++ "/" ++ tail ++ "@" ++ digest = _
    rw [hjoin]

end

/-! ## References -/

/-- A letter that stands in no part of a reference. -/
def isForeign (c : Char) : Bool := c = '@' || isSpace c

/-- `[host[:port]/]path[:tag][@digest]`; of the grammar of its parts, what tells them apart. -/
structure Reference where
  /-- The host, with its port. -/
  host : Option String := none
  path : String
  tag : Option String := none
  digest : Option String := none
  host_ok : ∀ h ∈ host, h ≠ "" ∧ '/' ∉ h.toList ∧ ∀ c ∈ h.toList, isForeign c = false
  path_ok : path ≠ "" ∧ path.toList.head? ≠ some '/' ∧ path.toList.getLast? ≠ some '/' ∧
    ':' ∉ path.toList ∧ ∀ c ∈ path.toList, isForeign c = false
  tag_ok : ∀ t ∈ tag, t ≠ "" ∧ '/' ∉ t.toList ∧ ':' ∉ t.toList ∧
    ∀ c ∈ t.toList, isForeign c = false
  digest_ok : ∀ d ∈ digest, ∃ algorithm encoded, d = algorithm ++ ":" ++ encoded ∧
    '/' ∉ d.toList ∧ ':' ∉ encoded.toList ∧ ∀ c ∈ d.toList, isForeign c = false

namespace Reference

variable (r : Reference)

/-- The repository, with its host. -/
def name : String := (r.host.elim "" (· ++ "/")) ++ r.path

/-- The repository, and the tag if there is one. -/
def tagged : String := r.name ++ r.tag.elim "" (":" ++ ·)

def text : String := r.tagged ++ r.digest.elim "" ("@" ++ ·)

/-- The digest, or else the tag, which is `latest` where none is given. -/
def version : String := r.digest.getD (r.tag.getD "latest")

/-- What a reference names: a digest goes before a tag. -/
def image : String × String := (r.name, r.version)

/-- A text that names the same image. -/
def Names (s : String) : Prop := ∃ r' : Reference, r'.text = s ∧ r'.image = r.image

/-- The readings of a reference agree, and put together again each names its image. -/
structure ReadAlike : Prop where
  splitRef : splitRef r.text = (r.name, r.version)
  agentSplitRef : agentSplitRef r.text = (r.name, r.version)
  locationFor : locationName (locationFor r.text "") = r.name ∧
    (Deletion.locationFor r.text "").digest = r.digest.getD ""
  composed : r.Names (compose (Deletion.splitRef r.text))
  agentComposed : r.Names (compose (Images.agentSplitRef r.text))
  pulled : r.Names (pullReference r.text "" "")

end Reference

namespace Reference

variable {r : Reference} {d t : String}

/-- A text of letters that stand in a part of a reference. -/
def IsPlain (s : String) : Prop := ∀ c ∈ s.toList, isForeign c = false

theorem eq_false_of_all {p : Char → Bool} {s : String} (h : s.toList.all (fun c ↦ !p c) = true) :
    ∀ c ∈ s.toList, p c = false := fun c hc ↦ Bool.not_eq_true' _ ▸ List.all_eq_true.mp h c hc

theorem IsPlain.append {a b : String} (ha : IsPlain a) (hb : IsPlain b) : IsPlain (a ++ b) := by
  intro c hc
  rw [String.toList_append] at hc
  exact (List.mem_append.mp hc).elim (ha c) (hb c)

theorem isPlain_of_letter {c : Char} {s : String} (hs : s.toList = [c])
    (h : isForeign c = false) : IsPlain s := by
  intro a ha
  rw [hs] at ha
  exact List.mem_singleton.mp ha ▸ h

theorem isPlain_name (r : Reference) : IsPlain r.name := by
  have hpath : IsPlain r.path := r.path_ok.2.2.2.2
  rw [name]
  rcases hhost : r.host with _ | h
  · exact IsPlain.append (fun _ hc ↦ nomatch hc) hpath
  · have hslash : IsPlain "/" := isPlain_of_letter rfl rfl
    exact IsPlain.append (IsPlain.append (r.host_ok h hhost).2.2 hslash) hpath

theorem isPlain_tagged (r : Reference) : IsPlain r.tagged := by
  rw [tagged]
  rcases htag : r.tag with _ | t
  · exact IsPlain.append r.isPlain_name fun _ hc ↦ nomatch hc
  · have hcolon : IsPlain ":" := isPlain_of_letter rfl rfl
    exact IsPlain.append r.isPlain_name (IsPlain.append hcolon (r.tag_ok t htag).2.2.2)

theorem not_isSpace_of_plain {c : Char} (h : isForeign c = false) : isSpace c = false :=
  (Bool.or_eq_false_iff.mp h).2

theorem at_not_mem {s : String} (h : IsPlain s) : '@' ∉ s.toList := fun hc ↦ by
  cases h '@' hc

theorem not_isSpace_text (r : Reference) : ∀ c ∈ r.text.toList, isSpace c = false := by
  intro c hc
  rw [text, String.toList_append] at hc
  rcases List.mem_append.mp hc with hc | hc
  · exact not_isSpace_of_plain (r.isPlain_tagged c hc)
  · rcases hdigest : r.digest with _ | d
    · rw [hdigest] at hc
      cases hc
    · rw [hdigest, Option.elim_some, String.toList_append] at hc
      obtain ⟨-, -, -, -, -, hplain⟩ := r.digest_ok d hdigest
      rcases List.mem_append.mp hc with hc | hc
      · rw [List.mem_singleton.mp hc]
        decide
      · exact not_isSpace_of_plain (hplain c hc)

theorem name_ne_empty (r : Reference) : r.name ≠ "" := by
  intro h
  rw [name, String.append_eq_empty_iff] at h
  exact r.path_ok.1 h.2

theorem splitRef_text_of_digest (h : r.digest = some d) : splitRef r.text = (r.tagged, d) := by
  have htext : r.text.toList = r.tagged.toList ++ '@' :: d.toList := by
    rw [text, h, Option.elim_some, String.toList_append, String.toList_append]
    rfl
  have hne : r.text ≠ "" := by
    intro hempty
    rw [hempty] at htext
    simp at htext
  rw [splitRef, strip_eq_self r.not_isSpace_text, if_neg hne,
    partition_append (at_not_mem r.isPlain_tagged) htext]

/-- A colon of a name stands before a slash. -/
theorem slash_mem_of_rpartition {head tail : String}
    (h : rpartition ':' r.name = (some head, tail)) : '/' ∈ tail.toList := by
  have hsplit := toList_of_rpartition h
  have hpath : ':' ∉ r.path.toList := r.path_ok.2.2.2.1
  rcases hhost : r.host with _ | host
  · have hname : r.name = r.path := by
      rw [name, hhost, Option.elim_none, String.empty_append]
    rw [hname] at hsplit
    exact absurd (hsplit ▸ List.mem_append_right _ List.mem_cons_self) hpath
  · have hname : r.name.toList = host.toList ++ '/' :: r.path.toList := by
      rw [name, hhost, Option.elim_some, String.toList_append, String.toList_append,
        List.append_assoc]
      rfl
    rw [hname] at hsplit
    rcases List.append_eq_append_iff.mp hsplit with ⟨l, -, hl⟩ | ⟨l, -, hl⟩
    · -- the last colon would be one of the path
      have hmem : ':' ∈ '/' :: r.path.toList :=
        hl ▸ List.mem_append_right _ List.mem_cons_self
      exact absurd ((List.mem_cons.mp hmem).resolve_left (by decide)) hpath
    · rcases List.cons_eq_append_iff.mp hl with ⟨-, hslash⟩ | ⟨l', -, htail⟩
      · cases (List.cons.inj hslash).1
      · rw [htail]
        exact List.mem_append_right _ List.mem_cons_self

/-- At the last colon a name and a tag come apart. -/
theorem enginesSplitRef_tagged (r : Reference) :
    enginesSplitRef r.tagged = (r.name, r.tag.getD "latest") := by
  rw [enginesSplitRef]
  rcases htag : r.tag with _ | t
  · have hname : r.tagged = r.name := by
      rw [tagged, htag, Option.elim_none, String.append_empty]
    rw [hname]
    rcases hcolon : rpartition ':' r.name with ⟨_ | head, tail⟩
    · rfl
    · exact if_pos (slash_mem_of_rpartition hcolon)
  · obtain ⟨-, hslash, hcolon, -⟩ := r.tag_ok t htag
    have htagged : r.tagged.toList = r.name.toList ++ ':' :: t.toList := by
      rw [tagged, htag, Option.elim_some, String.toList_append, String.toList_append]
      rfl
    rw [rpartition_append hcolon htagged]
    exact if_neg hslash

theorem text_of_no_digest (h : r.digest = none) : r.text = r.tagged := by
  rw [text, h, Option.elim_none, String.append_empty]

theorem splitRef_text_of_no_digest (h : r.digest = none) :
    splitRef r.text = (r.name, r.tag.getD "latest") := by
  have hne : r.tagged ≠ "" := by
    intro hempty
    rw [tagged, String.append_eq_empty_iff] at hempty
    exact r.name_ne_empty hempty.1
  have hspace := r.not_isSpace_text
  rw [text_of_no_digest h] at hspace ⊢
  rw [splitRef, strip_eq_self hspace, if_neg hne,
    partition_eq_none (at_not_mem r.isPlain_tagged)]
  exact r.enginesSplitRef_tagged

theorem isRepository_name (r : Reference) : IsRepository r.name := by
  obtain ⟨hne, hhead, hlast, -, -⟩ := r.path_ok
  have hpath : r.path.toList ≠ [] := by simpa using hne
  refine ⟨?_, ?_, fun c hc ↦ not_isSpace_of_plain (r.isPlain_name c hc)⟩
  · rw [name]
    rcases hhost : r.host with _ | h
    · rwa [Option.elim_none, String.empty_append]
    · obtain ⟨hempty, hslash, -⟩ := r.host_ok h hhost
      have hsome : h.toList ≠ [] := by simpa using hempty
      rw [Option.elim_some, String.append_assoc, String.toList_append,
        List.head?_append_of_ne_nil _ hsome]
      exact fun h ↦ hslash (List.mem_of_mem_head? h)
  · rw [name, String.toList_append, List.getLast?_append_of_ne_nil _ hpath]
    exact hlast

theorem isRepository_tagged (r : Reference) : IsRepository r.tagged := by
  refine ⟨?_, ?_, fun c hc ↦ not_isSpace_of_plain (r.isPlain_tagged c hc)⟩
  · have hname : r.name.toList ≠ [] := by simpa using r.name_ne_empty
    rw [tagged, String.toList_append, List.head?_append_of_ne_nil _ hname]
    exact r.isRepository_name.head
  · rw [tagged]
    rcases htag : r.tag with _ | t
    · rw [Option.elim_none, String.append_empty]
      exact r.isRepository_name.last
    · obtain ⟨hempty, hslash, -⟩ := r.tag_ok t htag
      have hsome : t.toList ≠ [] := by simpa using hempty
      rw [Option.elim_some, String.toList_append, String.toList_append,
        List.getLast?_append_of_ne_nil _ (List.append_ne_nil_of_right_ne_nil _ hsome),
        List.getLast?_append_of_ne_nil _ hsome]
      exact fun h ↦ hslash (List.mem_of_getLast? h)

/-- A tag is no digest. -/
theorem isDigest_eq_false {t : String} (hspace : ∀ c ∈ t.toList, isSpace c = false)
    (hcolon : ':' ∉ t.toList) : isDigest t = false := by
  rw [isDigest, strip_eq_self hspace, partition_eq_none hcolon]

/-- The tag, or what stands for it. -/
theorem tag_plain (r : Reference) : ':' ∉ (r.tag.getD "latest").toList ∧
    ∀ c ∈ (r.tag.getD "latest").toList, isSpace c = false := by
  rcases htag : r.tag with _ | t
  · exact ⟨by decide, eq_false_of_all (by decide)⟩
  · obtain ⟨-, -, hcolon, hplain⟩ := r.tag_ok t htag
    exact ⟨hcolon, fun c hc ↦ not_isSpace_of_plain (hplain c hc)⟩

theorem locationFor_text_of_no_digest (h : r.digest = none) :
    locationFor r.text "" = ⟨registryHost r.name, repositoryPath r.name, ""⟩ := by
  obtain ⟨hcolon, hspace⟩ := r.tag_plain
  have hempty : strip "" = "" := strip_eq_self (by simp)
  rw [locationFor, splitRef_text_of_no_digest h]
  dsimp only
  rw [isDigest_eq_false hspace hcolon, hempty, orElse, if_pos rfl, if_neg Bool.false_ne_true]

theorem locationFor_text_of_digest (h : r.digest = some d) : locationFor r.text "" =
    ⟨registryHost r.tagged, repositoryPath r.tagged, if isDigest d then d else ""⟩ := by
  have hempty : strip "" = "" := strip_eq_self (by simp)
  rw [locationFor, splitRef_text_of_digest h]
  dsimp only
  rw [hempty, orElse, if_pos rfl]

/-- What is pulled without a base is the reference itself. -/
theorem pullReference_text (r : Reference) : pullReference r.text "" "" = r.text := by
  rcases hdigest : r.digest with _ | d
  · rw [pullReference, locationFor_text_of_no_digest hdigest]
    rfl
  · rw [pullReference, locationFor_text_of_digest hdigest]
    dsimp only
    by_cases hempty : (if isDigest d then d else "") = ""
    · rw [if_pos hempty, if_pos rfl]
    · have hd : (if isDigest d then d else "") = d := by
        split_ifs at hempty ⊢ with hisDigest
        · rfl
        · exact absurd rfl hempty
      have hne : d ≠ "" := hd ▸ hempty
      rw [if_neg hempty, hd, orElse, if_pos rfl, reference_eq r.isRepository_tagged hne, text,
        hdigest, Option.elim_some, String.append_assoc]

theorem tag_ok_getD (r : Reference) : ∀ t ∈ some (r.tag.getD "latest"), t ≠ "" ∧
    '/' ∉ t.toList ∧ ':' ∉ t.toList ∧ ∀ c ∈ t.toList, isForeign c = false := by
  intro t ht
  obtain rfl := Option.some.inj ht
  rcases htag : r.tag with _ | t
  · exact ⟨by decide, by decide, by decide, eq_false_of_all (by decide)⟩
  · exact r.tag_ok t htag

/-- A reference with the tag written out and no digest. -/
def spelled (r : Reference) : Reference where
  host := r.host
  path := r.path
  tag := some (r.tag.getD "latest")
  host_ok := r.host_ok
  path_ok := r.path_ok
  tag_ok := r.tag_ok_getD
  digest_ok _ h := absurd h (Option.not_mem_none _)

/-- What the splitters take apart is put together to a text that names the same image. -/
theorem names_compose (r : Reference) : r.Names (compose (splitRef r.text)) := by
  rcases hdigest : r.digest with _ | d
  · obtain ⟨hcolon, -⟩ := r.tag_plain
    refine ⟨r.spelled, ?_, ?_⟩
    · rw [splitRef_text_of_no_digest hdigest, compose, if_neg hcolon, text, tagged]
      change r.name ++ (":" ++ r.tag.getD "latest") ++ "" = r.name ++ ":" ++ r.tag.getD "latest"
      rw [String.append_empty, String.append_assoc]
    · rw [image, image, version, version, hdigest]
      rfl
  · obtain ⟨algorithm, encoded, rfl, -⟩ := r.digest_ok d hdigest
    have hcolon : ':' ∈ (algorithm ++ ":" ++ encoded).toList := by simp
    refine ⟨r, ?_, rfl⟩
    rw [splitRef_text_of_digest hdigest, compose, if_pos hcolon, text, hdigest, Option.elim_some]
    exact (String.append_assoc ..).symm

theorem tagged_eq_name_iff : r.tagged = r.name ↔ r.tag = none := by
  rw [tagged]
  rcases r.tag with _ | t
  · simp
  · simp

/-- **One reading.** -/
theorem readAlike_iff (r : Reference) :
    r.ReadAlike ↔ (r.tag = none ∨ r.digest = none) ∧ ∀ d ∈ r.digest, isDigest d = true := by
  have hagent : agentSplitRef r.text = splitRef r.text := agentSplitRef_eq r.not_isSpace_text
  have hpulled : r.Names (pullReference r.text "" "") := by
    rw [pullReference_text]
    exact ⟨r, rfl, rfl⟩
  rcases hdigest : r.digest with _ | d
  · have hsplit : splitRef r.text = (r.name, r.version) := by
      rw [splitRef_text_of_no_digest hdigest, version, hdigest]
      rfl
    refine iff_of_true ⟨hsplit, hagent.trans hsplit, ?_, r.names_compose,
      hagent ▸ r.names_compose, hpulled⟩ ⟨.inr rfl, fun _ h ↦ nomatch h⟩
    rw [locationFor_text_of_no_digest hdigest, hdigest]
    exact ⟨locationName_eq r.isRepository_name, rfl⟩
  · have hversion : r.version = d := by rw [version, hdigest, Option.getD_some]
    constructor
    · intro h
      refine ⟨.inl ?_, fun d' hd' ↦ ?_⟩
      · have hsplit := h.splitRef
        rw [splitRef_text_of_digest hdigest] at hsplit
        exact tagged_eq_name_iff.mp (Prod.mk.inj hsplit).1
      · obtain rfl := Option.some.inj hd'
        have hlocation := h.locationFor.2
        rw [locationFor_text_of_digest hdigest, hdigest, Option.getD_some] at hlocation
        by_contra hnot
        rw [if_neg hnot] at hlocation
        obtain ⟨algorithm, encoded, rfl, -⟩ := r.digest_ok d hdigest
        simp at hlocation
    · rintro ⟨htag, hisDigest⟩
      have hname : r.tagged = r.name := tagged_eq_name_iff.mpr (htag.resolve_right nofun)
      have hsplit : splitRef r.text = (r.name, r.version) := by
        rw [splitRef_text_of_digest hdigest, hname, hversion]
      refine ⟨hsplit, hagent.trans hsplit, ?_, r.names_compose, hagent ▸ r.names_compose, hpulled⟩
      rw [locationFor_text_of_digest hdigest, hdigest, hname, if_pos (hisDigest d rfl)]
      exact ⟨locationName_eq r.isRepository_name, rfl⟩

/-- A digest is taken apart at its own colon by the engines' splitter. -/
theorem enginesSplitRef_text_iff (r : Reference) :
    enginesSplitRef r.text = (r.name, r.version) ↔ r.digest = none := by
  rcases hdigest : r.digest with _ | d
  · refine iff_of_true ?_ rfl
    rw [text_of_no_digest hdigest, enginesSplitRef_tagged, version, hdigest]
    rfl
  · refine iff_of_false (fun h ↦ ?_) nofun
    obtain ⟨algorithm, encoded, rfl, hslash, hcolon, -⟩ := r.digest_ok d hdigest
    have htext : r.text.toList =
        (r.tagged ++ "@" ++ algorithm).toList ++ ':' :: encoded.toList := by
      rw [text, hdigest, Option.elim_some]
      simp
    have hencoded : '/' ∉ encoded.toList := fun hc ↦ hslash (by simp [hc])
    rw [enginesSplitRef, rpartition_append hcolon htext] at h
    dsimp only at h
    rw [if_neg hencoded, version, hdigest] at h
    have hversion : encoded = algorithm ++ ":" ++ encoded := (Prod.mk.inj h).2
    rw [hversion] at hcolon
    simp at hcolon

private theorem pinnedHost_ok : ∀ h ∈ some "ghcr.io", h ≠ "" ∧ '/' ∉ h.toList ∧
    ∀ c ∈ h.toList, isForeign c = false := by
  rintro h ⟨⟩
  exact ⟨by decide, by decide, eq_false_of_all (by decide)⟩

private theorem pinnedPath_ok : "org/engine" ≠ "" ∧ "org/engine".toList.head? ≠ some '/' ∧
    "org/engine".toList.getLast? ≠ some '/' ∧ ':' ∉ "org/engine".toList ∧
      ∀ c ∈ "org/engine".toList, isForeign c = false :=
  ⟨by decide, by decide, by decide, by decide, eq_false_of_all (by decide)⟩

private theorem pinnedTag_ok : ∀ t ∈ some "0.1.0", t ≠ "" ∧ '/' ∉ t.toList ∧ ':' ∉ t.toList ∧
    ∀ c ∈ t.toList, isForeign c = false := by
  rintro t ⟨⟩
  exact ⟨by decide, by decide, by decide, eq_false_of_all (by decide)⟩

private theorem pinnedDigest_ok : ∀ d ∈ some ("sha256" ++ ":" ++
      "0123456789abcdef0123456789abcdef0123456789abcdef0123456789abcdef"),
    ∃ algorithm encoded, d = algorithm ++ ":" ++ encoded ∧ '/' ∉ d.toList ∧
      ':' ∉ encoded.toList ∧ ∀ c ∈ d.toList, isForeign c = false := by
  rintro d ⟨⟩
  exact ⟨_, _, rfl, by decide, by decide, eq_false_of_all (by decide)⟩

/-- A tag and a digest together. -/
private def pinned : Reference where
  host := some "ghcr.io"
  path := "org/engine"
  tag := some "0.1.0"
  digest := some ("sha256" ++ ":" ++
    "0123456789abcdef0123456789abcdef0123456789abcdef0123456789abcdef")
  host_ok := pinnedHost_ok
  path_ok := pinnedPath_ok
  tag_ok := pinnedTag_ok
  digest_ok := pinnedDigest_ok

end Reference

end SparkPulse.Images
