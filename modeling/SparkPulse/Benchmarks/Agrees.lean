import SparkPulse.Benchmarks.Basic
import SparkPulse.Data.Dict

/-!
# The benchmark cache agrees with the table

Between the writing of a row and the telling of the cache a call is *owing*, and at every moment the
cache agrees with the table on every benchmark that no call is owing for. A load of the table that
is still to be put into the cache does too, by the time it is. Two steps can break this. A new record
that is put into the cache may by then have been deleted or run, and the deletion of an expired row,
which does not tell the cache at all, may come after a run that did.
-/

namespace SparkPulse.Benchmarks

open Transition (Guard)

variable {P R : Type}

/-! ## Looking up -/

theorem lookup_insert_if (m : Records P R) (id id' : String) (b : Benchmark P R) :
    (m.insert id b).lookup id' = if id' = id then some b else m.lookup id' := by
  split_ifs with h
  · rw [h, AList.lookup_insert]
  · exact AList.lookup_insert_ne h

theorem lookup_erase_if (m : Records P R) (id id' : String) :
    (m.erase id).lookup id' = if id' = id then none else m.lookup id' := by
  split_ifs with h
  · rw [h, AList.lookup_erase]
  · exact AList.lookup_erase_ne h

theorem mem_load {table : Records P R} (h : table.Keyed) {b : Benchmark P R} :
    b ∈ table.load ↔ table.lookup b.benchmarkId = some b := by
  rw [Records.load, List.mem_mergeSort, List.mem_map]
  constructor
  · rintro ⟨e, he, rfl⟩
    have hlookup : table.lookup e.1 = some e.2 := AList.mem_lookup_iff.mpr he
    rwa [h _ _ hlookup]
  · exact fun hlookup ↦ ⟨_, AList.mem_lookup_iff.mp hlookup, rfl⟩

/-- What is found in a dictionary of some of the stored records. -/
theorem lookup_fill_filter {table : Records P R} (h : table.Keyed) (p : Benchmark P R → Bool)
    (id : String) : (fill (table.load.filter p)).lookup id = (table.lookup id).filter p := by
  rcases Dict.lookup_foldl_insert Benchmark.benchmarkId (fun b ↦ b) (table.load.filter p) ∅ id with
    ⟨b, hb, rfl, hlookup⟩ | ⟨hnone, hlookup⟩
  · obtain ⟨hmem, hp⟩ := List.mem_filter.mp hb
    rw [(mem_load h).mp hmem, Option.filter_some, if_pos hp]
    exact hlookup
  · refine hlookup.trans ?_
    rw [AList.lookup_empty]
    rcases hrow : table.lookup id with _ | b
    · rfl
    · rw [Option.filter_some, if_neg]
      intro hp
      have hkey := h _ _ hrow
      exact hnone b (List.mem_filter.mpr ⟨(mem_load h).mpr (by rw [hkey, hrow]), hp⟩) hkey

theorem lookup_fill_load {table : Records P R} (h : table.Keyed) (id : String) :
    (fill table.load).lookup id = table.lookup id := by
  have hall := lookup_fill_filter h (fun _ ↦ true) id
  rw [List.filter_true] at hall
  rw [hall]
  cases table.lookup id <;> rfl

theorem keyed_fill (rows : List (Benchmark P R)) : (fill rows).Keyed := by
  intro id b hlookup
  rcases Dict.lookup_foldl_insert Benchmark.benchmarkId (fun b ↦ b) rows ∅ id with
    ⟨b', -, rfl, hlookup'⟩ | ⟨-, hlookup'⟩
  · cases hlookup.symm.trans hlookup'
    rfl
  · cases (hlookup.symm.trans hlookup').trans (AList.lookup_empty id)

/-! ## The invariant -/

/-- The benchmark whose row a call has written without telling the cache. -/
def Stage.owes : Stage P R → Option String
  | .created b | .ran b => some b.benchmarkId
  | .evicting id _ => some id
  | _ => none

namespace State

def Owing (s : State P R) (id : String) : Prop := ∃ k, (s.calls k).bind Stage.owes = some id

/-- What a load of the table, on its way to the cache, still has to do with it. -/
structure Copied (s : State P R) (t : Records P R) : Prop where
  keyed : t.Keyed
  named : ∀ id b, t.lookup id = some b → id ∈ s.named
  started : ∀ id b b', t.lookup id = some b → s.table.lookup id = some b' →
    b'.startedAt = b.startedAt
  deleted : ∀ id ∈ s.deleted, t.lookup id = none
  agrees : ∀ id, t.lookup id = s.table.lookup id ∨ s.Owing id ∨
    s.dirty = false ∧ s.table.lookup id = none ∧ ∀ b ∈ t.lookup id, b.expired s.now = true

/-- What is so of a call where it is. -/
def Ok (s : State P R) (k : ℕ) : Stage P R → Prop
  | .called call => ∀ id ∈ call.id?, id ∈ s.named
  | .created b => b.benchmarkId ∈ s.named
  | .running b => s.mutex = some k ∧
    ∃ b', s.table.lookup b.benchmarkId = some b' ∧ b'.startedAt = b.startedAt
  | .ran b => s.mutex = some k ∧ s.table.lookup b.benchmarkId = some b
  | .loaded rows => s.cacheLock = some k ∧ ∃ t : Records P R, rows = t.load ∧ s.Copied t
  | .purging ids listed => s.dirty = false ∧
    (∀ id ∈ ids, id ∈ s.named ∧ ∀ b ∈ s.table.lookup id, b.expired s.now = true) ∧
      ∀ b ∈ listed, b.benchmarkId ∉ s.before k
  | .reloading rows _ => s.cacheLock = some k ∧ s.dirty = true ∧
    ∃ t : Records P R, rows = t.load ∧ s.Copied t
  | .evicting id _ => id ∈ s.named ∧ s.table.lookup id = none

/-- What is so between the steps of all calls. -/
structure Sound (s : State P R) : Prop where
  keyed : s.table.Keyed
  keyedCache : s.cache.Keyed
  namedRow : ∀ id b, s.table.lookup id = some b → id ∈ s.named
  namedDeleted : ∀ id ∈ s.deleted, id ∈ s.named
  blank : s.dirty = true → ∀ id, s.cache.lookup id = none
  agrees : s.dirty = false → ∀ id, s.cache.lookup id = s.table.lookup id ∨ s.Owing id ∨
    s.cache.lookup id = none ∧ ∀ b ∈ s.table.lookup id, b.expired s.now = true
  gone : ∀ id ∈ s.deleted, s.table.lookup id = none ∧ s.cache.lookup id = none
  calls : ∀ k stage, s.calls k = some stage → s.before k ⊆ s.deleted ∧ s.Ok k stage
  answered : ∀ a ∈ s.answers, ∀ b ∈ a.records, b.benchmarkId ∉ a.gone

/-- What a step of one call leaves to the others. -/
structure Spares (s : State P R) (k : ℕ) (t : State P R) : Prop where
  named : s.named ⊆ t.named
  deleted : s.deleted ⊆ t.deleted
  now : s.now ≤ t.now
  before : ∀ k' ≠ k, t.before k' = s.before k'
  dirty : s.dirty = false → t.dirty = false
  calls : ∀ k' ≠ k, t.calls k' = s.calls k'
  /-- Rows are written under new ids, or keep their time. -/
  rows : ∀ id b', t.table.lookup id = some b' →
    id ∉ s.named ∨ ∃ b, s.table.lookup id = some b ∧ b'.startedAt = b.startedAt
  mutex : ∀ k' ≠ k, s.mutex = some k' → t.mutex = some k' ∧ t.table = s.table
  cacheLock : ∀ k' ≠ k, s.cacheLock = some k' → t.cacheLock = some k' ∧ t.dirty = s.dirty ∧
    t.deleted = s.deleted ∧ ∀ id, s.Owing id → t.Owing id
  /-- The cache is told of a row that is changed, unless it is an expired one that is deleted. -/
  told : ∀ id, t.table.lookup id = s.table.lookup id ∨ t.Owing id ∨
    s.dirty = false ∧ t.table.lookup id = none ∧ ∀ b ∈ s.table.lookup id, b.expired s.now = true

variable {s t : State P R} {k : ℕ}

theorem expired_mono {now now' : ℤ} (h : now ≤ now') {b : Benchmark P R}
    (hb : b.expired now = true) : b.expired now' = true := by
  rw [Benchmark.expired, decide_eq_true_eq] at *
  omega

theorem Copied.spares {k' : ℕ} {c : Records P R} (hcopied : s.Copied c) (h : s.Spares k t)
    (hne : k' ≠ k) (hlock : s.cacheLock = some k') : t.Copied c := by
  obtain ⟨-, hdirty, hdeleted, howing⟩ := h.cacheLock k' hne hlock
  refine ⟨hcopied.keyed, fun id b hb ↦ h.named (hcopied.named id b hb), fun id b b' hb hb' ↦ ?_,
    fun id hid ↦ hcopied.deleted id (hdeleted ▸ hid), fun id ↦ ?_⟩
  · rcases h.rows id b' hb' with hnew | ⟨b'', hrow, hstarted⟩
    · exact absurd (hcopied.named id b hb) hnew
    · exact hstarted.trans (hcopied.started id b b'' hb hrow)
  · rcases hcopied.agrees id with hagrees | howed | ⟨hloaded, hnone, hexpired⟩
    · rcases h.told id with htold | htold | ⟨hloaded, hnone, hexpired⟩
      · exact .inl (hagrees.trans htold.symm)
      · exact .inr (.inl htold)
      · exact .inr (.inr ⟨hdirty ▸ hloaded, hnone,
          fun b hb ↦ expired_mono h.now (hexpired b (hagrees ▸ hb))⟩)
    · exact .inr (.inl (howing id howed))
    · rcases h.told id with htold | htold | ⟨-, hnone', -⟩
      · exact .inr (.inr ⟨hdirty ▸ hloaded, htold.trans hnone,
          fun b hb ↦ expired_mono h.now (hexpired b hb)⟩)
      · exact .inr (.inl htold)
      · exact .inr (.inr ⟨hdirty ▸ hloaded, hnone',
          fun b hb ↦ expired_mono h.now (hexpired b hb)⟩)

/-- Nothing that is so of a call is undone by a step of another. -/
theorem Ok.spares {k' : ℕ} {stage : Stage P R} (hok : s.Ok k' stage) (h : s.Spares k t)
    (hne : k' ≠ k) : t.Ok k' stage := by
  have hnone {id : String} (hnamed : id ∈ s.named) (hrow : s.table.lookup id = none) :
      t.table.lookup id = none := by
    rw [Option.eq_none_iff_forall_ne_some]
    intro b hb
    rcases h.rows id b hb with hnew | ⟨b', hb', -⟩
    · exact hnew hnamed
    · rw [hrow] at hb'
      cases hb'
  rcases stage with call | b | b | b | rows | ⟨ids, listed⟩ | ⟨rows, id⟩ | ⟨id, removed⟩
  · exact fun id hid ↦ h.named (hok id hid)
  · exact h.named hok
  · obtain ⟨hmutex, htable⟩ := h.mutex k' hne hok.1
    exact ⟨hmutex, htable ▸ hok.2⟩
  · obtain ⟨hmutex, htable⟩ := h.mutex k' hne hok.1
    exact ⟨hmutex, htable ▸ hok.2⟩
  · obtain ⟨hlock, c, rfl, hcopied⟩ := hok
    exact ⟨(h.cacheLock k' hne hlock).1, c, rfl, hcopied.spares h hne hlock⟩
  · obtain ⟨hdirty, hids, hlisted⟩ := hok
    refine ⟨h.dirty hdirty, fun id hid ↦ ⟨h.named (hids id hid).1, fun b hb ↦ ?_⟩, ?_⟩
    · rcases h.rows id b hb with hnew | ⟨b', hb', hstarted⟩
      · exact absurd (hids id hid).1 hnew
      · have hexpired := expired_mono h.now ((hids id hid).2 b' hb')
        rwa [Benchmark.expired, hstarted]
    · rwa [h.before k' hne]
  · obtain ⟨hlock, hdirty, c, rfl, hcopied⟩ := hok
    obtain ⟨hlock', hdirty', -⟩ := h.cacheLock k' hne hlock
    exact ⟨hlock', hdirty' ▸ hdirty, c, rfl, hcopied.spares h hne hlock⟩
  · exact ⟨h.named hok.1, hnone hok.1 hok.2⟩

/-- The calls after a step of one of them. -/
theorem Spares.sound_calls (h : s.Spares k t) (hs : s.Sound)
    (hk : ∀ stage, t.calls k = some stage → t.before k ⊆ t.deleted ∧ t.Ok k stage) :
    ∀ k' stage, t.calls k' = some stage → t.before k' ⊆ t.deleted ∧ t.Ok k' stage := by
  intro k' stage hstage
  by_cases hne : k' = k
  · exact hne ▸ hk stage (hne ▸ hstage)
  · rw [h.calls k' hne] at hstage
    obtain ⟨hbefore, hok⟩ := hs.calls k' stage hstage
    exact ⟨h.before k' hne ▸ List.Subset.trans hbefore h.deleted, hok.spares h hne⟩

/-! ## Steps that write no row and tell the cache nothing -/

theorem Owing.keep {stage : Option (Stage P R)} {id : String} (howing : s.Owing id)
    (hcalls : t.calls = Function.update s.calls k stage)
    (hk : (s.calls k).bind Stage.owes = some id → stage.bind Stage.owes = some id) :
    t.Owing id := by
  obtain ⟨k', howes⟩ := howing
  refine ⟨k', ?_⟩
  rw [hcalls, Function.update_apply]
  split_ifs with h
  · exact hk (h ▸ howes)
  · exact howes

theorem owing_now {stage : Stage P R} {id : String}
    (hcalls : t.calls = Function.update s.calls k (some stage)) (howes : stage.owes = some id) :
    t.Owing id := by
  refine ⟨k, ?_⟩
  rw [hcalls, Function.update_self]
  exact howes

theorem calls_ne {stage : Option (Stage P R)} (hcalls : t.calls = Function.update s.calls k stage)
    {k' : ℕ} (hne : k' ≠ k) : t.calls k' = s.calls k' := by
  rw [hcalls, Function.update_of_ne hne]

/-- A call goes on, and the table and the cache are what they were. -/
theorem Sound.moves {stage : Option (Stage P R)} (hs : s.Sound)
    (hcalls : t.calls = Function.update s.calls k stage)
    (howes : ∀ id, (s.calls k).bind Stage.owes ≠ some id)
    (htable : t.table = s.table) (hcache : t.cache = s.cache) (hdirty : t.dirty = s.dirty)
    (hdeleted : t.deleted = s.deleted) (hnow : t.now = s.now) (hnamed : s.named ⊆ t.named)
    (hbefore : ∀ k' ≠ k, t.before k' = s.before k')
    (hmutex : ∀ k' ≠ k, s.mutex = some k' → t.mutex = some k')
    (hlock : ∀ k' ≠ k, s.cacheLock = some k' → t.cacheLock = some k')
    (hanswered : ∀ a ∈ t.answers, ∀ b ∈ a.records, b.benchmarkId ∉ a.gone)
    (hk : ∀ now, stage = some now → t.before k ⊆ t.deleted ∧ t.Ok k now) : t.Sound := by
  have howing {id : String} (h : s.Owing id) : t.Owing id :=
    h.keep hcalls fun hid ↦ absurd hid (howes id)
  have hspares : s.Spares k t :=
    { named := hnamed
      deleted := hdeleted ▸ List.Subset.refl _
      now := hnow ▸ Int.le_refl _
      before := hbefore
      dirty := fun h ↦ hdirty ▸ h
      calls := fun _ ↦ calls_ne hcalls
      rows := fun id b hb ↦ .inr ⟨b, htable ▸ hb, rfl⟩
      mutex := fun k' hne h ↦ ⟨hmutex k' hne h, htable⟩
      cacheLock := fun k' hne h ↦ ⟨hlock k' hne h, hdirty, hdeleted, fun _ ↦ howing⟩
      told := fun id ↦ .inl (by rw [htable]) }
  refine ⟨htable ▸ hs.keyed, hcache ▸ hs.keyedCache, fun id b hb ↦ ?_, fun id hid ↦ ?_, ?_, ?_, ?_,
    hspares.sound_calls hs fun now hnow ↦ hk now ?_, hanswered⟩
  · exact hnamed (hs.namedRow id b (htable ▸ hb))
  · exact hnamed (hs.namedDeleted id (hdeleted ▸ hid))
  · rw [hdirty, hcache]
    exact hs.blank
  · rw [hdirty, hcache, htable, hnow]
    exact fun h id ↦ (hs.agrees h id).imp_right (Or.imp_left howing)
  · rw [hdeleted, htable, hcache]
    exact hs.gone
  · rwa [hcalls, Function.update_self] at hnow

theorem Sound.waits (hs : s.Sound) (time : ℕ) :
    { s with now := s.now + time : State P R }.Sound := by
  have hle : s.now ≤ s.now + time := by omega
  have hspares (k : ℕ) : s.Spares k { s with now := s.now + time } :=
    { named := List.Subset.refl _
      deleted := List.Subset.refl _
      now := hle
      before := fun _ _ ↦ rfl
      dirty := fun h ↦ h
      calls := fun _ _ ↦ rfl
      rows := fun _ b hb ↦ .inr ⟨b, hb, rfl⟩
      mutex := fun _ _ h ↦ ⟨h, rfl⟩
      cacheLock := fun _ _ h ↦ ⟨h, rfl, rfl, fun _ h ↦ h⟩
      told := fun _ ↦ .inl rfl }
  refine ⟨hs.keyed, hs.keyedCache, hs.namedRow, hs.namedDeleted, hs.blank, fun hdirty id ↦ ?_,
    hs.gone, fun k stage hstage ↦ ?_, hs.answered⟩
  · refine (hs.agrees hdirty id).imp_right (Or.imp_right ?_)
    exact fun ⟨hnone, hrow⟩ ↦ ⟨hnone, fun b hb ↦ expired_mono hle (hrow b hb)⟩
  · obtain ⟨hbefore, hok⟩ := hs.calls k stage hstage
    exact ⟨hbefore, hok.spares (hspares (k + 1)) (Nat.lt_succ_self k).ne⟩

/-! ## Steps that write a row -/

/-- A call has written or deleted a row, and owes the cache for it. -/
theorem Sound.writes {stage stage' : Stage P R} {id : String} (hs : s.Sound)
    (hk : s.calls k = some stage) (hcalls : t.calls = Function.update s.calls k (some stage'))
    (hbefore : stage.owes = none) (hafter : stage'.owes = some id)
    (hmutex : ∀ k' ≠ k, s.mutex ≠ some k') (hsame : t.before = s.before ∧ t.deleted = s.deleted ∧
      t.cache = s.cache ∧ t.dirty = s.dirty ∧ t.cacheLock = s.cacheLock ∧ t.now = s.now ∧
      t.answers = s.answers)
    (hnamed : s.named ⊆ t.named)
    (hother : ∀ id' ≠ id, t.table.lookup id' = s.table.lookup id')
    (hrow : ∀ b, t.table.lookup id = some b → b.benchmarkId = id ∧ id ∈ t.named ∧
      id ∉ s.deleted ∧
      (id ∉ s.named ∨ ∃ b', s.table.lookup id = some b' ∧ b.startedAt = b'.startedAt))
    (hok : t.Ok k stage') : t.Sound := by
  obtain ⟨hbeforeSame, hdeleted, hcache, hdirty, hlock, hnow, hanswers⟩ := hsame
  have hnowOwing : t.Owing id := owing_now hcalls hafter
  have howing {id' : String} (h : s.Owing id') : t.Owing id' := by
    refine h.keep hcalls fun hid ↦ ?_
    rw [hk, Option.bind_some, hbefore] at hid
    cases hid
  have hspares : s.Spares k t :=
    { named := hnamed
      deleted := hdeleted ▸ List.Subset.refl _
      now := hnow ▸ Int.le_refl _
      before := fun _ _ ↦ by rw [hbeforeSame]
      dirty := fun h ↦ hdirty ▸ h
      calls := fun _ ↦ calls_ne hcalls
      rows := fun id' b hb ↦ by
        by_cases hid : id' = id
        · subst hid
          exact (hrow b hb).2.2.2
        · exact .inr ⟨b, hother id' hid ▸ hb, rfl⟩
      mutex := fun k' hne h ↦ absurd h (hmutex k' hne)
      cacheLock := fun k' hne h ↦ ⟨hlock ▸ h, hdirty, hdeleted, fun _ ↦ howing⟩
      told := fun id' ↦ by
        by_cases hid : id' = id
        · exact .inr (.inl (hid ▸ hnowOwing))
        · exact .inl (hother id' hid) }
  refine ⟨fun id' b hb ↦ ?_, hcache ▸ hs.keyedCache, fun id' b hb ↦ ?_, fun id' hid ↦ ?_, ?_,
    fun hclean id' ↦ ?_, fun id' hid' ↦ ?_, hspares.sound_calls hs fun now hnow ↦ ?_, ?_⟩
  · by_cases hid : id' = id
    · subst hid
      exact (hrow b hb).1
    · exact hs.keyed id' b (hother id' hid ▸ hb)
  · by_cases hid : id' = id
    · subst hid
      exact (hrow b hb).2.1
    · exact hnamed (hs.namedRow id' b (hother id' hid ▸ hb))
  · exact hnamed (hs.namedDeleted id' (hdeleted ▸ hid))
  · rw [hdirty, hcache]
    exact hs.blank
  · by_cases hid : id' = id
    · exact .inr (.inl (hid ▸ hnowOwing))
    · rw [hcache, hother id' hid, hnow]
      exact (hs.agrees (hdirty ▸ hclean) id').imp_right (Or.imp_left howing)
  · rw [hdeleted] at hid'
    rw [hcache]
    refine ⟨?_, (hs.gone id' hid').2⟩
    by_cases hid : id' = id
    · subst hid
      exact Option.eq_none_iff_forall_ne_some.mpr fun b hb ↦ (hrow b hb).2.2.1 hid'
    · rw [hother id' hid]
      exact (hs.gone id' hid').1
  · rw [hcalls, Function.update_self] at hnow
    cases hnow
    rw [hbeforeSame, hdeleted]
    exact ⟨(hs.calls k stage hk).1, hok⟩
  · rw [hanswers]
    exact hs.answered

theorem Sound.creates {call : Call P} (hs : s.Sound) (hk : s.calls k = some (.called call))
    (hmutex : s.mutex = none) (b : Benchmark P R) (hnew : b.benchmarkId ∉ s.named) :
    { s.set k (some (.created b)) with
      table := s.table.insert b.benchmarkId b
      named := b.benchmarkId :: s.named : State P R }.Sound := by
  refine hs.writes hk rfl rfl rfl (fun _ _ h ↦ nomatch hmutex.symm.trans h)
    ⟨rfl, rfl, rfl, rfl, rfl, rfl, rfl⟩ (List.subset_cons_self _ _) (fun id hid ↦ ?_)
    (fun b' hb' ↦ ?_) List.mem_cons_self
  · exact AList.lookup_insert_ne hid
  · cases (AList.lookup_insert _).symm.trans hb'
    exact ⟨rfl, List.mem_cons_self, fun h ↦ hnew (hs.namedDeleted _ h), .inl hnew⟩

theorem Sound.finishes {b : Benchmark P R} (hs : s.Sound) (hk : s.calls k = some (.running b))
    (outcome : Except String R) :
    { s.set k (some (.ran (b.finish s.now outcome))) with
      table := s.table.insert b.benchmarkId (b.finish s.now outcome) : State P R }.Sound := by
  obtain ⟨hmutex, b', hrow, hstarted⟩ := (hs.calls k _ hk).2
  refine hs.writes hk rfl rfl rfl (fun k' hne h ↦ ?_) ⟨rfl, rfl, rfl, rfl, rfl, rfl, rfl⟩
    (List.Subset.refl _) (fun id hid ↦ ?_) (fun b'' hb'' ↦ ?_)
    ⟨hmutex, AList.lookup_insert _⟩
  · cases hmutex.symm.trans h
    exact hne rfl
  · exact AList.lookup_insert_ne hid
  · cases (AList.lookup_insert _).symm.trans hb''
    refine ⟨rfl, hs.namedRow _ b' hrow, fun h ↦ ?_, .inr ⟨b', hrow, hstarted.symm⟩⟩
    cases (hs.gone _ h).1.symm.trans hrow

theorem Sound.deletes {id : String} (hs : s.Sound) (hk : s.calls k = some (.called (.delete id)))
    (hmutex : s.mutex = none) (removed : Bool) :
    { s.set k (some (.evicting id removed)) with table := s.table.erase id : State P R }.Sound := by
  refine hs.writes hk rfl rfl rfl (fun _ _ h ↦ nomatch hmutex.symm.trans h)
    ⟨rfl, rfl, rfl, rfl, rfl, rfl, rfl⟩ (List.Subset.refl _) (fun id hid ↦ ?_) (fun b hb ↦ ?_)
    ⟨(hs.calls k _ hk).2 id rfl, AList.lookup_erase _ _⟩
  · exact AList.lookup_erase_ne hid
  · cases (AList.lookup_erase _ _).symm.trans hb

/-! ## Steps that tell the cache -/

/-- `_cache_put`, of the row that is stored or of one that the cache will be told more of. -/
theorem Sound.puts {stage : Stage P R} {b : Benchmark P R} {m : Option ℕ} (hs : s.Sound)
    (hk : s.calls k = some stage) (howes : stage.owes = some b.benchmarkId)
    (hlock : s.cacheLock = none) (hmutex : ∀ k' ≠ k, s.mutex = some k' → m = some k')
    (hput : s.dirty = true ∨ s.table.lookup b.benchmarkId = some b ∨
      b.benchmarkId ∉ s.deleted ∧ ∃ k' ≠ k, (s.calls k').bind Stage.owes = some b.benchmarkId) :
    { (s.cachePut b).set k none with mutex := m : State P R }.Sound := by
  set t : State P R := { (s.cachePut b).set k none with mutex := m } with ht
  have hsame : t.table = s.table ∧ t.dirty = s.dirty ∧ t.calls = Function.update s.calls k none ∧
      t.named = s.named ∧ t.deleted = s.deleted ∧ t.before = s.before ∧ t.now = s.now ∧
      t.cacheLock = s.cacheLock ∧ t.answers = s.answers := by
    rw [ht, cachePut]
    split_ifs <;> exact ⟨rfl, rfl, rfl, rfl, rfl, rfl, rfl, rfl, rfl⟩
  obtain ⟨htable, hdirty, hcalls, hnamed, hdeleted, hbefore, hnow, hlock', hanswers⟩ := hsame
  have hcache : s.dirty = true ∧ t.cache = s.cache ∨
      s.dirty = false ∧ t.cache = s.cache.insert b.benchmarkId b := by
    rw [ht, cachePut]
    split_ifs with h
    · exact .inl ⟨h, rfl⟩
    · exact .inr ⟨Bool.eq_false_iff.mpr h, rfl⟩
  have hspares : s.Spares k t :=
    { named := hnamed ▸ List.Subset.refl _
      deleted := hdeleted ▸ List.Subset.refl _
      now := hnow ▸ Int.le_refl _
      before := fun _ _ ↦ by rw [hbefore]
      dirty := fun h ↦ hdirty ▸ h
      calls := fun _ ↦ calls_ne hcalls
      rows := fun _ b hb ↦ .inr ⟨b, htable ▸ hb, rfl⟩
      mutex := fun k' hne h ↦ ⟨hmutex k' hne h, htable⟩
      cacheLock := fun _ _ h ↦ nomatch hlock.symm.trans h
      told := fun _ ↦ .inl (by rw [htable]) }
  refine ⟨htable ▸ hs.keyed, ?_, ?_, ?_, fun hblank ↦ ?_, fun hclean id ↦ ?_, fun id hid ↦ ?_,
    hspares.sound_calls hs fun now hnow ↦ ?_, ?_⟩
  · rcases hcache with ⟨-, hcache⟩ | ⟨-, hcache⟩
    · exact hcache ▸ hs.keyedCache
    · intro id b' hb'
      rw [hcache, lookup_insert_if] at hb'
      split_ifs at hb' with hid
      · cases hb'
        exact hid.symm
      · exact hs.keyedCache id b' hb'
  · rw [htable, hnamed]
    exact hs.namedRow
  · rw [hdeleted, hnamed]
    exact hs.namedDeleted
  · rcases hcache with ⟨hblank', hcache⟩ | ⟨hclean, -⟩
    · exact hcache ▸ hs.blank hblank'
    · cases (hdirty.symm.trans hblank).symm.trans hclean
  · rw [hdirty] at hclean
    rcases hcache with ⟨hblank, -⟩ | ⟨-, hcache⟩
    · cases hblank.symm.trans hclean
    rw [hcache, htable, hnow, lookup_insert_if]
    split_ifs with hid
    · rcases hput with hblank | hrow | ⟨-, k', hne, howes'⟩
      · cases hblank.symm.trans hclean
      · exact .inl (hid ▸ hrow.symm)
      · exact .inr (.inl ⟨k', by rw [calls_ne hcalls hne, hid, howes']⟩)
    · refine (hs.agrees hclean id).imp_right (Or.imp_left fun howing ↦ ?_)
      refine howing.keep hcalls fun h ↦ ?_
      rw [hk, Option.bind_some, howes] at h
      exact absurd (Option.some_inj.mp h).symm hid
  · rw [hdeleted] at hid
    rw [htable]
    obtain ⟨hrow, hcached⟩ := hs.gone id hid
    refine ⟨hrow, ?_⟩
    rcases hcache with ⟨-, hcache⟩ | ⟨hclean, hcache⟩
    · exact hcache ▸ hcached
    rw [hcache, lookup_insert_if, if_neg, hcached]
    rintro rfl
    rcases hput with hblank | hrow' | ⟨hkept, -⟩
    · cases hblank.symm.trans hclean
    · cases hrow.symm.trans hrow'
    · exact hkept hid
  · rw [hcalls, Function.update_self] at hnow
    cases hnow
  · rw [hanswers]
    exact hs.answered

theorem Sound.evicts {id : String} {removed : Bool} (hs : s.Sound)
    (hk : s.calls k = some (.evicting id removed)) (hlock : s.cacheLock = none) :
    { s.set k none with
      cache := s.cache.erase id
      deleted := if removed then id :: s.deleted else s.deleted : State P R }.Sound := by
  obtain ⟨hnamed, hrow⟩ := (hs.calls k _ hk).2
  set t : State P R := { s.set k none with
    cache := s.cache.erase id
    deleted := if removed then id :: s.deleted else s.deleted } with ht
  have hcalls : t.calls = Function.update s.calls k none := rfl
  have hcached (id' : String) :
      t.cache.lookup id' = if id' = id then none else s.cache.lookup id' := lookup_erase_if _ _ _
  have hdeleted {id' : String} (h : id' ∈ t.deleted) : id' = id ∨ id' ∈ s.deleted := by
    rw [ht] at h
    rcases removed
    · exact .inr h
    · exact List.mem_cons.mp h
  have hsubset : s.deleted ⊆ t.deleted := by
    rcases removed
    · exact List.Subset.refl _
    · exact List.subset_cons_self _ _
  have hspares : s.Spares k t :=
    { named := List.Subset.refl _
      deleted := hsubset
      now := Int.le_refl _
      before := fun _ _ ↦ rfl
      dirty := fun h ↦ h
      calls := fun _ ↦ calls_ne hcalls
      rows := fun _ b hb ↦ .inr ⟨b, hb, rfl⟩
      mutex := fun _ _ h ↦ ⟨h, rfl⟩
      cacheLock := fun _ _ h ↦ nomatch hlock.symm.trans h
      told := fun _ ↦ .inl rfl }
  refine ⟨hs.keyed, fun id' b hb ↦ ?_, hs.namedRow, fun id' hid' ↦ ?_, fun hblank id' ↦ ?_,
    fun hclean id' ↦ ?_, fun id' hid' ↦ ?_, hspares.sound_calls hs fun now hnow ↦ ?_, hs.answered⟩
  · rw [hcached] at hb
    split_ifs at hb
    exact hs.keyedCache id' b hb
  · rcases hdeleted hid' with rfl | hid'
    · exact hnamed
    · exact hs.namedDeleted id' hid'
  · rw [hcached, hs.blank hblank, ite_self]
  · rw [hcached]
    split_ifs with hid
    · exact .inl (hid ▸ hrow.symm)
    · refine (hs.agrees hclean id').imp_right (Or.imp_left fun howing ↦ ?_)
      refine howing.keep hcalls fun h ↦ ?_
      rw [hk] at h
      exact absurd (Option.some_inj.mp h).symm hid
  · rw [hcached]
    split_ifs with hid
    · exact ⟨hid ▸ hrow, rfl⟩
    · exact hs.gone id' ((hdeleted hid').resolve_left hid)
  · rw [hcalls, Function.update_self] at hnow
    cases hnow

/-- An expired row is deleted that the cache does not have. -/
theorem Sound.purges {id : String} {ids : List String} {listed : List (Benchmark P R)}
    (hs : s.Sound) (hk : s.calls k = some (.purging (id :: ids) listed)) (hmutex : s.mutex = none)
    (hput : s.table.lookup id = none ∨ s.cache.lookup id = none) :
    { s.set k (some (.purging ids listed)) with table := s.table.erase id : State P R }.Sound := by
  obtain ⟨hbefore, hdirty, hids, hlisted⟩ := hs.calls k _ hk
  set t : State P R := { s.set k (some (.purging ids listed)) with
    table := s.table.erase id } with ht
  have hcalls : t.calls = Function.update s.calls k (some (.purging ids listed)) := rfl
  have hrow (id' : String) : t.table.lookup id' = if id' = id then none else s.table.lookup id' :=
    lookup_erase_if _ _ _
  have hkept {id' : String} {b : Benchmark P R} (h : t.table.lookup id' = some b) :
      s.table.lookup id' = some b := by
    rw [hrow] at h
    split_ifs at h
    exact h
  have howing {id' : String} (h : s.Owing id') : t.Owing id' := by
    refine h.keep hcalls fun hid ↦ ?_
    rw [hk] at hid
    cases hid
  have hspares : s.Spares k t :=
    { named := List.Subset.refl _
      deleted := List.Subset.refl _
      now := Int.le_refl _
      before := fun _ _ ↦ rfl
      dirty := fun h ↦ h
      calls := fun _ ↦ calls_ne hcalls
      rows := fun _ b hb ↦ .inr ⟨b, hkept hb, rfl⟩
      mutex := fun _ _ h ↦ nomatch hmutex.symm.trans h
      cacheLock := fun _ _ h ↦ ⟨h, rfl, rfl, fun _ ↦ howing⟩
      told := fun id' ↦ by
        rw [hrow]
        split_ifs with hid
        · exact .inr (.inr ⟨hdirty, rfl, hid ▸ (hids id List.mem_cons_self).2⟩)
        · exact .inl rfl }
  refine ⟨fun id' b hb ↦ hs.keyed id' b (hkept hb), hs.keyedCache,
    fun id' b hb ↦ hs.namedRow id' b (hkept hb), hs.namedDeleted, hs.blank, fun hclean id' ↦ ?_,
    fun id' hid' ↦ ?_, hspares.sound_calls hs fun now hnow ↦ ?_, hs.answered⟩
  · rcases hs.agrees hclean id' with hagrees | howed | ⟨hnone, hexpired⟩
    · rw [hrow]
      split_ifs with hid
      · subst hid
        exact .inl (hput.elim hagrees.trans fun h ↦ h)
      · exact .inl hagrees
    · exact .inr (.inl (howing howed))
    · exact .inr (.inr ⟨hnone, fun b hb ↦ hexpired b (hkept hb)⟩)
  · obtain ⟨hgone, hcached⟩ := hs.gone id' hid'
    rw [hrow, hgone, ite_self]
    exact ⟨rfl, hcached⟩
  · rw [hcalls, Function.update_self] at hnow
    cases hnow
    refine ⟨hbefore, hdirty, fun id' hid' ↦ ?_, hlisted⟩
    obtain ⟨hnamed, hexpired⟩ := hids id' (List.mem_cons_of_mem _ hid')
    exact ⟨hnamed, fun b hb ↦ hexpired b (hkept hb)⟩

/-! ## Loads -/

/-- A load of the table is put into the cache, or what of it is not past retention. -/
theorem Sound.refills {stage : Stage P R} {stage' : Option (Stage P R)} {c : Records P R}
    {p : Benchmark P R → Bool} {answers : List (Answer P R)} (hs : s.Sound)
    (hk : s.calls k = some stage) (howes : stage.owes = none) (hlock : s.cacheLock = some k)
    (hcopied : s.Copied c) (hkept : ∀ b, p b = false → b.expired s.now = true)
    (hdropped : s.dirty = false → ∀ b, b.expired s.now = true → p b = false)
    (hanswered : ∀ a ∈ answers, ∀ b ∈ a.records, b.benchmarkId ∉ a.gone)
    (hstage : ∀ now, stage' = some now →
      { (s.refill (c.load.filter p)).set k stage' with answers : State P R }.Ok k now) :
    { (s.refill (c.load.filter p)).set k stage' with answers : State P R }.Sound := by
  set t : State P R := { (s.refill (c.load.filter p)).set k stage' with answers } with ht
  have hcalls : t.calls = Function.update s.calls k stage' := rfl
  have hcached (id : String) : t.cache.lookup id = (c.lookup id).filter p :=
    lookup_fill_filter hcopied.keyed p id
  have howing {id : String} (h : s.Owing id) : t.Owing id := by
    refine h.keep hcalls fun hid ↦ ?_
    rw [hk, Option.bind_some, howes] at hid
    cases hid
  have hspares : s.Spares k t :=
    { named := List.Subset.refl _
      deleted := List.Subset.refl _
      now := Int.le_refl _
      before := fun _ _ ↦ rfl
      dirty := fun _ ↦ rfl
      calls := fun _ ↦ calls_ne hcalls
      rows := fun _ b hb ↦ .inr ⟨b, hb, rfl⟩
      mutex := fun _ _ h ↦ ⟨h, rfl⟩
      cacheLock := fun k' hne h ↦ absurd (Option.some_inj.mp (h.symm.trans hlock)) hne
      told := fun _ ↦ .inl rfl }
  refine ⟨hs.keyed, keyed_fill _, hs.namedRow, hs.namedDeleted, nofun, fun _ id ↦ ?_,
    fun id hid ↦ ⟨(hs.gone id hid).1, ?_⟩, hspares.sound_calls hs fun now hnow ↦ ?_, hanswered⟩
  · rw [hcached]
    rcases hcopied.agrees id with hagrees | howed | ⟨hclean, hnone, hexpired⟩
    · rcases hrow : c.lookup id with _ | b
      · exact .inl (hrow.symm.trans hagrees)
      · rw [Option.filter_some]
        split_ifs with hb
        · exact .inl (hrow.symm.trans hagrees)
        · refine .inr (.inr ⟨rfl, fun b' hb' ↦ ?_⟩)
          cases (hrow.symm.trans hagrees).trans hb'
          exact hkept b (Bool.eq_false_iff.mpr hb)
    · exact .inr (.inl (howing howed))
    · refine .inl (Eq.trans ?_ hnone.symm)
      rcases hrow : c.lookup id with _ | b
      · rfl
      · rw [Option.filter_some, hdropped hclean b (hexpired b hrow), if_neg Bool.false_ne_true]
  · rw [hcached, hcopied.deleted id hid, Option.filter_none]
  · rw [hcalls, Function.update_self] at hnow
    exact ⟨(hs.calls k stage hk).1, hstage now hnow⟩

/-- What a load has, none of it deleted. -/
theorem Copied.kept {c : Records P R} (h : s.Copied c) {b : Benchmark P R} (hb : b ∈ c.load) :
    b.benchmarkId ∉ s.deleted := by
  intro hdeleted
  cases (h.deleted _ hdeleted).symm.trans ((mem_load h.keyed).mp hb)

/-- The table itself, when it has just been read. -/
theorem Sound.copied (hs : s.Sound) (htable : t.table = s.table) (hnamed : t.named = s.named)
    (hdeleted : t.deleted = s.deleted) : t.Copied s.table where
  keyed := hs.keyed
  named id b hb := hnamed ▸ hs.namedRow id b hb
  started id b b' hb hb' := by
    rw [htable] at hb'
    cases hb.symm.trans hb'
    rfl
  deleted id hid := (hs.gone id (hdeleted ▸ hid)).1
  agrees _ := .inl (by rw [htable])

/-- A listing or a lookup returns. -/
theorem Sound.answered_cons {records : List (Benchmark P R)} (hs : s.Sound)
    (hrecords : ∀ b ∈ records, b.benchmarkId ∉ s.before k) :
    ∀ a ∈ ⟨s.before k, records⟩ :: s.answers, ∀ b ∈ a.records, b.benchmarkId ∉ a.gone := by
  intro a ha
  rcases List.mem_cons.mp ha with rfl | ha
  · exact hrecords
  · exact hs.answered a ha

/-! ## Every step -/

/-- A call that has nothing of its own to tell goes on or returns. -/
theorem Sound.steps {stage : Stage P R} {stage' : Option (Stage P R)} {mutex cacheLock : Option ℕ}
    (hs : s.Sound) (hk : s.calls k = some stage) (howes : stage.owes = none)
    (hmutex : ∀ k' ≠ k, s.mutex = some k' → mutex = some k')
    (hlock : ∀ k' ≠ k, s.cacheLock = some k' → cacheLock = some k')
    (hstage : ∀ now, stage' = some now →
      { s.set k stage' with mutex, cacheLock : State P R }.Ok k now) :
    { s.set k stage' with mutex, cacheLock : State P R }.Sound := by
  refine hs.moves rfl (fun id h ↦ ?_) rfl rfl rfl rfl rfl (List.Subset.refl _) (fun _ _ ↦ rfl)
    hmutex hlock hs.answered fun now hnow ↦ ⟨(hs.calls k stage hk).1, hstage now hnow⟩
  rw [hk, Option.bind_some, howes] at h
  cases h

theorem Sound.answers {stage : Stage P R} {records : List (Benchmark P R)} (hs : s.Sound)
    (hk : s.calls k = some stage) (howes : stage.owes = none)
    (hrecords : ∀ b ∈ records, b.benchmarkId ∉ s.before k) : (s.answer k records).Sound := by
  refine hs.moves rfl (fun id h ↦ ?_) rfl rfl rfl rfl rfl (List.Subset.refl _) (fun _ _ ↦ rfl)
    (fun _ _ h ↦ h) (fun _ _ h ↦ h) (hs.answered_cons hrecords) nofun
  rw [hk, Option.bind_some, howes] at h
  cases h

theorem Untold.owing {id : String} {b : Benchmark P R} (h : s.Untold id)
    (hk : s.calls k = some (.created b)) : ∃ k' ≠ k, (s.calls k').bind Stage.owes = some id := by
  obtain ⟨k', htold⟩ := h
  refine ⟨k', ?_, ?_⟩
  · rintro rfl
    rcases htold with ⟨b', hran, -⟩ | ⟨removed, hevicting⟩
    · cases hk.symm.trans hran
    · cases hk.symm.trans hevicting
  · rcases htold with ⟨b', hran, rfl⟩ | ⟨removed, hevicting⟩
    · rw [hran]
      rfl
    · rw [hevicting]
      rfl

theorem Sound.of_advance {stage : Stage P R} (hs : s.Sound) (hk : s.calls k = some stage)
    (htimely : timely s (.advance k)) (h : advance s k stage = some t) : t.Sound := by
  obtain ⟨hbefore, hok⟩ := hs.calls k stage hk
  rw [timely, hk] at htimely
  rcases stage with (_ | id | _ | id | id) | b | _ | b | rows | ⟨_ | ⟨id, ids⟩, listed⟩ |
    ⟨rows, id⟩ | ⟨id, removed⟩ <;> rw [advance] at h
  · cases h
  · split_ifs at h with hmutex
    rw [Option.not_isSome_iff_eq_none] at hmutex
    rcases hrow : s.table.lookup id with _ | b <;> rw [hrow] at h <;> cases h
    · exact hs.steps hk rfl (fun _ _ h ↦ h) (fun _ _ h ↦ h) nofun
    · refine hs.steps hk rfl (fun _ _ h ↦ nomatch hmutex.symm.trans h) (fun _ _ h ↦ h) ?_
      rintro _ ⟨⟩
      refine ⟨rfl, b, ?_, rfl⟩
      exact hs.keyed _ _ hrow ▸ hrow
  · split_ifs at h with hlock
    rw [Option.not_isSome_iff_eq_none] at hlock
    cases h
    refine hs.steps hk rfl (fun _ _ h ↦ h) (fun _ _ h ↦ nomatch hlock.symm.trans h) ?_
    rintro _ ⟨⟩
    exact ⟨rfl, s.table, rfl, hs.copied rfl rfl rfl⟩
  · split_ifs at h with hlock hdirty <;> cases h
    · rw [Option.not_isSome_iff_eq_none] at hlock
      refine hs.steps hk rfl (fun _ _ h ↦ h) (fun _ _ h ↦ nomatch hlock.symm.trans h) ?_
      rintro _ ⟨⟩
      exact ⟨rfl, hdirty, s.table, rfl, hs.copied rfl rfl rfl⟩
    · refine hs.answers hk rfl fun b hb hgone ↦ ?_
      rw [Option.mem_toList] at hb
      cases hs.keyedCache _ _ hb
      cases (hs.gone _ (hbefore hgone)).2.symm.trans hb
  · split_ifs at h with hmutex
    rw [Option.not_isSome_iff_eq_none] at hmutex
    cases h
    exact hs.deletes hk hmutex _
  · split_ifs at h with hlock
    rw [Option.not_isSome_iff_eq_none] at hlock
    cases h
    refine hs.puts hk rfl hlock (fun _ _ h ↦ ?_) ?_ (m := (s.cachePut b).mutex)
    · rw [cachePut]
      split_ifs <;> exact h
    · exact htimely.imp_right (Or.imp_right (And.imp_right fun h ↦ h.owing hk))
  · cases h
  · split_ifs at h with hlock
    rw [Option.not_isSome_iff_eq_none] at hlock
    cases h
    refine hs.puts hk rfl hlock (fun k' hne h ↦ ?_) (.inr (.inl hok.2))
    exact absurd (Option.some_inj.mp (h.symm.trans hok.1)) hne
  · obtain ⟨hlock, c, rfl, hcopied⟩ := hok
    have hlisted : ∀ b ∈ newestFirst (purgeExpired s.now c.load), b.benchmarkId ∉ s.before k :=
      fun b hb hgone ↦
        hcopied.kept (List.mem_filter.mp (List.mem_mergeSort.mp hb)).1 (hbefore hgone)
    have hkept (b : Benchmark P R) : (!b.expired s.now) = false → b.expired s.now = true := by simp
    have hdropped (b : Benchmark P R) : b.expired s.now = true → (!b.expired s.now) = false := by
      simp
    split_ifs at h <;> cases h
    · exact hs.refills hk rfl hlock hcopied hkept (fun _ ↦ hdropped) (hs.answered_cons hlisted)
        nofun
    · refine hs.refills hk rfl hlock hcopied hkept (fun _ ↦ hdropped) hs.answered ?_
      rintro _ ⟨⟩
      refine ⟨rfl, fun id hid ↦ ?_, hlisted⟩
      obtain ⟨b, hb, rfl⟩ := List.mem_map.mp hid
      obtain ⟨hmem, hexpired⟩ := List.mem_filter.mp hb
      have hrow := (mem_load hcopied.keyed).mp hmem
      refine ⟨hcopied.named _ b hrow, fun b' hb' ↦ ?_⟩
      change b'.expired s.now = true
      rwa [Benchmark.expired, hcopied.started _ b b' hrow hb']
  · cases h
    exact hs.answers hk rfl hok.2.2
  · split_ifs at h with hmutex <;> cases h
    · exact hs.answers hk rfl hok.2.2
    · exact hs.purges hk (Option.not_isSome_iff_eq_none.mp hmutex) (htimely.resolve_left hmutex)
  · obtain ⟨hlock, hdirty, c, rfl, hcopied⟩ := hok
    have hfound : ∀ b ∈ ((fill c.load).lookup id).toList, b.benchmarkId ∉ s.before k := by
      intro b hb hgone
      rw [Option.mem_toList, lookup_fill_load hcopied.keyed] at hb
      cases hcopied.keyed _ _ hb
      cases (hcopied.deleted _ (hbefore hgone)).symm.trans hb
    have hrefilled : { (s.refill (c.load.filter fun _ ↦ true)).set k none with
        answers := ⟨s.before k, ((fill c.load).lookup id).toList⟩ :: s.answers :
          State P R }.Sound :=
      hs.refills hk rfl hlock hcopied nofun (fun h ↦ nomatch hdirty.symm.trans h)
        (hs.answered_cons hfound) nofun
    rw [List.filter_true] at hrefilled
    cases h
    exact hrefilled
  · obtain ⟨hlock, h⟩ := Option.ite_none_left_eq_some.mp h
    cases h
    exact hs.evicts hk (Option.not_isSome_iff_eq_none.mp hlock)

theorem Sound.of_next {act : Act P R} (hs : s.Sound) (htimely : timely s act)
    (h : next s act = some t) : t.Sound := by
  rcases act with ⟨k, call⟩ | ⟨k, id⟩ | ⟨k, outcome⟩ | k | k | time <;> rw [next] at h
  · split_ifs at h with hbusy
    cases h
    rw [Option.not_isSome_iff_eq_none] at hbusy
    refine hs.moves rfl (fun id h ↦ ?_) rfl rfl rfl rfl rfl (List.subset_append_right _ _)
      (fun k' hne ↦ Function.update_of_ne hne _ _) (fun _ _ h ↦ h) (fun _ _ h ↦ h) hs.answered ?_
    · rw [hbusy] at h
      cases h
    · rintro _ ⟨⟩
      refine ⟨?_, fun id hid ↦ List.mem_append_left _ (Option.mem_toList.mpr hid)⟩
      change Function.update s.before k s.deleted k ⊆ s.deleted
      rw [Function.update_self]
      exact List.Subset.refl _
  · split at h
    · rename_i deploymentId baselineId params recipeId recipeName hk
      split_ifs at h with hnew
      cases h
      rw [not_or, Option.not_isSome_iff_eq_none] at hnew
      exact hs.creates hk hnew.1 { benchmarkId := id, deploymentId, recipeId, recipeName,
                                   baselineId, params, startedAt := s.now } hnew.2
    · cases h
  · split at h
    · rename_i b hk
      obtain ⟨hmutex, -⟩ := (hs.calls k _ hk).2
      rcases outcome with _ | outcome <;> cases h
      · refine hs.steps hk rfl (fun k' hne h ↦ ?_) (fun _ _ h ↦ h) nofun
        exact absurd (Option.some_inj.mp (h.symm.trans hmutex)) hne
      · exact hs.finishes hk outcome
    · cases h
  · obtain ⟨stage, hk, h⟩ := Option.bind_eq_some_iff.mp h
    exact hs.of_advance hk htimely h
  · have hreturns {call : Call P} (hk : s.calls k = some (.called call)) : (s.set k none).Sound :=
      hs.steps hk rfl (fun _ _ h ↦ h) (fun _ _ h ↦ h) nofun
    split at h <;> first | cases h | (split_ifs at h; cases h; exact hreturns ‹_›)
  · cases h
    exact hs.waits time

theorem sound_of_init (h : (system : Transition.System _ (Act P R)).init s) : s.Sound := by
  obtain ⟨table, now, hkeyed, rfl⟩ := h
  refine ⟨hkeyed, ?_, ?_, nofun, fun _ id ↦ AList.lookup_empty id, nofun, nofun, nofun, nofun⟩
  · intro id b hb
    cases (AList.lookup_empty id).symm.trans hb
  · intro id b hb
    exact AList.lookup_isSome.mp (Option.isSome_of_mem hb)

theorem Sound.consistent (hs : s.Sound) : s.Consistent where
  answers := hs.answered
  agrees hidle id := by
    rw [AgreesAt, found]
    split_ifs with hdirty
    · exact .inl (lookup_fill_load hs.keyed id)
    · rcases hs.agrees (Bool.eq_false_iff.mpr hdirty) id with hagrees | ⟨k, howes⟩ | ⟨hnone, hrow⟩
      · exact .inl hagrees
      · rw [hidle k] at howes
        cases howes
      · rcases htable : s.table.lookup id with _ | b
        · exact .inl hnone
        · exact .inr ⟨hnone, b, rfl, hrow b htable⟩

/-- **The cache agrees with the table in every run that is timely.** Nothing that was deleted is
returned by a lookup or a listing that is called after the deletion returned, and whenever no call
is in progress a lookup finds the stored row, or nothing where there is none or it is past
retention. -/
theorem consistent_of_timely (h : (system : Transition.System _ (Act P R)).Reachable timely s) :
    s.Consistent :=
  (h.invariant (fun _ ↦ sound_of_init) fun _ _ _ ↦ Sound.of_next).consistent

/-- New records are put only into a cache that is still to be filled, and nothing is purged. -/
private def undisturbed (s : State Unit Unit) : Act Unit Unit → Bool
  | .advance k =>
    match s.calls k with
    | some (.created _) => s.dirty
    | some (.purging ..) => false
    | _ => true
  | _ => true

private theorem timely_of_undisturbed (s : State Unit Unit) (a : Act Unit Unit)
    (h : undisturbed s a = true) : s.timely a := by
  rcases a with _ | _ | _ | k | _ | _
  case advance =>
    rw [undisturbed] at h
    rw [timely]
    rcases hk : s.calls k with _ | (_ | _ | _ | _ | _ | _ | _ | _) <;> rw [hk] at h
    case some.created => exact .inl h
    case some.purging => cases h
    all_goals trivial
  all_goals trivial

/-- A benchmark is created, looked up, run, looked up again and deleted. -/
private def oneBenchmark : List (Act Unit Unit) :=
  [.begin 0 (.create "d" none () "" ""), .store 0 "b", .advance 0,
    .begin 1 (.get "b"), .advance 1, .advance 1,
    .begin 2 (.execute "b"), .advance 2, .wait 60, .finish 2 (some (.ok ())), .advance 2,
    .begin 3 (.get "b"), .advance 3, .begin 4 (.delete "b"), .advance 4, .advance 4]

private theorem emptyTable_init : (system : Transition.System _ (Act Unit Unit)).init {} := by
  refine ⟨∅, 0, fun id b h ↦ ?_, rfl⟩
  cases (AList.lookup_empty id).symm.trans h

theorem consistent_oneBenchmark : ∃ s : State Unit Unit,
    system.runUnder (fun s a ↦ undisturbed s a = true) {} oneBenchmark = some s ∧
      s.Consistent := by
  obtain ⟨s, hs⟩ : ∃ s : State Unit Unit,
      system.runUnder (fun s a ↦ undisturbed s a = true) {} oneBenchmark = some s := ⟨_, rfl⟩
  exact ⟨s, hs, consistent_of_timely ⟨{}, emptyTable_init,
    (Transition.System.steps_of_runUnder hs).mono timely_of_undisturbed⟩⟩

/-- A benchmark is deleted before the call that creates it has put it into the cache, and is looked
up after that. -/
private def deletedAtOnce : List (Act Unit Unit) :=
  [.begin 0 (.get "b"), .advance 0, .advance 0, .begin 0 (.create "d" none () "" ""), .store 0 "c",
    .begin 1 (.delete "c"), .advance 1, .advance 1, .advance 0, .begin 1 (.get "c"), .advance 1]

/-- The cache does not agree with the table in general, and a lookup returns what was deleted before
it. -/
theorem deletedAtOnce_not_consistent : ∃ s : State Unit Unit,
    system.Reachable Transition.Guard.free s ∧ (∀ k, s.calls k = none) ∧ ¬s.AgreesAt "c" ∧
      ¬∀ a ∈ s.answers, ∀ b ∈ a.records, b.benchmarkId ∉ a.gone := by
  obtain ⟨s, hs, hidle, hdirty, ⟨rows, htable⟩, m, b, hid, hcache, answers, hanswers⟩ :
      ∃ s : State Unit Unit, system.run {} deletedAtOnce = some s ∧ (∀ k, s.calls k = none) ∧
        s.dirty = false ∧ (∃ rows : Records Unit Unit, s.table = rows.erase "c") ∧
          ∃ (m : Records Unit Unit) (b : Benchmark Unit Unit), b.benchmarkId = "c" ∧
            s.cache = m.insert "c" b ∧
              ∃ answers, s.answers = ⟨["c"], (s.cache.lookup "c").toList⟩ :: answers := by
    refine ⟨_, rfl, ?_, rfl, ⟨_, rfl⟩, _, _, ?_, rfl, _, rfl⟩
    · rintro (_ | _ | k) <;> rfl
    · rfl
  refine ⟨s, ⟨{}, emptyTable_init, Transition.System.steps_of_run hs⟩, hidle, fun h ↦ ?_,
    fun h ↦ ?_⟩
  · rw [AgreesAt, found, hdirty, if_neg Bool.false_ne_true, hcache, AList.lookup_insert, htable,
      AList.lookup_erase] at h
    rcases h with h | ⟨h, -⟩ <;> cases h
  · rw [hanswers, hcache, AList.lookup_insert] at h
    exact h _ List.mem_cons_self b List.mem_cons_self (hid ▸ List.mem_cons_self)

end State

end SparkPulse.Benchmarks
