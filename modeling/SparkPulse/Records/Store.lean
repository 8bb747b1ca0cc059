import Mathlib.Data.List.AList
import SparkPulse.Records.Record
import SparkPulse.Transition.Delta

/-!
# The deployment record store

The rows of `tools/deployment_records.py`, one for each deployment. Every function here is one
transaction under the store's mutex, so nothing falls between the parts of one of them. What a
caller does with several of them is another matter: a whole-set `save` of a list loaded earlier is
two transactions with anything in between.
-/

namespace SparkPulse

open Transition

/-- The stored rows: one record for each id, and none without an id. -/
structure Store where
  rows : List Record := []
  nodup : (rows.map Record.id).Nodup := by simp
  named : ∀ r ∈ rows, r.id ≠ "" := by simp

namespace Store

theorem named_nil : ∀ r ∈ ([] : List Record), r.id ≠ "" := by simp

/-- The record stored under an id. -/
def get (s : Store) (id : String) : Option Record := s.rows.find? fun r ↦ r.id = id

variable {s : Store} {id : String} {r : Record}

/-- Ids are unique, so the record found under an id is the one stored with it. -/
theorem get_eq_some_iff : s.get id = some r ↔ r ∈ s.rows ∧ r.id = id := by
  constructor
  · intro h
    exact ⟨List.mem_of_find?_eq_some h, by simpa using List.find?_some h⟩
  · rintro ⟨hr, rfl⟩
    obtain ⟨r', hr'⟩ : ∃ r', s.get r.id = some r' := by
      rw [← Option.isSome_iff_exists, get, List.find?_isSome]
      exact ⟨r, hr, by simp⟩
    have hid : r'.id = r.id := by simpa using List.find?_some hr'
    rw [hr', List.inj_on_of_nodup_map s.nodup (List.mem_of_find?_eq_some hr') hr hid]

theorem id_of_get (h : s.get id = some r) : r.id = id := (get_eq_some_iff.mp h).2

theorem get_of_mem (h : r ∈ s.rows) : s.get r.id = some r := get_eq_some_iff.mpr ⟨h, rfl⟩

/-! ## Transactions -/

/-- Apply a function that keeps ids to every row. -/
def mapRows (f : Record → Record) (hf : ∀ r, (f r).id = r.id) (s : Store) : Store where
  rows := s.rows.map f
  nodup := by
    rw [List.map_map, show Record.id ∘ f = Record.id from funext hf]
    exact s.nodup
  named r' hr' := by
    obtain ⟨r, hr, rfl⟩ := List.mem_map.mp hr'
    rw [hf]
    exact s.named r hr

/-- Keep the rows whose id satisfies a condition. -/
def keepRows (p : String → Bool) (s : Store) : Store where
  rows := s.rows.filter fun r ↦ p r.id
  nodup := s.nodup.sublist (List.filter_sublist.map _)
  named r hr := s.named r (List.mem_filter.mp hr).1

/-- `update`: merge fields into one stored record. -/
def update (id : String) (p : Patch) (s : Store) : Store :=
  s.mapRows (fun r ↦ if r.id = id then p.apply r else r) fun r ↦ by split_ifs <;> rfl

/-- `delete_many`: drop the named rows. -/
def deleteMany (ids : List String) (s : Store) : Store := s.keepRows (· ∉ ids)

/-- The records of a list by id; of two with one id the last counts, and one without is skipped. -/
def byId : List Record → AList fun _ : String ↦ Record
  | [] => ∅
  | r :: rs => if r.id = "" ∨ r.id ∈ rs.map Record.id then byId rs else (byId rs).insert r.id r

/-- What is filed under an id is the last record of the list with that id. -/
theorem lookup_byId (rs : List Record) :
    (byId rs).lookup id = if id = "" then none else rs.reverse.find? fun r ↦ r.id = id := by
  induction rs with
  | nil => simp [byId]
  | cons r rs ih =>
    rw [byId, List.reverse_cons, List.find?_append]
    by_cases hid : id = ""
    · subst hid
      rw [if_pos rfl] at ih ⊢
      split_ifs with hskip
      · exact ih
      · rwa [AList.lookup_insert_ne fun h ↦ hskip (.inl h.symm)]
    · rw [if_neg hid] at ih ⊢
      split_ifs with hskip
      · rw [ih]
        cases hlast : rs.reverse.find? fun r ↦ r.id = id with
        | some _ => rfl
        | none =>
          have hr : r.id ≠ id := by
            rintro rfl
            obtain ⟨r', hr', hsame⟩ := List.mem_map.mp (hskip.resolve_left hid)
            have := List.find?_eq_none.mp hlast r' (by simpa using hr')
            exact this (by simpa using hsame)
          simp [hr]
      · by_cases hr : r.id = id
        · subst hr
          have hlast : (rs.reverse.find? fun r' ↦ r'.id = r.id) = none := by
            rw [List.find?_eq_none]
            intro r' hr' hsame
            refine hskip (.inr (List.mem_map.mpr ⟨r', by simpa using hr', by simpa using hsame⟩))
          simp [hlast]
        · rw [AList.lookup_insert_ne (Ne.symm hr), ih]
          simp [hr]

/-- A record is filed under its own id. -/
theorem id_of_lookup_byId {rs : List Record} (h : (byId rs).lookup id = some r) : r.id = id := by
  rw [lookup_byId] at h
  split_ifs at h
  simpa using List.find?_some h

theorem named_of_lookup_byId {rs : List Record} (h : (byId rs).lookup id = some r) : id ≠ "" := by
  rintro rfl
  simp [lookup_byId] at h

private theorem map_id_filterMap_sublist (d : AList fun _ : String ↦ Record)
    (hd : ∀ id r, d.lookup id = some r → r.id = id) (rows : List Record) :
    ((rows.filterMap fun r ↦ d.lookup r.id).map Record.id).Sublist (rows.map Record.id) := by
  induction rows with
  | nil => simp
  | cons r rows ih =>
    cases hr : d.lookup r.id with
    | none =>
      rw [List.filterMap_cons_none (by exact hr)]
      exact ih.cons _
    | some r' =>
      rw [List.filterMap_cons_some (by exact hr), List.map_cons, List.map_cons, hd _ _ hr]
      exact ih.cons_cons _

private theorem map_id_entries (d : AList fun _ : String ↦ Record)
    (hd : ∀ id r, d.lookup id = some r → r.id = id) :
    (d.entries.map Sigma.snd).map Record.id = d.keys := by
  rw [List.map_map]
  refine List.map_congr_left fun e he ↦ ?_
  exact hd _ _ (AList.mem_lookup_iff.mpr he)

/-- `save`: the set of rows is exactly the given one. Rows outside it are deleted, rows in it are
updated, and the others of it are added. -/
def save (records : List Record) (s : Store) : Store where
  rows :=
    (s.rows.filterMap fun r ↦ (byId records).lookup r.id) ++
      ((byId records).entries.map Sigma.snd).filter fun r ↦ (s.get r.id).isNone
  nodup := by
    have hd : ∀ id r, (byId records).lookup id = some r → r.id = id := fun _ _ ↦ id_of_lookup_byId
    rw [List.map_append]
    refine List.Nodup.append (s.nodup.sublist (map_id_filterMap_sublist _ hd _)) ?_ ?_
    · refine List.Nodup.sublist (List.filter_sublist.map _) ?_
      rw [map_id_entries _ hd]
      exact (byId records).keys_nodup
    · intro id hkept hadded
      have hstored := (map_id_filterMap_sublist _ hd _).subset hkept
      obtain ⟨r, hr, rfl⟩ := List.mem_map.mp hstored
      obtain ⟨r', hr', hid⟩ := List.mem_map.mp hadded
      have hnone : s.get r'.id = none := by simpa using (List.mem_filter.mp hr').2
      rw [hid, get_of_mem hr] at hnone
      cases hnone
  named r hr := by
    have hr : ∃ id, (byId records).lookup id = some r := by
      rw [List.mem_append, List.mem_filterMap, List.mem_filter] at hr
      obtain ⟨r', -, hr'⟩ | ⟨hr, -⟩ := hr
      · exact ⟨r'.id, hr'⟩
      · obtain ⟨⟨k, r'⟩, he, rfl⟩ := List.mem_map.mp hr
        exact ⟨k, AList.mem_lookup_iff.mpr he⟩
    obtain ⟨id, hid⟩ := hr
    rw [id_of_lookup_byId hid]
    exact named_of_lookup_byId hid

/-! ## What each transaction leaves under an id -/

theorem get_mapRows {f : Record → Record} {hf : ∀ r, (f r).id = r.id} :
    (s.mapRows f hf).get id = (s.get id).map f := by
  rw [get, mapRows, List.find?_map, get]
  congr 2
  funext r
  simp [hf]

theorem get_keepRows {p : String → Bool} :
    (s.keepRows p).get id = if p id then s.get id else none := by
  ext r
  rw [get_eq_some_iff, keepRows, List.mem_filter]
  split_ifs with hp
  · rw [get_eq_some_iff]
    constructor
    · rintro ⟨⟨hr, -⟩, rfl⟩
      exact ⟨hr, rfl⟩
    · rintro ⟨hr, rfl⟩
      exact ⟨⟨hr, hp⟩, rfl⟩
  · constructor
    · rintro ⟨⟨-, hpr⟩, rfl⟩
      exact absurd hpr hp
    · simp

theorem get_update (id' : String) (p : Patch) :
    (s.update id' p).get id = (s.get id).map fun r ↦ if id = id' then p.apply r else r := by
  rw [update, get_mapRows]
  refine Option.map_congr fun r hr ↦ ?_
  rw [id_of_get hr]

theorem get_update_self (p : Patch) : (s.update id p).get id = (s.get id).map p.apply := by
  rw [get_update]
  simp

theorem get_update_ne {id' : String} (h : id ≠ id') (p : Patch) :
    (s.update id' p).get id = s.get id := by
  rw [get_update]
  simp [h]

theorem get_deleteMany (ids : List String) :
    (s.deleteMany ids).get id = if id ∈ ids then none else s.get id := by
  rw [deleteMany, get_keepRows]
  by_cases h : id ∈ ids <;> simp [h]

/-- After a whole-set write an id holds what the written set has for it, and nothing else. -/
theorem get_save (records : List Record) : (s.save records).get id = (byId records).lookup id := by
  ext r
  rw [get_eq_some_iff, save, List.mem_append, List.mem_filterMap, List.mem_filter]
  constructor
  · rintro ⟨⟨r', -, hr'⟩ | ⟨hr, -⟩, rfl⟩
    · rwa [id_of_lookup_byId hr']
    · obtain ⟨⟨k, r'⟩, he, rfl⟩ := List.mem_map.mp hr
      have hk := AList.mem_lookup_iff.mpr he
      rwa [← id_of_lookup_byId hk] at hk
  · intro hr
    have hid := id_of_lookup_byId hr
    refine ⟨?_, hid⟩
    rw [← hid] at hr
    cases hs : s.get r.id with
    | none =>
      exact .inr ⟨List.mem_map.mpr ⟨⟨r.id, r⟩, AList.mem_lookup_iff.mp hr, rfl⟩, by simp⟩
    | some r' =>
      obtain ⟨hr', hid'⟩ := get_eq_some_iff.mp hs
      exact .inl ⟨r', hr', by rwa [hid']⟩

/-- Saving the rows of a store stores that store. -/
theorem get_save_rows (s' : Store) : (s.save s'.rows).get id = s'.get id := by
  ext r
  rw [get_save, lookup_byId]
  constructor
  · intro h
    split_ifs at h
    rw [get_eq_some_iff]
    exact ⟨by simpa using List.mem_of_find?_eq_some h, by simpa using List.find?_some h⟩
  · intro h
    obtain ⟨hr, rfl⟩ := get_eq_some_iff.mp h
    rw [if_neg (s'.named r hr)]
    obtain ⟨r', hr'⟩ : ∃ r', (s'.rows.reverse.find? fun r' ↦ r'.id = r.id) = some r' := by
      rw [← Option.isSome_iff_exists, List.find?_isSome]
      exact ⟨r, by simpa using hr, by simp⟩
    have hmem : r' ∈ s'.rows := by simpa using List.mem_of_find?_eq_some hr'
    have hid : r'.id = r.id := by simpa using List.find?_some hr'
    rw [hr', List.inj_on_of_nodup_map s'.nodup hmem hr hid]

/-- Saving the rows of a store and one record more replaces that record, or files nothing for it
when it has no id. -/
theorem get_save_append (s' : Store) (record : Record) :
    (s.save (s'.rows ++ [record])).get id =
      if id = record.id ∧ id ≠ "" then some record else s'.get id := by
  have hrows := @get_save_rows s id s'
  rw [get_save, lookup_byId] at hrows ⊢
  rw [List.reverse_append, List.reverse_singleton, List.singleton_append]
  by_cases hid : id = ""
  · rw [if_pos hid] at hrows ⊢
    simpa [hid] using hrows
  · rw [if_neg hid] at hrows ⊢
    by_cases hr : id = record.id
    · subst hr
      simp [hid]
    · rw [if_neg (by simp [hr]), List.find?_cons_of_neg (by simpa using Ne.symm hr), hrows]

/-! ## Transactions of the runtime

`native_runtime` holds the mutex over a load, a change of the loaded list, and a save. -/

section
variable (redact : String → Option String)

/-- The repair of a record whose command line still holds credentials. -/
def redacted (r : Record) : Record :=
  match redact r.launchCommand with
  | some command => { r with launchCommand := command }
  | none => r

@[simp] theorem redacted_id (r : Record) : (redacted redact r).id = r.id := by
  unfold redacted
  split <;> rfl

/-- What `load` leaves stored, and returns. -/
def repair (s : Store) : Store := s.mapRows (redacted redact) (redacted_id redact)

/-- `_update_record`: load, merge fields into the record, save. -/
def updateRecord (id : String) (p : Patch) (s : Store) : Option Record × Store :=
  match (s.repair redact).get id with
  | none => (none, s.repair redact)
  | some r =>
    (some (p.apply r), (s.repair redact).save
      ((s.repair redact).rows.map fun r ↦ if r.id = id then p.apply r else r))

/-- `persist_planned_record`: load, replace any record with the id, save. -/
def persist (record : Record) (s : Store) : Store :=
  (s.repair redact).save (((s.repair redact).rows.filter fun r ↦ r.id ≠ record.id) ++ [record])

/-- The last transaction of `delete_deployment`: load, leave the record out, save. -/
def dropRecord (id : String) (s : Store) : Bool × Store :=
  if (s.repair redact).get id = none then (false, s.repair redact)
  else (true, (s.repair redact).save ((s.repair redact).rows.filter fun r ↦ r.id ≠ id))

@[simp] theorem get_repair : (s.repair redact).get id = (s.get id).map (redacted redact) :=
  get_mapRows

/-- A load, change and save in one transaction is a change of one record. -/
theorem get_updateRecord (id' : String) (p : Patch) :
    (s.updateRecord redact id' p).2.get id = ((s.repair redact).update id' p).get id := by
  rw [updateRecord]
  split
  next h =>
    by_cases hid : id = id'
    · subst hid
      rw [get_update_self, h, Option.map_none]
    · rw [get_update_ne hid]
  · exact get_save_rows ((s.repair redact).update id' p)

theorem updateRecord_fst (p : Patch) :
    (s.updateRecord redact id p).1 = ((s.repair redact).get id).map p.apply := by
  rw [updateRecord]
  split
  next h => rw [h, Option.map_none]
  next r h => rw [h, Option.map_some]

/-- Persisting a record replaces the one with its id; a record without an id is not stored. -/
theorem get_persist (record : Record) : (s.persist redact record).get id =
    if id = record.id ∧ id ≠ "" then some record else (s.repair redact).get id := by
  have hrows : ((s.repair redact).rows.filter fun r ↦ r.id ≠ record.id) =
      ((s.repair redact).keepRows (· ≠ record.id)).rows := by simp [keepRows]
  rw [persist, hrows, get_save_append, get_keepRows]
  split_ifs with h hne
  · rfl
  · rfl
  · have hid : id = record.id := by simpa using hne
    have hempty : id = "" := by
      by_contra hid'
      exact h ⟨hid, hid'⟩
    rw [eq_comm, ← Option.not_isSome_iff_eq_none, Option.isSome_iff_exists]
    rintro ⟨r, hr⟩
    obtain ⟨hmem, hr⟩ := get_eq_some_iff.mp hr
    exact (s.repair redact).named r hmem (hr.trans hempty)

theorem get_dropRecord (id' : String) : (s.dropRecord redact id').2.get id =
    if id = id' then none else (s.repair redact).get id := by
  have hrows : ((s.repair redact).rows.filter fun r ↦ r.id ≠ id') =
      ((s.repair redact).keepRows (· ≠ id')).rows := by simp [keepRows]
  rw [dropRecord]
  split_ifs with h hid hid
  · rw [hid, h]
  · rfl
  · rw [hrows, get_save_rows, get_keepRows]
    simp [hid]
  · rw [hrows, get_save_rows, get_keepRows]
    simp [hid]

end

end Store

end SparkPulse
