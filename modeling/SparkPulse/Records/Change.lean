import SparkPulse.Records.Store

/-!
# Transactions as changes

Each transaction of the store is a change of its own to the records: it patches the one it names,
puts it, drops it, or repairs the command lines a load finds unredacted. Here every transaction is
shown to have exactly the effect of its change, but for the whole-set save, whose effect is that of
its change exactly when nobody has disturbed what it does not mean to write.
-/

namespace SparkPulse

open Transition

namespace Store

variable (redact : String → Option String) (s : Store)

/-- The store as a partial map. -/
abbrev view : View String Record := s.get

/-! ## Changes -/

/-- The fields a repair changes in one record. -/
def repairPatch (r : Record) : Patch := { launchCommand := redact r.launchCommand }

/-- A load's own change: the repair of each record. -/
def repairDelta : Delta String Record Patch := fun id ↦
  match s.get id with
  | none => .keep
  | some r => .patch (repairPatch redact r)

/-- A persist's own change. A record without an id is not stored. -/
def putDelta (record : Record) : Delta String Record Patch :=
  if record.id = "" then fun _ ↦ .keep else Delta.single record.id (.put record)

/-- The own change of dropping several records. -/
def deleteDelta (ids : List String) : Delta String Record Patch :=
  fun id ↦ if id ∈ ids then .drop else .keep

/-- The records of a list as a partial map. -/
def listView (records : List Record) : View String Record := fun id ↦ (byId records).lookup id

/-- A whole-set save's own change: what the written records are, against the loaded ones. -/
def saveDelta (loaded records : List Record) : Delta String Record Patch :=
  Delta.between Patch.diff (listView loaded) (listView records)

/-! ## Effects -/

theorem apply_repairPatch (r : Record) : (repairPatch redact r).apply r = redacted redact r := by
  unfold redacted
  cases h : redact r.launchCommand <;> simp [repairPatch, Patch.apply, h]

theorem view_update (id : String) (p : Patch) :
    (s.update id p).view = (Delta.single id (.patch p)).apply Patch.apply s.view := by
  rw [Delta.single_apply]
  funext k
  by_cases h : k = id
  · subst h
    rw [Function.update_self, view, get_update_self]
    rfl
  · rw [Function.update_of_ne h, view, get_update_ne h]

theorem view_repair :
    (s.repair redact).view = (s.repairDelta redact).apply Patch.apply s.view := by
  funext id
  rw [view, get_repair, Delta.apply, repairDelta]
  cases h : s.get id with
  | none => simp [h, Own.apply]
  | some r => simp [h, Own.apply, apply_repairPatch]

theorem view_updateRecord (id : String) (p : Patch) : (s.updateRecord redact id p).2.view =
    (Delta.single id (.patch p)).apply Patch.apply (s.repair redact).view := by
  rw [← view_update]
  funext k
  exact get_updateRecord redact id p

theorem view_persist (record : Record) : (s.persist redact record).view =
    (putDelta record).apply Patch.apply (s.repair redact).view := by
  funext id
  rw [view, get_persist, putDelta]
  by_cases hrecord : record.id = ""
  · have h : ¬(id = record.id ∧ id ≠ "") := by
      rintro ⟨rfl, hid⟩
      exact hid hrecord
    rw [if_pos hrecord, if_neg h]
    rfl
  · rw [if_neg hrecord, Delta.single_apply]
    by_cases h : id = record.id
    · subst h
      rw [if_pos ⟨rfl, hrecord⟩, Function.update_self]
      rfl
    · rw [if_neg fun h' ↦ h h'.1, Function.update_of_ne h]

theorem view_dropRecord (id : String) : (s.dropRecord redact id).2.view =
    (Delta.single id .drop).apply Patch.apply (s.repair redact).view := by
  rw [Delta.single_apply]
  funext k
  rw [view, get_dropRecord]
  by_cases h : k = id
  · subst h
    rw [if_pos rfl, Function.update_self]
    rfl
  · rw [if_neg h, Function.update_of_ne h]

theorem view_deleteMany (ids : List String) :
    (s.deleteMany ids).view = (deleteDelta ids).apply Patch.apply s.view := by
  funext id
  rw [view, get_deleteMany, Delta.apply, deleteDelta]
  split_ifs <;> rfl

/-- **When a whole-set save is its own change.** It is exactly when, for every id, nobody has
stored a record that the caller neither loaded nor writes, nobody has dropped a record that it
loaded and writes, and nobody has changed a field of it that the caller leaves as loaded. -/
theorem view_save_iff (loaded records : List Record) :
    (s.save records).view = (saveDelta loaded records).apply Patch.apply s.view ↔
      ∀ id, Undisturbed Patch.diff Patch.apply (listView loaded id) (listView records id)
        (s.get id) := by
  have hsave : (s.save records).view = listView records := funext fun id ↦ get_save records
  rw [hsave, eq_comm]
  exact Delta.apply_between_iff

end Store

end SparkPulse
