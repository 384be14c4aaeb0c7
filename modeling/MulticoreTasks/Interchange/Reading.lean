import MulticoreTasks.App.Record
import MulticoreTasks.Interchange.Datum
import MulticoreTasks.Limits

/-!
# Reading applications and limits

Each reader gives the value of a datum, or nothing when the datum has not the right shape.  Whether
a value of the right shape makes sense is not asked here: a record is checked when it is loaded.
-/

namespace MulticoreTasks

def Access.ofDatum? (d : Datum) : Option Access :=
  match d.variant? with
  | some ("Read", .null) => some .read
  | some ("Write", .null) => some .write
  | _ => none

/-- A time of initialisation; a late one has its core in a record. -/
def Init.ofDatum? (d : Datum) : Option Init :=
  match d.variant? with
  | some ("Eager", .null) => some .eager
  | some ("Late", .record entries) => (entries.lookup "core").bind fun d => d.core?.map .late
  | _ => none

def Dispatch.ofDatum? (d : Datum) : Option Dispatch :=
  match d.variant? with
  | some ("Immediate", .null) => some .immediate
  | some ("Delayed", .null) => some .delayed
  | _ => none

def Resource.ofDatum? (d : Datum) : Option Resource := do
  match ← d.fields? [⟨"name", none⟩, ⟨"ty", none⟩, ⟨"init", none⟩, ⟨"transferable", none⟩] with
  | [name, valueType, init, transferable] =>
    return ⟨← name.text?, ← valueType.text?, ← Init.ofDatum? init, ← transferable.flag?⟩
  | _ => none

def Spawn.ofDatum? (d : Datum) : Option Spawn := do
  match ← d.fields?
    [⟨"target", none⟩, ⟨"core", none⟩, ⟨"priority", none⟩, ⟨"capacity", none⟩, ⟨"kind", none⟩] with
  | [target, core, priority, capacity, kind] =>
    return ⟨← target.text?, ← core.core?, ← priority.byte?, ← capacity.byte?,
      ← Dispatch.ofDatum? kind⟩
  | _ => none

def Task.ofDatum? (d : Datum) : Option Task := do
  match ← d.fields? [⟨"name", none⟩, ⟨"core", none⟩, ⟨"priority", none⟩, ⟨"message", none⟩,
    ⟨"resources", none⟩, ⟨"spawns", none⟩] with
  | [name, core, priority, message, resources, spawns] =>
    return ⟨← name.text?, ← core.core?, ← priority.byte?, ← message.text?,
      ← resources.table? Access.ofDatum?, ← spawns.list? Spawn.ofDatum?⟩
  | _ => none

/-- A stored application; one without resources or tasks may leave them out. -/
def Record.ofDatum? (d : Datum) : Option Record := do
  match ← d.fields?
    [⟨"cores", none⟩, ⟨"resources", some (.record [])⟩, ⟨"tasks", some (.record [])⟩] with
  | [cores, resources, tasks] =>
    return ⟨SortedSet.ofList (← cores.list? Datum.core?), ← resources.table? Resource.ofDatum?,
      ← tasks.table? Task.ofDatum?⟩
  | _ => none

/-- Limits; what is left out has its default. -/
def Limits.ofDatum? (d : Datum) : Option Limits := do
  match ← d.fields? [⟨"max_priority", some (.byte Limits.default.maxPriority)⟩,
    ⟨"timer_slot_bound", some (.byte Limits.default.timerSlotBound)⟩] with
  | [maxPriority, timerSlotBound] => return ⟨← maxPriority.byte?, ← timerSlotBound.byte?⟩
  | _ => none

end MulticoreTasks
