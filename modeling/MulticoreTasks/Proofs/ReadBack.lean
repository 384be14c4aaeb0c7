import MulticoreTasks.Interchange.Reading
import MulticoreTasks.Interchange.Writing
import MulticoreTasks.Proofs.Listing

/-!
# What is written reads back

A reader undoes the writer of its type, value by value:

* `Datum.list?_list`, `Datum.table?_byName` : lists and tables read back when their items do;
* `Resource.ofDatum?_toDatum`, `Task.ofDatum?_toDatum` : so do the entries of an application;
* `Record.ofDatum?_toDatum` : and so does a whole record.

Structures are written by field names.  That they can be read as the list of their fields besides,
and that some fields may be left out, is no matter here.
-/

namespace MulticoreTasks

universe u v

namespace Datum

/-! ## Leaves -/

@[simp] theorem byte?_byte (b : UInt8) : (byte b).byte? = some b := by
  have hlt : b.toNat < 256 := b.toNat_lt
  simp [byte, byte?, nat?, hlt]

@[simp] theorem core?_core (c : Core) : (core c).core? = some c := by
  simp [core, core?]

@[simp] theorem text?_text (s : String) : (text s).text? = some s := rfl

@[simp] theorem flag?_flag (b : Bool) : (flag b).flag? = some b := rfl

/-! ## Lists and tables -/

section Collections

variable {α : Type u} {read : Datum → Option α} {write : α → Datum}

theorem mapM_map {β : Type v} {encode : α → β} {decode : β → Option α}
    (h : ∀ a, decode (encode a) = some a) (l : List α) : (l.map encode).mapM decode = some l := by
  induction l with
  | nil => rfl
  | cons a l ih => simp [h, ih]

theorem list?_list (h : ∀ a, read (write a) = some a) (l : List α) :
    (list (l.map write)).list? read = some l :=
  mapM_map h l

theorem table?_byName (h : ∀ a, read (write a) = some a) (t : Table String α) :
    (byName write t).table? read = some t := by
  have hentries : (t.toList.map fun e : String × α => (e.1, write e.2)).mapM
      (fun e : String × Datum => (read e.2).map fun a => (e.1, a)) = some t.toList :=
    mapM_map (fun e => by simp [h]) t.toList
  have htable := congrArg (Option.map fun l => Std.ExtTreeMap.ofList l compare) hentries
  rw [Option.map_some, Table.ofList_toList] at htable
  exact htable

end Collections

end Datum

/-! ## Entries -/

@[simp] theorem Access.ofDatum?_toDatum (a : Access) : ofDatum? a.toDatum = some a := by
  cases a <;> rfl

@[simp] theorem Init.ofDatum?_toDatum (i : Init) : ofDatum? i.toDatum = some i := by
  cases i with
  | eager => rfl
  | late c => simp [ofDatum?, toDatum, Datum.variant, Datum.variant?]

@[simp] theorem Dispatch.ofDatum?_toDatum (d : Dispatch) : ofDatum? d.toDatum = some d := by
  cases d <;> rfl

@[simp] theorem Resource.ofDatum?_toDatum (r : Resource) : ofDatum? r.toDatum = some r := by
  simp [ofDatum?, toDatum, Datum.fields?, List.lookup_cons]

@[simp] theorem Spawn.ofDatum?_toDatum (s : Spawn) : ofDatum? s.toDatum = some s := by
  simp [ofDatum?, toDatum, Datum.fields?, List.lookup_cons]

@[simp] theorem Task.ofDatum?_toDatum (t : Task) : ofDatum? t.toDatum = some t := by
  have hresources : (Datum.byName Access.toDatum t.resources).table? Access.ofDatum? =
      some t.resources := Datum.table?_byName Access.ofDatum?_toDatum _
  have hspawns : (Datum.list (t.spawns.map Spawn.toDatum)).list? Spawn.ofDatum? = some t.spawns :=
    Datum.list?_list Spawn.ofDatum?_toDatum _
  simp [ofDatum?, toDatum, Datum.fields?, List.lookup_cons, hresources, hspawns]

/-- A record reads back. -/
theorem Record.ofDatum?_toDatum (r : Record) : ofDatum? r.toDatum = some r := by
  have hcores : (Datum.cores r.cores).list? Datum.core? = some r.cores.toList :=
    Datum.list?_list Datum.core?_core _
  have hresources : (Datum.byName Resource.toDatum r.resources).table? Resource.ofDatum? =
      some r.resources := Datum.table?_byName Resource.ofDatum?_toDatum _
  have htasks : (Datum.byName Task.toDatum r.tasks).table? Task.ofDatum? = some r.tasks :=
    Datum.table?_byName Task.ofDatum?_toDatum _
  simp [ofDatum?, toDatum, Datum.fields?, List.lookup_cons, hcores, hresources, htasks,
    SortedSet.ofList_toList]

end MulticoreTasks
