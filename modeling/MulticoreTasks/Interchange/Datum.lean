import MulticoreTasks.App.Core

/-!
# Data for interchange

Applications, limits and results are exchanged as trees of plain data.  This module has the tree and
the shapes that readers and writers share:

* `Datum`                          : a tree of plain data;
* `Datum.byte?`, `Datum.text?`, …  : readers of the leaves; each refuses what is not of its shape;
* `Field`, `Datum.fields?`         : a structure, by field names or as the list of its fields;
* `Datum.variant?`                 : one of several variants, with or without a payload;
* `Datum.ofTable`                  : tables, with the keys of cores and priorities as decimal texts.

Readers are exact about numbers: a byte is an integer from `0` to `255`, and a number written with a
fraction is none.  They are lenient about structures: fields that are not asked for are passed over.
-/

namespace MulticoreTasks

universe u v

/-- A tree of plain data. -/
inductive Datum where
  | null
  | flag (value : Bool)
  | int (value : Int)
  /-- A number that is not written as an integer; no reader takes one. -/
  | fraction
  | text (value : String)
  | list (items : List Datum)
  | record (entries : List (String × Datum))
  deriving Inhabited

namespace Datum

/-! ## Leaves -/

def flag? : Datum → Option Bool
  | flag value => some value
  | _ => none

def text? : Datum → Option String
  | text value => some value
  | _ => none

def nat? : Datum → Option Nat
  | int value => if 0 ≤ value then some value.toNat else none
  | _ => none

/-- An integer from `0` to `255`. -/
def byte? (d : Datum) : Option UInt8 :=
  d.nat?.bind fun n => if n < 256 then some (UInt8.ofNat n) else none

def core? (d : Datum) : Option Core := d.byte?.map Core.mk

/-- A list of items of one shape. -/
def list? {α : Type u} (read : Datum → Option α) : Datum → Option (List α)
  | list items => items.mapM read
  | _ => none

/-- Entries by their names, with values of one shape. -/
def table? {α : Type u} (read : Datum → Option α) : Datum → Option (Table String α)
  | record entries =>
    (entries.mapM fun e => (read e.2).map fun a => (e.1, a)).map fun l =>
      Std.ExtTreeMap.ofList l compare
  | _ => none

/-! ## Structures -/

end Datum

/-- A field of a structure, with the datum that stands in when it is absent. -/
structure Field where
  name : String
  default? : Option Datum := none

namespace Datum

/-- The fields of a structure written as a list: in order, and the absent ones at the end have to
have defaults. -/
def positional? : List Field → List Datum → Option (List Datum)
  | [], [] => some []
  | [], _ :: _ => none
  | field :: fields, [] => do return (← field.default?) :: (← positional? fields [])
  | _ :: fields, item :: items => do return item :: (← positional? fields items)

/-- The fields of a structure, in order, whether it is written by names or as a list. -/
def fields? (fields : List Field) : Datum → Option (List Datum)
  | record entries => fields.mapM fun field => (entries.lookup field.name).or field.default?
  | list items => positional? fields items
  | _ => none

/-- The name of a variant and its payload: a bare name has the payload `null`. -/
def variant? : Datum → Option (String × Datum)
  | text name => some (name, null)
  | record [(name, payload)] => some (name, payload)
  | _ => none

/-! ## Writing -/

def byte (value : UInt8) : Datum := int value.toNat

def core (c : Core) : Datum := byte c.index

/-- A set, in increasing order. -/
def ofSet {α : Type u} [Ord α] [Std.TransOrd α] (write : α → Datum) (s : SortedSet α) : Datum :=
  list (s.toList.map write)

def names (s : SortedSet String) : Datum := ofSet text s

def cores (s : SortedSet Core) : Datum := ofSet core s

/-- A table, with its keys as texts. -/
def ofTable {κ : Type u} {α : Type v} [Ord κ] [Std.TransOrd κ] (key : κ → String)
    (write : α → Datum) (t : Table κ α) : Datum :=
  record (t.toList.map fun (k, a) => (key k, write a))

def byName {α : Type v} (write : α → Datum) (t : Table String α) : Datum := ofTable id write t

/-- A byte as the key of a table. -/
def decimal (value : UInt8) : String := Nat.repr value.toNat

def byCore {α : Type v} (write : α → Datum) (t : Table Core α) : Datum :=
  ofTable (decimal ·.index) write t

/-- A variant with a payload. -/
def variant (name : String) (payload : Datum) : Datum := record [(name, payload)]

/-- What may be absent. -/
def optional {α : Type u} (write : α → Datum) : Option α → Datum
  | none => null
  | some a => write a

end Datum

end MulticoreTasks
