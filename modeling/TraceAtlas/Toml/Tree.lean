import TraceAtlas.Datum

/-! # Tables under construction

A TOML document fills its tables piece by piece, and whether a piece may be added depends on how the
table came about: one that was written out with a header, or as a value, is closed to keys from
elsewhere.

## Main definitions
* `Toml.Tree` : a value, a table with its origin, or a list of tables whose last one is open.
* `Toml.assign` : a value under a dotted key.
* `Toml.openTable`, `Toml.openItem` : what a table header and a list header do.
* `Toml.within` : the same inside a table that a header has opened.
* `Toml.freezeFields` : the data of a finished table.
-/

namespace TraceAtlas

namespace Toml

/-- How a table came about. -/
inductive Origin where
  /-- By the header of a table inside it. -/
  | implied
  /-- By a dotted key. -/
  | dotted
  /-- By a header of its own. -/
  | header
  deriving DecidableEq, Repr

/-- What stands under a key. -/
inductive Tree where
  | value (d : Datum)
  | table (origin : Origin) (fields : List (String × Tree))
  /-- The tables written under one list header, the last one first. -/
  | tables (items : List (List (String × Tree)))

/-- The fields of a table. -/
abbrev Fields := List (String × Tree)

/-- Replaces what stands under a key, or adds it behind the other keys. -/
def put (key : String) (t : Tree) : Fields → Fields
  | [] => [(key, t)]
  | (k, u) :: fields => if k == key then (k, t) :: fields else (k, u) :: put key t fields

/-! ## (1) Keys with values -/

/-- Puts a value under a dotted key. The key must be new, and the table that it goes into must be
new or made by a dotted key. The way there may also lead through implied tables and through the last
table of a list. -/
def assign (d : Datum) : List String → Fields → Option Fields
  | [], _ => none
  | [key], fields =>
    match fields.lookup key with
    | none => some (put key (.value d) fields)
    | some _ => none
  | key :: path, fields =>
    let arrives := path.length == 1
    match fields.lookup key with
    | none => (assign d path []).map fun inner => put key (.table .dotted inner) fields
    | some (.table .dotted inner) =>
      (assign d path inner).map fun inner => put key (.table .dotted inner) fields
    | some (.table .implied inner) =>
      if arrives then none
      else (assign d path inner).map fun inner => put key (.table .implied inner) fields
    | some (.tables (last :: items)) =>
      if arrives then none
      else (assign d path last).map fun last => put key (.tables (last :: items)) fields
    -- a table with a header of its own is complete where it is written
    | some (.table .header _) | some (.tables []) | some (.value _) => none

/-! ## (2) Headers -/

/-- Changes the fields of the table at a path. Tables on the way that are missing come about as
implied ones, and a list of tables stands for its last one. -/
def within (change : Fields → Option Fields) : List String → Fields → Option Fields
  | [], fields => change fields
  | key :: path, fields =>
    match fields.lookup key with
    | none => (within change path []).map fun inner => put key (.table .implied inner) fields
    | some (.table origin inner) =>
      (within change path inner).map fun inner => put key (.table origin inner) fields
    | some (.tables (last :: items)) =>
      (within change path last).map fun last => put key (.tables (last :: items)) fields
    | some (.tables []) | some (.value _) => none

/-- Opens a table under a key: a new one, or one that was only implied so far. -/
def openTable (key : String) (fields : Fields) : Option Fields :=
  match fields.lookup key with
  | none => some (put key (.table .header []) fields)
  | some (.table .implied inner) => some (put key (.table .header inner) fields)
  | some _ => none

/-- Opens the next table of a list of tables under a key. -/
def openItem (key : String) (fields : Fields) : Option Fields :=
  match fields.lookup key with
  | none => some (put key (.tables [[]]) fields)
  | some (.tables items) => some (put key (.tables ([] :: items)) fields)
  | some _ => none

/-! ## (3) Finished tables -/

mutual

/-- The data of a finished tree. -/
def freeze : Tree → Datum
  | .value d => d
  | .table _ fields => .table (freezeFields fields)
  | .tables items => .list (freezeTables items).reverse

/-- The data of finished fields. -/
def freezeFields : List (String × Tree) → List (String × Datum)
  | [] => []
  | (key, t) :: fields => (key, freeze t) :: freezeFields fields

/-- The data of finished tables. -/
def freezeTables : List (List (String × Tree)) → List Datum
  | [] => []
  | fields :: items => .table (freezeFields fields) :: freezeTables items

end

end Toml

end TraceAtlas
