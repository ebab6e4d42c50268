import FeatureFlags.Collections.KeyMap

/-!
# Toml/Basic — TOML values and tables

A table is built from headers, which open it, and from keys, which may be dotted.  No key is given
twice and no table is opened twice: each table remembers how it came about, and `Table.assign`,
`Table.openTable` and `Table.openItem` refuse what would define something again.
-/

namespace FeatureFlags.Toml

/-- How a table came about. -/
inductive Origin
  /-- By its own header, or as the whole document. -/
  | opened
  /-- As a part of the path in another table's header. -/
  | implied
  /-- As a part of a dotted key. -/
  | dotted
  /-- Written out as a value. -/
  | written
  deriving DecidableEq, Inhabited, Repr

/-- **A TOML value or table.** -/
inductive Value
  | text (s : String)
  | integer (i : Int)
  | float
  | boolean (b : Bool)
  | dateTime
  | array (items : List Value)
  | table (origin : Origin) (entries : List (String × Value))
  /-- Tables opened one after another under one name, the last one first. -/
  | tables (rev : List (List (String × Value)))
  deriving Inhabited, Repr

/-- The entries of a table. -/
abbrev Entries := List (String × Value)

/-- A table and how it came about. -/
structure Table where
  origin : Origin
  entries : Entries
  deriving Inhabited, Repr

namespace Table

def toValue (t : Table) : Value := .table t.origin t.entries

/-- **Changes the table at a path** of a header.  Tables on the way come about by implication; of
tables under one name the last one is meant. -/
def within : List String → (Table → Option Table) → Table → Option Table
  | [], f, t => f t
  | key :: path, f, t =>
    match valueAt? key t.entries with
    | none => (within path f ⟨.implied, []⟩).map fun inner =>
      { t with entries := insertEntry key inner.toValue t.entries }
    | some (.table .written _) => none
    | some (.table origin entries) => (within path f ⟨origin, entries⟩).map fun inner =>
      { t with entries := insertEntry key inner.toValue t.entries }
    | some (.tables (last :: before)) => (within path f ⟨.opened, last⟩).map fun inner =>
      { t with entries := insertEntry key (.tables (inner.entries :: before)) t.entries }
    | some _ => none

/-- **Gives a key its value.**  A dotted key passes only through tables that dotted keys made. -/
def assign (value : Value) : List String → Table → Option Table
  | [], _ => none
  | [key], t =>
    if (valueAt? key t.entries).isSome then none
    else some { t with entries := insertEntry key value t.entries }
  | key :: path, t =>
    let inner? : Option Table := match valueAt? key t.entries with
      | none => some ⟨.dotted, []⟩
      | some (.table .dotted entries) => some ⟨.dotted, entries⟩
      | some _ => none
    match inner? with
    | none => none
    | some inner => (assign value path inner).map fun inner =>
      { t with entries := insertEntry key inner.toValue t.entries }

/-- **Opens a table by its header**; one that was only implied keeps what it holds. -/
def openTable (key : String) (t : Table) : Option Table :=
  match valueAt? key t.entries with
  | none => some { t with entries := insertEntry key (.table .opened []) t.entries }
  | some (.table .implied entries) =>
    some { t with entries := insertEntry key (.table .opened entries) t.entries }
  | some _ => none

/-- **Opens one more table** under a name that holds only such tables. -/
def openItem (key : String) (t : Table) : Option Table :=
  match valueAt? key t.entries with
  | none => some { t with entries := insertEntry key (.tables [[]]) t.entries }
  | some (.tables rev) => some { t with entries := insertEntry key (.tables ([] :: rev)) t.entries }
  | some _ => none

/-- A table written out as a value. -/
def ofPairs? (pairs : List (List String × Value)) : Option Value :=
  (pairs.foldlM (fun t (path, v) => assign v path t) (⟨.written, []⟩ : Table)).map toValue

end Table

/-- **A line of a document.** -/
inductive Statement
  | opens (path : List String)
  | opensItem (path : List String)
  | assigns (path : List String) (value : Value)
  deriving Inhabited, Repr

/-- The document so far, and the path of the table that keys go into. -/
structure Document where
  root : Table
  current : List String
  deriving Inhabited, Repr

namespace Document

def empty : Document := ⟨⟨.opened, []⟩, []⟩

/-- The last key of a path and what stands before it. -/
def cut? (path : List String) : Option (List String × String) :=
  path.getLast?.map fun key => (path.dropLast, key)

/-- **Obeys a statement.** -/
def step (d : Document) : Statement → Option Document
  | .opens path => do
    let (before, key) ← cut? path
    some ⟨← Table.within before (Table.openTable key) d.root, path⟩
  | .opensItem path => do
    let (before, key) ← cut? path
    some ⟨← Table.within before (Table.openItem key) d.root, path⟩
  | .assigns path value => do
    some { d with root := ← Table.within d.current (Table.assign value path) d.root }

/-- The entries of a document. -/
def ofStatements? (statements : List Statement) : Option Entries :=
  (statements.foldlM step empty).map (·.root.entries)

end Document

end FeatureFlags.Toml
