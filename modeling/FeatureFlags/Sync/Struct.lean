import FeatureFlags.Metadata
import FeatureFlags.Sync.Wire

/-!
# Sync/Struct — structured values that travel with a configuration

A struct maps names to values of seven kinds, one of them "no kind set".  Only the scalars among
them have a metadata form; a number that is whole and below `2 ^ 63` in magnitude becomes an
integer, any other stays the double it is.
-/

namespace FeatureFlags

/-- **A structured value.** -/
inductive StructValue
  | unset
  /-- Null, as the number in an enumeration of which it is the only member that has a name. -/
  | nullNumber (number : Int32)
  | number (value : Binary64)
  | text (value : String)
  | boolean (value : Bool)
  | struct (fields : List (String × StructValue))
  | list (items : List StructValue)
  deriving Inhabited, Repr

/-- Structured values by name, in the order of the names. -/
abbrev Struct := List (String × StructValue)

namespace StructValue

/-- The null that has a name. -/
def null : StructValue := nullNumber 0

/-- The metadata form of a number: an integer if it has no fractional part and its magnitude is less than
the double nearest to the greatest signed 64-bit integer. -/
def scalarOfNumber (x : Binary64) : Scalar :=
  if x.fract.eq .zero && x.abs.lt (.ofInt Binary64.greatestInt64) then .integer x.toInt64
  else .double x

/-- The metadata form of a value, if it has one. -/
def scalar? : StructValue → Option Scalar
  | boolean b => some (.boolean b)
  | text s => some (.text s)
  | number x => some (scalarOfNumber x)
  | _ => none

/-! ## Writing -/

mutual

/-- **The bytes of a value**: one field, or none when no kind is set. -/
def bytes : StructValue → List UInt8
  | unset => []
  | nullNumber i => Wire.Piece.bytes ⟨1, .varint (Wire.ofEnumeration i)⟩
  | number x => Wire.Piece.bytes ⟨2, .fixed64 x.bits.toNat⟩
  | text s => Wire.Piece.bytes ⟨3, .bytes (Wire.ofText s)⟩
  | boolean b => Wire.Piece.bytes ⟨4, .varint (if b then 1 else 0)⟩
  | struct fields => Wire.Piece.bytes ⟨5, .bytes (fieldBytes fields)⟩
  | list items => Wire.Piece.bytes ⟨6, .bytes (itemBytes items)⟩

/-- Each entry is a message of its own, without what is empty in it. -/
def fieldBytes : List (String × StructValue) → List UInt8
  | [] => []
  | (key, v) :: rest =>
    let keyBytes := if key.isEmpty then [] else Wire.Piece.bytes ⟨1, .bytes (Wire.ofText key)⟩
    let valueBytes := match v with
      | unset => []
      | v => Wire.Piece.bytes ⟨2, .bytes v.bytes⟩
    Wire.Piece.bytes ⟨1, .bytes (keyBytes ++ valueBytes)⟩ ++ fieldBytes rest

def itemBytes : List StructValue → List UInt8
  | [] => []
  | v :: rest => Wire.Piece.bytes ⟨1, .bytes v.bytes⟩ ++ itemBytes rest

end

/-! ## Reading

A later value stands for an earlier one, but structs and lists given in parts are put together.  The
depth tells how many messages may still be opened inside each other. -/

/-- The fields of a struct value, none for any other. -/
def fieldsOf : StructValue → List (String × StructValue)
  | struct fields => fields
  | _ => []

def itemsOf : StructValue → List StructValue
  | list items => items
  | _ => []

/-- A field that a message does not know is skipped, if it is not nested too deep. -/
def skip {α : Type} (depth : Nat) (f : Wire.Field) (v : α) : Option α :=
  if f.height ≤ depth then some v else none

/-- One field of a value, with the readers of the messages inside it. -/
def valueStep (depth : Nat)
    (readFields : List (String × StructValue) → List UInt8 → Option (List (String × StructValue)))
    (readItems : List StructValue → List UInt8 → Option (List StructValue)) (v : StructValue) :
    Wire.Field → Option StructValue
  | .varint 1 n => some (nullNumber (Wire.enumeration n))
  | .fixed64 2 n => some (number ⟨UInt64.ofNat n⟩)
  | .bytes 3 content => (Wire.text? content).map text
  | .varint 4 n => some (boolean (n != 0))
  | .bytes 5 content => (readFields v.fieldsOf content).map struct
  | .bytes 6 content => (readItems v.itemsOf content).map list
  | f => if 1 ≤ f.number ∧ f.number ≤ 6 then none else skip depth f v

/-- One field of a struct, with the reader of its entries. -/
def fieldsStep (depth : Nat) (readEntry : List UInt8 → Option (String × StructValue))
    (fields : List (String × StructValue)) : Wire.Field → Option (List (String × StructValue))
  | .bytes 1 content => (readEntry content).map fun (key, v) => insertEntry key v fields
  | f => if f.number = 1 then none else skip depth f fields

/-- One field of an entry of a struct, with the reader of its value. -/
def entryStep (depth : Nat) (readValue : StructValue → List UInt8 → Option StructValue)
    (entry : String × StructValue) : Wire.Field → Option (String × StructValue)
  | .bytes 1 content => (Wire.text? content).map (·, entry.2)
  | .bytes 2 content => (readValue entry.2 content).map (entry.1, ·)
  | f => if f.number = 1 ∨ f.number = 2 then none else skip depth f entry

/-- One field of a list, with the reader of its items. -/
def itemsStep (depth : Nat) (readValue : StructValue → List UInt8 → Option StructValue)
    (items : List StructValue) : Wire.Field → Option (List StructValue)
  | .bytes 1 content => (readValue unset content).map (items ++ [·])
  | f => if f.number = 1 then none else skip depth f items

mutual

/-- **Reads a value** into one read before. -/
def mergeValue : Nat → StructValue → List UInt8 → Option StructValue
  | 0, v, bytes => do
    (← Wire.fields? bytes).foldlM (valueStep 0 (fun _ _ => none) (fun _ _ => none)) v
  | depth + 1, v, bytes => do
    (← Wire.fields? bytes).foldlM (valueStep (depth + 1) (mergeFields depth) (mergeItems depth)) v

/-- Reads the fields of a struct into those read before. -/
def mergeFields :
    Nat → List (String × StructValue) → List UInt8 → Option (List (String × StructValue))
  | 0, fields, bytes => do (← Wire.fields? bytes).foldlM (fieldsStep 0 fun _ => none) fields
  | depth + 1, fields, bytes => do
    (← Wire.fields? bytes).foldlM (fieldsStep (depth + 1) (mergeEntry depth)) fields

/-- Reads an entry of a struct: its key and its value. -/
def mergeEntry : Nat → List UInt8 → Option (String × StructValue)
  | 0, bytes => do (← Wire.fields? bytes).foldlM (entryStep 0 fun _ _ => none) ("", unset)
  | depth + 1, bytes => do
    (← Wire.fields? bytes).foldlM (entryStep (depth + 1) (mergeValue depth)) ("", unset)

/-- Reads the items of a list after those read before. -/
def mergeItems : Nat → List StructValue → List UInt8 → Option (List StructValue)
  | 0, items, bytes => do (← Wire.fields? bytes).foldlM (itemsStep 0 fun _ _ => none) items
  | depth + 1, items, bytes => do
    (← Wire.fields? bytes).foldlM (itemsStep (depth + 1) (mergeValue depth)) items

end

end StructValue

namespace Struct

/-- **The metadata in a struct**: its scalars. -/
def toMetadata (s : Struct) : Metadata :=
  (KeyMap.ofList s).filterMap fun _ v => v.scalar?

end Struct

end FeatureFlags
