/-!
# Sync/Wire — the binary form of messages

A message is a row of fields.  Each starts with a key, which holds the number of the field and the
kind of its content; numbers are written in groups of seven bits, the least significant first.
`pieces?` cuts bytes into keys with their content, `fields?` closes the groups among them, and
`Piece.bytes` writes.

A group is only ever skipped; what matters of it is its `height`, how deep its content is nested.
-/

namespace FeatureFlags.Wire

/-! ## Varints -/

/-- The groups of seven bits of a number, the highest bit telling that more come.  The fuel bounds
how many there are. -/
def varintWith : Nat → Nat → List UInt8
  | 0, n => [UInt8.ofNat n]
  | fuel + 1, n =>
    if n < 128 then [UInt8.ofNat n] else UInt8.ofNat (n % 128 + 128) :: varintWith fuel (n / 128)

/-- **Writes a number** of at most 64 bits. -/
def varint (n : Nat) : List UInt8 := varintWith 9 n

/-- Reads at most `fuel` groups of seven bits, of which the last may only complete 64 bits. -/
def readVarintWith : Nat → List UInt8 → Option (Nat × List UInt8)
  | 0, _ => none
  | _, [] => none
  | fuel + 1, b :: rest =>
    if b.toNat < 128 then
      if fuel = 0 ∧ 2 ≤ b.toNat then none else some (b.toNat, rest)
    else (readVarintWith fuel rest).map fun (n, rest) => (b.toNat - 128 + 128 * n, rest)

/-- **Reads a number** of at most 64 bits in at most ten bytes. -/
def readVarint (bytes : List UInt8) : Option (Nat × List UInt8) :=
  (readVarintWith 10 bytes).map fun (n, rest) => (n % Nat.pow 2 64, rest)

/-! ## Pieces -/

/-- **The content behind a key.** -/
inductive Content
  | varint (n : Nat)
  | fixed64 (n : Nat)
  | bytes (content : List UInt8)
  | groupStart
  | groupEnd
  | fixed32 (n : Nat)
  deriving DecidableEq, Inhabited, Repr

/-- A number and the content under it. -/
structure Piece where
  number : Nat
  content : Content
  deriving DecidableEq, Inhabited, Repr

namespace Content

/-- The kind of content, as a key tells it. -/
def kind : Content → Nat
  | varint _ => 0
  | fixed64 _ => 1
  | bytes _ => 2
  | groupStart => 3
  | groupEnd => 4
  | fixed32 _ => 5

end Content

/-- The least significant bytes of a number, the first the least significant. -/
def littleEndian : Nat → Nat → List UInt8
  | 0, _ => []
  | count + 1, n => UInt8.ofNat (n % 256) :: littleEndian count (n / 256)

/-- The number of a row of bytes, the first the least significant. -/
def ofLittleEndian : List UInt8 → Nat
  | [] => 0
  | b :: rest => b.toNat + 256 * ofLittleEndian rest

namespace Piece

/-- **Writes a piece.** -/
def bytes (p : Piece) : List UInt8 :=
  varint (8 * p.number + p.content.kind) ++
    match p.content with
    | .varint n => varint n
    | .fixed64 n => littleEndian 8 n
    | .bytes content => varint content.length ++ content
    | .groupStart => []
    | .groupEnd => []
    | .fixed32 n => littleEndian 4 n

end Piece

/-- Takes exactly `count` bytes. -/
def takeBytes? (count : Nat) (bytes : List UInt8) : Option (List UInt8 × List UInt8) :=
  if count ≤ bytes.length then some (bytes.splitAt count) else none

/-- The content of a given kind at the front. -/
def content? (kind : Nat) (rest : List UInt8) : Option (Content × List UInt8) :=
  match kind with
  | 0 => (readVarint rest).map fun (n, rest) => (.varint n, rest)
  | 1 => (takeBytes? 8 rest).map fun (bs, rest) => (.fixed64 (ofLittleEndian bs), rest)
  | 2 => do
    let (length, rest) ← readVarint rest
    let (bs, rest) ← takeBytes? length rest
    some (.bytes bs, rest)
  | 3 => some (.groupStart, rest)
  | 4 => some (.groupEnd, rest)
  | 5 => (takeBytes? 4 rest).map fun (bs, rest) => (.fixed32 (ofLittleEndian bs), rest)
  | _ => none

/-- **Reads a piece.**  A key has at most 32 bits, and no field has the number zero. -/
def piece? (bytes : List UInt8) : Option (Piece × List UInt8) := do
  let (key, rest) ← readVarint bytes
  if Nat.pow 2 32 ≤ key ∨ key / 8 = 0 then none
  else
    let (content, rest) ← content? (key % 8) rest
    some (⟨key / 8, content⟩, rest)

/-- Reads pieces to the end; each takes a byte at least, so the fuel of their number is enough. -/
def piecesWith : Nat → List UInt8 → Option (List Piece)
  | _, [] => some []
  | 0, _ => none
  | fuel + 1, bytes => do
    let (p, rest) ← piece? bytes
    let more ← piecesWith fuel rest
    some (p :: more)

/-- **All the pieces of a row of bytes.** -/
def pieces? (bytes : List UInt8) : Option (List Piece) := piecesWith bytes.length bytes

/-! ## Fields -/

/-- **A field of a message.** -/
inductive Field
  | varint (number n : Nat)
  | fixed64 (number n : Nat)
  | bytes (number : Nat) (content : List UInt8)
  | fixed32 (number n : Nat)
  | group (number height : Nat)
  deriving DecidableEq, Inhabited, Repr

namespace Field

def number : Field → Nat
  | varint n _ => n
  | fixed64 n _ => n
  | bytes n _ => n
  | fixed32 n _ => n
  | group n _ => n

/-- How deep a field is nested, itself included. -/
def height : Field → Nat
  | group _ h => h
  | _ => 1

end Field

/-- A group that is still open: its number, and the height of what it holds so far. -/
structure OpenGroup where
  number : Nat
  inner : Nat
  deriving Inhabited, Repr

/-- The fields read, in reverse, and the open groups, innermost first. -/
structure Grouping where
  fields : List Field
  stack : List OpenGroup
  deriving Inhabited, Repr

namespace Grouping

/-- Puts a complete field where it belongs. -/
def add (g : Grouping) (f : Field) : Grouping :=
  match g.stack with
  | [] => { g with fields := f :: g.fields }
  | top :: below => { g with stack := { top with inner := max top.inner f.height } :: below }

/-- **One piece.**  The end of a group must bear the number of the innermost open one. -/
def step (g : Grouping) (p : Piece) : Option Grouping :=
  match p.content with
  | .varint n => some (g.add (.varint p.number n))
  | .fixed64 n => some (g.add (.fixed64 p.number n))
  | .bytes content => some (g.add (.bytes p.number content))
  | .fixed32 n => some (g.add (.fixed32 p.number n))
  | .groupStart => some { g with stack := ⟨p.number, 0⟩ :: g.stack }
  | .groupEnd =>
    match g.stack with
    | [] => none
    | top :: below =>
      if top.number = p.number then
        some (add { g with stack := below } (.group p.number (top.inner + 1)))
      else none

end Grouping

/-- **The fields of a message.** -/
def fields? (bytes : List UInt8) : Option (List Field) := do
  let g ← (← pieces? bytes).foldlM Grouping.step ⟨[], []⟩
  if g.stack.isEmpty then some g.fields.reverse else none

/-! ## Enumerations and texts -/

/-- A number of an enumeration as it is written: with its sign, in 64 bits. -/
def ofEnumeration (number : Int32) : Nat := number.toInt64.toUInt64.toNat

/-- The number of an enumeration in 64 bits: the lowest 32. -/
def enumeration (n : Nat) : Int32 := (UInt64.ofNat n).toUInt32.toInt32

/-- The bytes of a text. -/
def ofText (s : String) : List UInt8 := s.toUTF8.toList

/-- The text of a row of bytes, if they are one. -/
def text? (bytes : List UInt8) : Option String := String.fromUTF8? ⟨bytes.toArray⟩

end FeatureFlags.Wire
