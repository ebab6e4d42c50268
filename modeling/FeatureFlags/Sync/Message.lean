import FeatureFlags.Sync.Struct

/-!
# Sync/Message — the messages exchanged with a sync service

A client asks for configurations and for metadata.  What is empty is not written; a struct that is
absent is kept apart from an empty one.  On reading, fields with unknown numbers are skipped, of
two texts the later stands, and two parts of one struct are put together.
-/

namespace FeatureFlags

/-- Asks for configurations. -/
structure SyncRequest where
  providerId : String
  selector : String
  deriving DecidableEq, Inhabited, Repr

/-- **One configuration**, with context that came along with it. -/
structure SyncResponse where
  configuration : String
  context : Option Struct
  deriving Inhabited, Repr

/-- Asks for metadata; it says nothing. -/
structure MetadataRequest where
  deriving DecidableEq, Inhabited, Repr

structure MetadataResponse where
  metadata : Option Struct
  deriving Inhabited, Repr

namespace Message

/-- How many messages may be open inside each other. -/
def deepest : Nat := 100

/-- A text under a number; an empty one is left out. -/
def textField (number : Nat) (s : String) : List UInt8 :=
  if s.isEmpty then [] else Wire.Piece.bytes ⟨number, .bytes (Wire.ofText s)⟩

/-- A struct under a number, unless it is absent. -/
def structField (number : Nat) : Option Struct → List UInt8
  | none => []
  | some s => Wire.Piece.bytes ⟨number, .bytes (StructValue.fieldBytes s)⟩

/-- Reads a struct into the part of it that came before. -/
def mergeStruct (before : Option Struct) (content : List UInt8) : Option (Option Struct) :=
  (StructValue.mergeFields (deepest - 1) (before.getD []) content).map some

end Message

open Message

namespace SyncRequest

def bytes (m : SyncRequest) : List UInt8 := textField 1 m.providerId ++ textField 2 m.selector

def step (m : SyncRequest) : Wire.Field → Option SyncRequest
  | .bytes 1 content => (Wire.text? content).map fun s => { m with providerId := s }
  | .bytes 2 content => (Wire.text? content).map fun s => { m with selector := s }
  | f => if f.number = 1 ∨ f.number = 2 then none else StructValue.skip deepest f m

def ofBytes? (bytes : List UInt8) : Option SyncRequest := do
  (← Wire.fields? bytes).foldlM step ⟨"", ""⟩

end SyncRequest

namespace SyncResponse

def bytes (m : SyncResponse) : List UInt8 := textField 1 m.configuration ++ structField 2 m.context

def step (m : SyncResponse) : Wire.Field → Option SyncResponse
  | .bytes 1 content => (Wire.text? content).map fun s => { m with configuration := s }
  | .bytes 2 content => (mergeStruct m.context content).map fun s => { m with context := s }
  | f => if f.number = 1 ∨ f.number = 2 then none else StructValue.skip deepest f m

def ofBytes? (bytes : List UInt8) : Option SyncResponse := do
  (← Wire.fields? bytes).foldlM step ⟨"", none⟩

end SyncResponse

namespace MetadataRequest

def bytes (_ : MetadataRequest) : List UInt8 := []

def ofBytes? (bytes : List UInt8) : Option MetadataRequest := do
  (← Wire.fields? bytes).foldlM (fun m f => StructValue.skip deepest f m) ⟨⟩

end MetadataRequest

namespace MetadataResponse

def bytes (m : MetadataResponse) : List UInt8 := structField 2 m.metadata

def step (m : MetadataResponse) : Wire.Field → Option MetadataResponse
  | .bytes 2 content => (mergeStruct m.metadata content).map fun s => { m with metadata := s }
  | f => if f.number = 2 then none else StructValue.skip deepest f m

def ofBytes? (bytes : List UInt8) : Option MetadataResponse := do
  (← Wire.fields? bytes).foldlM step ⟨none⟩

end MetadataResponse

end FeatureFlags
