import FeatureFlags.Evaluation.Context
import FeatureFlags.Targeting.Lookup
import FeatureFlags.Targeting.Murmur
import FeatureFlags.Targeting.Rule

/-!
# Targeting/Fractional — deterministic percentage splits

A split lists variants with weights.  The flag key and a bucketing key are hashed to a point of
`[0, 100]`; the variants take adjoining stretches of that range, as wide as their shares of the
total weight, and the first whose stretch ends above the point is served.  When none does, because
the point is the top of the range or the widths were rounded down, the last one is.

The weights are added up in 64 bits; a split whose sum does not fit breaks off.
-/

namespace FeatureFlags

/-- A variant and its weight in a split. -/
structure Share where
  variant : String
  weight : Nat
  deriving DecidableEq, Inhabited, Repr

namespace Share

/-- An entry of a split: the name of a variant, then optionally its weight. -/
def ofJson? : Json → Option Share
  | .arr (.str variant :: rest) =>
    match rest with
    | [] => some ⟨variant, 1⟩
    | .num n :: _ => n.uint64?.map fun weight => ⟨variant, weight⟩
    | _ => none
  | _ => none

end Share

namespace Fractional

/-- The entries of a split; there must be one. -/
def shares? (entries : List Json) : Option (List Share) :=
  if entries.isEmpty then none else entries.mapM Share.ofJson?

/-- Adds the weight of a share, if the sum has 64 bits. -/
def addWeight (sum : Nat) (s : Share) : Except Overflow Nat :=
  if sum + s.weight < Nat.pow 2 64 then .ok (sum + s.weight) else .error .weights

/-- **The sum of the weights**, if it has 64 bits. -/
def totalWeight (shares : List Share) : Except Overflow Nat := shares.foldlM addWeight 0

/-- How far a hash, read as a signed number, is from zero. -/
def magnitude (hash : UInt32) : Nat :=
  if hash.toNat < Nat.pow 2 31 then hash.toNat else Nat.pow 2 32 - hash.toNat

def hundred : Binary64 := Binary64.ofNat 100

/-- The point of `[0, 100]` for a hash. -/
def bucketOfHash (hash : UInt32) : Binary64 :=
  let part := (Binary64.ofNat (magnitude hash)).div (Binary64.ofNat (Nat.pow 2 31 - 1))
  (part.mul hundred).min hundred

/-- **The point for a text.** -/
def bucket (text : String) : Binary64 :=
  bucketOfHash (Murmur.hash 0 text.toUTF8.toList)

/-- The width of a stretch, in percent. -/
def width (total : Nat) (s : Share) : Binary64 :=
  ((Binary64.ofNat s.weight).mul hundred).div (Binary64.ofNat total)

/-- The first share whose stretch ends above the point; `upper` is where the one before ended. -/
def walk (point : Binary64) (total : Nat) (upper : Binary64) : List Share → Option String
  | [] => none
  | s :: rest =>
    let upper := upper.add (width total s)
    if point.lt upper then some s.variant else walk point total upper rest

/-- The share that a point falls to, when the weights have this sum. -/
def pick (point : Binary64) (total : Nat) (shares : List Share) : Option String :=
  if total = 0 then none
  else walk point total Binary64.zero shares <|> shares.getLast?.map (·.variant)

/-- **The variant that a text falls to**, when some weight is positive. -/
def select (text : String) (shares : List Share) : Except Overflow (Option String) :=
  (totalWeight shares).map fun total => pick (bucket text) total shares

/-- The bucketing key and the entries: a text in front is the key, else the targeting key is. -/
def bucketingKey? (args : List Json) (data : Json) : Option (String × List Json) :=
  match args with
  | .str key :: entries => some (key, entries)
  | entries => ((data.member? Context.targetingKeyName).bind Json.string?).map (·, entries)

/-- The key of the flag under evaluation, as the data tell it. -/
def flagKey (data : Json) : String :=
  ((data.lookup? "$flagd.flagKey").bind Json.string?).getD ""

/-- **Serves a variant of a split**, or null when the split or its key is not proper. -/
def evaluate (args : List Json) (data : Json) : Except Overflow Json :=
  match bucketingKey? args data with
  | none => .ok .null
  | some (key, entries) =>
    match shares? entries with
    | none => .ok .null
    | some shares =>
      (select (flagKey data ++ key) shares).map fun served =>
        match served with
        | some variant => .str variant
        | none => .null

end Fractional

end FeatureFlags
