import FeatureFlags.Proofs.Document.Records

/-!
# Proofs/Document/Scalars — the annotations of flags and of documents

An annotation of a flag is decoded by trying the forms of a scalar in turn, one of a document by the
kind of its value.  Both give the scalar that the value stands for (`Scalar.StandsFor`), so an object
that a flag may be annotated with annotates a document alike (`Metadata.decode_eq_ok_iff`).  A scalar
that has a JSON form is read back from it (`Scalar.ofJson?_toJson_iff`).
-/

namespace FeatureFlags

namespace Scalar

variable {v : Json} {a : Scalar}

/-- **A scalar that has a JSON form**: any but a double that is not finite.  Its integers are the signed
64-bit ones. -/
inductive IsWritable : Scalar → Prop
  | boolean (b : Bool) : IsWritable (.boolean b)
  | integer {i : Int} (h : Number.isInt64 i = true) : IsWritable (.integer i)
  | double {x : Binary64} (h : x.isFinite = true) : IsWritable (.double x)
  | text (s : String) : IsWritable (.text s)

/-- The form of a scalar that has one stands for it. -/
theorem IsWritable.standsFor (h : a.IsWritable) : StandsFor a.toJson a := by
  cases h with
  | boolean b => exact .boolean b
  | integer h => exact .integer h
  | @double x h =>
    rw [toJson, Json.ofDouble, Number.ofDouble?, if_pos h]
    exact .double x
  | text s => exact .text s

/-- **A scalar is read back from its JSON form** exactly if it has one. -/
theorem ofJson?_toJson_iff : ofJson? a.toJson = some a ↔ a.IsWritable := by
  refine ⟨fun h => ?_, fun h => standsFor_iff.mp h.standsFor⟩
  cases a with
  | boolean b => exact .boolean b
  | text s => exact .text s
  | integer i =>
    cases standsFor_iff.mpr h with
    | integer h => exact .integer h
  | double x =>
    by_cases hfin : x.isFinite = true
    · exact .double hfin
    · rw [toJson, Json.ofDouble, Number.ofDouble?, if_neg hfin] at h
      cases h

end Scalar

namespace Metadata

variable {members : KeyMap Json} {m : Metadata}

theorem ofMembers_entries (members : KeyMap Json) :
    ofMembers members.entries = members.filterMap fun _ v => Scalar.ofJson? v := by
  rw [ofMembers, KeyMap.ofList_entries]

/-- **The annotations of a flag are those of a document** with the same members, if these are all
scalars. -/
theorem decode_eq_ok_iff : decode (.ofMap members) = .ok m ↔
    (∀ e ∈ members.entries, (Scalar.ofJson? e.2).isSome) ∧ ofMembers members.entries = m := by
  rw [decode_ofMap, ofMembers_entries]
  split
  · next hscalars => exact ⟨fun h => ⟨hscalars, Except.ok.inj h⟩, fun h => congrArg _ h.2⟩
  · next hother => exact ⟨nofun, fun h => absurd h.1 hother⟩

end Metadata

/-- **The two readings of a scalar agree**: they give the scalar that a value stands for, or nothing if it
stands for none.  A scalar is read back from its JSON form exactly if it has one, which all have but the
doubles that are not finite.  So the members of an object annotate a flag as they annotate a document. -/
theorem Scalar.readings_agree :
    (∀ v, decode? v = ofJson? v) ∧ (∀ v a, ofJson? v = some a ↔ StandsFor v a) ∧
      (∀ a : Scalar, ofJson? a.toJson = some a ↔ a.IsWritable) ∧
      ∀ (members : KeyMap Json) (m : Metadata), Metadata.decode (.ofMap members) = .ok m ↔
        (∀ e ∈ members.entries, (decode? e.2).isSome) ∧ Metadata.ofMembers members.entries = m := by
  refine ⟨decode?_eq_ofJson?, fun v a => standsFor_iff.symm, fun a => ofJson?_toJson_iff, ?_⟩
  intro members m
  simp only [decode?_eq_ofJson?]
  exact Metadata.decode_eq_ok_iff

/-- The greatest signed integer and the next one, and a double that is whole. -/
example : [.int 9223372036854775807, .int 9223372036854775808,
    .num (.double ⟨0x4008000000000000⟩)].map Scalar.decode? =
    [some (.integer 9223372036854775807), some (.double ⟨0x43E0000000000000⟩),
      some (.double ⟨0x4008000000000000⟩)] := by
  decide +kernel

end FeatureFlags
