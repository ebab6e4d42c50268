import FeatureFlags.Proofs.Document.Reading
import FeatureFlags.Proofs.Document.Records
import FeatureFlags.Proofs.Numeric.Monotone
import FeatureFlags.Proofs.Store.Difference

/-!
# Proofs/Store/Changes — the changed keys as a distance

A flag that was read holds no NaN, so it is equal to itself (`Flag.beq_self_of_decode`), and equality of
flags is an equivalence on the tables that were read.  The changed keys of two tables are exactly those on
which they differ; there are none when the flags are equal, the same ones the other way round, and along a
third table none but those of the two steps (`FlagSet.changedKeys_exact`).
-/

namespace FeatureFlags

open Json

/-! ## Flags that were read -/

theorem Scalar.beq_self_of_standsFor {v : Json} {s : Scalar} (h : StandsFor v s) (hv : IsReadable v) :
    (s == s) = true := by
  cases h with
  | boolean b => exact beq_self_eq_true b
  | @integer i h => exact beq_self_eq_true i
  | wide h => exact Binary64.eq_self (Binary64.isNaN_ofRatio _ _ _)
  | double x => exact Binary64.eq_self (Binary64.isNaN_of_isFinite hv)
  | text s => exact beq_self_eq_true s

theorem Flag.beq_self_of_hasVariants {o : Option Json} {variants : KeyMap Json}
    (h : HasVariants o variants) (ho : ∀ w, o = some w → All IsReadable w) :
    (variants == variants) = true := by
  cases h with
  | absent => rfl
  | object =>
    have hmembers := (all_obj.mp (ho _ rfl)).2
    exact KeyMap.beq_self fun key v hv => beq_self (hmembers _ (mem_of_valueAt? hv))

theorem Flag.beq_self_of_hasRule {o rule : Option Json} (h : HasRule o rule)
    (ho : ∀ w, o = some w → All IsReadable w) : (rule == rule) = true := by
  cases h with
  | absent | null | empty => rfl
  | rule => exact beq_self (ho _ rfl)

theorem Flag.beq_self_of_hasMetadata {o : Option Json} {metadata : Metadata}
    (h : HasMetadata o metadata) (ho : ∀ w, o = some w → All IsReadable w) :
    (metadata == metadata) = true := by
  cases h with
  | absent => rfl
  | @object members metadata h =>
    have hmembers := (all_obj.mp (ho _ rfl)).2
    refine KeyMap.beq_self fun key s hs => ?_
    have hkey := h key
    rw [show metadata.get? key = some s from hs] at hkey
    cases hv : members.get? key with
    | none => simp [hv] at hkey
    | some v =>
      rw [hv, Option.rel_some_some] at hkey
      exact Scalar.beq_self_of_standsFor hkey (hmembers _ (mem_of_valueAt? hv)).self

/-- **A flag that was read is equal to itself.** -/
theorem Flag.beq_self_of_decode {v : Json} {f : Flag} (hascending : All (OnMembers Ascending) v)
    (hreadable : All IsReadable v) (h : decode v = .ok f) : (f == f) = true := by
  obtain ⟨field, hfield, hholds⟩ := exists_holds_of_decode hascending h
  have hread (name : String) (w : Json) (hw : field name = some w) : All IsReadable w :=
    (all_iff.mp hreadable).2 w (hfield name w hw)
  exact beq_iff.mpr ⟨rfl, rfl, beq_self_of_hasVariants hholds.variants (hread _),
    beq_self_of_hasRule hholds.rule (hread _), beq_self_of_hasMetadata hholds.metadata (hread _)⟩

/-- Sets of the same keys are the same. -/
theorem KeySet.ext_contains {s t : KeySet} (h : ∀ key, s.contains key = t.contains key) : s = t := by
  refine KeyMap.ext_get? fun key => ?_
  have hkey : (s.get? key).isSome = (t.get? key).isSome := h key
  cases hs : s.get? key <;> cases ht : t.get? key <;> simp_all

namespace FlagSet

/-- **The flags of a table that was read are equal to themselves.** -/
theorem beq_self_of_parse {parser : Parser} {text : String} {table : FlagSet}
    (h : Document.parse parser text = .ok table) : (table.flags == table.flags) = true := by
  rw [Document.parse_eq_readResolved] at h
  obtain ⟨document, hdocument, hdecode⟩ := bind_eq_ok_iff.mp h
  obtain ⟨cs, hcs⟩ := Document.exists_readText hdocument
  refine KeyMap.beq_self fun key flag hflag => ?_
  obtain ⟨v, hv, hread⟩ := Document.exists_of_decode hdecode hflag
  exact Flag.beq_self_of_decode (hv _ (Document.ascending_of_readText hcs))
    (hv _ (Document.readable_of_readText hcs)) hread

/-! ## Changed keys -/

section Changes

variable (a b c : FlagSet)

/-- **A key is changed** when one table alone has it, or when its definitions are not equal. -/
theorem contains_changedKeys_iff (key : String) :
    (a.changedKeys b).contains key = true ↔
      (a.get? key).isSome ≠ (b.get? key).isSome ∨
        ∃ f g, a.get? key = some f ∧ b.get? key = some g ∧ (f == g) = false := by
  have hcomm : (b.get? key == a.get? key) = (a.get? key == b.get? key) := BEq.comm
  rw [contains_changedKeys, DiffersAt, hcomm]
  rcases a.get? key with - | f <;> rcases b.get? key with - | g <;> simp

theorem changedKeys_comm : a.changedKeys b = b.changedKeys a := by
  refine KeySet.ext_contains fun key => ?_
  have hcomm : (b.get? key == a.get? key) = (a.get? key == b.get? key) := BEq.comm
  rw [Bool.eq_iff_iff, contains_changedKeys, contains_changedKeys, DiffersAt, DiffersAt, hcomm]

/-- **No key is changed** when the flags are equal, and only then. -/
theorem changedKeys_eq_empty_iff : a.changedKeys b = ∅ ↔ (a.flags == b.flags) = true := by
  have hsame (key : String) :
      (a.changedKeys b).contains key = false ↔ (a.flags.get? key == b.flags.get? key) = true := by
    rw [← Bool.not_eq_true, contains_changedKeys, not_differsAt_iff, BEq.comm]
    rfl
  rw [KeyMap.beq_iff]
  refine ⟨fun h key => (hsame key).mp (h ▸ rfl), fun h => KeySet.ext_contains fun key => ?_⟩
  rw [(hsame key).mpr (h key)]
  rfl

end Changes

/-- **The changed keys are exact.**  A key is changed between two tables if one alone has it or its
definitions are not equal.  So the changed keys are the same both ways, there are none exactly when the
flags are equal, and between the ends of three tables there are none but those of the two steps.  The
flags of a table that was read are equal to themselves. -/
theorem changedKeys_exact (a b c : FlagSet) :
    (∀ key, (a.changedKeys b).contains key = true ↔
        (a.get? key).isSome ≠ (b.get? key).isSome ∨
          ∃ f g, a.get? key = some f ∧ b.get? key = some g ∧ (f == g) = false) ∧
      a.changedKeys b = b.changedKeys a ∧
      (a.changedKeys b = ∅ ↔ (a.flags == b.flags) = true) ∧
      (∀ key, (a.changedKeys c).contains key = true →
        (a.changedKeys b).contains key = true ∨ (b.changedKeys c).contains key = true) ∧
      ∀ parser text, Document.parse parser text = .ok a → (a.flags == a.flags) = true := by
  refine ⟨contains_changedKeys_iff a b, changedKeys_comm a b, changedKeys_eq_empty_iff a b, ?_,
    fun _ _ => beq_self_of_parse⟩
  intro key hkey
  rw [contains_changedKeys] at hkey ⊢
  rw [contains_changedKeys]
  exact hkey.of_trans b

def textBefore : String :=
  "\x7b\"flags\":\x7b\"x\":\x7b\"state\":\"ENABLED\",\"metadata\":\x7b\"n\":1\x7d\x7d," ++
  "\"y\":\x7b\"state\":\"ENABLED\",\"targeting\":0.0\x7d\x7d\x7d"

/-- A whole double for the integer, a negative zero for the zero, and a flag more. -/
def textAfter : String :=
  "\x7b\"flags\":\x7b\"x\":\x7b\"state\":\"ENABLED\",\"metadata\":\x7b\"n\":1.0\x7d\x7d," ++
  "\"y\":\x7b\"state\":\"ENABLED\",\"targeting\":-0.0\x7d,\"z\":\x7b\"state\":\"DISABLED\"\x7d\x7d\x7d"

theorem changedKeys_exact_rewritten :
    ∃ before after, Document.parse (.standard .none) textBefore = .ok before ∧
      Document.parse (.standard .none) textAfter = .ok after ∧
      (before.changedKeys after).keys = ["x", "z"] ∧ (after.changedKeys before).keys = ["x", "z"] ∧
      (before.flags == before.flags) = true := by
  have hread : ((Document.parse (.standard .none) textBefore).toOption.bind fun before =>
      (Document.parse (.standard .none) textAfter).toOption.map fun after =>
        (before.changedKeys after).keys) = some ["x", "z"] := by decide +kernel
  obtain ⟨before, hbefore, hread⟩ := Option.bind_eq_some_iff.mp hread
  obtain ⟨after, hafter, hkeys⟩ := Option.map_eq_some_iff.mp hread
  have hbefore := eq_ok_of_toOption hbefore
  obtain ⟨-, hcomm, -, -, hself⟩ := changedKeys_exact before after before
  exact ⟨before, after, hbefore, eq_ok_of_toOption hafter, hkeys, hcomm ▸ hkeys,
    hself _ _ hbefore⟩

end FlagSet

end FeatureFlags
