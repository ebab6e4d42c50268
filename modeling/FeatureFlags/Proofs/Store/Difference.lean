import FeatureFlags.Proofs.Json.Equality
import FeatureFlags.Proofs.Store.Run

/-!
# Proofs/Store/Difference — differing tables

Equality of flags is symmetric and transitive, so what differs between the ends of a row of tables
differs between two neighbours in it (`FlagSet.DiffersAt.of_trans`).  It is not reflexive: a flag with
a NaN among its annotations differs from itself.
-/

namespace FeatureFlags

instance : PartialEquivBEq Scalar where
  symm {s t} h :=
    match s, t, h with
    | .boolean _, .boolean _, h => BEq.symm (α := Bool) h
    | .integer _, .integer _, h => BEq.symm (α := Int) h
    | .double _, .double _, h => Binary64.eq_symm h
    | .text _, .text _, h => BEq.symm (α := String) h
  trans {s t u} h h' :=
    match s, t, u, h, h' with
    | .boolean _, .boolean _, .boolean _, h, h' => BEq.trans (α := Bool) h h'
    | .integer _, .integer _, .integer _, h, h' => BEq.trans (α := Int) h h'
    | .double _, .double _, .double _, h, h' => Binary64.eq_trans h h'
    | .text _, .text _, .text _, h, h' => BEq.trans (α := String) h h'

namespace Flag

/-- **Flags are equal field by field.** -/
theorem beq_iff {f g : Flag} :
    (f == g) = true ↔ f.state = g.state ∧ f.defaultVariant = g.defaultVariant ∧
      (f.variants == g.variants) = true ∧ (f.rule == g.rule) = true ∧
        (f.metadata == g.metadata) = true := by
  change Flag.beq f g = true ↔ _
  simp only [Flag.beq, Bool.and_eq_true, beq_iff_eq, and_assoc]

instance : PartialEquivBEq Flag where
  symm h := by
    obtain ⟨hstate, hdefault, hvariants, hrule, hmetadata⟩ := beq_iff.mp h
    exact beq_iff.mpr ⟨hstate.symm, hdefault.symm, BEq.symm hvariants, BEq.symm hrule,
      BEq.symm hmetadata⟩
  trans h h' := by
    obtain ⟨hstate, hdefault, hvariants, hrule, hmetadata⟩ := beq_iff.mp h
    obtain ⟨hstate', hdefault', hvariants', hrule', hmetadata'⟩ := beq_iff.mp h'
    exact beq_iff.mpr ⟨hstate.trans hstate', hdefault.trans hdefault', BEq.trans hvariants hvariants',
      BEq.trans hrule hrule', BEq.trans hmetadata hmetadata'⟩

end Flag

namespace FlagSet

variable {before after : FlagSet} {key : String}

theorem not_differsAt_iff : ¬ before.DiffersAt after key ↔ (after.get? key == before.get? key) = true := by
  rw [DiffersAt, Bool.not_eq_false]

/-- **A difference between two tables is one to any third table**, from either side. -/
theorem DiffersAt.of_trans (h : before.DiffersAt after key) (between : FlagSet) :
    before.DiffersAt between key ∨ between.DiffersAt after key := by
  by_contra hnone
  rw [not_or, not_differsAt_iff, not_differsAt_iff] at hnone
  exact not_differsAt_iff.mpr (BEq.trans hnone.2 hnone.1) h

end FlagSet

end FeatureFlags
