import FeatureFlags.Proofs.Collections.Equality
import FeatureFlags.Proofs.Json.Settling
import FeatureFlags.Proofs.Numeric.Equality

/-!
# Proofs/Json/Equality — what equality of values leaves open

Equal values are alike in every part, but for the signs of the zeros in them.  Those signs, read off in
order (`Json.zeroSigns`), tell equal values apart: with the same signs they are the same value
(`Json.eq_of_beq`).
-/

namespace FeatureFlags

namespace Number

/-- A number that can be written is equal to itself. -/
theorem beq_self {n : Number} (h : n.Readable) : (n == n) = true := by
  cases n with
  | int i => exact beq_self_eq_true i
  | double x => exact Binary64.eq_self (Binary64.isNaN_of_isFinite h)

instance : PartialEquivBEq Number where
  symm {m n} h :=
    match m, n, h with
    | int _, int _, h => BEq.symm (α := Int) h
    | double _, double _, h => Binary64.eq_symm h
  trans {m n o} h h' :=
    match m, n, o, h, h' with
    | int _, int _, int _, h, h' => BEq.trans (α := Int) h h'
    | double _, double _, double _, h, h' => Binary64.eq_trans h h'

end Number

namespace Json

/-! ## Equality as that of lists -/

theorem beqItems_eq (items others : List Json) : beqItems items others = (items == others) := by
  induction items generalizing others with
  | nil => cases others <;> rfl
  | cons v rest ih =>
    cases others with
    | nil => rfl
    | cons w others => rw [beqItems, ih, List.cons_beq_cons]; rfl

theorem beqMembers_eq (members others : List (String × Json)) :
    beqMembers members others = (members == others) := by
  induction members generalizing others with
  | nil => cases others <;> rfl
  | cons m rest ih =>
    cases others with
    | nil => rfl
    | cons n others => rw [beqMembers, ih, List.cons_beq_cons]; rfl

theorem beq_arr (items others : List Json) : (arr items == arr others) = (items == others) :=
  beqItems_eq items others

theorem beq_obj (members others : List (String × Json)) :
    (obj members == obj others) = (members == others) :=
  beqMembers_eq members others

/-- **Equal values are of one kind**, and equal as what they hold. -/
inductive Alike : Json → Json → Prop
  | null : Alike null null
  | bool (b : Bool) : Alike (bool b) (bool b)
  | num {m n : Number} (h : (m == n) = true) : Alike (num m) (num n)
  | str (s : String) : Alike (str s) (str s)
  | arr {items others : List Json} (h : (items == others) = true) : Alike (arr items) (arr others)
  | obj {members others : List (String × Json)} (h : (members == others) = true) :
      Alike (obj members) (obj others)

theorem alike_iff {v w : Json} : v.Alike w ↔ (v == w) = true := by
  constructor
  · rintro (- | b | h | s | h | h)
    · rfl
    · exact beq_self_eq_true b
    · exact h
    · exact beq_self_eq_true s
    · exact (beq_arr _ _).trans h
    · exact (beq_obj _ _).trans h
  · intro h
    match v, w, h with
    | .null, .null, _ => exact .null
    | .bool a, .bool b, h => exact eq_of_beq (α := Bool) h ▸ .bool a
    | .num m, .num n, h => exact .num h
    | .str a, .str b, h => exact eq_of_beq (α := String) h ▸ .str a
    | .arr items, .arr others, h => exact .arr ((beq_arr _ _).symm.trans h)
    | .obj members, .obj others, h => exact .obj ((beq_obj _ _).symm.trans h)

/-- **A value whose numbers can be written is equal to itself.** -/
theorem beq_self {v : Json} (h : All IsReadable v) : (v == v) = true := by
  rw [← alike_iff]
  induction v using Json.induct with
  | null => exact .null
  | bool b => exact .bool b
  | str s => exact .str s
  | num n => exact .num (Number.beq_self h.self)
  | arr items ih =>
    exact .arr (beq_list_self fun v hv => alike_iff.mp (ih v hv ((all_arr.mp h).2 v hv)))
  | obj members ih =>
    refine .obj (beq_list_self fun m hm => beq_entry_iff.mpr ⟨rfl, ?_⟩)
    exact alike_iff.mp (ih m hm ((all_obj.mp h).2 m hm))

theorem beq_symm {v w : Json} (h : (v == w) = true) : (w == v) = true := by
  induction v using Json.induct generalizing w with
  | null | bool | str =>
    rw [← alike_iff] at h ⊢
    cases h
    constructor
  | num m =>
    rw [← alike_iff] at h ⊢
    cases h with
    | num h => exact .num (BEq.symm h)
  | arr items ih =>
    rw [← alike_iff] at h ⊢
    cases h with
    | arr h => exact .arr (beq_list_symm (fun v hv _ => ih v hv) h)
  | obj members ih =>
    rw [← alike_iff] at h ⊢
    cases h with
    | obj h =>
      refine .obj (beq_list_symm (fun m hm n hmn => ?_) h)
      rw [beq_entry_iff] at hmn ⊢
      exact ⟨hmn.1.symm, ih m hm hmn.2⟩

theorem beq_trans {u v w : Json} (h : (u == v) = true) (h' : (v == w) = true) : (u == w) = true := by
  induction u using Json.induct generalizing v w with
  | null | bool | str =>
    rw [← alike_iff] at h
    cases h
    exact h'
  | num m =>
    rw [← alike_iff] at h h' ⊢
    cases h with
    | num h =>
      cases h' with
      | num h' => exact .num (BEq.trans h h')
  | arr items ih =>
    rw [← alike_iff] at h h' ⊢
    cases h with
    | arr h =>
      cases h' with
      | arr h' => exact .arr (beq_list_trans (fun v hv _ _ => ih v hv) h h')
  | obj members ih =>
    rw [← alike_iff] at h h' ⊢
    cases h with
    | obj h =>
      cases h' with
      | obj h' =>
        refine .obj (beq_list_trans (fun m hm n o hmn hno => ?_) h h')
        rw [beq_entry_iff] at hmn hno ⊢
        exact ⟨hmn.1.trans hno.1, ih m hm hmn.2 hno.2⟩

instance : PartialEquivBEq Json := ⟨beq_symm, beq_trans⟩

/-! ## The signs of zeros -/

mutual

/-- **The signs of the zeros** among the doubles of a value, in their order: set for a negative one. -/
def zeroSigns : Json → List Bool
  | num (.double x) => if x.isZero then [x.isNegative] else []
  | arr items => itemZeroSigns items
  | obj members => memberZeroSigns members
  | _ => []

def itemZeroSigns : List Json → List Bool
  | [] => []
  | v :: rest => v.zeroSigns ++ itemZeroSigns rest

def memberZeroSigns : List (String × Json) → List Bool
  | [] => []
  | (_, v) :: rest => v.zeroSigns ++ memberZeroSigns rest

end

theorem itemZeroSigns_eq (items : List Json) : itemZeroSigns items = items.flatMap zeroSigns := by
  induction items with
  | nil => rfl
  | cons v rest ih => rw [itemZeroSigns, ih, List.flatMap_cons]

theorem memberZeroSigns_eq (members : List (String × Json)) :
    memberZeroSigns members = members.flatMap fun m => m.2.zeroSigns := by
  induction members with
  | nil => rfl
  | cons m rest ih => rw [memberZeroSigns, ih, List.flatMap_cons]

end Json

/-- **Signs tell one thing from another**, if there are as many for both and the same only for the
same. -/
structure ToldBy {α : Type} (signs : α → List Bool) (a b : α) : Prop where
  length_eq : (signs a).length = (signs b).length
  eq_of_eq : signs a = signs b → a = b

/-- What tells the items of equal lists apart tells the lists apart. -/
theorem ToldBy.flatMap {α : Type} [BEq α] {signs : α → List Bool} {as bs : List α}
    (h : (as == bs) = true) (hitem : ∀ a ∈ as, ∀ b, (a == b) = true → ToldBy signs a b) :
    ToldBy (List.flatMap signs) as bs := by
  induction as generalizing bs with
  | nil =>
    obtain rfl : bs = [] := by cases bs <;> simp_all
    exact ⟨rfl, fun _ => rfl⟩
  | cons a as ih =>
    rcases bs with - | ⟨b, bs⟩
    · simp at h
    · rw [List.cons_beq_cons, Bool.and_eq_true] at h
      obtain ⟨ha, has⟩ := List.forall_mem_cons.mp hitem
      have hhead := ha b h.1
      have htail := ih h.2 has
      refine ⟨?_, fun hsigns => ?_⟩
      · rw [List.flatMap_cons, List.flatMap_cons, List.length_append, List.length_append,
          hhead.length_eq, htail.length_eq]
      · rw [List.flatMap_cons, List.flatMap_cons] at hsigns
        obtain ⟨h₁, h₂⟩ := List.append_inj hsigns hhead.length_eq
        rw [hhead.eq_of_eq h₁, htail.eq_of_eq h₂]

namespace Json

/-- Equal numbers differ in the sign of a zero at most. -/
theorem toldBy_num {m n : Number} (h : (m == n) = true) : ToldBy zeroSigns (num m) (num n) := by
  match m, n, h with
  | .int i, .int j, h =>
    obtain rfl := eq_of_beq (α := Int) h
    exact ⟨rfl, fun _ => rfl⟩
  | .double x, .double y, h =>
    have hzero : x.isZero = y.isZero := Binary64.isZero_of_eq h
    refine ⟨?_, fun hsigns => ?_⟩
    · rw [zeroSigns, zeroSigns, hzero]
      split <;> rfl
    · refine congrArg (num <| .double ·) (Binary64.same_of_eq h fun hx => ?_)
      rw [zeroSigns, zeroSigns, ← hzero, if_pos hx, if_pos hx] at hsigns
      exact List.head_eq_of_cons_eq hsigns

theorem toldBy_zeroSigns {v w : Json} (h : (v == w) = true) : ToldBy zeroSigns v w := by
  induction v using Json.induct generalizing w with
  | null | bool | str =>
    rw [← alike_iff] at h
    cases h
    exact ⟨rfl, fun _ => rfl⟩
  | num m =>
    rw [← alike_iff] at h
    cases h with
    | num h => exact toldBy_num h
  | arr items ih =>
    rw [← alike_iff] at h
    cases h with
    | @arr _ others h =>
      obtain ⟨hlength, heq⟩ := ToldBy.flatMap h fun v hv _ => ih v hv
      rw [← itemZeroSigns_eq, ← itemZeroSigns_eq] at hlength heq
      exact ⟨hlength, fun hsigns => congrArg arr (heq hsigns)⟩
  | obj members ih =>
    rw [← alike_iff] at h
    cases h with
    | @obj _ others h =>
      have hmember : ∀ m ∈ members, ∀ n, (m == n) = true → ToldBy (fun m => m.2.zeroSigns) m n := by
        intro m hm n hmn
        rw [beq_entry_iff] at hmn
        obtain ⟨hlength, heq⟩ := ih m hm hmn.2
        exact ⟨hlength, fun hsigns => Prod.ext hmn.1 (heq hsigns)⟩
      obtain ⟨hlength, heq⟩ := ToldBy.flatMap h hmember
      rw [← memberZeroSigns_eq, ← memberZeroSigns_eq] at hlength heq
      exact ⟨hlength, fun hsigns => congrArg obj (heq hsigns)⟩

/-- **Equal values with the same signs of zeros are the same.** -/
theorem eq_of_beq {v w : Json} (h : (v == w) = true) (hsigns : v.zeroSigns = w.zeroSigns) : v = w :=
  (toldBy_zeroSigns h).eq_of_eq hsigns

end Json

end FeatureFlags
