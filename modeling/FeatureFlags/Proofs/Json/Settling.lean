import FeatureFlags.Proofs.Collections.KeyMap
import FeatureFlags.Proofs.Json.Lexing
import FeatureFlags.Proofs.Json.Written

/-!
# Proofs/Json/Settling — what a written value keeps when it is read

Reading sorts the members of every object and drops all but the last of equal keys.  A property of
the objects of a written value passes to the value read from it (`Json.All.settled`), reading again
changes nothing (`Json.settled_settled`), and a value that repeats no key keeps its depth
(`Json.depth_settled`).
-/

namespace FeatureFlags

/-! ## Rows between commas -/

namespace Token

/-- **Rows with commas between them.** -/
def separated : List (List Token) → List Token
  | [] => []
  | p :: rest => p ++ rest.flatMap (.comma :: ·)

theorem forall_separated {p : Token → Prop} (hcomma : p .comma) {rows : List (List Token)} :
    (∀ t ∈ separated rows, p t) ↔ ∀ row ∈ rows, ∀ t ∈ row, p t := by
  cases rows with
  | nil => simp [separated]
  | cons row rest =>
    simp only [separated, List.mem_append, List.mem_flatMap, List.mem_cons, or_imp, forall_and,
      forall_eq]
    refine and_congr_right fun _ => ⟨fun h row hrow t ht => h t ⟨row, hrow, .inr ht⟩, ?_⟩
    rintro h t ⟨row, hrow, rfl | ht⟩
    · exact hcomma
    · exact h row hrow t ht

theorem mem_separated {rows : List (List Token)} {row : List Token} (hrow : row ∈ rows) {t : Token}
    (ht : t ∈ row) : t ∈ separated rows := by
  cases rows with
  | nil => cases hrow
  | cons first rest =>
    rw [separated]
    rcases List.mem_cons.mp hrow with rfl | hrow
    · exact List.mem_append_left _ ht
    · exact List.mem_append_right _
        (List.mem_flatMap.mpr ⟨row, hrow, List.mem_cons_of_mem _ ht⟩)

end Token

namespace Json

open Token

/-- The tokens of a member. -/
def field (m : String × Json) : List Token := .str m.1 :: .colon :: m.2.tokens

theorem itemTokens_eq (items : List Json) : itemTokens items = separated (items.map tokens) := by
  have hmore (rest : List Json) : moreItems rest = (rest.map tokens).flatMap (.comma :: ·) := by
    induction rest with
    | nil => rfl
    | cons v rest ih => rw [moreItems, ih, List.map_cons, List.flatMap_cons, List.cons_append]
  cases items with
  | nil => rfl
  | cons v rest => rw [itemTokens, hmore, List.map_cons, separated]

theorem memberTokens_eq (members : List (String × Json)) :
    memberTokens members = separated (members.map field) := by
  have hmore (rest : List (String × Json)) :
      moreMembers rest = (rest.map field).flatMap (.comma :: ·) := by
    induction rest with
    | nil => rfl
    | cons m rest ih =>
      rw [moreMembers, ih, List.map_cons, List.flatMap_cons]
      rfl
  cases members with
  | nil => rfl
  | cons m rest =>
    rw [memberTokens, hmore, List.map_cons, separated]
    rfl

/-! ## Properties of everything in a value -/

/-- The items of an array, the values of an object. -/
def children : Json → List Json
  | arr items => items
  | obj members => members.map (·.2)
  | _ => []

/-- **A property of a value and of everything in it.** -/
inductive All (p : Json → Prop) : Json → Prop
  | mk {v : Json} (self : p v) (inner : ∀ w ∈ v.children, All p w) : All p v

variable {p q : Json → Prop}

theorem all_iff {v : Json} : All p v ↔ p v ∧ ∀ w ∈ v.children, All p w :=
  ⟨fun ⟨self, inner⟩ => ⟨self, inner⟩, fun ⟨self, inner⟩ => ⟨self, inner⟩⟩

theorem all_arr {items : List Json} : All p (arr items) ↔ p (arr items) ∧ ∀ v ∈ items, All p v :=
  all_iff

theorem all_obj {members : List (String × Json)} :
    All p (obj members) ↔ p (obj members) ∧ ∀ m ∈ members, All p m.2 := by
  rw [all_iff, children, List.forall_mem_map]

theorem all_leaf {v : Json} (h : v.children = []) : All p v ↔ p v := by
  rw [all_iff, h]
  simp

theorem all_str {s : String} : All p (str s) ↔ p (str s) := all_leaf rfl

theorem All.self {v : Json} (h : All p v) : p v := (all_iff.mp h).1

theorem all_of_forall (h : ∀ v, p v) (v : Json) : All p v := by
  induction v using Json.induct with
  | null | bool | num | str => exact (all_leaf rfl).mpr (h _)
  | arr items ih => exact all_arr.mpr ⟨h _, ih⟩
  | obj members ih => exact all_obj.mpr ⟨h _, ih⟩

theorem All.imp (h : ∀ v, p v → q v) {v : Json} (hv : All p v) : All q v := by
  induction hv with
  | mk self _ ih => exact ⟨h _ self, ih⟩

mutual

/-- The test passes in a value and in everything in it. -/
def every (test : Json → Bool) : Json → Bool
  | null => test null
  | bool b => test (bool b)
  | num n => test (num n)
  | str s => test (str s)
  | arr items => test (arr items) && everyItem test items
  | obj members => test (obj members) && everyMember test members

def everyItem (test : Json → Bool) : List Json → Bool
  | [] => true
  | v :: rest => v.every test && everyItem test rest

def everyMember (test : Json → Bool) : List (String × Json) → Bool
  | [] => true
  | (_, v) :: rest => v.every test && everyMember test rest

end

theorem everyItem_eq_all (test : Json → Bool) (items : List Json) :
    everyItem test items = items.all (every test) := by
  induction items with
  | nil => rfl
  | cons v rest ih => rw [everyItem, ih, List.all_cons]

theorem everyMember_eq_all (test : Json → Bool) (members : List (String × Json)) :
    everyMember test members = members.all fun m => m.2.every test := by
  induction members with
  | nil => rfl
  | cons m rest ih => rw [everyMember, ih, List.all_cons]

theorem every_iff {p : Json → Prop} [DecidablePred p] (v : Json) :
    every (fun u => decide (p u)) v = true ↔ All p v := by
  induction v using Json.induct with
  | null | bool | num | str => rw [all_leaf rfl, every, decide_eq_true_iff]
  | arr items ih =>
    rw [all_arr, every, everyItem_eq_all, Bool.and_eq_true, decide_eq_true_iff, List.all_eq_true]
    exact and_congr_right fun _ => forall₂_congr ih
  | obj members ih =>
    rw [all_obj, every, everyMember_eq_all, Bool.and_eq_true, decide_eq_true_iff, List.all_eq_true]
    exact and_congr_right fun _ => forall₂_congr ih

instance {p : Json → Prop} [DecidablePred p] : DecidablePred (All p) := fun v =>
  decidable_of_iff _ (every_iff v)

/-- A property of the members of a value, if it is an object. -/
def OnMembers (p : List (String × Json) → Prop) : Json → Prop
  | obj members => p members
  | _ => True

theorem onMembers_obj {p : List (String × Json) → Prop} {members : List (String × Json)} :
    OnMembers p (obj members) ↔ p members := Iff.rfl

theorem OnMembers.imp {p q : List (String × Json) → Prop} (h : ∀ members, p members → q members)
    {v : Json} (hv : OnMembers p v) : OnMembers q v := by
  cases v with
  | obj members => exact h members hv
  | _ => trivial

instance {p : List (String × Json) → Prop} [DecidablePred p] : DecidablePred (OnMembers p)
  | obj members => inferInstanceAs (Decidable (p members))
  | null | bool _ | num _ | str _ | arr _ => isTrue trivial

/-- **No object has a key** but those among the given ones. -/
def HasKeys (keys : String → Prop) : Json → Prop := OnMembers fun members => ∀ m ∈ members, keys m.1

/-- **No key stands twice.** -/
def HasDistinctKeys : Json → Prop := OnMembers fun members => (members.map (·.1)).Nodup

instance {keys : String → Prop} [DecidablePred keys] : DecidablePred (HasKeys keys) :=
  inferInstanceAs (DecidablePred (OnMembers fun members => ∀ m ∈ members, keys m.1))

instance : DecidablePred HasDistinctKeys :=
  inferInstanceAs (DecidablePred (OnMembers fun members => (members.map (·.1)).Nodup))

/-- The value, if a number, can be written. -/
def IsReadable : Json → Prop
  | num n => n.Readable
  | _ => True

/-- **The tokens of a value can be written** when its numbers can. -/
theorem forall_readable_iff (v : Json) : (∀ t ∈ v.tokens, t.Readable) ↔ All IsReadable v := by
  have hrows {opener closer : Token} (hopener : opener.Readable) (hcloser : closer.Readable)
      (rows : List (List Token)) :
      (∀ t ∈ opener :: (separated rows ++ [closer]), t.Readable) ↔
        ∀ row ∈ rows, ∀ t ∈ row, t.Readable := by
    rw [List.forall_mem_cons, and_iff_right hopener, List.forall_mem_append,
      List.forall_mem_singleton, and_iff_left hcloser,
      forall_separated (show Readable .comma from trivial)]
  induction v using Json.induct with
  | null | bool | num | str =>
    rw [all_leaf rfl]
    simp [tokens, IsReadable, Readable]
  | arr items ih =>
    rw [all_arr, and_iff_right (show IsReadable (arr items) from trivial), tokens, itemTokens_eq,
      @hrows .openBracket .closeBracket trivial trivial, List.forall_mem_map]
    exact forall₂_congr fun v hv => ih v hv
  | obj members ih =>
    have hfield (m : String × Json) :
        (∀ t ∈ field m, t.Readable) ↔ ∀ t ∈ m.2.tokens, t.Readable := by
      rw [field, List.forall_mem_cons, List.forall_mem_cons]
      exact (and_iff_right trivial).trans (and_iff_right trivial)
    rw [all_obj, and_iff_right (show IsReadable (obj members) from trivial), tokens, memberTokens_eq,
      @hrows .openBrace .closeBrace trivial trivial, List.forall_mem_map]
    exact forall₂_congr fun m hm => (hfield m).trans (ih m hm)

/-- **The keys of a value are among its strings.** -/
theorem all_hasKeys_of_tokens {keys : String → Prop} {v : Json}
    (h : ∀ s, .str s ∈ v.tokens → keys s) : All (HasKeys keys) v := by
  induction v using Json.induct with
  | null | bool | num | str => exact (all_leaf rfl).mpr trivial
  | arr items ih =>
    refine all_arr.mpr ⟨trivial, fun v hv => ih v hv fun s hs => h s ?_⟩
    rw [tokens, itemTokens_eq]
    exact List.mem_cons_of_mem _ (List.mem_append_left _
      (mem_separated (List.mem_map_of_mem hv) hs))
  | obj members ih =>
    have hfield {m : String × Json} (hm : m ∈ members) {t : Token} (ht : t ∈ field m) :
        t ∈ (obj members).tokens := by
      rw [tokens, memberTokens_eq]
      exact List.mem_cons_of_mem _ (List.mem_append_left _
        (mem_separated (List.mem_map_of_mem hm) ht))
    refine all_obj.mpr ⟨onMembers_obj.mpr fun m hm => h m.1 (hfield hm List.mem_cons_self),
      fun m hm => ih m hm fun s hs => h s (hfield hm ?_)⟩
    exact List.mem_cons_of_mem _ (List.mem_cons_of_mem _ hs)

/-! ## What is read -/

theorem mem_settledMembers {members done : List (String × Json)} {e : String × Json}
    (h : e ∈ settledMembers members done) :
    e ∈ done ∨ ∃ m ∈ members, e = (m.1, m.2.settled) := by
  induction members generalizing done with
  | nil => exact .inl h
  | cons m rest ih =>
    obtain ⟨key, v⟩ := m
    rcases ih h with hdone | ⟨m, hm, he⟩
    · rcases mem_insertEntry hdone with rfl | hdone
      · exact .inr ⟨(key, v), List.mem_cons_self, rfl⟩
      · exact .inl hdone
    · exact .inr ⟨m, List.mem_cons_of_mem _ hm, he⟩

theorem ascending_settledMembers {members done : List (String × Json)} (h : Ascending done) :
    Ascending (settledMembers members done) := by
  induction members generalizing done with
  | nil => exact h
  | cons m rest ih => exact ih (ascending_insertEntry m.1 m.2.settled h)

/-- **Of equal keys the last is read.** -/
theorem valueAt?_settledMembers (key : String) (members done : List (String × Json)) :
    valueAt? key (settledMembers members done) =
      ((members.filter (·.1 = key)).getLast?.map (·.2.settled)).or (valueAt? key done) := by
  induction members generalizing done with
  | nil => rfl
  | cons m rest ih =>
    rw [settledMembers, ih, valueAt?_insertEntry, List.filter_cons]
    by_cases hkey : m.1 = key
    · rw [if_pos hkey, if_pos (by simpa using hkey), List.getLast?_cons]
      cases (rest.filter (·.1 = key)).getLast? <;> rfl
    · rw [if_neg hkey, if_neg (by simpa using hkey)]

/-- … and of distinct keys each. -/
theorem valueAt?_settledMembers_of_mem {members : List (String × Json)}
    (hdistinct : (members.map (·.1)).Nodup) {m : String × Json} (hm : m ∈ members) :
    valueAt? m.1 (settledMembers members []) = some m.2.settled := by
  have hkey : m ∈ members.filter (·.1 = m.1) := List.mem_filter.mpr ⟨hm, by simp⟩
  rw [valueAt?_settledMembers]
  rcases hlast : (members.filter (·.1 = m.1)).getLast? with - | e
  · rw [List.getLast?_eq_none_iff.mp hlast] at hkey
    cases hkey
  · obtain ⟨he, hsame⟩ := List.mem_filter.mp (List.mem_of_getLast? hlast)
    obtain rfl : e = m := List.inj_on_of_nodup_map hdistinct he hm (by simpa using hsame)
    rw [hlast]
    rfl

theorem isObject_settled (v : Json) : v.settled.isObject = v.isObject := by
  cases v <;> rfl

/-- **A property of all objects passes to the value that is read**, if reading an object keeps it. -/
theorem All.settled (hp : ∀ v, p v → q v.settled) {v : Json} (h : All p v) : All q v.settled := by
  induction v using Json.induct with
  | null | bool | num | str => exact (all_leaf rfl).mpr (hp _ h.self)
  | arr items ih =>
    obtain ⟨hself, hitems⟩ := all_arr.mp h
    refine all_arr.mpr ⟨hp _ hself, fun u hu => ?_⟩
    rw [settledItems_eq_map] at hu
    obtain ⟨v, hv, rfl⟩ := List.mem_map.mp hu
    exact ih v hv (hitems v hv)
  | obj members ih =>
    obtain ⟨hself, hmembers⟩ := all_obj.mp h
    refine all_obj.mpr ⟨hp _ hself, fun e he => ?_⟩
    rcases mem_settledMembers he with he | ⟨m, hm, rfl⟩
    · cases he
    · exact ih m hm (hmembers m hm)

theorem HasKeys.settled {keys : String → Prop} {v : Json} (h : HasKeys keys v) :
    HasKeys keys v.settled := by
  cases v with
  | obj members =>
    refine onMembers_obj.mpr fun e he => ?_
    rcases mem_settledMembers he with he | ⟨m, hm, rfl⟩
    · cases he
    · exact onMembers_obj.mp h m hm
  | _ => trivial

theorem IsReadable.settled {v : Json} (h : IsReadable v) : IsReadable v.settled := by
  cases v with
  | num n => exact h
  | _ => trivial

/-- **What is read repeats no key.** -/
theorem hasDistinctKeys_settled (v : Json) : HasDistinctKeys v.settled := by
  cases v with
  | obj members =>
    refine onMembers_obj.mpr (List.pairwise_map.mpr ?_)
    refine (ascending_settledMembers List.Pairwise.nil).imp fun hlt heq => ?_
    exact String.lt_irrefl _ (heq ▸ hlt)
  | _ => trivial

theorem all_hasDistinctKeys_settled (v : Json) : All HasDistinctKeys v.settled :=
  (all_of_forall (p := fun _ => True) (fun _ => trivial) v).settled fun v _ =>
    hasDistinctKeys_settled v

/-- **In what is read the members of each object ascend.** -/
theorem all_ascending_settled (v : Json) : All (OnMembers Ascending) v.settled := by
  refine All.settled (p := fun _ => True) (fun v _ => ?_) (all_of_forall (fun _ => trivial) v)
  cases v with
  | obj members => exact ascending_settledMembers List.Pairwise.nil
  | _ => trivial

/-- Members with ascending keys stay where they stand. -/
theorem settledMembers_of_ascending {members done : List (String × Json)}
    (h : Ascending (done ++ members)) :
    settledMembers members done = done ++ members.map fun m => (m.1, m.2.settled) := by
  induction members generalizing done with
  | nil => exact (List.append_nil done).symm
  | cons m rest ih =>
    have hlt : ∀ e ∈ done, e.1 < m.1 := fun e he =>
      (List.pairwise_append.mp h).2.2 e he m List.mem_cons_self
    have hnext : Ascending (done ++ [(m.1, m.2.settled)] ++ rest) := by
      rw [Ascending, ← List.pairwise_map (f := Prod.fst) (R := (· < ·))] at h ⊢
      simpa using h
    rw [settledMembers, insertEntry_of_forall_lt hlt, ih hnext, List.map_cons, List.append_assoc,
      List.singleton_append]

/-- **Reading again changes nothing.** -/
theorem settled_settled (v : Json) : v.settled.settled = v.settled := by
  induction v using Json.induct with
  | null | bool | num | str => rfl
  | arr items ih =>
    rw [settled, settled, settledItems_eq_map, settledItems_eq_map, List.map_map]
    exact congrArg arr (List.map_congr_left ih)
  | obj members ih =>
    have hascending := @ascending_settledMembers members [] List.Pairwise.nil
    rw [settled, settled, @settledMembers_of_ascending _ [] hascending, List.nil_append]
    refine congrArg obj ((List.map_congr_left fun e he => ?_).trans (List.map_id _))
    rcases mem_settledMembers he with he | ⟨m, hm, rfl⟩
    · cases he
    · rw [ih m hm, id]

/-! ## Depth -/

theorem membersDepth_insertEntry {key : String} {v : Json} {done : List (String × Json)}
    (h : ∀ e ∈ done, e.1 ≠ key) :
    membersDepth (insertEntry key v done) = max v.depth (membersDepth done) := by
  induction done with
  | nil => rfl
  | cons e rest ih =>
    obtain ⟨k, u⟩ := e
    obtain ⟨hk, hrest⟩ := List.forall_mem_cons.mp h
    rw [insertEntry]
    split
    · rfl
    · split
      · rw [membersDepth, membersDepth, ih hrest, max_left_comm]
      · rename_i hlt hgt
        exact absurd (eq_of_not_lt hgt hlt) hk

/-- Members that repeat no key, set one after another, are as deep as they stand. -/
theorem membersDepth_settledMembers {members done : List (String × Json)}
    (hdistinct : (members.map (·.1)).Nodup) (hfresh : ∀ m ∈ members, ∀ e ∈ done, e.1 ≠ m.1)
    (hdepth : ∀ m ∈ members, m.2.settled.depth = m.2.depth) :
    membersDepth (settledMembers members done) = max (membersDepth members) (membersDepth done) := by
  induction members generalizing done with
  | nil => exact (Nat.zero_max _).symm
  | cons m rest ih =>
    obtain ⟨key, v⟩ := m
    obtain ⟨hkey, hrest⟩ := List.nodup_cons.mp hdistinct
    obtain ⟨hv, hdepth⟩ := List.forall_mem_cons.mp hdepth
    obtain ⟨hnew, hfresh⟩ := List.forall_mem_cons.mp hfresh
    have hnext : ∀ m ∈ rest, ∀ e ∈ insertEntry key v.settled done, e.1 ≠ m.1 := by
      intro m hm e he
      rcases mem_insertEntry he with rfl | he
      · exact fun heq => hkey (List.mem_map.mpr ⟨m, hm, heq.symm⟩)
      · exact hfresh m hm e he
    rw [settledMembers, ih hrest hnext hdepth, membersDepth_insertEntry hnew, membersDepth, hv,
      max_left_comm, max_assoc]

/-- **A value that repeats no key keeps its depth.** -/
theorem depth_settled {v : Json} (h : All HasDistinctKeys v) : v.settled.depth = v.depth := by
  induction v using Json.induct with
  | null | bool | num | str => rfl
  | arr items ih =>
    have hitems {items : List Json} (h : ∀ v ∈ items, v.settled.depth = v.depth) :
        itemsDepth (settledItems items) = itemsDepth items := by
      induction items with
      | nil => rfl
      | cons v rest ihr =>
        obtain ⟨hv, hrest⟩ := List.forall_mem_cons.mp h
        rw [settledItems, itemsDepth, itemsDepth, hv, ihr hrest]
    exact congrArg (· + 1) (hitems fun v hv => ih v hv ((all_arr.mp h).2 v hv))
  | obj members ih =>
    obtain ⟨hdistinct, hmembers⟩ := all_obj.mp h
    have hdepth := @membersDepth_settledMembers members [] (onMembers_obj.mp hdistinct)
      (fun _ _ _ he => absurd he List.not_mem_nil) fun m hm => ih m hm (hmembers m hm)
    exact congrArg (· + 1) (hdepth.trans (Nat.max_zero _))

end Json

end FeatureFlags
