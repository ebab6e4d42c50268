import FeatureFlags.Json.Printer
import FeatureFlags.Json.Reader

/-!
# Proofs/Json/Written — the rows of tokens that the reader accepts

A text writes the members of an object in some order, and may repeat a key.  So what a text writes
is a value whose members stand as written, the **written value**; reading it gives the **settled**
one, with ascending keys and the last of equal ones.

The reader accepts the tokens of a written value exactly when it is not nested too deep
(`Builder.run_tokens`), and it accepts nothing else (`Json.ofTokens?_eq_some_iff`).
-/

namespace FeatureFlags

namespace Json

/-! ## Induction and measures -/

/-- **Induction over values.**  A container is reached from its items or members. -/
@[elab_as_elim]
theorem induct {motive : Json → Prop} (null : motive null) (bool : ∀ b, motive (bool b))
    (num : ∀ n, motive (num n)) (str : ∀ s, motive (str s))
    (arr : ∀ items, (∀ v ∈ items, motive v) → motive (arr items))
    (obj : ∀ members, (∀ m ∈ members, motive m.2) → motive (obj members)) : ∀ v, motive v
  | .null => null
  | .bool b => bool b
  | .num n => num n
  | .str s => str s
  | .arr items => arr items fun v _ => induct null bool num str arr obj v
  | .obj members => obj members fun m _ => induct null bool num str arr obj m.2
termination_by v => sizeOf v
decreasing_by
  · have := List.sizeOf_lt_of_mem ‹_ ∈ _›
    simp only [Json.arr.sizeOf_spec]
    omega
  · have := List.sizeOf_lt_of_mem ‹_ ∈ _›
    obtain ⟨key, v⟩ := m
    simp only [Json.obj.sizeOf_spec, Prod.mk.sizeOf_spec] at this ⊢
    omega

mutual

/-- **What reading a written value gives.** -/
def settled : Json → Json
  | null => null
  | bool b => bool b
  | num n => num n
  | str s => str s
  | arr items => arr (settledItems items)
  | obj members => obj (settledMembers members [])

def settledItems : List Json → List Json
  | [] => []
  | v :: rest => v.settled :: settledItems rest

/-- Members set one after another, on top of those that are there. -/
def settledMembers : List (String × Json) → List (String × Json) → List (String × Json)
  | [], done => done
  | (key, v) :: rest, done => settledMembers rest (insertEntry key v.settled done)

end

mutual

/-- How many containers are open at once. -/
def depth : Json → Nat
  | arr items => itemsDepth items + 1
  | obj members => membersDepth members + 1
  | _ => 0

def itemsDepth : List Json → Nat
  | [] => 0
  | v :: rest => max v.depth (itemsDepth rest)

def membersDepth : List (String × Json) → Nat
  | [] => 0
  | (_, v) :: rest => max v.depth (membersDepth rest)

end

theorem settledItems_eq_map (items : List Json) : settledItems items = items.map settled := by
  induction items with
  | nil => rfl
  | cons v rest ih => rw [settledItems, ih, List.map_cons]

theorem settledMembers_append (first second done : List (String × Json)) :
    settledMembers (first ++ second) done = settledMembers second (settledMembers first done) := by
  induction first generalizing done with
  | nil => rfl
  | cons m rest ih =>
    obtain ⟨key, v⟩ := m
    exact ih _

end Json

/-! ## Accepting what a value writes -/

namespace Builder

/-- **Takes a row of tokens.** -/
def run (state : State) (tokens : List Token) : Option State := tokens.foldlM step state

@[simp] theorem run_nil (state : State) : run state [] = some state := rfl

@[simp] theorem run_cons (state : State) (t : Token) (ts : List Token) :
    run state (t :: ts) = (step state t).bind (run · ts) := List.foldlM_cons

theorem run_append (state : State) (ts us : List Token) :
    run state (ts ++ us) = (run state ts).bind (run · us) := List.foldlM_append

open Json

/-- **A written value fits** under so many open containers. -/
def Fits (frames : List Frame) (depth : Nat) : Prop := frames.length + depth ≤ deepest

instance (frames : List Frame) (depth : Nat) : Decidable (Fits frames depth) :=
  inferInstanceAs (Decidable (_ ≤ _))

theorem fits_cons {frame : Frame} {frames : List Frame} {depth : Nat} :
    Fits (frame :: frames) depth ↔ Fits frames (depth + 1) := by
  simp only [Fits, List.length_cons]
  omega

theorem fits_max_succ {frames : List Frame} {d e : Nat} :
    Fits frames (max d e + 1) ↔ Fits frames (d + 1) ∧ Fits frames (e + 1) := by
  simp only [Fits]
  omega

/-- The tokens of a value, taken where one is due, complete it if it fits. -/
def Accepts (v : Json) : Prop :=
  ∀ frames, Fits frames 0 → run ⟨frames, .value⟩ v.tokens =
    if Fits frames v.depth then some (complete v.settled frames) else none

/-- Where the first item is due, any value does as well as where a value is due. -/
theorem run_firstItem (frames : List Frame) (v : Json) :
    run ⟨frames, .firstItem⟩ v.tokens = run ⟨frames, .value⟩ v.tokens := by
  cases v <;> simp [tokens, step]

variable {frames : List Frame}

theorem run_moreItems {items : List Json} (h : ∀ v ∈ items, Accepts v) (hroom : Fits frames 1)
    (rev : List Json) :
    run ⟨frames, .itemEnd rev⟩ (moreItems items) =
      if Fits frames (itemsDepth items + 1) then
        some ⟨frames, .itemEnd ((settledItems items).reverse ++ rev)⟩
      else none := by
  induction items generalizing rev with
  | nil => simp [moreItems, itemsDepth, settledItems, hroom]
  | cons v rest ih =>
    have hv := h v List.mem_cons_self (.items rev :: frames) (fits_cons.mpr hroom)
    have hrest := ih (fun w hw => h w (List.mem_cons_of_mem _ hw)) (v.settled :: rev)
    simp only [moreItems, run_cons, step, Option.bind_some, run_append, hv, itemsDepth,
      fits_cons, fits_max_succ]
    by_cases hfits : Fits frames (v.depth + 1)
    · simp [hfits, complete, hrest, settledItems]
    · simp [hfits]

theorem run_itemTokens {items : List Json} (h : ∀ v ∈ items, Accepts v) (hroom : Fits frames 1) :
    run ⟨.items [] :: frames, .firstItem⟩ (itemTokens items ++ [.closeBracket]) =
      if Fits frames (itemsDepth items + 1) then some (complete (arr items).settled frames)
      else none := by
  cases items with
  | nil => simp [itemTokens, itemsDepth, settled, settledItems, step, hroom]
  | cons v rest =>
    have hv := h v List.mem_cons_self (.items [] :: frames) (fits_cons.mpr hroom)
    have hrest :=
      run_moreItems (fun w hw => h w (List.mem_cons_of_mem _ hw)) hroom [v.settled]
    simp only [itemTokens, run_append, run_firstItem, hv, itemsDepth, fits_cons, fits_max_succ]
    by_cases hfits : Fits frames (v.depth + 1)
    · by_cases hmore : Fits frames (itemsDepth rest + 1) <;>
        simp [hfits, hmore, complete, hrest, settled, settledItems, step]
    · simp [hfits]

theorem run_moreMembers {members : List (String × Json)} (h : ∀ m ∈ members, Accepts m.2)
    (hroom : Fits frames 1) (done : List (String × Json)) :
    run ⟨frames, .memberEnd done⟩ (moreMembers members) =
      if Fits frames (membersDepth members + 1) then
        some ⟨frames, .memberEnd (settledMembers members done)⟩
      else none := by
  induction members generalizing done with
  | nil => simp [moreMembers, membersDepth, settledMembers, hroom]
  | cons m rest ih =>
    obtain ⟨key, v⟩ := m
    have hv := h (key, v) List.mem_cons_self (.member done key :: frames) (fits_cons.mpr hroom)
    have hrest := ih (fun w hw => h w (List.mem_cons_of_mem _ hw)) (insertEntry key v.settled done)
    simp only [moreMembers, run_cons, step, Option.bind_some, run_append, hv, membersDepth,
      fits_cons, fits_max_succ]
    by_cases hfits : Fits frames (v.depth + 1)
    · simp [hfits, complete, hrest, settledMembers]
    · simp [hfits]

theorem run_memberTokens {members : List (String × Json)} (h : ∀ m ∈ members, Accepts m.2)
    (hroom : Fits frames 1) :
    run ⟨frames, .firstKey⟩ (memberTokens members ++ [.closeBrace]) =
      if Fits frames (membersDepth members + 1) then some (complete (obj members).settled frames)
      else none := by
  cases members with
  | nil => simp [memberTokens, membersDepth, settled, settledMembers, step, hroom]
  | cons m rest =>
    obtain ⟨key, v⟩ := m
    have hv := h (key, v) List.mem_cons_self (.member [] key :: frames) (fits_cons.mpr hroom)
    have hrest := run_moreMembers (fun w hw => h w (List.mem_cons_of_mem _ hw)) hroom
      (insertEntry key v.settled [])
    simp only [memberTokens, List.cons_append, run_cons, step, Option.bind_some, run_append, hv,
      membersDepth, fits_cons, fits_max_succ]
    by_cases hfits : Fits frames (v.depth + 1)
    · by_cases hmore : Fits frames (membersDepth rest + 1) <;>
        simp [hfits, hmore, complete, hrest, settled, settledMembers]
    · simp [hfits]

/-- **The reader accepts what a value writes, unless it is nested too deep.** -/
theorem run_tokens (v : Json) : Accepts v := by
  induction v using Json.induct with
  | null | bool | num | str =>
    intro frames hroom
    simp [tokens, step, begin, settled, depth, hroom]
  | arr items ih =>
    intro frames _
    rw [show depth (arr items) = itemsDepth items + 1 from rfl]
    by_cases hroom : Fits frames 1
    · have hlt : frames.length < deepest := hroom
      simp [tokens, step, begin, hlt, run_itemTokens ih hroom]
    · have hlt : ¬ frames.length < deepest := hroom
      have hfits : ¬ Fits frames (itemsDepth items + 1) := by simp only [Fits] at *; omega
      simp [tokens, step, begin, hlt, hfits]
  | obj members ih =>
    intro frames _
    rw [show depth (obj members) = membersDepth members + 1 from rfl]
    by_cases hroom : Fits frames 1
    · have hlt : frames.length < deepest := hroom
      simp [tokens, step, begin, hlt, run_memberTokens ih hroom]
    · have hlt : ¬ frames.length < deepest := hroom
      have hfits : ¬ Fits frames (membersDepth members + 1) := by simp only [Fits] at *; omega
      simp [tokens, step, begin, hlt, hfits]

/-! ## Accepting nothing else

What the reader has taken so far is written out again from its state: the open containers, each with
what precedes its unfinished part, and then that part. -/

section Written

/-- Items, each with the comma behind it. -/
def itemRow (done : List Json) : List Token := done.flatMap fun v => v.tokens ++ [.comma]

/-- Members, each with the comma behind it. -/
def memberRow (done : List (String × Json)) : List Token :=
  done.flatMap fun m => .str m.1 :: .colon :: (m.2.tokens ++ [.comma])

theorem itemRow_concat (done : List Json) (v : Json) :
    itemRow (done ++ [v]) = itemRow done ++ (v.tokens ++ [.comma]) := by
  simp [itemRow]

theorem memberRow_concat (done : List (String × Json)) (m : String × Json) :
    memberRow (done ++ [m]) = memberRow done ++ .str m.1 :: .colon :: (m.2.tokens ++ [.comma]) := by
  simp [memberRow]

theorem moreItems_concat (done : List Json) (v : Json) :
    moreItems (done ++ [v]) = .comma :: (itemRow done ++ v.tokens) := by
  induction done with
  | nil => simp [moreItems, itemRow]
  | cons w rest ih => simp [moreItems, ih, itemRow]

theorem itemTokens_concat (done : List Json) (v : Json) :
    itemTokens (done ++ [v]) = itemRow done ++ v.tokens := by
  cases done with
  | nil => simp [itemTokens, moreItems, itemRow]
  | cons w rest => simp [itemTokens, moreItems_concat, itemRow]

theorem moreMembers_concat (done : List (String × Json)) (m : String × Json) :
    moreMembers (done ++ [m]) = .comma :: (memberRow done ++ .str m.1 :: .colon :: m.2.tokens) := by
  induction done with
  | nil => simp [moreMembers, memberRow]
  | cons w rest ih => simp [moreMembers, ih, memberRow]

theorem memberTokens_concat (done : List (String × Json)) (m : String × Json) :
    memberTokens (done ++ [m]) = memberRow done ++ .str m.1 :: .colon :: m.2.tokens := by
  cases done with
  | nil => simp [memberTokens, moreMembers, memberRow]
  | cons w rest => simp [memberTokens, moreMembers_concat, memberRow]

/-- **What opens the containers** of a stack: each container's finished parts, with the comma behind
them, and the key whose value comes. -/
inductive Opens : List Token → List Frame → Prop
  | nil : Opens [] []
  | items {ts frames} (h : Opens ts frames) (done : List Json) :
    Opens (ts ++ .openBracket :: itemRow done) (.items (settledItems done).reverse :: frames)
  | member {ts frames} (h : Opens ts frames) (done : List (String × Json)) (key : String) :
    Opens (ts ++ .openBrace :: (memberRow done ++ [.str key, .colon]))
      (.member (settledMembers done []) key :: frames)

/-- **What brings the reader to a state.** -/
inductive Reaches : List Token → State → Prop
  | value {ts frames} (h : Opens ts frames) : Reaches ts ⟨frames, .value⟩
  | firstItem {ts frames} (h : Opens ts frames) :
    Reaches (ts ++ [.openBracket]) ⟨.items [] :: frames, .firstItem⟩
  | itemEnd {ts frames} (h : Opens ts frames) (done : List Json) (v : Json) :
    Reaches (ts ++ .openBracket :: itemTokens (done ++ [v]))
      ⟨frames, .itemEnd (settledItems (done ++ [v])).reverse⟩
  | firstKey {ts frames} (h : Opens ts frames) :
    Reaches (ts ++ [.openBrace]) ⟨frames, .firstKey⟩
  | key {ts frames} (h : Opens ts frames) (done : List (String × Json)) :
    Reaches (ts ++ .openBrace :: memberRow done) ⟨frames, .key (settledMembers done [])⟩
  | colon {ts frames} (h : Opens ts frames) (done : List (String × Json)) (key : String) :
    Reaches (ts ++ .openBrace :: (memberRow done ++ [.str key]))
      ⟨frames, .colon (settledMembers done []) key⟩
  | memberEnd {ts frames} (h : Opens ts frames) (done : List (String × Json)) (m : String × Json) :
    Reaches (ts ++ .openBrace :: memberTokens (done ++ [m]))
      ⟨frames, .memberEnd (settledMembers (done ++ [m]) [])⟩
  | finished (v : Json) : Reaches v.tokens ⟨[], .finished v.settled⟩

/-- A written value completes what is open. -/
theorem Opens.complete {ts : List Token} {frames : List Frame} (h : Opens ts frames) (v : Json) :
    Reaches (ts ++ v.tokens) (complete v.settled frames) := by
  cases h with
  | nil => exact .finished v
  | items h done =>
    have := Reaches.itemEnd h done v
    rw [itemTokens_concat, settledItems_eq_map, List.map_append, List.reverse_append,
      ← settledItems_eq_map] at this
    simpa [Builder.complete, settledItems_eq_map] using this
  | member h done key =>
    have := Reaches.memberEnd h done (key, v)
    rw [memberTokens_concat, settledMembers_append] at this
    simpa [Builder.complete, settledMembers] using this

theorem Opens.begin {ts : List Token} {frames : List Frame} {t : Token} {state : State}
    (h : Opens ts frames) (hbegin : begin frames t = some state) : Reaches (ts ++ [t]) state := by
  cases t with
  | null => exact Option.some.inj hbegin ▸ h.complete .null
  | bool b => exact Option.some.inj hbegin ▸ h.complete (.bool b)
  | num n => exact Option.some.inj hbegin ▸ h.complete (.num n)
  | str s => exact Option.some.inj hbegin ▸ h.complete (.str s)
  | openBracket =>
    simp only [Builder.begin] at hbegin
    split at hbegin
    · exact Option.some.inj hbegin ▸ .firstItem h
    · cases hbegin
  | openBrace =>
    simp only [Builder.begin] at hbegin
    split at hbegin
    · exact Option.some.inj hbegin ▸ .firstKey h
    · cases hbegin
  | _ => cases hbegin

/-- **One token keeps what is written.** -/
theorem Reaches.step {ts : List Token} {state next : State} {t : Token} (h : Reaches ts state)
    (hstep : step state t = some next) : Reaches (ts ++ [t]) next := by
  cases h with
  | value h => exact h.begin hstep
  | firstItem h =>
    cases t with
    | closeBracket =>
      obtain rfl := Option.some.inj hstep
      simpa [tokens, itemTokens, settled, settledItems] using h.complete (.arr [])
    | _ => exact (h.items []).begin hstep
  | itemEnd h done v =>
    cases t with
    | comma =>
      obtain rfl := Option.some.inj hstep
      simpa [itemTokens_concat, itemRow_concat] using Reaches.value (h.items (done ++ [v]))
    | closeBracket =>
      obtain rfl := Option.some.inj hstep
      simpa [tokens, settled] using h.complete (.arr (done ++ [v]))
    | _ => cases hstep
  | firstKey h =>
    cases t with
    | closeBrace =>
      obtain rfl := Option.some.inj hstep
      simpa [tokens, memberTokens, settled, settledMembers] using h.complete (.obj [])
    | str key =>
      obtain rfl := Option.some.inj hstep
      simpa [memberRow, settledMembers] using Reaches.colon h [] key
    | _ => cases hstep
  | key h done =>
    cases t with
    | str key =>
      obtain rfl := Option.some.inj hstep
      simpa using Reaches.colon h done key
    | _ => cases hstep
  | colon h done key =>
    cases t with
    | colon =>
      obtain rfl := Option.some.inj hstep
      simpa using Reaches.value (h.member done key)
    | _ => cases hstep
  | memberEnd h done m =>
    cases t with
    | comma =>
      obtain rfl := Option.some.inj hstep
      simpa [memberTokens_concat, memberRow_concat] using Reaches.key h (done ++ [m])
    | closeBrace =>
      obtain rfl := Option.some.inj hstep
      simpa [tokens, settled] using h.complete (.obj (done ++ [m]))
    | _ => cases hstep
  | finished v => cases hstep

/-- **A run keeps what is written.** -/
theorem Reaches.run {ts us : List Token} {state next : State} (h : Reaches ts state)
    (hrun : run state us = some next) : Reaches (ts ++ us) next := by
  induction us generalizing ts state with
  | nil =>
    obtain rfl := Option.some.inj hrun
    rwa [List.append_nil]
  | cons t us ih =>
    rw [run_cons] at hrun
    obtain ⟨middle, hstep, hrest⟩ := Option.bind_eq_some_iff.mp hrun
    simpa using ih (h.step hstep) hrest

end Written

end Builder

namespace Json

open Builder

/-- What a value writes is read as the settled value. -/
theorem ofTokens?_tokens (w : Json) :
    ofTokens? w.tokens = if w.depth ≤ deepest then some w.settled else none := by
  have hrun := run_tokens w [] (Nat.zero_le _)
  rw [ofTokens?, show w.tokens.foldlM step start = run ⟨[], .value⟩ w.tokens from rfl, hrun]
  simp only [Fits, List.length_nil, Nat.zero_add]
  split <;> rfl

/-- **The reader accepts what is written and not nested too deep**, and nothing else. -/
theorem ofTokens?_eq_some_iff {ts : List Token} {v : Json} :
    ofTokens? ts = some v ↔ ∃ w : Json, w.tokens = ts ∧ w.depth ≤ deepest ∧ w.settled = v := by
  constructor
  · intro h
    obtain ⟨state, hrun, hresult⟩ := Option.bind_eq_some_iff.mp h
    have hreach := (Reaches.value Opens.nil).run hrun
    rw [List.nil_append] at hreach
    cases hreach with
    | finished w =>
      rw [ofTokens?_tokens] at h
      split at h
      · exact ⟨w, rfl, ‹_›, Option.some.inj h⟩
      · cases h
    | _ => simp [State.result?] at hresult
  · rintro ⟨w, rfl, hdepth, rfl⟩
    rw [ofTokens?_tokens, if_pos hdepth]

end Json

end FeatureFlags
