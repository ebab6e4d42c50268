import FeatureFlags.Json.Basic
import FeatureFlags.Proofs.Collections.Results
import FeatureFlags.Proofs.Text.Cuts
import FeatureFlags.Text.Numeral

/-!
# Proofs/Json/Pointer — pointers into a JSON value

A JSON pointer leads to a place in a value: a row of tokens, each behind a slash.  A token may hold a
slash or a tilde only escaped, so a pointer is read back as the tokens it was made of and as no others
(`tokens?_eq_some_iff`).  Tokens that are written down as they are make the same text exactly if none of
them holds either character (`path_eq_ofTokens_iff`).
-/

namespace FeatureFlags.Pointer

/-! ## Tokens -/

/-- **A token as a pointer has it**: `~0` stands for a tilde and `~1` for a slash. -/
def escape : List Char → List Char
  | [] => []
  | '~' :: cs => '~' :: '0' :: escape cs
  | '/' :: cs => '~' :: '1' :: escape cs
  | c :: cs => c :: escape cs

/-- **Reads a token**; a tilde before anything else is refused. -/
def unescape? : List Char → Option (List Char)
  | [] => some []
  | '~' :: '0' :: cs => (unescape? cs).map ('~' :: ·)
  | '~' :: '1' :: cs => (unescape? cs).map ('/' :: ·)
  | '~' :: _ => none
  | c :: cs => (unescape? cs).map (c :: ·)

/-- **A plain token** is written without escapes. -/
def IsPlain (token : String) : Prop := ∀ c ∈ token.toList, c ≠ '~' ∧ c ≠ '/'

instance (token : String) : Decidable (IsPlain token) :=
  List.decidableBAll (fun c => c ≠ '~' ∧ c ≠ '/') token.toList

section Tokens

variable {cs ds : List Char} {c : Char}

theorem escape_cons (h : c ≠ '~' ∧ c ≠ '/') : escape (c :: cs) = c :: escape cs := by
  rw [escape.eq_def]
  grind

theorem unescape?_cons (h : c ≠ '~') : unescape? (c :: cs) = (unescape? cs).map (c :: ·) := by
  rw [unescape?.eq_def]
  grind

theorem unescape?_escape (cs : List Char) : unescape? (escape cs) = some cs := by
  fun_induction escape cs with
  | case1 => rfl
  | case2 cs ih => rw [unescape?, ih]; rfl
  | case3 cs ih => rw [unescape?, ih]; rfl
  | case4 c cs htilde hslash ih => rw [unescape?_cons (by grind), ih]; rfl

theorem slash_notMem_escape (cs : List Char) : '/' ∉ escape cs := by
  fun_induction escape cs with
  | case1 => exact List.not_mem_nil
  | case2 cs ih => simp [ih]
  | case3 cs ih => simp [ih]
  | case4 c cs htilde hslash ih => simp only [List.mem_cons, ih, or_false]; grind

/-- **What a token is read as has one spelling.** -/
theorem eq_escape_of_unescape? (hslash : '/' ∉ cs) (h : unescape? cs = some ds) : cs = escape ds := by
  fun_induction unescape? cs generalizing ds with
  | case1 =>
    obtain rfl := Option.some.inj h
    rfl
  | case2 cs ih =>
    obtain ⟨rest, hrest, rfl⟩ := Option.map_eq_some_iff.mp h
    rw [escape, ← ih (by simp_all) hrest]
  | case3 cs ih =>
    obtain ⟨rest, hrest, rfl⟩ := Option.map_eq_some_iff.mp h
    rw [escape, ← ih (by simp_all) hrest]
  | case4 => cases h
  | case5 c cs _ _ htilde ih =>
    obtain ⟨rest, hrest, rfl⟩ := Option.map_eq_some_iff.mp h
    rw [escape_cons (by grind), ← ih (by simp_all) hrest]

/-- Escaping makes a token longer, unless it is plain. -/
theorem length_le_escape (cs : List Char) : cs.length ≤ (escape cs).length := by
  fun_induction escape cs <;> grind

theorem plain_of_length_escape (h : (escape cs).length ≤ cs.length) : ∀ c ∈ cs, c ≠ '~' ∧ c ≠ '/' := by
  fun_induction escape cs with
  | case1 => simp
  | case2 cs ih => have := length_le_escape cs; grind
  | case3 cs ih => have := length_le_escape cs; grind
  | case4 c cs htilde hslash ih => grind

theorem escape_of_plain (h : ∀ c ∈ cs, c ≠ '~' ∧ c ≠ '/') : escape cs = cs := by
  induction cs with
  | nil => rfl
  | cons c cs ih =>
    obtain ⟨hc, hcs⟩ := List.forall_mem_cons.mp h
    rw [escape_cons hc, ih hcs]

end Tokens

/-! ## Pointers -/

/-- Names written one behind the other as they are, each behind a slash. -/
def path : List String → String
  | [] => ""
  | name :: rest => "/" ++ name ++ path rest

/-- **The pointer of a row of tokens.** -/
def ofTokens (tokens : List String) : String := path (tokens.map fun t => .ofList (escape t.toList))

/-- **Reads a pointer.** -/
def tokens? (pointer : String) : Option (List String) :=
  match pointer.toList with
  | [] => some []
  | '/' :: cs => (cs.splitOn '/').mapM fun token => (unescape? token).map String.ofList
  | _ => none

section Pointers

variable {pointer : String} {names tokens : List String}

theorem path_append (names more : List String) : path (names ++ more) = path names ++ path more := by
  induction names with
  | nil => exact String.empty_append.symm
  | cons name rest ih => rw [List.cons_append, path, path, ih, ← String.append_assoc]

theorem path_singleton (name : String) : path [name] = "/" ++ name := String.append_empty

theorem path_pair (name inner : String) : path [name, inner] = "/" ++ name ++ "/" ++ inner := by
  rw [path, path_singleton, ← String.append_assoc]

theorem toList_path (names : List String) :
    (path names).toList = names.flatMap fun name => '/' :: name.toList := by
  induction names with
  | nil => rfl
  | cons name rest ih =>
    rw [path, String.toList_append, String.toList_append, ih]
    rfl

/-- What follows the first slash is joined by slashes. -/
theorem toList_path_cons (name : String) (rest : List String) :
    (path (name :: rest)).toList = '/' :: ['/'].intercalate ((name :: rest).map String.toList) := by
  induction rest generalizing name with
  | nil => simp [toList_path]
  | cons next rest ih =>
    rw [path, String.toList_append, String.toList_append, ih]
    simp only [List.map_cons, List.intercalate_cons_cons]
    simp

/-- A row of parts without slashes is read as the tokens whose spellings they are. -/
theorem mapM_unescape?_eq_some_iff {parts : List (List Char)} (hslash : ∀ part ∈ parts, '/' ∉ part) :
    (parts.mapM fun token => (unescape? token).map String.ofList) = some tokens ↔
      parts = tokens.map fun t => escape t.toList := by
  have hpart {part : List Char} (h : '/' ∉ part) (t : String) :
      (unescape? part).map String.ofList = some t ↔ part = escape t.toList := by
    rw [Option.map_eq_some_iff]
    constructor
    · rintro ⟨ds, hds, rfl⟩
      rw [String.toList_ofList]
      exact eq_escape_of_unescape? h hds
    · rintro rfl
      exact ⟨_, unescape?_escape _, String.ofList_toList⟩
  rw [mapM_eq_some_iff]
  induction parts generalizing tokens with
  | nil => cases tokens <;> simp
  | cons part rest ih =>
    obtain ⟨hhead, hrest⟩ := List.forall_mem_cons.mp hslash
    cases tokens with
    | nil => simp
    | cons t tokens => simp only [List.forall₂_cons, hpart hhead, ih hrest, List.map_cons, List.cons.injEq]

/-- Parts without slashes that are joined by slashes are cut into these parts again. -/
theorem splitOn_eq_iff {cs : List Char} {parts : List (List Char)} (hne : parts ≠ [])
    (hslash : ∀ part ∈ parts, '/' ∉ part) :
    cs.splitOn '/' = parts ↔ cs = ['/'].intercalate parts := by
  constructor
  · rintro rfl
    exact (List.intercalate_splitOn '/').symm
  · rintro rfl
    exact List.splitOn_intercalate '/' hslash hne

/-- The pointer to a place below the document is the spellings of its tokens, joined by slashes. -/
theorem toList_ofTokens_cons (t : String) (rest : List String) :
    (ofTokens (t :: rest)).toList =
      '/' :: ['/'].intercalate ((t :: rest).map fun t => escape t.toList) := by
  rw [ofTokens, List.map_cons, toList_path_cons]
  simp only [List.map_cons, List.map_map, Function.comp_def, String.toList_ofList]

/-- **A pointer is read as the tokens it was made of**, and as no others. -/
theorem tokens?_eq_some_iff : tokens? pointer = some tokens ↔ pointer = ofTokens tokens := by
  rw [← String.toList_inj, tokens?]
  cases tokens with
  | nil =>
    rw [ofTokens, List.map_nil, path, String.toList_empty]
    split
    · simp_all
    · rename_i cs hcs
      rw [mapM_unescape?_eq_some_iff fun part => notMem_of_mem_splitOn, List.map_nil, hcs]
      simp [List.splitOn_ne_nil]
    · simp_all
  | cons t rest =>
    have hslash : ∀ part ∈ (t :: rest).map fun t => escape t.toList, '/' ∉ part := by
      rintro _ hpart
      obtain ⟨token, -, rfl⟩ := List.mem_map.mp hpart
      exact slash_notMem_escape _
    rw [toList_ofTokens_cons]
    split
    · simp_all
    · rename_i cs hcs
      rw [mapM_unescape?_eq_some_iff fun part => notMem_of_mem_splitOn, hcs,
        splitOn_eq_iff (by simp) hslash, List.cons_inj_right]
    · simp_all

theorem length_path_cons (name : String) (rest : List String) :
    (path (name :: rest)).length = 1 + name.length + (path rest).length := by
  rw [path, String.length_append, String.length_append]
  rfl

/-- Escapes make the pointer of a row of names longer, unless they are all plain. -/
theorem length_path_le (names : List String) : (path names).length ≤ (ofTokens names).length := by
  induction names with
  | nil => exact le_rfl
  | cons name rest ih =>
    have hname := length_le_escape name.toList
    rw [ofTokens, List.map_cons, length_path_cons, length_path_cons, ← ofTokens, String.length_ofList]
    rw [String.length_toList] at hname
    omega

theorem plain_of_length_ofTokens (h : (ofTokens names).length ≤ (path names).length) :
    ∀ name ∈ names, IsPlain name := by
  induction names with
  | nil => simp
  | cons name rest ih =>
    have hname := length_le_escape name.toList
    have hrest := length_path_le rest
    rw [ofTokens, List.map_cons, length_path_cons, length_path_cons, ← ofTokens, String.length_ofList,
      ← String.length_toList (s := name)] at h
    exact List.forall_mem_cons.mpr ⟨plain_of_length_escape (by omega), ih (by omega)⟩

/-- **Names as they are make the pointer of their row** if they are all plain, and only then: an escape
makes the text longer. -/
theorem path_eq_ofTokens_iff : path names = ofTokens names ↔ ∀ name ∈ names, IsPlain name := by
  constructor
  · intro h
    exact plain_of_length_ofTokens (h ▸ le_rfl)
  · intro h
    rw [ofTokens]
    congr 1
    refine (List.map_id names).symm.trans (List.map_congr_left fun name hname => ?_)
    rw [escape_of_plain (h name hname), String.ofList_toList]
    rfl

end Pointers

/-! ## What a pointer leads to -/

/-- The place in an array that a token names: a numeral without leading zeros. -/
def index? (token : String) : Option Nat :=
  match token.toList with
  | ['0'] => some 0
  | '0' :: _ => none
  | cs => Numeral.digits? cs

/-- One step into a value. -/
def step? : Json → String → Option Json
  | .obj members, token => valueAt? token members
  | .arr items, token => (index? token).bind fun i => items[i]?
  | _, _ => none

/-- **What a pointer leads to.** -/
def resolve? (document : Json) (pointer : String) : Option Json :=
  (tokens? pointer).bind fun tokens => tokens.foldlM step? document

/-- A pointer leads where the names of members lead. -/
theorem foldlM_step? {v w : Json} {names : List String} (h : names.foldlM Json.member? v = some w) :
    names.foldlM step? v = some w := by
  induction names generalizing v with
  | nil => exact h
  | cons name rest ih =>
    obtain ⟨next, hnext, hrest⟩ := Option.bind_eq_some_iff.mp h
    cases v with
    | obj members => exact Option.bind_eq_some_iff.mpr ⟨next, hnext, ih hrest⟩
    | _ => cases hnext

/-- **Plain names are a pointer** to where they lead. -/
theorem resolve?_path {v w : Json} {names : List String} (hplain : ∀ name ∈ names, IsPlain name)
    (h : names.foldlM Json.member? v = some w) : resolve? v (path names) = some w := by
  rw [resolve?, tokens?_eq_some_iff.mpr (path_eq_ofTokens_iff.mpr hplain)]
  exact foldlM_step? h

end FeatureFlags.Pointer
