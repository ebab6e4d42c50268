import FeatureFlags.Proofs.Document.Replacing
import FeatureFlags.Proofs.Json.Settling

/-!
# Proofs/Document/Splicing — references among the tokens of a value

Replacing references among the tokens of a value (`Token.substituted`) acts on each item and each
member by itself, so two replacements in turn are one (`Json.substituted_substituted`), and applying
the fragments one after another is replacing each reference by what the later fragments make of its
fragment's body (`Fragments.passes_tokens`).
-/

namespace FeatureFlags

/-! ## Rows between commas, replaced row by row -/

namespace Token

variable {bodies : String → Option (List Token)} {name : String} {body ts : List Token}

theorem exists_eq_of_append_eq {xs ys rest : List Token}
    (h : ∀ t ∈ ys.head?, t ≠ .colon ∧ ∀ s, t ≠ .str s)
    (heq : xs ++ ys = .colon :: .str name :: rest) : ∃ rest, xs = .colon :: .str name :: rest := by
  cases xs with
  | nil =>
    obtain rfl : ys = _ := heq
    exact absurd rfl (h .colon rfl).1
  | cons x xs =>
    cases xs with
    | nil =>
      obtain ⟨-, rfl⟩ := List.cons.inj heq
      exact absurd rfl ((h (.str name) rfl).2 name)
    | cons y xs =>
      obtain ⟨hx, hy⟩ := List.cons.inj heq
      exact ⟨xs, by rw [hx, (List.cons.inj hy).1]⟩

/-- **Nothing is a reference across a border** that begins with neither a colon nor a string. -/
theorem substituted_append {xs ys : List Token}
    (h : ∀ t ∈ ys.head?, t ≠ .colon ∧ ∀ s, t ≠ .str s) :
    substituted bodies (xs ++ ys) = substituted bodies xs ++ substituted bodies ys := by
  -- on the length, since a reference is three tokens
  induction hlen : xs.length using Nat.strong_induction_on generalizing xs with
  | _ len ih =>
    cases xs with
    | nil => rfl
    | cons t xs =>
      by_cases href : ∃ n rest body, t = .str refKey ∧ xs = .colon :: .str n :: rest ∧
          bodies n = some body
      · obtain ⟨n, rest, body, rfl, rfl, hbody⟩ := href
        have hrest := ih rest.length (by simp only [← hlen, List.length_cons]; omega) rfl
        simp only [List.cons_append]
        rw [substituted_reference hbody, substituted_reference hbody, hrest, List.append_assoc]
      · have hnone {zs : List Token} (hzs : ∀ n rest, zs = .colon :: .str n :: rest →
            ∃ rest, xs = .colon :: .str n :: rest) :
            substituted bodies (t :: zs) = t :: substituted bodies zs := by
          refine substituted_cons fun n rest ht hz => ?_
          obtain ⟨rest, hx⟩ := hzs n rest hz
          cases hbody : bodies n with
          | none => rfl
          | some body => exact absurd ⟨n, rest, body, ht, hx, hbody⟩ href
        have hrest := ih xs.length (by rw [← hlen]; simp) rfl
        rw [List.cons_append, hnone fun n rest hz => exists_eq_of_append_eq h hz,
          hnone fun n rest hz => ⟨rest, hz⟩, hrest, List.cons_append]

theorem substituted_separated (ps : List (List Token)) :
    substituted bodies (separated ps) = separated (ps.map (substituted bodies)) := by
  have hmore (qs : List (List Token)) : substituted bodies (qs.flatMap (.comma :: ·)) =
      (qs.map (substituted bodies)).flatMap (.comma :: ·) := by
    induction qs with
    | nil => rfl
    | cons q qs ih =>
      rw [List.flatMap_cons, List.cons_append, substituted_cons (by simp), substituted_append, ih,
        List.map_cons, List.flatMap_cons, List.cons_append]
      cases qs <;> simp
  cases ps with
  | nil => rfl
  | cons p ps =>
    rw [separated, substituted_append, hmore, List.map_cons, separated]
    cases ps <;> simp

theorem substituted_none (ts : List Token) : substituted (fun _ => none) ts = ts := by
  induction ts with
  | nil => rfl
  | cons t ts ih => rw [substituted_cons fun _ _ _ _ => rfl, ih]

/-- Braces around a row stay where they are. -/
theorem substituted_braces (ts : List Token) :
    substituted bodies (.openBrace :: (ts ++ [.closeBrace])) =
      .openBrace :: (substituted bodies ts ++ [.closeBrace]) := by
  rw [substituted_cons (by simp), substituted_append (by simp), substituted_singleton]

/-- A key that is no reference's stays. -/
theorem substituted_key {key : String} (h : key = refKey → ∀ n rest, ts ≠ .str n :: rest) :
    substituted bodies (.str key :: .colon :: ts) = .str key :: .colon :: substituted bodies ts := by
  rw [substituted_cons, substituted_cons (by simp)]
  intro n rest hkey hts
  exact absurd (List.cons.inj hts).2 (h (Token.str.inj hkey) n rest)

/-- **One replacement after another.** -/
def andThen (first second : String → Option (List Token)) (n : String) : Option (List Token) :=
  match first n with
  | some body => some (substituted second body)
  | none => second n

end Token

namespace Json

open Token

/-! ## The tokens of a value, replaced part by part -/

/-- **The name a member refers to**, if it is a reference. -/
def reference? (m : String × Json) : Option String := if m.1 = refKey then m.2.string? else none

theorem reference?_eq_some_iff {m : String × Json} {n : String} :
    reference? m = some n ↔ m = (refKey, .str n) := by
  obtain ⟨key, v⟩ := m
  rw [reference?]
  split
  · rename_i h
    cases v <;> simp_all [string?]
  · rename_i h
    simp only [reduceCtorEq, Prod.mk.injEq, false_iff, not_and]
    exact fun hkey => absurd hkey h

variable {bodies : String → Option (List Token)}

/-- **What becomes of a member**: the body its name stands for, or the member with its own value
replaced. -/
def piece (bodies : String → Option (List Token)) (m : String × Json) : List Token :=
  ((reference? m).bind bodies).getD (.str m.1 :: .colon :: substituted bodies m.2.tokens)

/-- What is no string does not begin with one. -/
theorem tokens_ne_str {v : Json} (h : v.string? = none) (s : String) (rest : List Token) :
    v.tokens ≠ .str s :: rest := by
  cases v <;> simp_all [tokens, string?]

theorem substituted_field (m : String × Json) : substituted bodies (field m) = piece bodies m := by
  obtain ⟨key, v⟩ := m
  rw [piece]
  cases href : reference? (key, v) with
  | none =>
    refine substituted_key fun hkey n rest => tokens_ne_str ?_ n rest
    rwa [reference?, if_pos hkey] at href
  | some n =>
    obtain ⟨rfl, rfl⟩ := Prod.mk.inj (reference?_eq_some_iff.mp href)
    cases hbody : bodies n with
    | none =>
      rw [field, substituted_cons, substituted_cons (by simp), Option.bind_some, hbody]
      · rfl
      · rintro n' rest - hrest
        obtain ⟨rfl, -⟩ : n = n' ∧ _ := by simpa [tokens] using hrest
        exact hbody
    | some body =>
      rw [field, tokens, substituted_reference hbody, Option.bind_some, hbody, substituted_nil,
        List.append_nil]
      rfl

theorem substituted_arr (items : List Json) :
    substituted bodies (arr items).tokens =
      .openBracket ::
        (separated (items.map fun v => substituted bodies v.tokens) ++ [.closeBracket]) := by
  rw [tokens, itemTokens_eq, substituted_cons (by simp), substituted_append (by simp),
    substituted_separated, substituted_singleton, List.map_map]
  rfl

theorem substituted_obj (members : List (String × Json)) :
    substituted bodies (obj members).tokens =
      .openBrace :: (separated (members.map (piece bodies)) ++ [.closeBrace]) := by
  rw [tokens, memberTokens_eq, substituted_braces, substituted_separated, List.map_map]
  exact congrArg (fun f => Token.openBrace :: (separated (members.map f) ++ [.closeBrace]))
    (funext substituted_field)

/-- … even with its references replaced. -/
theorem substituted_ne_str {v : Json} (h : v.string? = none) (s : String) (rest : List Token) :
    substituted bodies v.tokens ≠ .str s :: rest := by
  cases v with
  | str => cases h
  | arr items => simp [substituted_arr]
  | obj members => simp [substituted_obj]
  | _ => simp [tokens, substituted_singleton]

/-! ## Two replacements in turn -/

theorem substituted_piece {first second : String → Option (List Token)} {m : String × Json}
    (h : substituted second (substituted first m.2.tokens) =
      substituted (andThen first second) m.2.tokens) :
    substituted second (piece first m) = piece (andThen first second) m := by
  obtain ⟨key, v⟩ := m
  rw [piece, piece]
  cases href : reference? (key, v) with
  | none =>
    simp only [Option.bind_none, Option.getD_none]
    rw [substituted_key, h]
    intro hkey n rest
    refine substituted_ne_str ?_ n rest
    rwa [reference?, if_pos hkey] at href
  | some n =>
    obtain ⟨rfl, rfl⟩ := Prod.mk.inj (reference?_eq_some_iff.mp href)
    cases hbody : first n with
    | none =>
      have hfield := @substituted_field second (refKey, .str n)
      simp only [Option.bind_some, hbody, Option.getD_none, andThen, tokens, substituted_singleton]
      rw [show Token.str refKey :: .colon :: [.str n] = field (refKey, .str n) from rfl, hfield,
        piece, href]
      rfl
    | some body => simp [hbody, andThen]

/-- **Two replacements in turn are one.** -/
theorem substituted_substituted {first second : String → Option (List Token)} (v : Json) :
    substituted second (substituted first v.tokens) =
      substituted (andThen first second) v.tokens := by
  induction v using Json.induct with
  | null | bool | num | str => simp [tokens, substituted_singleton]
  | arr items ih =>
    rw [substituted_arr, substituted_arr, substituted_cons (by simp), substituted_append (by simp),
      substituted_separated, substituted_singleton, List.map_map]
    exact congrArg (fun ps => Token.openBracket :: (separated ps ++ [.closeBracket]))
      (List.map_congr_left fun v hv => ih v hv)
  | obj members ih =>
    rw [substituted_obj, substituted_obj, substituted_braces, substituted_separated, List.map_map]
    exact congrArg (fun ps => Token.openBrace :: (separated ps ++ [.closeBrace]))
      (List.map_congr_left fun m hm => substituted_piece (ih m hm))

/-- … among the tokens of members as well. -/
theorem substituted_substituted_members {first second : String → Option (List Token)}
    (members : List (String × Json)) :
    substituted second (substituted first (memberTokens members)) =
      substituted (andThen first second) (memberTokens members) := by
  have h := @substituted_substituted first second (obj members)
  rw [tokens, substituted_braces, substituted_braces, substituted_braces] at h
  exact List.append_cancel_right (List.cons.inj h).2

/-! ## Neighbours -/

section Neighbours

variable {keys : String → Prop}

theorem adjacent_of_opener {t u : Token} (h : t.endsValue = false) : Adjacent keys t u := by
  refine ⟨fun hends => ?_, fun s hs => ?_⟩
  · rw [h] at hends
    cases hends
  · subst hs
    cases h

theorem adjacent_of_mark {t u : Token} (h : u.isBehind = true) (hcolon : u ≠ .colon) :
    Adjacent keys t u :=
  ⟨fun _ => h, fun _ _ hu => absurd hu hcolon⟩

theorem isChain_separated {ps : List (List Token)} (h : ∀ p ∈ ps, p.IsChain (Adjacent keys)) :
    (separated ps).IsChain (Adjacent keys) := by
  have hhead (qs : List (List Token)) : ∀ u ∈ (qs.flatMap (Token.comma :: ·)).head?, u = .comma := by
    cases qs <;> simp
  have hmore {qs : List (List Token)} (hqs : ∀ q ∈ qs, q.IsChain (Adjacent keys)) :
      (qs.flatMap (Token.comma :: ·)).IsChain (Adjacent keys) := by
    induction qs with
    | nil => exact .nil
    | cons q qs ih =>
      obtain ⟨hq, hqs⟩ := List.forall_mem_cons.mp hqs
      refine (hq.cons fun _ _ => adjacent_of_opener rfl).append (ih hqs) fun t _ u hu => ?_
      rw [hhead qs u hu]
      exact adjacent_of_mark rfl (by simp)
  cases ps with
  | nil => exact .nil
  | cons p ps =>
    obtain ⟨hp, hps⟩ := List.forall_mem_cons.mp h
    refine hp.append (hmore hps) fun t _ u hu => ?_
    rw [hhead ps u hu]
    exact adjacent_of_mark rfl (by simp)

theorem isChain_piece (hbodies : ∀ n ts, bodies n = some ts → ts.IsChain (Adjacent keys))
    {m : String × Json} (hkey : keys m.1)
    (hvalue : (substituted bodies m.2.tokens).IsChain (Adjacent keys)) :
    (piece bodies m).IsChain (Adjacent keys) := by
  rw [piece]
  cases hbody : (reference? m).bind bodies with
  | none =>
    refine .cons_cons ⟨fun _ => rfl, fun s hs _ => ?_⟩ (hvalue.cons fun _ _ => adjacent_of_opener rfl)
    rwa [← Token.str.inj hs]
  | some ts =>
    obtain ⟨n, -, hbody⟩ := Option.bind_eq_some_iff.mp hbody
    exact hbodies n ts hbody

/-- **Neighbours stay as they should be** when references are replaced. -/
theorem isChain_substituted (hbodies : ∀ n ts, bodies n = some ts → ts.IsChain (Adjacent keys))
    {v : Json} (h : All (HasKeys keys) v) : (substituted bodies v.tokens).IsChain (Adjacent keys) := by
  have hclosed {ps : List (List Token)} {opener closer : Token} (hopener : opener.endsValue = false)
      (hcloser : closer.isBehind = true) (hcolon : closer ≠ .colon)
      (hps : ∀ p ∈ ps, p.IsChain (Adjacent keys)) :
      (opener :: (separated ps ++ [closer])).IsChain (Adjacent keys) := by
    refine ((isChain_separated hps).append (.singleton closer) fun t _ u hu => ?_).cons
      fun _ _ => adjacent_of_opener hopener
    rw [← Option.some.inj hu]
    exact adjacent_of_mark hcloser hcolon
  induction v using Json.induct with
  | null | bool | num | str => simp [tokens, substituted_singleton]
  | arr items ih =>
    rw [substituted_arr]
    refine hclosed rfl rfl (by simp) fun p hp => ?_
    obtain ⟨v, hv, rfl⟩ := List.mem_map.mp hp
    exact ih v hv ((all_arr.mp h).2 v hv)
  | obj members ih =>
    rw [substituted_obj]
    refine hclosed rfl rfl (by simp) fun p hp => ?_
    obtain ⟨m, hm, rfl⟩ := List.mem_map.mp hp
    obtain ⟨hkeys, hmembers⟩ := all_obj.mp h
    exact isChain_piece hbodies (onMembers_obj.mp hkeys m hm) (ih m hm (hmembers m hm))

end Neighbours

end Json

/-! ## The fragments in turn -/

namespace Fragments

open Token

/-- **Applies fragments in turn** among tokens. -/
def passes : List (String × List (String × Json)) → List Token → List Token
  | [], ts => ts
  | f :: rest, ts => passes rest (substituted (only f.1 (Json.memberTokens f.2)) ts)

/-- **What each name stands for in the end**: the members of its fragment, with what the later
fragments make of them. -/
def resolution : List (String × List (String × Json)) → String → Option (List Token)
  | [], _ => none
  | f :: rest, n => if n = f.1 then some (passes rest (Json.memberTokens f.2)) else resolution rest n

variable {fragments : List (String × List (String × Json))}

theorem passes_append (first second : List (String × List (String × Json))) (ts : List Token) :
    passes (first ++ second) ts = passes second (passes first ts) := by
  induction first generalizing ts with
  | nil => rfl
  | cons f first ih => exact ih _

/-- Passes after a replacement are one replacement. -/
theorem passes_substituted {before : String → Option (List Token)} (v : Json) :
    passes fragments (substituted before v.tokens) =
      substituted (fun n => match before n with
        | some ts => some (passes fragments ts)
        | none => resolution fragments n) v.tokens := by
  induction fragments generalizing before with
  | nil =>
    refine congrArg (substituted · v.tokens) (funext fun n => ?_)
    cases before n <;> rfl
  | cons f rest ih =>
    rw [passes, Json.substituted_substituted, ih]
    refine congrArg (substituted · v.tokens) (funext fun n => ?_)
    cases hbefore : before n with
    | some ts => simp [andThen, hbefore, passes]
    | none =>
      simp only [andThen, hbefore, only, resolution]
      by_cases hn : n = f.1
      · simp only [if_pos hn]
      · simp only [if_neg hn]

/-- **The fragments in turn are one replacement.** -/
theorem passes_tokens (v : Json) :
    passes fragments v.tokens = substituted (resolution fragments) v.tokens := by
  have h := @passes_substituted fragments (fun _ => none) v
  rwa [substituted_none] at h

/-- … among the tokens of members as well. -/
theorem passes_memberTokens (members : List (String × Json)) :
    passes fragments (Json.memberTokens members) =
      substituted (resolution fragments) (Json.memberTokens members) := by
  have hbraces (ts : List Token) : passes fragments (.openBrace :: (ts ++ [.closeBrace])) =
      .openBrace :: (passes fragments ts ++ [.closeBrace]) := by
    induction fragments generalizing ts with
    | nil => rfl
    | cons f rest ih => rw [passes, substituted_braces, ih, passes]
  have h := @passes_tokens fragments (.obj members)
  rw [Json.tokens, hbraces, substituted_braces] at h
  exact List.append_cancel_right (List.cons.inj h).2

theorem resolution_cons (f : String × List (String × Json)) (n : String) :
    resolution (f :: fragments) n =
      if n = f.1 then some (substituted (resolution fragments) (Json.memberTokens f.2))
      else resolution fragments n := by
  rw [resolution, passes_memberTokens]

end Fragments

end FeatureFlags
