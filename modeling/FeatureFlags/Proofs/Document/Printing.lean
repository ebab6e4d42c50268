import FeatureFlags.Proofs.Document.Applying

/-!
# Proofs/Document/Printing — a value is known by its text

The tokens of a value show where it ends (`Json.delimited_tokens`), so no two values have the same
tokens; and tokens that can be written are read back from their text.  So two values with the same text
are the same (`Json.eq_of_print_eq`): an integer is told from a double, a zero from a negative one, and
a string from any other, at any depth.
-/

namespace FeatureFlags

namespace Token

variable {α : Type}

/-- **A row of tokens shows where it ends**: no other of its kind begins or continues it. -/
def Delimited (row : α → List Token) (a : α) : Prop :=
  ∀ b rest others, row a ++ rest = row b ++ others → a = b ∧ rest = others

variable {row : α → List Token} {closer : Token}

theorem eq_of_more (hcloser : closer ≠ .comma) {as bs : List α} (h : ∀ a ∈ as, Delimited row a)
    {rest others : List Token}
    (heq : (as.map row).flatMap (.comma :: ·) ++ closer :: rest =
      (bs.map row).flatMap (.comma :: ·) ++ closer :: others) : as = bs ∧ rest = others := by
  induction as generalizing bs with
  | nil =>
    cases bs with
    | nil => simpa using heq
    | cons b bs => exact absurd (List.cons.inj heq).1 hcloser
  | cons a as ih =>
    cases bs with
    | nil => exact absurd (List.cons.inj heq).1.symm hcloser
    | cons b bs =>
      obtain ⟨ha, has⟩ := List.forall_mem_cons.mp h
      simp only [List.map_cons, List.flatMap_cons, List.cons_append, List.append_assoc,
        List.cons.injEq, true_and] at heq
      obtain ⟨rfl, hmore⟩ := ha b _ _ heq
      obtain ⟨rfl, hrest⟩ := ih has hmore
      exact ⟨rfl, hrest⟩

/-- **Rows between commas**, up to a token that none of them begins with. -/
theorem eq_of_separated (hcloser : closer ≠ .comma)
    (hbegin : ∀ b rest others, closer :: rest ≠ row b ++ others) {as bs : List α}
    (h : ∀ a ∈ as, Delimited row a) {rest others : List Token}
    (heq : separated (as.map row) ++ closer :: rest = separated (bs.map row) ++ closer :: others) :
    as = bs ∧ rest = others := by
  cases as with
  | nil =>
    cases bs with
    | nil => simpa [separated] using heq
    | cons b bs =>
      rw [List.map_cons, separated, List.append_assoc] at heq
      exact absurd heq (hbegin b _ _)
  | cons a as =>
    obtain ⟨ha, has⟩ := List.forall_mem_cons.mp h
    cases bs with
    | nil =>
      rw [List.map_cons, separated, List.append_assoc] at heq
      exact absurd heq.symm (hbegin a _ _)
    | cons b bs =>
      simp only [List.map_cons, separated, List.append_assoc] at heq
      obtain ⟨rfl, hmore⟩ := ha b _ _ heq
      obtain ⟨rfl, hrest⟩ := eq_of_more hcloser has hmore
      exact ⟨rfl, hrest⟩

end Token

namespace Json

open Token

theorem delimited_field {m : String × Json} (h : Delimited tokens m.2) : Delimited field m := by
  intro n rest others heq
  simp only [field, List.cons_append, List.cons.injEq, Token.str.injEq, true_and] at heq
  obtain ⟨hvalue, hrest⟩ := h n.2 _ _ heq.2
  exact ⟨Prod.ext heq.1 hvalue, hrest⟩

/-- **The tokens of a value show where it ends.** -/
theorem delimited_tokens (v : Json) : Delimited tokens v := by
  induction v using Json.induct with
  | null | bool | num | str =>
    intro w rest others heq
    cases w <;> simp_all [tokens]
  | arr items ih =>
    intro w rest others heq
    cases w with
    | arr others =>
      simp only [tokens, itemTokens_eq, List.cons_append, List.append_assoc, List.nil_append,
        List.cons.injEq, true_and] at heq
      -- no item begins with the bracket, so the row ends where it does
      have hbegin : ∀ v rest others, Token.closeBracket :: rest ≠ tokens v ++ others := by
        intro v rest others
        cases v <;> simp [tokens]
      obtain ⟨rfl, hrest⟩ := eq_of_separated (by decide) hbegin ih heq
      exact ⟨rfl, hrest⟩
    | _ => simp [tokens] at heq
  | obj members ih =>
    intro w rest others heq
    cases w with
    | obj others =>
      simp only [tokens, memberTokens_eq, List.cons_append, List.append_assoc, List.nil_append,
        List.cons.injEq, true_and] at heq
      have hbegin : ∀ m rest others, Token.closeBrace :: rest ≠ field m ++ others := by
        simp [field]
      obtain ⟨rfl, hrest⟩ :=
        eq_of_separated (by decide) hbegin (fun m hm => delimited_field (ih m hm)) heq
      exact ⟨rfl, hrest⟩
    | _ => simp [tokens] at heq

theorem tokens_injective : Function.Injective tokens := fun v w h =>
  (v.delimited_tokens w [] [] (by rw [h])).1

/-- **A value is known by its text**, if it can be read. -/
theorem eq_of_print_eq {v w : Json} (hv : All IsReadable v) (hw : All IsReadable w)
    (h : v.print = w.print) : v = w := by
  have hchars : v.chars = w.chars := String.ofList_injective h
  have htokens := (spells_chars hv).ofText?
  rw [hchars, (spells_chars hw).ofText?] at htokens
  exact tokens_injective (Option.some.inj htokens).symm

end Json

end FeatureFlags
