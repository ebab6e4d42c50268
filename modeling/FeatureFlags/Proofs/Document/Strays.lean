import FeatureFlags.Proofs.Document.Inlining

/-!
# Proofs/Document/Strays — commas that nothing stands beside

A fragment without members leaves nothing in the place of a reference to it.  Beside another member a
comma stays behind, and the reader refuses it.  So what the reader accepts has no stray comma
(`Builder.isChain_strayFree_of_some`), and where no comma is stray, replacing references among the tokens of a
value is replacing them in the value (`Json.substituted_tokens_of_strayFree`).
-/

namespace FeatureFlags

/-! ## What the reader accepts -/

namespace Token

/-- **No comma is stray**: none stands behind an opening brace or another comma, and none before a
closing brace. -/
def StrayFree (t u : Token) : Prop :=
  (u = .comma → t ≠ .comma ∧ t ≠ .openBrace) ∧ (t = .comma → u ≠ .closeBrace)

/-- A token without its text. -/
def outline : Token → Token
  | str _ => str ""
  | t => t

/-- **Stray commas do not depend on texts.** -/
theorem isChain_strayFree_congr {ts us : List Token} (h : ts.map outline = us.map outline) :
    ts.IsChain StrayFree ↔ us.IsChain StrayFree := by
  have houtline (t u : Token) : StrayFree t.outline u.outline ↔ StrayFree t u := by
    cases t <;> cases u <;> simp [StrayFree, outline]
  have hmap (ts : List Token) : (ts.map outline).IsChain StrayFree ↔ ts.IsChain StrayFree := by
    rw [List.isChain_map]
    exact ⟨fun hts => hts.imp fun t u => (houtline t u).mp, fun hts =>
      hts.imp fun t u => (houtline t u).mpr⟩
  rw [← hmap ts, ← hmap us, h]

/-- No comma is stray between braces. -/
def IsClean (row : List Token) : Prop := (.openBrace :: (row ++ [.closeBrace])).IsChain StrayFree

end Token

namespace Builder

open Token

/-- Behind a comma a value or a key is due. -/
theorem expect_of_comma {state next : State} (h : step state .comma = some next) :
    next.expect = .value ∨ ∃ done, next.expect = .key done := by
  obtain ⟨frames, expect⟩ := state
  cases expect with
  | itemEnd => exact .inl (Option.some.inj h ▸ rfl)
  | memberEnd done => exact .inr ⟨done, Option.some.inj h ▸ rfl⟩
  | _ => cases h

/-- Behind an opening brace a key is due, or the end of the object. -/
theorem expect_of_openBrace {state next : State} (h : step state .openBrace = some next) :
    next.expect = .firstKey := by
  have hbegin {frames : List Frame} (h : begin frames .openBrace = some next) :
      next.expect = .firstKey := by
    rw [begin] at h
    split at h
    · exact Option.some.inj h ▸ rfl
    · cases h
  obtain ⟨frames, expect⟩ := state
  cases expect with
  | value => exact hbegin h
  | firstItem => exact hbegin h
  | _ => cases h

/-- Where a value or a key is due there is no comma, and no object ends behind a comma. -/
theorem strayFree_of_step {state next last : State} {t u : Token} (ht : step state t = some next)
    (hu : step next u = some last) : StrayFree t u := by
  obtain ⟨frames, expect⟩ := next
  refine ⟨?_, ?_⟩
  · rintro rfl
    refine ⟨?_, ?_⟩ <;> rintro rfl
    · rcases expect_of_comma ht with rfl | ⟨done, rfl⟩ <;> cases hu
    · obtain rfl : expect = .firstKey := expect_of_openBrace ht
      cases hu
  · rintro rfl rfl
    rcases expect_of_comma ht with rfl | ⟨done, rfl⟩ <;> cases hu

/-- **What the reader takes has no stray comma.** -/
theorem isChain_strayFree {state last : State} {ts : List Token} (h : run state ts = some last) :
    ts.IsChain StrayFree := by
  induction ts generalizing state with
  | nil => exact .nil
  | cons t ts ih =>
    rw [run_cons] at h
    obtain ⟨next, ht, hts⟩ := Option.bind_eq_some_iff.mp h
    cases ts with
    | nil => exact .singleton t
    | cons u us =>
      refine .cons_cons ?_ (ih hts)
      rw [run_cons] at hts
      obtain ⟨_, hu, -⟩ := Option.bind_eq_some_iff.mp hts
      exact strayFree_of_step ht hu

theorem isChain_strayFree_of_some {ts : List Token} {v : Json} (h : Json.ofTokens? ts = some v) :
    ts.IsChain StrayFree := by
  obtain ⟨_, hrun, -⟩ := Option.bind_eq_some_iff.mp h
  exact isChain_strayFree hrun

end Builder

/-! ## Rows between commas -/

namespace Token

/-- **Where a row stands** among rows: with nothing or a comma on either side. -/
theorem exists_separated_eq {rows : List (List Token)} {row : List Token} (h : row ∈ rows) :
    ∃ before after, separated rows = before ++ (row ++ after) ∧
      (before = [] ∨ before.getLast? = some .comma) ∧ (after = [] ∨ after.head? = some .comma) ∧
      (before = [] → after = [] → rows = [row]) := by
  have hmore {rows : List (List Token)} (h : row ∈ rows) :
      ∃ before after, rows.flatMap (.comma :: ·) = before ++ (row ++ after) ∧
        before.getLast? = some .comma ∧ (after = [] ∨ after.head? = some .comma) := by
    obtain ⟨first, rest, rfl⟩ := List.append_of_mem h
    refine ⟨first.flatMap (.comma :: ·) ++ [.comma], rest.flatMap (.comma :: ·), by simp, by simp, ?_⟩
    cases rest <;> simp
  cases rows with
  | nil => cases h
  | cons first rest =>
    rcases List.mem_cons.mp h with rfl | h
    · refine ⟨[], rest.flatMap (.comma :: ·), rfl, .inl rfl, ?_, fun _ hafter => ?_⟩
      · cases rest <;> simp
      · cases rest with
        | nil => rfl
        | cons => simp at hafter
    · obtain ⟨before, after, heq, hbefore, hafter⟩ := hmore h
      refine ⟨first ++ before, after, ?_, .inr ?_, hafter, fun hnone => ?_⟩
      · rw [separated, heq, List.append_assoc]
      · rw [List.getLast?_append, hbefore]
        rfl
      · rw [(List.append_eq_nil_iff.mp hnone).2] at hbefore
        cases hbefore

variable {rows : List (List Token)} {row : List Token}

/-- What stands before a row among clean ones, and what stands behind it. -/
theorem IsClean.exists_around (h : IsClean (separated rows)) (hrow : row ∈ rows) :
    ∃ t u : Token, (t = .openBrace ∨ t = .comma) ∧ (u = .comma ∨ u = .closeBrace) ∧
      (t = .openBrace → u = .closeBrace → rows = [row]) ∧
      (t :: (row ++ [u])).IsChain StrayFree := by
  obtain ⟨before, after, heq, hbefore, hafter, hone⟩ := exists_separated_eq hrow
  rw [IsClean, heq] at h
  have hlast : ∃ t, (.openBrace :: before).getLast? = some t ∧
      ((t = .openBrace ∧ before = []) ∨ t = .comma) := by
    rcases hbefore with rfl | hbefore
    · exact ⟨.openBrace, rfl, .inl ⟨rfl, rfl⟩⟩
    · exact ⟨.comma, by rw [List.getLast?_cons, hbefore]; rfl, .inr rfl⟩
  have hhead : ∃ u rest, after ++ [.closeBrace] = u :: rest ∧
      (u = .comma ∨ (u = .closeBrace ∧ after = [])) := by
    cases after with
    | nil => exact ⟨.closeBrace, [], rfl, .inr ⟨rfl, rfl⟩⟩
    | cons u rest =>
      obtain hu | hu := hafter
      · cases hu
      · exact ⟨u, _, rfl, .inl (Option.some.inj hu)⟩
  obtain ⟨t, ht, ht'⟩ := hlast
  obtain ⟨u, rest, hu, hu'⟩ := hhead
  obtain ⟨first, hfirst⟩ := List.getLast?_eq_some_iff.mp ht
  refine ⟨t, u, ht'.imp And.left id, hu'.imp_right And.left, fun hopen hclose => hone ?_ ?_, ?_⟩
  · exact (ht'.resolve_right fun hcomma => by rw [hopen] at hcomma; cases hcomma).2
  · exact (hu'.resolve_left fun hcomma => by rw [hclose] at hcomma; cases hcomma).2
  · have hinfix : (t :: (row ++ [u])) <:+: .openBrace :: (before ++ (row ++ after) ++ [.closeBrace]) := by
      refine ⟨first, rest, ?_⟩
      have hsplit : Token.openBrace :: (before ++ (row ++ after) ++ [.closeBrace]) =
          (.openBrace :: before) ++ (row ++ (after ++ [.closeBrace])) := by simp
      rw [hsplit, hfirst, hu]
      simp
    exact h.infix hinfix

/-- **Rows between commas are clean** where all of them are. -/
theorem IsClean.of_mem (h : IsClean (separated rows)) (hrow : row ∈ rows) : IsClean row := by
  obtain ⟨t, u, ht, hu, -, hchain⟩ := h.exists_around hrow
  cases row with
  | nil => exact .cons_cons ⟨by simp, by simp⟩ (.singleton _)
  | cons x xs =>
    obtain ⟨hfirst, hrest⟩ := List.isChain_cons_cons.mp hchain
    have hrest : ((x :: xs) ++ [u]).IsChain StrayFree := hrest
    obtain ⟨hinner, -, hlast⟩ := List.isChain_append.mp hrest
    refine .cons_cons ⟨fun hx => ?_, by simp⟩
      (List.isChain_append.mpr ⟨hinner, .singleton _, fun y hy z hz => ?_⟩)
    · rcases ht with rfl | rfl
      · exact absurd rfl (hfirst.1 hx).2
      · exact absurd rfl (hfirst.1 hx).1
    · obtain rfl := Option.some.inj hz
      have hy := hlast y hy u rfl
      refine ⟨by simp, fun hcomma => ?_⟩
      rcases hu with rfl | rfl
      · exact absurd hcomma (hy.1 rfl).1
      · exact absurd rfl (hy.2 hcomma)

/-- **No row is empty beside another** where no comma is stray. -/
theorem IsClean.ne_nil (h : IsClean (separated rows)) : rows.length ≤ 1 ∨ ∀ row ∈ rows, row ≠ [] := by
  by_cases hempty : [] ∈ rows
  · left
    obtain ⟨t, u, ht, hu, hone, hchain⟩ := h.exists_around hempty
    have hfree : StrayFree t u := by
      rw [List.nil_append] at hchain
      exact (List.isChain_cons_cons.mp hchain).1
    rcases ht with rfl | rfl <;> rcases hu with rfl | rfl
    · exact absurd rfl (hfree.1 rfl).2
    · rw [hone rfl rfl]
      exact Nat.le_refl 1
    · exact absurd rfl (hfree.1 rfl).1
    · exact absurd rfl (hfree.2 rfl)
  · exact .inr fun row hrow hnil => hempty (hnil ▸ hrow)

end Token

/-! ## References -/

namespace Json

open Token

variable {bodies : String → Option (List Token)} {σ : String → Option (List (String × Json))}

/-- **What names stand for, among tokens and as members**: wherever no comma is stray, the tokens are
those of the members. -/
structure StandFor (bodies : String → Option (List Token))
    (σ : String → Option (List (String × Json))) : Prop where
  none_iff : ∀ n, bodies n = none ↔ σ n = none
  tokens : ∀ n ts group, bodies n = some ts → σ n = some group → IsClean ts →
    ts = memberTokens group

theorem piece_of_isClean (h : StandFor bodies σ) {m : String × Json}
    (hvalue : (substituted bodies m.2.tokens).IsChain StrayFree →
      substituted bodies m.2.tokens = (m.2.spliced σ).tokens)
    (hclean : IsClean (piece bodies m)) : piece bodies m = memberTokens (splicedMember σ m) := by
  have hkept (hnone : (reference? m).bind bodies = none) (hnone' : (reference? m).bind σ = none) :
      piece bodies m = memberTokens (splicedMember σ m) := by
    rw [piece, hnone, Option.getD_none, IsClean] at hclean
    have hinner : (substituted bodies m.2.tokens).IsChain StrayFree :=
      hclean.tail.tail.tail.left_of_append
    rw [piece, splicedMember, hnone, hnone', Option.getD_none, Option.getD_none, hvalue hinner]
    simp [memberTokens, moreMembers]
  cases hname : reference? m with
  | none => exact hkept (by rw [hname]; rfl) (by rw [hname]; rfl)
  | some n =>
    cases hbody : bodies n with
    | none => exact hkept (by rw [hname]; exact hbody) (by rw [hname]; exact (h.none_iff n).mp hbody)
    | some ts =>
      cases hgroup : σ n with
      | none => rw [(h.none_iff n).mpr hgroup] at hbody; cases hbody
      | some group =>
        rw [piece, hname, Option.bind_some, hbody, Option.getD_some] at hclean ⊢
        rw [splicedMember, hname, Option.bind_some, hgroup, Option.getD_some]
        exact h.tokens n ts group hbody hgroup hclean

/-- **Where no comma is stray, replacing references among the tokens of a value is replacing them in
the value.** -/
theorem substituted_tokens_of_strayFree (h : StandFor bodies σ) {v : Json}
    (hfree : (substituted bodies v.tokens).IsChain StrayFree) :
    substituted bodies v.tokens = (v.spliced σ).tokens := by
  induction v using Json.induct with
  | null | bool | num | str => simp [tokens, substituted_singleton, spliced]
  | arr items ih =>
    rw [substituted_arr] at hfree
    have hitems : items.map (fun v => substituted bodies v.tokens) =
        (splicedItems σ items).map tokens := by
      rw [splicedItems_eq_map, List.map_map]
      refine List.map_congr_left fun v hv => ih v hv ?_
      have hrow : substituted bodies v.tokens ∈ items.map fun v => substituted bodies v.tokens :=
        List.mem_map.mpr ⟨v, hv, rfl⟩
      obtain ⟨before, after, heq, -⟩ := exists_separated_eq hrow
      rw [heq] at hfree
      exact hfree.tail.left_of_append.right_of_append.left_of_append
    rw [substituted_arr, spliced, tokens, itemTokens_eq, hitems]
  | obj members ih =>
    rw [substituted_obj] at hfree
    -- between clean commas the pieces are rows of members, and none is empty beside another
    have hclean : IsClean (separated (members.map (piece bodies))) := hfree
    have hpieces : members.map (piece bodies) =
        (members.map (splicedMember σ)).map memberTokens := by
      rw [List.map_map]
      exact List.map_congr_left fun m hm =>
        piece_of_isClean h (ih m hm) (hclean.of_mem (List.mem_map_of_mem hm))
    have htidy : Tidy (members.map (splicedMember σ)) := by
      rcases hclean.ne_nil with hlength | hne
      · exact .inl (by simpa using hlength)
      · refine .inr fun g hg hnil => ?_
        rw [hpieces] at hne
        exact hne _ (List.mem_map_of_mem hg) (by rw [hnil]; rfl)
    rw [substituted_obj, spliced, tokens, hpieces, separated_memberTokens htidy,
      splicedMembers_eq_flatMap, List.flatMap_def]

end Json

namespace Fragments

open Token Json

variable {fragments : List (String × List (String × Json))}

/-- **What the names of fragments stand for.** -/
theorem standFor_resolved : StandFor (resolution fragments) (resolved fragments) := by
  induction fragments with
  | nil => exact ⟨fun n => by simp [resolution, resolved], fun n ts group hn => by cases hn⟩
  | cons f rest ih =>
    refine ⟨fun n => ?_, fun n ts group hts hgroup hclean => ?_⟩
    · rw [resolution_cons, resolved]
      split
      · simp
      · exact ih.none_iff n
    · rw [resolution_cons] at hts
      rw [resolved] at hgroup
      split at hts
      · rename_i hn
        rw [if_pos hn] at hgroup
        obtain rfl := Option.some.inj hts
        obtain rfl := Option.some.inj hgroup
        have hbraces : (substituted (resolution rest) (obj f.2).tokens).IsChain StrayFree := by
          rw [tokens, substituted_braces]
          exact hclean
        have htokens := substituted_tokens_of_strayFree ih hbraces
        rw [tokens, substituted_braces, spliced, tokens] at htokens
        exact List.append_cancel_right (List.cons.inj htokens).2
      · rename_i hn
        rw [if_neg hn] at hgroup
        exact ih.tokens n ts group hts hgroup hclean

end Fragments

end FeatureFlags
