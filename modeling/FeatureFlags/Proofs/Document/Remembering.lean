import FeatureFlags.Document.Schema
import FeatureFlags.Proofs.Document.Printing

/-!
# Proofs/Document/Remembering — remembered answers are the answers

A cache of violations looks documents up by the digest of their text.  Two documents have one text only
if they are one (`Json.eq_of_print_eq`), so while no two of their texts have one digest, an entry
belongs to one document and holds its violations (`ViolationCache.Sound`).  Each check keeps it so,
whether it finds the document, adds it, or empties a full cache first (`Sound.consult`).
-/

namespace FeatureFlags

open Json

namespace ViolationCache

variable {digest : String → String} {seen : List Json} {c : ViolationCache} {document : Json}

/-- **A cache after a row of checks.** -/
def after (digest : String → String) (documents : List Json) : ViolationCache :=
  documents.foldl (fun c document => (c.consult digest document).2) empty

theorem after_concat (documents : List Json) (document : Json) :
    after digest (documents ++ [document]) = ((after digest documents).consult digest document).2 := by
  rw [after, List.foldl_append]
  rfl

/-- The digest of a document. -/
def key (digest : String → String) (document : Json) : String := digest document.print

/-- **What a cache knows** of the documents that were checked. -/
structure Sound (digest : String → String) (seen : List Json) (c : ViolationCache) : Prop where
  size : c.size ≤ capacity
  entries : ∀ e ∈ c.remembered, ∃ d ∈ seen, e = (key digest d, Schema.violations d)
  nodup : (c.remembered.map (·.1)).Nodup

theorem sound_empty : Sound digest seen empty where
  size := Nat.zero_le _
  entries := nofun
  nodup := List.nodup_nil

/-- **One check** finds the document or adds it. -/
theorem consult_cases (digest : String → String) (c : ViolationCache) (document : Json) :
    (∃ found, (key digest document, found) ∈ c.remembered ∧ c.consult digest document = (found, c)) ∨
      (∀ e ∈ c.remembered, e.1 ≠ key digest document) ∧
        c.consult digest document = (Schema.violations document,
          ⟨(key digest document, Schema.violations document) :: c.makeRoom.remembered⟩) := by
  rw [consult]
  cases hfind : c.remembered.find? (·.1 == digest document.print) with
  | some e =>
    have hkey : e.1 = digest document.print := by simpa using List.find?_some hfind
    refine .inl ⟨e.2, ?_, rfl⟩
    rw [key, ← hkey]
    exact List.mem_of_find?_eq_some hfind
  | none =>
    refine .inr ⟨fun e he => ?_, rfl⟩
    simpa [key] using List.find?_eq_none.mp hfind e he

/-- Making room drops everything or nothing. -/
theorem Sound.makeRoom (h : Sound digest seen c) :
    Sound digest seen c.makeRoom ∧ c.makeRoom.size < capacity ∧
      c.makeRoom.remembered ⊆ c.remembered := by
  rw [ViolationCache.makeRoom]
  split
  · exact ⟨sound_empty, by decide, List.nil_subset _⟩
  · exact ⟨h, by omega, List.Subset.refl _⟩

theorem Sound.mono {more : List Json} (h : Sound digest seen c) (hmore : seen ⊆ more) :
    Sound digest more c where
  size := h.size
  entries e he := by
    obtain ⟨d, hd, rfl⟩ := h.entries e he
    exact ⟨d, hmore hd, rfl⟩
  nodup := h.nodup

/-- **A check answers rightly and keeps the cache sound**, if the digests of the documents differ. -/
theorem Sound.consult (h : Sound digest seen c)
    (hkeys : Set.InjOn (key digest) {d | d ∈ seen ++ [document]}) :
    (c.consult digest document).1 = Schema.violations document ∧
      Sound digest (seen ++ [document]) (c.consult digest document).2 ∧
        (key digest document, Schema.violations document) ∈
          (c.consult digest document).2.remembered := by
  have hseen := h.mono (List.subset_append_left seen [document])
  obtain ⟨found, hmem, hconsult⟩ | ⟨hnew, hconsult⟩ := consult_cases digest c document
  · obtain ⟨d, hd, he⟩ := hseen.entries _ hmem
    obtain ⟨hkey, rfl⟩ := Prod.mk.inj he
    obtain rfl := hkeys hd (by simp) hkey.symm
    rw [hconsult]
    exact ⟨rfl, hseen, hmem⟩
  · obtain ⟨hroom, hsize, hsub⟩ := hseen.makeRoom
    rw [hconsult]
    refine ⟨rfl, ⟨hsize, ?_, ?_⟩, List.mem_cons_self⟩
    · exact List.forall_mem_cons.mpr ⟨⟨document, by simp, rfl⟩, hroom.entries⟩
    · refine List.nodup_cons.mpr ⟨fun hmem => ?_, hroom.nodup⟩
      obtain ⟨e, he, hkey⟩ := List.mem_map.mp hmem
      exact hnew e (hsub he) hkey

theorem sound_after {documents : List Json}
    (hkeys : Set.InjOn (key digest) {d | d ∈ documents}) :
    Sound digest documents (after digest documents) := by
  induction documents using List.reverseRecOn with
  | nil => exact sound_empty
  | append_singleton documents document ih =>
    rw [after_concat]
    exact ((ih (hkeys.mono fun d hd => List.mem_append_left _ hd)).consult hkeys).2.1

/-- Where no two texts have one digest, no two documents do. -/
theorem injOn_key {documents : List Json} (hreadable : ∀ d ∈ documents, All IsReadable d)
    (hdigest : Set.InjOn digest {text | ∃ d ∈ documents, d.print = text}) :
    Set.InjOn (key digest) {d | d ∈ documents} := fun d hd e he h =>
  eq_of_print_eq (hreadable d hd) (hreadable e he) (hdigest ⟨d, hd, rfl⟩ ⟨e, he, rfl⟩ h)

/-- **The cache does not show.**  After any row of checks the next one answers as a fresh cache would,
and then the cache holds the document just checked and at most so many; no document has two entries, and
each entry belongs to one document that was checked, and to no other.  It takes a digest that no two of
the texts share. -/
theorem consult_after (digest : String → String) (documents : List Json) (document : Json)
    (hreadable : ∀ d ∈ documents ++ [document], All IsReadable d)
    (hdigest : Set.InjOn digest {text | ∃ d ∈ documents ++ [document], d.print = text}) :
    ((after digest documents).consult digest document).1 = (empty.consult digest document).1 ∧
      (after digest (documents ++ [document])).size ≤ capacity ∧
      (∃ e ∈ (after digest (documents ++ [document])).remembered, e.1 = digest document.print) ∧
      ((after digest (documents ++ [document])).remembered.map (·.1)).Nodup ∧
      ∀ e ∈ (after digest (documents ++ [document])).remembered,
        ∃ d ∈ documents ++ [document], e.2 = Schema.violations d ∧
          ∀ other ∈ documents ++ [document], digest other.print = e.1 ↔ other = d := by
  have hkeys := injOn_key hreadable hdigest
  have hbefore := sound_after (hkeys.mono fun d hd => List.mem_append_left [document] hd)
  obtain ⟨hanswer, hsound, hmem⟩ := hbefore.consult hkeys
  rw [after_concat]
  refine ⟨hanswer, hsound.size, ⟨_, hmem, rfl⟩, hsound.nodup, fun e he => ?_⟩
  obtain ⟨d, hd, rfl⟩ := hsound.entries e he
  exact ⟨d, hd, rfl, fun other hother => ⟨fun h => hkeys hother hd h, fun h => h ▸ rfl⟩⟩

/-- The digests of two short texts, as the hash in use gives them. -/
def shortDigest (text : String) : String :=
  if text = "1" then "6b86b273ff34fce19d6b804eff5a3f5747ada4eaa22f1d49c01e52ddb7875b4b"
  else if text = "1.0" then "d0ff5974b6aa52cf562bea5921840c032a860a91a3512f7fe8f768f6bbe005f6"
  else text

/-- The integer one and the double one. -/
def ones : List Json := [.int 1, .num (.double (.ofInt 1))]

/-- An integer and the double of the same value have two entries. -/
theorem consult_after_ones :
    (after shortDigest (ones ++ [.int 1])).size = 2 ∧
      ((after shortDigest ones).consult shortDigest (.int 1)).1 =
        (empty.consult shortDigest (.int 1)).1 := by
  have hreadable : ∀ d ∈ ones ++ [.int 1], All IsReadable d := by
    have hone : All IsReadable (.int 1) := (all_leaf rfl).mpr (.inl rfl)
    have hfinite : (Binary64.ofInt 1).isFinite = true := by decide +kernel
    have hdouble : All IsReadable (.num (.double (.ofInt 1))) := (all_leaf rfl).mpr hfinite
    simp [ones, hone, hdouble]
  have htexts : ∀ text, (∃ d ∈ ones ++ [.int 1], d.print = text) → text = "1" ∨ text = "1.0" := by
    have hprint : (ones ++ [int 1]).map print = ["1", "1.0", "1"] := by decide +kernel
    rintro _ ⟨d, hd, rfl⟩
    have hmem : d.print ∈ ["1", "1.0", "1"] := hprint ▸ List.mem_map_of_mem hd
    simpa [or_comm] using hmem
  refine ⟨by decide +kernel, (consult_after shortDigest ones (.int 1) hreadable ?_).1⟩
  rintro first hfirst second hsecond h
  obtain rfl | rfl := htexts first hfirst <;> obtain rfl | rfl := htexts second hsecond <;>
    simp [shortDigest] at h ⊢

end ViolationCache

end FeatureFlags
