import FeatureFlags.Proofs.Collections.Results
import FeatureFlags.Proofs.Document.Parsing

/-!
# Proofs/Document/Reading — the document that a table is decoded from

A table is decoded from one document: that of its text, or of the text with the references replaced
(`Document.parse_eq_readResolved`).  Either way the document was read from a text
(`Document.exists_readText`), so the members of its objects ascend and its numbers are 64-bit integers
and finite doubles; and each flag is decoded from a value in it (`Document.exists_of_decode`).
-/

namespace FeatureFlags

open Json

namespace Document

variable {parser : Parser} {text : String} {document : Json} {parsed : FlagSet}

/-! ## The document of a text -/

/-- **The document of a text**, its references resolved. -/
def readResolved (parser : Parser) (text : String) : Except DocumentError Json := do
  let document ← readText text.toList
  checkShape parser.check document
  match document with
  | .obj members => resolve parser.refusal? text.toList document members
  | _ => throw .noFlags

/-- The table of a text is that of its document. -/
theorem parse_eq_readResolved (parser : Parser) (text : String) :
    parse parser text = readResolved parser text >>= decode := by
  rw [parse, readResolved]
  simp only [bind_assoc]
  congr 2
  funext document
  congr 1
  funext
  cases document <;> rfl

/-- What is read is written in the text, sorted. -/
theorem exists_settled_of_readText {cs : List Char} (h : readText cs = .ok document) :
    ∃ w : Json, Token.ofText? cs = some w.tokens ∧ w.settled = document := by
  rw [readText] at h
  split at h
  · next v hv =>
    obtain rfl := Except.ok.inj h
    obtain ⟨ts, hcs, hts⟩ := Option.bind_eq_some_iff.mp hv
    obtain ⟨w, rfl, -, hw⟩ := ofTokens?_eq_some_iff.mp hts
    exact ⟨w, hcs, hw⟩
  · cases h

/-- The members of each object of a document ascend. -/
theorem ascending_of_readText {cs : List Char} (h : readText cs = .ok document) :
    All (OnMembers Ascending) document := by
  obtain ⟨w, -, rfl⟩ := exists_settled_of_readText h
  exact all_ascending_settled w

/-- The numbers of a document can be written. -/
theorem readable_of_readText {cs : List Char} (h : readText cs = .ok document) :
    All IsReadable document := by
  obtain ⟨w, hw, rfl⟩ := exists_settled_of_readText h
  exact ((forall_readable_iff w).mp (spells_of_ofText? hw).readable).settled fun _ => IsReadable.settled

/-- **A document was read from a text**, be its references resolved or not there. -/
theorem exists_readText (h : readResolved parser text = .ok document) :
    ∃ cs, readText cs = .ok document := by
  rw [readResolved] at h
  obtain ⟨read, hread, h⟩ := bind_eq_ok_iff.mp h
  obtain ⟨-, -, h⟩ := bind_eq_ok_iff.mp h
  split at h
  · rw [resolve.eq_def] at h
    split at h
    · split at h
      · exact ⟨_, h⟩
      · cases h
    · exact ⟨_, Except.ok.inj h ▸ hread⟩
  · cases h

/-! ## Its flags -/

/-- **A flag of a table is decoded from a value in its document.** -/
theorem exists_of_decode (h : decode document = .ok parsed) {key : String} {flag : Flag}
    (hflag : parsed.get? key = some flag) :
    ∃ v, (∀ p, All p document → All p v) ∧ Flag.decode v = .ok flag := by
  rw [decode] at h
  split at h
  · next flags hflags =>
    obtain ⟨decoded, hdecoded, hparsed⟩ := bind_eq_ok_iff.mp h
    obtain rfl := Except.ok.inj hparsed
    obtain ⟨members, rfl, hvalue⟩ := exists_of_member? hflags
    obtain ⟨e, he, hdecode⟩ := exists_of_mem_mapM hdecoded (KeyMap.mem_of_get?_ofList hflag)
    refine ⟨e.2, fun p hp => ?_, ?_⟩
    · exact (all_obj.mp ((all_obj.mp hp).2 _ (mem_of_valueAt? hvalue))).2 e he
    · rw [decodeFlag] at hdecode
      split at hdecode
      · next hread =>
        obtain ⟨-, rfl⟩ := Prod.mk.inj (Except.ok.inj hdecode)
        exact hread
      · cases hdecode
  · cases h

end Document

end FeatureFlags
