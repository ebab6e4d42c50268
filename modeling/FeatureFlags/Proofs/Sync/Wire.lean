import Mathlib.Algebra.Order.Ring.Nat
import FeatureFlags.Sync.Wire

/-!
# Proofs/Sync/Wire — the bytes that spell a row of fields

Which bytes spell which fields is said here apart from any reader.  A number may be spelled in more
than one way, since groups of zeros may follow it; a group of fields opens and closes under one
number and holds fields of its own.  The reader takes every spelling (`fields?_of_spells`), and what
is written is one (`spellsPiece_bytes`).
-/

namespace FeatureFlags.Wire

/-! ## Numbers -/

/-- Seven bits a byte, the least significant first, every byte but the last marked as not the last.
-/
inductive Groups : Nat → List UInt8 → Prop
  | last {n : Nat} (h : n < 128) : Groups n [UInt8.ofNat n]
  | more {low n : Nat} {bytes : List UInt8} (hlow : low < 128) (h : Groups n bytes) :
      Groups (low + 128 * n) (UInt8.ofNat (low + 128) :: bytes)

/-- **Bytes that spell a number**: at most ten, and the number has 64 bits. -/
structure SpellsNumber (n : Nat) (bytes : List UInt8) : Prop where
  groups : Groups n bytes
  short : bytes.length ≤ 10
  bounded : n < 2 ^ 64

theorem Groups.length_pos {n : Nat} {bytes : List UInt8} (h : Groups n bytes) :
    0 < bytes.length := by
  cases h <;> simp

/-- The last byte that fits may hold one bit only, which the bound of the number says. -/
theorem Groups.readVarintWith {n : Nat} {bytes : List UInt8} (h : Groups n bytes)
    (rest : List UInt8) {fuel : Nat} (hlength : bytes.length ≤ fuel + 1)
    (hn : n < 2 * 128 ^ fuel) :
    readVarintWith (fuel + 1) (bytes ++ rest) = some (n, rest) := by
  induction h generalizing fuel with
  | @last n h =>
    have hbyte : (UInt8.ofNat n).toNat = n := by simp; omega
    have hlast : ¬ (fuel = 0 ∧ 2 ≤ n) := by
      rintro ⟨rfl, h2⟩
      simp at hn
      omega
    simp [Wire.readVarintWith, -UInt8.toNat_ofNat', hbyte, h, hlast]
  | @more low n bytes hlow h ih =>
    obtain _ | fuel := fuel
    · -- no byte would be left for what follows
      have hnone : bytes.length ≤ 0 := by simpa using hlength
      have := h.length_pos
      omega
    · have hbyte : (UInt8.ofNat (low + 128)).toNat = low + 128 := by simp; omega
      have hrest : Wire.readVarintWith (fuel + 1) (bytes ++ rest) = some (n, rest) :=
        ih (by simpa using hlength) (by rw [pow_succ] at hn; omega)
      rw [List.cons_append, Wire.readVarintWith, hbyte, if_neg (by omega), hrest]
      simp

theorem SpellsNumber.readVarint {n : Nat} {bytes : List UInt8} (h : SpellsNumber n bytes)
    (rest : List UInt8) : readVarint (bytes ++ rest) = some (n, rest) := by
  have hn : n < 2 * 128 ^ 9 := Nat.lt_of_lt_of_le h.bounded (by decide)
  have hmod : n % Nat.pow 2 64 = n := Nat.mod_eq_of_lt h.bounded
  rw [Wire.readVarint, h.groups.readVarintWith rest h.short hn]
  exact congrArg (fun k => some (k, rest)) hmod

theorem groups_varintWith {fuel n : Nat} (h : n < 128 ^ (fuel + 1)) :
    Groups n (varintWith fuel n) ∧ (varintWith fuel n).length ≤ fuel + 1 := by
  induction fuel generalizing n with
  | zero => exact ⟨.last (by simpa using h), Nat.le_refl _⟩
  | succ fuel ih =>
    rw [varintWith]
    split
    case isTrue hsmall => exact ⟨.last hsmall, by simp⟩
    case isFalse =>
      obtain ⟨hgroups, hlength⟩ := ih (n := n / 128) (by rw [pow_succ] at h; omega)
      have hmore := hgroups.more (Nat.mod_lt n (by decide))
      rw [Nat.mod_add_div] at hmore
      exact ⟨hmore, by simpa using hlength⟩

theorem spellsNumber_varint {n : Nat} (h : n < 2 ^ 64) : SpellsNumber n (varint n) := by
  obtain ⟨hgroups, hshort⟩ := @groups_varintWith 9 n (Nat.lt_of_lt_of_le h (by decide))
  exact ⟨hgroups, hshort, h⟩

/-! ## Pieces -/

/-- The bytes of content, as they stand behind its key. -/
inductive SpellsContent : Content → List UInt8 → Prop
  | varint {n : Nat} {bytes : List UInt8} (h : SpellsNumber n bytes) :
      SpellsContent (.varint n) bytes
  | fixed64 {n : Nat} {bytes : List UInt8} (hlength : bytes.length = 8)
      (hn : ofLittleEndian bytes = n) : SpellsContent (.fixed64 n) bytes
  | bytes {content length : List UInt8} (h : SpellsNumber content.length length) :
      SpellsContent (.bytes content) (length ++ content)
  | groupStart : SpellsContent .groupStart []
  | groupEnd : SpellsContent .groupEnd []
  | fixed32 {n : Nat} {bytes : List UInt8} (hlength : bytes.length = 4)
      (hn : ofLittleEndian bytes = n) : SpellsContent (.fixed32 n) bytes

/-- **Bytes that spell a piece**: a key of 32 bits at most, and content of the kind it tells. -/
inductive SpellsPiece : Piece → List UInt8 → Prop
  | intro {number : Nat} {content : Content} {key bytes : List UInt8} (hpos : 0 < number)
      (hbound : number < 2 ^ 29) (hkey : SpellsNumber (8 * number + content.kind) key)
      (hcontent : SpellsContent content bytes) : SpellsPiece ⟨number, content⟩ (key ++ bytes)

theorem takeBytes?_append {count : Nat} {bytes : List UInt8} (h : bytes.length = count)
    (rest : List UInt8) : takeBytes? count (bytes ++ rest) = some (bytes, rest) := by
  subst h
  simp [takeBytes?]

theorem SpellsContent.content? {content : Content} {bytes : List UInt8}
    (h : SpellsContent content bytes) (rest : List UInt8) :
    content? content.kind (bytes ++ rest) = some (content, rest) := by
  cases h with
  | varint h => simp [Content.kind, Wire.content?, h.readVarint]
  | fixed64 hlength hn => simp [Content.kind, Wire.content?, takeBytes?_append hlength, hn]
  | bytes h =>
    simp [Content.kind, Wire.content?, h.readVarint, takeBytes?_append rfl]
  | groupStart => rfl
  | groupEnd => rfl
  | fixed32 hlength hn => simp [Content.kind, Wire.content?, takeBytes?_append hlength, hn]

theorem Content.kind_lt (content : Content) : content.kind < 8 := by
  cases content <;> simp [Content.kind]

theorem SpellsPiece.piece? {p : Piece} {bytes : List UInt8} (h : SpellsPiece p bytes)
    (rest : List UInt8) : piece? (bytes ++ rest) = some (p, rest) := by
  obtain @⟨number, content, key, bytes, hpos, hbound, hkey, hcontent⟩ := h
  have hkind := content.kind_lt
  have hnumber : (8 * number + content.kind) / 8 = number := by omega
  have hrest : (8 * number + content.kind) % 8 = content.kind := by omega
  have hfits : ¬ (Nat.pow 2 32 ≤ 8 * number + content.kind ∨ number = 0) := by
    simp only [Nat.pow_eq]
    omega
  rw [List.append_assoc, Wire.piece?, hkey.readVarint]
  simp only [Option.bind_eq_bind, Option.bind_some, hnumber, hrest, if_neg hfits]
  simp [hcontent.content?]

theorem SpellsPiece.length_pos {p : Piece} {bytes : List UInt8} (h : SpellsPiece p bytes) :
    0 < bytes.length := by
  obtain @⟨_, _, key, bytes, _, _, hkey, _⟩ := h
  have := hkey.groups.length_pos
  simp only [List.length_append]
  omega

theorem piecesWith_mono {fuel more : Nat} {bytes : List UInt8} {ps : List Piece}
    (h : piecesWith fuel bytes = some ps) (hle : fuel ≤ more) : piecesWith more bytes = some ps := by
  induction fuel generalizing more bytes ps with
  | zero =>
    obtain _ | ⟨b, rest⟩ := bytes
    · simpa [piecesWith] using h
    · simp [piecesWith] at h
  | succ fuel ih =>
    obtain _ | ⟨b, rest⟩ := bytes
    · simpa [piecesWith] using h
    · obtain ⟨more, rfl⟩ : ∃ m, more = m + 1 := ⟨more - 1, by omega⟩
      simp only [piecesWith, Option.bind_eq_bind, Option.bind_eq_some_iff] at h ⊢
      obtain ⟨head, hhead, tail, htail, hps⟩ := h
      exact ⟨head, hhead, tail, ih htail (by omega), hps⟩

/-- Read at the front of any bytes that can be read, bytes give these pieces. -/
def ReadsAs (bytes : List UInt8) (ps : List Piece) : Prop :=
  ∀ ⦃fuel rest more⦄, piecesWith fuel rest = some more →
    piecesWith (bytes.length + fuel) (bytes ++ rest) = some (ps ++ more)

theorem ReadsAs.nil : ReadsAs [] [] := fun fuel rest more h => by simpa using h

theorem ReadsAs.append {bytes others : List UInt8} {ps qs : List Piece} (h : ReadsAs bytes ps)
    (h' : ReadsAs others qs) : ReadsAs (bytes ++ others) (ps ++ qs) := fun fuel rest more hrest => by
  simpa [Nat.add_assoc] using h (h' hrest)

theorem SpellsPiece.readsAs {p : Piece} {bytes : List UInt8} (h : SpellsPiece p bytes) :
    ReadsAs bytes [p] := fun fuel rest more hrest => by
  have hpiece := h.piece? rest
  obtain ⟨b, tail, rfl⟩ := List.exists_cons_of_length_pos h.length_pos
  have hmore : piecesWith (tail.length + fuel) rest = some more := piecesWith_mono hrest (by omega)
  rw [List.cons_append] at hpiece ⊢
  rw [List.length_cons, Nat.add_right_comm, piecesWith.eq_3 _ _ (by simp), hpiece]
  simp [hmore]

theorem ReadsAs.pieces? {bytes : List UInt8} {ps : List Piece} (h : ReadsAs bytes ps) :
    pieces? bytes = some ps := by
  simpa [Wire.pieces?] using h (show piecesWith 0 [] = some [] from rfl)

/-! ## Fields -/

/-- The field that a piece is on its own. -/
def Piece.field? : Piece → Option Field
  | ⟨number, .varint n⟩ => some (.varint number n)
  | ⟨number, .fixed64 n⟩ => some (.fixed64 number n)
  | ⟨number, .bytes content⟩ => some (.bytes number content)
  | ⟨number, .fixed32 n⟩ => some (.fixed32 number n)
  | _ => none

/-- How deep the deepest of some fields is nested, counted from a height there was before. -/
def heightFrom (height : Nat) (fs : List Field) : Nat :=
  fs.foldl (fun h f => max h f.height) height

/-- **Bytes that spell a row of fields.** -/
inductive Spells : List Field → List UInt8 → Prop
  | nil : Spells [] []
  | piece {p : Piece} {f : Field} {fs : List Field} {head bytes : List UInt8}
      (hp : SpellsPiece p head) (hf : p.field? = some f) (hrest : Spells fs bytes) :
      Spells (f :: fs) (head ++ bytes)
  | group {number : Nat} {inner fs : List Field} {start body stop bytes : List UInt8}
      (hstart : SpellsPiece ⟨number, .groupStart⟩ start) (hinner : Spells inner body)
      (hstop : SpellsPiece ⟨number, .groupEnd⟩ stop) (hrest : Spells fs bytes) :
      Spells (.group number (heightFrom 0 inner + 1) :: fs) (start ++ body ++ stop ++ bytes)

theorem Spells.append {fs gs : List Field} {bytes others : List UInt8} (h : Spells fs bytes)
    (h' : Spells gs others) : Spells (fs ++ gs) (bytes ++ others) := by
  induction h with
  | nil => exact h'
  | piece hp hf _ ih => simpa using Spells.piece hp hf ih
  | group hstart hinner hstop _ _ ih => simpa using Spells.group hstart hinner hstop ih

theorem SpellsPiece.spells {p : Piece} {f : Field} {bytes : List UInt8} (h : SpellsPiece p bytes)
    (hf : p.field? = some f) : Spells [f] bytes := by
  simpa using Spells.piece h hf .nil

namespace Grouping

theorem step_of_field {p : Piece} {f : Field} (h : p.field? = some f) (g : Grouping) :
    g.step p = some (g.add f) := by
  obtain ⟨number, content⟩ := p
  cases content <;> simp_all [Piece.field?, step]

theorem foldl_add_bottom (fs before : List Field) :
    fs.foldl add ⟨before, []⟩ = ⟨fs.reverse ++ before, []⟩ := by
  induction fs generalizing before with
  | nil => rfl
  | cons f fs ih => simp [add, ih]

theorem foldl_add_open (fs before : List Field) (top : OpenGroup) (below : List OpenGroup) :
    fs.foldl add ⟨before, top :: below⟩ =
      ⟨before, ⟨top.number, heightFrom top.inner fs⟩ :: below⟩ := by
  induction fs generalizing top with
  | nil => rfl
  | cons f fs ih => exact ih ⟨top.number, max top.inner f.height⟩

/-- A group that is opened, filled and closed is one field. -/
theorem foldlM_group {inner : List Field} {ps : List Piece}
    (h : ∀ g : Grouping, ps.foldlM step g = some (inner.foldl add g)) (number : Nat)
    (g : Grouping) :
    ([Piece.mk number .groupStart] ++ ps ++ [Piece.mk number .groupEnd]).foldlM step g =
      some (g.add (.group number (heightFrom 0 inner + 1))) := by
  obtain ⟨before, stack⟩ := g
  simp [List.foldlM_append, step, h, foldl_add_open]

end Grouping

/-- The pieces of a spelling put the fields that it spells where the reader stands. -/
theorem Spells.exists_pieces {fs : List Field} {bytes : List UInt8} (h : Spells fs bytes) :
    ∃ ps, ReadsAs bytes ps ∧
      ∀ g : Grouping, ps.foldlM Grouping.step g = some (fs.foldl Grouping.add g) := by
  induction h with
  | nil => exact ⟨[], .nil, fun g => rfl⟩
  | @piece p f fs head bytes hp hf _ ih =>
    obtain ⟨ps, hreads, hfold⟩ := ih
    refine ⟨[p] ++ ps, hp.readsAs.append hreads, fun g => ?_⟩
    simp [Grouping.step_of_field hf, hfold]
  | @group number inner fs start body stop bytes hstart _ hstop _ ihinner ihrest =>
    obtain ⟨qs, hqs, hinner⟩ := ihinner
    obtain ⟨ps, hps, hfold⟩ := ihrest
    refine ⟨_, ((hstart.readsAs.append hqs).append hstop.readsAs).append hps, fun g => ?_⟩
    rw [List.foldlM_append, Grouping.foldlM_group hinner]
    exact hfold _

/-- **Every spelling is read as the fields that it spells.** -/
theorem fields?_of_spells {fs : List Field} {bytes : List UInt8} (h : Spells fs bytes) :
    fields? bytes = some fs := by
  obtain ⟨ps, hreads, hfold⟩ := h.exists_pieces
  simp [fields?, hreads.pieces?, hfold, Grouping.foldl_add_bottom]

/-! ## Writing -/

theorem length_littleEndian (count n : Nat) : (littleEndian count n).length = count := by
  induction count generalizing n with
  | zero => rfl
  | succ count ih => simp [littleEndian, ih]

theorem ofLittleEndian_littleEndian {count n : Nat} (h : n < 256 ^ count) :
    ofLittleEndian (littleEndian count n) = n := by
  induction count generalizing n with
  | zero =>
    rw [pow_zero, Nat.lt_one_iff] at h
    subst h
    rfl
  | succ count ih =>
    have hrest := ih (n := n / 256) (by rw [pow_succ] at h; omega)
    have hbyte : (UInt8.ofNat (n % 256)).toNat = n % 256 := by simp
    rw [littleEndian, ofLittleEndian, hrest, hbyte, Nat.mod_add_div]

/-- Content that its kind has room for. -/
def Content.Fits : Content → Prop
  | varint n => n < 2 ^ 64
  | fixed64 n => n < 2 ^ 64
  | bytes content => content.length < 2 ^ 64
  | fixed32 n => n < 2 ^ 32
  | _ => True

/-- **What is written for a piece spells it.** -/
theorem spellsPiece_bytes {number : Nat} {content : Content} (hpos : 0 < number)
    (hbound : number < 2 ^ 29) (h : content.Fits) :
    SpellsPiece ⟨number, content⟩ (Piece.bytes ⟨number, content⟩) := by
  have hkind := content.kind_lt
  refine .intro hpos hbound (spellsNumber_varint ?_) ?_
  · omega
  · cases content with
    | varint n => exact .varint (spellsNumber_varint h)
    | fixed64 n =>
      exact .fixed64 (length_littleEndian 8 n)
        (ofLittleEndian_littleEndian (Nat.lt_of_lt_of_le h (by decide)))
    | bytes content => exact .bytes (spellsNumber_varint h)
    | groupStart => exact .groupStart
    | groupEnd => exact .groupEnd
    | fixed32 n =>
      exact .fixed32 (length_littleEndian 4 n)
        (ofLittleEndian_littleEndian (Nat.lt_of_lt_of_le h (by decide)))

/-- A field of bytes as it is written. -/
theorem spells_bytes {number : Nat} {content : List UInt8} (hpos : 0 < number)
    (hbound : number < 2 ^ 29) (h : content.length < 2 ^ 64) :
    Spells [.bytes number content] (Piece.bytes ⟨number, .bytes content⟩) :=
  have hfits : (Content.bytes content).Fits := h
  (spellsPiece_bytes hpos hbound hfits).spells rfl

/-- Groups inside each other under one number, the innermost empty. -/
def nestedGroups (number : Nat) : Nat → List UInt8
  | 0 => []
  | depth + 1 =>
    Piece.bytes ⟨number, .groupStart⟩ ++ nestedGroups number depth ++
      Piece.bytes ⟨number, .groupEnd⟩

theorem spells_nestedGroups {number : Nat} (hpos : 0 < number) (hbound : number < 2 ^ 29)
    (depth : Nat) :
    Spells [.group number (depth + 1)] (nestedGroups number (depth + 1)) := by
  have hstart : SpellsPiece ⟨number, .groupStart⟩ _ := spellsPiece_bytes hpos hbound trivial
  have hstop : SpellsPiece ⟨number, .groupEnd⟩ _ := spellsPiece_bytes hpos hbound trivial
  induction depth with
  | zero => simpa [nestedGroups, heightFrom] using Spells.group hstart .nil hstop .nil
  | succ depth ih =>
    have hheight : heightFrom 0 [.group number (depth + 1)] = depth + 1 := Nat.zero_max _
    have hgroup := Spells.group hstart ih hstop .nil
    rwa [hheight, List.append_nil] at hgroup

theorem length_le_bytes (number : Nat) (content : List UInt8) :
    content.length ≤ (Piece.bytes ⟨number, .bytes content⟩).length := by
  simp only [Piece.bytes, List.length_append]
  omega

/-! ## Enumerations and texts -/

theorem ofEnumeration_lt (number : Int32) : ofEnumeration number < 2 ^ 64 :=
  UInt64.toNat_lt _

theorem enumeration_ofEnumeration (number : Int32) :
    enumeration (ofEnumeration number) = number := by
  rw [enumeration, ofEnumeration, UInt64.ofNat_toNat]
  refine Int32.toBitVec_inj.mp (BitVec.eq_of_getLsbD_eq fun i hi => ?_)
  simp [BitVec.getLsbD_signExtend, hi]
  omega

theorem toList_loop (bytes : ByteArray) (i : Nat) (before : List UInt8) :
    ByteArray.toList.loop bytes i before = before.reverse ++ bytes.data.toList.drop i := by
  fun_induction ByteArray.toList.loop bytes i before with
  | case1 i before h ih =>
    have hi : i < bytes.data.toList.length := h
    rw [ih, List.drop_eq_getElem_cons hi, List.reverse_cons, List.append_assoc, List.singleton_append]
    congr 2
    exact getElem!_pos bytes.data i h
  | case2 i before h =>
    have hi : bytes.data.toList.length ≤ i := Nat.le_of_not_lt h
    rw [List.drop_eq_nil_of_le hi, List.append_nil]

theorem ofText_eq (s : String) : ofText s = s.toUTF8.data.toList := by
  rw [ofText, ByteArray.toList, toList_loop]
  simp

theorem text?_ofText (s : String) : text? (ofText s) = some s := by
  rw [text?, ofText_eq, Array.toArray_toList, String.fromUTF8?, String.toUTF8_eq_toByteArray,
    dif_pos s.isValidUTF8]
  rfl

end FeatureFlags.Wire
