/-
# Equal geometries are written alike

The sign of a zero is written, and zeros with and without one are equal; this is
all that the texts of equal geometries differ in. To take the signs of zeros out of
a text (`unsignZeros`) is to write each word `-0` as `0` and to leave all other
words and what separates them (`unsignZeros_word`, `unsignZeros_cons`). Then the text
of a geometry is that of the geometry in which zeros have no sign
(`Config.unsignZeros_text`), and equal geometries have one such geometry.

A word of the text ends where its piece does, but for the word that an empty part
or a coordinate ends with: this one ends where the next piece begins. The invariant
that every part keeps is `WordsEnd`, that behind such a piece there is a piece that
begins with a separator, or nothing. So the signs of zeros are taken piece by piece
(`Spelling.unsignZeros_pieces`), and what happens to the pieces is known from
`Style.Alike`.

Key definitions: `unsignZeros`, `WordsEnd`.
Key theorems: `unsignZeros_append`, `unsignZeros_word`, `Style.wordsEnd_geometry`,
`Spelling.unsignZeros_pieces`, `Config.unsignZeros_text`,
`Geometry.equal_written_alike`.
-/
import LatLonText.Proofs.Breaks
import LatLonText.Proofs.Equality
import LatLonText.Proofs.Requested
import LatLonText.Proofs.RoundTwice

namespace LatLonText

/-! ### Texts without the signs of zeros -/

/-- The word that a text begins with. -/
def frontWord (cs : List Char) : List Char := cs.takeWhile (· ∉ separators)

/-- A text without the signs of zeros; `fresh` says that a word may begin at its front. -/
def unsignFrom : Bool → List Char → List Char
  | _, [] => []
  | fresh, c :: cs =>
    if fresh ∧ frontWord (c :: cs) = ['-', '0'] then unsignFrom false cs
    else c :: unsignFrom (c ∈ separators) cs

/-- A text in which each word `-0` is `0`. -/
def unsignZeros (cs : List Char) : List Char := unsignFrom true cs

/-- What may stand behind a word: nothing, or a separator and more. -/
def Separated (rest : List Char) : Prop := ∀ c ∈ rest.head?, c ∈ separators

theorem separated_cons {c : Char} (hc : c ∈ separators) (cs : List Char) : Separated (c :: cs) := by
  rintro _ ⟨⟩
  exact hc

theorem frontWord_of_separated {rest : List Char} (h : Separated rest) : frontWord rest = [] := by
  cases rest with
  | nil => rfl
  | cons c rest => exact List.takeWhile_cons_of_neg (by simpa using h c rfl)

theorem frontWord_append {rest : List Char} (h : Separated rest) (cs : List Char) :
    frontWord (cs ++ rest) = frontWord cs := by
  have hrest := frontWord_of_separated h
  unfold frontWord at hrest ⊢
  rw [List.takeWhile_append, hrest, List.append_nil]
  split
  · rename_i hall
    exact (List.takeWhile_prefix _).eq_of_length hall |>.symm
  · rfl

/-- **Behind a word the signs are taken as behind nothing.** -/
theorem unsignFrom_append {rest : List Char} (h : Separated rest) :
    ∀ (fresh : Bool) (cs : List Char),
    unsignFrom fresh (cs ++ rest) = unsignFrom fresh cs ++ unsignZeros rest
  | fresh, [] => by
    have hword := frontWord_of_separated h
    cases rest with
    | nil => rfl
    | cons c rest => simp [unsignFrom, unsignZeros, hword]
  | fresh, c :: cs => by
    have hword : frontWord (c :: (cs ++ rest)) = frontWord (c :: cs) := frontWord_append h (c :: cs)
    rw [List.cons_append, unsignFrom, unsignFrom, hword, unsignFrom_append h, unsignFrom_append h]
    split <;> rfl

theorem unsignZeros_append {rest : List Char} (h : Separated rest) (cs : List Char) :
    unsignZeros (cs ++ rest) = unsignZeros cs ++ unsignZeros rest :=
  unsignFrom_append h true cs

/-- A separator stays, and behind it the signs are taken as behind nothing. -/
theorem unsignZeros_cons {c : Char} (hc : c ∈ separators) (cs : List Char) :
    unsignZeros (c :: cs) = c :: unsignZeros cs := by
  have hword : frontWord (c :: cs) = [] := frontWord_of_separated (separated_cons hc cs)
  simp [unsignZeros, unsignFrom, hword, hc]

/-- **A word stays**, but for `-0`. -/
theorem unsignZeros_word {w : List Char} (h : IsWord w) :
    unsignZeros w = if w = ['-', '0'] then ['0'] else w := by
  have hlater : ∀ {cs : List Char}, IsWord cs → unsignFrom false cs = cs := fun {cs} hcs => by
    induction cs with
    | nil => rfl
    | cons c cs ih =>
      obtain ⟨hc, hcs⟩ := List.forall_mem_cons.mp hcs
      simp [unsignFrom, hc, ih hcs]
  cases w with
  | nil => rfl
  | cons c cs =>
    have hword : frontWord (c :: cs) = c :: cs :=
      List.takeWhile_eq_self_iff.mpr fun d hd => by simpa using h d hd
    obtain ⟨hc, hcs⟩ := List.forall_mem_cons.mp h
    rw [unsignZeros, unsignFrom, hword, hlater hcs, decide_eq_false hc, hlater hcs]
    by_cases hzero : c :: cs = ['-', '0']
    · rw [if_pos ⟨rfl, hzero⟩, if_pos hzero, (List.cons.inj hzero).2]
    · rw [if_neg fun h => hzero h.2, if_neg hzero]

example : unsignZeros "POINT (-0 -0.5 1-0)".toList = "POINT (0 -0.5 1-0)".toList := by decide

/-- So what ends with a separator may be followed by anything. -/
theorem unsignZeros_append_of_getLast? {cs : List Char} (h : ∀ c ∈ cs.getLast?, c ∈ separators)
    (rest : List Char) : unsignZeros (cs ++ rest) = unsignZeros cs ++ unsignZeros rest := by
  rcases List.eq_nil_or_concat cs with rfl | ⟨front, c, rfl⟩
  · rfl
  · have hc : c ∈ separators := h c (by simp)
    rw [List.concat_append, List.concat_eq_append, unsignZeros_append (separated_cons hc rest),
      unsignZeros_append (separated_cons hc []), unsignZeros_cons hc, unsignZeros_cons hc]
    simp [unsignZeros, unsignFrom]

/-! ### Where words end -/

/-- A piece whose last word goes on to the end of the piece. -/
def Piece.IsOpen : Piece → Prop
  | .empty => True
  | .coordinate _ => True
  | _ => False

/-- A piece that begins with a separator. -/
def Piece.Separates : Piece → Prop
  | .closing => True
  | .separator => True
  | .lineBreak _ => True
  | _ => False

/-- Behind each piece that is open stands one that separates, or nothing. -/
def WordsEnd (ps : List Piece) : Prop :=
  ps.IsChain fun p q => p.IsOpen → q.Separates

namespace WordsEnd

variable {p : Piece} {ps qs : List Piece}

theorem cons (hp : ¬ p.IsOpen) (h : WordsEnd ps) : WordsEnd (p :: ps) :=
  List.isChain_cons.mpr ⟨fun _ _ hopen => absurd hopen hp, h⟩

theorem append (h : WordsEnd ps) (h' : WordsEnd qs) (hhead : ∀ q ∈ qs.head?, q.Separates) :
    WordsEnd (ps ++ qs) :=
  List.isChain_append.mpr ⟨h, h', fun _ _ q hq _ => hhead q hq⟩

/-- Later parts up to the closing parenthesis, which begin with a separator. -/
theorem later : ∀ {parts : List (List Piece)}, (∀ ps ∈ parts, WordsEnd ps) →
    WordsEnd (parts.flatMap (Piece.separator :: ·) ++ [.closing]) ∧
      ∀ q ∈ (parts.flatMap (Piece.separator :: ·) ++ [Piece.closing]).head?, q.Separates
  | [], _ => ⟨List.isChain_singleton _, by rintro _ ⟨⟩; trivial⟩
  | ps :: parts, h => by
    obtain ⟨hps, hparts⟩ := List.forall_mem_cons.mp h
    obtain ⟨hlater, hhead⟩ := later hparts
    rw [List.flatMap_cons, List.append_assoc]
    exact ⟨cons id (hps.append hlater hhead), by rintro _ ⟨⟩; trivial⟩

/-- **In a group words end**, if they do in its parts. -/
theorem group {parts : List (List Piece)} (h : ∀ ps ∈ parts, WordsEnd ps) :
    WordsEnd (Style.group parts) := by
  cases parts with
  | nil => exact List.isChain_singleton _
  | cons ps parts =>
    obtain ⟨hps, hparts⟩ := List.forall_mem_cons.mp h
    obtain ⟨hlater, hhead⟩ := later hparts
    rw [Style.group, List.append_assoc]
    exact cons id (hps.append hlater hhead)

end WordsEnd

namespace Style

variable (s : Style)

theorem wordsEnd_flatSequence (cs : List Coordinate) : WordsEnd (s.flatSequence cs) := by
  refine WordsEnd.group fun ps hps => ?_
  obtain ⟨c, -, rfl⟩ := List.mem_map.mp hps
  exact List.isChain_singleton _

theorem wordsEnd_flatPolygon (p : Polygon) : WordsEnd (s.flatPolygon p) := by
  unfold flatPolygon
  split
  · exact List.isChain_singleton _
  · exact WordsEnd.group (List.forall_mem_map.mpr fun cs _ => s.wordsEnd_flatSequence cs)

theorem wordsEnd_flat_of_body {g : Geometry} (h : WordsEnd (s.flatBody g)) :
    WordsEnd (s.flat g) := by
  rw [flat_eq, flatToken]
  split
  · exact .cons id (.cons id h)
  · exact .cons id h

theorem wordsEnd_flatBody (g : Geometry) : WordsEnd (s.flatBody g) := by
  -- the members of a collection are geometries with a heading each
  induction g with
  | point c => exact s.wordsEnd_flatSequence c.toList
  | lineString cs => exact s.wordsEnd_flatSequence cs
  | linearRing cs => exact s.wordsEnd_flatSequence cs
  | polygon p => exact s.wordsEnd_flatPolygon p
  | multiPoint ps =>
    exact WordsEnd.group (List.forall_mem_map.mpr fun c _ => s.wordsEnd_flatSequence c.toList)
  | multiLineString ls =>
    exact WordsEnd.group (List.forall_mem_map.mpr fun cs _ => s.wordsEnd_flatSequence cs)
  | multiPolygon ps =>
    exact WordsEnd.group (List.forall_mem_map.mpr fun p _ => s.wordsEnd_flatPolygon p)
  | collection gs ih =>
    exact WordsEnd.group (List.forall_mem_map.mpr fun g hg => s.wordsEnd_flat_of_body (ih g hg))

end Style

namespace Broken

variable {pretty : Bool} {p : Piece} {ps qs : List Piece}

/-- Line breaks begin with a separator, so behind a piece stands what stood there, or one of them.
-/
theorem wordsEnd_cons (h : Broken pretty ps qs) (hps : WordsEnd ps) (hqs : WordsEnd (p :: qs)) :
    WordsEnd (p :: ps) := by
  obtain ⟨hbehind, -⟩ := List.isChain_cons.mp hqs
  refine List.isChain_cons.mpr ⟨fun q hq hopen => ?_, hps⟩
  cases h with
  | nil => nomatch hq
  | keep _ _ => exact hbehind q hq hopen
  | add n _ _ _ =>
    cases hq
    trivial

theorem wordsEnd (h : Broken pretty ps qs) (hqs : WordsEnd qs) : WordsEnd ps := by
  induction h with
  | nil => exact hqs
  | keep _ hrest ih => exact hrest.wordsEnd_cons (ih (List.isChain_cons.mp hqs).2) hqs
  | add n _ _ hrest ih =>
    exact .cons id (hrest.wordsEnd_cons (ih (List.isChain_cons.mp hqs).2) hqs)

end Broken

/-- **In a geometry words end**, under any style and at any level. -/
theorem Style.wordsEnd_geometry (s : Style) (level : Nat) (g : Geometry) :
    WordsEnd (s.geometry level g) :=
  (s.geometry_broken level g).wordsEnd (s.wordsEnd_flat_of_body (s.wordsEnd_flatBody g))

/-! ### The signs of zeros, piece by piece -/

namespace Spelling

variable (s : Spelling)

/-- A piece that is not open ends with a separator, or has no text. -/
theorem getLast?_piece {p : Piece} (hp : ¬ p.IsOpen) :
    ∀ c ∈ (s.piece p).getLast?, c ∈ separators := by
  intro c hc
  cases p with
  | tag kind =>
    have hpiece : s.piece (.tag kind) = kind.tag.toList ++ [' '] := s.piece_eq_start nofun
    rw [hpiece, List.getLast?_concat] at hc
    cases hc
    decide
  | token o =>
    have hpiece : s.piece (.token o) = o.token.toList := s.piece_eq_start nofun
    have hblank : o.token.toList.getLast? = none ∨ o.token.toList.getLast? = some ' ' := by
      unfold Ordinates.token
      cases o.z <;> cases o.m <;> decide
    rw [hpiece] at hc
    rcases hblank with hnone | hblank
    · rw [hnone] at hc
      cases hc
    · rw [hblank] at hc
      cases hc
      decide
  | empty => exact absurd trivial hp
  | coordinate places => exact absurd trivial hp
  | lineBreak n =>
    have hmem : c ∈ '\n' :: List.replicate n ' ' := List.mem_of_getLast? hc
    rcases List.mem_cons.mp hmem with rfl | hblank
    · decide
    · rw [List.eq_of_mem_replicate hblank]
      decide
  | _ =>
    cases hc
    decide

/-- A piece that separates begins with a separator. -/
theorem separated_pieces {p : Piece} (hp : p.Separates) (ps : List Piece) :
    Separated (s.pieces (p :: ps)) := by
  cases p with
  | closing | separator | lineBreak n =>
    rintro _ ⟨⟩
    decide
  | _ => exact hp.elim

/-- **Where words end, the signs of zeros are taken piece by piece.** -/
theorem unsignZeros_pieces : ∀ {ps : List Piece}, WordsEnd ps →
    unsignZeros (s.pieces ps) = ps.flatMap fun p => unsignZeros (s.piece p)
  | [], _ => rfl
  | p :: ps, h => by
    obtain ⟨hbehind, hps⟩ := List.isChain_cons.mp h
    have hpiece : unsignZeros (s.piece p ++ s.pieces ps) =
        unsignZeros (s.piece p) ++ unsignZeros (s.pieces ps) := by
      by_cases hopen : p.IsOpen
      · refine unsignZeros_append ?_ _
        cases ps with
        | nil => nofun
        | cons q ps => exact s.separated_pieces (hbehind q rfl hopen) ps
      · exact unsignZeros_append_of_getLast? (s.getLast?_piece hopen) _
    rw [pieces_cons, hpiece, List.flatMap_cons, unsignZeros_pieces hps]

end Spelling

/-! ### Zeros in a text -/

/-- Zero is written as one digit, with or without a sign, whatever the precision. -/
theorem Precision.text_of_zero (p : Precision) {v : Ordinate} (h : v.magnitude = 0) :
    p.text v = withSign v.negative ['0'] := by
  have hfinite : v.isNaN = false ∧ v.isInfinite = false := by
    rw [Ordinate.isNaN, Ordinate.isInfinite, h]
    decide
  have hdigits : ∀ f : BinaryFormat, (f.shortest 0).positional = ['0'] := fun f => by
    rw [BinaryFormat.shortest, if_pos rfl, Decimal.positional_zero]
  have hshortest : shortestText v = withSign v.negative ['0'] := by
    simp [shortestText, hfinite, h, hdigits]
  have htext : p.text v = p.finiteText v := by
    simp [text, hfinite]
  rw [htext]
  cases p with
  | floating => exact hshortest
  | single =>
    have hnarrow : narrow v = 0 := by
      rw [narrow, h, BinaryFormat.value_zero]
      rfl
    simp only [finiteText, hnarrow, hdigits]
    rfl
  | fixed n => rwa [finiteText, Ordinate.roundDigits_of_zero h]

theorem Precision.unsignZeros_text (p : Precision) (v : Ordinate) :
    unsignZeros (p.text v.unsignZero) = unsignZeros (p.text v) := by
  by_cases hzero : v.magnitude = 0
  · have hword : ∀ w : Ordinate, w.magnitude = 0 → unsignZeros (p.text w) = ['0'] := by
      intro w hw
      rw [unsignZeros_word (p.isWord_text w), p.text_of_zero hw]
      cases w.negative <;> rfl
    rw [hword v hzero, hword v.unsignZero (v.magnitude_unsignZero.trans hzero)]
  · rw [Ordinate.unsignZero, if_neg hzero]

namespace Spelling

variable (s : Spelling)

theorem unsignZeros_slots : ∀ places : List Slot,
    unsignZeros (s.slots places) = [' '].intercalate (places.map fun p => unsignZeros (s.slot p))
  | [] => rfl
  | [p] => by simp [slots]
  | p :: q :: rest => by
    have ih := unsignZeros_slots (q :: rest)
    have hblank : ' ' ∈ separators := by decide
    unfold slots at ih ⊢
    rw [List.map_cons, List.map_cons, List.intercalate_cons_cons, ← List.map_cons,
      List.append_assoc, List.singleton_append, unsignZeros_append (separated_cons hblank _),
      unsignZeros_cons hblank, ih]
    simp only [List.map_cons, List.intercalate_cons_cons, List.append_assoc, List.singleton_append]

/-- A coordinate is written as without the signs of zeros, but for these signs. -/
theorem unsignZeros_coordinate (t : Style) (c : Coordinate) :
    unsignZeros (s.slots (t.slots c.unsignZeros)) = unsignZeros (s.slots (t.slots c)) := by
  have hvalue : ∀ v : Ordinate,
      unsignZeros (s.slot (.value v.unsignZero)) = unsignZeros (s.slot (.value v)) :=
    s.precision.unsignZeros_text
  have hofZ : ∀ v : Ordinate,
      unsignZeros (s.slot (.ofZ v.unsignZero)) = unsignZeros (s.slot (.ofZ v)) := fun v => by
    unfold Slot.ofZ
    rw [v.isNaN_unsignZero]
    split
    · rfl
    · exact hvalue v
  rw [unsignZeros_slots, unsignZeros_slots, Style.slots_eq, Style.slots_eq]
  cases htz : t.ordinates.z <;> cases htm : t.ordinates.m <;>
    simp [Coordinate.unsignZeros, hvalue, hofZ]

end Spelling

namespace Config

variable (c : Config)

theorem effectiveOrdinates_unsignZeros (g : Geometry) :
    c.effectiveOrdinates (g.mapCoordinates Coordinate.unsignZeros) = c.effectiveOrdinates g := by
  have hz : ∀ d : Coordinate, d.unsignZeros.hasZ = d.hasZ := fun d => by
    simp [Coordinate.hasZ, Coordinate.unsignZeros]
  have hm : ∀ d : Coordinate, d.unsignZeros.hasM = d.hasM := fun d => by
    simp [Coordinate.hasM, Coordinate.unsignZeros]
  rw [effectiveOrdinates, effectiveOrdinates, Geometry.presentOrdinates_eq,
    Geometry.presentOrdinates_eq, Geometry.coordinates_mapCoordinates]
  simp [Presence.presentIn, List.any_map, Function.comp_def, hz, hm]

/-- **A geometry is written as without the signs of zeros**, but for these signs. -/
theorem unsignZeros_text (g : Geometry) :
    unsignZeros (c.text (g.mapCoordinates Coordinate.unsignZeros)) = unsignZeros (c.text g) := by
  have halike : (c.style g).Alike (c.style g) Coordinate.unsignZeros
      (fun p => unsignZeros (c.spelling.piece p)) fun p => unsignZeros (c.spelling.piece p) := by
    refine ⟨rfl, fun _ _ => rfl, rfl, fun d => ?_⟩
    rw [c.spelling.piece_eq_start (by nofun), c.spelling.piece_eq_start (by nofun)]
    exact (c.spelling.unsignZeros_coordinate (c.style g) d).symm
  have hpieces : c.pieces (g.mapCoordinates Coordinate.unsignZeros) =
      (c.style g).geometry 0 (g.mapCoordinates Coordinate.unsignZeros) := by
    rw [pieces, c.effectiveOrdinates_unsignZeros g]
    rfl
  have hwords : ∀ h : Geometry, unsignZeros (c.spelling.pieces ((c.style g).geometry 0 h)) =
      ((c.style g).geometry 0 h).flatMap fun p => unsignZeros (c.spelling.piece p) := fun h =>
    c.spelling.unsignZeros_pieces ((c.style g).wordsEnd_geometry 0 h)
  rw [text, text, hpieces, hwords, ← halike.geometry 0 g]
  exact (hwords g).symm

end Config

namespace Geometry

/-- **Equal geometries are written alike.** Geometries that are equal as numbers have all four
ordinates in each coordinate, and under each configuration their texts are the same but for the
signs of zeros. Equality is symmetric and transitive, and a geometry equals itself exactly if each
of its coordinates, at any depth and in any ring, has all four ordinates. -/
theorem equal_written_alike :
    (∀ a b : Geometry, (a == b) = true →
      (∀ c ∈ a.coordinates ++ b.coordinates,
        c.x.isNaN = false ∧ c.y.isNaN = false ∧ c.z.isNaN = false ∧ c.m.isNaN = false) ∧
      ∀ c : Config, unsignZeros (c.write a).toList = unsignZeros (c.write b).toList) ∧
    (∀ a b : Geometry, (a == b) = (b == a)) ∧
    (∀ a b d : Geometry, (a == b) = true → (b == d) = true → (a == d) = true) ∧
    ∀ a : Geometry, (a == a) = true ↔ ∀ c ∈ a.coordinates,
      c.x.isNaN = false ∧ c.y.isNaN = false ∧ c.z.isNaN = false ∧ c.m.isNaN = false := by
  refine ⟨fun a b hab => ⟨?_, fun c => ?_⟩, beq_comm, fun a b d => beq_trans, beq_self_iff⟩
  · obtain ⟨hsame, ha⟩ := (beq_iff a b).mp hab
    exact List.forall_mem_append.mpr ⟨ha, isFull_of_unsignZeros_eq hsame ha⟩
  · obtain ⟨hsame, -⟩ := (beq_iff a b).mp hab
    rw [Config.write, Config.write, String.toList_ofList, String.toList_ofList,
      ← c.unsignZeros_text a, hsame, c.unsignZeros_text b]

/-- In a polygon of a collection, a zero that has a sign in one of two equal geometries only. -/
theorem equal_written_alike_nested :
    let zero : Ordinate := ⟨0⟩
    let minus : Ordinate := ⟨0x8000000000000000⟩
    let a : Geometry := .collection [.polygon ⟨[⟨zero, minus, zero, zero⟩], []⟩]
    let b : Geometry := .collection [.polygon ⟨[⟨minus, minus, zero, minus⟩], []⟩]
    (a == b) = true ∧
    (Config.sqlServer.write a).toList = "GEOMETRYCOLLECTION (POLYGON ((-0 0 0 0)))".toList ∧
    (Config.sqlServer.write b).toList = "GEOMETRYCOLLECTION (POLYGON ((-0 -0 0 -0)))".toList ∧
    unsignZeros (Config.sqlServer.write a).toList =
      unsignZeros (Config.sqlServer.write b).toList := by
  intro zero minus a b
  have hequal : (a == b) = true := by decide
  exact ⟨hequal, by decide +kernel, by decide +kernel,
    (equal_written_alike.1 a b hequal).2 Config.sqlServer⟩

end Geometry

end LatLonText
