/-
# Lines hold no more coordinates than they may

Cut at its line breaks, a list of pieces is a list of lines, and these are the
lines of its text (`Spelling.splitOn_pieces`). In pretty text none of them holds
more coordinates than the configuration lets on a line.

The count of elements behind which a line is wrapped begins anew in every
sequence and multipoint, so a line keeps its limit only because each of them
begins on a line without coordinates. The invariant is `Fills limit a ps b`:
with at most `a` coordinates on the line before, the pieces put no more than
`limit` on any line, and leave at most `b` on the last. A part on a line of its
own may come behind a full line, as it begins with a break; one that follows on
the same line is the first of its geometry, and comes behind a line without
coordinates (`Style.geometry_fills`).

Key definitions: `Line`, `lines`, `Fills`.
Key theorems: `Spelling.splitOn_pieces`, `Style.geometry_fills`,
`Config.coordinates_line_le`.
-/
import LatLonText.Proofs.Written

namespace LatLonText

/-! ### Lines -/

/-- A line of a text: how many blanks it begins with, and the pieces behind them. -/
structure Line where
  blanks : Nat
  pieces : List Piece

namespace Line

/-- The text of a line. -/
def text (s : Spelling) (l : Line) : List Char :=
  List.replicate l.blanks ' ' ++ s.pieces l.pieces

/-- The coordinates on a line, as their places. -/
def coordinates (l : Line) : List (List Slot) :=
  l.pieces.flatMap Piece.places

end Line

/-- The pieces in front of the first line break. -/
def firstLine : List Piece → List Piece
  | [] => []
  | .lineBreak _ :: _ => []
  | p :: ps => p :: firstLine ps

/-- The lines that line breaks begin. -/
def laterLines : List Piece → List Line
  | [] => []
  | .lineBreak n :: ps => ⟨n, firstLine ps⟩ :: laterLines ps
  | _ :: ps => laterLines ps

/-- The lines of pieces. -/
def lines (ps : List Piece) : List Line :=
  ⟨0, firstLine ps⟩ :: laterLines ps

theorem firstLine_cons {p : Piece} (hp : ∀ n, p ≠ .lineBreak n) (ps : List Piece) :
    firstLine (p :: ps) = p :: firstLine ps := by
  cases p with
  | lineBreak n => exact absurd rfl (hp n)
  | _ => rfl

theorem laterLines_cons {p : Piece} (hp : ∀ n, p ≠ .lineBreak n) (ps : List Piece) :
    laterLines (p :: ps) = laterLines ps := by
  cases p with
  | lineBreak n => exact absurd rfl (hp n)
  | _ => rfl

/-- Nothing but line breaks is lost in lines. -/
theorem coordinates_lines (ps : List Piece) :
    (lines ps).flatMap Line.coordinates = ps.flatMap Piece.places := by
  show (firstLine ps).flatMap Piece.places ++ (laterLines ps).flatMap Line.coordinates = _
  induction ps with
  | nil => rfl
  | cons p ps ih =>
    cases p with
    | lineBreak n => exact ih
    | _ =>
      rw [firstLine_cons (by nofun), laterLines_cons (by nofun), List.flatMap_cons,
        List.flatMap_cons, List.append_assoc, ih]

/-- **The lines of pieces are those of their text**, behind some text that has no newline. -/
theorem Spelling.splitOn_pieces (s : Spelling) (hmarker : '\n' ∉ s.missingMarker.toList) :
    ∀ (ps : List Piece) {front : List Char}, '\n' ∉ front →
      (front ++ s.pieces ps).splitOn '\n' =
        (front ++ s.pieces (firstLine ps)) :: (laterLines ps).map (Line.text s)
  | [], front, hfront => by
    show (front ++ []).splitOn '\n' = [front ++ []]
    rw [List.append_nil]
    exact List.splitOnP_eq_singleton (beq_eq_false_of_not_mem hfront)
  | p :: ps, front, hfront => by
    by_cases hp : ∃ n, p = .lineBreak n
    · obtain ⟨n, rfl⟩ := hp
      have hblanks : '\n' ∉ List.replicate n ' ' := fun h =>
        absurd (List.eq_of_mem_replicate h) (by decide)
      have hrest := splitOn_pieces s hmarker ps hblanks
      show (front ++ '\n' :: (List.replicate n ' ' ++ s.pieces ps)).splitOn '\n' =
        (front ++ []) :: (List.replicate n ' ' ++ s.pieces (firstLine ps)) ::
          (laterLines ps).map (Line.text s)
      rw [List.append_nil, ← hrest]
      exact List.splitOnP_append_cons_of_forall_mem (beq_eq_false_of_not_mem hfront) '\n' rfl _
    · have hp : ∀ n, p ≠ .lineBreak n := fun n h => hp ⟨n, h⟩
      have hnewline : '\n' ∉ front ++ s.piece p := fun h =>
        (List.mem_append.mp h).elim hfront (s.newline_not_mem_piece hmarker hp)
      rw [s.pieces_cons, firstLine_cons hp, laterLines_cons hp, s.pieces_cons, ← List.append_assoc,
        ← List.append_assoc]
      exact splitOn_pieces s hmarker ps hnewline

/-! ### The limit of a line -/

/-- `Fills limit a ps b`: with at most `a` coordinates on the line before, the pieces `ps` put no
more than `limit` on any line, and leave at most `b` on the last. -/
inductive Fills (limit : Nat) : Nat → List Piece → Nat → Prop
  | nil {a b : Nat} (hab : a ≤ b) (hb : b ≤ limit) : Fills limit a [] b
  | lineBreak {a b : Nat} {ps : List Piece} (n : Nat) (ha : a ≤ limit) (h : Fills limit 0 ps b) :
      Fills limit a (.lineBreak n :: ps) b
  | coordinate {a b : Nat} {ps : List Piece} (places : List Slot) (h : Fills limit (a + 1) ps b) :
      Fills limit a (.coordinate places :: ps) b
  | other {a b : Nat} {p : Piece} {ps : List Piece} (hp : p.places = [])
      (hbreak : ∀ n, p ≠ .lineBreak n) (h : Fills limit a ps b) : Fills limit a (p :: ps) b

namespace Fills

variable {limit a b c : Nat} {ps qs : List Piece}

theorem mono (h : Fills limit a ps b) : ∀ {a'}, a' ≤ a → Fills limit a' ps b := by
  induction h with
  | nil hab hb => exact fun ha => nil (Nat.le_trans ha hab) hb
  | lineBreak n ha' h _ => exact fun ha => lineBreak n (Nat.le_trans ha ha') h
  | coordinate places _ ih => exact fun ha => coordinate places (ih (Nat.succ_le_succ ha))
  | other hp hbreak _ ih => exact fun ha => other hp hbreak (ih ha)

theorem append (h : Fills limit a ps b) (h' : Fills limit b qs c) :
    Fills limit a (ps ++ qs) c := by
  induction h with
  | nil hab _ => exact h'.mono hab
  | lineBreak n ha _ ih => exact lineBreak n ha (ih h')
  | coordinate places _ ih => exact coordinate places (ih h')
  | other hp hbreak _ ih => exact other hp hbreak (ih h')

/-- A piece that is neither a coordinate nor a line break. -/
theorem single {p : Piece} (hp : p.places = []) (hbreak : ∀ n, p ≠ .lineBreak n) (hab : a ≤ b)
    (hb : b ≤ limit) : Fills limit a [p] b :=
  other hp hbreak (nil hab hb)

/-- No line gets more than the limit. -/
theorem length_coordinates_le (h : Fills limit a ps b) :
    a + ((firstLine ps).flatMap Piece.places).length ≤ limit ∧
      ∀ l ∈ laterLines ps, l.coordinates.length ≤ limit := by
  induction h with
  | nil hab hb => exact ⟨Nat.le_trans hab hb, nofun⟩
  | lineBreak n ha _ ih =>
    obtain ⟨hfirst, hlater⟩ := ih
    rw [Nat.zero_add] at hfirst
    exact ⟨ha, List.forall_mem_cons.mpr ⟨hfirst, hlater⟩⟩
  | @coordinate a _ ps places _ ih =>
    obtain ⟨hfirst, hlater⟩ := ih
    refine ⟨?_, hlater⟩
    rw [firstLine_cons (by nofun), List.flatMap_cons]
    show a + (((firstLine ps).flatMap Piece.places).length + 1) ≤ limit
    omega
  | other hp hbreak _ ih =>
    rw [firstLine_cons hbreak, laterLines_cons hbreak, List.flatMap_cons, hp]
    exact ih

end Fills

/-! ### The parts of a geometry -/

/-- When a part may come behind `a` coordinates on a line: if there are none, or if the part begins
with a break. -/
def MayFollow (a level : Nat) (own : Bool) : Prop :=
  a = 0 ∨ own = true ∧ level ≠ 0

theorem Layout.breakAt_fills {l : Layout} (hpretty : l.pretty = true) {limit a level : Nat}
    (ha : a ≤ limit) (h : a = 0 ∨ level ≠ 0) : Fills limit a (l.breakAt level) 0 := by
  by_cases hlevel : level = 0
  · obtain rfl := h.resolve_right (not_not_intro hlevel)
    rw [hlevel, breakAt_zero]
    exact .nil (Nat.le_refl 0) ha
  · have hbreak : l.breakAt level = [.lineBreak (level * l.indentWidth.toNat % blanksModulus)] := by
      simp [breakAt, hpretty, hlevel]
    rw [hbreak]
    exact .lineBreak _ ha (.nil (Nat.le_refl 0) (Nat.zero_le limit))

namespace Style

section Fills

variable (s : Style) {limit : Nat} (hpretty : s.layout.pretty = true)
  (hlimit : s.layout.perLine.toNat = limit) (hpos : 0 < limit)

include hpretty hlimit hpos

/-- Behind element `i` at most `i % limit + 1` coordinates are on the line, and a wrap leaves
room. -/
theorem wrapAt_fills {a i : Nat} (ha : a ≤ i % limit + 1) (level : Nat) :
    Fills limit a (s.layout.wrapAt (i + 1) (level + 1)) ((i + 1) % limit) := by
  have hlt : i % limit < limit := Nat.mod_lt i hpos
  unfold Layout.wrapAt
  rw [hlimit]
  by_cases hfull : (i + 1) % limit = 0
  · rw [if_pos (by simp [hfull, Nat.ne_of_gt hpos]), hfull]
    exact Layout.breakAt_fills hpretty (by omega) (.inr (Nat.succ_ne_zero level))
  · have hnext : (i + 1) % limit = i % limit + 1 := by
      rw [← Nat.mod_add_mod] at hfull ⊢
      refine Nat.mod_eq_of_lt (Nat.lt_of_le_of_ne hlt fun heq => hfull ?_)
      rw [heq, Nat.mod_self]
    rw [if_neg (by simp [hfull]), hnext]
    exact .nil ha hlt

theorem laterElements_fills {α : Type} (level : Nat) {element : α → List Piece}
    (h : ∀ a x, a < limit → Fills limit a (element x) (a + 1)) :
    ∀ (xs : List α) {i a : Nat}, a ≤ i % limit + 1 →
      Fills limit a (s.laterElements level element xs (i + 1)) limit
  | [], i, a, ha => .nil (Nat.le_trans ha (Nat.mod_lt i hpos)) (Nat.le_refl limit)
  | x :: xs, i, a, ha => by
    have hwrap := s.wrapAt_fills hpretty hlimit hpos ha level
    have helement := h _ x (Nat.mod_lt (i + 1) hpos)
    have hlater := laterElements_fills level h xs (Nat.le_refl ((i + 1) % limit + 1))
    exact ((Fills.other rfl (by nofun) hwrap).append helement).append hlater

theorem elements_fills {α : Type} (level : Nat) {element : α → List Piece}
    (h : ∀ a x, a < limit → Fills limit a (element x) (a + 1)) (xs : List α) :
    Fills limit 0 (s.elements level element xs) limit := by
  cases xs with
  | nil => exact .single rfl (by nofun) (Nat.zero_le limit) (Nat.le_refl limit)
  | cons x xs =>
    have hfirst := h 0 x hpos
    have hlater : Fills limit (0 + 1) (s.laterElements level element xs (0 + 1)) limit :=
      s.laterElements_fills hpretty hlimit hpos level h xs (Nat.succ_le_succ (Nat.zero_le _))
    have hclosing : Fills limit limit [.closing] limit :=
      .single rfl (by nofun) (Nat.le_refl limit) (Nat.le_refl limit)
    exact ((Fills.other rfl (by nofun) hfirst).append hlater).append hclosing

theorem sequence_fills {a level : Nat} {own : Bool} (ha : a ≤ limit) (h : MayFollow a level own)
    (cs : List Coordinate) : Fills limit a (s.sequence level own cs) limit := by
  have hcoordinates := s.elements_fills hpretty hlimit hpos level
    (fun a c ha => .coordinate (s.slots c) (.nil (Nat.le_refl _) ha)) cs
  unfold sequence
  by_cases hbreak : (own && !cs.isEmpty) = true
  · rw [if_pos hbreak]
    have hlevel : a = 0 ∨ level ≠ 0 := h.imp_right And.right
    exact (Layout.breakAt_fills hpretty ha hlevel).append hcoordinates
  · rw [if_neg hbreak]
    rcases h with rfl | ⟨hown, _⟩
    · exact hcoordinates
    · -- a sequence that takes no line of its own is empty
      have hempty : cs = [] := by simpa [hown] using hbreak
      rw [hempty]
      exact .single rfl (by nofun) ha (Nat.le_refl limit)

omit hpretty hlimit hpos in
/-- A point puts one coordinate at most behind those of its line. -/
theorem point_fills {a : Nat} (ha : a < limit) (level : Nat) (c : Option Coordinate) :
    Fills limit a (s.sequence level false c.toList) (a + 1) := by
  cases c with
  | none => exact .single rfl (by nofun) (Nat.le_succ a) ha
  | some c =>
    exact .other rfl (by nofun) (.coordinate _ (.single rfl (by nofun) (Nat.le_refl _) ha))

omit hpretty hlimit hpos in
theorem laterParts_fills {α : Type} (level : Nat) {part : Nat → Bool → α → List Piece} :
    ∀ {xs : List α}, (∀ x ∈ xs, ∀ a n own, a ≤ limit → MayFollow a n own →
      Fills limit a (part n own x) limit) →
      Fills limit limit (xs.flatMap fun x => .separator :: part (level + 1) true x) limit
  | [], _ => .nil (Nat.le_refl limit) (Nat.le_refl limit)
  | x :: xs, h => by
    obtain ⟨hx, hxs⟩ := List.forall_mem_cons.mp h
    have hpart := hx limit (level + 1) true (Nat.le_refl limit) (.inr ⟨rfl, Nat.succ_ne_zero level⟩)
    exact (Fills.other rfl (by nofun) hpart).append (laterParts_fills level hxs)

omit hpretty hlimit hpos in
theorem parts_fills {α : Type} (level : Nat) {part : Nat → Bool → α → List Piece} {xs : List α}
    (h : ∀ x ∈ xs, ∀ a n own, a ≤ limit → MayFollow a n own → Fills limit a (part n own x) limit) :
    Fills limit 0 (parts level part xs) limit := by
  cases xs with
  | nil => exact .single rfl (by nofun) (Nat.zero_le limit) (Nat.le_refl limit)
  | cons x xs =>
    obtain ⟨hx, hxs⟩ := List.forall_mem_cons.mp h
    have hfirst := hx 0 level false (Nat.zero_le limit) (.inl rfl)
    have hclosing : Fills limit limit [.closing] limit :=
      .single rfl (by nofun) (Nat.le_refl limit) (Nat.le_refl limit)
    exact ((Fills.other rfl (by nofun) hfirst).append (laterParts_fills level hxs)).append hclosing

theorem polygon_fills {a level : Nat} {own : Bool} (ha : a ≤ limit) (h : MayFollow a level own)
    (p : Polygon) : Fills limit a (s.polygon level own p) limit := by
  have hrings : Fills limit 0 (parts level s.sequence p.rings) limit :=
    parts_fills level fun cs _ a n own ha h => s.sequence_fills hpretty hlimit hpos ha h cs
  unfold polygon
  by_cases hempty : p.isEmpty = true
  · rw [if_pos hempty]
    exact .single rfl (by nofun) ha (Nat.le_refl limit)
  · rw [if_neg hempty]
    cases own with
    | true => exact (Layout.breakAt_fills hpretty ha (h.imp_right And.right)).append hrings
    | false =>
      obtain rfl := h.resolve_right (by simp)
      exact hrings

omit hlimit hpos in
theorem heading_fills {a level : Nat} (ha : a ≤ limit) (h : a = 0 ∨ level ≠ 0) (kind : Kind) :
    Fills limit a (s.heading level kind) 0 := by
  have htoken : Fills limit 0 s.flatToken 0 := by
    unfold flatToken
    split
    · exact .single rfl (by nofun) (Nat.le_refl 0) (Nat.zero_le limit)
    · exact .nil (Nat.le_refl 0) (Nat.zero_le limit)
  exact (Layout.breakAt_fills hpretty ha h).append (.other rfl (by nofun) htoken)

theorem body_fills (level : Nat) (g : Geometry) : Fills limit 0 (s.body level g) limit := by
  have hsequence : ∀ level cs, Fills limit 0 (s.sequence level false cs) limit :=
    fun level cs => s.sequence_fills hpretty hlimit hpos (Nat.zero_le limit) (.inl rfl) cs
  -- for every level, since members stand deeper than their collection
  induction g generalizing level with
  | point c => exact hsequence level c.toList
  | lineString cs => exact hsequence level cs
  | linearRing cs => exact hsequence level cs
  | polygon p => exact s.polygon_fills hpretty hlimit hpos (Nat.zero_le limit) (.inl rfl) p
  | multiPoint ps =>
    exact s.elements_fills hpretty hlimit hpos level
      (fun a c ha => s.point_fills ha level c) ps
  | multiLineString ls =>
    exact parts_fills level fun cs _ a n own ha h => s.sequence_fills hpretty hlimit hpos ha h cs
  | multiPolygon ps =>
    exact parts_fills level fun p _ a n own ha h => s.polygon_fills hpretty hlimit hpos ha h p
  | collection gs ih =>
    have hmembers : Fills limit 0 (parts level (fun n _ g => s.geometry n g) gs) limit :=
      parts_fills level fun g hg a n own ha h => by
        rw [geometry_eq]
        exact (s.heading_fills hpretty ha (h.imp_right And.right) g.kind).append (ih g hg n)
    exact hmembers

/-- **A geometry fills no line beyond the limit**, if it begins with a break or on a line without
coordinates. -/
theorem geometry_fills {a level : Nat} (ha : a ≤ limit) (h : a = 0 ∨ level ≠ 0) (g : Geometry) :
    Fills limit a (s.geometry level g) limit := by
  rw [geometry_eq]
  exact (s.heading_fills hpretty ha h g.kind).append (s.body_fills hpretty hlimit hpos level g)

end Fills

end Style

/-! ### The text of a geometry -/

namespace Config

variable (c : Config)

/-- The lines of the text of a geometry. -/
def lines (g : Geometry) : List Line :=
  LatLonText.lines (c.pieces g)

/-- **No line holds more coordinates than it may.** Pretty text that is wrapped has the lines of its
pieces; on these lines are the coordinates of the geometry, as far as it is written and in order,
and on each of them no more than the configuration lets on a line. -/
theorem coordinates_line_le (hpretty : c.pretty = true) (hlimit : 0 < c.perLine)
    (hmarker : '\n' ∉ c.dialect.missingMarker.toList) (g : Geometry) :
    (c.write g).toList.splitOn '\n' = (c.lines g).map (Line.text c.spelling) ∧
    (c.lines g).flatMap Line.coordinates = g.written.coordinates.map (c.style g).slots ∧
    ∀ line ∈ c.lines g, line.coordinates.length ≤ c.perLine.toNat := by
  have hpos : 0 < c.perLine.toNat := UInt64.lt_iff_toNat_lt.mp hlimit
  have hfills : Fills c.perLine.toNat 0 (c.pieces g) c.perLine.toNat :=
    (c.style g).geometry_fills hpretty rfl hpos (Nat.zero_le _) (.inl rfl) g
  refine ⟨?_, ?_, ?_⟩
  · rw [write, String.toList_ofList]
    exact c.spelling.splitOn_pieces hmarker (c.pieces g) List.not_mem_nil
  · exact (coordinates_lines _).trans ((c.style g).places_geometry 0 g)
  · obtain ⟨hfirst, hlater⟩ := hfills.length_coordinates_le
    rw [Nat.zero_add] at hfirst
    exact List.forall_mem_cons.mpr ⟨hfirst, hlater⟩

/-- Two coordinates on a line: a line string is wrapped, its successor begins a line, and an empty
point counts as an element of a multipoint. -/
theorem coordinates_line_le_two :
    let c : Config := { Config.default with pretty := true, perLine := 2 }
    let zero : Coordinate := .xy ⟨0⟩ ⟨0⟩
    let g : Geometry :=
      .collection [.lineString [zero, zero, zero], .multiPoint [some zero, none, some zero]]
    c.pretty = true ∧ 0 < c.perLine ∧ '\n' ∉ c.dialect.missingMarker.toList ∧
    (c.write g).toList = ("GEOMETRYCOLLECTION (LINESTRING (0 0, 0 0, \n  0 0), \n  " ++
      "MULTIPOINT ((0 0), EMPTY, \n    (0 0)))").toList ∧
    ∀ line ∈ c.lines g, line.coordinates.length ≤ 2 := by
  intro c zero g
  have hlimit : 0 < c.perLine := by decide
  have hmarker : '\n' ∉ c.dialect.missingMarker.toList := by decide
  exact ⟨rfl, hlimit, hmarker, by decide +kernel, (coordinates_line_le c rfl hlimit hmarker g).2.2⟩

end Config

end LatLonText
