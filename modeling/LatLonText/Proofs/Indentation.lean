/-
# Indentation follows index paths

The index path of a part, with its sort, decides where pretty text is broken.
The level of a part is the number of indices that are not zero. A member of
collections begins a line if its level is not zero, a line, polygon or ring if
it is not empty and not the first of its parent, and an element of a sequence if
it comes behind full lines (`Site.startsLine`).

Under every layout the pieces of a geometry are its marked pieces with a break
in front of each site that begins a line (`Style.geometry_eq_marks`). The writer
hands levels down and tells first parts from later ones; the invariant is that
the level it hands down is that of the path (`Style.siteBody_geometry`).

Key definitions: `levelAt`, `Site.startsLine`, `Config.lineStart`.
Key theorems: `Style.geometry_eq_marks`, `Config.write_eq_marks`.
-/
import LatLonText.Proofs.Breaks
import LatLonText.Proofs.Marks

namespace LatLonText

/-! ### Levels -/

/-- The level at the end of an index path: how many indices are not zero. -/
def levelAt (path : List Nat) : Nat :=
  path.countP (· != 0)

theorem levelAt_concat (path : List Nat) (i : Nat) :
    levelAt (path ++ [i]) = levelAt path + min i 1 := by
  cases i <;> simp [levelAt, List.countP_append]

theorem any_eq_levelAt (path : List Nat) : path.any (· != 0) = (levelAt path != 0) := by
  rw [Bool.eq_iff_iff]
  simp [levelAt, List.countP_eq_zero]

namespace Site

/-- The position of the part among those of its parent. -/
def index (s : Site) : Nat :=
  s.path.getLastD 0

@[simp]
theorem index_concat (path : List Nat) (i : Nat) (p : Part) : index ⟨path ++ [i], p⟩ = i :=
  List.getLastD_concat

/-- Whether the part comes behind full lines of so many elements each. -/
def wraps (perLine : Nat) (s : Site) : Bool :=
  s.index != 0 && (perLine != 0 && s.index % perLine == 0)

/-- Whether the part begins a line of pretty text. A geometry does if any index that leads to it is
not zero, a line, polygon or ring if its own is not, and elements are wrapped. -/
def startsLine (perLine : Nat) (s : Site) : Bool :=
  match s.part with
  | .component (.geometry _) => s.path.any (· != 0)
  | .component (.point _) => s.wraps perLine
  -- an empty part takes no line
  | .component c => s.index != 0 && !c.isEmpty
  | .coordinate _ => s.wraps perLine

theorem levelAt_ne_zero_of_index {s : Site} (h : s.index ≠ 0) : levelAt s.path ≠ 0 := by
  rcases List.eq_nil_or_concat' s.path with hpath | ⟨path, i, hpath⟩
  · exact absurd (by rw [index, hpath]; rfl) h
  · rw [index, hpath, List.getLastD_concat] at h
    rw [hpath, levelAt_concat]
    omega

theorem levelAt_ne_zero {perLine : Nat} {s : Site} (h : s.startsLine perLine = true) :
    levelAt s.path ≠ 0 := by
  have hwraps : s.wraps perLine = true → levelAt s.path ≠ 0 := fun h => by
    apply levelAt_ne_zero_of_index
    simp only [wraps, Bool.and_eq_true, bne_iff_ne] at h
    exact h.1
  unfold startsLine at h
  split at h
  · rw [any_eq_levelAt] at h
    simpa using h
  · exact hwraps h
  · apply levelAt_ne_zero_of_index
    simp only [Bool.and_eq_true, bne_iff_ne] at h
    exact h.1
  · exact hwraps h

end Site

/-! ### The pieces of a layout -/

/-- The break in front of a site. -/
def Layout.breakBefore (l : Layout) (site : Site) : List Piece :=
  if site.startsLine l.perLine.toNat then l.breakAt (levelAt site.path) else []

namespace Mark

/-- The pieces of a mark: its own, behind the break in front of its site. -/
def pieces (l : Layout) (m : Mark) : List Piece :=
  m.site.elim [] l.breakBefore ++ [m.piece]

theorem flatMap_pieces_group (l : Layout) (site : Option Site) (ms : List (List Mark)) :
    (group site ms).flatMap (pieces l) =
      site.elim [] l.breakBefore ++ Style.group (ms.map fun m => m.flatMap (pieces l)) := by
  cases ms with
  | nil => simp [group, Style.group, pieces]
  | cons m ms =>
    simp [group, Style.group, pieces, List.flatMap_assoc, List.flatMap_map]

end Mark

namespace Layout

variable (l : Layout)

theorem breakBefore_geometry (path : List Nat) (g : Geometry) :
    l.breakBefore ⟨path, .component (.geometry g)⟩ = l.breakAt (levelAt path) := by
  unfold breakBefore Site.startsLine
  rw [any_eq_levelAt]
  by_cases hlevel : levelAt path = 0
  · rw [hlevel, breakAt_zero, ite_self]
  · rw [if_pos (by simpa using hlevel)]

/-- An element of a sequence has a break in front of it where it is wrapped. -/
theorem breakBefore_element {path : List Nat} {i : Nat} {p : Part}
    (h : Site.startsLine l.perLine.toNat ⟨path ++ [i], p⟩ =
      Site.wraps l.perLine.toNat ⟨path ++ [i], p⟩) :
    l.breakBefore ⟨path ++ [i], p⟩ = if i = 0 then [] else l.wrapAt i (levelAt path + 1) := by
  unfold breakBefore wrapAt
  rw [h, Site.wraps, Site.index_concat, levelAt_concat]
  cases i with
  | zero => rfl
  | succ i => simp

/-- A line, polygon or ring has a break in front of it if it is a later one and not empty. -/
theorem breakBefore_part {path : List Nat} {i : Nat} {p : Part} {empty : Bool}
    (h : Site.startsLine l.perLine.toNat ⟨path ++ [i], p⟩ = (i != 0 && !empty)) :
    l.breakBefore ⟨path ++ [i], p⟩ =
      if (i != 0 && !empty) = true then l.breakAt (levelAt path + min i 1) else [] := by
  unfold breakBefore
  rw [h, levelAt_concat]

end Layout

/-! ### The writer -/

namespace Style

variable (s : Style)

/-- The pieces of a part at the end of an index path, with their breaks. -/
def sitePieces (path : List Nat) (p : Part) : List Piece :=
  (p.marks s.slots s.flatToken path).flatMap (Mark.pieces s.layout)

/-- The pieces of the parts of a part, in parentheses. -/
def siteBody (path : List Nat) (p : Part) : List Piece :=
  group (p.parts.mapIdx fun i q => s.sitePieces (path ++ [i]) q)

theorem parts_eq_group {α : Type} (level : Nat) (part : Nat → Bool → α → List Piece) (as : List α) :
    parts level part as = group (as.mapIdx fun i a => part (level + min i 1) (i != 0) a) := by
  cases as with
  | nil => rfl
  | cons a as =>
    have hlater : (as.mapIdx fun i a => part (level + min (i + 1) 1) (i + 1 != 0) a) =
        as.map (part (level + 1) true) := by
      rw [← mapIdx_const]
      simp
    rw [List.mapIdx_cons, hlater]
    simp [parts, group, List.flatMap_map]

theorem laterElements_eq {α : Type} (level : Nat) (element : α → List Piece) :
    ∀ (as : List α) (i : Nat), s.laterElements level element as i =
      (as.mapIdx fun j a => s.layout.wrapAt (i + j) (level + 1) ++ element a).flatMap
        (.separator :: ·)
  | [], _ => rfl
  | a :: as, i => by
    rw [laterElements, laterElements_eq level element as (i + 1), List.mapIdx_cons,
      List.flatMap_cons]
    simp only [Nat.add_right_comm i 1, Nat.add_assoc, Nat.add_zero, List.cons_append]

theorem elements_eq_group {α : Type} (level : Nat) (element : α → List Piece) (as : List α) :
    s.elements level element as = group (as.mapIdx fun i a =>
      (if i = 0 then [] else s.layout.wrapAt i (level + 1)) ++ element a) := by
  cases as with
  | nil => rfl
  | cons a as =>
    rw [List.mapIdx_cons]
    simp [elements, group, s.laterElements_eq level element as 1, Nat.add_comm 1]

/-! ### Each sort of part -/

theorem sitePieces_coordinate (path : List Nat) (i : Nat) (c : Coordinate) :
    s.sitePieces (path ++ [i]) (.coordinate c) =
      (if i = 0 then [] else s.layout.wrapAt i (levelAt path + 1)) ++
        [.coordinate (s.slots c)] := by
  rw [sitePieces, Part.marks_eq, Part.enclose_coordinate, List.flatMap_singleton, Mark.pieces,
    Option.elim_some, s.layout.breakBefore_element rfl]

/-- The pieces of a component that is not a geometry. -/
theorem sitePieces_component {path : List Nat} {c : Component} (hc : ∀ g, c ≠ .geometry g) :
    s.sitePieces path (.component c) =
      s.layout.breakBefore ⟨path, .component c⟩ ++ s.siteBody path (.component c) := by
  rw [sitePieces, Part.marks_eq, Part.enclose_component hc, Mark.flatMap_pieces_group, map_mapIdx]
  rfl

theorem sitePieces_geometry (path : List Nat) (g : Geometry) :
    s.sitePieces path (.component (.geometry g)) =
      s.heading (levelAt path) g.kind ++ s.siteBody path (.component (.geometry g)) := by
  have htoken : (s.flatToken.map fun p => (⟨none, p⟩ : Mark)).flatMap (Mark.pieces s.layout) =
      s.flatToken := by
    simp [List.flatMap_map, Mark.pieces]
  rw [sitePieces, Part.marks_eq, Part.enclose_geometry, List.cons_append, List.flatMap_cons,
    List.flatMap_append, htoken, Mark.flatMap_pieces_group, map_mapIdx, Mark.pieces,
    Option.elim_some, s.layout.breakBefore_geometry]
  simp [heading, flatToken, siteBody, sitePieces]

theorem siteBody_coordinates {c : Component} {cs : List Coordinate} (h : c.coordinates? = some cs)
    (path : List Nat) : s.siteBody path (.component c) =
      s.elements (levelAt path) (fun c => [.coordinate (s.slots c)]) cs := by
  rw [siteBody, Part.parts_of_coordinates h, mapIdx_map, elements_eq_group]
  simp only [sitePieces_coordinate]

theorem siteBody_parts {α : Type} {c : Component} {as : List α} {image : α → Component}
    {part : Nat → Bool → α → List Piece} {path : List Nat}
    (hparts : (Part.component c).parts = as.map fun a => .component (image a))
    (h : ∀ a ∈ as, ∀ i, part (levelAt path + min i 1) (i != 0) a =
      s.sitePieces (path ++ [i]) (.component (image a))) :
    s.siteBody path (.component c) = parts (levelAt path) part as := by
  rw [siteBody, hparts, mapIdx_map, parts_eq_group]
  congr 1
  refine List.ext_getElem? fun i => ?_
  rw [List.getElem?_mapIdx, List.getElem?_mapIdx]
  exact Option.map_congr fun a ha => (h a (List.mem_of_getElem? ha) i).symm

/-- A line or a ring. -/
theorem sitePieces_sequence {c : Component} {cs : List Coordinate} (h : c.coordinates? = some cs)
    (hc : ∀ g, c ≠ .geometry g) {path : List Nat} {i : Nat}
    (hstart : Site.startsLine s.layout.perLine.toNat ⟨path ++ [i], .component c⟩ =
      (i != 0 && !cs.isEmpty)) :
    s.sequence (levelAt path + min i 1) (i != 0) cs =
      s.sitePieces (path ++ [i]) (.component c) := by
  rw [s.sitePieces_component hc, s.siteBody_coordinates h, s.layout.breakBefore_part hstart,
    levelAt_concat, sequence]

theorem sitePieces_point (path : List Nat) (i : Nat) (c : Option Coordinate) :
    (if i = 0 then [] else s.layout.wrapAt i (levelAt path + 1)) ++
        s.sequence (levelAt path) false c.toList =
      s.sitePieces (path ++ [i]) (.component (.point c)) := by
  rw [s.sitePieces_component (by simp), s.siteBody_coordinates rfl,
    s.layout.breakBefore_element rfl]
  -- one coordinate is never wrapped, so the level does not matter
  cases c <;> rfl

/-- A polygon has its rings as parts unless it is empty. -/
theorem siteBody_rings {c : Component} {p : Polygon} (hcs : c.coordinates? = none)
    (hempty : c.isEmpty = p.isEmpty) (hrings : c.parts = p.rings.map .ring) (path : List Nat) :
    s.siteBody path (.component c) =
      if p.isEmpty then [.empty] else parts (levelAt path) s.sequence p.rings := by
  have hparts := Part.parts_of_none hcs
  rw [hempty] at hparts
  by_cases hp : p.isEmpty = true
  · rw [if_pos hp] at hparts ⊢
    rw [siteBody, hparts]
    rfl
  · rw [if_neg hp, hrings, List.map_map] at hparts
    rw [if_neg hp]
    exact s.siteBody_parts hparts fun cs _ i => s.sitePieces_sequence rfl (by simp) (by
      simp [Site.startsLine, Component.isEmpty])

theorem sitePieces_polygon (path : List Nat) (i : Nat) (p : Polygon) :
    s.polygon (levelAt path + min i 1) (i != 0) p =
      s.sitePieces (path ++ [i]) (.component (.polygon p)) := by
  have hstart : Site.startsLine s.layout.perLine.toNat ⟨path ++ [i], .component (.polygon p)⟩ =
      (i != 0 && !p.isEmpty) := by
    simp [Site.startsLine, Component.isEmpty]
  rw [s.sitePieces_component (by simp), s.layout.breakBefore_part hstart,
    s.siteBody_rings rfl rfl (Component.parts_polygon p), levelAt_concat, polygon]
  by_cases hp : p.isEmpty = true
  · simp [hp]
  · simp [hp]

/-- **The level that the writer hands down is that of the path.** -/
theorem siteBody_geometry (g : Geometry) (path : List Nat) :
    s.siteBody path (.component (.geometry g)) = s.body (levelAt path) g := by
  -- for every path, since the members of a collection stand behind one index more
  induction g generalizing path with
  | point c => exact s.siteBody_coordinates rfl path
  | lineString cs => exact s.siteBody_coordinates rfl path
  | linearRing cs => exact s.siteBody_coordinates rfl path
  | polygon p => exact s.siteBody_rings rfl rfl (Component.parts_geometry_polygon p) path
  | multiPoint ps =>
    have hparts := Part.parts_of_members rfl rfl (Component.parts_multiPoint ps)
    rw [siteBody, hparts, mapIdx_map, body, elements_eq_group]
    simp only [s.sitePieces_point]
  | multiLineString ls =>
    have hparts := Part.parts_of_members rfl rfl (Component.parts_multiLineString ls)
    exact s.siteBody_parts hparts fun cs _ i => s.sitePieces_sequence rfl (by simp) (by
      simp [Site.startsLine, Component.isEmpty])
  | multiPolygon ps =>
    have hparts := Part.parts_of_members rfl rfl (Component.parts_multiPolygon ps)
    exact s.siteBody_parts hparts fun p _ i => s.sitePieces_polygon path i p
  | collection gs ih =>
    have hparts := Part.parts_of_members rfl rfl (Component.parts_collection gs)
    have hmembers : s.siteBody path (.component (.geometry (.collection gs))) =
        parts (levelAt path) (fun level _ g => s.geometry level g) gs :=
      s.siteBody_parts hparts fun g hg i => by
        rw [geometry_eq, s.sitePieces_geometry, ih g hg, levelAt_concat]
    exact hmembers

/-- **A geometry is its marked pieces with a break in front of each site that begins a line**, under
every layout. -/
theorem geometry_eq_marks (g : Geometry) (path : List Nat) : s.geometry (levelAt path) g =
    ((Part.component (.geometry g)).marks s.slots s.flatToken path).flatMap
      (Mark.pieces s.layout) := by
  have h := s.sitePieces_geometry path g
  rw [s.siteBody_geometry, ← geometry_eq] at h
  exact h.symm

end Style

/-! ### The text of a geometry -/

namespace Part

theorem head_startsLine {slots : Coordinate → List Slot}
    (hslots : ∀ c, (Piece.coordinate (slots c)).StartsLine) (p : Part) :
    (p.head slots).StartsLine := by
  cases p using casesGeometry with
  | coordinate c => exact hslots c
  | geometry g => exact .tag g.kind
  | component c hc =>
    rw [head_component hc]
    split
    · exact .empty
    · exact .opening

end Part

namespace Mark.Fits

variable {slots : Coordinate → List Slot} {token : List Piece} {m : Mark}

theorem piece_eq_head (h : m.Fits slots token) {site : Site} (hsite : m.site = some site) :
    m.piece = site.part.head slots := by
  rcases h with ⟨t, rfl⟩ | ⟨hnone, _⟩
  · cases hsite
    rfl
  · rw [hnone] at hsite
    cases hsite

/-- Line breaks are not marked, they are what a layout adds. -/
theorem ne_lineBreak (h : m.Fits slots token)
    (hslots : ∀ c, (Piece.coordinate (slots c)).StartsLine)
    (htoken : ∀ n, Piece.lineBreak n ∉ token) : ∀ n, m.piece ≠ .lineBreak n := by
  intro n hn
  rcases h with ⟨site, rfl⟩ | ⟨_, hpiece⟩
  · exact (Part.head_startsLine hslots site.part).ne_lineBreak n hn
  · rw [hn, List.mem_append] at hpiece
    rcases hpiece with hpiece | hpiece
    · exact htoken n hpiece
    · simp at hpiece

end Mark.Fits

namespace Config

variable (c : Config)

/-- The marks of the text of a geometry. They do not depend on the layout. -/
def marks (g : Geometry) : List Mark :=
  (Part.component (.geometry g)).marks (c.style g).slots (c.style g).flatToken []

/-- A newline and the blanks of its level, in front of a site that begins a line. -/
def lineStart (site : Site) : List Char :=
  if site.startsLine c.perLine.toNat then
    '\n' :: List.replicate (levelAt site.path * c.indentWidth.toNat) ' '
  else []

theorem text_eq_marks (g : Geometry) : c.text g = (c.marks g).flatMap fun m =>
    c.spelling.pieces (m.site.elim [] c.layout.breakBefore) ++ c.spelling.piece m.piece := by
  have h : c.pieces g = (c.marks g).flatMap (Mark.pieces c.layout) :=
    (c.style g).geometry_eq_marks g []
  rw [text, h, Spelling.pieces, List.flatMap_assoc]
  refine List.flatMap_congr fun m _ => ?_
  rw [Mark.pieces, List.flatMap_append, List.flatMap_singleton]
  rfl

/-- The blanks of a line are few enough to be counted. -/
theorem levelAt_mul_lt {g : Geometry}
    (hwidth : c.indentWidth.toNat * (g.depth + 3) < Layout.blanksModulus) {path : List Nat}
    {p : Part} (h : (Part.component (.geometry g)).at? path = some p) :
    levelAt path * c.indentWidth.toNat < Layout.blanksModulus := by
  have hlevel : levelAt path ≤ g.depth + 3 :=
    Nat.le_trans List.countP_le_length (Part.length_le_of_at? h)
  calc levelAt path * c.indentWidth.toNat
      ≤ (g.depth + 3) * c.indentWidth.toNat := Nat.mul_le_mul_right _ hlevel
    _ = c.indentWidth.toNat * (g.depth + 3) := Nat.mul_comm _ _
    _ < Layout.blanksModulus := hwidth

theorem pieces_breakBefore (hpretty : c.pretty = true) {site : Site}
    (hlt : levelAt site.path * c.indentWidth.toNat < Layout.blanksModulus) :
    c.spelling.pieces (c.layout.breakBefore site) = c.lineStart site := by
  have hperLine : c.layout.perLine = c.perLine := rfl
  unfold Layout.breakBefore lineStart
  rw [hperLine]
  by_cases hstart : site.startsLine c.perLine.toNat = true
  · have hlevel := Site.levelAt_ne_zero hstart
    have hbreak : c.layout.breakAt (levelAt site.path) =
        [.lineBreak (levelAt site.path * c.indentWidth.toNat)] := by
      rw [← Nat.mod_eq_of_lt hlt]
      simp [Layout.breakAt, hlevel, layout, hpretty]
    rw [if_pos hstart, if_pos hstart, hbreak]
    exact List.flatMap_singleton ..
  · rw [if_neg hstart, if_neg hstart]
    rfl

/-- The sites are those of the parts that index paths lead to. -/
theorem mem_marks_iff (g : Geometry) (path : List Nat) (p : Part) :
    ⟨path, p⟩ ∈ (c.marks g).filterMap Mark.site ↔
      (Part.component (.geometry g)).at? path = some p := by
  rw [marks, Part.mem_sites_iff]
  simp

theorem text_of_pretty (hpretty : c.pretty = true) {g : Geometry}
    (hwidth : c.indentWidth.toNat * (g.depth + 3) < Layout.blanksModulus) :
    c.text g = (c.marks g).flatMap fun m =>
      m.site.elim [] c.lineStart ++ c.spelling.piece m.piece := by
  rw [text_eq_marks]
  refine List.flatMap_congr fun m hm => ?_
  cases hsite : m.site with
  | none => rfl
  | some site =>
    have hmem := List.mem_filterMap.mpr ⟨m, hm, hsite⟩
    have hpart := (c.mem_marks_iff g site.path site.part).mp hmem
    rw [Option.elim_some, Option.elim_some,
      c.pieces_breakBefore hpretty (c.levelAt_mul_lt hwidth hpart)]

theorem text_of_not_pretty (hpretty : c.pretty = false) (g : Geometry) :
    c.text g = (c.marks g).flatMap fun m => c.spelling.piece m.piece := by
  rw [text_eq_marks]
  refine List.flatMap_congr fun m _ => ?_
  cases m.site with
  | none => rfl
  | some site =>
    rw [Option.elim_some, Layout.breakBefore, Layout.breakAt_of_not_pretty hpretty, ite_self]
    rfl

/-- A marked piece has no newline, and what a line break may stand in front of does not begin with a
blank. -/
theorem piece_of_mem_marks (hmarker : '\n' ∉ c.dialect.missingMarker.toList) {g : Geometry}
    {m : Mark} (hm : m ∈ c.marks g) : '\n' ∉ c.spelling.piece m.piece ∧
      ∀ site, m.site = some site → m.piece = site.part.head (c.style g).slots ∧
        ∃ first rest, c.spelling.piece m.piece = first :: rest ∧ first ≠ ' ' := by
  have hslots : ∀ a, (Piece.coordinate ((c.style g).slots a)).StartsLine :=
    fun a => .coordinate _ _
  have htoken : ∀ n, Piece.lineBreak n ∉ (c.style g).flatToken := by
    intro n
    unfold Style.flatToken
    split <;> simp
  have hfits := Part.fits_of_mem_marks _ [] m hm
  constructor
  · exact c.spelling.newline_not_mem_piece hmarker (hfits.ne_lineBreak hslots htoken)
  · intro site hsite
    have hhead := hfits.piece_eq_head hsite
    have hstart := Part.head_startsLine hslots site.part
    rw [← hhead] at hstart
    exact ⟨hhead, c.spelling.head_of_startsLine hstart⟩

/-- **Indentation follows index paths.** The text on one line is that of the marked pieces, and the
pretty text has besides only, in front of each site that begins a line, a newline and the blanks of
its level: no marked piece has a newline, and the first piece of a part does not begin with a blank.
There is one site for each index path that leads to a part, and the sites come in document order. -/
theorem write_eq_marks (hpretty : c.pretty = true)
    (hmarker : '\n' ∉ c.dialect.missingMarker.toList) (g : Geometry)
    (hwidth : c.indentWidth.toNat * (g.depth + 3) < 2 ^ 64) :
    (c.write g).toList =
      ((c.marks g).flatMap fun m => m.site.elim [] c.lineStart ++ c.spelling.piece m.piece) ∧
    (Config.write { c with pretty := false } g).toList =
      ((c.marks g).flatMap fun m => c.spelling.piece m.piece) ∧
    (∀ m ∈ c.marks g, '\n' ∉ c.spelling.piece m.piece ∧
      ∀ site, m.site = some site → m.piece = site.part.head (c.style g).slots ∧
        ∃ first rest, c.spelling.piece m.piece = first :: rest ∧ first ≠ ' ') ∧
    (∀ path part, ⟨path, part⟩ ∈ (c.marks g).filterMap Mark.site ↔
      (Part.component (.geometry g)).at? path = some part) ∧
    ((c.marks g).filterMap Mark.site).Pairwise fun s t => s.path < t.path := by
  have hplain := Config.text_of_not_pretty { c with pretty := false } rfl g
  rw [write, write, String.toList_ofList, String.toList_ofList]
  exact ⟨c.text_of_pretty hpretty hwidth, hplain, fun m hm => c.piece_of_mem_marks hmarker hm,
    c.mem_marks_iff g, Part.pairwise_sites _ []⟩

/-- In a collection within a collection, a hole of a later polygon stands at level three: its index
path is `1, 0, 1, 1`. -/
theorem write_eq_marks_nested :
    let c : Config := { Config.default with pretty := true, perLine := 1 }
    let zero : Coordinate := .xy ⟨0⟩ ⟨0⟩
    let polygon : Polygon := ⟨[zero, zero], [[zero]]⟩
    let g : Geometry :=
      .collection [.point none, .collection [.multiPolygon [.empty, polygon]]]
    let hole : Site := ⟨[1, 0, 1, 1], .component (.ring [zero])⟩
    c.pretty = true ∧ '\n' ∉ c.dialect.missingMarker.toList ∧
    c.indentWidth.toNat * (g.depth + 3) < 2 ^ 64 ∧
    (c.write g).toList = ("GEOMETRYCOLLECTION (POINT EMPTY, \n  GEOMETRYCOLLECTION (\n  " ++
      "MULTIPOLYGON (EMPTY, \n    ((0 0, \n      0 0), \n      (0 0)))))").toList ∧
    hole ∈ (c.marks g).filterMap Mark.site ∧
    c.lineStart hole = "\n      ".toList := by
  intro c zero polygon g hole
  have hmarker : '\n' ∉ c.dialect.missingMarker.toList := by decide
  have hwidth : c.indentWidth.toNat * (g.depth + 3) < 2 ^ 64 := by decide
  have hwitness := c.write_eq_marks rfl hmarker g hwidth
  have hpart : (Part.component (.geometry g)).at? [1, 0, 1, 1] =
      some (.component (.ring [zero])) := rfl
  refine ⟨rfl, hmarker, hwidth, ?_, (hwitness.2.2.2.1 _ _).mpr hpart, rfl⟩
  rw [write, String.toList_ofList]
  decide +kernel

end Config

end LatLonText
