/-
# What all dimensions and dialects share

The words of a text run between commas and parentheses. A run is a heading, with
a tag and perhaps a token, or a coordinate, with Y, X and what else is written.
Without the token, and without what stands behind X, the run is as with two
dimensions; and doing this to every run of a text (`planar`) gives the text with
two dimensions, whatever the dialect (`Config.planar_write_eq`).

A run goes on over several parts of a text: that of a heading ends only in the
body. So what is shown of each part is how it is read behind the beginning of a
run, up to where a part may end (`Planes`).

Key definitions: `mapRuns`, `planarRun`, `planar`, `Planes`, `TwoDimensional`.
Key theorems: `Planes.group`, `TwoDimensional.body`, `Config.planar_write_eq`.
-/
import LatLonText.Proofs.Delimited
import LatLonText.Proofs.Presence

namespace LatLonText

/-! ### Runs of words -/

/-- The characters between which words run. -/
def delimiters : List Char := [',', '(', ')']

/-- A text that stays within a run. -/
def InRun (cs : List Char) : Prop := ∀ c ∈ cs, c ∉ delimiters

instance (cs : List Char) : Decidable (InRun cs) :=
  List.decidableBAll (· ∉ delimiters) cs

/-- A text with each run replaced, where the first run has begun before it. -/
def mapRunsFrom (f : List Char → List Char) (begun : List Char) : List Char → List Char
  | [] => f begun
  | c :: cs =>
    if c ∈ delimiters then f begun ++ c :: mapRunsFrom f [] cs else mapRunsFrom f (begun ++ [c]) cs

/-- A text with each run replaced. -/
def mapRuns (f : List Char → List Char) (cs : List Char) : List Char := mapRunsFrom f [] cs

section MapRuns

variable (f : List Char → List Char)

theorem mapRunsFrom_append : ∀ {u : List Char}, InRun u → ∀ begun rest,
    mapRunsFrom f begun (u ++ rest) = mapRunsFrom f (begun ++ u) rest
  | [], _, begun, rest => by rw [List.nil_append, List.append_nil]
  | c :: u, h, begun, rest => by
    obtain ⟨hc, hu⟩ := List.forall_mem_cons.mp h
    rw [List.cons_append, mapRunsFrom, if_neg hc, mapRunsFrom_append hu, List.append_assoc,
      List.singleton_append]

theorem mapRunsFrom_delimiter {c : Char} (hc : c ∈ delimiters) (begun rest : List Char) :
    mapRunsFrom f begun (c :: rest) = f begun ++ c :: mapRunsFrom f [] rest := by
  rw [mapRunsFrom, if_pos hc]

/-- A run ends where a part may end. -/
theorem mapRunsFrom_of_ends (hnil : f [] = []) (begun : List Char) {rest : List Char}
    (h : Ends rest) : mapRunsFrom f begun rest = f begun ++ mapRunsFrom f [] rest := by
  cases rest with
  | nil => rw [mapRunsFrom, mapRunsFrom, hnil, List.append_nil]
  | cons c cs =>
    have hc : c ∈ delimiters := by
      rcases h c rfl with rfl | rfl <;> decide
    rw [mapRunsFrom_delimiter f hc, mapRunsFrom_delimiter f hc, hnil, List.nil_append]

end MapRuns

/-! ### Runs with two dimensions -/

/-- The words that begin the text of a geometry. -/
def tagWords : List (List Char) :=
  [Kind.point, .lineString, .linearRing, .polygon, .multiPoint, .multiLineString, .multiPolygon,
    .collection].map fun kind => kind.tag.toList

/-- The words that name ordinates behind a tag. -/
def tokenWords : List (List Char) := ["Z".toList, "M".toList, "ZM".toList]

/-- Words without a token at their head. -/
def dropToken : List (List Char) → List (List Char)
  | [] => []
  | w :: ws => if w ∈ tokenWords then ws else w :: ws

/-- The words of a run as with two dimensions: a tag without the token behind it, or the first two
words. The word in front of a blank behind a comma is empty. -/
def planarWords : List (List Char) → List (List Char)
  | [] => []
  | w :: ws =>
    if w = [] then w :: planarWords ws
    else if w ∈ tagWords then w :: dropToken ws
    else w :: ws.take 1

/-- A run as with two dimensions. -/
def planarRun (run : List Char) : List Char :=
  [' '].intercalate (planarWords (run.splitOn ' '))

/-- A text as with two dimensions: without the token behind any tag, and without what stands behind
the second ordinate of any coordinate. -/
def planar (cs : List Char) : List Char := mapRuns planarRun cs

theorem planarWords_ne_nil {ws : List (List Char)} (h : ws ≠ []) : planarWords ws ≠ [] := by
  cases ws with
  | nil => exact h
  | cons w ws =>
    unfold planarWords
    split
    · exact List.cons_ne_nil _ _
    · split
      · exact List.cons_ne_nil _ _
      · exact List.cons_ne_nil _ _

theorem intercalate_blank_cons (w : List Char) {ws : List (List Char)} (h : ws ≠ []) :
    [' '].intercalate (w :: ws) = w ++ ' ' :: [' '].intercalate ws := by
  obtain ⟨v, vs, rfl⟩ := List.exists_cons_of_ne_nil h
  rw [List.intercalate_cons_cons, List.append_assoc, List.singleton_append]

/-- The first word ends at the first blank. -/
theorem splitOn_blank_append {w : List Char} (h : ' ' ∉ w) (rest : List Char) :
    (w ++ ' ' :: rest).splitOn ' ' = w :: rest.splitOn ' ' :=
  List.splitOnP_append_cons_of_forall_mem (beq_eq_false_of_not_mem h) ' ' rfl rest

theorem splitOn_ne_nil (cs : List Char) : cs.splitOn ' ' ≠ [] :=
  List.splitOnP_ne_nil _ _

/-- A blank in front of a run stays. -/
theorem planarRun_blank (run : List Char) : planarRun (' ' :: run) = ' ' :: planarRun run := by
  have hsplit : (' ' :: run).splitOn ' ' = [] :: run.splitOn ' ' :=
    splitOn_blank_append List.not_mem_nil run
  rw [planarRun, hsplit, planarWords, if_pos rfl,
    intercalate_blank_cons _ (planarWords_ne_nil (splitOn_ne_nil run))]
  rfl

/-- Of a heading the token goes; it ends with the blank behind its tag or token, or with the word
for an empty body. -/
theorem planarRun_heading (kind : Kind) (o : Ordinates) {tail : List Char}
    (htail : tail = [] ∨ tail = "EMPTY".toList) :
    planarRun (kind.tag.toList ++ ' ' :: (o.token.toList ++ tail)) =
      kind.tag.toList ++ ' ' :: tail := by
  have hblank : ' ' ∉ kind.tag.toList := by cases kind <;> decide
  have htag : kind.tag.toList ≠ [] ∧ kind.tag.toList ∈ tagWords := by cases kind <;> decide
  have htoken : dropToken ((o.token.toList ++ tail).splitOn ' ') = tail.splitOn ' ' := by
    unfold Ordinates.token
    rcases htail with rfl | rfl <;> cases o.z <;> cases o.m <;> decide
  rw [planarRun, splitOn_blank_append hblank, planarWords, if_neg htag.1, if_pos htag.2, htoken,
    intercalate_blank_cons _ (splitOn_ne_nil tail), List.intercalate_splitOn]

/-- Of a coordinate the first two words stay. -/
theorem planarRun_coordinate {y x more : List Char} (hne : y ≠ []) (hy : ' ' ∉ y)
    (htag : y ∉ tagWords) (hx : ' ' ∉ x) (hmore : ∀ c ∈ more.head?, c = ' ') :
    planarRun (y ++ ' ' :: (x ++ more)) = y ++ ' ' :: x := by
  have hsecond : ((x ++ more).splitOn ' ').take 1 = [x] := by
    cases more with
    | nil =>
      have hsplit : x.splitOn ' ' = [x] :=
        List.splitOnP_eq_singleton (beq_eq_false_of_not_mem hx)
      rw [List.append_nil, hsplit]
      rfl
    | cons c more =>
      rw [hmore c rfl, splitOn_blank_append hx]
      rfl
  rw [planarRun, splitOn_blank_append hy, planarWords, if_neg hne, if_neg htag, hsecond,
    intercalate_blank_cons _ (List.cons_ne_nil _ _), List.intercalate_singleton]

/-! ### The parts of a text -/

/-- What of its run may stand in front of a part: nothing, or the blank behind a comma. -/
def Blank (begun : List Char) : Prop := begun = [] ∨ begun = [' ']

theorem planarRun_append {begun : List Char} (h : Blank begun) (run : List Char) :
    planarRun (begun ++ run) = begun ++ planarRun run := by
  rcases h with rfl | rfl
  · rfl
  · exact planarRun_blank run

/-- What of its run may stand in front of a body, and what it is with two dimensions. -/
structure Front (begun begun' : List Char) : Prop where
  opening : planarRun begun = begun'
  empty : planarRun (begun ++ "EMPTY".toList) = begun' ++ "EMPTY".toList

theorem Front.of_blank {begun : List Char} (h : Blank begun) : Front begun begun := by
  rcases h with rfl | rfl <;> exact ⟨by decide, by decide⟩

theorem Front.heading {begun : List Char} (h : Blank begun) (kind : Kind) (o : Ordinates) :
    Front (begun ++ (kind.tag.toList ++ ' ' :: o.token.toList))
      (begun ++ (kind.tag.toList ++ [' '])) := by
  refine ⟨?_, ?_⟩
  · have hrun := planarRun_heading kind o (.inl rfl)
    rw [List.append_nil] at hrun
    rw [planarRun_append h, hrun]
  · have hrun := planarRun_heading kind o (.inr rfl)
    rw [List.append_assoc, planarRun_append h, List.append_assoc, List.cons_append, hrun]
    simp

/-- Behind the beginning of a run, which is `begun'` with two dimensions, the text of a part becomes
the text `t'`, whatever follows the part. -/
def Planes (begun begun' t t' : List Char) : Prop :=
  ∀ rest, Ends rest →
    mapRunsFrom planarRun begun (t ++ rest) = begun' ++ t' ++ mapRunsFrom planarRun [] rest

namespace Planes

/-- A part of a single run. -/
theorem of_run {begun begun' t t' : List Char} (ht : InRun t)
    (h : planarRun (begun ++ t) = begun' ++ t') : Planes begun begun' t t' := by
  intro rest hrest
  rw [mapRunsFrom_append planarRun ht, mapRunsFrom_of_ends planarRun rfl _ hrest, h]

section Group

variable {α : Type} {text text' : α → List Char} {as : List α}

theorem later : ∀ {as : List α}, (∀ a ∈ as, Planes [' '] [' '] (text a) (text' a)) →
    ∀ rest : List Char,
      mapRunsFrom planarRun [] ((as.map text).flatMap (',' :: ' ' :: ·) ++ ')' :: rest) =
        (as.map text').flatMap (',' :: ' ' :: ·) ++ ')' :: mapRunsFrom planarRun [] rest
  | [], _, rest => mapRunsFrom_delimiter planarRun (by decide) [] rest
  | a :: as, h, rest => by
    obtain ⟨ha, has⟩ := List.forall_mem_cons.mp h
    have hblank : ∀ cs, mapRunsFrom planarRun [] (' ' :: cs) = mapRunsFrom planarRun [' '] cs :=
      mapRunsFrom_append planarRun (u := [' ']) (by decide) []
    simp only [List.map_cons, List.flatMap_cons, List.cons_append, List.append_assoc]
    rw [mapRunsFrom_delimiter planarRun (by decide), hblank, ha _ (ends_later _ rest),
      later has rest]
    simp [planarRun, planarWords]

/-- **A group of parts becomes the group of what they become.** -/
theorem group {begun begun' : List Char} (hfront : Front begun begun')
    (h : ∀ a ∈ as, ∀ b, Blank b → Planes b b (text a) (text' a)) :
    Planes begun begun' (groupText (as.map text)) (groupText (as.map text')) := by
  intro rest hrest
  cases as with
  | nil => exact of_run (by decide) hfront.empty rest hrest
  | cons a as =>
    obtain ⟨ha, has⟩ := List.forall_mem_cons.mp h
    have hlater := later (fun b hb => has b hb [' '] (.inr rfl)) rest
    simp only [groupText, List.map_cons, List.cons_append, List.append_assoc, List.nil_append]
    rw [mapRunsFrom_delimiter planarRun (by decide), hfront.opening,
      ha [] (.inl rfl) _ (ends_later _ rest), hlater]
    simp

end Group

/-- A part behind words that belong to its first run. -/
theorem behind {begun u v t t' : List Char} (hu : InRun u)
    (h : Planes (begun ++ u) (begun ++ v) t t') : Planes begun begun (u ++ t) (v ++ t') := by
  intro rest hrest
  rw [List.append_assoc, mapRunsFrom_append planarRun hu, h rest hrest, List.append_assoc begun v,
    List.append_assoc, List.append_assoc]

/-- A group of pieces becomes the group of what they become. -/
theorem pieces_group {sp sp' : Spelling} {α : Type} {part part' : α → List Piece} {as : List α}
    {begun begun' : List Char} (hfront : Front begun begun')
    (h : ∀ a ∈ as, ∀ b, Blank b → Planes b b (sp.pieces (part a)) (sp'.pieces (part' a))) :
    Planes begun begun' (sp.pieces (Style.group (as.map part)))
      (sp'.pieces (Style.group (as.map part'))) := by
  rw [sp.pieces_group, sp'.pieces_group, List.map_map, List.map_map]
  exact group hfront h

end Planes

/-! ### Words that are ordinates -/

/-- What the text of an ordinate begins with: a letter of one of its words, a sign or a digit. -/
theorem Precision.head_text (p : Precision) (v : Ordinate) :
    ∃ c cs, p.text v = c :: cs ∧ (c ∈ ['N', 'I', 'i', '-'] ∨ c.isDigit = true) := by
  rcases p.text_cases v with h | ⟨negative, cs, h, hcs⟩
  · exact ⟨'N', "aN".toList, h, .inl (by decide)⟩
  · rw [h]
    cases negative with
    | true => exact ⟨'-', cs, rfl, .inl (by decide)⟩
    | false =>
      rcases hcs with rfl | rfl | ⟨d, rfl⟩
      · exact ⟨'I', "nfinity".toList, rfl, .inl (by decide)⟩
      · exact ⟨'i', "nf".toList, rfl, .inl (by decide)⟩
      · obtain ⟨c, cs, hd, hc⟩ := d.head_positional
        exact ⟨c, cs, hd, .inr hc⟩

/-- No ordinate is written as a tag. -/
theorem Precision.text_not_mem_tagWords (p : Precision) (v : Ordinate) : p.text v ∉ tagWords := by
  intro hmem
  obtain ⟨kind, _, hkind⟩ := List.mem_map.mp hmem
  have hne : p.text v ≠ kind.tag.toList := by
    cases kind <;> exact ne_cons_of_head (p.head_text v) (by decide) _
  exact hne hkind.symm

theorem Precision.blank_not_mem_text (p : Precision) (v : Ordinate) : ' ' ∉ p.text v := fun h =>
  p.isWord_text v ' ' h (by decide)

theorem IsWord.inRun {cs : List Char} (h : IsWord cs) : InRun cs := by
  have hsub : delimiters ⊆ separators := by decide
  exact fun c hc hmem => h c hc (hsub hmem)

/-! ### Geometries -/

/-- A spelling whose marker stays within a run, and a spelling of the same numbers in a style with
two dimensions. -/
structure TwoDimensional (sp sp' : Spelling) (t : Style) : Prop where
  marker : InRun sp.missingMarker.toList
  precision : sp'.precision = sp.precision
  ordinates : t.ordinates = .xy

namespace TwoDimensional

variable {sp sp' : Spelling} {t : Style} (h : TwoDimensional sp sp' t) {begun begun' : List Char}

include h

theorem inRun_slots (places : List Slot) : InRun (sp.slots places) := by
  intro c hc
  rcases sp.mem_slots hc with rfl | ⟨place, _, hc⟩
  · decide
  · cases place with
    | value v => exact (sp.precision.isWord_text v).inRun c hc
    | missing => exact h.marker c hc

/-- With two dimensions a coordinate is Y and X. -/
theorem slots_eq (c : Coordinate) : sp'.slots (t.slots c) =
    sp.precision.text c.y ++ ' ' :: sp.precision.text c.x := by
  have hplaces : t.slots c = [.value c.y, .value c.x] := by
    rw [Style.slots, h.ordinates]
    rfl
  rw [hplaces, sp'.slots_cons, List.flatMap_singleton, ← h.precision]
  rfl

/-- A coordinate loses what stands behind X. -/
theorem coordinate (s : Style) (hbegun : Blank begun) (c : Coordinate) :
    Planes begun begun (sp.slots (s.slots c)) (sp'.slots (t.slots c)) := by
  obtain ⟨more, hmore⟩ : ∃ more, s.slots c = .value c.y :: .value c.x :: more := ⟨_, rfl⟩
  have hslots : sp.slots (s.slots c) = sp.precision.text c.y ++
      ' ' :: (sp.precision.text c.x ++ more.flatMap fun place => ' ' :: sp.slot place) := by
    rw [hmore, sp.slots_cons]
    rfl
  have hblank : ∀ b ∈ (more.flatMap fun place => ' ' :: sp.slot place).head?, b = ' ' := by
    cases more with
    | nil => nofun
    | cons place more =>
      rintro b ⟨⟩
      rfl
  refine Planes.of_run (h.inRun_slots _) ?_
  rw [planarRun_append hbegun, hslots, h.slots_eq,
    planarRun_coordinate (sp.precision.text_ne_nil c.y) (sp.precision.blank_not_mem_text c.y)
      (sp.precision.text_not_mem_tagWords c.y) (sp.precision.blank_not_mem_text c.x) hblank]

theorem sequence (s : Style) (hfront : Front begun begun') (cs : List Coordinate) :
    Planes begun begun' (sp.pieces (s.flatSequence cs)) (sp'.pieces (t.flatSequence cs)) := by
  rw [sp.pieces_flatSequence, sp'.pieces_flatSequence]
  exact Planes.group hfront fun c _ _ hb => h.coordinate s hb c

theorem polygon (s : Style) (hfront : Front begun begun') (p : Polygon) :
    Planes begun begun' (sp.pieces (s.flatPolygon p)) (sp'.pieces (t.flatPolygon p)) := by
  rw [sp.pieces_flatPolygon, sp'.pieces_flatPolygon]
  exact Planes.group hfront fun ring _ _ hb => h.sequence s (.of_blank hb) ring

/-- A heading loses its token, and the body behind it goes on from there. -/
theorem geometry_of_body (s : Style) (hbegun : Blank begun) (g : Geometry)
    (hbody : ∀ b b', Front b b' →
      Planes b b' (sp.pieces (s.flatBody g)) (sp'.pieces (t.flatBody g))) :
    Planes begun begun (sp.pieces (s.flat g)) (sp'.pieces (t.flat g)) := by
  have hwords : ∀ (kind : Kind) (o : Ordinates),
      InRun (kind.tag.toList ++ ' ' :: o.token.toList) := by
    intro kind o
    unfold Ordinates.token
    cases kind <;> cases o.z <;> cases o.m <;> decide
  obtain ⟨o, ho⟩ : ∃ o : Ordinates, sp.pieces s.flatToken = o.token.toList := by
    rw [sp.pieces_flatToken]
    split
    · exact ⟨_, rfl⟩
    · exact ⟨.xy, rfl⟩
  have htoken : sp'.pieces t.flatToken = [] := by
    rw [sp'.pieces_flatToken, h.ordinates]
    split <;> rfl
  have hparts := Planes.behind (hwords g.kind o) (hbody _ _ (.heading hbegun g.kind o))
  rw [List.append_assoc, List.append_assoc] at hparts
  rw [sp.pieces_flat, sp'.pieces_flat, ho, htoken]
  exact hparts

/-- **A body loses the tokens and the further ordinates**, whatever run it stands behind. -/
theorem body (s : Style) (hfront : Front begun begun') (g : Geometry) :
    Planes begun begun' (sp.pieces (s.flatBody g)) (sp'.pieces (t.flatBody g)) := by
  -- for every run in front, since the members of a collection stand behind headings of their own
  induction g generalizing begun begun' with
  | point c => exact h.sequence s hfront c.toList
  | lineString cs => exact h.sequence s hfront cs
  | linearRing cs => exact h.sequence s hfront cs
  | polygon p => exact h.polygon s hfront p
  | multiPoint ps =>
    exact Planes.pieces_group hfront fun p _ _ hb => h.sequence s (.of_blank hb) p.toList
  | multiLineString ls =>
    exact Planes.pieces_group hfront fun l _ _ hb => h.sequence s (.of_blank hb) l
  | multiPolygon ps =>
    exact Planes.pieces_group hfront fun p _ _ hb => h.polygon s (.of_blank hb) p
  | collection gs ih =>
    exact Planes.pieces_group hfront fun g hg _ hb =>
      h.geometry_of_body s hb g fun _ _ hfront => ih g hg hfront

/-- A geometry on one line is, without tokens and further ordinates, the geometry with two
dimensions. -/
theorem planar_flat (s : Style) (g : Geometry) :
    planar (sp.pieces (s.flat g)) = sp'.pieces (t.flat g) := by
  have hparts := h.geometry_of_body s (.inl rfl) g fun _ _ hfront => h.body s hfront g
  have htext := hparts [] ends_nil
  rw [List.append_nil, List.nil_append] at htext
  rw [planar, mapRuns, htext]
  exact List.append_nil _

end TwoDimensional

/-! ### Texts -/

namespace Config

/-- With two dimensions, nothing is written beside X and Y. -/
theorem effectiveOrdinates_of_dimension {c : Config} (h : c.dimension = 2) (g : Geometry) :
    c.effectiveOrdinates g = .xy := by
  have hxy : c.ordinates.z = false ∧ c.ordinates.m = false := by
    revert h
    rw [dimension, Ordinates.dimension]
    cases c.ordinates.z <;> cases c.ordinates.m <;> decide
  rw [effectiveOrdinates, Geometry.presentOrdinates_eq]
  simp [Presence.presentIn, Ordinates.of, hxy]

/-- A text on one line is, without tokens and further ordinates, the text with two dimensions. -/
theorem planar_text {c e : Config} (hpretty : c.pretty = false)
    (hmarker : InRun c.dialect.missingMarker.toList) (hdimension : e.dimension = 2)
    (hprecision : e.precision = c.precision) (he : e.pretty = false) (g : Geometry) :
    planar (c.text g) = e.text g := by
  have htwo : TwoDimensional c.spelling e.spelling (e.style g) :=
    ⟨hmarker, hprecision, effectiveOrdinates_of_dimension hdimension g⟩
  rw [text_eq_of_not_pretty hpretty, text_eq_of_not_pretty he]
  exact htwo.planar_flat (c.style g) g

/-- **All dimensions and dialects write the same Y and X.** Texts on one line with numbers of one
precision are the same without the token behind each tag and without what stands behind the second
ordinate of each coordinate: they are the text with two dimensions. -/
theorem planar_write_eq (c d : Config) (hprecision : d.precision = c.precision)
    (hc : c.pretty = false) (hd : d.pretty = false)
    (hcmarker : InRun c.dialect.missingMarker.toList)
    (hdmarker : InRun d.dialect.missingMarker.toList) (g : Geometry) :
    planar (c.write g).toList = planar (d.write g).toList ∧
    ∀ e : Config, e.dimension = 2 → e.precision = c.precision → e.pretty = false →
      (e.write g).toList = planar (c.write g).toList := by
  simp only [write, String.toList_ofList]
  refine ⟨?_, fun e hdimension heprecision he =>
    (planar_text hc hcmarker hdimension heprecision he g).symm⟩
  let e : Config := { c with ordinates := .xy }
  have htwo : e.dimension = 2 := by
    show Ordinates.xy.dimension = 2
    decide
  have hcplanar := planar_text (e := e) hc hcmarker htwo rfl hc g
  have hdplanar := planar_text (e := e) hd hdmarker htwo hprecision.symm hc g
  rw [hcplanar, hdplanar]

/-- A geometry with one Z and one M, for SQL Server, with three dimensions, and with two. -/
theorem planar_write_nested :
    let c : Config := .sqlServer
    let d : Config := { Config.default with ordinates := .xyz }
    let zero : Ordinate := ⟨0⟩
    let minus : Ordinate := ⟨0x8000000000000000⟩
    let g : Geometry := .collection
      [.polygon ⟨[.xyz zero minus zero, .xy minus zero], [[]]⟩, .point (some (.xym zero minus zero))]
    c.write g =
      "GEOMETRYCOLLECTION (POLYGON ((-0 0 0 NaN, 0 -0 NULL NaN), EMPTY), POINT (-0 0 NULL 0))" ∧
    d.write g =
      "GEOMETRYCOLLECTION Z (POLYGON Z ((-0 0 0, 0 -0 NaN), EMPTY), POINT Z (-0 0 NaN))" ∧
    Config.default.write g =
      "GEOMETRYCOLLECTION (POLYGON ((-0 0, 0 -0), EMPTY), POINT (-0 0))" ∧
    planar (c.write g).toList = planar (d.write g).toList ∧
    (Config.default.write g).toList = planar (c.write g).toList := by
  intro c d zero minus g
  obtain ⟨hsame, htwo⟩ := planar_write_eq c d rfl rfl rfl (by decide) (by decide) g
  refine ⟨?_, ?_, ?_, hsame, htwo Config.default rfl rfl rfl⟩
  · exact congrArg String.ofList (by decide +kernel)
  · exact congrArg String.ofList (by decide +kernel)
  · exact congrArg String.ofList (by decide +kernel)

end Config

end LatLonText
