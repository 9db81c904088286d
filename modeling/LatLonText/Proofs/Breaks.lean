/-
# Layout only breaks lines

Pretty text is the text on one line with line breaks added. The invariant that
every part of a geometry keeps is `Broken`: the pieces are those of the part on
one line (`LatLonText.Proofs.Pieces`) with a line break here and there, none of
them in front of a comma, a closing parenthesis or a token, so that the blanks
behind a newline are the indentation and nothing else. Taking out each newline
with the blanks behind it (`unbreak`) therefore takes out what the layout has
added, and texts that differ in layout only become the same.

Key definitions: `Piece.StartsLine`, `Broken`, `unbreak`.
Key theorems: `Style.geometry_broken`, `Broken.unbreak_pieces`,
`Config.unbreak_text`, `Config.unbreak_write_eq`.
-/
import LatLonText.Proofs.OrdinateText
import LatLonText.Proofs.Pieces

namespace LatLonText

/-! ### Where lines are broken -/

/-- The pieces that a line break may stand in front of. None of them begins with a blank. -/
inductive Piece.StartsLine : Piece → Prop
  | tag (kind : Kind) : StartsLine (.tag kind)
  | empty : StartsLine .empty
  | opening : StartsLine .opening
  | coordinate (v : Ordinate) (slots : List Slot) : StartsLine (.coordinate (.value v :: slots))

/-- `Broken pretty ps qs`: the pieces `ps` are the pieces `qs`, which have no line breaks, with
line breaks added; only pretty text has any. -/
inductive Broken (pretty : Bool) : List Piece → List Piece → Prop
  | nil : Broken pretty [] []
  | keep {p : Piece} {ps qs : List Piece} (hp : ∀ n, p ≠ .lineBreak n) (h : Broken pretty ps qs) :
      Broken pretty (p :: ps) (p :: qs)
  | add {p : Piece} {ps qs : List Piece} (n : Nat) (hpretty : pretty = true) (hp : p.StartsLine)
      (h : Broken pretty ps qs) : Broken pretty (.lineBreak n :: p :: ps) (p :: qs)

/-- The same piece starts a line in both lists, so that a line break may be added. -/
def Headed (pretty : Bool) (ps qs : List Piece) : Prop :=
  ∃ p ps' qs', p.StartsLine ∧ ps = p :: ps' ∧ qs = p :: qs' ∧ Broken pretty ps' qs'

theorem Piece.StartsLine.ne_lineBreak {p : Piece} (h : p.StartsLine) : ∀ n, p ≠ .lineBreak n := by
  intro n hn
  cases h <;> cases hn

namespace Broken

variable {pretty : Bool} {ps ps' qs qs' : List Piece}

theorem single {p : Piece} (hp : ∀ n, p ≠ .lineBreak n) : Broken pretty [p] [p] :=
  keep hp nil

theorem append (h : Broken pretty ps qs) (h' : Broken pretty ps' qs') :
    Broken pretty (ps ++ ps') (qs ++ qs') := by
  induction h with
  | nil => exact h'
  | keep hp _ ih => exact keep hp ih
  | add n hpretty hp _ ih => exact add n hpretty hp ih

theorem ne_lineBreak_of_mem (h : Broken pretty ps qs) {p : Piece} (hmem : p ∈ qs) :
    ∀ n, p ≠ .lineBreak n := by
  induction h with
  | nil => nomatch hmem
  | keep hp _ ih =>
    rcases List.mem_cons.mp hmem with rfl | hmem
    · exact hp
    · exact ih hmem
  | add _ _ hp _ ih =>
    rcases List.mem_cons.mp hmem with rfl | hmem
    · exact hp.ne_lineBreak
    · exact ih hmem

/-- Text that is not pretty has no line breaks. -/
theorem eq_of_not_pretty (h : Broken false ps qs) : ps = qs := by
  induction h with
  | nil => rfl
  | keep _ _ ih => rw [ih]
  | add n hpretty => cases hpretty

end Broken

namespace Headed

variable {ps qs : List Piece}

theorem of_startsLine {pretty : Bool} {p : Piece} (hp : p.StartsLine)
    (h : Broken pretty ps qs) : Headed pretty (p :: ps) (p :: qs) :=
  ⟨p, ps, qs, hp, rfl, rfl, h⟩

theorem broken {pretty : Bool} (h : Headed pretty ps qs) : Broken pretty ps qs := by
  obtain ⟨p, ps', qs', hp, rfl, rfl, h'⟩ := h
  exact .keep hp.ne_lineBreak h'

theorem breakAt (l : Layout) (level : Nat) (h : Headed l.pretty ps qs) :
    Broken l.pretty (l.breakAt level ++ ps) qs := by
  unfold Layout.breakAt
  by_cases hbreak : (l.pretty && level != 0) = true
  · rw [if_pos hbreak]
    obtain ⟨p, ps', qs', hp, rfl, rfl, h'⟩ := h
    exact .add _ (Bool.and_eq_true_iff.mp hbreak).1 hp h'
  · rw [if_neg hbreak]
    exact h.broken

theorem wrapAt (l : Layout) (i level : Nat) (h : Headed l.pretty ps qs) :
    Broken l.pretty (l.wrapAt i level ++ ps) qs := by
  unfold Layout.wrapAt
  by_cases hfull : (l.perLine.toNat != 0 && i % l.perLine.toNat == 0) = true
  · rw [if_pos hfull]
    exact h.breakAt l level
  · rw [if_neg hfull]
    exact h.broken

end Headed

namespace Style

variable (s : Style)

/-- Commas with parts behind them, where each part is broken. -/
theorem flatMap_broken {α : Type} {pretty : Bool} {part flatPart : α → List Piece} :
    ∀ {as : List α}, (∀ a ∈ as, Broken pretty (part a) (flatPart a)) →
      Broken pretty (as.flatMap fun a => .separator :: part a)
        ((as.map flatPart).flatMap (.separator :: ·))
  | [], _ => .nil
  | a :: as, h => by
    obtain ⟨ha, has⟩ := List.forall_mem_cons.mp h
    rw [List.flatMap_cons, List.map_cons, List.flatMap_cons]
    exact (Broken.keep (by nofun) ha).append (flatMap_broken has)

theorem laterElements_broken {α : Type} (level : Nat) {element flatElement : α → List Piece}
    (h : ∀ a, Headed s.layout.pretty (element a) (flatElement a)) : ∀ (as : List α) (i : Nat),
    Broken s.layout.pretty (s.laterElements level element as i)
      ((as.map flatElement).flatMap (.separator :: ·))
  | [], _ => .nil
  | a :: as, i => by
    rw [laterElements, List.map_cons, List.flatMap_cons]
    have ha := (h a).wrapAt s.layout i (level + 1)
    exact (Broken.keep (by nofun) ha).append (laterElements_broken level h as (i + 1))

theorem elements_headed {α : Type} (level : Nat) {element flatElement : α → List Piece}
    (h : ∀ a, Headed s.layout.pretty (element a) (flatElement a)) (as : List α) :
    Headed s.layout.pretty (s.elements level element as) (group (as.map flatElement)) := by
  cases as with
  | nil => exact .of_startsLine .empty .nil
  | cons a as =>
    have hlater := s.laterElements_broken level h as 1
    exact .of_startsLine .opening (((h a).broken.append hlater).append (.single nofun))

theorem parts_headed {α : Type} {pretty : Bool} (level : Nat) {part : Nat → Bool → α → List Piece}
    {flatPart : α → List Piece} {as : List α}
    (h : ∀ a ∈ as, ∀ n own, Broken pretty (part n own a) (flatPart a)) :
    Headed pretty (parts level part as) (group (as.map flatPart)) := by
  cases as with
  | nil => exact .of_startsLine .empty .nil
  | cons a as =>
    obtain ⟨ha, has⟩ := List.forall_mem_cons.mp h
    have hlater := flatMap_broken fun b hb => has b hb (level + 1) true
    exact .of_startsLine .opening (((ha level false).append hlater).append (.single nofun))

/-! ### The parts of a geometry -/

/-- A sequence that is not on a line of its own. -/
theorem sequence_headed (level : Nat) (cs : List Coordinate) :
    Headed s.layout.pretty (s.sequence level false cs) (s.flatSequence cs) :=
  s.elements_headed level (fun _ => .of_startsLine (.coordinate _ _) .nil) cs

theorem sequence_broken (level : Nat) (own : Bool) (cs : List Coordinate) :
    Broken s.layout.pretty (s.sequence level own cs) (s.flatSequence cs) := by
  have h := s.sequence_headed level cs
  unfold sequence
  by_cases hown : (own && !cs.isEmpty) = true
  · rw [if_pos hown]
    exact h.breakAt s.layout level
  · rw [if_neg hown]
    exact h.broken

theorem polygon_broken (level : Nat) (own : Bool) (p : Polygon) :
    Broken s.layout.pretty (s.polygon level own p) (s.flatPolygon p) := by
  have h : Headed s.layout.pretty (parts level s.sequence p.rings)
      (group (p.rings.map s.flatSequence)) :=
    parts_headed level fun cs _ n own => s.sequence_broken n own cs
  unfold polygon flatPolygon
  by_cases hempty : p.isEmpty = true
  · rw [if_pos hempty, if_pos hempty]
    exact .single nofun
  · rw [if_neg hempty, if_neg hempty]
    cases own with
    | true => exact h.breakAt s.layout level
    | false => exact h.broken

theorem heading_broken (level : Nat) (kind : Kind) :
    Broken s.layout.pretty (s.heading level kind) (.tag kind :: s.flatToken) := by
  have htoken : Broken s.layout.pretty s.flatToken s.flatToken := by
    unfold flatToken
    by_cases htoken : s.writesToken = true
    · rw [if_pos htoken]
      exact .single nofun
    · rw [if_neg htoken]
      exact .nil
  exact (Headed.of_startsLine (.tag kind) htoken).breakAt s.layout level

/-- **A geometry at any level is broken into lines, and no more.** -/
theorem geometry_broken (level : Nat) (g : Geometry) :
    Broken s.layout.pretty (s.geometry level g) (s.flat g) := by
  rw [geometry_eq, flat_eq]
  refine (s.heading_broken level g.kind).append ?_
  -- for every level, since members stand deeper than their collection
  induction g generalizing level with
  | point c => exact s.sequence_broken level false c.toList
  | lineString cs => exact s.sequence_broken level false cs
  | linearRing cs => exact s.sequence_broken level false cs
  | polygon p => exact s.polygon_broken level false p
  | multiPoint ps =>
    exact (s.elements_headed level (fun c => s.sequence_headed level c.toList) ps).broken
  | multiLineString ls =>
    exact (parts_headed level fun cs _ n own => s.sequence_broken n own cs).broken
  | multiPolygon ps =>
    exact (parts_headed level fun p _ n own => s.polygon_broken n own p).broken
  | collection gs ih =>
    have hmember : ∀ g ∈ gs, ∀ (n : Nat) (_ : Bool),
        Broken s.layout.pretty (s.geometry n g) (s.flat g) := fun g hg n _ => by
      rw [geometry_eq, flat_eq]
      exact (s.heading_broken n g.kind).append (ih g hg n)
    exact (parts_headed level hmember).broken

end Style

/-! ### Taking line breaks out -/

/-- A text without its line breaks; `fresh` says that a newline and only blanks came before. -/
def unbreakFrom : Bool → List Char → List Char
  | _, [] => []
  | fresh, c :: cs =>
    if c = '\n' then unbreakFrom true cs
    else if fresh = true ∧ c = ' ' then unbreakFrom true cs
    else c :: unbreakFrom false cs

/-- A text without its newlines and the blanks that follow them. -/
def unbreak (cs : List Char) : List Char := unbreakFrom false cs

theorem unbreakFrom_true : ∀ cs : List Char, unbreakFrom true cs = unbreak (cs.dropWhile (· = ' '))
  | [] => rfl
  | c :: cs => by
    by_cases hc : c = ' '
    · subst hc
      exact unbreakFrom_true cs
    · rw [List.dropWhile_cons_of_neg (by simpa using hc)]
      simp [unbreak, unbreakFrom, hc]

/-- A newline goes with all blanks behind it. -/
theorem unbreak_newline (cs : List Char) :
    unbreak ('\n' :: cs) = unbreak (cs.dropWhile (· = ' ')) :=
  unbreakFrom_true cs

/-- Text without a newline stays. -/
theorem unbreak_append : ∀ {cs : List Char}, '\n' ∉ cs → ∀ ds : List Char,
    unbreak (cs ++ ds) = cs ++ unbreak ds
  | [], _, _ => rfl
  | c :: cs, h, ds => by
    have hc : c ≠ '\n' := Ne.symm (List.ne_of_not_mem_cons h)
    have ih := unbreak_append (List.not_mem_of_not_mem_cons h) ds
    unfold unbreak at ih ⊢
    rw [List.cons_append, unbreakFrom, if_neg hc, if_neg (by simp), ih, List.cons_append]

theorem unbreak_eq_self {cs : List Char} (h : '\n' ∉ cs) : unbreak cs = cs := by
  have hcs := unbreak_append h []
  rwa [List.append_nil, show unbreak [] = [] from rfl, List.append_nil] at hcs

/-! ### The text of pieces -/

theorem IsWord.newline_not_mem {cs : List Char} (h : IsWord cs) : '\n' ∉ cs :=
  fun hmem => h _ hmem (by decide)

namespace Spelling

variable (s : Spelling)

theorem piece_eq_start {p : Piece} (hp : ∀ n, p ≠ .lineBreak n) : s.piece p = s.start p := by
  have hblanks : p.blanks = 0 := by
    cases p with
    | lineBreak n => exact absurd rfl (hp n)
    | _ => rfl
  rw [piece, hblanks, List.replicate_zero, List.append_nil]

/-- The text of a coordinate: a first place, and the others with a blank in front. -/
theorem slots_cons (place : Slot) : ∀ places : List Slot,
    s.slots (place :: places) = s.slot place ++ places.flatMap fun p => ' ' :: s.slot p
  | [] => by simp [slots]
  | next :: rest => by
    have ih := slots_cons next rest
    unfold slots at ih ⊢
    rw [List.map_cons, List.map_cons, List.intercalate_cons_cons, ← List.map_cons, ih,
      List.flatMap_cons, List.append_assoc, List.cons_append, List.cons_append, List.nil_append]

/-- A coordinate is made of the texts of its places and of blanks. -/
theorem mem_slots {c : Char} {places : List Slot} (h : c ∈ s.slots places) :
    c = ' ' ∨ ∃ place ∈ places, c ∈ s.slot place := by
  cases places with
  | nil => nomatch h
  | cons place places =>
    rw [slots_cons, List.mem_append, List.mem_flatMap] at h
    rcases h with h | ⟨later, hlater, h⟩
    · exact .inr ⟨place, List.mem_cons_self, h⟩
    · rcases List.mem_cons.mp h with h | h
      · exact .inl h
      · exact .inr ⟨later, List.mem_cons_of_mem _ hlater, h⟩

/-- The only newlines are those of line breaks, if the marker has none. -/
theorem newline_not_mem_piece (hmarker : '\n' ∉ s.missingMarker.toList) {p : Piece}
    (hp : ∀ n, p ≠ .lineBreak n) : '\n' ∉ s.piece p := by
  rw [s.piece_eq_start hp]
  cases p with
  | tag kind =>
    show '\n' ∉ kind.tag.toList ++ [' ']
    cases kind <;> decide
  | token o =>
    show '\n' ∉ o.token.toList
    unfold Ordinates.token
    cases o.z <;> cases o.m <;> decide
  | coordinate places =>
    intro h
    rcases s.mem_slots h with h | ⟨place, _, h⟩
    · exact absurd h (by decide)
    · cases place with
      | value v => exact (s.precision.isWord_text v).newline_not_mem h
      | missing => exact hmarker h
  | lineBreak n => exact absurd rfl (hp n)
  | empty =>
    show '\n' ∉ "EMPTY".toList
    decide
  | opening =>
    show '\n' ∉ ['(']
    decide
  | closing =>
    show '\n' ∉ [')']
    decide
  | separator =>
    show '\n' ∉ [',', ' ']
    decide

/-- A line never begins with a blank of the piece that starts it. -/
theorem head_of_startsLine {p : Piece} (hp : p.StartsLine) :
    ∃ c cs, s.piece p = c :: cs ∧ c ≠ ' ' := by
  rw [s.piece_eq_start hp.ne_lineBreak]
  cases hp with
  | tag kind => cases kind <;> exact ⟨_, _, rfl, by decide⟩
  | empty => exact ⟨'E', "MPTY".toList, rfl, by decide⟩
  | opening => exact ⟨'(', [], rfl, by decide⟩
  | coordinate v rest =>
    obtain ⟨c, cs, hv⟩ := List.exists_cons_of_ne_nil (s.precision.text_ne_nil v)
    refine ⟨c, cs ++ rest.flatMap fun p => ' ' :: s.slot p, ?_, ?_⟩
    · show s.slots (.value v :: rest) = _
      rw [slots_cons, show s.slot (.value v) = c :: cs from hv, List.cons_append]
    · rintro rfl
      exact s.precision.isWord_text v ' ' (by rw [hv]; exact List.mem_cons_self) (by decide)

/-- A line break in front of a piece that starts a line goes with its blanks. -/
theorem unbreak_lineBreak (n : Nat) {p : Piece} (hp : p.StartsLine) (rest : List Char) :
    unbreak (s.piece (.lineBreak n) ++ (s.piece p ++ rest)) = unbreak (s.piece p ++ rest) := by
  obtain ⟨c, cs, hcs, hc⟩ := s.head_of_startsLine hp
  have hdrop : (List.replicate n ' ' ++ (c :: cs ++ rest)).dropWhile (· = ' ') =
      c :: cs ++ rest := by
    rw [List.dropWhile_append_of_pos (by simp), List.cons_append,
      List.dropWhile_cons_of_neg (by simpa using hc)]
  show unbreak ('\n' :: (List.replicate n ' ' ++ (s.piece p ++ rest))) = _
  rw [unbreak_newline, hcs, hdrop]

variable {pretty : Bool} {ps qs : List Piece}

/-- Without its line breaks, the text is that of the pieces without line breaks. -/
theorem unbreak_pieces (hmarker : '\n' ∉ s.missingMarker.toList) (h : Broken pretty ps qs) :
    unbreak (s.pieces ps) = s.pieces qs := by
  unfold pieces
  induction h with
  | nil => rfl
  | keep hp _ ih =>
    rw [List.flatMap_cons, List.flatMap_cons,
      unbreak_append (s.newline_not_mem_piece hmarker hp), ih]
  | add n _ hp _ ih =>
    -- the deletion stops where the line starts, as no blank begins it
    rw [List.flatMap_cons, List.flatMap_cons, List.flatMap_cons, s.unbreak_lineBreak n hp,
      unbreak_append (s.newline_not_mem_piece hmarker hp.ne_lineBreak), ih]

theorem newline_not_mem_pieces (hmarker : '\n' ∉ s.missingMarker.toList)
    (h : Broken pretty ps qs) : '\n' ∉ s.pieces qs := by
  intro hmem
  obtain ⟨p, hp, hnewline⟩ := List.mem_flatMap.mp hmem
  exact s.newline_not_mem_piece hmarker (h.ne_lineBreak_of_mem hp) hnewline

end Spelling

/-! ### The text of a geometry -/

namespace Config

/-- What decides the pieces of the text of a geometry. -/
def style (c : Config) (g : Geometry) : Style :=
  ⟨c.effectiveOrdinates g, c.dialect.writesToken, c.layout⟩

/-- The pieces of the text of a geometry on one line. -/
def flatPieces (c : Config) (g : Geometry) : List Piece :=
  (c.style g).flat g

theorem pieces_broken (c : Config) (g : Geometry) :
    Broken c.pretty (c.pieces g) (c.flatPieces g) :=
  (c.style g).geometry_broken 0 g

/-- Without its line breaks, a text is that of the pieces on one line. -/
theorem unbreak_text {c : Config} (hmarker : '\n' ∉ c.dialect.missingMarker.toList)
    (g : Geometry) : unbreak (c.text g) = c.spelling.pieces (c.flatPieces g) :=
  c.spelling.unbreak_pieces hmarker (c.pieces_broken g)

/-- A text that is not pretty is that of the pieces on one line. -/
theorem text_eq_of_not_pretty {c : Config} (hpretty : c.pretty = false) (g : Geometry) :
    c.text g = c.spelling.pieces (c.flatPieces g) := by
  have h := c.pieces_broken g
  rw [hpretty] at h
  rw [text, h.eq_of_not_pretty]

/-- What is written on one line has no newline. -/
theorem newline_not_mem_text {c : Config} (hmarker : '\n' ∉ c.dialect.missingMarker.toList)
    (hpretty : c.pretty = false) (g : Geometry) : '\n' ∉ c.text g := by
  rw [text_eq_of_not_pretty hpretty]
  exact c.spelling.newline_not_mem_pieces hmarker (c.pieces_broken g)

/-- The layout does not matter to the pieces on one line. -/
theorem flatPieces_eq {c d : Config} (hordinates : d.ordinates = c.ordinates)
    (hdialect : d.dialect = c.dialect) (g : Geometry) : d.flatPieces g = c.flatPieces g := by
  have heffective : d.effectiveOrdinates g = c.effectiveOrdinates g := by
    rw [effectiveOrdinates, effectiveOrdinates, hordinates, hdialect]
  rw [flatPieces, flatPieces, style, style, heffective, hdialect]
  exact Style.flat_layout _ _ _ _ g

theorem unbreak_text_eq {c d : Config} (hordinates : d.ordinates = c.ordinates)
    (hprecision : d.precision = c.precision) (hdialect : d.dialect = c.dialect)
    (hmarker : '\n' ∉ c.dialect.missingMarker.toList) (g : Geometry) :
    unbreak (d.text g) = unbreak (c.text g) := by
  have hspelling : d.spelling = c.spelling := by
    rw [spelling, spelling, hprecision, hdialect]
  have hmarker' : '\n' ∉ d.dialect.missingMarker.toList := by rwa [hdialect]
  rw [unbreak_text hmarker, unbreak_text hmarker', hspelling, flatPieces_eq hordinates hdialect]

/-- **Layout only adds line breaks.** Under configurations that differ in layout at most, the texts
of a geometry are the same but for newlines and the blanks behind them. The text that is not
pretty has no newline, so it is what the others become. -/
theorem unbreak_write_eq (c d : Config) (hordinates : d.ordinates = c.ordinates)
    (hprecision : d.precision = c.precision) (hdialect : d.dialect = c.dialect)
    (hmarker : '\n' ∉ c.dialect.missingMarker.toList) (g : Geometry) :
    unbreak (d.write g).toList = unbreak (c.write g).toList ∧
    (c.pretty = false →
      '\n' ∉ (c.write g).toList ∧ unbreak (c.write g).toList = (c.write g).toList) ∧
    unbreak (c.writeFormatted g).toList = (Config.write { c with pretty := false } g).toList := by
  have hplain : '\n' ∉ Config.text { c with pretty := false } g :=
    newline_not_mem_text (c := { c with pretty := false }) hmarker rfl g
  have hformatted : unbreak (c.formatted.text g) =
      unbreak (Config.text { c with pretty := false } g) :=
    unbreak_text_eq (c := { c with pretty := false }) (d := c.formatted) rfl rfl rfl hmarker g
  simp only [write, writeFormatted, String.toList_ofList]
  refine ⟨unbreak_text_eq hordinates hprecision hdialect hmarker g, fun hpretty => ?_, ?_⟩
  · have hline := newline_not_mem_text hmarker hpretty g
    exact ⟨hline, unbreak_eq_self hline⟩
  · rw [hformatted, unbreak_eq_self hplain]

/-- A line string broken after each coordinate is, without its line breaks, as on one line. -/
theorem unbreak_write_lineString :
    let c : Config := Config.default
    let d : Config := { c with pretty := true, perLine := 1, indentWidth := 4 }
    let g : Geometry := .lineString [.xy ⟨0⟩ ⟨0⟩, .xy ⟨0⟩ ⟨0⟩]
    (d.write g).toList = "LINESTRING (0 0, \n    0 0)".toList ∧
    (c.write g).toList = "LINESTRING (0 0, 0 0)".toList ∧
    '\n' ∉ (c.write g).toList ∧
    unbreak (d.write g).toList = unbreak (c.write g).toList := by
  intro c d g
  have hwitness := unbreak_write_eq c d rfl rfl rfl (by decide) g
  exact ⟨by decide +kernel, by decide +kernel, (hwitness.2.1 rfl).1, hwitness.1⟩

end Config

end LatLonText
