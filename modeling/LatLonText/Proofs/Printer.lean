/-
# What is put into a sink

Whatever a sink does with it, the printer offers the text of a geometry piece by
piece: what it does is to put the texts that the pieces are made of one after the
other (`Printer.geometry_eq`). So all that can be said of a writing is said of a
list of puts, and the order in which the printer walks through a geometry plays no
part any more. The parts of a geometry are shown one by one, in the order in which
they are defined; a loop needs the count at which it stands, since its first turn
has no comma.

Key definitions: `Spelling.puts`, `Printer.putAll`, `Config.puts`.
Key theorems: `Printer.geometry_eq`, `Config.print_eq`, `Config.flatten_puts`.
-/
import LatLonText.Proofs.Pieces
import LatLonText.Text.Printer

namespace LatLonText

/-! ### The puts of a text -/

namespace Spelling

variable (s : Spelling)

/-- The texts that a piece is put in, one by one. -/
def puts : Piece → List (List Char)
  | .tag kind => [kind.tag.toList, [' ']]
  | .token ordinates => [ordinates.token.toList]
  | .empty => ["EMPTY".toList]
  | .opening => [['(']]
  | .closing => [[')']]
  | .separator => [[',', ' ']]
  | .coordinate places => (places.map s.slot).intersperse [' ']
  | .lineBreak n => ['\n'] :: List.replicate n [' ']

theorem flatten_puts (p : Piece) : (s.puts p).flatten = s.piece p := by
  cases p with
  | coordinate places => simp [puts, piece, start, slots, List.intercalate, Piece.blanks]
  | lineBreak n => simp [puts, piece, start, Piece.blanks, List.flatten_replicate_singleton]
  | _ => simp [puts, piece, start, Piece.blanks]

end Spelling

namespace Config

variable (c : Config) (g : Geometry)

/-- The texts that are put for a geometry, one by one. -/
def puts : List (List Char) :=
  (c.pieces g).flatMap c.spelling.puts

/-- **What is put is the text.** -/
theorem flatten_puts : (c.puts g).flatten = c.text g := by
  simp only [puts, text, Spelling.pieces, List.flatMap_def, List.flatten_flatten, List.map_map,
    Function.comp_def, Spelling.flatten_puts]

end Config

/-! ### The puts of the printer -/

namespace Printer

open TextSink (put)

variable {σ α : Type} [TextSink σ] (p : Printer)

/-- What decides the pieces of what is printed. -/
def style : Style :=
  ⟨p.ordinates, p.dialect.writesToken, p.layout⟩

def spelling : Spelling :=
  ⟨p.precision, p.dialect.missingMarker⟩

/-- Puts pieces, each by its texts. -/
def putAll (ps : List Piece) : Writing σ Unit :=
  (ps.flatMap p.spelling.puts).forM put

theorem putAll_nil : (p.putAll [] : Writing σ Unit) = pure () := rfl

theorem putAll_append (ps qs : List Piece) :
    (p.putAll (ps ++ qs) : Writing σ Unit) = (do p.putAll ps; p.putAll qs) := by
  simp only [putAll, List.flatMap_append, List.forM_eq_forM, List.forM_append]

theorem putAll_opening_cons (ps : List Piece) :
    (p.putAll (.opening :: ps) : Writing σ Unit) = (do put ['(']; p.putAll ps) := by
  simp [putAll, Spelling.puts]

theorem putAll_separator_cons (ps : List Piece) :
    (p.putAll (.separator :: ps) : Writing σ Unit) = (do put [',', ' ']; p.putAll ps) := by
  simp [putAll, Spelling.puts]

theorem putAll_closing : (p.putAll [.closing] : Writing σ Unit) = put [')'] := by
  simp [putAll, Spelling.puts]

theorem putAll_empty : (p.putAll [.empty] : Writing σ Unit) = empty := by
  simp [putAll, Spelling.puts, empty]

/-! ### Line breaks -/

theorem blanks_eq : ∀ n : Nat, (blanks n : Writing σ Unit) = (List.replicate n [' ']).forM put
  | 0 => rfl
  | n + 1 => by
    rw [blanks, blanks_eq n, List.replicate_succ]
    rfl

theorem indent_eq (level : Nat) :
    (p.indent level : Writing σ Unit) = p.putAll (p.layout.breakAt level) := by
  have hnot : (!p.layout.pretty || level == 0) = !(p.layout.pretty && level != 0) := by
    simp [bne]
  unfold indent Layout.breakAt
  rw [hnot]
  by_cases h : p.layout.pretty && level != 0
  · rw [if_pos h, h, if_neg (by decide), blanks_eq]
    simp [putAll, Spelling.puts]
  · rw [if_neg h, if_pos (by rw [eq_false_of_ne_true h]; rfl), putAll_nil]

theorem wrap_eq (i level : Nat) :
    (p.wrap i level : Writing σ Unit) = p.putAll (p.layout.wrapAt i level) := by
  have hnot : (p.layout.perLine.toNat == 0 || i % p.layout.perLine.toNat != 0) =
      !(p.layout.perLine.toNat != 0 && i % p.layout.perLine.toNat == 0) := by
    simp [bne]
  unfold wrap Layout.wrapAt
  rw [hnot]
  by_cases h : p.layout.perLine.toNat != 0 && i % p.layout.perLine.toNat == 0
  · rw [if_pos h, h, if_neg (by decide), indent_eq]
  · rw [if_neg h, if_pos (by rw [eq_false_of_ne_true h]; rfl), putAll_nil]

/-! ### Parts -/

theorem tag_eq (kind : Kind) :
    (p.tag kind : Writing σ Unit) =
      p.putAll (.tag kind :: if p.dialect.writesToken then [.token p.ordinates] else []) := by
  unfold tag
  cases p.dialect.writesToken <;> simp [putAll, Spelling.puts]

theorem coordinate_eq (c : Coordinate) :
    (p.coordinate c : Writing σ Unit) = p.putAll [.coordinate (p.style.slots c)] := by
  unfold coordinate ordinate Style.slots style
  cases p.ordinates.z <;> cases p.ordinates.m <;> cases c.z.isNaN <;>
    simp [putAll, Spelling.puts, Spelling.slot, spelling, List.intersperse]

section Loops

variable {level : Nat}

/-- Elements behind the first, if each element puts its pieces. -/
theorem elements_eq_of_pos {element : α → Writing σ Unit} {pieces : α → List Piece}
    (h : ∀ a, element a = p.putAll (pieces a)) : ∀ (as : List α) (i : Nat), 0 < i →
      p.elements level element as i = p.putAll (p.style.laterElements level pieces as i)
  | [], _, _ => rfl
  | a :: as, i, hi => by
    unfold elements Style.laterElements
    rw [if_pos hi, h, elements_eq_of_pos h as (i + 1) (Nat.succ_pos i), wrap_eq]
    simp only [List.cons_append, putAll_append, putAll_separator_cons, bind_assoc]
    rfl

/-- Elements in parentheses, if each element puts its pieces. -/
theorem elements_eq {element : α → Writing σ Unit} {pieces : α → List Piece}
    (h : ∀ a, element a = p.putAll (pieces a)) (a : α) (as : List α) :
    (do put ['(']; p.elements level element (a :: as) 0; put [')']) =
      p.putAll (p.style.elements level pieces (a :: as)) := by
  unfold elements Style.elements
  rw [if_neg (Nat.lt_irrefl 0), h, elements_eq_of_pos p h as 1 Nat.one_pos]
  simp only [List.cons_append, putAll_append, putAll_opening_cons, putAll_closing, bind_assoc]

/-- Parts behind the first, if each part puts its pieces. -/
theorem parts_eq_of_pos {part : Nat → Bool → α → Writing σ Unit}
    {pieces : Nat → Bool → α → List Piece}
    (h : ∀ level ownLine a, part level ownLine a = p.putAll (pieces level ownLine a)) :
    ∀ (as : List α) (i : Nat), 0 < i →
      parts level part as i =
        p.putAll (as.flatMap fun a => .separator :: pieces (level + 1) true a)
  | [], _, _ => rfl
  | a :: as, i, hi => by
    unfold parts
    rw [if_pos hi, h, parts_eq_of_pos h as (i + 1) (Nat.succ_pos i)]
    simp only [List.flatMap_cons, List.cons_append, putAll_append, putAll_separator_cons]

/-- What consists of parts, if each part puts its pieces. -/
theorem multi_eq {part : Nat → Bool → α → Writing σ Unit} {pieces : Nat → Bool → α → List Piece}
    (h : ∀ level ownLine a, part level ownLine a = p.putAll (pieces level ownLine a)) :
    ∀ as : List α, multi level part as = p.putAll (Style.parts level pieces as)
  | [] => (putAll_empty p).symm
  | a :: as => by
    unfold multi parts Style.parts
    rw [if_neg (Nat.lt_irrefl 0), h, parts_eq_of_pos p h as 1 Nat.one_pos]
    simp only [List.isEmpty_cons, Bool.false_eq_true, if_false, List.cons_append, putAll_append,
      putAll_opening_cons, putAll_closing, bind_assoc]

end Loops

theorem sequence_eq (level : Nat) (ownLine : Bool) (cs : List Coordinate) :
    (p.sequence level ownLine cs : Writing σ Unit) =
      p.putAll (p.style.sequence level ownLine cs) := by
  unfold sequence Style.sequence
  cases cs with
  | nil => simp [Style.elements, putAll_empty]
  | cons c cs =>
    rw [putAll_append, ← elements_eq p p.coordinate_eq c cs]
    cases ownLine with
    | false => simp [putAll_nil]
    | true => simp [indent_eq, style]

theorem polygon_eq (level : Nat) (ownLine : Bool) (g : Polygon) :
    (p.polygon level ownLine g : Writing σ Unit) = p.putAll (p.style.polygon level ownLine g) := by
  unfold polygon Style.polygon
  by_cases h : g.isEmpty = true
  · rw [if_pos h, if_pos h, putAll_empty]
  · have hinteriors : (g.interiors.forM fun ring => do
          put [',', ' ']
          p.sequence (level + 1) true ring : Writing σ Unit) =
        p.putAll (g.interiors.flatMap fun ring => .separator :: p.style.sequence (level + 1) true ring) := by
      induction g.interiors with
      | nil => rfl
      | cons ring rings ih =>
        rw [List.forM_eq_forM] at ih ⊢
        rw [List.forM_cons, ih, List.flatMap_cons, List.cons_append, putAll_separator_cons,
          putAll_append, sequence_eq, bind_assoc]
    rw [if_neg h, if_neg h, hinteriors, sequence_eq, putAll_append, Polygon.rings, Style.parts]
    simp only [List.cons_append, putAll_append, putAll_opening_cons, putAll_closing, bind_assoc]
    cases ownLine with
    | false => simp [putAll_nil]
    | true => simp [indent_eq, style]

theorem multiPoint_eq (level : Nat) (ps : List (Option Coordinate)) :
    (p.multiPoint level ps : Writing σ Unit) =
      p.putAll (p.style.elements level (fun c => p.style.sequence level false c.toList) ps) := by
  unfold multiPoint
  cases ps with
  | nil => exact (putAll_empty p).symm
  | cons c ps =>
    rw [← elements_eq p (fun c => p.sequence_eq level false c.toList) c ps]
    rfl

/-! ### Geometries -/

/-- Members behind the first, if each member puts its pieces. -/
theorem members_eq_of_pos {level : Nat} : ∀ (gs : List Geometry) (i : Nat),
    (∀ g ∈ gs, ∀ level,
      (p.geometry level g : Writing σ Unit) = p.putAll (p.style.geometry level g)) →
      0 < i → (p.members level gs i : Writing σ Unit) = p.putAll (p.style.laterMembers (level + 1) gs)
  | [], _, _, _ => rfl
  | g :: gs, i, h, hi => by
    have hgs := fun b hb => h b (List.mem_cons_of_mem g hb)
    unfold members Style.laterMembers
    rw [if_pos hi, h g List.mem_cons_self, members_eq_of_pos gs (i + 1) hgs (Nat.succ_pos i)]
    simp only [List.cons_append, putAll_append, putAll_separator_cons]

theorem heading_eq (level : Nat) (kind : Kind) :
    (do p.indent level; p.tag kind : Writing σ Unit) = p.putAll (p.style.heading level kind) := by
  rw [Style.heading, putAll_append, indent_eq, tag_eq]
  rfl

/-- A geometry is put piece by piece if what follows its heading is. -/
theorem geometry_eq_of_body {level : Nat} {g : Geometry} {body : Writing σ Unit}
    (hgeometry : p.geometry level g = do p.indent level; p.tag g.kind; body)
    (hbody : body = p.putAll (p.style.body level g)) :
    (p.geometry level g : Writing σ Unit) = p.putAll (p.style.geometry level g) := by
  rw [hgeometry, hbody, Style.geometry_eq, putAll_append, ← heading_eq, bind_assoc]

/-- **A geometry is put piece by piece.** -/
theorem geometry_eq (level : Nat) (g : Geometry) :
    (p.geometry level g : Writing σ Unit) = p.putAll (p.style.geometry level g) := by
  induction g generalizing level with
  | point c => exact p.geometry_eq_of_body rfl (p.sequence_eq level false c.toList)
  | lineString cs => exact p.geometry_eq_of_body rfl (p.sequence_eq level false cs)
  | linearRing cs => exact p.geometry_eq_of_body rfl (p.sequence_eq level false cs)
  | polygon g => exact p.geometry_eq_of_body rfl (p.polygon_eq level false g)
  | multiPoint ps => exact p.geometry_eq_of_body rfl (p.multiPoint_eq level ps)
  | multiLineString ls => exact p.geometry_eq_of_body rfl (p.multi_eq p.sequence_eq ls)
  | multiPolygon gs => exact p.geometry_eq_of_body rfl (p.multi_eq p.polygon_eq gs)
  | collection gs ih =>
    refine p.geometry_eq_of_body (by rw [geometry]) ?_
    cases gs with
    | nil => exact (putAll_empty p).symm
    | cons g gs =>
      have hgs : (p.members level gs 1 : Writing σ Unit) = _ :=
        p.members_eq_of_pos gs 1 (fun b hb => ih b (List.mem_cons_of_mem g hb)) Nat.one_pos
      rw [Style.laterMembers_eq] at hgs
      rw [Style.body, Style.parts, members, if_neg (Nat.lt_irrefl 0), ih g List.mem_cons_self, hgs]
      simp only [List.cons_append, putAll_append, putAll_opening_cons, putAll_closing,
        List.isEmpty_cons, Bool.false_eq_true, if_false, bind_assoc]

end Printer

namespace Config

variable {σ : Type} [TextSink σ]

/-- **Printing puts the text of a geometry**, in the texts that its pieces are made of. -/
theorem print_eq (c : Config) (g : Geometry) :
    (c.print g : Writing σ Unit) = (c.puts g).forM TextSink.put :=
  (c.printer g).geometry_eq 0 g

end Config

end LatLonText
