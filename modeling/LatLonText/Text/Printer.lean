/-
# Writing geometries into sinks

The text of a geometry goes into a sink of text by small puts, in the order in
which it is read: a tag, a blank, a token, a parenthesis, an ordinate, each blank
of an indentation by itself. Each put may be refused, and the first refusal ends
the writing: nothing is put after it.

Every function takes the level of nesting. The first part of a geometry keeps the
level of the whole, each later one stands one level deeper.

Key definitions: `Printer`, `Printer.geometry`, `Config.writeInto`,
`Config.writeBytes`, `Config.writeText`, `Config.display`.
-/
import LatLonText.Sink
import LatLonText.Text.Writer

namespace LatLonText

/-- What decides the text of a geometry. -/
structure Printer where
  /-- The ordinates that are written. -/
  ordinates : Ordinates
  dialect : Dialect
  precision : Precision
  layout : Layout

namespace Printer

open TextSink (put)

variable {σ α : Type} [TextSink σ] (p : Printer)

/-! ### Line breaks -/

/-- So many blanks, one by one. -/
def blanks : Nat → Writing σ Unit
  | 0 => return
  | n + 1 => do
    put [' ']
    blanks n

/-- Begins a line at a level. At level zero, and in text that stays on one line, nothing is begun. -/
def indent (level : Nat) : Writing σ Unit := do
  if !p.layout.pretty || level == 0 then return
  put ['\n']
  blanks (level * p.layout.indentWidth.toNat % Layout.blanksModulus)

/-- Begins a line in front of element `i` of a sequence if the lines before it are full. -/
def wrap (i level : Nat) : Writing σ Unit := do
  if p.layout.perLine.toNat == 0 || i % p.layout.perLine.toNat != 0 then return
  p.indent level

/-! ### Parts -/

def ordinate (v : Ordinate) : Writing σ Unit :=
  put (p.precision.text v)

/-- The tag of a geometry, and the token unless the dialect has none. -/
def tag (kind : Kind) : Writing σ Unit := do
  put kind.tag.toList
  put [' ']
  if p.dialect.writesToken then put p.ordinates.token.toList

/-- A coordinate, Y first. An absent Z is marked, an absent M is written as it is. -/
def coordinate (c : Coordinate) : Writing σ Unit := do
  p.ordinate c.y
  put [' ']
  p.ordinate c.x
  if p.ordinates.z then
    put [' ']
    if c.z.isNaN then put p.dialect.missingMarker.toList else p.ordinate c.z
  if p.ordinates.m then
    put [' ']
    p.ordinate c.m

/-- Elements `i`, `i + 1`, ..., each but the first behind a comma and wrapped where a line is full. -/
def elements (level : Nat) (element : α → Writing σ Unit) : List α → (i : Nat) → Writing σ Unit
  | [], _ => return
  | a :: rest, i => do
    if 0 < i then
      put [',', ' ']
      p.wrap i (level + 1)
    element a
    elements level element rest (i + 1)

/-- Parts `i`, `i + 1`, ..., each but the first behind a comma, one level deeper and on a line of its
own. -/
def parts (level : Nat) (part : Nat → Bool → α → Writing σ Unit) :
    List α → (i : Nat) → Writing σ Unit
  | [], _ => return
  | a :: rest, i => do
    if 0 < i then
      put [',', ' ']
      part (level + 1) true a
    else part level false a
    parts level part rest (i + 1)

def empty : Writing σ Unit :=
  put "EMPTY".toList

/-- A sequence of coordinates, on a line of its own if that is asked for. -/
def sequence (level : Nat) (ownLine : Bool) (cs : List Coordinate) : Writing σ Unit := do
  if cs.isEmpty then empty
  else
    if ownLine then p.indent level
    put ['(']
    p.elements level p.coordinate cs 0
    put [')']

/-- A polygon, on a line of its own if that is asked for. -/
def polygon (level : Nat) (ownLine : Bool) (g : Polygon) : Writing σ Unit := do
  if g.isEmpty then empty
  else
    if ownLine then p.indent level
    put ['(']
    p.sequence level false g.exterior
    g.interiors.forM fun ring => do
      put [',', ' ']
      p.sequence (level + 1) true ring
    put [')']

def multiPoint (level : Nat) (ps : List (Option Coordinate)) : Writing σ Unit := do
  if ps.isEmpty then empty
  else
    put ['(']
    p.elements level (fun c => p.sequence level false c.toList) ps 0
    put [')']

/-- What consists of parts that are each written by `part`. -/
def multi (level : Nat) (part : Nat → Bool → α → Writing σ Unit) (as : List α) :
    Writing σ Unit := do
  if as.isEmpty then empty
  else
    put ['(']
    parts level part as 0
    put [')']

/-! ### Geometries -/

mutual

/-- A geometry at a level. -/
def geometry (level : Nat) (g : Geometry) : Writing σ Unit := do
  p.indent level
  p.tag g.kind
  match g with
  | .point c => p.sequence level false c.toList
  | .lineString cs => p.sequence level false cs
  | .linearRing cs => p.sequence level false cs
  | .polygon g => p.polygon level false g
  | .multiPoint ps => p.multiPoint level ps
  | .multiLineString ls => multi level p.sequence ls
  | .multiPolygon gs => multi level p.polygon gs
  | .collection gs =>
    if gs.isEmpty then empty
    else
      put ['(']
      members level gs 0
      put [')']

/-- Members `i`, `i + 1`, ... of a collection, each but the first behind a comma and one level
deeper. -/
def members (level : Nat) (gs : List Geometry) (i : Nat) : Writing σ Unit := do
  match gs with
  | [] => return
  | g :: rest =>
    if 0 < i then
      put [',', ' ']
      geometry (level + 1) g
    else geometry level g
    members level rest (i + 1)

end

end Printer

/-! ### Configurations -/

namespace Config

/-- What decides the text of a geometry under the configuration. -/
def printer (c : Config) (g : Geometry) : Printer :=
  ⟨c.effectiveOrdinates g, c.dialect, c.precision, c.layout⟩

section Text

variable {σ : Type} [TextSink σ] (c : Config) (g : Geometry)

/-- Writes a geometry into a sink of text. -/
def print : Writing σ Unit :=
  (c.printer g).geometry 0 g

/-- Appends the text of a geometry to a sink of text. -/
def writeInto : Action Error σ Unit :=
  (c.print g).adapt fun _ => .textRefused

end Text

/-- Appends the text of a geometry to a sink of bytes, in UTF-8. -/
def writeBytes {σ : Type} [ByteSink σ] (c : Config) (g : Geometry) : Action Error σ Unit :=
  ExceptT.mk fun out =>
    match (c.print g).run.run (⟨out, none⟩ : Utf8Sink σ) with
    | (.ok (), sink) => (.ok (), sink.inner)
    | (.error _, sink) => (.error (sink.fault.elim .textRefused .bytesRefused), sink.inner)

variable (c : Config) (g : Geometry)

/-- The text of a geometry, as a new string. -/
def writeText : Except Error String :=
  let (outcome, text) := (c.writeInto g).run.run ""
  outcome.map fun _ => text

/-- The text of a geometry as a new string, broken into lines whatever the configuration says. -/
def writeFormattedText : Except Error String :=
  c.formatted.writeText g

/-- What is shown of a geometry; nothing if a string could refuse a text. -/
def display : Option String :=
  let (outcome, text) := (c.print g).run.run ""
  outcome.toOption.map fun _ => text

end Config

end LatLonText
