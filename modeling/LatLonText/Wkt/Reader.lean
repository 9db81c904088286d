/-
# Reading well-known text

A geometry is a word for its type, possibly a word for its ordinates, and a
body: `EMPTY`, or parts in parentheses. What follows the geometry is ignored.

A fault inside parentheses does not end the reading at once. The closing
parenthesis is looked for first, at the place where the fault left off, and only
if it is there does the fault count; else the missing parenthesis is reported.
So a parser keeps its place in the text also when it fails.

Key definitions: `Wkt.Parser`, `Wkt.enclosed`, `Wkt.separated`, `Wkt.geometry`,
`Wkt.read`.
-/
import LatLonText.Ordinates
import LatLonText.Shape
import LatLonText.Wkt.Token

namespace LatLonText.Wkt

/-- The ordinates by their letters. -/
inductive Axis where
  | x
  | y
  | z
  | m
deriving DecidableEq

/-- The letter of an axis. -/
def Axis.letter : Axis → String
  | x => "X"
  | y => "Y"
  | z => "Z"
  | m => "M"

/-- What is wrong with a text. -/
inductive Error where
  | notAGeometry
  | nonAsciiWord
  | unknownType
  | wordBeforeBody
  | textEnds
  | missingOpening
  | missingClosing
  | memberExpected
  | numberExpected (axis : Axis)
  | badNumber
deriving DecidableEq

/-- The wording of a fault. -/
def Error.message : Error → String
  | notAGeometry => "Invalid WKT format"
  | nonAsciiWord => "Encountered non-ascii word"
  | unknownType => "Invalid type encountered"
  | wordBeforeBody => "Unexpected word before open paren"
  | textEnds => "End of stream"
  | missingOpening => "Missing open parenthesis for type"
  | missingClosing => "Missing closing parenthesis for type"
  | memberExpected => "Expected a word in GEOMETRYCOLLECTION"
  | numberExpected axis => s!"Expected a number for the {axis.letter} coordinate"
  | badNumber => "Unable to parse input number as the desired output type"

/-- A parser consumes tokens, and keeps its place also when it fails. -/
abbrev Parser (α : Type) := ExceptT Error (StateM (List Token)) α

/-! ### Single tokens -/

/-- The next token, left where it is; none at the end and at a NUL. -/
def peek : Parser (Option Token) := do
  match (← get).head? with
  | some .null => return none
  | token => return token

/-- Passes over the next token. -/
def skip : Parser Unit :=
  modify List.tail

/-- Takes the next token, none at the end and at a NUL, which is passed over; a run that is no
number is a fault. -/
def next : Parser (Option Token) := do
  let token ← peek
  skip
  match token with
  | some .badNumber => throw .badNumber
  | token => return token

/-- Whether a word is the given one, apart from case. -/
def isWord (word : String) (letters : List Char) : Bool :=
  letters.map Char.toUpper == word.toList

/-! ### Parts -/

/-- A number on an axis. -/
def number (axis : Axis) : Parser Ordinate := do
  match ← next with
  | some (.number v) => return v
  | _ => throw (.numberExpected axis)

/-- A position with the given ordinates. -/
def position (ordinates : Ordinates) : Parser Position := do
  let x ← number .x
  let y ← number .y
  let z ← if ordinates.z then List.singleton <$> number .z else pure []
  let m ← if ordinates.m then List.singleton <$> number .m else pure []
  return .ofOrdinates (.ofOrdinates ordinates) ([x, y] ++ z ++ m)

/-- Further parts, at most so many, each behind a comma. -/
def further {α : Type} (part : Parser α) : (limit : Nat) → Parser (List α)
  | 0 => return []
  | limit + 1 => do
    match ← peek with
    | some .comma =>
      skip
      let first ← part
      let rest ← further part limit
      return first :: rest
    | _ => return []

/-- One part or more with commas between them. There cannot be more commas than tokens. -/
def separated {α : Type} (part : Parser α) : Parser (List α) := do
  let first ← part
  let rest ← further part (← get).length
  return first :: rest

/-- A body: the word `EMPTY`, or what `inner` reads in parentheses. A fault of `inner` counts only
if the closing parenthesis stands where it left off. -/
def enclosed {α : Type} (empty : α) (inner : Parser α) : Parser α := do
  match ← next with
  | some (.word letters) =>
    if isWord "EMPTY" letters then return empty else throw .missingOpening
  | some .opening =>
    let outcome ← (ExceptT.lift inner.run : Parser (Except Error α))
    match ← next with
    | some .closing => ExceptT.mk (pure outcome)
    | _ => throw .missingClosing
  | _ => throw .missingOpening

/-- The positions of a line string. -/
def line (ordinates : Ordinates) : Parser (List Position) :=
  enclosed [] (separated (position ordinates))

/-- The rings of a polygon, the first of which is the exterior. -/
def polygon (ordinates : Ordinates) : Parser PolygonShape :=
  enclosed ⟨none, []⟩ do
    let rings ← separated (line ordinates)
    return ⟨rings.head?, rings.tail⟩

/-- A point of a multipoint, with or without parentheses of its own. -/
def memberPoint (ordinates : Ordinates) : Parser (Option Position) := do
  match ← peek with
  | some .opening => enclosed none (some <$> position ordinates)
  | _ => return some (← position ordinates)

/-! ### Geometries -/

/-- The types that a word can name. -/
inductive GeometryType where
  | point
  | lineString
  | polygon
  | multiPoint
  | multiLineString
  | multiPolygon
  | collection
deriving DecidableEq

/-- The words for types, and what they name. -/
def typeWords : List (String × GeometryType) :=
  [("POINT", .point), ("LINESTRING", .lineString), ("POLYGON", .polygon),
    ("MULTIPOINT", .multiPoint), ("MULTILINESTRING", .multiLineString),
    ("MULTIPOLYGON", .multiPolygon), ("GEOMETRYCOLLECTION", .collection)]

/-- The words for ordinates, and what they name. -/
def ordinatesWords : List (String × Ordinates) :=
  [("Z", .xyz), ("M", .xym), ("ZM", .xyzm)]

/-- The ordinates that a word names. -/
def ordinatesOfWord? (letters : List Char) : Option Ordinates :=
  (ordinatesWords.find? fun entry => isWord entry.1 letters).map (·.2)

/-- The type that a word names, and the ordinates if the word has them at its end. -/
def typeOfWord? (letters : List Char) : Option (GeometryType × Option Ordinates) :=
  if isWord "LINEARRING" letters then some (.lineString, none)
  else
    typeWords.findSome? fun (word, type) =>
      if isWord word letters then some (type, none)
      else
        ordinatesWords.findSome? fun (suffix, ordinates) =>
          if isWord (word ++ suffix) letters then some (type, some ordinates) else none

/-- The word for ordinates behind the word for the type, X and Y if there is none. -/
def separateOrdinates : Parser Ordinates := do
  match ← peek with
  | some (.word letters) =>
    match ordinatesOfWord? letters with
    | some ordinates =>
      skip
      return ordinates
    | none => if isWord "EMPTY" letters then return .xy else throw .wordBeforeBody
  | some .badNumber => throw .textEnds
  | none => throw .textEnds
  | _ => return .xy

/-- The geometry that goes on behind the word for its type; `member` reads the members of a
collection. -/
def geometryAfter (member : Parser Shape) (letters : List Char) : Parser Shape := do
  match typeOfWord? letters with
  | none => throw .unknownType
  | some (type, suffix) =>
    let ordinates ←
      match suffix with
      | some ordinates => pure ordinates
      | none => separateOrdinates
    match type with
    | .point => .point <$> enclosed none (some <$> position ordinates)
    | .lineString => .lineString <$> line ordinates
    | .polygon => .polygon <$> polygon ordinates
    | .multiPoint => .multiPoint <$> enclosed [] (separated (memberPoint ordinates))
    | .multiLineString => .multiLineString <$> enclosed [] (separated (line ordinates))
    | .multiPolygon => .multiPolygon <$> enclosed [] (separated (polygon ordinates))
    | .collection => .collection <$> enclosed [] (separated member)

/-- A member of a collection, in which collections may be nested so many levels deep. -/
def member : (levels : Nat) → Parser Shape
  | 0 => throw .memberExpected
  | levels + 1 => do
    match ← next with
    | some (.word letters) => geometryAfter (member levels) letters
    | _ => throw .memberExpected

/-- A geometry. Collections cannot be nested deeper than there are tokens. -/
def geometry : Parser Shape := do
  let levels := (← get).length
  match ← next with
  | some (.word letters) =>
    if letters.all (·.toNat < 128) then geometryAfter (member levels) letters
    else throw .nonAsciiWord
  | _ => throw .notAGeometry

/-- The shape at the beginning of a text. -/
def read (text : List Char) : Except Error Shape :=
  (geometry.run.run (tokens text)).1

end LatLonText.Wkt
