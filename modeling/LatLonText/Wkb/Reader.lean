/-
# Reading binary geometries

A geometry begins with its byte order and a code that holds its type, the set
of its ordinates and a flag for a reference system id, which is passed over.
Counts and ordinates follow. Each item is read from the bytes from its own first
byte to the end of the input, and leaves the bytes after it; whatever follows
the outermost geometry is ignored.

The parts of a multi geometry carry headers of their own, of which only the flag
for an id is looked at, in the byte order of the whole. The slots of a
multipoint have a fixed size, so an id in one of them pushes the ordinates into
the next; a last slot has no next, and no point can be made of it. That does not
keep the rest from being read: faults elsewhere are reported first.

Key definitions: `Wkb.Header.read`, `Wkb.lineString`, `Wkb.multiPoint`,
`Wkb.geometry`, `Wkb.read`.
-/
import LatLonText.Ordinates
import LatLonText.Shape
import LatLonText.Wkb.Error

namespace LatLonText.Wkb

/-- The bytes of an item and all that follows it. -/
abbrev Bytes := List UInt8

/-- A reader takes an item from the front and leaves the rest. -/
abbrev Reader (α : Type) := Bytes → Except Error (α × Bytes)

/-! ### Numbers -/

/-- Which end of a number comes first. -/
inductive ByteOrder where
  | big
  | little
deriving DecidableEq

namespace ByteOrder

/-- The whole number that bytes spell, the most significant first. -/
def bigEndian (bytes : Bytes) : Nat :=
  bytes.foldl (fun n b => 256 * n + b.toNat) 0

/-- The whole number that bytes spell. -/
def number (order : ByteOrder) (bytes : Bytes) : Nat :=
  match order with
  | big => bigEndian bytes
  | little => bigEndian bytes.reverse

/-- The number in the first four bytes. -/
def word (order : ByteOrder) (bytes : Bytes) : Except Error Nat :=
  if (bytes.take 4).length = 4 then .ok (order.number (bytes.take 4))
  else .error .unexpectedEnd

/-- The ordinate in the first eight bytes. -/
def ordinate (order : ByteOrder) (bytes : Bytes) : Ordinate :=
  ⟨UInt64.ofNat (order.number (bytes.take 8))⟩

end ByteOrder

/-! ### Headers -/

/-- Bytes of the byte order and the code. -/
def headerSize : Nat := 5

/-- Bytes of a count or an id. -/
def wordSize : Nat := 4

/-- Whether a code announces a reference system id. -/
def announcesId (code : Nat) : Bool :=
  code.testBit 29

/-- The ordinates that a code announces: the thousands of the code, over which its two top bits
have priority. -/
def ordinatesOf (code : Nat) : Ordinates :=
  if code.testBit 31 then if code.testBit 30 then .xyzm else .xyz
  else if code.testBit 30 then .xym
  else if code / 1000 = 1 then .xyz
  else if code / 1000 = 2 then .xym
  else if code / 1000 = 3 then .xyzm
  else .xy

/-- The geometry types of codes. -/
inductive GeometryType where
  | point
  | lineString
  | polygon
  | multiPoint
  | multiLineString
  | multiPolygon
  | collection
deriving DecidableEq

/-- The type in the three lowest bits of a code. -/
def GeometryType.ofCode? (code : Nat) : Option GeometryType :=
  match code % 8 with
  | 1 => some point
  | 2 => some lineString
  | 3 => some polygon
  | 4 => some multiPoint
  | 5 => some multiLineString
  | 6 => some multiPolygon
  | 7 => some collection
  | _ => none

/-- What the header of a geometry says. -/
structure Header where
  order : ByteOrder
  type : GeometryType
  ordinates : Ordinates

/-- Reads the header of a geometry. -/
def Header.read (bytes : Bytes) : Except Error Header :=
  match bytes with
  | [] => .error .unexpectedEnd
  | first :: rest =>
    match (if first = 0 then some ByteOrder.big else if first = 1 then some .little else none) with
    | none => .error .invalidByteOrder
    | some order => do
      let code ← order.word rest
      match GeometryType.ofCode? code with
      | none => .error (.unknownType code)
      | some type => .ok ⟨order, type, ordinatesOf code⟩

/-! ### Items -/

section Items

variable (order : ByteOrder) (ordinates : Ordinates)

/-- The bytes of a position. -/
def positionSize : Nat :=
  8 * ordinates.dimension.toNat

/-- The position in the first bytes. -/
def position (bytes : Bytes) : Position :=
  let dimensions := Dimensions.ofOrdinates ordinates
  .ofOrdinates dimensions
    ((List.range dimensions.size).map fun n => order.ordinate (bytes.drop (8 * n)))

/-- So many positions, one after the other. -/
def positions : Nat → Bytes → List Position
  | 0, _ => []
  | n + 1, bytes =>
    position order ordinates bytes :: positions n (bytes.drop (positionSize ordinates))

/-- The point at a position; one without any number is empty. -/
def pointAt (bytes : Bytes) : Option Position :=
  let p := position order ordinates bytes
  let c := p.toCoordinate
  if c.x.isNaN && c.y.isNaN && c.z.isNaN && c.m.isNaN then none else some p

/-- Where an item's content begins, behind its header and its id if it has one. -/
def contentStart (bytes : Bytes) : Except Error Nat := do
  let code ← order.word (bytes.drop 1)
  return if announcesId code then headerSize + wordSize else headerSize

/-- Where the elements of an item begin, and how many there are. -/
def counted (bytes : Bytes) : Except Error (Nat × Nat) := do
  let start ← contentStart order bytes
  let count ← order.word (bytes.drop start)
  return (start + wordSize, count)

/-- Fails where an item would end beyond the last byte. -/
def checkEnd (item : Item) (stop : Nat) (bytes : Bytes) : Except Error Unit :=
  if bytes.length < stop then .error (.truncated item stop bytes.length) else .ok ()

/-- So many items, one after the other. -/
def many {α : Type} (read : Reader α) : Nat → Reader (List α)
  | 0, bytes => .ok ([], bytes)
  | n + 1, bytes => do
    let (item, rest) ← read bytes
    let (items, rest) ← many read n rest
    return (item :: items, rest)

/-- A point. -/
def point : Reader (Option Position) := fun bytes => do
  let start ← contentStart order bytes
  let stop := start + positionSize ordinates
  checkEnd .point stop bytes
  return (pointAt order ordinates (bytes.drop start), bytes.drop stop)

/-- A line string. -/
def lineString : Reader (List Position) := fun bytes => do
  let (start, count) ← counted order bytes
  let stop := start + count * positionSize ordinates
  checkEnd .lineString stop bytes
  return (positions order ordinates count (bytes.drop start), bytes.drop stop)

/-- A ring, which has no header. -/
def linearRing : Reader (List Position) := fun bytes => do
  let count ← order.word bytes
  let stop := wordSize + count * positionSize ordinates
  checkEnd .linearRing stop bytes
  return (positions order ordinates count (bytes.drop wordSize), bytes.drop stop)

/-- A polygon; without rings it has no exterior. -/
def polygon : Reader PolygonShape := fun bytes => do
  let (start, count) ← counted order bytes
  let (rings, rest) ← many (linearRing order ordinates) count (bytes.drop start)
  return (⟨rings.head?, rings.tail⟩, rest)

/-- The bytes of a point's slot in a multipoint. -/
def slotSize : Nat :=
  headerSize + positionSize ordinates

/-- The points in so many slots; none if the last one reaches beyond them. -/
def slotPoints : Nat → Bytes → Option (List (Option Position))
  | 0, _ => some []
  | n + 1, bytes => do
    let start ← (contentStart order bytes).toOption
    if bytes.length < start + positionSize ordinates then none
    else
      let points ← slotPoints n (bytes.drop (slotSize ordinates))
      return pointAt order ordinates (bytes.drop start) :: points

/-- A multipoint, or `none` if its last point has no room. -/
def multiPoint : Reader (Option (List (Option Position))) := fun bytes => do
  let (start, count) ← counted order bytes
  let size := count * slotSize ordinates
  checkEnd .multiPoint (start + size) bytes
  let points := slotPoints order ordinates count ((bytes.drop start).take size)
  return (points, bytes.drop (start + size))

/-- A multi geometry of items with headers. -/
def multi {α : Type} (read : Reader α) : Reader (List α) := fun bytes => do
  let (start, count) ← counted order bytes
  many read count (bytes.drop start)

end Items

/-! ### Geometries -/

/-- How deep collections may be nested. -/
def nestingLimit : Nat := 128

/-- A geometry by its own header, or `none` if some multipoint in it has a point without room. The
members of a collection are read by `member`, if they may be nested any deeper. -/
def geometryWith (member : Option (Reader (Option Shape))) : Reader (Option Shape) :=
    fun bytes => do
  let header ← Header.read bytes
  let order := header.order
  let ordinates := header.ordinates
  match header.type with
  | .point => do
    let (p, rest) ← point order ordinates bytes
    return (some (.point p), rest)
  | .lineString => do
    let (ps, rest) ← lineString order ordinates bytes
    return (some (.lineString ps), rest)
  | .polygon => do
    let (p, rest) ← polygon order ordinates bytes
    return (some (.polygon p), rest)
  | .multiPoint => do
    let (ps, rest) ← multiPoint order ordinates bytes
    return (ps.map .multiPoint, rest)
  | .multiLineString => do
    let (ls, rest) ← multi order (lineString order ordinates) bytes
    return (some (.multiLineString ls), rest)
  | .multiPolygon => do
    let (ps, rest) ← multi order (polygon order ordinates) bytes
    return (some (.multiPolygon ps), rest)
  | .collection =>
    match member with
    | none => .error (.nestedTooDeeply nestingLimit)
    | some read => do
      let (members, rest) ← multi order read bytes
      return ((members.mapM id).map .collection, rest)

/-- A geometry in which collections may be nested so many levels deep. -/
def geometry : (levels : Nat) → Reader (Option Shape)
  | 0 => geometryWith none
  | levels + 1 => geometryWith (some (geometry levels))

/-- The shape at the beginning of a binary geometry. -/
def read (bytes : Bytes) : Except Error Shape := do
  match ← geometry nestingLimit bytes with
  | (some shape, _) => .ok shape
  | (none, _) => .error .pointOverrun

end LatLonText.Wkb
