/-
# Why a binary geometry cannot be read

A fault of a binary geometry names the item at fault and how far it would have
reached, counted from its own first byte.

Key definitions: `Wkb.Error`, `Wkb.Error.message`.
-/
namespace LatLonText.Wkb

/-- The items whose length follows from their header. -/
inductive Item where
  | point
  | lineString
  | linearRing
  | multiPoint
deriving DecidableEq

/-- The name of an item in messages. -/
def Item.name : Item → String
  | point => "Point"
  | lineString => "LineString"
  | linearRing => "LinearRing"
  | multiPoint => "MultiPoint"

/-- What messages say the bytes of an item are. A ring is no geometry by itself. -/
def Item.content : Item → String
  | linearRing => "data"
  | _ => "geometry"

/-- What is wrong with a binary geometry. -/
inductive Error where
  /-- The first byte of a geometry is neither of the two byte orders. -/
  | invalidByteOrder
  /-- The code names no geometry type. -/
  | unknownType (code : Nat)
  /-- The bytes end inside a header or a count. -/
  | unexpectedEnd
  /-- The ordinates of an item reach beyond the last byte. -/
  | truncated (item : Item) (stop length : Nat)
  /-- Collections are nested beyond the limit. -/
  | nestedTooDeeply (limit : Nat)
  /-- A point of a multipoint announces a reference system id for which its slot has no room. -/
  | pointOverrun
deriving DecidableEq

/-- The wording of a fault. -/
def Error.message : Error → String
  | invalidByteOrder => "General error: Invalid byte order"
  | unknownType code => s!"General error: WKB type code out of range. Got: {code}"
  | unexpectedEnd => "failed to fill whole buffer"
  | truncated item stop length =>
    s!"General error: Invalid buffer length for {item.name}: {item.content} would end at "
      ++ s!"byte {stop}, but buffer length is {length}."
  | nestedTooDeeply limit => s!"WKB nesting depth exceeds the maximum of {limit}"
  | pointOverrun => "unwinding panic"

end LatLonText.Wkb
