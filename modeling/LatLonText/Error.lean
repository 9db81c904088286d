/-
# What can go wrong

Each constructor is a cause: a sink that refused, a binary geometry that cannot
be read, a setting out of range, a header that does not fit its blob. The
wording is in `Error.message`; a cause that has an inner one tells it in
`Error.cause?`.

Key definitions: `Error`, `Error.message`, `Error.cause?`.
-/
import LatLonText.Wkb.Error

namespace LatLonText

/-- Why a sink of bytes takes no more. -/
inductive WriteFault where
  /-- The reader at the other end is gone. -/
  | brokenPipe
  /-- The sink accepted none of the bytes offered. -/
  | wroteNothing
  /-- The sink's own words. -/
  | other (text : String)
deriving DecidableEq

/-- The wording of a refusal. -/
def WriteFault.message : WriteFault → String
  | brokenPipe => "broken pipe"
  | wroteNothing => "failed to write whole buffer"
  | other text => text

/-- A failure of this library. -/
inductive Error where
  /-- A sink of characters refused a part of the text. -/
  | textRefused
  /-- A sink of bytes refused a part of the text. -/
  | bytesRefused (fault : WriteFault)
  /-- A function cannot be replaced while a statement is being run. -/
  | functionsInUse
  /-- A binary geometry cannot be read. -/
  | invalidWkb (fault : Wkb.Error)
  /-- An output dimension is not 2, 3 or 4. -/
  | invalidDimension (dimension : UInt8)
  /-- An indent width is zero. -/
  | invalidIndentWidth (width : UInt64)
  /-- The flags of a geometry blob name no kind of envelope. -/
  | invalidEnvelope (flags : UInt8)
  /-- A geometry blob is too short for its header and envelope. -/
  | truncatedHeader (length minimum : Nat)
deriving DecidableEq

namespace Error

/-- A byte in two hexadecimal digits. -/
def hexByte (b : UInt8) : String :=
  String.ofList [Nat.digitChar (b.toNat / 16), Nat.digitChar (b.toNat % 16)]

/-- The wording of the cause inside a failure, where there is one. -/
def cause? : Error → Option String
  | textRefused => some "an error occurred when formatting an argument"
  | bytesRefused fault => some fault.message
  | functionsInUse => some "unable to delete/modify user-function due to active statements"
  | invalidWkb fault => some fault.message
  | _ => none

/-- What a failure says of itself, around the wording of its cause if it has one. -/
def describe (cause : String) : Error → String
  | textRefused => "failed to write wkt: " ++ cause
  | bytesRefused _ => "failed to write wkt: " ++ cause
  | functionsInUse => cause
  | invalidWkb _ => cause
  | invalidDimension dimension =>
    s!"invalid output dimension {dimension.toNat}: expected 2, 3 or 4"
  | invalidIndentWidth width => s!"invalid indent width {width.toNat}: must be positive"
  | invalidEnvelope flags => "invalid gpkg geometry flags: 0x" ++ hexByte flags
  | truncatedHeader length minimum =>
    s!"invalid gpkg geometry length: got {length} bytes, expected at least {minimum}"

/-- The wording of a failure. -/
def message (e : Error) : String :=
  e.describe (e.cause?.getD "")

end Error

end LatLonText
