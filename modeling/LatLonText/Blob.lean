/-
# Geometry blobs

A blob is either a binary geometry or one with a GeoPackage header in front: the
letters `GP`, a version, a byte of flags and a reference system id, then an
envelope whose size the flags tell. Of the header only the flags are looked at,
and of the envelope nothing.

Key definitions: `Blob.envelopeSize?`, `Blob.checkedPayload`, `Blob.payload`,
`Geometry.ofBlob`.
Key theorems: `Blob.isSome_checkedPayload`.
-/
import LatLonText.Error
import LatLonText.Wkb.Reader

namespace LatLonText

namespace Blob

/-- Bytes of the header in front of the envelope. -/
def headerSize : Nat := 8

/-- The size of the envelope that the flags announce. -/
def envelopeSize? (flags : UInt8) : Option Nat :=
  match flags.toNat / 2 % 8 with
  | 0 => some 0
  | 1 => some 32
  | 2 => some 48
  | 3 => some 48
  | 4 => some 64
  | _ => none

/-- Whether a blob begins with the letters of the header. -/
def hasHeader (bytes : List UInt8) : Bool :=
  bytes.take 2 == [0x47, 0x50]

/-- The bytes from `start` on, if `start` is within the blob. -/
def suffix? (bytes : List UInt8) (start : Nat) : Option (List UInt8) :=
  if start ≤ bytes.length then some (bytes.drop start) else none

/-- The binary geometry in a blob: all of it, or what follows header and envelope. There is no answer
at all when an access is outside of the blob. -/
def checkedPayload (bytes : List UInt8) : Option (Except Error (List UInt8)) :=
  if !hasHeader bytes then some (.ok bytes)
  else if bytes.length < headerSize then some (.error (.truncatedHeader bytes.length headerSize))
  else do
    let flags ← bytes[3]?
    match envelopeSize? flags with
    | none => some (.error (.invalidEnvelope flags))
    | some size =>
      if bytes.length < headerSize + size then
        some (.error (.truncatedHeader bytes.length (headerSize + size)))
      else (suffix? bytes (headerSize + size)).map .ok

/-- **No access is outside** of a blob: the flags are looked at behind the check that the header is
there, and the rest behind the check that header and envelope are. -/
theorem isSome_checkedPayload (bytes : List UInt8) : (checkedPayload bytes).isSome = true := by
  unfold checkedPayload
  split
  · rfl
  · split
    · rfl
    · rename_i hshort
      have hthree : 3 < bytes.length := Nat.lt_of_lt_of_le (by decide) (Nat.not_lt.mp hshort)
      rw [List.getElem?_eq_getElem hthree, Option.bind_eq_bind, Option.bind_some]
      split
      · rfl
      · split
        · rfl
        · rename_i hlong
          rw [suffix?, if_pos (Nat.not_lt.mp hlong)]
          rfl

/-- The binary geometry in a blob, or why there is none. -/
def payload (bytes : List UInt8) : Except Error (List UInt8) :=
  (checkedPayload bytes).get (isSome_checkedPayload bytes)

/-- The shape in a blob whose binary geometry is read by `read`. -/
def decodeWith (read : List UInt8 → Except Wkb.Error Shape) (bytes : List UInt8) :
    Except Error Shape := do
  (read (← payload bytes)).mapError .invalidWkb

end Blob

/-- The geometry in a blob whose binary geometry is read by `read`. -/
def Geometry.ofBlobWith (read : List UInt8 → Except Wkb.Error Shape) (bytes : List UInt8) :
    Except Error Geometry :=
  (Blob.decodeWith read bytes).map Shape.toGeometry

/-- The geometry in a blob. -/
def Geometry.ofBlob (bytes : List UInt8) : Except Error Geometry :=
  Geometry.ofBlobWith Wkb.read bytes

end LatLonText
