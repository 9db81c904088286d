/-
# Dialects of the text

Dialects agree on writing Y before X. They differ in whether the ordinate token
follows a tag, in what is written for an absent Z, and in whether an M in the
text takes a Z slot with it.

Key definitions: `Dialect.standard`, `Dialect.sqlServer`.
-/
namespace LatLonText

/-- What may vary in the text besides layout and precision. -/
structure Dialect where
  /-- Whether the tag is followed by the token of its ordinates. -/
  writesToken : Bool
  /-- Whether Z is written wherever M is. -/
  mImpliesZ : Bool
  /-- What stands in the slot of an absent Z. -/
  missingMarker : String
deriving DecidableEq

namespace Dialect

/-- `POINT Z (lat lon z)`, with `NaN` for an absent Z. -/
def standard : Dialect := ⟨true, false, "NaN"⟩

/-- Geography text of SQL Server: no token, `NULL` for an absent Z, and no M without a Z slot. -/
def sqlServer : Dialect := ⟨false, true, "NULL"⟩

instance : Inhabited Dialect := ⟨standard⟩

end Dialect

end LatLonText
