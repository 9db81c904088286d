/-
# Configurations and the settings they are built from

A configuration is what the writer needs to know. One is had from a preset, or
from settings: each `Setting` replaces one value of a `Settings` record, and
`Settings.build` checks the outcome, the dimension before the indent width.

Key definitions: `Config`, `Settings`, `Setting`, `Settings.build`,
`Config.sqlServer`, `Config.formatted`.
-/
import LatLonText.Dialect
import LatLonText.Error
import LatLonText.Ordinate.Text
import LatLonText.Ordinates

namespace LatLonText

/-- How geometries are written. -/
structure Config where
  /-- The ordinates asked for; those that no coordinate has are not written. -/
  ordinates : Ordinates
  /-- Whether the text is broken into indented lines. -/
  pretty : Bool
  /-- How many coordinates go on a line before it is wrapped; zero never wraps. -/
  perLine : UInt64
  /-- The blanks of one level of indentation. -/
  indentWidth : UInt64
  /-- How many digits of an ordinate are written. -/
  precision : Precision
  /-- The variant of the text. -/
  dialect : Dialect
deriving DecidableEq

namespace Config

/-- Two dimensions on one line, with all digits, in the standard dialect. -/
def default : Config := ⟨.xy, false, 0, 2, .floating, .standard⟩

instance : Inhabited Config := ⟨Config.default⟩

/-- Geography text of SQL Server with all four ordinates. -/
def sqlServer : Config :=
  { Config.default with ordinates := .xyzm, dialect := .sqlServer }

/-- The output dimension. -/
def dimension (c : Config) : UInt8 :=
  c.ordinates.dimension

/-- The same configuration with the text broken into lines. -/
def formatted (c : Config) : Config :=
  { c with pretty := true }

end Config

/-! ### Settings -/

/-- The values of a configuration before they are checked. -/
structure Settings where
  dimension : UInt8
  pretty : Bool
  perLine : UInt64
  indentWidth : UInt64
  precision : Precision
  dialect : Dialect
deriving DecidableEq

/-- One value to be set. -/
inductive Setting where
  | dimension (dimension : UInt8)
  | pretty (pretty : Bool)
  | perLine (count : UInt64)
  | indentWidth (width : UInt64)
  | precision (precision : Precision)
  | dialect (dialect : Dialect)
deriving DecidableEq

namespace Settings

/-- The settings that describe a configuration. -/
def ofConfig (c : Config) : Settings :=
  ⟨c.dimension, c.pretty, c.perLine, c.indentWidth, c.precision, c.dialect⟩

/-- The settings of the default configuration. -/
def default : Settings :=
  ofConfig Config.default

/-- Replaces the value that a setting names. -/
def set (s : Settings) : Setting → Settings
  | .dimension d => { s with dimension := d }
  | .pretty p => { s with pretty := p }
  | .perLine n => { s with perLine := n }
  | .indentWidth w => { s with indentWidth := w }
  | .precision p => { s with precision := p }
  | .dialect d => { s with dialect := d }

/-- Applies settings in order to the defaults; of two for one value the last counts. -/
def ofList (settings : List Setting) : Settings :=
  settings.foldl set Settings.default

/-- The configuration with these settings, if the dimension and the indent width are in range. -/
def build (s : Settings) : Except Error Config :=
  match Ordinates.ofDimension? s.dimension with
  | none => .error (.invalidDimension s.dimension)
  | some ordinates =>
    if s.indentWidth = 0 then .error (.invalidIndentWidth s.indentWidth)
    else .ok ⟨ordinates, s.pretty, s.perLine, s.indentWidth, s.precision, s.dialect⟩

end Settings

end LatLonText
