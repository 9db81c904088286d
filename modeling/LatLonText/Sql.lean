/-
# Functions for a database

A database finds a function by its name, apart from case, and by the count of its
arguments. `ST_AsGeographyText` and `ST_AsSqlServerText` are three functions, for the
first is there with one argument and with two. They write the geometry in a blob,
`ST_AsGeographyText` in the default configuration or in a given dimension. The
dimension is looked at before the geometry, so a NULL geometry gives NULL only where
the dimension is in order.

Key definitions: `Sql.Value`, `Sql.Function`, `Sql.textFunctions`, `Sql.Database.create`,
`Sql.Database.register`, `Sql.Database.callWith`, `Sql.Database.call`.
-/
import LatLonText.Blob
import LatLonText.Text.Printer

namespace LatLonText.Sql

/-- A value of the database. -/
inductive Value where
  | null
  | integer (n : Int)
  | real (v : Ordinate)
  | text (s : String)
  | blob (bytes : List UInt8)

/-- The types of values. -/
inductive ValueType where
  | null
  | integer
  | real
  | text
  | blob
deriving DecidableEq

/-- The name of a type in messages. -/
def ValueType.name : ValueType → String
  | null => "Null"
  | integer => "Integer"
  | real => "Real"
  | text => "Text"
  | blob => "Blob"

/-- The type of a value. A real that is no number is kept as NULL. -/
def Value.type : Value → ValueType
  | null => .null
  | integer _ => .integer
  | real v => if v.isNaN then .null else .real
  | text _ => .text
  | blob _ => .blob

/-- Why a call has no result. -/
inductive Failure where
  | noSuchFunction (name : String)
  | wrongArgumentCount (name : String)
  /-- An argument has a wrong type: the type reported and its place, counted from zero. -/
  | parameterType (type : ValueType) (index : Nat)
  /-- The function itself failed. -/
  | rejected (fault : Error)
deriving DecidableEq

/-- The wording of a failure. -/
def Failure.message : Failure → String
  | noSuchFunction name => "no such function: " ++ name
  | wrongArgumentCount name => "wrong number of arguments to function " ++ name ++ "()"
  | parameterType type index => s!"Invalid function parameter type {type.name} at index {index}"
  | rejected fault => fault.message

/-! ### The functions -/

/-- The text of the geometry in a value, NULL if there is none. The binary geometry in a blob is read
by `read`. -/
def geometryText (read : List UInt8 → Except Wkb.Error Shape) (c : Config) (g : Value) :
    Except Failure (Option String) :=
  match g with
  | .blob bytes => do
    let geometry ← (Geometry.ofBlobWith read bytes).mapError .rejected
    let text ← (c.writeText geometry).mapError .rejected
    return some text
  | other =>
    if other.type = .null then .ok none else .error (.parameterType .blob 0)

/-- A whole number as a dimension; one that is out of the range of dimensions counts as the last
of the range, which is none that is accepted. -/
def dimensionOf (n : Int) : UInt8 :=
  if 0 ≤ n && n ≤ 255 then UInt8.ofNat n.toNat else 255

/-- The configuration for a dimension given as a value. -/
def configFor (dimension : Value) : Except Failure Config :=
  match dimension with
  | .integer n =>
    match (Settings.ofList [.dimension (dimensionOf n)]).build with
    | .ok c => .ok c
    | .error fault => .error (.rejected fault)
  | other => .error (.parameterType other.type 1)

/-- Whether a name is called, apart from case. -/
def isNamed (name : String) (called : String) : Bool :=
  called.toList.map Char.toLower == name.toList.map Char.toLower

/-- A function of a database. -/
structure Function where
  name : String
  /-- How many arguments the function takes. -/
  arity : Nat
  /-- What the function answers, with `read` for binary geometries. -/
  answer : (read : List UInt8 → Except Wkb.Error Shape) → Vector Value arity →
    Except Failure (Option String)

namespace Function

/-- The function with one argument that writes a geometry in a configuration. -/
def ofConfig (name : String) (c : Config) : Function where
  name
  arity := 1
  answer read arguments := geometryText read c arguments[0]

/-- The function that writes a geometry in a dimension. -/
def geographyTextIn : Function where
  name := "ST_AsGeographyText"
  arity := 2
  answer read arguments := do geometryText read (← configFor arguments[1]) arguments[0]

/-- Whether a call by a name with so many arguments is one of the function. -/
def isFor (f : Function) (name : String) (count : Nat) : Bool :=
  isNamed f.name name && f.arity == count

/-- What the function answers to a call, if it is one of the function. -/
def answer? (f : Function) (read : List UInt8 → Except Wkb.Error Shape) (name : String)
    (arguments : List Value) : Option (Except Failure (Option String)) :=
  if h : f.isFor name arguments.length = true then
    have hsize : arguments.toArray.size = f.arity :=
      (beq_iff_eq.mp (Bool.and_eq_true_iff.mp h).2).symm
    some (f.answer read ⟨arguments.toArray, hsize⟩)
  else none

end Function

/-- The functions, in the order in which they are registered. -/
def textFunctions : List Function :=
  [.ofConfig "ST_AsGeographyText" .default, .geographyTextIn,
    .ofConfig "ST_AsSqlServerText" .sqlServer]

/-! ### Databases -/

/-- A database, as far as its functions are concerned. -/
structure Database where
  functions : List Function
  /-- Whether a statement is being run. -/
  active : Bool

namespace Database

/-- The database with a function, in place of one of the same name and count of arguments. -/
def put (db : Database) (f : Function) : Database :=
  { db with functions := f :: db.functions.filter fun e => !e.isFor f.name f.arity }

/-- Creates a function. None is replaced while a statement is being run. -/
def create (f : Function) : Action Error Database Unit :=
  ExceptT.mk fun db =>
    if db.active && db.functions.any (·.isFor f.name f.arity) then (.error .functionsInUse, db)
    else (.ok (), db.put f)

/-- Registers the functions. -/
def register : Action Error Database Unit :=
  textFunctions.forM create

/-- What is answered to a call, if there is a function for it. -/
def answer? (db : Database) (read : List UInt8 → Except Wkb.Error Shape) (name : String)
    (arguments : List Value) : Option (Except Failure (Option String)) :=
  db.functions.findSome? fun f => f.answer? read name arguments

/-- The result of a call, with `read` for binary geometries. -/
def callWith (db : Database) (read : List UInt8 → Except Wkb.Error Shape) (name : String)
    (arguments : List Value) : Except Failure (Option String) :=
  match db.answer? read name arguments with
  | some answer => answer
  | none =>
    if db.functions.any fun f => isNamed f.name name then .error (.wrongArgumentCount name)
    else .error (.noSuchFunction name)

/-- The result of a call. -/
def call (db : Database) (name : String) (arguments : List Value) :
    Except Failure (Option String) :=
  db.callWith Wkb.read name arguments

end Database

end LatLonText.Sql
