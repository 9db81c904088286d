/-
# One geometry a line

The program reads one geometry from each line that is not blank and writes its
latitude-first text on a line of its own. It stops at the first line that it cannot
read, or when its output takes no more; what was written for the lines before it
stands. Lines are counted from one, blank lines too. The text of a geometry is put
together in one string that serves for all lines, so it is cleared before each.

Key definitions: `CommandLine.Session`, `CommandLine.processLine`,
`CommandLine.processFrom`, `CommandLine.lines`, `CommandLine.runWith`,
`CommandLine.run`.
-/
import LatLonText.CommandLine.Arguments
import LatLonText.Text.Blank
import LatLonText.Text.Printer
import LatLonText.Wkt.Reader

namespace LatLonText.CommandLine

/-- Why the program stops. -/
inductive Failure (ε : Type) where
  | arguments (fault : ArgumentFault)
  /-- The geometry on a line cannot be read. -/
  | line (number : Nat) (fault : ε)
  /-- The bytes of a line are not UTF-8. -/
  | notUtf8
  /-- The text of a geometry cannot be put together. -/
  | text (fault : Error)
  /-- The output takes no more. -/
  | output (fault : WriteFault)

/-- The wording of a failure. -/
def Failure.message {ε : Type} (describe : ε → String) : Failure ε → String
  | arguments fault => fault.message
  | line number fault => s!"line {number}: " ++ describe fault
  | notUtf8 => "stream did not contain valid UTF-8"
  | text fault => fault.message
  | output fault => fault.message

/-- The output when the program has ended, and why it stopped if it did not come to the end. -/
structure Outcome (ε σ : Type) where
  output : σ
  failure : Option (Failure ε)

namespace Outcome

variable {ε σ : Type}

/-- The status that the program ends with. -/
def exitCode (o : Outcome ε σ) : UInt32 :=
  if o.failure.isSome then 1 else 0

/-- What goes to the error output: nothing, or one message. -/
def errorText (describe : ε → String) (o : Outcome ε σ) : Option String :=
  o.failure.map fun f => "to_geography_wkt failed: " ++ f.message describe ++ "\n"

end Outcome

/-! ### Lines -/

/-- What the program goes on with from line to line. -/
structure Session (σ : Type) where
  output : σ
  /-- The text of the geometry that was read last. -/
  text : String

namespace Session

variable {ε σ : Type}

/-- Forgets the text. -/
def clear (s : Session σ) : Session σ :=
  { s with text := "" }

/-- Does something to the text. -/
def onText (w : Action Error String Unit) : Action (Failure ε) (Session σ) Unit :=
  ExceptT.mk fun s =>
    let (outcome, text) := w.run.run s.text
    (outcome.mapError .text, { s with text })

/-- Does something to the output. -/
def onOutput (w : Action WriteFault σ Unit) : Action (Failure ε) (Session σ) Unit :=
  ExceptT.mk fun s =>
    let (outcome, output) := w.run.run s.output
    (outcome.mapError .output, { s with output })

end Session

section Lines

variable {ε σ : Type} [ByteSink σ] (read : List Char → Except ε Shape) (config : Config)

/-- Writes a text and ends the line. -/
def writeLine (text : String) : Action WriteFault σ Unit := do
  writeAll (utf8 text.toList)
  writeAll (utf8 ['\n'])

/-- Writes the geometry of a shape on a line of its own. -/
def writeShape (shape : Shape) : Action (Failure ε) (Session σ) Unit := do
  modify Session.clear
  Session.onText (config.writeInto shape.toGeometry)
  Session.onOutput (writeLine (← get).text)

/-- Processes the line with a number. -/
def processLine (number : Nat) (line : List Char) : Action (Failure ε) (Session σ) Unit := do
  let line := trimBlanks line
  if line.isEmpty then return
  match read line with
  | .error fault => throw (.line number fault)
  | .ok shape => writeShape config shape

/-- Processes lines, the first of which has the given number. A line that is not UTF-8 is `none`. -/
def processFrom (number : Nat) : List (Option (List Char)) → Action (Failure ε) (Session σ) Unit
  | [] => Session.onOutput ByteSink.flush
  | none :: _ => throw .notUtf8
  | some line :: rest => do
    processLine read config number line
    processFrom (number + 1) rest

/-- Processes all lines. -/
def process (lines : List (Option (List Char))) (output : σ) : Outcome ε σ :=
  match (processFrom read config 1 lines).run.run ⟨output, ""⟩ with
  | (.ok (), session) => ⟨session.output, none⟩
  | (.error failure, session) => ⟨session.output, some failure⟩

end Lines

/-- The lines of an input behind a line that has begun, whose bytes are in reverse. -/
def byteLinesAfter : (line : List UInt8) → List UInt8 → List (List UInt8)
  | [], [] => []
  | line, [] => [line.reverse]
  | line, b :: bytes =>
    if b = 10 then line.reverse :: byteLinesAfter [] bytes else byteLinesAfter (b :: line) bytes

/-- The lines of an input, each `none` if it is not UTF-8. -/
def lines (input : List UInt8) : List (Option (List Char)) :=
  (byteLinesAfter [] input).map fun bytes =>
    (String.fromUTF8? ⟨bytes.toArray⟩).map String.toList

section Run

variable {σ : Type} [ByteSink σ]

/-- Runs the program on its arguments, the bytes of its input and its output, with `read` for the
geometry on a line. Arguments are read before any input. -/
def runWith {ε : Type} (read : List Char → Except ε Shape) (arguments : List String)
    (input : List UInt8) (output : σ) : Outcome ε σ :=
  match Arguments.config arguments with
  | .error fault => ⟨output, some (.arguments fault)⟩
  | .ok config => process read config (lines input) output

/-- Runs the program on lines of well-known text. -/
def run (arguments : List String) (input : List UInt8) (output : σ) : Outcome Wkt.Error σ :=
  runWith Wkt.read arguments input output

end Run

end LatLonText.CommandLine
