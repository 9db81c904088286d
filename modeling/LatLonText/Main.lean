/-
# The program

The outermost layer: it reads the input to its end, lets `CommandLine.run` decide
everything on an output that takes all bytes, and hands out these bytes, the error
text and the exit status.
-/
import LatLonText.CommandLine.Run

namespace LatLonText.CommandLine

/-- The bytes of a stream up to its end, behind those already read. -/
partial def readAll (stream : IO.FS.Stream) (read : ByteArray) : IO ByteArray := do
  let bytes ← stream.read 65536
  if bytes.isEmpty then return read else readAll stream (read ++ bytes)

end LatLonText.CommandLine

/-- Writes the geometries on the lines of the standard input with latitude first. -/
def main (arguments : List String) : IO UInt32 := do
  let input ← LatLonText.CommandLine.readAll (← IO.getStdin) ByteArray.empty
  let outcome := LatLonText.CommandLine.run arguments input.toList LatLonText.ByteStore.empty
  (← IO.getStdout).write ⟨outcome.output.bytes.content⟩
  match outcome.errorText LatLonText.Wkt.Error.message with
  | some text => (← IO.getStderr).putStr text
  | none => pure ()
  return outcome.exitCode
