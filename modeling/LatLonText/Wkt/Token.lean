/-
# The tokens of well-known text

Text falls into parentheses, commas, and the runs of characters between them
and blanks. A run that starts like a number is one, and must then read as a
number as a whole; any other is a word. A NUL character is a token by itself, at
which a reader finds nothing, as at the end of the text; behind it the tokens go
on.

Key definitions: `Wkt.Token`, `Wkt.Token.ofRun`, `Wkt.tokens`.
-/
import LatLonText.Ordinate.Basic

namespace LatLonText.Wkt

/-- A token of the text. -/
inductive Token where
  | opening
  | closing
  | comma
  | number (value : Ordinate)
  /-- A run that starts like a number and is none. -/
  | badNumber
  | word (letters : List Char)
  /-- A NUL character. -/
  | null

/-- The characters between tokens. -/
def isSpace (c : Char) : Bool :=
  c == ' ' || c == '\t' || c == '\n' || c == '\r'

/-- The token that a character is by itself. -/
def Token.ofMark? : Char → Option Token
  | '(' => some .opening
  | ')' => some .closing
  | ',' => some .comma
  | '\x00' => some .null
  | _ => none

/-- Whether a run with this first character is a number. -/
def startsNumber (c : Char) : Bool :=
  c == '.' || c == '-' || c == '+' || c.isDigit

/-- The number in a run, of which one plus sign in front does not count. -/
def Token.ofNumber (run : List Char) : Token :=
  let digits :=
    match run with
    | '+' :: rest => rest
    | _ => run
  match Literal.read digits with
  | some literal => .number (.ofLiteral literal)
  | none => .badNumber

/-- The token of a run of characters, none if it is empty. -/
def Token.ofRun : List Char → List Token
  | [] => []
  | c :: rest => if startsNumber c then [.ofNumber (c :: rest)] else [.word (c :: rest)]

/-- The tokens of a text behind a run that has begun; its characters are in reverse. -/
def tokensAfter : (run : List Char) → List Char → List Token
  | run, [] => Token.ofRun run.reverse
  | run, c :: cs =>
    if isSpace c then Token.ofRun run.reverse ++ tokensAfter [] cs
    else
      match Token.ofMark? c with
      | some mark => Token.ofRun run.reverse ++ mark :: tokensAfter [] cs
      | none => tokensAfter (c :: run) cs

/-- The tokens of a text. -/
def tokens (text : List Char) : List Token :=
  tokensAfter [] text

end LatLonText.Wkt
