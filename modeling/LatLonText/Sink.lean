/-
# Sinks

A sink of text takes text or refuses it, and does not tell why. A sink of bytes
takes some of the bytes that it is offered and tells how many, or gives a fault.
Nothing else is asked of either: a sink may refuse what it likes, and keep a part
of what it refuses.

Bytes are offered again and again until all are taken (`writeAll`); a sink that
takes none of them would never come to an end, and this is a fault of its own. As
a sink of text, a sink of bytes keeps aside the fault that a refusal cannot tell
(`Utf8Sink`).

Key definitions: `Action`, `TextSink`, `ByteSink`, `writeAll`, `Utf8Sink`, `Sink`, `ByteStore`.
Key theorems: `Action.run_bind`, `utf8_flatten`, `Sink.toList_content_push`.
-/
import LatLonText.Error

namespace LatLonText

/-- What is done to a state and may fail. What was done before a failure stays done. -/
abbrev Action (ε σ : Type) := ExceptT ε (StateM σ)

namespace Action

variable {ε δ σ α β : Type}

theorem ext {x y : Action ε σ α} (h : ∀ s, x.run.run s = y.run.run s) : x = y :=
  ExceptT.ext (StateT.ext h)

/-- What follows an action runs if that has not failed. -/
theorem run_bind (x : Action ε σ α) (f : α → Action ε σ β) (s : σ) :
    (x >>= f).run.run s =
      match x.run.run s with
      | (.ok a, next) => (f a).run.run next
      | (.error e, next) => (.error e, next) := by
  simp only [ExceptT.run_bind, StateT.run_bind]
  rcases x.run.run s with ⟨_ | _, next⟩ <;> rfl

theorem run_adapt (f : ε → δ) (x : Action ε σ α) (s : σ) :
    (x.adapt f).run.run s = ((x.run.run s).1.mapError f, (x.run.run s).2) := by
  rfl

end Action

/-- The refusal of a text. -/
inductive Refusal where
  | refused
deriving DecidableEq

/-- What can be written to a sink of text. -/
abbrev Writing (σ : Type) := Action Refusal σ

/-- What takes text. -/
class TextSink (σ : Type) where
  /-- Offers a text. -/
  put : List Char → Writing σ Unit

/-- What takes bytes. -/
class ByteSink (σ : Type) where
  /-- Offers bytes, and tells how many of them, from the first on, have been taken. -/
  write : List UInt8 → Action WriteFault σ Nat
  /-- Hands on what has been taken. -/
  flush : Action WriteFault σ Unit

/-- A string takes every text. -/
instance : TextSink String where
  put text := modify (· ++ String.ofList text)

/-! ### Text in sinks of bytes -/

/-- The bytes of a text. -/
def utf8 (text : List Char) : List UInt8 :=
  text.flatMap String.utf8EncodeChar

theorem utf8_append (a b : List Char) : utf8 (a ++ b) = utf8 a ++ utf8 b :=
  List.flatMap_append

theorem utf8_flatten : ∀ texts : List (List Char), utf8 texts.flatten = (texts.map utf8).flatten
  | [] => rfl
  | text :: texts => by
    rw [List.flatten_cons, utf8_append, utf8_flatten texts, List.map_cons, List.flatten_cons]

section Bytes

variable {σ : Type} [ByteSink σ]

/-- Offers bytes until all have been taken. -/
def writeAll : List UInt8 → Action WriteFault σ Unit
  | [] => return
  | b :: bytes => do
    match ← ByteSink.write (b :: bytes) with
    | 0 => throw .wroteNothing
    | n + 1 => writeAll (bytes.drop n)
termination_by bytes => bytes.length
decreasing_by
  rw [List.length_drop, List.length_cons]
  omega

/-- A sink of bytes as a sink of text, and the fault behind its last refusal. -/
structure Utf8Sink (σ : Type) where
  inner : σ
  fault : Option WriteFault

/-- Does something to the sink of bytes. A failure becomes a refusal, and its fault is kept. -/
def Utf8Sink.through (w : Action WriteFault σ Unit) : Writing (Utf8Sink σ) Unit :=
  ExceptT.mk fun s =>
    match w.run.run s.inner with
    | (.ok (), inner) => (.ok (), { s with inner })
    | (.error fault, inner) => (.error .refused, ⟨inner, some fault⟩)

/-- Text is put into a sink of bytes in UTF-8. -/
instance : TextSink (Utf8Sink σ) where
  put text := Utf8Sink.through (writeAll (utf8 text))

end Bytes

/-! ### Sinks with a limit -/

/-- A sink that takes units up to a limit. -/
structure Sink (α : Type) where
  /-- What the sink has taken. -/
  content : Array α
  /-- How many more units it takes; `none` if there is no limit. -/
  room : Option Nat

namespace Sink

variable {α : Type}

/-- How many of so many units the sink takes. -/
def capacity (s : Sink α) (count : Nat) : Nat :=
  match s.room with
  | none => count
  | some n => min count n

/-- The sink after it has taken units that fit. -/
def push (s : Sink α) (units : List α) : Sink α :=
  ⟨s.content ++ units.toArray, s.room.map (· - units.length)⟩

theorem toList_content_push (s : Sink α) (units : List α) :
    (s.push units).content.toList = s.content.toList ++ units := by
  simp [push]

end Sink

/-- A full sink of characters takes those that fit and refuses the text. -/
instance : TextSink (Sink Char) where
  put text := ExceptT.mk fun s =>
    let taken := s.capacity text.length
    (if taken = text.length then .ok () else .error .refused, s.push (text.take taken))

/-- What a full sink of bytes answers to further bytes. -/
inductive WhenFull where
  | fails (fault : WriteFault)
  | takesNothing

/-- A sink of bytes that takes all that fits. -/
structure ByteStore where
  bytes : Sink UInt8
  whenFull : WhenFull

/-- A store without limit that holds nothing. -/
def ByteStore.empty : ByteStore := ⟨⟨#[], none⟩, .takesNothing⟩

/-- Only a call that finds no room for any byte tells that the store is full. -/
instance : ByteSink ByteStore where
  write bytes := ExceptT.mk fun s =>
    let taken := s.bytes.capacity bytes.length
    if taken = 0 && !bytes.isEmpty then
      match s.whenFull with
      | .fails fault => (.error fault, s)
      | .takesNothing => (.ok 0, s)
    else (.ok taken, { s with bytes := s.bytes.push (bytes.take taken) })
  flush := pure ()

end LatLonText
