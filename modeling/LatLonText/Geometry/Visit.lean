/-
# Visiting coordinates until done

A visitor carries a state through the coordinates of a geometry in document
order: the members of a collection one after the other, the exterior of a
polygon before its interiors. It may declare itself done, and is asked before
each sequence and after each coordinate; from then on nothing more is visited.

The visit tells along with the state whether it was broken off, which is what
stops the walk through the parts that would follow.

Key definitions: `Visitor`, `Visitor.sequence`, `Geometry.visit`.
-/
import LatLonText.Geometry.Basic

namespace LatLonText

/-- A state that coordinates are shown to, and when it has seen enough. -/
structure Visitor (σ : Type) where
  /-- Shows the coordinate at a position of a sequence. -/
  step : σ → List Coordinate → Nat → σ
  /-- Whether no further coordinate is wanted. -/
  done : σ → Bool

namespace Visitor

variable {σ : Type} (v : Visitor σ)

/-- Shows positions `i`, `i + 1`, ... of a sequence, as many as `rest` has coordinates. -/
def positions (all : List Coordinate) : (rest : List Coordinate) → (i : Nat) → σ → σ × Bool
  | [], _, s => (s, false)
  | _ :: rest, i, s =>
    let next := v.step s all i
    if v.done next then (next, true) else positions all rest (i + 1) next

/-- Shows a sequence from its start. -/
def sequence (coordinates : List Coordinate) (s : σ) : σ × Bool :=
  if v.done s then (s, true) else v.positions coordinates coordinates 0 s

/-- Goes through parts in order until a visit is broken off. -/
def parts {α : Type} (visit : α → σ → σ × Bool) : List α → σ → σ × Bool
  | [], s => (s, false)
  | a :: rest, s =>
    match visit a s with
    | (next, true) => (next, true)
    | (next, false) => parts visit rest next

/-- Shows the exterior and then the interiors. -/
def polygon (p : Polygon) (s : σ) : σ × Bool :=
  match v.sequence p.exterior s with
  | (next, true) => (next, true)
  | (next, false) => parts v.sequence p.interiors next

mutual

/-- Shows all coordinates of a geometry. -/
def geometry : Geometry → σ → σ × Bool
  | .point c, s => v.sequence c.toList s
  | .lineString cs, s => v.sequence cs s
  | .linearRing cs, s => v.sequence cs s
  | .polygon p, s => v.polygon p s
  | .multiPoint ps, s => parts (fun c => v.sequence c.toList) ps s
  | .multiLineString ls, s => parts v.sequence ls s
  | .multiPolygon ps, s => parts v.polygon ps s
  | .collection gs, s => members gs s

/-- Shows the members of a collection in order until a visit is broken off. -/
def members : List Geometry → σ → σ × Bool
  | [], s => (s, false)
  | g :: gs, s =>
    match geometry g s with
    | (next, true) => (next, true)
    | (next, false) => members gs next

end

end Visitor

/-- The state of a visitor after it has been through a geometry. -/
def Geometry.visit {σ : Type} (v : Visitor σ) (g : Geometry) (s : σ) : σ :=
  (v.geometry g s).1

end LatLonText
