/-
# A visit is a fold that may stop

The visitor sees the places of a geometry in document order, and nothing after
the first one that makes it done (`visit_eq_run`). The signal that a visit was
broken off is only ever given by a visitor that is done, and one that is done
changes no more; so what is skipped after the signal would have changed nothing
(`Runs`, `runs_parts`).

A visitor that looks at one coordinate at a time scans the coordinates of the
geometry (`visit_eq_scan`).

Key definitions: `Visitor.run`, `Geometry.places`, `Visitor.Runs`, `scanUntil`.
Key theorems: `Geometry.visit_eq_run`, `Geometry.visit_eq_scan`.
-/
import LatLonText.Geometry.Visit
import LatLonText.Proofs.Geometry

namespace LatLonText

/-- The places of a sequence, each as the sequence and a position. -/
def placesOf (cs : List Coordinate) : List (List Coordinate × Nat) :=
  (List.range' 0 cs.length).map (cs, ·)

/-- The places of a geometry in document order. -/
def Geometry.places (g : Geometry) : List (List Coordinate × Nat) :=
  g.sequences.flatMap placesOf

namespace Visitor

variable {σ : Type} (v : Visitor σ)

/-- Shows places one by one until the visitor is done. -/
def run : List (List Coordinate × Nat) → σ → σ
  | [], s => s
  | (cs, i) :: rest, s => if v.done s then s else run rest (v.step s cs i)

theorem run_of_done {s : σ} (h : v.done s = true) : ∀ places, v.run places s = s
  | [] => rfl
  | _ :: _ => if_pos h

theorem run_append : ∀ (ps qs : List (List Coordinate × Nat)) (s : σ),
    v.run (ps ++ qs) s = v.run qs (v.run ps s)
  | [], _, _ => rfl
  | (cs, i) :: ps, qs, s => by
    simp only [List.cons_append, run]
    by_cases h : v.done s = true
    · rw [if_pos h, if_pos h, v.run_of_done h]
    · rw [if_neg h, if_neg h]
      exact run_append ps qs _

/-- A visit that runs through places, and is broken off only by a visitor that is done. -/
def Runs (visit : σ → σ × Bool) (places : List (List Coordinate × Nat)) : Prop :=
  ∀ s, (visit s).1 = v.run places s ∧ ((visit s).2 = true → v.done (visit s).1 = true)

variable {v}

theorem runs_positions (all : List Coordinate) : ∀ (rest : List Coordinate) (i : Nat) (s : σ),
    ¬ v.done s = true →
    (v.positions all rest i s).1 = v.run ((List.range' i rest.length).map (all, ·)) s ∧
      ((v.positions all rest i s).2 = true → v.done (v.positions all rest i s).1 = true)
  | [], _, _, _ => ⟨rfl, fun h => by simp [positions] at h⟩
  | _ :: rest, i, s, hs => by
    simp only [positions, List.length_cons, List.range'_succ, List.map_cons, run, if_neg hs]
    by_cases h : v.done (v.step s all i) = true
    · rw [if_pos h, v.run_of_done h]
      exact ⟨rfl, fun _ => h⟩
    · rw [if_neg h]
      exact runs_positions all rest (i + 1) _ h

theorem runs_sequence (cs : List Coordinate) : v.Runs (v.sequence cs) (placesOf cs) := by
  intro s
  unfold sequence
  by_cases h : v.done s = true
  · rw [if_pos h, v.run_of_done h]
    exact ⟨rfl, fun _ => h⟩
  · rw [if_neg h]
    exact runs_positions cs cs 0 s h

theorem runs_parts {α : Type} {visit : α → σ → σ × Bool} {places : α → List (List Coordinate × Nat)} :
    ∀ {l : List α}, (∀ a ∈ l, v.Runs (visit a) (places a)) →
      v.Runs (parts visit l) (l.flatMap places)
  | [], _ => fun s => ⟨rfl, fun h => by simp [parts] at h⟩
  | a :: as, h => fun s => by
    obtain ⟨hrun, hdone⟩ := h a List.mem_cons_self s
    have hrest := runs_parts (l := as) fun b hb => h b (List.mem_cons_of_mem _ hb)
    rw [List.flatMap_cons, run_append, ← hrun]
    unfold parts
    rcases hv : visit a s with ⟨next, broken⟩
    rw [hv] at hdone
    cases broken with
    | true => exact ⟨(v.run_of_done (hdone rfl) _).symm, hdone⟩
    | false => exact hrest next

theorem runs_polygon (p : Polygon) : v.Runs (v.polygon p) (p.rings.flatMap placesOf) := by
  have h := runs_parts (l := p.rings) fun ring _ => runs_sequence (v := v) ring
  exact h

theorem members_eq_parts : ∀ (gs : List Geometry) (s : σ), v.members gs s = parts v.geometry gs s
  | [], _ => rfl
  | g :: gs, s => by
    rw [members, parts]
    rcases v.geometry g s with ⟨next, _ | _⟩
    · exact members_eq_parts gs next
    · rfl

/-- **A visit runs through the places of the geometry.** -/
theorem runs_geometry (g : Geometry) : v.Runs (v.geometry g) g.places := by
  have hsequence : ∀ cs, v.Runs (v.sequence cs) ([cs].flatMap placesOf) := fun cs => by
    rw [List.flatMap_singleton]
    exact runs_sequence cs
  induction g with
  | point c => exact hsequence c.toList
  | lineString cs => exact hsequence cs
  | linearRing cs => exact hsequence cs
  | polygon p => exact runs_polygon p
  | multiPoint ps =>
    have h := runs_parts (l := ps) fun c _ => runs_sequence (v := v) c.toList
    rwa [← List.flatMap_map] at h
  | multiLineString ls => exact runs_parts fun cs _ => runs_sequence cs
  | multiPolygon ps =>
    have h := runs_parts (l := ps) fun p _ => runs_polygon (v := v) p
    rwa [← List.flatMap_assoc] at h
  | collection gs ih =>
    have h := runs_parts ih
    unfold Geometry.places at h ⊢
    rw [Geometry.sequences_collection, List.flatMap_assoc]
    intro s
    rw [geometry, members_eq_parts]
    exact h s

end Visitor

/-- **A visit is a fold over the places that stops when the visitor is done.** -/
theorem Geometry.visit_eq_run {σ : Type} (v : Visitor σ) (g : Geometry) (s : σ) :
    g.visit v s = v.run g.places s :=
  (Visitor.runs_geometry g s).1

/-! ### Visitors of single coordinates -/

/-- Folds until done. -/
def scanUntil {σ α : Type} (done : σ → Bool) (f : σ → α → σ) : List α → σ → σ
  | [], s => s
  | a :: as, s => if done s then s else scanUntil done f as (f s a)

namespace Visitor

variable {σ : Type} {v : Visitor σ}

theorem run_places_eq_scan {f : σ → Coordinate → σ} (all : List Coordinate)
    (hf : ∀ s i c, all[i]? = some c → v.step s all i = f s c) :
    ∀ (rest : List Coordinate) (i : Nat) (more : List (List Coordinate × Nat))
      (later : List Coordinate) (s : σ), all.drop i = rest →
      (∀ t, v.run more t = scanUntil v.done f later t) →
      v.run ((List.range' i rest.length).map (all, ·) ++ more) s = scanUntil v.done f (rest ++ later) s
  | [], _, _, _, s, _, hmore => hmore s
  | c :: rest, i, more, later, s, hdrop, hmore => by
    have hc : all[i]? = some c := by
      have := congrArg (·[0]?) hdrop
      simpa using this
    have hrest : all.drop (i + 1) = rest := by
      rw [← List.drop_drop, hdrop]
      rfl
    simp only [List.length_cons, List.range'_succ, List.map_cons, List.cons_append, run, scanUntil]
    rw [hf s i c hc, run_places_eq_scan all hf rest (i + 1) more later _ hrest hmore]

/-- A visitor that looks at one coordinate at a time scans the coordinates. -/
theorem run_eq_scan {f : σ → Coordinate → σ}
    (hf : ∀ s cs i c, cs[i]? = some c → v.step s cs i = f s c) :
    ∀ (seqs : List (List Coordinate)) (s : σ),
      v.run (seqs.flatMap placesOf) s = scanUntil v.done f seqs.flatten s
  | [], _ => rfl
  | cs :: seqs, s => by
    rw [List.flatMap_cons, List.flatten_cons]
    exact run_places_eq_scan cs (fun s i c => hf s cs i c) cs 0 _ _ s rfl (run_eq_scan hf seqs)

end Visitor

/-- Such a visitor goes through the coordinates of a geometry until it is done. -/
theorem Geometry.visit_eq_scan {σ : Type} {v : Visitor σ} {f : σ → Coordinate → σ}
    (hf : ∀ s cs i c, cs[i]? = some c → v.step s cs i = f s c) (g : Geometry) (s : σ) :
    g.visit v s = scanUntil v.done f g.coordinates s := by
  rw [visit_eq_run, places, coordinates, Visitor.run_eq_scan hf]

end LatLonText
