/-
# The first pieces of parts

A part of a geometry stands at the end of an index path: the positions of the
members, rings, lines and coordinates that lead to it (`Part.at?`). The text of
a geometry is a list of pieces, some of which are the first of a part and marked
with its site (`Part.marks`). Marks know no layout and no level.

Every index path that leads to a part has one site, the sites come in document
order, and a site is marked at the piece that its part begins with.

Key definitions: `Part`, `Part.at?`, `Part.marks`, `Part.head`.
Key theorems: `Part.induction`, `Part.mem_sites_iff`, `Part.pairwise_sites`,
`Part.fits_of_mem_marks`.
-/
import LatLonText.Proofs.DocumentOrder
import LatLonText.Text.Piece

namespace LatLonText

/-! ### Lists by position -/

section Positions

variable {α β γ : Type}

theorem mapIdx_map (f : α → β) (g : Nat → β → γ) (l : List α) :
    (l.map f).mapIdx g = l.mapIdx fun i a => g i (f a) :=
  List.ext_getElem? fun i => by simp [Function.comp_def]

theorem map_mapIdx (f : β → γ) (g : Nat → α → β) (l : List α) :
    (l.mapIdx g).map f = l.mapIdx fun i a => f (g i a) :=
  List.ext_getElem? fun i => by simp [Function.comp_def]

theorem mapIdx_const (f : α → β) (l : List α) : (l.mapIdx fun _ a => f a) = l.map f :=
  List.ext_getElem? fun i => by simp

end Positions

/-! ### Parts by index path -/

/-- A part of a geometry, down to its coordinates. -/
inductive Part where
  | component (component : Component)
  | coordinate (coordinate : Coordinate)

namespace Part

/-- The parts of a part that are written: coordinates, rings or members. The rings of an empty
polygon are not written. -/
def parts : Part → List Part
  | coordinate _ => []
  | component c =>
    match c.coordinates? with
    | some cs => cs.map coordinate
    | none => if c.isEmpty then [] else c.parts.map component

/-- The part that an index path leads to. -/
def at? : Part → List Nat → Option Part
  | p, [] => some p
  | p, i :: path => p.parts[i]?.bind fun q => q.at? path

/-- The length that index paths may have. -/
def height : Part → Nat
  | coordinate _ => 0
  | component c => c.height + 1

theorem parts_of_coordinates {c : Component} {cs : List Coordinate}
    (h : c.coordinates? = some cs) : (component c).parts = cs.map coordinate := by
  rw [parts, h]

theorem parts_of_none {c : Component} (h : c.coordinates? = none) :
    (component c).parts = if c.isEmpty then [] else c.parts.map component := by
  rw [parts, h]

/-- The members of a collection or multi geometry are all written. -/
theorem parts_of_members {α : Type} {c : Component} {as : List α} {image : α → Component}
    (h : c.coordinates? = none) (hempty : c.isEmpty = as.isEmpty)
    (hparts : c.parts = as.map image) :
    (component c).parts = as.map fun a => component (image a) := by
  rw [parts_of_none h, hempty, hparts, List.map_map]
  cases as <;> rfl

theorem height_lt_of_mem_parts {p q : Part} (h : q ∈ p.parts) : q.height < p.height := by
  cases p with
  | coordinate c => nomatch h
  | component c =>
    cases hcs : c.coordinates? with
    | some cs =>
      rw [parts_of_coordinates hcs] at h
      obtain ⟨c, _, rfl⟩ := List.mem_map.mp h
      exact Nat.succ_pos _
    | none =>
      rw [parts_of_none hcs] at h
      by_cases hempty : c.isEmpty = true
      · rw [if_pos hempty] at h
        nomatch h
      · rw [if_neg hempty] at h
        obtain ⟨d, hd, rfl⟩ := List.mem_map.mp h
        exact Nat.succ_lt_succ (Component.height_lt_of_mem_parts hd)

/-- What holds of a part if it holds of its parts, holds of all. -/
@[elab_as_elim]
theorem induction {motive : Part → Prop} (step : ∀ p, (∀ q ∈ p.parts, motive q) → motive p)
    (p : Part) : motive p :=
  step p fun q _ => induction step q
termination_by p.height
decreasing_by exact height_lt_of_mem_parts ‹_›

/-- A part is a coordinate, a geometry or another component. -/
@[elab_as_elim]
theorem casesGeometry {motive : Part → Prop} (coordinate : ∀ c, motive (.coordinate c))
    (geometry : ∀ g, motive (.component (.geometry g)))
    (component : ∀ c, (∀ g, c ≠ .geometry g) → motive (.component c)) (p : Part) : motive p := by
  cases p with
  | coordinate c => exact coordinate c
  | component c =>
    cases c with
    | geometry g => exact geometry g
    | _ => exact component _ nofun

theorem length_le_of_at? : ∀ {path : List Nat} {p q : Part}, p.at? path = some q →
    path.length ≤ p.height
  | [], p, _, _ => Nat.zero_le _
  | i :: path, p, q, h => by
    obtain ⟨r, hr, hq⟩ := Option.bind_eq_some_iff.mp h
    have hlt := height_lt_of_mem_parts (List.mem_of_getElem? hr)
    have hlength := length_le_of_at? hq
    rw [List.length_cons]
    omega

end Part

/-! ### Marked pieces -/

/-- A part at the end of an index path. -/
structure Site where
  path : List Nat
  part : Part

/-- A piece of a text, and the site it is the first piece of. -/
structure Mark where
  site : Option Site
  piece : Piece

namespace Mark

/-- Parts in parentheses with commas between them, the first piece marked with a site. -/
def group (site : Option Site) : List (List Mark) → List Mark
  | [] => [⟨site, .empty⟩]
  | m :: ms => ⟨site, .opening⟩ :: m ++ ms.flatMap (⟨none, .separator⟩ :: ·) ++ [⟨none, .closing⟩]

end Mark

namespace Part

section Marks

variable (slots : Coordinate → List Slot) (token : List Piece)

/-- The piece that a part begins with. -/
def head : Part → Piece
  | coordinate c => .coordinate (slots c)
  | component (.geometry g) => .tag g.kind
  | component c => if (component c).parts.isEmpty then .empty else .opening

/-- The marks of a part at a site, around those of its parts. -/
def enclose (site : Site) (inner : List (List Mark)) : List Mark :=
  match site.part with
  | .coordinate c => [⟨some site, .coordinate (slots c)⟩]
  | .component (.geometry g) =>
    ⟨some site, .tag g.kind⟩ :: token.map (⟨none, ·⟩) ++ Mark.group none inner
  | .component _ => Mark.group (some site) inner

/-- The pieces of a part at the end of an index path, each first piece of a part marked. -/
def marks (path : List Nat) (p : Part) : List Mark :=
  enclose slots token ⟨path, p⟩ (p.parts.attach.mapIdx fun i q => q.1.marks (path ++ [i]))
termination_by p.height
decreasing_by exact height_lt_of_mem_parts q.2

variable {slots token} {path : List Nat} {inner : List (List Mark)}

theorem head_component {c : Component} (hc : ∀ g, c ≠ .geometry g) :
    (component c).head slots = if (component c).parts.isEmpty then .empty else .opening := by
  cases c with
  | geometry g => exact absurd rfl (hc g)
  | _ => rfl

theorem enclose_coordinate (c : Coordinate) :
    enclose slots token ⟨path, coordinate c⟩ inner =
      [⟨some ⟨path, coordinate c⟩, .coordinate (slots c)⟩] := rfl

theorem enclose_geometry (g : Geometry) :
    enclose slots token ⟨path, component (.geometry g)⟩ inner =
      ⟨some ⟨path, component (.geometry g)⟩, .tag g.kind⟩ :: token.map (⟨none, ·⟩) ++
        Mark.group none inner := rfl

theorem enclose_component {c : Component} (hc : ∀ g, c ≠ .geometry g) :
    enclose slots token ⟨path, component c⟩ inner =
      Mark.group (some ⟨path, component c⟩) inner := by
  cases c with
  | geometry g => exact absurd rfl (hc g)
  | _ => rfl

theorem marks_eq (path : List Nat) (p : Part) :
    p.marks slots token path = enclose slots token ⟨path, p⟩
      (p.parts.mapIdx fun i q => q.marks slots token (path ++ [i])) := by
  have h := mapIdx_map (Subtype.val : { q // q ∈ p.parts } → Part)
    (fun i q => q.marks slots token (path ++ [i])) p.parts.attach
  rw [List.attach_map_subtype_val] at h
  rw [marks, h]

end Marks

end Part

/-! ### Sites -/

namespace Mark

theorem filterMap_site_group (site : Option Site) (ms : List (List Mark)) :
    (group site ms).filterMap Mark.site =
      site.toList ++ (ms.map (List.filterMap Mark.site)).flatten := by
  have hlater : ∀ ms : List (List Mark),
      (ms.flatMap (⟨none, .separator⟩ :: ·)).filterMap Mark.site =
        (ms.map (List.filterMap Mark.site)).flatten := fun ms => by
    induction ms with
    | nil => rfl
    | cons m ms ih => simp [List.filterMap_append, ih]
  cases ms with
  | nil => cases site <;> rfl
  | cons m ms =>
    cases site <;> simp [group, List.filterMap_append, hlater]

end Mark

namespace Part

variable {slots : Coordinate → List Slot} {token : List Piece}

/-- The sites in the marks of a part: its own, and behind it those of its parts. -/
theorem sites_eq (path : List Nat) (p : Part) : (p.marks slots token path).filterMap Mark.site =
    ⟨path, p⟩ :: (p.parts.mapIdx fun i q =>
      (q.marks slots token (path ++ [i])).filterMap Mark.site).flatten := by
  rw [marks_eq]
  cases p using casesGeometry with
  | coordinate c => rfl
  | geometry g =>
    have htoken : (token.map fun p => (⟨none, p⟩ : Mark)).filterMap Mark.site = [] := by
      simp
    rw [enclose_geometry, List.cons_append, List.filterMap_cons, List.filterMap_append, htoken,
      Mark.filterMap_site_group, map_mapIdx]
    rfl
  | component c hc =>
    rw [enclose_component hc, Mark.filterMap_site_group, map_mapIdx]
    rfl

/-- **The sites are the ends of the index paths.** -/
theorem mem_sites_iff (p : Part) : ∀ (path : List Nat) (site : Site),
    site ∈ (p.marks slots token path).filterMap Mark.site ↔
      ∃ later, site.path = path ++ later ∧ p.at? later = some site.part := by
  induction p using Part.induction with
  | step p ih =>
    intro path site
    rw [sites_eq, List.mem_cons, List.mem_flatten]
    constructor
    · rintro (rfl | ⟨sites, hsites, hsite⟩)
      · exact ⟨[], (List.append_nil path).symm, rfl⟩
      · obtain ⟨i, hi, rfl⟩ := List.mem_mapIdx.mp hsites
        obtain ⟨later, hpath, hpart⟩ := (ih _ (List.getElem_mem hi) _ site).mp hsite
        refine ⟨i :: later, by rw [hpath, List.append_assoc, List.singleton_append], ?_⟩
        rw [at?, List.getElem?_eq_getElem hi, Option.bind_some, hpart]
    · rintro ⟨later, hpath, hpart⟩
      cases later with
      | nil =>
        obtain ⟨sitePath, part⟩ := site
        left
        rw [List.append_nil] at hpath
        cases hpath
        cases hpart
        rfl
      | cons i later =>
        right
        obtain ⟨q, hq, hpart⟩ := Option.bind_eq_some_iff.mp hpart
        obtain ⟨hi, rfl⟩ := List.getElem?_eq_some_iff.mp hq
        refine ⟨_, List.mem_mapIdx.mpr ⟨i, hi, rfl⟩, ?_⟩
        refine (ih _ (List.getElem_mem hi) _ site).mpr ⟨later, ?_, hpart⟩
        rw [hpath, List.append_assoc, List.singleton_append]

/-- **The sites come in document order**, each once. -/
theorem pairwise_sites (p : Part) : ∀ path : List Nat,
    ((p.marks slots token path).filterMap Mark.site).Pairwise fun s t => s.path < t.path := by
  have hlt : ∀ (path : List Nat) (i : Nat) (later : List Nat), path < path ++ i :: later :=
    fun path i later => by induction path <;> simp_all
  induction p using Part.induction with
  | step p ih =>
    intro path
    have hlater : ∀ {i : Nat} {q : Part} {site : Site},
        site ∈ (q.marks slots token (path ++ [i])).filterMap Mark.site →
          ∃ later, site.path = path ++ i :: later := fun {i q site} hsite => by
      obtain ⟨later, hpath, _⟩ := (q.mem_sites_iff _ site).mp hsite
      exact ⟨later, by rw [hpath, List.append_assoc, List.singleton_append]⟩
    rw [sites_eq, List.pairwise_cons, List.pairwise_flatten, List.pairwise_iff_getElem]
    refine ⟨?_, ?_, ?_⟩
    · intro site hsite
      obtain ⟨sites, hsites, hsite⟩ := List.mem_flatten.mp hsite
      obtain ⟨i, hi, rfl⟩ := List.mem_mapIdx.mp hsites
      obtain ⟨later, hpath⟩ := hlater hsite
      rw [hpath]
      exact hlt path i later
    · intro sites hsites
      obtain ⟨i, hi, rfl⟩ := List.mem_mapIdx.mp hsites
      exact ih _ (List.getElem_mem hi) _
    · intro i j hi hj hij s hs t ht
      rw [List.getElem_mapIdx] at hs ht
      obtain ⟨_, hs⟩ := hlater hs
      obtain ⟨_, ht⟩ := hlater ht
      rw [hs, ht]
      exact List.append_left_lt (List.cons_lt_cons_iff.mpr (.inl hij))

end Part

/-! ### First pieces -/

/-- Whether a mark is the first piece of the part at its site, or another piece: one of a token, or
one that groups parts. -/
def Mark.Fits (slots : Coordinate → List Slot) (token : List Piece) (m : Mark) : Prop :=
  (∃ site : Site, m = ⟨some site, site.part.head slots⟩) ∨
    m.site = none ∧ m.piece ∈ token ++ [.empty, .opening, .separator, .closing]

namespace Part

variable {slots : Coordinate → List Slot} {token : List Piece}

theorem fits_of_mem_group {site : Option Site} {ms : List (List Mark)}
    (hfirst : Mark.Fits slots token ⟨site, if ms.isEmpty then .empty else .opening⟩)
    (h : ∀ m ∈ ms, ∀ x ∈ m, Mark.Fits slots token x) :
    ∀ x ∈ Mark.group site ms, Mark.Fits slots token x := by
  have hother : ∀ p ∈ [Piece.separator, .closing], Mark.Fits slots token ⟨none, p⟩ := fun p hp =>
    .inr ⟨rfl, List.mem_append_right _ (List.mem_cons_of_mem _ (List.mem_cons_of_mem _ hp))⟩
  cases ms with
  | nil => exact List.forall_mem_singleton.mpr hfirst
  | cons m ms =>
    obtain ⟨hm, hms⟩ := List.forall_mem_cons.mp h
    intro x hx
    simp only [Mark.group, List.cons_append, List.mem_cons, List.mem_append, List.mem_flatMap,
      List.not_mem_nil, or_false] at hx
    rcases hx with rfl | ((hx | ⟨later, hlater, rfl | hx⟩) | rfl)
    · exact hfirst
    · exact hm x hx
    · exact hother _ List.mem_cons_self
    · exact hms later hlater x hx
    · exact hother _ (List.mem_cons_of_mem _ List.mem_cons_self)

/-- **Each site is marked at the first piece of its part.** -/
theorem fits_of_mem_marks (p : Part) : ∀ (path : List Nat), ∀ m ∈ p.marks slots token path,
    m.Fits slots token := by
  induction p using Part.induction with
  | step p ih =>
    intro path
    have hinner : ∀ ms ∈ p.parts.mapIdx fun i q => q.marks slots token (path ++ [i]), ∀ x ∈ ms,
        x.Fits slots token := fun ms hms => by
      obtain ⟨i, hi, rfl⟩ := List.mem_mapIdx.mp hms
      exact ih _ (List.getElem_mem hi) _
    rw [marks_eq]
    cases p using casesGeometry with
    | coordinate c => exact List.forall_mem_singleton.mpr (.inl ⟨_, rfl⟩)
    | geometry g =>
      rw [enclose_geometry]
      intro m hm
      rcases List.mem_append.mp hm with hm | hm
      · rcases List.mem_cons.mp hm with rfl | hm
        · exact .inl ⟨_, rfl⟩
        · obtain ⟨p, hp, rfl⟩ := List.mem_map.mp hm
          exact .inr ⟨rfl, List.mem_append_left _ hp⟩
      · refine fits_of_mem_group (.inr ⟨rfl, List.mem_append_right _ ?_⟩) hinner m hm
        split <;> simp
    | component c hc =>
      rw [enclose_component hc]
      refine fits_of_mem_group (.inl ⟨⟨path, component c⟩, ?_⟩) hinner
      rw [head_component hc]
      simp

end Part

end LatLonText
