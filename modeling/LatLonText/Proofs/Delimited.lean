/-
# Texts that tell what they are the text of

The parts of a text stand in parentheses with commas between them, so a part
ends where the text ends, or at a comma, or at a closing parenthesis (`Ends`).
A text tells its part (`Tells`) if no other part has the same text, whatever
follows; then what follows is the same too, which is what lets parts stand one
after the other. Parts that are told so are told in a group (`Tells.group`).

Two texts may be of two writers: they need not put the same ordinates into a
coordinate, and what a text tells of a part depends on which ordinates it has.

Key definitions: `Ends`, `Tells`, `groupText`.
Key theorems: `eq_of_append_eq`, `Tells.group`.
-/
import LatLonText.Proofs.Breaks

namespace LatLonText

/-- What may stand behind a part: nothing, or a comma or closing parenthesis and more. -/
def Ends (rest : List Char) : Prop := ∀ c ∈ rest.head?, c = ',' ∨ c = ')'

theorem ends_nil : Ends [] := nofun

theorem ends_comma (rest : List Char) : Ends (',' :: rest) := by
  rintro c ⟨⟩
  exact .inl rfl

theorem ends_closing (rest : List Char) : Ends (')' :: rest) := by
  rintro c ⟨⟩
  exact .inr rfl

/-- Two texts without a delimiter, with nothing or a delimiter behind each, are the same if the
whole is. -/
theorem eq_of_append_eq {delimiter : Char → Prop} : ∀ {u v r r' : List Char},
    (∀ c ∈ u, ¬ delimiter c) → (∀ c ∈ v, ¬ delimiter c) → (∀ c ∈ r.head?, delimiter c) →
    (∀ c ∈ r'.head?, delimiter c) → u ++ r = v ++ r' → u = v ∧ r = r'
  | [], [], _, _, _, _, _, _, h => ⟨rfl, h⟩
  | [], c :: v, r, _, _, hv, hr, _, h => by
    subst h
    exact absurd (hr c rfl) (hv c List.mem_cons_self)
  | c :: u, [], _, r', hu, _, _, hr', h => by
    subst h
    exact absurd (hr' c rfl) (hu c List.mem_cons_self)
  | c :: u, d :: v, _, _, hu, hv, hr, hr', h => by
    obtain ⟨hhead, htail⟩ := List.cons.inj h
    obtain ⟨huv, hrest⟩ := eq_of_append_eq (List.forall_mem_cons.mp hu).2
      (List.forall_mem_cons.mp hv).2 hr hr' htail
    exact ⟨by rw [hhead, huv], hrest⟩

theorem beq_eq_false_of_not_mem {d : Char} {cs : List Char} (h : d ∉ cs) :
    ∀ c ∈ cs, (c == d) = false := by
  intro c hc
  have hne : c ≠ d := fun heq => h (heq ▸ hc)
  simpa using hne

section Tells

variable {α β : Type} (text text' : α → List Char) (meaning meaning' : α → β)

/-- The text of a part tells what the part means, also against the texts of another writer. -/
def Tells (a : α) : Prop :=
  ∀ (b : α) (r r' : List Char), Ends r → Ends r' → text a ++ r = text' b ++ r' →
    meaning a = meaning' b ∧ r = r'

/-- The text of parts in parentheses with commas between them. -/
def groupText : List (List Char) → List Char
  | [] => "EMPTY".toList
  | t :: ts => '(' :: t ++ ts.flatMap (',' :: ' ' :: ·) ++ [')']

variable {text text' meaning meaning'}

theorem ends_later (ts : List (List Char)) (rest : List Char) :
    Ends (ts.flatMap (',' :: ' ' :: ·) ++ ')' :: rest) := by
  cases ts with
  | nil => exact ends_closing rest
  | cons t ts => exact ends_comma _

/-- Commas with parts behind them, up to the closing parenthesis. -/
theorem Tells.later : ∀ {as : List α}, (∀ a ∈ as, Tells text text' meaning meaning' a) →
    ∀ {bs : List α} {r r' : List Char},
      (as.map text).flatMap (',' :: ' ' :: ·) ++ ')' :: r =
        (bs.map text').flatMap (',' :: ' ' :: ·) ++ ')' :: r' →
      as.map meaning = bs.map meaning' ∧ r = r'
  | [], _, [], _, _, h => ⟨rfl, (List.cons.inj h).2⟩
  | [], _, b :: bs, _, _, h => nomatch (List.cons.inj h).1
  | a :: as, _, [], _, _, h => nomatch (List.cons.inj h).1
  | a :: as, hall, b :: bs, r, r', h => by
    obtain ⟨ha, has⟩ := List.forall_mem_cons.mp hall
    simp only [List.map_cons, List.flatMap_cons, List.cons_append, List.append_assoc] at h
    obtain ⟨_, h⟩ := List.cons.inj h
    obtain ⟨_, h⟩ := List.cons.inj h
    obtain ⟨hab, h⟩ := ha b _ _ (ends_later _ r) (ends_later _ r') h
    obtain ⟨hlater, hr⟩ := Tells.later has h
    exact ⟨by rw [List.map_cons, List.map_cons, hab, hlater], hr⟩

/-- **Parts are told in a group**, and what is behind it with them. -/
theorem Tells.group {as : List α} (h : ∀ a ∈ as, Tells text text' meaning meaning' a) :
    Tells (fun as => groupText (as.map text)) (fun as => groupText (as.map text'))
      (List.map meaning) (List.map meaning') as := by
  intro bs r r' _ _ heq
  cases as with
  | nil =>
    cases bs with
    | nil => exact ⟨rfl, List.append_cancel_left heq⟩
    | cons b bs => exact nomatch (List.cons.inj heq).1
  | cons a as =>
    cases bs with
    | nil => exact nomatch (List.cons.inj heq).1
    | cons b bs =>
      -- with a comma for the parenthesis, the first part is as the later ones
      have hlater : ((a :: as).map text).flatMap (',' :: ' ' :: ·) ++ ')' :: r =
          ((b :: bs).map text').flatMap (',' :: ' ' :: ·) ++ ')' :: r' := by
        simpa [groupText] using heq
      exact Tells.later h hlater

end Tells

/-! ### The text of pieces in a group -/

theorem Kind.tag_injective {j k : Kind} (h : j.tag.toList = k.tag.toList) : j = k := by
  revert h
  cases j <;> cases k <;> decide

theorem Ordinates.token_injective {o o' : Ordinates} (h : o.token.toList = o'.token.toList) :
    o.z = o'.z ∧ o.m = o'.m := by
  unfold token at h
  revert h
  cases o.z <;> cases o.m <;> cases o'.z <;> cases o'.m <;> decide

namespace Spelling

variable (s : Spelling)

theorem pieces_cons (p : Piece) (ps : List Piece) : s.pieces (p :: ps) = s.piece p ++ s.pieces ps :=
  List.flatMap_cons

theorem pieces_append (ps qs : List Piece) : s.pieces (ps ++ qs) = s.pieces ps ++ s.pieces qs :=
  List.flatMap_append

theorem pieces_later : ∀ parts : List (List Piece),
    s.pieces (parts.flatMap (.separator :: ·)) =
      (parts.map s.pieces).flatMap (',' :: ' ' :: ·)
  | [] => rfl
  | p :: parts => by
    rw [List.flatMap_cons, pieces_append, pieces_cons, pieces_later parts, List.map_cons,
      List.flatMap_cons]
    rfl

theorem pieces_group (parts : List (List Piece)) :
    s.pieces (Style.group parts) = groupText (parts.map s.pieces) := by
  cases parts with
  | nil => rfl
  | cons p parts =>
    rw [Style.group, pieces_append, List.cons_append, pieces_cons, pieces_append, pieces_later]
    rfl

/-- Parts are told in a group of their pieces. -/
theorem group_tells {α β : Type} {part part' : α → List Piece} {meaning meaning' : α → β}
    {as : List α} (h : ∀ a ∈ as, Tells (fun a => s.pieces (part a)) (fun a => s.pieces (part' a))
      meaning meaning' a) :
    Tells (fun as => s.pieces (Style.group (as.map part)))
      (fun as => s.pieces (Style.group (as.map part'))) (List.map meaning) (List.map meaning')
      as := by
  simp only [pieces_group, List.map_map]
  exact Tells.group h

variable (style : Style)

theorem pieces_flatToken : s.pieces style.flatToken =
    if style.writesToken then style.ordinates.token.toList else [] := by
  unfold Style.flatToken
  by_cases htoken : style.writesToken = true
  · rw [if_pos htoken, if_pos htoken]
    simp [pieces, piece, Piece.blanks, start]
  · rw [if_neg htoken, if_neg htoken]
    rfl

theorem pieces_coordinate (places : List Slot) :
    s.pieces [.coordinate places] = s.slots places := by
  simp [pieces, piece, Piece.blanks, start]

theorem pieces_flatSequence (cs : List Coordinate) :
    s.pieces (style.flatSequence cs) = groupText (cs.map fun c => s.slots (style.slots c)) := by
  rw [Style.flatSequence, pieces_group, List.map_map]
  exact congrArg groupText (List.map_congr_left fun c _ => s.pieces_coordinate (style.slots c))

theorem pieces_flatPolygon (p : Polygon) : s.pieces (style.flatPolygon p) =
    groupText (p.writtenRings.map fun ring => s.pieces (style.flatSequence ring)) := by
  unfold Style.flatPolygon Polygon.writtenRings
  by_cases hempty : p.isEmpty = true
  · rw [if_pos hempty, if_pos hempty]
    rfl
  · rw [if_neg hempty, if_neg hempty, pieces_group, List.map_map]
    rfl

theorem pieces_flat (g : Geometry) : s.pieces (style.flat g) =
    g.kind.tag.toList ++ ' ' :: (s.pieces style.flatToken ++ s.pieces (style.flatBody g)) := by
  have htag : s.piece (.tag g.kind) = g.kind.tag.toList ++ [' '] :=
    s.piece_eq_start (by nofun)
  rw [Style.flat_eq, pieces_append, pieces_cons, htag, List.append_assoc, List.append_assoc]
  rfl

/-- A body is a group. -/
theorem pieces_flatBody (g : Geometry) :
    ∃ ts : List (List Char), s.pieces (style.flatBody g) = groupText ts := by
  cases g with
  | point c => exact ⟨_, s.pieces_flatSequence style c.toList⟩
  | lineString cs => exact ⟨_, s.pieces_flatSequence style cs⟩
  | linearRing cs => exact ⟨_, s.pieces_flatSequence style cs⟩
  | polygon p => exact ⟨_, s.pieces_flatPolygon style p⟩
  | multiPoint ps => exact ⟨_, s.pieces_group _⟩
  | multiLineString ls => exact ⟨_, s.pieces_group _⟩
  | multiPolygon ps => exact ⟨_, s.pieces_group _⟩
  | collection gs => exact ⟨_, s.pieces_group _⟩

variable {style} {style' : Style} {a b : Geometry} {r r' : List Char}

/-- The text of a geometry tells its kind. -/
theorem kind_eq_of_flat (h : s.pieces (style.flat a) ++ r = s.pieces (style'.flat b) ++ r') :
    a.kind = b.kind ∧
      s.pieces style.flatToken ++ (s.pieces (style.flatBody a) ++ r) =
        s.pieces style'.flatToken ++ (s.pieces (style'.flatBody b) ++ r') := by
  have hblank : ∀ kind : Kind, ∀ c ∈ kind.tag.toList, ¬ c = ' ' := by
    rintro kind c hc rfl
    revert hc
    cases kind <;> decide
  rw [pieces_flat, pieces_flat, List.append_assoc, List.append_assoc] at h
  obtain ⟨htag, hrest⟩ := eq_of_append_eq (hblank _) (hblank _) (by simp) (by simp) h
  simp only [List.cons_append, List.append_assoc] at hrest
  exact ⟨Kind.tag_injective htag, (List.cons.inj hrest).2⟩

theorem head_groupText (ts : List (List Char)) (rest : List Char) :
    ∀ c ∈ (groupText ts ++ rest).head?, c = 'E' ∨ c = '(' := by
  cases ts with
  | nil =>
    rintro c ⟨⟩
    exact .inl rfl
  | cons t ts =>
    rintro c ⟨⟩
    exact .inr rfl

/-- A token in front of a body tells the ordinates. -/
theorem ordinates_eq_of_token {o o' : Ordinates}
    (h : o.token.toList ++ (s.pieces (style.flatBody a) ++ r) =
      o'.token.toList ++ (s.pieces (style'.flatBody b) ++ r')) : o.z = o'.z ∧ o.m = o'.m := by
  have hletters : ∀ o : Ordinates, ∀ c ∈ o.token.toList, ¬ (c = 'E' ∨ c = '(') := by
    intro o c hc hend
    unfold Ordinates.token at hc
    revert hc
    rcases hend with rfl | rfl <;> cases o.z <;> cases o.m <;> decide
  obtain ⟨ts, hts⟩ := s.pieces_flatBody style a
  obtain ⟨ts', hts'⟩ := s.pieces_flatBody style' b
  rw [hts, hts'] at h
  exact Ordinates.token_injective (eq_of_append_eq (hletters o) (hletters o')
    (head_groupText ts r) (head_groupText ts' r') h).1

end Spelling

end LatLonText
