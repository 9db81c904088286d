/-
# The text of an ordinate, as a word

Whatever the precision, the text of an ordinate is a word: it holds nothing that
separates the parts of a geometry's text (`isWord_text`). Under floating
precision it tells the ordinate down to the sign of zero
(`text_floating_injective`), NaN apart, whose text is that of no number
(`text_floating_ne_nan`).

Key definitions: `IsWord`.
Key theorems: `Precision.text_cases`, `Precision.isWord_text`,
`Precision.text_floating_injective`.
-/
import LatLonText.Ordinate.Text
import LatLonText.Proofs.Positional
import LatLonText.Proofs.Shortest

namespace LatLonText

/-! ### Words -/

/-- The characters that separate the parts of a text. -/
def separators : List Char := [' ', '\n', ',', '(', ')']

/-- A text without separators. -/
def IsWord (cs : List Char) : Prop := ∀ c ∈ cs, c ∉ separators

instance (cs : List Char) : Decidable (IsWord cs) :=
  List.decidableBAll (· ∉ separators) cs

theorem IsWord.cons {c : Char} {cs : List Char} (hc : c ∉ separators) (h : IsWord cs) :
    IsWord (c :: cs) :=
  List.forall_mem_cons.mpr ⟨hc, h⟩

theorem not_mem_separators_of_isDigit {c : Char} (h : c.isDigit = true) : c ∉ separators := by
  intro hc
  simp only [separators, List.mem_cons, List.not_mem_nil, or_false] at hc
  rcases hc with rfl | rfl | rfl | rfl | rfl <;> exact absurd h (by decide)

/-- A text does not begin as another one, if what is known of its first character says so. -/
theorem ne_cons_of_head {p : Char → Prop} {cs : List Char}
    (h : ∃ c rest, cs = c :: rest ∧ p c) {d : Char} (hd : ¬ p d) (ds : List Char) :
    cs ≠ d :: ds := by
  obtain ⟨c, rest, rfl, hc⟩ := h
  intro heq
  exact hd ((List.cons.inj heq).1 ▸ hc)

theorem Decimal.isWord_positional (d : Decimal) : IsWord d.positional := by
  intro c hc
  rcases of_mem_positional hc with h | rfl
  · exact not_mem_separators_of_isDigit h
  · decide

theorem Decimal.positional_ne_nil (d : Decimal) : d.positional ≠ [] := by
  obtain ⟨c, cs, h, _⟩ := d.head_positional
  rw [h]
  exact List.cons_ne_nil c cs

namespace Ordinate

/-- Sign and magnitude make up an ordinate. -/
theorem eq_of_magnitude_eq {v w : Ordinate} (hn : v.negative = w.negative)
    (hm : v.magnitude = w.magnitude) : v = w := by
  obtain ⟨a⟩ := v
  obtain ⟨b⟩ := w
  have ha := a.toNat_lt
  have hb := b.toNat_lt
  have hsign : signWeight ≤ a.toNat ↔ signWeight ≤ b.toNat := decide_eq_decide.mp hn
  simp only [magnitude, signWeight] at hm hsign
  rw [UInt64.toNat_inj.mp (show a.toNat = b.toNat by omega)]

end Ordinate

namespace Precision

theorem shortestText_cases (v : Ordinate) :
    ∃ cs, shortestText v = withSign v.negative cs ∧
      (cs = "inf".toList ∨ ∃ d : Decimal, cs = d.positional) := by
  refine ⟨_, rfl, ?_⟩
  split
  · exact .inl rfl
  · exact .inr ⟨_, rfl⟩

/-- **What the text of an ordinate is**: the word for NaN, or with or without a sign a word for
infinity or a decimal. -/
theorem text_cases (p : Precision) (v : Ordinate) :
    p.text v = "NaN".toList ∨ ∃ negative cs, p.text v = withSign negative cs ∧
      (cs = "Infinity".toList ∨ cs = "inf".toList ∨ ∃ d : Decimal, cs = d.positional) := by
  have hshortest : ∀ u : Ordinate, ∃ negative cs, shortestText u = withSign negative cs ∧
      (cs = "Infinity".toList ∨ cs = "inf".toList ∨ ∃ d : Decimal, cs = d.positional) := by
    intro u
    obtain ⟨cs, htext, hcs⟩ := shortestText_cases u
    exact ⟨_, cs, htext, .inr hcs⟩
  unfold text
  split
  · exact .inl rfl
  · right
    split
    · exact ⟨_, _, rfl, .inl rfl⟩
    · cases p with
      | floating => exact hshortest v
      | single =>
        simp only [finiteText]
        split
        · exact ⟨_, _, rfl, .inr (.inr ⟨_, rfl⟩)⟩
        · exact hshortest v
      | fixed n => exact hshortest _

theorem isWord_withSign {cs : List Char} (negative : Bool) (h : IsWord cs) :
    IsWord (withSign negative cs) := by
  cases negative
  · exact h
  · exact h.cons (by decide)

/-- **The text of an ordinate is a word.** -/
theorem isWord_text (p : Precision) (v : Ordinate) : IsWord (p.text v) := by
  rcases text_cases p v with h | ⟨negative, cs, h, hcs⟩
  · rw [h]
    decide
  · rw [h]
    refine isWord_withSign negative ?_
    rcases hcs with rfl | rfl | ⟨d, rfl⟩
    · decide
    · decide
    · exact d.isWord_positional

theorem withSign_ne_nil {cs : List Char} (negative : Bool) (h : cs ≠ []) :
    withSign negative cs ≠ [] := by
  cases negative
  · exact h
  · exact List.cons_ne_nil _ _

/-- No ordinate is written as nothing. -/
theorem text_ne_nil (p : Precision) (v : Ordinate) : p.text v ≠ [] := by
  rcases text_cases p v with h | ⟨negative, cs, h, hcs⟩
  · rw [h]
    decide
  · rw [h]
    refine withSign_ne_nil negative ?_
    rcases hcs with rfl | rfl | ⟨d, rfl⟩
    · decide
    · decide
    · exact d.positional_ne_nil

/-! ### Floating precision -/

/-- The text of a magnitude: a number, or the word for infinity. -/
def unsignedText (v : Ordinate) : List Char :=
  if v.isInfinite then "Infinity".toList else (Ordinate.format.shortest v.magnitude).positional

theorem text_floating {v : Ordinate} (h : v.isNaN = false) :
    floating.text v = withSign v.negative (unsignedText v) := by
  unfold text unsignedText
  by_cases hi : v.isInfinite = true
  · simp [h, hi]
  · simp [h, hi, finiteText, shortestText]

theorem head_unsignedText (v : Ordinate) :
    ∃ c cs, unsignedText v = c :: cs ∧ (c.isDigit = true ∨ c = 'I') := by
  unfold unsignedText
  split
  · exact ⟨'I', "nfinity".toList, rfl, .inr rfl⟩
  · obtain ⟨c, cs, h, hc⟩ := Decimal.head_positional (Ordinate.format.shortest v.magnitude)
    exact ⟨c, cs, h, .inl hc⟩

/-- The text of a number begins with a sign, a digit or the word for infinity. -/
theorem head_text_floating {v : Ordinate} (h : v.isNaN = false) :
    ∃ c cs, floating.text v = c :: cs ∧ (c = '-' ∨ c.isDigit = true ∨ c = 'I') := by
  rw [text_floating h]
  obtain ⟨c, cs, hcs, hc⟩ := head_unsignedText v
  cases v.negative
  · exact ⟨c, cs, hcs, .inr hc⟩
  · exact ⟨'-', _, rfl, .inl rfl⟩

theorem text_nan {v : Ordinate} (h : v.isNaN = true) (p : Precision) : p.text v = "NaN".toList := by
  simp [text, h]

/-- No number is written as a word that begins otherwise. -/
theorem text_floating_ne_cons {v : Ordinate} (h : v.isNaN = false) {c : Char} {cs : List Char}
    (hc : ¬ (c = '-' ∨ c.isDigit = true ∨ c = 'I')) : floating.text v ≠ c :: cs :=
  ne_cons_of_head (head_text_floating h) hc cs

/-- No number is written as a NaN is. -/
theorem text_floating_ne_nan {v : Ordinate} (h : v.isNaN = false) :
    floating.text v ≠ "NaN".toList :=
  text_floating_ne_cons h (by decide)

theorem magnitude_eq_of_unsignedText_eq {v w : Ordinate} (hv : v.isNaN = false)
    (hw : w.isNaN = false) (h : unsignedText v = unsignedText w) : v.magnitude = w.magnitude := by
  have hword : ∀ d : Decimal, d.positional ≠ "Infinity".toList := fun d =>
    ne_cons_of_head d.head_positional (d := 'I') (by decide) "nfinity".toList
  have hfinite : ∀ u : Ordinate, u.isNaN = false → ¬ u.isInfinite = true →
      Ordinate.format.nearest (Ordinate.format.shortest u.magnitude).value = u.magnitude :=
    fun u hnan hinf => by
      simp only [Ordinate.isNaN, decide_eq_false_iff_not, Nat.not_lt] at hnan
      simp only [Ordinate.isInfinite, beq_iff_eq] at hinf
      exact BinaryFormat.nearest_value_shortest (by decide) (by decide) (by omega)
  unfold unsignedText at h
  split at h <;> split at h
  · rename_i h1 h2
    simp only [Ordinate.isInfinite, beq_iff_eq] at h1 h2
    rw [h1, h2]
  · exact absurd h.symm (hword _)
  · exact absurd h (hword _)
  · rename_i h1 h2
    rw [← hfinite v hv h1, ← hfinite w hw h2, Decimal.value_eq_of_positional_eq h]

/-- **The text tells the number**, down to the sign of zero. -/
theorem text_floating_injective {v w : Ordinate} (hv : v.isNaN = false) (hw : w.isNaN = false)
    (h : floating.text v = floating.text w) : v = w := by
  rw [text_floating hv, text_floating hw] at h
  have hsign : ∀ u : Ordinate, ∀ cs, unsignedText u ≠ '-' :: cs := fun u cs =>
    ne_cons_of_head (head_unsignedText u) (by decide) cs
  cases hnv : v.negative <;> cases hnw : w.negative <;> rw [hnv, hnw] at h
  · exact Ordinate.eq_of_magnitude_eq (hnv.trans hnw.symm) (magnitude_eq_of_unsignedText_eq hv hw h)
  · exact absurd h (hsign v _)
  · exact absurd h.symm (hsign w _)
  · exact Ordinate.eq_of_magnitude_eq (hnv.trans hnw.symm)
      (magnitude_eq_of_unsignedText_eq hv hw (List.cons.inj h).2)

end Precision

end LatLonText
