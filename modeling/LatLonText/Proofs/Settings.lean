/-
# Of each setting the last value counts

Setting a value replaces it and leaves the others as they are, so settings
applied in order leave each value as the last setting for it has it, and one that
is not set as it was (`Settings.foldl_set`, by induction on the settings). What is
built hangs on these last values only.

A configuration tells its ordinates by their number, and three ordinates may be X,
Y and M as well as X, Y and Z. Setting the values of a configuration gives the
configuration back all the same, since none that can be had asks for M without Z
(`Config.Obtainable.ordinates_cases`).

Key definitions: `lastPicked`, `Settings.lastOf`, `Config.toSettings`.
Key theorems: `foldl_eq_lastPicked`, `Settings.foldl_set`, `Config.build_ofConfig`,
`Settings.last_values_decide`.
-/
import LatLonText.Proofs.Config
import Mathlib.Data.List.Perm.Basic

namespace LatLonText

/-! ### Last values -/

/-- The last value that is picked from a list, or else a default. -/
def lastPicked {α β : Type} (pick : α → Option β) (default : β) (as : List α) : β :=
  (as.filterMap pick).getLast?.getD default

section LastPicked

variable {α β : Type} (pick : α → Option β)

/-- What is picked from the first element is the default for the others. -/
theorem lastPicked_cons (default : β) (a : α) (as : List α) :
    lastPicked pick default (a :: as) = lastPicked pick ((pick a).getD default) as := by
  unfold lastPicked
  cases hpick : pick a with
  | none => rw [List.filterMap_cons_none hpick, Option.getD_none]
  | some b => rw [List.filterMap_cons_some hpick, List.getLast?_cons, Option.getD_some,
      Option.getD_some]

variable {pick}

/-- **What each step replaces by what it picks** is in the end what was picked last. -/
theorem foldl_eq_lastPicked {σ : Type} {step : σ → α → σ} (look : σ → β)
    (hstep : ∀ s a, look (step s a) = (pick a).getD (look s)) : ∀ (as : List α) (s : σ),
    look (as.foldl step s) = lastPicked pick (look s) as
  | [], _ => rfl
  | a :: as, s => by
    rw [List.foldl_cons, foldl_eq_lastPicked look hstep as, hstep, lastPicked_cons]

/-- A value that is picked once counts, wherever it stands. -/
theorem lastPicked_of_perm {as bs : List α} {b : β} (hperm : as.Perm bs)
    (hbs : bs.filterMap pick = [b]) (default : β) : lastPicked pick default as = b := by
  have has := hperm.filterMap pick
  rw [hbs, List.perm_singleton] at has
  rw [lastPicked, has]
  rfl

end LastPicked

namespace Setting

/-- The dimension that is set. -/
def dimension? : Setting → Option UInt8
  | .dimension d => some d
  | _ => none

/-- What is set about breaking the text into lines. -/
def pretty? : Setting → Option Bool
  | .pretty p => some p
  | _ => none

/-- The count of coordinates on a line that is set. -/
def perLine? : Setting → Option UInt64
  | .perLine n => some n
  | _ => none

/-- The indent width that is set. -/
def indentWidth? : Setting → Option UInt64
  | .indentWidth w => some w
  | _ => none

/-- The precision that is set. -/
def precision? : Setting → Option Precision
  | .precision p => some p
  | _ => none

/-- The dialect that is set. -/
def dialect? : Setting → Option Dialect
  | .dialect d => some d
  | _ => none

end Setting

namespace Settings

/-- The last value of each setting, or else the one of `s`. -/
def lastOf (s : Settings) (settings : List Setting) : Settings where
  dimension := lastPicked Setting.dimension? s.dimension settings
  pretty := lastPicked Setting.pretty? s.pretty settings
  perLine := lastPicked Setting.perLine? s.perLine settings
  indentWidth := lastPicked Setting.indentWidth? s.indentWidth settings
  precision := lastPicked Setting.precision? s.precision settings
  dialect := lastPicked Setting.dialect? s.dialect settings

/-- **Settings in order** leave the last value of each. -/
theorem foldl_set : ∀ (settings : List Setting) (s : Settings),
    settings.foldl set s = s.lastOf settings
  | [], _ => rfl
  | setting :: settings, s => by
    rw [List.foldl_cons, foldl_set settings (s.set setting)]
    unfold lastOf
    simp only [lastPicked_cons]
    cases setting <;> rfl

/-! ### What is built -/

theorem ofDimension?_eq_none_iff {d : UInt8} :
    Ordinates.ofDimension? d = none ↔ d ∉ [2, 3, 4] := by
  unfold Ordinates.ofDimension?
  split_ifs <;> simp_all

theorem dimension_of_ofDimension? {d : UInt8} {o : Ordinates}
    (h : Ordinates.ofDimension? d = some o) : o.dimension = d := by
  unfold Ordinates.ofDimension? at h
  split_ifs at h with hxy hxyz hxyzm <;> cases h
  · rw [hxy]
    decide
  · rw [hxyz]
    decide
  · rw [hxyzm]
    decide

variable {s : Settings}

theorem build_of_no_dimension (h : s.dimension ∉ [2, 3, 4]) :
    s.build = .error (.invalidDimension s.dimension) := by
  rw [build, ofDimension?_eq_none_iff.mpr h]

/-- With a dimension, the indent width decides, and what is built tells the settings. -/
theorem build_of_dimension (h : s.dimension ∈ [2, 3, 4]) :
    ∃ c : Config, ofConfig c = s ∧
      s.build =
        if s.indentWidth = 0 then .error (.invalidIndentWidth s.indentWidth) else .ok c := by
  cases ho : Ordinates.ofDimension? s.dimension with
  | none => exact absurd h (ofDimension?_eq_none_iff.mp ho)
  | some o =>
    refine ⟨⟨o, s.pretty, s.perLine, s.indentWidth, s.precision, s.dialect⟩, ?_, ?_⟩
    · have hdimension := dimension_of_ofDimension? ho
      simp only [ofConfig, Config.dimension, hdimension]
    · rw [build, ho]

theorem build_eq_invalidDimension_iff :
    s.build = .error (.invalidDimension s.dimension) ↔ s.dimension ∉ [2, 3, 4] := by
  refine ⟨fun herror hmem => ?_, build_of_no_dimension⟩
  obtain ⟨c, -, hbuild⟩ := build_of_dimension hmem
  rw [hbuild] at herror
  split at herror <;> cases herror

theorem build_eq_invalidIndentWidth_iff (h : s.dimension ∈ [2, 3, 4]) :
    s.build = .error (.invalidIndentWidth s.indentWidth) ↔ s.indentWidth = 0 := by
  obtain ⟨c, -, hbuild⟩ := build_of_dimension h
  rw [hbuild]
  refine ⟨fun herror => ?_, fun hzero => if_pos hzero⟩
  by_contra hne
  rw [if_neg hne] at herror
  cases herror

/-- What is built tells its settings, of which the indent width is not zero. -/
theorem of_build {c : Config} (h : s.build = .ok c) : ofConfig c = s ∧ s.indentWidth ≠ 0 := by
  by_cases hdimension : s.dimension ∈ [2, 3, 4]
  · obtain ⟨d, hd, hbuild⟩ := build_of_dimension hdimension
    rw [h] at hbuild
    split at hbuild
    · cases hbuild
    · rename_i hwidth
      cases hbuild
      exact ⟨hd, hwidth⟩
  · rw [build_of_no_dimension hdimension] at h
    cases h

end Settings

/-! ### Configurations that can be had -/

namespace Config

namespace Obtainable

variable {c : Config}

theorem ordinates_cases (h : c.Obtainable) :
    c.ordinates = .xy ∨ c.ordinates = .xyz ∨ c.ordinates = .xyzm := by
  induction h with
  | default => exact .inl rfl
  | sqlServer => exact .inr (.inr rfl)
  | built hbuild => exact Ordinates.cases_of_ofDimension? (Settings.ordinates_of_build hbuild)
  | formatted _ ih => exact ih

theorem indentWidth_ne_zero (h : c.Obtainable) : c.indentWidth ≠ 0 := by
  induction h with
  | default => decide
  | sqlServer => decide
  | built hbuild =>
    obtain ⟨hconfig, hwidth⟩ := Settings.of_build hbuild
    rw [← hconfig] at hwidth
    exact hwidth
  | formatted _ ih => exact ih

end Obtainable

/-- The values of a configuration, each set once. -/
def toSettings (c : Config) : List Setting :=
  [.dimension c.dimension, .pretty c.pretty, .perLine c.perLine, .indentWidth c.indentWidth,
    .precision c.precision, .dialect c.dialect]

/-- Set in any order, the values of a configuration are the last ones. -/
theorem lastOf_toSettings {c : Config} {settings : List Setting}
    (h : settings.Perm c.toSettings) (s : Settings) : s.lastOf settings = Settings.ofConfig c := by
  rw [Settings.lastOf, Settings.ofConfig,
    lastPicked_of_perm h (show c.toSettings.filterMap Setting.dimension? = [c.dimension] from rfl),
    lastPicked_of_perm h (show c.toSettings.filterMap Setting.pretty? = [c.pretty] from rfl),
    lastPicked_of_perm h (show c.toSettings.filterMap Setting.perLine? = [c.perLine] from rfl),
    lastPicked_of_perm h
      (show c.toSettings.filterMap Setting.indentWidth? = [c.indentWidth] from rfl),
    lastPicked_of_perm h (show c.toSettings.filterMap Setting.precision? = [c.precision] from rfl),
    lastPicked_of_perm h (show c.toSettings.filterMap Setting.dialect? = [c.dialect] from rfl)]

/-- A configuration that can be had is built from its own values. -/
theorem build_ofConfig {c : Config} (h : c.Obtainable) : (Settings.ofConfig c).build = .ok c := by
  have hordinates : Ordinates.ofDimension? c.dimension = some c.ordinates := by
    rw [dimension]
    rcases h.ordinates_cases with ho | ho | ho <;> rw [ho] <;> rfl
  have hwidth : (Settings.ofConfig c).indentWidth ≠ 0 := h.indentWidth_ne_zero
  have hsettings : Ordinates.ofDimension? (Settings.ofConfig c).dimension = some c.ordinates :=
    hordinates
  rw [Settings.build, hsettings]
  exact if_neg hwidth

end Config

/-- **The last value of each setting decides what is built, and what can be had can be built
again.** After settings in any number and order, what is built hangs on the last value of each
setting, or its default: it is refused for a dimension other than 2, 3 and 4, else for an indent
width of zero, and else it has these values. A configuration, however it was come by, asks for X and
Y, for Z with them, or for all four, has a positive indent width, and is built again from its own
values, set in any order. -/
theorem Settings.last_values_decide :
    (∀ settings : List Setting,
      let last := lastOf ⟨2, false, 0, 2, .floating, .standard⟩ settings
      let built := (ofList settings).build
      (built = .error (.invalidDimension last.dimension) ↔ last.dimension ∉ [2, 3, 4]) ∧
      (last.dimension ∈ [2, 3, 4] →
        (built = .error (.invalidIndentWidth last.indentWidth) ↔ last.indentWidth = 0) ∧
        (last.indentWidth ≠ 0 → ∃ c : Config, built = .ok c ∧ ofConfig c = last)) ∧
      ∀ others : List Setting, lastOf ⟨2, false, 0, 2, .floating, .standard⟩ others = last →
        (ofList others).build = built) ∧
    ∀ c : Config, c.Obtainable →
      (c.ordinates = .xy ∨ c.ordinates = .xyz ∨ c.ordinates = .xyzm) ∧ c.ordinates ≠ .xym ∧
      0 < c.indentWidth ∧
      ∀ settings : List Setting, settings.Perm c.toSettings → (ofList settings).build = .ok c := by
  have hlast : ∀ settings : List Setting,
      ofList settings = lastOf ⟨2, false, 0, 2, .floating, .standard⟩ settings :=
    fun settings => foldl_set settings Settings.default
  refine ⟨fun settings => ?_, fun c hc => ⟨hc.ordinates_cases, ?_, ?_, fun settings hperm => ?_⟩⟩
  · intro last built
    have hbuilt : built = last.build := congrArg build (hlast settings)
    rw [hbuilt]
    refine ⟨build_eq_invalidDimension_iff, fun hmem => ⟨build_eq_invalidIndentWidth_iff hmem,
      fun hwidth => ?_⟩, fun others hothers => ?_⟩
    · obtain ⟨c, hc, hbuild⟩ := build_of_dimension hmem
      rw [if_neg hwidth] at hbuild
      exact ⟨c, hbuild, hc⟩
    · rw [hlast others, hothers]
  · rcases hc.ordinates_cases with ho | ho | ho <;> rw [ho] <;> decide
  · exact UInt64.pos_iff_ne_zero.mpr hc.indentWidth_ne_zero
  · rw [hlast settings, Config.lastOf_toSettings hperm, Config.build_ofConfig hc]

/-- A dimension out of range is repaired by a later one, so that the indent width is at fault; and
the formatted preset is built again from its values in reverse. -/
theorem Settings.last_values_decide_repaired :
    let c := Config.sqlServer.formatted
    (ofList [.dimension 7, .indentWidth 0, .pretty true, .dimension 3]).build =
      .error (.invalidIndentWidth 0) ∧
    c.Obtainable ∧ c.toSettings.reverse.Perm c.toSettings ∧
    (ofList c.toSettings.reverse).build = .ok c := by
  intro c
  have hc : c.Obtainable := .formatted .sqlServer
  have hperm : c.toSettings.reverse.Perm c.toSettings := List.reverse_perm c.toSettings
  obtain ⟨-, hmem, -⟩ :=
    last_values_decide.1 [.dimension 7, .indentWidth 0, .pretty true, .dimension 3]
  obtain ⟨-, -, -, hrebuild⟩ := last_values_decide.2 c hc
  exact ⟨(hmem (by decide)).1.mpr (by decide), hc, hperm, hrebuild _ hperm⟩

end LatLonText
