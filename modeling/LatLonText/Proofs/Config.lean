/-
# Configurations that can be had

A configuration is one of the presets, or built from settings that pass the
check, or the formatted copy of another one. An output dimension names a set of
ordinates that has a Z wherever it has an M, so no configuration that can be
had asks for M without Z (`Config.Obtainable.z_of_m`).

Key definitions: `Config.Obtainable`.
Key theorems: `Config.Obtainable.z_of_m`.
-/
import LatLonText.Config

namespace LatLonText

/-- The ways to come by a configuration. -/
inductive Config.Obtainable : Config → Prop
  | default : Obtainable .default
  | sqlServer : Obtainable .sqlServer
  | built {s : Settings} {c : Config} (h : s.build = .ok c) : Obtainable c
  | formatted {c : Config} (h : Obtainable c) : Obtainable c.formatted

/-- The sets of ordinates that an output dimension names. -/
theorem Ordinates.cases_of_ofDimension? {d : UInt8} {o : Ordinates} (h : ofDimension? d = some o) :
    o = xy ∨ o = xyz ∨ o = xyzm := by
  unfold ofDimension? at h
  split at h
  · cases h
    exact .inl rfl
  · split at h
    · cases h
      exact .inr (.inl rfl)
    · split at h
      · cases h
        exact .inr (.inr rfl)
      · cases h

/-- What is built has the ordinates that its dimension names. -/
theorem Settings.ordinates_of_build {s : Settings} {c : Config} (h : s.build = .ok c) :
    Ordinates.ofDimension? s.dimension = some c.ordinates := by
  unfold build at h
  split at h
  · cases h
  · rename_i o ho
    split at h
    · cases h
    · cases h
      exact ho

/-- A configuration that can be had never asks for M without Z. -/
theorem Config.Obtainable.z_of_m {c : Config} (h : c.Obtainable) (hm : c.ordinates.m = true) :
    c.ordinates.z = true := by
  induction h with
  | default => cases hm
  | sqlServer => rfl
  | built hbuild =>
    rcases Ordinates.cases_of_ofDimension? (Settings.ordinates_of_build hbuild) with ho | ho | ho
    · rw [ho] at hm
      cases hm
    · rw [ho]
      rfl
    · rw [ho]
      rfl
  | formatted _ ih => exact ih hm

end LatLonText
