/-
# Flags count wherever they stand

The arguments of the command line are groups of words: a flag with the value
behind it, a flag by itself, or a word that is no flag. A group without a fault is
noted and reading goes on behind it, and a group with a fault ends the reading
(`Arguments.readOnto_words`). So what groups without a fault ask for is noted in
order (`Arguments.readOnto_flatMap_words`), the later value over the earlier one;
and of groups with a fault only the first is seen, whatever stands behind it.

What is noted is put together at the end, the dimension that comes with SQL Server
text below an explicit one (`Group.requested`), and checked only then. Each list of
arguments is made of groups (`exists_groups`), so nothing else can be read.

Key definitions: `numberFault?`, `Group`, `Group.fault?`, `Group.requested`.
Key theorems: `readNumber_eq`, `Arguments.readOnto_words`,
`Arguments.config_flatMap_words`, `Arguments.config_of_fault`, `exists_groups`,
`Arguments.flags_in_any_order`.
-/
import LatLonText.CommandLine.Arguments
import LatLonText.Proofs.Positional
import LatLonText.Proofs.Settings
import Mathlib.Tactic.SplitIfs

namespace LatLonText.CommandLine

open Decimal (numeral)
open Literal (digitsValue)

/-! ### Numbers -/

/-- The text of a number without the plus sign that it may begin with. -/
def withoutPlus : List Char → List Char
  | '+' :: cs => cs
  | cs => cs

/-- Why a text is not a number up to `limit`. Its digits count up to the first other character, and
digits that are too large are at fault before that character is. -/
def numberFault? (limit : Nat) (text : List Char) : Option NumberFault :=
  let digits := (withoutPlus text).takeWhile Char.isDigit
  if text = [] then some .empty
  else if limit < digitsValue digits then some .tooLarge
  else if withoutPlus text = [] ∨ digits ≠ withoutPlus text then some .invalidDigit
  else none

theorem le_ofDigitChars (n : Nat) : ∀ ds : List Char, n ≤ Nat.ofDigitChars 10 ds n
  | [] => Nat.le_refl n
  | d :: ds => by
    rw [Nat.ofDigitChars_cons]
    exact Nat.le_trans (by omega) (le_ofDigitChars _ ds)

/-- Digits are read up to the first other character, or until they are too large. -/
theorem readDigits_eq {limit : Nat} : ∀ (cs : List Char) {n : Nat}, n ≤ limit →
    readDigits limit n cs =
      if limit < Nat.ofDigitChars 10 (cs.takeWhile Char.isDigit) n then .error .tooLarge
      else if cs.takeWhile Char.isDigit = cs then .ok (Nat.ofDigitChars 10 cs n)
      else .error .invalidDigit
  | [], n, h => by
    rw [List.takeWhile_nil, Nat.ofDigitChars_nil, if_neg (Nat.not_lt.mpr h)]
    rfl
  | c :: cs, n, h => by
    by_cases hc : c.isDigit = true
    · rw [List.takeWhile_cons_of_pos hc, Nat.ofDigitChars_cons, Nat.ofDigitChars_cons]
      simp only [readDigits, hc, Bool.not_true, Bool.false_eq_true, if_false, List.cons.injEq,
        true_and]
      by_cases hmore : limit < 10 * n + (c.toNat - 48)
      · have hlarge : limit < Nat.ofDigitChars 10 (cs.takeWhile Char.isDigit)
            (10 * n + (c.toNat - 48)) := Nat.lt_of_lt_of_le hmore (le_ofDigitChars _ _)
        rw [if_pos hmore]
        exact (if_pos hlarge).symm
      · rw [if_neg hmore]
        exact readDigits_eq cs (Nat.not_lt.mp hmore)
    · rw [List.takeWhile_cons_of_neg hc, Nat.ofDigitChars_nil, if_neg (Nat.not_lt.mpr h),
        if_neg (List.cons_ne_nil c cs).symm]
      simp [readDigits, hc]

/-- Behind its sign, a number is read by its digits, of which there must be one. -/
theorem readNumber_of_ne_nil (limit : Nat) {text : List Char} (h : text ≠ []) :
    readNumber limit text =
      if withoutPlus text = [] then .error .invalidDigit
      else readDigits limit 0 (withoutPlus text) := by
  unfold readNumber withoutPlus
  split <;> simp_all

/-- **A number is read** unless its text has a fault. -/
theorem readNumber_eq (limit : Nat) (text : List Char) :
    readNumber limit text =
      match numberFault? limit text with
      | some fault => .error fault
      | none => .ok (digitsValue (withoutPlus text)) := by
  by_cases htext : text = []
  · rw [htext]
    rfl
  rw [readNumber_of_ne_nil limit htext, numberFault?, if_neg htext]
  by_cases hnone : withoutPlus text = []
  · rw [if_pos hnone, hnone]
    simp [digitsValue]
  · rw [if_neg hnone, readDigits_eq _ (Nat.zero_le limit)]
    have hvalue : ∀ ds, digitsValue ds = Nat.ofDigitChars 10 ds 0 := fun _ => rfl
    simp only [hvalue, hnone, false_or, ne_eq, ite_not]
    split_ifs <;> rfl

theorem withoutPlus_numeral (n : Nat) : withoutPlus (numeral n) = numeral n := by
  unfold withoutPlus
  split
  · rename_i cs hcs
    have hplus : '+' ∈ numeral n := hcs ▸ List.mem_cons_self
    exact absurd (Decimal.isDigit_of_mem_numeral hplus) (by decide)
  · rfl

/-- A text has no fault if behind its sign there are digits, and only digits, of a number up to the
limit. -/
theorem numberFault?_eq_none_iff {limit : Nat} {text : List Char} :
    numberFault? limit text = none ↔ withoutPlus text ≠ [] ∧
      (∀ c ∈ withoutPlus text, c.isDigit = true) ∧ digitsValue (withoutPlus text) ≤ limit := by
  rw [← List.takeWhile_eq_self_iff]
  by_cases htext : text = []
  · subst htext
    simp [numberFault?, withoutPlus]
  · by_cases hall : (withoutPlus text).takeWhile Char.isDigit = withoutPlus text
    · simp only [numberFault?, htext, hall, if_false, ne_eq, not_true_eq_false, or_false, true_and]
      split_ifs <;> simp_all
    · simp only [numberFault?, htext, hall, if_false, ne_eq, not_false_eq_true, or_true, if_true,
        false_and, and_false, iff_false]
      split_ifs <;> simp

/-- The decimal numeral of a number up to the limit has no fault. -/
theorem numberFault?_numeral {limit n : Nat} (h : n ≤ limit) :
    numberFault? limit (numeral n) = none := by
  rw [numberFault?_eq_none_iff, withoutPlus_numeral, Decimal.digitsValue_numeral]
  exact ⟨Decimal.numeral_ne_nil n, fun _ => Decimal.isDigit_of_mem_numeral, h⟩

/-! ### Groups of words -/

/-- The words that mean something at the start of a group. -/
def flagWords : List String := ["--dim", "--digits", "--pretty", "--sql-server", "-h", "--help"]

/-- Arguments that belong together: a flag with its value, a flag by itself, or one other word. -/
inductive Group where
  | dimension (value : Option String)
  | digits (value : Option String)
  | pretty
  | sqlServer
  | help (long : Bool)
  | unknown (word : String) (isUnknown : word ∉ flagWords)
deriving DecidableEq

namespace Group

/-- The arguments of a group. -/
def words : Group → List String
  | dimension value => "--dim" :: value.toList
  | digits value => "--digits" :: value.toList
  | pretty => ["--pretty"]
  | sqlServer => ["--sql-server"]
  | help long => [if long then "--help" else "-h"]
  | unknown word _ => [word]

/-- The group wants a value and has none, as can be only at the end of the arguments. -/
def LacksValue : Group → Prop
  | dimension none => True
  | digits none => True
  | _ => False

/-- Why a value up to `limit` is not accepted. -/
def valueFault? (limit : Nat) : Option String → Option ArgumentFault
  | none => some .usage
  | some text => (numberFault? limit text.toList).map ArgumentFault.number

/-- Why a group is not accepted. -/
def fault? : Group → Option ArgumentFault
  | dimension value => valueFault? 255 value
  | digits value => valueFault? 4294967295 value
  | pretty => none
  | sqlServer => none
  | help _ => some .usage
  | unknown word _ => some (.unknown word)

/-- The number that a text stands for. -/
def number (text : String) : Nat :=
  digitsValue (withoutPlus text.toList)

/-- The dimension that a group asks for. -/
def dimension? : Group → Option UInt8
  | dimension (some text) => some (.ofNat (number text))
  | _ => none

/-- The precision that a group asks for. -/
def precision? : Group → Option Precision
  | digits (some text) => some (.fixed (.ofNat (number text)))
  | _ => none

theorem fault?_of_lacksValue {g : Group} (h : g.LacksValue) : g.fault? = some .usage := by
  unfold LacksValue at h
  split at h
  · rfl
  · rfl
  · exact h.elim

theorem number_numeral (n : Nat) : number (String.ofList (numeral n)) = n := by
  rw [number, String.toList_ofList, withoutPlus_numeral, Decimal.digitsValue_numeral]

/-- A value up to the limit is accepted. -/
theorem valueFault?_numeral {limit n : Nat} (h : n ≤ limit) :
    valueFault? limit (some (String.ofList (numeral n))) = none := by
  rw [valueFault?, String.toList_ofList, numberFault?_numeral h]
  rfl

/-- A value that is accepted is up to the limit. -/
theorem number_le {limit : Nat} {text : String} (h : valueFault? limit (some text) = none) :
    number text ≤ limit := by
  obtain ⟨-, -, hle⟩ := numberFault?_eq_none_iff.mp (Option.map_eq_none_iff.mp h)
  exact hle

/-- A group without a fault asks for the dimension that its value is the number of. -/
theorem dimension_accepted {text : String} (h : (dimension (some text)).fault? = none) :
    ∃ d : UInt8, (dimension (some text)).dimension? = some d ∧ d.toNat = number text := by
  have hle : number text ≤ 255 := number_le h
  exact ⟨_, rfl, UInt8.toNat_ofNat_of_lt' (Nat.lt_succ_of_le hle)⟩

/-- A group without a fault asks for as many digits as its value is the number of. -/
theorem digits_accepted {text : String} (h : (digits (some text)).fault? = none) :
    ∃ n : UInt32, (digits (some text)).precision? = some (.fixed n) ∧ n.toNat = number text := by
  have hle : number text ≤ 4294967295 := number_le h
  exact ⟨_, rfl, UInt32.toNat_ofNat_of_lt' (Nat.lt_succ_of_le hle)⟩

/-- Each dimension that a byte holds can be asked for. -/
theorem dimension_numeral (d : UInt8) :
    let g := dimension (some (String.ofList (numeral d.toNat)))
    g.fault? = none ∧ g.dimension? = some d := by
  refine ⟨valueFault?_numeral (Nat.le_of_lt_succ d.toNat_lt), ?_⟩
  rw [dimension?, number_numeral, UInt8.ofNat_toNat]

/-- Each digit count that a word holds can be asked for. -/
theorem digits_numeral (n : UInt32) :
    let g := digits (some (String.ofList (numeral n.toNat)))
    g.fault? = none ∧ g.precision? = some (.fixed n) := by
  refine ⟨valueFault?_numeral (Nat.le_of_lt_succ n.toNat_lt), ?_⟩
  rw [precision?, number_numeral, UInt32.ofNat_toNat]

/-- What groups ask for: of each value the last one, and SQL Server text with four ordinates if
there is no other dimension. -/
def requested (gs : List Group) : Settings where
  dimension := lastPicked dimension? (if sqlServer ∈ gs then 4 else 2) gs
  pretty := decide (pretty ∈ gs)
  perLine := 0
  indentWidth := 2
  precision := lastPicked precision? .floating gs
  dialect := if sqlServer ∈ gs then .sqlServer else .standard

end Group

/-! ### One group -/

namespace Arguments

/-- Notes what a group asks for. -/
def note (a : Arguments) : Group → Arguments
  | .dimension (some text) => { a with dimension := some (.ofNat (Group.number text)) }
  | .digits (some text) => { a with digits := some (.ofNat (Group.number text)) }
  | .pretty => { a with pretty := true }
  | .sqlServer => { a with sqlServer := true }
  | _ => a

/-- **A group** is noted and read over, or its fault ends the reading. -/
theorem readOnto_words (a : Arguments) (g : Group) {rest : List String}
    (hrest : g.LacksValue → rest = []) :
    a.readOnto (g.words ++ rest) =
      match g.fault? with
      | some fault => .error fault
      | .none => (a.note g).readOnto rest := by
  cases g with
  | dimension value =>
    cases value with
    | none =>
      rw [hrest trivial]
      rfl
    | some text =>
      show a.readOnto ("--dim" :: text :: rest) = _
      rw [readOnto, readNumber_eq, Group.fault?, Group.valueFault?]
      cases numberFault? 255 text.toList <;> rfl
  | digits value =>
    cases value with
    | none =>
      rw [hrest trivial]
      rfl
    | some text =>
      show a.readOnto ("--digits" :: text :: rest) = _
      rw [readOnto, readNumber_eq, Group.fault?, Group.valueFault?]
      cases numberFault? 4294967295 text.toList <;> rfl
  | pretty => rfl
  | sqlServer => rfl
  | help long => cases long <;> rfl
  | unknown word hword =>
    simp only [flagWords, List.mem_cons, List.not_mem_nil, or_false, not_or] at hword
    obtain ⟨hdim, hdigits, hpretty, hsql, hshort, hlong⟩ := hword
    show a.readOnto (word :: rest) = .error (.unknown word)
    simp [readOnto, *]

/-! ### Groups in order -/

/-- **Groups without a fault** are noted in order, and reading goes on behind them. -/
theorem readOnto_flatMap_words : ∀ {gs : List Group}, (∀ g ∈ gs, g.fault? = .none) →
    ∀ (a : Arguments) (rest : List String),
      a.readOnto (gs.flatMap Group.words ++ rest) = (gs.foldl note a).readOnto rest
  | [], _, _, _ => rfl
  | g :: gs, hgs, a, rest => by
    have hg : g.fault? = .none := hgs g List.mem_cons_self
    have hvalue : g.LacksValue → gs.flatMap Group.words ++ rest = [] := by
      intro hlacks
      rw [Group.fault?_of_lacksValue hlacks] at hg
      cases hg
    rw [List.flatMap_cons, List.append_assoc, readOnto_words a g hvalue, hg]
    exact readOnto_flatMap_words (fun g' hg' => hgs g' (List.mem_cons_of_mem g hg')) _ rest

variable (gs : List Group) (a : Arguments)

theorem dimension_foldl_note (d : UInt8) :
    (gs.foldl note a).dimension.getD d = lastPicked Group.dimension? (a.dimension.getD d) gs :=
  foldl_eq_lastPicked (fun a : Arguments => a.dimension.getD d) (fun a g => by
    rcases g with (_ | _) | (_ | _) | _ | _ | _ | _ <;> rfl) gs a

theorem precision_foldl_note (p : Precision) :
    ((gs.foldl note a).digits.map Precision.fixed).getD p =
      lastPicked Group.precision? ((a.digits.map Precision.fixed).getD p) gs :=
  foldl_eq_lastPicked (fun a : Arguments => (a.digits.map Precision.fixed).getD p)
    (fun a g => by rcases g with (_ | _) | (_ | _) | _ | _ | _ | _ <;> rfl) gs a

/-- A flag that a group sets and none takes back is set if the group is there. -/
theorem flag_foldl_note {look : Arguments → Bool} {flag : Group}
    (h : ∀ a g, look (note a g) = (look a || decide (g = flag))) :
    look (gs.foldl note a) = (look a || decide (flag ∈ gs)) := by
  induction gs generalizing a with
  | nil => simp
  | cons g gs ih =>
    rw [List.foldl_cons, ih, h, Bool.or_assoc]
    simp [eq_comm]

theorem pretty_foldl_note : (gs.foldl note a).pretty = (a.pretty || decide (.pretty ∈ gs)) :=
  flag_foldl_note gs a fun a g => by
    rcases g with (_ | _) | (_ | _) | _ | _ | _ | _ <;> simp [note]

theorem sqlServer_foldl_note :
    (gs.foldl note a).sqlServer = (a.sqlServer || decide (.sqlServer ∈ gs)) :=
  flag_foldl_note gs a fun a g => by
    rcases g with (_ | _) | (_ | _) | _ | _ | _ | _ <;> simp [note]

/-! ### What is put together -/

/-- An explicit dimension counts more than the one of the preset. -/
theorem ofList_settings : Settings.ofList a.settings =
    ⟨a.dimension.getD (if a.sqlServer then 4 else 2), a.pretty, 0, 2,
      (a.digits.map Precision.fixed).getD .floating,
      if a.sqlServer then .sqlServer else .standard⟩ := by
  obtain ⟨dimension, digits, pretty, sqlServer⟩ := a
  cases dimension <;> cases digits <;> cases sqlServer <;> rfl

theorem ofList_settings_foldl_note :
    Settings.ofList (gs.foldl note none).settings = Group.requested gs := by
  have hpretty : (gs.foldl note none).pretty = decide (.pretty ∈ gs) := pretty_foldl_note gs none
  have hsql : (gs.foldl note none).sqlServer = decide (.sqlServer ∈ gs) :=
    sqlServer_foldl_note gs none
  rw [ofList_settings, dimension_foldl_note, precision_foldl_note, hpretty, hsql]
  simp only [decide_eq_true_eq]
  rfl

theorem build_of_mapError {s : Settings} {c : Config}
    (h : s.build.mapError ArgumentFault.settings = .ok c) : s.build = .ok c := by
  cases hbuild : s.build with
  | ok d =>
    rw [hbuild] at h
    cases h
    rfl
  | error fault =>
    rw [hbuild] at h
    cases h

variable {gs}

/-- **Groups without a fault** give what they ask for, if it can be had. -/
theorem config_flatMap_words (hgs : ∀ g ∈ gs, g.fault? = .none) :
    config (gs.flatMap Group.words) = (Group.requested gs).build.mapError .settings := by
  have hread : read (gs.flatMap Group.words) = .ok (gs.foldl note none) := by
    rw [read, ← List.append_nil (gs.flatMap Group.words), readOnto_flatMap_words hgs]
    rfl
  rw [config, hread, ← ofList_settings_foldl_note]
  rfl

theorem config_of_no_dimension (hgs : ∀ g ∈ gs, g.fault? = .none)
    (h : (Group.requested gs).dimension ∉ [2, 3, 4]) :
    config (gs.flatMap Group.words) =
      .error (.settings (.invalidDimension (Group.requested gs).dimension)) := by
  rw [config_flatMap_words hgs, Settings.build_of_no_dimension h]
  rfl

/-- There is a configuration if the dimension is one. The indent width cannot be asked for. -/
theorem exists_config_iff (hgs : ∀ g ∈ gs, g.fault? = .none) :
    (∃ c, config (gs.flatMap Group.words) = .ok c) ↔
      (Group.requested gs).dimension ∈ [2, 3, 4] := by
  constructor
  · rintro ⟨c, hc⟩
    by_contra hdimension
    rw [config_of_no_dimension hgs hdimension] at hc
    cases hc
  · intro hdimension
    have hwidth : (Group.requested gs).indentWidth ≠ 0 := show (2 : UInt64) ≠ 0 by decide
    obtain ⟨c, -, hbuild⟩ := Settings.build_of_dimension hdimension
    rw [config_flatMap_words hgs, hbuild, if_neg hwidth]
    exact ⟨c, rfl⟩

/-- A configuration that is had is the one that is asked for. -/
theorem requested_of_config (hgs : ∀ g ∈ gs, g.fault? = .none) {c : Config}
    (h : config (gs.flatMap Group.words) = .ok c) :
    Ordinates.ofDimension? (Group.requested gs).dimension = some c.ordinates ∧
      Settings.ofConfig c = Group.requested gs := by
  rw [config_flatMap_words hgs] at h
  have hbuild := build_of_mapError h
  exact ⟨Settings.ordinates_of_build hbuild, (Settings.of_build hbuild).1⟩

/-- **The first group with a fault** decides, whatever stands behind it. -/
theorem config_of_fault (hgs : ∀ g ∈ gs, g.fault? = .none) {g : Group} {fault : ArgumentFault}
    (hfault : g.fault? = some fault) {rest : List String} (hrest : g.LacksValue → rest = []) :
    config (gs.flatMap Group.words ++ (g.words ++ rest)) = .error fault := by
  rw [config, read, readOnto_flatMap_words hgs, readOnto_words _ g hrest, hfault]
  rfl

end Arguments

/-! ### Every list of arguments -/

/-- Some group stands at the front of each list of arguments. -/
theorem exists_group (word : String) (rest : List String) :
    ∃ (g : Group) (behind : List String),
      word :: rest = g.words ++ behind ∧ (g.LacksValue → behind = []) := by
  by_cases hword : word ∈ flagWords
  · simp only [flagWords, List.mem_cons, List.not_mem_nil, or_false] at hword
    rcases hword with rfl | rfl | rfl | rfl | rfl | rfl
    · cases rest with
      | nil => exact ⟨.dimension none, [], rfl, fun _ => rfl⟩
      | cons text rest => exact ⟨.dimension (some text), rest, rfl, False.elim⟩
    · cases rest with
      | nil => exact ⟨.digits none, [], rfl, fun _ => rfl⟩
      | cons text rest => exact ⟨.digits (some text), rest, rfl, False.elim⟩
    · exact ⟨.pretty, rest, rfl, False.elim⟩
    · exact ⟨.sqlServer, rest, rfl, False.elim⟩
    · exact ⟨.help false, rest, rfl, False.elim⟩
    · exact ⟨.help true, rest, rfl, False.elim⟩
  · exact ⟨.unknown word hword, rest, rfl, False.elim⟩

/-- **Each list of arguments** is made of groups without a fault, up to the end or up to a group
with one. -/
theorem exists_groups (arguments : List String) :
    ∃ gs : List Group, (∀ g ∈ gs, g.fault? = none) ∧
      (arguments = gs.flatMap Group.words ∨
        ∃ (g : Group) (fault : ArgumentFault) (rest : List String), g.fault? = some fault ∧
          (g.LacksValue → rest = []) ∧
          arguments = gs.flatMap Group.words ++ (g.words ++ rest)) := by
  induction hlength : arguments.length using Nat.strongRecOn generalizing arguments with
  | ind n ih =>
    cases arguments with
    | nil => exact ⟨[], by simp, .inl rfl⟩
    | cons word rest =>
      obtain ⟨g, behind, hwords, hvalue⟩ := exists_group word rest
      cases hg : g.fault? with
      | some fault => exact ⟨[], by simp, .inr ⟨g, fault, behind, hg, hvalue, hwords⟩⟩
      | none =>
        have hshorter : behind.length < n := by
          rw [← hlength, hwords, List.length_append]
          cases g <;> simp [Group.words]
        obtain ⟨gs, hgs, hrest⟩ := ih _ hshorter behind rfl
        refine ⟨g :: gs, by simpa using ⟨hg, hgs⟩, ?_⟩
        rw [hwords, List.flatMap_cons]
        rcases hrest with rfl | ⟨g', fault, rest', hfault, hvalue', rfl⟩
        · exact .inl rfl
        · exact .inr ⟨g', fault, rest', hfault, hvalue', (List.append_assoc ..).symm⟩

/-- **Flags count wherever they stand, and the last value of each counts.** Of groups without a
fault, in any order and any number, only the last dimension, the last digit count and whether each
of the two other flags is there matter. With the last dimension, or else 4 for SQL Server text and 2
without it, they give a configuration if and only if that dimension is 2, 3 or 4, and then the one
they ask for. The first group with a fault is what is reported, whatever stands behind it. Each
dimension and each digit count can be asked for, by its number, and each list of arguments is made
of such groups. -/
theorem Arguments.flags_in_any_order :
    (∀ gs : List Group, (∀ g ∈ gs, g.fault? = Option.none) →
      let d := lastPicked Group.dimension? (if .sqlServer ∈ gs then 4 else 2) gs
      ((∃ c, config (gs.flatMap Group.words) = .ok c) ↔ d ∈ [2, 3, 4]) ∧
      (d ∉ [2, 3, 4] →
        config (gs.flatMap Group.words) = .error (.settings (.invalidDimension d))) ∧
      (∀ c, config (gs.flatMap Group.words) = .ok c →
        Ordinates.ofDimension? d = some c.ordinates ∧ c.dimension = d ∧
        (c.pretty = true ↔ .pretty ∈ gs) ∧ c.perLine = 0 ∧ c.indentWidth = 2 ∧
        c.precision = lastPicked Group.precision? .floating gs ∧
        c.dialect = if .sqlServer ∈ gs then .sqlServer else .standard) ∧
      ∀ hs : List Group, (∀ g ∈ hs, g.fault? = Option.none) →
        (hs.filterMap Group.dimension?).getLast? = (gs.filterMap Group.dimension?).getLast? →
        (hs.filterMap Group.precision?).getLast? = (gs.filterMap Group.precision?).getLast? →
        (.pretty ∈ hs ↔ .pretty ∈ gs) → (.sqlServer ∈ hs ↔ .sqlServer ∈ gs) →
        config (hs.flatMap Group.words) = config (gs.flatMap Group.words)) ∧
    (∀ (gs : List Group) (g : Group) (fault : ArgumentFault) (rest : List String),
      (∀ g ∈ gs, g.fault? = Option.none) → g.fault? = some fault → (g.LacksValue → rest = []) →
      config (gs.flatMap Group.words ++ (g.words ++ rest)) = .error fault) ∧
    (∀ d : UInt8, ∃ text : String, (Group.dimension (some text)).fault? = Option.none ∧
      (Group.dimension (some text)).dimension? = some d) ∧
    (∀ text : String, (Group.dimension (some text)).fault? = Option.none →
      ∃ d, (Group.dimension (some text)).dimension? = some d ∧ d.toNat = Group.number text) ∧
    (∀ n : UInt32, ∃ text : String, (Group.digits (some text)).fault? = Option.none ∧
      (Group.digits (some text)).precision? = some (.fixed n)) ∧
    (∀ text : String, (Group.digits (some text)).fault? = Option.none →
      ∃ n, (Group.digits (some text)).precision? = some (.fixed n) ∧ n.toNat = Group.number text) ∧
    ∀ arguments : List String, ∃ gs : List Group, (∀ g ∈ gs, g.fault? = Option.none) ∧
      (arguments = gs.flatMap Group.words ∨
        ∃ (g : Group) (fault : ArgumentFault) (rest : List String), g.fault? = some fault ∧
          (g.LacksValue → rest = []) ∧
          arguments = gs.flatMap Group.words ++ (g.words ++ rest)) := by
  refine ⟨fun gs hgs => ?_,
    fun gs g fault rest hgs hfault hrest => config_of_fault hgs hfault hrest,
    fun d => ⟨_, Group.dimension_numeral d⟩, fun text => Group.dimension_accepted,
    fun n => ⟨_, Group.digits_numeral n⟩, fun text => Group.digits_accepted, exists_groups⟩
  refine ⟨exists_config_iff hgs, config_of_no_dimension hgs, fun c hc => ?_,
    fun hs hhs hdim hprec hpretty hsql => ?_⟩
  · obtain ⟨hordinates, hconfig⟩ := requested_of_config hgs hc
    have hpretty : c.pretty = decide (.pretty ∈ gs) := congrArg Settings.pretty hconfig
    exact ⟨hordinates, congrArg Settings.dimension hconfig,
      by rw [hpretty, decide_eq_true_eq], congrArg Settings.perLine hconfig,
      congrArg Settings.indentWidth hconfig, congrArg Settings.precision hconfig,
      congrArg Settings.dialect hconfig⟩
  · have hrequested : Group.requested hs = Group.requested gs := by
      simp only [Group.requested, lastPicked, hdim, hprec, hpretty, hsql]
    rw [config_flatMap_words hhs, hrequested, config_flatMap_words hgs]

/-- A dimension that is out of range is repaired behind the preset, and a digit count that is no
number is reported before the help behind it is seen. -/
theorem Arguments.flags_in_any_order_repaired :
    let gs : List Group := [.dimension (some "9"), .sqlServer, .dimension (some "+3"), .pretty]
    let arguments : List String := ["--dim", "9", "--sql-server", "--dim", "+3", "--pretty"]
    (∀ g ∈ gs, g.fault? = Option.none) ∧
    (∃ c, config arguments = .ok c ∧ c.dimension = 3 ∧ c.dialect = .sqlServer) ∧
    config (arguments ++ ["--digits", "-1", "--help"]) = .error (.number .invalidDigit) := by
  intro gs arguments
  have hgs : ∀ g ∈ gs, g.fault? = Option.none := by decide
  have hdimension : lastPicked Group.dimension? (if .sqlServer ∈ gs then 4 else 2) gs = 3 := by
    decide
  obtain ⟨⟨-, hok⟩, -, hasked, -⟩ := flags_in_any_order.1 gs hgs
  rw [hdimension] at hok hasked
  obtain ⟨c, hc⟩ := hok (by decide)
  obtain ⟨-, hthree, -, -, -, -, hdialect⟩ := hasked c hc
  exact ⟨hgs, ⟨c, hc, hthree, hdialect⟩,
    flags_in_any_order.2.1 gs (.digits (some "-1")) _ ["--help"] hgs rfl False.elim⟩

end LatLonText.CommandLine
