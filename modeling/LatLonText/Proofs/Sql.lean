/-
# What the database functions answer

The answer of a function follows from its arguments by rules, and the rules are
checked from the outside in: the dimension before the geometry, and of the
dimension its type before its value. What is left to the geometry is the same
for all functions, given a configuration (`Answers`), and leaves one answer
(`answers_iff`).

A function that is created answers to the calls of its name and count of arguments,
and what the other calls are answered stays (`Database.answer?_put`). The three
functions differ in name or count, so none of them takes the calls of another,
whatever has been created before. So the functions agree with each other and with
the writer (`Database.callWith_follows_rules`).

A whole number that is no byte stands for 255, which is no dimension either; it
is never taken modulo 256 (`toNat_dimensionOf`).

Key definitions: `Answers`.
Key theorems: `answers_iff`, `configFor_of_dimension`, `configFor_of_no_dimension`,
`Database.answer?_put`, `Database.callWith_follows_rules`.
-/
import LatLonText.Proofs.Sink
import LatLonText.Sql

namespace LatLonText.Sql

variable (read : List UInt8 → Except Wkb.Error Shape)

/-! ### The geometry -/

/-- The answer for a geometry under a configuration: NULL for NULL, a fault of the first argument for
any other value that is no blob, the fault of a blob that cannot be read, and else the text of the
geometry in the blob. -/
structure Answers (c : Config) (g : Value) (answer : Except Failure (Option String)) : Prop where
  null : g.type = .null → answer = .ok none
  wrongType : g.type = .integer ∨ g.type = .real ∨ g.type = .text →
    answer = .error (.parameterType .blob 0)
  unreadable : ∀ bytes fault, g = .blob bytes → Geometry.ofBlobWith read bytes = .error fault →
    answer = .error (.rejected fault)
  text : ∀ bytes geometry, g = .blob bytes → Geometry.ofBlobWith read bytes = .ok geometry →
    answer = .ok (some (c.write geometry))

theorem type_eq_blob_iff (g : Value) : g.type = .blob ↔ ∃ bytes, g = .blob bytes := by
  cases g with
  | real v =>
    simp only [Value.type, reduceCtorEq, exists_false, iff_false]
    split <;> simp
  | _ => simp [Value.type]

theorem geometryText_of_type_ne_blob (c : Config) {g : Value} (h : g.type ≠ .blob) :
    geometryText read c g = if g.type = .null then .ok none else .error (.parameterType .blob 0) := by
  cases g with
  | blob bytes => exact absurd rfl h
  | _ => rfl

theorem answers_geometryText (c : Config) (g : Value) :
    Answers read c g (geometryText read c g) where
  null h := by
    rw [geometryText_of_type_ne_blob read c (by rw [h]; decide), if_pos h]
  wrongType h := by
    have hne : g.type ≠ .blob ∧ g.type ≠ .null := by
      rcases h with h | h | h <;> rw [h] <;> decide
    rw [geometryText_of_type_ne_blob read c hne.1, if_neg hne.2]
  unreadable bytes fault hg hread := by
    subst hg
    rw [geometryText, hread]
    rfl
  text bytes geometry hg hread := by
    subst hg
    rw [geometryText, hread]
    show ((c.writeText geometry).mapError Failure.rejected).bind (fun text => .ok (some text)) = _
    rw [c.writeText_eq]
    rfl

/-- **The rules for the geometry leave one answer.** -/
theorem answers_iff {c : Config} {g : Value} {answer : Except Failure (Option String)} :
    Answers read c g answer ↔ answer = geometryText read c g := by
  have hrules := answers_geometryText read c g
  constructor
  · intro h
    cases htype : g.type with
    | null => rw [h.null htype, hrules.null htype]
    | integer => rw [h.wrongType (.inl htype), hrules.wrongType (.inl htype)]
    | real => rw [h.wrongType (.inr (.inl htype)), hrules.wrongType (.inr (.inl htype))]
    | text => rw [h.wrongType (.inr (.inr htype)), hrules.wrongType (.inr (.inr htype))]
    | blob =>
      obtain ⟨bytes, hg⟩ := (type_eq_blob_iff g).mp htype
      cases hread : Geometry.ofBlobWith read bytes with
      | error fault => rw [h.unreadable bytes fault hg hread, hrules.unreadable bytes fault hg hread]
      | ok geometry => rw [h.text bytes geometry hg hread, hrules.text bytes geometry hg hread]
  · rintro rfl
    exact hrules

/-! ### The dimension -/

/-- The dimensions, and the ordinates that each of them asks for. -/
def dimensions : List (UInt8 × Ordinates) :=
  [(2, .xy), (3, .xyz), (4, .xyzm)]

/-- A whole number is taken for what it is if it is a byte, and else for 255. -/
theorem toNat_dimensionOf (n : Int) :
    ((dimensionOf n).toNat : Int) = if 0 ≤ n ∧ n ≤ 255 then n else 255 := by
  unfold dimensionOf
  by_cases h : 0 ≤ n ∧ n ≤ 255
  · have hlt : n.toNat < 2 ^ 8 := by omega
    rw [if_pos (by simpa using h), if_pos h, UInt8.toNat_ofNat_of_lt' hlt]
    omega
  · rw [if_neg (by simpa using h), if_neg h]
    rfl

theorem configFor_integer (n : Int) :
    configFor (.integer n) =
      match Ordinates.ofDimension? (dimensionOf n) with
      | some o => .ok { Config.default with ordinates := o }
      | none => .error (.rejected (.invalidDimension (dimensionOf n))) := by
  have hbuild : (Settings.ofList [.dimension (dimensionOf n)]).build =
      match Ordinates.ofDimension? (dimensionOf n) with
      | some o => .ok { Config.default with ordinates := o }
      | none => .error (.invalidDimension (dimensionOf n)) := by
    show Settings.build { Settings.default with dimension := dimensionOf n } = _
    unfold Settings.build
    cases Ordinates.ofDimension? (dimensionOf n) <;> rfl
  rw [configFor, hbuild]
  cases Ordinates.ofDimension? (dimensionOf n) <;> rfl

theorem mem_dimensions {k : UInt8} {o : Ordinates} (h : (k, o) ∈ dimensions) :
    (k = 2 ∧ o = .xy) ∨ (k = 3 ∧ o = .xyz) ∨ (k = 4 ∧ o = .xyzm) := by
  simpa [dimensions] using h

theorem dimension_of_mem_dimensions {k : UInt8} {o : Ordinates} (h : (k, o) ∈ dimensions) :
    o.dimension = k := by
  rcases mem_dimensions h with ⟨rfl, rfl⟩ | ⟨rfl, rfl⟩ | ⟨rfl, rfl⟩ <;> rfl

/-- **A dimension** gives the default configuration, but for the ordinates that it asks for. -/
theorem configFor_of_dimension {k : UInt8} {o : Ordinates} (h : (k, o) ∈ dimensions) :
    configFor (.integer k.toNat) = .ok { Config.default with ordinates := o } := by
  rcases mem_dimensions h with ⟨rfl, rfl⟩ | ⟨rfl, rfl⟩ | ⟨rfl, rfl⟩ <;> rfl

/-- **Any other number** is refused, by its value or as 255. -/
theorem configFor_of_no_dimension {n : Int} (h : n ≠ 2 ∧ n ≠ 3 ∧ n ≠ 4) :
    configFor (.integer n) = .error (.rejected (.invalidDimension (dimensionOf n))) := by
  have hvalue := toNat_dimensionOf n
  have hnone : Ordinates.ofDimension? (dimensionOf n) = none := by
    have hne : ∀ k : UInt8, k.toNat = 2 ∨ k.toNat = 3 ∨ k.toNat = 4 → dimensionOf n ≠ k := by
      intro k hk heq
      rw [heq] at hvalue
      split at hvalue <;> omega
    unfold Ordinates.ofDimension?
    rw [if_neg (hne 2 (.inl rfl)), if_neg (hne 3 (.inr (.inl rfl))), if_neg (hne 4 (.inr (.inr rfl)))]
  rw [configFor_integer, hnone]

theorem configFor_of_type_ne_integer {d : Value} (h : d.type ≠ .integer) :
    configFor d = .error (.parameterType d.type 1) := by
  cases d with
  | integer n => exact absurd rfl h
  | _ => rfl

/-! ### Calls -/

theorem isNamed_iff {name called : String} :
    isNamed name called = true ↔
      called.toList.map Char.toLower = name.toList.map Char.toLower :=
  beq_iff_eq

namespace Function

variable {f e : Function} {name : String} {count : Nat}

theorem isFor_iff :
    f.isFor name count = true ↔ isNamed f.name name = true ∧ f.arity = count := by
  rw [isFor, Bool.and_eq_true, beq_iff_eq]

/-- Functions with the same name and count of arguments are for the same calls. -/
theorem isFor_of_isFor (he : e.isFor f.name f.arity = true) (h : e.isFor name count = true) :
    f.isFor name count = true := by
  obtain ⟨hnamed, harity⟩ := isFor_iff.mp he
  obtain ⟨hcalled, hcount⟩ := isFor_iff.mp h
  refine isFor_iff.mpr ⟨?_, harity.symm.trans hcount⟩
  rw [isNamed_iff] at hnamed hcalled ⊢
  exact hcalled.trans hnamed.symm

theorem answer?_of_not_isFor {arguments : List Value}
    (h : ¬ f.isFor name arguments.length = true) : f.answer? read name arguments = none :=
  dif_neg h

end Function

namespace Database

/-- **What is created answers to its calls**, and what other calls are answered stays. -/
theorem answer?_put (db : Database) (f : Function) (name : String) (arguments : List Value) :
    (db.put f).answer? read name arguments =
      (f.answer? read name arguments).or (db.answer? read name arguments) := by
  rw [answer?, put, List.findSome?_cons]
  by_cases h : f.isFor name arguments.length = true
  · rw [Function.answer?, dif_pos h, Option.some_or]
  · rw [Function.answer?_of_not_isFor read h, Option.none_or, answer?]
    -- what was replaced was for the calls of the new function alone
    have hreplaced : ∀ e : Function, e.isFor f.name f.arity = true →
        e.answer? read name arguments = none := fun e he =>
      Function.answer?_of_not_isFor read fun hcalled => h (Function.isFor_of_isFor he hcalled)
    dsimp only
    induction db.functions with
    | nil => rfl
    | cons e es ih =>
      by_cases he : e.isFor f.name f.arity = true
      · rw [List.filter_cons_of_neg (by simp [he]), List.findSome?_cons, hreplaced e he]
        exact ih
      · rw [List.filter_cons_of_pos (by simp [he]), List.findSome?_cons, List.findSome?_cons, ih]

/-- Of the functions that are put into a database, the last one for a call answers it. -/
theorem answer?_foldl_put (name : String) (arguments : List Value) :
    ∀ (fs : List Function) (db : Database),
      (fs.foldl put db).answer? read name arguments =
        (fs.reverse.findSome? fun f => f.answer? read name arguments).or
          (db.answer? read name arguments)
  | [], _ => rfl
  | f :: fs, db => by
    rw [List.foldl_cons, answer?_foldl_put name arguments fs, answer?_put, List.reverse_cons,
      List.findSome?_append, List.findSome?_singleton, Option.or_assoc]

theorem run_create (f : Function) (db : Database) :
    (create f).run.run db =
      if db.active && db.functions.any (·.isFor f.name f.arity) then (.error .functionsInUse, db)
      else (.ok (), db.put f) :=
  rfl

/-- Functions that have been created one after the other are all there. -/
theorem eq_foldl_put_of_forM_create : ∀ (fs : List Function) {db registered : Database},
    (fs.forM create).run.run db = (.ok (), registered) → registered = fs.foldl put db
  | [], _, _, h => (congrArg Prod.snd h).symm
  | f :: fs, db, registered, h => by
    rw [List.forM_eq_forM, List.forM_cons, Action.run_bind, run_create] at h
    by_cases hinUse : (db.active && db.functions.any (·.isFor f.name f.arity)) = true
    · rw [if_pos hinUse] at h
      cases h
    · rw [if_neg hinUse] at h
      exact eq_foldl_put_of_forM_create fs h

/-- While no statement is being run, all functions can be created. -/
theorem forM_create_of_not_active : ∀ (fs : List Function) {db : Database}, db.active = false →
    (fs.forM create).run.run db = (.ok (), fs.foldl put db)
  | [], _, _ => rfl
  | f :: fs, db, h => by
    rw [List.forM_eq_forM, List.forM_cons, Action.run_bind, run_create, h, Bool.false_and]
    exact forM_create_of_not_active fs h

/-- Once one of the functions is there, none is registered while a statement is being run. -/
theorem register_of_active {db : Database} (h : db.active = true)
    (hinUse : db.functions.any (·.isFor "ST_AsGeographyText" 1) = true) :
    register.run.run db = (.error .functionsInUse, db) := by
  have hcreate : (create (.ofConfig "ST_AsGeographyText" .default)).run.run db =
      (.error .functionsInUse, db) := by
    rw [run_create, h, Bool.true_and]
    exact if_pos hinUse
  rw [register, textFunctions, List.forM_eq_forM, List.forM_cons, Action.run_bind, hcreate]

section Registered

variable {db registered : Database} (h : register.run.run db = (.ok (), registered))

include h

/-- Calls of the three functions are answered by them, whatever was there before. -/
theorem callWith_of_register {name : String} {arguments : List Value}
    {answer : Except Failure (Option String)}
    (hanswer : (textFunctions.reverse.findSome? fun f => f.answer? read name arguments) =
      some answer) :
    registered.callWith read name arguments = answer := by
  rw [callWith, eq_foldl_put_of_forM_create textFunctions h, answer?_foldl_put, hanswer,
    Option.some_or]

theorem callWith_geographyText (g : Value) :
    registered.callWith read "ST_AsGeographyText" [g] = geometryText read .default g :=
  callWith_of_register read h rfl

theorem callWith_geographyTextIn (g d : Value) :
    registered.callWith read "ST_AsGeographyText" [g, d] =
      (configFor d).bind fun c => geometryText read c g :=
  callWith_of_register read h rfl

theorem callWith_sqlServerText (g : Value) :
    registered.callWith read "ST_AsSqlServerText" [g] = geometryText read .sqlServer g :=
  callWith_of_register read h rfl

end Registered

/-- **The functions follow the rules, whatever they are called with**, however binary geometries are
read, and whatever functions the database had before. They can be registered while no statement is
being run. A dimension that is no whole number is refused by its type, whatever the geometry is; a
whole number that is no dimension is refused next, by its value or as 255 if it is no byte; and under
a dimension the answer is that for the geometry. Without a dimension the answer is that for two
dimensions, and the answer for SQL Server follows the same rules for the geometry. -/
theorem callWith_follows_rules (db : Database) (g d : Value) :
    (db.active = false → ∃ registered, register.run.run db = (.ok (), registered)) ∧
    ∀ registered, register.run.run db = (.ok (), registered) →
      (d.type ≠ .integer →
        registered.callWith read "ST_AsGeographyText" [g, d] =
          .error (.parameterType d.type 1)) ∧
      (∀ n : Int, d = .integer n → n ≠ 2 ∧ n ≠ 3 ∧ n ≠ 4 →
        ∃ k : UInt8, (k.toNat : Int) = (if 0 ≤ n ∧ n ≤ 255 then n else 255) ∧
          registered.callWith read "ST_AsGeographyText" [g, d] =
            .error (.rejected (.invalidDimension k))) ∧
      (∀ (k : UInt8) (o : Ordinates), (k, o) ∈ dimensions → d = .integer k.toNat →
        o.dimension = k ∧ Answers read { Config.default with ordinates := o } g
          (registered.callWith read "ST_AsGeographyText" [g, d])) ∧
      registered.callWith read "ST_AsGeographyText" [g] =
        registered.callWith read "ST_AsGeographyText" [g, .integer 2] ∧
      Answers read .sqlServer g (registered.callWith read "ST_AsSqlServerText" [g]) := by
  refine ⟨fun hidle => ⟨_, forM_create_of_not_active textFunctions hidle⟩, fun registered h => ?_⟩
  refine ⟨?_, ?_, ?_, ?_, ?_⟩
  · intro htype
    rw [callWith_geographyTextIn read h, configFor_of_type_ne_integer htype]
    rfl
  · rintro n rfl hn
    refine ⟨dimensionOf n, toNat_dimensionOf n, ?_⟩
    rw [callWith_geographyTextIn read h, configFor_of_no_dimension hn]
    rfl
  · rintro k o hko rfl
    refine ⟨dimension_of_mem_dimensions hko, ?_⟩
    rw [answers_iff, callWith_geographyTextIn read h, configFor_of_dimension hko]
    rfl
  · have htwo : configFor (.integer 2) = .ok Config.default := rfl
    rw [callWith_geographyText read h, callWith_geographyTextIn read h, htwo]
    rfl
  · rw [answers_iff, callWith_sqlServerText read h]

/-- In a new database: faults of both arguments at once, a number that is two modulo 256, and a point
in three dimensions. -/
theorem callWith_follows_rules_mixed :
    let header : Value := .blob [0x47, 0x50]
    let pointBytes : List UInt8 := [1, 0xe9, 3, 0, 0, 0, 0, 0, 0, 0, 0, 0xf0, 0x3f,
      0, 0, 0, 0, 0, 0, 0, 0x40, 0, 0, 0, 0, 0, 0, 8, 0x40]
    ∃ registered, register.run.run ⟨[], false⟩ = (.ok (), registered) ∧
      registered.call "ST_AsGeographyText" [header, .text "3"] = .error (.parameterType .text 1) ∧
      registered.call "ST_AsGeographyText" [.null, .integer 258] =
        .error (.rejected (.invalidDimension 255)) ∧
      registered.call "ST_AsGeographyText" [header, .integer 4] =
        .error (.rejected (.truncatedHeader 2 8)) ∧
      registered.call "ST_AsGeographyText" [.blob pointBytes, .integer 3] =
        .ok (some "POINT Z (2 1 3)") := by
  intro header pointBytes
  have hrules := callWith_follows_rules Wkb.read ⟨[], false⟩
  obtain ⟨registered, h⟩ := (hrules .null .null).1 rfl
  refine ⟨registered, h, ((hrules header (.text "3")).2 registered h).1 (by decide), ?_, ?_, ?_⟩
  · obtain ⟨k, hk, hcall⟩ := ((hrules .null (.integer 258)).2 registered h).2.1 258 rfl (by decide)
    have hvalue : k.toNat = 255 := Int.ofNat_inj.mp hk
    obtain rfl : k = 255 := UInt8.toNat_inj.mp hvalue
    exact hcall
  · obtain ⟨-, hanswers⟩ :=
      ((hrules header (.integer 4)).2 registered h).2.2.1 4 .xyzm (by decide) rfl
    exact hanswers.unreadable [0x47, 0x50] (.truncatedHeader 2 8) rfl rfl
  · obtain ⟨-, hanswers⟩ :=
      ((hrules (.blob pointBytes) (.integer 3)).2 registered h).2.2.1 3 .xyz (by decide) rfl
    have htext : (Geometry.ofBlob pointBytes).toOption.map
        { Config.default with ordinates := .xyz }.write = some "POINT Z (2 1 3)" := by decide +kernel
    cases hread : Geometry.ofBlob pointBytes with
    | error fault =>
      rw [hread] at htext
      cases htext
    | ok geometry =>
      rw [hread] at htext
      exact (hanswers.text pointBytes geometry rfl hread).trans (congrArg Except.ok htext)

end Database

end LatLonText.Sql
