/-
# A sink holds a beginning of what is written

A limited state holds a sink: of the units that it is offered it takes those that
fit, and it fails if that is not all of them (`Limited.offer`). In how many parts
the units are offered does not matter, since after a refusal nothing more is taken
(`Limited.offer_append`, `Limited.forM_offer`). A sink of characters is such a
state, and so is a store of bytes under `writeAll`, where the fault comes from the
one call that finds no room (`writeAll_eq`). So a writing, which is a list of puts,
is one offer of the whole text, and writings in order are one offer of all texts:
however a full sink cuts the puts, it holds the beginning of all texts together
that fits, and a write succeeds exactly if everything up to its end fits
(`sinks_hold_beginnings`).

Of other sinks of bytes nothing is known, but what they answer is passed on: a
writing fails with the fault of the sink (`Config.writeBytes_eq_forM`).

Key definitions: `Sink.offer`, `Sink.fits`, `Limited`, `Limited.offer`,
`writesInOrder`.
Key theorems: `Limited.forM_offer`, `writeAll_eq`, `Config.writeBytes_eq_forM`,
`Config.writeText_eq`, `sinks_hold_beginnings`.
-/
import LatLonText.Proofs.Printer
import Mathlib.Tactic.Set

namespace LatLonText

namespace Sink

variable {α : Type}

/-- The beginning of units that fits, all of them if there is no limit. -/
def beginning (s : Sink α) (units : List α) : List α :=
  match s.room with
  | none => units
  | some n => units.take n

/-- Whether so many units fit. -/
def fits (s : Sink α) (count : Nat) : Bool :=
  match s.room with
  | none => true
  | some n => decide (count ≤ n)

/-- The sink after it has taken the beginning of units that fits. -/
def offer (s : Sink α) (units : List α) : Sink α := s.push (s.beginning units)

variable (s : Sink α)

theorem content_offer (units : List α) :
    (s.offer units).content.toList = s.content.toList ++ s.beginning units :=
  toList_content_push s _

theorem push_nil : s.push [] = s := by
  obtain ⟨content, _ | n⟩ := s <;> simp [push]

theorem offer_nil : s.offer [] = s := by
  have hbeginning : s.beginning [] = [] := by
    obtain ⟨content, _ | n⟩ := s <;> simp [beginning]
  rw [offer, hbeginning, push_nil]

theorem fits_zero : s.fits 0 = true := by
  obtain ⟨content, _ | n⟩ := s <;> simp [fits]

theorem capacity_eq_iff (count : Nat) : s.capacity count = count ↔ s.fits count = true := by
  obtain ⟨content, _ | n⟩ := s
  · simp [capacity, fits]
  · simp only [capacity, fits, decide_eq_true_eq]
    omega

theorem take_capacity (units : List α) : units.take (s.capacity units.length) = s.beginning units := by
  obtain ⟨content, _ | n⟩ := s
  · simp [capacity, beginning]
  · simp only [capacity, beginning, List.take_eq_take_iff]
    omega

theorem offer_take_capacity (units : List α) :
    s.offer (units.take (s.capacity units.length)) = s.offer units := by
  have hbeginning : s.beginning (s.beginning units) = s.beginning units := by
    obtain ⟨content, _ | n⟩ := s <;> simp [beginning, List.take_take]
  rw [take_capacity, offer, hbeginning, offer]

theorem fits_take_capacity (units : List α) :
    s.fits (units.take (s.capacity units.length)).length = true := by
  obtain ⟨content, _ | n⟩ := s
  · rfl
  · simp only [fits, capacity, List.length_take, decide_eq_true_eq]
    omega

/-- Offering units in two parts is offering them at once. -/
theorem offer_offer (a b : List α) : (s.offer a).offer b = s.offer (a ++ b) := by
  obtain ⟨content, _ | n⟩ := s
  · simp [offer, beginning, push]
  · simp only [offer, beginning, push, Option.map_some, List.length_take, Sink.mk.injEq,
      Option.some.injEq, List.length_append]
    have hroom : n - min n a.length = n - a.length := by omega
    refine ⟨?_, by omega⟩
    rw [List.take_append, hroom]
    simp

/-- After a refusal nothing more is pushed. -/
theorem offer_append_of_refused {a : List α} (h : s.fits a.length = false) (b : List α) :
    s.offer (a ++ b) = s.offer a := by
  obtain ⟨content, _ | n⟩ := s
  · simp [fits] at h
  · have hn : n < a.length := by simpa [fits] using h
    simp only [offer, beginning, List.take_append_of_le_length (Nat.le_of_lt hn)]

/-- A second part fits if both fit together, provided that the first one fits or the second is not
empty. -/
theorem fits_offer {a b : List α} (h : s.fits a.length = true ∨ b ≠ []) :
    (s.offer a).fits b.length = s.fits (a ++ b).length := by
  obtain ⟨content, _ | n⟩ := s
  · rfl
  · have hb : a.length ≤ n ∨ 0 < b.length :=
      h.imp (fun ha => by simpa [fits] using ha) List.length_pos_iff.mpr
    simp only [offer, beginning, push, fits, Option.map_some, List.length_take, List.length_append,
      decide_eq_decide]
    omega

/-- What does not fit in part does not fit. -/
theorem fits_append_of_refused {a : List α} (h : s.fits a.length = false) (b : List α) :
    s.fits (a ++ b).length = false := by
  obtain ⟨content, _ | n⟩ := s
  · simp [fits] at h
  · simp only [fits, decide_eq_false_iff_not, List.length_append] at h ⊢
    omega

end Sink

/-! ### Limited states -/

/-- How a state takes units: it holds a sink, and it has a failure for what does not fit. -/
structure Limited (ε σ α : Type) where
  sink : σ → Sink α
  /-- The state with another sink in it. -/
  replace : σ → Sink α → σ
  failure : σ → ε
  sink_replace : ∀ s k, sink (replace s k) = k := by intros; rfl
  replace_sink : ∀ s, replace s (sink s) = s := by intros; rfl
  replace_replace : ∀ s k k', replace (replace s k) k' = replace s k' := by intros; rfl
  failure_replace : ∀ s k, failure (replace s k) = failure s := by intros; rfl

namespace Limited

variable {ε δ σ α : Type} (l : Limited ε σ α)

/-- How an offer of so many units goes. -/
def outcome (s : σ) (count : Nat) : Except ε Unit :=
  if (l.sink s).fits count then .ok () else .error (l.failure s)

/-- Offers units. -/
def offer (units : List α) : Action ε σ Unit :=
  ExceptT.mk fun s => (l.outcome s units.length, l.replace s ((l.sink s).offer units))

theorem run_offer (units : List α) (s : σ) :
    (l.offer units).run.run s = (l.outcome s units.length, l.replace s ((l.sink s).offer units)) :=
  rfl

theorem offer_nil : l.offer [] = pure () := by
  apply Action.ext
  intro s
  rw [run_offer, outcome, Sink.offer_nil, l.replace_sink, List.length_nil, Sink.fits_zero]
  rfl

/-- **Offering units in two parts is offering them at once.** -/
theorem offer_append (a b : List α) : l.offer (a ++ b) = (do l.offer a; l.offer b) := by
  apply Action.ext
  intro s
  rw [Action.run_bind, run_offer, run_offer]
  by_cases h : (l.sink s).fits a.length = true
  · have hfits := (l.sink s).fits_offer (b := b) (.inl h)
    have houtcome : l.outcome s a.length = .ok () := if_pos h
    rw [houtcome]
    show _ = (l.offer b).run.run (l.replace s ((l.sink s).offer a))
    rw [run_offer, outcome, outcome, l.sink_replace, l.replace_replace, l.failure_replace, hfits,
      Sink.offer_offer]
  · rw [Bool.not_eq_true] at h
    have houtcome : l.outcome s a.length = .error (l.failure s) := by rw [outcome, h]; rfl
    rw [houtcome, outcome, Sink.fits_append_of_refused _ h, Sink.offer_append_of_refused _ h]
    rfl

/-- Offers one after the other are one offer of all units together. -/
theorem forM_offer : ∀ parts : List (List α), parts.forM l.offer = l.offer parts.flatten
  | [] => l.offer_nil.symm
  | a :: parts => by
    rw [List.flatten_cons, offer_append, ← forM_offer parts]
    rfl

/-- The same state with other words for its failure. -/
def adapt (f : ε → δ) : Limited δ σ α where
  sink := l.sink
  replace := l.replace
  failure s := f (l.failure s)
  sink_replace := l.sink_replace
  replace_sink := l.replace_sink
  replace_replace := l.replace_replace
  failure_replace s k := congrArg f (l.failure_replace s k)

theorem outcome_adapt (f : ε → δ) (s : σ) (count : Nat) :
    (l.adapt f).outcome s count = (l.outcome s count).mapError f := by
  show (if (l.sink s).fits count then _ else _) = _
  unfold outcome
  split <;> rfl

theorem adapt_offer (f : ε → δ) (units : List α) :
    ((l.offer units).adapt f : Action δ σ Unit) = (l.adapt f).offer units := by
  apply Action.ext
  intro s
  rw [Action.run_adapt, run_offer, run_offer, outcome_adapt]
  rfl

end Limited

/-! ### Text -/

/-- A sink of characters is limited, and refuses a text. -/
def Limited.text : Limited Refusal (Sink Char) Char where
  sink s := s
  replace _ s := s
  failure _ := .refused

theorem put_eq (text : List Char) :
    (TextSink.put text : Writing (Sink Char) Unit) = Limited.text.offer text := by
  apply Action.ext
  intro s
  rw [Limited.run_offer, Limited.outcome]
  show (if s.capacity text.length = text.length then _ else _,
    s.push (text.take (s.capacity text.length))) = _
  simp only [Sink.take_capacity, Sink.capacity_eq_iff]
  rfl

/-! ### Bytes -/

/-- The fault of a full store: its own, or the one of a call that has taken nothing. -/
def ByteStore.fault (s : ByteStore) : WriteFault :=
  match s.whenFull with
  | .fails fault => fault
  | .takesNothing => .wroteNothing

/-- A store of bytes is limited. -/
def Limited.bytes : Limited WriteFault ByteStore UInt8 where
  sink := ByteStore.bytes
  replace s bytes := { s with bytes }
  failure := ByteStore.fault

/-- A call that finds room takes the beginning that fits. -/
theorem write_of_room {s : ByteStore} {bytes : List UInt8} (h : s.bytes.capacity bytes.length ≠ 0) :
    (ByteSink.write bytes : Action WriteFault ByteStore Nat).run.run s =
      (.ok (s.bytes.capacity bytes.length), { s with bytes := s.bytes.offer bytes }) := by
  have hsome : (s.bytes.capacity bytes.length = 0 && !bytes.isEmpty) = false := by
    simp [h]
  show (if _ then _ else _ : _ × _) = _
  rw [hsome, if_neg (by decide), Sink.take_capacity]
  rfl

/-- A call that finds none fails or takes nothing, and leaves the store as it is. -/
theorem write_of_full {s : ByteStore} {b : UInt8} {bytes : List UInt8}
    (h : s.bytes.capacity (b :: bytes).length = 0) :
    (ByteSink.write (b :: bytes) : Action WriteFault ByteStore Nat).run.run s =
      match s.whenFull with
      | .fails fault => (.error fault, s)
      | .takesNothing => (.ok 0, s) := by
  have hnone : (s.bytes.capacity (b :: bytes).length = 0 && !(b :: bytes).isEmpty) = true := by
    rw [h]
    rfl
  exact if_pos hnone

/-- **A store is offered all bytes at once**, in however many calls. -/
theorem writeAll_eq : ∀ bytes : List UInt8,
    (writeAll bytes : Action WriteFault ByteStore Unit) = Limited.bytes.offer bytes
  | [] => by rw [writeAll, Limited.offer_nil]
  | b :: bytes => by
    apply Action.ext
    intro s
    rw [writeAll, Action.run_bind, Limited.run_offer]
    set units := b :: bytes with hunits
    by_cases h : s.bytes.capacity units.length = 0
    · have hfits : s.bytes.fits units.length = false := by
        rw [← Bool.not_eq_true, ← Sink.capacity_eq_iff, h]
        exact Nat.succ_ne_zero _ ∘ Eq.symm
      have houtcome : Limited.bytes.outcome s units.length = .error s.fault :=
        if_neg (by rw [show (Limited.bytes.sink s).fits units.length = false from hfits]; decide)
      have hoffer : s.bytes.offer units = s.bytes := by
        rw [Sink.offer, ← Sink.take_capacity, h, List.take_zero, Sink.push_nil]
      rw [write_of_full h, houtcome]
      show _ = (Except.error s.fault, { s with bytes := s.bytes.offer units })
      rw [hoffer]
      show _ = (Except.error s.fault, s)
      unfold ByteStore.fault
      cases s.whenFull <;> rfl
    · obtain ⟨n, hn⟩ := Nat.exists_eq_succ_of_ne_zero h
      have hrest : units.drop (s.bytes.capacity units.length) = bytes.drop n := by
        rw [hn, hunits, List.drop_succ_cons]
      have hparts := List.take_append_drop (s.bytes.capacity units.length) units
      have hoffer := s.bytes.offer_offer (units.take (s.bytes.capacity units.length))
        (units.drop (s.bytes.capacity units.length))
      have hfits := s.bytes.fits_offer (b := units.drop (s.bytes.capacity units.length))
        (.inl (s.bytes.fits_take_capacity units))
      rw [hparts, Sink.offer_take_capacity, hrest] at hoffer hfits
      rw [write_of_room h, hn]
      show (writeAll (bytes.drop n)).run.run _ = _
      rw [writeAll_eq (bytes.drop n), Limited.run_offer, Limited.outcome, Limited.outcome]
      show (if (s.bytes.offer units).fits (bytes.drop n).length then _ else _,
        { s with bytes := (s.bytes.offer units).offer (bytes.drop n) }) = _
      rw [hfits, hoffer]
      rfl
termination_by bytes => bytes.length
decreasing_by
  rw [List.length_drop, List.length_cons]
  omega

/-! ### Faults that are kept -/

namespace Utf8Sink

variable {σ : Type}

theorem run_through (w : Action WriteFault σ Unit) (s : Utf8Sink σ) :
    (through w).run.run s =
      match w.run.run s.inner with
      | (.ok (), inner) => (.ok (), { s with inner })
      | (.error fault, inner) => (.error .refused, ⟨inner, some fault⟩) :=
  rfl

/-- What is done in two parts to a sink of bytes may be done in one: a fault is kept in either. -/
theorem through_seq (v w : Action WriteFault σ Unit) :
    through (do v; w) = (do through v; through w) := by
  apply Action.ext
  intro s
  rw [run_through, Action.run_bind, Action.run_bind, run_through]
  rcases v.run.run s.inner with ⟨_ | _, next⟩ <;> rfl

/-- Puts in UTF-8 are bytes written one text after the other. -/
theorem forM_put [ByteSink σ] : ∀ texts : List (List Char),
    (texts.forM TextSink.put : Writing (Utf8Sink σ) Unit) =
      through (texts.forM fun text => writeAll (utf8 text))
  | [] => rfl
  | text :: texts => by
    rw [List.forM_eq_forM, List.forM_eq_forM, List.forM_cons, List.forM_cons, through_seq]
    rw [← List.forM_eq_forM, forM_put texts]
    rfl

end Utf8Sink

/-! ### Writing geometries -/

namespace Config

variable (c : Config) (g : Geometry)

/-- The text of a geometry begins with its tag. -/
theorem text_ne_nil : c.text g ≠ [] := by
  simp [text, pieces, Style.geometry_eq, Style.heading, Layout.breakAt_zero, Spelling.pieces,
    Spelling.piece, Spelling.start]

theorem toList_write : (c.write g).toList = c.text g := by
  simp [write]

/-- **A limited state is offered the text**, where a put is an offer. -/
theorem print_eq_offer {σ : Type} [TextSink σ] {l : Limited Refusal σ Char}
    (hput : ∀ text, TextSink.put text = l.offer text) :
    c.print g = l.offer (c.write g).toList := by
  have hputs : (TextSink.put : List Char → Writing σ Unit) = l.offer := funext hput
  rw [print_eq, hputs, Limited.forM_offer, flatten_puts, toList_write]

theorem writeInto_eq :
    c.writeInto g = (Limited.text.adapt fun _ => Error.textRefused).offer (c.write g).toList := by
  rw [writeInto, print_eq_offer c g put_eq, Limited.adapt_offer]

theorem run_writeBytes {σ : Type} [ByteSink σ] (out : σ) :
    (c.writeBytes g).run.run out =
      match (c.print g).run.run (⟨out, none⟩ : Utf8Sink σ) with
      | (.ok (), sink) => (.ok (), sink.inner)
      | (.error _, sink) => (.error (sink.fault.elim .textRefused .bytesRefused), sink.inner) :=
  rfl

/-- **Whatever a sink of bytes answers**, a writing offers it the text in UTF-8, and fails with the
fault of the sink and no other. -/
theorem writeBytes_eq_forM {σ : Type} [ByteSink σ] :
    (c.writeBytes g : Action Error σ Unit) =
      ((c.puts g).forM fun text => writeAll (utf8 text)).adapt .bytesRefused := by
  apply Action.ext
  intro out
  rw [Action.run_adapt, run_writeBytes, print_eq, Utf8Sink.forM_put, Utf8Sink.run_through]
  rcases (((c.puts g).forM fun text => writeAll (utf8 text)) : Action WriteFault σ Unit).run.run out
    with ⟨_ | _, next⟩ <;> rfl

/-- A writing into a sink of bytes is never refused without a fault. -/
theorem writeBytes_ne_textRefused {σ : Type} [ByteSink σ] (out : σ) :
    ((c.writeBytes g).run.run out).1 ≠ .error .textRefused := by
  rw [writeBytes_eq_forM, Action.run_adapt]
  rcases (((c.puts g).forM fun text => writeAll (utf8 text)) :
    Action WriteFault σ Unit).run.run out with ⟨_ | _, next⟩
  · exact fun h => Error.noConfusion (Except.error.inj h)
  · exact fun h => nomatch h

/-- The bytes of the text of a geometry. -/
def bytes : List UInt8 := (c.write g).toUTF8.data.toList

theorem bytes_eq : c.bytes g = utf8 (c.text g) := by
  simp [bytes, write, List.utf8Encode, utf8]

theorem bytes_ne_nil : c.bytes g ≠ [] := by
  obtain ⟨x, rest, h⟩ := List.exists_cons_of_ne_nil (c.text_ne_nil g)
  simp [bytes_eq, utf8, h]

theorem writeBytes_eq :
    c.writeBytes g = (Limited.bytes.adapt Error.bytesRefused).offer (c.bytes g) := by
  have hbytes : ((c.puts g).map utf8).flatten = c.bytes g := by
    rw [bytes_eq, ← flatten_puts, utf8_flatten]
  have hwrite : (writeAll : List UInt8 → Action WriteFault ByteStore Unit) = Limited.bytes.offer :=
    funext writeAll_eq
  rw [writeBytes_eq_forM, ← Limited.adapt_offer, ← hbytes, ← Limited.forM_offer, hwrite,
    List.forM_eq_forM, List.forM_eq_forM, List.forM_map]

/-! ### Strings -/

/-- A string takes all texts. -/
theorem forM_put_string : ∀ (texts : List (List Char)) (s : String),
    (texts.forM TextSink.put : Writing String Unit).run.run s =
      (.ok (), s ++ String.ofList texts.flatten)
  | [], s => by
    show (Except.ok (), s) = (Except.ok (), s ++ String.ofList [])
    rw [String.ofList_nil, String.append_empty]
  | text :: texts, s => by
    have hput : (TextSink.put text : Writing String Unit).run.run s =
        (.ok (), s ++ String.ofList text) := rfl
    rw [List.forM_eq_forM, List.forM_cons, Action.run_bind, hput, ← List.forM_eq_forM]
    show (texts.forM TextSink.put : Writing String Unit).run.run (s ++ String.ofList text) = _
    rw [forM_put_string texts, List.flatten_cons, String.ofList_append, String.append_assoc]

theorem run_print_string (s : String) :
    (c.print g : Writing String Unit).run.run s = (.ok (), s ++ c.write g) := by
  rw [print_eq, forM_put_string, flatten_puts, write]

theorem run_writeInto_string (s : String) :
    (c.writeInto g : Action Error String Unit).run.run s = (.ok (), s ++ c.write g) := by
  rw [writeInto, Action.run_adapt, run_print_string]
  rfl

/-- **A new string holds the text.** -/
theorem writeText_eq : c.writeText g = .ok (c.write g) := by
  unfold writeText
  rw [run_writeInto_string, String.empty_append]
  rfl

theorem writeFormattedText_eq : c.writeFormattedText g = .ok (c.writeFormatted g) :=
  c.formatted.writeText_eq g

/-- What is shown is what is written. -/
theorem display_eq : c.display g = some (c.write g) := by
  unfold display
  rw [run_print_string, String.empty_append]
  rfl

end Config

/-! ### Writing several geometries -/

/-- What is written, in order. -/
abbrev Writes := List (Config × Geometry)

/-- How each of several writes went, and the sink after it. -/
def writesInOrder {σ : Type} (writeOne : Config → Geometry → Action Error σ Unit) :
    Writes → σ → List (Except Error Unit × σ)
  | [], _ => []
  | (c, g) :: rest, s =>
    let result := (writeOne c g).run.run s
    result :: writesInOrder writeOne rest result.2

section InOrder

variable {σ α : Type} (l : Limited Error σ α) (units : Config → Geometry → List α)

/-- What a limited state holds after the first `k + 1` of several writes, and how the last of them
went. -/
def Limited.afterWrites (ws : Writes) (s : σ) (k : Nat) : List α × Except Error Unit :=
  let written := (ws.take (k + 1)).flatMap fun w => units w.1 w.2
  ((l.sink s).content.toList ++ (l.sink s).beginning written, l.outcome s written.length)

/-- If each write offers its units, all together offer theirs. -/
theorem writesInOrder_offer (hne : ∀ c g, units c g ≠ []) : ∀ (ws : Writes) (s : σ),
    (writesInOrder (fun c g => l.offer (units c g)) ws s).map
        (fun result => ((l.sink result.2).content.toList, result.1)) =
      (List.range ws.length).map (l.afterWrites units ws s)
  | [], _ => rfl
  | (c, g) :: ws, s => by
    set next := l.replace s ((l.sink s).offer (units c g)) with hnext
    have hhead : ((l.sink next).content.toList, l.outcome s (units c g).length) =
        l.afterWrites units ((c, g) :: ws) s 0 := by
      simp [Limited.afterWrites, hnext, l.sink_replace, Sink.content_offer]
    have htail : ∀ k ∈ List.range ws.length,
        l.afterWrites units ws next k = l.afterWrites units ((c, g) :: ws) s (k + 1) := fun k hk => by
      set later := (ws.take (k + 1)).flatMap fun w => units w.1 w.2 with hlater
      have hlaterne : later ≠ [] := by
        obtain ⟨w, rest, hw⟩ : ∃ w rest, ws = w :: rest := by
          cases ws with
          | nil => simp at hk
          | cons w rest => exact ⟨w, rest, rfl⟩
        simp [hlater, hw, hne]
      have hcontent := Sink.content_offer ((l.sink s).offer (units c g)) later
      rw [Sink.offer_offer, Sink.content_offer] at hcontent
      simp only [Limited.afterWrites, Limited.outcome, ← hlater, hnext, l.sink_replace,
        l.failure_replace, ← hcontent, List.take_succ_cons, List.flatMap_cons,
        (l.sink s).fits_offer (.inr hlaterne)]
    rw [writesInOrder, l.run_offer, List.map_cons, hhead, writesInOrder_offer hne ws next,
      List.map_congr_left htail, List.length_cons, List.range_succ_eq_map, List.map_cons,
      List.map_map]
    rfl

end InOrder

/-- **A sink holds a beginning of what is written.** After each of several writes a sink of
characters holds what it held and the beginning that fits of all texts up to there; the write
succeeds exactly if all of them fit, and is else refused as a text. The same holds of a store of
bytes and the texts in UTF-8, where a write fails with the fault of the store. Whatever else a sink
of bytes answers, no write into it is refused as a text. A new string holds the text of a geometry,
formatted or not, and what is shown of it is its text. -/
theorem sinks_hold_beginnings (ws : Writes) :
    (∀ s : Sink Char,
      (writesInOrder Config.writeInto ws s).map (fun out => (out.2.content.toList, out.1)) =
        (List.range ws.length).map fun k =>
          let texts := (ws.take (k + 1)).flatMap fun w => (w.1.write w.2).toList
          (s.content.toList ++ s.beginning texts,
            if s.fits texts.length then .ok () else .error .textRefused)) ∧
    (∀ s : ByteStore,
      (writesInOrder Config.writeBytes ws s).map (fun out => (out.2.bytes.content.toList, out.1)) =
        (List.range ws.length).map fun k =>
          let texts := (ws.take (k + 1)).flatMap fun w => (w.1.write w.2).toUTF8.data.toList
          (s.bytes.content.toList ++ s.bytes.beginning texts,
            if s.bytes.fits texts.length then .ok () else .error (.bytesRefused s.fault))) ∧
    (∀ (σ : Type) [ByteSink σ] (out : σ),
      ∀ r ∈ writesInOrder Config.writeBytes ws out, r.1 ≠ .error .textRefused) ∧
    ∀ (c : Config) (g : Geometry),
      c.writeText g = .ok (c.write g) ∧ c.writeFormattedText g = .ok (c.writeFormatted g) ∧
        c.display g = some (c.write g) := by
  refine ⟨fun s => ?_, fun s => ?_, fun σ _ out => ?_, fun c g =>
    ⟨c.writeText_eq g, c.writeFormattedText_eq g, c.display_eq g⟩⟩
  · have hwrite : (Config.writeInto : Config → Geometry → Action Error (Sink Char) Unit) =
        fun c g => (Limited.text.adapt fun _ => Error.textRefused).offer (c.write g).toList :=
      funext fun c => funext fun g => c.writeInto_eq g
    rw [hwrite]
    refine writesInOrder_offer (Limited.text.adapt fun _ => Error.textRefused)
      (fun c g => (c.write g).toList) (fun c g => ?_) ws s
    rw [Config.toList_write]
    exact c.text_ne_nil g
  · have hwrite : (Config.writeBytes : Config → Geometry → Action Error ByteStore Unit) =
        fun c g => (Limited.bytes.adapt Error.bytesRefused).offer (c.bytes g) :=
      funext fun c => funext fun g => c.writeBytes_eq g
    rw [hwrite]
    exact writesInOrder_offer (Limited.bytes.adapt Error.bytesRefused) Config.bytes
      Config.bytes_ne_nil ws s
  · induction ws generalizing out with
    | nil => simp [writesInOrder]
    | cons w ws ih =>
      intro r hr
      rw [writesInOrder, List.mem_cons] at hr
      rcases hr with rfl | hr
      · exact w.1.writeBytes_ne_textRefused w.2 out
      · exact ih _ r hr

/-- A marker of two bytes is cut in its middle by a store that takes nothing more. What was written
before it stands. -/
theorem sinks_hold_beginnings_in_marker :
    let c : Config :=
      { Config.default with
        ordinates := .xyz, dialect := { Dialect.standard with missingMarker := "é" } }
    let zero : Ordinate := ⟨0⟩
    let g : Geometry := .lineString [.xyz zero zero zero, .xy zero zero]
    let s : ByteStore := ⟨⟨#[], some 37⟩, .takesNothing⟩
    let taken := utf8 "POINT EMPTYLINESTRING Z (0 0 0, 0 0 ".toList ++ [0xc3]
    (writesInOrder Config.writeBytes [(.default, .point none), (c, g)] s).map
        (fun out => (out.2.bytes.content.toList, out.1)) =
      [(utf8 "POINT EMPTY".toList, .ok ()), (taken, .error (.bytesRefused .wroteNothing))] := by
  intro c zero g s taken
  have hpoint : (Config.default.write (.point none)).toUTF8.data.toList =
      utf8 "POINT EMPTY".toList := by decide +kernel
  have hline : (c.write g).toUTF8.data.toList =
      utf8 "LINESTRING Z (0 0 0, 0 0 é)".toList := by decide +kernel
  obtain ⟨-, hbytes, -⟩ := sinks_hold_beginnings [(.default, .point none), (c, g)]
  rw [hbytes s]
  simp only [List.length_cons, List.length_nil, List.range_succ, List.range_zero, List.nil_append,
    List.cons_append, List.map_cons, List.map_nil, List.take_succ_cons, List.take_zero,
    List.flatMap_cons, List.flatMap_nil, List.append_nil, hpoint, hline]
  decide +kernel

end LatLonText
