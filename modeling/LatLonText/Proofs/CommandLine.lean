/-
# Lines are written one by one, up to the first that cannot be read

A line is blank, or it is read and written, or it stops the program. The string in
which the text of a geometry is put together serves for all lines, but it is cleared
before each, so a line is written as it is alone, whatever the string held
(`run_writeShape`). Lines of the first two sorts only send their own text to the
output and count one up (`processFrom_append`, by induction on the lines), so a run
sends the lines in front of the first that stops it, and its failure names that line
(`exists_failure_process_eq`). An output that takes no more ends a run before that.

The input is bytes. In UTF-8 no character but the newline has the byte of the
newline in it, so cutting the bytes of a text into lines cuts the text
(`lines_utf8`).

Key definitions: `textLines`, `isBlankLine`, `stops`, `writtenLines`, `send`,
`outputAfter`.
Key theorems: `lines_utf8`, `run_writeShape`, `processFrom_append`,
`exists_failure_process_eq`, `runWith_stops_at_first_unreadable_line`.
-/
import LatLonText.CommandLine.Run
import LatLonText.Proofs.Delimited
import LatLonText.Proofs.Sink

namespace LatLonText.CommandLine

/-! ### Lines of a text -/

/-- The lines of a text: what stands before each newline, and what stands behind the last one unless
that is nothing. -/
def textLines (text : List Char) : List (List Char) :=
  let parts := text.splitOn '\n'
  if parts.getLast? = some [] then parts.dropLast else parts

theorem textLines_of_newline_not_mem {line : List Char} (h : '\n' ∉ line) :
    textLines line = if line = [] then [] else [line] := by
  have hsplit : line.splitOn '\n' = [line] :=
    List.splitOnP_eq_singleton (beq_eq_false_of_not_mem h)
  simp [textLines, hsplit]

theorem textLines_append_newline {line : List Char} (h : '\n' ∉ line) (rest : List Char) :
    textLines (line ++ '\n' :: rest) = line :: textLines rest := by
  have hsplit : (line ++ '\n' :: rest).splitOn '\n' = line :: rest.splitOn '\n' :=
    List.splitOnP_append_cons_of_forall_mem (beq_eq_false_of_not_mem h) '\n' rfl rest
  have hne : rest.splitOn '\n' ≠ [] := List.splitOnP_ne_nil _ _
  obtain ⟨part, parts, hparts⟩ := List.exists_cons_of_ne_nil hne
  unfold textLines
  rw [hsplit, hparts]
  simp only [List.getLast?_cons_cons, List.dropLast_cons_cons]
  split <;> rfl

/-- No other character has the byte of the newline in it. -/
theorem newline_not_mem_utf8EncodeChar {c : Char} (h : c ≠ '\n') :
    10 ∉ String.utf8EncodeChar c := by
  have hval : c.val.toNat ≠ 10 := by
    intro heq
    exact h (Char.ext (UInt32.toNat_inj.mp heq))
  have hbyte : ∀ n : Nat, n < 256 → n ≠ 10 → (10 : UInt8) ≠ UInt8.ofNat n := by
    intro n hn hne heq
    have := congrArg UInt8.toNat heq
    rw [UInt8.toNat_ofNat_of_lt' hn] at this
    exact hne this.symm
  unfold String.utf8EncodeChar
  simp only
  split_ifs
  · simpa using hbyte _ (by omega) hval
  all_goals
    simp only [List.mem_cons, List.not_mem_nil, or_false, not_or]
    refine ⟨hbyte _ (by omega) (by omega), ?_⟩
  · exact hbyte _ (by omega) (by omega)
  · exact ⟨hbyte _ (by omega) (by omega), hbyte _ (by omega) (by omega)⟩
  · exact ⟨hbyte _ (by omega) (by omega), hbyte _ (by omega) (by omega),
      hbyte _ (by omega) (by omega)⟩

theorem byteLinesAfter_append : ∀ (bytes line rest : List UInt8), 10 ∉ bytes →
    byteLinesAfter line (bytes ++ rest) = byteLinesAfter (bytes.reverse ++ line) rest
  | [], _, _, _ => rfl
  | b :: bytes, line, rest, h => by
    rw [List.mem_cons, not_or] at h
    rw [List.cons_append, byteLinesAfter, if_neg (Ne.symm h.1), byteLinesAfter_append bytes _ _ h.2]
    simp

/-- Behind a line that has begun, cutting bytes at newlines cuts the text. -/
theorem byteLinesAfter_utf8 : ∀ text line : List Char, '\n' ∉ line →
    byteLinesAfter (utf8 line).reverse (utf8 text) = (textLines (line ++ text)).map utf8
  | [], line, h => by
    rw [List.append_nil, textLines_of_newline_not_mem h]
    rcases line with _ | ⟨c, cs⟩
    · rfl
    · obtain ⟨b, bs, hb⟩ : ∃ b bs, (utf8 (c :: cs)).reverse = b :: bs := by
        refine List.exists_cons_of_ne_nil ?_
        simp [utf8]
      rw [hb]
      show [(b :: bs).reverse] = _
      rw [← hb, List.reverse_reverse]
      rfl
  | c :: text, line, h => by
    by_cases hc : c = '\n'
    · subst hc
      have hbytes : utf8 ('\n' :: text) = 10 :: utf8 text := rfl
      rw [textLines_append_newline h, List.map_cons, hbytes, byteLinesAfter, if_pos rfl,
        List.reverse_reverse]
      exact congrArg _ (byteLinesAfter_utf8 text [] List.not_mem_nil)
    · have hbytes : utf8 (c :: text) = String.utf8EncodeChar c ++ utf8 text := rfl
      have hline : (String.utf8EncodeChar c).reverse ++ (utf8 line).reverse =
          (utf8 (line ++ [c])).reverse := by
        rw [utf8_append, List.reverse_append]
        simp [utf8]
      rw [hbytes, byteLinesAfter_append _ _ _ (newline_not_mem_utf8EncodeChar hc), hline,
        byteLinesAfter_utf8 text (line ++ [c]) (by simp [h, Ne.symm hc])]
      simp

theorem utf8_toList (s : String) : utf8 s.toList = s.toUTF8.data.toList := by
  have h := String.toByteArray_ofList (l := s.toList)
  rw [String.ofList_toList] at h
  rw [String.toUTF8_eq_toByteArray, h]
  simp [utf8, List.utf8Encode]

/-- The bytes of a text are read as the text. -/
theorem fromUTF8?_utf8 (text : List Char) :
    (String.fromUTF8? ⟨(utf8 text).toArray⟩).map String.toList = some text := by
  obtain ⟨s, rfl⟩ : ∃ s : String, text = s.toList := ⟨String.ofList text, by simp⟩
  have hbytes : (⟨(utf8 s.toList).toArray⟩ : ByteArray) = s.toByteArray := by
    rw [utf8_toList, String.toUTF8_eq_toByteArray]
  rw [hbytes, String.fromUTF8?, dif_pos s.isValidUTF8]
  rfl

/-- **The lines of the bytes of a text are its lines.** -/
theorem lines_utf8 (text : List Char) : lines (utf8 text) = (textLines text).map some := by
  have h := byteLinesAfter_utf8 text [] List.not_mem_nil
  have hempty : (utf8 []).reverse = [] := rfl
  rw [List.nil_append, hempty] at h
  rw [lines, h, List.map_map]
  exact List.map_congr_left fun line _ => fromUTF8?_utf8 line

/-! ### Lines one by one -/

/-- Whether a line is passed over. -/
def isBlankLine (line : List Char) : Bool :=
  (trimBlanks line).isEmpty

section Lines

variable {ε : Type} (read : List Char → Except ε Shape) (config : Config)

/-- Whether a line stops the program: it is not blank, and no geometry can be read from it. -/
def stops (line : List Char) : Bool :=
  !isBlankLine line && !(read (trimBlanks line)).isOk

/-- A line that is not blank and does not stop the program is read. -/
theorem exists_shape_of_not_stops {line : List Char} (hblank : isBlankLine line = false)
    (h : stops read line = false) : ∃ shape, read (trimBlanks line) = .ok shape := by
  unfold stops at h
  cases hread : read (trimBlanks line) with
  | ok shape => exact ⟨shape, rfl⟩
  | error fault => simp [hblank, hread, Except.isOk, Except.toBool] at h

theorem exists_fault_of_stops {line : List Char} (h : stops read line = true) :
    isBlankLine line = false ∧ ∃ fault, read (trimBlanks line) = .error fault := by
  unfold stops at h
  rw [Bool.and_eq_true, Bool.not_eq_true'] at h
  refine ⟨h.1, ?_⟩
  cases hread : read (trimBlanks line) with
  | ok shape => simp [hread, Except.isOk, Except.toBool] at h
  | error fault => exact ⟨fault, rfl⟩

/-- What is written for a line by itself: the text of its geometry and a newline. -/
def writtenLine (line : List Char) : List Char :=
  match read (trimBlanks line) with
  | .ok shape => (config.write shape.toGeometry).toList ++ ['\n']
  | .error _ => []

/-- What is written for lines of which none stops the program, line by line. -/
def writtenLines (ls : List (List Char)) : List Char :=
  (ls.filter fun line => !isBlankLine line).flatMap (writtenLine read config)

/-- Sends what is written for a line by itself to the output. -/
def send {σ : Type} [ByteSink σ] (line : List Char) : Action WriteFault σ Unit :=
  match read (trimBlanks line) with
  | .ok shape => writeLine (config.write shape.toGeometry)
  | .error _ => pure ()

/-! ### One line -/

section Step

variable {read} {σ : Type} [ByteSink σ] {line : List Char} (number : Nat) (s : Session σ)

/-- What the output and the session are after a text has been sent. -/
def Session.sent (text : String) (s : Session σ) : Except (Failure ε) Unit × Session σ :=
  let (outcome, output) := (writeLine text : Action WriteFault σ Unit).run.run s.output
  (outcome.mapError .output, ⟨output, text⟩)

/-- **A geometry is written as it is alone**: its own text and a newline go to the output, whatever
text the session held before. -/
theorem run_writeShape (shape : Shape) :
    (writeShape config shape : Action (Failure ε) (Session σ) Unit).run.run s =
      s.sent (config.write shape.toGeometry) := by
  have hclear : (modify Session.clear : Action (Failure ε) (Session σ) Unit).run.run s =
      (.ok (), ⟨s.output, ""⟩) := rfl
  have htext : (Session.onText (config.writeInto shape.toGeometry) :
      Action (Failure ε) (Session σ) Unit).run.run ⟨s.output, ""⟩ =
        (.ok (), ⟨s.output, config.write shape.toGeometry⟩) := by
    show ((((config.writeInto shape.toGeometry).run.run "").1.mapError Failure.text,
      (⟨s.output, ((config.writeInto shape.toGeometry).run.run "").2⟩ : Session σ))) = _
    rw [Config.run_writeInto_string, String.empty_append]
    rfl
  rw [writeShape, Action.run_bind, hclear]
  show (do
    Session.onText (config.writeInto shape.toGeometry)
    Session.onOutput (writeLine (← get).text) : Action (Failure ε) (Session σ) Unit).run.run _ = _
  rw [Action.run_bind, htext]
  rfl

/-- A blank line changes nothing. -/
theorem processLine_of_blank (h : isBlankLine line = true) :
    (processLine read config number line).run.run s = (.ok (), s) := by
  unfold isBlankLine at h
  unfold processLine
  rw [if_pos h]
  rfl

theorem processLine_of_ok {shape : Shape} (hblank : isBlankLine line = false)
    (hread : read (trimBlanks line) = .ok shape) :
    (processLine read config number line).run.run s = s.sent (config.write shape.toGeometry) := by
  unfold isBlankLine at hblank
  have hline : (processLine read config number line : Action (Failure ε) (Session σ) Unit) =
      writeShape config shape := by
    simp only [processLine, hblank, hread, Bool.false_eq_true, if_false]
  rw [hline, run_writeShape]

theorem processLine_of_error {fault : ε} (hblank : isBlankLine line = false)
    (hread : read (trimBlanks line) = .error fault) :
    (processLine read config number line).run.run s = (.error (.line number fault), s) := by
  unfold isBlankLine at hblank
  have hline : (processLine read config number line : Action (Failure ε) (Session σ) Unit) =
      throw (.line number fault) := by
    simp only [processLine, hblank, hread, Bool.false_eq_true, if_false]
  rw [hline]
  rfl

/-! ### Line after line -/

/-- **Lines that do not stop the program** send their texts, one after the other, and count on. When
the output fails, nothing more is done. -/
theorem processFrom_append (rest : List (Option (List Char))) :
    ∀ (ls : List (List Char)) (number : Nat) (s : Session σ),
      (∀ line ∈ ls, stops read line = false) → ∃ text,
        (processFrom read config number (ls.map some ++ rest)).run.run s =
          match ((ls.filter fun line => !isBlankLine line).forM (send read config)).run.run
              s.output with
          | (.ok (), output) =>
            (processFrom read config (number + ls.length) rest).run.run ⟨output, text⟩
          | (.error fault, output) => (.error (.output fault), ⟨output, text⟩)
  | [], number, s, _ => ⟨s.text, rfl⟩
  | line :: ls, number, s, h => by
    have hls : ∀ l ∈ ls, stops read l = false := fun l hl => h l (List.mem_cons_of_mem _ hl)
    have hcount : number + 1 + ls.length = number + (line :: ls).length := by
      rw [List.length_cons]
      omega
    rw [List.map_cons, List.cons_append, processFrom, Action.run_bind]
    by_cases hblank : isBlankLine line = true
    · obtain ⟨text, htext⟩ := processFrom_append rest ls (number + 1) s hls
      refine ⟨text, ?_⟩
      rw [processLine_of_blank config number s hblank, List.filter_cons_of_neg (by simp [hblank]),
        ← hcount, ← htext]
    · rw [Bool.not_eq_true] at hblank
      obtain ⟨shape, hread⟩ := exists_shape_of_not_stops read hblank (h line List.mem_cons_self)
      have hsend : send read config line =
          (writeLine (config.write shape.toGeometry) : Action WriteFault σ Unit) := by
        simp only [send, hread]
      rw [processLine_of_ok config number s hblank hread, List.filter_cons_of_pos (by simp [hblank]),
        List.forM_eq_forM, List.forM_cons, hsend, Action.run_bind, Session.sent]
      rcases (writeLine (config.write shape.toGeometry) : Action WriteFault σ Unit).run.run s.output
        with ⟨fault | _, output⟩
      · exact ⟨config.write shape.toGeometry, rfl⟩
      · obtain ⟨text, htext⟩ :=
          processFrom_append rest ls (number + 1) ⟨output, config.write shape.toGeometry⟩ hls
        refine ⟨text, ?_⟩
        rw [← hcount, ← List.forM_eq_forM]
        exact htext

end Step

/-! ### Stores -/

section Store

/-- The output after lines of which none stops the program. -/
def outputAfter (ls : List (List Char)) (output : ByteStore) : ByteStore :=
  { output with bytes := output.bytes.offer (utf8 (writtenLines read config ls)) }

variable {read}

theorem send_eq_offer (line : List Char) :
    (send read config line : Action WriteFault ByteStore Unit) =
      Limited.bytes.offer (utf8 (writtenLine read config line)) := by
  unfold send writtenLine
  cases read (trimBlanks line) with
  | ok shape =>
    show (do writeAll _; writeAll _ : Action WriteFault ByteStore Unit) = _
    rw [writeAll_eq, writeAll_eq, ← Limited.offer_append, ← utf8_append]
  | error fault => exact (Limited.bytes.offer_nil).symm

/-- What is sent line by line is offered to a store at once. -/
theorem forM_send_eq_offer (ls : List (List Char)) :
    (ls.filter fun line => !isBlankLine line).forM (send read config) =
      Limited.bytes.offer (utf8 (writtenLines read config ls)) := by
  have hsend : (send read config : List Char → Action WriteFault ByteStore Unit) =
      fun line => Limited.bytes.offer (utf8 (writtenLine read config line)) :=
    funext (send_eq_offer config)
  rw [hsend, writtenLines, List.flatMap_def, utf8_flatten, List.map_map, ← Limited.forM_offer,
    List.forM_eq_forM, List.forM_eq_forM, List.forM_map]
  rfl

variable {ls : List (List Char)} (output : ByteStore)

/-- While what is written fits, lines that do not stop the program lead on to those behind them. -/
theorem processFrom_of_fits (rest : List (Option (List Char)))
    (h : ∀ line ∈ ls, stops read line = false)
    (hfits : output.bytes.fits (utf8 (writtenLines read config ls)).length = true) : ∃ text,
      (processFrom read config 1 (ls.map some ++ rest)).run.run ⟨output, ""⟩ =
        (processFrom read config (1 + ls.length) rest).run.run
          ⟨outputAfter read config ls output, text⟩ := by
  obtain ⟨text, htext⟩ := processFrom_append config rest ls 1 ⟨output, ""⟩ h
  have houtcome : Limited.bytes.outcome output (utf8 (writtenLines read config ls)).length = .ok () :=
    if_pos hfits
  rw [forM_send_eq_offer, Limited.run_offer, houtcome] at htext
  exact ⟨text, htext⟩

/-- Where what is written does not fit, the program stops with the fault of the output. -/
theorem process_of_refused (rest : List (Option (List Char)))
    (h : ∀ line ∈ ls, stops read line = false)
    (hfits : output.bytes.fits (utf8 (writtenLines read config ls)).length = false) :
    process read config (ls.map some ++ rest) output =
      ⟨outputAfter read config ls output, some (.output output.fault)⟩ := by
  obtain ⟨text, htext⟩ := processFrom_append config rest ls 1 ⟨output, ""⟩ h
  have houtcome : Limited.bytes.outcome output (utf8 (writtenLines read config ls)).length =
      .error output.fault := if_neg (by rw [← Bool.not_eq_true] at hfits; exact hfits)
  rw [forM_send_eq_offer, Limited.run_offer, houtcome] at htext
  rw [process, htext]
  rfl

/-- Without a line that stops the program, all lines are written. -/
theorem process_of_none_stops (h : ls.findIdx? (stops read) = none) :
    process read config (ls.map some) output =
      ⟨outputAfter read config ls output,
        if output.bytes.fits (utf8 (writtenLines read config ls)).length then none
        else some (.output output.fault)⟩ := by
  have hls : ∀ line ∈ ls, stops read line = false := by
    simpa [List.findIdx?_eq_none_iff] using h
  rw [← List.append_nil (ls.map some)]
  by_cases hfits : output.bytes.fits (utf8 (writtenLines read config ls)).length = true
  · obtain ⟨text, htext⟩ := processFrom_of_fits config output [] hls hfits
    rw [if_pos hfits, process, htext]
    rfl
  · rw [if_neg hfits]
    exact process_of_refused config output [] hls (eq_false_of_ne_true hfits)

/-- The first line that stops the program is named by its number, and the lines in front of it are
written. -/
theorem process_of_stops {k : Nat} (h : ls.findIdx? (stops read) = some k) :
    ∃ line fault, ls[k]? = some line ∧ read (trimBlanks line) = .error fault ∧
      process read config (ls.map some) output =
        ⟨outputAfter read config (ls.take k) output,
          if output.bytes.fits (utf8 (writtenLines read config (ls.take k))).length then
            some (.line (k + 1) fault)
          else some (.output output.fault)⟩ := by
  obtain ⟨hk, hstops, hbefore⟩ := List.findIdx?_eq_some_iff_getElem.mp h
  have hsplit : ls.map some = (ls.take k).map some ++ some ls[k] :: (ls.drop (k + 1)).map some := by
    rw [← List.map_cons, ← List.drop_eq_getElem_cons hk, ← List.map_append, List.take_append_drop]
  have htake : ∀ line ∈ ls.take k, stops read line = false := by
    intro line hline
    obtain ⟨j, hj, rfl⟩ := List.mem_take_iff_getElem.mp hline
    simpa using hbefore j (by omega)
  have hlength : 1 + (ls.take k).length = k + 1 := by
    rw [List.length_take]
    omega
  obtain ⟨hblank, fault, hread⟩ := exists_fault_of_stops read hstops
  refine ⟨ls[k], fault, List.getElem?_eq_getElem hk, hread, ?_⟩
  rw [hsplit]
  by_cases hfits : output.bytes.fits (utf8 (writtenLines read config (ls.take k))).length = true
  · obtain ⟨text, htext⟩ :=
      processFrom_of_fits config output (some ls[k] :: (ls.drop (k + 1)).map some) htake hfits
    rw [if_pos hfits, process, htext, hlength, processFrom, Action.run_bind,
      processLine_of_error config (k + 1) _ hblank hread]
  · rw [if_neg hfits]
    exact process_of_refused config output _ htake (eq_false_of_ne_true hfits)

variable (read) in
/-- **A run writes the lines in front of the first that stops it**, and ends with the failure of that
line if there is one and if the output has taken what is in front of it. -/
theorem exists_failure_process_eq (ls : List (List Char)) :
    let first := ls.findIdx? (stops read)
    let before := ls.take (first.getD ls.length)
    ∃ failure : Option (Failure ε),
      (match first with
      | none => failure = none
      | some k => ∃ line fault, ls[k]? = some line ∧ read (trimBlanks line) = .error fault ∧
          failure = some (.line (k + 1) fault)) ∧
      process read config (ls.map some) output =
        ⟨outputAfter read config before output,
          if output.bytes.fits (utf8 (writtenLines read config before)).length then failure
          else some (.output output.fault)⟩ := by
  intro first before
  cases hfirst : first with
  | none =>
    have hbefore : before = ls := by
      show ls.take (first.getD ls.length) = ls
      rw [hfirst, Option.getD_none, List.take_length]
    refine ⟨none, rfl, ?_⟩
    rw [hbefore]
    exact process_of_none_stops config output hfirst
  | some k =>
    have hbefore : before = ls.take k := by
      show ls.take (first.getD ls.length) = ls.take k
      rw [hfirst, Option.getD_some]
    obtain ⟨line, fault, hline, hread, hprocess⟩ := process_of_stops config output hfirst
    refine ⟨some (.line (k + 1) fault), ⟨line, fault, hline, hread, rfl⟩, ?_⟩
    rw [hbefore]
    exact hprocess

end Store

end Lines

/-! ### The program -/

/-- **The program writes line by line, up to the first line that cannot be read.** Whatever reads the
geometry on a line, for every text in UTF-8 and for every output: what the output takes is the
beginning that fits of the lines that are not blank, each as it is written by itself, up to the first
line that stops the program. An output without limit takes them all. If they fit, the program ends
with status 0 where no line stops it, and else with status 1, and the error names the line by its
place among all lines. If they do not fit it ends with status 1 and the fault of the output. -/
theorem runWith_stops_at_first_unreadable_line {ε : Type} (read : List Char → Except ε Shape)
    (describe : ε → String) {arguments : List String} {config : Config}
    (haccepted : Arguments.config arguments = .ok config) (text : String) (output : ByteStore) :
    let lines := textLines text.toList
    let first := lines.findIdx? (stops read)
    let written := utf8 (writtenLines read config (lines.take (first.getD lines.length)))
    let outcome := runWith read arguments text.toUTF8.data.toList output
    outcome.output.bytes.content.toList =
        output.bytes.content.toList ++ output.bytes.beginning written ∧
      if output.bytes.fits written.length then
        match first with
        | none => outcome.exitCode = 0 ∧ outcome.errorText describe = none
        | some k =>
          outcome.exitCode = 1 ∧
            ∃ line fault, lines[k]? = some line ∧ read (trimBlanks line) = .error fault ∧
              outcome.errorText describe =
                some ("to_geography_wkt failed: " ++ s!"line {k + 1}: " ++ describe fault ++ "\n")
      else
        outcome.exitCode = 1 ∧
          outcome.errorText describe =
            some ("to_geography_wkt failed: " ++ output.fault.message ++ "\n") := by
  intro lines first written outcome
  have houtcome : outcome = process read config (lines.map some) output := by
    show runWith read arguments text.toUTF8.data.toList output = _
    rw [← utf8_toList, runWith, haccepted, lines_utf8]
  obtain ⟨failure, hfailure, hprocess⟩ := exists_failure_process_eq read config output lines
  rw [houtcome, hprocess]
  refine ⟨Sink.content_offer _ _, ?_⟩
  by_cases hfits : output.bytes.fits written.length = true
  · rw [if_pos hfits, if_pos hfits]
    cases hfirst : first with
    | none =>
      rw [show lines.findIdx? (stops read) = none from hfirst] at hfailure
      obtain rfl : failure = none := hfailure
      exact ⟨rfl, rfl⟩
    | some k =>
      rw [show lines.findIdx? (stops read) = some k from hfirst] at hfailure
      obtain ⟨line, fault, hline, hread, rfl⟩ := hfailure
      refine ⟨rfl, line, fault, hline, hread, ?_⟩
      simp only [Outcome.errorText, Failure.message, Option.map_some, String.append_assoc]
  · rw [if_neg hfits, if_neg hfits]
    exact ⟨rfl, rfl⟩

/-- The second line is blank and counts, the fourth cannot be read and hides the fifth. An output with
room for five bytes holds these, and its fault is told instead. -/
theorem runWith_stops_at_fourth_line :
    let arguments := ["--dim", "3"]
    let config : Config := { Config.default with ordinates := .xyz }
    let text := "POINT Z (1 2 3)\n \t\nLINESTRING (0 0, 5 6)\n POINT (1 2\nPOINT (7 8)\n"
    let outcome := runWith Wkt.read arguments text.toUTF8.data.toList ByteStore.empty
    let small : ByteStore := ⟨⟨#[], some 5⟩, .fails .brokenPipe⟩
    let cut := runWith Wkt.read arguments text.toUTF8.data.toList small
    Arguments.config arguments = .ok config ∧
      outcome.output.bytes.content.toList =
        utf8 "POINT Z (2 1 3)\nLINESTRING (0 0, 6 5)\n".toList ∧
      outcome.exitCode = 1 ∧
      outcome.errorText Wkt.Error.message = some
        "to_geography_wkt failed: line 4: Missing closing parenthesis for type\n" ∧
      cut.output.bytes.content.toList = utf8 "POINT".toList ∧
      cut.errorText Wkt.Error.message = some "to_geography_wkt failed: broken pipe\n" := by
  intro arguments config text outcome small cut
  have haccepted : Arguments.config arguments = .ok config := by rfl
  have h := runWith_stops_at_first_unreadable_line Wkt.read Wkt.Error.message haccepted text
  have hfirst : (textLines text.toList).findIdx? (stops Wkt.read) = some 3 := by decide +kernel
  have hwritten : writtenLines Wkt.read config ((textLines text.toList).take 3) =
      "POINT Z (2 1 3)\nLINESTRING (0 0, 6 5)\n".toList := by decide +kernel
  simp only [hfirst, Option.getD_some, hwritten] at h
  obtain ⟨houtput, hrest⟩ := h ByteStore.empty
  obtain ⟨hcut, hcutrest⟩ := h small
  have hfits : ∀ count, ByteStore.empty.bytes.fits count = true := fun _ => rfl
  have hall : ∀ units, ByteStore.empty.bytes.content.toList ++ ByteStore.empty.bytes.beginning units =
      units := fun _ => rfl
  have hfive : ∀ units, small.bytes.content.toList ++ small.bytes.beginning units = units.take 5 :=
    fun _ => rfl
  have houtcome : runWith Wkt.read arguments text.toUTF8.data.toList ByteStore.empty = outcome := rfl
  have hsmall : runWith Wkt.read arguments text.toUTF8.data.toList small = cut := rfl
  rw [hall, houtcome] at houtput
  rw [hfive, hsmall] at hcut
  rw [if_pos (hfits _), houtcome] at hrest
  have hfull : ¬ small.bytes.fits
      (utf8 "POINT Z (2 1 3)\nLINESTRING (0 0, 6 5)\n".toList).length = true := by decide +kernel
  rw [if_neg hfull, hsmall] at hcutrest
  obtain ⟨hexit, line, fault, hline, hread, herror⟩ := hrest
  have hfourth : (textLines text.toList)[3]? = some " POINT (1 2".toList := by decide +kernel
  obtain rfl : " POINT (1 2".toList = line := Option.some.inj (hfourth.symm.trans hline)
  have hfault : (match Wkt.read (trimBlanks " POINT (1 2".toList) with
      | .error e => some e
      | .ok _ => none) = some .missingClosing := by decide +kernel
  rw [hread] at hfault
  obtain rfl : fault = .missingClosing := Option.some.inj hfault
  refine ⟨haccepted, houtput, hexit, herror.trans ?_, hcut.trans ?_, hcutrest.2.trans ?_⟩
  · decide +kernel
  · decide +kernel
  · decide +kernel

end LatLonText.CommandLine
