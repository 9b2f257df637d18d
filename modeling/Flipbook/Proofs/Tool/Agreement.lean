import Mathlib.Data.List.Forall2
import Flipbook.Proofs.Text.Language
import Flipbook.Tool.Command

/-!
# All commands agree on the entries

Main statement: `commands_agree`. A command that takes texts succeeds if all of them
decode, whichever command it is, and otherwise the first that does not decode decides how
it ends. The commands differ in what they leave behind: `dump` prints nothing, `normalize`
and `play` have printed what belongs to the entries in front of the first fault, and
`check` goes on to the end and counts.

Entries that `StandFor` scripts are taken one by one by each of the loops, whatever comes
behind them (`printEach_append`, `decodeAll_append`), and at an entry that does not decode
the loops stop. For `check` there is no such place: its lines belong to single entries,
and those of the faults are its lines that are no verdicts (`filter_checkEntry`).
-/

namespace Flipbook.Tool

variable {entries before after : List Entry} {scripts : List Script} {bad : Entry}
    {e : Text.DecodeError}

/-! ## Entries and their scripts -/

/-- The entries stand for these scripts, one by one. -/
def StandFor (entries : List Entry) (scripts : List Script) : Prop :=
  List.Forall₂ (fun entry s => Text.decode entry.text = .ok s) entries scripts

/-- How a command ends that stops at an entry with this error. -/
def Entry.failure (entry : Entry) (e : Text.DecodeError) : Failure :=
  ⟨entry.label, [e.message]⟩

theorem Entry.decode_of_ok {entry : Entry} {s : Script} (h : Text.decode entry.text = .ok s) :
    entry.decode = .ok s := by
  rw [Entry.decode, h]
  rfl

theorem Entry.decode_of_error {entry : Entry} (h : Text.decode entry.text = .error e) :
    entry.decode = .error (entry.failure e) := by
  rw [Entry.decode, h]
  rfl

/-- Entries stand for scripts, or there is a first one that does not. -/
theorem standFor_or_fault (entries : List Entry) :
    (∃ scripts, StandFor entries scripts) ∨
      ∃ before scripts bad e after, entries = before ++ bad :: after ∧
        StandFor before scripts ∧
        Text.decode bad.text = .error e := by
  induction entries with
  | nil => exact .inl ⟨[], .nil⟩
  | cons entry rest ih =>
    -- An entry that does not decode is the first; otherwise it goes in front of
    -- what the rest has.
    cases hdecode : Text.decode entry.text with
    | error e => exact .inr ⟨[], [], entry, e, rest, rfl, .nil, hdecode⟩
    | ok s =>
      rcases ih with ⟨scripts, hall⟩ | ⟨before, scripts, bad, e, after, rfl, hbefore, hbad⟩
      · exact .inl ⟨s :: scripts, .cons hdecode hall⟩
      · refine .inr ⟨entry :: before, s :: scripts, bad, e, after, rfl, ?_, hbad⟩
        exact .cons hdecode hbefore

theorem exists_standFor (h : ∀ entry ∈ entries, ∃ s, Text.decode entry.text = .ok s) :
    ∃ scripts, StandFor entries scripts := by
  rcases standFor_or_fault entries with hall | ⟨before, _, bad, e, after, rfl, _, hbad⟩
  · exact hall
  · obtain ⟨s, hs⟩ := h bad (by simp)
    rw [hs] at hbad
    cases hbad

/-! ## Loops that stop at the first fault -/

/-- What is printed for entries that stand for scripts, and then for further entries. -/
theorem printEach_append {print : Entry → Script → List String} (h : StandFor before scripts)
    (rest : List Entry) :
    printEach print (before ++ rest) =
      .after (List.zipWith print before scripts).flatten (printEach print rest) := by
  induction h with
  | nil => rfl
  | cons hdecode _ ih =>
    rw [List.cons_append, printEach, Entry.decode_of_ok hdecode]
    simp only [ih, Report.after, List.zipWith_cons_cons, List.flatten_cons, List.append_assoc]

theorem printEach_of_standFor {print : Entry → Script → List String}
    (h : StandFor entries scripts) :
    printEach print entries = .success (List.zipWith print entries scripts).flatten := by
  have hall : printEach print (entries ++ []) = _ := printEach_append h []
  rw [List.append_nil] at hall
  rw [hall]
  simp only [printEach, Report.success, Report.after, List.append_nil]

/-- At the first fault printing stops. -/
theorem printEach_of_fault {print : Entry → Script → List String} (h : StandFor before scripts)
    (hbad : Text.decode bad.text = .error e) :
    printEach print (before ++ bad :: after) =
      ⟨(printEach print before).printed, some (bad.failure e)⟩ := by
  rw [printEach_append h, printEach_of_standFor h, printEach, Entry.decode_of_error hbad]
  simp only [Report.failed, Report.success, Report.after, List.append_nil]

/-- The canonical texts are printed one by one. -/
theorem normalize_of_standFor (h : StandFor entries scripts) :
    normalize entries = .success (scripts.map Script.text) := by
  induction h with
  | nil => rfl
  | @cons entry s entries scripts hdecode _ ih =>
    have hstep : normalize (entry :: entries) = .after [s.text] (normalize entries) := by
      simp only [normalize, printEach, Entry.decode_of_ok hdecode]
    rw [hstep, ih]
    rfl

theorem decodeAll_append (h : StandFor before scripts) (rest : List Entry) :
    decodeAll (before ++ rest) = (decodeAll rest).map (before.zip scripts ++ ·) := by
  induction h with
  | nil =>
    show decodeAll rest = _
    cases decodeAll rest <;> rfl
  | @cons entry s before scripts hdecode _ ih =>
    have hstep : decodeAll (entry :: (before ++ rest)) =
        (decodeAll (before ++ rest)).map ((entry, s) :: ·) := by
      unfold decodeAll
      rw [List.mapM_cons, Entry.decode_of_ok hdecode]
      rfl
    rw [List.cons_append, hstep, ih]
    cases decodeAll rest <;> rfl

theorem decodeAll_of_standFor (h : StandFor entries scripts) :
    decodeAll entries = .ok (entries.zip scripts) := by
  have hall := decodeAll_append h []
  rw [List.append_nil] at hall
  rw [hall]
  exact congrArg Except.ok (List.append_nil _)

/-- At the first fault nothing is answered but the fault. -/
theorem decodeAll_of_fault (h : StandFor before scripts)
    (hbad : Text.decode bad.text = .error e) :
    decodeAll (before ++ bad :: after) = .error (bad.failure e) := by
  have hstop : decodeAll (bad :: after) = .error (bad.failure e) := by
    unfold decodeAll
    rw [List.mapM_cons, Entry.decode_of_error hbad]
    rfl
  rw [decodeAll_append h, hstop]
  rfl

theorem dump_of_fault (h : StandFor before scripts) (hbad : Text.decode bad.text = .error e)
    (print : Json → Except Failure String) (json : Bool) :
    dump print json (before ++ bad :: after) = .failed (bad.failure e) := by
  rw [dump, decodeAll_of_fault h hbad]

/-! ## The check goes on -/

/-- The entries that do not decode, with their errors. -/
def faults (entries : List Entry) : List (Entry × Text.DecodeError) :=
  entries.filterMap fun entry =>
    match Text.decode entry.text with
    | .ok _ => none
    | .error e => some (entry, e)

/-- The report on a fault: its label and error, and the text with a caret under its place. -/
def faultLines (fault : Entry × Text.DecodeError) : List String :=
  [s!"error {fault.1.label}: {fault.2.message}", Text.diagnostic fault.1.text fault.2]

/-- The line says that an entry decodes. -/
def isVerdict (line : String) : Bool :=
  ['o', 'k', ' '].isPrefixOf line.toList

theorem faults_append (entries more : List Entry) :
    faults (entries ++ more) = faults entries ++ faults more :=
  List.filterMap_append

theorem faults_of_standFor (h : StandFor entries scripts) : faults entries = [] := by
  induction h with
  | nil => rfl
  | cons hdecode _ ih =>
    unfold faults at ih ⊢
    rw [List.filterMap_cons, hdecode]
    exact ih

theorem faults_of_fault (h : StandFor before scripts)
    (hbad : Text.decode bad.text = .error e) :
    faults (before ++ bad :: after) = (bad, e) :: faults after := by
  rw [faults_append, faults_of_standFor h, List.nil_append]
  unfold faults
  rw [List.filterMap_cons, hbad]

/-- Of the lines for one entry those that are no verdict report its fault. -/
theorem filter_checkEntry (quiet : Bool) (entry : Entry) :
    (checkEntry quiet entry).filter (!isVerdict ·) = (faults [entry]).flatMap faultLines := by
  unfold checkEntry faults
  rw [List.filterMap_cons]
  cases Text.decode entry.text with
  | ok s =>
    -- A verdict starts with its first word whatever the label; the reports of
    -- a fault never do.
    cases quiet with
    | true => rfl
    | false =>
      have hverdict : isVerdict s!"ok    {entry.label}: {s.count} frames, {s.total} ticks" =
          true := by
        simp [isVerdict, toString, List.isPrefixOf]
      exact List.filter_cons_of_neg (by rw [hverdict]; decide)
  | error e =>
    have hreport : isVerdict s!"error {entry.label}: {e.message}" = false := by
      simp [isVerdict, toString, List.isPrefixOf]
    have hcaret : isVerdict (Text.diagnostic entry.text e) = false := by
      simp [isVerdict, Text.diagnostic, toString, List.isPrefixOf]
    simp [hreport, hcaret, faultLines]

/-- The lines of a check that are no verdicts are the reports on all faults, in order. -/
theorem filter_check (quiet : Bool) (entries : List Entry) :
    (check quiet entries).printed.filter (!isVerdict ·) =
      (faults entries).flatMap faultLines := by
  show (entries.flatMap (checkEntry quiet)).filter (!isVerdict ·) = _
  induction entries with
  | nil => rfl
  | cons entry rest ih =>
    rw [List.flatMap_cons, List.filter_append, filter_checkEntry, ih, ← List.flatMap_append,
      ← faults_append, List.singleton_append]

theorem length_faults (entries : List Entry) :
    (entries.filter fun entry => !isGood entry).length = (faults entries).length := by
  induction entries with
  | nil => rfl
  | cons entry rest ih =>
    unfold faults at ih ⊢
    rw [List.filter_cons, List.filterMap_cons, isGood]
    cases Text.decode entry.text with
    | ok s => exact ih
    | error e => exact congrArg (· + 1) ih

/-- A check fails with the number of faults. -/
theorem failure_check (quiet : Bool) (entries : List Entry) :
    (check quiet entries).failure =
      if (faults entries).length = 0 then none
      else some
        ⟨s!"{(faults entries).length} of {entries.length} animation strings failed to decode",
          []⟩ := by
  unfold check
  rw [length_faults]

theorem length_faults_ne_zero (h : StandFor before scripts)
    (hbad : Text.decode bad.text = .error e) :
    (faults (before ++ bad :: after)).length ≠ 0 := by
  rw [faults_of_fault h hbad]
  exact Nat.succ_ne_zero _

/-! ## All commands -/

/-- A report tells whether the entries stand for scripts, if it is one of success where
they do and one of failure where there is a first fault. -/
theorem failure_eq_none_iff {report : Report}
    (hgood : ∀ scripts, StandFor entries scripts → report.failure = none)
    (hfault : ∀ before scripts bad e after, entries = before ++ bad :: after →
      StandFor before scripts →
      Text.decode bad.text = .error e → report.failure ≠ none) :
    report.failure = none ↔ ∃ scripts, StandFor entries scripts := by
  refine ⟨?_, fun ⟨scripts, hall⟩ => hgood scripts hall⟩
  intro hnone
  rcases standFor_or_fault entries
    with hall | ⟨before, scripts, bad, e, after, heq, hbefore, hbad⟩
  · exact hall
  · exact absurd hnone (hfault before scripts bad e after heq hbefore hbad)

theorem failure_printEach_eq_none_iff {print : Entry → Script → List String} :
    (printEach print entries).failure = none ↔ ∃ scripts, StandFor entries scripts := by
  refine failure_eq_none_iff ?_ ?_
  · intro scripts hall
    rw [printEach_of_standFor hall]
    rfl
  · rintro before scripts bad e after rfl hbefore hbad
    rw [printEach_of_fault hbefore hbad]
    exact Option.some_ne_none _

theorem failure_dump_eq_none_iff {print : Json → Except Failure String}
    (hprint : PrintsAll print)
    {json : Bool} :
    (dump print json entries).failure = none ↔ ∃ scripts, StandFor entries scripts := by
  refine failure_eq_none_iff ?_ ?_
  · intro scripts hall
    rw [dump, decodeAll_of_standFor hall]
    cases json with
    | false => rfl
    | true =>
      have hprinted : ∀ value, (Report.ofPrinted (print value)).failure = none := by
        intro value
        obtain ⟨text, htext⟩ := hprint value
        rw [htext]
        rfl
      exact hprinted _
  · rintro before scripts bad e after rfl hbefore hbad
    rw [dump_of_fault hbefore hbad]
    exact Option.some_ne_none _

theorem failure_check_eq_none_iff {quiet : Bool} :
    (check quiet entries).failure = none ↔ ∃ scripts, StandFor entries scripts := by
  refine failure_eq_none_iff ?_ ?_
  · intro scripts hall
    rw [failure_check, faults_of_standFor hall]
    rfl
  · rintro before scripts bad e after rfl hbefore hbad
    rw [failure_check, if_neg (length_faults_ne_zero hbefore hbad)]
    exact Option.some_ne_none _

/-- Where the entries load, a command reports on them. -/
theorem Source.report_of_load {source : Source} {files : Files}
    (h : source.load files = .ok entries)
    (run : List Entry → Report) : source.report files run = run entries := by
  rw [Source.report, h]

/-- Where the entries of a source load, and the configuration of `play`, and where JSON is
printed, all commands succeed if the entries stand for scripts, and none does otherwise.
If there is a first entry that does not decode, `dump`, `normalize` and `play` fail with
its label and its error. By then `dump` has printed nothing, `normalize` the canonical
texts of the scripts in front of it, and `play` what it prints for the entries in front of
it alone. The check goes through all entries: it reports every fault in order, the first
being that entry's, and fails with their number. -/
theorem commands_agree {source : Source} {files : Files} {around : Surroundings}
    {file : Option String} {config : PlayConfig} (hload : source.load files = .ok entries)
    (hconfig : PlayConfig.load around.toml around.configFile file files = .ok config)
    (hjson : PrintsAll around.json) (quiet json : Bool) (ticks : Option Nat) (repeats : Bool) :
    let checked := (Command.check source quiet).run files around
    let dumped := (Command.dump source json).run files around
    let normalized := (Command.normalize source).run files around
    let played := (Command.play source ticks file repeats).run files around
    ((checked.failure = none ↔ ∃ scripts, StandFor entries scripts) ∧
      (dumped.failure = none ↔ ∃ scripts, StandFor entries scripts) ∧
      (normalized.failure = none ↔ ∃ scripts, StandFor entries scripts) ∧
      (played.failure = none ↔ ∃ scripts, StandFor entries scripts)) ∧
    ∀ before scripts bad e after, entries = before ++ bad :: after → StandFor before scripts →
      Text.decode bad.text = .error e →
        dumped = ⟨[], some (bad.failure e)⟩ ∧
        normalized = ⟨scripts.map Script.text, some (bad.failure e)⟩ ∧
        played =
          ⟨(play (config.override ticks repeats) before).printed, some (bad.failure e)⟩ ∧
        (before = [] → played.printed = []) ∧
        (faults entries).head? = some (bad, e) ∧
        checked.printed.filter (!isVerdict ·) = (faults entries).flatMap faultLines ∧
        checked.failure = some
          ⟨s!"{(faults entries).length} of {entries.length} animation strings failed to decode",
            []⟩ := by
  have hchecked : (Command.check source quiet).run files around = check quiet entries :=
    source.report_of_load hload _
  have hdumped : (Command.dump source json).run files around = dump around.json json entries :=
    source.report_of_load hload _
  have hnormalized : (Command.normalize source).run files around = normalize entries :=
    source.report_of_load hload _
  have hplayed : (Command.play source ticks file repeats).run files around =
      play (config.override ticks repeats) entries := by
    rw [Command.run, hconfig]
    exact source.report_of_load hload _
  simp only [hchecked, hdumped, hnormalized, hplayed]
  refine ⟨⟨failure_check_eq_none_iff, failure_dump_eq_none_iff hjson,
    failure_printEach_eq_none_iff, failure_printEach_eq_none_iff⟩, ?_⟩
  rintro before scripts bad e after rfl hbefore hbad
  refine ⟨dump_of_fault hbefore hbad around.json json, ?_, printEach_of_fault hbefore hbad,
    ?_, ?_, filter_check quiet _, ?_⟩
  · rw [normalize, printEach_of_fault hbefore hbad, ← normalize, normalize_of_standFor hbefore]
    rfl
  · -- With nothing in front of the fault there is nothing to print.
    rintro rfl
    rw [play, printEach_of_fault hbefore hbad]
    rfl
  · rw [faults_of_fault hbefore hbad, List.head?_cons]
  · rw [failure_check, if_neg (length_faults_ne_zero hbefore hbad)]

/-- Of three texts the second and the third do not decode. -/
theorem commands_agree_on_second_of_three :
    Source.load ⟨["A1", "q", "B"], none⟩ (fun _ => none) =
        .ok [⟨"arg 1", "A1"⟩, ⟨"arg 2", "q"⟩, ⟨"arg 3", "B"⟩] ∧
      PlayConfig.load Surroundings.own.toml Surroundings.own.configFile none (fun _ => none) =
        .ok .standard ∧
      PrintsAll Surroundings.own.json ∧
      (Command.normalize ⟨["A1", "q", "B"], none⟩).run (fun _ => none) =
        ⟨["A1"], some ⟨"arg 2", ["invalid tag at byte 0"]⟩⟩ ∧
      ((Command.check ⟨["A1", "q", "B"], none⟩ true).run fun _ => none).failure =
        some ⟨"2 of 3 animation strings failed to decode", []⟩ := by
  have hload : Source.load ⟨["A1", "q", "B"], none⟩ (fun _ => none) =
      .ok [⟨"arg 1", "A1"⟩, ⟨"arg 2", "q"⟩, ⟨"arg 3", "B"⟩] := by decide +kernel
  have hone : Text.decode "A1" = .ok ⟨[⟨0, 1, []⟩], [1]⟩ := by
    have hframe : Text.Token.Spelling (.frame 0 1) ['A', '1'] :=
      .frame (by decide) (Text.Numeral.isNumeral_digits 1)
    exact Text.decodeChars_eq_ok_iff.mpr ⟨_, .cons hframe .nil, rfl, rfl⟩
  have hq : Text.decode "q" = .error ⟨.invalidTag, 0⟩ := by
    show Text.decodeChars ['q'] = _
    rw [Text.decodeChars, Text.Draft.read_cons]
    rfl
  have hb : Text.decode "B" = .error ⟨.missingLength, 1⟩ := by
    show Text.decodeChars ['B'] = _
    rw [Text.decodeChars, Text.Draft.read_cons]
    rfl
  have hconfig : PlayConfig.load Surroundings.own.toml Surroundings.own.configFile none
      (fun _ => none) = .ok .standard := rfl
  have hjson : PrintsAll Surroundings.own.json := fun value => ⟨value.render 0, rfl⟩
  obtain ⟨_, hfault⟩ := commands_agree hload hconfig hjson true false none false
  obtain ⟨_, hnormalized, _, _, _, _, hchecked⟩ :=
    hfault [⟨"arg 1", "A1"⟩] _ _ _ _ rfl (.cons hone .nil) hq
  have hfaults : faults [⟨"arg 1", "A1"⟩, ⟨"arg 2", "q"⟩, ⟨"arg 3", "B"⟩] =
      [(⟨"arg 2", "q"⟩, ⟨.invalidTag, 0⟩), (⟨"arg 3", "B"⟩, ⟨.missingLength, 1⟩)] := by
    simp only [faults, List.filterMap_cons, hone, hq, hb, List.filterMap_nil]
  rw [hfaults] at hchecked
  exact ⟨hload, hconfig, hjson, hnormalized, hchecked⟩

end Flipbook.Tool
