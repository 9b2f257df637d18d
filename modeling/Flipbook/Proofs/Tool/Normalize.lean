import Flipbook.Proofs.Text.Canonical
import Flipbook.Proofs.Text.Lookahead
import Flipbook.Proofs.Tool.Agreement

/-!
# Normalizing a file twice

Main statement: `normalize_again`. What `normalize` prints for a file of animation texts
is a file of animation texts again: the same animations, one to a line, each in its
canonical text. So normalizing it changes nothing.

Two things have to fit. Lines that are written one behind the other are found again if
none of them holds a line break, and they are listed as they are if nothing of them is
trimmed off and none starts a comment (`listedLines_output`). And the characters of which
tokens are spelled lie between `+` and `z` (`Spelling.bounded`): there is no white space
among them and no `#`.
-/

namespace Flipbook

/-! ## The characters of animation text -/

namespace Text

/-- Each character of the text lies between `+` and `z`. -/
def Bounded (text : List Char) : Prop :=
  ∀ c ∈ text, '+'.toNat ≤ c.toNat ∧ c.toNat ≤ 'z'.toNat

theorem Bounded.append {front rest : List Char} (hfront : Bounded front)
    (hrest : Bounded rest) : Bounded (front ++ rest) := by
  intro c hc
  rcases List.mem_append.mp hc with hin | hin
  · exact hfront c hin
  · exact hrest c hin

theorem Bounded.cons {c : Char} {rest : List Char}
    (hc : '+'.toNat ≤ c.toNat ∧ c.toNat ≤ 'z'.toNat)
    (hrest : Bounded rest) : Bounded (c :: rest) :=
  List.forall_mem_cons.mpr ⟨hc, hrest⟩

/-- No character below `+` is in the text: no line break, and no `#`. -/
theorem Bounded.ne {text : List Char} (h : Bounded text) {c other : Char} (hc : c ∈ text)
    (hother : other.toNat < '+'.toNat) : c ≠ other := by
  rintro rfl
  exact absurd (h c hc).1 (Nat.not_le.mpr hother)

theorem bounded_code (kind : Tag.Kind) : Bounded kind.code := by
  have hall : (kind.code.all fun c => '+'.toNat ≤ c.toNat && c.toNat ≤ 'z'.toNat) = true := by
    cases kind <;> rfl
  intro c hmem
  have hc := List.all_eq_true.mp hall c hmem
  rwa [Bool.and_eq_true, decide_eq_true_iff, decide_eq_true_iff] at hc

theorem IsNumeral.bounded {run : List Char} (h : IsNumeral run) : Bounded run := by
  intro c hc
  obtain ⟨hlow, hhigh⟩ := Char.isDigit_iff_toNat.mp (h.2 c hc)
  exact ⟨Nat.le_trans (by decide) hlow, Nat.le_trans hhigh (by decide)⟩

theorem Token.Spelling.bounded {token : Token} {first : List Char} (h : token.Spelling first) :
    Bounded first := by
  cases h with
  | separator => exact .cons (by decide) nofun
  | frame letter numeral =>
    obtain ⟨hlow, hhigh, _⟩ := Sprite.of_ofLetter?_eq_some letter
    have hlow' : 'A'.toNat ≤ _ := UInt32.le_iff_toNat_le.mp hlow
    have hhigh' : _ ≤ 'Z'.toNat := UInt32.le_iff_toNat_le.mp hhigh
    exact .cons ⟨Nat.le_trans (by decide) hlow', Nat.le_trans hhigh' (by decide)⟩
      numeral.bounded
  | bare => exact bounded_code _
  | unsigned _ numeral => exact (bounded_code _).append numeral.bounded
  | plus _ _ numeral => exact (bounded_code _).append (.cons (by decide) numeral.bounded)
  | minus _ _ numeral => exact (bounded_code _).append (.cons (by decide) numeral.bounded)

theorem Spelling.bounded {tokens : List Token} {text : List Char} (h : Spelling tokens text) :
    Bounded text := by
  induction h with
  | nil => nofun
  | cons head _ ih => exact head.bounded.append ih

end Text

namespace Tool

open Text (Bounded)

variable {entries : List Entry} {scripts : List Script}

/-! ## Lines -/

theorem isBlank_of_bounds {c : Char} (h : '+'.toNat ≤ c.toNat ∧ c.toNat ≤ 'z'.toNat) :
    isBlank c = false := by
  have hlow : 43 ≤ c.toNat := h.1
  have hhigh : c.toNat ≤ 122 := h.2
  simp [isBlank, blankRanges]
  omega

/-- Nothing is trimmed off a text without white space. -/
theorem trim_eq_self {text : List Char} (h : ∀ c ∈ text, isBlank c = false) :
    trim text = text := by
  have hdrop : ∀ text : List Char, (∀ c ∈ text, isBlank c = false) →
      text.dropWhile isBlank = text := by
    intro text h
    cases text with
    | nil => rfl
    | cons c rest => exact List.dropWhile_cons_of_neg (by simp [h c (List.mem_cons_self ..)])
  rw [trim, hdrop text h, hdrop _ (by simpa using h), List.reverse_reverse]

/-- A line is read up to its end. -/
theorem splitLines_append {line : List Char} (h : ∀ c ∈ line, c ≠ '\n') :
    ∀ start rest : List Char,
      splitLines start (line ++ rest) = splitLines (line.reverse ++ start) rest := by
  induction line with
  | nil => exact fun start rest => rfl
  | cons c line ih =>
    intro start rest
    obtain ⟨hc, hline⟩ := List.forall_mem_cons.mp h
    have hstep : splitLines start (c :: (line ++ rest)) =
        splitLines (c :: start) (line ++ rest) := if_neg hc
    rw [List.cons_append, hstep, ih hline, List.reverse_cons, List.append_assoc]
    rfl

/-- A line that holds no line break is cut off at the line feed behind it. -/
theorem splitLines_line {line : List Char} (h : ∀ c ∈ line, c ≠ '\n' ∧ c ≠ '\r')
    (rest : List Char) :
    splitLines [] (line ++ '\n' :: rest) = line :: splitLines [] rest := by
  rw [splitLines_append fun c hc => (h c hc).1, List.append_nil, splitLines, if_pos rfl]
  · exact congrArg (· :: splitLines [] rest) (List.reverse_reverse line)
  · -- The line does not end in a carriage return.
    intro more hreturn
    have hmem : '\r' ∈ line := by
      rw [← List.mem_reverse, hreturn]
      exact List.mem_cons_self ..
    exact (h _ hmem).2 rfl

/-- Lines without line breaks, written with a line feed behind each, are split again. -/
theorem splitLines_lines {lines : List (List Char)}
    (h : ∀ line ∈ lines, ∀ c ∈ line, c ≠ '\n' ∧ c ≠ '\r') :
    splitLines [] (lines.flatMap (· ++ ['\n'])) = lines := by
  induction lines with
  | nil => rfl
  | cons line rest ih =>
    obtain ⟨hline, hrest⟩ := List.forall_mem_cons.mp h
    rw [List.flatMap_cons, List.append_assoc, List.singleton_append, splitLines_line hline,
      ih hrest]

/-- A line of animation text is no blank line and no comment. -/
theorem isListed_of_bounded {line : List Char} (hbounds : Bounded line) (hne : line ≠ []) :
    isListed line = true := by
  cases line with
  | nil => exact absurd rfl hne
  | cons c rest =>
    have hc : c ≠ '#' := hbounds.ne (List.mem_cons_self ..) (by decide)
    exact bne_iff_ne.mpr hc

/-- Lines of animation text, each with a line feed behind it, are listed as they are,
numbered from one. -/
theorem listedChars_lines {lines : List (List Char)} (hbounds : ∀ line ∈ lines, Bounded line)
    (hne : ∀ line ∈ lines, line ≠ []) :
    listedChars (lines.flatMap (· ++ ['\n'])) =
      (lines.zipIdx 1).map fun (line, number) => (number, line) := by
  have hbreaks : ∀ line ∈ lines, ∀ c ∈ line, c ≠ '\n' ∧ c ≠ '\r' := fun line hline c hc =>
    ⟨(hbounds line hline).ne hc (by decide), (hbounds line hline).ne hc (by decide)⟩
  have htrim : ∀ line ∈ lines, trim line = line := fun line hline =>
    trim_eq_self fun c hc => isBlank_of_bounds (hbounds line hline c hc)
  have htrimmed : ((lines.zipIdx 1).map fun (line, number) => (number, trim line)) =
      (lines.zipIdx 1).map fun (line, number) => (number, line) :=
    List.map_congr_left fun row hrow =>
      congrArg (Prod.mk row.2) (htrim row.1 (List.fst_mem_of_mem_zipIdx hrow))
  rw [listedChars, splitLines_lines hbreaks, htrimmed, List.filter_eq_self]
  intro entry hentry
  obtain ⟨row, hrow, rfl⟩ := List.mem_map.mp hentry
  have hmem := List.fst_mem_of_mem_zipIdx hrow
  exact isListed_of_bounded (hbounds _ hmem) (hne _ hmem)

/-- What is printed as lines of animation text is read as these lines again. -/
theorem listedLines_output {texts : List String}
    (hbounds : ∀ text ∈ texts, Bounded text.toList)
    (hne : ∀ text ∈ texts, text.toList ≠ []) :
    listedLines (Report.success texts).output =
      (texts.zipIdx 1).map fun (text, number) => (number, text) := by
  have houtput : (Report.success texts).output.toList =
      (texts.map String.toList).flatMap (· ++ ['\n']) := by
    rw [Report.output, String.toList_join, List.flatMap_map, List.flatMap_map]
    exact List.flatMap_congr fun text _ => String.toList_append
  rw [listedLines, houtput, listedChars_lines (by simpa using hbounds) (by simpa using hne),
    List.zipIdx_map, List.map_map, List.map_map]
  refine List.map_congr_left fun row _ => ?_
  exact congrArg (Prod.mk row.2) String.ofList_toList

/-! ## Canonical texts as lines -/

/-- The lines, with their numbers, stand for these scripts, one by one. -/
def Lists (lines : List (Nat × String)) (scripts : List Script) : Prop :=
  List.Forall₂ (fun line s => Text.decode line.2 = .ok s) lines scripts

/-- The canonical text of a valid script is animation text, and not empty: it
stands for the script. -/
theorem bounded_text {s : Script} (h : s.Valid) :
    Bounded s.text.toList ∧ s.text.toList ≠ [] := by
  refine ⟨?_, ?_⟩
  · obtain ⟨tokens, hspelling, _⟩ := h.denotes
    rw [Script.text, String.toList_ofList]
    exact hspelling.bounded
  · intro hempty
    have hread := h.decode_eq
    rw [Text.decode, hempty, Text.decodeChars, Text.Draft.read] at hread
    cases hread

/-- Where the canonical texts of scripts are printed, they are the lines that
are listed again. -/
theorem listedLines_texts (h : ∀ s ∈ scripts, s.Valid) :
    listedLines (Report.success (scripts.map Script.text)).output =
      (scripts.zipIdx 1).map fun (s, number) => (number, s.text) := by
  have htexts : ∀ text ∈ scripts.map Script.text, Bounded text.toList ∧ text.toList ≠ [] := by
    intro text htext
    obtain ⟨s, hs, rfl⟩ := List.mem_map.mp htext
    exact bounded_text (h s hs)
  have hlisted := listedLines_output (fun text htext => (htexts text htext).1)
    fun text htext => (htexts text htext).2
  rw [hlisted, List.zipIdx_map, List.map_map]
  rfl

theorem lists_texts (h : ∀ s ∈ scripts, s.Valid) (number : Nat) :
    Lists ((scripts.zipIdx number).map fun (s, number) => (number, s.text)) scripts := by
  induction scripts generalizing number with
  | nil => exact .nil
  | cons s rest ih =>
    obtain ⟨hs, hrest⟩ := List.forall_mem_cons.mp h
    exact .cons hs.decode_eq (ih hrest (number + 1))

theorem valid_of_standFor (h : StandFor entries scripts) : ∀ s ∈ scripts, s.Valid := by
  induction h with
  | nil => nofun
  | cons hdecode _ ih => exact List.forall_mem_cons.mpr ⟨Script.valid_of_decode hdecode, ih⟩

/-! ## Normalizing a file -/

theorem Files.read_of_toUTF8 {files : Files} {name content : String}
    (h : files name = some content.toUTF8) : files.read name = .ok content := by
  have hdecoded : String.fromUTF8? content.toUTF8 = some content :=
    Text.fromUTF8?_eq_some_iff.mpr rfl
  rw [Files.read, h]
  simp only [hdecoded]

/-- A file that lists animation texts stands for its lines. -/
theorem Source.load_file {files : Files} {name content : String}
    (h : files name = some content.toUTF8) (hne : listedLines content ≠ []) :
    Source.load ⟨[], some name⟩ files = .ok (Source.listed name content) := by
  obtain ⟨entry, rest, hlisted⟩ :
    ∃ entry rest, Source.listed name content = entry :: rest := by
    refine List.exists_cons_of_ne_nil ?_
    rw [Source.listed]
    simpa using hne
  simp only [Source.load, Files.read_of_toUTF8 h, hlisted]
  rfl

/-- Normalizing a file whose lines stand for scripts prints the canonical
texts of the scripts. -/
theorem normalize_file {files : Files} {name content : String}
    (hfile : files name = some content.toUTF8) (hne : listedLines content ≠ [])
    (hlines : Lists (listedLines content) scripts) (around : Surroundings) :
    (Command.normalize ⟨[], some name⟩).run files around =
      .success (scripts.map Script.text) := by
  have hall : StandFor (Source.listed name content) scripts :=
    List.forall₂_map_left_iff.mpr hlines
  have hrun : (Command.normalize ⟨[], some name⟩).run files around =
      normalize (Source.listed name content) :=
    Source.report_of_load (Source.load_file hfile hne) _
  rw [hrun, normalize_of_standFor hall]

/-- Normalizing a file that lists animation texts, and decodable ones only, succeeds. It
prints the canonical texts of the scripts that the lines stand for, one to a line, and
each stands for its script again. What is printed lists these texts as its lines, from the
first on, and normalizing a file of it prints the same again. -/
theorem normalize_again {files : Files} {name content : String} (around : Surroundings)
    (hfile : files name = some content.toUTF8) (hne : listedLines content ≠ [])
    (hgood : ∀ line ∈ listedLines content, ∃ s, Text.decode line.2 = .ok s) :
    let report := (Command.normalize ⟨[], some name⟩).run files around
    ∃ scripts : List Script,
      Lists (listedLines content) scripts ∧
      report = .success (scripts.map Script.text) ∧
      report.output = String.join (scripts.map (·.text ++ "\n")) ∧
      (∀ s ∈ scripts, Text.decode s.text = .ok s) ∧
      listedLines report.output =
        (scripts.zipIdx 1).map (fun (s, number) => (number, s.text)) ∧
      ∀ (later : Files) (copy : String), later copy = some report.output.toUTF8 →
        (Command.normalize ⟨[], some copy⟩).run later around = report := by
  obtain ⟨scripts, hall⟩ : ∃ scripts, StandFor (Source.listed name content) scripts := by
    refine exists_standFor fun entry hentry => ?_
    obtain ⟨line, hline, rfl⟩ := List.mem_map.mp hentry
    exact hgood line hline
  have hlines : Lists (listedLines content) scripts := List.forall₂_map_left_iff.mp hall
  -- All that follows rests on the scripts being valid: then their texts are lines,
  -- and stand for them.
  have hvalid := valid_of_standFor hall
  have hreport := normalize_file hfile hne hlines around
  have hlisted := listedLines_texts hvalid
  simp only [hreport]
  refine ⟨scripts, hlines, rfl, ?_, fun s hs => (hvalid s hs).decode_eq, hlisted, ?_⟩
  · rw [Report.output, Report.success, List.map_map]
    rfl
  · intro later copy hcopy
    have hsome : scripts ≠ [] := by
      rintro rfl
      exact hne (List.forall₂_nil_right_iff.mp hlines)
    refine normalize_file hcopy ?_ ?_ around
    · rw [hlisted]
      simpa using hsome
    · rw [hlisted]
      exact lists_texts hvalid 1

/-- A file with a comment, a blank line and white space, and in it a zero and a
separator too many. -/
theorem normalize_again_of_two_lines :
    let files : Files := fun name =>
      if name = "walk" then some "# walk\n\n  A01--B2 \r\nC3".toUTF8 else none
    files "walk" = some "# walk\n\n  A01--B2 \r\nC3".toUTF8 ∧
      listedLines "# walk\n\n  A01--B2 \r\nC3" = [(3, "A01--B2"), (4, "C3")] ∧
      (Command.normalize ⟨[], some "walk"⟩).run files = ⟨["A1-B2", "C3"], none⟩ ∧
      listedLines "A1-B2\nC3\n" = [(1, "A1-B2"), (2, "C3")] ∧
      (Command.normalize ⟨[], some "copy"⟩).run (fun _ => some "A1-B2\nC3\n".toUTF8) =
        ⟨["A1-B2", "C3"], none⟩ := by
  intro files
  have hfile : files "walk" = some "# walk\n\n  A01--B2 \r\nC3".toUTF8 := rfl
  have hlisted : listedLines "# walk\n\n  A01--B2 \r\nC3" = [(3, "A01--B2"), (4, "C3")] := by
    decide +kernel
  have hfirst : Text.decode "A01--B2" = .ok ⟨[⟨0, 1, []⟩, ⟨1, 2, []⟩], [1, 3]⟩ := by
    have hone : Text.Token.Spelling (.frame 0 1) ['A', '0', '1'] :=
      .frame (by decide) (Text.Numeral.isNumeral_zero_cons (Text.Numeral.isNumeral_digits 1))
    have htwo : Text.Token.Spelling (.frame 1 2) ['B', '2'] :=
      .frame (by decide) (Text.Numeral.isNumeral_digits 2)
    have hspelling :=
      Text.Spelling.cons hone (.cons .separator (.cons .separator (.cons htwo .nil)))
    exact Text.decodeChars_eq_ok_iff.mpr ⟨_, hspelling, rfl, rfl⟩
  have hsecond : Text.decode "C3" = .ok ⟨[⟨2, 3, []⟩], [3]⟩ := by
    have hthree : Text.Token.Spelling (.frame 2 3) ['C', '3'] :=
      .frame (by decide) (Text.Numeral.isNumeral_digits 3)
    exact Text.decodeChars_eq_ok_iff.mpr ⟨_, .cons hthree .nil, rfl, rfl⟩
  have hgood : ∀ line ∈ listedLines "# walk\n\n  A01--B2 \r\nC3", ∃ s,
      Text.decode line.2 = .ok s := by
    rw [hlisted]
    intro line hline
    rcases List.mem_pair.mp hline with rfl | rfl
    · exact ⟨_, hfirst⟩
    · exact ⟨_, hsecond⟩
  obtain ⟨scripts, hlines, hreport, _, _, hlistedAgain, hagain⟩ :=
    normalize_again .own hfile (by rw [hlisted]; exact List.cons_ne_nil _ _) hgood
  have hscripts : scripts = [⟨[⟨0, 1, []⟩, ⟨1, 2, []⟩], [1, 3]⟩, ⟨[⟨2, 3, []⟩], [3]⟩] := by
    rw [hlisted] at hlines
    cases hlines with
    | cons hone hrest =>
      cases hrest with
      | cons htwo hnil =>
        cases hnil
        rw [hfirst] at hone
        rw [hsecond] at htwo
        cases hone
        cases htwo
        rfl
  subst hscripts
  rw [hreport] at hlistedAgain hagain
  exact ⟨hfile, hlisted, hreport, hlistedAgain,
    hagain (fun _ => some "A1-B2\nC3\n".toUTF8) "copy" rfl⟩

end Tool

end Flipbook
