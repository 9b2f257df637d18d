import Flipbook.Proofs.Text.Magnitude
import Flipbook.Toml.Record

/-!
# Documents of one entry to a line

Main statement: `library_lawful`. A document in which each line puts a plain value under a bare
key, and no two lines put one under the same key, is read as the record that has these fields.

Every reader is told where to stop by the character that follows: a key by the blank
behind it, a word by the line break, a string by its closing quote. So a line is read as
if it were alone (`readStatements_line`), and adds its entry to a table that does not have
its key yet (`add?_assign`). The values are strings without escapes and words, among them
the digits of a number (`scalar?_toDigits`).
-/

namespace Flipbook.Toml

open Text (ne_of_test takeWhile_append_of_stop dropWhile_append_of_stop)

variable {c : Char} {key value text token run : List Char} {node : Node} {n : Nat}
  {fieldValue : Value} {entry : String × Value} {entries : List (String × Value)}

/-! ## Keys -/

/-- A bare key is read up to a character that cannot stand in it. -/
theorem readKey_append {rest : List Char} (hne : key ≠ [])
    (hkey : ∀ c ∈ key, isBareKey c = true)
    (hrest : rest.head?.any isBareKey = false) :
    readKey (key ++ rest) = some (String.ofList key, rest) := by
  obtain ⟨c, more, rfl⟩ := List.exists_cons_of_ne_nil hne
  have hc := hkey c (List.mem_cons_self ..)
  have htake := takeWhile_append_of_stop hkey hrest
  have hdrop := dropWhile_append_of_stop hkey hrest
  unfold readKey
  split
  next heq => cases heq; exact absurd rfl (ne_of_test hc (by decide))
  next heq => cases heq; exact absurd rfl (ne_of_test hc (by decide))
  next => rw [htake, hdrop]

/-- A bare key alone is the whole path to a value. -/
theorem readPath_append (hne : key ≠ []) (hkey : ∀ c ∈ key, isBareKey c = true)
    (rest : List Char) :
    readPath (key ++ " = ".toList ++ rest) =
      some ([String.ofList key], '=' :: ' ' :: rest) := by
  have hread : readKey (key ++ ' ' :: '=' :: ' ' :: rest) =
      some (String.ofList key, ' ' :: '=' :: ' ' :: rest) :=
    readKey_append hne hkey rfl
  rw [List.append_assoc]
  show readKeys (79 + 1) (key ++ ' ' :: '=' :: ' ' :: rest) = _
  rw [readKeys, hread]
  rfl

theorem skipBlanks_of_isBareKey (h : isBareKey c = true) (rest : List Char) :
    skipBlanks (c :: rest) = c :: rest := by
  have hspace : c ≠ ' ' := ne_of_test h rfl
  have htab : c ≠ '\t' := ne_of_test h rfl
  exact List.dropWhile_cons_of_neg (by simp [isBlank, hspace, htab])

/-! ## Digits -/

theorem isDigitIn_of_isDigit (h : c.isDigit = true) : isDigitIn 10 c = true := by
  have hlt : digitValue c < 10 := by
    rw [digitValue, if_pos h]
    exact Nat.lt_succ_of_le (Text.Numeral.sub_zero_le_nine h)
  rw [isDigitIn, h, Bool.true_or, Bool.true_and, decide_eq_true_iff]
  exact hlt

theorem numberIn_eq (h : ∀ c ∈ run, c.isDigit = true) :
    numberIn 10 run = Nat.ofDigitChars 10 run 0 := by
  have hfold : ∀ n : Nat,
      run.foldl (fun n c => 10 * n + digitValue c) n = Nat.ofDigitChars 10 run n := by
    induction run with
    | nil => exact fun n => rfl
    | cons c run ih =>
      obtain ⟨hc, hrun⟩ := List.forall_mem_cons.mp h
      intro n
      rw [List.foldl_cons, ih hrun, Nat.ofDigitChars_cons, digitValue, if_pos hc]
  exact hfold 0

/-- Among digits there is no underscore to stand in a wrong place. -/
theorem separates_of_digits {digit : Char → Bool} (h : ∀ c ∈ run, c.isDigit = true)
    (behind : Bool) : separates digit behind run = true := by
  induction run generalizing behind with
  | nil => rfl
  | cons c run ih =>
    obtain ⟨hc, hrun⟩ := List.forall_mem_cons.mp h
    rw [separates]
    · exact ih hrun _
    · rintro rfl
      exact ne_of_test hc (by decide) rfl

/-- Among digits there is no underscore to take out. -/
theorem withoutUnderscores_of_digits (h : ∀ c ∈ run, c.isDigit = true) :
    withoutUnderscores run = run := by
  rw [withoutUnderscores, List.filter_eq_self]
  intro c hc
  exact bne_iff_ne.mpr (ne_of_test (h c hc) (by decide))

theorem head?_append_of_ne_nil (h : text ≠ []) (rest : List Char) :
    (text ++ rest).head? = text.head? := by
  obtain ⟨c, text, rfl⟩ := List.exists_cons_of_ne_nil h
  rfl

theorem isDigit_of_mem_toDigits (h : c ∈ Nat.toDigits 10 n) : c.isDigit = true :=
  Nat.isDigit_of_mem_toDigits (by decide) (by decide) h

/-- The digits of a number have no zero in front, but for zero itself. -/
theorem toDigits_eq_zero_or (n : Nat) :
    Nat.toDigits 10 n = ['0'] ∨ (Nat.toDigits 10 n).head? ≠ some '0' := by
  induction n using Nat.strongRecOn with
  | ind n ih =>
    rcases Nat.lt_or_ge n 10 with hlt | hge
    · have hall : ∀ d : Nat, d < 10 → [d.digitChar] = ['0'] ∨
          [d.digitChar].head? ≠ some '0' := by decide
      rw [Nat.toDigits_of_lt_base hlt]
      exact hall n hlt
    · -- the front of the digits is that of a tenth, which is not zero
      right
      have hpos : 0 < n / 10 := Nat.div_pos hge (by decide)
      rw [Nat.toDigits_of_base_le (by decide) hge, head?_append_of_ne_nil Nat.toDigits_ne_nil]
      rcases ih (n / 10) (Nat.div_lt_self (by omega) (by decide)) with hzero | hhead
      · have hback : Nat.ofDigitChars 10 (Nat.toDigits 10 (n / 10)) 0 = n / 10 :=
          Nat.ofDigitChars_ten_toDigits
        have hnil : Nat.ofDigitChars 10 ['0'] 0 = 0 := rfl
        rw [hzero] at hback
        omega
      · exact hhead

theorem decimal?_toDigits (h : (n : Int) ≤ greatestInteger) :
    decimal? false (Nat.toDigits 10 n) = some (.integer (some n)) := by
  have hdigits : ∀ c ∈ Nat.toDigits 10 n, c.isDigit = true :=
    fun c hc => isDigit_of_mem_toDigits hc
  have hempty : (Nat.toDigits 10 n).isEmpty = false :=
    List.isEmpty_eq_false_iff.mpr Nat.toDigits_ne_nil
  have hdrop : (Nat.toDigits 10 n).dropWhile Char.isDigit = [] := by
    have hstop : (Nat.toDigits 10 n ++ []).dropWhile Char.isDigit = [] :=
      dropWhile_append_of_stop hdigits rfl
    rwa [List.append_nil] at hstop
  have hzero : (Nat.toDigits 10 n == ['0'] || (Nat.toDigits 10 n).head? != some '0') =
      true := by
    simpa only [Bool.or_eq_true, beq_iff_eq, bne_iff_ne] using toDigits_eq_zero_or n
  have hvalue : integerValue? 10 false (Nat.toDigits 10 n) = some (n : Int) := by
    have hall : (Nat.toDigits 10 n).all (isDigitIn 10) = true :=
      List.all_eq_true.mpr fun c hc => isDigitIn_of_isDigit (hdigits c hc)
    have hleast : leastInteger ≤ (n : Int) := Int.le_trans (by decide) (Int.natCast_nonneg n)
    simp only [integerValue?, hempty, hall, numberIn_eq hdigits,
      Nat.ofDigitChars_ten_toDigits, Bool.not_false, Bool.and_self, Bool.false_eq_true,
      if_true, if_false]
    exact if_pos ⟨hleast, h⟩
  rw [decimal?, hdrop]
  simp only [hempty, decimalInteger?, hzero, separates_of_digits hdigits,
    withoutUnderscores_of_digits hdigits, hvalue]
  rfl

/-- The digits of a number are read as the number, if that is not too large. -/
theorem scalar?_toDigits (h : (n : Int) ≤ greatestInteger) :
    scalar? (Nat.toDigits 10 n) = some (.integer (some n)) := by
  have hdecimal := decimal?_toDigits h
  have hdigits : ∀ c ∈ Nat.toDigits 10 n, c.isDigit = true :=
    fun c hc => isDigit_of_mem_toDigits hc
  generalize Nat.toDigits 10 n = run at hdecimal hdigits
  -- whatever else a word may be, some character of it is no digit
  have hword : ∀ word : List Char, word.all Char.isDigit = false → run ≠ word := by
    rintro word hword rfl
    rw [List.all_eq_true.mpr hdigits] at hword
    cases hword
  have hsign : sign? run = none := by
    unfold sign?
    split
    next => exact absurd (hdigits '-' (List.mem_cons_self ..)) (by decide)
    next => exact absurd (hdigits '+' (List.mem_cons_self ..)) (by decide)
    next => rfl
  have hnumber : number? run = some (.integer (some n)) := by
    unfold number?
    split
    next => exact absurd (hdigits 'x' (by simp)) (by decide)
    next => exact absurd (hdigits 'o' (by simp)) (by decide)
    next => exact absurd (hdigits 'b' (by simp)) (by decide)
    next =>
      have hnot : ¬ (run = "inf".toList ∨ run = "nan".toList) :=
        not_or.mpr ⟨hword _ (by decide), hword _ (by decide)⟩
      simp only [hsign, Option.getD_none, if_neg hnot]
      exact hdecimal
  rw [scalar?, if_neg (hword _ (by decide)), if_neg (hword _ (by decide)), hnumber]

/-! ## Values -/

/-- The character stands for itself in a string. -/
def isPlain (c : Char) : Bool :=
  isText c && c != '"' && c != '\\'

/-- The characters of a value that takes no more than its line: a string without escapes,
or a word of the characters that keys are made of. -/
inductive Spells : List Char → Node → Prop where
  | quoted {text : List Char} (plain : ∀ c ∈ text, isPlain c = true) :
      Spells ('"' :: (text ++ ['"'])) (.string (String.ofList text))
  | word {token : List Char} {node : Node} (bare : ∀ c ∈ token, isBareKey c = true)
      (scalar : scalar? token = some node) : Spells token node

theorem readBasic_append (h : ∀ c ∈ text, isPlain c = true) (read rest : List Char) :
    readBasic read none (text ++ '"' :: rest) =
      some (String.ofList (read.reverse ++ text), rest) := by
  induction text generalizing read with
  | nil => simp [readBasic]
  | cons c text ih =>
    obtain ⟨hplain, htext⟩ := List.forall_mem_cons.mp h
    have hquote : c ≠ '"' := ne_of_test hplain rfl
    have hescape : c ≠ '\\' := ne_of_test hplain rfl
    rw [isPlain, Bool.and_eq_true, Bool.and_eq_true] at hplain
    rw [List.cons_append, readBasic]
    simp only [if_neg hquote, if_neg hescape, if_pos hplain.1.1]
    rw [ih htext, List.reverse_cons, List.append_assoc]
    rfl

/-- No character of a bare key ends a word. -/
theorem isBareValue_of_isBareKey (h : isBareKey c = true) : isBareValue c = true := by
  have hends : wordEnds.all (!isBareKey ·) = true := by decide
  rw [isBareValue, Bool.not_eq_true', List.contains_eq_mem, decide_eq_false_iff_not]
  intro hmem
  have hend : (!isBareKey c) = true := List.all_eq_true.mp hends c hmem
  rw [h] at hend
  cases hend

theorem splitBare_append (h : ∀ c ∈ token, isBareKey c = true) (rest : List Char) :
    splitBare (token ++ '\n' :: rest) = (token, '\n' :: rest) := by
  induction token with
  | nil => rfl
  | cons c token ih =>
    obtain ⟨hc, htoken⟩ := List.forall_mem_cons.mp h
    rw [List.cons_append, splitBare, if_pos (isBareValue_of_isBareKey hc), ih htoken]

/-- A value is read up to the line break behind it. -/
theorem readValue_append (h : Spells value node) (depth steps : Nat) (rest : List Char) :
    readValue depth (steps + 1) (value ++ '\n' :: rest) = some (node, '\n' :: rest) := by
  cases h with
  | quoted plain =>
    rw [List.cons_append, List.append_assoc, List.singleton_append, readValue,
      readBasic_append plain]
    rfl
  | word bare scalar =>
    have hsplit := splitBare_append bare rest
    cases value with
    | nil => cases scalar
    | cons c token =>
      have hc := bare c (List.mem_cons_self ..)
      rw [List.cons_append] at hsplit ⊢
      -- the first character opens neither a string nor a bracket
      unfold readValue
      split
      next heq => cases heq; exact absurd rfl (ne_of_test hc (by decide))
      next heq => cases heq; exact absurd rfl (ne_of_test hc (by decide))
      next heq => cases heq; exact absurd rfl (ne_of_test hc (by decide))
      next heq => cases heq; exact absurd rfl (ne_of_test hc (by decide))
      next => simp only [hsplit, scalar, Option.map_some]

/-- A value does not start with a blank. -/
theorem skipBlanks_append (h : Spells value node) (rest : List Char) :
    skipBlanks (value ++ rest) = value ++ rest := by
  cases h with
  | quoted => rfl
  | word bare scalar =>
    cases value with
    | nil => cases scalar
    | cons c token => exact skipBlanks_of_isBareKey (bare c (List.mem_cons_self ..)) _

theorem Spells.oneLine (h : Spells value node) : '\n' ∉ value := by
  intro hmem
  cases h with
  | quoted plain =>
    rcases List.mem_cons.mp hmem with hquote | hmem
    · cases hquote
    rcases List.mem_append.mp hmem with hin | hquote
    · exact absurd rfl (ne_of_test (plain _ hin) (by decide))
    · cases List.mem_singleton.mp hquote
  | word bare => exact absurd rfl (ne_of_test (bare _ hmem) (by decide))

/-! ## Values of fields -/

/-- The node as which a value is read. -/
def Value.toNode : Value → Node
  | .word text => .string text
  | .boolean value => .boolean value
  | .natural n => .integer (some n)

theorem value?_toNode (value : Value) : value.toNode.value? = some value := by
  cases value with
  | word text => rfl
  | boolean value => rfl
  | natural n =>
    have hpos : 0 ≤ (n : Int) := Int.natCast_nonneg n
    rw [Value.toNode, Node.value?, if_pos hpos, Int.toNat_natCast]

theorem toNat_bounds_of_val {low high : Char} (h : low.val ≤ c.val ∧ c.val ≤ high.val) :
    low.toNat ≤ c.toNat ∧ c.toNat ≤ high.toNat :=
  h.imp UInt32.le_iff_toNat_le.mp UInt32.le_iff_toNat_le.mp

/-- The characters of bare keys lie between `-` and `z`. -/
theorem toNat_bounds_of_isBareKey (h : isBareKey c = true) : 45 ≤ c.toNat ∧ c.toNat ≤ 122 := by
  rcases Bool.or_eq_true_iff.mp h with hword | hdash
  · rcases Bool.or_eq_true_iff.mp hword with halnum | hunderscore
    · rcases Bool.or_eq_true_iff.mp halnum with halpha | hdigit
      · rcases Bool.or_eq_true_iff.mp halpha with hupper | hlower
        · have hbounds : 65 ≤ c.toNat ∧ c.toNat ≤ 90 :=
            toNat_bounds_of_val (of_decide_eq_true hupper)
          omega
        · obtain ⟨hlow, hhigh⟩ := Bool.and_eq_true_iff.mp hlower
          have hbounds : 97 ≤ c.toNat ∧ c.toNat ≤ 122 :=
            toNat_bounds_of_val ⟨of_decide_eq_true hlow, of_decide_eq_true hhigh⟩
          omega
      · have hbounds : 48 ≤ c.toNat ∧ c.toNat ≤ 57 := Char.isDigit_iff_toNat.mp hdigit
        omega
    · rw [eq_of_beq hunderscore]
      decide
  · rw [eq_of_beq hdash]
    decide

theorem isPlain_of_isBareKey (h : isBareKey c = true) : isPlain c = true := by
  have hquote : c ≠ '"' := ne_of_test h (by decide)
  have hescape : c ≠ '\\' := ne_of_test h (by decide)
  have htext : isText c = true := by
    have hbounds := toNat_bounds_of_isBareKey h
    simp [isText]
    omega
  simp [isPlain, htext, hquote, hescape]

theorem spells_toNode (h : fieldValue.Plain) :
    Spells (spell fieldValue).toList fieldValue.toNode := by
  cases fieldValue with
  | word text =>
    have hquoted := Spells.quoted fun c hc => isPlain_of_isBareKey (h c hc)
    rw [String.ofList_toList] at hquoted
    rw [spell, String.toList_append, String.toList_append]
    exact hquoted
  | boolean value =>
    cases value with
    | true => exact .word (List.all_eq_true.mp (by decide)) rfl
    | false => exact .word (List.all_eq_true.mp (by decide)) rfl
  | natural n =>
    have hbare : ∀ c ∈ Nat.toDigits 10 n, isBareKey c = true := by
      intro c hc
      rw [isBareKey, Char.isAlphanum, isDigit_of_mem_toDigits hc, Bool.or_true]
      rfl
    have hsize : n < UInt64.size := h
    have hgreatest : (n : Int) ≤ greatestInteger :=
      Int.le_trans (Int.ofNat_le.mpr (Nat.le_of_lt hsize)) (by decide)
    rw [spell, Nat.toString_eq_ofList_toDigits, String.toList_ofList]
    exact .word hbare (scalar?_toDigits hgreatest)

/-! ## Lines -/

theorem toList_line (spell : Value → String) (entry : String × Value) :
    (line spell entry).toList = entry.1.toList ++ " = ".toList ++ (spell entry.2).toList := by
  rw [line, String.toList_append, String.toList_append]

/-- A line begins with its key, however the value is spelled. -/
theorem keyOf_line {spell : Value → String} (h : PlainEntry entry) :
    keyOf (line spell entry) = entry.1 := by
  have htake : (line spell entry).toList.takeWhile isBareKey = entry.1.toList := by
    rw [toList_line, List.append_assoc]
    exact takeWhile_append_of_stop h.bare rfl
  rw [keyOf, htake, String.ofList_toList]

theorem map_keyOf_line {spell : Value → String} (h : ∀ entry ∈ entries, PlainEntry entry) :
    (entries.map (line spell)).map keyOf = entries.map Prod.fst := by
  rw [List.map_map]
  exact List.map_congr_left fun entry hentry => keyOf_line (h entry hentry)

theorem plainEntry {key : String} {value : Value} (hkeyed : key.toList ≠ [])
    (hbare : key.toList.all isBareKey = true) (h : value.Plain) : PlainEntry (key, value) :=
  ⟨hkeyed, List.all_eq_true.mp hbare, h⟩

/-- With a lawful library a line has no line break in it. -/
theorem Library.Lawful.line_oneLine {library : Library} {spell : Value → String}
    (hlibrary : library.Lawful spell) (h : PlainEntry entry) :
    '\n' ∉ (line spell entry).toList := by
  rw [toList_line, List.mem_append, List.mem_append]
  rintro ((hkey | hbetween) | hvalue)
  · exact absurd rfl (ne_of_test (h.bare _ hkey) (by decide))
  · exact absurd hbetween (by decide)
  · exact hlibrary.spell_oneLine entry.2 h.plain hvalue

/-- The first character of a line is one of its key. -/
theorem exists_line_eq_cons (h : PlainEntry entry) :
    ∃ c more, (line spell entry).toList = c :: more ∧ isBareKey c = true := by
  obtain ⟨c, more, hkey⟩ := List.exists_cons_of_ne_nil h.keyed
  refine ⟨c, more ++ " = ".toList ++ (spell entry.2).toList, ?_, ?_⟩
  · rw [toList_line, hkey]
    rfl
  · exact h.bare c (by rw [hkey]; exact List.mem_cons_self ..)

theorem readAssignment_line (h : PlainEntry entry) (rest : List Char) :
    readAssignment ((line spell entry).toList ++ '\n' :: rest) =
      some (.assign [entry.1] entry.2.toNode, '\n' :: rest) := by
  have hspells := spells_toNode h.plain
  have hpath := readPath_append h.keyed h.bare ((spell entry.2).toList ++ '\n' :: rest)
  have hskip : skip? '=' ('=' :: ' ' :: ((spell entry.2).toList ++ '\n' :: rest)) =
      some ((spell entry.2).toList ++ '\n' :: rest) :=
    congrArg some (skipBlanks_append hspells ('\n' :: rest))
  have hvalue :=
    readValue_append hspells 0 ((spell entry.2).toList ++ '\n' :: rest).length rest
  rw [toList_line, List.append_assoc]
  simp only [readAssignment, hpath, hskip, hvalue, Option.bind_eq_bind, Option.bind_some,
    String.ofList_toList]

/-- A line is one statement. -/
theorem readStatements_line (h : PlainEntry entry) (steps : Nat) (rest : List Char) :
    readStatements (steps + 1) ((line spell entry).toList ++ '\n' :: rest) =
      (readStatements steps rest).map (Statement.assign [entry.1] entry.2.toNode :: ·) := by
  have hread := readAssignment_line h rest
  obtain ⟨c, more, hline, hc⟩ := exists_line_eq_cons h
  rw [hline, List.cons_append] at hread ⊢
  -- the first character starts no blank line, no comment and no header
  have hfull : ¬ (c = '\n' ∨ c = '\r' ∨ c = '#') := by
    rintro (rfl | rfl | rfl) <;> cases hc
  have hheader : c ≠ '[' := ne_of_test hc rfl
  have hend : endLine? ('\n' :: rest) = some rest := rfl
  rw [readStatements, skipBlanks_of_isBareKey hc]
  simp only [if_neg hfull, if_neg hheader, hread, hend, Option.bind_eq_bind, Option.bind_some]
  cases readStatements steps rest <;> rfl

/-- Lines are statements, one each. -/
theorem readStatements_lines (h : ∀ entry ∈ entries, PlainEntry entry) {steps : Nat}
    (hsteps : entries.length < steps) :
    readStatements steps (entries.flatMap fun entry => (line spell entry).toList ++ ['\n']) =
      some (entries.map fun entry => .assign [entry.1] entry.2.toNode) := by
  induction entries generalizing steps with
  | nil =>
    cases steps with
    | zero => cases hsteps
    | succ steps => rfl
  | cons entry entries ih =>
    obtain ⟨hentry, hrest⟩ := List.forall_mem_cons.mp h
    cases steps with
    | zero => cases hsteps
    | succ steps =>
      rw [List.flatMap_cons, List.append_assoc, List.singleton_append,
        readStatements_line hentry, ih hrest (Nat.lt_of_succ_lt_succ hsteps)]
      rfl

theorem length_le_length_lines (entries : List (String × Value)) :
    entries.length ≤
      (entries.flatMap fun entry => (line spell entry).toList ++ ['\n']).length := by
  induction entries with
  | nil => exact Nat.le_refl _
  | cons entry entries ih =>
    rw [List.flatMap_cons, List.length_append, List.length_append, List.length_cons,
      List.length_singleton]
    omega

theorem skipByteOrderMark_lines (h : ∀ entry ∈ entries, PlainEntry entry) :
    skipByteOrderMark (entries.flatMap fun entry => (line spell entry).toList ++ ['\n']) =
      entries.flatMap fun entry => (line spell entry).toList ++ ['\n'] := by
  cases entries with
  | nil => rfl
  | cons entry entries =>
    obtain ⟨c, more, hline, hc⟩ := exists_line_eq_cons (h entry (List.mem_cons_self ..))
    rw [List.flatMap_cons, hline]
    unfold skipByteOrderMark
    split
    next heq => cases heq; exact absurd rfl (ne_of_test hc (by decide))
    next => rfl

/-! ## Entries -/

theorem lookup_eq_none {nodes : Entries} {key : String} (h : key ∉ nodes.map Prod.fst) :
    nodes.lookup key = none := by
  rw [List.lookup_eq_none_iff]
  intro entry hentry
  exact bne_iff_ne.mpr fun heq => h (heq ▸ List.mem_map_of_mem hentry)

/-- A key that the document does not have yet gets its value. -/
theorem add?_assign (nodes : Entries) {key : String} (node : Node)
    (h : key ∉ nodes.map Prod.fst) :
    Document.add? ⟨nodes, []⟩ (.assign [key] node) = some ⟨nodes ++ [(key, node)], []⟩ := by
  simp [Document.add?, Entries.assignAt, Entries.assign, lookup_eq_none h]

theorem foldlM_add? (entries : List (String × Value)) (nodes : Entries)
    (h : (nodes.map Prod.fst ++ entries.map Prod.fst).Nodup) :
    (entries.map fun entry => Statement.assign [entry.1] entry.2.toNode).foldlM
        Document.add? ⟨nodes, []⟩ =
      some ⟨nodes ++ entries.map fun entry => (entry.1, entry.2.toNode), []⟩ := by
  induction entries generalizing nodes with
  | nil => simp
  | cons entry entries ih =>
    have hnew : entry.1 ∉ nodes.map Prod.fst := by
      intro hmem
      rw [List.nodup_append] at h
      exact h.2.2 _ hmem _ (List.mem_cons_self ..) rfl
    have hrest :
        ((nodes ++ [(entry.1, entry.2.toNode)]).map Prod.fst ++
          entries.map Prod.fst).Nodup := by
      simpa using h
    have hfold := ih _ hrest
    rw [List.append_assoc] at hfold
    rw [List.map_cons, List.foldlM_cons, add?_assign nodes _ hnew, Option.bind_eq_bind,
      Option.bind_some]
    exact hfold

/-- Entries with different keys, one to a line, make a document of just these entries. -/
theorem parse?_lines (h : ∀ entry ∈ entries, PlainEntry entry)
    (hnodup : (entries.map Prod.fst).Nodup) :
    parse? (ofLines (entries.map (line spell))) =
      some (entries.map fun entry => (entry.1, entry.2.toNode)) := by
  have htext : (ofLines (entries.map (line spell))).toList =
      entries.flatMap fun entry => (line spell entry).toList ++ ['\n'] := by
    simp only [ofLines, String.toList_join, List.map_map, List.flatMap_map,
      Function.comp_apply, String.toList_append]
    rfl
  have hread := readStatements_lines h (Nat.lt_succ_of_le (length_le_length_lines entries))
  have hfold := foldlM_add? entries [] hnodup
  rw [parse?, htext, parseChars?]
  simp only [skipByteOrderMark_lines h, Option.bind_eq_bind]
  rw [hread, Option.bind_some, hfold]
  rfl

/-! ## Records -/

/-- What is read from the nodes of values is what the values make of the record. -/
theorem foldlM_readField? {α : Type} {d : Declaration α} {record last : α}
    (h : entries.foldlM d.set? record = some last) :
    (entries.map fun entry => (entry.1, entry.2.toNode)).foldlM (readField? d.fields) record =
      some last := by
  induction entries generalizing record with
  | nil => exact h
  | cons entry entries ih =>
    rw [List.foldlM_cons, Option.bind_eq_bind, Option.bind_eq_some_iff] at h
    obtain ⟨changed, hset, hrest⟩ := h
    obtain ⟨field, hfield, hvalue⟩ := Option.bind_eq_some_iff.mp hset
    have hentry : readField? d.fields record (entry.1, entry.2.toNode) = some changed := by
      simp only [readField?, hfield, value?_toNode, Option.bind_some, hvalue]
    rw [List.map_cons, List.foldlM_cons, hentry, Option.bind_eq_bind, Option.bind_some,
      ih hrest]

/-- The library of this project is one to rely on. -/
theorem library_lawful : library.Lawful spell where
  spell_oneLine value h := (spells_toNode h).oneLine
  write_eq d record _ _ := rfl
  read_eq d entries record h hnodup hrecord := by
    have hparse : d.parse? (ofLines (entries.map (line spell))) = some record := by
      rw [Declaration.parse?, parse?_lines h hnodup, Option.bind_some,
        foldlM_readField? hrecord]
    simp only [library, hparse, Option.elim_some]

end Flipbook.Toml
