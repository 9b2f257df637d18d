import Flipbook.Proofs.Text.Buffer
import Flipbook.Text.Diagnostic

/-!
# The caret stands under the fault

Main statement: `caret_under_fault`. Offsets count bytes and columns count characters, but
in front of a fault the two are the same number, so the diagnostic of a refused text never
has to guess a column.

The ways in which reading can halt are not gone through for that. A text is good up to its
fault: with a completion behind it, what stands there is accepted
(`Draft.Halts.exists_completion`). What is accepted is spelled by tokens, and what tokens
spell has one byte to a character (`Spelling.isAscii`). Only behind the fault can longer
characters stand.
-/

namespace Flipbook.Text

/-- Bytes that end where a front of the text ends have its characters before them. -/
theorem charsBefore?_append (front rest : List Char) :
    charsBefore? (byteLength front) (front ++ rest) = some front.length := by
  induction front with
  | nil => cases rest <;> rfl
  | cons c front ih =>
    have hsize : byteLength (c :: front) = c.utf8Size + byteLength front := rfl
    have hpos := c.utf8Size_pos
    rw [List.cons_append, charsBefore?, hsize, if_neg (by omega),
      if_pos (Nat.le_add_right _ _), Nat.add_sub_cancel_left, ih]
    rfl

/-- In front of the offset of its error a text has one byte to a character. -/
theorem exists_ascii_front {text : String} {e : DecodeError} (h : decode text = .error e) :
    ∃ front rest : List Char, text.toList = front ++ rest ∧ IsAscii front ∧
      byteLength front = e.offset := by
  cases hread : Draft.empty.read text.toList with
  | ok s =>
    rw [decode, decodeChars, hread] at h
    cases h
  | error fault =>
    obtain ⟨front, rest, last, htext, htakes, hhalts⟩ := Draft.read_eq_error_iff.mp hread
    obtain ⟨skipped, s, hrest, hcompleted⟩ :=
      hhalts.exists_completion (htakes.inTime (Nat.zero_le _))
    rw [decode, htext, Draft.decodeChars_eq_error htakes hhalts hrest, Except.error.injEq] at h
    subst h
    refine ⟨front ++ skipped, fault.rest, ?_, ?_, rfl⟩
    · rw [htext, hrest, List.append_assoc]
    · -- the completed text is accepted, so tokens spell it
      obtain ⟨tokens, _, hspell, _⟩ := Draft.read_eq_ok_iff.mp (htakes.read_eq_ok hcompleted)
      rw [← List.append_assoc] at hspell
      intro c hc
      exact hspell.isAscii c (List.mem_append_left _ hc)

/-- A byte of an ASCII text is less than 128. -/
theorem IsAscii.lt_of_mem_bytes {text : List Char} (h : IsAscii text) {byte : UInt8}
    (hbyte : byte ∈ bytes text) : byte < 128 := by
  rw [h.bytes_eq] at hbyte
  obtain ⟨c, hc, rfl⟩ := List.mem_map.mp hbyte
  have hle : c.toNat ≤ 127 := UInt32.le_iff_toNat_le.mp (h c hc)
  have hsize : c.toNat < UInt8.size := Nat.lt_of_le_of_lt hle (by decide)
  rw [UInt8.lt_iff_toNat_lt, UInt8.toNat_ofNat_of_lt' hsize]
  exact Nat.lt_succ_of_le hle

/-- Where a text is refused, the offset lies in the text and between two of its
characters, and all bytes in front of it are ASCII. So the number of characters in front
of it is the offset itself, however the text is cut there; the diagnostic finds this
number, and it puts the caret behind as many spaces. -/
theorem caret_under_fault {text : String} {e : DecodeError} (h : decode text = .error e) :
    e.offset ≤ text.utf8ByteSize ∧ String.Pos.Raw.IsValid text ⟨e.offset⟩ ∧
      (∀ byte ∈ text.toUTF8.data.toList.take e.offset, byte < 128) ∧
      charsBefore? e.offset text.toList = some e.offset ∧
      (∀ front rest : String, text = front ++ rest → front.utf8ByteSize = e.offset →
        front.length = e.offset) ∧
      diagnostic text e =
        "  " ++ text ++ "\n  " ++ String.ofList (List.replicate e.offset ' ') ++ "^" := by
  obtain ⟨front, rest, htext, hascii, hoffset⟩ := exists_ascii_front h
  have hcolumn : charsBefore? e.offset text.toList = some e.offset := by
    rw [htext, ← hoffset, charsBefore?_append, hascii.byteLength_eq]
  refine ⟨?_, ?_, ?_, hcolumn, ?_, ?_⟩
  · rw [utf8ByteSize_eq, htext, byteLength_append, hoffset]
    exact Nat.le_add_right _ _
  · refine String.Pos.Raw.isValid_iff_exists_append.mpr
      ⟨String.ofList front, String.ofList rest, ?_, ?_⟩
    · rw [← String.ofList_append, ← htext, String.ofList_toList]
    · rw [String.Pos.Raw.ext_iff]
      show e.offset = (String.ofList front).utf8ByteSize
      rw [utf8ByteSize_eq, String.toList_ofList, hoffset]
  · rw [toList_toUTF8, htext, bytes_append, ← hoffset, ← length_bytes, List.take_left]
    intro byte hbyte
    exact hascii.lt_of_mem_bytes hbyte
  · intro front' rest' hcut hsize
    have hcount := charsBefore?_append front'.toList rest'.toList
    rw [← utf8ByteSize_eq, hsize, ← String.toList_append, ← hcut, hcolumn, Option.some.injEq]
      at hcount
    exact hcount.symm
  · unfold diagnostic
    rw [hcolumn]
    rfl

/-- A stray snowman behind a frame and a separator has the caret under it, three
characters into the text, and what follows it does not count. -/
theorem caret_under_snowman :
    decode "A1-☃é" = .error ⟨.invalidTag, 3⟩ ∧
      diagnostic "A1-☃é" ⟨.invalidTag, 3⟩ = "  A1-☃é\n     ^" := by
  have hfault : decode "A1-☃é" = .error ⟨.invalidTag, 3⟩ := by
    have hframe : Token.Spelling (.frame 0 1) ['A', '1'] :=
      .frame (by decide) (Numeral.isNumeral_digits 1)
    have htakes : Draft.Takes ['☃', 'é'] .empty ['A', '1', '-'] ⟨[⟨0, 1, []⟩], [1], []⟩ :=
      .cons hframe rfl rfl (.cons .separator trivial rfl .nil)
    have hhalts : Draft.Halts ⟨[⟨0, 1, []⟩], [1], []⟩ ['☃', 'é'] ⟨.invalidTag, ['☃', 'é']⟩ :=
      .stray (by decide) (by decide) fun hlower => absurd hlower (by decide)
    exact Draft.decodeChars_eq_error htakes hhalts (List.nil_append _).symm
  obtain ⟨_, _, _, _, _, hcaret⟩ := caret_under_fault hfault
  exact ⟨hfault, hcaret⟩

end Flipbook.Text
