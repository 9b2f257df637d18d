import Flipbook.Proofs.Text.Faults

/-!
# How far reading looks ahead

Main statement: `decode_error_local`. The offset of an error is the end of what can still
be completed, and little behind it counts.

Texts are compared by their bytes, as offsets are counted in bytes, but reading goes by
characters. The two come together in one fact: no character's bytes begin those of another
one, so that bytes begin a text's bytes exactly if their characters begin the text
(`bytes_prefix_iff`). Everything that reading asks of the text ahead is whether some short
text begins it: a digit, a sign and a digit, a code. So the answers agree for texts that
share one, two or three bytes, and with them the ways of going on and of halting.
-/

namespace Flipbook.Text

open Tag (Kind)
open Numeral (Signed startsAt)

/-! ## Bytes of texts -/

/-- The bytes in which a text is stored. -/
def bytes (text : List Char) : List UInt8 :=
  text.flatMap String.utf8EncodeChar

theorem bytes_cons (c : Char) (text : List Char) :
    bytes (c :: text) = String.utf8EncodeChar c ++ bytes text :=
  List.flatMap_cons

theorem bytes_append (front rest : List Char) :
    bytes (front ++ rest) = bytes front ++ bytes rest :=
  List.flatMap_append

theorem length_bytes (text : List Char) : (bytes text).length = byteLength text := by
  induction text with
  | nil => rfl
  | cons c text ih =>
    rw [bytes_cons, List.length_append, String.length_utf8EncodeChar, ih]
    rfl

theorem byteLength_append (front rest : List Char) :
    byteLength (front ++ rest) = byteLength front + byteLength rest := by
  rw [← length_bytes, bytes_append, List.length_append, length_bytes, length_bytes]

theorem byteLength_pos {text : List Char} (h : text ≠ []) : 0 < byteLength text := by
  obtain ⟨c, text, rfl⟩ := List.exists_cons_of_ne_nil h
  exact Nat.lt_of_lt_of_le c.utf8Size_pos (Nat.le_add_right _ _)

theorem toList_toUTF8 (text : String) : text.toUTF8.data.toList = bytes text.toList := by
  have hencode : text.toByteArray = text.toList.utf8Encode := by
    rw [← String.toByteArray_ofList, String.ofList_toList]
  rw [String.toUTF8_eq_toByteArray, hencode]
  exact List.toList_data_toByteArray

/-- Bytes are read as a text if they are the bytes in which it is stored. -/
theorem fromUTF8?_eq_some_iff {stored : ByteArray} {text : String} :
    String.fromUTF8? stored = some text ↔ text.toUTF8 = stored := by
  unfold String.fromUTF8?
  refine ⟨?_, ?_⟩
  · intro h
    split at h
    next => cases h; rfl
    next => cases h
  · rintro rfl
    rw [String.toUTF8_eq_toByteArray, dif_pos text.isValidUTF8]
    rfl

theorem utf8ByteSize_eq (text : String) : text.utf8ByteSize = byteLength text.toList := by
  rw [← length_bytes, ← toList_toUTF8, Array.length_toList]
  rfl

/-- A character can be told from its bytes, whatever follows them. -/
theorem eq_of_utf8EncodeChar_append {c c' : Char} {more more' : List UInt8}
    (h : String.utf8EncodeChar c ++ more = String.utf8EncodeChar c' ++ more') : c = c' := by
  have hdecode : ∀ (c : Char) (more : List UInt8),
      ByteArray.utf8DecodeChar? (String.utf8EncodeChar c ++ more).toByteArray 0 = some c := by
    intro c more
    rw [List.toByteArray_append]
    exact ByteArray.utf8DecodeChar?_utf8EncodeChar_append
  have hone := hdecode c more
  rw [h, hdecode c' more', Option.some.injEq] at hone
  exact hone.symm

/-- Bytes begin the bytes of a text exactly if their characters begin the text. -/
theorem bytes_prefix_iff {front : List Char} :
    ∀ {text : List Char}, bytes front <+: bytes text ↔ front <+: text := by
  induction front with
  | nil => exact fun {text} => ⟨fun _ => List.nil_prefix, fun _ => List.nil_prefix⟩
  | cons c front ih =>
    intro text
    rw [bytes_cons]
    constructor
    · intro h
      obtain ⟨more, hmore⟩ := h
      cases text with
      | nil =>
        rw [List.append_assoc] at hmore
        exact absurd (List.append_eq_nil_iff.mp hmore).1 String.utf8EncodeChar_ne_nil
      | cons c' text =>
        rw [bytes_cons, List.append_assoc] at hmore
        obtain rfl := eq_of_utf8EncodeChar_append hmore
        rw [List.append_cancel_left_eq] at hmore
        exact List.cons_prefix_cons.mpr ⟨rfl, ih.mp ⟨more, hmore⟩⟩
    · intro h
      obtain ⟨rest, rfl⟩ := h
      rw [List.cons_append, bytes_cons, bytes_append, ← List.append_assoc]
      exact List.prefix_append _ _

/-! ## Texts that share their first bytes -/

/-- The first `n` bytes of the texts are the same. -/
def Shares (n : Nat) (text other : List Char) : Prop :=
  (bytes text).take n = (bytes other).take n

variable {n : Nat} {text other rest rest' front : List Char}

theorem Shares.mono {m : Nat} (h : Shares n text other) (hle : m ≤ n) :
    Shares m text other := by
  have htake := congrArg (List.take m) h
  rwa [List.take_take, List.take_take, Nat.min_eq_left hle] at htake

theorem Shares.ne_nil (h : Shares n text other) (hn : 0 < n) (htext : text ≠ []) :
    other ≠ [] := by
  rintro rfl
  unfold Shares at h
  obtain ⟨c, text, rfl⟩ := List.exists_cons_of_ne_nil htext
  have hnil : bytes ([] : List Char) = [] := rfl
  rw [hnil, List.take_nil, List.take_eq_nil_iff, bytes_cons, List.append_eq_nil_iff] at h
  rcases h with hzero | ⟨hchar, _⟩
  · omega
  · exact String.utf8EncodeChar_ne_nil hchar

/-- A short text begins both texts or none of them. -/
theorem Shares.prefix_iff (h : Shares n text other) (hle : byteLength front ≤ n) :
    front <+: text ↔ front <+: other := by
  have htake : ∀ whole : List Char, front <+: whole ↔
      bytes front <+: (bytes whole).take n := by
    intro whole
    rw [List.prefix_take_iff, bytes_prefix_iff, length_bytes, and_iff_left hle]
  rw [htake, htake, h]

theorem Shares.append (h : Shares n text other) (front : List Char) :
    Shares (byteLength front + n) (front ++ text) (front ++ other) := by
  unfold Shares at h ⊢
  rw [bytes_append, bytes_append, ← length_bytes, List.take_length_add_append,
    List.take_length_add_append, h]

/-- What shares a front with a text and a little more begins with it, and goes on alike. -/
theorem Shares.exists_eq_append (h : Shares (byteLength front + n) (front ++ text) other) :
    ∃ rest, other = front ++ rest ∧ Shares n text rest := by
  obtain ⟨rest, rfl⟩ :=
    (h.prefix_iff (Nat.le_add_right _ _)).mp (List.prefix_append front text)
  refine ⟨rest, rfl, ?_⟩
  unfold Shares at h ⊢
  rw [bytes_append, bytes_append, ← length_bytes, List.take_length_add_append,
    List.take_length_add_append, List.append_cancel_left_eq] at h
  exact h

/-! ## What is asked of the text ahead -/

theorem byteLength_singleton_le {c : Char} (h : c.val ≤ 127) : byteLength [c] ≤ 1 :=
  Nat.le_of_eq (Char.utf8Size_eq_one_iff.mpr h)

theorem val_le_of_isDigit {c : Char} (h : c.isDigit = true) : c.val ≤ 127 := by
  have hhigh : decide (c.val ≤ '9'.val) = true := (Bool.and_eq_true_iff.mp h).2
  exact UInt32.le_trans (of_decide_eq_true hhigh) (by decide)

theorem val_le_of_isLower {c : Char} (h : c.isLower = true) : c.val ≤ 127 := by
  have hhigh : decide (c.val ≤ 'z'.val) = true := (Bool.and_eq_true_iff.mp h).2
  exact UInt32.le_trans (of_decide_eq_true hhigh) (by decide)

theorem head?_digit_iff {text : List Char} :
    text.head?.any Char.isDigit = true ↔ ∃ c, c.isDigit = true ∧ [c] <+: text := by
  cases text with
  | nil => simp
  | cons c text => simp [List.cons_prefix_cons]

theorem Shares.head?_digit (h : Shares n text other) (hn : 1 ≤ n) :
    text.head?.any Char.isDigit = other.head?.any Char.isDigit := by
  rw [Bool.eq_iff_iff, head?_digit_iff, head?_digit_iff]
  refine exists_congr fun c => and_congr_right fun hc => h.prefix_iff ?_
  exact Nat.le_trans (byteLength_singleton_le (val_le_of_isDigit hc)) hn

/-- Two bytes tell whether a number starts: a sign and a digit at most. -/
theorem startsAt_iff {text : List Char} :
    startsAt text = true ↔
      ∃ start, startsAt start = true ∧ byteLength start ≤ 2 ∧ start <+: text := by
  constructor
  · intro h
    obtain ⟨negative, run, number, rest, rfl, hrun, hsigned, _⟩ := Numeral.exists_of_startsAt h
    obtain ⟨c, more, rfl⟩ := List.exists_cons_of_ne_nil hrun.1
    have hdigit : c.isDigit = true := hrun.2 c (List.mem_cons_self ..)
    have hone := byteLength_singleton_le (val_le_of_isDigit hdigit)
    have hpre : [c] <+: c :: more ++ rest := ⟨more ++ rest, rfl⟩
    cases hsigned with
    | unsigned => exact ⟨[c], Numeral.startsAt_of_digit hdigit, Nat.le_succ_of_le hone, hpre⟩
    | plus =>
      exact ⟨['+', c], hdigit, Nat.add_le_add_left hone 1,
        List.cons_prefix_cons.mpr ⟨rfl, hpre⟩⟩
    | minus =>
      exact ⟨['-', c], hdigit, Nat.add_le_add_left hone 1,
        List.cons_prefix_cons.mpr ⟨rfl, hpre⟩⟩
  · intro h
    obtain ⟨start, hstart, _, rest, rfl⟩ := h
    obtain ⟨negative, run, number, more, rfl, hrun, hsigned, _⟩ :=
      Numeral.exists_of_startsAt hstart
    rw [List.append_assoc]
    exact hsigned.startsAt_append hrun (more ++ rest)

/-- A first character of one byte is the same in both texts. -/
theorem Shares.head_eq {c c' : Char} (h : Shares n (c :: text) (c' :: other)) (hn : 1 ≤ n)
    (hone : c'.val ≤ 127) : c' = c := by
  have hpre : [c'] <+: c :: text := by
    refine (h.prefix_iff ?_).mpr (List.cons_prefix_cons.mpr ⟨rfl, List.nil_prefix⟩)
    exact Nat.le_trans (byteLength_singleton_le hone) hn
  exact (List.cons_prefix_cons.mp hpre).1

theorem Shares.startsAt_eq (h : Shares n text other) (hn : 2 ≤ n) :
    startsAt text = startsAt other := by
  rw [Bool.eq_iff_iff, startsAt_iff, startsAt_iff]
  refine exists_congr fun start => and_congr_right fun _ => and_congr_right fun hle => ?_
  exact h.prefix_iff (Nat.le_trans hle hn)

theorem byteLength_code_le (kind : Kind) : byteLength kind.code ≤ 3 := by
  cases kind <;> decide

theorem Shares.code_prefix_iff (h : Shares n text other) (hn : 3 ≤ n) (kind : Kind) :
    kind.code <+: text ↔ kind.code <+: other :=
  h.prefix_iff (Nat.le_trans (byteLength_code_le kind) hn)

theorem Shares.longest (h : Shares n text other) (hn : 3 ≤ n) {kind : Kind}
    (hk : kind.Longest text) : kind.Longest other := by
  refine ⟨(h.code_prefix_iff hn kind).mp hk.starts, ?_⟩
  intro longer hpre
  exact hk.longest longer ((h.code_prefix_iff hn longer).mpr hpre)

theorem Shares.stops (h : Shares n text other) (hn : 2 ≤ n) {token : Token}
    (ht : token.Stops text) : token.Stops other := by
  have hdigit := h.head?_digit (Nat.le_of_succ_le hn)
  cases token with
  | separator => trivial
  | frame sprite length => exact hdigit.symm.trans ht
  | tag tag =>
    obtain ⟨kind, value⟩ := tag
    cases value with
    | none => exact (h.startsAt_eq hn).symm.trans ht
    | some v => exact hdigit.symm.trans ht

/-! ## Reading is local -/

namespace Draft

variable {d last : Draft} {fault : Fault}

/-- What is taken off the front depends on two bytes of the rest. -/
theorem Takes.congr (h : Takes rest d front last) (hs : Shares 2 rest rest') :
    Takes rest' d front last := by
  induction h with
  | nil => exact .nil
  | @cons d next last token c first front spelled stops added _ ih =>
    exact .cons spelled ((hs.append front).stops (Nat.le_add_left 2 _) stops) added ih

/-- The fault of a text that is taken up to where reading halts. -/
theorem decodeChars_eq_error {skipped : List Char} (htakes : Takes rest empty front last)
    (hhalts : last.Halts rest fault) (hrest : rest = skipped ++ fault.rest) :
    decodeChars (front ++ rest) = .error ⟨fault.reason, byteLength (front ++ skipped)⟩ := by
  have hread : empty.read (front ++ rest) = .error fault := by
    rw [htakes.read_eq, hhalts.read_eq]
  have hplace : byteLength (front ++ rest) - byteLength fault.rest =
      byteLength (front ++ skipped) := by
    rw [hrest, ← List.append_assoc, byteLength_append, Nat.add_sub_cancel]
  unfold decodeChars
  rw [hread, ← hplace]
  rfl

/-- Three bytes behind a fault settle it, unless it is a number or the end of the text. -/
theorem Halts.congr (h : d.Halts text fault)
    (hreason : fault.reason = .invalidTag ∨ fault.reason = .missingParameter ∨
      fault.reason = .missingLength) :
    ∃ skipped, text = skipped ++ fault.rest ∧
      ∀ other, Shares (byteLength skipped + 3) text other →
        ∃ rest, other = skipped ++ rest ∧ d.Halts other ⟨fault.reason, rest⟩ := by
  cases h with
  | dangling => simp at hreason
  | empty => simp at hreason
  | value => simp at hreason
  | length => simp at hreason
  | @stray c text joins letterless codeless =>
    refine ⟨[], rfl, ?_⟩
    intro other hs
    refine ⟨other, rfl, ?_⟩
    cases other with
    | nil => exact absurd rfl (hs.ne_nil (Nat.succ_pos _) (List.cons_ne_nil c text))
    | cons c' other =>
      have hsame : c'.val ≤ 127 → c' = c := hs.head_eq (Nat.le_add_left 1 _)
      refine .stray ?_ ?_ ?_
      · intro hsep
        exact joins ((hsame (by rw [hsep]; decide)).symm.trans hsep)
      · cases hletter : Sprite.ofLetter? c' with
        | none => rfl
        | some sprite =>
          have hone := (Sprite.of_ofLetter?_eq_some hletter).2.1
          rw [hsame (UInt32.le_trans hone (by decide)), letterless] at hletter
          cases hletter
      · intro hlower kind hpre
        have hone : c'.val ≤ 127 := val_le_of_isLower hlower
        rw [← hs.code_prefix_iff (Nat.le_add_left 3 _)] at hpre
        rw [hsame hone] at hlower
        exact codeless hlower kind hpre
  | @misfit kind after longest refused =>
    refine ⟨kind.code, rfl, ?_⟩
    intro other hs
    have hlongest := hs.longest (Nat.le_add_left 3 _) longest
    obtain ⟨rest, rfl, hrest⟩ := hs.exists_eq_append
    have hfits : fits kind rest = false := by
      unfold fits at refused ⊢
      rw [← hrest.startsAt_eq (by decide)]
      exact refused
    exact ⟨rest, rfl, .misfit hlongest hfits⟩
  | @unnumbered c sprite text letter digitless =>
    refine ⟨[c], rfl, ?_⟩
    intro other hs
    have hs' : Shares (byteLength [c] + 3) ([c] ++ text) other := hs
    obtain ⟨rest, rfl, hrest⟩ := hs'.exists_eq_append
    rw [hrest.head?_digit (by decide)] at digitless
    exact ⟨rest, rfl, .unnumbered letter digitless⟩

/-- However a number that is out of range goes on, it is out of range. -/
theorem Halts.longer (h : d.Halts text fault) (hreason : fault.reason = .numberOverflow) :
    ∃ skipped negative run number later, text = skipped ++ fault.rest ∧ skipped ≠ [] ∧
      fault.rest = number ++ later ∧ IsNumeral run ∧ Signed negative run number ∧
      later.head?.any Char.isDigit = false ∧
      ∀ rest, d.Halts (skipped ++ (number ++ rest)) ⟨.numberOverflow, number ++ rest⟩ := by
  cases h with
  | dangling => cases hreason
  | empty => cases hreason
  | stray => cases hreason
  | unnumbered => cases hreason
  | @misfit kind =>
    simp only at hreason
    split at hreason
    next => cases hreason
    next => cases hreason
  | @value kind negative run number rest taken unambiguous numeral signed stops exceeds =>
    refine ⟨kind.code, negative, run, number, rest, rfl, ?_, rfl, numeral, signed, stops, ?_⟩
    · exact List.ne_nil_of_length_pos (code_length_pos kind)
    · intro rest
      obtain ⟨digits, rest, rfl, hnumeral, hsigned, hstops⟩ :=
        signed.exists_longer numeral rest
      rw [← List.append_assoc number]
      refine .value taken ?_ hnumeral hsigned hstops ?_
      · intro haxis
        have hdigit := unambiguous haxis
        obtain ⟨c, more, rfl⟩ := List.exists_cons_of_ne_nil (signed.ne_nil numeral)
        exact hdigit
      · exact Numeral.value?_eq_none_of_le exceeds (Numeral.le_ofDigitChars_append run digits)
  | @length c sprite run rest letter numeral stops exceeds =>
    refine ⟨[c], false, run, run, rest, rfl, List.cons_ne_nil _ _, rfl, numeral,
      .unsigned run, stops, ?_⟩
    intro rest
    obtain ⟨digits, rest, rfl, hnumeral, _, hstops⟩ :=
      (Signed.unsigned run).exists_longer numeral rest
    have hle := Numeral.le_ofDigitChars_append run digits
    have hover := Nat.lt_of_lt_of_le exceeds (Nat.add_le_add_left hle _)
    show d.Halts (c :: (run ++ (digits ++ rest))) ⟨.numberOverflow, run ++ (digits ++ rest)⟩
    rw [← List.append_assoc]
    exact .length letter hnumeral hstops hover

theorem Halts.rest_eq_nil (h : d.Halts text fault)
    (hreason : fault.reason = .danglingTags ∨ fault.reason = .emptyScript) :
    fault.rest = [] := by
  cases h with
  | dangling => rfl
  | empty => rfl
  | misfit =>
    simp only at hreason
    split at hreason <;> simp at hreason
  | stray => simp at hreason
  | value => simp at hreason
  | unnumbered => simp at hreason
  | length => simp at hreason

/-- A text with the same three bytes behind the fault has the same fault. -/
theorem Takes.decodeChars_congr {skipped : List Char} (htakes : Takes rest empty front last)
    (hhalts : last.Halts rest fault) (hrest : rest = skipped ++ fault.rest)
    (hreason : fault.reason = .invalidTag ∨ fault.reason = .missingParameter ∨
      fault.reason = .missingLength)
    (hs : Shares (byteLength (front ++ skipped) + 3) (front ++ rest) other) :
    decodeChars other = .error ⟨fault.reason, byteLength (front ++ skipped)⟩ := by
  rw [byteLength_append, Nat.add_assoc] at hs
  obtain ⟨text, rfl, hrest'⟩ := hs.exists_eq_append
  obtain ⟨skipped', hskipped, hcongr⟩ := hhalts.congr hreason
  obtain rfl : skipped = skipped' := List.append_cancel_right (hrest.symm.trans hskipped)
  obtain ⟨rest', htext, hhalts'⟩ := hcongr text hrest'
  have htakes' := htakes.congr (hrest'.mono (Nat.le_add_left_of_le (by decide : 2 ≤ 3)))
  have hfault := decodeChars_eq_error htakes' hhalts' htext
  exact hfault

/-- A text with the same number at the fault has the same fault. -/
theorem Takes.decodeChars_overflow {skipped : List Char} (htakes : Takes rest empty front last)
    (hhalts : last.Halts rest fault) (hrest : rest = skipped ++ fault.rest)
    (hreason : fault.reason = .numberOverflow) :
    ∃ negative run number later, fault.rest = number ++ later ∧ IsNumeral run ∧
      Signed negative run number ∧ later.head?.any Char.isDigit = false ∧
      ∀ other,
        Shares (byteLength (front ++ skipped) + byteLength number) (front ++ rest) other →
        decodeChars other = .error ⟨.numberOverflow, byteLength (front ++ skipped)⟩ := by
  obtain ⟨skipped', negative, run, number, later, hskipped, hne, hnumber, hrun, hsigned,
    hstops, hlonger⟩ := hhalts.longer hreason
  obtain rfl : skipped = skipped' := List.append_cancel_right (hrest.symm.trans hskipped)
  refine ⟨negative, run, number, later, hnumber, hrun, hsigned, hstops, ?_⟩
  intro other hs
  rw [byteLength_append, Nat.add_assoc] at hs
  obtain ⟨text, rfl, htext⟩ := hs.exists_eq_append
  -- a code or a letter, and a digit
  have htwo : 2 ≤ byteLength skipped + byteLength number :=
    Nat.add_le_add (byteLength_pos hne) (byteLength_pos (hsigned.ne_nil hrun))
  have htakes' := htakes.congr (htext.mono htwo)
  have hnumbered : rest = (skipped ++ number) ++ later := by
    rw [hrest, hnumber, List.append_assoc]
  rw [hnumbered, ← byteLength_append, ← Nat.add_zero (byteLength _)] at htext
  obtain ⟨rest', rfl, _⟩ := htext.exists_eq_append
  rw [List.append_assoc] at htakes' ⊢
  exact decodeChars_eq_error htakes' (hlonger rest') rfl

end Draft

/-! ## Errors -/

/-- The first `n` bytes of the texts are the same. -/
def SharesBytes (n : Nat) (text other : String) : Prop :=
  text.toUTF8.extract 0 n = other.toUTF8.extract 0 n

theorem SharesBytes.shares {text other : String} (h : SharesBytes n text other) :
    Shares n text.toList other.toList := by
  have hdata := congrArg (fun b : ByteArray => b.data.toList) h
  simp only [ByteArray.data_extract, Array.toList_extract, List.extract_eq_take_drop] at hdata
  rw [toList_toUTF8, toList_toUTF8] at hdata
  exact hdata

/-- A number as it may stand in a text, of whatever value: digits, after at most one sign. -/
def IsNumber (text : String) : Prop :=
  ∃ negative run, IsNumeral run ∧ Signed negative run text.toList

/-- A text that `decode` refuses is good up to the offset of the error: with a completion
behind it, the part before the offset is accepted. And little behind the offset counts.
Where it is no number that is at fault, nor the end of the text, every text with the same
bytes up to three behind the offset has the same error; where it is a number, every text
with the same bytes up to the end of its digits. Tags without a frame and a text without
frames are faults at the end of the text. -/
theorem decode_error_local {text : String} {e : DecodeError} (h : decode text = .error e) :
    e.offset ≤ text.utf8ByteSize ∧
    ∃ front rest : String, text = front ++ rest ∧ front.utf8ByteSize = e.offset ∧
      (∃ s, decode (front ++ String.ofList e.reason.completion) = .ok s) ∧
      (e.reason = .danglingTags ∨ e.reason = .emptyScript → e.offset = text.utf8ByteSize) ∧
      (e.reason = .invalidTag ∨ e.reason = .missingParameter ∨ e.reason = .missingLength →
        ∀ other, SharesBytes (e.offset + 3) text other → decode other = .error e) ∧
      (e.reason = .numberOverflow →
        ∃ number later, rest = number ++ later ∧ IsNumber number ∧
          later.toList.head?.any Char.isDigit = false ∧
          ∀ other, SharesBytes (e.offset + number.utf8ByteSize) text other →
            decode other = .error e) := by
  cases hread : Draft.empty.read text.toList with
  | ok s =>
    rw [decode, decodeChars, hread] at h
    cases h
  | error fault =>
    obtain ⟨front, rest, last, htext, htakes, hhalts⟩ := Draft.read_eq_error_iff.mp hread
    have htime : last.InTime := htakes.inTime (Nat.zero_le _)
    obtain ⟨skipped, s, hrest, hcompleted⟩ := hhalts.exists_completion htime
    rw [decode, htext, Draft.decodeChars_eq_error htakes hhalts hrest, Except.error.injEq] at h
    subst h
    have hwhole : text.toList = (front ++ skipped) ++ fault.rest := by
      rw [htext, hrest, List.append_assoc]
    have hsize : text.utf8ByteSize =
        byteLength (front ++ skipped) + byteLength fault.rest := by
      rw [utf8ByteSize_eq, hwhole, byteLength_append]
    refine ⟨?_, String.ofList (front ++ skipped), String.ofList fault.rest, ?_, ?_, ?_, ?_,
      ?_, ?_⟩
    · rw [hsize]
      exact Nat.le_add_right _ _
    · rw [← String.ofList_append, ← hwhole, String.ofList_toList]
    · rw [utf8ByteSize_eq, String.toList_ofList]
    · refine ⟨s, ?_⟩
      rw [decode, decodeChars, ← String.ofList_append, String.toList_ofList, List.append_assoc,
        htakes.read_eq_ok hcompleted]
      rfl
    · intro hreason
      rw [hsize, hhalts.rest_eq_nil hreason]
      rfl
    · intro hreason other hs
      have hshares := hs.shares
      rw [htext] at hshares
      exact htakes.decodeChars_congr hhalts hrest hreason hshares
    · intro hreason
      obtain ⟨negative, run, number, later, hnumber, hrun, hsigned, hstops, hcongr⟩ :=
        htakes.decodeChars_overflow hhalts hrest hreason
      refine ⟨String.ofList number, String.ofList later, ?_, ⟨negative, run, hrun, ?_⟩, ?_, ?_⟩
      · rw [hnumber, String.ofList_append]
      · rw [String.toList_ofList]
        exact hsigned
      · rw [String.toList_ofList]
        exact hstops
      · intro other hs
        have hshares := hs.shares
        rw [htext, utf8ByteSize_eq, String.toList_ofList] at hshares
        have hoverflow : fault.reason = .numberOverflow := hreason
        rw [hoverflow]
        exact hcongr other.toList hshares

/-- A number after the tag of additive blending is at fault. The first five bytes of the
two texts are the same and end within a character. -/
theorem decode_numbered_additive :
    decode "br7☃" = .error ⟨.invalidTag, 2⟩ ∧ SharesBytes 5 "br7☃" "br7☄A1" ∧
      decode "br7☄A1" = .error ⟨.invalidTag, 2⟩ := by
  have hfault : decode "br7☃" = .error ⟨.invalidTag, 2⟩ := by
    show decodeChars ['b', 'r', '7', '☃'] = _
    rw [decodeChars, Draft.read_cons]
    rfl
  have hshares : SharesBytes 5 "br7☃" "br7☄A1" := by
    unfold SharesBytes
    decide
  obtain ⟨_, front, rest, _, _, _, _, hlocal, _⟩ := decode_error_local hfault
  exact ⟨hfault, hshares, hlocal (.inl rfl) _ hshares⟩

end Flipbook.Text
