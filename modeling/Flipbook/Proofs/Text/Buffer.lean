import Flipbook.Proofs.Text.Canonical
import Flipbook.Proofs.Text.Lookahead
import Flipbook.Text.Buffer

/-!
# Writing into a buffer

Main statement: `encodeInto_exact`. A script is written into the front of a buffer whole
or not at all: what its text needs is told beforehand, without writing, and is exactly
what is then written.

Three counts have to agree. The length is added up from digit counts, signs and codes; it
is the number of characters of the text, part by part (`Script.length_chars`). Each
character of a text that tokens spell is stored in one byte (`Spelling.isAscii`), and the
canonical text of a valid script is one. And where a buffer has room for all pieces, no
piece is refused, and their characters are written in a row (`Filling.writeAll_eq`).
-/

namespace Flipbook

namespace Text

/-! ## Digits -/

namespace Numeral

theorem length_digits (n : Nat) : (digits n).length = digitCount n := by
  fun_induction digitCount n with
  | case1 n hlt =>
    rw [digits, Nat.toDigits_of_lt_base hlt]
    rfl
  | case2 n hle ih =>
    rw [digits, Nat.toDigits_eq_if (by decide), if_neg hle, List.length_append,
      List.length_singleton]
    exact congrArg (· + 1) ih

theorem length_signedDigits (v : Int32) : (signedDigits v).length = signedLength v := by
  unfold signedDigits signedLength
  split
  · rw [List.length_cons, length_digits, Nat.add_comm]
  · rw [length_digits, Nat.zero_add]

end Numeral

/-! ## Characters of one byte -/

/-- Each character of the text is stored in one byte. -/
def IsAscii (text : List Char) : Prop :=
  ∀ c ∈ text, c.val ≤ 127

theorem IsAscii.append {front rest : List Char} (hfront : IsAscii front)
    (hrest : IsAscii rest) : IsAscii (front ++ rest) := by
  intro c hc
  rcases List.mem_append.mp hc with hin | hin
  · exact hfront c hin
  · exact hrest c hin

theorem IsAscii.cons {c : Char} {rest : List Char} (hc : c.val ≤ 127) (hrest : IsAscii rest) :
    IsAscii (c :: rest) :=
  List.forall_mem_cons.mpr ⟨hc, hrest⟩

/-- The byte of a character is its code point. -/
theorem IsAscii.bytes_eq {text : List Char} (h : IsAscii text) :
    bytes text = text.map fun c => UInt8.ofNat c.toNat := by
  induction text with
  | nil => rfl
  | cons c text ih =>
    obtain ⟨hc, htext⟩ := List.forall_mem_cons.mp h
    rw [bytes_cons, List.map_cons, ih htext]
    have hone : String.utf8EncodeChar c = [UInt8.ofNat c.toNat] := if_pos hc
    rw [hone, List.singleton_append]

theorem IsAscii.byteLength_eq {text : List Char} (h : IsAscii text) :
    byteLength text = text.length := by
  rw [← length_bytes, h.bytes_eq, List.length_map]

theorem isAscii_code (kind : Tag.Kind) : IsAscii kind.code := by
  have hall : (kind.code.all fun c => c.val ≤ 127) = true := by
    cases kind <;> rfl
  intro c hmem
  exact of_decide_eq_true (List.all_eq_true.mp hall c hmem)

theorem IsNumeral.isAscii {run : List Char} (h : IsNumeral run) : IsAscii run :=
  fun c hc => val_le_of_isDigit (h.2 c hc)

theorem Token.Spelling.isAscii {token : Token} {first : List Char} (h : token.Spelling first) :
    IsAscii first := by
  cases h with
  | separator => exact .cons (by decide) nofun
  | frame letter numeral =>
    obtain ⟨_, hle, _⟩ := Sprite.of_ofLetter?_eq_some letter
    exact .cons (UInt32.le_trans hle (by decide)) numeral.isAscii
  | bare => exact isAscii_code _
  | unsigned _ numeral => exact (isAscii_code _).append numeral.isAscii
  | plus _ _ numeral => exact (isAscii_code _).append (.cons (by decide) numeral.isAscii)
  | minus _ _ numeral => exact (isAscii_code _).append (.cons (by decide) numeral.isAscii)

/-- What tokens spell is stored in as many bytes as it has characters. -/
theorem Spelling.isAscii {tokens : List Token} {text : List Char} (h : Spelling tokens text) :
    IsAscii text := by
  induction h with
  | nil => nofun
  | cons head _ ih => exact head.isAscii.append ih

end Text

open Text (Filling)

/-! ## The length is told beforehand -/

theorem Tag.length_chars (tag : Tag) : tag.chars.length = tag.encodedLength := by
  obtain ⟨kind, value⟩ := tag
  unfold Tag.chars Tag.encodedLength
  rw [List.length_append]
  cases value with
  | none => rfl
  | some v => exact congrArg (kind.code.length + ·) (Text.Numeral.length_signedDigits v)

theorem length_tags (tags : List Tag) :
    (tags.flatMap Tag.chars).length = tags.foldr (fun tag n => tag.encodedLength + n) 0 := by
  induction tags with
  | nil => rfl
  | cons tag tags ih =>
    rw [List.flatMap_cons, List.length_append, tag.length_chars, ih, List.foldr_cons]

theorem Frame.length_chars (f : Frame) : f.chars.length = f.encodedLength := by
  unfold Frame.chars Frame.encodedLength
  rw [List.length_append, length_tags, List.length_cons, Text.Numeral.length_digits]
  omega

/-- The text of some frames has the characters of each, and one separator fewer than
there are frames. -/
theorem length_frames (frames : List Frame) :
    ([Text.separator].intercalate (frames.map Frame.chars)).length =
      frames.foldr (fun f n => f.encodedLength + n) 0 + (frames.length - 1) := by
  induction frames with
  | nil => rfl
  | cons f rest ih =>
    rw [List.map_cons, List.foldr_cons, List.length_cons]
    cases rest with
    | nil =>
      rw [List.map_nil, List.intercalate_singleton, f.length_chars]
      rfl
    | cons g rest =>
      rw [List.map_cons, List.length_cons] at ih
      rw [List.map_cons, List.intercalate_cons_cons, List.length_append,
        List.length_append, ih, f.length_chars, List.length_singleton, List.length_cons]
      omega

theorem Script.length_chars (s : Script) : s.chars.length = s.encodedLength :=
  length_frames s.frames

/-! ## Filling a buffer -/

namespace Text.Filling

/-- The buffer after some more bytes. -/
def after (b : Filling) (more : List UInt8) : Filling :=
  ⟨more.reverse ++ b.written, b.free.drop more.length⟩

theorem write?_eq (b : Filling) {piece : List Char} (h : piece.length ≤ b.free.length) :
    b.write? piece = some (b.after (piece.map fun c => UInt8.ofNat c.toNat)) := by
  rw [write?, if_pos h, after, List.length_map]

/-- Where there is room for all pieces, all their characters are written in a row. -/
theorem writeAll_eq (b : Filling) {pieces : List (List Char)}
    (h : pieces.flatten.length ≤ b.free.length) :
    b.writeAll pieces = .ok (b.after (pieces.flatten.map fun c => UInt8.ofNat c.toNat)) := by
  induction pieces generalizing b with
  | nil => rfl
  | cons piece rest ih =>
    rw [List.flatten_cons, List.length_append] at h
    have hpiece : piece.length ≤ b.free.length := Nat.le_trans (Nat.le_add_right _ _) h
    have hrest : rest.flatten.length ≤
        (b.after (piece.map fun c => UInt8.ofNat c.toNat)).free.length := by
      simp only [after, List.length_drop, List.length_map]
      omega
    simp only [writeAll, write?_eq b hpiece, ih _ hrest]
    simp [after]

end Text.Filling

theorem Text.Numeral.flatten_pieces (v : Int32) : (pieces v).flatten = signedDigits v := by
  unfold pieces signedDigits
  split <;> simp

theorem Tag.flatten_pieces (tag : Tag) : tag.pieces.flatten = tag.chars := by
  obtain ⟨kind, value⟩ := tag
  unfold Tag.pieces Tag.chars
  cases value with
  | none => rfl
  | some v => exact congrArg (kind.code ++ ·) (Text.Numeral.flatten_pieces v)

theorem Frame.flatten_pieces (f : Frame) : f.pieces.flatten = f.chars := by
  have htags : (f.tags.flatMap Tag.pieces).flatten = f.tags.flatMap Tag.chars := by
    rw [List.flatMap_def, List.flatMap_def, List.flatten_flatten, List.map_map]
    exact congrArg List.flatten (List.map_congr_left fun tag _ => tag.flatten_pieces)
  unfold Frame.pieces Frame.chars
  rw [List.flatten_append, htags]
  simp

/-- Rows with a separator row between them, one behind the other, are the joined
texts of the rows. -/
theorem flatten_intersperse (separator : List (List Char)) (rows : List (List (List Char))) :
    (rows.intersperse separator).flatten.flatten =
      separator.flatten.intercalate (rows.map List.flatten) := by
  induction rows with
  | nil => rfl
  | cons row rest ih =>
    cases rest with
    | nil =>
      rw [List.map_singleton, List.intercalate_singleton, List.intersperse_singleton,
        List.flatten_singleton]
    | cons other rest =>
      rw [List.map_cons] at ih
      rw [List.map_cons, List.map_cons, List.intersperse_cons_cons, List.intercalate_cons_cons,
        List.flatten_cons, List.flatten_cons, List.flatten_append, List.flatten_append, ih,
        List.append_assoc]

/-- The pieces in which a script is written make up its text. -/
theorem Script.flatten_pieces (s : Script) : s.pieces.flatten = s.chars := by
  unfold Script.pieces Script.chars
  rw [flatten_intersperse, List.map_map]
  exact congrArg _ (List.map_congr_left fun f _ => f.flatten_pieces)

/-! ## The canonical text in a buffer -/

namespace Script

variable {s : Script}

theorem Valid.isAscii (h : s.Valid) : Text.IsAscii s.chars := by
  obtain ⟨_, hspelling, _⟩ := h.denotes
  exact hspelling.isAscii

theorem Valid.length_bytes (h : s.Valid) : (Text.bytes s.chars).length = s.encodedLength := by
  rw [Text.length_bytes, h.isAscii.byteLength_eq, s.length_chars]

/-- A script is written whole if there is room, and else not at all. -/
theorem Valid.encodeInto_eq (h : s.Valid) (buffer : List UInt8) :
    s.encodeInto buffer =
      if buffer.length < s.encodedLength then (.error ⟨s.encodedLength, buffer.length⟩, buffer)
      else (.ok s.encodedLength, Text.bytes s.chars ++ buffer.drop s.encodedLength) := by
  unfold encodeInto
  simp only
  split
  · rfl
  · next hroom =>
    have hfits : s.chars.length ≤ buffer.length := by
      rw [s.length_chars]
      exact Nat.le_of_not_lt hroom
    rw [← s.flatten_pieces] at hfits
    rw [Filling.writeAll_eq _ hfits, s.flatten_pieces, ← h.isAscii.bytes_eq]
    simp [Filling.after, Filling.bytes, h.length_bytes]

/-- The text of a script is the texts of its frames, joined by separators. -/
theorem text_eq_intercalate (s : Script) :
    s.text = String.intercalate "-" (s.frames.map Frame.text) := by
  have hframes : (s.frames.map Frame.text).map String.toList = s.frames.map Frame.chars := by
    rw [List.map_map]
    exact List.map_congr_left fun f _ => String.toList_ofList
  refine String.toList_inj.mp ?_
  rw [text, String.toList_ofList, String.toList_intercalate, hframes]
  rfl

/-- The canonical text of a script is its frames' texts, joined by separators, and takes
as many bytes as its encoded length says. A shorter buffer is refused and stays as it is.
A buffer that is long enough then begins with the text, the number of whose bytes is
answered, and keeps all bytes behind it. -/
theorem encodeInto_exact (hs : s.Reachable) (buffer : List UInt8) :
    s.text = String.intercalate "-" (s.frames.map Frame.text) ∧
      s.text.utf8ByteSize = s.encodedLength ∧
      (buffer.length < s.encodedLength →
        s.encodeInto buffer = (.error ⟨s.encodedLength, buffer.length⟩, buffer)) ∧
      (s.encodedLength ≤ buffer.length →
        s.encodeInto buffer =
          (.ok s.encodedLength,
            s.text.toUTF8.data.toList ++ buffer.drop s.encodedLength)) := by
  have hchars : s.text.toList = s.chars := String.toList_ofList
  have hwritten := hs.valid.encodeInto_eq buffer
  refine ⟨s.text_eq_intercalate, ?_, ?_, ?_⟩
  · rw [Text.utf8ByteSize_eq, hchars, ← Text.length_bytes, hs.valid.length_bytes]
  · intro hshort
    rw [hwritten, if_pos hshort]
  · intro hroom
    rw [hwritten, if_neg (Nat.not_lt.mpr hroom), Text.toList_toUTF8, hchars]

/-- A script of ten bytes is not written into nine, and leaves the last two of twelve. -/
theorem encodeInto_exact_of_twelve :
    Reachable ⟨[⟨0, 0, [⟨.blendStart, some (-10)⟩]⟩, ⟨1, 5, []⟩], [0, 5]⟩ ∧
      encodeInto ⟨[⟨0, 0, [⟨.blendStart, some (-10)⟩]⟩, ⟨1, 5, []⟩], [0, 5]⟩
        (List.replicate 9 46) =
        (.error ⟨10, 9⟩, List.replicate 9 46) ∧
      encodeInto ⟨[⟨0, 0, [⟨.blendStart, some (-10)⟩]⟩, ⟨1, 5, []⟩], [0, 5]⟩
        (List.replicate 12 46) =
        (.ok 10, "bs-10A0-B5".toUTF8.data.toList ++ [46, 46]) := by
  have hpush : Frame.pushTag ⟨0, 0, []⟩ "bs" (some (-10)) =
      .ok ⟨0, 0, [⟨.blendStart, some (-10)⟩]⟩ := rfl
  have hbuilt : ∀ f ∈ [Frame.mk 0 0 [⟨.blendStart, some (-10)⟩], Frame.mk 1 5 []], f.Built :=
    List.forall_mem_cons.mpr ⟨(Frame.built_of_le (by decide) 0).pushTag hpush,
      List.forall_mem_singleton.mpr (Frame.built_of_le (by decide) 5)⟩
  have hs : Reachable ⟨[⟨0, 0, [⟨.blendStart, some (-10)⟩]⟩, ⟨1, 5, []⟩], [0, 5]⟩ :=
    .made hbuilt rfl
  have hlength : encodedLength ⟨[⟨0, 0, [⟨.blendStart, some (-10)⟩]⟩, ⟨1, 5, []⟩], [0, 5]⟩ =
      10 := by
    rw [← length_chars]
    decide
  have htext : text ⟨[⟨0, 0, [⟨.blendStart, some (-10)⟩]⟩, ⟨1, 5, []⟩], [0, 5]⟩ =
      "bs-10A0-B5" := by
    decide
  refine ⟨hs, ?_, ?_⟩
  · have hshort := (encodeInto_exact hs (List.replicate 9 46)).2.2.1
    rw [hlength] at hshort
    exact hshort (by decide)
  · have hroom := (encodeInto_exact hs (List.replicate 12 46)).2.2.2
    rw [hlength, htext] at hroom
    exact hroom (by decide)

end Script

end Flipbook
