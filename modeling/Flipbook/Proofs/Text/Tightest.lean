import Flipbook.Proofs.Text.Buffer

/-!
# The tightest text of a script

Main statement: `encodedLength_le_of_decode`. Of all texts of a script the shortest is the
canonical one without the separators between its frames, and it is the only one that short.
So writing anew what was read takes at most one byte more for each place between two frames.

Every token has a shortest spelling: a separator none at all, a tag its code and the
fewest digits, a frame its letter and the fewest digits. Whatever spells the token is
that, or longer (`Token.Spelling.shortens`), and the same holds for a row of tokens
(`Spelling.shortens`). The shortest spellings of a row, put one behind the other, are the
texts of its frames (`tight_eq_frames`).
-/

namespace Flipbook

namespace Text

open Numeral (Written)

/-- The text is the tight one, or longer than it. -/
def Shortens (tight text : List Char) : Prop :=
  text = tight ∨ tight.length < text.length

namespace Shortens

variable {tight text tight' text' : List Char}

theorem refl (text : List Char) : Shortens text text :=
  .inl rfl

theorem append (h : Shortens tight text) (h' : Shortens tight' text') :
    Shortens (tight ++ tight') (text ++ text') := by
  rcases h with rfl | hlt
  · rcases h' with rfl | hlt'
    · exact .refl _
    · right
      rw [List.length_append, List.length_append]
      exact Nat.add_lt_add_left hlt' _
  · right
    rw [List.length_append, List.length_append]
    rcases h' with rfl | hlt'
    · exact Nat.add_lt_add_right hlt _
    · exact Nat.add_lt_add hlt hlt'

theorem length_le (h : Shortens tight text) : tight.length ≤ text.length := by
  rcases h with rfl | hlt
  · exact Nat.le_refl _
  · exact Nat.le_of_lt hlt

/-- No other text is as short as the tight one. -/
theorem length_eq_iff (h : Shortens tight text) :
    tight.length = text.length ↔ text = tight := by
  refine ⟨?_, fun heq => by rw [heq]⟩
  intro hlength
  rcases h with heq | hlt
  · exact heq
  · exact absurd hlength (Nat.ne_of_lt hlt)

end Shortens

/-! ## Numbers -/

/-- A digit is the digit of its value. -/
theorem digits_of_isDigit {c : Char} (h : c.isDigit = true) :
    Numeral.digits (c.toNat - '0'.toNat) = [c] ∧ c.toNat - '0'.toNat < 10 := by
  obtain ⟨hlow, hhigh⟩ := Char.isDigit_iff_toNat.mp h
  have hzero : '0'.toNat = 48 := rfl
  have hnine : '9'.toNat = 57 := rfl
  have hlt : c.toNat - '0'.toNat < 10 := by omega
  refine ⟨?_, hlt⟩
  rw [Numeral.digits, Nat.toDigits_of_lt_base hlt, List.cons.injEq, ← Char.toNat_inj,
    Nat.toNat_digitChar_of_lt_ten hlt]
  exact ⟨by omega, rfl⟩

/-- A numeral has the digits of its value, or zeros in front of them. -/
theorem IsNumeral.shortens {run : List Char} (h : IsNumeral run) :
    Shortens (Numeral.digits (Nat.ofDigitChars 10 run 0)) run := by
  induction run using List.reverseRecOn with
  | nil => exact absurd rfl h.1
  | append_singleton run c ih =>
    obtain ⟨hdigits, hlt⟩ := digits_of_isDigit (h.2 c List.mem_concat_self)
    rw [Nat.ofDigitChars_append, Nat.ofDigitChars_cons, Nat.ofDigitChars_nil]
    by_cases hrun : run = []
    · subst hrun
      left
      rw [Nat.ofDigitChars_nil, Nat.mul_zero, Nat.zero_add, hdigits, List.nil_append]
    · have hnumeral : IsNumeral run := ⟨hrun, fun c hc => h.2 c (List.mem_append_left _ hc)⟩
      rcases Nat.eq_zero_or_pos (Nat.ofDigitChars 10 run 0) with hzero | hpos
      · -- the last digit is all there is to the value
        right
        rw [hzero, Nat.mul_zero, Nat.zero_add, hdigits, List.length_append]
        exact Nat.lt_add_of_pos_left (List.length_pos_iff.mpr hrun)
      · have hsplit : Numeral.digits (10 * Nat.ofDigitChars 10 run 0 + (c.toNat - '0'.toNat)) =
            Numeral.digits (Nat.ofDigitChars 10 run 0) ++ [c] := by
          rw [← hdigits]
          exact (Nat.toDigits_append_toDigits (by decide) hpos hlt).symm
        rw [hsplit]
        exact (ih hnumeral).append (.refl [c])

/-- A plus sign, and a minus sign in front of zero, are never needed. -/
theorem Numeral.Written.shortens {v : Int32} {number : List Char} (h : Written v number) :
    Shortens (Numeral.signedDigits v) number := by
  have hplain : ∀ {n : Nat}, v.toInt = n → Numeral.signedDigits v = Numeral.digits n := by
    intro n hn
    rw [Numeral.signedDigits, hn, if_neg (Int.not_lt.mpr (Int.natCast_nonneg n)),
      Int.natAbs_natCast]
  cases h with
  | unsigned numeral same =>
    rw [hplain same]
    exact numeral.shortens
  | @plus run numeral same =>
    right
    rw [hplain same, List.length_cons]
    exact Nat.lt_succ_of_le numeral.shortens.length_le
  | @minus run numeral same =>
    rcases Nat.eq_zero_or_pos (Nat.ofDigitChars 10 run 0) with hzero | hpos
    · right
      have hdigits := numeral.shortens.length_le
      rw [hzero] at same hdigits
      rw [hplain same, List.length_cons]
      exact Nat.lt_succ_of_le hdigits
    · have hneg : v.toInt < 0 := by omega
      rw [Numeral.signedDigits, if_pos hneg, same, Int.natAbs_neg, Int.natAbs_natCast]
      exact (Shortens.refl ['-']).append numeral.shortens

/-! ## Tokens -/

/-- The shortest spelling of what a token means. A separator means nothing. -/
def Token.tight : Token → List Char
  | .separator => []
  | .tag t => t.chars
  | .frame sprite length => Sprite.letter sprite :: Numeral.digits length

theorem letter_of_ofLetter? {c : Char} {sprite : Nat} (h : Sprite.ofLetter? c = some sprite) :
    Sprite.letter sprite = c := by
  obtain ⟨hlow, _, rfl⟩ := Sprite.of_ofLetter?_eq_some h
  have hle : 'A'.toNat ≤ c.toNat := UInt32.le_iff_toNat_le.mp hlow
  rw [Sprite.letter, Nat.add_sub_of_le hle, Char.ofNat_toNat]

theorem Token.Spelling.shortens {token : Token} {first : List Char}
    (h : token.Spelling first) : Shortens token.tight first := by
  cases token with
  | separator =>
    cases h
    exact .inr Nat.one_pos
  | tag tag =>
    obtain ⟨kind, value⟩ := tag
    rw [spelling_tag_iff] at h
    cases value with
    | none =>
      obtain ⟨_, rfl⟩ := h
      exact .inl (List.append_nil _).symm
    | some v =>
      obtain ⟨_, number, rfl, hwritten, _⟩ := h
      exact (Shortens.refl kind.code).append hwritten.shortens
  | frame sprite length =>
    obtain ⟨c, digits, rfl, hletter, hnumeral, rfl⟩ := spelling_frame_iff.mp h
    rw [Token.tight, letter_of_ofLetter? hletter]
    exact (Shortens.refl [c]).append hnumeral.shortens

/-- What spells a row of tokens is the shortest spellings of its tokens, or longer. -/
theorem Spelling.shortens {tokens : List Token} {text : List Char} (h : Spelling tokens text) :
    Shortens (tokens.flatMap Token.tight) text := by
  induction h with
  | nil => exact .refl []
  | cons head _ ih =>
    rw [List.flatMap_cons]
    exact head.shortens.append ih

/-- The shortest spellings of a row are the texts of its frames, those of the tags that
wait being in front of them and those of the tags that are left behind them. -/
theorem tight_eq_frames (tokens : List Token) :
    ∀ pending : List Tag, pending.flatMap Tag.chars ++ tokens.flatMap Token.tight =
      (framesOf pending tokens).1.flatMap Frame.chars ++
        (framesOf pending tokens).2.flatMap Tag.chars := by
  induction tokens with
  | nil =>
    intro pending
    exact List.append_nil _
  | cons token tokens ih =>
    intro pending
    rw [List.flatMap_cons]
    cases token with
    | separator => exact ih pending
    | tag tag =>
      simp only [framesOf]
      rw [← ih (pending ++ [tag]), List.flatMap_append, List.flatMap_singleton,
        List.append_assoc]
      rfl
    | frame sprite length =>
      have hrest := ih []
      rw [List.flatMap_nil, List.nil_append] at hrest
      have hframe : (Frame.mk sprite length pending).chars =
          pending.flatMap Tag.chars ++ Token.tight (.frame sprite length) := rfl
      simp only [framesOf]
      rw [List.flatMap_cons, hframe, hrest, List.append_assoc, List.append_assoc]

end Text

open Text (Spelling Shortens framesOf)

/-! ## Frames one behind the other -/

/-- The texts of valid frames spell them also without separators between them. -/
theorem spelling_unseparated {frames : List Frame} (h : ∀ f ∈ frames, f.Valid) :
    Spelling (frames.flatMap Frame.tokens) (frames.flatMap Frame.chars) := by
  induction frames with
  | nil => exact .nil
  | cons f rest ih =>
    rw [List.flatMap_cons, List.flatMap_cons]
    obtain ⟨hf, hrest⟩ := List.forall_mem_cons.mp h
    exact hf.spelling.append (ih hrest)

theorem framesOf_unseparated (frames : List Frame) :
    framesOf [] (frames.flatMap Frame.tokens) = (frames, []) := by
  induction frames with
  | nil => rfl
  | cons f rest ih => rw [List.flatMap_cons, framesOf_frame, ih]

theorem length_unseparated (frames : List Frame) :
    (frames.flatMap Frame.chars).length = frames.foldr (fun f n => f.encodedLength + n) 0 := by
  induction frames with
  | nil => rfl
  | cons f rest ih =>
    rw [List.flatMap_cons, List.length_append, f.length_chars, ih, List.foldr_cons]

namespace Script

variable {s : Script}

theorem toList_join_texts (s : Script) :
    (String.join (s.frames.map Frame.text)).toList = s.frames.flatMap Frame.chars := by
  rw [String.toList_join, List.flatMap_map]
  simp only [Frame.text, String.toList_ofList]

/-- The frames of a valid script are read from their texts also where no separators
stand between these. -/
theorem Valid.decode_unseparated (h : s.Valid) :
    Text.decode (String.join (s.frames.map Frame.text)) = .ok s := by
  rw [Text.decode, toList_join_texts, Text.decodeChars_eq_ok_iff,
    Text.denotes_iff_of_spelling (spelling_unseparated h.frames), framesOf_unseparated]
  exact ⟨rfl, ofFrames_eq_ok_iff.mpr ⟨h.nonempty, rfl, h.ends⟩⟩

/-- What is accepted as a script is the texts of the script's frames, or longer. -/
theorem shortens_of_decode {text : String} (h : Text.decode text = .ok s) :
    Shortens (s.frames.flatMap Frame.chars) text.toList ∧
      text.utf8ByteSize = text.toList.length := by
  obtain ⟨tokens, hspell, hleft, hframes⟩ := Text.decodeChars_eq_ok_iff.mp h
  obtain ⟨_, hsame, _⟩ := ofFrames_eq_ok_iff.mp hframes
  have htight := Text.tight_eq_frames tokens []
  rw [List.flatMap_nil, List.nil_append, hleft, ← hsame, List.flatMap_nil, List.append_nil]
    at htight
  refine ⟨?_, ?_⟩
  · rw [← htight]
    exact hspell.shortens
  · rw [Text.utf8ByteSize_eq, hspell.isAscii.byteLength_eq]

/-- The canonical text of a script that was read from a text takes at most one byte more
than this text for each place between two frames. It takes as many more exactly if the
text is the canonical one without the separators between the frames, and that one is
accepted as the script indeed. -/
theorem encodedLength_le_of_decode {text : String} (h : Text.decode text = .ok s) :
    s.encodedLength ≤ text.utf8ByteSize + (s.count - 1) ∧
      (s.encodedLength = text.utf8ByteSize + (s.count - 1) ↔
        text = String.join (s.frames.map Frame.text)) ∧
      s.text = String.intercalate "-" (s.frames.map Frame.text) ∧
      Text.decode (String.join (s.frames.map Frame.text)) = .ok s := by
  obtain ⟨hshortens, hsize⟩ := shortens_of_decode h
  have hlength : s.encodedLength = (s.frames.flatMap Frame.chars).length + (s.count - 1) := by
    rw [encodedLength, length_unseparated]
  refine ⟨?_, ?_, s.text_eq_intercalate, (valid_of_decode h).decode_unseparated⟩
  · rw [hlength, hsize]
    exact Nat.add_le_add_right hshortens.length_le _
  · rw [hlength, hsize, Nat.add_right_cancel_iff, hshortens.length_eq_iff, ← toList_join_texts,
      String.toList_inj]

/-- Two frames without a separator between them are four bytes, and five with it; a zero
too many makes up for the separator. -/
theorem encodedLength_of_two_frames :
    Text.decode "A3B4" = .ok twoFrames ∧ twoFrames.encodedLength = "A3B4".utf8ByteSize + 1 ∧
      Text.decode "A03B4" = .ok twoFrames ∧
        twoFrames.encodedLength < "A03B4".utf8ByteSize + 1 := by
  have hjoin : String.join (twoFrames.frames.map Frame.text) = "A3B4" := by decide
  have htight : Text.decode "A3B4" = .ok twoFrames := by
    rw [← hjoin]
    exact reachable_twoFrames.valid.decode_unseparated
  have hzero : Text.decode "A03B4" = .ok twoFrames := by
    have hfirst : Text.Token.Spelling (.frame 0 3) ['A', '0', '3'] :=
      .frame (by decide) (Text.Numeral.isNumeral_zero_cons (Text.Numeral.isNumeral_digits 3))
    have hsecond : Text.Token.Spelling (.frame 1 4) ['B', '4'] :=
      .frame (by decide) (Text.Numeral.isNumeral_digits 4)
    exact Text.decodeChars_eq_ok_iff.mpr ⟨_, .cons hfirst (.cons hsecond .nil), rfl, rfl⟩
  obtain ⟨_, hsame, _⟩ := encodedLength_le_of_decode htight
  obtain ⟨hle, hother, _⟩ := encodedLength_le_of_decode hzero
  refine ⟨htight, hsame.mpr hjoin.symm, hzero, Nat.lt_of_le_of_ne hle ?_⟩
  intro heq
  exact absurd ((hother.mp heq).trans hjoin) (by decide)

end Script

end Flipbook
