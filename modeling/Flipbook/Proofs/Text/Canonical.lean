import Flipbook.Proofs.Script.Reachable
import Flipbook.Proofs.Text.Meaning
import Flipbook.Text.Encode

/-!
# The canonical text

Main statement: `decode_text`. The canonical text of a script that comes about is read
back as the very same script, its end ticks included.

The text is not followed through the reader. It is the spelling of a row of tokens that is
written down with the script (`Script.tokens`): a valid tag is spelled by its own text, a
valid frame by its tags, its letter and its length, and a script by its frames. What the
row denotes is the script, and the reader answers what a text denotes.
-/

namespace Flipbook

open Text (Token Spelling framesOf)

/-! ## Tokens and their texts -/

/-- The tokens of a frame: its tags, and the frame. -/
def Frame.tokens (f : Frame) : List Token :=
  f.tags.map .tag ++ [.frame f.sprite f.length]

/-- The tokens of a script: those of its frames, with one separator between frames. -/
def Script.tokens (s : Script) : List Token :=
  [Token.separator].intercalate (s.frames.map Frame.tokens)

theorem Tag.Valid.spelling {tag : Tag} (h : tag.Valid) :
    Token.Spelling (.tag tag) tag.chars := by
  rw [Tag.valid_iff] at h
  rw [Text.spelling_tag_iff]
  obtain ⟨kind, value⟩ := tag
  cases value with
  | none => exact ⟨h, List.append_nil _⟩
  | some v =>
    obtain ⟨htaken, hsign⟩ := h
    refine ⟨htaken, Text.Numeral.signedDigits v, rfl, .signedDigits v, ?_⟩
    intro haxis
    rw [Text.Numeral.signedDigits, if_neg (Int.not_lt.mpr (hsign haxis))]
    have hhead := Text.Numeral.head?_append_of_isNumeral
      (Text.Numeral.isNumeral_digits v.toInt.natAbs) []
    rwa [List.append_nil] at hhead

theorem spelling_tags {tags : List Tag} (h : ∀ tag ∈ tags, tag.Valid) :
    Spelling (tags.map .tag) (tags.flatMap Tag.chars) := by
  induction tags with
  | nil => exact .nil
  | cons tag tags ih =>
    rw [List.map_cons, List.flatMap_cons]
    refine .cons (h tag (List.mem_cons_self ..)).spelling (ih ?_)
    intro t ht
    exact h t (List.mem_cons_of_mem tag ht)

theorem Frame.Valid.spelling {f : Frame} (h : f.Valid) : Spelling f.tokens f.chars := by
  refine (spelling_tags h.tags).append ?_
  have hframe :
      Token.Spelling (.frame f.sprite f.length)
        (f.letter :: Text.Numeral.digits f.length) := by
    rw [Token.spelling_frame_iff]
    exact ⟨f.letter, Text.Numeral.digits f.length, rfl, Sprite.ofLetter?_letter h.sprite,
      Text.Numeral.isNumeral_digits _, Text.Numeral.ofDigitChars_digits _⟩
  have hrow := Spelling.cons hframe .nil
  rwa [List.append_nil] at hrow

/-- Valid frames are spelled by their texts, with a separator between two of them. -/
theorem spelling_frames {frames : List Frame} (h : ∀ f ∈ frames, f.Valid) :
    Spelling ([Token.separator].intercalate (frames.map Frame.tokens))
      ([Text.separator].intercalate (frames.map Frame.chars)) := by
  induction frames with
  | nil => exact .nil
  | cons f rest ih =>
    have hf := (h f (List.mem_cons_self ..)).spelling
    cases rest with
    | nil =>
      rw [List.map_singleton, List.map_singleton, List.intercalate_singleton,
        List.intercalate_singleton]
      exact hf
    | cons g rest =>
      rw [List.map_cons, List.map_cons, List.map_cons, List.map_cons,
        List.intercalate_cons_cons, List.intercalate_cons_cons]
      refine (hf.append (.cons .separator .nil)).append (ih ?_)
      intro k hk
      exact h k (List.mem_cons_of_mem f hk)

/-! ## Tokens and their frames -/

/-- Tags wait for the frame behind them. -/
theorem framesOf_tags (tags : List Tag) (tokens : List Token) :
    ∀ pending : List Tag,
      framesOf pending (tags.map .tag ++ tokens) = framesOf (pending ++ tags) tokens := by
  induction tags with
  | nil =>
    intro pending
    rw [List.append_nil]
    rfl
  | cons tag tags ih =>
    intro pending
    show framesOf (pending ++ [tag]) (tags.map .tag ++ tokens) = _
    rw [ih, List.append_assoc]
    rfl

theorem framesOf_frame (f : Frame) (tokens : List Token) :
    framesOf [] (f.tokens ++ tokens) =
      (f :: (framesOf [] tokens).1, (framesOf [] tokens).2) := by
  unfold Frame.tokens
  rw [List.append_assoc, framesOf_tags]
  rfl

/-- The tokens of frames give the frames, and no tag is left. -/
theorem framesOf_frames (frames : List Frame) :
    framesOf [] ([Token.separator].intercalate (frames.map Frame.tokens)) = (frames, []) := by
  induction frames with
  | nil => rfl
  | cons f rest ih =>
    cases rest with
    | nil =>
      rw [List.map_singleton, List.intercalate_singleton, ← List.append_nil f.tokens,
        framesOf_frame]
      rfl
    | cons g rest =>
      have hrest : framesOf [] ([Token.separator] ++
          [Token.separator].intercalate ((g :: rest).map Frame.tokens)) = (g :: rest, []) := ih
      rw [List.map_cons] at hrest ⊢
      rw [List.map_cons, List.intercalate_cons_cons, List.append_assoc, framesOf_frame, hrest]

/-! ## Reading the canonical text -/

theorem Script.Valid.denotes {s : Script} (h : s.Valid) : Text.Denotes s.chars s := by
  have htokens : framesOf [] s.tokens = (s.frames, []) := framesOf_frames s.frames
  refine ⟨s.tokens, spelling_frames h.frames, ?_, ?_⟩
  · rw [htokens]
  · rw [htokens]
    exact Script.ofFrames_eq_ok_iff.mpr ⟨h.nonempty, rfl, h.ends⟩

/-- Reading the canonical text of a valid script gives the script back. -/
theorem Script.Valid.decode_eq {s : Script} (h : s.Valid) : Text.decode s.text = .ok s := by
  unfold Text.decode Script.text
  rw [String.toList_ofList, Text.decodeChars_eq_ok_iff]
  exact h.denotes

/-- Reading the canonical text of a script that comes about gives the script back, and
writing what was read gives the text back. -/
theorem Script.decode_text {s : Script} (h : s.Reachable) :
    Text.decode s.text = .ok s ∧ (Text.decode s.text).map Script.text = .ok s.text := by
  have hread : Text.decode s.text = .ok s := h.valid.decode_eq
  refine ⟨hread, ?_⟩
  rw [hread]
  rfl

/-- A script that was made of one frame, with a negative blend level, was then given a
second frame and refused a sprite. -/
theorem Script.decode_text_of_edited :
    Script.Reachable ⟨[⟨0, 3, [⟨.blendStart, some (-5)⟩]⟩, ⟨25, 7, []⟩], [3, 10]⟩ ∧
      Text.decode "bs-5A3-Z7" =
        .ok ⟨[⟨0, 3, [⟨.blendStart, some (-5)⟩]⟩, ⟨25, 7, []⟩], [3, 10]⟩ := by
  have hpush : Frame.pushTag ⟨0, 3, []⟩ "bs" (some (-5)) =
      .ok ⟨0, 3, [⟨.blendStart, some (-5)⟩]⟩ := rfl
  have hbuilt : Frame.Built ⟨0, 3, [⟨.blendStart, some (-5)⟩]⟩ :=
    (Frame.built_of_le (Nat.zero_le _) 3).pushTag hpush
  have hmade : Script.Reachable ⟨[⟨0, 3, [⟨.blendStart, some (-5)⟩]⟩], [3]⟩ :=
    .made (List.forall_mem_singleton.mpr hbuilt) rfl
  have hreach :
      Script.Reachable ⟨[⟨0, 3, [⟨.blendStart, some (-5)⟩]⟩, ⟨25, 7, []⟩], [3, 10]⟩ :=
    (hmade.edited (.appendFrame 25 7)).edited (.setSprite 1 26)
  have htext : Script.text ⟨[⟨0, 3, [⟨.blendStart, some (-5)⟩]⟩, ⟨25, 7, []⟩], [3, 10]⟩ =
      "bs-5A3-Z7" := by decide
  refine ⟨hreach, ?_⟩
  rw [← htext]
  exact (Script.decode_text hreach).1

end Flipbook
