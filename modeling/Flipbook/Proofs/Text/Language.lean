import Flipbook.Proofs.Script.Ends
import Flipbook.Proofs.Text.Token
import Flipbook.Text.Decode

/-!
# The reader reads the language

`Denotes` says what a text stands for without reading it; `decodeChars` reads. Both mean
the same: `decodeChars_eq_ok_iff`.

The proof goes through the row of tokens. What follows a spelled token is spelled by
further tokens, and no token begins with a digit, so no number starts there
(`Spelling.startsAt`): the reader can cut the text nowhere else than the spelling does.
Hence reading a text comes to adding the tokens of some row that spells it to the draft
(`Draft.read_eq_ok_iff`). What the draft then holds, latest first, are the frames of the
row and their running totals (`Draft.foldlM_add?`).
-/

namespace Flipbook.Text

open Tag (Kind)
open Numeral (Written)

/-! ## Where tokens can be cut -/

/-- A capital letter is no digit and no sign. -/
theorem startsAt_letter {c : Char} {sprite : Nat} (h : Sprite.ofLetter? c = some sprite)
    (rest : List Char) : Numeral.startsAt (c :: rest) = false := by
  obtain ⟨hlow, _, _⟩ := Sprite.of_ofLetter?_eq_some h
  have hsign : ∀ sign : Char, sign.val < 'A'.val → c ≠ sign := by
    intro sign hlt heq
    rw [heq] at hlow
    exact absurd hlow (UInt32.not_le.mpr hlt)
  rw [Numeral.startsAt_cons rest (hsign '+' (by decide)) (hsign '-' (by decide))]
  simp only [Char.isDigit, Bool.and_eq_false_iff, decide_eq_false_iff_not]
  right
  intro hle
  exact absurd (UInt32.le_trans hlow hle) (by decide)

theorem startsAt_code (kind : Kind) (rest : List Char) :
    Numeral.startsAt (kind.code ++ rest) = false := by
  cases kind <;> rfl

/-- No number starts where tokens do. -/
theorem Spelling.startsAt {tokens : List Token} {text : List Char} (h : Spelling tokens text) :
    Numeral.startsAt text = false := by
  induction h with
  | nil => rfl
  | @cons token tokens first rest head tail ih =>
    cases token with
    | separator =>
      cases head
      show Numeral.startsAt ('-' :: rest) = false
      rw [Numeral.startsAt_minus]
      exact Numeral.head?_not_digit ih
    | frame sprite length =>
      cases head with
      | frame letter _ => exact startsAt_letter letter _
    | tag tag =>
      rw [spelling_tag_iff] at head
      cases hv : tag.value with
      | none =>
        rw [hv] at head
        rw [head.2]
        exact startsAt_code tag.kind rest
      | some v =>
        rw [hv] at head
        obtain ⟨_, number, rfl, _⟩ := head
        rw [List.append_assoc]
        exact startsAt_code tag.kind (number ++ rest)

/-! ## Reading a text is adding its tokens -/

namespace Draft

/-- Only what the clock can hold is added. -/
theorem holdable_of_add? {d next : Draft} {token : Token} (h : d.add? token = some next) :
    token.Holdable := by
  cases token with
  | separator => trivial
  | tag tag => trivial
  | frame sprite length =>
    simp only [add?] at h
    split at h
    next hle => exact Nat.le_trans (Nat.le_add_left _ _) hle
    next => cases h

theorem read_cons (d : Draft) (c : Char) (text : List Char) :
    d.read (c :: text) =
      match Token.read c text with
      | .error fault => .error fault
      | .ok (token, rest) =>
        match d.add? token with
        | none => .error ⟨.numberOverflow, text⟩
        | some next => next.read rest := by
  rw [read]
  split
  next fault h => simp only [h]
  next token rest h =>
    cases hadd : d.add? token with
    | none => simp only [h, hadd]
    | some next => simp only [h, hadd]

/-- A text is read into a draft exactly if some tokens spell it and can be added, and the
draft that they make closes. -/
theorem read_eq_ok_iff {text : List Char} {s : Script} :
    ∀ {d : Draft}, d.read text = .ok s ↔
      ∃ tokens last, Spelling tokens text ∧ tokens.foldlM add? d = some last ∧
        last.close = .ok s := by
  intro d
  refine ⟨?_, ?_⟩
  · -- along the reader: each token that it reads spells what it takes
    intro h
    fun_induction read d text with
    | case1 d =>
      refine ⟨[], d, .nil, rfl, ?_⟩
      cases hc : d.close with
      | error reason => rw [hc] at h; cases h
      | ok s' => rw [hc] at h; cases h; rfl
    | case2 => cases h
    | case3 => cases h
    | case4 d c text token rest hread next hadd ih =>
      obtain ⟨tokens, last, hspell, hfold, hclose⟩ := ih h
      obtain ⟨first, hfirst, htext, _⟩ := Token.exists_of_read hread
      refine ⟨token :: tokens, last, ?_, ?_, hclose⟩
      · rw [htext]
        exact .cons hfirst hspell
      · rw [List.foldlM_cons, hadd]
        exact hfold
  · -- along the spelling: behind a spelled token no number starts, so the reader stops there
    intro h
    obtain ⟨tokens, last, hspell, hfold, hclose⟩ := h
    induction hspell generalizing d with
    | nil =>
      cases hfold
      rw [read, hclose]
      rfl
    | @cons token tokens first rest head tail ih =>
      rw [List.foldlM_cons] at hfold
      cases hadd : d.add? token with
      | none => rw [hadd] at hfold; cases hfold
      | some next =>
        rw [hadd] at hfold
        obtain ⟨c, more, rfl, _⟩ := head.exists_eq_cons
        rw [List.cons_append, read_cons,
          Token.read_append head (holdable_of_add? hadd)
            (Token.stops_of_startsAt tail.startsAt token)]
        dsimp only
        rw [hadd]
        exact ih hfold

/-- What a draft holds after some tokens: their frames behind those it had, closed at the
running totals, and the tags that no frame has taken. -/
theorem foldlM_add? (tokens : List Token) :
    ∀ d : Draft, tokens.foldlM add? d =
      (Script.endsFrom (d.ends.headD 0) (framesOf d.pending.reverse tokens).1).map fun ends =>
        ⟨(framesOf d.pending.reverse tokens).1.reverse ++ d.frames, ends.reverse ++ d.ends,
          (framesOf d.pending.reverse tokens).2.reverse⟩ := by
  induction tokens with
  | nil =>
    intro d
    simp [framesOf, Script.endsFrom]
  | cons token tokens ih =>
    intro d
    rw [List.foldlM_cons]
    cases token with
    | separator => exact ih d
    | tag tag =>
      show tokens.foldlM add? { d with pending := tag :: d.pending } = _
      rw [ih, List.reverse_cons]
      rfl
    | frame sprite length =>
      -- the latest end is the total that the rest goes on from
      simp only [add?, framesOf, Script.endsFrom]
      by_cases hle : d.ends.headD 0 + length ≤ Tick.last
      · rw [if_pos hle, if_pos hle]
        show tokens.foldlM add? _ = _
        rw [ih, Option.map_map]
        simp only [List.headD_cons, List.reverse_nil, List.reverse_cons, List.append_assoc,
          List.singleton_append, Function.comp_def]
      · rw [if_neg hle, if_neg hle]
        rfl

theorem close_eq_ok_iff {d : Draft} {s : Script} :
    d.close = .ok s ↔
      d.pending = [] ∧ d.frames ≠ [] ∧ s = ⟨d.frames.reverse, d.ends.reverse⟩ := by
  obtain ⟨frames, ends, pending⟩ := d
  unfold close
  cases pending with
  | cons tag pending => simp
  | nil =>
    cases frames with
    | nil => simp
    | cons f frames => simp [eq_comm]

end Draft

/-! ## The language -/

/-- A text denotes the script whose frames some tokens spell, if the draft of
these tokens closes. -/
theorem denotes_iff {text : List Char} {s : Script} :
    Denotes text s ↔
      ∃ tokens last, Spelling tokens text ∧ tokens.foldlM Draft.add? Draft.empty = some last ∧
        last.close = .ok s := by
  unfold Denotes
  refine exists_congr fun tokens => ?_
  rw [exists_and_left]
  refine and_congr_right fun _ => ?_
  rw [Draft.foldlM_add?, Script.ofFrames_eq_ok_iff]
  show _ ∧ (_ ∧ _ ∧ Script.endsFrom 0 _ = _) ↔ _
  simp only [Draft.empty, List.headD_nil, List.reverse_nil, List.append_nil,
    Option.map_eq_some_iff, Draft.close_eq_ok_iff]
  refine ⟨?_, ?_⟩
  · intro h
    obtain ⟨hleft, hne, hframes, hends⟩ := h
    refine ⟨_, ⟨s.ends, hends, rfl⟩, ?_, ?_, ?_⟩
    · rw [hleft]
      rfl
    · rw [ne_eq, List.reverse_eq_nil_iff]
      exact hne
    · rw [List.reverse_reverse, List.reverse_reverse, ← hframes]
  · intro h
    obtain ⟨last, ⟨ends, hends, rfl⟩, hleft, hne, rfl⟩ := h
    rw [List.reverse_eq_nil_iff] at hleft
    rw [ne_eq, List.reverse_eq_nil_iff] at hne
    refine ⟨hleft, hne, List.reverse_reverse _, ?_⟩
    show Script.endsFrom 0 _ = some ends.reverse.reverse
    rw [List.reverse_reverse]
    exact hends

/-- The reader accepts a text as a script exactly if the text denotes it. -/
theorem decodeChars_eq_ok_iff {text : List Char} {s : Script} :
    decodeChars text = .ok s ↔ Denotes text s := by
  rw [denotes_iff, ← Draft.read_eq_ok_iff]
  unfold decodeChars
  cases Draft.empty.read text with
  | error fault => constructor <;> intro h <;> cases h
  | ok s' => constructor <;> intro h <;> cases h <;> rfl

end Flipbook.Text
