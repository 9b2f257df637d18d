import Flipbook.Tag.Basic
import Flipbook.Sprite
import Flipbook.Text.Numeral

/-!
# Tokens of animation text

A text is a row of tokens with nothing between them: separators, which mean nothing; tags;
and frames, a capital letter and a length. A tag is read by its code and, where one
follows and the kind takes it, its number. Of the codes that start the text the longest
that can stand here is read; where none can, the fault is that of the longest.

Main fact: a token takes at least one character (`Token.length_le_of_read`), so
reading tokens ends.
-/

namespace Flipbook.Text

/-- The character that may stand between tokens. -/
def separator : Char := '-'

/-- One token of a text. -/
inductive Token where
  | separator
  | tag (tag : Tag)
  | frame (sprite length : Nat)
  deriving DecidableEq, Repr

/-- A tag of this kind may stand before the text: its number follows if it needs one, and
none follows if it takes none. -/
def fits (kind : Tag.Kind) (after : List Char) : Bool :=
  kind.parameter.allows (Numeral.startsAt after)

/-- Reads the tag at the start of a text. -/
def readTag (text : List Char) : Except Fault (Tag × List Char) :=
  let candidates := Tag.Kind.candidates text
  let after (kind : Tag.Kind) := text.drop kind.code.length
  match candidates.find? fun kind => fits kind (after kind) with
  | some kind =>
    if Numeral.startsAt (after kind) then
      (Numeral.readValue (after kind)).map fun read => (⟨kind, some read.1⟩, read.2)
    else .ok (⟨kind, none⟩, after kind)
  | none =>
    match candidates.head? with
    | some kind =>
      match kind.parameter with
      | .required => .error ⟨.missingParameter, after kind⟩
      | _ => .error ⟨.invalidTag, after kind⟩
    | none => .error ⟨.invalidTag, text⟩

/-- Reads the length of a frame whose letter has been read. -/
def readFrame (sprite : Nat) (text : List Char) : Except Fault (Token × List Char) :=
  match Numeral.readLength text with
  | .error fault => .error fault
  | .ok none => .error ⟨.missingLength, text⟩
  | .ok (some (length, rest)) => .ok (.frame sprite length, rest)

/-- Reads the token that starts with `c` and goes on in `text`. -/
def Token.read (c : Char) (text : List Char) : Except Fault (Token × List Char) :=
  if c = Text.separator then .ok (.separator, text)
  else
    match Sprite.ofLetter? c with
    | some sprite => readFrame sprite text
    | none =>
      if c.isLower then (readTag (c :: text)).map fun read => (.tag read.1, read.2)
      else .error ⟨.invalidTag, c :: text⟩

/-- Every code has a character. -/
theorem code_length_pos (kind : Tag.Kind) : 0 < kind.code.length := by
  cases kind <;> decide

/-- What follows a tag is shorter than the text, unless the text is empty. -/
theorem length_le_of_readTag {c : Char} {text rest : List Char} {tag : Tag}
    (h : readTag (c :: text) = .ok (tag, rest)) : rest.length ≤ text.length := by
  have hafter : ∀ kind : Tag.Kind,
      ((c :: text).drop kind.code.length).length ≤ text.length := by
    intro kind
    have := code_length_pos kind
    rw [List.length_drop, List.length_cons]
    omega
  simp only [readTag] at h
  split at h
  · next kind _ =>
    split at h
    · cases hv : Numeral.readValue ((c :: text).drop kind.code.length) with
      | error => rw [hv] at h; cases h
      | ok p =>
        rw [hv] at h
        cases h
        exact Nat.le_trans (Numeral.length_le_of_readValue hv) (hafter kind)
    · cases h
      exact hafter kind
  · split at h
    · split at h <;> cases h
    · cases h

/-- A token takes its first character and perhaps more. -/
theorem Token.length_le_of_read {c : Char} {text rest : List Char} {token : Token}
    (h : Token.read c text = .ok (token, rest)) : rest.length ≤ text.length := by
  unfold Token.read at h
  split at h
  · cases h
    exact Nat.le_refl _
  · split at h
    · unfold readFrame at h
      split at h
      · cases h
      · cases h
      · next hl =>
        cases h
        exact Numeral.length_le_of_readLength hl
    · split at h
      · cases ht : readTag (c :: text) with
        | error => rw [ht] at h; cases h
        | ok p =>
          rw [ht] at h
          cases h
          exact length_le_of_readTag ht
      · cases h

end Flipbook.Text
