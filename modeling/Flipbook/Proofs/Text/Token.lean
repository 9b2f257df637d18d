import Flipbook.Proofs.Tag.Codes
import Flipbook.Proofs.Text.Numeral
import Flipbook.Proofs.Valid

/-!
# Tokens and their spellings

The reader of a token tries the codes that begin the text one after another; a spelling
just says how a token may be written. This file shows that the two agree, token by token.

The reader's choice among codes is settled by the longest of them: where it cannot stand,
no shorter one can (`not_fits_of_longest`). So a tag is read as the longest code and, if
one starts there, the number after it (`readTag_eq_ok_iff`). With that,

- a spelled token is read back, and nothing more than it, wherever what stands behind it
  cannot belong to it (`Token.read_append`);
- whatever is read as a token spells it, and what is left cannot belong to it
  (`Token.exists_of_read`).
-/

namespace Flipbook.Text

open Tag (Kind)
open Tag.Kind (Longest candidates)
open Numeral (Written startsAt)

/-! ## The longest code decides -/

theorem fits_of_required {kind : Kind} (h : kind.parameter = .required) (after : List Char) :
    fits kind after = startsAt after := by
  unfold fits
  rw [h]
  rfl

/-- Where the longest code cannot stand, no shorter one can. -/
theorem not_fits_of_longest {kind other : Kind} {text : List Char} (hk : kind.Longest text)
    (hf : fits kind (text.drop kind.code.length) = false) (ho : other.code <+: text) :
    fits other (text.drop other.code.length) = false := by
  by_cases hne : other = kind
  · rw [hne]; exact hf
  · have hle := hk.longest other ho
    obtain ⟨hreq, hbeyond⟩ :=
      Kind.code_extends (List.prefix_of_prefix_length_le ho hk.starts hle) hne
    obtain ⟨after, rfl⟩ := hk.starts
    rw [List.drop_left] at hf
    rw [List.drop_append_of_le_length hle, fits_of_required hreq]
    show startsAt (kind.beyond other ++ after) = false
    rcases hbeyond with ⟨hsign, _, hkreq⟩ | hnone
    · -- a sign: a number behind it would be a number behind the longer code
      rw [fits_of_required hkreq] at hf
      rcases hsign with hplus | hminus
      · rw [hplus, List.singleton_append, Numeral.startsAt_plus]
        exact Numeral.head?_not_digit hf
      · rw [hminus, List.singleton_append, Numeral.startsAt_minus]
        exact Numeral.head?_not_digit hf
    · exact Numeral.startsAt_append_of_head? hnone after

/-- The first candidate that fits is the longest one, or none. -/
theorem find?_fits_of_longest {kind : Kind} {text : List Char} (hk : kind.Longest text) :
    (candidates text).find? (fun k => fits k (text.drop k.code.length)) =
      if fits kind (text.drop kind.code.length) then some kind else none := by
  obtain ⟨rest, hrest⟩ :=
    List.head?_eq_some_iff.mp (Kind.head?_candidates_eq_some_iff.mpr hk)
  by_cases hf : fits kind (text.drop kind.code.length) = true
  · rw [if_pos hf, hrest]
    exact List.find?_cons_of_pos hf
  · rw [if_neg hf, List.find?_eq_none]
    intro other ho
    rw [Bool.not_eq_true] at hf ⊢
    exact not_fits_of_longest hk hf (Kind.mem_candidates_iff.mp ho)

theorem readTag_of_no_code {text : List Char} (h : ∀ kind : Kind, ¬ kind.code <+: text) :
    readTag text = .error ⟨.invalidTag, text⟩ := by
  simp only [readTag]
  rw [Kind.candidates_eq_nil_iff.mpr h]
  rfl

/-- The longest code is read, with the number after it if one starts there. -/
theorem readTag_of_fits {kind : Kind} {text : List Char} (hk : kind.Longest text)
    (hf : fits kind (text.drop kind.code.length) = true) :
    readTag text =
      if startsAt (text.drop kind.code.length) then
        (Numeral.readValue (text.drop kind.code.length)).map fun read =>
          (⟨kind, some read.1⟩, read.2)
      else .ok (⟨kind, none⟩, text.drop kind.code.length) := by
  simp only [readTag]
  rw [find?_fits_of_longest hk, if_pos hf]

/-- Where the longest code cannot stand, it is at fault. -/
theorem readTag_of_not_fits {kind : Kind} {text : List Char} (hk : kind.Longest text)
    (hf : fits kind (text.drop kind.code.length) = false) :
    readTag text =
      .error ⟨if kind.parameter = .required then .missingParameter else .invalidTag,
        text.drop kind.code.length⟩ := by
  simp only [readTag]
  rw [find?_fits_of_longest hk, if_neg (by rw [hf]; exact Bool.false_ne_true),
    Kind.head?_candidates_eq_some_iff.mpr hk]
  dsimp only
  split
  next hp => rw [if_pos hp]
  next hp => rw [if_neg hp]

/-- A tag is read exactly if its code is the longest at the front and what follows is its
number, or no number where it has none. -/
theorem readTag_eq_ok_iff {text rest : List Char} {tag : Tag} :
    readTag text = .ok (tag, rest) ↔
      ∃ after, text = tag.kind.code ++ after ∧ tag.kind.Longest text ∧
        fits tag.kind after = true ∧
        match tag.value with
        | none => startsAt after = false ∧ rest = after
        | some v => startsAt after = true ∧ Numeral.readValue after = .ok (v, rest) := by
  refine ⟨?_, ?_⟩
  · intro h
    cases hc : (candidates text).head? with
    | none =>
      rw [List.head?_eq_none_iff, Kind.candidates_eq_nil_iff] at hc
      rw [readTag_of_no_code hc] at h
      cases h
    | some kind =>
      have hk := Kind.head?_candidates_eq_some_iff.mp hc
      obtain ⟨after, rfl⟩ := hk.starts
      cases hf : fits kind ((kind.code ++ after).drop kind.code.length) with
      | false => rw [readTag_of_not_fits hk hf] at h; cases h
      | true =>
        rw [readTag_of_fits hk hf] at h
        rw [List.drop_left] at h hf
        split at h
        next hs =>
          obtain ⟨read, hv, hread⟩ := map_eq_ok_iff.mp h
          cases hread
          exact ⟨after, rfl, hk, hf, hs, hv⟩
        next hs =>
          cases h
          exact ⟨_, rfl, hk, hf, by simpa using hs, rfl⟩
  · intro h
    obtain ⟨after, rfl, hk, hf, hvalue⟩ := h
    obtain ⟨kind, value⟩ := tag
    rw [readTag_of_fits hk (by rw [List.drop_left]; exact hf), List.drop_left]
    cases value with
    | none =>
      obtain ⟨hs, rfl⟩ := hvalue
      rw [if_neg (by rw [hs]; exact Bool.false_ne_true)]
    | some v =>
      obtain ⟨hs, hv⟩ := hvalue
      rw [if_pos hs, hv]
      rfl

/-! ## Tags -/

/-- A tag is spelled by its code and, if it has one, its number; a sign is not allowed
where it would belong to the code of a step. -/
theorem spelling_tag_iff {tag : Tag} {first : List Char} :
    Token.Spelling (.tag tag) first ↔
      match tag.value with
      | none => tag.kind.parameter ≠ .required ∧ first = tag.kind.code
      | some v =>
        tag.kind.parameter ≠ .none ∧
          ∃ number, first = tag.kind.code ++ number ∧ Written v number ∧
            (tag.kind.bareAxis = true → number.head?.any Char.isDigit = true) := by
  obtain ⟨kind, value⟩ := tag
  refine ⟨?_, ?_⟩
  · intro h
    cases h with
    | bare optional => exact ⟨optional, rfl⟩
    | unsigned taken numeral same =>
      refine ⟨taken, _, rfl, .unsigned numeral same, fun _ => ?_⟩
      have hdigit := Numeral.head?_append_of_isNumeral numeral []
      rwa [List.append_nil] at hdigit
    | plus taken unambiguous numeral same =>
      refine ⟨taken, _, rfl, .plus numeral same, fun hbare => ?_⟩
      rw [show kind.bareAxis = false from unambiguous] at hbare
      cases hbare
    | minus taken unambiguous numeral same =>
      refine ⟨taken, _, rfl, .minus numeral same, fun hbare => ?_⟩
      rw [show kind.bareAxis = false from unambiguous] at hbare
      cases hbare
  · intro h
    cases value with
    | none =>
      obtain ⟨hopt, rfl⟩ := h
      exact .bare hopt
    | some v =>
      obtain ⟨htaken, number, rfl, hwritten, hbare⟩ := h
      -- behind a bare axis the number begins with a digit, and a sign is none
      have hsign : number.head?.any Char.isDigit = false → kind.bareAxis = false := by
        intro hnd
        rw [← Bool.not_eq_true]
        intro hb
        rw [hbare hb] at hnd
        cases hnd
      cases hwritten with
      | unsigned numeral same => exact .unsigned htaken numeral same
      | plus numeral same => exact .plus htaken (hsign rfl) numeral same
      | minus numeral same => exact .minus htaken (hsign rfl) numeral same

/-- Where a code goes on like a number its kind's code is the longest, unless the kind is
a bare axis and the number has a sign. -/
theorem longest_of_startsAt {kind : Kind} {after : List Char} (h : startsAt after = true)
    (hbare : kind.bareAxis = true → after.head?.any Char.isDigit = true) :
    kind.Longest (kind.code ++ after) := by
  refine Kind.longest_append ?_
  intro other hpre hne hgoes
  obtain ⟨tail, rfl⟩ := hgoes
  obtain ⟨_, ⟨hsign, haxis, _⟩ | hnone⟩ := Kind.code_extends hpre hne
  · have hdigit := hbare haxis
    rcases hsign with hplus | hminus
    · rw [hplus] at hdigit; cases hdigit
    · rw [hminus] at hdigit; cases hdigit
  · rw [Numeral.startsAt_append_of_head? hnone tail] at h
    cases h

/-- The code of a kind that can do without a number begins no other code. -/
theorem longest_of_not_required {kind : Kind} (h : kind.parameter ≠ .required)
    (after : List Char) : kind.Longest (kind.code ++ after) := by
  refine Kind.longest_append ?_
  intro other hpre hne _
  exact h (Kind.code_extends hpre hne).1

/-- A kind with a number fits exactly if it takes one. -/
theorem fits_of_startsAt {kind : Kind} {after : List Char} (h : startsAt after = true) :
    fits kind after = true ↔ kind.parameter ≠ .none := by
  unfold fits
  rw [h]
  cases kind.parameter <;> decide

theorem fits_of_not_startsAt {kind : Kind} {after : List Char} (h : startsAt after = false) :
    fits kind after = true ↔ kind.parameter ≠ .required := by
  unfold fits
  rw [h]
  cases kind.parameter <;> decide

/-- What stands behind a token cannot be more of it: no digit goes on with its number, and
no number follows the code of a tag without one. -/
def Token.Stops : Token → List Char → Prop
  | .separator, _ => True
  | .frame _ _, rest => rest.head?.any Char.isDigit = false
  | .tag ⟨_, none⟩, rest => startsAt rest = false
  | .tag ⟨_, some _⟩, rest => rest.head?.any Char.isDigit = false

/-- Where no number starts, every token stops. -/
theorem Token.stops_of_startsAt {rest : List Char} (h : startsAt rest = false)
    (token : Token) : token.Stops rest := by
  cases token with
  | separator => trivial
  | frame sprite length => exact Numeral.head?_not_digit h
  | tag tag =>
    obtain ⟨kind, value⟩ := tag
    cases value with
    | none => exact h
    | some v => exact Numeral.head?_not_digit h

/-- A spelled tag is read back where it stops. -/
theorem readTag_append {tag : Tag} {first rest : List Char}
    (h : Token.Spelling (.tag tag) first)
    (hrest : (Token.tag tag).Stops rest) : readTag (first ++ rest) = .ok (tag, rest) := by
  rw [spelling_tag_iff] at h
  rw [readTag_eq_ok_iff]
  obtain ⟨kind, value⟩ := tag
  cases value with
  | none =>
    obtain ⟨hopt, rfl⟩ := h
    have hstart : startsAt rest = false := hrest
    exact ⟨rest, rfl, longest_of_not_required hopt rest,
      (fits_of_not_startsAt hstart).mpr hopt, hstart, rfl⟩
  | some v =>
    obtain ⟨htaken, number, rfl, hwritten, hbare⟩ := h
    have hstart := hwritten.startsAt rest
    refine ⟨number ++ rest, List.append_assoc .., ?_, (fits_of_startsAt hstart).mpr htaken,
      hstart, Numeral.readValue_append hwritten hrest⟩
    rw [List.append_assoc]
    refine longest_of_startsAt hstart ?_
    intro haxis
    have hdigit := hbare haxis
    cases number with
    | nil => cases hdigit
    | cons c number => exact hdigit

/-- Where the code of a bare axis is the longest, the number behind it has no sign: with
the sign it would have been the longer code of a step. -/
theorem head?_digit_of_longest {kind : Kind} {after : List Char}
    (h : kind.Longest (kind.code ++ after)) (haxis : kind.bareAxis = true)
    (hstart : startsAt after = true) : after.head?.any Char.isDigit = true := by
  obtain ⟨⟨up, hup⟩, down, hdown⟩ := Kind.exists_code_eq_append_sign haxis
  cases after with
  | nil => cases hstart
  | cons c after =>
    have hsign : ∀ (step : Kind) (sign : Char), step.code = kind.code ++ [sign] →
        c ≠ sign := by
      rintro step _ hstep rfl
      have hle := h.longest step ⟨after, by rw [hstep, List.append_assoc]; rfl⟩
      rw [hstep, List.length_append, List.length_singleton] at hle
      exact absurd hle (Nat.not_succ_le_self _)
    rw [Numeral.startsAt_cons after (hsign up '+' hup) (hsign down '-' hdown)] at hstart
    exact hstart

/-- What is read as a tag spells it, and the tag stops there. -/
theorem exists_of_readTag {text rest : List Char} {tag : Tag}
    (h : readTag text = .ok (tag, rest)) :
    ∃ first, Token.Spelling (.tag tag) first ∧ text = first ++ rest ∧
      (Token.tag tag).Stops rest := by
  obtain ⟨after, rfl, hlongest, hfits, hvalue⟩ := readTag_eq_ok_iff.mp h
  obtain ⟨kind, value⟩ := tag
  cases value with
  | none =>
    obtain ⟨hstart, rfl⟩ := hvalue
    exact ⟨kind.code, spelling_tag_iff.mpr ⟨(fits_of_not_startsAt hstart).mp hfits, rfl⟩,
      rfl, hstart⟩
  | some v =>
    obtain ⟨hstart, hread⟩ := hvalue
    obtain ⟨number, hwritten, rfl, hstops⟩ := Numeral.exists_of_readValue hread
    refine ⟨kind.code ++ number, spelling_tag_iff.mpr
      ⟨(fits_of_startsAt hstart).mp hfits, number, rfl, hwritten, ?_⟩,
        (List.append_assoc ..).symm, hstops⟩
    intro haxis
    have hdigit := head?_digit_of_longest hlongest haxis hstart
    obtain ⟨sign, run, rfl, hrun, _⟩ := hwritten.exists_eq_append
    cases sign with
    | nil =>
      have hhead := Numeral.head?_append_of_isNumeral hrun []
      rwa [List.append_nil] at hhead
    | cons c sign => exact hdigit

/-! ## Tokens -/

namespace Token

/-- The clock can hold the token's length, if it is a frame. -/
def Holdable : Token → Prop
  | .frame _ length => length ≤ Tick.last
  | _ => True

theorem spelling_frame_iff {sprite length : Nat} {first : List Char} :
    Token.Spelling (.frame sprite length) first ↔
      ∃ c digits, first = c :: digits ∧ Sprite.ofLetter? c = some sprite ∧ IsNumeral digits ∧
        Nat.ofDigitChars 10 digits 0 = length := by
  refine ⟨?_, ?_⟩
  · intro h
    cases h with
    | @frame c digits _ letter numeral => exact ⟨c, digits, rfl, letter, numeral, rfl⟩
  · intro h
    obtain ⟨c, digits, rfl, letter, numeral, rfl⟩ := h
    exact .frame letter numeral

/-- The characters with which a token may begin. They tell the three sorts of token apart. -/
def Begins : Token → Char → Prop
  | .separator, c => c = Text.separator
  | .frame sprite _, c => Sprite.ofLetter? c = some sprite
  | .tag _, c => c ≠ Text.separator ∧ Sprite.ofLetter? c = none ∧ c.isLower = true

theorem exists_code_eq_cons (tag : Tag) :
    ∃ c tail, tag.kind.code = c :: tail ∧ (Token.tag tag).Begins c := by
  obtain ⟨kind, value⟩ := tag
  cases kind <;> exact ⟨_, _, rfl, by decide, by decide, by decide⟩

/-- A spelled token is not empty, and it begins as its sort does. -/
theorem Spelling.exists_eq_cons {token : Token} {first : List Char}
    (h : token.Spelling first) : ∃ c tail, first = c :: tail ∧ token.Begins c := by
  cases token with
  | separator =>
    cases h
    exact ⟨Text.separator, [], rfl, rfl⟩
  | frame sprite length =>
    obtain ⟨c, digits, rfl, letter, _⟩ := spelling_frame_iff.mp h
    exact ⟨c, digits, rfl, letter⟩
  | tag tag =>
    obtain ⟨c, tail, hcode, hbegins⟩ := exists_code_eq_cons tag
    rw [spelling_tag_iff] at h
    cases hv : tag.value with
    | none =>
      rw [hv] at h
      exact ⟨c, tail, h.2.trans hcode, hbegins⟩
    | some v =>
      rw [hv] at h
      obtain ⟨_, number, hfirst, _⟩ := h
      exact ⟨c, tail ++ number, by rw [hfirst, hcode]; rfl, hbegins⟩

/-- Where a code stands, a tag is read. -/
theorem exists_read_code (kind : Kind) (after : List Char) :
    ∃ c tail, kind.code = c :: tail ∧
      Token.read c (tail ++ after) =
        (readTag (kind.code ++ after)).map fun read => (.tag read.1, read.2) := by
  obtain ⟨c, tail, hcode, hsep, hletter, hlower⟩ := exists_code_eq_cons ⟨kind, none⟩
  refine ⟨c, tail, hcode, ?_⟩
  have hcode' : kind.code = c :: tail := hcode
  unfold Token.read
  rw [if_neg hsep, hletter, hcode']
  exact if_pos hlower

theorem ne_separator_of_ofLetter? {c : Char} {sprite : Nat}
    (h : Sprite.ofLetter? c = some sprite) : c ≠ Text.separator := by
  rintro rfl
  have hnone : Sprite.ofLetter? Text.separator = none := by decide
  rw [hnone] at h
  cases h

/-- Whatever follows a spelled token, the token is read back and that is left, if the
token stops there and the clock can hold it. -/
theorem read_append {token : Token} {c : Char} {tail rest : List Char}
    (h : token.Spelling (c :: tail)) (hhold : token.Holdable) (hrest : token.Stops rest) :
    Token.read c (tail ++ rest) = .ok (token, rest) := by
  unfold Token.read
  cases token with
  | separator =>
    cases h
    exact if_pos rfl
  | frame sprite length =>
    obtain ⟨_, _, hcons, letter, numeral, rfl⟩ := spelling_frame_iff.mp h
    cases hcons
    rw [if_neg (ne_separator_of_ofLetter? letter), letter]
    show readFrame sprite (tail ++ rest) = _
    unfold readFrame
    rw [Numeral.readLength_append numeral hrest hhold]
  | tag tag =>
    obtain ⟨_, _, hcons, hsep, hletter, hlower⟩ := h.exists_eq_cons
    cases hcons
    rw [if_neg hsep, hletter]
    dsimp only
    rw [if_pos hlower, ← List.cons_append, readTag_append h hrest]
    rfl

/-- What is read as a token spells it, and the token stops there. -/
theorem exists_of_read {c : Char} {text rest : List Char} {token : Token}
    (h : Token.read c text = .ok (token, rest)) :
    ∃ first, token.Spelling first ∧ c :: text = first ++ rest ∧ token.Stops rest := by
  unfold Token.read at h
  split at h
  next hsep =>
    cases h
    exact ⟨[Text.separator], .separator, by rw [hsep]; rfl, trivial⟩
  next =>
    split at h
    next sprite hletter =>
      unfold readFrame at h
      split at h
      next => cases h
      next => cases h
      next length rest' hl =>
        cases h
        obtain ⟨run, hrun, rfl, rfl, hstops⟩ := Numeral.exists_of_readLength hl
        exact ⟨c :: run, .frame hletter hrun, rfl, hstops⟩
    next =>
      split at h
      next =>
        obtain ⟨read, ht, hread⟩ := map_eq_ok_iff.mp h
        cases hread
        exact exists_of_readTag ht
      next => cases h

end Token

end Flipbook.Text
