import Flipbook.Proofs.Text.Language

/-!
# What a text means

Main statement: `decode_eq_ok_iff_denotes`. The texts that `decode` accepts are the rows
of spelled tokens whose lengths the clock can hold, with a frame and no tag behind the
last one; the script that it answers is read off the row.

Spellings are looser than scripts. A zero in front of a number's digits, a plus sign in
front of a number and a separator between two tokens give another text, `Respelled`, with
the same meaning. What makes this a statement about texts and not about rows of tokens is
that a text has only one row: the spelling of tokens is unambiguous (`Spelling.unique`).
-/

namespace Flipbook.Text

open Tag (Kind)
open Numeral (Written)

/-! ## A text has one row of tokens -/

/-- Two frames that begin the same text have the same letter and the same digits. -/
theorem Token.Spelling.unique_frame {sprite sprite' length length' : Nat}
    {first first' rest rest' : List Char} (h : Token.Spelling (.frame sprite length) first)
    (h' : Token.Spelling (.frame sprite' length') first')
    (heq : first ++ rest = first' ++ rest')
    (hrest : Numeral.startsAt rest = false) (hrest' : Numeral.startsAt rest' = false) :
    Token.frame sprite length = .frame sprite' length' ∧ rest = rest' := by
  obtain ⟨c, digits, rfl, letter, numeral, rfl⟩ := Token.spelling_frame_iff.mp h
  obtain ⟨c', digits', rfl, letter', numeral', rfl⟩ := Token.spelling_frame_iff.mp h'
  rw [List.cons_append, List.cons_append, List.cons.injEq] at heq
  obtain ⟨rfl, heq⟩ := heq
  have hread := Numeral.splitDigits?_append numeral (Numeral.head?_not_digit hrest)
  rw [heq, Numeral.splitDigits?_append numeral' (Numeral.head?_not_digit hrest'),
    Option.some.injEq, Prod.mk.injEq] at hread
  rw [letter, Option.some.injEq] at letter'
  exact ⟨by rw [letter', hread.1], hread.2.symm⟩

/-- Two tokens that begin the same text are the same token, if no number
starts behind either. -/
theorem Token.Spelling.unique {token other : Token} {first first' rest rest' : List Char}
    (h : token.Spelling first) (h' : other.Spelling first')
    (heq : first ++ rest = first' ++ rest')
    (hrest : Numeral.startsAt rest = false) (hrest' : Numeral.startsAt rest' = false) :
    token = other ∧ rest = rest' := by
  obtain ⟨c, tail, rfl, hbegins⟩ := h.exists_eq_cons
  obtain ⟨c', tail', rfl, hbegins'⟩ := h'.exists_eq_cons
  rw [List.cons_append, List.cons_append, List.cons.injEq] at heq
  obtain ⟨rfl, heq⟩ := heq
  -- what is no frame is read back whatever the clock can hold
  have hread : token.Holdable → other.Holdable → token = other ∧ rest = rest' := by
    intro hhold hhold'
    have hone := Token.read_append h hhold (Token.stops_of_startsAt hrest token)
    rw [heq, Token.read_append h' hhold' (Token.stops_of_startsAt hrest' other)] at hone
    cases hone
    exact ⟨rfl, rfl⟩
  have hsame : c :: tail ++ rest = c :: tail' ++ rest' := by
    rw [List.cons_append, List.cons_append, heq]
  cases token with
  | separator =>
    cases other with
    | frame sprite length => exact absurd hbegins (Token.ne_separator_of_ofLetter? hbegins')
    | _ => exact hread trivial trivial
  | tag tag =>
    cases other with
    | frame sprite length => cases hbegins.2.1.symm.trans hbegins'
    | _ => exact hread trivial trivial
  | frame sprite length =>
    cases other with
    | separator => exact absurd hbegins' (Token.ne_separator_of_ofLetter? hbegins)
    | tag tag => cases hbegins'.2.1.symm.trans hbegins
    | frame sprite' length' => exact h.unique_frame h' hsame hrest hrest'

/-- A text is spelled by one row of tokens. -/
theorem Spelling.unique {tokens : List Token} {text : List Char} (h : Spelling tokens text) :
    ∀ {others : List Token}, Spelling others text → tokens = others := by
  induction h with
  | nil =>
    intro others h'
    generalize hnil : ([] : List Char) = text at h'
    cases h' with
    | nil => rfl
    | cons head tail =>
      obtain ⟨c, more, rfl, _⟩ := head.exists_eq_cons
      cases hnil
  | @cons token tokens first rest head tail ih =>
    intro others h'
    generalize htext : first ++ rest = text at h'
    cases h' with
    | nil =>
      obtain ⟨c, more, rfl, _⟩ := head.exists_eq_cons
      cases htext
    | cons head' tail' =>
      obtain ⟨rfl, rfl⟩ := head.unique head' htext tail.startsAt tail'.startsAt
      rw [ih tail']

theorem Spelling.append {tokens others : List Token} {text other : List Char}
    (h : Spelling tokens text) (h' : Spelling others other) :
    Spelling (tokens ++ others) (text ++ other) := by
  induction h with
  | nil => exact h'
  | cons head tail ih =>
    rw [List.cons_append, List.append_assoc]
    exact .cons head ih

/-! ## What does not count -/

/-- Separators mean nothing. -/
theorem framesOf_filter (tokens : List Token) :
    ∀ pending : List Tag,
      framesOf pending (tokens.filter (· ≠ .separator)) = framesOf pending tokens := by
  induction tokens with
  | nil => intro pending; rfl
  | cons token tokens ih =>
    intro pending
    cases token with
    | separator => exact ih pending
    | tag tag => exact ih (pending ++ [tag])
    | frame sprite length =>
      show framesOf pending (.frame sprite length :: tokens.filter (· ≠ .separator)) = _
      simp only [framesOf, ih]

/-- What a text denotes is read off the row of tokens that spells it. -/
theorem denotes_iff_of_spelling {tokens : List Token} {text : List Char}
    (h : Spelling tokens text)
    {s : Script} :
    Denotes text s ↔
      (framesOf [] tokens).2 = [] ∧ Script.ofFrames (framesOf [] tokens).1 = .ok s := by
  refine ⟨?_, ?_⟩
  · intro h'
    obtain ⟨others, hspell, hmeaning⟩ := h'
    rw [h.unique hspell]
    exact hmeaning
  · intro hmeaning
    exact ⟨tokens, h, hmeaning⟩

/-- Texts of the same tokens, separators aside, denote the same scripts. -/
theorem denotes_congr {tokens others : List Token} {text other : List Char}
    (h : Spelling tokens text) (h' : Spelling others other)
    (heq : tokens.filter (· ≠ .separator) = others.filter (· ≠ .separator)) {s : Script} :
    Denotes text s ↔ Denotes other s := by
  rw [denotes_iff_of_spelling h, denotes_iff_of_spelling h', ← framesOf_filter tokens, heq,
    framesOf_filter others]

theorem not_digit_of_mem_code (kind : Kind) : ∀ c ∈ kind.code, c.isDigit = false := by
  have hall : kind.code.all (fun c => c.isDigit == false) = true := by
    cases kind <;> rfl
  intro c hmem
  exact beq_iff_eq.mp (List.all_eq_true.mp hall c hmem)

theorem not_digit_of_ofLetter? {c : Char} {sprite : Nat}
    (h : Sprite.ofLetter? c = some sprite) : c.isDigit = false :=
  Numeral.head?_not_digit (startsAt_letter h [])

/-- The digits at the end of a text are where they are. -/
theorem append_inj_of_digits {front run : List Char} (front' run' : List Char)
    (h : front ++ run = front' ++ run')
    (hfront : ∀ c ∈ front, c.isDigit = false) (hfront' : ∀ c ∈ front', c.isDigit = false)
    (hrun : IsNumeral run) (hrun' : ∀ c ∈ run', c.isDigit = true) :
    front = front' ∧ run = run' := by
  have hfilter : ∀ {a b : List Char}, (∀ c ∈ a, c.isDigit = false) →
      (∀ c ∈ b, c.isDigit = true) →
      (a ++ b).filter Char.isDigit = b := by
    intro a b ha hb
    have hnone : a.filter Char.isDigit = [] := by
      rw [List.filter_eq_nil_iff]
      intro c hc
      rw [ha c hc]
      exact Bool.false_ne_true
    rw [List.filter_append, hnone, List.nil_append, List.filter_eq_self]
    exact hb
  have hsame : run = run' := by
    rw [← hfilter hfront hrun.2, h, hfilter hfront' hrun']
  rw [hsame] at h
  exact ⟨List.append_cancel_right h, hsame⟩

/-- A zero in front of the digits of a token spells the same token. -/
theorem Token.Spelling.zero {token : Token} {front digits : List Char}
    (h : token.Spelling (front ++ digits)) (hdigits : IsNumeral digits)
    (hfront : ∀ c ∈ front, c.isDigit = false) : token.Spelling (front ++ '0' :: digits) := by
  -- a text without digits does not end in a numeral
  have hnone : ∀ {text : List Char}, front ++ digits = text →
      (∀ c ∈ text, c.isDigit = false) → False := by
    intro text heq htext
    refine hdigits.1 (append_inj_of_digits text [] ?_ hfront htext hdigits ?_).2
    · rw [heq, List.append_nil]
    · intro c hc
      cases hc
  cases token with
  | separator =>
    generalize heq : front ++ digits = text at h
    cases h
    exact absurd (hnone heq (List.forall_mem_singleton.mpr rfl)) id
  | frame sprite length =>
    obtain ⟨c, run, heq, letter, numeral, rfl⟩ := Token.spelling_frame_iff.mp h
    obtain ⟨rfl, rfl⟩ := append_inj_of_digits [c] run heq hfront
      (by simpa using not_digit_of_ofLetter? letter) hdigits numeral.2
    exact Token.spelling_frame_iff.mpr ⟨c, '0' :: digits, rfl, letter,
      Numeral.isNumeral_zero_cons numeral, Numeral.ofDigitChars_zero_cons digits⟩
  | tag tag =>
    rw [spelling_tag_iff] at h ⊢
    obtain ⟨kind, value⟩ := tag
    cases value with
    | none => exact absurd (hnone h.2 (not_digit_of_mem_code kind)) id
    | some v =>
      obtain ⟨htaken, number, heq, hwritten, hbare⟩ := h
      obtain ⟨sign, run, rfl, hrun, hsign, hzero, hdigit⟩ := hwritten.exists_eq_append
      have hpre : ∀ c ∈ kind.code ++ sign, c.isDigit = false := by
        intro c hc
        rcases List.mem_append.mp hc with hcode | hin
        · exact not_digit_of_mem_code kind c hcode
        · exact hsign c hin
      obtain ⟨rfl, rfl⟩ :=
        append_inj_of_digits _ _ (heq.trans (List.append_assoc ..).symm) hfront hpre hdigits
          hrun.2
      exact ⟨htaken, sign ++ '0' :: digits, List.append_assoc .., hzero,
        fun h => hdigit (hbare h)⟩

/-- A plus sign in front of a number without a sign spells the same tag, unless it would
belong to the code of a step. -/
theorem Token.Spelling.signed {kind : Kind} {v : Int32} {digits : List Char}
    (h : Token.Spelling (.tag ⟨kind, some v⟩) (kind.code ++ digits))
    (hdigits : IsNumeral digits)
    (hbare : kind.bareAxis = false) :
    Token.Spelling (.tag ⟨kind, some v⟩) (kind.code ++ '+' :: digits) := by
  rw [spelling_tag_iff] at h
  obtain ⟨htaken, number, heq, hwritten, _⟩ := h
  obtain rfl : digits = number := List.append_cancel_left heq
  cases hwritten with
  | unsigned numeral same => exact .plus htaken hbare numeral same
  | plus => exact absurd (hdigits.2 '+' (List.mem_cons_self ..)) (by decide)
  | minus => exact absurd (hdigits.2 '-' (List.mem_cons_self ..)) (by decide)

/-- One text is another one with a separator between two of its tokens, a zero in front of
the digits of a token, or a plus sign in front of the number of a tag. -/
inductive Respelled : List Char → List Char → Prop where
  | separator {before after : List Token} {a b : List Char}
      (front : Spelling before a) (back : Spelling after b) :
      Respelled (a ++ b) (a ++ Text.separator :: b)
  | zero {before after : List Token} {a b : List Char} {token : Token}
      {start digits : List Char}
      (front : Spelling before a) (back : Spelling after b)
      (spelled : token.Spelling (start ++ digits))
      (numeral : IsNumeral digits) (first : ∀ c ∈ start, c.isDigit = false) :
      Respelled (a ++ ((start ++ digits) ++ b)) (a ++ ((start ++ '0' :: digits) ++ b))
  | plus {before after : List Token} {a b : List Char} {kind : Kind} {v : Int32}
      {digits : List Char}
      (front : Spelling before a) (back : Spelling after b)
      (spelled : Token.Spelling (.tag ⟨kind, some v⟩) (kind.code ++ digits))
      (numeral : IsNumeral digits) (unambiguous : kind.bareAxis = false) :
      Respelled (a ++ ((kind.code ++ digits) ++ b)) (a ++ ((kind.code ++ '+' :: digits) ++ b))

theorem denotes_iff_of_respelled {text other : List Char} (h : Respelled text other)
    {s : Script} : Denotes text s ↔ Denotes other s := by
  cases h with
  | separator front back =>
    refine denotes_congr (front.append back) (front.append (.cons .separator back)) ?_
    rw [List.filter_append, List.filter_append]
    rfl
  | zero front back spelled numeral first =>
    exact denotes_congr (front.append (.cons spelled back))
      (front.append (.cons (spelled.zero numeral first) back)) rfl
  | plus front back spelled numeral unambiguous =>
    exact denotes_congr (front.append (.cons spelled back))
      (front.append (.cons (spelled.signed numeral unambiguous) back)) rfl

/-! ## The reader and the language -/

/-- The texts that `decode` accepts are the rows of spelled tokens with a frame and no tag
behind the last one, whose running totals the clock can hold. It answers the frames of the
row, each with the tags since the frame before it, and the running totals; and it answers
the same to a respelled text. -/
theorem decode_eq_ok_iff_denotes (text : String) (s : Script) :
    (decode text = .ok s ↔
      ∃ tokens, Spelling tokens text.toList ∧ framesOf [] tokens = (s.frames, []) ∧
        s.frames ≠ [] ∧
        s.ends = Script.totals s.frames ∧ ∀ finish ∈ s.ends, finish ≤ Tick.last) ∧
    ∀ other : String, Respelled text.toList other.toList →
      (decode text = .ok s ↔ decode other = .ok s) := by
  unfold decode
  refine ⟨?_, ?_⟩
  · rw [decodeChars_eq_ok_iff]
    unfold Denotes
    refine exists_congr fun tokens => and_congr_right fun _ => ?_
    rw [Script.ofFrames_eq_ok_iff]
    refine ⟨?_, ?_⟩
    · intro h
      obtain ⟨hleft, hne, hframes, hends⟩ := h
      rw [← hframes] at hne hends
      exact ⟨Prod.ext hframes.symm hleft, hne, Script.endsFrom_zero_eq_some_iff.mp hends⟩
    · intro h
      obtain ⟨hframes, hne, hends⟩ := h
      rw [hframes]
      exact ⟨rfl, hne, rfl, Script.endsFrom_zero_eq_some_iff.mpr hends⟩
  · intro other h
    rw [decodeChars_eq_ok_iff, decodeChars_eq_ok_iff]
    exact denotes_iff_of_respelled h

/-- A plus sign in front of a blend level leaves the script as it was. -/
theorem decode_signed_blend_level :
    Respelled "bs10A5".toList "bs+10A5".toList ∧
      decode "bs10A5" = .ok ⟨[⟨0, 5, [⟨.blendStart, some 10⟩]⟩], [5]⟩ ∧
      decode "bs+10A5" = .ok ⟨[⟨0, 5, [⟨.blendStart, some 10⟩]⟩], [5]⟩ := by
  have hten : IsNumeral ['1', '0'] := Numeral.isNumeral_digits 10
  have hfive : IsNumeral ['5'] := Numeral.isNumeral_digits 5
  have htag :
      Token.Spelling (.tag ⟨.blendStart, some 10⟩) (Kind.blendStart.code ++ ['1', '0']) :=
    .unsigned (by decide) hten (by decide)
  have hframe : Spelling [.frame 0 5] ['A', '5'] := .cons (.frame (by decide) hfive) .nil
  have hrespelled : Respelled "bs10A5".toList "bs+10A5".toList :=
    .plus .nil hframe htag hten rfl
  have hplain : decode "bs10A5" = .ok ⟨[⟨0, 5, [⟨.blendStart, some 10⟩]⟩], [5]⟩ := by
    refine (decode_eq_ok_iff_denotes _ _).1.mpr ⟨_, .cons htag hframe, ?_⟩
    decide
  exact ⟨hrespelled, hplain, ((decode_eq_ok_iff_denotes _ _).2 _ hrespelled).mp hplain⟩

end Flipbook.Text
