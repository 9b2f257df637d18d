import Flipbook.Proofs.Script.Intervals
import Flipbook.Proofs.Text.Lookahead
import Flipbook.Proofs.Text.Meaning

/-!
# Joining texts

Main statement: `decode_append`. A text that is accepted, with another one behind it,
stands for the frames of both, and a separator at the seam makes no difference. Only the
clock can stand in the way, and then the fault is where the length of the frame stands
with which the totals run past its last tick.

A row of tokens carries everything over the seam. The rows of two texts, one behind the
other, spell the two texts together, so neither a number nor a code can be read across the
seam; an accepted text leaves no tag waiting; and adding up goes on from the last total
(`foldlM_add?`). Where the totals run past the clock, the row is cut in front of the frame
that is too long (`Draft.exists_of_foldlM_eq_none`), and what stands before it is taken
(`Spelling.takes`).
-/

namespace Flipbook.Text

/-! ## Rows one behind the other -/

/-- Tags that are left at the end of a row wait for the row behind it. -/
theorem framesOf_append (tokens others : List Token) :
    ∀ pending : List Tag, framesOf pending (tokens ++ others) =
      ((framesOf pending tokens).1 ++ (framesOf (framesOf pending tokens).2 others).1,
        (framesOf (framesOf pending tokens).2 others).2) := by
  induction tokens with
  | nil => exact fun pending => rfl
  | cons token tokens ih =>
    intro pending
    cases token with
    | separator => exact ih pending
    | tag tag => exact ih (pending ++ [tag])
    | frame sprite length =>
      rw [List.cons_append]
      simp only [framesOf, ih, List.cons_append]

/-- A row that is cut anywhere cuts the text. -/
theorem Spelling.exists_append {tokens others : List Token} :
    ∀ {text : List Char}, Spelling (tokens ++ others) text →
      ∃ front rest, text = front ++ rest ∧ Spelling tokens front ∧ Spelling others rest := by
  induction tokens with
  | nil => exact fun {text} h => ⟨[], text, rfl, .nil, h⟩
  | cons token tokens ih =>
    intro text h
    cases h with
    | cons head tail =>
      obtain ⟨front, rest, rfl, hfront, hrest⟩ := ih tail
      exact ⟨_, rest, (List.append_assoc ..).symm, .cons head hfront, hrest⟩

/-- A spelled front that fits into a draft is taken, if what stands behind it is
spelled as well. -/
theorem Spelling.takes {tokens others : List Token} {front rest : List Char}
    (h : Spelling tokens front) (hrest : Spelling others rest) :
    ∀ {d last : Draft}, tokens.foldlM Draft.add? d = some last →
      Draft.Takes rest d front last := by
  induction h with
  | nil =>
    intro d last hfold
    cases hfold
    exact .nil
  | @cons token tokens first front head tail ih =>
    intro d last hfold
    rw [List.foldlM_cons] at hfold
    obtain ⟨next, hadd, hfold⟩ := Option.bind_eq_some_iff.mp hfold
    obtain ⟨c, more, rfl, _⟩ := head.exists_eq_cons
    exact .cons head (Token.stops_of_startsAt (tail.append hrest).startsAt token) hadd
      (ih hfold)

/-- Fronts of one text that are spelled by the same row are the same. -/
theorem Spelling.eq_of_append {tokens others others' : List Token}
    {front rest rest' : List Char}
    (h : Spelling tokens front) (hrest : Spelling others rest)
    (hrest' : Spelling others' rest') :
    ∀ {front' : List Char}, Spelling tokens front' → front ++ rest = front' ++ rest' →
      front = front' := by
  induction h with
  | nil =>
    intro front' h' _
    cases h'
    rfl
  | cons head tail ih =>
    intro front' h' heq
    cases h' with
    | cons head' tail' =>
      rw [List.append_assoc, List.append_assoc] at heq
      have hone := (tail.append hrest).startsAt
      have hother := (tail'.append hrest').startsAt
      obtain ⟨_, hmore⟩ := head.unique head' heq hone hother
      rw [hmore] at heq
      rw [List.append_cancel_right heq, ih tail' hmore]

/-! ## Where a length is written -/

/-- In the text, the digits of the length of the frame with this index begin behind so
many bytes. Before its letter there stand the tokens of the frames with lower indices,
and its own tags. -/
def LengthAt (text : List Char) (index offset : Nat) : Prop :=
  ∃ before after front letter digits rest,
    text = front ++ letter :: (digits ++ rest) ∧ Spelling before front ∧
      (framesOf [] before).1.length = index ∧ (Sprite.ofLetter? letter).isSome = true ∧
      IsNumeral digits ∧ Spelling after rest ∧ offset = byteLength front + 1

theorem length_framesOf_lt (before after : List Token) (sprite length : Nat) :
    (framesOf [] before).1.length <
      (framesOf [] (before ++ .frame sprite length :: after)).1.length := by
  rw [framesOf_append, List.length_append]
  simp only [framesOf, List.length_cons]
  omega

/-- A row is cut in front of the frame with a given index at one place only. -/
theorem eq_of_cut {before after before' after' : List Token}
    {sprite length sprite' length' : Nat}
    (h : before ++ .frame sprite length :: after = before' ++ .frame sprite' length' :: after')
    (hindex : (framesOf [] before).1.length = (framesOf [] before').1.length) :
    before = before' ∧ after = after' := by
  rcases List.append_eq_append_iff.mp h
    with ⟨between, hbefore, hrest⟩ | ⟨between, hbefore, hrest⟩
  · cases between with
    | nil =>
      rw [List.nil_append, List.cons.injEq] at hrest
      exact ⟨by rw [hbefore, List.append_nil], hrest.2⟩
    | cons token between =>
      rw [List.cons_append, List.cons.injEq] at hrest
      have hlt := length_framesOf_lt before between sprite length
      rw [hrest.1, ← hbefore] at hlt
      omega
  · cases between with
    | nil =>
      rw [List.nil_append, List.cons.injEq] at hrest
      exact ⟨by rw [hbefore, List.append_nil], hrest.2.symm⟩
    | cons token between =>
      rw [List.cons_append, List.cons.injEq] at hrest
      have hlt := length_framesOf_lt before' between sprite' length'
      rw [hrest.1, ← hbefore] at hlt
      omega

/-- The length of a frame is written at one place. -/
theorem LengthAt.unique {text : List Char} {index offset other : Nat}
    (h : LengthAt text index offset)
    (h' : LengthAt text index other) : offset = other := by
  obtain ⟨before, after, front, letter, digits, rest, rfl, hbefore, rfl, hletter, hdigits,
    hafter, rfl⟩ := h
  obtain ⟨before', after', front', letter', digits', rest', heq, hbefore', hindex, hletter',
    hdigits', hafter', rfl⟩ := h'
  obtain ⟨sprite, hsprite⟩ := Option.isSome_iff_exists.mp hletter
  obtain ⟨sprite', hsprite'⟩ := Option.isSome_iff_exists.mp hletter'
  have htail := Spelling.cons (.frame hsprite hdigits) hafter
  have htail' := Spelling.cons (.frame hsprite' hdigits') hafter'
  have hrow := hbefore.append htail
  rw [List.cons_append, heq] at hrow
  have hrows := hrow.unique (hbefore'.append htail')
  obtain ⟨rfl, _⟩ := eq_of_cut hrows hindex.symm
  rw [hbefore.eq_of_append htail htail' hbefore' heq]

/-! ## Running past the clock -/

namespace Draft

/-- Tokens that cannot all be added are added up to a frame with which the total
runs past the clock. -/
theorem exists_of_foldlM_eq_none {tokens : List Token} :
    ∀ {d : Draft}, tokens.foldlM add? d = none →
      ∃ before sprite length after last, tokens = before ++ .frame sprite length :: after ∧
        before.foldlM add? d = some last ∧ Tick.last < last.ends.headD 0 + length := by
  induction tokens with
  | nil =>
    intro d h
    cases h
  | cons token tokens ih =>
    intro d h
    rw [List.foldlM_cons] at h
    cases hadd : d.add? token with
    | some next =>
      rw [hadd] at h
      obtain ⟨before, sprite, length, after, last, rfl, hfold, hover⟩ := ih h
      refine ⟨token :: before, sprite, length, after, last, rfl, ?_, hover⟩
      rw [List.foldlM_cons, hadd]
      exact hfold
    | none =>
      cases token with
      | separator => cases hadd
      | tag tag => cases hadd
      | frame sprite length =>
        refine ⟨[], sprite, length, tokens, d, rfl, rfl, ?_⟩
        simp only [add?] at hadd
        split at hadd
        next => cases hadd
        next hover => exact Nat.lt_of_not_le hover

/-- The draft that holds all of a script. -/
def full (s : Script) : Draft :=
  ⟨s.frames.reverse, s.ends.reverse, []⟩

theorem headD_full (s : Script) : (full s).ends.headD 0 = s.total := by
  show s.ends.reverse.headD 0 = s.ends.getLast?.getD 0
  rw [List.headD_eq_head?_getD, List.head?_reverse]

/-- The latest end of a draft to which some tokens have been added comes after the ticks
of their frames. -/
theorem headD_of_foldlM {tokens : List Token} {d last : Draft}
    (h : tokens.foldlM add? d = some last) :
    last.ends.headD 0 =
      d.ends.headD 0 + Script.ticks (framesOf d.pending.reverse tokens).1 := by
  rw [foldlM_add?] at h
  obtain ⟨ends, hends, rfl⟩ := Option.map_eq_some_iff.mp h
  rw [← Script.getLast?_endsFrom hends]
  show (ends.reverse ++ d.ends).headD 0 = _
  rw [List.headD_eq_head?_getD, List.head?_append, List.head?_reverse,
    List.headD_eq_head?_getD, Option.getD_or]

end Draft

/-! ## Accepted texts -/

/-- The row of an accepted text has the frames of its script and leaves no tag. -/
theorem exists_row_of_decode {text : String} {s : Script} (h : decode text = .ok s) :
    ∃ tokens, Spelling tokens text.toList ∧ framesOf [] tokens = (s.frames, []) ∧
      tokens.foldlM Draft.add? .empty = some (.full s) := by
  obtain ⟨tokens, hspell, hleft, hframes⟩ := decodeChars_eq_ok_iff.mp h
  obtain ⟨_, hsame, hends⟩ := Script.ofFrames_eq_ok_iff.mp hframes
  refine ⟨tokens, hspell, Prod.ext hsame.symm hleft, ?_⟩
  have hends' : Script.endsFrom (Draft.empty.ends.headD 0)
      (framesOf Draft.empty.pending.reverse tokens).1 = some s.ends := hends
  have hleft' : (framesOf Draft.empty.pending.reverse tokens).2 = [] := hleft
  have hsame' : (framesOf Draft.empty.pending.reverse tokens).1 = s.frames := hsame.symm
  rw [Draft.foldlM_add?, hends', hleft', hsame', Option.map_some]
  simp [Draft.empty, Draft.full]

/-- What the rows of two texts denote together, as far as the clock can hold it. -/
theorem denotes_of_rows {tokens others : List Token} {text : List Char} {s r : Script}
    (hs : s.Valid)
    (hr : r.Valid) (hspell : Spelling (tokens ++ others) text)
    (htokens : framesOf [] tokens = (s.frames, []))
    (hothers : framesOf [] others = (r.frames, []))
    (hfits : s.total + r.total ≤ Tick.last) :
    Denotes text ⟨s.frames ++ r.frames, s.ends ++ r.ends.map (s.total + ·)⟩ := by
  have hframes : framesOf [] (tokens ++ others) = (s.frames ++ r.frames, []) := by
    rw [framesOf_append, htokens, hothers]
  rw [hr.total_eq_ticks] at hfits
  rw [denotes_iff_of_spelling hspell, hframes, Script.ofFrames_eq_ok_iff]
  refine ⟨rfl, List.append_ne_nil_of_left_ne_nil hs.nonempty _, rfl, ?_⟩
  exact Script.endsFrom_append hs.ends (Script.endsFrom_later hr.ends hfits)

/-- The index of a frame of the second script with whose end the totals of two scripts run
past the clock, no earlier one doing so. -/
structure Overflows (s r : Script) (index : Nat) : Prop where
  past : ∃ finish, r.end? index = some finish ∧ Tick.last < s.total + finish
  first : ∀ earlier < index, ∀ finish, r.end? earlier = some finish →
    s.total + finish ≤ Tick.last

/-- Where the row of a script is cut in front of a frame, that frame ends as much later
than the cut as it is long. -/
theorem before_of_framesOf {tokens rest : List Token} {r : Script} {sprite length : Nat}
    (h : framesOf [] (tokens ++ .frame sprite length :: rest) = (r.frames, [])) :
    (framesOf [] tokens).1.length < r.count ∧
      r.before (framesOf [] tokens).1.length = Script.ticks (framesOf [] tokens).1 ∧
      r.before ((framesOf [] tokens).1.length + 1) =
        Script.ticks (framesOf [] tokens).1 + length := by
  have hframes : r.frames = (framesOf [] tokens).1 ++
      ⟨sprite, length, (framesOf [] tokens).2⟩ :: (framesOf [] rest).1 := by
    rw [framesOf_append] at h
    exact (congrArg Prod.fst h).symm
  have hframe : r.frame? (framesOf [] tokens).1.length =
      some ⟨sprite, length, (framesOf [] tokens).2⟩ := by
    rw [Script.frame?, hframes, List.getElem?_append_right (Nat.le_refl _), Nat.sub_self]
    rfl
  have hbefore : r.before (framesOf [] tokens).1.length =
      Script.ticks (framesOf [] tokens).1 := by
    rw [Script.before, hframes, List.take_left]
  refine ⟨(List.getElem?_eq_some_iff.mp hframe).1, hbefore, ?_⟩
  rw [Script.before_succ hframe, hbefore]

/-- If the clock cannot hold the totals of two texts, their frames cannot all be added:
what stands in front of the frame that is too long is taken, and there reading halts. -/
theorem exists_lengthAt_of_overflow {a b : String} {s r : Script} (ha : decode a = .ok s)
    (hb : decode b = .ok r) (hover : Tick.last < s.total + r.total) :
    ∃ index offset, Overflows s r index ∧ LengthAt b.toList index offset ∧
      decode (a ++ b) = .error ⟨.numberOverflow, a.utf8ByteSize + offset⟩ := by
  obtain ⟨tokens, hspell, _, hfold⟩ := exists_row_of_decode ha
  obtain ⟨others, hspell', hothers, _⟩ := exists_row_of_decode hb
  have hr := Script.valid_of_decode hb
  have hs := Script.valid_of_decode ha
  -- the row of the second text cannot be added to the draft of the first one
  have hnone : others.foldlM Draft.add? (.full s) = none := by
    have hle : s.total ≤ Tick.last := by
      rw [hs.total_eq]
      exact hs.before_le_last (Nat.le_refl _)
    have hends : Script.endsFrom ((Draft.full s).ends.headD 0)
        (framesOf (Draft.full s).pending.reverse others).1 = none := by
      show Script.endsFrom _ (framesOf [] others).1 = none
      rw [Draft.headD_full, hothers, Script.endsFrom_eq_none_iff hle, ← hr.total_eq_ticks]
      exact hover
    rw [Draft.foldlM_add?, hends]
    rfl
  obtain ⟨before, sprite, length, after, last, rfl, hbefore, hlong⟩ :=
    Draft.exists_of_foldlM_eq_none hnone
  obtain ⟨front, rest, htext, hfront, hrest⟩ := hspell'.exists_append
  obtain ⟨hindex, hstart, hend⟩ := before_of_framesOf hothers
  have htotal : last.ends.headD 0 = s.total + Script.ticks (framesOf [] before).1 := by
    rw [Draft.headD_of_foldlM hbefore, Draft.headD_full]
    rfl
  have hwhole : (tokens ++ before).foldlM Draft.add? .empty = some last := by
    rw [List.foldlM_append, hfold]
    exact hbefore
  have htakes := (hspell.append hfront).takes hrest hwhole
  cases hrest with
  | @cons _ _ first rest head tail =>
    obtain ⟨letter, digits, rfl, hletter, hdigits, rfl⟩ := Token.spelling_frame_iff.mp head
    have hstops := Numeral.head?_not_digit tail.startsAt
    refine ⟨(framesOf [] before).1.length, byteLength front + 1,
      ⟨⟨_, hr.end?_eq hindex, ?_⟩, ?_⟩,
      ⟨before, after, front, letter, digits, rest, htext, hfront, rfl, ?_, hdigits, tail, rfl⟩,
      ?_⟩
    · omega
    · intro earlier hlt finish hfinish
      obtain ⟨_, rfl⟩ := hr.end?_eq_some_iff.mp hfinish
      have hmono := r.before_mono (i := earlier + 1) hlt
      have htime : last.ends.headD 0 ≤ Tick.last := htakes.inTime (Nat.zero_le _)
      omega
    · rw [hletter]
      rfl
    · have hskipped : letter :: (digits ++ rest) = [letter] ++ (digits ++ rest) := rfl
      have hfault :=
        Draft.decodeChars_eq_error htakes (.length hletter hdigits hstops hlong) hskipped
      have hone : byteLength [letter] = 1 := by
        have hle := (Sprite.of_ofLetter?_eq_some hletter).2.1
        exact Char.utf8Size_eq_one_iff.mpr (UInt32.le_trans hle (by decide))
      rw [byteLength_append, byteLength_append, hone, ← utf8ByteSize_eq, Nat.add_assoc]
        at hfault
      rw [decode, String.toList_append, htext, ← List.append_assoc]
      exact hfault

/-- A text that is accepted with another one behind it is accepted, with or without a
separator between them, as the script of the frames of both, those of the second one later
by the length of the first. If the clock cannot hold the totals, it is refused, and the
fault stands where the second text has the length of the first frame that ends too late. -/
theorem decode_append {a b : String} {s r : Script} (ha : decode a = .ok s)
    (hb : decode b = .ok r) :
    (s.total + r.total ≤ Tick.last →
      ∃ joined, decode (a ++ b) = .ok joined ∧ decode (a ++ "-" ++ b) = .ok joined ∧
        joined.frames = s.frames ++ r.frames ∧
          joined.ends = s.ends ++ r.ends.map (s.total + ·)) ∧
    (Tick.last < s.total + r.total →
      ∃ index offset, Overflows s r index ∧
        (∀ place, LengthAt b.toList index place ↔ place = offset) ∧
        decode (a ++ b) = .error ⟨.numberOverflow, a.utf8ByteSize + offset⟩) := by
  refine ⟨?_, ?_⟩
  · intro hfits
    obtain ⟨tokens, hspell, htokens, _⟩ := exists_row_of_decode ha
    obtain ⟨others, hspell', hothers, _⟩ := exists_row_of_decode hb
    have hs := Script.valid_of_decode ha
    have hr := Script.valid_of_decode hb
    refine ⟨⟨s.frames ++ r.frames, s.ends ++ r.ends.map (s.total + ·)⟩, ?_, ?_, rfl, rfl⟩
    · rw [decode, String.toList_append, decodeChars_eq_ok_iff]
      exact denotes_of_rows hs hr (hspell.append hspell') htokens hothers hfits
    · rw [decode, String.toList_append, String.toList_append, decodeChars_eq_ok_iff,
        List.append_assoc]
      -- the separator adds a token that means nothing
      exact denotes_of_rows hs hr (hspell.append (.cons .separator hspell')) htokens
        hothers hfits
  · intro hover
    obtain ⟨index, offset, hindex, hplace, hfault⟩ := exists_lengthAt_of_overflow ha hb hover
    refine ⟨index, offset, hindex, ?_, hfault⟩
    intro place
    constructor
    · intro h
      exact h.unique hplace
    · intro h
      rw [h]
      exact hplace

/-- A frame that takes the clock's whole time leaves room for a frame of no length, but
not for the next one, whose length stands behind six bytes of its text. -/
theorem decode_append_past_clock :
    decode "A4294967295" = .ok ⟨[⟨0, 4294967295, []⟩], [4294967295]⟩ ∧
      decode "B0-s1C2" = .ok ⟨[⟨1, 0, []⟩, ⟨2, 2, [⟨.sound, some 1⟩]⟩], [0, 2]⟩ ∧
      decode ("A4294967295" ++ "B0-s1C2") = .error ⟨.numberOverflow, 11 + 6⟩ := by
  have hlong : Spelling [.frame 0 4294967295] "A4294967295".toList :=
    .cons (.frame (by decide) (Numeral.isNumeral_digits 4294967295)) .nil
  have htag : Token.Spelling (.tag ⟨.sound, some 1⟩) (Tag.Kind.sound.code ++ ['1']) :=
    .unsigned (by decide) (Numeral.isNumeral_digits 1) rfl
  have hframe : Token.Spelling (.frame 1 0) ['B', '0'] :=
    .frame (by decide) (Numeral.isNumeral_digits 0)
  have hlast : Spelling [.frame 2 2] ['C', '2'] :=
    .cons (.frame (by decide) (Numeral.isNumeral_digits 2)) .nil
  have hone : decode "A4294967295" = .ok ⟨[⟨0, 4294967295, []⟩], [4294967295]⟩ :=
    decodeChars_eq_ok_iff.mpr ⟨_, hlong, rfl, rfl⟩
  have hother : decode "B0-s1C2" = .ok ⟨[⟨1, 0, []⟩, ⟨2, 2, [⟨.sound, some 1⟩]⟩], [0, 2]⟩ :=
    decodeChars_eq_ok_iff.mpr ⟨_, .cons hframe (.cons .separator (.cons htag hlast)), rfl, rfl⟩
  obtain ⟨index, offset, hindex, hplace, hfault⟩ := (decode_append hone hother).2 (by decide)
  -- the frame of no length ends in time
  obtain rfl : index = 1 := by
    obtain ⟨finish, hend, hpast⟩ := hindex.past
    match index with
    | 0 =>
      obtain rfl : 0 = finish := Option.some.inj hend
      exact absurd hpast (by decide)
    | 1 => rfl
    | index + 2 => cases hend
  have hsix : LengthAt "B0-s1C2".toList 1 6 :=
    ⟨_, [], _, 'C', ['2'], [], rfl, .cons hframe (.cons .separator (.cons htag .nil)),
      rfl, rfl, Numeral.isNumeral_digits 2, .nil, rfl⟩
  rw [← (hplace 6).mp hsix] at hfault
  exact ⟨hone, hother, hfault⟩

end Flipbook.Text
