import Flipbook.Proofs.Text.Language

/-!
# How reading ends in a fault

Main statement: `Draft.read_eq_error_iff`. A text is refused exactly if reading takes
tokens off its front (`Draft.Takes`) and then stands where it `Halts`. The ways of halting
are listed with the place of the fault in each of them; the list is the other half of the
language, whose texts are all taken to the end.

A fault does not spoil what was read before it. Whatever reading has halted at, a few
characters put in the place of the rest make a text that is accepted
(`Draft.Halts.exists_completion`).
-/

namespace Flipbook.Text

open Tag (Kind)
open Numeral (Signed startsAt)

/-- What may be written in the place of a fault, so that the text is complete. -/
def Reason.completion : Reason → List Char
  | .invalidTag | .danglingTags | .emptyScript => ['A', '0']
  | .missingLength => ['0']
  | .missingParameter | .numberOverflow => ['0', 'A', '0']

namespace Draft

/-- The places at which reading stops without a script, and the fault that it reports there. -/
inductive Halts (d : Draft) : List Char → Fault → Prop where
  | dangling (left : d.pending ≠ []) : Halts d [] ⟨.danglingTags, []⟩
  | empty (taken : d.pending = []) (frameless : d.frames = []) : Halts d [] ⟨.emptyScript, []⟩
  /-- No token begins with the character. -/
  | stray {c : Char} {text : List Char} (joins : c ≠ Text.separator)
      (letterless : Sprite.ofLetter? c = none)
      (codeless : c.isLower = true → ∀ kind : Kind, ¬ kind.code <+: c :: text) :
      Halts d (c :: text) ⟨.invalidTag, c :: text⟩
  /-- The longest code cannot stand there. -/
  | misfit {kind : Kind} {after : List Char} (longest : kind.Longest (kind.code ++ after))
      (refused : fits kind after = false) :
      Halts d (kind.code ++ after)
        ⟨if kind.parameter = .required then .missingParameter else .invalidTag, after⟩
  /-- The number of a tag has no 32-bit value. -/
  | value {kind : Kind} {negative : Bool} {run number rest : List Char}
      (taken : kind.parameter ≠ .none)
      (unambiguous : kind.bareAxis = true → number.head?.any Char.isDigit = true)
      (numeral : IsNumeral run) (signed : Signed negative run number)
      (stops : rest.head?.any Char.isDigit = false)
      (exceeds :
        Numeral.value? (Numeral.signedNumber negative (Nat.ofDigitChars 10 run 0)) = none) :
      Halts d (kind.code ++ (number ++ rest)) ⟨.numberOverflow, number ++ rest⟩
  | unnumbered {c : Char} {sprite : Nat} {text : List Char}
      (letter : Sprite.ofLetter? c = some sprite)
      (digitless : text.head?.any Char.isDigit = false) :
      Halts d (c :: text) ⟨.missingLength, text⟩
  /-- The clock cannot hold the length, or the total with it. -/
  | length {c : Char} {sprite : Nat} {run rest : List Char}
      (letter : Sprite.ofLetter? c = some sprite) (numeral : IsNumeral run)
      (stops : rest.head?.any Char.isDigit = false)
      (exceeds : Tick.last < d.ends.headD 0 + Nat.ofDigitChars 10 run 0) :
      Halts d (c :: (run ++ rest)) ⟨.numberOverflow, run ++ rest⟩

variable {d next last : Draft} {text rest front : List Char} {fault : Fault}

/-! ## Halting -/

/-- A tag that cannot be read halts reading. -/
theorem halts_of_readTag {c : Char} (hletter : Sprite.ofLetter? c = none)
    (hsep : c ≠ Text.separator)
    (h : readTag (c :: text) = .error fault) : d.Halts (c :: text) fault := by
  cases hc : (Kind.candidates (c :: text)).head? with
  | none =>
    rw [List.head?_eq_none_iff, Kind.candidates_eq_nil_iff] at hc
    rw [readTag_of_no_code hc] at h
    cases h
    exact .stray hsep hletter fun _ => hc
  | some kind =>
    have hlongest := Kind.head?_candidates_eq_some_iff.mp hc
    obtain ⟨after, htext⟩ := hlongest.starts
    rw [← htext] at h hlongest ⊢
    cases hfits : fits kind after with
    | false =>
      rw [readTag_of_not_fits hlongest (by rwa [List.drop_left]), List.drop_left] at h
      cases h
      exact .misfit hlongest hfits
    | true =>
      rw [readTag_of_fits hlongest (by rwa [List.drop_left]), List.drop_left] at h
      split at h
      next hstart =>
        obtain ⟨negative, run, number, rest, rfl, hrun, hsigned, hstops⟩ :=
          Numeral.exists_of_startsAt hstart
        rw [hsigned.readValue_append hrun hstops] at h
        split at h
        next => cases h
        next hover =>
          cases h
          refine .value ((fits_of_startsAt hstart).mp hfits) ?_ hrun hsigned hstops hover
          intro haxis
          have hdigit := head?_digit_of_longest hlongest haxis hstart
          obtain ⟨c, more, rfl⟩ := List.exists_cons_of_ne_nil (hsigned.ne_nil hrun)
          exact hdigit
      next => cases h

/-- A token that cannot be read halts reading. -/
theorem halts_of_read {c : Char} (h : Token.read c text = .error fault) :
    d.Halts (c :: text) fault := by
  unfold Token.read at h
  split at h
  next => cases h
  next hsep =>
    cases hletter : Sprite.ofLetter? c with
    | some sprite =>
      rw [hletter] at h
      simp only [readFrame, Numeral.readLength_eq] at h
      cases hs : Numeral.splitDigits? text with
      | none =>
        rw [hs] at h
        cases h
        exact .unnumbered hletter (Numeral.splitDigits?_eq_none_iff.mp hs)
      | some split =>
        obtain ⟨length, rest⟩ := split
        rw [hs] at h
        obtain ⟨run, hrun, rfl, rfl, hstops⟩ := Numeral.exists_of_splitDigits? hs
        by_cases hle : Nat.ofDigitChars 10 run 0 ≤ Tick.last
        · simp only [if_pos hle] at h
          cases h
        · simp only [if_neg hle] at h
          cases h
          have hover : Tick.last < d.ends.headD 0 + Nat.ofDigitChars 10 run 0 := by omega
          exact .length hletter hrun hstops hover
    | none =>
      rw [hletter] at h
      simp only at h
      split at h
      next =>
        cases ht : readTag (c :: text) with
        | error e =>
          rw [ht] at h
          cases h
          exact halts_of_readTag hletter hsep ht
        | ok => rw [ht] at h; cases h
      next hlower =>
        cases h
        exact .stray hsep hletter fun hyes => absurd hyes hlower

theorem halts_of_close {reason : Reason} (h : d.close = .error reason) :
    d.Halts [] ⟨reason, []⟩ := by
  obtain ⟨frames, ends, pending⟩ := d
  cases pending with
  | cons tag pending =>
    cases h
    exact .dangling (List.cons_ne_nil tag pending)
  | nil =>
    cases frames with
    | nil =>
      cases h
      exact .empty rfl rfl
    | cons f frames => cases h

/-- A frame that the clock cannot hold halts reading. -/
theorem halts_of_add? {c : Char} {token : Token}
    (hread : Token.read c text = .ok (token, rest))
    (hadd : d.add? token = none) : d.Halts (c :: text) ⟨.numberOverflow, text⟩ := by
  cases token with
  | separator => cases hadd
  | tag tag => cases hadd
  | frame sprite length =>
    obtain ⟨first, hspelled, htext, hstops⟩ := Token.exists_of_read hread
    obtain ⟨c', run, rfl, hletter, hrun, rfl⟩ := Token.spelling_frame_iff.mp hspelled
    rw [List.cons_append, List.cons.injEq] at htext
    obtain ⟨rfl, rfl⟩ := htext
    refine .length hletter hrun hstops ?_
    simp only [add?] at hadd
    split at hadd
    next => cases hadd
    next hover => exact Nat.lt_of_not_le hover

theorem read_of_readTag {kind : Kind} {after : List Char}
    (h : readTag (kind.code ++ after) = .error fault) :
    d.read (kind.code ++ after) = .error fault := by
  obtain ⟨c, tail, hcode, hread⟩ := Token.exists_read_code kind after
  rw [h] at hread
  rw [hcode, List.cons_append, read_cons, hread]
  rfl

/-- Where reading halts, it reports the fault. -/
theorem Halts.read_eq (h : d.Halts text fault) : d.read text = .error fault := by
  cases h with
  | dangling left =>
    have hclose : d.close = .error .danglingTags := by simp [close, left]
    rw [read, hclose]
    rfl
  | empty taken frameless =>
    have hclose : d.close = .error .emptyScript := by simp [close, taken, frameless]
    rw [read, hclose]
    rfl
  | @stray c text joins letterless codeless =>
    have hread : Token.read c text = .error ⟨.invalidTag, c :: text⟩ := by
      unfold Token.read
      rw [if_neg joins, letterless]
      simp only
      split
      next hlower => rw [readTag_of_no_code (codeless hlower)]; rfl
      next => rfl
    rw [read_cons, hread]
  | @misfit kind after longest refused =>
    refine read_of_readTag ?_
    rw [readTag_of_not_fits longest (by rwa [List.drop_left]), List.drop_left]
  | @value kind negative run number rest taken unambiguous numeral signed stops exceeds =>
    have hstart := signed.startsAt_append numeral rest
    have hlongest : kind.Longest (kind.code ++ (number ++ rest)) := by
      refine longest_of_startsAt hstart ?_
      intro haxis
      obtain ⟨c, more, rfl⟩ := List.exists_cons_of_ne_nil (signed.ne_nil numeral)
      exact unambiguous haxis
    refine read_of_readTag ?_
    rw [readTag_of_fits hlongest
      (by rw [List.drop_left]; exact (fits_of_startsAt hstart).mpr taken),
      List.drop_left, if_pos hstart, signed.readValue_append numeral stops, exceeds]
    rfl
  | @unnumbered c sprite text letter digitless =>
    have hread : Token.read c text = .error ⟨.missingLength, text⟩ := by
      unfold Token.read
      rw [if_neg (Token.ne_separator_of_ofLetter? letter), letter]
      simp only [readFrame, Numeral.readLength_eq,
        Numeral.splitDigits?_eq_none_iff.mpr digitless]
    rw [read_cons, hread]
  | @length c sprite run rest letter numeral stops exceeds =>
    have hframe : Token.read c (run ++ rest) = readFrame sprite (run ++ rest) := by
      unfold Token.read
      rw [if_neg (Token.ne_separator_of_ofLetter? letter), letter]
    have hsplit := Numeral.splitDigits?_append numeral stops
    rw [read_cons, hframe, readFrame, Numeral.readLength_eq, hsplit]
    by_cases hle : Nat.ofDigitChars 10 run 0 ≤ Tick.last
    · -- the length is read, and its frame refused
      have hover : ¬ d.ends.headD 0 + Nat.ofDigitChars 10 run 0 ≤ Tick.last :=
        Nat.not_le.mpr exceeds
      simp only [if_pos hle, add?, if_neg hover]
    · simp only [if_neg hle]

/-! ## Taking -/

/-- Reading takes a front off a text into a draft, with `rest` behind it. -/
inductive Takes (rest : List Char) : Draft → List Char → Draft → Prop where
  | nil {d : Draft} : Takes rest d [] d
  | cons {d next last : Draft} {token : Token} {c : Char} {first front : List Char}
      (spelled : token.Spelling (c :: first)) (stops : token.Stops (front ++ rest))
      (added : d.add? token = some next) (more : Takes rest next front last) :
      Takes rest d (c :: first ++ front) last

/-- What is taken does not count for what is read after it. -/
theorem Takes.read_eq (h : Takes rest d front last) :
    d.read (front ++ rest) = last.read rest := by
  induction h with
  | nil => rfl
  | cons spelled stops added _ ih =>
    rw [List.append_assoc, List.cons_append, read_cons,
      Token.read_append spelled (holdable_of_add? added) stops]
    dsimp only
    rw [added]
    exact ih

/-- A text is refused exactly if reading takes its front and halts at the rest. -/
theorem read_eq_error_iff :
    d.read text = .error fault ↔
      ∃ front rest last, text = front ++ rest ∧ Takes rest d front last ∧
        last.Halts rest fault := by
  constructor
  · intro h
    fun_induction read d text with
    | case1 d =>
      cases hclose : d.close with
      | error reason =>
        rw [hclose] at h
        cases h
        exact ⟨[], [], d, rfl, .nil, halts_of_close hclose⟩
      | ok s => rw [hclose] at h; cases h
    | case2 d c text e hread =>
      cases h
      exact ⟨[], c :: text, d, rfl, .nil, halts_of_read hread⟩
    | case3 d c text token rest hread hadd =>
      cases h
      exact ⟨[], c :: text, d, rfl, .nil, halts_of_add? hread hadd⟩
    | case4 d c text token rest hread next hadd ih =>
      obtain ⟨front, rest, last, rfl, htakes, hhalts⟩ := ih h
      obtain ⟨first, hspelled, htext, hstops⟩ := Token.exists_of_read hread
      obtain ⟨c', tail, rfl, _⟩ := hspelled.exists_eq_cons
      rw [List.cons_append, List.cons.injEq] at htext
      obtain ⟨rfl, rfl⟩ := htext
      exact ⟨c :: tail ++ front, rest, last, by simp, .cons hspelled hstops hadd htakes,
        hhalts⟩
  · intro h
    obtain ⟨front, rest, last, rfl, htakes, hhalts⟩ := h
    rw [htakes.read_eq, hhalts.read_eq]

/-! ## Going on after a fault -/

/-- The latest end of a draft is a tick of the clock. -/
def InTime (d : Draft) : Prop :=
  d.ends.headD 0 ≤ Tick.last

theorem inTime_of_add? {token : Token} (h : d.add? token = some next) (hd : d.InTime) :
    next.InTime := by
  cases token with
  | separator => cases h; exact hd
  | tag tag => cases h; exact hd
  | frame sprite length =>
    simp only [add?] at h
    split at h
    next hle => cases h; exact hle
    next => cases h

theorem Takes.inTime (h : Takes rest d front last) (hd : d.InTime) : last.InTime := by
  induction h with
  | nil => exact hd
  | cons _ _ added _ ih => exact ih (inTime_of_add? added hd)

/-- A frame of no length can always be added, and then the draft closes. -/
theorem exists_add?_frame (hd : d.InTime) (sprite : Nat) :
    ∃ next s, d.add? (.frame sprite 0) = some next ∧ next.InTime ∧ next.close = .ok s := by
  have hle : d.ends.headD 0 + 0 ≤ Tick.last := hd
  simp only [add?, if_pos hle]
  exact ⟨_, _, rfl, hle, close_eq_ok_iff.mpr ⟨rfl, List.cons_ne_nil _ _, rfl⟩⟩

theorem isNumeral_zero : IsNumeral ['0'] :=
  Numeral.isNumeral_digits 0

theorem spelling_frame_zero {c : Char} {sprite : Nat}
    (letter : Sprite.ofLetter? c = some sprite) :
    Token.Spelling (.frame sprite 0) [c, '0'] :=
  .frame letter isNumeral_zero

/-- Behind any draft the last of the completions closes it. -/
theorem exists_read_frame (hd : d.InTime) : ∃ s, d.read ['A', '0'] = .ok s := by
  obtain ⟨next, s, hadd, _, hclose⟩ := exists_add?_frame hd 0
  refine ⟨s, read_eq_ok_iff.mpr ⟨[.frame 0 0], next, ?_, ?_, hclose⟩⟩
  · exact .cons (spelling_frame_zero (by decide)) .nil
  · rw [List.foldlM_cons, hadd]
    rfl

/-- A token in front of a text that is read is read as well. -/
theorem read_append_of_add? {token : Token} {first : List Char} {s : Script}
    (spelled : token.Spelling first) (added : d.add? token = some next)
    (h : next.read rest = .ok s) : d.read (first ++ rest) = .ok s := by
  obtain ⟨tokens, last, hspell, hfold, hclose⟩ := read_eq_ok_iff.mp h
  refine read_eq_ok_iff.mpr ⟨token :: tokens, last, .cons spelled hspell, ?_, hclose⟩
  rw [List.foldlM_cons, added]
  exact hfold

/-- What is taken off a front is taken off the same front with any other text behind
it that is read. -/
theorem Takes.read_eq_ok {other : List Char} {s : Script} (h : Takes rest d front last)
    (hread : last.read other = .ok s) : d.read (front ++ other) = .ok s := by
  induction h with
  | nil => exact hread
  | cons spelled _ added _ ih =>
    rw [List.append_assoc]
    exact read_append_of_add? spelled added (ih hread)

/-- Where reading halts, the fault stands a little further on, and its completion in the
place of the rest makes a text that is read to its end. -/
theorem Halts.exists_completion (h : d.Halts text fault) (hd : d.InTime) :
    ∃ skipped s, text = skipped ++ fault.rest ∧
      d.read (skipped ++ fault.reason.completion) = .ok s := by
  have hzero : ∀ {kind : Kind}, kind.parameter ≠ .none →
      ∃ s, d.read (kind.code ++ ['0', 'A', '0']) = .ok s := by
    intro kind htaken
    have hspelled : Token.Spelling (.tag ⟨kind, some 0⟩) (kind.code ++ ['0']) :=
      .unsigned htaken isNumeral_zero rfl
    obtain ⟨s, hread⟩ :=
      exists_read_frame (d := { d with pending := ⟨kind, some 0⟩ :: d.pending }) hd
    refine ⟨s, ?_⟩
    rw [← read_append_of_add? hspelled rfl hread, List.append_assoc]
    rfl
  cases h with
  | dangling =>
    obtain ⟨s, hread⟩ := exists_read_frame hd
    exact ⟨[], s, rfl, hread⟩
  | empty =>
    obtain ⟨s, hread⟩ := exists_read_frame hd
    exact ⟨[], s, rfl, hread⟩
  | stray =>
    obtain ⟨s, hread⟩ := exists_read_frame hd
    exact ⟨[], s, rfl, hread⟩
  | @misfit kind after longest refused =>
    by_cases hrequired : kind.parameter = .required
    · rw [if_pos hrequired]
      have htaken : kind.parameter ≠ .none := by
        rw [hrequired]
        decide
      obtain ⟨s, hread⟩ := hzero htaken
      exact ⟨kind.code, s, rfl, hread⟩
    · rw [if_neg hrequired]
      obtain ⟨s, hread⟩ :=
        exists_read_frame (d := { d with pending := ⟨kind, none⟩ :: d.pending }) hd
      exact ⟨kind.code, s, rfl, read_append_of_add? (.bare hrequired) rfl hread⟩
  | @value kind negative run number rest taken =>
    obtain ⟨s, hread⟩ := hzero taken
    exact ⟨kind.code, s, rfl, hread⟩
  | @unnumbered c sprite text letter =>
    obtain ⟨next, s, hadd, _, hclose⟩ := exists_add?_frame hd sprite
    have hend : next.read [] = .ok s := by
      rw [read, hclose]
      rfl
    have hread : d.read ([c, '0'] ++ []) = .ok s :=
      read_append_of_add? (spelling_frame_zero letter) hadd hend
    exact ⟨[c], s, rfl, hread⟩
  | @length c sprite run rest letter =>
    obtain ⟨next, _, hadd, hnext, _⟩ := exists_add?_frame hd sprite
    obtain ⟨s, hend⟩ := exists_read_frame hnext
    have hread : d.read ([c, '0'] ++ ['A', '0']) = .ok s :=
      read_append_of_add? (spelling_frame_zero letter) hadd hend
    exact ⟨[c], s, rfl, hread⟩

end Draft

end Flipbook.Text
