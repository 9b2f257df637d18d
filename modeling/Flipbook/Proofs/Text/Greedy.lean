import Flipbook.Proofs.Text.Buffer

/-!
# The longest code decides

Main statement: `longest_code_decides`. Reading a tag tries the codes that begin the text,
longest first, and passes over those that cannot stand there. None of the shorter ones is
ever reached with success: if the longest is refused, so are all that it goes on from
(`not_fits_of_longest`). So the text behind the longest code settles whether a tag is
read, of which kind, and where the fault is if none is.
-/

namespace Flipbook.Text

open Tag (Kind)
open Tag.Kind (Longest candidates)
open Numeral (startsAt)

variable {kind : Kind} {text after : List Char}

/-- No tag of this kind can stand before the text: its number is missing, or a number
follows where none may. -/
def Refused (kind : Kind) (after : List Char) : Prop :=
  kind.parameter = .required ∧ startsAt after = false ∨
    kind.parameter = .none ∧ startsAt after = true

theorem fits_eq_false_iff : fits kind after = false ↔ Refused kind after := by
  unfold fits Refused
  cases kind.parameter <;> cases startsAt after <;> decide

/-- The fault of a kind that is refused. -/
def refusalReason (kind : Kind) : Reason :=
  if kind.parameter = .required then .missingParameter else .invalidTag

/-- Where the longest code is not refused, its tag is read or its number is out of range. -/
theorem readTag_of_not_refused (hk : kind.Longest text)
    (h : ¬ Refused kind (text.drop kind.code.length)) :
    (∃ value rest, readTag text = .ok (⟨kind, value⟩, rest)) ∨
      readTag text = .error ⟨.numberOverflow, text.drop kind.code.length⟩ := by
  rw [← fits_eq_false_iff, Bool.not_eq_false] at h
  rw [readTag_of_fits hk h]
  split
  next hstart =>
    obtain ⟨negative, run, number, rest, hnumber, hrun, hsigned, hstops⟩ :=
      Numeral.exists_of_startsAt hstart
    rw [hnumber, hsigned.readValue_append hrun hstops]
    cases Numeral.value? (Numeral.signedNumber negative (Nat.ofDigitChars 10 run 0)) with
    | none => exact Or.inr rfl
    | some v => exact Or.inl ⟨some v, rest, rfl⟩
  next => exact Or.inl ⟨none, _, rfl⟩

/-- A kind that is refused where reading has come to is at fault, right behind its code. -/
theorem Draft.Takes.decodeChars_of_refused {front : List Char} {d : Draft}
    (htakes : Draft.Takes text .empty front d) (hk : kind.Longest text)
    (h : Refused kind (text.drop kind.code.length)) :
    decodeChars (front ++ text) =
      .error ⟨refusalReason kind, byteLength front + kind.code.length⟩ := by
  obtain ⟨after, rfl⟩ := hk.starts
  rw [List.drop_left] at h
  have hhalts : d.Halts (kind.code ++ after) ⟨refusalReason kind, after⟩ :=
    .misfit hk (fits_eq_false_iff.mpr h)
  rw [Draft.decodeChars_eq_error htakes hhalts rfl, byteLength_append,
    (isAscii_code kind).byteLength_eq]

/-- A tag that is read has the longest code that begins the text. If this code is refused,
so is every shorter one, and the fault is that of the longest, right behind it, wherever
in a text reading has come there. If it is not, no other code is tried. -/
theorem longest_code_decides (text : List Char) :
    (∀ tag rest, readTag text = .ok (tag, rest) → (candidates text).head? = some tag.kind) ∧
      ((candidates text).head? = none → readTag text = .error ⟨.invalidTag, text⟩) ∧
      ∀ kind, (candidates text).head? = some kind →
        kind.Longest text ∧
          (Refused kind (text.drop kind.code.length) →
            (∀ other ∈ candidates text, Refused other (text.drop other.code.length)) ∧
              readTag text = .error ⟨refusalReason kind, text.drop kind.code.length⟩ ∧
              ∀ front d, Draft.Takes text .empty front d →
                decodeChars (front ++ text) =
                  .error ⟨refusalReason kind, byteLength front + kind.code.length⟩) ∧
          (¬ Refused kind (text.drop kind.code.length) →
            (∃ value rest, readTag text = .ok (⟨kind, value⟩, rest)) ∨
              readTag text = .error ⟨.numberOverflow, text.drop kind.code.length⟩) := by
  refine ⟨?_, ?_, ?_⟩
  · intro tag rest hread
    obtain ⟨_, _, hlongest, _⟩ := readTag_eq_ok_iff.mp hread
    exact Kind.head?_candidates_eq_some_iff.mpr hlongest
  · intro hnone
    rw [List.head?_eq_none_iff, Kind.candidates_eq_nil_iff] at hnone
    exact readTag_of_no_code hnone
  · intro kind hfirst
    have hlongest := Kind.head?_candidates_eq_some_iff.mp hfirst
    refine ⟨hlongest, ?_, readTag_of_not_refused hlongest⟩
    intro hrefused
    have hmisfit := fits_eq_false_iff.mpr hrefused
    refine ⟨?_, readTag_of_not_fits hlongest hmisfit, ?_⟩
    · intro other hother
      rw [← fits_eq_false_iff]
      exact not_fits_of_longest hlongest hmisfit (Kind.mem_candidates_iff.mp hother)
    · intro front d htakes
      exact htakes.decodeChars_of_refused hlongest hrefused

/-- Behind a first frame a step to the right stands without its number. Its plus sign does
not make it a position that is set, and the fault is behind the sign. -/
theorem longest_code_decides_unnumbered_step :
    (candidates ['x', '+', 'B', '1']).head? = some .xIncrement ∧
      Kind.xSet ∈ candidates ['x', '+', 'B', '1'] ∧ Refused .xSet ['+', 'B', '1'] ∧
      decodeChars ['A', '2', 'x', '+', 'B', '1'] = .error ⟨.missingParameter, 4⟩ := by
  have hfirst : (candidates ['x', '+', 'B', '1']).head? = some .xIncrement := by decide
  have hshorter : Kind.xSet ∈ candidates ['x', '+', 'B', '1'] := by decide
  have hframe : Token.Spelling (.frame 0 2) ['A', '2'] :=
    .frame (by decide) (Numeral.isNumeral_digits 2)
  have htakes : Draft.Takes ['x', '+', 'B', '1'] .empty ['A', '2'] ⟨[⟨0, 2, []⟩], [2], []⟩ :=
    .cons hframe rfl rfl .nil
  obtain ⟨_, hrefused, _⟩ := (longest_code_decides ['x', '+', 'B', '1']).2.2 .xIncrement hfirst
  obtain ⟨hothers, _, hdecode⟩ := hrefused (Or.inl ⟨rfl, rfl⟩)
  exact ⟨hfirst, hshorter, hothers .xSet hshorter, hdecode ['A', '2'] _ htakes⟩

end Flipbook.Text
