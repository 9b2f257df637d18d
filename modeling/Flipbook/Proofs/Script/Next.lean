import Mathlib.Order.Bounds.Defs
import Flipbook.Proofs.Script.Intervals
import Flipbook.Proofs.Tag.Codes

/-!
# The next frame of a kind

Main statement: `next_is_first_later`. The look-ups for a sprite and for a tag give the
first of the frames that start after a tick and show the one or carry the other. They go
through the frames in order, so what they find is the least index; and a tick past the end
of the script may be answered at once, because no frame starts after it.
-/

namespace Flipbook.Script

variable {s : Script} {p q : Frame → Prop} {tick index : Nat} {answer : Option Nat}

/-- The frame starts after the tick and has the property. -/
def StartsAfter (s : Script) (tick : Nat) (p : Frame → Prop) (index : Nat) : Prop :=
  ∃ start f, s.start? index = some start ∧ s.frame? index = some f ∧ tick < start ∧ p f

/-- The answer is the first of the frames that start after the tick and have the property,
and there is no answer only if there is no such frame. -/
structure FirstAfter (s : Script) (tick : Nat) (p : Frame → Prop)
    (answer : Option Nat) : Prop where
  found : ∀ index, answer = some index ↔ IsLeast {i | s.StartsAfter tick p i} index
  missing : answer = none ↔ ∀ index, ¬ s.StartsAfter tick p index

/-! ## Frames that start later -/

theorem StartsAfter.earlier {a b : Nat} (h : s.StartsAfter b p index) (hle : a ≤ b) :
    s.StartsAfter a p index := by
  obtain ⟨start, f, hstart, hf, hlt, hp⟩ := h
  exact ⟨start, f, hstart, hf, Nat.lt_of_le_of_lt hle hlt, hp⟩

/-- No frame starts after the end of the script, be it one without length at the very end. -/
theorem Valid.not_startsAfter (h : s.Valid) (hlt : s.total < tick) (p : Frame → Prop)
    (index : Nat) : ¬ s.StartsAfter tick p index := by
  intro ⟨start, f, hstart, _, hafter, _⟩
  obtain ⟨hindex, rfl⟩ := h.start?_eq_some_iff.mp hstart
  have hmono := s.before_mono (Nat.le_of_lt hindex)
  rw [h.total_eq] at hlt
  omega

/-- Beside its end, a frame tells when it starts. -/
theorem startsAfter_iff_zip :
    s.StartsAfter tick p index ↔
      ∃ f finish, (s.frames.zip s.ends)[index]? = some (f, finish) ∧
        tick < finish - f.length ∧ p f := by
  unfold StartsAfter start? frame? end?
  simp only [List.getElem?_zip_eq_some]
  constructor
  · intro ⟨start, f, hstart, hf, hlt, hp⟩
    cases hend : s.ends[index]? with
    | none =>
      rw [hend] at hstart
      cases hstart
    | some finish =>
      rw [hend, hf] at hstart
      cases hstart
      exact ⟨f, finish, ⟨hf, rfl⟩, hlt, hp⟩
  · intro ⟨f, finish, ⟨hf, hend⟩, hlt, hp⟩
    rw [hend, hf]
    exact ⟨_, f, rfl, rfl, hlt, hp⟩

/-! ## Answers -/

theorem FirstAfter.congr (h : s.FirstAfter tick p answer) (hiff : ∀ f, p f ↔ q f) :
    s.FirstAfter tick q answer := by
  obtain rfl : p = q := funext fun f => propext (hiff f)
  exact h

/-- Where no frame has the property, there is none to be found. -/
theorem firstAfter_none (hnone : ∀ index, ¬ s.StartsAfter tick p index) :
    s.FirstAfter tick p none := by
  refine ⟨?_, iff_of_true rfl hnone⟩
  intro index
  exact iff_of_false nofun fun hleast => hnone index hleast.1

/-- From an earlier tick on, the first frame is the same or an earlier one. -/
theorem FirstAfter.exists_earlier {a b later : Nat} {answer' : Option Nat}
    (ha : s.FirstAfter a p answer)
    (hb : s.FirstAfter b p answer') (hle : a ≤ b) (hlater : answer' = some later) :
    ∃ earlier ≤ later, answer = some earlier := by
  have hafter := ((hb.found later).mp hlater).1.earlier hle
  cases hanswer : answer with
  | none => exact absurd hafter (ha.missing.mp hanswer later)
  | some earlier => exact ⟨earlier, ((ha.found earlier).mp hanswer).2 hafter, rfl⟩

/-- Looking through the frames in order finds the first one that fits. -/
theorem firstAfter_findIdx? (s : Script) (tick : Nat) (p : Frame → Bool) :
    s.FirstAfter tick (p · = true)
      ((s.frames.zip s.ends).findIdx? fun (f, finish) => tick < finish - f.length && p f) := by
  constructor
  · intro index
    rw [List.findIdx?_eq_some_iff_getElem]
    constructor
    · intro ⟨hindex, hfits, hearlier⟩
      refine ⟨startsAfter_iff_zip.mpr
        ⟨_, _, List.getElem?_eq_getElem hindex, by simpa using hfits⟩, ?_⟩
      intro j hafter
      obtain ⟨f, finish, hget, hfits'⟩ := startsAfter_iff_zip.mp hafter
      obtain ⟨hj, hzip⟩ := List.getElem?_eq_some_iff.mp hget
      refine Nat.le_of_not_lt fun hlt => hearlier j hlt ?_
      simpa [hzip] using hfits'
    · intro ⟨hafter, hleast⟩
      obtain ⟨f, finish, hget, hfits⟩ := startsAfter_iff_zip.mp hafter
      obtain ⟨hindex, hzip⟩ := List.getElem?_eq_some_iff.mp hget
      refine ⟨hindex, by simpa [hzip] using hfits, ?_⟩
      intro j hlt hfits'
      have hearlier : s.StartsAfter tick (p · = true) j :=
        startsAfter_iff_zip.mpr
          ⟨_, _, List.getElem?_eq_getElem (Nat.lt_trans hlt hindex), by simpa using hfits'⟩
      exact absurd (hleast hearlier) (Nat.not_le.mpr hlt)
  · rw [List.findIdx?_eq_none_iff]
    constructor
    · intro hnone index hafter
      obtain ⟨f, finish, hget, hfits⟩ := startsAfter_iff_zip.mp hafter
      simpa [hfits] using hnone _ (List.mem_of_getElem? hget)
    · intro hnone (f, finish) hmem
      obtain ⟨index, hget⟩ := List.getElem?_of_mem hmem
      rw [Bool.eq_false_iff]
      intro hfits
      exact hnone index (startsAfter_iff_zip.mpr ⟨f, finish, hget, by simpa using hfits⟩)

theorem Valid.firstAfter_nextWhere? (h : s.Valid) (tick : Nat) (p : Frame → Bool) :
    s.FirstAfter tick (p · = true) (s.nextWhere? tick p) := by
  unfold nextWhere?
  split
  next hover => exact firstAfter_none (h.not_startsAfter hover _)
  next => exact s.firstAfter_findIdx? tick p

theorem Valid.firstAfter_nextWithSprite? (h : s.Valid) (sprite tick : Nat) :
    s.FirstAfter tick (·.sprite = sprite) (s.nextWithSprite? sprite tick) :=
  (h.firstAfter_nextWhere? tick _).congr fun _ => beq_iff_eq

/-- No frame carries a tag that is not in the vocabulary, and none is found. -/
theorem Valid.firstAfter_nextWithTag? (h : s.Valid) (mnemonic : String) (tick : Nat) :
    s.FirstAfter tick (fun f => ∃ tag ∈ f.tags, tag.kind.mnemonic = mnemonic)
      (s.nextWithTag? mnemonic tick) := by
  unfold nextWithTag?
  cases hkind : Tag.Kind.ofMnemonic? mnemonic with
  | none =>
    refine firstAfter_none ?_
    intro index ⟨_, f, _, _, _, tag, _, hmnemonic⟩
    rw [Tag.Kind.ofMnemonic?_eq_some_iff.mpr hmnemonic] at hkind
    cases hkind
  | some kind =>
    obtain rfl := Tag.Kind.ofMnemonic?_eq_some_iff.mp hkind
    rw [Option.bind_some]
    refine (h.firstAfter_nextWhere? tick fun f => (f.tagOf? kind).isSome).congr ?_
    intro f
    have hsame : ∀ tag : Tag, tag.kind.mnemonic = kind.mnemonic ↔ tag.kind = kind := by
      intro tag
      rw [← Tag.Kind.ofMnemonic?_eq_some_iff, hkind, Option.some.injEq, eq_comm]
    rw [Option.isSome_iff_ne_none, Ne, Frame.tagOf?_eq_none_iff]
    simp [hsame]

/-! ## The two look-ups -/

/-- The look-ups for a sprite and for a tag give the first of the frames that start after
a tick and show the one or carry the other, and nothing only if there is none. A tick past
the end of the script hides no frame, and from an earlier tick on the first frame is the
same or an earlier one. -/
theorem next_is_first_later (hs : s.Reachable) :
    (∀ sprite tick, s.FirstAfter tick (·.sprite = sprite) (s.nextWithSprite? sprite tick)) ∧
      (∀ mnemonic tick,
        s.FirstAfter tick (fun f => ∃ tag ∈ f.tags, tag.kind.mnemonic = mnemonic)
          (s.nextWithTag? mnemonic tick)) ∧
      (∀ tick, s.total < tick → ∀ p index, ¬ s.StartsAfter tick p index) ∧
      ∀ a b, a ≤ b →
        (∀ sprite later, s.nextWithSprite? sprite b = some later →
          ∃ earlier ≤ later, s.nextWithSprite? sprite a = some earlier) ∧
        ∀ mnemonic later, s.nextWithTag? mnemonic b = some later →
          ∃ earlier ≤ later, s.nextWithTag? mnemonic a = some earlier := by
  have hvalid := hs.valid
  refine ⟨hvalid.firstAfter_nextWithSprite?, hvalid.firstAfter_nextWithTag?, ?_, ?_⟩
  · intro tick hover
    exact hvalid.not_startsAfter hover
  · intro a b hle
    refine ⟨?_, ?_⟩
    · intro sprite later hlater
      exact (hvalid.firstAfter_nextWithSprite? sprite a).exists_earlier
        (hvalid.firstAfter_nextWithSprite? sprite b) hle hlater
    · intro mnemonic later hlater
      exact (hvalid.firstAfter_nextWithTag? mnemonic a).exists_earlier
        (hvalid.firstAfter_nextWithTag? mnemonic b) hle hlater

/-- Of three frames the last one has no length: it starts at tick seven, where the script ends.
It is the next one of its sprite from tick six on, and from tick seven on there is none. -/
theorem next_is_first_later_at_end :
    Reachable ⟨[⟨1, 3, []⟩, ⟨0, 4, []⟩, ⟨1, 0, []⟩], [3, 7, 7]⟩ ∧
      nextWithSprite? ⟨[⟨1, 3, []⟩, ⟨0, 4, []⟩, ⟨1, 0, []⟩], [3, 7, 7]⟩ 1 6 = some 2 ∧
      IsLeast {i | StartsAfter ⟨[⟨1, 3, []⟩, ⟨0, 4, []⟩, ⟨1, 0, []⟩], [3, 7, 7]⟩
        6 (·.sprite = 1) i} 2 ∧
      ∀ i, ¬ StartsAfter ⟨[⟨1, 3, []⟩, ⟨0, 4, []⟩, ⟨1, 0, []⟩], [3, 7, 7]⟩
        7 (·.sprite = 1) i := by
  have hs : Reachable ⟨[⟨1, 3, []⟩, ⟨0, 4, []⟩, ⟨1, 0, []⟩], [3, 7, 7]⟩ :=
    reachable_iff_valid.mpr (by decide)
  obtain ⟨hsprite, _⟩ := next_is_first_later hs
  exact ⟨hs, rfl, ((hsprite 1 6).found 2).mp rfl, (hsprite 1 7).missing.mp rfl⟩

end Flipbook.Script
