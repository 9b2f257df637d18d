import Flipbook.Proofs.Script.Intervals

/-!
# Consistent scripts and refused edits

Main statement: `consistent_and_edits_atomic`. Every script that comes about is
consistent: its end ticks are the exact sums of the lengths, the clock can show them, and
every sprite and every tag's number is one that can be written. `Consistent` says so field
by field, without the functions that keep it so. An edit that is refused leaves the script
as it was, and the clock is the reason for a refusal exactly if the lengths would add up
to more than it can show.

The three ways in which ends are made (added up while a text is read, added up anew,
continued from the last one) have been brought down to `endsFrom` by `Reachable.valid`;
what is left is what `endsFrom` gives and when it gives nothing.
-/

namespace Flipbook

/-- What a script's frames and ends promise to everything that reads them. -/
structure Script.Consistent (s : Script) : Prop where
  nonempty : 0 < s.count
  length_ends : s.ends.length = s.count
  /-- A frame ends after the ticks of the frames up to it, itself included. -/
  sums : ∀ index finish, s.end? index = some finish →
    finish = ticks (s.frames.take (index + 1))
  ascending : s.ends.Pairwise (· ≤ ·)
  onClock : ∀ finish ∈ s.ends, finish ≤ Tick.last
  /-- No frame is longer than the time up to its end. -/
  starts : ∀ index f, s.frame? index = some f →
    ∃ start finish, s.start? index = some start ∧ s.end? index = some finish ∧
      start + f.length = finish
  sprite : ∀ f ∈ s.frames, f.sprite ≤ 25
  required : ∀ f ∈ s.frames, ∀ tag ∈ f.tags,
    tag.kind.parameter = .required → tag.value.isSome = true
  bare : ∀ f ∈ s.frames, ∀ tag ∈ f.tags, tag.kind.parameter = .none → tag.value = none
  axis : ∀ f ∈ s.frames, ∀ tag ∈ f.tags, tag.kind = .xSet ∨ tag.kind = .ySet →
    ∀ v, tag.value = some v → 0 ≤ v.toInt

namespace Tag

theorem Valid.isSome_value {tag : Tag} (h : tag.Valid)
    (hrule : tag.kind.parameter = .required) : tag.value.isSome = true := by
  have hvalue := valid_iff.mp h
  cases hv : tag.value with
  | none => simp [hv, hrule] at hvalue
  | some v => rfl

theorem Valid.value_eq_none {tag : Tag} (h : tag.Valid) (hrule : tag.kind.parameter = .none) :
    tag.value = none := by
  have hvalue := valid_iff.mp h
  cases hv : tag.value with
  | none => rfl
  | some v => simp [hv, hrule] at hvalue

theorem Valid.value_nonneg {tag : Tag} (h : tag.Valid) (haxis : tag.kind.bareAxis = true)
    {v : Int32}
    (hv : tag.value = some v) : 0 ≤ v.toInt := by
  have hvalue := valid_iff.mp h
  rw [hv] at hvalue
  exact hvalue.2 haxis

end Tag

namespace Script

theorem Valid.consistent {s : Script} (h : s.Valid) : s.Consistent where
  nonempty := h.count_pos
  length_ends := h.length_ends
  sums := by
    intro index finish hend
    exact (h.end?_eq_some_iff.mp hend).2.symm
  ascending := endsFrom_pairwise h.ends
  onClock := (endsFrom_zero_eq_some_iff.mp h.ends).2
  starts := by
    intro index f hf
    have hlt : index < s.count := (List.getElem?_eq_some_iff.mp hf).1
    exact ⟨_, _, h.start?_eq hlt, h.end?_eq hlt, (before_succ hf).symm⟩
  sprite := fun f hf => (h.frames f hf).sprite
  required := fun f hf tag htag => ((h.frames f hf).tags tag htag).isSome_value
  bare := fun f hf tag htag => ((h.frames f hf).tags tag htag).value_eq_none
  axis := by
    intro f hf tag htag haxis v hv
    refine ((h.frames f hf).tags tag htag).value_nonneg ?_ hv
    rcases haxis with hx | hy
    · rw [hx]
      rfl
    · rw [hy]
      rfl

end Script

/-! ## Refused edits -/

/-- The refusal in an answer. -/
def Refusal.of? {α : Type} : Except Refusal α → Option Refusal
  | .ok _ => none
  | .error r => some r

namespace Script

/-- The refusal with which an edit is answered. -/
def Edit.refusal? (s : Script) : Edit → Option Refusal
  | .appendFrame sprite length => Refusal.of? (s.appendFrame sprite length).1
  | .setTag index mnemonic value => Refusal.of? (s.setTag index mnemonic value).1
  | .deleteTag index mnemonic => Refusal.of? (s.deleteTag index mnemonic).1
  | .clearTags index => Refusal.of? (s.clearTags index).1
  | .setLength index length => Refusal.of? (s.setLength index length).1
  | .setSprite index sprite => Refusal.of? (s.setSprite index sprite).1

variable {s : Script} {r : Refusal}

/-- A change is refused only where there is no frame to put anything in the place of. -/
theorem changeFrame_refused {α : Type} {index : Nat} {change : Frame → α × Frame}
    (h : Refusal.of? (s.changeFrame index change).1 = some r) :
    (s.changeFrame index change).2 = s := by
  unfold changeFrame at h ⊢
  cases hf : s.frame? index with
  | none => rfl
  | some f =>
    rw [hf] at h
    cases h

theorem appendFrame_refused {sprite length : Nat}
    (h : Refusal.of? (s.appendFrame sprite length).1 = some r) :
    (s.appendFrame sprite length).2 = s := by
  unfold appendFrame at h ⊢
  split at h
  next => rfl
  next frame hblank =>
    simp only at h ⊢
    split at h
    next => cases h
    next hover => rw [if_neg hover]

theorem setTag_refused {index : Nat} {mnemonic : String} {value : Option Int32}
    (h : Refusal.of? (s.setTag index mnemonic value).1 = some r) :
    (s.setTag index mnemonic value).2 = s := by
  unfold setTag at h ⊢
  split at h
  next => rfl
  next tag htag => exact changeFrame_refused h

theorem deleteTag_refused {index : Nat} {mnemonic : String}
    (h : Refusal.of? (s.deleteTag index mnemonic).1 = some r) :
    (s.deleteTag index mnemonic).2 = s := by
  unfold deleteTag at h ⊢
  split at h
  next => rfl
  next kind _ => exact changeFrame_refused h

theorem setSprite_refused {index sprite : Nat}
    (h : Refusal.of? (s.setSprite index sprite).1 = some r) :
    (s.setSprite index sprite).2 = s := by
  unfold setSprite at h ⊢
  by_cases hle : sprite ≤ Sprite.last
  · rw [if_pos hle] at h ⊢
    exact changeFrame_refused h
  · rw [if_neg hle]

theorem setLength_refused {index length : Nat}
    (h : Refusal.of? (s.setLength index length).1 = some r) :
    (s.setLength index length).2 = s := by
  rw [setLength_eq] at h ⊢
  split at h
  next => rfl
  next frame hf =>
    split at h
    next => rfl
    next ends hends => cases h

/-- A refused edit leaves the script as it was. -/
theorem Edit.apply_eq_of_refused {e : Edit} (h : e.refusal? s = some r) : e.apply s = s := by
  cases e with
  | appendFrame sprite length => exact appendFrame_refused h
  | setTag index mnemonic value => exact setTag_refused h
  | deleteTag index mnemonic => exact deleteTag_refused h
  | clearTags index => exact changeFrame_refused h
  | setLength index length => exact setLength_refused h
  | setSprite index sprite => exact setSprite_refused h

/-! ## More ticks than the clock can show -/

theorem ofFrames_eq_overflow_iff {frames : List Frame} :
    ofFrames frames = .error .tickOverflow ↔ Tick.last < ticks frames := by
  cases frames with
  | nil => simp [ofFrames, ticks]
  | cons f rest =>
    rw [← endsFrom_zero_eq_none_iff]
    simp only [ofFrames]
    cases endsFrom 0 (f :: rest) <;> simp

theorem appendFrame_eq_overflow_iff (hs : s.Valid) {sprite length : Nat} :
    Edit.refusal? s (.appendFrame sprite length) = some .tickOverflow ↔
      sprite ≤ Sprite.last ∧ Tick.last < ticks (s.frames ++ [⟨sprite, length, []⟩]) := by
  have hsum : s.total + length = ticks (s.frames ++ [⟨sprite, length, []⟩]) := by
    rw [ticks_append, hs.total_eq, before, count, List.take_length]
    rfl
  rw [← hsum]
  show Refusal.of? (s.appendFrame sprite length).1 = some .tickOverflow ↔ _
  unfold appendFrame Frame.blank
  by_cases hsprite : sprite ≤ Sprite.last
  · rw [if_pos hsprite]
    simp only [hsprite, true_and]
    by_cases hfits : s.total + length ≤ Tick.last
    · rw [if_pos hfits]
      simp [Refusal.of?, hfits]
    · rw [if_neg hfits]
      simp [Refusal.of?]
      omega
  · rw [if_neg hsprite]
    simp [Refusal.of?, hsprite]

theorem setLength_eq_overflow_iff {index length : Nat} :
    Edit.refusal? s (.setLength index length) = some .tickOverflow ↔
      ∃ f, s.frame? index = some f ∧
        Tick.last < ticks (s.frames.set index { f with length }) := by
  show Refusal.of? (s.setLength index length).1 = some .tickOverflow ↔ _
  rw [setLength_eq]
  cases hf : s.frame? index with
  | none => simp [Refusal.of?]
  | some f =>
    simp only [Option.some.injEq, exists_eq_left']
    rw [← endsFrom_zero_eq_none_iff]
    cases endsFrom 0 (s.frames.set index { f with length }) <;> simp [Refusal.of?]

/-- Every script that comes about is consistent, a refused edit changes nothing, and lengths
are refused for the clock's sake exactly if they would add up to more than it can show. -/
theorem consistent_and_edits_atomic {s : Script} (hs : s.Reachable) :
    s.Consistent ∧
      (∀ (e : Edit) (r : Refusal), e.refusal? s = some r → e.apply s = s) ∧
      (∀ frames : List Frame, ofFrames frames = .error .tickOverflow ↔
        Tick.last < ticks frames) ∧
      (∀ sprite length, Edit.refusal? s (.appendFrame sprite length) = some .tickOverflow ↔
        sprite ≤ Sprite.last ∧ Tick.last < ticks (s.frames ++ [⟨sprite, length, []⟩])) ∧
      ∀ index length, Edit.refusal? s (.setLength index length) = some .tickOverflow ↔
        ∃ f, s.frame? index = some f ∧
          Tick.last < ticks (s.frames.set index { f with length }) := by
  refine ⟨hs.valid.consistent, ?_, ?_, ?_, ?_⟩
  · intro e r hrefused
    exact Edit.apply_eq_of_refused hrefused
  · intro frames
    exact ofFrames_eq_overflow_iff
  · intro sprite length
    exact appendFrame_eq_overflow_iff hs.valid
  · intro index length
    exact setLength_eq_overflow_iff

/-- A script of seven ticks refuses a second frame that takes the clock's whole time,
and stays as it is. -/
theorem refuses_length_past_clock :
    twoFrames.Reachable ∧
      Edit.refusal? twoFrames (.setLength 1 4294967295) = some .tickOverflow ∧
      Edit.apply twoFrames (.setLength 1 4294967295) = twoFrames := by
  obtain ⟨_, hatomic, _, _, hlength⟩ := consistent_and_edits_atomic reachable_twoFrames
  have hrefused := (hlength 1 4294967295).mpr ⟨⟨1, 4, []⟩, rfl, by decide⟩
  exact ⟨reachable_twoFrames, hrefused, hatomic _ _ hrefused⟩

end Script

end Flipbook
