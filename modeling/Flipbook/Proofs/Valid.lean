import Mathlib.Data.List.Induction
import Flipbook.Frame
import Flipbook.Proofs.Tag.Codes

/-!
# Valid tags and frames

A tag is valid if its number obeys its kind's rule, and a frame is valid if its sprite has
a letter and all its tags are valid. This is what the checks of `Tag.make`, `Frame.blank`
and `Frame.pushTag` come to: each accepts its arguments exactly if the outcome is valid,
and then adds nothing of its own. So the frames that can be made are the valid ones, no
more (`Built.valid`) and no fewer (`Valid.built`).
-/

namespace Flipbook

theorem map_eq_ok_iff {ε α β : Type} {f : α → β} {x : Except ε α} {b : β} :
    x.map f = .ok b ↔ ∃ a, x = .ok a ∧ f a = b := by
  cases x with
  | error e =>
    refine ⟨?_, ?_⟩
    · intro h
      cases h
    · intro h
      obtain ⟨a, ha, _⟩ := h
      cases ha
  | ok a =>
    refine ⟨?_, ?_⟩
    · intro h
      cases h
      exact ⟨a, rfl, rfl⟩
    · intro h
      obtain ⟨a', ha, hb⟩ := h
      cases ha
      rw [← hb]
      rfl

/-- The tag carries a number as its kind's rule says. -/
def Tag.Valid (tag : Tag) : Prop :=
  Tag.check tag.kind tag.value = .ok ()

instance (tag : Tag) : Decidable tag.Valid :=
  inferInstanceAs (Decidable (Tag.check tag.kind tag.value = .ok ()))

/-- The sprite has a letter, and every tag carries a number as its kind's rule says. -/
structure Frame.Valid (f : Frame) : Prop where
  sprite : f.sprite ≤ Sprite.last
  tags : ∀ tag ∈ f.tags, tag.Valid

instance (f : Frame) : Decidable f.Valid :=
  decidable_of_iff (f.sprite ≤ Sprite.last ∧ ∀ tag ∈ f.tags, tag.Valid)
    ⟨fun h => ⟨h.1, h.2⟩, fun h => ⟨h.sprite, h.tags⟩⟩

/-! ## Sprites -/

namespace Sprite

/-- The letters of sprites are the capital ones, numbered in order. -/
theorem of_ofLetter?_eq_some {c : Char} {sprite : Nat} (h : ofLetter? c = some sprite) :
    'A'.val ≤ c.val ∧ c.val ≤ 'Z'.val ∧ c.toNat - 'A'.toNat = sprite := by
  unfold ofLetter? at h
  split at h
  next hupper =>
    cases h
    have hbounds : 'A'.val ≤ c.val ∧ c.val ≤ 'Z'.val := of_decide_eq_true hupper
    exact ⟨hbounds.1, hbounds.2, rfl⟩
  next => cases h

theorem le_last_of_ofLetter? {c : Char} {sprite : Nat} (h : ofLetter? c = some sprite) :
    sprite ≤ last := by
  obtain ⟨_, hle, rfl⟩ := of_ofLetter?_eq_some h
  have hle' : c.toNat ≤ 90 := UInt32.le_iff_toNat_le.mp hle
  show c.toNat - 65 ≤ 25
  omega

/-- The letter of a sprite stands for the sprite. -/
theorem ofLetter?_letter {sprite : Nat} (h : sprite ≤ last) :
    ofLetter? (letter sprite) = some sprite := by
  have hall : ∀ n < last + 1, ofLetter? (letter n) = some n := by decide
  exact hall sprite (Nat.lt_succ_of_le h)

end Sprite

/-! ## Tags -/

namespace Tag

/-- A tag is valid if its number is there or not as its kind's rule says, and not negative
where its minus sign would belong to the code of a step. -/
theorem valid_iff {tag : Tag} :
    tag.Valid ↔
      match tag.value with
      | none => tag.kind.parameter ≠ .required
      | some v => tag.kind.parameter ≠ .none ∧ (tag.kind.bareAxis = true → 0 ≤ v.toInt) := by
  obtain ⟨kind, value⟩ := tag
  unfold Tag.Valid Tag.check
  cases value with
  | none => cases hp : kind.parameter <;> simp
  | some v => cases hp : kind.parameter <;> simp

/-- A tag is made of a mnemonic and a number if it is valid and has them. -/
theorem make_eq_ok_iff {mnemonic : String} {value : Option Int32} {tag : Tag} :
    Tag.make mnemonic value = .ok tag ↔
      Kind.ofMnemonic? mnemonic = some tag.kind ∧ tag.value = value ∧ tag.Valid := by
  unfold Tag.make
  cases hkind : Kind.ofMnemonic? mnemonic with
  | none =>
    refine ⟨?_, ?_⟩
    · intro h
      cases h
    · intro h
      cases h.1
  | some kind =>
    simp only
    rw [map_eq_ok_iff]
    refine ⟨?_, ?_⟩
    · intro h
      obtain ⟨_, hcheck, htag⟩ := h
      subst htag
      exact ⟨rfl, rfl, hcheck⟩
    · intro h
      obtain ⟨heq, hvalue, hvalid⟩ := h
      obtain ⟨kind', value'⟩ := tag
      cases heq
      cases hvalue
      exact ⟨(), hvalid, rfl⟩

end Tag

/-! ## Frames -/

namespace Frame

theorem blank_eq_ok_iff {sprite length : Nat} {f : Frame} :
    Frame.blank sprite length = .ok f ↔ sprite ≤ Sprite.last ∧ f = ⟨sprite, length, []⟩ := by
  unfold Frame.blank
  refine ⟨?_, ?_⟩
  · intro h
    split at h
    next hle =>
      cases h
      exact ⟨hle, rfl⟩
    next => cases h
  · intro h
    rw [if_pos h.1, h.2]

theorem pushTag_eq_ok_iff {f g : Frame} {mnemonic : String} {value : Option Int32} :
    f.pushTag mnemonic value = .ok g ↔
      ∃ tag, Tag.make mnemonic value = .ok tag ∧ { f with tags := f.tags ++ [tag] } = g :=
  map_eq_ok_iff

/-- A look-up by kind fails where the frame carries no tag of the kind. -/
theorem tagOf?_eq_none_iff {f : Frame} {kind : Tag.Kind} :
    f.tagOf? kind = none ↔ ∀ tag ∈ f.tags, tag.kind ≠ kind := by
  unfold tagOf?
  rw [List.find?_eq_none]
  simp only [List.mem_reverse, beq_iff_eq, ne_eq]

theorem valid_of_blank {sprite length : Nat} {f : Frame}
    (h : Frame.blank sprite length = .ok f) : f.Valid := by
  obtain ⟨hle, rfl⟩ := blank_eq_ok_iff.mp h
  refine ⟨hle, ?_⟩
  intro tag hmem
  cases hmem

/-- A valid frame stays valid with some of its tags. -/
theorem Valid.subset {f : Frame} {tags : List Tag} (h : f.Valid)
    (hsub : ∀ t ∈ tags, t ∈ f.tags) : Frame.Valid { f with tags } :=
  ⟨h.sprite, fun t hmem => h.tags t (hsub t hmem)⟩

/-- A valid frame stays valid with a valid tag put last. -/
theorem Valid.append {f : Frame} (h : f.Valid) {tag : Tag} (htag : tag.Valid) :
    Frame.Valid { f with tags := f.tags ++ [tag] } := by
  refine ⟨h.sprite, ?_⟩
  intro t hmem
  rcases List.mem_append.mp hmem with hin | hlast
  · exact h.tags t hin
  · rw [List.mem_singleton.mp hlast]
    exact htag

/-- The frames that can be made: at first without tags, then with one tag after
another put last. -/
inductive Built : Frame → Prop where
  | blank {sprite length : Nat} {f : Frame} (accepted : Frame.blank sprite length = .ok f) :
      Built f
  | pushTag {f g : Frame} {mnemonic : String} {value : Option Int32} (built : Built f)
      (accepted : f.pushTag mnemonic value = .ok g) : Built g

/-- A frame without tags can be made if its sprite has a letter. -/
theorem built_of_le {sprite : Nat} (h : sprite ≤ Sprite.last) (length : Nat) :
    Built ⟨sprite, length, []⟩ :=
  .blank (blank_eq_ok_iff.mpr ⟨h, rfl⟩)

theorem Built.valid {f : Frame} (h : f.Built) : f.Valid := by
  induction h with
  | blank accepted => exact valid_of_blank accepted
  | pushTag _ accepted ih =>
    obtain ⟨tag, hmake, rfl⟩ := pushTag_eq_ok_iff.mp accepted
    exact ih.append (Tag.make_eq_ok_iff.mp hmake).2.2

/-- A valid frame can be made by putting its tags on it one after another. -/
theorem Valid.built {f : Frame} (h : f.Valid) : f.Built := by
  obtain ⟨sprite, length, tags⟩ := f
  induction tags using List.reverseRecOn with
  | nil => exact built_of_le h.sprite length
  | append_singleton tags tag ih =>
    have hfront : ∀ t ∈ tags, t ∈ tags ++ [tag] := fun t ht => List.mem_append_left _ ht
    have htag : tag.Valid := h.tags tag List.mem_concat_self
    have hmake : Tag.make tag.kind.mnemonic tag.value = .ok tag :=
      Tag.make_eq_ok_iff.mpr ⟨Tag.Kind.ofMnemonic?_eq_some_iff.mpr rfl, rfl, htag⟩
    exact (ih (h.subset hfront)).pushTag (pushTag_eq_ok_iff.mpr ⟨tag, hmake, rfl⟩)

end Frame

end Flipbook
