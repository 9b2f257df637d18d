import Flipbook.Proofs.Script.Intervals
import Flipbook.Proofs.Tag.Codes

/-!
# What an edit changes

Main statement: `edits_are_local`. An edit that is accepted changes the frame that it
names, in the part that it names, and nothing else but the times of the frames behind it.

Every edit of a frame puts another frame in its place. What that does to the other frames
and to all times is said once, for any two frames (`EditedAt`): frames keep their starts
up to the edited one, and behind it they move with its length. What is left to say of each
edit is what it makes of the frame itself. Setting and deleting tags are told apart by
what becomes of repeated ones: a tag that is set takes the place of all tags of its kind,
and only the first of them is deleted, while a look-up finds the last
(`TagDeleted.lookup`).
-/

namespace Flipbook

/-! ## Tags of a frame -/

namespace Frame

variable {f g : Frame} {kind other : Tag.Kind} {tag : Tag}

/-- The second frame is the first one with a tag put last, in place of all its tags
of the same kind. -/
structure TagSet (f g : Frame) (tag : Tag) : Prop where
  sprite : g.sprite = f.sprite
  length : g.length = f.length
  last : g.tags.getLast? = some tag
  single : g.tags.filter (·.kind == tag.kind) = [tag]
  others : g.tags.filter (·.kind != tag.kind) = f.tags.filter (·.kind != tag.kind)

/-- The second frame is the first one without its first tag of a kind, if it has one. -/
structure TagDeleted (f g : Frame) (kind : Tag.Kind) (found : Bool) : Prop where
  sprite : g.sprite = f.sprite
  length : g.length = f.length
  found_iff : found = true ↔ ∃ tag ∈ f.tags, tag.kind = kind
  removed : found = true →
    ∃ before tag after, f.tags = before ++ tag :: after ∧ tag.kind = kind ∧
    (∀ t ∈ before, t.kind ≠ kind) ∧ g.tags = before ++ after
  kept : found = false → g.tags = f.tags
  /-- A look-up notices only if there is no other tag of the kind. -/
  lookup : g.tag? kind.mnemonic ≠ f.tag? kind.mnemonic ↔ f.tags.countP (·.kind == kind) = 1
  others : ∀ other, other ≠ kind → g.tag? other.mnemonic = f.tag? other.mnemonic

theorem tag?_mnemonic (f : Frame) (kind : Tag.Kind) :
    f.tag? kind.mnemonic = f.tagOf? kind := by
  unfold tag?
  rw [Tag.Kind.ofMnemonic?_eq_some_iff.mpr rfl, Option.bind_some]

theorem tagSet (f : Frame) (tag : Tag) :
    f.TagSet { f with tags := f.tags.filter (·.kind != tag.kind) ++ [tag] } tag where
  sprite := rfl
  length := rfl
  last := List.getLast?_concat
  single := by
    rw [List.filter_append, List.filter_filter]
    simp
  others := by
    rw [List.filter_append, List.filter_filter]
    simp

/-- A look-up goes through the tags from the last one on. -/
theorem tagOf?_of_append {before after : List Tag} (hf : f.tags = before ++ after) :
    f.tagOf? kind =
      (after.reverse.find? (·.kind == kind)).or (before.reverse.find? (·.kind == kind)) := by
  unfold tagOf?
  rw [hf, List.reverse_append, List.find?_append]

/-- Only a sole tag of its kind is missed once it is taken off. -/
theorem tagOf?_ne_iff_of_erased {before after : List Tag}
    (hf : f.tags = before ++ tag :: after)
    (hg : g.tags = before ++ after) (hkind : tag.kind = kind)
    (hfirst : ∀ t ∈ before, t.kind ≠ kind) :
    g.tagOf? kind ≠ f.tagOf? kind ↔ f.tags.countP (·.kind == kind) = 1 := by
  have hnone : before.reverse.find? (·.kind == kind) = none := by
    rw [List.find?_eq_none]
    simpa using hfirst
  have hzero : before.countP (·.kind == kind) = 0 := by
    rw [List.countP_eq_zero]
    simpa using hfirst
  have hmatch : (tag.kind == kind) = true := beq_iff_eq.mpr hkind
  have hcount : f.tags.countP (·.kind == kind) = after.countP (·.kind == kind) + 1 := by
    rw [hf, List.countP_append, hzero, List.countP_cons, if_pos hmatch, Nat.zero_add]
  rw [tagOf?_of_append hg, tagOf?_of_append hf, hnone, hcount, List.reverse_cons,
    List.find?_append, List.find?_singleton, hmatch]
  cases hlater : after.reverse.find? (·.kind == kind) with
  | none =>
    have hlast : after.countP (·.kind == kind) = 0 := by
      rw [← List.countP_reverse, List.countP_eq_zero]
      exact List.find?_eq_none.mp hlater
    exact iff_of_true (by simp) (by omega)
  | some later =>
    have hpos : 0 < after.countP (·.kind == kind) := by
      have hkind' := List.find?_some hlater
      rw [← List.countP_reverse, List.countP_pos_iff]
      exact ⟨later, List.mem_of_find?_eq_some hlater, hkind'⟩
    exact iff_of_false (by simp) (by omega)

/-- Tags of other kinds are found as before. -/
theorem tagOf?_eq_of_erased {before after : List Tag} (hf : f.tags = before ++ tag :: after)
    (hg : g.tags = before ++ after) (hother : tag.kind ≠ other) :
    g.tagOf? other = f.tagOf? other := by
  rw [tagOf?_of_append hg, tagOf?_of_append hf, List.reverse_cons, List.find?_append,
    List.find?_singleton, beq_false_of_ne hother]
  simp

theorem tagDeleted (f : Frame) (kind : Tag.Kind) :
    f.TagDeleted { f with tags := f.tags.eraseP (·.kind == kind) } kind
      (f.tags.any (·.kind == kind)) := by
  have hfound : f.tags.any (·.kind == kind) = true ↔ ∃ tag ∈ f.tags, tag.kind = kind := by
    simp
  cases hany : f.tags.any (·.kind == kind) with
  | true =>
    obtain ⟨found, hmem, hmatch⟩ := List.any_eq_true.mp hany
    obtain ⟨tag, before, after, hfirst, hkind, hsplit, herased⟩ :=
      List.exists_of_eraseP (p := (·.kind == kind)) hmem hmatch
    have hkind' : tag.kind = kind := beq_iff_eq.mp hkind
    have hfirst' : ∀ t ∈ before, t.kind ≠ kind := fun t ht => by simpa using hfirst t ht
    refine ⟨rfl, rfl, hany ▸ hfound,
      fun _ => ⟨before, tag, after, hsplit, hkind', hfirst', herased⟩, nofun, ?_, ?_⟩
    · rw [tag?_mnemonic, tag?_mnemonic]
      exact tagOf?_ne_iff_of_erased hsplit herased hkind' hfirst'
    · intro other hother
      rw [tag?_mnemonic, tag?_mnemonic]
      exact tagOf?_eq_of_erased hsplit herased (hkind' ▸ hother.symm)
  | false =>
    have hnone : ∀ tag ∈ f.tags, ¬ (tag.kind == kind) = true := by
      simpa using hany
    rw [List.eraseP_of_forall_not hnone]
    refine ⟨rfl, rfl, hany ▸ hfound, nofun, fun _ => rfl, ?_, fun _ _ => rfl⟩
    rw [List.countP_eq_zero.mpr hnone]
    simp

end Frame

/-! ## One frame in the place of another -/

namespace Script

variable {s after : Script} {index : Nat} {f g : Frame}

/-- A frame of the script was put in the place of another. All other frames are the same,
frames start when they did up to this one, and behind it they start later by as much as it
has become longer. -/
structure EditedAt (s after : Script) (index : Nat) (f g : Frame) : Prop where
  old : s.frame? index = some f
  new : after.frame? index = some g
  others : ∀ i, i ≠ index → after.frame? i = s.frame? i
  starts : ∀ i ≤ index, after.start? i = s.start? i
  later : ∀ i start, index < i → s.start? i = some start →
    ∃ start', after.start? i = some start' ∧ start' + f.length = start + g.length
  total : after.total + f.length = s.total + g.length

theorem before_set_of_le {i : Nat} (hset : after.frames = s.frames.set index g)
    (hle : i ≤ index) : after.before i = s.before i := by
  unfold before
  rw [hset, List.take_set_of_le hle]

theorem frame?_set_of_ne {i : Nat} (hset : after.frames = s.frames.set index g)
    (hne : i ≠ index) : after.frame? i = s.frame? i := by
  unfold frame?
  rw [hset, List.getElem?_set_ne hne.symm]

/-- Behind the frame, times move by as much as it has become longer. -/
theorem before_set_of_lt {i : Nat} (hf : s.frame? index = some f)
    (hg : after.frame? index = some g)
    (hset : after.frames = s.frames.set index g) (hlt : index < i) (hle : i ≤ s.count) :
    after.before i + f.length = s.before i + g.length := by
  induction hlt with
  | refl =>
    rw [before_succ hg, before_succ hf, before_set_of_le hset (Nat.le_refl index)]
    omega
  | @step i hlt ih =>
    obtain ⟨h, hframe⟩ := exists_frame (s := s) hle
    have hframe' : after.frame? i = some h := by
      rw [frame?_set_of_ne hset (Nat.ne_of_gt hlt), hframe]
    have hbefore := ih (Nat.le_of_lt hle)
    rw [before_succ hframe', before_succ hframe]
    omega

theorem Valid.editedAt (hs : s.Valid) (hafter : after.Valid) (hf : s.frame? index = some f)
    (hset : after.frames = s.frames.set index g) : s.EditedAt after index f g := by
  have hindex : index < s.count := (List.getElem?_eq_some_iff.mp hf).1
  have hcount : after.count = s.count := by
    unfold count
    rw [hset, List.length_set]
  have hg : after.frame? index = some g := by
    unfold frame?
    rw [hset, List.getElem?_set_self hindex]
  refine ⟨hf, hg, fun i hne => frame?_set_of_ne hset hne, ?_, ?_, ?_⟩
  · intro i hle
    have hlt : i < s.count := Nat.lt_of_le_of_lt hle hindex
    rw [hs.start?_eq hlt, hafter.start?_eq (hcount ▸ hlt), before_set_of_le hset hle]
  · intro i start hlt hstart
    obtain ⟨hi, rfl⟩ := hs.start?_eq_some_iff.mp hstart
    exact ⟨_, hafter.start?_eq (hcount ▸ hi),
      before_set_of_lt hf hg hset hlt (Nat.le_of_lt hi)⟩
  · rw [hs.total_eq, hafter.total_eq, hcount]
    exact before_set_of_lt hf hg hset hindex (Nat.le_refl _)

/-! ## Edits -/

theorem changeFrame_of_frame? {α : Type} (change : Frame → α × Frame)
    (hf : s.frame? index = some f) :
    s.changeFrame index change =
      (.ok (change f).1, { s with frames := s.frames.set index (change f).2 }) := by
  unfold changeFrame
  rw [hf]

theorem exists_frame_of_changeFrame {α : Type} {change : Frame → α × Frame} {a : α}
    (h : (s.changeFrame index change).1 = .ok a) :
    ∃ f, s.frame? index = some f ∧ (change f).1 = a := by
  cases hf : s.frame? index with
  | none =>
    unfold changeFrame at h
    rw [hf] at h
    cases h
  | some f =>
    rw [changeFrame_of_frame? change hf] at h
    exact ⟨f, rfl, Except.ok.inj h⟩

/-- A change that is accepted puts what it makes of the frame in the frame's place. -/
theorem Valid.editedAt_changeFrame {α : Type} (hs : s.Valid) {change : Frame → α × Frame}
    {a : α}
    (hafter : (s.changeFrame index change).2.Valid)
    (h : (s.changeFrame index change).1 = .ok a) :
    ∃ f, (change f).1 = a ∧
      s.EditedAt (s.changeFrame index change).2 index f (change f).2 := by
  obtain ⟨f, hf, ha⟩ := exists_frame_of_changeFrame h
  refine ⟨f, ha, hs.editedAt hafter hf ?_⟩
  rw [changeFrame_of_frame? change hf]

theorem Valid.editedAt_setSprite (hs : s.Valid) {sprite : Nat}
    (h : (s.setSprite index sprite).1 = .ok ()) :
    ∃ f, s.EditedAt (s.setSprite index sprite).2 index f { f with sprite } := by
  have hafter := hs.setSprite index sprite
  unfold Script.setSprite at h hafter ⊢
  split at h
  next hle =>
    rw [if_pos hle] at hafter ⊢
    obtain ⟨f, _, hedited⟩ := hs.editedAt_changeFrame hafter h
    exact ⟨f, hedited⟩
  next => cases h

theorem Valid.editedAt_clearTags (hs : s.Valid) (h : (s.clearTags index).1 = .ok ()) :
    ∃ f, s.EditedAt (s.clearTags index).2 index f { f with tags := [] } := by
  obtain ⟨f, _, hedited⟩ := hs.editedAt_changeFrame (hs.clearTags index) h
  exact ⟨f, hedited⟩

theorem Valid.editedAt_setLength (hs : s.Valid) {length : Nat}
    (h : (s.setLength index length).1 = .ok ()) :
    ∃ f, s.EditedAt (s.setLength index length).2 index f { f with length } := by
  have hafter := hs.setLength index length
  rw [setLength_eq] at h hafter ⊢
  cases hf : s.frame? index with
  | none =>
    rw [hf] at h
    cases h
  | some f =>
    rw [hf] at h hafter
    simp only at h hafter ⊢
    cases hends : endsFrom 0 (s.frames.set index { f with length }) with
    | none =>
      rw [hends] at h
      cases h
    | some ends =>
      rw [hends] at hafter
      exact ⟨f, hs.editedAt hafter hf rfl⟩

/-- The tag that is set, if it is accepted. -/
theorem exists_make_of_setTag {mnemonic : String} {value : Option Int32}
    (h : (s.setTag index mnemonic value).1 = .ok ()) :
    ∃ tag f, Tag.make mnemonic value = .ok tag ∧ s.frame? index = some f := by
  unfold setTag at h
  cases hmake : Tag.make mnemonic value with
  | error e =>
    rw [hmake] at h
    cases h
  | ok tag =>
    rw [hmake] at h
    obtain ⟨f, hf, _⟩ := exists_frame_of_changeFrame h
    exact ⟨tag, f, rfl, hf⟩

theorem setTag_of_make {mnemonic : String} {value : Option Int32} {tag : Tag}
    (hmake : Tag.make mnemonic value = .ok tag) (hf : s.frame? index = some f) :
    s.setTag index mnemonic value =
      (.ok (),
        ⟨s.frames.set index { f with tags := f.tags.filter (·.kind != tag.kind) ++ [tag] },
        s.ends⟩) := by
  unfold setTag
  rw [hmake]
  exact changeFrame_of_frame? _ hf

theorem Valid.editedAt_setTag (hs : s.Valid) {mnemonic : String} {value : Option Int32}
    (h : (s.setTag index mnemonic value).1 = .ok ()) :
    ∃ f g tag, tag.kind.mnemonic = mnemonic ∧ tag.value = value ∧ f.TagSet g tag ∧
      s.EditedAt (s.setTag index mnemonic value).2 index f g := by
  have hafter := hs.setTag index mnemonic value
  obtain ⟨tag, f, hmake, hf⟩ := exists_make_of_setTag h
  obtain ⟨hkind, hvalue, _⟩ := Tag.make_eq_ok_iff.mp hmake
  rw [setTag_of_make hmake hf] at hafter ⊢
  exact ⟨f, _, tag, Tag.Kind.ofMnemonic?_eq_some_iff.mp hkind, hvalue, f.tagSet tag,
    hs.editedAt hafter hf rfl⟩

/-- A tag that is set later overrides one of the same kind. -/
theorem setTag_setTag {mnemonic : String} {first second : Option Int32}
    (h : (s.setTag index mnemonic first).1 = .ok ())
    (h' : (s.setTag index mnemonic second).1 = .ok ()) :
    (s.setTag index mnemonic first).2.setTag index mnemonic second =
      s.setTag index mnemonic second := by
  obtain ⟨tag, f, hmake, hf⟩ := exists_make_of_setTag h
  obtain ⟨tag', _, hmake', _⟩ := exists_make_of_setTag h'
  have hindex : index < s.frames.length := (List.getElem?_eq_some_iff.mp hf).1
  have hkind : tag'.kind = tag.kind := by
    have hsame := (Tag.make_eq_ok_iff.mp hmake).1
    rw [(Tag.make_eq_ok_iff.mp hmake').1, Option.some.injEq] at hsame
    exact hsame
  rw [setTag_of_make hmake hf, setTag_of_make hmake' hf,
    setTag_of_make (s := ⟨_, _⟩) hmake' (List.getElem?_set_self hindex), List.set_set]
  simp only [hkind, (f.tagSet tag).others]

theorem Valid.editedAt_deleteTag (hs : s.Valid) {mnemonic : String} {found : Bool}
    (h : (s.deleteTag index mnemonic).1 = .ok found) :
    ∃ f g kind, kind.mnemonic = mnemonic ∧ f.TagDeleted g kind found ∧
      s.EditedAt (s.deleteTag index mnemonic).2 index f g := by
  have hafter := hs.deleteTag index mnemonic
  unfold Script.deleteTag at h hafter ⊢
  cases hkind : Tag.Kind.ofMnemonic? mnemonic with
  | none =>
    rw [hkind] at h
    cases h
  | some kind =>
    rw [hkind] at h hafter
    obtain ⟨f, rfl, hedited⟩ := hs.editedAt_changeFrame hafter h
    exact ⟨f, _, kind, Tag.Kind.ofMnemonic?_eq_some_iff.mp hkind, f.tagDeleted kind, hedited⟩

/-- A frame was put behind all others. It starts where the script ended, and nothing
else has changed. -/
structure Appended (s after : Script) (index : Nat) (f : Frame) : Prop where
  index_eq : index = s.count
  count : after.count = s.count + 1
  new : after.frame? index = some f
  others : ∀ i < index, after.frame? i = s.frame? i
  starts : ∀ i < index, after.start? i = s.start? i
  start : after.start? index = some s.total
  total : after.total = s.total + f.length

theorem Valid.appended (hs : s.Valid) (hafter : after.Valid)
    (hframes : after.frames = s.frames ++ [f]) : s.Appended after s.count f := by
  have hcount : after.count = s.count + 1 := by
    unfold Script.count
    rw [hframes, List.length_append, List.length_singleton]
  have hbefore : ∀ i ≤ s.count, after.before i = s.before i := by
    intro i hle
    unfold before
    rw [hframes, List.take_append_of_le_length hle]
  have hnew : after.frame? s.count = some f := by
    unfold frame?
    rw [hframes]
    exact List.getElem?_concat_length
  refine ⟨rfl, hcount, hnew, ?_, ?_, ?_, ?_⟩
  · intro i hlt
    unfold frame?
    rw [hframes, List.getElem?_append_left hlt]
  · intro i hlt
    rw [hs.start?_eq hlt, hafter.start?_eq (by omega), hbefore i (Nat.le_of_lt hlt)]
  · rw [hafter.start?_eq (by omega), hbefore s.count (Nat.le_refl _), hs.total_eq]
  · rw [hafter.total_eq, hcount, before_succ hnew, hbefore s.count (Nat.le_refl _),
      hs.total_eq]

theorem Valid.appended_appendFrame (hs : s.Valid) {sprite length : Nat}
    (h : (s.appendFrame sprite length).1 = .ok index) :
    s.Appended (s.appendFrame sprite length).2 index ⟨sprite, length, []⟩ := by
  have hafter := hs.appendFrame sprite length
  unfold Script.appendFrame at h hafter ⊢
  cases hblank : Frame.blank sprite length with
  | error e =>
    rw [hblank] at h
    cases h
  | ok frame =>
    obtain ⟨_, rfl⟩ := Frame.blank_eq_ok_iff.mp hblank
    rw [hblank] at h hafter
    simp only at h hafter ⊢
    split at h
    next hle =>
      rw [if_pos hle] at hafter ⊢
      cases h
      exact hs.appended hafter rfl
    next => cases h

/-- An edit that is accepted changes the frame that it names as it says. All other frames
stay as they are, and so do the starts up to this frame, while those behind it and the end
of the script move with its length. -/
theorem edits_are_local (hs : s.Reachable) :
    (∀ index sprite, (s.setSprite index sprite).1 = .ok () →
        ∃ f, s.EditedAt (s.setSprite index sprite).2 index f { f with sprite }) ∧
      (∀ index, (s.clearTags index).1 = .ok () →
        ∃ f, s.EditedAt (s.clearTags index).2 index f { f with tags := [] }) ∧
      (∀ index length, (s.setLength index length).1 = .ok () →
        ∃ f, s.EditedAt (s.setLength index length).2 index f { f with length }) ∧
      (∀ index mnemonic value, (s.setTag index mnemonic value).1 = .ok () →
        (∃ f g tag, tag.kind.mnemonic = mnemonic ∧ tag.value = value ∧ f.TagSet g tag ∧
          s.EditedAt (s.setTag index mnemonic value).2 index f g) ∧
        ∀ later, (s.setTag index mnemonic later).1 = .ok () →
          (s.setTag index mnemonic value).2.setTag index mnemonic later =
            s.setTag index mnemonic later) ∧
      (∀ index mnemonic found, (s.deleteTag index mnemonic).1 = .ok found →
        ∃ f g kind, kind.mnemonic = mnemonic ∧ f.TagDeleted g kind found ∧
          s.EditedAt (s.deleteTag index mnemonic).2 index f g) ∧
      ∀ sprite length index, (s.appendFrame sprite length).1 = .ok index →
        s.Appended (s.appendFrame sprite length).2 index ⟨sprite, length, []⟩ := by
  have hvalid := hs.valid
  refine ⟨?_, ?_, ?_, ?_, ?_, ?_⟩
  · intro index sprite h
    exact hvalid.editedAt_setSprite h
  · intro index h
    exact hvalid.editedAt_clearTags h
  · intro index length h
    exact hvalid.editedAt_setLength h
  · intro index mnemonic value h
    exact ⟨hvalid.editedAt_setTag h, fun later h' => setTag_setTag h h'⟩
  · intro index mnemonic found h
    exact hvalid.editedAt_deleteTag h
  · intro sprite length index h
    exact hvalid.appended_appendFrame h

/-- The first frame sets the blend level twice. One of the two tags is deleted without a
change to what a look-up finds; and with five ticks instead of three for this frame the
second one starts at tick five. -/
theorem edits_are_local_at_repeated_tag :
    Reachable ⟨[⟨0, 3, [⟨.blendStart, some 1⟩, ⟨.blendStart, some 2⟩]⟩, ⟨1, 4, []⟩], [3, 7]⟩ ∧
      (∃ f g, f.TagDeleted g .blendStart true ∧ g.tag? "bs" = f.tag? "bs" ∧
        EditedAt ⟨[⟨0, 3, [⟨.blendStart, some 1⟩, ⟨.blendStart, some 2⟩]⟩, ⟨1, 4, []⟩], [3, 7]⟩
          (deleteTag
            ⟨[⟨0, 3, [⟨.blendStart, some 1⟩, ⟨.blendStart, some 2⟩]⟩, ⟨1, 4, []⟩], [3, 7]⟩
            0 "bs").2 0 f g) ∧
      start? (setLength
          ⟨[⟨0, 3, [⟨.blendStart, some 1⟩, ⟨.blendStart, some 2⟩]⟩, ⟨1, 4, []⟩], [3, 7]⟩
          0 5).2 1 = some 5 := by
  have hs : Reachable
      ⟨[⟨0, 3, [⟨.blendStart, some 1⟩, ⟨.blendStart, some 2⟩]⟩, ⟨1, 4, []⟩], [3, 7]⟩ :=
    reachable_iff_valid.mpr (by decide)
  obtain ⟨_, _, hlength, _, hdelete, _⟩ := edits_are_local hs
  refine ⟨hs, ?_, ?_⟩
  · obtain ⟨f, g, kind, hkind, hdeleted, hedited⟩ := hdelete 0 "bs" true rfl
    have hfound : some Tag.Kind.blendStart = some kind :=
      Tag.Kind.ofMnemonic?_eq_some_iff.mpr hkind
    cases hfound
    cases hedited.old
    refine ⟨_, g, hdeleted, ?_, hedited⟩
    exact Classical.not_not.mp fun hne => absurd (hdeleted.lookup.mp hne) (by decide)
  · obtain ⟨f, hedited⟩ := hlength 0 5 rfl
    obtain ⟨start, hstart, hmoved⟩ := hedited.later 1 3 (by decide) rfl
    cases hedited.old
    have hfive : start + 3 = 3 + 5 := hmoved
    obtain rfl : start = 5 := by omega
    exact hstart

end Script

end Flipbook
