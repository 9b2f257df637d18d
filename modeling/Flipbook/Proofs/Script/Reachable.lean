import Flipbook.Proofs.Script.Ends
import Flipbook.Proofs.Text.Language
import Flipbook.Proofs.Valid
import Flipbook.Script.Edit

/-!
# Scripts that can come about

A script is read from a text or made of frames, and then edited. `Reachable` is every
script that comes about in this way, refused edits included. They are the `Valid` ones
(`reachable_iff_valid`): there is a frame, the end ticks are the running totals, every
sprite has a letter and every tag carries what its kind allows.

The invariant is kept one operation at a time (`Valid.apply` has a case for each edit), and
`Reachable.valid` is the induction over them. An edit of one frame goes through `changeFrame`,
so it keeps the invariant if what it puts in the frame's place is valid and as long.
-/

namespace Flipbook

/-- There is a frame, the ends are the running totals of the lengths, and
every frame is valid. -/
structure Script.Valid (s : Script) : Prop where
  nonempty : s.frames ≠ []
  ends : Script.endsFrom 0 s.frames = some s.ends
  frames : ∀ f ∈ s.frames, f.Valid

instance (s : Script) : Decidable s.Valid :=
  decidable_of_iff
    (s.frames ≠ [] ∧ Script.endsFrom 0 s.frames = some s.ends ∧ ∀ f ∈ s.frames, f.Valid)
    ⟨fun h => ⟨h.1, h.2.1, h.2.2⟩, fun h => ⟨h.nonempty, h.ends, h.frames⟩⟩

/-! ## Reading and making -/

theorem Tag.valid_of_spelling {tag : Tag} {first : List Char}
    (h : Text.Token.Spelling (.tag tag) first) : tag.Valid := by
  rw [Text.spelling_tag_iff] at h
  rw [Tag.valid_iff]
  obtain ⟨kind, value⟩ := tag
  cases value with
  | none => exact h.1
  | some v =>
    obtain ⟨htaken, number, _, hwritten, hbare⟩ := h
    refine ⟨htaken, ?_⟩
    intro haxis
    cases hwritten with
    | unsigned _ same =>
      rw [same]
      exact Int.natCast_nonneg _
    | plus => cases hbare haxis
    | minus => cases hbare haxis

namespace Script

theorem valid_of_ofFrames {frames : List Frame} {s : Script} (h : ofFrames frames = .ok s)
    (hframes : ∀ f ∈ frames, f.Valid) : s.Valid := by
  obtain ⟨hne, rfl, hends⟩ := ofFrames_eq_ok_iff.mp h
  exact ⟨hne, hends, hframes⟩

/-- The tokens of a spelled text stand for valid tags and for sprites with a letter. -/
theorem valid_of_spelling {tokens : List Text.Token} {text : List Char}
    (h : Text.Spelling tokens text) :
    ∀ {pending : List Tag}, (∀ tag ∈ pending, tag.Valid) →
      ∀ f ∈ (Text.framesOf pending tokens).1, f.Valid := by
  induction h with
  | nil =>
    intro pending _ f hmem
    cases hmem
  | @cons token tokens first rest head tail ih =>
    intro pending hpending f hmem
    cases token with
    | separator => exact ih hpending f hmem
    | tag tag =>
      refine ih ?_ f hmem
      intro t ht
      rcases List.mem_append.mp ht with hin | hlast
      · exact hpending t hin
      · obtain rfl : t = tag := List.mem_singleton.mp hlast
        exact Tag.valid_of_spelling head
    | frame sprite length =>
      rcases List.mem_cons.mp hmem with rfl | hin
      · obtain ⟨c, digits, _, letter, _, _⟩ := Text.Token.spelling_frame_iff.mp head
        exact ⟨Sprite.le_last_of_ofLetter? letter, hpending⟩
      · refine ih ?_ f hin
        intro t ht
        cases ht

theorem valid_of_decode {text : String} {s : Script} (h : Text.decode text = .ok s) :
    s.Valid := by
  unfold Text.decode at h
  obtain ⟨tokens, hspell, _, hframes⟩ := Text.decodeChars_eq_ok_iff.mp h
  refine valid_of_ofFrames hframes (valid_of_spelling hspell ?_)
  intro tag hmem
  cases hmem

/-! ## End ticks of a valid script -/

theorem Valid.exists_end {s : Script} (h : s.Valid) {index : Nat} (hlt : index < s.count) :
    ∃ finish, s.end? index = some finish := by
  have hlength : s.ends.length = s.count := by
    rw [(endsFrom_zero_eq_some_iff.mp h.ends).1, totals, List.length_map, List.length_range,
      count]
  have hlt' : index < s.ends.length := by rwa [hlength]
  exact ⟨s.ends[index], List.getElem?_eq_getElem hlt'⟩

/-- A later frame does not end earlier. -/
theorem Valid.end_le {s : Script} (h : s.Valid) {i j a b : Nat} (hij : i ≤ j)
    (ha : s.end? i = some a) (hb : s.end? j = some b) : a ≤ b := by
  rcases Nat.eq_or_lt_of_le hij with rfl | hlt
  · rw [ha, Option.some.injEq] at hb
    exact Nat.le_of_eq hb
  · obtain ⟨hi, rfl⟩ := List.getElem?_eq_some_iff.mp ha
    obtain ⟨hj, rfl⟩ := List.getElem?_eq_some_iff.mp hb
    exact List.pairwise_iff_getElem.mp (endsFrom_pairwise h.ends) i j hi hj hlt

/-! ## Editing -/

/-- Where a change applies, the frame is replaced by what the change makes of it. -/
theorem changeFrame_cases {α : Type} (s : Script) (index : Nat) (change : Frame → α × Frame) :
    (s.changeFrame index change).2 = s ∨
      ∃ f ∈ s.frames, s.frame? index = some f ∧
        (s.changeFrame index change).2 =
          { s with frames := s.frames.set index (change f).2 } := by
  unfold changeFrame
  cases hf : s.frame? index with
  | none => exact Or.inl rfl
  | some f => exact Or.inr ⟨f, List.mem_of_getElem? hf, rfl, rfl⟩

/-- Putting a frame of the same length in the place of another one leaves the
totals as they were. -/
theorem endsFrom_set {frames : List Frame} {index : Nat} {f g : Frame}
    (hf : frames[index]? = some f)
    (hlength : g.length = f.length) (total : Nat) :
    endsFrom total (frames.set index g) = endsFrom total frames := by
  refine endsFrom_congr ?_ total
  obtain ⟨hlt, rfl⟩ := List.getElem?_eq_some_iff.mp hf
  have hlt' : index < (frames.map Frame.length).length := by rwa [List.length_map]
  have hget : (frames.map Frame.length)[index] = frames[index].length :=
    List.getElem_map Frame.length
  rw [List.map_set, hlength, ← hget, List.set_getElem_self]

/-- A script stays valid with a valid frame put in the place of one of its own, if
the ends are right. -/
theorem Valid.set {s : Script} (h : s.Valid) {index : Nat} {g : Frame} {ends : List Nat}
    (hg : g.Valid) (hends : endsFrom 0 (s.frames.set index g) = some ends) :
    Script.Valid ⟨s.frames.set index g, ends⟩ := by
  refine ⟨?_, hends, ?_⟩
  · intro hnil
    exact h.nonempty ((List.set_eq_nil_iff _ _).mp hnil)
  · intro f hmem
    rcases List.mem_or_eq_of_mem_set hmem with hin | rfl
    · exact h.frames f hin
    · exact hg

/-- A change keeps a script valid if it keeps frames valid and as long as they are. -/
theorem Valid.changeFrame {α : Type} {s : Script} (h : s.Valid) (index : Nat)
    {change : Frame → α × Frame} (hvalid : ∀ f : Frame, f.Valid → (change f).2.Valid)
    (hlength : ∀ f : Frame, (change f).2.length = f.length) :
    (s.changeFrame index change).2.Valid := by
  rcases changeFrame_cases s index change with hsame | ⟨f, hmem, hf, hset⟩
  · rw [hsame]
    exact h
  · rw [hset]
    refine h.set (hvalid f (h.frames f hmem)) ?_
    rw [endsFrom_set hf (hlength f), h.ends]

/-- An appended frame goes on from the last end. -/
theorem Valid.appendFrame {s : Script} (h : s.Valid) (sprite length : Nat) :
    (s.appendFrame sprite length).2.Valid := by
  unfold Script.appendFrame
  split
  next => exact h
  next frame hblank =>
    obtain ⟨_, rfl⟩ := Frame.blank_eq_ok_iff.mp hblank
    simp only
    split
    next hle =>
      refine ⟨?_, ?_, ?_⟩
      · exact List.append_ne_nil_of_right_ne_nil _ (List.cons_ne_nil _ [])
      · refine endsFrom_append h.ends ?_
        rw [endsFrom_cons_eq_some_iff]
        exact ⟨hle, [], rfl, rfl⟩
      · intro f hmem
        rcases List.mem_append.mp hmem with hin | hlast
        · exact h.frames f hin
        · rw [List.mem_singleton.mp hlast]
          exact Frame.valid_of_blank hblank
    next => exact h

theorem Valid.setTag {s : Script} (h : s.Valid) (index : Nat) (mnemonic : String)
    (value : Option Int32) : (s.setTag index mnemonic value).2.Valid := by
  unfold Script.setTag
  split
  next => exact h
  next tag hmake =>
    refine h.changeFrame index ?_ (fun f => rfl)
    intro f hf
    have hothers : Frame.Valid { f with tags := f.tags.filter (·.kind != tag.kind) } :=
      hf.subset fun t ht => (List.mem_filter.mp ht).1
    exact hothers.append (Tag.make_eq_ok_iff.mp hmake).2.2

theorem Valid.deleteTag {s : Script} (h : s.Valid) (index : Nat) (mnemonic : String) :
    (s.deleteTag index mnemonic).2.Valid := by
  unfold Script.deleteTag
  split
  next => exact h
  next kind _ =>
    refine h.changeFrame index ?_ (fun f => rfl)
    intro f hf
    exact hf.subset fun t ht => List.mem_of_mem_eraseP ht

theorem Valid.clearTags {s : Script} (h : s.Valid) (index : Nat) :
    (s.clearTags index).2.Valid := by
  refine h.changeFrame index ?_ (fun f => rfl)
  intro f hf
  refine hf.subset fun t ht => ?_
  cases ht

/-- Setting a sprite keeps a script valid, because a sprite without a letter is refused. -/
theorem Valid.setSprite {s : Script} (h : s.Valid) (index sprite : Nat) :
    (s.setSprite index sprite).2.Valid := by
  unfold Script.setSprite
  split
  next hle => exact h.changeFrame index (fun f hf => ⟨hle, hf.tags⟩) (fun f => rfl)
  next => exact h

theorem withLength_eq_set {frames : List Frame} {index : Nat} {frame : Frame}
    (h : frames[index]? = some frame) (length : Nat) :
    withLength frames index length = frames.set index { frame with length } := by
  obtain ⟨hlt, rfl⟩ := List.getElem?_eq_some_iff.mp h
  refine List.ext_getElem? fun i => ?_
  rw [withLength, List.getElem?_modify, List.getElem?_set]
  by_cases hi : index = i
  · subst hi
    simp [hlt]
  · simp [hi]

/-- A frame that gets its old length back is what it was, and the others never changed. -/
theorem withLength_withLength {frames : List Frame} {index : Nat} {frame : Frame}
    (h : frames[index]? = some frame) (length : Nat) :
    withLength (withLength frames index length) index frame.length = frames := by
  obtain ⟨hlt, rfl⟩ := List.getElem?_eq_some_iff.mp h
  have hchanged : (withLength frames index length)[index]? =
      some { frames[index] with length } := by
    rw [withLength_eq_set h, List.getElem?_set_self hlt]
  rw [withLength_eq_set hchanged, withLength_eq_set h, List.set_set]
  exact List.set_getElem_self hlt

/-- Setting a length changes the frame, or nothing at all. -/
theorem setLength_eq (s : Script) (index length : Nat) :
    s.setLength index length =
      match s.frame? index with
      | none => (.error (.frameOutOfRange index s.count), s)
      | some frame =>
        match endsFrom 0 (s.frames.set index { frame with length }) with
        | none => (.error .tickOverflow, s)
        | some ends => (.ok (), ⟨s.frames.set index { frame with length }, ends⟩) := by
  unfold setLength
  cases hf : s.frame? index with
  | none => rfl
  | some frame =>
    have hback := withLength_withLength hf length
    simp only [withLength_eq_set hf] at hback ⊢
    cases endsFrom 0 (s.frames.set index { frame with length }) with
    | none => simp only [hback]
    | some ends => rfl

/-- Setting a length keeps a script valid, because the ends are added up again. -/
theorem Valid.setLength {s : Script} (h : s.Valid) (index length : Nat) :
    (s.setLength index length).2.Valid := by
  rw [setLength_eq]
  split
  next => exact h
  next frame hf =>
    split
    next => exact h
    next ends hends =>
      have hframe := h.frames frame (List.mem_of_getElem? hf)
      exact h.set ⟨hframe.sprite, hframe.tags⟩ hends

/-- What can be asked of a script that is being edited. -/
inductive Edit where
  | appendFrame (sprite length : Nat)
  | setTag (index : Nat) (mnemonic : String) (value : Option Int32)
  | deleteTag (index : Nat) (mnemonic : String)
  | clearTags (index : Nat)
  | setLength (index length : Nat)
  | setSprite (index sprite : Nat)

/-- The script after an edit, accepted or refused. -/
def Edit.apply (s : Script) : Edit → Script
  | .appendFrame sprite length => (s.appendFrame sprite length).2
  | .setTag index mnemonic value => (s.setTag index mnemonic value).2
  | .deleteTag index mnemonic => (s.deleteTag index mnemonic).2
  | .clearTags index => (s.clearTags index).2
  | .setLength index length => (s.setLength index length).2
  | .setSprite index sprite => (s.setSprite index sprite).2

theorem Valid.apply {s : Script} (h : s.Valid) (e : Edit) : (e.apply s).Valid := by
  cases e with
  | appendFrame sprite length => exact h.appendFrame sprite length
  | setTag index mnemonic value => exact h.setTag index mnemonic value
  | deleteTag index mnemonic => exact h.deleteTag index mnemonic
  | clearTags index => exact h.clearTags index
  | setLength index length => exact h.setLength index length
  | setSprite index sprite => exact h.setSprite index sprite

/-- The scripts that come about: read from a text or made of frames, and then edited. -/
inductive Reachable : Script → Prop where
  | decoded {text : String} {s : Script} (accepted : Text.decode text = .ok s) : Reachable s
  | made {frames : List Frame} {s : Script} (built : ∀ f ∈ frames, f.Built)
      (accepted : ofFrames frames = .ok s) : Reachable s
  | edited {s : Script} (reached : Reachable s) (e : Edit) : Reachable (e.apply s)

/-- Every script that comes about is valid. -/
theorem Reachable.valid {s : Script} (h : s.Reachable) : s.Valid := by
  induction h with
  | decoded accepted => exact valid_of_decode accepted
  | made built accepted => exact valid_of_ofFrames accepted fun f hf => (built f hf).valid
  | edited _ e ih => exact ih.apply e

/-- The scripts that come about are the valid ones: each can be made of its frames. -/
theorem reachable_iff_valid {s : Script} : s.Reachable ↔ s.Valid := by
  refine ⟨Reachable.valid, ?_⟩
  intro h
  exact .made (fun f hf => (h.frames f hf).built)
    (ofFrames_eq_ok_iff.mpr ⟨h.nonempty, rfl, h.ends⟩)

/-- A frame of three ticks and one of four, without tags. -/
def twoFrames : Script :=
  ⟨[⟨0, 3, []⟩, ⟨1, 4, []⟩], [3, 7]⟩

theorem reachable_twoFrames : twoFrames.Reachable :=
  reachable_iff_valid.mpr (by decide)

end Script

end Flipbook
