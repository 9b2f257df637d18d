import Mathlib.Logic.ExistsUnique
import Flipbook.Proofs.Script.Intervals

/-!
# Looking up the frame at a tick

Main statement: `frames_divide_time`. The frames of a script divide its time among them: a
frame shows from its start up to its end and at no other tick, so that one frame shows at
each tick before the end of the script and none from there on. Between two ticks the look-up
changes exactly if a frame ends in between, be it one without length that never shows itself.

The look-up asks for the first end that is still to come. As ends do not fall, those that
have passed by a tick stand before all others. Wherever the ends split in this way, the
look-up gives the frame behind the place (`Valid.indexAt?_of_splitsAt`), and the place can
be found by halving: each comparison moves one of two bounds and keeps the place between
them (`Brackets`).
-/

namespace Flipbook.Script

variable {s : Script} {tick index low high : Nat}

/-! ## When a frame shows -/

/-- The tick is not before the start of the frame, and before its end. -/
def Shows (s : Script) (index tick : Nat) : Prop :=
  ∃ start finish, s.start? index = some start ∧ s.end? index = some finish ∧
    start ≤ tick ∧ tick < finish

theorem Valid.shows_iff (h : s.Valid) : s.Shows index tick ↔ s.indexAt? tick = some index := by
  rw [h.indexAt?_eq_some_iff]
  constructor
  · intro ⟨start, finish, hstart, hend, hle, hlt⟩
    obtain ⟨hindex, rfl⟩ := h.start?_eq_some_iff.mp hstart
    obtain ⟨_, rfl⟩ := h.end?_eq_some_iff.mp hend
    exact ⟨hindex, hle, hlt⟩
  · intro ⟨hindex, hle, hlt⟩
    exact ⟨_, _, h.start?_eq hindex, h.end?_eq hindex, hle, hlt⟩

theorem Valid.existsUnique_shows (h : s.Valid) (hlt : tick < s.total) :
    ∃! index, s.Shows index tick := by
  cases hshown : s.indexAt? tick with
  | none => exact absurd (h.indexAt?_eq_none_iff.mp hshown) (Nat.not_le.mpr hlt)
  | some index =>
    refine ⟨index, h.shows_iff.mpr hshown, ?_⟩
    intro other hother
    rw [h.shows_iff, hshown, Option.some.injEq] at hother
    exact hother.symm

theorem Valid.not_shows (h : s.Valid) (hle : s.total ≤ tick) (index : Nat) :
    ¬ s.Shows index tick := by
  rw [h.shows_iff, h.indexAt?_eq_none_iff.mpr hle]
  exact nofun

/-- A frame without length never shows. -/
theorem Valid.length_pos_of_shows (h : s.Valid) (hshows : s.Shows index tick) {f : Frame}
    (hf : s.frame? index = some f) : 0 < f.length := by
  obtain ⟨_, hle, hlt⟩ := h.indexAt?_eq_some_iff.mp (h.shows_iff.mp hshows)
  rw [before_succ hf] at hlt
  omega

/-! ## Between two ticks -/

/-- While no frame ends, the same one shows. -/
theorem Valid.indexAt?_eq_of_no_end (h : s.Valid) {a b : Nat} (hle : a ≤ b)
    (hnone : ∀ index finish, s.end? index = some finish → a < finish → b < finish) :
    s.indexAt? a = s.indexAt? b := by
  cases hshown : s.indexAt? a with
  | none =>
    have htotal := h.indexAt?_eq_none_iff.mp hshown
    exact (h.indexAt?_eq_none_iff.mpr (Nat.le_trans htotal hle)).symm
  | some shown =>
    obtain ⟨hindex, hstart, hlt⟩ := h.indexAt?_eq_some_iff.mp hshown
    have hstill := hnone shown _ (h.end?_eq hindex) hlt
    exact (h.indexAt?_eq_some_iff.mpr ⟨hindex, Nat.le_trans hstart hle, hstill⟩).symm

/-- Once a frame has ended, no frame up to it shows any more. -/
theorem Valid.indexAt?_ne_of_end (h : s.Valid) {a b finish : Nat}
    (hend : s.end? index = some finish)
    (hlt : a < finish) (hle : finish ≤ b) : s.indexAt? a ≠ s.indexAt? b := by
  obtain ⟨hindex, rfl⟩ := h.end?_eq_some_iff.mp hend
  intro hsame
  cases hshown : s.indexAt? a with
  | none =>
    have htotal := h.indexAt?_eq_none_iff.mp hshown
    have hmono := s.before_mono (i := index + 1) hindex
    rw [h.total_eq] at htotal
    omega
  | some shown =>
    obtain ⟨_, hstart, _⟩ := h.indexAt?_eq_some_iff.mp hshown
    obtain ⟨_, _, hstill⟩ := h.indexAt?_eq_some_iff.mp (hsame ▸ hshown)
    have hearlier : shown < index + 1 := lt_of_before_lt (Nat.lt_of_le_of_lt hstart hlt)
    have hmono := s.before_mono (i := shown + 1) hearlier
    omega

theorem changes_comm (s : Script) (a b : Nat) : s.changes b a = s.changes a b := by
  unfold changes
  rw [bne_comm, bne_comm (a := s.indexAt? b)]

theorem Valid.changes_iff (h : s.Valid) {a b : Nat} (hlt : a < b) :
    s.changes a b = true ↔
      ∃ index finish, s.end? index = some finish ∧ a < finish ∧ finish ≤ b := by
  have hchanges : s.changes a b = true ↔ s.indexAt? a ≠ s.indexAt? b := by
    simp [changes, Nat.ne_of_lt hlt]
  rw [hchanges]
  constructor
  · intro hne
    refine Classical.byContradiction fun hnone =>
      hne (h.indexAt?_eq_of_no_end (Nat.le_of_lt hlt) ?_)
    intro index finish hend hafter
    exact Nat.lt_of_not_le fun hpassed => hnone ⟨index, finish, hend, hafter, hpassed⟩
  · intro ⟨index, finish, hend, hafter, hpassed⟩
    exact h.indexAt?_ne_of_end hend hafter hpassed

/-! ## Where the ends split -/

/-- The ends before `low` have passed by the tick, and those from `high` on
are still to come. -/
structure Brackets (s : Script) (tick low high : Nat) : Prop where
  low_le : low ≤ high
  high_le : high ≤ s.count
  passed : ∀ i < low, ∀ finish, s.end? i = some finish → finish ≤ tick
  ahead : ∀ i, high ≤ i → ∀ finish, s.end? i = some finish → tick < finish

/-- The ends before `n` are exactly those that have passed by the tick. -/
def SplitsAt (s : Script) (tick n : Nat) : Prop :=
  s.Brackets tick n n

/-- Wherever the ends split, the frame behind the place shows. -/
theorem Valid.indexAt?_of_splitsAt (h : s.Valid) {n : Nat} (hsplit : s.SplitsAt tick n) :
    s.indexAt? tick = if n < s.count then some n else none := by
  have hstarted : s.before n ≤ tick := by
    cases n with
    | zero => exact Nat.zero_le _
    | succ n => exact hsplit.passed n (Nat.lt_succ_self n) _ (h.end?_eq hsplit.high_le)
  split
  next hlt =>
    exact h.indexAt?_eq_some_iff.mpr
      ⟨hlt, hstarted, hsplit.ahead n (Nat.le_refl n) _ (h.end?_eq hlt)⟩
  next hall =>
    rw [h.indexAt?_eq_none_iff, h.total_eq]
    rwa [Nat.le_antisymm hsplit.high_le (Nat.le_of_not_lt hall)] at hstarted

/-- Looks for the place where the ends split between two bounds, by halving. -/
def splitPoint (s : Script) (tick low high : Nat) : Nat :=
  if low < high then
    let middle := low + (high - low) / 2
    if (s.end? middle).any (· ≤ tick) then s.splitPoint tick (middle + 1) high
    else s.splitPoint tick low middle
  else low
termination_by high - low

/-- If an end has passed, so have all before it. -/
theorem Brackets.raise (hs : s.Valid) (h : s.Brackets tick low high) {middle finish : Nat}
    (hlt : middle < high) (hend : s.end? middle = some finish) (hpassed : finish ≤ tick) :
    s.Brackets tick (middle + 1) high := by
  refine ⟨hlt, h.high_le, ?_, h.ahead⟩
  intro i hi finish' hend'
  exact Nat.le_trans (hs.end_le (Nat.le_of_lt_succ hi) hend' hend) hpassed

/-- If an end is still to come, so are all behind it. -/
theorem Brackets.lower (hs : s.Valid) (h : s.Brackets tick low high) {middle finish : Nat}
    (hle : low ≤ middle) (hlt : middle < high) (hend : s.end? middle = some finish)
    (hahead : tick < finish) : s.Brackets tick low middle := by
  refine ⟨hle, Nat.le_trans (Nat.le_of_lt hlt) h.high_le, h.passed, ?_⟩
  intro i hi finish' hend'
  exact Nat.lt_of_lt_of_le hahead (hs.end_le hi hend hend')

/-- Halving ends at the place where the ends split. -/
theorem Brackets.splitsAt_splitPoint (hs : s.Valid) (h : s.Brackets tick low high) :
    s.SplitsAt tick (s.splitPoint tick low high) := by
  fun_induction splitPoint s tick low high with
  | case1 low high hlt middle hpassed ih =>
    obtain ⟨finish, hend, hle⟩ := (Option.any_eq_true _ _).mp hpassed
    exact ih (h.raise hs (by omega) hend (of_decide_eq_true hle))
  | case2 low high hlt middle hnot ih =>
    have hmiddle : middle < high := by omega
    obtain ⟨finish, hend⟩ := hs.exists_end (Nat.lt_of_lt_of_le hmiddle h.high_le)
    refine ih (h.lower hs (by omega) hmiddle hend ?_)
    simpa [hend] using hnot
  | case3 low high hdone =>
    have hsame : low = high := Nat.le_antisymm h.low_le (Nat.le_of_not_lt hdone)
    subst hsame
    exact h

theorem Valid.brackets_count (h : s.Valid) (tick : Nat) : s.Brackets tick 0 s.count := by
  refine ⟨Nat.zero_le _, Nat.le_refl _, nofun, ?_⟩
  intro i hi finish hend
  exact absurd (h.end?_eq_some_iff.mp hend).1 (Nat.not_lt.mpr hi)

/-! ## The whole timeline -/

/-- A frame starts after the ticks of the frames before it and shows up to its end: it is
then that the look-up gives it. Exactly one frame shows before the end of the script, and
none from there on; a frame without length never does. Of two ticks the look-up changes,
in either order, exactly if a frame ends after the earlier one and by the later one.
Wherever a search finds that the ends split, it finds the frame of the look-up, and
halving finds such a place. -/
theorem frames_divide_time (hs : s.Reachable) :
    (∀ index start, s.start? index = some start ↔
        index < s.count ∧ ticks (s.frames.take index) = start) ∧
      (∀ tick index, s.indexAt? tick = some index ↔ s.Shows index tick) ∧
      (∀ tick < s.total, ∃! index, s.Shows index tick) ∧
      (∀ tick, s.total ≤ tick → ∀ index, ¬ s.Shows index tick) ∧
      (∀ tick index f, s.indexAt? tick = some index → s.frame? index = some f → 0 < f.length) ∧
      (∀ a b, a < b →
        (s.changes a b = true ↔
          ∃ index finish, s.end? index = some finish ∧ a < finish ∧ finish ≤ b) ∧
        s.changes b a = s.changes a b) ∧
      (∀ tick n, s.SplitsAt tick n → s.indexAt? tick = if n < s.count then some n else none) ∧
      ∀ tick, s.SplitsAt tick (s.splitPoint tick 0 s.count) := by
  have hvalid := hs.valid
  refine ⟨?_, ?_, ?_, ?_, ?_, ?_, ?_, ?_⟩
  · intro index start
    exact hvalid.start?_eq_some_iff
  · intro tick index
    exact hvalid.shows_iff.symm
  · intro tick hlt
    exact hvalid.existsUnique_shows hlt
  · intro tick hle
    exact hvalid.not_shows hle
  · intro tick index f hshown hf
    exact hvalid.length_pos_of_shows (hvalid.shows_iff.mpr hshown) hf
  · intro a b hlt
    exact ⟨hvalid.changes_iff hlt, s.changes_comm a b⟩
  · intro tick n hsplit
    exact hvalid.indexAt?_of_splitsAt hsplit
  · intro tick
    exact (hvalid.brackets_count tick).splitsAt_splitPoint hvalid

/-- Of four frames the first and the third have no length. One frame shows at tick zero,
and it is the second; from tick two to tick three the frame changes, where the third one
starts and ends. -/
theorem frames_divide_time_around_empty :
    Reachable ⟨[⟨0, 0, []⟩, ⟨1, 3, []⟩, ⟨2, 0, []⟩, ⟨3, 4, []⟩], [0, 3, 3, 7]⟩ ∧
      (∃! index,
        Shows ⟨[⟨0, 0, []⟩, ⟨1, 3, []⟩, ⟨2, 0, []⟩, ⟨3, 4, []⟩], [0, 3, 3, 7]⟩ index 0) ∧
      Shows ⟨[⟨0, 0, []⟩, ⟨1, 3, []⟩, ⟨2, 0, []⟩, ⟨3, 4, []⟩], [0, 3, 3, 7]⟩ 1 0 ∧
      changes ⟨[⟨0, 0, []⟩, ⟨1, 3, []⟩, ⟨2, 0, []⟩, ⟨3, 4, []⟩], [0, 3, 3, 7]⟩ 2 3 = true := by
  have hbuilt : ∀ f ∈ [Frame.mk 0 0 [], Frame.mk 1 3 [], Frame.mk 2 0 [], Frame.mk 3 4 []],
      f.Built := by
    intro f hf
    simp at hf
    rcases hf with rfl | rfl | rfl | rfl <;> exact Frame.built_of_le (by decide) _
  have hs : Reachable ⟨[⟨0, 0, []⟩, ⟨1, 3, []⟩, ⟨2, 0, []⟩, ⟨3, 4, []⟩], [0, 3, 3, 7]⟩ :=
    .made hbuilt rfl
  obtain ⟨_, hshown, hunique, _, _, hchanges, _⟩ := frames_divide_time hs
  refine ⟨hs, hunique 0 (by decide), (hshown 0 1).mp rfl, ?_⟩
  exact (hchanges 2 3 (by decide)).1.mpr ⟨1, 3, rfl, by decide, by decide⟩

end Flipbook.Script
