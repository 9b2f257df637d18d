import Flipbook.Player.Snapshot
import Flipbook.Proofs.Player.Runs
import Flipbook.Proofs.Valid

/-!
# Cursors that can be reached

`Advances` says what a tick does to a cursor, one constructor for each case: it is
ignored, it comes before the origin, it starts playback, or it goes on with it.
`Cursor.Reached` is every cursor over a script that comes about from a fresh one by ticks,
resets, seeks and snapshots of other reached cursors, in any order.

A snapshot of a cursor is either refused or puts the state of that cursor back
(`restore_snapshot`), so that restoring adds no states of its own.
-/

namespace Flipbook

/-! ## Ticks -/

/-- What a tick does to a cursor. -/
inductive Cursor.Advances (c : Cursor) (tick : Nat) : Advance → Prop where
  | ignored (deaf : c.head.phase = .finished ∨ c.head.lastTick.any (tick < ·) = true) :
      Advances c tick ⟨c, []⟩
  | early (live : c.head.phase ≠ .finished) (onward : c.head.lastTick.any (tick < ·) = false)
      (before : (tick : Int) < c.head.origin.getD tick) :
      Advances c tick
        ⟨{ c with
            head := { c.head with
              lastTick := some tick
              origin := some (c.head.origin.getD tick) } }, []⟩
  | starts (idle : c.head.phase = .idle) (onward : c.head.lastTick.any (tick < ·) = false)
      (due : c.head.origin.getD tick ≤ (tick : Int)) :
      Advances c tick (c.settle tick (Position.start (c.elapsedAt tick) c.script c.settings))
  | runs (playing : c.head.phase = .playing) (onward : c.head.lastTick.any (tick < ·) = false)
      (due : c.head.origin.getD tick ≤ (tick : Int)) :
      Advances c tick
        (c.settle tick
          (Position.run ⟨c.elapsedAt tick, c.head.frame, c.head.carried⟩ c.script c.settings))

theorem Cursor.advances_advance (c : Cursor) (tick : Nat) :
    c.Advances tick (c.advance tick) := by
  unfold Cursor.advance
  by_cases hover : c.head.phase = .finished ∨ c.head.lastTick.any (tick < ·) = true
  · rw [if_pos (by simpa using hover)]
    exact .ignored hover
  · rw [if_neg (by simpa using hover)]
    rw [not_or, Bool.not_eq_true] at hover
    obtain ⟨hlive, honward⟩ := hover
    simp only
    split
    next hbefore => exact .early hlive honward hbefore
    next hdue =>
      cases hphase : c.head.phase with
      | idle => exact .starts hphase honward (Int.not_lt.mp hdue)
      | playing => exact .runs hphase honward (Int.not_lt.mp hdue)
      | finished => exact absurd hphase hlive

/-! ## Snapshots of cursors -/

theorem Tag.Kind.ofId?_id (kind : Tag.Kind) : ofId? kind.id = some kind := by
  cases kind <;> rfl

/-- An entry that was made of a record gives the record back, if it gives one. -/
theorem Snapshot.Entry.eq_of_check {count : Nat} {entry record : Carried}
    (h : Snapshot.Entry.check ⟨entry.kind.id, entry.value, entry.frame⟩ count = .ok record) :
    record = entry := by
  unfold Snapshot.Entry.check at h
  rw [Tag.Kind.ofId?_id] at h
  simp only at h
  split at h
  next => cases h
  next =>
    split at h
    next => cases h
    next =>
      cases h
      rfl

theorem Snapshot.eq_of_checkAll {count : Nat} {entries : List Carried} :
    ∀ {records : List Carried},
      checkAll count (entries.map fun entry => ⟨entry.kind.id, entry.value, entry.frame⟩) =
        .ok records →
        records = entries := by
  induction entries with
  | nil =>
    intro records h
    cases h
    rfl
  | cons entry rest ih =>
    intro records h
    rw [List.map_cons] at h
    unfold checkAll at h
    split at h
    next => cases h
    next record hrecord =>
      obtain ⟨others, hrest, rfl⟩ := map_eq_ok_iff.mp h
      rw [Snapshot.Entry.eq_of_check hrecord, ih hrest]

/-- Restoring a snapshot of a cursor changes nothing or puts that cursor's state back. -/
theorem Cursor.restore_snapshot (c d : Cursor) :
    (c.restore d.snapshot).2 = c ∨ (c.restore d.snapshot).2 = { c with head := d.head } := by
  unfold Cursor.restore
  cases hcheck : d.snapshot.check c.script.count with
  | error m => exact Or.inl rfl
  | ok head =>
    refine Or.inr ?_
    unfold Snapshot.check at hcheck
    split at hcheck
    next => cases hcheck
    next =>
      split at hcheck
      next => cases hcheck
      next =>
        obtain ⟨records, hall, rfl⟩ := map_eq_ok_iff.mp hcheck
        rw [Snapshot.eq_of_checkAll hall]
        rfl

/-! ## Reached cursors -/

/-- The cursors over a script that come about from fresh ones. A snapshot may come from a
cursor with other settings. -/
inductive Cursor.Reached (s : Script) : Cursor → Prop where
  | new (settings : Settings) : Reached s (.new s settings)
  | startingAt (tick : Nat) : Reached s (.startingAt s tick)
  | advance {c : Cursor} (reached : Reached s c) (tick : Nat) :
      Reached s (c.advance tick).cursor
  | reset {c : Cursor} (reached : Reached s c) : Reached s c.reset
  | goTo {c : Cursor} (reached : Reached s c) (frame tick : Nat) :
      Reached s (c.goTo frame tick).2
  | restore {c d : Cursor} (reached : Reached s c) (taken : Reached s d) :
      Reached s (c.restore d.snapshot).2

theorem Cursor.Advances.script_eq {c : Cursor} {tick : Nat} {a : Advance}
    (h : c.Advances tick a) :
    a.cursor.script = c.script ∧ a.cursor.settings = c.settings := by
  cases h <;> exact ⟨rfl, rfl⟩

/-- A seek shows a frame of the script with the tags carried there. -/
theorem Cursor.goTo_of_start? (c : Cursor) {frame start : Nat}
    (sought : c.script.start? frame = some start) (tick : Nat) :
    (c.goTo frame tick).2 = { c with head :=
      { phase := .playing, lastTick := some tick, origin := some (tick - start), frame,
        carried := c.script.carriedThrough frame } } := by
  unfold goTo
  rw [sought]

/-- A seek beyond the script changes nothing. -/
theorem Cursor.goTo_cases (c : Cursor) (frame tick : Nat) :
    (c.goTo frame tick).2 = c ∨
      ∃ start, c.script.start? frame = some start ∧
        (c.goTo frame tick).2 = { c with head :=
          { phase := .playing, lastTick := some tick, origin := some (tick - start), frame,
            carried := c.script.carriedThrough frame } } := by
  cases hstart : c.script.start? frame with
  | none =>
    unfold Cursor.goTo
    rw [hstart]
    exact Or.inl rfl
  | some start => exact Or.inr ⟨start, rfl, c.goTo_of_start? hstart tick⟩

theorem Cursor.Reached.script_eq {s : Script} {c : Cursor} (h : c.Reached s) :
    c.script = s := by
  induction h with
  | new | startingAt => rfl
  | @advance c _ tick ih => rw [(c.advances_advance tick).script_eq.1, ih]
  | reset _ ih => exact ih
  | @goTo c _ frame tick ih =>
    rcases c.goTo_cases frame tick with hsame | ⟨start, _, hgoes⟩
    · rw [hsame, ih]
    · rw [hgoes]
      exact ih
  | @restore c d _ _ ih _ =>
    rcases c.restore_snapshot d with hsame | hback
    · rw [hsame, ih]
    · rw [hback]
      exact ih

/-- What holds of every state without a frame and of every state that a seek leaves, and
is kept by ticks, holds of every reached cursor. Snapshots need no case, because they hold
no states of their own. -/
theorem Cursor.Reached.head_induction {s : Script} {P : Playhead → Prop}
    (idle : ∀ origin, P (.idle origin))
    (tick : ∀ c tick a, c.script = s → Cursor.Advances c tick a → P c.head → P a.cursor.head)
    (sought : ∀ frame tick start, s.start? frame = some start →
      P ⟨.playing, some tick, some (tick - start), frame, s.carriedThrough frame⟩)
    {c : Cursor} (h : c.Reached s) : P c.head := by
  induction h with
  | new => exact idle _
  | startingAt => exact idle _
  | @advance c hc t ih => exact tick c t _ hc.script_eq (c.advances_advance t) ih
  | reset => exact idle _
  | @goTo c hc frame t ih =>
    rcases c.goTo_cases frame t with hsame | ⟨start, hstart, hgoes⟩
    · rw [hsame]
      exact ih
    · rw [hgoes]
      rw [hc.script_eq] at hstart ⊢
      exact sought frame t start hstart
  | @restore c d _ _ ihc ihd =>
    rcases c.restore_snapshot d with hsame | hback
    · rw [hsame]
      exact ihc
    · rw [hback]
      exact ihd

end Flipbook
