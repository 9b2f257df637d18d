import Flipbook.Proofs.Player.Final

/-!
# Ticks that change nothing

Main statements: `advance_quiet_or_enters` and `advance_again`. Whoever shows what a
cursor says reads its frame and its tags again only after a tick that was answered with a
change, and may send the same tick as often as it likes.

A run enters a frame exactly if what is due first is the next frame or another round
(`Runs.find?_log`), and otherwise it ends at the position where it began
(`Runs.position_eq`). So a tick without a change moves neither the frame nor the tags nor
the origin; all that can happen is that playback ends. After any tick that a cursor
follows nothing more is due (`Runs.move_eq_stay`), so that the same tick finds nothing to
do. A repeated part without length is the exception: it is gone round at every tick
(`advance_changes_of_stalls`).
-/

namespace Flipbook

variable {s : Script} {settings : Settings} {p : Position} {o : Outcome}

/-! ## The first frame that is entered -/

/-- Frames were entered exactly if there is a first one that was. -/
theorem Happening.any_isEntry_iff {log : List Happening} :
    log.any isEntry = true ↔ ∃ frame, log.find? isEntry = some (.entered frame) := by
  rw [List.any_eq_true, ← List.find?_isSome, Option.isSome_iff_exists]
  constructor
  · intro ⟨first, hfirst⟩
    cases first with
    | entered frame => exact ⟨frame, hfirst⟩
    | wrapped | jumped | finished => cases List.find?_some hfirst
  · intro ⟨frame, hfirst⟩
    exact ⟨.entered frame, hfirst⟩

namespace Position

/-- The frame that is entered next at a position, if one is due. -/
def upcoming? (p : Position) (s : Script) (settings : Settings) : Option Nat :=
  match p.move s settings with
  | .next => some (p.frame + 1)
  | .wrap _ => some 0
  | .stay | .finish => none

theorem upcoming?_eq_some_iff {frame : Nat} :
    p.upcoming? s settings = some frame ↔
      ∃ finish, s.end? p.frame = some finish ∧ finish ≤ p.elapsed ∧
        (p.frame < settings.lastFrame s ∧ frame = p.frame + 1 ∨
          settings.lastFrame s ≤ p.frame ∧ settings.repeats = true ∧ frame = 0) := by
  unfold upcoming?
  constructor
  · intro h
    cases hmove : p.move s settings with
    | stay | finish =>
      rw [hmove] at h
      cases h
    | next =>
      rw [hmove] at h
      cases h
      obtain ⟨finish, hend, hle, hlast⟩ := move_eq_next_iff.mp hmove
      exact ⟨finish, hend, hle, Or.inl ⟨hlast, rfl⟩⟩
    | wrap length =>
      rw [hmove] at h
      cases h
      obtain ⟨hend, hle, hlast, hrepeats⟩ := move_eq_wrap_iff.mp hmove
      exact ⟨length, hend, hle, Or.inr ⟨hlast, hrepeats, rfl⟩⟩
  · intro ⟨finish, hend, hle, hgoes⟩
    rcases hgoes with ⟨hlast, rfl⟩ | ⟨hlast, hrepeats, rfl⟩
    · rw [move_eq_next_iff.mpr ⟨finish, hend, hle, hlast⟩]
    · rw [move_eq_wrap_iff.mpr ⟨hend, hle, hlast, hrepeats⟩]

/-- The first frame that a run enters is the one that is due where it begins. -/
theorem Runs.find?_log (h : Runs s settings p o) :
    o.log.find? Happening.isEntry = (p.upcoming? s settings).map .entered := by
  unfold upcoming?
  cases h with
  | stay due | finish due | next due | nextJump due | wrap due | wrapEmpty due
  | wrapJump due =>
    rw [due]
    rfl

/-- A run that enters no frame ends at the position where it began. -/
theorem Runs.position_eq (h : Runs s settings p o)
    (hquiet : o.log.any Happening.isEntry = false) : o.position = p := by
  cases h with
  | stay => rfl
  | finish => rfl
  | next | nextJump | wrap | wrapEmpty | wrapJump => cases hquiet

end Position

namespace Cursor

variable {c : Cursor} {tick frame : Nat} {a : Advance}

/-- The frame that a tick enters first: it starts playback, or by this tick the current
frame has ended, and playback goes on to the next one or goes round. -/
inductive Enters (c : Cursor) (tick : Nat) : Nat → Prop where
  | starts (idle : c.head.phase = .idle)
      (onward : ∀ earlier, c.head.lastTick = some earlier → earlier ≤ tick)
      (due : c.head.origin.getD tick ≤ (tick : Int)) : Enters c tick 0
  | next (playing : c.head.phase = .playing) (ends : c.FrameEnds tick)
      (due : c.head.origin.getD tick ≤ (tick : Int))
      (goes : c.head.frame < c.settings.lastFrame c.script) : Enters c tick (c.head.frame + 1)
  | round (playing : c.head.phase = .playing) (ends : c.FrameEnds tick)
      (due : c.head.origin.getD tick ≤ (tick : Int))
      (last : c.settings.lastFrame c.script ≤ c.head.frame)
      (repeats : c.settings.repeats = true) :
      Enters c tick 0

/-- A tick that is ignored enters nothing. -/
theorem Enters.heard (h : c.Enters tick frame) :
    ¬ (c.head.phase = .finished ∨ c.head.lastTick.any (tick < ·) = true) := by
  cases h with
  | starts idle onward => simp [idle, onward_iff.mpr onward]
  | next playing ends => simp [playing, onward_iff.mpr ends.onward]
  | round playing ends => simp [playing, onward_iff.mpr ends.onward]

theorem Enters.due (h : c.Enters tick frame) : c.head.origin.getD tick ≤ (tick : Int) := by
  cases h with
  | starts _ _ due => exact due
  | next _ _ due => exact due
  | round _ _ due => exact due

theorem Enters.frameEnds (h : c.Enters tick frame) (playing : c.head.phase = .playing) :
    c.FrameEnds tick := by
  cases h with
  | starts idle =>
    rw [playing] at idle
    cases idle
  | next _ ends => exact ends
  | round _ ends => exact ends

/-- While a frame shows, a tick that is followed enters what is due at its position. -/
theorem enters_iff_upcoming (playing : c.head.phase = .playing)
    (onward : c.head.lastTick.any (tick < ·) = false)
    (due : c.head.origin.getD tick ≤ (tick : Int)) :
    c.Enters tick frame ↔
      Position.upcoming? ⟨c.elapsedAt tick, c.head.frame, c.head.carried⟩ c.script
        c.settings = some frame := by
  rw [Position.upcoming?_eq_some_iff]
  constructor
  · intro h
    obtain ⟨finish, hend, hle⟩ := (h.frameEnds playing).reached
    refine ⟨finish, hend, hle, ?_⟩
    cases h with
    | starts idle =>
      rw [playing] at idle
      cases idle
    | next _ _ _ goes => exact Or.inl ⟨goes, rfl⟩
    | round _ _ _ last repeats => exact Or.inr ⟨last, repeats, rfl⟩
  · intro ⟨finish, hend, hle, hgoes⟩
    have hends : c.FrameEnds tick := ⟨onward_iff.mp onward, finish, hend, hle⟩
    rcases hgoes with ⟨hlast, rfl⟩ | ⟨hlast, hrepeats, rfl⟩
    · exact .next playing hends due hlast
    · exact .round playing hends due hlast hrepeats

/-- The first frame entered at a tick is the one that the state of the cursor tells. -/
theorem Advances.find?_log_iff (h : c.Advances tick a) :
    a.log.find? Happening.isEntry = some (.entered frame) ↔ c.Enters tick frame := by
  cases h with
  | ignored deaf =>
    refine ⟨nofun, ?_⟩
    intro henters
    exact absurd deaf henters.heard
  | early _ _ before =>
    refine ⟨nofun, ?_⟩
    intro henters
    exact absurd henters.due (Int.not_le.mpr before)
  | starts idle onward due =>
    constructor
    · intro hfirst
      cases hfirst
      exact .starts idle (onward_iff.mp onward) due
    · intro henters
      cases henters with
      | starts => rfl
      | next playing | round playing =>
        rw [idle] at playing
        cases playing
  | runs playing onward due =>
    have hfirst := (Position.runs_run c.script c.settings
      ⟨c.elapsedAt tick, c.head.frame, c.head.carried⟩).find?_log
    show (Position.run _ _ _).log.find? _ = _ ↔ _
    rw [enters_iff_upcoming playing onward due, hfirst]
    simp

theorem Advances.changed_iff (h : c.Advances tick a) :
    a.changed = true ↔ ∃ frame, c.Enters tick frame := by
  refine Iff.trans Happening.any_isEntry_iff (exists_congr ?_)
  intro frame
  exact h.find?_log_iff

/-! ## What is shown -/

/-- Both cursors show the same frame and the same tags in effect there, and an origin that
is set is kept. Playback may have ended. -/
structure ShowsSame (c after : Cursor) : Prop where
  frame : after.head.frame = c.head.frame
  carried : after.head.carried = c.head.carried
  origin : ∀ origin, c.head.origin = some origin → after.head.origin = some origin
  active : ∀ mnemonic, after.active? mnemonic = c.active? mnemonic
  phase : after.head.phase = c.head.phase ∨
    c.head.phase = .playing ∧ after.head.phase = .finished

/-- The tags in effect depend on the frame, on what is carried there, and on whether
playback has started. -/
theorem active?_congr {after : Cursor} (hscript : after.script = c.script)
    (hframe : after.head.frame = c.head.frame) (hcarried : after.head.carried = c.head.carried)
    (hidle : after.head.phase = .idle ↔ c.head.phase = .idle) (mnemonic : String) :
    after.active? mnemonic = c.active? mnemonic := by
  unfold active? activeOf?
  simp only [hscript, hframe, hcarried, hidle]

/-- Stepping has left the start behind. -/
theorem playing_or_finished_settle (c : Cursor) (tick : Nat) (o : Outcome) :
    (c.settle tick o).cursor.head.phase = .playing ∨
      (c.settle tick o).cursor.head.phase = .finished := by
  unfold settle
  cases o.ended <;> simp

/-- Where a run of a playing cursor ends at the position where it began, the
cursor shows the same. -/
theorem showsSame_settle (playing : c.head.phase = .playing)
    (due : c.head.origin.getD tick ≤ (tick : Int))
    (hsame : o.position = ⟨c.elapsedAt tick, c.head.frame, c.head.carried⟩) :
    c.ShowsSame (c.settle tick o).cursor := by
  have hframe : o.position.frame = c.head.frame := congrArg Position.frame hsame
  have hcarried : o.position.carried = c.head.carried := congrArg Position.carried hsame
  have helapsed : o.position.elapsed = c.elapsedAt tick := congrArg Position.elapsed hsame
  have hphase := c.playing_or_finished_settle tick o
  refine ⟨hframe, hcarried, ?_, active?_congr rfl hframe hcarried ?_, ?_⟩
  · intro origin horigin
    unfold elapsedAt at helapsed
    rw [horigin, Option.getD_some] at due helapsed
    show some ((tick : Int) - o.position.elapsed) = some origin
    rw [Option.some.injEq]
    omega
  · rcases hphase with h | h <;> simp [h, playing]
  · rcases hphase with h | h
    · exact Or.inl (h.trans playing.symm)
    · exact Or.inr ⟨playing, h⟩

theorem Advances.showsSame (h : c.Advances tick a) (hquiet : a.changed = false) :
    c.ShowsSame a.cursor := by
  cases h with
  | ignored => exact ⟨rfl, rfl, fun _ h => h, fun _ => rfl, Or.inl rfl⟩
  | early =>
    refine ⟨rfl, rfl, ?_, fun _ => rfl, Or.inl rfl⟩
    intro origin horigin
    show some (c.head.origin.getD tick) = some origin
    rw [horigin, Option.getD_some]
  | starts => cases hquiet
  | runs playing _ due =>
    exact showsSame_settle playing due ((Position.runs_run ..).position_eq hquiet)

/-- A tick that is answered without a change shows what was shown before it, whatever state
the cursor is in; at most, playback has ended. A tick is answered with a change exactly if
it enters a frame, and which frame it enters first can be told from the state before it. -/
theorem advance_quiet_or_enters (hs : c.script.Reachable) (tick : Nat) :
    ((c.advance tick).changed = false → c.ShowsSame (c.advance tick).cursor) ∧
      ((c.advance tick).changed = true ↔ ∃ frame, c.Enters tick frame) ∧
      ∀ frame, c.Enters tick frame →
        frame < c.script.count ∧
          (c.advance tick).log.find? Happening.isEntry = some (.entered frame) := by
  have hadvances := c.advances_advance tick
  refine ⟨hadvances.showsSame, hadvances.changed_iff, ?_⟩
  intro frame henters
  have hfirst := hadvances.find?_log_iff.mpr henters
  exact ⟨hadvances.entered_lt hs.valid (List.mem_of_find?_eq_some hfirst), hfirst⟩

/-- A cursor is put into a state in which none ever was: the second frame shows, but no
tick has come. The frame ends at seven, so nothing changes at tick five, and at tick seven
the player goes round. -/
theorem advance_quiet_in_foreign_state :
    ∃ c : Cursor,
      (Cursor.new Script.twoFrames ⟨.absoluteTick, true, none⟩).restore
          ⟨.playing, none, some 0, 1, [⟨4, some 3, 0⟩]⟩ = (.ok (), c) ∧
        (c.advance 5).changed = false ∧ c.ShowsSame (c.advance 5).cursor ∧
        (c.advance 7).changed = true ∧
        (c.advance 7).log.find? Happening.isEntry = some (.entered 0) := by
  let c : Cursor := ⟨Script.twoFrames, ⟨.absoluteTick, true, none⟩,
    ⟨.playing, none, some 0, 1, [⟨.blendStart, some 3, 0⟩]⟩⟩
  have hs : c.script.Reachable := Script.reachable_twoFrames
  obtain ⟨hshows, hchanged, _⟩ := advance_quiet_or_enters hs 5
  obtain ⟨_, hchanged', hfirst⟩ := advance_quiet_or_enters hs 7
  have hquiet : (c.advance 5).changed = false := by
    rw [Bool.eq_false_iff, Ne, hchanged]
    intro ⟨frame, henters⟩
    obtain ⟨finish, hend, hle⟩ := (henters.frameEnds rfl).reached
    cases hend
    exact absurd hle (by decide)
  have hround : c.Enters 7 0 :=
    .round rfl ⟨nofun, 7, rfl, by decide⟩ (by decide) (by decide) rfl
  exact ⟨c, rfl, hquiet, hshows hquiet, hchanged'.mpr ⟨0, hround⟩, (hfirst 0 hround).2⟩

/-! ## The same tick again -/

/-- Where stepping has ended with nothing more due, the same tick finds nothing to do. -/
theorem advance_settle (c : Cursor) (tick : Nat)
    (hstay : o.ended = false → o.position.move c.script c.settings = .stay) :
    (c.settle tick o).cursor.advance tick = ⟨(c.settle tick o).cursor, []⟩ := by
  have hadvances := (c.settle tick o).cursor.advances_advance tick
  generalize (c.settle tick o).cursor.advance tick = a at hadvances ⊢
  cases hadvances with
  | ignored => rfl
  | early => rfl
  | starts idle =>
    rcases c.playing_or_finished_settle tick o with h | h <;> simp [h] at idle
  | runs playing =>
    -- stepping begins anew where it has ended
    have hon := (phase_settle c tick o).mp playing
    have hrun := (Position.Runs.stay (hstay hon)).run_eq
    rw [elapsedAt_settle]
    show settle _ tick (Position.run o.position c.script c.settings) = _
    rw [hrun]
    unfold settle
    rw [hon]

/-- What a tick leaves is left by the same tick. -/
theorem Advances.advance_eq (hs : c.script.Valid) (hmoves : ¬ c.settings.Stalls c.script)
    (h : c.Advances tick a) : a.cursor.advance tick = ⟨a.cursor, []⟩ := by
  cases h with
  | ignored deaf =>
    unfold advance
    rw [if_pos (by simpa using deaf)]
  | early _ _ before =>
    -- the tick has become the last one, and it is still before the origin
    generalize hearly : Cursor.mk c.script c.settings
      { c.head with lastTick := some tick, origin := some (c.head.origin.getD tick) } = early
    have hadvances := early.advances_advance tick
    generalize early.advance tick = a at hadvances ⊢
    subst hearly
    cases hadvances with
    | ignored => rfl
    | early => rfl
    | starts _ _ due => exact absurd due (Int.not_le.mpr before)
    | runs _ _ due => exact absurd due (Int.not_le.mpr before)
  | starts => exact advance_settle c tick (Position.start_move_eq_stay hs hmoves)
  | runs => exact advance_settle c tick ((Position.runs_run ..).move_eq_stay hs hmoves)

/-- A tick that has been followed leaves nothing for the same tick to do. Only a repeated
part without length is left out. -/
theorem advance_again (hs : c.script.Reachable)
    (hmoves :
      ¬ (c.settings.repeats = true ∧ c.script.end? (c.settings.lastFrame c.script) = some 0))
    (tick : Nat) :
    ((c.advance tick).cursor.advance tick).changed = false ∧
      ((c.advance tick).cursor.advance tick).cursor = (c.advance tick).cursor ∧
      ((c.advance tick).cursor.advance tick).log = [] := by
  rw [(c.advances_advance tick).advance_eq hs.valid hmoves]
  exact ⟨rfl, rfl, rfl⟩

/-- The second of two frames is sought although only the first one is played. Ten ticks
later the player goes round twice: from the end of the second frame, and again because what
is left of the time is past the end of the first one. At the same tick it stays there. -/
theorem advance_again_after_two_rounds :
    Reached Script.twoFrames
      ((Cursor.new Script.twoFrames ⟨.absoluteTick, true, some 0⟩).goTo 1 0).2 ∧
      ((((Cursor.new Script.twoFrames ⟨.absoluteTick, true, some 0⟩).goTo 1 0).2.advance
        10).cursor.advance 10).changed = false ∧
      ((((Cursor.new Script.twoFrames ⟨.absoluteTick, true, some 0⟩).goTo 1 0).2.advance
        10).cursor.advance 10).cursor =
          (((Cursor.new Script.twoFrames ⟨.absoluteTick, true, some 0⟩).goTo 1 0).2.advance
            10).cursor := by
  have hreached := (Reached.new (s := Script.twoFrames) ⟨.absoluteTick, true, some 0⟩).goTo 1 0
  obtain ⟨hquiet, hsame, _⟩ := advance_again
    (c := ((Cursor.new Script.twoFrames ⟨.absoluteTick, true, some 0⟩).goTo 1 0).2)
    Script.reachable_twoFrames (by decide) 10
  exact ⟨hreached, hquiet, hsame⟩

/-- A repeated part without length is gone round at every tick that a
playing cursor follows. -/
theorem advance_changes_of_stalls (hs : c.script.Reachable)
    (hstalls : c.settings.Stalls c.script)
    (playing : c.head.phase = .playing) (hframe : c.head.frame ≤ c.settings.lastFrame c.script)
    (onward : ∀ earlier, c.head.lastTick = some earlier → earlier ≤ tick)
    (due : c.head.origin.getD tick ≤ (tick : Int)) : (c.advance tick).changed = true := by
  obtain ⟨hrepeats, hempty⟩ := hstalls
  have hend := hs.valid.end?_eq (Nat.lt_of_le_of_lt hframe (c.settings.lastFrame_lt hs.valid))
  -- no frame up to the last one has any length
  have hzero : c.script.before (c.head.frame + 1) = 0 :=
    Nat.le_zero.mp (hs.valid.end_le hframe hend hempty)
  have hends : c.FrameEnds tick := ⟨onward, _, hend, hzero ▸ Nat.zero_le _⟩
  refine (c.advances_advance tick).changed_iff.mpr ?_
  rcases Nat.lt_or_eq_of_le hframe with hlast | hlast
  · exact ⟨_, .next playing hends due hlast⟩
  · exact ⟨_, .round playing hends due (Nat.le_of_eq hlast.symm) hrepeats⟩

end Cursor

end Flipbook
