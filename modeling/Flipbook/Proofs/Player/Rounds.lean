import Flipbook.Proofs.Player.Clock

/-!
# How often one tick goes round

Main statement: `advance_resolves_once_iff`. One tick resolves at most one jump, and the
jump ends the tick; it goes round at most once, except from a frame past the one after
which playback starts over.

Such a frame is reached by a jump or a seek. When the clock passes its end, the time is
reduced by whole rounds of that end, not of the shorter round that is played, so that what
is left can be past the end of the round again. Stepping then comes to the last frame a
second time, unless a frame on the way jumps. The second time the round is the right one,
and there is no third.
-/

namespace Flipbook

variable {s : Script} {settings : Settings} {p : Position} {o : Outcome}

namespace Position

/-- Stepping on from a position goes round: the time is past the end of the last frame,
and no frame that is entered on the way jumps. -/
structure Wraps (p : Position) (s : Script) (settings : Settings) : Prop where
  repeats : settings.repeats = true
  passed : ∃ finish, s.end? (settings.lastFrame s) = some finish ∧ finish ≤ p.elapsed
  jumpless : ∀ i, p.frame < i → i ≤ settings.lastFrame s → s.jumpTarget? settings i = none

/-- A frame past the last one is held, its end has passed, and what is left of the time
after whole rounds of that end goes past the end of the last frame without a jump. -/
structure Overruns (p : Position) (s : Script) (settings : Settings) : Prop where
  repeats : settings.repeats = true
  past : settings.lastFrame s < p.frame
  left : ∃ round finish, s.end? p.frame = some round ∧
    s.end? (settings.lastFrame s) = some finish ∧
    round ≠ 0 ∧ round ≤ p.elapsed ∧ finish ≤ p.elapsed % round
  jumpless : ∀ i ≤ settings.lastFrame s, s.jumpTarget? settings i = none

theorem count_wrapped_after_entered (o : Outcome) (frame : Nat) :
    (o.after [.entered frame]).log.count .wrapped = o.log.count .wrapped :=
  List.count_cons_of_ne fun h => by cases h

theorem count_wrapped_after_wrapped (o : Outcome) :
    (o.after [.wrapped, .entered 0]).log.count .wrapped = o.log.count .wrapped + 1 := by
  show (Happening.wrapped :: Happening.entered 0 :: o.log).count .wrapped = _
  rw [List.count_cons_self, List.count_cons_of_ne fun h => by cases h]

theorem count_wrapped_land (p : Position) (s : Script) (target : Nat) :
    (p.land s target).log.count .wrapped = 0 := by
  unfold land
  split <;> rfl

end Position

namespace Position

theorem elapsed_rewind {length : Nat} (hne : length ≠ 0) :
    (p.rewind s length).elapsed = p.elapsed % length :=
  if_neg hne

/-- A frame overruns if, after a round of it that does not jump, stepping goes round again. -/
theorem overruns_iff :
    p.Overruns s settings ↔ settings.lastFrame s < p.frame ∧
      ∃ length, p.move s settings = .wrap length ∧ s.jumpTarget? settings 0 = none ∧
        length ≠ 0 ∧
        (p.rewind s length).Wraps s settings := by
  refine ⟨?_, ?_⟩
  · intro h
    obtain ⟨hrepeats, hpast, ⟨round, finish, hround, hfinish, hne, hle, hover⟩, hjump⟩ := h
    refine ⟨hpast, round, ?_, hjump 0 (Nat.zero_le _), hne, hrepeats,
      ⟨finish, hfinish, ?_⟩, ?_⟩
    · exact move_eq_wrap_iff.mpr ⟨hround, hle, Nat.le_of_lt hpast, hrepeats⟩
    · rwa [elapsed_rewind hne]
    · intro i _ hi
      exact hjump i hi
  · intro h
    obtain ⟨hpast, round, due, hfirst, hne, hrepeats, ⟨finish, hfinish, hover⟩, hjump⟩ := h
    obtain ⟨hround, hle, _, _⟩ := move_eq_wrap_iff.mp due
    rw [elapsed_rewind hne] at hover
    refine ⟨hrepeats, hpast, ⟨round, finish, hround, hfinish, hne, hle, hover⟩, ?_⟩
    intro i hi
    rcases Nat.eq_zero_or_pos i with rfl | hpos
    · exact hfirst
    · exact hjump i hpos hi

/-- Where a frame up to the last one makes a repeating player start over,
stepping goes round. -/
theorem wraps_of_move_eq_wrap {length : Nat} (hframe : p.frame ≤ settings.lastFrame s)
    (due : p.move s settings = .wrap length) :
    p.Wraps s settings ∧ s.end? (settings.lastFrame s) = some length := by
  obtain ⟨hend, hle, hlast, hrepeats⟩ := move_eq_wrap_iff.mp due
  have hsame : p.frame = settings.lastFrame s := Nat.le_antisymm hframe hlast
  rw [hsame] at hend
  refine ⟨⟨hrepeats, ⟨length, hend, hle⟩, ?_⟩, hend⟩
  intro i hi hle
  omega

/-- While the time lies inside a frame up to the last one, stepping does not go round. -/
theorem not_wraps_of_move_eq_stay (hs : s.Valid) (hframe : p.frame ≤ settings.lastFrame s)
    (due : p.move s settings = .stay) : ¬ p.Wraps s settings := by
  intro hwraps
  obtain ⟨here, hhere, hlt⟩ := move_eq_stay_iff.mp due
  obtain ⟨finish, hfinish, hover⟩ := hwraps.passed
  have hle := hs.end_le hframe hhere hfinish
  omega

theorem not_wraps_of_move_eq_finish (hs : s.Valid) (hframe : p.frame ≤ settings.lastFrame s)
    (due : p.move s settings = .finish) : ¬ p.Wraps s settings := by
  intro hwraps
  have hlt := Nat.lt_of_le_of_lt hframe (settings.lastFrame_lt hs)
  obtain ⟨here, hhere⟩ := hs.exists_end hlt
  rcases of_move_eq_finish due with hnone | ⟨hno, _⟩
  · rw [hnone] at hhere
    cases hhere
  · have hrepeats := hwraps.repeats
    rw [hno] at hrepeats
    cases hrepeats

/-- Entering the next frame, if it does not jump, leaves open what was open. -/
theorem wraps_enter_iff (jumpless : s.jumpTarget? settings (p.frame + 1) = none) :
    p.Wraps s settings ↔ (p.enter s (p.frame + 1)).Wraps s settings := by
  refine ⟨?_, ?_⟩
  · intro h
    refine ⟨h.repeats, h.passed, ?_⟩
    intro i hi
    exact h.jumpless i (Nat.lt_of_succ_lt hi)
  · intro h
    refine ⟨h.repeats, h.passed, ?_⟩
    intro i hi hle
    rcases Nat.eq_or_lt_of_le hi with rfl | hlt
    · exact jumpless
    · exact h.jumpless i hlt hle

/-- What is left of the time after rounds of the last frame lies inside the round. -/
theorem not_wraps_rewind {length : Nat} (hend : s.end? (settings.lastFrame s) = some length)
    (hne : length ≠ 0) : ¬ (p.rewind s length).Wraps s settings := by
  intro hwraps
  obtain ⟨finish, hfinish, hover⟩ := hwraps.passed
  rw [hend, Option.some.injEq] at hfinish
  have hlt := Nat.mod_lt p.elapsed (Nat.pos_of_ne_zero hne)
  rw [elapsed_rewind hne] at hover
  omega

/-- From a frame up to the last one stepping goes round once or not at all. -/
theorem Runs.count_wrapped (hs : s.Valid) (h : Runs s settings p o)
    (hframe : p.frame ≤ settings.lastFrame s) :
    (p.Wraps s settings → o.log.count .wrapped = 1) ∧
      (¬ p.Wraps s settings → o.log.count .wrapped = 0) := by
  induction h with
  | stay due =>
    have hnot := not_wraps_of_move_eq_stay hs hframe due
    exact ⟨fun hwraps => absurd hwraps hnot, fun _ => rfl⟩
  | finish due =>
    have hnot := not_wraps_of_move_eq_finish hs hframe due
    exact ⟨fun hwraps => absurd hwraps hnot, fun _ => rfl⟩
  | next due jumpless later ih =>
    obtain ⟨_, _, _, hlast⟩ := move_eq_next_iff.mp due
    rw [count_wrapped_after_entered, wraps_enter_iff jumpless]
    exact ih hlast
  | @nextJump p target due jump =>
    obtain ⟨_, _, _, hlast⟩ := move_eq_next_iff.mp due
    rw [count_wrapped_after_entered, count_wrapped_land]
    refine ⟨?_, fun _ => rfl⟩
    intro hwraps
    rw [hwraps.jumpless (p.frame + 1) (Nat.lt_succ_self _) hlast] at jump
    cases jump
  | wrap due jumpless pos later ih =>
    -- the round is the right one: there is no second
    obtain ⟨hwraps, hend⟩ := wraps_of_move_eq_wrap hframe due
    refine ⟨fun _ => ?_, fun hno => absurd hwraps hno⟩
    rw [count_wrapped_after_wrapped, (ih (Nat.zero_le _)).2 (not_wraps_rewind hend pos)]
  | wrapEmpty due =>
    obtain ⟨hwraps, _⟩ := wraps_of_move_eq_wrap hframe due
    exact ⟨fun _ => rfl, fun hno => absurd hwraps hno⟩
  | wrapJump due =>
    obtain ⟨hwraps, _⟩ := wraps_of_move_eq_wrap hframe due
    refine ⟨fun _ => ?_, fun hno => absurd hwraps hno⟩
    rw [count_wrapped_after_wrapped, count_wrapped_land]

theorem Runs.count_wrapped_le_one (hs : s.Valid) (h : Runs s settings p o)
    (hframe : p.frame ≤ settings.lastFrame s) : o.log.count .wrapped ≤ 1 := by
  obtain ⟨hyes, hno⟩ := h.count_wrapped hs hframe
  by_cases hwraps : p.Wraps s settings
  · exact Nat.le_of_eq (hyes hwraps)
  · rw [hno hwraps]
    exact Nat.zero_le 1

/-- From a frame past the last one stepping goes round at most once unless that frame
overruns, and then twice. -/
theorem Runs.count_wrapped_of_past (hs : s.Valid) (h : Runs s settings p o)
    (hpast : settings.lastFrame s < p.frame) :
    (p.Overruns s settings → o.log.count .wrapped = 2) ∧
      (¬ p.Overruns s settings → o.log.count .wrapped ≤ 1) := by
  rw [overruns_iff]
  cases h with
  | stay due =>
    refine ⟨?_, fun _ => Nat.zero_le 1⟩
    intro hover
    obtain ⟨_, length, hmove, _⟩ := hover
    rw [due] at hmove
    cases hmove
  | finish due =>
    refine ⟨?_, fun _ => Nat.zero_le 1⟩
    intro hover
    obtain ⟨_, length, hmove, _⟩ := hover
    rw [due] at hmove
    cases hmove
  | next due =>
    obtain ⟨_, _, _, hlast⟩ := move_eq_next_iff.mp due
    omega
  | nextJump due =>
    obtain ⟨_, _, _, hlast⟩ := move_eq_next_iff.mp due
    omega
  | wrapEmpty due =>
    refine ⟨?_, fun _ => Nat.le_refl 1⟩
    intro hover
    obtain ⟨_, length, hmove, _, hne, _⟩ := hover
    rw [due, Move.wrap.injEq] at hmove
    exact absurd hmove.symm hne
  | wrapJump due jump =>
    refine ⟨?_, ?_⟩
    · intro hover
      obtain ⟨_, _, _, hjump, _⟩ := hover
      rw [hjump] at jump
      cases jump
    · intro _
      refine Nat.le_of_eq ?_
      rw [count_wrapped_after_wrapped, count_wrapped_land]
  | @wrap _ o length due jumpless pos later =>
    -- what is left after the first round decides about the second one
    obtain ⟨hyes, hno⟩ := later.count_wrapped hs (Nat.zero_le _)
    rw [count_wrapped_after_wrapped]
    refine ⟨?_, ?_⟩
    · intro hover
      obtain ⟨_, length', hmove, _, _, hwraps⟩ := hover
      rw [due, Move.wrap.injEq] at hmove
      subst hmove
      rw [hyes hwraps]
    · intro hnot
      refine Nat.le_of_eq ?_
      rw [hno fun hwraps => hnot ⟨hpast, length, due, jumpless, pos, hwraps⟩]

end Position

namespace Cursor

/-- A tick that is not older than the last one finds a playing cursor on a
frame that overruns. -/
structure Overruns (c : Cursor) (tick : Nat) : Prop where
  playing : c.head.phase = .playing
  onward : c.head.lastTick.any (tick < ·) = false
  overruns :
    Position.Overruns ⟨c.elapsedAt tick, c.head.frame, c.head.carried⟩ c.script c.settings

theorem count_wrapped_start_le_one (hs : s.Valid) (settings : Settings) (elapsed : Nat) :
    (Position.start elapsed s settings).log.count .wrapped ≤ 1 := by
  unfold Position.start
  simp only
  rw [Position.count_wrapped_after_entered]
  cases s.jumpTarget? settings 0 with
  | some target =>
    simp only
    rw [Position.count_wrapped_land]
    exact Nat.zero_le 1
  | none => exact (Position.runs_run ..).count_wrapped_le_one hs (Nat.zero_le _)

/-- A tick goes round at most once unless it overruns, and then twice. -/
theorem Advances.count_wrapped {c : Cursor} {tick : Nat} {a : Advance} (hs : c.script.Valid)
    (h : c.Advances tick a) :
    (c.Overruns tick → a.log.count .wrapped = 2) ∧
      (¬ c.Overruns tick → a.log.count .wrapped ≤ 1) := by
  cases h with
  | ignored deaf =>
    refine ⟨?_, fun _ => Nat.zero_le 1⟩
    intro hover
    rcases deaf with hfinished | holder
    · rw [hover.playing] at hfinished
      cases hfinished
    · rw [hover.onward] at holder
      cases holder
  | early live onward before =>
    refine ⟨?_, fun _ => Nat.zero_le 1⟩
    -- before the origin no time has passed
    intro hover
    obtain ⟨round, _, _, _, hne, hle, _⟩ := hover.overruns.left
    have hzero : c.elapsedAt tick = 0 := by
      unfold elapsedAt
      omega
    have hle' : round ≤ c.elapsedAt tick := hle
    omega
  | starts idle =>
    refine ⟨?_, fun _ => count_wrapped_start_le_one hs _ _⟩
    intro hover
    have hplaying := hover.playing
    rw [idle] at hplaying
    cases hplaying
  | runs playing onward =>
    have hruns := Position.runs_run c.script c.settings
      ⟨c.elapsedAt tick, c.head.frame, c.head.carried⟩
    by_cases hframe : c.head.frame ≤ c.settings.lastFrame c.script
    · refine ⟨?_, fun _ => hruns.count_wrapped_le_one hs hframe⟩
      intro hover
      exact absurd hframe (Nat.not_le.mpr hover.overruns.past)
    · obtain ⟨hyes, hno⟩ := hruns.count_wrapped_of_past hs (Nat.lt_of_not_le hframe)
      refine ⟨fun hover => hyes hover.overruns, ?_⟩
      intro hnot
      refine hno ?_
      intro hover
      exact hnot ⟨playing, onward, hover⟩

theorem Advances.jumpsLast {c : Cursor} {tick : Nat} {a : Advance} (h : c.Advances tick a) :
    JumpsLast a.log := by
  cases h with
  | ignored => exact .nil
  | early => exact .nil
  | starts => exact Position.jumpsLast_start ..
  | runs => exact (Position.runs_run ..).jumpsLast

/-- One tick resolves at most one jump, and the jump ends the tick. It goes round at most
once, except that it goes round twice from a frame that overruns. -/
theorem advance_resolves_once_iff {c : Cursor} (hs : c.script.Reachable) (tick : Nat) :
    ((c.advance tick).log.count .wrapped ≤ 1 ↔ ¬ c.Overruns tick) ∧
      (c.advance tick).log.count .wrapped ≤ 2 ∧
      (c.advance tick).log.countP Happening.isJump ≤ 1 ∧
      ∀ before target after, (c.advance tick).log = before ++ .jumped target :: after →
        after = [] ∨ after = [.finished] := by
  have hadvances := c.advances_advance tick
  have hjumps := hadvances.jumpsLast
  obtain ⟨hyes, hno⟩ := hadvances.count_wrapped hs.valid
  refine ⟨⟨?_, hno⟩, ?_, hjumps.countP_le_one, fun _ _ _ heq => hjumps.after_jump heq⟩
  · intro hle hover
    rw [hyes hover] at hle
    exact absurd hle (by decide)
  · by_cases hover : c.Overruns tick
    · exact Nat.le_of_eq (hyes hover)
    · exact Nat.le_succ_of_le (hno hover)

/-- Within the frames that are played, a long pause is caught up in one round. -/
theorem advance_resolves_once_after_pause :
    Script.Reachable ⟨[⟨0, 3, []⟩, ⟨1, 4, []⟩], [3, 7]⟩ ∧
      ((Cursor.new ⟨[⟨0, 3, []⟩, ⟨1, 4, []⟩], [3, 7]⟩
        ⟨.absoluteTick, true, some 0⟩).advance 100).log.count .wrapped ≤ 1 := by
  have hbuilt : ∀ f ∈ [Frame.mk 0 3 [], Frame.mk 1 4 []], f.Built :=
    List.forall_mem_cons.mpr ⟨Frame.built_of_le (by decide) 3,
      List.forall_mem_singleton.mpr (Frame.built_of_le (by decide) 4)⟩
  have hs : Script.Reachable ⟨[⟨0, 3, []⟩, ⟨1, 4, []⟩], [3, 7]⟩ := .made hbuilt rfl
  refine ⟨hs, (advance_resolves_once_iff (c := .new _ _) hs 100).1.mpr ?_⟩
  intro hover
  cases hover.playing

/-- A player that repeats the first frame and is moved to the second one goes round twice
in one tick: of the thirteen ticks that have passed, six are left after a round of seven,
and none after a round of three. -/
theorem goes_round_twice :
    Script.Reachable ⟨[⟨0, 3, []⟩, ⟨1, 4, []⟩], [3, 7]⟩ ∧
      Cursor.Reached ⟨[⟨0, 3, []⟩, ⟨1, 4, []⟩], [3, 7]⟩
        ((Cursor.new ⟨[⟨0, 3, []⟩, ⟨1, 4, []⟩], [3, 7]⟩
          ⟨.absoluteTick, true, some 0⟩).goTo 1 0).2 ∧
      (((Cursor.new ⟨[⟨0, 3, []⟩, ⟨1, 4, []⟩], [3, 7]⟩
          ⟨.absoluteTick, true, some 0⟩).goTo 1 0).2.advance 10).log.count .wrapped = 2 := by
  have hbuilt : ∀ f ∈ [Frame.mk 0 3 [], Frame.mk 1 4 []], f.Built :=
    List.forall_mem_cons.mpr ⟨Frame.built_of_le (by decide) 3,
      List.forall_mem_singleton.mpr (Frame.built_of_le (by decide) 4)⟩
  have hs : Script.Reachable ⟨[⟨0, 3, []⟩, ⟨1, 4, []⟩], [3, 7]⟩ := .made hbuilt rfl
  refine ⟨hs, (Reached.new _).goTo 1 0, ?_⟩
  refine ((advances_advance _ 10).count_wrapped hs.valid).1 ⟨rfl, rfl, rfl, by decide, ?_, ?_⟩
  · exact ⟨7, 3, rfl, rfl, by decide, by decide, by decide⟩
  · intro i hi
    obtain rfl : i = 0 := Nat.le_zero.mp hi
    rfl

end Cursor

end Flipbook
