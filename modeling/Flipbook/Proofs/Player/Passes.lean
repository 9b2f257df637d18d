import Flipbook.Proofs.Player.Lockstep
import Flipbook.Proofs.Player.Rounds

/-!
# How long one tick takes

Main statement: `advance_enters_le`. Whatever state a cursor is in, stepping stops, and
one tick enters at most two frames for each frame of the script.

A round enters each frame up to the last one that is played, and before the first round
come the frames that are left from the current one on. So the number of frames that a run
enters is bounded by the number of times that it goes round, of which there are two at
most, and by the distance to the last frame (`Runs.countP_isEntry_le`). Each pass of the
loop but the last one enters a frame. The loop that gives up after `n` passes (`passes`)
is therefore the run, once `n` is past that bound.
-/

namespace Flipbook

variable {s : Script} {settings : Settings} {p : Position} {o : Outcome}

/-! ## Entered frames -/

/-- Landing enters no frame. -/
theorem Position.countP_isEntry_land (p : Position) (s : Script) (target : Nat) :
    (p.land s target).log.countP Happening.isEntry = 0 := by
  unfold land
  split <;> rfl

theorem Outcome.countP_isEntry_entered (o : Outcome) (frame : Nat) :
    (o.after [.entered frame]).log.countP Happening.isEntry =
      o.log.countP Happening.isEntry + 1 :=
  List.countP_cons_of_pos rfl

theorem Outcome.countP_isEntry_wrapped (o : Outcome) :
    (o.after [.wrapped, .entered 0]).log.countP Happening.isEntry =
      o.log.countP Happening.isEntry + 1 := by
  show (Happening.wrapped :: Happening.entered 0 :: o.log).countP Happening.isEntry = _
  rw [List.countP_cons_of_neg Bool.false_ne_true, List.countP_cons_of_pos rfl]

namespace Position

/-- A run enters the frames that are left up to the last one, and those of a whole round
each time that it goes round. -/
theorem Runs.countP_isEntry_le (h : Runs s settings p o) :
    o.log.countP Happening.isEntry ≤
      o.log.count .wrapped * (settings.lastFrame s + 1) +
        (settings.lastFrame s - p.frame) := by
  induction h with
  | stay => exact Nat.zero_le _
  | finish => exact Nat.zero_le _
  | @next p o due _ _ ih =>
    obtain ⟨_, _, _, hlast⟩ := move_eq_next_iff.mp due
    rw [Outcome.countP_isEntry_entered, count_wrapped_after_entered]
    have hleft : settings.lastFrame s - (p.enter s (p.frame + 1)).frame + 1 =
        settings.lastFrame s - p.frame := by
      show settings.lastFrame s - (p.frame + 1) + 1 = _
      omega
    omega
  | @nextJump p target due =>
    obtain ⟨_, _, _, hlast⟩ := move_eq_next_iff.mp due
    rw [Outcome.countP_isEntry_entered, countP_isEntry_land]
    omega
  | @wrap p o length _ _ _ _ ih =>
    -- the round that begins here makes room for the first frame and for all that
    -- are left after it
    rw [Outcome.countP_isEntry_wrapped, count_wrapped_after_wrapped, Nat.succ_mul]
    have hwhole : settings.lastFrame s - (p.rewind s length).frame =
        settings.lastFrame s := rfl
    omega
  | wrapEmpty =>
    rw [Outcome.countP_isEntry_wrapped, count_wrapped_after_wrapped, Nat.succ_mul]
    show 0 + 1 ≤ _
    omega
  | wrapJump =>
    rw [Outcome.countP_isEntry_wrapped, count_wrapped_after_wrapped, Nat.succ_mul,
      countP_isEntry_land]
    omega

/-- A run that starts on a frame up to the last one enters fewer frames than there
are in two rounds. -/
theorem Runs.countP_isEntry_lt (hs : s.Valid) (h : Runs s settings p o)
    (hframe : p.frame ≤ settings.lastFrame s) :
    o.log.countP Happening.isEntry < 2 * (settings.lastFrame s + 1) := by
  have hentered := h.countP_isEntry_le
  have hround :=
    Nat.mul_le_mul_right (settings.lastFrame s + 1) (h.count_wrapped_le_one hs hframe)
  omega

/-- From any frame a run enters no more frames than there are in two rounds. -/
theorem Runs.countP_isEntry_le_two_rounds (hs : s.Valid) (h : Runs s settings p o) :
    o.log.countP Happening.isEntry ≤ 2 * (settings.lastFrame s + 1) := by
  rcases Nat.lt_or_ge (settings.lastFrame s) p.frame with hpast | hframe
  · -- no frame is left before the first round, and there is a second one if the frame overruns
    have hentered := h.countP_isEntry_le
    obtain ⟨hyes, hno⟩ := h.count_wrapped_of_past hs hpast
    have hrounds : o.log.count .wrapped ≤ 2 := by
      by_cases hover : p.Overruns s settings
      · exact Nat.le_of_eq (hyes hover)
      · exact Nat.le_succ_of_le (hno hover)
    have hround := Nat.mul_le_mul_right (settings.lastFrame s + 1) hrounds
    omega
  · exact Nat.le_of_lt (h.countP_isEntry_lt hs hframe)

theorem countP_isEntry_start_le (hs : s.Valid) (settings : Settings) (elapsed : Nat) :
    (start elapsed s settings).log.countP Happening.isEntry ≤
      2 * (settings.lastFrame s + 1) := by
  rcases start_cases elapsed s settings with ⟨_, hstart⟩ | ⟨target, _, hstart⟩
  · rw [hstart, Outcome.countP_isEntry_entered]
    exact (runs_run ..).countP_isEntry_lt hs (Nat.zero_le _)
  · rw [hstart, Outcome.countP_isEntry_entered, countP_isEntry_land]
    omega

end Position

/-! ## Passes of the loop -/

/-- What one pass of the loop that steps comes to. -/
inductive Pass where
  /-- The loop is left with this outcome. -/
  | leaves (o : Outcome)
  /-- This happens, and another pass follows from this position. -/
  | goesOn (log : List Happening) (p : Position)

namespace Position

/-- One pass of the loop: what is due is done once. -/
def pass (p : Position) (s : Script) (settings : Settings) : Pass :=
  match p.move s settings with
  | .stay => .leaves ⟨p, false, []⟩
  | .finish => .leaves ⟨p, true, [.finished]⟩
  | .next =>
    let entered := p.enter s (p.frame + 1)
    match s.jumpTarget? settings (p.frame + 1) with
    | some target => .leaves ((entered.land s target).after [.entered (p.frame + 1)])
    | none => .goesOn [.entered (p.frame + 1)] entered
  | .wrap length =>
    let entered := p.rewind s length
    match s.jumpTarget? settings 0 with
    | some target => .leaves ((entered.land s target).after [.wrapped, .entered 0])
    | none =>
      if length = 0 then .leaves (Outcome.after [.wrapped, .entered 0] ⟨entered, false, []⟩)
      else .goesOn [.wrapped, .entered 0] entered

/-- The loop, given up after this many passes. -/
def passes (s : Script) (settings : Settings) : Nat → Position → Option Outcome
  | 0, _ => none
  | n + 1, p =>
    match p.pass s settings with
    | .leaves o => some o
    | .goesOn log q => (passes s settings n q).map (·.after log)

/-- A pass that is not the last one enters a frame, so that the loop is left
before it is given up. -/
theorem Runs.passes_eq (h : Runs s settings p o) :
    ∀ {n : Nat}, o.log.countP Happening.isEntry ≤ n →
      passes s settings (n + 1) p = some o := by
  induction h with
  | stay due =>
    intro n _
    simp only [passes, pass, due]
  | finish due =>
    intro n _
    simp only [passes, pass, due]
  | next due jumpless _ ih =>
    intro n hn
    rw [Outcome.countP_isEntry_entered] at hn
    obtain ⟨n, rfl⟩ := Nat.exists_eq_add_one_of_ne_zero (Nat.ne_zero_of_lt hn)
    rw [passes, pass, due]
    simp only [jumpless]
    rw [ih (Nat.le_of_succ_le_succ hn), Option.map_some]
  | nextJump due jump =>
    intro n _
    simp only [passes, pass, due, jump]
  | wrap due jumpless pos _ ih =>
    intro n hn
    rw [Outcome.countP_isEntry_wrapped] at hn
    obtain ⟨n, rfl⟩ := Nat.exists_eq_add_one_of_ne_zero (Nat.ne_zero_of_lt hn)
    rw [passes, pass, due]
    simp only [jumpless, if_neg pos]
    rw [ih (Nat.le_of_succ_le_succ hn), Option.map_some]
  | wrapEmpty due jumpless =>
    intro n _
    simp only [passes, pass, due, jumpless, if_true]
  | wrapJump due jump =>
    intro n _
    simp only [passes, pass, due, jump]

end Position

/-! ## Ticks -/

namespace Cursor

theorem Advances.countP_isEntry_le {c : Cursor} {tick : Nat} {a : Advance}
    (hs : c.script.Valid)
    (h : c.Advances tick a) :
    a.log.countP Happening.isEntry ≤ 2 * (c.settings.lastFrame c.script + 1) := by
  cases h with
  | ignored => exact Nat.zero_le _
  | early => exact Nat.zero_le _
  | starts => exact Position.countP_isEntry_start_le hs _ _
  | runs => exact (Position.runs_run ..).countP_isEntry_le_two_rounds hs

/-- Stepping stops from every position: its loop is left after two passes for each frame
of the script and one more, with the outcome of the run. A tick enters at most two frames
for each frame of the script, in whatever state the cursor is. -/
theorem advance_enters_le (hs : s.Reachable) :
    (∀ settings p, Position.passes s settings (2 * s.count + 1) p =
      some (Position.run p s settings)) ∧
      ∀ c : Cursor, c.script = s → ∀ tick,
        (c.advance tick).log.countP Happening.isEntry ≤ 2 * s.count := by
  refine ⟨?_, ?_⟩
  · intro settings p
    have hruns := Position.runs_run s settings p
    have hentered := hruns.countP_isEntry_le_two_rounds hs.valid
    have hlast := settings.lastFrame_lt hs.valid
    exact hruns.passes_eq (by omega)
  · intro c hscript tick
    subst hscript
    have hentered := (c.advances_advance tick).countP_isEntry_le hs.valid
    have hlast := c.settings.lastFrame_lt hs.valid
    omega

/-- One frame that is played over and over. A first tick that comes more than a round late
enters it twice, by starting and by going round, and no tick enters it more often. -/
theorem advance_enters_le_one_frame :
    Script.Reachable ⟨[⟨0, 3, []⟩], [3]⟩ ∧
      ((Cursor.new ⟨[⟨0, 3, []⟩], [3]⟩ ⟨.absoluteTick, true, none⟩).advance 10).log =
        [.entered 0, .wrapped, .entered 0] ∧
      ∀ tick,
        ((Cursor.new ⟨[⟨0, 3, []⟩], [3]⟩ ⟨.absoluteTick, true, none⟩).advance tick).log.countP
        Happening.isEntry ≤ 2 := by
  have hs : Script.Reachable ⟨[⟨0, 3, []⟩], [3]⟩ :=
    .made (List.forall_mem_singleton.mpr (Frame.built_of_le (by decide) 3)) rfl
  have hruns : Position.Runs ⟨[⟨0, 3, []⟩], [3]⟩ ⟨.absoluteTick, true, none⟩ ⟨10, 0, []⟩ _ :=
    .wrap rfl rfl (by decide) (.stay rfl)
  have hlog : ((Cursor.new ⟨[⟨0, 3, []⟩], [3]⟩ ⟨.absoluteTick, true, none⟩).advance 10).log =
      [.entered 0, .wrapped, .entered 0] :=
    congrArg (fun o => (o.after [.entered 0]).log) hruns.run_eq
  exact ⟨hs, hlog, (advance_enters_le hs).2 _ rfl⟩

end Cursor

end Flipbook
