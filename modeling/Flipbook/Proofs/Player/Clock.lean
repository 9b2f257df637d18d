import Flipbook.Proofs.Player.Reached
import Flipbook.Proofs.Script.Intervals

/-!
# The frame and the clock

Main statement: `advance_in_frame`. After a tick that a playing cursor has followed,
the animation's time lies inside the frame that is shown: frame and origin are kept
apart, but they agree.

Between ticks only half of this holds. A seek may show a frame of length zero, or one that
has ended by the time of the next tick; what is never lost is that the time has come to
the start of the frame (`Playhead.InTime`). Stepping keeps that half (`Runs.entered`), and
it stops where nothing more is due (`Runs.move_eq_stay`), inside a frame, unless it has
gone round a repeated part that has no length at all.
-/

namespace Flipbook

variable {s : Script} {settings : Settings} {p : Position} {o : Outcome}

/-- The script has the frame that is held, and the time has come to its start. -/
structure Position.Entered (s : Script) (p : Position) : Prop where
  frame_lt : p.frame < s.count
  start_le : s.before p.frame ≤ p.elapsed

/-- A part without length is played over and over. -/
def Settings.Stalls (settings : Settings) (s : Script) : Prop :=
  settings.repeats = true ∧ s.end? (settings.lastFrame s) = some 0

theorem Settings.lastFrame_lt (settings : Settings) (hs : s.Valid) :
    settings.lastFrame s < s.count := by
  have hpos := hs.count_pos
  unfold Settings.lastFrame
  split <;> omega

namespace Position

/-- The next frame starts where the one before it ends. -/
theorem Entered.next (hs : s.Valid) (due : p.move s settings = .next) :
    (p.enter s (p.frame + 1)).Entered s := by
  obtain ⟨finish, hend, hle, hlast⟩ := move_eq_next_iff.mp due
  obtain ⟨_, rfl⟩ := hs.end?_eq_some_iff.mp hend
  have hlt := settings.lastFrame_lt hs
  refine ⟨?_, hle⟩
  show p.frame + 1 < s.count
  omega

theorem Entered.first (hs : s.Valid) (elapsed : Nat) (carried : List Carried) :
    Entered s ⟨elapsed, 0, carried⟩ :=
  ⟨hs.count_pos, Nat.zero_le _⟩

theorem Entered.rewind (hs : s.Valid) (p : Position) (length : Nat) :
    (p.rewind s length).Entered s :=
  ⟨hs.count_pos, Nat.zero_le _⟩

theorem Entered.land (hs : s.Valid) (hp : p.Entered s) (target : Nat) :
    (p.land s target).position.Entered s := by
  rcases p.land_cases s target with ⟨frame, hshown, hland⟩ | hland
  · obtain ⟨hlt, hstart, _⟩ := hs.indexAt?_eq_some_iff.mp hshown
    rw [hland]
    exact ⟨hlt, hstart⟩
  · rw [hland]
    exact hp

/-- A frame that is kept ends later. -/
theorem lt_end_of_stay (hs : s.Valid) (due : p.move s settings = .stay) :
    p.elapsed < s.before (p.frame + 1) := by
  obtain ⟨finish, hend, hlt⟩ := move_eq_stay_iff.mp due
  obtain ⟨_, rfl⟩ := hs.end?_eq_some_iff.mp hend
  exact hlt

/-- The frame into which a jump leads is kept. -/
theorem land_move_eq_stay (hs : s.Valid) (settings : Settings) {target : Nat}
    (hon : (p.land s target).ended = false) :
    (p.land s target).position.move s settings = .stay := by
  rcases p.land_cases s target with ⟨frame, hshown, hland⟩ | hland
  · obtain ⟨hlt, _, hend⟩ := hs.indexAt?_eq_some_iff.mp hshown
    rw [hland]
    exact move_eq_stay_iff.mpr ⟨_, hs.end?_eq hlt, hend⟩
  · rw [hland] at hon
    cases hon

/-- Wherever stepping ends, the time has come to the start of the frame. -/
theorem Runs.entered (hs : s.Valid) (h : Runs s settings p o) (hp : p.Entered s) :
    o.position.Entered s := by
  induction h with
  | stay => exact hp
  | finish => exact hp
  | next due _ _ ih => exact ih (.next hs due)
  | nextJump due => exact (Entered.next hs due).land hs _
  | wrap _ _ _ _ ih => exact ih (.rewind hs _ _)
  | wrapEmpty => exact .rewind hs _ _
  | wrapJump => exact (Entered.rewind hs _ _).land hs _

/-- If playback goes on, stepping ends where nothing more is due. -/
theorem Runs.move_eq_stay (hs : s.Valid) (hmoves : ¬ settings.Stalls s)
    (h : Runs s settings p o)
    (hon : o.ended = false) : o.position.move s settings = .stay := by
  induction h with
  | stay due => exact due
  | finish => cases hon
  | next _ _ _ ih => exact ih hon
  | nextJump => exact land_move_eq_stay hs settings hon
  | wrap _ _ _ _ ih => exact ih hon
  | wrapEmpty due =>
    -- the last frame ends no later than the one that is held
    obtain ⟨hend, _, hlast, hrepeats⟩ := move_eq_wrap_iff.mp due
    have hend' := hs.end?_eq (settings.lastFrame_lt hs)
    have hle := hs.end_le hlast hend' hend
    rw [Nat.le_zero.mp hle] at hend'
    exact absurd ⟨hrepeats, hend'⟩ hmoves
  | wrapJump => exact land_move_eq_stay hs settings hon

/-- If playback goes on, stepping ends before the end of the frame. -/
theorem Runs.lt_end (hs : s.Valid) (hmoves : ¬ settings.Stalls s) (h : Runs s settings p o)
    (hon : o.ended = false) : o.position.elapsed < s.before (o.position.frame + 1) :=
  lt_end_of_stay hs (h.move_eq_stay hs hmoves hon)

theorem entered_start (hs : s.Valid) (settings : Settings) (elapsed : Nat) :
    (start elapsed s settings).position.Entered s := by
  have hfirst := Entered.first hs elapsed (s.carry 0 [])
  have hruns := runs_run s settings (enter ⟨elapsed, 0, []⟩ s 0)
  rcases start_cases elapsed s settings with ⟨_, hstart⟩ | ⟨target, _, hstart⟩
  · rw [hstart, Outcome.position_after]
    exact hruns.entered hs hfirst
  · rw [hstart, Outcome.position_after]
    exact hfirst.land hs target

theorem start_move_eq_stay (hs : s.Valid) (hmoves : ¬ settings.Stalls s) {elapsed : Nat}
    (hon : (start elapsed s settings).ended = false) :
    (start elapsed s settings).position.move s settings = .stay := by
  have hruns := runs_run s settings (enter ⟨elapsed, 0, []⟩ s 0)
  rcases start_cases elapsed s settings with ⟨_, hstart⟩ | ⟨target, _, hstart⟩
  · rw [hstart, Outcome.ended_after] at hon
    rw [hstart, Outcome.position_after]
    exact hruns.move_eq_stay hs hmoves hon
  · rw [hstart, Outcome.ended_after] at hon
    rw [hstart, Outcome.position_after]
    exact land_move_eq_stay hs settings hon

theorem start_lt_end (hs : s.Valid) (hmoves : ¬ settings.Stalls s) {elapsed : Nat}
    (hon : (start elapsed s settings).ended = false) :
    (start elapsed s settings).position.elapsed <
      s.before ((start elapsed s settings).position.frame + 1) :=
  lt_end_of_stay hs (start_move_eq_stay hs hmoves hon)

end Position

/-! ## Cursors -/

/-- While a frame shows, there is a last tick, and by then the time had come to the
start of the frame. -/
def Playhead.InTime (s : Script) (head : Playhead) : Prop :=
  head.phase = .playing →
    ∃ tick origin, head.lastTick = some tick ∧ head.origin = some origin ∧
      head.frame < s.count ∧ (s.before head.frame : Int) ≤ tick - origin

namespace Cursor

theorem phase_settle (c : Cursor) (tick : Nat) (o : Outcome) :
    (c.settle tick o).cursor.head.phase = .playing ↔ o.ended = false := by
  unfold settle
  cases o.ended <;> simp

/-- The time at the tick is the one at which stepping has ended. -/
theorem elapsedAt_settle (c : Cursor) (tick : Nat) (o : Outcome) :
    (c.settle tick o).cursor.elapsedAt tick = o.position.elapsed := by
  show ((tick : Int) - ((tick : Int) - o.position.elapsed)).toNat = _
  rw [Int.sub_sub_self, Int.toNat_natCast]

theorem elapsed_settle (c : Cursor) (tick : Nat) (o : Outcome) :
    (c.settle tick o).cursor.elapsed = min o.position.elapsed Tick.last := by
  rw [← elapsedAt_settle c tick o]
  rfl

theorem onward_iff {c : Cursor} {tick : Nat} :
    c.head.lastTick.any (tick < ·) = false ↔
      ∀ earlier, c.head.lastTick = some earlier → earlier ≤ tick := by
  cases c.head.lastTick <;> simp

/-- At a tick that is not older than the last one, a playing cursor is past its origin,
and the time has come to the start of the frame. -/
theorem due_of_inTime {c : Cursor} {tick : Nat} (hc : c.head.InTime s)
    (playing : c.head.phase = .playing) (onward : c.head.lastTick.any (tick < ·) = false) :
    c.head.origin.getD tick ≤ (tick : Int) ∧
      Position.Entered s ⟨c.elapsedAt tick, c.head.frame, c.head.carried⟩ := by
  obtain ⟨earlier, origin, hlast, horigin, hlt, hstart⟩ := hc playing
  have hle := onward_iff.mp onward earlier hlast
  unfold elapsedAt
  rw [horigin, Option.getD_some]
  refine ⟨by omega, hlt, ?_⟩
  show s.before c.head.frame ≤ (tick - origin).toNat
  omega

theorem inTime_settle (c : Cursor) (tick : Nat) (ho : o.position.Entered s) :
    (c.settle tick o).cursor.head.InTime s := by
  intro _
  refine ⟨tick, tick - o.position.elapsed, rfl, rfl, ho.frame_lt, ?_⟩
  have hstart := ho.start_le
  show (s.before o.position.frame : Int) ≤ tick - (tick - o.position.elapsed)
  omega

theorem Advances.inTime {c : Cursor} {tick : Nat} {a : Advance} (hs : c.script.Valid)
    (h : c.Advances tick a) (hc : c.head.InTime c.script) : a.cursor.head.InTime c.script := by
  cases h with
  | ignored => exact hc
  | early _ onward before =>
    intro hplaying
    have hdue := (due_of_inTime hc hplaying onward).1
    omega
  | starts => exact inTime_settle _ _ (Position.entered_start hs _ _)
  | runs playing onward =>
    exact inTime_settle _ _
      ((Position.runs_run ..).entered hs (due_of_inTime hc playing onward).2)

theorem Reached.inTime {c : Cursor} (hs : s.Valid) (h : c.Reached s) : c.head.InTime s := by
  refine h.head_induction (fun origin => nofun) ?_ ?_
  · intro c tick a hscript hadvances hc
    subst hscript
    exact hadvances.inTime hs hc
  · intro frame tick start hstart _
    obtain ⟨hlt, rfl⟩ := hs.start?_eq_some_iff.mp hstart
    refine ⟨tick, tick - s.before frame, rfl, rfl, hlt, ?_⟩
    show (s.before frame : Int) ≤ tick - (tick - s.before frame)
    omega

/-- Where stepping has ended inside a frame, the cursor's clock and its frame agree. -/
theorem settle_in_frame (hs : s.Valid) (c : Cursor) (tick : Nat) (ho : o.position.Entered s)
    (hlt : o.position.elapsed < s.before (o.position.frame + 1)) :
    ∃ start finish origin,
      s.start? (c.settle tick o).cursor.head.frame = some start ∧
      s.end? (c.settle tick o).cursor.head.frame = some finish ∧
      (c.settle tick o).cursor.head.origin = some origin ∧
      (start : Int) ≤ tick - origin ∧ (tick : Int) - origin < finish ∧
      ((c.settle tick o).cursor.elapsed : Int) = tick - origin ∧
      s.indexAt? (c.settle tick o).cursor.elapsed =
        some (c.settle tick o).cursor.head.frame := by
  have hstart := ho.start_le
  have hclock : s.before (o.position.frame + 1) ≤ Tick.last := hs.before_le_last ho.frame_lt
  have helapsed : (c.settle tick o).cursor.elapsed = o.position.elapsed := by
    rw [elapsed_settle]
    omega
  refine ⟨s.before o.position.frame, s.before (o.position.frame + 1),
    tick - o.position.elapsed,
    hs.start?_eq ho.frame_lt, hs.end?_eq ho.frame_lt, rfl, by omega, by omega, ?_, ?_⟩
  · rw [helapsed]
    omega
  · rw [helapsed]
    exact hs.indexAt?_eq_some_iff.mpr ⟨ho.frame_lt, hstart, hlt⟩

/-- After a tick that is not older than the last one and leaves a reached cursor playing,
the time on its clock lies inside the frame that it shows. Only a repeated part without
length is left out. -/
theorem advance_in_frame (hs : s.Reachable) {c : Cursor} (hc : c.Reached s) (tick : Nat)
    (honward : ∀ earlier, c.head.lastTick = some earlier → earlier ≤ tick)
    (hmoves : ¬ (c.settings.repeats = true ∧ s.end? (c.settings.lastFrame s) = some 0))
    (hplaying : (c.advance tick).cursor.head.phase = .playing) :
    ∃ start finish origin,
      s.start? (c.advance tick).cursor.head.frame = some start ∧
      s.end? (c.advance tick).cursor.head.frame = some finish ∧
      (c.advance tick).cursor.head.origin = some origin ∧
      (start : Int) ≤ tick - origin ∧ (tick : Int) - origin < finish ∧
      ((c.advance tick).cursor.elapsed : Int) = tick - origin ∧
      s.indexAt? (c.advance tick).cursor.elapsed =
        some (c.advance tick).cursor.head.frame := by
  have hintime := hc.inTime hs.valid
  have hscript := hc.script_eq
  subst hscript
  have hadvances := c.advances_advance tick
  generalize c.advance tick = a at hadvances hplaying ⊢
  cases hadvances with
  | ignored deaf =>
    have onward := onward_iff.mpr honward
    have playing : c.head.phase = .playing := hplaying
    simp [playing, onward] at deaf
  | early _ onward before =>
    -- while a frame shows, the origin lies in the past
    have hdue := (due_of_inTime hintime hplaying onward).1
    omega
  | starts idle onward due =>
    have hon := (phase_settle ..).mp hplaying
    exact settle_in_frame hs.valid c tick (Position.entered_start hs.valid _ _)
      (Position.start_lt_end hs.valid hmoves hon)
  | runs playing onward due =>
    have hon := (phase_settle ..).mp hplaying
    have hruns := Position.runs_run c.script c.settings
      ⟨c.elapsedAt tick, c.head.frame, c.head.carried⟩
    exact settle_in_frame hs.valid c tick
      (hruns.entered hs.valid (due_of_inTime hintime playing onward).2)
      (hruns.lt_end hs.valid hmoves hon)

/-- The second frame is sought at tick five, so that the animation starts at tick two; at
tick twenty, four ticks are left of the eighteen that have passed since, and the second
frame shows again. -/
theorem advance_in_frame_after_seek :
    Reached Script.twoFrames
      ((Cursor.new Script.twoFrames ⟨.absoluteTick, true, none⟩).goTo 1 5).2 ∧
      (((Cursor.new Script.twoFrames ⟨.absoluteTick, true, none⟩).goTo 1 5).2.advance
        20).cursor.head.phase = .playing ∧
      Script.twoFrames.indexAt?
        (((Cursor.new Script.twoFrames ⟨.absoluteTick, true, none⟩).goTo 1
          5).2.advance 20).cursor.elapsed =
        some (((Cursor.new Script.twoFrames ⟨.absoluteTick, true, none⟩).goTo 1
          5).2.advance 20).cursor.head.frame := by
  have hreached := (Reached.new (s := Script.twoFrames) ⟨.absoluteTick, true, none⟩).goTo 1 5
  -- eighteen ticks have passed, and of the four that are left three belong to the first frame
  have hruns : Position.Runs Script.twoFrames ⟨.absoluteTick, true, none⟩ ⟨18, 1, []⟩ _ :=
    .wrap rfl rfl (by decide) (.next rfl rfl (.stay rfl))
  have hplaying :
      (((Cursor.new Script.twoFrames ⟨.absoluteTick, true, none⟩).goTo 1 5).2.advance
      20).cursor.head.phase = .playing := by
    refine (phase_settle _ 20
      (Position.run ⟨18, 1, []⟩ Script.twoFrames ⟨.absoluteTick, true, none⟩)).mpr ?_
    rw [hruns.run_eq]
    rfl
  obtain ⟨_, _, _, _, _, _, _, _, _, hshown⟩ :=
    advance_in_frame Script.reachable_twoFrames hreached 20 (by decide) (by decide) hplaying
  exact ⟨hreached, hplaying, hshown⟩

end Cursor

end Flipbook
