import Flipbook.Proofs.Player.Lockstep

/-!
# Telling the final frame

Main statement: `isFinalFrame_exact_iff`. A playing cursor tells whether its frame is the
final one. When the clock reaches the end of a frame, a tick either enters the frame after
it, or playback ends or starts over there (`Turns`); the answer is to tell which.

Stepping turns at the last frame that is played and at every frame past it, but a cursor
on a frame past the last one says that the frame is not the final one. So the answer is
right exactly on the frames up to the last one. A player comes no further by ticks, unless
a jump leads there, and by seeks to those frames (`KeepsTo.operate`), and then the answer
is always right (`isFinalFrame_exact_of_within`).
-/

namespace Flipbook

variable {s : Script} {settings : Settings} {p : Position} {o : Outcome}

/-! ## The end of a frame -/

/-- Where the time has reached the end of the frame, a run first enters the next frame, or
goes round, or ends. It turns from the last frame on. -/
theorem Position.Runs.at_end (h : Runs s settings p o) {finish : Nat}
    (hend : s.end? p.frame = some finish)
    (hle : finish ≤ p.elapsed) :
    (p.frame < settings.lastFrame s ∧ ∃ later, o.log = .entered (p.frame + 1) :: later) ∨
      settings.lastFrame s ≤ p.frame ∧
        ((settings.repeats = true ∧ ∃ later, o.log = .wrapped :: .entered 0 :: later) ∨
          settings.repeats = false ∧ o.ended = true ∧ o.log = [.finished]) := by
  cases h with
  | stay due =>
    obtain ⟨finish', hend', hlt⟩ := move_eq_stay_iff.mp due
    obtain rfl : finish = finish' := Option.some.inj (hend.symm.trans hend')
    exact absurd hlt (Nat.not_lt.mpr hle)
  | finish due =>
    rcases of_move_eq_finish due with hnone | ⟨hrepeats, hlast, _⟩
    · rw [hnone] at hend
      cases hend
    · exact Or.inr ⟨hlast, Or.inr ⟨hrepeats, rfl, rfl⟩⟩
  | next due =>
    obtain ⟨_, _, _, hlast⟩ := move_eq_next_iff.mp due
    exact Or.inl ⟨hlast, _, rfl⟩
  | nextJump due =>
    obtain ⟨_, _, _, hlast⟩ := move_eq_next_iff.mp due
    exact Or.inl ⟨hlast, _, rfl⟩
  | wrap due =>
    obtain ⟨_, _, hlast, hrepeats⟩ := move_eq_wrap_iff.mp due
    exact Or.inr ⟨hlast, Or.inl ⟨hrepeats, _, rfl⟩⟩
  | wrapEmpty due =>
    obtain ⟨_, _, hlast, hrepeats⟩ := move_eq_wrap_iff.mp due
    exact Or.inr ⟨hlast, Or.inl ⟨hrepeats, _, rfl⟩⟩
  | wrapJump due =>
    obtain ⟨_, _, hlast, hrepeats⟩ := move_eq_wrap_iff.mp due
    exact Or.inr ⟨hlast, Or.inl ⟨hrepeats, _, rfl⟩⟩

namespace Cursor

/-- By this tick, which is not older than the last one, the clock has reached the end of
the current frame. -/
structure FrameEnds (c : Cursor) (tick : Nat) : Prop where
  onward : ∀ earlier, c.head.lastTick = some earlier → earlier ≤ tick
  reached : ∃ finish, c.script.end? c.head.frame = some finish ∧ finish ≤ c.elapsedAt tick

/-- The first thing that the tick does is to enter the frame after the current one. -/
def GoesOn (c : Cursor) (tick : Nat) : Prop :=
  ∃ later, (c.advance tick).log = .entered (c.head.frame + 1) :: later

/-- The first thing that the tick does is to start over, if playback repeats,
or else to end it. -/
def Turns (c : Cursor) (tick : Nat) : Prop :=
  (c.settings.repeats = true ∧
    ∃ later, (c.advance tick).log = .wrapped :: .entered 0 :: later) ∨
    c.settings.repeats = false ∧ (c.advance tick).cursor.isFinished = true ∧
      (c.advance tick).log = [.finished]

variable {c : Cursor} {tick : Nat}

theorem GoesOn.not_turns (h : c.GoesOn tick) : ¬ c.Turns tick := by
  obtain ⟨later, hon⟩ := h
  intro hturns
  rcases hturns with ⟨_, later', hround⟩ | ⟨_, _, hover⟩
  · rw [hon] at hround
    cases hround
  · rw [hon] at hover
    cases hover

/-- The frame of a cursor in time ends at some tick, and has ended at all later ones. -/
theorem exists_frameEnds_iff (hs : c.script.Valid) (hc : c.head.InTime c.script)
    (playing : c.head.phase = .playing) : ∃ due, ∀ tick, c.FrameEnds tick ↔ due ≤ tick := by
  obtain ⟨earlier, origin, hlast, horigin, hlt, hstart⟩ := hc playing
  have hend := hs.end?_eq hlt
  refine ⟨max earlier (origin + c.script.before (c.head.frame + 1)).toNat, ?_⟩
  intro tick
  have helapsed : c.elapsedAt tick = (tick - origin).toNat := by
    unfold elapsedAt
    rw [horigin, Option.getD_some]
  refine ⟨?_, ?_⟩
  · intro h
    have honward := h.onward earlier hlast
    obtain ⟨finish, hfinish, hle⟩ := h.reached
    rw [hend, Option.some.injEq] at hfinish
    omega
  · intro hdue
    refine ⟨?_, c.script.before (c.head.frame + 1), hend, by omega⟩
    intro earlier' hearlier
    rw [hlast, Option.some.injEq] at hearlier
    omega

/-- When the frame of a cursor in time has ended, the tick enters the next frame before
the last one that is played, and turns from there on. -/
theorem FrameEnds.goesOn_or_turns (h : c.FrameEnds tick) (hc : c.head.InTime c.script)
    (playing : c.head.phase = .playing) :
    (c.head.frame < c.settings.lastFrame c.script ∧ c.GoesOn tick) ∨
      c.settings.lastFrame c.script ≤ c.head.frame ∧ c.Turns tick := by
  obtain ⟨finish, hend, hle⟩ := h.reached
  have onward := onward_iff.mpr h.onward
  have hadvances := c.advances_advance tick
  unfold GoesOn Turns
  generalize c.advance tick = a at hadvances ⊢
  cases hadvances with
  | ignored deaf => simp [playing, onward] at deaf
  | early _ _ before =>
    have hdue := (due_of_inTime hc playing onward).1
    omega
  | starts idle =>
    rw [playing] at idle
    cases idle
  | runs =>
    have hruns := Position.runs_run c.script c.settings
      ⟨c.elapsedAt tick, c.head.frame, c.head.carried⟩
    rcases hruns.at_end hend hle with hon | ⟨hlast, hround | ⟨hrepeats, hended, hlog⟩⟩
    · exact Or.inl hon
    · exact Or.inr ⟨hlast, Or.inl hround⟩
    · refine Or.inr ⟨hlast, Or.inr ⟨hrepeats, ?_, hlog⟩⟩
      unfold settle isFinished
      rw [hended]
      rfl

/-- When the frame has ended, the cursor turns if and only if the frame is not
before the last one. -/
theorem FrameEnds.turns_iff (h : c.FrameEnds tick) (hc : c.head.InTime c.script)
    (playing : c.head.phase = .playing) :
    c.Turns tick ↔ c.settings.lastFrame c.script ≤ c.head.frame := by
  rcases h.goesOn_or_turns hc playing with ⟨hlt, hon⟩ | ⟨hle, hturns⟩
  · exact ⟨fun hturns => absurd hturns hon.not_turns,
      fun hle => absurd hlt (Nat.not_lt.mpr hle)⟩
  · exact ⟨fun _ => hle, fun _ => hturns⟩

theorem isFinalFrame_iff (playing : c.head.phase = .playing) :
    c.isFinalFrame = true ↔ c.head.frame = c.settings.lastFrame c.script := by
  unfold isFinalFrame
  rw [playing]
  simp

/-- The current frame of a playing cursor has ended from some tick on. At each of these
ticks the cursor goes on to the next frame before the last one that is played, and
otherwise it turns; and telling the final frame tells that it turns exactly if the frame
is none past the last one. -/
theorem isFinalFrame_exact_iff (hs : s.Reachable) (hc : c.Reached s)
    (playing : c.head.phase = .playing) :
    (∃ due, ∀ tick, c.FrameEnds tick ↔ due ≤ tick) ∧
      ∀ tick, c.FrameEnds tick →
        (c.GoesOn tick ↔ c.head.frame < c.settings.lastFrame s) ∧
          (c.Turns tick ↔ c.settings.lastFrame s ≤ c.head.frame) ∧
          ((c.isFinalFrame = true ↔ c.Turns tick) ↔
            c.head.frame ≤ c.settings.lastFrame s) := by
  have hintime := hc.inTime hs.valid
  have hscript := hc.script_eq
  subst hscript
  refine ⟨exists_frameEnds_iff hs.valid hintime playing, ?_⟩
  intro tick hends
  have hturns := hends.turns_iff hintime playing
  refine ⟨⟨?_, ?_⟩, hturns, ?_⟩
  · intro hon
    exact Nat.lt_of_not_le fun hle => hon.not_turns (hturns.mpr hle)
  · intro hlt
    rcases hends.goesOn_or_turns hintime playing with ⟨_, hon⟩ | ⟨hle, _⟩
    · exact hon
    · exact absurd hlt (Nat.not_lt.mpr hle)
  · rw [hturns, isFinalFrame_iff playing]
    omega

/-- The second of two frames, which are played over and over, shows after five ticks and
ends after seven. The cursor tells that it is the final one, and then starts over. -/
theorem isFinalFrame_exact_while_repeating :
    Reached Script.twoFrames ⟨Script.twoFrames, ⟨.absoluteTick, true, none⟩,
        ⟨.playing, some 5, some 0, 1, []⟩⟩ ∧
      isFinalFrame ⟨Script.twoFrames, ⟨.absoluteTick, true, none⟩,
        ⟨.playing, some 5, some 0, 1, []⟩⟩ = true ∧
      FrameEnds ⟨Script.twoFrames, ⟨.absoluteTick, true, none⟩,
        ⟨.playing, some 5, some 0, 1, []⟩⟩ 7 ∧
      Turns ⟨Script.twoFrames, ⟨.absoluteTick, true, none⟩,
        ⟨.playing, some 5, some 0, 1, []⟩⟩ 7 := by
  have hc : Reached Script.twoFrames ⟨Script.twoFrames, ⟨.absoluteTick, true, none⟩,
      ⟨.playing, some 5, some 0, 1, []⟩⟩ := by
    have hruns : Position.Runs Script.twoFrames ⟨.absoluteTick, true, none⟩ ⟨5, 0, []⟩ _ :=
      .next rfl rfl (.stay rfl)
    have hshown :
        ((Cursor.new Script.twoFrames ⟨.absoluteTick, true, none⟩).advance 5).cursor =
        ⟨Script.twoFrames, ⟨.absoluteTick, true, none⟩, ⟨.playing, some 5, some 0, 1, []⟩⟩ :=
      congrArg (fun o : Outcome =>
        (settle (.new Script.twoFrames ⟨.absoluteTick, true, none⟩) 5
          (o.after [.entered 0])).cursor) hruns.run_eq
    rw [← hshown]
    exact (Reached.new _).advance 5
  have hends : FrameEnds ⟨Script.twoFrames, ⟨.absoluteTick, true, none⟩,
      ⟨.playing, some 5, some 0, 1, []⟩⟩ 7 := ⟨by decide, 7, rfl, by decide⟩
  obtain ⟨_, _, hexact⟩ := (isFinalFrame_exact_iff Script.reachable_twoFrames hc rfl).2 7 hends
  exact ⟨hc, rfl, hends, (hexact.mpr (by decide)).mp rfl⟩

/-- Only the first of two frames is played, and the second one is sought. Playback ends
when it has passed, but the cursor does not tell that it is the final one. -/
theorem isFinalFrame_misses_end :
    Script.twoFrames.Reachable ∧
      Reached Script.twoFrames
        ((Cursor.new Script.twoFrames ⟨.absoluteTick, false, some 0⟩).goTo 1 0).2 ∧
      ((Cursor.new Script.twoFrames ⟨.absoluteTick, false, some 0⟩).goTo 1 0).2.head.phase =
        .playing ∧
      ((Cursor.new Script.twoFrames ⟨.absoluteTick, false, some 0⟩).goTo 1 0).2.FrameEnds 4 ∧
      ((Cursor.new Script.twoFrames ⟨.absoluteTick, false, some 0⟩).goTo 1 0).2.Turns 4 ∧
      ((Cursor.new Script.twoFrames ⟨.absoluteTick, false, some 0⟩).goTo 1 0).2.isFinalFrame =
        false := by
  have hc := (Reached.new (s := Script.twoFrames) ⟨.absoluteTick, false, some 0⟩).goTo 1 0
  have hends :
      ((Cursor.new Script.twoFrames ⟨.absoluteTick, false, some 0⟩).goTo 1 0).2.FrameEnds 4 :=
    ⟨by decide, 7, rfl, by decide⟩
  have hturns := hends.turns_iff (hc.inTime Script.reachable_twoFrames.valid) rfl
  exact ⟨Script.reachable_twoFrames, hc, rfl, hends, hturns.mpr (by decide), rfl⟩

end Cursor

/-! ## Staying on the frames that are played -/

/-- The jumps of the frames up to the last one lead to such frames, or past the end. -/
def Settings.JumpsWithin (settings : Settings) (s : Script) : Prop :=
  ∀ i ≤ settings.lastFrame s, ∀ target frame, s.jumpTarget? settings i = some target →
    s.indexAt? target = some frame → frame ≤ settings.lastFrame s

namespace Position

theorem frame_land_le {target last : Nat} (hp : p.frame ≤ last)
    (hshown : ∀ frame, s.indexAt? target = some frame → frame ≤ last) :
    (p.land s target).position.frame ≤ last := by
  rcases p.land_cases s target with ⟨frame, hframe, hland⟩ | hland
  · rw [hland]
    exact hshown frame hframe
  · rw [hland]
    exact hp

/-- A run stays on the frames that are played. -/
theorem Runs.frame_le_lastFrame (hwithin : settings.JumpsWithin s) (h : Runs s settings p o)
    (hp : p.frame ≤ settings.lastFrame s) : o.position.frame ≤ settings.lastFrame s := by
  induction h with
  | stay => exact hp
  | finish => exact hp
  | next due _ _ ih =>
    obtain ⟨_, _, _, hlast⟩ := move_eq_next_iff.mp due
    exact ih hlast
  | nextJump due jump =>
    obtain ⟨_, _, _, hlast⟩ := move_eq_next_iff.mp due
    exact frame_land_le hlast fun frame => hwithin _ hlast _ frame jump
  | wrap _ _ _ _ ih => exact ih (Nat.zero_le _)
  | wrapEmpty => exact Nat.zero_le _
  | wrapJump _ jump =>
    exact frame_land_le (Nat.zero_le _) fun frame => hwithin _ (Nat.zero_le _) _ frame jump

theorem frame_start_le_lastFrame (hwithin : settings.JumpsWithin s) (elapsed : Nat) :
    (start elapsed s settings).position.frame ≤ settings.lastFrame s := by
  rcases start_cases elapsed s settings with ⟨_, hstart⟩ | ⟨target, jump, hstart⟩
  · rw [hstart, Outcome.position_after]
    exact (runs_run ..).frame_le_lastFrame hwithin (Nat.zero_le _)
  · rw [hstart]
    exact frame_land_le (Nat.zero_le _) fun frame => hwithin _ (Nat.zero_le _) _ frame jump

end Position

namespace Cursor

variable {c : Cursor}

theorem Advances.frame_le_lastFrame {tick : Nat} {a : Advance}
    (hwithin : c.settings.JumpsWithin c.script) (h : c.Advances tick a)
    (hc : c.head.frame ≤ c.settings.lastFrame c.script) :
    a.cursor.head.frame ≤ c.settings.lastFrame c.script := by
  cases h with
  | ignored => exact hc
  | early => exact hc
  | starts => exact Position.frame_start_le_lastFrame hwithin _
  | runs => exact (Position.runs_run ..).frame_le_lastFrame hwithin hc

/-- A cursor over the script that is reached under the settings, on a frame that is played. -/
structure KeepsTo (s : Script) (settings : Settings) (c : Cursor) : Prop where
  reached : c.Reached s
  settings_eq : c.settings = settings
  frame_le : c.head.frame ≤ settings.lastFrame s

/-- Where jumps stay on the frames that are played, ticks, resets and seeks to those
frames stay on them too. -/
theorem KeepsTo.apply (hwithin : settings.JumpsWithin s) (h : c.KeepsTo s settings)
    {op : Operation}
    (hop : op.Within (settings.lastFrame s + 1)) : (op.apply c).KeepsTo s settings := by
  obtain ⟨hreached, hsettings, hframe⟩ := h
  have hscript := hreached.script_eq
  subst hscript hsettings
  cases op with
  | advance tick =>
    have hadvances := c.advances_advance tick
    exact ⟨hreached.advance tick, hadvances.script_eq.2,
      hadvances.frame_le_lastFrame hwithin hframe⟩
  | reset => exact ⟨hreached.reset, rfl, Nat.zero_le _⟩
  | goTo frame tick =>
    refine ⟨hreached.goTo frame tick, Operation.settings_apply c (.goTo frame tick), ?_⟩
    show (c.goTo frame tick).2.head.frame ≤ c.settings.lastFrame c.script
    rcases c.goTo_cases frame tick with hsame | ⟨start, _, hgoes⟩
    · rw [hsame]
      exact hframe
    · rw [hgoes]
      exact Nat.le_of_lt_succ hop
  | restore => exact hop.elim

theorem KeepsTo.operate (hwithin : settings.JumpsWithin s) {ops : List Operation}
    (hops : ∀ op ∈ ops, op.Within (settings.lastFrame s + 1)) :
    ∀ {c : Cursor}, c.KeepsTo s settings → (c.operate ops).KeepsTo s settings := by
  induction ops with
  | nil => exact fun h => h
  | cons op rest ih =>
    intro c h
    obtain ⟨hop, hrest⟩ := List.forall_mem_cons.mp hops
    exact ih hrest (h.apply hwithin hop)

/-- A player that is moved past the last frame neither by jumps nor by seeks tells its
final frame rightly at all times. -/
theorem isFinalFrame_exact_of_within (hs : s.Valid) (hwithin : settings.JumpsWithin s)
    {ops : List Operation} (hops : ∀ op ∈ ops, op.Within (settings.lastFrame s + 1))
    (hc : c = (Cursor.new s settings).operate ops) (playing : c.head.phase = .playing)
    {tick : Nat}
    (hends : c.FrameEnds tick) : c.isFinalFrame = true ↔ c.Turns tick := by
  have hnew : (Cursor.new s settings).KeepsTo s settings := ⟨.new settings, rfl, Nat.zero_le _⟩
  obtain ⟨hreached, hsettings, hframe⟩ := hnew.operate hwithin hops
  rw [← hc] at hreached hsettings hframe
  have hintime := hreached.inTime hs
  have hscript := hreached.script_eq
  subst hscript hsettings
  rw [hends.turns_iff hintime playing, isFinalFrame_iff playing]
  omega

end Cursor

end Flipbook
