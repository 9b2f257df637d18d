import Flipbook.Proofs.Player.Carried
import Flipbook.Proofs.Player.Clock

/-!
# Playback without jumps

Main statement: `shows_after_feed`. If no frame up to the last one carries a jump, what a
cursor shows depends on how long ago the animation started and not on the ticks that it
was fed on the way, so that a pause of any length is caught up in one tick.

`Stands` is the closed form: where a player stands so many ticks after the start. One run
leads from the start of any frame that has been reached to where the closed form says
(`Runs.stands`). Two runs add up (`Stands.later`): a round that has been taken off the
clock is not missed, because what is left of the time after whole rounds is all that later
runs need. The rest carries this along the ticks of a cursor (`Plays`).
-/

namespace Flipbook

variable {s : Script} {settings : Settings} {p : Position} {o : Outcome}

/-- No frame up to the last one carries a jump. -/
def Settings.Jumpless (settings : Settings) (s : Script) : Prop :=
  ∀ i ≤ settings.lastFrame s, ∀ f, s.frame? i = some f → ∀ tag ∈ f.tags, tag.kind ≠ .jump

theorem Settings.Jumpless.jumpTarget? (h : settings.Jumpless s) {i : Nat}
    (hi : i ≤ settings.lastFrame s) : s.jumpTarget? settings i = none := by
  unfold Script.jumpTarget?
  cases hf : s.frame? i with
  | none => rfl
  | some f =>
    have hnone : f.tagOf? .jump = none := Frame.tagOf?_eq_none_iff.mpr (h i hi f hf)
    simp [Frame.valueOf?, hnone]

/-- The tick at which the last frame is left. -/
def Settings.round (settings : Settings) (s : Script) : Nat :=
  s.before (settings.lastFrame s + 1)

/-- Where a player that meets no jump stands, a number of ticks after the start: whether
playback has ended, the time on the clock, and the frame. -/
inductive Stands (s : Script) (settings : Settings) (elapsed : Nat) :
    Bool → Nat → Nat → Prop where
  | inside {frame : Nat} (within : elapsed < settings.round s)
      (shown : s.indexAt? elapsed = some frame) : Stands s settings elapsed false elapsed frame
  | past (passed : settings.round s ≤ elapsed) (once : settings.repeats = false) :
      Stands s settings elapsed true elapsed (settings.lastFrame s)
  | again {frame : Nat} (passed : settings.round s ≤ elapsed)
      (repeats : settings.repeats = true)
      (pos : 0 < settings.round s)
      (shown : s.indexAt? (elapsed % settings.round s) = some frame) :
      Stands s settings elapsed false (elapsed % settings.round s) frame
  | stalled (repeats : settings.repeats = true) (zero : settings.round s = 0) :
      Stands s settings elapsed false 0 0

namespace Stands

/-! What the closed form says in each of the four cases. -/

theorem eq_of_lt {elapsed clock frame : Nat} {ended : Bool}
    (h : Stands s settings elapsed ended clock frame) (hlt : elapsed < settings.round s) :
    ended = false ∧ clock = elapsed ∧ s.indexAt? elapsed = some frame := by
  cases h with
  | inside _ shown => exact ⟨rfl, rfl, shown⟩
  | past passed => omega
  | again passed => omega
  | stalled _ zero => omega

theorem eq_of_once {elapsed clock frame : Nat} {ended : Bool}
    (h : Stands s settings elapsed ended clock frame) (hle : settings.round s ≤ elapsed)
    (honce : settings.repeats = false) : ended = true ∧ frame = settings.lastFrame s := by
  cases h with
  | inside within => omega
  | past => exact ⟨rfl, rfl⟩
  | again _ repeats => simp [honce] at repeats
  | stalled repeats => simp [honce] at repeats

theorem eq_of_repeats {elapsed clock frame : Nat} {ended : Bool}
    (h : Stands s settings elapsed ended clock frame) (hle : settings.round s ≤ elapsed)
    (hrepeats : settings.repeats = true) (hpos : 0 < settings.round s) :
    ended = false ∧ clock = elapsed % settings.round s ∧
      s.indexAt? (elapsed % settings.round s) = some frame := by
  cases h with
  | inside within => omega
  | past _ once => simp [hrepeats] at once
  | again _ _ _ shown => exact ⟨rfl, rfl, shown⟩
  | stalled _ zero => omega

theorem eq_of_stalled {elapsed clock frame : Nat} {ended : Bool}
    (h : Stands s settings elapsed ended clock frame) (hrepeats : settings.repeats = true)
    (hzero : settings.round s = 0) : ended = false ∧ clock = 0 ∧ frame = 0 := by
  cases h with
  | inside within => omega
  | past _ once => simp [hrepeats] at once
  | again _ _ pos => omega
  | stalled => exact ⟨rfl, rfl, rfl⟩

/-- Where playback goes on, the frame is one that is played, and its start has come. -/
theorem entered (hs : s.Valid) {elapsed clock frame : Nat}
    (h : Stands s settings elapsed false clock frame) :
    frame ≤ settings.lastFrame s ∧ s.before frame ≤ clock ∧ clock ≤ Tick.last := by
  have hclock := hs.before_le_last (settings.lastFrame_lt hs)
  have hshows : ∀ time, time < settings.round s → s.indexAt? time = some frame →
      frame ≤ settings.lastFrame s ∧ s.before frame ≤ time ∧ time ≤ Tick.last := by
    intro time htime hshown
    obtain ⟨_, hstart, _⟩ := hs.indexAt?_eq_some_iff.mp hshown
    have hlt : frame < settings.lastFrame s + 1 :=
      Script.lt_of_before_lt (Nat.lt_of_le_of_lt hstart htime)
    have hle : time ≤ Tick.last := Nat.le_trans (Nat.le_of_lt htime) hclock
    exact ⟨by omega, hstart, hle⟩
  cases h with
  | inside within shown => exact hshows _ within shown
  | again _ _ pos shown => exact hshows _ (Nat.mod_lt _ pos) shown
  | stalled => exact ⟨Nat.zero_le _, Nat.le_refl 0, Nat.zero_le _⟩

/-- Stepping on from where a player stands leads to where it stands later: the rounds that
were taken off the clock do not matter for what is left of the time. -/
theorem later {elapsed clock frame more clock' frame' : Nat} {ended : Bool}
    (h : Stands s settings elapsed false clock frame)
    (h' : Stands s settings (clock + more) ended clock' frame') :
    Stands s settings (elapsed + more) ended clock' frame' := by
  cases h with
  | inside => exact h'
  | stalled repeats zero =>
    cases h' with
    | inside within => omega
    | past _ once => simp [repeats] at once
    | again _ _ pos => omega
    | stalled => exact .stalled repeats zero
  | again passed repeats pos =>
    -- more rounds may be over by then, and taking them off at once or one by
    -- one leaves the same
    have hpassed : settings.round s ≤ elapsed + more := by omega
    have hmod : (elapsed % settings.round s + more) % settings.round s =
        (elapsed + more) % settings.round s := Nat.mod_add_mod ..
    cases h' with
    | inside within shown =>
      rw [Nat.mod_eq_of_lt within] at hmod
      rw [hmod] at shown ⊢
      exact .again hpassed repeats pos shown
    | past _ once => simp [repeats] at once
    | again _ _ _ shown =>
      rw [hmod] at shown ⊢
      exact .again hpassed repeats pos shown
    | stalled _ zero => omega

/-- Once playback has ended, the last frame stays. -/
theorem still {elapsed elapsed' clock frame : Nat}
    (h : Stands s settings elapsed true clock frame)
    (hle : elapsed ≤ elapsed') : ∃ clock', Stands s settings elapsed' true clock' frame := by
  cases h with
  | past passed once => exact ⟨elapsed', .past (Nat.le_trans passed hle) once⟩

/-- There is one place to stand at a time. -/
theorem unique {elapsed clock clock' frame frame' : Nat} {ended ended' : Bool}
    (h : Stands s settings elapsed ended clock frame)
    (h' : Stands s settings elapsed ended' clock' frame') :
    ended = ended' ∧ frame = frame' := by
  cases h with
  | inside within shown =>
    obtain ⟨rfl, _, hshown⟩ := h'.eq_of_lt within
    rw [shown, Option.some.injEq] at hshown
    exact ⟨rfl, hshown⟩
  | past passed once =>
    obtain ⟨rfl, rfl⟩ := h'.eq_of_once passed once
    exact ⟨rfl, rfl⟩
  | again passed repeats pos shown =>
    obtain ⟨rfl, _, hshown⟩ := h'.eq_of_repeats passed repeats pos
    rw [shown, Option.some.injEq] at hshown
    exact ⟨rfl, hshown⟩
  | stalled repeats zero =>
    obtain ⟨rfl, _, rfl⟩ := h'.eq_of_stalled repeats zero
    exact ⟨rfl, rfl⟩

end Stands

/-! ## Runs -/

namespace Position

/-- From the start of a frame that is played, stepping leads to where the player
stands at that time. -/
theorem Runs.stands (hs : s.Valid) (hjump : settings.Jumpless s) (h : Runs s settings p o)
    (hp : p.Entered s) (hframe : p.frame ≤ settings.lastFrame s) :
    Stands s settings p.elapsed o.ended o.position.elapsed o.position.frame := by
  have hlast := settings.lastFrame_lt hs
  induction h with
  | @stay p due =>
    obtain ⟨finish, hend, hlt⟩ := move_eq_stay_iff.mp due
    obtain ⟨hcount, rfl⟩ := hs.end?_eq_some_iff.mp hend
    have hmono := s.before_mono (Nat.succ_le_succ hframe)
    exact .inside (Nat.lt_of_lt_of_le hlt hmono)
      (hs.indexAt?_eq_some_iff.mpr ⟨hcount, hp.start_le, hlt⟩)
  | @finish p due =>
    rcases of_move_eq_finish due with hnone | ⟨honce, hle, finish, hend, hpassed⟩
    -- the end of the frame is there to be looked up, so the last frame has been left for good
    · rw [hs.end?_eq hp.frame_lt] at hnone
      cases hnone
    · obtain ⟨_, rfl⟩ := hs.end?_eq_some_iff.mp hend
      obtain hsame : p.frame = settings.lastFrame s := Nat.le_antisymm hframe hle
      show Stands s settings p.elapsed true p.elapsed p.frame
      rw [hsame] at hpassed ⊢
      exact .past hpassed honce
  | next due _ _ ih =>
    obtain ⟨_, _, _, hlt⟩ := move_eq_next_iff.mp due
    exact ih (.next hs due) hlt
  | nextJump due jump =>
    obtain ⟨_, _, _, hlt⟩ := move_eq_next_iff.mp due
    rw [hjump.jumpTarget? hlt] at jump
    cases jump
  | @wrap p o length due _ pos _ ih =>
    obtain ⟨hend, hpassed, hle, hrepeats⟩ := move_eq_wrap_iff.mp due
    obtain hsame : p.frame = settings.lastFrame s := Nat.le_antisymm hframe hle
    obtain ⟨_, rfl⟩ := hs.end?_eq_some_iff.mp hend
    rw [hsame] at ih pos hpassed
    have hpos : 0 < settings.round s := Nat.pos_of_ne_zero pos
    have hleft : (p.rewind s (settings.round s)).elapsed = p.elapsed % settings.round s :=
      if_neg pos
    -- what is left of the time lies inside the first round
    have hstands := ih (.rewind hs _ _) (Nat.zero_le _)
    change Stands s settings (p.rewind s (settings.round s)).elapsed _ _ _ at hstands
    rw [hleft] at hstands
    obtain ⟨hon, hclock, hshown⟩ := hstands.eq_of_lt (Nat.mod_lt _ hpos)
    rw [Outcome.ended_after, Outcome.position_after, hon, hclock]
    exact .again hpassed hrepeats hpos hshown
  | @wrapEmpty p due =>
    obtain ⟨hend, _, hle, hrepeats⟩ := move_eq_wrap_iff.mp due
    obtain hsame : p.frame = settings.lastFrame s := Nat.le_antisymm hframe hle
    rw [hsame] at hend
    exact .stalled hrepeats (hs.end?_eq_some_iff.mp hend).2
  | wrapJump due jump =>
    rw [hjump.jumpTarget? (Nat.zero_le _)] at jump
    cases jump

theorem stands_start (hs : s.Valid) (hjump : settings.Jumpless s) (elapsed : Nat) :
    Stands s settings elapsed (start elapsed s settings).ended
      (start elapsed s settings).position.elapsed
        (start elapsed s settings).position.frame := by
  have hruns := runs_run s settings (enter ⟨elapsed, 0, []⟩ s 0)
  rcases start_cases elapsed s settings with ⟨_, hstart⟩ | ⟨target, jump, _⟩
  · rw [hstart, Outcome.ended_after, Outcome.position_after]
    exact hruns.stands hs hjump (.first hs elapsed _) (Nat.zero_le _)
  · rw [hjump.jumpTarget? (Nat.zero_le _)] at jump
    cases jump

end Position

/-! ## Cursors -/

namespace Cursor

/-- The cursor after some ticks. -/
def feed (c : Cursor) (ticks : List Nat) : Cursor :=
  ticks.foldl (fun c tick => (c.advance tick).cursor) c

/-- A cursor that was just started, before its first tick, and the tick at which its
animation starts. -/
inductive Started (first : Nat) : Cursor → Int → Prop where
  | new (s : Script) (settings : Settings) : Started first (.new s settings) 0
  | startingAt (s : Script) (tick : Nat) : Started first (.startingAt s tick) tick
  | reset (c : Cursor) : Started first c.reset first
  | goTo (c : Cursor) (frame tick start : Nat) (played : frame ≤ c.settings.lastFrame c.script)
      (sought : c.script.start? frame = some start) (onward : tick ≤ first) :
      Started first (c.goTo frame tick).2 (tick - start)

/-- A cursor whose last tick was `tick` and whose animation starts at `origin` waits for
the start, or stands where the time that has passed since leads. -/
inductive Plays (c : Cursor) (origin : Int) (tick : Nat) : Prop where
  | waiting (before : (tick : Int) < origin) (phase : c.head.phase = .idle)
      (lastTick : c.head.lastTick = some tick) (anchored : c.head.origin = some origin)
  | showing {clock : Nat} (due : origin ≤ tick) (phase : c.head.phase = .playing)
      (lastTick : c.head.lastTick = some tick)
      (anchored : c.head.origin = some ((tick : Int) - clock))
      (stands : Stands c.script c.settings (tick - origin).toNat false clock c.head.frame)
  | finished {clock : Nat} (due : origin ≤ tick) (phase : c.head.phase = .finished)
      (stands : Stands c.script c.settings (tick - origin).toNat true clock c.head.frame)

theorem plays_settle {c : Cursor} {origin : Int} {tick : Nat} (due : origin ≤ tick)
    (h : Stands c.script c.settings (tick - origin).toNat o.ended o.position.elapsed
      o.position.frame) :
    (c.settle tick o).cursor.Plays origin tick := by
  have hphase : (c.settle tick o).cursor.head.phase =
      if o.ended then .finished else .playing := rfl
  cases hended : o.ended with
  | true =>
    rw [hended] at h hphase
    exact .finished due hphase h
  | false =>
    rw [hended] at h hphase
    exact .showing due hphase rfl rfl h

/-- A cursor that has not shown a frame yet waits for the start or enters the first frame. -/
theorem plays_of_idle {c : Cursor} {origin : Int} {tick : Nat} (hs : c.script.Valid)
    (hjump : c.settings.Jumpless c.script) (phase : c.head.phase = .idle)
    (onward : c.head.lastTick.any (tick < ·) = false)
    (anchored : c.head.origin.getD tick = origin) :
    (c.advance tick).cursor.Plays origin tick := by
  have hadvances := c.advances_advance tick
  generalize c.advance tick = a at hadvances ⊢
  cases hadvances with
  | ignored deaf => simp [phase, onward] at deaf
  | early _ _ before =>
    refine .waiting (anchored ▸ before) phase rfl ?_
    rw [anchored]
  | starts _ _ due =>
    have hstands := Position.stands_start hs hjump (c.elapsedAt tick)
    unfold elapsedAt at hstands ⊢
    rw [anchored] at due hstands ⊢
    exact plays_settle due hstands
  | runs playing => simp [phase] at playing

/-- From the start of a frame that is played, a tick leads to where the time
on the clock does. -/
theorem exists_settle_of_playing {c : Cursor} {tick : Nat} (hs : c.script.Valid)
    (hjump : c.settings.Jumpless c.script) (phase : c.head.phase = .playing)
    (onward : c.head.lastTick.any (tick < ·) = false)
    (due : c.head.origin.getD tick ≤ (tick : Int))
    (hframe : c.head.frame ≤ c.settings.lastFrame c.script)
    (hstart : c.script.before c.head.frame ≤ c.elapsedAt tick) :
    ∃ o, (c.advance tick).cursor = (c.settle tick o).cursor ∧
      Stands c.script c.settings (c.elapsedAt tick) o.ended o.position.elapsed
        o.position.frame := by
  have hadvances := c.advances_advance tick
  generalize c.advance tick = a at hadvances ⊢
  cases hadvances with
  | ignored deaf => simp [phase, onward] at deaf
  | early _ _ before => omega
  | starts idle => simp [phase] at idle
  | runs =>
    have hcount := Nat.lt_of_le_of_lt hframe (c.settings.lastFrame_lt hs)
    have hruns := Position.runs_run c.script c.settings
      ⟨c.elapsedAt tick, c.head.frame, c.head.carried⟩
    exact ⟨_, rfl, hruns.stands hs hjump ⟨hcount, hstart⟩ hframe⟩

theorem Started.plays {c : Cursor} {origin : Int} {first : Nat} (h : Started first c origin)
    (hs : c.script.Valid) (hjump : c.settings.Jumpless c.script) :
    (c.advance first).cursor.Plays origin first := by
  cases h with
  | new => exact plays_of_idle hs hjump rfl rfl rfl
  | startingAt => exact plays_of_idle hs hjump rfl rfl rfl
  | reset => exact plays_of_idle hs hjump rfl rfl rfl
  | goTo c frame tick start played sought onward =>
    rw [c.goTo_of_start? sought tick] at hs hjump ⊢
    have hvalid : c.script.Valid := hs
    obtain ⟨_, rfl⟩ := hvalid.start?_eq_some_iff.mp sought
    have hdue : (tick : Int) - c.script.before frame ≤ first := by omega
    have hstart : c.script.before frame ≤
        ((first : Int) - (tick - c.script.before frame)).toNat := by
      omega
    have honward : (some tick).any (first < ·) = false := by simpa using onward
    obtain ⟨o, hadvance, hstands⟩ :=
      exists_settle_of_playing (c := { c with head := _ }) hs hjump rfl honward hdue played
        hstart
    rw [hadvance]
    exact plays_settle hdue hstands

/-- A tick that is not older than the last one is followed. -/
theorem Plays.advance {c : Cursor} {origin : Int} {tick next : Nat} (h : c.Plays origin tick)
    (hs : c.script.Valid) (hjump : c.settings.Jumpless c.script) (onward : tick ≤ next) :
    (c.advance next).cursor.Plays origin next := by
  cases h with
  | waiting before phase lastTick anchored =>
    have honward : c.head.lastTick.any (next < ·) = false := by simpa [lastTick] using onward
    exact plays_of_idle hs hjump phase honward (by rw [anchored, Option.getD_some])
  | @showing clock due phase lastTick anchored stands =>
    obtain ⟨hframe, hstart, _⟩ := stands.entered hs
    have honward : c.head.lastTick.any (next < ·) = false := by simpa [lastTick] using onward
    have hdue : c.head.origin.getD next ≤ (next : Int) := by
      rw [anchored, Option.getD_some]
      omega
    have helapsed : c.elapsedAt next = clock + (next - tick) := by
      rw [elapsedAt, anchored, Option.getD_some]
      omega
    obtain ⟨o, hadvance, hstands⟩ :=
      exists_settle_of_playing hs hjump phase honward hdue hframe (by omega)
    -- the time up to now and the time since add up
    have hsum : (tick - origin).toNat + (next - tick) = (next - origin).toNat := by omega
    rw [helapsed] at hstands
    have hlater := stands.later hstands
    rw [hsum] at hlater
    rw [hadvance]
    exact plays_settle (by omega) hlater
  | @finished clock due phase stands =>
    have hadvances := c.advances_advance next
    generalize c.advance next = a at hadvances ⊢
    cases hadvances with
    | ignored =>
      have hlater : (tick - origin).toNat ≤ (next - origin).toNat := by omega
      obtain ⟨_, hstands⟩ := stands.still hlater
      exact .finished (by omega) phase hstands
    | early live => exact absurd phase live
    | starts idle => simp [phase] at idle
    | runs playing => simp [phase] at playing

/-- Ticks that do not fall are followed one after another. -/
theorem Plays.feed {origin : Int} {last : Nat} {rest : List Nat} :
    ∀ {c : Cursor} {tick : Nat}, c.Plays origin tick → c.script.Valid →
      c.settings.Jumpless c.script → (tick :: rest).Pairwise (· ≤ ·) →
      (tick :: rest).getLast? = some last → (c.feed rest).Plays origin last := by
  induction rest with
  | nil =>
    intro c tick h _ _ _ hlast
    rw [List.getLast?_singleton, Option.some.injEq] at hlast
    rw [← hlast]
    exact h
  | cons next rest ih =>
    intro c tick h hs hjump hsorted hlast
    obtain ⟨hle, hsorted⟩ := List.pairwise_cons.mp hsorted
    obtain ⟨hscript, hsettings⟩ := (c.advances_advance next).script_eq
    have hnext := h.advance hs hjump (hle next (List.mem_cons_self ..))
    rw [← hscript] at hs
    rw [← hscript, ← hsettings] at hjump
    exact ih hnext hs hjump hsorted hlast

theorem script_feed (ticks : List Nat) :
    ∀ c : Cursor, (c.feed ticks).script = c.script ∧ (c.feed ticks).settings = c.settings := by
  induction ticks with
  | nil => exact fun c => ⟨rfl, rfl⟩
  | cons tick rest ih =>
    intro c
    obtain ⟨hscript, hsettings⟩ := (c.advances_advance tick).script_eq
    rw [← hscript, ← hsettings]
    exact ih _

theorem Started.follows {c : Cursor} {origin : Int} {first : Nat}
    (h : Started first c origin) : c.head.Follows c.script := by
  cases h with
  | new => exact Playhead.follows_idle ..
  | startingAt => exact Playhead.follows_idle ..
  | reset => exact Playhead.follows_idle ..
  | goTo c frame tick start played sought onward =>
    rw [c.goTo_of_start? sought tick]
    exact Playhead.follows_sought rfl rfl

theorem follows_feed (ticks : List Nat) :
    ∀ c : Cursor, c.head.Follows c.script → (c.feed ticks).head.Follows c.script := by
  induction ticks with
  | nil => exact fun c h => h
  | cons tick rest ih =>
    intro c h
    have hnext := (c.advances_advance tick).follows h
    rw [← (c.advances_advance tick).script_eq.1] at hnext ⊢
    exact ih _ hnext

/-- What a cursor shows a number of ticks after the start, if the last frame is
left at `round`. -/
structure Shows (c : Cursor) (elapsed round : Nat) : Prop where
  inside : elapsed < round →
    c.head.phase = .playing ∧ c.script.indexAt? elapsed = some c.head.frame ∧
      c.elapsed = elapsed
  past : round ≤ elapsed → c.settings.repeats = false →
    c.head.phase = .finished ∧ c.head.frame = c.settings.lastFrame c.script
  again : round ≤ elapsed → c.settings.repeats = true → 0 < round →
    c.head.phase = .playing ∧ c.script.indexAt? (elapsed % round) = some c.head.frame ∧
      c.elapsed = elapsed % round
  stalled : round ≤ elapsed → c.settings.repeats = true → round = 0 →
    c.head.phase = .playing ∧ c.head.frame = 0

/-- Once the animation has started, a cursor stands where the time that has
passed since leads. -/
theorem Plays.exists_stands {c : Cursor} {origin : Int} {tick : Nat} (h : c.Plays origin tick)
    (hs : c.script.Valid) (due : origin ≤ tick) :
    ∃ ended clock, Stands c.script c.settings (tick - origin).toNat ended clock c.head.frame ∧
      (ended = true → c.head.phase = .finished) ∧
      (ended = false → c.head.phase = .playing ∧ c.elapsed = clock) := by
  cases h with
  | waiting before => omega
  | @showing clock _ phase lastTick anchored stands =>
    refine ⟨false, clock, stands, nofun, fun _ => ⟨phase, ?_⟩⟩
    obtain ⟨_, _, hclock⟩ := stands.entered hs
    unfold elapsed elapsedAt
    rw [lastTick, anchored]
    show min ((tick : Int) - (tick - clock)).toNat Tick.last = clock
    omega
  | @finished clock _ phase stands => exact ⟨true, clock, stands, fun _ => phase, nofun⟩

theorem Plays.shows {c : Cursor} {origin : Int} {tick : Nat} (h : c.Plays origin tick)
    (hs : c.script.Valid) (due : origin ≤ tick) :
    c.Shows (tick - origin).toNat (c.settings.round c.script) := by
  obtain ⟨ended, clock, stands, hfinished, hplaying⟩ := h.exists_stands hs due
  constructor
  · intro hlt
    obtain ⟨hon, hclock, hshown⟩ := stands.eq_of_lt hlt
    obtain ⟨hphase, helapsed⟩ := hplaying hon
    exact ⟨hphase, hshown, helapsed.trans hclock⟩
  · intro hle honce
    obtain ⟨hend, hframe⟩ := stands.eq_of_once hle honce
    exact ⟨hfinished hend, hframe⟩
  · intro hle hrepeats hpos
    obtain ⟨hon, hclock, hshown⟩ := stands.eq_of_repeats hle hrepeats hpos
    obtain ⟨hphase, helapsed⟩ := hplaying hon
    exact ⟨hphase, hshown, helapsed.trans hclock⟩
  · intro _ hrepeats hzero
    obtain ⟨hon, _, hframe⟩ := stands.eq_of_stalled hrepeats hzero
    exact ⟨(hplaying hon).1, hframe⟩

/-- Two cursors whose animations start at the same tick show the same once they have
seen the same tick. -/
theorem Plays.phase_frame_eq {c d : Cursor} {origin : Int} {tick : Nat}
    (hc : c.Plays origin tick)
    (hd : d.Plays origin tick) (hs : c.script.Valid) (due : origin ≤ tick)
    (hscript : d.script = c.script) (hsettings : d.settings = c.settings) :
    d.head.phase = c.head.phase ∧ d.head.frame = c.head.frame := by
  obtain ⟨ended, clock, hstands, hfinished, hplaying⟩ := hc.exists_stands hs due
  obtain ⟨ended', clock', hstands', hfinished', hplaying'⟩ :=
    hd.exists_stands (hscript ▸ hs) due
  rw [hscript, hsettings] at hstands'
  obtain ⟨rfl, hframe⟩ := hstands'.unique hstands
  refine ⟨?_, hframe⟩
  cases ended' with
  | true => rw [hfinished rfl, hfinished' rfl]
  | false => rw [(hplaying rfl).1, (hplaying' rfl).1]

/-- A cursor that was just started follows its ticks, and carries the tags of the
frame that it shows. -/
theorem Started.feed {c : Cursor} {origin : Int} {first tick : Nat} {rest : List Nat}
    (h : Started first c origin) (hs : c.script.Valid) (hjump : c.settings.Jumpless c.script)
    (hsorted : (first :: rest).Pairwise (· ≤ ·)) (hlast : (first :: rest).getLast? = some tick)
    (hdue : origin ≤ tick) :
    (c.feed (first :: rest)).Plays origin tick ∧
      (c.feed (first :: rest)).head.carried =
        c.script.carriedThrough (c.feed (first :: rest)).head.frame := by
  obtain ⟨hscript, hsettings⟩ := (c.advances_advance first).script_eq
  have hfirst := h.plays hs hjump
  have hplays : (c.feed (first :: rest)).Plays origin tick := by
    rw [← hscript] at hs
    rw [← hscript, ← hsettings] at hjump
    exact hfirst.feed hs hjump hsorted hlast
  refine ⟨hplays, (follows_feed (first :: rest) c h.follows).begun ?_⟩
  intro hidle
  cases hplays with
  | waiting before => omega
  | showing _ phase => simp [hidle] at phase
  | finished _ phase => simp [hidle] at phase

/-- If no frame up to the last one carries a jump, a cursor shows after its ticks what the
time since the start of the animation says, and carries the tags of the frame that it
shows. Any other ticks that do not fall and end with the same one lead to the same, a
single one among them. -/
theorem shows_after_feed {c : Cursor} (hs : c.script.Reachable)
    (hjump : ∀ i ≤ c.settings.lastFrame c.script, ∀ f, c.script.frame? i = some f →
      ∀ tag ∈ f.tags, tag.kind ≠ .jump)
    {origin : Int} {first tick : Nat} {rest : List Nat} (hstart : Started first c origin)
    (hsorted : (first :: rest).Pairwise (· ≤ ·)) (hlast : (first :: rest).getLast? = some tick)
    (hdue : origin ≤ tick) :
    ∃ round, c.script.end? (c.settings.lastFrame c.script) = some round ∧
      (c.feed (first :: rest)).Shows (tick - origin).toNat round ∧
      (c.feed (first :: rest)).head.carried =
        c.script.carriedThrough (c.feed (first :: rest)).head.frame ∧
      ∀ (d : Cursor) (first' : Nat) (rest' : List Nat), d.script = c.script →
        d.settings = c.settings → Started first' d origin →
          (first' :: rest').Pairwise (· ≤ ·) →
        (first' :: rest').getLast? = some tick →
        (d.feed (first' :: rest')).head.phase = (c.feed (first :: rest)).head.phase ∧
          (d.feed (first' :: rest')).head.frame = (c.feed (first :: rest)).head.frame ∧
          (d.feed (first' :: rest')).head.carried = (c.feed (first :: rest)).head.carried := by
  obtain ⟨hplays, hcarried⟩ := hstart.feed hs.valid hjump hsorted hlast hdue
  obtain ⟨hscript, hsettings⟩ := script_feed (first :: rest) c
  have hvalid : (c.feed (first :: rest)).script.Valid := hscript ▸ hs.valid
  refine ⟨c.settings.round c.script, hs.valid.end?_eq (c.settings.lastFrame_lt hs.valid), ?_,
    hcarried, ?_⟩
  · have hshows := hplays.shows hvalid hdue
    rw [hscript, hsettings] at hshows
    exact hshows
  · intro d first' rest' hdscript hdsettings hdstart hdsorted hdlast
    rw [← hdscript, ← hdsettings] at hjump
    obtain ⟨hdplays, hdcarried⟩ :=
      hdstart.feed (hdscript ▸ hs.valid) hjump hdsorted hdlast hdue
    obtain ⟨hdscript', hdsettings'⟩ := script_feed (first' :: rest') d
    obtain ⟨hphase, hframe⟩ := hplays.phase_frame_eq hdplays hvalid hdue
      (by rw [hdscript', hdscript, hscript]) (by rw [hdsettings', hdsettings, hsettings])
    exact ⟨hphase, hframe, by rw [hdcarried, hcarried, hdscript, hframe]⟩

/-- A seek at tick five to the second of two frames, of three and of four ticks, starts
the animation at tick two. At tick 103, after fourteen rounds of seven ticks, three ticks
are left, and the second frame shows. -/
theorem shows_after_rounds :
    Started 5 ((Cursor.new Script.twoFrames ⟨.absoluteTick, true, none⟩).goTo 1 5).2 2 ∧
      (((Cursor.new Script.twoFrames ⟨.absoluteTick, true, none⟩).goTo 1 5).2.feed
        [5, 9, 103]).head.phase = .playing ∧
      (((Cursor.new Script.twoFrames ⟨.absoluteTick, true, none⟩).goTo 1 5).2.feed
        [5, 9, 103]).head.frame = 1 ∧
      (((Cursor.new Script.twoFrames ⟨.absoluteTick, true, none⟩).goTo 1 5).2.feed
        [5, 9, 103]).elapsed = 3 := by
  have hstart :
      Started 5 ((Cursor.new Script.twoFrames ⟨.absoluteTick, true, none⟩).goTo 1 5).2 2 :=
    .goTo _ 1 5 3 (by decide) rfl (Nat.le_refl 5)
  have hjump : ∀ i ≤ 1, ∀ f, Script.twoFrames.frame? i = some f →
      ∀ tag ∈ f.tags, tag.kind ≠ .jump := by
    intro i _ f hf tag htag
    have hmem : f ∈ Script.twoFrames.frames := List.mem_of_getElem? hf
    have hnone : ∀ f ∈ Script.twoFrames.frames, f.tags = [] := by decide
    rw [hnone f hmem] at htag
    cases htag
  have hsorted : (5 :: [9, 103]).Pairwise (· ≤ ·) := by decide
  have hlast : (5 :: [9, 103]).getLast? = some 103 := rfl
  obtain ⟨round, hround, hshows, _⟩ :=
    shows_after_feed
      (c := ((Cursor.new Script.twoFrames ⟨.absoluteTick, true, none⟩).goTo 1 5).2)
      Script.reachable_twoFrames hjump hstart hsorted hlast (by decide)
  obtain rfl : 7 = round := Option.some.inj hround
  obtain ⟨hscript, hsettings⟩ :=
    script_feed [5, 9, 103]
      ((Cursor.new Script.twoFrames ⟨.absoluteTick, true, none⟩).goTo 1 5).2
  obtain ⟨hphase, hshown, helapsed⟩ :=
    hshows.again (by decide) (by rw [hsettings]; rfl) (by decide)
  rw [hscript] at hshown
  exact ⟨hstart, hphase, (Option.some.inj hshown).symm, helapsed⟩

end Cursor

end Flipbook
