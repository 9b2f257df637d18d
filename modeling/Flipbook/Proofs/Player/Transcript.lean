import Flipbook.Player.Transcript
import Flipbook.Proofs.Player.Quiet
import Flipbook.Proofs.Player.Straight

/-!
# What a transcript notes

Main statement: `simulate_of_jumpless`. The transcript of a script without jumps can be
read off its timeline: there is one note for each time at which a frame starts, round
after round, and one more at the end if playback does not repeat.

`Stands` says which frame shows at a tick. What remains is that a tick is answered with a
change exactly at a `Boundary`, and that the frame then shown comes after the one noted
last, unless a round is over: `Notes` says all this of one tick. A fresh cursor at its
first tick and a playing cursor at the next one both wait for a tick with such notes, and
wait again after it unless playback has ended (`Awaits.notes`), which carries along the
ticks of the transcript (`Awaits.reverse_watch`).
-/

namespace Flipbook

variable {s : Script} {settings : Settings}

/-! ## Times -/

namespace Settings

/-- The time on the clock at a tick: playback that repeats takes whole rounds off it. -/
def clockAt (settings : Settings) (s : Script) (tick : Nat) : Nat :=
  if settings.repeats then tick % settings.round s else tick

/-- Playback has just gone round. -/
def roundOver (settings : Settings) (s : Script) (tick : Nat) : Bool :=
  settings.repeats && decide (0 < tick ∧ tick % settings.round s = 0)

/-- A time at which a frame starts: the first one, or one after a frame that
is not the last. -/
def Boundary (settings : Settings) (s : Script) (time : Nat) : Prop :=
  time = 0 ∨ ∃ i < settings.lastFrame s, s.end? i = some time

instance (settings : Settings) (s : Script) : DecidablePred (settings.Boundary s) :=
  fun time =>
    inferInstanceAs (Decidable (time = 0 ∨ ∃ i < settings.lastFrame s, s.end? i = some time))

/-- The first frame up to the last one that ends after a time, or the last one if none does. -/
def frameAt (settings : Settings) (s : Script) (time : Nat) : Nat :=
  ((List.range (settings.lastFrame s + 1)).find? fun i => (s.end? i).any (time < ·)).getD
    (settings.lastFrame s)

theorem round_pos (hs : s.Valid) (hmoves : ¬ settings.Stalls s)
    (hrepeats : settings.repeats = true) : 0 < settings.round s := by
  refine Nat.pos_of_ne_zero ?_
  intro hzero
  exact hmoves ⟨hrepeats, hs.end?_eq_some_iff.mpr ⟨settings.lastFrame_lt hs, hzero⟩⟩

/-- After one more tick the clock shows one tick more, or the round is over. -/
theorem clockAt_succ (hs : s.Valid) (hmoves : ¬ settings.Stalls s) (tick : Nat) :
    (settings.repeats = true ∧ settings.clockAt s tick + 1 = settings.round s ∧
        settings.clockAt s (tick + 1) = 0) ∨
      (settings.repeats = true → settings.clockAt s tick + 1 < settings.round s) ∧
        settings.clockAt s (tick + 1) = settings.clockAt s tick + 1 := by
  unfold clockAt
  cases hrepeats : settings.repeats with
  | false => exact Or.inr ⟨nofun, rfl⟩
  | true =>
    have hlt := Nat.mod_lt tick (round_pos hs hmoves hrepeats)
    have hsum : (tick % settings.round s + 1) % settings.round s =
        (tick + 1) % settings.round s :=
      Nat.mod_add_mod ..
    rw [if_pos rfl, if_pos rfl]
    rcases Nat.lt_or_eq_of_le hlt with hinside | hover
    · rw [Nat.mod_eq_of_lt hinside] at hsum
      exact Or.inr ⟨fun _ => hinside, hsum.symm⟩
    · have hwhole : tick % settings.round s + 1 = settings.round s := hover
      rw [hwhole, Nat.mod_self] at hsum
      exact Or.inl ⟨rfl, hwhole, hsum.symm⟩

theorem roundOver_succ (settings : Settings) (s : Script) (tick : Nat) :
    settings.roundOver s (tick + 1) = decide (settings.clockAt s (tick + 1) = 0) := by
  unfold roundOver clockAt
  cases settings.repeats <;> simp

/-- Up to the last frame, it is the frame of the look-up. -/
theorem frameAt_of_indexAt? (hs : s.Valid) {time frame : Nat}
    (hshown : s.indexAt? time = some frame)
    (hle : frame ≤ settings.lastFrame s) : settings.frameAt s time = frame := by
  obtain ⟨hcount, hstart, hlt⟩ := hs.indexAt?_eq_some_iff.mp hshown
  have hfind :
      ((List.range (settings.lastFrame s + 1)).find? fun i => (s.end? i).any (time < ·)) =
      some frame := by
    rw [List.find?_range_eq_some]
    refine ⟨?_, List.mem_range.mpr (Nat.lt_succ_of_le hle), ?_⟩
    · simpa [hs.end?_eq hcount] using hlt
    · intro j hj
      have hended := Nat.le_trans (s.before_mono hj) hstart
      simpa [hs.end?_eq (Nat.lt_trans hj hcount)] using hended
  unfold frameAt
  rw [hfind, Option.getD_some]

/-- Inside a round the look-up gives it. -/
theorem indexAt?_of_lt_round (hs : s.Valid) {time : Nat} (hlt : time < settings.round s) :
    s.indexAt? time = some (settings.frameAt s time) := by
  cases hshown : s.indexAt? time with
  | none =>
    have hover := hs.indexAt?_eq_none_iff.mp hshown
    have hround := s.before_mono (i := settings.lastFrame s + 1) (settings.lastFrame_lt hs)
    rw [hs.total_eq] at hover
    exact absurd (Nat.lt_of_lt_of_le hlt hround) (Nat.not_lt.mpr hover)
  | some frame =>
    obtain ⟨_, hstart, _⟩ := hs.indexAt?_eq_some_iff.mp hshown
    have hframe : frame < settings.lastFrame s + 1 :=
      Script.lt_of_before_lt (Nat.lt_of_le_of_lt hstart hlt)
    rw [frameAt_of_indexAt? hs hshown (Nat.le_of_lt_succ hframe)]

/-- Once the last frame has ended, all frames up to it have. -/
theorem frameAt_of_round_le (hs : s.Valid) {time : Nat} (hle : settings.round s ≤ time) :
    settings.frameAt s time = settings.lastFrame s := by
  have hfind :
      ((List.range (settings.lastFrame s + 1)).find? fun i => (s.end? i).any (time < ·)) =
      none := by
    rw [List.find?_eq_none]
    intro i hi
    have hi' := List.mem_range.mp hi
    have hcount := Nat.lt_of_lt_of_le hi' (settings.lastFrame_lt hs)
    have hended := Nat.le_trans (s.before_mono hi') hle
    simpa [hs.end?_eq hcount] using hended
  unfold frameAt
  rw [hfind, Option.getD_none]

/-- After the end of the last frame no frame starts. -/
theorem not_boundary_of_round_lt (hs : s.Valid) {time : Nat} (hlt : settings.round s < time) :
    ¬ settings.Boundary s time := by
  intro hboundary
  rcases hboundary with rfl | ⟨i, hi, hend⟩
  · exact absurd hlt (Nat.not_lt_zero _)
  · obtain ⟨_, rfl⟩ := hs.end?_eq_some_iff.mp hend
    exact absurd (s.before_mono (Nat.succ_le_succ (Nat.le_of_lt hi))) (Nat.not_le.mpr hlt)

end Settings

namespace Stands

variable {elapsed clock clock' frame frame' tick : Nat} {ended : Bool}

theorem ended_iff (h : Stands s settings elapsed ended clock frame) :
    ended = true ↔ settings.repeats = false ∧ settings.round s ≤ elapsed := by
  cases h with
  | inside within => simp [within]
  | past passed once => simp [passed, once]
  | again _ repeats => simp [repeats]
  | stalled repeats => simp [repeats]

/-- Where playback goes on, the clock shows the time of the look-up, which
lies inside a round. -/
theorem shown (hs : s.Valid) (hmoves : ¬ settings.Stalls s)
    (h : Stands s settings elapsed false clock frame) :
    settings.clockAt s elapsed = clock ∧ clock < settings.round s ∧
      s.indexAt? clock = some frame := by
  unfold Settings.clockAt
  cases h with
  | inside within shown =>
    rw [Nat.mod_eq_of_lt within, ite_self]
    exact ⟨rfl, within, shown⟩
  | again _ repeats pos shown =>
    rw [if_pos repeats]
    exact ⟨rfl, Nat.mod_lt _ pos, shown⟩
  | stalled repeats zero =>
    exact absurd zero (Nat.ne_of_gt (Settings.round_pos hs hmoves repeats))

theorem frameAt_eq (hs : s.Valid) (hmoves : ¬ settings.Stalls s)
    (h : Stands s settings elapsed ended clock frame) :
    settings.frameAt s (settings.clockAt s elapsed) = frame := by
  cases hended : ended with
  | false =>
    rw [hended] at h
    obtain ⟨hclock, _, hshown⟩ := h.shown hs hmoves
    rw [hclock]
    exact Settings.frameAt_of_indexAt? hs hshown (h.entered hs).1
  | true =>
    obtain ⟨honce, hpassed⟩ := h.ended_iff.mp hended
    obtain ⟨_, rfl⟩ := h.eq_of_once hpassed honce
    unfold Settings.clockAt
    rw [if_neg (by simp [honce])]
    exact Settings.frameAt_of_round_le hs hpassed

/-- The next tick is a boundary exactly if the frame ends there and there is a
frame to go on with. -/
theorem boundary_iff (hs : s.Valid) (hmoves : ¬ settings.Stalls s)
    (h : Stands s settings tick false clock frame) :
    settings.Boundary s (settings.clockAt s (tick + 1)) ↔
      s.before (frame + 1) ≤ clock + 1 ∧
        (frame < settings.lastFrame s ∨ settings.repeats = true) := by
  obtain ⟨hframe, hstart, _⟩ := h.entered hs
  obtain ⟨rfl, hinside, hshown⟩ := h.shown hs hmoves
  obtain ⟨_, _, hlt⟩ := hs.indexAt?_eq_some_iff.mp hshown
  have hmono : s.before (frame + 1) ≤ settings.round s :=
    s.before_mono (Nat.succ_le_succ hframe)
  rcases Settings.clockAt_succ hs hmoves tick with ⟨hrepeats, hround, hzero⟩ | ⟨hwithin, hsucc⟩
  · -- the round is over, and the frame with it
    rw [hzero, hround]
    exact ⟨fun _ => ⟨hmono, Or.inr hrepeats⟩, fun _ => Or.inl rfl⟩
  · rw [hsucc]
    constructor
    · intro hboundary
      rcases hboundary with hzero | ⟨i, hi, hend⟩
      · exact absurd hzero (Nat.succ_ne_zero _)
      · -- a frame that ends at the next tick and not before is this one or one after it
        obtain ⟨_, hend⟩ := hs.end?_eq_some_iff.mp hend
        have hlater : frame < i + 1 := Script.lt_of_before_lt (s := s) (by omega)
        have hle := s.before_mono (i := frame + 1) (j := i + 1) hlater
        exact ⟨by omega, Or.inl (by omega)⟩
    · intro ⟨hends, hgoes⟩
      have hend : s.before (frame + 1) = settings.clockAt s tick + 1 :=
        Nat.le_antisymm hends hlt
      have hlast : frame < settings.lastFrame s := by
        rcases hgoes with hlast | hrepeats
        · exact hlast
        · have hlater : frame + 1 < settings.lastFrame s + 1 :=
            Script.lt_of_before_lt (hend ▸ hwithin hrepeats)
          exact Nat.lt_of_succ_lt_succ hlater
      have hcount := Nat.lt_trans hlast (settings.lastFrame_lt hs)
      exact Or.inr ⟨frame, hlast, hend ▸ hs.end?_eq hcount⟩

/-- At a boundary a later frame shows than before, unless the round is over. -/
theorem le_iff_roundOver (hs : s.Valid) (hmoves : ¬ settings.Stalls s)
    (h : Stands s settings tick false clock frame)
    (h' : Stands s settings (tick + 1) ended clock' frame')
    (hboundary : settings.Boundary s (settings.clockAt s (tick + 1))) :
    decide (frame' ≤ frame) = settings.roundOver s (tick + 1) := by
  obtain ⟨hends, hgoes⟩ := (h.boundary_iff hs hmoves).mp hboundary
  obtain ⟨rfl, _, hshown⟩ := h.shown hs hmoves
  obtain ⟨_, _, hlt⟩ := hs.indexAt?_eq_some_iff.mp hshown
  rw [Settings.roundOver_succ, decide_eq_decide]
  rcases Settings.clockAt_succ hs hmoves tick with ⟨hrepeats, _, hzero⟩ | ⟨_, hsucc⟩
  · -- the clock starts over, and no frame shows before the one at time zero
    have hon : ended = false := by simpa [hrepeats] using h'.ended_iff
    obtain ⟨rfl, _, hshown'⟩ := (hon ▸ h').shown hs hmoves
    obtain ⟨_, hstart, _⟩ := hs.indexAt?_eq_some_iff.mp hshown'
    have hearlier : frame' < frame + 1 := Script.lt_of_before_lt (s := s) (by omega)
    exact iff_of_true (Nat.le_of_lt_succ hearlier) hzero
  · -- the frame has ended, so that one behind it shows
    have hlater : frame < frame' := by
      cases hended : ended with
      | true =>
        obtain ⟨honce, hpassed⟩ := h'.ended_iff.mp hended
        obtain ⟨_, rfl⟩ := h'.eq_of_once hpassed honce
        simpa [honce] using hgoes
      | false =>
        obtain ⟨rfl, _, hshown'⟩ := (hended ▸ h').shown hs hmoves
        obtain ⟨_, _, hlt'⟩ := hs.indexAt?_eq_some_iff.mp hshown'
        rw [hsucc] at hlt'
        exact Nat.lt_of_succ_lt_succ (Script.lt_of_before_lt (Nat.lt_of_le_of_lt hends hlt'))
    rw [hsucc]
    exact iff_of_false (Nat.not_le.mpr hlater) (Nat.succ_ne_zero _)

end Stands

/-! ## Single ticks -/

namespace Cursor

/-- A playing cursor stands where its last tick leads. -/
theorem Plays.stands_of_playing {c : Cursor} {tick : Nat} (h : c.Plays 0 tick)
    (playing : c.head.phase = .playing) :
    ∃ clock, Stands c.script c.settings tick false clock c.head.frame ∧
      c.head.lastTick = some tick ∧ c.head.origin = some ((tick : Int) - clock) := by
  cases h with
  | waiting before => omega
  | finished _ phase => simp [playing] at phase
  | @showing clock _ _ lastTick anchored stands =>
    rw [Int.sub_zero, Int.toNat_natCast] at stands
    exact ⟨clock, stands, lastTick, anchored⟩

/-- The next tick of a playing cursor enters a frame exactly at a boundary. -/
theorem Plays.changed_iff {c : Cursor} {tick : Nat} (h : c.Plays 0 tick) (hs : c.script.Valid)
    (hmoves : ¬ c.settings.Stalls c.script) (playing : c.head.phase = .playing) :
    (c.advance (tick + 1)).changed = true ↔
      c.settings.Boundary c.script (c.settings.clockAt c.script (tick + 1)) := by
  obtain ⟨clock, stands, lastTick, anchored⟩ := h.stands_of_playing playing
  obtain ⟨hframe, _, _⟩ := stands.entered hs
  have hend := hs.end?_eq (Nat.lt_of_le_of_lt hframe (c.settings.lastFrame_lt hs))
  have helapsed : c.elapsedAt (tick + 1) = clock + 1 := by
    rw [elapsedAt, anchored, Option.getD_some]
    omega
  have hdue : c.head.origin.getD (tick + 1) ≤ ((tick + 1 : Nat) : Int) := by
    rw [anchored, Option.getD_some]
    omega
  rw [(c.advances_advance (tick + 1)).changed_iff, stands.boundary_iff hs hmoves]
  constructor
  · rintro ⟨frame, henters⟩
    obtain ⟨finish, hfinish, hreached⟩ := (henters.frameEnds playing).reached
    obtain rfl := Option.some.inj (hend.symm.trans hfinish)
    refine ⟨helapsed ▸ hreached, ?_⟩
    cases henters with
    | starts idle => simp [playing] at idle
    | next _ _ _ goes => exact Or.inl goes
    | round _ _ _ _ repeats => exact Or.inr repeats
  · rintro ⟨hreached, hgoes⟩
    have hends : c.FrameEnds (tick + 1) := by
      refine ⟨?_, _, hend, helapsed ▸ hreached⟩
      intro earlier hearlier
      rw [lastTick, Option.some.injEq] at hearlier
      omega
    rcases Nat.lt_or_eq_of_le hframe with hlast | hlast
    · exact ⟨_, .next playing hends hdue hlast⟩
    · have hrepeats : c.settings.repeats = true := by simpa [hlast] using hgoes
      exact ⟨_, .round playing hends hdue (Nat.le_of_eq hlast.symm) hrepeats⟩

end Cursor

namespace Transcript

/-- The persisting tags that are in effect once the frames up to this one have been
played, in the order of the vocabulary: of each kind its last tag on those frames. -/
def activeThrough (s : Script) (frame : Nat) : List (Tag.Kind × ActiveTag) :=
  (Tag.Kind.all.filter (·.persists)).filterMap fun kind =>
    (lastMark? (s.marks frame) kind).map fun m => (kind, ⟨m.value, m.frame⟩)

/-- The note on a frame of the script. -/
def note (s : Script) (tick frame : Nat) (rewind : Bool) : Event :=
  .shown tick frame (((s.frame? frame).map Frame.text).getD "") rewind (activeThrough s frame)

theorem activeTags_eq {c : Cursor} (hc : c.head.Follows c.script)
    (hbegun : c.head.phase ≠ .idle) :
    activeTags c = activeThrough c.script c.head.frame := by
  unfold activeTags activeThrough
  refine List.filterMap_congr ?_
  intro kind hkind
  rw [Cursor.activeOf?_eq hc hbegun (List.mem_filter.mp hkind).2, Option.map_map]
  rfl

theorem sighting_eq {c : Cursor} (hc : c.head.Follows c.script)
    (hbegun : c.head.phase ≠ .idle) (tick : Nat)
    (previous : Option Nat) :
    sighting c tick previous =
      note c.script tick c.head.frame (previous.any (c.head.frame ≤ ·)) := by
  unfold sighting note
  rw [activeTags_eq hc hbegun]

/-- The note that is due at a tick. -/
def noteAt (s : Script) (settings : Settings) (tick : Nat) : Event :=
  note s tick (settings.frameAt s (settings.clockAt s tick)) (settings.roundOver s tick)

/-- A cursor that is about to be fed a tick, and the frame noted last: it is fresh, or it
plays and the last note was on the frame that it shows. -/
inductive Awaits (s : Script) (settings : Settings) : Cursor → Option Nat → Nat → Prop where
  | first : Awaits s settings (.new s settings) none 0
  | next {c : Cursor} {tick : Nat} (script : c.script = s) (played : c.settings = settings)
      (follows : c.head.Follows s) (playing : c.head.phase = .playing)
      (plays : c.Plays 0 tick) :
      Awaits s settings c (some c.head.frame) (tick + 1)

/-- What there is to note about a tick: something at a boundary and the end at the end
of the last frame. -/
structure Notes (s : Script) (settings : Settings) (previous : Option Nat) (tick : Nat)
    (a : Advance) : Prop where
  changed : a.changed = true ↔ settings.Boundary s (settings.clockAt s tick)
  noted : a.changed = true → sighting a.cursor tick previous = noteAt s settings tick
  quiet : a.changed = false → previous = some a.cursor.head.frame
  finished : a.cursor.isFinished = true → settings.repeats = false ∧ settings.round s = tick
  onward : a.cursor.isFinished = false →
    Awaits s settings a.cursor (some a.cursor.head.frame) (tick + 1)

/-- After a tick the frame that is shown is the one noted last. -/
theorem Notes.previous_eq {a : Advance} {previous : Option Nat} {tick : Nat}
    (h : Notes s settings previous tick a) :
    (if a.changed then some a.cursor.head.frame else previous) = some a.cursor.head.frame := by
  cases hchanged : a.changed with
  | true => rfl
  | false => exact h.quiet hchanged

/-- What is noted about frames at a tick follows what was noted before. -/
theorem Notes.reverse_taken {a : Advance} {previous : Option Nat} {tick : Nat}
    (h : Notes s settings previous tick a) (taken : List Event) :
    (if a.changed then sighting a.cursor tick previous :: taken else taken).reverse =
      taken.reverse ++
        if settings.Boundary s (settings.clockAt s tick) then [noteAt s settings tick]
        else [] := by
  cases hchanged : a.changed with
  | true =>
    rw [if_pos rfl, if_pos (h.changed.mp hchanged), h.noted hchanged, List.reverse_cons]
  | false =>
    have hno : ¬ settings.Boundary s (settings.clockAt s tick) := by
      simp [← h.changed, hchanged]
    rw [if_neg Bool.false_ne_true, if_neg hno, List.append_nil]

theorem Awaits.le_round {c : Cursor} {previous : Option Nat} {tick : Nat}
    (h : Awaits s settings c previous tick) (honce : settings.repeats = false) :
    tick ≤ settings.round s := by
  cases h with
  | first => exact Nat.zero_le _
  | next script played follows playing plays =>
    subst script played
    obtain ⟨clock, stands, _⟩ := plays.stands_of_playing playing
    refine Nat.lt_of_not_le ?_
    intro hpassed
    exact Bool.false_ne_true (stands.ended_iff.mpr ⟨honce, hpassed⟩)

/-- What there is to note about a tick can be told from where it leads, if changes and
rewinds are told. -/
theorem notes_of_plays {a : Advance} {previous : Option Nat} {tick : Nat} (hs : s.Valid)
    (hmoves : ¬ settings.Stalls s) (script : a.cursor.script = s)
    (played : a.cursor.settings = settings) (follows : a.cursor.head.Follows s)
    (plays : a.cursor.Plays 0 tick)
    (hround : settings.repeats = false → tick ≤ settings.round s)
    (changed : a.changed = true ↔ settings.Boundary s (settings.clockAt s tick))
    (quiet : a.changed = false → previous = some a.cursor.head.frame)
    (rewinds : a.changed = true →
      previous.any (a.cursor.head.frame ≤ ·) = settings.roundOver s tick) :
    Notes s settings previous tick a := by
  subst script played
  obtain ⟨ended, clock, stands, hfinished, hplaying⟩ :=
    plays.exists_stands hs (Int.natCast_nonneg _)
  rw [Int.sub_zero, Int.toNat_natCast] at stands
  have hover : a.cursor.isFinished = ended := by
    cases ended with
    | false => simp [Cursor.isFinished, (hplaying rfl).1]
    | true => simp [Cursor.isFinished, hfinished rfl]
  have hbegun : a.cursor.head.phase ≠ .idle := by
    cases ended with
    | false => simp [(hplaying rfl).1]
    | true => simp [hfinished rfl]
  refine ⟨changed, ?_, quiet, ?_, ?_⟩
  · intro hchanged
    rw [sighting_eq follows hbegun, noteAt, stands.frameAt_eq hs hmoves, rewinds hchanged]
  · intro hend
    rw [hover] at hend
    obtain ⟨honce, hpassed⟩ := stands.ended_iff.mp hend
    exact ⟨honce, Nat.le_antisymm hpassed (hround honce)⟩
  · intro hon
    rw [hover] at hon
    exact .next rfl rfl follows (hplaying hon).1 plays

/-- A tick that is awaited is noted as it should be. -/
theorem Awaits.notes {c : Cursor} {previous : Option Nat} {tick : Nat} (hs : s.Valid)
    (hjump : settings.Jumpless s) (hmoves : ¬ settings.Stalls s)
    (h : Awaits s settings c previous tick) :
    Notes s settings previous tick (c.advance tick) := by
  have hround := h.le_round
  have hadvances := c.advances_advance tick
  obtain ⟨hscript, hsettings⟩ := hadvances.script_eq
  cases h with
  | first =>
    have hstart : Cursor.Started 0 (.new s settings) 0 := .new s settings
    have hchanged : ((Cursor.new s settings).advance 0).changed = true :=
      hadvances.changed_iff.mpr ⟨0, .starts rfl nofun (Int.le_refl 0)⟩
    have hzero : settings.clockAt s 0 = 0 := by simp [Settings.clockAt]
    refine notes_of_plays hs hmoves hscript hsettings ?_ (hstart.plays hs hjump) hround
      ?_ ?_ ?_
    · exact hadvances.follows hstart.follows
    · exact iff_of_true hchanged (Or.inl hzero)
    · intro hquiet
      simp [hchanged] at hquiet
    · simp [Settings.roundOver]
  | @next _ tick script played follows playing plays =>
    subst script played
    have hplays := plays.advance hs hjump (Nat.le_succ tick)
    have hchanged := plays.changed_iff hs hmoves playing
    obtain ⟨clock, stands, _⟩ := plays.stands_of_playing playing
    refine notes_of_plays hs hmoves hscript hsettings ?_ hplays hround hchanged ?_ ?_
    · exact hadvances.follows follows
    · intro hquiet
      rw [(hadvances.showsSame hquiet).frame]
    · intro henters
      obtain ⟨ended, clock', stands', _⟩ :=
        hplays.exists_stands (hscript ▸ hs) (Int.natCast_nonneg _)
      rw [Int.sub_zero, Int.toNat_natCast, hscript, hsettings] at stands'
      exact stands.le_iff_roundOver hs hmoves stands' (hchanged.mp henters)

/-! ## Whole transcripts -/

/-- The notes on frames that are due in a number of ticks. -/
def entries (s : Script) (settings : Settings) (tick ticks : Nat) : List Event :=
  ((List.range' tick ticks).filter fun t => settings.Boundary s (settings.clockAt s t)).map
    (noteAt s settings)

/-- The note on the end that is due before a tick. -/
def ending (s : Script) (settings : Settings) (tick : Nat) : List Event :=
  if settings.repeats = false ∧ settings.round s < tick then [.finished (settings.round s)]
  else []

/-- After the end there is nothing to note about frames. -/
theorem entries_of_round_lt (hs : s.Valid) (honce : settings.repeats = false) {tick : Nat}
    (hlt : settings.round s < tick) (ticks : Nat) : entries s settings tick ticks = [] := by
  unfold entries
  rw [List.map_eq_nil_iff, List.filter_eq_nil_iff]
  intro t ht
  obtain ⟨hle, _⟩ := List.mem_range'_1.mp ht
  have hclock : settings.clockAt s t = t := by simp [Settings.clockAt, honce]
  rw [hclock]
  simpa using Settings.not_boundary_of_round_lt hs (Nat.lt_of_lt_of_le hlt hle)

/-- The entries begin with the one of the first tick, if it is due. -/
theorem entries_succ (s : Script) (settings : Settings) (tick ticks : Nat) :
    entries s settings tick (ticks + 1) =
      (if settings.Boundary s (settings.clockAt s tick) then [noteAt s settings tick]
        else []) ++
        entries s settings (tick + 1) ticks := by
  unfold entries
  rw [List.range'_succ, List.filter_cons]
  by_cases hboundary : settings.Boundary s (settings.clockAt s tick)
  · rw [if_pos (decide_eq_true hboundary), if_pos hboundary, List.map_cons,
      List.singleton_append]
  · rw [if_neg (by simpa using hboundary), if_neg hboundary, List.nil_append]

/-- The notes from a tick on follow those taken before. -/
theorem Awaits.reverse_watch (hs : s.Valid) (hjump : settings.Jumpless s)
    (hmoves : ¬ settings.Stalls s) (ticks : Nat) :
    ∀ {c : Cursor} {previous : Option Nat} {tick : Nat} (taken : List Event),
      Awaits s settings c previous tick →
        (watch c previous tick taken ticks).reverse =
          taken.reverse ++
            (entries s settings tick ticks ++ ending s settings (tick + ticks)) := by
  induction ticks with
  | zero =>
    intro c previous tick taken h
    have hround := h.le_round
    have hnone : ¬ (settings.repeats = false ∧ settings.round s < tick + 0) :=
      fun hend => Nat.not_lt.mpr (hround hend.1) hend.2
    unfold ending
    rw [if_neg hnone]
    simp [watch, entries]
  | succ ticks ih =>
    intro c previous tick taken h
    have hnotes := h.notes hs hjump hmoves
    have htaken := hnotes.reverse_taken taken
    unfold watch
    generalize c.advance tick = a at hnotes htaken ⊢
    -- nothing is fed any more once playback has ended, and by then nothing more is due
    cases hover : a.cursor.isFinished with
    | true =>
      obtain ⟨honce, hround⟩ := hnotes.finished hover
      have hending : ending s settings (tick + (ticks + 1)) = [.finished tick] := by
        unfold ending
        rw [if_pos ⟨honce, by omega⟩, hround]
      simp only [hover, if_true]
      rw [List.reverse_cons, htaken, entries_succ, hending,
        entries_of_round_lt hs honce (by omega), List.append_nil, List.append_assoc]
    | false =>
      have hlater := ih (if a.changed then sighting a.cursor tick previous :: taken else taken)
        (hnotes.onward hover)
      simp only [hover, Bool.false_eq_true, if_false]
      rw [hnotes.previous_eq, hlater, htaken, entries_succ, Nat.add_right_comm, Nat.add_assoc,
        List.append_assoc, List.append_assoc]

/-- The transcript begins with a fresh cursor. -/
theorem simulate_eq (hs : s.Valid) (hjump : settings.Jumpless s)
    (hmoves : ¬ settings.Stalls s) (last : Nat) :
    simulate s settings last =
      entries s settings 0 (last + 1) ++ ending s settings (last + 1) := by
  unfold simulate
  rw [(@Awaits.first s settings).reverse_watch hs hjump hmoves (last + 1) [],
    List.reverse_nil, List.nil_append, Nat.zero_add]

/-- If no frame up to the last one carries a jump, the transcript follows from the
timeline alone. Without repetition there is one note for each tick that is zero or the end
of a frame before the last one, on the first frame that ends later or else the last one,
and then one on the end if it comes in time. With repetition, if a round takes any time,
the same ticks count in each round, on the frame of the look-up, with a rewind at the
start of each round but the first; no end is noted. Each note lists the persisting tags by
their last occurrence up to its frame. -/
theorem simulate_of_jumpless (hs : s.Reachable)
    (hjump : ∀ i ≤ settings.lastFrame s, ∀ f, s.frame? i = some f →
      ∀ tag ∈ f.tags, tag.kind ≠ .jump)
    (last : Nat) :
    ∃ round, s.end? (settings.lastFrame s) = some round ∧
      (settings.repeats = false →
        simulate s settings last =
          ((List.range (last + 1)).filter (settings.Boundary s)).map
              (fun tick => note s tick (settings.frameAt s tick) false) ++
            if round ≤ last then [.finished round] else []) ∧
      (settings.repeats = true → 0 < round →
        simulate s settings last =
            ((List.range (last + 1)).filter fun tick => settings.Boundary s (tick % round)).map
              (fun tick => note s tick (settings.frameAt s (tick % round))
                (decide (0 < tick ∧ tick % round = 0))) ∧
          ∀ tick, s.indexAt? (tick % round) = some (settings.frameAt s (tick % round))) := by
  have hvalid := hs.valid
  refine ⟨settings.round s, hvalid.end?_eq (settings.lastFrame_lt hvalid), ?_, ?_⟩
  · intro honce
    have hmoves : ¬ settings.Stalls s := by simp [Settings.Stalls, honce]
    rw [simulate_eq hvalid hjump hmoves]
    unfold entries ending noteAt Settings.clockAt Settings.roundOver
    simp only [honce, List.range_eq_range', Nat.lt_succ_iff, true_and, Bool.false_and,
      Bool.false_eq_true, if_false]
  · intro hrepeats hpos
    have hmoves : ¬ settings.Stalls s := by
      intro ⟨_, hempty⟩
      exact absurd (hvalid.end?_eq_some_iff.mp hempty).2 (Nat.ne_of_gt hpos)
    refine ⟨?_, ?_⟩
    · rw [simulate_eq hvalid hjump hmoves]
      unfold entries ending noteAt Settings.clockAt Settings.roundOver
      simp only [hrepeats, List.range_eq_range', Bool.true_and, Bool.true_eq_false,
        false_and, if_false, if_true, List.append_nil]
    · intro tick
      exact Settings.indexAt?_of_lt_round hvalid (Nat.mod_lt tick hpos)

/-- A last frame without length ends where the first one does, at tick two. It is noted
there, together with the end of playback; with repetition it never is, because the first
frame starts over. -/
theorem simulate_of_jumpless_at_merged_ends :
    Script.Reachable ⟨[⟨0, 2, [⟨.blendStart, some 9⟩]⟩, ⟨1, 0, []⟩], [2, 2]⟩ ∧
      simulate ⟨[⟨0, 2, [⟨.blendStart, some 9⟩]⟩, ⟨1, 0, []⟩], [2, 2]⟩
        ⟨.absoluteTick, false, none⟩ 5 =
        [.shown 0 0 "bs9A2" false [(.blendStart, ⟨some 9, 0⟩)],
          .shown 2 1 "B0" false [(.blendStart, ⟨some 9, 0⟩)],
          .finished 2] ∧
      simulate ⟨[⟨0, 2, [⟨.blendStart, some 9⟩]⟩, ⟨1, 0, []⟩], [2, 2]⟩
        ⟨.absoluteTick, true, none⟩ 5 =
        [.shown 0 0 "bs9A2" false [(.blendStart, ⟨some 9, 0⟩)],
          .shown 2 0 "bs9A2" true [(.blendStart, ⟨some 9, 0⟩)],
          .shown 4 0 "bs9A2" true [(.blendStart, ⟨some 9, 0⟩)]] := by
  have hs : Script.Reachable ⟨[⟨0, 2, [⟨.blendStart, some 9⟩]⟩, ⟨1, 0, []⟩], [2, 2]⟩ :=
    Script.reachable_iff_valid.mpr (by decide)
  have hjump : ∀ i ≤ 1, ∀ f,
      Script.frame? ⟨[⟨0, 2, [⟨.blendStart, some 9⟩]⟩, ⟨1, 0, []⟩], [2, 2]⟩ i = some f →
        ∀ tag ∈ f.tags, tag.kind ≠ .jump := by
    intro i _ f hf
    have hmem : f ∈ [Frame.mk 0 2 [⟨.blendStart, some 9⟩], Frame.mk 1 0 []] :=
      List.mem_of_getElem? hf
    have hnone : ∀ f ∈ [Frame.mk 0 2 [⟨.blendStart, some 9⟩], Frame.mk 1 0 []],
        ∀ tag ∈ f.tags, tag.kind ≠ .jump := by decide
    exact hnone f hmem
  obtain ⟨round, hround, honce, _⟩ :=
    @simulate_of_jumpless _ ⟨.absoluteTick, false, none⟩ hs hjump 5
  obtain ⟨round', hround', _, hrepeats⟩ :=
    @simulate_of_jumpless _ ⟨.absoluteTick, true, none⟩ hs hjump 5
  obtain rfl : 2 = round := Option.some.inj hround
  obtain rfl : 2 = round' := Option.some.inj hround'
  refine ⟨hs, ?_, ?_⟩
  · rw [honce rfl]
    decide
  · rw [(hrepeats rfl (by decide)).1]
    decide

end Transcript

end Flipbook
