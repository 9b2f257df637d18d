import Flipbook.Proofs.Player.Restored
import Flipbook.Proofs.Script.Consistent

/-!
# Where jumps are resolved

Main statement: `jumps_on_entry`. A jump is resolved when its frame is entered, by starting,
stepping or going round, and never otherwise. The first frame with a jump that a tick enters
is the last that it enters, and the tick leaves the cursor where the number of that jump says.

A log tells entries and jumps in order. What a run adds to it is quiet up to the entry of
a frame that jumps, and then comes the landing (`Outcome.Resolves`). So in the log of any
operations, one after another, the entries of frames that jump and the jumps that are
resolved stand in pairs (`Matched`). Showing a frame in any other way, by a jump, a seek
or a snapshot, adds no entry.
-/

namespace Flipbook

variable {s : Script} {settings : Settings} {p : Position} {o : Outcome}

/-! ## What a jump says -/

/-- The frame carries a jump. -/
def Frame.Jumps (f : Frame) : Prop :=
  ∃ tag ∈ f.tags, tag.kind = .jump

/-- The last jump that the frame carries has this number. -/
def Frame.JumpsBy (f : Frame) (number : Int32) : Prop :=
  ∃ earlier later, f.tags = earlier ++ ⟨.jump, some number⟩ :: later ∧
    ∀ tag ∈ later, tag.kind ≠ .jump

/-- A jump with this number on a frame leads to this tick of the animation. -/
def JumpRule.LeadsTo (rule : JumpRule) (s : Script) (index : Nat) (number : Int)
    (target : Nat) : Prop :=
  match rule with
  | .absoluteTick => (target : Int) = max 0 number
  | .frameIndex =>
    number < 0 ∧ target = 0 ∨ 0 ≤ number ∧ s.start? number.toNat = some target ∨
      (s.count : Int) ≤ number ∧ target = s.total
  | .relative => ∃ start, s.start? index = some start ∧ (target : Int) = max 0 (start + number)

/-- The number that is looked up is that of the last jump. -/
theorem Frame.jumpsBy_of_valueOf? {f : Frame} {number : Int32}
    (h : f.valueOf? .jump = some number) : f.JumpsBy number := by
  obtain ⟨tag, htag, hvalue⟩ := Option.bind_eq_some_iff.mp h
  obtain ⟨hkind, after, before, htags, hothers⟩ := List.find?_eq_some_iff_append.mp htag
  have hsame : tag = ⟨.jump, some number⟩ := by
    obtain ⟨kind, value⟩ := tag
    obtain rfl : kind = .jump := beq_iff_eq.mp hkind
    obtain rfl : value = some number := hvalue
    rfl
  rw [hsame] at htags
  refine ⟨before.reverse, after.reverse, ?_, ?_⟩
  · rw [← List.reverse_reverse f.tags, htags]
    simp
  · intro other hother
    simpa using hothers other (List.mem_reverse.mp hother)

/-- A valid frame that carries a jump has a number for it. -/
theorem Frame.Valid.isSome_jump {f : Frame} (h : f.Valid) (hjumps : f.Jumps) :
    (f.valueOf? .jump).isSome = true := by
  obtain ⟨tag, hmem, hkind⟩ := hjumps
  unfold Frame.valueOf? Frame.tagOf?
  cases hfind : f.tags.reverse.find? (·.kind == .jump) with
  | none =>
    have hnot := List.find?_eq_none.mp hfind tag (List.mem_reverse.mpr hmem)
    exact absurd (beq_iff_eq.mpr hkind) hnot
  | some found =>
    have hfound : found.kind = .jump := by simpa using List.find?_some hfind
    have hvalid := h.tags found (List.mem_reverse.mp (List.mem_of_find?_eq_some hfind))
    exact hvalid.isSome_value (by rw [hfound]; rfl)

/-- The rules are followed. -/
theorem JumpRule.leadsTo_target (hs : s.Valid) {index : Nat} (hlt : index < s.count)
    (rule : JumpRule)
    (number : Int32) : rule.LeadsTo s index number.toInt (rule.target s index number) := by
  cases rule with
  | absoluteTick =>
    show (number.toInt.toNat : Int) = max 0 number.toInt
    omega
  | frameIndex =>
    unfold LeadsTo target
    by_cases hneg : number.toInt < 0
    · exact Or.inl ⟨hneg, if_pos hneg⟩
    · simp only [if_neg hneg]
      refine Or.inr ?_
      by_cases hwithin : number.toInt.toNat < s.count
      · refine Or.inl ⟨Int.not_lt.mp hneg, ?_⟩
        rw [hs.start?_eq hwithin]
        rfl
      · refine Or.inr ⟨by omega, ?_⟩
        rw [Script.start?_eq_none (Nat.le_of_not_lt hwithin)]
        rfl
  | relative =>
    refine ⟨s.before index, hs.start?_eq hlt, ?_⟩
    simp only [target, hs.start?_eq hlt]
    omega

namespace Script

/-- A jump that is resolved is the last one of its frame, and leads where its number says. -/
theorem Valid.exists_of_jumpTarget? (hs : s.Valid) {index target : Nat}
    (h : s.jumpTarget? settings index = some target) :
    ∃ f number, s.frame? index = some f ∧ f.JumpsBy number ∧
      settings.jumpRule.LeadsTo s index number.toInt target := by
  obtain ⟨number, hnumber, rfl⟩ := Option.map_eq_some_iff.mp h
  obtain ⟨f, hf, hvalue⟩ := Option.bind_eq_some_iff.mp hnumber
  have hlt : index < s.count := (List.getElem?_eq_some_iff.mp hf).1
  exact ⟨f, number, hf, Frame.jumpsBy_of_valueOf? hvalue,
    JumpRule.leadsTo_target hs hlt _ number⟩

/-- The jump of a frame leads somewhere. -/
theorem Valid.jumpTarget?_ne_none (hs : s.Valid) {index : Nat} {f : Frame}
    (hf : s.frame? index = some f)
    (hjumps : f.Jumps) : s.jumpTarget? settings index ≠ none := by
  have hvalid := hs.frames f (List.mem_of_getElem? hf)
  obtain ⟨number, hnumber⟩ := Option.isSome_iff_exists.mp (hvalid.isSome_jump hjumps)
  unfold jumpTarget?
  rw [hf, Option.bind_some, hnumber]
  exact Option.some_ne_none _

end Script

/-! ## Runs -/

/-- It is neither a jump nor the entry of a frame that jumps. -/
def Happening.Quiet (s : Script) (settings : Settings) : Happening → Prop
  | .entered frame => s.jumpTarget? settings frame = none
  | .jumped _ => False
  | _ => True

/-- Nothing jumps, or the first frame that jumps is the last that is entered, and the
outcome is the landing of its jump. -/
inductive Outcome.Resolves (s : Script) (settings : Settings) : Outcome → Prop where
  | quiet {o : Outcome} (all : ∀ e ∈ o.log, e.Quiet s settings) : Resolves s settings o
  | jump {p : Position} {target : Nat} (before : List Happening)
      (jump : s.jumpTarget? settings p.frame = some target)
      (earlier : ∀ e ∈ before, e.Quiet s settings) :
      Resolves s settings ((p.land s target).after (before ++ [.entered p.frame]))

theorem Outcome.Resolves.after (h : o.Resolves s settings) {log : List Happening}
    (hlog : ∀ e ∈ log, e.Quiet s settings) : (o.after log).Resolves s settings := by
  cases h with
  | quiet all => exact .quiet (List.forall_mem_append.mpr ⟨hlog, all⟩)
  | @jump p target before jump earlier =>
    have hsame : ((p.land s target).after (before ++ [.entered p.frame])).after log =
        (p.land s target).after ((log ++ before) ++ [.entered p.frame]) := by
      simp only [Outcome.after, List.append_assoc]
    rw [hsame]
    exact .jump _ jump (List.forall_mem_append.mpr ⟨hlog, earlier⟩)

namespace Position

theorem Runs.resolves (h : Runs s settings p o) : o.Resolves s settings := by
  induction h with
  | stay => exact .quiet (List.forall_mem_nil _)
  | finish => exact .quiet (List.forall_mem_singleton.mpr trivial)
  | next _ jumpless _ ih => exact ih.after (List.forall_mem_singleton.mpr jumpless)
  | @nextJump p target due jump =>
    exact .jump (p := p.enter s (p.frame + 1)) [] jump (List.forall_mem_nil _)
  | wrap _ jumpless _ _ ih =>
    exact ih.after (List.forall_mem_cons.mpr ⟨trivial, List.forall_mem_singleton.mpr jumpless⟩)
  | wrapEmpty _ jumpless =>
    exact .quiet (List.forall_mem_cons.mpr ⟨trivial, List.forall_mem_singleton.mpr jumpless⟩)
  | @wrapJump p length target due jump =>
    exact .jump (p := p.rewind s length) [.wrapped] jump
      (List.forall_mem_singleton.mpr trivial)

theorem resolves_start (elapsed : Nat) (s : Script) (settings : Settings) :
    (start elapsed s settings).Resolves s settings := by
  rcases start_cases elapsed s settings with ⟨jumpless, hstart⟩ | ⟨target, jump, hstart⟩
  · rw [hstart]
    exact (runs_run ..).resolves.after (List.forall_mem_singleton.mpr jumpless)
  · rw [hstart]
    exact .jump (p := enter ⟨elapsed, 0, []⟩ s 0) [] jump (List.forall_mem_nil _)

end Position

/-! ## Logs -/

/-- In the log, the entries of frames that jump and the jumps stand in pairs, and
all else is quiet. -/
inductive Matched (s : Script) (settings : Settings) : List Happening → Prop where
  | nil : Matched s settings []
  | quiet {e : Happening} {log : List Happening} (still : e.Quiet s settings)
      (later : Matched s settings log) : Matched s settings (e :: log)
  | pair {frame target : Nat} {log : List Happening}
      (jump : s.jumpTarget? settings frame = some target) (later : Matched s settings log) :
      Matched s settings (.entered frame :: .jumped target :: log)

namespace Matched

variable {log other : List Happening}

theorem append (h : Matched s settings log) (h' : Matched s settings other) :
    Matched s settings (log ++ other) := by
  induction h with
  | nil => exact h'
  | quiet still _ ih => exact .quiet still ih
  | pair jump _ ih => exact .pair jump ih

theorem of_quiet (h : ∀ e ∈ log, e.Quiet s settings) : Matched s settings log := by
  induction log with
  | nil => exact .nil
  | cons e log ih =>
    obtain ⟨he, hlog⟩ := List.forall_mem_cons.mp h
    exact .quiet he (ih hlog)

/-- A log is cut between pairs, or in the middle of one. -/
theorem cut (h : Matched s settings log) :
    ∀ {before rest : List Happening}, log = before ++ rest →
      Matched s settings rest ∨
        ∃ earlier frame target later, before = earlier ++ [.entered frame] ∧
          rest = .jumped target :: later ∧ s.jumpTarget? settings frame = some target := by
  induction h with
  | nil =>
    intro before rest heq
    obtain ⟨rfl, rfl⟩ := List.append_eq_nil_iff.mp heq.symm
    exact Or.inl .nil
  | quiet still later ih =>
    intro before rest heq
    cases before with
    | nil =>
      cases heq
      exact Or.inl (.quiet still later)
    | cons e before =>
      rw [List.cons_append, List.cons.injEq] at heq
      rcases ih heq.2 with hrest | ⟨earlier, frame, target, later, rfl, hlanding, hjump⟩
      · exact Or.inl hrest
      · exact Or.inr ⟨e :: earlier, frame, target, later, rfl, hlanding, hjump⟩
  | pair jump later ih =>
    intro before rest heq
    match before with
    | [] =>
      cases heq
      exact Or.inl (.pair jump later)
    | [e] =>
      cases heq
      exact Or.inr ⟨[], _, _, _, rfl, rfl, jump⟩
    | e :: e' :: before =>
      rw [List.cons_append, List.cons_append, List.cons.injEq, List.cons.injEq] at heq
      rcases ih heq.2.2 with hrest | ⟨earlier, frame, target, later, rfl, hlanding, hjump⟩
      · exact Or.inl hrest
      · exact Or.inr ⟨e :: e' :: earlier, frame, target, later, rfl, hlanding, hjump⟩

/-- A jump is resolved right behind the entry of its frame. -/
theorem exists_entered {before after : List Happening} {target : Nat}
    (h : Matched s settings (before ++ .jumped target :: after)) :
    ∃ earlier frame, before = earlier ++ [.entered frame] ∧
      s.jumpTarget? settings frame = some target := by
  rcases h.cut rfl with hrest | ⟨earlier, frame, _, _, hbefore, hlanding, hjump⟩
  · -- no row of pairs begins with a jump
    cases hrest with
    | quiet still => exact absurd still id
  · cases hlanding
    exact ⟨earlier, frame, hbefore, hjump⟩

/-- Right behind the entry of a frame that jumps its jump is resolved. -/
theorem exists_jumped {before after : List Happening} {frame : Nat}
    (h : Matched s settings (before ++ .entered frame :: after))
    (hjumps : s.jumpTarget? settings frame ≠ none) :
    ∃ target later, after = .jumped target :: later := by
  rcases h.cut rfl with hrest | ⟨_, _, _, _, _, hlanding, _⟩
  · cases hrest with
    | quiet still => exact absurd still hjumps
    | pair => exact ⟨_, _, rfl⟩
  · cases hlanding

end Matched

/-- A landing is a jump, and the end of playback at most. -/
theorem Position.exists_log_land (p : Position) (s : Script) (target : Nat) :
    ∃ ending, (p.land s target).log = .jumped target :: ending ∧
      ∀ e ∈ ending, e = .finished := by
  rcases p.land_cases s target with ⟨_, _, hland⟩ | hland
  · rw [hland]
    exact ⟨[], rfl, List.forall_mem_nil _⟩
  · rw [hland]
    exact ⟨[.finished], rfl, List.forall_mem_singleton.mpr rfl⟩

theorem Outcome.Resolves.matched (h : o.Resolves s settings) : Matched s settings o.log := by
  cases h with
  | quiet all => exact .of_quiet all
  | @jump p target before jump earlier =>
    obtain ⟨ending, hlog, hending⟩ := p.exists_log_land s target
    rw [Outcome.log_after, hlog, List.append_assoc]
    refine (Matched.of_quiet earlier).append (.pair jump (.of_quiet ?_))
    intro e he
    rw [hending e he]
    trivial

/-! ## Cursors -/

namespace Cursor

/-- Nothing happens at a tick, or it is the outcome of stepping. -/
theorem Advances.resolves {c : Cursor} {tick : Nat} {a : Advance} (h : c.Advances tick a) :
    a.log = [] ∨ ∃ o, o.Resolves c.script c.settings ∧ a = c.settle tick o := by
  cases h with
  | ignored => exact Or.inl rfl
  | early => exact Or.inl rfl
  | starts => exact Or.inr ⟨_, Position.resolves_start .., rfl⟩
  | runs => exact Or.inr ⟨_, (Position.runs_run ..).resolves, rfl⟩

theorem Advances.matched {c : Cursor} {tick : Nat} {a : Advance} (h : c.Advances tick a) :
    Matched c.script c.settings a.log := by
  rcases h.resolves with hnil | ⟨o, ho, rfl⟩
  · rw [hnil]
    exact .nil
  · exact ho.matched

/-- What happens in the course of an operation. Only ticks enter frames. -/
def Operation.log (c : Cursor) : Operation → List Happening
  | .advance tick => (c.advance tick).log
  | _ => []

/-- What happens in the course of some operations, one after another. -/
def happenings (c : Cursor) : List Operation → List Happening
  | [] => []
  | op :: rest => op.log c ++ (op.apply c).happenings rest

theorem matched_happenings (ops : List Operation) :
    ∀ {c : Cursor}, c.script = s → c.settings = settings →
      Matched s settings (c.happenings ops) := by
  induction ops with
  | nil => exact fun _ _ => .nil
  | cons op rest ih =>
    intro c hscript hsettings
    have hrest :=
      ih ((op.script_apply c).trans hscript) ((op.settings_apply c).trans hsettings)
    refine Matched.append ?_ hrest
    subst hscript hsettings
    cases op with
    | advance tick => exact (c.advances_advance tick).matched
    | reset => exact .nil
    | goTo => exact .nil
    | restore => exact .nil

/-- The tick ends with the jump of the frame, which leads to the target. -/
structure EndsInJump (c : Cursor) (tick frame target : Nat) : Prop where
  changed : (c.advance tick).changed = true
  /-- The frame is the first that jumps of those that are entered, and the last of them. -/
  last : ∃ before ending,
    (c.advance tick).log = before ++ .entered frame :: .jumped target :: ending ∧
      (∀ earlier f, .entered earlier ∈ before → c.script.frame? earlier = some f → ¬ f.Jumps) ∧
      (∀ e ∈ ending, e = .finished)
  within : target < c.script.total →
    (c.advance tick).cursor.head.phase = .playing ∧
      c.script.indexAt? target = some (c.advance tick).cursor.head.frame ∧
      (c.advance tick).cursor.elapsed = target
  past : c.script.total ≤ target →
    (c.advance tick).cursor.head.phase = .finished ∧ (c.advance tick).cursor.head.frame = frame

/-- Where the landing of a jump ends a tick, the cursor is where the jump leads. -/
theorem settle_land (hs : s.Valid) (c : Cursor) (tick target : Nat) (before : List Happening) :
    (target < s.total →
      (c.settle tick ((p.land s target).after before)).cursor.head.phase = .playing ∧
        s.indexAt? target =
          some (c.settle tick ((p.land s target).after before)).cursor.head.frame ∧
        (c.settle tick ((p.land s target).after before)).cursor.elapsed = target) ∧
    (s.total ≤ target →
      (c.settle tick ((p.land s target).after before)).cursor.head.phase = .finished ∧
        (c.settle tick ((p.land s target).after before)).cursor.head.frame = p.frame) := by
  have hclock : s.total ≤ Tick.last := by
    rw [hs.total_eq]
    exact hs.before_le_last (Nat.le_refl _)
  rw [elapsed_settle]
  cases hshown : s.indexAt? target with
  | some frame =>
    have hlt : ¬ s.total ≤ target := by
      rw [← hs.indexAt?_eq_none_iff, hshown]
      exact Option.some_ne_none frame
    have hland : p.land s target =
        ⟨⟨target, frame, s.carriedThrough frame⟩, false, [.jumped target]⟩ := by
      unfold Position.land
      rw [hshown]
    rw [hland]
    refine ⟨fun _ => ⟨rfl, rfl, ?_⟩, fun hle => absurd hle hlt⟩
    show min target Tick.last = target
    omega
  | none =>
    have hle := hs.indexAt?_eq_none_iff.mp hshown
    have hland : p.land s target = ⟨p, true, [.jumped target, .finished]⟩ := by
      unfold Position.land
      rw [hshown]
    rw [hland]
    exact ⟨fun hlt => absurd hle (Nat.not_le.mpr hlt), fun _ => ⟨rfl, rfl⟩⟩

/-- A tick that enters a frame that jumps ends there, with the jump of that frame. -/
theorem endsInJump_of_entered {c : Cursor} (hs : c.script.Valid) {tick frame : Nat} {f : Frame}
    (hentered : .entered frame ∈ (c.advance tick).log) (hf : c.script.frame? frame = some f)
    (hjumps : f.Jumps) :
    ∃ number target, f.JumpsBy number ∧
      c.settings.jumpRule.LeadsTo c.script frame number.toInt target ∧
      c.EndsInJump tick frame target := by
  have hsome : c.script.jumpTarget? c.settings frame ≠ none := hs.jumpTarget?_ne_none hf hjumps
  rcases (c.advances_advance tick).resolves with hnil | ⟨o, ho, hsettle⟩
  · rw [hnil] at hentered
    cases hentered
  · rw [hsettle] at hentered
    have hlog : (c.settle tick o).log = o.log := rfl
    rw [hlog] at hentered
    cases ho with
    | quiet all => exact absurd (all _ hentered) hsome
    | @jump p target before jump earlier =>
      obtain ⟨ending, hland, hending⟩ := p.exists_log_land c.script target
      -- what comes before is quiet, and landing enters nothing
      obtain rfl : frame = p.frame := by
        rw [Outcome.log_after] at hentered
        rcases List.mem_append.mp hentered with hbefore | hin
        · rcases List.mem_append.mp hbefore with hquiet | hlast
          · exact absurd (earlier _ hquiet) hsome
          · exact Happening.entered.inj (List.mem_singleton.mp hlast)
        · exact absurd hin (Position.not_entered_land p c.script target frame)
      obtain ⟨g, number, hg, hnumber, hleads⟩ := hs.exists_of_jumpTarget? jump
      obtain rfl : f = g := Option.some.inj (hf.symm.trans hg)
      obtain ⟨hwithin, hpast⟩ :=
        settle_land hs (p := p) c tick target (before ++ [.entered p.frame])
      refine ⟨number, target, hnumber, hleads, ?_, ⟨before, ending, ?_, ?_, hending⟩, ?_, ?_⟩
      · rw [Advance.changed, hsettle]
        exact List.any_eq_true.mpr ⟨_, hentered, rfl⟩
      · rw [hsettle, hlog, Outcome.log_after, hland, List.append_assoc]
        rfl
      · intro i g hi hg' hgjumps
        exact hs.jumpTarget?_ne_none hg' hgjumps (earlier _ hi)
      · rw [hsettle]
        exact hwithin
      · rw [hsettle]
        exact hpast

/-- What a cursor does about jumps, in whatever state it is. -/
structure JumpsOnEntry (c : Cursor) : Prop where
  /-- A tick that enters a frame that jumps ends in the last jump of that frame. -/
  fires : ∀ tick frame f, .entered frame ∈ (c.advance tick).log →
    c.script.frame? frame = some f →
    f.Jumps → ∃ number target, f.JumpsBy number ∧
      c.settings.jumpRule.LeadsTo c.script frame number.toInt target ∧
        c.EndsInJump tick frame target
  /-- Whatever is done to the cursor, jumps are resolved right behind the entries of
  their frames only. -/
  only : ∀ ops before target after, c.happenings ops = before ++ .jumped target :: after →
    ∃ earlier frame f number, before = earlier ++ [.entered frame] ∧
      c.script.frame? frame = some f ∧
      f.JumpsBy number ∧ c.settings.jumpRule.LeadsTo c.script frame number.toInt target
  /-- Whatever is done to the cursor, the entry of a frame that jumps is
  followed by its jump. -/
  always : ∀ ops before frame f after, c.happenings ops = before ++ .entered frame :: after →
    c.script.frame? frame = some f → f.Jumps → ∃ target later, after = .jumped target :: later
  /-- A frame that is sought is shown from its start, whether it jumps or not. -/
  sought : ∀ frame tick start, c.script.start? frame = some start →
    (c.goTo frame tick).2.head.phase = .playing ∧ (c.goTo frame tick).2.head.frame = frame ∧
      (c.goTo frame tick).2.elapsed = start
  /-- A snapshot is put back as it is, whether its frame jumps or not. -/
  restored : ∀ n, (c.restore n).1 = .ok () → (c.restore n).2.snapshot = n

/-- A jump is resolved when a tick enters its frame, and never otherwise. The first frame
with a jump that a tick enters is the last that it enters; the tick reports a change, and
it leaves the cursor where the last jump of that frame leads, or ends playback on the
frame if that is past the end. A frame that is shown after a jump, a seek or a restored
snapshot does not jump until a tick enters it. -/
theorem jumps_on_entry {c : Cursor} (hs : c.script.Reachable) : c.JumpsOnEntry where
  fires tick frame f hentered hf hjumps := endsInJump_of_entered hs.valid hentered hf hjumps
  only ops before target after hlog := by
    have hmatched := matched_happenings ops (c := c) rfl rfl
    rw [hlog] at hmatched
    obtain ⟨earlier, frame, hbefore, hjump⟩ := hmatched.exists_entered
    obtain ⟨f, number, hf, hnumber, hleads⟩ := hs.valid.exists_of_jumpTarget? hjump
    exact ⟨earlier, frame, f, number, hbefore, hf, hnumber, hleads⟩
  always ops before frame f after hlog hf hjumps := by
    have hmatched := matched_happenings ops (c := c) rfl rfl
    rw [hlog] at hmatched
    exact hmatched.exists_jumped (hs.valid.jumpTarget?_ne_none hf hjumps)
  sought frame tick start hstart := by
    rw [c.goTo_of_start? hstart tick]
    obtain ⟨hlt, rfl⟩ := hs.valid.start?_eq_some_iff.mp hstart
    have hclock := hs.valid.before_le_last (Nat.le_of_lt hlt)
    refine ⟨rfl, rfl, ?_⟩
    show min ((tick : Int) - (tick - c.script.before frame)).toNat Tick.last =
      c.script.before frame
    omega
  restored n hok := by
    by_cases hfits : n.Fits c.script
    · exact (restore_of_fits hfits).2.2
    · obtain ⟨m, hm⟩ := (restore_of_not_fits hfits).1
      rw [hm] at hok
      cases hok

/-- Three ticks, and a frame whose second jump goes back two ticks from its start. It is
entered after five ticks, and the tick leaves the cursor at tick one of the animation. -/
theorem jumps_on_entry_backwards :
    Script.Reachable ⟨[⟨0, 3, []⟩, ⟨1, 4, [⟨.jump, some 9⟩, ⟨.jump, some (-2)⟩]⟩], [3, 7]⟩ ∧
      ((Cursor.new ⟨[⟨0, 3, []⟩, ⟨1, 4, [⟨.jump, some 9⟩, ⟨.jump, some (-2)⟩]⟩], [3, 7]⟩
        ⟨.relative, false, none⟩).advance 5).log = [.entered 0, .entered 1, .jumped 1] ∧
      (Cursor.new ⟨[⟨0, 3, []⟩, ⟨1, 4, [⟨.jump, some 9⟩, ⟨.jump, some (-2)⟩]⟩], [3, 7]⟩
        ⟨.relative, false, none⟩).EndsInJump 5 1 1 := by
  have hfirst : Frame.pushTag ⟨1, 4, []⟩ "d" (some 9) = .ok ⟨1, 4, [⟨.jump, some 9⟩]⟩ := rfl
  have hsecond : Frame.pushTag ⟨1, 4, [⟨.jump, some 9⟩]⟩ "d" (some (-2)) =
      .ok ⟨1, 4, [⟨.jump, some 9⟩, ⟨.jump, some (-2)⟩]⟩ := rfl
  have hbuilt : ∀ f ∈ [Frame.mk 0 3 [], Frame.mk 1 4 [⟨.jump, some 9⟩, ⟨.jump, some (-2)⟩]],
      f.Built :=
    List.forall_mem_cons.mpr ⟨Frame.built_of_le (by decide) 3,
      List.forall_mem_singleton.mpr
        (((Frame.built_of_le (by decide) 4).pushTag hfirst).pushTag hsecond)⟩
  have hs : Script.Reachable
      ⟨[⟨0, 3, []⟩, ⟨1, 4, [⟨.jump, some 9⟩, ⟨.jump, some (-2)⟩]⟩], [3, 7]⟩ := .made hbuilt rfl
  have hruns :
      Position.Runs ⟨[⟨0, 3, []⟩, ⟨1, 4, [⟨.jump, some 9⟩, ⟨.jump, some (-2)⟩]⟩], [3, 7]⟩
      ⟨.relative, false, none⟩ ⟨5, 0, []⟩ _ := .nextJump rfl rfl
  have hlog :
      ((Cursor.new ⟨[⟨0, 3, []⟩, ⟨1, 4, [⟨.jump, some 9⟩, ⟨.jump, some (-2)⟩]⟩], [3, 7]⟩
      ⟨.relative, false, none⟩).advance 5).log = [.entered 0, .entered 1, .jumped 1] :=
    congrArg (fun o => (o.after [.entered 0]).log) hruns.run_eq
  refine ⟨hs, hlog, ?_⟩
  obtain ⟨number, target, hnumber, ⟨start, hstart, htarget⟩, hends⟩ :=
    (jumps_on_entry (c := .new _ ⟨.relative, false, none⟩) hs).fires 5 1 _
      (by rw [hlog]; decide) rfl ⟨_, List.mem_cons_self .., rfl⟩
  obtain rfl : 3 = start := Option.some.inj hstart
  obtain rfl : number = -2 := by
    obtain ⟨earlier, later, htags, hlast⟩ := hnumber
    match earlier with
    | [] =>
      cases htags
      exact absurd rfl (hlast _ (List.mem_cons_self ..))
    | [_] =>
      cases htags
      rfl
    | _ :: _ :: [] => cases htags
    | _ :: _ :: _ :: _ => cases htags
  obtain rfl : target = 1 := Int.ofNat.inj htarget
  exact hends

end Cursor

end Flipbook
