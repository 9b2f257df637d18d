import Flipbook.Player.Stepping

/-!
# Runs

`Position.run` steps until nothing more is due. `Runs` is the same as a relation between a
position and an outcome, with one constructor for each way in which a step can go on;
`runs_run` and `Runs.run_eq` say that a run is among them and is the only one. A fact
about every run is then an induction over `Runs` with the cases named for what happened.

The first such fact: a jump is the end of a run (`Runs.jumpsLast`).
-/

namespace Flipbook

variable {s : Script} {settings : Settings} {p : Position} {o : Outcome}

@[simp]
theorem Outcome.position_after (o : Outcome) (log : List Happening) :
    (o.after log).position = o.position :=
  rfl

@[simp]
theorem Outcome.ended_after (o : Outcome) (log : List Happening) :
    (o.after log).ended = o.ended :=
  rfl

@[simp]
theorem Outcome.log_after (o : Outcome) (log : List Happening) :
    (o.after log).log = log ++ o.log :=
  rfl

/-! ## What is due -/

namespace Position

/-- A frame is kept while the time lies before its end. -/
theorem move_eq_stay_iff :
    p.move s settings = .stay ↔
      ∃ finish, s.end? p.frame = some finish ∧ p.elapsed < finish := by
  unfold move
  refine ⟨?_, ?_⟩
  · intro h
    split at h
    next => cases h
    next finish hend =>
      by_cases hlt : p.elapsed < finish
      · exact ⟨finish, hend, hlt⟩
      · rw [if_neg hlt] at h
        split at h
        next => cases h
        next => split at h <;> cases h
  · intro h
    obtain ⟨finish, hend, hlt⟩ := h
    rw [hend]
    exact if_pos hlt

/-- The next frame is due after the end of a frame before the last one. -/
theorem move_eq_next_iff :
    p.move s settings = .next ↔
      ∃ finish, s.end? p.frame = some finish ∧ finish ≤ p.elapsed ∧
        p.frame < settings.lastFrame s := by
  unfold move
  refine ⟨?_, ?_⟩
  · intro h
    split at h
    next => cases h
    next finish hend =>
      split at h
      next => cases h
      next hle =>
        split at h
        next hlast => exact ⟨finish, hend, Nat.le_of_not_lt hle, hlast⟩
        next => split at h <;> cases h
  · intro h
    obtain ⟨finish, hend, hle, hlast⟩ := h
    rw [hend]
    simp only
    rw [if_neg (Nat.not_lt.mpr hle), if_pos hlast]

/-- A repeating player starts over after the end of a frame that is not before the last one. -/
theorem move_eq_wrap_iff {length : Nat} :
    p.move s settings = .wrap length ↔
      s.end? p.frame = some length ∧ length ≤ p.elapsed ∧ settings.lastFrame s ≤ p.frame ∧
        settings.repeats = true := by
  unfold move
  refine ⟨?_, ?_⟩
  · intro h
    split at h
    next => cases h
    next finish hend =>
      split at h
      next => cases h
      next hle =>
        split at h
        next => cases h
        next hlast =>
          split at h
          next hrepeats =>
            cases h
            exact ⟨hend, Nat.le_of_not_lt hle, Nat.le_of_not_lt hlast, hrepeats⟩
          next => cases h
  · intro h
    obtain ⟨hend, hle, hlast, hrepeats⟩ := h
    rw [hend]
    simp only
    rw [if_neg (Nat.not_lt.mpr hle), if_neg (Nat.not_lt.mpr hlast), if_pos hrepeats]

/-- A player that does not repeat ends there instead, and every player ends on a frame
that is missing. -/
theorem of_move_eq_finish (h : p.move s settings = .finish) :
    s.end? p.frame = none ∨
      settings.repeats = false ∧ settings.lastFrame s ≤ p.frame ∧
        ∃ finish, s.end? p.frame = some finish ∧ finish ≤ p.elapsed := by
  unfold move at h
  split at h
  next hnone => exact Or.inl hnone
  next finish hend =>
    split at h
    next => cases h
    next hle =>
      split at h
      next => cases h
      next hlast =>
        split at h
        next => cases h
        next hrepeats =>
          exact Or.inr ⟨Bool.eq_false_iff.mpr hrepeats, Nat.le_of_not_lt hlast, finish, hend,
            Nat.le_of_not_lt hle⟩

/-! ## Runs as a relation -/

/-- The outcomes to which stepping on from a position leads. -/
inductive Runs (s : Script) (settings : Settings) : Position → Outcome → Prop where
  | stay {p : Position} (due : p.move s settings = .stay) : Runs s settings p ⟨p, false, []⟩
  | finish {p : Position} (due : p.move s settings = .finish) :
      Runs s settings p ⟨p, true, [.finished]⟩
  | next {p : Position} {o : Outcome} (due : p.move s settings = .next)
      (jumpless : s.jumpTarget? settings (p.frame + 1) = none)
      (later : Runs s settings (p.enter s (p.frame + 1)) o) :
      Runs s settings p (o.after [.entered (p.frame + 1)])
  | nextJump {p : Position} {target : Nat} (due : p.move s settings = .next)
      (jump : s.jumpTarget? settings (p.frame + 1) = some target) :
      Runs s settings p
        (((p.enter s (p.frame + 1)).land s target).after [.entered (p.frame + 1)])
  | wrap {p : Position} {o : Outcome} {length : Nat} (due : p.move s settings = .wrap length)
      (jumpless : s.jumpTarget? settings 0 = none) (pos : length ≠ 0)
      (later : Runs s settings (p.rewind s length) o) :
      Runs s settings p (o.after [.wrapped, .entered 0])
  | wrapEmpty {p : Position} (due : p.move s settings = .wrap 0)
      (jumpless : s.jumpTarget? settings 0 = none) :
      Runs s settings p (Outcome.after [.wrapped, .entered 0] ⟨p.rewind s 0, false, []⟩)
  | wrapJump {p : Position} {length target : Nat} (due : p.move s settings = .wrap length)
      (jump : s.jumpTarget? settings 0 = some target) :
      Runs s settings p (((p.rewind s length).land s target).after [.wrapped, .entered 0])

theorem runs_run (s : Script) (settings : Settings) (p : Position) :
    Runs s settings p (p.run s settings) := by
  fun_induction Position.run p s settings with
  | case1 p due => exact .stay due
  | case2 p due => exact .finish due
  | case3 p due entered ih =>
    cases hjump : s.jumpTarget? settings (p.frame + 1) with
    | none => exact .next due hjump ih
    | some target => exact .nextJump due hjump
  | case4 p length due entered ih =>
    cases hjump : s.jumpTarget? settings 0 with
    | none =>
      -- after a round of length zero stepping stops
      by_cases hzero : length = 0
      · subst hzero
        exact .wrapEmpty due hjump
      · simp only
        rw [if_neg hzero]
        exact .wrap due hjump hzero (ih hzero)
    | some target => exact .wrapJump due hjump

/-- Stepping on from a position leads to one outcome only. -/
theorem Runs.run_eq (h : Runs s settings p o) : p.run s settings = o := by
  induction h with
  | stay | finish | next | nextJump | wrap | wrapEmpty | wrapJump =>
    unfold run
    split <;> simp_all

/-! ## Landing and starting -/

/-- A jump leads into the frame that shows at its target, or ends playback where it was. -/
theorem land_cases (p : Position) (s : Script) (target : Nat) :
    (∃ frame, s.indexAt? target = some frame ∧
        p.land s target = ⟨⟨target, frame, s.carriedThrough frame⟩, false, [.jumped target]⟩) ∨
      p.land s target = ⟨p, true, [.jumped target, .finished]⟩ := by
  unfold land
  cases hshown : s.indexAt? target with
  | some frame => exact Or.inl ⟨frame, rfl, rfl⟩
  | none => exact Or.inr rfl

/-- Playback starts by entering the first frame, and then steps on or jumps. -/
theorem start_cases (elapsed : Nat) (s : Script) (settings : Settings) :
    (s.jumpTarget? settings 0 = none ∧
        start elapsed s settings =
          ((enter ⟨elapsed, 0, []⟩ s 0).run s settings).after [.entered 0]) ∨
      ∃ target, s.jumpTarget? settings 0 = some target ∧
        start elapsed s settings =
          ((enter ⟨elapsed, 0, []⟩ s 0).land s target).after [.entered 0] := by
  unfold start
  cases hjump : s.jumpTarget? settings 0 with
  | none => exact Or.inl ⟨rfl, rfl⟩
  | some target => exact Or.inr ⟨target, rfl, rfl⟩

end Position

/-! ## A jump ends a run -/

/-- A jump was resolved. -/
def Happening.isJump : Happening → Bool
  | .jumped _ => true
  | _ => false

/-- What happened, with at most one jump, and nothing after it but the end of playback. -/
inductive JumpsLast : List Happening → Prop where
  | nil : JumpsLast []
  | landed (target : Nat) : JumpsLast [.jumped target]
  | past (target : Nat) : JumpsLast [.jumped target, .finished]
  | cons {first : Happening} {log : List Happening} (other : first.isJump = false)
      (later : JumpsLast log) : JumpsLast (first :: log)

theorem JumpsLast.countP_le_one {log : List Happening} (h : JumpsLast log) :
    log.countP Happening.isJump ≤ 1 := by
  induction h with
  | nil => exact Nat.zero_le 1
  | landed target => exact Nat.le_refl 1
  | past target => exact Nat.le_refl 1
  | cons other _ ih =>
    rw [List.countP_cons_of_neg (by rw [other]; exact Bool.false_ne_true)]
    exact ih

/-- Nothing comes after the jump but the end of playback. -/
theorem JumpsLast.after_jump {log : List Happening} (h : JumpsLast log) :
    ∀ {before after : List Happening} {target : Nat}, log = before ++ .jumped target :: after →
      after = [] ∨ after = [.finished] := by
  induction h with
  | nil =>
    intro before after target heq
    cases before <;> cases heq
  | landed =>
    intro before after target heq
    cases before with
    | nil =>
      cases heq
      exact Or.inl rfl
    | cons e before => cases before <;> cases heq
  | past =>
    intro before after target heq
    cases before with
    | nil =>
      cases heq
      exact Or.inr rfl
    | cons e before =>
      cases before with
      | nil => cases heq
      | cons e' before => cases before <;> cases heq
  | cons other _ ih =>
    intro before after target heq
    cases before with
    | nil =>
      cases heq
      cases other
    | cons e before =>
      rw [List.cons_append, List.cons.injEq] at heq
      exact ih heq.2

theorem Position.jumpsLast_land (p : Position) (s : Script) (target : Nat) :
    JumpsLast (p.land s target).log := by
  unfold Position.land
  split
  next => exact .landed target
  next => exact .past target

/-- A jump is the last thing of a run, unless it ends playback. -/
theorem Position.Runs.jumpsLast (h : Position.Runs s settings p o) : JumpsLast o.log := by
  induction h with
  | stay => exact .nil
  | finish => exact .cons rfl .nil
  | next _ _ _ ih => exact .cons rfl ih
  | nextJump => exact .cons rfl (Position.jumpsLast_land ..)
  | wrap _ _ _ _ ih => exact .cons rfl (.cons rfl ih)
  | wrapEmpty => exact .cons rfl (.cons rfl .nil)
  | wrapJump => exact .cons rfl (.cons rfl (Position.jumpsLast_land ..))

theorem Position.jumpsLast_start (elapsed : Nat) (s : Script) (settings : Settings) :
    JumpsLast (Position.start elapsed s settings).log := by
  unfold Position.start
  refine .cons rfl ?_
  cases s.jumpTarget? settings 0 with
  | none => exact (Position.runs_run ..).jumpsLast
  | some target => exact Position.jumpsLast_land ..

end Flipbook
