import Flipbook.Proofs.Player.Restored

/-!
# Cursors in step

Two cursors are in step if whatever is done to both of them is answered alike and leaves
them in the same state. `history` lists the answers and the states, and
`forall₂_history_map` is the induction: it is enough that one operation keeps a relation
and is answered alike.

What keeps cursors over different scripts in step is `SamePlay`. It looks at the frames
before a bound only, the ones that can show: they begin and end alike, carry alike, and
their jumps lead to the same place or past the end. Stepping goes from move to move, so
the same moves are due and the same frames entered (`Runs.samePlay`); ticks, resets and
seeks follow (`InStep.apply`).
-/

namespace Flipbook

/-! ## What is seen of a cursor -/

namespace Cursor

/-- What an operation on a cursor answers. -/
inductive Reply where
  /-- A frame was entered at the tick, or none was. -/
  | changed (entered : Bool)
  | done
  | sought (result : Except Refusal Unit)
  | restored (result : Except Mismatch Unit)

/-- The answer to an operation. -/
def Operation.reply (c : Cursor) : Operation → Reply
  | .advance tick => .changed (c.advance tick).changed
  | .reset => .done
  | .goTo frame tick => .sought (c.goTo frame tick).1
  | .restore snapshot => .restored (c.restore snapshot).1

/-- The answers to operations that are done one after another, each with the
cursor after it. -/
def history (c : Cursor) : List Operation → List (Reply × Cursor)
  | [] => []
  | op :: rest => (op.reply c, op.apply c) :: (op.apply c).history rest

/-- What a pair of operations keeps, with the same answer, is kept throughout such pairs. -/
theorem forall₂_history_map {ι : Type} {R : Cursor → Cursor → Prop} {f g : ι → Operation}
    {l : List ι}
    (step : ∀ i ∈ l, ∀ c c', R c c' →
      (f i).reply c = (g i).reply c' ∧ R ((f i).apply c) ((g i).apply c')) :
    ∀ {c c' : Cursor}, R c c' →
      List.Forall₂ (fun a a' => a.1 = a'.1 ∧ R a.2 a'.2) (c.history (l.map f))
        (c'.history (l.map g)) := by
  induction l with
  | nil => exact fun _ => .nil
  | cons i rest ih =>
    intro c c' h
    obtain ⟨hreply, hnext⟩ := step i (List.mem_cons_self ..) c c' h
    exact .cons ⟨hreply, hnext⟩ (ih (fun j hj => step j (List.mem_cons_of_mem _ hj)) hnext)

/-- What one operation keeps, with the same answer, is kept throughout. -/
theorem forall₂_history {R : Cursor → Cursor → Prop} {ops : List Operation}
    (step : ∀ op ∈ ops, ∀ c c', R c c' →
      op.reply c = op.reply c' ∧ R (op.apply c) (op.apply c'))
    {c c' : Cursor} (h : R c c') :
    List.Forall₂ (fun a a' => a.1 = a'.1 ∧ R a.2 a'.2) (c.history ops) (c'.history ops) := by
  have hmap := forall₂_history_map (f := id) (g := id) step h
  rwa [List.map_id] at hmap

end Cursor

/-! ## Scripts that play alike -/

/-- A frame was entered. -/
def Happening.isEntry : Happening → Bool
  | .entered _ => true
  | _ => false

/-- The same position, reached with or without entering a frame. Jumps may have been
resolved differently. -/
structure Outcome.Alike (o o' : Outcome) : Prop where
  position : o.position = o'.position
  ended : o.ended = o'.ended
  entered : o.log.any Happening.isEntry = o'.log.any Happening.isEntry

/-- Two jumps lead to one frame before the bound, or both past the end; or there are none. -/
inductive Script.Leads (bound : Nat) (s s' : Script) : Option Nat → Option Nat → Prop where
  | jumpless : Leads bound s s' none none
  | shown {target frame : Nat} (within : frame < bound) (one : s.indexAt? target = some frame)
      (other : s'.indexAt? target = some frame) : Leads bound s s' (some target) (some target)
  | past {target target' : Nat} (one : s.indexAt? target = none)
      (other : s'.indexAt? target' = none) : Leads bound s s' (some target) (some target')

/-- As far as the frames before `bound` are concerned, and no others are shown, two
scripts under their settings play alike. -/
structure SamePlay (bound : Nat) (s : Script) (settings : Settings) (s' : Script)
    (settings' : Settings) : Prop where
  starts : ∀ i < bound, ∃ start, s.start? i = some start ∧ s'.start? i = some start
  ends : ∀ i < bound, s.end? i = s'.end? i
  carries : ∀ i < bound, s.carry i = s'.carry i
  jumps : ∀ i < bound, s.Leads bound s' (s.jumpTarget? settings i) (s'.jumpTarget? settings' i)
  last : settings.lastFrame s = settings'.lastFrame s'
  last_lt : settings.lastFrame s < bound
  repeats : settings.repeats = settings'.repeats

theorem Outcome.Alike.refl (o : Outcome) : o.Alike o :=
  ⟨rfl, rfl, rfl⟩

theorem Outcome.Alike.after {o o' : Outcome} (h : o.Alike o') (log : List Happening) :
    (o.after log).Alike (o'.after log) := by
  refine ⟨h.position, h.ended, ?_⟩
  rw [Outcome.log_after, Outcome.log_after, List.any_append, List.any_append, h.entered]

variable {bound : Nat} {s s' : Script} {settings settings' : Settings} {p : Position}
    {o : Outcome}

namespace SamePlay

theorem bound_pos (h : SamePlay bound s settings s' settings') : 0 < bound :=
  Nat.lt_of_le_of_lt (Nat.zero_le _) h.last_lt

theorem carriedThrough_eq (h : SamePlay bound s settings s' settings') {index : Nat}
    (hlt : index < bound) : s.carriedThrough index = s'.carriedThrough index := by
  induction index with
  | zero => rw [Script.carriedThrough_zero, Script.carriedThrough_zero, h.carries 0 hlt]
  | succ index ih =>
    rw [Script.carriedThrough_succ, Script.carriedThrough_succ, h.carries _ hlt,
      ih (Nat.lt_of_succ_lt hlt)]

theorem move_eq (h : SamePlay bound s settings s' settings') (hp : p.frame < bound) :
    p.move s settings = p.move s' settings' := by
  unfold Position.move
  rw [h.ends _ hp, h.last, h.repeats]

theorem enter_eq (h : SamePlay bound s settings s' settings') {frame : Nat}
    (hlt : frame < bound)
    (p : Position) : p.enter s frame = p.enter s' frame := by
  unfold Position.enter
  rw [h.carries _ hlt]

theorem rewind_eq (h : SamePlay bound s settings s' settings') (p : Position) (length : Nat) :
    p.rewind s length = p.rewind s' length :=
  h.enter_eq h.bound_pos _

theorem jumpless (h : SamePlay bound s settings s' settings') {index : Nat}
    (hlt : index < bound)
    (hnone : s.jumpTarget? settings index = none) : s'.jumpTarget? settings' index = none := by
  have hleads := h.jumps index hlt
  rw [hnone] at hleads
  generalize s'.jumpTarget? settings' index = other at hleads
  cases hleads with
  | jumpless => rfl

/-- A jump of one script has its match in the other one, and both lead alike. -/
theorem land (h : SamePlay bound s settings s' settings') {index target : Nat}
    (hlt : index < bound)
    (hjump : s.jumpTarget? settings index = some target) (hp : p.frame < bound) :
    ∃ target', s'.jumpTarget? settings' index = some target' ∧
      (p.land s target).Alike (p.land s' target') ∧
        (p.land s target).position.frame < bound := by
  have hleads := h.jumps index hlt
  rw [hjump] at hleads
  generalize s'.jumpTarget? settings' index = other at hleads
  cases hleads with
  | @shown _ frame within one other =>
    refine ⟨target, rfl, ?_⟩
    unfold Position.land
    rw [one, other]
    simp only [h.carriedThrough_eq within]
    exact ⟨.refl _, within⟩
  | @past _ target' one other =>
    refine ⟨target', rfl, ?_⟩
    unfold Position.land
    rw [one, other]
    exact ⟨⟨rfl, rfl, rfl⟩, hp⟩

end SamePlay

/-- Stepping leads to the same place under both scripts. -/
theorem Position.Runs.samePlay (h : SamePlay bound s settings s' settings')
    (hruns : Runs s settings p o) (hp : p.frame < bound) :
    ∃ o', Runs s' settings' p o' ∧ o.Alike o' ∧ o.position.frame < bound := by
  have hnext : ∀ {p : Position}, p.move s settings = .next → p.frame + 1 < bound := by
    intro p due
    exact Nat.lt_of_le_of_lt (frame_lt_of_move_eq_next due) h.last_lt
  -- along the run: what is due under one script is due under the other, and
  -- enters the same frame
  induction hruns with
  | stay due =>
    rw [h.move_eq hp] at due
    exact ⟨_, .stay due, .refl _, hp⟩
  | finish due =>
    rw [h.move_eq hp] at due
    exact ⟨_, .finish due, .refl _, hp⟩
  | next due jumpless _ ih =>
    have hlt := hnext due
    obtain ⟨o', hruns', halike, hframe⟩ := ih hlt
    rw [h.enter_eq hlt] at hruns'
    rw [h.move_eq hp] at due
    exact ⟨_, .next due (h.jumpless hlt jumpless) hruns', halike.after _, hframe⟩
  | @nextJump p target due jump =>
    have hlt := hnext due
    obtain ⟨target', jump', halike, hframe⟩ :=
      h.land (p := p.enter s (p.frame + 1)) hlt jump hlt
    rw [h.move_eq hp] at due
    rw [h.enter_eq hlt] at halike hframe ⊢
    exact ⟨_, .nextJump due jump', halike.after _, hframe⟩
  | wrap due jumpless pos _ ih =>
    obtain ⟨o', hruns', halike, hframe⟩ := ih h.bound_pos
    rw [h.rewind_eq] at hruns'
    rw [h.move_eq hp] at due
    exact ⟨_, .wrap due (h.jumpless h.bound_pos jumpless) pos hruns', halike.after _, hframe⟩
  | wrapEmpty due jumpless =>
    rw [h.move_eq hp] at due
    rw [h.rewind_eq]
    exact ⟨_, .wrapEmpty due (h.jumpless h.bound_pos jumpless), .refl _, h.bound_pos⟩
  | @wrapJump p length target due jump =>
    obtain ⟨target', jump', halike, hframe⟩ :=
      h.land (p := p.rewind s length) h.bound_pos jump h.bound_pos
    rw [h.move_eq hp] at due
    rw [h.rewind_eq] at halike hframe ⊢
    exact ⟨_, .wrapJump due jump', halike.after _, hframe⟩

theorem SamePlay.run (h : SamePlay bound s settings s' settings') (hp : p.frame < bound) :
    (p.run s settings).Alike (p.run s' settings') ∧
      (p.run s settings).position.frame < bound := by
  obtain ⟨o', hruns', halike⟩ := (Position.runs_run s settings p).samePlay h hp
  rw [hruns'.run_eq]
  exact halike

theorem SamePlay.start (h : SamePlay bound s settings s' settings') (elapsed : Nat) :
    (Position.start elapsed s settings).Alike (Position.start elapsed s' settings') ∧
      (Position.start elapsed s settings).position.frame < bound := by
  have hfirst := h.enter_eq h.bound_pos ⟨elapsed, 0, []⟩
  unfold Position.start
  cases hjump : s.jumpTarget? settings 0 with
  | none =>
    rw [h.jumpless h.bound_pos hjump]
    obtain ⟨halike, hframe⟩ := h.run (p := Position.enter ⟨elapsed, 0, []⟩ s 0) h.bound_pos
    simp only [← hfirst]
    exact ⟨halike.after _, hframe⟩
  | some target =>
    obtain ⟨target', hjump', halike, hframe⟩ :=
      h.land (p := Position.enter ⟨elapsed, 0, []⟩ s 0) h.bound_pos hjump h.bound_pos
    rw [hjump']
    simp only [← hfirst]
    exact ⟨halike.after _, hframe⟩

/-! ## Cursors -/

namespace Cursor

/-- The cursors' scripts play alike before the bound, where both show the same frame
in the same state. -/
structure InStep (bound : Nat) (c c' : Cursor) : Prop where
  play : SamePlay bound c.script c.settings c'.script c'.settings
  head : c.head = c'.head
  frame_lt : c.head.frame < bound

theorem InStep.new (h : SamePlay bound s settings s' settings') :
    InStep bound (.new s settings) (.new s' settings') :=
  ⟨h, rfl, h.bound_pos⟩

variable {c c' : Cursor}

theorem InStep.reset (h : InStep bound c c') : InStep bound c.reset c'.reset :=
  ⟨h.play, rfl, h.play.bound_pos⟩

theorem InStep.settle (h : InStep bound c c') {o o' : Outcome} (halike : o.Alike o')
    (hframe : o.position.frame < bound) (tick : Nat) :
    (c.settle tick o).changed = (c'.settle tick o').changed ∧
      InStep bound (c.settle tick o).cursor (c'.settle tick o').cursor := by
  refine ⟨halike.entered, h.play, ?_, hframe⟩
  simp only [Cursor.settle, halike.position, halike.ended]

/-- A tick keeps cursors in step. -/
theorem InStep.advance (h : InStep bound c c') (tick : Nat) :
    (c.advance tick).changed = (c'.advance tick).changed ∧
      InStep bound (c.advance tick).cursor (c'.advance tick).cursor := by
  unfold Cursor.advance
  rw [← h.head]
  split
  next => exact ⟨rfl, h⟩
  next =>
    simp only
    split
    next => exact ⟨rfl, h.play, rfl, h.frame_lt⟩
    next =>
      split
      next =>
        obtain ⟨halike, hframe⟩ := h.play.start ((tick : Int) - c.head.origin.getD tick).toNat
        exact h.settle halike hframe tick
      next =>
        obtain ⟨halike, hframe⟩ := h.play.run
          (p := ⟨((tick : Int) - c.head.origin.getD tick).toNat, c.head.frame, c.head.carried⟩)
          h.frame_lt
        exact h.settle halike hframe tick

/-- A seek before the bound keeps cursors in step. -/
theorem InStep.goTo (h : InStep bound c c') {frame : Nat} (hlt : frame < bound) (tick : Nat) :
    (c.goTo frame tick).1 = (c'.goTo frame tick).1 ∧
      InStep bound (c.goTo frame tick).2 (c'.goTo frame tick).2 := by
  obtain ⟨start, hstart, hstart'⟩ := h.play.starts frame hlt
  unfold Cursor.goTo
  rw [hstart, hstart']
  refine ⟨rfl, h.play, ?_, hlt⟩
  simp only [h.play.carriedThrough_eq hlt]

/-- The operation is a tick, a reset or a seek to a frame before the bound. -/
def Operation.Within (bound : Nat) : Operation → Prop
  | .advance _ => True
  | .reset => True
  | .goTo frame _ => frame < bound
  | .restore _ => False

/-- Cursors in step stay in step and answer alike. -/
theorem InStep.apply (h : InStep bound c c') {op : Operation} (hop : op.Within bound) :
    op.reply c = op.reply c' ∧ InStep bound (op.apply c) (op.apply c') := by
  cases op with
  | advance tick =>
    obtain ⟨hchanged, hnext⟩ := h.advance tick
    exact ⟨congrArg Reply.changed hchanged, hnext⟩
  | reset => exact ⟨rfl, h.reset⟩
  | goTo frame tick =>
    obtain ⟨hsought, hnext⟩ := h.goTo hop tick
    exact ⟨congrArg Reply.sought hsought, hnext⟩
  | restore => exact hop.elim

theorem InStep.isFinalFrame_eq (h : InStep bound c c') : c.isFinalFrame = c'.isFinalFrame := by
  unfold isFinalFrame
  rw [h.head, h.play.last]

theorem InStep.isFinished_eq (h : InStep bound c c') : c.isFinished = c'.isFinished := by
  unfold isFinished
  rw [h.head]

end Cursor

end Flipbook
