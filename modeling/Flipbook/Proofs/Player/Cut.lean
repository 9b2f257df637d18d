import Flipbook.Proofs.Player.Lockstep

/-!
# Ending early

Main statement: `end_frame_is_cut`. To end playback after a frame is to play the script
that has been cut there (`Script.upTo`), as long as no jump leads into what is cut off.

The cut script has the frames up to the cut as they were, and their ticks (`before_upTo`); only
its end comes earlier. That matters to jumps alone. A jump that stays before the cut leads to
the same frame in both scripts, and one that leads beyond it leads past the end of both.
-/

namespace Flipbook

namespace Script

/-- The script up to a frame, this one included. -/
def upTo (s : Script) (last : Nat) : Script :=
  ⟨s.frames.take (last + 1), s.ends.take (last + 1)⟩

variable {s : Script} {last : Nat}

/-- The totals of the first frames are the first totals. -/
theorem endsFrom_take {frames : List Frame} :
    ∀ {total : Nat} {ends : List Nat}, endsFrom total frames = some ends →
      ∀ n : Nat, endsFrom total (frames.take n) = some (ends.take n) := by
  induction frames with
  | nil =>
    intro total ends h n
    cases h
    rw [List.take_nil, List.take_nil]
    rfl
  | cons f rest ih =>
    intro total ends h n
    obtain ⟨hle, later, hlater, rfl⟩ := endsFrom_cons_eq_some_iff.mp h
    cases n with
    | zero => rfl
    | succ n =>
      rw [List.take_succ_cons, List.take_succ_cons, endsFrom_cons_eq_some_iff]
      exact ⟨hle, later.take n, ih hlater n, rfl⟩

theorem Valid.upTo (h : s.Valid) (last : Nat) : (s.upTo last).Valid := by
  refine ⟨?_, endsFrom_take h.ends (last + 1), ?_⟩
  · intro hnil
    rcases List.take_eq_nil_iff.mp hnil with hzero | hnone
    · cases hzero
    · exact h.nonempty hnone
  · intro f hf
    exact h.frames f (List.mem_of_mem_take hf)

/-- The script that is cut after a frame is the one of the frames up to there. -/
theorem Valid.ofFrames_upTo (h : s.Valid) (last : Nat) :
    ofFrames (s.frames.take (last + 1)) = .ok (s.upTo last) :=
  ofFrames_eq_ok_iff.mpr ⟨(h.upTo last).nonempty, rfl, (h.upTo last).ends⟩

theorem count_upTo (hlast : last < s.count) : (s.upTo last).count = last + 1 := by
  unfold count at hlast ⊢
  exact List.length_take_of_le hlast

theorem frame?_upTo {index : Nat} (hle : index ≤ last) :
    (s.upTo last).frame? index = s.frame? index :=
  List.getElem?_take_of_lt (Nat.lt_succ_of_le hle)

theorem end?_upTo {index : Nat} (hle : index ≤ last) :
    (s.upTo last).end? index = s.end? index :=
  List.getElem?_take_of_lt (Nat.lt_succ_of_le hle)

theorem start?_upTo {index : Nat} (hle : index ≤ last) :
    (s.upTo last).start? index = s.start? index := by
  unfold start?
  rw [frame?_upTo hle, end?_upTo hle]

/-- The ticks up to the cut are as they were. -/
theorem before_upTo {index : Nat} (hle : index ≤ last + 1) :
    (s.upTo last).before index = s.before index := by
  unfold before upTo
  rw [List.take_take, Nat.min_eq_left hle]

theorem Valid.total_upTo (h : s.Valid) (hlast : last < s.count) :
    (s.upTo last).total = s.before (last + 1) := by
  rw [(h.upTo last).total_eq, count_upTo hlast, before_upTo (Nat.le_refl _)]

/-- Before the cut the same frame shows. -/
theorem Valid.indexAt?_upTo (h : s.Valid) (hlast : last < s.count) {tick : Nat}
    (hlt : tick < s.before (last + 1)) :
    ∃ frame ≤ last, s.indexAt? tick = some frame ∧
      (s.upTo last).indexAt? tick = some frame := by
  have hshown :=
    (h.upTo last).indexAt?_eq_none_iff.not.mpr (Nat.not_le.mpr (h.total_upTo hlast ▸ hlt))
  obtain ⟨frame, hframe⟩ := Option.ne_none_iff_exists'.mp hshown
  obtain ⟨hcount, hstart, hend⟩ := (h.upTo last).indexAt?_eq_some_iff.mp hframe
  rw [count_upTo hlast] at hcount
  rw [before_upTo (Nat.le_of_lt hcount)] at hstart
  rw [before_upTo hcount] at hend
  exact ⟨frame, Nat.le_of_lt_succ hcount,
    h.indexAt?_eq_some_iff.mpr ⟨by omega, hstart, hend⟩, hframe⟩

/-- Every rule leads a jump of a frame before the cut to the same tick in both scripts,
or beyond the cut. -/
theorem Valid.target_upTo (h : s.Valid) (hlast : last < s.count) (rule : JumpRule)
    {index : Nat}
    (hle : index ≤ last) (number : Int32) :
    rule.target (s.upTo last) index number = rule.target s index number ∨
      s.before (last + 1) ≤ rule.target (s.upTo last) index number ∧
        s.before (last + 1) ≤ rule.target s index number := by
  cases rule with
  | absoluteTick => exact .inl rfl
  | relative =>
    left
    have hlt : index < s.count := by omega
    have hstart := h.start?_eq hlt
    unfold JumpRule.target
    rw [start?_upTo hle, hstart]
  | frameIndex =>
    by_cases hwithin : number.toInt.toNat ≤ last
    · left
      have hlt : number.toInt.toNat < s.count := by omega
      unfold JumpRule.target
      rw [start?_upTo hwithin, h.start?_eq hlt]
      rfl
    · -- a frame that is cut off, or none at all
      right
      have hneg : ¬ number.toInt < 0 := by omega
      have hcut : (s.upTo last).start? number.toInt.toNat = none := by
        refine start?_eq_none ?_
        rw [count_upTo hlast]
        omega
      simp only [JumpRule.target, if_neg hneg]
      rw [hcut, Option.getD_none, h.total_upTo hlast]
      refine ⟨Nat.le_refl _, ?_⟩
      cases hstart : s.start? number.toInt.toNat with
      | none =>
        rw [Option.getD_none, h.total_eq]
        exact s.before_mono hlast
      | some start =>
        obtain ⟨_, rfl⟩ := h.start?_eq_some_iff.mp hstart
        exact s.before_mono (by omega)

/-- Jumps lead alike, unless one leads into what is cut off. -/
theorem Valid.leads_upTo (h : s.Valid) (hlast : last < s.count) {settings settings' : Settings}
    (hrule : settings.jumpRule = settings'.jumpRule) {index : Nat} (hle : index ≤ last)
    (houtside : ∀ target, s.jumpTarget? settings index = some target →
      ¬ (s.before (last + 1) ≤ target ∧ target < s.total)) :
    s.Leads (last + 1) (s.upTo last) (s.jumpTarget? settings index)
      ((s.upTo last).jumpTarget? settings' index) := by
  unfold jumpTarget? at houtside ⊢
  rw [frame?_upTo hle]
  cases hjump : (s.frame? index).bind (·.valueOf? .jump) with
  | none => exact .jumpless
  | some number =>
    have hout := houtside (settings.jumpRule.target s index number) (by rw [hjump]; rfl)
    have htarget := h.target_upTo hlast settings.jumpRule hle number
    rw [← hrule]
    simp only [Option.map_some]
    generalize settings.jumpRule.target s index number = target at hout htarget ⊢
    generalize settings.jumpRule.target (s.upTo last) index number = target' at htarget ⊢
    rcases Nat.lt_or_ge target (s.before (last + 1)) with hlt | hge
    · obtain ⟨frame, hframe, hshown, hshown'⟩ := h.indexAt?_upTo hlast hlt
      have hsame : target' = target := by omega
      rw [hsame]
      exact .shown (Nat.lt_succ_of_le hframe) hshown hshown'
    · -- not before the cut and not within what is cut off, so past the end
      have hpast : s.indexAt? target = none := h.indexAt?_eq_none_iff.mpr (by omega)
      have hpast' : (s.upTo last).indexAt? target' = none := by
        rw [(h.upTo last).indexAt?_eq_none_iff, h.total_upTo hlast]
        omega
      exact .past hpast hpast'

end Script

/-- Ending playback after a frame plays like the script that is cut there. -/
theorem Script.Valid.samePlay_upTo {s : Script} {last : Nat} (h : s.Valid)
    (hlast : last < s.count)
    (rule : JumpRule) (repeats : Bool)
    (houtside : ∀ index ≤ last, ∀ target,
      s.jumpTarget? ⟨rule, repeats, some last⟩ index = some target →
      ¬ (s.before (last + 1) ≤ target ∧ target < s.total)) :
    SamePlay (last + 1) s ⟨rule, repeats, some last⟩ (s.upTo last) ⟨rule, repeats, none⟩ := by
  constructor
  case starts =>
    intro i hi
    have hle := Nat.le_of_lt_succ hi
    rw [start?_upTo hle]
    exact ⟨s.before i, h.start?_eq (by omega), h.start?_eq (by omega)⟩
  case ends => exact fun i hi => (end?_upTo (Nat.le_of_lt_succ hi)).symm
  case carries =>
    intro i hi
    funext carried
    unfold carry
    rw [frame?_upTo (Nat.le_of_lt_succ hi)]
  case jumps =>
    intro i hi
    have hle := Nat.le_of_lt_succ hi
    exact h.leads_upTo hlast rfl hle (houtside i hle)
  case last =>
    show min last (s.count - 1) = (s.upTo last).count - 1
    rw [count_upTo hlast]
    omega
  case last_lt => exact Nat.lt_succ_of_le (Nat.min_le_left _ _)
  case repeats => rfl

namespace Cursor

/-- To end playback after a frame is to play the script of the frames up to it, if no jump of
these frames leads to a tick from the end of that frame to the end of the script. Ticks,
resets and seeks up to the frame are answered alike, and leave both cursors in the same state,
with the same word on whether this is the final frame and whether playback has finished. -/
theorem end_frame_is_cut {s : Script} (hs : s.Reachable) {last : Nat} (hlast : last < s.count)
    (rule : JumpRule) (repeats : Bool)
    (houtside : ∀ index ≤ last, ∀ target finish,
      s.jumpTarget? ⟨rule, repeats, some last⟩ index = some target →
        s.end? last = some finish →
        ¬ (finish ≤ target ∧ target < s.total)) :
    Script.ofFrames (s.frames.take (last + 1)) = .ok (s.upTo last) ∧
      ∀ ops : List Operation, (∀ op ∈ ops, op.Within (last + 1)) →
        List.Forall₂
          (fun a a' => a.1 = a'.1 ∧ a.2.head = a'.2.head ∧
            a.2.isFinalFrame = a'.2.isFinalFrame ∧
            a.2.isFinished = a'.2.isFinished)
          ((Cursor.new s ⟨rule, repeats, some last⟩).history ops)
          ((Cursor.new (s.upTo last) ⟨rule, repeats, none⟩).history ops) := by
  refine ⟨hs.valid.ofFrames_upTo last, ?_⟩
  intro ops hops
  have hplay := hs.valid.samePlay_upTo hlast rule repeats fun index hle target hjump =>
    houtside index hle target _ hjump (hs.valid.end?_eq hlast)
  have hstep : ∀ op ∈ ops, ∀ c c' : Cursor, InStep (last + 1) c c' →
      op.reply c = op.reply c' ∧ InStep (last + 1) (op.apply c) (op.apply c') :=
    fun op hop c c' hstep => hstep.apply (hops op hop)
  have hhistory := forall₂_history hstep (.new hplay)
  exact hhistory.imp fun a a' ⟨hreply, hsame⟩ =>
    ⟨hreply, hsame.head, hsame.isFinalFrame_eq, hsame.isFinished_eq⟩

/-- The second frame jumps past the end of the script, so that the third one does not count. -/
theorem end_frame_is_cut_before_jump :
    Script.Reachable ⟨[⟨0, 3, []⟩, ⟨1, 4, [⟨.jump, some 12⟩]⟩, ⟨2, 5, []⟩], [3, 7, 12]⟩ ∧
      List.Forall₂
        (fun a a' => a.1 = a'.1 ∧ a.2.head = a'.2.head ∧ a.2.isFinalFrame = a'.2.isFinalFrame ∧
          a.2.isFinished = a'.2.isFinished)
        ((Cursor.new ⟨[⟨0, 3, []⟩, ⟨1, 4, [⟨.jump, some 12⟩]⟩, ⟨2, 5, []⟩], [3, 7, 12]⟩
          ⟨.absoluteTick, true, some 1⟩).history
            [.advance 2, .advance 5, .goTo 1 6, .advance 20])
        ((Cursor.new ⟨[⟨0, 3, []⟩, ⟨1, 4, [⟨.jump, some 12⟩]⟩], [3, 7]⟩
          ⟨.absoluteTick, true, none⟩).history
            [.advance 2, .advance 5, .goTo 1 6, .advance 20]) := by
  have hpush : Frame.pushTag ⟨1, 4, []⟩ "d" (some 12) = .ok ⟨1, 4, [⟨.jump, some 12⟩]⟩ := rfl
  have hbuilt : ∀ f ∈ [Frame.mk 0 3 [], Frame.mk 1 4 [⟨.jump, some 12⟩], Frame.mk 2 5 []],
      f.Built :=
    List.forall_mem_cons.mpr ⟨Frame.built_of_le (by decide) 3,
      List.forall_mem_cons.mpr ⟨(Frame.built_of_le (by decide) 4).pushTag hpush,
        List.forall_mem_singleton.mpr (Frame.built_of_le (by decide) 5)⟩⟩
  have hreach : Script.Reachable
      ⟨[⟨0, 3, []⟩, ⟨1, 4, [⟨.jump, some 12⟩]⟩, ⟨2, 5, []⟩], [3, 7, 12]⟩ := .made hbuilt rfl
  refine ⟨hreach, (end_frame_is_cut hreach (by decide) .absoluteTick true ?_).2 _ ?_⟩
  · intro index hle target finish hjump hend
    obtain rfl : 7 = finish := Option.some.inj hend
    cases index with
    | zero => cases hjump
    | succ index =>
      obtain rfl : index = 0 := by omega
      obtain rfl : 12 = target := Option.some.inj hjump
      decide
  · intro op hop
    simp at hop
    rcases hop with rfl | rfl | rfl | rfl
    · trivial
    · trivial
    · exact Nat.lt_succ_self 1
    · trivial

end Cursor

end Flipbook
