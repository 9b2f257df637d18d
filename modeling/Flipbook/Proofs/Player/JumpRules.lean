import Flipbook.Proofs.Player.Lockstep

/-!
# Jumps by frame, by tick and by offset

Main statement: `jump_rules_interchange`. What the number of a jump means is a matter of
spelling. A script whose jumps name frames can be rewritten so that they name ticks
(`Script.byTick`), or ticks from the start of the frame that jumps (`Script.byOffset`),
and plays under the other rule as it did.

Rewriting changes nothing but the numbers of jumps (`Script.mapJumps`). So all that has to
be shown is that each new number leads under its rule where the old one led, and for this
the clock must be able to tell the ticks of the script as signed numbers.
-/

namespace Flipbook

/-! ## Rewriting jumps -/

/-- The tag with another number, if it is a jump. -/
def Tag.mapJump (tag : Tag) (change : Int32 → Int32) : Tag :=
  if tag.kind = .jump then { tag with value := tag.value.map change } else tag

/-- The frame with other numbers for its jumps. -/
def Frame.mapJumps (f : Frame) (change : Int32 → Int32) : Frame :=
  { f with tags := f.tags.map (·.mapJump change) }

namespace Script

/-- The script with other numbers for its jumps, which may depend on the frame. -/
def mapJumps (s : Script) (change : Nat → Int32 → Int32) : Script :=
  { s with frames := s.frames.mapIdx fun i f => f.mapJumps (change i) }

/-- The tick at which a frame starts; zero before the first frame and the end of the
script past the last one. -/
def tickOf (s : Script) (frame : Int) : Nat :=
  if frame < 0 then 0 else (s.start? frame.toNat).getD s.total

/-- The script whose jumps name ticks where those of `s` name frames. -/
def byTick (s : Script) : Script :=
  s.mapJumps fun _ frame => Int32.ofInt (s.tickOf frame.toInt)

/-- The script whose jumps count ticks from the start of their own frame where those of
`s` name frames. -/
def byOffset (s : Script) : Script :=
  s.mapJumps fun k frame => Int32.ofInt (s.tickOf frame.toInt - (s.start? k).getD 0)

end Script

theorem Tag.kind_mapJump (tag : Tag) (change : Int32 → Int32) :
    (tag.mapJump change).kind = tag.kind := by
  unfold mapJump
  split <;> rfl

theorem Tag.mapJump_of_jump {tag : Tag} (h : tag.kind = .jump) (change : Int32 → Int32) :
    (tag.mapJump change).value = tag.value.map change := by
  unfold mapJump
  rw [if_pos h]

theorem Tag.mapJump_of_ne {tag : Tag} (h : tag.kind ≠ .jump) (change : Int32 → Int32) :
    tag.mapJump change = tag :=
  if_neg h

/-- A jump may have any number. -/
theorem Tag.Valid.mapJump {tag : Tag} (h : tag.Valid) (change : Int32 → Int32) :
    (tag.mapJump change).Valid := by
  by_cases hjump : tag.kind = .jump
  · rw [Tag.valid_iff] at h ⊢
    rw [Tag.kind_mapJump, Tag.mapJump_of_jump hjump, hjump]
    cases hv : tag.value with
    | none =>
      simp only [hv, hjump] at h
      exact h
    | some v => exact ⟨by decide, fun haxis => by cases haxis⟩
  · rw [Tag.mapJump_of_ne hjump]
    exact h

namespace Frame

/-- The frame's jump has the new number. -/
theorem valueOf?_mapJumps (f : Frame) (change : Int32 → Int32) :
    (f.mapJumps change).valueOf? .jump = (f.valueOf? .jump).map change := by
  have hkind : ((·.kind == .jump) ∘ fun tag : Tag => tag.mapJump change) =
      (·.kind == .jump) := by
    funext tag
    simp only [Function.comp_apply, Tag.kind_mapJump]
  unfold valueOf? tagOf? mapJumps
  rw [← List.map_reverse, List.find?_map, hkind]
  cases hfind : f.tags.reverse.find? (·.kind == .jump) with
  | none => rfl
  | some tag =>
    have hjump : tag.kind = .jump := by simpa using List.find?_some hfind
    exact Tag.mapJump_of_jump hjump change

/-- Jumps are not carried. -/
theorem carry_mapJumps (f : Frame) (change : Int32 → Int32) :
    (f.mapJumps change).carry = f.carry := by
  have hpersists : ((·.kind.persists) ∘ fun tag : Tag => tag.mapJump change) =
      (·.kind.persists) := by
    funext tag
    simp only [Function.comp_apply, Tag.kind_mapJump]
  have hsame : (f.tags.map (·.mapJump change)).filter (·.kind.persists) =
      f.tags.filter (·.kind.persists) := by
    have hother : ∀ tag ∈ f.tags.filter (·.kind.persists), tag.mapJump change = tag := by
      intro tag hmem
      refine Tag.mapJump_of_ne ?_ change
      intro hjump
      have hkept := (List.mem_filter.mp hmem).2
      rw [hjump] at hkept
      cases hkept
    rw [List.filter_map, hpersists, List.map_congr_left hother, List.map_id']
  funext index carried
  unfold carry mapJumps
  simp only [hsame]

end Frame

namespace Script

variable {s : Script} {change : Nat → Int32 → Int32}

theorem count_mapJumps (s : Script) (change : Nat → Int32 → Int32) :
    (s.mapJumps change).count = s.count :=
  List.length_mapIdx

theorem frame?_mapJumps (s : Script) (change : Nat → Int32 → Int32) (index : Nat) :
    (s.mapJumps change).frame? index = (s.frame? index).map (·.mapJumps (change index)) :=
  List.getElem?_mapIdx

theorem start?_mapJumps (s : Script) (change : Nat → Int32 → Int32) (index : Nat) :
    (s.mapJumps change).start? index = s.start? index := by
  have hend : (s.mapJumps change).end? index = s.end? index := rfl
  unfold start?
  rw [frame?_mapJumps, hend]
  cases s.end? index with
  | none => rfl
  | some finish => cases s.frame? index <;> rfl

theorem carry_mapJumps (s : Script) (change : Nat → Int32 → Int32) (index : Nat) :
    (s.mapJumps change).carry index = s.carry index := by
  funext carried
  unfold carry
  rw [frame?_mapJumps]
  cases s.frame? index with
  | none => rfl
  | some f =>
    simp only [Option.map_some, Frame.carry_mapJumps]

theorem Valid.mapJumps (h : s.Valid) (change : Nat → Int32 → Int32) :
    (s.mapJumps change).Valid := by
  have hlengths : (s.mapJumps change).frames.map (·.length) = s.frames.map (·.length) := by
    refine List.ext_getElem? fun i => ?_
    have hframe : (s.mapJumps change).frames[i]? = _ := frame?_mapJumps s change i
    rw [List.getElem?_map, List.getElem?_map, hframe, Option.map_map]
    rfl
  refine ⟨?_, ?_, ?_⟩
  · intro hnil
    exact h.nonempty (List.mapIdx_eq_nil_iff.mp hnil)
  · rw [endsFrom_congr hlengths, h.ends]
    rfl
  · intro f hf
    obtain ⟨i, hi, rfl⟩ := List.mem_mapIdx.mp hf
    have hframe := h.frames _ (List.getElem_mem hi)
    refine ⟨hframe.sprite, ?_⟩
    intro tag htag
    obtain ⟨old, hold, rfl⟩ := List.mem_map.mp htag
    exact (hframe.tags old hold).mapJump _

/-- If every new number leads where the old one led, the jumps do. -/
theorem jumpTarget?_mapJumps {settings settings' : Settings} {index : Nat}
    (hsame : ∀ number,
      settings'.jumpRule.target (s.mapJumps change) index (change index number) =
      settings.jumpRule.target s index number) :
    (s.mapJumps change).jumpTarget? settings' index = s.jumpTarget? settings index := by
  unfold jumpTarget?
  rw [frame?_mapJumps]
  cases s.frame? index with
  | none => rfl
  | some f =>
    rw [Option.map_some, Option.bind_some, Option.bind_some, Frame.valueOf?_mapJumps,
      Option.map_map]
    refine Option.map_congr fun number _ => hsame number

/-! ## The new numbers -/

/-- The ticks of frames lie within the script. -/
theorem Valid.tickOf_le (h : s.Valid) (frame : Int) : s.tickOf frame ≤ s.total := by
  unfold tickOf
  split
  next => exact Nat.zero_le _
  next =>
    cases hstart : s.start? frame.toNat with
    | none => exact Nat.le_refl _
    | some start =>
      obtain ⟨hlt, rfl⟩ := h.start?_eq_some_iff.mp hstart
      rw [h.total_eq]
      exact s.before_mono (Nat.le_of_lt hlt)

theorem toInt_ofInt {n : Int} (hlow : -2147483647 ≤ n) (hhigh : n ≤ 2147483647) :
    (Int32.ofInt n).toInt = n :=
  Int32.toInt_ofInt_of_le (by omega) (by omega)

theorem target_byTick (hs : s.Valid) (htotal : s.total ≤ 2147483647) (index : Nat)
    (number : Int32) :
    JumpRule.absoluteTick.target s.byTick index (Int32.ofInt (s.tickOf number.toInt)) =
      s.tickOf number.toInt := by
  have hle := hs.tickOf_le number.toInt
  show (Int32.ofInt (s.tickOf number.toInt)).toInt.toNat = _
  rw [toInt_ofInt (by omega) (by omega), Int.toNat_natCast]

theorem target_byOffset (hs : s.Valid) (htotal : s.total ≤ 2147483647) {index : Nat}
    (hlt : index < s.count) (number : Int32) :
    JumpRule.relative.target s.byOffset index
        (Int32.ofInt (s.tickOf number.toInt - (s.start? index).getD 0)) =
      s.tickOf number.toInt := by
  have hle := hs.tickOf_le number.toInt
  have hbefore : s.before index ≤ s.total := by
    rw [hs.total_eq]
    exact s.before_mono (Nat.le_of_lt hlt)
  have hstart : s.byOffset.start? index = some (s.before index) := by
    rw [byOffset, start?_mapJumps, hs.start?_eq hlt]
  unfold JumpRule.target
  rw [hstart, hs.start?_eq hlt, Option.getD_some]
  simp only
  rw [toInt_ofInt (by omega) (by omega)]
  omega

/-! ## Playing under other rules -/

/-- A rewritten script plays under its rule as the script did whose jumps name frames. -/
theorem samePlay_mapJumps (hs : s.Valid) {rule : JumpRule}
    (hsame : ∀ index < s.count, ∀ number,
      rule.target (s.mapJumps change) index (change index number) = s.tickOf number.toInt)
    (repeats : Bool) (endFrame : Option Nat) :
    SamePlay s.count s ⟨.frameIndex, repeats, endFrame⟩ (s.mapJumps change)
      ⟨rule, repeats, endFrame⟩ := by
  have hleads : ∀ target : Option Nat, s.Leads s.count (s.mapJumps change) target target := by
    intro target
    cases target with
    | none => exact .jumpless
    | some target =>
      cases hshown : s.indexAt? target with
      | none => exact .past hshown hshown
      | some frame => exact .shown (hs.indexAt?_eq_some_iff.mp hshown).1 hshown hshown
  constructor
  case starts =>
    intro i hlt
    rw [start?_mapJumps]
    exact ⟨s.before i, hs.start?_eq hlt, hs.start?_eq hlt⟩
  case ends => exact fun i _ => rfl
  case carries => exact fun i _ => (s.carry_mapJumps change i).symm
  case jumps =>
    intro i hlt
    have hjump : (s.mapJumps change).jumpTarget? ⟨rule, repeats, endFrame⟩ i =
        s.jumpTarget? ⟨.frameIndex, repeats, endFrame⟩ i := jumpTarget?_mapJumps (hsame i hlt)
    rw [hjump]
    exact hleads _
  case last =>
    unfold Settings.lastFrame
    rw [count_mapJumps]
  case last_lt => exact Settings.lastFrame_lt _ hs
  case repeats => rfl

end Script

/-! ## Cursors -/

namespace Cursor

variable {c c' : Cursor} {s : Script}

/-- A seek beyond scripts of as many frames is refused alike. -/
theorem InStep.goTo_beyond {bound frame : Nat} (h : InStep bound c c')
    (hcount : c.script.count = c'.script.count) (hle : c.script.count ≤ frame) (tick : Nat) :
    (c.goTo frame tick).1 = (c'.goTo frame tick).1 ∧
      InStep bound (c.goTo frame tick).2 (c'.goTo frame tick).2 := by
  have hstart' : c'.script.start? frame = none := Script.start?_eq_none (hcount ▸ hle)
  unfold Cursor.goTo
  rw [Script.start?_eq_none hle, hstart', hcount]
  exact ⟨rfl, h⟩

/-- A snapshot fits scripts of as many frames alike. -/
theorem InStep.restore (h : InStep s.count c c') (hc : c.script.count = s.count)
    (hc' : c'.script.count = s.count) (n : Snapshot) :
    (c.restore n).1 = (c'.restore n).1 ∧ InStep s.count (c.restore n).2 (c'.restore n).2 := by
  unfold Cursor.restore
  rw [hc, hc']
  cases hcheck : n.check s.count with
  | error m => exact ⟨rfl, h⟩
  | ok head =>
    obtain ⟨hfits, hsame⟩ := Snapshot.check_eq_ok_iff.mp hcheck
    have hlt := hfits.frame
    rw [hsame] at hlt
    exact ⟨rfl, h.play, rfl, hlt⟩

/-- Whatever is done to cursors in step over scripts of as many frames, they stay in step. -/
theorem InStep.apply_of_count (h : InStep s.count c c') (hc : c.script.count = s.count)
    (hc' : c'.script.count = s.count) (op : Operation) :
    op.reply c = op.reply c' ∧ InStep s.count (op.apply c) (op.apply c') := by
  by_cases hop : op.Within s.count
  · exact h.apply hop
  · cases op with
    | advance => exact absurd trivial hop
    | reset => exact absurd trivial hop
    | goTo frame tick =>
      have hle : s.count ≤ frame := Nat.le_of_not_lt hop
      obtain ⟨hsought, hnext⟩ := h.goTo_beyond (hc.trans hc'.symm) (hc ▸ hle) tick
      exact ⟨congrArg Reply.sought hsought, hnext⟩
    | restore n =>
      obtain ⟨hrestored, hnext⟩ := h.restore hc hc' n
      exact ⟨congrArg Reply.restored hrestored, hnext⟩

/-- Fresh cursors over scripts that play alike and have as many frames answer everything
alike, with the same state after it. -/
theorem forall₂_history_of_samePlay {s s' : Script} {settings settings' : Settings}
    (h : SamePlay s.count s settings s' settings') (hcount : s'.count = s.count)
    (ops : List Operation) :
    List.Forall₂ (fun a a' => a.1 = a'.1 ∧ a.2.head = a'.2.head)
      ((Cursor.new s settings).history ops) ((Cursor.new s' settings').history ops) := by
  have hstep : ∀ op ∈ ops, ∀ c c' : Cursor,
      c.script.count = s.count ∧ c'.script.count = s.count ∧ InStep s.count c c' →
      op.reply c = op.reply c' ∧ (op.apply c).script.count = s.count ∧
        (op.apply c').script.count = s.count ∧ InStep s.count (op.apply c) (op.apply c') := by
    intro op _ c c' ⟨hc, hc', hstep⟩
    obtain ⟨hreply, hnext⟩ := hstep.apply_of_count hc hc' op
    rw [op.script_apply, op.script_apply]
    exact ⟨hreply, hc, hc', hnext⟩
  have hhistory := forall₂_history hstep ⟨rfl, hcount, .new h⟩
  exact hhistory.imp fun a a' ⟨hreply, _, _, hsame⟩ => ⟨hreply, hsame.head⟩

/-- A script whose jumps name frames can be rewritten so that its jumps name ticks, or
ticks from the start of their frame, if the clock can tell its ticks as signed numbers.
Under the other rule each rewritten script gives the same answers to anything that is done
to a cursor, and leaves it in the same state. -/
theorem jump_rules_interchange (hs : s.Reachable)
    (htotal : (s.total : Int) ≤ Int32.maxValue.toInt)
    (repeats : Bool) (endFrame : Option Nat) :
    s.byTick.Reachable ∧ s.byOffset.Reachable ∧
      ∀ ops : List Operation,
        List.Forall₂ (fun a a' => a.1 = a'.1 ∧ a.2.head = a'.2.head)
          ((Cursor.new s ⟨.frameIndex, repeats, endFrame⟩).history ops)
          ((Cursor.new s.byTick ⟨.absoluteTick, repeats, endFrame⟩).history ops) ∧
        List.Forall₂ (fun a a' => a.1 = a'.1 ∧ a.2.head = a'.2.head)
          ((Cursor.new s ⟨.frameIndex, repeats, endFrame⟩).history ops)
          ((Cursor.new s.byOffset ⟨.relative, repeats, endFrame⟩).history ops) := by
  have hticks : s.total ≤ 2147483647 := by
    rw [Int32.toInt_maxValue] at htotal
    omega
  refine ⟨Script.reachable_iff_valid.mpr (hs.valid.mapJumps _),
    Script.reachable_iff_valid.mpr (hs.valid.mapJumps _), ?_⟩
  intro ops
  constructor
  · refine forall₂_history_of_samePlay ?_ (s.count_mapJumps _) ops
    refine Script.samePlay_mapJumps hs.valid ?_ repeats endFrame
    intro index _ number
    exact Script.target_byTick hs.valid hticks index number
  · refine forall₂_history_of_samePlay ?_ (s.count_mapJumps _) ops
    refine Script.samePlay_mapJumps hs.valid ?_ repeats endFrame
    intro index hlt number
    exact Script.target_byOffset hs.valid hticks hlt number

/-- Two frames and a third one that goes back to the second: to frame one, to tick three,
or four ticks back from its own start. -/
theorem jump_rules_interchange_back :
    Script.Reachable ⟨[⟨0, 3, []⟩, ⟨1, 4, []⟩, ⟨2, 2, [⟨.jump, some 1⟩]⟩], [3, 7, 9]⟩ ∧
      Script.byTick ⟨[⟨0, 3, []⟩, ⟨1, 4, []⟩, ⟨2, 2, [⟨.jump, some 1⟩]⟩], [3, 7, 9]⟩ =
        ⟨[⟨0, 3, []⟩, ⟨1, 4, []⟩, ⟨2, 2, [⟨.jump, some 3⟩]⟩], [3, 7, 9]⟩ ∧
      Script.byOffset ⟨[⟨0, 3, []⟩, ⟨1, 4, []⟩, ⟨2, 2, [⟨.jump, some 1⟩]⟩], [3, 7, 9]⟩ =
        ⟨[⟨0, 3, []⟩, ⟨1, 4, []⟩, ⟨2, 2, [⟨.jump, some (-4)⟩]⟩], [3, 7, 9]⟩ ∧
      List.Forall₂ (fun a a' => a.1 = a'.1 ∧ a.2.head = a'.2.head)
        ((Cursor.new ⟨[⟨0, 3, []⟩, ⟨1, 4, []⟩, ⟨2, 2, [⟨.jump, some 1⟩]⟩], [3, 7, 9]⟩
          ⟨.frameIndex, true, none⟩).history [.advance 8, .goTo 0 9, .reset, .advance 30])
        ((Cursor.new ⟨[⟨0, 3, []⟩, ⟨1, 4, []⟩, ⟨2, 2, [⟨.jump, some (-4)⟩]⟩], [3, 7, 9]⟩
          ⟨.relative, true, none⟩).history [.advance 8, .goTo 0 9, .reset, .advance 30]) := by
  have hpush : Frame.pushTag ⟨2, 2, []⟩ "d" (some 1) = .ok ⟨2, 2, [⟨.jump, some 1⟩]⟩ := rfl
  have hbuilt : ∀ f ∈ [Frame.mk 0 3 [], Frame.mk 1 4 [], Frame.mk 2 2 [⟨.jump, some 1⟩]],
      f.Built :=
    List.forall_mem_cons.mpr ⟨Frame.built_of_le (by decide) 3,
      List.forall_mem_cons.mpr ⟨Frame.built_of_le (by decide) 4,
        List.forall_mem_singleton.mpr ((Frame.built_of_le (by decide) 2).pushTag hpush)⟩⟩
  have hreach :
      Script.Reachable ⟨[⟨0, 3, []⟩, ⟨1, 4, []⟩, ⟨2, 2, [⟨.jump, some 1⟩]⟩], [3, 7, 9]⟩ :=
    .made hbuilt rfl
  have hoffset :
      Script.byOffset ⟨[⟨0, 3, []⟩, ⟨1, 4, []⟩, ⟨2, 2, [⟨.jump, some 1⟩]⟩], [3, 7, 9]⟩ =
      ⟨[⟨0, 3, []⟩, ⟨1, 4, []⟩, ⟨2, 2, [⟨.jump, some (-4)⟩]⟩], [3, 7, 9]⟩ := by decide
  refine ⟨hreach, by decide, hoffset, ?_⟩
  rw [← hoffset]
  exact ((jump_rules_interchange hreach (by decide) true none).2.2 _).2

end Cursor

end Flipbook
