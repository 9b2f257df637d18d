import Mathlib.Data.List.Induction
import Mathlib.Data.List.Nodup
import Flipbook.Proofs.Player.Reached

/-!
# What is carried

Main statement: `carried_of_reached`. What a reached cursor carries depends on the
frame that it shows and on nothing else: not on the ticks, jumps, rounds, seeks and
snapshots that led there.

There are two parts. The records that are made by playing frames in order are the last
mark of each kind, in the order in which the kinds first occur (`records_foldl`): a record
that is replaced keeps its place. And whatever moves a cursor leaves the records of the
frame that is then shown, as if it had been reached by playing from the start;
`Playhead.Follows` is this invariant, with a lemma for stepping (`Runs.carried`) and one
for ticks (`Advances.follows`).
-/

namespace Flipbook

/-! ## Records -/

/-- The last of the marks of a kind. -/
def lastMark? (marks : List Carried) (kind : Tag.Kind) : Option Carried :=
  marks.reverse.find? (·.kind == kind)

/-- The last mark of each kind, in the order in which the kinds first occur. -/
def lastMarks (marks : List Carried) : List Carried :=
  (marks.map (·.kind)).eraseDups.filterMap (lastMark? marks)

theorem lastMark?_append (marks later : List Carried) (kind : Tag.Kind) :
    lastMark? (marks ++ later) kind = (lastMark? later kind).or (lastMark? marks kind) := by
  unfold lastMark?
  rw [List.reverse_append, List.find?_append]

namespace Carried

/-- A record has the kinds that there were, and its own at the end if it is new. -/
theorem map_kind_record (m : Carried) (carried : List Carried) :
    (m.record carried).map (·.kind) =
      if m.kind ∈ carried.map (·.kind) then carried.map (·.kind)
      else carried.map (·.kind) ++ [m.kind] := by
  induction carried with
  | nil => rfl
  | cons c rest ih =>
    unfold record
    by_cases h : c.kind = m.kind
    · rw [if_pos h, List.map_cons, List.map_cons, h, if_pos (List.mem_cons_self ..)]
    · have hmem : m.kind ∈ (c :: rest).map (·.kind) ↔ m.kind ∈ rest.map (·.kind) := by
        rw [List.map_cons, List.mem_cons]
        exact or_iff_right fun heq => h heq.symm
      rw [if_neg h, List.map_cons, ih]
      simp only [hmem]
      split <;> rfl

/-- The record of a kind is the one that was made last. -/
theorem find?_record (m : Carried) (carried : List Carried) (kind : Tag.Kind) :
    (m.record carried).find? (·.kind == kind) =
      if m.kind = kind then some m else carried.find? (·.kind == kind) := by
  induction carried with
  | nil =>
    unfold record
    rw [List.find?_singleton, List.find?_nil]
    simp only [beq_iff_eq]
  | cons c rest ih =>
    unfold record
    by_cases h : c.kind = m.kind
    · rw [if_pos h, List.find?_cons, List.find?_cons, h]
      by_cases hk : m.kind = kind
      · rw [if_pos hk, beq_iff_eq.mpr hk]
      · rw [if_neg hk, beq_false_of_ne hk]
    · rw [if_neg h, List.find?_cons, List.find?_cons, ih]
      by_cases hk : c.kind = kind
      · have hne : m.kind ≠ kind := fun heq => h (hk.trans heq.symm)
        rw [beq_iff_eq.mpr hk, if_neg hne, if_neg hne]
      · rw [beq_false_of_ne hk]

theorem mem_map_kind_iff (carried : List Carried) (kind : Tag.Kind) :
    kind ∈ carried.map (·.kind) ↔ (carried.find? (·.kind == kind)).isSome = true := by
  rw [List.find?_isSome, List.mem_map]
  simp only [beq_iff_eq]

/-- Records of different kinds are found by their kinds. -/
theorem filterMap_find? {carried : List Carried} (h : (carried.map (·.kind)).Nodup) :
    (carried.map (·.kind)).filterMap (fun kind => carried.find? (·.kind == kind)) =
      carried := by
  induction carried with
  | nil => rfl
  | cons c rest ih =>
    rw [List.map_cons, List.nodup_cons] at h
    obtain ⟨hnot, hnodup⟩ := h
    -- the first record is not found by the kinds of the others
    have hrest : ∀ kind ∈ rest.map (·.kind),
        (c :: rest).find? (·.kind == kind) = rest.find? (·.kind == kind) := by
      intro kind hmem
      rw [List.find?_cons, beq_false_of_ne]
      intro heq
      rw [heq] at hnot
      exact hnot hmem
    rw [List.map_cons, List.filterMap_cons_some (b := c) (by simp),
      List.filterMap_congr hrest, ih hnodup]

end Carried

/-- A kind that occurs once more is new at the end or already there. -/
theorem eraseDups_append_singleton (kinds : List Tag.Kind) (kind : Tag.Kind) :
    (kinds ++ [kind]).eraseDups =
      if kind ∈ kinds then kinds.eraseDups else kinds.eraseDups ++ [kind] := by
  rw [List.eraseDups_append]
  by_cases h : kind ∈ kinds
  · rw [if_pos h]
    simp [List.removeAll, h]
  · rw [if_neg h]
    simp [List.removeAll, h, List.eraseDups_cons]

/-- The records are the last mark of each kind: their kinds are those of the marks, each
once, in the order in which they first occur, and the record of a kind is its last mark. -/
structure Records (marks carried : List Carried) : Prop where
  kinds : carried.map (·.kind) = (marks.map (·.kind)).eraseDups
  nodup : (carried.map (·.kind)).Nodup
  find : ∀ kind, carried.find? (·.kind == kind) = lastMark? marks kind

theorem Records.mem_iff {marks carried : List Carried} (h : Records marks carried)
    (kind : Tag.Kind) : kind ∈ carried.map (·.kind) ↔ kind ∈ marks.map (·.kind) := by
  rw [Carried.mem_map_kind_iff, h.find, lastMark?, ← Carried.mem_map_kind_iff,
    List.map_reverse, List.mem_reverse]

/-- One more mark is recorded. -/
theorem Records.record {marks carried : List Carried} (h : Records marks carried)
    (m : Carried) : Records (marks ++ [m]) (m.record carried) := by
  -- a kind that is there keeps its place, and a new one goes to the end
  have hkinds : (m.record carried).map (·.kind) = ((marks ++ [m]).map (·.kind)).eraseDups := by
    rw [List.map_append, List.map_singleton, eraseDups_append_singleton,
      Carried.map_kind_record, h.kinds]
    by_cases hmem : m.kind ∈ marks.map (·.kind)
    · rw [if_pos hmem, if_pos (h.kinds ▸ (h.mem_iff m.kind).mpr hmem)]
    · rw [if_neg hmem, if_neg fun hin => hmem ((h.mem_iff m.kind).mp (h.kinds ▸ hin))]
  refine ⟨hkinds, ?_, ?_⟩
  · rw [Carried.map_kind_record]
    split
    next => exact h.nodup
    next hmem =>
      rw [← List.concat_eq_append]
      exact h.nodup.concat hmem
  · intro kind
    have hone : lastMark? [m] kind = if m.kind = kind then some m else none := by
      rw [lastMark?, List.reverse_singleton, List.find?_singleton]
      simp only [beq_iff_eq]
    rw [Carried.find?_record, lastMark?_append, h.find, hone]
    by_cases hk : m.kind = kind
    · rw [if_pos hk, if_pos hk, Option.some_or]
    · rw [if_neg hk, if_neg hk, Option.none_or]

/-- Marks that are recorded one after another give the last mark of each kind. -/
theorem records_foldl (marks : List Carried) :
    Records marks (marks.foldl (fun carried m => m.record carried) []) := by
  induction marks using List.reverseRecOn with
  | nil => exact ⟨rfl, List.nodup_nil, fun kind => rfl⟩
  | append_singleton marks m ih =>
    rw [List.foldl_append]
    exact ih.record m

/-- The last mark of each kind says what the records are. -/
theorem Records.eq_lastMarks {marks carried : List Carried} (h : Records marks carried) :
    carried = lastMarks marks := by
  unfold lastMarks
  rw [← h.kinds, ← funext h.find]
  exact (Carried.filterMap_find? h.nodup).symm

/-! ## Playing frames in order -/

/-- The marks of a frame: its persisting tags, as records. -/
def Frame.marks (f : Frame) (index : Nat) : List Carried :=
  (f.tags.filter (·.kind.persists)).map fun tag => ⟨tag.kind, tag.value, index⟩

/-- The marks of the frames up to this one, in the order in which they are played. -/
def Script.marks (s : Script) (index : Nat) : List Carried :=
  (s.frames.take (index + 1)).zipIdx.flatMap fun (f, i) => f.marks i

theorem Frame.carry_eq_foldl (f : Frame) (index : Nat) (carried : List Carried) :
    f.carry index carried =
      (f.marks index).foldl (fun carried m => m.record carried) carried := by
  unfold Frame.carry Frame.marks
  rw [List.foldl_map]

/-- The last mark of a persisting kind on a frame is its last tag of the kind. -/
theorem Frame.lastMark?_marks (f : Frame) (index : Nat) {kind : Tag.Kind}
    (h : kind.persists = true) :
    lastMark? (f.marks index) kind =
      (f.tagOf? kind).map fun tag => ⟨tag.kind, tag.value, index⟩ := by
  have hsame : ∀ tag : Tag, decide (tag.kind.persists = true ∧ (tag.kind == kind) = true) =
      (tag.kind == kind) := by
    intro tag
    by_cases hk : tag.kind = kind
    · rw [hk, h, beq_self_eq_true, decide_eq_true ⟨rfl, rfl⟩]
    · rw [beq_false_of_ne hk, decide_eq_false fun hand => Bool.false_ne_true hand.2]
  unfold lastMark? Frame.marks Frame.tagOf?
  rw [← List.map_reverse, List.find?_map, ← List.filter_reverse, List.find?_filter]
  simp only [Function.comp_def, hsame]

namespace Script

/-- The frames up to this one are those before it and, if the script has it, itself. -/
theorem zipIdx_take_succ (s : Script) (index : Nat) :
    (s.frames.take (index + 1)).zipIdx =
      (s.frames.take index).zipIdx ++ (s.frame? index).toList.map fun f => (f, index) := by
  rw [List.take_add_one, List.zipIdx_append, frame?]
  cases hf : s.frames[index]? with
  | none => rfl
  | some f =>
    obtain ⟨hlt, _⟩ := List.getElem?_eq_some_iff.mp hf
    rw [List.length_take, Nat.min_eq_left (Nat.le_of_lt hlt), Nat.zero_add]
    rfl

theorem carriedThrough_eq (s : Script) (index : Nat) :
    s.carriedThrough index =
      s.carry index
        ((s.frames.take index).zipIdx.foldl (fun carried (f, i) => f.carry i carried) []) := by
  unfold carriedThrough carry
  rw [zipIdx_take_succ, List.foldl_append]
  cases s.frame? index <;> rfl

theorem carriedThrough_zero (s : Script) : s.carriedThrough 0 = s.carry 0 [] :=
  s.carriedThrough_eq 0

theorem carriedThrough_succ (s : Script) (index : Nat) :
    s.carriedThrough (index + 1) = s.carry (index + 1) (s.carriedThrough index) :=
  s.carriedThrough_eq (index + 1)

/-- Playing frames in order records their marks. -/
theorem records_carriedThrough (s : Script) (index : Nat) :
    Records (s.marks index) (s.carriedThrough index) := by
  have hfold : s.carriedThrough index =
      (s.marks index).foldl (fun carried m => m.record carried) [] := by
    unfold carriedThrough marks
    rw [List.foldl_flatMap]
    simp only [Frame.carry_eq_foldl]
  rw [hfold]
  exact records_foldl (s.marks index)

/-- The marks of the frames up to this one end with its own. -/
theorem exists_marks_eq {s : Script} {index : Nat} {f : Frame} (hf : s.frame? index = some f) :
    ∃ earlier, s.marks index = earlier ++ f.marks index := by
  unfold marks
  rw [zipIdx_take_succ, hf, List.flatMap_append]
  exact ⟨_, congrArg _ (List.append_nil _)⟩

end Script

/-! ## Cursors -/

/-- Nothing is carried before playback starts, and then what playing the frames up to the
present one in order would leave. -/
structure Playhead.Follows (s : Script) (head : Playhead) : Prop where
  idle : head.phase = .idle → head.carried = [] ∧ head.frame = 0
  begun : head.phase ≠ .idle → head.carried = s.carriedThrough head.frame

theorem Playhead.follows_idle (s : Script) (origin : Option Int) :
    (Playhead.idle origin).Follows s :=
  ⟨fun _ => ⟨rfl, rfl⟩, fun hne => absurd rfl hne⟩

/-- A seek leaves the records of the frame that it shows. -/
theorem Playhead.follows_sought {s : Script} {head : Playhead} (hphase : head.phase = .playing)
    (hcarried : head.carried = s.carriedThrough head.frame) : head.Follows s :=
  ⟨fun hidle => by simp [hphase] at hidle, fun _ => hcarried⟩

variable {s : Script} {settings : Settings} {p : Position} {o : Outcome}

namespace Position

/-- Landing rebuilds the records, or leaves them where playback ends. -/
theorem carried_land (h : p.carried = s.carriedThrough p.frame) (target : Nat) :
    (p.land s target).position.carried =
      s.carriedThrough (p.land s target).position.frame := by
  unfold land
  split
  next => rfl
  next => exact h

theorem carried_enter (h : p.carried = s.carriedThrough p.frame) :
    (p.enter s (p.frame + 1)).carried = s.carriedThrough (p.frame + 1) := by
  unfold enter
  rw [h, Script.carriedThrough_succ]

theorem carried_rewind (p : Position) (s : Script) (length : Nat) :
    (p.rewind s length).carried = s.carriedThrough 0 := by
  rw [Script.carriedThrough_zero]
  rfl

/-- Stepping leaves the records of the frame where it ends. -/
theorem Runs.carried (h : Runs s settings p o) (hp : p.carried = s.carriedThrough p.frame) :
    o.position.carried = s.carriedThrough o.position.frame := by
  induction h with
  | stay => exact hp
  | finish => exact hp
  | next _ _ _ ih => exact ih (carried_enter hp)
  | nextJump => exact carried_land (carried_enter hp) _
  | wrap _ _ _ _ ih => exact ih (carried_rewind ..)
  | wrapEmpty => exact carried_rewind ..
  | wrapJump => exact carried_land (carried_rewind ..) _

theorem carried_start (elapsed : Nat) (s : Script) (settings : Settings) :
    (start elapsed s settings).position.carried =
      s.carriedThrough (start elapsed s settings).position.frame := by
  have hfirst : (enter ⟨elapsed, 0, []⟩ s 0).carried = s.carriedThrough 0 :=
    s.carriedThrough_zero.symm
  unfold start
  cases s.jumpTarget? settings 0 with
  | none => exact (runs_run ..).carried hfirst
  | some target => exact carried_land hfirst target

end Position

namespace Cursor

theorem follows_settle (c : Cursor) (tick : Nat) (s : Script)
    (h : o.position.carried = s.carriedThrough o.position.frame) :
    (c.settle tick o).cursor.head.Follows s := by
  refine ⟨?_, fun _ => h⟩
  intro hidle
  simp only [settle] at hidle
  split at hidle <;> cases hidle

/-- A tick keeps the records in step with the frame. -/
theorem Advances.follows {c : Cursor} {tick : Nat} {a : Advance} (h : c.Advances tick a)
    (hc : c.head.Follows c.script) : a.cursor.head.Follows c.script := by
  cases h with
  | ignored => exact hc
  | early => exact ⟨hc.idle, hc.begun⟩
  | starts => exact c.follows_settle tick c.script (Position.carried_start ..)
  | runs playing =>
    refine c.follows_settle tick c.script ((Position.runs_run ..).carried ?_)
    refine hc.begun ?_
    rw [playing]
    intro hidle
    cases hidle

theorem Reached.follows {c : Cursor} (h : c.Reached s) : c.head.Follows s := by
  refine h.head_induction (Playhead.follows_idle s) ?_ ?_
  · intro c tick a hscript hadvances hc
    subst hscript
    exact hadvances.follows hc
  · intro frame tick start _
    exact Playhead.follows_sought rfl rfl

/-- Once playback has started, the tag of a persisting kind that is in effect is the last
mark of the kind on the frames up to the present one. -/
theorem activeOf?_eq {c : Cursor} (hc : c.head.Follows c.script)
    (hbegun : c.head.phase ≠ .idle)
    {kind : Tag.Kind} (hpersists : kind.persists = true) :
    c.activeOf? kind =
      (lastMark? (c.script.marks c.head.frame) kind).map fun m => ⟨m.value, m.frame⟩ := by
  have hcarried := (c.script.records_carriedThrough c.head.frame).find kind
  unfold activeOf?
  rw [if_neg hbegun, if_pos hpersists, hc.begun hbegun, hcarried]
  cases hf : c.script.frame? c.head.frame with
  | none => rfl
  | some f =>
    rw [Option.bind_some]
    cases htag : f.tagOf? kind with
    | none => rfl
    | some tag =>
      -- the tag that the frame itself carries is also the last mark
      obtain ⟨earlier, hmarks⟩ := Script.exists_marks_eq hf
      rw [hmarks, lastMark?_append, f.lastMark?_marks c.head.frame hpersists, htag]
      rfl

/-- What a reached cursor carries is told by its frame alone. Before playback starts it is
nothing; then it is what playing the frames up to the present one in order leaves, the
last mark of each kind in the order in which the kinds first occur, and the tag of a
persisting kind that is in effect is the last mark. -/
theorem carried_of_reached {c : Cursor} (h : c.Reached s) :
    (c.head.phase = .idle → c.head.carried = [] ∧ c.head.frame = 0) ∧
      (c.head.phase ≠ .idle →
        c.head.carried = s.carriedThrough c.head.frame ∧
        c.head.carried = lastMarks (s.marks c.head.frame) ∧
        ∀ mnemonic kind, Tag.Kind.ofMnemonic? mnemonic = some kind → kind.persists = true →
          c.active? mnemonic =
            (lastMark? (s.marks c.head.frame) kind).map fun m => ⟨m.value, m.frame⟩) := by
  have hfollows := h.follows
  refine ⟨hfollows.idle, ?_⟩
  intro hbegun
  refine ⟨hfollows.begun hbegun, ?_, ?_⟩
  · rw [hfollows.begun hbegun]
    exact (s.records_carriedThrough c.head.frame).eq_lastMarks
  · intro mnemonic kind hkind hpersists
    have hscript := h.script_eq
    subst hscript
    unfold active?
    rw [hkind, Option.bind_some]
    exact activeOf?_eq hfollows hbegun hpersists

/-- A blend level that is set on the first frame is in effect on the second
one, after a seek. -/
theorem carried_after_seek :
    Reached ⟨[⟨0, 3, [⟨.blendStart, some 10⟩]⟩, ⟨1, 4, []⟩], [3, 7]⟩
        ((Cursor.new ⟨[⟨0, 3, [⟨.blendStart, some 10⟩]⟩, ⟨1, 4, []⟩], [3, 7]⟩
          .standard).goTo 1 0).2 ∧
      ((Cursor.new ⟨[⟨0, 3, [⟨.blendStart, some 10⟩]⟩, ⟨1, 4, []⟩], [3, 7]⟩
          .standard).goTo 1 0).2.active? "bs" = some ⟨some 10, 0⟩ := by
  have hreached : Reached ⟨[⟨0, 3, [⟨.blendStart, some 10⟩]⟩, ⟨1, 4, []⟩], [3, 7]⟩ _ :=
    (Reached.new .standard).goTo 1 0
  refine ⟨hreached, ?_⟩
  exact ((carried_of_reached hreached).2 (by decide)).2.2 "bs" .blendStart (by decide) rfl

end Cursor

end Flipbook
