import Flipbook.Proofs.Script.Reachable
import Flipbook.Script.Timeline

/-!
# The ticks of a frame

`s.before i` counts the ticks of the frames before `i`. In a valid script these numbers
are the whole timeline: frame `i` starts at `s.before i` and is left at
`s.before (i + 1)`, they do not fall, and the clock can show them all. The look-ups of
`Script` are restated through them, so that what follows about time is arithmetic on
`before`; a frame shows at the ticks from its start up to its end
(`Valid.indexAt?_eq_some_iff`).
-/

namespace Flipbook.Script

/-- The ticks that the frames before this one take together. -/
def before (s : Script) (index : Nat) : Nat :=
  ticks (s.frames.take index)

theorem before_succ {s : Script} {index : Nat} {f : Frame} (hf : s.frame? index = some f) :
    s.before (index + 1) = s.before index + f.length := by
  have hget : s.frames[index]? = some f := hf
  unfold before
  rw [List.take_add_one, hget, ticks_append]
  rfl

/-- The timeline does not fall. -/
theorem before_mono (s : Script) {i j : Nat} (hij : i ≤ j) : s.before i ≤ s.before j := by
  induction hij with
  | refl => exact Nat.le_refl _
  | @step j _ ih =>
    have hstep : s.before j ≤ s.before (j + 1) := by
      unfold before
      rw [List.take_add_one, ticks_append]
      omega
    exact Nat.le_trans ih hstep

/-- The time of a later frame has come only after that of an earlier one. -/
theorem lt_of_before_lt {s : Script} {i j : Nat} (h : s.before i < s.before j) : i < j := by
  by_cases hij : i < j
  · exact hij
  · have := s.before_mono (Nat.le_of_not_lt hij)
    omega

/-! ## Look-ups in a valid script -/

theorem Valid.length_ends {s : Script} (h : s.Valid) : s.ends.length = s.count := by
  rw [(endsFrom_zero_eq_some_iff.mp h.ends).1, totals]
  simp [count]

theorem Valid.count_pos {s : Script} (h : s.Valid) : 0 < s.count :=
  List.length_pos_iff.mpr h.nonempty

theorem Valid.end?_eq {s : Script} (h : s.Valid) {index : Nat} (hlt : index < s.count) :
    s.end? index = some (s.before (index + 1)) := by
  have hrange : (List.range s.frames.length)[index]? = some index := List.getElem?_range hlt
  unfold end?
  rw [(endsFrom_zero_eq_some_iff.mp h.ends).1, totals, List.getElem?_map, hrange]
  rfl

theorem Valid.end?_eq_some_iff {s : Script} (h : s.Valid) {index finish : Nat} :
    s.end? index = some finish ↔ index < s.count ∧ s.before (index + 1) = finish := by
  constructor
  · intro hend
    have hlt : index < s.count := by
      rw [← h.length_ends]
      exact (List.getElem?_eq_some_iff.mp hend).1
    rw [h.end?_eq hlt, Option.some.injEq] at hend
    exact ⟨hlt, hend⟩
  · intro ⟨hlt, hfinish⟩
    rw [h.end?_eq hlt, hfinish]

theorem exists_frame {s : Script} {index : Nat} (hlt : index < s.count) :
    ∃ f, s.frame? index = some f :=
  ⟨s.frames[index], List.getElem?_eq_getElem hlt⟩

/-- No frame is longer than the time up to its end, so its start is where the
frames before it end. -/
theorem Valid.start?_eq {s : Script} (h : s.Valid) {index : Nat} (hlt : index < s.count) :
    s.start? index = some (s.before index) := by
  obtain ⟨f, hf⟩ := exists_frame hlt
  unfold start?
  rw [h.end?_eq hlt, hf]
  simp only
  rw [before_succ hf, Nat.add_sub_cancel]

theorem start?_eq_none {s : Script} {index : Nat} (hle : s.count ≤ index) :
    s.start? index = none := by
  have hframe : s.frame? index = none := List.getElem?_eq_none hle
  unfold start?
  rw [hframe]
  cases s.end? index <;> rfl

theorem Valid.start?_eq_some_iff {s : Script} (h : s.Valid) {index start : Nat} :
    s.start? index = some start ↔ index < s.count ∧ s.before index = start := by
  constructor
  · intro hstart
    have hlt : index < s.count := by
      by_cases hlt : index < s.count
      · exact hlt
      · rw [start?_eq_none (Nat.le_of_not_lt hlt)] at hstart
        cases hstart
    rw [h.start?_eq hlt, Option.some.injEq] at hstart
    exact ⟨hlt, hstart⟩
  · intro ⟨hlt, hstart⟩
    rw [h.start?_eq hlt, hstart]

theorem Valid.total_eq {s : Script} (h : s.Valid) : s.total = s.before s.count := by
  have hpos := h.count_pos
  have hlast : s.ends[s.count - 1]? = some (s.before (s.count - 1 + 1)) := h.end?_eq (by omega)
  unfold total
  rw [List.getLast?_eq_getElem?, h.length_ends, hlast, Option.getD_some,
    Nat.sub_add_cancel hpos]

theorem Valid.total_eq_ticks {s : Script} (h : s.Valid) : s.total = ticks s.frames := by
  rw [h.total_eq, before, count, List.take_length]

/-- The clock can show every tick of the timeline. -/
theorem Valid.before_le_last {s : Script} (h : s.Valid) {index : Nat} (hle : index ≤ s.count) :
    s.before index ≤ Tick.last := by
  cases index with
  | zero => exact Nat.zero_le _
  | succ index =>
    have hmem : s.before (index + 1) ∈ s.ends := List.mem_of_getElem? (h.end?_eq hle)
    exact (endsFrom_zero_eq_some_iff.mp h.ends).2 _ hmem

/-- A frame shows from its start up to its end. -/
theorem Valid.indexAt?_eq_some_iff {s : Script} (h : s.Valid) {tick index : Nat} :
    s.indexAt? tick = some index ↔
      index < s.count ∧ s.before index ≤ tick ∧ tick < s.before (index + 1) := by
  have hends : ∀ j (hj : j < s.ends.length), s.ends[j] = s.before (j + 1) := by
    intro j hj
    have hget := h.end?_eq (h.length_ends ▸ hj)
    rw [end?, List.getElem?_eq_getElem hj, Option.some.injEq] at hget
    exact hget
  unfold indexAt?
  rw [List.findIdx?_eq_some_iff_getElem]
  constructor
  · intro ⟨hlt, hshown, hearlier⟩
    rw [hends, decide_eq_true_eq] at hshown
    refine ⟨h.length_ends ▸ hlt, ?_, hshown⟩
    -- the frame before it has ended
    cases index with
    | zero => exact Nat.zero_le _
    | succ j =>
      have hended := hearlier j (Nat.lt_succ_self j)
      rw [hends, decide_eq_true_eq] at hended
      omega
  · intro ⟨hlt, hstarted, hshown⟩
    refine ⟨h.length_ends ▸ hlt, by rw [hends, decide_eq_true_eq]; exact hshown, ?_⟩
    intro j hj
    have hmono := s.before_mono (i := j + 1) hj
    rw [hends, decide_eq_true_eq]
    omega

/-- From the end of the script on nothing shows. -/
theorem Valid.indexAt?_eq_none_iff {s : Script} (h : s.Valid) {tick : Nat} :
    s.indexAt? tick = none ↔ s.total ≤ tick := by
  have hpos := h.count_pos
  unfold indexAt?
  rw [List.findIdx?_eq_none_iff, h.total_eq]
  constructor
  · intro hended
    have hlast : s.ends[s.count - 1]? = some (s.before (s.count - 1 + 1)) :=
      h.end?_eq (by omega)
    rw [Nat.sub_add_cancel hpos] at hlast
    simpa using hended _ (List.mem_of_getElem? hlast)
  · intro hpast finish hmem
    obtain ⟨i, hi⟩ := List.getElem?_of_mem hmem
    obtain ⟨hlt, rfl⟩ := h.end?_eq_some_iff.mp hi
    have hmono := s.before_mono (i := i + 1) hlt
    simp only [decide_eq_false_iff_not]
    omega

end Flipbook.Script
