import Flipbook.Script.Basic

/-!
# End ticks as running totals

The end ticks of a script are the running totals of its lengths, as long as the clock can
hold them. This file says so of `endsFrom` without its recursion: the totals of a longer
list begin with those of a shorter one (`endsFrom_append`), each is the sum of the lengths
up to its frame (`endsFrom_eq_some_iff`), and none is smaller than the one before it
(`endsFrom_pairwise`).
-/

namespace Flipbook.Script

/-- A script is made of frames exactly if there are some and the clock can hold
all their totals. -/
theorem ofFrames_eq_ok_iff {frames : List Frame} {s : Script} :
    ofFrames frames = .ok s ↔
      frames ≠ [] ∧ s.frames = frames ∧ endsFrom 0 frames = some s.ends := by
  obtain ⟨sframes, sends⟩ := s
  refine ⟨?_, ?_⟩
  · intro h
    cases frames with
    | nil => cases h
    | cons f rest =>
      simp only [ofFrames] at h
      split at h
      next => cases h
      next ends hends =>
        cases h
        exact ⟨List.cons_ne_nil f rest, rfl, hends⟩
  · intro h
    obtain ⟨hne, rfl, hends⟩ := h
    have hends' : endsFrom 0 sframes = some sends := hends
    cases sframes with
    | nil => exact absurd rfl hne
    | cons f rest =>
      simp only [ofFrames]
      rw [hends']

theorem endsFrom_cons_eq_some_iff {total : Nat} {f : Frame} {rest : List Frame}
    {ends : List Nat} :
    endsFrom total (f :: rest) = some ends ↔
      total + f.length ≤ Tick.last ∧
        ∃ later, endsFrom (total + f.length) rest = some later ∧
          ends = (total + f.length) :: later := by
  simp only [endsFrom]
  refine ⟨?_, ?_⟩
  · intro h
    split at h
    next hle =>
      obtain ⟨later, hlater, rfl⟩ := Option.map_eq_some_iff.mp h
      exact ⟨hle, later, hlater, rfl⟩
    next => cases h
  · intro h
    obtain ⟨hle, later, hlater, rfl⟩ := h
    rw [if_pos hle, hlater]
    rfl

/-- The ticks that some frames take together. -/
def ticks (frames : List Frame) : Nat :=
  frames.foldr (fun f n => f.length + n) 0

theorem ticks_append (frames more : List Frame) :
    ticks (frames ++ more) = ticks frames + ticks more := by
  induction frames with
  | nil => simp [ticks]
  | cons f rest ih =>
    show f.length + ticks (rest ++ more) = f.length + ticks rest + ticks more
    omega

/-- For each frame, the ticks that it and the frames before it take together. -/
def totals (frames : List Frame) : List Nat :=
  (List.range frames.length).map fun i => ticks (frames.take (i + 1))

/-- The first total is the length of the first frame, which all later ones include. -/
theorem totals_cons (f : Frame) (rest : List Frame) :
    totals (f :: rest) = f.length :: (totals rest).map (f.length + ·) := by
  unfold totals
  rw [List.length_cons, List.range_succ_eq_map, List.map_cons, List.map_map, List.map_map]
  rfl

/-- The ends are the running totals, if the clock can hold them all. -/
theorem endsFrom_eq_some_iff {frames : List Frame} :
    ∀ {total : Nat} {ends : List Nat}, endsFrom total frames = some ends ↔
      ends = (totals frames).map (total + ·) ∧ ∀ finish ∈ ends, finish ≤ Tick.last := by
  induction frames with
  | nil =>
    intro total ends
    refine ⟨?_, ?_⟩
    · intro h
      cases h
      exact ⟨rfl, fun finish hmem => by cases hmem⟩
    · intro h
      obtain ⟨rfl, _⟩ := h
      rfl
  | cons f rest ih =>
    intro total ends
    -- the totals of the rest go on from the end of the first frame
    have hshift : (totals (f :: rest)).map (total + ·) =
        (total + f.length) :: (totals rest).map (total + f.length + ·) := by
      rw [totals_cons, List.map_cons, List.map_map]
      simp only [Function.comp_def, Nat.add_assoc]
    rw [endsFrom_cons_eq_some_iff, hshift]
    refine ⟨?_, ?_⟩
    · intro h
      obtain ⟨hle, later, hlater, rfl⟩ := h
      obtain ⟨rfl, hall⟩ := ih.mp hlater
      refine ⟨rfl, ?_⟩
      intro finish hmem
      rcases List.mem_cons.mp hmem with rfl | hin
      · exact hle
      · exact hall finish hin
    · intro h
      obtain ⟨rfl, hall⟩ := h
      refine ⟨hall _ (List.mem_cons_self ..), _, ih.mpr ⟨rfl, ?_⟩, rfl⟩
      intro finish hin
      exact hall finish (List.mem_cons_of_mem _ hin)

theorem endsFrom_zero_eq_some_iff {frames : List Frame} {ends : List Nat} :
    endsFrom 0 frames = some ends ↔
      ends = totals frames ∧ ∀ finish ∈ ends, finish ≤ Tick.last := by
  rw [endsFrom_eq_some_iff]
  simp only [Nat.zero_add, List.map_id_fun', id]

/-- There are no ends exactly if the ticks of all frames together are too
many for the clock. -/
theorem endsFrom_eq_none_iff {frames : List Frame} :
    ∀ {total : Nat}, total ≤ Tick.last →
      (endsFrom total frames = none ↔ Tick.last < total + ticks frames) := by
  induction frames with
  | nil =>
    intro total hle
    have hno : ¬ Tick.last < total := Nat.not_lt.mpr hle
    simp [endsFrom, ticks, hno]
  | cons f rest ih =>
    intro total hle
    show (if total + f.length ≤ Tick.last then
        (endsFrom (total + f.length) rest).map ((total + f.length) :: ·) else none) = none ↔
      Tick.last < total + (f.length + ticks rest)
    by_cases hfits : total + f.length ≤ Tick.last
    · rw [if_pos hfits, Option.map_eq_none_iff, ih hfits, Nat.add_assoc]
    · rw [if_neg hfits]
      simp only [true_iff]
      omega

theorem endsFrom_zero_eq_none_iff {frames : List Frame} :
    endsFrom 0 frames = none ↔ Tick.last < ticks frames := by
  rw [endsFrom_eq_none_iff (Nat.zero_le _), Nat.zero_add]

/-- No end lies before the total that the frames start from. -/
theorem le_of_mem_endsFrom {frames : List Frame} :
    ∀ {total : Nat} {ends : List Nat}, endsFrom total frames = some ends →
      ∀ finish ∈ ends, total ≤ finish := by
  induction frames with
  | nil =>
    intro total ends h
    cases h
    intro finish hmem
    cases hmem
  | cons f rest ih =>
    intro total ends h finish hmem
    obtain ⟨_, later, hlater, rfl⟩ := endsFrom_cons_eq_some_iff.mp h
    rcases List.mem_cons.mp hmem with rfl | hin
    · exact Nat.le_add_right _ _
    · exact Nat.le_trans (Nat.le_add_right _ _) (ih hlater finish hin)

theorem endsFrom_pairwise {frames : List Frame} :
    ∀ {total : Nat} {ends : List Nat}, endsFrom total frames = some ends →
      ends.Pairwise (· ≤ ·) := by
  induction frames with
  | nil =>
    intro total ends h
    cases h
    exact List.Pairwise.nil
  | cons f rest ih =>
    intro total ends h
    obtain ⟨_, later, hlater, rfl⟩ := endsFrom_cons_eq_some_iff.mp h
    exact List.Pairwise.cons (le_of_mem_endsFrom hlater) (ih hlater)

/-- The totals of a longer list go on from the last total of the shorter one. -/
theorem endsFrom_append {frames more : List Frame} :
    ∀ {total : Nat} {ends later : List Nat}, endsFrom total frames = some ends →
      endsFrom (ends.getLast?.getD total) more = some later →
      endsFrom total (frames ++ more) = some (ends ++ later) := by
  induction frames with
  | nil =>
    intro total ends later h hmore
    cases h
    exact hmore
  | cons f rest ih =>
    intro total ends later h hmore
    obtain ⟨hle, ends', hends', rfl⟩ := endsFrom_cons_eq_some_iff.mp h
    rw [List.cons_append, endsFrom_cons_eq_some_iff]
    refine ⟨hle, ends' ++ later, ih hends' ?_, rfl⟩
    rw [List.getLast?_cons, Option.getD_some] at hmore
    exact hmore

/-- The last end comes after the ticks of all frames. -/
theorem getLast?_endsFrom {frames : List Frame} :
    ∀ {total : Nat} {ends : List Nat}, endsFrom total frames = some ends →
      ends.getLast?.getD total = total + ticks frames := by
  induction frames with
  | nil =>
    intro total ends h
    cases h
    rfl
  | cons f rest ih =>
    intro total ends h
    obtain ⟨_, later, hlater, rfl⟩ := endsFrom_cons_eq_some_iff.mp h
    rw [List.getLast?_cons, Option.getD_some, ih hlater, Nat.add_assoc]
    rfl

/-- From a later total on, the ends are as much later, if the clock can hold them. -/
theorem endsFrom_later {frames : List Frame} {total : Nat} {ends : List Nat}
    (h : endsFrom 0 frames = some ends) (hfits : total + ticks frames ≤ Tick.last) :
    endsFrom total frames = some (ends.map (total + ·)) := by
  obtain ⟨rfl, _⟩ := endsFrom_zero_eq_some_iff.mp h
  cases hlater : endsFrom total frames with
  | none =>
    have hover := (endsFrom_eq_none_iff (by omega)).mp hlater
    omega
  | some later => rw [(endsFrom_eq_some_iff.mp hlater).1]

/-- Only the lengths of frames count for the totals. -/
theorem endsFrom_congr {frames others : List Frame}
    (h : frames.map (·.length) = others.map (·.length)) :
    ∀ total : Nat, endsFrom total frames = endsFrom total others := by
  induction frames generalizing others with
  | nil =>
    intro total
    rw [List.map_nil, eq_comm, List.map_eq_nil_iff] at h
    rw [h]
  | cons f rest ih =>
    intro total
    cases others with
    | nil => cases h
    | cons g others =>
      rw [List.map_cons, List.map_cons, List.cons.injEq] at h
      simp only [endsFrom]
      rw [h.1, ih h.2]

end Flipbook.Script
