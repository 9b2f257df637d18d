import Flipbook.Proofs.Player.Carried
import Flipbook.Proofs.Player.Clock

/-!
# Restoring snapshots

Main statement: `restorable_throughout`. A snapshot is restored exactly if it fits the script
(`Snapshot.Fits`): it names a frame of the script, an origin that two ticks of the clock can
be apart, and carried tags that persist and were set on frames of the script. Nothing else is
asked of it, so it may well be a state in which no cursor of the script has ever been.

Even so everything that is then done keeps the state fitting. A position may go further
into time than the clock can show, but not past `bound`, the last tick of the clock after
the present one; that keeps the origin within its limits (`Position.Fits`, `fits_settle`).
-/

namespace Flipbook

variable {s : Script} {settings : Settings} {p : Position} {o : Outcome} {bound : Nat}

/-! ## What is restored -/

/-- The entry's tag is a known one that persists, and the frame that set it is
one of the script. -/
def Snapshot.Entry.Fits (s : Script) (e : Snapshot.Entry) : Prop :=
  (∃ kind, Tag.Kind.ofId? e.id = some kind ∧ kind.persists = true) ∧ e.frame < s.count

/-- The snapshot's frame, origin and carried tags are such as a cursor over the
script can have. -/
structure Snapshot.Fits (n : Snapshot) (s : Script) : Prop where
  frame : n.frame < s.count
  origin : ∀ origin, n.origin = some origin → -(Tick.last : Int) ≤ origin ∧ origin ≤ Tick.last
  carried : ∀ e ∈ n.carried, e.Fits s

/-- The entry for a record in a snapshot. -/
def Carried.entry (c : Carried) : Snapshot.Entry :=
  ⟨c.kind.id, c.value, c.frame⟩

theorem Tag.Kind.id_of_ofId? {n : Nat} {kind : Tag.Kind} (h : ofId? n = some kind) :
    kind.id = n := by
  obtain ⟨hlt, rfl⟩ := List.getElem?_eq_some_iff.mp h
  have hnodup : Tag.Kind.all.Nodup := by decide
  exact hnodup.idxOf_getElem n hlt

namespace Snapshot

/-- An entry that fits is taken as the record that it is the entry of. -/
theorem Entry.check_eq_ok_iff {e : Entry} {record : Carried} :
    e.check s.count = .ok record ↔ e.Fits s ∧ record.entry = e := by
  obtain ⟨id, value, frame⟩ := e
  constructor
  · intro h
    unfold check at h
    split at h
    next => cases h
    next kind hkind =>
      by_cases hpersists : kind.persists = true
      · by_cases hframe : s.count ≤ frame
        · simp [hpersists, hframe] at h
        · simp [hpersists, hframe] at h
          subst h
          refine ⟨⟨⟨kind, hkind, hpersists⟩, Nat.lt_of_not_le hframe⟩, ?_⟩
          have hid : kind.id = id := Tag.Kind.id_of_ofId? hkind
          simp [Carried.entry, hid]
      · simp [hpersists] at h
  · intro ⟨⟨⟨kind, hkind, hpersists⟩, hframe⟩, hentry⟩
    cases hentry
    have hsame : Tag.Kind.ofId? record.kind.id = some record.kind := Tag.Kind.ofId?_id _
    rw [hsame, Option.some.injEq] at hkind
    have hlt : ¬ s.count ≤ record.frame := Nat.not_le.mpr hframe
    subst hkind
    unfold check
    simp [hsame, hpersists, hlt]

theorem checkAll_eq_ok_iff {entries : List Entry} :
    ∀ {records : List Carried}, checkAll s.count entries = .ok records ↔
      (∀ e ∈ entries, e.Fits s) ∧ records.map Carried.entry = entries := by
  induction entries with
  | nil =>
    intro records
    constructor
    · intro h
      cases h
      exact ⟨nofun, rfl⟩
    · intro ⟨_, hmap⟩
      rw [List.map_eq_nil_iff.mp hmap]
      rfl
  | cons e rest ih =>
    intro records
    constructor
    · intro h
      unfold checkAll at h
      split at h
      next => cases h
      next record hrecord =>
        obtain ⟨others, hothers, rfl⟩ := map_eq_ok_iff.mp h
        obtain ⟨hfits, rfl⟩ := Entry.check_eq_ok_iff.mp hrecord
        obtain ⟨hall, rfl⟩ := ih.mp hothers
        exact ⟨List.forall_mem_cons.mpr ⟨hfits, hall⟩, rfl⟩
    · intro ⟨hfits, hmap⟩
      obtain ⟨hfirst, hall⟩ := List.forall_mem_cons.mp hfits
      cases records with
      | nil => cases hmap
      | cons record others =>
        rw [List.map_cons, List.cons.injEq] at hmap
        have hrecord := Entry.check_eq_ok_iff.mpr ⟨hfirst, hmap.1⟩
        have hothers := ih.mpr ⟨hall, hmap.2⟩
        unfold checkAll
        rw [hrecord]
        simp only
        rw [hothers]
        rfl

theorem originFits_iff {origin : Option Int} :
    (origin.any fun origin => Tick.last < origin.natAbs) = false ↔
      ∀ o, origin = some o → -(Tick.last : Int) ≤ o ∧ o ≤ Tick.last := by
  cases origin with
  | none => simp
  | some o =>
    simp only [Option.any_some, decide_eq_false_iff_not, Option.some.injEq, forall_eq']
    omega

/-- A snapshot that fits is taken as the state that it is the snapshot of. -/
theorem check_eq_ok_iff {n : Snapshot} {head : Playhead} :
    n.check s.count = .ok head ↔
      n.Fits s ∧
        n =
          ⟨head.phase, head.lastTick, head.origin, head.frame,
            head.carried.map Carried.entry⟩ := by
  obtain ⟨phase, lastTick, origin, frame, entries⟩ := n
  constructor
  · intro h
    unfold check at h
    split at h
    next => cases h
    next horigin =>
      split at h
      next => cases h
      next hframe =>
        obtain ⟨records, hrecords, rfl⟩ := map_eq_ok_iff.mp h
        obtain ⟨hall, rfl⟩ := checkAll_eq_ok_iff.mp hrecords
        have hin := originFits_iff.mp (Bool.eq_false_iff.mpr horigin)
        exact ⟨⟨Nat.lt_of_not_le hframe, hin, hall⟩, rfl⟩
  · intro ⟨hfits, hsame⟩
    cases hsame
    have horigin := originFits_iff.mpr hfits.origin
    have hframe : ¬ s.count ≤ head.frame := Nat.not_le.mpr hfits.frame
    have hrecords := checkAll_eq_ok_iff.mpr ⟨hfits.carried, rfl⟩
    unfold check
    simp only at horigin hrecords ⊢
    rw [horigin, hrecords]
    simp only [Bool.false_eq_true, if_false, if_neg hframe]
    rfl

/-- Entries that fit are entries of records. -/
theorem exists_map_entry {entries : List Entry} (h : ∀ e ∈ entries, e.Fits s) :
    ∃ records : List Carried, records.map Carried.entry = entries := by
  induction entries with
  | nil => exact ⟨[], rfl⟩
  | cons e rest ih =>
    obtain ⟨⟨⟨kind, hkind, _⟩, _⟩, hrest⟩ := List.forall_mem_cons.mp h
    obtain ⟨records, hrecords⟩ := ih hrest
    refine ⟨⟨kind, e.value, e.frame⟩ :: records, ?_⟩
    rw [List.map_cons, hrecords, Carried.entry, Tag.Kind.id_of_ofId? hkind]

end Snapshot

namespace Cursor

/-- A snapshot that fits is put back as it is. -/
theorem restore_of_fits {c : Cursor} {n : Snapshot} (h : n.Fits c.script) :
    (c.restore n).1 = .ok () ∧ (c.restore n).2.script = c.script ∧
      (c.restore n).2.snapshot = n := by
  obtain ⟨records, hrecords⟩ := Snapshot.exists_map_entry h.carried
  have hcheck : n.check c.script.count =
      .ok ⟨n.phase, n.lastTick, n.origin, n.frame, records⟩ :=
    Snapshot.check_eq_ok_iff.mpr ⟨h, by simp only [hrecords]⟩
  unfold restore
  rw [hcheck]
  refine ⟨rfl, rfl, ?_⟩
  show Snapshot.mk n.phase n.lastTick n.origin n.frame (records.map Carried.entry) = n
  rw [hrecords]

/-- A snapshot that does not fit leaves the cursor as it was. -/
theorem restore_of_not_fits {c : Cursor} {n : Snapshot} (h : ¬ n.Fits c.script) :
    (∃ m, (c.restore n).1 = .error m) ∧ (c.restore n).2 = c := by
  unfold restore
  cases hcheck : n.check c.script.count with
  | error m => exact ⟨⟨m, rfl⟩, rfl⟩
  | ok head => exact absurd (Snapshot.check_eq_ok_iff.mp hcheck).1 h

end Cursor

/-! ## Carried tags -/

/-- The record's tag persists, and the frame that set it is one of the script. -/
def Carried.Fits (s : Script) (c : Carried) : Prop :=
  c.kind.persists = true ∧ c.frame < s.count

theorem Carried.mem_record {m c : Carried} {carried : List Carried}
    (h : c ∈ m.record carried) : c = m ∨ c ∈ carried := by
  induction carried with
  | nil => exact Or.inl (List.mem_singleton.mp h)
  | cons first rest ih =>
    unfold record at h
    by_cases hkind : first.kind = m.kind
    · rw [if_pos hkind] at h
      rcases List.mem_cons.mp h with rfl | hin
      · exact Or.inl rfl
      · exact Or.inr (List.mem_cons_of_mem _ hin)
    · rw [if_neg hkind] at h
      rcases List.mem_cons.mp h with rfl | hin
      · exact Or.inr (List.mem_cons_self ..)
      · exact (ih hin).imp_right (List.mem_cons_of_mem _)

theorem Carried.fits_foldl {marks : List Carried} (hmarks : ∀ m ∈ marks, m.Fits s) :
    ∀ {carried : List Carried}, (∀ c ∈ carried, c.Fits s) →
      ∀ c ∈ marks.foldl (fun carried m => m.record carried) carried, c.Fits s := by
  induction marks with
  | nil => exact fun h => h
  | cons m rest ih =>
    intro carried h
    obtain ⟨hm, hrest⟩ := List.forall_mem_cons.mp hmarks
    refine ih hrest ?_
    intro c hc
    rcases mem_record hc with rfl | hin
    · exact hm
    · exact h c hin

/-- A frame adds records that fit. -/
theorem Script.fits_carry {carried : List Carried} (h : ∀ c ∈ carried, c.Fits s)
    (index : Nat) : ∀ c ∈ s.carry index carried, c.Fits s := by
  unfold carry
  cases hf : s.frame? index with
  | none => exact h
  | some f =>
    have hlt : index < s.count := (List.getElem?_eq_some_iff.mp hf).1
    simp only
    rw [Frame.carry_eq_foldl]
    refine Carried.fits_foldl ?_ h
    intro m hm
    obtain ⟨tag, htag, rfl⟩ := List.mem_map.mp hm
    exact ⟨(List.mem_filter.mp htag).2, hlt⟩

theorem Script.fits_carriedThrough (s : Script) (index : Nat) :
    ∀ c ∈ s.carriedThrough index, c.Fits s := by
  induction index with
  | zero =>
    rw [carriedThrough_zero]
    exact fits_carry (List.forall_mem_nil _) 0
  | succ index ih =>
    rw [carriedThrough_succ]
    exact fits_carry ih (index + 1)

/-! ## Stepping -/

namespace Position

/-- The position's frame is one of the script, its time is within a bound, and
its records fit. -/
structure Fits (s : Script) (bound : Nat) (p : Position) : Prop where
  frame_lt : p.frame < s.count
  elapsed_le : p.elapsed ≤ bound
  carried : ∀ c ∈ p.carried, c.Fits s

theorem Fits.enter (h : p.Fits s bound) {frame : Nat} (hlt : frame < s.count) :
    (p.enter s frame).Fits s bound :=
  ⟨hlt, h.elapsed_le, Script.fits_carry h.carried frame⟩

theorem Fits.next (hs : s.Valid) (h : p.Fits s bound) (due : p.move s settings = .next) :
    (p.enter s (p.frame + 1)).Fits s bound := by
  obtain ⟨_, _, _, hlast⟩ := move_eq_next_iff.mp due
  have hlt := settings.lastFrame_lt hs
  exact h.enter (by omega)

theorem Fits.rewind (hs : s.Valid) (h : p.Fits s bound) (length : Nat) :
    (p.rewind s length).Fits s bound := by
  refine ⟨hs.count_pos, ?_, Script.fits_carry (List.forall_mem_nil _) 0⟩
  have hle := h.elapsed_le
  have hmod := Nat.mod_le p.elapsed length
  show (if length = 0 then 0 else p.elapsed % length) ≤ bound
  split <;> omega

/-- A jump leads to a tick that the clock can show. -/
theorem Fits.land (hs : s.Valid) (hbound : Tick.last ≤ bound) (h : p.Fits s bound)
    (target : Nat) : (p.land s target).position.Fits s bound := by
  rcases p.land_cases s target with ⟨frame, hshown, hland⟩ | hland
  · obtain ⟨hlt, _, hend⟩ := hs.indexAt?_eq_some_iff.mp hshown
    have hclock : s.before (frame + 1) ≤ Tick.last := hs.before_le_last hlt
    rw [hland]
    refine ⟨hlt, ?_, s.fits_carriedThrough frame⟩
    show target ≤ bound
    omega
  · rw [hland]
    exact h

theorem Runs.fits (hs : s.Valid) (hbound : Tick.last ≤ bound) (h : Runs s settings p o)
    (hp : p.Fits s bound) : o.position.Fits s bound := by
  induction h with
  | stay => exact hp
  | finish => exact hp
  | next due _ _ ih => exact ih (hp.next hs due)
  | nextJump due => exact (hp.next hs due).land hs hbound _
  | wrap _ _ _ _ ih => exact ih (hp.rewind hs _)
  | wrapEmpty => exact hp.rewind hs _
  | wrapJump => exact (hp.rewind hs _).land hs hbound _

theorem fits_start (hs : s.Valid) (hbound : Tick.last ≤ bound) (settings : Settings)
    {elapsed : Nat}
    (hle : elapsed ≤ bound) : (start elapsed s settings).position.Fits s bound := by
  have hfirst : (enter ⟨elapsed, 0, []⟩ s 0).Fits s bound :=
    ⟨hs.count_pos, hle, Script.fits_carry (List.forall_mem_nil _) 0⟩
  have hruns := runs_run s settings (enter ⟨elapsed, 0, []⟩ s 0)
  rcases start_cases elapsed s settings with ⟨_, hstart⟩ | ⟨target, _, hstart⟩
  · rw [hstart, Outcome.position_after]
    exact hruns.fits hs hbound hfirst
  · rw [hstart, Outcome.position_after]
    exact hfirst.land hs hbound target

theorem not_entered_land (p : Position) (s : Script) (target frame : Nat) :
    .entered frame ∉ (p.land s target).log := by
  rcases p.land_cases s target with ⟨_, _, hland⟩ | hland
  · simp [hland]
  · simp [hland]

/-- Stepping enters frames of the script only. -/
theorem Runs.entered_lt (hs : s.Valid) (h : Runs s settings p o) {frame : Nat}
    (hmem : .entered frame ∈ o.log) : frame < s.count := by
  have hlast := settings.lastFrame_lt hs
  induction h with
  | stay => simp at hmem
  | finish => simp at hmem
  | next due _ _ ih =>
    obtain ⟨_, _, _, hlt⟩ := move_eq_next_iff.mp due
    simp at hmem
    rcases hmem with rfl | hlater
    · omega
    · exact ih hlater
  | nextJump due =>
    obtain ⟨_, _, _, hlt⟩ := move_eq_next_iff.mp due
    simp [not_entered_land] at hmem
    omega
  | wrap _ _ _ _ ih =>
    simp at hmem
    rcases hmem with rfl | hlater
    · exact hs.count_pos
    · exact ih hlater
  | wrapEmpty =>
    simp at hmem
    exact hmem ▸ hs.count_pos
  | wrapJump =>
    simp [not_entered_land] at hmem
    exact hmem ▸ hs.count_pos

theorem entered_lt_start (hs : s.Valid) {settings : Settings} {elapsed frame : Nat}
    (hmem : .entered frame ∈ (start elapsed s settings).log) : frame < s.count := by
  have hruns := runs_run s settings (enter ⟨elapsed, 0, []⟩ s 0)
  rcases start_cases elapsed s settings with ⟨_, hstart⟩ | ⟨target, _, hstart⟩
  · simp [hstart] at hmem
    rcases hmem with rfl | hlater
    · exact hs.count_pos
    · exact hruns.entered_lt hs hlater
  · simp [hstart, not_entered_land] at hmem
    exact hmem ▸ hs.count_pos

end Position

/-! ## Cursors -/

/-- The state's frame, origin and carried tags are such as its snapshot can
be restored with. -/
structure Playhead.Fits (s : Script) (head : Playhead) : Prop where
  frame : head.frame < s.count
  origin : ∀ origin, head.origin = some origin →
    -(Tick.last : Int) ≤ origin ∧ origin ≤ Tick.last
  carried : ∀ c ∈ head.carried, c.Fits s

namespace Cursor

theorem snapshot_fits_iff {c : Cursor} : c.snapshot.Fits s ↔ c.head.Fits s := by
  have hentry : ∀ record : Carried, record.entry.Fits s ↔ record.Fits s := by
    intro record
    unfold Snapshot.Entry.Fits Carried.Fits Carried.entry
    simp [Tag.Kind.ofId?_id]
  have hcarried : c.snapshot.carried = c.head.carried.map Carried.entry := rfl
  constructor
  · intro h
    refine ⟨h.frame, h.origin, ?_⟩
    intro record hrecord
    exact (hentry record).mp (h.carried _ (hcarried ▸ List.mem_map_of_mem hrecord))
  · intro h
    refine ⟨h.frame, h.origin, ?_⟩
    intro e he
    obtain ⟨record, hrecord, rfl⟩ := List.mem_map.mp (hcarried ▸ he)
    exact (hentry record).mpr (h.carried record hrecord)

theorem fits_idle (hs : s.Valid) {origin : Option Int}
    (horigin : ∀ o, origin = some o → -(Tick.last : Int) ≤ o ∧ o ≤ Tick.last) :
    (Playhead.idle origin).Fits s :=
  ⟨hs.count_pos, horigin, List.forall_mem_nil _⟩

/-- A time that the clock can have passed since some origin puts the origin back
within its limits. -/
theorem fits_settle (c : Cursor) {tick : Nat} (htick : tick ≤ Tick.last)
    (h : o.position.Fits s (tick + Tick.last)) : (c.settle tick o).cursor.head.Fits s := by
  refine ⟨h.frame_lt, ?_, h.carried⟩
  intro origin horigin
  have hsame : (tick : Int) - o.position.elapsed = origin := Option.some.inj horigin
  have hle := h.elapsed_le
  omega

theorem elapsedAt_le {c : Cursor} (hc : c.head.Fits s) (tick : Nat) :
    c.elapsedAt tick ≤ tick + Tick.last := by
  unfold elapsedAt
  cases horigin : c.head.origin with
  | none =>
    rw [Option.getD_none]
    omega
  | some origin =>
    have hbounds := hc.origin origin horigin
    rw [Option.getD_some]
    omega

theorem Advances.fits {c : Cursor} {tick : Nat} {a : Advance} (hs : c.script.Valid)
    (htick : tick ≤ Tick.last) (h : c.Advances tick a) (hc : c.head.Fits c.script) :
    a.cursor.head.Fits c.script := by
  have hle := elapsedAt_le hc tick
  have hbound : Tick.last ≤ tick + Tick.last := Nat.le_add_left ..
  cases h with
  | ignored => exact hc
  | early =>
    -- a state that was restored without an origin is anchored at the tick itself
    refine ⟨hc.frame, ?_, hc.carried⟩
    intro origin horigin
    have hsame : c.head.origin.getD tick = origin := Option.some.inj horigin
    cases hset : c.head.origin with
    | none =>
      rw [hset, Option.getD_none] at hsame
      omega
    | some anchored =>
      rw [hset, Option.getD_some] at hsame
      exact hsame ▸ hc.origin anchored hset
  | starts => exact fits_settle c htick (Position.fits_start hs hbound _ hle)
  | runs =>
    have hruns := Position.runs_run c.script c.settings
      ⟨c.elapsedAt tick, c.head.frame, c.head.carried⟩
    exact fits_settle c htick (hruns.fits hs hbound ⟨hc.frame, hle, hc.carried⟩)

theorem Advances.entered_lt {c : Cursor} {tick : Nat} {a : Advance} (hs : c.script.Valid)
    (h : c.Advances tick a) {frame : Nat} (hmem : .entered frame ∈ a.log) :
    frame < c.script.count := by
  cases h with
  | ignored => simp at hmem
  | early => simp at hmem
  | starts => exact Position.entered_lt_start hs hmem
  | runs => exact (Position.runs_run ..).entered_lt hs hmem

theorem fits_goTo {c : Cursor} (hs : c.script.Valid) {tick : Nat} (htick : tick ≤ Tick.last)
    (hc : c.head.Fits c.script) (frame : Nat) : (c.goTo frame tick).2.head.Fits c.script := by
  rcases c.goTo_cases frame tick with hsame | ⟨start, hstart, hgoes⟩
  · rw [hsame]
    exact hc
  · obtain ⟨hlt, rfl⟩ := hs.start?_eq_some_iff.mp hstart
    have hclock := hs.before_le_last (Nat.le_of_lt hlt)
    rw [hgoes]
    refine ⟨hlt, ?_, c.script.fits_carriedThrough frame⟩
    intro origin horigin
    have hsame : (tick : Int) - c.script.before frame = origin := Option.some.inj horigin
    omega

theorem fits_restore {c : Cursor} (hc : c.head.Fits c.script) (n : Snapshot) :
    (c.restore n).2.head.Fits c.script := by
  by_cases hfits : n.Fits c.script
  · rw [← snapshot_fits_iff, (restore_of_fits hfits).2.2]
    exact hfits
  · rw [(restore_of_not_fits hfits).2]
    exact hc

/-- What can be done with a cursor. -/
inductive Operation where
  | advance (tick : Nat)
  | reset
  | goTo (frame tick : Nat)
  | restore (snapshot : Snapshot)

/-- The cursor after an operation, successful or not. -/
def Operation.apply (c : Cursor) : Operation → Cursor
  | .advance tick => (c.advance tick).cursor
  | .reset => c.reset
  | .goTo frame tick => (c.goTo frame tick).2
  | .restore snapshot => (c.restore snapshot).2

/-- The operation's tick is one that the clock can show. -/
def Operation.OnClock : Operation → Prop
  | .advance tick => tick ≤ Tick.last
  | .reset => True
  | .goTo _ tick => tick ≤ Tick.last
  | .restore _ => True

theorem Operation.script_apply (c : Cursor) (op : Operation) :
    (op.apply c).script = c.script := by
  cases op with
  | advance tick => exact (c.advances_advance tick).script_eq.1
  | reset => rfl
  | goTo frame tick =>
    rcases c.goTo_cases frame tick with hsame | ⟨start, _, hgoes⟩
    · exact congrArg Cursor.script hsame
    · show (c.goTo frame tick).2.script = c.script
      rw [hgoes]
  | restore n =>
    by_cases hfits : n.Fits c.script
    · exact (restore_of_fits hfits).2.1
    · exact congrArg Cursor.script (restore_of_not_fits hfits).2

theorem Operation.settings_apply (c : Cursor) (op : Operation) :
    (op.apply c).settings = c.settings := by
  cases op with
  | advance tick => exact (c.advances_advance tick).script_eq.2
  | reset => rfl
  | goTo frame tick =>
    rcases c.goTo_cases frame tick with hsame | ⟨start, _, hgoes⟩
    · exact congrArg Cursor.settings hsame
    · show (c.goTo frame tick).2.settings = c.settings
      rw [hgoes]
  | restore n =>
    show (c.restore n).2.settings = c.settings
    unfold Cursor.restore
    split <;> rfl

/-- Every operation keeps the state fitting. -/
theorem Operation.fits_apply {c : Cursor} (hs : c.script.Valid) (hc : c.head.Fits c.script)
    {op : Operation} (hop : op.OnClock) : (op.apply c).head.Fits c.script := by
  cases op with
  | advance tick => exact (c.advances_advance tick).fits hs hop hc
  | reset => exact fits_idle hs nofun
  | goTo frame tick => exact fits_goTo hs hop hc frame
  | restore n => exact fits_restore hc n

/-- The cursor after some operations. -/
def operate (c : Cursor) (ops : List Operation) : Cursor :=
  ops.foldl Operation.apply c

theorem fits_operate {ops : List Operation} :
    ∀ {c : Cursor}, c.script = s → s.Valid → c.head.Fits s → (∀ op ∈ ops, op.OnClock) →
      (c.operate ops).script = s ∧ (c.operate ops).head.Fits s := by
  induction ops with
  | nil => exact fun hscript _ hc _ => ⟨hscript, hc⟩
  | cons op rest ih =>
    intro c hscript hs hc hops
    subst hscript
    obtain ⟨hop, hrest⟩ := List.forall_mem_cons.mp hops
    exact ih (op.script_apply c) hs (op.fits_apply hs hc hop) hrest

/-- A snapshot is restored exactly if it fits the script, and otherwise changes nothing.
Fresh cursors fit, and a cursor that fits, whatever it was restored from, still does after
any operations on the clock; so its snapshot can be restored on every cursor over the
script. Neither the frame from which a tick starts nor a frame that is entered on the way
is ever missing, so the end of the present frame is always there to be looked up. -/
theorem restorable_throughout (hs : s.Reachable) :
    (∀ (c : Cursor) (n : Snapshot), c.script = s →
      ((c.restore n).1 = .ok () ↔ n.Fits s) ∧
        (n.Fits s → (c.restore n).2.snapshot = n) ∧ (¬ n.Fits s → (c.restore n).2 = c)) ∧
      (∀ settings, (Cursor.new s settings).snapshot.Fits s) ∧
      (∀ tick ≤ Tick.last, (Cursor.startingAt s tick).snapshot.Fits s) ∧
      ∀ (c : Cursor) (ops : List Operation), c.script = s → c.snapshot.Fits s →
        (∀ op ∈ ops, op.OnClock) →
        (c.operate ops).snapshot.Fits s ∧
          (∀ d : Cursor, d.script = s → (d.restore (c.operate ops).snapshot).1 = .ok ()) ∧
          (∃ finish, s.end? (c.operate ops).head.frame = some finish) ∧
          ∀ tick frame, .entered frame ∈ ((c.operate ops).advance tick).log →
            ∃ finish, s.end? frame = some finish := by
  refine ⟨?_, ?_, ?_, ?_⟩
  · intro c n hscript
    subst hscript
    refine ⟨⟨?_, fun h => (restore_of_fits h).1⟩, fun h => (restore_of_fits h).2.2,
      fun h => (restore_of_not_fits h).2⟩
    intro hok
    by_cases hfits : n.Fits c.script
    · exact hfits
    · obtain ⟨m, hm⟩ := (restore_of_not_fits hfits).1
      rw [hm] at hok
      cases hok
  · intro settings
    refine snapshot_fits_iff.mpr (fits_idle hs.valid ?_)
    intro origin horigin
    obtain rfl : 0 = origin := Option.some.inj horigin
    decide
  · intro tick htick
    refine snapshot_fits_iff.mpr (fits_idle hs.valid ?_)
    intro origin horigin
    obtain rfl : (tick : Int) = origin := Option.some.inj horigin
    omega
  · intro c ops hscript hfits hops
    obtain ⟨hscript', hfits'⟩ :=
      fits_operate hscript hs.valid (snapshot_fits_iff.mp hfits) hops
    refine ⟨snapshot_fits_iff.mpr hfits', ?_, ⟨_, hs.valid.end?_eq hfits'.frame⟩, ?_⟩
    · intro d hd
      exact (restore_of_fits (hd ▸ snapshot_fits_iff.mpr hfits')).1
    · intro tick frame hmem
      have hlt := ((c.operate ops).advances_advance tick).entered_lt (hscript' ▸ hs.valid) hmem
      rw [hscript'] at hlt
      exact ⟨_, hs.valid.end?_eq hlt⟩

/-- A state in which no cursor ever was is restored: it plays the second frame without an
origin and carries two records of one kind. After the clock's last tick and a seek beyond
the script its snapshot can still be restored elsewhere. -/
theorem restorable_after_foreign_state :
    Snapshot.Fits ⟨.playing, none, none, 1, [⟨4, some 3, 0⟩, ⟨4, none, 1⟩]⟩ Script.twoFrames ∧
      ((Cursor.startingAt Script.twoFrames 8).restore
        ((Cursor.new Script.twoFrames .standard).operate
          [.restore ⟨.playing, none, none, 1, [⟨4, some 3, 0⟩, ⟨4, none, 1⟩]⟩,
            .advance 4294967295,
            .goTo 7 3]).snapshot).1 = .ok () := by
  obtain ⟨_, hnew, _, hoperate⟩ := restorable_throughout Script.reachable_twoFrames
  have hfits : Snapshot.Fits ⟨.playing, none, none, 1, [⟨4, some 3, 0⟩, ⟨4, none, 1⟩]⟩
      Script.twoFrames := by
    refine ⟨by decide, nofun, ?_⟩
    intro e he
    have hkind : e.id = 4 ∧ e.frame < 2 := by
      simp at he
      rcases he with rfl | rfl <;> decide
    exact ⟨⟨.blendStart, by rw [hkind.1]; rfl, rfl⟩, hkind.2⟩
  refine ⟨hfits, (hoperate _ _ rfl (hnew .standard) ?_).2.1 _ rfl⟩
  intro op hop
  simp at hop
  rcases hop with rfl | rfl | rfl
  · trivial
  · show 4294967295 ≤ Tick.last
    decide
  · show 3 ≤ Tick.last
    decide

end Cursor

end Flipbook
