import Flipbook.Proofs.Player.Lockstep

/-!
# Playback at another time

Main statement: `plays_alike_later`. When playback takes place does not matter, only how
much time passes, and a reset forgets everything: a cursor that has been reset plays at
any later time what a fresh one plays from tick zero on.

Both the last tick and the origin are outside ticks, and a tick is only ever compared with
the former and measured from the latter. So moving a cursor to a later time and feeding it
a tick are one in either order (`advance_later`). A reset cursor has no origin to be
moved, but its first tick gives it the one that the moved cursor has (`advance_idle`).
-/

namespace Flipbook

/-- The state at a later time. -/
def Playhead.later (head : Playhead) (k : Nat) : Playhead :=
  { head with
    lastTick := head.lastTick.map (· + k)
    origin := head.origin.map (· + (k : Int)) }

namespace Cursor

/-- The cursor at a later time. -/
def later (c : Cursor) (k : Nat) : Cursor :=
  { c with head := c.head.later k }

variable {c : Cursor} {k tick : Nat}

theorem isOlder_later (c : Cursor) (k tick : Nat) :
    (c.later k).head.lastTick.any (tick + k < ·) = c.head.lastTick.any (tick < ·) := by
  show (c.head.lastTick.map (· + k)).any (tick + k < ·) = _
  cases c.head.lastTick with
  | none => rfl
  | some earlier => simp

theorem origin_later (c : Cursor) (k tick : Nat) :
    (c.later k).head.origin.getD ((tick + k : Nat) : Int) =
      c.head.origin.getD (tick : Int) + k := by
  show (c.head.origin.map (· + (k : Int))).getD _ = _
  cases c.head.origin with
  | none => simp
  | some origin => rfl

theorem settle_later (c : Cursor) (k tick : Nat) (o : Outcome) :
    (c.later k).settle (tick + k) o =
      ⟨(c.settle tick o).cursor.later k, (c.settle tick o).log⟩ := by
  have horigin : ((tick + k : Nat) : Int) - o.position.elapsed =
      tick - o.position.elapsed + k := by omega
  unfold settle later Playhead.later
  simp only [horigin, Option.map_some]

/-- A later cursor does at a later tick what the cursor does at the tick. -/
theorem advance_later (c : Cursor) (k tick : Nat) :
    (c.later k).advance (tick + k) =
      ⟨(c.advance tick).cursor.later k, (c.advance tick).log⟩ := by
  have hphase : (c.later k).head.phase = c.head.phase := rfl
  unfold Cursor.advance
  rw [hphase, isOlder_later, origin_later]
  split
  next => rfl
  next =>
    simp only
    generalize c.head.origin.getD (tick : Int) = origin
    have hbefore : ((tick + k : Nat) : Int) < origin + k ↔ (tick : Int) < origin := by omega
    have helapsed : ((tick + k : Nat) : Int) - (origin + k) = tick - origin := by omega
    simp only [hbefore, helapsed]
    split
    next => rfl
    next =>
      split
      next => exact c.settle_later k tick _
      next => exact c.settle_later k tick _

/-- Without an origin a tick becomes the origin, as if it had been one before. -/
theorem advance_idle (script : Script) (settings : Settings) (tick : Nat) :
    (Cursor.mk script settings (.idle none)).advance tick =
      (Cursor.mk script settings (.idle (some tick))).advance tick :=
  rfl

/-! ## What an onlooker sees -/

/-- There is a last tick, and an origin from which it is measured. -/
def Anchored (c : Cursor) : Prop :=
  ∃ last origin, c.head.lastTick = some last ∧ c.head.origin = some origin

/-- The cursors show the same, and the clock of the second one is `k` ticks ahead. -/
structure SameLater (k : Nat) (c c' : Cursor) : Prop where
  phase : c'.head.phase = c.head.phase
  frame : c'.head.frame = c.head.frame
  elapsed : c'.elapsed = c.elapsed
  carried : c'.head.carried = c.head.carried
  active : ∀ mnemonic, c'.active? mnemonic = c.active? mnemonic
  clock : ∃ last origin, c.head.lastTick = some last ∧ c'.head.lastTick = some (last + k) ∧
    c.head.origin = some origin ∧ c'.head.origin = some (origin + k)

theorem Anchored.sameLater (h : c.Anchored) (k : Nat) : SameLater k c (c.later k) := by
  obtain ⟨last, origin, hlast, horigin⟩ := h
  have hlast' : (c.later k).head.lastTick = some (last + k) := by
    show c.head.lastTick.map (· + k) = _
    rw [hlast]
    rfl
  have horigin' : (c.later k).head.origin = some (origin + k) := by
    show c.head.origin.map (· + (k : Int)) = _
    rw [horigin]
    rfl
  refine ⟨rfl, rfl, ?_, rfl, fun _ => rfl, last, origin, hlast, hlast', horigin, horigin'⟩
  have hsame : ((last + k : Nat) : Int) - (origin + k) = last - origin := by omega
  simp only [Cursor.elapsed, elapsedAt, hlast, hlast', horigin, horigin', Option.getD_some,
    hsame]

theorem Advances.anchored {a : Advance} (h : c.Advances tick a)
    (hc : c.Anchored ∨ c.head.phase = .idle ∧ c.head.lastTick = none) : a.cursor.Anchored := by
  cases h with
  | ignored deaf =>
    rcases hc with hanchored | ⟨hidle, hfirst⟩
    · exact hanchored
    · -- a first tick is not ignored
      simp [hidle, hfirst] at deaf
  | early => exact ⟨tick, _, rfl, rfl⟩
  | starts => exact ⟨tick, _, rfl, rfl⟩
  | runs => exact ⟨tick, _, rfl, rfl⟩

/-! ## Playing the same ticks later -/

/-- Ticks later are answered as the ticks were, from a first one on that does the same. -/
theorem history_later {c' : Cursor} (hidle : c.head.phase = .idle)
    (hfirst : c.head.lastTick = none)
    {first : Nat} (hsame : c'.advance (first + k) = (c.later k).advance (first + k))
    (ticks : List Nat) :
    List.Forall₂ (fun a a' => a.1 = a'.1 ∧ SameLater k a.2 a'.2)
      (c.history ((first :: ticks).map .advance))
      (c'.history ((first :: ticks).map fun tick => .advance (tick + k))) := by
  have hstep : ∀ tick ∈ ticks, ∀ c c' : Cursor, c.Anchored ∧ c' = c.later k →
      (Operation.advance tick).reply c = (Operation.advance (tick + k)).reply c' ∧
        (c.advance tick).cursor.Anchored ∧
          (c'.advance (tick + k)).cursor = (c.advance tick).cursor.later k := by
    rintro tick _ c _ ⟨hanchored, rfl⟩
    simp only [Operation.reply, advance_later]
    exact ⟨rfl, (c.advances_advance tick).anchored (.inl hanchored), trivial⟩
  have hanchored := (c.advances_advance first).anchored (.inr ⟨hidle, hfirst⟩)
  rw [advance_later] at hsame
  have hlater : (c'.advance (first + k)).cursor = (c.advance first).cursor.later k := by
    rw [hsame]
  have hchanged : (c'.advance (first + k)).changed = (c.advance first).changed := by
    rw [hsame]
    rfl
  have hrest := forall₂_history_map hstep ⟨hanchored, hlater⟩
  refine .cons ⟨congrArg Reply.changed hchanged.symm, ?_⟩ (hrest.imp ?_)
  · show SameLater k (c.advance first).cursor (c'.advance (first + k)).cursor
    rw [hlater]
    exact hanchored.sameLater k
  · rintro a a' ⟨hreply, hanchored, hlater⟩
    rw [hlater]
    exact ⟨hreply, hanchored.sameLater k⟩

/-- What a fresh cursor plays at ticks from zero on, in whatever order they come, a cursor
that has been reset plays at the same ticks later, whatever it has been through; and so
does a cursor that starts at the later tick. -/
theorem plays_alike_later (k : Nat) (ticks : List Nat) :
    (∀ c : Cursor,
      List.Forall₂ (fun a a' => a.1 = a'.1 ∧ SameLater k a.2 a'.2)
        ((Cursor.new c.script c.settings).history ((0 :: ticks).map .advance))
        (c.reset.history ((0 :: ticks).map fun tick => .advance (tick + k)))) ∧
      ∀ s : Script,
        List.Forall₂ (fun a a' => a.1 = a'.1 ∧ SameLater k a.2 a'.2)
          ((Cursor.new s .standard).history ((0 :: ticks).map .advance))
          ((Cursor.startingAt s k).history
            ((0 :: ticks).map fun tick => .advance (tick + k))) := by
  have hmoved : ∀ (s : Script) (settings : Settings),
      (Cursor.new s settings).later k = ⟨s, settings, .idle (some k)⟩ := by
    intro s settings
    simp [Cursor.new, later, Playhead.later, Playhead.idle]
  constructor
  · intro c
    refine history_later rfl rfl ?_ ticks
    rw [hmoved, Nat.zero_add]
    exact advance_idle c.script c.settings k
  · intro s
    refine history_later rfl rfl ?_ ticks
    rw [hmoved]
    rfl

end Cursor

end Flipbook
