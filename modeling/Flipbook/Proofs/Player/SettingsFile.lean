import Flipbook.Player.SettingsFile
import Flipbook.Proofs.Toml.Lines

/-!
# Settings are read as they were written

Main statement: `ofDocument_kept_lines`. Settings are written with a line for each field
that is set, and what is written is read as the same settings. Lines may be left out: the
fields that they were for are then standard, and the others are what they were.

This holds for every library that keeps to `Library.Lawful`, which says nothing of
settings. What is settings' own business is that all their entries are plain
(`plainEntry_of_mem`), of the end frame by its 64 bits, and that each entry puts back what
it was taken from (`set?_of_mem`). So whichever entries are left, they make of the
standard settings those that have these fields (`foldlM_set?`).
-/

namespace Flipbook.Settings

open Toml (Library Value PlainEntry)

variable {settings : Settings} {entry : String × Value} {kept : List (String × Value)}

/-! ## Entries -/

theorem entries_eq (settings : Settings) :
    declaration.entries settings =
      ("jump_mode", .word settings.jumpRule.name) :: ("repeat", .boolean settings.repeats) ::
        (settings.endFrame.map fun index => ("end_frame", .natural index)).toList := by
  obtain ⟨rule, repeats, _ | index⟩ := settings <;> rfl

theorem keys_eq (settings : Settings) :
    (declaration.entries settings).map Prod.fst =
      ["jump_mode", "repeat"] ++ if settings.endFrame.isSome then ["end_frame"] else [] := by
  obtain ⟨rule, repeats, _ | index⟩ := settings <;> rfl

theorem keys_nodup (settings : Settings) :
    ((declaration.entries settings).map Prod.fst).Nodup := by
  have hall : ∀ ended : Bool,
      (["jump_mode", "repeat"] ++ if ended then ["end_frame"] else []).Nodup := by decide
  rw [keys_eq]
  exact hall _

theorem plainEntry_of_mem
    (hend : ∀ index, settings.endFrame = some index → index < UInt64.size)
    (h : entry ∈ declaration.entries settings) : PlainEntry entry := by
  rw [entries_eq, List.mem_cons, List.mem_cons, Option.mem_toList, Option.map_eq_some_iff] at h
  rcases h with rfl | rfl | ⟨index, hindex, rfl⟩
  · have hname : settings.jumpRule.name.toList.all Toml.isBareKey = true := by
      cases settings.jumpRule <;> decide
    exact Toml.plainEntry (by decide) (by decide) (List.all_eq_true.mp hname)
  · exact Toml.plainEntry (by decide) (by decide) trivial
  · exact Toml.plainEntry (by decide) (by decide) (hend index hindex)

/-! ## What is left of settings -/

/-- Other settings with what these have under some keys. -/
def onto (settings other : Settings) (keys : List String) : Settings where
  jumpRule := if "jump_mode" ∈ keys then settings.jumpRule else other.jumpRule
  repeats := if "repeat" ∈ keys then settings.repeats else other.repeats
  endFrame := if "end_frame" ∈ keys then settings.endFrame else other.endFrame

/-- Settings that are standard but under some keys. -/
def restrict (settings : Settings) (keys : List String) : Settings :=
  settings.onto standard keys

theorem onto_cons (settings other : Settings) (key : String) (keys : List String) :
    settings.onto (settings.onto other [key]) keys = settings.onto other (key :: keys) := by
  simp only [onto, List.mem_cons, List.not_mem_nil, or_false]
  grind

theorem ofName?_name (rule : JumpRule) : JumpRule.ofName? rule.name = some rule := by
  cases rule <;> decide

/-- An entry of settings puts into other settings what these have under its key. -/
theorem set?_of_mem (hend : ∀ index, settings.endFrame = some index → index < UInt64.size)
    (h : entry ∈ declaration.entries settings) (other : Settings) :
    declaration.set? other entry = some (settings.onto other [entry.1]) := by
  rw [entries_eq, List.mem_cons, List.mem_cons, Option.mem_toList, Option.map_eq_some_iff] at h
  rcases h with rfl | rfl | ⟨index, hindex, rfl⟩
  · show (JumpRule.ofName? settings.jumpRule.name).map _ = _
    rw [ofName?_name]
    rfl
  · rfl
  · have hlast : index ≤ lastEndFrame := Nat.le_of_lt_succ (hend index hindex)
    have hset : declaration.set? other ("end_frame", .natural index) =
        some { other with endFrame := some index } := if_pos hlast
    rw [hset, ← hindex]
    rfl

/-- Entries of settings, one after another, put into other settings what these have
under their keys. -/
theorem foldlM_set? (hend : ∀ index, settings.endFrame = some index → index < UInt64.size)
    (h : ∀ entry ∈ kept, entry ∈ declaration.entries settings) (other : Settings) :
    kept.foldlM declaration.set? other = some (settings.onto other (kept.map Prod.fst)) := by
  induction kept generalizing other with
  | nil => rfl
  | cons entry kept ih =>
    obtain ⟨hentry, hkept⟩ := List.forall_mem_cons.mp h
    rw [List.foldlM_cons, set?_of_mem hend hentry, Option.bind_eq_bind, Option.bind_some,
      ih hkept, onto_cons, List.map_cons]

/-- Settings are standard under every key that they have no entry for. -/
theorem restrict_keys (settings : Settings) :
    settings.restrict ((declaration.entries settings).map Prod.fst) = settings := by
  rw [keys_eq]
  obtain ⟨rule, repeats, _ | index⟩ := settings <;> rfl

/-! ## Lines -/

/-- The lines of settings, with values spelled as told. -/
def lines (spell : Value → String) (settings : Settings) : List String :=
  (declaration.entries settings).map (Toml.line spell)

theorem keyOf_lines (hend : ∀ index, settings.endFrame = some index → index < UInt64.size)
    (spell : Value → String) :
    (settings.lines spell).map Toml.keyOf = (declaration.entries settings).map Prod.fst :=
  Toml.map_keyOf_line fun _ hentry => plainEntry_of_mem hend hentry

/-- Lines that are left are read as the settings that are left. -/
theorem ofDocument_of_sublist {library : Library} {spell : Value → String}
    (hlibrary : library.Lawful spell)
    (hend : ∀ index, settings.endFrame = some index → index < UInt64.size) {kept : List String}
    (hkept : kept.Sublist (settings.lines spell)) :
    ofDocument library (Toml.ofLines kept) =
      .ok (settings.restrict (kept.map Toml.keyOf)) := by
  obtain ⟨entries, hentries, rfl⟩ := List.sublist_map_iff.mp hkept
  have hplain : ∀ entry ∈ entries, PlainEntry entry :=
    fun entry hentry => plainEntry_of_mem hend (hentries.mem hentry)
  have hnodup : (entries.map Prod.fst).Nodup :=
    (hentries.map Prod.fst).nodup (keys_nodup settings)
  have hleft : declaration.ofEntries? entries =
      some (settings.restrict (entries.map Prod.fst)) :=
    foldlM_set? hend (fun entry hentry => hentries.mem hentry) standard
  rw [ofDocument, hlibrary.read_eq declaration entries _ hplain hnodup hleft,
    Toml.map_keyOf_line hplain]
  rfl

/-- With a lawful library, settings are written with one line for each field that is set,
in the order of the fields, if their end frame has 64 bits. What is written is read as the
settings. When lines are left out of it, what is left is read as settings that are
standard in the fields of the lines left out, and as before in the others. -/
theorem ofDocument_kept_lines {library : Library} {spell : Value → String}
    (hlibrary : library.Lawful spell) (settings : Settings)
    (hend : ∀ index, settings.endFrame = some index → index < UInt64.size) :
    (settings.lines spell).map Toml.keyOf =
        ["jump_mode", "repeat"] ++ (if settings.endFrame.isSome then ["end_frame"] else []) ∧
      (∀ line ∈ settings.lines spell, '\n' ∉ line.toList) ∧
      settings.toDocument library = .ok (Toml.ofLines (settings.lines spell)) ∧
      ofDocument library (Toml.ofLines (settings.lines spell)) = .ok settings ∧
      ∀ kept : List String, kept.Sublist (settings.lines spell) →
        ofDocument library (Toml.ofLines kept) =
          .ok (settings.restrict (kept.map Toml.keyOf)) := by
  have hplain : ∀ entry ∈ declaration.entries settings, PlainEntry entry :=
    fun entry hentry => plainEntry_of_mem hend hentry
  refine ⟨?_, ?_, ?_, ?_, fun kept hkept => ofDocument_of_sublist hlibrary hend hkept⟩
  · rw [keyOf_lines hend, keys_eq]
  · intro line hline
    obtain ⟨entry, hentry, rfl⟩ := List.mem_map.mp hline
    exact hlibrary.line_oneLine (hplain entry hentry)
  · rw [toDocument, hlibrary.write_eq declaration settings hplain (keys_nodup settings)]
    rfl
  · rw [ofDocument_of_sublist hlibrary hend (List.Sublist.refl _), keyOf_lines hend,
      restrict_keys]

/-- The library of this project, the greatest end frame, and the line before it left out. -/
theorem ofDocument_kept_lines_without_repeat :
    let settings : Settings := ⟨.relative, true, some 18446744073709551615⟩
    Toml.library.Lawful Toml.spell ∧
      (∀ index, settings.endFrame = some index → index < UInt64.size) ∧
      settings.toDocument Toml.library =
        .ok "jump_mode = \"relative\"\nrepeat = true\nend_frame = 18446744073709551615\n" ∧
      ofDocument Toml.library "jump_mode = \"relative\"\nend_frame = 18446744073709551615\n" =
        .ok ⟨.relative, false, some 18446744073709551615⟩ := by
  intro settings
  have hend : ∀ index, settings.endFrame = some index → index < UInt64.size := by
    rintro index ⟨⟩
    decide
  obtain ⟨_, _, hwritten, _, hleft⟩ := ofDocument_kept_lines Toml.library_lawful settings hend
  have hlines : settings.lines Toml.spell =
      ["jump_mode = \"relative\"", "repeat = true", "end_frame = 18446744073709551615"] := by
    decide +kernel
  let kept := ["jump_mode = \"relative\"", "end_frame = 18446744073709551615"]
  have hkept : kept.Sublist (settings.lines Toml.spell) := by
    rw [hlines]
    exact .cons_cons _ (.cons _ (List.Sublist.refl _))
  have hall : Toml.ofLines (settings.lines Toml.spell) =
      "jump_mode = \"relative\"\nrepeat = true\nend_frame = 18446744073709551615\n" := by
    decide +kernel
  have htext : Toml.ofLines kept =
      "jump_mode = \"relative\"\nend_frame = 18446744073709551615\n" := by decide +kernel
  have hrestrict : settings.restrict (kept.map Toml.keyOf) =
      ⟨.relative, false, some 18446744073709551615⟩ := by decide +kernel
  have hread := hleft kept hkept
  rw [hall] at hwritten
  rw [htext, hrestrict] at hread
  exact ⟨Toml.library_lawful, hend, hwritten, hread⟩

end Flipbook.Settings
