import Flipbook.Tag.Kind

/-!
# Codes as beginnings of a text

`candidates` looks a text's first three, two and one characters up in the vocabulary. Here
that look-up is said without looking: the candidates of a text are the kinds whose code
begins it (`mem_candidates_iff`), the longer code first (`candidates_pairwise`), so that
the first of them is the kind with the longest code of all that begin the text
(`head?_candidates_eq_some_iff`).

Codes may begin one another, but not in just any way. `code_extends` lists how: the
shorter code always needs a number, and the longer one goes on with a character that
cannot begin a number, or else with a single sign after which it needs a number itself.
That is what makes reading the longest code safe.
-/

namespace Flipbook.Tag.Kind

theorem mem_all (kind : Kind) : kind ∈ all := by
  cases kind <;> decide

/-- No two kinds share a code. -/
theorem eq_of_code_eq {kind other : Kind} (h : kind.code = other.code) : kind = other := by
  -- the vocabulary is finite: all pairs are compared
  have hall : ∀ k ∈ all, ∀ o ∈ all, k.code = o.code → k = o := by decide
  exact hall kind (mem_all kind) other (mem_all other) h

theorem code_length_mem (kind : Kind) : kind.code.length ∈ [3, 2, 1] := by
  cases kind <;> decide

/-- A code looked up gives its kind and no other. -/
theorem ofCode?_eq_some_iff {code : List Char} {kind : Kind} :
    ofCode? code = some kind ↔ kind.code = code := by
  unfold ofCode?
  refine ⟨?_, ?_⟩
  · intro h
    have hk := List.find?_some h
    simpa using hk
  · intro h
    cases hf : all.find? (·.code == code) with
    | none =>
      rw [List.find?_eq_none] at hf
      exact absurd (by simpa using h) (hf kind (mem_all kind))
    | some other =>
      have ho : other.code = code := by simpa using List.find?_some hf
      rw [eq_of_code_eq (ho.trans h.symm)]

/-- A mnemonic is that of one kind at most. -/
theorem ofMnemonic?_eq_some_iff {mnemonic : String} {kind : Kind} :
    ofMnemonic? mnemonic = some kind ↔ kind.mnemonic = mnemonic := by
  unfold ofMnemonic? Kind.mnemonic
  rw [ofCode?_eq_some_iff, ← String.toList_inj, String.toList_ofList]

/-! ## Looking up the starts of a text -/

section Search

variable {α : Type} {look : List α → Option Kind} {find : Nat → Option Kind}
    {Starts : Kind → Prop}
  {key text : List α} {n : Nat} {kind : Kind}

/-- Where only its key is looked up with success, a kind is found at the start of a text
if its key begins the text and is as long as the start. -/
theorem look_take_eq_some_iff (hlook : ∀ start, look start = some kind ↔ key = start) :
    (if (text.take n).length = n then look (text.take n) else none) = some kind ↔
      key <+: text ∧ key.length = n := by
  refine ⟨?_, ?_⟩
  · intro h
    split at h
    next hlen =>
      have hkey := (hlook _).mp h
      rw [hkey]
      exact ⟨List.take_prefix n text, hlen⟩
    next => cases h
  · intro h
    obtain ⟨hpre, hlen⟩ := h
    have htake : text.take n = key := by
      rw [← hlen]
      exact (List.prefix_iff_eq_take.mp hpre).symm
    rw [htake, if_pos hlen]
    exact (hlook _).mpr rfl

/-- A search that goes through all lengths of codes loses no kind. -/
theorem mem_filterMap_find_iff
    (hfind : ∀ n kind, find n = some kind ↔ Starts kind ∧ kind.code.length = n) :
    kind ∈ [3, 2, 1].filterMap find ↔ Starts kind := by
  rw [List.mem_filterMap]
  refine ⟨?_, ?_⟩
  · intro h
    obtain ⟨n, _, h⟩ := h
    exact ((hfind n kind).mp h).1
  · intro h
    exact ⟨kind.code.length, code_length_mem kind, (hfind _ kind).mpr ⟨h, rfl⟩⟩

/-- A search that goes through the lengths in falling order finds the longer code first. -/
theorem pairwise_filterMap_find
    (hfind : ∀ n kind, find n = some kind ↔ Starts kind ∧ kind.code.length = n) :
    ([3, 2, 1].filterMap find).Pairwise fun a b => b.code.length < a.code.length := by
  rw [List.pairwise_filterMap]
  have hdesc : [3, 2, 1].Pairwise fun m n : Nat => n < m := by decide
  refine hdesc.imp ?_
  intro m n hmn a ha b hb
  rw [((hfind m a).mp ha).2, ((hfind n b).mp hb).2]
  exact hmn

end Search

/-- The candidate of a length is the kind whose code has this length and begins the text. -/
theorem candidate?_eq_some_iff {text : List Char} {n : Nat} {kind : Kind} :
    candidate? text n = some kind ↔ kind.code <+: text ∧ kind.code.length = n :=
  look_take_eq_some_iff fun _ => ofCode?_eq_some_iff

/-- The candidates of a text are the kinds whose code begins it. -/
theorem mem_candidates_iff {text : List Char} {kind : Kind} :
    kind ∈ candidates text ↔ kind.code <+: text :=
  mem_filterMap_find_iff fun _ _ => candidate?_eq_some_iff

/-- Of two candidates the one with the longer code comes first. -/
theorem candidates_pairwise (text : List Char) :
    (candidates text).Pairwise fun a b => b.code.length < a.code.length :=
  pairwise_filterMap_find fun _ _ => candidate?_eq_some_iff

/-- The kind whose code begins the text and is the longest to do so. -/
structure Longest (kind : Kind) (text : List Char) : Prop where
  starts : kind.code <+: text
  longest : ∀ other : Kind, other.code <+: text → other.code.length ≤ kind.code.length

/-- The first candidate is the kind with the longest code. -/
theorem head?_candidates_eq_some_iff {text : List Char} {kind : Kind} :
    (candidates text).head? = some kind ↔ kind.Longest text := by
  have hdesc := candidates_pairwise text
  refine ⟨?_, ?_⟩
  · intro h
    obtain ⟨rest, hrest⟩ := List.head?_eq_some_iff.mp h
    rw [hrest, List.pairwise_cons] at hdesc
    refine ⟨mem_candidates_iff.mp (by rw [hrest]; exact List.mem_cons_self ..), ?_⟩
    intro other ho
    have hmem := mem_candidates_iff.mpr ho
    rw [hrest] at hmem
    rcases List.mem_cons.mp hmem with rfl | hin
    · exact Nat.le_refl _
    · exact Nat.le_of_lt (hdesc.1 other hin)
  · intro h
    obtain ⟨hstarts, hlongest⟩ := h
    have hmem := mem_candidates_iff.mpr hstarts
    cases hc : candidates text with
    | nil => rw [hc] at hmem; cases hmem
    | cons first rest =>
      rw [hc] at hmem hdesc
      rw [List.pairwise_cons] at hdesc
      rcases List.mem_cons.mp hmem with rfl | hin
      · rfl
      · -- a longer code at the front would begin the text as well
        have hfirst : first.code <+: text :=
          mem_candidates_iff.mp (by rw [hc]; exact List.mem_cons_self ..)
        have hlt := hdesc.1 kind hin
        have hle := hlongest first hfirst
        omega

theorem candidates_eq_nil_iff {text : List Char} :
    candidates text = [] ↔ ∀ kind : Kind, ¬ kind.code <+: text := by
  rw [List.eq_nil_iff_forall_not_mem]
  refine ⟨?_, ?_⟩
  · intro h kind hpre
    exact h kind (mem_candidates_iff.mpr hpre)
  · intro h kind hmem
    exact h kind (mem_candidates_iff.mp hmem)

/-- What the code of `kind` has beyond the code of `other`. -/
def beyond (kind other : Kind) : List Char :=
  kind.code.drop other.code.length

/-- A code that begins another one needs a number. The longer code goes on with one sign,
after which it needs a number as well, and only the two bare axes are gone on with like
that; or it goes on with a character that no number begins with. -/
theorem code_extends {kind other : Kind} (h : other.code <+: kind.code) (hne : other ≠ kind) :
    other.parameter = .required ∧
      ((kind.beyond other = ['+'] ∨ kind.beyond other = ['-']) ∧
          other.bareAxis ∧ kind.parameter = .required ∨
        (kind.beyond other).head?.any fun c => !c.isDigit && c != '+' && c != '-') := by
  have hall : ∀ k ∈ all, ∀ o ∈ all, o.code <+: k.code → o ≠ k →
      o.parameter = .required ∧
        ((k.beyond o = ['+'] ∨ k.beyond o = ['-']) ∧ o.bareAxis ∧ k.parameter = .required ∨
          (k.beyond o).head?.any fun c => !c.isDigit && c != '+' && c != '-') := by
    decide
  exact hall kind (mem_all kind) other (mem_all other) h hne

/-- Both signs after the code of a bare axis make the code of a step along that axis. -/
theorem exists_code_eq_append_sign {kind : Kind} (h : kind.bareAxis = true) :
    (∃ step : Kind, step.code = kind.code ++ ['+']) ∧
      ∃ step : Kind, step.code = kind.code ++ ['-'] := by
  cases kind <;> cases h
  · exact ⟨⟨.xIncrement, rfl⟩, ⟨.xDecrement, rfl⟩⟩
  · exact ⟨⟨.yIncrement, rfl⟩, ⟨.yDecrement, rfl⟩⟩

/-- A code is the longest that begins a text if none of the codes that it begins goes
on like the text. -/
theorem longest_append {kind : Kind} {after : List Char}
    (h : ∀ other : Kind, kind.code <+: other.code → kind ≠ other →
      ¬ other.beyond kind <+: after) :
    kind.Longest (kind.code ++ after) := by
  refine ⟨List.prefix_append _ _, ?_⟩
  intro other ho
  rcases Nat.lt_or_ge kind.code.length other.code.length with hlt | hge
  · -- a longer code would begin with this one and go on like the text
    exfalso
    have hpre : kind.code <+: other.code :=
      List.prefix_of_prefix_length_le (List.prefix_append _ _) ho (Nat.le_of_lt hlt)
    have hsplit : other.code = kind.code ++ other.beyond kind :=
      (List.prefix_iff_eq_append.mp hpre).symm
    rw [hsplit, List.prefix_append_right_inj] at ho
    refine h other hpre ?_ ho
    intro heq
    subst heq
    exact Nat.lt_irrefl _ hlt
  · exact hge

end Flipbook.Tag.Kind
