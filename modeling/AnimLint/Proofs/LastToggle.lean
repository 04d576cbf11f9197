/-
AnimLint/Proofs/LastToggle.lean

Which lines the comments of a script silence, line by line.  A comment holds a
directive if its text starts with the word for it and the word ends there
(`Directive.parse_eq_some_iff`); no text starts with two of them.  In the order
of their lines, where those of one line stay as they were met, the directives
tell for each line whether it is silenced: the last `disable` or `enable` up to
the line is a `disable`, or a directive for the next line stands on the line
before (`covers_iff_last_toggle`).
-/
import AnimLint.Proofs.CommentOrder

namespace AnimLint

open Text Script

/-! ### The directive in a comment -/

namespace Directive

/-- Holds if a comment starts with the word for a directive, and nothing or a
blank follows the word; blanks around the text do not count. -/
def StandsIn (d : Directive) (comment : List Char) : Prop :=
  ∃ rest, trim comment = d.word.toList ++ rest ∧ ∀ b ∈ rest.head?, isBlank b = true

theorem opens_iff {word text : List Char} : opens word text = true ↔
    ∃ rest, text = word ++ rest ∧ ∀ b ∈ rest.head?, isBlank b = true := by
  induction word generalizing text with
  | nil => cases text <;> simp [opens]
  | cons w word ih =>
    cases text with
    | nil => simp [opens]
    | cons c text =>
      rw [opens, Bool.and_eq_true, beq_iff_eq, ih]
      constructor
      · rintro ⟨rfl, rest, rfl, hrest⟩
        exact ⟨rest, rfl, hrest⟩
      · rintro ⟨rest, htext, hrest⟩
        obtain ⟨rfl, rfl⟩ := List.cons.inj htext
        exact ⟨rfl, rest, rfl, hrest⟩

/-- Of two words that a text starts with, one starts with the other. -/
theorem opens_or_opens {word word' text : List Char} (h : opens word text = true)
    (h' : opens word' text = true) : word = word' ∨ opens word word' = true ∨
    opens word' word = true := by
  induction word generalizing word' text with
  | nil =>
    cases word' with
    | nil => exact .inl rfl
    | cons w' word' =>
      cases text with
      | nil => cases h'
      | cons c text =>
        rw [opens, Bool.and_eq_true, beq_iff_eq] at h'
        obtain ⟨rfl, -⟩ := h'
        exact .inr (.inl h)
  | cons w word ih =>
    cases text with
    | nil => cases h
    | cons c text =>
      cases word' with
      | nil =>
        rw [opens, Bool.and_eq_true, beq_iff_eq] at h
        obtain ⟨rfl, -⟩ := h
        exact .inr (.inr h')
      | cons w' word' =>
        simp only [opens, Bool.and_eq_true, beq_iff_eq] at h h'
        obtain ⟨rfl, h⟩ := h
        obtain ⟨rfl, h'⟩ := h'
        simpa [opens] using ih h h'

/-- A comment holds one directive at most. -/
theorem eq_of_opens {d d' : Directive} {text : List Char}
    (h : opens d.word.toList text = true)
    (h' : opens d'.word.toList text = true) : d = d' := by
  have hwords := opens_or_opens h h'
  revert hwords
  cases d <;> cases d' <;> decide

theorem opens_of_parse {comment : List Char} {d : Directive}
    (h : parse? comment = some d) :
    opens d.word.toList (trim comment) = true := by
  unfold parse? at h
  have hfound := List.find?_some h
  exact hfound

/-- The directive in a comment is the one that stands in it. -/
theorem parse_eq_some_iff {comment : List Char} {d : Directive} :
    parse? comment = some d ↔ d.StandsIn comment := by
  rw [StandsIn, ← opens_iff]
  constructor
  · exact opens_of_parse
  · intro h
    rcases hparse : parse? comment with - | d'
    · have hmem : d ∈ [disableNextLine, disable, enable] := by cases d <;> simp
      exact absurd h (List.find?_eq_none.1 hparse d hmem)
    · exact congrArg some (eq_of_opens (opens_of_parse hparse) h)

end Directive

/-! ### The last directive that opens or closes a stretch -/

namespace Silence

/-- The last `disable` or `enable` up to a line, if there is one. -/
def lastToggle? (line : Nat) (ds : List (Nat × Directive)) : Option (Nat × Directive) :=
  (ds.filter fun d => d.2.toggles && d.1 ≤ line).getLast?

theorem lastToggle_concat (line : Nat) (ds : List (Nat × Directive))
    (d : Nat × Directive) :
    lastToggle? line (ds ++ [d]) =
      if d.2.toggles = true ∧ d.1 ≤ line then some d else lastToggle? line ds := by
  rw [lastToggle?, List.filter_append]
  split
  · next h => simp [h]
  · next h => simp [h, lastToggle?]

/-- A stretch is open on a line if the last directive to open or close one opens
it. -/
theorem inForce_iff_lastToggle (line : Nat) (ds : List (Nat × Directive)) :
    inForce false (upTo line ds) = true ↔
      ∃ n, lastToggle? line ds = some (n, .disable) := by
  induction ds using List.reverseRecOn with
  | nil => simp [upTo, inForce, lastToggle?]
  | append_singleton ds d ih =>
    rw [inForce_concat, lastToggle_concat]
    split
    · obtain ⟨n, directive⟩ := d
      simp
    · exact ih

/-- The directives of one line come as they were met. -/
theorem filter_inOrder (n : Nat) (ds : List (Nat × Directive)) :
    (inOrder ds).filter (·.1 == n) = ds.filter (·.1 == n) :=
  filter_sortBy
    (fun a b ha hb => by simp only [beq_iff_eq, decide_eq_true_eq] at *; omega) ds

/-- The lines that directives silence, whatever order they come in. -/
theorem covers_iff {ds : List (Nat × Directive)} (hpos : ∀ d ∈ ds, 0 < d.1) (line : Nat) :
    (ofDirectives ds).covers line = true ↔
      (∃ n, (n, .disableNextLine) ∈ ds ∧ n + 1 = line) ∨
        ∃ n, lastToggle? line (inOrder ds) = some (n, .disable) := by
  rw [← ofDirectives_inOrder, covers_ofDirectives line (pairwise_inOrder ds)
    fun d hd => hpos d (mem_inOrder.1 hd), Bool.or_eq_true, inForce_iff_lastToggle]
  refine or_congr_left ?_
  simp only [List.any_eq_true, mem_inOrder, Bool.and_eq_true, beq_iff_eq]
  constructor
  · rintro ⟨⟨n, d⟩, hd, rfl, hline⟩
    exact ⟨n, hd, hline⟩
  · rintro ⟨n, hd, hline⟩
    exact ⟨(n, .disableNextLine), hd, rfl, hline⟩

end Silence

/-! ### The lines of a script -/

/-- **A line is silenced if the directives say so.**  The directives of a script
are those that stand in its comments, with the lines of the comments, and they
are taken in the order of these lines, those of one line as they were met.  A
line is silenced if a directive for the next line stands on the line before, or
if the last `disable` or `enable` up to the line is a `disable`; so an `enable`
without a `disable` does nothing, a second `disable` does nothing, and the last
one reaches over the end. -/
theorem covers_iff_last_toggle (body : List Char) (comments : List Comment) :
    let asked := directivesOf body comments
    let sorted := Silence.inOrder asked
    (∀ n d, (n, d) ∈ asked ↔
      ∃ c ∈ comments, d.StandsIn c.content ∧ lineAt body c.start = n) ∧
      sorted.Pairwise (fun a b => a.1 ≤ b.1) ∧
      (∀ n, sorted.filter (·.1 == n) = asked.filter (·.1 == n)) ∧
      ∀ line, (Silence.ofDirectives asked).covers line = true ↔
        (∃ c ∈ comments, Directive.disableNextLine.StandsIn c.content ∧
          lineAt body c.start + 1 = line) ∨
        ∃ n, Silence.lastToggle? line sorted = some (n, .disable) := by
  intro asked sorted
  have hasked (n : Nat) (d : Directive) :
      (n, d) ∈ asked ↔ ∃ c ∈ comments, d.StandsIn c.content ∧
        lineAt body c.start = n := by
    simp only [asked, directivesOf, List.mem_filterMap, Option.map_eq_some_iff,
      Prod.mk.injEq, ← Directive.parse_eq_some_iff]
    refine exists_congr fun c => and_congr_right fun _ => ?_
    constructor
    · rintro ⟨d', hparse, hline, rfl⟩
      exact ⟨hparse, hline⟩
    · rintro ⟨hparse, hline⟩
      exact ⟨d, hparse, hline, rfl⟩
  refine ⟨hasked, Silence.pairwise_inOrder asked,
    fun n => Silence.filter_inOrder n asked, fun line => ?_⟩
  rw [Silence.covers_iff fun _ => pos_of_mem_directivesOf]
  refine or_congr_left ?_
  constructor
  · rintro ⟨n, hn, hline⟩
    obtain ⟨c, hc, hstands, rfl⟩ := (hasked n .disableNextLine).1 hn
    exact ⟨c, hc, hstands, hline⟩
  · rintro ⟨c, hc, hstands, hline⟩
    exact ⟨_, (hasked _ .disableNextLine).2 ⟨c, hc, hstands, rfl⟩, hline⟩

end AnimLint
