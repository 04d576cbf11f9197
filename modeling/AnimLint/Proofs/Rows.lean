/-
AnimLint/Proofs/Rows.lean

Rows of trivia and the marks they are made of.  A gap row is a row that any text
of blanks and block comments is read as: no blank follows a blank, and no
comment ends with its line (`isGapRow`).  A row is tidied when it becomes a gap
row with the same comments and without line breaks between them (`Tidies`); that
is what joining lines does to a row, on either side of a comma (`exists_tidies`,
`exists_tidies_trimStart`, `exists_tidies_trimEnd`).
-/
import AnimLint.Proofs.Gaps

namespace AnimLint

open Text Gap Script Mark

/-! ### Gap rows -/

/-- Holds of rows of blanks and whole block comments in which no blank follows a
blank. -/
def isGapRow : List Trivia → Bool
  | [] => true
  | t :: r =>
    t.isPlain &&
    (t.kind == .blockComment || (t.kind == .blank && r.head?.all (·.kind != .blank))) &&
      isGapRow r

/-- Holds of comments. -/
def isComment (t : Trivia) : Bool := t.kind == .lineComment || t.kind == .blockComment

/-- Holds of whole comments that do not end with their line, and of blanks. -/
def isSpacing (t : Trivia) : Bool :=
  t.isPlain && (t.kind == .blank || t.kind == .blockComment)

theorem isGapRow_cons {t : Trivia} {r : List Trivia} (h : isGapRow (t :: r) = true) :
    isSpacing t = true ∧ isGapRow r = true := by
  simp only [isGapRow, Bool.and_eq_true, Bool.or_eq_true] at h
  refine ⟨?_, h.2⟩
  rcases h.1.2 with hkind | hkind
  · simp [isSpacing, h.1.1, hkind]
  · simp [isSpacing, h.1.1, hkind.1]

theorem all_isSpacing_of_isGapRow {row : List Trivia} (h : isGapRow row = true) :
    row.all isSpacing = true := by
  induction row with
  | nil => rfl
  | cons t r ih =>
    obtain ⟨ht, hr⟩ := isGapRow_cons h
    rw [List.all_cons, ht, ih hr]
    rfl

/-! ### Marks of a row -/

/-- The marks that a blank or a block comment is made of. -/
def triviaMarks (t : Trivia) : List Mark :=
  match t.kind, t.text with
  | .blank, s => s.map .char
  | .blockComment, '/' :: '*' :: rest => [.comment rest]
  | _, _ => []

/-- The marks that a row of trivia is made of. -/
def rowMarks (row : List Trivia) : List Mark := row.flatMap triviaMarks

theorem marksText_map_char (s : List Char) : marksText (s.map .char) = s := by
  induction s with
  | nil => rfl
  | cons c s ih => simp [Mark.text, ih]

/-- Trivia other than an interpreter line are blanks or whole comments. -/
theorem Trivia.isPlain_cases {t : Trivia} (h : t.isPlain = true)
    (hkind : t.kind ≠ .interpreter) :
    (∃ s, t = ⟨.blank, s⟩ ∧ s ≠ [] ∧ s.all isSpace = true) ∨
      (∃ r, t = ⟨.lineComment, '/' :: '/' :: r⟩ ∧ r.all (!isLineEnd ·) = true) ∨
      ∃ r, t = ⟨.blockComment, '/' :: '*' :: r⟩ ∧ blockCommentLength? r =
        some r.length := by
  obtain ⟨kind, text⟩ := t
  unfold Trivia.isPlain at h
  split at h
  · next hk =>
    obtain rfl : kind = .blank := hk
    simp only [Bool.and_eq_true, Bool.not_eq_true', List.isEmpty_eq_false_iff] at h
    exact .inl ⟨text, rfl, h⟩
  · next r hk htext =>
    obtain ⟨rfl, rfl⟩ : kind = .lineComment ∧ text = _ := ⟨hk, htext⟩
    exact .inr (.inl ⟨r, rfl, h⟩)
  · next r hk htext =>
    obtain ⟨rfl, rfl⟩ : kind = .blockComment ∧ text = _ := ⟨hk, htext⟩
    exact .inr (.inr ⟨r, rfl, beq_iff_eq.1 h⟩)
  · next hk => exact absurd hk hkind
  · cases h

theorem isSpacing_cases {t : Trivia} (h : isSpacing t = true) :
    (∃ s, t = ⟨.blank, s⟩ ∧ s ≠ [] ∧ s.all isSpace = true) ∨
      ∃ rest, t = ⟨.blockComment, '/' :: '*' :: rest⟩ ∧
        blockCommentLength? rest = some rest.length := by
  simp only [isSpacing, Bool.and_eq_true, Bool.or_eq_true, beq_iff_eq] at h
  have hkind : t.kind ≠ .interpreter := by
    intro hinterpreter
    rw [hinterpreter] at h
    simp at h
  rcases Trivia.isPlain_cases h.1 hkind with hblank | ⟨r, rfl, -⟩ | hblock
  · exact .inl hblank
  · simp at h
  · exact .inr hblock

theorem triviaMarks_spec {t : Trivia} (h : isSpacing t = true) :
    marksText (triviaMarks t) = t.text ∧ (triviaMarks t).all Mark.isSpacing = true := by
  rcases isSpacing_cases h with ⟨s, rfl, -, hs⟩ | ⟨rest, rfl, hrest⟩
  · refine ⟨marksText_map_char s, ?_⟩
    rw [triviaMarks, List.all_map]
    exact hs
  · have hcomment : Mark.isSpacing (.comment rest) = true := by
      simpa [Mark.isSpacing] using hrest
    exact ⟨by simp [triviaMarks, Mark.text], by simp [triviaMarks, hcomment]⟩

theorem rowMarks_spec {row : List Trivia} (h : row.all isSpacing = true) :
    marksText (rowMarks row) = triviaText row ∧
    (rowMarks row).all Mark.isSpacing = true := by
  induction row with
  | nil => exact ⟨rfl, rfl⟩
  | cons t row ih =>
    simp only [List.all_cons, Bool.and_eq_true] at h
    obtain ⟨htext, hspacing⟩ := triviaMarks_spec h.1
    obtain ⟨htexts, hspacings⟩ := ih h.2
    refine ⟨?_, ?_⟩
    · rw [rowMarks, List.flatMap_cons, marksText_append, htext]
      rw [rowMarks] at htexts
      rw [htexts]
      rfl
    · rw [rowMarks, List.flatMap_cons, List.all_append, hspacing]
      exact hspacings

theorem all_isProper {ms : List Mark} (h : ms.all Mark.isSpacing = true) :
    ms.all isProper = true := by
  rw [List.all_eq_true] at h ⊢
  exact fun m hm => isProper_of_isSpacing (h m hm)

/-! ### The row of some marks -/

/-- The row that marks are read as. -/
def rowOf : List Mark → List Trivia
  | [] => []
  | .comment rest :: ms => ⟨.blockComment, '/' :: '*' :: rest⟩ :: rowOf ms
  | .char c :: ms =>
    match rowOf ms with
    | ⟨.blank, s⟩ :: row => ⟨.blank, c :: s⟩ :: row
    | row => ⟨.blank, [c]⟩ :: row

theorem triviaText_rowOf (ms : List Mark) : triviaText (rowOf ms) = marksText ms := by
  fun_induction rowOf ms with
  | case1 => rfl
  | case2 rest ms ih => rw [triviaText, ih]; rfl
  | case3 c ms s row hrow ih =>
    rw [hrow, triviaText] at ih
    rw [triviaText, marksText_cons, ← ih]
    rfl
  | case4 c ms _ ih =>
    rw [triviaText, marksText_cons, ← ih]
    rfl

theorem rowMarks_rowOf (ms : List Mark) : rowMarks (rowOf ms) = ms := by
  fun_induction rowOf ms with
  | case1 => rfl
  | case2 rest ms ih =>
    rw [rowMarks, List.flatMap_cons]
    rw [rowMarks] at ih
    rw [ih]
    rfl
  | case3 c ms s row hrow ih =>
    rw [hrow, rowMarks, List.flatMap_cons] at ih
    rw [rowMarks, List.flatMap_cons, ← ih]
    rfl
  | case4 c ms _ ih =>
    rw [rowMarks, List.flatMap_cons]
    rw [rowMarks] at ih
    rw [ih]
    rfl

theorem isGapRow_rowOf {ms : List Mark} (h : ms.all Mark.isSpacing = true) :
    isGapRow (rowOf ms) = true := by
  fun_induction rowOf ms with
  | case1 => rfl
  | case2 rest ms ih =>
    simp only [List.all_cons, Bool.and_eq_true] at h
    have hplain : Trivia.isPlain ⟨.blockComment, '/' :: '*' :: rest⟩ = true := h.1
    simp [isGapRow, hplain, ih h.2]
  | case3 c ms s row hrow ih =>
    simp only [List.all_cons, Bool.and_eq_true] at h
    have hc : isSpace c = true := h.1
    have hold := ih h.2
    rw [hrow] at hold
    simp only [isGapRow, Trivia.isPlain, Bool.and_eq_true, Bool.or_eq_true] at hold
    simp_all [isGapRow, Trivia.isPlain]
  | case4 c ms hrow ih =>
    simp only [List.all_cons, Bool.and_eq_true] at h
    have hc : isSpace c = true := h.1
    -- the row behind this blank does not start with blanks, or they would make
    -- one trivia with it
    have hhead : (rowOf ms).head?.all (·.kind != .blank) = true := by
      rcases hms : rowOf ms with - | ⟨⟨kind, s⟩, row⟩
      · rfl
      · cases kind with
        | blank => exact absurd hms (hrow s row)
        | lineComment => rfl
        | blockComment => rfl
        | interpreter => rfl
    simp [isGapRow, Trivia.isPlain, hc, hhead, ih h.2]

/-! ### Tidy rows -/

/-- The comments among marks, as trivia. -/
def markComments (ms : List Mark) : List Trivia :=
  ms.filterMap fun
    | .char _ => none
    | .comment rest => some ⟨.blockComment, '/' :: '*' :: rest⟩

theorem filter_rowOf (ms : List Mark) :
    (rowOf ms).filter isComment = markComments ms := by
  fun_induction rowOf ms with
  | case1 => rfl
  | case2 rest ms ih => simpa [isComment, markComments] using ih
  | case3 c ms s row hrow ih =>
    rw [hrow] at ih
    simpa [isComment, markComments] using ih
  | case4 c ms _ ih => simpa [isComment, markComments] using ih

theorem filter_of_isSpacing {row : List Trivia} (h : row.all isSpacing = true) :
    row.filter isComment = markComments (rowMarks row) := by
  induction row with
  | nil => rfl
  | cons t row ih =>
    simp only [List.all_cons, Bool.and_eq_true] at h
    have hrow : markComments (rowMarks (t :: row)) =
        markComments (triviaMarks t) ++ row.filter isComment := by
      rw [ih h.2, rowMarks, List.flatMap_cons, markComments, List.filterMap_append]
      rfl
    rw [hrow]
    rcases isSpacing_cases h.1 with ⟨s, rfl, -, -⟩ | ⟨rest, rfl, -⟩
    · have hnone : markComments (triviaMarks ⟨.blank, s⟩) = [] := by
        simp [markComments, triviaMarks]
      rw [hnone]
      rfl
    · rfl

theorem markComments_squeeze (inRun : Bool) (ms : List Mark) :
    markComments (squeeze inRun ms) = markComments ms := by
  fun_induction squeeze inRun ms <;> simp_all [markComments]

theorem markComments_of_all_isBlank {ms : List Mark} (h : ms.all Mark.isBlank = true) :
    markComments ms = [] := by
  induction ms with
  | nil => rfl
  | cons m ms ih =>
    simp only [List.all_cons, Bool.and_eq_true] at h
    cases m with
    | char c => exact ih h.2
    | comment rest => cases h.1

/-- `row'` is a gap row with the comments of `row` and with no line break
between them. -/
structure Tidies (row row' : List Trivia) : Prop where
  isGapRow : isGapRow row' = true
  comments : row'.filter isComment = row.filter isComment
  unbroken : (rowMarks row').any isBreak = false

/-- Marks without line breaks that keep the comments of a row make a tidy
row. -/
theorem Tidies.of_marks {row : List Trivia} {ms : List Mark}
    (h : row.all isSpacing = true)
    (hspacing : ms.all Mark.isSpacing = true) (hbreak : ms.any isBreak = false)
    (hcomments : markComments ms = markComments (rowMarks row)) :
    Tidies row (rowOf ms) where
  isGapRow := isGapRow_rowOf hspacing
  comments := by rw [filter_rowOf, filter_of_isSpacing h, hcomments]
  unbroken := by rw [rowMarks_rowOf, hbreak]

theorem compactGap_triviaText {row : List Trivia} (h : row.all isSpacing = true) :
    compactGap (triviaText row) = marksText (squeeze false (rowMarks row)) := by
  obtain ⟨htext, hspacing⟩ := rowMarks_spec h
  rw [← htext, compactGap_marksText (all_isProper hspacing)]

/-- What joining lines makes of a row. -/
theorem exists_tidies {row : List Trivia} (h : row.all isSpacing = true) :
    ∃ row', Tidies row row' ∧ triviaText row' = compactGap (triviaText row) := by
  refine ⟨_, .of_marks h (isSpacing_squeeze false (rowMarks_spec h).2)
    (isBreak_squeeze false _)
    (markComments_squeeze false _), ?_⟩
  rw [triviaText_rowOf, compactGap_triviaText h]

/-- What joining lines and trimming the front makes of a row. -/
theorem exists_tidies_trimStart {row : List Trivia} (h : row.all isSpacing = true) :
    ∃ row', Tidies row row' ∧
      triviaText row' = trimStart (compactGap (triviaText row)) := by
  rw [compactGap_triviaText h]
  have hsplit := List.takeWhile_append_dropWhile (p := Mark.isBlank)
    (l := squeeze false (rowMarks row))
  have hspacing := isSpacing_squeeze false (rowMarks_spec h).2
  have hbreak := isBreak_squeeze false (rowMarks row)
  have hcomments := markComments_squeeze false (rowMarks row)
  have hblank :
      ((squeeze false (rowMarks row)).takeWhile Mark.isBlank).all Mark.isBlank = true :=
    List.all_takeWhile
  rw [← hsplit] at hspacing hbreak hcomments
  rw [List.all_append, Bool.and_eq_true] at hspacing
  rw [List.any_append, Bool.or_eq_false_iff] at hbreak
  rw [markComments, List.filterMap_append] at hcomments
  refine ⟨_, .of_marks h hspacing.2 hbreak.2 ?_, ?_⟩
  · rw [← hcomments]
    have := markComments_of_all_isBlank hblank
    rw [markComments] at this
    rw [this]
    rfl
  · rw [triviaText_rowOf, dropWhile_isBlank_marksText]

/-- What joining lines and trimming the back makes of a row. -/
theorem exists_tidies_trimEnd {row : List Trivia} (h : row.all isSpacing = true) :
    ∃ row', Tidies row row' ∧
      triviaText row' = trimEnd (compactGap (triviaText row)) := by
  rw [compactGap_triviaText h]
  have hspacing := isSpacing_squeeze false (rowMarks_spec h).2
  have hbreak := isBreak_squeeze false (rowMarks row)
  have hcomments := markComments_squeeze false (rowMarks row)
  obtain ⟨before, after, hsplit, hafter, htrim⟩ :=
    exists_trimEnd_marksText (all_isProper hspacing)
  rw [htrim]
  rw [hsplit] at hspacing hbreak hcomments
  rw [List.all_append, Bool.and_eq_true] at hspacing
  rw [List.any_append, Bool.or_eq_false_iff] at hbreak
  rw [markComments, List.filterMap_append] at hcomments
  refine ⟨_, .of_marks h hspacing.1 hbreak.1 ?_, triviaText_rowOf before⟩
  rw [← hcomments]
  have := markComments_of_all_isBlank hafter
  rw [markComments] at this
  rw [this, List.append_nil]
  rfl

end AnimLint
