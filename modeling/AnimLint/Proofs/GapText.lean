/-
AnimLint/Proofs/GapText.lean

What stands between two arguments, as a grammar of text: blanks, commas and
whole comments, where a line comment goes on to the end of its line (`GapText`).
The grammar says in what order the commas and comments stand, and joining the
lines of a gap that has no line comment keeps them, byte for byte and in this
order (`SameGap`, `joinsGap_compactGap`).
-/
import AnimLint.Proofs.Gaps

namespace AnimLint

open Text Gap Script Mark

/-! ### The grammar -/

/-- Text between arguments, with its commas and comments in order. -/
inductive GapText : List Char → List (List Char) → Prop
  | nil : GapText [] []
  | blank {c : Char} {g : List Char} {parts : List (List Char)} :
      isSpace c = true ∨ Text.isBlank c = true → GapText g parts → GapText (c :: g) parts
  | comma {g : List Char} {parts : List (List Char)} :
      GapText g parts → GapText (',' :: g) ([','] :: parts)
  | block {rest g : List Char} {parts : List (List Char)} :
      blockCommentLength? rest = some rest.length → GapText g parts →
        GapText ('/' :: '*' :: (rest ++ g)) (('/' :: '*' :: rest) :: parts)
  | line {rest g : List Char} {parts : List (List Char)} :
      rest.all (!isLineEnd ·) = true → g.head?.all isLineEnd = true → GapText g parts →
        GapText ('/' :: '/' :: (rest ++ g)) (('/' :: '/' :: rest) :: parts)

/-- Holds if a second gap has the commas and comments of a first one, in
order. -/
def SameGap (g g' : List Char) : Prop := ∀ parts, GapText g parts → GapText g' parts

theorem SameGap.refl (g : List Char) : SameGap g g := fun _ h => h

/-! ### Marks and parts -/

/-- The part that a mark is, if it is no blank. -/
def Mark.part? : Mark → Option (List Char)
  | .char c => if c = ',' then some [','] else none
  | .comment rest => some ('/' :: '*' :: rest)

/-- The commas and comments of a row of marks. -/
def partsOf (ms : List Mark) : List (List Char) := ms.filterMap part?

theorem part?_of_isBlank {c : Char} (h : Text.isBlank c = true) :
    part? (.char c) = none := by
  refine if_neg ?_
  rintro rfl
  cases h

theorem part?_of_isLineBreak {c : Char} (h : isLineBreak c = true) :
    part? (.char c) = none := by
  refine if_neg ?_
  rintro rfl
  cases h

theorem gapText_marksText {ms : List Mark} (h : ms.all isProper = true) :
    GapText (marksText ms) (partsOf ms) := by
  induction ms with
  | nil => exact .nil
  | cons m ms ih =>
    simp only [List.all_cons, Bool.and_eq_true] at h
    have hrest := ih h.2
    cases m with
    | char c =>
      by_cases hc : c = ','
      · subst hc
        exact .comma hrest
      · have hpart : partsOf (.char c :: ms) = partsOf ms :=
          List.filterMap_cons_none (if_neg hc)
        rw [hpart]
        refine .blank ?_ hrest
        have hsoft : isSoft c = true := h.1
        simpa [isSoft, hc] using hsoft
    | comment rest =>
      have hwhole : blockCommentLength? rest = some rest.length := by
        simpa [isProper] using h.1
      exact .block hwhole hrest

/-- Gap text is a row of marks, or a line comment stands in it behind marks. -/
theorem GapText.cases_marks {g : List Char} {parts : List (List Char)}
    (h : GapText g parts) :
    (∃ ms, ms.all isProper = true ∧ g = marksText ms ∧ parts = partsOf ms) ∨
      ∃ ms s, ms.all isProper = true ∧ g = marksText ms ++ '/' :: '/' :: s := by
  induction h with
  | nil => exact .inl ⟨[], rfl, rfl, rfl⟩
  | @blank c g parts hc _ ih =>
    have hsoft : isProper (.char c) = true := by
      rcases hc with hc | hc <;> simp [isProper, isSoft, hc]
    have hpart : part? (.char c) = none := by
      refine if_neg ?_
      rintro rfl
      rcases hc with hc | hc <;> cases hc
    rcases ih with ⟨ms, hms, rfl, rfl⟩ | ⟨ms, s, hms, rfl⟩
    · refine .inl ⟨.char c :: ms, ?_, rfl, ?_⟩
      · rw [List.all_cons, hsoft, hms]
        rfl
      · exact (List.filterMap_cons_none hpart).symm
    · exact .inr ⟨.char c :: ms, s, by rw [List.all_cons, hsoft, hms]; rfl, rfl⟩
  | @comma g parts _ ih =>
    rcases ih with ⟨ms, hms, rfl, rfl⟩ | ⟨ms, s, hms, rfl⟩
    · exact .inl ⟨.char ',' :: ms, by rw [List.all_cons, hms]; rfl, rfl, rfl⟩
    · exact .inr ⟨.char ',' :: ms, s, by rw [List.all_cons, hms]; rfl, rfl⟩
  | @block rest g parts hrest _ ih =>
    have hcomment : isProper (.comment rest) = true := by simpa [isProper] using hrest
    rcases ih with ⟨ms, hms, rfl, rfl⟩ | ⟨ms, s, hms, rfl⟩
    · exact .inl ⟨.comment rest ::
        ms, by rw [List.all_cons, hcomment, hms]; rfl, rfl, rfl⟩
    · refine .inr ⟨.comment rest :: ms, s, by rw [List.all_cons, hcomment, hms]; rfl, ?_⟩
      simp [Mark.text]
  -- from here on nothing is said of the gap
  | @line rest g parts _ _ _ _ => exact .inr ⟨[], rest ++ g, rfl, rfl⟩

/-- Gap text in which no line comment is noticed is a row of marks. -/
theorem GapText.exists_marks {g : List Char} {parts : List (List Char)}
    (h : GapText g parts) (hline : hasLineComment g = false) :
    ∃ ms, ms.all isProper = true ∧ g = marksText ms ∧ parts = partsOf ms := by
  rcases h.cases_marks with hmarks | ⟨ms, s, hms, rfl⟩
  · exact hmarks
  · rw [hasLineComment_marksText hms] at hline
    cases hline

/-! ### Joining the lines of a gap -/

theorem partsOf_squeeze (inRun : Bool) (ms : List Mark) :
    partsOf (squeeze inRun ms) = partsOf ms := by
  have hspace : part? (.char ' ') = none := rfl
  unfold partsOf
  fun_induction squeeze inRun ms with
  | case1 => rfl
  | case2 inRun rest ms ih =>
    have hpart : part? (.comment rest) = some ('/' :: '*' :: rest) := rfl
    rw [List.filterMap_cons_some hpart, List.filterMap_cons_some hpart, ih]
  | case3 inRun c ms hbreak ih =>
    rw [ih, List.filterMap_cons_none (part?_of_isLineBreak hbreak)]
  | case4 c ms _ hblank ih =>
    rw [ih, List.filterMap_cons_none (part?_of_isBlank hblank)]
  | case5 inRun c ms _ hblank _ ih =>
    rw [List.filterMap_cons_none hspace, ih,
      List.filterMap_cons_none (part?_of_isBlank hblank)]
  | case6 inRun c ms _ _ ih => rw [List.filterMap_cons, List.filterMap_cons, ih]

theorem isProper_squeeze (inRun : Bool) {ms : List Mark} (h : ms.all isProper = true) :
    (squeeze inRun ms).all isProper = true := by
  have hspace : isProper (.char ' ') = true := rfl
  fun_induction squeeze inRun ms <;> simp_all

theorem partsOf_append (a b : List Mark) : partsOf (a ++ b) = partsOf a ++ partsOf b :=
  List.filterMap_append

theorem partsOf_of_isBlank {ms : List Mark} (h : ms.all Mark.isBlank = true) :
    partsOf ms = [] := by
  refine List.filterMap_eq_nil_iff.2 fun m hm => ?_
  have hm := List.all_eq_true.1 h m hm
  cases m with
  | char c => exact part?_of_isBlank hm
  | comment rest => cases hm

theorem any_lineComment_finish (taken : List Char) :
    ((finish .code taken).any fun s => s.kind == .lineComment) = false := by
  cases taken <;> rfl

/-- Marks hold no line comment. -/
theorem hasLineComment_marksText_eq_false {ms : List Mark} (h : ms.all isProper = true) :
    hasLineComment (marksText ms) = false := by
  have hmarks : ∀ (ms : List Mark) (taken : List Char),
      ((closedSegments taken ms ++ finish .code (openSegment taken ms)).any
        fun s => s.kind == .lineComment) = false := by
    intro ms
    induction ms with
    | nil => exact any_lineComment_finish
    | cons m ms ih =>
      intro taken
      cases m with
      | char c => exact ih (c :: taken)
      | comment rest =>
        rw [closedSegments, openSegment, List.append_assoc, List.any_append,
          any_lineComment_finish, List.cons_append, List.any_cons, ih]
        rfl
  rw [hasLineComment, segments_marksText h]
  exact hmarks ms []

/-- A second gap is a first one with its lines joined. -/
structure JoinsGap (g g' : List Char) : Prop where
  same : SameGap g g'
  noBreak : hasLineBreak g' = false
  noComment : hasLineComment g' = false

/-- A change of squeezed marks that takes blanks away joins the lines of a
gap. -/
theorem joinsGap_of_marks {g g' : List Char} {parts : List (List Char)}
    (h : GapText g parts) (hline : hasLineComment g = false)
    (hmarks : ∀ ms, ms.all isProper = true → g = marksText ms → ∃ ns, g' = marksText ns ∧
      ns.all isProper = true ∧ ns.any isBreak = false ∧ partsOf ns = partsOf ms) :
    JoinsGap g g' := by
  -- the marks of a gap are not unique, so its parts are told for each row of
  -- marks that spells it
  obtain ⟨ms, hms, hg, -⟩ := h.exists_marks hline
  obtain ⟨ns, hg', hns, hbreak, -⟩ := hmarks ms hms hg
  refine ⟨fun parts' hparts' => ?_, ?_, ?_⟩
  · obtain ⟨ms', hms', hg, rfl⟩ := hparts'.exists_marks hline
    obtain ⟨ns', hg', hns', -, hsame⟩ := hmarks ms' hms' hg
    rw [hg', ← hsame]
    exact gapText_marksText hns'
  · rw [hg', hasLineBreak_marksText hns, hbreak]
  · rw [hg', hasLineComment_marksText_eq_false hns]

theorem joinsGap_compactGap {g : List Char} {parts : List (List Char)}
    (h : GapText g parts)
    (hline : hasLineComment g = false) : JoinsGap g (compactGap g) := by
  refine joinsGap_of_marks h hline fun ms hms hg => ⟨squeeze false ms, ?_, ?_, ?_, ?_⟩
  · rw [hg, compactGap_marksText hms]
  · exact isProper_squeeze false hms
  · exact isBreak_squeeze false ms
  · exact partsOf_squeeze false ms

theorem joinsGap_trimStart {g : List Char} {parts : List (List Char)}
    (h : GapText g parts)
    (hline : hasLineComment g = false) : JoinsGap g (trimStart (compactGap g)) := by
  refine joinsGap_of_marks h hline fun ms hms hg => ?_
  have hsplit :=
    List.takeWhile_append_dropWhile (p := Mark.isBlank) (l := squeeze false ms)
  have hproper := isProper_squeeze false hms
  have hbreak := isBreak_squeeze false ms
  have hparts := partsOf_squeeze false ms
  have hfront :=
    partsOf_of_isBlank (List.all_takeWhile (p := Mark.isBlank) (l := squeeze false ms))
  rw [← hsplit, List.all_append, Bool.and_eq_true] at hproper
  rw [← hsplit, List.any_append, Bool.or_eq_false_iff] at hbreak
  rw [← hsplit, partsOf_append, hfront, List.nil_append] at hparts
  refine ⟨(squeeze false ms).dropWhile Mark.isBlank, ?_, hproper.2, hbreak.2, hparts⟩
  rw [hg, compactGap_marksText hms, dropWhile_isBlank_marksText]

theorem joinsGap_trimEnd {g : List Char} {parts : List (List Char)} (h : GapText g parts)
    (hline : hasLineComment g = false) : JoinsGap g (trimEnd (compactGap g)) := by
  refine joinsGap_of_marks h hline fun ms hms hg => ?_
  have hproper := isProper_squeeze false hms
  obtain ⟨before, after, hsplit, hafter, htrim⟩ := exists_trimEnd_marksText hproper
  have hbreak := isBreak_squeeze false ms
  have hparts := partsOf_squeeze false ms
  rw [hsplit, List.all_append, Bool.and_eq_true] at hproper
  rw [hsplit, List.any_append, Bool.or_eq_false_iff] at hbreak
  rw [hsplit, partsOf_append, partsOf_of_isBlank hafter, List.append_nil] at hparts
  refine ⟨before, ?_, hproper.1, hbreak.1, hparts⟩
  rw [hg, compactGap_marksText hms, htrim]

end AnimLint
