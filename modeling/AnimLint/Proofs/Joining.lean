/-
AnimLint/Proofs/Joining.lean

What joining the lines of a zone does to the items in it.  If no line comment
stands between them, the rows in front of the items and of what ends the zone
are tidied, and nothing else changes: the one-line form of the zone is the text
of the same items behind tidy rows (`exists_compactLeading`,
`exists_compactTrailing`).
-/
import AnimLint.Proofs.ZoneShape

namespace AnimLint.Script

open Text Gap Mark

namespace Tree

/-- The items of the second row are those of the first behind tidied rows. -/
inductive Tidied : List Tree → List Tree → Prop
  | nil : Tidied [] []
  | cons {t : Tree} {row : List Trivia} {ts ts' : List Tree} :
      Tidies t.lead row → Tidied ts ts' → Tidied (t :: ts) (t.withLead row :: ts')

/-! ### Line comments between items -/

theorem piecesComment_append (a b : List Piece) :
    piecesComment (a ++ b) = (piecesComment a || piecesComment b) :=
  List.any_append

theorem piecesComment_gapPiece (g : List Char) :
    piecesComment (gapPiece g) = hasLineComment g := by
  rcases g with - | ⟨c, r⟩
  · rfl
  · simp [gapPiece, piecesComment]

/-- A line comment is noticed wherever the gap ends in which it stands. -/
theorem piecesComment_piecesOf {ms : List Mark} (h : ms.all isProper = true)
    (last s : List Char) (items : List Tree) :
    piecesComment (piecesOf last (marksText ms ++ '/' :: '/' :: s) items) = true := by
  induction items generalizing s with
  | nil =>
    rw [piecesOf, piecesComment_gapPiece, List.append_assoc]
    exact hasLineComment_marksText h _
  | cons t items ih =>
    rw [piecesOf]
    split
    · simpa using ih (s ++ t.source)
    · rw [piecesComment_append, piecesComment_gapPiece, List.append_assoc]
      simp only [List.cons_append, hasLineComment_marksText h, Bool.true_or]

theorem isSpacing_of_isInner {t : Trivia} (h : isInner t = true)
    (hline : t.kind ≠ .lineComment) :
    isSpacing t = true := by
  simp only [isInner, Bool.and_eq_true] at h
  obtain ⟨kind, text⟩ := t
  cases kind with
  | blank => simp [isSpacing, h.1]
  | lineComment => exact absurd rfl hline
  | blockComment => simp [isSpacing, h.1]
  | interpreter => simp at h

/-- A row of trivia inside a script is spacing, or a line comment stands in it
behind marks. -/
theorem isSpacing_or_lineComment {row : List Trivia} (h : row.all isInner = true) :
    row.all isSpacing = true ∨
      ∃ ms s, ms.all isProper = true ∧ triviaText row =
        marksText ms ++ '/' :: '/' :: s := by
  induction row with
  | nil => exact .inl rfl
  | cons t row ih =>
    simp only [List.all_cons, Bool.and_eq_true] at h
    by_cases hline : t.kind = .lineComment
    · obtain ⟨kind, text⟩ := t
      obtain rfl : kind = _ := hline
      have hplain : Trivia.isPlain ⟨.lineComment, text⟩ = true := by
        simp only [isInner, Bool.and_eq_true] at h
        exact h.1.1
      refine .inr ⟨[], ?_⟩
      rcases text with - | ⟨a, - | ⟨b, rest⟩⟩
      · simp [Trivia.isPlain] at hplain
      · simp [Trivia.isPlain] at hplain
      · by_cases hmarks : a = '/' ∧ b = '/'
        · obtain ⟨rfl, rfl⟩ := hmarks
          exact ⟨rest ++ triviaText row, rfl, rfl⟩
        · unfold Trivia.isPlain at hplain
          split at hplain <;> simp_all
    · have ht := isSpacing_of_isInner h.1 hline
      obtain ⟨htext, hspacing⟩ := triviaMarks_spec ht
      rcases ih h.2 with hrow | ⟨ms, s, hms, hrow⟩
      · exact .inl (by rw [List.all_cons, ht, hrow]; rfl)
      · refine .inr ⟨triviaMarks t ++ ms, s, ?_, ?_⟩
        · rw [List.all_append, all_isProper hspacing, hms]
          rfl
        · rw [triviaText, hrow, marksText_append, htext, List.append_assoc]

theorem solid_of_isComma {t : Tree} (h : t.isComma = true) : t.solid = [','] := by
  cases t with
  | leaf s =>
    simp only [isComma, Token.isPunctuator, Bool.and_eq_true, beq_iff_eq] at h
    have htext : s.text = [','] := h.2
    simp [solid, tokens, solidOf, htext]
  | node kind parts => cases h
  | call callee types opening items closing => cases h

/-- Where no line comment is noticed, all rows are spacing. -/
theorem isSpacing_of_piecesComment {items : List Tree} (hitems : ∀ t ∈ items, t.IsItem)
    {last : List Trivia} (hlast : last.all isInner = true) (ms : List Mark)
    (hms : ms.all isProper = true)
    (h : piecesComment (piecesOf (triviaText last) (marksText ms) items) = false) :
    (∀ t ∈ items, t.lead.all isSpacing = true) ∧ last.all isSpacing = true := by
  induction items generalizing ms with
  | nil =>
    refine ⟨by simp, ?_⟩
    rcases isSpacing_or_lineComment hlast with hspacing | ⟨ms', s, hms', hrow⟩
    · exact hspacing
    · have hall : (ms ++ ms').all isProper = true := by
        rw [List.all_append, hms, hms']; rfl
      have := hasLineComment_marksText hall s
      rw [piecesOf, piecesComment_gapPiece, hrow, ← List.append_assoc,
        ← marksText_append, this] at h
      cases h
  | cons t items ih =>
    have hrest := fun u hu => hitems u (List.mem_cons_of_mem t hu)
    rcases isSpacing_or_lineComment (hitems t List.mem_cons_self).lead with
      hspacing | ⟨ms', s, hms', hrow⟩
    · obtain ⟨htext, hmarks⟩ := rowMarks_spec hspacing
      have hlead := all_isProper hmarks
      have hitemsSpacing : (∀ u ∈ items, u.lead.all isSpacing = true) ∧
          last.all isSpacing = true := by
        rw [piecesOf] at h
        split at h
        · next hcomma =>
          have hall : (ms ++ (rowMarks t.lead ++ [Mark.char ','])).all
              isProper = true := by
            rw [List.all_append, List.all_append, hms, hlead]
            rfl
          refine ih hrest _ hall ?_
          rw [source_eq, solid_of_isComma hcomma, ← htext] at h
          simpa [Mark.text] using h
        · rw [piecesComment_append, Bool.or_eq_false_iff] at h
          exact ih hrest [] rfl h.2
      refine ⟨fun u hu => ?_, hitemsSpacing.2⟩
      rcases List.mem_cons.1 hu with rfl | hu
      · exact hspacing
      · exact hitemsSpacing.1 u hu
    · -- a line comment in front of the item would be noticed in the gap it stands in
      have hall : (ms ++ ms').all isProper = true := by
        rw [List.all_append, hms, hms']; rfl
      rw [piecesOf] at h
      split at h
      · rw [source_eq, hrow, List.append_assoc, ← List.append_assoc,
          ← marksText_append] at h
        have := piecesComment_piecesOf hall (triviaText last) (s ++ t.solid) items
        rw [List.cons_append, List.cons_append, this] at h
        cases h
      · rw [piecesComment_append, piecesComment_gapPiece, hrow, ← List.append_assoc,
          ← marksText_append, hasLineComment_marksText hall] at h
        cases h

/-! ### Joined items -/

/-- A gap that is empty so far or ends in a comma. -/
def Closed (ms : List Mark) : Prop := ms = [] ∨ ∃ before, ms = before ++ [.char ',']

theorem squeeze_append_of_closed {ms : List Mark} (h : Closed ms) (ns : List Mark) :
    squeeze false (ms ++ ns) = squeeze false ms ++ squeeze false ns := by
  rcases h with rfl | ⟨before, rfl⟩
  · rfl
  · rw [List.append_assoc, List.singleton_append, squeeze_append_comma,
      squeeze_append_comma]
    simp [squeeze]

/-- What is made of the pieces of items by a function `form` that joins their
lines up to what `ends` does to the last gap: the items behind tidied rows, and
the last row. -/
theorem exists_tidied_piecesOf {form : List Piece → List Char}
    (ends : List Char → List Char)
    (hgap : ∀ g, form (gapPiece g) = ends (compactGap g))
    (hargument : ∀ g s ps, form (gapPiece g ++ .argument s :: ps) =
      compactGap g ++ (s ++ form ps))
    (hends : ∀ s t, ends (s ++ ',' :: t) = s ++ ',' :: ends t)
    {last : List Trivia} (hlast : last.all isSpacing = true) {items : List Tree}
    (hitems : ∀ t ∈ items, t.IsItem) (hspacing : ∀ t ∈ items, t.lead.all isSpacing = true)
    (ms : List Mark) (hms : ms.all isProper = true) (hclosed : Closed ms) :
    ∃ items', Tidied items items' ∧
      form (piecesOf (triviaText last) (marksText ms) items) =
      marksText (squeeze false ms) ++
      (sourceAll items' ++ ends (compactGap (triviaText last))) := by
  -- `ms` is what has been read of the gap so far: a comma adds to it, and an
  -- argument ends it
  induction items generalizing ms with
  | nil =>
    refine ⟨[], .nil, ?_⟩
    obtain ⟨htext, hmarks⟩ := rowMarks_spec hlast
    have hall : (ms ++ rowMarks last).all isProper = true := by
      rw [List.all_append, hms, all_isProper hmarks]
      rfl
    rw [piecesOf, hgap, compactGap_triviaText hlast, ← htext, ← marksText_append,
      compactGap_marksText hall, squeeze_append_of_closed hclosed, marksText_append]
    rcases hclosed with rfl | ⟨before, rfl⟩
    · rfl
    · rw [squeeze_append_comma]
      have := hends (marksText (squeeze false before))
        (marksText (squeeze false (rowMarks last)))
      simpa [Mark.text, squeeze, sourceAll] using this
  | cons t items ih =>
    have ht := hitems t List.mem_cons_self
    have hlead := hspacing t List.mem_cons_self
    have hitems' := fun u hu => hitems u (List.mem_cons_of_mem t hu)
    have hspacing' := fun u hu => hspacing u (List.mem_cons_of_mem t hu)
    obtain ⟨htext, hmarks⟩ := rowMarks_spec hlead
    obtain ⟨row, htidies, hrow⟩ := exists_tidies hlead
    have hsource := source_withLead ht.isSound ht.tokens_ne_nil row
    rw [compactGap_triviaText hlead] at hrow
    rw [piecesOf]
    split
    · next hcomma =>
      have hsolid := solid_of_isComma hcomma
      have hall : (ms ++ (rowMarks t.lead ++ [Mark.char ','])).all isProper = true := by
        rw [List.all_append, List.all_append, hms, all_isProper hmarks]
        rfl
      obtain ⟨rest, hrest, hform⟩ :=
        ih hitems' hspacing' (ms ++ (rowMarks t.lead ++ [Mark.char ',']))
        hall (.inr ⟨ms ++ rowMarks t.lead, by simp⟩)
      refine ⟨t.withLead row :: rest, .cons htidies hrest, ?_⟩
      have hpending : marksText ms ++ t.source =
          marksText (ms ++ (rowMarks t.lead ++ [Mark.char ','])) := by
        rw [source_eq, hsolid, ← htext]
        simp [Mark.text]
      rw [hpending, hform, squeeze_append_of_closed hclosed, squeeze_append_comma,
        sourceAll, hsource, hsolid, hrow]
      simp [Mark.text, squeeze]
    · have hall : (ms ++ rowMarks t.lead).all isProper = true := by
        rw [List.all_append, hms, all_isProper hmarks]
        rfl
      obtain ⟨rest, hrest, hform⟩ := ih hitems' hspacing' [] rfl (.inl rfl)
      refine ⟨t.withLead row :: rest, .cons htidies hrest, ?_⟩
      rw [marksText_nil] at hform
      rw [hargument, hform, ← htext, ← marksText_append, compactGap_marksText hall,
        squeeze_append_of_closed hclosed, sourceAll, hsource, hrow]
      simp [squeeze]

theorem flatMap_compact_gapPiece (g : List Char) :
    (gapPiece g).flatMap Piece.compact = compactGap g := by
  rcases g with - | ⟨c, r⟩
  · rfl
  · simp [gapPiece, Piece.compact]

theorem compactTrailing_cons (p : Piece) {ps : List Piece} (h : ps ≠ []) :
    compactTrailing (p :: ps) = p.compact ++ compactTrailing ps := by
  rcases ps with - | ⟨q, ps⟩
  · exact absurd rfl h
  · cases p <;> rfl

theorem compactTrailing_argument (s : List Char) (ps : List Piece) :
    compactTrailing (.argument s :: ps) = s ++ compactTrailing ps := rfl

/-- The one-line form of the zone in front of the first object. -/
theorem exists_compactLeading {front : List Tree} (hitems : ∀ t ∈ front, t.IsItem)
    (hfront : front.head?.all (!·.isComma) = true)
    (hspacing : ∀ t ∈ front, t.lead.all isSpacing = true) {last : List Trivia}
    (hlast : last.all isSpacing = true) :
    ∃ front' row, Tidied front front' ∧ Tidies last row ∧
      compactLeading (piecesOf (triviaText last) [] front) =
        sourceAll front' ++ triviaText row := by
  have hgap (g : List Char) : compactLeading (gapPiece g) = trimStart (compactGap g) := by
    rcases g with - | ⟨c, r⟩
    · rfl
    · simp [gapPiece, compactLeading]
  have hargument (g s : List Char) (ps : List Piece) :
      compactLeading (gapPiece g ++ .argument s :: ps) =
        trimStart (compactGap g) ++ (s ++ ps.flatMap Piece.compact) := by
    rcases g with - | ⟨c, r⟩
    · rfl
    · simp [gapPiece, compactLeading, Piece.compact]
  rcases front with - | ⟨t, front⟩
  · obtain ⟨row, htidies, hrow⟩ := exists_tidies_trimStart hlast
    refine ⟨[], row, .nil, htidies, ?_⟩
    rw [piecesOf, List.nil_append, hgap, hrow]
    rfl
  · have ht := hitems t List.mem_cons_self
    have hcomma : t.isComma = false := by simpa using hfront
    obtain ⟨row, htidies, hrow⟩ := exists_tidies_trimStart (hspacing t List.mem_cons_self)
    obtain ⟨row', htidies', hrow'⟩ := exists_tidies hlast
    obtain ⟨rest, hrest, hform⟩ := exists_tidied_piecesOf id flatMap_compact_gapPiece
      (fun g s ps => by rw [List.flatMap_append, flatMap_compact_gapPiece]; rfl)
        (fun _ _ => rfl)
      hlast (fun u hu => hitems u (List.mem_cons_of_mem t hu))
      (fun u hu => hspacing u (List.mem_cons_of_mem t hu)) [] rfl (.inl rfl)
    refine ⟨t.withLead row :: rest, row', .cons htidies hrest, htidies', ?_⟩
    rw [marksText_nil] at hform
    rw [piecesOf, if_neg (by simp [hcomma]), List.nil_append, hargument, hform, sourceAll,
      source_withLead ht.isSound ht.tokens_ne_nil, hrow, hrow']
    simp [squeeze]

/-- The one-line form of the zone behind the last object. -/
theorem exists_compactTrailing {back : List Tree} (hitems : ∀ t ∈ back, t.IsItem)
    (hspacing : ∀ t ∈ back, t.lead.all isSpacing = true) {last : List Trivia}
    (hlast : last.all isSpacing = true) :
    ∃ back' row, Tidied back back' ∧ Tidies last row ∧
      compactTrailing (piecesOf (triviaText last) [] back) =
        sourceAll back' ++ triviaText row := by
  have hgap (g : List Char) : compactTrailing (gapPiece g) = trimEnd (compactGap g) := by
    rcases g with - | ⟨c, r⟩
    · rfl
    · simp [gapPiece, compactTrailing]
  have hargument (g s : List Char) (ps : List Piece) :
      compactTrailing (gapPiece g ++ .argument s :: ps) =
        compactGap g ++ (s ++ compactTrailing ps) := by
    rcases g with - | ⟨c, r⟩
    · rfl
    · rw [gapPiece, if_neg (by simp), List.singleton_append,
        compactTrailing_cons _ (List.cons_ne_nil _ _)]
      rfl
  have hcomma : Text.isBlank ',' = false := rfl
  obtain ⟨row, htidies, hrow⟩ := exists_tidies_trimEnd hlast
  obtain ⟨back', hback, hform⟩ := exists_tidied_piecesOf trimEnd hgap hargument
    (trimEnd_append_cons hcomma) hlast hitems hspacing [] rfl (.inl rfl)
  refine ⟨back', row, hback, htidies, ?_⟩
  rw [marksText_nil] at hform
  rw [hform, hrow]
  rfl

end Tree

end AnimLint.Script
