/-
AnimLint/Proofs/Compaction.lean

What joining the lines of a gap does to its characters.  Two views of a text
matter: the characters that can be seen (`visible`), which joining keeps, and
the number of line breaks (`breakCount`), which it does not raise, and lowers
where a break stands outside literals and comments.

The facts go up from characters to segments, from segments to gaps, and from
gaps to the pieces of a zone: `visible_compactPieces` and
`breakCount_compactPieces_lt`.
-/
import AnimLint.Zone

namespace AnimLint

open Text Gap

/-! ### Two views of a text -/

/-- The characters of a text that are not blank. -/
def visible (s : List Char) : List Char := s.filter (!isBlank ·)

/-- The number of line feeds and carriage returns in a text. -/
def breakCount (s : List Char) : Nat := s.countP isLineBreak

@[simp] theorem visible_nil : visible [] = [] := rfl

@[simp] theorem visible_append (s t : List Char) :
    visible (s ++ t) = visible s ++ visible t :=
  List.filter_append ..

theorem visible_cons (c : Char) (s : List Char) :
    visible (c :: s) = if isBlank c then visible s else c :: visible s := by
  by_cases h : isBlank c <;> simp [visible, h]

@[simp] theorem breakCount_nil : breakCount [] = 0 := rfl

@[simp] theorem breakCount_append (s t : List Char) :
    breakCount (s ++ t) = breakCount s + breakCount t :=
  List.countP_append

theorem breakCount_cons (c : Char) (s : List Char) :
    breakCount (c :: s) = breakCount s + if isLineBreak c then 1 else 0 :=
  List.countP_cons

theorem isBlank_of_isLineBreak {c : Char} (h : isLineBreak c = true) :
    isBlank c = true := by
  simp only [isLineBreak, Bool.or_eq_true, beq_iff_eq] at h
  rcases h with rfl | rfl <;> rfl

theorem breakCount_eq_zero {s : List Char} :
    breakCount s = 0 ↔ s.any isLineBreak = false := by
  rw [breakCount, List.countP_eq_zero, List.any_eq_false]

/-! ### Blanks -/

theorem visible_collapseFrom (inRun : Bool) (s : List Char) :
    visible (collapseFrom inRun s) = visible s := by
  induction s generalizing inRun with
  | nil => rfl
  | cons c r ih =>
    unfold collapseFrom
    by_cases hc : isBlank c = true
    · have hspace : isBlank ' ' = true := rfl
      cases inRun <;> simp [hc, hspace, visible_cons, ih]
    · simp [hc, visible_cons, ih]

theorem breakCount_collapseFrom (inRun : Bool) (s : List Char) :
    breakCount (collapseFrom inRun s) ≤ breakCount s := by
  induction s generalizing inRun with
  | nil => exact Nat.le_refl _
  | cons c r ih =>
    have hr := ih true
    have hr' := ih false
    have hspace : isLineBreak ' ' = false := rfl
    unfold collapseFrom
    split
    · split <;> simp only [breakCount_cons, hspace, Bool.false_eq_true,
        if_false] <;> omega
    · simp only [breakCount_cons]
      omega

theorem visible_trimStart (s : List Char) : visible (trimStart s) = visible s := by
  induction s with
  | nil => rfl
  | cons c r ih =>
    by_cases hc : isBlank c = true
    · rw [trimStart, List.dropWhile_cons_of_pos hc, visible_cons, if_pos hc]
      exact ih
    · rw [trimStart, List.dropWhile_cons_of_neg hc]

theorem breakCount_trimStart (s : List Char) : breakCount (trimStart s) ≤ breakCount s :=
  (List.dropWhile_sublist _).countP_le

theorem trimEnd_cons (c : Char) (r : List Char) :
    trimEnd (c :: r) = c :: trimEnd r ∨
      (trimEnd r = [] ∧ isBlank c = true ∧ trimEnd (c :: r) = []) := by
  rcases h : trimEnd r with - | ⟨d, t⟩
  · by_cases hc : isBlank c = true <;> simp [trimEnd, h, hc]
  · simp [trimEnd, h]

theorem visible_trimEnd (s : List Char) : visible (trimEnd s) = visible s := by
  induction s with
  | nil => rfl
  | cons c r ih =>
    rcases trimEnd_cons c r with h | ⟨hr, hc, h⟩
    · rw [h, visible_cons, visible_cons, ih]
    · rw [h, visible_cons, if_pos hc, ← ih, hr]

theorem breakCount_trimEnd (s : List Char) : breakCount (trimEnd s) ≤ breakCount s := by
  induction s with
  | nil => exact Nat.le_refl _
  | cons c r ih =>
    rcases trimEnd_cons c r with h | ⟨-, -, h⟩
    · rw [h, breakCount_cons, breakCount_cons]
      omega
    · rw [h]
      exact Nat.zero_le _

/-! ### Line breaks -/

theorem visible_joinLinesAfter (last : Option Char) (s : List Char) :
    visible (joinLinesAfter last s) = visible s := by
  have hspace : isBlank ' ' = true := rfl
  fun_induction joinLinesAfter last s with
  | case1 => rfl
  | case2 c r hc a b hb _ ih => simp [visible_cons, isBlank_of_isLineBreak hc, hspace, ih]
  | case3 c r hc a b hb _ ih => simp [visible_cons, isBlank_of_isLineBreak hc, ih]
  | case4 last c r hc _ ih => simp [visible_cons, isBlank_of_isLineBreak hc, ih]
  | case5 last c r hc ih => simp [visible_cons, ih]

/-- Joined lines are one line. -/
theorem breakCount_joinLinesAfter (last : Option Char) (s : List Char) :
    breakCount (joinLinesAfter last s) = 0 := by
  have hspace : isLineBreak ' ' = false := rfl
  fun_induction joinLinesAfter last s with
  | case1 => rfl
  | case2 c r hc a b hb _ ih => simp [breakCount_cons, hspace, ih]
  | case3 c r hc a b hb _ ih => exact ih
  | case4 last c r hc _ ih => exact ih
  | case5 last c r hc ih => simp [breakCount_cons, hc, ih]

/-! ### Segments -/

theorem text_finish (kind : SegmentKind) (taken : List Char) :
    (finish kind taken).flatMap Segment.text = taken.reverse := by
  cases taken <;> simp [finish]

theorem text_segmentsFrom (mode : Mode) (taken text : List Char) :
    (segmentsFrom mode taken text).flatMap Segment.text = taken.reverse ++ text := by
  fun_induction segmentsFrom mode taken text <;> simp_all [text_finish]

/-- The segments of a gap spell it. -/
theorem text_segments (text : List Char) : (segments text).flatMap Segment.text = text :=
  text_segmentsFrom .code [] text

theorem visible_compact (s : Segment) : visible s.compact = visible s.text := by
  obtain ⟨kind, text⟩ := s
  cases kind with
  | code => exact (visible_collapseFrom false _).trans (visible_joinLinesAfter none text)
  | verbatim => rfl
  | lineComment => rfl

theorem breakCount_compact_code {s : Segment} (h : s.kind = .code) :
    breakCount s.compact = 0 := by
  obtain ⟨kind, text⟩ := s
  subst h
  have hjoin := breakCount_joinLinesAfter none text
  have := breakCount_collapseFrom false (joinLines text)
  simp only [Segment.compact, collapse]
  unfold joinLines at this ⊢
  omega

theorem breakCount_compact (s : Segment) : breakCount s.compact ≤ breakCount s.text := by
  obtain ⟨kind, text⟩ := s
  cases kind with
  | code =>
    rw [breakCount_compact_code rfl]
    exact Nat.zero_le _
  | verbatim => exact Nat.le_refl _
  | lineComment => exact Nat.le_refl _

/-! ### Gaps -/

theorem visible_flatMap_compact (l : List Segment) :
    visible (l.flatMap Segment.compact) = visible (l.flatMap Segment.text) := by
  induction l with
  | nil => rfl
  | cons s l ih => simp [visible_compact, ih]

theorem visible_compactGap (text : List Char) :
    visible (compactGap text) = visible text := by
  rw [compactGap, visible_flatMap_compact, text_segments]

theorem breakCount_flatMap_compact (l : List Segment) :
    breakCount (l.flatMap Segment.compact) ≤ breakCount (l.flatMap Segment.text) := by
  induction l with
  | nil => exact Nat.le_refl _
  | cons s l ih =>
    have := breakCount_compact s
    simp only [List.flatMap_cons, breakCount_append]
    omega

theorem breakCount_compactGap (text : List Char) :
    breakCount (compactGap text) ≤ breakCount text := by
  have := breakCount_flatMap_compact (segments text)
  rwa [text_segments] at this

theorem breakCount_flatMap_compact_lt {l : List Segment} {s : Segment} (hs : s ∈ l)
    (hcode : s.kind = .code) (hbreak : s.text.any isLineBreak = true) :
    breakCount (l.flatMap Segment.compact) < breakCount (l.flatMap Segment.text) := by
  obtain ⟨before, after, rfl⟩ := List.append_of_mem hs
  have hbefore := breakCount_flatMap_compact before
  have hafter := breakCount_flatMap_compact after
  have hzero := breakCount_compact_code hcode
  have hpos : breakCount s.text ≠ 0 :=
    fun h => by rw [breakCount_eq_zero.1 h] at hbreak; cases hbreak
  simp only [List.flatMap_append, List.flatMap_cons, breakCount_append]
  omega

/-- Joining the lines of a gap that spreads over several takes a break away. -/
theorem breakCount_compactGap_lt {text : List Char} (h : hasLineBreak text = true) :
    breakCount (compactGap text) < breakCount text := by
  obtain ⟨s, hs, hkind⟩ := List.any_eq_true.1 h
  simp only [Bool.and_eq_true, beq_iff_eq] at hkind
  have := breakCount_flatMap_compact_lt hs hkind.1 hkind.2
  rwa [text_segments] at this

/-! ### Pieces -/

theorem visible_piece (p : Piece) : visible p.compact = visible p.text := by
  cases p with
  | gap t => exact visible_compactGap t
  | argument t => rfl

theorem breakCount_piece (p : Piece) : breakCount p.compact ≤ breakCount p.text := by
  cases p with
  | gap t => exact breakCount_compactGap t
  | argument t => exact Nat.le_refl _

theorem visible_flatMap_piece (ps : List Piece) :
    visible (ps.flatMap Piece.compact) = visible (ps.flatMap Piece.text) := by
  induction ps with
  | nil => rfl
  | cons p ps ih => simp [visible_piece, ih]

theorem visible_compactLeading (ps : List Piece) :
    visible (compactLeading ps) = visible (ps.flatMap Piece.compact) := by
  rcases ps with - | ⟨t | t, ps⟩
  · rfl
  · simp [compactLeading, visible_trimStart, Piece.compact]
  · rfl

theorem visible_compactTrailing (ps : List Piece) :
    visible (compactTrailing ps) = visible (ps.flatMap Piece.compact) := by
  fun_induction compactTrailing ps with
  | case1 => rfl
  | case2 t => simp [visible_trimEnd, Piece.compact]
  | case3 p rest _ ih => simp [ih]

/-- The one-line form of a zone shows the same characters. -/
theorem visible_compactPieces (side : Side) (ps : List Piece) :
    visible (compactPieces side ps) = visible (ps.flatMap Piece.text) := by
  rw [← visible_flatMap_piece]
  cases side with
  | leading => exact visible_compactLeading ps
  | trailing => exact visible_compactTrailing ps

theorem breakCount_compactLeading (ps : List Piece) :
    breakCount (compactLeading ps) ≤ breakCount (ps.flatMap Piece.compact) := by
  rcases ps with - | ⟨t | t, ps⟩
  · exact Nat.le_refl _
  · have := breakCount_trimStart (compactGap t)
    simp only [compactLeading, List.flatMap_cons, Piece.compact, breakCount_append]
    omega
  · exact Nat.le_refl _

theorem breakCount_compactTrailing (ps : List Piece) :
    breakCount (compactTrailing ps) ≤ breakCount (ps.flatMap Piece.compact) := by
  fun_induction compactTrailing ps with
  | case1 => exact Nat.le_refl _
  | case2 t =>
    have := breakCount_trimEnd (compactGap t)
    simpa [Piece.compact] using this
  | case3 p rest _ ih =>
    simp only [List.flatMap_cons, breakCount_append]
    omega

theorem breakCount_flatMap_piece_lt {ps : List Piece} (h : piecesBreak ps = true) :
    breakCount (ps.flatMap Piece.compact) < breakCount (ps.flatMap Piece.text) := by
  have hle (qs : List Piece) :
      breakCount (qs.flatMap Piece.compact) ≤ breakCount (qs.flatMap Piece.text) := by
    induction qs with
    | nil => exact Nat.le_refl _
    | cons q qs ih =>
      have := breakCount_piece q
      simp only [List.flatMap_cons, breakCount_append]
      omega
  -- one gap loses a break, and the pieces around it gain none
  obtain ⟨p, hp, hbreak⟩ := List.any_eq_true.1 h
  obtain ⟨before, after, rfl⟩ := List.append_of_mem hp
  have hbefore := hle before
  have hafter := hle after
  cases p with
  | argument t => cases hbreak
  | gap t =>
    have hgap := breakCount_compactGap_lt hbreak
    simp only [List.flatMap_append, List.flatMap_cons, breakCount_append,
      Piece.compact, Piece.text]
    omega

/-- The one-line form of a zone that spreads over several lines has fewer line
breaks. -/
theorem breakCount_compactPieces_lt (side : Side) {ps : List Piece}
    (h : piecesBreak ps = true) :
    breakCount (compactPieces side ps) < breakCount (ps.flatMap Piece.text) := by
  have hlt := breakCount_flatMap_piece_lt h
  cases side with
  | leading => exact Nat.lt_of_le_of_lt (breakCount_compactLeading ps) hlt
  | trailing => exact Nat.lt_of_le_of_lt (breakCount_compactTrailing ps) hlt

end AnimLint
