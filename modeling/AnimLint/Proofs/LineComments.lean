/-
AnimLint/Proofs/LineComments.lean

Gaps with line comments in them.  In the grammar of scripts a line comment ends
in front of the next line end: a line feed, a carriage return or one of the two
separators.  The reader of gaps lets it run up to the next line feed.  So the
first line comment of a gap is always noticed, and what the reader makes of the
gap from there on depends on one thing only, whether a line feed follows
anywhere (`hasLineBreak_scrapsText`).

The two readings agree on line comments, and they agree on line breaks where the
first line comment ends with a line feed, with a carriage return and a line
feed, or with the gap (`classify_scrapsText`).
-/
import AnimLint.Proofs.GapText

namespace AnimLint

open Text Gap Script Mark

/-! ### The grammar -/

/-- What a gap is made of. -/
inductive Scrap
  /-- A blank, a comma or a block comment. -/
  | mark (m : Mark)
  /-- A line comment, without the two characters that open it and without the
  end of its line. -/
  | line (rest : List Char)
deriving DecidableEq

namespace Scrap

/-- The text of a scrap. -/
def text : Scrap → List Char
  | mark m => m.text
  | line rest => '/' :: '/' :: rest

/-- Holds of line comments. -/
def isLine : Scrap → Bool
  | mark _ => false
  | line _ => true

/-- Holds of the line breaks outside comments. -/
def isBreak : Scrap → Bool
  | mark m => m.isBreak
  | line _ => false

/-- The text of a row of scraps. -/
def scrapsText (row : List Scrap) : List Char := row.flatMap text

@[simp] theorem scrapsText_nil : scrapsText [] = [] := rfl

@[simp] theorem scrapsText_cons (s : Scrap) (row : List Scrap) :
    scrapsText (s :: row) = s.text ++ scrapsText row :=
  List.flatMap_cons

/-- Holds of rows whose comments are complete: a block comment is closed once,
at its end, and a line comment holds no line end but has one, or nothing, behind
it. -/
def areComplete : List Scrap → Bool
  | [] => true
  | mark m :: row => m.isProper && areComplete row
  | line rest :: row =>
    rest.all (!isLineEnd ·) && (scrapsText row).head?.all isLineEnd && areComplete row

/-- Holds if lines break where the reader of gaps looks for it: outside comments
as far as the first line comment, and from there on at any line feed. -/
def showsBreak : List Scrap → Bool
  | [] => false
  | mark m :: row => m.isBreak || showsBreak row
  | line _ :: row => (scrapsText row).contains '\n'

/-- Holds if the first line comment ends with a line feed, with a carriage
return and a line feed, or with the row, unless a line break comes before it. -/
def endsPlainly : List Scrap → Bool
  | [] => true
  | mark m :: row => m.isBreak || endsPlainly row
  | line _ :: row =>
    match scrapsText row with
    | [] => true
    | '\n' :: _ => true
    | '\r' :: '\n' :: _ => true
    | _ => false

end Scrap

open Scrap

/-! ### Breaks in a row of segments -/

/-- Holds if a segment of code has a line break in it. -/
def codeBreaks (l : List Segment) : Bool :=
  l.any fun s => s.kind == .code && s.text.any isLineBreak

@[simp] theorem codeBreaks_append (a b : List Segment) :
    codeBreaks (a ++ b) = (codeBreaks a || codeBreaks b) :=
  List.any_append

theorem codeBreaks_finish_code (taken : List Char) :
    codeBreaks (finish .code taken) = taken.any isLineBreak := by
  rcases taken with - | ⟨c, taken⟩
  · rfl
  · rw [finish_of_ne_nil .code (List.cons_ne_nil _ _)]
    simp [codeBreaks, Bool.or_comm]

/-- A line break that was read as code is not lost. -/
theorem codeBreaks_segmentsFrom_code {taken : List Char}
    (h : taken.any isLineBreak = true)
    (s : List Char) : codeBreaks (segmentsFrom .code taken s) = true := by
  have hopen : codeBreaks (finish .code taken) = true := by rw [codeBreaks_finish_code, h]
  generalize hmode : Mode.code = mode
  fun_induction segmentsFrom mode taken s with
  | case1 mode taken =>
    subst hmode
    exact hopen
  | case2 taken r => rw [codeBreaks_append, hopen, Bool.true_or]
  | case3 taken r => rw [codeBreaks_append, hopen, Bool.true_or]
  | case4 taken c r => rw [codeBreaks_append, hopen, Bool.true_or]
  | case5 taken c r _ _ _ ih =>
    have hnext : (c :: taken).any isLineBreak = true := by
      rw [List.any_cons, h, Bool.or_true]
    exact ih hnext (by rw [codeBreaks_finish_code, hnext]) rfl
  | _ => cases hmode

/-- Behind a line comment lines break if a line feed follows. -/
theorem codeBreaks_segmentsFrom_line {taken : List Char} (h : taken ≠ [])
    (s : List Char) :
    codeBreaks (segmentsFrom .line taken s) = s.contains '\n' := by
  induction s generalizing taken with
  | nil => rw [segmentsFrom, Mode.kind, finish_of_ne_nil _ h]; rfl
  | cons c s ih =>
    rw [segmentsFrom]
    split
    · next hc =>
      obtain rfl : c = '\n' := by simpa using hc
      rw [codeBreaks_append, codeBreaks_segmentsFrom_code rfl, Bool.or_true]
      simp
    · next hc =>
      rw [ih (List.cons_ne_nil _ _)]
      have hne : c ≠ '\n' := fun heq => hc (by simp [heq])
      simp [Ne.symm hne]

/-! ### What the reader makes of a row -/

/-- A row is marks alone, or marks and a first line comment. -/
theorem Scrap.cases_marks {row : List Scrap} (h : areComplete row = true) :
    (∃ ms : List Mark, ms.all isProper = true ∧ row = ms.map mark) ∨
      ∃ (ms : List Mark) (rest : List Char) (after : List Scrap), ms.all isProper = true ∧
        areComplete (line rest :: after) = true ∧
        row = ms.map mark ++ line rest :: after := by
  induction row with
  | nil => exact .inl ⟨[], rfl, rfl⟩
  | cons s row ih =>
    cases s with
    | mark m =>
      simp only [areComplete, Bool.and_eq_true] at h
      have hcons {ms : List Mark} (hms : ms.all isProper = true) :
          (m :: ms).all isProper = true := by
        rw [List.all_cons, h.1, hms]
        rfl
      rcases ih h.2 with ⟨ms, hms, rfl⟩ | ⟨ms, rest, after, hms, hline, rfl⟩
      · exact .inl ⟨m :: ms, hcons hms, rfl⟩
      · exact .inr ⟨m :: ms, rest, after, hcons hms, hline, rfl⟩
    | line rest => exact .inr ⟨[], rest, row, rfl, h, rfl⟩

theorem scrapsText_map_mark (ms : List Mark) :
    scrapsText (ms.map mark) = marksText ms := by
  rw [scrapsText, List.flatMap_map]
  rfl

theorem scrapsText_line (ms : List Mark) (rest : List Char) (after : List Scrap) :
    scrapsText (ms.map mark ++ line rest :: after) =
      marksText ms ++ '/' :: '/' :: (rest ++ scrapsText after) := by
  have happend : scrapsText (ms.map mark ++ line rest :: after) =
      scrapsText (ms.map mark) ++ scrapsText (line rest :: after) := List.flatMap_append
  rw [happend, scrapsText_map_mark]
  rfl

theorem showsBreak_map_mark (ms : List Mark) (row : List Scrap) :
    showsBreak (ms.map mark ++ row) = (ms.any Mark.isBreak || showsBreak row) := by
  induction ms with
  | nil => rfl
  | cons m ms ih =>
    rw [List.map_cons, List.cons_append, showsBreak, ih, List.any_cons, Bool.or_assoc]

theorem any_isLine_map_mark (ms : List Mark) : (ms.map mark).any isLine = false := by
  rw [List.any_map]
  exact List.any_eq_false.2 fun _ _ => Bool.false_ne_true

/-- A line comment is noticed if there is one. -/
theorem hasLineComment_scrapsText {row : List Scrap} (h : areComplete row = true) :
    hasLineComment (scrapsText row) = row.any isLine := by
  rcases Scrap.cases_marks h with ⟨ms, hms, rfl⟩ | ⟨ms, rest, after, hms, -, rfl⟩
  · rw [scrapsText_map_mark, hasLineComment_marksText_eq_false hms, any_isLine_map_mark]
  · rw [scrapsText_line, hasLineComment_marksText hms, List.any_append,
      List.any_cons, isLine, Bool.true_or, Bool.or_true]

/-- Where the reader of gaps sees lines break. -/
theorem hasLineBreak_scrapsText {row : List Scrap} (h : areComplete row = true) :
    hasLineBreak (scrapsText row) = showsBreak row := by
  rcases Scrap.cases_marks h with ⟨ms, hms, rfl⟩ | ⟨ms, rest, after, hms, hline, rfl⟩
  · have hshows := showsBreak_map_mark ms []
    rw [List.append_nil, showsBreak, Bool.or_false] at hshows
    rw [scrapsText_map_mark, hasLineBreak_marksText hms, hshows]
  · -- the comment itself holds no line feed, so one that follows stands behind it
    have hrest : (rest ++ scrapsText after).contains '\n' =
        (scrapsText after).contains '\n' := by
      have hnot : '\n' ∉ rest := by
        intro hmem
        simp only [areComplete, Bool.and_eq_true, List.all_eq_true] at hline
        cases hline.1.1 _ hmem
      simp [hnot]
    have hmarks : codeBreaks (closedSegments [] ms ++ finish .code (openSegment [] ms)) =
        ms.any Mark.isBreak := hasBreak_marks ms []
    have hread : segments (scrapsText (ms.map mark ++ line rest :: after)) =
        closedSegments [] ms ++ finish .code (openSegment [] ms) ++
          segmentsFrom .line ['/', '/'] (rest ++ scrapsText after) := by
      rw [scrapsText_line, segments, segmentsFrom_marksText hms, segmentsFrom,
        List.append_assoc]
    calc
      hasLineBreak (scrapsText (ms.map mark ++ line rest :: after))
        = codeBreaks (segments (scrapsText (ms.map mark ++ line rest :: after))) := rfl
      _ = (ms.any Mark.isBreak || (scrapsText after).contains '\n') := by
        rw [hread, codeBreaks_append, hmarks,
          codeBreaks_segmentsFrom_line (List.cons_ne_nil _ _), hrest]
      _ = showsBreak (ms.map mark ++ line rest :: after) := by
        rw [showsBreak_map_mark, showsBreak]

/-! ### Where the two readings agree -/

/-- A line break at the front of a row stands outside comments. -/
theorem any_isBreak_of_head {row : List Scrap} {c : Char} {s : List Char}
    (htext : scrapsText row = c :: s) (hc : isLineBreak c = true) :
    row.any Scrap.isBreak = true := by
  rcases row with - | ⟨m | rest, row⟩
  · cases htext
  · cases m with
    | char d =>
      obtain ⟨rfl, -⟩ := List.cons.inj htext
      have hbreak : Scrap.isBreak (mark (.char d)) = true := hc
      rw [List.any_cons, hbreak, Bool.true_or]
    | comment rest =>
      obtain ⟨rfl, -⟩ := List.cons.inj htext
      cases hc
  · obtain ⟨rfl, -⟩ := List.cons.inj htext
    cases hc

/-- Where the first line comment ends plainly, the reader sees the breaks that
are there. -/
theorem showsBreak_of_endsPlainly {row : List Scrap} (h : endsPlainly row = true) :
    showsBreak row = row.any Scrap.isBreak := by
  induction row with
  | nil => rfl
  | cons s row ih =>
    cases s with
    | mark m =>
      rw [endsPlainly, Bool.or_eq_true] at h
      rw [showsBreak, List.any_cons, Scrap.isBreak]
      rcases hm : m.isBreak with - | -
      · rw [Bool.false_or, Bool.false_or, ih (h.resolve_left (by simp [hm]))]
      · rw [Bool.true_or, Bool.true_or]
    | line rest =>
      rw [showsBreak, List.any_cons, Scrap.isBreak, Bool.false_or]
      rw [endsPlainly] at h
      split at h
      · next htext =>
        rcases row with - | ⟨s, row⟩
        · rfl
        · rw [scrapsText_cons] at htext
          rcases s with (c | r) | r <;> cases htext
      · next s htext =>
        rw [htext, any_isBreak_of_head htext rfl]
        simp
      · next s htext =>
        rw [htext, any_isBreak_of_head htext rfl]
        simp
      · cases h

/-- What is told of a gap, against the grammar of comments.  A line comment is
noticed exactly if the gap has one.  Lines are seen to break exactly if a break
stands outside comments as far as the first line comment, or a line feed
anywhere behind that; and if the first line comment ends with a line feed, with
a carriage return and a line feed, or with the gap, exactly if a break stands
outside comments. -/
theorem classify_scrapsText {row : List Scrap} (h : areComplete row = true) :
    hasLineComment (scrapsText row) = row.any isLine ∧
      hasLineBreak (scrapsText row) = showsBreak row ∧
      (endsPlainly row = true → hasLineBreak (scrapsText row) =
        row.any Scrap.isBreak) := by
  refine ⟨hasLineComment_scrapsText h, hasLineBreak_scrapsText h, fun hplain => ?_⟩
  rw [hasLineBreak_scrapsText h, showsBreak_of_endsPlainly hplain]

theorem classify_scrapsText_feed :
    hasLineComment ", /* \" */ // b\n".toList = true ∧
    hasLineBreak ", /* \" */ // b\n".toList = true := by
  -- the quote in the block comment opens no literal
  let row : List Scrap :=
    [.mark (.char ','), .mark (.char ' '), .mark (.comment " \" */".toList),
      .mark (.char ' '), .line " b".toList, .mark (.char '\n')]
  have hrow : areComplete row = true := by decide
  have hplain : endsPlainly row = true := by decide
  exact ⟨(classify_scrapsText hrow).1, (classify_scrapsText hrow).2.2 hplain⟩

/-- Where a line comment ends with a carriage return alone or with a separator
the reader runs on: it overlooks a break outside comments, and takes one inside
a comment for one outside. -/
theorem hasLineBreak_ne_isBreak :
    (∃ row, areComplete row = true ∧ row.any Scrap.isBreak = true ∧
      hasLineBreak (scrapsText row) = false) ∧
    ∃ row, areComplete row = true ∧ row.any Scrap.isBreak = false ∧
      hasLineBreak (scrapsText row) = true :=
  ⟨⟨[.line " a".toList, .mark (.char '\r')], by decide⟩,
    ⟨[.line " a".toList, .mark (.char '\u2028'),
      .mark (.comment "\n*/".toList)], by decide⟩⟩

end AnimLint
