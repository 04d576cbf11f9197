/-
AnimLint/Proofs/LineEndings.lean

Line feeds with carriage returns in front of them end lines like line feeds
alone.  A text with returns (`Text.withReturns`) is cut into segments where the
text without them is cut, except that the return in front of the line feed that
ends a line comment is read as part of the comment (`forall₂_segmentsFrom`).  In
code both characters go when lines are joined, and the space that is left for
them is left once (`Returned.joinLinesAfter`); literals and comments keep their
returns.

So a gap has a line break, or a line comment, if it has one without returns, and
without line comments its one-line form is the same but for the returns in
literals and comments.  From gaps this goes up to the zones of a call.
-/
import Mathlib.Data.List.Forall2
import AnimLint.Proofs.Carrying
import AnimLint.Proofs.Legibility

namespace AnimLint

open Text Gap

/-! ### Texts -/

/-- A text with a carriage return put in front of each line feed. -/
def Text.withReturns : List Char → List Char
  | [] => []
  | c :: r => if c = '\n' then '\r' :: '\n' :: withReturns r else c :: withReturns r

namespace Text

@[simp] theorem withReturns_nil : withReturns [] = [] := rfl

theorem withReturns_feed (r : List Char) :
    withReturns ('\n' :: r) = '\r' :: '\n' :: withReturns r := by
  rw [withReturns, if_pos rfl]

theorem withReturns_cons {c : Char} (hc : c ≠ '\n') (r : List Char) :
    withReturns (c :: r) = c :: withReturns r := by
  rw [withReturns, if_neg hc]

@[simp] theorem withReturns_append (s t : List Char) :
    withReturns (s ++ t) = withReturns s ++ withReturns t := by
  induction s with
  | nil => rfl
  | cons c s ih =>
    by_cases hc : c = '\n'
    · subst hc
      rw [List.cons_append, withReturns_feed, withReturns_feed, ih]
      rfl
    · rw [List.cons_append, withReturns_cons hc, withReturns_cons hc, ih]
      rfl

theorem withReturns_eq_nil {s : List Char} : withReturns s = [] ↔ s = [] := by
  rcases s with - | ⟨c, s⟩
  · exact Iff.rfl
  · by_cases hc : c = '\n' <;> simp [withReturns, hc]

theorem withReturns_of_not_mem {s : List Char} (h : '\n' ∉ s) : withReturns s = s := by
  induction s with
  | nil => rfl
  | cons c s ih =>
    rw [List.mem_cons, not_or] at h
    rw [withReturns_cons (Ne.symm h.1), ih h.2]

/-- What holds of a return and of what a text starts with, holds of what it
starts with then. -/
theorem forall_head?_withReturns {p : Char → Prop} (hreturn : p '\r') {s : List Char}
    (h : ∀ b ∈ s.head?, p b) : ∀ b ∈ (withReturns s).head?, p b := by
  rcases s with - | ⟨c, s⟩
  · exact h
  · intro b hb
    by_cases hc : c = '\n'
    · rw [hc, withReturns_feed] at hb
      obtain rfl := Option.some.inj hb
      exact hreturn
    · rw [withReturns_cons hc] at hb
      exact h b hb

theorem trimStart_withReturns (s : List Char) :
    trimStart (withReturns s) = withReturns (trimStart s) := by
  induction s with
  | nil => rfl
  | cons c s ih =>
    have hreturn : isBlank '\r' = true := rfl
    by_cases hc : c = '\n'
    · subst hc
      rw [withReturns_feed]
      exact ih
    · rw [withReturns_cons hc]
      rcases hblank : isBlank c with - | -
      · rw [trimStart, trimStart, List.dropWhile_cons_of_neg (by simp [hblank]),
          List.dropWhile_cons_of_neg (by simp [hblank]), withReturns_cons hc]
      · rw [trimStart, trimStart, List.dropWhile_cons_of_pos hblank,
          List.dropWhile_cons_of_pos hblank]
        exact ih

theorem trimEnd_withReturns (s : List Char) :
    trimEnd (withReturns s) = withReturns (trimEnd s) := by
  induction s with
  | nil => rfl
  | cons c s ih =>
    by_cases hc : c = '\n'
    · subst hc
      rw [withReturns_feed, trimEnd, trimEnd, trimEnd, ih]
      rcases ht : trimEnd s with - | ⟨d, t⟩
      · rfl
      · rcases hw : withReturns (d :: t) with - | ⟨e, u⟩
        · exact absurd (withReturns_eq_nil.1 hw) (List.cons_ne_nil d t)
        · simp only [withReturns_feed, hw]
    · rw [withReturns_cons hc, trimEnd, trimEnd, ih]
      rcases ht : trimEnd s with - | ⟨d, t⟩
      · simp only [withReturns_nil]
        split
        · rfl
        · rw [withReturns_cons hc, withReturns_nil]
      · rcases hw : withReturns (d :: t) with - | ⟨e, u⟩
        · exact absurd (withReturns_eq_nil.1 hw) (List.cons_ne_nil d t)
        · simp only [withReturns_cons hc, hw]

end Text

/-! ### Code -/

namespace Gap

/-- Holds of texts of which the second is the first with returns in front of
some of its line feeds. -/
inductive Returned : List Char → List Char → Prop
  | nil : Returned [] []
  | keep (c : Char) {a a' : List Char} : Returned a a' → Returned (c :: a) (c :: a')
  | feed {a a' : List Char} : Returned a a' → Returned ('\n' :: a) ('\r' :: '\n' :: a')

namespace Returned

variable {a a' b b' : List Char}

theorem append (h : Returned a a') (hb : Returned b b') :
    Returned (a ++ b) (a' ++ b') := by
  induction h with
  | nil => exact hb
  | keep c _ ih => exact .keep c ih
  | feed _ ih => exact .feed ih

theorem eq_nil_iff (h : Returned a a') : a = [] ↔ a' = [] := by
  cases h <;> simp

theorem any_isLineBreak (h : Returned a a') : a'.any isLineBreak = a.any isLineBreak := by
  induction h with
  | nil => rfl
  | keep c _ ih => rw [List.any_cons, List.any_cons, ih]
  | feed _ _ => rfl

theorem find_noBreak (h : Returned a a') :
    a'.find? (!isLineBreak ·) = a.find? (!isLineBreak ·) := by
  induction h with
  | nil => rfl
  | keep c _ ih => rw [List.find?_cons, List.find?_cons, ih]
  | feed _ ih => exact ih

/-- Joining lines takes out a line feed with its return as it takes out the line
feed alone: after the space that is left for the one, none is left for the
other. -/
theorem joinLinesAfter (h : Returned a a') (last : Option Char) :
    Gap.joinLinesAfter last a' = Gap.joinLinesAfter last a := by
  induction h generalizing last with
  | nil => rfl
  | keep c h ih => simp only [Gap.joinLinesAfter, ih, h.find_noBreak]
  | @feed a a' h ih =>
    have hspace (b : Char) : runTogether ' ' b = false := runTogether_of_isSoft rfl b
    have hfeed : isLineBreak '\n' = true := rfl
    have hreturn : isLineBreak '\r' = true := rfl
    simp only [Gap.joinLinesAfter, hfeed, hreturn, if_true, List.find?_cons,
      Bool.not_true, ih, h.find_noBreak]
    rcases last with - | p
    · rfl
    · rcases hnext : a.find? (!isLineBreak ·) with - | b
      · rfl
      · rcases hglue : runTogether p b with - | -
        · simp [hglue]
        · simp [hglue, hspace]

end Returned

/-! ### Segments -/

/-- Holds of segments of which the second is what the first becomes with
returns. -/
def Segment.Twin (s s' : Segment) : Prop :=
  s'.kind = s.kind ∧
    match s.kind with
    | .code => Returned s.text s'.text
    | .verbatim => s'.text = withReturns s.text
    | .lineComment => s.text ≠ [] ∧ s'.text ≠ []

namespace Segment.Twin

variable {kind : SegmentKind} {t t' : List Char}

theorem eq_nil_iff (h : Twin ⟨kind, t⟩ ⟨kind, t'⟩) : t = [] ↔ t' = [] := by
  obtain ⟨-, h⟩ := h
  cases kind with
  | code => exact Returned.eq_nil_iff h
  | verbatim =>
    obtain rfl : t' = withReturns t := h
    exact withReturns_eq_nil.symm
  | lineComment => exact iff_of_false h.1 h.2

/-- One more character may stand behind, a line feed with its return. -/
theorem append_singleton (h : Twin ⟨kind, t⟩ ⟨kind, t'⟩) (c : Char) :
    Twin ⟨kind, t ++ [c]⟩ ⟨kind, t' ++ withReturns [c]⟩ := by
  obtain ⟨-, h⟩ := h
  refine ⟨rfl, ?_⟩
  cases kind with
  | code =>
    refine Returned.append h ?_
    by_cases hc : c = '\n'
    · subst hc
      exact .feed .nil
    · rw [withReturns_cons hc]
      exact .keep c .nil
  | verbatim =>
    obtain rfl : t' = withReturns t := h
    exact (withReturns_append t [c]).symm
  | lineComment =>
    exact ⟨List.append_ne_nil_of_left_ne_nil h.1 _,
      List.append_ne_nil_of_left_ne_nil h.2 _⟩

end Segment.Twin

/-- The same of characters that were read in a mode, which are kept in
reverse. -/
def Mode.Twin (mode : Mode) (taken taken' : List Char) : Prop :=
  Segment.Twin ⟨mode.kind, taken.reverse⟩ ⟨mode.kind, taken'.reverse⟩

/-- The characters read, in reverse, with one more of them, a line feed with its
return. -/
def returnsOn (c : Char) (taken : List Char) : List Char :=
  (withReturns [c]).reverse ++ taken

theorem returnsOn_of_ne {c : Char} (hc : c ≠ '\n') (taken : List Char) :
    returnsOn c taken = c :: taken := by
  rw [returnsOn, withReturns_cons hc]
  rfl

theorem Mode.Twin.returnsOn {mode : Mode} {taken taken' : List Char}
    (h : mode.Twin taken taken')
    (c : Char) : mode.Twin (c :: taken) (Gap.returnsOn c taken') := by
  have htwin := Segment.Twin.append_singleton h c
  rw [← List.reverse_cons] at htwin
  rw [Mode.Twin, Gap.returnsOn, List.reverse_append, List.reverse_reverse]
  exact htwin

theorem forall₂_finish {kind : SegmentKind} {taken taken' : List Char}
    (h : Segment.Twin ⟨kind, taken.reverse⟩ ⟨kind, taken'.reverse⟩) :
    List.Forall₂ Segment.Twin (finish kind taken) (finish kind taken') := by
  have hnil := h.eq_nil_iff
  rw [List.reverse_eq_nil_iff, List.reverse_eq_nil_iff] at hnil
  rcases taken with - | ⟨c, taken⟩
  · rw [hnil.1 rfl]
    exact .nil
  · rcases taken' with - | ⟨c', taken'⟩
    · exact absurd (hnil.2 rfl) (List.cons_ne_nil c taken)
    · exact .cons h .nil

/-- Holds of the modes that a gap is read in: what opens a literal is a
quote. -/
def Mode.isProper : Mode → Bool
  | .literal q => isQuote q
  | _ => true

/-- A return is read like any character. -/
theorem segmentsFrom_return {mode : Mode} (hmode : mode.isProper = true)
    (taken s : List Char) :
    segmentsFrom mode taken ('\r' :: s) = segmentsFrom mode ('\r' :: taken) s := by
  cases mode with
  | code => exact segmentsFrom_code_cons rfl (fun b _ => rfl) taken
  | literal q =>
    have hq : ('\r' == q) = false := by
      rcases isQuote_cases hmode with rfl | rfl | rfl <;> rfl
    rw [segmentsFrom_literal_cons (.inl (by decide)), hq, if_neg Bool.false_ne_true]
  | line => rfl
  | block => rfl

/-- A character that only moves the reader on does so with a return in front of
it as well. -/
theorem segmentsFrom_returnsOn {mode : Mode} (hmode : mode.isProper = true)
    {c : Char} {r : List Char}
    (hread : ∀ taken, segmentsFrom mode taken (c :: withReturns r) =
      segmentsFrom mode (c :: taken) (withReturns r)) (taken : List Char) :
    segmentsFrom mode taken (withReturns (c :: r)) =
      segmentsFrom mode (returnsOn c taken) (withReturns r) := by
  by_cases hc : c = '\n'
  · subst hc
    rw [withReturns_feed, segmentsFrom_return hmode, hread]
    rfl
  · rw [withReturns_cons hc, hread, returnsOn_of_ne hc]

/-- What a backslash stands in front of is read with its return. -/
theorem segmentsFrom_escape {q : Char} (hq : isQuote q = true)
    (taken : List Char) (c : Char) (r : List Char) :
    segmentsFrom (.literal q) taken ('\\' :: withReturns (c :: r)) =
      segmentsFrom (.literal q) (returnsOn c ('\\' :: taken)) (withReturns r) := by
  by_cases hc : c = '\n'
  · -- the backslash stands in front of the return, and the line feed stands alone
    subst hc
    have hfeed : ('\n' == q) = false := by
      rcases isQuote_cases hq with rfl | rfl | rfl <;> rfl
    rw [withReturns_feed, segmentsFrom,
      segmentsFrom_literal_cons (.inl (by decide)), hfeed, if_neg Bool.false_ne_true]
    rfl
  · rw [withReturns_cons hc, segmentsFrom, returnsOn_of_ne hc]

theorem opensComment_eq_false {c : Char} {r : List Char}
    (hline : ∀ r', c = '/' → r = '/' :: r' → False)
    (hblock : ∀ r', c = '/' → r = '*' :: r' → False) :
    ∀ b ∈ r.head?, opensComment c b = false := by
  intro b hb
  obtain ⟨r', rfl⟩ := List.head?_eq_some_iff.1 hb
  by_contra hb
  simp only [opensComment, Bool.not_eq_false, Bool.and_eq_true, beq_iff_eq,
    Bool.or_eq_true] at hb
  rcases hb with ⟨rfl, rfl | rfl⟩
  · exact hline r' rfl rfl
  · exact hblock r' rfl rfl

/-- A character that does not end a block comment does not end it with returns
behind it. -/
theorem segmentsFrom_block_cons {c : Char} {r : List Char}
    (hopen : ∀ r', c = '*' → r = '/' :: r' → False) (taken : List Char) :
    segmentsFrom .block taken (c :: withReturns r) =
      segmentsFrom .block (c :: taken) (withReturns r) := by
  rw [segmentsFrom]
  rintro r' rfl hr
  have hslash : ∀ b ∈ r.head?, b ≠ '/' := by
    rintro b hb rfl
    obtain ⟨r', rfl⟩ := List.head?_eq_some_iff.1 hb
    exact hopen r' rfl rfl
  have hhead := forall_head?_withReturns (p := (· ≠ '/')) (by decide) hslash
  rw [hr] at hhead
  exact hhead '/' rfl rfl

/-- A gap with returns is cut where the gap without them is cut; only a return
that ends a line comment falls to the comment. -/
theorem forall₂_segmentsFrom {mode : Mode} {taken taken' : List Char} (text : List Char)
    (hmode : mode.isProper = true) (h : mode.Twin taken taken') :
    List.Forall₂ Segment.Twin (segmentsFrom mode taken text)
      (segmentsFrom mode taken' (withReturns text)) := by
  fun_induction segmentsFrom mode taken text generalizing taken' with
  | case1 mode taken =>
    rw [withReturns_nil, segmentsFrom]
    exact forall₂_finish h
  | case2 taken r ih =>
    rw [withReturns_cons (by decide), withReturns_cons (by decide), segmentsFrom]
    exact List.rel_append (forall₂_finish h) (ih rfl ⟨rfl, by decide, by decide⟩)
  | case3 taken r ih =>
    rw [withReturns_cons (by decide), withReturns_cons (by decide), segmentsFrom]
    exact List.rel_append (forall₂_finish h) (ih rfl ⟨rfl, rfl⟩)
  | case4 taken c r hline hblock hquote ih =>
    have hc : c ≠ '\n' := by
      rintro rfl
      cases hquote
    have hopen : segmentsFrom .code taken' (c :: withReturns r) =
        finish .code taken' ++ segmentsFrom (.literal c) [c] (withReturns r) :=
      (Opener.quote hquote).segmentsFrom taken' (withReturns r)
    have htwin : (Mode.literal c).Twin [c] [c] := ⟨rfl, (withReturns_cons hc []).symm⟩
    rw [withReturns_cons hc, hopen]
    exact List.rel_append (forall₂_finish h) (ih hquote htwin)
  | case5 taken c r hline hblock hquote ih =>
    rw [segmentsFrom_returnsOn hmode]
    · exact ih hmode (h.returnsOn c)
    · exact segmentsFrom_code_cons (Bool.eq_false_iff.2 hquote)
        (forall_head?_withReturns (Bool.and_false _) (opensComment_eq_false hline hblock))
  | case6 q taken c r ih =>
    have hslash : ('\\' : Char) ≠ '\n' := by decide
    have htwin := (h.returnsOn '\\').returnsOn c
    rw [returnsOn_of_ne hslash] at htwin
    rw [withReturns_cons hslash, segmentsFrom_escape hmode]
    exact ih hmode htwin
  | case7 q taken c r hlast hclose ih =>
    obtain rfl : c = q := beq_iff_eq.1 hclose
    have hc : c ≠ '\n' ∧ c ≠ '\\' := by
      rcases isQuote_cases hmode with rfl | rfl | rfl <;> decide
    have htwin := h.returnsOn c
    rw [returnsOn_of_ne hc.1] at htwin
    rw [withReturns_cons hc.1, segmentsFrom_literal_cons (.inl hc.2), if_pos hclose]
    exact List.rel_append (forall₂_finish htwin) (ih rfl ⟨rfl, .nil⟩)
  | case8 q taken c r hlast hclose ih =>
    rw [segmentsFrom_returnsOn hmode]
    · exact ih hmode (h.returnsOn c)
    · intro taken
      rw [segmentsFrom_literal_cons, if_neg hclose]
      by_cases hc : c = '\\'
      · rcases r with - | ⟨d, r⟩
        · exact .inr rfl
        · exact (hlast d r hc rfl).elim
      · exact .inl hc
  | case9 taken c r hfeed ih =>
    obtain rfl : c = '\n' := by simpa using hfeed
    rw [withReturns_feed, segmentsFrom_return rfl, segmentsFrom, if_pos hfeed]
    have htwin : Segment.Twin ⟨.lineComment, taken.reverse⟩
        ⟨.lineComment, ('\r' :: taken').reverse⟩ :=
      ⟨rfl, h.2.1, by simp⟩
    exact List.rel_append (forall₂_finish htwin) (ih rfl ⟨rfl, .keep '\n' .nil⟩)
  | case10 taken c r hfeed ih =>
    have hc : c ≠ '\n' := by simpa using hfeed
    rw [segmentsFrom_returnsOn hmode]
    · exact ih hmode (h.returnsOn c)
    · intro taken
      rw [segmentsFrom, if_neg hfeed]
  | case11 taken r ih =>
    rw [withReturns_cons (by decide), withReturns_cons (by decide), segmentsFrom]
    have htwin := (h.returnsOn '*').returnsOn '/'
    rw [returnsOn_of_ne (by decide), returnsOn_of_ne (by decide)] at htwin
    exact List.rel_append (forall₂_finish htwin) (ih rfl ⟨rfl, .nil⟩)
  | case12 taken c r hopen ih =>
    rw [segmentsFrom_returnsOn hmode]
    · exact ih hmode (h.returnsOn c)
    · exact segmentsFrom_block_cons hopen

/-! ### Gaps -/

theorem any_eq_of_forall₂ {l l' : List Segment} (h : List.Forall₂ Segment.Twin l l')
    {p : Segment → Bool} (hp : ∀ s s', Segment.Twin s s' → p s' = p s) :
    l'.any p = l.any p := by
  induction h with
  | nil => rfl
  | cons hs _ ih => rw [List.any_cons, List.any_cons, hp _ _ hs, ih]

theorem forall₂_segments (text : List Char) :
    List.Forall₂ Segment.Twin (segments text) (segments (withReturns text)) :=
  forall₂_segmentsFrom text rfl ⟨rfl, .nil⟩

theorem hasLineBreak_withReturns (text : List Char) :
    hasLineBreak (withReturns text) = hasLineBreak text := by
  refine any_eq_of_forall₂ (forall₂_segments text) fun s s' h => ?_
  obtain ⟨kind, t⟩ := s
  obtain ⟨kind', t'⟩ := s'
  obtain ⟨rfl, h⟩ := h
  cases kind' with
  | code => exact congrArg _ (Returned.any_isLineBreak h)
  | verbatim => rfl
  | lineComment => rfl

theorem hasLineComment_withReturns (text : List Char) :
    hasLineComment (withReturns text) = hasLineComment text :=
  any_eq_of_forall₂ (forall₂_segments text) fun s s' h => by rw [h.1]

/-- No line feed is left of code. -/
theorem feed_not_mem_compact (t : List Char) : '\n' ∉ Segment.compact ⟨.code, t⟩ := by
  have hcount : breakCount (collapse (joinLines t)) ≤ breakCount (joinLines t) :=
    breakCount_collapseFrom false (joinLines t)
  have hnone : breakCount (collapse (joinLines t)) = 0 :=
    Nat.le_zero.1 (hcount.trans_eq (breakCount_joinLinesAfter none t))
  exact fun hfeed => List.any_eq_false.1 (breakCount_eq_zero.1 hnone) '\n' hfeed rfl

theorem Segment.Twin.compact_eq {s s' : Segment} (h : Segment.Twin s s')
    (hcomment : s.kind ≠ .lineComment) : s'.compact = withReturns s.compact := by
  obtain ⟨kind, t⟩ := s
  obtain ⟨kind', t'⟩ := s'
  obtain ⟨rfl, h⟩ := h
  cases kind' with
  | code =>
    rw [withReturns_of_not_mem (feed_not_mem_compact t)]
    exact congrArg collapse (Returned.joinLinesAfter h none)
  | verbatim => exact h
  | lineComment => exact absurd rfl hcomment

theorem flatMap_compact_of_forall₂ {l l' : List Segment}
    (h : List.Forall₂ Segment.Twin l l')
    (hcomment : ∀ s ∈ l, s.kind ≠ .lineComment) :
    l'.flatMap Segment.compact = withReturns (l.flatMap Segment.compact) := by
  induction h with
  | nil => rfl
  | @cons s s' l l' hs _ ih =>
    rw [List.flatMap_cons, List.flatMap_cons, withReturns_append,
      hs.compact_eq (hcomment s List.mem_cons_self),
      ih fun t ht => hcomment t (List.mem_cons_of_mem s ht)]

/-- Without line comments, the one-line form of a gap keeps the returns of its
literals and comments. -/
theorem compactGap_withReturns {text : List Char} (h : hasLineComment text = false) :
    compactGap (withReturns text) = withReturns (compactGap text) := by
  refine flatMap_compact_of_forall₂ (forall₂_segments text) fun s hs hkind => ?_
  have hnone := List.any_eq_false.1 h s hs
  rw [hkind] at hnone
  exact hnone rfl

end Gap

/-! ### Pieces -/

/-- A piece with a carriage return put in front of each line feed. -/
def Piece.withReturns : Piece → Piece := Piece.respelled Text.withReturns

theorem piecesBreak_withReturns (ps : List Piece) :
    piecesBreak (ps.map Piece.withReturns) = piecesBreak ps := by
  rw [piecesBreak, piecesBreak, List.any_map]
  refine congrArg (List.any ps) (funext fun p => ?_)
  cases p with
  | gap t => exact hasLineBreak_withReturns t
  | argument t => rfl

theorem piecesComment_withReturns (ps : List Piece) :
    piecesComment (ps.map Piece.withReturns) = piecesComment ps := by
  rw [piecesComment, piecesComment, List.any_map]
  refine congrArg (List.any ps) (funext fun p => ?_)
  cases p with
  | gap t => exact hasLineComment_withReturns t
  | argument t => rfl

section Compact

variable {p : Piece} {ps : List Piece}

theorem Piece.compact_withReturns (h : piecesComment [p] = false) :
    p.withReturns.compact = Text.withReturns p.compact := by
  cases p with
  | gap t => exact compactGap_withReturns (by simpa [piecesComment] using h)
  | argument t => rfl

theorem piecesComment_cons :
    piecesComment (p :: ps) = (piecesComment [p] || piecesComment ps) := by
  simp [piecesComment]

theorem flatMap_compact_withReturns (h : piecesComment ps = false) :
    (ps.map Piece.withReturns).flatMap Piece.compact =
      Text.withReturns (ps.flatMap Piece.compact) := by
  induction ps with
  | nil => rfl
  | cons p ps ih =>
    rw [piecesComment_cons, Bool.or_eq_false_iff] at h
    rw [List.map_cons, List.flatMap_cons, List.flatMap_cons, withReturns_append, ih h.2,
      Piece.compact_withReturns h.1]

theorem compactLeading_withReturns (h : piecesComment ps = false) :
    compactLeading (ps.map Piece.withReturns) = Text.withReturns (compactLeading ps) := by
  cases ps with
  | nil => rfl
  | cons p ps =>
    cases p with
    | argument t => exact flatMap_compact_withReturns h
    | gap t =>
      rw [piecesComment_cons, Bool.or_eq_false_iff] at h
      have hgap : compactGap (Text.withReturns t) = Text.withReturns (compactGap t) :=
        Piece.compact_withReturns h.1
      show trimStart (compactGap (Text.withReturns t)) ++ _ = Text.withReturns (_ ++ _)
      rw [hgap, trimStart_withReturns, withReturns_append,
        flatMap_compact_withReturns h.2]

theorem compactTrailing_withReturns (h : piecesComment ps = false) :
    compactTrailing (ps.map Piece.withReturns) =
      Text.withReturns (compactTrailing ps) := by
  induction ps with
  | nil => rfl
  | cons p ps ih =>
    rw [piecesComment_cons, Bool.or_eq_false_iff] at h
    have hp := Piece.compact_withReturns h.1
    have hmore (rest : List Char) (hrest : rest = Text.withReturns (compactTrailing ps)) :
        p.withReturns.compact ++ rest =
          Text.withReturns (p.compact ++ compactTrailing ps) := by
      rw [hp, hrest, withReturns_append]
    cases ps with
    | cons q ps =>
      cases p with
      | gap t => exact hmore _ (ih h.2)
      | argument t => exact hmore _ (ih h.2)
    | nil =>
      cases p with
      | gap t =>
        show trimEnd (Piece.withReturns (.gap t)).compact = _
        rw [hp, trimEnd_withReturns]
        rfl
      | argument t => exact hmore [] rfl

/-- The one-line form of pieces without line comments keeps the returns of their
arguments, literals and block comments. -/
theorem compactPieces_withReturns (side : Side) (h : piecesComment ps = false) :
    compactPieces side (ps.map Piece.withReturns) =
      Text.withReturns (compactPieces side ps) := by
  cases side with
  | leading => exact compactLeading_withReturns h
  | trailing => exact compactTrailing_withReturns h

end Compact

end AnimLint
