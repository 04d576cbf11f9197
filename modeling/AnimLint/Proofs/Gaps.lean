/-
AnimLint/Proofs/Gaps.lean

Gaps as a reader of scripts sees them.  Where no line comment stands between two
arguments, the gap is a row of marks: blanks, commas and block comments.  On
marks, joining lines is a plain recursion (`squeeze`), which no comma lets
anything pass (`squeeze_append_comma`); so what the compactor makes of a gap can
be told for the blanks on each side of a comma apart (`compactGap_marksText`),
and what comes out is again a row of marks, with no line break among them.

A line comment between two arguments is always noticed
(`hasLineComment_marksText`).
-/
import AnimLint.Script.Scan
import AnimLint.Proofs.Compaction

namespace AnimLint

open Text Gap Script

/-! ### Blanks of scripts -/

/-- The blanks outside ASCII, those of scripts and the next line control. -/
def spaceRanges : Ranges :=
  [(0x85, 0x85), (0xA0, 0xA0), (0x1680, 0x1680), (0x2000, 0x200A),
  (0x2028, 0x2029), (0x202F, 0x202F), (0x205F, 0x205F), (0x3000, 0x3000),
  (0xFEFF, 0xFEFF)]

theorem alnumRanges_spaceRanges :
    (alnumRanges.all fun r =>
      spaceRanges.all fun s => decide (r.2 < s.1) || decide (s.2 < r.1)) =
      true := by
  decide +kernel

theorem isWhite_cases {c : Char} (h : isSpace c = true ∨ Text.isBlank c = true) :
    (9 ≤ c.toNat ∧ c.toNat ≤ 13) ∨ c.toNat = 0x20 ∨
      (0x80 ≤ c.toNat ∧ ∃ s ∈ spaceRanges, s.1 ≤ c.toNat ∧ c.toNat ≤ s.2) := by
  simp only [isSpace, Text.isBlank, Bool.or_eq_true, Bool.and_eq_true,
    decide_eq_true_eq, beq_iff_eq]
    at h
  simp only [spaceRanges, List.mem_cons, List.not_mem_nil, or_false, exists_eq_or_imp,
    exists_eq_left]
  omega

theorem isAlnum_of_isWhite {c : Char} (h : isSpace c = true ∨ Text.isBlank c = true) :
    isAlnum c = false := by
  refine Bool.eq_false_iff.2 fun halnum => ?_
  simp only [isAlnum, Bool.or_eq_true, Bool.and_eq_true, decide_eq_true_eq, Char.le_def,
    UInt32.le_iff_toNat_le] at halnum
  have hval : c.val.toNat = c.toNat := rfl
  have ha : ('a' : Char).val.toNat = 97 := rfl
  have hA : ('A' : Char).val.toNat = 65 := rfl
  have h0 : ('0' : Char).val.toNat = 48 := rfl
  have hz : ('z' : Char).val.toNat = 122 := rfl
  have hZ : ('Z' : Char).val.toNat = 90 := rfl
  have h9 : ('9' : Char).val.toNat = 57 := rfl
  rcases isWhite_cases h with hlow | hspace | ⟨hhigh, s, hs, hin⟩
  · omega
  · omega
  · rcases halnum with hascii | ⟨-, hhas⟩
    · omega
    · obtain ⟨r, hr, hrin⟩ := Ranges.exists_of_has hhas
      have := List.all_eq_true.1 (List.all_eq_true.1 alnumRanges_spaceRanges r hr) s hs
      simp only [Bool.or_eq_true, decide_eq_true_eq] at this
      omega

/-- Holds of blanks and of the comma, which never run together with what they
stand next to. -/
def isSoft (c : Char) : Bool := isSpace c || Text.isBlank c || c == ','

theorem isSoft_ne {c d : Char} (h : isSoft c = true) (hd : isSoft d = false) : c ≠ d := by
  rintro rfl
  rw [hd] at h
  cases h

theorem isQuote_of_isSoft {c : Char} (h : isSoft c = true) : isQuote c = false := by
  have h1 := isSoft_ne h (d := '\'') rfl
  have h2 := isSoft_ne h (d := '"') rfl
  have h3 := isSoft_ne h (d := '`') rfl
  simp [isQuote, h1, h2, h3]

theorem isWordChar_of_isSoft {c : Char} (h : isSoft c = true) : isWordChar c = false := by
  have h1 := isSoft_ne h (d := '_') rfl
  have h2 := isSoft_ne h (d := '$') rfl
  have h3 : isAlnum c = false := by
    simp only [isSoft, Bool.or_eq_true, beq_iff_eq] at h
    rcases h with h | rfl
    · exact isAlnum_of_isWhite h
    · decide +kernel
  simp [isWordChar, h1, h2, h3]

theorem runTogether_of_isSoft {a : Char} (h : isSoft a = true) (b : Char) :
    runTogether a b = false := by
  have h1 := isSoft_ne h (d := '+') rfl
  have h2 := isSoft_ne h (d := '-') rfl
  have h3 := isSoft_ne h (d := '/') rfl
  simp [runTogether, isWordChar_of_isSoft h, h1, h2, h3]

/-! ### Marks -/

/-- What a gap without line comments is made of. -/
inductive Mark
  /-- A blank or a comma. -/
  | char (c : Char)
  /-- A block comment, without the two characters that open it. -/
  | comment (rest : List Char)
deriving DecidableEq

namespace Mark

/-- The text of a mark. -/
def text : Mark → List Char
  | char c => [c]
  | comment rest => '/' :: '*' :: rest

/-- Holds of blanks and whole block comments. -/
def isSpacing : Mark → Bool
  | char c => isSpace c
  | comment rest => blockCommentLength? rest == some rest.length

/-- Holds of what stands between two arguments. -/
def isProper : Mark → Bool
  | char c => isSoft c
  | comment rest => blockCommentLength? rest == some rest.length

/-- Holds of line breaks. -/
def isBreak : Mark → Bool
  | char c => isLineBreak c
  | comment _ => false

/-- Holds of blanks. -/
def isBlank : Mark → Bool
  | char c => Text.isBlank c
  | comment _ => false

theorem isProper_of_isSpacing {m : Mark} (h : m.isSpacing = true) :
    m.isProper = true := by
  cases m with
  | char c =>
    have hc : isSpace c = true := h
    simp [isProper, isSoft, hc]
  | comment rest => exact h

/-- The text of a row of marks. -/
def marksText (ms : List Mark) : List Char := ms.flatMap text

@[simp] theorem marksText_nil : marksText [] = [] := rfl

@[simp] theorem marksText_cons (m : Mark) (ms : List Mark) :
    marksText (m :: ms) = m.text ++ marksText ms :=
  List.flatMap_cons

@[simp] theorem marksText_append (a b : List Mark) :
    marksText (a ++ b) = marksText a ++ marksText b :=
  List.flatMap_append

end Mark

open Mark

/-! ### Joining the lines of marks -/

/-- Drops line breaks and narrows each run of other blanks to one space; `inRun`
says that the space of the current run is already written. -/
def squeeze (inRun : Bool) : List Mark → List Mark
  | [] => []
  | .comment rest :: ms => .comment rest :: squeeze false ms
  | .char c :: ms =>
    if isLineBreak c then squeeze inRun ms
    else if Text.isBlank c then
      if inRun then squeeze true ms else .char ' ' :: squeeze true ms
    else .char c :: squeeze false ms

theorem squeeze_append_comment (inRun : Bool) (a b : List Mark) (rest : List Char) :
    squeeze inRun (a ++ .comment rest :: b) =
      squeeze inRun a ++ .comment rest :: squeeze false b := by
  fun_induction squeeze inRun a <;> simp_all [squeeze]

/-- A comma parts what is joined before it from what is joined after it. -/
theorem squeeze_append_comma (inRun : Bool) (a b : List Mark) :
    squeeze inRun (a ++ .char ',' :: b) =
      squeeze inRun a ++ .char ',' :: squeeze false b := by
  have hbreak : isLineBreak ',' = false := rfl
  have hblank : Text.isBlank ',' = false := rfl
  fun_induction squeeze inRun a <;> simp_all [squeeze]

theorem isSpacing_squeeze (inRun : Bool) {ms : List Mark} (h : ms.all isSpacing = true) :
    (squeeze inRun ms).all isSpacing = true := by
  have hspace : isSpacing (.char ' ') = true := rfl
  fun_induction squeeze inRun ms <;> simp_all

theorem isBreak_squeeze (inRun : Bool) (ms : List Mark) :
    (squeeze inRun ms).any isBreak = false := by
  have hspace : isLineBreak ' ' = false := rfl
  fun_induction squeeze inRun ms <;> simp_all [isBreak]

theorem joinLinesAfter_cons {c : Char} (hc : isLineBreak c = false) (last : Option Char)
    (r : List Char) : joinLinesAfter last (c :: r) = c :: joinLinesAfter (some c) r := by
  rcases last with - | a <;> rcases h : r.find? (!isLineBreak ·) with - | b <;>
    simp [joinLinesAfter, hc]

theorem joinLinesAfter_break {c : Char} (hc : isLineBreak c = true) {last : Option Char}
    (hlast : last.all isSoft = true) (r : List Char) :
    joinLinesAfter last (c :: r) = joinLinesAfter last r := by
  rcases last with - | a
  · simp [joinLinesAfter, hc]
  · have ha : isSoft a = true := hlast
    rcases h : r.find? (!isLineBreak ·) with - | b <;>
      simp [joinLinesAfter, hc, h, runTogether_of_isSoft ha]

/-- On blanks and commas the compactor does the same. -/
theorem collapseFrom_joinLinesAfter (inRun : Bool) (last : Option Char) {s : List Char}
    (hs : s.all isSoft = true) (hlast : last.all isSoft = true) :
    collapseFrom inRun (joinLinesAfter last s) =
      marksText (squeeze inRun (s.map .char)) := by
  induction s generalizing inRun last with
  | nil => rfl
  | cons c r ih =>
    simp only [List.all_cons, Bool.and_eq_true] at hs
    have hnext (run : Bool) := ih run (some c) hs.2 hs.1
    rcases hbreak : isLineBreak c with - | -
    · rw [joinLinesAfter_cons hbreak]
      by_cases hblank : Text.isBlank c = true
      · cases inRun <;> simp [collapseFrom, squeeze, hbreak, hblank, Mark.text, hnext]
      · simp [collapseFrom, squeeze, hbreak, hblank, Mark.text, hnext]
    · rw [joinLinesAfter_break hbreak hlast, ih inRun last hs.2 hlast]
      simp [squeeze, hbreak]

/-! ### Reading marks -/

/-- The segments that end within a row of marks, where `taken` has been read in
reverse. -/
def closedSegments (taken : List Char) : List Mark → List Segment
  | [] => []
  | .char c :: ms => closedSegments (c :: taken) ms
  | .comment rest :: ms =>
    finish .code taken ++ ⟨.verbatim, (Mark.comment rest).text⟩ :: closedSegments [] ms

/-- What has been read of the segment at the end of a row of marks, in
reverse. -/
def openSegment (taken : List Char) : List Mark → List Char
  | [] => taken
  | .char c :: ms => openSegment (c :: taken) ms
  | .comment _ :: ms => openSegment [] ms

theorem finish_of_ne_nil (kind : SegmentKind) {taken : List Char} (h : taken ≠ []) :
    finish kind taken = [⟨kind, taken.reverse⟩] := by
  cases taken with
  | nil => exact absurd rfl h
  | cons c taken => rfl

theorem segmentsFrom_block {rest : List Char}
    (h : blockCommentLength? rest = some rest.length) (taken s : List Char) :
    segmentsFrom .block taken (rest ++ s) =
      finish .verbatim (rest.reverse ++ taken) ++ segmentsFrom .code [] s := by
  fun_induction blockCommentLength? rest generalizing taken with
  | case1 => cases h
  | case2 r =>
    rcases r with - | ⟨c, r⟩
    · rw [List.cons_append, List.cons_append, segmentsFrom]
      rfl
    · simp at h
  | case3 c r hc ih =>
    obtain ⟨n, hn, hlen⟩ := Option.map_eq_some_iff.1 h
    have hr : blockCommentLength? r = some r.length := by
      rw [hn]
      simpa using hlen
    rw [List.cons_append, segmentsFrom, ih hr]
    · simp
    · intro t hstar hslash
      rcases r with - | ⟨d, r⟩
      · cases hr
      · rw [List.cons_append, List.cons.injEq] at hslash
        exact hc r hstar (by rw [hslash.1])

theorem segmentsFrom_char {c : Char} (h : isSoft c = true) (taken s : List Char) :
    segmentsFrom .code taken (c :: s) = segmentsFrom .code (c :: taken) s := by
  have hslash : c ≠ '/' := isSoft_ne h rfl
  rw [segmentsFrom, isQuote_of_isSoft h]
  · rfl
  · intro t hc
    exact absurd hc hslash
  · intro t hc
    exact absurd hc hslash

/-- How a row of marks is read, whatever follows it. -/
theorem segmentsFrom_marksText {ms : List Mark} (h : ms.all isProper = true)
    (taken s : List Char) :
    segmentsFrom .code taken (marksText ms ++ s) =
      closedSegments taken ms ++ segmentsFrom .code (openSegment taken ms) s := by
  induction ms generalizing taken with
  | nil => rfl
  | cons m ms ih =>
    simp only [List.all_cons, Bool.and_eq_true] at h
    cases m with
    | char c =>
      have hc : isSoft c = true := h.1
      rw [marksText_cons, List.append_assoc, Mark.text, List.singleton_append,
        segmentsFrom_char hc, ih h.2]
      rfl
    | comment rest =>
      have hrest : blockCommentLength? rest = some rest.length := by
        simpa [isProper] using h.1
      rw [marksText_cons, List.append_assoc, Mark.text, List.cons_append,
        List.cons_append, segmentsFrom, segmentsFrom_block hrest, ih h.2,
        finish_of_ne_nil .verbatim (by simp)]
      simp [closedSegments, openSegment, Mark.text]

theorem segments_marksText {ms : List Mark} (h : ms.all isProper = true) :
    segments (marksText ms) =
      closedSegments [] ms ++ finish .code (openSegment [] ms) := by
  have := segmentsFrom_marksText h [] []
  rwa [List.append_nil, segmentsFrom] at this

/-! ### What the compactor does to marks -/

theorem compact_marks {ms : List Mark} (h : ms.all isProper = true) (taken : List Char)
    (htaken : taken.all isSoft = true) :
    (closedSegments taken ms ++ finish .code (openSegment taken ms)).flatMap
      Segment.compact =
      marksText (squeeze false (taken.reverse.map .char ++ ms)) := by
  have hcode {taken : List Char} (htaken : taken.all isSoft = true) :
      (finish .code taken).flatMap Segment.compact =
        marksText (squeeze false (taken.reverse.map .char)) := by
    rcases taken with - | ⟨c, taken⟩
    · rfl
    · have hsoft : (c :: taken).reverse.all isSoft = true := by
        rw [List.all_reverse, htaken]
      rw [← collapseFrom_joinLinesAfter false none hsoft rfl]
      simp [finish, Segment.compact, collapse, joinLines]
  -- `taken` is the open segment of code, which the next comment closes
  induction ms generalizing taken with
  | nil => simpa [closedSegments, openSegment] using hcode htaken
  | cons m ms ih =>
    simp only [List.all_cons, Bool.and_eq_true] at h
    cases m with
    | char c =>
      have hc : (c :: taken).all isSoft = true := by
        rw [List.all_cons, htaken, Bool.and_true]
        exact h.1
      simpa [closedSegments, openSegment] using ih h.2 _ hc
    | comment rest =>
      have hrest := ih h.2 [] rfl
      rw [squeeze_append_comment]
      simp only [closedSegments, openSegment, List.flatMap_append, List.append_assoc,
        List.flatMap_cons, List.cons_append, marksText_append, marksText_cons,
        hcode htaken] at hrest ⊢
      rw [hrest]
      rfl

/-- The one-line form of a row of marks. -/
theorem compactGap_marksText {ms : List Mark} (h : ms.all isProper = true) :
    compactGap (marksText ms) = marksText (squeeze false ms) := by
  rw [compactGap, segments_marksText h]
  exact compact_marks h [] rfl

theorem hasBreak_marks (ms : List Mark) (taken : List Char) :
    ((closedSegments taken ms ++ finish .code (openSegment taken ms)).any fun s =>
      s.kind == .code && s.text.any isLineBreak) =
        (taken.any isLineBreak || ms.any isBreak) := by
  have hcode (taken : List Char) :
      ((finish .code taken).any fun s => s.kind == .code && s.text.any isLineBreak) =
        taken.any isLineBreak := by
    rcases taken with - | ⟨c, taken⟩
    · rfl
    · rw [finish_of_ne_nil .code (List.cons_ne_nil _ _)]
      simp [Bool.or_comm]
  induction ms generalizing taken with
  | nil => simpa [closedSegments, openSegment] using hcode taken
  | cons m ms ih =>
    cases m with
    | char c =>
      rw [closedSegments, openSegment, ih]
      simp [isBreak, Bool.or_assoc, Bool.or_left_comm]
    | comment rest =>
      have hrest := ih []
      rw [List.any_append] at hrest
      rw [closedSegments, openSegment, List.append_assoc, List.any_append, hcode,
        List.cons_append, List.any_cons, List.any_append, hrest]
      have hkind : (SegmentKind.verbatim == SegmentKind.code) = false := rfl
      simp [isBreak, hkind]

/-- Lines of a row of marks break where a mark is a line break. -/
theorem hasLineBreak_marksText {ms : List Mark} (h : ms.all isProper = true) :
    hasLineBreak (marksText ms) = ms.any isBreak := by
  rw [hasLineBreak, segments_marksText h, hasBreak_marks]
  rfl

/-- A line comment behind a row of marks is noticed. -/
theorem hasLineComment_marksText {ms : List Mark} (h : ms.all isProper = true)
    (s : List Char) :
    hasLineComment (marksText ms ++ '/' :: '/' :: s) = true := by
  have hline (taken s : List Char) (hne : taken ≠ []) :
      ((segmentsFrom .line taken s).any fun s => s.kind == .lineComment) = true := by
    induction s generalizing taken with
    | nil =>
      rw [segmentsFrom, Mode.kind, finish_of_ne_nil _ hne]
      rfl
    | cons c s ih =>
      rw [segmentsFrom]
      split
      · rw [finish_of_ne_nil _ hne]
        rfl
      · exact ih _ (List.cons_ne_nil _ _)
  rw [hasLineComment, segments, segmentsFrom_marksText h, segmentsFrom,
    List.any_append, List.any_append, hline _ _ (by simp), Bool.or_true, Bool.or_true]

/-! ### Blanks at the ends -/

theorem exists_blockComment {rest : List Char}
    (h : blockCommentLength? rest = some rest.length) :
    ∃ inner, rest = inner ++ ['*', '/'] := by
  fun_induction blockCommentLength? rest with
  | case1 => cases h
  | case2 r =>
    rcases r with - | ⟨c, r⟩
    · exact ⟨[], rfl⟩
    · simp at h
  | case3 c r _ ih =>
    obtain ⟨n, hn, hlen⟩ := Option.map_eq_some_iff.1 h
    have hr : blockCommentLength? r = some r.length := by
      rw [hn]
      simpa using hlen
    obtain ⟨inner, rfl⟩ := ih hr
    exact ⟨c :: inner, rfl⟩

theorem dropWhile_isBlank_marksText (ms : List Mark) :
    trimStart (marksText ms) = marksText (ms.dropWhile isBlank) := by
  induction ms with
  | nil => rfl
  | cons m ms ih =>
    cases m with
    | char c =>
      by_cases hc : Text.isBlank c = true
      · rw [List.dropWhile_cons_of_pos (by exact hc), ← ih]
        simp [trimStart, Mark.text, hc]
      · rw [List.dropWhile_cons_of_neg (by exact hc)]
        simp [trimStart, Mark.text, hc]
    | comment rest =>
      rw [List.dropWhile_cons_of_neg Bool.false_ne_true]
      rfl

theorem trimEnd_append_cons {c : Char} (hc : Text.isBlank c = false) (s t : List Char) :
    trimEnd (s ++ c :: t) = s ++ c :: trimEnd t := by
  induction s with
  | nil =>
    rcases trimEnd_cons c t with h | ⟨-, hblank, -⟩
    · exact h
    · rw [hc] at hblank
      cases hblank
  | cons d s ih =>
    rcases trimEnd_cons d (s ++ c :: t) with h | ⟨hnil, -, -⟩
    · rw [List.cons_append, h, ih, List.cons_append]
    · rw [ih] at hnil
      simp at hnil

theorem exists_trimEnd_marksText {ms : List Mark} (h : ms.all isProper = true) :
    ∃ before after, ms = before ++ after ∧ after.all isBlank = true ∧
      trimEnd (marksText ms) = marksText before := by
  induction ms with
  | nil => exact ⟨[], [], rfl, rfl, rfl⟩
  | cons m ms ih =>
    simp only [List.all_cons, Bool.and_eq_true] at h
    obtain ⟨before, after, rfl, hafter, htrim⟩ := ih h.2
    cases m with
    | char c =>
      -- either something behind the character is kept, or it is a blank and
      -- goes as well
      rcases trimEnd_cons c (marksText (before ++ after)) with hkept |
          ⟨hnil, hc, hdropped⟩
      · exact ⟨.char c :: before, after, rfl, hafter, hkept.trans (by rw [htrim]; rfl)⟩
      · refine ⟨[], .char c :: (before ++ after), rfl, ?_, hdropped⟩
        rcases before with - | ⟨b, before⟩
        · rw [List.all_cons, List.nil_append, hafter, Bool.and_true]
          exact hc
        · rw [htrim] at hnil
          cases b <;> cases hnil
    | comment rest =>
      refine ⟨.comment rest :: before, after, rfl, hafter, ?_⟩
      have hrest : blockCommentLength? rest = some rest.length := by
        simpa [isProper] using h.1
      obtain ⟨inner, rfl⟩ := exists_blockComment hrest
      have hslash : Text.isBlank '/' = false := rfl
      have := trimEnd_append_cons hslash ('/' :: '*' :: inner ++ ['*'])
        (marksText (before ++ after))
      rw [htrim] at this
      simpa [Mark.text] using this

end AnimLint
