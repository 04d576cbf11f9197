/-
AnimLint/Proofs/TokenRows.lean

Rows of tokens that are read as they stand.  A token is read back from the text
of a row if three things hold.  What stands in front of it is cut into the same
trivia: no blank follows a blank, and a line comment ends at a line end
(`isReadRow`).  Its own text is that of one token (`Token.isRegular`).  And what
follows does not run into it: a name is followed by a punctuator, a point by a
name (`Token.isParted`).

Main statement: `read_tokensSource`.
-/
import AnimLint.Proofs.Spacing

namespace AnimLint.Script

open Text

/-! ### Counting at the front -/

theorem countWhile_append {p : Char → Bool} {s r : List Char} (h : s.all p = true)
    (hr : r.head?.all (!p ·) = true) : countWhile p (s ++ r) = s.length := by
  induction s with
  | nil =>
    rcases r with - | ⟨c, r⟩
    · rfl
    · have hc : p c = false := by simpa using hr
      rw [List.nil_append, countWhile, hc]
      rfl
  | cons d s ih =>
    simp only [List.all_cons, Bool.and_eq_true] at h
    simp [countWhile, h.1, ih h.2]

theorem blockCommentLength?_append {s : List Char} {n : Nat}
    (h : blockCommentLength? s = some n)
    (r : List Char) : blockCommentLength? (s ++ r) = some n := by
  fun_induction blockCommentLength? s generalizing n with
  | case1 => cases h
  | case2 s => exact h
  | case3 c s hc ih =>
    obtain ⟨m, hm, rfl⟩ := Option.map_eq_some_iff.1 h
    rw [List.cons_append, blockCommentLength?]
    · rw [ih hm]
      rfl
    · intro t hstar hslash
      rcases s with - | ⟨d, s⟩
      · cases hm
      · rw [List.cons_append, List.cons.injEq] at hslash
        exact hc s hstar (by rw [hslash.1])

/-! ### Trivia -/

/-- Holds of trivia that are read by themselves in front of the given ones, if
any. -/
def Trivia.isParted (t : Trivia) (next : Option Trivia) : Bool :=
  match t.kind with
  | .blank => next.all (·.kind != .blank)
  | .lineComment => next.any fun u => u.kind == .blank && u.text.head?.any isLineEnd
  | .blockComment => true
  | .interpreter => false

/-- Holds of rows that are read as they stand, in front of a token. -/
def isReadRow : List Trivia → Bool
  | [] => true
  | t :: r => t.isPlain && t.isParted r.head? && isReadRow r

theorem isReadRow_of_isGapRow {row : List Trivia} (h : isGapRow row = true) :
    isReadRow row = true := by
  induction row with
  | nil => rfl
  | cons t r ih =>
    simp only [isGapRow, Bool.and_eq_true, Bool.or_eq_true, beq_iff_eq] at h
    obtain ⟨⟨hplain, hkind⟩, hr⟩ := h
    rw [isReadRow, hplain, ih hr, Bool.true_and, Bool.and_true, Trivia.isParted]
    rcases hkind with hblock | ⟨hblank, hnext⟩
    · rw [hblock]
    · rw [hblank]
      exact hnext

/-- Holds of texts that start with no trivia. -/
def startsBare (s : List Char) : Bool := s.head?.all fun c => !isSpace c && c != '/'

/-- Trivia start with a blank, if they are blanks, or with a slash. -/
theorem head_text_of_isPlain {t : Trivia} (h : t.isPlain = true)
    (hkind : t.kind ≠ .interpreter) :
    ∃ c r, t.text = c :: r ∧
      (isSpace c = true ∧ t.kind = .blank ∨ c = '/' ∧ t.kind ≠ .blank) := by
  rcases Trivia.isPlain_cases h hkind with ⟨s, rfl, hne, hs⟩ | ⟨r, rfl, -⟩ | ⟨r, rfl, -⟩
  · obtain ⟨c, s, rfl⟩ := List.exists_cons_of_ne_nil hne
    rw [List.all_cons, Bool.and_eq_true] at hs
    exact ⟨c, s, rfl, .inl ⟨hs.1, rfl⟩⟩
  · exact ⟨'/', _, rfl, .inr ⟨rfl, nofun⟩⟩
  · exact ⟨'/', _, rfl, .inr ⟨rfl, nofun⟩⟩

theorem kind_of_isParted {t : Trivia} {next : Option Trivia}
    (h : t.isParted next = true) :
    t.kind ≠ .interpreter := by
  intro hkind
  rw [Trivia.isParted, hkind] at h
  cases h

/-- Behind a blank of a row comes no blank. -/
theorem head_triviaText {row : List Trivia} (h : isReadRow row = true)
    (hnext : row.head?.all (·.kind != .blank) = true) {r : List Char}
    (hr : startsBare r = true) :
    (triviaText row ++ r).head?.all (!isSpace ·) = true := by
  rcases row with - | ⟨t, row⟩
  · rcases r with - | ⟨c, r⟩
    · rfl
    · simp only [startsBare, List.head?_cons, Option.all_some, Bool.and_eq_true] at hr
      exact hr.1
  · simp only [isReadRow, Bool.and_eq_true] at h
    obtain ⟨c, s, htext, ⟨-, hblank⟩ | ⟨rfl, -⟩⟩ :=
      head_text_of_isPlain h.1.1 (kind_of_isParted h.1.2)
    · simp [hblank] at hnext
    · rw [triviaText, htext]
      rfl

theorem triviaLexeme_blank {s r : List Char} (hne : s ≠ []) (hs : s.all isSpace = true)
    (hr : r.head?.all (!isSpace ·) = true) :
    triviaLexeme? (s ++ r) = some (.blank, s.length) := by
  obtain ⟨a, s, rfl⟩ := List.exists_cons_of_ne_nil hne
  have ha : isSpace a = true := by
    rw [List.all_cons, Bool.and_eq_true] at hs
    exact hs.1
  have hslash : a ≠ '/' := by
    rintro rfl
    cases ha
  rw [triviaLexeme?, countWhile_append hs hr]
  · rfl
  · rintro t ht
    exact hslash (List.cons.inj ht).1
  · rintro t ht
    exact hslash (List.cons.inj ht).1

/-- Trivia of a row are cut off as they stand. -/
theorem triviaLexeme_text {t : Trivia} {row : List Trivia}
    (h : isReadRow (t :: row) = true)
    {r : List Char} (hr : startsBare r = true) :
    triviaLexeme? (t.text ++ (triviaText row ++ r)) = some (t.kind, t.text.length) := by
  simp only [isReadRow, Bool.and_eq_true] at h
  obtain ⟨⟨hplain, hparted⟩, hrow⟩ := h
  rcases Trivia.isPlain_cases hplain (kind_of_isParted hparted) with
    ⟨s, rfl, hne, hs⟩ | ⟨rest, rfl, hrest⟩ | ⟨rest, rfl, hrest⟩
  · exact triviaLexeme_blank hne hs (head_triviaText hrow hparted hr)
  · -- behind a line comment its line ends
    have hend : (triviaText row ++ r).head?.all isLineEnd = true := by
      obtain ⟨u, hu, hblank⟩ := (Option.any_eq_true _ _).1 hparted
      obtain ⟨row, rfl⟩ := List.head?_eq_some_iff.1 hu
      simp only [Bool.and_eq_true] at hblank
      obtain ⟨c, hc, hend⟩ := (Option.any_eq_true _ _).1 hblank.2
      obtain ⟨s, hs⟩ := List.head?_eq_some_iff.1 hc
      rw [triviaText, hs]
      exact hend
    have hlength : countWhile (!isLineEnd ·) (rest ++ (triviaText row ++ r)) =
        rest.length :=
      countWhile_append hrest (by simpa using hend)
    show triviaLexeme? ('/' :: '/' :: (rest ++ (triviaText row ++ r))) = _
    rw [triviaLexeme?, hlength, List.length_cons, List.length_cons, Nat.add_comm]
  · have hlength := blockCommentLength?_append hrest (triviaText row ++ r)
    show triviaLexeme? ('/' :: '*' :: (rest ++ (triviaText row ++ r))) = _
    rw [triviaLexeme?, hlength, Option.map_some, List.length_cons, List.length_cons,
      Nat.add_comm]

theorem triviaLengths_append (s r : List Char) :
    triviaLengths s.length (s ++ r) = triviaLengths 0 r := by
  induction s with
  | nil => rfl
  | cons c s ih => exact ih

theorem triviaLengths_triviaText {row : List Trivia} (h : isReadRow row = true)
    {r : List Char} (hr : startsBare r = true) :
    triviaLengths 0 (triviaText row ++ r) = row.map fun t => (t.kind, t.text.length) := by
  induction row with
  | nil =>
    rw [triviaText, List.nil_append]
    rcases r with - | ⟨c, r⟩
    · rfl
    · simp only [startsBare, List.head?_cons, Option.all_some, Bool.and_eq_true,
        Bool.not_eq_true', bne_iff_ne] at hr
      have hnone : triviaLexeme? (c :: r) = none := by
        rw [triviaLexeme?]
        · simp [countWhile, hr.1]
        · rintro t ht
          exact hr.2 (List.cons.inj ht).1
        · rintro t ht
          exact hr.2 (List.cons.inj ht).1
      rw [triviaLengths, hnone]
      rfl
  | cons t row ih =>
    have hlexeme := triviaLexeme_text h hr
    simp only [isReadRow, Bool.and_eq_true] at h
    obtain ⟨c, s, htext, -⟩ := head_text_of_isPlain h.1.1 (kind_of_isParted h.1.2)
    rw [triviaText, List.append_assoc, List.map_cons, ← ih h.2]
    rw [htext] at hlexeme ⊢
    rw [List.cons_append] at hlexeme ⊢
    rw [triviaLengths, hlexeme]
    show _ :: triviaLengths s.length (s ++ (triviaText row ++ r)) = _
    rw [triviaLengths_append]

theorem cutTrivia_triviaText (row : List Trivia) (r : List Char) :
    cutTrivia (row.map fun t => (t.kind, t.text.length)) (triviaText row ++ r) =
      (row, r) := by
  induction row with
  | nil => rfl
  | cons t row ih =>
    simp only [List.map_cons, cutTrivia, triviaText, List.append_assoc, List.drop_left,
      List.take_left, ih]

/-- A row in front of a token is read back. -/
theorem readTrivia_triviaText {row : List Trivia} (h : isReadRow row = true)
    {r : List Char}
    (hr : startsBare r = true) : readTrivia (triviaText row ++ r) = (row, r) := by
  rw [readTrivia, triviaLengths_triviaText h hr, cutTrivia_triviaText]

/-! ### Tokens -/

/-- The punctuators of plain data, names and calls. -/
def plainMarks : List Char := ['\x7b', '\x7d', '(', ')', ';', ',', ':', '.']

/-- Holds of tokens whose text is that of one token. -/
def Token.isRegular (t : Token) : Bool :=
  match t.kind, t.text with
  | .word, c :: r => isIdentStart c && (c :: r).all isIdentPart
  | .number, c :: r => isDigit c && r.all isDigit
  | .string, c :: r => (c == '"' || c == '\'') && stringLength? c r == some r.length
  | .punctuator, [c] => plainMarks.contains c
  | .endOfText, [] => true
  | _, _ => false

theorem Token.isRegular_cases {t : Token} (h : t.isRegular = true) :
    (∃ c r, t.kind = .word ∧ t.text = c :: r ∧ isIdentStart c = true ∧
      (c :: r).all isIdentPart = true) ∨
    (∃ c r, t.kind = .number ∧ t.text = c :: r ∧ isDigit c = true ∧
      r.all isDigit = true) ∨
    (∃ c r, t.kind = .string ∧ t.text = c :: r ∧ (c = '"' ∨ c = '\'') ∧
      stringLength? c r = some r.length) ∨
    (∃ c, t.kind = .punctuator ∧ t.text = [c] ∧ plainMarks.contains c = true) ∨
    t.kind = .endOfText ∧ t.text = [] := by
  obtain ⟨row, kind, text⟩ := t
  rw [isRegular.eq_def] at h
  cases kind <;> rcases text with - | ⟨c, r⟩ <;> try cases h
  case word.cons =>
    exact .inl ⟨c, r, rfl, rfl, Bool.and_eq_true_iff.1 h⟩
  case number.cons =>
    exact .inr (.inl ⟨c, r, rfl, rfl, Bool.and_eq_true_iff.1 h⟩)
  case string.cons =>
    simp only [Bool.and_eq_true, Bool.or_eq_true, beq_iff_eq] at h
    exact .inr (.inr (.inl ⟨c, r, rfl, rfl, h⟩))
  case punctuator.cons =>
    rcases r with - | ⟨d, r⟩
    · exact .inr (.inr (.inr (.inl ⟨c, rfl, rfl, h⟩)))
    · cases h
  case endOfText.nil =>
    exact .inr (.inr (.inr (.inr ⟨rfl, rfl⟩)))

/-- Holds of tokens that are read by themselves in front of the given one. -/
def Token.isParted (t next : Token) : Bool :=
  match t.kind with
  | .word => next.kind == .punctuator
  | .number => next.kind == .punctuator && next.text != ['.']
  | .string => true
  | .punctuator => t.text != ['.'] || next.kind == .word
  | _ => false

/-- Holds of rows of tokens that are read as they stand. -/
def areRegular : List Token → Bool
  | [] => true
  | t :: r => isReadRow t.trivia && t.isRegular && r.head?.all t.isParted && areRegular r

/-- Holds of the characters that no name, number or string goes on with. -/
def isStop (c : Char) : Bool := isSpace c || c == '/' || plainMarks.contains c

/-- The characters that `isSpace` holds of. -/
def spaces : List Nat :=
  [9, 10, 11, 12, 13, 0x20, 0xA0, 0x1680, 0x2000, 0x2001, 0x2002, 0x2003, 0x2004,
    0x2005, 0x2006,
    0x2007, 0x2008, 0x2009, 0x200A, 0x2028, 0x2029, 0x202F, 0x205F, 0x3000, 0xFEFF]

theorem mem_spaces {c : Char} (h : isSpace c = true) : c.toNat ∈ spaces := by
  simp only [isSpace, Bool.or_eq_true, Bool.and_eq_true, decide_eq_true_eq,
    beq_iff_eq] at h
  simp only [spaces, List.mem_cons, List.not_mem_nil, or_false]
  omega

theorem isStop_spec {c : Char} (h : isStop c = true) :
    isIdentPart c = false ∧ isIdentStart c = false ∧ c ≠ '\\' ∧
    isDigitOrMark c = false := by
  have hspaces : (spaces.map Char.ofNat).all (fun d =>
      !isIdentPart d && !isIdentStart d && d != '\\' && !isDigitOrMark d) = true := by
    decide +kernel
  have hmarks : ('/' :: plainMarks).all (fun d =>
      !isIdentPart d && !isIdentStart d && d != '\\' && !isDigitOrMark d) = true := by
    decide +kernel
  simp only [List.all_eq_true, Bool.and_eq_true, Bool.not_eq_true', bne_iff_ne, and_assoc]
    at hspaces hmarks
  simp only [isStop, Bool.or_eq_true, beq_iff_eq, List.contains_iff_mem] at h
  rcases h with (hspace | rfl) | hmark
  · exact hspaces c (List.mem_map.2 ⟨c.toNat, mem_spaces hspace, Char.ofNat_toNat c⟩)
  · exact hmarks _ List.mem_cons_self
  · exact hmarks c (List.mem_cons_of_mem _ hmark)

theorem isIdentStart_of_isDigit {c : Char} (h : isDigit c = true) :
    isIdentStart c = false := by
  have hall : ∀ n ∈ List.range' 48 10, isIdentStart (.ofNat n) = false := by
    decide +kernel
  simp only [isDigit, Bool.and_eq_true, decide_eq_true_eq] at h
  have hc := hall c.toNat (List.mem_range'_1.2 ⟨h.1, Nat.lt_succ_of_le h.2⟩)
  rwa [Char.ofNat_toNat] at hc

/-- A name ends where a character stops it. -/
theorem nameLength_append {s r : List Char} (hs : s.all isIdentPart = true)
    (hr : r.head?.all isStop = true) : nameLength 0 (s ++ r) = (s.length, false) := by
  induction s with
  | nil =>
    rcases r with - | ⟨c, r⟩
    · rfl
    · obtain ⟨hpart, -, hescape, -⟩ := isStop_spec (by simpa using hr)
      simp [nameLength, hpart, hescape]
  | cons c s ih =>
    simp only [List.all_cons, Bool.and_eq_true] at hs
    simp [nameLength, hs.1, ih hs.2]

/-- A run of digits is a number where a character stops it, unless that is a
point. -/
theorem numberLexeme_append {s r : List Char} (hne : s ≠ []) (hs : s.all isDigit = true)
    (hr : r.head?.all isStop = true) (hpoint : r.head? ≠ some '.') :
    numberLexeme (s ++ r) = (.number, s.length) := by
  have hall : s.all isDigitOrMark = true := by
    rw [List.all_eq_true] at hs ⊢
    exact fun c hc => by rw [isDigitOrMark, hs c hc, Bool.true_or]
  have hnext {c : Char} {t : List Char} (h : r = c :: t) :
      isIdentPart c = false ∧ isIdentStart c = false ∧ c ≠ '\\' ∧
      isDigitOrMark c = false :=
    isStop_spec (by simpa [h] using hr)
  have hwhole : countWhile isDigitOrMark (s ++ r) = s.length := by
    refine countWhile_append hall ?_
    rcases hrest : r with - | ⟨c, t⟩
    · rfl
    · simpa using (hnext hrest).2.2.2
  have hdecimal : decimalLength (s ++ r) = s.length := by
    rw [decimalLength, hwhole, List.drop_left]
    split
    · exact absurd (hnext rfl).1 (by decide)
    · exact absurd rfl hpoint
    · show s.length + exponentLength r = s.length
      rcases r with - | ⟨c, - | ⟨d, t⟩⟩
      · rfl
      · rfl
      · have hpart := (hnext rfl).1
        have hexponent : (c == 'e' || c == 'E') = false := by
          refine Bool.eq_false_iff.2 fun h => ?_
          rw [Bool.or_eq_true, beq_iff_eq, beq_iff_eq] at h
          rcases h with rfl | rfl <;> exact absurd hpart (by decide)
        rw [exponentLength, hexponent]
        rfl
  have hlength : numberLength (s ++ r) = s.length := by
    unfold numberLength
    split
    · next base t heq =>
      -- behind a zero no letter stands
      have hbase : isDigit base = true ∨ isStop base = true := by
        rcases s with - | ⟨c, - | ⟨d, s⟩⟩
        · exact absurd rfl hne
        · obtain ⟨-, rfl⟩ := List.cons.inj heq
          exact .inr (by simpa using hr)
        · obtain ⟨-, heq⟩ := List.cons.inj heq
          obtain ⟨rfl, -⟩ := List.cons.inj heq
          simp only [List.all_cons, Bool.and_eq_true] at hs
          exact .inl hs.2.1
      have hletter :
          (base == 'x' || base == 'X' || base == 'o' || base == 'O' || base == 'b' ||
          base == 'B') = false := by
        refine Bool.eq_false_iff.2 fun h => ?_
        simp only [Bool.or_eq_true, beq_iff_eq] at h
        rcases h with ((((rfl | rfl) | rfl) | rfl) | rfl) | rfl <;>
          rcases hbase with hbase | hbase <;> revert hbase <;> decide
      rw [hletter, if_neg Bool.false_ne_true, hdecimal]
    · exact hdecimal
  rw [numberLexeme]
  simp only [hlength, List.drop_left]
  rcases hrest : r with - | ⟨c, t⟩
  · rfl
  · obtain ⟨-, hstart, hescape, -⟩ := hnext hrest
    simp [hstart, hescape]

/-- What is read where no comment, private name or fraction may stand. -/
theorem lexeme_cons {c : Char} (hslash : c ≠ '/') (hhash : c ≠ '#') (hpoint : c ≠ '.')
    (r : List Char) :
    lexeme (c :: r) =
      if isIdentStart c || c == '\\' then nameLexeme .word 0 (c :: r)
      else if isDigit c then numberLexeme (c :: r)
      else if c == '"' || c == '\'' then
        match stringLength? c r with
        | some n => (.string, n + 1)
        | none => (.fault .unterminatedString, 0)
      else if c == '`' then templateLexeme (c :: r)
      else punctuatorLexeme (c :: r) := by
  rw [lexeme.eq_def]
  split
  · next heq => cases heq
  · next heq => exact absurd (List.cons.inj heq).1 hslash
  · next heq => exact absurd (List.cons.inj heq).1 hhash
  · next heq => exact absurd (List.cons.inj heq).1 hpoint
  · next heq =>
    cases heq
    rfl

theorem lexeme_word {c : Char} {s r : List Char} (hstart : isIdentStart c = true)
    (hpart : (c :: s).all isIdentPart = true) (hr : r.head?.all isStop = true) :
    lexeme (c :: (s ++ r)) = (.word, s.length + 1) := by
  have hne {d : Char} (hd : isIdentStart d = false) : c ≠ d := by
    rintro rfl
    rw [hstart] at hd
    cases hd
  have hname : nameLength 0 (c :: (s ++ r)) = (s.length + 1, false) :=
    nameLength_append hpart hr
  rw [lexeme_cons (hne (by decide)) (hne (by decide)) (hne (by decide)), hstart,
    Bool.true_or, if_pos rfl, nameLexeme, hname]
  show (TokenKind.word, 0 + (s.length + 1)) = _
  rw [Nat.zero_add]

theorem lexeme_number {c : Char} {s r : List Char} (hc : isDigit c = true)
    (hs : s.all isDigit = true) (hr : r.head?.all isStop = true)
    (hpoint : r.head? ≠ some '.') :
    lexeme (c :: (s ++ r)) = (.number, s.length + 1) := by
  have hne {d : Char} (hd : isDigit d = false) : c ≠ d := by
    rintro rfl
    rw [hc] at hd
    cases hd
  have hnumber := numberLexeme_append (List.cons_ne_nil c s) (by simp [hc, hs]) hr hpoint
  rw [lexeme_cons (hne (by decide)) (hne (by decide)) (hne (by decide)),
    isIdentStart_of_isDigit hc, hc, beq_eq_false_iff_ne.2 (hne (by decide))]
  exact hnumber

theorem lexeme_string {c : Char} {s : List Char} (hc : c = '"' ∨ c = '\'')
    (hs : stringLength? c s = some s.length) (r : List Char) :
    lexeme (c :: (s ++ r)) = (.string, s.length + 1) := by
  have hstring (hne : c ≠ '\\') : stringLength? c (s ++ r) = some s.length :=
    stringLength?_append hne r hs
  rcases hc with rfl | rfl
  · rw [lexeme_cons (by decide) (by decide) (by decide), hstring (by decide)]
    rfl
  · rw [lexeme_cons (by decide) (by decide) (by decide), hstring (by decide)]
    rfl

/-- A punctuator of plain data, names and calls is read by itself; a point must
not run into a number or another point. -/
theorem lexeme_mark {c : Char} (hc : plainMarks.contains c = true) {r : List Char}
    (hpoint : c = '.' → r.head?.all (fun d => !isDigit d && d != '.') = true) :
    lexeme (c :: r) = (.punctuator, 1) := by
  rw [List.contains_iff_mem] at hc
  simp only [plainMarks, List.mem_cons, List.not_mem_nil, or_false] at hc
  rcases hc with rfl | rfl | rfl | rfl | rfl | rfl | rfl | rfl
  case inr.inr.inr.inr.inr.inr.inr =>
    rcases r with - | ⟨d, r⟩
    · rfl
    · have hd := hpoint rfl
      simp only [List.head?_cons, Option.all_some, Bool.and_eq_true, Bool.not_eq_true',
        bne_iff_ne] at hd
      have hfind : punctuatorLength? ('.' :: d :: r) = some 1 := by
        rw [punctuatorLength?.eq_def]
        split
        · next heq => exact absurd (List.cons.inj heq).1 (by decide)
        · simp [punctuators, List.isPrefixOf, Ne.symm hd.2]
      rw [lexeme, hd.1, if_neg Bool.false_ne_true, punctuatorLexeme]
      simp only [hfind]
  all_goals rfl

/-- The text of a regular token is read as that token, if what follows does not
run into it. -/
theorem lexeme_append {t : Token} (h : t.isRegular = true) {r : List Char}
    (hr : t.kind = .word ∨ t.kind = .number → r.head?.all isStop = true)
    (hnumber : t.kind = .number → r.head? ≠ some '.')
    (hpoint : t.text = ['.'] → r.head?.all (fun c => !isDigit c && c != '.') = true)
    (hend : t.kind = .endOfText → r = []) :
    lexeme (t.text ++ r) = (t.kind, t.text.length) := by
  rcases t.isRegular_cases h with ⟨c, s, hkind, htext, hstart, hpart⟩ |
      ⟨c, s, hkind, htext, hc, hs⟩ |
    ⟨c, s, hkind, htext, hc, hs⟩ | ⟨c, hkind, htext, hc⟩ | ⟨hkind, htext⟩
  · rw [hkind, htext]
    exact lexeme_word hstart hpart (hr (.inl hkind))
  · rw [hkind, htext]
    exact lexeme_number hc hs (hr (.inr hkind)) (hnumber hkind)
  · rw [hkind, htext]
    exact lexeme_string hc hs r
  · rw [hkind, htext]
    exact lexeme_mark hc fun hc => hpoint (by rw [htext, hc])
  · rw [hkind, htext, hend hkind]
    rfl

/-- A regular token starts with no trivia. -/
theorem startsBare_of_isRegular {t : Token} (h : t.isRegular = true) {r : List Char}
    (hend : t.kind = .endOfText → r = []) : startsBare (t.text ++ r) = true := by
  have hbare {c : Char} (s : List Char) (hspace : isSpace c = false) (hslash : c ≠ '/') :
      startsBare (c :: s) = true := by
    simp [startsBare, hspace, hslash]
  have hspace {c : Char} (h : isIdentStart c = true ∨ isDigitOrMark c = true) :
      isSpace c = false := by
    refine Bool.eq_false_iff.2 fun hspace => ?_
    obtain ⟨-, hstart, -, hdigit⟩ :=
      isStop_spec (show isStop c = true by simp [isStop, hspace])
    rw [hstart, hdigit] at h
    simp at h
  rcases t.isRegular_cases h with ⟨c, s, -, htext, hstart, -⟩ | ⟨c, s, -, htext, hc, -⟩ |
    ⟨c, s, -, htext, hc, -⟩ | ⟨c, -, htext, hc⟩ | ⟨hkind, htext⟩ <;> rw [htext]
  · refine hbare _ (hspace (.inl hstart)) ?_
    rintro rfl
    exact absurd hstart (by decide)
  · refine hbare _ (hspace (.inr (by rw [isDigitOrMark, hc, Bool.true_or]))) ?_
    rintro rfl
    exact absurd hc (by decide)
  · rcases hc with rfl | rfl <;> rfl
  · have hmarks : plainMarks.all (fun d => !isSpace d && d != '/') = true := by decide
    simp only [List.all_eq_true, Bool.and_eq_true, Bool.not_eq_true', bne_iff_ne]
      at hmarks
    obtain ⟨hspace, hslash⟩ := hmarks c (List.contains_iff_mem.1 hc)
    exact hbare _ hspace hslash
  · rw [hend hkind]
    rfl

/-! ### Rows of tokens -/

theorem areRegular_cons {t : Token} {ts : List Token} (h : areRegular (t :: ts) = true) :
    isReadRow t.trivia = true ∧ t.isRegular = true ∧
    (∀ u ∈ ts.head?, t.isParted u = true) ∧
      areRegular ts = true := by
  simp only [areRegular, Bool.and_eq_true] at h
  obtain ⟨⟨⟨hrow, hregular⟩, hparted⟩, hts⟩ := h
  exact ⟨hrow, hregular, fun u hu => by simpa [Option.mem_def.1 hu] using hparted, hts⟩

/-- A regular token other than the end of the text is not empty. -/
theorem exists_text_of_isRegular {t : Token} (h : t.isRegular = true)
    (hkind : t.kind ≠ .endOfText) :
    ∃ c r, t.text = c :: r := by
  rcases t.isRegular_cases h with ⟨c, r, -, htext, -⟩ | ⟨c, r, -, htext, -⟩ |
      ⟨c, r, -, htext, -⟩ |
    ⟨c, -, htext, -⟩ | ⟨hend, -⟩
  · exact ⟨c, r, htext⟩
  · exact ⟨c, r, htext⟩
  · exact ⟨c, r, htext⟩
  · exact ⟨c, [], htext⟩
  · exact absurd hend hkind

theorem kind_of_isParted_token {t u : Token} (h : t.isParted u = true) :
    t.kind ≠ .endOfText := by
  intro hkind
  rw [Token.isParted, hkind] at h
  cases h

/-- A row of tokens starts with a blank, with a slash or with its first
token. -/
theorem head_tokensSource {t : Token} {ts : List Token}
    (h : areRegular (t :: ts) = true) {c : Char}
    (hc : (tokensSource (t :: ts)).head? = some c) :
    (isSpace c = true ∨ c = '/') ∨ ∃ r, t.text = c :: r := by
  obtain ⟨hrow, hregular, hparted, -⟩ := areRegular_cons h
  rw [tokensSource_cons, Token.source, List.append_assoc] at hc
  rcases htrivia : t.trivia with - | ⟨first, row⟩
  · rw [htrivia, triviaText, List.nil_append] at hc
    by_cases hkind : t.kind = .endOfText
    · -- the end of the text is the last token and is empty
      have htext : t.text = [] := by
        simpa [hkind] using t.isRegular_cases hregular
      have hts : ts = [] := by
        rcases ts with - | ⟨u, ts⟩
        · rfl
        · exact absurd hkind (kind_of_isParted_token (hparted u rfl))
      rw [htext, hts] at hc
      cases hc
    · obtain ⟨d, r, htext⟩ := exists_text_of_isRegular hregular hkind
      rw [htext] at hc
      obtain rfl : d = c := Option.some.inj hc
      exact .inr ⟨r, htext⟩
  · rw [htrivia] at hrow hc
    simp only [isReadRow, Bool.and_eq_true] at hrow
    obtain ⟨d, s, htext, hd⟩ := head_text_of_isPlain hrow.1.1 (kind_of_isParted hrow.1.2)
    rw [triviaText, htext] at hc
    obtain rfl : d = c := Option.some.inj hc
    exact .inl (hd.imp And.left And.left)

/-- What follows a token starts with a blank, with a slash or with a token that
is parted from it. -/
theorem head_tokensSource_behind {t : Token} {ts : List Token}
    (h : areRegular (t :: ts) = true)
    {c : Char} (hc : (tokensSource ts).head? = some c) :
    (isSpace c = true ∨ c = '/') ∨
      ∃ u r, t.isParted u = true ∧ u.isRegular = true ∧ u.text = c :: r := by
  obtain ⟨-, -, hparted, hts⟩ := areRegular_cons h
  rcases ts with - | ⟨u, ts⟩
  · cases hc
  · rcases head_tokensSource hts hc with hrow | ⟨r, htext⟩
    · exact .inl hrow
    · exact .inr ⟨u, r, hparted u rfl, (areRegular_cons hts).2.1, htext⟩

theorem isStop_of_punctuator {u : Token} {c : Char} {r : List Char}
    (hkind : u.kind = .punctuator)
    (hu : u.isRegular = true) (htext : u.text = c :: r) : isStop c = true := by
  rw [Token.isRegular, hkind, htext] at hu
  rcases r with - | ⟨d, r⟩
  · have hmark : plainMarks.contains c = true := hu
    rw [isStop, hmark, Bool.or_true]
  · cases hu

theorem kind_of_point {t : Token} (h : t.isRegular = true) (htext : t.text = ['.']) :
    t.kind = .punctuator := by
  rw [Token.isRegular, htext] at h
  cases hkind : t.kind with
  | punctuator => rfl
  | word => rw [hkind] at h; exact absurd h (by decide)
  | number => rw [hkind] at h; exact absurd h (by decide)
  | string => rw [hkind] at h; exact absurd h (by decide)
  | _ => rw [hkind] at h; cases h

/-- What follows a name or a number stops it. -/
theorem isStop_of_follows {t : Token} {ts : List Token} (h : areRegular (t :: ts) = true)
    (hkind : t.kind = .word ∨ t.kind = .number) :
    (tokensSource ts).head?.all isStop = true := by
  rw [Option.all_eq_true]
  intro c hc
  rcases head_tokensSource_behind h hc with (hspace | rfl) | ⟨u, r, hparted, hu, htext⟩
  · simp [isStop, hspace]
  · rfl
  · refine isStop_of_punctuator ?_ hu htext
    rcases hkind with hkind | hkind <;> rw [Token.isParted, hkind] at hparted <;> simp_all

/-- **A row of tokens is read back**, token by token. -/
theorem read_tokensSource {t : Token} {ts : List Token}
    (h : areRegular (t :: ts) = true) :
    Token.read (tokensSource (t :: ts)) = (t, tokensSource ts) := by
  obtain ⟨hrow, hregular, hparted, hts⟩ := areRegular_cons h
  have hend (hkind : t.kind = .endOfText) : tokensSource ts = [] := by
    rcases ts with - | ⟨u, ts⟩
    · rfl
    · exact absurd hkind (kind_of_isParted_token (hparted u rfl))
  have hlexeme : lexeme (t.text ++ tokensSource ts) = (t.kind, t.text.length) := by
    refine lexeme_append hregular (isStop_of_follows h) (fun hkind hpoint => ?_)
      (fun htext => ?_) hend
    · rcases head_tokensSource_behind h hpoint with (hspace | hslash) |
          ⟨u, r, hparted, hu, htext⟩
      · exact absurd hspace (by decide)
      · exact absurd hslash (by decide)
      · have hnext : u.kind = .punctuator ∧ u.text ≠ ['.'] := by
          simpa [Token.isParted, hkind] using hparted
        rw [Token.isRegular, hnext.1, htext] at hu
        rcases r with - | ⟨d, r⟩
        · exact hnext.2 htext
        · cases hu
    · rw [Option.all_eq_true]
      intro c hc
      rcases head_tokensSource_behind h hc with (hspace | rfl) |
          ⟨u, r, hparted, hu, hutext⟩
      · obtain ⟨-, -, -, hdigit⟩ :=
          isStop_spec (show isStop c = true by simp [isStop, hspace])
        have hc : isDigit c = false ∧ c ≠ '.' := by
          refine ⟨(Bool.or_eq_false_iff.1 hdigit).1, ?_⟩
          rintro rfl
          exact absurd hspace (by decide)
        simp [hc]
      · rfl
      · -- behind a point a name follows
        have hword : u.kind = .word := by
          simpa [Token.isParted, kind_of_point hregular htext, htext] using hparted
        rw [Token.isRegular, hword, hutext] at hu
        have hstart : isIdentStart c = true := (Bool.and_eq_true_iff.1 hu).1
        have hc : isDigit c = false ∧ c ≠ '.' := by
          refine ⟨Bool.eq_false_iff.2 fun hdigit => ?_, ?_⟩
          · rw [isIdentStart_of_isDigit hdigit] at hstart
            cases hstart
          · rintro rfl
            exact absurd hstart (by decide)
        simp [hc]
  rw [tokensSource_cons, Token.source, List.append_assoc, Token.read,
    readTrivia_triviaText hrow (startsBare_of_isRegular hregular hend)]
  simp only [Token.cut, hlexeme, List.take_left, List.drop_left]

end AnimLint.Script
