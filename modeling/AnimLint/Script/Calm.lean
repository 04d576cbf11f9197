/-
AnimLint/Script/Calm.lean

Texts in which nothing happens.  Outside its double-quoted strings a calm text
has only blanks, the characters of names and numbers, and the punctuation of
plain data; no mark that opens a call, a comment, a tag, a template or a regular
expression.  Reading a token from such a text leaves a calm text
(`Calm.drop_lexeme`), so no token that is read starts with such a mark
(`calm_read`), and no call can be put together from what has been read
(`call?_eq_none`).

Main definitions: `Calm`, `Token.isCalm`, `Tree.isCalm`.
-/
import AnimLint.Script.Tree

namespace AnimLint.Script

open Text

/-! ### Calm texts -/

/-- Holds of the characters that may stand outside the strings of a calm
text. -/
def isQuiet (c : Char) : Bool :=
  c.isAlphanum || [' ', '\n', '\t', '\r', '\x7b', '\x7d', '[', ']', ',', ':', '.',
    '+', '-'].contains c

/-- Holds of texts with only quiet characters outside of strings. -/
inductive Calm : List Char → Prop
  | nil : Calm []
  | quiet {c : Char} {r : List Char} : isQuiet c = true → Calm r → Calm (c :: r)
  | string {inner rest : List Char} :
      stringLength? '"' inner = some inner.length → Calm rest →
      Calm ('"' :: (inner ++ rest))

theorem stringLength?_cons {quote c : Char} (r : List Char) (hc : c ≠ '\\') :
    stringLength? quote (c :: r) =
      if c == quote then some 1
      else if c == '\n' || c == '\r' then none
      else (stringLength? quote r).map (· + 1) := by
  rw [stringLength?]
  · exact fun _ h => absurd h hc
  · exact fun _ _ h => absurd h hc

/-- What follows a string does not change where it ends. -/
theorem stringLength?_append {quote : Char} (hne : quote ≠ '\\') {s : List Char} {n : Nat}
    (t : List Char) (h : stringLength? quote s = some n) :
    stringLength? quote (s ++ t) = some n := by
  fun_induction stringLength? quote s generalizing n with
  | case1 => cases h
  | case2 r ih =>
    obtain ⟨m, hm, rfl⟩ := Option.map_eq_some_iff.1 h
    rw [List.cons_append, List.cons_append, List.cons_append, stringLength?, ih hm,
      Option.map_some]
  -- an escaped line end may take two characters, and the second must not be one
  -- that is appended
  | case3 c r hc ih =>
    obtain ⟨m, hm, rfl⟩ := Option.map_eq_some_iff.1 h
    rw [List.cons_append, List.cons_append, stringLength?, ih hm, Option.map_some]
    intro r' hreturn hfeed
    cases r with
    | nil => cases hm
    | cons d r => exact hc r hreturn (by rw [(List.cons.inj hfeed).1])
  | case4 c r _ _ hquote =>
    have hc : c ≠ '\\' := by
      rintro rfl
      exact hne (beq_iff_eq.1 hquote).symm
    rw [List.cons_append, stringLength?_cons _ hc, if_pos hquote, h]
  | case5 => cases h
  | case6 c r _ hescape hquote hline ih =>
    obtain ⟨m, hm, rfl⟩ := Option.map_eq_some_iff.1 h
    have hc : c ≠ '\\' := by
      rintro rfl
      cases r with
      | nil => cases hm
      | cons d r => exact hescape d r rfl rfl
    rw [List.cons_append, stringLength?_cons _ hc, if_neg hquote, if_neg hline,
      ih hm, Option.map_some]

namespace Calm

variable {s r : List Char} {c : Char}

/-- A calm text goes on with a quiet character or with a string. -/
theorem cases_cons (h : Calm (c :: r)) :
    isQuiet c = true ∧ Calm r ∨
      c = '"' ∧ ∃ n, stringLength? '"' r = some n ∧ Calm (r.drop n) := by
  cases h with
  | quiet hc hr => exact .inl ⟨hc, hr⟩
  | string hinner hrest =>
    exact .inr ⟨rfl, _, stringLength?_append (by decide)
      _ hinner, by rwa [List.drop_left]⟩

theorem tail (h : Calm (c :: r)) (hc : c ≠ '"') : Calm r := by
  rcases h.cases_cons with ⟨-, hr⟩ | ⟨rfl, -⟩
  · exact hr
  · exact absurd rfl hc

/-- What neither is quiet nor opens a string stands at the front of no calm
text. -/
theorem false_of_cons (h : Calm (c :: r)) (hc : (isQuiet c || c == '"') = false) :
    False := by
  rcases h.cases_cons with ⟨hquiet, -⟩ | ⟨rfl, -⟩
  · rw [hquiet] at hc
    cases hc
  · exact absurd hc (by decide)

/-- A text stays calm when characters are taken off that open no string. -/
theorem drop {n : Nat} (h : Calm s) (hn : '"' ∉ s.take n) : Calm (s.drop n) := by
  induction s generalizing n with
  | nil => simpa using h
  | cons c r ih =>
    cases n with
    | zero => exact h
    | succ n =>
      rw [List.take_succ_cons, List.mem_cons, not_or] at hn
      exact ih (h.tail (Ne.symm hn.1)) hn.2

theorem drop_countWhile {p : Char → Bool} (h : Calm s) (hp : p '"' = false) :
    Calm (s.drop (countWhile p s)) := by
  refine h.drop fun hmem => ?_
  have hall := List.all_eq_true.1 (all_take_countWhile p s) '"' hmem
  rw [hp] at hall
  cases hall

/-! ### Reading from calm texts -/

theorem drop_exponentLength (h : Calm s) : Calm (s.drop (exponentLength s)) := by
  have hdigits (r : List Char) (hr : Calm r) :
      Calm (r.drop (countWhile isDigitOrMark r)) :=
    hr.drop_countWhile (by decide)
  unfold exponentLength
  split
  · next e sign r =>
    split
    · next he =>
      have hsign : Calm (sign :: r) := h.tail fun hquote => by
        subst hquote
        cases he
      split
      · next hmark =>
        have hr : Calm r := hsign.tail fun hquote => by
          subst hquote
          cases hmark
        have := hdigits r hr
        simp only
        split
        · exact h
        · next n hn =>
          rw [hn] at this
          rwa [Nat.add_assoc 2, Nat.add_comm 2, List.drop_succ_cons, List.drop_succ_cons]
      · have := hdigits (sign :: r) hsign
        simp only
        split
        · exact h
        · next n hn =>
          rw [hn] at this
          rwa [Nat.add_assoc 1, Nat.add_comm 1, List.drop_succ_cons]
    · exact h
  · exact h

theorem drop_decimalLength (h : Calm s) : Calm (s.drop (decimalLength s)) := by
  have hwhole : Calm (s.drop (countWhile isDigitOrMark s)) :=
    h.drop_countWhile (by decide)
  unfold decimalLength
  simp only
  split
  · next r hr =>
    rw [hr] at hwhole
    rw [← List.drop_drop, hr]
    exact hwhole.tail (by decide)
  · next r hr =>
    rw [hr] at hwhole
    have hpoint : Calm r := hwhole.tail (by decide)
    have hfraction : Calm (r.drop (countWhile isDigitOrMark r)) :=
      hpoint.drop_countWhile (by decide)
    rw [Nat.add_assoc, Nat.add_assoc, ← List.drop_drop, hr, Nat.add_comm 1,
      List.drop_succ_cons, ← List.drop_drop]
    exact hfraction.drop_exponentLength
  · rw [← List.drop_drop]
    exact hwhole.drop_exponentLength

theorem drop_numberLength (h : Calm s) : Calm (s.drop (numberLength s)) := by
  unfold numberLength
  split
  · next base r =>
    split
    · next hbase =>
      have hr : Calm r := (h.tail (by decide)).tail fun hquote => by
        subst hquote
        cases hbase
      have hdigits : Calm (r.drop (countWhile (fun c => isHexDigit c || c == '_') r)) :=
        hr.drop_countWhile (by decide)
      simp only
      split
      · next rest hrest =>
        rw [hrest] at hdigits
        rw [List.drop_succ_cons, List.drop_succ_cons, ← List.drop_drop, hrest]
        exact hdigits.tail (by decide)
      · rwa [List.drop_succ_cons, List.drop_succ_cons]
    · exact h.drop_decimalLength
  · exact h.drop_decimalLength

theorem drop_nameLength (h : Calm s) : Calm (s.drop (nameLength 0 s).1) := by
  induction s with
  | nil => exact h
  | cons c r ih =>
    rw [nameLength]
    split
    · next hpart =>
      refine ih (h.tail ?_)
      rintro rfl
      revert hpart
      decide
    · split
      · next hescape =>
        rw [beq_iff_eq] at hescape
        subst hescape
        exact (h.false_of_cons (by decide)).elim
      · exact h

theorem drop_punctuatorLength {n : Nat} (h : Calm s) (hn : punctuatorLength? s = some n) :
    Calm (s.drop n) := by
  -- no punctuator has a quotation mark in it
  have hmarks : (punctuators.all fun p => !p.toList.contains '"') = true := by decide
  unfold punctuatorLength? at hn
  split at hn
  · exact (h.false_of_cons (by decide)).elim
  · obtain ⟨p, hp, rfl⟩ := Option.map_eq_some_iff.1 hn
    have hstarts : p.toList.isPrefixOf s = true := by simpa using List.find?_some hp
    have hfront : p.toList <+: s := List.isPrefixOf_iff_prefix.1 hstarts
    have hmark := List.all_eq_true.1 hmarks p (List.mem_of_find?_eq_some hp)
    refine h.drop ?_
    rw [← List.prefix_iff_eq_take.1 hfront]
    simpa using hmark

theorem drop_lexeme (h : Calm s) : Calm (s.drop (lexeme s).2) := by
  have hname (kind : TokenKind) : Calm (s.drop (nameLexeme kind 0 s).2) := by
    have := h.drop_nameLength
    unfold nameLexeme
    split <;> next heq => simpa [heq] using this
  have hnumber : Calm (s.drop (numberLexeme s).2) := by
    have := h.drop_numberLength
    unfold numberLexeme
    simp only
    split
    · split <;> exact this
    · exact this
  have hpunctuator : Calm (s.drop (punctuatorLexeme s).2) := by
    unfold punctuatorLexeme
    split
    · next n hn => exact h.drop_punctuatorLength hn
    · exact h
    · exact h
  -- an escape, a template or a private name cannot start in a calm text, and a
  -- string is taken whole
  unfold lexeme
  split
  · exact h
  · exact (h.false_of_cons (by decide)).elim
  · exact (h.false_of_cons (by decide)).elim
  · split
    · exact hnumber
    · exact hpunctuator
  · next c r _ _ _ =>
    split
    · exact hname .word
    · split
      · exact hnumber
      · split
        · next hquote =>
          rcases h.cases_cons with ⟨hquiet, -⟩ | ⟨rfl, n, hn, hrest⟩
          · rcases Bool.or_eq_true_iff.1 hquote with hc | hc <;>
              rw [beq_iff_eq.1 hc] at hquiet <;>
              cases hquiet
          · rw [hn]
            exact hrest
        · split
          · next htick =>
            rw [beq_iff_eq] at htick
            subst htick
            exact (h.false_of_cons (by decide)).elim
          · exact hpunctuator

theorem drop_triviaLexeme {kind : TriviaKind} {n : Nat} (h : Calm s)
    (hn : triviaLexeme? s = some (kind, n)) : Calm (s.drop n) := by
  have hblank : Calm (s.drop (countWhile isSpace s)) := h.drop_countWhile (by decide)
  unfold triviaLexeme? at hn
  split at hn
  · exact (h.false_of_cons (by decide)).elim
  · exact (h.false_of_cons (by decide)).elim
  · split at hn
    · cases hn
    · next m hm =>
      obtain ⟨-, rfl⟩ := Prod.mk.inj (Option.some.inj hn)
      rwa [hm] at hblank

theorem cutTrivia {skip : Nat} (h : Calm (s.drop skip)) :
    Calm (cutTrivia (triviaLengths skip s) (s.drop skip)).2 := by
  induction s generalizing skip with
  | nil => exact h
  -- the induction is on the text, as the lexeme that is found is skipped one
  -- character at a time
  | cons c r ih =>
    cases skip with
    | succ k => exact ih h
    | zero =>
      rw [triviaLengths]
      rcases hlexeme : triviaLexeme? (c :: r) with - | ⟨kind, n⟩
      · exact h
      · obtain ⟨m, rfl⟩ : ∃ m, n = m + 1 :=
          ⟨n - 1, by have := (isPlain_triviaLexeme hlexeme).1; omega⟩
        exact ih (h.drop_triviaLexeme hlexeme)

/-- Behind the blanks at its front a calm text is calm. -/
theorem readTrivia (h : Calm s) : Calm (readTrivia s).2 := @cutTrivia s 0 h

end Calm

/-! ### Calm tokens -/

namespace Token

/-- Holds of tokens that may stand in a calm text. -/
def isCalm (t : Token) : Bool := t.text.head?.all fun c => isQuiet c || c == '"'

/-- The characters after which, or in front of which, text is read in a way of
its own. -/
def marks : List Char := ['`', '/', '<', '>', '=']

/-- Holds of tokens that start with such a character. -/
def isMarked (t : Token) : Bool := t.text.head?.any marks.contains

theorem isMarked_eq_false {t : Token} (h : t.isCalm = true) : t.isMarked = false := by
  have hmarks : (marks.all fun c => !(isQuiet c || c == '"')) = true := by decide
  rw [isCalm] at h
  rw [isMarked]
  rcases hhead : t.text.head? with - | c
  · rfl
  · rw [hhead, Option.all_some] at h
    rw [Option.any_some]
    refine Bool.eq_false_iff.2 fun hc => ?_
    have hloud := List.all_eq_true.1 hmarks c (List.contains_iff_mem.1 hc)
    rw [h] at hloud
    cases hloud

theorem isCalm_of_rest {t : Token} {ahead : List Char} (h : Calm (t.text ++ ahead)) :
    t.isCalm = true := by
  unfold isCalm
  rcases htext : t.text with - | ⟨c, r⟩
  · rfl
  · rw [htext] at h
    rcases h.cases_cons with ⟨hquiet, -⟩ | ⟨rfl, -⟩
    · simp [hquiet]
    · simp

/-- Of what is read off a calm text, all is calm that stands behind the
blanks. -/
theorem calm_read {s : List Char} (h : Calm s) :
    Calm ((Token.read s).1.text ++ (Token.read s).2) ∧ Calm (Token.read s).2 := by
  unfold Token.read Token.cut
  refine ⟨?_, h.readTrivia.drop_lexeme⟩
  simpa using h.readTrivia

end Token

/-! ### Calm trees -/

namespace Tree

mutual

/-- Holds of trees of calm tokens in which nothing is called. -/
def isCalm : Tree → Bool
  | leaf t => t.isCalm
  | node _ parts => areCalm parts
  | call _ _ _ _ _ => false

/-- Holds of rows of calm trees. -/
def areCalm : List Tree → Bool
  | [] => true
  | t :: r => t.isCalm && areCalm r

end

theorem areCalm_eq_all (l : List Tree) : areCalm l = l.all isCalm := by
  induction l with
  | nil => rfl
  | cons t r ih => rw [areCalm, List.all_cons, ih]

/-- Holds of leaves with a marked token. -/
def isMarked : Tree → Bool
  | leaf t => t.isMarked
  | _ => false

theorem isMarked_eq_false {t : Tree} (h : t.isCalm = true) : t.isMarked = false := by
  cases t with
  | leaf t => exact Token.isMarked_eq_false h
  | node kind parts => rfl
  | call callee typeArguments opening items closing => rfl

theorem callOf?_eq_none {callee : Tree} {typeArguments rest : List Tree} {opening : Token}
    (h : opening.isCalm = true) : callOf? callee typeArguments opening rest = none := by
  refine Option.eq_none_iff_forall_ne_some.2 fun t ht => ?_
  obtain ⟨items, closing, -, hsound, -⟩ := eq_call_of_callOf ht
  simp only [callIsSound, Bool.and_eq_true, beq_iff_eq] at hsound
  rw [Token.isCalm, hsound.1.1.1.1.2] at h
  revert h
  decide

/-- No call can be put together from calm trees: none of them is a
parenthesis. -/
theorem call?_eq_none {l : List Tree} (h : areCalm l = true) : call? l = none := by
  unfold call?
  split
  · simp only [areCalm, isCalm, Bool.and_eq_true] at h
    exact callOf?_eq_none h.2.2.1
  · simp only [areCalm, isCalm, Bool.and_eq_true] at h
    exact callOf?_eq_none h.2.1
  · rfl

end Tree

end AnimLint.Script
