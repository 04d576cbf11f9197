/-
AnimLint/Proofs/Legibility.lean

How a gap without line comments is read.  It is a row of stretches: code that
opens neither a literal nor a comment, then what is read word for word, then
code again, and so on; only the last stretch may be left open (`Legible`).  Each
such row is read back stretch by stretch, whatever its code is, as long as no
code meets what follows it in two characters that open a comment
(`segments_closed`), and every gap in which no line comment is noticed is such a
row (`legible_of_hasLineComment`).

The code of a row is left open: what joining lines makes of a gap is such a row
as well, with other code in it.
-/
import Mathlib.Data.List.Chain
import AnimLint.Proofs.GapText

namespace AnimLint

open Text Gap Script

/-! ### Plain code -/

/-- Holds of two characters that open a comment. -/
def opensComment (a b : Char) : Bool := a == '/' && (b == '/' || b == '*')

/-- Holds of texts that do not open a comment where the first one ends and the
second one begins. -/
def Parted (c s : List Char) : Prop :=
  ∀ a ∈ c.getLast?, ∀ b ∈ s.head?, opensComment a b = false

theorem Parted.nil_right (c : List Char) : Parted c [] := fun _ _ _ hb => nomatch hb

theorem Parted.nil_left (s : List Char) : Parted [] s := fun _ ha => nomatch ha

theorem Parted.suffix {c d s : List Char} (h : Parted c s) (hd : d <:+ c) :
    Parted d s := by
  obtain ⟨t, rfl⟩ := hd
  intro a ha
  apply h a
  rw [List.getLast?_append, show d.getLast? = some a from ha]
  rfl

/-- Holds of text that opens neither a literal nor a comment. -/
structure IsPlain (c : List Char) : Prop where
  noQuote : ∀ x ∈ c, isQuote x = false
  noOpener : c.IsChain fun a b => opensComment a b = false

theorem IsPlain.nil : IsPlain [] := ⟨fun _ h => absurd h List.not_mem_nil, .nil⟩

theorem isPlain_append {c d : List Char} :
    IsPlain (c ++ d) ↔ IsPlain c ∧ IsPlain d ∧ Parted c d := by
  constructor
  · rintro ⟨hquote, hopener⟩
    obtain ⟨hc, hd, hmeet⟩ := List.isChain_append.1 hopener
    exact ⟨⟨fun x hx => hquote x (List.mem_append_left _ hx), hc⟩,
      ⟨fun x hx => hquote x (List.mem_append_right _ hx), hd⟩, hmeet⟩
  · rintro ⟨hc, hd, hmeet⟩
    refine ⟨fun x hx => ?_, List.isChain_append.2 ⟨hc.noOpener, hd.noOpener, hmeet⟩⟩
    rcases List.mem_append.1 hx with hx | hx
    · exact hc.noQuote x hx
    · exact hd.noQuote x hx

/-- A character that opens nothing with the one behind it is read as code. -/
theorem segmentsFrom_code_cons {c : Char} (hquote : isQuote c = false) {s : List Char}
    (hopener : ∀ b ∈ s.head?, opensComment c b = false) (taken : List Char) :
    segmentsFrom .code taken (c :: s) = segmentsFrom .code (c :: taken) s := by
  have hnot : ∀ (b : Char) (r : List Char), (b = '/' ∨ b = '*') → c = '/' →
      s = b :: r → False := by
    rintro b r hb rfl rfl
    have := hopener b rfl
    rcases hb with rfl | rfl <;> cases this
  rw [segmentsFrom, hquote]
  · rfl
  · exact fun r => hnot '/' r (.inl rfl)
  · exact fun r => hnot '*' r (.inr rfl)

/-- Plain code is read as such, unless its last character opens a comment with
what follows. -/
theorem segmentsFrom_plain {c : List Char} (hc : IsPlain c) {s : List Char}
    (hmeet : Parted c s) (taken : List Char) :
    segmentsFrom .code taken (c ++ s) = segmentsFrom .code (c.reverse ++ taken) s := by
  induction c generalizing taken with
  | nil => rfl
  | cons x c ih =>
    obtain ⟨hx, hrest, hpair⟩ := isPlain_append.1 (show IsPlain ([x] ++ c) from hc)
    have hnext : ∀ b ∈ (c ++ s).head?, opensComment x b = false := by
      rcases c with - | ⟨y, c⟩
      · exact hmeet x rfl
      · exact hpair x rfl
    rw [List.cons_append,
      segmentsFrom_code_cons (hx.noQuote x (List.mem_singleton_self x)) hnext,
      ih hrest (hmeet.suffix (List.suffix_cons x c)), List.reverse_cons,
      List.append_assoc]
    rfl

/-! ### What is read word for word -/

/-- What opens a literal or a block comment, and how it is read on from
there. -/
inductive Opener : List Char → Mode → Prop
  | quote {q : Char} : isQuote q = true → Opener [q] (.literal q)
  | comment : Opener ['/', '*'] .block

/-- Holds of text that closes what is being read, at its own end and whatever
follows; it does not end in a blank. -/
structure Closes (mode : Mode) (body : List Char) : Prop where
  reads : ∀ taken s, segmentsFrom mode taken (body ++ s) =
    finish .verbatim (body.reverse ++ taken) ++ segmentsFrom .code [] s
  last : ∃ inner z, body = inner ++ [z] ∧ isBlank z = false

/-- Holds of text that leaves open what is being read. -/
def RunsOn (mode : Mode) (body : List Char) : Prop :=
  ∀ taken, segmentsFrom mode taken body = finish .verbatim (body.reverse ++ taken)

/-- Holds of text that leaves open what is being read or closes it somewhere. -/
def RunsOnOrCloses (mode : Mode) (s : List Char) : Prop :=
  RunsOn mode s ∨ ∃ body rest, s = body ++ rest ∧ Closes mode body

/-- Text that only moves the reader on may stand in front. -/
theorem RunsOnOrCloses.prepend {mode : Mode} (front : List Char) {s : List Char}
    (h : RunsOnOrCloses mode s)
    (hfront : ∀ taken s, segmentsFrom mode taken (front ++ s) =
      segmentsFrom mode (front.reverse ++ taken) s) :
      RunsOnOrCloses mode (front ++ s) := by
  rcases h with hopen | ⟨body, rest, rfl, hbody⟩
  · refine .inl fun taken => ?_
    rw [hfront, hopen, List.reverse_append, List.append_assoc]
  · refine .inr ⟨front ++ body, rest, (List.append_assoc ..).symm, ?_, ?_⟩
    · intro taken s
      rw [List.append_assoc, hfront, hbody.reads, List.reverse_append, List.append_assoc]
    · obtain ⟨inner, z, rfl, hz⟩ := hbody.last
      exact ⟨front ++ inner, z, (List.append_assoc ..).symm, hz⟩

theorem isQuote_cases {q : Char} (h : isQuote q = true) : q = '\'' ∨ q = '"' ∨ q = '`' := by
  simpa [isQuote, or_assoc] using h

theorem Opener.segmentsFrom {o : List Char} {mode : Mode} (h : Opener o mode)
    (taken s : List Char) :
    segmentsFrom .code taken (o ++ s) =
      finish .code taken ++ Gap.segmentsFrom mode o.reverse s := by
  cases h with
  | @quote q hq =>
    rw [List.singleton_append, Gap.segmentsFrom, if_pos hq]
    · rfl
    · rintro r rfl
      cases hq
    · rintro r rfl
      cases hq
  | comment => rw [List.cons_append, List.singleton_append, Gap.segmentsFrom]; rfl

/-- No blank ends an opener. -/
theorem Opener.exists_last {o : List Char} {mode : Mode} (h : Opener o mode) :
    ∃ inner z, o = inner ++ [z] ∧ isBlank z = false := by
  cases h with
  | @quote q hq =>
    refine ⟨[], q, rfl, ?_⟩
    rcases isQuote_cases hq with rfl | rfl | rfl <;> rfl
  | comment => exact ⟨['/'], '*', rfl, rfl⟩

/-- No blank begins an opener. -/
theorem Opener.exists_head {o : List Char} {mode : Mode} (h : Opener o mode) :
    ∃ a rest, o = a :: rest ∧ isBlank a = false := by
  cases h with
  | @quote q hq =>
    refine ⟨q, [], rfl, ?_⟩
    rcases isQuote_cases hq with rfl | rfl | rfl <;> rfl
  | comment => exact ⟨'/', ['*'], rfl, rfl⟩

/-! ### Literals -/

theorem segmentsFrom_literal_cons {q c : Char} {r : List Char} (h : c ≠ '\\' ∨ r = [])
    (taken : List Char) :
    segmentsFrom (.literal q) taken (c :: r) =
      if c == q then finish .verbatim (c :: taken) ++ segmentsFrom .code [] r
      else segmentsFrom (.literal q) (c :: taken) r := by
  rw [segmentsFrom]
  rintro d r' rfl rfl
  rcases h with h | h
  · exact h rfl
  · cases h

theorem runsOnOrCloses_literal {q : Char} (hq : isQuote q = true) (s : List Char) :
    RunsOnOrCloses (.literal q) s := by
  have hescape : ('\\' == q) = false := by
    rcases isQuote_cases hq with rfl | rfl | rfl <;> rfl
  have hblank : isBlank q = false := by
    rcases isQuote_cases hq with rfl | rfl | rfl <;> rfl
  rcases s with - | ⟨c, r⟩
  · refine .inl fun taken => ?_
    rw [segmentsFrom]
    rfl
  · by_cases hc : c = '\\'
    · subst hc
      rcases r with - | ⟨d, r⟩
      · -- a backslash at the very end escapes nothing
        refine .inl fun taken => ?_
        rw [segmentsFrom_literal_cons (.inr rfl), hescape,
          if_neg Bool.false_ne_true, segmentsFrom]
        rfl
      · -- whatever it is, the character behind a backslash is passed over
        apply (runsOnOrCloses_literal hq r).prepend ['\\', d]
        intro taken s
        show segmentsFrom (.literal q) taken ('\\' :: d :: s) = _
        rw [segmentsFrom]
        rfl
    · by_cases hclose : c = q
      · subst hclose
        refine .inr ⟨[c], r, rfl, fun taken s => ?_, [], c, rfl, hblank⟩
        rw [List.singleton_append, segmentsFrom_literal_cons (.inl hc),
          if_pos (beq_self_eq_true c)]
        rfl
      · apply (runsOnOrCloses_literal hq r).prepend [c]
        intro taken s
        rw [List.singleton_append, segmentsFrom_literal_cons (.inl hc),
          if_neg (by simpa using hclose)]
        rfl
termination_by s.length

/-! ### Block comments -/

theorem runsOn_block {s : List Char} (h : blockCommentLength? s = none) :
    RunsOn .block s := by
  intro taken
  fun_induction blockCommentLength? s generalizing taken with
  | case1 => rw [segmentsFrom]; rfl
  | case2 r => cases h
  | case3 c r hc ih =>
    rw [segmentsFrom, ih (Option.map_eq_none_iff.1 h)]
    · simp
    · exact hc

theorem runsOnOrCloses_block (s : List Char) : RunsOnOrCloses .block s := by
  rcases h : blockCommentLength? s with - | n
  · exact .inl (runsOn_block h)
  · have hbody := blockCommentLength?_take h
    obtain ⟨inner, hinner⟩ := exists_blockComment hbody
    refine .inr ⟨s.take n, s.drop n, (List.take_append_drop n s).symm,
      segmentsFrom_block hbody,
      inner ++ ['*'], '/', ?_, rfl⟩
    rw [hinner, List.append_assoc]
    rfl

/-- What is opened is left open or closed somewhere, whatever follows. -/
theorem Opener.runsOnOrCloses {o : List Char} {mode : Mode} (h : Opener o mode)
    (s : List Char) : RunsOnOrCloses mode s := by
  cases h with
  | quote hq => exact runsOnOrCloses_literal hq s
  | comment => exact runsOnOrCloses_block s

/-- What a text leaves open, its front leaves open. -/
theorem RunsOn.front {o : List Char} {mode : Mode} (h : Opener o mode) {a b : List Char}
    (hopen : RunsOn mode (a ++ b)) : RunsOn mode a := by
  rcases h.runsOnOrCloses a with hfront | ⟨body, rest, rfl, hbody⟩
  · exact hfront
  · -- if the front closed it, the segment would end there, and it ends where the text does
    have hread := hbody.reads ['/'] (rest ++ b)
    rw [← List.append_assoc, hopen, finish_of_ne_nil _ (by simp),
      finish_of_ne_nil _ (by simp)] at hread
    obtain ⟨htext, -⟩ := List.cons.inj hread
    have hnone : rest = [] ∧ b = [] := by simpa using congrArg Segment.text htext
    rwa [hnone.2, List.append_nil] at hopen

/-! ### Rows of stretches -/

/-- A gap without line comments, where `P` tells what its code is like. -/
inductive Legible (P : List Char → Prop) : List Char → Prop
  | code {c : List Char} : P c → Legible P c
  | unclosed {c o body : List Char} {mode : Mode} : P c → Opener o mode → Parted c o →
      RunsOn mode body → Legible P (c ++ (o ++ body))
  | closed {c o body s : List Char} {mode : Mode} : P c → Opener o mode → Parted c o →
      Closes mode body → Legible P s → Legible P (c ++ (o ++ (body ++ s)))

/-- The segment that code is read as; none if there is no code. -/
def codeOf (c : List Char) : List Segment := finish .code c.reverse

@[simp] theorem codeOf_nil : codeOf [] = [] := rfl

theorem codeOf_of_ne_nil {c : List Char} (hc : c ≠ []) : codeOf c = [⟨.code, c⟩] := by
  rw [codeOf, finish_of_ne_nil _ (by simpa using hc), List.reverse_reverse]

theorem eq_of_mem_codeOf {c : List Char} {s : Segment} (h : s ∈ codeOf c) :
    s = ⟨.code, c⟩ := by
  by_cases hc : c = []
  · rw [hc, codeOf_nil] at h
    cases h
  · rw [codeOf_of_ne_nil hc] at h
    exact List.mem_singleton.1 h

theorem Parted.append {c o : List Char} {mode : Mode} (h : Parted c o)
    (ho : Opener o mode)
    (s : List Char) : Parted c (o ++ s) := by
  obtain ⟨a, rest, rfl, -⟩ := ho.exists_head
  exact h

theorem segments_code {c : List Char} (hc : IsPlain c) : segments c = codeOf c := by
  have hread := segmentsFrom_plain hc (Parted.nil_right c) []
  rw [List.append_nil, List.append_nil, segmentsFrom] at hread
  exact hread

/-- What stands behind the first stretch of code is read on from there. -/
theorem segments_opener {c o : List Char} {mode : Mode} (hc : IsPlain c)
    (ho : Opener o mode) (hmeet : Parted c o) (s : List Char) :
    segments (c ++ (o ++ s)) = codeOf c ++ segmentsFrom mode o.reverse s := by
  rw [segments, segmentsFrom_plain hc (hmeet.append ho s), ho.segmentsFrom,
    List.append_nil]
  rfl

theorem finish_verbatim {o body : List Char} {mode : Mode} (ho : Opener o mode) :
    finish .verbatim (body.reverse ++ o.reverse) = [⟨.verbatim, o ++ body⟩] := by
  obtain ⟨a, rest, rfl, -⟩ := ho.exists_head
  rw [finish_of_ne_nil _ (by simp)]
  simp

theorem segments_unclosed {c o body : List Char} {mode : Mode} (hc : IsPlain c)
    (ho : Opener o mode) (hmeet : Parted c o) (hbody : RunsOn mode body) :
    segments (c ++ (o ++ body)) = codeOf c ++ [⟨.verbatim, o ++ body⟩] := by
  rw [segments_opener hc ho hmeet, hbody, finish_verbatim ho]

theorem segments_closed {c o body : List Char} {mode : Mode} (hc : IsPlain c)
    (ho : Opener o mode)
    (hmeet : Parted c o) (hbody : Closes mode body) (s : List Char) :
    segments (c ++ (o ++ (body ++ s))) =
      codeOf c ++ ⟨.verbatim, o ++ body⟩ :: segments s := by
  rw [segments_opener hc ho hmeet, hbody.reads, finish_verbatim ho]
  rfl

/-! ### Gaps without line comments -/

theorem hasLineComment_doubleSlash (s : List Char) :
    hasLineComment ('/' :: '/' :: s) = true :=
  hasLineComment_marksText (show ([] : List Mark).all Mark.isProper = true from rfl) s

/-- Whether a line comment follows does not depend on the code in front. -/
theorem lineComment_segmentsFrom_code (taken taken' s : List Char) :
    ((segmentsFrom .code taken s).any fun s => s.kind == .lineComment) =
      (segmentsFrom .code taken' s).any fun s => s.kind == .lineComment := by
  generalize hmode : Mode.code = mode
  fun_induction segmentsFrom mode taken s generalizing taken' with
  | case1 mode taken =>
    subst hmode
    rw [segmentsFrom, Mode.kind, any_lineComment_finish, any_lineComment_finish]
  | case2 taken r =>
    rw [segmentsFrom, List.any_append, List.any_append, any_lineComment_finish,
      any_lineComment_finish]
  | case3 taken r =>
    rw [segmentsFrom, List.any_append, List.any_append, any_lineComment_finish,
      any_lineComment_finish]
  | case4 taken c r hline hblock hq =>
    rw [segmentsFrom, if_pos hq, List.any_append, List.any_append, any_lineComment_finish,
      any_lineComment_finish]
    · exact hline
    · exact hblock
  | case5 taken c r hline hblock hq ih =>
    rw [ih (c :: taken') rfl, segmentsFrom, if_neg hq]
    · exact hline
    · exact hblock
  | _ => cases hmode

/-- A character that opens nothing may stand in front of a row. -/
theorem Legible.cons {x : Char} (hquote : isQuote x = false) {s : List Char}
    (hs : Legible IsPlain s)
    (hopener : ∀ b ∈ s.head?, opensComment x b = false) : Legible IsPlain (x :: s) := by
  have hx : IsPlain [x] := ⟨fun y hy => by rwa [List.mem_singleton.1 hy], .singleton x⟩
  have hplain {c t : List Char} (hc : IsPlain c)
      (hopener : ∀ b ∈ (c ++ t).head?, opensComment x b = false) :
      IsPlain (x :: c) := by
    refine isPlain_append.2 ⟨hx, hc, ?_⟩
    intro a ha b hb
    obtain rfl := Option.some.inj ha
    rcases c with - | ⟨y, c⟩
    · cases hb
    · exact hopener b hb
  have hparted {c o t : List Char} {mode : Mode} (ho : Opener o mode) (hmeet : Parted c o)
      (hopener : ∀ b ∈ (c ++ (o ++ t)).head?, opensComment x b = false) :
      Parted (x :: c) o := by
    intro a ha b hb
    rcases c with - | ⟨y, c⟩
    · obtain rfl := Option.some.inj ha
      obtain ⟨d, rest, rfl, -⟩ := ho.exists_head
      exact hopener b hb
    · rw [List.getLast?_cons_cons] at ha
      exact hmeet a ha b hb
  cases hs with
  | code hc => exact .code (hplain (t := []) hc (by rwa [List.append_nil]))
  | unclosed hc ho hmeet hbody =>
    exact .unclosed (hplain hc hopener) ho (hparted ho hmeet hopener) hbody
  | closed hc ho hmeet hbody hs =>
    exact .closed (hplain hc hopener) ho (hparted ho hmeet hopener) hbody hs

/-- A gap in which no line comment is noticed is a row of stretches with plain
code. -/
theorem legible_of_hasLineComment {g : List Char} (h : hasLineComment g = false) :
    Legible IsPlain g := by
  have hopened {o r : List Char} {mode : Mode} (ho : Opener o mode) (hg : g = o ++ r) :
      Legible IsPlain g := by
    subst hg
    rcases ho.runsOnOrCloses r with hopen | ⟨body, rest, rfl, hbody⟩
    · exact .unclosed .nil ho (.nil_left o) hopen
    · have hlen : rest.length < (o ++ (body ++ rest)).length := by
        obtain ⟨a, t, rfl, -⟩ := ho.exists_head
        simp
        omega
      have hrest : hasLineComment rest = false := by
        have hread := segments_closed .nil ho (.nil_left o) hbody rest
        rw [hasLineComment, ← List.nil_append (o ++ (body ++ rest)), hread,
          List.any_append, Bool.or_eq_false_iff, List.any_cons, Bool.or_eq_false_iff] at h
        exact h.2.2
      exact .closed .nil ho (.nil_left o) hbody (legible_of_hasLineComment hrest)
  rcases hg : g with - | ⟨x, r⟩
  · exact .code .nil
  · rw [← hg]
    by_cases hx : isQuote x = true
    · exact hopened (.quote hx) hg
    · rw [Bool.not_eq_true] at hx
      by_cases hopener : ∀ b ∈ r.head?, opensComment x b = false
      · have hrest : hasLineComment r = false := by
          rw [hg, hasLineComment, segments, segmentsFrom_code_cons hx hopener,
            lineComment_segmentsFrom_code _ []] at h
          exact h
        have hlen : r.length < g.length := by
          rw [hg]
          exact Nat.lt_succ_self _
        rw [hg]
        exact .cons hx (legible_of_hasLineComment hrest) hopener
      · -- two characters that open a comment, which is no line comment
        simp only [not_forall, Bool.not_eq_false] at hopener
        obtain ⟨b, hb, hopens⟩ := hopener
        rcases r with - | ⟨d, r⟩
        · cases hb
        · obtain rfl := Option.some.inj hb
          simp only [opensComment, Bool.and_eq_true, Bool.or_eq_true, beq_iff_eq]
            at hopens
          obtain ⟨rfl, rfl | rfl⟩ := hopens
          · rw [hg, hasLineComment_doubleSlash] at h
            cases h
          · exact hopened .comment hg
termination_by g.length

end AnimLint
