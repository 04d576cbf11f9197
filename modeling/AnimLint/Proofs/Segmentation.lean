/-
AnimLint/Proofs/Segmentation.lean

What the segments of a gap are, told without the reader.  A gap is code, then a
lexeme, then code again, and so on: a lexeme is a literal, a block comment or a
line comment (`Lexeme`), and what nothing closes runs up to the end of the gap.
The reader cuts each gap in this way (`segmented_segments`), so whatever holds
of all gaps that are cut in this way holds of what it reads.
-/
import AnimLint.Proofs.Legibility

namespace AnimLint.Gap

open Text

/-! ### Lexemes -/

/-- Holds of text between the quotes of a literal: no quote of the kind that
opened it stands there, unless a backslash stands in front of it, and no
backslash stands at the end. -/
inductive Quoted (q : Char) : List Char → Prop
  | nil : Quoted q []
  | char {c : Char} {r : List Char} : c ≠ q → c ≠ '\\' → Quoted q r → Quoted q (c :: r)
  | escape {c : Char} {r : List Char} : Quoted q r → Quoted q ('\\' :: c :: r)

/-- Holds of whole literals and block comments. -/
inductive IsClosed : List Char → Prop
  | literal {q : Char} {body : List Char} :
    isQuote q = true → Quoted q body → IsClosed (q :: (body ++ [q]))
  | comment {inner : List Char} : ¬ ['*', '/'] <:+: inner →
      IsClosed ('/' :: '*' :: (inner ++ ['*', '/']))

/-- Holds of literals and block comments that are cut off. -/
inductive IsUnclosed : List Char → Prop
  | literal {q : Char} {body : List Char} :
    isQuote q = true → Quoted q body → IsUnclosed (q :: body)
  /-- A literal that is cut off behind a backslash. -/
  | hanging {q : Char} {body : List Char} : isQuote q = true → Quoted q body →
      IsUnclosed (q :: (body ++ ['\\']))
  | comment {inner : List Char} :
    ¬ ['*', '/'] <:+: inner → IsUnclosed ('/' :: '*' :: inner)

/-- Holds of a kind and a text that is a literal or a comment if the other text
follows it. -/
inductive Lexeme : SegmentKind → List Char → List Char → Prop
  | closed {t s : List Char} : IsClosed t → Lexeme .verbatim t s
  | unclosed {t : List Char} : IsUnclosed t → Lexeme .verbatim t []
  | line {inner s : List Char} : '\n' ∉ inner → (∀ c ∈ s.head?, c = '\n') →
      Lexeme .lineComment ('/' :: '/' :: inner) s

theorem Lexeme.kind_ne_code {kind : SegmentKind} {t s : List Char} (h : Lexeme kind t s) :
    kind ≠ .code := by
  rintro rfl
  cases h

theorem Lexeme.ne_nil {kind : SegmentKind} {t s : List Char} (h : Lexeme kind t s) :
    t ≠ [] := by
  rcases h with ⟨h⟩ | ⟨h⟩ | _
  · cases h <;> exact List.cons_ne_nil _ _
  · cases h <;> exact List.cons_ne_nil _ _
  · exact List.cons_ne_nil _ _

/-! ### How lexemes are read -/

theorem ne_backslash_of_isQuote {q : Char} (hq : isQuote q = true) : q ≠ '\\' := by
  rintro rfl
  cases hq

/-- Inside a literal the reader moves on. -/
theorem segmentsFrom_quoted {q : Char} {body : List Char} (hbody : Quoted q body)
    (taken s : List Char) :
    segmentsFrom (.literal q) taken (body ++ s) =
      segmentsFrom (.literal q) (body.reverse ++ taken) s := by
  induction hbody generalizing taken with
  | nil => rfl
  | @char c r hquote hescape _ ih =>
    rw [List.cons_append, segmentsFrom_literal_cons (.inl hescape),
      if_neg (by simpa using hquote), ih]
    simp
  | @escape c r _ ih =>
    rw [List.cons_append, List.cons_append, segmentsFrom, ih]
    simp

/-- Behind its opening quote a literal is closed or cut off. -/
theorem exists_quoted {q : Char} (hq : q ≠ '\\') (s : List Char) :
    (∃ body rest, s = body ++ q :: rest ∧ Quoted q body) ∨ Quoted q s ∨
      ∃ body, s = body ++ ['\\'] ∧ Quoted q body := by
  have hstep (front : List Char)
      (hfront : ∀ body, Quoted q body → Quoted q (front ++ body)) {s : List Char}
      (h : (∃ body rest, s = body ++ q :: rest ∧ Quoted q body) ∨ Quoted q s ∨
        ∃ body, s = body ++ ['\\'] ∧ Quoted q body) :
      (∃ body rest, front ++ s = body ++ q :: rest ∧ Quoted q body) ∨
      Quoted q (front ++ s) ∨
        ∃ body, front ++ s = body ++ ['\\'] ∧ Quoted q body := by
    refine h.imp ?_ (.imp (hfront s) ?_)
    · rintro ⟨body, rest, rfl, hbody⟩
      exact ⟨front ++ body, rest, (List.append_assoc ..).symm, hfront body hbody⟩
    · rintro ⟨body, rfl, hbody⟩
      exact ⟨front ++ body, (List.append_assoc ..).symm, hfront body hbody⟩
  rcases s with - | ⟨c, r⟩
  · exact .inr (.inl .nil)
  · by_cases hescape : c = '\\'
    · subst hescape
      rcases r with - | ⟨d, r⟩
      · exact .inr (.inr ⟨[], rfl, .nil⟩)
      · exact hstep ['\\', d] (fun _ hbody => .escape hbody) (exists_quoted hq r)
    · by_cases hquote : c = q
      · subst hquote
        exact .inl ⟨[], r, rfl, .nil⟩
      · exact hstep [c] (fun _ hbody => .char hquote hescape hbody) (exists_quoted hq r)
termination_by s.length

/-- The end of a line comment is a line feed, which belongs to the code behind
it. -/
theorem segmentsFrom_line (taken s : List Char) :
    ∃ inner rest, s = inner ++ rest ∧ '\n' ∉ inner ∧ (∀ c ∈ rest.head?, c = '\n') ∧
      segmentsFrom .line taken s =
        finish .lineComment (inner.reverse ++ taken) ++ segments rest := by
  induction s generalizing taken with
  | nil => exact ⟨[], [], rfl, List.not_mem_nil,
    nofun, by simp [segmentsFrom, segments, Mode.kind, finish]⟩
  | cons c r ih =>
    by_cases hc : c = '\n'
    · subst hc
      refine ⟨[], '\n' :: r, rfl, List.not_mem_nil,
        fun d hd => (Option.some.inj hd).symm, ?_⟩
      rw [segments, segmentsFrom_code_cons rfl fun b _ => rfl, segmentsFrom]
      rfl
    · obtain ⟨inner, rest, rfl, hinner, hrest, hread⟩ := ih (c :: taken)
      refine ⟨c :: inner, rest, rfl, ?_, hrest, ?_⟩
      · rw [List.mem_cons, not_or]
        exact ⟨Ne.symm hc, hinner⟩
      · rw [segmentsFrom, if_neg (by simpa using hc), hread, List.reverse_cons,
          List.append_assoc]
        rfl

theorem not_infix_cons {a b c : Char} {s : List Char} :
    ¬ [a, b] <:+: c :: s ↔ ¬ (c = a ∧ s.head? = some b) ∧ ¬ [a, b] <:+: s := by
  rw [List.infix_cons_iff, not_or, List.cons_prefix_cons]
  refine and_congr_left fun _ => not_congr ?_
  rcases s with - | ⟨d, s⟩ <;> simp [eq_comm]

theorem segmentsFrom_block_cons_of_not {c : Char} {s : List Char}
    (h : ¬ (c = '*' ∧ s.head? = some '/')) (taken : List Char) :
    segmentsFrom .block taken (c :: s) = segmentsFrom .block (c :: taken) s := by
  rw [segmentsFrom]
  rintro r rfl rfl
  exact h ⟨rfl, rfl⟩

/-- A block comment is closed where the first `*/` stands. -/
theorem segmentsFrom_block_closed {inner : List Char} (h : ¬ ['*', '/'] <:+: inner)
    (taken rest : List Char) :
    segmentsFrom .block taken (inner ++ '*' :: '/' :: rest) =
      finish .verbatim ('/' :: '*' :: (inner.reverse ++ taken)) ++ segments rest := by
  induction inner generalizing taken with
  | nil => rw [List.nil_append, segmentsFrom]; rfl
  | cons c inner ih =>
    obtain ⟨hc, hinner⟩ := not_infix_cons.1 h
    rw [List.cons_append, segmentsFrom_block_cons_of_not, ih hinner,
      List.reverse_cons, List.append_assoc]
    · rfl
    · rintro ⟨rfl, hhead⟩
      rcases inner with - | ⟨d, inner⟩
      · cases hhead
      · exact hc ⟨rfl, hhead⟩

theorem segmentsFrom_block_unclosed {s : List Char} (h : ¬ ['*', '/'] <:+: s)
    (taken : List Char) :
    segmentsFrom .block taken s = finish .verbatim (s.reverse ++ taken) := by
  induction s generalizing taken with
  | nil => rw [segmentsFrom]; rfl
  | cons c s ih =>
    obtain ⟨hc, hs⟩ := not_infix_cons.1 h
    rw [segmentsFrom_block_cons_of_not hc, ih hs, List.reverse_cons, List.append_assoc]
    rfl

theorem exists_close {s : List Char} (h : ['*', '/'] <:+: s) :
    ∃ inner rest, s = inner ++ '*' :: '/' :: rest ∧ ¬ ['*', '/'] <:+: inner := by
  induction s with
  | nil => cases List.infix_nil.1 h
  | cons c s ih =>
    by_cases hhead : c = '*' ∧ s.head? = some '/'
    · obtain ⟨rfl, hhead⟩ := hhead
      obtain ⟨r, rfl⟩ := List.head?_eq_some_iff.1 hhead
      exact ⟨[], r, rfl, fun hnil => by cases List.infix_nil.1 hnil⟩
    · by_cases hs : ['*', '/'] <:+: s
      · obtain ⟨inner, rest, rfl, hinner⟩ := ih hs
        refine ⟨c :: inner, rest, rfl, not_infix_cons.2 ⟨?_, hinner⟩⟩
        rintro ⟨rfl, hslash⟩
        obtain ⟨r, rfl⟩ := List.head?_eq_some_iff.1 hslash
        exact hhead ⟨rfl, rfl⟩
      · exact absurd h (not_infix_cons.2 ⟨hhead, hs⟩)

/-! ### Where a lexeme starts -/

/-- Holds of text with a quote or two characters that open a comment at its
front. -/
inductive Opens : List Char → Prop
  | quote {q : Char} (r : List Char) : isQuote q = true → Opens (q :: r)
  | line (r : List Char) : Opens ('/' :: '/' :: r)
  | block (r : List Char) : Opens ('/' :: '*' :: r)

theorem segmentsFrom_unclosed {mode : Mode} {taken : List Char} (s : List Char)
    (h : segmentsFrom mode taken s = finish .verbatim (s.reverse ++ taken))
    (hne : taken ≠ []) :
    segmentsFrom mode taken s = ⟨.verbatim, taken.reverse ++ s⟩ :: segments [] := by
  rw [h, finish_of_ne_nil _ (by simp [hne])]
  simp [segments, segmentsFrom, finish]

/-- Where something opens, the code in front ends and a lexeme is read. -/
theorem exists_lexeme {s : List Char} (h : Opens s) :
    ∃ kind t rest, s = t ++ rest ∧ Lexeme kind t rest ∧
      ∀ taken, segmentsFrom .code taken s =
        finish .code taken ++ ⟨kind, t⟩ :: segments rest := by
  cases h with
  | @quote q r hq =>
    have hopen (taken : List Char) := (Opener.quote hq).segmentsFrom taken r
    rcases exists_quoted (ne_backslash_of_isQuote hq) r with
      ⟨body, rest, rfl, hbody⟩ | hbody | ⟨body, rfl, hbody⟩
    · refine ⟨_, q :: (body ++ [q]),
        rest, by simp, .closed (.literal hq hbody), fun taken => ?_⟩
      rw [← List.singleton_append, hopen, List.reverse_singleton,
        segmentsFrom_quoted hbody,
        segmentsFrom_literal_cons (.inl (ne_backslash_of_isQuote hq)),
        if_pos (beq_self_eq_true q), finish_of_ne_nil .verbatim (List.cons_ne_nil _ _)]
      simp [segments]
    · refine ⟨_, q :: r, [], by simp, .unclosed (.literal hq hbody), fun taken => ?_⟩
      have hread := segmentsFrom_quoted hbody [q] []
      rw [List.append_nil, segmentsFrom] at hread
      rw [← List.singleton_append, hopen, List.reverse_singleton,
        segmentsFrom_unclosed r hread (List.cons_ne_nil _ _)]
      rfl
    · refine ⟨_, q :: (body ++ ['\\']),
        [], by simp, .unclosed (.hanging hq hbody), fun taken => ?_⟩
      have hread : segmentsFrom (.literal q) [q] (body ++ ['\\']) =
          finish .verbatim ((body ++ ['\\']).reverse ++ [q]) := by
        rw [segmentsFrom_quoted hbody, segmentsFrom_literal_cons (.inr rfl),
          if_neg (by simpa using Ne.symm (ne_backslash_of_isQuote hq)), segmentsFrom]
        simp [Mode.kind]
      rw [← List.singleton_append, hopen, List.reverse_singleton,
        segmentsFrom_unclosed _ hread (List.cons_ne_nil _ _)]
      rfl
  | line r =>
    obtain ⟨inner, rest, rfl, hinner, hrest, hread⟩ := segmentsFrom_line ['/', '/'] r
    refine ⟨_, '/' :: '/' :: inner, rest, rfl, .line hinner hrest, fun taken => ?_⟩
    rw [segmentsFrom, hread, finish_of_ne_nil .lineComment (by simp)]
    simp
  | block r =>
    by_cases hclose : ['*', '/'] <:+: r
    · obtain ⟨inner, rest, rfl, hinner⟩ := exists_close hclose
      refine ⟨_, '/' :: '*' :: (inner ++ ['*', '/']),
        rest, by simp, .closed (.comment hinner),
        fun taken => ?_⟩
      rw [segmentsFrom, segmentsFrom_block_closed hinner,
        finish_of_ne_nil .verbatim (List.cons_ne_nil _ _)]
      simp
    · refine ⟨_, '/' :: '*' :: r,
        [], by simp, .unclosed (.comment hclose), fun taken => ?_⟩
      rw [segmentsFrom, segmentsFrom_unclosed r
        (segmentsFrom_block_unclosed hclose _) (List.cons_ne_nil _ _)]
      rfl

/-- A text is plain up to its end or up to where something opens. -/
theorem exists_plain (s : List Char) :
    ∃ c r, s = c ++ r ∧ IsPlain c ∧ Parted c r ∧ (r = [] ∨ Opens r) := by
  induction s with
  | nil => exact ⟨[], [], rfl, .nil, .nil_left [], .inl rfl⟩
  | cons x s ih =>
    by_cases hopens : Opens (x :: s)
    · exact ⟨[], x :: s, rfl, .nil, .nil_left _, .inr hopens⟩
    · obtain ⟨c, r, rfl, hc, hmeet, hr⟩ := ih
      have hquote : isQuote x = false :=
        Bool.eq_false_iff.2 fun hq => hopens (.quote _ hq)
      have hnext : ∀ b ∈ (c ++ r).head?, opensComment x b = false := by
        intro b hb
        obtain ⟨rest, hrest⟩ := List.head?_eq_some_iff.1 hb
        rw [hrest] at hopens
        refine Bool.eq_false_iff.2 fun hopener => hopens ?_
        simp only [opensComment, Bool.and_eq_true, Bool.or_eq_true, beq_iff_eq] at hopener
        obtain ⟨rfl, rfl | rfl⟩ := hopener
        · exact .line rest
        · exact .block rest
      refine ⟨x :: c, r, rfl, ?_, ?_, hr⟩
      · refine ⟨fun y hy => ?_, ?_⟩
        · rcases List.mem_cons.1 hy with rfl | hy
          · exact hquote
          · exact hc.noQuote y hy
        · refine List.isChain_cons.2 ⟨fun b hb => hnext b ?_, hc.noOpener⟩
          rw [List.head?_append, hb]
          rfl
      · intro a ha b hb
        rcases c with - | ⟨y, c⟩
        · obtain rfl := Option.some.inj ha
          exact hnext b hb
        · rw [List.getLast?_cons_cons] at ha
          exact hmeet a ha b hb

/-! ### Whole gaps -/

/-- Holds of a gap and the segments that it is cut into. -/
inductive Segmented : List Char → List Segment → Prop
  | code {c : List Char} : IsPlain c → Segmented c (codeOf c)
  | lexeme {c t s : List Char} {kind : SegmentKind} {segs : List Segment} :
    IsPlain c → Parted c t →
      Lexeme kind t s → Segmented s segs →
      Segmented (c ++ (t ++ s)) (codeOf c ++ ⟨kind, t⟩ :: segs)

theorem parted_of_append {c t s : List Char} (h : Parted c (t ++ s)) : Parted c t := by
  intro a ha b hb
  refine h a ha b ?_
  rw [List.head?_append, show t.head? = some b from hb]
  rfl

/-- The reader cuts each gap into code and lexemes. -/
theorem segmented_segments (text : List Char) : Segmented text (segments text) := by
  obtain ⟨c, r, rfl, hc, hmeet, rfl | hopens⟩ := exists_plain text
  · rw [List.append_nil, segments_code hc]
    exact .code hc
  · obtain ⟨kind, t, rest, rfl, hlexeme, hread⟩ := exists_lexeme hopens
    have hlen : rest.length < (c ++ (t ++ rest)).length := by
      have := List.length_pos_iff.2 hlexeme.ne_nil
      simp only [List.length_append]
      omega
    rw [segments, segmentsFrom_plain hc hmeet, hread, List.append_nil]
    exact .lexeme hc (parted_of_append hmeet) hlexeme (segmented_segments rest)
termination_by text.length

/-! ### What holds of the segments -/

/-- Holds of segments that are of their kind: code opens nothing, what stands
word for word starts with a quote or `/*`, and a line comment starts with `//`
and has no line feed. -/
def Segment.IsProper (s : Segment) : Prop :=
  match s.kind with
  | .code => (∀ c ∈ s.text, isQuote c = false) ∧ ¬ ['/', '/'] <:+: s.text ∧
    ¬ ['/', '*'] <:+: s.text
  | .verbatim => (∃ q ∈ s.text.head?, isQuote q = true) ∨ ['/', '*'] <+: s.text
  | .lineComment => ['/', '/'] <+: s.text ∧ '\n' ∉ s.text

theorem isProper_code {c : List Char} (hc : IsPlain c) :
    (⟨.code, c⟩ : Segment).IsProper := by
  have hnone {b : Char} (hb : opensComment '/' b = true) : ¬ ['/', b] <:+: c := by
    intro hinfix
    have hpair := List.IsChain.infix hc.noOpener hinfix
    rw [hpair.rel] at hb
    cases hb
  exact ⟨hc.noQuote, hnone rfl, hnone rfl⟩

theorem Lexeme.isProper {kind : SegmentKind} {t s : List Char} (h : Lexeme kind t s) :
    (⟨kind, t⟩ : Segment).IsProper := by
  rcases h with ⟨h⟩ | ⟨h⟩ | ⟨hinner, -⟩
  · cases h with
    | @literal q body hq _ => exact .inl ⟨q, rfl, hq⟩
    | comment _ => exact .inr ⟨_, rfl⟩
  · cases h with
    | @literal q body hq _ => exact .inl ⟨q, rfl, hq⟩
    | @hanging q body hq _ => exact .inl ⟨q, rfl, hq⟩
    | comment _ => exact .inr ⟨_, rfl⟩
  · refine ⟨⟨_, rfl⟩, ?_⟩
    simpa using hinner

variable {text : List Char} {segs : List Segment}

/-- No segment is empty, and each is of its kind. -/
theorem Segmented.isProper (h : Segmented text segs) :
    ∀ s ∈ segs, s.text ≠ [] ∧ s.IsProper := by
  have hcode {c : List Char} (hc : IsPlain c) :
      ∀ s ∈ codeOf c, s.text ≠ [] ∧ s.IsProper := by
    intro s hs
    have hne : c ≠ [] := by
      rintro rfl
      cases hs
    rw [eq_of_mem_codeOf hs]
    exact ⟨hne, isProper_code hc⟩
  induction h with
  | code hc => exact hcode hc
  | lexeme hc _ hlexeme _ ih =>
    intro s hs
    rcases List.mem_append.1 hs with hs | hs
    · exact hcode hc s hs
    · rcases List.mem_cons.1 hs with rfl | hs
      · exact ⟨hlexeme.ne_nil, hlexeme.isProper⟩
      · exact ih s hs

/-- No two segments of code adjoin. -/
theorem Segmented.isChain (h : Segmented text segs) :
    segs.IsChain fun a b => ¬ (a.kind = .code ∧ b.kind = .code) := by
  have hcode (c : List Char) : codeOf c = [] ∨ codeOf c = [⟨.code, c⟩] := by
    by_cases hc : c = []
    · exact .inl (by rw [hc, codeOf_nil])
    · exact .inr (codeOf_of_ne_nil hc)
  induction h with
  | @code c _ =>
    rcases hcode c with h | h <;> rw [h]
    · exact .nil
    · exact .singleton _
  | @lexeme c t s kind segs _ _ hlexeme _ ih =>
    have hbehind : (⟨kind, t⟩ :: segs : List Segment).IsChain
        fun a b => ¬ (a.kind = .code ∧ b.kind = .code) :=
      List.isChain_cons.2 ⟨fun b _ hboth => hlexeme.kind_ne_code hboth.1, ih⟩
    rcases hcode c with h | h <;> rw [h]
    · exact hbehind
    · refine List.isChain_cons.2 ⟨fun b hb hboth => ?_, hbehind⟩
      obtain rfl := Option.some.inj hb
      exact hlexeme.kind_ne_code hboth.2

theorem Segmented.eq_nil (h : Segmented text segs) (htext : text = []) : segs = [] := by
  cases h with
  | code _ => rw [htext, codeOf_nil]
  | lexeme _ _ hlexeme _ =>
    rw [List.append_eq_nil_iff, List.append_eq_nil_iff] at htext
    exact absurd htext.2.1 hlexeme.ne_nil

/-- Only the last segment may be a literal or a block comment that is cut
off. -/
theorem Segmented.isClosed (h : Segmented text segs) :
    ∀ s ∈ segs.dropLast, s.kind = .verbatim → IsClosed s.text := by
  induction h with
  | @code c _ =>
    intro s hs hkind
    rw [eq_of_mem_codeOf (List.dropLast_subset _ hs)] at hkind
    cases hkind
  | @lexeme c t s kind segs _ _ hlexeme hs ih =>
    intro u hu hkind
    rw [List.dropLast_append_of_ne_nil (List.cons_ne_nil _ _)] at hu
    rcases List.mem_append.1 hu with hu | hu
    · rw [eq_of_mem_codeOf hu] at hkind
      cases hkind
    · rcases segs with - | ⟨next, segs⟩
      · cases hu
      · rw [List.dropLast_cons_cons] at hu
        rcases List.mem_cons.1 hu with rfl | hu
        · -- something follows, so the lexeme is closed
          rcases hlexeme with ⟨hclosed⟩ | - | _
          · exact hclosed
          · cases hs.eq_nil rfl
          · cases hkind
        · exact ih u hu hkind

end AnimLint.Gap
