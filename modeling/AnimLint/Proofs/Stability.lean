/-
AnimLint/Proofs/Stability.lean

Joining lines twice.  In a gap without line comments, joining lines changes the
code only, and what it makes of code is plain and tidy.  So the one-line form of
the gap is read as the same row of stretches, with tidy code between them, and
joining its lines again changes nothing (`legible_compactGap`).

One thing may go wrong.  Line breaks are taken out of each stretch of code for
itself, and between a slash at the end of one and the block comment behind it no
space is left (`slashMeets`): the two read as the start of a line comment then
(`hasLineComment_compactGap`).  Hence the one-line form of a zone is steady
exactly if this happens in none of its gaps (`steady_iff_slashMeets`).
-/
import Mathlib.Data.List.DropRight
import AnimLint.Proofs.TidyCode

namespace AnimLint

open Text Gap Script

/-! ### Where a slash meets a comment -/

/-- Holds of code that shows a slash last, where line breaks do not count, and
of text behind it that begins with one. -/
def slashBefore (c s : List Char) : Bool := lastShown c == some '/' && s.head? == some '/'

/-- Holds if somewhere code shows a slash last and a comment follows it. -/
def slashMeets : List Segment → Bool
  | s :: t :: l => (s.kind == .code && slashBefore s.text t.text) || slashMeets (t :: l)
  | _ => false

@[simp] theorem slashMeets_nil : slashMeets [] = false := rfl

theorem slashMeets_verbatim (text : List Char) (l : List Segment) :
    slashMeets (⟨.verbatim, text⟩ :: l) = slashMeets l := by
  cases l <;> rfl

theorem slashMeets_codeOf (c : List Char) (t : Segment) (l : List Segment) :
    slashMeets (codeOf c ++ t :: l) = (slashBefore c t.text || slashMeets (t :: l)) := by
  by_cases hc : c = []
  · subst hc
    rfl
  · rw [codeOf_of_ne_nil hc]
    rfl

theorem slashMeets_code (c : List Char) : slashMeets (codeOf c) = false := by
  by_cases hc : c = []
  · subst hc
    rfl
  · rw [codeOf_of_ne_nil hc]
    rfl

/-- Tidied code is parted from a comment behind it unless it shows a slash
last. -/
theorem parted_tidy {o : List Char} {mode : Mode} (ho : Opener o mode)
    {c body : List Char}
    (h : slashBefore c (o ++ body) = false) : Parted (tidy c) o := by
  intro a ha b hb
  rw [← Bool.not_eq_true]
  intro hopens
  simp only [opensComment, Bool.and_eq_true, beq_iff_eq] at hopens
  have hshown : lastShown c = some '/' := by
    rw [← getLast?_tidy rfl, ← hopens.1]
    exact ha
  have hslash : (o ++ body).head? = some '/' := by
    cases ho with
    | @quote q hq =>
      obtain rfl : q = b := Option.some.inj hb
      rcases isQuote_cases hq with rfl | rfl | rfl <;> simp at hopens
    | comment => rfl
  simp [slashBefore, hshown, hslash] at h

/-! ### The one-line form of a row of stretches -/

theorem compact_codeOf (c : List Char) : (codeOf c).flatMap Segment.compact = tidy c := by
  by_cases hc : c = []
  · subst hc
    rfl
  · rw [codeOf_of_ne_nil hc]
    exact List.append_nil _

theorem compactGap_code {c : List Char} (hc : IsPlain c) : compactGap c = tidy c := by
  rw [compactGap, segments_code hc, compact_codeOf]

theorem compactGap_unclosed {c o body : List Char} {mode : Mode} (hc : IsPlain c)
    (ho : Opener o mode) (hmeet : Parted c o) (hbody : RunsOn mode body) :
    compactGap (c ++ (o ++ body)) = tidy c ++ (o ++ body) := by
  rw [compactGap, segments_unclosed hc ho hmeet hbody, List.flatMap_append,
    compact_codeOf]
  exact congrArg _ (List.append_nil _)

theorem compactGap_closed {c o body : List Char} {mode : Mode} (hc : IsPlain c)
    (ho : Opener o mode)
    (hmeet : Parted c o) (hbody : Closes mode body) (s : List Char) :
    compactGap (c ++ (o ++ (body ++ s))) = tidy c ++ (o ++ (body ++ compactGap s)) := by
  rw [compactGap, segments_closed hc ho hmeet hbody, List.flatMap_append, compact_codeOf,
    List.flatMap_cons]
  exact congrArg _ (List.append_assoc _ _ _)

/-- The literals and comments of a gap, in order. -/
def wordForWord (g : List Char) : List Segment := (segments g).filter (·.kind != .code)

theorem filter_codeOf (c : List Char) : (codeOf c).filter (·.kind != .code) = [] := by
  rw [List.filter_eq_nil_iff]
  intro s hs
  rw [eq_of_mem_codeOf hs]
  exact Bool.false_ne_true

theorem wordForWord_code {c : List Char} (hc : IsPlain c) : wordForWord c = [] := by
  rw [wordForWord, segments_code hc, filter_codeOf]

theorem wordForWord_unclosed {c o body : List Char} {mode : Mode} (hc : IsPlain c)
    (ho : Opener o mode) (hmeet : Parted c o) (hbody : RunsOn mode body) :
    wordForWord (c ++ (o ++ body)) = [⟨.verbatim, o ++ body⟩] := by
  rw [wordForWord, segments_unclosed hc ho hmeet hbody, List.filter_append, filter_codeOf]
  rfl

theorem wordForWord_closed {c o body : List Char} {mode : Mode} (hc : IsPlain c)
    (ho : Opener o mode)
    (hmeet : Parted c o) (hbody : Closes mode body) (s : List Char) :
    wordForWord (c ++ (o ++ (body ++ s))) = ⟨.verbatim, o ++ body⟩ :: wordForWord s := by
  rw [wordForWord, segments_closed hc ho hmeet hbody, List.filter_append, filter_codeOf]
  rfl

/-- The one-line form of a gap is read as the same literals and comments with
tidy code between them, if no slash meets a comment. -/
theorem legible_compactGap {g : List Char} (h : Legible IsPlain g)
    (hmeets : slashMeets (segments g) = false) :
    Legible IsTidy (compactGap g) ∧ wordForWord (compactGap g) = wordForWord g := by
  induction h with
  | code hc =>
    have htidy := isTidy_tidy hc
    rw [compactGap_code hc, wordForWord_code hc, wordForWord_code htidy.plain]
    exact ⟨.code htidy, rfl⟩
  | unclosed hc ho hmeet hbody =>
    have htidy := isTidy_tidy hc
    rw [segments_unclosed hc ho hmeet hbody, slashMeets_codeOf,
      Bool.or_eq_false_iff] at hmeets
    have hparted := parted_tidy ho hmeets.1
    rw [compactGap_unclosed hc ho hmeet hbody, wordForWord_unclosed hc ho hmeet hbody,
      wordForWord_unclosed htidy.plain ho hparted hbody]
    exact ⟨.unclosed htidy ho hparted hbody, rfl⟩
  | closed hc ho hmeet hbody _ ih =>
    have htidy := isTidy_tidy hc
    rw [segments_closed hc ho hmeet hbody, slashMeets_codeOf, slashMeets_verbatim,
      Bool.or_eq_false_iff] at hmeets
    have hparted := parted_tidy ho hmeets.1
    obtain ⟨hrest, hwords⟩ := ih hmeets.2
    rw [compactGap_closed hc ho hmeet hbody, wordForWord_closed hc ho hmeet hbody,
      wordForWord_closed htidy.plain ho hparted hbody, hwords]
    exact ⟨.closed htidy ho hparted hbody hrest, rfl⟩

/-! ### A slash that meets a comment -/

/-- Two slashes behind plain code start a line comment. -/
theorem hasLineComment_slashes {c : List Char} (hc : IsPlain c)
    (hlast : c.getLast? = some '/')
    (s : List Char) : hasLineComment (c ++ '/' :: s) = true := by
  obtain ⟨d, rfl⟩ := List.getLast?_eq_some_iff.1 hlast
  obtain ⟨hd, -, hmeet⟩ := isPlain_append.1 hc
  have hopens : Parted d ('/' :: '/' :: s) := hmeet
  rw [List.append_assoc, List.singleton_append, hasLineComment, segments,
    segmentsFrom_plain hd hopens, lineComment_segmentsFrom_code _ []]
  exact hasLineComment_doubleSlash s

theorem hasLineComment_tidy {c o body : List Char} {mode : Mode} (hc : IsPlain c)
    (ho : Opener o mode) (h : slashBefore c (o ++ body) = true) (s : List Char) :
    hasLineComment (tidy c ++ (o ++ s)) = true := by
  simp only [slashBefore, Bool.and_eq_true, beq_iff_eq] at h
  obtain ⟨hshown, hslash⟩ := h
  obtain ⟨a, rest, rfl, -⟩ := ho.exists_head
  obtain rfl := Option.some.inj hslash
  exact hasLineComment_slashes (isTidy_tidy hc).plain ((getLast?_tidy rfl c).2 hshown) _

/-- Where a slash meets a comment, the one-line form of the gap has a line
comment. -/
theorem hasLineComment_compactGap {g : List Char} (h : Legible IsPlain g)
    (hmeets : slashMeets (segments g) = true) : hasLineComment (compactGap g) = true := by
  induction h with
  | code hc =>
    rw [segments_code hc, slashMeets_code] at hmeets
    cases hmeets
  | unclosed hc ho hmeet hbody =>
    rw [segments_unclosed hc ho hmeet hbody, slashMeets_codeOf, slashMeets_verbatim,
      slashMeets_nil, Bool.or_false] at hmeets
    rw [compactGap_unclosed hc ho hmeet hbody]
    exact hasLineComment_tidy hc ho hmeets _
  | @closed c o body s mode hc ho hmeet hbody _ ih =>
    rw [segments_closed hc ho hmeet hbody, slashMeets_codeOf, slashMeets_verbatim]
      at hmeets
    rw [compactGap_closed hc ho hmeet hbody]
    -- it happens at the first stretch, or else the first stretch is read as
    -- before
    rcases hfirst : slashBefore c (o ++ body) with - | -
    · have hrest : slashMeets (segments s) = true := by
        rw [hfirst, Bool.false_or] at hmeets
        exact hmeets
      rw [hasLineComment,
        segments_closed (isTidy_tidy hc).plain ho (parted_tidy ho hfirst) hbody,
        List.any_append, List.any_cons, show List.any _ _ = true from ih hrest,
        Bool.or_true, Bool.or_true]
    · exact hasLineComment_tidy hc ho hfirst _

/-! ### Steady gaps -/

/-- The code of a row of stretches is as the row says, and all else is read word
for word. -/
theorem Legible.segment {g : List Char} (h : Legible IsTidy g) {s : Segment}
    (hs : s ∈ segments g) :
    (s.kind = .code ∧ IsTidy s.text) ∨ s.kind = .verbatim := by
  induction h with
  | code hc =>
    rw [segments_code hc.plain] at hs
    rw [eq_of_mem_codeOf hs]
    exact .inl ⟨rfl, hc⟩
  | unclosed hc ho hmeet hbody =>
    rw [segments_unclosed hc.plain ho hmeet hbody] at hs
    rcases List.mem_append.1 hs with hs | hs
    · rw [eq_of_mem_codeOf hs]
      exact .inl ⟨rfl, hc⟩
    · rw [List.mem_singleton.1 hs]
      exact .inr rfl
  | closed hc ho hmeet hbody _ ih =>
    rw [segments_closed hc.plain ho hmeet hbody] at hs
    rcases List.mem_append.1 hs with hs | hs
    · rw [eq_of_mem_codeOf hs]
      exact .inl ⟨rfl, hc⟩
    · rcases List.mem_cons.1 hs with rfl | hs
      · exact .inr rfl
      · exact ih hs

/-- Holds of a gap on one line: neither a line break nor a line comment is
noticed in it, and joining its lines changes nothing. -/
structure IsSteady (g : List Char) : Prop where
  noBreak : hasLineBreak g = false
  noComment : hasLineComment g = false
  same : compactGap g = g

theorem Legible.isSteady {g : List Char} (h : Legible IsTidy g) : IsSteady g where
  noBreak := by
    rw [hasLineBreak, List.any_eq_false]
    intro s hs hbreak
    simp only [Bool.and_eq_true, beq_iff_eq, List.any_eq_true] at hbreak
    obtain ⟨hkind, x, hx, hbreak⟩ := hbreak
    rcases h.segment hs with ⟨-, htidy⟩ | hverbatim
    · rw [htidy.noBreak hx] at hbreak
      cases hbreak
    · rw [hkind] at hverbatim
      cases hverbatim
  noComment := by
    rw [hasLineComment, List.any_eq_false]
    intro s hs hline
    rw [beq_iff_eq] at hline
    rcases h.segment hs with ⟨hkind, -⟩ | hkind <;> rw [hline] at hkind <;> cases hkind
  same := by
    have hsame : ∀ s ∈ segments g, s.compact = s.text := by
      intro s hs
      obtain ⟨kind, text⟩ := s
      rcases h.segment hs with ⟨rfl, htidy⟩ | rfl
      · exact tidy_of_isTidy htidy
      · rfl
    calc
      compactGap g = (segments g).flatMap Segment.text := List.flatMap_congr hsame
      _ = g := text_segments g

/-! ### Blanks at the ends -/

theorem trimStart_append_opener {o : List Char} {mode : Mode} (ho : Opener o mode)
    (c s : List Char) :
    trimStart (c ++ (o ++ s)) = trimStart c ++ (o ++ s) := by
  obtain ⟨a, rest, rfl, ha⟩ := ho.exists_head
  have hfront : (a :: rest ++ s).dropWhile isBlank = a :: rest ++ s :=
    List.dropWhile_cons_of_neg (by simp [ha])
  rw [trimStart, trimStart, List.dropWhile_append, hfront]
  split
  · next hnil => rw [List.isEmpty_iff.1 hnil, List.nil_append]
  · rfl

/-- Blanks at the front of a row of stretches are code. -/
theorem Legible.trimStart {g : List Char} (h : Legible IsTidy g) :
    Legible IsTidy (trimStart g) := by
  have hsuffix (c : List Char) : Text.trimStart c <:+ c := List.dropWhile_suffix _
  cases h with
  | code hc => exact .code (hc.part (hsuffix g).isInfix)
  | @unclosed c o body mode hc ho hmeet hbody =>
    rw [trimStart_append_opener ho]
    exact .unclosed (hc.part (hsuffix c).isInfix) ho (hmeet.suffix (hsuffix c)) hbody
  | @closed c o body s mode hc ho hmeet hbody hs =>
    rw [trimStart_append_opener ho]
    exact .closed (hc.part (hsuffix c).isInfix) ho (hmeet.suffix (hsuffix c)) hbody hs

theorem isPrefix_trimEnd (s : List Char) : trimEnd s <+: s := by
  induction s with
  | nil => exact List.prefix_refl _
  | cons c r ih =>
    rcases trimEnd_cons c r with h | ⟨-, -, h⟩
    · rw [h]
      exact (List.prefix_cons_inj c).2 ih
    · rw [h]
      exact List.nil_prefix

/-- Blanks behind a character that is none are dropped without it. -/
theorem trimEnd_append_last {s : List Char}
    (hs : ∃ inner z, s = inner ++ [z] ∧ isBlank z = false)
    (front t : List Char) : trimEnd (front ++ (s ++ t)) = front ++ (s ++ trimEnd t) := by
  obtain ⟨inner, z, rfl, hz⟩ := hs
  have hkept := trimEnd_append_cons hz (front ++ inner) t
  simpa using hkept

/-- Blanks at the end of a row of stretches are code, or stand in what is left
open. -/
theorem Legible.trimEnd {g : List Char} (h : Legible IsTidy g) :
    Legible IsTidy (trimEnd g) := by
  induction h with
  | @code c hc => exact .code (hc.part (isPrefix_trimEnd c).isInfix)
  | @unclosed c o body mode hc ho hmeet hbody =>
    rw [trimEnd_append_last ho.exists_last]
    obtain ⟨back, hback⟩ := isPrefix_trimEnd body
    rw [← hback] at hbody
    exact .unclosed hc ho hmeet (hbody.front ho)
  | @closed c o body s mode hc ho hmeet hbody _ ih =>
    rw [← List.append_assoc c, trimEnd_append_last hbody.last, List.append_assoc]
    exact .closed hc ho hmeet hbody ih

theorem trimStart_trimStart (s : List Char) : trimStart (trimStart s) = trimStart s :=
  List.dropWhile_idempotent isBlank s

theorem trimEnd_trimEnd (s : List Char) : trimEnd (trimEnd s) = trimEnd s := by
  induction s with
  | nil => rfl
  | cons c r ih =>
    rcases h : trimEnd r with - | ⟨d, t⟩
    · by_cases hc : isBlank c = true <;> simp [trimEnd, h, hc]
    · have hkept : trimEnd (c :: r) = c :: d :: t := by simp [trimEnd, h]
      rw [h] at ih
      rw [hkept, trimEnd, ih]

/-! ### Zones -/

/-- A piece on one line. -/
def Piece.joined : Piece → Piece
  | .gap t => .gap (compactGap t)
  | .argument t => .argument t

/-- Pieces on one line, where the first gap loses the blanks it starts with. -/
def joinedLeading : List Piece → List Piece
  | .gap t :: rest => .gap (trimStart (compactGap t)) :: rest.map Piece.joined
  | pieces => pieces.map Piece.joined

/-- Pieces on one line, where the last gap loses the blanks it ends with. -/
def joinedTrailing : List Piece → List Piece
  | [] => []
  | [.gap t] => [.gap (trimEnd (compactGap t))]
  | piece :: rest => piece.joined :: joinedTrailing rest

/-- The pieces that the one-line form of a zone is made of. -/
def joinedPieces : Side → List Piece → List Piece
  | .leading => joinedLeading
  | .trailing => joinedTrailing

theorem text_joined (p : Piece) : p.joined.text = p.compact := by
  cases p <;> rfl

theorem text_map_joined (ps : List Piece) :
    (ps.map Piece.joined).flatMap Piece.text = ps.flatMap Piece.compact := by
  rw [List.flatMap_map]
  exact List.flatMap_congr fun p _ => text_joined p

/-- Pieces on one line spell the one-line form of the zone. -/
theorem text_joinedPieces (side : Side) (ps : List Piece) :
    (joinedPieces side ps).flatMap Piece.text = compactPieces side ps := by
  cases side with
  | leading =>
    rcases ps with - | ⟨t | t, rest⟩
    · rfl
    · show trimStart (compactGap t) ++ (rest.map Piece.joined).flatMap Piece.text = _
      rw [text_map_joined]
      rfl
    · exact text_map_joined (.argument t :: rest)
  | trailing =>
    show (joinedTrailing ps).flatMap Piece.text = compactTrailing ps
    fun_induction joinedTrailing ps with
    | case1 => rfl
    | case2 t => exact List.append_nil _
    | case3 p rest hlast ih =>
      rw [List.flatMap_cons, text_joined, ih, compactTrailing]
      exact hlast

theorem joinedTrailing_cons {p : Piece} {rest : List Piece}
    (h : ∀ t, p = .gap t → rest = [] → False) :
    joinedTrailing (p :: rest) = p.joined :: joinedTrailing rest := by
  rw [joinedTrailing]
  exact h

theorem joinedTrailing_eq_nil {ps : List Piece} : joinedTrailing ps = [] ↔ ps = [] := by
  constructor
  · intro h
    unfold joinedTrailing at h
    split at h
    · rfl
    · cases h
    · cases h
  · rintro rfl
    rfl

/-- Each gap on one line is the one-line form of a gap, with or without the
blanks at one end. -/
theorem gap_of_mem_joinedPieces {side : Side} {ps : List Piece} {t : List Char}
    (h : .gap t ∈ joinedPieces side ps) : ∃ g, .gap g ∈ ps ∧
      (t = compactGap g ∨ t = trimStart (compactGap g) ∨ t = trimEnd (compactGap g)) := by
  have hmap (qs : List Piece) (h : .gap t ∈ qs.map Piece.joined) :
      ∃ g, .gap g ∈ qs ∧ t = compactGap g := by
    obtain ⟨p, hp, hjoined⟩ := List.mem_map.1 h
    cases p with
    | gap g => exact ⟨g, hp, (Piece.gap.inj hjoined).symm⟩
    | argument g => cases hjoined
  cases side with
  | leading =>
    rcases ps with - | ⟨g | a, rest⟩
    · cases h
    · rcases List.mem_cons.1 h with h | h
      · exact ⟨g, List.mem_cons_self, .inr (.inl (Piece.gap.inj h))⟩
      · obtain ⟨g', hg', ht⟩ := hmap rest h
        exact ⟨g', List.mem_cons_of_mem _ hg', .inl ht⟩
    · obtain ⟨g, hg, ht⟩ := hmap (.argument a :: rest) h
      exact ⟨g, hg, .inl ht⟩
  | trailing =>
    replace h : .gap t ∈ joinedTrailing ps := h
    fun_induction joinedTrailing ps with
    | case1 => cases h
    | case2 g =>
      exact ⟨g, List.mem_cons_self, .inr (.inr (Piece.gap.inj (List.mem_singleton.1 h)))⟩
    | case3 p rest _ ih =>
      rcases List.mem_cons.1 h with h | h
      · cases p with
        | gap g => exact ⟨g, List.mem_cons_self, .inl (Piece.gap.inj h)⟩
        | argument g => cases h
      · obtain ⟨g, hg, ht⟩ := ih h
        exact ⟨g, List.mem_cons_of_mem _ hg, ht⟩

/-! ### Zones that are joined twice -/

/-- Holds of pieces whose gaps become rows of stretches with tidy code. -/
def TidyGaps (ps : List Piece) : Prop := ∀ g, .gap g ∈ ps → Legible IsTidy (compactGap g)

theorem TidyGaps.tail {p : Piece} {rest : List Piece} (h : TidyGaps (p :: rest)) :
    TidyGaps rest :=
  fun g hg => h g (.tail p hg)

theorem joined_joined {p : Piece} {rest : List Piece} (h : TidyGaps (p :: rest)) :
    p.joined.joined = p.joined := by
  cases p with
  | gap g => exact congrArg Piece.gap (h g List.mem_cons_self).isSteady.same
  | argument a => rfl

theorem map_joined_joined {ps : List Piece} (h : TidyGaps ps) :
    (ps.map Piece.joined).map Piece.joined = ps.map Piece.joined := by
  induction ps with
  | nil => rfl
  | cons p rest ih => rw [List.map_cons, List.map_cons, joined_joined h, ih h.tail]

theorem joinedLeading_joinedLeading {ps : List Piece} (h : TidyGaps ps) :
    joinedLeading (joinedLeading ps) = joinedLeading ps := by
  rcases ps with - | ⟨g | a, rest⟩
  · rfl
  · have hgap := (h g List.mem_cons_self).trimStart.isSteady.same
    show Piece.gap (trimStart (compactGap (trimStart (compactGap g)))) :: _ = _
    rw [hgap, trimStart_trimStart, map_joined_joined h.tail]
    rfl
  · exact map_joined_joined h

theorem joinedTrailing_joinedTrailing {ps : List Piece} (h : TidyGaps ps) :
    joinedTrailing (joinedTrailing ps) = joinedTrailing ps := by
  fun_induction joinedTrailing ps with
  | case1 => rfl
  | case2 g =>
    have hgap := (h g List.mem_cons_self).trimEnd.isSteady.same
    show [Piece.gap (trimEnd (compactGap (trimEnd (compactGap g))))] = _
    rw [hgap, trimEnd_trimEnd]
  | case3 p rest hlast ih =>
    -- a piece that is not the last one is not the last one afterwards either
    have hlast' : ∀ t, p.joined = .gap t → joinedTrailing rest = [] → False := by
      intro t hp hnil
      cases p with
      | gap g => exact hlast g rfl (joinedTrailing_eq_nil.1 hnil)
      | argument a => cases hp
    rw [joinedTrailing_cons hlast', joined_joined h, ih h.tail]

/-- Joining the lines of pieces on one line changes none of them. -/
theorem joinedPieces_joinedPieces (side : Side) {ps : List Piece} (h : TidyGaps ps) :
    joinedPieces side (joinedPieces side ps) = joinedPieces side ps := by
  cases side with
  | leading => exact joinedLeading_joinedLeading h
  | trailing => exact joinedTrailing_joinedTrailing h

/-- Holds of the one-line form of a zone on which joining lines has no more to
do: no line break and no line comment is noticed in its gaps, their literals and
comments are those of the zone, and joining its lines again changes nothing. -/
structure IsSteadyZone (side : Side) (ps : List Piece) : Prop where
  noBreak : piecesBreak (joinedPieces side ps) = false
  noComment : piecesComment (joinedPieces side ps) = false
  words : ∀ g, .gap g ∈ ps → wordForWord (compactGap g) = wordForWord g
  same : joinedPieces side (joinedPieces side ps) = joinedPieces side ps
  sameText : compactPieces side (joinedPieces side ps) = compactPieces side ps

/-- Whether no gap has a property is asked gap by gap. -/
theorem any_gap_eq_false (f : List Char → Bool) {ps : List Piece} :
    (ps.any fun
      | .gap t => f t
      | .argument _ => false) = false ↔ ∀ g, .gap g ∈ ps → f g = false := by
  rw [List.any_eq_false]
  constructor
  · intro h g hg
    exact Bool.eq_false_iff.2 (h (.gap g) hg)
  · rintro h (g | a) hp
    · exact Bool.eq_false_iff.1 (h g hp)
    · exact Bool.false_ne_true

theorem piecesComment_eq_false {ps : List Piece} :
    piecesComment ps = false ↔ ∀ g, .gap g ∈ ps → hasLineComment g = false :=
  any_gap_eq_false hasLineComment

theorem piecesBreak_eq_false {ps : List Piece} :
    piecesBreak ps = false ↔ ∀ g, .gap g ∈ ps → hasLineBreak g = false :=
  any_gap_eq_false hasLineBreak

/-- A zone whose gaps become tidy is steady on one line. -/
theorem isSteadyZone_of_slashMeets (side : Side) {ps : List Piece}
    (h : piecesComment ps = false)
    (hmeets : ∀ g, .gap g ∈ ps → slashMeets (segments g) = false) :
    IsSteadyZone side ps := by
  have hgap : ∀ g, .gap g ∈ ps →
      Legible IsTidy (compactGap g) ∧ wordForWord (compactGap g) = wordForWord g := by
    intro g hg
    exact legible_compactGap
      (legible_of_hasLineComment (piecesComment_eq_false.1 h g hg)) (hmeets g hg)
  have hsteady : ∀ t, .gap t ∈ joinedPieces side ps → IsSteady t := by
    intro t ht
    obtain ⟨g, hg, rfl | rfl | rfl⟩ := gap_of_mem_joinedPieces ht
    · exact (hgap g hg).1.isSteady
    · exact (hgap g hg).1.trimStart.isSteady
    · exact (hgap g hg).1.trimEnd.isSteady
  have hsame := joinedPieces_joinedPieces side fun g hg => (hgap g hg).1
  refine ⟨?_, ?_, fun g hg => (hgap g hg).2, hsame, ?_⟩
  · exact piecesBreak_eq_false.2 fun t ht => (hsteady t ht).noBreak
  · exact piecesComment_eq_false.2 fun t ht => (hsteady t ht).noComment
  · rw [← text_joinedPieces, ← text_joinedPieces, hsame]

/-- Where a slash meets a comment, the literals and comments do not stay what
they are. -/
theorem wordForWord_compactGap_ne {g : List Char} (h : hasLineComment g = false)
    (hmeets : slashMeets (segments g) = true) :
    wordForWord (compactGap g) ≠ wordForWord g := by
  intro hwords
  have hline := hasLineComment_compactGap (legible_of_hasLineComment h) hmeets
  obtain ⟨s, hs, hkind⟩ := List.any_eq_true.1 hline
  have hword : s ∈ wordForWord (compactGap g) := by
    refine List.mem_filter.2 ⟨hs, ?_⟩
    rw [beq_iff_eq] at hkind
    rw [hkind]
    rfl
  rw [hwords] at hword
  have hnone := List.any_eq_false.1 h s (List.mem_filter.1 hword).1
  exact hnone hkind

/-- The one-line form of a zone without line comments is steady exactly if in
none of its gaps code that shows a slash last meets a comment. -/
theorem steady_iff_slashMeets (side : Side) {ps : List Piece}
    (h : piecesComment ps = false) :
    (joinedPieces side ps).flatMap Piece.text = compactPieces side ps ∧
      (IsSteadyZone side ps ↔ ∀ g, .gap g ∈ ps → slashMeets (segments g) = false) := by
  refine ⟨text_joinedPieces side ps,
    fun hsteady g hg => ?_, isSteadyZone_of_slashMeets side h⟩
  rcases hmeets : slashMeets (segments g) with - | -
  · rfl
  · exact absurd (hsteady.words g hg)
      (wordForWord_compactGap_ne (piecesComment_eq_false.1 h g hg) hmeets)

/-- A slash that meets no comment, a quote in a comment and a literal that is
left open do no harm. -/
theorem steady_iff_slashMeets_unclosed :
    piecesComment [.gap "\n/* ' */ /\n+\n+".toList, .argument "a\n".toList,
      .gap "\t'b\\' // \n".toList] =
        false ∧
      IsSteadyZone .trailing
        [.gap "\n/* ' */ /\n+\n+".toList, .argument "a\n".toList,
          .gap "\t'b\\' // \n".toList] := by
  have hcomment : piecesComment [.gap "\n/* ' */ /\n+\n+".toList, .argument "a\n".toList,
      .gap "\t'b\\' // \n".toList] = false := by decide +kernel
  refine ⟨hcomment, (steady_iff_slashMeets .trailing hcomment).2.2 fun g hg => ?_⟩
  simp only [List.mem_cons, Piece.gap.injEq, reduceCtorEq, List.not_mem_nil,
    or_false, false_or] at hg
  rcases hg with rfl | rfl <;> decide +kernel

/-- A slash, a line break and a block comment become a line comment. -/
theorem unsteady_slash_block :
    ¬ ∀ (side : Side) (ps : List Piece), piecesComment ps = false →
      IsSteadyZone side ps := by
  intro h
  have hnone := (h .leading [.gap "/\n/* a */".toList] (by decide +kernel)).noComment
  have hline :
      piecesComment (joinedPieces .leading [.gap "/\n/* a */".toList]) = true := by
    decide +kernel
  rw [hline] at hnone
  cases hnone

end AnimLint
