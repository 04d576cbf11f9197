/-
AnimLint/Proofs/ReturnedCalls.lean

Calls in a text whose lines end in a carriage return and a line feed.  Each byte
offset of the text without returns has a place in the text with returns
(`Text.returnedPlace`), later by the line feeds in front of it, and places keep
their order.  So the text with returns carries the text without
(`Text.carries_withReturns`): a call whose ranges are taken to their places has
the zones it had, with returns in their pieces (`zones_inReturns`), and the
edits do to the one text what they do to the other (`splice_inReturns`).

With what `LineEndings` has of pieces, the rule is the same for both ends of
lines (`lineEndings_invariant`).
-/
import AnimLint.Proofs.Containment
import AnimLint.Proofs.LineEndings
import AnimLint.Proofs.Relocation

namespace AnimLint

open Text

/-! ### Places -/

namespace Text

/-- The number of line feeds in front of a byte offset. -/
def feedsBefore : List Char → Nat → Nat
  | _, 0 => 0
  | [], _ + 1 => 0
  | c :: r, n + 1 => (if c = '\n' then 1 else 0) + feedsBefore r (n + 1 - c.utf8Size)

/-- Where a byte offset of a text lies in the text with returns. -/
def returnedPlace (s : List Char) (n : Nat) : Nat := n + feedsBefore s n

@[simp] theorem feedsBefore_zero (s : List Char) : feedsBefore s 0 = 0 := by
  rw [feedsBefore]

@[simp] theorem returnedPlace_zero (s : List Char) : returnedPlace s 0 = 0 := by
  rw [returnedPlace, feedsBefore_zero]

theorem feedsBefore_mono (s : List Char) {m n : Nat} (h : m ≤ n) :
    feedsBefore s m ≤ feedsBefore s n := by
  induction s generalizing m n with
  | nil => cases m <;> simp [feedsBefore]
  | cons c s ih =>
    rcases m with - | m
    · simp
    · obtain ⟨k, rfl⟩ : ∃ k, n = k + 1 := ⟨n - 1, by omega⟩
      exact Nat.add_le_add_left (ih (Nat.sub_le_sub_right h _)) _

theorem returnedPlace_lt (s : List Char) (m n : Nat) :
    returnedPlace s m < returnedPlace s n ↔ m < n := by
  rw [returnedPlace, returnedPlace]
  rcases Nat.lt_or_ge m n with h | h
  · have := feedsBefore_mono s (Nat.le_of_lt h)
    omega
  · have := feedsBefore_mono s h
    omega

theorem returnedPlace_le (s : List Char) (m n : Nat) :
    returnedPlace s m ≤ returnedPlace s n ↔ m ≤ n := by
  rw [← Nat.not_lt, ← Nat.not_lt, returnedPlace_lt]

/-- Behind the first character. -/
theorem returnedPlace_cons (c : Char) (s : List Char) (n : Nat) :
    returnedPlace (c :: s) (c.utf8Size + n) =
      byteLength (withReturns [c]) + returnedPlace s n := by
  have hc := c.utf8Size_pos
  obtain ⟨k, hk⟩ : ∃ k, c.utf8Size + n = k + 1 := ⟨c.utf8Size + n - 1, by omega⟩
  have hsub : k + 1 - c.utf8Size = n := by omega
  rw [returnedPlace, returnedPlace, hk, feedsBefore, hsub, ← hk]
  by_cases hfeed : c = '\n'
  · subst hfeed
    show 1 + n + (1 + feedsBefore s n) = 2 + (n + feedsBefore s n)
    omega
  · rw [if_neg hfeed, withReturns_cons hfeed]
    simp only [withReturns_nil, byteLength_cons, byteLength_nil]
    omega

/-- Behind a first part of a text. -/
theorem returnedPlace_append (s t : List Char) (n : Nat) :
    returnedPlace (s ++ t) (byteLength s + n) =
      byteLength (withReturns s) + returnedPlace t n := by
  induction s with
  | nil => simp
  | cons c s ih =>
    have hparts : withReturns (c :: s) = withReturns [c] ++ withReturns s :=
      withReturns_append [c] s
    rw [hparts, List.cons_append, byteLength_cons, Nat.add_assoc, returnedPlace_cons, ih,
      byteLength_append, Nat.add_assoc]

theorem returnedPlace_byteLength (s t : List Char) :
    returnedPlace (s ++ t) (byteLength s) = byteLength (withReturns s) := by
  have h := returnedPlace_append s t 0
  rw [returnedPlace_zero] at h
  exact h

/-- A text with returns is cut at the place at which the text is cut. -/
theorem splitAt_withReturns (s : List Char) (n : Nat) :
    splitAt? (returnedPlace s n) (withReturns s) =
      (splitAt? n s).map fun cut => (withReturns cut.1, withReturns cut.2) := by
  induction s generalizing n with
  | nil => cases n <;> rfl
  | cons c s ih =>
    rcases n with - | n
    · simp
    · have hparts : withReturns (c :: s) = withReturns [c] ++ withReturns s :=
        withReturns_append [c] s
      rw [splitAt?]
      split
      · next hle =>
        obtain ⟨k, hk⟩ : ∃ k, n + 1 = c.utf8Size + k := ⟨n + 1 - c.utf8Size, by omega⟩
        have hsub : n + 1 - c.utf8Size = k := by omega
        rw [hsub, hk, returnedPlace_cons, hparts, splitAt?_append_add, ih,
          Option.map_map, Option.map_map]
        refine congrArg (Option.map · _) (funext fun cut => ?_)
        simp only [Function.comp_apply, ← withReturns_append, List.singleton_append]
      · next hle =>
        -- the offset lies inside a character, which is no line feed
        have hc : c ≠ '\n' := by
          rintro rfl
          exact hle (Nat.succ_le_succ (Nat.zero_le n))
        have hsub : n + 1 - c.utf8Size = 0 := by omega
        have hplace : returnedPlace (c :: s) (n + 1) = n + 1 := by
          rw [returnedPlace, feedsBefore, hsub, if_neg hc, feedsBefore_zero]
        rw [hplace, withReturns_cons hc, splitAt?, if_neg hle]
        rfl

/-- A span of a text in the text with returns. -/
def Span.inReturns (s : List Char) (span : Span) : Span :=
  span.placed (returnedPlace s)

theorem slice_withReturns (s : List Char) (a b : Nat) :
    slice? (withReturns s) ⟨returnedPlace s a, returnedPlace s b⟩ =
      (slice? s ⟨a, b⟩).map withReturns := by
  unfold slice?
  simp only [returnedPlace_le]
  split
  · next hle =>
    rw [splitAt_withReturns]
    rcases hcut : splitAt? a s with - | ⟨before, rest⟩
    · rfl
    · obtain ⟨rfl, hbefore⟩ := append_of_splitAt? hcut
      obtain ⟨k, hk⟩ : ∃ k, b = a + k := ⟨b - a, by omega⟩
      have hstart : returnedPlace (before ++ rest) a =
          byteLength (withReturns before) := by
        rw [← hbefore, returnedPlace_byteLength]
      have hstop : returnedPlace (before ++ rest) b =
          byteLength (withReturns before) + returnedPlace rest k := by
        rw [hk, ← hbefore, returnedPlace_append]
      have hsub : b - a = k := by omega
      simp only [hstart, hstop, hsub, Nat.add_sub_cancel_left, Option.map_some,
        Option.bind_eq_bind, Option.bind_some, splitAt_withReturns]
      rcases splitAt? k rest <;> rfl
  · rfl

/-- Returns leave parentheses what they are. -/
theorem mem_withReturns_singleton {p c : Char} (hp : p ∈ ['(', ')'])
    (h : p ∈ withReturns [c]) :
    c = p := by
  by_cases hc : c = '\n'
  · subst hc
    rw [withReturns_feed, withReturns_nil] at h
    simp only [List.mem_cons, List.not_mem_nil, or_false] at hp h
    rcases hp with rfl | rfl <;> rcases h with h | h <;> cases h
  · rw [withReturns_cons hc, withReturns_nil, List.mem_singleton] at h
    exact h.symm

/-- The text with returns has the slices of the text without. -/
theorem carries_withReturns (s : List Char) (limit : Nat) :
    Carries (returnedPlace s) withReturns limit s (withReturns s) where
  le_iff := returnedPlace_le s
  slice a b _ := slice_withReturns s a b
  append := withReturns_append
  paren p hp := by
    refine ⟨?_, fun c hc => mem_withReturns_singleton hp hc⟩
    simp only [List.mem_cons, List.not_mem_nil, or_false] at hp
    rcases hp with rfl | rfl <;> rfl

end Text

/-! ### Calls, zones and violations in a text with returns -/

/-- A call with its ranges taken to the text with returns. -/
def Call.inReturns (source : List Char) (call : Call) : Call :=
  call.placed (returnedPlace source)

/-- A zone with a carriage return put in front of each line feed. -/
def Zone.withReturns (zone : Zone) : Zone :=
  { zone with text := Text.withReturns zone.text, pieces :=
    zone.pieces.map Piece.withReturns }

/-- The same, where the zone also goes to its place in the text with returns. -/
def Zone.inReturns (source : List Char) (zone : Zone) : Zone :=
  zone.placed (returnedPlace source) Text.withReturns

/-- An edit of a text, for the text with returns. -/
def Edit.inReturns (source : List Char) (e : Edit) : Edit :=
  e.placed (returnedPlace source) Text.withReturns

/-- A violation in a text, for the text with returns. -/
def Violation.inReturns (source : List Char) (v : Violation) : Violation :=
  v.placed (returnedPlace source) Text.withReturns

/-- The zones of a call in a text with returns. -/
theorem zones_inReturns (s : List Char) (call : Call) :
    zones (withReturns s) (call.inReturns s) = (zones s call).map (Zone.inReturns s) :=
  (carries_withReturns s call.span.stop).zones (Nat.le_refl _)

/-! ### Violations -/

theorem Zone.compact_withReturns {zone : Zone} (h : zone.hasLineComment = false) :
    zone.withReturns.compact = Text.withReturns zone.compact :=
  compactPieces_withReturns zone.side h

theorem violation_inReturns (s : List Char) (zone : Zone) :
    (zone.inReturns s).violation? = zone.violation?.map (Violation.inReturns s) :=
  Zone.violation_placed (piecesBreak_withReturns zone.pieces)
    (piecesComment_withReturns zone.pieces) (compactPieces_withReturns zone.side)

theorem mem_withReturns {s : List Char} (h : '\n' ∈ s) : '\n' ∈ withReturns s := by
  obtain ⟨a, b, rfl⟩ := List.append_of_mem h
  rw [withReturns_append, withReturns_feed]
  simp

/-- Returns change nothing about an ending without line feeds. -/
theorem suffix_withReturns {ending : List Char} (h : '\n' ∉ ending) (s : List Char) :
    ending <:+ withReturns s ↔ ending <:+ s := by
  induction s with
  | nil => exact Iff.rfl
  | cons c s ih =>
    by_cases hc : c = '\n'
    · subst hc
      have hfeed {t : List Char} (ht : '\n' ∈ t) : ¬ ending = t := by
        rintro rfl
        exact h ht
      rw [withReturns_feed, List.suffix_cons_iff, List.suffix_cons_iff,
        List.suffix_cons_iff, ih]
      simp [hfeed]
    · have hwhole : ending = c :: withReturns s ↔ ending = c :: s := by
        constructor
        · rintro rfl
          -- no line feed is left behind `c`, so no return was put there
          rw [withReturns_of_not_mem fun hs =>
            h (List.mem_cons_of_mem c (mem_withReturns hs))]
        · rintro rfl
          rw [withReturns_of_not_mem fun hs => h (List.mem_cons_of_mem c hs)]
      rw [withReturns_cons hc, List.suffix_cons_iff, List.suffix_cons_iff, hwhole, ih]

/-- The callees to look at are the same with returns, unless an ending looks for
line feeds. -/
theorem covers_withReturns {target : Target}
    (h : ∀ ending ∈ target.keywords ++ target.excludes, '\n' ∉ ending.toList)
    (callee : List Char) :
    target.covers (withReturns callee) = target.covers callee := by
  have hany {endings : List String} (hsub : ∀ ending ∈ endings, '\n' ∉ ending.toList) :
      endings.any (Target.endsIn (withReturns (trimEnd callee))) =
        endings.any (Target.endsIn (trimEnd callee)) := by
    rw [Bool.eq_iff_iff, List.any_eq_true, List.any_eq_true]
    refine exists_congr fun ending => and_congr_right fun hmem => ?_
    rw [Target.endsIn, Target.endsIn, List.isSuffixOf_iff_suffix,
      List.isSuffixOf_iff_suffix]
    exact suffix_withReturns (hsub ending hmem) _
  simp only [Target.covers, trimEnd_withReturns]
  rw [hany fun e he => h e (List.mem_append_left _ he),
    hany fun e he => h e (List.mem_append_right _ he)]

/-- The violations of a call in a text with returns. -/
theorem violations_inReturns {target : Target}
    (h : ∀ ending ∈ target.keywords ++ target.excludes, '\n' ∉ ending.toList)
    (s : List Char) (call : Call) :
    violations target (withReturns s) (call.inReturns s) =
      (violations target s call).map (Violation.inReturns s) :=
  (carries_withReturns s (max call.span.stop call.callee.stop)).violations
    (Nat.le_max_left _ _)
    (Nat.le_max_right _ _) (covers_withReturns h) (violation_inReturns s)

/-! ### Edits -/

theorem sortBy_inReturns (s : List Char) (es : List Edit) :
    sortBy Edit.before (es.map (Edit.inReturns s)) =
      (sortBy Edit.before es).map (Edit.inReturns s) :=
  sortBy_placed withReturns (returnedPlace_le s) es

/-- How far a place moves behind the front of a text is told by the rest of the
text. -/
theorem returnedPlace_sub {s before rest : List Char}
    (hs : s = before ++ rest) (k : Nat) :
    returnedPlace s (byteLength before + k) - returnedPlace s (byteLength before) =
      returnedPlace rest k := by
  rw [hs, returnedPlace_append, returnedPlace_byteLength, Nat.add_sub_cancel_left]

/-- Edits of a text, from where the rest of it starts. -/
theorem spliceFrom_inReturns {s before rest : List Char} (hs : s = before ++ rest)
    (es : List Edit) :
    spliceFrom (returnedPlace s (byteLength before)) (withReturns rest)
      (es.map (Edit.inReturns s)) =
      { spliceFrom (byteLength before) rest es with
        output := withReturns (spliceFrom (byteLength before) rest es).output } := by
  induction es generalizing before rest with
  | nil => rfl
  | cons e es ih =>
    have hskip := ih hs
    simp only [List.map_cons, spliceFrom, Edit.inReturns, Edit.placed, Span.placed,
      returnedPlace_lt] at hskip ⊢
    split
    · rw [hskip]
    · next hfits =>
      simp only [Bool.or_eq_true, decide_eq_true_eq, not_or] at hfits
      obtain ⟨k, hk⟩ : ∃ k, e.span.start = byteLength before + k :=
        ⟨e.span.start - byteLength before, by omega⟩
      obtain ⟨m, hm⟩ : ∃ m, e.span.stop = e.span.start + m :=
        ⟨e.span.stop - e.span.start, by omega⟩
      have hkept : returnedPlace s e.span.start - returnedPlace s (byteLength before) =
          returnedPlace rest k := by
        rw [hk, returnedPlace_sub hs]
      have hkept' : e.span.start - byteLength before = k := by omega
      rw [hkept, hkept', splitAt_withReturns]
      rcases hcut : splitAt? k rest with - | ⟨kept, after⟩
      · simp only [Option.map_none, hskip]
      · obtain ⟨rfl, hkeptLength⟩ := append_of_splitAt? hcut
        have hstart : byteLength (before ++ kept) = e.span.start := by
          rw [byteLength_append, hkeptLength, hk]
        have hs' : s = before ++ kept ++ after := by rw [hs, List.append_assoc]
        have hremoved : returnedPlace s e.span.stop - returnedPlace s e.span.start =
            returnedPlace after m := by
          rw [hm, ← hstart, returnedPlace_sub hs']
        have hremoved' : e.span.stop - e.span.start = m := by omega
        simp only [Option.map_some, hremoved, hremoved', splitAt_withReturns]
        rcases hcut' : splitAt? m after with - | ⟨removed, rest'⟩
        · simp only [Option.map_none, hskip]
        · obtain ⟨rfl, hremovedLength⟩ := append_of_splitAt? hcut'
          have hstop : byteLength (before ++ kept ++ removed) = e.span.stop := by
            rw [byteLength_append, hstart, hremovedLength, hm]
          have hs'' : s = before ++ kept ++ removed ++ rest' := by simp [hs']
          have hmore := ih hs''
          rw [hstop] at hmore
          simp only [Option.map_some, hmore, withReturns_append]

/-- A batch of edits of a text with returns. -/
theorem splice_inReturns (s : List Char) (es : List Edit) :
    splice (withReturns s) (es.map (Edit.inReturns s)) =
      { splice s es with output := withReturns (splice s es).output } := by
  have hfrom := @spliceFrom_inReturns s [] s rfl (sortBy Edit.before es)
  simp only [byteLength_nil, returnedPlace_zero] at hfrom
  rw [splice, sortBy_inReturns, hfrom, splice]

/-! ### Both ends of lines -/

/-- **The rule does not ask how lines end.**  A zone with a carriage return in
front of each line feed spreads over lines if the zone does and has a line
comment if the zone has one; without line comments its one-line form is that of
the zone, with returns in front of the line feeds that are left in it.

A call in a text with returns has the zones it has without, with returns.  They
violate the rule alike, for every target whose endings hold no line feed, and
the edits that mend the one text mend the other, so that the results differ in
returns only. -/
theorem lineEndings_invariant :
    (∀ zone : Zone, zone.withReturns.spansLines = zone.spansLines ∧
      zone.withReturns.hasLineComment = zone.hasLineComment ∧
      (zone.hasLineComment = false →
        zone.withReturns.compact = Text.withReturns zone.compact)) ∧
    ∀ (source : List Char) (call : Call),
      zones (Text.withReturns source) (call.inReturns source) =
        (zones source call).map (Zone.inReturns source) ∧
      (∀ zone ∈ zones source call,
        (zone.inReturns source).violation? =
          zone.violation?.map (Violation.inReturns source)) ∧
      (∀ target : Target,
        (∀ ending ∈ target.keywords ++ target.excludes, '\n' ∉ ending.toList) →
        violations target (Text.withReturns source) (call.inReturns source) =
          (violations target source call).map (Violation.inReturns source)) ∧
      ∀ edits : List Edit,
        splice (Text.withReturns source) (edits.map (Edit.inReturns source)) =
          { splice source edits with
            output := Text.withReturns (splice source edits).output } :=
  ⟨fun zone => ⟨piecesBreak_withReturns zone.pieces,
    piecesComment_withReturns zone.pieces,
    Zone.compact_withReturns⟩,
  fun source call => ⟨zones_inReturns source call,
    fun zone _ => violation_inReturns source zone,
    fun _ htarget => violations_inReturns htarget source call, splice_inReturns source⟩⟩

/-- A call with an argument on two lines, a block comment on two lines and a
break to be joined. -/
def wrappedTween : List Char := "gsap.to(f(\n1), /* a\n */\n  \x7b\x7d)".toList

/-- The ranges of the call. -/
def wrappedCall : Call where
  span := ⟨0, 29⟩
  callee := ⟨0, 7⟩
  argsFrom := 7
  arguments := [⟨8, 13⟩, ⟨26, 28⟩]
  config := some ⟨26, 28⟩

/-- Its leading zone. -/
def wrappedZone : Zone where
  side := .leading
  span := ⟨8, 26⟩
  text := "f(\n1), /* a\n */\n  ".toList
  pieces := [.argument "f(\n1)".toList, .gap ", /* a\n */\n  ".toList]

theorem lineEndings_invariant_wrapped :
    wrappedZone ∈ zones wrappedTween wrappedCall ∧ wrappedZone.hasLineComment = false ∧
      wrappedZone.withReturns.compact = "f(\r\n1), /* a\r\n */ ".toList ∧
      (violations .default (Text.withReturns wrappedTween)
        (wrappedCall.inReturns wrappedTween)).length = 1 ∧
      (splice (Text.withReturns wrappedTween)
          [Edit.inReturns wrappedTween ⟨wrappedZone.span, wrappedZone.compact⟩]).output =
        "gsap.to(f(\r\n1), /* a\r\n */ \x7b\x7d)".toList := by
  obtain ⟨hzone, hcall⟩ := lineEndings_invariant
  obtain ⟨-, -, hviolations, hsplice⟩ := hcall wrappedTween wrappedCall
  have hnone : wrappedZone.hasLineComment = false := by decide +kernel
  have hendings : ∀ ending ∈ Target.default.keywords ++ Target.default.excludes,
      '\n' ∉ ending.toList := by
    decide
  refine ⟨by decide +kernel, hnone, ?_, ?_, ?_⟩
  · rw [(hzone wrappedZone).2.2 hnone]
    decide +kernel
  · rw [hviolations .default hendings, List.length_map]
    decide +kernel
  · rw [← List.map_singleton, hsplice]
    decide +kernel

end AnimLint
