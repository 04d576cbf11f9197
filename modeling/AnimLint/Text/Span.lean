/-
AnimLint/Text/Span.lean

Positions in a text are byte offsets into its UTF-8 form.  A span is a half-open
range of them; it may be any pair of numbers, and `slice?` answers only for a
span that runs forward, inside the text and from character boundary to character
boundary.

Main definitions: `byteLength`, `Span`, `splitAt?`, `slice?`, `IsBoundary`.
`splitAt?` undoes appending (`splitAt?_append`) and a successful split loses
nothing (`append_of_splitAt?`).  So a slice is a part of the text with a text of
the right width before it (`slice?_eq_some_iff`), slices that adjoin are one
slice together (`slice?_append`), and a span is a slice if it runs forward
between two character boundaries (`slice?_isSome_iff`).
-/

namespace AnimLint.Text

/-- The number of bytes of a text in UTF-8. -/
def byteLength : List Char → Nat
  | [] => 0
  | c :: r => c.utf8Size + byteLength r

@[simp] theorem byteLength_nil : byteLength [] = 0 := rfl

@[simp] theorem byteLength_cons (c : Char) (r : List Char) :
    byteLength (c :: r) = c.utf8Size + byteLength r := rfl

@[simp] theorem byteLength_append (s t : List Char) :
    byteLength (s ++ t) = byteLength s + byteLength t := by
  induction s with
  | nil => simp
  | cons c r ih => simp [ih, Nat.add_assoc]

/-- The text before a byte offset and the text from there on; nothing if the
offset lies beyond the end or inside a character. -/
def splitAt? : Nat → List Char → Option (List Char × List Char)
  | 0, s => some ([], s)
  | _ + 1, [] => none
  | n + 1, c :: r =>
    if c.utf8Size ≤ n + 1 then
      (splitAt? (n + 1 - c.utf8Size) r).map fun (before, after) => (c :: before, after)
    else none

@[simp] theorem splitAt?_zero (s : List Char) : splitAt? 0 s = some ([], s) := by
  cases s <;> rfl

theorem splitAt?_append (s t : List Char) :
    splitAt? (byteLength s) (s ++ t) = some (s, t) := by
  induction s with
  | nil => simp
  | cons c r ih =>
    have hc := c.utf8Size_pos
    obtain ⟨n, hn⟩ : ∃ n, c.utf8Size + byteLength r = n + 1 :=
      ⟨c.utf8Size + byteLength r - 1, by omega⟩
    have hsub : n + 1 - c.utf8Size = byteLength r := by omega
    have hle : c.utf8Size ≤ n + 1 := by omega
    simp [hn, splitAt?, hle, hsub, ih]

theorem append_of_splitAt? {n : Nat} {s before after : List Char}
    (h : splitAt? n s = some (before, after)) :
    s = before ++ after ∧ byteLength before = n := by
  induction s generalizing n before with
  | nil => cases n <;> simp_all [splitAt?]
  | cons c r ih =>
    cases n with
    | zero => simp_all [splitAt?]
    | succ n =>
      by_cases hle : c.utf8Size ≤ n + 1
      · simp only [splitAt?, hle, if_true, Option.map_eq_some_iff] at h
        obtain ⟨⟨b, a⟩, hrec, hpair⟩ := h
        obtain ⟨rfl, rfl⟩ := Prod.mk.inj hpair
        obtain ⟨rfl, hlen⟩ := ih hrec
        exact ⟨rfl, by simp [hlen]; omega⟩
      · simp [splitAt?, hle] at h

theorem byteLength_eq_zero {s : List Char} : byteLength s = 0 ↔ s = [] := by
  cases s with
  | nil => simp
  | cons c r => have := c.utf8Size_pos; simp; omega

/-- Two ways to cut a text at the same byte are the same. -/
theorem append_inj_of_byteLength {s t s' t' : List Char} (h : s ++ t = s' ++ t')
    (hlen : byteLength s = byteLength s') : s = s' ∧ t = t' := by
  have hs := splitAt?_append s t
  rw [h, hlen, splitAt?_append] at hs
  simp only [Option.some.injEq, Prod.mk.injEq] at hs
  exact ⟨hs.1.symm, hs.2.symm⟩

/-- Of two ways to cut a text the one further on cuts the rest of the other. -/
theorem exists_append_of_byteLength_le {s t s' t' : List Char} (h : s ++ t = s' ++ t')
    (hlen : byteLength s ≤ byteLength s') : ∃ m, s' = s ++ m ∧ t = m ++ t' := by
  rcases List.append_eq_append_iff.1 h with ⟨m, hs, ht⟩ | ⟨m, hs, ht⟩
  · exact ⟨m, hs, ht⟩
  · have hm : m = [] := by
      rw [hs, byteLength_append] at hlen
      exact byteLength_eq_zero.1 (by omega)
    subst hm
    exact ⟨[], by simpa using hs.symm, by simpa using ht.symm⟩

/-- A half-open range of byte offsets. -/
structure Span where
  start : Nat
  stop : Nat
deriving DecidableEq, Repr, Inhabited

/-- The part of a text that a span covers, if the span runs forward between two
character boundaries of the text. -/
def slice? (s : List Char) (span : Span) : Option (List Char) :=
  if span.start ≤ span.stop then do
    let (_, after) ← splitAt? span.start s
    let (part, _) ← splitAt? (span.stop - span.start) after
    return part
  else none

theorem slice?_eq_some_iff {s part : List Char} {span : Span} :
    slice? s span = some part ↔
      ∃ before after, s = before ++ (part ++ after) ∧ byteLength before = span.start ∧
        span.stop = span.start + byteLength part := by
  constructor
  · intro h
    unfold slice? at h
    split at h
    · next hle =>
      obtain ⟨⟨before, rest⟩, hsplit, h⟩ := Option.bind_eq_some_iff.1 h
      obtain ⟨⟨part', after⟩, hsplit', h⟩ := Option.bind_eq_some_iff.1 h
      obtain rfl := Option.some.inj h
      obtain ⟨rfl, hbefore⟩ := append_of_splitAt? hsplit
      obtain ⟨rfl, hpart⟩ := append_of_splitAt? hsplit'
      exact ⟨before, after, rfl, hbefore, by omega⟩
    · simp at h
  · rintro ⟨before, after, rfl, hbefore, hstop⟩
    obtain ⟨start, stop⟩ := span
    simp only at hbefore hstop
    subst hbefore hstop
    simp [slice?, splitAt?_append]

/-- A slice in the middle of a text. -/
theorem slice?_mid (before part after : List Char) :
    slice? (before ++ (part ++ after))
      ⟨byteLength before, byteLength before + byteLength part⟩ =
      some part :=
  slice?_eq_some_iff.2 ⟨before, after, rfl, rfl, rfl⟩

/-- Slices that adjoin are one slice together. -/
theorem slice?_append {s x y : List Char} {a b c : Nat} (hx : slice? s ⟨a, b⟩ = some x)
    (hy : slice? s ⟨b, c⟩ = some y) : slice? s ⟨a, c⟩ = some (x ++ y) := by
  obtain ⟨before, after, rfl, hbefore, hb⟩ := slice?_eq_some_iff.1 hx
  obtain ⟨before', after', hs, hbefore', hc⟩ := slice?_eq_some_iff.1 hy
  simp only at hbefore hb hbefore' hc
  rw [← List.append_assoc] at hs
  obtain ⟨hcut, hrest⟩ := append_inj_of_byteLength hs (by rw [byteLength_append]; omega)
  refine slice?_eq_some_iff.2 ⟨before, after', ?_, hbefore, ?_⟩
  · rw [hrest]
    simp
  · simp only [byteLength_append]
    omega

/-- A slice is as wide as its span. -/
theorem byteLength_slice {s part : List Char} {span : Span}
    (h : slice? s span = some part) :
    span.start + byteLength part = span.stop := by
  obtain ⟨-, -, -, -, hstop⟩ := slice?_eq_some_iff.1 h
  exact hstop.symm

/-- Where a slice starts a character starts. -/
theorem slice?_start {s x : List Char} {a b : Nat} (h : slice? s ⟨a, b⟩ = some x) :
    slice? s ⟨a, a⟩ = some [] := by
  obtain ⟨before, after, rfl, hbefore, -⟩ := slice?_eq_some_iff.1 h
  exact slice?_eq_some_iff.2 ⟨before, x ++ after, rfl, hbefore, rfl⟩

/-- Where a slice ends a character starts, or the text ends. -/
theorem slice?_stop {s x : List Char} {span : Span} (h : slice? s span = some x) :
    slice? s ⟨span.stop, span.stop⟩ = some [] := by
  obtain ⟨before, after, rfl, hbefore, hstop⟩ := slice?_eq_some_iff.1 h
  exact slice?_eq_some_iff.2
    ⟨before ++ x, after, by simp, by rw [byteLength_append, hbefore, hstop], rfl⟩

/-! ### Character boundaries -/

/-- Holds of the byte offsets at which a character of the text starts, and of
the end of the text. -/
def IsBoundary (s : List Char) (n : Nat) : Prop :=
  ∃ before after, s = before ++ after ∧ byteLength before = n

theorem isBoundary_iff_splitAt? {s : List Char} {n : Nat} :
    IsBoundary s n ↔ (splitAt? n s).isSome = true := by
  constructor
  · rintro ⟨before, after, rfl, rfl⟩
    rw [splitAt?_append]
    rfl
  · intro h
    obtain ⟨⟨before, after⟩, hsplit⟩ := Option.isSome_iff_exists.1 h
    exact ⟨before, after, append_of_splitAt? hsplit⟩

instance (s : List Char) (n : Nat) : Decidable (IsBoundary s n) :=
  decidable_of_iff _ isBoundary_iff_splitAt?.symm

/-- A span is a slice if it runs forward from one character boundary to
another. -/
theorem slice?_isSome_iff {s : List Char} {span : Span} :
    (slice? s span).isSome = true ↔
      span.start ≤ span.stop ∧ IsBoundary s span.start ∧ IsBoundary s span.stop := by
  constructor
  · intro h
    obtain ⟨part, hpart⟩ := Option.isSome_iff_exists.1 h
    obtain ⟨before, after, rfl, hbefore, hstop⟩ := slice?_eq_some_iff.1 hpart
    refine ⟨by omega, ⟨before, part ++ after, rfl, hbefore⟩,
      ⟨before ++ part, after, by simp, ?_⟩⟩
    rw [byteLength_append, hbefore, hstop]
  · rintro ⟨hle, ⟨before, rest, rfl, hstart⟩, ⟨before', after, hs, hstop⟩⟩
    obtain ⟨part, rfl, rfl⟩ := exists_append_of_byteLength_le hs (by omega)
    rw [byteLength_append] at hstop
    rw [slice?_eq_some_iff.2 ⟨before, after, rfl, hstart, by omega⟩]
    rfl

/-- The slice between a character boundary and itself is empty. -/
theorem slice?_self_iff {s : List Char} {n : Nat} : slice? s ⟨n, n⟩ = some [] ↔
    IsBoundary s n := by
  constructor
  · intro h
    obtain ⟨before, after, hs, hbefore, -⟩ := slice?_eq_some_iff.1 h
    exact ⟨before, after, hs, hbefore⟩
  · rintro ⟨before, after, hs, hbefore⟩
    exact slice?_eq_some_iff.2 ⟨before, after, hs, hbefore, rfl⟩

end AnimLint.Text
