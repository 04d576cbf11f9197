/-
AnimLint/Proofs/Relocation.lean

A call in a text that becomes part of a longer one.  Its ranges move by the
width of what is put in front (`Call.shift`), and the longer text carries the
shorter one (`Text.carries_middle`).  So as long as the call and its callee lie
in the text, nothing around it matters: the same violations are reported
(`violations_shift`), and their edits do to the part what they did to the text
(`splice_shift`).
-/
import AnimLint.Proofs.Carrying
import AnimLint.Proofs.Splicing

namespace AnimLint

open Text

/-! ### Slices of a longer text -/

namespace Text

/-- A cut in the first of two texts. -/
theorem splitAt?_append_of_le {s : List Char} {n : Nat} (h : n ≤ byteLength s)
    (t : List Char) :
    splitAt? n (s ++ t) = (splitAt? n s).map fun cut => (cut.1, cut.2 ++ t) := by
  induction s generalizing n with
  | nil =>
    obtain rfl : n = 0 := Nat.le_zero.1 h
    simp
  | cons c s ih =>
    cases n with
    | zero => simp
    | succ n =>
      rw [byteLength_cons] at h
      rw [List.cons_append, splitAt?, splitAt?, ih (by omega)]
      split
      · simp only [Option.map_map]
        rfl
      · rfl

/-- A cut in the second of two texts. -/
theorem splitAt?_append_add (s t : List Char) (n : Nat) :
    splitAt? (byteLength s + n) (s ++ t) = (splitAt? n t).map fun cut =>
      (s ++ cut.1, cut.2) := by
  induction s with
  | nil => simp
  | cons c s ih =>
    have hc := c.utf8Size_pos
    obtain ⟨m, hm⟩ : ∃ m, byteLength (c :: s) + n = m + 1 :=
      ⟨c.utf8Size + byteLength s + n - 1, by rw [byteLength_cons]; omega⟩
    rw [byteLength_cons] at hm
    have hsub : m + 1 - c.utf8Size = byteLength s + n := by omega
    rw [byteLength_cons, hm, List.cons_append, splitAt?, if_pos (by omega), hsub,
      ih, Option.map_map]
    rfl

/-- A slice of the first of two texts. -/
theorem slice?_append_left {s : List Char} {span : Span} (h : span.stop ≤ byteLength s)
    (t : List Char) : slice? (s ++ t) span = slice? s span := by
  unfold slice?
  split
  · next hle =>
    rw [splitAt?_append_of_le (by omega)]
    rcases hcut : splitAt? span.start s with - | ⟨before, rest⟩
    · rfl
    · obtain ⟨rfl, hbefore⟩ := append_of_splitAt? hcut
      rw [byteLength_append] at h
      have hrest : span.stop - span.start ≤ byteLength rest := by omega
      simp only [Option.map_some, Option.bind_eq_bind, Option.bind_some,
        splitAt?_append_of_le hrest]
      rcases splitAt? (span.stop - span.start) rest <;> rfl
  · rfl

/-- A slice of the second of two texts. -/
theorem slice?_append_right (s t : List Char) (a b : Nat) :
    slice? (s ++ t) ⟨byteLength s + a, byteLength s + b⟩ = slice? t ⟨a, b⟩ := by
  unfold slice?
  simp only [Nat.add_le_add_iff_left, splitAt?_append_add, Nat.add_sub_add_left]
  split
  · rcases splitAt? a t <;> rfl
  · rfl

end Text

/-! ### Moved ranges -/

/-- A span moved to the right. -/
def Text.Span.shift (n : Nat) (span : Span) : Span := span.placed (n + ·)

/-- A call with all its ranges moved to the right. -/
def Call.shift (n : Nat) (call : Call) : Call := call.placed (n + ·)

/-- A zone moved to the right. -/
def Zone.shift (n : Nat) (zone : Zone) : Zone := zone.placed (n + ·) id

/-- An edit moved to the right. -/
def Edit.shift (n : Nat) (e : Edit) : Edit := e.placed (n + ·) id

/-- A violation moved to the right. -/
def Violation.shift (n : Nat) (v : Violation) : Violation :=
  v.placed (n + ·) id

@[simp] theorem Text.Span.shift_start (n : Nat) (span : Span) :
    (span.shift n).start = n + span.start := rfl

@[simp] theorem Text.Span.shift_stop (n : Nat) (span : Span) :
    (span.shift n).stop = n + span.stop := rfl

@[simp] theorem Edit.shift_span (n : Nat) (e : Edit) :
    (e.shift n).span = e.span.shift n := rfl

@[simp] theorem Edit.shift_text (n : Nat) (e : Edit) :
    (e.shift n).text = e.text := rfl

/-! ### Texts that hold others -/

namespace Text

/-- A longer text has the slices of what it starts with. -/
theorem carries_append_left (s t : List Char) :
    Carries id id (byteLength s) s (s ++ t) where
  le_iff _ _ := Iff.rfl
  slice a b hb := by
    have hspan : (⟨a, b⟩ : Span).stop ≤ byteLength s := hb
    rw [Option.map_id]
    exact slice?_append_left hspan t
  append _ _ := rfl
  paren := by simp

/-- A longer text has the slices of what it ends with. -/
theorem carries_append_right (s t : List Char) (limit : Nat) :
    Carries (byteLength s + ·) id limit t (s ++ t) where
  le_iff _ _ := Nat.add_le_add_iff_left
  slice a b _ := by
    rw [Option.map_id]
    exact slice?_append_right s t a b
  append _ _ := rfl
  paren := by simp

/-- A longer text has the slices of what stands in its middle. -/
theorem carries_middle (pre s post : List Char) :
    Carries (byteLength pre + ·) id (byteLength s) s (pre ++ (s ++ post)) where
  le_iff _ _ := Nat.add_le_add_iff_left
  slice a b hb := by
    have hspan : (⟨a, b⟩ : Span).stop ≤ byteLength s := hb
    rw [Option.map_id]
    exact (slice?_append_right pre (s ++ post) a b).trans
      (slice?_append_left hspan post)
  append _ _ := rfl
  paren := by simp

end Text

theorem gapOf_append_left {s : List Char} {a b : Nat} (hb : b ≤ byteLength s)
    (t : List Char) : gapOf? (s ++ t) ⟨a, b⟩ = gapOf? s ⟨a, b⟩ := by
  simpa using (carries_append_left s t).gapOf a hb

theorem piecesFrom_append_left {s : List Char} {bounds : Span}
    (h : bounds.stop ≤ byteLength s) (t : List Char) (cursor : Nat)
    (arguments : List Span) :
    piecesFrom? (s ++ t) bounds cursor arguments =
      piecesFrom? s bounds cursor arguments := by
  have hbounds : ∀ arg ∈ arguments, arg.stop ≤ bounds.start ↔ arg.stop ≤ bounds.start :=
    fun _ _ => Iff.rfl
  simpa using (carries_append_left s t).piecesFrom h cursor hbounds

theorem piecesFrom_append_right (s t : List Char) {bounds : Span} {start : Nat}
    (cursor : Nat) {arguments : List Span}
    (hstart : ∀ arg ∈ arguments,
      byteLength s + arg.stop ≤ start ↔ arg.stop ≤ bounds.start) :
    piecesFrom? (s ++ t) ⟨start, byteLength s + bounds.stop⟩
        (byteLength s + cursor) (arguments.map (Span.shift (byteLength s))) =
      piecesFrom? t bounds cursor arguments := by
  refine ((carries_append_right s t bounds.stop).piecesFrom (Nat.le_refl _)
    cursor hstart).trans ?_
  simp

theorem violation_shift (n : Nat) (zone : Zone) :
    (zone.shift n).violation? = zone.violation?.map (Violation.shift n) := by
  have hpieces : (zone.shift n).pieces = zone.pieces := by
    simp [Zone.shift, Zone.placed]
  exact Zone.violation_placed (congrArg piecesBreak hpieces)
    (congrArg piecesComment hpieces)
    fun _ => congrArg (compactPieces zone.side) hpieces

/-- The violations of a call in a part of a text. -/
theorem violations_shift (target : Target) (pre post : List Char) {s : List Char}
    {call : Call}
    (hspan : call.span.stop ≤ byteLength s) (hcallee : call.callee.stop ≤ byteLength s) :
    violations target (pre ++ (s ++ post)) (call.shift (byteLength pre)) =
      (violations target s call).map (Violation.shift (byteLength pre)) :=
  (carries_middle pre s post).violations hspan hcallee (fun _ => rfl) (violation_shift _)

/-! ### Splicing -/

/-- A text behind all edits stays. -/
theorem spliceFrom_append (post : List Char) {cursor : Nat} {rest : List Char}
    {es : List Edit} (hes : ∀ e ∈ es, e.span.stop ≤ cursor + byteLength rest) :
    spliceFrom cursor (rest ++ post) es =
      { spliceFrom cursor rest es with output :=
        (spliceFrom cursor rest es).output ++ post } := by
  induction es generalizing cursor rest with
  | nil => rfl
  | cons e es ih =>
    have he := hes e List.mem_cons_self
    have hrest : ∀ f ∈ es, f.span.stop ≤ cursor + byteLength rest :=
      fun f hf => hes f (List.mem_cons_of_mem e hf)
    unfold spliceFrom
    split
    · simp [ih hrest]
    · next hfits =>
      simp only [Bool.or_eq_true, decide_eq_true_eq, not_or] at hfits
      rw [splitAt?_append_of_le (by omega)]
      rcases hkept : splitAt? (e.span.start - cursor) rest with - | ⟨kept, after⟩
      · simp [ih hrest]
      · obtain ⟨rfl, hkept⟩ := append_of_splitAt? hkept
        rw [byteLength_append] at he
        have hin : e.span.stop - e.span.start ≤ byteLength after := by omega
        simp only [Option.map_some, splitAt?_append_of_le hin]
        rcases hcut : splitAt? (e.span.stop - e.span.start) after with - | ⟨cut, after'⟩
        · have := ih hrest
          simp only [List.append_assoc] at this
          simp [this]
        · obtain ⟨rfl, hcut⟩ := append_of_splitAt? hcut
          have hrest' : ∀ f ∈ es, f.span.stop ≤ e.span.stop + byteLength after' := by
            intro f hf
            have := hrest f hf
            simp only [byteLength_append] at this
            omega
          simp [ih hrest']

/-- Edits moved along with the text. -/
theorem spliceFrom_shift (n cursor : Nat) (rest : List Char) (es : List Edit) :
    spliceFrom (n + cursor) rest (es.map (Edit.shift n)) = spliceFrom cursor rest es := by
  induction es generalizing cursor rest with
  | nil => rfl
  | cons e es ih =>
    simp only [List.map_cons, spliceFrom, Edit.shift_span, Edit.shift_text,
      Span.shift_start, Span.shift_stop, Nat.add_lt_add_iff_left,
      Nat.add_sub_add_left, ih]

/-- A text in front of all edits stays. -/
theorem spliceFrom_behind (pre : List Char) {cursor : Nat} {rest : List Char}
    {es : List Edit} (hes : ∀ e ∈ es, cursor + byteLength pre ≤ e.span.start) :
    spliceFrom cursor (pre ++ rest) es =
      { spliceFrom (cursor + byteLength pre) rest es with
        output := pre ++ (spliceFrom (cursor + byteLength pre) rest es).output } := by
  induction es with
  | nil => rfl
  | cons e es ih =>
    have he := hes e List.mem_cons_self
    have ih' := ih fun f hf => hes f (List.mem_cons_of_mem e hf)
    have hstart : e.span.start - cursor =
        byteLength pre + (e.span.start - (cursor + byteLength pre)) := by
      omega
    have hleft : ¬ e.span.start < cursor := by omega
    have hright : ¬ e.span.start < cursor + byteLength pre := by omega
    unfold spliceFrom
    simp only [hleft, hright, decide_false, Bool.false_or]
    split
    · simp [ih']
    · rw [hstart, splitAt?_append_add]
      rcases splitAt? (e.span.start - (cursor + byteLength pre)) rest with - |
          ⟨kept, after⟩
      · simp [ih']
      · simp only [Option.map_some]
        rcases splitAt? (e.span.stop - e.span.start) after with - | ⟨cut, after'⟩
        · simp [ih']
        · simp

/-- Edits taken to places that keep their order come in the same order. -/
theorem sortBy_placed {place : Nat → Nat} (spell : List Char → List Char)
    (hplace : ∀ m n, place m ≤ place n ↔ m ≤ n) (es : List Edit) :
    sortBy Edit.before (es.map (Edit.placed place spell)) =
      (sortBy Edit.before es).map (Edit.placed place spell) := by
  refine sortBy_map (fun a b => ?_) es
  have hlt (m n : Nat) : place m < place n ↔ m < n := by
    rw [← Nat.not_le, hplace, Nat.not_le]
  have heq (m n : Nat) : place m = place n ↔ m = n := by
    rw [Nat.le_antisymm_iff, Nat.le_antisymm_iff, hplace, hplace]
  rw [Bool.eq_iff_iff]
  simp [Edit.before, Edit.placed, Span.placed, hplace, hlt, heq]

theorem sortBy_shift (n : Nat) (es : List Edit) :
    sortBy Edit.before (es.map (Edit.shift n)) =
      (sortBy Edit.before es).map (Edit.shift n) :=
  sortBy_placed id (fun _ _ => Nat.add_le_add_iff_left) es

/-- A batch of edits of a part of a text. -/
theorem splice_shift (pre post : List Char) {s : List Char} {es : List Edit}
    (hes : ∀ e ∈ es, e.span.stop ≤ byteLength s) :
    (splice (pre ++ (s ++ post)) (es.map (Edit.shift (byteLength pre)))).output =
      pre ++ ((splice s es).output ++ post) := by
  have hsorted : ∀ e ∈ sortBy Edit.before es, e.span.stop ≤ 0 + byteLength s := by
    intro e he
    rw [Nat.zero_add]
    exact hes e ((sortBy_perm _ _).mem_iff.1 he)
  have hbehind : ∀ e ∈ (sortBy Edit.before es).map (Edit.shift (byteLength pre)),
      0 + byteLength pre ≤ e.span.start := by
    intro e he
    obtain ⟨f, -, rfl⟩ := List.mem_map.1 he
    simp only [Edit.shift_span, Span.shift_start]
    omega
  rw [splice, sortBy_shift, spliceFrom_behind pre hbehind, Nat.zero_add]
  have hmoved := spliceFrom_shift (byteLength pre) 0 (s ++ post) (sortBy Edit.before es)
  rw [Nat.add_zero] at hmoved
  rw [hmoved, spliceFrom_append post hsorted]
  rfl

end AnimLint
