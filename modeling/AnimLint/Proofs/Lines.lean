/-
AnimLint/Proofs/Lines.lean

Line numbers told by counting.  A place in a text lies on the line after the
line ends in front of it (`lineAt_append`), unless it lies between a carriage
return and its line feed, which together are one line end.  So the count has to
know whether a carriage return stands in front of a text (`lineEnds_append`),
and a text that starts with anything but a line feed is counted the same with
and without one.
-/
import AnimLint.Gap
import AnimLint.Text.Line

namespace AnimLint

open Text Gap

/-- The line ends in a text; `cr` says whether a carriage return stands in front
of it. -/
def lineEnds (cr : Bool) : List Char → Nat
  | [] => 0
  | c :: r => (if c == '\r' || (c == '\n' && !cr) then 1 else 0) + lineEnds (c == '\r') r

/-- Holds if a text ends in a carriage return; an empty one if one stands in
front of it. -/
def endsInReturn (cr : Bool) : List Char → Bool
  | [] => cr
  | c :: r => endsInReturn (c == '\r') r

@[simp] theorem lineEnds_nil (cr : Bool) : lineEnds cr [] = 0 := rfl

theorem lineEnds_append (cr : Bool) (a b : List Char) :
    lineEnds cr (a ++ b) = lineEnds cr a + lineEnds (endsInReturn cr a) b := by
  induction a generalizing cr with
  | nil => simp [endsInReturn]
  | cons c a ih => simp only [List.cons_append, lineEnds, endsInReturn, ih, Nat.add_assoc]

theorem endsInReturn_append (cr : Bool) (a b : List Char) :
    endsInReturn cr (a ++ b) = endsInReturn (endsInReturn cr a) b := by
  induction a generalizing cr with
  | nil => rfl
  | cons c a ih => exact ih (c == '\r')

/-- In front of anything but a line feed a carriage return makes no
difference. -/
theorem lineEnds_of_head {c : Char} (hc : c ≠ '\n') (cr : Bool) (r : List Char) :
    lineEnds cr (c :: r) = lineEnds false (c :: r) := by
  simp [lineEnds, hc]

/-- Where a line break stands, a line ends. -/
theorem lineEnds_pos {s : List Char} (h : s.any isLineBreak = true) :
    0 < lineEnds false s := by
  induction s with
  | nil => cases h
  | cons c s ih =>
    rw [List.any_cons] at h
    rcases hc : isLineBreak c with - | -
    · rw [hc, Bool.false_or] at h
      simp only [isLineBreak, Bool.or_eq_false_iff] at hc
      rw [lineEnds, hc.2]
      exact Nat.lt_of_lt_of_le (ih h) (Nat.le_add_left _ _)
    · simp only [isLineBreak, Bool.or_eq_true] at hc
      rw [lineEnds, if_pos (by rcases hc with hc | hc <;> simp [hc])]
      omega

/-! ### The line of a place -/

theorem lineAt_zero (r : List Char) : lineAt r 0 = 1 := by
  unfold lineAt
  split
  · rfl
  · rw [if_pos (by decide)]
  · rw [if_pos (Char.utf8Size_pos _)]

theorem lineAt_cons {c : Char} {r : List Char}
    (h : c = '\r' → r.head? ≠ some '\n') (n : Nat) :
    lineAt (c :: r) (c.utf8Size + n) =
      (if c == '\n' || c == '\r' then 1 else 0) + lineAt r n := by
  rw [lineAt]
  · rw [if_neg (by omega), Nat.add_sub_cancel_left]
    split <;> simp
  · rintro s rfl rfl
    exact h rfl rfl

theorem lineAt_returnFeed (r : List Char) (n : Nat) :
    lineAt ('\r' :: '\n' :: r) (n + 2) = 1 + lineAt r n := by
  rw [lineAt, if_neg (by omega), Nat.add_sub_cancel]

theorem lineEnds_cons {c : Char} {s : List Char} (h : c = '\r' → s.head? ≠ some '\n') :
    lineEnds false (c :: s) =
      (if c == '\n' || c == '\r' then 1 else 0) + lineEnds false s := by
  have hrest : lineEnds (c == '\r') s = lineEnds false s := by
    rcases hc : c == '\r' with - | -
    · rfl
    · rcases s with - | ⟨d, s⟩
      · rfl
      · refine lineEnds_of_head ?_ true s
        rintro rfl
        exact h (by simpa using hc) rfl
  rw [lineEnds, hrest, Bool.not_false, Bool.and_true, Bool.or_comm]

/-- A place lies on the line after the line ends in front of it. -/
theorem lineAt_append : {pre r : List Char} →
    (endsInReturn false pre = true → r.head? ≠ some '\n') →
    lineAt (pre ++ r) (byteLength pre) = 1 + lineEnds false pre
  | [], r, _ => lineAt_zero r
  | [c], r, h => by
    have hc : c = '\r' → r.head? ≠ some '\n' := by
      rintro rfl
      exact h rfl
    have hzero := lineAt_cons hc 0
    rw [lineAt_zero] at hzero
    rw [lineEnds_cons (by rintro - ⟨⟩), lineEnds_nil, Nat.add_zero, Nat.add_comm 1]
    exact hzero
  | c :: d :: pre, r, h => by
    by_cases hreturn : c = '\r' ∧ d = '\n'
    · -- a return and a feed are one line end of two bytes
      obtain ⟨rfl, rfl⟩ := hreturn
      have ih : lineAt (pre ++ r) (byteLength pre) = 1 + lineEnds false pre :=
        lineAt_append h
      have hwidth : byteLength ('\r' :: '\n' :: pre) = byteLength pre + 2 := by
        show 1 + (1 + byteLength pre) = byteLength pre + 2
        omega
      have hends : lineEnds false ('\r' :: '\n' :: pre) = 1 + lineEnds false pre := by
        simp [lineEnds]
      rw [hwidth, List.cons_append, List.cons_append, lineAt_returnFeed, ih, hends]
    · have hc {s : List Char} : c = '\r' → (d :: s).head? ≠ some '\n' := by
        rintro rfl hd
        exact hreturn ⟨rfl, Option.some.inj hd⟩
      have ih : lineAt (d :: pre ++ r) (byteLength (d :: pre)) =
          1 + lineEnds false (d :: pre) :=
        lineAt_append h
      rw [byteLength_cons, List.cons_append]
      rw [List.cons_append] at ih ⊢
      rw [lineAt_cons hc, ih, lineEnds_cons hc]
      omega

/-- Line numbers grow with places. -/
theorem lineAt_mono (s : List Char) {m n : Nat} (h : m ≤ n) :
    lineAt s m ≤ lineAt s n := by
  fun_induction lineAt s n generalizing m with
  | case1 n => exact Nat.le_refl 1
  | case2 r n hn =>
    refine Nat.le_of_eq ?_
    rw [lineAt, if_pos (by omega)]
  | case3 r n hn ih =>
    rw [lineAt]
    split
    · omega
    · have := ih (m := m - 2) (by omega)
      omega
  | case4 c r n hr hn =>
    refine Nat.le_of_eq ?_
    rw [lineAt, if_pos (by omega)]
    exact hr
  | case5 c r n hr hn hc ih =>
    rw [lineAt, if_pos hc]
    · split
      · omega
      · have := ih (m := m - c.utf8Size) (by omega)
        omega
    · exact hr
  | case6 c r n hr hn hc ih =>
    rw [lineAt, if_neg hc]
    · split
      · have := ih (m := 0) (by omega)
        rwa [lineAt_zero] at this
      · exact ih (m := m - c.utf8Size) (by omega)
    · exact hr

end AnimLint
