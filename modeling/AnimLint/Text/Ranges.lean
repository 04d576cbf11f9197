/-
AnimLint/Text/Ranges.lean

Sets of code points as ascending lists of closed ranges, the form in which
character properties are tabulated.

Main definition: `Ranges.has`; main fact: `has` finds only what some range holds
(`exists_of_has`).
-/

namespace AnimLint.Text

/-- Closed ranges of code points in ascending order. -/
abbrev Ranges := List (Nat × Nat)

namespace Ranges

/-- Looks a code point up; the search ends at the first range that starts beyond
it. -/
def has : Ranges → Nat → Bool
  | [], _ => false
  | (lo, hi) :: rest, n => if n < lo then false else n ≤ hi || has rest n

theorem exists_of_has {rs : Ranges} {n : Nat} (h : rs.has n = true) :
    ∃ r ∈ rs, r.1 ≤ n ∧ n ≤ r.2 := by
  induction rs with
  | nil => simp [has] at h
  | cons r rest ih =>
    obtain ⟨lo, hi⟩ := r
    by_cases hlt : n < lo
    · simp [has, hlt] at h
    · simp only [has, hlt, if_false, Bool.or_eq_true, decide_eq_true_eq] at h
      rcases h with h | h
      · exact ⟨(lo, hi), by simp, by omega, h⟩
      · obtain ⟨r, hr, hin⟩ := ih h
        exact ⟨r, by simp [hr], hin⟩

end Ranges

end AnimLint.Text
