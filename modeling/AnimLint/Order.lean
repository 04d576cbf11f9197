/-
AnimLint/Order.lean

Stable sorting by insertion: of two elements that compare equal the earlier one
stays first.

Main definition: `sortBy`; it only reorders (`sortBy_perm`), and by an order in
which any two elements compare it sorts (`pairwise_sortBy`).  Elements that
compare equal keep their order (`filter_sortBy`), and what keeps the order of
all elements may be done before or after (`sortBy_map`).
-/

namespace AnimLint

variable {α : Type}

/-- Inserts before the first element that is not smaller. -/
def insertBy (le : α → α → Bool) (a : α) : List α → List α
  | [] => [a]
  | b :: r => if le a b then a :: b :: r else b :: insertBy le a r

/-- Sorts by insertion from the back, so that equal elements keep their
order. -/
def sortBy (le : α → α → Bool) : List α → List α
  | [] => []
  | a :: r => insertBy le a (sortBy le r)

theorem insertBy_perm (le : α → α → Bool) (a : α) (l : List α) :
    (insertBy le a l).Perm (a :: l) := by
  induction l with
  | nil => exact .refl _
  | cons b r ih =>
    unfold insertBy
    split
    · exact .refl _
    · exact (ih.cons b).trans (.swap a b r)

theorem sortBy_perm (le : α → α → Bool) (l : List α) : (sortBy le l).Perm l := by
  induction l with
  | nil => exact .refl _
  | cons a r ih => exact (insertBy_perm le a _).trans (ih.cons a)

/-- Sorting leaves a sorted list as it is. -/
theorem sortBy_of_sorted {le : α → α → Bool} {l : List α}
    (h : l.Pairwise fun a b => le a b = true) :
    sortBy le l = l := by
  induction h with
  | nil => rfl
  | @cons a l ha _ ih =>
    rw [sortBy, ih]
    cases l with
    | nil => rfl
    | cons b l => rw [insertBy, if_pos (ha b List.mem_cons_self)]

theorem insertBy_map {β : Type} {le : α → α → Bool} {le' : β → β → Bool} {f : α → β}
    (hf : ∀ a b, le' (f a) (f b) = le a b) (a : α) (l : List α) :
    insertBy le' (f a) (l.map f) = (insertBy le a l).map f := by
  induction l with
  | nil => rfl
  | cons b l ih =>
    rw [List.map_cons, insertBy, insertBy, hf]
    split
    · rfl
    · rw [ih, List.map_cons]

/-- Elements may be replaced before or after sorting if that keeps their
order. -/
theorem sortBy_map {β : Type} {le : α → α → Bool} {le' : β → β → Bool} {f : α → β}
    (hf : ∀ a b, le' (f a) (f b) = le a b) (l : List α) :
    sortBy le' (l.map f) = (sortBy le l).map f := by
  induction l with
  | nil => rfl
  | cons a l ih => rw [List.map_cons, sortBy, ih, insertBy_map hf, sortBy]

section Stable

variable {le : α → α → Bool} {p : α → Bool}
  (h : ∀ a b, p a = true → p b = true → le a b = true)

include h

theorem filter_insertBy (a : α) (l : List α) :
    (insertBy le a l).filter p = (a :: l).filter p := by
  induction l with
  | nil => rfl
  | cons b l ih =>
    unfold insertBy
    split
    · rfl
    · next hab =>
      rw [List.filter_cons, ih]
      by_cases ha : p a = true
      · have hb : ¬ p b = true := fun hb => hab (h a b ha hb)
        simp [ha, hb]
      · simp [List.filter_cons, ha]

/-- Elements that compare equal keep their order. -/
theorem filter_sortBy (l : List α) : (sortBy le l).filter p = l.filter p := by
  induction l with
  | nil => rfl
  | cons a l ih =>
    rw [sortBy, filter_insertBy h, List.filter_cons, ih, ← List.filter_cons]

end Stable

section Sorted

variable {le : α → α → Bool} (htotal : ∀ a b, le a b = true ∨ le b a = true)
  (htrans : ∀ a b c, le a b = true → le b c = true → le a c = true)

include htotal htrans

theorem pairwise_insertBy (a : α) {l : List α} (h : l.Pairwise fun b c => le b c = true) :
    (insertBy le a l).Pairwise fun b c => le b c = true := by
  induction h with
  | nil => exact List.pairwise_singleton _ a
  | @cons b r hb hr ih =>
    unfold insertBy
    split
    · next hab =>
      refine List.pairwise_cons.2 ⟨fun c hc => ?_, List.pairwise_cons.2 ⟨hb, hr⟩⟩
      rcases List.mem_cons.1 hc with rfl | hc
      · exact hab
      · exact htrans a b c hab (hb c hc)
    · next hab =>
      refine List.pairwise_cons.2 ⟨fun c hc => ?_, ih⟩
      rcases List.mem_cons.1 ((insertBy_perm le a r).mem_iff.1 hc) with rfl | hc
      · exact (htotal c b).resolve_left hab
      · exact hb c hc

theorem pairwise_sortBy (l : List α) :
    (sortBy le l).Pairwise fun a b => le a b = true := by
  induction l with
  | nil => exact .nil
  | cons a r ih => exact pairwise_insertBy htotal htrans a ih

end Sorted

end AnimLint
