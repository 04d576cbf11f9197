/-
AnimLint/Proofs/ParentPaths.lean

What is left of a path when its last name is dropped.  Texts that stand for no
step go with the name (`exists_parts_of_parent`), so what is left has the steps
of the path but the last one (`pathSteps_of_parent`); it starts where the path
does, and it is shorter.  A path from which names were dropped again and again
is left of the first one (`IsLeftOf`).
-/
import AnimLint.Proofs.Overlooking

namespace AnimLint.Files

/-! ### Dropping the last name of a path -/

/-- The names of a path that stand for a step. -/
def pathSteps (path : String) : List String := (names path).filter (!isIdle ·)

/-- Holds of parts that stand for no step. -/
def AreIdle (parts : List (List Char)) : Prop :=
  (parts.map String.ofList).all isIdle = true

theorem areIdle_reverse {parts : List (List Char)} :
    AreIdle parts.reverse ↔ AreIdle parts := by
  rw [AreIdle, AreIdle, List.map_reverse, List.all_reverse]

theorem pathSteps_of_parts {path : String} {parts : List (List Char)}
    (h : splitSlashes path.toList = parts) :
    pathSteps path = (parts.map String.ofList).filter (!isIdle ·) := by
  rw [pathSteps, names, h]

theorem filter_of_idle {names : List String} (h : names.all isIdle = true) :
    names.filter (!isIdle ·) = [] := by
  rw [List.filter_eq_nil_iff]
  intro name hname
  rw [List.all_eq_true.1 h name hname]
  exact Bool.false_ne_true

theorem AreIdle.filter {parts : List (List Char)} (h : AreIdle parts) :
    (parts.map String.ofList).filter (!isIdle ·) = [] :=
  filter_of_idle h

theorem exists_idle_dropIdle (parts : List (List Char)) :
    ∃ idle, parts = idle ++ dropIdle parts ∧ AreIdle idle := by
  induction parts with
  | nil => exact ⟨[], rfl, rfl⟩
  | cons part rest ih =>
    rw [dropIdle]
    split
    · next hidle =>
      obtain ⟨idle, hrest, hall⟩ := ih
      refine ⟨part :: idle, by rw [List.cons_append, ← hrest], ?_⟩
      rw [AreIdle, List.map_cons, List.all_cons, hall, Bool.and_true]
      simp only [Bool.or_eq_true, Bool.and_eq_true, List.isEmpty_iff, beq_iff_eq] at hidle
      rcases hidle with rfl | ⟨rfl, -⟩ <;> rfl
    · exact ⟨[], rfl, rfl⟩

/-- The part in front of which nothing more is dropped is not empty, and is a
`.` only at the front. -/
theorem of_dropIdle_eq_cons {parts rest : List (List Char)} {part : List Char}
    (h : dropIdle parts = part :: rest) : part ≠ [] ∧ (part = ['.'] → rest = []) := by
  induction parts with
  | nil => cases h
  | cons first parts ih =>
    rw [dropIdle] at h
    split at h
    · exact ih h
    · next hidle =>
      obtain ⟨rfl, rfl⟩ := List.cons.inj h
      simpa using hidle

theorem splitSlashes_joinSlashes {parts : List (List Char)} (hsome : parts ≠ [])
    (hslash : ∀ part ∈ parts, '/' ∉ part) : splitSlashes (joinSlashes parts) = parts := by
  induction parts with
  | nil => exact absurd rfl hsome
  | cons part rest ih =>
    obtain ⟨hpart, hrest⟩ := List.forall_mem_cons.1 hslash
    rcases rest with - | ⟨next, rest⟩
    · exact splitSlashes_of_not_mem hpart
    · rw [joinSlashes_cons part (List.cons_ne_nil _ _), splitSlashes_append,
        splitSlashes_of_not_mem hpart, ih (List.cons_ne_nil _ _) hrest]
      rfl

/-- Only parts that stand for no step come before the last name, so the root or
nothing is left of a path. -/
structure DropsAll (path up : String) (front : List (List Char)) : Prop where
  idle : AreIdle front
  eq : up = if isAbsolute path then "/" else ""

/-- A part that is not empty comes before the last name, and what is left of a
path ends with it. -/
structure DropsTo (up : String) (front : List (List Char)) (part : List Char) : Prop where
  exists_kept : ∃ kept last idle, front = (kept ++ [last]) ++ idle ∧
    AreIdle idle ∧ last ≠ [] ∧
    up = String.ofList (joinSlashes (kept ++ [last]))
  ne_here : part ≠ ['.']

/-- The parts of a path that loses a name: that name, the parts behind it, and
those before it. -/
theorem exists_parts_of_parent {path up : String} (h : parent? path = some up) :
    ∃ front part last, splitSlashes path.toList = front ++ part :: last ∧
      part ≠ [] ∧ AreIdle last ∧
      (DropsAll path up front ∨ DropsTo up front part) := by
  obtain ⟨last, hparts, hlast⟩ := exists_idle_dropIdle (splitSlashes path.toList).reverse
  unfold parent? at h
  split at h
  · cases h
  · next part rest hdrop =>
    obtain ⟨hpart, hhere⟩ := of_dropIdle_eq_cons hdrop
    obtain ⟨idle, hrest, hidle⟩ := exists_idle_dropIdle rest
    have hsplit : splitSlashes path.toList = rest.reverse ++ part :: last.reverse := by
      rw [← List.reverse_reverse (splitSlashes path.toList), hparts, hdrop]
      simp
    refine ⟨rest.reverse, part, last.reverse, hsplit, hpart, areIdle_reverse.2 hlast, ?_⟩
    split at h
    · next hnone =>
      rw [hnone, List.append_nil] at hrest
      exact .inl ⟨areIdle_reverse.2 (hrest ▸ hidle), (Option.some.inj h).symm⟩
    · next hsome =>
      rcases hkept : dropIdle rest with - | ⟨final, kept⟩
      · exact absurd hkept hsome
      · rw [hkept] at hrest h
        refine .inr ⟨⟨kept.reverse, final, idle.reverse, ?_, areIdle_reverse.2 hidle,
          (of_dropIdle_eq_cons hkept).1, ?_⟩, ?_⟩
        · rw [hrest]
          simp
        · rw [← List.reverse_cons]
          exact (Option.some.inj h).symm
        · intro hdot
          rw [hhere hdot] at hkept
          cases hkept

section Parent

variable {path up : String}

/-- What is left of a path is its front as it is written, and a slash follows it
there. -/
theorem DropsTo.splits {front last : List (List Char)} {part : List Char}
    (h : DropsTo up front part)
    (hparts : splitSlashes path.toList = front ++ part :: last) :
    up ≠ "" ∧ (∃ rest, path.toList = up.toList ++ '/' :: rest) ∧
      ∃ idle, front = splitSlashes up.toList ++ idle ∧ AreIdle idle := by
  obtain ⟨kept, final, idle, rfl, hidle, hfinal, rfl⟩ := h.exists_kept
  have hsome : kept ++ [final] ≠ [] :=
    List.append_ne_nil_of_right_ne_nil _ (List.cons_ne_nil _ _)
  have hrest : idle ++ part :: last ≠ [] :=
    List.append_ne_nil_of_right_ne_nil _ (List.cons_ne_nil _ _)
  have hslash : ∀ part ∈ kept ++ [final], '/' ∉ part := by
    intro part hmem
    refine slash_not_mem_splitSlashes (s := path.toList) ?_
    rw [hparts]
    exact List.mem_append_left _ (List.mem_append_left _ hmem)
  have hsplit := splitSlashes_joinSlashes hsome hslash
  refine ⟨?_, ⟨joinSlashes (idle ++ part :: last), ?_⟩, idle, ?_, hidle⟩
  · intro hempty
    rw [String.ofList_eq_empty_iff.1 hempty] at hsplit
    have hend := congrArg List.getLast? hsplit
    rw [List.getLast?_concat] at hend
    exact hfinal (Option.some.inj hend).symm
  · rw [String.toList_ofList, ← Glob.joinSlashes_append hsome hrest,
      ← joinSlashes_splitSlashes path.toList, hparts, List.append_assoc]
  · rw [String.toList_ofList, hsplit]

variable (h : parent? path = some up)

include h

/-- What is left of a path has its steps but the last. -/
theorem pathSteps_of_parent : pathSteps up = (pathSteps path).dropLast := by
  obtain ⟨front, part, last, hparts, hpart, hlast, hall | hto⟩ := exists_parts_of_parent h
  · rw [pathSteps_of_parts hparts, hall.eq, List.map_append, List.filter_append,
      hall.idle.filter, List.map_cons, List.filter_cons, hlast.filter]
    split <;> split <;> rfl
  · obtain ⟨-, -, idle, hfront, hidle⟩ := hto.splits hparts
    have hempty : String.ofList part ≠ "" :=
      fun hempty => hpart (String.ofList_eq_empty_iff.1 hempty)
    have hhere : String.ofList part ≠ "." :=
      fun hhere => hto.ne_here (String.ofList_inj.1 hhere)
    have hstep : (!isIdle (String.ofList part)) = true := by simp [isIdle, hempty, hhere]
    rw [pathSteps_of_parts hparts, List.map_append, List.filter_append,
      List.map_cons, List.filter_cons, if_pos hstep, hlast.filter,
      List.dropLast_concat, hfront, List.map_append, List.filter_append,
      hidle.filter, List.append_nil]
    rfl

theorem isAbsolute_of_parent : isAbsolute up = isAbsolute path := by
  obtain ⟨front, part, last, hparts, -, -, hall | hto⟩ := exists_parts_of_parent h
  · rw [hall.eq]
    rcases isAbsolute path with - | - <;> rfl
  · obtain ⟨hsome, ⟨rest, hpath⟩, -⟩ := hto.splits hparts
    have hne : up.toList ≠ [] := fun hempty => hsome (String.toList_eq_nil_iff.1 hempty)
    rw [isAbsolute, isAbsolute, hpath, List.head?_append, List.head?_eq_some_head hne]
    rfl

theorem length_of_parent : up.length < path.length := by
  obtain ⟨front, part, last, hparts, hpart, -, hall | hto⟩ := exists_parts_of_parent h
  · have hmem : part ∈ splitSlashes path.toList := by
      rw [hparts]
      exact List.mem_append_right _ List.mem_cons_self
    obtain ⟨c, hc⟩ := List.exists_mem_of_ne_nil part hpart
    have hslash : c ≠ '/' := fun heq => slash_not_mem_splitSlashes hmem (heq ▸ hc)
    have hpath := mem_of_mem_splitSlashes hmem hc
    rw [hall.eq, ← @String.length_toList path]
    rcases habsolute : isAbsolute path with - | -
    · exact List.length_pos_of_mem hpath
    · -- more than the slash at its front stands in the path
      obtain ⟨rest, hrest⟩ := List.head?_eq_some_iff.1 (beq_iff_eq.1 habsolute)
      rw [hrest] at hpath
      have hbehind := List.length_pos_of_mem ((List.mem_cons.1 hpath).resolve_left hslash)
      rw [hrest, List.length_cons]
      exact Nat.succ_lt_succ hbehind
  · obtain ⟨-, ⟨rest, hpath⟩, -⟩ := hto.splits hparts
    rw [← String.length_toList, ← String.length_toList, hpath, List.length_append,
      List.length_cons]
    omega

end Parent

/-! ### Paths above another -/

/-- Holds of a path that is left of another one when the last of its steps are
dropped. -/
structure IsLeftOf (above path : String) (dropped : List String) : Prop where
  steps_eq : pathSteps path = pathSteps above ++ dropped
  isAbsolute_eq : isAbsolute path = isAbsolute above

namespace IsLeftOf

variable {above path : String} {dropped : List String}

theorem refl (path : String) : IsLeftOf path path [] := ⟨(List.append_nil _).symm, rfl⟩

/-- What is left of a path without its last name is left of the path itself. -/
theorem of_parent {up : String} (hup : parent? path = some up)
    (h : IsLeftOf above up dropped) :
    IsLeftOf above path dropped ∨ ∃ last, IsLeftOf above path (dropped ++ [last]) := by
  have habsolute := (isAbsolute_of_parent hup).symm.trans h.isAbsolute_eq
  have hsteps := pathSteps_of_parent hup
  rw [h.steps_eq] at hsteps
  rcases List.eq_nil_or_concat (pathSteps path) with hnil | ⟨front, last, hpath⟩
  · rw [hnil] at hsteps
    exact .inl ⟨hnil.trans hsteps.symm, habsolute⟩
  · rw [List.concat_eq_append] at hpath
    rw [hpath, List.dropLast_concat] at hsteps
    exact .inr ⟨last, ⟨by rw [hpath, ← hsteps, List.append_assoc], habsolute⟩⟩

end IsLeftOf

end AnimLint.Files
