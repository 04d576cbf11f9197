/-
AnimLint/Proofs/ToggleLines.lean

The directives that open or close a stretch of silence, by lines, as a watch
hears them.  A watch knows which of them stand on its own line, and whether the
last line that holds any holds both kinds (`Hears`).  If it does not, the lines
of a call without directives are settled (`settled_of_hears`): in whatever order
comments are met, the silence of the script says the same of the call.

A watch is clear if nothing on its line changes its meaning when the line is
joined to the next ones: no directive for the next line, and none that closes a
stretch (`Watch.isClear`).  A clear watch that silences nothing is calm
(`eq_calm`).
-/
import AnimLint.Proofs.CommentOrder
import AnimLint.Proofs.Watch

namespace AnimLint

open Text Gap Script

/-- Where no line break stands, no line ends. -/
theorem lineEnds_eq_zero {s : List Char} (h : s.any isLineBreak = false) (cr : Bool) :
    lineEnds cr s = 0 := by
  induction s generalizing cr with
  | nil => rfl
  | cons c s ih =>
    rw [List.any_cons, Bool.or_eq_false_iff] at h
    have hc := h.1
    simp only [isLineBreak, Bool.or_eq_false_iff] at hc
    rw [lineEnds, hc.1, hc.2, ih h.2]
    rfl

namespace Silence

variable {line : Nat} {ds es : List (Nat × Directive)}

/-- What stands below a line has no say in whether the line is settled. -/
theorem settled_append (h : ∀ e ∈ es, line < e.1) : Settled line (ds ++ es) ↔
    Settled line ds := by
  have hmem {n : Nat} {d : Directive} (hn : n ≤ line) : (n, d) ∈ ds ++ es ↔
      (n, d) ∈ ds := by
    rw [List.mem_append, or_iff_left]
    intro he
    have := h _ he
    omega
  refine forall_congr' fun n => forall_congr' fun hn => ?_
  rw [hmem hn, hmem hn]
  refine imp_congr_right fun _ => imp_congr_right fun _ => exists_congr fun m => ?_
  exact and_congr_right fun _ => and_congr_right fun hm => by rw [hmem hm, hmem hm]

/-- Behind all directives it is the same on every line whether it is settled. -/
theorem settled_of_le {line' : Nat} (h : ∀ d ∈ ds, d.1 ≤ line) (hle : line ≤ line') :
    Settled line' ds ↔ Settled line ds := by
  constructor
  · intro hsettled n hn hdisable henable
    obtain ⟨m, hlt, -, hm⟩ := hsettled n (Nat.le_trans hn hle) hdisable henable
    exact ⟨m, hlt, hm.elim (h _) (h _), hm⟩
  · intro hsettled n _ hdisable henable
    obtain ⟨m, hlt, hm, hmem⟩ := hsettled n (h _ hdisable) hdisable henable
    exact ⟨m, hlt, Nat.le_trans hm hle, hmem⟩

/-- The last line is settled if it does not hold both kinds. -/
theorem settled_concat {d : Directive} (h : ∀ e ∈ ds, e.1 ≤ line)
    (htoggles : d.toggles = true) :
    Settled line (ds ++ [(line, d)]) ↔
      ¬ ((line, .disable) ∈ ds ++ [(line, d)] ∧ (line, .enable) ∈ ds ++ [(line, d)]) := by
  constructor
  · rintro hsettled ⟨hdisable, henable⟩
    obtain ⟨m, hlt, hle, -⟩ := hsettled line (Nat.le_refl _) hdisable henable
    omega
  · intro hone n hn hdisable henable
    rcases Nat.lt_or_eq_of_le hn with hlt | rfl
    · have hmem : (line, d) ∈ ds ++ [(line, d)] :=
        List.mem_append_right _ List.mem_cons_self
      refine ⟨line, hlt, Nat.le_refl _, ?_⟩
      cases d with
      | disable => exact .inl hmem
      | enable => exact .inr hmem
      | disableNextLine => cases htoggles
    · exact absurd ⟨hdisable, henable⟩ hone

/-- A directive for the next line has no say in whether a line is settled. -/
theorem settled_concat_next : Settled line (ds ++ [(line, .disableNextLine)]) ↔
    Settled line ds := by
  simp [Settled]

end Silence

open Silence

namespace Watch

/-- A watch that has heard the directives in front of it, with their lines; it
stands on a line that none of them is below. -/
structure Hears (w : Watch) (line : Nat) (ds : List (Nat × Directive)) : Prop where
  le : ∀ d ∈ ds, d.1 ≤ line
  here : ∀ d, d ∈ w.here ↔ d.toggles = true ∧ (line, d) ∈ ds
  mixed : w.mixed = false ↔ Settled line ds
  on : .disable ∈ w.here → .enable ∉ w.here → w.on = true

variable {w : Watch} {line : Nat} {ds : List (Nat × Directive)}

theorem hears_calm : Hears calm 1 [] where
  le := by simp
  here d := by simp [calm]
  mixed := by simp [calm, Settled]
  on h := by cases h

/-- A directive that opens or closes a stretch stands on the line from then
on. -/
theorem Hears.mem_concat (h : Hears w line ds) {d : Directive}
    (htoggles : d.toggles = true) (e : Directive) :
    e ∈ d :: w.here ↔ e.toggles = true ∧ (line, e) ∈ ds ++ [(line, d)] := by
  rw [List.mem_cons, h.here, List.mem_append, List.mem_singleton, Prod.mk.injEq]
  constructor
  · rintro (rfl | ⟨he, hmem⟩)
    · exact ⟨htoggles, .inr ⟨rfl, rfl⟩⟩
    · exact ⟨he, .inl hmem⟩
  · rintro ⟨he, hmem | ⟨-, rfl⟩⟩
    · exact .inr ⟨he, hmem⟩
    · exact .inl rfl

theorem Hears.hear (h : Hears w line ds) (d : Directive) :
    Hears (w.hear (some d)) line (ds ++ [(line, d)]) := by
  have hle : ∀ e ∈ ds ++ [(line, d)], e.1 ≤ line := by
    intro e he
    rcases List.mem_append.1 he with he | he
    · exact h.le e he
    · exact Nat.le_of_eq (congrArg Prod.fst (List.mem_singleton.1 he))
  cases d with
  | disable =>
    refine ⟨hle, h.mem_concat rfl, ?_, fun _ _ => rfl⟩
    show w.here.contains .enable = false ↔ _
    rw [settled_concat h.le rfl, ← Bool.not_eq_true, List.contains_iff_mem, h.here]
    simp [Directive.toggles]
  | enable =>
    refine ⟨hle, h.mem_concat rfl, ?_, fun _ hnot => absurd List.mem_cons_self hnot⟩
    show w.here.contains .disable = false ↔ _
    rw [settled_concat h.le rfl, ← Bool.not_eq_true, List.contains_iff_mem, h.here]
    simp [Directive.toggles]
  | disableNextLine =>
    refine ⟨hle, fun d => ?_, h.mixed.trans settled_concat_next.symm, h.on⟩
    show d ∈ w.here ↔ _
    rw [h.here, List.mem_append, List.mem_singleton, Prod.mk.injEq]
    cases d <;> simp [Directive.toggles]

/-- Behind a text the watch stands on another line, unless the text has no line
break. -/
theorem Hears.read (h : Hears w line ds) {s : List Char} {line' : Nat}
    (hstay : s.any isLineBreak = false → line' = line)
    (hmove : s.any isLineBreak = true → ∀ d ∈ ds, d.1 < line') (hle : line ≤ line') :
    Hears (w.read s) line' ds := by
  have hread : (w.read s).here = keep w.here s ∧ (w.read s).mixed = w.mixed ∧
      (w.read s).on = w.on := by
    unfold Watch.read
    split <;> exact ⟨rfl, rfl, rfl⟩
  obtain ⟨hhere, hmixed, hon⟩ := hread
  refine ⟨fun d hd => Nat.le_trans (h.le d hd) hle, fun d => ?_, ?_, ?_⟩
  · rw [hhere, keep]
    split
    · next hbreak =>
      refine iff_of_false (List.not_mem_nil) fun hd => ?_
      have := hmove hbreak _ hd.2
      omega
    · next hbreak => rw [hstay (by simpa using hbreak), h.here]
  · rw [hmixed, h.mixed, settled_of_le h.le hle]
  · rw [hhere, hon, keep]
    split
    · rintro ⟨⟩
    · exact h.on

/-- A watch that goes over one more stretch hears its directive. -/
theorem hears_step {ss : List Stretch} {s : Stretch} (hwell : WellMarked (ss ++ [s]))
    (h : Hears w (1 + lineEnds false (stretchesText ss)) ((marks [] ss).map lined)) :
    Hears (w.step s) (1 + lineEnds false (stretchesText (ss ++ [s])))
      ((marks [] (ss ++ [s])).map lined) := by
  have hmarks : (marks [] (ss ++ [s])).map lined = (marks [] ss).map lined ++
      (s.directive?.map fun d => (1 + lineEnds false (stretchesText ss), d)).toList := by
    rw [marks_append, marks, marks, List.append_nil, List.map_append]
    cases s.directive? <;> rfl
  have hheard : Hears (w.hear s.directive?) (1 + lineEnds false (stretchesText ss))
      ((marks [] (ss ++ [s])).map lined) := by
    rw [hmarks]
    rcases s.directive? with - | d
    · simpa [Watch.hear] using h
    · exact h.hear d
  refine hheard.read (fun hnone => ?_) (fun hbreak d hd => ?_) ?_
  · rw [lineEnds_concat, lineEnds_eq_zero hnone, Nat.add_zero]
  · -- between a directive and the place behind the stretch there is a line break
    obtain ⟨m, hm, rfl⟩ := List.mem_map.1 hd
    obtain ⟨inner, r, hinner, htext⟩ := exists_of_mem_marks hwell hm
    have hbehind : ('/' :: r).any isLineBreak = true := by
      rcases mem_marks_concat.1 hm with hm | ⟨d, -, rfl⟩
      · obtain ⟨inner', r', hinner', htext'⟩ :=
          exists_of_mem_marks (wellMarked_append.1 hwell).1 hm
        obtain rfl : inner = inner' := by
          rw [← List.nil_append inner, ← hinner, hinner']; rfl
        rw [stretchesText_append, htext', List.append_assoc,
          List.append_cancel_left_eq] at htext
        rw [← htext, List.any_append, stretchesText_cons, stretchesText_nil,
          List.append_nil, hbreak, Bool.or_true]
      · obtain rfl : inner = stretchesText ss := by rw [← List.nil_append inner, ← hinner]
        rw [stretchesText_append, List.append_cancel_left_eq] at htext
        rw [← htext, stretchesText_cons, stretchesText_nil, List.append_nil, hbreak]
    have hpos := lineEnds_pos hbehind
    rw [lined, hinner, htext, List.nil_append, lineEnds_append,
      lineEnds_of_head (by decide)]
    show 1 + lineEnds false inner < _
    omega
  · rw [stretchesText_append]
    exact Nat.add_le_add_left (lineEnds_le_append _ _) 1

/-- A watch that has gone over a text has heard its directives. -/
theorem hears_across {ss : List Stretch} (h : WellMarked ss) :
    Hears (calm.across ss) (1 + lineEnds false (stretchesText ss))
      ((marks [] ss).map lined) := by
  induction ss using List.reverseRecOn with
  | nil => exact hears_calm
  | append_singleton ss s ih =>
    rw [across_append]
    exact hears_step h (ih (wellMarked_append.1 h).1)

/-! ### Clear watches -/

/-- Holds where no directive for the next line and none that closes a stretch
stands on the line, and the last line with directives that open or close a
stretch holds one kind only. -/
def isClear (w : Watch) : Bool := w.ends != 0 && !w.mixed && !w.here.contains .enable

theorem isClear_iff :
    w.isClear = true ↔ w.ends ≠ 0 ∧ w.mixed = false ∧ .enable ∉ w.here := by
  simp [isClear, and_assoc]

/-- Where the watch is clear and nothing is silenced, all is calm. -/
theorem eq_calm {ss : List Stretch} (h : Tracks w ss) (hears : Hears w line ds)
    (hclear : w.isClear = true) (hsilent : w.silences = false) : w = calm := by
  obtain ⟨hends, hmixed, henable⟩ := isClear_iff.1 hclear
  simp only [silences, Bool.or_eq_false_iff, beq_eq_false_iff_ne] at hsilent
  have hle := h.ends_le
  have htwo : w.ends = 2 := by omega
  have hhere : w.here = [] := by
    refine List.eq_nil_iff_forall_not_mem.2 fun d hd => ?_
    cases d with
    | disable => exact absurd (hears.on hd henable) (by simp [hsilent.1])
    | enable => exact henable hd
    | disableNextLine => cases ((hears.here _).1 hd).1
  obtain ⟨on, ends, cr, here, mixed⟩ := w
  obtain rfl : on = false := hsilent.1
  obtain rfl : ends = 2 := htwo
  obtain rfl : cr = false := h.cr_calm rfl
  obtain rfl : here = [] := hhere
  obtain rfl : mixed = false := hmixed
  rfl

/-- The lines of a call that holds no directive are settled, if the last line in
front of it with directives that open or close a stretch holds one kind only. -/
theorem settled_of_hears {before inner after : List Stretch}
    (hwell : WellMarked (before ++ (inner ++ after))) (hquiet : directives inner = [])
    (hmixed : (calm.across before).mixed = false)
    (hfirst : 1 + lineEnds false (stretchesText before) ≤ line)
    (hlast : line < 1 + lineEnds false (stretchesText (before ++ inner))) :
    Settled line ((marks [] (before ++ (inner ++ after))).map lined) := by
  have hears := hears_across (wellMarked_append.1 hwell).1
  obtain ⟨above, below, hsplit, rfl, -, hbelow⟩ := marks_around hwell hquiet
  rw [hsplit, settled_append fun d hd => Nat.lt_of_lt_of_le hlast (hbelow d hd),
    settled_of_le hears.le hfirst]
  exact hears.mixed.1 hmixed

end Watch

end AnimLint
