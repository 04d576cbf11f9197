/-
AnimLint/Proofs/Partition.lean

How a stretch of text is cut at the arguments of a call.  The arguments that lie
wholly before the stretch or wholly behind it do not count
(`piecesFrom_argumentsIn`).  Those that are left have to run forward between
character boundaries of the stretch, each behind the one before; then, and only
then, the stretch is cut (`isSome_piecesFrom_iff`).  The pieces are these
arguments in their order and the gaps that they leave, of which none is empty
and no two adjoin (`pieces_partition`).

Nothing is asked of the ranges of the arguments: they may be empty, inverted,
out of order, or end in the middle of a character or beyond the text.
-/
import Mathlib.Data.List.Chain
import AnimLint.Proofs.Nesting

namespace AnimLint

open Text

/-! ### The arguments that count -/

/-- The arguments that lie neither wholly before a stretch of text nor wholly
behind it. -/
def argumentsIn (bounds : Span) (arguments : List Span) : List Span :=
  arguments.filter fun a => ¬ a.Apart bounds

theorem argumentsIn_cons_of_apart {bounds a : Span} (h : a.Apart bounds)
    (arguments : List Span) :
    argumentsIn bounds (a :: arguments) = argumentsIn bounds arguments :=
  List.filter_cons_of_neg (by simpa using h)

theorem argumentsIn_cons_of_not_apart {bounds a : Span} (h : ¬ a.Apart bounds)
    (arguments : List Span) :
    argumentsIn bounds (a :: arguments) = a :: argumentsIn bounds arguments :=
  List.filter_cons_of_pos (by simpa using h)

theorem not_apart_of_mem_argumentsIn {bounds a : Span} {arguments : List Span}
    (h : a ∈ argumentsIn bounds arguments) : ¬ a.Apart bounds := by
  simpa using (List.mem_filter.1 h).2

section Cut

variable {source : List Char} {bounds : Span} {cursor : Nat}

/-- Only the arguments that count are looked at. -/
theorem piecesFrom_argumentsIn (source : List Char) (bounds : Span) (cursor : Nat)
    (arguments : List Span) :
    piecesFrom? source bounds cursor arguments =
      piecesFrom? source bounds cursor (argumentsIn bounds arguments) := by
  induction arguments generalizing cursor with
  | nil => rfl
  | cons arg rest ih =>
    by_cases hapart : arg.Apart bounds
    · rw [piecesFrom_cons_of_outside hapart, ih, argumentsIn_cons_of_apart hapart]
    · rw [argumentsIn_cons_of_not_apart hapart]
      refine Option.ext fun ps => ?_
      rw [piecesFrom_cons_eq_some hapart, piecesFrom_cons_eq_some hapart, ← ih]

/-- A gap between two character boundaries can be cut out. -/
theorem isSome_gapOf {start stop : Nat} (hstart : IsBoundary source start)
    (hstop : IsBoundary source stop) : (gapOf? source ⟨start, stop⟩).isSome = true := by
  rw [gapOf?]
  split
  · next hlt =>
    rw [Option.isSome_map, slice?_isSome_iff]
    exact ⟨Nat.le_of_lt hlt, hstart, hstop⟩
  · rfl

/-- A stretch is cut if the arguments in it are slices of the text that follow
one another inside it. -/
theorem isSome_piecesFrom_iff {arguments : List Span}
    (hkept : ∀ a ∈ arguments, ¬ a.Apart bounds)
    (hcursor : IsBoundary source cursor) (hstop : IsBoundary source bounds.stop) :
    (piecesFrom? source bounds cursor arguments).isSome = true ↔
      (∀ a ∈ arguments, cursor ≤ a.start ∧ a.stop ≤ bounds.stop ∧
        (slice? source a).isSome = true) ∧
        arguments.Pairwise fun a b => a.stop ≤ b.start := by
  induction arguments generalizing cursor with
  | nil => simpa [piecesFrom?] using isSome_gapOf hcursor hstop
  | cons arg rest ih =>
    have harg := hkept arg List.mem_cons_self
    have hrest := fun a ha => hkept a (List.mem_cons_of_mem arg ha)
    rw [List.pairwise_cons, Option.isSome_iff_exists]
    constructor
    · rintro ⟨ps, hps⟩
      obtain ⟨hstart, hend, before, text, after, -, htext, hafter, -⟩ :=
        (piecesFrom_cons_eq_some harg).1 hps
      have hslice : (slice? source arg).isSome = true := by rw [htext]; rfl
      obtain ⟨hle, -, hboundary⟩ := slice?_isSome_iff.1 hslice
      obtain ⟨hall, hpairwise⟩ := (ih hrest hboundary).1 (by rw [hafter]; rfl)
      refine ⟨fun a ha => ?_, fun a ha => (hall a ha).1, hpairwise⟩
      rcases List.mem_cons.1 ha with rfl | ha
      · exact ⟨hstart, hend, hslice⟩
      · exact ⟨by have := (hall a ha).1; omega, (hall a ha).2⟩
    · rintro ⟨hall, hahead, hpairwise⟩
      obtain ⟨hstart, hend, hslice⟩ := hall arg List.mem_cons_self
      obtain ⟨-, hfront, hback⟩ := slice?_isSome_iff.1 hslice
      obtain ⟨before, hbefore⟩ := Option.isSome_iff_exists.1 (isSome_gapOf hcursor hfront)
      obtain ⟨text, htext⟩ := Option.isSome_iff_exists.1 hslice
      obtain ⟨after, hafter⟩ := Option.isSome_iff_exists.1 ((ih hrest hback).2
        ⟨fun a ha => ⟨hahead a ha, (hall a (List.mem_cons_of_mem arg ha)).2⟩, hpairwise⟩)
      exact ⟨_, (piecesFrom_cons_eq_some harg).2
        ⟨hstart, hend, before, text, after, hbefore, htext, hafter, rfl⟩⟩

/-! ### The pieces -/

/-- Holds of gaps. -/
def Piece.isGap : Piece → Bool
  | .gap _ => true
  | .argument _ => false

/-- The text of an argument. -/
def Piece.argument? : Piece → Option (List Char)
  | .gap _ => none
  | .argument t => some t

/-- A gap that is cut out is one piece with some text, or there is no gap. -/
theorem gapOf_cases {span : Span} {ps : List Piece} (h : gapOf? source span = some ps) :
    ps = [] ∨ ∃ text, ps = [.gap text] ∧ text ≠ [] := by
  unfold gapOf? at h
  split at h
  · next hlt =>
    obtain ⟨text, htext, rfl⟩ := Option.map_eq_some_iff.1 h
    refine .inr ⟨text, rfl, ?_⟩
    rintro rfl
    have := byteLength_slice htext
    rw [byteLength_nil] at this
    omega
  · exact .inl (Option.some.inj h).symm

/-- No gap is empty and no two adjoin. -/
theorem gaps_of_piecesFrom {arguments : List Span} {ps : List Piece}
    (hkept : ∀ a ∈ arguments, ¬ a.Apart bounds)
    (h : piecesFrom? source bounds cursor arguments = some ps) :
    .gap [] ∉ ps ∧ ps.IsChain fun p q => ¬ (p.isGap = true ∧ q.isGap = true) := by
  induction arguments generalizing cursor ps with
  | nil =>
    rcases gapOf_cases h with rfl | ⟨text, rfl, htext⟩
    · exact ⟨List.not_mem_nil, .nil⟩
    · refine ⟨fun hempty => htext ?_, .singleton _⟩
      exact (Piece.gap.inj (List.mem_singleton.1 hempty)).symm
  | cons arg rest ih =>
    obtain ⟨-, -, before, argument, after, hbefore, -, hafter, rfl⟩ :=
      (piecesFrom_cons_eq_some (hkept arg List.mem_cons_self)).1 h
    obtain ⟨hnone, hchain⟩ :=
      ih (fun a ha => hkept a (List.mem_cons_of_mem arg ha)) hafter
    have hbehind : (.argument argument :: after).IsChain
        fun p q : Piece => ¬ (p.isGap = true ∧ q.isGap = true) := by
      refine List.isChain_cons.2 ⟨fun q _ hboth => ?_, hchain⟩
      cases hboth.1
    rcases gapOf_cases hbefore with rfl | ⟨text, rfl, htext⟩
    · exact ⟨by simpa using hnone, hbehind⟩
    · refine ⟨?_, List.isChain_cons.2 ⟨fun q hq hboth => ?_, hbehind⟩⟩
      · simpa [hnone] using Ne.symm htext
      · obtain rfl := Option.some.inj hq
        cases hboth.2

/-- The arguments among the pieces are those of the stretch, in their order. -/
theorem arguments_of_piecesFrom {arguments : List Span} {ps : List Piece}
    (hkept : ∀ a ∈ arguments, ¬ a.Apart bounds)
    (h : piecesFrom? source bounds cursor arguments = some ps) :
    (ps.filterMap Piece.argument?).map some = arguments.map (slice? source) := by
  have hgap {span : Span} {before : List Piece} (h : gapOf? source span = some before) :
      before.filterMap Piece.argument? = [] := by
    rcases gapOf_cases h with rfl | ⟨text, rfl, -⟩ <;> rfl
  induction arguments generalizing cursor ps with
  | nil => rw [hgap h]; rfl
  | cons arg rest ih =>
    obtain ⟨-, -, before, argument, after, hbefore, hargument, hafter, rfl⟩ :=
      (piecesFrom_cons_eq_some (hkept arg List.mem_cons_self)).1 h
    have hrest := ih (fun a ha => hkept a (List.mem_cons_of_mem arg ha)) hafter
    rw [List.filterMap_append, hgap hbefore, List.nil_append, List.filterMap_cons,
      List.map_cons, ← hrest, hargument]
    rfl

end Cut

/-! ### The whole stretch -/

/-- **The pieces partition a zone.**  The pieces of a slice of a text spell the
slice.  No gap among them is empty and no two gaps adjoin, and the arguments
among them are the texts of the arguments that lie neither wholly before the
slice nor wholly behind it, in their order.  There are no pieces if, and only
if, one of these arguments reaches over an end of the slice, is inverted, starts
or ends inside a character, or starts before an earlier one ends. -/
theorem pieces_partition {source text : List Char} {bounds : Span}
    (h : slice? source bounds = some text) (arguments : List Span) :
    (∀ ps, pieces? source arguments bounds = some ps →
      ps.flatMap Piece.text = text ∧ .gap [] ∉ ps ∧
        (ps.IsChain fun p q => ¬ (p.isGap = true ∧ q.isGap = true)) ∧
        (ps.filterMap Piece.argument?).map some =
          (argumentsIn bounds arguments).map (slice? source)) ∧
      (pieces? source arguments bounds = none ↔
        (∃ a ∈ argumentsIn bounds arguments, a.start < bounds.start ∨
          bounds.stop < a.stop ∨
          a.stop < a.start ∨ ¬ IsBoundary source a.start ∨ ¬ IsBoundary source a.stop) ∨
        ∃ a b, [a, b].Sublist (argumentsIn bounds arguments) ∧ b.start < a.stop) := by
  have hkept : ∀ a ∈ argumentsIn bounds arguments, ¬ a.Apart bounds :=
    fun a ha => not_apart_of_mem_argumentsIn ha
  obtain ⟨hle, hstart, hstop⟩ :=
    slice?_isSome_iff.1 (by rw [h]; rfl : (slice? source bounds).isSome = true)
  rw [pieces?, piecesFrom_argumentsIn]
  constructor
  · intro ps hps
    have hspelled := slice_piecesFrom hps (slice?_self_iff.2 hstart) hle
    rw [h] at hspelled
    obtain ⟨hnone, hchain⟩ := gaps_of_piecesFrom hkept hps
    exact ⟨(Option.some.inj hspelled).symm, hnone, hchain,
      arguments_of_piecesFrom hkept hps⟩
  · rw [← Option.not_isSome_iff_eq_none, isSome_piecesFrom_iff hkept hstart hstop,
      not_and_or]
    refine or_congr ?_ ?_
    · simp only [slice?_isSome_iff, not_forall, exists_prop]
      refine exists_congr fun a => and_congr_right fun _ => ?_
      rw [not_and_or, not_and_or, not_and_or, not_and_or, Nat.not_le, Nat.not_le,
        Nat.not_le]
    · rw [List.pairwise_iff_forall_sublist]
      simp only [not_forall, exists_prop, Nat.not_le]

/-- The arguments `b` and `{}` are in the stretch, the one in front of it does
not count, and neither does one that is inverted behind its end. -/
theorem pieces_partition_twoArguments :
    let source := "f(a, b,\n {}, é)".toList
    let arguments : List Span := [⟨2, 3⟩, ⟨5, 6⟩, ⟨9, 11⟩, ⟨14, 12⟩]
    slice? source ⟨4, 12⟩ = some " b,\n {},".toList ∧
      (∀ ps, pieces? source arguments ⟨4, 12⟩ = some ps →
        ps.flatMap Piece.text = " b,\n {},".toList ∧ .gap [] ∉ ps ∧
          (ps.IsChain fun p q => ¬ (p.isGap = true ∧ q.isGap = true)) ∧
          (ps.filterMap Piece.argument?).map some =
            (argumentsIn ⟨4, 12⟩ arguments).map (slice? source)) ∧
        (pieces? source arguments ⟨4, 12⟩ = none ↔
          (∃ a ∈ argumentsIn ⟨4, 12⟩ arguments, a.start < 4 ∨ 12 < a.stop ∨
            a.stop < a.start ∨ ¬ IsBoundary source a.start ∨ ¬ IsBoundary source a.stop) ∨
          ∃ a b, [a, b].Sublist (argumentsIn ⟨4, 12⟩ arguments) ∧ b.start < a.stop) := by
  intro source arguments
  have hslice : slice? source ⟨4, 12⟩ = some " b,\n {},".toList := by decide
  exact ⟨hslice, pieces_partition hslice arguments⟩

end AnimLint
