/-
AnimLint/Proofs/Filling.lean

What a call is reported for when one of its arguments is left open.  The text
around the argument stays and any text that is not empty may stand in its place
(`Hole`); the ranges of the call behind it move along (`Hole.moveCall`).
Nothing that is asked about the call looks into the argument: the `(` is found
in front of it (`Hole.exists_paren`), a zone has it as one piece or not at all
(`Hole.exists_pieces`), breaks and comments are looked for in gaps, and joining
lines copies it (`Framed.fill_joined`).  So the violations are the same for
every filling, up to the filling itself (`Hole.exists_violations`).
-/
import AnimLint.Proofs.Nesting
import AnimLint.Proofs.Relocation
import AnimLint.Proofs.ZoneShape

namespace AnimLint

open Text

/-! ### Texts with an open part -/

/-- A text with one of its parts marked, to be filled anew. -/
structure Hole where
  before : List Char
  old : List Char
  after : List Char

namespace Hole

variable (h : Hole)

/-- The text with something in the place of the marked part. -/
def fill (x : List Char) : List Char := h.before ++ (x ++ h.after)

/-- The range of the marked part. -/
def span : Span := ⟨byteLength h.before, byteLength h.before + byteLength h.old⟩

/-- Holds of places beside the marked part. -/
def Beside (n : Nat) : Prop :=
  n ≤ byteLength h.before ∨ byteLength h.before + byteLength h.old ≤ n

/-- Where a place beside the marked part lies once the part is replaced. -/
def move (x : List Char) (n : Nat) : Nat :=
  if n ≤ byteLength h.before then n else n + byteLength x - byteLength h.old

/-- Where a span lies once the marked part is replaced. -/
def moveSpan (x : List Char) (a : Span) : Span := a.placed (h.move x)

/-- Where a call lies once the marked part is replaced. -/
def moveCall (x : List Char) (call : Call) : Call := call.placed (h.move x)

/-- A place behind the marked part, counted from its end. -/
def beyond (n : Nat) : Nat := n - (byteLength h.before + byteLength h.old)

/-- A span behind the marked part, counted from its end. -/
def beyondSpan (a : Span) : Span := ⟨h.beyond a.start, h.beyond a.stop⟩

variable {h} {x : List Char}

@[simp] theorem move_old (n : Nat) : h.move h.old n = n := by
  unfold move
  split <;> omega

theorem move_old_eq_id : h.move h.old = id := funext move_old

@[simp] theorem moveSpan_old (a : Span) : h.moveSpan h.old a = a := by
  rw [moveSpan, move_old_eq_id, Span.placed_id, id]

@[simp] theorem moveCall_old (call : Call) : h.moveCall h.old call = call := by
  rw [moveCall, move_old_eq_id, Call.placed_id]

theorem move_of_le {n : Nat} (hn : n ≤ byteLength h.before) : h.move x n = n := if_pos hn

theorem moveSpan_of_le {a : Span} (hstart : a.start ≤ byteLength h.before)
    (hstop : a.stop ≤ byteLength h.before) : h.moveSpan x a = a := by
  rw [moveSpan, Span.placed, move_of_le hstart, move_of_le hstop]

section Filled

variable (hold : h.old ≠ [])

include hold

theorem move_of_ge {n : Nat} (hn : byteLength h.before + byteLength h.old ≤ n) :
    h.move x n = byteLength h.before + byteLength x + h.beyond n := by
  have hpos := mt byteLength_eq_zero.1 hold
  rw [move, if_neg (by omega), beyond]
  omega

theorem moveSpan_of_ge {a : Span}
    (hstart : byteLength h.before + byteLength h.old ≤ a.start)
    (hstop : byteLength h.before + byteLength h.old ≤ a.stop) :
    h.moveSpan x a = (h.beyondSpan a).shift (byteLength (h.before ++ x)) := by
  rw [moveSpan, Span.placed, move_of_ge hold hstart, move_of_ge hold hstop,
    byteLength_append]
  rfl

theorem moveSpan_span :
    h.moveSpan x h.span = ⟨byteLength h.before, byteLength h.before + byteLength x⟩ := by
  rw [moveSpan, Span.placed, span, move_of_le (Nat.le_refl _),
    move_of_ge hold (Nat.le_refl _), beyond]
  simp

/-- Places beside the marked part keep their order. -/
theorem move_le_iff (hx : x ≠ []) {m n : Nat}
    (hm : h.Beside m) (hn : h.Beside n) :
    h.move x m ≤ h.move x n ↔ m ≤ n := by
  have hpos := mt byteLength_eq_zero.1 hold
  have hpos' := mt byteLength_eq_zero.1 hx
  rw [Beside] at hm hn
  unfold move
  split <;> split <;> omega

end Filled

/-! ### Slices beside and around the marked part -/

theorem slice_before {a : Span} (ha : a.stop ≤ byteLength h.before) :
    slice? (h.fill x) a = slice? h.before a :=
  slice?_append_left ha _

theorem slice_after (a b : Nat) :
    slice? (h.fill x) ⟨byteLength (h.before ++ x) + a, byteLength (h.before ++ x) + b⟩ =
      slice? h.after ⟨a, b⟩ := by
  rw [fill, ← List.append_assoc, slice?_append_right]

theorem slice_around {a : Nat} (ha : a ≤ byteLength h.before) (b : Nat) :
    slice? (h.fill x) ⟨a, byteLength (h.before ++ x) + b⟩ =
      (splitAt? a h.before).bind fun front =>
        (splitAt? b h.after).map fun back => front.2 ++ (x ++ back.1) := by
  have hle : a ≤ byteLength (h.before ++ x) + b := by
    rw [byteLength_append]
    omega
  rw [slice?, if_pos hle, fill, splitAt?_append_of_le ha]
  rcases hfront : splitAt? a h.before with - | ⟨front, mid⟩
  · rfl
  · obtain ⟨hbefore, hfront⟩ := append_of_splitAt? hfront
    have hwide : byteLength (h.before ++ x) + b - a = byteLength (mid ++ x) + b := by
      rw [hbefore]
      simp only [byteLength_append]
      omega
    simp only [Option.map_some, Option.bind_eq_bind, Option.bind_some, hwide,
      ← List.append_assoc mid, splitAt?_append_add]
    rcases splitAt? b h.after <;> simp

end Hole

/-! ### What surrounds a filling -/

/-- A row with or without the filling in it. -/
inductive Framed (α : Type)
  | closed (l : List α)
  | around (left right : List α)

namespace Framed

variable {α : Type}

/-- The row for a filling. -/
def fill (x : List α) : Framed α → List α
  | closed l => l
  | around left right => left ++ (x ++ right)

/-- Holds if a row that belongs to a span has the filling in it where the span
covers the marked part. -/
def Fits (h : Hole) (a : Span) : Framed α → Prop
  | closed _ => a.Apart h.span
  | around _ _ => h.span.Within a

end Framed

/-! ### Pieces -/

/-- Arguments behind the bounds are passed over. -/
theorem piecesFrom_later {source : List Char} {bounds : Span} {later : List Span}
    (hlater : ∀ a ∈ later, bounds.stop ≤ a.start) (cursor : Nat) (arguments : List Span) :
    piecesFrom? source bounds cursor (arguments ++ later) =
      piecesFrom? source bounds cursor arguments := by
  induction arguments generalizing cursor with
  | nil =>
    have hskip :=
      Script.Tree.piecesFrom_skip source cursor [] fun a ha => Or.inr (hlater a ha)
    rw [List.append_nil] at hskip
    exact hskip
  | cons a rest ih => simp only [List.cons_append, piecesFrom?, ih]

namespace Hole

/-- What the marked part of a text is to a call: one of its arguments, behind
the `(` and in front of the `)`, neither the first nor the last of the objects,
and no part of the callee. -/
structure Opens (h : Hole) (call : Call) (config : Span) : Prop where
  old : h.old ≠ []
  arguments : ∃ front back, call.arguments = front ++ h.span :: back ∧
    (∀ a ∈ front, a.start < a.stop ∧ a.stop ≤ byteLength h.before) ∧
    ∀ a ∈ back, byteLength h.before + byteLength h.old ≤ a.start ∧ a.start < a.stop
  start : call.span.start ≤ byteLength h.before
  callee : call.callee.start ≤ call.callee.stop ∧ call.callee.Apart h.span
  argsFrom : call.argsFrom ≤ byteLength h.before
  paren : ∀ front mid, splitAt? call.argsFrom h.before = some (front, mid) → '(' ∈ mid
  closing : ∃ n, call.span.stop = byteLength h.before + byteLength h.old + n + 1 ∧
    slice? h.after ⟨n, n + 1⟩ = some [')']
  object : call.config = some config
  forward : config.start ≤ config.stop
  configStart : h.Beside config.start
  configStop : h.Beside config.stop

variable {h : Hole}

/-- The pieces of a stretch that covers the marked part. -/
theorem exists_piecesFrom_around (hold : h.old ≠ []) (stop : Nat) {start : Nat}
    (hstart : start ≤ byteLength h.before) {front back : List Span}
    (hfront : ∀ a ∈ front, a.start < a.stop ∧ a.stop ≤ byteLength h.before)
    (hback : ∀ a ∈ back, 0 < a.stop) {cursor : Nat}
    (hcursor : cursor ≤ byteLength h.before) :
    ∃ frame : Option (List Piece × List Piece), ∀ x ≠ [],
      piecesFrom? (h.fill x) ⟨start, byteLength (h.before ++ x) + stop⟩ cursor
          (front ++ h.moveSpan x h.span ::
            back.map (Span.shift (byteLength (h.before ++ x)))) =
        frame.map fun f => f.1 ++ ([.argument x] ++ f.2) := by
  induction front generalizing cursor with
  | nil =>
    -- the gap in front of the argument, the argument, and what stands behind it
    refine ⟨(gapOf? h.before ⟨cursor, byteLength h.before⟩).bind fun p =>
      (piecesFrom? h.after ⟨0, stop⟩ 0 back).map fun q => (p, q), fun x hx => ?_⟩
    have hpos := mt byteLength_eq_zero.1 hx
    have hgap : gapOf? (h.fill x) ⟨cursor, byteLength h.before⟩ =
        gapOf? h.before ⟨cursor, byteLength h.before⟩ :=
      gapOf_append_left (Nat.le_refl _) _
    have hslice :
        slice? (h.fill x) ⟨byteLength h.before, byteLength h.before + byteLength x⟩ =
        some x := slice?_mid _ _ _
    have hrest : piecesFrom? (h.fill x) ⟨start, byteLength (h.before ++ x) + stop⟩
        (byteLength h.before + byteLength x)
        (back.map (Span.shift (byteLength (h.before ++ x)))) =
          piecesFrom? h.after ⟨0, stop⟩ 0 back := by
      have hbounds : ∀ a ∈ back, byteLength (h.before ++ x) + a.stop ≤ start ↔
          a.stop ≤ (⟨0, stop⟩ : Span).start := by
        intro a ha
        have := hback a ha
        simp only [byteLength_append]
        omega
      rw [fill, ← List.append_assoc, ← byteLength_append]
      exact piecesFrom_append_right (h.before ++ x) h.after 0 hbounds
    rw [moveSpan_span hold, List.nil_append, piecesFrom?, if_neg, if_neg, hgap,
      hslice, hrest]
    · rcases gapOf? h.before ⟨cursor, byteLength h.before⟩ with - | p
      · rfl
      · rcases piecesFrom? h.after ⟨0, stop⟩ 0 back <;> rfl
    · simp only [byteLength_append, Bool.or_eq_true, decide_eq_true_eq, not_or]
      omega
    · simp only [byteLength_append, Bool.or_eq_true, decide_eq_true_eq, not_or]
      omega
  | cons a front ih =>
    obtain ⟨hne, ha⟩ := hfront a List.mem_cons_self
    have hrest : ∀ a ∈ front, a.start < a.stop ∧ a.stop ≤ byteLength h.before :=
      fun b hb => hfront b (List.mem_cons_of_mem a hb)
    have hunder (x : List Char) : ¬ byteLength (h.before ++ x) + stop ≤ a.start ∧
        ¬ byteLength (h.before ++ x) + stop < a.stop := by
      rw [byteLength_append]
      omega
    have hkept (x : List Char) (hpassed : ¬ a.stop ≤ start) :
        ¬ (decide (a.stop ≤ start) ||
          decide (byteLength (h.before ++ x) + stop ≤ a.start)) = true := by
      simp only [Bool.or_eq_true, decide_eq_true_eq, not_or]
      exact ⟨hpassed, (hunder x).1⟩
    by_cases hpassed : a.stop ≤ start
    · obtain ⟨frame, hframe⟩ := ih hrest hcursor
      refine ⟨frame, fun x hx => ?_⟩
      rw [List.cons_append, piecesFrom?, if_pos (by simp [hpassed]), hframe x hx]
    · by_cases hcut : a.start < cursor
      · refine ⟨none, fun x hx => ?_⟩
        rw [List.cons_append, piecesFrom?, if_neg (hkept x hpassed),
          if_pos (by simp [hcut])]
        rfl
      · obtain ⟨frame, hframe⟩ := ih hrest ha
        refine ⟨(gapOf? h.before ⟨cursor, a.start⟩).bind fun gap =>
          (slice? h.before a).bind fun argument =>
            frame.map fun f => (gap ++ .argument argument :: f.1, f.2), fun x hx => ?_⟩
        have hgap : gapOf? (h.fill x) ⟨cursor, a.start⟩ =
            gapOf? h.before ⟨cursor, a.start⟩ :=
          gapOf_append_left (by omega) _
        have hwhole : ¬ (decide (a.start < cursor) ||
            decide (byteLength (h.before ++ x) + stop < a.stop)) = true := by
          simp only [Bool.or_eq_true, decide_eq_true_eq, not_or]
          exact ⟨hcut, (hunder x).2⟩
        rw [List.cons_append, piecesFrom?, if_neg (hkept x hpassed), if_neg hwhole, hgap,
          slice_before ha, hframe x hx]
        rcases gapOf? h.before ⟨cursor, a.start⟩ with - | gap
        · rfl
        · rcases slice? h.before a with - | argument
          · rfl
          · rcases frame <;> simp

end Hole

/-! ### Zones -/

namespace Hole

variable {h : Hole} {call : Call} {config : Span}

/-- The ranges of the arguments for a filling. -/
theorem moveCall_arguments (hold : h.old ≠ []) {front back : List Span}
    (harguments : call.arguments = front ++ h.span :: back)
    (hfront : ∀ a ∈ front, a.start < a.stop ∧ a.stop ≤ byteLength h.before)
    (hback : ∀ a ∈ back, byteLength h.before + byteLength h.old ≤ a.start ∧
      a.start < a.stop)
    (x : List Char) :
    (h.moveCall x call).arguments = front ++ h.moveSpan x h.span ::
      (back.map h.beyondSpan).map (Span.shift (byteLength (h.before ++ x))) := by
  have hfrontSame : front.map (h.moveSpan x) = front := by
    refine (List.map_congr_left fun a ha => ?_).trans (List.map_id front)
    have := hfront a ha
    exact moveSpan_of_le (by omega) (by omega)
  have hbackSame : back.map (h.moveSpan x) =
      (back.map h.beyondSpan).map (Span.shift (byteLength (h.before ++ x))) := by
    rw [List.map_map]
    refine List.map_congr_left fun a ha => ?_
    have := hback a ha
    exact moveSpan_of_ge hold (by omega) (by omega)
  show call.arguments.map (h.moveSpan x) = _
  rw [harguments, List.map_append, List.map_cons, hfrontSame, hbackSame]

/-- Whether bounds beside or around the marked part are cut into pieces, and
into which, does not depend on the filling. -/
theorem exists_pieces (ho : h.Opens call config) {bounds : Span}
    (hstart : h.Beside bounds.start)
    (hstop : h.Beside bounds.stop) (hforward : bounds.start ≤ bounds.stop) :
    ∃ frame : Option (Framed Piece), (∀ f ∈ frame, f.Fits h bounds) ∧ ∀ x ≠ [],
      ((slice? (h.fill x) (h.moveSpan x bounds)).bind fun _ =>
        pieces? (h.fill x) (h.moveCall x call).arguments (h.moveSpan x bounds)) =
          frame.map (·.fill [.argument x]) := by
  have hold := mt byteLength_eq_zero.1 ho.old
  obtain ⟨front, back, harguments, hfront, hback⟩ := ho.arguments
  have hmoved := moveCall_arguments ho.old harguments hfront hback
  have hbeyond : ∀ a ∈ back.map h.beyondSpan, 0 < a.stop := by
    intro a ha
    obtain ⟨b, hb, rfl⟩ := List.mem_map.1 ha
    have := hback b hb
    simp only [beyondSpan, beyond]
    omega
  rcases hstop with hstop | hstop
  · -- in front of the marked part
    refine ⟨(slice? h.before bounds).bind fun _ =>
      (piecesFrom? h.before bounds bounds.start front).map .closed, ?_, fun x hx => ?_⟩
    · intro f hf
      obtain ⟨-, -, hf⟩ := Option.bind_eq_some_iff.1 hf
      obtain ⟨ps, -, rfl⟩ := Option.map_eq_some_iff.1 hf
      exact .inl hstop
    · have hsame : h.moveSpan x bounds = bounds := moveSpan_of_le (by omega) hstop
      have hlater : ∀ a ∈ h.moveSpan x h.span ::
          (back.map h.beyondSpan).map (Span.shift (byteLength (h.before ++ x))),
          bounds.stop ≤ a.start := by
        intro a ha
        rw [moveSpan_span ho.old] at ha
        rcases List.mem_cons.1 ha with rfl | ha
        · exact hstop
        · obtain ⟨b, -, rfl⟩ := List.mem_map.1 ha
          simp only [Span.shift_start, byteLength_append]
          omega
      have hpieces : pieces? (h.fill x) (h.moveCall x call).arguments bounds =
          piecesFrom? h.before bounds bounds.start front := by
        rw [pieces?, hmoved, piecesFrom_later hlater]
        exact piecesFrom_append_left hstop _ _ _
      rw [hsame, slice_before hstop, hpieces]
      rcases slice? h.before bounds with - | text
      · rfl
      · rcases piecesFrom? h.before bounds bounds.start front <;> rfl
  rcases hstart with hstart | hstart
  · -- around the marked part
    obtain ⟨frame, hframe⟩ :=
      exists_piecesFrom_around ho.old (h.beyond bounds.stop) hstart hfront
      hbeyond hstart
    refine ⟨((splitAt? bounds.start h.before).bind fun _ =>
      splitAt? (h.beyond bounds.stop) h.after).bind
      fun _ => frame.map fun f => .around f.1 f.2, ?_, fun x hx => ?_⟩
    · intro f hf
      obtain ⟨-, -, hf⟩ := Option.bind_eq_some_iff.1 hf
      obtain ⟨ps, -, rfl⟩ := Option.map_eq_some_iff.1 hf
      exact ⟨hstart, hstop⟩
    · have hsame : h.moveSpan x bounds =
          ⟨bounds.start, byteLength (h.before ++ x) + h.beyond bounds.stop⟩ := by
        rw [moveSpan, Span.placed, move_of_le hstart, move_of_ge ho.old hstop,
          byteLength_append]
      rw [hsame, slice_around hstart, pieces?, hmoved, hframe x hx]
      rcases splitAt? bounds.start h.before with - | cut
      · rfl
      · rcases splitAt? (h.beyond bounds.stop) h.after with - | cut'
        · rfl
        · rcases frame <;> rfl
  · -- behind the marked part
    refine ⟨(slice? h.after (h.beyondSpan bounds)).bind fun _ =>
      (piecesFrom? h.after (h.beyondSpan bounds) (h.beyond bounds.start)
        (back.map h.beyondSpan)).map .closed, ?_, fun x hx => ?_⟩
    · intro f hf
      obtain ⟨-, -, hf⟩ := Option.bind_eq_some_iff.1 hf
      obtain ⟨ps, -, rfl⟩ := Option.map_eq_some_iff.1 hf
      exact .inr hstart
    · have hsame := moveSpan_of_ge (x := x) ho.old hstart hstop
      have hearlier : ∀ a ∈ front ++ [h.moveSpan x h.span],
          a.stop ≤ (h.moveSpan x bounds).start ∨
          (h.moveSpan x bounds).stop ≤ a.start := by
        intro a ha
        left
        rw [hsame, moveSpan_span ho.old] at *
        simp only [Span.shift_start, byteLength_append]
        rcases List.mem_append.1 ha with ha | ha
        · have := hfront a ha
          omega
        · rw [List.mem_singleton.1 ha]
          simp only
          omega
      have hpieces : pieces? (h.fill x) (h.moveCall x call).arguments
          (h.moveSpan x bounds) =
          piecesFrom? h.after (h.beyondSpan bounds) (h.beyond bounds.start)
            (back.map h.beyondSpan) := by
        rw [pieces?, hmoved, ← List.singleton_append, ← List.append_assoc,
          Script.Tree.piecesFrom_skip _ _ _ hearlier, hsame, fill, ← List.append_assoc]
        exact piecesFrom_append_right (h.before ++ x) h.after (h.beyond bounds.start)
          fun a _ => Nat.add_le_add_iff_left
      rw [hpieces, hsame]
      have hslice :=
        slice_after (h := h) (x := x) (h.beyond bounds.start) (h.beyond bounds.stop)
      simp only [Span.shift, Span.placed, beyondSpan, hslice]
      rcases slice? h.after ⟨h.beyond bounds.start, h.beyond bounds.stop⟩ with - | text
      · rfl
      · rcases piecesFrom? h.after ⟨h.beyond bounds.start, h.beyond bounds.stop⟩
          (h.beyond bounds.start) (back.map h.beyondSpan) <;> rfl

/-! ### The zones of a call -/

/-- Where the `(` is found does not depend on the filling. -/
theorem exists_paren (ho : h.Opens call config) :
    ∃ found : Option Nat, (∀ skip ∈ found, call.argsFrom + skip ≤ byteLength h.before) ∧
      ∀ x, ((slice? (h.fill x) ⟨call.argsFrom, h.move x config.start⟩).bind
        afterParen?) = found := by
  rcases ho.configStart with hstart | hstart
  · refine ⟨(slice? h.before ⟨call.argsFrom, config.start⟩).bind afterParen?,
      ?_, fun x => ?_⟩
    · intro skip hskip
      obtain ⟨between, hbetween, hskip⟩ := Option.bind_eq_some_iff.1 hskip
      obtain ⟨front, rest, rfl, rfl⟩ := exists_of_afterParen hskip
      have hwidth := byteLength_slice hbetween
      have hone : ('(' : Char).utf8Size = 1 := rfl
      simp only [byteLength_append, byteLength_cons, hone] at hwidth
      omega
    · rw [move_of_le hstart, slice_before hstart]
  · rcases hfront : splitAt? call.argsFrom h.before with - | ⟨front, mid⟩
    · refine ⟨none, by simp, fun x => ?_⟩
      rw [move_of_ge ho.old hstart, ← byteLength_append, slice_around ho.argsFrom, hfront]
      rfl
    · rcases hback : splitAt? (h.beyond config.start) h.after with - | ⟨back, rest⟩
      · refine ⟨none, by simp, fun x => ?_⟩
        rw [move_of_ge ho.old hstart, ← byteLength_append, slice_around ho.argsFrom,
          hfront]
        simp [hback]
      · obtain ⟨skip, hle, hskip⟩ := afterParen_of_mem (ho.paren front mid hfront)
        refine ⟨some skip, ?_, fun x => ?_⟩
        · obtain ⟨hbefore, hwidth⟩ := append_of_splitAt? hfront
          rintro _ ⟨⟩
          rw [hbefore, byteLength_append]
          omega
        · rw [move_of_ge ho.old hstart, ← byteLength_append,
            slice_around ho.argsFrom, hfront]
          simp [hback, hskip]

/-- All fillings hold the call alike. -/
theorem alike (ho : h.Opens call config) :
    Alike (fun x : { x : List Char // x ≠ [] } => h.fill x) (fun x => h.move x)
      (fun x => Framed.fill [.argument x.1]) h.Beside (Framed.Fits h) call config where
  le_iff x _ _ hm hn := move_le_iff ho.old x.2 hm hn
  start := .inl ho.start
  stop := by
    obtain ⟨n, hstop, -⟩ := ho.closing
    exact .inr (by omega)
  configStart := ho.configStart
  configStop := ho.configStop
  pieces hstart hstop hforward _ := by
    obtain ⟨frame, hfits, hframe⟩ := exists_pieces ho hstart hstop hforward
    exact ⟨frame, hfits, fun x => hframe x x.2⟩
  paren _ := by
    obtain ⟨found, hskip, hfound⟩ := exists_paren ho
    refine ⟨found.map (call.argsFrom + ·), fun n hn => ?_, fun x => ?_⟩
    · obtain ⟨skip, hfind, rfl⟩ := Option.map_eq_some_iff.1 hn
      exact .inl (hskip skip hfind)
    · rw [move_of_le ho.argsFrom, hfound, Option.map_map]
      refine Option.map_congr fun skip hfind => ?_
      exact (move_of_le (hskip skip hfind)).symm
  closing _ := by
    obtain ⟨n, hstop, hclosing⟩ := ho.closing
    have hbehind : byteLength h.before + byteLength h.old ≤ call.span.stop - 1 := by omega
    refine .inr ⟨.inr hbehind, fun x => ?_⟩
    have hend : h.move x call.span.stop = byteLength (h.before ++ x) + (n + 1) := by
      rw [move_of_ge ho.old (by omega), beyond, byteLength_append]
      omega
    have hlast : h.move x (call.span.stop - 1) = byteLength (h.before ++ x) + n := by
      rw [move_of_ge ho.old hbehind, beyond, byteLength_append]
      omega
    rw [hend, hlast]
    exact ⟨(slice_after n (n + 1)).trans hclosing, rfl⟩

/-- The zones of a call do not depend on the filling. -/
theorem exists_zones (ho : h.Opens call config) :
    ∃ plans : List (ZonePlan (Framed Piece)), (∀ p ∈ plans, p.pieces.Fits h p.span) ∧
      ∀ x ≠ [], zones (h.fill x) (h.moveCall x call) =
        plans.map (·.zone (h.move x) (Framed.fill [.argument x])) := by
  obtain ⟨plans, hfits, hplans⟩ := (alike ho).exists_zones ho.object
  exact ⟨plans, hfits, fun x hx => hplans ⟨x, hx⟩⟩

end Hole

/-! ### Violations -/

/-- A violation with the filling left out. -/
structure HoledViolation where
  side : Side
  span : Span
  zoneText : Framed Char
  edit : Option (Framed Char)

/-- The violation for a filling. -/
def HoledViolation.fill (h : Hole) (x : List Char) (v : HoledViolation) : Violation where
  side := v.side
  span := h.moveSpan x v.span
  zoneText := v.zoneText.fill x
  edit := v.edit.map fun text => ⟨h.moveSpan x v.span, text.fill x⟩

/-- The text of a row of pieces. -/
def Framed.spelled : Framed Piece → Framed Char
  | closed ps => closed (ps.flatMap Piece.text)
  | around p q => around (p.flatMap Piece.text) (q.flatMap Piece.text)

theorem Framed.fill_spelled (ps : Framed Piece) (x : List Char) :
    ps.spelled.fill x = (ps.fill [.argument x]).flatMap Piece.text := by
  cases ps <;> simp [spelled, fill, Piece.text]

/-- A row of pieces on one line. -/
def Framed.joined (side : Side) : Framed Piece → Framed Char
  | closed ps => closed (compactPieces side ps)
  | around p q =>
    match side with
    | .leading => around (compactLeading p) (q.flatMap Piece.compact)
    | .trailing => around (p.flatMap Piece.compact) (compactTrailing q)

theorem compactLeading_around (p q : List Piece) (x : List Char) :
    compactLeading (p ++ .argument x :: q) =
      compactLeading p ++ (x ++ q.flatMap Piece.compact) := by
  rcases p with - | ⟨t | t, p⟩ <;> simp [compactLeading, Piece.compact]

theorem compactTrailing_around (p q : List Piece) (x : List Char) :
    compactTrailing (p ++ .argument x :: q) =
      p.flatMap Piece.compact ++ (x ++ compactTrailing q) := by
  induction p with
  | nil => rfl
  | cons piece p ih =>
    have hne : p ++ .argument x :: q ≠ [] := by simp
    have hstep : compactTrailing (piece :: (p ++ .argument x :: q)) =
        piece.compact ++ compactTrailing (p ++ .argument x :: q) := by
      rcases hp : p ++ .argument x :: q with - | ⟨r, rest⟩
      · exact absurd hp hne
      · cases piece <;> rfl
    rw [List.cons_append, hstep, ih, List.flatMap_cons, List.append_assoc]

theorem Framed.fill_joined (side : Side) (ps : Framed Piece) (x : List Char) :
    (ps.joined side).fill x = compactPieces side (ps.fill [.argument x]) := by
  cases ps with
  | closed ps => rfl
  | around p q =>
    cases side with
    | leading => exact (compactLeading_around p q x).symm
    | trailing => exact (compactTrailing_around p q x).symm

/-- The violation that a zone is, for every filling. -/
def HoledViolation.ofPlan? (plan : ZonePlan (Framed Piece)) : Option HoledViolation :=
  if piecesBreak (plan.pieces.fill []) then
    some {
      side := plan.side
      span := plan.span
      zoneText := plan.pieces.spelled
      edit := if piecesComment (plan.pieces.fill []) then none
        else some (plan.pieces.joined plan.side) }
  else none

theorem violation_fill (h : Hole) (x : List Char) (plan : ZonePlan (Framed Piece)) :
    (plan.zone (h.move x) (Framed.fill [.argument x])).violation? =
      (HoledViolation.ofPlan? plan).map (·.fill h x) := by
  obtain ⟨side, span, pieces⟩ := plan
  have hbreak : piecesBreak (pieces.fill [.argument x]) =
      piecesBreak (pieces.fill []) := by
    cases pieces <;> simp [Framed.fill, piecesBreak]
  have hcomment : piecesComment (pieces.fill [.argument x]) =
      piecesComment (pieces.fill []) := by
    cases pieces <;> simp [Framed.fill, piecesComment]
  have hjoined := Framed.fill_joined side pieces x
  have hspelled := Framed.fill_spelled pieces x
  simp only [Zone.violation?, HoledViolation.ofPlan?, ZonePlan.zone, Zone.spansLines,
    Zone.hasLineComment, Zone.compact, hbreak, hcomment]
  rcases piecesBreak (pieces.fill []) with - | -
  · rfl
  · rcases piecesComment (pieces.fill []) with - | - <;>
      simp [HoledViolation.fill, Hole.moveSpan, hjoined, hspelled]

namespace Hole

variable {h : Hole} {call : Call} {config : Span}

theorem calleeText_move (ho : h.Opens call config) (x : List Char) :
    (h.moveCall x call).calleeText? (h.fill x) = call.calleeText? (h.fill h.old) := by
  obtain ⟨hforward, hcallee | hcallee⟩ := ho.callee
  · have hstop : call.callee.stop ≤ byteLength h.before := hcallee
    show slice? (h.fill x) (h.moveSpan x call.callee) = slice? (h.fill h.old) call.callee
    rw [moveSpan_of_le (by omega) hstop, slice_before hstop, slice_before hstop]
  · have hstart : byteLength h.before + byteLength h.old ≤ call.callee.start := hcallee
    have hafter (y : List Char) :
        slice? (h.fill y) (h.moveSpan y call.callee) =
          slice? h.after (h.beyondSpan call.callee) := by
      rw [moveSpan_of_ge ho.old hstart (by omega)]
      exact slice_after _ _
    calc slice? (h.fill x) (h.moveSpan x call.callee)
        = slice? (h.fill h.old) (h.moveSpan h.old call.callee) := by
          rw [hafter x, hafter h.old]
      _ = slice? (h.fill h.old) call.callee := by rw [moveSpan_old]

/-- The violations of a call do not depend on the filling. -/
theorem exists_violations (ho : h.Opens call config) (target : Target) :
    ∃ vs : List HoledViolation,
      (∀ v ∈ vs, ∀ text ∈ v.edit, text.Fits h v.span) ∧
      ∀ x ≠ [], violations target (h.fill x) (h.moveCall x call) =
        vs.map (·.fill h x) := by
  obtain ⟨plans, hfits, hplans⟩ := exists_zones ho
  have hcallee (x : List Char) :=
    congrArg (Option.any target.covers) (calleeText_move ho x)
  rcases hlooked : (call.calleeText? (h.fill h.old)).any target.covers
  · exact ⟨[], by simp, fun x _ =>
      violations_of_not_covers ((hcallee x).trans hlooked)⟩
  · refine ⟨plans.filterMap HoledViolation.ofPlan?, ?_, fun x hx =>
      violations_of_zones ((hcallee x).trans hlooked) (hplans x hx) (violation_fill h x)⟩
    intro v hv text htext
    obtain ⟨plan, hplan, hviolation⟩ := List.mem_filterMap.1 hv
    have hplanFits := hfits plan hplan
    unfold HoledViolation.ofPlan? at hviolation
    split at hviolation
    · obtain rfl := Option.some.inj hviolation
      simp only at htext
      split at htext
      · cases htext
      · obtain rfl := Option.some.inj htext
        rcases hpieces : plan.pieces with ps | ⟨p, q⟩
        · rw [hpieces] at hplanFits
          exact hplanFits
        · rw [hpieces] at hplanFits
          rcases plan.side <;> exact hplanFits
    · cases hviolation

end Hole

end AnimLint
