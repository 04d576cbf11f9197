/-
AnimLint/Proofs/Nesting.lean

The calls of one text stand in one another: in the callee, in an argument or in
the configuration object of an outer call.  Two zones of such calls meet in one
way only, the inner one as a part of a single argument of the outer one
(`Call.Encloses.apart_or_holds`): a zone starts behind the callee, keeps clear
of the configuration object, and an argument in it is a piece of its own
(`argument_of_piecesFrom`).

A batch is taken from the front, and an outer zone starts before an inner one.
So an edit is left out exactly if one that is taken surrounds it
(`not_mem_takenFrom_iff`), which for the edits of nested calls means that the
inner zone stands in an argument of a zone whose lines are joined in this batch
(`Calls.Nested.edits_of_batch`).

The range of the configuration object has to end behind the callee.  Where it
does not, a zone runs over the callee and over the calls in it
(`edits_overlap_in_callee`).
-/
import AnimLint.Proofs.Containment
import Mathlib.Data.List.Pairwise

namespace AnimLint

open Text

/-! ### Spans -/

namespace Text.Span

/-- Holds of spans with no byte in common. -/
def Apart (a b : Span) : Prop := a.stop ≤ b.start ∨ b.stop ≤ a.start
deriving Decidable

/-- Holds of a span that lies in another. -/
def Within (a b : Span) : Prop := b.start ≤ a.start ∧ a.stop ≤ b.stop
deriving Decidable

theorem Apart.symm {a b : Span} (h : a.Apart b) : b.Apart a := Or.symm h

end Text.Span

/-! ### Arguments of a zone -/

/-- Holds if a span lies in a single argument of a zone. -/
def Zone.HoldsInArgument (zone : Zone) (span : Span) : Prop :=
  ∃ pre text post, zone.pieces = pre ++ .argument text :: post ∧
    span.Within
      ⟨zone.span.start + byteLength (pre.flatMap Piece.text),
        zone.span.start + byteLength (pre.flatMap Piece.text) + byteLength text⟩

/-- An argument of the call lies outside the bounds or is a piece of its own. -/
theorem argument_of_piecesFrom {source : List Char} {bounds : Span} {cursor : Nat}
    {arguments : List Span} {ps : List Piece}
    (h : piecesFrom? source bounds cursor arguments = some ps)
    (hcursor : slice? source ⟨cursor, cursor⟩ = some []) {arg : Span}
    (harg : arg ∈ arguments) :
    arg.Apart bounds ∨ ∃ pre text post, ps = pre ++ .argument text :: post ∧
      cursor + byteLength (pre.flatMap Piece.text) = arg.start ∧
      arg.start + byteLength text = arg.stop := by
  induction arguments generalizing cursor ps with
  | nil => cases harg
  | cons a rest ih =>
    by_cases hout : arg.Apart bounds
    · exact .inl hout
    · by_cases hpassed : a.Apart bounds
      · rw [piecesFrom_cons_of_outside hpassed] at h
        rcases List.mem_cons.1 harg with rfl | harg
        · exact absurd hpassed hout
        · exact ih h hcursor harg
      · obtain ⟨hstart, -, before, argument, after, hbefore, hargument, hafter, rfl⟩ :=
          (piecesFrom_cons_eq_some hpassed).1 h
        have hgap := byteLength_slice (slice_gapOf hbefore hcursor hstart)
        have hwide := byteLength_slice hargument
        rcases List.mem_cons.1 harg with rfl | harg
        · exact .inr ⟨before, argument, after, rfl, hgap, hwide⟩
        · rcases ih hafter (slice?_stop hargument) harg with
            hout | ⟨pre, text, post, rfl, hpre, htext⟩
          · exact .inl hout
          · refine .inr ⟨before ++ .argument argument :: pre, text,
              post, by simp, ?_, htext⟩
            simp only at hgap
            simp only [List.flatMap_append, List.flatMap_cons, byteLength_append,
              Piece.text]
            omega

namespace Zone

variable {source : List Char} {call : Call} {zone : Zone}

/-- Each argument of a call lies outside a zone or is a piece of it. -/
theorem holdsInArgument_of_mem (h : zone ∈ zones source call) {arg : Span}
    (harg : arg ∈ call.arguments) :
    arg.Apart zone.span ∨ ∀ span : Span, span.Within arg → zone.HoldsInArgument span := by
  obtain ⟨side, bounds, h⟩ := of_mem h
  rw [(of_zone h).2.1]
  unfold zone? at h
  split at h
  · cases h
  · obtain ⟨text, htext, h⟩ := Option.bind_eq_some_iff.1 h
    obtain ⟨ps, hps, h⟩ := Option.bind_eq_some_iff.1 h
    obtain rfl := Option.some.inj h
    rcases argument_of_piecesFrom hps (slice?_start htext) harg with
      hout | ⟨pre, text, post, rfl, hpre, htext⟩
    · exact .inl hout
    · refine .inr fun span hspan => ⟨pre, text, post, rfl, ?_⟩
      simp only [Text.Span.Within] at hspan ⊢
      omega

/-- A zone lies behind the place from which on the `(` was looked for, or behind
the object. -/
theorem start_of_mem {config : Span} (h : zone ∈ zones source call)
    (hconfig : call.config = some config) :
    call.argsFrom ≤ zone.span.start ∧ zone.span.stop = config.start ∨
      config.stop = zone.span.start := by
  obtain ⟨config', hconfig', h⟩ := cases_of_mem h
  obtain rfl : config = config' := Option.some.inj (hconfig.symm.trans hconfig')
  rcases h with h | h
  · refine .inl ⟨?_, (of_leading h).2.2⟩
    obtain ⟨between, -, h⟩ := Option.bind_eq_some_iff.1 h
    obtain ⟨skip, -, h⟩ := Option.bind_eq_some_iff.1 h
    rw [(of_zone h).2.1]
    exact Nat.le_add_right _ _
  · exact .inr (of_trailing h).2.2.symm

/-- A zone that is all gap has no argument. -/
theorem not_holdsInArgument_of_gap {t : List Char} (h : zone.pieces = [.gap t])
    (span : Span) :
    ¬ zone.HoldsInArgument span := by
  rintro ⟨pre, text, post, hpieces, -⟩
  have hmem : Piece.argument text ∈ [Piece.gap t] := by
    rw [← h, hpieces]
    simp
  cases List.mem_singleton.1 hmem

/-- The pieces of a zone beside one of its arguments fill the zone with it. -/
theorem width_of_argument (h : zone ∈ zones source call) {pre post : List Piece}
    {text : List Char} (hpieces : zone.pieces = pre ++ .argument text :: post) :
    zone.span.start + byteLength (pre.flatMap Piece.text) + byteLength text +
      byteLength (post.flatMap Piece.text) = zone.span.stop := by
  rw [← byteLength_slice (slice_of_mem h), ← text_of_mem h, hpieces, List.flatMap_append,
    List.flatMap_cons, byteLength_append, byteLength_append, Nat.add_assoc, Nat.add_assoc]
  rfl

/-- What lies in an argument of a zone lies in the zone. -/
theorem HoldsInArgument.within {span : Span} (h : zone.HoldsInArgument span)
    (hzone : zone ∈ zones source call) : span.Within zone.span := by
  obtain ⟨pre, text, post, hpieces, hstart, hstop⟩ := h
  have hwidth := width_of_argument hzone hpieces
  simp only at hstart hstop
  simp only [Span.Within]
  omega

/-- No argument fills a zone that spreads over several lines. -/
theorem not_holdsInArgument_self (h : zone ∈ zones source call)
    (hlines : zone.spansLines = true) :
    ¬ zone.HoldsInArgument zone.span := by
  rintro ⟨pre, text, post, hpieces, hstart, hstop⟩
  have hwidth := width_of_argument h hpieces
  simp only at hstart hstop
  -- nothing stands beside the argument, so there is no gap with a line break in
  -- it
  have hempty : ∀ p ∈ pre ++ post, p.text = [] := by
    have hzero : byteLength ((pre ++ post).flatMap Piece.text) = 0 := by
      rw [List.flatMap_append, byteLength_append]
      omega
    have hnil := byteLength_eq_zero.1 hzero
    rw [List.flatMap_eq_nil_iff] at hnil
    exact hnil
  obtain ⟨p, hp, hbreak⟩ := List.any_eq_true.1 (show zone.pieces.any _ = true from hlines)
  cases p with
  | argument t => cases hbreak
  | gap t =>
    have ht : t = [] := by
      refine hempty (.gap t) ?_
      rw [hpieces] at hp
      simpa using hp
    subst ht
    exact absurd hbreak (by decide)

end Zone

/-! ### Joined zones -/

/-- The edit that joins the lines of a zone. -/
def Zone.edit (zone : Zone) : Edit := ⟨zone.span, zone.compact⟩

/-- The zones of a call whose lines are to be joined. -/
def joinable (target : Target) (source : List Char) (call : Call) : List Zone :=
  match call.calleeText? source with
  | none => []
  | some callee =>
    if target.covers callee then
      (zones source call).filter Zone.isMended
    else []

theorem flatMap_edits (zs : List Zone) :
    zs.flatMap Zone.edits = (zs.filter Zone.isMended).map Zone.edit := by
  induction zs with
  | nil => rfl
  | cons zone zs ih => rcases h : zone.isMended with - | - <;>
    simp [Zone.edits, Zone.edit, h, ih]

/-- The edits of a call are those of its joinable zones. -/
theorem edits_violations (target : Target) (source : List Char) (call : Call) :
    (violations target source call).filterMap (·.edit) =
      (joinable target source call).map Zone.edit := by
  rcases hcallee : call.calleeText? source with - | callee
  · simp [violations, joinable, hcallee]
  · rcases hcovers : target.covers callee with - | -
    · simp [violations, joinable, hcallee, hcovers]
    · simp [violations, joinable, hcallee, hcovers, filterMap_edit_violations,
        flatMap_edits]

theorem of_mem_joinable {target : Target} {source : List Char} {call : Call} {zone : Zone}
    (h : zone ∈ joinable target source call) :
    zone ∈ zones source call ∧ zone.spansLines = true := by
  unfold joinable at h
  split at h
  · cases h
  · split at h
    · obtain ⟨hzone, hjoin⟩ := List.mem_filter.1 h
      exact ⟨hzone, (Bool.and_eq_true_iff.1 hjoin).1⟩
    · cases h

/-! ### Nested calls -/

/-- Holds if a call stands in one of the parts of another. -/
def Call.Encloses (outer inner : Call) : Prop :=
  inner.span.Within outer.callee ∨ (∃ arg ∈ outer.arguments, inner.span.Within arg) ∨
    ∃ config, outer.config = some config ∧ inner.span.Within config

/-- Holds of a call whose parts come in order as far as it matters to its zones:
the callee ends before the search for the `(` starts and before the object ends,
whose range runs forward. -/
structure Call.Ordered (call : Call) : Prop where
  callee : call.callee.stop ≤ call.argsFrom
  config : ∀ config, call.config = some config →
    config.start ≤ config.stop ∧ call.callee.stop ≤ config.stop

/-- Holds of calls that stand beside or in one another, as in a syntax tree. -/
structure Calls.Nested (calls : List Call) : Prop where
  ordered : ∀ call ∈ calls, call.Ordered
  nested : calls.Pairwise fun c d => c.span.Apart d.span ∨ c.Encloses d ∨ d.Encloses c

/-- A zone of an inner call keeps clear of a zone of an outer one, or stands in
one of its arguments, and then it starts later. -/
theorem Call.Encloses.apart_or_holds {source : List Char} {outer inner : Call}
    (h : outer.Encloses inner) (hordered : outer.Ordered) {z w : Zone}
    (hz : z ∈ zones source outer) (hw : w ∈ zones source inner)
    (hne : w.span.start ≤ w.span.stop) :
    z.span.Apart w.span ∨ z.HoldsInArgument w.span ∧ z.span.start < w.span.start := by
  obtain ⟨config, hconfig, -⟩ := Zone.cases_of_mem hz
  have hstart := Zone.start_of_mem hz hconfig
  have hcallee := hordered.callee
  obtain ⟨hforward, hbehind⟩ := hordered.config config hconfig
  have hwithin := Zone.within_of_mem hw
  rcases h with h | ⟨arg, harg, h⟩ | ⟨config', hconfig', h⟩
  · -- in the callee, which ends before the zone starts
    simp only [Span.Within, Span.Apart] at h ⊢
    omega
  · rcases Zone.holdsInArgument_of_mem hz harg with hout | hin
    · simp only [Span.Within, Span.Apart] at h hout ⊢
      omega
    · have hspan : w.span.Within arg := by
        simp only [Span.Within] at h ⊢
        omega
      have hbounds : z.span.start ≤ arg.start := by
        obtain ⟨pre, text, post, -, hfrom, -⟩ :=
          hin ⟨arg.start, arg.start⟩ ⟨Nat.le_refl _, by
          simp only [Span.Within] at hspan
          simp only
          omega⟩
        simp only at hfrom
        omega
      refine .inr ⟨hin _ hspan, ?_⟩
      simp only [Span.Within] at h
      omega
  · -- in the object, beside which the zone lies
    obtain rfl : config = config' := Option.some.inj (hconfig.symm.trans hconfig')
    simp only [Span.Within, Span.Apart] at h ⊢
    omega

/-- Holds of two zones that keep clear of one another, or of which one stands in
an argument of the other and starts later. -/
def Zone.Clear (z w : Zone) : Prop :=
  z.span.Apart w.span ∨ z.HoldsInArgument w.span ∧ z.span.start < w.span.start ∨
    w.HoldsInArgument z.span ∧ w.span.start < z.span.start

theorem Zone.Clear.symm {z w : Zone} (h : z.Clear w) : w.Clear z := by
  rcases h with h | h | h
  · exact .inl h.symm
  · exact .inr (.inr h)
  · exact .inr (.inl h)

instance : Std.Symm Zone.Clear := ⟨fun _ _ => Zone.Clear.symm⟩

/-- The zones of a list of calls whose lines are to be joined, call by call. -/
def joinables (target : Target) (source : List Char) (calls : List Call) : List Zone :=
  calls.flatMap (joinable target source)

theorem of_mem_joinables {target : Target} {source : List Char} {calls : List Call}
    {zone : Zone} (h : zone ∈ joinables target source calls) :
    ∃ call ∈ calls, zone ∈ zones source call ∧ zone.spansLines = true := by
  obtain ⟨call, hcall, h⟩ := List.mem_flatMap.1 h
  exact ⟨call, hcall, of_mem_joinable h⟩

/-- The joinable zones of nested calls are clear of one another. -/
theorem Calls.Nested.clear {calls : List Call} (h : Calls.Nested calls) (target : Target)
    (source : List Char) : (joinables target source calls).Pairwise Zone.Clear := by
  refine List.pairwise_flatMap.2 ⟨fun call hcall => ?_, h.nested.imp_of_mem ?_⟩
  · -- the two sides of one call
    unfold joinable
    split
    · exact .nil
    · split
      · refine List.Pairwise.filter _ ?_
        rcases hconfig : call.config with - | config
        · simp [zones, hconfig]
        · have hle := ((h.ordered call hcall).config config hconfig).1
          exact (ordered_zones hconfig hle).imp fun hab => .inl (.inl hab)
      · exact .nil
  · intro c d hc hd hcd z hz w hw
    obtain ⟨hz, hzlines⟩ := of_mem_joinable hz
    obtain ⟨hw, hwlines⟩ := of_mem_joinable hw
    have hzne := Nat.le_of_lt (Zone.start_lt_stop_of_mem hz hzlines)
    have hwne := Nat.le_of_lt (Zone.start_lt_stop_of_mem hw hwlines)
    have hzin := Zone.within_of_mem hz
    have hwin := Zone.within_of_mem hw
    rcases hcd with hcd | hcd | hcd
    · refine .inl ?_
      simp only [Span.Apart] at hcd ⊢
      omega
    · rcases hcd.apart_or_holds (h.ordered c hc) hz hw hwne with hapart | hholds
      · exact .inl hapart
      · exact .inr (.inl hholds)
    · rcases hcd.apart_or_holds (h.ordered d hd) hw hz hzne with hapart | hholds
      · exact .inl hapart.symm
      · exact .inr (.inr hholds)

/-! ### One batch -/

/-- Holds if an edit starts and ends inside another, behind its start. -/
def Edit.Inside (f e : Edit) : Prop :=
  e.span.start < f.span.start ∧ f.span.stop ≤ e.span.stop

section Batch

variable {source before rest : List Char} {es : List Edit}

theorem takenFrom_of_lt {cursor : Nat} {e : Edit} (h : e.span.start < cursor) :
    takenFrom cursor rest (e :: es) = takenFrom cursor rest es := by
  rw [takenFrom, if_pos (by simp [h])]

/-- An edit of a slice behind the cursor is taken. -/
theorem takenFrom_of_slice (es : List Edit) {e : Edit} {cut : List Char}
    (hsource : source = before ++ rest) (hslice : slice? source e.span = some cut)
    (hle : byteLength before ≤ e.span.start) :
    ∃ kept after, source = before ++ (kept ++ cut) ++ after ∧
      byteLength (before ++ (kept ++ cut)) = e.span.stop ∧
      takenFrom (byteLength before) rest (e :: es) =
        e :: takenFrom e.span.stop after es := by
  obtain ⟨front, after, hfront, hstart, hstop⟩ := slice?_eq_some_iff.1 hslice
  obtain ⟨kept, rfl, rfl⟩ :=
    exists_append_of_byteLength_le (hsource.symm.trans hfront) (by omega)
  rw [byteLength_append] at hstart
  have hkept : splitAt? (e.span.start - byteLength before) (kept ++ (cut ++ after)) =
      some (kept, cut ++ after) := by
    rw [← hstart, Nat.add_sub_cancel_left, splitAt?_append]
  have hcut : splitAt? (e.span.stop - e.span.start) (cut ++ after) =
      some (cut, after) := by
    rw [hstop, Nat.add_sub_cancel_left, splitAt?_append]
  have hfits : (decide (e.span.start < byteLength before) ||
      decide (e.span.stop < e.span.start)) = false := by
    simp only [Bool.or_eq_false_iff, decide_eq_false_iff_not]
    omega
  refine ⟨kept, after, by simp [hsource], ?_, ?_⟩
  · simp only [byteLength_append]
    omega
  · simp [takenFrom, hfits, hkept, hcut]

theorem le_of_mem_takenFrom {cursor : Nat} {e : Edit} (h : e ∈ takenFrom cursor rest es) :
    cursor ≤ e.span.start :=
  ((spliceFrom_takenFrom cursor rest es).2.2.2.stop_le e h).1

/-- Of edits in the order of their starts, of which any two keep clear of one
another or lie one in the other, those are left out that start before the cursor
or lie inside one that is taken. -/
theorem not_mem_takenFrom_iff (hsource : source = before ++ rest)
    (hes : ∀ e ∈ es, e.span.start < e.span.stop ∧ ∃ cut, slice? source e.span = some cut)
    (hclear : es.Pairwise fun e f => e.span.stop ≤ f.span.start ∨ f.Inside e) :
    ∀ f ∈ es, f ∉ takenFrom (byteLength before) rest es ↔
      f.span.start < byteLength before ∨
        ∃ e ∈ takenFrom (byteLength before) rest es, f.Inside e := by
  induction hclear generalizing before rest with
  | nil => simp
  | @cons e es he _ ih =>
    obtain ⟨hne, cut, hcut⟩ := hes e List.mem_cons_self
    have hrest : ∀ f ∈ es, f.span.start < f.span.stop ∧
        ∃ cut, slice? source f.span = some cut :=
      fun f hf => hes f (List.mem_cons_of_mem e hf)
    by_cases hlt : e.span.start < byteLength before
    · rw [takenFrom_of_lt hlt]
      intro f hf
      rcases List.mem_cons.1 hf with rfl | hf
      · refine iff_of_true (fun hmem => ?_) (.inl hlt)
        have := le_of_mem_takenFrom hmem
        omega
      · exact ih hsource hrest f hf
    · obtain ⟨kept, after, hsource', hwide, htaken⟩ :=
        takenFrom_of_slice es hsource hcut (Nat.le_of_not_lt hlt)
      have ih' := ih hsource' hrest
      rw [hwide] at ih'
      rw [htaken]
      intro f hf
      rcases List.mem_cons.1 hf with rfl | hf
      · -- what comes first is taken, and nothing that is taken starts before it
        refine iff_of_false (fun h => h List.mem_cons_self) ?_
        rintro (h | ⟨e', he', hinside, -⟩)
        · exact hlt h
        · rcases List.mem_cons.1 he' with rfl | he'
          · exact Nat.lt_irrefl _ hinside
          · have := le_of_mem_takenFrom he'
            omega
      · have hfne := (hrest f hf).1
        have hef := he f hf
        have hnot : f ≠ e := by
          rintro rfl
          rcases hef with h | ⟨h, -⟩ <;> omega
        have hcursor : f.span.start < e.span.stop ↔ f.Inside e := by
          constructor
          · intro h
            exact hef.resolve_left (Nat.not_le_of_lt h)
          · rintro ⟨-, hstop⟩
            omega
        have hbehind : ¬ f.span.start < byteLength before := by
          rcases hef with h | ⟨h, -⟩ <;> omega
        rw [List.mem_cons, not_or, and_iff_right hnot, ih' f hf, hcursor]
        simp [hbehind]

end Batch

/-! ### The edits of nested calls -/

theorem Edit.before_total (a b : Edit) : a.before b = true ∨ b.before a = true := by
  simp only [Edit.before, Bool.or_eq_true, Bool.and_eq_true, decide_eq_true_eq,
    beq_iff_eq]
  omega

theorem Edit.before_trans (a b c : Edit) (hab : a.before b = true)
    (hbc : b.before c = true) :
    a.before c = true := by
  simp only [Edit.before, Bool.or_eq_true, Bool.and_eq_true, decide_eq_true_eq,
    beq_iff_eq] at *
  omega

section Nested

variable {calls : List Call} {target : Target} {source : List Char}

theorem start_lt_stop_of_mem_joinables {zone : Zone}
    (h : zone ∈ joinables target source calls) :
    zone.span.start < zone.span.stop := by
  obtain ⟨call, -, hzone, hlines⟩ := of_mem_joinables h
  exact Zone.start_lt_stop_of_mem hzone hlines

theorem HoldsInArgument.within_joinables {z : Zone} {span : Span}
    (h : z.HoldsInArgument span)
    (hz : z ∈ joinables target source calls) : span.Within z.span := by
  obtain ⟨call, -, hzone, -⟩ := of_mem_joinables hz
  exact h.within hzone

/-- Of two zones of nested calls one holds the other in an argument if the one
edit is inside the other. -/
theorem Calls.Nested.holds_iff_inside (h : Calls.Nested calls) {z w : Zone}
    (hz : z ∈ joinables target source calls) (hw : w ∈ joinables target source calls) :
    w.HoldsInArgument z.span ↔ z.edit.Inside w.edit := by
  have hzne := start_lt_stop_of_mem_joinables hz
  have hwne := start_lt_stop_of_mem_joinables hw
  have hclear (hne : z ≠ w) : z.Clear w :=
    (h.clear target source).forall hz hw hne
  constructor
  · intro hholds
    have hwithin := HoldsInArgument.within_joinables hholds hw
    have hne : z ≠ w := by
      rintro rfl
      obtain ⟨call, -, hzone, hlines⟩ := of_mem_joinables hz
      exact Zone.not_holdsInArgument_self hzone hlines hholds
    simp only [Span.Within] at hwithin
    rcases hclear hne with hapart | ⟨-, hlt⟩ | ⟨-, hlt⟩
    · simp only [Span.Apart] at hapart
      omega
    · omega
    · exact ⟨hlt, hwithin.2⟩
  · rintro ⟨hstart, hstop⟩
    simp only [Zone.edit] at hstart hstop
    have hne : z ≠ w := by
      rintro rfl
      exact Nat.lt_irrefl _ hstart
    rcases hclear hne with hapart | ⟨-, hlt⟩ | ⟨hholds, -⟩
    · simp only [Span.Apart] at hapart
      omega
    · omega
    · exact hholds

/-- The edits of nested calls, in the order they are taken. -/
theorem Calls.Nested.pairwise_sorted (h : Calls.Nested calls) :
    (sortBy Edit.before ((joinables target source calls).map Zone.edit)).Pairwise
      fun e f => e.span.stop ≤ f.span.start ∨ f.Inside e := by
  have hperm := sortBy_perm Edit.before ((joinables target source calls).map Zone.edit)
  let R (e f : Edit) : Prop := e.span.Apart f.span ∨ f.Inside e ∨ e.Inside f
  have hsymm {e f : Edit} : R e f → R f e := by
    rintro (hef | hef | hef)
    · exact .inl hef.symm
    · exact .inr (.inr hef)
    · exact .inr (.inl hef)
  have hunsorted : ((joinables target source calls).map Zone.edit).Pairwise R := by
    refine List.pairwise_map.2
      ((h.clear target source).imp_of_mem fun {z w} hz hw hzw => ?_)
    rcases hzw with hapart | ⟨hholds, -⟩ | ⟨hholds, -⟩
    · exact .inl hapart
    · exact .inr (.inl ((h.holds_iff_inside hw hz).1 hholds))
    · exact .inr (.inr ((h.holds_iff_inside hz hw).1 hholds))
  have hsorted := (hperm.pairwise_iff hsymm).2 hunsorted
  refine ((pairwise_sortBy Edit.before_total Edit.before_trans _).and
    hsorted).imp_of_mem ?_
  rintro e f he hf ⟨hbefore, hef⟩
  obtain ⟨z, hz, rfl⟩ := List.mem_map.1 (hperm.mem_iff.1 he)
  obtain ⟨w, hw, rfl⟩ := List.mem_map.1 (hperm.mem_iff.1 hf)
  have hzne := start_lt_stop_of_mem_joinables hz
  have hwne := start_lt_stop_of_mem_joinables hw
  simp only [Edit.before, Bool.or_eq_true, Bool.and_eq_true, decide_eq_true_eq,
    beq_iff_eq] at hbefore
  rcases hef with hapart | hinside | ⟨hlt, -⟩
  · refine .inl ?_
    simp only [Span.Apart, Zone.edit] at hapart hbefore ⊢
    omega
  · exact .inr hinside
  · simp only [Zone.edit] at hlt hbefore
    omega

/-- Of the edits of nested calls those are left out of a batch whose zone stands
in an argument of a zone that is taken. -/
theorem Calls.Nested.not_mem_taken_iff (h : Calls.Nested calls) {z : Zone}
    (hz : z ∈ joinables target source calls) :
    z.edit ∉ taken source ((joinables target source calls).map Zone.edit) ↔
      ∃ w ∈ joinables target source calls,
        w.edit ∈ taken source ((joinables target source calls).map Zone.edit) ∧
          w.HoldsInArgument z.span := by
  have hperm := sortBy_perm Edit.before ((joinables target source calls).map Zone.edit)
  have hes : ∀ e ∈ sortBy Edit.before ((joinables target source calls).map Zone.edit),
      e.span.start < e.span.stop ∧ ∃ cut, slice? source e.span = some cut := by
    intro e he
    obtain ⟨w, hw, rfl⟩ := List.mem_map.1 (hperm.mem_iff.1 he)
    obtain ⟨call, -, hzone, -⟩ := of_mem_joinables hw
    exact ⟨start_lt_stop_of_mem_joinables hw, w.text, Zone.slice_of_mem hzone⟩
  have hsource : source = [] ++ source := rfl
  have htaken := not_mem_takenFrom_iff hsource hes h.pairwise_sorted z.edit
    (hperm.mem_iff.2 (List.mem_map_of_mem hz))
  rw [byteLength_nil] at htaken
  rw [taken, htaken, or_iff_right (Nat.not_lt_zero _)]
  constructor
  · rintro ⟨e, he, hinside⟩
    obtain ⟨w, hw, rfl⟩ := List.mem_map.1 (hperm.mem_iff.1
      ((spliceFrom_takenFrom 0 source _).1.subset he))
    exact ⟨w, hw, he, (h.holds_iff_inside hz hw).2 hinside⟩
  · rintro ⟨w, hw, he, hholds⟩
    exact ⟨w.edit, he, (h.holds_iff_inside hz hw).1 hholds⟩

/-- **Nested calls**: for every list of calls that stand in one another as in a
syntax tree, the ranges of two edits keep clear of one another or one lies in a
single argument of the zone of the other, no edit comes twice, and the batch of
all of them leaves out exactly the edits that lie in an argument of a zone whose
own edit it takes. -/
theorem Calls.Nested.edits_of_batch (h : Calls.Nested calls) (target : Target)
    (source : List Char) :
    let edits :=
      calls.flatMap fun call => (violations target source call).filterMap (·.edit)
    let zs := joinables target source calls
    edits = zs.map Zone.edit ∧ edits.Nodup ∧
      (zs.Pairwise fun z w => z.span.Apart w.span ∨ z.HoldsInArgument w.span ∨
        w.HoldsInArgument z.span) ∧
      (taken source edits).length = (splice source edits).applied ∧
      (splice source edits).applied + (splice source edits).skipped = edits.length ∧
      Rewrites 0 source (taken source edits) (splice source edits).output ∧
      ∀ z ∈ zs, z.edit ∉ taken source edits ↔
        ∃ w ∈ zs, w.edit ∈ taken source edits ∧ w.HoldsInArgument z.span := by
  intro edits zs
  have hedits : edits = zs.map Zone.edit := by
    rw [show zs = calls.flatMap (joinable target source) from rfl, List.map_flatMap]
    exact congrArg (calls.flatMap ·)
      (funext fun call => edits_violations target source call)
  obtain ⟨hlen, hall, hrewrites⟩ := splice_taken source edits
  refine ⟨hedits, ?_, (h.clear target source).imp fun hzw =>
    ?_, hlen, hall, hrewrites, ?_⟩
  · rw [hedits]
    refine List.pairwise_map.2
      ((h.clear target source).imp_of_mem fun {z w} hz hw hzw => ?_)
    have hne := start_lt_stop_of_mem_joinables hz
    intro heq
    have hspan : z.span = w.span := congrArg Edit.span heq
    rcases hzw with hapart | ⟨-, hlt⟩ | ⟨-, hlt⟩
    · simp only [Span.Apart, hspan] at hapart hne
      omega
    · exact absurd hlt (by rw [hspan]; exact Nat.lt_irrefl _)
    · exact absurd hlt (by rw [hspan]; exact Nat.lt_irrefl _)
  · exact hzw.imp_right fun hholds => hholds.imp And.left And.left
  · rw [hedits]
    exact fun z hz => h.not_mem_taken_iff hz

end Nested

/-- A call that spreads over two lines in an argument of one that does. -/
def twoDeep : List Call :=
  [ { span := ⟨0, 19⟩, callee := ⟨0, 4⟩, argsFrom := 4, arguments := [⟨6, 15⟩, ⟨16, 18⟩]
      config := some ⟨16, 18⟩ },
    { span := ⟨6, 15⟩, callee := ⟨6, 10⟩, argsFrom := 10, arguments := [⟨12, 14⟩]
      config := some ⟨12, 14⟩ } ]

theorem nested_twoDeep : Calls.Nested twoDeep where
  ordered := by
    intro call hcall
    rcases List.mem_cons.1 hcall with rfl | hcall
    · exact ⟨Nat.le_refl _, by rintro _ ⟨⟩; decide⟩
    · obtain rfl := List.mem_singleton.1 hcall
      exact ⟨Nat.le_refl _, by rintro _ ⟨⟩; decide⟩
  nested := List.pairwise_cons.2 ⟨fun call hcall => by
    obtain rfl := List.mem_singleton.1 hcall
    exact .inr (.inl (.inr (.inl ⟨⟨6, 15⟩, List.mem_cons_self, by decide, by decide⟩))),
    List.pairwise_singleton _ _⟩

/-- The batch takes the edit of the outer call and leaves out that of the inner
one. -/
theorem edits_of_batch_twoDeep :
    let source := "a.to(\nb.to(\n\x7b\x7d),\x7b\x7d)".toList
    let edits := twoDeep.flatMap fun call =>
      (violations default source call).filterMap (·.edit)
    let inner : Zone := ⟨.leading, ⟨11, 12⟩, ['\n'], [.gap ['\n']]⟩
    Calls.Nested twoDeep ∧ edits.length = 2 ∧ inner ∈ joinables default source twoDeep ∧
      inner.edit ∉ taken source edits ∧
      ∃ w ∈ joinables default source twoDeep, w.edit ∈ taken source edits ∧
        w.HoldsInArgument inner.span := by
  intro source edits inner
  have hlength : edits.length = 2 := by decide +kernel
  have hinner : inner ∈ joinables default source twoDeep := by decide +kernel
  have hleft : inner.edit ∉ taken source edits := by decide +kernel
  exact ⟨nested_twoDeep, hlength, hinner, hleft,
    ((nested_twoDeep.edits_of_batch default source).2.2.2.2.2.2 inner hinner).1 hleft⟩

/-- Where the object ends in front of the callee, the zone behind it runs over
the callee, and over the zone of a call in it. -/
theorem edits_overlap_in_callee :
    ¬ ∀ (target : Target) (source : List Char) (calls : List Call),
      (∀ call ∈ calls, call.callee.stop ≤ call.argsFrom ∧
        ∀ config, call.config = some config → config.start ≤ config.stop) →
      (calls.Pairwise fun c d => c.span.Apart d.span ∨ c.Encloses d ∨ d.Encloses c) →
      (joinables target source calls).Pairwise fun z w =>
        z.span.Apart w.span ∨ z.HoldsInArgument w.span ∨ w.HoldsInArgument z.span := by
  intro hall
  let outer : Call :=
    { span := ⟨0, 15⟩, callee := ⟨1, 13⟩, argsFrom := 13, arguments := [], config :=
      some ⟨1, 1⟩ }
  let inner : Call :=
    { span := ⟨1, 10⟩, callee := ⟨1, 5⟩, argsFrom := 5, arguments := [⟨7, 9⟩]
      config := some ⟨7, 9⟩ }
  have hpair := hall default " a.to(\n\x7b\x7d).to()".toList [outer, inner]
    (by
      intro call hcall
      rcases List.mem_cons.1 hcall with rfl | hcall
      · exact ⟨Nat.le_refl _, by rintro _ ⟨⟩; decide⟩
      · obtain rfl := List.mem_singleton.1 hcall
        exact ⟨Nat.le_refl _, by rintro _ ⟨⟩; decide⟩)
    (List.pairwise_cons.2 ⟨fun call hcall => by
      obtain rfl := List.mem_singleton.1 hcall
      exact .inr (.inl (.inl (by decide))), List.pairwise_singleton _ _⟩)
  have hzones : joinables default " a.to(\n\x7b\x7d).to()".toList [outer, inner] =
      [⟨.trailing, ⟨1, 14⟩, "a.to(\n\x7b\x7d).to(".toList,
        [.gap "a.to(\n\x7b\x7d).to(".toList]⟩,
        ⟨.leading, ⟨6, 7⟩, ['\n'], [.gap ['\n']]⟩] := by decide +kernel
  rw [hzones] at hpair
  -- neither zone has an argument for the other to stand in
  rcases List.rel_of_pairwise_cons hpair List.mem_cons_self with h | h | h
  · revert h
    decide
  · exact Zone.not_holdsInArgument_of_gap rfl _ h
  · exact Zone.not_holdsInArgument_of_gap rfl _ h

end AnimLint
