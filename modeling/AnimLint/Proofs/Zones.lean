/-
AnimLint/Proofs/Zones.lean

A zone that is found is a slice of the text, and its pieces spell that slice.
The ranges of the call are not asked to make sense: whatever they are, the
pieces cover the bounds of the zone from end to end or there is no zone
(`Zone.slice_of_mem`, `Zone.text_of_mem`).
-/
import AnimLint.Proofs.Compaction
import AnimLint.Violation

namespace AnimLint

open Text

theorem slice_gapOf {source : List Char} {start stop : Nat} {ps : List Piece}
    (h : gapOf? source ⟨start, stop⟩ = some ps)
    (hstart : slice? source ⟨start, start⟩ = some []) (hle : start ≤ stop) :
    slice? source ⟨start, stop⟩ = some (ps.flatMap Piece.text) := by
  unfold gapOf? at h
  split at h
  · obtain ⟨text, htext, rfl⟩ := Option.map_eq_some_iff.1 h
    simpa [Piece.text] using htext
  · next hlt =>
    obtain rfl := Option.some.inj h
    obtain rfl : start = stop := Nat.le_antisymm hle (Nat.not_lt.1 hlt)
    exact hstart

section PiecesFrom

variable {source : List Char} {bounds : Span} {cursor : Nat} {arg : Span}
  {rest : List Span}

/-- An argument outside the bounds is passed over. -/
theorem piecesFrom_cons_of_outside
    (h : arg.stop ≤ bounds.start ∨ bounds.stop ≤ arg.start) :
    piecesFrom? source bounds cursor (arg :: rest) =
      piecesFrom? source bounds cursor rest := by
  rw [piecesFrom?, if_pos (by simpa using h)]

/-- How an argument that is not outside the bounds is cut out. -/
theorem piecesFrom_cons_eq_some {ps : List Piece}
    (hkept : ¬ (arg.stop ≤ bounds.start ∨ bounds.stop ≤ arg.start)) :
    piecesFrom? source bounds cursor (arg :: rest) = some ps ↔
      cursor ≤ arg.start ∧ arg.stop ≤ bounds.stop ∧
        ∃ before text after, gapOf? source ⟨cursor, arg.start⟩ = some before ∧
          slice? source arg = some text ∧
          piecesFrom? source bounds arg.stop rest = some after ∧
          ps = before ++ .argument text :: after := by
  rw [piecesFrom?, if_neg (by simpa using hkept)]
  split
  · next hcut =>
    simp only [Bool.or_eq_true, decide_eq_true_eq] at hcut
    constructor
    · intro h
      cases h
    · rintro ⟨hstart, hstop, -⟩
      omega
  · next hcut =>
    simp only [Bool.or_eq_true, decide_eq_true_eq, not_or, Nat.not_lt] at hcut
    simp only [Option.bind_eq_bind, Option.bind_eq_some_iff, Option.pure_def,
      Option.some.injEq]
    constructor
    · rintro ⟨before, hbefore, text, htext, after, hafter, rfl⟩
      exact ⟨hcut.1, hcut.2, before, text, after, hbefore, htext, hafter, rfl⟩
    · rintro ⟨-, -, before, text, after, hbefore, htext, hafter, rfl⟩
      exact ⟨before, hbefore, text, htext, after, hafter, rfl⟩

end PiecesFrom

/-- The pieces from a cursor on spell the text up to the end of the bounds. -/
theorem slice_piecesFrom {source : List Char} {bounds : Span} {cursor : Nat}
    {arguments : List Span}
    {ps : List Piece} (h : piecesFrom? source bounds cursor arguments = some ps)
    (hcursor : slice? source ⟨cursor, cursor⟩ = some []) (hle : cursor ≤ bounds.stop) :
    slice? source ⟨cursor, bounds.stop⟩ = some (ps.flatMap Piece.text) := by
  induction arguments generalizing cursor ps with
  | nil => exact slice_gapOf h hcursor hle
  | cons arg rest ih =>
    by_cases hout : arg.stop ≤ bounds.start ∨ bounds.stop ≤ arg.start
    · rw [piecesFrom_cons_of_outside hout] at h
      exact ih h hcursor hle
    · obtain ⟨hstart, hstop, before, argument, after, hbefore, hargument, hafter, rfl⟩ :=
        (piecesFrom_cons_eq_some hout).1 h
      have hgap := slice_gapOf hbefore hcursor hstart
      have hrest := ih hafter (slice?_stop hargument) hstop
      simpa [Piece.text] using slice?_append (slice?_append hgap hargument) hrest

namespace Zone

variable {source : List Char} {call : Call}

theorem of_zone {side : Side} {bounds : Span} {zone : Zone}
    (h : zone? source call side bounds = some zone) :
    zone.side = side ∧ zone.span = bounds ∧ slice? source bounds = some zone.text ∧
      zone.pieces.flatMap Piece.text = zone.text := by
  unfold zone? at h
  split at h
  · cases h
  · next hbounds =>
    obtain ⟨text, htext, h⟩ := Option.bind_eq_some_iff.1 h
    obtain ⟨ps, hps, h⟩ := Option.bind_eq_some_iff.1 h
    obtain rfl := Option.some.inj h
    simp only [Bool.or_eq_true, decide_eq_true_eq, not_or, Nat.not_lt] at hbounds
    have hpieces := slice_piecesFrom hps (slice?_start htext) hbounds.1.1
    rw [htext] at hpieces
    exact ⟨rfl, rfl, htext, (Option.some.inj hpieces).symm⟩

/-- A zone of a call is the zone with some bounds. -/
theorem of_mem {zone : Zone} (h : zone ∈ zones source call) :
    ∃ side bounds, zone? source call side bounds = some zone := by
  unfold zones at h
  split at h
  · cases h
  · next config _ =>
    rcases List.mem_append.1 h with h | h
    · rw [Option.mem_toList, leadingZone?] at h
      obtain ⟨between, -, h⟩ := Option.bind_eq_some_iff.1 h
      obtain ⟨skip, -, h⟩ := Option.bind_eq_some_iff.1 h
      exact ⟨_, _, h⟩
    · rw [Option.mem_toList, trailingZone?] at h
      split at h
      · cases h
      · split at h
        · exact ⟨_, _, h⟩
        · cases h

/-- A zone is a slice of the text. -/
theorem slice_of_mem {zone : Zone} (h : zone ∈ zones source call) :
    slice? source zone.span = some zone.text := by
  obtain ⟨side, bounds, h⟩ := of_mem h
  obtain ⟨-, hspan, hslice, -⟩ := of_zone h
  rw [hspan, hslice]

/-- A zone lies strictly inside its call. -/
theorem within_of_mem {zone : Zone} (h : zone ∈ zones source call) :
    call.span.start < zone.span.start ∧ zone.span.stop < call.span.stop := by
  obtain ⟨side, bounds, h⟩ := of_mem h
  rw [(of_zone h).2.1]
  unfold zone? at h
  split at h
  · cases h
  · next hbounds =>
    simp only [Bool.or_eq_true, decide_eq_true_eq, not_or] at hbounds
    omega

/-- The pieces of a zone spell it. -/
theorem text_of_mem {zone : Zone} (h : zone ∈ zones source call) :
    zone.pieces.flatMap Piece.text = zone.text := by
  obtain ⟨side, bounds, h⟩ := of_mem h
  exact (of_zone h).2.2.2

/-- A zone that spreads over several lines is not empty. -/
theorem start_lt_stop_of_mem {zone : Zone} (h : zone ∈ zones source call)
    (hlines : zone.spansLines = true) : zone.span.start < zone.span.stop := by
  obtain ⟨-, -, -, -, hstop⟩ := slice?_eq_some_iff.1 (slice_of_mem h)
  have hbreaks := breakCount_compactPieces_lt zone.side hlines
  rw [text_of_mem h] at hbreaks
  have hne : byteLength zone.text ≠ 0 := by
    intro hzero
    rw [byteLength_eq_zero.1 hzero] at hbreaks
    exact Nat.not_lt_zero _ hbreaks
  omega

end Zone

/-! ### The edits of a call -/

/-- Holds if a zone is a violation with an edit. -/
def Zone.isMended (zone : Zone) : Bool := zone.spansLines && !zone.hasLineComment

/-- The edit of a zone, if it is a violation that has one. -/
def Zone.edits (zone : Zone) : List Edit :=
  if zone.isMended then [⟨zone.span, zone.compact⟩] else []

theorem filterMap_edit_violations (zs : List Zone) :
    (zs.filterMap Zone.violation?).filterMap (·.edit) = zs.flatMap Zone.edits := by
  induction zs with
  | nil => rfl
  | cons zone zs ih =>
    rw [List.flatMap_cons, ← ih, Zone.edits, Zone.isMended, List.filterMap_cons,
      Zone.violation?]
    rcases zone.spansLines <;> rcases zone.hasLineComment <;> simp

/-- A violation is a zone that spreads over several lines. -/
theorem zone_of_violation {target : Target} {source : List Char} {call : Call}
    {v : Violation} (hv : v ∈ violations target source call) :
    ∃ zone ∈ zones source call, zone.violation? = some v ∧ zone.spansLines = true := by
  unfold violations at hv
  split at hv
  · cases hv
  · split at hv
    · obtain ⟨zone, hzone, hviolation⟩ := List.mem_filterMap.1 hv
      refine ⟨zone, hzone, hviolation, ?_⟩
      unfold Zone.violation? at hviolation
      split at hviolation
      · next hlines => exact hlines
      · cases hviolation
    · cases hv

/-- The edit of a violation puts the one-line form of a zone in place of the
zone. -/
theorem edit_of_violation {target : Target} {source : List Char} {call : Call}
    {v : Violation}
    {e : Edit} (hv : v ∈ violations target source call) (he : v.edit = some e) :
    ∃ zone ∈ zones source call, zone.side = v.side ∧ zone.spansLines = true ∧
      zone.hasLineComment = false ∧ e = ⟨zone.span, zone.compact⟩ := by
  obtain ⟨zone, hzone, hviolation, hlines⟩ := zone_of_violation hv
  rw [Zone.violation?, if_pos hlines] at hviolation
  obtain rfl := Option.some.inj hviolation
  simp only at he
  split at he
  · cases he
  · next hcomment =>
    exact ⟨zone, hzone, rfl, hlines, by simpa using hcomment, (Option.some.inj he).symm⟩

/-- An edit of a violation shows the characters of the slice it covers, with
fewer line breaks. -/
theorem slice_of_violation {target : Target} {source : List Char} {call : Call}
    {v : Violation}
    {e : Edit} (hv : v ∈ violations target source call) (he : v.edit = some e) :
    ∃ cut, slice? source e.span = some cut ∧ visible e.text = visible cut ∧
      breakCount e.text < breakCount cut := by
  obtain ⟨zone, hzone, -, hlines, -, rfl⟩ := edit_of_violation hv he
  refine ⟨zone.text, Zone.slice_of_mem hzone, ?_, ?_⟩
  · rw [← Zone.text_of_mem hzone]
    exact visible_compactPieces zone.side zone.pieces
  · rw [← Zone.text_of_mem hzone]
    exact breakCount_compactPieces_lt zone.side hlines

end AnimLint
