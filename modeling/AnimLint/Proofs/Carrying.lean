/-
AnimLint/Proofs/Carrying.lean

A call taken to other texts.  One text carries another if the offsets of
the one have places in the other, in the same order, and what is cut from
the one is cut from the other, maybe spelled in another way
(`Text.Carries`).  A stretch is then cut into the same pieces
(`Carries.piecesFrom`).

The zones of a call are found by a few questions to the text: what lies
between two offsets, where the `(` stands, and whether a `)` ends the call.
Texts that answer them alike (`Alike`) have the same zones of the call, up
to their places and to how their pieces are spelled (`Alike.exists_zones`),
and a text that carries another answers them as that one does
(`Carries.zones`).
-/
import AnimLint.Proofs.Zones
import Mathlib.Data.List.Basic

namespace AnimLint

open Text

/-! ### The parenthesis -/

theorem afterParen_append {s : List Char} (h : '(' ∉ s) (r : List Char) :
    afterParen? (s ++ '(' :: r) = some (byteLength s + 1) := by
  induction s with
  | nil => rfl
  | cons c s ih =>
    simp only [List.mem_cons, not_or] at h
    rw [List.cons_append, afterParen?, if_neg (by simpa using Ne.symm h.1),
      ih h.2]
    simp [Nat.add_assoc]

/-- A `(` is found whatever stands behind it. -/
theorem afterParen_of_mem {s : List Char} (hs : '(' ∈ s) :
    ∃ skip ≤ byteLength s, ∀ t, afterParen? (s ++ t) = some skip := by
  obtain ⟨front, back, rfl, hfront⟩ := List.eq_append_cons_of_mem hs
  have hone : ('(' : Char).utf8Size = 1 := rfl
  refine ⟨byteLength front + 1, ?_, fun t => ?_⟩
  · rw [byteLength_append, byteLength_cons]
    omega
  · rw [List.append_assoc]
    exact afterParen_append hfront (back ++ t)

theorem afterParen_eq_none {s : List Char} (h : '(' ∉ s) :
    afterParen? s = none := by
  induction s with
  | nil => rfl
  | cons c s ih =>
    simp only [List.mem_cons, not_or] at h
    rw [afterParen?, if_neg (by simpa using Ne.symm h.1), ih h.2]
    rfl

/-! ### The end of a slice -/

/-- In front of a boundary stands a character, unless the text starts there. -/
theorem Text.exists_last {s : List Char} {n : Nat} (h : IsBoundary s n)
    (hpos : 0 < n) :
    ∃ m c, m + Char.utf8Size c = n ∧ slice? s ⟨m, n⟩ = some [c] := by
  obtain ⟨before, after, rfl, rfl⟩ := h
  rcases List.eq_nil_or_concat' before with rfl | ⟨front, c, rfl⟩
  · exact absurd hpos (Nat.lt_irrefl 0)
  · have hwidth : byteLength front + c.utf8Size = byteLength (front ++ [c]) :=
      (byteLength_append front [c]).symm
    refine ⟨byteLength front, c, hwidth, slice?_eq_some_iff.2 ?_⟩
    exact ⟨front, after, List.append_assoc front [c] after, rfl, hwidth.symm⟩

/-- Of two slices with one end, the one that starts later is a suffix. -/
theorem Text.suffix_of_slice? {s x y : List Char} {a b n : Nat}
    (hx : slice? s ⟨a, n⟩ = some x) (hy : slice? s ⟨b, n⟩ = some y)
    (hle : a ≤ b) : y <:+ x := by
  obtain ⟨before, after, rfl, rfl, hn⟩ := slice?_eq_some_iff.1 hx
  obtain ⟨before', after', hs, rfl, hn'⟩ := slice?_eq_some_iff.1 hy
  obtain ⟨mid, rfl, hmid⟩ := exists_append_of_byteLength_le hs hle
  refine ⟨mid, ?_⟩
  rw [← List.append_assoc] at hmid
  refine (append_inj_of_byteLength hmid ?_).1.symm
  simp only [byteLength_append] at *
  omega

/-! ### Places -/

/-- A span whose ends are taken to their places. -/
def Text.Span.placed (place : Nat → Nat) (span : Span) : Span :=
  ⟨place span.start, place span.stop⟩

/-- A call whose offsets are taken to their places. -/
def Call.placed (place : Nat → Nat) (call : Call) : Call where
  span := call.span.placed place
  callee := call.callee.placed place
  argsFrom := place call.argsFrom
  arguments := call.arguments.map (Span.placed place)
  config := call.config.map (Span.placed place)

/-- A piece spelled in another way. -/
def Piece.respelled (spell : List Char → List Char) : Piece → Piece
  | .gap t => .gap (spell t)
  | .argument t => .argument (spell t)

/-- A zone taken to its place and spelled in another way. -/
def Zone.placed (place : Nat → Nat) (spell : List Char → List Char)
    (zone : Zone) : Zone where
  side := zone.side
  span := zone.span.placed place
  text := spell zone.text
  pieces := zone.pieces.map (Piece.respelled spell)

/-- An edit taken to its place and spelled in another way. -/
def Edit.placed (place : Nat → Nat) (spell : List Char → List Char)
    (e : Edit) : Edit :=
  ⟨e.span.placed place, spell e.text⟩

/-- A violation taken to its place and spelled in another way. -/
def Violation.placed (place : Nat → Nat) (spell : List Char → List Char)
    (v : Violation) : Violation where
  side := v.side
  span := v.span.placed place
  zoneText := spell v.zoneText
  edit := v.edit.map (Edit.placed place spell)

@[simp] theorem Text.Span.placed_id : Span.placed id = id := rfl

@[simp] theorem Call.placed_id (call : Call) : call.placed id = call := by
  simp [Call.placed]

@[simp] theorem Piece.respelled_id : Piece.respelled id = id := by
  funext p
  cases p <;> rfl

/-! ### Texts that carry others -/

/-- Holds if a text has the slices of another that end by a limit: at
places that keep their order, and spelled character by character, where
parentheses stay what they are. -/
structure Text.Carries (place : Nat → Nat) (spell : List Char → List Char)
    (limit : Nat) (s s' : List Char) : Prop where
  le_iff (m n : Nat) : place m ≤ place n ↔ m ≤ n
  slice (a : Nat) {b : Nat} (h : b ≤ limit) :
    slice? s' ⟨place a, place b⟩ = (slice? s ⟨a, b⟩).map spell
  append (t u : List Char) : spell (t ++ u) = spell t ++ spell u
  paren : ∀ p ∈ ['(', ')'], spell [p] = [p] ∧ ∀ c, p ∈ spell [c] → c = p

namespace Text.Carries

variable {place : Nat → Nat} {spell : List Char → List Char} {limit : Nat}
  {s s' : List Char} (h : Carries place spell limit s s')

include h

theorem lt_iff (m n : Nat) : place m < place n ↔ m < n := by
  rw [← Nat.not_le, h.le_iff, Nat.not_le]

theorem spell_nil : spell [] = [] := by
  have hnil := h.append [] []
  rw [List.append_nil] at hnil
  exact List.self_eq_append_right.1 hnil

theorem mem_of_mem_spell {p : Char} (hp : p ∈ ['(', ')']) {t : List Char}
    (ht : p ∈ spell t) : p ∈ t := by
  induction t with
  | nil =>
    rw [h.spell_nil] at ht
    exact ht
  | cons c t ih =>
    have happend : spell (c :: t) = spell [c] ++ spell t := h.append [c] t
    rw [happend, List.mem_append] at ht
    rcases ht with hc | ht
    · exact List.mem_cons.2 (.inl ((h.paren p hp).2 c hc).symm)
    · exact List.mem_cons_of_mem c (ih ht)

theorem text_respelled (ps : List Piece) :
    (ps.map (Piece.respelled spell)).flatMap Piece.text =
      spell (ps.flatMap Piece.text) := by
  induction ps with
  | nil => exact h.spell_nil.symm
  | cons p ps ih =>
    have hp : (p.respelled spell).text = spell p.text := by cases p <;> rfl
    rw [List.map_cons, List.flatMap_cons, List.flatMap_cons, ih, hp, h.append]

/-! #### Pieces -/

theorem gapOf (a : Nat) {b : Nat} (hb : b ≤ limit) :
    gapOf? s' ⟨place a, place b⟩ =
      (gapOf? s ⟨a, b⟩).map (List.map (Piece.respelled spell)) := by
  rw [gapOf?, gapOf?, h.slice a hb]
  simp only [h.lt_iff]
  split
  · rw [Option.map_map, Option.map_map]
    rfl
  · rfl

/-- A stretch is cut into the same pieces.  Where its bounds start matters
only to the arguments in front of them. -/
theorem piecesFrom {bounds : Span} (hstop : bounds.stop ≤ limit) {start : Nat}
    (cursor : Nat) {arguments : List Span}
    (hstart : ∀ arg ∈ arguments,
      place arg.stop ≤ start ↔ arg.stop ≤ bounds.start) :
    piecesFrom? s' ⟨start, place bounds.stop⟩ (place cursor)
        (arguments.map (Span.placed place)) =
      (piecesFrom? s bounds cursor arguments).map
        (List.map (Piece.respelled spell)) := by
  induction arguments generalizing cursor with
  | nil => exact h.gapOf cursor hstop
  | cons arg rest ih =>
    have harg := hstart arg List.mem_cons_self
    have hrest (cursor : Nat) :=
      ih cursor fun a ha => hstart a (List.mem_cons_of_mem arg ha)
    simp only [List.map_cons, piecesFrom?, Span.placed, harg, h.le_iff,
      h.lt_iff]
    split
    · exact hrest cursor
    · next hin =>
      split
      · rfl
      · next hcut =>
        simp only [Bool.or_eq_true, decide_eq_true_eq, not_or] at hin hcut
        have hbefore : arg.start ≤ limit := by omega
        have hargument : arg.stop ≤ limit := by omega
        rw [h.gapOf cursor hbefore, h.slice arg.start hargument,
          hrest arg.stop]
        rcases gapOf? s ⟨cursor, arg.start⟩ with - | before
        · rfl
        · rcases slice? s arg with - | argument
          · rfl
          · rcases piecesFrom? s bounds arg.stop rest with - | after
            · rfl
            · simp [Piece.respelled]

theorem pieces {bounds : Span} (hstop : bounds.stop ≤ limit)
    (arguments : List Span) :
    pieces? s' (arguments.map (Span.placed place)) (bounds.placed place) =
      (pieces? s arguments bounds).map (List.map (Piece.respelled spell)) :=
  h.piecesFrom hstop bounds.start fun _ _ => h.le_iff _ _

/-! #### Parentheses -/

/-- The places of a slice lie as far apart as its spelling is wide. -/
theorem place_add_width {t : List Char} {a b : Nat} (hb : b ≤ limit)
    (ht : slice? s ⟨a, b⟩ = some t) :
    place a + byteLength (spell t) = place b := by
  have hslice := h.slice a hb
  rw [ht] at hslice
  exact byteLength_slice hslice

/-- The `(` is found at its place. -/
theorem parenStop {a b : Nat} (hb : b ≤ limit) :
    ((slice? s' ⟨place a, place b⟩).bind afterParen?).map (place a + ·) =
      (((slice? s ⟨a, b⟩).bind afterParen?).map (a + ·)).map place := by
  rw [h.slice a hb]
  rcases hbetween : slice? s ⟨a, b⟩ with - | between
  · rfl
  · show (afterParen? (spell between)).map (place a + ·) =
      ((afterParen? between).map (a + ·)).map place
    by_cases hparen : '(' ∈ between
    · obtain ⟨front, back, rfl, hfront⟩ := List.eq_append_cons_of_mem hparen
      have hopening := (h.paren '(' List.mem_cons_self).1
      have hspell : spell (front ++ '(' :: back) =
          spell front ++ '(' :: spell back := by
        rw [h.append, ← List.singleton_append, h.append, hopening]
        rfl
      have hcut : slice? s ⟨a, a + (byteLength front + 1)⟩ =
          some (front ++ ['(']) := by
        obtain ⟨before, after, rfl, hbefore, -⟩ :=
          slice?_eq_some_iff.1 hbetween
        exact slice?_eq_some_iff.2 ⟨before, back ++ after, by simp, hbefore,
          congrArg (a + ·) (byteLength_append front ['(']).symm⟩
      have hwidth := byteLength_slice hbetween
      have hlimit : a + (byteLength front + 1) ≤ limit := by
        rw [byteLength_append, byteLength_cons] at hwidth
        have hone : ('(' : Char).utf8Size = 1 := rfl
        simp only at hwidth
        omega
      have hplace := h.place_add_width hlimit hcut
      rw [h.append, hopening, byteLength_append] at hplace
      rw [hspell, afterParen_append hfront,
        afterParen_append (mt (h.mem_of_mem_spell List.mem_cons_self) hfront)]
      exact congrArg some hplace
    · rw [afterParen_eq_none hparen,
        afterParen_eq_none (mt (h.mem_of_mem_spell List.mem_cons_self) hparen)]
      rfl

theorem place_pred {n : Nat} (hn : n ≤ limit)
    (hclosing : slice? s ⟨n - 1, n⟩ = some [')']) :
    place n - 1 = place (n - 1) := by
  have hwidth := h.place_add_width hn hclosing
  rw [(h.paren ')' (by simp)).1] at hwidth
  have hone : place (n - 1) + 1 = place n := hwidth
  omega

/-- A place is a boundary only if the offset is one. -/
theorem isBoundary_of_place {n : Nat} (hn : n ≤ limit)
    (hplace : IsBoundary s' (place n)) : IsBoundary s n := by
  have hempty : slice? s ⟨0, 0⟩ = some [] := slice?_self_iff.2 ⟨[], s, rfl, rfl⟩
  have hzero := h.slice 0 (Nat.zero_le limit)
  rw [hempty] at hzero
  have hwhole : (slice? s' ⟨place 0, place n⟩).isSome = true :=
    slice?_isSome_iff.2 ⟨(h.le_iff 0 n).2 (Nat.zero_le n),
      (slice?_isSome_iff.1 (Option.isSome_of_eq_some hzero)).2.1, hplace⟩
  rw [h.slice 0 hn, Option.isSome_map] at hwhole
  exact (slice?_isSome_iff.1 hwhole).2.2

/-- A `)` ends at a place if it ends at the offset. -/
theorem closing_iff {n : Nat} (hn : n ≤ limit) (hpos : 0 < n) :
    slice? s' ⟨place n - 1, place n⟩ = some [')'] ↔
      slice? s ⟨n - 1, n⟩ = some [')'] := by
  constructor
  · intro hclosing
    have hboundary : IsBoundary s' (place n) :=
      (slice?_isSome_iff.1 (Option.isSome_of_eq_some hclosing)).2.2
    obtain ⟨m, c, hm, hlast⟩ :=
      exists_last (h.isBoundary_of_place hn hboundary) hpos
    -- the `)` is the end of what the last character is spelled as
    have hspelled := h.slice m hn
    rw [hlast] at hspelled
    have hlt : place m < place n := by
      have hc := c.utf8Size_pos
      exact (h.lt_iff m n).2 (by omega)
    have hsuffix : [')'] <:+ spell [c] :=
      suffix_of_slice? hspelled hclosing (by omega)
    obtain rfl := (h.paren ')' (by simp)).2 c (hsuffix.subset (by simp))
    have hone : (')' : Char).utf8Size = 1 := rfl
    have hpred : n - 1 = m := by omega
    rw [hpred]
    exact hlast
  · intro hclosing
    have hslice := h.slice (n - 1) hn
    rw [hclosing] at hslice
    rw [h.place_pred hn hclosing]
    exact hslice.trans (congrArg some (h.paren ')' (by simp)).1)

end Text.Carries

/-! ### How zones are found -/

/-- Holds of bounds that run backwards or reach out of a call. -/
def BadBounds (call : Call) (bounds : Span) : Prop :=
  (bounds.stop < bounds.start ∨ bounds.start ≤ call.span.start) ∨
    call.span.stop ≤ bounds.stop

theorem zone_of_bad {source : List Char} {call : Call} {side : Side}
    {bounds : Span} (h : BadBounds call bounds) :
    zone? source call side bounds = none :=
  if_pos (by simpa [BadBounds] using h)

/-- A zone is found where its bounds lie in the call, are a slice, and cut no
argument. -/
theorem zone_eq_bind {source : List Char} {call : Call} {side : Side}
    {bounds : Span} (h : ¬ BadBounds call bounds) :
    zone? source call side bounds =
      (slice? source bounds).bind fun _ =>
        (pieces? source call.arguments bounds).map fun ps =>
          ⟨side, bounds, ps.flatMap Piece.text, ps⟩ := by
  have hbounds : ¬ (decide (bounds.stop < bounds.start) ||
      decide (bounds.start ≤ call.span.start) ||
      decide (call.span.stop ≤ bounds.stop)) = true := by
    simpa [BadBounds] using h
  rw [zone?, if_neg hbounds]
  rcases hslice : slice? source bounds with - | text
  · rfl
  · rcases hpieces : pieces? source call.arguments bounds with - | ps
    · rfl
    · have hspells := slice_piecesFrom hpieces (slice?_start hslice)
        (by rw [BadBounds] at h; omega)
      obtain rfl := Option.some.inj (hslice.symm.trans hspells)
      rfl

theorem leadingZone_eq_bind (source : List Char) (call : Call) (config : Span) :
    leadingZone? source call config =
      (((slice? source ⟨call.argsFrom, config.start⟩).bind afterParen?).map
        (call.argsFrom + ·)).bind fun start =>
          zone? source call .leading ⟨start, config.start⟩ := by
  rw [leadingZone?]
  rcases slice? source ⟨call.argsFrom, config.start⟩ with - | between
  · rfl
  · show (afterParen? between).bind _ = ((afterParen? between).map _).bind _
    rcases afterParen? between <;> rfl

theorem violations_of_covers {target : Target} {source : List Char}
    {call : Call} (h : (call.calleeText? source).any target.covers = true) :
    violations target source call =
      (zones source call).filterMap Zone.violation? := by
  obtain ⟨callee, hcallee, hcovers⟩ := (Option.any_eq_true _ _).1 h
  simp only [violations, hcallee, hcovers, if_true]

theorem violations_of_not_covers {target : Target} {source : List Char}
    {call : Call} (h : (call.calleeText? source).any target.covers = false) :
    violations target source call = [] := by
  rw [violations]
  rcases hcallee : call.calleeText? source with - | callee
  · rfl
  · rw [hcallee] at h
    exact if_neg (by simpa using h)

/-- What the violations of a call are, once it is known what its zones are. -/
theorem violations_of_zones {α β : Type} {target : Target} {source : List Char}
    {call : Call} {plans : List α} {zone : α → Zone} {found : α → Option β}
    {violation : β → Violation}
    (hcovers : (call.calleeText? source).any target.covers = true)
    (hzones : zones source call = plans.map zone)
    (hfound : ∀ p, (zone p).violation? = (found p).map violation) :
    violations target source call = (plans.filterMap found).map violation := by
  rw [violations_of_covers hcovers, hzones, List.filterMap_map,
    List.map_filterMap]
  exact congrArg (List.filterMap · plans) (funext hfound)

/-- A zone spelled in another way is the same violation, if its breaks, its
line comments and its one-line form are the same. -/
theorem Zone.violation_placed {place : Nat → Nat}
    {spell : List Char → List Char} {zone : Zone}
    (hlines : (zone.placed place spell).spansLines = zone.spansLines)
    (hcomment : (zone.placed place spell).hasLineComment = zone.hasLineComment)
    (hcompact : zone.hasLineComment = false →
      (zone.placed place spell).compact = spell zone.compact) :
    (zone.placed place spell).violation? =
      zone.violation?.map (Violation.placed place spell) := by
  rw [Zone.violation?, Zone.violation?, hlines, hcomment]
  rcases zone.spansLines
  · rfl
  · rcases hnone : zone.hasLineComment
    · rw [hcompact hnone]
      rfl
    · rfl

/-! ### Texts that hold a call alike -/

/-- A zone of several texts: its pieces are told for each of them. -/
structure ZonePlan (π : Type) where
  side : Side
  span : Span
  pieces : π

/-- The zone in one of the texts. -/
def ZonePlan.zone {π : Type} (place : Nat → Nat) (spell : π → List Piece)
    (plan : ZonePlan π) : Zone where
  side := plan.side
  span := plan.span.placed place
  text := (spell plan.pieces).flatMap Piece.text
  pieces := spell plan.pieces

/-- What texts have in common that hold a call alike.  The offsets that the
zones depend on (`Known`) keep their order in each text; what lies between
two of them is cut into the same pieces, which `spell` tells for each text;
the `(` stands in the same place, and so does the `)`. -/
structure Alike {ι π : Type} (source : ι → List Char) (place : ι → Nat → Nat)
    (spell : ι → π → List Piece) (Known : Nat → Prop) (Fits : Span → π → Prop)
    (call : Call) (config : Span) : Prop where
  le_iff (i : ι) {m n : Nat} (hm : Known m) (hn : Known n) :
    place i m ≤ place i n ↔ m ≤ n
  start : Known call.span.start
  stop : Known call.span.stop
  configStart : Known config.start
  configStop : Known config.stop
  pieces {bounds : Span} (hstart : Known bounds.start)
    (hstop : Known bounds.stop) (hforward : bounds.start ≤ bounds.stop)
    (hinside : bounds.stop < call.span.stop) :
    ∃ plan : Option π, (∀ p ∈ plan, Fits bounds p) ∧ ∀ i,
      ((slice? (source i) (bounds.placed (place i))).bind fun _ =>
        pieces? (source i) (call.arguments.map (Span.placed (place i)))
          (bounds.placed (place i))) = plan.map (spell i)
  paren (hinside : config.start < call.span.stop) :
    ∃ found : Option Nat, (∀ n ∈ found, Known n) ∧ ∀ i,
      ((slice? (source i) ⟨place i call.argsFrom, place i config.start⟩).bind
        afterParen?).map (place i call.argsFrom + ·) = found.map (place i)
  closing (hpos : 0 < call.span.stop) :
    (∀ i, slice? (source i)
      ⟨place i call.span.stop - 1, place i call.span.stop⟩ ≠ some [')']) ∨
    Known (call.span.stop - 1) ∧ ∀ i,
      slice? (source i)
        ⟨place i call.span.stop - 1, place i call.span.stop⟩ = some [')'] ∧
      place i call.span.stop - 1 = place i (call.span.stop - 1)

namespace Alike

variable {ι π : Type} {source : ι → List Char} {place : ι → Nat → Nat}
  {spell : ι → π → List Piece} {Known : Nat → Prop} {Fits : Span → π → Prop}
  {call : Call} {config : Span}
  (h : Alike source place spell Known Fits call config)

include h

theorem badBounds_iff (i : ι) {bounds : Span} (hstart : Known bounds.start)
    (hstop : Known bounds.stop) :
    BadBounds (call.placed (place i)) (bounds.placed (place i)) ↔
      BadBounds call bounds := by
  simp only [BadBounds, Span.placed, Call.placed, ← Nat.not_le,
    h.le_iff i hstart hstop, h.le_iff i hstart h.start, h.le_iff i h.stop hstop]

theorem exists_zone (side : Side) {bounds : Span} (hstart : Known bounds.start)
    (hstop : Known bounds.stop) :
    ∃ plan : Option (ZonePlan π),
      (∀ p ∈ plan, Fits p.span p.pieces) ∧
      ∀ i, zone? (source i) (call.placed (place i)) side
          (bounds.placed (place i)) =
        plan.map (·.zone (place i) (spell i)) := by
  by_cases hbad : BadBounds call bounds
  · exact ⟨none, by simp, fun i =>
      zone_of_bad ((h.badBounds_iff i hstart hstop).2 hbad)⟩
  · have hinside : bounds.start ≤ bounds.stop ∧
        bounds.stop < call.span.stop := by
      rw [BadBounds] at hbad
      omega
    obtain ⟨plan, hfits, hplan⟩ := h.pieces hstart hstop hinside.1 hinside.2
    refine ⟨plan.map fun p => ⟨side, bounds, p⟩, ?_, fun i => ?_⟩
    · intro p hp
      obtain ⟨q, hq, rfl⟩ := Option.map_eq_some_iff.1 hp
      exact hfits q hq
    · rw [zone_eq_bind (mt (h.badBounds_iff i hstart hstop).1 hbad),
        Option.map_map]
      have hpieces := congrArg (Option.map fun ps =>
        (⟨side, bounds.placed (place i), ps.flatMap Piece.text, ps⟩ : Zone))
        (hplan i)
      rw [Option.map_bind, Option.map_map] at hpieces
      exact hpieces

/-- The zone in front of the objects. -/
theorem exists_leadingZone :
    ∃ plan : Option (ZonePlan π),
      (∀ p ∈ plan, Fits p.span p.pieces) ∧
      ∀ i, leadingZone? (source i) (call.placed (place i))
          (config.placed (place i)) =
        plan.map (·.zone (place i) (spell i)) := by
  by_cases hinside : config.start < call.span.stop
  · obtain ⟨found, hknown, hfound⟩ := h.paren hinside
    have hlead (i : ι) : leadingZone? (source i) (call.placed (place i))
        (config.placed (place i)) =
          (found.map (place i)).bind fun start =>
            zone? (source i) (call.placed (place i)) .leading
              ⟨start, place i config.start⟩ := by
      rw [leadingZone_eq_bind, ← hfound i]
      rfl
    rcases found with - | start
    · exact ⟨none, by simp, hlead⟩
    · have hstart : Known (⟨start, config.start⟩ : Span).start :=
        hknown start rfl
      obtain ⟨plan, hfits, hplan⟩ := h.exists_zone .leading hstart h.configStart
      exact ⟨plan, hfits, fun i => (hlead i).trans (hplan i)⟩
  · -- objects behind the call leave no zone
    refine ⟨none, by simp, fun i => ?_⟩
    have hout : place i call.span.stop ≤ place i config.start :=
      (h.le_iff i h.stop h.configStart).2 (Nat.not_lt.1 hinside)
    rw [leadingZone_eq_bind]
    refine Option.bind_eq_none_iff.2 fun start _ => zone_of_bad (.inr hout)

/-- The zone behind the objects. -/
theorem exists_trailingZone :
    ∃ plan : Option (ZonePlan π),
      (∀ p ∈ plan, Fits p.span p.pieces) ∧
      ∀ i, trailingZone? (source i) (call.placed (place i))
          (config.placed (place i)) =
        plan.map (·.zone (place i) (spell i)) := by
  by_cases hpos : 0 < call.span.stop
  · rcases h.closing hpos with hnone | ⟨hlast, hclosing⟩
    · refine ⟨none, by simp, fun i => ?_⟩
      rw [trailingZone?]
      split
      · rfl
      · exact if_neg (hnone i)
    · have hstop : Known (⟨config.stop, call.span.stop - 1⟩ : Span).stop := hlast
      obtain ⟨plan, hfits, hplan⟩ :=
        h.exists_zone .trailing h.configStop hstop
      refine ⟨plan, hfits, fun i => ?_⟩
      obtain ⟨hparen, hpred⟩ := hclosing i
      have hne : (call.placed (place i)).span.stop ≠ 0 := by
        intro hzero
        have hwidth : place i call.span.stop - 1 + 1 = place i call.span.stop :=
          byteLength_slice hparen
        rw [show place i call.span.stop = 0 from hzero] at hwidth
        cases hwidth
      rw [← hplan i, trailingZone?, if_neg hne]
      refine (if_pos hparen).trans ?_
      show zone? _ _ _ ⟨_, place i call.span.stop - 1⟩ = _
      rw [hpred]
      rfl
  · -- a call that ends where the text starts holds no zone
    refine ⟨none, by simp, fun i => ?_⟩
    have hle : place i call.span.stop ≤ place i call.span.start :=
      (h.le_iff i h.stop h.start).2 (by omega)
    have hbad : BadBounds (call.placed (place i))
        ⟨place i config.stop, place i call.span.stop - 1⟩ := by
      show (place i call.span.stop - 1 < place i config.stop ∨
        place i config.stop ≤ place i call.span.start) ∨
          place i call.span.stop ≤ place i call.span.stop - 1
      omega
    rw [trailingZone?]
    split
    · rfl
    · split
      · exact zone_of_bad hbad
      · rfl

/-- The zones of a call are the same in all texts that hold it alike. -/
theorem exists_zones (hconfig : call.config = some config) :
    ∃ plans : List (ZonePlan π),
      (∀ p ∈ plans, Fits p.span p.pieces) ∧
      ∀ i, zones (source i) (call.placed (place i)) =
        plans.map (·.zone (place i) (spell i)) := by
  obtain ⟨lead, hlead, hleading⟩ := h.exists_leadingZone
  obtain ⟨trail, htrail, htrailing⟩ := h.exists_trailingZone
  refine ⟨lead.toList ++ trail.toList, fun p hp => ?_, fun i => ?_⟩
  · rcases List.mem_append.1 hp with hp | hp
    · exact hlead p (Option.mem_toList.1 hp)
    · exact htrail p (Option.mem_toList.1 hp)
  · have hplaced : (call.placed (place i)).config =
        some (config.placed (place i)) := by
      simp [Call.placed, hconfig]
    simp only [zones, hplaced, hleading i, htrailing i]
    rcases lead <;> rcases trail <;> rfl

end Alike

/-! ### Zones in a text that carries another -/

namespace Text.Carries

variable {place : Nat → Nat} {spell : List Char → List Char} {limit : Nat}
  {s s' : List Char} (h : Carries place spell limit s s')

include h

/-- A text that carries another up to the end of a call holds it alike. -/
theorem alike {call : Call} (hspan : call.span.stop ≤ limit) (config : Span) :
    Alike (fun i => cond i s' s) (fun i => cond i place id)
      (fun i => List.map (Piece.respelled (cond i spell id)))
      (fun _ => True) (fun _ _ => True) call config where
  le_iff := by
    rintro (- | -) m n - -
    · exact Iff.rfl
    · exact h.le_iff m n
  start := trivial
  stop := trivial
  configStart := trivial
  configStop := trivial
  pieces {bounds} _ _ _ hinside := by
    have hlimit : bounds.stop ≤ limit := by omega
    refine ⟨(slice? s bounds).bind fun _ => pieces? s call.arguments bounds,
      fun _ _ => trivial, ?_⟩
    rintro (- | -)
    · simp
    · show ((slice? s' (bounds.placed place)).bind fun _ => pieces? s'
        (call.arguments.map (Span.placed place)) (bounds.placed place)) = _
      rw [h.pieces hlimit, Span.placed, h.slice bounds.start hlimit]
      rcases slice? s bounds with - | text
      · rfl
      · rfl
  paren hinside := by
    refine ⟨((slice? s ⟨call.argsFrom, config.start⟩).bind afterParen?).map
      (call.argsFrom + ·), fun _ _ => trivial, ?_⟩
    rintro (- | -)
    · exact Option.map_id'.symm
    · exact h.parenStop (by omega)
  closing hpos := by
    by_cases hclosing :
        slice? s ⟨call.span.stop - 1, call.span.stop⟩ = some [')']
    · refine .inr ⟨trivial, ?_⟩
      rintro (- | -)
      · exact ⟨hclosing, rfl⟩
      · exact ⟨(h.closing_iff hspan hpos).2 hclosing, h.place_pred hspan hclosing⟩
    · refine .inl ?_
      rintro (- | -)
      · exact hclosing
      · exact mt (h.closing_iff hspan hpos).1 hclosing

/-- **The zones of a call, where one text carries another**, are those of the
other, taken to their places. -/
theorem zones {call : Call} (hspan : call.span.stop ≤ limit) :
    zones s' (call.placed place) =
      (zones s call).map (Zone.placed place spell) := by
  rcases hconfig : call.config with - | config
  · simp [AnimLint.zones, Call.placed, hconfig]
  · obtain ⟨plans, -, hplans⟩ := (h.alike hspan config).exists_zones hconfig
    have hs : AnimLint.zones s (call.placed id) = _ := hplans false
    have hs' : AnimLint.zones s' (call.placed place) = _ := hplans true
    rw [Call.placed_id] at hs
    rw [hs, hs', List.map_map]
    refine List.map_congr_left fun plan _ => ?_
    have htext := h.text_respelled plan.pieces
    simp [ZonePlan.zone, Zone.placed, htext]

/-- The violations of a call, where one text carries another: nothing about
how it is spelled may matter to the target and to the rule. -/
theorem violations {call : Call} {target : Target}
    (hspan : call.span.stop ≤ limit) (hcallee : call.callee.stop ≤ limit)
    (hcovers : ∀ t, target.covers (spell t) = target.covers t)
    (hrule : ∀ zone : Zone, (zone.placed place spell).violation? =
      zone.violation?.map (Violation.placed place spell)) :
    violations target s' (call.placed place) =
      (violations target s call).map (Violation.placed place spell) := by
  have htext : (call.placed place).calleeText? s' =
      (call.calleeText? s).map spell := h.slice call.callee.start hcallee
  have hany : ((call.placed place).calleeText? s').any target.covers =
      (call.calleeText? s).any target.covers := by
    rw [htext, Option.any_map]
    exact congrArg (Option.any · _) (funext hcovers)
  rcases hlooked : (call.calleeText? s).any target.covers
  · rw [violations_of_not_covers hlooked,
      violations_of_not_covers (hany.trans hlooked)]
    rfl
  · rw [violations_of_covers hlooked,
      violations_of_zones (hany.trans hlooked) (h.zones hspan) hrule]

end Text.Carries

end AnimLint
