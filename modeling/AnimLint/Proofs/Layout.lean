/-
AnimLint/Proofs/Layout.lean

A call laid out as text: what stands in front of it, its callee, the `(`, the
arguments in front of the objects, the objects and all between them, the
arguments behind them, the `)`, and what follows.  The ranges of a call are read
off its layout by adding widths (`Layout.call`), so the same layout with other
gaps is the same call with its ranges moved along.

Every call whose ranges make sense is laid out like that
(`Call.WellPlaced.exists_layout`), and its zones are the stretches of the layout
on both sides of the objects (`Layout.zones_eq`).
-/
import AnimLint.Proofs.GapText
import AnimLint.Proofs.ZoneShape

namespace AnimLint

open Text Script.Tree

/-! ### Arguments and gaps in turn -/

/-- An argument and the gap in front of it. -/
structure Slot where
  gap : List Char
  argument : List Char

/-- The text of a row of arguments and gaps. -/
def slotsText : List Slot → List Char
  | [] => []
  | s :: r => s.gap ++ (s.argument ++ slotsText r)

/-- The ranges of the arguments of a row that starts at a byte. -/
def slotSpans (start : Nat) : List Slot → List Span
  | [] => []
  | s :: r =>
    ⟨start + byteLength s.gap, start + byteLength s.gap + byteLength s.argument⟩ ::
      slotSpans (start + byteLength s.gap + byteLength s.argument) r

/-- The pieces of a row with a last gap behind it. -/
def slotPieces (last : List Char) : List Slot → List Piece
  | [] => gapPiece last
  | s :: r => gapPiece s.gap ++ .argument s.argument :: slotPieces last r

@[simp] theorem slotsText_nil : slotsText [] = [] := rfl

@[simp] theorem slotsText_cons (s : Slot) (r : List Slot) :
    slotsText (s :: r) = s.gap ++ (s.argument ++ slotsText r) := rfl

@[simp] theorem slotsText_append (a b : List Slot) :
    slotsText (a ++ b) = slotsText a ++ slotsText b := by
  induction a with
  | nil => rfl
  | cons s a ih => simp [ih]

theorem slotSpans_append (start : Nat) (a b : List Slot) :
    slotSpans start (a ++ b) =
      slotSpans start a ++ slotSpans (start + byteLength (slotsText a)) b := by
  induction a generalizing start with
  | nil => rfl
  | cons s a ih => simp [slotSpans, ih, Nat.add_assoc]

theorem length_slotSpans (start : Nat) (row : List Slot) :
    (slotSpans start row).length = row.length := by
  induction row generalizing start with
  | nil => rfl
  | cons s row ih => rw [slotSpans, List.length_cons, ih, List.length_cons]

/-- The arguments of a row lie within it. -/
theorem within_slotSpans {start : Nat} {row : List Slot} :
    ∀ a ∈ slotSpans start row, start ≤ a.start ∧
      a.stop ≤ start + byteLength (slotsText row) := by
  induction row generalizing start with
  | nil =>
    intro a ha
    cases ha
  | cons s row ih =>
    intro a ha
    simp only [slotsText_cons, byteLength_append]
    rcases List.mem_cons.1 ha with rfl | ha
    · simp only
      omega
    · have := ih a ha
      omega

/-- The last argument of a row ends where the row ends. -/
theorem stop_getLast_slotSpans (start : Nat) (s : Slot) (row : List Slot) :
    ((slotSpans start (s :: row)).getLast (List.cons_ne_nil _ _)).stop =
      start + byteLength (slotsText (s :: row)) := by
  induction row generalizing start s with
  | nil => simp [slotSpans, Nat.add_assoc]
  | cons t row ih =>
    have hrest := ih (start + byteLength s.gap + byteLength s.argument) t
    simp only [slotSpans, slotsText_cons, byteLength_append] at hrest ⊢
    rw [List.getLast_cons (List.cons_ne_nil _ _), hrest]
    omega

/-- Cutting a stretch of text at the arguments of its row gives the pieces of
the row. -/
theorem piecesFrom_slots {row : List Slot} (bounds : Span) (later : List Span)
    (hrow : ∀ s ∈ row, s.argument ≠ []) (pre last post : List Char)
    (hstart : bounds.start ≤ byteLength pre)
    (hstop : bounds.stop = byteLength (pre ++ (slotsText row ++ last)))
    (hlater : ∀ s ∈ later, bounds.stop ≤ s.start) :
    piecesFrom? (pre ++ (slotsText row ++ (last ++ post))) bounds (byteLength pre)
        (slotSpans (byteLength pre) row ++ later) = some (slotPieces last row) := by
  induction row generalizing pre with
  | nil =>
    have hskip := piecesFrom_skip (pre ++ (last ++ post)) (byteLength pre) []
      fun s hs => Or.inr (hlater s hs)
    have hgap := gapOf_eq pre last post
    rw [List.append_nil] at hskip
    simp only [slotsText_nil, List.nil_append, byteLength_append] at hstop
    simp only [slotSpans, List.nil_append, slotsText_nil]
    rw [hskip, piecesFrom?, hstop]
    exact hgap
  | cons s row ih =>
    have hsolid : 0 < byteLength s.argument := by
      have := mt byteLength_eq_zero.1 (hrow s List.mem_cons_self)
      omega
    simp only [slotsText_cons, byteLength_append] at hstop
    have hgap := gapOf_eq pre s.gap (s.argument ++ (slotsText row ++ (last ++ post)))
    have hslice := slice?_mid (pre ++ s.gap) s.argument (slotsText row ++ (last ++ post))
    have hafter :=
      ih (fun t ht => hrow t (List.mem_cons_of_mem s ht)) (pre ++ (s.gap ++ s.argument))
      (by simp only [byteLength_append]; omega)
      (by rw [hstop]; simp only [byteLength_append]; omega)
    have hsource : pre ++ (slotsText (s :: row) ++ (last ++ post)) =
        pre ++ (s.gap ++ (s.argument ++ (slotsText row ++ (last ++ post)))) := by simp
    have hslices : pre ++ (s.gap ++ (s.argument ++ (slotsText row ++ (last ++ post)))) =
        pre ++ s.gap ++ (s.argument ++ (slotsText row ++ (last ++ post))) := by simp
    have hafters : pre ++ (s.gap ++ (s.argument ++ (slotsText row ++ (last ++ post)))) =
        pre ++ (s.gap ++ s.argument) ++ (slotsText row ++ (last ++ post)) := by simp
    have hnext : byteLength (pre ++ (s.gap ++ s.argument)) =
        byteLength pre + byteLength s.gap + byteLength s.argument := by
      simp [Nat.add_assoc]
    rw [byteLength_append, ← hslices] at hslice
    rw [hnext, ← hafters] at hafter
    rw [hsource, slotSpans, List.cons_append, piecesFrom?, if_neg, if_neg]
    · simp only [hgap, hslice, hafter]
      rfl
    · simp only [Bool.or_eq_true, decide_eq_true_eq, not_or]
      omega
    · simp only [Bool.or_eq_true, decide_eq_true_eq, not_or]
      omega

/-! ### Layouts -/

/-- A text around a call and the call itself, in parts. -/
structure Layout where
  before : List Char
  /-- From the start of the call to the callee. -/
  inFront : List Char
  callee : List Char
  /-- From the callee to where the `(` is looked for. -/
  behind : List Char
  blanks : List Char
  /-- The arguments in front of the first object. -/
  front : List Slot
  /-- The gap in front of the first object. -/
  lead : List Char
  object : List Char
  /-- The arguments behind the first object up to the last one. -/
  middle : List Slot
  /-- The arguments behind the last object. -/
  back : List Slot
  /-- The gap in front of the `)`. -/
  last : List Char
  after : List Char

namespace Layout

variable (l : Layout)

/-- The text up to the `(`. -/
def opening : List Char :=
  l.before ++ (l.inFront ++ (l.callee ++ (l.behind ++ (l.blanks ++ ['(']))))

/-- From the `(` to the first object. -/
def frontText : List Char := slotsText l.front ++ l.lead

/-- From the first object to the last. -/
def middleText : List Char := l.object ++ slotsText l.middle

/-- From the last object to the `)`. -/
def backText : List Char := slotsText l.back ++ l.last

/-- The text that is laid out. -/
def source : List Char :=
  l.opening ++ (l.frontText ++ (l.middleText ++ (l.backText ++ (')' :: l.after))))

/-- Where the first object starts. -/
def objectStart : Nat := byteLength l.opening + byteLength l.frontText

/-- Where the last object ends. -/
def objectStop : Nat := l.objectStart + byteLength l.middleText

/-- The arguments with their gaps. -/
def slots : List Slot := l.front ++ (⟨l.lead, l.object⟩ :: l.middle ++ l.back)

/-- The call that is laid out, as ranges of its text. -/
def call : Call where
  span := ⟨byteLength l.before, l.objectStop + byteLength l.backText + 1⟩
  callee := ⟨byteLength (l.before ++ l.inFront),
    byteLength (l.before ++ l.inFront) + byteLength l.callee⟩
  argsFrom := byteLength (l.before ++ (l.inFront ++ (l.callee ++ l.behind)))
  arguments := slotSpans (byteLength l.opening) l.slots
  config := some ⟨l.objectStart, l.objectStop⟩

/-- What the ranges of a call ask of its layout. -/
structure Sound : Prop where
  blanks : '(' ∉ l.blanks
  arguments : ∀ s ∈ l.front ++ l.back, s.argument ≠ []
  gaps : ∀ s ∈ l.front ++ l.back, ∃ parts, GapText s.gap parts
  lead : ∃ parts, GapText l.lead parts
  last : ∃ parts, GapText l.last parts

/-- The zone in front of the first object. -/
def leading : Zone where
  side := .leading
  span := ⟨byteLength l.opening, byteLength l.opening + byteLength l.frontText⟩
  text := l.frontText
  pieces := slotPieces l.lead l.front

/-- The zone behind the last object. -/
def trailing : Zone where
  side := .trailing
  span := ⟨l.objectStop, l.objectStop + byteLength l.backText⟩
  text := l.backText
  pieces := slotPieces l.last l.back

variable {l : Layout}

theorem calleeText_eq : l.call.calleeText? l.source = some l.callee := by
  have hsource : l.source =
      l.before ++ l.inFront ++ (l.callee ++ (l.behind ++ (l.blanks ++ ('(' ::
      (l.frontText ++ (l.middleText ++ (l.backText ++ (')' :: l.after)))))))) := by
    simp [source, opening]
  rw [Call.calleeText?, hsource]
  exact slice?_mid _ _ _

theorem leadingZone_eq (h : l.Sound) :
    leadingZone? l.source l.call ⟨l.objectStart, l.objectStop⟩ = some l.leading := by
  have hone : ('(' : Char).utf8Size = 1 := rfl
  have hbetween : slice? l.source ⟨l.call.argsFrom, l.objectStart⟩ =
      some (l.blanks ++ '(' :: l.frontText) := by
    refine slice?_eq_some_iff.2 ⟨l.before ++ (l.inFront ++ (l.callee ++ l.behind)),
      l.middleText ++ (l.backText ++ (')' :: l.after)), ?_, rfl, ?_⟩
    · simp [source, opening]
    · simp [call, objectStart, opening, hone]
      omega
  have hskip : l.call.argsFrom + (byteLength l.blanks + 1) = byteLength l.opening := by
    simp [call, opening, hone]
    omega
  have htext : slice? l.source ⟨byteLength l.opening, l.objectStart⟩ = some l.frontText :=
    slice?_mid _ _ _
  have hlater : ∀ s ∈ slotSpans l.objectStart (⟨[], l.object⟩ :: l.middle ++ l.back),
      l.objectStart ≤ s.start := fun s hs => (within_slotSpans s hs).1
  have hpieces := piecesFrom_slots ⟨byteLength l.opening, l.objectStart⟩ _
    (fun s hs => h.arguments s (List.mem_append_left _ hs)) l.opening l.lead
    (l.middleText ++ (l.backText ++ (')' :: l.after))) (Nat.le_refl _)
    (by simp [objectStart, frontText]) hlater
  have hsource : l.source = l.opening ++ (slotsText l.front ++ (l.lead ++
      (l.middleText ++ (l.backText ++ (')' :: l.after))))) := by
    simp [source, frontText]
  have harguments : l.call.arguments = slotSpans (byteLength l.opening) l.front ++
      slotSpans l.objectStart (⟨[], l.object⟩ :: l.middle ++ l.back) := by
    show slotSpans (byteLength l.opening) l.slots = _
    rw [slots, slotSpans_append]
    simp [slotSpans, objectStart, frontText, Nat.add_assoc]
  rw [← hsource, ← harguments] at hpieces
  rw [leadingZone?]
  simp only [hbetween, Option.bind_eq_bind, Option.bind_some,
    afterParen_append h.blanks, hskip]
  refine zone_eq _ ?_ ?_ htext hpieces
  · simp only [call, opening, byteLength_append, byteLength_cons, byteLength_nil, hone]
    omega
  · simp only [call, objectStop]
    omega

theorem trailingZone_eq (h : l.Sound) :
    trailingZone? l.source l.call ⟨l.objectStart, l.objectStop⟩ = some l.trailing := by
  have hone : (')' : Char).utf8Size = 1 := rfl
  let pre := l.opening ++ (l.frontText ++ l.middleText)
  have hpre : byteLength pre = l.objectStop := by
    simp [pre, objectStop, objectStart, Nat.add_assoc]
  have hsource : l.source = pre ++ (l.backText ++ (')' :: l.after)) := by
    simp [source, pre]
  have hstop : l.call.span.stop = l.objectStop + byteLength l.backText + 1 := rfl
  have htext : slice? l.source ⟨l.objectStop, l.objectStop + byteLength l.backText⟩ =
      some l.backText := by
    rw [hsource, ← hpre]
    exact slice?_mid _ _ _
  have hparen : slice? l.source ⟨l.objectStop + byteLength l.backText,
      l.objectStop + byteLength l.backText + 1⟩ = some [')'] := by
    refine slice?_eq_some_iff.2 ⟨pre ++ l.backText, l.after, ?_, ?_, ?_⟩
    · rw [hsource]
      simp
    · rw [byteLength_append, hpre]
    · simp [hone]
  have hearlier :
      ∀ s ∈ slotSpans (byteLength l.opening)
        (l.front ++ (⟨l.lead, l.object⟩ :: l.middle)),
      s.stop ≤ l.objectStop ∨ l.objectStop + byteLength l.backText ≤ s.start := by
    intro s hs
    left
    have := (within_slotSpans s hs).2
    simp only [slotsText_append, slotsText_cons, byteLength_append] at this
    simp only [objectStop, objectStart, frontText, middleText, byteLength_append]
    omega
  have hpieces := piecesFrom_slots ⟨l.objectStop, l.objectStop + byteLength l.backText⟩ []
    (fun s hs => h.arguments s (List.mem_append_right _ hs)) pre l.last (')' :: l.after)
    (Nat.le_of_eq hpre.symm) (by rw [byteLength_append, hpre]; rfl) (by simp)
  have harguments : l.call.arguments =
      slotSpans (byteLength l.opening) (l.front ++ (⟨l.lead, l.object⟩ :: l.middle)) ++
        (slotSpans (byteLength pre) l.back ++ []) := by
    show slotSpans (byteLength l.opening) l.slots = _
    have hslots : l.slots = (l.front ++ (⟨l.lead, l.object⟩ :: l.middle)) ++ l.back := by
      simp [slots]
    rw [hslots, slotSpans_append, List.append_nil]
    simp [pre, frontText, middleText]
  have hback : pre ++ (slotsText l.back ++ (l.last ++ ')' :: l.after)) = l.source := by
    rw [hsource]
    simp [backText]
  rw [hback, hpre] at hpieces
  rw [trailingZone?, hstop, if_neg (Nat.succ_ne_zero _), Nat.add_sub_cancel,
    if_pos hparen]
  refine zone_eq _ ?_ ?_ htext ?_
  · have hopen : ('(' : Char).utf8Size = 1 := rfl
    simp [call, objectStop, objectStart, opening, hopen]
    omega
  · exact Nat.lt_succ_self _
  · rw [harguments, piecesFrom_skip _ _ _ hearlier, hpre]
    exact hpieces

/-- The zones of a call that is laid out. -/
theorem zones_eq (h : l.Sound) : zones l.source l.call = [l.leading, l.trailing] := by
  show (leadingZone? l.source l.call ⟨l.objectStart, l.objectStop⟩).toList ++
    (trailingZone? l.source l.call ⟨l.objectStart, l.objectStop⟩).toList = _
  rw [leadingZone_eq h, trailingZone_eq h]
  rfl

end Layout

/-! ### Calls whose ranges make sense -/

/-- From the byte `cursor` on, gaps and arguments that are not empty take turns
up to `stop`. -/
def Spaced (source : List Char) (stop : Nat) : Nat → List Span → Prop
  | cursor, [] => ∃ gap parts, slice? source ⟨cursor, stop⟩ = some gap ∧ GapText gap parts
  | cursor, argument :: rest =>
    (∃ gap parts, slice? source ⟨cursor, argument.start⟩ = some gap ∧ GapText gap parts) ∧
      (∃ text, slice? source argument = some text ∧ text ≠ []) ∧
      Spaced source stop argument.stop rest

/-- What makes the ranges of a call make sense: they are slices of the text; the
callee lies in front of where the `(` is looked for, and from there blanks lead
to it; gaps and arguments take turns up to the `)`, which is the last byte of
the call; and the range of the objects goes from the start of one argument to
the end of that or a later one. -/
structure Call.WellPlaced (source : List Char) (call : Call) : Prop where
  span : (slice? source call.span).isSome = true
  callee : (slice? source call.callee).isSome = true
  inside : call.span.start ≤ call.callee.start ∧ call.callee.stop ≤ call.argsFrom
  opening : ∃ blanks start, slice? source ⟨call.argsFrom, start⟩ =
    some (blanks ++ ['(']) ∧
    (∀ c ∈ blanks, Script.isSpace c = true ∨ isBlank c = true) ∧
    Spaced source (call.span.stop - 1) start call.arguments
  closing : slice? source ⟨call.span.stop - 1, call.span.stop⟩ = some [')']
  config : ∃ front first more back, call.arguments = front ++ (first :: more ++ back) ∧
    call.config =
      some ⟨first.start, ((first :: more).getLast (List.cons_ne_nil _ _)).stop⟩

/-- Gaps and arguments that take turns make a row. -/
theorem exists_slots {source pre rest : List Char} {stop : Nat} {arguments : List Span}
    (hsource : source = pre ++ rest) (h : Spaced source stop (byteLength pre) arguments) :
    ∃ row last after, rest = slotsText row ++ (last ++ after) ∧
      stop = byteLength (pre ++ (slotsText row ++ last)) ∧
      arguments = slotSpans (byteLength pre) row ∧ (∀ s ∈ row, s.argument ≠ []) ∧
      (∀ s ∈ row, ∃ parts, GapText s.gap parts) ∧ ∃ parts, GapText last parts := by
  -- a slice that starts behind a text is what follows the text
  have hcut : ∀ {pre rest part : List Char} {stop : Nat}, source = pre ++ rest →
      slice? source ⟨byteLength pre, stop⟩ = some part →
      ∃ after, rest = part ++ after ∧ stop = byteLength (pre ++ part) := by
    intro pre rest part stop hsource hpart
    obtain ⟨before, after, heq, hbefore, hstop⟩ := slice?_eq_some_iff.1 hpart
    obtain ⟨rfl, rfl⟩ := append_inj_of_byteLength (hsource.symm.trans heq) hbefore.symm
    exact ⟨after, rfl, by rw [byteLength_append]; exact hstop⟩
  induction arguments generalizing pre rest with
  | nil =>
    obtain ⟨gap, parts, hgap, hparts⟩ := h
    obtain ⟨after, rfl, rfl⟩ := hcut hsource hgap
    exact ⟨[], gap, after, rfl, rfl, rfl, by simp, by simp, parts, hparts⟩
  | cons argument arguments ih =>
    obtain ⟨⟨gap, parts, hgap, hparts⟩, ⟨text, htext, hne⟩, hrest⟩ := h
    obtain ⟨rest, rfl, hstart⟩ := hcut hsource hgap
    rw [← List.append_assoc] at hsource
    have htext' : slice? source ⟨byteLength (pre ++ gap), argument.stop⟩ = some text := by
      rw [← hstart]
      exact htext
    obtain ⟨rest, rfl, hstop⟩ := hcut hsource htext'
    rw [← List.append_assoc] at hsource
    rw [hstop] at hrest
    obtain ⟨row, last, after, rfl, rfl, harguments, hsolid, hgaps, hlast⟩ :=
      ih hsource hrest
    refine ⟨⟨gap, text⟩ :: row, last, after, by simp, by simp, ?_, ?_, ?_, hlast⟩
    · have hargument : argument =
          ⟨byteLength pre + byteLength gap,
            byteLength pre + byteLength gap + byteLength text⟩ := by
        show (⟨argument.start, argument.stop⟩ : Span) = _
        rw [hstart, hstop]
        simp [Nat.add_assoc]
      rw [slotSpans, harguments, hargument]
      simp [Nat.add_assoc]
    · intro s hs
      rcases List.mem_cons.1 hs with rfl | hs
      · exact hne
      · exact hsolid s hs
    · intro s hs
      rcases List.mem_cons.1 hs with rfl | hs
      · exact ⟨parts, hparts⟩
      · exact hgaps s hs

/-- A row whose arguments are parted is parted itself. -/
theorem exists_slots_append {start : Nat} {row : List Slot} {a b : List Span}
    (h : slotSpans start row = a ++ b) :
    ∃ first rest, row = first ++ rest ∧ slotSpans start first = a ∧
      slotSpans (start + byteLength (slotsText first)) rest = b := by
  refine ⟨row.take a.length, row.drop a.length, (List.take_append_drop _ _).symm, ?_⟩
  have hlength : a.length ≤ row.length := by
    rw [← length_slotSpans start row, h, List.length_append]
    omega
  rw [← List.take_append_drop a.length row, slotSpans_append] at h
  exact List.append_inj h (by rw [length_slotSpans, List.length_take_of_le hlength])

/-- The texts that the ranges of a call mark off. -/
theorem Call.WellPlaced.exists_texts {source : List Char} {call : Call}
    (h : call.WellPlaced source) :
    ∃ before inFront callee behind blanks row last after,
      source = before ++ (inFront ++ (callee ++ (behind ++ (blanks ++ ['('])))) ++
        (slotsText row ++ (last ++ (')' :: after))) ∧
      call.span.start = byteLength before ∧
      call.span.stop = byteLength
        (before ++ (inFront ++ (callee ++ (behind ++ (blanks ++ ['('])))) ++
        (slotsText row ++ last)) + 1 ∧
      call.callee =
        ⟨byteLength (before ++ inFront),
          byteLength (before ++ inFront) + byteLength callee⟩ ∧
      call.argsFrom = byteLength (before ++ (inFront ++ (callee ++ behind))) ∧
      call.arguments =
        slotSpans (byteLength
          (before ++ (inFront ++ (callee ++ (behind ++ (blanks ++ ['('])))))) row ∧
      '(' ∉ blanks ∧ (∀ s ∈ row, s.argument ≠ []) ∧
      (∀ s ∈ row, ∃ parts, GapText s.gap parts) ∧
      ∃ parts, GapText last parts := by
  -- each range that is a slice cuts the text in two places
  obtain ⟨whole, hwhole⟩ := Option.isSome_iff_exists.1 h.span
  obtain ⟨callee, hcallee⟩ := Option.isSome_iff_exists.1 h.callee
  obtain ⟨blanks, start, hopening, hblanks, hspaced⟩ := h.opening
  obtain ⟨before, _, hbefore, hspanStart, -⟩ := slice?_eq_some_iff.1 hwhole
  obtain ⟨upToCallee, _, hupToCallee, hcalleeStart, hcalleeStop⟩ :=
    slice?_eq_some_iff.1 hcallee
  obtain ⟨upToArgs, rest, hupToArgs, hargsFrom, hstart⟩ := slice?_eq_some_iff.1 hopening
  -- the callee lies behind the start of the call, and the search for the `(`
  -- starts behind the callee
  obtain ⟨inFront, rfl, -⟩ :=
    exists_append_of_byteLength_le (hbefore.symm.trans hupToCallee)
    (by rw [hspanStart, hcalleeStart]; exact h.inside.1)
  rw [← List.append_assoc] at hupToCallee
  obtain ⟨behind, rfl, -⟩ :=
    exists_append_of_byteLength_le (hupToCallee.symm.trans hupToArgs)
    (by rw [byteLength_append, hcalleeStart, ← hcalleeStop, hargsFrom]; exact h.inside.2)
  have hsource : source = before ++
      (inFront ++ (callee ++ (behind ++ (blanks ++ ['('])))) ++ rest := by
    rw [hupToArgs]
    simp
  have hopen : start =
      byteLength (before ++ (inFront ++ (callee ++ (behind ++ (blanks ++ ['(']))))) := by
    refine hstart.trans ?_
    rw [← hargsFrom]
    simp [Nat.add_assoc]
  rw [hopen] at hspaced
  obtain ⟨row, last, after, rfl, hstop, harguments, hsolid, hgaps, hlast⟩ :=
    exists_slots hsource hspaced
  -- the `)` follows the last gap
  obtain ⟨upToParen, after', hupToParen, hparen, hend⟩ := slice?_eq_some_iff.1 h.closing
  have hcut : before ++ (inFront ++ (callee ++ (behind ++ (blanks ++ ['('])))) ++
      (slotsText row ++ last) ++ after = upToParen ++ ([')'] ++ after') := by
    rw [← hupToParen, hsource]
    simp
  obtain ⟨-, rfl⟩ := append_inj_of_byteLength hcut (by rw [← hstop, hparen])
  refine ⟨before, inFront, callee, behind, blanks, row, last, after', hsource,
    hspanStart.symm, ?_, ?_,
    ?_, harguments, ?_, hsolid, hgaps, hlast⟩
  · rw [← hstop]
    exact hend
  · rw [hcalleeStart]
    exact congrArg (Span.mk call.callee.start) hcalleeStop
  · refine hargsFrom.symm.trans ?_
    simp
  · intro hparen
    rcases hblanks _ hparen with hspace | hblank
    · cases hspace
    · cases hblank

/-- A call whose ranges make sense can be laid out. -/
theorem Call.WellPlaced.exists_layout {source : List Char} {call : Call}
    (h : call.WellPlaced source) :
    ∃ l : Layout, l.Sound ∧ l.source = source ∧ l.call = call := by
  obtain ⟨before, inFront, callee, behind, blanks, row, last, after, hsource,
      hspanStart, hspanStop,
    hcallee, hargsFrom, harguments, hblanks, hsolid, hgaps, hlast⟩ := h.exists_texts
  -- the arguments are parted at the objects
  obtain ⟨front, first, more, back, hparted, hconfig⟩ := h.config
  obtain ⟨frontRow, _, rfl, hfront, hrest⟩ :=
    exists_slots_append (harguments.symm.trans hparted)
  obtain ⟨objects, backRow, rfl, hobjects, hback⟩ := exists_slots_append hrest
  rcases objects with - | ⟨object, middle⟩
  · cases hobjects
  let l : Layout :=
    ⟨before, inFront, callee, behind, blanks, frontRow, object.gap, object.argument,
    middle, backRow, last, after⟩
  have hsides : ∀ s ∈ l.front ++ l.back,
      s ∈ frontRow ++ (object :: middle ++ backRow) := by
    intro s hs
    rcases List.mem_append.1 hs with hs | hs
    · exact List.mem_append_left _ hs
    · exact List.mem_append_right _ (List.mem_append_right _ hs)
  refine ⟨l, ⟨hblanks, fun s hs =>
    hsolid s (hsides s hs), fun s hs => hgaps s (hsides s hs),
    hgaps object (by simp), hlast⟩, ?_, ?_⟩
  · rw [hsource]
    simp [l, Layout.source, Layout.opening, Layout.frontText, Layout.middleText,
      Layout.backText]
  · have hspan : l.call.span = call.span := by
      show (⟨byteLength before, _⟩ : Span) = ⟨call.span.start, call.span.stop⟩
      rw [hspanStart, hspanStop]
      simp [l, Layout.objectStop, Layout.objectStart, Layout.opening, Layout.frontText,
        Layout.middleText, Layout.backText, Nat.add_assoc]
    have hconf : l.call.config = call.config := by
      have hfirst : first.start = l.objectStart := by
        rw [slotSpans] at hobjects
        rw [← (List.cons.inj hobjects).1]
        simp [l, Layout.objectStart, Layout.frontText, Layout.opening, Nat.add_assoc]
      have hlastObject : ((first :: more).getLast (List.cons_ne_nil _ _)).stop =
          l.objectStop := by
        simp only [← hobjects, stop_getLast_slotSpans]
        simp [l, Layout.objectStop, Layout.objectStart, Layout.frontText,
          Layout.middleText, Layout.opening, Nat.add_assoc]
      rw [hconfig, hfirst, hlastObject]
      rfl
    have hcalleeSpan : l.call.callee = call.callee := hcallee.symm
    have hargs : l.call.argsFrom = call.argsFrom := hargsFrom.symm
    have hall : l.call.arguments = call.arguments := harguments.symm
    rcases call with ⟨span, calleeSpan, argsFrom, arguments, config⟩
    show Call.mk l.call.span l.call.callee l.call.argsFrom l.call.arguments
        l.call.config = _
    rw [hspan, hcalleeSpan, hargs, hall, hconf]

end AnimLint
