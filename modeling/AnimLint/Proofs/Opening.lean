/-
AnimLint/Proofs/Opening.lean

Where the leading zone of a call starts.  The `(` of the arguments is looked for
in the text behind the callee, comments included, so the zone starts behind that
`(` exactly if none stands in a comment in front of it
(`start_eq_iff_of_leadingZone`).

The gaps of a zone are what its bounds and the arguments leave: stretches from
the start of the bounds or the end of an argument to the end of the bounds or
the start of an argument, with no argument in them (`isGapIn_of_mem`).  Hence a
call that opens plainly and whose gaps in front of the configuration object hold
no line break outside comments has no leading violation (`Call.leading_opens`).
-/
import AnimLint.Proofs.Filling
import AnimLint.Proofs.LineComments

namespace AnimLint

open Text Gap

/-! ### The gaps of a stretch -/

/-- Holds of the text of a stretch that the arguments leave: it goes from the
start of the bounds or the end of an argument to the end of the bounds or the
start of an argument, and no argument reaches into it. -/
def IsGapIn (source : List Char) (arguments : List Span) (bounds : Span)
    (gap : List Char) : Prop :=
  ∃ span : Span, slice? source span = some gap ∧ span.Within bounds ∧
    (span.start = bounds.start ∨ ∃ a ∈ arguments, a.stop = span.start) ∧
    (span.stop = bounds.stop ∨ ∃ a ∈ arguments, a.start = span.stop) ∧
    ∀ a ∈ arguments, a.Apart span

theorem slice_of_gapOf {source gap : List Char} {span : Span} {ps : List Piece}
    (h : gapOf? source span = some ps) (hgap : .gap gap ∈ ps) :
    slice? source span = some gap := by
  unfold gapOf? at h
  split at h
  · obtain ⟨text, htext, rfl⟩ := Option.map_eq_some_iff.1 h
    obtain rfl := Piece.gap.inj (List.mem_singleton.1 hgap)
    exact htext
  · obtain rfl := Option.some.inj h
    cases hgap

/-- Behind a cursor no argument is left in front of it, unless it lies outside
the bounds. -/
theorem le_start_of_piecesFrom {source : List Char} {bounds : Span} {cursor : Nat}
    {arguments : List Span} {ps : List Piece}
    (h : piecesFrom? source bounds cursor arguments = some ps)
    (hcursor : slice? source ⟨cursor, cursor⟩ = some []) {arg : Span}
    (harg : arg ∈ arguments) :
    arg.Apart bounds ∨ cursor ≤ arg.start := by
  rcases argument_of_piecesFrom h hcursor harg with hout | ⟨pre, text, post, -, hstart, -⟩
  · exact .inl hout
  · exact .inr (by omega)

/-- The gaps from a cursor on are stretches that the arguments leave; `passed`
are those in front of the cursor. -/
theorem isGapIn_of_piecesFrom {source gap : List Char} {bounds : Span} {cursor : Nat}
    {passed rest : List Span} {ps : List Piece}
    (h : piecesFrom? source bounds cursor rest = some ps) (hgap : .gap gap ∈ ps)
    (hle : bounds.start ≤ cursor)
    (hpassed : ∀ a ∈ passed, a.stop ≤ cursor ∨ bounds.stop ≤ a.start)
    (hcursor : cursor = bounds.start ∨ ∃ a ∈ passed, a.stop = cursor) :
    IsGapIn source (passed ++ rest) bounds gap := by
  induction rest generalizing cursor passed ps with
  | nil =>
    rw [List.append_nil]
    exact ⟨⟨cursor, bounds.stop⟩, slice_of_gapOf h hgap, ⟨hle, Nat.le_refl _⟩,
      hcursor, .inl rfl,
      hpassed⟩
  | cons arg rest ih =>
    -- once it is behind the cursor, the argument counts as passed
    have hmoved : passed ++ arg :: rest = passed ++ [arg] ++ rest := by simp
    by_cases hout : arg.Apart bounds
    · rw [piecesFrom_cons_of_outside hout] at h
      rw [hmoved]
      refine ih h hgap hle ?_ ?_
      · intro a ha
        rcases List.mem_append.1 ha with ha | ha
        · exact hpassed a ha
        · obtain rfl := List.mem_singleton.1 ha
          rcases hout with hout | hout <;> omega
      · exact hcursor.imp_right fun h =>
          h.imp fun a ha => ⟨List.mem_append_left _ ha.1, ha.2⟩
    · obtain ⟨hstart, hstop, before, argument, after, hbefore, hargument, hafter, rfl⟩ :=
        (piecesFrom_cons_eq_some hout).1 h
      have hwide := byteLength_slice hargument
      rcases List.mem_append.1 hgap with hgap | hgap
      · -- the gap in front of the argument
        refine ⟨⟨cursor, arg.start⟩, slice_of_gapOf hbefore hgap, ⟨hle, ?_⟩, ?_, ?_, ?_⟩
        · show arg.start ≤ bounds.stop
          omega
        · exact hcursor.imp_right fun h =>
            h.imp fun a ha => ⟨List.mem_append_left _ ha.1, ha.2⟩
        · exact .inr ⟨arg, by simp, rfl⟩
        · intro a ha
          show a.stop ≤ cursor ∨ arg.start ≤ a.start
          rcases List.mem_append.1 ha with ha | ha
          · have := hpassed a ha
            omega
          · rcases List.mem_cons.1 ha with rfl | ha
            · exact .inr (Nat.le_refl _)
            · rcases le_start_of_piecesFrom hafter (slice?_stop hargument) ha
                  with hout | hbehind
              · rcases hout with hout | hout <;> omega
              · omega
      · rcases List.mem_cons.1 hgap with hgap | hgap
        · cases hgap
        · rw [hmoved]
          refine ih hafter hgap (by omega) ?_ (.inr ⟨arg, by simp, rfl⟩)
          intro a ha
          rcases List.mem_append.1 ha with ha | ha
          · have := hpassed a ha
            omega
          · obtain rfl := List.mem_singleton.1 ha
            exact .inl (Nat.le_refl _)

/-- The gaps of a zone are stretches that the arguments leave of it. -/
theorem Zone.isGapIn_of_mem {source gap : List Char} {call : Call} {zone : Zone}
    (h : zone ∈ zones source call) (hgap : .gap gap ∈ zone.pieces) :
    IsGapIn source call.arguments zone.span gap := by
  obtain ⟨side, bounds, h⟩ := of_mem h
  rw [(of_zone h).2.1]
  unfold zone? at h
  split at h
  · cases h
  · obtain ⟨text, -, h⟩ := Option.bind_eq_some_iff.1 h
    obtain ⟨ps, hps, h⟩ := Option.bind_eq_some_iff.1 h
    obtain rfl := Option.some.inj h
    show IsGapIn source ([] ++ call.arguments) bounds gap
    exact isGapIn_of_piecesFrom hps hgap (Nat.le_refl _)
      (fun _ ha => nomatch ha) (.inl rfl)

/-! ### The start of the leading zone -/

/-- Of two slices with one start the longer one starts with the shorter. -/
theorem exists_append_of_slices {source x y : List Char} {a b c : Nat}
    (hx : slice? source ⟨a, b⟩ = some x) (hy : slice? source ⟨a, c⟩ = some y)
    (hle : b ≤ c) :
    ∃ z, y = x ++ z := by
  obtain ⟨pre, post, rfl, hpre, hb⟩ := slice?_eq_some_iff.1 hx
  obtain ⟨pre', post', hsource, hpre', hc⟩ := slice?_eq_some_iff.1 hy
  simp only at hpre hb hpre' hc
  obtain ⟨-, hrest⟩ := append_inj_of_byteLength hsource (hpre.trans hpre'.symm)
  obtain ⟨z, hz, -⟩ := exists_append_of_byteLength_le hrest (by omega)
  exact ⟨z, hz⟩

variable {source before after : List Char} {call : Call} {config first : Span}
  {zone : Zone} {start : Nat}

/-- The leading zone starts behind a `(` exactly if no other stands in front of
that. -/
theorem start_eq_iff_of_leadingZone
    (hfront : slice? source ⟨call.argsFrom, first.start⟩ = some (before ++ '(' :: after))
    (hbehind : first.start ≤ config.start)
    (h : leadingZone? source call config = some zone) :
    zone.span.start = call.argsFrom + byteLength before + 1 ↔ '(' ∉ before := by
  obtain ⟨between, hbetween, h⟩ := Option.bind_eq_some_iff.1 h
  obtain ⟨skip, hskip, h⟩ := Option.bind_eq_some_iff.1 h
  obtain ⟨more, hmore⟩ := exists_append_of_slices hfront hbetween hbehind
  rw [hmore, List.append_assoc, List.cons_append] at hskip
  rw [(Zone.of_zone h).2.1]
  show call.argsFrom + skip = _ ↔ _
  constructor
  · intro hstart hmem
    obtain ⟨skip', hle, hfound⟩ := afterParen_of_mem hmem
    obtain rfl : skip = skip' := Option.some.inj (hskip.symm.trans (hfound _))
    omega
  · intro hmem
    obtain rfl := Option.some.inj (hskip.symm.trans (afterParen_append hmem _))
    omega

/-- A call has no leading violation if none of the gaps that its leading zone
can have breaks lines. -/
theorem side_eq_of_gaps {target : Target}
    (hstart : ∀ zone ∈ zones source call, zone.side = .leading →
      zone.span = ⟨start, config.start⟩)
    (hgaps : ∀ gap, IsGapIn source call.arguments ⟨start, config.start⟩ gap →
      hasLineBreak gap = false) {v : Violation} (hv : v ∈ violations target source call) :
    v.side = .trailing := by
  obtain ⟨zone, hzone, hviolation, hlines⟩ := zone_of_violation hv
  rw [(Zone.of_violation hviolation).1]
  rcases hside : zone.side with - | -
  · obtain ⟨p, hp, hbreak⟩ := List.any_eq_true.1 hlines
    cases p with
    | argument text => cases hbreak
    | gap gap =>
      have hgap := Zone.isGapIn_of_mem hzone hp
      rw [hstart zone hzone hside] at hgap
      have hnone : hasLineBreak gap = true := hbreak
      rw [hgaps gap hgap] at hnone
      cases hnone
  · rfl

/-- Let the text from behind the callee to the first argument be `before`, a `(`
and `after`.  The leading zone starts behind that `(` exactly if there is none
in `before`, where it could only stand in a comment.  If there is none and the
gaps from the `(` to the configuration object are gaps by the grammar, in which
no line break stands outside comments and the first line comment ends plainly,
the call has no leading violation. -/
theorem Call.leading_opens (target : Target) (hconfig : call.config = some config)
    (harguments : call.arguments ≠ [])
    (hfront : slice? source ⟨call.argsFrom, (call.arguments.head harguments).start⟩ =
      some (before ++ '(' :: after))
    (hbehind : (call.arguments.head harguments).start ≤ config.start) :
    (∀ zone ∈ zones source call, zone.side = .leading →
      (zone.span.start = call.argsFrom + byteLength before + 1 ↔ '(' ∉ before)) ∧
    ('(' ∉ before →
      (∀ gap, IsGapIn source call.arguments
          ⟨call.argsFrom + byteLength before + 1, config.start⟩ gap →
        ∃ row, Scrap.areComplete row = true ∧ Scrap.scrapsText row = gap ∧
          row.any Scrap.isBreak = false ∧ Scrap.endsPlainly row = true) →
      ∀ v ∈ violations target source call, v.side = .trailing) := by
  have hleading : ∀ zone ∈ zones source call, zone.side = .leading →
      leadingZone? source call config = some zone := by
    intro zone hzone hside
    obtain ⟨config', hconfig', h⟩ := Zone.cases_of_mem hzone
    obtain rfl : config = config' := Option.some.inj (hconfig.symm.trans hconfig')
    rcases h with h | h
    · exact h
    · rw [(Zone.of_trailing h).1] at hside
      cases hside
  have hstart : ∀ zone ∈ zones source call, zone.side = .leading →
      (zone.span.start = call.argsFrom + byteLength before + 1 ↔ '(' ∉ before) :=
    fun zone hzone hside => start_eq_iff_of_leadingZone hfront hbehind
      (hleading zone hzone hside)
  refine ⟨hstart, fun hmem hgaps v hv => ?_⟩
  have hspan : ∀ zone ∈ zones source call, zone.side = .leading →
      zone.span = ⟨call.argsFrom + byteLength before + 1, config.start⟩ := by
    intro zone hzone hside
    have hopen := (hstart zone hzone hside).2 hmem
    have hclose := (Zone.of_leading (hleading zone hzone hside)).2.2
    rw [← hopen, ← hclose]
  refine side_eq_of_gaps hspan (fun gap hgap => ?_) hv
  obtain ⟨row, hrow, rfl, hbreak, hplain⟩ := hgaps gap hgap
  rw [hasLineBreak_scrapsText hrow, showsBreak_of_endsPlainly hplain, hbreak]

/-- A call with comments on both sides of its `(`. -/
def commented : Call where
  span := ⟨0, 18⟩
  callee := ⟨0, 1⟩
  argsFrom := 1
  arguments := [⟨7, 8⟩, ⟨15, 17⟩]
  config := some ⟨15, 17⟩

theorem gaps_commented {gap : List Char}
    (h : IsGapIn "f/*a*/(b, /*\n*/\x7b\x7d)".toList commented.arguments ⟨7, 15⟩ gap) :
    gap = [] ∨ gap = ", /*\n*/".toList := by
  obtain ⟨⟨a, b⟩, hslice, hwithin, hstart, hstop, hapart⟩ := h
  have hends : a + byteLength gap = b := byteLength_slice hslice
  simp only [commented, Text.Span.Apart, Text.Span.Within, List.mem_cons,
    List.not_mem_nil, or_false, forall_eq_or_imp, forall_eq, exists_eq_or_imp,
    exists_eq_left] at hwithin hstart hstop hapart
  have hcases : (a = 7 ∧ b = 7) ∨ (a = 8 ∧ b = 15) := by omega
  rcases hcases with ⟨rfl, rfl⟩ | ⟨rfl, rfl⟩
  · exact .inl (Option.some.inj (hslice.symm.trans (by decide)))
  · exact .inr (Option.some.inj (hslice.symm.trans (by decide)))

theorem leading_opens_commented :
    (∀ zone ∈ zones "f/*a*/(b, /*\n*/\x7b\x7d)".toList commented, zone.side = .leading →
      zone.span.start = 7) ∧
    ∀ v ∈ violations ⟨["f"], []⟩ "f/*a*/(b, /*\n*/\x7b\x7d)".toList commented,
      v.side = .trailing := by
  have hfront : slice? "f/*a*/(b, /*\n*/\x7b\x7d)".toList ⟨1, 7⟩ =
      some ("/*a*/".toList ++ '(' :: []) := by
    decide
  have hconfig : commented.config = some ⟨15, 17⟩ := rfl
  have hopens :=
    Call.leading_opens ⟨["f"], []⟩ hconfig (List.cons_ne_nil _ _) hfront (by decide)
  refine ⟨fun zone hzone hside => (hopens.1 zone hzone hside).2 (by decide),
    hopens.2 (by decide) fun gap hgap => ?_⟩
  rcases gaps_commented hgap with rfl | rfl
  · exact ⟨[], by decide⟩
  · exact ⟨[.mark (.char ','), .mark (.char ' '),
      .mark (.comment "\n*/".toList)], by decide⟩

/-- A `(` in a comment in front of the one that opens the arguments is taken for
that: the same call with another comment has a leading violation, although its
gaps break no line. -/
theorem leading_opens_in_comment :
    slice? "f/*(\n*/(b,\x7b\x7d)".toList ⟨1, 8⟩ = some ("/*(\n*/".toList ++ ['(']) ∧
      (violations ⟨["f"], []⟩ "f/*(\n*/(b,\x7b\x7d)".toList
        ⟨⟨0, 13⟩, ⟨0, 1⟩, 1, [⟨8, 9⟩, ⟨10, 12⟩], some ⟨10, 12⟩⟩).map
          (fun v => (v.side, v.span)) =
          [(.leading, ⟨4, 10⟩)] := by
  decide

end AnimLint
