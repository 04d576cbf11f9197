/-
AnimLint/Proofs/Containment.lean

The ranges of a call are untrusted: inverted, out of the text, overlapping or
inside a character.  Whatever they are, a violation lies where it may be edited
(`Violation.Contained`): its span is a slice of the text strictly inside the
call, it stands behind a `(` in front of the configuration object or behind the
object in front of the `)`, and its edit covers that very span.

There is at most one violation for each side (`sides_violations`).  Where the
range of the configuration object runs forward, the two keep clear of one
another, so that one batch applies the edits of both (`ordered_violations`).
The only sum formed on the way, the place behind the `(`, is an offset of the
text again (`parenStop_le`).
-/
import AnimLint.Proofs.Splicing
import AnimLint.Proofs.Zones

namespace AnimLint

open Text

/-! ### The parenthesis -/

/-- The place behind the first `(` has that `(` in front of it. -/
theorem exists_of_afterParen {text : List Char} {skip : Nat}
    (h : afterParen? text = some skip) :
    ∃ before after, text = before ++ '(' :: after ∧ skip = byteLength before + 1 := by
  induction text generalizing skip with
  | nil => cases h
  | cons c text ih =>
    rw [afterParen?] at h
    split at h
    · next hc =>
      obtain rfl : c = '(' := by simpa using hc
      obtain rfl := Option.some.inj h
      exact ⟨[], text, rfl, rfl⟩
    · obtain ⟨rest, hrest, rfl⟩ := Option.map_eq_some_iff.1 h
      obtain ⟨before, after, rfl, rfl⟩ := ih hrest
      exact ⟨c :: before, after, rfl, by rw [byteLength_cons, Nat.add_assoc]⟩

theorem slice_parenStop {source between : List Char} {start stop skip : Nat}
    (hbetween : slice? source ⟨start, stop⟩ = some between)
    (hskip : afterParen? between = some skip) :
    slice? source ⟨start + skip - 1, start + skip⟩ = some ['('] := by
  obtain ⟨before, after, rfl, rfl⟩ := exists_of_afterParen hskip
  obtain ⟨front, back, rfl, hfront, -⟩ := slice?_eq_some_iff.1 hbetween
  simp only at hfront
  have hstart : byteLength (front ++ before) = start + (byteLength before + 1) - 1 := by
    rw [byteLength_append]
    omega
  refine slice?_eq_some_iff.2 ⟨front ++ before, after ++ back, by simp, hstart, ?_⟩
  show start + (byteLength before + 1) = start + (byteLength before + 1) - 1 + 1
  omega

theorem parenStop_le {source between : List Char} {start stop skip : Nat}
    (hbetween : slice? source ⟨start, stop⟩ = some between)
    (hskip : afterParen? between = some skip) :
    start + skip ≤ byteLength source := by
  obtain ⟨before, after, hsource, hbefore, hstop⟩ :=
    slice?_eq_some_iff.1 (slice_parenStop hbetween hskip)
  simp only at hbefore hstop
  rw [hsource, hstop, ← hbefore, byteLength_append, byteLength_append]
  omega

/-! ### Zones -/

namespace Zone

variable {source : List Char} {call : Call} {config : Span} {zone : Zone}

theorem of_leading (h : leadingZone? source call config = some zone) :
    zone.side = .leading ∧ slice? source
      ⟨zone.span.start - 1, zone.span.start⟩ = some ['('] ∧
      zone.span.stop = config.start := by
  obtain ⟨between, hbetween, h⟩ := Option.bind_eq_some_iff.1 h
  obtain ⟨skip, hskip, h⟩ := Option.bind_eq_some_iff.1 h
  obtain ⟨hside, hspan, -, -⟩ := of_zone h
  rw [hside, hspan]
  exact ⟨rfl, slice_parenStop hbetween hskip, rfl⟩

theorem of_trailing (h : trailingZone? source call config = some zone) :
    zone.side = .trailing ∧
    slice? source ⟨zone.span.stop, zone.span.stop + 1⟩ = some [')'] ∧
      zone.span.start = config.stop := by
  unfold trailingZone? at h
  split at h
  · cases h
  · next hpos =>
    split at h
    · next hclosing =>
      obtain ⟨hside, hspan, -, -⟩ := of_zone h
      rw [hside, hspan]
      refine ⟨rfl, ?_, rfl⟩
      show slice? source ⟨call.span.stop - 1, call.span.stop - 1 + 1⟩ = some [')']
      rwa [Nat.sub_add_cancel (Nat.pos_of_ne_zero hpos)]
    · cases h

/-- A zone of a call lies on one of two sides of its configuration object. -/
theorem cases_of_mem (h : zone ∈ zones source call) :
    ∃ config, call.config = some config ∧
      (leadingZone? source call config = some zone ∨
        trailingZone? source call config = some zone) := by
  unfold zones at h
  split at h
  · cases h
  · next config hconfig => exact ⟨config, hconfig, by simpa using h⟩

/-- A violation has the side, the span and the text of its zone. -/
theorem of_violation {v : Violation} (h : zone.violation? = some v) :
    v.side = zone.side ∧ v.span = zone.span ∧ v.zoneText = zone.text ∧
      ∀ e, v.edit = some e → e.span = zone.span := by
  unfold violation? at h
  split at h
  · obtain rfl := Option.some.inj h
    refine ⟨rfl, rfl, rfl, fun e he => ?_⟩
    simp only at he
    split at he
    · cases he
    · obtain rfl := Option.some.inj he
      rfl
  · cases h

end Zone

theorem sides_zones (source : List Char) (call : Call) :
    ((zones source call).map (·.side)).Sublist [.leading, .trailing] := by
  unfold zones
  split
  · exact List.nil_sublist _
  · next config _ =>
    rw [List.map_append]
    show List.Sublist _ ([Side.leading] ++ [Side.trailing])
    -- each side has its own half of the list
    refine List.Sublist.append ?_ ?_
    · rcases h : leadingZone? source call config with - | zone
      · exact List.nil_sublist _
      · simp [(Zone.of_leading h).1]
    · rcases h : trailingZone? source call config with - | zone
      · exact List.nil_sublist _
      · simp [(Zone.of_trailing h).1]

/-- The zone in front of an object that runs forward ends before the one behind
it. -/
theorem ordered_zones {source : List Char} {call : Call} {config : Span}
    (hconfig : call.config = some config) (hle : config.start ≤ config.stop) :
    (zones source call).Pairwise fun a b => a.span.stop ≤ b.span.start := by
  simp only [zones, hconfig]
  refine List.pairwise_append.2 ⟨?_, ?_, ?_⟩
  · rcases leadingZone? source call config with - | zone <;> simp
  · rcases trailingZone? source call config with - | zone <;> simp
  · intro a ha b hb
    rw [(Zone.of_leading (Option.mem_toList.1 ha)).2.2,
      (Zone.of_trailing (Option.mem_toList.1 hb)).2.2]
    exact hle

/-! ### Violations -/

/-- What holds of a violation of a call whose configuration object has a given
range. -/
structure Violation.Contained (source : List Char) (call : Call) (config : Span)
    (v : Violation) :
    Prop where
  slice : slice? source v.span = some v.zoneText
  within : call.span.start < v.span.start ∧ v.span.start ≤ v.span.stop ∧
  v.span.stop < call.span.stop
  leading : v.side = .leading →
    slice? source ⟨v.span.start - 1, v.span.start⟩ = some ['('] ∧
    v.span.stop ≤ config.start
  trailing : v.side = .trailing →
    slice? source ⟨v.span.stop, v.span.stop + 1⟩ = some [')'] ∧ config.stop ≤ v.span.start
  edit : ∀ e, v.edit = some e → e.span = v.span

variable {target : Target} {source : List Char} {call : Call}

theorem contained_of_violation {v : Violation} (hv : v ∈ violations target source call) :
    ∃ config, call.config = some config ∧ v.Contained source call config := by
  obtain ⟨zone, hzone, hviolation, hlines⟩ := zone_of_violation hv
  obtain ⟨config, hconfig, hzoneSide⟩ := Zone.cases_of_mem hzone
  have hwithin := Zone.within_of_mem hzone
  have hle := Nat.le_of_lt (Zone.start_lt_stop_of_mem hzone hlines)
  obtain ⟨hside, hspan, htext, hedit⟩ := Zone.of_violation hviolation
  refine ⟨config, hconfig, ⟨?_, ?_, ?_, ?_, ?_⟩⟩
  · rw [hspan, htext]
    exact Zone.slice_of_mem hzone
  · rw [hspan]
    exact ⟨hwithin.1, hle, hwithin.2⟩
  · intro hleading
    rw [hspan]
    rcases hzoneSide with h | h
    · exact ⟨(Zone.of_leading h).2.1, Nat.le_of_eq (Zone.of_leading h).2.2⟩
    · -- the zone behind the object has the other side
      rw [hside, (Zone.of_trailing h).1] at hleading
      cases hleading
  · intro htrailing
    rw [hspan]
    rcases hzoneSide with h | h
    · rw [hside, (Zone.of_leading h).1] at htrailing
      cases htrailing
    · exact ⟨(Zone.of_trailing h).2.1, Nat.le_of_eq (Zone.of_trailing h).2.2.symm⟩
  · rw [hspan]
    exact hedit

theorem sides_filterMap_violation (zs : List Zone) :
    ((zs.filterMap Zone.violation?).map (·.side)).Sublist (zs.map (·.side)) := by
  induction zs with
  | nil => exact .slnil
  | cons zone zs ih =>
    rcases h : zone.violation? with - | v
    · rw [List.filterMap_cons_none h]
      exact ih.cons _
    · rw [List.filterMap_cons_some h, List.map_cons, (Zone.of_violation h).1]
      exact ih.cons_cons _

theorem sides_violations (target : Target) (source : List Char) (call : Call) :
    ((violations target source call).map (·.side)).Sublist [.leading, .trailing] := by
  unfold violations
  split
  · exact List.nil_sublist _
  · split
    · exact (sides_filterMap_violation _).trans (sides_zones source call)
    · exact List.nil_sublist _

theorem ordered_violations {config : Span} (hconfig : call.config = some config)
    (hle : config.start ≤ config.stop) :
    (violations target source call).Pairwise fun v w => v.span.stop ≤ w.span.start := by
  unfold violations
  split
  · exact .nil
  · split
    · refine (ordered_zones hconfig hle).filterMap _ fun {a b} hab v hv w hw => ?_
      rw [(Zone.of_violation hv).2.1, (Zone.of_violation hw).2.1]
      exact hab
    · exact .nil

/-- The edits of a call cover slices of the text. -/
theorem slice_of_edits : ∀ e ∈ (violations target source call).filterMap (·.edit),
    ∃ cut, slice? source e.span = some cut := by
  intro e he
  obtain ⟨v, hv, he⟩ := List.mem_filterMap.1 he
  obtain ⟨_, -, hcontained⟩ := contained_of_violation hv
  exact ⟨v.zoneText, by rw [hcontained.edit e he, hcontained.slice]⟩

/-- The edits of a call keep clear of one another. -/
theorem ordered_edits {config : Span} (hconfig : call.config = some config)
    (hle : config.start ≤ config.stop) :
    ((violations target source call).filterMap (·.edit)).Pairwise
      fun e f => e.span.stop ≤ f.span.start := by
  refine List.pairwise_filterMap.2 ((ordered_violations hconfig hle).imp_of_mem ?_)
  intro v w hv hw hvw e he f hf
  obtain ⟨_, -, hcontained⟩ := contained_of_violation hv
  obtain ⟨_, -, hcontained'⟩ := contained_of_violation hw
  rw [hcontained.edit e he, hcontained'.edit f hf]
  exact hvw

/-- One batch takes the edits of both sides. -/
theorem skipped_violations {config : Span} (hconfig : call.config = some config)
    (hle : config.start ≤ config.stop) :
    (splice source ((violations target source call).filterMap (·.edit))).skipped = 0 :=
  splice_skipped_eq_zero slice_of_edits (ordered_edits hconfig hle)

/-- **Containment**: for every text and every call over it, whatever its ranges,
no sum of offsets leaves the text, each side has at most one violation, every
violation is contained in the call, and where the range of the configuration
object runs forward the violations keep clear of one another and one batch takes
all their edits. -/
theorem violations_contained (target : Target) (source : List Char) (call : Call) :
    (∀ config between skip, call.config = some config →
        slice? source ⟨call.argsFrom, config.start⟩ = some between →
        afterParen? between = some skip → call.argsFrom + skip ≤ byteLength source) ∧
      ((violations target source call).map (·.side)).Sublist [.leading, .trailing] ∧
      (∀ v ∈ violations target source call, ∃ config, call.config = some config ∧
        v.Contained source call config) ∧
      ∀ config, call.config = some config → config.start ≤ config.stop →
        (violations target source call).Pairwise (fun v w => v.span.stop ≤ w.span.start) ∧
        (splice source
          ((violations target source call).filterMap (·.edit))).skipped = 0 := by
  refine ⟨?_, sides_violations target source call,
    fun v hv => contained_of_violation hv, ?_⟩
  · intro config between skip _ hbetween hskip
    exact parenStop_le hbetween hskip
  · intro config hconfig hle
    exact ⟨ordered_violations hconfig hle, skipped_violations hconfig hle⟩

end AnimLint
