/-
AnimLint/Proofs/CallRanges.lean

The ranges of the calls of a script.  The rule does not trust the ranges of a
call: where they make no sense a zone is left out and nothing is said.  In a
script that never happens.  A part of a tree stands in the text where its path
says (`Tree.source_of_partAt`), so the ranges of a call there are slices of the
text, in order and apart (`Tree.aligned_ofParts`), and a call with an object has
both its zones (`Tree.sides_zones_ofParts`).

Main statement: `call_aligned`.
-/
import AnimLint.Proofs.Visits

namespace AnimLint

open Text Script

/-! ### Aligned calls -/

/-- The ranges of a call, the place where the search for the `(` starts among
them. -/
def Call.ranges (call : Call) : List Span :=
  call.span :: call.callee :: ⟨call.argsFrom, call.argsFrom⟩ ::
  (call.arguments ++ call.config.toList)

/-- Holds of a call whose ranges fit a text: they are slices of it, callee,
arguments and `)` come in this order, and no two arguments overlap. -/
structure Call.Aligned (text : List Char) (call : Call) : Prop where
  slices : ∀ s ∈ call.ranges, ∃ part, slice? text s = some part
  start_le : call.span.start ≤ call.callee.start
  callee_lt : call.callee.start < call.callee.stop
  callee_le : call.callee.stop ≤ call.argsFrom
  arguments_within : ∀ s ∈ call.arguments,
    call.argsFrom < s.start ∧ s.start < s.stop ∧ s.stop < call.span.stop
  arguments_apart : call.arguments.Pairwise fun a b => a.stop ≤ b.start
  closing : slice? text ⟨call.span.stop - 1, call.span.stop⟩ = some [')']

theorem Call.Aligned.stop_le {text : List Char} {call : Call}
    (h : call.Aligned text) {s : Span}
    (hs : s ∈ call.ranges) : s.stop ≤ byteLength text := by
  obtain ⟨part, hpart⟩ := h.slices s hs
  obtain ⟨before, after, rfl, hbefore, hstop⟩ := slice?_eq_some_iff.1 hpart
  simp only [byteLength_append]
  omega

namespace Script.Tree

/-! ### Where a part stands -/

theorem source_eq_parts {t u : Tree} {i : Nat} (h : t.parts[i]? = some u) :
    t.source = sourceAll t.parts := by
  cases t with
  | leaf s => cases h
  | node kind ts => rfl
  | call callee types opening items closing => simp [parts, source, sourceAll]

/-- A part stands where its path says. -/
theorem source_of_partAt {t u : Tree} {start s : Nat} {path : List Nat}
    (h : t.partAt? start path = some (s, u)) :
    ∃ before after, t.source = before ++ (u.source ++ after) ∧
      s = start + byteLength before := by
  induction path generalizing t start with
  | nil =>
    obtain ⟨rfl, rfl⟩ := Prod.mk.inj (Option.some.inj h)
    exact ⟨[], [], by simp, rfl⟩
  | cons i path ih =>
    obtain ⟨v, hv, hu⟩ := Option.bind_eq_some_iff.1 h
    obtain ⟨before, after, hsource, rfl⟩ := ih hu
    obtain ⟨hi, rfl⟩ := List.getElem?_eq_some_iff.1 hv
    have hparts : t.source = sourceAll (t.parts.take i) ++
        (t.parts[i].source ++ sourceAll (t.parts.drop (i + 1))) := by
      rw [source_eq_parts hv, ← sourceAll, ← List.drop_eq_getElem_cons hi,
        ← sourceAll_append, List.take_append_drop]
    refine ⟨sourceAll (t.parts.take i) ++ before,
      after ++ sourceAll (t.parts.drop (i + 1)), ?_, ?_⟩
    · rw [hparts, hsource]
      simp
    · rw [widthAll_eq, byteLength_append, Nat.add_assoc]

theorem isSound_of_mem_parts {t u : Tree} (ht : t.isSound = true) (hu : u ∈ t.parts) :
    u.isSound = true := by
  cases t with
  | leaf s => cases hu
  | node kind ts => exact areSound_iff.1 ht u hu
  | call callee types opening items closing =>
    simp only [isSound, Bool.and_eq_true, areSound_iff] at ht
    obtain ⟨⟨⟨-, hopening⟩, hclosing⟩, hcallee, htypes, hitems⟩ := ht
    simp only [parts, List.mem_cons, List.mem_append, List.not_mem_nil, or_false] at hu
    rcases hu with rfl | hu | rfl | hu | rfl
    · exact hcallee
    · exact htypes u hu
    · exact hopening
    · exact hitems u hu
    · exact hclosing

theorem isSound_of_partAt {t u : Tree} {start s : Nat} {path : List Nat}
    (ht : t.isSound = true)
    (h : t.partAt? start path = some (s, u)) : u.isSound = true := by
  induction path generalizing t start with
  | nil =>
    obtain ⟨-, rfl⟩ := Prod.mk.inj (Option.some.inj h)
    exact ht
  | cons i path ih =>
    obtain ⟨v, hv, hu⟩ := Option.bind_eq_some_iff.1 h
    exact ih (isSound_of_mem_parts ht (List.mem_of_getElem? hv)) hu

/-! ### The arguments of a call -/

/-- An argument is a slice of the text, and not an empty one. -/
theorem slice_of_argumentsAt {items : List Tree} (hitems : ∀ t ∈ items, t.IsItem)
    (pre post : List Char) : ∀ a ∈ argumentsAt (byteLength pre) items,
      a.1.start < a.1.stop ∧ ∃ part, slice? (pre ++ (sourceAll items ++ post)) a.1 =
        some part := by
  induction items generalizing pre with
  | nil =>
    intro a ha
    cases ha
  | cons t items ih =>
    have ht := hitems t List.mem_cons_self
    have hrest := ih (fun u hu => hitems u (List.mem_cons_of_mem t hu)) (pre ++ t.source)
    have hnext : byteLength pre + t.width = byteLength (pre ++ t.source) := by
      rw [width_eq, byteLength_append]
    have htext : pre ++ t.source ++ (sourceAll items ++ post) =
        pre ++ (sourceAll (t :: items) ++ post) := by
      simp [sourceAll]
    rw [htext] at hrest
    intro a ha
    rw [argumentsAt, hnext] at ha
    split at ha
    · exact hrest a ha
    · rcases List.mem_cons.1 ha with rfl | ha
      · have hpos := byteLength_solid_pos ht
        have hlen := byteLength_source t
        rw [spanAt_eq ht.isSound]
        refine ⟨by simp only; omega, t.solid, slice?_eq_some_iff.2
          ⟨pre ++ triviaText t.lead, sourceAll items ++ post, ?_, ?_, ?_⟩⟩
        · simp [sourceAll, source_eq t]
        · simp
        · simp only [hlen]
          omega
      · exact hrest a ha

/-- Arguments come in order and do not overlap. -/
theorem pairwise_argumentsAt {items : List Tree} (hitems : ∀ t ∈ items, t.IsItem)
    (start : Nat) :
    (argumentsAt start items).Pairwise fun a b => a.1.stop ≤ b.1.start := by
  induction items generalizing start with
  | nil => exact .nil
  | cons t items ih =>
    have hrest := fun u hu => hitems u (List.mem_cons_of_mem t hu)
    rw [argumentsAt]
    split
    · exact ih hrest _
    · refine List.pairwise_cons.2 ⟨fun b hb => ?_, ih hrest _⟩
      exact (argumentsAt_within hrest _ b hb).1

/-! ### Calls of a script -/

variable {callee : Tree} {types items : List Tree} {opening closing : Token}

/-- The objects among the arguments reach from the start of a slice of the text
to its end. -/
theorem slice_of_configOf (hitems : ∀ t ∈ items, t.IsItem) (pre post : List Char)
    {config : Span}
    (h : configOf (argumentsAt (byteLength pre) items) = some config) :
    ∃ part, slice? (pre ++ (sourceAll items ++ post)) config = some part := by
  have hsound : ∀ t ∈ items, t.isSound = true := fun t ht => (hitems t ht).isSound
  rcases config_or_none items with ⟨front, first, middle, back, hconfig⟩ | hnone
  · obtain rfl := Option.some.inj ((hconfig.configOf hsound _).symm.trans h)
    refine ⟨first.solid ++ sourceAll middle, slice?_eq_some_iff.2
      ⟨pre ++ (sourceAll front ++ triviaText first.lead),
        sourceAll back ++ post, ?_, ?_, ?_⟩⟩
    · simp [hconfig.items_eq, sourceAll, source_eq first]
    · simp [Nat.add_assoc]
    · simp [sourceAll, byteLength_source first, Nat.add_assoc]
  · rw [configOf_none hnone] at h
    cases h

/-- The ranges of a sound call fit the text it stands in. -/
theorem aligned_ofParts (hcall : SoundCall callee types opening items closing)
    (pre post : List Char) :
    (Site.ofParts (byteLength pre) callee types opening items closing).call.Aligned
      (pre ++ ((call callee types opening items closing).source ++ post)) := by
  obtain ⟨before, hbefore⟩ :
      ∃ before, before = pre ++ (callee.source ++ sourceAll types) := ⟨_, rfl⟩
  have hopening : opening.source = triviaText opening.trivia ++ ['('] := by
    rw [Token.source, hcall.openingText]
  have hclosing : closing.source = triviaText closing.trivia ++ [')'] := by
    rw [Token.source, hcall.closingText]
  have hopens : ('(' : Char).utf8Size = 1 := rfl
  have hcloses : (')' : Char).utf8Size = 1 := rfl
  have hlead := byteLength_source callee
  have hpos := byteLength_callee_pos hcall
  have htext : pre ++ ((call callee types opening items closing).source ++ post) =
      before ++ opening.source ++ (sourceAll items ++ (closing.source ++ post)) := by
    simp [source, hbefore]
  have harguments := slice_of_argumentsAt hcall.item (before ++ opening.source)
    (closing.source ++ post)
  have hwithin := argumentsAt_within hcall.item (byteLength (before ++ opening.source))
  rw [call_ofParts hcall hbefore]
  constructor
  case slices =>
    intro s hs
    simp only [Call.ranges, List.mem_cons, List.mem_append, Option.mem_toList] at hs
    rcases hs with rfl | rfl | rfl | hs | hs
    · have hsource := source_eq (call callee types opening items closing)
      rw [lead_call hcall.tokens_ne_nil] at hsource
      refine ⟨(call callee types opening items closing).solid, slice?_eq_some_iff.2
        ⟨pre ++ triviaText callee.lead, post, ?_, rfl, ?_⟩⟩
      · simp [hsource]
      · have hstop := congrArg byteLength htext
        simp only [hsource, byteLength_append] at hstop ⊢
        omega
    · refine ⟨callee.solid, slice?_eq_some_iff.2 ⟨pre ++ triviaText callee.lead,
        sourceAll types ++
        (opening.source ++ (sourceAll items ++ (closing.source ++ post))), ?_, rfl,
        ?_⟩⟩
      · simp [source, source_eq callee]
      · simp [hlead, Nat.add_assoc]
    · refine ⟨[], slice?_eq_some_iff.2
        ⟨before, opening.source ++ (sourceAll items ++ (closing.source ++ post)),
          ?_, rfl, rfl⟩⟩
      simp [htext]
    · obtain ⟨a, ha, rfl⟩ := List.mem_map.1 hs
      rw [htext]
      exact (harguments a ha).2
    · rw [htext]
      exact slice_of_configOf hcall.item _ _ hs
  case start_le => exact Nat.le_refl _
  case callee_lt =>
    simp only [byteLength_append]
    omega
  case callee_le =>
    simp only [hbefore, byteLength_append]
    omega
  case arguments_within =>
    intro s hs
    obtain ⟨a, ha, rfl⟩ := List.mem_map.1 hs
    have hne := (harguments a ha).1
    obtain ⟨hstart, hstop⟩ := hwithin a ha
    simp only [hopening, hclosing, byteLength_append, byteLength_cons,
      byteLength_nil] at hstart hstop ⊢
    omega
  case arguments_apart => exact List.pairwise_map.2 (pairwise_argumentsAt hcall.item _)
  case closing =>
    refine slice?_eq_some_iff.2 ⟨before ++ opening.source ++ (sourceAll items ++
      triviaText closing.trivia), post, ?_, ?_, ?_⟩
    · rw [htext, hclosing]
      simp
    · simp only [hclosing, hcloses, byteLength_append, byteLength_cons, byteLength_nil]
      omega
    · simp only [hclosing, hcloses, byteLength_append, byteLength_cons, byteLength_nil]
      omega

/-- The ranges of a call of a sound tree fit the text of the tree. -/
theorem aligned_of_mem_sites {tree : Tree} (htree : tree.isSound = true) {site : Site}
    (h : site ∈ tree.sites 0) : site.call.Aligned tree.source := by
  obtain ⟨path, hsite⟩ := mem_sites_iff.1 h
  rw [siteAt?] at hsite
  split at hsite
  · next start callee types opening items closing hpart =>
    obtain rfl := Option.some.inj hsite
    obtain ⟨pre, post, hsource, hstart⟩ := source_of_partAt hpart
    rw [hsource, hstart, Nat.zero_add]
    exact aligned_ofParts (soundCall (isSound_of_partAt htree hpart)) pre post
  · cases hsite

/-- A sound call with an object among its arguments has both its zones. -/
theorem sides_zones_ofParts (hcall : SoundCall callee types opening items closing)
    (hobject : ∃ t ∈ items, t.isObject = true) (pre post : List Char) :
    (zones (pre ++ ((call callee types opening items closing).source ++ post))
      (Site.ofParts (byteLength pre) callee types opening items
        closing).call).map (·.side) =
      [.leading, .trailing] := by
  obtain ⟨front, first, middle, back, hconfig⟩ := exists_config hobject
  have hparen : '(' ∈ opening.source := by
    rw [Token.source, hcall.openingText]
    simp
  obtain ⟨comment, gap, hopening, hfirst⟩ := List.eq_append_cons_of_mem hparen
  rw [zones_behind hcall hconfig hopening hfirst]
  rfl

end Script.Tree

/-! ### Calls of a text -/

/-- **No zone is lost**: in a text without a byte-order mark, the ranges of
every call fit the text, and a call with an object among its arguments has both
its zones. -/
theorem call_aligned {file : String} {text : List Char} {tree : Tree}
    (hparse : parseFile file text = .ok tree) (hmark : dropMark text = text)
    {path : List Nat}
    {start : Nat} {callee : Tree} {types items : List Tree} {opening closing : Token}
    (hpart : tree.partAt? 0 path =
      some (start, .call callee types opening items closing)) :
    let site := Site.ofParts start callee types opening items closing
    site ∈ tree.sites 0 ∧ site.call.Aligned text ∧
      ((∃ t ∈ items, t.isObject = true) →
        (zones text site.call).map (·.side) = [.leading, .trailing]) := by
  have hsound := Reader.script.isSound_of_read hparse
  intro site
  have hsite : site ∈ tree.sites 0 :=
    Tree.mem_sites_iff.2 ⟨path, by rw [Tree.siteAt?, hpart]⟩
  rw [← Reader.source_of_parseFile hparse hmark]
  refine ⟨hsite, Tree.aligned_of_mem_sites hsound hsite, fun hobject => ?_⟩
  obtain ⟨pre, post, hsource, hstart⟩ := Tree.source_of_partAt hpart
  have hplace : site = .ofParts (byteLength pre) callee types opening items closing := by
    rw [← Nat.zero_add (byteLength pre), ← hstart]
  rw [hsource, hplace]
  exact Tree.sides_zones_ofParts
    (Tree.soundCall (Tree.isSound_of_partAt hsound hpart)) hobject pre
    post

/-- A call with type arguments, a `(` in a comment, and characters of more than
one byte. -/
def typedCall : List Char := "ö.to<T> /* ( */ (ü,\n\x7b\x7d)".toList

theorem call_aligned_typed :
    ∃ tree start callee types opening items closing,
      parseFile "a.ts" typedCall = .ok tree ∧
        dropMark typedCall = typedCall ∧
        tree.partAt? 0 [0, 0] = some (start, .call callee types opening items closing) ∧
        (∃ t ∈ items, t.isObject = true) ∧
        let site := Site.ofParts start callee types opening items closing
        site.call.Aligned typedCall ∧
          (zones typedCall site.call).map (·.side) = [.leading, .trailing] := by
  have hcheck : ((parseFile "a.ts" typedCall).toOption.bind (·.siteAt? 0 [0, 0])).any
      (·.call.config.isSome) = true := by
    decide +kernel
  rcases hparse : parseFile "a.ts" typedCall with e | tree
  · rw [hparse] at hcheck
    cases hcheck
  · rw [hparse, Except.toOption, Option.bind_some, Tree.siteAt?] at hcheck
    split at hcheck
    · next start callee types opening items closing hpart =>
      have hobject : ∃ t ∈ items, t.isObject = true := by
        rcases Tree.config_or_none items
            with ⟨front, first, middle, back, hconfig⟩ | hnone
        · exact List.any_eq_true.1 hconfig.any_isObject
        · have hconfig :=
            Tree.configOf_none hnone (start + callee.width + Tree.widthAll types +
            opening.width)
          rw [Option.any_some, Site.ofParts, hconfig] at hcheck
          cases hcheck
      obtain ⟨-, haligned, hsides⟩ := call_aligned hparse rfl hpart
      exact ⟨tree, start, callee, types, opening, items, closing, rfl, rfl, hpart,
        hobject, haligned,
        hsides hobject⟩
    · cases hcheck

end AnimLint
