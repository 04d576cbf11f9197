/-
AnimLint/Proofs/ZoneShape.lean

The zones of a call, told by its tree.  Zones are found by byte ranges; here
they are what stands between the `(` and the first object and between the last
object and the `)`, with the arguments as they are and the gaps made of what
stands in front of arguments and commas (`piecesOf`).  The two agree for every
sound call, wherever it stands in a text, unless a `(` stands in a comment
between the callee and the `(` (`zones_ofParts`); where one does, the first zone
starts in that comment (`zones_behind`).
-/
import AnimLint.Proofs.Carrying
import AnimLint.Proofs.Spacing

namespace AnimLint.Script

open Text

namespace Tree

/-! ### Widths -/

theorem width_token (t : Token) : t.width = byteLength t.source := by
  simp [Token.width, Token.leadWidth, Token.source]

mutual

theorem width_eq : (t : Tree) → t.width = byteLength t.source
  | leaf t => width_token t
  | node _ parts => widthAll_eq parts
  | call callee types opening items closing => by
    simp [width, source, width_token, width_eq callee, widthAll_eq types,
      widthAll_eq items]

theorem widthAll_eq : (ts : List Tree) → widthAll ts = byteLength (sourceAll ts)
  | [] => rfl
  | t :: ts => by simp [widthAll, sourceAll, width_eq t, widthAll_eq ts]

end

theorem leadWidth_eq {t : Tree} (ht : t.isSound = true) :
    t.leadWidth = byteLength (triviaText t.lead) := by
  rw [leadWidth, firstToken_eq t ht, lead]
  rcases t.tokens with - | ⟨s, ss⟩ <;> rfl

theorem spanAt_eq {t : Tree} (ht : t.isSound = true) (start : Nat) :
    t.spanAt start =
      ⟨start + byteLength (triviaText t.lead), start + byteLength t.source⟩ := by
  rw [spanAt, leadWidth_eq ht, width_eq]

/-! ### The configuration object -/

theorem argumentsAt_append (start : Nat) (a b : List Tree) :
    argumentsAt start (a ++ b) =
      argumentsAt start a ++ argumentsAt (start + widthAll a) b := by
  induction a generalizing start with
  | nil => rfl
  | cons t a ih =>
    rw [List.cons_append, argumentsAt, argumentsAt, ih, widthAll, ← Nat.add_assoc]
    split <;> rfl

/-- The spans of the objects among the items of a call. -/
def objectsAt (start : Nat) (items : List Tree) : List Span :=
  ((argumentsAt start items).filter (·.2)).map (·.1)

theorem objectsAt_append (start : Nat) (a b : List Tree) :
    objectsAt start (a ++ b) = objectsAt start a ++ objectsAt (start + widthAll a) b := by
  rw [objectsAt, argumentsAt_append, List.filter_append, List.map_append]
  rfl

theorem objectsAt_eq_nil {items : List Tree} (h : ∀ t ∈ items, t.isObject = false)
    (start : Nat) :
    objectsAt start items = [] := by
  induction items generalizing start with
  | nil => rfl
  | cons t items ih =>
    have hrest := ih (fun u hu => h u (List.mem_cons_of_mem _ hu)) (start + t.width)
    rw [objectsAt] at hrest
    have ht := h t List.mem_cons_self
    rw [objectsAt, argumentsAt]
    split
    · exact hrest
    · rw [List.filter_cons_of_neg (by simp [ht])]
      exact hrest

theorem isComma_of_isObject {t : Tree} (h : t.isObject = true) : t.isComma = false := by
  cases t with
  | leaf s => cases h
  | node kind parts => rfl
  | call callee types opening items closing => rfl

theorem objectsAt_singleton {t : Tree} (h : t.isObject = true) (start : Nat) :
    objectsAt start [t] = [t.spanAt start] := by
  simp [objectsAt, argumentsAt, isComma_of_isObject h, h]

theorem configOf_eq (start : Nat) (items : List Tree) :
    configOf (argumentsAt start items) =
      match (objectsAt start items).head?, (objectsAt start items).getLast? with
      | some first, some last => some ⟨first.start, last.stop⟩
      | _, _ => none := rfl

/-- The items of a call parted at the first object and after the last one. -/
structure Config (items front : List Tree) (first : Tree)
    (middle back : List Tree) : Prop where
  items_eq : items = front ++ (first :: middle ++ back)
  front_none : ∀ t ∈ front, t.isObject = false
  first_object : first.isObject = true
  last_object : ∃ init object, first :: middle = init ++ [object] ∧ object.isObject = true
  back_none : ∀ t ∈ back, t.isObject = false

theorem exists_last_object {items : List Tree} (h : ∃ t ∈ items, t.isObject = true) :
    ∃ init object back, items = init ++ object :: back ∧ object.isObject = true ∧
      ∀ t ∈ back, t.isObject = false := by
  induction items with
  | nil =>
    obtain ⟨t, ht, -⟩ := h
    cases ht
  | cons t items ih =>
    by_cases hrest : ∃ u ∈ items, u.isObject = true
    · obtain ⟨init, object, back, rfl, hobject, hback⟩ := ih hrest
      exact ⟨t :: init, object, back, rfl, hobject, hback⟩
    · obtain ⟨u, hu, hobject⟩ := h
      rcases List.mem_cons.1 hu with rfl | hu
      · refine ⟨[], u, items, rfl, hobject, fun v hv => ?_⟩
        exact Bool.eq_false_iff.2 fun hv' => hrest ⟨v, hv, hv'⟩
      · exact absurd ⟨u, hu, hobject⟩ hrest

theorem exists_config {items : List Tree} (h : ∃ t ∈ items, t.isObject = true) :
    ∃ front first middle back, Config items front first middle back := by
  induction items with
  | nil =>
    obtain ⟨t, ht, -⟩ := h
    cases ht
  | cons t items ih =>
    rcases ht : t.isObject with - | -
    · have hrest : ∃ u ∈ items, u.isObject = true := by
        obtain ⟨u, hu, hobject⟩ := h
        rcases List.mem_cons.1 hu with rfl | hu
        · rw [ht] at hobject
          cases hobject
        · exact ⟨u, hu, hobject⟩
      obtain ⟨front, first, middle, back, hconfig⟩ := ih hrest
      refine ⟨t :: front, first, middle, back, ?_, ?_, hconfig.first_object,
        hconfig.last_object,
        hconfig.back_none⟩
      · rw [hconfig.items_eq]
        rfl
      · intro u hu
        rcases List.mem_cons.1 hu with rfl | hu
        · exact ht
        · exact hconfig.front_none u hu
    · obtain ⟨init, object, back, hitems, hobject, hback⟩ := exists_last_object h
      rcases init with - | ⟨s, init⟩
      · obtain ⟨rfl, rfl⟩ := List.cons.inj hitems
        exact ⟨[], t, [], items, rfl, by simp, ht, ⟨[], t, rfl, ht⟩, hback⟩
      · obtain ⟨rfl, rfl⟩ := List.cons.inj hitems
        refine ⟨[], t, init ++ [object], back, by simp, by simp, ht, ?_, hback⟩
        exact ⟨t :: init, object, rfl, hobject⟩

theorem config_or_none (items : List Tree) :
    (∃ front first middle back, Config items front first middle back) ∨
      ∀ t ∈ items, t.isObject = false := by
  by_cases h : ∃ t ∈ items, t.isObject = true
  · exact .inl (exists_config h)
  · exact .inr fun t ht => Bool.eq_false_iff.2 fun hobject => h ⟨t, ht, hobject⟩

theorem Config.any_isObject {items front middle back : List Tree} {first : Tree}
    (h : Config items front first middle back) : items.any isObject = true := by
  rw [h.items_eq, List.any_append, List.any_append, List.any_cons, h.first_object]
  simp

theorem configOf_none {items : List Tree} (h : ∀ t ∈ items, t.isObject = false)
    (start : Nat) :
    configOf (argumentsAt start items) = none := by
  rw [configOf_eq, objectsAt_eq_nil h]
  rfl

theorem Config.configOf {items front middle back : List Tree} {first : Tree}
    (h : Config items front first middle back) (hsound : ∀ t ∈ items, t.isSound = true)
    (start : Nat) :
    configOf (argumentsAt start items) =
      some ⟨start + byteLength (sourceAll front) + byteLength (triviaText first.lead),
        start + byteLength (sourceAll front) +
        byteLength (sourceAll (first :: middle))⟩ := by
  have hfirst : (objectsAt start items).head? =
      some (first.spanAt (start + byteLength (sourceAll front))) := by
    rw [h.items_eq, objectsAt_append, objectsAt_eq_nil h.front_none,
      List.nil_append, List.cons_append, ← List.singleton_append, objectsAt_append,
      objectsAt_singleton h.first_object, widthAll_eq]
    rfl
  obtain ⟨init, object, hmiddle, hobject⟩ := h.last_object
  have hlast : (objectsAt start items).getLast? =
      some (object.spanAt (start + byteLength (sourceAll front) +
        byteLength (sourceAll init))) := by
    rw [h.items_eq, hmiddle, objectsAt_append, objectsAt_append, objectsAt_append,
      objectsAt_singleton hobject, objectsAt_eq_nil h.back_none, widthAll_eq, widthAll_eq]
    simp
  have hmem : first ∈ items ∧ object ∈ items := by
    rw [h.items_eq, hmiddle]
    refine ⟨?_, by simp⟩
    have : first ∈ init ++ [object] := by
      rw [← hmiddle]
      exact List.mem_cons_self
    simp only [List.mem_append] at this ⊢
    exact .inr (.inl this)
  rw [configOf_eq, hfirst, hlast, spanAt_eq (hsound _ hmem.1),
    spanAt_eq (hsound _ hmem.2), hmiddle]
  simp [sourceAll, Nat.add_assoc]

/-! ### Pieces -/

/-- The gap with a text, unless the text is empty. -/
def gapPiece (text : List Char) : List Piece := if text.isEmpty then [] else [.gap text]

/-- The pieces that items are cut into; `pending` is what stands in front of
them since the last argument, and `last` is what follows them. -/
def piecesOf (last pending : List Char) : List Tree → List Piece
  | [] => gapPiece (pending ++ last)
  | t :: ts =>
    if t.isComma then piecesOf last (pending ++ t.source) ts
    else gapPiece (pending ++ triviaText t.lead) ++ .argument t.solid ::
      piecesOf last [] ts

theorem gapOf_eq (pre text post : List Char) :
    gapOf? (pre ++ (text ++ post)) ⟨byteLength pre, byteLength pre + byteLength text⟩ =
      some (gapPiece text) := by
  rw [gapOf?, slice?_mid]
  rcases text with - | ⟨c, r⟩
  · simp [gapPiece]
  · have := c.utf8Size_pos
    rw [if_pos (by simp; omega)]
    rfl

theorem piecesFrom_skip {outside : List Span} {bounds : Span} (source : List Char)
    (cursor : Nat) (rest : List Span)
    (h : ∀ s ∈ outside, s.stop ≤ bounds.start ∨ bounds.stop ≤ s.start) :
    piecesFrom? source bounds cursor (outside ++ rest) =
      piecesFrom? source bounds cursor rest := by
  induction outside with
  | nil => rfl
  | cons s outside ih =>
    have hs : (decide (s.stop ≤ bounds.start) ||
        decide (bounds.stop ≤ s.start)) = true := by
      simpa using h s List.mem_cons_self
    rw [List.cons_append, piecesFrom?, if_pos hs]
    exact ih fun u hu => h u (List.mem_cons_of_mem _ hu)

theorem byteLength_solid_pos {t : Tree} (ht : t.IsItem) : 0 < byteLength t.solid := by
  have := mt byteLength_eq_zero.1 ht.solid_ne_nil
  omega

theorem byteLength_source (t : Tree) :
    byteLength t.source = byteLength (triviaText t.lead) + byteLength t.solid := by
  rw [source_eq, byteLength_append]

/-- Cutting a stretch of text that spells items gives the pieces of the
items. -/
theorem piecesFrom_items {items : List Tree} (bounds : Span) (later : List Span)
    (hitems : ∀ t ∈ items, t.IsItem) (pre pending last post : List Char)
    (hstart : bounds.start ≤ byteLength pre)
    (hstop : bounds.stop = byteLength (pre ++ (pending ++ (sourceAll items ++ last))))
    (hlater : ∀ s ∈ later, bounds.stop ≤ s.start) :
    piecesFrom? (pre ++ (pending ++ (sourceAll items ++ (last ++ post)))) bounds
      (byteLength pre)
        ((argumentsAt (byteLength (pre ++ pending)) items).map (·.1) ++ later) =
      some (piecesOf last pending items) := by
  induction items generalizing pre pending with
  | nil =>
    have hskip := piecesFrom_skip (pre ++ (pending ++ (last ++ post))) (byteLength pre) []
      fun s hs => Or.inr (hlater s hs)
    rw [List.append_nil] at hskip
    have hgap := gapOf_eq pre (pending ++ last) post
    simp only [sourceAll, List.nil_append, byteLength_append] at hstop
    simp only [argumentsAt, List.map_nil, List.nil_append, sourceAll, piecesOf]
    rw [hskip, piecesFrom?, hstop]
    simpa [Nat.add_assoc] using hgap
  | cons t items ih =>
    have ht := hitems t List.mem_cons_self
    have hrest := fun u hu => hitems u (List.mem_cons_of_mem _ hu)
    have hlen := byteLength_source t
    rw [argumentsAt, piecesOf]
    by_cases hcomma : t.isComma = true
    · rw [if_pos hcomma, if_pos hcomma]
      have := ih hrest pre (pending ++ t.source) hstart
        (by rw [hstop]; simp [sourceAll])
      simpa [sourceAll, width_eq, Nat.add_assoc] using this
    · rw [if_neg hcomma, if_neg hcomma]
      have hsolid := byteLength_solid_pos ht
      simp only [byteLength_append, sourceAll] at hstop
      have hgap := gapOf_eq pre (pending ++ triviaText t.lead)
        (t.solid ++ (sourceAll items ++ (last ++ post)))
      have hslice := slice?_mid (pre ++ (pending ++ triviaText t.lead)) t.solid
        (sourceAll items ++ (last ++ post))
      have hafter := ih hrest (pre ++ (pending ++ t.source)) []
        (by simp only [byteLength_append]; omega)
        (by rw [hstop]; simp only [byteLength_append, List.nil_append]; omega)
      have hgapSource : pre ++ (pending ++ (sourceAll (t :: items) ++ (last ++ post))) =
          pre ++ ((pending ++ triviaText t.lead) ++
            (t.solid ++ (sourceAll items ++ (last ++ post)))) := by
        simp [sourceAll, source_eq t]
      have hsliceSource : pre ++ (pending ++ (sourceAll (t :: items) ++ (last ++ post))) =
          (pre ++ (pending ++ triviaText t.lead)) ++
          (t.solid ++ (sourceAll items ++ (last ++ post))) := by
        simp [sourceAll, source_eq t]
      have hafterSource : pre ++ (pending ++ (sourceAll (t :: items) ++ (last ++ post))) =
          (pre ++ (pending ++ t.source)) ++
          ([] ++ (sourceAll items ++ (last ++ post))) := by
        simp [sourceAll]
      rw [← hgapSource] at hgap
      rw [← hsliceSource] at hslice
      rw [← hafterSource] at hafter
      have hspan : t.spanAt (byteLength (pre ++ pending)) =
          ⟨byteLength pre + byteLength (pending ++ triviaText t.lead),
            byteLength (pre ++ (pending ++ t.source))⟩ := by
        rw [spanAt_eq ht.isSound]
        simp [Nat.add_assoc]
      have hspan' : t.spanAt (byteLength (pre ++ pending)) =
          ⟨byteLength (pre ++ (pending ++ triviaText t.lead)),
            byteLength (pre ++ (pending ++ triviaText t.lead)) + byteLength t.solid⟩ := by
        rw [hspan]
        simp [hlen, Nat.add_assoc]
      have hnext : byteLength (pre ++ pending) + t.width =
          byteLength (pre ++ (pending ++ t.source) ++ []) := by
        simp [width_eq, Nat.add_assoc]
      rw [List.map_cons, List.cons_append, piecesFrom?, hnext, if_neg, if_neg]
      · rw [← hspan'] at hslice
        simp only [hslice]
        rw [hspan]
        simp only [hgap, hafter]
        rfl
      · rw [hspan]
        simp only [byteLength_append, Bool.or_eq_true, decide_eq_true_eq, not_or]
        omega
      · rw [hspan]
        simp only [byteLength_append, Bool.or_eq_true, decide_eq_true_eq, not_or]
        omega

/-- Where the arguments lie among the items. -/
theorem argumentsAt_within {items : List Tree} (hitems : ∀ t ∈ items, t.IsItem)
    (start : Nat) :
    ∀ a ∈ argumentsAt start items, start ≤ a.1.start ∧
      a.1.stop ≤ start + byteLength (sourceAll items) := by
  induction items generalizing start with
  | nil =>
    intro a ha
    cases ha
  | cons t items ih =>
    have hrest := ih (fun u hu => hitems u (List.mem_cons_of_mem _ hu)) (start + t.width)
    have hwithin : ∀ a ∈ argumentsAt (start + t.width) items, start ≤ a.1.start ∧
        a.1.stop ≤ start + byteLength (sourceAll (t :: items)) := by
      intro a ha
      obtain ⟨hstart, hstop⟩ := hrest a ha
      rw [width_eq] at hstart hstop
      simp only [sourceAll, byteLength_append]
      omega
    intro a ha
    rw [argumentsAt] at ha
    split at ha
    · exact hwithin a ha
    · rcases List.mem_cons.1 ha with rfl | ha
      · rw [spanAt_eq (hitems t List.mem_cons_self).isSound]
        simp only [sourceAll, byteLength_append]
        omega
      · exact hwithin a ha

/-- No argument starts before the first token of the first item. -/
theorem le_start_of_argumentsAt {t : Tree} {items : List Tree} (ht : t.IsItem)
    (hitems : ∀ u ∈ items, u.IsItem) (start : Nat) :
    ∀ s ∈ (argumentsAt start (t :: items)).map (·.1),
      start + byteLength (triviaText t.lead) ≤ s.start := by
  have hle : byteLength (triviaText t.lead) ≤ t.width := by
    rw [width_eq, byteLength_source]
    omega
  have hrest : ∀ a ∈ argumentsAt (start + t.width) items,
      start + byteLength (triviaText t.lead) ≤ a.1.start := by
    intro a ha
    have := (argumentsAt_within hitems _ a ha).1
    omega
  intro s hs
  obtain ⟨a, ha, rfl⟩ := List.mem_map.1 hs
  rw [argumentsAt] at ha
  split at ha
  · exact hrest a ha
  · rcases List.mem_cons.1 ha with rfl | ha
    · refine Nat.le_of_eq ?_
      rw [spanAt_eq ht.isSound]
    · exact hrest a ha

/-! ### The zones of a call -/

/-- The zone in front of the first object, from a given byte on. -/
def leadingZone (start : Nat) (front : List Tree) (first : Tree) : Zone where
  side := .leading
  span := ⟨start, start + byteLength (sourceAll front ++ triviaText first.lead)⟩
  text := sourceAll front ++ triviaText first.lead
  pieces := piecesOf (triviaText first.lead) [] front

/-- The zone behind the last object, from a given byte on. -/
def trailingZone (start : Nat) (back : List Tree) (closing : Token) : Zone where
  side := .trailing
  span := ⟨start, start + byteLength (sourceAll back ++ triviaText closing.trivia)⟩
  text := sourceAll back ++ triviaText closing.trivia
  pieces := piecesOf (triviaText closing.trivia) [] back

variable {callee first : Tree} {types items front middle back : List Tree}
  {opening closing : Token}

theorem zones_ofParts_none (h : ∀ t ∈ items, t.isObject = false)
    (source : List Char) (start : Nat) :
    zones source (Site.ofParts start callee types opening items closing).call = [] := by
  have hnone := configOf_none h (start + callee.width + widthAll types + opening.width)
  simp only [zones, Site.ofParts, hnone]

/-- The parts of a call as byte ranges of a text that has `before` in front of
the `(` with its trivia. -/
theorem call_ofParts (hcall : SoundCall callee types opening items closing)
    {pre : List Char}
    {before : List Char} (hbefore : before = pre ++ (callee.source ++ sourceAll types)) :
    (Site.ofParts (byteLength pre) callee types opening items closing).call =
      { span := ⟨byteLength (pre ++ triviaText callee.lead),
          byteLength (before ++ (opening.source ++ (sourceAll items ++ closing.source)))⟩
        callee := ⟨byteLength (pre ++ triviaText callee.lead),
          byteLength (pre ++ callee.source)⟩
        argsFrom := byteLength before
        arguments := (argumentsAt (byteLength (before ++ opening.source)) items).map (·.1)
        config := configOf
          (argumentsAt (byteLength (before ++ opening.source)) items) } := by
  simp [Site.ofParts, spanAt_eq hcall.calleeSound, width_eq, widthAll_eq,
    width_token, hbefore, Nat.add_assoc]

theorem byteLength_callee_pos (hcall : SoundCall callee types opening items closing) :
    0 < byteLength callee.solid := by
  obtain ⟨c, r, hsolid, -⟩ := hcall.head
  have := c.utf8Size_pos
  rw [hsolid, byteLength_cons]
  omega

theorem zone_eq {source text : List Char} {call : Call} {side : Side} {bounds : Span}
    (ps : List Piece) (hstart : call.span.start < bounds.start)
    (hstop : bounds.stop < call.span.stop) (htext : slice? source bounds = some text)
    (hps : piecesFrom? source bounds bounds.start call.arguments = some ps) :
    zone? source call side bounds = some ⟨side, bounds, text, ps⟩ := by
  obtain ⟨-, -, -, -, hle⟩ := slice?_eq_some_iff.1 htext
  rw [zone?, if_neg, htext, pieces?, hps]
  · rfl
  · simp only [Bool.or_eq_true, decide_eq_true_eq, not_or]
    omega

/-- The zone in front of the first object starts behind the first `(` after the
callee, be it in a comment or the one that opens the arguments. -/
theorem leadingZone_behind (hcall : SoundCall callee types opening items closing)
    (hconfig : Config items front first middle back) {comment gap : List Char}
    (hopening : opening.source = comment ++ '(' :: gap) (hparen : '(' ∉ comment)
    {pre post before : List Char}
    (hbefore : before = pre ++ (callee.source ++ sourceAll types)) :
    leadingZone?
      (before ++ (opening.source ++ (sourceAll items ++ (closing.source ++ post))))
        (Site.ofParts (byteLength pre) callee types opening items closing).call
        ⟨byteLength (before ++
          (opening.source ++ (sourceAll front ++ triviaText first.lead))),
          byteLength (before ++
            (opening.source ++ (sourceAll front ++ sourceAll (first :: middle))))⟩ =
      some {
        side := .leading
        span := ⟨byteLength (before ++ (comment ++ ['('])),
          byteLength (before ++
            (opening.source ++ (sourceAll front ++ triviaText first.lead)))⟩
        text := gap ++ (sourceAll front ++ triviaText first.lead)
        pieces := piecesOf (triviaText first.lead) gap front } := by
  have hitems := hconfig.items_eq
  have hfront : ∀ t ∈ front, t.IsItem := fun t ht => hcall.item t (by simp [hitems, ht])
  have hrest : ∀ t ∈ middle ++ back, t.IsItem :=
    fun t ht => hcall.item t (by
      rcases List.mem_append.1 ht with ht | ht <;> simp [hitems, ht])
  have hfirst := hcall.item first (by simp [hitems])
  have hsource := source_eq first
  -- the text from behind the type arguments to the first object
  have hbetween :
      slice? (before ++ (opening.source ++ (sourceAll items ++ (closing.source ++ post))))
      ⟨byteLength before,
        byteLength (before ++
          (opening.source ++ (sourceAll front ++ triviaText first.lead)))⟩ =
      some (comment ++ '(' :: (gap ++ (sourceAll front ++ triviaText first.lead))) := by
    refine slice?_eq_some_iff.2 ⟨before, first.solid ++
      (sourceAll middle ++ (sourceAll back ++ (closing.source ++ post))), ?_, rfl, ?_⟩
    · simp [hopening, hitems, sourceAll, hsource]
    · simp [hopening]
  have hskip : byteLength before + (byteLength comment + 1) =
      byteLength (before ++ (comment ++ ['('])) := by
    have hone : ('(' : Char).utf8Size = 1 := rfl
    simp [hone]
  have htext :
      slice? (before ++ (opening.source ++ (sourceAll items ++ (closing.source ++ post))))
      ⟨byteLength (before ++ (comment ++ ['('])),
        byteLength (before ++
          (opening.source ++ (sourceAll front ++ triviaText first.lead)))⟩ =
      some (gap ++ (sourceAll front ++ triviaText first.lead)) := by
    refine slice?_eq_some_iff.2 ⟨before ++ (comment ++ ['(']), first.solid ++
      (sourceAll middle ++ (sourceAll back ++ (closing.source ++ post))), ?_, rfl, ?_⟩
    · simp [hopening, hitems, sourceAll, hsource]
    · simp [hopening, Nat.add_assoc]
  have hlater :
      ∀ s ∈ (argumentsAt (byteLength (before ++ opening.source) + widthAll front)
      (first :: (middle ++ back))).map (·.1),
      byteLength (before ++
        (opening.source ++ (sourceAll front ++ triviaText first.lead))) ≤
        s.start := by
    intro s hs
    have := le_start_of_argumentsAt hfirst hrest _ s hs
    simp only [widthAll_eq, byteLength_append] at this ⊢
    omega
  have hpieces := piecesFrom_items ⟨byteLength (before ++ (comment ++ ['('])),
      byteLength (before ++
        (opening.source ++ (sourceAll front ++ triviaText first.lead)))⟩ _
    hfront (before ++ (comment ++ ['('])) gap (triviaText first.lead)
    (first.solid ++ (sourceAll middle ++ (sourceAll back ++ (closing.source ++ post))))
    (Nat.le_refl _) (by simp [hopening]) hlater
  have hbehind : before ++ (comment ++ ['(']) ++ gap = before ++ opening.source := by
    simp [hopening]
  have harguments :
      (argumentsAt (byteLength (before ++ opening.source)) items).map (·.1) =
      (argumentsAt (byteLength (before ++ (comment ++ ['(']) ++ gap)) front).map (·.1) ++
        (argumentsAt (byteLength (before ++ opening.source) + widthAll front)
          (first :: (middle ++ back))).map (·.1) := by
    rw [hbehind, hitems, argumentsAt_append, List.map_append]
    rfl
  have hsame :
      before ++ (opening.source ++ (sourceAll items ++ (closing.source ++ post))) =
      before ++ (comment ++ ['(']) ++
      (gap ++ (sourceAll front ++ (triviaText first.lead ++
        (first.solid ++
          (sourceAll middle ++ (sourceAll back ++ (closing.source ++ post))))))) := by
    simp [hopening, hitems, sourceAll, hsource]
  rw [← hsame, ← harguments] at hpieces
  rw [call_ofParts hcall hbefore, leadingZone?]
  simp only [hbetween, Option.bind_eq_bind, Option.bind_some,
    afterParen_append hparen, hskip]
  refine zone_eq (piecesOf (triviaText first.lead) gap front) ?_ ?_ htext hpieces
  · have := byteLength_source callee
    have := byteLength_callee_pos hcall
    simp only [hbefore, byteLength_append]
    omega
  · have := byteLength_solid_pos hfirst
    simp only [hitems, sourceAll_append, byteLength_append, sourceAll, hsource]
    omega

theorem trailingZone_ofParts (hcall : SoundCall callee types opening items closing)
    (hconfig : Config items front first middle back)
    {pre post before : List Char}
    (hbefore : before = pre ++ (callee.source ++ sourceAll types)) :
    trailingZone?
      (before ++ (opening.source ++ (sourceAll items ++ (closing.source ++ post))))
        (Site.ofParts (byteLength pre) callee types opening items closing).call
        ⟨byteLength (before ++
          (opening.source ++ (sourceAll front ++ triviaText first.lead))),
          byteLength (before ++
            (opening.source ++ (sourceAll front ++ sourceAll (first :: middle))))⟩ =
      some (trailingZone (byteLength (before ++ (opening.source ++ (sourceAll front ++
        sourceAll (first :: middle))))) back closing) := by
  have hitems := hconfig.items_eq
  have hback : ∀ t ∈ back, t.IsItem := fun t ht => hcall.item t (by simp [hitems, ht])
  have hrest : ∀ t ∈ front ++ (first :: middle), t.IsItem :=
    fun t ht => hcall.item t (by
      rw [hitems, ← List.append_assoc]
      exact List.mem_append_left _ ht)
  have hparenText : closing.source = triviaText closing.trivia ++ [')'] := by
    rw [Token.source, hcall.closingText]
  have hone : (')' : Char).utf8Size = 1 := rfl
  have hsame :
      before ++ (opening.source ++ (sourceAll items ++ (closing.source ++ post))) =
      before ++ (opening.source ++ (sourceAll front ++ sourceAll (first :: middle))) ++
        ([] ++ (sourceAll back ++ (triviaText closing.trivia ++ (')' :: post)))) := by
    simp [hitems, hparenText, sourceAll]
  have hend : byteLength
      (before ++ (opening.source ++ (sourceAll items ++ closing.source))) =
      byteLength (before ++
        (opening.source ++ (sourceAll front ++ sourceAll (first :: middle))) ++
        ([] ++ (sourceAll back ++ triviaText closing.trivia))) + 1 := by
    simp [hitems, hparenText, sourceAll, hone, Nat.add_assoc]
  have hparen :
      slice? (before ++ (opening.source ++ (sourceAll items ++ (closing.source ++ post))))
      ⟨byteLength (before ++
        (opening.source ++ (sourceAll front ++ sourceAll (first :: middle))) ++
        ([] ++ (sourceAll back ++ triviaText closing.trivia))),
        byteLength (before ++
          (opening.source ++ (sourceAll front ++ sourceAll (first :: middle))) ++
        ([] ++ (sourceAll back ++ triviaText closing.trivia))) + 1⟩ = some [')'] := by
    refine slice?_eq_some_iff.2 ⟨_, post, ?_, rfl, ?_⟩
    · rw [hsame]
      simp
    · simp [hone]
  have htext :
      slice? (before ++ (opening.source ++ (sourceAll items ++ (closing.source ++ post))))
      ⟨byteLength (before ++
        (opening.source ++ (sourceAll front ++ sourceAll (first :: middle)))),
        byteLength (before ++
          (opening.source ++ (sourceAll front ++ sourceAll (first :: middle))) ++
        ([] ++ (sourceAll back ++ triviaText closing.trivia)))⟩ =
      some (sourceAll back ++ triviaText closing.trivia) := by
    refine slice?_eq_some_iff.2 ⟨_, ')' :: post, ?_, rfl, ?_⟩
    · rw [hsame]
      simp
    · simp [Nat.add_assoc]
  have hearlier : ∀ s ∈ (argumentsAt (byteLength (before ++ opening.source))
      (front ++ (first :: middle))).map (·.1),
      s.stop ≤ byteLength
          (before ++ (opening.source ++
            (sourceAll front ++ sourceAll (first :: middle)))) ∨
        byteLength (before ++
          (opening.source ++ (sourceAll front ++ sourceAll (first :: middle))) ++
          ([] ++ (sourceAll back ++ triviaText closing.trivia))) ≤ s.start := by
    intro s hs
    obtain ⟨a, ha, rfl⟩ := List.mem_map.1 hs
    have := (argumentsAt_within hrest _ a ha).2
    left
    simpa [Nat.add_assoc] using this
  have hpieces :=
    piecesFrom_items ⟨byteLength (before ++ (opening.source ++ (sourceAll front ++
      sourceAll (first :: middle)))),
      byteLength (before ++ (opening.source ++ (sourceAll front ++
      sourceAll (first :: middle))) ++
      ([] ++ (sourceAll back ++ triviaText closing.trivia)))⟩ []
    hback (before ++
      (opening.source ++ (sourceAll front ++ sourceAll (first :: middle)))) []
    (triviaText closing.trivia) (')' :: post) (Nat.le_refl _) rfl (by simp)
  have harguments :
      (argumentsAt (byteLength (before ++ opening.source)) items).map (·.1) =
      (argumentsAt (byteLength (before ++ opening.source))
        (front ++ (first :: middle))).map (·.1) ++
        ((argumentsAt (byteLength (before ++ (opening.source ++ (sourceAll front ++
          sourceAll (first :: middle))) ++ [])) back).map (·.1) ++ []) := by
    rw [hitems, ← List.append_assoc, argumentsAt_append, List.map_append, widthAll_eq]
    simp [Nat.add_assoc]
  rw [← hsame] at hpieces
  rw [call_ofParts hcall hbefore, trailingZone?, hend, if_neg (Nat.succ_ne_zero _),
    Nat.add_sub_cancel, if_pos hparen,
    zone_eq (piecesOf (triviaText closing.trivia) [] back) ?_ ?_ htext ?_, trailingZone]
  · simp [Nat.add_assoc]
  · have := byteLength_source callee
    have := byteLength_callee_pos hcall
    simp only [hbefore, byteLength_append]
    omega
  · exact Nat.lt_succ_self _
  · rw [harguments, piecesFrom_skip _ _ _ hearlier]
    exact hpieces

/-- The zones of a call with an object among its arguments, wherever the call
stands.  The first starts behind the first `(` after the callee. -/
theorem zones_behind (hcall : SoundCall callee types opening items closing)
    (hconfig : Config items front first middle back) {comment gap : List Char}
    (hopening : opening.source = comment ++ '(' :: gap) (hparen : '(' ∉ comment)
    (pre post : List Char) :
    zones (pre ++ ((call callee types opening items closing).source ++ post))
        (Site.ofParts (byteLength pre) callee types opening items closing).call =
      [{ side := .leading
         span := ⟨byteLength
           (pre ++ (callee.source ++ (sourceAll types ++ (comment ++ ['('])))),
           byteLength (pre ++ (callee.source ++ (sourceAll types ++ (opening.source ++
             (sourceAll front ++ triviaText first.lead)))))⟩
         text := gap ++ (sourceAll front ++ triviaText first.lead)
         pieces := piecesOf (triviaText first.lead) gap front },
        trailingZone
          (byteLength (pre ++ (callee.source ++ (sourceAll types ++ (opening.source ++
          (sourceAll front ++ sourceAll (first :: middle))))))) back closing] := by
  have hsource : pre ++ ((call callee types opening items closing).source ++ post) =
      pre ++ (callee.source ++ sourceAll types) ++
        (opening.source ++ (sourceAll items ++ (closing.source ++ post))) := by
    simp [source]
  have hitem : ∀ t ∈ items, t.isSound = true := fun t ht => (hcall.item t ht).isSound
  have hbounds := hconfig.configOf hitem
    (byteLength (pre ++ (callee.source ++ sourceAll types) ++ opening.source))
  have hconf :
      (Site.ofParts (byteLength pre) callee types opening items closing).call.config =
      some ⟨byteLength (pre ++ (callee.source ++ sourceAll types) ++
            (opening.source ++ (sourceAll front ++ triviaText first.lead))),
          byteLength (pre ++ (callee.source ++ sourceAll types) ++
            (opening.source ++ (sourceAll front ++ sourceAll (first :: middle))))⟩ := by
    rw [call_ofParts hcall rfl]
    simpa [Nat.add_assoc] using hbounds
  rw [zones, hconf]
  simp only []
  rw [hsource, leadingZone_behind hcall hconfig hopening hparen rfl,
    trailingZone_ofParts hcall hconfig rfl]
  simp

/-- The zones of a call with an object among its arguments, where no `(` stands
in a comment between the callee and the `(`. -/
theorem zones_ofParts (hcall : SoundCall callee types opening items closing)
    (hconfig : Config items front first middle back)
    (hparen : '(' ∉ triviaText opening.trivia)
    (pre post : List Char) :
    zones (pre ++ ((call callee types opening items closing).source ++ post))
        (Site.ofParts (byteLength pre) callee types opening items closing).call =
      [leadingZone
        (byteLength (pre ++ (callee.source ++ (sourceAll types ++ opening.source))))
          front first,
        trailingZone
          (byteLength (pre ++ (callee.source ++ (sourceAll types ++ (opening.source ++
          (sourceAll front ++ sourceAll (first :: middle))))))) back closing] := by
  have hopening : opening.source = triviaText opening.trivia ++ ['('] := by
    rw [Token.source, hcall.openingText]
  rw [zones_behind hcall hconfig hopening hparen, leadingZone, ← hopening]
  simp [Nat.add_assoc]

end Tree

end AnimLint.Script
