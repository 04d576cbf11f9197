/-
AnimLint/Proofs/Sides.lean

On which sides of a call a zone spreads over several lines.  That depends on the
call alone and not on where it stands (`map_side_violations`), and of the call
it depends on the callee and on the gaps between the arguments.  So where a pass
leaves the zones of a call alone its sides stay, whatever happens inside of the
arguments and of the callee (`violatedSides_passed`); only an ending to look for
must not reach into the parentheses of a call in the callee, that is, a `)` it
holds must be its first character (`Target.endsPlainly`).
-/
import AnimLint.Proofs.Pass

namespace AnimLint

open Text Gap Script

/-! ### Which calls are looked at -/

/-- Holds if no ending to look for holds a `)` behind its first character. -/
def Target.endsPlainly (target : Target) : Bool :=
  (target.keywords ++ target.excludes).all fun ending => !ending.toList.tail.contains ')'

theorem suffix_of_not_mem_tail {l a r : List Char} {c : Char} (hc : c ∉ l.tail)
    (h : l <:+ a ++ c :: r) : l <:+ c :: r := by
  rcases List.suffix_or_suffix_of_suffix h (List.suffix_append a (c :: r)) with h | h
  · exact h
  · rcases l with - | ⟨d, l⟩
    · exact List.nil_suffix
    · rcases List.suffix_cons_iff.1 h with heq | h
      · exact ⟨[], heq.symm⟩
      · exact absurd (h.subset List.mem_cons_self) hc

theorem endsIn_append {ending : String} (h : ')' ∉ ending.toList.tail) (a r : List Char) :
    Target.endsIn (a ++ ')' :: r) ending = Target.endsIn (')' :: r) ending := by
  rw [Target.endsIn, Target.endsIn, Bool.eq_iff_iff, List.isSuffixOf_iff_suffix,
    List.isSuffixOf_iff_suffix]
  constructor
  · exact suffix_of_not_mem_tail h
  · intro hr
    exact hr.trans (List.suffix_append a (')' :: r))

theorem any_congr_mem {α : Type} {p q : α → Bool} {l : List α} (h : ∀ a ∈ l, p a = q a) :
    l.any p = l.any q := by
  induction l with
  | nil => rfl
  | cons a l ih =>
    rw [List.any_cons, List.any_cons, h a List.mem_cons_self,
      ih fun b hb => h b (List.mem_cons_of_mem a hb)]

/-- What stands in front of a `)` in a callee is not looked at. -/
theorem covers_append {target : Target} (h : target.endsPlainly = true)
    (a b r : List Char) :
    target.covers (a ++ ')' :: r) = target.covers (b ++ ')' :: r) := by
  have hplain : ∀ ending ∈ target.keywords ++ target.excludes,
      ')' ∉ ending.toList.tail := by
    intro ending hending
    have := List.all_eq_true.1 h ending hending
    simpa using this
  have htrim (s : List Char) : trimEnd (s ++ ')' :: r) = s ++ ')' :: trimEnd r :=
    trimEnd_append_cons (by decide) s r
  have hends : ∀ ending ∈ target.keywords ++ target.excludes,
      Target.endsIn (trimEnd (a ++ ')' :: r)) ending =
        Target.endsIn (trimEnd (b ++ ')' :: r)) ending := by
    intro ending hending
    rw [htrim, htrim, endsIn_append (hplain ending hending),
      endsIn_append (hplain ending hending)]
  rw [Target.covers, Target.covers,
    any_congr_mem fun k hk => hends k (List.mem_append_left _ hk),
    any_congr_mem fun k hk => hends k (List.mem_append_right _ hk)]

namespace Script.Tree

/-! ### The sides of a call -/

variable {target : Target} {callee first : Tree}
  {types items front middle back : List Tree} {opening closing : Token}

/-- The sides on which a call has a zone that spreads over several lines. -/
def violatedSides (target : Target) (callee : Tree) (types : List Tree) (opening : Token)
    (items : List Tree) (closing : Token) : List Side :=
  (violations target (call callee types opening items closing).source
    (Site.ofParts 0 callee types opening items closing).call).map (·.side)

/-- The sides of zones with these pieces. -/
def brokenSides (leading trailing : List Piece) : List Side :=
  (if piecesBreak leading then [Side.leading] else []) ++
    if piecesBreak trailing then [Side.trailing] else []

theorem calleeText_ofParts (hcall : SoundCall callee types opening items closing)
    (pre post : List Char) :
    (Site.ofParts (byteLength pre) callee types opening items closing).call.calleeText?
      (pre ++ ((call callee types opening items closing).source ++ post)) =
        some callee.solid := by
  rw [call_ofParts hcall rfl, Call.calleeText?]
  refine slice?_eq_some_iff.2
    ⟨pre ++ triviaText callee.lead, sourceAll types ++ (opening.source ++
    (sourceAll items ++ closing.source)) ++ post, ?_, rfl, ?_⟩
  · rw [source, source_eq callee]
    simp
  · rw [source_eq callee]
    simp [Nat.add_assoc]

theorem map_side_none (hnone : ∀ t ∈ items, t.isObject = false) (source : List Char)
    (start : Nat) :
    (violations target source
      (Site.ofParts start callee types opening items closing).call).map
      (·.side) = [] := by
  rw [violations, zones_ofParts_none hnone]
  split
  · rfl
  · split <;> rfl

theorem map_side_config (target : Target)
    (hcall : SoundCall callee types opening items closing)
    (hconfig : Config items front first middle back)
    (hparen : items.any isObject = true → '(' ∉ triviaText opening.trivia)
    (pre post : List Char) :
    (violations target (pre ++ ((call callee types opening items closing).source ++ post))
        (Site.ofParts (byteLength pre) callee types opening items
          closing).call).map (·.side) =
      if target.covers callee.solid then
        brokenSides (piecesOf (triviaText first.lead) [] front)
          (piecesOf (triviaText closing.trivia) [] back)
      else [] := by
  rw [violations, calleeText_ofParts hcall,
    zones_ofParts hcall hconfig (hparen hconfig.any_isObject)]
  simp only
  split
  · rw [brokenSides]
    have hside (zone : Zone) : (zone.violation?.map (·.side)).toList =
        if piecesBreak zone.pieces then [zone.side] else [] := by
      rw [Zone.violation?, Zone.spansLines]
      split <;> rfl
    have hfilter (zone zone' : Zone) :
        ([zone, zone'].filterMap Zone.violation?).map (·.side) =
          (zone.violation?.map (·.side)).toList ++
          (zone'.violation?.map (·.side)).toList := by
      rcases hz : zone.violation? with - | v <;> rcases hz' :
          zone'.violation? with - | v' <;>
        simp [hz, hz']
    rw [hfilter, hside, hside]
    rfl
  · rfl

/-- Wherever a call stands, its sides are the same. -/
theorem map_side_violations (hcall : SoundCall callee types opening items closing)
    (hparen : items.any isObject = true → '(' ∉ triviaText opening.trivia)
    (pre post : List Char) :
    (violations target (pre ++ ((call callee types opening items closing).source ++ post))
        (Site.ofParts (byteLength pre) callee types opening items
          closing).call).map (·.side) =
      violatedSides target callee types opening items closing := by
  rcases config_or_none items with ⟨front, first, middle, back, hconfig⟩ | hnone
  · have hplain := map_side_config target hcall hconfig hparen [] []
    rw [List.nil_append, List.append_nil] at hplain
    rw [map_side_config target hcall hconfig hparen, ← hplain]
    rfl
  · rw [map_side_none hnone, violatedSides, map_side_none hnone]

/-- Where a call has a zone that spreads over several lines, a line ends between
its parentheses. -/
theorem any_isLineBreak_of_violation
    (hcall : SoundCall callee types opening items closing)
    (hparen : items.any isObject = true → '(' ∉ triviaText opening.trivia)
    {pre post : List Char}
    {v : Violation} (hv : v ∈ violations target
      (pre ++ ((call callee types opening items closing).source ++ post))
      (Site.ofParts (byteLength pre) callee types opening items closing).call) :
    (sourceAll items ++ triviaText closing.trivia).any isLineBreak = true := by
  obtain ⟨zone, hzone, -, hlines⟩ := zone_of_violation hv
  have hbreak : zone.text.any isLineBreak = true := by
    have hlt := breakCount_compactPieces_lt zone.side hlines
    rw [Zone.text_of_mem hzone] at hlt
    refine Bool.of_not_eq_false fun hnone => ?_
    rw [breakCount_eq_zero.2 hnone] at hlt
    exact Nat.not_lt_zero _ hlt
  rcases config_or_none items with ⟨front, first, middle, back, hconfig⟩ | hnone
  · have hparts := hconfig.items_eq
    have hfirst := source_eq first
    rw [zones_ofParts hcall hconfig (hparen hconfig.any_isObject)] at hzone
    rcases List.mem_cons.1 hzone with rfl | hzone
    · rw [leadingZone, List.any_append] at hbreak
      simp only [hparts, sourceAll, sourceAll_append, hfirst, List.any_append,
        Bool.or_eq_true]
        at hbreak ⊢
      rcases hbreak with hbreak | hbreak <;> simp [hbreak]
    · obtain rfl := List.mem_singleton.1 hzone
      rw [trailingZone, List.any_append] at hbreak
      simp only [hparts, sourceAll_append, List.any_append, Bool.or_eq_true] at hbreak ⊢
      rcases hbreak with hbreak | hbreak <;> simp [hbreak]
  · rw [zones_ofParts_none hnone] at hzone
    cases hzone

/-! ### Sides after a pass -/

section Passed

variable {joins : Site → Side → Prop}

/-- Two rows of tokens are the same, or the same from some `)` on. -/
def SameTail (ts ts' : List Token) : Prop :=
  ts' = ts ∨ ∃ a a' s s' r, a ≠ [] ∧ a' ≠ [] ∧ s.text = [')'] ∧ s'.text = [')'] ∧
    ts = a ++ s :: r ∧ ts' = a' ++ s' :: r

theorem SameTail.append {a a' b b' : List Token} (ha : SameTail a a')
    (hb : SameTail b b') :
    SameTail (a ++ b) (a' ++ b') := by
  rcases hb with rfl | ⟨x, x', s, s', r, hx, hx', hs, hs', rfl, rfl⟩
  · rcases ha with rfl | ⟨x, x', s, s', r, hx, hx', hs, hs', rfl, rfl⟩
    · exact .inl rfl
    · exact .inr ⟨x, x', s, s', r ++ b', hx, hx', hs, hs', by simp, by simp⟩
  · exact .inr ⟨a ++ x, a' ++ x', s, s',
      r, by simp [hx], by simp [hx'], hs, hs', by simp, by simp⟩

theorem sameTail_allPassed {ts ts' : List Tree}
    (h : ∀ t ∈ ts, ∀ start t', Passed joins start t t' →
      SameTail t.tokens t'.tokens) {start : Nat}
    (hts : AllPassed joins start ts ts') : SameTail (tokensAll ts) (tokensAll ts') := by
  induction ts generalizing start ts' with
  | nil =>
    obtain rfl : ts' = [] := hts
    exact .inl rfl
  | cons t ts ih =>
    obtain ⟨t', r, rfl, ht, hr⟩ := hts
    exact (h t List.mem_cons_self _ _ ht).append
      (ih (fun u hu => h u (List.mem_cons_of_mem t hu)) hr)

/-- A pass changes nothing behind the last `)` of a call. -/
theorem sameTail_passed (t : Tree) (ht : t.isSound = true) : ∀ (start : Nat) (t' : Tree),
    Passed joins start t t' → SameTail t.tokens t'.tokens := by
  induction t using induct with
  | leaf s =>
    intro start t' h
    rw [show t' = leaf s from h]
    exact .inl rfl
  | node kind parts ih =>
    have hparts := areSound_iff.1 ht
    rintro start _ ⟨parts', rfl, h⟩
    exact sameTail_allPassed (fun t htm => ih t htm (hparts t htm)) h
  | call callee types opening items closing _ _ _ =>
    have hclosing := (soundCall ht).closingText
    rintro start _ ⟨callee', types', items₁, items₂, items', closing', rfl, -,
      -, -, -, hpr⟩
    have hclosing' : closing'.text = [')'] := by
      rcases closing_joinsTrailing hpr with rfl | ⟨row, -, rfl⟩
      · exact hclosing
      · exact hclosing
    refine .inr ⟨callee.tokens ++ (tokensAll types ++ opening :: tokensAll items),
      callee'.tokens ++ (tokensAll types' ++ opening :: tokensAll items'), closing,
      closing', [],
      by simp, by simp, hclosing, hclosing', by simp [tokens], by simp [tokens]⟩

/-- The same calls are looked at after a pass. -/
theorem covers_passed (htarget : target.endsPlainly = true) {t t' : Tree}
    (ht : t.isSound = true) {start : Nat} (h : Passed joins start t t') :
    target.covers t'.solid = target.covers t.solid := by
  rw [solid, solid]
  rcases sameTail_passed t ht start t' h with heq |
      ⟨a, a', s, s', r, ha, ha', hs, hs', heq, heq'⟩
  · rw [heq]
  · have hshape {x : List Token} (hx : x ≠ []) {u : Token} (hu : u.text = [')']) :
        solidOf (x ++ u :: r) =
          (solidOf x ++ triviaText u.trivia) ++ ')' :: tokensSource r := by
      rw [solidOf_append hx, tokensSource_cons, Token.source, hu]
      simp
    rw [heq, heq', hshape ha hs, hshape ha' hs']
    exact covers_append htarget _ _ _

theorem piecesBreak_append (a b : List Piece) :
    piecesBreak (a ++ b) = (piecesBreak a || piecesBreak b) :=
  List.any_append

/-- The gaps between items stay where a pass leaves the zone alone. -/
theorem any_piecesOf_passed {asks : Piece → Bool}
    (hargument : ∀ s, asks (.argument s) = false)
    {ts ts' : List Tree} (hsound : ∀ t ∈ ts, t.isSound = true) {start : Nat}
    (h : AllPassed joins start ts ts') (last pending : List Char) :
    (piecesOf last pending ts').any asks = (piecesOf last pending ts).any asks := by
  induction ts generalizing start ts' pending with
  | nil =>
    obtain rfl : ts' = [] := h
    rfl
  | cons t ts ih =>
    obtain ⟨t', r, rfl, ht, hr⟩ := h
    have ht' := hsound t List.mem_cons_self
    have hrest :=
      fun pending => ih (fun u hu => hsound u (List.mem_cons_of_mem t hu)) hr pending
    have hlead : t'.lead = t.lead :=
      (lead_of_firstToken ht' (isSound_passed t ht' _ _ ht)
        (firstToken_passed t _ _ ht)).1
    rw [piecesOf, piecesOf, isComma_passed ht, hlead]
    split
    · next hcomma =>
      have hleaf : t' = t := by
        cases t with
        | leaf s => exact ht
        | node kind parts => cases hcomma
        | call callee types opening items closing => cases hcomma
      rw [hleaf, hrest]
    · rw [List.any_append, List.any_append, List.any_cons, List.any_cons, hargument,
        hargument, Bool.false_or, Bool.false_or, hrest]

theorem piecesBreak_passed {ts ts' : List Tree}
    (hsound : ∀ t ∈ ts, t.isSound = true) {start : Nat}
    (h : AllPassed joins start ts ts') (last pending : List Char) :
    piecesBreak (piecesOf last pending ts') = piecesBreak (piecesOf last pending ts) :=
  any_piecesOf_passed (fun _ => rfl) hsound h last pending

theorem none_isObject_passed {ts ts' : List Tree} {start : Nat}
    (h : AllPassed joins start ts ts')
    (hnone : ∀ t ∈ ts, t.isObject = false) : ∀ t ∈ ts', t.isObject = false := by
  intro t ht
  have hmem : t.isObject ∈ ts'.map isObject := List.mem_map_of_mem ht
  rw [map_isObject_allPassed h] at hmem
  obtain ⟨u, hu, heq⟩ := List.mem_map.1 hmem
  rw [← heq, hnone u hu]

theorem config_passed (hconfig : Config items front first middle back)
    {items' : List Tree}
    {start : Nat} (h : AllPassed joins start items items') :
    ∃ front' first' middle' back' start' start'',
      Config items' front' first' middle' back' ∧
      AllPassed joins start front front' ∧ Passed joins start' first first' ∧
      AllPassed joins start'' back back' := by
  rw [hconfig.items_eq] at h
  obtain ⟨front', rest', rfl, hfront, hrest⟩ := h.split
  obtain ⟨between', back', rfl, hbetween, hback⟩ := hrest.split
  obtain ⟨first', middle', rfl, hfirst, hmiddle⟩ := hbetween
  have hobject := (isObject_passed hfirst).trans hconfig.first_object
  refine ⟨front', first', middle', back', _, _, ?_, hfront, hfirst, hback⟩
  exact {
    items_eq := rfl
    front_none := none_isObject_passed hfront hconfig.front_none
    first_object := hobject
    last_object :=
      exists_last_object_passed ⟨first', middle', rfl, hfirst, hmiddle⟩
        hconfig.last_object hobject
    back_none := none_isObject_passed hback hconfig.back_none }

/-- Where a pass leaves the zones of a call alone, its sides stay. -/
theorem violatedSides_passed (htarget : target.endsPlainly = true) {start start' : Nat}
    {callee' : Tree} {types' items' : List Tree}
    (hcall : SoundCall callee types opening items closing)
    (hcall' : SoundCall callee' types' opening items' closing)
    (hparen : items.any isObject = true → '(' ∉ triviaText opening.trivia)
    (hcallee : Passed joins start callee callee')
    (hitems : AllPassed joins start' items items') :
    violatedSides target callee' types' opening items' closing =
      violatedSides target callee types opening items closing := by
  have hany : items'.any isObject = items.any isObject := by
    have hmap := congrArg (List.any · id) (map_isObject_allPassed hitems)
    simpa using hmap
  have hparen' : items'.any isObject = true → '(' ∉ triviaText opening.trivia := by
    rwa [hany]
  rw [← map_side_violations hcall hparen [] [],
    ← map_side_violations hcall' hparen' [] []]
  rcases config_or_none items with ⟨front, first, middle, back, hconfig⟩ | hnone
  · obtain ⟨front', first', middle', back', _, _, hconfig', hfront, hfirst, hback⟩ :=
      config_passed hconfig hitems
    have hsound : ∀ t ∈ items, t.isSound = true := fun t ht => (hcall.item t ht).isSound
    have hparts := hconfig.items_eq
    have hfirstSound : first.isSound = true := hsound first (by simp [hparts])
    have hlead : first'.lead = first.lead :=
      (lead_of_firstToken hfirstSound (isSound_passed first hfirstSound _ _ hfirst)
        (firstToken_passed first _ _ hfirst)).1
    rw [map_side_config target hcall hconfig hparen,
      map_side_config target hcall' hconfig' hparen', hlead,
      covers_passed htarget hcall.calleeSound hcallee, brokenSides, brokenSides,
      piecesBreak_passed (fun t ht => hsound t (by simp [hparts, ht])) hfront,
      piecesBreak_passed (fun t ht => hsound t (by simp [hparts, ht])) hback]
  · rw [map_side_none hnone, map_side_none (none_isObject_passed hitems hnone)]

end Passed

end Script.Tree

end AnimLint
