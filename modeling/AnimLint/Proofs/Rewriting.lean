/-
AnimLint/Proofs/Rewriting.lean

The edits that a pass takes do to a tree what a pass does (`rewritable`).  The
proof goes along the tree and hands each part the edits that lie in it; in a
zone there is either the one edit of the zone itself, which leaves no room for
others, or there are only edits inside its arguments.

On the way the zones are counted that can still be mended: with each edit there
is one less.  What is asked of the callees of the calls that count is that a
pass joins zones of such calls only and makes no other callee one of them
(`Looks`).
-/
import AnimLint.Proofs.Mending
import AnimLint.Proofs.Splicing

namespace AnimLint.Script

open Text

namespace Tree

/-! ### The edits of a pass -/

/-- An edit that joins the lines of a zone of one of the calls, as it may. -/
def Offers (source : List Char) (joins : Site → Side → Prop) (sites : List Site)
    (e : Edit) : Prop :=
  ∃ site ∈ sites, ∃ zone ∈ zones source site.call, joins site zone.side ∧
    zone.spansLines = true ∧ zone.hasLineComment = false ∧ e = ⟨zone.span, zone.compact⟩

variable {source : List Char} {joins : Site → Side → Prop} {looks : List Char → Bool}

theorem Offers.start_lt_stop {sites : List Site} {e : Edit}
    (h : Offers source joins sites e) :
    e.span.start < e.span.stop := by
  obtain ⟨site, -, zone, hzone, -, hlines, -, rfl⟩ := h
  exact Zone.start_lt_stop_of_mem hzone hlines

/-- An edit lies where its call lies. -/
theorem Offers.liesIn {sites : List Site} {e : Edit} {start : Nat} {ts : List Token}
    (h : Offers source joins sites e) (hsites : ∀ site ∈ sites, LiesIn start ts site) :
    start + byteLength (triviaText (leadOf ts)) < e.span.start ∧
      e.span.stop < start + byteLength (tokensSource ts) := by
  obtain ⟨site, hsite, zone, hzone, -, -, -, rfl⟩ := h
  obtain ⟨hstart, -, hstop⟩ := hsites site hsite
  obtain ⟨hstart', hstop'⟩ := Zone.within_of_mem hzone
  exact ⟨Nat.lt_of_le_of_lt hstart hstart', Nat.lt_of_lt_of_le hstop' hstop⟩

theorem offers_append {a b : List Site} {e : Edit} :
    Offers source joins (a ++ b) e ↔ Offers source joins a e ∨
    Offers source joins b e := by
  simp only [Offers, List.mem_append, or_and_right, exists_or]

/-- Holds if zones are joined only of calls whose callee looks right, and
callees look after a pass as they did before. -/
structure Looks (source : List Char) (joins : Site → Side → Prop)
    (looks : List Char → Bool) :
    Prop where
  of_joins : ∀ {callee : Tree} {types items : List Tree} {opening closing : Token}
    {pre post : List Char} {side : Side}, SoundCall callee types opening items closing →
    source = pre ++ ((call callee types opening items closing).source ++ post) →
    joins (Site.ofParts (byteLength pre) callee types opening items closing) side →
    looks callee.solid = true
  of_passed : ∀ {t t' : Tree} {start : Nat}, t.isSound = true → Passed joins start t t' →
    looks t'.solid = looks t.solid

theorem looks_all : Looks source joins fun _ => true := ⟨fun _ _ _ => rfl, fun _ _ => rfl⟩

/-- Rewriting the text of a tree by edits of its zones is a pass over the tree,
and with each edit one zone less can be mended. -/
def Rewritable (source : List Char) (joins : Site → Side → Prop)
    (looks : List Char → Bool)
    (t : Tree) : Prop :=
  ∀ {pre post out : List Char} {es : List Edit}, source = pre ++ (t.source ++ post) →
    (∀ e ∈ es, Offers source joins (t.sites (byteLength pre)) e) →
    Rewrites (byteLength pre) t.source es out →
    ∃ t', Passed joins (byteLength pre) t t' ∧ t'.source = out ∧
      t.mends looks = t'.mends looks + es.length

/-- Rewriting the text of a row of trees is a pass over the row. -/
theorem allPassed_of_rewrites {ts : List Tree} (hsound : ∀ t ∈ ts, t.isSound = true)
    (h : ∀ t ∈ ts, Rewritable source joins looks t) {pre post out : List Char}
    {es : List Edit} (hsource : source = pre ++ (sourceAll ts ++ post))
    (hes : ∀ e ∈ es, Offers source joins (sitesAll (byteLength pre) ts).flatten e)
    (hrewrites : Rewrites (byteLength pre) (sourceAll ts) es out) :
    ∃ ts', AllPassed joins (byteLength pre) ts ts' ∧ sourceAll ts' = out ∧
      mendsAll looks ts = mendsAll looks ts' + es.length := by
  induction ts generalizing pre es out with
  | nil =>
    rcases es with - | ⟨e, es⟩
    · exact ⟨[], rfl, hrewrites.eq_of_nil.symm, rfl⟩
    · obtain ⟨site, hsite, -⟩ := hes e List.mem_cons_self
      cases hsite
  | cons t ts ih =>
    have ht := hsound t List.mem_cons_self
    have hsound' := fun u hu => hsound u (List.mem_cons_of_mem t hu)
    have hmid : byteLength pre + t.width = byteLength (pre ++ t.source) := by
      rw [width_eq, byteLength_append]
    -- an edit of the first tree ends before the second one, and any other
    -- starts behind the first
    have hclass : ∀ e ∈ es, e.span.start < e.span.stop ∧
        (Offers source joins (t.sites (byteLength pre)) e ∧
            e.span.stop ≤ byteLength pre + byteLength t.source ∨
          Offers source joins (sitesAll (byteLength pre + t.width) ts).flatten e ∧
            byteLength pre + byteLength t.source ≤ e.span.start) := by
      intro e he
      refine ⟨(hes e he).start_lt_stop, ?_⟩
      have hoffers := hes e he
      rw [sitesAll, List.flatten_cons, offers_append] at hoffers
      rcases hoffers with hoffers | hoffers
      · refine .inl ⟨hoffers, ?_⟩
        have := (hoffers.liesIn (liesIn_of_mem t ht _)).2
        rw [tokensSource_tokens] at this
        omega
      · refine .inr ⟨hoffers, ?_⟩
        have := (hoffers.liesIn
            (liesIn_all (fun u hu start => liesIn_of_mem u (hsound' u hu) start)
          _)).1
        rw [width_eq] at this
        omega
    obtain ⟨es₁, es₂, out₁, out₂, rfl, rfl, h₁, h₂, hes₁, hes₂⟩ := hrewrites.split hclass
    obtain ⟨t', ht', rfl, hmends⟩ :=
      h t List.mem_cons_self (by rw [hsource, sourceAll, List.append_assoc]) hes₁ h₁
    rw [hmid] at hes₂
    rw [← byteLength_append] at h₂
    obtain ⟨ts', hts', rfl, hmendsAll⟩ :=
      ih hsound' (fun u hu => h u (List.mem_cons_of_mem t hu))
      (by rw [hsource, sourceAll]; simp) hes₂ h₂
    rw [← hmid] at hts'
    refine ⟨t' :: ts', ⟨t', ts', rfl, ht', hts'⟩, rfl, ?_⟩
    rw [mendsAll, mendsAll, hmends, hmendsAll, List.length_append]
    omega

/-- In a zone there is the edit of the zone itself and no other, or there are
edits inside its arguments. -/
theorem zone_of_rewrites (own : Edit → Prop) {ts : List Tree}
    (hsound : ∀ t ∈ ts, t.isSound = true)
    (h : ∀ t ∈ ts, Rewritable source joins looks t) {pre last post out : List Char}
    {es : List Edit}
    (hsource : source = pre ++ (sourceAll ts ++ (last ++ post)))
    (hown : ∀ e, own e → e.span.start = byteLength pre ∧
      e.span.stop = byteLength pre + byteLength (sourceAll ts ++ last))
    (hne : ∀ e ∈ es, e.span.start < e.span.stop)
    (hes : ∀ e ∈ es, own e ∨ Offers source joins (sitesAll (byteLength pre) ts).flatten e)
    (hrewrites : Rewrites (byteLength pre) (sourceAll ts ++ last) es out) :
    (∃ e, own e ∧ es = [e] ∧ out = e.text) ∨
      ∃ ts', AllPassed joins (byteLength pre) ts ts' ∧ out = sourceAll ts' ++ last ∧
        mendsAll looks ts = mendsAll looks ts' + es.length := by
  by_cases hjoin : ∃ e ∈ es, own e
  · -- it reaches from end to end, so that none fits beside it
    obtain ⟨e, he, hedit⟩ := hjoin
    obtain ⟨hstart, hstop⟩ := hown e hedit
    exact .inl ⟨e, hedit, hrewrites.whole hne he hstart hstop⟩
  · have hinside : ∀ e ∈ es,
        Offers source joins (sitesAll (byteLength pre) ts).flatten e :=
      fun e he => (hes e he).resolve_left fun hedit => hjoin ⟨e, he, hedit⟩
    have hclass : ∀ e ∈ es, e.span.start < e.span.stop ∧
        (Offers source joins (sitesAll (byteLength pre) ts).flatten e ∧
            e.span.stop ≤ byteLength pre + byteLength (sourceAll ts) ∨
          False ∧ byteLength pre + byteLength (sourceAll ts) ≤ e.span.start) := by
      intro e he
      have := ((hinside e he).liesIn
          (liesIn_all (fun u hu start => liesIn_of_mem u (hsound u hu) start)
          _)).2
      rw [tokensSource_tokensAll] at this
      exact ⟨(hinside e he).start_lt_stop, .inl ⟨hinside e he, by omega⟩⟩
    obtain ⟨es₁, es₂, out₁, out₂, rfl, rfl, h₁, h₂, hes₁, hes₂⟩ := hrewrites.split hclass
    obtain rfl : es₂ = [] := List.eq_nil_iff_forall_not_mem.2 hes₂
    obtain ⟨ts', hts', rfl, hmends⟩ := allPassed_of_rewrites hsound h hsource hes₁ h₁
    exact .inr ⟨ts', hts', by rw [h₂.eq_of_nil], by rw [hmends, List.append_nil]⟩

/-- The edit that joins the lines of a zone of a call, if it may. -/
def Joining (joins : Site → Side → Prop) (site : Site) (zone : Zone) (e : Edit) : Prop :=
  joins site zone.side ∧ zone.spansLines = true ∧ zone.hasLineComment = false ∧
    e = ⟨zone.span, zone.compact⟩

theorem Joining.zoneMends_eq {site : Site} {zone : Zone} {e : Edit} {looked : Bool}
    (h : Joining joins site zone e) (hlooked : ∀ side, joins site side → looked = true) :
    zoneMends looked zone.pieces = 1 := by
  obtain ⟨hjoins, hlines, hcomment, -⟩ := h
  have hlines' : piecesBreak zone.pieces = true := hlines
  have hcomment' : piecesComment zone.pieces = false := hcomment
  simp [zoneMends, piecesMended, hlooked _ hjoins, hlines', hcomment']

/-- The zone in front of the first object after its edit, or after edits inside
its arguments.  The first object itself is placed behind the row that ends the
zone. -/
theorem exists_joinsLeading {site : Site} {start position : Nat} {front : List Tree}
    {first : Tree}
    (hitems : AreItems front) (hcommas : front.head?.all (!·.isComma) = true)
    (hfirst : first.IsItem) (hnone : ∀ t ∈ front, t.isObject = false) {looked : Bool}
    (hlooked : ∀ side, joins site side → looked = true) {out : List Char} {es : List Edit}
    (h : (∃ e, Joining joins site (leadingZone position front first) e ∧ es = [e] ∧
      out = e.text) ∨
      ∃ ts, AllPassed joins start front ts ∧ out = sourceAll ts ++ triviaText first.lead ∧
        mendsAll looks front = mendsAll looks ts + es.length) :
    ∃ (front₁ front' : List Tree) (place : Tree → Tree),
      AllPassed joins start front front₁ ∧
      (∀ t ∈ front', t.isObject = false) ∧
      ∀ t : Tree, t.IsItem → t.lead = first.lead → t.isObject = true →
        (place t).isObject = true ∧
        sourceAll front' ++ (place t).source = out ++ t.solid ∧
        (∀ rest, JoinsLeading (joins site .leading) (front₁ ++ t :: rest)
          (front' ++ place t :: rest)) ∧
        (place t).mends looks = t.mends looks ∧
        mendsAll looks front +
        zoneMends looked (piecesOf (triviaText first.lead) [] front) =
          mendsAll looks front' +
            zoneMends looked (piecesOf (triviaText (place t).lead) [] front') +
            es.length := by
  rcases h with ⟨e, hjoining, rfl, rfl⟩ | ⟨ts, hts, rfl, hmends⟩
  · -- the zone counted for one and counts no more; inside its arguments nothing happens
    have hzone := hjoining.zoneMends_eq hlooked
    obtain ⟨hjoins, -, hcomment, rfl⟩ := hjoining
    obtain ⟨hspacing, hlast⟩ :=
      isSpacing_of_piecesComment hitems.isItem hfirst.lead [] rfl hcomment
    obtain ⟨front', row, hfront, hrow, hform⟩ :=
      exists_compactLeading hitems.isItem hcommas hspacing hlast
    refine ⟨front, front', withLead row,
      allPassed_refl joins (fun t _ => passed_refl joins t) start,
      none_isObject_tidied hfront hnone,
      fun t ht hlead hobject => ⟨?_, ?_, fun rest => ?_, ?_, ?_⟩⟩
    · rw [isObject_withLead, hobject]
    · rw [source_withLead ht.isSound ht.tokens_ne_nil, ← List.append_assoc, ← hform]
      rfl
    · exact .join hjoins hnone hobject hfront (hlead ▸ hrow)
    · exact mends_withLead t ht.isSound row
    · rw [lead_withLead ht, zoneMends_tidied looked hitems.isItem hfront hrow,
        mendsAll_tidied (fun t ht => (hitems t ht).1) hfront]
      exact congrArg _ hzone
  · refine ⟨ts, ts, id, hts, none_isObject_passed hts hnone, fun t _ hlead hobject =>
      ⟨hobject, ?_, fun rest => .keep _, rfl, ?_⟩⟩
    · rw [id, source_eq, hlead, List.append_assoc]
    · rw [id, hlead, zoneMends_passed looked (fun t ht => (hitems t ht).1) hts, hmends]
      omega

/-- The zone behind the last object after its edit, or after edits inside its
arguments. -/
theorem exists_joinsTrailing {site : Site} {start position : Nat} {back : List Tree}
    {closing : Token} (hitems : AreItems back)
    (hclosing : closing.trivia.all isInner = true)
    (hnone : ∀ t ∈ back, t.isObject = false) {looked : Bool}
    (hlooked : ∀ side, joins site side → looked = true) {out : List Char} {es : List Edit}
    (h : (∃ e, Joining joins site (trailingZone position back closing) e ∧ es = [e] ∧
        out = e.text) ∨
      ∃ ts, AllPassed joins start back ts ∧
        out = sourceAll ts ++ triviaText closing.trivia ∧
        mendsAll looks back = mendsAll looks ts + es.length) :
    ∃ back₁ back' closing', AllPassed joins start back back₁ ∧
      (∀ t ∈ back', t.isObject = false) ∧
      sourceAll back' ++ triviaText closing'.trivia = out ∧ closing'.text = closing.text ∧
      (∀ init object, object.isObject = true →
        JoinsTrailing (joins site .trailing) (init ++ object :: back₁) closing
          (init ++ object :: back') closing') ∧
      mendsAll looks back + zoneMends looked
        (piecesOf (triviaText closing.trivia) [] back) =
        mendsAll looks back' +
          zoneMends looked (piecesOf (triviaText closing'.trivia) [] back') +
          es.length := by
  rcases h with ⟨e, hjoining, rfl, rfl⟩ | ⟨ts, hts, rfl, hmends⟩
  · have hzone := hjoining.zoneMends_eq hlooked
    obtain ⟨hjoins, -, hcomment, rfl⟩ := hjoining
    obtain ⟨hspacing, hlast⟩ :=
      isSpacing_of_piecesComment hitems.isItem hclosing [] rfl hcomment
    obtain ⟨back', row, hback, hrow, hform⟩ :=
      exists_compactTrailing hitems.isItem hspacing hlast
    refine ⟨back, back', { closing with trivia := row },
      allPassed_refl joins (fun t _ => passed_refl joins t) start,
      none_isObject_tidied hback hnone,
      hform.symm, rfl, fun init object hobject =>
        .join hjoins hobject hnone hback hrow, ?_⟩
    rw [zoneMends_tidied looked hitems.isItem hback hrow,
      mendsAll_tidied (fun t ht => (hitems t ht).1) hback]
    exact congrArg _ hzone
  · refine ⟨ts, ts, closing, hts, none_isObject_passed hts hnone, rfl, rfl,
      fun init object _ => .keep _ _, ?_⟩
    rw [zoneMends_passed looked (fun t ht => (hitems t ht).1) hts, hmends]
    omega

section Config

variable {callee first : Tree} {types items front middle back : List Tree}
  {opening closing : Token} {pre post inner : List Char} {site : Site}

theorem Joining.of_leadingZone {position : Nat} {e : Edit}
    (h : Joining joins site (leadingZone position front first) e) :
    e.span.start = position ∧
      e.span.stop = position + byteLength (sourceAll front ++ triviaText first.lead) := by
  obtain ⟨-, -, -, rfl⟩ := h
  exact ⟨rfl, rfl⟩

theorem Joining.of_trailingZone {position : Nat} {e : Edit}
    (h : Joining joins site (trailingZone position back closing) e) :
    e.span.start = position ∧
      e.span.stop = position +
      byteLength (sourceAll back ++ triviaText closing.trivia) := by
  obtain ⟨-, -, -, rfl⟩ := h
  exact ⟨rfl, rfl⟩

/-- The edits of a call with an object join the lines of its two zones. -/
theorem Offers.joining (hcall : SoundCall callee types opening items closing)
    (hconfig : Config items front first middle back)
    (hparen : '(' ∉ triviaText opening.trivia)
    (hinner : inner = pre ++ (callee.source ++ (sourceAll types ++ opening.source)))
    (hsource : source = pre ++
      ((call callee types opening items closing).source ++ post)) {e : Edit}
    (hsite : site = Site.ofParts (byteLength pre) callee types opening items closing)
    (h : Offers source joins [site] e) :
    Joining joins site (leadingZone (byteLength inner) front first) e ∨
      Joining joins site (trailingZone
        (byteLength inner + byteLength (sourceAll front) +
          byteLength (sourceAll (first :: middle)))
        back closing) e := by
  obtain ⟨site', hsite', zone, hzone, hjoins, hlines, hcomment, rfl⟩ := h
  obtain rfl := List.mem_singleton.1 hsite'
  have hposition :
      byteLength (pre ++ (callee.source ++ (sourceAll types ++ (opening.source ++
      (sourceAll front ++ sourceAll (first :: middle)))))) =
      byteLength inner + byteLength (sourceAll front) +
      byteLength (sourceAll (first :: middle)) := by
    rw [hinner]
    simp [Nat.add_assoc]
  rw [hsource, hsite, zones_ofParts hcall hconfig hparen pre post, ← hinner,
    hposition] at hzone
  rcases List.mem_cons.1 hzone with rfl | hzone
  · exact .inl ⟨hjoins, hlines, hcomment, rfl⟩
  · obtain rfl := List.mem_singleton.1 hzone
    exact .inr ⟨hjoins, hlines, hcomment, rfl⟩

/-- The edits of calls inside some arguments lie behind what stands in front of
these. -/
theorem Offers.inside {ts : List Tree} (hts : AreItems ts) {start : Nat} {e : Edit}
    (h : Offers source joins (sitesAll start ts).flatten e) :
    start + byteLength (triviaText (leadOf (tokensAll ts))) < e.span.start ∧
      e.span.stop < start + byteLength (sourceAll ts) := by
  have := h.liesIn
    (liesIn_all (fun u hu start => liesIn_of_mem u (hts u hu).1 start) start)
  rwa [tokensSource_tokensAll] at this

/-- Between the parentheses of a call with an object an edit lies in the zone in
front of the first object, in the arguments from there to the last object, or in
the zone behind it. -/
theorem Config.cases_of_edit (hconfig : Config items front first middle back)
    (hitems : AreItems items) {start : Nat} {e : Edit}
    (h : Joining joins site (leadingZone start front first) e ∨
        Joining joins site (trailingZone
          (start + byteLength (sourceAll front) +
            byteLength (sourceAll (first :: middle)))
          back closing) e ∨
      Offers source joins (sitesAll start items).flatten e) :
    (Joining joins site (leadingZone start front first) e ∨
        Offers source joins (sitesAll start front).flatten e) ∧
          e.span.stop ≤ start + byteLength (sourceAll front ++ triviaText first.lead) ∨
      (Offers source joins
          (sitesAll (start + byteLength (sourceAll front)) (first :: middle)).flatten e ∧
        start + byteLength (sourceAll front ++ triviaText first.lead) ≤ e.span.start ∧
        e.span.stop ≤ start + byteLength (sourceAll front ++ triviaText first.lead) +
          byteLength (first.solid ++ sourceAll middle)) ∨
      (Joining joins site (trailingZone
          (start + byteLength (sourceAll front) +
            byteLength (sourceAll (first :: middle)))
          back closing) e ∨
        Offers source joins (sitesAll
          (start + byteLength (sourceAll front) +
            byteLength (sourceAll (first :: middle)))
          back).flatten e) ∧
        start + byteLength (sourceAll front ++ triviaText first.lead) +
          byteLength (first.solid ++ sourceAll middle) ≤ e.span.start ∧
        e.span.stop ≤ start + byteLength (sourceAll front ++ triviaText first.lead) +
            byteLength (first.solid ++ sourceAll middle) +
          byteLength (sourceAll back ++ triviaText closing.trivia) := by
  have hmiddleLen : byteLength (sourceAll (first :: middle)) =
      byteLength (triviaText first.lead) +
      byteLength (first.solid ++ sourceAll middle) := by
    simp [sourceAll, source_eq first]
  have hareItems (ts : List Tree) (hts : ∀ t ∈ ts, t ∈ items) : AreItems ts :=
    fun t ht => hitems t (hts t ht)
  have hmem := hconfig.items_eq
  rcases h with hjoining | hjoining | hoffers
  · have := hjoining.of_leadingZone
    exact .inl ⟨.inl hjoining, by omega⟩
  · have := hjoining.of_trailingZone
    simp only [byteLength_append] at hmiddleLen this ⊢
    exact .inr (.inr ⟨.inl hjoining, by omega, by omega⟩)
  · rw [hconfig.items_eq, sitesAll_append, sitesAll_append, List.flatten_append,
      List.flatten_append, offers_append, offers_append, widthAll_eq,
      widthAll_eq] at hoffers
    simp only [byteLength_append] at hmiddleLen ⊢
    rcases hoffers with hoffers | hoffers | hoffers
    · have := hoffers.inside (hareItems front fun t ht => by simp [hmem, ht])
      exact .inl ⟨.inr hoffers, by omega⟩
    · have hlead : leadOf (tokensAll (first :: middle)) = first.lead :=
        leadOf_append (isItem_of_startsWith (hitems first (by simp [hmem])).1
          (hitems first (by simp [hmem])).2).tokens_ne_nil _
      have := hoffers.inside (hareItems (first :: middle) fun t ht => by
        rw [hmem]
        exact List.mem_append_right _ (List.mem_append_left _ ht))
      rw [hlead] at this
      exact .inr (.inl ⟨hoffers, by omega, by omega⟩)
    · have := hoffers.inside (hareItems back fun t ht => by simp [hmem, ht])
      exact .inr (.inr ⟨.inr hoffers, by omega, by omega⟩)

/-- The arguments from the first object to the last one, without what stands in
front of them. -/
theorem exists_middle_of_rewrites (hitems : AreItems (first :: middle))
    (hobject : first.isObject = true)
    (h : ∀ t ∈ first :: middle, Rewritable source joins looks t)
    {es : List Edit} {out : List Char}
    (hsource : source = pre ++ (sourceAll (first :: middle) ++ post))
    (hes : ∀ e ∈ es, Offers source joins
      (sitesAll (byteLength pre) (first :: middle)).flatten e)
    (hrewrites : Rewrites (byteLength pre + byteLength (triviaText first.lead))
      (first.solid ++ sourceAll middle) es out) :
    ∃ first₁ middle₁, AllPassed joins (byteLength pre) (first :: middle)
      (first₁ :: middle₁) ∧
      first₁.IsItem ∧ first₁.lead = first.lead ∧ first₁.isObject = true ∧
      first₁.solid ++ sourceAll middle₁ = out ∧
      mendsAll looks (first :: middle) =
        mendsAll looks (first₁ :: middle₁) + es.length := by
  have hsound := (hitems first List.mem_cons_self).1
  have hbehind := hrewrites.behind (triviaText first.lead)
  rw [← List.append_assoc, ← source_eq first] at hbehind
  obtain ⟨middle', hpassed, hout, hmends⟩ :=
    allPassed_of_rewrites (fun t ht => (hitems t ht).1) h hsource hes hbehind
  have hitems' :=
    areItems_allPassed (fun t ht => isSound_passed t (hitems t ht).1) hitems hpassed
  obtain ⟨first₁, middle₁, rfl, hfirst, hrest⟩ := hpassed
  have hlead := (lead_of_firstToken hsound (isSound_passed first hsound _ _ hfirst)
    (firstToken_passed first _ _ hfirst)).1
  refine ⟨first₁, middle₁, ⟨first₁, middle₁, rfl, hfirst, hrest⟩,
    hitems'.isItem first₁ List.mem_cons_self, hlead,
    (isObject_passed hfirst).trans hobject, ?_, hmends⟩
  rw [sourceAll, source_eq, hlead, List.append_assoc] at hout
  exact List.append_cancel_left hout

/-- The parts between the parentheses put together again, after the arguments
have been passed.  The zone behind the last object starts behind the first one,
if that is the last as well. -/
theorem Config.exists_items_of_parts
    (hconfig : Config items front first middle back) {start : Nat}
    {front₁ front' middle₁ back₁ back' : List Tree} {first₁ : Tree} {place : Tree → Tree}
    {closing' : Token} {out : List Char} {mayLead mayTrail : Prop}
    (hfront : AllPassed joins start front front₁)
    (hmiddle : AllPassed joins (start + byteLength (sourceAll front)) (first :: middle)
      (first₁ :: middle₁))
    (hback : AllPassed joins
      (start + byteLength (sourceAll front) +
        byteLength (sourceAll (first :: middle))) back back₁)
    (hnoneFront : ∀ t ∈ front', t.isObject = false)
    (hnoneBack : ∀ t ∈ back', t.isObject = false)
    (hobject : (place first₁).isObject = true)
    (hplace : sourceAll front' ++ (place first₁).source = out ++ first₁.solid)
    (hleading : ∀ rest, JoinsLeading mayLead (front₁ ++ first₁ :: rest)
      (front' ++ place first₁ :: rest))
    (htrailing : ∀ init object, object.isObject = true →
      JoinsTrailing mayTrail (init ++ object :: back₁) closing
      (init ++ object :: back') closing') :
    ∃ items₁ items₂ items', AllPassed joins start items items₁ ∧
      JoinsLeading mayLead items₁ items₂ ∧
      JoinsTrailing mayTrail items₂ closing items' closing' ∧
      Config items' front' (place first₁) middle₁ back' ∧
      sourceAll items' = out ++
      ((first₁.solid ++ sourceAll middle₁) ++ sourceAll back') := by
  obtain ⟨init, object, hlast, hlastObject⟩ :=
    exists_last_object_passed hmiddle hconfig.last_object hobject
  refine ⟨front₁ ++ first₁ :: (middle₁ ++ back₁),
    front' ++ place first₁ :: (middle₁ ++ back₁),
    front' ++ init ++ object :: back', ?_, hleading _, ?_, ?_, ?_⟩
  · rw [hconfig.items_eq]
    refine hfront.append ?_
    rw [widthAll_eq]
    refine hmiddle.append ?_
    rw [widthAll_eq]
    exact hback
  · have hitems₂ : front' ++ place first₁ :: (middle₁ ++ back₁) =
        front' ++ init ++ object :: back₁ := by
      rw [← List.cons_append, hlast]
      simp
    rw [hitems₂]
    exact htrailing _ object hlastObject
  · exact {
      items_eq := by
        rw [hlast]
        simp
      front_none := hnoneFront
      first_object := hobject
      last_object := ⟨init, object, hlast, hlastObject⟩
      back_none := hnoneBack }
  · have hlastSource := congrArg sourceAll hlast
    simp only [sourceAll, sourceAll_append, List.append_nil] at hlastSource
    simp only [sourceAll_append, sourceAll, List.append_assoc]
    rw [← List.append_assoc out, ← hplace, ← List.append_assoc (sourceAll init),
      ← hlastSource]
    simp

/-- The text between the parentheses of a call with an object: the zone in front
of the first object, the arguments from there to the last object, and the zone
behind it. -/
theorem exists_items_of_config (hcall : SoundCall callee types opening items closing)
    (hitems : AreItems items) (hconfig : Config items front first middle back)
    (hparen : '(' ∉ triviaText opening.trivia)
    (h : ∀ t ∈ items, Rewritable source joins looks t) {looked : Bool}
    (hlooked : ∀ side,
      joins (Site.ofParts (byteLength pre) callee types opening items closing) side →
      looked = true) {out : List Char} {es : List Edit}
    (hinner : inner = pre ++ (callee.source ++ (sourceAll types ++ opening.source)))
    (hsource : source = pre ++ ((call callee types opening items closing).source ++ post))
    (hes : ∀ e ∈ es,
      Offers source joins
      [Site.ofParts (byteLength pre) callee types opening items closing] e ∨
        Offers source joins (sitesAll (byteLength inner) items).flatten e)
    (hrewrites : Rewrites (byteLength inner) (sourceAll items ++ closing.source) es out) :
    ∃ items₁ items₂ items' closing', AllPassed joins (byteLength inner) items items₁ ∧
      JoinsLeading
        (joins (Site.ofParts (byteLength pre) callee types opening items
          closing) .leading)
        items₁ items₂ ∧
      JoinsTrailing
        (joins (Site.ofParts (byteLength pre) callee types opening items
          closing) .trailing)
        items₂ closing items' closing' ∧
      sourceAll items' ++ closing'.source = out ∧
      callMends looked items closing + mendsAll looks items =
        callMends looked items' closing' + mendsAll looks items' + es.length := by
  have hne : ∀ e ∈ es, e.span.start < e.span.stop := by
    intro e he
    rcases hes e he with hoffers | hoffers <;> exact hoffers.start_lt_stop
  have hjoining (e : Edit) (h : Offers source joins _ e) :=
    h.joining hcall hconfig hparen hinner hsource rfl
  generalize Site.ofParts (byteLength pre) callee types opening items closing = site at *
  have hparts := hconfig.items_eq
  have hfrontItems : AreItems front := fun t ht => hitems t (by simp [hparts, ht])
  have hmiddleMem : ∀ t ∈ first :: middle, t ∈ items := fun t ht => by
    rw [hparts]
    exact List.mem_append_right _ (List.mem_append_left _ ht)
  have hbackItems : AreItems back := fun t ht => hitems t (by simp [hparts, ht])
  have hfirst := hitems.isItem first (hmiddleMem first List.mem_cons_self)
  have hclosingText : closing.source = triviaText closing.trivia ++ [')'] := by
    rw [Token.source, hcall.closingText]
  have hwhole : source = inner ++ (sourceAll items ++ (closing.source ++ post)) := by
    rw [hsource, hinner, Tree.source]
    simp
  -- the text between the parentheses in four parts, and the edits of the first
  -- three
  have htext : sourceAll items ++ closing.source =
      (sourceAll front ++ triviaText first.lead) ++ ((first.solid ++ sourceAll middle) ++
        ((sourceAll back ++ triviaText closing.trivia) ++ [')'])) := by
    simp [hparts, hclosingText, sourceAll, source_eq first]
  rw [htext] at hrewrites
  obtain ⟨es₁, es₂, es₃, out₁, out₂, out₃, rfl, rfl, h₁, h₂, h₃, hes₁, hes₂, hes₃⟩ :=
    hrewrites.split₃ hne fun e he => hconfig.cases_of_edit hitems (by
      rcases hes e he with hoffers | hoffers
      · exact (hjoining e hoffers).imp_right .inl
      · exact .inr (.inr hoffers))
  -- what becomes of the zone in front of the first object
  have hsource₁ : source = inner ++ (sourceAll front ++ (triviaText first.lead ++
      (first.solid ++
        (sourceAll middle ++ (sourceAll back ++ (closing.source ++ post)))))) := by
    rw [hwhole, hparts]
    simp [sourceAll, source_eq first]
  have hcommas : front.head?.all (!·.isComma) = true := by
    have hfrontComma := hcall.front
    rw [hparts] at hfrontComma
    cases front with
    | nil => rfl
    | cons t front => exact hfrontComma
  obtain ⟨front₁, front', place, hpassed₁, hnone₁, hplace⟩ :=
    exists_joinsLeading hfrontItems hcommas hfirst hconfig.front_none hlooked
      (zone_of_rewrites _ (fun t ht => (hfrontItems t ht).1)
        (fun t ht => h t (by simp [hparts, ht]))
        hsource₁ (fun _ => Joining.of_leadingZone)
        (fun e he => hne e (List.mem_append_left _ he)) hes₁ h₁)
  -- of the arguments between the zones
  have hsource₂ : source = (inner ++ sourceAll front) ++ (sourceAll (first :: middle) ++
      (sourceAll back ++ (closing.source ++ post))) := by
    rw [hwhole, hparts]
    simp [sourceAll]
  have hposition₂ : byteLength inner +
      byteLength (sourceAll front ++ triviaText first.lead) =
      byteLength (inner ++ sourceAll front) + byteLength (triviaText first.lead) := by
    simp [Nat.add_assoc]
  rw [hposition₂] at h₂
  rw [← byteLength_append] at hes₂
  obtain ⟨first₁, middle₁, hpassed₂, hitem₁, hlead₁, hobject₁, rfl, hmends₂⟩ :=
    exists_middle_of_rewrites (fun t ht => hitems t (hmiddleMem t ht))
      hconfig.first_object
      (fun t ht => h t (hmiddleMem t ht)) hsource₂ hes₂ h₂
  -- and of the zone behind the last object
  have hsource₃ : source = (inner ++ sourceAll front ++ sourceAll (first :: middle)) ++
      (sourceAll back ++ (triviaText closing.trivia ++ (')' :: post))) := by
    rw [hwhole, hparts, hclosingText]
    simp [sourceAll]
  have hposition₃ : byteLength inner +
      byteLength (sourceAll front ++ triviaText first.lead) +
      byteLength (first.solid ++ sourceAll middle) =
      byteLength (inner ++ sourceAll front ++ sourceAll (first :: middle)) := by
    rw [hposition₂]
    simp [sourceAll, source_eq first, Nat.add_assoc]
  rw [hposition₃] at h₃
  rw [← byteLength_append, ← byteLength_append] at hes₃
  obtain ⟨back₁, back', closing', hpassed₃, hnone₃, hout₃, hclosing', htrails, hmends₃⟩ :=
    exists_joinsTrailing hbackItems hcall.closingRow hconfig.back_none hlooked
      (zone_of_rewrites _ (fun t ht => (hbackItems t ht).1)
        (fun t ht => h t (by simp [hparts, ht]))
        hsource₃ (fun _ => Joining.of_trailingZone)
        (fun e he =>
          hne e (List.mem_append_right _ (List.mem_append_right _ he))) hes₃ h₃)
  obtain ⟨hobject', hsource', hleads, hplaced, hmends₁⟩ :=
    hplace first₁ hitem₁ hlead₁ hobject₁
  rw [byteLength_append] at hpassed₂
  rw [byteLength_append, byteLength_append] at hpassed₃
  obtain ⟨items₁, items₂, items', hpassed, hleading, htrailing, hconfig', hout⟩ :=
    hconfig.exists_items_of_parts hpassed₁ hpassed₂ hpassed₃ hnone₁ hnone₃ hobject'
      hsource' hleads
      htrails
  refine ⟨items₁, items₂, items', closing', hpassed, hleading, htrailing, ?_, ?_⟩
  · rw [hout, ← hout₃, Token.source, hclosing', hcall.closingText]
    simp
  · rw [callMends_config hconfig, callMends_config hconfig', hparts, hconfig'.items_eq]
    simp only [mendsAll_append, mendsAll, List.length_append] at hmends₁ hmends₂ hmends₃ ⊢
    omega

end Config

/-- The edits of a call lie behind its `(`. -/
theorem Offers.inner_le {callee : Tree} {types items : List Tree}
    {opening closing : Token}
    (hcall : SoundCall callee types opening items closing)
    (hparen : items.any isObject = true → '(' ∉ triviaText opening.trivia)
    {pre post : List Char} {e : Edit}
    (hsource : source = pre ++ ((call callee types opening items closing).source ++ post))
    (h : Offers source joins
      [Site.ofParts (byteLength pre) callee types opening items closing] e) :
    byteLength (pre ++ (callee.source ++ (sourceAll types ++ opening.source))) ≤
      e.span.start := by
  obtain ⟨site, hsite, zone, hzone, -, -, -, rfl⟩ := h
  obtain rfl := List.mem_singleton.1 hsite
  rcases config_or_none items with ⟨front, first, middle, back, hconfig⟩ | hnone
  · rw [hsource, zones_ofParts hcall hconfig (hparen hconfig.any_isObject)] at hzone
    rcases List.mem_cons.1 hzone with rfl | hzone
    · exact Nat.le_refl _
    · obtain rfl := List.mem_singleton.1 hzone
      simp only [trailingZone, byteLength_append]
      omega
  · rw [zones_ofParts_none hnone] at hzone
    cases hzone

/-- The text between the parentheses of a call. -/
theorem exists_items_of_rewrites {callee : Tree} {types items : List Tree}
    {opening closing : Token}
    (hcall : SoundCall callee types opening items closing) (hitems : AreItems items)
    (hparen : items.any isObject = true → '(' ∉ triviaText opening.trivia)
    (h : ∀ t ∈ items, Rewritable source joins looks t)
    {pre post inner out : List Char} {es : List Edit} {looked : Bool}
    (hlooked : ∀ side,
      joins (Site.ofParts (byteLength pre) callee types opening items closing) side →
      looked = true)
    (hinner : inner = pre ++ (callee.source ++ (sourceAll types ++ opening.source)))
    (hsource : source = pre ++ ((call callee types opening items closing).source ++ post))
    (hes : ∀ e ∈ es,
      Offers source joins
      [Site.ofParts (byteLength pre) callee types opening items closing] e ∨
        Offers source joins (sitesAll (byteLength inner) items).flatten e)
    (hrewrites : Rewrites (byteLength inner) (sourceAll items ++ closing.source) es out) :
    ∃ items₁ items₂ items' closing', AllPassed joins (byteLength inner) items items₁ ∧
      JoinsLeading
        (joins (Site.ofParts (byteLength pre) callee types opening items
          closing) .leading)
        items₁ items₂ ∧
      JoinsTrailing
        (joins (Site.ofParts (byteLength pre) callee types opening items
          closing) .trailing)
        items₂ closing items' closing' ∧
      sourceAll items' ++ closing'.source = out ∧
      callMends looked items closing + mendsAll looks items =
        callMends looked items' closing' + mendsAll looks items' + es.length := by
  rcases config_or_none items with ⟨front, first, middle, back, hconfig⟩ | hnone
  · exact exists_items_of_config hcall hitems hconfig (hparen hconfig.any_isObject)
      h hlooked hinner
      hsource hes hrewrites
  · have hwhole : source = inner ++ (sourceAll items ++ (closing.source ++ post)) := by
      rw [hsource, hinner, Tree.source]
      simp
    have hinside : ∀ e ∈ es,
        False ∨ Offers source joins (sitesAll (byteLength inner) items).flatten e := by
      intro e he
      rcases hes e he with ⟨site, hsite, zone, hzone, -⟩ | hoffers
      · obtain rfl := List.mem_singleton.1 hsite
        rw [zones_ofParts_none hnone] at hzone
        cases hzone
      · exact .inr hoffers
    have hne : ∀ e ∈ es, e.span.start < e.span.stop := fun e he =>
      ((hinside e he).resolve_left id).start_lt_stop
    rcases zone_of_rewrites (fun _ => False) (fun t ht => (hitems t ht).1) h hwhole
      (fun _ hown => hown.elim) hne hinside hrewrites with ⟨_, hown, -⟩ |
      ⟨items', hpassed, hout, hmends⟩
    · exact hown.elim
    · refine ⟨items', items', items', closing, hpassed, .keep _, .keep _ _, hout.symm, ?_⟩
      rw [callMends_none hnone, callMends_none (none_isObject_passed hpassed hnone),
        Nat.zero_add, Nat.zero_add, hmends]

/-- An edit in a call lies in the callee, in the type arguments or between the
parentheses. -/
theorem Offers.cases_of_call {callee : Tree} {types items : List Tree}
    {opening closing : Token}
    (ht : (call callee types opening items closing).isSound = true)
    (hparen : items.any isObject = true → '(' ∉ triviaText opening.trivia)
    {pre post : List Char} {e : Edit}
    (hsource : source = pre ++ ((call callee types opening items closing).source ++ post))
    (h : Offers source joins
      ((call callee types opening items closing).sites (byteLength pre)) e) :
    Offers source joins (callee.sites (byteLength pre)) e ∧
        e.span.stop ≤ byteLength pre + byteLength callee.source ∨
      (Offers source joins
        (sitesAll (byteLength (pre ++ callee.source)) types).flatten e ∧
        byteLength pre + byteLength callee.source ≤ e.span.start ∧
        e.span.stop ≤ byteLength pre + byteLength callee.source +
        byteLength (sourceAll types)) ∨
      ((Offers source joins
        [Site.ofParts (byteLength pre) callee types opening items closing] e ∨
          Offers source joins
            (sitesAll (byteLength (pre ++ (callee.source ++ (sourceAll types ++
            opening.source)))) items).flatten e) ∧
        byteLength (pre ++ (callee.source ++ (sourceAll types ++ opening.source))) ≤
          e.span.start) ∧
        byteLength pre + byteLength callee.source + byteLength (sourceAll types) ≤
          e.span.start ∧
        e.span.stop ≤ byteLength pre + byteLength callee.source +
        byteLength (sourceAll types) +
          byteLength (opening.source ++ (sourceAll items ++ closing.source)) := by
  have hcall := soundCall ht
  have htypesSound := areSound_iff.1 hcall.typesSound
  have hposition :
      byteLength (pre ++ (callee.source ++ (sourceAll types ++ opening.source))) =
      byteLength pre + byteLength callee.source + byteLength (sourceAll types) +
        byteLength opening.source := by
    simp [Nat.add_assoc]
  have hwithin := (h.liesIn (liesIn_of_mem _ ht _)).2
  rw [tokensSource_tokens, Tree.source] at hwithin
  simp only [byteLength_append] at hwithin hposition ⊢
  obtain ⟨site, hsite, hzone⟩ := h
  rcases mem_sites_call.1 hsite with rfl | hsite | hsite | hsite
  · have hown : Offers source joins
        [Site.ofParts (byteLength pre) callee types opening items closing] e :=
      ⟨_, List.mem_singleton.2 rfl, hzone⟩
    have := hown.inner_le hcall hparen hsource
    simp only [byteLength_append] at this
    exact .inr (.inr ⟨⟨.inl hown, this⟩, by omega, by omega⟩)
  · have hoffers : Offers source joins (callee.sites (byteLength pre)) e :=
      ⟨site, hsite, hzone⟩
    have := (hoffers.liesIn (liesIn_of_mem callee hcall.calleeSound _)).2
    rw [tokensSource_tokens] at this
    exact .inl ⟨hoffers, by omega⟩
  · rw [width_eq] at hsite
    have hoffers : Offers source joins
        (sitesAll (byteLength pre + byteLength callee.source) types).flatten e :=
      ⟨site, hsite, hzone⟩
    have := hoffers.liesIn
      (liesIn_all (fun t htm start => liesIn_of_mem t (htypesSound t htm) start) _)
    rw [tokensSource_tokensAll] at this
    exact .inr (.inl ⟨hoffers, by omega, by omega⟩)
  · rw [width_eq, widthAll_eq, width_token] at hsite
    have hoffers :
        Offers source joins (sitesAll (byteLength pre + byteLength callee.source +
        byteLength (sourceAll types) + byteLength opening.source) items).flatten e :=
      ⟨site, hsite, hzone⟩
    have := (hoffers.inside (areItems_of_soundCall ht)).1
    rw [hposition]
    exact .inr (.inr ⟨⟨.inr hoffers, by omega⟩, by omega, by omega⟩)

/-- Rewriting the text of a sound tree by edits of its zones is a pass over the
tree, and with each edit one zone less can be mended. -/
theorem rewritable (hlooks : Looks source joins looks) (t : Tree) (ht : t.isSound = true)
    (hopen : t.opensPlainly = true) : Rewritable source joins looks t := by
  induction t using induct with
  | leaf s =>
    intro pre post out es _ hes hrewrites
    rcases es with - | ⟨e, es⟩
    · exact ⟨leaf s, rfl, hrewrites.eq_of_nil.symm, rfl⟩
    · obtain ⟨site, hsite, -⟩ := hes e List.mem_cons_self
      cases hsite
  | node kind parts ih =>
    intro pre post out es hsource hes hrewrites
    have hsound := areSound_iff.1 ht
    have hopens := allOpenPlainly_iff.1 hopen
    have hinside : ∀ e ∈ es,
        Offers source joins (sitesAll (byteLength pre) parts).flatten e := by
      intro e he
      obtain ⟨site, hsite, hzone⟩ := hes e he
      exact ⟨site, mem_sites_node.1 hsite, hzone⟩
    obtain ⟨parts', hparts, hout, hmends⟩ := allPassed_of_rewrites hsound
      (fun t htm => ih t htm (hsound t htm) (hopens t htm)) hsource hinside hrewrites
    exact ⟨node kind parts', ⟨parts', rfl, hparts⟩, hout, hmends⟩
  | call callee types opening items closing hcallee htypes hitems =>
    intro pre post out es hsource hes hrewrites
    have hcall := soundCall ht
    have hareItems := areItems_of_soundCall ht
    obtain ⟨hparen, hopenCallee, hopenTypes, hopenItems⟩ := opensPlainly_call.1 hopen
    rw [allOpenPlainly_iff] at hopenTypes hopenItems
    have htypesSound := areSound_iff.1 hcall.typesSound
    have hsource' : (call callee types opening items closing).source = callee.source ++
        (sourceAll types ++
          ((opening.source ++ (sourceAll items ++ closing.source)) ++ [])) := by
      rw [Tree.source, List.append_nil]
    have hposition :
        byteLength (pre ++ (callee.source ++ (sourceAll types ++ opening.source))) =
        byteLength pre + byteLength callee.source + byteLength (sourceAll types) +
          byteLength opening.source := by
      simp [Nat.add_assoc]
    rw [hsource'] at hrewrites
    -- the edits of the callee, of the type arguments, and of what stands behind
    -- these
    obtain ⟨es₁, es₂, es₃, out₁, out₂, out₃, rfl, rfl, h₁, h₂, h₃, hes₁, hes₂, hes₃⟩ :=
      hrewrites.split₃ (fun e he => (hes e he).start_lt_stop) fun e he =>
        (hes e he).cases_of_call ht hparen hsource
    obtain ⟨callee', hcallee', rfl, hmends₁⟩ := hcallee hcall.calleeSound hopenCallee
      (by rw [hsource, Tree.source, List.append_assoc]) hes₁ h₁
    have hsourceTypes : source = pre ++ callee.source ++ (sourceAll types ++
        (opening.source ++ (sourceAll items ++ (closing.source ++ post)))) := by
      rw [hsource, Tree.source]
      simp
    rw [← byteLength_append] at h₂
    obtain ⟨types', htypes', rfl, hmends₂⟩ := allPassed_of_rewrites htypesSound
      (fun t htm => htypes t htm (htypesSound t htm) (hopenTypes t htm))
        hsourceTypes hes₂ h₂
    -- none of the last touches the `(`
    obtain ⟨out, rfl, h₄⟩ := h₃.of_behind fun e he => by
      have := (hes₃ e he).2
      rwa [hposition] at this
    rw [← hposition] at h₄
    obtain ⟨items₁, items₂, items', closing', hpassed, hleading, htrailing,
        rfl, hmends₃⟩ :=
      exists_items_of_rewrites hcall hareItems hparen
        (fun t htm => hitems t htm (hareItems t htm).1 (hopenItems t htm))
        (fun _ => hlooks.of_joins hcall hsource) rfl hsource
          (fun e he => (hes₃ e he).1) h₄
    refine ⟨call callee' types' opening items' closing',
      ⟨callee', types', items₁, items₂, items',
      closing', rfl, hcallee', ?_, ?_, hleading,
      htrailing⟩, by rw [Tree.source, List.append_nil], ?_⟩
    · rwa [width_eq, ← byteLength_append]
    · rwa [width_eq, widthAll_eq, width_token, ← hposition]
    · rw [mends, mends, hlooks.of_passed hcall.calleeSound hcallee', List.length_append,
        List.length_append]
      omega

end Tree

end AnimLint.Script
