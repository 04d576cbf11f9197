/-
AnimLint/Proofs/Pass.lean

One pass over a text, told by its tree.  `Passed joins start t t'` says that
`t'` is what `t`, which starts at the byte `start`, becomes when the lines of
some zones are joined, `joins` saying which zones may be: in such a zone the
items stand behind tidied rows, and outside of all such zones nothing changes.
-/
import AnimLint.Proofs.Joining

namespace AnimLint.Script

open Text

namespace Tree

/-! ### Where calls lie -/

theorem mem_sites_node {start : Nat} {kind : Kind} {parts : List Tree} {site : Site} :
    site ∈ (node kind parts).sites start ↔ site ∈ (sitesAll start parts).flatten := by
  rw [sites, (kind.visit_perm _).flatten.mem_iff]

theorem mem_sites_call {start : Nat} {callee : Tree} {types items : List Tree}
    {opening closing : Token} {site : Site} :
    site ∈ (call callee types opening items closing).sites start ↔
      site = Site.ofParts start callee types opening items closing ∨
      site ∈ callee.sites start ∨
        site ∈ (sitesAll (start + callee.width) types).flatten ∨
        site ∈ (sitesAll (start + callee.width + widthAll types + opening.width)
          items).flatten := by
  simp [sites, or_comm]

theorem sitesAll_append (start : Nat) (a b : List Tree) :
    sitesAll start (a ++ b) = sitesAll start a ++ sitesAll (start + widthAll a) b := by
  induction a generalizing start with
  | nil => rfl
  | cons t a ih => simp [sitesAll, widthAll, ih, Nat.add_assoc]

/-- What is known of a call in a row of tokens that starts at a given byte. -/
def LiesIn (start : Nat) (ts : List Token) (site : Site) : Prop :=
  start + byteLength (triviaText (leadOf ts)) ≤ site.call.span.start ∧
    site.call.span.start < site.call.span.stop ∧
      site.call.span.stop ≤ start + byteLength (tokensSource ts)

theorem liesIn_all {ts : List Tree}
    (h : ∀ t ∈ ts, ∀ start, ∀ site ∈ t.sites start, LiesIn start t.tokens site)
    (start : Nat) :
    ∀ site ∈ (sitesAll start ts).flatten, LiesIn start (tokensAll ts) site := by
  induction ts generalizing start with
  | nil =>
    intro site hsite
    cases hsite
  | cons t ts ih =>
    intro site hsite
    rw [sitesAll, List.flatten_cons, List.mem_append] at hsite
    have hsource := byteLength_source t
    rw [tokensAll]
    rcases hsite with hsite | hsite
    · obtain ⟨hstart, hne, hstop⟩ := h t List.mem_cons_self start site hsite
      have htokens : t.tokens ≠ [] := by
        intro hnil
        rw [hnil] at hstart hstop
        simp only [leadOf, triviaText, tokensSource_nil, byteLength_nil] at hstart hstop
        omega
      refine ⟨?_, hne, ?_⟩
      · rwa [leadOf_append htokens]
      · rw [tokensSource_append, byteLength_append]
        omega
    · obtain ⟨hstart, hne, hstop⟩ :=
        ih (fun u hu => h u (List.mem_cons_of_mem t hu)) (start + t.width) site hsite
      rw [width_eq] at hstart hstop
      refine ⟨?_, hne, ?_⟩
      · rcases htokens : t.tokens with - | ⟨s, ss⟩
        · have hnil : t.source = [] := by rw [← tokensSource_tokens, htokens]; rfl
          rw [hnil] at hstart
          simpa using hstart
        · have hlead : leadOf (s :: ss ++ tokensAll ts) = t.lead := by
            rw [lead, htokens]; rfl
          rw [hlead]
          omega
      · rw [tokensSource_append, byteLength_append, tokensSource_tokens]
        omega

/-- The calls of a tree lie in its text, behind the trivia in front of it. -/
theorem liesIn_of_mem (t : Tree) (ht : t.isSound = true) (start : Nat) :
    ∀ site ∈ t.sites start, LiesIn start t.tokens site := by
  induction t using induct generalizing start with
  | leaf s =>
    intro site hsite
    cases hsite
  | node kind parts ih =>
    intro site hsite
    rw [mem_sites_node] at hsite
    have hsound := areSound_iff.1 ht
    exact liesIn_all (fun t htm start => ih t htm (hsound t htm) start) start site hsite
  | call callee types opening items closing hcallee htypes hitems =>
    intro site hsite
    have hcall := soundCall ht
    have hlead := lead_call hcall.tokens_ne_nil types items opening closing
    have hsource := byteLength_source callee
    have hpos := byteLength_callee_pos hcall
    have hopen := width_token opening
    have hclose := width_token closing
    have hall : tokensSource (call callee types opening items closing).tokens =
        callee.source ++ (sourceAll types ++ (opening.source ++
          (sourceAll items ++ closing.source))) := by
      rw [tokensSource_tokens, source]
    rw [LiesIn, hall]
    rw [lead] at hlead
    rw [hlead]
    simp only [byteLength_append]
    have htypesSound := areSound_iff.1 hcall.typesSound
    have hitemsSound := areSound_iff.1 hcall.itemsSound
    rcases mem_sites_call.1 hsite with rfl | hsite | hsite | hsite
    · simp only [Site.ofParts, spanAt_eq hcall.calleeSound, width_eq, widthAll_eq,
        hopen, hclose]
      omega
    · obtain ⟨h₁, h₂, h₃⟩ := hcallee hcall.calleeSound start site hsite
      rw [tokensSource_tokens] at h₃
      rw [← lead] at h₁
      omega
    · obtain ⟨h₁, h₂, h₃⟩ :=
        liesIn_all (fun t htm start =>
          htypes t htm (htypesSound t htm) start) _ site hsite
      rw [tokensSource_tokensAll] at h₃
      rw [width_eq] at h₁ h₃
      omega
    · obtain ⟨h₁, h₂, h₃⟩ :=
        liesIn_all (fun t htm start =>
          hitems t htm (hitemsSound t htm) start) _ site hsite
      rw [tokensSource_tokensAll] at h₃
      rw [width_eq, widthAll_eq, hopen] at h₁ h₃
      omega

/-! ### What a pass does to a tree -/

/-- The zone in front of the first object is left alone, or its lines are joined
if they may be. -/
inductive JoinsLeading (may : Prop) : List Tree → List Tree → Prop
  | keep (items : List Tree) : JoinsLeading may items items
  | join {front front' rest : List Tree} {first : Tree} {row : List Trivia} :
      may → (∀ t ∈ front, t.isObject = false) → first.isObject = true →
      Tidied front front' →
      Tidies first.lead row →
      JoinsLeading may (front ++ first :: rest) (front' ++ first.withLead row :: rest)

/-- The zone behind the last object is left alone, or its lines are joined if
they may be. -/
inductive JoinsTrailing (may : Prop) : List Tree → Token → List Tree → Token → Prop
  | keep (items : List Tree) (closing : Token) :
    JoinsTrailing may items closing items closing
  | join {init back back' : List Tree} {object : Tree} {closing : Token}
    {row : List Trivia} :
      may → object.isObject = true → (∀ t ∈ back, t.isObject = false) →
      Tidied back back' →
      Tidies closing.trivia row →
      JoinsTrailing may (init ++ object :: back) closing (init ++ object :: back')
        { closing with trivia := row }

section Passed

variable (joins : Site → Side → Prop)

mutual

/-- What a tree that starts at a given byte becomes in a pass. -/
def Passed (start : Nat) : Tree → Tree → Prop
  | leaf s, t' => t' = leaf s
  | node kind parts, t' => ∃ parts', t' = node kind parts' ∧ AllPassed start parts parts'
  | call callee types opening items closing, t' =>
    let site := Site.ofParts start callee types opening items closing
    ∃ callee' types' items₁ items₂ items' closing',
      t' = call callee' types' opening items' closing' ∧ Passed start callee callee' ∧
      AllPassed (start + callee.width) types types' ∧
      AllPassed (start + callee.width + widthAll types + opening.width) items items₁ ∧
      JoinsLeading (joins site .leading) items₁ items₂ ∧
      JoinsTrailing (joins site .trailing) items₂ closing items' closing'

/-- What a row of trees becomes in a pass. -/
def AllPassed (start : Nat) : List Tree → List Tree → Prop
  | [], ts' => ts' = []
  | t :: ts, ts' =>
    ∃ t' r, ts' = t' :: r ∧ Passed start t t' ∧ AllPassed (start + t.width) ts r

end

theorem AllPassed.append {joins : Site → Side → Prop} {a a' b b' : List Tree}
    {start : Nat}
    (ha : AllPassed joins start a a') (hb : AllPassed joins (start + widthAll a) b b') :
    AllPassed joins start (a ++ b) (a' ++ b') := by
  induction a generalizing start a' with
  | nil =>
    obtain rfl : a' = [] := ha
    exact hb
  | cons t a ih =>
    obtain ⟨t', r, rfl, ht, hr⟩ := ha
    rw [widthAll, ← Nat.add_assoc] at hb
    exact ⟨t', r ++ b', rfl, ht, ih hr hb⟩

theorem allPassed_refl {ts : List Tree} (h : ∀ t ∈ ts, ∀ start, Passed joins start t t)
    (start : Nat) : AllPassed joins start ts ts := by
  induction ts generalizing start with
  | nil => rfl
  | cons t ts ih =>
    exact ⟨t, ts, rfl, h t List.mem_cons_self start,
      ih (fun u hu => h u (List.mem_cons_of_mem t hu)) _⟩

/-- Without an edit a tree stays. -/
theorem passed_refl (t : Tree) (start : Nat) : Passed joins start t t := by
  induction t using induct generalizing start with
  | leaf s => rfl
  | node kind parts ih => exact ⟨parts, rfl, allPassed_refl joins ih start⟩
  | call callee types opening items closing hcallee htypes hitems =>
    exact ⟨callee, types, items, items, items, closing, rfl, hcallee start,
      allPassed_refl joins htypes _, allPassed_refl joins hitems _, .keep _, .keep _ _⟩

end Passed

/-! ### What a pass keeps of a tree -/

section Keeps

variable {joins : Site → Side → Prop}

theorem isComma_passed {start : Nat} {t t' : Tree} (h : Passed joins start t t') :
    t'.isComma = t.isComma := by
  cases t with
  | leaf s => rw [show t' = leaf s from h]
  | node kind parts =>
    obtain ⟨parts', rfl, -⟩ := h
    rfl
  | call callee types opening items closing =>
    obtain ⟨_, _, _, _, _, _, rfl, -⟩ := h
    rfl

theorem isObject_passed {start : Nat} {t t' : Tree} (h : Passed joins start t t') :
    t'.isObject = t.isObject := by
  cases t with
  | leaf s => rw [show t' = leaf s from h]
  | node kind parts =>
    obtain ⟨parts', rfl, -⟩ := h
    cases kind <;> rfl
  | call callee types opening items closing =>
    obtain ⟨_, _, _, _, _, _, rfl, -⟩ := h
    rfl

theorem firstTokenOf_allPassed {ts ts' : List Tree}
    (h : ∀ t ∈ ts, ∀ start t', Passed joins start t t' → t'.firstToken? = t.firstToken?)
    {start : Nat} (hts : AllPassed joins start ts ts') :
    firstTokenOf? ts' = firstTokenOf? ts := by
  induction ts generalizing start ts' with
  | nil =>
    obtain rfl : ts' = [] := hts
    rfl
  | cons t ts ih =>
    obtain ⟨t', r, rfl, ht, hr⟩ := hts
    rw [firstTokenOf?, firstTokenOf?, h t List.mem_cons_self _ _ ht,
      ih (fun u hu => h u (List.mem_cons_of_mem t hu)) hr]

theorem firstToken_passed (t : Tree) :
    ∀ (start : Nat) (t' : Tree), Passed joins start t t' →
    t'.firstToken? = t.firstToken? := by
  induction t using induct with
  | leaf s =>
    intro start t' h
    rw [show t' = leaf s from h]
  | node kind parts ih =>
    rintro start _ ⟨parts', rfl, h⟩
    exact firstTokenOf_allPassed ih h
  | call callee types opening items closing hcallee htypes hitems =>
    rintro start _ ⟨callee', _, _, _, _, _, rfl, h, -⟩
    rw [firstToken?, firstToken?, hcallee start callee' h]

/-- Items of a sound call: sound trees that start with a token inside the
script. -/
def AreItems (ts : List Tree) : Prop :=
  ∀ t ∈ ts, t.isSound = true ∧ t.startsWith Token.isInner = true

theorem areItems_tidied {ts ts' : List Tree} (h : Tidied ts ts') (hts : AreItems ts) :
    AreItems ts' := by
  induction h with
  | nil => exact hts
  | @cons t row ts ts' hrow _ ih =>
    obtain ⟨ht, hstarts⟩ := hts t List.mem_cons_self
    intro u hu
    rcases List.mem_cons.1 hu with rfl | hu
    · exact ⟨isSound_withLead (isPlain_of_isGapRow hrow.isGapRow) t ht,
        startsWith_withLead hrow.isGapRow ht hstarts⟩
    · exact ih (fun v hv => hts v (List.mem_cons_of_mem t hv)) u hu

theorem areItems_append {a b : List Tree} : AreItems (a ++ b) ↔ AreItems a ∧ AreItems b :=
  List.forall_mem_append

theorem areItems_joinsLeading {may : Prop} {items items' : List Tree}
    (h : JoinsLeading may items items') (hitems : AreItems items) : AreItems items' := by
  cases h with
  | keep => exact hitems
  | @join front front' rest first row _ _ _ hfront hrow =>
    rw [areItems_append] at hitems ⊢
    refine ⟨areItems_tidied hfront hitems.1, fun u hu => ?_⟩
    obtain ⟨hfirst, hstarts⟩ := hitems.2 first List.mem_cons_self
    rcases List.mem_cons.1 hu with rfl | hu
    · exact ⟨isSound_withLead (isPlain_of_isGapRow hrow.isGapRow) first hfirst,
        startsWith_withLead hrow.isGapRow hfirst hstarts⟩
    · exact hitems.2 u (List.mem_cons_of_mem first hu)

theorem areItems_joinsTrailing {may : Prop} {items items' : List Tree}
    {closing closing' : Token}
    (h : JoinsTrailing may items closing items' closing') (hitems : AreItems items) :
    AreItems items' := by
  cases h with
  | keep => exact hitems
  | @join init back back' object _ row _ _ _ hback hrow =>
    rw [areItems_append] at hitems ⊢
    refine ⟨hitems.1, fun u hu => ?_⟩
    have htail : AreItems back := fun v hv => hitems.2 v (List.mem_cons_of_mem object hv)
    rcases List.mem_cons.1 hu with rfl | hu
    · exact hitems.2 u List.mem_cons_self
    · exact areItems_tidied hback htail u hu

theorem areItems_allPassed {ts ts' : List Tree}
    (h : ∀ t ∈ ts, ∀ start t', Passed joins start t t' → t'.isSound = true)
    (hts : AreItems ts)
    {start : Nat} (hpassed : AllPassed joins start ts ts') : AreItems ts' := by
  induction ts generalizing start ts' with
  | nil =>
    obtain rfl : ts' = [] := hpassed
    exact hts
  | cons t ts ih =>
    obtain ⟨t', r, rfl, ht, hr⟩ := hpassed
    have hrest := ih (fun u hu => h u (List.mem_cons_of_mem t hu))
      (fun v hv => hts v (List.mem_cons_of_mem t hv)) hr
    intro u hu
    rcases List.mem_cons.1 hu with rfl | hu
    · refine ⟨h t List.mem_cons_self _ _ ht, ?_⟩
      rw [startsWith, firstToken_passed t _ _ ht]
      exact (hts t List.mem_cons_self).2
    · exact hrest u hu

theorem map_isComma_allPassed {ts ts' : List Tree} {start : Nat}
    (h : AllPassed joins start ts ts') : ts'.map isComma = ts.map isComma := by
  induction ts generalizing start ts' with
  | nil =>
    obtain rfl : ts' = [] := h
    rfl
  | cons t ts ih =>
    obtain ⟨t', r, rfl, ht, hr⟩ := h
    rw [List.map_cons, List.map_cons, isComma_passed ht, ih hr]

theorem map_isComma_tidied {ts ts' : List Tree} (h : Tidied ts ts') :
    ts'.map isComma = ts.map isComma := by
  induction h with
  | nil => rfl
  | cons _ _ ih => rw [List.map_cons, List.map_cons, isComma_withLead, ih]

theorem map_isComma_joinsLeading {may : Prop} {items items' : List Tree}
    (h : JoinsLeading may items items') : items'.map isComma = items.map isComma := by
  cases h with
  | keep => rfl
  | join _ _ _ hfront _ => simp [map_isComma_tidied hfront, isComma_withLead]

theorem map_isComma_joinsTrailing {may : Prop} {items items' : List Tree}
    {closing closing' : Token}
    (h : JoinsTrailing may items closing items' closing') :
    items'.map isComma = items.map isComma := by
  cases h with
  | keep => rfl
  | join _ _ _ hback _ => simp [map_isComma_tidied hback]

theorem head_isComma_of_map {ts ts' : List Tree} (h : ts'.map isComma = ts.map isComma)
    (hts : ts.head?.all (!·.isComma) = true) : ts'.head?.all (!·.isComma) = true := by
  rcases ts with - | ⟨t, ts⟩ <;> rcases ts' with - | ⟨t', ts'⟩
  · rfl
  · cases h
  · cases h
  · rw [List.map_cons, List.map_cons, List.cons.injEq] at h
    simpa [h.1] using hts

theorem closing_joinsTrailing {may : Prop} {items items' : List Tree}
    {closing closing' : Token}
    (h : JoinsTrailing may items closing items' closing') :
    closing' = closing ∨ ∃ row, Tidies closing.trivia row ∧
      closing' = { closing with trivia := row } := by
  cases h with
  | keep => exact .inl rfl
  | join _ _ _ _ hrow => exact .inr ⟨_, hrow, rfl⟩

theorem areItems_of_soundCall {callee : Tree} {types items : List Tree}
    {opening closing : Token}
    (h : (call callee types opening items closing).isSound = true) : AreItems items := by
  simp only [isSound, callIsSound, Bool.and_eq_true, areSound_eq_all,
    List.all_eq_true] at h
  exact fun t ht => ⟨h.2.2.2 t ht, h.1.1.1.1.1.1.2 t ht⟩

theorem areSound_allPassed {ts ts' : List Tree} {start : Nat}
    (h : ∀ t ∈ ts, ∀ start t', Passed joins start t t' → t'.isSound = true)
    (hts : AllPassed joins start ts ts') : areSound ts' = true := by
  induction ts generalizing start ts' with
  | nil =>
    obtain rfl : ts' = [] := hts
    rfl
  | cons t ts ih =>
    obtain ⟨t', r, rfl, ht, hr⟩ := hts
    rw [areSound, h t List.mem_cons_self _ _ ht,
      ih (fun u hu => h u (List.mem_cons_of_mem t hu)) hr]
    rfl

/-- What a sound tree becomes is sound. -/
theorem isSound_passed (t : Tree) (ht : t.isSound = true) : ∀ (start : Nat) (t' : Tree),
    Passed joins start t t' → t'.isSound = true := by
  induction t using induct with
  | leaf s =>
    intro start t' h
    rw [show t' = leaf s from h]
    exact ht
  | node kind parts ih =>
    have hparts := areSound_iff.1 ht
    rintro start _ ⟨parts', rfl, h⟩
    exact areSound_allPassed (fun t htm => ih t htm (hparts t htm)) h
  | call callee types opening items closing hcallee htypes hitems =>
    have hcall := soundCall ht
    have hareItems := areItems_of_soundCall ht
    have htypesSound := areSound_iff.1 hcall.typesSound
    rintro start _ ⟨callee', types', items₁, items₂, items', closing', rfl, hpc,
      hpt, hpi, hpl, hpr⟩
    have hcallee' := hcallee hcall.calleeSound start callee' hpc
    have htypes' := areSound_allPassed (fun t htm => htypes t htm (htypesSound t htm)) hpt
    have hitems' : AreItems items' :=
      areItems_joinsTrailing hpr (areItems_joinsLeading hpl
      (areItems_allPassed (fun t htm => hitems t htm (hareItems t htm).1) hareItems hpi))
    have hcommas : items'.map isComma = items.map isComma := by
      rw [map_isComma_joinsTrailing hpr, map_isComma_joinsLeading hpl,
        map_isComma_allPassed hpi]
    have hfront := head_isComma_of_map hcommas hcall.front
    have hsoundItems : areSound items' = true :=
      areSound_iff.2 fun t htm => (hitems' t htm).1
    have hstarts : items'.all (startsWith Token.isInner) = true := by
      rw [List.all_eq_true]
      exact fun t htm => (hitems' t htm).2
    have hhead : callee'.startsWith Token.isSolid = true := by
      rw [startsWith, firstToken_passed callee start callee' hpc]
      simp only [isSound, callIsSound, Bool.and_eq_true] at ht
      exact ht.1.1.1.1.1.1.1.1
    have hopening : opening.isPlain = true := by
      simp only [isSound, Bool.and_eq_true] at ht
      exact ht.1.1.2
    have hclosing : closing'.text = [')'] ∧ closing'.isInner = true ∧
        closing'.isPlain = true := by
      have hold : closing.isInner = true ∧ closing.isPlain = true := by
        simp only [isSound, callIsSound, Bool.and_eq_true] at ht
        exact ⟨ht.1.1.1.2, ht.1.2⟩
      rcases closing_joinsTrailing hpr with rfl | ⟨row, hrow, rfl⟩
      · exact ⟨hcall.closingText, hold⟩
      · refine ⟨hcall.closingText, ?_, isPlain_of_isGapRow hrow.isGapRow⟩
        have := startsWith_withLead hrow.isGapRow (t := leaf closing) hold.2 hold.1
        exact this
    simp [isSound, callIsSound, hhead, hcall.openingText, hstarts, hfront, hclosing,
      hopening, hcallee', htypes', hsoundItems]

theorem AreItems.isItem {items : List Tree} (h : AreItems items) :
    ∀ t ∈ items, t.IsItem :=
  fun t ht => isItem_of_startsWith (h t ht).1 (h t ht).2

theorem lead_of_firstToken {t t' : Tree} (ht : t.isSound = true) (ht' : t'.isSound = true)
    (h : t'.firstToken? = t.firstToken?) :
    t'.lead = t.lead ∧ (t.tokens ≠ [] → t'.tokens ≠ []) := by
  rw [firstToken_eq t ht, firstToken_eq t' ht'] at h
  rw [lead, lead]
  rcases hs : t.tokens with - | ⟨s, ss⟩ <;> rcases hs' : t'.tokens with - | ⟨s', ss'⟩ <;>
    rw [hs, hs'] at h
  · exact ⟨rfl, id⟩
  · cases h
  · cases h
  · obtain rfl := Option.some.inj h
    exact ⟨rfl, fun _ => List.cons_ne_nil _ _⟩

theorem map_isObject_allPassed {ts ts' : List Tree} {start : Nat}
    (h : AllPassed joins start ts ts') : ts'.map isObject = ts.map isObject := by
  induction ts generalizing start ts' with
  | nil =>
    obtain rfl : ts' = [] := h
    rfl
  | cons t ts ih =>
    obtain ⟨t', r, rfl, ht, hr⟩ := h
    rw [List.map_cons, List.map_cons, isObject_passed ht, ih hr]

/-- The last of some trees is an object if it was one before the pass. -/
theorem exists_last_object_passed {first first₁ first₂ : Tree}
    {middle middle₁ : List Tree}
    {start : Nat} (h : AllPassed joins start (first :: middle) (first₁ :: middle₁))
    (hlast : ∃ init object, first :: middle = init ++ [object] ∧ object.isObject = true)
    (hfirst : first₂.isObject = true) :
    ∃ init object, first₂ :: middle₁ = init ++ [object] ∧ object.isObject = true := by
  rcases List.eq_nil_or_concat middle₁ with rfl | ⟨init₁, object₁, rfl⟩
  · exact ⟨[], first₂, rfl, hfirst⟩
  · refine ⟨first₂ :: init₁, object₁, by simp, ?_⟩
    obtain ⟨init, object, hmiddle, hobject⟩ := hlast
    have hmap := congrArg List.getLast? (map_isObject_allPassed h)
    rw [hmiddle, List.concat_eq_append, ← List.cons_append, List.map_append,
      List.map_append, List.map_singleton, List.map_singleton, List.getLast?_concat,
      List.getLast?_concat, hobject] at hmap
    exact Option.some.inj hmap

theorem AllPassed.split {a b ts' : List Tree} {start : Nat}
    (h : AllPassed joins start (a ++ b) ts') :
    ∃ a' b', ts' = a' ++ b' ∧ AllPassed joins start a a' ∧
      AllPassed joins (start + widthAll a) b b' := by
  induction a generalizing start ts' with
  | nil => exact ⟨[], ts', rfl, rfl, h⟩
  | cons t a ih =>
    obtain ⟨t', r, rfl, ht, hr⟩ := h
    obtain ⟨a', b', rfl, ha, hb⟩ := ih hr
    rw [Nat.add_assoc] at hb
    exact ⟨t' :: a', b', rfl, ⟨t', a', rfl, ht, ha⟩, hb⟩

end Keeps

/-! ### Plain calls -/

mutual

/-- Holds of trees in which no call with an object among its arguments has a `(`
in a comment between its callee and its own `(`. -/
def opensPlainly : Tree → Bool
  | leaf _ => true
  | node _ parts => allOpenPlainly parts
  | call callee types opening items _ =>
    !(items.any isObject && (triviaText opening.trivia).contains '(') &&
      (callee.opensPlainly && (allOpenPlainly types && allOpenPlainly items))

/-- Holds of rows of such trees. -/
def allOpenPlainly : List Tree → Bool
  | [] => true
  | t :: ts => t.opensPlainly && allOpenPlainly ts

end

theorem allOpenPlainly_iff {ts : List Tree} :
    allOpenPlainly ts = true ↔ ∀ t ∈ ts, t.opensPlainly = true := by
  induction ts with
  | nil => simp [allOpenPlainly]
  | cons t ts ih => rw [allOpenPlainly, Bool.and_eq_true, ih, List.forall_mem_cons]

theorem opensPlainly_call {callee : Tree} {types items : List Tree}
    {opening closing : Token} :
    (call callee types opening items closing).opensPlainly = true ↔
      (items.any isObject = true → '(' ∉ triviaText opening.trivia) ∧
      callee.opensPlainly = true ∧
        allOpenPlainly types = true ∧ allOpenPlainly items = true := by
  rw [opensPlainly]
  cases items.any isObject <;> simp

end Tree

end AnimLint.Script
