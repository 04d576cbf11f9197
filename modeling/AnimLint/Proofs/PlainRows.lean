/-
AnimLint/Proofs/PlainRows.lean

A fragment of the language that can be followed through the grammar: names with
properties and calls, with names, numbers, strings, objects and such calls as
arguments (`Plain`).  What is plain starts with a token of few kinds, is sound
(`Plain.areSound`), and stays plain when its arguments are respaced
(`Plain.respaced`).
-/
import AnimLint.Proofs.ParserRuns

namespace AnimLint.Script

open Script.Tree

/-! ### Plain rows -/

/-- Holds of numbers and strings that a module may contain. -/
def Token.isConstant (t : Token) : Bool :=
  (t.kind == .number && (legacyNumber? t.text).isNone) ||
    (t.kind == .string && (legacyEscape? t.text).isNone)

/-- What stands in a list. -/
inductive ItemKind
  /-- A value, as an argument. -/
  | value
  /-- A property of an object. -/
  | field

/-- What a row of trees is in a plain script. -/
inductive Role
  /-- A name with properties and calls. -/
  | chain
  | item (kind : ItemKind)
  /-- Items with commas between them. -/
  | items (kind : ItemKind)
  | statements

/-- The rows of trees that plain scripts are made of. -/
inductive Plain : Role → List Tree → Prop
  | name {t : Token} (ht : t.isOrdinary = true) : Plain .chain [.leaf t]
  | member {callee : Tree} {point name : Token} (hcallee : Plain .chain [callee])
      (hpoint : point.isPunctuator "." = true) (hname : name.kind = .word) :
      Plain .chain [.node .member [callee, .leaf point, .leaf name]]
  | call {callee : Tree} {opening closing : Token} {items : List Tree}
      (hcallee : Plain .chain [callee]) (hopening : opening.isPunctuator "(" = true)
      (hitems : Plain (.items .value) items)
        (hclosing : closing.isPunctuator ")" = true) :
      Plain .chain [.call callee [] opening items closing]
  | operand {t : Tree} (ht : Plain .chain [t]) : Plain (.item .value) [t]
  | constant {t : Token} (ht : t.isConstant = true) :
      Plain (.item .value) [.node .constant [.leaf t]]
  | object {opening closing : Token} {items : List Tree}
      (hopening : opening.isPunctuator "\x7b" = true)
        (hitems : Plain (.items .field) items)
      (hclosing : closing.isPunctuator "\x7d" = true) :
      Plain (.item .value) [.node .object (.leaf opening :: (items ++ [.leaf closing]))]
  | field {key colon : Token} {value : Tree} (hkey : key.kind = .word)
      (hcolon : colon.isPunctuator ":" = true) (hvalue : Plain (.item .value) [value]) :
      Plain (.item .field) [.node .phrase [.leaf key, .leaf colon, value]]
  | noItems {kind : ItemKind} : Plain (.items kind) []
  | lastItem {kind : ItemKind} {t : Tree} (ht : Plain (.item kind) [t]) :
    Plain (.items kind) [t]
  | nextItem {kind : ItemKind} {t : Tree} {comma : Token} {ts : List Tree}
      (ht : Plain (.item kind) [t]) (hcomma : comma.isPunctuator "," = true)
      (hts : Plain (.items kind) ts) : Plain (.items kind) (t :: .leaf comma :: ts)
  | noStatements : Plain .statements []
  | statement {t : Tree} {semicolon : Token} {ts : List Tree} (ht : Plain .chain [t])
      (hsemicolon : semicolon.isPunctuator ";" = true) (hts : Plain .statements ts) :
      Plain .statements (.node .phrase [t, .leaf semicolon] :: ts)

/-! ### First tokens -/

/-- Holds of tokens that plain values start with. -/
def Token.opens (t : Token) : Bool :=
  t.isOrdinary || t.kind == .number || t.kind == .string || t.isPunctuator "\x7b"

section Opens

variable {t : Token}

theorem Token.isWord_of_opens (h : t.opens = true) {w : String}
    (hw : w ∈ keywords ++ contextualWords) : t.isWord w = false := by
  simp only [opens, Bool.or_eq_true, beq_iff_eq] at h
  rcases h with ((h | h) | h) | h
  · exact isWord_of_isOrdinary h hw
  · exact isWord_of_kind (by simp [h]) w
  · exact isWord_of_kind (by simp [h]) w
  · exact isWord_of_kind (by simp [kind_of_isPunctuator h]) w

theorem Token.isPunctuator_of_opens (h : t.opens = true) {p : String}
    (hp : p.toList ≠ ['\x7b']) :
    t.isPunctuator p = false := by
  simp only [opens, Bool.or_eq_true, beq_iff_eq] at h
  rcases h with ((h | h) | h) | h
  · exact isPunctuator_of_kind (by simp [kind_of_isOrdinary h]) p
  · exact isPunctuator_of_kind (by simp [h]) p
  · exact isPunctuator_of_kind (by simp [h]) p
  · exact isPunctuator_of_ne h hp.symm

/-- A regular punctuator is one character. -/
theorem Token.isPunctuator_of_isRegular (h : t.isRegular = true) {p : String}
    (hp : 1 < p.toList.length) : t.isPunctuator p = false := by
  refine Bool.eq_false_iff.2 fun hpunctuator => ?_
  rw [isRegular, kind_of_isPunctuator hpunctuator, text_of_isPunctuator hpunctuator] at h
  rcases htext : p.toList with - | ⟨a, - | ⟨b, r⟩⟩
  · simp [htext] at hp
  · simp [htext] at hp
  · rw [htext] at h
    cases h

theorem Token.opens_of_isConstant (h : t.isConstant = true) : t.opens = true := by
  simp only [isConstant, Bool.or_eq_true, Bool.and_eq_true, beq_iff_eq] at h
  rcases h with ⟨hkind, -⟩ | ⟨hkind, -⟩ <;> simp [opens, hkind]

end Opens

/-- A name with properties and calls starts with a name that is no word of the
language, and no colon follows that. -/
theorem Plain.exists_chain {r : Role} {ts : List Tree} (h : Plain r ts)
    (hr : r = .chain) :
    ∃ s ss, tokensAll ts = s :: ss ∧ s.isOrdinary = true ∧
      ∀ u ∈ ss.head?, u.isPunctuator ":" = false := by
  induction h with
  | name ht => exact ⟨_, [], rfl, ht, fun u hu => by cases hu⟩
  | member _ hpoint _ ih =>
    obtain ⟨s, ss, hss, hs, hnext⟩ := ih rfl
    simp only [tokensAll, tokens, List.append_nil] at hss ⊢
    refine ⟨s, _, by rw [hss, List.cons_append], hs, fun u hu => ?_⟩
    rcases ss with - | ⟨v, ss⟩
    · obtain rfl := Option.some.inj hu
      exact Token.isPunctuator_of_ne hpoint (by decide)
    · exact hnext u hu
  | call _ hopening _ _ ih _ =>
    obtain ⟨s, ss, hss, hs, hnext⟩ := ih rfl
    simp only [tokensAll, tokens, List.append_nil] at hss ⊢
    refine ⟨s, _, by rw [hss, List.cons_append], hs, fun u hu => ?_⟩
    rcases ss with - | ⟨v, ss⟩
    · obtain rfl := Option.some.inj hu
      exact Token.isPunctuator_of_ne hopening (by decide)
    · exact hnext u hu
  | _ => cases hr

/-- The first token of an item does not close the list. -/
theorem Plain.exists_item {r : Role} {ts : List Tree} (h : Plain r ts) {kind : ItemKind}
    (hr : r = .item kind) :
    ∃ s ss, tokensAll ts = s :: ss ∧
      (s.opens = true ∨ kind = .field ∧ s.kind = .word) := by
  cases h with
  | operand ht =>
    obtain ⟨s, ss, hss, hs, -⟩ := ht.exists_chain rfl
    exact ⟨s, ss, hss, .inl (by rw [Token.opens, hs]; rfl)⟩
  | constant ht => exact ⟨_, [], rfl, .inl (Token.opens_of_isConstant ht)⟩
  | object hopening _ _ =>
    exact ⟨_, _, rfl, .inl (by rw [Token.opens, hopening, Bool.or_true])⟩
  | field hkey _ _ =>
    cases hr
    exact ⟨_, _, rfl, .inr ⟨rfl, hkey⟩⟩
  | _ => cases hr

/-! ### Plain rows are sound -/

theorem isPlain_of_isReadRow {row : List Trivia} (h : isReadRow row = true) :
    ∀ t ∈ row, t.isPlain = true ∧ t.kind ≠ .interpreter := by
  induction row with
  | nil => exact fun t ht => by cases ht
  | cons t row ih =>
    simp only [isReadRow, Bool.and_eq_true] at h
    exact List.forall_mem_cons.2 ⟨⟨h.1.1, kind_of_isParted h.1.2⟩, ih h.2⟩

/-- Inside a row of tokens that is read as it stands, the tokens are solid and
stand behind blanks and whole comments. -/
theorem isInner_of_areRegular {a rest : List Token} {u : Token}
    (h : areRegular (a ++ u :: rest) = true) :
    ∀ s ∈ a, s.isInner = true ∧ s.isPlain = true := by
  induction a with
  | nil => exact fun s hs => by cases hs
  | cons t a ih =>
    obtain ⟨hrow, hregular, hparted, hts⟩ := areRegular_cons h
    have hkind : t.kind ≠ .endOfText := by
      rcases a with - | ⟨v, a⟩
      · exact kind_of_isParted_token (hparted u rfl)
      · exact kind_of_isParted_token (hparted v rfl)
    obtain ⟨c, r, htext⟩ := exists_text_of_isRegular hregular hkind
    have hbare := startsBare_of_isRegular hregular (r := []) fun hend => absurd hend hkind
    have hsolid : t.isSolid = true := by
      rw [startsBare, htext] at hbare
      rw [Token.isSolid, htext]
      exact (Bool.and_eq_true_iff.1 hbare).1
    have hplain := isPlain_of_isReadRow hrow
    refine List.forall_mem_cons.2
      ⟨⟨?_, List.all_eq_true.2 fun p hp => (hplain p hp).1⟩, ih hts⟩
    rw [Token.isInner, hsolid, Bool.true_and]
    exact List.all_eq_true.2 fun p hp => bne_iff_ne.2 (hplain p hp).2

theorem Plain.isSome_firstToken {r : Role} {ts : List Tree} (h : Plain r ts) :
    ∀ t ∈ ts, t.firstToken?.isSome = true := by
  induction h with
  | operand _ ih => exact ih
  | noItems | noStatements => exact fun t ht => by cases ht
  | lastItem _ ih => exact ih
  | nextItem _ _ _ ih ihs =>
    exact List.forall_mem_cons.2
      ⟨ih _ List.mem_cons_self, List.forall_mem_cons.2 ⟨rfl, ihs⟩⟩
  | statement _ _ _ ih ihs =>
    refine List.forall_mem_cons.2 ⟨?_, ihs⟩
    simp [firstToken?, firstTokenOf?]
  | _ => simp [firstToken?, firstTokenOf?]

theorem Plain.isComma_eq_false {r : Role} {ts : List Tree} (h : Plain r ts) :
    ts.head?.all (!·.isComma) = true := by
  induction h with
  | @name t ht =>
    have hcomma : t.isPunctuator "," = false :=
      Token.isPunctuator_of_kind (by simp [Token.kind_of_isOrdinary ht]) ","
    simp [isComma, hcomma]
  | operand _ ih => exact ih
  | lastItem _ ih => exact ih
  | nextItem _ _ _ ih _ => exact ih
  | _ => rfl

theorem startsWith_of_tokens {p : Token → Bool} {t : Tree} (ht : t.isSound = true)
    (hsome : t.firstToken?.isSome = true) (h : ∀ s ∈ t.tokens, p s = true) :
    t.startsWith p = true := by
  obtain ⟨s, hs⟩ := Option.isSome_iff_exists.1 hsome
  rw [startsWith, hs]
  rw [firstToken_eq t ht] at hs
  exact h s (List.mem_of_head? hs)

/-- A plain row whose tokens are solid and stand behind blanks and whole
comments is sound. -/
theorem Plain.areSound {r : Role} {ts : List Tree} (h : Plain r ts)
    (hts : ∀ s ∈ tokensAll ts, s.isInner = true ∧ s.isPlain = true) :
    Tree.areSound ts = true := by
  induction h with
  | name ht => simpa [Tree.areSound, isSound] using (hts _ List.mem_cons_self).2
  | operand _ ih => exact ih hts
  | lastItem _ ih => exact ih hts
  | noItems | noStatements => rfl
  | @call callee opening closing items hcallee hopening hitems hclosing ihc ihi =>
    simp only [tokensAll, tokens, List.append_nil, List.nil_append,
      List.forall_mem_append, List.forall_mem_cons] at hts ihc
    obtain ⟨hcalleeTokens, hopeningToken, hitemTokens, hclosingToken⟩ := hts
    have hsound : callee.isSound = true := by
      simpa [Tree.areSound] using ihc hcalleeTokens
    have hfirst : callee.startsWith Token.isSolid = true :=
      startsWith_of_tokens hsound
        (hcallee.isSome_firstToken callee List.mem_cons_self) fun s hs =>
        (Bool.and_eq_true_iff.1 (hcalleeTokens s hs).1).1
    have hinner : items.all (startsWith Token.isInner) = true := by
      refine List.all_eq_true.2 fun t ht => ?_
      refine startsWith_of_tokens (areSound_iff.1 (ihi hitemTokens) t ht)
        (hitems.isSome_firstToken t ht) fun s hs => (hitemTokens s ?_).1
      exact mem_tokensAll ht hs
    simp [Tree.areSound, isSound, callIsSound, hsound, ihi hitemTokens, hfirst, hinner,
      hitems.isComma_eq_false, Token.text_of_isPunctuator hopening,
      Token.text_of_isPunctuator hclosing, hopeningToken, hclosingToken]
  | object _ _ _ ih =>
    simp only [tokensAll, tokens, tokensAll_append, List.append_nil,
      List.forall_mem_append, List.forall_mem_cons] at hts
    have hitems := ih hts.2.1
    rw [areSound_eq_all] at hitems
    simp [isSound, areSound_eq_all, hts, hitems]
  | _ => simp_all [tokensAll, tokens, Tree.areSound, isSound]

/-! ### Respaced rows -/

theorem isReadRow_releaded {s s' : Token} (h : s.Releaded s')
    (hs : isReadRow s.trivia = true) :
    isReadRow s'.trivia = true := by
  rcases h with rfl | ⟨row, hrow, rfl⟩
  · exact hs
  · exact isReadRow_of_isGapRow hrow

theorem isRegular_of_bare {s s' : Token} (h : s'.bare = s.bare) :
    s'.isRegular = s.isRegular := by
  obtain ⟨hkind, htext⟩ := Prod.mk.inj h
  rw [Token.isRegular, Token.isRegular, hkind, htext]

theorem isParted_of_bare {s s' u u' : Token} (hs : s'.bare = s.bare)
    (hu : u'.bare = u.bare) :
    s'.isParted u' = s.isParted u := by
  obtain ⟨hskind, hstext⟩ := Prod.mk.inj hs
  obtain ⟨hukind, hutext⟩ := Prod.mk.inj hu
  rw [Token.isParted, Token.isParted, hskind, hstext, hukind, hutext]

/-- Other gap rows between tokens leave them read as they stand. -/
theorem areRegular_releaded {ts ts' : List Token} (h : TokensReleaded ts ts')
    (hts : areRegular ts = true) : areRegular ts' = true := by
  induction h with
  | nil => rfl
  | cons hs hss ih =>
    obtain ⟨hrow, hregular, hparted, hts⟩ := areRegular_cons hts
    simp only [areRegular, isReadRow_releaded hs hrow, isRegular_of_bare hs.bare_eq,
      hregular, ih hts, Bool.and_true, Bool.true_and]
    cases hss with
    | nil => rfl
    | cons hu _ => exact (isParted_of_bare hs.bare_eq hu.bare_eq).trans (hparted _ rfl)

theorem allRespaced_append {a b ts' : List Tree} (h : AllRespaced (a ++ b) ts') :
    ∃ a' b', ts' = a' ++ b' ∧ AllRespaced a a' ∧ AllRespaced b b' := by
  induction a generalizing ts' with
  | nil => exact ⟨[], ts', rfl, rfl, h⟩
  | cons t a ih =>
    obtain ⟨t', r, rfl, ht, hr⟩ := h
    obtain ⟨a', b', rfl, ha, hb⟩ := ih hr
    exact ⟨t' :: a', b', rfl, ⟨t', a', rfl, ht, ha⟩, hb⟩

theorem itemsRespaced_of_allRespaced {ts ts' : List Tree} (h : AllRespaced ts ts') :
    ItemsRespaced ts ts' := by
  induction ts generalizing ts' with
  | nil => exact h
  | cons t ts ih =>
    obtain ⟨t', r, rfl, ht, hr⟩ := h
    exact ⟨t', t', r, rfl, ht, .inl rfl, ih hr⟩

section Respaced

variable {callee callee' t t' u : Tree} {s s' : Token} {row : List Trivia}

/-- One respaced tree, as a row. -/
theorem itemsRespaced_singleton (h : Respaced t u) (h' : Releaded u t') :
    ItemsRespaced [t] [t'] :=
  ⟨u, t', [], rfl, h, h', rfl⟩

theorem releaded_leaf (h : Releaded (.leaf s) t') :
    ∃ s', t' = .leaf s' ∧ s'.bare = s.bare := by
  rcases h with rfl | ⟨row, -, rfl⟩
  · exact ⟨s, rfl, rfl⟩
  · exact ⟨_, rfl, rfl⟩

/-- Other trivia in front of a node stand in front of its first part, if that
has a token. -/
theorem releaded_node {kind : Kind} {ts : List Tree}
    (h : Releaded (.node kind (t :: ts)) t')
    (hsome : t.firstToken?.isSome = true) :
    ∃ u, Releaded t u ∧ t' = .node kind (u :: ts) := by
  rcases h with rfl | ⟨row, hrow, rfl⟩
  · exact ⟨t, .inl rfl, rfl⟩
  · refine ⟨t.withLead row, .inr ⟨row, hrow, rfl⟩, ?_⟩
    rw [withLead, withLeadAll, if_pos hsome]

theorem releaded_call {types items : List Tree} {opening closing : Token}
    (h : Releaded (.call callee types opening items closing) t') :
    ∃ u, Releaded callee u ∧ t' = .call u types opening items closing := by
  rcases h with rfl | ⟨row, hrow, rfl⟩
  · exact ⟨callee, .inl rfl, rfl⟩
  · exact ⟨_, .inr ⟨row, hrow, rfl⟩, rfl⟩

theorem isPunctuator_of_bare {p : String} (h : s'.bare = s.bare) :
    s'.isPunctuator p = s.isPunctuator p := by
  obtain ⟨hkind, htext⟩ := Prod.mk.inj h
  rw [Token.isPunctuator, Token.isPunctuator, hkind, htext]

/-- **A plain row stays one when it is respaced.** -/
theorem Plain.respaced {r : Role} {ts : List Tree} (h : Plain r ts) :
    ∀ ts', ItemsRespaced ts ts' → Plain r ts' := by
  induction h with
  | name ht =>
    rintro _ ⟨_, t', _, rfl, rfl, hlead, rfl⟩
    obtain ⟨s', rfl, hbare⟩ := releaded_leaf hlead
    obtain ⟨hkind, htext⟩ := Prod.mk.inj hbare
    exact .name (by rw [Token.isOrdinary, hkind, htext]; exact ht)
  | member _ hpoint hname ih =>
    rintro _ ⟨_, t', _, rfl,
      ⟨_, rfl, callee', _, rfl, hcallee, _, _, rfl, rfl, _, _, rfl, rfl, rfl⟩,
      hlead, rfl⟩
    have hplain := ih _ (itemsRespaced_singleton hcallee (.inl rfl))
    obtain ⟨u, hu, rfl⟩ :=
      releaded_node hlead (hplain.isSome_firstToken _ List.mem_cons_self)
    exact .member (ih _ (itemsRespaced_singleton hcallee hu)) hpoint hname
  | call _ hopening _ hclosing ihc ihi =>
    rintro _ ⟨_, t', _, rfl,
      ⟨callee', _, items', closing', rfl, hcallee, rfl, hitems, hend⟩, hlead,
      rfl⟩
    obtain ⟨u, hu, rfl⟩ := releaded_call hlead
    have hbare : closing'.bare = _ := Token.Releaded.bare_eq hend
    exact .call (ihc _ (itemsRespaced_singleton hcallee hu)) hopening (ihi _ hitems)
      ((isPunctuator_of_bare hbare).trans hclosing)
  | operand _ ih =>
    rintro _ ⟨_, t', _, rfl, ht, hlead, rfl⟩
    exact .operand (ih _ (itemsRespaced_singleton ht hlead))
  | constant ht =>
    rintro _ ⟨_, t', _, rfl, ⟨_, rfl, _, _, rfl, rfl, rfl⟩, hlead, rfl⟩
    obtain ⟨u, hu, rfl⟩ := releaded_node hlead rfl
    obtain ⟨s', rfl, hbare⟩ := releaded_leaf hu
    obtain ⟨hkind, htext⟩ := Prod.mk.inj hbare
    exact .constant (by rw [Token.isConstant, hkind, htext]; exact ht)
  | object hopening _ hclosing ih =>
    rintro _ ⟨_, t', _, rfl, ⟨_, rfl, _, _, rfl, rfl, hparts⟩, hlead, rfl⟩
    obtain ⟨items', _, rfl, hitems, _, _, rfl, rfl, rfl⟩ := allRespaced_append hparts
    obtain ⟨u, hu, rfl⟩ := releaded_node hlead rfl
    obtain ⟨s', rfl, hbare⟩ := releaded_leaf hu
    exact .object ((isPunctuator_of_bare hbare).trans hopening)
      (ih _ (itemsRespaced_of_allRespaced hitems)) hclosing
  | field hkey hcolon _ ih =>
    rintro _ ⟨_, t', _, rfl,
      ⟨_, rfl, _, _, rfl, rfl, _, _, rfl, rfl, _, _, rfl, hvalue, rfl⟩, hlead,
      rfl⟩
    obtain ⟨u, hu, rfl⟩ := releaded_node hlead rfl
    obtain ⟨s', rfl, hbare⟩ := releaded_leaf hu
    exact .field ((Prod.mk.inj hbare).1.trans hkey) hcolon
      (ih _ (itemsRespaced_singleton hvalue (.inl rfl)))
  | noItems =>
    rintro _ rfl
    exact .noItems
  | lastItem _ ih =>
    rintro _ ⟨_, t', _, rfl, ht, hlead, rfl⟩
    exact .lastItem (ih _ (itemsRespaced_singleton ht hlead))
  | nextItem _ hcomma _ ih ihs =>
    rintro _ ⟨_, t', _, rfl, ht, hlead, _, _, _, rfl, rfl, hcommaLead, hts⟩
    obtain ⟨s', rfl, hbare⟩ := releaded_leaf hcommaLead
    exact .nextItem (ih _ (itemsRespaced_singleton ht hlead))
      ((isPunctuator_of_bare hbare).trans hcomma) (ihs _ hts)
  | noStatements =>
    rintro _ rfl
    exact .noStatements
  | statement _ hsemicolon _ ih ihs =>
    rintro _ ⟨_, t', _, rfl, ⟨_, rfl, t'', _, rfl, ht, _, _, rfl, rfl, rfl⟩, hlead, hts⟩
    have hplain := ih _ (itemsRespaced_singleton ht (.inl rfl))
    obtain ⟨u, hu, rfl⟩ :=
      releaded_node hlead (hplain.isSome_firstToken _ List.mem_cons_self)
    exact .statement (ih _ (itemsRespaced_singleton ht hu)) hsemicolon (ihs _ hts)

end Respaced

end AnimLint.Script
