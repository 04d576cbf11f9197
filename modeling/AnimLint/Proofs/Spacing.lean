/-
AnimLint/Proofs/Spacing.lean

Trees that differ in the spacing of arguments only.  In a call, blanks and block
comments may stand in front of each argument, of each comma and of the `)`, and
there the language gives line breaks and widths of blanks no meaning.
`Respaced t t'` says that `t'` is `t` but for such rows; a reader ignores
spacing if it reads the text of the one as the one and the text of the other as
the other (`Reader.IgnoresSpacing`).  Trees that are respaced have the same
tokens, trivia left out (`Respaced.bareTokens_eq`).

Trees are looked at through their rows of tokens: the first token carries what
stands in front of the tree (`leadOf`), and putting another row there changes
nothing else (`tokens_withLead`).
-/
import AnimLint.Proofs.Rows
import AnimLint.Script.Reader
import AnimLint.Script.Sites
import Mathlib.Data.List.Forall2
import Mathlib.Logic.Relation

namespace AnimLint.Script

open Text

/-! ### Rows of tokens -/

/-- The text of a row of tokens. -/
def tokensSource (ts : List Token) : List Char := ts.flatMap Token.source

@[simp] theorem tokensSource_nil : tokensSource [] = [] := rfl

@[simp] theorem tokensSource_cons (t : Token) (ts : List Token) :
    tokensSource (t :: ts) = t.source ++ tokensSource ts :=
  List.flatMap_cons

@[simp] theorem tokensSource_append (a b : List Token) :
    tokensSource (a ++ b) = tokensSource a ++ tokensSource b :=
  List.flatMap_append

/-- The trivia in front of a row of tokens. -/
def leadOf : List Token → List Trivia
  | [] => []
  | t :: _ => t.trivia

/-- The text of a row of tokens from the first token on. -/
def solidOf : List Token → List Char
  | [] => []
  | t :: ts => t.text ++ tokensSource ts

/-- Puts other trivia in front of a row of tokens. -/
def relead (row : List Trivia) : List Token → List Token
  | [] => []
  | t :: ts => { t with trivia := row } :: ts

theorem tokensSource_eq (ts : List Token) :
    tokensSource ts = triviaText (leadOf ts) ++ solidOf ts := by
  cases ts with
  | nil => rfl
  | cons t ts => simp [leadOf, solidOf, Token.source]

theorem relead_append {a : List Token} (ha : a ≠ []) (row : List Trivia)
    (b : List Token) :
    relead row (a ++ b) = relead row a ++ b := by
  cases a with
  | nil => exact absurd rfl ha
  | cons t ts => rfl

theorem leadOf_append {a : List Token} (ha : a ≠ []) (b : List Token) :
    leadOf (a ++ b) = leadOf a := by
  cases a with
  | nil => exact absurd rfl ha
  | cons t ts => rfl

theorem solidOf_append {a : List Token} (ha : a ≠ []) (b : List Token) :
    solidOf (a ++ b) = solidOf a ++ tokensSource b := by
  cases a with
  | nil => exact absurd rfl ha
  | cons t ts => simp [solidOf]

theorem leadOf_relead {ts : List Token} (h : ts ≠ []) (row : List Trivia) :
    leadOf (relead row ts) = row := by
  cases ts with
  | nil => exact absurd rfl h
  | cons t ts => rfl

theorem solidOf_relead (row : List Trivia) (ts : List Token) :
    solidOf (relead row ts) = solidOf ts := by
  cases ts <;> rfl

/-- A token without what stands in front of it. -/
def Token.bare (t : Token) : TokenKind × List Char := (t.kind, t.text)

/-- The second token is the first, or the first behind a gap row. -/
def Token.Releaded (s s' : Token) : Prop :=
  s' = s ∨ ∃ row, isGapRow row = true ∧ s' = { s with trivia := row }

theorem Token.Releaded.refl (s : Token) : s.Releaded s := .inl rfl

theorem Token.Releaded.trans {s s' s'' : Token} (h : s.Releaded s')
    (h' : s'.Releaded s'') :
    s.Releaded s'' := by
  rcases h' with rfl | ⟨row, hrow, rfl⟩
  · exact h
  · rcases h with rfl | ⟨_, -, rfl⟩ <;> exact .inr ⟨row, hrow, rfl⟩

theorem Token.Releaded.bare_eq {s s' : Token} (h : s.Releaded s') : s'.bare = s.bare := by
  rcases h with rfl | ⟨row, -, rfl⟩ <;> rfl

namespace Tree

/-- Induction over a tree, with the claim for all its parts. -/
theorem induct {motive : Tree → Prop} (leaf : ∀ s, motive (.leaf s))
    (node : ∀ kind parts, (∀ t ∈ parts, motive t) → motive (.node kind parts))
    (call : ∀ callee types opening items closing, motive callee →
      (∀ t ∈ types, motive t) →
      (∀ t ∈ items, motive t) → motive (.call callee types opening items closing)) :
    (t : Tree) → motive t
  | .leaf s => leaf s
  | .node kind parts => node kind parts fun t _ => induct leaf node call t
  | .call callee types opening items closing =>
    call callee types opening items closing (induct leaf node call callee)
      (fun t _ => induct leaf node call t) fun t _ => induct leaf node call t

/-- The tokens of a tree without what stands between them. -/
def bareTokens (t : Tree) : List (TokenKind × List Char) := t.tokens.map Token.bare

/-! ### The tokens of a tree -/

theorem tokensAll_append (a b : List Tree) :
    tokensAll (a ++ b) = tokensAll a ++ tokensAll b := by
  induction a with
  | nil => rfl
  | cons t a ih => rw [List.cons_append, tokensAll, tokensAll, ih, List.append_assoc]

theorem mem_tokensAll {s : Token} {t : Tree} {ts : List Tree} (ht : t ∈ ts)
    (hs : s ∈ t.tokens) :
    s ∈ tokensAll ts := by
  obtain ⟨a, b, rfl⟩ := List.append_of_mem ht
  rw [tokensAll_append, tokensAll]
  exact List.mem_append_right _ (List.mem_append_left _ hs)

mutual

theorem tokensSource_tokens : (t : Tree) → tokensSource t.tokens = t.source
  | leaf t => by simp [tokens, source]
  | node _ parts => by rw [tokens, source, tokensSource_tokensAll parts]
  | call callee types opening items closing => by
    simp [tokens, source, tokensSource_tokens callee, tokensSource_tokensAll types,
      tokensSource_tokensAll items]

theorem tokensSource_tokensAll :
    (ts : List Tree) → tokensSource (tokensAll ts) = sourceAll ts
  | [] => rfl
  | t :: ts => by
    simp [tokensAll, sourceAll, tokensSource_tokens t, tokensSource_tokensAll ts]

end

theorem tokens_ne_nil_of_startsWith {p : Token → Bool} {t : Tree}
    (hfirst : t.firstToken? = t.tokens.head?) (h : t.startsWith p = true) :
    t.tokens ≠ [] := by
  intro hnil
  rw [startsWith, hfirst, hnil] at h
  cases h

mutual

/-- In a sound tree the first token is the first of the tokens. -/
theorem firstToken_eq : (t : Tree) → t.isSound = true → t.firstToken? = t.tokens.head?
  | leaf t, _ => rfl
  | node _ parts, h => firstTokenOf_eq parts h
  | call callee types opening items closing, h => by
    simp only [isSound, callIsSound, Bool.and_eq_true] at h
    have hcallee := firstToken_eq callee h.2.1
    have hne := tokens_ne_nil_of_startsWith hcallee h.1.1.1.1.1.1.1.1
    rw [firstToken?, hcallee, tokens]
    rcases hs : callee.tokens with - | ⟨s, ss⟩
    · exact absurd hs hne
    · rfl

theorem firstTokenOf_eq : (ts : List Tree) → areSound ts = true →
    firstTokenOf? ts = (tokensAll ts).head?
  | [], _ => rfl
  | t :: ts, h => by
    simp only [areSound, Bool.and_eq_true] at h
    rw [firstTokenOf?, firstToken_eq t h.1, firstTokenOf_eq ts h.2, tokensAll]
    rcases t.tokens with - | ⟨s, ss⟩ <;> rfl

end

mutual

/-- Puts other trivia in front of a tree. -/
def withLead (row : List Trivia) : Tree → Tree
  | leaf t => leaf { t with trivia := row }
  | node kind parts => node kind (withLeadAll row parts)
  | call callee types opening items closing =>
    call (callee.withLead row) types opening items closing

/-- Puts other trivia in front of a row of trees. -/
def withLeadAll (row : List Trivia) : List Tree → List Tree
  | [] => []
  | t :: ts => if t.firstToken?.isSome then t.withLead row :: ts else
    t :: withLeadAll row ts

end

mutual

/-- Other trivia in front of a tree are other trivia in front of its tokens. -/
theorem tokens_withLead (row : List Trivia) : (t : Tree) → t.isSound = true →
    (t.withLead row).tokens = relead row t.tokens
  | leaf t, _ => rfl
  | node _ parts, h => tokensAll_withLeadAll row parts h
  | call callee types opening items closing, h => by
    simp only [isSound, callIsSound, Bool.and_eq_true] at h
    have hne := tokens_ne_nil_of_startsWith (firstToken_eq callee h.2.1) h.1.1.1.1.1.1.1.1
    rw [withLead, tokens, tokens, tokens_withLead row callee h.2.1, relead_append hne]

theorem tokensAll_withLeadAll (row : List Trivia) :
    (ts : List Tree) → areSound ts = true →
    tokensAll (withLeadAll row ts) = relead row (tokensAll ts)
  | [], _ => rfl
  | t :: ts, h => by
    simp only [areSound, Bool.and_eq_true] at h
    have hfirst := firstToken_eq t h.1
    rw [withLeadAll]
    split
    · next hsome =>
      have hne : t.tokens ≠ [] := by
        intro hnil
        rw [hfirst, hnil] at hsome
        cases hsome
      rw [tokensAll, tokensAll, tokens_withLead row t h.1, relead_append hne]
    · next hnone =>
      have hnil : t.tokens = [] := by
        rcases hs : t.tokens with - | ⟨s, ss⟩
        · rfl
        · rw [hfirst, hs] at hnone
          exact absurd rfl hnone
      rw [tokensAll, tokensAll, hnil, tokensAll_withLeadAll row ts h.2]
      rfl

end

/-- The trivia in front of a tree. -/
def lead (t : Tree) : List Trivia := leadOf t.tokens

/-- The text of a tree from its first token on. -/
def solid (t : Tree) : List Char := solidOf t.tokens

theorem source_eq (t : Tree) : t.source = triviaText t.lead ++ t.solid := by
  rw [← tokensSource_tokens, tokensSource_eq]
  rfl

theorem source_withLead {t : Tree} (ht : t.isSound = true) (hne : t.tokens ≠ [])
    (row : List Trivia) : (t.withLead row).source = triviaText row ++ t.solid := by
  rw [source_eq, lead, solid, tokens_withLead row t ht, leadOf_relead hne, solidOf_relead]
  rfl

theorem isSome_firstToken_withLead (t : Tree) (row : List Trivia) :
    (t.withLead row).firstToken?.isSome = t.firstToken?.isSome := by
  induction t using induct with
  | leaf s => rfl
  | node kind parts ih =>
    show (firstTokenOf? (withLeadAll row parts)).isSome = (firstTokenOf? parts).isSome
    induction parts with
    | nil => rfl
    | cons t ts ihts =>
      have ht := ih t List.mem_cons_self
      rw [withLeadAll]
      split
      · simp only [firstTokenOf?, Option.orElse_eq_orElse, Option.orElse_eq_or,
          Option.isSome_or, ht]
      · simp only [firstTokenOf?, Option.orElse_eq_orElse, Option.orElse_eq_or,
          Option.isSome_or, ihts fun u hu => ih u (List.mem_cons_of_mem t hu)]
  | call callee types opening items closing hcallee _ _ =>
    simp only [withLead, firstToken?, Option.orElse_eq_orElse, Option.orElse_eq_or,
      Option.isSome_or, hcallee]

/-- Of two rows put in front of a tree the last one stays. -/
theorem withLead_withLead (t : Tree) (row row' : List Trivia) :
    (t.withLead row).withLead row' = t.withLead row' := by
  induction t using induct with
  | leaf s => rfl
  | node kind parts ih =>
    show node kind (withLeadAll row' (withLeadAll row parts)) =
        node kind (withLeadAll row' parts)
    refine congrArg (node kind) ?_
    induction parts with
    | nil => rfl
    | cons t ts ihts =>
      have ht := ih t List.mem_cons_self
      have hsome := isSome_firstToken_withLead t row
      by_cases hfirst : t.firstToken?.isSome = true
      · rw [hfirst] at hsome
        simp only [withLeadAll, hfirst, hsome, if_true, ht]
      · simp only [withLeadAll, hfirst, if_false, Bool.false_eq_true,
          ihts fun u hu => ih u (List.mem_cons_of_mem t hu)]
  | call callee types opening items closing hcallee _ _ =>
    show call ((callee.withLead row).withLead row') types opening items closing = _
    rw [hcallee]
    rfl

theorem isComma_withLead (t : Tree) (row : List Trivia) :
    (t.withLead row).isComma = t.isComma := by
  cases t <;> rfl

theorem isObject_withLead (t : Tree) (row : List Trivia) :
    (t.withLead row).isObject = t.isObject := by
  cases t with
  | leaf s => rfl
  | node kind parts => cases kind <;> rfl
  | call callee types opening items closing => rfl

mutual

theorem firstToken_withLead (row : List Trivia) : (t : Tree) → t.isSound = true →
    (t.withLead row).firstToken? = t.firstToken?.map fun s => { s with trivia := row }
  | leaf s, _ => rfl
  | node _ parts, h => firstTokenOf_withLeadAll row parts h
  | call callee types opening items closing, h => by
    simp only [isSound, callIsSound, Bool.and_eq_true] at h
    have hne := tokens_ne_nil_of_startsWith (firstToken_eq callee h.2.1) h.1.1.1.1.1.1.1.1
    rw [withLead, firstToken?, firstToken?, firstToken_withLead row callee h.2.1,
      firstToken_eq callee h.2.1]
    rcases hs : callee.tokens with - | ⟨s, ss⟩
    · exact absurd hs hne
    · rfl

theorem firstTokenOf_withLeadAll (row : List Trivia) :
    (ts : List Tree) → areSound ts = true →
    firstTokenOf? (withLeadAll row ts) = (firstTokenOf? ts).map fun s =>
      { s with trivia := row }
  | [], _ => rfl
  | t :: ts, h => by
    simp only [areSound, Bool.and_eq_true] at h
    have hfirst := firstToken_withLead row t h.1
    rw [withLeadAll]
    rcases hs : t.firstToken? with - | s
    · rw [if_neg (by simp), firstTokenOf?, firstTokenOf?, hs,
        firstTokenOf_withLeadAll row ts h.2]
      rfl
    · rw [hs] at hfirst
      rw [if_pos Option.isSome_some, firstTokenOf?, firstTokenOf?, hfirst, hs]
      rfl

end

mutual

theorem isSound_withLead {row : List Trivia}
    (hrow : row.all Trivia.isPlain = true) : (t : Tree) →
    t.isSound = true → (t.withLead row).isSound = true
  | leaf s, _ => hrow
  | node _ parts, h => areSound_withLeadAll hrow parts h
  | call callee types opening items closing, h => by
    have hfirst := firstToken_withLead row callee
    simp only [isSound, callIsSound, Bool.and_eq_true] at h
    have hstarts : (callee.withLead row).startsWith Token.isSolid = true := by
      have hcallee := h.1.1.1.1.1.1.1.1
      rw [startsWith] at hcallee
      rw [startsWith, hfirst h.2.1]
      rcases hs : callee.firstToken? with - | s
      · rw [hs] at hcallee
        cases hcallee
      · rw [hs] at hcallee
        exact hcallee
    simp [withLead, isSound, callIsSound, hstarts, isSound_withLead hrow callee h.2.1, h]

theorem areSound_withLeadAll {row : List Trivia} (hrow : row.all Trivia.isPlain = true) :
    (ts : List Tree) → areSound ts = true → areSound (withLeadAll row ts) = true
  | [], _ => rfl
  | t :: ts, h => by
    simp only [areSound, Bool.and_eq_true] at h
    rw [withLeadAll]
    split
    · rw [areSound, isSound_withLead hrow t h.1, h.2]
      rfl
    · rw [areSound, h.1, areSound_withLeadAll hrow ts h.2]
      rfl

end

/-- Behind a gap row an item is still an item. -/
theorem startsWith_withLead {row : List Trivia} (hrow : isGapRow row = true) {t : Tree}
    (ht : t.isSound = true) (h : t.startsWith Token.isInner = true) :
    (t.withLead row).startsWith Token.isInner = true := by
  have hkinds : row.all (·.kind != .interpreter) = true := by
    have hspacing := all_isSpacing_of_isGapRow hrow
    rw [List.all_eq_true] at hspacing ⊢
    intro s hs
    rcases isSpacing_cases (hspacing s hs) with ⟨text, rfl, -⟩ | ⟨rest, rfl, -⟩ <;> rfl
  rw [startsWith] at h ⊢
  rw [firstToken_withLead row t ht]
  rcases hs : t.firstToken? with - | s
  · rw [hs] at h
    cases h
  · rw [hs] at h
    have hinner : s.isInner = true := h
    simp only [Token.isInner, Bool.and_eq_true] at hinner
    show Token.isInner { s with trivia := row } = true
    simp only [Token.isInner, Bool.and_eq_true]
    exact ⟨hinner.1, hkinds⟩

theorem isPlain_of_isGapRow {row : List Trivia} (h : isGapRow row = true) :
    row.all Trivia.isPlain = true := by
  have hspacing := all_isSpacing_of_isGapRow h
  rw [List.all_eq_true] at hspacing ⊢
  intro t ht
  have := hspacing t ht
  simp only [isSpacing, Bool.and_eq_true] at this
  exact this.1

/-! ### Parts of a sound call -/

mutual

theorem isPlain_tokens : (t : Tree) → t.isSound = true → ∀ s ∈ t.tokens, s.isPlain = true
  | leaf t, h => by
    intro s hs
    rw [tokens, List.mem_singleton] at hs
    rw [hs]
    exact h
  | node _ parts, h => isPlain_tokensAll parts h
  | call callee types opening items closing, h => by
    simp only [isSound, Bool.and_eq_true] at h
    intro s hs
    simp only [tokens, List.mem_append, List.mem_cons, List.not_mem_nil, or_false] at hs
    rcases hs with hs | hs | rfl | hs | rfl
    · exact isPlain_tokens callee h.2.1 s hs
    · exact isPlain_tokensAll types h.2.2.1 s hs
    · exact h.1.1.2
    · exact isPlain_tokensAll items h.2.2.2 s hs
    · exact h.1.2

theorem isPlain_tokensAll : (ts : List Tree) → areSound ts = true →
    ∀ s ∈ tokensAll ts, s.isPlain = true
  | [], _ => by
    intro s hs
    cases hs
  | t :: ts, h => by
    simp only [areSound, Bool.and_eq_true] at h
    intro s hs
    rcases List.mem_append.1 hs with hs | hs
    · exact isPlain_tokens t h.1 s hs
    · exact isPlain_tokensAll ts h.2 s hs

end

/-- Holds of the trivia that stand inside a script. -/
def isInner (t : Trivia) : Bool := t.isPlain && t.kind != .interpreter

/-- What the arguments of a call and the commas between them are. -/
structure IsItem (t : Tree) : Prop where
  isSound : t.isSound = true
  tokens_ne_nil : t.tokens ≠ []
  solid_ne_nil : t.solid ≠ []
  lead : t.lead.all isInner = true

/-- What the parts of a sound call are. -/
structure SoundCall (callee : Tree) (types : List Tree) (opening : Token)
    (items : List Tree)
    (closing : Token) : Prop where
  calleeSound : callee.isSound = true
  typesSound : areSound types = true
  itemsSound : areSound items = true
  tokens_ne_nil : callee.tokens ≠ []
  head : ∃ c r, callee.solid = c :: r ∧ isSpace c = false
  openingText : opening.text = ['(']
  item : ∀ t ∈ items, t.IsItem
  front : items.head?.all (!·.isComma) = true
  closingText : closing.text = [')']
  closingRow : closing.trivia.all isInner = true

theorem exists_firstToken {p : Token → Bool} {t : Tree} (ht : t.isSound = true)
    (h : t.startsWith p = true) : ∃ s ss, t.tokens = s :: ss ∧ p s = true := by
  rw [startsWith, firstToken_eq t ht] at h
  rcases hs : t.tokens with - | ⟨s, ss⟩
  · rw [hs] at h
    cases h
  · rw [hs] at h
    exact ⟨s, ss, rfl, h⟩

theorem all_isInner {s : Token} (hplain : s.isPlain = true)
    (hinner : s.trivia.all (·.kind != .interpreter) = true) :
    s.trivia.all isInner = true := by
  rw [Token.isPlain] at hplain
  rw [List.all_eq_true] at hplain hinner ⊢
  intro t ht
  simp only [isInner, Bool.and_eq_true]
  exact ⟨hplain t ht, hinner t ht⟩

theorem exists_solid {s : Token} (h : s.isSolid = true) :
    ∃ c r, s.text = c :: r ∧ isSpace c = false := by
  rw [Token.isSolid] at h
  rcases htext : s.text with - | ⟨c, r⟩
  · rw [htext] at h
    cases h
  · rw [htext] at h
    exact ⟨c, r, rfl, by simpa using h⟩

theorem isItem_of_startsWith {t : Tree} (ht : t.isSound = true)
    (h : t.startsWith Token.isInner = true) : t.IsItem := by
  obtain ⟨s, ss, hs, hinner⟩ := exists_firstToken ht h
  simp only [Token.isInner, Bool.and_eq_true] at hinner
  obtain ⟨c, r, htext, -⟩ := exists_solid hinner.1
  refine ⟨ht, by simp [hs], by simp [solid, hs, solidOf, htext], ?_⟩
  rw [lead, hs]
  exact all_isInner (isPlain_tokens t ht s (by simp [hs])) hinner.2

theorem soundCall {callee : Tree} {types items : List Tree} {opening closing : Token}
    (h : (call callee types opening items closing).isSound = true) :
    SoundCall callee types opening items closing := by
  simp only [isSound, callIsSound, Bool.and_eq_true, beq_iff_eq, Token.isInner] at h
  obtain ⟨⟨⟨⟨⟨⟨⟨⟨hhead, hopening⟩, hitems⟩, hfront⟩, hclosing⟩, hinner⟩, -⟩,
      hplain⟩, hcallee, htypes,
    hsound⟩ := h
  obtain ⟨s, ss, hs, hsolid⟩ := exists_firstToken hcallee hhead
  obtain ⟨c, r, htext, hc⟩ := exists_solid hsolid
  refine ⟨hcallee, htypes, hsound, by simp [hs], ⟨c, r ++ tokensSource ss, ?_, hc⟩,
    hopening, ?_,
    hfront, hclosing, all_isInner hplain hinner.2⟩
  · rw [solid, hs, solidOf, htext]
    rfl
  · intro t ht
    exact isItem_of_startsWith (areSound_iff.1 hsound t ht)
      (List.all_eq_true.1 hitems t ht)

theorem lead_call {callee : Tree} (h : callee.tokens ≠ []) (types items : List Tree)
    (opening closing : Token) :
    (call callee types opening items closing).lead = callee.lead := by
  rw [lead, tokens, leadOf_append h]
  rfl

/-! ### Respacing -/

/-- The second tree is the first, or the first behind a gap row. -/
def Releaded (t t' : Tree) : Prop :=
  t' = t ∨ ∃ row, isGapRow row = true ∧ t' = t.withLead row

mutual

/-- The second tree is the first but for the spacing of arguments. -/
def Respaced : Tree → Tree → Prop
  | leaf s, t' => t' = leaf s
  | node kind parts, t' => ∃ parts', t' = node kind parts' ∧ AllRespaced parts parts'
  | call callee types opening items closing, t' =>
    ∃ callee' types' items' closing', t' = call callee' types' opening items' closing' ∧
      Respaced callee callee' ∧ AllRespaced types types' ∧ ItemsRespaced items items' ∧
      (closing' = closing ∨ ∃ row, isGapRow row = true ∧
        closing' = { closing with trivia := row })

/-- Each tree of the second row is respaced from the tree of the first. -/
def AllRespaced : List Tree → List Tree → Prop
  | [], ts' => ts' = []
  | t :: ts, ts' => ∃ t' r, ts' = t' :: r ∧ Respaced t t' ∧ AllRespaced ts r

/-- Each item of the second row is respaced from the item of the first, and may
stand behind another gap row. -/
def ItemsRespaced : List Tree → List Tree → Prop
  | [], ts' => ts' = []
  | t :: ts, ts' => ∃ u t' r, ts' = t' :: r ∧ Respaced t u ∧ Releaded u t' ∧
    ItemsRespaced ts r

end

/-! ### Respaced trees have the same tokens -/

/-- The tokens of the second row are those of the first, some of them behind
other gap rows. -/
abbrev TokensReleaded : List Token → List Token → Prop := List.Forall₂ Token.Releaded

theorem tokensReleaded_refl (ts : List Token) : TokensReleaded ts ts :=
  List.forall₂_same.2 fun s _ => .refl s

theorem tokensReleaded_trans {a b c : List Token} (h : TokensReleaded a b)
    (h' : TokensReleaded b c) : TokensReleaded a c := by
  induction h generalizing c with
  | nil => exact h'
  | cons hs _ ih =>
    cases h' with
    | cons hs' h' => exact .cons (hs.trans hs') (ih h')

theorem map_bare_eq {a b : List Token} (h : TokensReleaded a b) :
    b.map Token.bare = a.map Token.bare := by
  induction h with
  | nil => rfl
  | cons hs _ ih => rw [List.map_cons, List.map_cons, hs.bare_eq, ih]

theorem tokens_withLead_releaded {row : List Trivia}
    (hrow : isGapRow row = true) (t : Tree) :
    TokensReleaded t.tokens (t.withLead row).tokens := by
  induction t using induct with
  | leaf s => exact .cons (.inr ⟨row, hrow, rfl⟩) .nil
  | node kind parts ih =>
    show TokensReleaded (tokensAll parts) (tokensAll (withLeadAll row parts))
    induction parts with
    | nil => exact .nil
    | cons t ts ihts =>
      rw [withLeadAll]
      split
      · exact List.rel_append (ih t List.mem_cons_self) (tokensReleaded_refl _)
      · exact List.rel_append (tokensReleaded_refl _)
          (ihts fun u hu => ih u (List.mem_cons_of_mem t hu))
  | call callee types opening items closing hcallee _ _ =>
    exact List.rel_append hcallee (tokensReleaded_refl _)

theorem Releaded.tokens {t t' : Tree} (h : Releaded t t') :
    TokensReleaded t.tokens t'.tokens := by
  rcases h with rfl | ⟨row, hrow, rfl⟩
  · exact tokensReleaded_refl _
  · exact tokens_withLead_releaded hrow t

theorem AllRespaced.tokens {ts ts' : List Tree}
    (h : ∀ t ∈ ts, ∀ t', Respaced t t' → TokensReleaded t.tokens t'.tokens)
    (hts : AllRespaced ts ts') : TokensReleaded (tokensAll ts) (tokensAll ts') := by
  induction ts generalizing ts' with
  | nil =>
    obtain rfl : ts' = [] := hts
    exact .nil
  | cons t ts ih =>
    obtain ⟨t', r, rfl, ht, hr⟩ := hts
    exact List.rel_append (h t List.mem_cons_self t' ht)
      (ih (fun u hu => h u (List.mem_cons_of_mem t hu)) hr)

theorem ItemsRespaced.tokens {ts ts' : List Tree}
    (h : ∀ t ∈ ts, ∀ t', Respaced t t' → TokensReleaded t.tokens t'.tokens)
    (hts : ItemsRespaced ts ts') : TokensReleaded (tokensAll ts) (tokensAll ts') := by
  induction ts generalizing ts' with
  | nil =>
    obtain rfl : ts' = [] := hts
    exact .nil
  | cons t ts ih =>
    obtain ⟨u, t', r, rfl, hu, ht, hr⟩ := hts
    exact List.rel_append (tokensReleaded_trans (h t List.mem_cons_self u hu) ht.tokens)
      (ih (fun u hu => h u (List.mem_cons_of_mem t hu)) hr)

/-- Respaced trees have the same tokens, some of them behind other gap rows. -/
theorem tokens_respaced (t : Tree) : ∀ t' : Tree, Respaced t t' →
    TokensReleaded t.tokens t'.tokens := by
  induction t using induct with
  | leaf s =>
    rintro _ rfl
    exact tokensReleaded_refl _
  | node kind parts ih =>
    rintro _ ⟨parts', rfl, h⟩
    exact AllRespaced.tokens ih h
  | call callee types opening items closing hcallee htypes hitems =>
    rintro _ ⟨callee', types', items', closing', rfl, hc, ht, hi, hclosing⟩
    refine List.rel_append (hcallee callee' hc)
      (List.rel_append (AllRespaced.tokens htypes ht)
      (.cons (.refl opening) ?_))
    exact List.rel_append (ItemsRespaced.tokens hitems hi) (.cons hclosing .nil)

theorem Respaced.bareTokens_eq {t t' : Tree} (h : Respaced t t') :
    t'.bareTokens = t.bareTokens :=
  map_bare_eq (tokens_respaced t t' h)

end Tree

/-- The reader gives the spacing of arguments no meaning: what is read is still
read after the arguments have been respaced. -/
def Reader.IgnoresSpacing (reader : Reader) : Prop :=
  ∀ {dialect : Dialect} {text : List Char} {t t' : Tree},
    reader.read dialect text = .ok t →
    t.Respaced t' → reader.read dialect t'.source = .ok t'

/-- The reader gives the spacing of the arguments of one script no meaning:
however often they are respaced, what comes of the script is read back. -/
def Reader.ReadsRespaced (reader : Reader) (dialect : Dialect) (t : Tree) : Prop :=
  ∀ t', Relation.ReflTransGen Tree.Respaced t t' → reader.read dialect t'.source = .ok t'

section ReadsRespaced

variable {reader : Reader} {dialect : Dialect} {t t' : Tree}

theorem Reader.IgnoresSpacing.readsRespaced {text : List Char} (h : reader.IgnoresSpacing)
    (hread : reader.read dialect text = .ok t) : reader.ReadsRespaced dialect t := by
  intro t' ht'
  induction ht' with
  | refl =>
    rw [reader.source_of_read hread]
    exact hread
  | tail _ hrespaced ih => exact h ih hrespaced

/-- A script that comes of respacing is read back, and so is all that comes of
it. -/
theorem Reader.ReadsRespaced.respaced (h : reader.ReadsRespaced dialect t)
    (hrespaced : t.Respaced t') :
    reader.read dialect t'.source = .ok t' ∧ reader.ReadsRespaced dialect t' :=
  ⟨h t' (.single hrespaced), fun u hu => h u (hu.head hrespaced)⟩

end ReadsRespaced

end AnimLint.Script
