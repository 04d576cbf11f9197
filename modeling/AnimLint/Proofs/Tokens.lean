/-
AnimLint/Proofs/Tokens.lean

A repair keeps the tokens of a script.  What a tree becomes in a pass is the
tree respaced (`respaced_passed`), so a reader that ignores spacing reads the
text that comes out of a pass as that tree.  Hence whatever one pass keeps of a
tree, a repair keeps, and the text that comes out of it is always read again
(`repair_keeps`); the tokens are one such thing (`Reader.bareTokens_repair`).

Two kinds of text are left out.  The `(` of a call is searched for behind the
callee, and a comment between the two that holds a `(` leads the search astray
(`Tree.opensPlainly`, `repair_loses_tokens`); and where a byte-order mark stands
in front of a text, positions in the text and in its tree differ.
-/
import AnimLint.Proofs.Passes
import AnimLint.Proofs.PlainScripts
import AnimLint.Proofs.Rewriting

namespace AnimLint

open Text Script

namespace Script.Tree

/-! ### A pass respaces -/

section Passed

variable {joins : Site → Side → Prop}

theorem Releaded.trans {t u v : Tree} (h : Releaded t u) (h' : Releaded u v) :
    Releaded t v := by
  rcases h' with rfl | ⟨row', hrow', rfl⟩
  · exact h
  · rcases h with rfl | ⟨row, -, rfl⟩
    · exact .inr ⟨row', hrow', rfl⟩
    · exact .inr ⟨row', hrow', withLead_withLead t row row'⟩

/-- The items of the second row are those of the first, some of them behind
other gap rows. -/
inductive AllReleaded : List Tree → List Tree → Prop
  | nil : AllReleaded [] []
  | cons {t t' : Tree} {ts ts' : List Tree} :
      Releaded t t' → AllReleaded ts ts' → AllReleaded (t :: ts) (t' :: ts')

theorem allReleaded_refl (ts : List Tree) : AllReleaded ts ts := by
  induction ts with
  | nil => exact .nil
  | cons t ts ih => exact .cons (.inl rfl) ih

theorem AllReleaded.append {a a' b b' : List Tree} (ha : AllReleaded a a')
    (hb : AllReleaded b b') :
    AllReleaded (a ++ b) (a' ++ b') := by
  induction ha with
  | nil => exact hb
  | cons ht _ ih => exact .cons ht ih

theorem AllReleaded.trans {a b c : List Tree} (h : AllReleaded a b)
    (h' : AllReleaded b c) : AllReleaded a c := by
  induction h generalizing c with
  | nil => exact h'
  | cons ht _ ih =>
    cases h' with
    | cons ht' h' => exact .cons (ht.trans ht') (ih h')

theorem allReleaded_tidied {ts ts' : List Tree} (h : Tidied ts ts') :
    AllReleaded ts ts' := by
  induction h with
  | nil => exact .nil
  | cons hrow _ ih => exact .cons (.inr ⟨_, hrow.isGapRow, rfl⟩) ih

theorem allReleaded_joinsLeading {may : Prop} {items items' : List Tree}
    (h : JoinsLeading may items items') : AllReleaded items items' := by
  cases h with
  | keep => exact allReleaded_refl items
  | join _ _ _ hfront hrow =>
    exact (allReleaded_tidied hfront).append
      (.cons (.inr ⟨_, hrow.isGapRow, rfl⟩) (allReleaded_refl _))

theorem allReleaded_joinsTrailing {may : Prop} {items items' : List Tree}
    {closing closing' : Token}
    (h : JoinsTrailing may items closing items' closing') : AllReleaded items items' := by
  cases h with
  | keep => exact allReleaded_refl items
  | join _ _ _ hback _ =>
    exact (allReleaded_refl _).append (.cons (.inl rfl) (allReleaded_tidied hback))

theorem allRespaced_passed {ts ts' : List Tree}
    (h : ∀ t ∈ ts, ∀ start t', Passed joins start t t' → Respaced t t') {start : Nat}
    (hts : AllPassed joins start ts ts') : AllRespaced ts ts' := by
  induction ts generalizing start ts' with
  | nil => exact hts
  | cons t ts ih =>
    obtain ⟨t', r, rfl, ht, hr⟩ := hts
    exact ⟨t', r, rfl, h t List.mem_cons_self _ _ ht,
      ih (fun u hu => h u (List.mem_cons_of_mem t hu)) hr⟩

theorem itemsRespaced_of_releaded {ts us vs : List Tree} (h : AllRespaced ts us)
    (h' : AllReleaded us vs) : ItemsRespaced ts vs := by
  induction ts generalizing us vs with
  | nil =>
    obtain rfl : us = [] := h
    cases h'
    rfl
  | cons t ts ih =>
    obtain ⟨u, us, rfl, ht, hts⟩ := h
    cases h' with
    | cons hu hus => exact ⟨u, _, _, rfl, ht, hu, ih hts hus⟩

/-- A pass changes the spacing of arguments and nothing else. -/
theorem respaced_passed (t : Tree) :
    ∀ (start : Nat) (t' : Tree), Passed joins start t t' →
    Respaced t t' := by
  induction t using induct with
  | leaf s =>
    intro start t' h
    exact h
  | node kind parts ih =>
    rintro start _ ⟨parts', rfl, h⟩
    exact ⟨parts', rfl, allRespaced_passed ih h⟩
  | call callee types opening items closing hcallee htypes hitems =>
    rintro start _ ⟨callee', types', items₁, items₂, items', closing', rfl, hpc,
      hpt, hpi, hpl, hpr⟩
    refine ⟨callee', types', items', closing', rfl, hcallee start callee' hpc,
      allRespaced_passed htypes hpt, ?_, ?_⟩
    · exact itemsRespaced_of_releaded (allRespaced_passed hitems hpi)
        ((allReleaded_joinsLeading hpl).trans (allReleaded_joinsTrailing hpr))
    · rcases closing_joinsTrailing hpr with rfl | ⟨row, hrow, rfl⟩
      · exact .inl rfl
      · exact .inr ⟨row, hrow.isGapRow, rfl⟩

end Passed

/-! ### A pass keeps what stands in front of a `(` -/

theorem opensPlainly_withLead (t : Tree) (row : List Trivia) :
    (t.withLead row).opensPlainly = t.opensPlainly := by
  induction t using induct with
  | leaf s => rfl
  | node kind parts ih =>
    show allOpenPlainly (withLeadAll row parts) = allOpenPlainly parts
    induction parts with
    | nil => rfl
    | cons t ts ihts =>
      rw [withLeadAll]
      split
      · rw [allOpenPlainly, allOpenPlainly, ih t List.mem_cons_self]
      · rw [allOpenPlainly, allOpenPlainly,
          ihts fun u hu => ih u (List.mem_cons_of_mem t hu)]
  | call callee types opening items closing hcallee _ _ =>
    rw [withLead, opensPlainly, opensPlainly, hcallee]

theorem allOpenPlainly_respaced {ts ts' : List Tree}
    (h : ∀ t ∈ ts, ∀ t', Respaced t t' → t'.opensPlainly = t.opensPlainly)
    (hts : AllRespaced ts ts') : allOpenPlainly ts' = allOpenPlainly ts := by
  induction ts generalizing ts' with
  | nil =>
    obtain rfl : ts' = [] := hts
    rfl
  | cons t ts ih =>
    obtain ⟨t', r, rfl, ht, hr⟩ := hts
    rw [allOpenPlainly, allOpenPlainly, h t List.mem_cons_self t' ht,
      ih (fun u hu => h u (List.mem_cons_of_mem t hu)) hr]

theorem allOpenPlainly_itemsRespaced {ts ts' : List Tree}
    (h : ∀ t ∈ ts, ∀ t', Respaced t t' → t'.opensPlainly = t.opensPlainly)
    (hts : ItemsRespaced ts ts') : allOpenPlainly ts' = allOpenPlainly ts := by
  induction ts generalizing ts' with
  | nil =>
    obtain rfl : ts' = [] := hts
    rfl
  | cons t ts ih =>
    obtain ⟨u, t', r, rfl, hu, ht, hr⟩ := hts
    have hfirst : t'.opensPlainly = t.opensPlainly := by
      rw [← h t List.mem_cons_self u hu]
      rcases ht with rfl | ⟨row, -, rfl⟩
      · rfl
      · exact opensPlainly_withLead u row
    rw [allOpenPlainly, allOpenPlainly, hfirst,
      ih (fun u hu => h u (List.mem_cons_of_mem t hu)) hr]

theorem isObject_respaced {t t' : Tree} (h : Respaced t t') :
    t'.isObject = t.isObject := by
  cases t with
  | leaf s => rw [show t' = leaf s from h]
  | node kind parts =>
    obtain ⟨parts', rfl, -⟩ := h
    cases kind <;> rfl
  | call callee types opening items closing =>
    obtain ⟨_, _, _, _, rfl, -⟩ := h
    rfl

theorem Releaded.isObject_eq {t t' : Tree} (h : Releaded t t') :
    t'.isObject = t.isObject := by
  rcases h with rfl | ⟨row, -, rfl⟩
  · rfl
  · exact isObject_withLead t row

theorem any_isObject_respaced {ts ts' : List Tree} (hts : ItemsRespaced ts ts') :
    ts'.any isObject = ts.any isObject := by
  induction ts generalizing ts' with
  | nil =>
    obtain rfl : ts' = [] := hts
    rfl
  | cons t ts ih =>
    obtain ⟨u, t', r, rfl, hu, ht, hr⟩ := hts
    rw [List.any_cons, List.any_cons, ht.isObject_eq, isObject_respaced hu, ih hr]

/-- Spacing of arguments has nothing to do with what stands in front of a
`(`. -/
theorem opensPlainly_respaced (t : Tree) : ∀ t' : Tree, Respaced t t' →
    t'.opensPlainly = t.opensPlainly := by
  induction t using induct with
  | leaf s =>
    intro t' h
    rw [show t' = leaf s from h]
  | node kind parts ih =>
    rintro _ ⟨parts', rfl, h⟩
    exact allOpenPlainly_respaced ih h
  | call callee types opening items closing hcallee htypes hitems =>
    rintro _ ⟨callee', types', items', closing', rfl, hc, ht, hi, -⟩
    rw [opensPlainly, opensPlainly, hcallee callee' hc, allOpenPlainly_respaced htypes ht,
      allOpenPlainly_itemsRespaced hitems hi, any_isObject_respaced hi]

end Script.Tree

/-! ### One pass -/

variable {reader : Reader} {visit : Visit} {target : Target} {file : String}
  {text : List Char} {tree : Tree}

/-- Holds of the zones of a script that are reported. -/
def Reports (visit : Visit) (target : Target) (file : String) (text : List Char)
    (tree : Tree)
    (site : Site) (side : Side) : Prop :=
  ∃ v ∈ violations target text site.call, v.side = side ∧
    isSilenced (.ofComments text (visit.order file tree)) text site.call side = false

theorem offers_of_treeFindings (hmark : dropMark text = text) {e : Edit}
    (h : e ∈ editsOf (treeFindings visit target file text tree)) :
    Tree.Offers text (Reports visit target file text tree) (tree.sites 0) e := by
  obtain ⟨site, hsite, v, hv, hedit, hsilent⟩ := edit_of_treeFindings h
  obtain ⟨zone, hzone, hside, hlines, hcomment, rfl⟩ := edit_of_violation hv hedit
  rw [hmark] at hsilent
  exact ⟨site, hsite, zone, hzone, ⟨v, hv, hside.symm, hside ▸ hsilent⟩, hlines,
    hcomment, rfl⟩

theorem Script.Reader.parseFile_of_read (hmark : dropMark text = text)
    (h : reader.read (dialectOf file) text = .ok tree) :
    reader.parseFile file text = .ok tree := by
  rw [Reader.parseFile, hmark]
  exact h

/-- A text has no byte-order mark in front of it if its first character is
none. -/
theorem dropMark_of_head {s t : List Char} (h : t.head? = s.head?) (hs : dropMark s = s) :
    dropMark t = t := by
  rcases t with - | ⟨c, t⟩
  · rfl
  · rcases s with - | ⟨d, s⟩
    · cases h
    · obtain rfl : c = d := Option.some.inj h
      rw [dropMark] at hs ⊢
      split at hs
      · have := congrArg List.length hs
        simp at this
      · rw [if_neg ‹_›]

/-- What comes out of a pass is what the tree becomes, and with each edit
applied one zone less can be mended. -/
theorem exists_passed (visit : Visit) (target : Target)
    (hparse : reader.parseFile file text = .ok tree)
    (hmark : dropMark text = text) (hopen : tree.opensPlainly = true)
    {looks : List Char → Bool}
    (hlooks : Tree.Looks text (Reports visit target file text tree) looks) :
    let pass := splice text (editsOf (treeFindings visit target file text tree))
    dropMark pass.output = pass.output ∧
      ∃ tree', Tree.Passed (Reports visit target file text tree) 0 tree tree' ∧
        tree'.source = pass.output ∧
        tree.mends looks = tree'.mends looks + pass.applied := by
  have hsource := Reader.source_of_parseFile hparse hmark
  have hsound := reader.isSound_of_read hparse
  obtain ⟨accepted, hlen, hmem, hrewrites⟩ :=
    splice_rewrites text (editsOf (treeFindings visit target file text tree))
  have hoffers : ∀ e ∈ accepted,
      Tree.Offers text (Reports visit target file text tree) (tree.sites 0) e :=
    fun e he => offers_of_treeFindings hmark (hmem e he)
  constructor
  · refine dropMark_of_head (hrewrites.head?_eq fun e he => ?_) hmark
    obtain ⟨site, -, zone, hzone, -, -, -, rfl⟩ := hoffers e he
    exact Nat.lt_of_le_of_lt (Nat.zero_le _) (Zone.within_of_mem hzone).1
  · have hwhole : text = [] ++ (tree.source ++ []) := by
      rw [hsource, List.append_nil]; rfl
    rw [← hlen]
    refine Tree.rewritable hlooks tree hsound hopen hwhole hoffers ?_
    rw [hsource]
    exact hrewrites

/-! ### Passes in a row -/

/-- What a pass keeps of a tree, passes in a row keep, and the text that comes
out of them is read again. -/
theorem repairIn_keeps {P : Tree → Prop}
    (hpass : ∀ {text tree tree'}, tree.isSound = true → tree.source = text → P tree →
      Tree.Passed (Reports visit target file text tree) 0 tree tree' → P tree')
    {n : Nat} (hparse : reader.parseFile file text = .ok tree)
    (hreads : reader.ReadsRespaced (dialectOf file) tree) (hmark : dropMark text = text)
    (hopen : tree.opensPlainly = true) (htree : P tree) :
    ∃ done tree', reader.repairIn visit target file n text
        (treeFindings visit target file text tree) = .ok done ∧
      reader.parseFile file done.output = .ok tree' ∧ dropMark done.output = done.output ∧
        P tree' := by
  induction n generalizing text tree with
  | zero => exact ⟨_, tree, rfl, hparse, hmark, htree⟩
  | succ n ih =>
    have hsource := Reader.source_of_parseFile hparse hmark
    obtain ⟨hmark', tree', hpassed, hout, -⟩ :=
      exists_passed visit target hparse hmark hopen Tree.looks_all
    have hrespaced := Tree.respaced_passed tree 0 tree' hpassed
    obtain ⟨hread', hreads'⟩ := hreads.respaced hrespaced
    have hparse' : reader.parseFile file tree'.source = .ok tree' := by
      rw [Reader.parseFile, hout, hmark', ← hout]
      exact hread'
    obtain ⟨done, final, hdone, hfinal, hmark'', hkept⟩ :=
      ih hparse' hreads' (by rw [hout, hmark'])
      ((Tree.opensPlainly_respaced tree tree' hrespaced).trans hopen)
      (hpass (reader.isSound_of_read hparse) hsource htree hpassed)
    rw [hout] at hdone hparse'
    have hfound : reader.findings visit target file
        (splice text (editsOf (treeFindings visit target file text tree))).output =
          .ok (treeFindings visit target file
            (splice text (editsOf (treeFindings visit target file text tree))).output
            tree') := by
      rw [Reader.findings, hparse']
    rw [repairIn_succ]
    split
    · exact ⟨_, tree, rfl, hparse, hmark, htree⟩
    · rw [hfound]
      simp only [hdone]
      exact ⟨_, final, rfl, hfinal, hmark'', hkept⟩

/-- What a pass keeps of a tree, a repair keeps, and the text that comes out of
it is read again. -/
theorem repair_keeps {P : Tree → Prop}
    (hpass : ∀ {text tree tree'}, tree.isSound = true → tree.source = text → P tree →
      Tree.Passed (Reports visit target file text tree) 0 tree tree' → P tree')
    (hparse : reader.parseFile file text = .ok tree)
    (hreads : reader.ReadsRespaced (dialectOf file) tree) (hmark : dropMark text = text)
    (hopen : tree.opensPlainly = true) (htree : P tree) :
    ∃ done tree', reader.repair visit target file text = .ok done ∧
      reader.parseFile file done.output = .ok tree' ∧ dropMark done.output = done.output ∧
        P tree' := by
  rw [Reader.repair, Reader.findings, hparse]
  exact repairIn_keeps hpass hparse hreads hmark hopen htree

/-! ### Repairs -/

theorem ok_of_toOption {ε α : Type} {x : Except ε α} {a : α} (h : x.toOption = some a) :
    x = .ok a := by
  cases x with
  | error e => cases h
  | ok b => exact congrArg Except.ok (Option.some.inj h)

/-- A repair keeps the tokens.  Of a script without a byte-order mark, in which
no comment between the callee of a call with an object and its `(` holds another
`(`, it makes a script with the same tokens, trivia left out. -/
theorem Script.Reader.bareTokens_repair (reader : Reader)
    (hreader : reader.IgnoresSpacing)
    (visit : Visit) (target : Target) (file : String) (text : List Char) (tree : Tree)
    (hparse : reader.parseFile file text = .ok tree) (hmark : dropMark text = text)
    (hopen : tree.opensPlainly = true) :
    ∃ done tree', reader.repair visit target file text = .ok done ∧
      reader.parseFile file done.output = .ok tree' ∧ tree'.bareTokens =
        tree.bareTokens := by
  have hpass {text : List Char} {t t' : Tree} (ht : t.bareTokens = tree.bareTokens)
      (hpassed : Tree.Passed (Reports visit target file text t) 0 t t') :
      t'.bareTokens = tree.bareTokens :=
    (Tree.respaced_passed t 0 t' hpassed).bareTokens_eq.trans ht
  obtain ⟨done, tree', hdone, hparse', -, htokens⟩ :=
    repair_keeps (fun _ _ ht hpassed => hpass ht hpassed) hparse
      (hreader.readsRespaced hparse)
      hmark hopen rfl
  exact ⟨done, tree', hdone, hparse', htokens⟩

theorem bareTokens_repair_toCall :
    ∃ done tree', Reader.plain.repair .inText .default "a.js"
      "a.to(\n\x7b\x7d);".toList = .ok done ∧
      Reader.plain.parseFile "a.js" done.output = .ok tree' ∧
      tree'.bareTokens = (toCall [] [⟨.blank, ['\n']⟩]).bareTokens := by
  have hplain : PlainScript (toCall [] [⟨.blank, ['\n']⟩]) :=
    plainScript_toCall (by decide) (by decide)
  exact Reader.plain.bareTokens_repair Reader.plain_ignoresSpacing _ _ _ _ _
    (read_plain hplain (dialectOf "a.js")) (by decide) (by decide)

/-- Where a comment behind a callee holds a `(`, joining lines draws the call
into the comment. -/
theorem repair_loses_tokens :
    ¬ ∀ (target : Target) (file : String) (text : List Char) (tree tree' : Tree)
      (done : Repaired),
      parseFile file text = .ok tree → repair target file text = .ok done →
        parseFile file done.output = .ok tree' →
        tree'.tokens.length = tree.tokens.length := by
  intro h
  have hlost : ((parseFile "a.js" "f // (\n(\x7b\x7d)".toList).toOption.any fun tree =>
      (repair ⟨["f"], []⟩ "a.js" "f // (\n(\x7b\x7d)".toList).toOption.any fun done =>
        (parseFile "a.js" done.output).toOption.any fun tree' =>
          tree'.tokens.length != tree.tokens.length) = true := by
    decide +kernel
  simp only [Option.any_eq_true, bne_iff_ne] at hlost
  obtain ⟨tree, htree, done, hdone, tree', htree', hne⟩ := hlost
  exact hne (h _ _ _ _ _ _ (ok_of_toOption htree) (ok_of_toOption hdone)
    (ok_of_toOption htree'))

end AnimLint
