/-
AnimLint/Proofs/Hidden.lean

Zones that directives silence, in a repair.  Lines are joined, and a directive
counts lines: joining may draw a zone onto the line that a directive silences,
or away from it (`repair_unhides`), and it may draw a `disable` and an `enable`
onto one line, where the order decides in which comments are met.  It does not
where the directives stand apart from the calls with a zone to report
(`DirectivesApart`).  What is counted as silenced is what is left out of the
report (`hiddenCount_add_findings`).

Apart means that the views of the calls are guarded (`isGuarded_of_apart`).
Then the number of zones silenced can be told from the views, whatever the order
of comments (`hiddenCount_eq_sum`), zones are joined only where all is calm
(`joinsCalm_of_guarded`), and so a pass keeps the views that count.
-/
import AnimLint.Proofs.Tokens
import AnimLint.Proofs.Views

namespace AnimLint

open Text Script Silence Watch

/-! ### Zones that are silenced -/

/-- The number of violations in a text that a directive keeps from being
reported. -/
def hiddenCount (visit : Visit) (target : Target) (file : String) (text : List Char)
    (tree : Tree) : Nat :=
  let body := dropMark text
  let silence := Silence.ofComments body (visit.order file tree)
  ((tree.sites 0).map fun site => (violations target text site.call).countP
    fun v => isSilenced silence body site.call v.side).sum

/-- Holds if the directives stand apart from the calls with a violation.  None
stands in such a call; in front of it on its first line stands neither one for
the next line nor one that closes a stretch; and the last line up to that one on
which a stretch is opened or closed does one of the two only. -/
def DirectivesApart (target : Target) (text : List Char) (tree : Tree) : Prop :=
  ∀ site ∈ tree.sites 0, violations target text site.call ≠ [] →
    (∀ c ∈ tree.comments, ∀ d ∈ Directive.parse? c.content,
      (c.start < site.call.span.start ∨ site.call.span.stop ≤ c.start) ∧
        (d ≠ .disable → c.start < site.call.span.start →
          lineAt text c.start < lineAt text site.call.span.start)) ∧
      Settled (lineAt text site.call.span.start) (directivesOf text tree.comments)

instance (target : Target) (text : List Char) (tree : Tree) :
    Decidable (DirectivesApart target text tree) :=
  inferInstanceAs
    (Decidable (∀ site ∈ tree.sites 0, _ → (∀ c ∈ tree.comments, ∀ d ∈ _, _) ∧ _))

/-- A violation is either silenced or reported. -/
theorem hiddenCount_add_findings (visit : Visit) (target : Target) (file : String)
    (text : List Char) (tree : Tree) :
    hiddenCount visit target file text tree +
    (treeFindings visit target file text tree).length =
      ((tree.sites 0).map fun site => (violations target text site.call).length).sum := by
  rw [hiddenCount, treeFindings]
  induction tree.sites 0 with
  | nil => rfl
  | cons site sites ih =>
    have hsite := List.length_eq_countP_add_countP (fun v => isSilenced
      (.ofComments (dropMark text) (visit.order file tree)) (dropMark text)
        site.call v.side)
      (l := violations target text site.call)
    simp only [Bool.not_eq_true, Bool.decide_eq_false] at hsite
    simp only [List.map_cons, List.sum_cons, List.flatMap_cons, List.length_append,
      siteFindings, List.length_map, ← List.countP_eq_length_filter] at ih ⊢
    omega

/-! ### Guarded views -/

section Guarded

variable {target : Target} {tree : Tree} {c : CallAt}

theorem site_mem (hc : c ∈ tree.calls []) : c.site ∈ tree.sites 0 :=
  (tree.sites_perm []).mem_iff.2 (List.mem_map_of_mem hc)

/-- The sides of a call are those of its violations. -/
theorem map_side_site (hsound : tree.isSound = true) (hopen : tree.opensPlainly = true)
    (hc : c ∈ tree.calls []) :
    (violations target tree.source c.site.call).map (·.side) = c.sides target := by
  obtain ⟨hcall, hparen⟩ := soundCall_of_mem hsound hopen hc
  obtain ⟨after, -, hsource⟩ := stretches_of_mem hc
  rw [hsource]
  exact Tree.map_side_violations hcall hparen (tokensSource c.before) (tokensSource after)

/-- A directive is that of a comment that starts where it stands. -/
theorem exists_comment_of_mem_marks {m : List Char × Directive}
    (hm : m ∈ marks [] (stretches tree.tokens)) :
    ∃ comment ∈ tree.comments, comment.start = byteLength m.1 ∧
      m.2 ∈ Directive.parse? comment.content := by
  have hplaced := List.mem_map_of_mem (f := placed) hm
  rw [← placed_comments] at hplaced
  obtain ⟨comment, hcomment, heq⟩ := List.mem_filterMap.1 hplaced
  obtain ⟨d, hd, heq⟩ := Option.map_eq_some_iff.1 heq
  obtain ⟨hstart, rfl⟩ := Prod.mk.inj heq
  exact ⟨comment, hcomment, hstart, hd⟩

/-- Where the directives stand apart, calls are guarded. -/
theorem isGuarded_of_apart (hsound : tree.isSound = true)
    (hopen : tree.opensPlainly = true)
    (happart : DirectivesApart target tree.source tree) (hc : c ∈ tree.calls []) :
    (c.view target).isGuarded := by
  intro hsides
  obtain ⟨after, hstretches, -⟩ := stretches_of_mem hc
  have hwell := wellMarked_stretches (tree.isPlain_tokens hsound)
  rw [hstretches, wellMarked_append, wellMarked_append] at hwell
  obtain ⟨hwellFront, hwellInside, -⟩ := hwell
  have hmarks : marks [] (stretches tree.tokens) = marks [] c.front ++
      (marks (stretchesText c.front) c.inside ++
        marks (stretchesText c.front ++ stretchesText c.inside) (stretches after)) := by
    rw [hstretches, marks_append, marks_append, List.nil_append]
  obtain ⟨v, hv⟩ : ∃ v, v ∈ violations target tree.source c.site.call := by
    refine List.exists_mem_of_ne_nil _ fun hnil => hsides ?_
    show c.sides target = []
    rw [← map_side_site hsound hopen hc, hnil, List.map_nil]
  obtain ⟨hapart, hsettled⟩ := happart c.site (site_mem hc) (List.ne_nil_of_mem hv)
  have hspan := span_site hsound hopen hc
  obtain ⟨hstart, hfirst, hlast⟩ := lines_of_violation hsound hopen hc hv
  have hquiet : (directives c.inside).isEmpty = true := by
    -- a directive in the call would be one of its marks
    rw [List.isEmpty_iff, ← map_marks (stretchesText c.front), List.map_eq_nil_iff,
      List.eq_nil_iff_forall_not_mem]
    intro m hm
    obtain ⟨inner, r, hinner, htext⟩ := exists_of_mem_marks hwellInside hm
    obtain ⟨comment, hcomment, hstart, hd⟩ := exists_comment_of_mem_marks
      (hmarks ▸ List.mem_append_right _ (List.mem_append_left _ hm))
    have houtside := (hapart comment hcomment m.2 hd).1
    rw [hspan, hstart, hinner, stretchesText_append, htext] at houtside
    simp only [byteLength_append, byteLength_cons] at houtside
    have hpos := Char.utf8Size_pos '/'
    omega
  -- what stands in front of the call on its first line opens a stretch
  have habove {m : List Char × Directive} (hm : m ∈ marks [] c.front)
      (hdirective : m.2 ≠ .disable) :
      lineEnds false m.1 < lineEnds false (stretchesText c.front) := by
    have hmem : m ∈ marks [] (stretches tree.tokens) := hmarks ▸ List.mem_append_left _ hm
    obtain ⟨inner, r, hinner, htext⟩ := exists_of_mem_marks hwellFront hm
    obtain ⟨comment, hcomment, hplace, hd⟩ := exists_comment_of_mem_marks hmem
    have hlines := (hapart comment hcomment m.2 hd).2 hdirective
    rw [hplace, lineAt_of_mem_marks hsound hmem, hstart] at hlines
    have hlt : byteLength m.1 < c.site.call.span.start := by
      rw [hspan, htext, hinner]
      simp only [byteLength_append, byteLength_cons, List.nil_append]
      have hpos := Char.utf8Size_pos '/'
      omega
    have := hlines hlt
    omega
  have hears := hears_across hwellFront
  refine ⟨hquiet, isClear_iff.2 ⟨?_, ?_, fun henable => ?_⟩⟩
  · apply (tracks_across hwellFront).ends_ne_zero
    intro m hm hdirective
    exact habove hm (by rw [hdirective]; decide)
  · obtain ⟨above, below, hsplit, rfl, -, hbelow⟩ :=
      marks_around (hstretches ▸ wellMarked_stretches (tree.isPlain_tokens hsound))
        (List.isEmpty_iff.1 hquiet)
    rw [directivesOf_eq hsound, hstretches, hsplit, hstart, settled_append fun d hd =>
      Nat.lt_of_lt_of_le (Nat.lt_of_le_of_lt hfirst hlast) (hbelow d hd)] at hsettled
    exact hears.mixed.2 hsettled
  · obtain ⟨-, hmem⟩ := (hears.here _).1 henable
    obtain ⟨m, hm, heq⟩ := List.mem_map.1 hmem
    obtain ⟨hline, hdirective⟩ := Prod.mk.inj heq
    have := habove hm (by rw [hdirective]; decide)
    omega

theorem sides_ne_nil (hsound : tree.isSound = true) (hopen : tree.opensPlainly = true)
    (hc : c ∈ tree.calls []) {v : Violation}
    (hv : v ∈ violations target tree.source c.site.call) :
    c.sides target ≠ [] := by
  rw [← map_side_site hsound hopen hc]
  exact List.ne_nil_of_mem (List.mem_map_of_mem hv)

/-- In a guarded call the watch tells which violations are silenced. -/
theorem isSilenced_of_guarded (hsound : tree.isSound = true)
    (hopen : tree.opensPlainly = true)
    (hguarded : (c.view target).isGuarded) (hc : c ∈ tree.calls []) {v : Violation}
    (hv : v ∈ violations target tree.source c.site.call) (visit : Visit) (file : String) :
    isSilenced (.ofComments tree.source (visit.order file tree)) tree.source
      c.site.call v.side =
      (calm.across c.front).silences := by
  obtain ⟨hquiet, hclear⟩ := hguarded (sides_ne_nil hsound hopen hc hv)
  exact isSilenced_eq hsound hopen hc (List.isEmpty_iff.1 hquiet) hclear hv visit file

/-- The silenced zones of a guarded call. -/
theorem countP_isSilenced (hsound : tree.isSound = true)
    (hopen : tree.opensPlainly = true)
    (hguarded : (c.view target).isGuarded) (hc : c ∈ tree.calls []) (visit : Visit)
    (file : String) :
    (violations target tree.source c.site.call).countP (fun v => isSilenced
      (.ofComments tree.source (visit.order file tree)) tree.source c.site.call v.side) =
        (c.view target).hidden := by
  have hlength : (violations target tree.source c.site.call).length =
      (c.sides target).length := by
    rw [← map_side_site hsound hopen hc, List.length_map]
  have hsame := List.countP_congr fun v hv =>
    iff_of_eq (congrArg (· = true)
      (isSilenced_of_guarded hsound hopen hguarded hc hv visit file))
  rw [hsame]
  show _ = if (calm.across c.front).silences then (c.sides target).length else 0
  cases (calm.across c.front).silences
  · rw [List.countP_false]
    rfl
  · rw [List.countP_true, hlength]
    rfl

/-- Where all calls are guarded, their views tell how many zones are
silenced. -/
theorem hiddenCount_eq_sum (hsound : tree.isSound = true)
    (hopen : tree.opensPlainly = true)
    (hmark : dropMark tree.source = tree.source)
    (hguarded : ∀ c ∈ tree.calls [], (c.view target).isGuarded) (visit : Visit)
    (file : String) :
    hiddenCount visit target file tree.source tree =
      ((tree.calls []).map fun c => (c.view target).hidden).sum := by
  have hperm : (tree.sites 0).Perm ((tree.calls []).map CallAt.site) := tree.sites_perm []
  rw [hiddenCount, hmark, (hperm.map _).sum_nat, List.map_map]
  congr 1
  apply List.map_congr_left
  intro c hc
  exact countP_isSilenced hsound hopen (hguarded c hc) hc visit file

/-- Where all calls are guarded, zones are reported only where all is calm. -/
theorem joinsCalm_of_guarded (hsound : tree.isSound = true)
    (hopen : tree.opensPlainly = true)
    (hguarded : ∀ c ∈ tree.calls [], (c.view target).isGuarded) {visit : Visit}
    {file : String} :
    Tree.JoinsCalm (Reports visit target file tree.source tree) (tree.calls []) := by
  rintro c hc _ ⟨v, hv, rfl, hreported⟩
  obtain ⟨hquiet, hclear⟩ := hguarded c hc (sides_ne_nil hsound hopen hc hv)
  obtain ⟨after, hstretches, -⟩ := stretches_of_mem hc
  have hwell := wellMarked_stretches (tree.isPlain_tokens hsound)
  rw [hstretches, wellMarked_append] at hwell
  refine ⟨?_, List.isEmpty_iff.1 hquiet⟩
  apply eq_calm (tracks_across hwell.1) (hears_across hwell.1) hclear
  rw [← isSilenced_of_guarded hsound hopen (hguarded c hc) hc hv visit file, hreported]

/-- A pass over a script whose calls are guarded keeps the views of the calls
where not all is calm. -/
theorem loud_guarded (htarget : target.endsPlainly = true) (hsound : tree.isSound = true)
    (hopen : tree.opensPlainly = true)
    (hguarded : ∀ c ∈ tree.calls [], (c.view target).isGuarded)
    {visit : Visit} {file : String} {tree' : Tree}
    (hpassed : Tree.Passed (Reports visit target file tree.source tree) 0 tree tree') :
    loud target (tree'.calls []) = loud target (tree.calls []) := by
  have hkeeps : Tree.KeepsLoud target (Reports visit target file tree.source tree) tree :=
    Tree.keepsLoud htarget tree hsound hopen
  exact (@hkeeps [] [] tree' rfl (joinsCalm_of_guarded hsound hopen hguarded) hpassed).2

/-- A pass leaves a script whose calls are guarded as such a script, and what is
counted at the calls where not all is calm stays the same. -/
theorem guarded_passed (htarget : target.endsPlainly = true)
    (hsound : tree.isSound = true) (hopen : tree.opensPlainly = true)
    (hguarded : ∀ c ∈ tree.calls [], (c.view target).isGuarded)
    {visit : Visit} {file : String} {tree' : Tree}
    (hpassed : Tree.Passed (Reports visit target file tree.source tree) 0 tree tree') :
    tree'.opensPlainly = true ∧ (∀ c ∈ tree'.calls [], (c.view target).isGuarded) ∧
      ∀ {number : View → Nat}, (∀ {v : View}, v.isCalm = true → number v = 0) →
        ((tree'.calls []).map fun c => number (c.view target)).sum =
          ((tree.calls []).map fun c => number (c.view target)).sum := by
  have hloud := loud_guarded htarget hsound hopen hguarded hpassed
  have hrespaced := Tree.respaced_passed tree 0 tree' hpassed
  refine ⟨?_, ?_, fun hzero => ?_⟩
  · rw [Tree.opensPlainly_respaced tree tree' hrespaced, hopen]
  · rw [isGuarded_loud, hloud, ← isGuarded_loud]
    exact hguarded
  · rw [sum_loud hzero, hloud, ← sum_loud hzero]

end Guarded

/-! ### Repairs -/

/-- A script whose calls are guarded, with so many zones silenced. -/
structure Hides (target : Target) (count : Nat) (tree : Tree) : Prop where
  opensPlainly : tree.opensPlainly = true
  isGuarded : ∀ c ∈ tree.calls [], (c.view target).isGuarded
  sum_hidden : ((tree.calls []).map fun c => (c.view target).hidden).sum = count

/-- A pass hides no zone and brings none back. -/
theorem hides_passed {visit : Visit} {target : Target} {file : String}
    (htarget : target.endsPlainly = true) {count : Nat} {tree tree' : Tree}
    (hsound : tree.isSound = true) (h : Hides target count tree)
    (hpassed : Tree.Passed (Reports visit target file tree.source tree) 0 tree tree') :
    Hides target count tree' := by
  obtain ⟨hopen, hguarded, hsum⟩ :=
    guarded_passed htarget hsound h.opensPlainly h.isGuarded hpassed
  exact ⟨hopen, hguarded, (hsum View.hidden_of_isCalm).trans h.sum_hidden⟩

/-- A repair silences no zone and brings none back, where the directives stand
apart from the calls with a violation.  The comments may be met in one order
when the zones are counted that are silenced before, in another one in the
repair, and in another one when they are counted afterwards. -/
theorem Script.Reader.hiddenCount_repair (reader : Reader) (before during after : Visit)
    (target : Target) (htarget : target.endsPlainly = true) (file : String)
    (text : List Char)
    (tree : Tree) (hparse : reader.parseFile file text = .ok tree)
    (hreads : reader.ReadsRespaced (dialectOf file) tree)
    (hmark : dropMark text = text) (hopen : tree.opensPlainly = true)
    (happart : DirectivesApart target text tree) :
    ∃ done tree', reader.repair during target file text = .ok done ∧
      reader.parseFile file done.output = .ok tree' ∧
      hiddenCount after target file done.output tree' =
        hiddenCount before target file text tree := by
  have hcount {visit : Visit} {text : List Char} {tree : Tree} {count : Nat}
      (hparse : reader.parseFile file text = .ok tree) (hmark : dropMark text = text)
      (h : Hides target count tree) :
      hiddenCount visit target file text tree = count := by
    have htext := Reader.source_of_parseFile hparse hmark
    subst htext
    rw [hiddenCount_eq_sum (reader.isSound_of_read hparse) h.opensPlainly
      hmark h.isGuarded]
    exact h.sum_hidden
  have hguarded : ∀ c ∈ tree.calls [], (c.view target).isGuarded := by
    intro c hc
    apply isGuarded_of_apart (reader.isSound_of_read hparse) hopen _ hc
    rw [Reader.source_of_parseFile hparse hmark]
    exact happart
  have hhides : Hides target _ tree := ⟨hopen, hguarded, rfl⟩
  obtain ⟨done, tree', hdone, hparse', hmark', hhides'⟩ :=
    repair_keeps (P := Hides target _)
      (fun hsound htext h hpassed => hides_passed htarget hsound h (htext ▸ hpassed))
      hparse hreads hmark hopen hhides
  refine ⟨done, tree', hdone, hparse', ?_⟩
  rw [hcount hparse' hmark' hhides', hcount hparse hmark hhides]

theorem hiddenCount_repair_toCall :
    ∃ done tree', Reader.script.repair .inText .default "a.js"
        "/* tweenlint-disable-next-line */\na.to(\n\x7b\x7d);".toList = .ok done ∧
      Reader.script.parseFile "a.js" done.output = .ok tree' ∧
      hiddenCount .inText .default "a.js" done.output tree' = 1 := by
  have hplain : PlainScript (toCall
      [⟨.blockComment, "/* tweenlint-disable-next-line */".toList⟩, ⟨.blank, ['\n']⟩]
      [⟨.blank, ['\n']⟩]) := plainScript_toCall (by decide) (by decide)
  have hparse := read_script hplain (dialectOf "a.js")
  rw [show Tree.source _ =
    "/* tweenlint-disable-next-line */\na.to(\n\x7b\x7d);".toList by decide]
    at hparse
  exact Reader.script.hiddenCount_repair .inText .inText .inText .default
    (by decide) "a.js" _ _
    (Reader.parseFile_of_read (by decide) hparse)
      (readsRespaced_plainScript hplain _) (by decide)
    (by decide) (by decide +kernel)

/-! ### Directives that are not apart -/

/-- Holds if a repair changes the number of zones silenced. -/
def changesHidden (target : Target) (file : String) (text : List Char) : Bool :=
  (parseFile file text).toOption.any fun tree =>
    (repair target file text).toOption.any fun done =>
      (parseFile file done.output).toOption.any fun tree' =>
        hiddenCount .inText target file done.output tree' !=
          hiddenCount .inText target file text tree

/-- A directive for the next line between the arguments of a call silences the
line below it.  When that line is joined to the directive's own, the zone on it
is brought back. -/
theorem repair_unhides :
    ¬ ∀ (target : Target) (file : String) (text : List Char) (tree tree' : Tree)
      (done : Repaired),
      parseFile file text = .ok tree → repair target file text = .ok done →
        parseFile file done.output = .ok tree' →
          hiddenCount .inText target file done.output tree' =
            hiddenCount .inText target file text tree := by
  intro h
  have hchanges : changesHidden ⟨["f"], []⟩ "a.js"
      "f( /* tweenlint-disable-next-line */\na, \x7b\x7d\n)".toList = true := by
    decide +kernel
  simp only [changesHidden, Option.any_eq_true, bne_iff_ne] at hchanges
  obtain ⟨tree, htree, done, hdone, tree', htree', hne⟩ := hchanges
  exact hne (h _ _ _ _ _ _ (ok_of_toOption htree) (ok_of_toOption hdone)
    (ok_of_toOption htree'))

-- the directive in front of the call, on its first line
example : changesHidden ⟨["f"], []⟩ "a.js"
    "/* tweenlint-disable-next-line */ f(\na, \x7b\x7d\n)".toList = true := by
  decide +kernel

-- the directive in an object, and behind the object a line comment that keeps
-- the zone from joining
example : changesHidden ⟨["f"], []⟩ "a.js"
    "f(x, \x7b\n// tweenlint-disable-next-line\n\x7d, // c\nf(\x7b\x7d\n))".toList = true := by
  decide +kernel

end AnimLint
