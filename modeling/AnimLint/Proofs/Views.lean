/-
AnimLint/Proofs/Views.lean

The calls of a script, each seen with what matters to its zones: on which sides
they spread over several lines, how many of them can be mended, what the watch
says where the call starts, and whether the call is free of directives (`View`).
Where a call that has such a side is free of directives, and the watch is clear
in front of it (`View.isGuarded`), the silence of the script says the same of
both its sides in whatever order comments are met, and it is the watch that
tells what (`isSilenced_eq`).

A call that is joined is one where all is calm, and in it all stays calm, before
the pass and after (`view_calm`).  The other calls are seen as they were.  So a
pass leaves the views alone of the calls where not all is calm
(`Tree.keepsLoud`).
-/
import AnimLint.Proofs.Mending
import AnimLint.Proofs.ToggleLines
import Mathlib.Algebra.GroupWithZero.Nat

namespace AnimLint

open Text Gap Script Silence Watch

/-! ### Calls in their place -/

/-- A call with the tokens in front of it. -/
structure CallAt where
  before : List Token
  callee : Tree
  types : List Tree
  opening : Token
  items : List Tree
  closing : Token

namespace CallAt

def tree (c : CallAt) : Tree := .call c.callee c.types c.opening c.items c.closing

def site (c : CallAt) : Site :=
  .ofParts (byteLength (tokensSource c.before)) c.callee c.types c.opening
    c.items c.closing

def sides (target : Target) (c : CallAt) : List Side :=
  Tree.violatedSides target c.callee c.types c.opening c.items c.closing

/-- The number of zones of a call that can be mended. -/
def mends (target : Target) (c : CallAt) : Nat :=
  Tree.callMends (target.covers c.callee.solid) c.items c.closing

/-- The stretches in front of a call. -/
def front (c : CallAt) : List Stretch := stretches c.before ++ rowStretches c.tree.lead

/-- The stretches of a call. -/
def inside (c : CallAt) : List Stretch := solidStretches c.tree.tokens

end CallAt

namespace Script.Tree

mutual

/-- The calls of a tree that follows some tokens. -/
def calls (before : List Token) : Tree → List CallAt
  | leaf _ => []
  | node _ parts => callsAll before parts
  | call callee types opening items closing =>
    ⟨before, callee, types, opening, items, closing⟩ ::
      (calls before callee ++ (callsAll (before ++ callee.tokens) types ++
        callsAll (before ++ (callee.tokens ++ (tokensAll types ++ [opening]))) items))

/-- The calls of a row of trees that follows some tokens. -/
def callsAll (before : List Token) : List Tree → List CallAt
  | [] => []
  | t :: ts => calls before t ++ callsAll (before ++ t.tokens) ts

end

theorem flatten_sitesAll_perm {ts : List Tree}
    (h : ∀ t ∈ ts, ∀ before, (t.sites (byteLength (tokensSource before))).Perm
      ((calls before t).map CallAt.site)) (before : List Token) :
    (sitesAll (byteLength (tokensSource before)) ts).flatten.Perm
      ((callsAll before ts).map CallAt.site) := by
  induction ts generalizing before with
  | nil => exact .nil
  | cons t ts ih =>
    have hrest := ih (fun u hu => h u (List.mem_cons_of_mem t hu)) (before ++ t.tokens)
    rw [tokensSource_append, tokensSource_tokens, byteLength_append, ← width_eq] at hrest
    rw [sitesAll, List.flatten_cons, callsAll, List.map_append]
    exact (h t List.mem_cons_self before).append hrest

/-- The sites of a tree are those of its calls, in some order. -/
theorem sites_perm (t : Tree) : ∀ before : List Token,
    (t.sites (byteLength (tokensSource before))).Perm
      ((calls before t).map CallAt.site) := by
  induction t using induct with
  | leaf s => exact fun _ => .nil
  | node kind parts ih =>
    intro before
    exact (kind.visit_perm _).flatten.trans (flatten_sitesAll_perm ih before)
  | call callee types opening items closing hcallee htypes hitems =>
    intro before
    have htypes' := flatten_sitesAll_perm htypes (before ++ callee.tokens)
    have hitems' := flatten_sitesAll_perm hitems
      (before ++ (callee.tokens ++ (tokensAll types ++ [opening])))
    simp only [tokensSource_append, tokensSource_tokens, tokensSource_tokensAll,
      tokensSource_cons, tokensSource_nil, List.append_nil, byteLength_append,
      ← width_eq, ← widthAll_eq, ← width_token, ← Nat.add_assoc] at htypes' hitems'
    rw [sites, calls, List.map_cons, List.map_append, List.map_append]
    exact .cons _ ((hcallee before).append
      ((hitems'.append htypes').trans List.perm_append_comm))

/-- A call of a tree stands among its tokens. -/
theorem exists_append_of_mem_callsAll {ts : List Tree}
    (h : ∀ t ∈ ts, ∀ before,
      ∀ c ∈ calls before t, ∃ inner after, c.before = before ++ inner ∧
      t.tokens = inner ++ (c.tree.tokens ++ after)) {before : List Token} {c : CallAt}
    (hc : c ∈ callsAll before ts) : ∃ inner after, c.before = before ++ inner ∧
      tokensAll ts = inner ++ (c.tree.tokens ++ after) := by
  induction ts generalizing before with
  | nil => cases hc
  | cons t ts ih =>
    rcases List.mem_append.1 hc with hc | hc
    · obtain ⟨inner, after, hbefore, htokens⟩ := h t List.mem_cons_self before c hc
      exact ⟨inner, after ++ tokensAll ts, hbefore, by rw [tokensAll, htokens]; simp⟩
    · obtain ⟨inner, after, hbefore, htokens⟩ :=
        ih (fun u hu => h u (List.mem_cons_of_mem t hu)) hc
      exact ⟨t.tokens ++ inner, after, by rw [hbefore, List.append_assoc], by
        rw [tokensAll, htokens, List.append_assoc]⟩

theorem exists_append_of_mem_calls (t : Tree) :
    ∀ before : List Token, ∀ c ∈ calls before t,
    ∃ inner after, c.before = before ++ inner ∧
      t.tokens = inner ++ (c.tree.tokens ++ after) := by
  induction t using induct with
  | leaf s =>
    intro before c hc
    cases hc
  | node kind parts ih =>
    intro before c hc
    exact exists_append_of_mem_callsAll ih hc
  | call callee types opening items closing hcallee htypes hitems =>
    intro before c hc
    rw [calls, List.mem_cons, List.mem_append, List.mem_append] at hc
    rcases hc with rfl | hc | hc | hc
    · exact ⟨[], [], (List.append_nil _).symm, by simp [CallAt.tree]⟩
    · obtain ⟨inner, after, hbefore, htokens⟩ := hcallee before c hc
      exact ⟨inner, _,
        hbefore, by rw [tokens, htokens, List.append_assoc, List.append_assoc]⟩
    · obtain ⟨inner, after, hbefore, htokens⟩ := exists_append_of_mem_callsAll htypes hc
      refine ⟨callee.tokens ++ inner,
        after ++ opening :: (tokensAll items ++ [closing]), ?_, ?_⟩
      · rw [hbefore, List.append_assoc]
      · rw [tokens, htokens]
        simp
    · obtain ⟨inner, after, hbefore, htokens⟩ := exists_append_of_mem_callsAll hitems hc
      refine ⟨callee.tokens ++ (tokensAll types ++ opening :: inner),
        after ++ [closing], ?_, ?_⟩
      · rw [hbefore]
        simp
      · rw [tokens, htokens]
        simp

/-- Calls of a sound tree are sound. -/
theorem isSound_of_mem_calls (t : Tree) (ht : t.isSound = true)
    (hopen : t.opensPlainly = true) :
    ∀ before : List Token, ∀ c ∈ calls before t, c.tree.isSound = true ∧
      c.tree.opensPlainly = true := by
  have hall {ts : List Tree} (h : ∀ t ∈ ts, t.isSound = true → t.opensPlainly = true →
      ∀ before : List Token, ∀ c ∈ calls before t,
        c.tree.isSound = true ∧ c.tree.opensPlainly = true)
      (hsound : areSound ts = true) (hopens : allOpenPlainly ts = true)
        {before : List Token}
      {c : CallAt} (hc : c ∈ callsAll before ts) :
      c.tree.isSound = true ∧ c.tree.opensPlainly = true := by
    induction ts generalizing before with
    | nil => cases hc
    | cons t ts ih =>
      simp only [areSound, allOpenPlainly, Bool.and_eq_true] at hsound hopens
      rcases List.mem_append.1 hc with hc | hc
      · exact h t List.mem_cons_self hsound.1 hopens.1 before c hc
      · exact ih (fun u hu => h u (List.mem_cons_of_mem t hu)) hsound.2 hopens.2 hc
  induction t using induct with
  | leaf s =>
    intro before c hc
    cases hc
  | node kind parts ih =>
    intro before c hc
    exact hall (fun t htm ht hopen => ih t htm ht hopen) ht hopen hc
  | call callee types opening items closing hcallee htypes hitems =>
    have hcall := soundCall ht
    obtain ⟨-, hopenCallee, hopenTypes, hopenItems⟩ := opensPlainly_call.1 hopen
    intro before c hc
    rw [calls, List.mem_cons, List.mem_append, List.mem_append] at hc
    rcases hc with rfl | hc | hc | hc
    · exact ⟨ht, hopen⟩
    · exact hcallee hcall.calleeSound hopenCallee before c hc
    · exact hall htypes hcall.typesSound hopenTypes hc
    · exact hall hitems hcall.itemsSound hopenItems hc

end Script.Tree

/-! ### Lines of a call -/

section Lines

variable {target : Target} {tree : Tree} {c : CallAt}

theorem soundCall_of_mem (hsound : tree.isSound = true) (hopen : tree.opensPlainly = true)
    (hc : c ∈ tree.calls []) :
    Tree.SoundCall c.callee c.types c.opening c.items c.closing ∧
      (c.items.any Tree.isObject = true → '(' ∉ triviaText c.opening.trivia) := by
  obtain ⟨hcall, hplain⟩ := tree.isSound_of_mem_calls hsound hopen [] c hc
  exact ⟨Tree.soundCall hcall, (Tree.opensPlainly_call.1 hplain).1⟩

theorem stretches_of_mem (hc : c ∈ tree.calls []) : ∃ after,
    stretches tree.tokens = c.front ++ (c.inside ++ stretches after) ∧
      tree.source = tokensSource c.before ++ (c.tree.source ++ tokensSource after) := by
  obtain ⟨inner, after, hbefore, htokens⟩ := tree.exists_append_of_mem_calls [] c hc
  rw [List.nil_append] at hbefore
  refine ⟨after, ?_, ?_⟩
  · rw [htokens, ← hbefore, stretches_append, stretches_append,
      stretches_eq c.tree.tokens]
    simp [CallAt.front, CallAt.inside, Tree.lead]
  · rw [← tree.tokensSource_tokens, htokens, ← hbefore, tokensSource_append,
      tokensSource_append, c.tree.tokensSource_tokens]

theorem text_front (c : CallAt) :
    stretchesText c.front = tokensSource c.before ++ triviaText c.tree.lead := by
  rw [CallAt.front, stretchesText_append, (stretchesText_solid c.before).2,
    stretchesText_row]

theorem text_inside (c : CallAt) : stretchesText (c.front ++ c.inside) =
    tokensSource c.before ++ c.tree.source := by
  rw [stretchesText_append, text_front, CallAt.inside, (stretchesText_solid _).1,
    List.append_assoc, c.tree.source_eq]
  rfl

/-- A call runs from what stands in front of it to its end. -/
theorem span_site (hsound : tree.isSound = true) (hopen : tree.opensPlainly = true)
    (hc : c ∈ tree.calls []) : c.site.call.span = ⟨byteLength (stretchesText c.front),
      byteLength (stretchesText (c.front ++ c.inside))⟩ := by
  have hcall := (soundCall_of_mem hsound hopen hc).1
  have hlead : c.tree.lead = c.callee.lead := Tree.lead_call hcall.tokens_ne_nil _ _ _ _
  have htree : c.tree.source = c.callee.source ++ (Tree.sourceAll c.types ++
      (c.opening.source ++ (Tree.sourceAll c.items ++ c.closing.source))) := rfl
  rw [text_front, text_inside, hlead, CallAt.site, Tree.call_ofParts hcall rfl, htree]
  simp

/-- A violation is reported on a line of its call, and not on the one on which
the call ends. -/
theorem lines_of_violation (hsound : tree.isSound = true)
    (hopen : tree.opensPlainly = true) (hc : c ∈ tree.calls []) {v : Violation}
    (hv : v ∈ violations target tree.source c.site.call) :
    lineAt tree.source c.site.call.span.start =
      1 + lineEnds false (stretchesText c.front) ∧
      1 + lineEnds false (stretchesText c.front) ≤
        (reportLines tree.source c.site.call v.side).1 ∧
      (reportLines tree.source c.site.call v.side).1 <
        1 + lineEnds false (stretchesText (c.front ++ c.inside)) := by
  obtain ⟨hcall, hparen⟩ := soundCall_of_mem hsound hopen hc
  obtain ⟨after, -, hsource⟩ := stretches_of_mem hc
  have hlead : c.tree.lead = c.callee.lead := Tree.lead_call hcall.tokens_ne_nil _ _ _ _
  have hclosing : c.closing.source = triviaText c.closing.trivia ++ [')'] := by
    rw [Token.source, hcall.closingText]
  have hopening : c.opening.source = triviaText c.opening.trivia ++ ['('] := by
    rw [Token.source, hcall.openingText]
  have htree : c.tree.source = c.callee.source ++ (Tree.sourceAll c.types ++
      (c.opening.source ++ (Tree.sourceAll c.items ++ c.closing.source))) := rfl
  have hspan := span_site hsound hopen hc
  rw [text_front, text_inside, hlead] at hspan ⊢
  have hbreak : (Tree.sourceAll c.items ++ triviaText c.closing.trivia).any
      isLineBreak = true := by
    rw [hsource] at hv
    exact Tree.any_isLineBreak_of_violation hcall hparen hv
  obtain ⟨pre, hpre⟩ : ∃ pre, pre = tokensSource c.before := ⟨_, rfl⟩
  have hcalleeSpan : c.site.call.callee.stop = byteLength (pre ++ c.callee.source) := by
    rw [CallAt.site, ← hpre, Tree.call_ofParts hcall rfl]
  rw [← hpre] at hsource hspan ⊢
  -- the line of the start of the call
  have hstart : lineAt tree.source (byteLength (pre ++ triviaText c.callee.lead)) =
      1 + lineEnds false (pre ++ triviaText c.callee.lead) := by
    obtain ⟨d, r, hsolid, hspace⟩ := hcall.head
    have hshape : tree.source =
        (pre ++ triviaText c.callee.lead) ++ (d :: (r ++ (Tree.sourceAll
        c.types ++ (c.opening.source ++ (Tree.sourceAll c.items ++ (c.closing.source ++
          tokensSource after)))))) := by
      rw [hsource, htree, c.callee.source_eq, hsolid]
      simp
    rw [hshape, lineAt_append]
    rintro - hfeed
    obtain rfl : d = '\n' := Option.some.inj hfeed
    cases hspace
  -- the line of the `(`
  obtain ⟨open', hopen'⟩ : ∃ s, s = pre ++ (c.callee.source ++ (Tree.sourceAll c.types ++
    triviaText c.opening.trivia)) := ⟨_, rfl⟩
  have hinner : pre ++ c.tree.source = open' ++ '(' :: ((Tree.sourceAll c.items ++
      triviaText c.closing.trivia) ++ [')']) := by
    rw [hopen', htree, hopening, hclosing]
    simp
  have hparenLine : lineAt tree.source (byteLength open') = 1 + lineEnds false open' := by
    rw [hsource, ← List.append_assoc, hinner, List.append_assoc, lineAt_append]
    rintro - ⟨⟩
  -- the line of the end of the call
  have hstop : lineAt tree.source (byteLength (pre ++ c.tree.source)) =
      1 + lineEnds false (pre ++ c.tree.source) := by
    rw [hsource, ← List.append_assoc, lineAt_append]
    rw [hinner, ← List.cons_append, ← List.append_assoc, endsInReturn_append]
    rintro ⟨⟩
  have hbelow : lineEnds false open' < lineEnds false (pre ++ c.tree.source) := by
    have hparenEnds (s : List Char) : lineEnds false ('(' :: s) = lineEnds false s := by
      simp [lineEnds]
    have hpos := lineEnds_pos hbreak
    have hle := lineEnds_le_append
      (Tree.sourceAll c.items ++ triviaText c.closing.trivia) [')']
    rw [hinner, lineEnds_append, lineEnds_of_head (by decide), hparenEnds]
    omega
  have hmono :=
    lineAt_mono tree.source (m := byteLength (pre ++ triviaText c.callee.lead))
    (n := byteLength (pre ++ c.callee.source)) (by rw [c.callee.source_eq]; simp)
  have hmono' := lineAt_mono tree.source (m := byteLength (pre ++ c.callee.source))
    (n := byteLength open') (by rw [hopen']; simp)
  refine ⟨by rw [hspan, hstart], ?_⟩
  rcases v.side with - | -
  · show _ ≤ lineAt tree.source c.site.call.callee.stop ∧
      lineAt tree.source c.site.call.callee.stop < _
    rw [hcalleeSpan]
    omega
  · show _ ≤ max (lineAt tree.source c.site.call.span.stop - 1) 1 ∧
      max (lineAt tree.source c.site.call.span.stop - 1) 1 < _
    rw [hspan, hstop]
    omega

/-- In a call that is free of directives, in front of which the watch is clear,
the watch tells of both sides whether they are silenced, in whatever order
comments are met. -/
theorem isSilenced_eq (hsound : tree.isSound = true) (hopen : tree.opensPlainly = true)
    (hc : c ∈ tree.calls []) (hquiet : directives c.inside = [])
    (hclear : (calm.across c.front).isClear = true) {v : Violation}
    (hv : v ∈ violations target tree.source c.site.call) (visit : Visit) (file : String) :
    isSilenced (.ofComments tree.source (visit.order file tree)) tree.source
      c.site.call v.side =
      (calm.across c.front).silences := by
  obtain ⟨hends, hmixed, -⟩ := isClear_iff.1 hclear
  obtain ⟨after, hstretches, -⟩ := stretches_of_mem hc
  obtain ⟨hstart, hfirst, hlast⟩ := lines_of_violation hsound hopen hc hv
  have hwell := wellMarked_stretches (tree.isPlain_tokens hsound)
  rw [hstretches] at hwell
  have hdirectives := directivesOf_eq hsound
  rw [hstretches] at hdirectives
  have hsettled {line : Nat} (hfirst : 1 + lineEnds false (stretchesText c.front) ≤ line)
      (hlast : line < 1 + lineEnds false (stretchesText (c.front ++ c.inside))) :
      Settled line (directivesOf tree.source tree.comments) :=
    hdirectives ▸ settled_of_hears hwell hquiet hmixed hfirst hlast
  have hstarts := Nat.lt_of_le_of_lt hfirst hlast
  rw [isSilenced, hstart, covers_ofComments visit file (hsettled hfirst hlast),
    covers_ofComments visit file (hsettled (Nat.le_refl _) hstarts), silenceOf,
    ofComments, hdirectives,
    covers_of_tracks hwell hquiet hends hfirst hlast,
    covers_of_tracks hwell hquiet hends (Nat.le_refl _) hstarts, silences]
  cases (calm.across c.front).on <;> cases (calm.across c.front).ends == 1 <;> simp

end Lines

/-! ### Views -/

/-- What matters to the zones of a call. -/
structure View where
  /-- The sides on which a zone spreads over several lines. -/
  sides : List Side
  /-- The number of zones that can be mended. -/
  mends : Nat
  /-- The watch where the call starts. -/
  watch : Watch
  /-- The call is free of directives. -/
  quiet : Bool
deriving DecidableEq, Repr

namespace View

/-- Holds where nothing is silenced in all of the call. -/
def isCalm (v : View) : Bool := v.watch == calm && v.quiet

/-- Holds if a call with a side to report is free of directives, and the watch
is clear in front of it. -/
def isGuarded (v : View) : Prop := v.sides ≠ [] → v.quiet = true ∧ v.watch.isClear = true

/-- The number of sides that are silenced. -/
def hidden (v : View) : Nat := if v.watch.silences then v.sides.length else 0

/-- The number of zones that could be mended but are silenced. -/
def spared (v : View) : Nat := if v.watch.silences then v.mends else 0

theorem hidden_of_isCalm {v : View} (h : v.isCalm = true) : v.hidden = 0 := by
  simp only [isCalm, Bool.and_eq_true, beq_iff_eq] at h
  rw [hidden, h.1]
  rfl

theorem spared_of_isCalm {v : View} (h : v.isCalm = true) : v.spared = 0 := by
  simp only [isCalm, Bool.and_eq_true, beq_iff_eq] at h
  rw [spared, h.1]
  rfl

theorem isGuarded_of_isCalm {v : View} (h : v.isCalm = true) : v.isGuarded := by
  simp only [isCalm, Bool.and_eq_true, beq_iff_eq] at h
  intro _
  rw [h.1, h.2]
  exact ⟨rfl, by decide⟩

end View

/-- How a call is seen. -/
def CallAt.view (target : Target) (c : CallAt) : View :=
  ⟨c.sides target, c.mends target, calm.across c.front, (directives c.inside).isEmpty⟩

theorem CallAt.isCalm_view {target : Target} {c : CallAt} :
    (c.view target).isCalm = true ↔ calm.across c.front = calm ∧
    directives c.inside = [] := by
  simp [CallAt.view, View.isCalm, List.isEmpty_iff]

/-- The views of the calls where not all is calm. -/
def loud (target : Target) (cs : List CallAt) : List View :=
  (cs.map (CallAt.view target)).filter fun v => !v.isCalm

theorem loud_append (target : Target) (a b : List CallAt) :
    loud target (a ++ b) = loud target a ++ loud target b := by
  rw [loud, List.map_append, List.filter_append]
  rfl

theorem loud_cons (target : Target) (c : CallAt) (cs : List CallAt) :
    loud target (c :: cs) = loud target [c] ++ loud target cs :=
  loud_append target [c] cs

/-- Where a number is zero when all is calm, the other views tell its sum. -/
theorem sum_loud {number : View → Nat}
    (hzero : ∀ {v : View}, v.isCalm = true → number v = 0)
    (target : Target) (cs : List CallAt) :
    (cs.map fun c => number (c.view target)).sum = ((loud target cs).map number).sum := by
  induction cs with
  | nil => rfl
  | cons c cs ih =>
    rw [List.map_cons, List.sum_cons, ih, loud_cons, List.map_append, List.sum_append]
    rcases hcalm : (c.view target).isCalm with - | -
    · simp [loud, hcalm]
    · simp [loud, hcalm, hzero hcalm]

theorem isGuarded_loud {target : Target} {cs : List CallAt} :
    (∀ c ∈ cs, (c.view target).isGuarded) ↔ ∀ v ∈ loud target cs, v.isGuarded := by
  constructor
  · intro h v hv
    obtain ⟨c, hc, rfl⟩ := List.mem_map.1 (List.mem_filter.1 hv).1
    exact h c hc
  · intro h c hc
    rcases hcalm : (c.view target).isCalm with - | -
    · exact h _ (List.mem_filter.2 ⟨List.mem_map_of_mem hc, by rw [hcalm]; rfl⟩)
    · exact View.isGuarded_of_isCalm hcalm

/-! ### Directives after a pass -/

/-- The directives in a row of tokens. -/
def directivesIn (ts : List Token) : List Directive := directives (stretches ts)

theorem directivesIn_append (a b : List Token) :
    directivesIn (a ++ b) = directivesIn a ++ directivesIn b := by
  rw [directivesIn, stretches_append, directives_append]
  rfl

theorem directivesIn_cons (t : Token) (ts : List Token) :
    directivesIn (t :: ts) = directives (rowStretches t.trivia) ++ directivesIn ts := by
  rw [directivesIn, stretches, directives_append, directives_cons]
  rfl

theorem directives_row (row : List Trivia) :
    directives (rowStretches row) = (row.filter isComment).filterMap directiveOf? := by
  induction row with
  | nil => rfl
  | cons t row ih =>
    have hcons : directives (rowStretches (t :: row)) =
        (directiveOf? t).toList ++ directives (rowStretches row) :=
      directives_cons _ _
    rw [hcons, ih]
    rcases ht : isComment t with - | -
    · rw [List.filter_cons_of_neg (by simp [ht]), directiveOf?, ht]
      rfl
    · rw [List.filter_cons_of_pos ht, List.filterMap_cons]
      cases directiveOf? t <;> rfl

theorem directivesIn_relead {ts : List Token} {row : List Trivia}
    (h : Tidies (leadOf ts) row) :
    directivesIn (relead row ts) = directivesIn ts := by
  cases ts with
  | nil => rfl
  | cons t ts =>
    rw [relead, directivesIn_cons, directivesIn_cons, directives_row,
      directives_row, h.comments]
    rfl

namespace Script.Tree

section Passed

variable {joins : Site → Side → Prop}

theorem directivesIn_tidied {ts ts' : List Tree} (hsound : ∀ t ∈ ts, t.isSound = true)
    (h : Tidied ts ts') : directivesIn (tokensAll ts') = directivesIn (tokensAll ts) := by
  induction h with
  | nil => rfl
  | @cons t row ts ts' hrow _ ih =>
    rw [tokensAll, tokensAll, directivesIn_append, directivesIn_append,
      tokens_withLead row t (hsound t List.mem_cons_self), directivesIn_relead hrow,
      ih fun u hu => hsound u (List.mem_cons_of_mem t hu)]

theorem directivesIn_joinsLeading {may : Prop} {items items' : List Tree}
    (hsound : ∀ t ∈ items, t.isSound = true) (h : JoinsLeading may items items') :
    directivesIn (tokensAll items') = directivesIn (tokensAll items) := by
  cases h with
  | keep => rfl
  | @join front front' rest first row _ _ _ hfront hrow =>
    rw [tokensAll_append, tokensAll_append, tokensAll, tokensAll, directivesIn_append,
      directivesIn_append, directivesIn_append, directivesIn_append,
      directivesIn_tidied (fun t ht => hsound t (List.mem_append_left _ ht)) hfront,
      tokens_withLead row first (hsound first (by simp)), directivesIn_relead hrow]

theorem directivesIn_joinsTrailing {may : Prop} {items items' : List Tree}
    {closing closing' : Token} (hsound : ∀ t ∈ items, t.isSound = true)
    (h : JoinsTrailing may items closing items' closing') :
    directivesIn (tokensAll items' ++ [closing']) =
      directivesIn (tokensAll items ++ [closing]) := by
  cases h with
  | keep => rfl
  | @join init back back' object _ row _ _ _ hback hrow =>
    have hclosing : directivesIn [{ closing with trivia := row }] =
      directivesIn [closing] := by
      show directivesIn (relead row [closing]) = directivesIn [closing]
      exact directivesIn_relead hrow
    rw [tokensAll_append, tokensAll_append, tokensAll, tokensAll, directivesIn_append,
      directivesIn_append, directivesIn_append, directivesIn_append, directivesIn_append,
      directivesIn_append, directivesIn_tidied (fun t ht => hsound t (by simp [ht]))
        hback, hclosing]

theorem directivesIn_allPassed {ts ts' : List Tree}
    (h : ∀ t ∈ ts, ∀ start t', Passed joins start t t' →
      directivesIn t'.tokens = directivesIn t.tokens)
    {start : Nat} (hts : AllPassed joins start ts ts') :
    directivesIn (tokensAll ts') = directivesIn (tokensAll ts) := by
  induction ts generalizing start ts' with
  | nil =>
    obtain rfl : ts' = [] := hts
    rfl
  | cons t ts ih =>
    obtain ⟨t', r, rfl, ht, hr⟩ := hts
    rw [tokensAll, tokensAll, directivesIn_append, directivesIn_append,
      h t List.mem_cons_self _ _ ht, ih (fun u hu => h u (List.mem_cons_of_mem t hu)) hr]

/-- A pass keeps the directives. -/
theorem directivesIn_passed (t : Tree) (ht : t.isSound = true) :
    ∀ (start : Nat) (t' : Tree),
    Passed joins start t t' → directivesIn t'.tokens = directivesIn t.tokens := by
  induction t using induct with
  | leaf s =>
    intro start t' h
    rw [show t' = leaf s from h]
  | node kind parts ih =>
    have hparts := areSound_iff.1 ht
    rintro start _ ⟨parts', rfl, h⟩
    exact directivesIn_allPassed (fun t htm => ih t htm (hparts t htm)) h
  | call callee types opening items closing hcallee htypes hitems =>
    have hcall := soundCall ht
    have htypesSound := areSound_iff.1 hcall.typesSound
    have hareItems := areItems_of_soundCall ht
    rintro start _ ⟨callee', types', items₁, items₂, items', closing', rfl, hpc,
      hpt, hpi, hpl, hpr⟩
    have hareItems₁ := areItems_allPassed
      (fun t htm => isSound_passed t (hareItems t htm).1) hareItems hpi
    have hareItems₂ := areItems_joinsLeading hpl hareItems₁
    have hrow : directivesIn (tokensAll items' ++ [closing']) =
        directivesIn (tokensAll items ++ [closing]) := by
      rw [directivesIn_joinsTrailing (fun t htm => (hareItems₂ t htm).1) hpr,
        directivesIn_append,
        directivesIn_joinsLeading (fun t htm => (hareItems₁ t htm).1) hpl,
        directivesIn_allPassed (fun t htm => hitems t htm (hareItems t htm).1) hpi,
        ← directivesIn_append]
    rw [tokens, tokens, directivesIn_append, directivesIn_append, directivesIn_append,
      directivesIn_append, directivesIn_cons, directivesIn_cons, hrow,
      hcallee hcall.calleeSound start callee' hpc,
      directivesIn_allPassed (fun t htm => htypes t htm (htypesSound t htm)) hpt]

end Passed

/-! ### Views after a pass -/

theorem tokens_ne_nil_of_callAt (c : CallAt) : c.tree.tokens ≠ [] := by
  simp [CallAt.tree, tokens]

/-- The directives in a row of tokens are those in front and those behind. -/
theorem directivesIn_eq (ts : List Token) :
    directivesIn ts = directives (rowStretches (leadOf ts)) ++
    directives (solidStretches ts) := by
  rw [directivesIn, stretches_eq, directives_append]

/-- In a tree without directives that starts where all is calm, all is calm. -/
theorem view_calm {t : Tree} {before : List Token}
    (hwatch : calm.across (stretches before ++ rowStretches t.lead) = calm)
    (hquiet : directives (solidStretches t.tokens) = []) {c : CallAt}
    (hc : c ∈ calls before t) :
    calm.across c.front = calm ∧ directives c.inside = [] := by
  obtain ⟨inner, after, hbefore, htokens⟩ := exists_append_of_mem_calls t before c hc
  have hne := tokens_ne_nil_of_callAt c
  rcases inner with - | ⟨s, ss⟩
  · rw [List.nil_append] at htokens
    rw [List.append_nil] at hbefore
    have hlead : t.lead = c.tree.lead := by
      rw [lead, htokens, leadOf_append hne]
      rfl
    have hsolid : solidStretches t.tokens = c.inside ++ stretches after := by
      rw [htokens, CallAt.inside]
      rcases hs : c.tree.tokens with - | ⟨s, ss⟩
      · exact absurd hs hne
      · simp [solidStretches, stretches_append]
    rw [hsolid, directives_append, List.append_eq_nil_iff] at hquiet
    exact ⟨by rw [CallAt.front, hbefore, ← hlead, hwatch], hquiet.1⟩
  · have hlead : t.lead = s.trivia := by
      rw [lead, htokens]
      rfl
    have hsolid : solidStretches t.tokens = solidStretches (s :: ss) ++
        (rowStretches c.tree.lead ++ (c.inside ++ stretches after)) := by
      rw [htokens, CallAt.inside, lead, ← List.append_assoc (rowStretches _),
        ← stretches_eq]
      simp [solidStretches, stretches_append]
    have hfront : c.front = (stretches before ++ rowStretches t.lead) ++
        (solidStretches (s :: ss) ++ rowStretches c.tree.lead) := by
      rw [CallAt.front, hbefore, stretches_append, stretches_eq (s :: ss), hlead]
      simp [leadOf]
    rw [hsolid, directives_append, directives_append, directives_append,
      List.append_eq_nil_iff, List.append_eq_nil_iff, List.append_eq_nil_iff] at hquiet
    refine ⟨?_, hquiet.2.2.1⟩
    rw [hfront, across_append, hwatch, across_calm]
    rw [directives_append, hquiet.1, hquiet.2.1, List.append_nil]

theorem loud_of_calm {target : Target} {t : Tree} {before : List Token}
    (hwatch : calm.across (stretches before ++ rowStretches t.lead) = calm)
    (hquiet : directives (solidStretches t.tokens) = []) :
    loud target (calls before t) = [] := by
  rw [loud, List.filter_eq_nil_iff]
  intro v hv
  obtain ⟨c, hc, rfl⟩ := List.mem_map.1 hv
  simp [CallAt.isCalm_view.2 (view_calm hwatch hquiet hc)]

section Passed

variable {target : Target} {joins : Site → Side → Prop}

/-- Holds if zones are joined only of calls in which all is calm. -/
def JoinsCalm (joins : Site → Side → Prop) (cs : List CallAt) : Prop :=
  ∀ c ∈ cs, ∀ side, joins c.site side → calm.across c.front = calm ∧
    directives c.inside = []

theorem joinsCalm_append {a b : List CallAt} :
    JoinsCalm joins (a ++ b) ↔ JoinsCalm joins a ∧ JoinsCalm joins b :=
  List.forall_mem_append

/-- Behind texts after which the watch is the same, a pass over the tree changes
neither the watch nor the views that are not calm. -/
def KeepsLoud (target : Target) (joins : Site → Side → Prop) (t : Tree) : Prop :=
  ∀ {before before' : List Token} {t' : Tree},
    calm.across (stretches before') = calm.across (stretches before) →
    JoinsCalm joins (calls before t) →
    Passed joins (byteLength (tokensSource before)) t t' →
    calm.across (stretches (before' ++ t'.tokens)) =
      calm.across (stretches (before ++ t.tokens)) ∧
      loud target (calls before' t') = loud target (calls before t)

theorem loud_allPassed {ts ts' : List Tree} (h : ∀ t ∈ ts, KeepsLoud target joins t)
    {before before' : List Token}
    (hwatch : calm.across (stretches before') = calm.across (stretches before))
    (hjoins : JoinsCalm joins (callsAll before ts))
    (hpassed : AllPassed joins (byteLength (tokensSource before)) ts ts') :
    calm.across (stretches (before' ++ tokensAll ts')) =
      calm.across (stretches (before ++ tokensAll ts)) ∧
      loud target (callsAll before' ts') = loud target (callsAll before ts) := by
  induction ts generalizing before before' ts' with
  | nil =>
    obtain rfl : ts' = [] := hpassed
    exact ⟨by rwa [tokensAll, List.append_nil, List.append_nil], rfl⟩
  | cons t ts ih =>
    obtain ⟨t', r, rfl, ht, hr⟩ := hpassed
    rw [callsAll, joinsCalm_append] at hjoins
    obtain ⟨hwatch', hloud⟩ := h t List.mem_cons_self hwatch hjoins.1 ht
    rw [width_eq, ← tokensSource_tokens t, ← byteLength_append,
      ← tokensSource_append] at hr
    obtain ⟨hwatch'', hloud'⟩ :=
      ih (fun u hu => h u (List.mem_cons_of_mem t hu)) hwatch' hjoins.2 hr
    refine ⟨?_, ?_⟩
    · rw [tokensAll, tokensAll, ← List.append_assoc, ← List.append_assoc, hwatch'']
    · rw [callsAll, callsAll, loud_append, loud_append, hloud, hloud']

theorem across_stretches_append (ts : List Token) {before before' : List Token}
    (hwatch : calm.across (stretches before') = calm.across (stretches before)) :
    calm.across (stretches (before' ++ ts)) = calm.across (stretches (before ++ ts)) := by
  rw [stretches_append, stretches_append, across_append, across_append, hwatch]

/-- A pass that joins zones only where all is calm keeps the views that are not
calm. -/
theorem keepsLoud (htarget : target.endsPlainly = true) (t : Tree) (ht : t.isSound = true)
    (hopen : t.opensPlainly = true) : KeepsLoud target joins t := by
  induction t using induct with
  | leaf s =>
    intro before before' t' hwatch _ hpassed
    rw [show t' = leaf s from hpassed]
    exact ⟨across_stretches_append _ hwatch, rfl⟩
  | node kind parts ih =>
    have hsound := areSound_iff.1 ht
    have hopens := allOpenPlainly_iff.1 hopen
    rintro before before' _ hwatch hjoins ⟨parts', rfl, hpassed⟩
    exact loud_allPassed (fun t htm => ih t htm (hsound t htm) (hopens t htm))
      hwatch hjoins hpassed
  | call callee types opening items closing hcallee htypes hitems =>
    intro before before' t' hwatch hjoins hpassed
    have hsound' := isSound_passed _ ht _ _ hpassed
    have hfirst := lead_of_firstToken ht hsound' (firstToken_passed _ _ _ hpassed)
    have hdirectives := directivesIn_passed _ ht _ _ hpassed
    rw [directivesIn_eq, directivesIn_eq, ← lead, ← lead, hfirst.1] at hdirectives
    have hinside := List.append_cancel_left hdirectives
    have hfront : calm.across (stretches before' ++ rowStretches t'.lead) =
        calm.across (stretches before ++
          rowStretches (call callee types opening items closing).lead) := by
      rw [hfirst.1, across_append, across_append, hwatch]
    rw [calls, ← List.singleton_append, joinsCalm_append] at hjoins
    by_cases hcalm : calm.across (stretches before ++
        rowStretches (call callee types opening items closing).lead) = calm ∧
          directives (solidStretches
            (call callee types opening items closing).tokens) = []
    · -- all is calm here, before the pass and after
      have hacross {before : List Token} {t : Tree}
          (hfront : calm.across (stretches before ++ rowStretches t.lead) = calm)
          (hinside : directives (solidStretches t.tokens) = []) :
          calm.across (stretches (before ++ t.tokens)) = calm := by
        rw [stretches_append, stretches_eq t.tokens, ← lead, ← List.append_assoc,
          across_append, hfront, across_calm hinside]
      rw [hcalm.1] at hfront
      rw [hcalm.2] at hinside
      rw [hacross hfront hinside, hacross hcalm.1 hcalm.2, loud_of_calm hfront hinside,
        loud_of_calm hcalm.1 hcalm.2]
      exact ⟨rfl, rfl⟩
    · -- the zones of this call are left alone
      obtain ⟨callee', types', items₁, items₂, items', closing', rfl, hpc, hpt, hpi,
          hpl, hpr⟩ := hpassed
      have hnone (side : Side) :
          ¬ joins (Site.ofParts (byteLength (tokensSource before)) callee types
          opening items closing) side :=
        fun hjoin => hcalm (hjoins.1 _ (List.mem_singleton_self _) side hjoin)
      obtain rfl : items₂ = items₁ := by
        cases hpl with
        | keep => rfl
        | join hmay => exact absurd hmay (hnone .leading)
      obtain ⟨rfl, rfl⟩ : items' = items₂ ∧ closing' = closing := by
        cases hpr with
        | keep => exact ⟨rfl, rfl⟩
        | join hmay => exact absurd hmay (hnone .trailing)
      have hcall := soundCall ht
      have hareItems := areItems_of_soundCall ht
      have htypesSound := areSound_iff.1 hcall.typesSound
      obtain ⟨hparen, hopenCallee, hopenTypes, hopenItems⟩ := opensPlainly_call.1 hopen
      rw [allOpenPlainly_iff] at hopenTypes hopenItems
      have hview :
          CallAt.view target ⟨before', callee', types', opening, items', closing'⟩ =
          CallAt.view target ⟨before, callee, types, opening, items, closing'⟩ := by
        have hsides :=
          violatedSides_passed htarget hcall (soundCall hsound') hparen hpc hpi
        have hmends : callMends (target.covers callee'.solid) items' closing' =
            callMends (target.covers callee.solid) items closing' := by
          rw [covers_passed htarget hcall.calleeSound hpc,
            callMends_passed _ (fun t htm => (hareItems t htm).1) hpi]
        show View.mk _ _ _ (List.isEmpty _) = View.mk _ _ _ (List.isEmpty _)
        exact View.mk.injEq .. ▸ ⟨hsides, hmends, hfront, congrArg List.isEmpty hinside⟩
      rw [joinsCalm_append, joinsCalm_append] at hjoins
      obtain ⟨-, hjoinsCallee, hjoinsTypes, hjoinsItems⟩ := hjoins
      obtain ⟨hwatch₁, hloud₁⟩ :=
        hcallee hcall.calleeSound hopenCallee hwatch hjoinsCallee hpc
      rw [width_eq, ← tokensSource_tokens callee, ← byteLength_append,
        ← tokensSource_append] at hpt
      obtain ⟨hwatch₂, hloud₂⟩ := loud_allPassed
        (fun t htm => htypes t htm (htypesSound t htm) (hopenTypes t htm)) hwatch₁
          hjoinsTypes hpt
      have hwatch₃ := across_stretches_append [opening] hwatch₂
      obtain ⟨hwatch₄, hloud₄⟩ := loud_allPassed
        (fun t htm => hitems t htm (hareItems t htm).1 (hopenItems t htm))
        (by simpa using hwatch₃) hjoinsItems
        (by simpa [width_eq, widthAll_eq, width_token, tokensSource_tokens,
          tokensSource_tokensAll,
          Nat.add_assoc] using hpi)
      refine ⟨?_, ?_⟩
      · have hwatch₅ := across_stretches_append [closing'] hwatch₄
        simpa [tokens] using hwatch₅
      · rw [calls, calls, loud_cons, loud_cons target ⟨before, _, _, _, _, _⟩,
          loud_append, loud_append, loud_append, loud_append, hloud₁, hloud₂, hloud₄]
        refine congrArg (· ++ _) ?_
        rw [loud, loud, List.map_singleton, List.map_singleton, hview]

end Passed

end Script.Tree

end AnimLint
