/-
AnimLint/Proofs/CommentOrder.lean

What the order in which comments are met means for the lines they silence.

Comments are kept by the place they are attached to, in two maps that list their
places in any order, and one comment may stand in both.  Directives are then
sorted by their lines alone, so those of one line stay in the order in which
they were met.  That matters for one pair only: of a `disable` and an `enable`
on one line, the one met last is in force behind it.

So the state on a line is told by the last line up to it that opens or closes a
stretch (`exists_last_toggle`), and as long as the directives of that line are
of one kind (`Settled`) it does not depend on the order or on how often a
comment is met (`covers_eq_of_mem_iff`).  The main result is that all visits of
the same maps silence the same lines (`Attached.covers_eq_of_visits`); without
the condition two visits can differ (`visits_disagree`).

A text is settled if the lines are on which its violations would be reported
(`Reader.Settled`).  Then all visits find the same in it (`findings_visit`).
-/
import AnimLint.Check
import AnimLint.Proofs.Lines
import AnimLint.Proofs.Silencing
import Mathlib.Data.List.Basic
import Mathlib.Data.List.Induction

namespace AnimLint

open Text Script

/-! ### The directive in force -/

/-- Holds of the directives that open or close a stretch of silence. -/
def Directive.toggles : Directive → Bool
  | .disable | .enable => true
  | .disableNextLine => false

namespace Silence

/-- A directive behind all others decides, unless it stands beyond the line or
names the next line only. -/
theorem inForce_concat (line : Nat) (ds : List (Nat × Directive)) (d : Nat × Directive) :
    inForce false (upTo line (ds ++ [d])) =
      if d.2.toggles = true ∧ d.1 ≤ line then d.2 == .disable
      else inForce false (upTo line ds) := by
  rw [upTo_append, inForce_append, upTo_cons]
  obtain ⟨n, directive⟩ := d
  by_cases h : n ≤ line <;> cases directive <;> simp [h, Directive.toggles, upTo, inForce]

/-- Whether a stretch is open on a line is told by the last directive up to it
that opens or closes one; without any, none is. -/
theorem exists_last_toggle (line : Nat) {ds : List (Nat × Directive)}
    (hsorted : ds.Pairwise fun a b => a.1 ≤ b.1) :
    (∀ d ∈ ds, d.2.toggles = true → line < d.1) ∧ inForce false (upTo line ds) = false ∨
      ∃ d ∈ ds, d.2.toggles = true ∧ d.1 ≤ line ∧
        (∀ e ∈ ds, e.2.toggles = true → e.1 ≤ line → e.1 ≤ d.1) ∧
        inForce false (upTo line ds) = (d.2 == .disable) := by
  induction ds using List.reverseRecOn with
  | nil => exact .inl ⟨by simp, rfl⟩
  | append_singleton ds d ih =>
    obtain ⟨hds, -, hd⟩ := List.pairwise_append.1 hsorted
    rw [inForce_concat]
    split
    · next htells =>
      refine .inr ⟨d, by simp, htells.1, htells.2, fun e he _ _ => ?_, rfl⟩
      rcases List.mem_append.1 he with he | he
      · exact hd e he d List.mem_cons_self
      · exact Nat.le_of_eq (congrArg Prod.fst (List.mem_singleton.1 he))
    · next htells =>
      -- such a directive is none of those asked about
      have hmem {e} (he : e ∈ ds ++ [d]) (htoggles : e.2.toggles = true)
          (hle : e.1 ≤ line) :
          e ∈ ds := by
        rcases List.mem_append.1 he with he | he
        · exact he
        · obtain rfl := List.mem_singleton.1 he
          exact absurd ⟨htoggles, hle⟩ htells
      rcases ih hds with ⟨hnone, hoff⟩ | ⟨e, he, htoggles, hle, hmax, hstate⟩
      · refine .inl ⟨fun e he htoggles => Nat.lt_of_not_le fun hle => ?_, hoff⟩
        have := hnone e (hmem he htoggles hle) htoggles
        omega
      · exact .inr ⟨e, List.mem_append_left _ he, htoggles, hle,
          fun e he ht hle => hmax e (hmem he ht hle) ht hle, hstate⟩

/-- Holds if no two directives that contradict each other decide about a line: a
line up to it that holds both a `disable` and an `enable` is followed by one,
still up to it, that holds either. -/
def Settled (line : Nat) (ds : List (Nat × Directive)) : Prop :=
  ∀ n ≤ line, (n, .disable) ∈ ds → (n, .enable) ∈ ds →
    ∃ m, n < m ∧ m ≤ line ∧ ((m, .disable) ∈ ds ∨ (m, .enable) ∈ ds)

/-- Whether `Settled` holds, told from the directives that there are. -/
def isSettled (line : Nat) (ds : List (Nat × Directive)) : Bool :=
  ds.all fun d => d.2 != .disable || !ds.contains (d.1, .enable) || line < d.1 ||
    ds.any fun e => e.2.toggles && decide (d.1 < e.1) && decide (e.1 ≤ line)

theorem isSettled_iff {line : Nat} {ds : List (Nat × Directive)} :
    isSettled line ds = true ↔ Settled line ds := by
  simp only [isSettled, List.all_eq_true, List.any_eq_true, List.contains_iff_mem,
    Bool.or_eq_true, Bool.and_eq_true, Bool.not_eq_true', decide_eq_true_eq,
    bne_iff_ne, ← Bool.not_eq_true]
  constructor
  · intro h n hn hdisable henable
    rcases h _ hdisable with ((hne | hne) | hlt) | ⟨⟨m, e⟩, he, ⟨htoggles, hlt⟩, hle⟩
    · exact absurd rfl hne
    · exact absurd henable hne
    · exact absurd hlt (Nat.not_lt.2 hn)
    · cases e with
      | disable => exact ⟨m, hlt, hle, .inl he⟩
      | enable => exact ⟨m, hlt, hle, .inr he⟩
      | disableNextLine => cases htoggles
  · rintro h ⟨n, d⟩ hd
    by_cases hne : d = .disable ∧ (n, .enable) ∈ ds ∧ n ≤ line
    · obtain ⟨rfl, henable, hn⟩ := hne
      obtain ⟨m, hlt, hle, hm | hm⟩ := h n hn hd henable
      · exact .inr ⟨_, hm, ⟨rfl, hlt⟩, hle⟩
      · exact .inr ⟨_, hm, ⟨rfl, hlt⟩, hle⟩
    · left
      by_contra hnone
      simp only [not_or, not_not] at hnone
      exact hne ⟨hnone.1.1, hnone.1.2, Nat.not_lt.1 hnone.2⟩

instance (line : Nat) (ds : List (Nat × Directive)) : Decidable (Settled line ds) :=
  decidable_of_iff (isSettled line ds = true) isSettled_iff

/-- Directives are settled for every line if no line holds two that contradict
each other. -/
theorem settled_of_apart {ds : List (Nat × Directive)}
    (h : ∀ n, (n, .disable) ∈ ds → (n, .enable) ∉ ds) (line : Nat) : Settled line ds :=
  fun n _ hdisable henable => absurd henable (h n hdisable)

/-- Holds if no line holds both a `disable` and an `enable`. -/
def areApart (ds : List (Nat × Directive)) : Bool :=
  ds.all fun d => d.2 != .disable || !ds.contains (d.1, .enable)

theorem settled_of_areApart {ds : List (Nat × Directive)} (h : areApart ds = true)
    (line : Nat) : Settled line ds := by
  refine settled_of_apart (fun n hdisable henable => ?_) line
  have hline := List.all_eq_true.1 h _ hdisable
  simp [henable] at hline

/-- Of two sorted lists of the same directives the same stretches are open on a
settled line. -/
theorem inForce_eq_of_mem_iff {line : Nat} {ds es : List (Nat × Directive)}
    (hds : ds.Pairwise fun a b => a.1 ≤ b.1) (hes : es.Pairwise fun a b => a.1 ≤ b.1)
    (hmem : ∀ d, d ∈ ds ↔ d ∈ es) (hsettled : Settled line ds) :
    inForce false (upTo line ds) = inForce false (upTo line es) := by
  rcases exists_last_toggle line hds with ⟨hnone, hoff⟩ |
      ⟨d, hd, hdt, hdle, hdmax, hdstate⟩
  · rcases exists_last_toggle line hes with ⟨-, hoff'⟩ | ⟨e, he, het, hele, -, -⟩
    · rw [hoff, hoff']
    · have := hnone e ((hmem e).2 he) het
      omega
  rcases exists_last_toggle line hes with ⟨hnone, -⟩ | ⟨e, he, het, hele, hemax, hestate⟩
  · have := hnone d ((hmem d).1 hd) hdt
    omega
  have hline : d.1 = e.1 :=
    Nat.le_antisymm (hemax d ((hmem d).1 hd) hdt hdle) (hdmax e ((hmem e).2 he) het hele)
  -- a later toggle up to the line would contradict that `d` is a last one
  have hfirm (hdisable : (d.1, Directive.disable) ∈ ds)
      (henable : (d.1, Directive.enable) ∈ ds) :
      False := by
    obtain ⟨m, hlt, hle, hm | hm⟩ := hsettled d.1 hdle hdisable henable
    · have := hdmax _ hm rfl hle
      omega
    · have := hdmax _ hm rfl hle
      omega
  have he' : (d.1, e.2) ∈ ds := by
    rw [hline]
    exact (hmem e).2 he
  rw [hdstate, hestate]
  obtain ⟨n, directive⟩ := d
  obtain ⟨m, directive'⟩ := e
  cases directive with
  | disableNextLine => cases hdt
  | disable =>
    cases directive' with
    | disableNextLine => cases het
    | disable => rfl
    | enable => exact (hfirm hd he').elim
  | enable =>
    cases directive' with
    | disableNextLine => cases het
    | disable => exact (hfirm he' hd).elim
    | enable => rfl

/-! ### Directives in any order -/

/-- Directives in the order in which they are taken: by line, those of one line
as they were met. -/
def inOrder (ds : List (Nat × Directive)) : List (Nat × Directive) :=
  sortBy (fun a b => decide (a.1 ≤ b.1)) ds

theorem pairwise_inOrder (ds : List (Nat × Directive)) :
    (inOrder ds).Pairwise fun a b => a.1 ≤ b.1 :=
  (pairwise_sortBy (fun a b => by simp only [decide_eq_true_eq]; omega)
    (fun a b c hab hbc => by simp only [decide_eq_true_eq] at *; omega) ds).imp
      of_decide_eq_true

theorem mem_inOrder {ds : List (Nat × Directive)} {d : Nat × Directive} :
    d ∈ inOrder ds ↔ d ∈ ds :=
  (sortBy_perm _ ds).mem_iff

/-- Directives silence what they do once they are sorted. -/
theorem ofDirectives_inOrder (ds : List (Nat × Directive)) :
    ofDirectives (inOrder ds) = ofDirectives ds := by
  rw [ofDirectives, ofDirectives, sortBy_of_sorted]
  · rfl
  · exact (pairwise_inOrder ds).imp decide_eq_true

/-- Two lists of the same directives silence the same settled lines, in whatever
order and however often each of them comes. -/
theorem covers_eq_of_mem_iff {line : Nat} {ds es : List (Nat × Directive)}
    (hmem : ∀ d, d ∈ ds ↔ d ∈ es) (hpos : ∀ d ∈ ds, 0 < d.1)
    (hsettled : Settled line ds) :
    (ofDirectives ds).covers line = (ofDirectives es).covers line := by
  have hmem' (d : Nat × Directive) : d ∈ inOrder ds ↔ d ∈ inOrder es := by
    rw [mem_inOrder, mem_inOrder, hmem]
  have hsettled' : Settled line (inOrder ds) := by
    simpa only [Settled, mem_inOrder] using hsettled
  rw [← ofDirectives_inOrder ds, ← ofDirectives_inOrder es,
    covers_ofDirectives line (pairwise_inOrder ds) fun d hd => hpos d (mem_inOrder.1 hd),
    covers_ofDirectives line (pairwise_inOrder es) fun d hd =>
      hpos d ((hmem d).2 (mem_inOrder.1 hd)),
    inForce_eq_of_mem_iff (pairwise_inOrder ds) (pairwise_inOrder es) hmem' hsettled']
  congr 1
  rw [Bool.eq_iff_iff, List.any_eq_true, List.any_eq_true]
  exact exists_congr fun d => and_congr_left fun _ => hmem' d

end Silence

/-! ### Comments by place -/

/-- Every place lies on a line. -/
theorem lineAt_pos (s : List Char) (n : Nat) : 0 < lineAt s n :=
  Nat.lt_of_lt_of_le (by rw [lineAt_zero]; exact Nat.one_pos)
    (lineAt_mono s (Nat.zero_le n))

theorem pos_of_mem_directivesOf {body : List Char} {comments : List Comment}
    {d : Nat × Directive}
    (h : d ∈ directivesOf body comments) : 0 < d.1 := by
  obtain ⟨c, -, hc⟩ := List.mem_filterMap.1 h
  obtain ⟨directive, -, rfl⟩ := Option.map_eq_some_iff.1 hc
  exact lineAt_pos body c.start

/-- The same comments hold the same directives. -/
theorem mem_directivesOf_congr {body : List Char} {a b : List Comment}
    (h : ∀ c, c ∈ a ↔ c ∈ b) (d : Nat × Directive) :
    d ∈ directivesOf body a ↔ d ∈ directivesOf body b := by
  simp only [directivesOf, List.mem_filterMap, h]

/-- The comments of a text by the place they are attached to, in front of what
stands there or behind it: the entries of two maps, in one of the orders they
may be listed in. -/
structure Attached where
  leading : List (Nat × List Comment)
  trailing : List (Nat × List Comment)

namespace Attached

/-- Holds of the orders in which the comments may be met: first those in front
of something, then those behind something, the places of each map in any
order. -/
def Visits (attached : Attached) (order : List Comment) : Prop :=
  ∃ leading trailing : List (Nat × List Comment),
    leading.Perm attached.leading ∧ trailing.Perm attached.trailing ∧
      order = (leading ++ trailing).flatMap (·.2)

/-- The comments of the two maps as they are listed. -/
def comments (attached : Attached) : List Comment :=
  (attached.leading ++ attached.trailing).flatMap (·.2)

theorem visits_comments (attached : Attached) : attached.Visits attached.comments :=
  ⟨attached.leading, attached.trailing, .refl _, .refl _, rfl⟩

/-- Every visit meets the same comments. -/
theorem Visits.perm {attached : Attached} {a b : List Comment} (ha : attached.Visits a)
    (hb : attached.Visits b) : a.Perm b := by
  obtain ⟨leading, trailing, hleading, htrailing, rfl⟩ := ha
  obtain ⟨leading', trailing', hleading', htrailing', rfl⟩ := hb
  exact ((hleading.append htrailing).trans
    (hleading'.append htrailing').symm).flatMap_right _

/-- All visits of the comments of a text silence the same lines, as long as no
`disable` and `enable` on one line decide about them. -/
theorem covers_eq_of_visits {attached : Attached} {a b : List Comment}
    (ha : attached.Visits a)
    (hb : attached.Visits b) {body : List Char} {line : Nat}
    (hsettled : Silence.Settled line (directivesOf body a)) :
    (Silence.ofDirectives (directivesOf body a)).covers line =
      (Silence.ofDirectives (directivesOf body b)).covers line :=
  Silence.covers_eq_of_mem_iff (mem_directivesOf_congr fun _ => (ha.perm hb).mem_iff)
    (fun _ => pos_of_mem_directivesOf) hsettled

/-- A `disable` on the first line and an `enable` on the second, met in either
order. -/
theorem covers_eq_of_visits_two_lines :
    let body := "/* tweenlint-disable */ f()\n/* tweenlint-enable */ g()".toList
    let off : Comment := ⟨0, .blockComment, "/* tweenlint-disable */".toList⟩
    let on : Comment := ⟨28, .blockComment, "/* tweenlint-enable */".toList⟩
    let attached : Attached := ⟨[(24, [off])], [(27, [on]), (23, [off])]⟩
    attached.Visits [off, on, off] ∧ attached.Visits [off, off, on] ∧
      Silence.Settled 2 (directivesOf body [off, on, off]) ∧
      (Silence.ofDirectives (directivesOf body [off, on, off])).covers 2 =
        (Silence.ofDirectives (directivesOf body [off, off, on])).covers 2 := by
  intro body off on attached
  have ha : attached.Visits [off, on, off] :=
    ⟨attached.leading, attached.trailing, .refl _, .refl _, rfl⟩
  have hb : attached.Visits [off, off, on] :=
    ⟨attached.leading, [(23, [off]), (27, [on])], .refl _, .swap _ _ _, rfl⟩
  have hsettled : Silence.Settled 2 (directivesOf body [off, on, off]) :=
    Silence.settled_of_areApart (by decide) 2
  exact ⟨ha, hb, hsettled, covers_eq_of_visits ha hb hsettled⟩

/-- An `enable` and a `disable` on one line: what is met last is in force on
every line behind. -/
theorem visits_disagree :
    let body := "[/* tweenlint-enable */ a, /* tweenlint-disable */ b];\n".toList
    let on : Comment := ⟨1, .blockComment, "/* tweenlint-enable */".toList⟩
    let off : Comment := ⟨27, .blockComment, "/* tweenlint-disable */".toList⟩
    let attached : Attached := ⟨[(24, [on]), (51, [off])], []⟩
    ¬ ∀ a b, attached.Visits a → attached.Visits b → ∀ line,
      (Silence.ofDirectives (directivesOf body a)).covers line =
        (Silence.ofDirectives (directivesOf body b)).covers line := by
  intro body on off attached hall
  have hline := hall [on, off] [off, on] ⟨attached.leading, [], .refl _, .refl _, rfl⟩
    ⟨[(51, [off]), (24, [on])], [], .swap _ _ _, .refl _, rfl⟩ 2
  revert hline
  decide

end Attached

/-- Each way to go over the comments by place is an order in which a check may
meet them. -/
theorem exists_visit {attached : Attached} {a : List Comment}
    (ha : attached.Visits a) {tree : Tree}
    (hmem : ∀ c, c ∈ tree.comments ↔ c ∈ attached.comments) :
    ∃ visit : Visit, ∀ file, visit.order file tree = a := by
  classical
  let order (t : Tree) : List Comment := if t = tree then a else t.comments
  refine ⟨⟨fun _ t => order t, fun {file t c} => ?_⟩, fun file => if_pos rfl⟩
  by_cases h : t = tree
  · subst h
    show c ∈ order t ↔ _
    rw [show order t = a from if_pos rfl, hmem,
      (ha.perm attached.visits_comments).mem_iff]
  · show c ∈ order t ↔ _
    rw [show order t = t.comments from if_neg h]

/-- On a settled line all visits of a script silence the same. -/
theorem covers_ofComments (visit : Visit) (file : String) {body : List Char}
    {tree : Tree} {line : Nat}
    (h : Silence.Settled line (directivesOf body tree.comments)) :
    (Silence.ofComments body (visit.order file tree)).covers line =
      (silenceOf body tree).covers line :=
  (Silence.covers_eq_of_mem_iff (mem_directivesOf_congr fun _ => visit.mem_order.symm)
    (fun _ => pos_of_mem_directivesOf) h).symm

/-! ### Settled texts -/

/-- Holds if the lines are settled that decide about the violations in a text:
the line on which a violation would be reported and the one on which its call
starts. -/
def SettledIn (target : Target) (text : List Char) (tree : Tree) : Prop :=
  ∀ site ∈ tree.sites 0, ∀ v ∈ violations target text site.call,
    let body := dropMark text
    let directives := directivesOf body tree.comments
    Silence.Settled (reportLines body site.call v.side).1 directives ∧
      Silence.Settled (lineAt body site.call.span.start) directives

/-- Holds if a text is settled, provided that it can be read. -/
def Script.Reader.Settled (reader : Reader) (target : Target) (file : String)
    (text : List Char) : Prop :=
  ∀ tree, reader.parseFile file text = .ok tree → SettledIn target text tree

/-- Holds if no line of a text holds both a `disable` and an `enable`, provided
that it can be read. -/
def Script.Reader.isApart (reader : Reader) (file : String) (text : List Char) : Bool :=
  (reader.parseFile file text).toOption.all fun tree =>
    Silence.areApart (directivesOf (dropMark text) tree.comments)

section Settled

variable {reader : Reader} {target : Target} {file : String} {text : List Char}
  {tree : Tree}

/-- A text is settled if no line of it holds both a `disable` and an
`enable`. -/
theorem settled_of_isApart (h : reader.isApart file text = true) :
    reader.Settled target file text := by
  intro tree hparse
  rw [Reader.isApart, hparse] at h
  have happart := Silence.settled_of_areApart h
  exact fun _ _ _ _ => ⟨happart _, happart _⟩

/-- Which violations are silenced in a settled text does not depend on the
visit. -/
theorem SettledIn.isSilenced_eq (h : SettledIn target text tree) (visit : Visit)
    {site : Site} (hsite : site ∈ tree.sites 0) {v : Violation}
    (hv : v ∈ violations target text site.call) :
    isSilenced (.ofComments (dropMark text) (visit.order file tree)) (dropMark text)
      site.call v.side =
      isSilenced (silenceOf (dropMark text) tree) (dropMark text) site.call v.side := by
  obtain ⟨hreport, hstart⟩ := h site hsite v hv
  rw [isSilenced, isSilenced, covers_ofComments visit file hreport,
    covers_ofComments visit file hstart]

theorem treeFindings_visit (h : SettledIn target text tree) (visit visit' : Visit)
    (file : String) :
    treeFindings visit target file text tree =
      treeFindings visit' target file text tree := by
  rw [treeFindings, treeFindings]
  refine List.flatMap_congr fun site hsite => ?_
  rw [siteFindings, siteFindings]
  congr 1
  refine List.filter_congr fun v hv => ?_
  rw [h.isSilenced_eq visit hsite hv, h.isSilenced_eq visit' hsite hv]

/-- In a settled text all visits find the same. -/
theorem findings_visit (h : reader.Settled target file text) (visit visit' : Visit) :
    reader.findings visit target file text = reader.findings visit' target file text := by
  rw [Reader.findings, Reader.findings]
  rcases hparse : reader.parseFile file text with e | tree
  · rfl
  · exact congrArg Except.ok (treeFindings_visit (h tree hparse) visit visit' file)

end Settled

end AnimLint
