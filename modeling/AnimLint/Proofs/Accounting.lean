/-
AnimLint/Proofs/Accounting.lean

Every edit that a check offers is applied once, or is still offered at the end.
With each edit that a pass applies there is one zone less that can be mended
(`Tree.rewritable`), and where the directives stand apart from the calls with a
violation the zones that are silenced stay the same.  So of the edits that a
check offers a pass takes away as many as it applies, and over all passes the
edits offered at first are those applied and those left (`repairIn_accounts`,
`Regular.repair_accounts`).

Of the reader it is asked that it reads the script back however often its
arguments are respaced (`Reader.ReadsRespaced`), as one does that ignores
spacing.
-/
import AnimLint.Proofs.Hidden
import Mathlib.Algebra.BigOperators.Group.List.Basic

namespace AnimLint

open Text Script Silence Watch

/-! ### The edits of a call -/

namespace Script.Tree

variable {target : Target} {callee first : Tree}
  {types items front middle back : List Tree} {opening closing : Token}

theorem length_edits (zone : Zone) : zone.edits.length = zoneMends true zone.pieces := by
  have hmended : zone.isMended = piecesMended zone.pieces := rfl
  rw [Zone.edits, hmended, zoneMends, Bool.true_and]
  cases piecesMended zone.pieces <;> rfl

/-- A call has as many edits as zones that can be mended, wherever it stands. -/
theorem length_edits_ofParts (target : Target)
    (hcall : SoundCall callee types opening items closing)
    (hparen : items.any isObject = true → '(' ∉ triviaText opening.trivia)
    (pre post : List Char) :
    ((violations target
      (pre ++ ((call callee types opening items closing).source ++ post))
        (Site.ofParts (byteLength pre) callee types opening items closing).call).filterMap
          (·.edit)).length = callMends (target.covers callee.solid) items closing := by
  rw [violations, calleeText_ofParts hcall]
  simp only
  rcases config_or_none items with ⟨front, first, middle, back, hconfig⟩ | hnone
  · rw [callMends_config hconfig,
      zones_ofParts hcall hconfig (hparen hconfig.any_isObject)]
    split
    · next hcovers =>
      rw [filterMap_edit_violations, List.length_flatMap, hcovers]
      simp only [List.map_cons, List.map_nil, List.sum_cons, List.sum_nil,
        length_edits, Nat.add_zero]
      rfl
    · next hcovers =>
      rw [Bool.not_eq_true] at hcovers
      simp [hcovers, zoneMends]
  · rw [callMends_none hnone, zones_ofParts_none hnone]
    split <;> rfl

/-- Zones are reported only of calls whose callee is looked at. -/
theorem looks_covers (htarget : target.endsPlainly = true) (visit : Visit) (file : String)
    (text : List Char) (tree : Tree) :
    Looks text (Reports visit target file text tree) target.covers where
  of_joins := by
    rintro callee types items opening closing pre post side hcall rfl ⟨v, hv, -⟩
    rw [violations, calleeText_ofParts hcall] at hv
    simp only at hv
    split at hv
    · assumption
    · cases hv
  of_passed ht h := covers_passed htarget ht h

/-- The zones that can be mended are those of the calls. -/
theorem mendsAll_eq_sum {ts : List Tree} (h : ∀ t ∈ ts, ∀ before,
      t.mends target.covers = ((calls before t).map (CallAt.mends target)).sum)
      (before : List Token) :
    mendsAll target.covers ts = ((callsAll before ts).map (CallAt.mends target)).sum := by
  induction ts generalizing before with
  | nil => rfl
  | cons t ts ih =>
    rw [mendsAll, callsAll, List.map_append, List.sum_append, h t List.mem_cons_self,
      ih fun u hu => h u (List.mem_cons_of_mem t hu)]

theorem mends_eq_sum (t : Tree) : ∀ before : List Token,
    t.mends target.covers = ((calls before t).map (CallAt.mends target)).sum := by
  -- the calls are listed in the order in which `mends` adds up
  induction t using induct with
  | leaf s => exact fun _ => rfl
  | node kind parts ih => exact fun before => mendsAll_eq_sum ih before
  | call callee types opening items closing hcallee htypes hitems =>
    intro before
    rw [mends, calls, List.map_cons, List.sum_cons, List.map_append,
      List.sum_append, List.map_append, List.sum_append, ← hcallee,
      ← mendsAll_eq_sum htypes, ← mendsAll_eq_sum hitems]
    rfl

end Script.Tree

/-! ### The edits of a check -/

section Check

variable {target : Target} {tree : Tree} {c : CallAt}

/-- The edits of a guarded call: all of its zones that can be mended, or none if
they are silenced. -/
theorem length_edits_add_spared (hsound : tree.isSound = true)
    (hopen : tree.opensPlainly = true)
    (hguarded : (c.view target).isGuarded) (hc : c ∈ tree.calls []) (visit : Visit)
    (file : String) :
    (((violations target tree.source c.site.call).filter fun v =>
        !isSilenced (.ofComments tree.source (visit.order file tree))
          tree.source c.site.call
          v.side).filterMap (·.edit)).length + (c.view target).spared =
            c.mends target := by
  have hsilenced {v : Violation} (hv : v ∈ violations target tree.source c.site.call) :=
    isSilenced_of_guarded hsound hopen hguarded hc hv visit file
  have hspared : (c.view target).spared =
      if (calm.across c.front).silences then c.mends target else 0 := rfl
  rw [hspared]
  -- the zones of a guarded call are silenced together
  rcases hsilences : (calm.across c.front).silences with - | -
  · rw [List.filter_eq_self.2 fun v hv => by rw [hsilenced hv, hsilences]; rfl]
    obtain ⟨hcall, hparen⟩ := soundCall_of_mem hsound hopen hc
    obtain ⟨after, -, hsource⟩ := stretches_of_mem hc
    rw [hsource]
    exact Tree.length_edits_ofParts target hcall hparen (tokensSource c.before)
      (tokensSource after)
  · rw [List.filter_eq_nil_iff.2 fun v hv => by rw [hsilenced hv, hsilences]; simp]
    exact Nat.zero_add _

theorem editsOf_treeFindings (visit : Visit) (target : Target) (file : String)
    (text : List Char) (tree : Tree) :
    editsOf (treeFindings visit target file text tree) =
      (tree.sites 0).flatMap fun site =>
      ((violations target text site.call).filter fun v =>
        !isSilenced (.ofComments (dropMark text) (visit.order file tree))
          (dropMark text) site.call
          v.side).filterMap (·.edit) := by
  rw [editsOf, treeFindings, List.filterMap_flatMap]
  refine List.flatMap_congr fun site _ => ?_
  rw [siteFindings, List.filterMap_map]
  rfl

/-- Where all calls are guarded, the zones that can be mended are those with an
edit and those that are silenced. -/
theorem length_editsOf_add_spared (hsound : tree.isSound = true)
    (hopen : tree.opensPlainly = true)
    (hmark : dropMark tree.source = tree.source)
    (hguarded : ∀ c ∈ tree.calls [], (c.view target).isGuarded) (visit : Visit)
    (file : String) :
    (editsOf (treeFindings visit target file tree.source tree)).length +
        ((tree.calls []).map fun c => (c.view target).spared).sum =
          tree.mends target.covers := by
  have hperm : (tree.sites 0).Perm ((tree.calls []).map CallAt.site) := tree.sites_perm []
  rw [editsOf_treeFindings, hmark, List.length_flatMap, (hperm.map _).sum_nat,
    List.map_map, tree.mends_eq_sum [], ← List.sum_map_add]
  congr 1
  apply List.map_congr_left
  intro c hc
  exact length_edits_add_spared hsound hopen (hguarded c hc) hc visit file

end Check

/-! ### Passes -/

/-- A script whose calls are guarded, with so many zones that could be mended
but are silenced. -/
structure Spares (target : Target) (count : Nat) (tree : Tree) : Prop where
  opensPlainly : tree.opensPlainly = true
  isGuarded : ∀ c ∈ tree.calls [], (c.view target).isGuarded
  sum_spared : ((tree.calls []).map fun c => (c.view target).spared).sum = count

section Passes

variable {reader : Reader} {visit : Visit} {target : Target} {file : String}
  {text : List Char} {tree : Tree}

/-- A pass silences no zone that could be mended and brings none back. -/
theorem spares_passed (htarget : target.endsPlainly = true) {count : Nat} {tree' : Tree}
    (hsound : tree.isSound = true) (h : Spares target count tree)
    (hpassed : Tree.Passed (Reports visit target file tree.source tree) 0 tree tree') :
    Spares target count tree' := by
  obtain ⟨hopen, hguarded, hsum⟩ :=
    guarded_passed htarget hsound h.opensPlainly h.isGuarded hpassed
  exact ⟨hopen, hguarded, (hsum View.spared_of_isCalm).trans h.sum_spared⟩

/-- The edits that are offered at first are those that are applied and those
that are left. -/
theorem repairIn_accounts (htarget : target.endsPlainly = true) {count n : Nat}
    (hparse : reader.parseFile file text = .ok tree)
    (hreads : reader.ReadsRespaced (dialectOf file) tree) (hmark : dropMark text = text)
    (h : Spares target count tree) :
    ∃ done,
      reader.repairIn visit target file n text
        (treeFindings visit target file text tree) =
        .ok done ∧
      (editsOf (treeFindings visit target file text tree)).length =
        done.applied + (editsOf done.remaining).length := by
  induction n generalizing text tree with
  | zero => exact ⟨_, rfl, (Nat.zero_add _).symm⟩
  | succ n ih =>
    have hsound := reader.isSound_of_read hparse
    have hsource := Reader.source_of_parseFile hparse hmark
    subst hsource
    rw [repairIn_succ]
    split
    · exact ⟨_, rfl, (Nat.zero_add _).symm⟩
    · obtain ⟨hmark', tree', hpassed, hout, hmends⟩ :=
        exists_passed visit target hparse hmark
        h.opensPlainly (Tree.looks_covers htarget visit file tree.source tree)
      obtain ⟨hread, hreads'⟩ :=
        hreads.respaced (Tree.respaced_passed tree 0 tree' hpassed)
      have hparse' :
          reader.parseFile file (splice tree.source (editsOf (treeFindings visit target
          file tree.source tree))).output = .ok tree' := by
        rw [Reader.parseFile, hmark', ← hout]
        exact hread
      have h' := spares_passed htarget hsound h hpassed
      obtain ⟨done, hdone, haccounts⟩ := ih hparse' hreads' hmark' h'
      rw [Reader.findings, hparse']
      simp only [hdone]
      refine ⟨_, rfl, ?_⟩
      -- what is silenced is the same before and after, so what is mended was
      -- offered
      have hbefore :=
        length_editsOf_add_spared hsound h.opensPlainly hmark h.isGuarded visit file
      have hafter :=
        length_editsOf_add_spared (reader.isSound_of_read hparse') h'.opensPlainly
        (by rw [hout, hmark']) h'.isGuarded visit file
      rw [h.sum_spared] at hbefore
      rw [h'.sum_spared, hout] at hafter
      simp only
      omega

end Passes

/-! ### Repairs -/

/-- Holds of a text that is read as a script, without a byte-order mark, where
no comment between the callee of a call with an object and its `(` holds another
`(`, where the directives stand apart from the calls with a violation, and where
the script is read back however often its arguments are respaced. -/
structure Script.Reader.Regular (reader : Reader) (target : Target) (file : String)
    (text : List Char) (tree : Tree) : Prop where
  parse : reader.parseFile file text = .ok tree
  unmarked : dropMark text = text
  opensPlainly : tree.opensPlainly = true
  apart : DirectivesApart target text tree
  respaced : reader.ReadsRespaced (dialectOf file) tree

namespace Script.Reader.Regular

variable {reader : Reader} {target : Target} {file : String} {text : List Char}
  {tree : Tree}

theorem isGuarded (h : reader.Regular target file text tree) {c : CallAt}
    (hc : c ∈ tree.calls []) :
    (c.view target).isGuarded := by
  apply isGuarded_of_apart (reader.isSound_of_read h.parse) h.opensPlainly _ hc
  rw [Reader.source_of_parseFile h.parse h.unmarked]
  exact h.apart

/-- A check of a regular text offers as many edits in whatever order the
comments are met. -/
theorem length_editsOf (h : reader.Regular target file text tree) (visit visit' : Visit) :
    (editsOf (treeFindings visit target file text tree)).length =
      (editsOf (treeFindings visit' target file text tree)).length := by
  obtain rfl := Reader.source_of_parseFile h.parse h.unmarked
  have hcount (visit : Visit) :=
    length_editsOf_add_spared (reader.isSound_of_read h.parse)
    h.opensPlainly h.unmarked (fun c hc => h.isGuarded hc) visit file
  exact Nat.add_right_cancel ((hcount visit).trans (hcount visit').symm)

/-- The edits that a check of a regular text offers are those that a repair
applies and those that it leaves. -/
theorem repair_accounts (h : reader.Regular target file text tree)
    (htarget : target.endsPlainly = true) (visit visit' : Visit) :
    ∃ done, reader.repair visit' target file text = .ok done ∧
      (editsOf (treeFindings visit target file text tree)).length =
        done.applied + (editsOf done.remaining).length := by
  rw [Reader.repair, Reader.findings, h.parse, h.length_editsOf visit visit']
  exact repairIn_accounts htarget h.parse h.respaced h.unmarked
    ⟨h.opensPlainly, fun c hc => h.isGuarded hc, rfl⟩

end Script.Reader.Regular

end AnimLint
