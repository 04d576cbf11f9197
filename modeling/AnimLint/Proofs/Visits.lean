/-
AnimLint/Proofs/Visits.lean

Every call of a script is looked at, once, and before the calls in it.  A place
in a tree is told by a path: the number of the part to go into, again and again,
where the parts of a tree are all that stand below it in the text
(`Tree.partAt?`).  So the calls of a tree are the paths that lead to a call
(`Tree.siteAt?`), and nothing about the order in which a walk goes over them is
built into that.

The walk goes over a list of paths (`Tree.visits`): its sites are those of the
calls there (`map_visits`), a path is in the list if it leads to a call
(`mem_visits_iff`), and no path stands behind one that goes on from it
(`pairwise_visits`), so none stands there twice.  Main statement:
`Tree.findings_of_visits`.
-/
import AnimLint.Check
import AnimLint.Proofs.ZoneShape
import Mathlib.Data.List.Basic

namespace AnimLint

open Text Script

namespace Script

/-! ### Places in a tree -/

namespace Tree

/-- The parts of a tree, in the order of the text. -/
def parts : Tree → List Tree
  | leaf _ => []
  | node _ parts => parts
  | call callee types opening items closing =>
    callee :: (types ++ leaf opening :: (items ++ [leaf closing]))

/-- The tree that a path leads to, with the byte it is read from. -/
def partAt? (start : Nat) (t : Tree) : List Nat → Option (Nat × Tree)
  | [] => some (start, t)
  | i :: path => t.parts[i]?.bind fun u =>
    u.partAt? (start + widthAll (t.parts.take i)) path

/-- The site of the call that a path leads to. -/
def siteAt? (start : Nat) (t : Tree) (path : List Nat) : Option Site :=
  match t.partAt? start path with
  | some (start, call callee types opening items closing) =>
    some (.ofParts start callee types opening items closing)
  | _ => none

theorem siteAt?_cons (start : Nat) (t : Tree) (i : Nat) (path : List Nat) :
    t.siteAt? start (i :: path) =
      t.parts[i]?.bind fun u => u.siteAt? (start + widthAll (t.parts.take i)) path := by
  rw [siteAt?, partAt?]
  cases t.parts[i]? <;> rfl

theorem siteAt?_append {t u : Tree} {before after : List Tree}
    (h : t.parts = before ++ u :: after) (start : Nat) (path : List Nat) :
    t.siteAt? start (before.length :: path) =
      u.siteAt? (start + widthAll before) path := by
  rw [siteAt?_cons, h]
  simp

/-! ### The paths of a walk -/

mutual

/-- The paths to the calls of a tree, in the order the calls are visited. -/
def visits : Tree → List (List Nat)
  | leaf _ => []
  | node kind parts => (kind.visit (visitsAll 0 parts)).flatten
  | call callee types _ items _ =>
    [] :: (callee.visits.map (0 :: ·) ++ ((visitsAll (types.length + 2) items).flatten ++
      (visitsAll 1 types).flatten))

/-- The paths to the calls of each of a row of trees, the first of which has a
given number. -/
def visitsAll (i : Nat) : List Tree → List (List (List Nat))
  | [] => []
  | t :: ts => t.visits.map (i :: ·) :: visitsAll (i + 1) ts

end

theorem visits_call (callee : Tree) (types : List Tree) (opening : Token)
    (items : List Tree) (closing : Token) :
    (call callee types opening items closing).visits =
      [] :: (visitsAll 0 [callee] ++ (visitsAll (types.length + 2) items ++
        visitsAll 1 types)).flatten := by
  simp [visits, visitsAll]

/-! ### The sites of a walk -/

/-- The paths into a row of parts lead to the calls in each of them. -/
theorem map_visitsAll {t : Tree} {ts : List Tree}
    (h : ∀ u ∈ ts, ∀ start, u.visits.map (u.siteAt? start) = (u.sites start).map some)
    (before after : List Tree) (hparts : t.parts = before ++ (ts ++ after))
    (start : Nat) :
    (visitsAll before.length ts).map (List.map (t.siteAt? start)) =
      (sitesAll (start + widthAll before) ts).map (List.map some) := by
  induction ts generalizing before with
  | nil => rfl
  | cons u ts ih =>
    have hu : (u.visits.map (before.length :: ·)).map (t.siteAt? start) =
        (u.sites (start + widthAll before)).map some := by
      rw [← h u List.mem_cons_self, List.map_map]
      exact List.map_congr_left fun path _ => siteAt?_append hparts start path
    have hnext : start + widthAll before + u.width =
        start + widthAll (before ++ [u]) := by
      rw [widthAll_eq, widthAll_eq, width_eq]
      simp [sourceAll, Nat.add_assoc]
    have hrest := ih (fun v hv => h v (List.mem_cons_of_mem u hv)) (before ++ [u])
      (by rw [hparts]; simp)
    rw [List.length_append, List.length_singleton] at hrest
    rw [visitsAll, sitesAll, List.map_cons, List.map_cons, hu, hrest, hnext]

/-- The sites of a walk are those of the calls that its paths lead to, one for
one. -/
theorem map_visits (t : Tree) :
    ∀ start, t.visits.map (t.siteAt? start) = (t.sites start).map some := by
  induction t using induct with
  | leaf s => exact fun _ => rfl
  | node kind ts ih =>
    intro start
    have hrow :=
      map_visitsAll (t := node kind ts) ih [] [] (List.append_nil ts).symm start
    rw [visits, sites, List.map_flatten, List.map_flatten, kind.map_visit, kind.map_visit]
    exact congrArg (fun l => (kind.visit l).flatten) hrow
  | call callee types opening items closing hcallee htypes hitems =>
    intro start
    obtain ⟨t, ht⟩ : ∃ t, t = call callee types opening items closing := ⟨_, rfl⟩
    have hparts : t.parts = callee ::
        (types ++ leaf opening :: (items ++ [leaf closing])) := by
      rw [ht, parts]
    have hcalleeRow : (visitsAll 0 [callee]).map (List.map (t.siteAt? start)) =
        [(callee.sites start).map some] :=
      map_visitsAll (fun u hu => List.mem_singleton.1 hu ▸ hcallee) [] _ hparts start
    have htypesRow : (visitsAll 1 types).map (List.map (t.siteAt? start)) =
        (sitesAll (start + callee.width) types).map (List.map some) :=
      map_visitsAll htypes [callee] _ hparts start
    have hitemsRow : (visitsAll (types.length + 2) items).map
        (List.map (t.siteAt? start)) =
        (sitesAll (start + callee.width + widthAll types + opening.width) items).map
          (List.map some) := by
      have hrow :=
        map_visitsAll hitems (callee :: (types ++ [leaf opening])) [leaf closing]
        (by rw [hparts]; simp) start
      have hwidth : start + widthAll (callee :: (types ++ [leaf opening])) =
          start + callee.width + widthAll types + opening.width := by
        simp [width_eq, widthAll_eq, width_token, sourceAll, source, Nat.add_assoc]
      rw [List.length_cons, List.length_append, List.length_singleton, hwidth] at hrow
      exact hrow
    have hself : t.siteAt? start [] =
        some (.ofParts start callee types opening items closing) := by
      rw [ht]
      rfl
    rw [← ht, ht, visits_call, sites, ← ht, List.map_cons, hself, List.map_flatten]
    simp only [List.map_append, List.flatten_append, hcalleeRow, hitemsRow, htypesRow]
    simp

/-! ### The calls of a tree -/

theorem mem_visitsAll {path : List Nat} {i : Nat} {ts : List Tree} :
    path ∈ (visitsAll i ts).flatten ↔
      ∃ k u rest, ts[k]? = some u ∧ rest ∈ u.visits ∧ path = (i + k) :: rest := by
  induction ts generalizing i with
  | nil => simp [visitsAll]
  | cons t ts ih =>
    rw [visitsAll, List.flatten_cons, List.mem_append, List.mem_map, ih]
    constructor
    · rintro (⟨rest, hrest, rfl⟩ | ⟨k, u, rest, hu, hrest, rfl⟩)
      · exact ⟨0, t, rest, rfl, hrest, rfl⟩
      · exact ⟨k + 1, u, rest, hu, hrest, by rw [Nat.add_assoc, Nat.add_comm 1 k]⟩
    · rintro ⟨k, u, rest, hu, hrest, rfl⟩
      rcases k with - | k
      · obtain rfl := Option.some.inj hu
        exact .inl ⟨rest, hrest, rfl⟩
      · exact .inr ⟨k, u, rest, hu, hrest, by rw [Nat.add_assoc, Nat.add_comm 1 k]⟩

/-- The calls of a part are visited along with the calls of the tree. -/
theorem mem_visits_of_part {t u : Tree} {i : Nat} {path : List Nat}
    (hu : t.parts[i]? = some u)
    (hpath : path ∈ u.visits) : i :: path ∈ t.visits := by
  cases t with
  | leaf s => cases hu
  | node kind ts =>
    rw [visits, (kind.visit_perm _).flatten.mem_iff, mem_visitsAll]
    exact ⟨i, u, path, hu, hpath, by rw [Nat.zero_add]⟩
  | call callee types opening items closing =>
    have hleaf {s : Token} (h : u = leaf s) : path ∉ u.visits := by
      rw [h, visits]
      exact List.not_mem_nil
    rw [visits_call, List.mem_cons, List.flatten_append, List.flatten_append,
      List.mem_append, List.mem_append, mem_visitsAll, mem_visitsAll, mem_visitsAll]
    right
    rcases i with - | i
    · exact .inl ⟨0, u, path, hu, hpath, rfl⟩
    · -- the parts behind the callee: type arguments, the opening parenthesis,
      -- items, the closing one
      rw [parts, List.getElem?_cons_succ, List.getElem?_append] at hu
      split at hu
      · exact .inr (.inr ⟨i, u, path, hu, hpath, by rw [Nat.add_comm]⟩)
      · next hle =>
        obtain ⟨k, hk⟩ : ∃ k, i - types.length = k := ⟨_, rfl⟩
        rw [hk] at hu
        rcases k with - | k
        · exact absurd hpath (hleaf (Option.some.inj hu).symm)
        · rw [List.getElem?_cons_succ, List.getElem?_append] at hu
          split at hu
          · exact .inr (.inl ⟨k, u, path, hu, hpath, by congr 1; omega⟩)
          · rcases hlast : k - items.length with - | n
            · rw [hlast] at hu
              exact absurd hpath (hleaf (Option.some.inj hu).symm)
            · rw [hlast] at hu
              cases hu

/-- A path is among those of the walk if it leads to a call. -/
theorem mem_visits_iff {t : Tree} {start : Nat} {path : List Nat} :
    path ∈ t.visits ↔ (t.siteAt? start path).isSome = true := by
  constructor
  · intro h
    have hmem := List.mem_map_of_mem (f := t.siteAt? start) h
    rw [map_visits] at hmem
    obtain ⟨site, -, hsite⟩ := List.mem_map.1 hmem
    rw [← hsite]
    rfl
  · intro h
    induction path generalizing t start with
    | nil =>
      cases t with
      | leaf s => cases h
      | node kind ts => cases h
      | call callee types opening items closing => exact List.mem_cons_self
    | cons i path ih =>
      rw [siteAt?_cons] at h
      obtain ⟨site, hsite⟩ := Option.isSome_iff_exists.1 h
      obtain ⟨u, hu, hsite⟩ := Option.bind_eq_some_iff.1 hsite
      exact mem_visits_of_part hu (ih (Option.isSome_iff_exists.2 ⟨site, hsite⟩))

/-- The sites of a tree are those of the calls that paths lead to. -/
theorem mem_sites_iff {t : Tree} {start : Nat} {site : Site} :
    site ∈ t.sites start ↔ ∃ path, t.siteAt? start path = some site := by
  constructor
  · intro h
    have hmem : some site ∈ t.visits.map (t.siteAt? start) := by
      rw [map_visits]
      exact List.mem_map_of_mem h
    obtain ⟨path, -, hsite⟩ := List.mem_map.1 hmem
    exact ⟨path, hsite⟩
  · rintro ⟨path, hsite⟩
    have hpath : path ∈ t.visits :=
      mem_visits_iff.2 (Option.isSome_iff_exists.2 ⟨site, hsite⟩)
    have hmem := List.mem_map_of_mem (f := t.siteAt? start) hpath
    rw [map_visits, hsite] at hmem
    obtain ⟨site', hsite', heq⟩ := List.mem_map.1 hmem
    exact Option.some.inj heq ▸ hsite'

/-! ### The order of a walk -/

/-- Holds of rows of paths that go into different parts. -/
def Diverge (a b : List (List Nat)) : Prop :=
  ∀ p ∈ a, ∀ q ∈ b, ∃ i j, p.head? = some i ∧ q.head? = some j ∧ i ≠ j

theorem Diverge.symm {a b : List (List Nat)} (h : Diverge a b) : Diverge b a := by
  intro q hq p hp
  obtain ⟨i, j, hi, hj, hne⟩ := h p hp q hq
  exact ⟨j, i, hj, hi, hne.symm⟩

/-- Of paths into different parts none goes on from the other. -/
theorem Diverge.not_prefix {a b : List (List Nat)} (h : Diverge a b)
    {p q : List Nat} (hp : p ∈ a)
    (hq : q ∈ b) : ¬ q <+: p := by
  rintro ⟨rest, rfl⟩
  obtain ⟨i, j, hi, hj, hne⟩ := h _ hp q hq
  rcases q with - | ⟨k, q⟩
  · cases hj
  · exact hne ((Option.some.inj hi).symm.trans (Option.some.inj hj))

theorem head_of_mem_visitsAll {i : Nat} {ts : List Tree} {a : List (List Nat)}
    (ha : a ∈ visitsAll i ts) {path : List Nat} (hpath : path ∈ a) :
    ∃ k, k < ts.length ∧ path.head? = some (i + k) := by
  obtain ⟨k, u, rest, hu, -, rfl⟩ := mem_visitsAll.1 (List.mem_flatten.2 ⟨a, ha, hpath⟩)
  exact ⟨k, (List.getElem?_eq_some_iff.1 hu).1, rfl⟩

theorem diverge_of_visitsAll {i j : Nat} {ts us : List Tree}
    (h : ∀ k < ts.length, ∀ n < us.length, i + k ≠ j + n) {a b : List (List Nat)}
    (ha : a ∈ visitsAll i ts) (hb : b ∈ visitsAll j us) : Diverge a b := by
  intro p hp q hq
  obtain ⟨k, hk, hhead⟩ := head_of_mem_visitsAll ha hp
  obtain ⟨n, hn, hhead'⟩ := head_of_mem_visitsAll hb hq
  exact ⟨i + k, j + n, hhead, hhead', h k hk n hn⟩

theorem pairwise_visitsAll (i : Nat) (ts : List Tree) :
    (visitsAll i ts).Pairwise Diverge := by
  induction ts generalizing i with
  | nil => exact .nil
  | cons t ts ih =>
    rw [visitsAll, List.pairwise_cons]
    refine ⟨fun b hb => ?_, ih (i + 1)⟩
    have ha : t.visits.map (i :: ·) ∈ visitsAll i [t] := List.mem_singleton.2 rfl
    refine diverge_of_visitsAll (fun k hk n _ => ?_) ha hb
    rw [List.length_singleton] at hk
    omega

/-- Rows in each of which no path stands behind one that goes on from it, and
which go into different parts, make such a row. -/
theorem pairwise_flatten {rows : List (List (List Nat))}
    (hrows : ∀ a ∈ rows, a.Pairwise fun p q => ¬ q <+: p)
    (hdiverge : rows.Pairwise Diverge) :
    rows.flatten.Pairwise fun p q => ¬ q <+: p := by
  refine List.pairwise_flatten.2 ⟨hrows, hdiverge.imp ?_⟩
  intro a b h p hp q hq
  exact h.not_prefix hp hq

theorem pairwise_row {ts : List Tree}
    (h : ∀ u ∈ ts, u.visits.Pairwise fun p q => ¬ q <+: p)
    {i : Nat} {a : List (List Nat)} (ha : a ∈ visitsAll i ts) :
    a.Pairwise fun p q => ¬ q <+: p := by
  induction ts generalizing i with
  | nil => cases ha
  | cons t ts ih =>
    rw [visitsAll] at ha
    rcases List.mem_cons.1 ha with rfl | ha
    · refine (h t List.mem_cons_self).map (i :: ·) fun p q hpq hprefix => hpq ?_
      exact (List.prefix_cons_inj i).1 hprefix
    · exact ih (fun u hu => h u (List.mem_cons_of_mem t hu)) ha

/-- A call is visited before the calls in it. -/
theorem pairwise_visits (t : Tree) : t.visits.Pairwise fun p q => ¬ q <+: p := by
  induction t using induct with
  | leaf s => exact .nil
  | node kind ts ih =>
    have hperm := kind.visit_perm (visitsAll 0 ts)
    refine pairwise_flatten (fun a ha => pairwise_row ih (hperm.mem_iff.1 ha)) ?_
    exact (hperm.pairwise_iff fun h => h.symm).2 (pairwise_visitsAll 0 ts)
  | call callee types opening items closing hcallee htypes hitems =>
    rw [visits_call, List.pairwise_cons]
    constructor
    · intro q hq hprefix
      obtain rfl := List.prefix_nil.1 hprefix
      simp only [List.flatten_append, List.mem_append, mem_visitsAll] at hq
      rcases hq with ⟨_, _, _, _, _, h⟩ | ⟨_, _, _, _, _, h⟩ |
          ⟨_, _, _, _, _, h⟩ <;> cases h
    · have hone : ∀ u ∈ [callee], u.visits.Pairwise fun p q => ¬ q <+: p :=
        fun u hu => List.mem_singleton.1 hu ▸ hcallee
      refine pairwise_flatten (fun a ha => ?_) ?_
      · simp only [List.mem_append] at ha
        rcases ha with ha | ha | ha
        · exact pairwise_row hone ha
        · exact pairwise_row hitems ha
        · exact pairwise_row htypes ha
      · -- the numbers of the callee, the items and the type arguments are different
        simp only [List.pairwise_append, List.mem_append, pairwise_visitsAll, true_and]
        refine ⟨fun a ha b hb => diverge_of_visitsAll (fun k _ n hn => ?_) ha hb, ?_⟩
        · omega
        · rintro a ha b (hb | hb)
          · refine diverge_of_visitsAll (fun k hk n _ => ?_) ha hb
            rw [List.length_singleton] at hk
            omega
          · refine diverge_of_visitsAll (fun k hk n _ => ?_) ha hb
            rw [List.length_singleton] at hk
            omega

end Tree

end Script

/-! ### The findings of a walk -/

/-- Without directives nothing is silenced. -/
theorem treeFindings_of_quiet {tree : Tree}
    (hquiet : ∀ c ∈ tree.comments, Directive.parse? c.content = none) (visit : Visit)
    (target : Target) (file : String) (text : List Char) :
    treeFindings visit target file text tree = (tree.sites 0).flatMap fun site =>
      (violations target text site.call).map (·.finding file (dropMark text) site) := by
  have hnone : directivesOf (dropMark text) (visit.order file tree) = [] := by
    rw [directivesOf, List.filterMap_eq_nil_iff]
    intro c hc
    rw [hquiet c (visit.mem_order.1 hc)]
    rfl
  have hcovers (line : Nat) :
      (Silence.ofComments (dropMark text) (visit.order file tree)).covers
        line = false := by
    rw [Silence.ofComments, hnone]
    rfl
  rw [treeFindings]
  apply List.flatMap_congr
  intro site _
  rw [siteFindings, List.filter_eq_self.2]
  intro v _
  rw [isSilenced, hcovers, hcovers]
  rfl

/-- **Every call is looked at once**: a walk over a tree goes over paths, none
of which it takes twice, that are just those which lead to calls, and takes a
path before any that goes on from it.  It looks for violations at the calls
there, in this order, and without directives it reports all it finds. -/
theorem Script.Tree.calls_visited_once (tree : Tree) :
    ∃ paths : List (List Nat), paths.Nodup ∧
      (∀ path, path ∈ paths ↔ (tree.siteAt? 0 path).isSome = true) ∧
      (paths.Pairwise fun p q => ¬ q <+: p) ∧
      paths.map (tree.siteAt? 0) = (tree.sites 0).map some ∧
      ∀ (visit : Visit) (target : Target) (file : String) (text : List Char),
        (∀ c ∈ tree.comments, Directive.parse? c.content = none) →
          let all := (paths.filterMap (tree.siteAt? 0)).flatMap fun site =>
            (violations target text site.call).map (·.finding file (dropMark text) site)
          treeFindings visit target file text tree = all ∧
            ∀ reader : Reader, reader.parseFile file text = .ok tree →
              reader.findings visit target file text = .ok all := by
  refine ⟨tree.visits, ?_, fun path => Tree.mem_visits_iff, tree.pairwise_visits,
    tree.map_visits 0, ?_⟩
  · refine tree.pairwise_visits.imp ?_
    rintro p q hnot rfl
    exact hnot List.prefix_rfl
  · intro visit target file text hquiet all
    have hsites : tree.visits.filterMap (tree.siteAt? 0) = tree.sites 0 := by
      have hmap := congrArg (List.filterMap id) (tree.map_visits 0)
      simpa [List.filterMap_map] using hmap
    have hall : treeFindings visit target file text tree = all := by
      rw [treeFindings_of_quiet hquiet, ← hsites]
    refine ⟨hall, fun reader hparse => ?_⟩
    rw [Reader.findings, hparse, ← hall]

theorem calls_visited_once_nested :
    ∃ tree, parseFile "a.js" "f(/* g() */\ng(\x7b\x7d), \x7b\x7d)".toList = .ok tree ∧
      (∀ c ∈ tree.comments, Directive.parse? c.content = none) ∧
      ∃ paths : List (List Nat), paths.Nodup ∧ paths.length = 2 ∧
        findings ⟨["f"], []⟩ "a.js" "f(/* g() */\ng(\x7b\x7d), \x7b\x7d)".toList =
          .ok ((paths.filterMap (tree.siteAt? 0)).flatMap fun site =>
            (violations ⟨["f"], []⟩ "f(/* g() */\ng(\x7b\x7d), \x7b\x7d)".toList
              site.call).map
              (·.finding "a.js"
                (dropMark "f(/* g() */\ng(\x7b\x7d), \x7b\x7d)".toList) site)) := by
  have hcheck :
      ((parseFile "a.js"
        "f(/* g() */\ng(\x7b\x7d), \x7b\x7d)".toList).toOption.any fun tree =>
      (tree.sites 0).length == 2 &&
        tree.comments.all fun c => (Directive.parse? c.content).isNone) = true := by
    decide +kernel
  rcases hparse : parseFile "a.js" "f(/* g() */\ng(\x7b\x7d), \x7b\x7d)".toList
      with e | tree
  · rw [hparse] at hcheck
    cases hcheck
  · rw [hparse] at hcheck
    simp only [Except.toOption, Option.any_some, Bool.and_eq_true, beq_iff_eq,
      List.all_eq_true, Option.isNone_iff_eq_none] at hcheck
    obtain ⟨paths, hnodup, -, -, hsites, hfindings⟩ := tree.calls_visited_once
    refine ⟨tree, rfl, hcheck.2, paths, hnodup, ?_, ?_⟩
    · have hlength := congrArg List.length hsites
      simpa [hcheck.1] using hlength
    · exact (hfindings _ _ _ _ hcheck.2).2 Reader.script hparse

end AnimLint
