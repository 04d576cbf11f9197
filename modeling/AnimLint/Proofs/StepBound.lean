/-
AnimLint/Proofs/StepBound.lean

The bound on the steps of an expansion leaves nothing out.  A step by a
component either uses the component up or, for `**`, goes down to a directory,
and going down comes to an end (`Arrives.cost_lt`).  So from a directory whose
cost and twice the number of components are no more than the bound, one more
step changes nothing (`suffices_all`), and the bound that an expansion is given
is enough wherever it starts (`expandFrom_of_le`).
-/
import AnimLint.Proofs.Arrival
import AnimLint.Proofs.Expansion
import Mathlib.Data.List.Basic

namespace AnimLint.Glob

open Files FileSystem

section Bound

variable {fs : FileSystem} {directoryOnly : Bool}

/-- Holds of components that, if they stand for a name, stand for one without a
slash. -/
def areSlashless (ps : List Pattern) : Prop :=
  ∀ p ∈ ps, ∀ name, p.literal? = some name → '/' ∉ name

theorem areSlashless_of_subset {ps ps' : List Pattern} (h : areSlashless ps)
    (hsub : ps' ⊆ ps) :
    areSlashless ps' :=
  fun p hp => h p (hsub hp)

/-- A name leads on only from a directory, and to a path that is not empty. -/
theorem exists_arrivesAt_of_leadsOn (hcurrent : fs.hasDirectory "." = true)
    {path name : String}
    (hpath : path ≠ "") (hname : '/' ∉ name.toList) (h : leadsOn fs path name = true) :
    under path name ≠ "" ∧ ∃ m found, fs.ArrivesAt path m found := by
  unfold leadsOn at h
  split at h
  · next hdots =>
    refine ⟨under_ne_empty hname ?_, (hasDirectory_iff hcurrent).1 h⟩
    rintro rfl
    cases hdots
  · have hsome : under path name ≠ "" := by
      intro hempty
      rw [hempty] at h
      cases h
    rw [isThere] at h
    rcases hnode : fs.nodeOrLink (under path name) with e | node
    · rw [hnode] at h
      cases h
    · obtain ⟨found, hlocate⟩ := locate_of_nodeOrLink hnode
      exact ⟨hsome, exists_arrivesAt hpath (goesOn_under hname hsome) hlocate rfl⟩

/-- From what is no directory nothing is found. -/
theorem expandFrom_of_not_directory (hcurrent : fs.hasDirectory "." = true)
    {n : Nat} {path : String}
    {ps : List Pattern} (hps : areSlashless ps) (hpath : path ≠ "")
    (h : fs.hasDirectory path = false) : expandFrom fs directoryOnly n path ps = [] := by
  cases n with
  | zero => rfl
  | succ n =>
    rcases ps with - | ⟨p, ps⟩
    · rfl
    rcases hliteral : p.literal? with - | name
    · rw [expandFrom_wild ps hliteral, h]
      rfl
    · rw [expandFrom_literal ps hliteral, if_neg]
      intro hleads
      have hname : '/' ∉ (String.ofList name).toList := by
        rw [String.toList_ofList]
        exact hps p List.mem_cons_self name hliteral
      obtain ⟨-, harrives⟩ := exists_arrivesAt_of_leadsOn hcurrent hpath hname hleads
      rw [(hasDirectory_iff hcurrent).2 harrives] at h
      cases h

theorem length_triedOn_le (p : Pattern) (ps : List Pattern) :
    (triedOn p ps).length ≤ ps.length + 1 := by
  unfold triedOn
  split
  · exact Nat.le_succ_of_le (List.dropWhile_sublist _).length_le
  · exact Nat.le_refl _

theorem length_triedOn_of_recursive {p : Pattern} {ps : List Pattern}
    (h : p.isRecursive = true) :
    (triedOn p ps).length ≤ ps.length := by
  rw [triedOn, if_pos h]
  exact (List.dropWhile_sublist _).length_le

/-- Holds of a number of steps after which one more, from wherever they pay for
the directory and twice for each component, changes nothing. -/
def Suffices (fs : FileSystem) (directoryOnly : Bool) (n : Nat) : Prop :=
  ∀ {path : String} {ps : List Pattern}, areSlashless ps → path ≠ "" →
    (∀ m found, fs.ArrivesAt path m found → fs.root.cost m found + 2 * ps.length ≤ n) →
    expandFrom fs directoryOnly (n + 1) path ps = expandFrom fs directoryOnly n path ps

section Visits

variable {n m : Nat} {found : List String} {path : String} {p : Pattern}
  {ps : List Pattern}
variable (ih : Suffices fs directoryOnly n) (harrives : fs.ArrivesAt path m found)

include ih harrives

/-- A component is used up, and the next name raises the cost by one at most. -/
theorem Suffices.onward_eq {name next : String} (hnext : GoesOn path name next)
    (hps : areSlashless ps)
    (hbound : fs.root.cost m found + 2 * ps.length + 1 ≤ n) :
    onward fs directoryOnly (n + 1) next ps = onward fs directoryOnly n next ps := by
  have hsame : expandFrom fs directoryOnly (n + 1) next ps =
      expandFrom fs directoryOnly n next ps := by
    refine ih hps hnext.ne_empty fun m' found' harrives' => ?_
    have hlast := (harrives.last hnext harrives').cost_le
    omega
  rw [onward, onward, hsame]

theorem Suffices.visitDots_eq {name : String} (hpath : path ≠ "")
    (hname : '/' ∉ name.toList)
    (hps : areSlashless ps) (hbound : fs.root.cost m found + 2 * ps.length + 1 ≤ n) :
    visitDots fs directoryOnly (n + 1) path p ps name =
      visitDots fs directoryOnly n path p ps name := by
  rw [visitDots, visitDots, ih.onward_eq harrives (goesOn_join hname hpath) hps hbound]

theorem Suffices.visitHere_eq {name : String} (hname : isProperName name = true)
    (hps : areSlashless ps)
    (hbound : fs.root.cost m found + 2 * ps.length ≤ n + 1) :
    visitHere fs directoryOnly (n + 1) path name ps =
      visitHere fs directoryOnly n path name ps := by
  rcases ps with - | ⟨q, qs⟩
  · rfl
  · rw [List.length_cons] at hbound
    rw [visitHere, visitHere, ih.onward_eq harrives (goesOn_under_of_proper hname)
      (areSlashless_of_subset hps (List.subset_cons_self q qs)) (by omega)]

/-- Further down by a proper name `**` stays as it was, and the cost falls. -/
theorem Suffices.visitBelow_eq {name : String} (hname : isProperName name = true)
    (hps : areSlashless (p :: ps))
    (hbound : fs.root.cost m found + 2 * ps.length + 1 ≤ n) :
    visitBelow fs directoryOnly (n + 1) path p ps name =
      visitBelow fs directoryOnly n path p ps name := by
  have hnext : GoesOn path name (under path name) := goesOn_under_of_proper hname
  rw [visitBelow, visitBelow]
  split
  · next hbelow =>
    rw [Bool.and_eq_true] at hbelow
    have hlength : (triedOn p ps).length ≤ ps.length :=
      length_triedOn_of_recursive hbelow.1
    refine ih ?_ hnext.ne_empty fun m' found' harrives' => ?_
    · exact areSlashless_of_subset hps
        (List.cons_subset.2 ⟨List.mem_cons_self, triedOn_subset p ps⟩)
    · have hlast := (harrives.last hnext harrives').cost_lt hname
      rw [List.length_cons]
      omega
  · rfl

end Visits

variable (hwell : fs.root.isWellNamed = true) (hcurrent : fs.hasDirectory "." = true)

include hcurrent

theorem suffices_zero : Suffices fs directoryOnly 0 := by
  intro path ps hps hpath hcost
  rcases hdirectory : fs.hasDirectory path with - | -
  · rw [expandFrom_of_not_directory hcurrent hps hpath hdirectory]
    rfl
  · obtain ⟨m, found, harrives⟩ := (hasDirectory_iff hcurrent).1 hdirectory
    have hnone := hcost m found harrives
    have hlength : ps.length = 0 := by omega
    obtain rfl := List.length_eq_zero_iff.1 hlength
    rfl

include hwell

theorem Suffices.succ {n : Nat} (ih : Suffices fs directoryOnly n) :
    Suffices fs directoryOnly (n + 1) := by
  intro path ps hps hpath hcost
  rcases hdirectory : fs.hasDirectory path with - | -
  · rw [expandFrom_of_not_directory hcurrent hps hpath hdirectory,
      expandFrom_of_not_directory hcurrent hps hpath hdirectory]
  obtain ⟨m, found, harrives⟩ := (hasDirectory_iff hcurrent).1 hdirectory
  have hbound := hcost m found harrives
  rcases ps with - | ⟨p, ps⟩
  · rfl
  rw [List.length_cons] at hbound
  have hrest : areSlashless ps := areSlashless_of_subset hps (List.subset_cons_self p ps)
  rcases hliteral : p.literal? with - | name
  · have htried : areSlashless (triedOn p ps) :=
      areSlashless_of_subset hps (triedOn_subset p ps)
    have hlength := length_triedOn_le p ps
    have hentries : ∀ name ∈ namesIn fs path,
        visitHere fs directoryOnly (n + 1) path name (triedOn p ps) ++
            visitBelow fs directoryOnly (n + 1) path p ps name =
          visitHere fs directoryOnly n path name (triedOn p ps) ++
            visitBelow fs directoryOnly n path p ps name := by
      intro name hmem
      have hproper := proper_of_namesIn hwell hmem
      rw [ih.visitHere_eq harrives hproper htried (by omega),
        ih.visitBelow_eq harrives hproper hps (by omega)]
    rw [expandFrom_wild ps hliteral, expandFrom_wild ps hliteral,
      List.flatMap_congr hentries,
      ih.visitDots_eq harrives hpath (by decide) hrest (by omega),
      ih.visitDots_eq harrives hpath (by decide) hrest (by omega)]
  · have hname : '/' ∉ (String.ofList name).toList := by
      rw [String.toList_ofList]
      exact hps p List.mem_cons_self name hliteral
    rw [expandFrom_literal ps hliteral, expandFrom_literal ps hliteral]
    split
    · next hleads =>
      obtain ⟨hsome, -⟩ := exists_arrivesAt_of_leadsOn hcurrent hpath hname hleads
      exact ih.onward_eq harrives (goesOn_under hname hsome) hrest (by omega)
    · rfl

/-- With as many steps as a directory costs and two for each component, one more
changes nothing. -/
theorem suffices_all (n : Nat) : Suffices fs directoryOnly n := by
  induction n with
  | zero => exact suffices_zero hcurrent
  | succ n ih => exact ih.succ hwell hcurrent

/-- With the steps that so many components are given, more steps change
nothing. -/
theorem expandFrom_of_le {n n' : Nat} {path : String} {ps : List Pattern}
    (hps : areSlashless ps)
    (hpath : path ≠ "") (hsteps : stepsFor fs ps.length ≤ n) (h : n ≤ n') :
    expandFrom fs directoryOnly n' path ps = expandFrom fs directoryOnly n path ps := by
  induction h with
  | refl => rfl
  | step hk ih =>
    have hle : n ≤ _ := hk
    rw [← ih]
    refine suffices_all hwell hcurrent _ hps hpath fun m found harrives => ?_
    -- no place costs more than the top with all links left
    have hlinks : m < maxLinks + 1 := Nat.lt_succ_of_le harrives.2.links_le
    have hcost :=
      @Node.cost_le_of_lt fs.root _ _ hlinks found (List.replicate (depth fs.root) "")
    have htop : fs.root.cost (maxLinks + 1) (List.replicate (depth fs.root) "") =
        (maxLinks + 1) * (depth fs.root + 1) := by
      rw [Node.cost, List.length_replicate, Nat.sub_self, Nat.add_zero]
    unfold stepsFor at hsteps
    omega

end Bound

end AnimLint.Glob
