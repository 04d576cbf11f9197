/-
AnimLint/Proofs/BasePatterns.lean

Patterns behind a base.  A base without wildcards and doubled slashes
(`IsPlainBase`) only says where the pattern behind it is expanded from
(`expand_join`), and that is a path to the tree which is placed at the base
(`Placed.below_foundAs`).  From two places of one tree a pattern finds the same,
if the names that it spells (`Spells`) never lead out of the tree: component by
component the expansion goes over paths with the same names behind their bases
(`Twin`, `expandFrom_twin`).  Where the trees around the two places are not as
deep as each other the expansions are given different bounds, and neither bound
matters (`expand_twin`).
-/
import AnimLint.Proofs.Enclosure
import AnimLint.Proofs.StepBound
import Mathlib.Data.List.Forall2

namespace AnimLint

open Files

namespace Glob

/-! ### The base as a pattern finds it -/

section Base

variable {fs : FileSystem} {base : String}

/-- What a base without wildcards is found as. -/
def foundAs (base : String) : String :=
  (pathParts base).foldl under (if isAbsolute base then "/" else ".")

theorem stepsOf_names_of_goesOn {path name next : String} (h : GoesOn path name next) :
    stepsOf (names next) = stepsOf (names path) ++ stepsOf [name] := by
  obtain ⟨front, idle, hpath, hidle, hnames⟩ := h.exists_front
  rw [hpath, hnames, stepsOf_append, stepsOf_append, stepsOf_idle hidle, List.append_nil]

theorem frontOf_under {path name : String} (hpath : path ≠ "")
    (hname : isAbsolute name = false)
    (hfront : frontOf path ≠ [.here]) : frontOf (under path name) = frontOf path := by
  have hhere : components path ≠ [.here] :=
    fun hhere => hfront (frontOf_of_components_here hhere)
  rw [under, if_neg (by simpa using hhere), frontOf_join hpath hname]

/-- Parts that arrive lead on one after the other, and the path put together
from them arrives there. -/
theorem allLeadOn_of_arrives (hcurrent : fs.hasDirectory "." = true) {path : String}
    {parts : List String} {m m' : Nat} {found found' : List String}
    (hparts : ∀ part ∈ parts, '/' ∉ part.toList ∧ part ≠ "")
    (hpath : fs.ArrivesAt path m found)
    (h : Arrives fs.root m found parts m' found') :
    allLeadOn fs path parts = true ∧ fs.ArrivesAt (parts.foldl under path) m' found' ∧
      stepsOf (names (parts.foldl under path)) =
        stepsOf (names path) ++ stepsOf parts := by
  induction parts generalizing path m found with
  | nil =>
    cases h
    exact ⟨rfl, hpath, (List.append_nil _).symm⟩
  | cons part parts ih =>
    obtain ⟨hslash, hsome⟩ := hparts part List.mem_cons_self
    obtain ⟨m'', found'', hfirst, hrest⟩ := @Arrives.split _ _ _ _ [part] parts _ h
    have hnext := goesOn_under hslash (@under_ne_empty path part hslash hsome)
    obtain ⟨hlead, harrives, hsteps⟩ :=
      ih (fun other hother => hparts other (List.mem_cons_of_mem _ hother))
      (hpath.next hnext hfirst) hrest
    refine ⟨?_, harrives, ?_⟩
    · rw [allLeadOn, hlead, Bool.and_true, leadsOn]
      split
      · exact (FileSystem.hasDirectory_iff hcurrent).2 ⟨m, found, hpath⟩
      · exact hpath.isOk_nodeOrLink hcurrent hnext hfirst
    · rw [List.foldl_cons, hsteps, stepsOf_names_of_goesOn hnext, List.append_assoc,
        ← stepsOf_append]
      rfl

theorem frontOf_foldl_under {path : String} {parts : List String} (hpath : path ≠ "")
    (hparts : ∀ part ∈ parts, '/' ∉ part.toList ∧ part ≠ "")
    (hfront : frontOf path ≠ [.here]) :
    frontOf (parts.foldl under path) = frontOf path := by
  induction parts generalizing path with
  | nil => rfl
  | cons part parts ih =>
    obtain ⟨hslash, hsome⟩ := hparts part List.mem_cons_self
    have hsame := frontOf_under hpath (isAbsolute_of_not_mem hslash) hfront
    rw [List.foldl_cons, ih (under_ne_empty hslash hsome)
      (fun other hother => hparts other (List.mem_cons_of_mem _ hother))
        (by rwa [hsame]), hsame]

/-- A base is found with the front that it has, unless that is a `.`. -/
theorem frontOf_foundAs (hbase : base ≠ "") (hparts : "" ∉ pathParts base)
    (hfront : frontOf base ≠ [.here]) : frontOf (foundAs base) = frontOf base := by
  have hproper : ∀ part ∈ pathParts base, '/' ∉ part.toList ∧ part ≠ "" :=
    fun part hpart =>
    ⟨slash_not_mem_of_mem_names (mem_names_of_mem_pathParts hpart),
      fun hempty => hparts (hempty ▸ hpart)⟩
  have hstem := stem_eq_pathParts base
  rcases habsolute : isAbsolute base with - | -
  · rw [habsolute] at hstem
    have hnone : frontOf base = [] := by
      rw [frontOf, habsolute, if_neg Bool.false_ne_true] at hfront ⊢
      split
      · next hdot => exact absurd (if_pos hdot) hfront
      · rfl
    rcases hcases : pathParts base with - | ⟨first, rest⟩
    · rw [hcases] at hstem
      exact absurd hstem (stem_ne_nil hbase)
    · rw [hcases] at hstem hproper
      obtain ⟨hslash, hsome⟩ := hproper first List.mem_cons_self
      have hfirst : frontOf first = [] := by
        have hhead : (names base).head? = some first := by
          rw [← head?_stem hbase, hstem]
          rfl
        rw [frontOf, habsolute, hhead, if_neg Bool.false_ne_true] at hnone
        rw [frontOf, isAbsolute_of_not_mem hslash, names_of_not_mem hslash,
          if_neg Bool.false_ne_true]
        exact hnone
      have hfold : foundAs base = rest.foldl under first := by
        rw [foundAs, hcases, habsolute]
        rfl
      rw [hfold, hnone, frontOf_foldl_under hsome
        (fun other hother => hproper other (List.mem_cons_of_mem _ hother))
        (by rw [hfirst]; exact List.cons_ne_nil _ _ ∘ Eq.symm), hfirst]
  · have hroot : frontOf base = [.root] := by
      rw [frontOf, habsolute, if_pos rfl]
    have hstart : frontOf "/" = [.root] := by decide
    rw [foundAs, habsolute, if_pos rfl,
      frontOf_foldl_under (by decide) hproper (by decide), hstart, hroot]

/-- What a base is found as leads to the tree that is placed there, if the base
has no empty parts. -/
theorem Placed.below_foundAs {tree : Node} {left : Nat} (h : Placed fs base tree left)
    (hparts : "" ∉ pathParts base) :
    allLeadOn fs (if isAbsolute base then "/" else ".") (pathParts base) = true ∧
      Below fs base tree left (foundAs base) [] := by
  have hproper : ∀ part ∈ pathParts base, '/' ∉ part.toList ∧ part ≠ "" :=
    fun part hpart =>
    ⟨slash_not_mem_of_mem_names (mem_names_of_mem_pathParts hpart),
      fun hempty => hparts (hempty ▸ hpart)⟩
  obtain ⟨place, ⟨hbase, harrives⟩, htree⟩ := h.arrives
  obtain ⟨idle, hnames, hidle⟩ := exists_idle_stem base
  rw [hnames, arrives_append_idle hidle, stem_eq_pathParts] at harrives
  -- the parts of the base lead from where it starts to where it arrives
  have hstart : fs.ArrivesAt (if isAbsolute base then "/" else ".") maxLinks
      (fs.startOf base) ∧
      stepsOf (names (if isAbsolute base then "/" else ".")) = [] := by
    rw [FileSystem.startOf]
    cases isAbsolute base
    · exact ⟨⟨by decide, .of_idle (by decide)⟩, by decide⟩
    · exact ⟨⟨by decide, .of_idle (by decide)⟩, by decide⟩
  have hbehind : Arrives fs.root maxLinks (fs.startOf base) (pathParts base)
      left place := by
    split at harrives
    · obtain ⟨m, found, hfirst, hrest⟩ := @Arrives.split _ _ _ _ [""] _ _ harrives
      obtain ⟨rfl, rfl⟩ := hfirst.unique (.of_idle (by decide))
      exact hrest
    · exact harrives
  obtain ⟨hlead, hfound, hsteps⟩ :=
    allLeadOn_of_arrives h.current hproper hstart.1 hbehind
  have habsolute : isAbsolute (foundAs base) = isAbsolute base := by
    rw [foundAs, isAbsolute_foldl_under fun part => isAbsolute_of_mem_pathParts,
      isAbsolute_start]
  refine ⟨hlead, hfound.1, habsolute,
    ⟨names (foundAs base), place, (List.append_nil _).symm, ?_, hfound.2,
    htree⟩, frontOf_foundAs hbase hparts⟩
  rw [foundAs, hsteps, hstart.2, List.nil_append, ← stepsOf_stem base,
    stem_eq_pathParts, stepsOf_append]
  split <;> rfl

end Base

/-! ### One pattern from two bases -/

/-- Holds if a component may be used up by a name: it is the name, or it stands
for an entry of that name, or for `.` or `..` with a `.` at its front. -/
def Pattern.mayBe (p : Pattern) (name : String) : Prop :=
  p.literal? = some name.toList ∨
    p.covers name = true ∧ (isProperName name = true ∨ p.tokens.head? = some (.char '.'))

/-- Names that the components of a pattern may lead over, one after the
other. -/
inductive Spells : List Pattern → List String → Prop
  | none {ps : List Pattern} : Spells ps []
  | name {p : Pattern} {ps : List Pattern} {name : String} {rest : List String} :
      p.mayBe name → Spells ps rest → Spells (p :: ps) (name :: rest)
  | down {p : Pattern} {ps : List Pattern} {name : String} {rest : List String} :
      p.isRecursive = true → isProperName name = true → Spells (p :: ps) rest →
        Spells (p :: ps) (name :: rest)
  | skip {p : Pattern} {ps : List Pattern} {rest : List String} :
      p.isRecursive = true → Spells ps rest → Spells (p :: ps) rest

theorem spells_of_dropWhile {ps : List Pattern} {names : List String}
    (h : Spells (ps.dropWhile (·.isRecursive)) names) : Spells ps names := by
  induction ps with
  | nil => exact h
  | cons p ps ih =>
    rw [List.dropWhile_cons] at h
    split at h
    · next hrecursive => exact .skip hrecursive (ih h)
    · exact h

theorem spells_of_triedOn {p : Pattern} {ps : List Pattern} {names : List String}
    (h : Spells (triedOn p ps) names) : Spells (p :: ps) names := by
  unfold triedOn at h
  split at h
  · next hrecursive => exact .skip hrecursive (spells_of_dropWhile h)
  · exact h

theorem spells_of_recursive {p : Pattern} {ps : List Pattern}
    (hrecursive : p.isRecursive = true)
    {names : List String} (h : Spells (p :: triedOn p ps) names) :
    Spells (p :: ps) names := by
  generalize hall : p :: triedOn p ps = all at h
  induction h with
  | none => exact .none
  | name hname hrest =>
    obtain ⟨rfl, rfl⟩ := List.cons.inj hall
    rw [triedOn, if_pos hrecursive] at hrest
    exact .name hname (spells_of_dropWhile hrest)
  | down _ hname _ ih =>
    obtain ⟨rfl, rfl⟩ := List.cons.inj hall
    exact .down hrecursive hname (ih rfl)
  | skip _ hrest =>
    obtain ⟨rfl, rfl⟩ := List.cons.inj hall
    exact spells_of_triedOn hrest

theorem forall₂_flatMap {α β γ : Type} {R : β → γ → Prop} {f : α → List β}
    {g : α → List γ} {l : List α} (h : ∀ x ∈ l, List.Forall₂ R (f x) (g x)) :
    List.Forall₂ R (l.flatMap f) (l.flatMap g) := by
  induction l with
  | nil => exact .nil
  | cons x l ih =>
    exact List.rel_append (h x List.mem_cons_self)
      (ih fun y hy => h y (List.mem_cons_of_mem x hy))

section Twin

variable {fs fs' : FileSystem} {base base' : String} {tree : Node} {left : Nat}

/-- Paths below two bases with the same names behind them, which never lead out
of the tree. -/
structure Twin (fs fs' : FileSystem) (base base' : String) (tree : Node) (left : Nat)
    (path path' : String) (below : List String) : Prop where
  first : Below fs base tree left path below
  second : Below fs' base' tree left path' below
  inside : tree.encloses left [] below = true

variable {path path' name next next' : String} {below : List String}

theorem Twin.node (h : Twin fs fs' base base' tree left path path' below) :
    fs.node path = fs'.node path' := by
  rw [h.first.node h.inside, h.second.node h.inside]

theorem Twin.nodeOrLink (h : Twin fs fs' base base' tree left path path' below)
    (hsome : below ≠ []) :
    fs.nodeOrLink path = fs'.nodeOrLink path' := by
  rw [h.first.nodeOrLink h.inside hsome, h.second.nodeOrLink h.inside hsome]

theorem Twin.hasDirectory (h : Twin fs fs' base base' tree left path path' below) :
    fs.hasDirectory path = fs'.hasDirectory path' := by
  rw [FileSystem.hasDirectory, FileSystem.hasDirectory, h.node]

theorem Twin.namesIn (h : Twin fs fs' base base' tree left path path' below) :
    namesIn fs path = namesIn fs' path' := by
  rw [Glob.namesIn, Glob.namesIn, h.node]

theorem Twin.goesOn (h : Twin fs fs' base base' tree left path path' below)
    (hnext : GoesOn path name next) (hnext' : GoesOn path' name next')
    (hinside : tree.encloses left [] (below ++ [name]) = true) :
    Twin fs fs' base base' tree left next next' (extend below name) := by
  refine ⟨h.first.goesOn hnext, h.second.goesOn hnext', ?_⟩
  rw [← hinside]
  apply Node.encloses_congr
  rw [steps_extend, Node.steps, Node.steps, Node.steps, List.filter_append]

/-- Holds of components that, if they stand for a name, stand for one without a
slash and not for the empty one. -/
def areParts (ps : List Pattern) : Prop :=
  ∀ p ∈ ps, ∀ name, p.literal? = some name → '/' ∉ name ∧ name ≠ []

theorem areParts_of_subset {ps ps' : List Pattern} (h : areParts ps)
    (hsub : ps' ⊆ ps) : areParts ps' :=
  fun p hp => h p (hsub hp)

theorem areSlashless_of_areParts {ps : List Pattern} (h : areParts ps) :
    areSlashless ps :=
  fun p hp name hname => (h p hp name hname).1

/-- Holds if the names behind a base and those that components spell further on
never lead out of the tree. -/
def StaysFrom (tree : Node) (left : Nat) (below : List String)
    (ps : List Pattern) : Prop :=
  ∀ names, Spells ps names → tree.encloses left [] (below ++ names) = true

theorem StaysFrom.step {p : Pattern} {ps qs : List Pattern}
    (h : StaysFrom tree left below (p :: ps))
    (hspells : ∀ names, Spells qs names → Spells (p :: ps) (name :: names)) :
    StaysFrom tree left (extend below name) qs ∧
    tree.encloses left [] (below ++ [name]) = true := by
  refine ⟨fun names hnames => ?_, h [name] (hspells [] .none)⟩
  rw [← h (name :: names) (hspells names hnames)]
  apply Node.encloses_congr
  rw [← List.singleton_append, ← List.append_assoc, Node.steps, List.filter_append,
    ← Node.steps, steps_extend]
  simp only [Node.steps, List.filter_append]

/-- Rows of paths below two bases, each with the other of its place, one name at
least behind the bases. -/
def Twins (fs fs' : FileSystem) (base base' : String) (tree : Node) (left : Nat) :
    List String → List String → Prop :=
  List.Forall₂ fun found found' =>
    ∃ below, below ≠ [] ∧ Twin fs fs' base base' tree left found found' below

/-- Holds if so many steps find the same from two places. -/
def ExpandsAlike (fs fs' : FileSystem) (base base' : String) (tree : Node) (left : Nat)
    (directoryOnly : Bool) (n : Nat) : Prop :=
  ∀ path path' below ps, areParts ps → Twin fs fs' base base' tree left path path' below →
    StaysFrom tree left below ps →
      Twins fs fs' base base' tree left (expandFrom fs directoryOnly n path ps)
        (expandFrom fs' directoryOnly n path' ps)

section Step

variable {directoryOnly : Bool} {n : Nat} {p : Pattern} {ps qs : List Pattern}
  (halike : ExpandsAlike fs fs' base base' tree left directoryOnly n)
  (hps : areParts (p :: ps))
  (h : Twin fs fs' base base' tree left path path' below)
  (hstays : StaysFrom tree left below (p :: ps))

include halike h hstays

theorem onward_twin (hqs : areParts qs)
    (hspells : ∀ names, Spells qs names → Spells (p :: ps) (name :: names))
    (hnext : GoesOn path name next) (hnext' : GoesOn path' name next') :
    Twins fs fs' base base' tree left (onward fs directoryOnly n next qs)
      (onward fs' directoryOnly n next' qs) := by
  obtain ⟨hfurther, hhere⟩ := hstays.step hspells
  have htwin := h.goesOn hnext hnext' hhere
  rw [onward, onward, htwin.hasDirectory]
  split
  · exact halike next next' _ qs hqs htwin hfurther
  · split
    · exact .nil
    · exact .cons ⟨_, extend_ne_nil below name, htwin⟩ .nil

include hps

theorem visitDots_twin (hname : '/' ∉ name.toList) :
    Twins fs fs' base base' tree left (visitDots fs directoryOnly n path p ps name)
      (visitDots fs' directoryOnly n path' p ps name) := by
  rw [visitDots, visitDots]
  split
  · next hcovers =>
    rw [Bool.and_eq_true, beq_iff_eq] at hcovers
    exact onward_twin halike h hstays
      (areParts_of_subset hps (List.subset_cons_self p ps))
      (fun names hnames => .name (.inr ⟨hcovers.2, .inr hcovers.1⟩) hnames)
      (goesOn_join hname h.first.ne_empty) (goesOn_join hname h.second.ne_empty)
  · exact .nil

theorem visitHere_twin (hproper : isProperName name = true) :
    Twins fs fs' base base' tree left
      (visitHere fs directoryOnly n path name (triedOn p ps))
      (visitHere fs' directoryOnly n path' name (triedOn p ps)) := by
  have hnext : GoesOn path name (under path name) := goesOn_under_of_proper hproper
  have hnext' : GoesOn path' name (under path' name) := goesOn_under_of_proper hproper
  have htried : areParts (triedOn p ps) := areParts_of_subset hps (triedOn_subset p ps)
  rcases hcases : triedOn p ps with - | ⟨q, qs⟩
  · -- nothing is left behind `**`
    have hrecursive : p.isRecursive = true := by
      by_contra hother
      rw [triedOn, if_neg hother] at hcases
      cases hcases
    have hhere := (@StaysFrom.step _ _ name below p ps ps hstays fun names hnames =>
      .down hrecursive hproper (.skip hrecursive hnames)).2
    have htwin := h.goesOn hnext hnext' hhere
    rw [visitHere, visitHere, htwin.hasDirectory]
    split
    · exact .cons ⟨_, extend_ne_nil below name, htwin⟩ .nil
    · exact .nil
  · rw [visitHere, visitHere]
    split
    · next hcovers =>
      rw [hcases] at htried
      refine onward_twin halike h hstays
        (areParts_of_subset htried (List.subset_cons_self q qs))
        (fun names hnames => spells_of_triedOn ?_) hnext hnext'
      rw [hcases]
      exact .name (.inr ⟨hcovers, .inl hproper⟩) hnames
    · exact .nil

theorem visitBelow_twin (hproper : isProperName name = true) :
    Twins fs fs' base base' tree left (visitBelow fs directoryOnly n path p ps name)
      (visitBelow fs' directoryOnly n path' p ps name) := by
  rw [visitBelow, visitBelow]
  by_cases hrecursive : p.isRecursive = true
  · obtain ⟨hfurther, hhere⟩ :=
      @StaysFrom.step _ _ name below p ps (p :: triedOn p ps) hstays
      fun names hnames => .down hrecursive hproper (spells_of_recursive hrecursive hnames)
    have htwin :=
      h.goesOn (goesOn_under_of_proper hproper) (goesOn_under_of_proper hproper) hhere
    rw [htwin.hasDirectory]
    split
    · exact halike _ _ _ _ (areParts_of_subset hps
        (List.cons_subset.2 ⟨List.mem_cons_self, triedOn_subset p ps⟩)) htwin hfurther
    · exact .nil
  · rw [Bool.not_eq_true] at hrecursive
    rw [hrecursive]
    exact .nil

/-- One more step finds the same as well. -/
theorem expandsAlike_step (hwell : fs.root.isWellNamed = true) :
    Twins fs fs' base base' tree left (expandFrom fs directoryOnly (n + 1) path (p :: ps))
      (expandFrom fs' directoryOnly (n + 1) path' (p :: ps)) := by
  rcases hliteral : p.literal? with - | name
  · rw [expandFrom_wild ps hliteral, expandFrom_wild ps hliteral, h.hasDirectory,
      h.namesIn]
    split
    · exact .nil
    · refine List.rel_append (List.rel_append (forall₂_flatMap fun name hmem => ?_)
        (visitDots_twin halike hps h hstays (by decide)))
          (visitDots_twin halike hps h hstays (by decide))
      rw [← h.namesIn] at hmem
      have hproper := proper_of_namesIn hwell hmem
      exact List.rel_append (visitHere_twin halike hps h hstays hproper)
        (visitBelow_twin halike hps h hstays hproper)
  · obtain ⟨hslash, hsome⟩ := hps p List.mem_cons_self name hliteral
    have hname : '/' ∉ (String.ofList name).toList := by rwa [String.toList_ofList]
    have hnonempty : String.ofList name ≠ "" :=
      fun hempty => hsome (String.ofList_inj.1 hempty)
    have hspells (names : List String) (hnames : Spells ps names) :
        Spells (p :: ps) (String.ofList name :: names) :=
      .name (.inl (by rw [hliteral, String.toList_ofList])) hnames
    have hnext := goesOn_under hname (@under_ne_empty path _ hname hnonempty)
    have hnext' := goesOn_under hname (@under_ne_empty path' _ hname hnonempty)
    have htwin := h.goesOn hnext hnext' (hstays.step hspells).2
    have hleads : leadsOn fs path (String.ofList name) =
        leadsOn fs' path' (String.ofList name) := by
      rw [leadsOn, leadsOn, h.hasDirectory, isThere, isThere,
        htwin.nodeOrLink (extend_ne_nil below _)]
    rw [expandFrom_literal ps hliteral, expandFrom_literal ps hliteral, hleads]
    split
    · exact onward_twin halike h hstays
        (areParts_of_subset hps (List.subset_cons_self p ps)) hspells
        hnext hnext'
    · exact .nil

end Step

/-- From two places of one tree a pattern finds the same. -/
theorem expandFrom_twin (hwell : fs.root.isWellNamed = true)
    (directoryOnly : Bool) (n : Nat) :
    ExpandsAlike fs fs' base base' tree left directoryOnly n := by
  induction n with
  | zero => exact fun _ _ _ _ _ _ _ => .nil
  | succ n ih =>
    intro path path' below ps hps h hstays
    cases ps with
    | nil => exact .nil
    | cons p ps => exact expandsAlike_step ih hps h hstays hwell

end Twin

/-! ### A pattern behind a base -/

/-- A joined path is the other path behind characters of the base and a
slash. -/
theorem exists_join_eq {base text : String} (hbase : base ≠ "")
    (htext : isAbsolute text = false) :
    ∃ front, (join base text).toList = front ++ text.toList ∧ front.getLast? = some '/' ∧
      ∀ c ∈ front, c ∈ base.toList ∨ c = '/' := by
  have hrelative : (text.toList.head? == some '/') = false := htext
  have hempty : base.isEmpty = false := by simpa using hbase
  rw [join, hrelative, if_neg Bool.false_ne_true, hempty, Bool.false_or]
  split
  · next hslash =>
    exact ⟨base.toList, String.toList_append, beq_iff_eq.1 hslash, fun c hc => .inl hc⟩
  · refine ⟨base.toList ++ ['/'], by simp, List.getLast?_concat, fun c hc => ?_⟩
    rcases List.mem_append.1 hc with hc | hc
    · exact .inl hc
    · exact .inr (List.mem_singleton.1 hc)

/-- Whether a pattern can be read does not depend on a base without wildcards in
front of it. -/
theorem isOk_parse_join {base text : String} (hbase : base ≠ "")
    (htext : isAbsolute text = false)
    (hplain : base.toList.any isWildcard = false) :
    (Pattern.parse (join base text)).isOk = (Pattern.parse text).isOk := by
  obtain ⟨front, hjoin, hlast, hfront⟩ := exists_join_eq hbase htext
  have hfront' : front.any isWildcard = false := by
    refine List.any_eq_false.2 fun c hc => ?_
    rcases hfront c hc with hbase | rfl
    · exact List.any_eq_false.1 hplain c hbase
    · decide
  rw [isOk_parse, isOk_parse, hjoin, tokensFrom_append hfront', hlast]
  exact isOk_tokensFrom rfl

/-- What a pattern behind a base without wildcards expands to is found from what
the base is found as. -/
theorem expand_join {fs : FileSystem} {base text : String} (hbase : base ≠ "")
    (htext : isAbsolute text = false) (hsome : text ≠ "")
    (hplain : base.toList.any isWildcard = false)
    (hlead : allLeadOn fs (if isAbsolute base then "/" else ".")
      (pathParts base) = true) :
    (∃ e, expand fs (join base text) = .error e) ∧
        ((Pattern.parse text).isOk = false ∨
          ∃ e, (stem text).mapM Pattern.parse = .error e) ∨
      ∃ ps n, (Pattern.parse text).isOk = true ∧ (stem text).mapM Pattern.parse = .ok ps ∧
        stepsFor fs ps.length ≤ n ∧
        expand fs (join base text) =
          .ok (expandFrom fs (text.toList.getLast? == some '/') n (foundAs base) ps) := by
  have hisOk := isOk_parse_join hbase htext hplain
  have hparts : ∀ part ∈ pathParts base, part.toList.any isWildcard = false := by
    intro part hpart
    refine List.any_eq_false.2 fun c hc => ?_
    exact List.any_eq_false.1 hplain c (mem_of_mem_pathParts hpart hc)
  have hmap : (pathParts (join base text)).mapM Pattern.parse =
      (pathParts base ++ stem text).mapM Pattern.parse := by rw [pathParts_join htext]
  rw [List.mapM_append, mapM_parse_plain hparts] at hmap
  rcases hwhole : Pattern.parse (join base text) with e | whole
  · left
    rw [hwhole] at hisOk
    exact ⟨⟨e, expand_of_error hwhole⟩, .inl hisOk.symm⟩
  · rw [hwhole] at hisOk
    rcases hps : (stem text).mapM Pattern.parse with e | ps
    · left
      rw [hps] at hmap
      exact ⟨⟨e, expand_of_parts_error hwhole hmap⟩, .inr ⟨e, rfl⟩⟩
    · right
      rw [hps] at hmap
      have hlength := length_of_mapM_parse hps
      have hnonempty : ps ≠ [] := by
        rintro rfl
        exact stem_ne_nil hsome (List.length_eq_zero_iff.1 hlength.symm)
      obtain ⟨n, hn⟩ :
          ∃ n, stepsFor fs ((pathParts base).map Pattern.ofName ++ ps).length =
          n + (pathParts base).length := by
        refine Nat.exists_eq_add_of_le' ?_
        rw [stepsFor, List.length_append, List.length_map]
        omega
      have hlast : (join base text).toList.getLast? = text.toList.getLast? := by
        obtain ⟨front, hjoin, -⟩ := exists_join_eq hbase htext
        have htoList : text.toList ≠ [] := fun h => hsome (String.toList_eq_nil_iff.1 h)
        rw [hjoin, List.getLast?_append, List.getLast?_eq_some_getLast htoList]
        rfl
      refine ⟨ps, n, hisOk.symm, rfl, ?_, ?_⟩
      · rw [stepsFor, List.length_append, List.length_map] at hn
        rw [stepsFor]
        omega
      · refine (expand_of_parts hwhole hmap).trans (congrArg Except.ok ?_)
        show expandFrom fs
            _ (stepsFor fs ((pathParts base).map Pattern.ofName ++ ps).length) _ _ = _
        rw [hn, expandFrom_names _ _ _ _ _ hnonempty, isAbsolute_join htext, hlead,
          if_pos rfl, hlast]
        rfl

/-- Holds of what a pattern is made of that never leads out of a tree; it has no
doubled slashes. -/
structure Stays (tree : Node) (left : Nat) (text : String) : Prop where
  single : "" ∉ stem text
  inside : ∀ ps, (stem text).mapM Pattern.parse = .ok ps → ∀ names, Spells ps names →
    tree.encloses left [] names = true

/-- Holds of components that may be used up by `..`. -/
def leadsUp (part : String) : Bool :=
  match Pattern.parse part with
  | .ok p => p.literal? == some ['.', '.'] || p.covers ".." &&
    p.tokens.head? == some (.char '.')
  | .error _ => false

theorem up_not_mem_of_spells {ps : List Pattern} {names : List String}
    (h : Spells ps names)
    (hps : ∀ p ∈ ps, ¬ p.mayBe "..") : ".." ∉ names := by
  induction h with
  | none => exact List.not_mem_nil
  | name hname _ ih =>
    rw [List.mem_cons, not_or]
    refine ⟨?_, ih fun q hq => hps q (List.mem_cons_of_mem _ hq)⟩
    rintro rfl
    exact hps _ List.mem_cons_self hname
  | down _ hname _ ih =>
    rw [List.mem_cons, not_or]
    refine ⟨?_, ih hps⟩
    rintro rfl
    cases hname
  | skip _ _ ih => exact ih fun q hq => hps q (List.mem_cons_of_mem _ hq)

/-- In a tree without links a pattern stays if no component may be `..`. -/
theorem stays_of_leadsUp {tree : Node} (hlinks : tree.hasLink = false) {left : Nat}
    {text : String}
    (hsingle : "" ∉ stem text) (hup : (stem text).any leadsUp = false) :
    Stays tree left text := by
  refine ⟨hsingle, fun ps hps names hnames => Node.encloses_of_down hlinks ?_⟩
  refine up_not_mem_of_spells hnames fun p hp hmay => ?_
  obtain ⟨part, hpart, hparse⟩ := mem_of_mapM_parse hps p hp
  have hno := List.any_eq_false.1 hup part hpart
  rw [leadsUp, hparse] at hno
  rcases hmay with hliteral | ⟨hcovers, hproper | hdot⟩
  · have hdots : "..".toList = ['.', '.'] := by decide
    simp [hliteral, hdots] at hno
  · cases hproper
  · simp [hcovers, hdot] at hno

theorem areParts_of_mapM {text : String} (hsingle : "" ∉ stem text) {ps : List Pattern}
    (h : (stem text).mapM Pattern.parse = .ok ps) : areParts ps := by
  intro p hp name hname
  obtain ⟨part, hpart, hparse⟩ := mem_of_mapM_parse h p hp
  obtain rfl := literal?_parse hparse hname
  refine ⟨slash_not_mem_of_mem_names (mem_names_of_mem_stem hpart), fun hempty => ?_⟩
  obtain rfl := String.toList_eq_nil_iff.1 hempty
  exact hsingle hpart

/-- Holds of bases that a pattern may stand behind: without wildcards and
doubled slashes. -/
structure IsPlainBase (base : String) : Prop where
  plain : base.toList.any isWildcard = false
  single : "" ∉ pathParts base

/-- Behind two bases of one tree a pattern expands to the same. -/
theorem expand_twin {fs fs' : FileSystem} {base base' text : String}
    {tree : Node} {left : Nat}
    (hwell : fs.root.isWellNamed = true) (hwell' : fs'.root.isWellNamed = true)
    (hplaced : Placed fs base tree left) (hplaced' : Placed fs' base' tree left)
    (hbase : IsPlainBase base) (hbase' : IsPlainBase base')
    (htext : isAbsolute text = false)
    (hsome : text ≠ "") (hstays : Stays tree left text) :
    (∃ e e', expand fs (join base text) = .error e ∧
      expand fs' (join base' text) = .error e') ∨
      ∃ found found', expand fs (join base text) = .ok found ∧
        expand fs' (join base' text) = .ok found' ∧
        Twins fs fs' base base' tree left found found' := by
  obtain ⟨hlead, hbelow⟩ := Placed.below_foundAs hplaced hbase.single
  obtain ⟨hlead', hbelow'⟩ := Placed.below_foundAs hplaced' hbase'.single
  rcases expand_join hplaced.below_base.ne_empty htext hsome hbase.plain hlead with
    ⟨⟨e, he⟩, hbad⟩ | ⟨ps, n, hisOk, hps, hn, hfound⟩
  · rcases expand_join hplaced'.below_base.ne_empty htext hsome hbase'.plain hlead' with
      ⟨⟨e', he'⟩, -⟩ | ⟨ps', n', hisOk', hps', -⟩
    · exact .inl ⟨e, e', he, he'⟩
    · rw [hisOk', hps'] at hbad
      rcases hbad with hbad | ⟨e, hbad⟩ <;> cases hbad
  · rcases expand_join hplaced'.below_base.ne_empty htext hsome hbase'.plain hlead' with
      ⟨-, hbad⟩ | ⟨ps', n', hisOk', hps', hn', hfound'⟩
    · rw [hisOk, hps] at hbad
      rcases hbad with hbad | ⟨e, hbad⟩ <;> cases hbad
    · right
      obtain rfl := Except.ok.inj (hps.symm.trans hps')
      have hparts := areParts_of_mapM hstays.single hps
      have htwin : Twin fs fs' base base' tree left (foundAs base) (foundAs base') [] :=
        ⟨hbelow, hbelow', by rw [Node.encloses_eq]; rfl⟩
      refine ⟨_, _, hfound, hfound', ?_⟩
      -- both bounds are enough, so the larger one may stand for either
      rw [← expandFrom_of_le hwell hplaced.current (areSlashless_of_areParts hparts)
          hbelow.ne_empty hn (Nat.le_max_left n n'),
        ← expandFrom_of_le hwell' hplaced'.current (areSlashless_of_areParts hparts)
          hbelow'.ne_empty hn' (Nat.le_max_right n n')]
      exact expandFrom_twin hwell _ _ _ _ _ ps hparts htwin (hstays.inside ps hps)

end Glob

end AnimLint
