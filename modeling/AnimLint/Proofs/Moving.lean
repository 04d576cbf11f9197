/-
AnimLint/Proofs/Moving.lean

A survey at another place.  If one tree is placed at two bases, a survey finds
the same files below both (`survey_moves`), provided that what is asked for
stays in the tree (`SurveyRequest.StaysIn`) and that nothing that is asked for
reads the base: a pattern among the includes reads the base as a part of the
pattern, so the base must have no wildcards (`SurveyRequest.ReadsPlain`), and an
ignored pattern is held against the path with the base in front, so it must not
tell the two bases apart (`Glob.Pattern.Overlooks`).  Without these conditions
the law fails (`survey_reads_base`).
-/
import AnimLint.Proofs.BasePatterns
import AnimLint.Proofs.Overlooking

namespace AnimLint

open Files

/-! ### Files below two bases -/

section Pair

variable {fs fs' : FileSystem} {base base' : String} {tree : Node} {left : Nat}

/-- Paths with the same names behind two bases, and with the fronts of these
unless `free` holds. -/
structure Files.Pair (fs fs' : FileSystem) (base base' : String) (tree : Node)
    (left : Nat) (free : Prop)
    (path path' : String) (below : List String) : Prop where
  first : Below fs base tree left path below
  second : Below fs' base' tree left path' below
  fronts : free ∨ frontOf path = frontOf base ∧ frontOf path' = frontOf base'

variable {free : Prop} {path path' : String} {below : List String}

theorem Files.Pair.join {name : String}
    (h : Pair fs fs' base base' tree left free path path' below)
    (hname : isProperName name = true) :
    Pair fs fs' base base' tree left free (join path name) (join path' name)
      (extend below name) := by
  have hslash : '/' ∉ name.toList := (isProperName_iff.1 hname).2.2
  have hrelative := isAbsolute_of_not_mem hslash
  refine ⟨h.first.goesOn (goesOn_join hslash h.first.ne_empty),
    h.second.goesOn (goesOn_join hslash h.second.ne_empty),
    h.fronts.imp_right fun hfronts => ?_⟩
  rw [frontOf_join h.first.ne_empty hrelative, frontOf_join h.second.ne_empty hrelative]
  exact hfronts

/-- Names with a step among them end a path in the same way behind any base. -/
theorem Files.Pair.isSource_eq
    (h : Pair fs fs' base base' tree left free path path' below)
    (hbelow : below.all isIdle = false) : isSource path = isSource path' := by
  have hsome : stepsOf below ≠ [] := by
    intro hnil
    rw [stepsOf, List.filterMap_eq_nil_iff] at hnil
    refine Bool.eq_false_iff.1 hbelow (List.all_eq_true.2 fun name hname => ?_)
    have hidle := isIdle_of_component? (hnil name hname)
    rwa [String.ofList_toList] at hidle
  have hlast {fs : FileSystem} {base path : String}
      (h : Below fs base tree left path below) :
      (components path).getLast? = (stepsOf below).getLast? := by
    rw [components_eq, h.stepsOf_names, ← List.append_assoc, List.getLast?_append,
      List.getLast?_eq_some_getLast hsome]
    rfl
  have hname : fileName? path = fileName? path' := by
    rw [fileName?, fileName?, hlast h.first, hlast h.second]
  rw [isSource, isSource, extension?, extension?, hname]

/-! ### Walks -/

/-- Holds if the same is left out below two bases. -/
def OutAlike (fs fs' : FileSystem) (base base' : String) (tree : Node) (left : Nat)
    (free : Prop)
    (out out' : String → Bool) : Prop :=
  ∀ path path' below, Pair fs fs' base base' tree left free path path' below →
    out path = out' path'

section Walk

variable {out out' : String → Bool}

mutual

theorem walkNode_pair {node : Node} {path path' : String} {below : List String}
    (hout : OutAlike fs fs' base base' tree left free out out')
    (hnode : node.isWellNamed = true)
    (h : Pair fs fs' base base' tree left free path path' below)
    (hfile : node.isDirectory = true ∨ below.all isIdle = false) :
    List.Forall₂ (fun file file' =>
      ∃ below, Pair fs fs' base base' tree left free file file' below)
      (walkNode out isSource path node) (walkNode out' isSource path' node) := by
  cases node with
  | file content =>
    have hbelow : below.all isIdle = false := hfile.resolve_left Bool.false_ne_true
    rw [walkNode, walkNode, hout path path' below h, h.isSource_eq hbelow]
    split
    · exact .cons ⟨below, h⟩ .nil
    · exact .nil
  | directory entries =>
    rw [walkNode, walkNode, hout path path' below h]
    split
    · exact .nil
    · exact walkEntries_pair hout hnode h
  | link target => exact .nil

/-- Below two bases a walk of the same entries lists the same files. -/
theorem walkEntries_pair {entries : List (String × Node)} {path path' : String}
    {below : List String}
    (hout : OutAlike fs fs' base base' tree left free out out')
    (hentries : Node.areWellNamed entries = true)
    (h : Pair fs fs' base base' tree left free path path' below) :
    List.Forall₂ (fun file file' =>
      ∃ below, Pair fs fs' base base' tree left free file file' below)
      (walkEntries out isSource path entries)
        (walkEntries out' isSource path' entries) := by
  cases entries with
  | nil => exact .nil
  | cons entry rest =>
    obtain ⟨name, child⟩ := entry
    simp only [Node.areWellNamed, Bool.and_eq_true] at hentries
    obtain ⟨⟨⟨hname, -⟩, hchild⟩, hrest⟩ := hentries
    have hstep : (extend below name).all isIdle = false := by
      have hidle : isIdle name = false := (isProperName_iff.1 hname).1
      rw [extend]
      split
      · rw [List.all_cons, hidle, Bool.false_and]
      · rw [List.all_append, List.all_cons, hidle, Bool.false_and, Bool.and_false]
    rw [walkEntries, walkEntries]
    exact List.rel_append (walkNode_pair hout hchild (h.join hname) (.inr hstep))
      (walkEntries_pair hout hrest h)

end

/-- From two roots that lead to the same a walk lists the same files, or reaches
nothing from either. -/
theorem walk_pair (hout : OutAlike fs fs' base base' tree left free out out')
    (hwell : fs.root.isWellNamed = true) {root root' : String} {below : List String}
    (h : Pair fs fs' base base' tree left free root root' below)
    (hnode : fs.node root = fs'.node root')
    (hlink : fs.nodeOrLink root = fs'.nodeOrLink root')
    (hidle : below.all isIdle = true → fs.nodeOrLink root = .ok tree)
    (htree : tree.isDirectory = true) :
    (∃ e e', walk fs out isSource root = .error e ∧
      walk fs' out' isSource root' = .error e') ∨
      ∃ files files', walk fs out isSource root = .ok files ∧
        walk fs' out' isSource root' = .ok files' ∧
        List.Forall₂ (fun file file' =>
          ∃ below, Pair fs fs' base base' tree left free file file' below)
          files files' := by
  rw [walk, walk, ← hlink, ← hnode]
  rcases hroot : fs.nodeOrLink root with e | node
  · exact .inl ⟨_, _, rfl, rfl⟩
  obtain ⟨found, hlocate⟩ := FileSystem.locate_of_nodeOrLink hroot
  have hwellNode :=
    Node.isWellNamed_of_descend hwell (FileSystem.node_of_locate hlocate).symm
  have hfile : node.isDirectory = true ∨ below.all isIdle = false := by
    rcases hall : below.all isIdle with - | -
    · exact .inr rfl
    · obtain rfl := Except.ok.inj (hroot.symm.trans (hidle hall))
      exact .inl htree
  cases node with
  | link target =>
    rcases htarget : fs.node root with e | node
    · exact .inl ⟨_, _, rfl, rfl⟩
    · refine .inr ⟨_, _, rfl, rfl, ?_⟩
      obtain ⟨found', hlocate'⟩ := FileSystem.locate_of_node htarget
      have hwellNode' :=
        Node.isWellNamed_of_descend hwell (FileSystem.node_of_locate hlocate').symm
      cases node with
      | directory entries => exact walkEntries_pair hout hwellNode' h
      | file content => exact .nil
      | link target => exact .nil
  | file content => exact .inr ⟨_, _, rfl, rfl, walkNode_pair hout hwellNode h hfile⟩
  | directory entries => exact .inr ⟨_, _, rfl, rfl, walkNode_pair hout hwellNode h hfile⟩

end Walk

end Pair

/-! ### What is left out -/

theorem Files.Below.liesBehind {fs : FileSystem} {base path : String}
    {tree : Node} {left : Nat}
    {below : List String} (h : Below fs base tree left path below) :
    Glob.LiesBehind base below path := by
  obtain ⟨front, place, hnames, hsteps, -⟩ := h.exists_front
  exact ⟨h.isAbsolute_eq, front, hnames, hsteps⟩

/-- A path with the front of its base starts with a path that is joined to the
base if its own steps start with those of the other. -/
theorem startsWith_below {fs : FileSystem} {base path start : String}
    {tree : Node} {left : Nat}
    {below : List String} (hbase : base ≠ "") (h : Below fs base tree left path below)
    (hfront : frontOf path = frontOf base) (hstart : isAbsolute start = false) :
    startsWith path (join base start) =
      (stepsOf (names start)).isPrefixOf (stepsOf below) := by
  rw [startsWith, components_join hbase hstart, components_eq path, hfront,
    h.stepsOf_names, ← List.append_assoc, ← components_eq, Bool.eq_iff_iff,
    List.isPrefixOf_iff_prefix, List.isPrefixOf_iff_prefix, List.prefix_append_right_inj]

/-- Below two bases the same is left out, if no pattern tells the bases
apart. -/
theorem covers_pair {fs fs' : FileSystem} {request : SurveyRequest} {base' : String}
    {tree : Node} {left : Nat} (hbase : request.base ≠ "") (hbase' : base' ≠ "")
    (hignores : ∀ text ∈ request.ignores, isAbsolute text = false)
    (hoverlook : ∀ p ∈ (Ignores.ofRequest request).patterns,
      p.Overlooks request.base base') :
    OutAlike fs fs' request.base base' tree left
      (∀ text ∈ request.ignores, Glob.isPattern text = true)
      (Ignores.ofRequest request).covers
        (Ignores.ofRequest { request with base := base' }).covers := by
  intro path path' below h
  have hpatterns : (Ignores.ofRequest request).patterns.any (·.covers path) =
      (Ignores.ofRequest { request with base := base' }).patterns.any
        (·.covers path') := by
    show _ = (Ignores.ofRequest request).patterns.any (·.covers path')
    rw [Bool.eq_iff_iff, List.any_eq_true, List.any_eq_true]
    refine exists_congr fun p => and_congr_right fun hp => ?_
    rw [hoverlook p hp below path path' h.first.liesBehind h.second.liesBehind]
  have hpaths : (Ignores.ofRequest request).paths.any (startsWith path) =
      (Ignores.ofRequest { request with base := base' }).paths.any
        (startsWith path') := by
    show ((request.ignores.filter (!Glob.isPattern ·)).map (join request.base)).any
        (startsWith path) =
      ((request.ignores.filter (!Glob.isPattern ·)).map (join base')).any
        (startsWith path')
    rcases h.fronts with hfree | ⟨hfront, hfront'⟩
    · have hnone : request.ignores.filter (!Glob.isPattern ·) = [] := by
        rw [List.filter_eq_nil_iff]
        intro text htext
        rw [hfree text htext]
        exact Bool.false_ne_true
      rw [hnone]
      rfl
    · rw [List.any_map, List.any_map, Bool.eq_iff_iff, List.any_eq_true, List.any_eq_true]
      refine exists_congr fun text => and_congr_right fun htext => ?_
      have hrelative := hignores text (List.mem_of_mem_filter htext)
      rw [Function.comp_apply, Function.comp_apply,
        startsWith_below hbase h.first hfront hrelative,
        startsWith_below hbase' h.second hfront' hrelative]
  rw [Ignores.covers, Ignores.covers, hpatterns, hpaths]

/-! ### The survey -/

/-- The walks of a survey. -/
def walksOf (fs : FileSystem) (request : SurveyRequest) :
    List (Except Unreachable (List String)) :=
  (scanRoots fs request).1.map (walk fs (Ignores.ofRequest request).covers isSource)

/-- What walks list. -/
def listed (walks : List (Except Unreachable (List String))) : List String :=
  walks.flatMap fun
    | .ok files => files
    | .error _ => []

/-- How many walks reach nothing. -/
def unreachableCount (walks : List (Except Unreachable (List String))) : Nat :=
  (walks.filterMap fun
    | .ok _ => none
    | .error e => some (SurveyWarning.unreachable e)).length

theorem files_survey (fs : FileSystem) (request : SurveyRequest) :
    (survey fs request).files = sortedTexts (listed (walksOf fs request)) := rfl

theorem skipped_survey (fs : FileSystem) (request : SurveyRequest) :
    (survey fs request).skipped = unreachableCount (walksOf fs request) := rfl

/-- Holds of requests that ask only for what is in a tree. -/
structure SurveyRequest.StaysIn (request : SurveyRequest) (tree : Node)
    (left : Nat) : Prop where
  includes : ∀ text ∈ request.includes, isAbsolute text = false
  ignores : ∀ text ∈ request.ignores, isAbsolute text = false
  paths : ∀ text ∈ request.includes, Glob.isPattern text = false →
    tree.encloses left [] (names text) = true
  patterns : ∀ text ∈ request.includes, Glob.isPattern text = true →
    Glob.Stays tree left text

/-- Holds of bases that are read as names if a pattern is included; if a path is
ignored as well, the base has no `.` at its front, which what a pattern finds
has lost. -/
structure SurveyRequest.ReadsPlain (request : SurveyRequest) (base : String) : Prop where
  plain : ∀ text ∈ request.includes, Glob.isPattern text = true → Glob.IsPlainBase base
  front : ∀ text ∈ request.includes, Glob.isPattern text = true →
    (∀ text ∈ request.ignores, Glob.isPattern text = true) ∨ frontOf base ≠ [.here]

section Survey

variable {fs fs' : FileSystem} {request : SurveyRequest} {base' : String}
  {tree : Node} {left : Nat}

/-- Directories to walk below two bases: what they lead to is the same. -/
structure RootPair (fs fs' : FileSystem) (base base' : String) (tree : Node)
    (left : Nat) (free : Prop)
    (root root' : String) : Prop where
  node_eq : fs.node root = fs'.node root'
  nodeOrLink_eq : fs.nodeOrLink root = fs'.nodeOrLink root'
  exists_pair : ∃ below, Pair fs fs' base base' tree left free root root' below ∧
    (below.all isIdle = true → fs.nodeOrLink root = .ok tree)

/-- Names that stand for no step lead to the tree itself. -/
theorem seen_idle {tree : Node} {through : Bool} {left : Nat} {names : List String}
    (h : names.all isIdle = true) : tree.seen through left names = .ok tree := by
  have hleads : Leads tree through left [] names ⟨[], some tree⟩ := by
    induction names with
    | nil => exact .here
    | cons name names ih =>
      rw [List.all_cons, Bool.and_eq_true] at h
      exact .idle h.1 (ih h.2)
  rw [Node.seen, follow_of_leads hleads]
  rfl

theorem RootPair.of_twin {base : String} {free : Prop} {root root' : String}
    {below : List String}
    (h : Glob.Twin fs fs' base base' tree left root root' below) (hbelow : below ≠ [])
    (hfront : free ∨ frontOf root = frontOf base ∧ frontOf root' = frontOf base') :
    RootPair fs fs' base base' tree left free root root' := by
  refine ⟨h.node, h.nodeOrLink hbelow, below, ⟨h.first, h.second, hfront⟩,
    fun hidle => ?_⟩
  rw [h.first.nodeOrLink h.inside hbelow, seen_idle hidle]

theorem RootPair.filter_hasDirectory {base : String} {free : Prop}
    {found found' : List String}
    (hall : List.Forall₂ (fun path path' => ∃ below, below ≠ [] ∧
      Glob.Twin fs fs' base base' tree left path path' below) found found')
    (hfront : ∀ {path path' below},
      Glob.Twin fs fs' base base' tree left path path' below →
      free ∨ frontOf path = frontOf base ∧ frontOf path' = frontOf base') :
    List.Forall₂ (RootPair fs fs' base base' tree left free)
      (found.filter fs.hasDirectory)
      (found'.filter fs'.hasDirectory) := by
  induction hall with
  | nil => exact .nil
  | cons hpair _ ih =>
    obtain ⟨below, hbelow, htwin⟩ := hpair
    rw [List.filter_cons, List.filter_cons, htwin.hasDirectory]
    split
    · exact .cons (.of_twin htwin hbelow (hfront htwin)) ih
    · exact ih

variable (hwell : fs.root.isWellNamed = true) (hwell' : fs'.root.isWellNamed = true)
  (hplaced : Placed fs request.base tree left) (hplaced' : Placed fs' base' tree left)
  (hstays : request.StaysIn tree left) (hreads : request.ReadsPlain request.base)
  (hreads' : request.ReadsPlain base')

include hplaced hplaced' hstays

/-- An included path: both bases lead on by its names. -/
theorem rootsOf_path_pair {text : String} (htext : text ∈ request.includes)
    (hpattern : Glob.isPattern text = false) (free : Prop) :
    (∃ w w', rootsOf fs request.base text = .error w ∧
      rootsOf fs' base' text = .error w') ∨
      ∃ roots roots', rootsOf fs request.base text = .ok roots ∧
        rootsOf fs' base' text = .ok roots' ∧
        List.Forall₂ (RootPair fs fs' request.base base' tree left free)
          roots roots' := by
  have hrelative := hstays.includes text htext
  obtain ⟨hbelow, hfront⟩ := hplaced.below_join hrelative
  obtain ⟨hbelow', hfront'⟩ := hplaced'.below_join hrelative
  have htwin : Glob.Twin fs fs' request.base base' tree left (join request.base text)
      (join base' text) (names text) :=
    ⟨hbelow, hbelow', hstays.paths text htext hpattern⟩
  have hhas : fs.has (join request.base text) = fs'.has (join base' text) := by
    rw [FileSystem.has, FileSystem.has, htwin.node]
  rw [rootsOf, rootsOf, hpattern, hhas]
  rcases fs'.has (join base' text) with - | -
  · exact .inl ⟨_, _, rfl, rfl⟩
  · exact .inr ⟨_, _, rfl, rfl,
      .cons (.of_twin htwin (names_ne_nil text) (.inr ⟨hfront, hfront'⟩)) .nil⟩

include hwell hwell' hreads hreads'

/-- An included pattern: what it finds behind the one base it finds behind the
other. -/
theorem rootsOf_pattern_pair {text : String} (htext : text ∈ request.includes)
    (hpattern : Glob.isPattern text = true) :
    (∃ w w', rootsOf fs request.base text = .error w ∧
      rootsOf fs' base' text = .error w') ∨
      ∃ roots roots', rootsOf fs request.base text = .ok roots ∧
        rootsOf fs' base' text = .ok roots' ∧
        List.Forall₂ (RootPair fs fs' request.base base' tree left
          (∀ text ∈ request.ignores, Glob.isPattern text = true)) roots roots' := by
  have hsome : text ≠ "" := by
    rintro rfl
    cases hpattern
  have hfront : ∀ {path path' below},
      Glob.Twin fs fs' request.base base' tree left path path' below →
        (∀ text ∈ request.ignores, Glob.isPattern text = true) ∨
          frontOf path = frontOf request.base ∧ frontOf path' = frontOf base' := by
    intro path path' below htwin
    rcases hreads.front text htext hpattern with hfree | hfront
    · exact .inl hfree
    · rcases hreads'.front text htext hpattern with hfree | hfront'
      · exact .inl hfree
      · exact .inr ⟨htwin.first.frontOf_eq hfront, htwin.second.frontOf_eq hfront'⟩
  rw [rootsOf, rootsOf, hpattern]
  rcases Glob.expand_twin hwell hwell' hplaced hplaced' (hreads.plain text htext hpattern)
    (hreads'.plain text htext hpattern) (hstays.includes text htext) hsome
    (hstays.patterns text htext hpattern) with
    ⟨e, e', he, he'⟩ | ⟨found, found', hfound, hfound', hall⟩
  · rw [he, he']
    exact .inl ⟨_, _, rfl, rfl⟩
  · rw [hfound, hfound']
    exact .inr ⟨_, _, rfl, rfl, RootPair.filter_hasDirectory hall hfront⟩

theorem rootsOf_pair {text : String} (htext : text ∈ request.includes) :
    (∃ w w', rootsOf fs request.base text = .error w ∧
      rootsOf fs' base' text = .error w') ∨
      ∃ roots roots', rootsOf fs request.base text = .ok roots ∧
        rootsOf fs' base' text = .ok roots' ∧
        List.Forall₂ (RootPair fs fs' request.base base' tree left
          (∀ text ∈ request.ignores, Glob.isPattern text = true)) roots roots' := by
  rcases hpattern : Glob.isPattern text with - | -
  · exact rootsOf_path_pair hplaced hplaced' hstays htext hpattern _
  · exact rootsOf_pattern_pair hwell hwell' hplaced hplaced' hstays hreads hreads'
      htext hpattern

theorem scanRoots_pair :
    List.Forall₂ (RootPair fs fs' request.base base' tree left
      (∀ text ∈ request.ignores, Glob.isPattern text = true))
      (scanRoots fs request).1 (scanRoots fs' { request with base := base' }).1 := by
  rw [scanRoots, scanRoots]
  split
  · have htwin : Glob.Twin fs fs' request.base base' tree left request.base base' [] :=
      ⟨hplaced.below_base, hplaced'.below_base, by rw [Node.encloses_eq]; rfl⟩
    exact .cons ⟨htwin.node, hplaced.direct.trans hplaced'.direct.symm,
      [], ⟨htwin.first, htwin.second, .inr ⟨rfl, rfl⟩⟩, fun _ => hplaced.direct⟩ .nil
  · show List.Forall₂ _ ((request.includes.map (rootsOf fs request.base)).flatMap _)
      ((request.includes.map (rootsOf fs' base')).flatMap _)
    rw [List.flatMap_map, List.flatMap_map]
    refine Glob.forall₂_flatMap fun text htext => ?_
    obtain ⟨w, w', hw, hw'⟩ | ⟨roots, roots', hroots, hroots', hall⟩ :=
      rootsOf_pair hwell hwell' hplaced hplaced' hstays hreads hreads' htext
    · rw [hw, hw']
      exact .nil
    · rw [hroots, hroots']
      exact hall

/-- The walks of two surveys list the same files, and as many of them reach
nothing. -/
theorem walks_pair
    (hoverlook : ∀ p ∈ (Ignores.ofRequest request).patterns,
      p.Overlooks request.base base') :
    List.Forall₂ (fun file file' => ∃ below, Pair fs fs' request.base base' tree left
        (∀ text ∈ request.ignores, Glob.isPattern text = true) file file' below)
      (listed (walksOf fs request))
        (listed (walksOf fs' { request with base := base' })) ∧
    unreachableCount (walksOf fs request) =
      unreachableCount (walksOf fs' { request with base := base' }) := by
  have hroots := scanRoots_pair hwell hwell' hplaced hplaced' hstays hreads hreads'
  have hout := @covers_pair fs fs' request base' tree left hplaced.below_base.ne_empty
    hplaced'.below_base.ne_empty hstays.ignores hoverlook
  rw [walksOf, walksOf]
  generalize (scanRoots fs request).1 = roots at hroots ⊢
  generalize (scanRoots fs' { request with base := base' }).1 = roots' at hroots ⊢
  induction hroots with
  | nil => exact ⟨.nil, rfl⟩
  | cons hroot _ ih =>
    obtain ⟨below, hpair, hidle⟩ := hroot.exists_pair
    obtain ⟨hfiles, hskipped⟩ := ih
    rcases walk_pair hout hwell hpair hroot.node_eq hroot.nodeOrLink_eq hidle
        hplaced.isDirectory with
      ⟨e, e', he, he'⟩ | ⟨files, files', hwalk, hwalk', hall⟩
    · rw [List.map_cons, List.map_cons, he, he']
      exact ⟨hfiles, congrArg (· + 1) hskipped⟩
    · rw [List.map_cons, List.map_cons, hwalk, hwalk']
      exact ⟨List.rel_append hall hfiles, hskipped⟩

end Survey

/-- Holds if the files of a survey are those that `found` tells, seen from a
base. -/
def Survey.Finds (survey : Survey) (base : String)
    (found : List (List Component)) : Prop :=
  (∀ file ∈ survey.files, isAbsolute file = isAbsolute base) ∧
    ∀ steps, steps ∈ survey.files.map (fun file => stepsOf (names file)) ↔
      steps ∈ found.map (stepsOf (names base) ++ ·)

theorem mem_map_sortedTexts {α : Type} {f : String → α} {texts : List String} {x : α} :
    x ∈ (sortedTexts texts).map f ↔ x ∈ texts.map f := by
  simp only [List.mem_map, mem_sortedTexts]

/-- If one tree is placed at two bases, a survey finds the same files below
both, and skips as much. -/
theorem survey_moves {fs fs' : FileSystem} {request : SurveyRequest}
    {base' : String} {tree : Node}
    {left : Nat} (hwell : fs.root.isWellNamed = true)
    (hwell' : fs'.root.isWellNamed = true)
    (hplaced : Placed fs request.base tree left) (hplaced' : Placed fs' base' tree left)
    (hstays : request.StaysIn tree left) (hreads : request.ReadsPlain request.base)
    (hreads' : request.ReadsPlain base')
    (hoverlook : ∀ p ∈ (Ignores.ofRequest request).patterns,
      p.Overlooks request.base base') :
    ∃ found, (survey fs request).Finds request.base found ∧
      (survey fs' { request with base := base' }).Finds base' found ∧
      (survey fs request).skipped =
        (survey fs' { request with base := base' }).skipped := by
  obtain ⟨hall, hskipped⟩ :=
    walks_pair hwell hwell' hplaced hplaced' hstays hreads hreads' hoverlook
  have hfound : ∃ found : List (List Component),
      (∀ file ∈ listed (walksOf fs request), isAbsolute file = isAbsolute request.base) ∧
      (∀ file ∈ listed (walksOf fs' { request with base := base' }),
        isAbsolute file = isAbsolute base') ∧
      (listed (walksOf fs request)).map (fun file => stepsOf (names file)) =
        found.map (stepsOf (names request.base) ++ ·) ∧
      (listed (walksOf fs' { request with base := base' })).map
        (fun file => stepsOf (names file)) =
        found.map (stepsOf (names base') ++ ·) := by
    generalize listed (walksOf fs request) = files at hall ⊢
    generalize listed (walksOf fs' { request with base := base' }) = files' at hall ⊢
    induction hall with
    | nil => exact ⟨[], by simp⟩
    | cons hpair _ ih =>
      obtain ⟨below, hpair⟩ := hpair
      obtain ⟨found, habsolute, habsolute', hsteps, hsteps'⟩ := ih
      refine ⟨stepsOf below :: found, ?_, ?_, ?_, ?_⟩
      · exact List.forall_mem_cons.2 ⟨hpair.first.isAbsolute_eq, habsolute⟩
      · exact List.forall_mem_cons.2 ⟨hpair.second.isAbsolute_eq, habsolute'⟩
      · rw [List.map_cons, List.map_cons, hpair.first.stepsOf_names, hsteps]
      · rw [List.map_cons, List.map_cons, hpair.second.stepsOf_names, hsteps']
  obtain ⟨found, habsolute, habsolute', hsteps, hsteps'⟩ := hfound
  refine ⟨found, ⟨fun file hfile => ?_, fun steps => ?_⟩,
    ⟨fun file hfile => ?_, fun steps => ?_⟩,
    by rw [skipped_survey, skipped_survey, hskipped]⟩
  · rw [files_survey, mem_sortedTexts] at hfile
    exact habsolute file hfile
  · rw [files_survey, mem_map_sortedTexts, hsteps]
  · rw [files_survey, mem_sortedTexts] at hfile
    exact habsolute' file hfile
  · rw [files_survey, mem_map_sortedTexts, hsteps']

/-- A tree with files to find, and some to leave out. -/
def sources : Node :=
  .directory [
    ("src", .directory [("a.js", .file (.text [])),
      ("vendor", .directory [("v.js", .file (.text []))])]),
    ("lib", .directory
      [("one", .directory [("b.ts", .file (.text [])), ("b.test.ts", .file (.text [])),
      ("dist", .directory [("c.js", .file (.text []))])])])]

/-- A request for some of these. -/
def sourcesRequest (base : String) : SurveyRequest :=
  ⟨base, ["src", "lib/*"], ["src/vendor", "**/dist/**"], true⟩

/-- The tree at one place. -/
def atTop : FileSystem := ⟨.directory [("a", sources)], []⟩

/-- The tree at another place. -/
def furtherDown : FileSystem := ⟨.directory [("b", .directory [("c", sources)])], []⟩

theorem survey_moves_sources :
    (survey atTop (sourcesRequest "a")).files = ["a/lib/one/b.ts", "a/src/a.js"] ∧
      (survey furtherDown (sourcesRequest "b/c")).files =
        ["b/c/lib/one/b.ts", "b/c/src/a.js"] ∧
      ∃ found, (survey atTop (sourcesRequest "a")).Finds "a" found ∧
        (survey furtherDown (sourcesRequest "b/c")).Finds "b/c" found ∧
        (survey atTop (sourcesRequest "a")).skipped =
          (survey furtherDown (sourcesRequest "b/c")).skipped := by
  refine ⟨by decide +kernel, by decide +kernel, ?_⟩
  have hplaced : Placed atTop "a" sources maxLinks :=
    ⟨by decide, ⟨["a"], ⟨by decide, .enter (by decide) (by decide) rfl .here⟩, rfl⟩, rfl⟩
  have hplaced' : Placed furtherDown "b/c" sources maxLinks :=
    ⟨by decide, ⟨["b", "c"], ⟨by decide, .enter (by decide) (by decide) rfl
      (.enter (by decide) (by decide) rfl .here)⟩, rfl⟩, rfl⟩
  have hlinks : sources.hasLink = false := by decide
  have hstays : (sourcesRequest "a").StaysIn sources maxLinks := by
    refine ⟨by decide, by decide,
      fun text htext hpath => ?_, fun text htext hpattern => ?_⟩
    · refine Node.encloses_of_down hlinks ?_
      revert text
      decide
    · refine Glob.stays_of_leadsUp hlinks ?_ ?_
      · revert text
        decide
      · revert text
        decide
  have hreads {base : String} (hbase : Glob.IsPlainBase base)
      (hfront : frontOf base ≠ [.here]) :
      (sourcesRequest "a").ReadsPlain base :=
    ⟨fun _ _ _ => hbase, fun _ _ _ => .inr hfront⟩
  refine survey_moves (by decide) (by decide) hplaced hplaced' hstays
    (hreads ⟨by decide, by decide⟩ (by decide))
      (hreads ⟨by decide, by decide⟩ (by decide)) fun p hp => ?_
  rcases List.mem_append.1 hp with hp | hp
  · obtain ⟨text, htext, hparse⟩ := mem_readable hp
    have hone : ∀ text ∈ (sourcesRequest "a").ignores.filter Glob.isPattern,
        text = "**/" ++ "dist" ++ "/**" := by decide
    obtain rfl := hone text htext
    exact Glob.overlooks_directory (by decide) (by decide) hparse (by decide) (by decide)
  · exact overlooks_testPatterns (by decide) (by decide) p hp

/-- A base with a wildcard in it is read as a pattern, one with an ignored name
in it is ignored as a whole, and behind a base with a `.` at its front a pattern
finds what an ignored path leaves out. -/
theorem survey_reads_base :
    (survey ⟨.directory [("lab[1]", sources)], []⟩
      ⟨"lab[1]", ["lib/*"], [], true⟩).files = [] ∧
      (survey ⟨.directory [("lab", sources)], []⟩ ⟨"lab", ["lib/*"], [], true⟩).files =
        ["lab/lib/one/b.ts", "lab/lib/one/dist/c.js"] ∧
      (survey ⟨.directory [("dist", sources)], []⟩
        ⟨"dist", [], ["**/dist/**"], true⟩).files = [] ∧
      (survey atTop ⟨"a", [], ["**/dist/**"], true⟩).files =
        ["a/lib/one/b.ts", "a/src/a.js", "a/src/vendor/v.js"] ∧
      (survey atTop ⟨"./a", ["s*"], ["src/vendor"], true⟩).files =
        ["a/src/a.js", "a/src/vendor/v.js"] ∧
      (survey atTop ⟨"a", ["s*"], ["src/vendor"], true⟩).files = ["a/src/a.js"] := by
  decide +kernel

end AnimLint
