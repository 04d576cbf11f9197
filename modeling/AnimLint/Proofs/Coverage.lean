/-
AnimLint/Proofs/Coverage.lean

Which files a survey finds.  A walk lists a file if real directories lead to it
from the root (`Node.Reaches`) and nothing on the way, root and file included,
is left out: leaving out a directory leaves out what can be reached through it
and nothing else (`mem_walkNode`).  So a survey finds the files that some root
reaches over paths none of which is left out, whatever the other roots are, and
neither the order of what is asked for nor asking twice changes anything
(`survey_iff_reached`).

A root may be a link to a directory.  Then what the link leads to is walked
without asking whether the link itself is left out (`survey_enters_link`).
-/
import AnimLint.Proofs.Moving
import AnimLint.Proofs.Spellings

namespace AnimLint

namespace Files

/-! ### Walks -/

/-- Holds if real directories lead by some names from a node to another. -/
inductive Node.Reaches : Node → List String → Node → Prop
  | here (node : Node) : Reaches node [] node
  | enter {entries : List (String × Node)} {name : String} {child node : Node}
    {names : List String} :
      (name, child) ∈ entries → Reaches child names node →
        Reaches (.directory entries) (name :: names) node

/-- The path of what is reached from a path by some names. -/
def pathBelow (path : String) (names : List String) : String := names.foldl join path

theorem pathBelow_cons (path name : String) (names : List String) :
    pathBelow path (name :: names) = pathBelow (join path name) names := rfl

/-- Holds if nothing on the way from a path to what it reaches by some names is
left out. -/
def IsSpared (out : String → Bool) (path : String) (names : List String) : Prop :=
  ∀ front, front <+: names → out (pathBelow path front) = false

theorem isSpared_cons {out : String → Bool} {path name : String} {names : List String} :
    IsSpared out path (name :: names) ↔
      out path = false ∧ IsSpared out (join path name) names := by
  constructor
  · intro h
    refine ⟨h [] List.nil_prefix, fun front hfront => ?_⟩
    exact h (name :: front) ((List.prefix_cons_inj name).2 hfront)
  · rintro ⟨hpath, hrest⟩ front hfront
    rcases List.prefix_cons_iff.1 hfront with rfl | ⟨front, rfl, hbelow⟩
    · exact hpath
    · exact hrest front hbelow

theorem isSpared_nil {out : String → Bool} {path : String} :
    IsSpared out path [] ↔ out path = false := by
  refine ⟨fun h => h [] List.nil_prefix, fun h front hfront => ?_⟩
  rw [List.prefix_nil.1 hfront]
  exact h

/-- Holds if a walk from a path lists a file: real directories lead to it by
some names, nothing on the way is left out, and the file is wanted. -/
def IsWalked (out wanted : String → Bool) (path : String) (node : Node)
    (file : String) : Prop :=
  ∃ names content, node.Reaches names (.file content) ∧ IsSpared out path names ∧
    file = pathBelow path names ∧ wanted file = true

section Walk

variable {out wanted : String → Bool} {file : String}

/-- What is walked of a directory is walked of one of its entries. -/
theorem isWalked_directory {path : String} {entries : List (String × Node)} :
    IsWalked out wanted path (.directory entries) file ↔
      out path = false ∧ ∃ name child, (name, child) ∈ entries ∧
        IsWalked out wanted (join path name) child file := by
  constructor
  · rintro ⟨names, content, hreaches, hspared, hfile⟩
    cases hreaches with
    | @enter _ name child _ names hchild hreaches =>
      obtain ⟨hpath, hspared⟩ := isSpared_cons.1 hspared
      exact ⟨hpath, name, child, hchild, names, content, hreaches, hspared, hfile⟩
  · rintro ⟨hpath, name, child, hchild, names, content, hreaches, hspared, hfile⟩
    exact ⟨name :: names, content, .enter hchild hreaches,
      isSpared_cons.2 ⟨hpath, hspared⟩, hfile⟩

mutual

/-- A walk lists the wanted files that are reached without anything left out on
the way. -/
theorem mem_walkNode {path : String} {node : Node} :
    file ∈ walkNode out wanted path node ↔ IsWalked out wanted path node file := by
  cases node with
  | file content =>
    rw [walkNode, List.mem_ite_nil_right, List.mem_singleton, Bool.and_eq_true,
      Bool.not_eq_true']
    constructor
    · rintro ⟨⟨hpath, hwanted⟩, rfl⟩
      exact ⟨[], content, .here _, isSpared_nil.2 hpath, rfl, hwanted⟩
    · rintro ⟨names, content', hreaches, hspared, rfl, hwanted⟩
      cases hreaches
      exact ⟨⟨isSpared_nil.1 hspared, hwanted⟩, rfl⟩
  | directory entries =>
    rw [walkNode, List.mem_ite_nil_left, Bool.not_eq_true, mem_walkEntries,
      isWalked_directory]
  | link target =>
    constructor
    · intro h
      cases h
    · rintro ⟨names, content, hreaches, -⟩
      cases hreaches

/-- The same of the entries of a directory. -/
theorem mem_walkEntries {path : String} {entries : List (String × Node)} :
    file ∈ walkEntries out wanted path entries ↔
      ∃ name child, (name, child) ∈ entries ∧
        IsWalked out wanted (join path name) child file := by
  cases entries with
  | nil => simp [walkEntries]
  | cons entry rest =>
    obtain ⟨first, node⟩ := entry
    rw [walkEntries, List.mem_append, mem_walkNode, mem_walkEntries]
    constructor
    · rintro (hfirst | ⟨name, child, hchild, hwalked⟩)
      · exact ⟨first, node, List.mem_cons_self, hfirst⟩
      · exact ⟨name, child, List.mem_cons_of_mem _ hchild, hwalked⟩
    · rintro ⟨name, child, hchild, hwalked⟩
      rcases List.mem_cons.1 hchild with heq | hchild
      · obtain ⟨rfl, rfl⟩ := Prod.mk.inj heq
        exact .inl hwalked
      · exact .inr ⟨name, child, hchild, hwalked⟩

end

end Walk

/-! ### Roots that are links -/

/-- A link at the end of a path is met if it is not followed. -/
theorem Leads.unfollowed {root : Node} {n : Nat} {current names : List String}
    {place : Place} (h : Leads root true n current names place) :
    Leads root false n current names place ∨
      ∃ place' target, Leads root false n current names place' ∧ place'.node =
        some (.link target) := by
  induction h with
  | here => exact .inl .here
  | idle hidle _ ih =>
    exact ih.imp (.idle hidle) fun ⟨place', target, h, hnode⟩ =>
      ⟨place', target, .idle hidle h, hnode⟩
  | up _ ih => exact ih.imp .up fun ⟨place', target, h, hnode⟩ =>
    ⟨place', target, .up h, hnode⟩
  | absent hidle hup hnone => exact .inl (.absent hidle hup hnone)
  | enter hidle hup hdirectory _ ih =>
    exact ih.imp (.enter hidle hup hdirectory)
      fun ⟨place', target, h, hnode⟩ =>
        ⟨place', target, .enter hidle hup hdirectory h, hnode⟩
  | file hidle hup hfile => exact .inl (.file hidle hup hfile)
  | stop hthrough => cases hthrough
  | @link n current rest name target place _ hidle hup hlink _ ih =>
    cases rest with
    | nil => exact .inr ⟨_, target, .stop rfl hidle hup hlink, rfl⟩
    | cons next rest =>
      exact ih.imp (.link rfl hidle hup hlink)
        fun ⟨place', target', h, hnode⟩ =>
          ⟨place', target', .link rfl hidle hup hlink h, hnode⟩

namespace FileSystem

/-- Holds of the paths of symbolic links. -/
def IsLink (fs : FileSystem) (path : String) : Prop :=
  ∃ target, fs.nodeOrLink path = .ok (.link target)

theorem nodeOrLink_of_locate {fs : FileSystem} {path : String} {place : Place}
    {node : Node}
    (h : fs.locate false path = .ok place) (hnode : place.node = some node) :
    fs.nodeOrLink path = .ok node := by
  rw [nodeOrLink, h]
  simp only [nodeOf, hnode]

/-- A path that leads somewhere leads there without following a link at its end,
or to such a link. -/
theorem nodeOrLink_of_node {fs : FileSystem} {path : String} {node : Node}
    (h : fs.node path = .ok node) :
    fs.nodeOrLink path = .ok node ∨ fs.IsLink path := by
  obtain ⟨found, hlocate⟩ := locate_of_node h
  unfold locate at hlocate
  split at hlocate
  · cases hlocate
  · next hpath =>
    have hfalse {place : Place} (hleads : Leads fs.root false maxLinks
        (if isAbsolute path then [] else fs.current) (Files.names path) place) :
        fs.locate false path = .ok place := by
      rw [locate, if_neg hpath]
      exact follow_of_leads hleads
    rcases (leads_of_follow hlocate).unfollowed with hleads |
        ⟨place, target, hleads, hnode⟩
    · exact .inl (nodeOrLink_of_locate (hfalse hleads) rfl)
    · exact .inr ⟨target, nodeOrLink_of_locate (hfalse hleads) hnode⟩

/-- A path that leads to something other than a link leads there if links at its
end are followed. -/
theorem node_of_nodeOrLink {fs : FileSystem} {path : String} {node : Node}
    (h : fs.nodeOrLink path = .ok node) (hlink : node.isLink = false) :
    fs.node path = .ok node := by
  obtain ⟨found, hlocate⟩ := locate_of_nodeOrLink h
  rw [FileSystem.node, locate_followed hlocate hlink]
  rfl

/-- Holds if real directories lead by some names from a root to a regular file.
The root may be a link to a directory, and is no link to the file. -/
def WalksTo (fs : FileSystem) (root : String) (names : List String) : Prop :=
  ∃ start content, fs.node root = .ok start ∧ start.Reaches names (.file content) ∧
    (names = [] → ¬ fs.IsLink root)

end FileSystem

section Roots

variable {fs : FileSystem} {out wanted : String → Bool} {root file : String}

/-- Holds if a walk from a root finds a file: it is wanted, real directories
lead to it, and nothing on the way is left out; if the root is a link, the link
itself is not asked about. -/
def IsFound (fs : FileSystem) (leftOut : String → Prop) (root file : String) : Prop :=
  ∃ names, fs.WalksTo root names ∧ file = pathBelow root names ∧
    ∀ front, front <+: names → leftOut (pathBelow root front) → front = [] ∧
      fs.IsLink root

theorem isFound_of_plain {node : Node} (hroot : fs.nodeOrLink root = .ok node)
    (hlink : node.isLink = false) :
    IsWalked out wanted root node file ↔
      wanted file = true ∧ IsFound fs (fun path => out path = true) root file := by
  have hnode := FileSystem.node_of_nodeOrLink hroot hlink
  have hplain : ¬ fs.IsLink root := by
    rintro ⟨target, htarget⟩
    rw [hroot] at htarget
    rw [Except.ok.inj htarget] at hlink
    cases hlink
  constructor
  · rintro ⟨names, content, hreaches, hspared, hfile, hwanted⟩
    refine ⟨hwanted, names, ⟨node, content, hnode, hreaches, fun _ => hplain⟩, hfile, ?_⟩
    intro front hfront hout
    rw [hspared front hfront] at hout
    cases hout
  · rintro ⟨hwanted, names, ⟨start, content, hstart, hreaches, -⟩, hfile, hspared⟩
    obtain rfl := Except.ok.inj (hnode.symm.trans hstart)
    refine ⟨names, content, hreaches, fun front hfront => ?_, hfile, hwanted⟩
    exact Bool.eq_false_iff.2 fun hout => hplain (hspared front hfront hout).2

/-- Below a link the entries of what it leads to are walked. -/
theorem isFound_of_link (hroot : fs.IsLink root) {start : Node}
    (hstart : fs.node root = .ok start) :
    (∃ name child, (name, child) ∈ start.entries ∧
      IsWalked out wanted (join root name) child file) ↔
      wanted file = true ∧ IsFound fs (fun path => out path = true) root file := by
  constructor
  · rintro ⟨name, child, hchild, names, content, hreaches, hspared, hfile, hwanted⟩
    cases start with
    | directory entries =>
      refine ⟨hwanted, name :: names, ⟨_, content, hstart, .enter hchild hreaches,
        fun hnil => absurd hnil (List.cons_ne_nil _ _)⟩, hfile,
          fun front hfront hout => ?_⟩
      rcases List.prefix_cons_iff.1 hfront with rfl | ⟨front, rfl, hbelow⟩
      · exact ⟨rfl, hroot⟩
      · have hspared := hspared front hbelow
        rw [pathBelow_cons, hspared] at hout
        cases hout
    | file content => cases hchild
    | link target => cases hchild
  · rintro ⟨hwanted, names, ⟨start', content, hstart', hreaches, hfile⟩, hpath, hspared⟩
    obtain rfl := Except.ok.inj (hstart.symm.trans hstart')
    cases hreaches with
    | here => exact absurd hroot (hfile rfl)
    | @enter entries name child _ names hchild hreaches =>
      refine ⟨name, child, hchild, names, content, hreaches,
        fun front hfront => ?_, hpath, hwanted⟩
      refine Bool.eq_false_iff.2 fun hout => ?_
      have hnil := (hspared (name :: front) ((List.prefix_cons_inj name).2 hfront) hout).1
      cases hnil

/-- A walk from a path that leads somewhere reaches it. -/
theorem walk_of_node {start : Node} (hstart : fs.node root = .ok start) :
    ∃ files, walk fs out wanted root = .ok files := by
  unfold walk
  rcases FileSystem.nodeOrLink_of_node hstart with hplain | ⟨target, hlink⟩
  · rw [hplain]
    split
    · next h => cases h
    · rw [hstart]
      exact ⟨_, rfl⟩
    · exact ⟨_, rfl⟩
  · rw [hlink, hstart]
    exact ⟨_, rfl⟩

/-- A walk lists the wanted files that it finds from its root. -/
theorem mem_walk : (∃ files, walk fs out wanted root = .ok files ∧ file ∈ files) ↔
    wanted file = true ∧ IsFound fs (fun path => out path = true) root file := by
  rcases hwalk : walk fs out wanted root with e | files
  · -- what cannot be walked leads nowhere
    constructor
    · rintro ⟨files, hfiles, -⟩
      cases hfiles
    · rintro ⟨-, names, ⟨start, content, hstart, -⟩, -⟩
      obtain ⟨files, hfiles⟩ := @walk_of_node fs out wanted root start hstart
      rw [hwalk] at hfiles
      cases hfiles
  · have hmem : file ∈ files ↔
        wanted file = true ∧ IsFound fs (fun path => out path = true) root file := by
      unfold walk at hwalk
      split at hwalk
      · cases hwalk
      · next target hroot =>
        split at hwalk
        · cases hwalk
        · next start hstart =>
          obtain rfl := Except.ok.inj hwalk
          rw [mem_walkEntries]
          exact isFound_of_link ⟨target, hroot⟩ hstart
      · next node hlink hroot =>
        obtain rfl := Except.ok.inj hwalk
        rw [mem_walkNode]
        refine isFound_of_plain hroot ?_
        cases node with
        | file content => rfl
        | directory entries => rfl
        | link target => exact absurd rfl (hlink target)
    rw [← hmem]
    constructor
    · rintro ⟨files', hfiles, hfile⟩
      obtain rfl := Except.ok.inj hfiles
      exact hfile
    · exact fun hfile => ⟨files, rfl, hfile⟩

end Roots

end Files

open Files

/-! ### What is left out -/

/-- Holds of the paths that a request leaves out: their components start with
those of an ignored path joined to the base, or an ignored pattern stands for
them, or a pattern of test files if these are left out. -/
def SurveyRequest.LeavesOut (request : SurveyRequest) (path : String) : Prop :=
  (∃ text ∈ request.ignores, Glob.isPattern text = false ∧
    components (join request.base text) <+: components path) ∨
  ∃ text p, (text ∈ request.ignores ∧ Glob.isPattern text = true ∨
      request.ignoreTestFiles = true ∧ text ∈ testPatterns) ∧
    Glob.Pattern.parse text = .ok p ∧ p.covers path = true

theorem any_readable {texts : List String} {path : String} :
    (Ignores.readable texts).any (·.covers path) = true ↔
      ∃ text ∈ texts, ∃ p, Glob.Pattern.parse text = .ok p ∧ p.covers path = true := by
  rw [List.any_eq_true]
  constructor
  · rintro ⟨p, hp, hcovers⟩
    obtain ⟨text, htext, hparse⟩ := mem_readable hp
    exact ⟨text, htext, p, hparse, hcovers⟩
  · rintro ⟨text, htext, p, hparse, hcovers⟩
    exact ⟨p, List.mem_filterMap.2 ⟨text, htext, by rw [hparse]; rfl⟩, hcovers⟩

/-- What is left out of a survey is what the request leaves out. -/
theorem covers_ofRequest (request : SurveyRequest) (path : String) :
    (Ignores.ofRequest request).covers path = true ↔ request.LeavesOut path := by
  have hpaths : (Ignores.ofRequest request).paths.any (startsWith path) = true ↔
      ∃ text ∈ request.ignores, Glob.isPattern text = false ∧
        components (join request.base text) <+: components path := by
    simp [Ignores.ofRequest, startsWith, List.isPrefixOf_iff_prefix]
  have htests :
      (if request.ignoreTestFiles then Ignores.readable testPatterns else []).any
        (·.covers path) =
      true ↔ request.ignoreTestFiles = true ∧ ∃ text ∈ testPatterns, ∃ p,
        Glob.Pattern.parse text = .ok p ∧ p.covers path = true := by
    split
    · next hflag => rw [any_readable, and_iff_right hflag]
    · next hflag => simp [hflag]
  have hpatterns : (Ignores.ofRequest request).patterns.any (·.covers path) = true ↔
      ∃ text p, (text ∈ request.ignores ∧ Glob.isPattern text = true ∨
          request.ignoreTestFiles = true ∧ text ∈ testPatterns) ∧
        Glob.Pattern.parse text = .ok p ∧ p.covers path = true := by
    rw [Ignores.ofRequest, List.any_append, Bool.or_eq_true, any_readable, htests]
    constructor
    · rintro (⟨text, htext, p, hp⟩ | ⟨hflag, text, htext, p, hp⟩)
      · exact ⟨text, p, .inl (List.mem_filter.1 htext), hp⟩
      · exact ⟨text, p, .inr ⟨hflag, htext⟩, hp⟩
    · rintro ⟨text, p, htext | ⟨hflag, htext⟩, hp⟩
      · exact .inl ⟨text, List.mem_filter.2 htext, p, hp⟩
      · exact .inr ⟨hflag, text, htext, p, hp⟩
  rw [Ignores.covers, Bool.or_eq_true, hpaths, hpatterns, SurveyRequest.LeavesOut]

/-! ### The survey -/

section Survey

variable {fs : FileSystem} {request request' : SurveyRequest}

theorem mem_files_survey {file : String} : file ∈ (survey fs request).files ↔
    ∃ root, request.IsRoot fs root ∧ isSource file = true ∧
      IsFound fs request.LeavesOut root file := by
  have hout : (fun path => (Ignores.ofRequest request).covers path = true) =
      request.LeavesOut :=
    funext fun path => propext (covers_ofRequest request path)
  rw [files_survey, mem_sortedTexts, listed, walksOf]
  simp only [List.mem_flatMap, List.mem_map, exists_exists_and_eq_and,
    mem_scanRoots_iff, ← hout]
  refine exists_congr fun root => and_congr_right fun _ => Iff.trans ?_ mem_walk
  rcases walk fs (Ignores.ofRequest request).covers isSource root with e | files <;> simp

/-- Sorted texts are told by their members. -/
theorem sortedTexts_congr {texts texts' : List String}
    (h : ∀ text, text ∈ sortedTexts texts ↔ text ∈ sortedTexts texts') :
    sortedTexts texts = sortedTexts texts' := by
  have hsorted := pairwise_sortedTexts texts
  have hsorted' := pairwise_sortedTexts texts'
  exact List.Perm.eq_of_pairwise (fun a b _ _ hab hba => absurd hab (lt_asymm hba))
    hsorted hsorted'
    ((List.perm_ext_iff_of_nodup (hsorted.imp ne_of_lt) (hsorted'.imp ne_of_lt)).2 h)

/-- With includes every directory to walk is there, so none is skipped. -/
theorem skipped_of_includes (h : request.includes ≠ []) :
    (survey fs request).skipped = 0 := by
  rw [skipped_survey, unreachableCount, List.length_eq_zero_iff,
    List.filterMap_eq_nil_iff]
  intro walked hwalked
  obtain ⟨root, hroot, rfl⟩ := List.mem_map.1 hwalked
  have hnode : ∃ start, fs.node root = .ok start := by
    rcases mem_scanRoots_iff.1 hroot with
      ⟨hnone, -⟩ | ⟨text, -, ⟨-, -, hhas⟩ | ⟨-, found, -, -, hdirectory⟩⟩
    · exact absurd hnone h
    · unfold FileSystem.has at hhas
      rcases hnode : fs.node root with e | start
      · rw [hnode] at hhas
        cases hhas
      · exact ⟨start, rfl⟩
    · unfold FileSystem.hasDirectory at hdirectory
      rcases hnode : fs.node root with e | start
      · rw [hnode] at hdirectory
        cases hdirectory
      · exact ⟨start, rfl⟩
  obtain ⟨start, hstart⟩ := hnode
  obtain ⟨files, hfiles⟩ : ∃ files,
      walk fs (Ignores.ofRequest request).covers isSource root = .ok files :=
    walk_of_node hstart
  rw [hfiles]

/-- Holds of requests that ask for the same, in whatever order and however
often. -/
structure SurveyRequest.AsksAlike (request request' : SurveyRequest) : Prop where
  base : request.base = request'.base
  includes : ∀ text, text ∈ request.includes ↔ text ∈ request'.includes
  ignores : ∀ text, text ∈ request.ignores ↔ text ∈ request'.ignores
  ignoreTestFiles : request.ignoreTestFiles = request'.ignoreTestFiles

namespace SurveyRequest.AsksAlike

variable (h : request.AsksAlike request')

include h

theorem includes_eq_nil : request.includes = [] ↔ request'.includes = [] := by
  simp only [List.eq_nil_iff_forall_not_mem, h.includes]

theorem isRoot (root : String) : request.IsRoot fs root ↔ request'.IsRoot fs root := by
  rw [IsRoot, IsRoot, h.includes_eq_nil, h.base]
  simp only [h.includes]

theorem leavesOut : request.LeavesOut = request'.LeavesOut := by
  funext path
  simp only [LeavesOut, h.base, h.ignores, h.ignoreTestFiles]

theorem files_eq : (survey fs request).files = (survey fs request').files := by
  refine sortedTexts_congr fun file => ?_
  show file ∈ (survey fs request).files ↔ file ∈ (survey fs request').files
  simp only [mem_files_survey, h.isRoot, h.leavesOut]

theorem skipped_eq : (survey fs request).skipped = (survey fs request').skipped := by
  by_cases hnone : request.includes = []
  · have hnone' := h.includes_eq_nil.1 hnone
    have hcovers : (Ignores.ofRequest request).covers =
        (Ignores.ofRequest request').covers := by
      funext path
      rw [Bool.eq_iff_iff, covers_ofRequest, covers_ofRequest, h.leavesOut]
    rw [skipped_survey, skipped_survey, walksOf, walksOf, hcovers, scanRoots,
      scanRoots, hnone, hnone', h.base]
  · rw [skipped_of_includes hnone,
      skipped_of_includes fun hnil => hnone (h.includes_eq_nil.2 hnil)]

end SurveyRequest.AsksAlike

/-- **A survey finds the files that are asked for.**  It finds a file if the
file has one of the extensions and real directories lead to it from a root over
paths of which none is left out, root and file included; only a root that is
itself a link is not asked about.  So if no such root is left out, nothing on
the way is.  What is asked for may come in any order and more than once. -/
theorem survey_iff_reached (fs : FileSystem) (request : SurveyRequest) :
    (∀ file, file ∈ (survey fs request).files ↔
      (∃ e ∈ extensions, extension? file = some e) ∧
      ∃ root names, request.IsRoot fs root ∧
        fs.WalksTo root names ∧ file = pathBelow root names ∧
        ∀ front, front <+: names → request.LeavesOut (pathBelow root front) →
          front = [] ∧ fs.IsLink root) ∧
    ((∀ root, request.IsRoot fs root → fs.IsLink root → ¬ request.LeavesOut root) →
      ∀ file, file ∈ (survey fs request).files ↔
        (∃ e ∈ extensions, extension? file = some e) ∧
        ∃ root names, request.IsRoot fs root ∧
          fs.WalksTo root names ∧ file = pathBelow root names ∧
          ∀ front, front <+: names → ¬ request.LeavesOut (pathBelow root front)) ∧
    ∀ request', request.AsksAlike request' →
      (survey fs request').files = (survey fs request).files ∧
        (survey fs request').skipped = (survey fs request).skipped := by
  have hsource (file : String) : isSource file = true ↔
      ∃ e ∈ extensions, extension? file = some e := by
    rw [isSource]
    rcases extension? file with - | e <;> simp
  have hfiles (file : String) : file ∈ (survey fs request).files ↔
      (∃ e ∈ extensions, extension? file = some e) ∧
      ∃ root names, request.IsRoot fs root ∧
        fs.WalksTo root names ∧ file = pathBelow root names ∧
        ∀ front, front <+: names → request.LeavesOut (pathBelow root front) →
          front = [] ∧ fs.IsLink root := by
    rw [mem_files_survey, ← hsource]
    constructor
    · rintro ⟨root, hroot, hwanted, names, hnames⟩
      exact ⟨hwanted, root, names, hroot, hnames⟩
    · rintro ⟨hwanted, root, names, hroot, hnames⟩
      exact ⟨root, hroot, hwanted, names, hnames⟩
  refine ⟨hfiles, fun hlinks file => (hfiles file).trans ?_,
    fun request' h => ⟨h.files_eq.symm, h.skipped_eq.symm⟩⟩
  refine and_congr_right fun _ => exists_congr fun root => exists_congr fun names => ?_
  refine and_congr_right fun hroot => and_congr_right fun _ => and_congr_right fun _ => ?_
  constructor
  · intro hspared front hfront hout
    obtain ⟨rfl, hlink⟩ := hspared front hfront hout
    exact hlinks root hroot hlink hout
  · intro hspared front hfront hout
    exact absurd hout (hspared front hfront)

/-- A directory, a link to it, and directories in it of which one is to be left
out. -/
def linkedTree : FileSystem where
  root := .directory [
    ("lib", .directory [("a.js", .file (.text [])),
      ("old", .directory [("b.js", .file (.text []))]),
      ("self", .link "/lib")]),
    ("lnk", .link "lib")]
  current := []

theorem survey_iff_reached_linkedTree :
    let request : SurveyRequest := ⟨".", ["lnk", "lib"], ["lib/old"], true⟩
    let request' : SurveyRequest :=
      ⟨".", ["lib", "lnk", "lib"], ["lib/old", "lib/old"], true⟩
    (∀ root, request.IsRoot linkedTree root → linkedTree.IsLink root →
      ¬ request.LeavesOut root) ∧
      request.AsksAlike request' ∧
      (survey linkedTree request').files =
        ["./lib/a.js", "./lnk/a.js", "./lnk/old/b.js"] ∧
      ∃ root names, request.IsRoot linkedTree root ∧ linkedTree.WalksTo root names ∧
        "./lnk/old/b.js" = pathBelow root names ∧
        ∀ front, front <+: names → ¬ request.LeavesOut (pathBelow root front) := by
  intro request request'
  have hlinks : ∀ root, request.IsRoot linkedTree root → linkedTree.IsLink root →
      ¬ request.LeavesOut root := by
    rintro root hroot -
    have hroots : (scanRoots linkedTree request).1 = ["./lnk", "./lib"] := by
      decide +kernel
    rw [← mem_scanRoots_iff, hroots] at hroot
    rw [← covers_ofRequest]
    revert root
    decide +kernel
  have halike : request.AsksAlike request' :=
    ⟨rfl, by simp [request, request', or_comm], by simp [request, request'], rfl⟩
  have hfiles : (survey linkedTree request).files =
      ["./lib/a.js", "./lnk/a.js", "./lnk/old/b.js"] := by
    decide +kernel
  obtain ⟨-, hreached, hagain⟩ := survey_iff_reached linkedTree request
  refine ⟨hlinks, halike, (hagain request' halike).1.trans hfiles,
    ((hreached hlinks _).1 ?_).2⟩
  rw [hfiles]
  decide

/-- What a link among the roots leads to is found although the link is left out,
while a directory that is left out is not entered. -/
theorem survey_enters_link :
    let request : SurveyRequest := ⟨".", ["lnk"], ["**/lnk"], false⟩
    (survey linkedTree ⟨".", ["lib"], ["**/lib"], false⟩).files = [] ∧
      (survey linkedTree request).files = ["./lnk/a.js", "./lnk/old/b.js"] ∧
      ¬ ∀ file, file ∈ (survey linkedTree request).files ↔
        (∃ e ∈ extensions, extension? file = some e) ∧
        ∃ root names, request.IsRoot linkedTree root ∧
          linkedTree.WalksTo root names ∧ file = pathBelow root names ∧
          ∀ front, front <+: names → ¬ request.LeavesOut (pathBelow root front) := by
  intro request
  have hfiles : (survey linkedTree request).files =
      ["./lnk/a.js", "./lnk/old/b.js"] := by decide +kernel
  refine ⟨by decide +kernel, hfiles, fun h => ?_⟩
  have hfile : "./lnk/a.js" ∈ (survey linkedTree request).files := by
    rw [hfiles]
    decide
  obtain ⟨-, root, names, hroot, -, -, hspared⟩ := (h "./lnk/a.js").1 hfile
  have hroots : (scanRoots linkedTree request).1 = ["./lnk"] := by decide +kernel
  rw [← mem_scanRoots_iff, hroots, List.mem_singleton] at hroot
  subst hroot
  refine hspared [] List.nil_prefix ((covers_ofRequest request _).1 ?_)
  decide +kernel

end Survey

end AnimLint
