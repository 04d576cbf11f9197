/-
AnimLint/Proofs/Spellings.lean

A survey lists no file twice if it is asked for directories in one spelling.  In
a tree without links a path that goes on from some names through proper names
leads to the place of those names with the proper names behind it
(`Leads.exists_front`).  So of two paths with one front that lead to one file,
both are the same text (`SpelledFrom.eq_of_sameFile`).

All that a survey lists is spelled from one front, if the includes are proper
names with single slashes between them and either all are paths, or all are
patterns below a base without wildcards, or the base is spelled like the
includes (`SurveyRequest.IsUniform`): a walk goes through proper names
(`spelledFrom_walk`), and the expansion of a pattern as well
(`spelled_expandFrom`).  What a survey keeps apart is the text of a path, so a
`.` in an include is enough for a file to be listed twice
(`survey_lists_twice`).
-/
import AnimLint.Proofs.Arrival
import AnimLint.Proofs.Expansion
import Mathlib.Data.String.Basic

namespace AnimLint

namespace Files

/-! ### Trees without links -/

namespace Node

mutual

/-- Holds of trees with a link in them. -/
def hasLink : Node → Bool
  | file _ => false
  | directory entries => haveLink entries
  | link _ => true

/-- The same of the entries of a directory. -/
def haveLink : List (String × Node) → Bool
  | [] => false
  | (_, node) :: rest => node.hasLink || haveLink rest

end

theorem hasLink_of_mem {entries : List (String × Node)}
    (h : haveLink entries = false) {name : String}
    {node : Node} (hmem : (name, node) ∈ entries) : node.hasLink = false := by
  induction entries with
  | nil => cases hmem
  | cons entry rest ih =>
    obtain ⟨first, child⟩ := entry
    rw [haveLink, Bool.or_eq_false_iff] at h
    rcases List.mem_cons.1 hmem with heq | hmem
    · obtain ⟨rfl, rfl⟩ := Prod.mk.inj heq
      exact h.1
    · exact ih h.2 hmem

theorem hasLink_of_descend {root node : Node} {place : List String}
    (hroot : root.hasLink = false)
    (h : root.descend? place = some node) : node.hasLink = false := by
  induction place generalizing root with
  | nil =>
    obtain rfl := Option.some.inj h
    exact hroot
  | cons name rest ih =>
    obtain ⟨entries, child, rfl, hchild, hrest⟩ := child_of_descend h
    exact ih (hasLink_of_mem hroot (mem_of_lookup hchild)) hrest

/-- In a tree without links no names lead to one. -/
theorem descend_ne_link {root : Node} (hroot : root.hasLink = false) (place : List String)
    (target : String) : root.descend? place ≠ some (.link target) := by
  intro h
  have hlink := hasLink_of_descend hroot h
  cases hlink

end Node

/-! ### Proper names lead down -/

theorem not_proper_of_isIdle {name : String} (h : isIdle name = true) :
    isProperName name ≠ true := by
  intro hproper
  rw [(isProperName_iff.1 hproper).1] at h
  cases h

section Leads

variable {root : Node} {through : Bool} {n : Nat} {current names : List String}
  {place : Place} (hlinks : root.hasLink = false)

include hlinks

/-- Proper names lead to the place they name, if something is there. -/
theorem Leads.eq_append (h : Leads root through n current names place)
    (hsome : place.node.isSome = true)
    (hnames : ∀ name ∈ names, isProperName name = true) :
    place.names = current ++ names := by
  induction h with
  | here => exact (List.append_nil _).symm
  | idle hidle => exact absurd (hnames _ List.mem_cons_self) (not_proper_of_isIdle hidle)
  | up => exact absurd (hnames _ List.mem_cons_self) (by decide)
  | absent => cases hsome
  | enter _ _ _ _ ih =>
    rw [ih hsome fun other hother => hnames other (List.mem_cons_of_mem _ hother),
      List.append_assoc, List.singleton_append]
  | file => rfl
  | stop _ _ _ hlink => exact absurd hlink (Node.descend_ne_link hlinks _ _)
  | link _ _ _ hlink => exact absurd hlink (Node.descend_ne_link hlinks _ _)

/-- Where names lead that end in proper names is the place of the names in front
of those, with the proper names behind it. -/
theorem Leads.exists_front {front rest : List String}
    (h : Leads root through n current (front ++ rest) place)
    (hsome : place.node.isSome = true)
    (hrest : ∀ name ∈ rest, isProperName name = true) :
    ∃ place', Leads root through n current front place' ∧ place.names =
      place'.names ++ rest := by
  induction front generalizing n current with
  | nil => exact ⟨⟨current, _⟩, .here, h.eq_append hlinks hsome hrest⟩
  | cons first front ih =>
    rw [List.cons_append] at h
    generalize htail : front ++ rest = tail at h
    cases h with
    | idle hidle h =>
      subst htail
      obtain ⟨place', hfront, hnames⟩ := ih h
      exact ⟨place', .idle hidle hfront, hnames⟩
    | up h =>
      subst htail
      obtain ⟨place', hfront, hnames⟩ := ih h
      exact ⟨place', .up hfront, hnames⟩
    | absent => cases hsome
    | enter hidle hup hdirectory h =>
      subst htail
      obtain ⟨place', hfront, hnames⟩ := ih h
      exact ⟨place', .enter hidle hup hdirectory hfront, hnames⟩
    | file hidle hup hfile =>
      obtain ⟨rfl, rfl⟩ := List.append_eq_nil_iff.1 htail
      exact ⟨_, .file hidle hup hfile, (List.append_nil _).symm⟩
    | stop _ _ _ hlink => exact absurd hlink (Node.descend_ne_link hlinks _ _)
    | link _ _ _ hlink => exact absurd hlink (Node.descend_ne_link hlinks _ _)

end Leads

/-! ### Paths with one front -/

/-- Holds of paths that go on from the names `front` through proper names. -/
def SpelledFrom (absolute : Bool) (front : List String) (path : String) : Prop :=
  isAbsolute path = absolute ∧
    ∃ rest, names path = front ++ rest ∧ ∀ name ∈ rest, isProperName name = true

section Spelled

variable {fs : FileSystem} {absolute : Bool} {front : List String}

theorem SpelledFrom.exists_place (hlinks : fs.root.hasLink = false) {path : String}
    (h : SpelledFrom absolute front path) {found : List String} {content : Content}
    (hlocate : fs.locate true path = .ok ⟨found, some (.file content)⟩) :
    ∃ place rest, follow fs.root true maxLinks
      (if absolute then [] else fs.current) front =
      .ok place ∧ names path = front ++ rest ∧ found = place.names ++ rest := by
  obtain ⟨rfl, rest, hnames, hproper⟩ := h
  unfold FileSystem.locate at hlocate
  split at hlocate
  · cases hlocate
  · rw [hnames] at hlocate
    obtain ⟨place, hplace, hfound⟩ :=
      (leads_of_follow hlocate).exists_front hlinks rfl hproper
    exact ⟨place, rest, follow_of_leads hplace, hnames, hfound⟩

/-- In a tree without links two paths with one front that lead to one file are
the same. -/
theorem SpelledFrom.eq_of_sameFile (hlinks : fs.root.hasLink = false)
    {path path' : String}
    (h : SpelledFrom absolute front path) (h' : SpelledFrom absolute front path')
    (hown : fs.HasOwnName path) (hown' : fs.HasOwnName path')
    (hsame : fs.sameFile path path' = true) : path = path' := by
  obtain ⟨found, -, content, hlocate, -⟩ := hown
  obtain ⟨found', -, content', hlocate', -⟩ := hown'
  obtain ⟨place, rest, hfollow, hnames, rfl⟩ := h.exists_place hlinks hlocate
  obtain ⟨place', rest', hfollow', hnames', rfl⟩ := h'.exists_place hlinks hlocate'
  obtain rfl := Except.ok.inj (hfollow.symm.trans hfollow')
  obtain ⟨common, hplace, hplace'⟩ := FileSystem.sameFile_iff.1 hsame
  rw [FileSystem.place?, hlocate] at hplace
  rw [FileSystem.place?, hlocate'] at hplace'
  have hrest : rest = rest' :=
    List.append_cancel_left (Option.some.inj (hplace.trans hplace'.symm))
  apply names_injective
  rw [hnames, hnames', hrest]

end Spelled

/-! ### Walks -/

/-- Holds of paths to walk from: what lies below them goes on from `front`
through proper names. -/
def RootedFrom (absolute : Bool) (front : List String) (path : String) : Prop :=
  isAbsolute path = absolute ∧
    ∃ rest, stem path = front ++ rest ∧ ∀ name ∈ rest, isProperName name = true

theorem rootedFrom_self (path : String) : RootedFrom (isAbsolute path) (stem path) path :=
  ⟨rfl, [], (List.append_nil _).symm, fun _ h => absurd h List.not_mem_nil⟩

/-- Joining proper names leads on from the same front. -/
theorem RootedFrom.join {absolute : Bool} {front : List String} {directory path : String}
    (h : RootedFrom absolute front directory) (hrelative : isAbsolute path = false)
    (hpath : ∀ name ∈ stem path, isProperName name = true) :
    RootedFrom absolute front (join directory path) := by
  obtain ⟨habsolute, rest, hstem, hrest⟩ := h
  refine ⟨(isAbsolute_join hrelative).trans habsolute, rest ++ stem path, ?_, ?_⟩
  · rw [stem_join hrelative, hstem, List.append_assoc]
  · intro name hname
    rcases List.mem_append.1 hname with hname | hname
    · exact hrest name hname
    · exact hpath name hname

section Walk

variable {out wanted : String → Bool}

theorem stem_of_proper {name : String} (hname : isProperName name = true) :
    stem name = [name] := by
  have hsome : name ≠ "" := by
    rintro rfl
    cases hname
  have hnames : names name = [] ++ [name] := names_of_proper hname
  rw [stem_of_append hnames, if_neg hsome]
  rfl

/-- A path that goes on from `front` through a proper name is where what lies
below it goes on from. -/
theorem RootedFrom.spelledFrom {absolute : Bool} {front : List String} {path : String}
    (h : RootedFrom absolute front path) {file : String}
    (hfile : SpelledFrom (isAbsolute path) (stem path) file) :
    SpelledFrom absolute front file := by
  obtain ⟨habsolute, rest, hstem, hrest⟩ := h
  obtain ⟨hpath, below, hnames, hbelow⟩ := hfile
  refine ⟨hpath.trans habsolute,
    rest ++ below, by rw [hnames, hstem, List.append_assoc], ?_⟩
  intro name hname
  rcases List.mem_append.1 hname with hname | hname
  · exact hrest name hname
  · exact hbelow name hname

mutual

theorem spelledFrom_walkNode {path : String} {node : Node}
    (hnode : node.isWellNamed = true) :
    ∀ file ∈ walkNode out wanted path node,
      SpelledFrom (isAbsolute path) (stem path) file ∨
        file = path ∧ ∃ content, node = .file content := by
  intro file hmem
  cases node with
  | file content =>
    rw [walkNode] at hmem
    split at hmem
    · exact .inr ⟨List.mem_singleton.1 hmem, content, rfl⟩
    · cases hmem
  | directory entries =>
    rw [walkNode] at hmem
    split at hmem
    · cases hmem
    · exact .inl (spelledFrom_walkEntries hnode file hmem)
  | link target => cases hmem

/-- What is listed of a directory goes on from it through proper names. -/
theorem spelledFrom_walkEntries {path : String} {entries : List (String × Node)}
    (hentries : Node.areWellNamed entries = true) :
    ∀ file ∈ walkEntries out wanted path entries,
      SpelledFrom (isAbsolute path) (stem path) file := by
  intro file hmem
  cases entries with
  | nil => cases hmem
  | cons entry rest =>
    obtain ⟨name, child⟩ := entry
    simp only [Node.areWellNamed, Bool.and_eq_true] at hentries
    obtain ⟨⟨⟨hname, -⟩, hchild⟩, hrest⟩ := hentries
    have hproper : ∀ other ∈ [name], isProperName other = true := by
      intro other hother
      rwa [List.mem_singleton.1 hother]
    rw [walkEntries, List.mem_append] at hmem
    rcases hmem with hmem | hmem
    · rcases spelledFrom_walkNode hchild file hmem with hbelow | ⟨rfl, -⟩
      · have hroot : RootedFrom (isAbsolute path) (stem path) (join path name) :=
          (rootedFrom_self path).join (isAbsolute_of_proper hname)
            (by rwa [stem_of_proper hname])
        exact hroot.spelledFrom hbelow
      · exact ⟨isAbsolute_join (isAbsolute_of_proper hname), [name], by
          rw [names_join (isAbsolute_of_proper hname), names_of_proper hname], hproper⟩
    · exact spelledFrom_walkEntries hrest file hmem

end

/-- A path to a file has no empty last name. -/
theorem stem_of_file {fs : FileSystem} (hcurrent : fs.hasDirectory "." = true)
    {path : String}
    {content : Content} (h : fs.nodeOrLink path = .ok (.file content)) :
    stem path = names path := by
  rcases List.eq_nil_or_concat (names path) with hnil | ⟨front, last, hnames⟩
  · exact absurd hnil (names_ne_nil path)
  · rw [List.concat_eq_append] at hnames
    rw [stem_of_append hnames, hnames]
    split
    · next hlast =>
      exfalso
      obtain ⟨entries, hdirectory⟩ := FileSystem.exists_current hcurrent
      obtain ⟨entries', hstart⟩ := Node.directory_start hdirectory (isAbsolute path)
      obtain ⟨found, hlocate⟩ := FileSystem.locate_of_nodeOrLink h
      unfold FileSystem.locate at hlocate
      split at hlocate
      · cases hlocate
      · rw [hnames, hlast] at hlocate
        exact (leads_of_follow hlocate).not_file rfl (List.cons_ne_nil _ _) hstart
    · rfl

/-- What a walk lists goes on from its root through proper names. -/
theorem spelledFrom_walk {fs : FileSystem} (hwell : fs.root.isWellNamed = true)
    (hcurrent : fs.hasDirectory "." = true) {root : String} {files : List String}
    (h : walk fs out wanted root = .ok files) :
    ∀ file ∈ files, SpelledFrom (isAbsolute root) (stem root) file := by
  have hnode {through : Bool} {found : List String} {node : Node}
      (h : fs.locate through root = .ok ⟨found, some node⟩) : node.isWellNamed = true :=
    Node.isWellNamed_of_descend hwell (FileSystem.node_of_locate h).symm
  unfold walk at h
  split at h
  · cases h
  · -- behind a link there are entries only if it leads to a directory
    split at h
    · cases h
    · next node hroot =>
      obtain rfl := Except.ok.inj h
      obtain ⟨found, hlocate⟩ := FileSystem.locate_of_node hroot
      cases node with
      | directory entries => exact spelledFrom_walkEntries (hnode hlocate)
      | file content => intro file hmem; cases hmem
      | link target => intro file hmem; cases hmem
  · next node hlink hroot =>
    obtain rfl := Except.ok.inj h
    obtain ⟨found, hlocate⟩ := FileSystem.locate_of_nodeOrLink hroot
    intro file hmem
    rcases spelledFrom_walkNode (hnode hlocate) file hmem with hbelow |
        ⟨rfl, content, rfl⟩
    · exact hbelow
    · exact ⟨rfl, [], by rw [List.append_nil, stem_of_file hcurrent hroot], by simp⟩

end Walk

end Files

/-! ### Patterns -/

namespace Glob

open Files

/-- Holds of components that lead down only: to a name, and neither to `.` nor
to `..`. -/
def Pattern.leadsDown (p : Pattern) : Bool :=
  match p.literal? with
  | some name => isProperName (String.ofList name)
  | none => !(p.tokens.head? == some (.char '.') && (p.covers "." || p.covers ".."))

/-- A component that leads down goes on by a proper name, which is put under the
path. -/
theorem Step.down_of_leadsDown {fs : FileSystem} (hwell : fs.root.isWellNamed = true)
    {path name next : String} {p : Pattern} {ps qs : List Pattern}
    (hp : p.leadsDown = true) (h : Step fs path p ps name next qs) :
    isProperName name = true ∧ next = under path name := by
  cases h with
  | literal hliteral =>
    rw [Pattern.leadsDown, hliteral] at hp
    exact ⟨hp, rfl⟩
  | entry _ hname => exact ⟨proper_of_namesIn hwell hname, rfl⟩
  | last _ hname => exact ⟨proper_of_namesIn hwell hname, rfl⟩
  | down _ hname => exact ⟨proper_of_namesIn hwell hname, rfl⟩
  | dots hliteral hname hhead hcovers =>
    exfalso
    rw [Pattern.leadsDown, hliteral] at hp
    rcases hname with rfl | rfl <;> simp [hhead, hcovers] at hp

theorem spelledFrom_under {path name : String} (hname : isProperName name = true) :
    SpelledFrom (isAbsolute path) (underStem path) (under path name) ∧
      underStem (under path name) = names (under path name) := by
  have hunder := @names_under path _ (isAbsolute_of_proper hname)
  rw [names_of_proper hname] at hunder
  refine ⟨⟨isAbsolute_under (isAbsolute_of_proper hname), [name], hunder,
    fun other hother => ?_⟩,
    underStem_of_proper hunder hname⟩
  rwa [List.mem_singleton.1 hother]

/-- What goes on from one proper name further on goes on from here. -/
theorem spelledFrom_of_under {path name found : String} (hname : isProperName name = true)
    (h : SpelledFrom (isAbsolute (under path name)) (underStem (under path name)) found) :
    SpelledFrom (isAbsolute path) (underStem path) found := by
  obtain ⟨habsolute, rest, hnames, hrest⟩ := h
  have hunder := @names_under path _ (isAbsolute_of_proper hname)
  rw [names_of_proper hname] at hunder
  rw [underStem_of_proper hunder hname, hunder, List.append_assoc,
    List.singleton_append] at hnames
  rw [isAbsolute_under (isAbsolute_of_proper hname)] at habsolute
  exact ⟨habsolute, name :: rest, hnames, List.forall_mem_cons.2 ⟨hname, hrest⟩⟩

/-- What components that lead down expand to goes on through proper names, one
at least. -/
theorem spelled_expandFrom {fs : FileSystem} (hwell : fs.root.isWellNamed = true)
    {directoryOnly : Bool} {n : Nat} {path : String} {ps : List Pattern}
    (hps : ∀ p ∈ ps, p.leadsDown = true) :
    ∀ found ∈ expandFrom fs directoryOnly n path ps,
      SpelledFrom (isAbsolute path) (underStem path) found ∧
        underStem found = names found := by
  induction n generalizing path ps with
  | zero => intro found h; cases h
  | succ n ih =>
    intro found hfound
    rcases ps with - | ⟨p, ps⟩
    · cases hfound
    obtain ⟨name, next, qs, hstep, hfound⟩ := exists_step_of_mem hfound
    obtain ⟨hname, rfl⟩ := hstep.down_of_leadsDown hwell (hps p List.mem_cons_self)
    unfold onward at hfound
    split at hfound
    · obtain ⟨hspelled, hstem⟩ := ih (fun q hq => hps q (hstep.subset hq)) found hfound
      exact ⟨spelledFrom_of_under hname hspelled, hstem⟩
    · split at hfound
      · cases hfound
      · rw [List.mem_singleton.1 hfound]
        exact spelledFrom_under hname

/-- The same of what is walked afterwards. -/
theorem rooted_expandFrom {fs : FileSystem} (hwell : fs.root.isWellNamed = true)
    {directoryOnly : Bool}
    {n : Nat} {path : String} {ps : List Pattern} (hps : ∀ p ∈ ps, p.leadsDown = true) :
    ∀ found ∈ expandFrom fs directoryOnly n path ps,
      RootedFrom (isAbsolute path) (underStem path) found := by
  intro found hfound
  obtain ⟨⟨habsolute, rest, hnames, hrest⟩, hstem⟩ :=
    spelled_expandFrom hwell hps found hfound
  refine ⟨habsolute, rest, ?_, hrest⟩
  rw [← hnames, ← hstem, underStem, if_neg]
  intro hhere
  rw [underStem, if_pos hhere] at hstem
  exact names_ne_nil found hstem.symm

end Glob

open Files

/-! ### Surveys -/

theorem pairwise_insertText {text : String} {texts : List String}
    (h : texts.Pairwise (· < ·)) :
    (insertText text texts).Pairwise (· < ·) := by
  induction texts with
  | nil => exact List.pairwise_singleton _ _
  | cons first rest ih =>
    obtain ⟨hfirst, hrest⟩ := List.pairwise_cons.1 h
    rw [insertText]
    split
    · next hlt =>
      refine List.pairwise_cons.2 ⟨fun other hother => ?_, h⟩
      rcases List.mem_cons.1 hother with rfl | hother
      · exact hlt
      · exact hlt.trans (hfirst other hother)
    · next hlt =>
      split
      · exact h
      · next hne =>
        refine List.pairwise_cons.2 ⟨fun other hother => ?_, ih hrest⟩
        rcases mem_insertText.1 hother with rfl | hother
        · exact lt_of_le_of_ne (not_lt.1 hlt) (Ne.symm hne)
        · exact hfirst other hother

/-- Sorted texts ascend, so none stands twice. -/
theorem pairwise_sortedTexts (texts : List String) :
    (sortedTexts texts).Pairwise (· < ·) := by
  induction texts with
  | nil => exact List.Pairwise.nil
  | cons text texts ih => exact pairwise_insertText ih

/-- Holds of components that, read as patterns, lead down only. -/
def isDownward (part : String) : Bool :=
  match Glob.Pattern.parse part with
  | .ok p => p.leadsDown
  | .error _ => true

/-- Holds of requests that spell each directory in one way.  Without the second
and the third condition a pattern may find `.` and `..`, and `./src` is found as
`src`. -/
structure SurveyRequest.IsUniform (request : SurveyRequest) : Prop where
  proper : ∀ text ∈ request.includes, (stem text).all isProperName = true
  downward : ∀ text ∈ request.includes, Glob.isPattern text = true →
    (stem text).all isDownward = true
  alike : (∀ text ∈ request.includes, Glob.isPattern text = false) ∨
    (pathParts request.base).all
      (fun part => isProperName part && isDownward part) = true ∨
    (∀ text ∈ request.includes, Glob.isPattern text = true) ∧
      request.base.toList.any Glob.isWildcard = false

section Roots

variable {fs : FileSystem} {request : SurveyRequest}

/-- Holds of the directories to walk: the base if nothing is included, else each
included path that leads somewhere, and each directory that an included pattern
finds. -/
def SurveyRequest.IsRoot (request : SurveyRequest) (fs : FileSystem)
    (root : String) : Prop :=
  request.includes = [] ∧ root = request.base ∨
    ∃ text ∈ request.includes,
      Glob.isPattern text = false ∧ root = join request.base text ∧ fs.has root = true ∨
        Glob.isPattern text = true ∧
        ∃ found, Glob.expand fs (join request.base text) = .ok found ∧
          root ∈ found ∧ fs.hasDirectory root = true

theorem mem_rootsOf {base text root : String} :
    (∃ roots, rootsOf fs base text = .ok roots ∧ root ∈ roots) ↔
      Glob.isPattern text = false ∧ root = join base text ∧ fs.has root = true ∨
        Glob.isPattern text = true ∧
        ∃ found, Glob.expand fs (join base text) = .ok found ∧
          root ∈ found ∧ fs.hasDirectory root = true := by
  rcases hpattern : Glob.isPattern text with - | -
  · rcases hhas : fs.has (join base text) with - | -
    · simp only [rootsOf, hpattern, hhas]
      constructor
      · rintro ⟨roots, hroots, -⟩
        cases hroots
      · rintro (⟨-, rfl, hroot⟩ | ⟨hroot, -⟩)
        · rw [hhas] at hroot
          cases hroot
        · cases hroot
    · simp only [rootsOf, hpattern, hhas]
      constructor
      · rintro ⟨roots, hroots, hmem⟩
        obtain rfl := Except.ok.inj hroots
        obtain rfl := List.mem_singleton.1 hmem
        exact .inl ⟨trivial, rfl, hhas⟩
      · rintro (⟨-, rfl, -⟩ | ⟨hroot, -⟩)
        · exact ⟨_, rfl, List.mem_singleton_self _⟩
        · cases hroot
  · rcases hfound : Glob.expand fs (join base text) with e | found
    · simp [rootsOf, hpattern, hfound]
    · simp [rootsOf, hpattern, hfound]

/-- Where a walk may start. -/
theorem mem_scanRoots_iff {root : String} :
    root ∈ (scanRoots fs request).1 ↔ request.IsRoot fs root := by
  unfold scanRoots SurveyRequest.IsRoot
  split
  · next hempty =>
    have hnil := List.isEmpty_iff.1 hempty
    simp [hnil]
  · next hempty =>
    have hsome : request.includes ≠ [] := fun hnil => hempty (List.isEmpty_iff.2 hnil)
    simp only [List.mem_flatMap, List.mem_map, exists_exists_and_eq_and, hsome,
      false_and, false_or]
    refine exists_congr fun text => and_congr_right fun _ => Iff.trans ?_ mem_rootsOf
    rcases rootsOf fs request.base text with e | roots <;> simp

/-- Where a walk may start: an included path, or a directory that an included
pattern finds. -/
theorem mem_scanRoots {root : String} (h : root ∈ (scanRoots fs request).1) :
    request.includes = [] ∧ root = request.base ∨
      ∃ text ∈ request.includes,
        Glob.isPattern text = false ∧ root = join request.base text ∨
          Glob.isPattern text = true ∧
            ∃ found, Glob.expand fs (join request.base text) = .ok found ∧
              root ∈ found := by
  rcases mem_scanRoots_iff.1 h with hbase |
      ⟨text, htext, ⟨hpath, hroot, -⟩ | ⟨hpattern, found, hfound, hmem, -⟩⟩
  · exact .inl hbase
  · exact .inr ⟨text, htext, .inl ⟨hpath, hroot⟩⟩
  · exact .inr ⟨text, htext, .inr ⟨hpattern, found, hfound, hmem⟩⟩

theorem isAbsolute_of_proper_stem {text : String}
    (h : (stem text).all isProperName = true) :
    isAbsolute text = false := by
  refine Bool.eq_false_iff.2 fun habsolute => ?_
  rw [stem_eq_pathParts, habsolute] at h
  cases h

theorem leadsDown_of_mapM {texts : List String} {ps : List Glob.Pattern}
    (hparse : texts.mapM Glob.Pattern.parse = .ok ps) (h : texts.all isDownward = true) :
    ∀ p ∈ ps, p.leadsDown = true := by
  intro p hp
  obtain ⟨text, htext, hread⟩ := Glob.mem_of_mapM_parse hparse p hp
  have hdown := List.all_eq_true.1 h text htext
  rwa [isDownward, hread] at hdown

/-- What stands in front of the parts of a path is what stands in front of what
is found from where the path starts. -/
theorem underStem_start (absolute : Bool) :
    underStem (if absolute then "/" else ".") = if absolute then [""] else [] := by
  cases absolute <;> decide

theorem isAbsolute_start (absolute : Bool) :
    isAbsolute (if absolute then "/" else ".") = absolute := by
  cases absolute <;> rfl

theorem isAbsolute_foldl_under {start : String} {parts : List String}
    (h : ∀ part ∈ parts, isAbsolute part = false) :
    isAbsolute (parts.foldl Glob.under start) = isAbsolute start := by
  induction parts generalizing start with
  | nil => rfl
  | cons part parts ih =>
    rw [List.foldl_cons,
      ih fun other hother => h other (List.mem_cons_of_mem part hother),
      isAbsolute_under (h part List.mem_cons_self)]

section Uniform

variable (hproper : ∀ text ∈ request.includes, (stem text).all isProperName = true)

include hproper

/-- Paths that are included go on from the base as it is written. -/
theorem rooted_of_paths
    (hpaths : ∀ text ∈ request.includes, Glob.isPattern text = false) {root : String}
    (h : root ∈ (scanRoots fs request).1) :
    RootedFrom (isAbsolute request.base) (stem request.base) root := by
  rcases mem_scanRoots h with ⟨-, rfl⟩ | ⟨text, htext, ⟨-, rfl⟩ | ⟨hpattern, -⟩⟩
  · exact rootedFrom_self request.base
  · exact (rootedFrom_self request.base).join
      (isAbsolute_of_proper_stem (hproper text htext))
      (List.all_eq_true.1 (hproper text htext))
  · rw [hpaths text htext] at hpattern
    cases hpattern

variable (hwell : fs.root.isWellNamed = true)
  (hdownward : ∀ text ∈ request.includes, Glob.isPattern text = true →
  (stem text).all isDownward = true)

include hwell hdownward

/-- If the base is proper names as well, all goes on from the root or from the
current directory. -/
theorem rooted_of_base
    (hbase : (pathParts request.base).all
      (fun part => isProperName part && isDownward part) = true)
    {root : String} (h : root ∈ (scanRoots fs request).1) :
    RootedFrom (isAbsolute request.base)
      (if isAbsolute request.base then [""] else []) root := by
  have hparts (part : String) (hpart : part ∈ pathParts request.base) :
      isProperName part = true ∧ isDownward part = true := by
    rw [← Bool.and_eq_true]
    exact List.all_eq_true.1 hbase part hpart
  have hroot :
      RootedFrom (isAbsolute request.base) (if isAbsolute request.base then [""] else [])
      request.base :=
    ⟨rfl, pathParts request.base, stem_eq_pathParts _,
      fun part hpart => (hparts part hpart).1⟩
  rcases mem_scanRoots h with ⟨-, rfl⟩ |
      ⟨text, htext, ⟨-, rfl⟩ | ⟨hpattern, found, hfound, hmem⟩⟩
  · exact hroot
  · exact hroot.join (isAbsolute_of_proper_stem (hproper text htext))
      (List.all_eq_true.1 (hproper text htext))
  · have hrelative := isAbsolute_of_proper_stem (hproper text htext)
    obtain ⟨ps, hparse, rfl⟩ := Glob.expand_eq_ok hfound
    rw [pathParts_join hrelative] at hparse
    have hdown : (pathParts request.base ++ stem text).all isDownward = true := by
      rw [List.all_append, hdownward text htext hpattern, Bool.and_true]
      exact List.all_eq_true.2 fun part hpart => (hparts part hpart).2
    have hrooted :=
      Glob.rooted_expandFrom hwell (leadsDown_of_mapM hparse hdown) root hmem
    rwa [isAbsolute_join hrelative, underStem_start, isAbsolute_start] at hrooted

/-- Below a base without wildcards all that patterns find goes on from what the
base is found as. -/
theorem rooted_of_patterns (hbase : request.base.toList.any Glob.isWildcard = false)
    {text : String} (htext : text ∈ request.includes)
    (hpattern : Glob.isPattern text = true)
    {found : List String} (hfound : Glob.expand fs (join request.base text) = .ok found)
    {root : String} (hmem : root ∈ found) :
    RootedFrom (isAbsolute request.base)
      (underStem ((pathParts request.base).foldl Glob.under
        (if isAbsolute request.base then "/" else "."))) root := by
  have hrelative := isAbsolute_of_proper_stem (hproper text htext)
  obtain ⟨ps, hparse, rfl⟩ := Glob.expand_eq_ok hfound
  rw [pathParts_join hrelative] at hparse
  obtain ⟨qs, qs', hqs, hqs', rfl⟩ := Glob.mapM_parse_append hparse
  -- the parts of the base are names, and the expansion goes on behind them
  have hplain (part : String) (hpart : part ∈ pathParts request.base) :
      part.toList.any Glob.isWildcard = false := by
    refine List.any_eq_false.2 fun c hc => ?_
    exact List.any_eq_false.1 hbase c (mem_of_mem_pathParts hpart hc)
  rw [Glob.mapM_parse_plain hplain] at hqs
  obtain rfl := Except.ok.inj hqs
  have hsome : qs' ≠ [] := by
    have hlength := Glob.length_of_mapM_parse hqs'
    intro hnil
    rw [hnil, List.length_nil, eq_comm, List.length_eq_zero_iff] at hlength
    refine stem_ne_nil ?_ hlength
    rintro rfl
    cases hpattern
  obtain ⟨n, hn⟩ : ∃ n, Glob.stepsFor fs
      ((pathParts request.base).map Glob.Pattern.ofName ++ qs').length =
        n + (pathParts request.base).length := by
    refine Nat.exists_eq_add_of_le' ?_
    rw [Glob.stepsFor, List.length_append, List.length_map]
    omega
  rw [hn, Glob.expandFrom_names _ _ _ _ _ hsome, List.mem_ite_nil_right] at hmem
  have hrooted := Glob.rooted_expandFrom hwell
    (leadsDown_of_mapM hqs' (hdownward text htext hpattern)) root hmem.2
  rwa [isAbsolute_foldl_under fun part => isAbsolute_of_mem_pathParts, isAbsolute_start,
    isAbsolute_join hrelative] at hrooted

end Uniform

/-- All walks of a uniform request start from paths with one front and proper
names behind it. -/
theorem SurveyRequest.IsUniform.exists_front (hwell : fs.root.isWellNamed = true)
    (h : request.IsUniform) :
    ∃ absolute front, ∀ root ∈ (scanRoots fs request).1,
      RootedFrom absolute front root := by
  rcases h.alike with hpaths | hbase | ⟨hpatterns, hbase⟩
  · exact ⟨_, _, fun root hroot => rooted_of_paths h.proper hpaths hroot⟩
  · exact ⟨_, _, fun root hroot => rooted_of_base h.proper hwell h.downward hbase hroot⟩
  · by_cases hempty : request.includes = []
    · have hpaths : ∀ text ∈ request.includes, Glob.isPattern text = false := by
        rw [hempty]
        intro text htext
        cases htext
      exact ⟨_, _, fun root hroot => rooted_of_paths h.proper hpaths hroot⟩
    · refine ⟨isAbsolute request.base,
        underStem ((pathParts request.base).foldl Glob.under
        (if isAbsolute request.base then "/" else ".")), fun root hroot => ?_⟩
      rcases mem_scanRoots hroot with ⟨hnone, -⟩ |
          ⟨text, htext, ⟨hpath, -⟩ | ⟨hpattern, found, hfound, hmem⟩⟩
      · exact absurd hnone hempty
      · rw [hpatterns text htext] at hpath
        cases hpath
      · exact rooted_of_patterns h.proper hwell h.downward hbase htext
          hpattern hfound hmem

/-- No two files that a survey lists are one, if the tree has no links and the
request spells each directory in one way. -/
theorem survey_lists_once (hwell : fs.root.isWellNamed = true)
    (hlinks : fs.root.hasLink = false)
    (hcurrent : fs.hasDirectory "." = true) (h : request.IsUniform) :
    (survey fs request).files.Pairwise fun file file' =>
      fs.sameFile file file' = false := by
  obtain ⟨absolute, front, hroots⟩ := h.exists_front hwell
  have hspelled (file : String) (hfile : file ∈ (survey fs request).files) :
      SpelledFrom absolute front file := by
    unfold survey at hfile
    simp only [mem_sortedTexts, List.mem_flatMap, List.mem_map] at hfile
    obtain ⟨walked, ⟨root, hroot, rfl⟩, hfile⟩ := hfile
    split at hfile
    · next files hwalk =>
      exact (hroots root hroot).spelledFrom
        (spelledFrom_walk hwell hcurrent hwalk file hfile)
    · cases hfile
  have hascending : (survey fs request).files.Pairwise (· < ·) := pairwise_sortedTexts _
  refine hascending.imp_of_mem fun {file file'} hfile hfile' hlt => ?_
  refine Bool.eq_false_iff.2 fun hsame => ne_of_lt hlt ?_
  exact (hspelled file hfile).eq_of_sameFile hlinks (hspelled file' hfile')
    (hasOwnName_survey hwell hfile) (hasOwnName_survey hwell hfile') hsame

/-- A tree of two files, one of them in a directory of its own. -/
def twoFiles : FileSystem where
  root := .directory [("src", .directory [("a.js", .file (.text [])),
    ("lib", .directory [("b.ts", .file (.text []))])])]
  current := []

theorem survey_lists_once_overlapping :
    (survey twoFiles ⟨"src", ["lib", "*", "lib/b.ts", "**/*"], [], false⟩).files =
      ["src/lib/b.ts"] ∧
      (survey twoFiles ⟨"src", ["lib", "*", "lib/b.ts", "**/*"], [],
        false⟩).files.Pairwise
        fun file file' => twoFiles.sameFile file file' = false :=
  ⟨by decide +kernel,
    survey_lists_once (by decide) (by decide) (by decide)
      ⟨by decide, by decide, .inr (.inl (by decide))⟩⟩

/-- A `.` in an include makes another text of the same path. -/
theorem survey_lists_twice :
    (survey twoFiles ⟨".", ["src", "./src"], [], false⟩).files =
        ["././src/a.js", "././src/lib/b.ts", "./src/a.js", "./src/lib/b.ts"] ∧
      twoFiles.sameFile "././src/a.js" "./src/a.js" = true := by
  decide +kernel

end Roots

end AnimLint
