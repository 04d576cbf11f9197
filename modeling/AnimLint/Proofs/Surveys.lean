/-
AnimLint/Proofs/Surveys.lean

What a survey finds does not depend on what files hold.  Whether a path leads
somewhere, whether it leads to a directory, what a directory lists and what lies
below it are the same in the file system with all files emptied; so a walk
(`walk_hollow`), the paths a pattern stands for (`expand_hollow`), the place of
the settings (`findSettings_hollow`) and a survey as a whole are the same in any
two file systems with one tree (`SameTree.survey`, `SameTree.findSettings`).
-/
import AnimLint.Proofs.Places
import AnimLint.Project

namespace AnimLint

open Files

namespace Files.FileSystem

/-! ### What is there -/

theorem node_hollow (fs : FileSystem) (path : String) :
    fs.hollow.node path = (fs.node path).map Node.hollow := by
  unfold node
  rw [locate_hollow]
  rcases fs.locate true path with e | ⟨names, node | node⟩ <;> rfl

theorem nodeOrLink_hollow (fs : FileSystem) (path : String) :
    fs.hollow.nodeOrLink path = (fs.nodeOrLink path).map Node.hollow := by
  unfold nodeOrLink
  rw [locate_hollow]
  rcases fs.locate false path with e | ⟨names, node | node⟩ <;> rfl

theorem has_hollow (fs : FileSystem) (path : String) :
    fs.hollow.has path = fs.has path := by
  unfold has
  rw [node_hollow]
  rcases fs.node path with e | node <;> rfl

theorem hasDirectory_hollow (fs : FileSystem) (path : String) :
    fs.hollow.hasDirectory path = fs.hasDirectory path := by
  unfold hasDirectory
  rw [node_hollow]
  rcases fs.node path with e | node
  · rfl
  · exact Node.isDirectory_hollow node

end Files.FileSystem

/-! ### Walks -/

namespace Files

mutual

theorem walkNode_hollow (out wanted : String → Bool) (path : String) (node : Node) :
    walkNode out wanted path node.hollow = walkNode out wanted path node := by
  cases node with
  | file content => rfl
  | directory entries =>
    rw [Node.hollow, walkNode, walkNode, walkEntries_hollow out wanted path entries]
  | link target => rfl

theorem walkEntries_hollow (out wanted : String → Bool) (path : String)
    (entries : List (String × Node)) :
    walkEntries out wanted path (Node.hollowEntries entries) =
      walkEntries out wanted path entries := by
  cases entries with
  | nil => rfl
  | cons entry rest =>
    obtain ⟨name, node⟩ := entry
    rw [Node.hollowEntries, walkEntries, walkEntries, walkNode_hollow out wanted _ node,
      walkEntries_hollow out wanted path rest]

end

theorem walk_hollow (fs : FileSystem) (out wanted : String → Bool) (root : String) :
    walk fs.hollow out wanted root = walk fs out wanted root := by
  unfold walk
  rw [fs.nodeOrLink_hollow]
  rcases fs.nodeOrLink root with e | node
  · rfl
  · cases node with
    | link target =>
      simp only [Except.map, Node.hollow]
      rw [fs.node_hollow]
      rcases fs.node root with e | node
      · rfl
      · simp only [Except.map, Node.entries_hollow, walkEntries_hollow]
    | file content =>
      exact congrArg Except.ok (walkNode_hollow out wanted root (.file content))
    | directory entries =>
      exact congrArg Except.ok (walkNode_hollow out wanted root (.directory entries))

end Files

/-! ### Patterns -/

namespace Glob

mutual

theorem depth_hollow (node : Node) : depth node.hollow = depth node := by
  cases node with
  | file content => rfl
  | directory entries => rw [Node.hollow, depth, depth, depthOf_hollow entries]
  | link target => rfl

theorem depthOf_hollow (entries : List (String × Node)) :
    depthOf (Node.hollowEntries entries) = depthOf entries := by
  cases entries with
  | nil => rfl
  | cons entry rest =>
    obtain ⟨name, node⟩ := entry
    rw [Node.hollowEntries, depthOf, depthOf, depth_hollow node, depthOf_hollow rest]

end

theorem namesIn_hollow (fs : FileSystem) (path : String) :
    namesIn fs.hollow path = namesIn fs path := by
  unfold namesIn
  rw [fs.node_hollow]
  rcases fs.node path with e | node
  · rfl
  · simp only [Except.map, Node.entries_hollow, Node.hollowEntries_eq_map, List.map_map]
    rfl

theorem isThere_hollow (fs : FileSystem) (path : String) :
    isThere fs.hollow path = isThere fs path := by
  unfold isThere
  rw [fs.nodeOrLink_hollow]
  rcases fs.nodeOrLink path with e | node <;> rfl

theorem expandFrom_hollow (fs : FileSystem) (directoryOnly : Bool) (n : Nat)
    (path : String) (patterns : List Pattern) :
    expandFrom fs.hollow directoryOnly n path patterns =
      expandFrom fs directoryOnly n path patterns := by
  induction n generalizing path patterns with
  | zero => rfl
  | succ n ih =>
    cases patterns with
    | nil => rfl
    | cons p ps =>
      simp only [expandFrom, ih, fs.hasDirectory_hollow, namesIn_hollow, isThere_hollow]

theorem expand_hollow (fs : FileSystem) (text : String) :
    expand fs.hollow text = expand fs text := by
  have hdepth : depth fs.hollow.root = depth fs.root := depth_hollow fs.root
  unfold expand
  simp only [expandFrom_hollow, hdepth]

end Glob

/-! ### Surveys -/

theorem rootsOf_hollow (fs : FileSystem) (base text : String) :
    rootsOf fs.hollow base text = rootsOf fs base text := by
  have hdirectory : fs.hollow.hasDirectory = fs.hasDirectory := by
    funext path
    exact fs.hasDirectory_hollow path
  unfold rootsOf
  simp only [fs.has_hollow, Glob.expand_hollow, hdirectory]

theorem survey_hollow (fs : FileSystem) (request : SurveyRequest) :
    survey fs.hollow request = survey fs request := by
  have hroots : rootsOf fs.hollow request.base = rootsOf fs request.base := by
    funext text
    exact rootsOf_hollow fs request.base text
  have hwalk (out : String → Bool) :
      walk fs.hollow out isSource = walk fs out isSource := by
    funext root
    exact walk_hollow fs out isSource root
  unfold survey scanRoots
  simp only [hroots, hwalk]

theorem firstSettings_hollow (fs : FileSystem) (directories : List String) :
    firstSettings fs.hollow directories = firstSettings fs directories := by
  induction directories with
  | nil => rfl
  | cons directory rest ih => simp only [firstSettings, fs.has_hollow, ih]

theorem findSettings_hollow (fs : FileSystem) (directory : String) :
    findSettings fs.hollow directory = findSettings fs directory :=
  firstSettings_hollow fs _

namespace Files.FileSystem.SameTree

variable {fs fs' : FileSystem} (h : fs.SameTree fs')

include h

theorem survey (request : SurveyRequest) :
    survey fs request = AnimLint.survey fs' request := by
  rw [← survey_hollow, h, survey_hollow]

theorem findSettings (directory : String) :
    findSettings fs directory = AnimLint.findSettings fs' directory := by
  rw [← findSettings_hollow, h, findSettings_hollow]

end Files.FileSystem.SameTree

end AnimLint
