/-
AnimLint/Files/Walk.lean

Walking a directory tree.  The walk enters real directories only: a link is
neither entered nor counted as a file, except that the root itself may be a link
to a directory.  What is left out is not entered either.

Main definitions: `walkNode`, `walk`, `contents`.
-/
import AnimLint.Files.Tree

namespace AnimLint.Files

mutual

/-- The wanted files at a path and below it; nothing at or below a path that is
left out. -/
def walkNode (out wanted : String → Bool) (path : String) : Node → List String
  | .file _ => if !out path && wanted path then [path] else []
  | .directory entries => if out path then [] else walkEntries out wanted path entries
  | .link _ => []

/-- The wanted files among the entries of a directory and below them. -/
def walkEntries (out wanted : String → Bool) (path : String) :
    List (String × Node) → List String
  | [] => []
  | (name, node) :: rest =>
    walkNode out wanted (join path name) node ++ walkEntries out wanted path rest

end

/-- A path that could not be walked, and why. -/
structure Unreachable where
  path : String
  error : AccessError
deriving DecidableEq, Repr

/-- The words for a path that could not be walked. -/
def Unreachable.message (u : Unreachable) : String :=
  "IO error for operation on " ++ u.path ++ ": " ++ u.error.message

/-- The wanted files from a root on. -/
def walk (fs : FileSystem) (out wanted : String → Bool) (root : String) :
    Except Unreachable (List String) :=
  match fs.nodeOrLink root with
  | .error e => .error ⟨root, e⟩
  | .ok (.link _) =>
    -- what the link leads to is walked, and the link itself is not asked
    -- whether it is left out
    match fs.node root with
    | .error e => .error ⟨root, e⟩
    | .ok node => .ok (walkEntries out wanted root node.entries)
  | .ok node => .ok (walkNode out wanted root node)

/-! ### All files -/

mutual

/-- The content of a file, or of all files below a directory, with their
paths. -/
def contentsAt (path : String) : Node → List (String × Content)
  | .file content => [(path, content)]
  | .directory entries => contentsIn path entries
  | .link _ => []

/-- The contents of the files among the entries of a directory and below
them. -/
def contentsIn (path : String) : List (String × Node) → List (String × Content)
  | [] => []
  | (name, node) :: rest => contentsAt (join path name) node ++ contentsIn path rest

end

/-- The contents of all files below the current directory, with their paths from
there. -/
def contents (fs : FileSystem) : List (String × Content) :=
  match fs.node "." with
  | .ok node => contentsIn "" node.entries
  | .error _ => []

end AnimLint.Files
