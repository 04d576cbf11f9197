/-
AnimLint/Glob/Expand.lean

The paths that a pattern stands for.  The pattern is taken component by
component: one without wildcards is looked up as it stands, one with wildcards
is tried on each entry of the directory reached so far, and `**` goes down into
all directories below.

Main definitions: `expandFrom`, `expand`.
-/
import AnimLint.Files.Tree
import AnimLint.Glob.Pattern

namespace AnimLint.Glob

open Files

mutual

/-- How many directories lie within one another at most. -/
def depth : Node → Nat
  | .directory entries => depthOf entries + 1
  | _ => 0

/-- How many directories lie within one another at most below a directory. -/
def depthOf : List (String × Node) → Nat
  | [] => 0
  | (_, node) :: rest => max (depth node) (depthOf rest)

end

/-- A path seen from a directory; the current directory is not written. -/
def under (directory path : String) : String :=
  if components directory == [.here] then path else join directory path

/-- The names of what a directory holds. -/
def namesIn (fs : FileSystem) (path : String) : List String :=
  match fs.node path with
  | .ok node => node.entries.map (·.1)
  | .error _ => []

/-- Holds if there is something at a path, be it a link that leads nowhere. -/
def isThere (fs : FileSystem) (path : String) : Bool := (fs.nodeOrLink path).isOk

/-- The paths from a directory on that the components of a pattern stand for;
the first argument bounds the number of steps. -/
def expandFrom (fs : FileSystem) (directoryOnly : Bool) :
    Nat → String → List Pattern → List String
  | 0, _, _ => []
  | _ + 1, _, [] => []
  | n + 1, path, p :: ps =>
    let onward (path : String) (ps : List Pattern) : List String :=
      if !ps.isEmpty then expandFrom fs directoryOnly n path ps
      else if directoryOnly && !fs.hasDirectory path then []
      else [path]
    match p.literal? with
    | some name =>
      let name := String.ofList name
      let next := under path name
      let found :=
        if name == "." || name == ".." then fs.hasDirectory path else isThere fs next
      if found then onward next ps else []
    | none =>
      if !fs.hasDirectory path then []
      else
        let rest := if p.isRecursive then ps.dropWhile (·.isRecursive) else p :: ps
        let visit (name : String) : List String :=
          let child := under path name
          let isDirectory := fs.hasDirectory child
          let below :=
            if p.isRecursive && isDirectory then
              expandFrom fs directoryOnly n child (p :: rest)
            else []
          let here := match rest with
            | [] => if isDirectory then [child] else []
            | q :: qs => if q.covers name then onward child qs else []
          here ++ below
        let special (name : String) : List String :=
          if p.tokens.head? == some (.char '.') && p.covers name then
            onward (join path name) ps
          else []
        (namesIn fs path).flatMap visit ++ special "." ++ special ".."

/-- The texts between slashes, without an empty one at the end. -/
def componentTexts (s : List Char) : List String :=
  let parts := (splitSlashes s).map String.ofList
  if parts.getLast? == some "" then parts.dropLast else parts

/-- The paths that a pattern stands for. -/
def expand (fs : FileSystem) (text : String) : Except PatternError (List String) :=
  match Pattern.parse text with
  | .error e => .error e
  | .ok _ =>
    let absolute := isAbsolute text
    match (componentTexts (text.toList.drop (if absolute then 1 else 0))).mapM
      Pattern.parse with
    | .error e => .error e
    | .ok patterns =>
      let steps := 2 * patterns.length + (maxLinks + 1) * (depth fs.root + 1) + 1
      let directoryOnly := text.toList.getLast? == some '/'
      .ok (expandFrom fs directoryOnly steps (if absolute then "/" else ".") patterns)

end AnimLint.Glob
