/-
AnimLint/Files/Path.lean

Paths as they are written.  A path is read as a row of components; a `.` counts
only at the front, and slashes that repeat or end the path do not count.

Main definitions: `Component`, `components`, `fileName?`, `extension?`, `join`,
`parent?`, `startsWith`.
-/

namespace AnimLint.Files

/-- A step of a path. -/
inductive Component
  | root
  /-- The `.` at the front of a path. -/
  | here
  | up
  | name (text : List Char)
deriving DecidableEq, Repr

/-- The texts between slashes. -/
def splitSlashes : List Char → List (List Char)
  | [] => [[]]
  | c :: r =>
    if c == '/' then [] :: splitSlashes r
    else match splitSlashes r with
      | [] => [[c]]
      | first :: rest => (c :: first) :: rest

/-- The component that a text between slashes is, if it counts. -/
def component? (text : List Char) : Option Component :=
  match text with
  | [] => none
  | ['.'] => none
  | ['.', '.'] => some .up
  | t => some (.name t)

/-- The components of a path. -/
def components (path : String) : List Component :=
  let cs := path.toList
  let parts := splitSlashes cs
  let front := match cs, parts with
    | '/' :: _, _ => [Component.root]
    | _, ['.'] :: _ => [.here]
    | _, _ => []
  front ++ parts.filterMap component?

/-- The name of the file that a path ends in, if its last component is a
name. -/
def fileName? (path : String) : Option (List Char) :=
  match (components path).getLast? with
  | some (.name n) => some n
  | _ => none

/-- What stands after the last point of a name that does not start with it. -/
def nameExtension? (name : List Char) : Option (List Char) :=
  let after := (name.reverse.takeWhile (· != '.')).reverse
  if after.length + 1 < name.length then some after else none

/-- The extension of the file that a path names. -/
def extension? (path : String) : Option String :=
  (fileName? path).bind fun n => (nameExtension? n).map String.ofList

/-- A path seen from a directory. -/
def join (directory path : String) : String :=
  if path.toList.head? == some '/' then path
  else if directory.isEmpty || directory.toList.getLast? == some '/' then
    directory ++ path
  else directory ++ "/" ++ path

/-- Holds if the components of a path start with those of another. -/
def startsWith (path start : String) : Bool :=
  (components start).isPrefixOf (components path)

/-- Drops texts between slashes from the end up to one that is a component; the
texts are given in reverse. -/
def dropIdle : List (List Char) → List (List Char)
  | [] => []
  | part :: rest =>
    if part.isEmpty || (part == ['.'] && !rest.isEmpty) then dropIdle rest
      else part :: rest

/-- Puts texts together with slashes between them. -/
def joinSlashes : List (List Char) → List Char
  | [] => []
  | [part] => part
  | part :: rest => part ++ '/' :: joinSlashes rest

/-- A path without its last component, as it is written; the root and the empty
path have none to drop. -/
def parent? (path : String) : Option String :=
  match dropIdle (splitSlashes path.toList).reverse with
  | [] => none
  | _ :: rest =>
    match dropIdle rest with
    | [] => some (if path.toList.head? == some '/' then "/" else "")
    | parts => some (String.ofList (joinSlashes parts.reverse))

end AnimLint.Files
