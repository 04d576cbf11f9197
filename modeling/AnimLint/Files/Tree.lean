/-
AnimLint/Files/Tree.lean

A file system as a value: a tree of directories, files and symbolic links, and
the directory that relative paths start from.  A path is followed name by name
from there; a link stands for its target, and no more than forty links are
followed on the way.

Main definitions: `Node`, `FileSystem`, `FileSystem.locate`, `FileSystem.node`,
`FileSystem.readText`, `FileSystem.write`.
-/
import AnimLint.Files.Path
import AnimLint.Text.Utf8

namespace AnimLint.Files

/-! ### Nodes -/

/-- What a file holds. -/
inductive Content
  | text (chars : List Char)
  /-- Bytes that make no text. -/
  | binary (bytes : List UInt8)
deriving DecidableEq, Repr

/-- The content that bytes make. -/
def Content.ofBytes (bytes : List UInt8) : Content :=
  match Text.decode? bytes with
  | some chars => text chars
  | none => binary bytes

/-- A content as it shows. -/
def Content.shown : Content → List Char
  | text chars => chars
  | binary bytes => Text.decodeLossy bytes

/-- A file, a directory or a symbolic link. -/
inductive Node
  | file (content : Content)
  | directory (entries : List (String × Node))
  | link (target : String)
deriving Repr

namespace Node

/-- An empty directory. -/
def empty : Node := directory []

/-- Holds of directories. -/
def isDirectory : Node → Bool
  | directory _ => true
  | _ => false

/-- The entries of a directory; none for anything else. -/
def entries : Node → List (String × Node)
  | directory entries => entries
  | _ => []

/-- The entry of a name. -/
def child? (node : Node) (name : String) : Option Node := node.entries.lookup name

/-- The node that names lead to; links on the way lead nowhere. -/
def descend? (node : Node) : List String → Option Node
  | [] => some node
  | name :: rest => (node.child? name).bind (·.descend? rest)

/-- Sets the entry of a name, at its old place if there is one. -/
def setEntry (name : String) (node : Node) : List (String × Node) → List (String × Node)
  | [] => [(name, node)]
  | (other, old) :: rest =>
    if other = name then (name, node) :: rest else (other, old) :: setEntry name node rest

/-- Puts a node where names lead to; only the last of them may be new. -/
def put : Node → List String → Node → Node
  | _, [], new => new
  | directory entries, name :: rest, new =>
    match entries.lookup name with
    | some old => directory (setEntry name (old.put rest new) entries)
    | none => if rest.isEmpty then directory (setEntry name new entries) else
      directory entries
  | node, _ :: _, _ => node

/-- Takes away the node that names lead to. -/
def erase : Node → List String → Node
  | directory entries, [name] => directory (entries.filter (·.1 != name))
  | directory entries, name :: rest =>
    match entries.lookup name with
    | some old => directory (setEntry name (old.erase rest) entries)
    | none => directory entries
  | node, _ => node

end Node

/-! ### Following a path -/

/-- Why a path leads nowhere, or to something that cannot be used. -/
inductive AccessError
  | notFound
  | notDirectory
  | isDirectory
  | tooManyLinks
  | noText
deriving DecidableEq, Repr

/-- The words for an error. -/
def AccessError.message : AccessError → String
  | notFound => "No such file or directory (os error 2)"
  | notDirectory => "Not a directory (os error 20)"
  | isDirectory => "Is a directory (os error 21)"
  | tooManyLinks => "Too many levels of symbolic links (os error 40)"
  | noText => "stream did not contain valid UTF-8"

/-- How many links are followed at most. -/
def maxLinks : Nat := 40

/-- The names between the slashes of a path. -/
def names (path : String) : List String := (splitSlashes path.toList).map String.ofList

/-- Holds of paths that start at the root. -/
def isAbsolute (path : String) : Bool := path.toList.head? == some '/'

/-- The place that a path leads to from the root, and the node there, if there
is one. -/
structure Place where
  names : List String
  node : Option Node

/-- Follows names from a directory, given how to go on after a link; `through`
says that a link at the end is followed as well. -/
def followNames (root : Node) (through : Bool)
    (onward : List String → List String → Except AccessError Place) :
    List String → List String → Except AccessError Place
  | current, [] => .ok ⟨current, root.descend? current⟩
  | current, name :: rest =>
    if name = "" || name = "." then followNames root through onward current rest
    else if name = ".." then followNames root through onward current.dropLast rest
    else
      let place := current ++ [name]
      match root.descend? place with
      | none => if rest.isEmpty then .ok ⟨place, none⟩ else .error .notFound
      | some (.directory _) => followNames root through onward place rest
      | some (.file content) =>
        if rest.isEmpty then .ok ⟨place, some (.file content)⟩ else .error .notDirectory
      | some (.link target) =>
        if rest.isEmpty && !through then .ok ⟨place, some (.link target)⟩
        else onward (if isAbsolute target then [] else current)
          (Files.names target ++ rest)

/-- Follows names from a directory over so many links at most. -/
def follow (root : Node) (through : Bool) :
    Nat → List String → List String → Except AccessError Place
  | 0 => followNames root through fun _ _ => .error .tooManyLinks
  | n + 1 => followNames root through (follow root through n)

/-- A file system. -/
structure FileSystem where
  root : Node
  /-- The directory that relative paths start from, as the names that lead to
  it. -/
  current : List String

namespace FileSystem

/-- Follows a path; `through` says that a link at its end is followed as
well. -/
def locate (fs : FileSystem) (through : Bool) (path : String) :
    Except AccessError Place :=
  if path = "" then .error .notFound
  else follow fs.root through maxLinks
    (if isAbsolute path then [] else fs.current) (names path)

/-- The node at a place, which has to be there. -/
def nodeOf (place : Place) : Except AccessError Node :=
  match place.node with
  | some node => .ok node
  | none => .error .notFound

/-- The node that a path leads to. -/
def node (fs : FileSystem) (path : String) : Except AccessError Node :=
  match fs.locate true path with
  | .error e => .error e
  | .ok place => nodeOf place

/-- The node that a path leads to, be it a link. -/
def nodeOrLink (fs : FileSystem) (path : String) : Except AccessError Node :=
  match fs.locate false path with
  | .error e => .error e
  | .ok place => nodeOf place

/-- Holds if a path leads somewhere. -/
def has (fs : FileSystem) (path : String) : Bool := (fs.node path).isOk

/-- Holds if a path leads to a directory. -/
def hasDirectory (fs : FileSystem) (path : String) : Bool :=
  match fs.node path with
  | .ok node => node.isDirectory
  | .error _ => false

/-- The text of a file. -/
def readText (fs : FileSystem) (path : String) : Except AccessError (List Char) :=
  match fs.node path with
  | .error e => .error e
  | .ok (.file (.text chars)) => .ok chars
  | .ok (.file (.binary _)) => .error .noText
  | .ok _ => .error .isDirectory

/-! ### Changes -/

/-- Sets the content of a file, which may be new in a directory that is
there. -/
def write (fs : FileSystem) (path : String) (content : Content) :
    Except AccessError FileSystem :=
  match fs.locate true path with
  | .error e => .error e
  | .ok ⟨place, node⟩ =>
    match node with
    | some (.directory _) => .error .isDirectory
    | _ => .ok { fs with root := fs.root.put place (.file content) }

/-- Makes a directory, if nothing is there yet. -/
def makeDirectory (fs : FileSystem) (path : String) : FileSystem :=
  match fs.locate true path with
  | .ok ⟨place, none⟩ => { fs with root := fs.root.put place .empty }
  | _ => fs

/-- The first part of a list, the first two, and so on. -/
def heads : List String → List (List String)
  | [] => []
  | part :: rest => [part] :: (heads rest).map (part :: ·)

/-- The starts of a path up to each of its slashes, and the path itself. -/
def starts (path : String) : List String :=
  (heads (names path)).map fun parts => String.intercalate "/" parts

/-- Makes a directory and those on the way to it. -/
def makeDirectories (fs : FileSystem) (path : String) : FileSystem :=
  (starts path).foldl makeDirectory fs

/-- Makes a symbolic link where nothing is yet. -/
def makeLink (fs : FileSystem) (path target : String) : FileSystem :=
  match fs.locate false path with
  | .ok ⟨place, none⟩ => { fs with root := fs.root.put place (.link target) }
  | _ => fs

/-- Takes away what a path leads to, with all below it. -/
def remove (fs : FileSystem) (path : String) : FileSystem :=
  match fs.locate false path with
  | .ok ⟨place, some _⟩ => { fs with root := fs.root.erase place }
  | _ => fs

end FileSystem

end AnimLint.Files
