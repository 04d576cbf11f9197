/-
AnimLint/Script/Sites.lean

Where the calls and the comments of a script stand.  A tree knows no positions;
they come from the widths of what stands before.  Calls are listed from the
outside in, each before the calls in its callee and then in its arguments; the
body of a class is visited before what it extends, and the condition of a loop
before the body it follows.

Main definitions: `Tree.sites`, `Tree.tokens`, `Tree.comments`.
-/
import AnimLint.Script.Tree
import AnimLint.Script.Scan
import AnimLint.Zone

namespace AnimLint.Script

open Text

/-! ### Widths -/

/-- The bytes in front of a token that belong to it. -/
def Token.leadWidth (t : Token) : Nat := byteLength (triviaText t.trivia)

/-- The bytes of a token and of what stands in front of it. -/
def Token.width (t : Token) : Nat := t.leadWidth + byteLength t.text

namespace Tree

mutual

/-- The bytes of the text that a tree was read from. -/
def width : Tree → Nat
  | leaf t => t.width
  | node _ parts => widthAll parts
  | call callee typeArguments opening items closing =>
    callee.width +
    (widthAll typeArguments + (opening.width + (widthAll items + closing.width)))

/-- The bytes of the text that a row of trees was read from. -/
def widthAll : List Tree → Nat
  | [] => 0
  | t :: r => t.width + widthAll r

end

/-- The bytes of trivia in front of a tree. -/
def leadWidth (t : Tree) : Nat := (t.firstToken?.map Token.leadWidth).getD 0

/-- The span of a tree that is read from a given byte on, without the trivia in
front of it. -/
def spanAt (start : Nat) (t : Tree) : Span := ⟨start + t.leadWidth, start + t.width⟩

/-! ### Calls -/

/-- Holds of literals that make an object. -/
def isObject : Tree → Bool
  | node .object _ => true
  | _ => false

/-- The spans of the arguments among the items of a call, and whether each is an
object. -/
def argumentsAt (start : Nat) : List Tree → List (Span × Bool)
  | [] => []
  | t :: r =>
    if t.isComma then argumentsAt (start + t.width) r
    else (t.spanAt start, t.isObject) :: argumentsAt (start + t.width) r

/-- From the start of the first object among arguments to the end of the
last. -/
def configOf (arguments : List (Span × Bool)) : Option Span :=
  let objects := (arguments.filter (·.2)).map (·.1)
  match objects.head?, objects.getLast? with
  | some first, some last => some ⟨first.start, last.stop⟩
  | _, _ => none

/-- The name that a callee ends in: of a property, or of the callee itself. -/
def methodName : Tree → List Char
  | leaf t => if t.kind == .word then t.name else []
  | node .member parts =>
    match parts.getLast? with
    | some (leaf t) => if t.kind == .word then t.name else []
    | _ => []
  | _ => []

end Tree

/-- A call in a script, with the name of the method it calls. -/
structure Site where
  call : Call
  method : List Char
deriving DecidableEq, Repr

/-- A call of these parts, read from a given byte on. -/
def Site.ofParts (start : Nat) (callee : Tree) (typeArguments : List Tree)
    (opening : Token)
    (items : List Tree) (closing : Token) : Site :=
  let calleeSpan := callee.spanAt start
  let argsFrom := start + callee.width + Tree.widthAll typeArguments
  let arguments := Tree.argumentsAt (argsFrom + opening.width) items
  { call := {
      span := ⟨calleeSpan.start,
        argsFrom + opening.width + Tree.widthAll items + closing.width⟩
      callee := calleeSpan
      argsFrom := argsFrom
      arguments := arguments.map (·.1)
      config := Tree.configOf arguments }
    method := callee.methodName }

/-- Moves the last element to the front. -/
def lastFirst {α : Type} (l : List α) : List α := l.getLast?.toList ++ l.dropLast

/-- The order in which the parts of a phrase are visited. -/
def Kind.visit {α : Type} (kind : Kind) (l : List α) : List α :=
  match kind with
  | .classLike | .doWhile => lastFirst l
  | _ => l

/-- Every part is visited, and once. -/
theorem Kind.visit_perm {α : Type} (kind : Kind) (l : List α) :
    (kind.visit l).Perm l := by
  have hlast : (lastFirst l).Perm l := by
    rcases List.eq_nil_or_concat l with rfl | ⟨init, last, rfl⟩
    · exact .nil
    · simpa [lastFirst] using (List.perm_append_singleton last init).symm
  cases kind <;> first | exact .refl l | exact hlast

theorem Kind.map_visit {α β : Type} (f : α → β) (kind : Kind) (l : List α) :
    (kind.visit l).map f = kind.visit (l.map f) := by
  have hlast : (lastFirst l).map f = lastFirst (l.map f) := by
    simp [lastFirst, List.map_dropLast, Option.toList_map]
  cases kind <;> first | rfl | exact hlast

namespace Tree

mutual

/-- The calls in a tree that is read from a given byte on, in the order they are
visited. -/
def sites (start : Nat) : Tree → List Site
  | leaf _ => []
  | node kind parts => (kind.visit (sitesAll start parts)).flatten
  | call callee typeArguments opening items closing =>
    let argsFrom := start + callee.width + widthAll typeArguments
    Site.ofParts start callee typeArguments opening items closing ::
      (callee.sites start ++ ((sitesAll (argsFrom + opening.width) items).flatten ++
        (sitesAll (start + callee.width) typeArguments).flatten))

/-- The calls in each of a row of trees. -/
def sitesAll (start : Nat) : List Tree → List (List Site)
  | [] => []
  | t :: r => t.sites start :: sitesAll (start + t.width) r

end

/-! ### Tokens and comments -/

mutual

/-- The tokens of a tree in order. -/
def tokens : Tree → List Token
  | leaf t => [t]
  | node _ parts => tokensAll parts
  | call callee typeArguments opening items closing =>
    callee.tokens ++
    (tokensAll typeArguments ++ (opening :: (tokensAll items ++ [closing])))

/-- The tokens of a row of trees in order. -/
def tokensAll : List Tree → List Token
  | [] => []
  | t :: r => t.tokens ++ tokensAll r

end

/-- The number of items of a module. -/
def itemCount : Tree → Nat
  | node .module parts => parts.length - 1
  | _ => 0

end Tree

/-- A comment with the byte it starts at. -/
structure Comment where
  start : Nat
  trivia : Trivia
deriving DecidableEq, Repr

namespace Comment

/-- The span of a comment, marks included. -/
def span (c : Comment) : Span := ⟨c.start, c.start + byteLength c.trivia.text⟩

/-- What stands between the marks of a comment. -/
def content (c : Comment) : List Char :=
  let inner := c.trivia.text.drop 2
  if c.trivia.kind == .blockComment then inner.take (inner.length - 2) else inner

/-- The comments in a row of trivia that starts at a given byte. -/
def ofTrivia (start : Nat) : List Trivia → List Comment
  | [] => []
  | t :: r =>
    let more := ofTrivia (start + byteLength t.text) r
    match t.kind with
    | .lineComment | .blockComment => ⟨start, t⟩ :: more
    | .blank | .interpreter => more

/-- The comments in a row of tokens that starts at a given byte. -/
def ofTokens (start : Nat) : List Token → List Comment
  | [] => []
  | t :: r => ofTrivia start t.trivia ++ ofTokens (start + t.width) r

end Comment

/-- The comments of a script in order. -/
def Tree.comments (t : Tree) : List Comment := Comment.ofTokens 0 t.tokens

end AnimLint.Script
