/-
AnimLint/Script/Tree.lean

The syntax tree of a script.  Its leaves are all the tokens of the text in
order, trivia included, so that a tree spells its text.  Calls have a shape of
their own: callee, type arguments, `(`, arguments with their commas, `)`; every
other phrase is a kind with a row of parts.

Main definitions: `Tree`, `Tree.source`, `Tree.call?`, `Tree.isSound`.
-/
import AnimLint.Script.Scan

namespace AnimLint.Script

/-- The kinds of phrases that are told apart. -/
inductive Kind
  /-- A literal that makes an object. -/
  | object
  | array
  /-- A word that stands for a value of its own. -/
  | constant
  /-- A property of a value, by name. -/
  | member
  /-- A property of a value, by an expression. -/
  | index
  /-- A property or call in a chain that has a `?.` before it. -/
  | optional
  /-- A value asserted not to be null. -/
  | nonNull
  /-- A value with a type asserted of it. -/
  | assertion
  | paren
  | arrow
  | typeArguments
  /-- A class; its body is its last part. -/
  | classLike
  /-- The method of a class that is called `constructor`, if it has a body. -/
  | constructorMethod
  /-- A loop whose condition follows its body; the condition is its last
  part. -/
  | doWhile
  | module
  /-- Any other phrase. -/
  | phrase
deriving DecidableEq, Repr

/-- A tree over tokens. -/
inductive Tree
  | leaf (token : Token)
  | node (kind : Kind) (parts : List Tree)
  /-- A call of an expression; `items` are the arguments and the commas between
  them. -/
  | call (callee : Tree) (typeArguments : List Tree) (opening : Token) (items : List Tree)
      (closing : Token)
deriving Repr

namespace Tree

mutual

/-- The text that a tree was read from. -/
def source : Tree → List Char
  | leaf t => t.source
  | node _ parts => sourceAll parts
  | call callee typeArguments opening items closing =>
    callee.source ++ (sourceAll typeArguments ++ (opening.source ++
      (sourceAll items ++ closing.source)))

/-- The text that a row of trees was read from. -/
def sourceAll : List Tree → List Char
  | [] => []
  | t :: r => t.source ++ sourceAll r

end

@[simp] theorem sourceAll_append (a b : List Tree) :
    sourceAll (a ++ b) = sourceAll a ++ sourceAll b := by
  induction a with
  | nil => simp [sourceAll]
  | cons t r ih => simp [sourceAll, ih]

mutual

/-- The first token of a tree. -/
def firstToken? : Tree → Option Token
  | leaf t => some t
  | node _ parts => firstTokenOf? parts
  | call callee _ opening _ _ => callee.firstToken? <|> some opening

/-- The first token of a row of trees. -/
def firstTokenOf? : List Tree → Option Token
  | [] => none
  | t :: r => t.firstToken? <|> firstTokenOf? r

end

/-- Holds of trees that start with a token of which `p` holds. -/
def startsWith (p : Token → Bool) (t : Tree) : Bool := t.firstToken?.any p

/-- Holds of the leaf that is a comma. -/
def isComma : Tree → Bool
  | leaf t => t.isPunctuator ","
  | _ => false

/-- Holds of calls that are what they seem: the parentheses are parentheses, and
no comma stands in front of what is between them. -/
def callIsSound (callee : Tree) (opening : Token) (items : List Tree)
    (closing : Token) : Bool :=
  callee.startsWith Token.isSolid && opening.text == ['('] &&
    items.all (startsWith Token.isInner) && items.head?.all (!·.isComma) &&
    closing.text == [')'] && closing.isInner

/-- The items up to a last leaf, and that leaf. -/
def splitClosing? : List Tree → Option (List Tree × Token)
  | [] => none
  | [leaf t] => some ([], t)
  | t :: r => (splitClosing? r).map fun (items, closing) => (t :: items, closing)

/-- A call of these parts, where `rest` are the items up to the `)`; none unless
the parts are what they are taken for. -/
def callOf? (callee : Tree) (typeArguments : List Tree) (opening : Token)
    (rest : List Tree) : Option Tree :=
  match splitClosing? rest with
  | some (items, closing) =>
    if callIsSound callee opening items closing then
      some (call callee typeArguments opening items closing)
    else none
  | none => none

/-- A callee, possibly type arguments, `(`, items and `)` put together into a
call. -/
def call? : List Tree → Option Tree
  | callee :: node .typeArguments parts :: leaf opening :: rest =>
    callOf? callee [node .typeArguments parts] opening rest
  | callee :: leaf opening :: rest => callOf? callee [] opening rest
  | _ => none

theorem eq_append_of_splitClosing {l items : List Tree} {closing : Token}
    (h : splitClosing? l = some (items, closing)) : l = items ++ [leaf closing] := by
  fun_induction splitClosing? l generalizing items with
  | case1 => cases h
  | case2 t =>
    obtain ⟨rfl, rfl⟩ := Prod.mk.inj (Option.some.inj h)
    rfl
  | case3 t r _ ih =>
    obtain ⟨⟨items', closing'⟩, hr, hp⟩ := Option.map_eq_some_iff.1 h
    obtain ⟨rfl, rfl⟩ := Prod.mk.inj hp
    rw [ih hr, List.cons_append]

theorem eq_call_of_callOf {callee t : Tree} {typeArguments rest : List Tree}
    {opening : Token} (h : callOf? callee typeArguments opening rest = some t) :
    ∃ items closing, rest = items ++ [leaf closing] ∧
      callIsSound callee opening items closing = true ∧
      t = call callee typeArguments opening items closing := by
  unfold callOf? at h
  split at h
  · next items closing hr =>
    split at h
    · next hsound =>
      exact ⟨items, closing, eq_append_of_splitClosing hr, hsound,
        (Option.some.inj h).symm⟩
    · cases h
  · cases h

theorem source_callOf {callee t : Tree} {typeArguments rest : List Tree} {opening : Token}
    (h : callOf? callee typeArguments opening rest = some t) :
    t.source = callee.source ++
    (sourceAll typeArguments ++ (opening.source ++ sourceAll rest)) := by
  obtain ⟨items, closing, rfl, -, rfl⟩ := eq_call_of_callOf h
  simp [source, sourceAll]

theorem source_call {l : List Tree} {t : Tree} (h : call? l = some t) :
    t.source = sourceAll l := by
  unfold call? at h
  split at h
  · simp [source_callOf h, sourceAll, source]
  · simp [source_callOf h, sourceAll, source]
  · simp at h

/-! ### Sound trees -/

mutual

/-- Holds of trees whose calls are all what they seem, and whose tokens have
blanks and whole comments between them. -/
def isSound : Tree → Bool
  | leaf t => t.isPlain
  | node _ parts => areSound parts
  | call callee typeArguments opening items closing =>
    callIsSound callee opening items closing && opening.isPlain && closing.isPlain &&
      (callee.isSound && (areSound typeArguments && areSound items))

/-- Holds of rows of sound trees. -/
def areSound : List Tree → Bool
  | [] => true
  | t :: r => t.isSound && areSound r

end

theorem areSound_eq_all (l : List Tree) : areSound l = l.all isSound := by
  induction l with
  | nil => rfl
  | cons t r ih => simp [areSound, ih]

theorem areSound_iff {l : List Tree} : areSound l = true ↔ ∀ t ∈ l, t.isSound = true := by
  rw [areSound_eq_all, List.all_eq_true]

theorem isSound_callOf {callee t : Tree} {typeArguments rest : List Tree}
    {opening : Token} (h : callOf? callee typeArguments opening rest = some t)
    (hcallee : callee.isSound = true)
    (htypes : areSound typeArguments = true) (hopen : opening.isPlain = true)
    (hrest : areSound rest = true) : t.isSound = true := by
  obtain ⟨items, closing, rfl, hsound, rfl⟩ := eq_call_of_callOf h
  simp only [areSound_eq_all, List.all_append, List.all_cons, List.all_nil, Bool.and_true,
    Bool.and_eq_true] at hrest
  have hclosing : closing.isPlain = true := hrest.2
  simp [isSound, hsound, hopen, hclosing, hcallee, htypes, areSound_eq_all items, hrest.1]

/-- A call put together from sound parts is sound. -/
theorem isSound_call {l : List Tree} {t : Tree} (h : call? l = some t)
    (hl : areSound l = true) :
    t.isSound = true := by
  unfold call? at h
  split at h
  · simp only [areSound, Bool.and_eq_true] at hl
    exact isSound_callOf h hl.1 (by simp [areSound, hl.2.1]) hl.2.2.1 hl.2.2.2
  · simp only [areSound, Bool.and_eq_true] at hl
    exact isSound_callOf h hl.1 rfl hl.2.1 hl.2.2
  · simp at h

end Tree

end AnimLint.Script
