/-
AnimLint/Script/Reader.lean

What the rest of the program asks of a reader of scripts: it answers with a tree
or an error, a tree spells the text it was read from, and the tree is sound.
Nothing else about the language matters to finding and mending the zones of
calls.

Main definitions: `Reader`; `Reader.script` is the reader of the language.
-/
import AnimLint.Script.Parse

namespace AnimLint.Script

/-- A reader of scripts. -/
structure Reader where
  read : Dialect → List Char → Except SyntaxError Tree
  source_of_read : ∀ {dialect text tree}, read dialect text = .ok tree →
    tree.source = text
  isSound_of_read : ∀ {dialect text tree}, read dialect text = .ok tree →
    tree.isSound = true

/-- The reader of the language. -/
def Reader.script : Reader := ⟨parse, source_of_parse, isSound_of_parse⟩

end AnimLint.Script
