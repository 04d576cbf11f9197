/-
AnimLint/Target.lean

Which calls are looked at.  The choice goes by the text of the callee alone: it
has to end in one of the keywords and in none of the excluded endings.  What the
name refers to is never asked.

Main definitions: `Target`, `Target.covers`.
-/
import AnimLint.Text.Blank

namespace AnimLint

/-- The endings that single out the calls to look at. -/
structure Target where
  keywords : List String
  excludes : List String
deriving DecidableEq, Repr

namespace Target

/-- The endings used when nothing else is configured. -/
def default : Target where
  keywords := [".to", ".from", ".fromTo", ".timeline"]
  excludes := ["Array.from"]

instance : Inhabited Target := ⟨default⟩

/-- Holds if the text ends in the given ending. -/
def endsIn (callee : List Char) (ending : String) : Bool :=
  ending.toList.isSuffixOf callee

/-- Holds of the callees to look at; blanks at the end of the callee do not
count. -/
def covers (target : Target) (callee : List Char) : Bool :=
  let callee := Text.trimEnd callee
  target.keywords.any (endsIn callee) && !target.excludes.any (endsIn callee)

end Target

end AnimLint
