/-
AnimLint/Display/Style.lean

Colored text for a terminal.  A style is a list of display attributes in the
order they are written; without colors the text stands alone.

Main definitions: `Style`, `Style.paint`, `padLeft`.
-/

namespace AnimLint.Display

/-- Display attributes, by their numbers in a terminal's escape sequence. -/
structure Style where
  attributes : List Nat
deriving DecidableEq, Repr

namespace Style

def bold : Style := ⟨[1]⟩
def red : Style := ⟨[31]⟩
def green : Style := ⟨[32]⟩
def yellow : Style := ⟨[33]⟩
def blue : Style := ⟨[34]⟩
def cyan : Style := ⟨[36]⟩
def boldRed : Style := ⟨[1, 31]⟩
def boldGreen : Style := ⟨[1, 32]⟩
def boldYellow : Style := ⟨[1, 33]⟩
def boldCyan : Style := ⟨[1, 36]⟩
def dimCyan : Style := ⟨[2, 36]⟩

/-- A text in this style, if colors are on. -/
def paint (style : Style) (color : Bool) (text : String) : String :=
  if color then
    "\x1b[" ++ String.intercalate ";" (style.attributes.map toString) ++ "m" ++ text ++ "\x1b[0m"
  else text

end Style

/-- So many spaces. -/
def spaces (n : Nat) : String := String.ofList (List.replicate n ' ')

/-- A text with spaces in front up to a given number of characters. -/
def padLeft (n : Nat) (text : String) : String := spaces (n - text.length) ++ text

end AnimLint.Display
