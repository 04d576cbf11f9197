/-
AnimLint/Script/Parse.lean

From text to tree.  A byte-order mark at the front is no part of the script, and
neither is a first line that names an interpreter.  A text is a script if it can
be read to its end and nothing was noted on the way; otherwise there is one
error, the fault that stopped the reading or else the first one noted, with its
line and column.

Main definitions: `SyntaxError`, `parse`.  A tree spells the text it was parsed
from (`source_of_parse`), and it is what it seems (`isSound_of_parse`); the tree
of a calm text is calm (`isCalm_of_parse`).
-/
import AnimLint.Script.Grammar.Module
import AnimLint.Text.Line

namespace AnimLint.Script

open Text

/-- A fault with the line and the column it is reported at. -/
structure SyntaxError where
  fault : Fault
  line : Nat
  column : Nat
deriving DecidableEq, Repr

/-- The words for a syntax error. -/
def SyntaxError.message (e : SyntaxError) : String :=
  s!"Syntax error at {e.line}:{e.column}: " ++ e.fault.message

/-- The error for a fault in a text. -/
def Mishap.inText (m : Mishap) (text : List Char) : SyntaxError :=
  let before := text.take (text.length - m.rest.length)
  ⟨m.fault, lineAt text (byteLength before), displayColumn before 0 + 1⟩

/-- The text without a byte-order mark at its front. -/
def dropMark : List Char → List Char
  | [] => []
  | c :: r => if c.toNat == 0xFEFF then r else c :: r

/-- A bound on the depth of phrases in a text and on the rounds of a
repetition. -/
def depthBound (text : List Char) : Nat := 40 * (text.length + 2)

/-- The machine in front of a text; a first line that starts with `#!` is passed
over. -/
def State.startScript (text : List Char) : State :=
  match text with
  | '#' :: '!' :: r =>
    let n := 2 + countWhile (!isLineEnd ·) r
    let s := State.start (text.drop n)
    { s with next :=
      { s.next with trivia := ⟨.interpreter, text.take n⟩ :: s.next.trivia } }
  | _ => State.start text

theorem State.source_startScript (text : List Char) :
    (startScript text).source = text := by
  unfold startScript
  split
  · next r =>
    have h := State.source_start
      (List.drop (2 + countWhile (!isLineEnd ·) r) ('#' :: '!' :: r))
    generalize hn : 2 + countWhile (!isLineEnd ·) r = n at h
    simp only [State.source, Token.source, triviaText] at h ⊢
    have hd : (State.start (List.drop n ('#' :: '!' :: r))).done = [] := rfl
    rw [hd] at h ⊢
    simp only [List.reverse_nil, Tree.sourceAll, List.nil_append, List.append_assoc]
      at h ⊢
    rw [h, List.take_append_drop]
  · exact State.source_start text

theorem State.isSound_startScript (text : List Char) :
    (startScript text).isSound = true := by
  unfold startScript
  split
  · next r =>
    have h := Token.isPlain_read
      (List.drop (2 + countWhile (!isLineEnd ·) r) ('#' :: '!' :: r))
    simpa [isSound, start, turn, Token.isPlain, Trivia.isPlain] using h
  · exact isSound_turn rfl (Token.isPlain_read text)

theorem State.calm_startScript {text : List Char} (h : Script.Calm text) :
    (startScript text).Calm := by
  unfold startScript
  split
  · exact (h.false_of_cons (by decide)).elim
  · exact .turn rfl (Token.calm_read h)

/-- What came of a text: its tree, if all of it was read and nothing was
noted. -/
def State.outcome (text : List Char) (s : State) : Except SyntaxError Tree :=
  match s.noted, s.done, s.next.source ++ s.ahead with
  | some m, _, _ => .error (m.inText text)
  | none, [tree], [] => .ok tree
  | none, _, _ => .error (Mishap.inText ⟨.tooDeep, s.rest⟩ text)

theorem State.source_of_outcome {text : List Char} {s : State} {tree : Tree}
    (h : s.outcome text = .ok tree) : s.source = tree.source := by
  unfold outcome at h
  split at h
  · simp at h
  · next hdone hrest =>
    obtain rfl := Except.ok.inj h
    simp [source, hdone, hrest, Tree.sourceAll]
  · simp at h

theorem State.done_of_outcome {text : List Char} {s : State} {tree : Tree}
    (h : s.outcome text = .ok tree) : s.done = [tree] := by
  unfold outcome at h
  split at h
  · simp at h
  · next hdone _ =>
    obtain rfl := Except.ok.inj h
    exact hdone
  · simp at h

theorem State.noted_of_outcome {text : List Char} {s : State} {tree : Tree}
    (h : s.outcome text = .ok tree) : s.noted = none := by
  unfold outcome at h
  split at h
  · simp at h
  · next hnoted _ _ => exact hnoted
  · simp at h

/-- Reads a text as a module. -/
def run (dialect : Dialect) (text : List Char) : Except Stop (Unit × State) :=
  (Parser.ofRules Grammar.rules (depthBound text) .module).run
    { dialect := dialect, limit := depthBound text } (.startScript text)

/-- The tree of a script. -/
def parse (dialect : Dialect) (text : List Char) : Except SyntaxError Tree :=
  match run dialect text with
  | .error stop => .error (stop.mishap.inText text)
  | .ok (_, s) => s.outcome text

/-- The tree of a script spells the script. -/
theorem source_of_parse {dialect : Dialect} {text : List Char} {tree : Tree}
    (h : parse dialect text = .ok tree) : tree.source = text := by
  unfold parse at h
  split at h
  · simp at h
  · next s hrun =>
    rw [← State.source_of_outcome h, (Parser.keeps _ hrun).source,
      State.source_startScript]

/-- The tree of a script is sound. -/
theorem isSound_of_parse {dialect : Dialect} {text : List Char} {tree : Tree}
    (h : parse dialect text = .ok tree) : tree.isSound = true := by
  unfold parse at h
  split at h
  · simp at h
  · next s hrun =>
    have hsound := (Parser.keeps _ hrun).sound (State.isSound_startScript text)
    simp only [State.isSound, State.done_of_outcome h, List.all_cons, List.all_nil,
      Bool.and_true, Bool.and_eq_true] at hsound
    exact hsound.1

/-- The tree of a calm text is calm. -/
theorem isCalm_of_parse {dialect : Dialect} {text : List Char} {tree : Tree}
    (htext : Calm text)
    (h : parse dialect text = .ok tree) : tree.isCalm = true := by
  unfold parse at h
  split at h
  · simp at h
  · next s hrun =>
    obtain ⟨-, hcalm⟩ := (Parser.keeps _ hrun).calm (State.noted_of_outcome h)
    have hdone := (hcalm (State.calm_startScript htext)).done
    simpa [State.done_of_outcome h] using hdone

end AnimLint.Script
