/-
AnimLint/Check.lean

The check of one text: it is parsed, the rule is run on each of its calls, and
the violations become findings on the lines where the call shows them, unless a
directive silences those lines.

Positions in the tree count from after a byte-order mark; the rule looks at the
text with it.

Comments are kept by the place they are attached to, and nothing says in which
order these places are listed.  So a check meets the comments of a script in
some order, which is a parameter (`Visit`).

All of it works over any reader of scripts; the plain names stand for the reader
of the language.

Main definitions: `dialectOf`, `Visit`, `Reader.findings`, `findings`.
-/
import AnimLint.Directive
import AnimLint.Files.Path
import AnimLint.Finding
import AnimLint.Script.Reader
import AnimLint.Script.Sites

namespace AnimLint

open Text Script

/-- The language of a file, by the extension of its name. -/
def dialectOf (file : String) : Dialect :=
  match Files.extension? file with
  | some "ts" | some "mts" | some "cts" => ⟨true, false⟩
  | some "tsx" => ⟨true, true⟩
  | _ => ⟨false, true⟩

/-! ### Directives of a script -/

/-- The orders in which a check meets the comments of each script, by the name
of its file.  No comment is left out, and one that stands behind something and
in front of something else may be met twice. -/
structure Visit where
  order : String → Tree → List Comment
  mem_order : ∀ {file tree c}, c ∈ order file tree ↔ c ∈ tree.comments

/-- The visit that meets comments as they stand in the text. -/
def Visit.inText : Visit := ⟨fun _ tree => tree.comments, .rfl⟩

/-- The directives among some comments with the lines they stand on. -/
def directivesOf (body : List Char) (comments : List Comment) : List (Nat × Directive) :=
  comments.filterMap fun c =>
    (Directive.parse? c.content).map fun d => (lineAt body c.start, d)

/-- The lines of a script on which nothing is reported, by its comments in the
order they are met. -/
def Silence.ofComments (body : List Char) (comments : List Comment) : Silence :=
  .ofDirectives (directivesOf body comments)

/-- The lines of a script on which nothing is reported, if its comments are met
in the order of the text. -/
def silenceOf (body : List Char) (tree : Tree) : Silence := .ofComments body tree.comments

/-! ### Reporting -/

/-- The first and the last line on which a violation is reported: the line after
which the callee ends, or the line on which the call ends. -/
def reportLines (body : List Char) (call : Call) : Side → Nat × Nat
  | .leading =>
    let line := lineAt body call.callee.stop
    (line, line + 1)
  | .trailing =>
    let line := lineAt body call.span.stop
    (max (line - 1) 1, line)

/-- Holds if a violation is not to be reported, for its own line or for the one
its call starts on. -/
def isSilenced (silence : Silence) (body : List Char) (call : Call)
    (side : Side) : Bool :=
  silence.covers (reportLines body call side).1 ||
  silence.covers (lineAt body call.span.start)

/-- The finding that a violation in a file is reported as. -/
def Violation.finding (file : String) (body : List Char) (site : Site)
    (v : Violation) : Finding :=
  let (line, endLine) := reportLines body site.call v.side
  { file := file, line := line, column := 1, endLine := endLine, side := v.side
    method := site.method, sourceLine := lineText body line, zoneText := v.zoneText
    edit := v.edit }

/-- The findings at one call. -/
def siteFindings (target : Target) (file : String) (text body : List Char)
    (silence : Silence)
    (site : Site) : List Finding :=
  ((violations target text site.call).filter
    fun v => !isSilenced silence body site.call v.side).map (·.finding file body site)

/-- The findings in a text whose tree is known. -/
def treeFindings (visit : Visit) (target : Target) (file : String) (text : List Char)
    (tree : Tree) : List Finding :=
  let body := dropMark text
  let silence := Silence.ofComments body (visit.order file tree)
  (tree.sites 0).flatMap (siteFindings target file text body silence)

/-- The tree of the text of a file. -/
def Script.Reader.parseFile (reader : Reader) (file : String) (text : List Char) :
    Except SyntaxError Tree :=
  reader.read (dialectOf file) (dropMark text)

/-- The tree of a text without a byte-order mark spells the text. -/
theorem Script.Reader.source_of_parseFile {reader : Reader} {file : String}
    {text : List Char}
    {tree : Tree} (hparse : reader.parseFile file text = .ok tree)
    (hmark : dropMark text = text) :
    tree.source = text := by
  rw [← hmark]
  exact reader.source_of_read hparse

/-- The findings in the text of a file, in the order its calls are visited. -/
def Script.Reader.findings (reader : Reader) (visit : Visit) (target : Target)
    (file : String)
    (text : List Char) : Except SyntaxError (List Finding) :=
  match reader.parseFile file text with
  | .error e => .error e
  | .ok tree => .ok (treeFindings visit target file text tree)

/-- The tree of the text of a file, as the language has it. -/
def parseFile (file : String) (text : List Char) : Except SyntaxError Tree :=
  Reader.script.parseFile file text

/-- The findings in the text of a file, as the language has it. -/
def findings (target : Target) (file : String) (text : List Char)
    (visit : Visit := .inText) :
    Except SyntaxError (List Finding) :=
  Reader.script.findings visit target file text

end AnimLint
