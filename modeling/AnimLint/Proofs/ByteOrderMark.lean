/-
AnimLint/Proofs/ByteOrderMark.lean

A byte-order mark in front of a script.  The mark is no part of the script, so
the places in the tree are counted from behind it, while the rule is shown the
text with it: behind a mark the rule looks at each call three bytes too early
(`Script.Reader.findings_marked`).

Moved past the mark, the ranges of a call show what they show without it
(`violations_behind_mark`), and the lines are those of the text anyway.  But
none of the violations found three bytes early is one of these
(`ne_of_mem_violations`): a zone ends or starts at an object, and the object is
not there.
-/
import AnimLint.Proofs.CallRanges
import AnimLint.Proofs.Containment
import AnimLint.Proofs.Relocation

namespace AnimLint

open Text Script

/-! ### Calls behind a mark -/

/-- The byte-order mark. -/
def byteOrderMark : Char := '\uFEFF'

theorem byteLength_mark : byteLength [byteOrderMark] = 3 := rfl

/-- Behind a mark a call has the violations it has without, if it is looked for
where it stands. -/
theorem violations_behind_mark (target : Target) {text : List Char} {call : Call}
    (h : call.Aligned text) :
    violations target (byteOrderMark :: text) (call.shift 3) =
      (violations target text call).map (Violation.shift 3) := by
  have hspan : call.span ∈ call.ranges := List.mem_cons_self
  have hcallee : call.callee ∈ call.ranges := List.mem_cons_of_mem _ List.mem_cons_self
  have hshift :=
    violations_shift target [byteOrderMark] [] (h.stop_le hspan) (h.stop_le hcallee)
  rw [List.append_nil, byteLength_mark] at hshift
  exact hshift

/-! ### Calls in the wrong place -/

/-- A zone reaches to the objects of its call, from one side or the other. -/
theorem reaches_object {target : Target} {source : List Char} {call : Call}
    {v : Violation}
    (h : v ∈ violations target source call) : ∃ config, call.config = some config ∧
      (v.side = .leading ∧ v.span.stop = config.start ∨
        v.side = .trailing ∧ v.span.start = config.stop) := by
  obtain ⟨zone, hzone, hviolation, -⟩ := zone_of_violation h
  obtain ⟨config, hconfig, hside⟩ := Zone.cases_of_mem hzone
  obtain ⟨hvside, hvspan, -, -⟩ := Zone.of_violation hviolation
  refine ⟨config, hconfig, ?_⟩
  rw [hvside, hvspan]
  rcases hside with hleading | htrailing
  · obtain ⟨hside, -, hstop⟩ := Zone.of_leading hleading
    exact .inl ⟨hside, hstop⟩
  · obtain ⟨hside, -, hstart⟩ := Zone.of_trailing htrailing
    exact .inr ⟨hside, hstart⟩

/-- A call looked for in two places, whatever the texts, shows no violation in
both. -/
theorem ne_of_mem_violations {target : Target} {source source' : List Char}
    {call : Call} {n : Nat}
    (hn : 0 < n) {v w : Violation} (hv : v ∈ violations target source call)
    (hw : w ∈ violations target source' (call.shift n)) : v ≠ w := by
  rintro rfl
  obtain ⟨config, hconfig, hplace⟩ := reaches_object hv
  obtain ⟨config', hconfig', hplace'⟩ := reaches_object hw
  obtain rfl : config' = config.shift n := by
    rw [Call.shift, Call.placed, hconfig] at hconfig'
    exact (Option.some.inj hconfig').symm
  rcases hplace with ⟨hside, hbound⟩ | ⟨hside, hbound⟩ <;>
    rcases hplace' with ⟨hside', hbound'⟩ | ⟨hside', hbound'⟩
  · simp only [Span.shift_start] at hbound'
    omega
  · rw [hside] at hside'
    cases hside'
  · rw [hside] at hside'
    cases hside'
  · simp only [Span.shift_stop] at hbound'
    omega

/-! ### Findings behind a mark -/

/-- A finding moved to the right: its lines stay, and its edit moves. -/
def Finding.shift (n : Nat) (f : Finding) : Finding :=
  { f with edit := f.edit.map (Edit.shift n) }

/-- The findings at one call, whose ranges start so many bytes later in the text
than in the script. -/
def siteFindingsFrom (n : Nat) (target : Target) (file : String) (text body : List Char)
    (silence : Silence) (site : Site) : List Finding :=
  ((violations target text (site.call.shift n)).filter
    fun v => !isSilenced silence body site.call v.side).map (·.finding file body site)

theorem siteFindingsFrom_zero : siteFindingsFrom 0 = siteFindings := by
  funext target file text body silence site
  have hplace : (0 + ·) = id := funext Nat.zero_add
  rw [siteFindingsFrom, Call.shift, hplace, Call.placed_id]
  rfl

/-- The findings at a call that is looked for behind the mark are those without
it, moved. -/
theorem siteFindingsFrom_mark (target : Target) (file : String) {text : List Char}
    {site : Site}
    (h : site.call.Aligned text) (body : List Char) (silence : Silence) :
    siteFindingsFrom 3 target file (byteOrderMark :: text) body silence site =
      (siteFindings target file text body silence site).map (Finding.shift 3) := by
  rw [siteFindingsFrom, siteFindings, violations_behind_mark target h,
    List.filter_map, List.map_map, List.map_map]
  rfl

/-- **A byte-order mark moves the rule away from the calls.**  The text with the
mark has the tree of the text without, and to find what there is to find, the
rule would have to be shown each call three bytes later than the tree has it:
then the findings would be those without the mark, their edits moved.  It is
shown the calls where the tree has them, and at no call does it find a violation
that is there. -/
theorem Script.Reader.findings_marked (reader : Reader) (visit : Visit) (target : Target)
    (file : String) {text : List Char} {tree : Tree}
    (hparse : reader.parseFile file text = .ok tree)
    (hmark : dropMark text = text) :
    let silence := Silence.ofComments text (visit.order file tree)
    let found := treeFindings visit target file text tree
    let foundFrom (n : Nat) := (tree.sites 0).flatMap
      (siteFindingsFrom n target file (byteOrderMark :: text) text silence)
    reader.findings visit target file text = .ok found ∧
      reader.parseFile file (byteOrderMark :: text) = .ok tree ∧
      foundFrom 3 = found.map (Finding.shift 3) ∧
      reader.findings visit target file (byteOrderMark :: text) = .ok (foundFrom 0) ∧
      ∀ site ∈ tree.sites 0,
        violations target (byteOrderMark :: text) (site.call.shift 3) =
          (violations target text site.call).map (Violation.shift 3) ∧
        ∀ v ∈ violations target (byteOrderMark :: text) site.call,
          v ∉ violations target (byteOrderMark :: text) (site.call.shift 3) := by
  intro silence found foundFrom
  have haligned : ∀ site ∈ tree.sites 0, site.call.Aligned text := by
    rw [← Reader.source_of_parseFile hparse hmark]
    exact fun site => Tree.aligned_of_mem_sites (reader.isSound_of_read hparse)
  have hmarked : reader.parseFile file (byteOrderMark :: text) = .ok tree := by
    rw [Reader.parseFile, hmark] at hparse
    exact hparse
  refine ⟨?_, hmarked, ?_, ?_,
    fun site hsite => ⟨violations_behind_mark target (haligned site hsite),
    fun v hv hv' => ne_of_mem_violations (by decide) hv hv' rfl⟩⟩
  · rw [Reader.findings, hparse]
  · have hfound : found =
        (tree.sites 0).flatMap (siteFindings target file text text silence) := by
      simp only [found, silence, treeFindings, hmark]
    rw [hfound, List.map_flatMap]
    exact List.flatMap_congr fun site hsite =>
      siteFindingsFrom_mark target file (haligned site hsite) _ _
  · rw [Reader.findings, hmarked]
    simp only [foundFrom, siteFindingsFrom_zero]
    rfl

/-- A call on two lines. -/
def brokenTween : List Char := "gsap.to(\n  box, \x7b x: 1 \x7d);\n".toList

theorem findings_marked_brokenTween :
    ∃ tree found, parseFile "anim.js" brokenTween = .ok tree ∧
      dropMark brokenTween = brokenTween ∧
      findings .default "anim.js" brokenTween = .ok found ∧ found.length = 1 ∧
      (tree.sites 0).flatMap
        (siteFindingsFrom 3 .default "anim.js" (byteOrderMark :: brokenTween)
        brokenTween (silenceOf brokenTween tree)) = found.map (Finding.shift 3) := by
  have hcheck : (findings .default "anim.js" brokenTween).toOption.map List.length =
      some 1 := by
    decide +kernel
  rcases hparse : parseFile "anim.js" brokenTween with e | tree
  · rw [findings, Reader.findings, ← parseFile, hparse] at hcheck
    cases hcheck
  · obtain ⟨hfound, -, hmoved, -⟩ :=
      Reader.script.findings_marked .inText .default "anim.js" hparse rfl
    rw [findings, hfound] at hcheck
    exact ⟨tree, _, rfl, rfl, hfound, Option.some.inj hcheck, hmoved⟩

/-- Behind a mark nothing is reported of it. -/
theorem mark_hides_finding :
    (findings .default "anim.js" brokenTween).toOption.map List.length = some 1 ∧
      findings .default "anim.js" (byteOrderMark :: brokenTween) = .ok [] := by
  constructor <;> decide +kernel

end AnimLint
