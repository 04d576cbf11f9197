/-
AnimLint/Proofs/Passes.lean

What one pass does to a text, and from it what a repair does.  A pass takes
edits that show the same characters with fewer line breaks, so a repair moves
blanks only (`Reader.visible_repair`), and a pass with an edit to take always
changes the text.  Hence the passes end for one of two reasons: no edit is left,
and then a second repair has nothing to do, or ten passes have been made
(`Reader.repair_settles`).

None of this depends on how scripts are read.
-/
import AnimLint.Proofs.CommentOrder
import AnimLint.Proofs.Splicing
import AnimLint.Proofs.Zones
import AnimLint.Repair

namespace AnimLint

open Text Script

/-- Whether two outcomes agree can be told, so that runs on fixed scripts can be
evaluated. -/
instance decidableEqExcept {ε α : Type} [DecidableEq ε] [DecidableEq α] :
    DecidableEq (Except ε α)
  | .ok a, .ok b => decidable_of_iff (a = b) (by rw [Except.ok.injEq])
  | .error a, .error b => decidable_of_iff (a = b) (by rw [Except.error.injEq])
  | .ok _, .error _ => .isFalse nofun
  | .error _, .ok _ => .isFalse nofun

variable {reader : Reader} {visit : Visit} {target : Target} {file : String}
  {text : List Char}

/-! ### The edits of a check -/

/-- The edits of some findings. -/
def editsOf (found : List Finding) : List Edit := found.filterMap (·.edit)

theorem editsOf_eq_nil {found : List Finding} :
    editsOf found = [] ↔ ∀ f ∈ found, f.edit = none := by
  rw [editsOf, List.filterMap_eq_nil_iff]

/-- An edit comes from a violation that is not silenced. -/
theorem edit_of_treeFindings {tree : Tree} {e : Edit}
    (h : e ∈ editsOf (treeFindings visit target file text tree)) :
    ∃ site ∈ tree.sites 0, ∃ v ∈ violations target text site.call, v.edit = some e ∧
      isSilenced (.ofComments (dropMark text) (visit.order file tree))
        (dropMark text) site.call
        v.side = false := by
  obtain ⟨f, hf, he⟩ := List.mem_filterMap.1 h
  obtain ⟨site, hsite, hf⟩ := List.mem_flatMap.1 hf
  obtain ⟨v, hv, rfl⟩ := List.mem_map.1 hf
  obtain ⟨hv, hsilent⟩ := List.mem_filter.1 hv
  exact ⟨site, hsite, v, hv, he, by simpa using hsilent⟩

theorem treeFindings_of_findings {found : List Finding}
    (h : reader.findings visit target file text = .ok found) :
    ∃ tree, reader.parseFile file text = .ok tree ∧
      found = treeFindings visit target file text tree := by
  unfold Reader.findings at h
  split at h
  · cases h
  · next tree htree => exact ⟨tree, htree, (Except.ok.inj h).symm⟩

/-- Each edit of a check shows the characters of the slice it covers, with fewer
line breaks. -/
theorem slice_of_findings {found : List Finding} {e : Edit}
    (h : reader.findings visit target file text = .ok found) (he : e ∈ editsOf found) :
    ∃ cut, slice? text e.span = some cut ∧ visible e.text = visible cut ∧
      breakCount e.text < breakCount cut := by
  obtain ⟨tree, -, rfl⟩ := treeFindings_of_findings h
  obtain ⟨site, -, v, hv, hedit, -⟩ := edit_of_treeFindings he
  exact slice_of_violation hv hedit

/-! ### One pass -/

/-- A pass shows the same characters and takes a line break away with each
edit. -/
theorem splice_findings {found : List Finding}
    (h : reader.findings visit target file text = .ok found) :
    visible (splice text (editsOf found)).output = visible text ∧
      breakCount (splice text (editsOf found)).output +
      (splice text (editsOf found)).applied ≤
        breakCount text := by
  obtain ⟨accepted, hlen, hmem, hrewrites⟩ := splice_rewrites text (editsOf found)
  have hcut : ∀ e ∈ accepted, ∀ cut, slice? text e.span = some cut →
      visible e.text = visible cut ∧ breakCount e.text < breakCount cut := by
    intro e he cut hcut
    obtain ⟨cut', hcut', hvisible, hbreaks⟩ := slice_of_findings h (hmem e he)
    rw [hcut] at hcut'
    obtain rfl := Option.some.inj hcut'
    exact ⟨hvisible, hbreaks⟩
  constructor
  · exact hrewrites.map_eq visible visible_append byteLength_nil
      fun e he cut h => (hcut e he cut h).1
  · rw [← hlen]
    exact hrewrites.measure_le breakCount breakCount_append byteLength_nil
      fun e he cut h => (hcut e he cut h).2

/-- A pass with an edit to take changes the text. -/
theorem splice_findings_ne {found : List Finding}
    (h : reader.findings visit target file text = .ok found) (hne : editsOf found ≠ []) :
    (splice text (editsOf found)).applied ≠ 0 ∧
    (splice text (editsOf found)).output ≠ text := by
  have hpos : 0 < (splice text (editsOf found)).applied := by
    refine splice_applied_pos hne fun e he => ?_
    obtain ⟨cut, hcut, -⟩ := slice_of_findings h he
    exact ⟨cut, hcut⟩
  refine ⟨by omega, fun heq => ?_⟩
  have hbreaks := (splice_findings h).2
  rw [heq] at hbreaks
  omega

/-! ### Passes in a row -/

/-- Passes in a row are one pass and the rest, unless there is nothing to do. -/
theorem repairIn_succ (n : Nat) (found : List Finding) :
    reader.repairIn visit target file (n + 1) text found =
      if (editsOf found).isEmpty || (splice text (editsOf found)).applied == 0 ||
        (splice text (editsOf found)).output == text then .ok ⟨text, 0, 0, found⟩
      else match reader.findings visit target file
        (splice text (editsOf found)).output with
        | .error e => .error (.broken file e)
        | .ok again =>
          match reader.repairIn visit target file n
            (splice text (editsOf found)).output again with
          | .error e => .error e
          | .ok done => .ok { done with
              applied := (splice text (editsOf found)).applied + done.applied
              passes := done.passes + 1 } :=
  rfl

/-- No pass is left to make, or there is no edit, or one pass is made and the
rest follows. -/
theorem repairIn_ok {n : Nat} {found : List Finding} {done : Repaired}
    (hfound : reader.findings visit target file text = .ok found)
    (h : reader.repairIn visit target file n text found = .ok done) :
    ((n = 0 ∨ editsOf found = []) ∧ done = ⟨text, 0, 0, found⟩) ∨
      ∃ m again rest, n = m + 1 ∧
        reader.findings visit target file
          (splice text (editsOf found)).output = .ok again ∧
        reader.repairIn visit target file m (splice text (editsOf found)).output
          again = .ok rest ∧
        done = { rest with
          applied := (splice text (editsOf found)).applied + rest.applied
          passes := rest.passes + 1 } := by
  rcases n with - | m
  · exact .inl ⟨.inl rfl, (Except.ok.inj h).symm⟩
  · rw [repairIn_succ] at h
    split at h
    · next hstop =>
      refine .inl ⟨.inr ?_, (Except.ok.inj h).symm⟩
      refine Classical.byContradiction fun hne => ?_
      obtain ⟨happlied, houtput⟩ := splice_findings_ne hfound hne
      simp [hne, happlied, houtput] at hstop
    · split at h
      · cases h
      · next again hagain =>
        split at h
        · cases h
        · next rest hrest =>
            exact .inr ⟨m, again, rest, rfl, hagain, hrest, (Except.ok.inj h).symm⟩

/-- Passes in a row show the same characters. -/
theorem visible_repairIn {n : Nat} {found : List Finding} {done : Repaired}
    (hfound : reader.findings visit target file text = .ok found)
    (h : reader.repairIn visit target file n text found = .ok done) :
    visible done.output = visible text := by
  induction n generalizing text found done with
  | zero =>
    obtain ⟨-, rfl⟩ | ⟨m, _, _, hm, -⟩ := repairIn_ok hfound h
    · rfl
    · cases hm
  | succ n ih =>
    obtain ⟨-, rfl⟩ | ⟨m, again, rest, hm, hagain, hrest, rfl⟩ := repairIn_ok hfound h
    · rfl
    · obtain rfl := Nat.succ.inj hm
      show visible rest.output = visible text
      rw [ih hagain hrest, (splice_findings hfound).1]

/-- What is left after passes in a row is what a check of the output finds, and
an edit is left only where all passes were made. -/
theorem settles_repairIn {n : Nat} {found : List Finding} {done : Repaired}
    (hfound : reader.findings visit target file text = .ok found)
    (h : reader.repairIn visit target file n text found = .ok done) :
    done.passes ≤ n ∧ reader.findings visit target file done.output = .ok done.remaining ∧
      (done.passes < n → editsOf done.remaining = []) := by
  induction n generalizing text found done with
  | zero =>
    obtain ⟨-, rfl⟩ | ⟨m, _, _, hm, -⟩ := repairIn_ok hfound h
    · exact ⟨Nat.le_refl _, hfound, fun hlt => absurd hlt (Nat.lt_irrefl _)⟩
    · cases hm
  | succ n ih =>
    obtain ⟨hstop, rfl⟩ | ⟨m, again, rest, hm, hagain, hrest, rfl⟩ := repairIn_ok hfound h
    · rcases hstop with hzero | hnil
      · cases hzero
      · exact ⟨Nat.zero_le _, hfound, fun _ => hnil⟩
    · obtain rfl := Nat.succ.inj hm
      obtain ⟨hpasses, hfindings, hedits⟩ := ih hagain hrest
      refine ⟨Nat.succ_le_succ hpasses, hfindings, fun hlt => hedits ?_⟩
      exact Nat.lt_of_succ_lt_succ hlt

theorem findings_of_repair {done : Repaired}
    (h : reader.repair visit target file text = .ok done) :
    ∃ found, reader.findings visit target file text = .ok found ∧
      reader.repairIn visit target file maxPasses text found = .ok done := by
  unfold Reader.repair at h
  split at h
  · cases h
  · next found hfound => exact ⟨found, hfound, h⟩

/-- Where no edit is found there is nothing to do. -/
theorem repair_of_editsOf_nil {found : List Finding}
    (hfound : reader.findings visit target file text = .ok found)
    (hnil : editsOf found = []) :
    reader.repair visit target file text = .ok ⟨text, 0, 0, found⟩ := by
  simp only [Reader.repair, hfound, maxPasses]
  rw [repairIn_succ, hnil]
  rfl

/-! ### Repairs -/

/-- A repair moves blanks only: it shows the same characters in the same
order. -/
theorem Script.Reader.visible_repair (reader : Reader) (visit : Visit) (target : Target)
    (file : String) (text : List Char) {done : Repaired}
    (h : reader.repair visit target file text = .ok done) :
    visible done.output = visible text := by
  obtain ⟨found, hfound, hrepair⟩ := findings_of_repair h
  exact visible_repairIn hfound hrepair

theorem visible_repair_two_lines :
    visible "f(a, b, \x7b\x7d)".toList = visible "f(a,\n  b, \x7b\x7d)".toList := by
  have h : repair ⟨["f"], []⟩ "a.js" "f(a,\n  b, \x7b\x7d)".toList =
      .ok ⟨"f(a, b, \x7b\x7d)".toList, 1, 1, []⟩ := by
    decide +kernel
  exact Reader.script.visible_repair _ _ _ _ h

/-- A repair makes ten passes at most.  Where it makes fewer, no edit is left;
and where no edit is left in a settled text, repairing again makes no pass,
applies nothing and gives the same text, in whatever order comments are met this
time. -/
theorem Script.Reader.repair_settles (reader : Reader) (visit : Visit) (target : Target)
    (file : String) (text : List Char) {done : Repaired}
    (h : reader.repair visit target file text = .ok done) :
    done.passes ≤ maxPasses ∧
      (done.passes < maxPasses → ∀ f ∈ done.remaining, f.edit = none) ∧
      ((∀ f ∈ done.remaining, f.edit = none) → reader.Settled target file done.output →
        ∀ again : Visit,
          reader.repair again target file done.output =
            .ok ⟨done.output, 0, 0, done.remaining⟩) := by
  obtain ⟨found, hfound, hrepair⟩ := findings_of_repair h
  obtain ⟨hpasses, hfindings, hedits⟩ := settles_repairIn hfound hrepair
  refine ⟨hpasses, fun hlt => editsOf_eq_nil.1 (hedits hlt),
    fun hnone hsettled again => ?_⟩
  rw [findings_visit hsettled visit again] at hfindings
  exact repair_of_editsOf_nil hfindings (editsOf_eq_nil.2 hnone)

/-- Calls that nest so many deep, each with a line break behind its `(`. -/
def nested : Nat → List Char
  | 0 => ['\x7b', '\x7d']
  | n + 1 => ['f', '(', '\n'] ++ nested n ++ [',', '\x7b', '\x7d', ')']

/-- A call behind a stretch of silence, on lines that can be joined. -/
def afterSilence : List Char :=
  "// tweenlint-disable\n// tweenlint-enable\nf(\n\x7b\x7d)".toList

/-- The call with its lines joined. -/
def afterSilenceJoined : List Char :=
  "// tweenlint-disable\n// tweenlint-enable\nf(\x7b\x7d)".toList

theorem repair_settles_afterSilence :
    Reader.script.Settled ⟨["f"], []⟩ "a.js" afterSilenceJoined ∧
      repair ⟨["f"], []⟩ "a.js" afterSilence = .ok ⟨afterSilenceJoined, 1, 1, []⟩ ∧
      ∀ again, repair ⟨["f"], []⟩ "a.js" afterSilenceJoined again =
        .ok ⟨afterSilenceJoined, 0, 0, []⟩ := by
  have hsettled : Reader.script.Settled ⟨["f"], []⟩ "a.js" afterSilenceJoined :=
    settled_of_isApart (by decide +kernel)
  have h : repair ⟨["f"], []⟩ "a.js" afterSilence =
      .ok ⟨afterSilenceJoined, 1, 1, []⟩ := by
    decide +kernel
  obtain ⟨-, hnone, hagain⟩ := Reader.script.repair_settles _ _ _ _ h
  exact ⟨hsettled, h, hagain (hnone (by decide)) hsettled⟩

/-- Ten passes do not reach the last of eleven calls in one another. -/
theorem repair_leaves_edit_nested_eleven :
    ¬ ∀ (target : Target) (file : String) (text : List Char) (done : Repaired),
      repair target file text = .ok done → ∀ f ∈ done.remaining, f.edit = none := by
  intro h
  have hleft : ((repair ⟨["f"], []⟩ "a.js" (nested 11)).toOption.any fun done =>
      done.remaining.any (·.edit.isSome)) = true := by
    decide +kernel
  rcases hrepair : repair ⟨["f"], []⟩ "a.js" (nested 11) with e | done
  · rw [hrepair] at hleft
    cases hleft
  · rw [hrepair] at hleft
    obtain ⟨f, hf, hedit⟩ := List.any_eq_true.1 hleft
    rw [h _ _ _ _ hrepair f hf] at hedit
    cases hedit

end AnimLint
