/-
AnimLint/Proofs/Progress.lean

That every pass of a repair gets somewhere.  A pass with an edit to take applies
one and leaves fewer line breaks than it found, so a repair never has to give up
a pass that changed nothing: it is the plain loop that stops where no edit is
left or all passes are made (`Reader.editAll`).  What it counts is what its
passes did, one after the other (`Reader.Passes`), and a repair without a pass,
one that applied nothing and one that gives the text back are the same
(`Reader.repair_progress`).

The measure is the number of line breaks: each edit that is applied takes one
away at least.

Passes also say when a repair does not depend on the order in which comments are
met: when the text is settled and stays so over all passes
(`StaysSettled.repair_eq`).
-/
import AnimLint.Proofs.Passes

namespace AnimLint

open Text Script

/-! ### Definitions -/

/-- Edits a text with the given findings, in at most so many passes, where every
pass with an edit is made. -/
def Script.Reader.editIn (reader : Reader) (visit : Visit) (target : Target)
    (file : String) :
    Nat → List Char → List Finding → Except RepairError Repaired
  | 0, text, found => .ok ⟨text, 0, 0, found⟩
  | n + 1, text, found =>
    if (editsOf found).isEmpty then .ok ⟨text, 0, 0, found⟩
    else match reader.findings visit target file (splice text (editsOf found)).output with
      | .error e => .error (.broken file e)
      | .ok again =>
        match reader.editIn visit target file n
          (splice text (editsOf found)).output again with
        | .error e => .error e
        | .ok done => .ok { done with
            applied := (splice text (editsOf found)).applied + done.applied
            passes := done.passes + 1 }

/-- Edits the text of a file until no edit is left or all passes are made. -/
def Script.Reader.editAll (reader : Reader) (visit : Visit) (target : Target)
    (file : String)
    (text : List Char) : Except RepairError Repaired :=
  match reader.findings visit target file text with
  | .error e => .error (.unparsable e)
  | .ok found => reader.editIn visit target file maxPasses text found

/-- Passes in a row from one text to another.  Each is the batch of the edits
that a check of its text finds, of which there is one at least, and the next one
starts from what it puts out. -/
inductive Script.Reader.Passes (reader : Reader) (visit : Visit) (target : Target)
    (file : String) :
    List Char → List Spliced → List Char → Prop
  | nil (text : List Char) : Passes reader visit target file text [] text
  | cons {text output : List Char} {found : List Finding} {row : List Spliced}
      (hfound : reader.findings visit target file text = .ok found)
        (hedits : editsOf found ≠ [])
      (hrest : Passes reader visit target file (splice text (editsOf found)).output
        row output) :
      Passes reader visit target file text (splice text (editsOf found) :: row) output

/-- How many edits were applied in some passes. -/
def appliedIn : List Spliced → Nat
  | [] => 0
  | pass :: row => pass.applied + appliedIn row

variable {reader : Reader} {visit : Visit} {target : Target} {file : String}
  {text : List Char}

/-! ### One pass -/

/-- A pass with an edit to take applies one, and leaves fewer line breaks. -/
theorem splice_findings_progress {found : List Finding}
    (h : reader.findings visit target file text = .ok found) (hne : editsOf found ≠ []) :
    0 < (splice text (editsOf found)).applied ∧
      breakCount (splice text (editsOf found)).output < breakCount text := by
  have hpos : 0 < (splice text (editsOf found)).applied :=
    Nat.pos_of_ne_zero (splice_findings_ne h hne).1
  have hbreaks := (splice_findings h).2
  exact ⟨hpos, by omega⟩

/-- Whether to stop asks for nothing but an edit: a pass that applied nothing,
or that left the text as it is, had none. -/
theorem isEmpty_editsOf {found : List Finding}
    (h : reader.findings visit target file text = .ok found) :
    ((editsOf found).isEmpty || (splice text (editsOf found)).applied == 0 ||
      (splice text (editsOf found)).output == text) = (editsOf found).isEmpty := by
  by_cases hnil : editsOf found = []
  · rw [hnil]
    rfl
  · obtain ⟨happlied, houtput⟩ := splice_findings_ne h hnil
    rw [beq_eq_false_iff_ne.2 happlied, beq_eq_false_iff_ne.2 houtput,
      Bool.or_false, Bool.or_false]

/-! ### Passes in a row -/

/-- Passes in a row never end for want of progress. -/
theorem repairIn_eq_editIn (n : Nat) {found : List Finding}
    (hfound : reader.findings visit target file text = .ok found) :
    reader.repairIn visit target file n text found =
      reader.editIn visit target file n text found := by
  induction n generalizing text found with
  | zero => rfl
  | succ n ih =>
    rw [repairIn_succ, isEmpty_editsOf hfound, Reader.editIn]
    rcases hagain :
        reader.findings visit target file (splice text (editsOf found)).output
          with e | again
    · rfl
    · have hrest := ih hagain
      dsimp only
      generalize reader.repairIn visit target file n
        (splice text (editsOf found)).output again = rest
        at hrest ⊢
      subst hrest
      rfl

/-- Passes in a row apply as many edits as there are passes, and each edit takes
a line break away. -/
theorem Script.Reader.Passes.measure {row : List Spliced} {output : List Char}
    (h : reader.Passes visit target file text row output) :
    row.length ≤ appliedIn row ∧ breakCount output + appliedIn row ≤ breakCount text := by
  induction h with
  | nil text => exact ⟨Nat.le_refl _, Nat.le_refl _⟩
  | cons hfound hedits _ ih =>
    obtain ⟨hlength, hrest⟩ := ih
    have hpos := (splice_findings_progress hfound hedits).1
    have hpass := (splice_findings hfound).2
    rw [List.length_cons, appliedIn]
    constructor <;> omega

/-- Where no pass is made, or no edit applied, or the text comes back, all three
hold. -/
theorem Script.Reader.Passes.nothing_iff {row : List Spliced} {output : List Char}
    (h : reader.Passes visit target file text row output) :
    (row.length = 0 ↔ appliedIn row = 0) ∧ (appliedIn row = 0 ↔ output = text) := by
  obtain ⟨hlength, hbreaks⟩ := h.measure
  have hnone : row.length = 0 → appliedIn row = 0 ∧ output = text := by
    intro hzero
    cases h with
    | nil => exact ⟨rfl, rfl⟩
    | cons => cases hzero
  refine ⟨⟨fun hzero => (hnone hzero).1, fun hzero => ?_⟩,
    ⟨fun hzero => (hnone ?_).2, fun hsame => ?_⟩⟩
  · omega
  · omega
  · rw [hsame] at hbreaks
    omega

/-- What a repair counts is what its passes did, one after the other. -/
theorem passes_of_repairIn {n : Nat} {found : List Finding} {done : Repaired}
    (hfound : reader.findings visit target file text = .ok found)
    (h : reader.repairIn visit target file n text found = .ok done) :
    ∃ row, reader.Passes visit target file text row done.output ∧
      done.passes = row.length ∧ done.applied = appliedIn row := by
  induction n generalizing text found done with
  | zero =>
    obtain rfl := Except.ok.inj h
    exact ⟨[], .nil text, rfl, rfl⟩
  | succ n ih =>
    rw [repairIn_succ, isEmpty_editsOf hfound] at h
    split at h
    · obtain rfl := Except.ok.inj h
      exact ⟨[], .nil text, rfl, rfl⟩
    · next hedits =>
      split at h
      · cases h
      · next again hagain =>
        split at h
        · cases h
        · next rest hrest =>
          obtain rfl := Except.ok.inj h
          obtain ⟨row, hrow, hpasses, happlied⟩ := ih hagain hrest
          refine ⟨splice text (editsOf found) :: row, .cons hfound ?_ hrow, ?_, ?_⟩
          · simpa using hedits
          · show rest.passes + 1 = _
            rw [hpasses, List.length_cons]
          · show _ + rest.applied = _
            rw [happlied, appliedIn]

/-! ### Repairs -/

theorem repair_eq_editAll :
    reader.repair visit target file text = reader.editAll visit target file text := by
  unfold Reader.repair Reader.editAll
  rcases hfound : reader.findings visit target file text with e | found
  · rfl
  · exact repairIn_eq_editIn maxPasses hfound

/-- Every pass makes progress and the counts are exact.  A pass with an edit to
take applies one and leaves fewer line breaks, so a repair is the loop that goes
on while there is an edit.  It ends where no edit is left or ten passes are
made; it counts what its passes did; what remains is what a check that meets the
comments in the same order finds in the output, and any check if the output is
settled; and no pass, no edit and no change are the same. -/
theorem Script.Reader.repair_progress (reader : Reader) (visit : Visit) (target : Target)
    (file : String) (text : List Char) :
    (∀ (input : List Char) (found : List Finding),
      reader.findings visit target file input = .ok found → editsOf found ≠ [] →
        0 < (splice input (editsOf found)).applied ∧
          breakCount (splice input (editsOf found)).output < breakCount input) ∧
    reader.repair visit target file text = reader.editAll visit target file text ∧
    ∀ done, reader.repair visit target file text = .ok done →
      (∃ row, reader.Passes visit target file text row done.output ∧
        done.passes = row.length ∧ done.applied = appliedIn row) ∧
      (editsOf done.remaining = [] ∨ done.passes = maxPasses) ∧
      (reader.findings visit target file done.output = .ok done.remaining ∧
        (reader.Settled target file done.output → ∀ again,
          reader.findings again target file done.output = .ok done.remaining)) ∧
      (done.passes = 0 ↔ done.applied = 0) ∧ (done.applied = 0 ↔ done.output = text) := by
  refine ⟨fun input found => splice_findings_progress, repair_eq_editAll, ?_⟩
  intro done h
  obtain ⟨found, hfound, hrepair⟩ := findings_of_repair h
  obtain ⟨hpasses, hfindings, hedits⟩ := settles_repairIn hfound hrepair
  obtain ⟨row, hrow, hlength, happlied⟩ := passes_of_repairIn hfound hrepair
  refine ⟨⟨row, hrow, hlength, happlied⟩, ?_, ⟨hfindings, fun hsettled again => ?_⟩, ?_⟩
  · rcases Nat.lt_or_eq_of_le hpasses with hlt | hall
    · exact .inl (hedits hlt)
    · exact .inr hall
  · rw [findings_visit hsettled again visit, hfindings]
  · rw [hlength, happlied]
    exact hrow.nothing_iff

/-- Two calls in one another take two passes: the batch of the first holds an
edit for both, of which only the outer one is applied. -/
theorem repair_progress_nested_two :
    (∃ found, Reader.script.findings .inText ⟨["f"], []⟩ "a.js" (nested 2) = .ok found ∧
      0 < (splice (nested 2) (editsOf found)).applied ∧
      breakCount (splice (nested 2) (editsOf found)).output < breakCount (nested 2)) ∧
    (∃ row, Reader.script.Passes .inText ⟨["f"], []⟩ "a.js" (nested 2) row
        "f(f(\x7b\x7d,\x7b\x7d),\x7b\x7d)".toList ∧
      2 = row.length ∧ 2 = appliedIn row) ∧
    ∀ again, Reader.script.findings again ⟨["f"], []⟩ "a.js"
      "f(f(\x7b\x7d,\x7b\x7d),\x7b\x7d)".toList = .ok [] := by
  have hrepair : Reader.script.repair .inText ⟨["f"], []⟩ "a.js" (nested 2) =
      .ok ⟨"f(f(\x7b\x7d,\x7b\x7d),\x7b\x7d)".toList, 2, 2, []⟩ := by
    decide +kernel
  have hedits :
      ((Reader.script.findings .inText ⟨["f"], []⟩ "a.js" (nested 2)).toOption.any
      fun found => !(editsOf found).isEmpty) = true := by
    decide +kernel
  have hsettled : Reader.script.Settled ⟨["f"], []⟩ "a.js"
      "f(f(\x7b\x7d,\x7b\x7d),\x7b\x7d)".toList :=
    settled_of_isApart (by decide +kernel)
  obtain ⟨hpass, -, hrun⟩ :=
    Reader.script.repair_progress .inText ⟨["f"], []⟩ "a.js" (nested 2)
  obtain ⟨hrow, -, ⟨-, hagain⟩, -⟩ := hrun _ hrepair
  refine ⟨?_, hrow, hagain hsettled⟩
  rcases hfound : Reader.script.findings .inText ⟨["f"], []⟩ "a.js" (nested 2)
      with e | found
  · rw [hfound] at hedits
    cases hedits
  · rw [hfound] at hedits
    refine ⟨found, rfl, hpass _ _ hfound ?_⟩
    rintro hnil
    rw [Except.toOption, Option.any_some, hnil] at hedits
    cases hedits

/-! ### Texts that stay settled -/

/-- Holds if a text is settled, and so is every text that up to so many passes
lead to. -/
def Script.Reader.StaysSettled (reader : Reader) (target : Target)
    (file : String) (n : Nat)
    (text : List Char) : Prop :=
  ∀ row output, reader.Passes .inText target file text row output → row.length ≤ n →
    reader.Settled target file output

/-- Holds if in a text, and in each text that up to so many passes lead to, no
line holds both a `disable` and an `enable`. -/
def Script.Reader.staysApart (reader : Reader) (target : Target) (file : String) :
    Nat → List Char → Bool
  | 0, text => reader.isApart file text
  | n + 1, text => reader.isApart file text &&
      match reader.findings .inText target file text with
      | .error _ => true
      | .ok found => (editsOf found).isEmpty ||
          reader.staysApart target file n (splice text (editsOf found)).output

theorem isApart_of_staysApart {n : Nat}
    (h : reader.staysApart target file n text = true) :
    reader.isApart file text = true := by
  cases n with
  | zero => exact h
  | succ n => exact (Bool.and_eq_true_iff.1 h).1

/-- Where the directives stay apart, the text stays settled. -/
theorem staysSettled_of_staysApart {n : Nat}
    (h : reader.staysApart target file n text = true) :
    reader.StaysSettled target file n text := by
  intro row output hrow hlength
  induction hrow generalizing n with
  | nil text => exact settled_of_isApart (isApart_of_staysApart h)
  | cons hfound hedits _ ih =>
    rcases n with - | n
    · cases hlength
    · refine ih ?_ (Nat.le_of_succ_le_succ hlength)
      have hrest := (Bool.and_eq_true_iff.1 h).2
      rw [hfound] at hrest
      simpa [hedits] using hrest

namespace Script.Reader.StaysSettled

theorem settled {n : Nat} (h : reader.StaysSettled target file n text) :
    reader.Settled target file text :=
  h [] text (.nil text) (Nat.zero_le _)

theorem tail {n : Nat} {found : List Finding}
    (h : reader.StaysSettled target file (n + 1) text)
    (hfound : reader.findings .inText target file text = .ok found)
    (hedits : editsOf found ≠ []) :
    reader.StaysSettled target file n (splice text (editsOf found)).output :=
  fun _ output hrow hlength =>
    h _ output (.cons hfound hedits hrow) (Nat.succ_le_succ hlength)

/-- Passes over texts that are settled do not depend on the visits. -/
theorem repairIn_eq {n : Nat} {found : List Finding}
    (h : reader.StaysSettled target file n text)
    (hfound : reader.findings .inText target file text = .ok found)
    (visit visit' : Visit) :
    reader.repairIn visit target file n text found =
      reader.repairIn visit' target file n text found := by
  induction n generalizing text found with
  | zero => rfl
  | succ n ih =>
    rw [repairIn_succ, repairIn_succ, isEmpty_editsOf hfound]
    split
    · rfl
    · next hedits =>
      rw [List.isEmpty_iff] at hedits
      have hnext := h.tail hfound hedits
      rw [findings_visit hnext.settled visit .inText,
        findings_visit hnext.settled visit' .inText]
      rcases hagain :
          reader.findings .inText target file (splice text (editsOf found)).output with
        e | again
      · rfl
      · simp only [ih hnext hagain]

/-- The repair of a text that stays settled does not depend on the visits. -/
theorem repair_eq (h : reader.StaysSettled target file maxPasses text)
    (visit visit' : Visit) :
    reader.repair visit target file text = reader.repair visit' target file text := by
  rw [Reader.repair, Reader.repair, findings_visit h.settled visit .inText,
    findings_visit h.settled visit' .inText]
  rcases hfound : reader.findings .inText target file text with e | found
  · rfl
  · exact h.repairIn_eq hfound visit visit'

/-- What comes out of the repair of a text that stays settled is settled. -/
theorem settled_output (h : reader.StaysSettled target file maxPasses text)
    {done : Repaired}
    (hdone : reader.repair visit target file text = .ok done) :
    reader.Settled target file done.output := by
  rw [h.repair_eq visit .inText] at hdone
  obtain ⟨found, hfound, hrepair⟩ := findings_of_repair hdone
  obtain ⟨row, hrow, hlength, -⟩ := passes_of_repairIn hfound hrepair
  have hpasses := (settles_repairIn hfound hrepair).1
  exact h row done.output hrow (hlength ▸ hpasses)

end Script.Reader.StaysSettled

end AnimLint
