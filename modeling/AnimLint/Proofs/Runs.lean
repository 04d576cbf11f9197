/-
AnimLint/Proofs/Runs.lean

What a run of repairs reports and what it leaves behind.  The analysis it goes
by may be older than the files, so all is said of any two file systems, the one
that was analyzed and the one that is repaired.

Every file with findings is accounted for once, as repaired, as untouched or as
failed (`perm_files_plan`).  All repairs are done before anything is written,
and writing to a file that could be read succeeds, so the run reports what a run
without writing reports (`carryOut_eq`).  What a path holds in the end is what
was written last through a path to the same file (`content?_writeBack`).

Paths that lead to one file may have different names; as long as the names stand
for the same dialect, the repairs agree (`repair_rename`).  A run without
writing and one with it meet the comments in orders of their own, and so do
paths that lead to one file; where the texts stay settled, all agree.
-/
import AnimLint.Proofs.Places
import AnimLint.Proofs.Progress
import AnimLint.RepairRun
import Mathlib.Data.String.Basic

namespace AnimLint

open Files Script

/-! ### Other names for a file -/

/-- A finding under the name of another file. -/
def Finding.rename (file : String) (finding : Finding) : Finding :=
  { finding with file := file }

/-- Meets the comments of every file as those of the given one are met. -/
def Visit.under (visit : Visit) (file : String) : Visit :=
  ⟨fun _ tree => visit.order file tree, visit.mem_order⟩

@[simp] theorem Visit.under_inText (file : String) :
    Visit.inText.under file = .inText := rfl

section Rename

variable {reader : Reader} {visit : Visit} {target : Target} {file : String}

theorem siteFindings_rename (file' : String) (text body : List Char)
    (silence : Silence) (site : Site) :
    siteFindings target file' text body silence site =
      (siteFindings target file text body silence site).map (Finding.rename file') := by
  rw [siteFindings, siteFindings, List.map_map]
  rfl

theorem treeFindings_rename (file' : String) (text : List Char) (tree : Tree) :
    treeFindings (visit.under file) target file' text tree =
      (treeFindings visit target file text tree).map (Finding.rename file') := by
  rw [treeFindings, treeFindings, List.map_flatMap]
  exact List.flatMap_congr fun site _ => siteFindings_rename file' _ _ _ site

theorem editsOf_rename (file' : String) (found : List Finding) :
    editsOf (found.map (Finding.rename file')) = editsOf found := by
  rw [editsOf, List.filterMap_map]
  rfl

variable {file' : String} (hdialect : dialectOf file = dialectOf file')

include hdialect

theorem findings_rename {text : List Char} {found : List Finding}
    (h : reader.findings visit target file text = .ok found) :
    reader.findings (visit.under file) target file' text =
      .ok (found.map (Finding.rename file')) := by
  unfold Reader.findings Reader.parseFile at h ⊢
  rw [← hdialect]
  split at h
  · cases h
  · obtain rfl := Except.ok.inj h
    exact congrArg Except.ok (treeFindings_rename file' text _)

theorem repairIn_rename {n : Nat} {text : List Char} {found : List Finding}
    {done : Repaired}
    (h : reader.repairIn visit target file n text found = .ok done) :
    reader.repairIn (visit.under file) target file' n text
      (found.map (Finding.rename file')) =
      .ok { done with remaining := done.remaining.map (Finding.rename file') } := by
  induction n generalizing text found done with
  | zero =>
    obtain rfl := Except.ok.inj h
    rfl
  | succ n ih =>
    rw [repairIn_succ] at h ⊢
    rw [editsOf_rename]
    split at h
    · obtain rfl := Except.ok.inj h
      rw [if_pos ‹_›]
    · rw [if_neg ‹_›]
      split at h
      · cases h
      · next again hagain =>
        split at h
        · cases h
        · next rest hrest =>
          obtain rfl := Except.ok.inj h
          simp only [findings_rename hdialect hagain, ih hrest]

/-- Under a name for the same dialect the repair of a text is the same, but for
the name. -/
theorem repair_rename {text : List Char} {done : Repaired}
    (h : reader.repair visit target file text = .ok done) :
    reader.repair (visit.under file) target file' text =
      .ok { done with remaining := done.remaining.map (Finding.rename file') } := by
  obtain ⟨found, hfound, hrepair⟩ := findings_of_repair h
  simp only [Reader.repair, findings_rename hdialect hfound]
  exact repairIn_rename hdialect hrepair

end Rename

/-! ### The files of an analysis -/

theorem FindingMap.mem_keys_insert {file name : String} {found : List Finding}
    {m : FindingMap} :
    name ∈ (m.insert file found).map (·.1) ↔ name = file ∨ name ∈ m.map (·.1) := by
  induction m with
  | nil => simp [insert]
  | cons entry rest ih =>
    obtain ⟨other, old⟩ := entry
    rw [insert]
    split
    · simp
    · split
      · next hsame => simp [hsame]
      · rw [List.map_cons, List.mem_cons, ih, List.map_cons, List.mem_cons]
        exact or_left_comm

theorem FindingMap.keys_insert {file : String} {found : List Finding} {m : FindingMap}
    (h : (m.map (·.1)).Pairwise (· < ·)) :
    ((m.insert file found).map (·.1)).Pairwise (· < ·) := by
  induction m with
  | nil => simp [insert]
  | cons entry rest ih =>
    obtain ⟨other, old⟩ := entry
    rw [List.map_cons] at h
    obtain ⟨hother, hrest⟩ := List.pairwise_cons.1 h
    rw [insert]
    split
    · next hlt =>
      refine List.pairwise_cons.2 ⟨fun name hname => ?_, h⟩
      rcases List.mem_cons.1 hname with rfl | hname
      · exact hlt
      · exact lt_trans hlt (hother name hname)
    · next hnlt =>
      split
      · next hsame =>
        subst hsame
        exact List.pairwise_cons.2 ⟨hother, hrest⟩
      · next hne =>
        have hlt : other < file := lt_of_le_of_ne (not_lt.1 hnlt) (Ne.symm hne)
        refine List.pairwise_cons.2 ⟨fun name hname => ?_, ih hrest⟩
        rcases FindingMap.mem_keys_insert.1 hname with rfl | hname
        · exact hlt
        · exact hother name hname

/-- An analysis lists each file once, in ascending order. -/
theorem keys_checkFiles (fs : FileSystem) (visit : Visit) (target : Target)
    (files : List String) :
    ((checkFiles fs visit target files).findings.map (·.1)).Pairwise (· < ·) := by
  induction files with
  | nil => exact .nil
  | cons file files ih =>
    rw [checkFiles]
    split
    · exact ih
    · exact ih
    · exact FindingMap.keys_insert ih

theorem nodup_checkFiles (fs : FileSystem) (visit : Visit) (target : Target)
    (files : List String) :
    ((checkFiles fs visit target files).findings.map (·.1)).Nodup :=
  (keys_checkFiles fs visit target files).imp ne_of_lt

namespace RepairRun

/-! ### Accounting -/

variable {fs : FileSystem} {visit : Visit} {target : Target} {analysis : Analysis}

/-- A repaired file was read and repaired as it stands. -/
theorem of_repairFile {file : String} {one : FileRepair}
    (h : repairFile fs visit target file = .ok one) :
    one.file = file ∧ ∃ text, fs.readText file = .ok text ∧
      repair target file text visit = .ok one.result ∧
      one.changed = (one.result.output != text) := by
  unfold repairFile at h
  split at h
  · cases h
  · next text htext =>
    split at h
    · cases h
    · next result hresult =>
      obtain rfl := Except.ok.inj h
      exact ⟨rfl, text, htext, hresult, rfl⟩

theorem repairFile_ok {file : String} {text : List Char} {result : Repaired}
    (htext : fs.readText file = .ok text)
    (hresult : repair target file text visit = .ok result) :
    repairFile fs visit target file = .ok ⟨file, result, result.output != text⟩ := by
  rw [repairFile, htext]
  simp only [hresult]

theorem file_of_repairFile_error {file : String} {e : FileError}
    (h : repairFile fs visit target file = .error e) : e.file = file := by
  unfold repairFile at h
  split at h
  · obtain rfl := Except.error.inj h
    rfl
  · split at h
    · obtain rfl := Except.error.inj h
      rfl
    · cases h

theorem mem_repairs {one : FileRepair} :
    one ∈ (repairs fs visit target analysis).1 ↔
      ∃ file ∈ targets analysis, repairFile fs visit target file = .ok one := by
  simp only [repairs, List.mem_filterMap, List.mem_map]
  constructor
  · rintro ⟨_, ⟨file, hfile, rfl⟩, h⟩
    refine ⟨file, hfile, ?_⟩
    split at h
    · next h' => rw [h', Option.some.inj h]
    · cases h
  · rintro ⟨file, hfile, h⟩
    exact ⟨_, ⟨file, hfile, rfl⟩, by rw [h]⟩

/-- Every target comes through or fails, and none does both. -/
theorem perm_repairs :
    ((repairs fs visit target analysis).1.map (·.file) ++
      (repairs fs visit target analysis).2.map (·.file)).Perm
      (targets analysis) := by
  -- each target adds its file to one of the two lists
  unfold repairs
  induction targets analysis with
  | nil => exact .nil
  | cons file files ih =>
    simp only [List.map_cons, List.filterMap_cons]
    rcases h : repairFile fs visit target file with e | one
    · simp only [List.map_cons, file_of_repairFile_error h]
      exact List.perm_middle.trans (ih.cons file)
    · simp only [List.map_cons, (of_repairFile h).1]
      exact ih.cons file

/-- The files with findings are the targets and the files that remain as they
are. -/
theorem perm_targets_untouched (analysis : Analysis) :
    (targets analysis ++ (untouched analysis).map (·.file)).Perm
      (analysis.findings.map (·.1)) := by
  have hparts := (List.filter_append_perm (fun entry : String × List Finding =>
    entry.2.any (·.isFixable)) analysis.findings).map (·.1)
  rw [List.map_append] at hparts
  rw [targets, untouched, List.map_map]
  exact hparts

theorem perm_inOrder (files : List FileRepair) : (inOrder files).Perm files :=
  sortBy_perm _ _

/-- Every file with findings is in the run once: it is repaired, untouched or
failed. -/
theorem perm_files_plan (fs : FileSystem) (visit : Visit) (target : Target)
    (analysis : Analysis) :
    ((plan fs target analysis visit).files.map (·.file) ++
      (plan fs target analysis visit).errors.map (·.file)).Perm
        (analysis.findings.map (·.1)) := by
  have hfiles : (plan fs target analysis visit).files.Perm
      ((repairs fs visit target analysis).1 ++ untouched analysis) := perm_inOrder _
  refine ((hfiles.map _).append_right _).trans ?_
  rw [List.map_append, List.append_assoc]
  refine (List.perm_append_comm.append_left _).trans ?_
  rw [← List.append_assoc]
  exact (perm_repairs.append_right _).trans (perm_targets_untouched analysis)

/-! ### Writing -/

/-- The last of some repairs that is written to the file a path leads to. -/
def lastWrite (fs : FileSystem) (files : List FileRepair) (path : String) :
    Option FileRepair :=
  (files.filter fun one => one.changed && fs.sameFile one.file path).getLast?

/-- What a path holds after some repairs are written. -/
def writtenContent (fs : FileSystem) (files : List FileRepair) (path : String) :
    Option Content :=
  match lastWrite fs files path with
  | some one => some (.text one.result.output)
  | none => fs.content? path

theorem writtenContent_cons (one : FileRepair) (files : List FileRepair) (path : String) :
    writtenContent fs (one :: files) path =
      match lastWrite fs files path with
      | some last => some (.text last.result.output)
      | none => if one.changed && fs.sameFile one.file path then
        some (.text one.result.output)
        else fs.content? path := by
  unfold writtenContent lastWrite
  by_cases h : (one.changed && fs.sameFile one.file path) = true
  · simp only [List.filter_cons, h, if_true, List.getLast?_cons]
    rcases (List.filter _ files).getLast? with - | last <;> rfl
  · simp only [List.filter_cons, h, Bool.false_eq_true, if_false]

/-- Writing repairs to files that are there succeeds. -/
theorem content?_writeBack {files : List FileRepair}
    (hfiles : ∀ one ∈ files, one.changed = true →
      ∃ content, fs.content? one.file = some content) :
    ∃ after, writeBack fs files = (after, files, []) ∧ after.SameTree fs ∧
      ∀ path, after.content? path = writtenContent fs files path := by
  induction files generalizing fs with
  | nil => exact ⟨fs, rfl, .refl fs, fun path => rfl⟩
  | cons one files ih =>
    have hrest := fun f hf => hfiles f (List.mem_cons_of_mem one hf)
    by_cases hchanged : one.changed = true
    · obtain ⟨content, hcontent⟩ := hfiles one List.mem_cons_self hchanged
      obtain ⟨place, -, -, hwrite⟩ :=
        FileSystem.write_of_content hcontent (.text one.result.output)
      -- what is written to is still there for the files that follow
      generalize
        { fs with root := fs.root.put place (.file (.text one.result.output)) } = next
        at hwrite
      have htree := FileSystem.sameTree_write hcontent hwrite
      have hnext : ∀ f ∈ files, f.changed = true →
          ∃ c, next.content? f.file = some c := by
        intro f hf hf'
        obtain ⟨c, hc⟩ := hrest f hf hf'
        exact htree.symm.content?_isSome hc
      obtain ⟨after, hafter, hsame, hheld⟩ := ih hnext
      refine ⟨after, ?_, hsame.trans htree, fun path => ?_⟩
      · simp only [writeBack, hchanged, if_true, hwrite, hafter]
      -- writing keeps the tree, so which paths lead to one file does not change
      · have hlast : lastWrite next files path = lastWrite fs files path := by
          simp only [lastWrite, htree.sameFile]
        rw [hheld, writtenContent_cons, writtenContent, hlast,
          FileSystem.content?_write hcontent hwrite, hchanged, Bool.true_and]
    · obtain ⟨after, hafter, hsame, hheld⟩ := ih hrest
      refine ⟨after, ?_, hsame, fun path => ?_⟩
      · simp only [writeBack, hchanged, hafter, Bool.false_eq_true, if_false]
      · rw [hheld, writtenContent_cons, writtenContent, Bool.eq_false_iff.2 hchanged]
        rfl

/-! ### Runs -/

/-- A file that is repaired was there. -/
theorem content?_of_mem_repairs {one : FileRepair}
    (h : one ∈ (repairs fs visit target analysis).1) :
    ∃ text, fs.content? one.file = some (.text text) ∧
      repair target one.file text visit = .ok one.result ∧ one.changed =
        (one.result.output != text) := by
  obtain ⟨file, -, hone⟩ := mem_repairs.1 h
  obtain ⟨rfl, text, htext, hresult, hchanged⟩ := of_repairFile hone
  exact ⟨text, FileSystem.readText_eq_ok_iff.1 htext, hresult, hchanged⟩

/-- Of the files of a run only repaired ones have a new text. -/
theorem mem_files_plan {one : FileRepair} (hchanged : one.changed = true) :
    one ∈ (plan fs target analysis visit).files ↔
      one ∈ (repairs fs visit target analysis).1 := by
  have hfiles : (plan fs target analysis visit).files.Perm
      ((repairs fs visit target analysis).1 ++ untouched analysis) := perm_inOrder _
  rw [hfiles.mem_iff, List.mem_append, or_iff_left]
  intro huntouched
  obtain ⟨_, -, rfl⟩ := List.mem_map.1 huntouched
  cases hchanged

/-- A run that writes reports what one without writing does, and leaves what was
written last. -/
theorem carryOut_eq (fs : FileSystem) (visit : Visit) (target : Target)
    (analysis : Analysis) :
    ∃ left, carryOut fs target analysis visit =
      (left, plan fs target analysis visit) ∧ left.SameTree fs ∧
      ∀ path, left.content? path =
        writtenContent fs (repairs fs visit target analysis).1 path := by
  have hthere : ∀ one ∈ (repairs fs visit target analysis).1, one.changed = true →
      ∃ content, fs.content? one.file = some content := by
    intro one hone _
    obtain ⟨text, htext, -⟩ := content?_of_mem_repairs hone
    exact ⟨_, htext⟩
  obtain ⟨left, hwrite, htree, hheld⟩ := content?_writeBack hthere
  refine ⟨left, ?_, htree, hheld⟩
  simp only [carryOut, plan, hwrite, List.append_nil]

/-- What a path holds if nothing is written to its file. -/
theorem writtenContent_of_none {files : List FileRepair} {path : String}
    (h : ∀ one ∈ files, one.changed = true → fs.sameFile one.file path = false) :
    writtenContent fs files path = fs.content? path := by
  have hnone :
      (files.filter fun one => one.changed && fs.sameFile one.file path) = [] := by
    refine List.filter_eq_nil_iff.2 fun one hone hwritten => ?_
    rw [Bool.and_eq_true] at hwritten
    rw [h one hone hwritten.1] at hwritten
    cases hwritten.2
  rw [writtenContent, lastWrite, hnone]
  rfl

/-- A target whose text stays settled holds its repaired text, if its file is
repaired under names for one dialect. -/
theorem writtenContent_of_target {path : String} {text : List Char} {again : Visit}
    {done : Repaired} (hpath : path ∈ targets analysis)
    (htext : fs.readText path = .ok text)
    (hsettled : Reader.script.StaysSettled target path maxPasses text)
    (hdone : repair target path text again = .ok done)
    (hdialect : ∀ one ∈ (repairs fs visit target analysis).1, one.changed = true →
      fs.sameFile one.file path = true → dialectOf one.file = dialectOf path) :
    writtenContent fs (repairs fs visit target analysis).1 path =
      some (.text done.output) := by
  have hcontent := FileSystem.readText_eq_ok_iff.1 htext
  have hself := FileSystem.sameFile_self_of_content hcontent
  have hmem : ⟨path, done, done.output != text⟩ ∈
      (repairs fs visit target analysis).1 := by
    refine mem_repairs.2 ⟨path, hpath, repairFile_ok htext ?_⟩
    exact (hsettled.repair_eq visit again).trans hdone
  rcases hlast : lastWrite fs (repairs fs visit target analysis).1 path with - | one
  · -- nothing is written, not even the repaired text: it is the text that was there
    simp only [writtenContent, hlast]
    rw [lastWrite, List.getLast?_eq_none_iff, List.filter_eq_nil_iff] at hlast
    have hsame : done.output = text := by simpa [hself] using hlast _ hmem
    rw [hsame]
    exact hcontent
  · -- the last repair that is written has the same text before it, and so the same output
    simp only [writtenContent, hlast]
    obtain ⟨hone, hwritten⟩ := List.mem_filter.1 (List.mem_of_getLast? hlast)
    rw [Bool.and_eq_true] at hwritten
    obtain ⟨text', htext', hresult, -⟩ := content?_of_mem_repairs hone
    rw [FileSystem.content?_of_sameFile hwritten.2, hcontent] at htext'
    obtain rfl := Content.text.inj (Option.some.inj htext')
    have hrenamed := repair_rename (hdialect one hone hwritten.1 hwritten.2) hresult
    rw [hsettled.repair_eq _ again,
      show Reader.script.repair again target path text = _ from hdone]
      at hrenamed
    rw [Except.ok.inj hrenamed]

/-- Where the texts of the targets stay settled, the repairs do not depend on
the order in which comments are met. -/
theorem repairs_visit
    (hsettled : ∀ path ∈ targets analysis, ∀ text, fs.readText path = .ok text →
      Reader.script.StaysSettled target path maxPasses text) (visit visit' : Visit) :
    repairs fs visit target analysis = repairs fs visit' target analysis := by
  have hfiles : (targets analysis).map (repairFile fs visit target) =
      (targets analysis).map (repairFile fs visit' target) := by
    refine List.map_congr_left fun path hpath => ?_
    rw [repairFile, repairFile]
    rcases htext : fs.readText path with e | text
    · rfl
    · simp only [repair, (hsettled path hpath text htext).repair_eq visit visit']
  rw [repairs, repairs, hfiles]

theorem plan_congr {visit' : Visit}
    (h : repairs fs visit target analysis = repairs fs visit' target analysis) :
    plan fs target analysis visit = plan fs target analysis visit' := by
  rw [plan, plan, h]

/-- **Accounting and frame of a run**, for any project, any files at the time of
the analysis and any files at the time of the run, in whatever orders the
analysis, the run without writing and the run with it meet the comments.  A run
without writing leaves all files, and reports what one that writes does if the
texts of the targets stay settled.  Every file with findings is in the run once.
A run that writes keeps the tree; a target whose text stays settled and could be
repaired holds its repaired text, if its file is written to under names for one
dialect; and a path keeps what it holds unless a file with a new text leads to
the same place. -/
theorem perform_frame (project : Project) (analyzed fs : FileSystem)
    (look dry real : Visit) :
    let target := project.settings.target
    let analysis := project.analyze analyzed look
    let left := (perform true fs target analysis real).1
    let run := (perform true fs target analysis real).2
    ((perform false fs target analysis dry).1 = fs ∧
      ((∀ path ∈ targets analysis, ∀ text, fs.readText path = .ok text →
          Reader.script.StaysSettled target path maxPasses text) →
        (perform false fs target analysis dry).2 = run)) ∧
      ((run.files.map (·.file) ++ run.errors.map (·.file)).Perm
        (analysis.findings.map (·.1)) ∧
        (analysis.findings.map (·.1)).Nodup) ∧
      left.SameTree fs ∧
      (∀ path ∈ targets analysis, ∀ text, fs.readText path = .ok text →
        Reader.script.StaysSettled target path maxPasses text →
        ∀ again done, repair target path text again = .ok done →
        (∀ one ∈ run.files, one.changed = true → fs.sameFile one.file path = true →
          dialectOf one.file = dialectOf path) →
        left.readText path = .ok done.output) ∧
      ∀ path, (∀ one ∈ run.files, one.changed = true →
        fs.sameFile one.file path = false) →
        left.content? path = fs.content? path := by
  intro target analysis
  obtain ⟨left, hrun, htree, hheld⟩ := carryOut_eq fs real target analysis
  have hperform : perform true fs target analysis real =
      (left, plan fs target analysis real) := hrun
  rw [hperform]
  refine ⟨⟨rfl, fun hsettled => ?_⟩,
    ⟨perm_files_plan fs real target analysis, nodup_checkFiles _ _ _ _⟩, htree, ?_, ?_⟩
  · exact plan_congr (repairs_visit hsettled dry real)
  · intro path hpath text htext hsettled again done hdone hdialect
    rw [FileSystem.readText_eq_ok_iff, hheld]
    refine writtenContent_of_target hpath htext hsettled hdone fun one hone hchanged => ?_
    exact hdialect one ((mem_files_plan hchanged).2 hone) hchanged
  · intro path hpath
    rw [hheld]
    refine writtenContent_of_none fun one hone hchanged => ?_
    exact hpath one ((mem_files_plan hchanged).2 hone) hchanged

/-- Two files, one of which has a finding that no edit mends. -/
def apart : FileSystem where
  root := .directory [
    ("a.js", .file (.text "f(//\n\x7b\x7d)".toList)),
    ("b.js", .file (.text "f(\n\x7b\x7d)".toList))]
  current := []

/-- The same names later, when the second is a link to the first, which has
another text. -/
def linked : FileSystem where
  root := .directory [("a.js", .file (.text "f(\n\x7b\x7d)".toList)),
    ("b.js", .link "a.js")]
  current := []

/-- A project of the two files. -/
def twoFiles : Project where
  root := "."
  settings := { Settings.default with keywords := ["f"], excludes := [] }
  fromFile := false
  files := ["a.js", "b.js"]
  verbose := false

theorem target_twoFiles : twoFiles.settings.target = ⟨["f"], []⟩ := rfl

/-- What a check of the two files finds. -/
def apartFindings : FindingMap :=
  [("a.js", [⟨"a.js", 1, 1, 2, .leading, ['f'], "f(//".toList, "//\n".toList, none⟩]),
    ("b.js", [⟨"b.js", 1, 1, 2, .leading, ['f'], "f(".toList, "\n".toList,
      some ⟨⟨2, 3⟩, []⟩⟩])]

theorem analyze_apart : twoFiles.analyze apart = ⟨apartFindings, []⟩ := by
  have hfirst : checkFile apart .inText ⟨["f"], []⟩ "a.js" =
      .ok [⟨"a.js", 1, 1, 2, .leading, ['f'], "f(//".toList, "//\n".toList, none⟩] := by
    decide +kernel
  have hsecond : checkFile apart .inText ⟨["f"], []⟩ "b.js" =
      .ok [⟨"b.js", 1, 1, 2, .leading, ['f'], "f(".toList, "\n".toList,
        some ⟨⟨2, 3⟩, []⟩⟩] := by
    decide +kernel
  have horder : "a.js" < "b.js" := by decide
  rw [Project.analyze, target_twoFiles]
  simp only [twoFiles, checkFiles, hfirst, hsecond, FindingMap.insert, horder,
    if_true, apartFindings]

theorem repairs_linked :
    repairs linked .inText ⟨["f"], []⟩ ⟨apartFindings, []⟩ =
      ([⟨"b.js", ⟨"f(\x7b\x7d)".toList, 1, 1, []⟩, true⟩], []) := by
  decide +kernel

/-- Where the second of two files has been replaced by a link to the first,
writing to it changes the first, which the run lists as unchanged. -/
theorem perform_writes_through_link :
    ¬ ∀ (project : Project) (analyzed fs : FileSystem),
      ∀ one ∈ (perform true fs project.settings.target
        (project.analyze analyzed)).2.files,
        one.changed = false →
          (perform true fs project.settings.target
            (project.analyze analyzed)).1.content? one.file =
            fs.content? one.file := by
  intro h
  have hrun := h twoFiles apart linked
  obtain ⟨left, hleft, -, hheld⟩ :=
    carryOut_eq linked .inText ⟨["f"], []⟩ ⟨apartFindings, []⟩
  rw [analyze_apart, target_twoFiles, perform, if_pos rfl, hleft] at hrun
  have hlisted : ⟨"a.js", ⟨[], 0, 0, [⟨"a.js", 1, 1, 2, .leading, ['f'], "f(//".toList,
      "//\n".toList, none⟩]⟩,
      false⟩ ∈ (plan linked ⟨["f"], []⟩ ⟨apartFindings, []⟩).files := by
    simp only [plan, repairs_linked]
    decide +kernel
  have hkept := hrun _ hlisted rfl
  rw [hheld, repairs_linked] at hkept
  revert hkept
  decide +kernel

end RepairRun

end AnimLint
