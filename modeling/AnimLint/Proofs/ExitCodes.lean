/-
AnimLint/Proofs/ExitCodes.lean

A check after a repair ends with the code of the repair.  The two come to their
codes by different ways: the repair counts what is left in the files it has
rewritten, what it has not touched and what has failed, and the check reads
everything again.  File by file they agree: a file that came through has the
findings that were left (`checkFile_of_target`), and every other file is as it
was (`checkFile_of_not_comesThrough`), also where several of the paths lead to
one file.  The settings are as they were, since nothing is repaired in them
(`loadSettings_left`), and so are the files that the survey finds
(`SameTree.survey`).

The repair looks at the files twice and the check once more, each time in an
order of its own over the comments.  So the two agree where the scripts stay
settled (`ScriptsSettled`), and there all of it may be done in the order of the
text (`checkFiles_visit`, `RepairRun.repairs_visit`).

Main statement: `runCheck_runFix`.
-/
import AnimLint.Command
import AnimLint.Proofs.PlainData
import AnimLint.Proofs.Runs
import AnimLint.Proofs.Surveys
import AnimLint.Proofs.Walks

namespace AnimLint

open Files Script

/-! ### Texts in the same tree -/

/-- Where a path holds the same in two file systems with one tree, it reads the
same. -/
theorem Files.FileSystem.SameTree.readText {fs fs' : FileSystem} (h : fs.SameTree fs')
    {path : String} (hcontent : fs.content? path = fs'.content? path) :
    fs.readText path = fs'.readText path := by
  have hnode : (fs.node path).map Node.hollow = (fs'.node path).map Node.hollow := by
    rw [← FileSystem.node_hollow, ← FileSystem.node_hollow, h]
  unfold FileSystem.content? at hcontent
  unfold FileSystem.readText
  generalize fs.node path = here at hnode hcontent
  generalize fs'.node path = there at hnode hcontent
  -- the two have one shape, and files have one content
  rcases here with e | ⟨content | entries | target⟩ <;>
    rcases there with e' | ⟨content' | entries' | target'⟩ <;>
    simp_all [Except.map, Node.hollow]

/-! ### What an analysis lists -/

section Analysis

variable {fs fs' : FileSystem} {visit : Visit} {target : Target} {file : String}
  {files : List String} {found : List Finding}

theorem checkFile_eq_ok_iff :
    checkFile fs visit target file = .ok found ↔
      ∃ text, fs.readText file = .ok text ∧ findings target file text visit =
        .ok found := by
  unfold checkFile
  rcases fs.readText file with e | text
  · simp
  · simp only [Except.ok.injEq, exists_eq_left']
    rcases findings target file text visit with e | found' <;> simp

theorem checkFile_congr (h : fs.readText file = fs'.readText file) :
    checkFile fs visit target file = checkFile fs' visit target file := by
  rw [checkFile, checkFile, h]

/-- A settled file has the same findings in whatever order its comments are
met. -/
theorem checkFile_visit
    (h : ∀ text, fs.readText file = .ok text → Reader.script.Settled target file text)
    (visit visit' : Visit) :
    checkFile fs visit target file = checkFile fs visit' target file := by
  rw [checkFile, checkFile]
  rcases htext : fs.readText file with e | text
  · rfl
  · simp only [findings, findings_visit (h text htext) visit visit']

theorem checkFiles_visit (h : ∀ file ∈ files, ∀ text, fs.readText file = .ok text →
      Reader.script.Settled target file text) (visit visit' : Visit) :
    checkFiles fs visit target files = checkFiles fs visit' target files := by
  induction files with
  | nil => rfl
  | cons file files ih =>
    rw [checkFiles, checkFiles, checkFile_visit (h file List.mem_cons_self) visit visit',
      ih fun other hother => h other (List.mem_cons_of_mem file hother)]

theorem FindingMap.mem_of_mem_insert {entry : String × List Finding} {m : FindingMap}
    (h : entry ∈ m.insert file found) : entry = (file, found) ∨ entry ∈ m := by
  induction m with
  | nil => exact .inl (List.mem_singleton.1 h)
  | cons first rest ih =>
    obtain ⟨name, old⟩ := first
    rw [insert] at h
    split at h
    · exact List.mem_cons.1 h
    · split at h
      · exact (List.mem_cons.1 h).imp_right (List.mem_cons_of_mem _)
      · rcases List.mem_cons.1 h with rfl | h
        · exact .inr List.mem_cons_self
        · exact (ih h).imp_right (List.mem_cons_of_mem _)

/-- What an analysis lists was found in its files. -/
theorem of_mem_findings
    (h : (file, found) ∈ (checkFiles fs visit target files).findings) :
    file ∈ files ∧ checkFile fs visit target file = .ok found ∧ found ≠ [] := by
  induction files with
  | nil => cases h
  | cons first files ih =>
    have hlater (h : (file, found) ∈ (checkFiles fs visit target files).findings) :=
      (ih h).imp_left (List.mem_cons_of_mem first)
    rw [checkFiles] at h
    split at h
    · exact hlater h
    · exact hlater h
    · next found' hsome hcheck =>
      rcases FindingMap.mem_of_mem_insert h with heq | h
      · obtain ⟨rfl, rfl⟩ := Prod.mk.inj heq
        exact ⟨List.mem_cons_self, hcheck, fun hnil => hsome hnil⟩
      · exact hlater h

theorem mem_keys_checkFiles (hfile : file ∈ files)
    (hcheck : checkFile fs visit target file = .ok found) (hne : found ≠ []) :
    file ∈ (checkFiles fs visit target files).findings.map (·.1) := by
  induction files with
  | nil => cases hfile
  | cons first files ih =>
    rw [checkFiles]
    rcases List.mem_cons.1 hfile with rfl | hfile
    · split
      · next hcheck' =>
        rw [hcheck] at hcheck'
        cases hcheck'
      · next hcheck' => exact absurd (Except.ok.inj (hcheck.symm.trans hcheck')) hne
      · exact FindingMap.mem_keys_insert.2 (.inl rfl)
    · split
      · exact ih hfile
      · exact ih hfile
      · exact FindingMap.mem_keys_insert.2 (.inr (ih hfile))

/-- An analysis lists the files that have findings. -/
theorem mem_findings_checkFiles :
    (file, found) ∈ (checkFiles fs visit target files).findings ↔
      file ∈ files ∧ checkFile fs visit target file = .ok found ∧ found ≠ [] := by
  refine ⟨of_mem_findings, fun ⟨hfile, hcheck, hne⟩ => ?_⟩
  obtain ⟨⟨file', found'⟩, hmem, rfl⟩ :=
    List.mem_map.1 (mem_keys_checkFiles hfile hcheck hne)
  obtain ⟨-, hcheck', -⟩ := of_mem_findings hmem
  obtain rfl := Except.ok.inj (hcheck.symm.trans hcheck')
  exact hmem

theorem findings_checkFiles_eq_nil_iff :
    (checkFiles fs visit target files).findings.findings = [] ↔
      ∀ file ∈ files, ∀ found, checkFile fs visit target file = .ok found →
        found = [] := by
  -- the list is sorted, which matters not for whether it is empty
  have hperm : (checkFiles fs visit target files).findings.findings.Perm
      ((checkFiles fs visit target files).findings.flatMap (·.2)) := sortBy_perm _ _
  rw [← List.length_eq_zero_iff, hperm.length_eq, List.length_eq_zero_iff,
    List.flatMap_eq_nil_iff]
  constructor
  · intro h file hfile found hcheck
    by_contra hne
    exact hne (h _ (mem_findings_checkFiles.2 ⟨hfile, hcheck, hne⟩))
  · rintro h ⟨file, found⟩ hmem
    obtain ⟨hfile, hcheck, hne⟩ := mem_findings_checkFiles.1 hmem
    exact h file hfile found hcheck

/-- Two checks that fail on the same files for the same reasons list the same
errors. -/
theorem fileErrors_checkFiles_congr
    (h : ∀ file ∈ files, ∀ e,
      checkFile fs visit target file = .error e ↔
        checkFile fs' visit target file = .error e) :
    (checkFiles fs visit target files).fileErrors =
      (checkFiles fs' visit target files).fileErrors := by
  induction files with
  | nil => rfl
  | cons file files ih =>
    have hrest := ih fun other hother => h other (List.mem_cons_of_mem file hother)
    have hfile := h file List.mem_cons_self
    rw [checkFiles, checkFiles]
    rcases hcheck : checkFile fs visit target file with e | found
    · rw [(hfile e).1 hcheck, hrest]
    · rcases hcheck' : checkFile fs' visit target file with e | found'
      · rw [(hfile e).2 hcheck'] at hcheck
        cases hcheck
      · cases found <;> cases found' <;> exact hrest

theorem mem_targets_checkFiles :
    file ∈ RepairRun.targets (checkFiles fs visit target files) ↔
      file ∈ files ∧ ∃ found, checkFile fs visit target file = .ok found ∧
        found.any (·.isFixable) = true := by
  rw [RepairRun.targets, List.mem_map]
  constructor
  · rintro ⟨⟨file, found⟩, hmem, rfl⟩
    obtain ⟨hmem, hfixable⟩ := List.mem_filter.1 hmem
    obtain ⟨hfile, hcheck, -⟩ := mem_findings_checkFiles.1 hmem
    exact ⟨hfile, found, hcheck, hfixable⟩
  · rintro ⟨hfile, found, hcheck, hfixable⟩
    have hne : found ≠ [] := by
      rintro rfl
      cases hfixable
    exact ⟨(file, found),
      List.mem_filter.2 ⟨mem_findings_checkFiles.2 ⟨hfile, hcheck, hne⟩, hfixable⟩, rfl⟩

end Analysis

/-! ### What a run leaves in each file -/

namespace RepairRun

section Plan

variable {fs : FileSystem} {visit : Visit} {target : Target} {analysis : Analysis}

theorem mem_untouched {one : FileRepair} :
    one ∈ untouched analysis ↔
      ∃ file found, (file, found) ∈ analysis.findings ∧ found.any (·.isFixable) = false ∧
        one = ⟨file, ⟨[], 0, 0, found⟩, false⟩ := by
  rw [untouched, List.mem_map]
  constructor
  · rintro ⟨⟨file, found⟩, hmem, rfl⟩
    obtain ⟨hmem, hfixable⟩ := List.mem_filter.1 hmem
    exact ⟨file, found, hmem, by simpa using hfixable, rfl⟩
  · rintro ⟨file, found, hmem, hfixable, rfl⟩
    exact ⟨(file, found), List.mem_filter.2 ⟨hmem, by simpa using hfixable⟩, rfl⟩

theorem remaining_plan_eq_nil_iff :
    (plan fs target analysis visit).remaining = [] ↔
      (∀ one ∈ (repairs fs visit target analysis).1, one.result.remaining = []) ∧
        ∀ one ∈ untouched analysis, one.result.remaining = [] := by
  have hfiles : (plan fs target analysis visit).files.Perm
      ((repairs fs visit target analysis).1 ++ untouched analysis) := perm_inOrder _
  rw [remaining, List.flatMap_eq_nil_iff]
  simp only [hfiles.mem_iff, List.mem_append, or_imp, forall_and]

theorem errors_plan_eq_nil_iff :
    (plan fs target analysis visit).errors = [] ↔
      ∀ file ∈ targets analysis, ∃ one, repairFile fs visit target file = .ok one := by
  show (repairs fs visit target analysis).2 = [] ↔ _
  rw [repairs, List.filterMap_eq_nil_iff, List.forall_mem_map]
  refine forall₂_congr fun file _ => ?_
  rcases repairFile fs visit target file with e | one <;> simp

end Plan

section Leaves

/-- Holds if a run over some files, all of whose texts stay settled, leaves a
file system: the tree is as it was, and the rewritten files hold what is written
to them. -/
structure Leaves (fs : FileSystem) (target : Target) (files : List String)
    (left : FileSystem) :
    Prop where
  settled : ∀ file ∈ files, ∀ text, fs.readText file = .ok text →
    Reader.script.StaysSettled target file maxPasses text
  tree : left.SameTree fs
  held : ∀ path, left.content? path =
    writtenContent fs
      (repairs fs .inText target (checkFiles fs .inText target files)).1 path

/-- Holds for the files that a run rewrites: those with a finding to mend whose
repair comes through. -/
def ComesThrough (fs : FileSystem) (target : Target) (files : List String)
    (file : String) : Prop :=
  file ∈ targets (checkFiles fs .inText target files) ∧
  ∃ one, repairFile fs .inText target file = .ok one

variable {fs left : FileSystem} {target : Target} {files : List String} {file : String}

theorem mem_files_of_target
    (h : file ∈ targets (checkFiles fs .inText target files)) : file ∈ files :=
  (mem_targets_checkFiles.1 h).1

/-- In whatever order comments are met, a run over texts that stay settled
leaves what it would leave if they were met in the order of the text. -/
theorem exists_leaves (hsettled : ∀ file ∈ files, ∀ text, fs.readText file = .ok text →
      Reader.script.StaysSettled target file maxPasses text) (visit : Visit) :
    ∃ left, carryOut fs target (checkFiles fs .inText target files) visit =
      (left, plan fs target (checkFiles fs .inText target files)) ∧
      Leaves fs target files left := by
  have hrepairs : repairs fs visit target (checkFiles fs .inText target files) =
      repairs fs .inText target (checkFiles fs .inText target files) :=
    repairs_visit (fun file hfile => hsettled file (mem_files_of_target hfile))
      visit .inText
  obtain ⟨left, hrun, htree, hheld⟩ :=
    carryOut_eq fs visit target (checkFiles fs .inText target files)
  rw [hrepairs] at hheld
  exact ⟨left, hrun.trans (by rw [plan_congr hrepairs]), hsettled, htree, hheld⟩

/-- A file that comes through does so under each of its names. -/
theorem comesThrough_of_sameFile (hnames : ∀ file ∈ files, fs.HasOwnName file)
    {one : FileRepair}
    (hone : one ∈
      (repairs fs .inText target (checkFiles fs .inText target files)).1)
      (hfile : file ∈ files)
    (hsame : fs.sameFile one.file file = true) : ComesThrough fs target files file := by
  obtain ⟨other, hother, hrepair⟩ := mem_repairs.1 hone
  obtain ⟨rfl, text, htext, hresult, -⟩ := of_repairFile hrepair
  obtain ⟨hlisted, found, hcheck, hfixable⟩ := mem_targets_checkFiles.1 hother
  obtain ⟨text', htext', hfound⟩ := checkFile_eq_ok_iff.1 hcheck
  obtain rfl := Except.ok.inj (htext.symm.trans htext')
  -- both names have one ending, so the text is read as one dialect under both
  have hdialect := (hnames _ hlisted).dialectOf_eq (hnames _ hfile) hsame
  have hread : fs.readText file = .ok text := by
    rw [FileSystem.readText_eq_ok_iff, ← FileSystem.content?_of_sameFile hsame]
    exact FileSystem.readText_eq_ok_iff.1 htext
  have hresult' := repair_rename hdialect hresult
  have hfound' := findings_rename hdialect hfound
  rw [Visit.under_inText] at hresult' hfound'
  refine ⟨mem_targets_checkFiles.2 ⟨hfile, found.map (Finding.rename file), ?_, ?_⟩, _,
    repairFile_ok hread hresult'⟩
  · exact checkFile_eq_ok_iff.2 ⟨text, hread, hfound'⟩
  · rw [List.any_map]
    exact hfixable

variable (hnames : ∀ file ∈ files, fs.HasOwnName file)
  (hleaves : Leaves fs target files left)

include hnames hleaves

/-- A target that came through holds its repaired text. -/
theorem readText_of_target {one : FileRepair}
    (hfile : file ∈ targets (checkFiles fs .inText target files))
    (hone : repairFile fs .inText target file = .ok one) :
    left.readText file = .ok one.result.output := by
  obtain ⟨-, text, htext, hresult, -⟩ := of_repairFile hone
  have hsettled := hleaves.settled file (mem_files_of_target hfile) text htext
  rw [FileSystem.readText_eq_ok_iff, hleaves.held]
  refine writtenContent_of_target hfile htext hsettled hresult
    fun other hother _ hsame => ?_
  obtain ⟨file', hfile', hrepair⟩ := mem_repairs.1 hother
  obtain ⟨rfl, -⟩ := of_repairFile hrepair
  exact (hnames _ (mem_files_of_target hfile')).dialectOf_eq
    (hnames _ (mem_files_of_target hfile)) hsame

/-- A target that came through has the findings that were left. -/
theorem checkFile_of_target {one : FileRepair}
    (hfile : file ∈ targets (checkFiles fs .inText target files))
    (hone : repairFile fs .inText target file = .ok one) :
    checkFile left .inText target file = .ok one.result.remaining := by
  obtain ⟨-, text, htext, hresult, -⟩ := of_repairFile hone
  obtain ⟨found, hfound, hrepair⟩ := findings_of_repair hresult
  exact checkFile_eq_ok_iff.2 ⟨_, readText_of_target hnames hleaves hfile hone,
    (settles_repairIn hfound hrepair).2.1⟩

/-- Every other file is as it was. -/
theorem readText_of_not_comesThrough (hfile : file ∈ files)
    (h : ¬ ComesThrough fs target files file) :
    left.readText file = fs.readText file := by
  have hcontent :
      writtenContent fs
        (repairs fs .inText target (checkFiles fs .inText target files)).1 file =
      fs.content? file := by
    refine writtenContent_of_none fun one hone _ => Bool.eq_false_iff.2 fun hsame => h ?_
    exact comesThrough_of_sameFile hnames hone hfile hsame
  rw [← hleaves.held] at hcontent
  exact hleaves.tree.readText hcontent

theorem checkFile_of_not_comesThrough (hfile : file ∈ files)
    (h : ¬ ComesThrough fs target files file) :
    checkFile left .inText target file = checkFile fs .inText target file :=
  checkFile_congr (readText_of_not_comesThrough hnames hleaves hfile h)

/-- What a run leaves is settled. -/
theorem settled_left {text : List Char} (hfile : file ∈ files)
    (htext : left.readText file = .ok text) :
    Reader.script.Settled target file text := by
  by_cases h : ComesThrough fs target files file
  · obtain ⟨htarget, one, hone⟩ := h
    obtain ⟨-, before, hbefore, hresult, -⟩ := of_repairFile hone
    rw [readText_of_target hnames hleaves htarget hone] at htext
    obtain rfl := Except.ok.inj htext
    exact (hleaves.settled file hfile before hbefore).settled_output hresult
  · rw [readText_of_not_comesThrough hnames hleaves hfile h] at htext
    exact (hleaves.settled file hfile text htext).settled

/-- The files that cannot be checked are the same before and after. -/
theorem fileErrors_left :
    (checkFiles left .inText target files).fileErrors =
      (checkFiles fs .inText target files).fileErrors := by
  refine fileErrors_checkFiles_congr fun file hfile e => ?_
  by_cases h : ComesThrough fs target files file
  · -- such a file can be checked before and after
    obtain ⟨htarget, one, hone⟩ := h
    obtain ⟨-, found, hcheck, -⟩ := mem_targets_checkFiles.1 htarget
    rw [checkFile_of_target hnames hleaves htarget hone, hcheck]
    exact iff_of_false (fun h => by cases h) fun h => by cases h
  · rw [checkFile_of_not_comesThrough hnames hleaves hfile h]

/-- A file without a finding that an edit mends is as it was. -/
theorem checkFile_of_unfixable {found : List Finding} (hfile : file ∈ files)
    (hcheck : checkFile fs .inText target file = .ok found)
    (hfixable : found.any (·.isFixable) = false) :
    checkFile left .inText target file = .ok found := by
  rw [← hcheck]
  apply checkFile_of_not_comesThrough hnames hleaves hfile
  rintro ⟨htarget, -⟩
  obtain ⟨-, found', hcheck', hfixable'⟩ := mem_targets_checkFiles.1 htarget
  obtain rfl := Except.ok.inj (hcheck.symm.trans hcheck')
  rw [hfixable] at hfixable'
  cases hfixable'

/-- A run leaves nothing and fails nowhere just where a check of what it leaves
finds nothing. -/
theorem nothing_left_iff :
    ((plan fs target (checkFiles fs .inText target files)).remaining = [] ∧
      (plan fs target (checkFiles fs .inText target files)).errors = []) ↔
      (checkFiles left .inText target files).findings.findings = [] := by
  rw [remaining_plan_eq_nil_iff, errors_plan_eq_nil_iff, findings_checkFiles_eq_nil_iff]
  constructor
  · rintro ⟨⟨hdone, huntouched⟩, herrors⟩ file hfile after hafter
    by_cases h : file ∈ targets (checkFiles fs .inText target files)
    · obtain ⟨one, hone⟩ := herrors file h
      rw [checkFile_of_target hnames hleaves h hone] at hafter
      obtain rfl := Except.ok.inj hafter
      exact hdone one (mem_repairs.2 ⟨file, h, hone⟩)
    · -- the file is as it was, and would be listed as untouched
      rw [checkFile_of_not_comesThrough hnames hleaves hfile fun h' => h h'.1] at hafter
      by_contra hne
      have hfixable : after.any (·.isFixable) = false :=
        Bool.eq_false_iff.2 fun hfixable =>
          h (mem_targets_checkFiles.2 ⟨hfile, after, hafter, hfixable⟩)
      exact hne (huntouched _ (mem_untouched.2
        ⟨file, after, mem_findings_checkFiles.2 ⟨hfile, hafter, hne⟩, hfixable, rfl⟩))
  · intro hclean
    refine ⟨⟨fun one hone => ?_, fun one hone => ?_⟩, fun file htarget => ?_⟩
    · obtain ⟨file, htarget, hrepair⟩ := mem_repairs.1 hone
      exact hclean file (mem_files_of_target htarget) _
        (checkFile_of_target hnames hleaves htarget hrepair)
    · obtain ⟨file, found, hmem, hfixable, rfl⟩ := mem_untouched.1 hone
      obtain ⟨hfile, hcheck, -⟩ := mem_findings_checkFiles.1 hmem
      exact hclean file hfile
        _ (checkFile_of_unfixable hnames hleaves hfile hcheck hfixable)
    · -- a target that fails would keep the finding that made it a target
      by_contra hfailed
      obtain ⟨hfile, found, hcheck, hfixable⟩ := mem_targets_checkFiles.1 htarget
      have hkept :=
        checkFile_of_not_comesThrough hnames hleaves hfile fun h => hfailed h.2
      obtain rfl := hclean file hfile found (hkept.trans hcheck)
      cases hfixable

end Leaves

end RepairRun

/-! ### Settings -/

section Settings

variable {fs left : FileSystem} {target : Target} {files : List String}

theorem of_readSettings {path : String} {settings : Settings}
    (h : readSettings fs path = .ok settings) :
    ∃ text, fs.readText path = .ok text ∧ Settings.read text = .ok settings := by
  unfold readSettings at h
  split at h
  · cases h
  · next text htext =>
    split at h
    · cases h
    · next settings' hsettings =>
      split at h
      · cases h
      · obtain rfl := Except.ok.inj h
        exact ⟨text, htext, hsettings⟩

/-- No repaired file is the one that settings were read from, under whatever
name. -/
theorem RepairRun.sameFile_settings {path : String} {settings : Settings}
    {one : FileRepair} (h : readSettings fs path = .ok settings)
    (hone : one ∈ (repairs fs .inText target (checkFiles fs .inText target files)).1) :
    fs.sameFile one.file path = false := by
  refine Bool.eq_false_iff.2 fun hsame => ?_
  obtain ⟨text, htext, hsettings⟩ := of_readSettings h
  obtain ⟨file, htarget, hrepair⟩ := mem_repairs.1 hone
  obtain ⟨rfl, -⟩ := of_repairFile hrepair
  obtain ⟨-, found, hcheck, hfixable⟩ := mem_targets_checkFiles.1 htarget
  obtain ⟨text', htext', hfound⟩ := checkFile_eq_ok_iff.1 hcheck
  rw [FileSystem.readText_eq_ok_iff] at htext htext'
  rw [FileSystem.content?_of_sameFile hsame, htext] at htext'
  obtain rfl := Content.text.inj (Option.some.inj htext')
  -- what can be read as settings has no calls
  obtain rfl := findings_of_settings hsettings hfound
  cases hfixable

/-- The settings of a project are after a run what they were before. -/
theorem loadSettings_left {directory : String} {loaded : Loaded}
    (hleaves : RepairRun.Leaves fs target files left)
    (h : loadSettings fs directory = .ok loaded) :
    loadSettings left directory = .ok loaded := by
  rw [loadSettings, hleaves.tree.findSettings]
  rw [loadSettings] at h
  rcases hfind : findSettings fs directory with - | path
  · rw [hfind] at h
    exact h
  · rw [hfind] at h
    simp only at h ⊢
    split at h
    · cases h
    · next settings hsettings =>
      -- the file of the settings is found where it was, and has not been
      -- written to
      have hcontent : left.content? path = fs.content? path := by
        rw [hleaves.held]
        exact RepairRun.writtenContent_of_none fun one hone _ =>
          RepairRun.sameFile_settings hsettings hone
      rw [readSettings, hleaves.tree.readText hcontent, ← readSettings, hsettings]
      exact h

end Settings

/-! ### Codes -/

theorem code_ofCounts_congr {found found' : Nat} (fileErrors : Nat)
    (h : found = 0 ↔ found' = 0) :
    (Status.ofCounts found fileErrors).code =
      (Status.ofCounts found' fileErrors).code := by
  have hpos : 0 < found ↔ 0 < found' := by omega
  simp only [Status.ofCounts, hpos]

section Codes

variable {fs : FileSystem} {common : CommandLine.Common}

/-- What is checked at a root under given settings. -/
def rootAnalysis (fs : FileSystem) (visit : Visit) (root : String)
    (settings : Settings) : Analysis :=
  checkFiles fs visit settings.target (survey fs (Project.request root settings)).files

theorem code_runCheck (color : Bool) (visit : Visit) {loaded : Loaded}
    (h : loadSettings fs (common.sourceRoot.getD ".") = .ok loaded) :
    let analysis := rootAnalysis fs visit (common.sourceRoot.getD ".") loaded.settings
    (runCheck fs color common visit).code =
      (Status.ofCounts analysis.findings.findings.length
        analysis.fileErrors.length).code := by
  unfold runCheck Project.load
  simp only [h, Project.analyze, Analysis.problems, List.length_append, List.length_map,
    Nat.add_sub_cancel]
  rfl

theorem runFix_of_none (color : Bool) (look mend : Visit) {loaded : Loaded}
    (h : loadSettings fs (common.sourceRoot.getD ".") = .ok loaded)
    (hnone : (rootAnalysis fs look (common.sourceRoot.getD ".")
      loaded.settings).findings.findings = []) :
    (runFix fs color common true look mend).files = fs ∧
      (runFix fs color common true look mend).code =
        (Status.ofCounts 0 (rootAnalysis fs look
        (common.sourceRoot.getD ".") loaded.settings).fileErrors.length).code := by
  rw [rootAnalysis] at hnone
  unfold runFix Project.load
  simp only [h, Project.analyze, hnone, List.isEmpty_nil, if_true, true_and]
  rfl

theorem runFix_of_some (color : Bool) (look mend : Visit) {loaded : Loaded}
    (h : loadSettings fs (common.sourceRoot.getD ".") = .ok loaded)
    (hsome : (rootAnalysis fs look (common.sourceRoot.getD ".")
      loaded.settings).findings.findings ≠ []) :
    let analysis := rootAnalysis fs look (common.sourceRoot.getD ".") loaded.settings
    let after := RepairRun.carryOut fs loaded.settings.target analysis mend
    (runFix fs color common true look mend).files = after.1 ∧
      (runFix fs color common true look mend).code =
        (Status.ofCounts (after.2.remaining.length + after.2.errors.length)
          analysis.fileErrors.length).code := by
  rw [rootAnalysis] at hsome
  unfold runFix Project.load
  simp only [h, Project.analyze, List.isEmpty_iff, hsome, if_false, if_true]
  exact ⟨rfl, rfl⟩

end Codes

/-- Holds if the scripts of the project at a root are settled, and stay so over
up to so many passes. -/
def ScriptsSettled (fs : FileSystem) (root : String) (n : Nat) : Prop :=
  ∀ loaded, loadSettings fs root = .ok loaded →
    ∀ file ∈ (survey fs (Project.request root loaded.settings)).files,
      ∀ text, fs.readText file = .ok text →
        Reader.script.StaysSettled loaded.settings.target file n text

/-- Holds if in no script of the project at a root a line holds both a `disable`
and an `enable`, also after up to so many passes. -/
def scriptsStayApart (fs : FileSystem) (root : String) (n : Nat) : Bool :=
  (loadSettings fs root).toOption.all fun loaded =>
    (survey fs (Project.request root loaded.settings)).files.all fun file =>
      (fs.readText file).toOption.all fun text =>
        Reader.script.staysApart loaded.settings.target file n text

theorem scriptsSettled_of_stayApart {fs : FileSystem} {root : String} {n : Nat}
    (h : scriptsStayApart fs root n = true) : ScriptsSettled fs root n := by
  intro loaded hload file hfile text htext
  rw [scriptsStayApart, hload] at h
  have hthis := List.all_eq_true.1 h file hfile
  rw [htext] at hthis
  exact staysSettled_of_staysApart hthis

/-- **Exit codes of repair and check agree.**  For every file system in which
names are proper names, and whatever the files hold, be it settings that can be
used or not, scripts that can be parsed or not, directives, links or several
paths to one file, a check after a repair from the same root ends with the code
of the repair.  In which order the comments are met is left open each time the
files are looked at; the scripts have to stay settled. -/
theorem runCheck_runFix (fs : FileSystem) (hwell : fs.root.isWellNamed = true)
    (color color' : Bool)
    (common common' : CommandLine.Common) (hroot : common'.sourceRoot = common.sourceRoot)
    (hscripts : ScriptsSettled fs (common.sourceRoot.getD ".") maxPasses)
    (look mend again : Visit) :
    (runCheck (runFix fs color common true look mend).files color' common' again).code =
      (runFix fs color common true look mend).code := by
  rcases hload : loadSettings fs (common.sourceRoot.getD ".") with e | loaded
  · -- without settings neither looks at a file
    have hfix : runFix fs color common true look mend = failed fs e.message := by
      unfold runFix Project.load
      simp only [hload]
    have hcheck : runCheck fs color' common' again = failed fs e.message := by
      unfold runCheck Project.load
      simp only [hroot, hload]
    rw [hfix]
    exact congrArg Outcome.code hcheck
  · have hsettled := hscripts loaded hload
    have hanalysis (visit : Visit) :
        rootAnalysis fs visit (common.sourceRoot.getD ".") loaded.settings =
          rootAnalysis fs .inText (common.sourceRoot.getD ".") loaded.settings :=
      checkFiles_visit (fun file hfile text htext =>
        (hsettled file hfile text htext).settled) _ _
    by_cases hnone : (rootAnalysis fs look (common.sourceRoot.getD ".")
        loaded.settings).findings.findings = []
    · -- nothing is written, and both count the unreadable files only
      obtain ⟨hfiles, hcode⟩ := runFix_of_none color look mend hload hnone
      rw [hanalysis] at hnone
      rw [hfiles, hcode, code_runCheck color' again (hroot ▸ hload), hroot,
        hanalysis again, hanalysis look, hnone]
      rfl
    · obtain ⟨hfiles, hcode⟩ := runFix_of_some color look mend hload hnone
      rw [hanalysis, rootAnalysis] at hfiles hcode
      obtain ⟨left, hrun, hleaves⟩ := RepairRun.exists_leaves hsettled mend
      rw [hrun] at hfiles hcode
      have hnames : ∀ file ∈
          (survey fs (Project.request (common.sourceRoot.getD ".")
            loaded.settings)).files,
          fs.HasOwnName file := fun file hfile => hasOwnName_survey hwell hfile
      have hleft := loadSettings_left hleaves hload
      rw [hfiles, hcode, code_runCheck color' again (hroot ▸ hleft), hroot, rootAnalysis,
        hleaves.tree.survey, checkFiles_visit (fun file hfile text htext =>
          RepairRun.settled_left hnames hleaves hfile htext) again .inText,
        RepairRun.fileErrors_left hnames hleaves]
      apply code_ofCounts_congr
      rw [Nat.add_eq_zero_iff, List.length_eq_zero_iff, List.length_eq_zero_iff,
        List.length_eq_zero_iff, RepairRun.nothing_left_iff hnames hleaves]

/-- A project with a call that can be joined and one that cannot, whose settings
are a link to another of its scripts. -/
def linkedSettings : FileSystem where
  root := .directory [
    (".tweenlintrc.json", .link "c.js"),
    ("a.js", .file (.text "a.to(//\n\x7b\x7d)".toList)),
    ("b.js", .file (.text "a.to(\n\x7b\x7d)".toList)),
    ("c.js", .file (.text "\x7b\x7d".toList))]
  current := []

theorem runCheck_runFix_linkedSettings :
    linkedSettings.root.isWellNamed = true ∧ ScriptsSettled linkedSettings "." maxPasses ∧
      ∀ look mend again : Visit,
        (runCheck (runFix linkedSettings false ⟨none, false⟩ true look mend).files true
          ⟨none, true⟩ again).code =
        (runFix linkedSettings false ⟨none, false⟩ true look mend).code := by
  have hwell : linkedSettings.root.isWellNamed = true := by decide
  have hscripts : ScriptsSettled linkedSettings "." maxPasses := by
    apply scriptsSettled_of_stayApart
    decide +kernel
  exact ⟨hwell, hscripts,
    runCheck_runFix linkedSettings hwell false true ⟨none, false⟩ ⟨none, true⟩
      rfl hscripts⟩

end AnimLint
