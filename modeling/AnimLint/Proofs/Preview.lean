/-
AnimLint/Proofs/Preview.lean

A preview tells what a run will do.  The number of zones that a preview
announces is the number that a run on the same files reports, up to the zones
that could still be joined in what the run leaves (`runFix_counts`); and there
are none of these where no file took all of its passes.  Each file is accounted
for by itself (`Regular.repair_accounts`), and a run adds up its files.  The
preview and the run each look at the files anew, and may meet the comments in
other orders; they find zones to join in the same regular files, and as many
(`targets_visit`).

The two numbers may differ where a directive stands on a line that is joined
(`runFix_counts_silencedCall`): directives are read anew after each pass.
-/
import AnimLint.Command
import AnimLint.Proofs.Accounting
import AnimLint.Proofs.ExitCodes

namespace AnimLint

open Files Script Display

/-! ### Findings that can be mended -/

/-- The number of findings that an edit mends. -/
def fixableCount (found : List Finding) : Nat := (found.filter (·.isFixable)).length

theorem length_editsOf (found : List Finding) :
    (editsOf found).length = fixableCount found := by
  induction found with
  | nil => rfl
  | cons f found ih =>
    rw [editsOf] at ih
    rw [editsOf, fixableCount, List.filterMap_cons, List.filter_cons, Finding.isFixable]
    rcases hedit : f.edit with - | e
    · exact ih
    · exact congrArg Nat.succ ih

theorem fixableCount_append (a b : List Finding) :
    fixableCount (a ++ b) = fixableCount a + fixableCount b := by
  rw [fixableCount, List.filter_append, List.length_append]
  rfl

theorem fixableCount_flatMap {α : Type} (found : α → List Finding) (l : List α) :
    fixableCount (l.flatMap found) = (l.map fun a => fixableCount (found a)).sum := by
  induction l with
  | nil => rfl
  | cons a l ih =>
    rw [List.flatMap_cons, fixableCount_append, ih, List.map_cons, List.sum_cons]

theorem fixableCount_eq_zero {found : List Finding}
    (h : found.any (·.isFixable) = false) :
    fixableCount found = 0 := by
  rw [fixableCount, List.length_eq_zero_iff, List.filter_eq_nil_iff]
  intro f hf hfixable
  rw [List.any_eq_false] at h
  exact h f hf hfixable

/-! ### Runs -/

/-- How many zones a repair has joined or could still join. -/
def FileRepair.zones (one : FileRepair) : Nat :=
  one.result.applied + fixableCount one.result.remaining

namespace RepairRun

variable {fs : FileSystem} {visit : Visit} {target : Target} {analysis : Analysis}
  {files : List String}

theorem applied_add_left (run : RepairRun) :
    run.applied + fixableCount run.remaining = (run.files.map (·.zones)).sum := by
  have happlied : run.applied = (run.files.map (·.result.applied)).sum := by
    rw [applied, List.sum_eq_foldr, List.foldr_map]
  rw [happlied, remaining, fixableCount_flatMap, ← List.sum_map_add]
  rfl

/-- The repairs of files in which every offered edit is accounted for. -/
theorem sum_zones_repairFile {entries : FindingMap}
    (h : ∀ entry ∈ entries, ∃ one, repairFile fs visit target entry.1 = .ok one ∧
      one.zones = fixableCount entry.2) :
    ((((entries.map (·.1)).map (repairFile fs visit target)).filterMap fun
      | .ok one => some one
      | .error _ => none).map (·.zones)).sum =
        (entries.map fun entry => fixableCount entry.2).sum := by
  induction entries with
  | nil => rfl
  | cons entry entries ih =>
    obtain ⟨one, hone, hzones⟩ := h entry List.mem_cons_self
    rw [List.map_cons, List.map_cons, List.filterMap_cons, hone]
    simp only [List.map_cons, List.sum_cons]
    rw [ih fun other hother => h other (List.mem_cons_of_mem entry hother), hzones]

/-- Where every offered edit is accounted for in the files that are repaired,
the repairs have joined or could still join as many zones as were offered. -/
theorem sum_zones_repairs
    (h : ∀ entry ∈ analysis.findings, entry.2.any (·.isFixable) = true →
      ∃ one, repairFile fs visit target entry.1 = .ok one ∧
        one.zones = fixableCount entry.2) :
    ((repairs fs visit target analysis).1.map (·.zones)).sum =
      fixableCount analysis.findings.findings := by
  -- of the files some have an edit and are repaired, and the others offer none
  have hentries := List.filter_append_perm (fun entry : String × List Finding =>
    entry.2.any (·.isFixable)) analysis.findings
  have hfound : analysis.findings.findings.Perm (analysis.findings.flatMap (·.2)) :=
    sortBy_perm _ _
  have hrepairs := sum_zones_repairFile fun entry hentry =>
    h entry (List.mem_filter.1 hentry).1 (List.mem_filter.1 hentry).2
  have hothers : ((analysis.findings.filter fun entry => !entry.2.any (·.isFixable)).map
      fun entry => fixableCount entry.2).sum = 0 := by
    refine List.sum_eq_zero (List.forall_mem_map.2 fun entry hentry =>
      fixableCount_eq_zero ?_)
    simpa using (List.mem_filter.1 hentry).2
  rw [fixableCount, (hfound.filter _).length_eq, ← fixableCount, fixableCount_flatMap,
    ← (hentries.map _).sum_nat, List.map_append, List.sum_append, hothers,
    Nat.add_zero, ← hrepairs]
  rfl

theorem sum_zones_congr {analysis' : Analysis}
    (h : targets analysis = targets analysis') :
    ((repairs fs visit target analysis).1.map (·.zones)).sum =
      ((repairs fs visit target analysis').1.map (·.zones)).sum := by
  rw [repairs, repairs, h]

/-- What a run has joined and could still join are the zones of its repairs. -/
theorem applied_add_left_plan :
    (plan fs target analysis visit).applied +
        fixableCount (plan fs target analysis visit).remaining =
      ((repairs fs visit target analysis).1.map (·.zones)).sum := by
  have hfiles : (plan fs target analysis visit).files.Perm
      ((repairs fs visit target analysis).1 ++ untouched analysis) := perm_inOrder _
  have huntouched : ((untouched analysis).map (·.zones)).sum = 0 := by
    refine List.sum_eq_zero (List.forall_mem_map.2 fun one hone => ?_)
    obtain ⟨file, found, -, hfixable, rfl⟩ := mem_untouched.1 hone
    exact (Nat.zero_add _).trans (fixableCount_eq_zero hfixable)
  rw [applied_add_left, (hfiles.map (·.zones)).sum_nat, List.map_append,
    List.sum_append, huntouched, Nat.add_zero]

/-- A regular file is repaired, and every edit that was offered is accounted
for. -/
theorem exists_zones {file : String} {found : List Finding}
    (htarget : target.endsPlainly = true)
    {look : Visit} (hcheck : checkFile fs look target file = .ok found)
    (hregular : ∀ text, fs.readText file = .ok text →
      ∃ tree, Reader.script.Regular target file text tree) (visit : Visit) :
    ∃ one, repairFile fs visit target file = .ok one ∧
      one.zones = fixableCount found := by
  obtain ⟨text, htext, hfound⟩ := checkFile_eq_ok_iff.1 hcheck
  obtain ⟨tree, hregular⟩ := hregular text htext
  obtain ⟨tree', hparse, rfl⟩ := treeFindings_of_findings hfound
  obtain rfl := Except.ok.inj (hregular.parse.symm.trans hparse)
  obtain ⟨done, hdone, haccounts⟩ := hregular.repair_accounts htarget look visit
  refine ⟨_, repairFile_ok htext hdone, ?_⟩
  rw [length_editsOf, length_editsOf] at haccounts
  exact haccounts.symm

/-- Where all files with a zone to join are regular, they are so in whatever
order comments are met. -/
theorem mem_targets_of_regular {file : String} {look look' : Visit}
    (hregular : ∀ text, fs.readText file = .ok text →
      ∃ tree, Reader.script.Regular target file text tree)
    (h : file ∈ targets (checkFiles fs look target files)) :
    file ∈ targets (checkFiles fs look' target files) := by
  obtain ⟨hfile, found, hcheck, hfixable⟩ := mem_targets_checkFiles.1 h
  obtain ⟨text, htext, hfound⟩ := checkFile_eq_ok_iff.1 hcheck
  obtain ⟨tree, hregular⟩ := hregular text htext
  obtain ⟨tree', hparse, rfl⟩ := treeFindings_of_findings hfound
  obtain rfl := Except.ok.inj (hregular.parse.symm.trans hparse)
  have hcheck' : checkFile fs look' target file =
      .ok (treeFindings look' target file text tree) := by
    refine checkFile_eq_ok_iff.2 ⟨text, htext, ?_⟩
    rw [findings, Reader.findings, hparse]
  refine mem_targets_checkFiles.2 ⟨hfile, _, hcheck', ?_⟩
  -- both checks offer as many edits
  by_contra hnone
  have hcounts := hregular.length_editsOf look look'
  rw [length_editsOf, length_editsOf,
    fixableCount_eq_zero (Bool.eq_false_iff.2 hnone), fixableCount,
    List.length_eq_zero_iff, List.filter_eq_nil_iff] at hcounts
  obtain ⟨f, hf, hthis⟩ := List.any_eq_true.1 hfixable
  exact hcounts f hf hthis

theorem targets_visit
    (hregular : ∀ visit, ∀ file ∈ targets (checkFiles fs visit target files),
      ∀ text, fs.readText file = .ok text →
        ∃ tree, Reader.script.Regular target file text tree)
    (look look' : Visit) :
    targets (checkFiles fs look target files) =
      targets (checkFiles fs look' target files) := by
  have hsorted (visit : Visit) :
      (targets (checkFiles fs visit target files)).Pairwise (· < ·) := by
    have hkeys := keys_checkFiles fs visit target files
    rw [List.pairwise_map] at hkeys
    rw [targets, List.pairwise_map]
    exact hkeys.sublist List.filter_sublist
  have hnodup (visit : Visit) := (hsorted visit).imp ne_of_lt
  refine List.Perm.eq_of_pairwise (fun a b _ _ hab hba => absurd hba (lt_asymm hab))
    (hsorted look)
    (hsorted look') ((List.perm_ext_iff_of_nodup (hnodup look) (hnodup look')).2
      fun file => ?_)
  exact ⟨fun h => mem_targets_of_regular (hregular look file h) h,
    fun h => mem_targets_of_regular (hregular look' file h) h⟩

/-- Where no file took all of its passes, no zone is left that could be
joined. -/
theorem fixableCount_remaining_plan
    (h : ∀ one ∈ (plan fs target analysis visit).files, one.result.passes < maxPasses) :
    fixableCount (plan fs target analysis visit).remaining = 0 := by
  have hfiles : (plan fs target analysis visit).files.Perm
      ((repairs fs visit target analysis).1 ++ untouched analysis) := perm_inOrder _
  rw [remaining, fixableCount_flatMap]
  refine List.sum_eq_zero (List.forall_mem_map.2 fun one hone => ?_)
  rcases List.mem_append.1 (hfiles.mem_iff.1 hone) with hrepaired | huntouched
  · obtain ⟨text, -, hresult, -⟩ := content?_of_mem_repairs hrepaired
    obtain ⟨found, hfound, hrepair⟩ := findings_of_repair hresult
    rw [← length_editsOf, (settles_repairIn hfound hrepair).2.2 (h one hone)]
    rfl
  · obtain ⟨file, found, -, hfixable, rfl⟩ := mem_untouched.1 huntouched
    exact fixableCount_eq_zero hfixable

end RepairRun

/-! ### What is printed -/

/-- The end of a preview: what it says of the zones that would be joined, if
there are any. -/
def previewEnd (color : Bool) (zones files : Nat) : String :=
  if zones = 0 then ""
  else
    countLine (Style.boldYellow.paint color "Would compact") zones files ++
      "Run with " ++ Style.cyan.paint color "--apply" ++ " to rewrite these files.\n"

/-- The end of what a run says: how many zones it has joined, if any. -/
def appliedEnd (color : Bool) (zones files : Nat) : String :=
  if zones = 0 then "" else
    countLine (Style.boldGreen.paint color "Compacted") zones files

theorem previewText_eq (color : Bool) (found : List Finding) :
    previewText color found = unfixable color (found.filter (!·.isFixable)) ++
      fixPreview color (found.filter (·.isFixable)) ++
      previewEnd color (fixableCount found)
        (sortedTexts ((found.filter (·.isFixable)).map (·.file))).length := by
  rw [previewText, previewEnd, fixableCount]
  simp only [List.isEmpty_iff, List.length_eq_zero_iff]

theorem appliedText_eq (color : Bool) (run : RepairRun) :
    appliedText color run =
      unfixable color run.remaining ++ appliedEnd color run.applied run.modified := by
  rw [appliedText, appliedEnd]
  rcases run.applied with - | n
  · rfl
  · rfl

section Printed

variable {fs : FileSystem} {common : CommandLine.Common} {project : Project}
  {loadText : String}

/-- What a preview prints. -/
theorem stdout_preview (color : Bool)
    (hload : Project.load fs color common.sourceRoot common.verbose =
      .ok (project, loadText))
    (look mend : Visit) :
    let found := (project.analyze fs look).findings.findings
    (runFix fs color common false look mend).stdout =
      if found = [] then success color project.files.length
      else unfixable color (found.filter (!·.isFixable)) ++
        fixPreview color (found.filter (·.isFixable)) ++
        previewEnd color (fixableCount found)
          (sortedTexts ((found.filter (·.isFixable)).map (·.file))).length := by
  intro found
  rw [← previewText_eq]
  simp only [runFix, hload, List.isEmpty_iff]
  split <;> rfl

/-- What a run prints. -/
theorem stdout_applied (color : Bool)
    (hload : Project.load fs color common.sourceRoot common.verbose =
      .ok (project, loadText))
    (look mend : Visit) :
    let analysis := project.analyze fs look
    let run := (RepairRun.perform true fs project.settings.target analysis mend).2
    (runFix fs color common true look mend).stdout =
      if analysis.findings.findings = [] then success color project.files.length
      else unfixable color run.remaining ++
        appliedEnd color run.applied run.modified := by
  intro analysis run
  rw [← appliedText_eq]
  simp only [runFix, hload, List.isEmpty_iff, if_true]
  split <;> rfl

end Printed

/-- **A preview announces what a run reports.**  In a project whose files with a
zone to join are regular, a run fails nowhere, and a preview announces as many
zones as the run reports and could still join in what it leaves; there are none
of these if no file took all of its passes.  Where a number is zero, its line is
missing.  The preview, the run's look at the files and its repairs may each meet
the comments in another order. -/
theorem runFix_counts (fs : FileSystem) (color : Bool) (common : CommandLine.Common)
    {project : Project} {loadText : String}
    (hload : Project.load fs color common.sourceRoot common.verbose =
      .ok (project, loadText))
    (htarget : project.settings.target.endsPlainly = true)
    (hregular : ∀ visit, ∀ file ∈ RepairRun.targets (project.analyze fs visit), ∀ text,
      fs.readText file = .ok text →
        ∃ tree, Reader.script.Regular project.settings.target file text tree)
    (preview look mend : Visit) :
    let shown := (project.analyze fs preview).findings.findings
    let found := (project.analyze fs look).findings.findings
    let run :=
      (RepairRun.perform true fs project.settings.target (project.analyze fs look) mend).2
    let left := fixableCount run.remaining
    run.errors = [] ∧
      (runFix fs color common false preview mend).stdout =
        (if shown = [] then success color project.files.length
        else unfixable color (shown.filter (!·.isFixable)) ++
          fixPreview color (shown.filter (·.isFixable)) ++
          previewEnd color (run.applied + left)
            (sortedTexts ((shown.filter (·.isFixable)).map (·.file))).length) ∧
      (runFix fs color common true look mend).stdout =
        (if found = [] then success color project.files.length
        else unfixable color run.remaining ++ appliedEnd color run.applied run.modified) ∧
      ((∀ one ∈ run.files, one.result.passes < maxPasses) → left = 0) := by
  intro shown found run left
  obtain ⟨after, hcarryOut, -⟩ :=
    RepairRun.carryOut_eq fs mend project.settings.target (project.analyze fs look)
  have hrun : run = RepairRun.plan fs project.settings.target
      (project.analyze fs look) mend :=
    congrArg Prod.snd hcarryOut
  have hrepaired (visit : Visit) {file : String}
      (hfile : file ∈ RepairRun.targets (project.analyze fs visit)) {found : List Finding}
      (hcheck : checkFile fs visit project.settings.target file = .ok found) :
      ∃ one, RepairRun.repairFile fs mend project.settings.target file = .ok one ∧
        one.zones = fixableCount found :=
    RepairRun.exists_zones htarget hcheck (hregular visit file hfile) mend
  have hzones (visit : Visit) :
      ((RepairRun.repairs fs mend project.settings.target
        (project.analyze fs visit)).1.map
        (·.zones)).sum = fixableCount (project.analyze fs visit).findings.findings := by
    refine RepairRun.sum_zones_repairs fun (file, found) hentry hfixable => ?_
    obtain ⟨hfile, hcheck, -⟩ := of_mem_findings hentry
    exact hrepaired visit
      (mem_targets_checkFiles.2 ⟨hfile, found, hcheck, hfixable⟩) hcheck
  -- the preview and the run have the same targets, so the zones of both are
  -- those of the repairs
  have hshown : run.applied + left = fixableCount shown := by
    show run.applied + fixableCount run.remaining = _
    rw [hrun, RepairRun.applied_add_left_plan, ← hzones preview]
    exact RepairRun.sum_zones_congr (RepairRun.targets_visit hregular look preview)
  refine ⟨?_, ?_, stdout_applied color hload look mend, ?_⟩
  · rw [hrun]
    refine RepairRun.errors_plan_eq_nil_iff.2 fun file hfile => ?_
    obtain ⟨-, found, hcheck, -⟩ := mem_targets_checkFiles.1 hfile
    exact (hrepaired look hfile hcheck).imp fun one hone => hone.1
  · rw [hshown]
    exact stdout_preview color hload preview mend
  · intro hpasses
    show fixableCount run.remaining = 0
    rw [hrun] at hpasses ⊢
    exact RepairRun.fixableCount_remaining_plan hpasses

/-! ### A project with one call -/

/-- A project of one script, which is on two lines. -/
def oneCall : FileSystem where
  root := .directory [("a.js", .file (.text "a.to(\n\x7b\x7d);".toList))]
  current := []

theorem regular_oneCall :
    Reader.script.Regular Target.default "./a.js" "a.to(\n\x7b\x7d);".toList
      (toCall [] [⟨.blank, ['\n']⟩]) := by
  have hplain : PlainScript (toCall [] [⟨.blank, ['\n']⟩]) :=
    plainScript_toCall (by decide) (by decide)
  have hread := read_script hplain (dialectOf "./a.js")
  rw [show Tree.source _ = "a.to(\n\x7b\x7d);".toList by decide] at hread
  exact ⟨Reader.parseFile_of_read (by decide) hread, by decide, by decide,
    by decide +kernel, readsRespaced_plainScript hplain _⟩

/-- The project of a file system without settings, at its current directory. -/
def plainProject (fs : FileSystem) : Project where
  root := "."
  settings := .default
  fromFile := false
  files := (survey fs (Project.request "." .default)).files
  verbose := false

theorem load_plainProject {fs : FileSystem} (h : findSettings fs "." = none)
    (color : Bool) :
    Project.load fs color none false = .ok (plainProject fs,
      Project.loadText color false ⟨.default, false⟩
        (survey fs (Project.request "." .default))) := by
  simp only [Project.load, loadSettings, Option.getD_none, h]
  rfl

theorem runFix_counts_oneCall :
    (∃ shown, (runFix oneCall false ⟨none, false⟩ false).stdout = shown ++
        "Would compact 1 zone(s) in 1 file(s).\nRun with --apply to rewrite these files.\n") ∧
      (runFix oneCall false ⟨none, false⟩ true).stdout =
        "Compacted 1 zone(s) in 1 file(s).\n" := by
  have hsettings : findSettings oneCall "." = none := by decide +kernel
  have hfiles : (plainProject oneCall).files = ["./a.js"] := by decide +kernel
  have hread : oneCall.readText "./a.js" = .ok "a.to(\n\x7b\x7d);".toList := by
    decide +kernel
  obtain ⟨-, hpreview, happlied, -⟩ := runFix_counts oneCall false ⟨none, false⟩
    (load_plainProject hsettings false) (by decide) (fun visit file hfile text htext => by
      have hmem := (mem_targets_checkFiles.1 hfile).1
      rw [hfiles] at hmem
      obtain rfl := List.mem_singleton.1 hmem
      obtain rfl := Except.ok.inj (hread.symm.trans htext)
      exact ⟨_, regular_oneCall⟩) .inText .inText .inText
  have hsome : ((plainProject oneCall).analyze oneCall).findings.findings ≠ [] := by
    decide +kernel
  rw [if_neg hsome] at hpreview happlied
  refine ⟨⟨_, hpreview.trans (congrArg _ ?_)⟩, happlied.trans ?_⟩
  all_goals decide +kernel

/-! ### A directive on a line that is joined -/

/-- A project of one script, in which a directive silences the zone behind an
object. -/
def silencedCall : FileSystem where
  root := .directory [("a.js", .file (.text
    "a.to( /* tweenlint-disable-next-line */\nb, \x7b\x7d\n)".toList))]
  current := []

/-- Joining the lines in front of the object takes the zone behind it from under
the directive: a preview announces one zone, and a run joins two. -/
theorem runFix_counts_silencedCall :
    (runFix silencedCall false ⟨none, false⟩ true).stderr = "" ∧
      (∃ shown, (runFix silencedCall false ⟨none, false⟩ false).stdout = shown ++
        "Would compact 1 zone(s) in 1 file(s).\nRun with --apply to rewrite these files.\n") ∧
      (runFix silencedCall false ⟨none, false⟩ true).stdout =
        "Compacted 2 zone(s) in 1 file(s).\n" := by
  have hsettings : findSettings silencedCall "." = none := by decide +kernel
  have hload := load_plainProject hsettings false
  have hpreview :=
    @stdout_preview silencedCall ⟨none, false⟩ _ _ false hload .inText .inText
  have hsome :
      ((plainProject silencedCall).analyze silencedCall).findings.findings ≠ [] := by
    decide +kernel
  simp only [hsome, if_false] at hpreview
  refine ⟨?_, ⟨_, hpreview.trans (congrArg _ ?_)⟩, ?_⟩
  all_goals decide +kernel

end AnimLint
