/-
AnimLint/Proofs/SettingsSearch.lean

Where the settings of a project are looked for.  The search starts from a path
and drops one name of it after the other (`Climbs`), and it comes to an end
(`climbs_iff`).  So the settings that are found lie in a directory whose path is
left of the first one, and no path between has settings or a repository
(`Climbs.exists_isLeftOf`).

A path is a text, and dropping its last name leads to the directory above only
if that name is neither `..`  nor a link.  If the names that were dropped lead
down (`Node.leadsDown`), then the settings lie in the directory that the path
leads to or above it, and no nearer directory has any (`findSettings_nearest`).
Otherwise they may lie below (`findSettings_looks_down`).
-/
import AnimLint.Project
import AnimLint.Proofs.Arrival
import AnimLint.Proofs.ParentPaths

namespace AnimLint

namespace Files

/-! ### Places -/

/-- Names that arrive do so name by name. -/
theorem arrives_append_iff {root : Node} {n m : Nat}
    {current names rest found : List String} :
    Arrives root n current (names ++ rest) m found ↔
      ∃ m' found', Arrives root n current names m' found' ∧
        Arrives root m' found' rest m found := by
  constructor
  · exact Arrives.split
  · rintro ⟨m', found', hnames, hrest⟩
    exact hnames.append hrest

theorem arrives_cons_iff {root : Node} {n m : Nat}
    {current rest found : List String} {name : String} :
    Arrives root n current (name :: rest) m found ↔
      ∃ m' found', Arrives root n current [name] m' found' ∧
        Arrives root m' found' rest m found :=
  @arrives_append_iff _ _ _ _ [name] _ _

/-- Names arrive if and only if those that stand for a step do. -/
theorem arrives_filter_iff {root : Node} {n m : Nat} {current names found : List String} :
    Arrives root n current (names.filter (!isIdle ·)) m found ↔
      Arrives root n current names m found := by
  induction names generalizing n current with
  | nil => exact Iff.rfl
  | cons name names ih =>
    rcases hidle : isIdle name with - | -
    · rw [List.filter_cons_of_pos (by rw [hidle]; rfl), arrives_cons_iff,
        @arrives_cons_iff _ _ _ _ names]
      exact exists_congr fun m' => exists_congr fun found' => and_congr_right fun _ => ih
    · rw [List.filter_cons_of_neg (by rw [hidle]; decide), ih]
      constructor
      · exact Arrives.idle hidle
      · intro h
        obtain ⟨m', found', hfirst, hrest⟩ := arrives_cons_iff.1 h
        obtain ⟨rfl, rfl⟩ :=
          (Arrives.of_idle (by rw [List.all_cons, hidle]; rfl)).unique hfirst
        exact hrest

namespace Node

/-- Holds if a name leads from a place to something, over so many links at
most. -/
def contains (root : Node) (links : Nat) (place : List String) (name : String) : Bool :=
  match follow root true links place [name] with
  | .ok found => found.node.isSome
  | .error _ => false

/-- Holds of names that lead down from a place: all of them are proper, and none
leads to a link. -/
def leadsDown (root : Node) : List String → List String → Bool
  | _, [] => true
  | place, name :: rest =>
    isProperName name && !(root.descend? (place ++ [name])).any isLink &&
      root.leadsDown (place ++ [name]) rest

variable {root : Node} {place names : List String} {n : Nat}

theorem contains_iff {name : String} : root.contains n place name = true ↔
    ∃ found, follow root true n place [name] = .ok found ∧ found.node.isSome = true := by
  rw [contains]
  rcases follow root true n place [name] with e | found
  · simp
  · simp

/-- What a proper name leads to lies in a directory. -/
theorem directory_of_contains {name : String} (hname : isProperName name = true)
    (h : root.contains n place name = true) :
    ∃ entries, root.descend? place = some (directory entries) := by
  obtain ⟨found, hfound, hsome⟩ := contains_iff.1 h
  obtain ⟨hstep, hup, -⟩ := isProperName_iff.1 hname
  cases leads_of_follow hfound with
  | idle hidle => rw [hstep] at hidle; cases hidle
  | up => exact absurd rfl hup
  | absent => cases hsome
  | enter _ _ hentry => exact directory_of_descend hentry
  | file _ _ hentry => exact directory_of_descend hentry
  | stop hthrough => cases hthrough
  | link _ _ _ hentry => exact directory_of_descend hentry

/-- Proper names under which a directory lies arrive there, over no link. -/
theorem arrives_of_directory {entries : List (String × Node)}
    (hproper : names.all isProperName = true)
    (h : root.descend? (place ++ names) = some (directory entries)) :
    Arrives root n place names n (place ++ names) := by
  induction names generalizing place with
  | nil =>
    rw [List.append_nil]
    exact .here
  | cons name rest ih =>
    rw [List.all_cons, Bool.and_eq_true] at hproper
    obtain ⟨hname, hproper⟩ := hproper
    obtain ⟨hstep, hup, -⟩ := isProperName_iff.1 hname
    rw [List.append_cons] at h ⊢
    have hdirectory : ∃ entries, root.descend? (place ++ [name]) =
        some (directory entries) := by
      rcases rest with - | ⟨next, rest⟩
      · rw [List.append_nil] at h
        exact ⟨entries, h⟩
      · rw [List.append_cons, descend?_append] at h
        obtain ⟨node, hnode, -⟩ := Option.bind_eq_some_iff.1 h
        exact directory_of_descend hnode
    obtain ⟨entries', hentries⟩ := hdirectory
    exact .enter hstep hup hentries (ih hproper h)

theorem all_isProperName_of_leadsDown (h : root.leadsDown place names = true) :
    names.all isProperName = true := by
  induction names generalizing place with
  | nil => rfl
  | cons name rest ih =>
    rw [leadsDown, Bool.and_eq_true, Bool.and_eq_true] at h
    rw [List.all_cons, h.1.1, ih h.2]
    rfl

/-- Names that lead down arrive below, and over no link. -/
theorem eq_of_leadsDown {m : Nat} {found : List String}
    (hdown : root.leadsDown place names = true)
    (h : Arrives root n place names m found) : m = n ∧ found = place ++ names := by
  induction names generalizing place with
  | nil =>
    cases h
    exact ⟨rfl, (List.append_nil _).symm⟩
  | cons name rest ih =>
    rw [leadsDown, Bool.and_eq_true, Bool.and_eq_true] at hdown
    obtain ⟨⟨hname, hlink⟩, hrest⟩ := hdown
    obtain ⟨hstep, hup, -⟩ := isProperName_iff.1 hname
    cases h with
    | idle hidle => rw [hstep] at hidle; cases hidle
    | up => exact absurd rfl hup
    | enter _ _ _ harrives =>
      rw [List.append_cons]
      exact ih hrest harrives
    | link _ _ hentry =>
      rw [hentry] at hlink
      cases hlink

end Node

/-- A path joined to a proper name goes on by it. -/
theorem goesOn_join_of_proper {path name : String} (hname : isProperName name = true) :
    GoesOn path name (join path name) := by
  have hslash := (isProperName_iff.1 hname).2.2
  by_cases hpath : path = ""
  · subst hpath
    have hnames := @names_join "" _ (isAbsolute_of_not_mem hslash)
    rw [names_of_not_mem hslash] at hnames
    refine ⟨?_, isAbsolute_join (isAbsolute_of_not_mem hslash), .inl hnames⟩
    intro hempty
    rw [hempty] at hnames
    obtain rfl : "" = name := List.singleton_inj.1 hnames
    cases hname
  · exact goesOn_join hslash hpath

namespace FileSystem

variable {fs : FileSystem} {path : String} {links : Nat} {place : List String}

/-- Where a path leads, and how many links are left then; the empty path leads
to the current directory. -/
def LeadsTo (fs : FileSystem) (path : String) (links : Nat)
    (place : List String) : Prop :=
  Arrives fs.root maxLinks (fs.startOf path) (names path) links place

theorem leadsTo_iff_steps : fs.LeadsTo path links place ↔
    Arrives fs.root maxLinks (fs.startOf path) (pathSteps path) links place :=
  arrives_filter_iff.symm

theorem has_iff : fs.has path = true ↔
    ∃ found, fs.locate true path = .ok found ∧ found.node.isSome = true := by
  rw [has, node]
  rcases fs.locate true path with e | found
  · simp [Except.isOk, Except.toBool]
  · rcases hnode : found.node with - | node <;>
      simp [nodeOf, hnode, Except.isOk, Except.toBool]

/-- A name joined to a path leads to something if and only if the path leads to
a place that contains it. -/
theorem has_join_iff {name : String} (hname : isProperName name = true) :
    fs.has (join path name) = true ↔
      ∃ links place, fs.LeadsTo path links place ∧
        fs.root.contains links place name = true := by
  have hnext := @goesOn_join_of_proper path _ hname
  obtain ⟨front, idle, hnames, hidle, hnames'⟩ := hnext.exists_front
  have hlocate : fs.locate true (join path name) =
      follow fs.root true maxLinks (fs.startOf path) (front ++ [name]) := by
    rw [locate, if_neg hnext.ne_empty, hnames', hnext.isAbsolute_eq]
    rfl
  have hfront {links : Nat} {place : List String} :
      fs.LeadsTo path links place ↔
        Arrives fs.root maxLinks (fs.startOf path) front links place := by
    rw [LeadsTo, hnames]
    exact arrives_append_idle hidle
  have hfollow {links : Nat} {place : List String} (h : fs.LeadsTo path links place) :
      follow fs.root true maxLinks (fs.startOf path) (front ++ [name]) =
        follow fs.root true links place [name] :=
    (hfront.1 h).follow_append (.inr rfl)
  rw [has_iff, hlocate]
  constructor
  · rintro ⟨found, hfound, hsome⟩
    obtain ⟨links, place, harrives⟩ := (leads_of_follow hfound).exists_arrives hsome
    have hleads := hfront.2 harrives
    rw [hfollow hleads] at hfound
    exact ⟨links, place, hleads, Node.contains_iff.2 ⟨found, hfound, hsome⟩⟩
  · rintro ⟨links, place, hleads, hcontains⟩
    rw [hfollow hleads]
    exact Node.contains_iff.1 hcontains

end FileSystem

/-- A path leads to where the names that were dropped lead from where the rest
of it leads. -/
theorem IsLeftOf.leadsTo_iff {fs : FileSystem} {above path : String}
    {dropped : List String}
    (h : IsLeftOf above path dropped) {m : Nat} {found : List String} :
    fs.LeadsTo path m found ↔
      ∃ links home, fs.LeadsTo above links home ∧
        Arrives fs.root links home dropped m found := by
  rw [FileSystem.leadsTo_iff_steps, h.steps_eq, arrives_append_iff,
    FileSystem.startOf, h.isAbsolute_eq]
  simp only [FileSystem.leadsTo_iff_steps, FileSystem.startOf]

end Files

open Files

/-! ### The search -/

/-- What the search for settings comes to from a directory on. -/
inductive Climbs (fs : FileSystem) : String → Option String → Prop
  | settings {directory : String} :
      fs.has (join directory settingsFile) = true →
        Climbs fs directory (some (join directory settingsFile))
  | repository {directory : String} :
      fs.has (join directory settingsFile) = false →
      fs.has (join directory ".git") = true →
        Climbs fs directory none
  | top {directory : String} :
      fs.has (join directory settingsFile) = false →
      fs.has (join directory ".git") = false →
        parent? directory = none → Climbs fs directory none
  | up {directory above : String} {found : Option String} :
      fs.has (join directory settingsFile) = false →
      fs.has (join directory ".git") = false →
        parent? directory = some above → Climbs fs above found → Climbs fs directory found

section Climbs

variable {fs : FileSystem} {directory : String}

/-- One step of the search, from what it comes to above. -/
theorem climbs_firstSettings {rest : List String}
    (h : parent? directory = none ∧ rest = [] ∨
      ∃ above, parent? directory = some above ∧ Climbs fs above (firstSettings fs rest)) :
    Climbs fs directory (firstSettings fs (directory :: rest)) := by
  rw [firstSettings]
  split
  · next hsettings => exact .settings hsettings
  · next hsettings =>
    rw [Bool.not_eq_true] at hsettings
    split
    · next hrepository => exact .repository hsettings hrepository
    · next hrepository =>
      rw [Bool.not_eq_true] at hrepository
      rcases h with ⟨htop, rfl⟩ | ⟨above, hup, habove⟩
      · exact .top hsettings hrepository htop
      · exact .up hsettings hrepository hup habove

theorem climbs_of_length_le {n : Nat} (h : directory.length ≤ n) :
    Climbs fs directory (firstSettings fs (upwards n directory)) := by
  -- each path above is shorter, so they do not run out before the top
  induction n generalizing directory with
  | zero =>
    refine climbs_firstSettings (.inl ⟨?_, rfl⟩)
    rw [String.length_eq_zero_iff.1 (Nat.le_zero.1 h)]
    rfl
  | succ n ih =>
    rw [upwards]
    split
    · next htop => exact climbs_firstSettings (.inl ⟨htop, rfl⟩)
    · next above hup =>
      have hlength := length_of_parent hup
      exact climbs_firstSettings (.inr ⟨above, hup, ih (by omega)⟩)

theorem Climbs.unique {found found' : Option String} (h : Climbs fs directory found)
    (h' : Climbs fs directory found') : found = found' := by
  induction h with
  | settings hsettings =>
    cases h' with
    | settings => rfl
    | repository hnone | top hnone | up hnone => rw [hsettings] at hnone; cases hnone
  | repository hnone hrepository =>
    cases h' with
    | settings hsettings => rw [hnone] at hsettings; cases hsettings
    | repository | top => rfl
    | up _ hnone' => rw [hrepository] at hnone'; cases hnone'
  | top hnone hnone' htop =>
    cases h' with
    | settings hsettings => rw [hnone] at hsettings; cases hsettings
    | repository | top => rfl
    | up _ _ hup => rw [htop] at hup; cases hup
  | up hnone hnone' hup _ ih =>
    cases h' with
    | settings hsettings => rw [hnone] at hsettings; cases hsettings
    | repository _ hrepository => rw [hnone'] at hrepository; cases hrepository
    | top _ _ htop => rw [hup] at htop; cases htop
    | up _ _ hup' habove =>
      rw [hup] at hup'
      obtain rfl := Option.some.inj hup'
      exact ih habove

/-- The search comes to an end, and to nothing but that. -/
theorem climbs_iff {found : Option String} :
    Climbs fs directory found ↔ found = findSettings fs directory := by
  have hend : Climbs fs directory (findSettings fs directory) :=
    climbs_of_length_le (Nat.le_refl _)
  constructor
  · intro h
    exact h.unique hend
  · rintro rfl
    exact hend

/-- The settings that are found are those of what is left of the path, and no
path between has settings or a repository. -/
theorem Climbs.exists_isLeftOf {file : String} (h : Climbs fs directory (some file)) :
    ∃ above dropped, file = join above settingsFile ∧ fs.has file = true ∧
      IsLeftOf above directory dropped ∧
      ∀ below, below ≠ [] → below <+: dropped → ∃ path, IsLeftOf above path below ∧
        fs.has (join path settingsFile) = false ∧ fs.has (join path ".git") = false := by
  generalize hfound : some file = found at h
  induction h with
  | @settings directory hsettings =>
    obtain rfl := Option.some.inj hfound
    refine ⟨directory, [], rfl, hsettings, .refl directory, fun below hbelow hfirst => ?_⟩
    exact absurd (List.prefix_nil.1 hfirst) hbelow
  | repository => cases hfound
  | top => cases hfound
  | @up directory _ _ hnone hnone' hup _ ih =>
    obtain ⟨above, dropped, hfile, hhas, hleft, hnearer⟩ := ih hfound
    rcases hleft.of_parent hup with hleft' | ⟨last, hleft'⟩
    · exact ⟨above, dropped, hfile, hhas, hleft', hnearer⟩
    · refine ⟨above, dropped ++ [last], hfile, hhas, hleft',
        fun below hbelow hfirst => ?_⟩
      rcases List.prefix_concat_iff.1 hfirst with rfl | hfirst
      · exact ⟨directory, hleft', hnone, hnone'⟩
      · exact hnearer below hbelow hfirst

end Climbs

/-! ### The nearest settings -/

/-- What is not found from a path is not contained in the place that the path
leads to. -/
theorem contains_eq_false {fs : FileSystem} {above path name : String} {links m : Nat}
    {home below place : List String} (hname : isProperName name = true)
    (hleads : fs.LeadsTo above links home) (hleft : IsLeftOf above path below)
    (harrives : Arrives fs.root links home below m place)
    (h : fs.has (join path name) = false) :
    fs.root.contains m place name = false := by
  rw [Bool.eq_false_iff] at h ⊢
  intro hcontains
  exact h ((FileSystem.has_join_iff hname).2
    ⟨m, place, hleft.leadsTo_iff.2 ⟨links, home, hleads, harrives⟩, hcontains⟩)

/-- If names lead to no place that contains something, then the place that they
name does not either. -/
theorem contains_below_eq_false {root : Node} {name : String} {links : Nat}
    {home below : List String}
    (hname : isProperName name = true) (hproper : below.all isProperName = true)
    (h : ∀ m place, Arrives root links home below m place →
      root.contains m place name = false) :
    root.contains links (home ++ below) name = false := by
  rw [Bool.eq_false_iff]
  intro hcontains
  obtain ⟨entries, hdirectory⟩ := Node.directory_of_contains hname hcontains
  rw [h _ _ (Node.arrives_of_directory hproper hdirectory)] at hcontains
  cases hcontains

theorem exists_file_of_loadSettings {fs : FileSystem} {start : String}
    {settings : Settings} (h : loadSettings fs start = .ok ⟨settings, true⟩) :
    ∃ file, findSettings fs start = some file ∧ readSettings fs file = .ok settings := by
  rw [loadSettings] at h
  split at h
  · cases h
  · next file hfile =>
    split at h
    · cases h
    · next hread =>
      obtain rfl := (Loaded.mk.inj (Except.ok.inj h)).1
      exact ⟨file, hfile, hread⟩

/-- **The search for settings comes to an end, and the settings it finds are the
nearest ones.**

They lie in the directory `home`, to which the path leads without the names
`dropped`.  No place that it goes through behind `home`, up to where it leads,
contains settings or a repository.  If the names lead down from `home`, then the
path leads to the place that they name there, and that place and those between
it and `home` contain neither. -/
theorem findSettings_nearest (fs : FileSystem) (start : String) :
    (∀ found, Climbs fs start found ↔ found = findSettings fs start) ∧
    (∀ settings, loadSettings fs start = .ok ⟨settings, true⟩ →
      ∃ file, findSettings fs start = some file ∧ readSettings fs file = .ok settings) ∧
    ∀ file, findSettings fs start = some file → ∃ above dropped links home,
      file = join above settingsFile ∧ IsLeftOf above start dropped ∧
      fs.LeadsTo above links home ∧ fs.root.contains links home settingsFile = true ∧
      (∀ below, below ≠ [] → below <+: dropped →
        ∀ m place, Arrives fs.root links home below m place →
        fs.root.contains m place settingsFile = false ∧
        fs.root.contains m place ".git" = false) ∧
      (fs.root.leadsDown home dropped = true →
        (∀ m place, fs.LeadsTo start m place → place = home ++ dropped) ∧
        ∀ below, below ≠ [] → below <+: dropped →
          fs.root.contains links (home ++ below) settingsFile = false ∧
          fs.root.contains links (home ++ below) ".git" = false) := by
  refine ⟨fun found => climbs_iff,
    fun settings => exists_file_of_loadSettings, fun file hfile => ?_⟩
  obtain ⟨above, dropped, rfl, hhas, hleft, hnearer⟩ :=
    (climbs_iff.2 hfile.symm).exists_isLeftOf
  obtain ⟨links, home, hleads, hcontains⟩ := (FileSystem.has_join_iff (by decide)).1 hhas
  have hway : ∀ below, below ≠ [] → below <+: dropped → ∀ m place,
      Arrives fs.root links home below m place →
        fs.root.contains m place settingsFile = false ∧
        fs.root.contains m place ".git" = false := by
    intro below hbelow hfirst m place harrives
    obtain ⟨path, hpath, hsettings, hrepository⟩ := hnearer below hbelow hfirst
    exact ⟨contains_eq_false (by decide) hleads hpath harrives hsettings,
      contains_eq_false (by decide) hleads hpath harrives hrepository⟩
  refine ⟨above, dropped, links, home, rfl, hleft, hleads, hcontains, hway,
    fun hdown => ⟨?_, ?_⟩⟩
  · intro m place hstart
    obtain ⟨links', home', hleads', harrives⟩ := hleft.leadsTo_iff.1 hstart
    obtain ⟨rfl, rfl⟩ := hleads.unique hleads'
    exact (Node.eq_of_leadsDown hdown harrives).2
  · intro below hbelow hfirst
    have hproper : below.all isProperName = true := List.all_eq_true.2 fun name hname =>
      List.all_eq_true.1 (Node.all_isProperName_of_leadsDown hdown) name
        (hfirst.subset hname)
    have hnone := hway below hbelow hfirst
    exact ⟨contains_below_eq_false (by decide) hproper fun m place h =>
      (hnone m place h).1,
      contains_below_eq_false (by decide) hproper fun m place h => (hnone m place h).2⟩

/-- A project with settings, seen from one of its directories. -/
def nestedProject : FileSystem where
  root := .directory [
    ("proj", .directory [
      (settingsFile, .file (.text ['{', '}'])),
      ("docs", .directory []),
      ("src", .directory [("app", .directory [])])])]
  current := ["proj", "docs"]

theorem findSettings_nearest_nested :
    findSettings nestedProject "../src/app" = some "../.tweenlintrc.json" ∧
    (∀ m place, nestedProject.LeadsTo "../src/app" m place →
      place = ["proj", "src", "app"]) ∧
    nestedProject.root.contains maxLinks ["proj", "src"] settingsFile = false := by
  have hfound : findSettings nestedProject "../src/app" =
      some "../.tweenlintrc.json" := by decide +kernel
  obtain ⟨above, dropped, links, home, hfile, hleft, hleads, -, -, hdown⟩ :=
    (findSettings_nearest nestedProject "../src/app").2.2 _ hfound
  have hstem : stem above = [".."] := by
    have hnames := congrArg names hfile
    rw [names_join (by decide)] at hnames
    exact List.append_inj_left' hnames.symm rfl
  have hsteps : pathSteps above = [".."] := by
    obtain ⟨idle, hnames, hidle⟩ := exists_idle_stem above
    rw [pathSteps, hnames, hstem, List.filter_append, filter_of_idle hidle]
    rfl
  obtain rfl : ["src", "app"] = dropped := by
    have hall := hleft.steps_eq
    rw [hsteps] at hall
    exact (List.cons.inj hall).2
  have harrives : nestedProject.LeadsTo above maxLinks ["proj"] := by
    rw [FileSystem.leadsTo_iff_steps, hsteps, FileSystem.startOf, ← hleft.isAbsolute_eq]
    exact .up .here
  obtain ⟨rfl, rfl⟩ := hleads.unique harrives
  obtain ⟨hplace, hnone⟩ := hdown (by decide)
  exact ⟨hfound, hplace, (hnone ["src"] (by decide) (by decide)).1⟩

/-- A path that goes up at its end leads down without its last name, and
settings are looked for there. -/
theorem findSettings_looks_down :
    ∃ fs : FileSystem, fs.LeadsTo "src/.." maxLinks [] ∧
      findSettings fs "src/.." = some "src/.tweenlintrc.json" := by
  let root : Node :=
    .directory [("src", .directory [(settingsFile, .file (.text ['{', '}']))])]
  refine ⟨⟨root, []⟩, ?_, by decide +kernel⟩
  rw [FileSystem.leadsTo_iff_steps]
  exact .enter rfl (by decide) rfl (.up .here)

end AnimLint
