/-
AnimLint/Proofs/PathText.lean

Paths as texts and as rows of names.  A path is its names with slashes between
them (`names_injective`), and joining puts the names of the one path behind the
stem of the other, which is its names without an empty last one (`stem`,
`names_join`).  So a path joined to a directory has the components of the
directory and then its own (`components_join`).  What the expansion of a pattern
puts together with `under` has the same names, except that the current directory
is not written (`names_under`).
-/
import AnimLint.Proofs.Walks

namespace AnimLint.Files

/-! ### Names -/

theorem names_ne_nil (path : String) : names path ≠ [] := by
  rw [names, ne_eq, List.map_eq_nil_iff]
  exact splitSlashes_ne_nil _

theorem joinSlashes_cons (part : List Char) {rest : List (List Char)} (h : rest ≠ []) :
    joinSlashes (part :: rest) = part ++ '/' :: joinSlashes rest := by
  cases rest with
  | nil => exact absurd rfl h
  | cons next rest => rfl

/-- A text is put together from what stands between its slashes. -/
theorem joinSlashes_splitSlashes (s : List Char) : joinSlashes (splitSlashes s) = s := by
  induction s with
  | nil => rfl
  | cons c r ih =>
    rw [splitSlashes]
    split
    · next hslash =>
      rw [beq_iff_eq] at hslash
      rw [joinSlashes_cons [] (splitSlashes_ne_nil r), ih, hslash]
      rfl
    · rcases hr : splitSlashes r with - | ⟨first, rest⟩
      · exact absurd hr (splitSlashes_ne_nil r)
      · rw [hr] at ih
        cases rest with
        | nil => exact congrArg (c :: ·) ih
        | cons next rest => exact congrArg (c :: ·) ih

/-- A path is told by its names. -/
theorem names_injective {path path' : String} (h : names path = names path') :
    path = path' := by
  have hparts : splitSlashes path.toList = splitSlashes path'.toList :=
    (List.map_inj_right fun _ _ => String.ofList_inj.1).1 h
  rw [← String.toList_inj, ← joinSlashes_splitSlashes path.toList, hparts,
    joinSlashes_splitSlashes]

theorem names_of_not_mem {name : String} (h : '/' ∉ name.toList) :
    names name = [name] := by
  rw [names, splitSlashes_of_not_mem h, List.map_singleton, String.ofList_toList]

theorem names_of_proper {name : String} (h : isProperName name = true) :
    names name = [name] :=
  names_of_not_mem (isProperName_iff.1 h).2.2

theorem isAbsolute_of_not_mem {path : String} (h : '/' ∉ path.toList) :
    isAbsolute path = false :=
  Bool.eq_false_iff.2 fun habsolute => h (List.mem_of_mem_head? (beq_iff_eq.1 habsolute))

theorem isAbsolute_of_proper {name : String} (h : isProperName name = true) :
    isAbsolute name = false :=
  isAbsolute_of_not_mem (isProperName_iff.1 h).2.2

/-! ### Stems -/

/-- The names of a path without an empty last one. -/
def stem (path : String) : List String := Glob.componentTexts path.toList

theorem stem_eq (path : String) :
    stem path = if (names path).getLast? = some "" then (names path).dropLast else
      names path := by
  rw [stem, Glob.componentTexts, ← names]
  by_cases hlast : (names path).getLast? = some ""
  · rw [if_pos hlast, if_pos (beq_iff_eq.2 hlast)]
  · rw [if_neg hlast, if_neg (by simpa using hlast)]

theorem stem_of_append {path : String} {front : List String} {last : String}
    (h : names path = front ++ [last]) :
    stem path = if last = "" then front else front ++ [last] := by
  rw [stem_eq, h, List.getLast?_concat, List.dropLast_concat]
  simp only [Option.some.injEq]

/-- The parts of a text that ends in a slash are those in front of it and an
empty one. -/
theorem names_slash (front : List Char) :
    names (String.ofList (front ++ ['/'])) = names (String.ofList front) ++ [""] := by
  rw [names, String.toList_ofList, splitSlashes_append, List.map_append, names,
    String.toList_ofList]
  rfl

/-- The last part of a text that does not end in a slash is empty only in the
empty text. -/
theorem getLast?_splitSlashes {s : List Char} (hs : s ≠ [])
    (hslash : s.getLast? ≠ some '/') :
    (splitSlashes s).getLast? ≠ some [] := by
  induction s with
  | nil => exact absurd rfl hs
  | cons c r ih =>
    rw [splitSlashes]
    cases r with
    | nil =>
      have hc : c ≠ '/' := fun heq => hslash (by rw [heq]; rfl)
      rw [if_neg (by simpa using hc)]
      exact fun h => List.cons_ne_nil _ _ (Option.some.inj h)
    | cons d r =>
      rw [List.getLast?_cons_cons] at hslash
      have hrest := ih (List.cons_ne_nil _ _) hslash
      split
      · rcases hparts : splitSlashes (d :: r) with - | ⟨first, rest⟩
        · exact absurd hparts (splitSlashes_ne_nil _)
        · rw [hparts] at hrest
          rw [List.getLast?_cons_cons]
          exact hrest
      · rcases hparts : splitSlashes (d :: r) with - | ⟨first, rest⟩
        · exact absurd hparts (splitSlashes_ne_nil _)
        · rw [hparts] at hrest
          cases rest with
          | nil => exact fun h => List.cons_ne_nil _ _ (Option.some.inj h)
          | cons next rest =>
            simp only [List.getLast?_cons_cons] at hrest ⊢
            exact hrest

theorem stem_of_no_slash {path : String} (hpath : path ≠ "")
    (hslash : path.toList.getLast? ≠ some '/') : stem path = names path := by
  have hne : path.toList ≠ [] := fun h => hpath (String.toList_eq_nil_iff.1 h)
  rw [stem_eq, if_neg]
  rw [names, List.getLast?_map]
  intro h
  obtain ⟨last, hlast, hempty⟩ := Option.map_eq_some_iff.1 h
  obtain rfl : last = [] := String.ofList_inj.1 hempty
  exact getLast?_splitSlashes hne hslash hlast

/-- The parts of a path behind its root, which are those that a pattern is read
from. -/
def pathParts (path : String) : List String :=
  Glob.componentTexts (path.toList.drop (if isAbsolute path then 1 else 0))

theorem stem_eq_pathParts (path : String) :
    stem path = (if isAbsolute path then [""] else []) ++ pathParts path := by
  rw [pathParts]
  rcases habsolute : isAbsolute path with - | -
  · rfl
  · obtain ⟨rest, hrest⟩ := List.head?_eq_some_iff.1 (beq_iff_eq.1 habsolute)
    have hpath : names path = [""] ++ names (String.ofList rest) := by
      rw [names, hrest, names, String.toList_ofList]
      rfl
    have hparts : Glob.componentTexts (path.toList.drop 1) =
        stem (String.ofList rest) := by
      rw [hrest, stem, String.toList_ofList]
      rfl
    show stem path = [""] ++ Glob.componentTexts (path.toList.drop 1)
    rw [hparts]
    rcases List.eq_nil_or_concat (names (String.ofList rest)) with hnil |
        ⟨front, last, hnames⟩
    · exact absurd hnil (names_ne_nil _)
    · rw [List.concat_eq_append] at hnames
      rw [hnames, ← List.append_assoc] at hpath
      rw [stem_of_append hpath, stem_of_append hnames]
      split
      · rfl
      · rw [List.append_assoc]

/-- What stands between the slashes of a text is made of its characters. -/
theorem mem_of_mem_splitSlashes {s part : List Char}
    (h : part ∈ splitSlashes s) {c : Char}
    (hc : c ∈ part) : c ∈ s := by
  induction s generalizing part with
  | nil =>
    obtain rfl := List.mem_singleton.1 h
    cases hc
  | cons d r ih =>
    rw [splitSlashes] at h
    split at h
    · rcases List.mem_cons.1 h with rfl | h
      · cases hc
      · exact List.mem_cons_of_mem d (ih h hc)
    · rcases hr : splitSlashes r with - | ⟨first, rest⟩
      · exact absurd hr (splitSlashes_ne_nil r)
      · rw [hr] at h ih
        rcases List.mem_cons.1 h with rfl | h
        · rcases List.mem_cons.1 hc with rfl | hc
          · exact List.mem_cons_self
          · exact List.mem_cons_of_mem d (ih List.mem_cons_self hc)
        · exact List.mem_cons_of_mem d (ih (List.mem_cons_of_mem first h) hc)

/-- No slash stands between the slashes of a text. -/
theorem slash_not_mem_splitSlashes {s part : List Char}
    (h : part ∈ splitSlashes s) : '/' ∉ part := by
  induction s generalizing part with
  | nil =>
    obtain rfl := List.mem_singleton.1 h
    exact List.not_mem_nil
  | cons c r ih =>
    rw [splitSlashes] at h
    split at h
    · rcases List.mem_cons.1 h with rfl | h
      · exact List.not_mem_nil
      · exact ih h
    · next hslash =>
      rcases hr : splitSlashes r with - | ⟨first, rest⟩
      · exact absurd hr (splitSlashes_ne_nil r)
      · rw [hr] at h ih
        rcases List.mem_cons.1 h with rfl | h
        · intro hmem
          rcases List.mem_cons.1 hmem with heq | hmem
          · exact hslash (beq_iff_eq.2 heq.symm)
          · exact ih List.mem_cons_self hmem
        · exact ih (List.mem_cons_of_mem first h)

theorem mem_names_of_mem_stem {path part : String} (h : part ∈ stem path) :
    part ∈ names path := by
  rw [stem_eq] at h
  split at h
  · exact List.dropLast_subset _ h
  · exact h

theorem mem_names_of_mem_pathParts {path part : String}
    (h : part ∈ pathParts path) : part ∈ names path := by
  apply mem_names_of_mem_stem
  rw [stem_eq_pathParts]
  exact List.mem_append_right _ h

theorem slash_not_mem_of_mem_names {path part : String} (h : part ∈ names path) :
    '/' ∉ part.toList := by
  obtain ⟨text, htext, rfl⟩ := List.mem_map.1 h
  rw [String.toList_ofList]
  exact slash_not_mem_splitSlashes htext

theorem mem_of_mem_pathParts {path part : String} (h : part ∈ pathParts path) {c : Char}
    (hc : c ∈ part.toList) : c ∈ path.toList := by
  obtain ⟨text, htext, rfl⟩ := List.mem_map.1 (mem_names_of_mem_pathParts h)
  rw [String.toList_ofList] at hc
  exact mem_of_mem_splitSlashes htext hc

theorem isAbsolute_of_mem_pathParts {path part : String} (h : part ∈ pathParts path) :
    isAbsolute part = false :=
  isAbsolute_of_not_mem (slash_not_mem_of_mem_names (mem_names_of_mem_pathParts h))

/-! ### Joined paths -/

section Join

variable {directory path : String} (hpath : isAbsolute path = false)

include hpath

/-- A path joined to a directory has the names of the directory and then its
own. -/
theorem names_join : names (join directory path) = stem directory ++ names path := by
  have hrelative : (path.toList.head? == some '/') = false := hpath
  rw [join, hrelative]
  by_cases hempty : directory = ""
  · subst hempty
    show names ("" ++ path) = _
    rw [String.empty_append]
    rfl
  · have hisEmpty : directory.isEmpty = false := by simpa using hempty
    rw [hisEmpty, Bool.false_or]
    by_cases hlast : directory.toList.getLast? = some '/'
    · -- the slash that the directory ends in stands between
      obtain ⟨front, hfront⟩ := List.getLast?_eq_some_iff.1 hlast
      have hdirectory : directory = String.ofList (front ++ ['/']) := by
        rw [← hfront, String.ofList_toList]
      have hstem : stem directory = names (String.ofList front) := by
        rw [hdirectory, stem_of_append (names_slash front), if_pos rfl]
      rw [hlast, hstem]
      show names (directory ++ path) = _
      rw [names, String.toList_append, hfront, List.append_assoc, List.singleton_append,
        splitSlashes_append, List.map_append, names, String.toList_ofList]
      rfl
    · rw [stem_of_no_slash hempty hlast, if_neg Bool.false_ne_true,
        if_neg (by simpa using hlast)]
      have htext : (directory ++ "/" ++ path).toList =
          directory.toList ++ '/' :: path.toList := by
        simp
      rw [names, htext, splitSlashes_append, List.map_append]
      rfl

theorem isAbsolute_join : isAbsolute (join directory path) = isAbsolute directory := by
  by_cases hempty : directory = ""
  · subst hempty
    have hjoin : join "" path = path := by
      apply names_injective
      rw [names_join hpath]
      rfl
    rw [hjoin, hpath]
    rfl
  · have hne : directory.toList ≠ [] := fun h => hempty (String.toList_eq_nil_iff.1 h)
    have hhead (rest : List Char) :
        (directory.toList ++ rest).head? = directory.toList.head? := by
      rw [List.head?_append, List.head?_eq_some_head hne]
      rfl
    have hrelative : (path.toList.head? == some '/') = false := hpath
    rw [join, hrelative, if_neg Bool.false_ne_true]
    split
    · rw [isAbsolute, String.toList_append, hhead, isAbsolute]
    · rw [isAbsolute, String.append_assoc, String.toList_append, hhead, isAbsolute]

theorem stem_join : stem (join directory path) = stem directory ++ stem path := by
  rcases List.eq_nil_or_concat (names path) with hnil | ⟨front, last, hnames⟩
  · exact absurd hnil (names_ne_nil path)
  · rw [List.concat_eq_append] at hnames
    have hjoined : names (join directory path) = (stem directory ++ front) ++ [last] := by
      rw [names_join hpath, hnames, List.append_assoc]
    rw [stem_of_append hjoined, stem_of_append hnames]
    split
    · rfl
    · rw [List.append_assoc]

/-- The parts of a joined path are those of the directory and then its own
names. -/
theorem pathParts_join :
    pathParts (join directory path) = pathParts directory ++ stem path := by
  have hstem := @stem_join directory path hpath
  rw [stem_eq_pathParts, stem_eq_pathParts directory, isAbsolute_join hpath,
    List.append_assoc] at hstem
  exact List.append_cancel_left hstem

theorem join_ne_empty (hdirectory : directory ≠ "") : join directory path ≠ "" := by
  intro h
  have hne : directory.toList ≠ [] := fun h => hdirectory (String.toList_eq_nil_iff.1 h)
  have hrelative : (path.toList.head? == some '/') = false := hpath
  rw [join, hrelative, if_neg Bool.false_ne_true] at h
  split at h
  · exact hdirectory (String.append_eq_empty_iff.1 h).1
  · exact hdirectory (String.append_eq_empty_iff.1 (String.append_eq_empty_iff.1 h).1).1

end Join

/-! ### Components -/

/-- The components that names stand for behind the front of a path. -/
def stepsOf (names : List String) : List Component :=
  names.filterMap fun name => component? name.toList

theorem stepsOf_append (names names' : List String) :
    stepsOf (names ++ names') = stepsOf names ++ stepsOf names' :=
  List.filterMap_append

theorem stepsOf_names (path : String) :
    stepsOf (names path) = (splitSlashes path.toList).filterMap component? := by
  rw [stepsOf, names, List.filterMap_map]
  congr 1
  funext part
  rw [Function.comp_apply, String.toList_ofList]

/-- The component that a path starts with whatever its steps are: the root, or
the `.` at its front. -/
def frontOf (path : String) : List Component :=
  if isAbsolute path then [.root] else
    if (names path).head? = some "." then [.here] else []

theorem components_eq (path : String) :
    components path = frontOf path ++ stepsOf (names path) := by
  rw [components, stepsOf_names, frontOf]
  congr 1
  rcases hcs : path.toList with - | ⟨c, cs⟩
  · rw [isAbsolute, names, hcs]
    rfl
  · by_cases hslash : c = '/'
    · subst hslash
      have habsolute : isAbsolute path = true := by rw [isAbsolute, hcs]; rfl
      rw [habsolute]
      rfl
    · have habsolute : isAbsolute path = false := by
        rw [isAbsolute, hcs]
        simpa using hslash
      have hhead : (names path).head? = some "." ↔
          (splitSlashes (c :: cs)).head? = some ['.'] := by
        rw [names, hcs, List.head?_map, Option.map_eq_some_iff]
        constructor
        · rintro ⟨part, hpart, hdot⟩
          have hpart' : part = ['.'] := String.ofList_inj.1 hdot
          rw [hpart, hpart']
        · intro h
          exact ⟨['.'], h, rfl⟩
      rw [habsolute, if_neg Bool.false_ne_true]
      split
      · next heq => exact absurd (List.cons.inj heq).1 hslash
      · next hparts _ => rw [if_pos (hhead.2 (by rw [hparts]; rfl))]
      · next hother hdot =>
        rw [if_neg]
        intro h
        have hfirst := hhead.1 h
        rcases hparts : splitSlashes (c :: cs) with - | ⟨first, rest⟩
        · exact splitSlashes_ne_nil _ hparts
        · rw [hparts] at hfirst
          obtain rfl : first = ['.'] := Option.some.inj hfirst
          exact hdot rest hparts

/-- An empty last name is no step. -/
theorem stepsOf_stem (path : String) : stepsOf (stem path) = stepsOf (names path) := by
  rcases List.eq_nil_or_concat (names path) with hnil | ⟨front, last, hnames⟩
  · exact absurd hnil (names_ne_nil path)
  · rw [List.concat_eq_append] at hnames
    rw [stem_of_append hnames, hnames]
    split
    · next hlast =>
      subst hlast
      rw [stepsOf_append]
      exact (List.append_nil _).symm
    · rfl

theorem stem_ne_nil {path : String} (h : path ≠ "") : stem path ≠ [] := by
  rcases List.eq_nil_or_concat (names path) with hnil | ⟨front, last, hnames⟩
  · exact absurd hnil (names_ne_nil path)
  · rw [List.concat_eq_append] at hnames
    rw [stem_of_append hnames]
    split
    · next hlast =>
      rintro rfl
      refine h (names_injective ?_)
      rw [hnames, hlast]
      rfl
    · exact List.append_ne_nil_of_right_ne_nil _ (List.cons_ne_nil _ _)

theorem head?_stem {path : String} (h : path ≠ "") :
    (stem path).head? = (names path).head? := by
  have hne := stem_ne_nil h
  rw [stem_eq] at hne ⊢
  split
  · next hlast =>
    rw [if_pos hlast] at hne
    rcases hnames : names path with - | ⟨first, _ | ⟨next, rest⟩⟩
    · exact absurd hnames (names_ne_nil path)
    · rw [hnames] at hne
      exact absurd rfl hne
    · rfl
  · rfl

/-- What stands behind a path does not change its front. -/
theorem frontOf_of_stem {path next : String} {rest : List String} (hpath : path ≠ "")
    (habsolute : isAbsolute next = isAbsolute path)
    (hnames : names next = stem path ++ rest) :
    frontOf next = frontOf path := by
  have hhead : (names next).head? = (names path).head? := by
    rw [hnames, List.head?_append, ← head?_stem hpath,
      List.head?_eq_some_head (stem_ne_nil hpath)]
    rfl
  rw [frontOf, frontOf, habsolute, hhead]

theorem frontOf_join {directory path : String} (hdirectory : directory ≠ "")
    (hpath : isAbsolute path = false) :
    frontOf (join directory path) = frontOf directory :=
  frontOf_of_stem hdirectory (isAbsolute_join hpath) (names_join hpath)

/-- A path joined to a directory has the components of the directory and then
its own steps. -/
theorem components_join {directory path : String} (hdirectory : directory ≠ "")
    (hpath : isAbsolute path = false) :
    components (join directory path) = components directory ++ stepsOf (names path) := by
  rw [components_eq, components_eq, frontOf_join hdirectory hpath, names_join hpath,
    stepsOf_append, stepsOf_stem, List.append_assoc]

/-! ### Paths of a pattern -/

open Glob (under)

/-- The names that stand in front of what `under` puts behind a directory. -/
def underStem (directory : String) : List String :=
  if components directory = [.here] then [] else stem directory

/-- A path that is the current directory is not absolute, and its names are no
steps. -/
theorem of_components_here {path : String} (h : components path = [.here]) :
    isAbsolute path = false ∧ (names path).all isIdle = true := by
  rw [components_eq, frontOf] at h
  have hidle (hsteps : stepsOf (names path) = []) : (names path).all isIdle = true := by
    rw [stepsOf, List.filterMap_eq_nil_iff] at hsteps
    refine List.all_eq_true.2 fun name hname => ?_
    have hidle := isIdle_of_component? (hsteps name hname)
    rwa [String.ofList_toList] at hidle
  split at h
  · cases h
  · next habsolute =>
    refine ⟨Bool.eq_false_iff.2 habsolute, ?_⟩
    split at h
    · exact hidle (List.cons.inj h).2
    · -- the steps behind no front are no `.`
      have hmem : Component.here ∈ stepsOf (names path) := by
        rw [List.nil_append] at h
        rw [h]
        exact List.mem_singleton_self _
      obtain ⟨name, -, hname⟩ := List.mem_filterMap.1 hmem
      unfold component? at hname
      split at hname <;> cases hname

theorem names_under {directory path : String} (hpath : isAbsolute path = false) :
    names (under directory path) = underStem directory ++ names path := by
  rw [under, underStem]
  by_cases hhere : components directory = [.here]
  · rw [if_pos (by rw [hhere]; rfl), if_pos hhere]
    rfl
  · rw [if_neg (by simpa using hhere), if_neg hhere, names_join hpath]

theorem under_ne_empty {directory name : String} (hname : '/' ∉ name.toList)
    (hsome : name ≠ "") :
    under directory name ≠ "" := by
  intro hempty
  have hnames := @names_under directory _ (isAbsolute_of_not_mem hname)
  rw [hempty, names_of_not_mem hname] at hnames
  have hlast := congrArg List.getLast? hnames
  rw [List.getLast?_concat] at hlast
  exact hsome (Option.some.inj hlast).symm

theorem isAbsolute_under {directory path : String} (hpath : isAbsolute path = false) :
    isAbsolute (under directory path) = isAbsolute directory := by
  rw [under]
  by_cases hhere : components directory = [.here]
  · rw [if_pos (by rw [hhere]; rfl), hpath, (of_components_here hhere).1]
  · rw [if_neg (by simpa using hhere), isAbsolute_join hpath]

/-- The names of a path are its stem and an empty last one, if there is one. -/
theorem exists_idle_stem (path : String) :
    ∃ idle, names path = stem path ++ idle ∧ idle.all isIdle = true := by
  rcases List.eq_nil_or_concat (names path) with hnil | ⟨front, last, hnames⟩
  · exact absurd hnil (names_ne_nil path)
  · rw [List.concat_eq_append] at hnames
    rw [stem_of_append hnames, hnames]
    split
    · next hlast => exact ⟨[last], rfl, by rw [hlast]; rfl⟩
    · exact ⟨[], (List.append_nil _).symm, rfl⟩

/-- The names of a directory are those that `under` keeps and some that stand
for no step. -/
theorem exists_idle_underStem (directory : String) :
    ∃ idle, names directory = underStem directory ++ idle ∧ idle.all isIdle = true := by
  rw [underStem]
  split
  · next hhere => exact ⟨names directory, rfl, (of_components_here hhere).2⟩
  · exact exists_idle_stem directory

/-- A path that ends in a proper name is not the current directory, and `under`
keeps all of it. -/
theorem underStem_of_proper {path name : String} {front : List String}
    (h : names path = front ++ [name]) (hname : isProperName name = true) :
    underStem path = names path := by
  have hhere : components path ≠ [.here] := by
    intro hhere
    have hidle := (of_components_here hhere).2
    rw [h, List.all_append, Bool.and_eq_true, List.all_cons,
      (isProperName_iff.1 hname).1] at hidle
    exact Bool.false_ne_true hidle.2
  have hsome : name ≠ "" := by
    rintro rfl
    cases hname
  rw [underStem, if_neg hhere, stem_of_append h, if_neg hsome, h]

end AnimLint.Files
