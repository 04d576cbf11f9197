/-
AnimLint/Proofs/Walks.lean

Where the files that a walk lists are.  In a tree with proper names, each once
in its directory (`Node.isWellNamed`), a path joined from directory to entry
leads to that entry (`locate_join`), so a listed file lies under the name that
its path ends in (`HasOwnName`), even if the path goes through links: a walk
does not list links, and no link is followed at the end of a path to a file that
a walk starts from (`hasOwnName_of_locate`).  Two listed paths that lead to one
file therefore have the same extension, and the file is read in one dialect
under both (`HasOwnName.dialectOf_eq`).
-/
import AnimLint.Check
import AnimLint.Proofs.Places
import AnimLint.Survey

namespace AnimLint

namespace Files

/-! ### Names -/

/-- Holds of the names that something in a directory can have. -/
def isProperName (name : String) : Bool :=
  name != "" && name != "." && name != ".." && !name.toList.contains '/'

namespace Node

mutual

/-- Holds of trees in which all names are proper, and each stands once in its
directory. -/
def isWellNamed : Node → Bool
  | file _ => true
  | directory entries => areWellNamed entries
  | link _ => true

/-- The same of the entries of a directory. -/
def areWellNamed : List (String × Node) → Bool
  | [] => true
  | (name, node) :: rest =>
    isProperName name && (rest.lookup name).isNone && node.isWellNamed &&
    areWellNamed rest

end

/-- An entry of a well-named directory is the one that its name stands for. -/
theorem lookup_of_areWellNamed {entries : List (String × Node)}
    (h : areWellNamed entries = true)
    {name : String} {node : Node} (hmem : (name, node) ∈ entries) :
    isProperName name = true ∧ entries.lookup name = some node ∧
    node.isWellNamed = true := by
  induction entries with
  | nil => cases hmem
  | cons entry rest ih =>
    obtain ⟨first, child⟩ := entry
    simp only [areWellNamed, Bool.and_eq_true] at h
    obtain ⟨⟨⟨hproper, hfresh⟩, hchild⟩, hrest⟩ := h
    rw [lookup_cons_eq]
    rcases List.mem_cons.1 hmem with heq | hmem
    · obtain ⟨rfl, rfl⟩ := Prod.mk.inj heq
      exact ⟨hproper, if_pos rfl, hchild⟩
    · obtain ⟨hname, hlookup, hnode⟩ := ih hrest hmem
      refine ⟨hname, ?_, hnode⟩
      rw [if_neg, hlookup]
      rintro rfl
      rw [hlookup] at hfresh
      cases hfresh

theorem mem_of_lookup {entries : List (String × Node)} {name : String} {node : Node}
    (h : entries.lookup name = some node) : (name, node) ∈ entries := by
  obtain ⟨before, after, rfl, -⟩ := List.lookup_eq_some_iff.1 h
  exact List.mem_append_right before List.mem_cons_self

theorem isWellNamed_of_descend {root node : Node} {place : List String}
    (hroot : root.isWellNamed = true) (h : root.descend? place = some node) :
    node.isWellNamed = true := by
  induction place generalizing root with
  | nil =>
    obtain rfl := Option.some.inj h
    exact hroot
  | cons name rest ih =>
    obtain ⟨entries, child, rfl, hchild, hrest⟩ := child_of_descend h
    exact ih (lookup_of_areWellNamed hroot (mem_of_lookup hchild)).2.2 hrest

theorem descend?_append (node : Node) (place rest : List String) :
    node.descend? (place ++ rest) = (node.descend? place).bind (·.descend? rest) := by
  induction place generalizing node with
  | nil => rfl
  | cons name place ih =>
    rw [List.cons_append, descend?, descend?, Option.bind_assoc]
    exact Option.bind_congr fun child _ => ih child

/-- What lies under a name lies in a directory. -/
theorem directory_of_descend {root node : Node} {place : List String} {name : String}
    (h : root.descend? (place ++ [name]) = some node) :
    ∃ entries, root.descend? place = some (directory entries) := by
  rw [descend?_append] at h
  obtain ⟨parent, hparent, hchild⟩ := Option.bind_eq_some_iff.1 h
  obtain ⟨entries, -, rfl, -⟩ := child_of_descend hchild
  exact ⟨entries, hparent⟩

/-- The parent of a directory is a directory, and the root is its own parent. -/
theorem directory_dropLast {root : Node} {place : List String}
    {entries : List (String × Node)}
    (h : root.descend? place = some (directory entries)) :
    ∃ entries', root.descend? place.dropLast = some (directory entries') := by
  rcases List.eq_nil_or_concat place with rfl | ⟨parents, name, rfl⟩
  · exact ⟨entries, h⟩
  · rw [List.concat_eq_append] at h
    rw [List.concat_eq_append, List.dropLast_concat]
    exact directory_of_descend h

/-- What lies in a directory lies in the root, so a link in it starts from a
directory. -/
theorem directory_start {root : Node} {place : List String}
    {entries : List (String × Node)}
    (h : root.descend? place = some (directory entries)) (absolute : Bool) :
    ∃ entries', root.descend? (if absolute then [] else place) =
      some (directory entries') := by
  cases absolute with
  | false => exact ⟨entries, h⟩
  | true =>
    cases place with
    | nil => exact ⟨entries, h⟩
    | cons name rest =>
      obtain ⟨entries', -, hroot, -⟩ := child_of_descend h
      exact ⟨entries', congrArg some hroot⟩

/-- Holds of links. -/
def isLink : Node → Bool
  | link _ => true
  | _ => false

end Node

/-! ### Following paths to their ends -/

/-- Holds of names that stand for no step. -/
def isIdle (name : String) : Bool := name = "" || name = "."

/-- Where names lead from a directory, over so many links at most. -/
inductive Leads (root : Node) (through : Bool) :
    Nat → List String → List String → Place → Prop
  | here {n : Nat} {current : List String} :
      Leads root through n current [] ⟨current, root.descend? current⟩
  | idle {n : Nat} {current rest : List String} {name : String} {place : Place} :
      isIdle name = true → Leads root through n current rest place →
        Leads root through n current (name :: rest) place
  | up {n : Nat} {current rest : List String} {place : Place} :
      Leads root through n current.dropLast rest place →
        Leads root through n current (".." :: rest) place
  | absent {n : Nat} {current : List String} {name : String} :
      isIdle name = false → name ≠ ".." → root.descend? (current ++ [name]) = none →
        Leads root through n current [name] ⟨current ++ [name], none⟩
  | enter {n : Nat} {current rest : List String} {name : String} {place : Place}
      {entries : List (String × Node)} :
      isIdle name = false → name ≠ ".." →
        root.descend? (current ++ [name]) = some (.directory entries) →
        Leads root through n (current ++ [name]) rest place →
        Leads root through n current (name :: rest) place
  | file {n : Nat} {current : List String} {name : String} {content : Content} :
      isIdle name = false → name ≠ ".." →
        root.descend? (current ++ [name]) = some (.file content) →
        Leads root through n current [name] ⟨current ++ [name], some (.file content)⟩
  | stop {n : Nat} {current : List String} {name target : String} :
      through = false → isIdle name = false → name ≠ ".." →
        root.descend? (current ++ [name]) = some (.link target) →
        Leads root through n current [name] ⟨current ++ [name], some (.link target)⟩
  | link {n : Nat} {current rest : List String} {name target : String} {place : Place} :
      (rest.isEmpty && !through) = false → isIdle name = false → name ≠ ".." →
        root.descend? (current ++ [name]) = some (.link target) →
        Leads root through n (if isAbsolute target then [] else current)
          (Files.names target ++ rest)
          place →
        Leads root through (n + 1) current (name :: rest) place

section Follow

variable {root : Node} {through : Bool} {n : Nat} {current names : List String}
  {place : Place}

theorem leads_of_followNames
    {onward : List String → List String → Except AccessError Place}
    (honward : ∀ {current names place}, onward current names = .ok place →
      ∃ m, n = m + 1 ∧ Leads root through m current names place)
    (h : followNames root through onward current names = .ok place) :
    Leads root through n current names place := by
  -- along the names, case by case as they are followed; only a link goes on
  -- elsewhere
  induction names generalizing current with
  | nil =>
    obtain rfl := Except.ok.inj h
    exact .here
  | cons name rest ih =>
    rw [followNames] at h
    split at h
    · next hidle => exact .idle hidle (ih h)
    · next hstep =>
      have hidle : isIdle name = false := Bool.eq_false_iff.2 hstep
      split at h
      · next hup =>
        subst hup
        exact .up (ih h)
      · next hup =>
        simp only at h
        split at h
        · next hnone =>
          split at h
          · next hrest =>
            obtain rfl := Except.ok.inj h
            rw [List.isEmpty_iff] at hrest
            subst hrest
            exact .absent hidle hup hnone
          · cases h
        · next hdirectory => exact .enter hidle hup hdirectory (ih h)
        · next hfile =>
          split at h
          · next hrest =>
            obtain rfl := Except.ok.inj h
            rw [List.isEmpty_iff] at hrest
            subst hrest
            exact .file hidle hup hfile
          · cases h
        · next hlink =>
          split at h
          · next hstop =>
            obtain rfl := Except.ok.inj h
            rw [Bool.and_eq_true, List.isEmpty_iff, Bool.not_eq_true'] at hstop
            obtain ⟨rfl, hthrough⟩ := hstop
            exact .stop hthrough hidle hup hlink
          · next hgo =>
            obtain ⟨m, rfl, hplace⟩ := honward h
            exact .link (Bool.eq_false_iff.2 hgo) hidle hup hlink hplace

theorem leads_of_follow (h : follow root through n current names = .ok place) :
    Leads root through n current names place := by
  induction n generalizing current names place with
  | zero =>
    -- no link may be followed any more
    refine leads_of_followNames (fun honward => ?_) h
    cases honward
  | succ n ih => exact leads_of_followNames (fun honward => ⟨n, rfl, ih honward⟩) h

/-- How a path goes on after a link. -/
def onwardOf (root : Node) (through : Bool) :
    Nat → List String → List String → Except AccessError Place
  | 0 => fun _ _ => .error .tooManyLinks
  | n + 1 => follow root through n

theorem follow_eq (n : Nat) :
    follow root through n = followNames root through (onwardOf root through n) := by
  cases n <;> rfl

theorem followNames_idle {onward : List String → List String → Except AccessError Place}
    {rest : List String} {name : String} (hidle : isIdle name = true) :
    followNames root through onward current (name :: rest) =
      followNames root through onward current rest := by
  rw [followNames]
  exact if_pos hidle

theorem followNames_step {onward : List String → List String → Except AccessError Place}
    {rest : List String} {name : String} (hidle : isIdle name = false)
    (hup : name ≠ "..") :
    followNames root through onward current (name :: rest) =
      match root.descend? (current ++ [name]) with
      | none => if rest.isEmpty then .ok ⟨current ++ [name], none⟩ else .error .notFound
      | some (.directory _) => followNames root through onward (current ++ [name]) rest
      | some (.file content) =>
        if rest.isEmpty then .ok ⟨current ++ [name], some (.file content)⟩ else
          .error .notDirectory
      | some (.link target) =>
        if rest.isEmpty && !through then .ok ⟨current ++ [name], some (.link target)⟩
        else onward (if isAbsolute target then [] else current)
          (Files.names target ++ rest) := by
  rw [followNames]
  exact (if_neg (Bool.eq_false_iff.1 hidle)).trans (if_neg hup)

theorem follow_of_leads (h : Leads root through n current names place) :
    follow root through n current names = .ok place := by
  induction h with
  | here =>
    rw [follow_eq]
    rfl
  | idle hidle _ ih =>
    rw [follow_eq, followNames_idle hidle, ← follow_eq]
    exact ih
  | up _ ih =>
    rw [follow_eq, followNames, if_neg (by decide), if_pos rfl, ← follow_eq]
    exact ih
  | absent hidle hup hnone =>
    rw [follow_eq, followNames_step hidle hup, hnone]
    rfl
  | enter hidle hup hdirectory _ ih =>
    rw [follow_eq, followNames_step hidle hup, hdirectory, ← follow_eq]
    exact ih
  | file hidle hup hfile =>
    rw [follow_eq, followNames_step hidle hup, hfile]
    rfl
  | stop hthrough hidle hup hlink =>
    rw [follow_eq, followNames_step hidle hup, hlink, hthrough]
    rfl
  | link hgo hidle hup hlink _ ih =>
    rw [follow_eq, followNames_step hidle hup, hlink]
    simp only [hgo]
    exact ih

/-- What is no link is reached as well if links at the end of a path are
followed. -/
theorem Leads.followed (h : Leads root false n current names place)
    (hlink : place.node.all (!·.isLink) = true) :
    Leads root true n current names place := by
  induction h with
  | here => exact .here
  | idle hidle _ ih => exact .idle hidle (ih hlink)
  | up _ ih => exact .up (ih hlink)
  | absent hidle hup hnone => exact .absent hidle hup hnone
  | enter hidle hup hdirectory _ ih => exact .enter hidle hup hdirectory (ih hlink)
  | file hidle hup hfile => exact .file hidle hup hfile
  | stop => cases hlink
  | link _ hidle hup hlink' _ ih =>
    exact .link (Bool.and_false _) hidle hup hlink' (ih hlink)

theorem not_all_isIdle {name : String} {rest : List String}
    (hstep : isIdle name = false) :
    (name :: rest).all isIdle ≠ true := by
  rw [List.all_cons, hstep]
  exact Bool.false_ne_true

/-- Names that stand for no step lead nowhere else. -/
theorem Leads.of_idle {idle : List String} (h : Leads root through n current idle place)
    (hidle : idle.all isIdle = true) : place = ⟨current, root.descend? current⟩ := by
  induction idle with
  | nil =>
    cases h
    rfl
  | cons name rest ih =>
    cases h with
    | idle _ hrest => exact ih hrest (List.all_eq_true.2 fun other hother =>
        List.all_eq_true.1 hidle other (List.mem_cons_of_mem name hother))
    | up => exact absurd hidle (not_all_isIdle rfl)
    | absent hstep => exact absurd hidle (not_all_isIdle hstep)
    | enter hstep => exact absurd hidle (not_all_isIdle hstep)
    | file hstep => exact absurd hidle (not_all_isIdle hstep)
    | stop _ hstep => exact absurd hidle (not_all_isIdle hstep)
    | link _ hstep => exact absurd hidle (not_all_isIdle hstep)

/-- From a directory the name of an entry leads to the entry. -/
theorem leads_child {name : String} {child : Node} {entries : List (String × Node)}
    (hidle : isIdle name = false) (hup : name ≠ "..")
    (hdirectory : root.descend? current = some (.directory entries))
    (hchild : entries.lookup name = some child) (hlink : child.isLink = false) :
    Leads root through n current [name] ⟨current ++ [name], some child⟩ := by
  have hfound : root.descend? (current ++ [name]) = some child := by
    rw [Node.descend?_append, hdirectory]
    show (entries.lookup name).bind _ = _
    rw [hchild]
    rfl
  cases child with
  | file content => exact .file hidle hup hfound
  | directory entries' =>
    have hhere := @Leads.here root through n (current ++ [name])
    rw [hfound] at hhere
    exact .enter hidle hup hfound hhere
  | link target => cases hlink

/-- If a path leads to a directory, then with the name of an entry at its end it
leads to the entry. -/
theorem Leads.child {front idle found : List String} {name : String} {child : Node}
    {entries : List (String × Node)}
    (h : Leads root true n current (front ++ idle) ⟨found, some (.directory entries)⟩)
    (hfront : idle.all isIdle = true) (hidle : isIdle name = false) (hup : name ≠ "..")
    (hchild : entries.lookup name = some child) (hlink : child.isLink = false) :
    Leads root true n current (front ++ [name]) ⟨found ++ [name], some child⟩ := by
  -- the induction is on the way, which knows the names as a whole
  generalize hnames : front ++ idle = names at h
  generalize hplace : Place.mk found (some (Node.directory entries)) = place at h
  induction h generalizing front idle with
  | here =>
    obtain ⟨rfl, rfl⟩ := List.append_eq_nil_iff.1 hnames
    obtain ⟨rfl, hdirectory⟩ := Place.mk.inj hplace
    exact leads_child hidle hup hdirectory.symm hchild hlink
  | idle hfirst _ ih =>
    cases front with
    | nil =>
      subst hnames
      rw [List.all_cons, Bool.and_eq_true] at hfront
      exact @ih [] _ hfront.2 rfl hplace
    | cons first front =>
      obtain ⟨rfl, rfl⟩ := List.cons.inj hnames
      exact .idle hfirst (ih hfront rfl hplace)
  | up _ ih =>
    cases front with
    | nil =>
      subst hnames
      cases hfront
    | cons first front =>
      obtain ⟨rfl, rfl⟩ := List.cons.inj hnames
      exact .up (ih hfront rfl hplace)
  | absent => cases hplace
  | enter hstep hstep' hdirectory _ ih =>
    cases front with
    | nil =>
      subst hnames
      exact absurd hfront (not_all_isIdle hstep)
    | cons first front =>
      obtain ⟨rfl, rfl⟩ := List.cons.inj hnames
      exact .enter hstep hstep' hdirectory (ih hfront rfl hplace)
  | file => cases hplace
  | stop => cases hplace
  | link _ hstep hstep' htarget _ ih =>
    cases front with
    | nil =>
      subst hnames
      exact absurd hfront (not_all_isIdle hstep)
    | cons first front =>
      obtain ⟨rfl, rfl⟩ := List.cons.inj hnames
      have hrest := ih hfront (List.append_assoc _ _ _) hplace
      rw [List.append_assoc] at hrest
      exact .link (Bool.and_false _) hstep hstep' htarget hrest

/-- Names that lead nowhere further lead to no file, if they are at the end of a
path. -/
theorem Leads.not_file {front idle found : List String} {content : Content}
    {entries : List (String × Node)}
    (h : Leads root through n current (front ++ idle) ⟨found, some (.file content)⟩)
    (hidle : idle.all isIdle = true) (hsome : idle ≠ [])
    (hcurrent : root.descend? current = some (.directory entries)) : False := by
  generalize hnames : front ++ idle = names at h
  generalize hplace : Place.mk found (some (Node.file content)) = place at h
  induction h generalizing front entries with
  | here => exact hsome (List.append_eq_nil_iff.1 hnames).2
  | idle hfirst hrest ih =>
    cases front with
    | nil =>
      subst hnames hplace
      have hstays := (Leads.idle hfirst hrest).of_idle hidle
      rw [hcurrent] at hstays
      cases hstays
    | cons first front =>
      obtain ⟨rfl, rfl⟩ := List.cons.inj hnames
      exact ih hcurrent rfl hplace
  | up _ ih =>
    cases front with
    | nil =>
      subst hnames
      cases hidle
    | cons first front =>
      obtain ⟨rfl, rfl⟩ := List.cons.inj hnames
      obtain ⟨entries', hparent⟩ := Node.directory_dropLast hcurrent
      exact ih hparent rfl hplace
  | absent => cases hplace
  | enter hstep _ hdirectory _ ih =>
    cases front with
    | nil =>
      subst hnames
      exact absurd hidle (not_all_isIdle hstep)
    | cons first front =>
      obtain ⟨rfl, rfl⟩ := List.cons.inj hnames
      exact ih hdirectory rfl hplace
  | file hstep =>
    cases front with
    | nil =>
      subst hnames
      exact absurd hidle (not_all_isIdle hstep)
    | cons first front =>
      obtain ⟨rfl, hnil⟩ := List.cons.inj hnames
      exact hsome (List.append_eq_nil_iff.1 hnil).2
  | stop => cases hplace
  | link _ hstep _ _ _ ih =>
    cases front with
    | nil =>
      subst hnames
      exact absurd hidle (not_all_isIdle hstep)
    | cons first front =>
      obtain ⟨rfl, rfl⟩ := List.cons.inj hnames
      obtain ⟨entries', hstart⟩ := Node.directory_start hcurrent _
      exact ih hstart (List.append_assoc _ _ _) hplace

/-- A path to a file under its own name leads to a place of that name. -/
theorem Leads.getLast?_eq {front idle found : List String} {name : String}
    {content : Content}
    (h : Leads root false n current (front ++ name :: idle) ⟨found, some (.file content)⟩)
    (hidle : idle.all isIdle = true) (hstep : isIdle name = false) (hup : name ≠ "..") :
    found.getLast? = some name := by
  generalize hnames : front ++ name :: idle = names at h
  generalize hplace : Place.mk found (some (Node.file content)) = place at h
  induction h generalizing front with
  | here => exact absurd hnames (by simp)
  | idle hfirst _ ih =>
    cases front with
    | nil =>
      obtain ⟨rfl, -⟩ := List.cons.inj hnames
      rw [hfirst] at hstep
      cases hstep
    | cons first front => exact ih (List.cons.inj hnames).2 hplace
  | up _ ih =>
    cases front with
    | nil => exact absurd (List.cons.inj hnames).1 hup
    | cons first front => exact ih (List.cons.inj hnames).2 hplace
  | absent => cases hplace
  | enter _ _ hdirectory hrest ih =>
    cases front with
    | nil =>
      -- a directory stays one, whatever idle names follow
      obtain ⟨rfl, rfl⟩ := List.cons.inj hnames
      subst hplace
      have hstays := hrest.of_idle hidle
      rw [hdirectory] at hstays
      cases hstays
    | cons first front => exact ih (List.cons.inj hnames).2 hplace
  | file =>
    cases front with
    | nil =>
      obtain ⟨rfl, -⟩ := List.cons.inj hnames
      obtain ⟨rfl, -⟩ := Place.mk.inj hplace
      exact List.getLast?_concat ..
    | cons first front => exact absurd (List.cons.inj hnames).2 (by simp)
  | stop => cases hplace
  | link hgo _ _ htarget hrest ih =>
    cases front with
    | nil =>
      -- a link at the end is not followed, and behind one with idle names there
      -- is no file
      obtain ⟨rfl, rfl⟩ := List.cons.inj hnames
      subst hplace
      have hsome : idle ≠ [] := by
        rintro rfl
        cases hgo
      obtain ⟨entries, hcurrent⟩ := Node.directory_of_descend htarget
      obtain ⟨entries', hstart⟩ := Node.directory_start hcurrent _
      exact (hrest.not_file hidle hsome hstart).elim
    | cons first front =>
      obtain ⟨-, rfl⟩ := List.cons.inj hnames
      exact ih (List.append_assoc _ _ _) hplace

end Follow

/-! ### The names in a path -/

theorem splitSlashes_ne_nil (s : List Char) : splitSlashes s ≠ [] := by
  induction s with
  | nil => exact List.cons_ne_nil _ _
  | cons c r ih =>
    rw [splitSlashes]
    split
    · exact List.cons_ne_nil _ _
    · split <;> exact List.cons_ne_nil _ _

theorem splitSlashes_append (s t : List Char) :
    splitSlashes (s ++ '/' :: t) = splitSlashes s ++ splitSlashes t := by
  induction s with
  | nil => rfl
  | cons c r ih =>
    rw [List.cons_append, splitSlashes, splitSlashes, ih]
    rcases hr : splitSlashes r with - | ⟨first, rest⟩
    · exact absurd hr (splitSlashes_ne_nil r)
    · by_cases hc : (c == '/') = true
      · rw [if_pos hc, if_pos hc]
        rfl
      · rw [if_neg hc, if_neg hc]
        rfl

theorem splitSlashes_of_not_mem {s : List Char} (h : '/' ∉ s) : splitSlashes s = [s] := by
  induction s with
  | nil => rfl
  | cons c r ih =>
    rw [List.mem_cons, not_or] at h
    rw [splitSlashes, ih h.2, if_neg]
    rw [beq_iff_eq]
    exact Ne.symm h.1

/-- The parts of a path that is joined with a name: those of the path, up to an
empty last one, and the name. -/
theorem splitSlashes_join {path name : String} (hpath : path ≠ "")
    (hname : '/' ∉ name.toList) :
    (join path name).toList.head? = path.toList.head? ∧
      ∃ front idle : List (List Char), splitSlashes path.toList = front ++ idle ∧
        idle.all List.isEmpty = true ∧
        splitSlashes (join path name).toList = front ++ [name.toList] := by
  have hsome : path.toList ≠ [] := fun h => hpath (String.toList_eq_nil_iff.1 h)
  have hrelative : (name.toList.head? == some '/') = false := by
    refine Bool.eq_false_iff.2 fun hslash => hname ?_
    exact List.mem_of_mem_head? (beq_iff_eq.1 hslash)
  have hempty : path.isEmpty = false := by simpa using hpath
  have hhead (rest : List Char) : (path.toList ++ rest).head? = path.toList.head? := by
    rw [List.head?_append, List.head?_eq_some_head hsome]
    rfl
  rw [join, hrelative, hempty, Bool.false_or]
  -- a slash is put between unless the path ends in one
  rcases hlast : path.toList.getLast? == some '/' with - | -
  · have hparts : (path ++ "/" ++ name).toList = path.toList ++ '/' :: name.toList := by
      simp
    refine ⟨?_, splitSlashes path.toList, [], (List.append_nil _).symm, rfl, ?_⟩
    · show (path ++ "/" ++ name).toList.head? = _
      rw [hparts, hhead]
    · show splitSlashes (path ++ "/" ++ name).toList = _
      rw [hparts, splitSlashes_append, splitSlashes_of_not_mem hname]
  · obtain ⟨front, hfront⟩ := List.getLast?_eq_some_iff.1 (beq_iff_eq.1 hlast)
    have hparts : (path ++ name).toList = front ++ '/' :: name.toList := by
      simp [hfront]
    refine ⟨?_, splitSlashes front, [[]], ?_, rfl, ?_⟩
    · show (path ++ name).toList.head? = _
      rw [String.toList_append, hhead]
    · rw [hfront, splitSlashes_append]
      rfl
    · show splitSlashes (path ++ name).toList = _
      rw [hparts, splitSlashes_append, splitSlashes_of_not_mem hname]

theorem isProperName_iff {name : String} :
    isProperName name = true ↔ isIdle name = false ∧ name ≠ ".." ∧ '/' ∉ name.toList := by
  simp [isProperName, isIdle, and_assoc]

theorem component?_of_proper {name : String} (h : isProperName name = true) :
    component? name.toList = some (.name name.toList) := by
  obtain ⟨hidle, hup, -⟩ := isProperName_iff.1 h
  have hne (other : String) (hother : name ≠ other) : name.toList ≠ other.toList :=
    fun heq => hother (String.toList_inj.1 heq)
  rw [isIdle, Bool.or_eq_false_iff, decide_eq_false_iff_not,
    decide_eq_false_iff_not] at hidle
  unfold component?
  split
  · next hnil => exact absurd hnil (hne "" hidle.1)
  · next hdot => exact absurd hdot (hne "." hidle.2)
  · next hdots => exact absurd hdots (hne ".." hup)
  · rfl

theorem isIdle_of_component? {part : List Char} (h : component? part = none) :
    isIdle (String.ofList part) = true := by
  unfold component? at h
  split at h <;> first | rfl | cases h

theorem isStep_of_component? {part name : List Char}
    (h : component? part = some (.name name)) :
    part = name ∧ isIdle (String.ofList part) = false ∧ String.ofList part ≠ ".." := by
  have hne (other : String) (hother : part ≠ other.toList) : String.ofList part ≠ other :=
    fun heq => hother (by rw [← heq, String.toList_ofList])
  unfold component? at h
  split at h
  · cases h
  · cases h
  · cases h
  · next hnil hdot hdots =>
    have hempty := hne "" hnil
    have hhere := hne "." hdot
    refine ⟨Component.name.inj (Option.some.inj h), ?_, hne ".." hdots⟩
    rw [isIdle, decide_eq_false hempty, decide_eq_false hhere]
    rfl

/-- A path that ends in a name goes through parts to the name, and no
further. -/
theorem fileName?_eq_some {path : String} {name : List Char}
    (h : fileName? path = some name) :
    component? name = some (.name name) ∧
      ∃ front idle : List (List Char), splitSlashes path.toList = front ++ name :: idle ∧
        ∀ part ∈ idle, component? part = none := by
  rcases hlast : ((splitSlashes path.toList).filterMap component?).getLast? with - | last
  · -- a path without parts ends in what it starts with, and that is no name
    unfold fileName? components at h
    simp only [List.getLast?_append, hlast, Option.none_or] at h
    split at h
    · next hfront => split at hfront <;> cases hfront
    · cases h
  · have hname : last = .name name := by
      unfold fileName? components at h
      simp only [List.getLast?_append, hlast, Option.some_or] at h
      split at h
      · next heq => rw [Option.some.inj heq, Option.some.inj h]
      · cases h
    rw [List.getLast?_filterMap, List.findSome?_eq_some_iff] at hlast
    obtain ⟨idle, part, front, hparts, hpart, hidle⟩ := hlast
    subst hname
    obtain ⟨rfl, -⟩ := isStep_of_component? hpart
    refine ⟨hpart, front.reverse, idle.reverse, ?_, ?_⟩
    · rw [← List.reverse_reverse (splitSlashes path.toList), hparts]
      simp
    · intro other hother
      exact hidle other (List.mem_reverse.1 hother)

theorem fileName?_join {path name : String} (hpath : path ≠ "")
    (hname : isProperName name = true) :
    fileName? (join path name) = some name.toList := by
  obtain ⟨-, front, idle, -, -, hparts⟩ :=
    splitSlashes_join hpath (isProperName_iff.1 hname).2.2
  have hlast : (front ++ [name.toList]).filterMap component? =
      front.filterMap component? ++ [.name name.toList] := by
    rw [List.filterMap_append, List.filterMap_cons, component?_of_proper hname]
    rfl
  unfold fileName? components
  simp only [hparts, hlast, ← List.append_assoc, List.getLast?_concat]

namespace FileSystem

/-- A path joined from directory to entry leads to the entry. -/
theorem locate_join {fs : FileSystem} {path name : String} {found : List String}
    {entries : List (String × Node)} {child : Node}
    (h : fs.locate true path = .ok ⟨found, some (.directory entries)⟩)
    (hname : isProperName name = true) (hchild : entries.lookup name = some child)
    (hlink : child.isLink = false) :
    fs.locate true (join path name) = .ok ⟨found ++ [name], some child⟩ := by
  obtain ⟨hidle, hup, hslash⟩ := isProperName_iff.1 hname
  unfold locate at h ⊢
  split at h
  · cases h
  · next hpath =>
    obtain ⟨hhead, front, idle, hparts, hempty, hjoined⟩ := splitSlashes_join hpath hslash
    have hsome : join path name ≠ "" := fun heq => by
      rw [heq] at hhead
      exact hpath (String.toList_eq_nil_iff.1 (List.head?_eq_none_iff.1 hhead.symm))
    have habsolute : isAbsolute (join path name) = isAbsolute path := by
      rw [isAbsolute, isAbsolute, hhead]
    have hends : (idle.map String.ofList).all isIdle = true := by
      rw [List.all_map]
      refine List.all_eq_true.2 fun part hpart => ?_
      have hnil := List.all_eq_true.1 hempty part hpart
      rw [List.isEmpty_iff] at hnil
      subst hnil
      rfl
    have hnames : names path = front.map String.ofList ++ idle.map String.ofList := by
      rw [names, hparts, List.map_append]
    have hnames' : names (join path name) = front.map String.ofList ++ [name] := by
      rw [names, hjoined, List.map_append, List.map_singleton, String.ofList_toList]
    rw [hnames] at h
    rw [if_neg hsome, habsolute, hnames']
    exact follow_of_leads ((leads_of_follow h).child hends hidle hup hchild hlink)

theorem locate_of_node {fs : FileSystem} {path : String} {node : Node}
    (h : fs.node path = .ok node) :
    ∃ found, fs.locate true path = .ok ⟨found, some node⟩ := by
  unfold FileSystem.node nodeOf at h
  split at h
  · cases h
  · next place hlocate =>
    split at h
    · next hnode =>
      obtain rfl := Except.ok.inj h
      exact ⟨place.names, hnode ▸ hlocate⟩
    · cases h

theorem locate_of_nodeOrLink {fs : FileSystem} {path : String} {node : Node}
    (h : fs.nodeOrLink path = .ok node) :
    ∃ found, fs.locate false path = .ok ⟨found, some node⟩ := by
  unfold nodeOrLink nodeOf at h
  split at h
  · cases h
  · next place hlocate =>
    split at h
    · next hnode =>
      obtain rfl := Except.ok.inj h
      exact ⟨place.names, hnode ▸ hlocate⟩
    · cases h

/-- What is no link is reached as well if links at the end of a path are
followed. -/
theorem locate_followed {fs : FileSystem} {path : String} {found : List String}
    {node : Node}
    (h : fs.locate false path = .ok ⟨found, some node⟩) (hlink : node.isLink = false) :
    fs.locate true path = .ok ⟨found, some node⟩ := by
  unfold locate at h ⊢
  split at h
  · cases h
  · next hpath =>
    rw [if_neg hpath]
    exact follow_of_leads ((leads_of_follow h).followed (by simp [hlink]))

/-- Holds if a path leads to a file of the name that the path ends in. -/
def HasOwnName (fs : FileSystem) (path : String) : Prop :=
  ∃ found name content, fs.locate true path = .ok ⟨found, some (.file content)⟩ ∧
    found.getLast? = some name ∧ fileName? path = some name.toList

/-- A path that leads to a file without a link at its end leads to a file of its
own name. -/
theorem hasOwnName_of_locate {fs : FileSystem} {path : String} {name : List Char}
    {found : List String} {content : Content}
    (h : fs.locate false path = .ok ⟨found, some (.file content)⟩)
    (hname : fileName? path = some name) : fs.HasOwnName path := by
  obtain ⟨hcomponent, front, idle, hparts, hidle⟩ := fileName?_eq_some hname
  obtain ⟨-, hstep, hup⟩ := isStep_of_component? hcomponent
  have hnames : names path =
      front.map String.ofList ++ String.ofList name :: idle.map String.ofList := by
    rw [names, hparts, List.map_append, List.map_cons]
  have hends : (idle.map String.ofList).all isIdle = true := by
    rw [List.all_map]
    exact List.all_eq_true.2 fun part hpart => isIdle_of_component? (hidle part hpart)
  refine ⟨found, String.ofList name, content, locate_followed h rfl, ?_,
    by rw [String.toList_ofList, hname]⟩
  unfold locate at h
  split at h
  · cases h
  · rw [hnames] at h
    exact (leads_of_follow h).getLast?_eq hends hstep hup

/-- A file entry of a directory has its own name. -/
theorem hasOwnName_join {fs : FileSystem} {path name : String} {found : List String}
    {entries : List (String × Node)} {content : Content}
    (h : fs.locate true path = .ok ⟨found, some (.directory entries)⟩)
    (hname : isProperName name = true)
    (hchild : entries.lookup name = some (.file content)) :
    fs.HasOwnName (join path name) := by
  have hpath : path ≠ "" := by
    rintro rfl
    cases h
  exact ⟨found ++ [name], name, content, locate_join h hname hchild rfl,
    List.getLast?_concat ..,
    fileName?_join hpath hname⟩

end FileSystem

/-! ### Walks -/

section Walk

variable {fs : FileSystem} {out wanted : String → Bool}

mutual

theorem hasOwnName_walkNode {path : String} {found : List String} {node : Node}
    (h : fs.locate true path = .ok ⟨found, some node⟩) (hnode : node.isWellNamed = true)
    (hfile : ∀ content, node = .file content → wanted path = true → fs.HasOwnName path) :
    ∀ file ∈ walkNode out wanted path node, fs.HasOwnName file := by
  intro file hmem
  cases node with
  | file content =>
    rw [walkNode] at hmem
    split at hmem
    · next hkept =>
      rw [Bool.and_eq_true] at hkept
      rw [List.mem_singleton] at hmem
      rw [hmem]
      exact hfile content rfl hkept.2
    · cases hmem
  | directory entries =>
    rw [walkNode] at hmem
    split at hmem
    · cases hmem
    · exact hasOwnName_walkEntries h
        (fun name child => Node.lookup_of_areWellNamed hnode) file hmem
  | link target => cases hmem

/-- The files among some entries of a directory and below them have their own
names. -/
theorem hasOwnName_walkEntries {path : String} {found : List String}
    {entries some' : List (String × Node)}
    (h : fs.locate true path = .ok ⟨found, some (.directory entries)⟩)
    (hentries : ∀ name child, (name, child) ∈ some' →
      isProperName name = true ∧ entries.lookup name = some child ∧
      child.isWellNamed = true) :
    ∀ file ∈ walkEntries out wanted path some', fs.HasOwnName file := by
  intro file hmem
  cases some' with
  | nil => cases hmem
  | cons entry rest =>
    obtain ⟨name, child⟩ := entry
    rw [walkEntries, List.mem_append] at hmem
    rcases hmem with hmem | hmem
    · obtain ⟨hname, hchild, hwell⟩ := hentries name child List.mem_cons_self
      rcases hlink : child.isLink with - | -
      · refine hasOwnName_walkNode (FileSystem.locate_join h hname hchild hlink)
          hwell ?_ file hmem
        rintro content rfl -
        exact FileSystem.hasOwnName_join h hname hchild
      · cases child with
        | link target => cases hmem
        | file content => cases hlink
        | directory entries' => cases hlink
    · exact hasOwnName_walkEntries h
        (fun name child hchild =>
          hentries name child (List.mem_cons_of_mem _ hchild)) file hmem

end

/-- The files that a walk lists have their own names, if it asks for paths that
end in a name. -/
theorem hasOwnName_walk {root : String} {files : List String}
    (hwanted : ∀ path, wanted path = true → ∃ name, fileName? path = some name)
    (hwell : fs.root.isWellNamed = true) (h : walk fs out wanted root = .ok files) :
    ∀ file ∈ files, fs.HasOwnName file := by
  have hnode {through : Bool} {found : List String} {node : Node}
      (h : fs.locate through root = .ok ⟨found, some node⟩) : node.isWellNamed = true :=
    Node.isWellNamed_of_descend hwell (FileSystem.node_of_locate h).symm
  unfold walk at h
  split at h
  · cases h
  · -- the root is a link, and what it leads to has entries only if it is a directory
    split at h
    · cases h
    · next node hroot =>
      obtain rfl := Except.ok.inj h
      obtain ⟨found, hlocate⟩ := FileSystem.locate_of_node hroot
      intro file hmem
      cases node with
      | directory entries =>
        exact hasOwnName_walkEntries hlocate
          (fun name child => Node.lookup_of_areWellNamed (hnode hlocate)) file hmem
      | file content => cases hmem
      | link target => cases hmem
  · next node hlink hroot =>
    obtain rfl := Except.ok.inj h
    obtain ⟨found, hlocate⟩ := FileSystem.locate_of_nodeOrLink hroot
    have hplain : node.isLink = false := by
      cases node with
      | link target => exact absurd rfl (hlink target)
      | file content => rfl
      | directory entries => rfl
    refine hasOwnName_walkNode (FileSystem.locate_followed hlocate hplain)
      (hnode hlocate) ?_
    rintro content rfl hkept
    obtain ⟨name, hname⟩ := hwanted root hkept
    exact FileSystem.hasOwnName_of_locate hlocate hname

end Walk

end Files

open Files

/-! ### Surveys -/

theorem mem_insertText {text other : String} {texts : List String} :
    other ∈ insertText text texts ↔ other = text ∨ other ∈ texts := by
  induction texts with
  | nil => simp [insertText]
  | cons first rest ih =>
    rw [insertText]
    split
    · exact List.mem_cons
    · split
      · next heq => simp [heq]
      · rw [List.mem_cons, ih, List.mem_cons]
        exact or_left_comm

theorem mem_sortedTexts {text : String} {texts : List String} :
    text ∈ sortedTexts texts ↔ text ∈ texts := by
  induction texts with
  | nil => exact Iff.rfl
  | cons first rest ih =>
    rw [sortedTexts, List.foldr_cons, mem_insertText, ← sortedTexts, ih, List.mem_cons]

theorem fileName?_of_isSource {path : String} (h : isSource path = true) :
    ∃ name, fileName? path = some name := by
  unfold isSource extension? at h
  rcases hname : fileName? path with - | name
  · rw [hname] at h
    cases h
  · exact ⟨name, rfl⟩

/-- The files of a survey have their own names. -/
theorem hasOwnName_survey {fs : FileSystem} {request : SurveyRequest} {file : String}
    (hwell : fs.root.isWellNamed = true) (h : file ∈ (survey fs request).files) :
    fs.HasOwnName file := by
  unfold survey at h
  simp only [mem_sortedTexts, List.mem_flatMap, List.mem_map] at h
  obtain ⟨walked, ⟨root, -, rfl⟩, hfile⟩ := h
  split at hfile
  · next files hwalk =>
    exact hasOwnName_walk (fun _ => fileName?_of_isSource) hwell hwalk file hfile
  · cases hfile

/-- Two names for one file, each of which is its own, stand for one dialect. -/
theorem Files.FileSystem.HasOwnName.dialectOf_eq {fs : FileSystem} {path path' : String}
    (h : fs.HasOwnName path) (h' : fs.HasOwnName path')
    (hsame : fs.sameFile path path' = true) :
    dialectOf path = dialectOf path' := by
  obtain ⟨found, name, content, hlocate, hlast, hname⟩ := h
  obtain ⟨found', name', content', hlocate', hlast', hname'⟩ := h'
  obtain ⟨place, hplace, hplace'⟩ := FileSystem.sameFile_iff.1 hsame
  rw [FileSystem.place?, hlocate] at hplace
  rw [FileSystem.place?, hlocate'] at hplace'
  obtain rfl := Option.some.inj hplace
  obtain rfl := Option.some.inj hplace'
  obtain rfl := Option.some.inj (hlast.symm.trans hlast')
  have hextension : extension? path = extension? path' := by
    rw [extension?, extension?, hname, hname']
  rw [dialectOf, dialectOf, hextension]

end AnimLint
