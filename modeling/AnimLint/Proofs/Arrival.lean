/-
AnimLint/Proofs/Arrival.lean

Paths that arrive at a directory.  Names lead from one directory to another over
some links, and then so many links are left (`Arrives`); what follows the names
is followed from there (`Arrives.follow_append`).  A path leads to a directory
if and only if its names arrive (`FileSystem.hasDirectory_iff`), and a path that
leads anywhere arrives with all its names but the last (`Leads.exists_arrives`).

Going down from directory to directory comes to an end, whatever links the tree
has: the links that are left and the levels that are left make a cost
(`Node.cost`), which a proper name lowers (`Arrives.cost_lt`) and any other name
raises by one at most (`Arrives.cost_le`).
-/
import AnimLint.Proofs.PathText

namespace AnimLint.Files

/-- Names that lead from a directory to another one, over `n` links at most; `m`
of them are left at the end. -/
inductive Arrives (root : Node) : Nat → List String → List String → Nat →
    List String → Prop
  | here {n : Nat} {current : List String} : Arrives root n current [] n current
  | idle {n m : Nat} {current rest found : List String} {name : String} :
      isIdle name = true → Arrives root n current rest m found →
        Arrives root n current (name :: rest) m found
  | up {n m : Nat} {current rest found : List String} :
      Arrives root n current.dropLast rest m found →
        Arrives root n current (".." :: rest) m found
  | enter {n m : Nat} {current rest found : List String} {name : String}
      {entries : List (String × Node)} :
      isIdle name = false → name ≠ ".." →
        root.descend? (current ++ [name]) = some (.directory entries) →
        Arrives root n (current ++ [name]) rest m found →
        Arrives root n current (name :: rest) m found
  | link {n m : Nat} {current rest found : List String} {name target : String} :
      isIdle name = false → name ≠ ".." →
        root.descend? (current ++ [name]) = some (.link target) →
        Arrives root n (if isAbsolute target then [] else current)
          (Files.names target ++ rest) m found →
        Arrives root (n + 1) current (name :: rest) m found

section Arrives

variable {root : Node} {through : Bool} {n m : Nat}
  {current names rest found : List String}

namespace Arrives

theorem append {m' : Nat} {found' : List String}
    (h : Arrives root n current names m found)
    (hrest : Arrives root m found rest m' found') :
    Arrives root n current (names ++ rest) m' found' := by
  induction h with
  | here => exact hrest
  | idle hidle _ ih => exact .idle hidle (ih hrest)
  | up _ ih => exact .up (ih hrest)
  | enter hidle hup hdirectory _ ih => exact .enter hidle hup hdirectory (ih hrest)
  | link hidle hup hlink _ ih =>
    have hlast := ih hrest
    rw [List.append_assoc] at hlast
    exact .link hidle hup hlink hlast

theorem split (h : Arrives root n current (names ++ rest) m found) :
    ∃ m' found', Arrives root n current names m' found' ∧
      Arrives root m' found' rest m found := by
  generalize hall : names ++ rest = all at h
  induction h generalizing names with
  | here =>
    obtain ⟨rfl, rfl⟩ := List.append_eq_nil_iff.1 hall
    exact ⟨_, _, .here, .here⟩
  | idle hidle hrest ih =>
    cases names with
    | nil =>
      subst hall
      exact ⟨_, _, .here, .idle hidle hrest⟩
    | cons first names =>
      obtain ⟨rfl, htail⟩ := List.cons.inj hall
      obtain ⟨m', found', hfirst, hlast⟩ := ih htail
      exact ⟨m', found', .idle hidle hfirst, hlast⟩
  | up hrest ih =>
    cases names with
    | nil =>
      subst hall
      exact ⟨_, _, .here, .up hrest⟩
    | cons first names =>
      obtain ⟨rfl, htail⟩ := List.cons.inj hall
      obtain ⟨m', found', hfirst, hlast⟩ := ih htail
      exact ⟨m', found', .up hfirst, hlast⟩
  | enter hidle hup hdirectory hrest ih =>
    cases names with
    | nil =>
      subst hall
      exact ⟨_, _, .here, .enter hidle hup hdirectory hrest⟩
    | cons first names =>
      obtain ⟨rfl, htail⟩ := List.cons.inj hall
      obtain ⟨m', found', hfirst, hlast⟩ := ih htail
      exact ⟨m', found', .enter hidle hup hdirectory hfirst, hlast⟩
  | link hidle hup hlink hrest ih =>
    cases names with
    | nil =>
      subst hall
      exact ⟨_, _, .here, .link hidle hup hlink hrest⟩
    | cons first names =>
      obtain ⟨rfl, rfl⟩ := List.cons.inj hall
      obtain ⟨m', found', hfirst, hlast⟩ := ih (List.append_assoc _ _ _)
      exact ⟨m', found', .link hidle hup hlink hfirst, hlast⟩

/-- Names arrive at one place. -/
theorem unique {m' : Nat} {found' : List String}
    (h : Arrives root n current names m found)
    (h' : Arrives root n current names m' found') : m = m' ∧ found = found' := by
  induction h with
  | here =>
    cases h'
    exact ⟨rfl, rfl⟩
  | idle hidle _ ih =>
    cases h' with
    | idle _ hrest => exact ih hrest
    | up => cases hidle
    | enter hstep => rw [hidle] at hstep; cases hstep
    | link hstep => rw [hidle] at hstep; cases hstep
  | up _ ih =>
    cases h' with
    | idle hidle => cases hidle
    | up hrest => exact ih hrest
    | enter _ hup => exact absurd rfl hup
    | link _ hup => exact absurd rfl hup
  | enter hstep hup hdirectory _ ih =>
    cases h' with
    | idle hidle => rw [hidle] at hstep; cases hstep
    | up => exact absurd rfl hup
    | enter _ _ _ hrest => exact ih hrest
    | link _ _ hlink => rw [hdirectory] at hlink; cases hlink
  | link hstep hup hlink _ ih =>
    cases h' with
    | idle hidle => rw [hidle] at hstep; cases hstep
    | up => exact absurd rfl hup
    | enter _ _ hdirectory => rw [hdirectory] at hlink; cases hlink
    | link _ _ hlink' hrest =>
      rw [hlink] at hlink'
      cases hlink'
      exact ih hrest

/-- From a directory names arrive at directories only. -/
theorem directory {entries : List (String × Node)}
    (h : Arrives root n current names m found)
    (hcurrent : root.descend? current = some (.directory entries)) :
    ∃ entries', root.descend? found = some (.directory entries') := by
  induction h generalizing entries with
  | here => exact ⟨entries, hcurrent⟩
  | idle _ _ ih => exact ih hcurrent
  | up _ ih =>
    obtain ⟨entries', hparent⟩ := Node.directory_dropLast hcurrent
    exact ih hparent
  | enter _ _ hdirectory _ ih => exact ih hdirectory
  | @link _ _ _ _ _ _ target _ _ _ _ ih =>
    obtain ⟨entries', hstart⟩ := Node.directory_start hcurrent (isAbsolute target)
    exact ih hstart

theorem links_le (h : Arrives root n current names m found) : m ≤ n := by
  induction h with
  | here => exact Nat.le_refl _
  | idle _ _ ih => exact ih
  | up _ ih => exact ih
  | enter _ _ _ _ ih => exact ih
  | link _ _ _ _ ih => exact Nat.le_succ_of_le ih

/-- What follows names that arrive is followed from where they arrive. -/
theorem follow_append (h : Arrives root n current names m found)
    (hrest : rest ≠ [] ∨ through = true) :
    follow root through n current (names ++ rest) = follow root through m found rest := by
  induction h with
  | here => rfl
  | idle hidle _ ih =>
    rw [List.cons_append, follow_eq, followNames_idle hidle, ← follow_eq]
    exact ih
  | up _ ih =>
    rw [List.cons_append, follow_eq, followNames, if_neg (by decide), if_pos rfl,
      ← follow_eq]
    exact ih
  | enter hidle hup hdirectory _ ih =>
    rw [List.cons_append, follow_eq, followNames_step hidle hup, hdirectory, ← follow_eq]
    exact ih
  | @link _ _ _ behind _ _ _ hidle hup hlink _ ih =>
    have hgo : ((behind ++ rest).isEmpty && !through) = false := by
      rcases hrest with hrest | rfl
      · rw [List.isEmpty_eq_false_iff.2 (List.append_ne_nil_of_right_ne_nil _ hrest)]
        rfl
      · exact Bool.and_false _
    rw [List.append_assoc] at ih
    rw [List.cons_append, follow_eq, followNames_step hidle hup, hlink]
    simp only [hgo]
    exact ih

theorem follow (h : Arrives root n current names m found) :
    Files.follow root true n current names = .ok ⟨found, root.descend? found⟩ := by
  have hfollow : Files.follow root true n current (names ++ []) =
      Files.follow root true m found [] :=
    h.follow_append (.inr rfl)
  rw [List.append_nil] at hfollow
  rw [hfollow, follow_eq]
  rfl

/-- Names that stand for no step arrive where they start. -/
theorem of_idle (h : names.all isIdle = true) :
    Arrives root n current names n current := by
  induction names with
  | nil => exact .here
  | cons name names ih =>
    rw [List.all_cons, Bool.and_eq_true] at h
    exact .idle h.1 (ih h.2)

end Arrives

/-- Names that lead to a directory arrive there. -/
theorem Leads.arrives {place : Place} {entries : List (String × Node)}
    (h : Leads root through n current names place)
    (hplace : place.node = some (.directory entries)) :
    ∃ m, Arrives root n current names m place.names := by
  induction h with
  | here => exact ⟨_, .here⟩
  | idle hidle _ ih => exact (ih hplace).imp fun _ h => .idle hidle h
  | up _ ih => exact (ih hplace).imp fun _ h => .up h
  | absent => cases hplace
  | enter hidle hup hdirectory _ ih =>
    exact (ih hplace).imp fun _ h => .enter hidle hup hdirectory h
  | file => cases hplace
  | stop => cases hplace
  | link _ hidle hup hlink _ ih =>
    exact (ih hplace).imp fun _ h => .link hidle hup hlink h

/-- Names that lead to something arrive with all of them but the last. -/
theorem Leads.exists_arrives {place : Place} {name : String}
    (h : Leads root through n current (names ++ name :: rest) place)
    (hsome : place.node.isSome = true) :
    ∃ m found, Arrives root n current names m found := by
  generalize hall : names ++ name :: rest = all at h
  induction h generalizing names with
  | here => exact absurd hall (by simp)
  | idle hidle _ ih =>
    cases names with
    | nil => exact ⟨_, _, .here⟩
    | cons first names =>
      obtain ⟨rfl, htail⟩ := List.cons.inj hall
      obtain ⟨m, found, hfirst⟩ := ih hsome htail
      exact ⟨m, found, .idle hidle hfirst⟩
  | up _ ih =>
    cases names with
    | nil => exact ⟨_, _, .here⟩
    | cons first names =>
      obtain ⟨rfl, htail⟩ := List.cons.inj hall
      obtain ⟨m, found, hfirst⟩ := ih hsome htail
      exact ⟨m, found, .up hfirst⟩
  | absent => cases hsome
  | enter hidle hup hdirectory _ ih =>
    cases names with
    | nil => exact ⟨_, _, .here⟩
    | cons first names =>
      obtain ⟨rfl, htail⟩ := List.cons.inj hall
      obtain ⟨m, found, hfirst⟩ := ih hsome htail
      exact ⟨m, found, .enter hidle hup hdirectory hfirst⟩
  | file =>
    cases names with
    | nil => exact ⟨_, _, .here⟩
    | cons first names => exact absurd (List.cons.inj hall).2 (by simp)
  | stop =>
    cases names with
    | nil => exact ⟨_, _, .here⟩
    | cons first names => exact absurd (List.cons.inj hall).2 (by simp)
  | link _ hidle hup hlink _ ih =>
    cases names with
    | nil => exact ⟨_, _, .here⟩
    | cons first names =>
      obtain ⟨rfl, rfl⟩ := List.cons.inj hall
      obtain ⟨m, found, hfirst⟩ := ih hsome (List.append_assoc _ _ _)
      exact ⟨m, found, .link hidle hup hlink hfirst⟩

/-- One more name that arrives leads to something even if a link at the end is
not followed. -/
theorem Arrives.exists_leads {name : String} {entries : List (String × Node)}
    (h : Arrives root n current [name] m found)
    (hcurrent : root.descend? current = some (.directory entries)) :
    ∃ place, Leads root through n current [name] place ∧ place.node.isSome = true := by
  have hsome {found : List String} {node : Node} (h : root.descend? found = some node) :
      (root.descend? found).isSome = true := by
    rw [h]
    rfl
  cases h with
  | idle hidle => exact ⟨⟨current, _⟩, .idle hidle .here, hsome hcurrent⟩
  | up =>
    obtain ⟨entries', hparent⟩ := Node.directory_dropLast hcurrent
    exact ⟨⟨current.dropLast, _⟩, .up .here, hsome hparent⟩
  | enter hidle hup hdirectory =>
    exact ⟨⟨current ++ [name], _⟩, .enter hidle hup hdirectory .here, hsome hdirectory⟩
  | link hidle hup hlink hrest =>
    rw [List.append_nil] at hrest
    obtain ⟨entries', hstart⟩ := Node.directory_start hcurrent _
    obtain ⟨entries'', hfound⟩ := hrest.directory hstart
    cases through with
    | false => exact ⟨_, .stop rfl hidle hup hlink, rfl⟩
    | true =>
      refine ⟨⟨found, root.descend? found⟩, .link rfl hidle hup hlink ?_, hsome hfound⟩
      rw [List.append_nil]
      exact leads_of_follow hrest.follow

end Arrives

/-! ### Paths -/

/-- Holds of paths that go on from another by one name, which is joined to it or
put under it. -/
structure GoesOn (path name next : String) : Prop where
  ne_empty : next ≠ ""
  isAbsolute_eq : isAbsolute next = isAbsolute path
  names_eq : names next = stem path ++ [name] ∨ names next = underStem path ++ [name]

section GoesOn

variable {path name : String} (hname : '/' ∉ name.toList)

include hname

theorem goesOn_join (hpath : path ≠ "") : GoesOn path name (join path name) where
  ne_empty := join_ne_empty (isAbsolute_of_not_mem hname) hpath
  isAbsolute_eq := isAbsolute_join (isAbsolute_of_not_mem hname)
  names_eq := .inl
    (by rw [names_join (isAbsolute_of_not_mem hname), names_of_not_mem hname])

theorem goesOn_under (hsome : Glob.under path name ≠ "") :
    GoesOn path name (Glob.under path name) where
  ne_empty := hsome
  isAbsolute_eq := isAbsolute_under (isAbsolute_of_not_mem hname)
  names_eq := .inr
    (by rw [names_under (isAbsolute_of_not_mem hname), names_of_not_mem hname])

end GoesOn

theorem goesOn_under_of_proper {path name : String} (hname : isProperName name = true) :
    GoesOn path name (Glob.under path name) := by
  have hslash : '/' ∉ name.toList := (isProperName_iff.1 hname).2.2
  refine goesOn_under hslash (under_ne_empty hslash ?_)
  rintro rfl
  cases hname

/-- The front of a path that goes on from another differs from that by names
that stand for no step. -/
theorem GoesOn.exists_front {path name next : String} (h : GoesOn path name next) :
    ∃ front idle, names path = front ++ idle ∧ idle.all isIdle = true ∧
      names next = front ++ [name] := by
  rcases h.names_eq with hnames | hnames
  · obtain ⟨idle, hpath, hidle⟩ := exists_idle_stem path
    exact ⟨stem path, idle, hpath, hidle, hnames⟩
  · obtain ⟨idle, hpath, hidle⟩ := exists_idle_underStem path
    exact ⟨underStem path, idle, hpath, hidle, hnames⟩

/-- Names that arrive do so without those at their end that stand for no step,
and the other way round. -/
theorem arrives_append_idle {root : Node} {n m : Nat}
    {current front idle found : List String} (hidle : idle.all isIdle = true) :
    Arrives root n current (front ++ idle) m found ↔
      Arrives root n current front m found := by
  constructor
  · intro h
    obtain ⟨m', found', hfront, hrest⟩ := h.split
    obtain ⟨rfl, rfl⟩ := (Arrives.of_idle hidle).unique hrest
    exact hfront
  · intro h
    exact h.append (.of_idle hidle)

namespace FileSystem

/-- The directory that a path starts from. -/
def startOf (fs : FileSystem) (path : String) : List String :=
  if isAbsolute path then [] else fs.current

/-- Where a path arrives, and how many links are left then. -/
def ArrivesAt (fs : FileSystem) (path : String) (m : Nat) (found : List String) : Prop :=
  path ≠ "" ∧ Arrives fs.root maxLinks (fs.startOf path) (names path) m found

variable {fs : FileSystem}

theorem exists_current (hcurrent : fs.hasDirectory "." = true) :
    ∃ entries, fs.root.descend? fs.current = some (.directory entries) := by
  have hhere : fs.node "." = nodeOf ⟨fs.current, fs.root.descend? fs.current⟩ := rfl
  rw [hasDirectory, hhere] at hcurrent
  rcases hnode : fs.root.descend? fs.current with - | node
  · rw [hnode] at hcurrent
    cases hcurrent
  · rw [hnode] at hcurrent
    cases node with
    | directory entries => exact ⟨entries, rfl⟩
    | file content => cases hcurrent
    | link target => cases hcurrent

theorem ArrivesAt.directory (hcurrent : fs.hasDirectory "." = true)
    {path : String} {m : Nat}
    {found : List String} (h : fs.ArrivesAt path m found) :
    ∃ entries, fs.root.descend? found = some (.directory entries) := by
  obtain ⟨entries, hentries⟩ := exists_current hcurrent
  obtain ⟨entries', hstart⟩ := Node.directory_start hentries (isAbsolute path)
  exact h.2.directory hstart

/-- A path leads to a directory if and only if it arrives. -/
theorem hasDirectory_iff (hcurrent : fs.hasDirectory "." = true) {path : String} :
    fs.hasDirectory path = true ↔ ∃ m found, fs.ArrivesAt path m found := by
  constructor
  · intro h
    unfold hasDirectory at h
    split at h
    · next node hnode =>
      obtain ⟨found, hlocate⟩ := locate_of_node hnode
      cases node with
      | directory entries =>
        unfold locate at hlocate
        split at hlocate
        · cases hlocate
        · next hpath =>
          obtain ⟨m, harrives⟩ := (leads_of_follow hlocate).arrives rfl
          exact ⟨m, found, hpath, harrives⟩
      | file content => cases h
      | link target => cases h
    · cases h
  · rintro ⟨m, found, hpath, harrives⟩
    obtain ⟨entries, hfound⟩ := ArrivesAt.directory hcurrent ⟨hpath, harrives⟩
    have hlocate : fs.locate true path = .ok ⟨found, fs.root.descend? found⟩ := by
      rw [locate, if_neg hpath]
      exact harrives.follow
    rw [hasDirectory, node, hlocate, hfound]
    rfl

/-- Where a path goes on to is where its last name leads from where it
arrives. -/
theorem ArrivesAt.last {path name next : String} {m m' : Nat} {found found' : List String}
    (h : fs.ArrivesAt path m found) (hnext : GoesOn path name next)
    (h' : fs.ArrivesAt next m' found') : Arrives fs.root m found [name] m' found' := by
  obtain ⟨front, idle, hpath, hidle, hnames⟩ := hnext.exists_front
  obtain ⟨-, harrives⟩ := h
  obtain ⟨-, harrives'⟩ := h'
  rw [hpath, arrives_append_idle hidle] at harrives
  rw [startOf, hnext.isAbsolute_eq, ← startOf, hnames] at harrives'
  obtain ⟨m'', found'', hfront, hlast⟩ := harrives'.split
  obtain ⟨rfl, rfl⟩ := harrives.unique hfront
  exact hlast

/-- Where a path goes on to if its last name leads on from where it arrives. -/
theorem ArrivesAt.next {path name next : String} {m m' : Nat} {found found' : List String}
    (h : fs.ArrivesAt path m found) (hnext : GoesOn path name next)
    (hlast : Arrives fs.root m found [name] m' found') : fs.ArrivesAt next m' found' := by
  obtain ⟨front, idle, hpath, hidle, hnames⟩ := hnext.exists_front
  obtain ⟨-, harrives⟩ := h
  rw [hpath, arrives_append_idle hidle] at harrives
  refine ⟨hnext.ne_empty, ?_⟩
  rw [startOf, hnext.isAbsolute_eq, ← startOf, hnames]
  exact harrives.append hlast

/-- Something is there then, even if a link at the end is not followed. -/
theorem ArrivesAt.isOk_nodeOrLink (hcurrent : fs.hasDirectory "." = true)
    {path name next : String}
    {m m' : Nat} {found found' : List String} (h : fs.ArrivesAt path m found)
    (hnext : GoesOn path name next) (hlast : Arrives fs.root m found [name] m' found') :
    (fs.nodeOrLink next).isOk = true := by
  obtain ⟨entries, hdirectory⟩ := h.directory hcurrent
  obtain ⟨front, idle, hpath, hidle, hnames⟩ := hnext.exists_front
  obtain ⟨-, harrives⟩ := h
  rw [hpath, arrives_append_idle hidle] at harrives
  obtain ⟨place, hleads, hsome⟩ :=
    @Arrives.exists_leads _ false _ _ _ _ _ _ hlast hdirectory
  have hlocate : fs.locate false next = .ok place := by
    rw [locate, if_neg hnext.ne_empty, ← startOf, startOf, hnext.isAbsolute_eq,
      ← startOf, hnames, harrives.follow_append (.inl (List.cons_ne_nil _ _))]
    exact follow_of_leads hleads
  obtain ⟨node, hnode⟩ := Option.isSome_iff_exists.1 hsome
  rw [nodeOrLink, hlocate]
  show (nodeOf place).isOk = true
  rw [nodeOf, hnode]
  rfl

/-- A path that goes on to something arrives itself. -/
theorem exists_arrivesAt {through : Bool} {path name next : String} {place : Place}
    (hpath : path ≠ "")
    (hnext : GoesOn path name next) (h : fs.locate through next = .ok place)
    (hsome : place.node.isSome = true) : ∃ m found, fs.ArrivesAt path m found := by
  obtain ⟨front, idle, hnames, hidle, hnames'⟩ := hnext.exists_front
  rw [locate, if_neg hnext.ne_empty, hnames', hnext.isAbsolute_eq] at h
  obtain ⟨m, found, harrives⟩ := (leads_of_follow h).exists_arrives hsome
  refine ⟨m, found, hpath, ?_⟩
  rw [hnames, arrives_append_idle hidle]
  exact harrives

end FileSystem

/-! ### Costs -/

namespace Node

open Glob (depth depthOf)

theorem depth_of_lookup {entries : List (String × Node)} {name : String} {child : Node}
    (h : entries.lookup name = some child) : depth child ≤ depthOf entries := by
  have hmem := mem_of_lookup h
  clear h
  induction entries with
  | nil => cases hmem
  | cons entry rest ih =>
    rw [depthOf]
    rcases List.mem_cons.1 hmem with rfl | hmem
    · exact Nat.le_max_left _ _
    · exact Nat.le_trans (ih hmem) (Nat.le_max_right _ _)

/-- What lies under some names lies as many levels deep. -/
theorem depth_of_descend {root node : Node} {place : List String}
    (h : root.descend? place = some node) :
    place.length + depth node ≤ depth root := by
  induction place generalizing root with
  | nil =>
    obtain rfl := Option.some.inj h
    exact Nat.le_of_eq (Nat.zero_add _)
  | cons name rest ih =>
    obtain ⟨entries, child, rfl, hchild, hrest⟩ := child_of_descend h
    have hbelow := ih hrest
    have hlevel := depth_of_lookup hchild
    rw [depth, List.length_cons]
    omega

theorem length_lt_depth {root : Node} {place : List String}
    {entries : List (String × Node)}
    (h : root.descend? place = some (directory entries)) : place.length < depth root := by
  have hdepth := depth_of_descend h
  rw [depth] at hdepth
  omega

/-- What is left of a way down: each link that is left may lead back to the
top. -/
def cost (root : Node) (links : Nat) (place : List String) : Nat :=
  links * (depth root + 1) + (depth root - place.length)

theorem cost_le_of_lt {root : Node} {m n : Nat} (h : m < n) (place place' : List String) :
    root.cost m place < root.cost n place' := by
  have hlinks : (m + 1) * (depth root + 1) ≤ n * (depth root + 1) :=
    Nat.mul_le_mul_right _ h
  rw [Nat.succ_mul] at hlinks
  unfold cost
  omega

end Node

section Cost

variable {root : Node} {n m : Nat} {current found : List String} {name : String}

theorem Arrives.cost_le (h : Arrives root n current [name] m found) :
    root.cost m found ≤ root.cost n current + 1 := by
  cases h with
  | idle _ hrest =>
    cases hrest
    exact Nat.le_succ _
  | up hrest =>
    cases hrest
    unfold Node.cost
    rw [List.length_dropLast]
    omega
  | enter _ _ _ hrest =>
    cases hrest
    unfold Node.cost
    rw [List.length_append]
    omega
  | link _ _ _ hrest =>
    have hlt := @Node.cost_le_of_lt root _ _ (Nat.lt_succ_of_le hrest.links_le)
      found current
    exact Nat.le_succ_of_le (Nat.le_of_lt hlt)

/-- A proper name leads down, or over a link. -/
theorem Arrives.cost_lt (h : Arrives root n current [name] m found)
    (hname : isProperName name = true) :
    root.cost m found < root.cost n current := by
  obtain ⟨hstep, hup, -⟩ := isProperName_iff.1 hname
  cases h with
  | idle hidle => rw [hidle] at hstep; cases hstep
  | up => exact absurd rfl hup
  | enter _ _ hdirectory hrest =>
    cases hrest
    have hlength := Node.length_lt_depth hdirectory
    rw [List.length_append, List.length_singleton] at hlength
    unfold Node.cost
    rw [List.length_append, List.length_singleton]
    omega
  | link _ _ _ hrest =>
    exact Node.cost_le_of_lt (Nat.lt_succ_of_le hrest.links_le) found current

end Cost

end AnimLint.Files
