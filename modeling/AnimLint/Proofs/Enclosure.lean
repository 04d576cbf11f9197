/-
AnimLint/Proofs/Enclosure.lean

A tree inside a file system.  Names that never lead out of a tree
(`Node.encloses`) lead to the same wherever the tree stands: what is found is
found below the place of the tree (`follow_below`).  A path below a base that
such a tree is placed at (`Placed`, `Below`) therefore leads to what the names
behind the base lead to in the tree alone (`Below.node`, `Below.nodeOrLink`),
and a path stays below the base if it goes on by one name (`Below.goesOn`).
-/
import AnimLint.Proofs.Arrival
import AnimLint.Proofs.Spellings

namespace AnimLint.Files

/-! ### Names that stay in a tree -/

namespace Node

/-- Holds if names that are followed from a directory never lead out of the
tree, given how to go on after a link. -/
def enclosesNames (root : Node) (onward : List String → List String → Bool) :
    List String → List String → Bool
  | _, [] => true
  | current, name :: rest =>
    if isIdle name then enclosesNames root onward current rest
    else if name = ".." then !current.isEmpty &&
      enclosesNames root onward current.dropLast rest
    else
      match root.descend? (current ++ [name]) with
      | some (.directory _) => enclosesNames root onward (current ++ [name]) rest
      | some (.link target) =>
        !isAbsolute target && onward current (Files.names target ++ rest)
      | _ => true

/-- Holds if names that are followed over so many links at most never lead out
of the tree. -/
def encloses (root : Node) : Nat → List String → List String → Bool
  | 0 => enclosesNames root fun _ _ => true
  | n + 1 => enclosesNames root (encloses root n)

/-- How a path goes on after a link. -/
def enclosesOnward (root : Node) : Nat → List String → List String → Bool
  | 0 => fun _ _ => true
  | n + 1 => encloses root n

theorem encloses_eq (root : Node) (n : Nat) :
    root.encloses n = enclosesNames root (root.enclosesOnward n) := by
  cases n <;> rfl

theorem enclosesNames_idle {root : Node} {onward : List String → List String → Bool}
    {current rest : List String} {name : String} (hidle : isIdle name = true) :
    enclosesNames root onward current (name :: rest) =
      enclosesNames root onward current rest := by
  rw [enclosesNames, if_pos hidle]

theorem enclosesNames_step {root : Node} {onward : List String → List String → Bool}
    {current rest : List String} {name : String} (hidle : isIdle name = false)
    (hup : name ≠ "..") :
    enclosesNames root onward current (name :: rest) =
      match root.descend? (current ++ [name]) with
      | some (.directory _) => enclosesNames root onward (current ++ [name]) rest
      | some (.link target) =>
        !isAbsolute target && onward current (Files.names target ++ rest)
      | _ => true := by
  rw [enclosesNames, hidle, if_neg Bool.false_ne_true, if_neg hup]

theorem enclosesNames_up {root : Node} {onward : List String → List String → Bool}
    {current rest : List String} :
    enclosesNames root onward current (".." :: rest) =
      (!current.isEmpty && enclosesNames root onward current.dropLast rest) := by
  rw [enclosesNames, if_neg (by decide), if_pos rfl]

/-- The names that stand for a step. -/
def steps (names : List String) : List String := names.filter (!isIdle ·)

/-- Names that stand for no step do not matter. -/
theorem enclosesNames_steps {root : Node} {onward : List String → List String → Bool}
    (honward : ∀ current names names', steps names = steps names' →
      onward current names = onward current names') (current names : List String) :
    enclosesNames root onward current (steps names) =
      enclosesNames root onward current names := by
  induction names generalizing current with
  | nil => rfl
  | cons name rest ih =>
    rcases hidle : isIdle name with - | -
    · have hsteps : steps (name :: rest) = name :: steps rest := by
        rw [steps, List.filter_cons, hidle]
        rfl
      rw [hsteps]
      by_cases hup : name = ".."
      · subst hup
        rw [enclosesNames_up, enclosesNames_up, ih]
      · rw [enclosesNames_step hidle hup, enclosesNames_step hidle hup]
        split
        · exact ih _
        · next target _ =>
          rw [honward current (Files.names target ++ steps rest)
            (Files.names target ++ rest)]
          rw [steps, steps, steps, List.filter_append, List.filter_append,
            List.filter_filter]
          simp only [Bool.and_self]
        · rfl
    · have hsteps : steps (name :: rest) = steps rest := by
        rw [steps, List.filter_cons, hidle]
        rfl
      rw [hsteps, enclosesNames_idle hidle, ih]

theorem encloses_congr {root : Node} {n : Nat} {current names names' : List String}
    (h : steps names = steps names') :
    root.encloses n current names = root.encloses n current names' := by
  induction n generalizing current names names' with
  | zero =>
    have hsteps :=
      fun names => @enclosesNames_steps root (fun _ _ => true) (fun _ _ _ _ => rfl)
        current names
    rw [encloses, ← hsteps names, h, hsteps names']
  | succ n ih =>
    have hsteps := fun names =>
      @enclosesNames_steps root (encloses root n) (fun _ _ _ h => ih h) current names
    rw [encloses, ← hsteps names, h, hsteps names']

/-- In a tree without links names lead out only by `..`. -/
theorem encloses_of_down {root : Node} (hlinks : root.hasLink = false) {n : Nat}
    {current names : List String} (h : ".." ∉ names) :
    root.encloses n current names = true := by
  rw [encloses_eq]
  induction names generalizing current with
  | nil => rfl
  | cons name rest ih =>
    rw [List.mem_cons, not_or] at h
    rcases hidle : isIdle name with - | -
    · rw [enclosesNames_step hidle (Ne.symm h.1)]
      split
      · exact ih h.2
      · next hlink => exact absurd hlink (descend_ne_link hlinks _ _)
      · rfl
    · rw [enclosesNames_idle hidle]
      exact ih h.2

end Node

/-! ### Following names in a tree -/

/-- A place seen from further up. -/
def Place.below (top : List String) (place : Place) : Place :=
  ⟨top ++ place.names, place.node⟩

section Follow

variable {root tree : Node} {top : List String}
  (htop : root.descend? top = some tree) {through : Bool}

include htop

theorem followNames_below
    {onward onward' : List String → List String → Except AccessError Place}
    {inside : List String → List String → Bool}
    (honward : ∀ current names, inside current names = true →
      onward (top ++ current) names = (onward' current names).map (Place.below top))
    {current names : List String} (h : tree.enclosesNames inside current names = true) :
    followNames root through onward (top ++ current) names =
      (followNames tree through onward' current names).map (Place.below top) := by
  have hdescend (place : List String) :
      root.descend? (top ++ place) = tree.descend? place := by
    rw [Node.descend?_append, htop]
    rfl
  induction names generalizing current with
  | nil =>
    rw [followNames, followNames, hdescend]
    rfl
  | cons name rest ih =>
    rcases hidle : isIdle name with - | -
    · by_cases hup : name = ".."
      · subst hup
        rw [Node.enclosesNames_up, Bool.and_eq_true, Bool.not_eq_true',
          List.isEmpty_eq_false_iff] at h
        have hparent : (top ++ current).dropLast = top ++ current.dropLast :=
          List.dropLast_append_of_ne_nil h.1
        rw [followNames, followNames, if_neg (by decide), if_pos rfl,
          if_neg (by decide), if_pos rfl, hparent]
        exact ih h.2
      · rw [Node.enclosesNames_step hidle hup] at h
        rw [followNames_step hidle hup, followNames_step hidle hup,
          List.append_assoc, hdescend]
        rcases hnode : tree.descend? (current ++ [name]) with - | node
        · simp only
          split <;> rfl
        · rw [hnode] at h
          cases node with
          | file content =>
            simp only
            split <;> rfl
          | directory entries => exact ih h
          | link target =>
            rw [Bool.and_eq_true, Bool.not_eq_true'] at h
            simp only [h.1]
            split
            · rfl
            · exact honward current _ h.2
    · rw [Node.enclosesNames_idle hidle] at h
      rw [followNames_idle hidle, followNames_idle hidle]
      exact ih h

/-- Names that never lead out of a tree lead to the same wherever the tree
stands. -/
theorem follow_below {n : Nat} {current names : List String}
    (h : tree.encloses n current names = true) :
    follow root through n (top ++ current) names =
      (follow tree through n current names).map (Place.below top) := by
  induction n generalizing current names with
  | zero => exact followNames_below htop (fun _ _ _ => rfl) h
  | succ n ih => exact followNames_below htop (fun _ _ h => ih h) h

end Follow

/-- What names lead to in a tree alone. -/
def Node.seen (tree : Node) (through : Bool) (links : Nat) (names : List String) :
    Except AccessError Node :=
  match follow tree through links [] names with
  | .error e => .error e
  | .ok place => FileSystem.nodeOf place

/-! ### Paths below a base -/

theorem stepsOf_idle {names : List String} (h : names.all isIdle = true) :
    stepsOf names = [] := by
  rw [stepsOf, List.filterMap_eq_nil_iff]
  intro name hname
  have hidle := List.all_eq_true.1 h name hname
  rw [isIdle, Bool.or_eq_true, decide_eq_true_eq, decide_eq_true_eq] at hidle
  rcases hidle with rfl | rfl <;> rfl

theorem frontOf_of_components_here {path : String} (h : components path = [.here]) :
    frontOf path = [.here] := by
  have hidle := (of_components_here h).2
  rw [components_eq, stepsOf_idle hidle, List.append_nil] at h
  exact h

/-- Names without an empty last one. -/
def trim (names : List String) : List String :=
  if names.getLast? = some "" then names.dropLast else names

theorem steps_trim (names : List String) :
    Node.steps (trim names) = Node.steps names := by
  rw [trim]
  split
  · next hlast =>
    obtain ⟨front, rfl⟩ := List.getLast?_eq_some_iff.1 hlast
    rw [List.dropLast_concat, Node.steps, Node.steps, List.filter_append]
    exact (List.append_nil _).symm
  · rfl

theorem stem_of_names {path : String} {front names : List String}
    (hnames : Files.names path = front ++ names)
    (hsome : names ≠ []) : stem path = front ++ trim names := by
  obtain ⟨last, hlast⟩ : ∃ last, names.getLast? = some last :=
    ⟨_, List.getLast?_eq_some_getLast hsome⟩
  rw [stem_eq, trim, hnames, List.getLast?_append, hlast,
    List.dropLast_append_of_ne_nil hsome]
  show (if some last = some "" then _ else _) = _
  split <;> rfl

/-- The names behind a base if a path goes on by one more. -/
def extend (names : List String) (name : String) : List String :=
  if names.all isIdle then [name] else trim names ++ [name]

theorem steps_idle {names : List String} (h : names.all isIdle = true) :
    Node.steps names = [] := by
  rw [Node.steps, List.filter_eq_nil_iff]
  intro name hname
  rw [List.all_eq_true.1 h name hname]
  exact Bool.false_ne_true

theorem steps_extend (names : List String) (name : String) :
    Node.steps (extend names name) = Node.steps names ++ Node.steps [name] := by
  rw [extend]
  split
  · next hidle =>
    rw [steps_idle hidle]
    rfl
  · rw [Node.steps, List.filter_append, ← Node.steps, steps_trim]
    rfl

theorem extend_ne_nil (names : List String) (name : String) : extend names name ≠ [] := by
  rw [extend]
  split
  · exact List.cons_ne_nil _ _
  · exact List.append_ne_nil_of_right_ne_nil _ (List.cons_ne_nil _ _)

/-- A tree that a base leads to, so many links being left; the base is no link
itself. -/
structure Placed (fs : FileSystem) (base : String) (tree : Node) (left : Nat) : Prop where
  current : fs.hasDirectory "." = true
  arrives : ∃ place, fs.ArrivesAt base left place ∧ fs.root.descend? place = some tree
  direct : fs.nodeOrLink base = .ok tree

/-- Paths with the names `below` behind a front that is the base but for names
that stand for no step. -/
structure Below (fs : FileSystem) (base : String) (tree : Node) (left : Nat)
    (path : String)
    (below : List String) : Prop where
  ne_empty : path ≠ ""
  isAbsolute_eq : isAbsolute path = isAbsolute base
  exists_front : ∃ front place, names path = front ++ below ∧ stepsOf front =
    stepsOf (names base) ∧
    Arrives fs.root maxLinks (fs.startOf path) front left place ∧
    fs.root.descend? place = some tree
  /-- The `.` at the front of a base is the only thing at a front that can be
  lost. -/
  frontOf_eq : frontOf base ≠ [.here] → frontOf path = frontOf base

section Below

variable {fs : FileSystem} {base path name next : String} {tree : Node} {left : Nat}
  {below : List String}

theorem Placed.isDirectory (h : Placed fs base tree left) : tree.isDirectory = true := by
  obtain ⟨place, harrives, htree⟩ := h.arrives
  obtain ⟨entries, hdirectory⟩ := harrives.directory h.current
  obtain rfl := Option.some.inj (htree.symm.trans hdirectory)
  rfl

theorem Placed.below_base (h : Placed fs base tree left) :
    Below fs base tree left base [] := by
  obtain ⟨place, ⟨hbase, harrives⟩, htree⟩ := h.arrives
  exact ⟨hbase, rfl,
    ⟨names base, place, (List.append_nil _).symm, rfl, harrives, htree⟩, fun _ => rfl⟩

/-- A path that is joined to the base is below it, by its own names. -/
theorem Placed.below_join (h : Placed fs base tree left)
    (hpath : isAbsolute path = false) :
    Below fs base tree left (join base path) (names path) ∧
    frontOf (join base path) = frontOf base := by
  obtain ⟨place, ⟨hbase, harrives⟩, htree⟩ := h.arrives
  obtain ⟨idle, hnames, hidle⟩ := exists_idle_stem base
  have hfront := frontOf_join hbase hpath
  rw [hnames, arrives_append_idle hidle] at harrives
  refine ⟨⟨join_ne_empty hpath hbase, isAbsolute_join hpath,
    ⟨stem base, place, names_join hpath, stepsOf_stem base, ?_, htree⟩,
    fun _ => hfront⟩, hfront⟩
  rwa [FileSystem.startOf, isAbsolute_join hpath]

/-- What a path below a base leads to is what its names lead to in the tree
alone. -/
theorem Below.node (h : Below fs base tree left path below)
    (hbelow : tree.encloses left [] below = true) :
    fs.node path = tree.seen true left below := by
  obtain ⟨front, place, hnames, -, harrives, htree⟩ := h.exists_front
  have hfollow := @follow_below fs.root tree place htree true left [] below hbelow
  rw [List.append_nil] at hfollow
  rw [FileSystem.node, FileSystem.locate, if_neg h.ne_empty, ← FileSystem.startOf, hnames,
    harrives.follow_append (.inr rfl), hfollow, Node.seen]
  rcases follow tree true left [] below with e | found <;> rfl

theorem Below.nodeOrLink (h : Below fs base tree left path below)
    (hbelow : tree.encloses left [] below = true) (hsome : below ≠ []) :
    fs.nodeOrLink path = tree.seen false left below := by
  obtain ⟨front, place, hnames, -, harrives, htree⟩ := h.exists_front
  have hfollow := @follow_below fs.root tree place htree false left [] below hbelow
  rw [List.append_nil] at hfollow
  rw [FileSystem.nodeOrLink, FileSystem.locate, if_neg h.ne_empty,
    ← FileSystem.startOf, hnames, harrives.follow_append (.inl hsome), hfollow, Node.seen]
  rcases follow tree false left [] below with e | found <;> rfl

/-- A path that goes on by one name stays below the base. -/
theorem Below.goesOn (h : Below fs base tree left path below)
    (hnext : GoesOn path name next) :
    Below fs base tree left next (extend below name) := by
  obtain ⟨front, place, hnames, hsteps, harrives, htree⟩ := h.exists_front
  have hstart : fs.startOf next = fs.startOf path := by
    rw [FileSystem.startOf, FileSystem.startOf, hnext.isAbsolute_eq]
  refine ⟨hnext.ne_empty, hnext.isAbsolute_eq.trans h.isAbsolute_eq, ?_, fun hhere => ?_⟩
  · rw [hstart]
    by_cases hidle : below.all isIdle = true
    · -- nothing behind the base counts: what is left of the path stands for the base
      obtain ⟨front', idle, hpath, hidle', hnames'⟩ := hnext.exists_front
      refine ⟨front', place, ?_, ?_, ?_, htree⟩
      · rw [hnames', extend, if_pos hidle]
      · rw [← hsteps]
        have hboth := congrArg stepsOf (hpath.symm.trans hnames)
        rwa [stepsOf_append, stepsOf_append, stepsOf_idle hidle',
          stepsOf_idle hidle, List.append_nil, List.append_nil] at hboth
      · rw [← arrives_append_idle hidle', ← hpath, hnames, arrives_append_idle hidle]
        exact harrives
    · have hhere : components path ≠ [.here] := by
        intro hhere
        have hall := (of_components_here hhere).2
        rw [hnames, List.all_append, Bool.and_eq_true] at hall
        exact hidle hall.2
      have hsome : below ≠ [] := by
        rintro rfl
        exact hidle rfl
      have hunder : underStem path = stem path := if_neg hhere
      have hlast := hnext.names_eq
      rw [hunder, or_self, stem_of_names hnames hsome, List.append_assoc] at hlast
      exact ⟨front, place, by rw [hlast, extend, if_neg hidle], hsteps, harrives, htree⟩
  · have hfront := h.frontOf_eq hhere
    have hpath : components path ≠ [.here] := by
      intro hpath
      rw [frontOf_of_components_here hpath] at hfront
      exact hhere hfront.symm
    have hunder : underStem path = stem path := if_neg hpath
    have hlast := hnext.names_eq
    rw [hunder, or_self] at hlast
    rw [frontOf_of_stem h.ne_empty hnext.isAbsolute_eq hlast, hfront]

/-- A path below a base has the steps of the base and then its own. -/
theorem Below.stepsOf_names (h : Below fs base tree left path below) :
    stepsOf (names path) = stepsOf (names base) ++ stepsOf below := by
  obtain ⟨front, place, hnames, hsteps, -⟩ := h.exists_front
  rw [hnames, stepsOf_append, hsteps]

end Below

end AnimLint.Files
