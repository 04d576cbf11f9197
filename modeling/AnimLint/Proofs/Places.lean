/-
AnimLint/Proofs/Places.lean

Where paths lead does not depend on what files hold.  A file system with all
files emptied (`FileSystem.hollow`) has the same directories and links, and
every path leads to the same place in it (`locate_hollow`); so of two file
systems that agree when emptied (`SameTree`), everything that asks for places
only - which paths lead to one file, what is a directory, what is there at all -
is the same.

Writing to a file that is there keeps the tree (`sameTree_write`), and changes
what the paths hold that lead to this file, and nothing else (`content?_write`).

Main definitions: `FileSystem.hollow`, `SameTree`, `place?`, `sameFile`,
`content?`.
-/
import AnimLint.Files.Tree

namespace AnimLint.Files

namespace Node

/-! ### Emptied files -/

mutual

/-- A node with all files emptied. -/
def hollow : Node → Node
  | file _ => file (.text [])
  | directory entries => directory (hollowEntries entries)
  | link target => link target

/-- The entries of a directory with all files emptied. -/
def hollowEntries : List (String × Node) → List (String × Node)
  | [] => []
  | (name, node) :: rest => (name, node.hollow) :: hollowEntries rest

end

theorem hollowEntries_eq_map (entries : List (String × Node)) :
    hollowEntries entries = entries.map fun entry => (entry.1, entry.2.hollow) := by
  induction entries with
  | nil => rfl
  | cons entry rest ih => rw [hollowEntries, ih, List.map_cons]

theorem lookup_hollowEntries (name : String) (entries : List (String × Node)) :
    (hollowEntries entries).lookup name = (entries.lookup name).map hollow := by
  induction entries with
  | nil => rfl
  | cons entry rest ih =>
    obtain ⟨other, node⟩ := entry
    rw [hollowEntries, List.lookup_cons, List.lookup_cons, ih]
    split <;> rfl

theorem entries_hollow (node : Node) :
    node.hollow.entries = hollowEntries node.entries := by
  cases node <;> rfl

@[simp] theorem isDirectory_hollow (node : Node) :
    node.hollow.isDirectory = node.isDirectory := by
  cases node <;> rfl

theorem child?_hollow (node : Node) (name : String) :
    node.hollow.child? name = (node.child? name).map hollow := by
  rw [child?, entries_hollow, lookup_hollowEntries, child?]

theorem descend?_hollow (node : Node) (names : List String) :
    node.hollow.descend? names = (node.descend? names).map hollow := by
  induction names generalizing node with
  | nil => rfl
  | cons name rest ih =>
    rw [descend?, descend?, child?_hollow]
    rcases node.child? name with - | child
    · rfl
    · exact ih child

/-! ### Putting a file in place of a file -/

theorem lookup_cons_eq (name first : String) (node : Node) (rest : List (String × Node)) :
    ((first, node) :: rest).lookup name =
      if name = first then some node else rest.lookup name := by
  rw [List.lookup_cons]
  by_cases h : name = first
  · rw [if_pos h, beq_iff_eq.2 h]
  · rw [if_neg h, beq_false_of_ne h]

theorem lookup_setEntry (name other : String) (node : Node)
    (entries : List (String × Node)) :
    (setEntry name node entries).lookup other =
      if other = name then some node else entries.lookup other := by
  induction entries with
  | nil => exact lookup_cons_eq other name node []
  | cons entry rest ih =>
    obtain ⟨first, old⟩ := entry
    rw [setEntry, lookup_cons_eq]
    by_cases hfirst : first = name
    · rw [if_pos hfirst, lookup_cons_eq, hfirst]
      by_cases h : other = name
      · rw [if_pos h, if_pos h]
      · rw [if_neg h, if_neg h, if_neg h]
    · rw [if_neg hfirst, lookup_cons_eq, ih]
      by_cases h : other = first
      · rw [if_pos h, if_pos h, if_neg (h ▸ hfirst)]
      · rw [if_neg h, if_neg h]

theorem hollowEntries_setEntry {name : String} {node old : Node}
    {entries : List (String × Node)}
    (hold : entries.lookup name = some old) (hnode : node.hollow = old.hollow) :
    hollowEntries (setEntry name node entries) = hollowEntries entries := by
  induction entries with
  | nil => cases hold
  | cons entry rest ih =>
    obtain ⟨first, other⟩ := entry
    rw [setEntry]
    by_cases hfirst : first = name
    · rw [List.lookup_cons, hfirst, beq_self_eq_true] at hold
      obtain rfl := Option.some.inj hold
      rw [if_pos hfirst, hollowEntries, hollowEntries, hnode, hfirst]
    · rw [List.lookup_cons, beq_false_of_ne (Ne.symm hfirst)] at hold
      rw [if_neg hfirst, hollowEntries, hollowEntries, ih hold]

/-- What is found below a directory is found below one of its entries. -/
theorem child_of_descend {node found : Node} {name : String} {rest : List String}
    (h : node.descend? (name :: rest) = some found) :
    ∃ entries child, node = directory entries ∧ entries.lookup name = some child ∧
      child.descend? rest = some found := by
  obtain ⟨child, hchild, hfound⟩ := Option.bind_eq_some_iff.1 h
  cases node with
  | directory entries => exact ⟨entries, child, rfl, hchild, hfound⟩
  | file content => cases hchild
  | link target => cases hchild

theorem descend?_put_self {node old : Node} {place : List String} (new : Node)
    (h : node.descend? place = some old) :
    (node.put place new).descend? place = some new := by
  induction place generalizing node with
  | nil =>
    cases node <;> rfl
  | cons name rest ih =>
    obtain ⟨entries, child, rfl, hchild, hrest⟩ := child_of_descend h
    rw [put, hchild, descend?, child?, Node.entries, lookup_setEntry, if_pos rfl]
    exact ih hrest

theorem hollow_put {node old new : Node} {place : List String}
    (h : node.descend? place = some old) (hnew : new.hollow = old.hollow) :
    (node.put place new).hollow = node.hollow := by
  induction place generalizing node with
  | nil =>
    obtain rfl := Option.some.inj h
    cases node <;> exact hnew
  | cons name rest ih =>
    obtain ⟨entries, child, rfl, hchild, hrest⟩ := child_of_descend h
    rw [put, hchild, hollow, hollow, hollowEntries_setEntry hchild (ih hrest)]

/-- A file in place of a file leaves every other file as it is. -/
theorem descend?_put_of_ne {node : Node} {content content' : Content}
    {place other : List String}
    (new : Node) (h : node.descend? place = some (file content))
    (hother : node.descend? other = some (file content')) (hne : other ≠ place) :
    (node.put place new).descend? other = some (file content') := by
  induction place generalizing node other with
  | nil =>
    -- the node is a file itself, and nothing lies below a file
    obtain rfl := Option.some.inj h
    cases other with
    | nil => exact absurd rfl hne
    | cons name rest =>
      obtain ⟨_, _, hnode, -⟩ := child_of_descend hother
      cases hnode
  | cons name rest ih =>
    obtain ⟨entries, child, rfl, hchild, hrest⟩ := child_of_descend h
    cases other with
    | nil => cases hother
    | cons name' rest' =>
      obtain ⟨_, child', hentries, hchild', hrest'⟩ := child_of_descend hother
      cases hentries
      rw [put, hchild, descend?, child?, Node.entries, lookup_setEntry]
      by_cases hname : name' = name
      · subst hname
        obtain rfl := Option.some.inj (hchild.symm.trans hchild')
        rw [if_pos rfl]
        exact ih hrest hrest' fun heq => hne (by rw [heq])
      · rw [if_neg hname, hchild']
        exact hrest'

end Node

/-! ### Following paths -/

/-- A place in the file system with all files emptied. -/
def Place.hollow (place : Place) : Place := ⟨place.names, place.node.map Node.hollow⟩

section Follow

variable {root : Node} {through : Bool}

theorem followNames_hollow
    {onward onward' : List String → List String → Except AccessError Place}
    (honward : ∀ current names,
      onward' current names = (onward current names).map Place.hollow)
    (current names : List String) :
    followNames root.hollow through onward' current names =
      (followNames root through onward current names).map Place.hollow := by
  induction names generalizing current with
  | nil =>
    rw [followNames, followNames, Node.descend?_hollow]
    rfl
  | cons name rest ih =>
    rw [followNames, followNames]
    split
    · exact ih current
    · split
      · exact ih _
      · simp only [Node.descend?_hollow]
        rcases root.descend? (current ++ [name]) with - | ⟨content | entries | target⟩
        · simp only [Option.map_none]
          split <;> rfl
        · simp only [Option.map_some, Node.hollow]
          split <;> rfl
        · exact ih _
        · simp only [Option.map_some, Node.hollow]
          split
          · rfl
          · exact honward _ _

theorem follow_hollow (n : Nat) (current names : List String) :
    follow root.hollow through n current names =
      (follow root through n current names).map Place.hollow := by
  induction n generalizing current names with
  | zero =>
    refine followNames_hollow ?_ current names
    intro current names
    rfl
  | succ n ih => exact followNames_hollow ih current names

/-- The node of a place is the one that its names lead to. -/
theorem descend?_of_followNames
    {onward : List String → List String → Except AccessError Place}
    (honward : ∀ {current names place}, onward current names = .ok place →
      place.node = root.descend? place.names)
    {current names : List String} {place : Place}
    (h : followNames root through onward current names = .ok place) :
    place.node = root.descend? place.names := by
  induction names generalizing current with
  | nil =>
    obtain rfl := Except.ok.inj h
    rfl
  | cons name rest ih =>
    rw [followNames] at h
    split at h
    · exact ih h
    · split at h
      · exact ih h
      · simp only at h
        split at h
        · next hnone =>
          split at h
          · obtain rfl := Except.ok.inj h
            exact hnone.symm
          · cases h
        · exact ih h
        · next hfile =>
          split at h
          · obtain rfl := Except.ok.inj h
            exact hfile.symm
          · cases h
        · next hlink =>
          split at h
          · obtain rfl := Except.ok.inj h
            exact hlink.symm
          · exact honward h

theorem descend?_of_follow {n : Nat} {current names : List String} {place : Place}
    (h : follow root through n current names = .ok place) :
    place.node = root.descend? place.names := by
  induction n generalizing current names place with
  | zero =>
    refine descend?_of_followNames (fun honward => ?_) h
    cases honward
  | succ n ih => exact descend?_of_followNames (fun honward => ih honward) h

end Follow

namespace FileSystem

/-- The file system with all files emptied. -/
def hollow (fs : FileSystem) : FileSystem := { fs with root := fs.root.hollow }

/-- Holds if two file systems have the same directories, links and files,
whatever the files hold. -/
def SameTree (fs fs' : FileSystem) : Prop := fs.hollow = fs'.hollow

theorem SameTree.refl (fs : FileSystem) : fs.SameTree fs := rfl

theorem SameTree.symm {fs fs' : FileSystem} (h : fs.SameTree fs') :
    fs'.SameTree fs := Eq.symm h

theorem SameTree.trans {fs fs' fs'' : FileSystem} (h : fs.SameTree fs')
    (h' : fs'.SameTree fs'') :
    fs.SameTree fs'' :=
  Eq.trans h h'

theorem locate_hollow (fs : FileSystem) (through : Bool) (path : String) :
    fs.hollow.locate through path = (fs.locate through path).map Place.hollow := by
  unfold locate
  split
  · rfl
  · exact follow_hollow maxLinks _ _

theorem node_of_locate {fs : FileSystem} {through : Bool} {path : String} {place : Place}
    (h : fs.locate through path = .ok place) :
    place.node = fs.root.descend? place.names := by
  unfold FileSystem.locate at h
  split at h
  · cases h
  · exact descend?_of_follow h

/-! ### The file that a path leads to -/

/-- The names that lead to what a path stands for. -/
def place? (fs : FileSystem) (path : String) : Option (List String) :=
  match fs.locate true path with
  | .ok place => some place.names
  | .error _ => none

/-- Holds if two paths lead to the same place. -/
def sameFile (fs : FileSystem) (path path' : String) : Bool :=
  (fs.place? path).isSome && fs.place? path == fs.place? path'

/-- The content of the file that a path leads to. -/
def content? (fs : FileSystem) (path : String) : Option Content :=
  match fs.node path with
  | .ok (.file content) => some content
  | _ => none

theorem sameFile_iff {fs : FileSystem} {path path' : String} :
    fs.sameFile path path' = true ↔
      ∃ place, fs.place? path = some place ∧ fs.place? path' = some place := by
  unfold sameFile
  rcases fs.place? path with - | place
  · simp
  · rw [Option.isSome_some, Bool.true_and, beq_iff_eq]
    exact ⟨fun h => ⟨place, rfl, h.symm⟩, fun ⟨_, h, h'⟩ => h.trans h'.symm⟩

theorem sameFile_self_of_content {fs : FileSystem} {path : String} {content : Content}
    (h : fs.content? path = some content) : fs.sameFile path path = true := by
  unfold content? node at h
  rcases hplace : fs.locate true path with e | place
  · rw [hplace] at h
    cases h
  · exact sameFile_iff.2 ⟨place.names, by simp [place?, hplace], by simp [place?, hplace]⟩

theorem place?_hollow (fs : FileSystem) (path : String) :
    fs.hollow.place? path = fs.place? path := by
  unfold place?
  rw [locate_hollow]
  rcases fs.locate true path with e | place <;> rfl

theorem SameTree.place? {fs fs' : FileSystem} (h : fs.SameTree fs') (path : String) :
    fs.place? path = fs'.place? path := by
  rw [← place?_hollow, h, place?_hollow]

theorem SameTree.sameFile {fs fs' : FileSystem} (h : fs.SameTree fs')
    (path path' : String) :
    fs.sameFile path path' = fs'.sameFile path path' := by
  unfold FileSystem.sameFile
  rw [h.place? path, h.place? path']

/-- The content of a path is that of the file at its place. -/
theorem content?_eq_some_iff {fs : FileSystem} {path : String} {content : Content} :
    fs.content? path = some content ↔
      ∃ place, fs.place? path = some place ∧ fs.root.descend? place =
        some (.file content) := by
  unfold content? node place?
  rcases hplace : fs.locate true path with e | ⟨names, node⟩
  · simp
  · have hnode := node_of_locate hplace
    simp only at hnode
    subst hnode
    simp only [nodeOf, Option.some.injEq, exists_eq_left']
    rcases fs.root.descend? names with - | ⟨content' | entries | target⟩ <;> simp

/-- Paths to the same place hold the same. -/
theorem content?_of_sameFile {fs : FileSystem} {path path' : String}
    (h : fs.sameFile path path' = true) : fs.content? path = fs.content? path' := by
  obtain ⟨place, hplace, hplace'⟩ := sameFile_iff.1 h
  refine Option.ext fun content => ?_
  rw [content?_eq_some_iff, content?_eq_some_iff, hplace, hplace']

theorem SameTree.content?_isSome {fs fs' : FileSystem} (h : fs.SameTree fs')
    {path : String}
    {content : Content} (hcontent : fs.content? path = some content) :
    ∃ content', fs'.content? path = some content' := by
  obtain ⟨place, hplace, hfile⟩ := content?_eq_some_iff.1 hcontent
  have hroot : fs.root.hollow = fs'.root.hollow := congrArg FileSystem.root h
  have hfile' : fs'.root.hollow.descend? place = some (.file (.text [])) := by
    rw [← hroot, Node.descend?_hollow, hfile]
    rfl
  rw [Node.descend?_hollow] at hfile'
  obtain ⟨node, hnode, hhollow⟩ := Option.map_eq_some_iff.1 hfile'
  cases node with
  | file content' =>
    exact ⟨content', content?_eq_some_iff.2 ⟨place, h.place? path ▸ hplace, hnode⟩⟩
  | directory entries => cases hhollow
  | link target => cases hhollow

/-! ### Writing -/

/-- Writing to a file that is there succeeds and puts the content at its
place. -/
theorem write_of_content {fs : FileSystem} {path : String} {content : Content}
    (h : fs.content? path = some content) (new : Content) :
    ∃ place, fs.place? path = some place ∧ fs.root.descend? place = some (.file content) ∧
      fs.write path new = .ok { fs with root := fs.root.put place (.file new) } := by
  obtain ⟨names, hplace, hfile⟩ := content?_eq_some_iff.1 h
  refine ⟨names, hplace, hfile, ?_⟩
  unfold place? at hplace
  split at hplace
  · next place hlocate =>
    obtain rfl := Option.some.inj hplace
    have hnode := node_of_locate hlocate
    rw [hfile] at hnode
    unfold write
    rw [hlocate]
    simp only [hnode]
  · cases hplace

theorem sameTree_write {fs fs' : FileSystem} {path : String} {content new : Content}
    (h : fs.content? path = some content) (hwrite : fs.write path new = .ok fs') :
    fs'.SameTree fs := by
  obtain ⟨place, -, hfile, hok⟩ := write_of_content h new
  obtain rfl := Except.ok.inj (hok.symm.trans hwrite)
  have hroot : (fs.root.put place (.file new)).hollow = fs.root.hollow :=
    Node.hollow_put hfile rfl
  show FileSystem.mk _ _ = FileSystem.mk _ _
  rw [hroot]

/-- Writing to a file changes what the paths hold that lead to it, and nothing
else. -/
theorem content?_write {fs fs' : FileSystem} {path : String} {content new : Content}
    (h : fs.content? path = some content) (hwrite : fs.write path new = .ok fs')
    (other : String) :
    fs'.content? other = if fs.sameFile path other then some new else
      fs.content? other := by
  have htree := sameTree_write h hwrite
  obtain ⟨place, hplace, hfile, hok⟩ := write_of_content h new
  obtain rfl := Except.ok.inj (hok.symm.trans hwrite)
  split
  · next hsame =>
    obtain ⟨place', hpath, hother⟩ := sameFile_iff.1 hsame
    obtain rfl := Option.some.inj (hplace.symm.trans hpath)
    exact content?_eq_some_iff.2
      ⟨place, htree.place? other ▸ hother, Node.descend?_put_self (.file new) hfile⟩
  · next hsame =>
    -- another file stays as it is, and what is no file does not become one
    refine Option.ext fun content' => ⟨fun hafter => ?_, fun hbefore => ?_⟩
    · obtain ⟨before, hbefore⟩ := htree.content?_isSome hafter
      have hkept :
          FileSystem.content? { fs with root := fs.root.put place (.file new) } other =
            some before := by
        obtain ⟨place', hother, hfile'⟩ := content?_eq_some_iff.1 hbefore
        have hne : place' ≠ place :=
          fun heq => hsame (sameFile_iff.2 ⟨place, hplace, heq ▸ hother⟩)
        exact content?_eq_some_iff.2 ⟨place', htree.symm.place? other ▸ hother,
          Node.descend?_put_of_ne _ hfile hfile' hne⟩
      rw [hbefore, ← hkept, hafter]
    · obtain ⟨place', hother, hfile'⟩ := content?_eq_some_iff.1 hbefore
      have hne : place' ≠ place :=
        fun heq => hsame (sameFile_iff.2 ⟨place, hplace, heq ▸ hother⟩)
      exact content?_eq_some_iff.2 ⟨place', htree.symm.place? other ▸ hother,
        Node.descend?_put_of_ne _ hfile hfile' hne⟩

/-- A text that can be read is the content of its path. -/
theorem readText_eq_ok_iff {fs : FileSystem} {path : String} {text : List Char} :
    fs.readText path = .ok text ↔ fs.content? path = some (.text text) := by
  unfold readText content?
  rcases fs.node path with e | ⟨(chars | bytes) | entries | target⟩ <;> simp

end FileSystem

end AnimLint.Files
