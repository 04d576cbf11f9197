/-
AnimLint/Proofs/WriteRead.lean

What is written to a path is what the path holds then, be the file new or there
before.  A path may go through directories, up again and over links before it
comes to the file; none of these is changed otherwise than that a directory gets
an entry, so the path leads to the same place after the write.

Main results: `Files.Leads.put`, `Files.FileSystem.readText_write`.
-/
import AnimLint.Proofs.Arrival

namespace AnimLint.Files

namespace Node

/-! ### What a file put somewhere leaves as it is -/

/-- Holds of nodes that a file can be put in place of: there is none, or it is a
file. -/
def isWritable : Option Node → Bool
  | none => true
  | some (file _) => true
  | some _ => false

/-- What becomes of a node when a file is put somewhere else: a directory may
get another entry. -/
def Keeps : Node → Node → Prop
  | directory _, kept => kept.isDirectory = true
  | node, kept => kept = node

theorem Keeps.refl (node : Node) : node.Keeps node := by
  cases node <;> rfl

/-- Where nothing is in a directory, what is put there is found there. -/
theorem descend?_put_new {node : Node} {place : List String} {name : String}
    {entries : List (String × Node)} (new : Node)
    (h : node.descend? place = some (directory entries))
    (hnone : node.descend? (place ++ [name]) = none) :
    (node.put (place ++ [name]) new).descend? (place ++ [name]) = some new := by
  induction place generalizing node with
  | nil =>
    obtain rfl := Option.some.inj h
    have hlookup : entries.lookup name = none := by
      rcases hfound : entries.lookup name with - | found
      · rfl
      · rw [List.nil_append, descend?, child?, Node.entries, hfound] at hnone
        cases found <;> cases hnone
    rw [List.nil_append, put, hlookup]
    simp only [List.isEmpty_nil, if_true]
    rw [descend?, child?, Node.entries, lookup_setEntry, if_pos rfl]
    cases new <;> rfl
  | cons first rest ih =>
    obtain ⟨entries', child, rfl, hchild, hrest⟩ := child_of_descend h
    have hnone' : child.descend? (rest ++ [name]) = none := by
      rw [List.cons_append, descend?, child?, Node.entries, hchild] at hnone
      exact hnone
    rw [List.cons_append, put, hchild, descend?, child?, Node.entries,
      lookup_setEntry, if_pos rfl]
    exact ih hrest hnone'

/-- A file put in place of a file, or where nothing is, leaves directories and
links as they are. -/
theorem exists_kept {node found : Node} {place other : List String} (new : Node)
    (hplace : isWritable (node.descend? place) = true)
    (hother : node.descend? other = some found)
    (hfound : isWritable (some found) = false) :
    ∃ kept, (node.put place new).descend? other = some kept ∧ found.Keeps kept := by
  induction place generalizing node other with
  | nil =>
    -- the node is a file itself, with nothing below it
    cases node with
    | directory entries => cases hplace
    | link target => cases hplace
    | file content =>
      cases other with
      | nil =>
        obtain rfl := Option.some.inj hother
        cases hfound
      | cons name rest =>
        obtain ⟨_, _, hnode, -⟩ := child_of_descend hother
        cases hnode
  | cons name rest ih =>
    cases node with
    | file content => exact ⟨found, hother, .refl found⟩
    | link target => exact ⟨found, hother, .refl found⟩
    | directory entries =>
      cases other with
      | nil =>
        obtain rfl := Option.some.inj hother
        rw [put]
        split
        · exact ⟨_, rfl, rfl⟩
        · split
          · exact ⟨_, rfl, rfl⟩
          · exact ⟨_, rfl, rfl⟩
      | cons name' rest' =>
        obtain ⟨_, child, hentries, hchild, hrest⟩ := child_of_descend hother
        cases hentries
        rw [put]
        rcases hlookup : entries.lookup name with - | old
        · -- the entry that comes new is another one
          have hne : name' ≠ name := by
            rintro rfl
            rw [hlookup] at hchild
            cases hchild
          simp only
          split
          · refine ⟨found, ?_, .refl found⟩
            rw [descend?, child?, Node.entries, lookup_setEntry, if_neg hne, hchild]
            exact hrest
          · exact ⟨found, hother, .refl found⟩
        · simp only
          rw [descend?, child?, Node.entries, lookup_setEntry]
          by_cases hname : name' = name
          · subst hname
            obtain rfl := Option.some.inj (hlookup.symm.trans hchild)
            have hplace' : isWritable (old.descend? rest) = true := by
              rw [descend?, child?, Node.entries, hlookup] at hplace
              exact hplace
            rw [if_pos rfl]
            exact ih hplace' hrest
          · refine ⟨found, ?_, .refl found⟩
            rw [if_neg hname, hchild]
            exact hrest

end Node

/-! ### Following a path once more -/

/-- Followed to its end, a path from a directory leads to no link. -/
theorem Leads.isWritable {root : Node} {n : Nat} {current names : List String}
    {place : Place}
    {entries : List (String × Node)} (h : Leads root true n current names place)
    (hcurrent : root.descend? current = some (.directory entries))
    (hplace : ∀ entries, place.node ≠ some (.directory entries)) :
    Node.isWritable place.node = true := by
  induction h generalizing entries with
  | here => exact absurd hcurrent (hplace entries)
  | idle _ _ ih => exact ih hcurrent hplace
  | up _ ih =>
    obtain ⟨entries', hparent⟩ := Node.directory_dropLast hcurrent
    exact ih hparent hplace
  | absent => rfl
  | enter _ _ hdirectory _ ih => exact ih hdirectory hplace
  | file => rfl
  | stop hthrough => cases hthrough
  | link _ _ _ _ _ ih =>
    obtain ⟨entries', hstart⟩ := Node.directory_start hcurrent (isAbsolute _)
    exact ih hstart hplace

/-- **A path leads to the same place after a file is put there**, and the file
is what is found. -/
theorem Leads.put {root : Node} {n : Nat} {current names : List String} {place : Place}
    {entries : List (String × Node)} (h : Leads root true n current names place)
    (hcurrent : root.descend? current = some (.directory entries))
    (hplace : Node.isWritable place.node = true) (content : Content) :
    Leads (root.put place.names (.file content)) true n current names
      ⟨place.names, some (.file content)⟩ := by
  have hnode : ∀ {n current names place}, Leads root true n current names place →
      place.node = root.descend? place.names :=
    fun h => descend?_of_follow (follow_of_leads h)
  induction h generalizing entries with
  | here =>
    rw [hcurrent] at hplace
    cases hplace
  | idle hidle _ ih => exact .idle hidle (ih hcurrent hplace)
  | up _ ih =>
    obtain ⟨entries', hparent⟩ := Node.directory_dropLast hcurrent
    exact .up (ih hparent hplace)
  | absent hidle hup hnone =>
    exact .file hidle hup (Node.descend?_put_new _ hcurrent hnone)
  | enter hidle hup hdirectory hrest ih =>
    have hwritable := hplace
    rw [hnode hrest] at hwritable
    obtain ⟨kept, hkept, hkeeps⟩ :=
      Node.exists_kept (.file content) hwritable hdirectory rfl
    cases kept with
    | directory entries' => exact .enter hidle hup hkept (ih hdirectory hplace)
    | file content' => cases hkeeps
    | link target => cases hkeeps
  | file hidle hup hfile => exact .file hidle hup (Node.descend?_put_self _ hfile)
  | stop hthrough => cases hthrough
  | link hgo hidle hup hlink hrest ih =>
    have hwritable := hplace
    rw [hnode hrest] at hwritable
    obtain ⟨kept, hkept, rfl⟩ := Node.exists_kept (.file content) hwritable hlink rfl
    obtain ⟨entries', hstart⟩ := Node.directory_start hcurrent (isAbsolute _)
    exact .link hgo hidle hup hkept (ih hstart hplace)

namespace FileSystem

/-- **What is written to a path is read from it.** -/
theorem readText_write {fs fs' : FileSystem} (hcurrent : fs.hasDirectory "." = true)
    {path : String}
    {text : List Char} (h : fs.write path (.text text) = .ok fs') :
    fs'.readText path = .ok text := by
  obtain ⟨entries, hentries⟩ := exists_current hcurrent
  obtain ⟨entries', hstart⟩ := Node.directory_start hentries (isAbsolute path)
  unfold write at h
  split at h
  · cases h
  · next place node hlocate =>
    have hafter : fs' = { fs with root := fs.root.put place (.file (.text text)) } ∧
        ∀ entries, node ≠ some (.directory entries) := by
      split at h
      · cases h
      · next hdirectory => exact ⟨(Except.ok.inj h).symm, hdirectory⟩
    obtain ⟨rfl, hdirectory⟩ := hafter
    unfold locate at hlocate
    split at hlocate
    · cases hlocate
    · next hpath =>
      have hleads := leads_of_follow hlocate
      have hagain := follow_of_leads
        (hleads.put hstart (hleads.isWritable hstart hdirectory) (.text text))
      rw [readText, FileSystem.node, locate, if_neg hpath, hagain]
      rfl

end FileSystem

end AnimLint.Files
