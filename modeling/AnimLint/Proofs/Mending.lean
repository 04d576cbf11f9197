/-
AnimLint/Proofs/Mending.lean

How many zones of a script can be mended.  A zone can if a line break separates
its arguments and no line comment stands between them, and the zones that count
are those of calls that are looked at, which is told by the text of the callee
(`Tree.mends`).  What stands in front of a tree does not matter
(`mends_withLead`); a zone that a pass leaves alone counts as before
(`callMends_passed`), and one whose lines are joined counts no more
(`zoneMends_tidied`).
-/
import AnimLint.Proofs.Sides
import Mathlib.Data.List.TakeWhile

namespace AnimLint.Script.Tree

open Text Gap Mark

/-! ### Zones to mend -/

/-- Holds of the pieces of a zone that can be mended. -/
def piecesMended (pieces : List Piece) : Bool :=
  piecesBreak pieces && !piecesComment pieces

/-- One for the pieces of a zone that can be mended, in a call that is looked
at. -/
def zoneMends (looked : Bool) (pieces : List Piece) : Nat :=
  (looked && piecesMended pieces).toNat

/-- The number of zones that can be mended between the parentheses of a call. -/
def callMends (looked : Bool) (items : List Tree) (closing : Token) : Nat :=
  match items.dropWhile (!·.isObject) with
  | [] => 0
  | first :: rest =>
    zoneMends looked
      (piecesOf (triviaText first.lead) [] (items.takeWhile (!·.isObject))) +
      zoneMends looked
        (piecesOf (triviaText closing.trivia) []
          (rest.reverse.takeWhile (!·.isObject)).reverse)

mutual

/-- The number of zones that can be mended in a tree, in calls whose callee
looks right. -/
def mends (looks : List Char → Bool) : Tree → Nat
  | leaf _ => 0
  | node _ parts => mendsAll looks parts
  | call callee types _ items closing =>
    callMends (looks callee.solid) items closing +
      (mends looks callee + (mendsAll looks types + mendsAll looks items))

/-- The number of zones that can be mended in a row of trees. -/
def mendsAll (looks : List Char → Bool) : List Tree → Nat
  | [] => 0
  | t :: ts => mends looks t + mendsAll looks ts

end

variable {looks : List Char → Bool} {items front middle back : List Tree} {first : Tree}

theorem callMends_none (h : ∀ t ∈ items, t.isObject = false) (looked : Bool)
    (closing : Token) :
    callMends looked items closing = 0 := by
  have hnil : items.dropWhile (!·.isObject) = [] := by
    rw [List.dropWhile_eq_nil_iff]
    intro t ht
    simp [h t ht]
  rw [callMends, hnil]

theorem takeWhile_none {ts rest : List Tree} (h : ∀ t ∈ ts, t.isObject = false)
    {object : Tree} (hobject : object.isObject = true) :
    (ts ++ object :: rest).takeWhile (!·.isObject) = ts := by
  rw [List.takeWhile_append_of_pos fun t ht => by simp [h t ht],
    List.takeWhile_cons_of_neg, List.append_nil]
  simp [hobject]

theorem callMends_config (h : Config items front first middle back) (looked : Bool)
    (closing : Token) :
    callMends looked items closing =
      zoneMends looked (piecesOf (triviaText first.lead) [] front) +
        zoneMends looked (piecesOf (triviaText closing.trivia) [] back) := by
  have hitems : items = front ++ first :: (middle ++ back) := by
    rw [h.items_eq, List.cons_append]
  have hdrop : items.dropWhile (!·.isObject) = first :: (middle ++ back) := by
    rw [hitems, List.dropWhile_append_of_pos fun t ht => by simp [h.front_none t ht],
      List.dropWhile_cons_of_neg]
    simp [h.first_object]
  have hback : ((middle ++ back).reverse.takeWhile (!·.isObject)).reverse = back := by
    have hnone : ∀ t ∈ back.reverse, t.isObject = false := fun t ht =>
      h.back_none t (List.mem_reverse.1 ht)
    rw [List.reverse_append]
    rcases List.eq_nil_or_concat middle with rfl | ⟨init, object, rfl⟩
    · rw [List.reverse_nil, List.append_nil, List.takeWhile_eq_self_iff.2,
        List.reverse_reverse]
      intro t ht
      simp [hnone t ht]
    · -- the last of the arguments up to the last object is that object
      obtain ⟨init', object', hlast, hobject⟩ := h.last_object
      rw [List.concat_eq_append, ← List.cons_append] at hlast
      obtain ⟨-, hlast⟩ := List.append_inj' hlast rfl
      obtain rfl := (List.cons.inj hlast).1
      rw [List.concat_eq_append, List.reverse_append, List.reverse_singleton,
        List.singleton_append, takeWhile_none hnone hobject, List.reverse_reverse]
  rw [callMends, hdrop]
  simp only [hback]
  rw [hitems, takeWhile_none h.front_none h.first_object]

theorem mendsAll_append (a b : List Tree) :
    mendsAll looks (a ++ b) = mendsAll looks a + mendsAll looks b := by
  induction a with
  | nil => rw [List.nil_append, mendsAll, Nat.zero_add]
  | cons t a ih => rw [List.cons_append, mendsAll, mendsAll, ih, Nat.add_assoc]

/-! ### Trivia in front -/

theorem lead_withLead {t : Tree} (ht : t.IsItem) (row : List Trivia) :
    (t.withLead row).lead = row := by
  rw [lead, tokens_withLead row t ht.isSound, leadOf_relead ht.tokens_ne_nil]

theorem solid_withLead {t : Tree} (ht : t.isSound = true) (row : List Trivia) :
    (t.withLead row).solid = t.solid := by
  rw [solid, solid, tokens_withLead row t ht, solidOf_relead]

/-- What stands in front of a tree does not change its zones. -/
theorem mends_withLead (t : Tree) (ht : t.isSound = true) (row : List Trivia) :
    (t.withLead row).mends looks = t.mends looks := by
  induction t using induct with
  | leaf s => rfl
  | node kind parts ih =>
    have hparts := areSound_iff.1 ht
    show mendsAll looks (withLeadAll row parts) = mendsAll looks parts
    -- the row goes to the first part that has a token
    induction parts with
    | nil => rfl
    | cons t ts ihts =>
      rw [withLeadAll]
      split
      · rw [mendsAll, mendsAll, ih t List.mem_cons_self (hparts t List.mem_cons_self)]
      · have hrest := fun u hu => hparts u (List.mem_cons_of_mem t hu)
        rw [mendsAll, mendsAll,
          ihts (fun u hu => ih u (List.mem_cons_of_mem t hu))
            (areSound_iff.2 hrest) hrest]
  | call callee types opening items closing hcallee _ _ =>
    have hsound := (soundCall ht).calleeSound
    rw [withLead, mends, mends, hcallee hsound, solid_withLead hsound]

theorem mendsAll_tidied {ts ts' : List Tree} (hsound : ∀ t ∈ ts, t.isSound = true)
    (h : Tidied ts ts') : mendsAll looks ts' = mendsAll looks ts := by
  induction h with
  | nil => rfl
  | @cons t row ts ts' _ _ ih =>
    rw [mendsAll, mendsAll, mends_withLead t (hsound t List.mem_cons_self),
      ih fun u hu => hsound u (List.mem_cons_of_mem t hu)]

theorem none_isObject_tidied {ts ts' : List Tree} (h : Tidied ts ts')
    (hnone : ∀ t ∈ ts, t.isObject = false) : ∀ t ∈ ts', t.isObject = false := by
  induction h with
  | nil => exact hnone
  | @cons t row ts ts' _ _ ih =>
    intro u hu
    rcases List.mem_cons.1 hu with rfl | hu
    · rw [isObject_withLead, hnone t List.mem_cons_self]
    · exact ih (fun v hv => hnone v (List.mem_cons_of_mem t hv)) u hu

/-! ### Joined zones -/

theorem piecesBreak_gapPiece (g : List Char) :
    piecesBreak (gapPiece g) = hasLineBreak g := by
  rcases g with - | ⟨c, r⟩
  · rfl
  · simp [gapPiece, piecesBreak]

/-- No line break separates items behind tidied rows. -/
theorem piecesBreak_tidied {ts ts' : List Tree} (hitems : ∀ t ∈ ts, t.IsItem)
    (h : Tidied ts ts')
    {last row : List Trivia} (hrow : Tidies last row) (ms : List Mark)
    (hms : ms.all isProper = true) (hbreak : ms.any isBreak = false) :
    piecesBreak (piecesOf (triviaText row) (marksText ms) ts') = false := by
  have hmarks {last row : List Trivia} (h : Tidies last row) :
      marksText (rowMarks row) = triviaText row ∧ (rowMarks row).all isProper = true := by
    obtain ⟨htext, hspacing⟩ := rowMarks_spec (all_isSpacing_of_isGapRow h.isGapRow)
    exact ⟨htext, all_isProper hspacing⟩
  have hgap {ns : List Mark} (hns : ns.all isProper = true)
      (hbreak : ns.any isBreak = false) :
      piecesBreak (gapPiece (marksText ns)) = false := by
    rw [piecesBreak_gapPiece, hasLineBreak_marksText hns, hbreak]
  -- `ms` is what has been read of the gap so far: a comma adds to it, and an
  -- argument ends it
  induction h generalizing ms with
  | nil =>
    obtain ⟨htext, hproper⟩ := hmarks hrow
    rw [piecesOf, ← htext, ← marksText_append]
    apply hgap
    · rw [List.all_append, hms, hproper]
      rfl
    · rw [List.any_append, hbreak, hrow.unbroken]
      rfl
  | @cons t row' ts ts' hrow' _ ih =>
    have ht := hitems t List.mem_cons_self
    have hrest := fun u hu => hitems u (List.mem_cons_of_mem t hu)
    obtain ⟨htext, hproper⟩ := hmarks hrow'
    have hall : (ms ++ rowMarks row').all isProper = true := by
      rw [List.all_append, hms, hproper]
      rfl
    have hany : (ms ++ rowMarks row').any isBreak = false := by
      rw [List.any_append, hbreak, hrow'.unbroken]
      rfl
    rw [piecesOf, isComma_withLead, lead_withLead ht, ← htext]
    split
    · next hcomma =>
      have hpending : marksText ms ++ (t.withLead row').source =
          marksText (ms ++ rowMarks row' ++ [.char ',']) := by
        rw [source_withLead ht.isSound ht.tokens_ne_nil, solid_of_isComma hcomma, ← htext]
        simp [Mark.text]
      rw [hpending]
      apply ih hrest
      · rw [List.all_append, hall]
        rfl
      · rw [List.any_append, hany]
        rfl
    · have hbehind := ih hrest [] rfl rfl
      rw [← marksText_append, piecesBreak_append, hgap hall hany, Bool.false_or]
      exact hbehind

/-- A zone whose lines are joined can be mended no more. -/
theorem zoneMends_tidied (looked : Bool) {ts ts' : List Tree}
    (hitems : ∀ t ∈ ts, t.IsItem)
    (h : Tidied ts ts') {last row : List Trivia} (hrow : Tidies last row) :
    zoneMends looked (piecesOf (triviaText row) [] ts') = 0 := by
  have hjoined := piecesBreak_tidied hitems h hrow [] rfl rfl
  rw [marksText_nil] at hjoined
  simp [zoneMends, piecesMended, hjoined]

/-! ### Zones that are left alone -/

variable {joins : Site → Side → Prop}

theorem zoneMends_passed (looked : Bool) {ts ts' : List Tree}
    (hsound : ∀ t ∈ ts, t.isSound = true)
    {start : Nat} (h : AllPassed joins start ts ts') (last : List Char) :
    zoneMends looked (piecesOf last [] ts') = zoneMends looked (piecesOf last [] ts) := by
  have hcomment : piecesComment (piecesOf last [] ts') =
      piecesComment (piecesOf last [] ts) :=
    any_piecesOf_passed (fun _ => rfl) hsound h last []
  rw [zoneMends, zoneMends, piecesMended, piecesMended, piecesBreak_passed hsound h,
    hcomment]

/-- Where a pass leaves the zones of a call alone, as many can be mended. -/
theorem callMends_passed (looked : Bool) {items' : List Tree}
    (hsound : ∀ t ∈ items, t.isSound = true) {start : Nat}
    (h : AllPassed joins start items items') (closing : Token) :
    callMends looked items' closing = callMends looked items closing := by
  rcases config_or_none items with ⟨front, first, middle, back, hconfig⟩ | hnone
  · obtain ⟨front', first', middle', back', _, _, hconfig', hfront, hfirst, hback⟩ :=
      config_passed hconfig h
    have hparts := hconfig.items_eq
    have hfirstSound : first.isSound = true := hsound first (by simp [hparts])
    have hlead : first'.lead = first.lead :=
      (lead_of_firstToken hfirstSound (isSound_passed first hfirstSound _ _ hfirst)
        (firstToken_passed first _ _ hfirst)).1
    rw [callMends_config hconfig, callMends_config hconfig', hlead,
      zoneMends_passed looked (fun t ht => hsound t (by simp [hparts, ht])) hfront,
      zoneMends_passed looked (fun t ht => hsound t (by simp [hparts, ht])) hback]
  · rw [callMends_none hnone, callMends_none (none_isObject_passed h hnone)]

end AnimLint.Script.Tree
