/-
AnimLint/Proofs/Recheck.lean

One call is checked, the edits of its zones are applied in one batch, and the
call is checked again where it now stands.  A zone that is joined is a row of
the same arguments behind joined gaps (`compactLeading_slots`,
`compactTrailing_slots`), so what comes out is the layout of the call with other
gaps (`rewrites_joined`), in which everything else is as it was and each gap has
the commas and comments it had (`keeps_joined`).  The zones are found anew in
the text that comes out; those that had an edit are no longer violations, and
the others are the violations they were (`recheck_zone`).
-/
import AnimLint.Proofs.Containment
import AnimLint.Proofs.Joining
import AnimLint.Proofs.Layout
import Mathlib.Data.List.Forall2

namespace AnimLint

open Text Gap Script.Tree

/-! ### Joined rows -/

/-- A row with the lines of its gaps joined. -/
def joinSlots (row : List Slot) : List Slot :=
  row.map fun s => ⟨compactGap s.gap, s.argument⟩

/-- A row and the gap behind it with their lines joined, where the first gap
loses the blanks it starts with. -/
def joinFront : List Slot → List Char → List Slot × List Char
  | [], lead => ([], trimStart (compactGap lead))
  | s :: r, lead =>
    (⟨trimStart (compactGap s.gap), s.argument⟩ :: joinSlots r, compactGap lead)

theorem flatMap_compact_slots (lead : List Char) (row : List Slot) :
    (slotPieces lead row).flatMap Piece.compact =
      slotsText (joinSlots row) ++ compactGap lead := by
  induction row with
  | nil => rw [slotPieces, flatMap_compact_gapPiece]; rfl
  | cons s row ih =>
    rw [slotPieces, List.flatMap_append, flatMap_compact_gapPiece, List.flatMap_cons, ih]
    simp [joinSlots, Piece.compact]

/-- The one-line form of the pieces of a row in front of an object. -/
theorem compactLeading_slots (lead : List Char) (row : List Slot) :
    compactLeading (slotPieces lead row) =
      slotsText (joinFront row lead).1 ++ (joinFront row lead).2 := by
  rcases row with - | ⟨⟨gap, argument⟩, row⟩
  · rcases lead with - | ⟨c, lead⟩ <;>
      simp [slotPieces, gapPiece, joinFront, compactLeading, trimStart,
      compactGap, segments, segmentsFrom, finish]
  · have hrest := flatMap_compact_slots lead row
    rcases gap with - | ⟨c, gap⟩
    · show argument ++ (slotPieces lead row).flatMap Piece.compact = _
      rw [hrest]
      simp [joinFront, trimStart, compactGap, segments, segmentsFrom, finish]
    · show trimStart (compactGap (c :: gap)) ++ (argument ++
        (slotPieces lead row).flatMap Piece.compact) = _
      rw [hrest]
      simp [joinFront]

/-- The one-line form of the pieces of a row in front of the `)`. -/
theorem compactTrailing_slots (last : List Char) (row : List Slot) :
    compactTrailing (slotPieces last row) =
      slotsText (joinSlots row) ++ trimEnd (compactGap last) := by
  induction row with
  | nil => rcases last with - | ⟨c, last⟩ <;> rfl
  | cons s row ih =>
    obtain ⟨gap, argument⟩ := s
    rcases gap with - | ⟨c, gap⟩
    · show argument ++ compactTrailing (slotPieces last row) = _
      rw [ih]
      simp [joinSlots, compactGap, segments, segmentsFrom, finish]
    · show compactTrailing (.gap (c :: gap) :: .argument argument ::
          slotPieces last row) = _
      rw [compactTrailing_cons _ (List.cons_ne_nil _ _), compactTrailing_argument, ih]
      simp [joinSlots, Piece.compact]

/-! ### Breaks and comments of a row -/

theorem piecesBreak_slots (last : List Char) (row : List Slot) :
    piecesBreak (slotPieces last row) =
      ((row.any fun s => hasLineBreak s.gap) || hasLineBreak last) := by
  have hgap (g : List Char) : piecesBreak (gapPiece g) = hasLineBreak g := by
    rcases g with - | ⟨c, g⟩
    · rfl
    · simp [gapPiece, piecesBreak]
  induction row with
  | nil => rw [slotPieces, hgap]; rfl
  | cons s row ih =>
    have hpieces : piecesBreak (slotPieces last (s :: row)) =
        (piecesBreak (gapPiece s.gap) || piecesBreak (slotPieces last row)) :=
      List.any_append
    rw [hpieces, hgap, ih, List.any_cons, Bool.or_assoc]

theorem piecesComment_slots (last : List Char) (row : List Slot) :
    piecesComment (slotPieces last row) =
      ((row.any fun s => hasLineComment s.gap) || hasLineComment last) := by
  induction row with
  | nil => rw [slotPieces, piecesComment_gapPiece]; rfl
  | cons s row ih =>
    have hpieces : piecesComment (slotPieces last (s :: row)) =
        (piecesComment (gapPiece s.gap) || piecesComment (slotPieces last row)) :=
      List.any_append
    rw [hpieces, piecesComment_gapPiece, ih, List.any_cons, Bool.or_assoc]

/-! ### What joining keeps -/

/-- Holds of rows of the same arguments behind gaps with the same commas and
comments. -/
def SameSlots : List Slot → List Slot → Prop :=
  List.Forall₂ fun s s' => s'.argument = s.argument ∧ SameGap s.gap s'.gap

theorem SameSlots.refl (row : List Slot) : SameSlots row row := by
  induction row with
  | nil => exact .nil
  | cons s row ih => exact .cons ⟨rfl, .refl _⟩ ih

/-- What joining the lines of a row and of the gap behind it does. -/
structure JoinsRow (row row' : List Slot) (last last' : List Char) : Prop where
  slots : SameSlots row row'
  same : SameGap last last'
  noBreak : piecesBreak (slotPieces last' row') = false

theorem joinsRow_of_gaps {row row' : List Slot} {last last' : List Char}
    (hrow : List.Forall₂ (fun s s' =>
      s'.argument = s.argument ∧ JoinsGap s.gap s'.gap) row row')
    (hlast : JoinsGap last last') : JoinsRow row row' last last' := by
  refine ⟨hrow.imp fun _ _ h => ⟨h.1, h.2.same⟩, hlast.same, ?_⟩
  rw [piecesBreak_slots, hlast.noBreak, Bool.or_false]
  induction hrow with
  | nil => rfl
  | cons h _ ih => rw [List.any_cons, h.2.noBreak, ih]; rfl

section Joins

variable {row : List Slot} {last : List Char}
  (hgaps : ∀ s ∈ row, ∃ parts, GapText s.gap parts) (hlast : ∃ parts, GapText last parts)
  (hcomment : piecesComment (slotPieces last row) = false)

include hgaps hlast hcomment

theorem joinsGap_of_mem :
    (∀ s ∈ row, JoinsGap s.gap (compactGap s.gap) ∧
      JoinsGap s.gap (trimStart (compactGap s.gap))) ∧
      (JoinsGap last (compactGap last) ∧ JoinsGap last (trimStart (compactGap last))) ∧
        JoinsGap last (trimEnd (compactGap last)) := by
  -- no gap of the zone has a line comment, so each can be joined on its own
  rw [piecesComment_slots, Bool.or_eq_false_iff, List.any_eq_false] at hcomment
  obtain ⟨parts, hparts⟩ := hlast
  refine ⟨fun s hs => ?_, ⟨?_, ?_⟩, ?_⟩
  · obtain ⟨parts, hparts⟩ := hgaps s hs
    have hline := Bool.eq_false_iff.2 (hcomment.1 s hs)
    exact ⟨joinsGap_compactGap hparts hline, joinsGap_trimStart hparts hline⟩
  · exact joinsGap_compactGap hparts hcomment.2
  · exact joinsGap_trimStart hparts hcomment.2
  · exact joinsGap_trimEnd hparts hcomment.2

theorem joinsRow_joinSlots :
    JoinsRow row (joinSlots row) last (trimEnd (compactGap last)) := by
  obtain ⟨hrow, -, hend⟩ := joinsGap_of_mem hgaps hlast hcomment
  refine joinsRow_of_gaps ?_ hend
  exact List.forall₂_map_right_iff.2
    (List.forall₂_same.2 fun s hs => ⟨rfl, (hrow s hs).1⟩)

theorem joinsRow_joinFront :
    JoinsRow row (joinFront row last).1 last (joinFront row last).2 := by
  obtain ⟨hrow, ⟨hmid, hstart⟩, -⟩ := joinsGap_of_mem hgaps hlast hcomment
  rcases row with - | ⟨s, row⟩
  · exact joinsRow_of_gaps .nil hstart
  · refine joinsRow_of_gaps (.cons ⟨rfl, (hrow s List.mem_cons_self).2⟩ ?_) hmid
    exact List.forall₂_map_right_iff.2 (List.forall₂_same.2 fun t ht =>
      ⟨rfl, (hrow t (List.mem_cons_of_mem s ht)).1⟩)

end Joins

/-! ### The edits of a layout -/

namespace Layout

variable (l : Layout)

/-- The arguments in front of the first object and the gap behind them, after
the edits. -/
def joinedFront : List Slot × List Char :=
  if l.leading.isMended then joinFront l.front l.lead else (l.front, l.lead)

/-- The arguments behind the last object and the gap behind them, after the
edits. -/
def joinedBack : List Slot × List Char :=
  if l.trailing.isMended then (joinSlots l.back, trimEnd (compactGap l.last)) else
    (l.back, l.last)

/-- The layout after the edits of both zones. -/
def joined : Layout :=
  { l with
    front := l.joinedFront.1
    lead := l.joinedFront.2
    back := l.joinedBack.1
    last := l.joinedBack.2 }

/-- Two layouts with the same parts outside the zones, the same arguments, and
gaps with the same commas and comments. -/
structure Keeps (l l' : Layout) : Prop where
  before : l'.before = l.before
  inFront : l'.inFront = l.inFront
  callee : l'.callee = l.callee
  behind : l'.behind = l.behind
  blanks : l'.blanks = l.blanks
  object : l'.object = l.object
  middle : l'.middle = l.middle
  after : l'.after = l.after
  front : SameSlots l.front l'.front
  lead : SameGap l.lead l'.lead
  back : SameSlots l.back l'.back
  last : SameGap l.last l'.last

theorem Keeps.refl : l.Keeps l :=
  ⟨rfl, rfl, rfl, rfl, rfl, rfl, rfl, rfl, .refl _, .refl _, .refl _, .refl _⟩

variable {l}

theorem hasLineComment_of_isMended {zone : Zone} (h : zone.isMended = true) :
    piecesComment zone.pieces = false := by
  simp only [Zone.isMended, Bool.and_eq_true, Bool.not_eq_true'] at h
  exact h.2

theorem joinsRow_front (h : l.Sound) (hmended : l.leading.isMended = true) :
    JoinsRow l.front l.joined.front l.lead l.joined.lead := by
  have hjoins :=
    joinsRow_joinFront (fun s hs => h.gaps s (List.mem_append_left _ hs)) h.lead
    (hasLineComment_of_isMended hmended)
  simpa only [joined, joinedFront, if_pos hmended] using hjoins

theorem joinsRow_back (h : l.Sound) (hmended : l.trailing.isMended = true) :
    JoinsRow l.back l.joined.back l.last l.joined.last := by
  have hjoins :=
    joinsRow_joinSlots (fun s hs => h.gaps s (List.mem_append_right _ hs)) h.last
    (hasLineComment_of_isMended hmended)
  simpa only [joined, joinedBack, if_pos hmended] using hjoins

theorem keeps_joined (h : l.Sound) : l.Keeps l.joined := by
  have hfront : SameSlots l.front l.joined.front ∧ SameGap l.lead l.joined.lead := by
    by_cases hmended : l.leading.isMended = true
    · exact ⟨(joinsRow_front h hmended).slots, (joinsRow_front h hmended).same⟩
    · simp only [joined, joinedFront, if_neg hmended]
      exact ⟨.refl _, .refl _⟩
  have hback : SameSlots l.back l.joined.back ∧ SameGap l.last l.joined.last := by
    by_cases hmended : l.trailing.isMended = true
    · exact ⟨(joinsRow_back h hmended).slots, (joinsRow_back h hmended).same⟩
    · simp only [joined, joinedBack, if_neg hmended]
      exact ⟨.refl _, .refl _⟩
  exact ⟨rfl, rfl, rfl, rfl, rfl, rfl, rfl, rfl, hfront.1, hfront.2, hback.1, hback.2⟩

theorem sound_row {row row' : List Slot} (h : SameSlots row row')
    (hrow : ∀ s ∈ row, s.argument ≠ [] ∧ ∃ parts, GapText s.gap parts) :
    ∀ s ∈ row', s.argument ≠ [] ∧ ∃ parts, GapText s.gap parts := by
  induction h with
  | nil => exact hrow
  | @cons s s' row row' hs _ ih =>
    obtain ⟨hsolid, parts, hparts⟩ := hrow s List.mem_cons_self
    intro t ht
    rcases List.mem_cons.1 ht with rfl | ht
    · exact ⟨hs.1 ▸ hsolid, parts, hs.2 parts hparts⟩
    · exact ih (fun u hu => hrow u (List.mem_cons_of_mem s hu)) t ht

theorem Keeps.sound {l l' : Layout} (hkeeps : l.Keeps l') (h : l.Sound) : l'.Sound := by
  have hfront := sound_row hkeeps.front fun s hs =>
    ⟨h.arguments s (List.mem_append_left _ hs), h.gaps s (List.mem_append_left _ hs)⟩
  have hback := sound_row hkeeps.back fun s hs =>
    ⟨h.arguments s (List.mem_append_right _ hs), h.gaps s (List.mem_append_right _ hs)⟩
  have hall : ∀ s ∈ l'.front ++ l'.back, s.argument ≠ [] ∧
      ∃ parts, GapText s.gap parts := by
    intro s hs
    rcases List.mem_append.1 hs with hs | hs
    · exact hfront s hs
    · exact hback s hs
  obtain ⟨parts, hparts⟩ := h.lead
  obtain ⟨parts', hparts'⟩ := h.last
  exact ⟨hkeeps.blanks ▸ h.blanks, fun s hs => (hall s hs).1, fun s hs => (hall s hs).2,
    ⟨parts, hkeeps.lead parts hparts⟩, ⟨parts', hkeeps.last parts' hparts'⟩⟩

/-! ### One batch -/

/-- Replacing all of a text. -/
theorem rewrites_whole (cursor : Nat) (s t : List Char) :
    Rewrites cursor s [⟨⟨cursor, cursor + byteLength s⟩, t⟩] t := by
  have hrest := Rewrites.rest (cursor + byteLength s) []
  have hwhole :=
    @Rewrites.edit cursor [] s [] ⟨⟨cursor, cursor + byteLength s⟩, t⟩ [] [] rfl rfl hrest
  simpa using hwhole

theorem rewrites_frontText :
    Rewrites (byteLength l.opening) l.frontText l.leading.edits l.joined.frontText := by
  unfold Zone.edits
  by_cases hmended : l.leading.isMended = true
  · have hjoined : l.joined.frontText = l.leading.compact := by
      have hcompact : l.leading.compact =
          compactLeading (slotPieces l.lead l.front) := rfl
      rw [hcompact, compactLeading_slots]
      simp only [frontText, joined, joinedFront, if_pos hmended]
    rw [if_pos hmended, hjoined]
    exact rewrites_whole _ _ _
  · have hjoined : l.joined.frontText = l.frontText := by
      simp only [frontText, joined, joinedFront, if_neg hmended]
    rw [if_neg hmended, hjoined]
    exact .rest _ _

theorem rewrites_backText :
    Rewrites l.objectStop l.backText l.trailing.edits l.joined.backText := by
  unfold Zone.edits
  by_cases hmended : l.trailing.isMended = true
  · have hjoined : l.joined.backText = l.trailing.compact := by
      have hcompact : l.trailing.compact =
          compactTrailing (slotPieces l.last l.back) := rfl
      rw [hcompact, compactTrailing_slots]
      simp only [backText, joined, joinedBack, if_pos hmended]
    rw [if_pos hmended, hjoined]
    exact rewrites_whole _ _ _
  · have hjoined : l.joined.backText = l.backText := by
      simp only [backText, joined, joinedBack, if_neg hmended]
    rw [if_neg hmended, hjoined]
    exact .rest _ _

/-- The edits of both zones make the joined layout of the text. -/
theorem rewrites_joined :
    Rewrites 0 l.source (l.leading.edits ++ l.trailing.edits) l.joined.source := by
  -- from the end of the text to its front: what the edits of one zone leave
  -- stands behind the other
  have hback : Rewrites l.objectStop (l.backText ++ (')' :: l.after))
      (l.trailing.edits ++ [])
      (l.joined.backText ++ (')' :: l.after)) :=
    rewrites_backText.append (.rest _ _)
  rw [List.append_nil] at hback
  have hmiddle : Rewrites l.objectStart (l.middleText ++ (l.backText ++ (')' :: l.after)))
      l.trailing.edits (l.middleText ++ (l.joined.backText ++ (')' :: l.after))) :=
    hback.behind l.middleText
  have hfront := rewrites_frontText.append hmiddle
  rw [← Nat.zero_add (byteLength l.opening)] at hfront
  exact hfront.behind l.opening

/-! ### The second check -/

/-- What is said of a violation, up to its place. -/
def said (v : Violation) : Side × List Char × Option Edit := (v.side, v.zoneText, v.edit)

/-- A zone that had an edit is no violation when its lines are joined; one that
had none is the violation it was. -/
theorem recheck_zone {zone zone' : Zone}
    (hmended : zone.isMended = true → zone'.spansLines = false)
    (hkept : zone.isMended = false →
      zone'.side = zone.side ∧ zone'.text = zone.text ∧ zone'.pieces = zone.pieces) :
    (zone'.violation?.toList).map said =
      ((zone.violation?.toList).filter (·.edit.isNone)).map said := by
  rcases hzone : zone.isMended with - | -
  · obtain ⟨hside, htext, hpieces⟩ := hkept hzone
    have hlines : zone'.spansLines = zone.spansLines := congrArg piecesBreak hpieces
    have hcomment : zone'.hasLineComment = zone.hasLineComment :=
      congrArg piecesComment hpieces
    rw [Zone.isMended] at hzone
    rw [Zone.violation?, Zone.violation?, hlines, hcomment, hside, htext]
    rcases hbreak : zone.spansLines with - | -
    · rfl
    · have hline : zone.hasLineComment = true := by simpa [hbreak] using hzone
      simp [hline, said]
  · have hlines := hmended hzone
    simp only [Zone.isMended, Bool.and_eq_true, Bool.not_eq_true'] at hzone
    simp [Zone.violation?, hlines, hzone.1, hzone.2]

theorem recheck_leading (h : l.Sound) :
    (l.joined.leading.violation?.toList).map said =
      ((l.leading.violation?.toList).filter (·.edit.isNone)).map said := by
  refine recheck_zone (fun hmended => (joinsRow_front h hmended).noBreak)
    fun hmended => ?_
  have hfront : l.joinedFront = (l.front, l.lead) := if_neg (Bool.eq_false_iff.1 hmended)
  simp only [leading, frontText, joined, hfront, and_self]

theorem recheck_trailing (h : l.Sound) :
    (l.joined.trailing.violation?.toList).map said =
      ((l.trailing.violation?.toList).filter (·.edit.isNone)).map said := by
  refine recheck_zone (fun hmended => (joinsRow_back h hmended).noBreak) fun hmended => ?_
  have hback : l.joinedBack = (l.back, l.last) := if_neg (Bool.eq_false_iff.1 hmended)
  simp only [trailing, backText, joined, hback, and_self]

theorem violations_eq (target : Target) (h : l.Sound) :
    violations target l.source l.call =
      if target.covers l.callee then
        [l.leading, l.trailing].filterMap Zone.violation? else [] := by
  simp only [violations, calleeText_eq, zones_eq h]

/-- Of a call that is looked at the second check finds what had no edit. -/
theorem recheck_joined {target : Target} (h : l.Sound)
    (hcovers : target.covers l.callee = true) :
    (violations target l.joined.source l.joined.call).map said =
      ((violations target l.source l.call).filter (·.edit.isNone)).map said := by
  have hpair (a b : Zone) : [a, b].filterMap Zone.violation? =
      a.violation?.toList ++ b.violation?.toList := by
    simp only [List.filterMap_cons, List.filterMap_nil]
    rcases a.violation? <;> rcases b.violation? <;> rfl
  -- both checks look at the same callee, and then at the two zones
  have hkeeps := keeps_joined h
  rw [violations_eq target h, violations_eq target (hkeeps.sound h), hkeeps.callee,
    if_pos hcovers, if_pos hcovers, hpair, hpair, List.map_append,
    List.filter_append, List.map_append, recheck_leading h, recheck_trailing h]

theorem edits_eq {target : Target} (h : l.Sound)
    (hcovers : target.covers l.callee = true) :
    (violations target l.source l.call).filterMap (·.edit) =
      l.leading.edits ++ l.trailing.edits := by
  rw [violations_eq target h, if_pos hcovers, filterMap_edit_violations]
  simp

end Layout

/-- **Check, fix, check again.**  For every matcher, text and call whose ranges
make sense, the edits of the call are all applied in one batch, and the text
that comes out is laid out like the text before, with the callee, every
argument, all between the first and the last object and all outside the zones
unchanged, and in each gap the same commas and comments.  A check of the call
where it now stands finds the violations that had no edit, as they were, and no
others. -/
theorem Call.WellPlaced.recheck {source : List Char} {call : Call}
    (h : call.WellPlaced source) (target : Target) :
    ∃ l l' : Layout, l.source = source ∧ l.call = call ∧ l.Keeps l' ∧
      splice source ((violations target source call).filterMap (·.edit)) =
        ⟨l'.source, ((violations target source call).filterMap (·.edit)).length, 0⟩ ∧
      (violations target l'.source l'.call).map (fun v => (v.side, v.zoneText, v.edit)) =
        ((violations target source call).filter (·.edit.isNone)).map
          fun v => (v.side, v.zoneText, v.edit) := by
  obtain ⟨l, hsound, rfl, rfl⟩ := h.exists_layout
  rcases hcovers : target.covers l.callee with - | -
  · -- a call that is not looked at stays as it is
    have hnone : violations target l.source l.call = [] := by
      rw [Layout.violations_eq target hsound, hcovers]
      rfl
    refine ⟨l, l, rfl, rfl, .refl l, ?_, ?_⟩
    · rw [hnone]
      rfl
    · rw [hnone]
      rfl
  · have hle : l.objectStart ≤ l.objectStop := Nat.le_add_right _ _
    have hbefore :=
      before_of_ordered slice_of_edits (@ordered_edits target l.source l.call _ rfl hle)
    refine ⟨l, l.joined, rfl, rfl, Layout.keeps_joined hsound, ?_,
      Layout.recheck_joined hsound hcovers⟩
    rw [Layout.edits_eq hsound hcovers] at hbefore ⊢
    exact splice_of_rewrites Layout.rewrites_joined hbefore

/-- A call whose zones both spread over two lines, with a comment in the
first. -/
def twoLines : List Char := "f(/**/\na,\x7b\x7d\n)".toList

/-- Its ranges. -/
def twoLinesCall : Call := ⟨⟨0, 13⟩, ⟨0, 1⟩, 1, [⟨7, 8⟩, ⟨9, 11⟩], some ⟨9, 11⟩⟩

theorem wellPlaced_twoLines : twoLinesCall.WellPlaced twoLines where
  span := by decide
  callee := by decide
  inside := by decide
  opening := by
    have hcomment : GapText "/**/\n".toList ["/**/".toList] :=
      @GapText.block ['*', '/'] _ _ rfl (.blank (.inl rfl) .nil)
    refine ⟨[], 2, rfl, by simp, ⟨_, _, rfl, hcomment⟩, ⟨['a'], rfl, by simp⟩,
      ⟨[','], _, rfl, .comma .nil⟩, ⟨['\x7b', '\x7d'], rfl, by simp⟩,
      ⟨['\n'], _, rfl, .blank (.inl rfl) .nil⟩⟩
  closing := rfl
  config := ⟨[⟨7, 8⟩], ⟨9, 11⟩, [], [], rfl, rfl⟩

theorem recheck_twoLines :
    ∃ l' : Layout,
      splice twoLines
        ((violations ⟨["f"], []⟩ twoLines twoLinesCall).filterMap (·.edit)) =
        ⟨l'.source, 2, 0⟩ ∧
      violations ⟨["f"], []⟩ l'.source l'.call = [] := by
  obtain ⟨l, l', -, -, -, hsplice, hagain⟩ := wellPlaced_twoLines.recheck ⟨["f"], []⟩
  have hnone : (violations ⟨["f"], []⟩ twoLines twoLinesCall).filter
      (·.edit.isNone) = [] := by
    decide +kernel
  have htwo : ((violations ⟨["f"], []⟩ twoLines twoLinesCall).filterMap
      (·.edit)).length = 2 := by
    decide +kernel
  rw [hnone] at hagain
  rw [htwo] at hsplice
  exact ⟨l', hsplice, List.map_eq_nil_iff.1 hagain⟩

end AnimLint
