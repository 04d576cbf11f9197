/-
AnimLint/Proofs/BreakRuns.lean

How line breaks are taken out of code, told run by run.  A text is cut at its
maximal runs of line breaks (`IsCut`, met by `blocks` and by nothing else).
Joining lines goes character by character and looks at what it wrote last and at
the next character that is no line break.  So the first break of a run leaves
what the run has to leave, a space or nothing, and after it no break of the run
leaves anything (`joinLinesAfter_break_step`).  Of the whole run one space is
left if the characters on both of its sides are there and would run together,
and nothing otherwise (`joinLinesAfter_run`); what stands between the runs stays
as it is (`IsCut.joinLinesAfter_eq`).

A character that is written and is no space was read, and the text up to it is
what was written up to it (`exists_source`).  Two characters that stand side by
side and would run together did so before: had there been a run between them, it
would have left a space (`exists_next`).
-/
import Mathlib.Data.List.SplitBy
import AnimLint.Proofs.TidyCode

namespace AnimLint

open Text

namespace Gap

/-! ### Runs of line breaks -/

/-- Holds of the cut of a text into its maximal runs of line breaks and what
stands between them: the characters of a block are of one kind, and those of
blocks that adjoin are of different kinds. -/
structure IsCut (code : List Char) (bs : List (List Char)) : Prop where
  spells : bs.flatten = code
  ne_nil : [] ∉ bs
  uniform : ∀ b ∈ bs, ∀ x ∈ b, ∀ y ∈ b, isLineBreak x = isLineBreak y
  alternates : bs.IsChain fun b c => ∀ x ∈ b, ∀ y ∈ c, isLineBreak x ≠ isLineBreak y

/-- The maximal runs of line breaks of a text and what stands between them, in
order. -/
def blocks (code : List Char) : List (List Char) :=
  code.splitBy fun a b => isLineBreak a == isLineBreak b

/-- What is left of a run of line breaks between the character in front of it
and the one behind it: a space if both are there and would run together. -/
def bridge : Option Char → Option Char → List Char
  | some a, some b => if runTogether a b then [' '] else []
  | _, _ => []

/-- The text of some blocks with the runs of line breaks among them bridged;
`front` is the character in front of the blocks. -/
def bridged (front : Option Char) : List (List Char) → List Char
  | [] => []
  | b :: bs => (if b.all isLineBreak then bridge front bs.flatten.head? else b) ++
    bridged b.getLast? bs

/-- Where neighbours are of one kind, all are. -/
theorem uniform_iff_isChain {b : List Char} :
    (∀ x ∈ b, ∀ y ∈ b, isLineBreak x = isLineBreak y) ↔
      b.IsChain fun x y => (isLineBreak x == isLineBreak y) = true := by
  simp only [beq_iff_eq]
  constructor
  · intro h
    exact b.isChain_isInfix.imp fun x y hxy =>
      h x (hxy.subset (by simp)) y (hxy.subset (by simp))
  · intro h x hx y hy
    have hpair : (b.map isLineBreak).Pairwise (· = ·) :=
      List.isChain_iff_pairwise.1 ((List.isChain_map isLineBreak).2 h)
    exact hpair.forall_of_forall (fun _ _ => rfl) (List.mem_map_of_mem hx)
      (List.mem_map_of_mem hy)

/-- A text has one such cut. -/
theorem isCut_iff {code : List Char} {bs : List (List Char)} :
    IsCut code bs ↔ bs = blocks code := by
  rw [eq_comm (a := bs), blocks, List.splitBy_eq_iff]
  constructor
  · intro h
    refine ⟨h.spells.symm, h.ne_nil,
      fun b hb => uniform_iff_isChain.1 (h.uniform b hb), ?_⟩
    refine h.alternates.imp_of_mem_imp fun b c hb hc hbc => ?_
    have hb' : b ≠ [] := fun hnil => h.ne_nil (hnil ▸ hb)
    have hc' : c ≠ [] := fun hnil => h.ne_nil (hnil ▸ hc)
    exact ⟨hb', hc', beq_false_of_ne (hbc _ (b.getLast_mem hb') _ (c.head_mem hc'))⟩
  · rintro ⟨rfl, hne, hchain, hparted⟩
    have huniform (b : List Char) (hb : b ∈ bs) := uniform_iff_isChain.2 (hchain b hb)
    refine ⟨rfl, hne, huniform, ?_⟩
    refine hparted.imp_of_mem_imp fun b c hb hc hbc x hx y hy => ?_
    obtain ⟨hb', hc', hends⟩ := hbc
    rw [huniform b hb x hx _ (b.getLast_mem hb'), huniform c hc y hy _ (c.head_mem hc')]
    exact ne_of_beq_false hends

/-! ### What a run leaves -/

theorem runTogether_space (a : Char) :
    runTogether ' ' a = false ∧ runTogether a ' ' = false := by
  have hword : isWordChar ' ' = false := isWordChar_of_isSoft rfl
  exact ⟨runTogether_of_isSoft rfl a, by simp [runTogether, hword]⟩

theorem eq_space_of_mem_bridge {front back : Option Char} {c : Char}
    (h : c ∈ bridge front back) :
    c = ' ' := by
  rcases front with - | a <;> rcases back with - | b
  · cases h
  · cases h
  · cases h
  · rw [bridge] at h
    split at h
    · exact List.mem_singleton.1 h
    · cases h

/-- What is written and is no space stands behind the bridge. -/
theorem exists_behind_bridge {front back : Option Char} {t u w : List Char}
    {a : Char} (ha : a ≠ ' ') (h : bridge front back ++ t = u ++ a :: w) :
    ∃ v, u = bridge front back ++ v ∧ t = v ++ a :: w := by
  rcases List.append_eq_append_iff.1 h with ⟨v, hu, ht⟩ | ⟨v, hbridge, ht⟩
  · exact ⟨v, hu, ht⟩
  · rcases v with - | ⟨e, v⟩
    · exact ⟨[], by rw [hbridge, List.append_nil, List.append_nil], ht.symm⟩
    · obtain ⟨rfl, -⟩ := List.cons.inj ht
      exact absurd
        (eq_space_of_mem_bridge (hbridge ▸ List.mem_append_right u List.mem_cons_self)) ha

/-- A line break leaves what its run has to leave; what was written then,
`front'`, is such that the rest of the run leaves nothing.  Of what follows only
the next character that is no line break matters. -/
theorem joinLinesAfter_break_step {c : Char} (hc : isLineBreak c = true)
    (front next : Option Char) :
    ∃ front', bridge front' next = [] ∧
      ∀ r, r.find? (!isLineBreak ·) = next →
        joinLinesAfter front (c :: r) = bridge front next ++ joinLinesAfter front' r := by
  rcases front with - | a
  · exact ⟨none, rfl, fun r _ => by simp [joinLinesAfter, hc, bridge]⟩
  · rcases next with - | b
    · exact ⟨some a, rfl, fun r hr => by simp [joinLinesAfter, hc, hr, bridge]⟩
    · rcases htogether : runTogether a b with - | -
      · refine ⟨some a, by simp [bridge, htogether], fun r hr => ?_⟩
        simp [joinLinesAfter, hc, hr, bridge, htogether]
      · refine ⟨some ' ', by simp [bridge, (runTogether_space b).1], fun r hr => ?_⟩
        simp [joinLinesAfter, hc, hr, bridge, htogether]

/-- In front of a character that is no line break it does not matter what was
written. -/
theorem joinLinesAfter_of_head {s : List Char} (hs : ∀ c ∈ s.head?, isLineBreak c = false)
    (front : Option Char) : joinLinesAfter front s = joinLines s := by
  rcases s with - | ⟨c, s⟩
  · rfl
  · rw [joinLines, joinLinesAfter_cons (hs c rfl), joinLinesAfter_cons (hs c rfl)]

/-- Behind a run of line breaks the next character is the one that is looked
ahead to. -/
theorem find_run {run back : List Char} (hrun : ∀ c ∈ run, isLineBreak c = true)
    (hback : ∀ c ∈ back.head?, isLineBreak c = false) :
    (run ++ back).find? (!isLineBreak ·) = back.head? := by
  have hnone : run.find? (!isLineBreak ·) = none :=
    List.find?_eq_none.2 fun c hc => by simp [hrun c hc]
  rw [List.find?_append, hnone, Option.none_or]
  rcases back with - | ⟨b, back⟩
  · rfl
  · exact List.find?_cons_of_pos (by simp [hback b rfl])

/-- Of a maximal run of line breaks its bridge is left. -/
theorem joinLinesAfter_run {run back : List Char} (hne : run ≠ [])
    (hrun : ∀ c ∈ run, isLineBreak c = true)
    (hback : ∀ c ∈ back.head?, isLineBreak c = false) (front : Option Char) :
    joinLinesAfter front (run ++ back) = bridge front back.head? ++ joinLines back := by
  induction run generalizing front with
  | nil => exact absurd rfl hne
  | cons c run ih =>
    have hrun' (d : Char) (hd : d ∈ run) := hrun d (List.mem_cons_of_mem c hd)
    have hc := hrun c List.mem_cons_self
    obtain ⟨front', hdone, hstep⟩ := joinLinesAfter_break_step hc front back.head?
    rw [List.cons_append, hstep _ (find_run hrun' hback)]
    rcases run with - | ⟨d, run⟩
    · rw [List.nil_append, joinLinesAfter_of_head hback]
    · rw [ih (List.cons_ne_nil d run) hrun' front', hdone, List.nil_append]

/-- A block without line breaks stays as it is. -/
theorem joinLinesAfter_line {line : List Char} (hne : line ≠ [])
    (hline : ∀ c ∈ line, isLineBreak c = false) (front : Option Char) (back : List Char) :
    joinLinesAfter front (line ++ back) = line ++ joinLinesAfter line.getLast? back := by
  induction line generalizing front with
  | nil => exact absurd rfl hne
  | cons c line ih =>
    have hline' (d : Char) (hd : d ∈ line) := hline d (List.mem_cons_of_mem c hd)
    rw [List.cons_append, joinLinesAfter_cons (hline c List.mem_cons_self)]
    rcases line with - | ⟨d, line⟩
    · rfl
    · rw [ih (List.cons_ne_nil d line) hline' (some c), List.getLast?_cons_cons]
      rfl

namespace IsCut

variable {code b : List Char} {bs : List (List Char)}

theorem tail (h : IsCut code (b :: bs)) : IsCut bs.flatten bs where
  spells := rfl
  ne_nil := fun hnil => h.ne_nil (List.mem_cons_of_mem b hnil)
  uniform := fun c hc => h.uniform c (List.mem_cons_of_mem b hc)
  alternates := h.alternates.tail

/-- What follows a run of line breaks does not start with one. -/
theorem head_tail (h : IsCut code (b :: bs)) (hb : ∀ c ∈ b, isLineBreak c = true) :
    ∀ c ∈ bs.flatten.head?, isLineBreak c = false := by
  intro c hc
  rcases bs with - | ⟨d, bs⟩
  · cases hc
  · have hb' : b ≠ [] := fun hnil => h.ne_nil (hnil ▸ List.mem_cons_self)
    have hd : d ≠ [] :=
      fun hnil => h.ne_nil (hnil ▸ List.mem_cons_of_mem b List.mem_cons_self)
    obtain ⟨x, b, rfl⟩ := List.exists_cons_of_ne_nil hb'
    obtain ⟨y, d, rfl⟩ := List.exists_cons_of_ne_nil hd
    obtain rfl : y = c := Option.some.inj hc
    have hdiffer :=
      (List.isChain_cons_cons.1 h.alternates).1 x List.mem_cons_self y List.mem_cons_self
    rw [hb x List.mem_cons_self] at hdiffer
    exact Bool.eq_false_iff.2 hdiffer.symm

/-- Joining lines bridges the runs of line breaks and leaves the other blocks as
they are. -/
theorem joinLinesAfter_eq (h : IsCut code bs) (front : Option Char) :
    joinLinesAfter front code = bridged front bs := by
  induction bs generalizing code front with
  | nil =>
    obtain rfl := h.spells
    rfl
  | cons b bs ih =>
    obtain rfl := h.spells
    have hne : b ≠ [] := fun hnil => h.ne_nil (hnil ▸ List.mem_cons_self)
    -- the blocks behind `b` see its last character in front of them, whatever
    -- was written for it
    have hrest := ih h.tail b.getLast?
    rw [List.flatten_cons, bridged, ← hrest]
    rcases hkind : b.all isLineBreak with - | -
    · obtain ⟨x, hx, hx'⟩ := List.all_eq_false.1 hkind
      have hline (c : Char) (hc : c ∈ b) : isLineBreak c = false :=
        (h.uniform b List.mem_cons_self c hc x hx).trans (Bool.eq_false_iff.2 hx')
      exact joinLinesAfter_line hne hline front bs.flatten
    · have hrun := List.all_eq_true.1 hkind
      have hhead := h.head_tail hrun
      rw [joinLinesAfter_run hne hrun hhead, if_pos rfl, joinLinesAfter_of_head hhead]

end IsCut

/-! ### What stands side by side -/

theorem isLineBreak_of_mem_joinLinesAfter {front : Option Char} {s : List Char} {c : Char}
    (h : c ∈ joinLinesAfter front s) : isLineBreak c = false :=
  Bool.eq_false_iff.2
    (List.any_eq_false.1 (breakCount_eq_zero.1 (breakCount_joinLinesAfter front s)) c h)

/-- A character that is written and is no space was read, and joining the text
up to it gives what is written up to it. -/
theorem exists_source {front : Option Char} {s u w : List Char} {a : Char} (ha : a ≠ ' ')
    (h : joinLinesAfter front s = u ++ a :: w) :
    ∃ x y, s = x ++ a :: y ∧ joinLinesAfter front (x ++ [a]) = u ++ [a] ∧
      joinLinesAfter (some a) y = w := by
  have hbreak : isLineBreak a = false :=
    isLineBreak_of_mem_joinLinesAfter (h ▸ List.mem_append_right u List.mem_cons_self)
  induction s generalizing front u with
  | nil => exact absurd h.symm (List.append_ne_nil_of_right_ne_nil u (List.cons_ne_nil a w))
  | cons c r ih =>
    rcases hc : isLineBreak c with - | -
    · rw [joinLinesAfter_cons hc] at h
      rcases u with - | ⟨e, u⟩
      · obtain ⟨rfl, hw⟩ := List.cons.inj h
        exact ⟨[], r, rfl, joinLinesAfter_cons hc front [], hw⟩
      · obtain ⟨rfl, hu⟩ := List.cons.inj h
        obtain ⟨x, y, rfl, hx, hy⟩ := ih hu
        exact ⟨c :: x, y,
          rfl, by rw [List.cons_append, joinLinesAfter_cons hc, hx]; rfl, hy⟩
    · obtain ⟨front', -, hstep⟩ :=
        joinLinesAfter_break_step hc front (r.find? (!isLineBreak ·))
      rw [hstep r rfl] at h
      obtain ⟨v, hu, hr⟩ := exists_behind_bridge ha h
      obtain ⟨x, y, rfl, hx, hy⟩ := ih hr
      -- the look ahead ends at `a` at the latest
      have hnext : (x ++ [a]).find? (!isLineBreak ·) =
          (x ++ a :: y).find? (!isLineBreak ·) := by
        simp [hbreak]
      exact ⟨c :: x, y,
        rfl, by rw [List.cons_append, hstep _ hnext, hx, hu, List.append_assoc], hy⟩

/-- What a text starts with is a run of line breaks and then no line break. -/
theorem exists_run (s : List Char) :
    ∃ run back, s = run ++ back ∧ (∀ c ∈ run, isLineBreak c = true) ∧
      ∀ c ∈ back.head?, isLineBreak c = false := by
  refine ⟨s.takeWhile isLineBreak, s.dropWhile isLineBreak,
    List.takeWhile_append_dropWhile.symm,
    List.all_eq_true.1 List.all_takeWhile, ?_⟩
  intro c hc
  have hhead := List.head?_dropWhile_not isLineBreak s
  rwa [Option.mem_def.1 hc] at hhead

/-- What is written next to a character it would run together with stood next to
it. -/
theorem exists_next {a b : Char} {s v : List Char} (htogether : runTogether a b = true)
    (h : joinLinesAfter (some a) s = b :: v) :
    ∃ y, s = b :: y ∧ joinLines (b :: y) = b :: v := by
  obtain ⟨run, back, rfl, hrun, hback⟩ := exists_run s
  have hfirst {d : Char} {y t : List Char} (hd : isLineBreak d = false)
      (hjoin : joinLines (d :: y) = b :: t) : d = b := by
    rw [joinLines, joinLinesAfter_cons hd] at hjoin
    exact (List.cons.inj hjoin).1
  by_cases hne : run = []
  · subst hne
    rw [List.nil_append, joinLinesAfter_of_head hback] at h
    rcases back with - | ⟨d, y⟩
    · cases h
    · obtain rfl := hfirst (hback d rfl) h
      exact ⟨y, rfl, h⟩
  · -- a run in between would have left a space
    exfalso
    rw [joinLinesAfter_run hne hrun hback] at h
    rcases back with - | ⟨d, y⟩
    · cases h
    · rcases hd : runTogether a d with - | -
      · simp only [List.head?_cons, bridge, hd, Bool.false_eq_true, if_false,
          List.nil_append] at h
        rw [hfirst (hback d rfl) h, htogether] at hd
        cases hd
      · simp only [List.head?_cons, bridge, hd, if_true] at h
        rw [← (List.cons.inj h).1, (runTogether_space a).2] at htogether
        cases htogether

end Gap

open Gap

/-- **Line breaks are taken out run by run.**  Each maximal run of line breaks
is replaced by one space if the characters just before and just behind it are
there and would run together, and by nothing otherwise, and all else is kept.
So no line break is left, two characters that would run together stand side by
side only where they did before, and joining lines again changes nothing. -/
theorem joinLines_run_by_run (code : List Char) :
    (∀ bs, IsCut code bs ↔ bs = blocks code) ∧
      joinLines code = bridged none (blocks code) ∧
      (joinLines code).any isLineBreak = false ∧
      (∀ u a b v, joinLines code = u ++ a :: b :: v → runTogether a b = true →
        ∃ x y, code = x ++ a :: b :: y ∧ joinLines (x ++ [a]) = u ++ [a] ∧
          joinLines (b :: y) = b :: v) ∧
      joinLines (joinLines code) = joinLines code := by
  refine ⟨fun bs => isCut_iff, (isCut_iff.2 rfl).joinLinesAfter_eq none, ?_, ?_, ?_⟩
  · exact breakCount_eq_zero.1 (breakCount_joinLinesAfter none code)
  · intro u a b v hjoin htogether
    have ha : a ≠ ' ' := by
      rintro rfl
      rw [(runTogether_space b).1] at htogether
      cases htogether
    obtain ⟨x, s, rfl, hx, hs⟩ := exists_source ha hjoin
    obtain ⟨y, rfl, hy⟩ := exists_next htogether hs
    exact ⟨x, y, rfl, hx, hy⟩
  · exact joinLinesAfter_of_noBreak none fun c hc => isLineBreak_of_mem_joinLinesAfter hc

/-- Breaks at both ends, between letters, between operators and between a letter
and an operator. -/
theorem joinLines_run_by_run_mixed :
    let code := "\nx\r\n\ny+\n+/\nab\r".toList
    joinLines code = "x y+ +/".toList ++ 'a' :: 'b' :: [] ∧ runTogether 'a' 'b' = true ∧
      ∃ x y, code = x ++ 'a' :: 'b' :: y ∧ joinLines (x ++ ['a']) =
        "x y+ +/".toList ++ ['a'] ∧
        joinLines ('b' :: y) = ['b'] := by
  intro code
  have hjoin : joinLines code = "x y+ +/".toList ++ 'a' :: 'b' :: [] := by decide +kernel
  have htogether : runTogether 'a' 'b' = true := by decide +kernel
  obtain ⟨-, -, -, hnext, -⟩ := joinLines_run_by_run code
  exact ⟨hjoin, htogether, hnext _ 'a' 'b' [] hjoin htogether⟩

end AnimLint
