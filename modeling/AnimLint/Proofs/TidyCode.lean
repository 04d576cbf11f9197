/-
AnimLint/Proofs/TidyCode.lean

What joining lines makes of code, apart from what stands around it.  Line breaks
are taken out so that no two characters open a comment that did not before, and
runs of blanks are narrowed to one space.  So the one-line form of plain code is
plain again, every blank in it is a space and no two spaces touch
(`isTidy_tidy`); such code is its own one-line form (`tidy_of_isTidy`).  The
last character that is no line break stays the last one, if it shows
(`getLast?_tidy`).
-/
import AnimLint.Proofs.Legibility

namespace AnimLint

open Text Gap Script

/-! ### Runs of blanks -/

theorem mem_collapseFrom { inRun : Bool} {s : List Char} {x : Char}
    (h : x ∈ collapseFrom inRun s) :
    x = ' ' ∨ x ∈ s ∧ isBlank x = false := by
  fun_induction collapseFrom inRun s with
  | case1 => cases h
  | case2 c r _ ih => exact (ih h).imp_right fun hx => ⟨List.mem_cons_of_mem _ hx.1, hx.2⟩
  | case3 inRun c r _ _ ih =>
    rcases List.mem_cons.1 h with rfl | h
    · exact .inl rfl
    · exact (ih h).imp_right fun hx => ⟨List.mem_cons_of_mem _ hx.1, hx.2⟩
  | case4 inRun c r hc ih =>
    rcases List.mem_cons.1 h with rfl | h
    · exact .inr ⟨List.mem_cons_self, by simpa using hc⟩
    · exact (ih h).imp_right fun hx => ⟨List.mem_cons_of_mem _ hx.1, hx.2⟩

/-- What may stand next to a space may stand next to what is left of a run of
blanks; `p` is the character in front, inside a run the space that is already
written. -/
theorem isChain_collapseFrom {R : Char → Char → Prop} (hleft : ∀ b, R ' ' b)
    (hright : ∀ a, R a ' ')
    (inRun : Bool) (p : Char) {s : List Char} (h : (p :: s).IsChain R)
    (hrun : inRun = true → p = ' ') :
    (p :: collapseFrom inRun s).IsChain R := by
  fun_induction collapseFrom inRun s generalizing p with
  | case1 => exact .singleton p
  | case2 c r _ ih =>
    -- the blank is dropped, and the space in front meets what follows it
    obtain rfl := hrun rfl
    exact ih ' ' (.cons h.tail.tail fun b _ => hleft b) fun _ => rfl
  | case3 inRun c r _ _ ih =>
    have hrest := ih ' ' (.cons h.tail.tail fun b _ => hleft b) fun _ => rfl
    exact .cons_cons (hright p) hrest
  | case4 inRun c r hc ih =>
    obtain ⟨hpc, hrest⟩ := List.isChain_cons_cons.1 h
    exact .cons_cons hpc (ih c hrest nofun)

/-- No two blanks touch in what is left; `p` is the character in front. -/
theorem apart_collapseFrom (inRun : Bool) (p : Char) (s : List Char)
    (hp : isBlank p = true → inRun = true) :
    (p :: collapseFrom inRun s).IsChain fun a b =>
      isBlank a = false ∨ isBlank b = false := by
  fun_induction collapseFrom inRun s generalizing p with
  | case1 => exact .singleton p
  | case2 c r _ ih => exact ih p fun _ => rfl
  | case3 inRun c r _ hrun ih =>
    have hp' : isBlank p = false := Bool.eq_false_iff.2 fun h => hrun (hp h)
    exact .cons_cons (.inl hp') (ih ' ' fun _ => rfl)
  | case4 inRun c r hc ih =>
    have hc' : isBlank c = false := by simpa using hc
    exact .cons_cons (.inr hc') (ih c fun h => absurd h hc)

theorem getLast?_cons_blank {a b z : Char} (ha : isBlank a = true) (hb : isBlank b = true)
    (hz : isBlank z = false) (s : List Char) :
    (a :: s).getLast? = some z ↔ (b :: s).getLast? = some z := by
  rcases s with - | ⟨c, s⟩
  · have hne {d : Char} (hd : isBlank d = true) : ¬ [d].getLast? = some z := by
      intro h
      have hdz : d = z := Option.some.inj h
      rw [← hdz, hd] at hz
      cases hz
    exact ⟨fun h => absurd h (hne ha), fun h => absurd h (hne hb)⟩
  · rw [List.getLast?_cons_cons, List.getLast?_cons_cons]

/-- The last character stays, if it shows; `p` is the character in front. -/
theorem getLast?_collapseFrom {z : Char} (hz : isBlank z = false)
    (inRun : Bool) (p : Char)
    (s : List Char) (hrun : inRun = true → isBlank p = true) :
    (p :: collapseFrom inRun s).getLast? = some z ↔ (p :: s).getLast? = some z := by
  have hspace : isBlank ' ' = true := rfl
  fun_induction collapseFrom inRun s generalizing p with
  | case1 => exact .rfl
  | case2 c r hc ih =>
    rw [List.getLast?_cons_cons]
    exact (ih p hrun).trans (getLast?_cons_blank (hrun rfl) hc hz r)
  | case3 inRun c r hc _ ih =>
    rw [List.getLast?_cons_cons, List.getLast?_cons_cons]
    exact (ih ' ' fun _ => hspace).trans (getLast?_cons_blank hspace hc hz r)
  | case4 inRun c r hc ih =>
    rw [List.getLast?_cons_cons, List.getLast?_cons_cons]
    exact ih c nofun

/-! ### Line breaks -/

theorem mem_joinLinesAfter {last : Option Char} {s : List Char} {x : Char}
    (h : x ∈ joinLinesAfter last s) : x = ' ' ∨ x ∈ s := by
  fun_induction joinLinesAfter last s with
  | case1 => cases h
  | case2 c r hc a b hb _ ih =>
    rcases List.mem_cons.1 h with rfl | h
    · exact .inl rfl
    · exact (ih h).imp_right (List.mem_cons_of_mem _)
  | case3 c r hc a b hb _ ih => exact (ih h).imp_right (List.mem_cons_of_mem _)
  | case4 last c r hc _ ih => exact (ih h).imp_right (List.mem_cons_of_mem _)
  | case5 last c r hc ih =>
    rcases List.mem_cons.1 h with rfl | h
    · exact .inr List.mem_cons_self
    · exact (ih h).imp_right (List.mem_cons_of_mem _)

theorem opensComment_space (a b : Char) :
    opensComment a ' ' = false ∧ opensComment ' ' b = false :=
  ⟨by simp [opensComment], rfl⟩

theorem opensComment_of_isLineBreak {b : Char} (hb : isLineBreak b = true) (a : Char) :
    opensComment a b = false := by
  have hslash : b ≠ '/' := by
    rintro rfl
    cases hb
  have hstar : b ≠ '*' := by
    rintro rfl
    cases hb
  simp [opensComment, hslash, hstar]

theorem runTogether_of_opensComment {a b : Char} (h : opensComment a b = true) :
    runTogether a b = true := by
  rw [runTogether, show (a == '/' && (b == '/' || b == '*')) = true from h, Bool.or_true]

/-- What stands next is a line break, or the character that is looked ahead
to. -/
theorem parted_of_find {a : Char} {s : List Char}
    (h : ∀ b, s.find? (!isLineBreak ·) = some b → opensComment a b = false) :
    Parted [a] s := by
  intro d hd b hb
  obtain rfl : a = d := Option.some.inj hd
  rcases s with - | ⟨c, s⟩
  · cases hb
  · obtain rfl : c = b := Option.some.inj hb
    rcases hc : isLineBreak c with - | -
    · apply h
      rw [List.find?_cons, hc]
      rfl
    · exact opensComment_of_isLineBreak hc a

/-- Line breaks are taken out so that no comment is opened. -/
theorem isChain_joinLinesAfter (last : Option Char) {s : List Char}
    (hs : s.IsChain fun a b => opensComment a b = false) (hlast : Parted last.toList s) :
    (last.toList ++ joinLinesAfter last s).IsChain fun a b =>
      opensComment a b = false := by
  fun_induction joinLinesAfter last s with
  | case1 last => cases last <;> simp
  | case2 c r hc a b hb _ ih =>
    -- the two would run together, and a space is put between them
    refine .cons_cons (opensComment_space a ' ').1 (ih hs.tail ?_)
    exact parted_of_find fun e _ => (opensComment_space a e).2
  | case3 c r hc a b hb htogether ih =>
    apply ih hs.tail
    apply parted_of_find
    intro e he
    obtain rfl : b = e := Option.some.inj (hb.symm.trans he)
    exact Bool.eq_false_iff.2 fun hopens => htogether (runTogether_of_opensComment hopens)
  | case4 last c r hc hnone ih =>
    apply ih hs.tail
    rcases last with - | a
    · exact Parted.nil_left r
    · exact parted_of_find fun e he => absurd he (hnone a e rfl)
  | case5 last c r hc ih =>
    have hrest := ih hs.tail <| by
      intro d hd e he
      obtain rfl := Option.some.inj hd
      exact (List.isChain_cons.1 hs).1 e he
    rcases last with - | a
    · exact hrest
    · exact .cons_cons (hlast a rfl c rfl) hrest

/-- The last character of a text that is no line break. -/
def lastShown (c : List Char) : Option Char := (c.filter (!isLineBreak ·)).getLast?

theorem getLast?_joinLinesAfter (last : Option Char) (s : List Char) :
    (joinLinesAfter last s).getLast? = lastShown s := by
  fun_induction joinLinesAfter last s with
  | case1 => rfl
  | case2 c r hc a b hb _ ih =>
    have hshown : lastShown (c :: r) = lastShown r := by simp [lastShown, hc]
    obtain ⟨z, hz⟩ : ∃ z, lastShown r = some z := by
      rcases hlast : lastShown r with - | z
      · rw [lastShown, List.getLast?_eq_none_iff, List.filter_eq_nil_iff] at hlast
        exact absurd (List.find?_some hb) (hlast b (List.mem_of_find?_eq_some hb))
      · exact ⟨z, rfl⟩
    rw [List.getLast?_cons, ih, hshown, hz]
    rfl
  | case3 c r hc a b hb _ ih => rw [ih]; simp [lastShown, hc]
  | case4 last c r hc _ ih => rw [ih]; simp [lastShown, hc]
  | case5 last c r hc ih =>
    rw [List.getLast?_cons, ih]; simp [lastShown, hc, List.getLast?_cons]

/-! ### Tidy code -/

/-- The one-line form of code. -/
def tidy (c : List Char) : List Char := collapse (joinLines c)

/-- Holds of plain code in which every blank is a space and no two spaces
touch. -/
structure IsTidy (c : List Char) : Prop where
  plain : IsPlain c
  space : ∀ x ∈ c, isBlank x = true → x = ' '
  apart : c.IsChain fun a b => isBlank a = false ∨ isBlank b = false

theorem IsTidy.part {c d : List Char} (h : IsTidy c) (hd : d <:+: c) : IsTidy d where
  plain := ⟨fun x hx => h.plain.noQuote x (hd.subset hx),
    List.IsChain.infix h.plain.noOpener hd⟩
  space := fun x hx => h.space x (hd.subset hx)
  apart := List.IsChain.infix h.apart hd

/-- The one-line form of plain code is plain and tidy. -/
theorem isTidy_tidy {c : List Char} (hc : IsPlain c) : IsTidy (tidy c) where
  plain := by
    constructor
    · intro x hx
      rcases mem_collapseFrom hx with rfl | ⟨hx, -⟩
      · rfl
      · rcases mem_joinLinesAfter hx with rfl | hx
        · rfl
        · exact hc.noQuote x hx
    · have hjoined := isChain_joinLinesAfter none hc.noOpener (Parted.nil_left c)
      have hfront : (' ' :: joinLines c).IsChain fun a b => opensComment a b = false :=
        .cons hjoined fun b _ => (opensComment_space ' ' b).2
      exact (isChain_collapseFrom (fun b => (opensComment_space ' ' b).2)
        (fun a => (opensComment_space a ' ').1) false ' ' hfront nofun).tail
  space := by
    intro x hx hblank
    rcases mem_collapseFrom hx with rfl | ⟨-, hx⟩
    · rfl
    · rw [hblank] at hx
      cases hx
  apart := (apart_collapseFrom false ',' (joinLines c) nofun).tail

theorem IsTidy.noBreak {c : List Char} (h : IsTidy c) {x : Char} (hx : x ∈ c) :
    isLineBreak x = false := by
  rcases hbreak : isLineBreak x with - | -
  · rfl
  · obtain rfl := h.space x hx (isBlank_of_isLineBreak hbreak)
    cases hbreak

theorem joinLinesAfter_of_noBreak (last : Option Char) {s : List Char}
    (h : ∀ x ∈ s, isLineBreak x = false) : joinLinesAfter last s = s := by
  induction s generalizing last with
  | nil => rfl
  | cons c r ih =>
    rw [joinLinesAfter_cons (h c List.mem_cons_self),
      ih (some c) fun x hx => h x (.tail c hx)]

theorem collapseFrom_of_isTidy (inRun : Bool) {s : List Char} (hs : IsTidy s)
    (hhead : inRun = true → ∀ b ∈ s.head?, isBlank b = false) :
    collapseFrom inRun s = s := by
  fun_induction collapseFrom inRun s with
  | case1 => rfl
  | case2 c r hc ih =>
    rw [hhead rfl c rfl] at hc
    cases hc
  | case3 inRun c r hc _ ih =>
    obtain ⟨hnext, -⟩ := List.isChain_cons.1 hs.apart
    rw [hs.space c List.mem_cons_self hc]
    refine congrArg _ (ih (hs.part (List.suffix_cons c r).isInfix) fun _ b hb => ?_)
    rcases hnext b hb with h | h
    · rw [hc] at h
      cases h
    · exact h
  | case4 inRun c r hc ih => rw [ih (hs.part (List.suffix_cons c r).isInfix) nofun]

/-- Tidy code is its own one-line form. -/
theorem tidy_of_isTidy {c : List Char} (h : IsTidy c) : tidy c = c := by
  rw [tidy, joinLines, joinLinesAfter_of_noBreak none fun x hx => h.noBreak hx]
  exact collapseFrom_of_isTidy false h fun hrun => absurd hrun Bool.false_ne_true

/-- The one-line form of code ends in a character that shows if the code shows
it last. -/
theorem getLast?_tidy {z : Char} (hz : isBlank z = false) (c : List Char) :
    (tidy c).getLast? = some z ↔ lastShown c = some z := by
  have hdrop (s : List Char) : (' ' :: s).getLast? = some z ↔ s.getLast? = some z := by
    rcases s with - | ⟨d, s⟩
    · constructor
      · intro h
        obtain rfl := Option.some.inj h
        cases hz
      · exact nofun
    · rw [List.getLast?_cons_cons]
  calc
    (tidy c).getLast? = some z ↔ (' ' :: tidy c).getLast? = some z := (hdrop _).symm
    _ ↔ (' ' :: joinLines c).getLast? = some z :=
      getLast?_collapseFrom hz false ' ' _ nofun
    _ ↔ (joinLines c).getLast? = some z := hdrop _
    _ ↔ lastShown c = some z := by rw [joinLines, getLast?_joinLinesAfter]

end AnimLint
