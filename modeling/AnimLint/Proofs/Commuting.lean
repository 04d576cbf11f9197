/-
AnimLint/Proofs/Commuting.lean

Fixing a call and a call in one of its arguments, in either order.  An edit that
covers the argument puts its text between two texts that do not depend on it
(`Hole.exists_rewrites`), so the fixed text is a text with the argument left
open again (`Hole.exists_mend`).  And an edit inside the argument does not
depend on what is around it (`mend_shift`).  So the two orders give the same
text (`Call.Sensible.refill`).

The callee must not be part of the argument: where it is, the argument decides
whether the call is looked at (`refill_in_callee`).
-/
import AnimLint.Proofs.Filling

namespace AnimLint

open Text

/-! ### Edits -/

/-- An edit with the filling left out. -/
structure HoledEdit where
  span : Span
  text : Framed Char

/-- The edit for a filling. -/
def HoledEdit.fill (h : Hole) (x : List Char) (e : HoledEdit) : Edit :=
  ⟨h.moveSpan x e.span, e.text.fill x⟩

namespace Rewrites

/-- The same text further on. -/
theorem shift (n : Nat) {cursor : Nat} {rest out : List Char} {es : List Edit}
    (h : Rewrites cursor rest es out) :
    Rewrites (n + cursor) rest (es.map (Edit.shift n)) out := by
  induction h with
  | rest cursor rest => exact .rest _ _
  | @edit cursor kept cut after e es out hstart hstop _ ih =>
    have hstart' : (e.shift n).span.start = n + cursor + byteLength kept := by
      simp only [Edit.shift_span, Span.shift_start]
      omega
    have hstop' : (e.shift n).span.stop = (e.shift n).span.start + byteLength cut := by
      simp only [Edit.shift_span, Span.shift_start, Span.shift_stop]
      omega
    exact .edit hstart' hstop' ih

/-- Edits that are made in turn come in the order of their positions. -/
theorem pairwise_before {cursor : Nat} {rest out : List Char} {es : List Edit}
    (h : Rewrites cursor rest es out) :
    (∀ e ∈ es, e.span.start ≤ e.span.stop) ∧
    es.Pairwise fun e f => e.before f = true := by
  induction h with
  | rest cursor rest => exact ⟨by simp, .nil⟩
  | @edit cursor kept cut after e es out hstart hstop htail ih =>
    have hforward : ∀ f ∈ e :: es, f.span.start ≤ f.span.stop := by
      intro f hf
      rcases List.mem_cons.1 hf with rfl | hf
      · omega
      · exact ih.1 f hf
    refine ⟨hforward, List.pairwise_cons.2 ⟨fun f hf => ?_, ih.2⟩⟩
    have hbehind := (htail.stop_le f hf).1
    have hf' := ih.1 f hf
    simp only [Edit.before, Bool.or_eq_true, Bool.and_eq_true, decide_eq_true_eq,
      beq_iff_eq]
    omega

end Rewrites

namespace Hole

variable {h : Hole}

/-- Of edits that follow one another some lie in front of the marked part, one
at most covers it, and the others lie behind it. -/
theorem exists_parted (hold : h.old ≠ []) {es : List HoledEdit}
    (hfits : ∀ e ∈ es, e.text.Fits h e.span ∧ e.span.start ≤ e.span.stop)
    (hordered : es.Pairwise fun e f => e.span.stop ≤ f.span.start) :
    ∃ front mid back, es = front ++ (mid ++ back) ∧
      (∀ e ∈ front, e.span.stop ≤ byteLength h.before ∧ ∃ t, e.text = .closed t) ∧
      (mid = [] ∨ ∃ e left right, mid = [e] ∧ e.text = .around left right ∧
        h.span.Within e.span) ∧
      ∀ e ∈ back, byteLength h.before + byteLength h.old ≤ e.span.start ∧
        ∃ t, e.text = .closed t := by
  have hpos := mt byteLength_eq_zero.1 hold
  induction hordered with
  | nil => exact ⟨[], [], [], rfl, by simp, .inl rfl, by simp⟩
  | @cons e es he _ ih =>
    obtain ⟨hfit, hforward⟩ := hfits e List.mem_cons_self
    have hrest : ∀ f ∈ es, f.text.Fits h f.span ∧ f.span.start ≤ f.span.stop :=
      fun f hf => hfits f (List.mem_cons_of_mem e hf)
    -- behind an edit that reaches over the marked part, or starts behind it,
    -- all others lie behind it
    have hbehind (hstop : byteLength h.before + byteLength h.old ≤ e.span.stop) :
        ∀ f ∈ es, byteLength h.before + byteLength h.old ≤ f.span.start ∧
          ∃ t, f.text = .closed t := by
      intro f hf
      obtain ⟨hfit, hforward⟩ := hrest f hf
      have hle := he f hf
      refine ⟨by omega, ?_⟩
      rcases htext : f.text with t | ⟨left, right⟩
      · exact ⟨t, rfl⟩
      · rw [htext] at hfit
        have : f.span.start ≤ byteLength h.before := hfit.1
        omega
    rcases htext : e.text with t | ⟨left, right⟩
    · rw [htext] at hfit
      rcases hfit with hstop | hstart
      · obtain ⟨front, mid, back, rfl, hfront, hmid, hback⟩ := ih hrest
        refine ⟨e :: front, mid, back, rfl, ?_, hmid, hback⟩
        intro f hf
        rcases List.mem_cons.1 hf with rfl | hf
        · exact ⟨hstop, t, htext⟩
        · exact hfront f hf
      · have hstart' : byteLength h.before + byteLength h.old ≤ e.span.start := hstart
        refine ⟨[], [], e :: es, rfl, by simp, .inl rfl, ?_⟩
        intro f hf
        rcases List.mem_cons.1 hf with rfl | hf
        · exact ⟨hstart', t, htext⟩
        · exact hbehind (by omega) f hf
    · rw [htext] at hfit
      exact ⟨[], [e], es, rfl, by simp, .inr ⟨e, left, right, rfl, htext, hfit⟩,
        hbehind hfit.2⟩

/-- Edits in front of the marked part do the same for every filling. -/
theorem exists_rewrites_front {s u : List Char} (hs : h.before = s ++ u)
    {es : List HoledEdit}
    (hes : ∀ e ∈ es, e.span.stop ≤ byteLength s ∧ (∃ t, e.text = .closed t) ∧
      ∃ cut, slice? (h.fill h.old) e.span = some cut)
    (hordered : es.Pairwise fun e f => e.span.stop ≤ f.span.start) :
    ∃ out, ∀ x, Rewrites 0 s (es.map (·.fill h x)) out := by
  have hforward : ∀ e ∈ es, e.span.start ≤ e.span.stop := by
    intro e he
    obtain ⟨cut, hcut⟩ := (hes e he).2.2
    exact Nat.le.intro (byteLength_slice hcut)
  have hsame (x : List Char) : es.map (·.fill h x) = es.map (·.fill h h.old) := by
    refine List.map_congr_left fun e he => ?_
    obtain ⟨hstop, ⟨t, ht⟩, -⟩ := hes e he
    have hle := hforward e he
    have hwide : byteLength s ≤ byteLength h.before := by
      rw [hs, byteLength_append]; omega
    simp only [HoledEdit.fill, ht, Framed.fill, moveSpan_old]
    rw [moveSpan_of_le (by omega) (by omega)]
  have hslices : ∀ e ∈ es.map (·.fill h h.old),
      byteLength [] ≤ e.span.start ∧ ∃ cut, slice? s e.span = some cut := by
    intro e he
    obtain ⟨f, hf, rfl⟩ := List.mem_map.1 he
    obtain ⟨hstop, -, cut, hcut⟩ := hes f hf
    refine ⟨Nat.zero_le _, cut, ?_⟩
    rw [← hcut, HoledEdit.fill, moveSpan_old, fill, hs, List.append_assoc,
      slice?_append_left hstop]
  have hpairs : (es.map (·.fill h h.old)).Pairwise fun e f =>
      e.span.stop ≤ f.span.start := by
    refine List.pairwise_map.2 (hordered.imp fun {e f} hef => ?_)
    simpa only [HoledEdit.fill, moveSpan_old] using hef
  have hsource : s = [] ++ s := rfl
  obtain ⟨out, hout⟩ := AnimLint.exists_rewrites hsource hslices hpairs
  exact ⟨out, fun x => by rw [hsame]; exact hout⟩

/-- Edits behind the marked part do the same for every filling. -/
theorem exists_rewrites_back (hold : h.old ≠ []) {v s : List Char} (hs : h.after = v ++ s)
    {es : List HoledEdit}
    (hes : ∀ e ∈ es, byteLength h.before + byteLength h.old + byteLength v ≤
      e.span.start ∧
      (∃ t, e.text = .closed t) ∧ ∃ cut, slice? (h.fill h.old) e.span = some cut)
    (hordered : es.Pairwise fun e f => e.span.stop ≤ f.span.start) :
    ∃ out, ∀ x, Rewrites (byteLength (h.before ++ x) + byteLength v) s
      (es.map (·.fill h x)) out := by
  have hforward : ∀ e ∈ es, e.span.start ≤ e.span.stop := by
    intro e he
    obtain ⟨cut, hcut⟩ := (hes e he).2.2
    exact Nat.le.intro (byteLength_slice hcut)
  let near (e : HoledEdit) : Edit := ⟨h.beyondSpan e.span, e.text.fill []⟩
  have hsame (x : List Char) :
      es.map (·.fill h x) = (es.map near).map
        (Edit.shift (byteLength (h.before ++ x))) := by
    rw [List.map_map]
    refine List.map_congr_left fun e he => ?_
    obtain ⟨hstart, ⟨t, ht⟩, -⟩ := hes e he
    have hle := hforward e he
    simp only [HoledEdit.fill, ht, Framed.fill, Function.comp_apply, near]
    rw [moveSpan_of_ge hold (by omega) (by omega)]
    rfl
  have hslices : ∀ e ∈ es.map near,
      byteLength v ≤ e.span.start ∧ ∃ cut, slice? h.after e.span = some cut := by
    intro e he
    obtain ⟨f, hf, rfl⟩ := List.mem_map.1 he
    obtain ⟨hstart, -, cut, hcut⟩ := hes f hf
    have hle := hforward f hf
    have hmoved := moveSpan_of_ge (x := h.old) hold (a := f.span) (by omega) (by omega)
    rw [moveSpan_old] at hmoved
    rw [hmoved] at hcut
    have hslice :=
      slice_after (h := h) (x := h.old) (h.beyond f.span.start) (h.beyond f.span.stop)
    refine ⟨?_, cut, hslice.symm.trans hcut⟩
    simp only [near, beyondSpan, beyond]
    omega
  have hpairs : (es.map near).Pairwise fun e f => e.span.stop ≤ f.span.start := by
    refine List.pairwise_map.2 (hordered.imp fun {e f} hef => ?_)
    simp only [near, beyondSpan, beyond]
    omega
  obtain ⟨out, hout⟩ := AnimLint.exists_rewrites hs hslices hpairs
  exact ⟨out, fun x => by rw [hsame]; exact hout.shift _⟩

/-- Edits that follow one another leave the filling as it is, between two texts
that do not depend on it. -/
theorem exists_rewrites (hold : h.old ≠ []) {es : List HoledEdit}
    (hfits : ∀ e ∈ es, e.text.Fits h e.span)
    (hslices : ∀ e ∈ es, ∃ cut, slice? (h.fill h.old) e.span = some cut)
    (hordered : es.Pairwise fun e f => e.span.stop ≤ f.span.start) :
    ∃ left right,
      ∀ x, Rewrites 0 (h.fill x) (es.map (·.fill h x)) (left ++ (x ++ right)) := by
  have hforward : ∀ e ∈ es, e.text.Fits h e.span ∧ e.span.start ≤ e.span.stop := by
    intro e he
    obtain ⟨cut, hcut⟩ := hslices e he
    exact ⟨hfits e he, Nat.le.intro (byteLength_slice hcut)⟩
  obtain ⟨front, mid, back, rfl, hfront, hmid, hback⟩ :=
    exists_parted hold hforward hordered
  obtain ⟨hfrontOrdered, hlater, hcross⟩ := List.pairwise_append.1 hordered
  obtain ⟨-, hbackOrdered, hmidBack⟩ := List.pairwise_append.1 hlater
  rcases hmid with rfl | ⟨e, left, right, rfl, htext, hwithin⟩
  · -- no edit covers the marked part
    obtain ⟨out, hout⟩ := exists_rewrites_front (List.append_nil h.before).symm
      (fun e he => ⟨(hfront e he).1, (hfront e he).2, hslices e (by simp [he])⟩)
        hfrontOrdered
    obtain ⟨out', hout'⟩ := exists_rewrites_back hold (List.nil_append h.after).symm
      (fun e he => ⟨(hback e he).1, (hback e he).2,
        hslices e (by simp [he])⟩) hbackOrdered
    refine ⟨out, out', fun x => ?_⟩
    have hbehind : Rewrites (byteLength h.before) (x ++ h.after) (back.map (·.fill h x))
        (x ++ out') := by
      refine Rewrites.behind x ?_
      rw [← byteLength_append]
      exact hout' x
    have hall := (hout x).append (by rw [Nat.zero_add]; exact hbehind)
    simpa [fill] using hall
  · -- one does, from `s` in front of it to `s'` behind it
    obtain ⟨cut, hcut⟩ := hslices e (by simp)
    obtain ⟨s, s', hsource, hstart, hstop⟩ := slice?_eq_some_iff.1 hcut
    have hspanStart : e.span.start ≤ byteLength h.before := hwithin.1
    have hspanStop : byteLength h.before + byteLength h.old ≤ e.span.stop := hwithin.2
    obtain ⟨u, hbefore, -⟩ := exists_append_of_byteLength_le hsource.symm (by omega)
    have hsource' : h.before ++ h.old ++ h.after = s ++ cut ++ s' := by
      rw [List.append_assoc, List.append_assoc, ← hsource]
      rfl
    obtain ⟨v, hcover, hafter⟩ := exists_append_of_byteLength_le hsource' (by
      simp only [byteLength_append]
      omega)
    have hwide := congrArg byteLength hcover
    simp only [byteLength_append] at hwide
    obtain ⟨out, hout⟩ := exists_rewrites_front hbefore
      (fun f hf => ⟨by have := hcross f hf e (by simp); omega, (hfront f hf).2,
        hslices f (by simp [hf])⟩) hfrontOrdered
    obtain ⟨out', hout'⟩ := exists_rewrites_back hold hafter
      (fun f hf => ⟨by have := hmidBack e (by simp) f hf; omega, (hback f hf).2,
        hslices f (by simp [hf])⟩) hbackOrdered
    refine ⟨out ++ left, right ++ out', fun x => ?_⟩
    have hfill : h.fill x = s ++ ([] ++ ((u ++ (x ++ v)) ++ s')) := by
      simp [fill, hbefore, hafter]
    have hmoved : (e.fill h x).span =
        ⟨byteLength s, byteLength (h.before ++ x) + byteLength v⟩ := by
      have hbeyond : h.beyond e.span.stop = byteLength v := by
        rw [beyond]
        omega
      show h.moveSpan x e.span = _
      rw [moveSpan, Span.placed, move_of_le hspanStart, move_of_ge hold hspanStop,
        hstart, hbeyond, byteLength_append]
    have hwidth : byteLength (h.before ++ x) + byteLength v =
        byteLength s + byteLength (u ++ (x ++ v)) := by
      rw [hbefore]
      simp only [byteLength_append]
      omega
    have htail : Rewrites (e.fill h x).span.stop s' (back.map (·.fill h x)) out' := by
      rw [hmoved]
      exact hout' x
    have hedit : Rewrites (0 + byteLength s) ([] ++ ((u ++ (x ++ v)) ++ s'))
        (e.fill h x :: back.map (·.fill h x)) ([] ++ ((e.fill h x).text ++ out')) := by
      refine .edit ?_ ?_ htail
      · rw [hmoved]
        simp
      · rw [hmoved]
        exact hwidth
    have hall := (hout x).append hedit
    rw [← hfill] at hall
    simpa [HoledEdit.fill, htext, Framed.fill] using hall

end Hole

/-! ### Fixing one call -/

/-- The text after the edits of one call on some of its sides. -/
def mend (sides : Side → Bool) (target : Target) (source : List Char)
    (call : Call) : List Char :=
  (splice source
    (((violations target source call).filter fun v => sides v.side).filterMap
      (·.edit))).output

section Mend

variable {sides : Side → Bool} {target : Target} {source : List Char} {call : Call}

theorem mended_sublist (sides : Side → Bool) (target : Target) (source : List Char)
    (call : Call) :
    (((violations target source call).filter fun v => sides v.side).filterMap
      (·.edit)).Sublist
      ((violations target source call).filterMap (·.edit)) :=
  List.filter_sublist.filterMap _

/-- A call in a part of a text is fixed there. -/
theorem mend_shift (sides : Side → Bool) (target : Target) (pre post : List Char)
    {s : List Char}
    (hspan : call.span.stop ≤ byteLength s) (hcallee : call.callee.stop ≤ byteLength s) :
    mend sides target (pre ++ (s ++ post)) (call.shift (byteLength pre)) =
      pre ++ (mend sides target s call ++ post) := by
  have hedits :
      ((violations target (pre ++ (s ++ post)) (call.shift (byteLength pre))).filter
      fun v => sides v.side).filterMap (·.edit) =
        (((violations target s call).filter fun v => sides v.side).filterMap (·.edit)).map
          (Edit.shift (byteLength pre)) := by
    rw [violations_shift target pre post hspan hcallee, List.filter_map,
      List.filterMap_map, List.map_filterMap]
    rfl
  rw [mend, hedits, splice_shift]
  · rfl
  · intro e he
    obtain ⟨cut, hcut⟩ :=
      slice_of_edits e ((mended_sublist sides target s call).subset he)
    obtain ⟨before, after, rfl, hbefore, hstop⟩ := slice?_eq_some_iff.1 hcut
    simp only [byteLength_append]
    omega

/-- Fixing a call leaves something of a text that is not empty. -/
theorem mend_ne_nil (sides : Side → Bool) (target : Target) (call : Call)
    (hsource : source ≠ []) :
    mend sides target source call ≠ [] := by
  obtain ⟨accepted, -, hsub, hrewrites⟩ := splice_rewrites source
    (((violations target source call).filter fun v => sides v.side).filterMap (·.edit))
  have hhead := hrewrites.head?_eq fun e he => by
    obtain ⟨v, hv, he⟩ := List.mem_filterMap.1
      ((mended_sublist sides target source call).subset (hsub e he))
    obtain ⟨_, -, hcontained⟩ := contained_of_violation hv
    rw [hcontained.edit e he]
    exact Nat.lt_of_le_of_lt (Nat.zero_le _) hcontained.within.1
  intro hnil
  rw [mend] at hnil
  rw [hnil] at hhead
  exact hsource (List.head?_eq_none_iff.1 hhead.symm)

/-- Fixing a call leaves the filling as it is, between two texts that do not
depend on it. -/
theorem Hole.exists_mend {h : Hole} {config : Span} (ho : h.Opens call config)
    (sides : Side → Bool) (target : Target) :
    ∃ left right, ∀ x ≠ [],
      mend sides target (h.fill x) (h.moveCall x call) = left ++ (x ++ right) := by
  obtain ⟨vs, hfits, hvs⟩ := Hole.exists_violations ho target
  let es : List HoledEdit := (vs.filter fun v => sides v.side).filterMap fun v =>
    v.edit.map fun text => ⟨v.span, text⟩
  have hedits {x : List Char} (hx : x ≠ []) :
      ((violations target (h.fill x) (h.moveCall x call)).filter fun v =>
        sides v.side).filterMap
        (·.edit) = es.map (·.fill h x) := by
    rw [hvs x hx, List.filter_map, List.filterMap_map, List.map_filterMap]
    refine congrArg (List.filterMap · _) (funext fun v => ?_)
    simp [HoledViolation.fill, HoledEdit.fill, Option.map_map, Function.comp_def]
  have hold := hedits ho.old
  have hsub := mended_sublist sides target (h.fill h.old) (h.moveCall h.old call)
  rw [hold] at hsub
  rw [Hole.moveCall_old] at hsub
  have hslices : ∀ e ∈ es, ∃ cut, slice? (h.fill h.old) e.span = some cut := by
    intro e he
    obtain ⟨cut, hcut⟩ := slice_of_edits _ (hsub.subset (List.mem_map_of_mem he))
    exact ⟨cut, by rwa [HoledEdit.fill, Hole.moveSpan_old] at hcut⟩
  have hordered : es.Pairwise fun e f => e.span.stop ≤ f.span.start := by
    have hpairs :=
      (@ordered_edits target (h.fill h.old) call config ho.object ho.forward).sublist hsub
    refine (List.pairwise_map.1 hpairs).imp fun {e f} hef => ?_
    simpa only [HoledEdit.fill, Hole.moveSpan_old] using hef
  have hfit : ∀ e ∈ es, e.text.Fits h e.span := by
    intro e he
    obtain ⟨v, hv, he⟩ := List.mem_filterMap.1 he
    obtain ⟨text, htext, rfl⟩ := Option.map_eq_some_iff.1 he
    exact hfits v (List.mem_filter.1 hv).1 text htext
  obtain ⟨left, right, hrewrites⟩ := Hole.exists_rewrites ho.old hfit hslices hordered
  refine ⟨left, right, fun x hx => ?_⟩
  rw [mend, hedits hx, splice_of_rewrites (hrewrites x) (hrewrites x).pairwise_before.2]

end Mend

/-! ### Calls whose ranges are sensible -/

/-- What makes the ranges of a call sensible: they are slices of the text; the
callee and the place where the `(` is looked for lie in the call; the arguments
lie in it, one behind the other, and none is empty; a `(` stands in front of
them; the call ends with a `)`; and the range of the objects goes from the start
of one argument to the end of that or a later one. -/
structure Call.Sensible (source : List Char) (call : Call) : Prop where
  span : (slice? source call.span).isSome = true
  callee : (slice? source call.callee).isSome = true ∧ call.callee.Within call.span
  argsFrom : call.span.start ≤ call.argsFrom ∧ call.argsFrom ≤ call.span.stop
  arguments : ∀ a ∈ call.arguments,
    (slice? source a).isSome = true ∧ a.start < a.stop ∧ a.Within call.span
  ordered : call.arguments.Pairwise fun a b => a.stop ≤ b.start
  opening : ∃ n, call.argsFrom ≤ n ∧ slice? source ⟨n, n + 1⟩ = some ['('] ∧
    ∀ a ∈ call.arguments, n < a.start
  closing : slice? source ⟨call.span.stop - 1, call.span.stop⟩ = some [')']
  config : ∃ front first more back, call.arguments = front ++ (first :: more ++ back) ∧
    call.config =
      some ⟨first.start, ((first :: more).getLast (List.cons_ne_nil _ _)).stop⟩

/-- The objects of a sensible call start with one of its arguments and end with
that or a later one. -/
theorem Call.Sensible.objects {source : List Char} {call : Call}
    (hcall : call.Sensible source)
    {config : Span} (hconfig : call.config = some config) :
    (∃ a ∈ call.arguments, config.start = a.start) ∧
    (∃ a ∈ call.arguments, config.stop = a.stop) ∧
      config.start ≤ config.stop := by
  obtain ⟨front, first, more, back, harguments, hrange⟩ := hcall.config
  obtain rfl := Option.some.inj (hconfig.symm.trans hrange)
  have hfirst : first ∈ call.arguments := by simp [harguments]
  have hlast : (first :: more).getLast (List.cons_ne_nil _ _) ∈ first :: more :=
    List.getLast_mem _
  have hlastIn : (first :: more).getLast (List.cons_ne_nil _ _) ∈ call.arguments := by
    rw [harguments]
    exact List.mem_append_right _ (List.mem_append_left _ hlast)
  refine ⟨⟨first, hfirst, rfl⟩, ⟨_, hlastIn, rfl⟩, ?_⟩
  · have hne := (hcall.arguments first hfirst).2.1
    have hordered := hcall.ordered
    rw [harguments] at hordered
    have hobjects := (List.pairwise_append.1 (List.pairwise_append.1 hordered).2.1).1
    generalize (first :: more).getLast (List.cons_ne_nil _ _) = last at hlast ⊢
    rcases List.mem_cons.1 hlast with rfl | hlast
    · exact Nat.le_of_lt hne
    · have hlater := (List.pairwise_cons.1 hobjects).1 last hlast
      have hlastNe := (hcall.arguments last (by simp [harguments, hlast])).2.1
      simp only
      omega

/-- A character that stands behind a cut of a text stands in what is cut off. -/
theorem mem_of_slice {before rest front mid : List Char} {start n : Nat} {c : Char}
    (hc : c.utf8Size = 1) (hslice : slice? (before ++ rest) ⟨n, n + 1⟩ = some [c])
    (hcut : splitAt? start before = some (front, mid)) (hle : start ≤ n)
    (hlt : n < byteLength before) : c ∈ mid := by
  obtain ⟨hbefore, hfront⟩ := append_of_splitAt? hcut
  obtain ⟨pre, post, hsource, hpre, -⟩ := slice?_eq_some_iff.1 hslice
  simp only at hpre
  obtain ⟨skip, rfl, -⟩ := exists_append_of_byteLength_le
    (show front ++ (mid ++ rest) =
      pre ++ ([c] ++ post) by rw [← hsource, hbefore]; simp) (by omega)
  have hrest : mid ++ rest = (skip ++ [c]) ++ post := by
    rw [hbefore] at hsource
    simpa using hsource
  obtain ⟨m, rfl, -⟩ := exists_append_of_byteLength_le hrest.symm (by
    have hwidth := congrArg byteLength hbefore
    simp only [byteLength_append, byteLength_cons, byteLength_nil, hc] at hwidth hpre ⊢
    omega)
  simp

/-- An argument of a sensible call that neither starts nor ends the objects can
be left open. -/
theorem Call.Sensible.opens {h : Hole} {call : Call}
    (hcall : call.Sensible (h.fill h.old))
    (harg : h.span ∈ call.arguments) {config : Span} (hconfig : call.config = some config)
    (hobject : config.start ≠ h.span.start ∧ config.stop ≠ h.span.stop)
    (hcallee : call.callee.Apart h.span) (hclose : h.span.stop < call.span.stop) :
    h.Opens call config := by
  obtain ⟨-, hne, hwithin⟩ := hcall.arguments h.span harg
  have hold : h.old ≠ [] := by
    intro hnil
    simp [Hole.span, hnil] at hne
  obtain ⟨front, back, harguments⟩ := List.append_of_mem harg
  have hordered := hcall.ordered
  rw [harguments] at hordered
  obtain ⟨-, hlater, hcross⟩ := List.pairwise_append.1 hordered
  have hfront : ∀ a ∈ front, a.start < a.stop ∧
      a.stop ≤ byteLength h.before := fun a ha =>
    ⟨(hcall.arguments a (by simp [harguments, ha])).2.1, hcross a ha h.span (by simp)⟩
  have hback : ∀ a ∈ back, byteLength h.before + byteLength h.old ≤ a.start ∧
      a.start < a.stop :=
    fun a ha => ⟨(List.pairwise_cons.1 hlater).1 a ha,
      (hcall.arguments a (by simp [harguments, ha])).2.1⟩
  -- every other argument lies on one side
  have hsides : ∀ a ∈ call.arguments, a = h.span ∨ h.Beside a.start ∧
      h.Beside a.stop := by
    intro a ha
    rw [harguments] at ha
    rcases List.mem_append.1 ha with ha | ha
    · have := hfront a ha
      exact .inr ⟨.inl (by omega), .inl (by omega)⟩
    · rcases List.mem_cons.1 ha with rfl | ha
      · exact .inl rfl
      · have := hback a ha
        exact .inr ⟨.inr (by omega), .inr (by omega)⟩
  obtain ⟨⟨first, hfirst, hstart⟩, ⟨last, hlast, hstop⟩, hforward⟩ :=
    hcall.objects hconfig
  obtain ⟨n, hfrom, hparen, hargs⟩ := hcall.opening
  have hn : n < byteLength h.before := hargs h.span harg
  obtain ⟨text, htext⟩ := Option.isSome_iff_exists.1 hcall.callee.1
  have hclose' : byteLength h.before + byteLength h.old < call.span.stop := hclose
  refine ⟨hold, ⟨front, back, harguments, hfront, hback⟩, hwithin.1,
    ⟨Nat.le.intro (byteLength_slice htext), hcallee⟩, by omega,
    fun front mid hcut => mem_of_slice rfl hparen hcut hfrom hn, ?_, hconfig,
      hforward, ?_, ?_⟩
  · refine ⟨call.span.stop - 1 - (byteLength h.before + byteLength h.old), by omega, ?_⟩
    rw [← hcall.closing, Hole.fill, ← List.append_assoc,
      ← slice?_append_right (h.before ++ h.old)]
    congr 2 <;> simp only [byteLength_append] <;> omega
  · rw [hstart]
    rcases hsides first hfirst with rfl | hside
    · exact absurd hstart hobject.1
    · exact hside.1
  · rw [hstop]
    rcases hsides last hlast with rfl | hside
    · exact absurd hstop hobject.2
    · exact hside.2

/-- **Inner and outer edits commute.**  For every call whose ranges are sensible
and every argument `h.old` of it that is none of the objects, is no part of the
callee and ends in front of the `)`: whatever text `x` that is not empty stands
in its place, the call is reported for the same sides, with its ranges moved
along, with an edit where it had one, and with the texts it had but for `x` in
the place of the argument.  After the edits of any of its sides the argument
stands between two texts that do not depend on it.  So a call inside the
argument may be fixed first or afterwards: the text that comes out is the
same. -/
theorem Call.Sensible.refill {h : Hole} {call : Call}
    (hcall : call.Sensible (h.fill h.old)) (harg : h.span ∈ call.arguments)
    (hobject : ∀ config, call.config = some config →
      config.start ≠ h.span.start ∧ config.stop ≠ h.span.stop)
    (hcallee : call.callee.Apart h.span) (hclose : h.span.stop < call.span.stop)
    (target : Target) :
    (∃ vs : List HoledViolation,
      violations target (h.fill h.old) call = vs.map (·.fill h h.old) ∧
      (∀ v ∈ vs, ∀ text ∈ v.edit, text.Fits h v.span) ∧
      ∀ x ≠ [], violations target (h.fill x) (h.moveCall x call) = vs.map (·.fill h x)) ∧
    ∀ sides : Side → Bool, ∃ left right,
      mend sides target (h.fill h.old) call = left ++ (h.old ++ right) ∧
      (∀ x ≠ [], mend sides target (h.fill x) (h.moveCall x call) =
        left ++ (x ++ right)) ∧
      ∀ (sides' : Side → Bool) (inner : Call), inner.span.stop ≤ byteLength h.old →
        inner.callee.stop ≤ byteLength h.old → ∃ x ≠ [],
          mend sides' target (h.fill h.old)
            (inner.shift (byteLength h.before)) = h.fill x ∧
          mend sides' target (mend sides target (h.fill h.old) call)
            (inner.shift (byteLength left)) =
              mend sides target (h.fill x) (h.moveCall x call) := by
  obtain ⟨_, _, _, _, -, hconfig⟩ := hcall.config
  have ho := hcall.opens harg hconfig (hobject _ hconfig) hcallee hclose
  refine ⟨?_, fun sides => ?_⟩
  · obtain ⟨vs, hfits, hvs⟩ := Hole.exists_violations ho target
    refine ⟨vs, ?_, hfits, hvs⟩
    rw [← hvs h.old ho.old, Hole.moveCall_old]
  · obtain ⟨left, right, hmend⟩ := Hole.exists_mend ho sides target
    have hold : mend sides target (h.fill h.old) call = left ++ (h.old ++ right) := by
      rw [← hmend h.old ho.old, Hole.moveCall_old]
    refine ⟨left, right, hold, hmend, fun sides' inner hspan hinner => ?_⟩
    have hx := mend_ne_nil sides' target inner ho.old
    refine ⟨mend sides' target h.old inner, hx, ?_, ?_⟩
    · exact mend_shift sides' target h.before h.after hspan hinner
    · rw [hold, mend_shift sides' target left right hspan hinner, hmend _ hx]

/-- A call that spreads over two lines, as an argument of one that does. -/
def nestedCall : Call where
  span := ⟨0, 13⟩
  callee := ⟨0, 1⟩
  argsFrom := 1
  arguments := [⟨2, 8⟩, ⟨10, 12⟩]
  config := some ⟨10, 12⟩

theorem sensible_nestedCall :
    nestedCall.Sensible
      (Hole.fill ⟨['f', '('], "g(\n\x7b\x7d)".toList, ",\n\x7b\x7d)".toList⟩
      "g(\n\x7b\x7d)".toList) where
  span := by decide
  callee := by decide
  argsFrom := by decide
  arguments := by decide
  ordered := by decide
  opening := ⟨1, by decide, by decide, by decide⟩
  closing := by decide
  config := ⟨[⟨2, 8⟩], ⟨10, 12⟩, [], [], rfl, rfl⟩

/-- Fixing the outer call and then the inner one, or the other way round. -/
theorem refill_nestedCall :
    let h : Hole := ⟨['f', '('], "g(\n\x7b\x7d)".toList, ",\n\x7b\x7d)".toList⟩
    let target : Target := ⟨["f", "g"], []⟩
    let inner : Call := ⟨⟨0, 6⟩, ⟨0, 1⟩, 1, [⟨3, 5⟩], some ⟨3, 5⟩⟩
    nestedCall.Sensible (h.fill h.old) ∧ h.span ∈ nestedCall.arguments ∧
      (violations target (h.fill h.old) nestedCall).length = 1 ∧
      ∃ left right, mend (fun _ => true) target (h.fill h.old) nestedCall =
        left ++ (h.old ++ right) ∧
        ∃ x ≠ [], mend (fun _ => true) target (h.fill h.old) (inner.shift 2) = h.fill x ∧
          mend (fun _ => true) target
            (mend (fun _ => true) target (h.fill h.old) nestedCall)
              (inner.shift (byteLength left)) =
            mend (fun _ => true) target (h.fill x) (h.moveCall x nestedCall) := by
  intro h target inner
  have harg : h.span ∈ nestedCall.arguments := by decide
  have hone : (violations target (h.fill h.old) nestedCall).length = 1 := by
    decide +kernel
  obtain ⟨-, hsides⟩ := sensible_nestedCall.refill harg
    (by rintro _ ⟨⟩; decide) (by decide) (by decide) target
  obtain ⟨left, right, hmend, -, hcommute⟩ := hsides fun _ => true
  exact ⟨sensible_nestedCall, harg, hone, left, right, hmend,
    hcommute (fun _ => true) inner (by decide) (by decide)⟩

/-- Where the callee of a call is one of its arguments, whether the call is
looked at depends on the argument. -/
theorem refill_in_callee :
    ¬ ∀ (h : Hole) (call : Call) (target : Target) (x : List Char),
      call.Sensible (h.fill h.old) →
      h.span ∈ call.arguments →
      (∀ config, call.config = some config →
        config.start ≠ h.span.start ∧ config.stop ≠ h.span.stop) →
      x ≠ [] →
      (violations target (h.fill x) (h.moveCall x call)).map (·.side) =
        (violations target (h.fill h.old) call).map (·.side) := by
  intro hall
  let call : Call := ⟨⟨0, 8⟩, ⟨2, 3⟩, 1, [⟨2, 3⟩, ⟨5, 7⟩], some ⟨5, 7⟩⟩
  have hsensible : call.Sensible
      (Hole.fill ⟨['f', '('], ['y'], ",\n\x7b\x7d)".toList⟩ ['y']) :=
    { span := by decide
      callee := by decide
      argsFrom := by decide
      arguments := by decide
      ordered := by decide
      opening := ⟨1, by decide, by decide, by decide⟩
      closing := by decide
      config := ⟨[⟨2, 3⟩], ⟨5, 7⟩, [], [], rfl, rfl⟩ }
  have hsame :=
    hall ⟨['f', '('], ['y'], ",\n\x7b\x7d)".toList⟩ call default "a.to".toList hsensible
    (by decide) (by rintro _ ⟨⟩; decide) (by decide)
  revert hsame
  decide +kernel

end AnimLint
