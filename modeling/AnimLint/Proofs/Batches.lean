/-
AnimLint/Proofs/Batches.lean

What becomes of every edit of a batch, and what the order of the batch has to do
with it.

Of a batch in order of position each edit is taken that covers a slice of the
text and does not start inside one taken before (`takenFrom_greedy`).  The
output is put together from slices of the text and the texts of the edits that
are taken (`assemble?`, `Rewrites.assemble?_eq`), so all the cutting is done
between characters of the text.  Together that is `splice_greedy`.

The order of a batch matters only to edits of one range with different texts,
because a batch is sorted first (`splice_perm`).  Where no two edits meet, they
can also be made one after the other, each at the place to which those already
made on its left have moved it (`Edit.movedBy`, `inTurn`): what is made so far
is always the text that a part of the batch gives, and the next edit goes
between the edits on its left and those on its right (`Rewrites.insert`,
`exists_row_inTurn`).  Together that is `splice_eq_inTurn`.
-/
import AnimLint.Proofs.Nesting
import Mathlib.Algebra.GroupWithZero.Nat
import Mathlib.Data.List.Nodup

namespace AnimLint

open Text

/-! ### Which edits are taken -/

section Greedy

variable {source before rest : List Char} {es : List Edit}

/-- An edit that covers no slice of the text is left out. -/
theorem takenFrom_of_no_slice (es : List Edit) {e : Edit}
    (hsource : source = before ++ rest) (hslice : slice? source e.span = none) :
    takenFrom (byteLength before) rest (e :: es) =
      takenFrom (byteLength before) rest es := by
  rw [takenFrom]
  split
  · rfl
  · next hfits =>
    simp only [Bool.or_eq_true, decide_eq_true_eq, not_or, Nat.not_lt] at hfits
    split
    · rfl
    · next kept after hkept =>
      split
      · rfl
      · next cut rest' hcut =>
        obtain ⟨rfl, hkept⟩ := append_of_splitAt? hkept
        obtain ⟨rfl, hcut⟩ := append_of_splitAt? hcut
        have hsome : slice? source e.span = some cut := by
          refine slice?_eq_some_iff.2 ⟨before ++ kept, rest', by simp [hsource], ?_, ?_⟩
          · rw [byteLength_append]
            omega
          · omega
        rw [hslice] at hsome
        cases hsome

/-- Of edits in order of position those are left out that cover no slice, that
start before the cursor, or that start inside an edit that is taken. -/
theorem takenFrom_greedy (hsource : source = before ++ rest)
    (hsorted : es.Pairwise fun e f => e.before f = true) :
    ∃ skipped, (takenFrom (byteLength before) rest es ++ skipped).Perm es ∧
      ∀ f ∈ skipped, slice? source f.span = none ∨ f.span.start < byteLength before ∨
        ∃ e ∈ takenFrom (byteLength before) rest es,
          e.span.start ≤ f.span.start ∧ f.span.start < e.span.stop := by
  induction hsorted generalizing before rest with
  | nil => exact ⟨[], .refl _, by simp⟩
  | @cons e es he _ ih =>
    -- an edit that is left out comes to those left out of the rest
    have hleft (hout : slice? source e.span = none ∨ e.span.start < byteLength before)
        (htaken : takenFrom (byteLength before) rest (e :: es) =
          takenFrom (byteLength before) rest es) :
        ∃ skipped, (takenFrom (byteLength before) rest (e :: es) ++
          skipped).Perm (e :: es) ∧
          ∀ f ∈ skipped, slice? source f.span = none ∨ f.span.start < byteLength before ∨
            ∃ e' ∈ takenFrom (byteLength before) rest (e :: es),
              e'.span.start ≤ f.span.start ∧ f.span.start < e'.span.stop := by
      obtain ⟨skipped, hperm, hskipped⟩ := ih hsource
      rw [htaken]
      refine ⟨e :: skipped, List.perm_middle.trans (hperm.cons e), fun f hf => ?_⟩
      rcases List.mem_cons.1 hf with rfl | hf
      · exact hout.imp_right .inl
      · exact hskipped f hf
    by_cases hlt : e.span.start < byteLength before
    · exact hleft (.inr hlt) (takenFrom_of_lt hlt)
    · rcases hslice : slice? source e.span with - | cut
      · exact hleft (.inl hslice) (takenFrom_of_no_slice es hsource hslice)
      · obtain ⟨kept, after, hsource', hwide, htaken⟩ :=
          takenFrom_of_slice es hsource hslice (Nat.le_of_not_lt hlt)
        obtain ⟨skipped, hperm, hskipped⟩ := ih hsource'
        rw [hwide] at hperm hskipped
        rw [htaken]
        refine ⟨skipped, hperm.cons e, fun f hf => ?_⟩
        rcases hskipped f hf with hnone | hinside | ⟨e', he', hinside⟩
        · exact .inl hnone
        · -- the rest is in order behind `e`, so what starts before its end starts inside it
          have hbefore := he f (hperm.mem_iff.1 (List.mem_append_right _ hf))
          simp only [Edit.before, Bool.or_eq_true, Bool.and_eq_true, decide_eq_true_eq,
            beq_iff_eq] at hbefore
          exact .inr (.inr ⟨e, List.mem_cons_self, by omega, hinside⟩)
        · exact .inr (.inr ⟨e', List.mem_cons_of_mem e he', hinside⟩)

end Greedy

/-! ### What the output is made of -/

/-- The text that edits make of what lies behind the byte `cursor` of `source`:
in front of each edit the slice up to it, then its own text, and behind the last
the slice up to the end. -/
def assemble? (source : List Char) : Nat → List Edit → Option (List Char)
  | cursor, [] => slice? source ⟨cursor, byteLength source⟩
  | cursor, e :: es => do
    let kept ← slice? source ⟨cursor, e.span.start⟩
    let behind ← assemble? source e.span.stop es
    return kept ++ (e.text ++ behind)

/-- What edits rewrite a text to is put together from slices of it. -/
theorem Rewrites.assemble?_eq {source before : List Char} {cursor : Nat}
    {rest out : List Char}
    {es : List Edit} (h : Rewrites cursor rest es out) (hsource : source = before ++ rest)
    (hbefore : byteLength before = cursor) : assemble? source cursor es = some out := by
  induction h generalizing before with
  | rest cursor rest =>
    refine slice?_eq_some_iff.2 ⟨before, [], by simp [hsource], hbefore, ?_⟩
    rw [hsource, byteLength_append, hbefore]
  | @edit cursor kept cut after e es out hstart hstop _ ih =>
    have hkept : slice? source ⟨cursor, e.span.start⟩ = some kept :=
      slice?_eq_some_iff.2 ⟨before, cut ++ after, hsource, hbefore, hstart⟩
    have hsource' : source = before ++ (kept ++ cut) ++ after := by simp [hsource]
    have hwide : byteLength (before ++ (kept ++ cut)) = e.span.stop := by
      simp only [byteLength_append]
      omega
    simp [assemble?, hkept, ih hsource' hwide]

/-- Edits that are made in turn start behind the end of the one before. -/
theorem Rewrites.pairwise_stop_le {cursor : Nat} {rest out : List Char} {es : List Edit}
    (h : Rewrites cursor rest es out) :
    es.Pairwise fun e f => e.span.stop ≤ f.span.start := by
  induction h with
  | rest cursor rest => exact .nil
  | edit _ _ htail ih =>
    exact List.pairwise_cons.2 ⟨fun f hf => (htail.stop_le f hf).1, ih⟩

/-- Splicing takes greedily: every edit is taken or left out; those taken cover
slices, one behind the other; one left out covers no slice or starts inside one
taken; and the output is put together from slices of the source and the texts of
those taken. -/
theorem splice_greedy (source : List Char) (edits : List Edit) :
    (splice source edits).applied + (splice source edits).skipped = edits.length ∧
    ∃ accepted skipped, (accepted ++ skipped).Perm edits ∧
      accepted.length = (splice source edits).applied ∧
      skipped.length = (splice source edits).skipped ∧
      (∀ e ∈ accepted, ∃ cut, slice? source e.span = some cut) ∧
      accepted.Pairwise (fun e f => e.span.stop ≤ f.span.start) ∧
      (∀ f ∈ skipped, slice? source f.span = none ∨
        ∃ e ∈ accepted, e.span.start ≤ f.span.start ∧ f.span.start < e.span.stop) ∧
      assemble? source 0 accepted = some (splice source edits).output := by
  obtain ⟨hlen, hall, hrewrites⟩ := splice_taken source edits
  have hsource : source = [] ++ source := rfl
  obtain ⟨skipped, hperm, hskipped⟩ := takenFrom_greedy hsource
    (pairwise_sortBy Edit.before_total Edit.before_trans edits)
  have hperm : (taken source edits ++ skipped).Perm edits :=
    hperm.trans (sortBy_perm Edit.before edits)
  have hcount : skipped.length = (splice source edits).skipped := by
    have := hperm.length_eq
    rw [List.length_append] at this
    omega
  have hslice : ∀ e ∈ taken source edits,
      ∃ cut, slice? ([] ++ source) e.span = some cut :=
    hrewrites.slice_of_mem rfl
  refine ⟨hall, taken source edits, skipped, hperm, hlen, hcount, hslice,
    hrewrites.pairwise_stop_le, fun f hf => ?_, hrewrites.assemble?_eq hsource rfl⟩
  rcases hskipped f hf with hnone | hlt | hinside
  · exact .inl hnone
  · exact absurd hlt (Nat.not_lt_zero _)
  · exact .inr hinside

/-! ### The order of a batch -/

/-- Two edits in order of position both ways have one range. -/
theorem Edit.span_eq_of_before {e f : Edit} (hef : e.before f = true)
    (hfe : f.before e = true) :
    e.span = f.span := by
  simp only [Edit.before, Bool.or_eq_true, Bool.and_eq_true, decide_eq_true_eq,
    beq_iff_eq]
    at hef hfe
  have hstart : e.span.start = f.span.start := by omega
  have hstop : e.span.stop = f.span.stop := by omega
  rcases he : e.span with ⟨start, stop⟩
  rcases hf : f.span with ⟨start', stop'⟩
  simp only [he, hf] at hstart hstop
  rw [hstart, hstop]

/-- If edits of one range have one text, the order of a batch does not
matter. -/
theorem splice_perm (source : List Char) {edits order : List Edit}
    (hperm : order.Perm edits)
    (htext : ∀ e ∈ edits, ∀ f ∈ edits, e.span = f.span → e.text = f.text) :
    splice source order = splice source edits := by
  have hsorted : sortBy Edit.before order = sortBy Edit.before edits := by
    have horder := pairwise_sortBy Edit.before_total Edit.before_trans order
    have hedits := pairwise_sortBy Edit.before_total Edit.before_trans edits
    refine List.Perm.eq_of_pairwise (fun e f he hf hef hfe => ?_) horder hedits
      ((sortBy_perm _ order).trans (hperm.trans (sortBy_perm _ edits).symm))
    have he := hperm.mem_iff.1 ((sortBy_perm Edit.before order).mem_iff.1 he)
    have hf := (sortBy_perm Edit.before edits).mem_iff.1 hf
    have hspan := Edit.span_eq_of_before hef hfe
    have htext := htext e he f hf hspan
    rcases e with ⟨span, text⟩
    rcases f with ⟨span', text'⟩
    simp only at hspan htext
    rw [hspan, htext]
  rw [splice, splice, hsorted]

/-! ### One edit after the other -/

/-- The bytes that edits bring. -/
def bytesAdded (es : List Edit) : Nat := (es.map fun e => byteLength e.text).sum

/-- The bytes that edits cut. -/
def bytesCut (es : List Edit) : Nat := (es.map fun e => e.span.stop - e.span.start).sum

/-- An edit at the place to which the edits in `done` that lie on its left have
moved it. -/
def Edit.movedBy (done : List Edit) (e : Edit) : Edit :=
  let left := done.filter fun d => d.span.stop ≤ e.span.start
  let move (n : Nat) : Nat := n + bytesAdded left - bytesCut left
  { e with span := ⟨move e.span.start, move e.span.stop⟩ }

/-- Makes edits one after the other, each as a batch of its own at the place to
which those already made have moved it. -/
def inTurn : List Char → List Edit → List Edit → Spliced
  | source, _, [] => ⟨source, 0, 0⟩
  | source, done, e :: es =>
    let first := splice source [e.movedBy done]
    let others := inTurn first.output (e :: done) es
    ⟨others.output, first.applied + others.applied, first.skipped + others.skipped⟩

namespace Rewrites

/-- The width of a text changes by what the edits bring and cut. -/
theorem byteLength_add {cursor : Nat} {rest out : List Char} {es : List Edit}
    (h : Rewrites cursor rest es out) :
    byteLength out + bytesCut es = byteLength rest + bytesAdded es := by
  induction h with
  | rest cursor rest => rfl
  | @edit cursor kept cut after e es out hstart hstop _ ih =>
    simp only [bytesAdded, bytesCut] at ih
    simp only [bytesAdded, bytesCut, byteLength_append, List.map_cons, List.sum_cons]
    omega

/-- Edits of two texts side by side, the first of which lie in the one and the
others in the other. -/
theorem split_append {cursor : Nat} {s t out : List Char} {left right : List Edit}
    (h : Rewrites cursor (s ++ t) (left ++ right) out)
    (hleft : ∀ e ∈ left, e.span.stop ≤ cursor + byteLength s)
    (hright : ∀ e ∈ right, cursor + byteLength s ≤ e.span.start) :
    ∃ out₁ out₂, out = out₁ ++ out₂ ∧ Rewrites cursor s left out₁ ∧
      Rewrites (cursor + byteLength s) t right out₂ := by
  induction left generalizing cursor s out with
  | nil =>
    obtain ⟨out', rfl, h'⟩ := h.of_behind hright
    exact ⟨s, out', rfl, .rest _ _, h'⟩
  | cons e left ih =>
    generalize hsource : s ++ t = source at h
    cases h with
    | @edit _ kept cut after _ _ out hstart hstop htail =>
      have hle := hleft e List.mem_cons_self
      have hcut : kept ++ cut ++ after = s ++ t := by rw [hsource, List.append_assoc]
      obtain ⟨m, rfl, rfl⟩ :=
        exists_append_of_byteLength_le hcut (by rw [byteLength_append]; omega)
      have hmid : cursor + byteLength (kept ++ cut ++ m) =
          e.span.stop + byteLength m := by
        simp only [byteLength_append]
        omega
      rw [hmid] at hleft hright ⊢
      obtain ⟨out₁, out₂, rfl, h₁, h₂⟩ :=
        ih htail (fun f hf => hleft f (List.mem_cons_of_mem e hf)) hright
      exact ⟨kept ++ (e.text ++ out₁),
        out₂, by simp, by simpa using .edit hstart hstop h₁, h₂⟩

/-- Between the edits on its left and those on its right an edit can be made
later, at the place to which those on its left have moved it. -/
theorem insert {source cut out : List Char} {left right : List Edit} {e : Edit}
    (h : Rewrites 0 source (left ++ right) out) (hslice : slice? source e.span = some cut)
    (hleft : ∀ d ∈ left, d.span.stop ≤ e.span.start)
    (hright : ∀ d ∈ right, e.span.stop ≤ d.span.start) :
    ∃ kept after, out = kept ++ (cut ++ after) ∧
      byteLength kept + bytesCut left = e.span.start + bytesAdded left ∧
      Rewrites 0 source (left ++ e :: right) (kept ++ (e.text ++ after)) := by
  obtain ⟨before, behind, rfl, hbefore, hstop⟩ := slice?_eq_some_iff.1 hslice
  have hcut : Rewrites 0 (before ++ (cut ++ behind)) (left ++ right) out := h
  obtain ⟨kept, out', rfl, h₁, h₂⟩ := hcut.split_append
    (fun d hd => by rw [Nat.zero_add, hbefore]; exact hleft d hd)
    (fun d hd => by rw [Nat.zero_add, hbefore]; have := hright d hd; omega)
  rw [Nat.zero_add, hbefore] at h₂
  obtain ⟨after, rfl, h₃⟩ := h₂.of_behind fun d hd => by
    rw [← hstop]
    exact hright d hd
  rw [← hstop] at h₃
  have hhere : Rewrites (0 + byteLength before) (cut ++ behind) (e :: right)
      (e.text ++ after) := by
    rw [Nat.zero_add, hbefore]
    exact @Rewrites.edit e.span.start [] cut behind e right after rfl hstop h₃
  refine ⟨kept, after, rfl, ?_, h₁.append hhere⟩
  rw [h₁.byteLength_add, hbefore]

end Rewrites

/-- A row of edits, none of which meets `e`, is a row on the left of `e` and one
on its right. -/
theorem exists_left_right {row : List Edit} {e : Edit}
    (hrow : row.Pairwise fun d f => d.span.stop ≤ f.span.start)
    (hforward : ∀ d ∈ e :: row, d.span.start ≤ d.span.stop)
    (hapart : ∀ d ∈ row, e.span ≠ d.span ∧ e.span.Apart d.span) :
    ∃ left right, row = left ++ right ∧ (∀ d ∈ left, d.span.stop ≤ e.span.start) ∧
      ∀ d ∈ right, e.span.stop ≤ d.span.start ∧ ¬ d.span.stop ≤ e.span.start := by
  induction hrow with
  | nil => exact ⟨[], [], rfl, by simp, by simp⟩
  | @cons d row hd _ ih =>
    have he := hforward e List.mem_cons_self
    have hdforward := hforward d (List.mem_cons_of_mem e List.mem_cons_self)
    by_cases hleft : d.span.stop ≤ e.span.start
    · obtain ⟨left, right, rfl, hl, hr⟩ := ih
        (fun f hf => hforward f (by
          rcases List.mem_cons.1 hf with rfl | hf
          · exact List.mem_cons_self
          · exact List.mem_cons_of_mem e (List.mem_cons_of_mem d hf)))
        (fun f hf => hapart f (List.mem_cons_of_mem d hf))
      refine ⟨d :: left, right, rfl, fun f hf => ?_, hr⟩
      rcases List.mem_cons.1 hf with rfl | hf
      · exact hleft
      · exact hl f hf
    · have hstop : e.span.stop ≤ d.span.start :=
        (hapart d List.mem_cons_self).2.resolve_right hleft
      refine ⟨[], d :: row, rfl, by simp, fun f hf => ?_⟩
      rcases List.mem_cons.1 hf with rfl | hf
      · exact ⟨hstop, hleft⟩
      · have := hd f hf
        have := hforward f (List.mem_cons_of_mem e (List.mem_cons_of_mem d hf))
        omega

/-- What is made in turn is what the edits made so far give as a row. -/
theorem exists_row_inTurn {source s : List Char} {done order row : List Edit}
    (hrow : row.Perm done) (h : Rewrites 0 source row s)
    (hslice : ∀ e ∈ done ++ order, ∃ cut, slice? source e.span = some cut)
    (hapart : (done ++ order).Pairwise fun e f => e.span ≠ f.span ∧ e.span.Apart f.span) :
    ∃ row' out, row'.Perm (done ++ order) ∧ Rewrites 0 source row' out ∧
      inTurn s done order = ⟨out, order.length, 0⟩ := by
  induction order generalizing s done row with
  | nil => exact ⟨row, s, by simpa using hrow, h, rfl⟩
  | cons e order ih =>
    have hmove : (e :: done ++ order).Perm (done ++ e :: order) := List.perm_middle.symm
    have hslice' : ∀ f ∈ e :: done ++ order, ∃ cut, slice? source f.span = some cut :=
      fun f hf => hslice f (hmove.mem_iff.1 hf)
    have hapart' : (e :: done ++ order).Pairwise fun e f =>
        e.span ≠ f.span ∧ e.span.Apart f.span :=
      (hmove.pairwise_iff fun hef => ⟨hef.1.symm, hef.2.symm⟩).2 hapart
    have hforward : ∀ d ∈ e :: row, d.span.start ≤ d.span.stop := by
      intro d hd
      obtain ⟨cut, hcut⟩ :=
        hslice' d (List.mem_append_left _ ((hrow.cons e).mem_iff.1 hd))
      obtain ⟨-, -, -, -, hstop⟩ := slice?_eq_some_iff.1 hcut
      omega
    obtain ⟨left, right, rfl, hleft, hright⟩ :=
      exists_left_right h.pairwise_stop_le hforward
      fun d hd => (List.pairwise_cons.1 hapart').1 d
        (List.mem_append_left _ (hrow.mem_iff.1 hd))
    obtain ⟨cut, hcut⟩ := hslice' e List.mem_cons_self
    obtain ⟨kept, after, rfl, hkept, hnext⟩ :=
      h.insert hcut hleft fun d hd => (hright d hd).1
    -- the edits on the left are those that the move counts
    have hcounted :
        (done.filter fun d => decide (d.span.stop ≤ e.span.start)).Perm left := by
      have hall : (left ++ right).filter
          (fun d => decide (d.span.stop ≤ e.span.start)) = left := by
        rw [List.filter_append,
          List.filter_eq_self.2 fun d hd => decide_eq_true (hleft d hd),
          List.filter_eq_nil_iff.2 fun d hd => by simpa using (hright d hd).2,
          List.append_nil]
      rw [← hall]
      exact (hrow.filter _).symm
    have hadded : bytesAdded (done.filter fun d => decide (d.span.stop ≤ e.span.start)) =
        bytesAdded left := (hcounted.map _).sum_nat
    have hcutted : bytesCut (done.filter fun d => decide (d.span.stop ≤ e.span.start)) =
        bytesCut left := (hcounted.map _).sum_nat
    obtain ⟨-, -, -, -, hstop⟩ := slice?_eq_some_iff.1 hcut
    have hstart : (e.movedBy done).span.start = byteLength kept := by
      simp only [Edit.movedBy, hadded, hcutted]
      omega
    have hend : (e.movedBy done).span.stop = byteLength kept + byteLength cut := by
      simp only [Edit.movedBy, hadded, hcutted]
      omega
    have hone : Rewrites 0 (kept ++ (cut ++ after)) [e.movedBy done]
        (kept ++ (e.text ++ after)) :=
      .edit (by rw [hstart, Nat.zero_add]) (by rw [hend, hstart]) (.rest _ _)
    have hsplice := splice_of_rewrites hone (List.pairwise_singleton _ _)
    have hrow' : (left ++ e :: right).Perm (e :: done) :=
      List.perm_middle.trans (hrow.cons e)
    obtain ⟨row', out, hperm, hout, hturn⟩ := ih hrow' hnext hslice' hapart'
    refine ⟨row', out, hperm.trans hmove, hout, ?_⟩
    simp only [inTurn, hsplice, hturn, List.length_cons, List.length_nil]
    rw [Nat.zero_add, Nat.add_comm]

/-- A batch in which edits of one range have one text gives the same in every
order; and a batch of slices of which no two meet or have one range gives what
its edits give one after the other, in every order. -/
theorem splice_eq_inTurn (source : List Char) (edits : List Edit) :
    ((∀ e ∈ edits, ∀ f ∈ edits, e.span = f.span → e.text = f.text) →
      ∀ order, order.Perm edits → splice source order = splice source edits) ∧
    ((∀ e ∈ edits, ∃ cut, slice? source e.span = some cut) →
      edits.Pairwise (fun e f => e.span ≠ f.span ∧ e.span.Apart f.span) →
      ∀ order, order.Perm edits → inTurn source [] order = splice source edits) := by
  refine ⟨fun htext order hperm => splice_perm source hperm htext,
    fun hslice hapart order hperm => ?_⟩
  have hslice' : ∀ e ∈ [] ++ order, ∃ cut, slice? source e.span = some cut :=
    fun e he => hslice e (hperm.mem_iff.1 he)
  have hapart' : ([] ++ order).Pairwise fun e f : Edit =>
      e.span ≠ f.span ∧ e.span.Apart f.span :=
    (hperm.pairwise_iff fun hef => ⟨hef.1.symm, hef.2.symm⟩).2 hapart
  obtain ⟨row, out, hrow, hout, hturn⟩ :=
    exists_row_inTurn (.refl _) (.rest 0 source) hslice' hapart'
  have hrow : row.Perm order := hrow
  have htext : ∀ e ∈ order, ∀ f ∈ order, e.span = f.span → e.text = f.text := by
    have hnodup : (order.map Edit.span).Nodup :=
      List.pairwise_map.2 (hapart'.imp And.left)
    intro e he f hf hspan
    rw [List.inj_on_of_nodup_map hnodup he hf hspan]
  have hrowSlice : ∀ e ∈ row, ∃ cut, slice? source e.span = some cut :=
    fun e he => hslice e (hperm.mem_iff.1 (hrow.mem_iff.1 he))
  calc inTurn source [] order = ⟨out, order.length, 0⟩ := hturn
    _ = splice source row := by
      rw [splice_of_rewrites hout (before_of_ordered hrowSlice hout.pairwise_stop_le),
        hrow.length_eq]
    _ = splice source order := splice_perm source hrow htext
    _ = splice source edits := (splice_perm source hperm.symm htext).symm

/-- An insertion on either side of a replacement, and a deletion that
adjoins. -/
def adjoiningEdits : List Edit :=
  [⟨⟨4, 4⟩, "+".toList⟩, ⟨⟨2, 2⟩, "<<".toList⟩, ⟨⟨4, 6⟩, []⟩, ⟨⟨2, 4⟩, "é".toList⟩]

theorem splice_eq_inTurn_adjoining :
    splice "abcdefg".toList adjoiningEdits.reverse =
      splice "abcdefg".toList adjoiningEdits ∧
      inTurn "abcdefg".toList [] adjoiningEdits = splice "abcdefg".toList adjoiningEdits ∧
      splice "abcdefg".toList adjoiningEdits = ⟨"ab<<é+g".toList, 4, 0⟩ := by
  obtain ⟨hperm, hturn⟩ := splice_eq_inTurn "abcdefg".toList adjoiningEdits
  refine ⟨hperm (by decide) _ (List.reverse_perm _),
    hturn ?_ (by decide) _ (.refl _), by decide⟩
  intro e he
  rw [← Option.isSome_iff_exists]
  revert e
  decide

end AnimLint
