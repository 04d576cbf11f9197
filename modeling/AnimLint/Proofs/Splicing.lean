/-
AnimLint/Proofs/Splicing.lean

What a batch of edits does to a text, as a relation.
`Rewrites cursor rest accepted out` says that taking the edits `accepted` one
after the other, with `rest` the text from the byte `cursor` on, gives `out`: in
front of each edit the text is kept, what it covers is cut, and its own text
stands there instead.

`splice` rewrites by some of the edits it is given, those that are `taken`
(`spliceFrom_takenFrom`), among them the one that comes first, if that is an
edit of the text at all (`splice_applied_pos`).  Rewriting can be done in parts:
a text in front stays (`Rewrites.behind`), and edits of two texts side by side
are edits of both together (`Rewrites.append`).  Edits of slices that follow one
another are all taken (`splice_of_rewrites`, `splice_skipped_eq_zero`).
-/
import AnimLint.Splice

namespace AnimLint

open Text

/-- Taking edits in turn from the byte `cursor` on. -/
inductive Rewrites : Nat → List Char → List Edit → List Char → Prop
  | rest (cursor : Nat) (rest : List Char) : Rewrites cursor rest [] rest
  | edit {cursor : Nat} {kept cut after : List Char} {e : Edit} {es : List Edit}
      {out : List Char} :
      e.span.start = cursor + byteLength kept →
      e.span.stop = e.span.start + byteLength cut →
      Rewrites e.span.stop after es out →
      Rewrites cursor (kept ++ (cut ++ after)) (e :: es) (kept ++ (e.text ++ out))

namespace Rewrites

/-! ### Positions -/

theorem stop_le {cursor : Nat} {rest out : List Char} {es : List Edit}
    (h : Rewrites cursor rest es out) :
    ∀ e ∈ es, cursor ≤ e.span.start ∧ e.span.stop ≤ cursor + byteLength rest := by
  induction h with
  | rest cursor rest => intro e he; cases he
  | @edit cursor kept cut after e es out hstart hstop _ ih =>
    intro f hf
    rcases List.mem_cons.1 hf with rfl | hf
    · simp only [byteLength_append]
      omega
    · have := ih f hf
      simp only [byteLength_append]
      omega

/-- Each edit covers a slice of the text. -/
theorem slice_of_mem {cursor : Nat} {rest out before : List Char} {es : List Edit}
    (h : Rewrites cursor rest es out) (hbefore : byteLength before = cursor) :
    ∀ e ∈ es, ∃ cut, slice? (before ++ rest) e.span = some cut := by
  induction h generalizing before with
  | rest cursor rest => intro e he; cases he
  | @edit cursor kept cut after e es out hstart hstop _ ih =>
    intro f hf
    rcases List.mem_cons.1 hf with rfl | hf
    · refine ⟨cut, slice?_eq_some_iff.2 ⟨before ++ kept, after, by simp, ?_, hstop⟩⟩
      rw [byteLength_append]
      omega
    · have hwide : byteLength (before ++ (kept ++ cut)) = e.span.stop := by
        simp only [byteLength_append]
        omega
      have := ih hwide f hf
      simpa using this

/-! ### What edits keep -/

/-- What each edit keeps of the slice it covers, the batch keeps of the text, if
it adds up. -/
theorem map_eq {α : Type} (f : List Char → List α)
    (hf : ∀ s t, f (s ++ t) = f s ++ f t) {cursor : Nat} {rest out before : List Char}
    {es : List Edit} (h : Rewrites cursor rest es out)
    (hbefore : byteLength before = cursor)
    (hes : ∀ e ∈ es, ∀ cut, slice? (before ++ rest) e.span = some cut →
      f e.text = f cut) :
    f out = f rest := by
  induction h generalizing before with
  | rest cursor rest => rfl
  | @edit cursor kept cut after e es out hstart hstop _ ih =>
    have hcut : f e.text = f cut := by
      refine hes e List.mem_cons_self cut
        (slice?_eq_some_iff.2 ⟨before ++ kept, after, by simp, ?_, hstop⟩)
      rw [byteLength_append]
      omega
    have hwide : byteLength (before ++ (kept ++ cut)) = e.span.stop := by
      simp only [byteLength_append]
      omega
    have hrest : f out = f after := by
      refine ih hwide ?_
      intro e' he' cut' hcut'
      exact hes e' (List.mem_cons_of_mem _ he') cut' (by simpa using hcut')
    rw [hf, hf, hf, hf, hcut, hrest]

/-- Where every edit makes a measure of the text smaller, so does the batch. -/
theorem measure_le (μ : List Char → Nat) (hμ : ∀ s t, μ (s ++ t) = μ s + μ t)
    {cursor : Nat}
    {rest out before : List Char} {es : List Edit} (h : Rewrites cursor rest es out)
    (hbefore : byteLength before = cursor)
    (hes : ∀ e ∈ es, ∀ cut, slice? (before ++ rest) e.span = some cut →
      μ e.text < μ cut) :
    μ out + es.length ≤ μ rest := by
  induction h generalizing before with
  | rest cursor rest => simp
  | @edit cursor kept cut after e es out hstart hstop _ ih =>
    have hcut : μ e.text < μ cut := by
      refine hes e List.mem_cons_self cut
        (slice?_eq_some_iff.2 ⟨before ++ kept, after, by simp, ?_, hstop⟩)
      rw [byteLength_append]
      omega
    have hwide : byteLength (before ++ (kept ++ cut)) = e.span.stop := by
      simp only [byteLength_append]
      omega
    have hrest : μ out + es.length ≤ μ after := by
      refine ih hwide ?_
      intro e' he' cut' hcut'
      exact hes e' (List.mem_cons_of_mem _ he') cut' (by simpa using hcut')
    rw [hμ, hμ, hμ, hμ, List.length_cons]
    omega

/-- A character in front of the first edit stays. -/
theorem head?_eq {rest out : List Char} {es : List Edit} (h : Rewrites 0 rest es out)
    (hes : ∀ e ∈ es, 0 < e.span.start) : out.head? = rest.head? := by
  cases h with
  | rest => rfl
  | @edit _ kept cut after e es out hstart _ _ =>
    have := hes e List.mem_cons_self
    rcases kept with - | ⟨c, kept⟩
    · rw [hstart, byteLength_nil] at this
      exact absurd this (Nat.lt_irrefl 0)
    · rfl

/-! ### Parts -/

/-- A text in front of the edits stays. -/
theorem behind {cursor : Nat} {rest out : List Char} {es : List Edit} (before : List Char)
    (h : Rewrites (cursor + byteLength before) rest es out) :
    Rewrites cursor (before ++ rest) es (before ++ out) := by
  cases h with
  | rest => exact .rest _ _
  | @edit _ kept cut after e es out hstart hstop htail =>
    have hstart' : e.span.start = cursor + byteLength (before ++ kept) := by
      rw [byteLength_append]
      omega
    simpa using Rewrites.edit hstart' hstop htail

/-- Edits of two texts side by side. -/
theorem append {cursor : Nat} {s t out out' : List Char} {es es' : List Edit}
    (h : Rewrites cursor s es out) (h' : Rewrites (cursor + byteLength s) t es' out') :
    Rewrites cursor (s ++ t) (es ++ es') (out ++ out') := by
  induction h with
  | rest cursor s => exact h'.behind s
  | @edit cursor kept cut after e es out hstart hstop _ ih =>
    have hwide : cursor + byteLength (kept ++ (cut ++ after)) =
        e.span.stop + byteLength after := by
      simp only [byteLength_append]
      omega
    rw [hwide] at h'
    simpa using Rewrites.edit hstart hstop (ih h')

/-- A text in front of all edits can be left out. -/
theorem of_behind {cursor : Nat} {before rest out : List Char} {es : List Edit}
    (h : Rewrites cursor (before ++ rest) es out)
    (hes : ∀ e ∈ es, cursor + byteLength before ≤ e.span.start) :
    ∃ out', out = before ++ out' ∧
      Rewrites (cursor + byteLength before) rest es out' := by
  generalize hs : before ++ rest = s at h
  cases h with
  | rest => exact ⟨rest, hs.symm, .rest _ _⟩
  | @edit _ kept cut after e es out hstart hstop htail =>
    have hle := hes e List.mem_cons_self
    obtain ⟨m, rfl, rfl⟩ := exists_append_of_byteLength_le hs (by omega)
    refine ⟨m ++ (e.text ++ out), by simp, .edit ?_ hstop htail⟩
    rw [hstart, byteLength_append]
    omega

/-- Without edits the text stays. -/
theorem eq_of_nil {cursor : Nat} {s out : List Char}
    (h : Rewrites cursor s [] out) : out = s := by
  generalize hes : ([] : List Edit) = es at h
  cases h with
  | rest => rfl
  | edit => cases hes

/-- Edits of two texts side by side, each of which lies in one of them, can be
told apart. -/
theorem split {P Q : Edit → Prop} {cursor : Nat} {s t out : List Char} {es : List Edit}
    (h : Rewrites cursor (s ++ t) es out)
    (hes : ∀ e ∈ es, e.span.start < e.span.stop ∧
      (P e ∧ e.span.stop ≤ cursor + byteLength s ∨
        Q e ∧ cursor + byteLength s ≤ e.span.start)) :
    ∃ es₁ es₂ out₁ out₂, es = es₁ ++ es₂ ∧ out = out₁ ++ out₂ ∧
      Rewrites cursor s es₁ out₁ ∧
      Rewrites (cursor + byteLength s) t es₂ out₂ ∧ (∀ e ∈ es₁, P e) ∧
      ∀ e ∈ es₂, Q e := by
  generalize hsource : s ++ t = source at h
  induction h generalizing s with
  | rest cursor source =>
    exact ⟨[], [], s, t, rfl, hsource.symm, .rest _ _, .rest _ _, by simp, by simp⟩
  | @edit cursor kept cut after e es out hstart hstop htail ih =>
    have hbounds := htail.stop_le
    rcases (hes e List.mem_cons_self).2 with ⟨hP, hle⟩ | ⟨hQ, hle⟩
    · -- the first edit lies in the first text, which goes on behind what it covers
      have hcut : kept ++ cut ++ after = s ++ t := by rw [hsource, List.append_assoc]
      obtain ⟨m, rfl, rfl⟩ := exists_append_of_byteLength_le hcut
        (by rw [byteLength_append]; omega)
      have hmid : cursor + byteLength (kept ++ cut ++ m) =
          e.span.stop + byteLength m := by
        simp only [byteLength_append]
        omega
      rw [hmid] at hes ⊢
      obtain ⟨es₁, es₂, out₁, out₂, rfl, rfl, h₁, h₂, hP', hQ'⟩ :=
        ih (fun e' he' => hes e' (List.mem_cons_of_mem e he')) rfl
      refine ⟨e :: es₁, es₂, kept ++ (e.text ++ out₁), out₂,
        rfl, by simp, ?_, h₂, ?_, hQ'⟩
      · simpa using Rewrites.edit hstart hstop h₁
      · intro e' he'
        rcases List.mem_cons.1 he' with rfl | he'
        · exact hP
        · exact hP' e' he'
    · -- all edits lie in the second text
      have hall : ∀ e' ∈ e :: es, Q e' ∧ cursor + byteLength s ≤ e'.span.start := by
        intro e' he'
        rcases List.mem_cons.1 he' with rfl | he'
        · exact ⟨hQ, hle⟩
        · obtain ⟨hne, hclass⟩ := hes e' (List.mem_cons_of_mem e he')
          have := (hbounds e' he').1
          rcases hclass with ⟨-, hstop'⟩ | hclass
          · omega
          · exact hclass
      have hwhole := Rewrites.edit hstart hstop htail
      rw [← hsource] at hwhole
      obtain ⟨out', hout, h'⟩ := hwhole.of_behind fun e' he' => (hall e' he').2
      exact ⟨[], e :: es, s, out', rfl, hout, .rest _ _,
        h', by simp, fun e' he' => (hall e' he').1⟩

/-- Edits of three texts side by side with a text behind them that has none. -/
theorem split₃ {P Q R : Edit → Prop} {cursor : Nat} {s t u v out : List Char}
    {es : List Edit} (h : Rewrites cursor (s ++ (t ++ (u ++ v))) es out)
    (hne : ∀ e ∈ es, e.span.start < e.span.stop)
    (hes : ∀ e ∈ es, P e ∧ e.span.stop ≤ cursor + byteLength s ∨
      (Q e ∧ cursor + byteLength s ≤ e.span.start ∧
        e.span.stop ≤ cursor + byteLength s + byteLength t) ∨
      R e ∧ cursor + byteLength s + byteLength t ≤ e.span.start ∧
        e.span.stop ≤ cursor + byteLength s + byteLength t + byteLength u) :
    ∃ es₁ es₂ es₃ out₁ out₂ out₃, es = es₁ ++ (es₂ ++ es₃) ∧
      out = out₁ ++ (out₂ ++ (out₃ ++ v)) ∧
      Rewrites cursor s es₁ out₁ ∧ Rewrites (cursor + byteLength s) t es₂ out₂ ∧
      Rewrites (cursor + byteLength s + byteLength t) u es₃ out₃ ∧
      (∀ e ∈ es₁, P e) ∧ (∀ e ∈ es₂, Q e) ∧ ∀ e ∈ es₃, R e := by
  -- first the edits of the first text are told from those behind it, then those
  -- of the second
  let Behind (e : Edit) : Prop :=
    Q e ∧ e.span.stop ≤ cursor + byteLength s + byteLength t ∨
      R e ∧ cursor + byteLength s + byteLength t ≤ e.span.start ∧
        e.span.stop ≤ cursor + byteLength s + byteLength t + byteLength u
  have hfirst : ∀ e ∈ es, e.span.start < e.span.stop ∧
      (P e ∧ e.span.stop ≤ cursor + byteLength s ∨
        Behind e ∧ cursor + byteLength s ≤ e.span.start) := by
    intro e he
    refine ⟨hne e he, ?_⟩
    rcases hes e he with hP | ⟨hQ, hstart, hstop⟩ | ⟨hR, hstart, hstop⟩
    · exact .inl hP
    · exact .inr ⟨.inl ⟨hQ, hstop⟩, hstart⟩
    · exact .inr ⟨.inr ⟨hR, hstart, hstop⟩, by omega⟩
  obtain ⟨es₁, es', out₁, out', rfl, rfl, h₁, h', hP, hbehind⟩ := h.split hfirst
  have hne' : ∀ e ∈ es', e.span.start < e.span.stop := fun e he =>
    hne e (List.mem_append_right es₁ he)
  let Last (e : Edit) : Prop :=
    R e ∧ e.span.stop ≤ cursor + byteLength s + byteLength t + byteLength u
  have hsecond : ∀ e ∈ es', e.span.start < e.span.stop ∧
      (Q e ∧ e.span.stop ≤ cursor + byteLength s + byteLength t ∨
        Last e ∧ cursor + byteLength s + byteLength t ≤ e.span.start) := by
    intro e he
    refine ⟨hne' e he, ?_⟩
    rcases hbehind e he with hQ | ⟨hR, hstart, hstop⟩
    · exact .inl hQ
    · exact .inr ⟨⟨hR, hstop⟩, hstart⟩
  obtain ⟨es₂, es'', out₂, out'', rfl, rfl, h₂, h'', hQ, hlast⟩ := h'.split hsecond
  have hthird : ∀ e ∈ es'', e.span.start < e.span.stop ∧
      (R e ∧ e.span.stop ≤ cursor + byteLength s + byteLength t + byteLength u ∨
        False ∧ cursor + byteLength s + byteLength t + byteLength u ≤ e.span.start) :=
    fun e he => ⟨hne' e (List.mem_append_right es₂ he), .inl (hlast e he)⟩
  obtain ⟨es₃, es₄, out₃, out₄, rfl, rfl, h₃, h₄, hR, hnone⟩ := h''.split hthird
  obtain rfl : es₄ = [] := List.eq_nil_iff_forall_not_mem.2 hnone
  obtain rfl := h₄.eq_of_nil
  exact ⟨es₁, es₂, es₃, out₁, out₂,
    out₃, by rw [List.append_nil], rfl, h₁, h₂, h₃, hP, hQ, hR⟩

/-- An edit that covers all of a text leaves no room for another. -/
theorem whole {cursor : Nat} {s out : List Char} {es : List Edit}
    (h : Rewrites cursor s es out)
    (hes : ∀ e ∈ es, e.span.start < e.span.stop) {e : Edit} (he : e ∈ es)
    (hstart : e.span.start = cursor) (hstop : e.span.stop = cursor + byteLength s) :
    es = [e] ∧ out = e.text := by
  cases h with
  | rest => cases he
  | @edit _ kept cut after f es out hstart' hstop' htail =>
    have hf := hes f List.mem_cons_self
    rcases List.mem_cons.1 he with rfl | he
    · have hkept : kept = [] := byteLength_eq_zero.1 (by omega)
      have hafter : after = [] := by
        refine byteLength_eq_zero.1 ?_
        simp only [byteLength_append] at hstop
        omega
      subst hkept hafter
      rcases es with - | ⟨f, es⟩
      · exact ⟨rfl, by simp [htail.eq_of_nil]⟩
      · have hbounds := htail.stop_le f List.mem_cons_self
        have hne := hes f (List.mem_cons_of_mem e List.mem_cons_self)
        rw [byteLength_nil] at hbounds
        omega
    · have := (htail.stop_le e he).1
      omega

/-- The result is determined by the text and the edits. -/
theorem unique {cursor : Nat} {rest out out' : List Char} {es : List Edit}
    (h : Rewrites cursor rest es out) (h' : Rewrites cursor rest es out') :
    out = out' := by
  induction h generalizing out' with
  | rest cursor rest =>
    cases h'
    rfl
  | @edit cursor kept cut after e es out hstart hstop _ ih =>
    generalize hs : kept ++ (cut ++ after) = s at h'
    cases h' with
    | edit hstart' hstop' htail' =>
      obtain ⟨hkept, hs⟩ := append_inj_of_byteLength hs (by omega)
      obtain ⟨-, hafter⟩ := append_inj_of_byteLength hs (by omega)
      rw [hkept, ih (hafter ▸ htail')]

end Rewrites

/-! ### What splicing does -/

/-- The edits that splicing takes. -/
def takenFrom : Nat → List Char → List Edit → List Edit
  | _, _, [] => []
  | cursor, rest, edit :: edits =>
    if edit.span.start < cursor || edit.span.stop < edit.span.start then
      takenFrom cursor rest edits
    else
      match splitAt? (edit.span.start - cursor) rest with
      | none => takenFrom cursor rest edits
      | some (_, after) =>
        match splitAt? (edit.span.stop - edit.span.start) after with
        | none => takenFrom cursor rest edits
        | some (_, rest') => edit :: takenFrom edit.span.stop rest' edits

/-- Splicing rewrites a text by the edits it takes, in order, and counts the
others as skipped. -/
theorem spliceFrom_takenFrom (cursor : Nat) (rest : List Char) (edits : List Edit) :
    (takenFrom cursor rest edits).Sublist edits ∧
      (takenFrom cursor rest edits).length = (spliceFrom cursor rest edits).applied ∧
      (spliceFrom cursor rest edits).applied + (spliceFrom cursor rest edits).skipped =
        edits.length ∧
      Rewrites cursor rest (takenFrom cursor rest edits)
        (spliceFrom cursor rest edits).output := by
  fun_induction spliceFrom cursor rest edits with
  | case1 cursor rest => exact ⟨.refl _, rfl, rfl, .rest _ _⟩
  | case2 cursor rest edit edits hfits done ih =>
    obtain ⟨hsub, hlen, hall, h⟩ := ih
    rw [takenFrom, if_pos hfits]
    exact ⟨hsub.cons _, hlen, by simp [done, ← hall, Nat.add_assoc], h⟩
  | case3 cursor rest edit edits hfits hkept done ih =>
    obtain ⟨hsub, hlen, hall, h⟩ := ih
    rw [takenFrom, if_neg hfits, hkept]
    exact ⟨hsub.cons _, hlen, by simp [done, ← hall, Nat.add_assoc], h⟩
  | case4 cursor rest edit edits hfits kept after hkept hcut done ih =>
    obtain ⟨hsub, hlen, hall, h⟩ := ih
    simp only [takenFrom, if_neg hfits, hkept, hcut]
    exact ⟨hsub.cons _, hlen, by simp [done, ← hall, Nat.add_assoc], h⟩
  | case5 cursor rest edit edits hfits kept after hkept cut rest' hcut done ih =>
    obtain ⟨hsub, hlen, hall, h⟩ := ih
    simp only [takenFrom, if_neg hfits, hkept, hcut]
    obtain ⟨rfl, hkept⟩ := append_of_splitAt? hkept
    obtain ⟨rfl, hcut⟩ := append_of_splitAt? hcut
    simp only [Bool.or_eq_true, decide_eq_true_eq, not_or, Nat.not_lt] at hfits
    have hstart : edit.span.start = cursor + byteLength kept := by omega
    have hstop : edit.span.stop = edit.span.start + byteLength cut := by omega
    refine ⟨hsub.cons_cons _, by simp [hlen, done],
      ?_, by simpa using Rewrites.edit hstart hstop h⟩
    simp only [List.length_cons, ← hall, done]
    omega

/-- Splicing rewrites a text by some of the edits in order. -/
theorem spliceFrom_rewrites (cursor : Nat) (rest : List Char) (edits : List Edit) :
    ∃ accepted, accepted.Sublist edits ∧ accepted.length =
      (spliceFrom cursor rest edits).applied ∧
      Rewrites cursor rest accepted (spliceFrom cursor rest edits).output := by
  obtain ⟨hsub, hlen, -, h⟩ := spliceFrom_takenFrom cursor rest edits
  exact ⟨takenFrom cursor rest edits, hsub, hlen, h⟩

/-- The edits of a batch that are applied. -/
def taken (source : List Char) (edits : List Edit) : List Edit :=
  takenFrom 0 source (sortBy Edit.before edits)

/-- A batch rewrites the text by the edits it takes and counts the others as
skipped. -/
theorem splice_taken (source : List Char) (edits : List Edit) :
    (taken source edits).length = (splice source edits).applied ∧
      (splice source edits).applied + (splice source edits).skipped = edits.length ∧
      Rewrites 0 source (taken source edits) (splice source edits).output := by
  obtain ⟨-, hlen, hall, h⟩ := spliceFrom_takenFrom 0 source (sortBy Edit.before edits)
  exact ⟨hlen, hall.trans (sortBy_perm _ _).length_eq, h⟩

/-- A batch rewrites the text by some of its edits. -/
theorem splice_rewrites (source : List Char) (edits : List Edit) :
    ∃ accepted, accepted.length = (splice source edits).applied ∧
      (∀ e ∈ accepted, e ∈ edits) ∧
      Rewrites 0 source accepted (splice source edits).output := by
  obtain ⟨accepted, hsub, hlen, h⟩ :=
    spliceFrom_rewrites 0 source (sortBy Edit.before edits)
  exact ⟨accepted, hlen, fun e he => (sortBy_perm _ _).mem_iff.1 (hsub.subset he), h⟩

/-- An edit of the text that comes first is taken. -/
theorem spliceFrom_applied_pos {rest : List Char} {edit : Edit} {edits : List Edit}
    {cut : List Char} (h : slice? rest edit.span = some cut) :
    0 < (spliceFrom 0 rest (edit :: edits)).applied := by
  obtain ⟨before, after, rfl, hbefore, hstop⟩ := slice?_eq_some_iff.1 h
  have hlen : edit.span.stop - edit.span.start = byteLength cut := by omega
  have hle : ¬ edit.span.stop < edit.span.start := by omega
  have hkept : splitAt? edit.span.start (before ++ (cut ++ after)) =
      some (before, cut ++ after) := by
    rw [← hbefore, splitAt?_append]
  simp [spliceFrom, hle, hkept, hlen, splitAt?_append]

/-- A batch of edits of the text applies one at least. -/
theorem splice_applied_pos {source : List Char} {edits : List Edit} (hne : edits ≠ [])
    (h : ∀ e ∈ edits, ∃ cut, slice? source e.span = some cut) :
    0 < (splice source edits).applied := by
  have hperm := sortBy_perm Edit.before edits
  unfold splice
  rcases hs : sortBy Edit.before edits with - | ⟨e, es⟩
  · rw [hs] at hperm
    exact absurd hperm.nil_eq.symm hne
  · obtain ⟨cut, hcut⟩ := h e (hperm.mem_iff.1 (by rw [hs]; exact List.mem_cons_self))
    exact spliceFrom_applied_pos hcut

/-! ### Batches that fit -/

/-- Edits that rewrite the text are all taken. -/
theorem spliceFrom_of_rewrites {cursor : Nat} {rest out : List Char} {es : List Edit}
    (h : Rewrites cursor rest es out) :
    spliceFrom cursor rest es = ⟨out, es.length, 0⟩ := by
  induction h with
  | rest cursor rest => rfl
  | @edit cursor kept cut after e es out hstart hstop _ ih =>
    have hfits :
        (decide (e.span.start < cursor) ||
          decide (e.span.stop < e.span.start)) = false := by
      simp only [Bool.or_eq_false_iff, decide_eq_false_iff_not]
      omega
    have hkept : splitAt? (e.span.start - cursor) (kept ++ (cut ++ after)) =
        some (kept, cut ++ after) := by
      rw [hstart, Nat.add_sub_cancel_left, splitAt?_append]
    have hcut : splitAt? (e.span.stop - e.span.start) (cut ++ after) =
        some (cut, after) := by
      rw [hstop, Nat.add_sub_cancel_left, splitAt?_append]
    simp [spliceFrom, hfits, hkept, hcut, ih]

/-- Edits of slices that follow one another rewrite the text. -/
theorem exists_rewrites {source before rest : List Char} {es : List Edit}
    (hsource : source = before ++ rest)
    (hes : ∀ e ∈ es, byteLength before ≤ e.span.start ∧
      ∃ cut, slice? source e.span = some cut)
    (hordered : es.Pairwise fun e f => e.span.stop ≤ f.span.start) :
    ∃ out, Rewrites (byteLength before) rest es out := by
  induction hordered generalizing before rest with
  | nil => exact ⟨rest, .rest _ _⟩
  | @cons e es he _ ih =>
    obtain ⟨hle, cut, hcut⟩ := hes e List.mem_cons_self
    obtain ⟨front, after, hfront, hstart, hstop⟩ := slice?_eq_some_iff.1 hcut
    obtain ⟨kept, rfl, rfl⟩ :=
      exists_append_of_byteLength_le (hsource.symm.trans hfront) (by omega)
    have hwide : byteLength (before ++ kept ++ cut) = e.span.stop := by
      rw [byteLength_append, hstart, hstop]
    have hsource' : source = before ++ kept ++ cut ++ after := by simp [hfront]
    obtain ⟨out, hout⟩ := ih hsource' fun f hf =>
      ⟨by rw [hwide]; exact he f hf, (hes f (List.mem_cons_of_mem e hf)).2⟩
    rw [byteLength_append] at hstart
    exact ⟨kept ++ (e.text ++ out), .edit hstart.symm hstop (hwide ▸ hout)⟩

/-- Edits that rewrite the text in the order of their positions are applied, all
of them. -/
theorem splice_of_rewrites {source out : List Char} {es : List Edit}
    (h : Rewrites 0 source es out)
    (hes : es.Pairwise fun e f => e.before f = true) :
    splice source es = ⟨out, es.length, 0⟩ := by
  rw [splice, sortBy_of_sorted hes]
  exact spliceFrom_of_rewrites h

/-- Edits of slices that follow one another are in the order of their
positions. -/
theorem before_of_ordered {source : List Char} {es : List Edit}
    (hes : ∀ e ∈ es, ∃ cut, slice? source e.span = some cut)
    (hordered : es.Pairwise fun e f => e.span.stop ≤ f.span.start) :
    es.Pairwise fun e f => e.before f = true := by
  refine hordered.imp_of_mem fun {e f} he hf hef => ?_
  obtain ⟨_, he⟩ := hes e he
  obtain ⟨_, hf⟩ := hes f hf
  obtain ⟨_, _, _, _, hestop⟩ := slice?_eq_some_iff.1 he
  obtain ⟨_, _, _, _, hfstop⟩ := slice?_eq_some_iff.1 hf
  simp only [Edit.before, Bool.or_eq_true, Bool.and_eq_true, decide_eq_true_eq,
    beq_iff_eq]
  omega

/-- No edit of a batch is left out if they are edits of slices that follow one
another. -/
theorem splice_skipped_eq_zero {source : List Char} {es : List Edit}
    (hes : ∀ e ∈ es, ∃ cut, slice? source e.span = some cut)
    (hordered : es.Pairwise fun e f => e.span.stop ≤ f.span.start) :
    (splice source es).skipped = 0 := by
  have hsource : source = [] ++ source := rfl
  obtain ⟨out, hout⟩ :=
    exists_rewrites hsource (fun e he => ⟨Nat.zero_le _, hes e he⟩) hordered
  rw [splice_of_rewrites hout (before_of_ordered hes hordered)]

end AnimLint
