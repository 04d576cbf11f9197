/-
AnimLint/Proofs/Watch.lean

What directives mean at a place, told by what stands in front of it and not by
line numbers.  A text is cut into stretches, each with the directive it holds if
it is a comment, and a watch goes over them: it knows whether a stretch of
silence is open, how many lines ago the last directive for the next line stood,
up to two, and which directives on its own line open or close a stretch
(`Watch`).  A watch that has gone over a text keeps track of its directives
(`tracks_across`), and so it tells what the silence of a script says of a call
that holds no directive (`covers_of_tracks`).

After two line ends a directive for the next line is past, and what is left of
the watch does not change until the next directive (`across_calm`).  That is why
lines may be joined behind it.
-/
import AnimLint.Check
import AnimLint.Proofs.Lines
import AnimLint.Proofs.Silencing
import AnimLint.Proofs.Spacing

namespace AnimLint

open Text Gap Script Silence

/-! ### Stretches -/

/-- A stretch of a text with the directive it holds. -/
structure Stretch where
  directive? : Option Directive
  text : List Char

/-- The directive that trivia hold. -/
def directiveOf? (t : Trivia) : Option Directive :=
  if isComment t then Directive.parse? (Comment.content ⟨0, t⟩) else none

/-- The stretches of a row of trivia. -/
def rowStretches (row : List Trivia) : List Stretch :=
  row.map fun t => ⟨directiveOf? t, t.text⟩

/-- The stretches of a row of tokens. -/
def stretches : List Token → List Stretch
  | [] => []
  | t :: ts => rowStretches t.trivia ++ ⟨none, t.text⟩ :: stretches ts

/-- The stretches of a row of tokens without the trivia in front. -/
def solidStretches : List Token → List Stretch
  | [] => []
  | t :: ts => ⟨none, t.text⟩ :: stretches ts

/-- The text of some stretches. -/
def stretchesText (ss : List Stretch) : List Char := ss.flatMap Stretch.text

/-- The directives in some stretches. -/
def directives (ss : List Stretch) : List Directive := ss.filterMap Stretch.directive?

theorem stretches_append (a b : List Token) :
    stretches (a ++ b) = stretches a ++ stretches b := by
  induction a with
  | nil => rfl
  | cons t a ih => simp [stretches, ih]

theorem stretches_eq (ts : List Token) :
    stretches ts = rowStretches (leadOf ts) ++ solidStretches ts := by
  cases ts <;> rfl

@[simp] theorem stretchesText_nil : stretchesText [] = [] := rfl

@[simp] theorem stretchesText_cons (s : Stretch) (ss : List Stretch) :
    stretchesText (s :: ss) = s.text ++ stretchesText ss :=
  List.flatMap_cons

@[simp] theorem stretchesText_append (a b : List Stretch) :
    stretchesText (a ++ b) = stretchesText a ++ stretchesText b :=
  List.flatMap_append

theorem stretchesText_row (row : List Trivia) :
    stretchesText (rowStretches row) = triviaText row := by
  induction row with
  | nil => rfl
  | cons t row ih =>
    rw [triviaText, ← ih]
    rfl

theorem stretchesText_solid (ts : List Token) :
    stretchesText (solidStretches ts) = solidOf ts ∧
    stretchesText (stretches ts) = tokensSource ts := by
  induction ts with
  | nil => exact ⟨rfl, rfl⟩
  | cons t ts ih =>
    constructor
    · rw [solidStretches, stretchesText_cons, ih.2]
      rfl
    · rw [stretches, stretchesText_append, stretchesText_cons, ih.2, stretchesText_row,
        tokensSource_cons, Token.source, List.append_assoc]

theorem directives_cons (s : Stretch) (ss : List Stretch) :
    directives (s :: ss) = s.directive?.toList ++ directives ss := by
  rw [directives, List.filterMap_cons]
  cases s.directive? <;> rfl

theorem directives_append (a b : List Stretch) :
    directives (a ++ b) = directives a ++ directives b :=
  List.filterMap_append

/-- A directive stands in a comment, which starts with a slash. -/
def WellMarked (ss : List Stretch) : Prop :=
  ∀ s ∈ ss, s.directive? ≠ none → ∃ r, s.text = '/' :: r

theorem wellMarked_append {a b : List Stretch} :
    WellMarked (a ++ b) ↔ WellMarked a ∧ WellMarked b :=
  List.forall_mem_append

theorem wellMarked_row {row : List Trivia} (h : row.all Trivia.isPlain = true) :
    WellMarked (rowStretches row) := by
  intro s hs hdirective
  obtain ⟨t, ht, rfl⟩ := List.mem_map.1 hs
  have hplain := List.all_eq_true.1 h t ht
  have hcomment : isComment t = true := by
    refine Classical.byContradiction fun hnone => hdirective ?_
    exact if_neg hnone
  simp only [isComment, Bool.or_eq_true, beq_iff_eq] at hcomment
  unfold Trivia.isPlain at hplain
  split at hplain
  · next _ _ hkind => rw [hkind] at hcomment; simp at hcomment
  · next _ r _ htext => exact ⟨_, htext⟩
  · next _ r _ htext => exact ⟨_, htext⟩
  · next _ _ hkind => rw [hkind] at hcomment; simp at hcomment
  · cases hplain

theorem wellMarked_stretches {ts : List Token} (h : ∀ t ∈ ts, t.isPlain = true) :
    WellMarked (stretches ts) := by
  induction ts with
  | nil =>
    intro s hs
    cases hs
  | cons t ts ih =>
    rw [stretches, wellMarked_append]
    refine ⟨wellMarked_row (h t List.mem_cons_self), fun s hs hdirective => ?_⟩
    rcases List.mem_cons.1 hs with rfl | hs
    · exact absurd rfl hdirective
    · exact ih (fun u hu => h u (List.mem_cons_of_mem t hu)) s hs hdirective

/-! ### Where directives stand -/

/-- The directives in some stretches, each with the text in front of it. -/
def marks (before : List Char) : List Stretch → List (List Char × Directive)
  | [] => []
  | s :: ss => (s.directive?.map fun d => (before, d)).toList ++
    marks (before ++ s.text) ss

theorem marks_append (before : List Char) (a b : List Stretch) :
    marks before (a ++ b) = marks before a ++ marks (before ++ stretchesText a) b := by
  induction a generalizing before with
  | nil => simp [marks]
  | cons s a ih => simp [marks, ih]

theorem map_marks (before : List Char) (ss : List Stretch) :
    (marks before ss).map (·.2) = directives ss := by
  induction ss generalizing before with
  | nil => rfl
  | cons s ss ih =>
    rw [marks, List.map_append, ih, directives_cons]
    cases s.directive? <;> rfl

theorem marks_of_directives_nil {ss : List Stretch} (h : directives ss = [])
    (before : List Char) :
    marks before ss = [] := by
  rw [← List.map_eq_nil_iff (f := (·.2)), map_marks, h]

/-- A directive stands behind the text in front of all stretches, and a slash
follows. -/
theorem exists_of_mem_marks {before : List Char} {ss : List Stretch}
    (hwell : WellMarked ss)
    {m : List Char × Directive} (h : m ∈ marks before ss) :
    ∃ inner r, m.1 = before ++ inner ∧ stretchesText ss = inner ++ '/' :: r := by
  induction ss generalizing before with
  | nil => cases h
  | cons s ss ih =>
    rcases List.mem_append.1 h with h | h
    · rw [Option.mem_toList] at h
      obtain ⟨d, hd, rfl⟩ := Option.map_eq_some_iff.1 h
      obtain ⟨r, hr⟩ :=
        hwell s List.mem_cons_self (by rw [hd]; exact Option.some_ne_none d)
      exact ⟨[], r ++ stretchesText ss, by simp, by rw [stretchesText_cons, hr]; rfl⟩
    · obtain ⟨inner, r, hm, hinner⟩ :=
        ih (fun u hu => hwell u (List.mem_cons_of_mem s hu)) h
      exact ⟨s.text ++ inner, r, by rw [hm, List.append_assoc], by
        rw [stretchesText_cons, hinner, List.append_assoc]⟩

/-- The line of a text that stands in front of a directive, with the
directive. -/
def lined (m : List Char × Directive) : Nat × Directive := (1 + lineEnds false m.1, m.2)

theorem lineEnds_le_append (a b : List Char) :
    lineEnds false a ≤ lineEnds false (a ++ b) := by
  rw [lineEnds_append]
  exact Nat.le_add_right _ _

theorem sorted_marks {ss : List Stretch} (hwell : WellMarked ss) (before : List Char) :
    ((marks before ss).map lined).Pairwise fun a b => a.1 ≤ b.1 := by
  induction ss generalizing before with
  | nil => exact .nil
  | cons s ss ih =>
    have hwell' : WellMarked ss := fun u hu => hwell u (List.mem_cons_of_mem s hu)
    rw [marks, List.map_append, List.pairwise_append]
    refine ⟨?_, ih hwell' _, ?_⟩
    · cases s.directive? with
      | none => exact .nil
      | some d => exact List.pairwise_singleton _ _
    · intro a ha b hb
      obtain ⟨m, hm, rfl⟩ := List.mem_map.1 ha
      obtain ⟨m', hm', rfl⟩ := List.mem_map.1 hb
      obtain ⟨inner, r, hinner, -⟩ := exists_of_mem_marks hwell' hm'
      rw [Option.mem_toList] at hm
      obtain ⟨d, -, rfl⟩ := Option.map_eq_some_iff.1 hm
      show 1 + lineEnds false before ≤ 1 + lineEnds false m'.1
      rw [hinner, List.append_assoc]
      exact Nat.add_le_add_left (lineEnds_le_append _ _) 1

/-! ### The directives of a script -/

/-- The directive of a comment with the place of the comment. -/
def placed? (c : Comment) : Option (Nat × Directive) :=
  (Directive.parse? c.content).map fun d => (c.start, d)

/-- The place of a directive in a text, with the directive. -/
def placed (m : List Char × Directive) : Nat × Directive := (byteLength m.1, m.2)

theorem placed_ofTrivia (before : List Char) (row : List Trivia) :
    (Comment.ofTrivia (byteLength before) row).filterMap placed? =
      (marks before (rowStretches row)).map placed := by
  induction row generalizing before with
  | nil => rfl
  | cons t row ih =>
    have hrest := ih (before ++ t.text)
    rw [byteLength_append] at hrest
    have hmarks : marks before (rowStretches (t :: row)) =
        ((directiveOf? t).map fun d => (before, d)).toList ++
          marks (before ++ t.text) (rowStretches row) := rfl
    rw [hmarks, List.map_append, ← hrest, Comment.ofTrivia, directiveOf?, isComment]
    obtain ⟨kind, text⟩ := t
    have hcontent (start start' : Nat) (t : Trivia) :
        Comment.content ⟨start, t⟩ = Comment.content ⟨start', t⟩ := rfl
    cases kind with
    | blank => rfl
    | interpreter => rfl
    | lineComment =>
      rw [List.filterMap_cons, placed?, hcontent _ 0]
      rcases Directive.parse? (Comment.content ⟨0, ⟨.lineComment, text⟩⟩)
          with - | d <;> rfl
    | blockComment =>
      rw [List.filterMap_cons, placed?, hcontent _ 0]
      rcases Directive.parse? (Comment.content ⟨0, ⟨.blockComment, text⟩⟩)
          with - | d <;> rfl

theorem placed_ofTokens (before : List Char) (ts : List Token) :
    (Comment.ofTokens (byteLength before) ts).filterMap placed? =
      (marks before (stretches ts)).map placed := by
  induction ts generalizing before with
  | nil => rfl
  | cons t ts ih =>
    have hsource : before ++ stretchesText (rowStretches t.trivia) ++ t.text =
        before ++ t.source := by
      rw [stretchesText_row, List.append_assoc]
      rfl
    have hrest := ih (before ++ t.source)
    have hwidth : byteLength (before ++ t.source) = byteLength before + t.width := by
      rw [byteLength_append, Token.source, byteLength_append]
      rfl
    rw [hwidth] at hrest
    rw [Comment.ofTokens, List.filterMap_append, placed_ofTrivia, hrest, stretches,
      marks_append, List.map_append, marks, hsource]
    rfl

/-- The comments of a script that are directives, with their places. -/
theorem placed_comments (tree : Tree) :
    tree.comments.filterMap placed? = (marks [] (stretches tree.tokens)).map placed :=
  placed_ofTokens [] tree.tokens

/-- A directive of a script stands on the line after the line ends in front of
it. -/
theorem lineAt_of_mem_marks {tree : Tree} (h : tree.isSound = true)
    {m : List Char × Directive} (hm : m ∈ marks [] (stretches tree.tokens)) :
    lineAt tree.source (byteLength m.1) = 1 + lineEnds false m.1 := by
  obtain ⟨inner, r, hinner, htext⟩ :=
    exists_of_mem_marks (wellMarked_stretches (tree.isPlain_tokens h)) hm
  rw [(stretchesText_solid _).2, tree.tokensSource_tokens] at htext
  rw [htext, hinner, List.nil_append, lineAt_append]
  rintro - ⟨⟩

/-- The directives of a script with their lines. -/
theorem directivesOf_eq {tree : Tree} (h : tree.isSound = true) :
    directivesOf tree.source tree.comments =
      (marks [] (stretches tree.tokens)).map lined := by
  have hplaced : directivesOf tree.source tree.comments =
      (tree.comments.filterMap placed?).map fun p => (lineAt tree.source p.1, p.2) := by
    rw [directivesOf, List.map_filterMap]
    congr 1
    funext c
    rw [placed?, Option.map_map]
    rfl
  rw [hplaced, placed_comments, List.map_map]
  refine List.map_congr_left fun m hm => ?_
  show (lineAt tree.source (byteLength m.1), m.2) = lined m
  rw [lineAt_of_mem_marks h hm]
  rfl

/-! ### The watch -/

/-- What is known of the directives in front of a place. -/
structure Watch where
  /-- A stretch of silence is open. -/
  on : Bool
  /-- The line ends since the last directive for the next line, two if there are
  more or there is no such directive. -/
  ends : Nat
  /-- A carriage return stands in front; not asked after two line ends. -/
  cr : Bool
  /-- The directives on this line that open or close a stretch. -/
  here : List Directive
  /-- The last line with such directives holds both kinds. -/
  mixed : Bool
deriving DecidableEq, Repr

namespace Watch

/-- The watch at the start of a text, and wherever nothing is silenced. -/
def calm : Watch := ⟨false, 2, false, [], false⟩

/-- What is left on a line of what stands on it, behind a text. -/
def keep (here : List Directive) (s : List Char) : List Directive :=
  if s.any isLineBreak then [] else here

/-- Goes over a text without a directive. -/
def read (w : Watch) (s : List Char) : Watch :=
  if 2 ≤ w.ends + lineEnds w.cr s then ⟨w.on, 2, false, keep w.here s, w.mixed⟩
  else ⟨w.on, w.ends + lineEnds w.cr s, endsInReturn w.cr s, keep w.here s, w.mixed⟩

/-- Takes note of a directive. -/
def hear (w : Watch) : Option Directive → Watch
  | none => w
  | some .disable =>
    { w with on := true, here := .disable :: w.here, mixed := w.here.contains .enable }
  | some .enable =>
    { w with on := false, here := .enable :: w.here, mixed := w.here.contains .disable }
  | some .disableNextLine => { w with ends := 0, cr := false }

/-- Goes over a stretch. -/
def step (w : Watch) (s : Stretch) : Watch := (w.hear s.directive?).read s.text

/-- Goes over some stretches. -/
def across (w : Watch) (ss : List Stretch) : Watch := ss.foldl step w

theorem across_append (w : Watch) (a b : List Stretch) :
    w.across (a ++ b) = (w.across a).across b :=
  List.foldl_append

/-- Holds where a call that starts here has its zones silenced. -/
def silences (w : Watch) : Bool := w.on || w.ends == 1

/-- Where nothing is silenced, nothing is until the next directive. -/
theorem across_calm {ss : List Stretch} (h : directives ss = []) :
    calm.across ss = calm := by
  induction ss with
  | nil => rfl
  | cons s ss ih =>
    rw [directives_cons, List.append_eq_nil_iff, Option.toList_eq_nil_iff] at h
    have hstep : calm.step s = calm := by
      have hkeep : keep [] s.text = [] := by
        rw [keep]
        split <;> rfl
      rw [step, h.1]
      show (if 2 ≤ 2 + lineEnds false s.text then
          ⟨false, 2, false, keep [] s.text, false⟩ else _) = calm
      rw [if_pos (Nat.le_add_right _ _), hkeep]
      rfl
    show (calm.step s).across ss = calm
    rw [hstep, ih h.2]

/-- A watch that knows of the directives of some stretches. -/
structure Tracks (w : Watch) (ss : List Stretch) : Prop where
  on : w.on = inForce false (directives ss)
  ends_le : w.ends ≤ 2
  past : ∀ m ∈ marks [] ss, m.2 = .disableNextLine →
    lineEnds false m.1 + w.ends ≤ lineEnds false (stretchesText ss)
  near : w.ends < 2 → ∃ m ∈ marks [] ss, m.2 = .disableNextLine ∧
    lineEnds false m.1 + w.ends = lineEnds false (stretchesText ss)
  cr : w.ends < 2 → w.cr = endsInReturn false (stretchesText ss)
  cr_calm : w.ends = 2 → w.cr = false

theorem tracks_nil : Tracks calm [] where
  on := rfl
  ends_le := Nat.le_refl 2
  past := by
    intro m hm
    cases hm
  near h := absurd h (Nat.lt_irrefl 2)
  cr h := absurd h (Nat.lt_irrefl 2)
  cr_calm _ := rfl

theorem mem_marks_concat {ss : List Stretch} {s : Stretch} {m : List Char × Directive} :
    m ∈ marks [] (ss ++ [s]) ↔
      m ∈ marks [] ss ∨ ∃ d, s.directive? = some d ∧ m = (stretchesText ss, d) := by
  rw [marks_append, List.mem_append, marks, marks, List.append_nil, Option.mem_toList,
    Option.map_eq_some_iff, List.nil_append]
  simp only [eq_comm]

theorem lineEnds_concat (ss : List Stretch) (s : Stretch) :
    lineEnds false (stretchesText (ss ++ [s])) = lineEnds false (stretchesText ss) +
      lineEnds (endsInReturn false (stretchesText ss)) s.text := by
  rw [stretchesText_append, lineEnds_append, stretchesText_cons, stretchesText_nil,
    List.append_nil]

theorem endsInReturn_concat (ss : List Stretch) (s : Stretch) :
    endsInReturn false (stretchesText (ss ++ [s])) =
      endsInReturn (endsInReturn false (stretchesText ss)) s.text := by
  rw [stretchesText_append, endsInReturn_append, stretchesText_cons, stretchesText_nil,
    List.append_nil]

/-- A stretch without a directive for the next line keeps the lines counted. -/
theorem tracks_read {w v : Watch} {ss : List Stretch} (h : Tracks w ss) {s : Stretch}
    (hsame : v.ends = w.ends ∧ v.cr = w.cr)
    (hon : v.on = inForce false (directives (ss ++ [s])))
    (hnext : s.directive? ≠ some .disableNextLine) :
    Tracks (v.read s.text) (ss ++ [s]) := by
  have hold : ∀ m ∈ marks [] (ss ++ [s]), m.2 = .disableNextLine → m ∈ marks [] ss := by
    intro m hm hdirective
    rcases mem_marks_concat.1 hm with hm | ⟨d, hd, rfl⟩
    · exact hm
    · rw [show d = .disableNextLine from hdirective] at hd
      exact absurd hd hnext
  have hends := lineEnds_concat ss s
  have hle := h.ends_le
  unfold Watch.read
  rw [hsame.1, hsame.2]
  split
  · next htwo =>
    refine ⟨hon, Nat.le_refl 2,
      fun m hm hdirective => ?_, fun hlt => absurd hlt (Nat.lt_irrefl 2),
      fun hlt => absurd hlt (Nat.lt_irrefl 2), fun _ => rfl⟩
    have hpast := h.past m (hold m hm hdirective) hdirective
    show lineEnds false m.1 + 2 ≤ _
    rcases Nat.lt_or_eq_of_le hle with hlt | heq
    · rw [h.cr hlt] at htwo
      omega
    · omega
  · next htwo =>
    have hlt : w.ends < 2 := by omega
    have hcr := h.cr hlt
    rw [hcr] at htwo ⊢
    refine ⟨hon, by simp only; omega,
      fun m hm hdirective => ?_, fun _ => ?_, fun _ => ?_, fun heq => ?_⟩
    · have := h.past m (hold m hm hdirective) hdirective
      simp only
      omega
    · obtain ⟨m, hm, hdirective, hnear⟩ := h.near hlt
      refine ⟨m, mem_marks_concat.2 (.inl hm), hdirective, ?_⟩
      simp only
      omega
    · exact (endsInReturn_concat ss s).symm
    · simp only at heq
      omega

/-- A directive for the next line starts the count. -/
theorem tracks_next {w : Watch} {ss : List Stretch} (h : Tracks w ss) {s : Stretch}
    (hnext : s.directive? = some .disableNextLine) (hs : ∃ r, s.text = '/' :: r) :
    Tracks (Watch.read { w with ends := 0, cr := false } s.text) (ss ++ [s]) := by
  obtain ⟨r, hr⟩ := hs
  have hon : w.on = inForce false (directives (ss ++ [s])) := by
    rw [directives_append, inForce_append, directives_cons, hnext, h.on]
    rfl
  have hends := lineEnds_concat ss s
  rw [hr, lineEnds_of_head (by decide), ← hr] at hends
  have hreturn := endsInReturn_concat ss s
  have hcr : endsInReturn (endsInReturn false (stretchesText ss)) s.text =
      endsInReturn false s.text := by
    rw [hr]
    rfl
  rw [hcr] at hreturn
  have hle (m) (hm : m ∈ marks [] (ss ++ [s])) (hdirective : m.2 = .disableNextLine) :
      lineEnds false m.1 ≤ lineEnds false (stretchesText ss) := by
    rcases mem_marks_concat.1 hm with hm | ⟨d, -, rfl⟩
    · have := h.past m hm hdirective
      omega
    · exact Nat.le_refl _
  unfold Watch.read
  simp only [Nat.zero_add]
  split
  · refine ⟨hon, Nat.le_refl 2,
      fun m hm hdirective => ?_, fun hlt => absurd hlt (Nat.lt_irrefl 2),
      fun hlt => absurd hlt (Nat.lt_irrefl 2), fun _ => rfl⟩
    have := hle m hm hdirective
    show lineEnds false m.1 + 2 ≤ _
    omega
  · next htwo =>
    refine ⟨hon, by simp only; omega,
      fun m hm hdirective => ?_, fun _ => ?_, fun _ => hreturn.symm,
      fun heq => absurd heq (by simp only; omega)⟩
    · have := hle m hm hdirective
      simp only
      omega
    · exact ⟨_, mem_marks_concat.2 (.inr ⟨_, hnext, rfl⟩), rfl, hends.symm⟩

/-- A watch that has gone over one more stretch knows of its directive. -/
theorem tracks_step {w : Watch} {ss : List Stretch} (h : Tracks w ss) {s : Stretch}
    (hs : s.directive? ≠ none → ∃ r, s.text = '/' :: r) :
    Tracks (w.step s) (ss ++ [s]) := by
  have hon : inForce false (directives (ss ++ [s])) =
      inForce w.on s.directive?.toList := by
    rw [directives_append, inForce_append, ← h.on, directives_cons]
    exact congrArg (inForce w.on) (List.append_nil _)
  rw [step]
  rcases hd : s.directive? with - | d
  · rw [hd] at hon
    exact tracks_read h ⟨rfl, rfl⟩ hon.symm (by rw [hd]; rintro ⟨⟩)
  · rw [hd] at hon
    cases d with
    | disable => exact tracks_read h ⟨rfl, rfl⟩ hon.symm (by rw [hd]; rintro ⟨⟩)
    | enable => exact tracks_read h ⟨rfl, rfl⟩ hon.symm (by rw [hd]; rintro ⟨⟩)
    | disableNextLine => exact tracks_next h hd (hs (by rw [hd]; rintro ⟨⟩))

theorem tracks_append {w : Watch} {ss rest : List Stretch} (h : Tracks w ss)
    (hrest : WellMarked rest) : Tracks (w.across rest) (ss ++ rest) := by
  induction rest generalizing w ss with
  | nil => rwa [List.append_nil]
  | cons s rest ih =>
    have hstep := tracks_step h (hrest s List.mem_cons_self)
    have := ih hstep fun u hu => hrest u (List.mem_cons_of_mem s hu)
    rwa [List.append_assoc] at this

/-- A watch that has gone over a text knows of its directives. -/
theorem tracks_across {ss : List Stretch} (h : WellMarked ss) :
    Tracks (calm.across ss) ss :=
  tracks_append tracks_nil h

/-- The watch is at zero where a directive for the next line stands on the line
of the place. -/
theorem Tracks.ends_ne_zero {w : Watch} {ss : List Stretch} (h : Tracks w ss)
    (hnext : ∀ m ∈ marks [] ss, m.2 = .disableNextLine →
      lineEnds false m.1 < lineEnds false (stretchesText ss)) : w.ends ≠ 0 := by
  intro hzero
  obtain ⟨m, hm, hdirective, hnear⟩ := h.near (by omega)
  have := hnext m hm hdirective
  omega

/-- The directives around a call that holds none: those in front of it stand on
its first line or above, and those behind it on its last line or below. -/
theorem marks_around {before inner after : List Stretch}
    (hwell : WellMarked (before ++ (inner ++ after))) (hquiet : directives inner = []) :
    ∃ above below, (marks [] (before ++ (inner ++ after))).map lined = above ++ below ∧
      above = (marks [] before).map lined ∧
      (∀ d ∈ above, d.1 ≤ 1 + lineEnds false (stretchesText before)) ∧
      ∀ d ∈ below, 1 + lineEnds false (stretchesText (before ++ inner)) ≤ d.1 := by
  obtain ⟨hbefore, hafter⟩ := wellMarked_append.1 hwell
  refine ⟨_, (marks (stretchesText (before ++ inner)) after).map lined, ?_, rfl, ?_, ?_⟩
  · rw [marks_append, marks_append, marks_of_directives_nil hquiet, List.nil_append,
      List.nil_append, stretchesText_append, List.map_append]
  · intro d hd
    obtain ⟨m, hm, rfl⟩ := List.mem_map.1 hd
    obtain ⟨p, r, hp, htext⟩ := exists_of_mem_marks hbefore hm
    rw [htext, lined, hp, List.nil_append]
    exact Nat.add_le_add_left (lineEnds_le_append _ _) 1
  · intro d hd
    obtain ⟨m, hm, rfl⟩ := List.mem_map.1 hd
    obtain ⟨p, r, hp, -⟩ := exists_of_mem_marks (wellMarked_append.1 hafter).2 hm
    rw [lined, hp]
    exact Nat.add_le_add_left (lineEnds_le_append _ _) 1

/-- What the silence of a script says of a line on which a call stands that
holds no directive, from the line it starts on to the one before it ends. -/
theorem covers_of_tracks {before inner after : List Stretch}
    (hwell : WellMarked (before ++ (inner ++ after))) (hquiet : directives inner = [])
    (hends : (calm.across before).ends ≠ 0) {line : Nat}
    (hfirst : 1 + lineEnds false (stretchesText before) ≤ line)
    (hlast : line < 1 + lineEnds false (stretchesText (before ++ inner))) :
    (ofDirectives ((marks [] (before ++ (inner ++ after))).map lined)).covers line =
      ((calm.across before).on || ((calm.across before).ends == 1 &&
        line == 1 + lineEnds false (stretchesText before))) := by
  have htracks := tracks_across (wellMarked_append.1 hwell).1
  obtain ⟨above, below, hsplit, habove, hle, hlt⟩ := marks_around hwell hquiet
  have habove' : ∀ d ∈ above, d.1 ≤ line := fun d hd => Nat.le_trans (hle d hd) hfirst
  have hbelow : ∀ d ∈ below, line < d.1 := fun d hd => Nat.lt_of_lt_of_le hlast (hlt d hd)
  have hnext :
      ((above ++ below).any fun d => d.2 == .disableNextLine && d.1 + 1 == line) =
      ((calm.across before).ends == 1 &&
        line == 1 + lineEnds false (stretchesText before)) := by
    rw [Bool.eq_iff_iff]
    simp only [List.any_eq_true, Bool.and_eq_true, beq_iff_eq]
    constructor
    · rintro ⟨d, hd, hdirective, hline⟩
      rcases List.mem_append.1 hd with hd | hd
      · rw [habove] at hd
        obtain ⟨m, hm, rfl⟩ := List.mem_map.1 hd
        have := htracks.past m hm hdirective
        simp only [lined] at hline
        omega
      · have := hbelow d hd
        omega
    · rintro ⟨hone, hline⟩
      obtain ⟨m, hm, hdirective, hnear⟩ := htracks.near (by omega)
      refine ⟨lined m, List.mem_append_left _ (habove ▸ List.mem_map_of_mem hm),
        hdirective, ?_⟩
      simp only [lined]
      omega
  rw [covers_ofDirectives line (sorted_marks hwell []), hsplit, hnext, upTo_append,
    upTo_of_le habove', upTo_of_lt hbelow, List.append_nil, habove, htracks.on,
    Bool.or_comm,
    ← map_marks [], List.map_map]
  · rfl
  · intro d hd
    obtain ⟨m, -, rfl⟩ := List.mem_map.1 hd
    exact Nat.lt_of_lt_of_le Nat.zero_lt_one (Nat.le_add_right 1 _)

end Watch

end AnimLint
