/-
AnimLint/Proofs/Silencing.lean

Which lines directives silence.  Directives that come in the order of their
lines are taken as they come (`sortBy_of_sorted`), and then a line is silenced
for one of two reasons: of the directives up to that line the last one that
opens or closes a stretch opens one, or a directive for the next line stands on
the line before (`covers_ofDirectives`).
-/
import AnimLint.Directive

namespace AnimLint

/-! ### Silenced lines -/

namespace Silence

/-- Holds if a stretch of silence is open after some directives; `on` says
whether one was before. -/
def inForce (on : Bool) : List Directive → Bool
  | [] => on
  | .disable :: ds => inForce true ds
  | .enable :: ds => inForce false ds
  | .disableNextLine :: ds => inForce on ds

theorem inForce_append (on : Bool) (a b : List Directive) :
    inForce on (a ++ b) = inForce (inForce on a) b := by
  induction a generalizing on with
  | nil => rfl
  | cons d a ih => cases d <;> exact ih _

/-- The directives that stand on a line or before it. -/
def upTo (line : Nat) (ds : List (Nat × Directive)) : List Directive :=
  (ds.filter (·.1 ≤ line)).map (·.2)

theorem upTo_of_lt {line : Nat} {ds : List (Nat × Directive)} (h : ∀ d ∈ ds, line < d.1) :
    upTo line ds = [] := by
  rw [upTo, List.filter_eq_nil_iff.2, List.map_nil]
  intro d hd
  have := h d hd
  simpa using this

theorem upTo_of_le {line : Nat} {ds : List (Nat × Directive)} (h : ∀ d ∈ ds, d.1 ≤ line) :
    upTo line ds = ds.map (·.2) := by
  rw [upTo, List.filter_eq_self.2]
  intro d hd
  simpa using h d hd

theorem upTo_append (line : Nat) (a b : List (Nat × Directive)) :
    upTo line (a ++ b) = upTo line a ++ upTo line b := by
  rw [upTo, List.filter_append, List.map_append]
  rfl

theorem upTo_cons (line : Nat) (d : Nat × Directive) (ds : List (Nat × Directive)) :
    upTo line (d :: ds) = (if d.1 ≤ line then [d.2] else []) ++ upTo line ds := by
  by_cases h : d.1 ≤ line <;> simp [upTo, h]

/-- A line lies in a stretch of silence if one is open after the directives up
to the line. -/
theorem ranges_readFrom (line : Nat) {since : Option Nat} {ds : List (Nat × Directive)}
    (hsorted : ds.Pairwise fun a b => a.1 ≤ b.1) (hpos : ∀ d ∈ ds, 0 < d.1)
    (hsince : ∀ first ∈ since, ∀ d ∈ ds, first ≤ d.1) :
    (readFrom since ds).ranges.any (·.has line) =
      inForce (since.any (· ≤ line)) (upTo line ds) := by
  induction ds generalizing since with
  | nil =>
    rcases since with - | first
    · rfl
    · simp [readFrom, LineRange.has, upTo, inForce]
  | cons d ds ih =>
    obtain ⟨hd, hrest⟩ := List.pairwise_cons.1 hsorted
    have hpos' : ∀ e ∈ ds, 0 < e.1 := fun e he => hpos e (List.mem_cons_of_mem d he)
    have hdpos := hpos d List.mem_cons_self
    have hsince' : ∀ first ∈ since, ∀ e ∈ ds, first ≤ e.1 :=
      fun first hfirst e he => hsince first hfirst e (List.mem_cons_of_mem d he)
    have hlater (h : ¬ d.1 ≤ line) : upTo line ds = [] :=
      upTo_of_lt fun e he => Nat.lt_of_lt_of_le (Nat.lt_of_not_le h) (hd e he)
    obtain ⟨first, directive⟩ := d
    cases directive with
    | disable =>
      rw [readFrom, ih hrest hpos', upTo_cons]
      · rcases since with - | old
        · by_cases h : first ≤ line
          · simp [h, inForce]
          · simp [h]
        · have hold := hsince old rfl _ List.mem_cons_self
          by_cases h : first ≤ line
          · have : old ≤ line := by omega
            simp [h, this, inForce]
          · simp [h]
      · rcases since with - | old
        · intro old hold e he
          obtain rfl : first = old := Option.some.inj hold
          exact hd e he
        · exact hsince'
    | enable =>
      rw [upTo_cons]
      rcases since with - | old
      · rw [readFrom, ih hrest hpos' hsince']
        by_cases h : first ≤ line
        · simp [h, inForce]
        · simp [h]
      · have hnone : (readFrom none ds).ranges.any (·.has line) =
            inForce false (upTo line ds) :=
          ih hrest hpos' (by rintro _ ⟨⟩)
        rw [readFrom]
        by_cases h : first ≤ line
        · have hover : ¬ line ≤ first - 1 := by
            have : 0 < first := hdpos
            omega
          simp only [List.any_cons, hnone]
          simp [h, LineRange.has, hover, inForce]
        · have hunder : line ≤ first - 1 := by omega
          simp only [List.any_cons, hnone, hlater h]
          simp [h, LineRange.has, hunder, inForce]
    | disableNextLine =>
      rw [readFrom, upTo_cons]
      simp only [ih hrest hpos' hsince']
      by_cases h : first ≤ line
      · simp [h, inForce]
      · simp [h]

/-- The lines named one by one are those after a directive for the next line. -/
theorem lines_readFrom (line : Nat) (since : Option Nat) (ds : List (Nat × Directive)) :
    (readFrom since ds).lines.contains line =
      ds.any fun d => d.2 == .disableNextLine && d.1 + 1 == line := by
  induction ds generalizing since with
  | nil => cases since <;> rfl
  | cons d ds ih =>
    obtain ⟨first, directive⟩ := d
    cases directive with
    | disable => exact ih _
    | enable => cases since <;> exact ih _
    | disableNextLine =>
      rw [readFrom, List.contains_cons, ih, List.any_cons, beq_self_eq_true,
        Bool.true_and]
      rw [Bool.beq_comm]

/-- The lines silenced by directives that come in the order of their lines. -/
theorem covers_ofDirectives (line : Nat) {ds : List (Nat × Directive)}
    (hsorted : ds.Pairwise fun a b => a.1 ≤ b.1) (hpos : ∀ d ∈ ds, 0 < d.1) :
    (ofDirectives ds).covers line =
      ((ds.any fun d => d.2 == .disableNextLine && d.1 + 1 == line) ||
        inForce false (upTo line ds)) := by
  have hsort : sortBy (fun a b => decide (a.1 ≤ b.1)) ds = ds :=
    sortBy_of_sorted (hsorted.imp fun h => by simpa using h)
  rw [covers, ofDirectives, hsort, lines_readFrom,
    ranges_readFrom line hsorted hpos (by rintro _ ⟨⟩)]
  rfl

end Silence

end AnimLint
