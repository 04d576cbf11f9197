/-
AnimLint/Proofs/PlainData.lean

A text that can be read as settings is no script with anything to report.  Every
reader of data is taken through in turn: if the text that it leaves is calm, the
text that it was given is calm (`IsCalm`, `Passes`), since between strings it
lets pass only blanks, words, numbers and brackets, and a string of data is a
string of a script (`closes_of_stringFrom`).  So settings are calm as a whole,
and a calm text has no calls (`findings_of_calm`).

Main statement: `findings_of_settings`.
-/
import AnimLint.Check
import AnimLint.Proofs.Pass
import AnimLint.Settings

namespace AnimLint

open Script

namespace Json

/-! ### Calm readers -/

variable {α β σ ε : Type}

/-- Holds of readers that let nothing pass but what may stand in a calm text. -/
def IsCalm (reader : Reader α) : Prop :=
  ∀ s a rest, reader s = .ok (a, rest) → Calm rest → Calm s

/-- The same of readers that give no value. -/
def Passes (skip : List Char → Except Fault (List Char)) : Prop :=
  ∀ s rest, skip s = .ok rest → Calm rest → Calm s

/-- A step that has come through is a step before it and the rest of it. -/
theorem of_bind {m : Except ε α} {k : α → Except ε β} {b : β} (h : m >>= k = .ok b) :
    ∃ a, m = .ok a ∧ k a = .ok b := by
  cases m with
  | error e => cases h
  | ok a => exact ⟨a, rfl, h⟩

theorem of_map {m : Except ε α} {f : α → β} {b : β} (h : m.map f = .ok b) :
    ∃ a, m = .ok a ∧ f a = b := by
  cases m with
  | error e => cases h
  | ok a => exact ⟨a, rfl, Except.ok.inj h⟩

theorem calm_append {front rest : List Char} (hfront : front.all isQuiet = true)
    (h : Calm rest) :
    Calm (front ++ rest) := by
  induction front with
  | nil => exact h
  | cons c front ih =>
    rw [List.all_cons, Bool.and_eq_true] at hfront
    exact .quiet hfront.1 (ih hfront.2)

theorem calm_of_dropWhile {p : Char → Bool} {s : List Char}
    (hp : ∀ c, p c = true → isQuiet c = true)
    (h : Calm (s.dropWhile p)) : Calm s := by
  rw [← List.takeWhile_append_dropWhile (p := p) (l := s)]
  refine calm_append (List.all_eq_true.2 fun c hc => hp c ?_) h
  exact List.all_eq_true.1 List.all_takeWhile c hc

theorem isQuiet_of_isBlank (c : Char) (h : isBlank c = true) : isQuiet c = true := by
  simp only [isBlank, Bool.or_eq_true, beq_iff_eq] at h
  obtain ((rfl | rfl) | rfl) | rfl := h <;> decide

theorem isQuiet_of_isDigit (c : Char) (h : c.isDigit = true) : isQuiet c = true := by
  simp [isQuiet, Char.isAlphanum, h]

theorem calm_of_skipBlanks {s : List Char} (h : Calm (skipBlanks s)) : Calm s :=
  calm_of_dropWhile isQuiet_of_isBlank h

theorem calm_of_readWord {word s rest : List Char} (hword : word.all isQuiet = true)
    (h : readWord word s = .ok rest) (hrest : Calm rest) : Calm s := by
  induction word generalizing s with
  | nil =>
    obtain rfl := Except.ok.inj h
    exact hrest
  | cons c word ih =>
    rw [List.all_cons, Bool.and_eq_true] at hword
    cases s with
    | nil => cases h
    | cons d s =>
      rw [readWord] at h
      split at h
      · next hsame =>
        rw [beq_iff_eq] at hsame
        subst hsame
        exact .quiet hword.1 (ih hword.2 h)
      · cases h

/-! ### Strings -/

/-- Holds of pieces that may stand inside a string of a script, whatever follows
them there. -/
def Inside (piece : List Char) : Prop :=
  ∀ inner, stringLength? '"' inner = some inner.length →
    stringLength? '"' (piece ++ inner) = some (piece ++ inner).length

theorem Inside.append {a b : List Char} (ha : Inside a) (hb : Inside b) :
    Inside (a ++ b) := by
  intro inner h
  rw [List.append_assoc]
  exact ha _ (hb _ h)

theorem Inside.plain {c : Char} (hescape : c ≠ '\\') (hquote : c ≠ '"') (hfeed : c ≠ '\n')
    (hreturn : c ≠ '\r') : Inside [c] := by
  intro inner h
  simp [stringLength?_cons _ hescape, hquote, hfeed, hreturn, h]

theorem Inside.escape {c : Char} (hreturn : c ≠ '\r') : Inside ['\\', c] := by
  intro inner h
  rw [List.cons_append, List.cons_append, List.nil_append, stringLength?, h]
  · rfl
  · exact fun _ hc => absurd hc hreturn

theorem Inside.of_hexValue {c : Char} {n : Nat} (h : hexValue? c = some n) :
    Inside [c] := by
  refine .plain ?_ ?_ ?_ ?_ <;>
    · rintro rfl
      cases h

theorem Inside.of_mapM_hexValue {digits : List Char} {values : List Nat}
    (h : digits.mapM hexValue? = some values) : Inside digits := by
  induction digits generalizing values with
  | nil => exact fun _ h => h
  | cons c digits ih =>
    rw [List.mapM_cons] at h
    obtain ⟨value, hvalue, hrest⟩ := Option.bind_eq_some_iff.1 h
    obtain ⟨values', hvalues, -⟩ := Option.bind_eq_some_iff.1 hrest
    exact (Inside.of_hexValue hvalue).append (ih hvalues)

theorem Inside.of_hexFour {s : List Char} {n : Nat} (h : hexFour s = .ok n) :
    Inside (s.take 4) := by
  unfold hexFour at h
  split at h
  · next hdigits => exact .of_mapM_hexValue hdigits
  · split at h <;> cases h

theorem Inside.of_simpleEscape {c : Char} (h : (simpleEscape? c).isSome = true) :
    Inside ['\\', c] := by
  refine .escape ?_
  rintro rfl
  cases h

theorem Inside.of_unicode {s : List Char} {n : Nat} (h : hexFour s = .ok n) :
    Inside ('\\' :: 'u' :: s.take 4) :=
  (Inside.escape (by decide)).append (.of_hexFour h)

theorem Inside.of_unicodeEscape {s : List Char} {d : Char} {n : Nat}
    (h : unicodeEscape s = .ok (d, n)) : Inside ('\\' :: ('u' :: s).take n) := by
  unfold unicodeEscape at h
  split at h
  · cases h
  · next first hfirst =>
    simp only at h
    split at h
    · cases h
    · split at h
      · obtain ⟨-, rfl⟩ := Prod.mk.inj (Except.ok.inj h)
        exact .of_unicode hfirst
      · split at h
        · cases h
        · next c more hmore =>
          split at h
          · cases h
          · next hslash =>
            split at h
            · cases h
            · next mark code =>
              split at h
              · cases h
              · next hmark =>
                split at h
                · cases h
                · next second hsecond =>
                  split at h
                  · cases h
                  · obtain ⟨-, rfl⟩ := Prod.mk.inj (Except.ok.inj h)
                    obtain rfl : c = '\\' := by simpa using hslash
                    obtain rfl : mark = 'u' := by simpa using hmark
                    -- a pair of halves: the second starts six characters behind
                    -- the first
                    have htake : ('u' :: s).take 11 =
                        'u' :: (s.take 4 ++ '\\' :: 'u' :: code.take 4) := by
                      show 'u' :: s.take (4 + 6) = _
                      rw [List.take_add, hmore]
                      rfl
                    rw [htake]
                    exact (Inside.of_unicode hfirst).append (.of_unicode hsecond)

theorem Inside.of_unescape {s : List Char} {d : Char} {n : Nat}
    (h : unescape s = .ok (d, n)) :
    Inside ('\\' :: s.take n) := by
  unfold unescape at h
  split at h
  · cases h
  · next c r =>
    split at h
    · next hu =>
      rw [beq_iff_eq] at hu
      subst hu
      exact .of_unicodeEscape h
    · split at h
      · next d' hd =>
        obtain ⟨-, rfl⟩ := Prod.mk.inj (Except.ok.inj h)
        exact .of_simpleEscape (by rw [hd]; rfl)
      · cases h

theorem Inside.of_escapeLength {s : List Char} {n : Nat} (h : escapeLength s = .ok n) :
    Inside ('\\' :: s.take n) := by
  unfold escapeLength at h
  split at h
  · cases h
  · next c r =>
    split at h
    · next hu =>
      rw [beq_iff_eq] at hu
      subst hu
      split at h
      · cases h
      · next hfour =>
        obtain rfl := Except.ok.inj h
        exact .of_unicode hfour
    · split at h
      · next hsimple =>
        obtain rfl := Except.ok.inj h
        exact .of_simpleEscape hsimple
      · cases h

/-- Holds if a string of a script ends where `rest` starts. -/
def Closes (s rest : List Char) : Prop :=
  ∃ inner, s = inner ++ rest ∧ stringLength? '"' inner = some inner.length

theorem Closes.append {piece s rest : List Char} (hpiece : Inside piece)
    (h : Closes s rest) :
    Closes (piece ++ s) rest := by
  obtain ⟨inner, rfl, hinner⟩ := h
  exact ⟨piece ++ inner, (List.append_assoc _ _ _).symm, hpiece _ hinner⟩

theorem Closes.calm {s rest : List Char} (h : Closes s rest) (hrest : Calm rest) :
    Calm ('"' :: s) := by
  obtain ⟨inner, rfl, hinner⟩ := h
  exact .string hinner hrest

/-- A reader of strings goes on after what it skips. -/
theorem stringFrom_skip {skip : Nat} {s : List Char} {x : List Char × List Char}
    (h : stringFrom skip s = .ok x) : stringFrom 0 (s.drop skip) = .ok x := by
  induction s generalizing skip with
  | nil =>
    cases h
  | cons c r ih =>
    cases skip with
    | zero => exact h
    | succ k => exact ih h

theorem skipString_skip {skip : Nat} {s rest : List Char}
    (h : skipString skip s = .ok rest) :
    skipString 0 (s.drop skip) = .ok rest := by
  induction s generalizing skip with
  | nil => cases h
  | cons c r ih =>
    cases skip with
    | zero => exact h
    | succ k => exact ih h

theorem Inside.of_char {c : Char} (hquote : ¬(c == '"') = true)
    (hescape : ¬(c == '\\') = true) (hcontrol : ¬c.toNat < 32) : Inside [c] := by
  refine .plain (by simpa using hescape) (by simpa using hquote) ?_ ?_ <;>
    · rintro rfl
      exact hcontrol (by decide)

/-- A string of data ends where a string of a script ends. -/
theorem closes_of_stringFrom {s text rest : List Char}
    (h : stringFrom 0 s = .ok (text, rest)) : Closes s rest := by
  -- the induction is on the length, since an escape is skipped as a whole
  induction hn : s.length using Nat.strongRecOn generalizing s text with
  | ind n ih =>
    cases s with
    | nil => cases h
    | cons c r =>
      rw [stringFrom] at h
      split at h
      · next hquote =>
        obtain ⟨-, rfl⟩ := Prod.mk.inj (Except.ok.inj h)
        rw [beq_iff_eq] at hquote
        subst hquote
        exact ⟨['"'], rfl, rfl⟩
      · next hquote =>
        split at h
        · next hescape =>
          rw [beq_iff_eq] at hescape
          subst hescape
          split at h
          · cases h
          · next d k hunescape =>
            split at h
            · cases h
            · next inner rest' hinner =>
              obtain ⟨-, rfl⟩ := Prod.mk.inj (Except.ok.inj h)
              have hlater : (r.drop k).length < n := by
                rw [← hn, List.length_drop, List.length_cons]
                omega
              have hrest := ih _ hlater (stringFrom_skip hinner) rfl
              have := Closes.append (.of_unescape hunescape) hrest
              rwa [List.cons_append, List.take_append_drop] at this
        · next hescape =>
          split at h
          · cases h
          · next hcontrol =>
            split at h
            · cases h
            · next inner rest' hinner =>
              obtain ⟨-, rfl⟩ := Prod.mk.inj (Except.ok.inj h)
              have hlater : r.length < n := by
                rw [← hn, List.length_cons]
                exact Nat.lt_succ_self _
              exact Closes.append (.of_char hquote hescape hcontrol)
                (ih _ hlater hinner rfl)

theorem closes_of_skipString {s rest : List Char} (h : skipString 0 s = .ok rest) :
    Closes s rest := by
  induction hn : s.length using Nat.strongRecOn generalizing s with
  | ind n ih =>
    cases s with
    | nil => cases h
    | cons c r =>
      rw [skipString] at h
      split at h
      · next hquote =>
        obtain rfl := Except.ok.inj h
        rw [beq_iff_eq] at hquote
        subst hquote
        exact ⟨['"'], rfl, rfl⟩
      · next hquote =>
        split at h
        · next hescape =>
          rw [beq_iff_eq] at hescape
          subst hescape
          split at h
          · cases h
          · next k hlength =>
            have hlater : (r.drop k).length < n := by
              rw [← hn, List.length_drop, List.length_cons]
              omega
            have hrest := ih _ hlater (skipString_skip h) rfl
            have := Closes.append (.of_escapeLength hlength) hrest
            rwa [List.cons_append, List.take_append_drop] at this
        · next hescape =>
          split at h
          · cases h
          · next hcontrol =>
            have hlater : r.length < n := by
              rw [← hn, List.length_cons]
              exact Nat.lt_succ_self _
            exact Closes.append (.of_char hquote hescape hcontrol) (ih _ hlater h rfl)

/-! ### Values -/

theorem isCalm_readString : IsCalm readString := by
  intro s a rest h hrest
  refine calm_of_skipBlanks ?_
  unfold readString at h
  split at h
  · next r hblanks =>
    split at h
    · cases h
    · next text rest' htext =>
      obtain ⟨-, rfl⟩ := Prod.mk.inj (Except.ok.inj h)
      rw [hblanks]
      exact (closes_of_stringFrom htext).calm hrest
  · cases h

theorem isCalm_readBool : IsCalm readBool := by
  intro s a rest h hrest
  refine calm_of_skipBlanks ?_
  unfold readBool at h
  split at h
  · next r hblanks =>
    obtain ⟨rest', hword, hpair⟩ := of_map h
    obtain ⟨-, rfl⟩ := Prod.mk.inj hpair
    rw [hblanks]
    exact .quiet (by decide) (calm_of_readWord (by decide) hword hrest)
  · next r hblanks =>
    obtain ⟨rest', hword, hpair⟩ := of_map h
    obtain ⟨-, rfl⟩ := Prod.mk.inj hpair
    rw [hblanks]
    exact .quiet (by decide) (calm_of_readWord (by decide) hword hrest)
  · cases h

/-! ### Lists and objects -/

theorem isCalm_nextItem (more : Bool) : IsCalm (nextItem? more) := by
  intro s a rest h hrest
  refine calm_of_skipBlanks ?_
  unfold nextItem? at h
  split at h
  · cases h
  · next c r hblanks =>
    rw [hblanks]
    split at h
    · obtain ⟨-, rfl⟩ := Prod.mk.inj (Except.ok.inj h)
      exact hrest
    · split at h
      · obtain ⟨-, rfl⟩ := Prod.mk.inj (Except.ok.inj h)
        exact hrest
      · split at h
        · cases h
        · next hcomma =>
          obtain rfl : c = ',' := by simpa using hcomma
          refine .quiet (by decide) (calm_of_skipBlanks ?_)
          split at h
          · cases h
          · next d r' hblanks' =>
            rw [hblanks']
            split at h
            · cases h
            · obtain ⟨-, rfl⟩ := Prod.mk.inj (Except.ok.inj h)
              exact hrest

theorem passes_closeList : Passes closeList := by
  intro s rest h hrest
  refine calm_of_skipBlanks ?_
  unfold closeList at h
  split at h
  · cases h
  · next c r hblanks =>
    split at h
    · next hclose =>
      obtain rfl := Except.ok.inj h
      rw [beq_iff_eq] at hclose
      rw [hblanks, hclose]
      exact .quiet (by decide) hrest
    · split at h <;> cases h

theorem isCalm_readItems {item : Reader α} (hitem : IsCalm item) (n : Nat) (more : Bool) :
    IsCalm (readItems item n more) := by
  induction n generalizing more with
  | zero =>
    intro s a rest h
    cases h
  | succ n ih =>
    intro s a rest h hrest
    rw [readItems] at h
    obtain ⟨⟨another, s₁⟩, hnext, h⟩ := of_bind h
    refine isCalm_nextItem more _ _ _ hnext ?_
    cases another with
    | true =>
      obtain ⟨⟨first, s₂⟩, hfirst, h⟩ := of_bind h
      obtain ⟨⟨others, s₃⟩, hothers, h⟩ := of_bind h
      obtain ⟨-, rfl⟩ := Prod.mk.inj (Except.ok.inj h)
      exact hitem _ _ _ hfirst (ih true _ _ _ hothers hrest)
    | false =>
      obtain ⟨s₂, hclose, h⟩ := of_bind h
      obtain ⟨-, rfl⟩ := Prod.mk.inj (Except.ok.inj h)
      exact passes_closeList _ _ hclose hrest

theorem isCalm_readList {item : Reader α} (hitem : IsCalm item) :
    IsCalm (readList item) := by
  intro s a rest h hrest
  refine calm_of_skipBlanks ?_
  unfold readList at h
  split at h
  · next r hblanks =>
    rw [hblanks]
    exact .quiet (by decide) (isCalm_readItems hitem _ _ _ _ _ h hrest)
  · cases h

theorem isCalm_nextKey (more : Bool) : IsCalm (nextKey? more) := by
  intro s a rest h hrest
  refine calm_of_skipBlanks ?_
  have hkey (r : List Char)
      (hread : (stringFrom 0 r).map (fun p => (some p.1, p.2)) = .ok (a, rest)) :
      Calm ('"' :: r) := by
    obtain ⟨⟨key, rest'⟩, hfrom, hpair⟩ := of_map hread
    obtain ⟨-, rfl⟩ := Prod.mk.inj hpair
    exact (closes_of_stringFrom hfrom).calm hrest
  unfold nextKey? at h
  simp only at h
  split at h
  · cases h
  · next c r hblanks =>
    rw [hblanks]
    split at h
    · obtain ⟨-, rfl⟩ := Prod.mk.inj (Except.ok.inj h)
      exact hrest
    · split at h
      · split at h
        · next hquote =>
          rw [beq_iff_eq] at hquote
          subst hquote
          exact hkey r h
        · cases h
      · split at h
        · cases h
        · next hcomma =>
          obtain rfl : c = ',' := by simpa using hcomma
          refine .quiet (by decide) (calm_of_skipBlanks ?_)
          split at h
          · cases h
          · next d r' hblanks' =>
            rw [hblanks']
            split at h
            · next hquote =>
              rw [beq_iff_eq] at hquote
              subst hquote
              exact hkey r' h
            · cases h

theorem passes_readColon : Passes readColon := by
  intro s rest h hrest
  refine calm_of_skipBlanks ?_
  unfold readColon at h
  split at h
  · cases h
  · next c r hblanks =>
    split at h
    · next hcolon =>
      obtain rfl := Except.ok.inj h
      rw [beq_iff_eq] at hcolon
      rw [hblanks, hcolon]
      exact .quiet (by decide) hrest
    · cases h

/-- Where the reader of keys finds none, an object ends. -/
theorem nextKey_none {more : Bool} {s rest : List Char}
    (h : nextKey? more s = .ok (none, rest)) :
    rest.head? = some '\x7d' := by
  have hkey (r : List Char) :
      (stringFrom 0 r).map (fun p => (some p.1, p.2)) ≠ .ok (none, rest) := by
    intro hread
    obtain ⟨⟨key, rest'⟩, -, hpair⟩ := of_map hread
    cases hpair
  unfold nextKey? at h
  simp only at h
  split at h
  · cases h
  · split at h
    · next hclose =>
      obtain ⟨-, rfl⟩ := Prod.mk.inj (Except.ok.inj h)
      rw [beq_iff_eq] at hclose
      rw [hclose]
      rfl
    · split at h
      · split at h
        · exact absurd h (hkey _)
        · cases h
      · split at h
        · cases h
        · split at h
          · cases h
          · split at h
            · exact absurd h (hkey _)
            · cases h

theorem isCalm_readFields {field : σ → List Char → Reader σ}
    (hfield : ∀ record key, IsCalm (field record key)) (n : Nat) (more : Bool)
    (record : σ) : IsCalm (readFields field n more record) := by
  induction n generalizing more record with
  | zero =>
    intro s a rest h
    cases h
  | succ n ih =>
    intro s a rest h hrest
    rw [readFields] at h
    obtain ⟨⟨key, s₁⟩, hnext, h⟩ := of_bind h
    refine isCalm_nextKey more _ _ _ hnext ?_
    cases key with
    | none =>
      obtain ⟨-, rfl⟩ := Prod.mk.inj (Except.ok.inj h)
      -- the bracket that closes the object is left over by the reader of keys
      have hclose := nextKey_none hnext
      cases s₁ with
      | nil => cases hclose
      | cons c r =>
        obtain rfl := Option.some.inj hclose
        exact .quiet (by decide) hrest
    | some key =>
      obtain ⟨⟨record', s₂⟩, hrecord, h⟩ := of_bind h
      exact hfield record key _ _ _ hrecord (ih true record' _ _ _ h hrest)

/-! ### Values that are not wanted -/

theorem passes_skipDigits : Passes skipDigits := by
  intro s rest h hrest
  unfold skipDigits at h
  split at h
  · cases h
  · next c r =>
    split at h
    · next hdigit =>
      obtain rfl := Except.ok.inj h
      exact .quiet (isQuiet_of_isDigit c hdigit)
        (calm_of_dropWhile isQuiet_of_isDigit hrest)
    · cases h

theorem passes_skipExponent : Passes skipExponent := by
  intro s rest h hrest
  unfold skipExponent at h
  split at h
  · exact .quiet (by decide) (passes_skipDigits _ _ h hrest)
  · exact .quiet (by decide) (passes_skipDigits _ _ h hrest)
  · exact passes_skipDigits _ _ h hrest

theorem passes_skipMagnitude : Passes skipMagnitude := by
  intro s rest h hrest
  unfold skipMagnitude at h
  split at h
  · exact .quiet (by decide) (passes_skipExponent _ _ h hrest)
  · exact .quiet (by decide) (passes_skipExponent _ _ h hrest)
  · obtain rfl := Except.ok.inj h
    exact hrest

theorem passes_skipFraction : Passes skipFraction := by
  intro s rest h hrest
  unfold skipFraction at h
  split at h
  · obtain ⟨after, hdigits, hmagnitude⟩ := of_bind h
    exact .quiet (by decide)
      (passes_skipDigits _ _ hdigits (passes_skipMagnitude _ _ hmagnitude hrest))
  · exact passes_skipMagnitude _ _ h hrest

theorem passes_skipNumber : Passes skipNumber := by
  intro s rest h hrest
  unfold skipNumber at h
  split at h
  · split at h
    · cases h
    · exact .quiet (by decide) (passes_skipFraction _ _ h hrest)
  · obtain ⟨after, hdigits, hfraction⟩ := of_bind h
    exact passes_skipDigits _ _ hdigits (passes_skipFraction _ _ hfraction hrest)

theorem passes_skipScalar : Passes skipScalar := by
  intro s rest h hrest
  unfold skipScalar at h
  split at h
  · cases h
  · exact .quiet (by decide) (calm_of_readWord (by decide) h hrest)
  · exact .quiet (by decide) (calm_of_readWord (by decide) h hrest)
  · exact .quiet (by decide) (calm_of_readWord (by decide) h hrest)
  · exact (closes_of_skipString h).calm hrest
  · exact .quiet (by decide) (passes_skipNumber _ _ h hrest)
  · split at h
    · exact passes_skipNumber _ _ h hrest
    · cases h

theorem passes_skipKey : Passes skipKey := by
  intro s rest h hrest
  refine calm_of_skipBlanks ?_
  unfold skipKey at h
  split at h
  · cases h
  · next c r hblanks =>
    split at h
    · next hquote =>
      rw [beq_iff_eq] at hquote
      subst hquote
      obtain ⟨after, hstring, hcolon⟩ := of_bind h
      rw [hblanks]
      exact (closes_of_skipString hstring).calm (passes_readColon _ _ hcolon hrest)
    · cases h

theorem passes_skipItems_succ {n : Nat} (hvalue : Passes (skipValueIn n))
    (hitems : ∀ more, Passes (skipItems n more)) (more : Bool) :
    Passes (skipItems (n + 1) more) := by
  intro s rest h hrest
  refine calm_of_skipBlanks ?_
  rw [skipItems] at h
  split at h
  · cases h
  · next c r hblanks =>
    rw [hblanks]
    split at h
    · next hclose =>
      obtain rfl := Except.ok.inj h
      rw [beq_iff_eq] at hclose
      rw [hclose]
      exact .quiet (by decide) hrest
    · split at h
      · obtain ⟨after, hfirst, hothers⟩ := of_bind h
        exact hvalue _ _ hfirst (hitems true _ _ hothers hrest)
      · split at h
        · next hcomma =>
          obtain ⟨after, hfirst, hothers⟩ := of_bind h
          rw [beq_iff_eq] at hcomma
          rw [hcomma]
          exact .quiet (by decide) (hvalue _ _ hfirst (hitems true _ _ hothers hrest))
        · cases h

theorem passes_skipFields_succ {n : Nat} (hvalue : Passes (skipValueIn n))
    (hfields : ∀ more, Passes (skipFields n more)) (more : Bool) :
    Passes (skipFields (n + 1) more) := by
  intro s rest h hrest
  refine calm_of_skipBlanks ?_
  rw [skipFields] at h
  split at h
  · cases h
  · next c r hblanks =>
    rw [hblanks]
    split at h
    · next hclose =>
      obtain rfl := Except.ok.inj h
      rw [beq_iff_eq] at hclose
      rw [hclose]
      exact .quiet (by decide) hrest
    · split at h
      · obtain ⟨value, hkey, h⟩ := of_bind h
        obtain ⟨after, hfirst, hothers⟩ := of_bind h
        exact passes_skipKey _ _ hkey (hvalue _ _ hfirst (hfields true _ _ hothers hrest))
      · split at h
        · next hcomma =>
          obtain ⟨value, hkey, h⟩ := of_bind h
          obtain ⟨after, hfirst, hothers⟩ := of_bind h
          rw [beq_iff_eq] at hcomma
          rw [hcomma]
          exact .quiet (by decide)
            (passes_skipKey _ _ hkey (hvalue _ _ hfirst (hfields true _ _ hothers hrest)))
        · cases h

/-- Whatever its parts, a value passes, and so do the rest of a list and the
rest of an object. -/
theorem passes_skipValueIn (n : Nat) :
    Passes (skipValueIn n) ∧ (∀ more, Passes (skipItems n more)) ∧
      ∀ more, Passes (skipFields n more) := by
  induction n with
  | zero =>
    refine ⟨?_, fun more => ?_, fun more => ?_⟩ <;>
      · intro s rest h
        cases h
  | succ n ih =>
    -- three readers go down together, each to the readers of the depth below
    obtain ⟨hvalue, hitems, hfields⟩ := ih
    refine ⟨?_, passes_skipItems_succ hvalue hitems,
      passes_skipFields_succ hvalue hfields⟩
    intro s rest h hrest
    refine calm_of_skipBlanks ?_
    rw [skipValueIn] at h
    split at h
    · next r hblanks =>
      rw [hblanks]
      exact .quiet (by decide) (hitems false _ _ h hrest)
    · next r hblanks =>
      rw [hblanks]
      exact .quiet (by decide) (hfields false _ _ h hrest)
    · exact passes_skipScalar _ _ h hrest

theorem passes_skipValue : Passes skipValue := fun _ _ h => (passes_skipValueIn _).1 _ _ h

end Json

/-! ### Settings -/

namespace Settings

open Json

theorem isCalm_readField (settings : Settings) (field : Field) :
    IsCalm (readField settings field) := by
  intro s a rest h hrest
  have htexts (set : List String → Settings)
      (h : ((readList readString s).map fun p => (set p.1, p.2)) = .ok (a, rest)) :
      Calm s := by
    obtain ⟨⟨items, rest'⟩, hread, hpair⟩ := of_map h
    obtain ⟨-, rfl⟩ := Prod.mk.inj hpair
    exact isCalm_readList isCalm_readString _ _ _ hread hrest
  cases field with
  | includes => exact htexts (fun items => { settings with includes := items }) h
  | ignores => exact htexts (fun items => { settings with ignores := items }) h
  | keywords => exact htexts (fun items => { settings with keywords := items }) h
  | excludes => exact htexts (fun items => { settings with excludes := items }) h
  | ignoreTestFiles =>
    obtain ⟨⟨b, rest'⟩, hread, hpair⟩ := of_map h
    obtain ⟨-, rfl⟩ := Prod.mk.inj hpair
    exact isCalm_readBool _ _ _ hread hrest

theorem isCalm_readKey (draft : Draft) (key : List Char) :
    IsCalm (draft.readKey key) := by
  intro s a rest h hrest
  unfold Draft.readKey at h
  split at h
  · obtain ⟨value, hcolon, h⟩ := of_bind h
    obtain ⟨after, hvalue, h⟩ := of_bind h
    obtain ⟨-, rfl⟩ := Prod.mk.inj (Except.ok.inj h)
    exact passes_readColon _ _ hcolon (passes_skipValue _ _ hvalue hrest)
  · split at h
    · cases h
    · obtain ⟨value, hcolon, h⟩ := of_bind h
      obtain ⟨⟨settings, after⟩, hfield, h⟩ := of_bind h
      obtain ⟨-, rfl⟩ := Prod.mk.inj (Except.ok.inj h)
      exact passes_readColon _ _ hcolon (isCalm_readField _ _ _ _ _ hfield hrest)

theorem isCalm_readInOrder (more : Bool) (settings : Settings) (fields : List Field) :
    IsCalm (readInOrder more settings fields) := by
  induction fields generalizing more settings with
  | nil =>
    intro s a rest h hrest
    obtain ⟨-, rfl⟩ := Prod.mk.inj (Except.ok.inj h)
    exact hrest
  | cons field fields ih =>
    intro s a rest h hrest
    rw [readInOrder] at h
    obtain ⟨⟨another, s₁⟩, hnext, h⟩ := of_bind h
    refine isCalm_nextItem more _ _ _ hnext ?_
    cases another with
    | true =>
      obtain ⟨⟨settings', s₂⟩, hfield, h⟩ := of_bind h
      exact isCalm_readField _ _ _ _ _ hfield (ih true settings' _ _ _ h hrest)
    | false =>
      obtain ⟨-, rfl⟩ := Prod.mk.inj (Except.ok.inj h)
      exact hrest

theorem isCalm_readFrom : IsCalm readFrom := by
  intro s a rest h hrest
  refine calm_of_skipBlanks ?_
  unfold readFrom at h
  split at h
  · next r hblanks =>
    obtain ⟨⟨draft, after⟩, hfields, h⟩ := of_bind h
    obtain ⟨-, rfl⟩ := Prod.mk.inj (Except.ok.inj h)
    rw [hblanks]
    exact .quiet (by decide) (isCalm_readFields isCalm_readKey _ _ _ _ _ _ hfields hrest)
  · next r hblanks =>
    obtain ⟨⟨settings, after⟩, horder, h⟩ := of_bind h
    obtain ⟨rest', hclose, h⟩ := of_bind h
    obtain ⟨-, rfl⟩ := Prod.mk.inj (Except.ok.inj h)
    rw [hblanks]
    exact .quiet (by decide)
      (isCalm_readInOrder _ _ _ _ _ _ horder (passes_closeList _ _ hclose hrest))
  · cases h

/-- What can be read as settings is calm. -/
theorem calm_of_read {text : List Char} {settings : Settings}
    (h : read text = .ok settings) : Calm text := by
  obtain ⟨⟨settings', rest⟩, hfrom, h⟩ := of_bind h
  refine isCalm_readFrom _ _ _ hfrom (calm_of_skipBlanks ?_)
  simp only at h
  split at h
  · next hblanks =>
    rw [hblanks]
    exact .nil
  · cases h

end Settings

/-! ### Findings -/

namespace Script.Tree

mutual

theorem sites_of_isCalm {t : Tree} (start : Nat) (h : t.isCalm = true) :
    t.sites start = [] := by
  cases t with
  | leaf token => rw [sites]
  | node kind parts =>
    rw [isCalm] at h
    refine List.eq_nil_iff_forall_not_mem.2 fun site hsite => ?_
    rw [mem_sites_node, sitesAll_of_areCalm start h] at hsite
    cases hsite
  | call callee typeArguments opening items closing => cases h

theorem sitesAll_of_areCalm {l : List Tree} (start : Nat) (h : areCalm l = true) :
    (sitesAll start l).flatten = [] := by
  cases l with
  | nil => rfl
  | cons t r =>
    rw [areCalm, Bool.and_eq_true] at h
    rw [sitesAll, List.flatten_cons, sites_of_isCalm start h.1, sitesAll_of_areCalm _ h.2]
    rfl

end

end Script.Tree

/-- A calm text has no findings, whatever the dialect it is read in. -/
theorem findings_of_calm {visit : Visit} {target : Target} {file : String}
    {text : List Char} {found : List Finding} (htext : Calm text)
    (h : findings target file text visit = .ok found) :
    found = [] := by
  have hmark : dropMark text = text := by
    unfold dropMark
    split
    · rfl
    · next c r =>
      split
      · next hc =>
        have hchar : c = Char.ofNat 0xFEFF := by rw [← beq_iff_eq.1 hc, Char.ofNat_toNat]
        subst hchar
        exact (htext.false_of_cons (by decide)).elim
      · rfl
  unfold findings Reader.findings Reader.parseFile at h
  rw [hmark] at h
  split at h
  · cases h
  · next tree htree =>
    obtain rfl := Except.ok.inj h
    rw [treeFindings, Tree.sites_of_isCalm 0 (isCalm_of_parse htext htree)]
    rfl

/-- What can be read as settings has no findings. -/
theorem findings_of_settings {visit : Visit} {target : Target} {file : String}
    {text : List Char} {settings : Settings} {found : List Finding}
    (hsettings : Settings.read text = .ok settings)
    (h : findings target file text visit = .ok found) : found = [] :=
  findings_of_calm (Settings.calm_of_read hsettings) h

end AnimLint
