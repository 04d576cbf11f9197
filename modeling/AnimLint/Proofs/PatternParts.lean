/-
AnimLint/Proofs/PatternParts.lean

Patterns as a whole and part by part.  A pattern is read as a whole before it is
expanded, and then once more part by part.  Whatever can be read part by part
can be read as a whole, so the parts alone decide whether a text is expanded
(`isOk_expand_iff`); but a class may reach over a slash, and then the whole can
be read and its parts cannot.  Without classes the two agree
(`isReadable_part`).

Main results: `isReadable_of_parts`, `isReadable_part`, `isOk_expand_iff`.
-/
import AnimLint.Proofs.Expansion
import Mathlib.Tactic.SplitIfs

namespace AnimLint.Glob

open Files

/-! ### Texts that can be read -/

/-- Holds of texts that can be read as patterns. -/
def isReadable (text : String) : Bool := (Pattern.parse text).isOk

theorem exists_of_isReadable {text : String} (h : isReadable text = true) :
    ∃ p, Pattern.parse text = .ok p := by
  rw [isReadable] at h
  rcases hparse : Pattern.parse text with e | p
  · rw [hparse] at h
    cases h
  · exact ⟨p, rfl⟩

theorem isReadable_eq (text : String) :
    isReadable text = (tokensFrom 0 0 none [] text.toList).isOk :=
  isOk_parse text

/-- A part without wildcards can be read. -/
theorem isReadable_of_plain {text : String} (h : text.toList.any isWildcard = false) :
    isReadable text = true := by
  rw [isReadable, parse_plain h]
  rfl

/-! ### In front of a slash -/

theorem untilBracket_append {s : List Char} {n : Nat} (h : untilBracket? s = some n)
    (r : List Char) :
    untilBracket? (s ++ r) = some n ∧ n < s.length := by
  induction s generalizing n with
  | nil => cases h
  | cons c s ih =>
    rw [untilBracket?] at h
    rw [List.cons_append, untilBracket?, List.length_cons]
    split at h
    · next hc =>
      obtain rfl := Option.some.inj h
      exact ⟨if_pos hc, Nat.succ_pos _⟩
    · next hc =>
      obtain ⟨m, hm, rfl⟩ := Option.map_eq_some_iff.1 h
      obtain ⟨hmore, hlt⟩ := ih hm
      rw [if_neg hc, hmore]
      exact ⟨rfl, Nat.succ_lt_succ hlt⟩

theorem class_cons {c : Char} (hc : c ≠ '!') (s : List Char) :
    class? (c :: s) = (untilBracket? s).map fun n =>
      (.among (specifiers (c :: s.take n)), n + 2) := by
  unfold class?
  split
  · next heq => exact absurd (List.cons.inj heq).1 hc
  · next heq => exact absurd (List.cons.inj heq).1 hc
  · next heq =>
    obtain ⟨rfl, rfl⟩ := List.cons.inj heq
    rfl
  · next heq => cases heq

/-- A class that is closed in a text is closed there whatever follows. -/
theorem class_append {s : List Char} {t : Token} {n : Nat}
    (h : class? s = some (t, n)) (r : List Char) :
    n ≤ s.length ∧ ∃ t', class? (s ++ r) = some (t', n) := by
  rcases s with - | ⟨c, s⟩
  · cases h
  · by_cases hc : c = '!'
    · subst hc
      rcases s with - | ⟨d, s⟩
      · cases h
      · obtain ⟨m, hm, heq⟩ := Option.map_eq_some_iff.1 h
        obtain ⟨-, rfl⟩ := Prod.mk.inj heq
        obtain ⟨hmore, hlt⟩ := untilBracket_append hm r
        refine ⟨by rw [List.length_cons, List.length_cons]; omega,
          .notAmong (specifiers (d :: (s ++ r).take m)), ?_⟩
        rw [List.cons_append, List.cons_append, class?, hmore]
        rfl
    · rw [class_cons hc] at h
      obtain ⟨m, hm, heq⟩ := Option.map_eq_some_iff.1 h
      obtain ⟨-, rfl⟩ := Prod.mk.inj heq
      obtain ⟨hmore, hlt⟩ := untilBracket_append hm r
      refine ⟨by rw [List.length_cons]; omega,
        .among (specifiers (c :: (s ++ r).take m)), ?_⟩
      rw [List.cons_append, class_cons hc, hmore]
      rfl

section Scan

variable {s r : List Char} {skip position : Nat} {last : Option Char}
  {before : List Token}

/-! What a star is depends on how many of them there are. -/

theorem tokensFrom_star (h : s.head? ≠ some '*') :
    tokensFrom 0 position last before ('*' :: s) =
    tokensFrom 0 (position + 1) (some '*') (.anyText :: before) s := by
  have hstars : (s.takeWhile (· == '*')).length = 0 := by
    rcases s with - | ⟨c, s⟩
    · rfl
    · rw [List.takeWhile_cons_of_neg (by simpa using h)]
      rfl
  rw [tokensFrom, hstars]
  rfl

theorem tokensFrom_stars (h : s.head? ≠ some '*') :
    tokensFrom 0 position last before ('*' :: '*' :: s) =
    if endsComponent last then
      match s.head? with
      | none => .ok (addComponents before).reverse
      | some '/' => tokensFrom 1 (position + 2) (some '*') (addComponents before) s
      | some _ => .error ⟨position + 2, .recursiveWildcards⟩
    else .error ⟨position - 1, .recursiveWildcards⟩ := by
  have hstars : (('*' :: s).takeWhile (· == '*')).length = 1 := by
    rcases s with - | ⟨c, s⟩
    · rfl
    · rw [List.takeWhile_cons_of_pos rfl, List.takeWhile_cons_of_neg (by simpa using h)]
      rfl
  rw [tokensFrom, hstars, endsComponent]
  cases (last.isSome && last != some '/') <;> rfl

theorem tokensFrom_more_stars :
    tokensFrom 0 position last before ('*' :: '*' :: '*' :: s) =
    .error ⟨position + 2, .wildcards⟩ := by
  have hstars : (('*' :: '*' :: s).takeWhile (· == '*')).length =
      (s.takeWhile (· == '*')).length + 2 := rfl
  rw [tokensFrom, hstars]
  rfl

/-- Two stars can be read only as a component of their own. -/
theorem of_isOk_stars
    (h : (tokensFrom 0 position last before ('*' :: '*' :: s)).isOk = true) :
    endsComponent last = true ∧ (s = [] ∨ s.head? = some '/') := by
  by_cases hthird : s.head? = some '*'
  · obtain ⟨s, rfl⟩ := List.head?_eq_some_iff.1 hthird
    rw [tokensFrom_more_stars] at h
    cases h
  · rw [tokensFrom_stars hthird] at h
    split_ifs at h with hlast
    · refine ⟨hlast, ?_⟩
      split at h
      · next hnil => exact .inl (List.head?_eq_none_iff.1 hnil)
      · next hslash => exact .inr hslash
      · cases h
    · cases h

/-- Behind a part that can be read, the text behind the slash decides. -/
theorem isOk_tokensFrom_slash (hslash : '/' ∉ s) (hskip : skip ≤ s.length)
    (h : (tokensFrom skip position last before s).isOk = true) :
    (tokensFrom skip position last before (s ++ '/' :: r)).isOk =
      (tokensFrom 0 0 none [] r).isOk := by
  induction s generalizing skip position last before with
  | nil =>
    obtain rfl := Nat.le_zero.1 hskip
    show (tokensFrom 0 (position + 1) (some '/') (.char '/' :: before) r).isOk = _
    exact isOk_tokensFrom rfl
  | cons c s ih =>
    have hmore : '/' ∉ s := fun hmem => hslash (List.mem_cons_of_mem c hmem)
    cases skip with
    | succ k => exact ih hmore (Nat.le_of_succ_le_succ hskip) h
    | zero =>
      by_cases hstar : c = '*'
      · subst hstar
        by_cases hone : s.head? = some '*'
        · -- two stars are the whole of a part, so the slash stands right behind them
          obtain ⟨s, rfl⟩ := List.head?_eq_some_iff.1 hone
          obtain ⟨hlast, rfl | hhead⟩ := of_isOk_stars h
          · rw [List.cons_append, List.cons_append, List.nil_append,
              tokensFrom_stars (by simp), if_pos hlast]
            show (tokensFrom 0 (position + 2 + 1) (some '/')
                (addComponents before) r).isOk = _
            exact isOk_tokensFrom rfl
          · exact absurd (List.mem_cons_of_mem _ (List.mem_of_head? hhead)) hmore
        · have hone' : (s ++ '/' :: r).head? ≠ some '*' := by
            rcases s with - | ⟨d, s⟩
            · simp
            · exact hone
          rw [tokensFrom_star hone] at h
          rw [List.cons_append, tokensFrom_star hone']
          exact ih hmore (Nat.zero_le _) h
      · have hstar' : ¬(c == '*') = true := by simpa using hstar
        rw [tokensFrom, if_neg hstar'] at h
        rw [List.cons_append, tokensFrom, if_neg hstar']
        split_ifs at h ⊢
        · exact ih hmore (Nat.zero_le _) h
        · rcases hfound : class? s with - | ⟨t, n⟩
          · rw [hfound] at h
            cases h
          · rw [hfound] at h
            obtain ⟨hle, t', hagain⟩ := class_append hfound ('/' :: r)
            rw [hagain]
            exact (isOk_tokensFrom rfl).trans (ih hmore hle h)
        · exact ih hmore (Nat.zero_le _) h

/-- Without classes, a part can be read if the text that goes on behind its
slash can. -/
theorem isOk_tokensFrom_part (hslash : '/' ∉ s) (hbracket : '[' ∉ s)
    (h : (tokensFrom 0 position last before (s ++ '/' :: r)).isOk = true) :
    (tokensFrom 0 position last before s).isOk = true := by
  induction s generalizing position last before with
  | nil => rfl
  | cons c s ih =>
    have hmore : '/' ∉ s := fun hmem => hslash (List.mem_cons_of_mem c hmem)
    have hnone : '[' ∉ s := fun hmem => hbracket (List.mem_cons_of_mem c hmem)
    by_cases hstar : c = '*'
    · subst hstar
      by_cases hone : s.head? = some '*'
      · obtain ⟨s, rfl⟩ := List.head?_eq_some_iff.1 hone
        obtain ⟨hlast, hhead⟩ := of_isOk_stars h
        rcases s with - | ⟨d, s⟩
        · rw [tokensFrom_stars (by simp), if_pos hlast]
          rfl
        · rcases hhead with hnil | hhead
          · cases hnil
          · exact absurd
              (Option.some.inj hhead ▸ List.mem_cons_of_mem _ List.mem_cons_self) hmore
      · have hone' : (s ++ '/' :: r).head? ≠ some '*' := by
          rcases s with - | ⟨d, s⟩
          · simp
          · exact hone
        rw [List.cons_append, tokensFrom_star hone'] at h
        rw [tokensFrom_star hone]
        exact ih hmore hnone h
    · have hstar' : ¬(c == '*') = true := by simpa using hstar
      have hclass : ¬(c == '[') = true := by
        rw [beq_iff_eq]
        rintro rfl
        exact hbracket List.mem_cons_self
      rw [List.cons_append, tokensFrom, if_neg hstar', if_neg hclass] at h
      rw [tokensFrom, if_neg hstar', if_neg hclass]
      split_ifs at h ⊢
      · exact ih hmore hnone h
      · exact ih hmore hnone h

end Scan

/-! ### Parts -/

/-- A text can be read if all its parts can. -/
theorem isOk_joinSlashes {parts : List (List Char)} (hslash : ∀ part ∈ parts, '/' ∉ part)
    (h : ∀ part ∈ parts, (tokensFrom 0 0 none [] part).isOk = true) :
    (tokensFrom 0 0 none [] (joinSlashes parts)).isOk = true := by
  induction parts with
  | nil => rfl
  | cons part parts ih =>
    obtain ⟨hpart, hparts⟩ := List.forall_mem_cons.1 h
    obtain ⟨hfree, hfrees⟩ := List.forall_mem_cons.1 hslash
    by_cases hlast : parts = []
    · subst hlast
      exact hpart
    · rw [joinSlashes_cons part hlast, isOk_tokensFrom_slash hfree (Nat.zero_le _) hpart]
      exact ih hfrees hparts

/-- Without classes, the parts of a text can be read if the text can. -/
theorem isOk_of_joinSlashes {parts : List (List Char)}
    (hslash : ∀ part ∈ parts, '/' ∉ part)
    (hbracket : ∀ part ∈ parts, '[' ∉ part)
    (h : (tokensFrom 0 0 none [] (joinSlashes parts)).isOk = true) :
    ∀ part ∈ parts, (tokensFrom 0 0 none [] part).isOk = true := by
  induction parts with
  | nil => exact List.forall_mem_nil _
  | cons part parts ih =>
    obtain ⟨hplain, hplains⟩ := List.forall_mem_cons.1 hbracket
    obtain ⟨hfree, hfrees⟩ := List.forall_mem_cons.1 hslash
    by_cases hlast : parts = []
    · subst hlast
      exact List.forall_mem_singleton.2 h
    · rw [joinSlashes_cons part hlast] at h
      have hpart := isOk_tokensFrom_part hfree hplain h
      rw [isOk_tokensFrom_slash hfree (Nat.zero_le _) hpart] at h
      exact List.forall_mem_cons.2 ⟨hpart, ih hfrees hplains h⟩

/-- A name of a path is one of its parts or empty. -/
theorem eq_empty_or_mem_pathParts {path name : String} (h : name ∈ names path) :
    name = "" ∨ name ∈ pathParts path := by
  have hstem : name = "" ∨ name ∈ stem path := by
    rcases List.eq_nil_or_concat (names path) with hnil | ⟨front, last, hnames⟩
    · exact absurd hnil (names_ne_nil path)
    · rw [List.concat_eq_append] at hnames
      rw [hnames] at h
      rw [stem_of_append hnames]
      split
      · next hlast =>
        rcases List.mem_append.1 h with hfront | hname
        · exact .inr hfront
        · exact .inl ((List.mem_singleton.1 hname).trans hlast)
      · exact .inr h
  rcases hstem with hempty | hstem
  · exact .inl hempty
  · rw [stem_eq_pathParts] at hstem
    rcases List.mem_append.1 hstem with hroot | hpart
    · split at hroot
      · exact .inl (List.mem_singleton.1 hroot)
      · cases hroot
    · exact .inr hpart

/-- **A pattern can be read as a whole if its parts can.** -/
theorem isReadable_of_parts {text : String}
    (h : ∀ part ∈ pathParts text, isReadable part = true) :
    isReadable text = true := by
  rw [isReadable_eq, ← joinSlashes_splitSlashes text.toList]
  refine isOk_joinSlashes (fun part hpart => slash_not_mem_splitSlashes hpart)
    fun part hpart => ?_
  have hname : String.ofList part ∈ names text := List.mem_map_of_mem hpart
  have hread : isReadable (String.ofList part) = true := by
    rcases eq_empty_or_mem_pathParts hname with hempty | hmem
    · rw [hempty]
      rfl
    · exact h _ hmem
  rwa [isReadable_eq, String.toList_ofList] at hread

/-- Without classes, the parts of a pattern can be read if it can be read as a
whole. -/
theorem isReadable_part {text part : String} (hbracket : '[' ∉ text.toList)
    (h : isReadable text = true)
    (hpart : part ∈ pathParts text) : isReadable part = true := by
  rw [isReadable_eq, ← joinSlashes_splitSlashes text.toList] at h
  have hparts := isOk_of_joinSlashes (fun part hpart => slash_not_mem_splitSlashes hpart)
    (fun part hpart hmem => hbracket (mem_of_mem_splitSlashes hpart hmem)) h
  obtain ⟨chars, hchars, rfl⟩ := List.mem_map.1 (mem_names_of_mem_pathParts hpart)
  rw [isReadable_eq, String.toList_ofList]
  exact hparts chars hchars

/-! ### Expansion -/

theorem isOk_mapM_parse_iff {texts : List String} :
    (texts.mapM Pattern.parse).isOk = true ↔ ∀ text ∈ texts, isReadable text = true := by
  induction texts with
  | nil => exact ⟨fun _ => List.forall_mem_nil _, fun _ => rfl⟩
  | cons text texts ih =>
    rw [List.forall_mem_cons, ← ih, List.mapM_cons, isReadable]
    rcases Pattern.parse text with e | p
    · exact ⟨fun h => (nomatch h), fun h => (nomatch h.1)⟩
    · rcases texts.mapM Pattern.parse with e | ps
      · exact ⟨fun h => (nomatch h), fun h => (nomatch h.2)⟩
      · exact ⟨fun _ => ⟨rfl, rfl⟩, fun _ => rfl⟩

/-- **A text is expanded if and only if each of its parts can be read.** -/
theorem isOk_expand_iff {fs : FileSystem} {text : String} :
    (expand fs text).isOk = true ↔ ∀ part ∈ pathParts text, isReadable part = true := by
  rw [← isOk_mapM_parse_iff]
  constructor
  · intro h
    rcases hfound : expand fs text with e | found
    · rw [hfound] at h
      cases h
    · obtain ⟨ps, hps, -⟩ := expand_eq_ok hfound
      rw [hps]
      rfl
  · intro h
    have hwhole := isReadable_of_parts (isOk_mapM_parse_iff.1 h)
    rw [isReadable] at hwhole
    rcases hps : (pathParts text).mapM Pattern.parse with e | ps
    · rw [hps] at h
      cases h
    · rcases hparse : Pattern.parse text with e | p
      · rw [hparse] at hwhole
        cases hwhole
      · rw [expand_of_parts hparse hps]
        rfl

end AnimLint.Glob
