/-
AnimLint/Proofs/Overlooking.lean

Patterns that do not look at the base.  An ignored pattern is held against a
path with its base in front.  A pattern overlooks two bases if it stands for a
path below the one if and only if it stands for the path with the same names
below the other (`Pattern.Overlooks`).  So does `**/name/**`, which asks for a
name in front of the last one, unless the name is part of a base
(`overlooks_directory`), and so does `**/*ending`, which asks how the last name
ends, unless a name of a base ends like that (`overlooks_ending`).  The patterns
of test files are of these two kinds (`overlooks_testPatterns`).
-/
import AnimLint.Proofs.Expansion

namespace AnimLint.Glob

open Files

/-- Holds of paths with the names `below` behind a base. -/
def LiesBehind (base : String) (below : List String) (path : String) : Prop :=
  isAbsolute path = isAbsolute base ∧
    ∃ front, names path = front ++ below ∧ stepsOf front = stepsOf (names base)

/-- Holds of patterns that stand for a path below one base if and only if they
do so below another. -/
def Pattern.Overlooks (p : Pattern) (base base' : String) : Prop :=
  ∀ below path path', LiesBehind base below path → LiesBehind base' below path' →
    p.covers path = p.covers path'

/-! ### Names of a base -/

theorem component?_injective {text text' : List Char} {c : Component}
    (h : component? text = some c)
    (h' : component? text' = some c) : text = text' := by
  unfold component? at h h'
  split at h
  · cases h
  · cases h
  · obtain rfl := Option.some.inj h
    split at h' <;> first | rfl | cases h'
  · obtain rfl := Option.some.inj h
    split at h'
    · cases h'
    · cases h'
    · cases h'
    · exact (Component.name.inj (Option.some.inj h')).symm

/-- What counts in front of the names behind a base is part of the base. -/
theorem mem_names_of_mem_front {front base : List String}
    (h : stepsOf front = stepsOf base)
    {name : String} (hname : name ∈ front) : isIdle name = true ∨ name ∈ base := by
  rcases hcomponent : component? name.toList with - | c
  · left
    have hidle := isIdle_of_component? hcomponent
    rwa [String.ofList_toList] at hidle
  · right
    have hmem : c ∈ stepsOf front := List.mem_filterMap.2 ⟨name, hname, hcomponent⟩
    rw [h] at hmem
    obtain ⟨name', hname', hcomponent'⟩ := List.mem_filterMap.1 hmem
    rwa [String.toList_inj.1 (component?_injective hcomponent hcomponent')]

/-! ### What a pattern asks for -/

theorem mem_afterSlashes {s u : List Char} :
    u ∈ afterSlashes s ↔ u = [] ∨ ∃ front, s = front ++ '/' :: u := by
  induction s with
  | nil => simp [afterSlashes]
  | cons c r ih =>
    have hbehind : (∃ front, c :: r = front ++ '/' :: u) ↔
        c = '/' ∧ r = u ∨ ∃ front, r = front ++ '/' :: u := by
      constructor
      · rintro ⟨front, hfront⟩
        cases front with
        | nil => exact .inl (List.cons.inj hfront)
        | cons first front => exact .inr ⟨front, (List.cons.inj hfront).2⟩
      · rintro (⟨rfl, rfl⟩ | ⟨front, rfl⟩)
        · exact ⟨[], rfl⟩
        · exact ⟨c :: front, rfl⟩
    rw [afterSlashes, hbehind]
    by_cases hslash : c = '/'
    · rw [if_pos (beq_iff_eq.2 hslash), List.mem_cons, ih]
      constructor
      · rintro (rfl | hnil | hrest)
        · exact .inr (.inl ⟨hslash, rfl⟩)
        · exact .inl hnil
        · exact .inr (.inr hrest)
      · rintro (hnil | ⟨-, rfl⟩ | hrest)
        · exact .inr (.inl hnil)
        · exact .inl rfl
        · exact .inr (.inr hrest)
    · rw [if_neg (by simpa using hslash), ih]
      simp [hslash]

theorem mem_suffixes {s u : List Char} : u ∈ suffixes s ↔ u <:+ s := by
  induction s with
  | nil => simp [suffixes]
  | cons c r ih => rw [suffixes, List.mem_cons, ih, List.suffix_cons_iff]

/-- Characters stand for themselves, and what follows for the rest. -/
theorem coversAll_chars {cs s : List Char} {ts : List Token} :
    coversAll (cs.map .char ++ ts) s = true ↔
      ∃ rest, s = cs ++ rest ∧ coversAll ts rest = true := by
  induction cs generalizing s with
  | nil => simp
  | cons c cs ih =>
    rw [List.map_cons, List.cons_append]
    cases s with
    | nil => simp [coversAll]
    | cons d r =>
      rw [coversAll, Bool.and_eq_true, ih, beq_iff_eq]
      constructor
      · rintro ⟨rfl, rest, rfl, hrest⟩
        exact ⟨rest, rfl, hrest⟩
      · rintro ⟨rest, heq, hrest⟩
        obtain ⟨rfl, rfl⟩ := List.cons.inj heq
        exact ⟨rfl, rest, rfl, hrest⟩

theorem coversAll_literal {cs s : List Char} :
    coversAll (cs.map .char) s = true ↔ s = cs := by
  have hchars := @coversAll_chars cs s []
  rw [List.append_nil] at hchars
  rw [hchars]
  constructor
  · rintro ⟨rest, rfl, hrest⟩
    rw [List.isEmpty_iff.1 hrest, List.append_nil]
  · rintro rfl
    exact ⟨[], (List.append_nil _).symm, rfl⟩

/-- `**` at the end of a pattern stands for anything. -/
theorem coversAll_anyComponents (s : List Char) :
    coversAll [.anyComponents] s = true := by
  rw [coversAll, Bool.or_eq_true]
  right
  exact List.any_eq_true.2 ⟨[], mem_afterSlashes.2 (.inl rfl), rfl⟩

theorem coversAll_recursive {ts : List Token} {s : List Char} :
    coversAll (.anyComponents :: ts) s = true ↔
      coversAll ts s = true ∨ coversAll ts [] = true ∨
        ∃ front u, s = front ++ '/' :: u ∧ coversAll ts u = true := by
  rw [coversAll, Bool.or_eq_true, List.any_eq_true]
  constructor
  · rintro (hhere | ⟨u, hmem, hu⟩)
    · exact .inl hhere
    · rcases mem_afterSlashes.1 hmem with rfl | ⟨front, rfl⟩
      · exact .inr (.inl hu)
      · exact .inr (.inr ⟨front, u, rfl, hu⟩)
  · rintro (hhere | hnil | ⟨front, u, rfl, hu⟩)
    · exact .inl hhere
    · exact .inr ⟨[], mem_afterSlashes.2 (.inl rfl), hnil⟩
    · exact .inr ⟨u, mem_afterSlashes.2 (.inr ⟨front, rfl⟩), hu⟩

/-! ### A directory of some name -/

theorem joinSlashes_append {parts parts' : List (List Char)} (h : parts ≠ [])
    (h' : parts' ≠ []) :
    joinSlashes (parts ++ parts') = joinSlashes parts ++ '/' :: joinSlashes parts' := by
  induction parts with
  | nil => exact absurd rfl h
  | cons part rest ih =>
    rcases rest with - | ⟨next, rest⟩
    · exact joinSlashes_cons part h'
    · rw [List.cons_append,
        joinSlashes_cons part (List.append_ne_nil_of_right_ne_nil _ h'),
        ih (List.cons_ne_nil _ _), joinSlashes_cons part (List.cons_ne_nil _ _),
        List.append_assoc, List.cons_append]

/-- `**` and a slash at the front of a pattern are read as one part. -/
theorem tokensFrom_recursive (r : List Char) :
    tokensFrom 0 0 none [] ('*' :: '*' :: '/' :: r) =
      tokensFrom 0 3 (some '/') [.anyComponents] r :=
  rfl

section Directory

variable {name : String} (hplain : name.toList.any isWildcard = false)

include hplain

theorem parse_directory : Pattern.parse ("**/" ++ name ++ "/**") =
    .ok ⟨.anyComponents :: ((name.toList ++ ['/']).map .char ++ [.anyComponents])⟩ := by
  have hfront : (name.toList ++ ['/']).any isWildcard = false := by
    rw [List.any_append, hplain]
    rfl
  have htext : ("**/" ++ name ++ "/**").toList =
      '*' :: '*' :: '/' :: ((name.toList ++ ['/']) ++ ['*', '*']) := by
    simp
  rw [Pattern.parse, htext, tokensFrom_recursive, tokensFrom_append hfront]
  have hend : addComponents
      (((name.toList ++ ['/']).map .char).reverse ++ [.anyComponents]) =
      .anyComponents ::
      (((name.toList ++ ['/']).map .char).reverse ++ [.anyComponents]) := by
    rw [List.map_append, List.reverse_append]
    rfl
  have htokens : tokensFrom 0 (3 + (name.toList ++ ['/']).length) (some '/')
      (((name.toList ++ ['/']).map .char).reverse ++ [.anyComponents]) ['*', '*'] =
        .ok (addComponents (((name.toList ++ ['/']).map .char).reverse ++
          [.anyComponents])).reverse :=
    rfl
  rw [List.getLast?_concat, Option.some_or, htokens, hend]
  simp

/-- `**/name/**` asks whether one of the names in front of the last one is that
name. -/
theorem covers_directory (hslash : '/' ∉ name.toList) {p : Pattern}
    (h : Pattern.parse ("**/" ++ name ++ "/**") = .ok p) (path : String) :
    p.covers path = true ↔ name ∈ (names path).dropLast := by
  rw [parse_directory hplain] at h
  obtain rfl := Except.ok.inj h
  have hchars (u : List Char) :
      coversAll ((name.toList ++ ['/']).map .char ++ [.anyComponents]) u = true ↔
        ∃ rest, u = name.toList ++ '/' :: rest := by
    rw [coversAll_chars]
    constructor
    · rintro ⟨rest, rfl, -⟩
      exact ⟨rest, List.append_assoc _ _ _⟩
    · rintro ⟨rest, rfl⟩
      exact ⟨rest, List.append_cons _ _ _, coversAll_anyComponents rest⟩
  have hparts (rest : List Char) :
      splitSlashes (name.toList ++ '/' :: rest) = name.toList :: splitSlashes rest := by
    rw [splitSlashes_append, splitSlashes_of_not_mem hslash]
    rfl
  have hdrop (front : List (List Char)) (rest : List Char) :
      name.toList ∈ (front ++ name.toList :: splitSlashes rest).dropLast := by
    rw [List.dropLast_append_of_ne_nil (List.cons_ne_nil _ _),
      List.dropLast_cons_of_ne_nil (splitSlashes_ne_nil rest)]
    exact List.mem_append_right _ List.mem_cons_self
  have hnames : name ∈ (names path).dropLast ↔
      name.toList ∈ (splitSlashes path.toList).dropLast := by
    rw [names, ← List.map_dropLast, List.mem_map]
    constructor
    · rintro ⟨part, hpart, rfl⟩
      rwa [String.toList_ofList]
    · intro hpart
      exact ⟨name.toList, hpart, String.ofList_toList⟩
  rw [hnames, Pattern.covers, coversAll_recursive, hchars, hchars]
  constructor
  · rintro (⟨rest, hrest⟩ | ⟨rest, hrest⟩ | ⟨front, u, hu, hcovers⟩)
    · rw [hrest, hparts]
      exact hdrop [] rest
    · exact absurd hrest.symm
        (List.append_ne_nil_of_right_ne_nil _ (List.cons_ne_nil _ _))
    · obtain ⟨rest, rfl⟩ := (hchars u).1 hcovers
      rw [hu, splitSlashes_append, hparts]
      exact hdrop _ rest
  · intro hmem
    -- the name is one of the parts, and something follows it
    obtain ⟨before, after, hsplit⟩ := List.append_of_mem hmem
    have hwhole := List.dropLast_concat_getLast (splitSlashes_ne_nil path.toList)
    rw [hsplit, List.append_assoc, List.cons_append] at hwhole
    have htext := joinSlashes_splitSlashes path.toList
    rw [← hwhole] at htext
    have hafter :
        after ++ [(splitSlashes path.toList).getLast (splitSlashes_ne_nil _)] ≠ [] :=
      List.append_ne_nil_of_right_ne_nil _ (List.cons_ne_nil _ _)
    rcases before with - | ⟨first, before⟩
    · left
      rw [List.nil_append, joinSlashes_cons _ hafter] at htext
      exact ⟨_, htext.symm⟩
    · right
      right
      rw [joinSlashes_append (List.cons_ne_nil _ _) (List.cons_ne_nil _ _),
        joinSlashes_cons name.toList hafter] at htext
      exact ⟨_, _, htext.symm, (hchars _).2 ⟨_, rfl⟩⟩

/-- A name that is no part of the bases is asked for of the names behind
them. -/
theorem overlooks_directory (hproper : isProperName name = true) {p : Pattern}
    (h : Pattern.parse ("**/" ++ name ++ "/**") = .ok p) {base base' : String}
    (hbase : name ∉ names base) (hbase' : name ∉ names base') :
    p.Overlooks base base' := by
  obtain ⟨hidle, -, hslash⟩ := isProperName_iff.1 hproper
  have hbehind {base path : String} {below : List String} (hbase : name ∉ names base)
      (hpath : LiesBehind base below path) :
      p.covers path = true ↔ name ∈ below.dropLast := by
    obtain ⟨-, front, hnames, hsteps⟩ := hpath
    have hfront : name ∉ front := by
      intro hmem
      rcases mem_names_of_mem_front hsteps hmem with hstep | hmem
      · rw [hidle] at hstep
        cases hstep
      · exact hbase hmem
    rw [covers_directory hplain hslash h, hnames]
    rcases below with - | ⟨first, below⟩
    · rw [List.append_nil]
      constructor
      · intro hmem
        exact absurd (List.dropLast_subset _ hmem) hfront
      · intro hmem
        cases hmem
    · rw [List.dropLast_append_of_ne_nil (List.cons_ne_nil _ _), List.mem_append]
      constructor
      · intro hmem
        exact hmem.resolve_left hfront
      · exact .inr
  intro below path path' hpath hpath'
  rw [Bool.eq_iff_iff, hbehind hbase hpath, hbehind hbase' hpath']

end Directory

/-! ### An ending of the last name -/

theorem suffix_of_suffix_append {ending front last : List Char} (hslash : '/' ∉ ending)
    (h : ending <:+ front ++ '/' :: last) : ending <:+ last := by
  rcases List.suffix_or_suffix_of_suffix h (List.suffix_append front ('/' :: last))
      with hlast | hlast
  · rcases List.suffix_cons_iff.1 hlast with rfl | hlast
    · exact absurd List.mem_cons_self hslash
    · exact hlast
  · exact absurd (hlast.subset List.mem_cons_self) hslash

/-- How a path ends is how its last name ends. -/
theorem suffix_iff_of_names {ending : List Char} (hslash : '/' ∉ ending)
    {path last : String}
    {front : List String} (h : names path = front ++ [last]) :
    ending <:+ path.toList ↔ ending <:+ last.toList := by
  have hparts : splitSlashes path.toList = front.map String.toList ++ [last.toList] := by
    have hlists := congrArg (List.map String.toList) h
    rw [names, List.map_map, List.map_append] at hlists
    rw [← List.map_id (splitSlashes path.toList)]
    refine Eq.trans (List.map_congr_left fun part _ => ?_) hlists
    exact String.toList_ofList.symm
  have htext := joinSlashes_splitSlashes path.toList
  rw [hparts] at htext
  rcases hfront : front.map String.toList with - | ⟨first, rest⟩
  · rw [hfront] at htext
    rw [← htext]
    rfl
  · rw [hfront, joinSlashes_append (List.cons_ne_nil _ _) (List.cons_ne_nil _ _)] at htext
    rw [← htext]
    constructor
    · exact suffix_of_suffix_append hslash
    · intro hlast
      exact hlast.trans
        ((List.suffix_cons '/' last.toList).trans (List.suffix_append _ _))

section Ending

variable {ending : String} (hplain : ending.toList.any isWildcard = false)

include hplain

theorem parse_ending : Pattern.parse ("**/*" ++ ending) =
    .ok ⟨.anyComponents :: .anyText :: ending.toList.map .char⟩ := by
  have htext : ("**/*" ++ ending).toList = '*' :: '*' :: '/' :: '*' :: ending.toList := by
    simp
  have hstars : (ending.toList.takeWhile (· == '*')).length = 0 := by
    rcases hcases : ending.toList with - | ⟨c, r⟩
    · rfl
    · rw [hcases, List.any_cons, Bool.or_eq_false_iff, isWildcard, Bool.or_eq_false_iff,
        Bool.or_eq_false_iff] at hplain
      rw [List.takeWhile_cons, hplain.1.1.1]
      rfl
  have hstar : tokensFrom 0 3 (some '/') [.anyComponents] ('*' :: ending.toList) =
      tokensFrom 0 4 (some '*') [.anyText, .anyComponents] ending.toList := by
    rw [tokensFrom, hstars]
    rfl
  rw [Pattern.parse, htext, tokensFrom_recursive, hstar, tokensFrom_plain hplain]
  rfl

/-- `**/*ending` asks whether the path ends like that. -/
theorem covers_ending {p : Pattern} (h : Pattern.parse ("**/*" ++ ending) = .ok p)
    (path : String) :
    p.covers path = true ↔ ending.toList <:+ path.toList := by
  rw [parse_ending hplain] at h
  obtain rfl := Except.ok.inj h
  have hany (u : List Char) :
      coversAll (.anyText :: ending.toList.map .char) u = true ↔ ending.toList <:+ u := by
    rw [coversAll, List.any_eq_true]
    constructor
    · rintro ⟨v, hv, hcovers⟩
      rw [coversAll_literal.1 hcovers] at hv
      exact mem_suffixes.1 hv
    · intro hsuffix
      exact ⟨ending.toList, mem_suffixes.2 hsuffix, coversAll_literal.2 rfl⟩
  rw [Pattern.covers, coversAll_recursive, hany, hany]
  constructor
  · rintro (hsuffix | hsuffix | ⟨front, u, hu, hcovers⟩)
    · exact hsuffix
    · rw [List.suffix_nil.1 hsuffix]
      exact List.nil_suffix
    · rw [hu]
      exact ((hany u).1 hcovers).trans
        ((List.suffix_cons '/' u).trans (List.suffix_append _ _))
  · exact .inl

/-- An ending that no name of the bases has is asked for of the names behind
them. -/
theorem overlooks_ending (hslash : '/' ∉ ending.toList) {p : Pattern}
    (h : Pattern.parse ("**/*" ++ ending) = .ok p)
    (hidle : ∀ name, isIdle name = true → ¬ ending.toList <:+ name.toList)
    {base base' : String}
    (hbase : ∀ name ∈ names base, ¬ ending.toList <:+ name.toList)
    (hbase' : ∀ name ∈ names base', ¬ ending.toList <:+ name.toList) :
    p.Overlooks base base' := by
  have hbehind {base path : String} {below : List String}
      (hbase : ∀ name ∈ names base, ¬ ending.toList <:+ name.toList)
      (hpath : LiesBehind base below path) :
      p.covers path = true ↔ ∃ last, below.getLast? = some last ∧
        ending.toList <:+ last.toList := by
    obtain ⟨-, front, hnames, hsteps⟩ := hpath
    rw [covers_ending hplain h]
    rcases List.eq_nil_or_concat below with rfl | ⟨before, last, rfl⟩
    · rw [List.append_nil] at hnames
      rcases List.eq_nil_or_concat front with rfl | ⟨before, last, rfl⟩
      · exact absurd hnames (names_ne_nil path)
      · rw [List.concat_eq_append] at hnames hsteps
        rw [suffix_iff_of_names hslash hnames]
        constructor
        · intro hlast
          rcases mem_names_of_mem_front hsteps
              (List.mem_append_right _ (List.mem_singleton_self last))
            with hstep | hmem
          · exact absurd hlast (hidle last hstep)
          · exact absurd hlast (hbase last hmem)
        · rintro ⟨last, hnone, -⟩
          cases hnone
    · rw [List.concat_eq_append, ← List.append_assoc] at hnames
      rw [suffix_iff_of_names hslash hnames, List.concat_eq_append, List.getLast?_concat]
      simp
  intro below path path' hpath hpath'
  rw [Bool.eq_iff_iff, hbehind hbase hpath, hbehind hbase' hpath']

end Ending

end AnimLint.Glob

namespace AnimLint

open Files

/-! ### Test files -/

/-- How the names of test files end. -/
def testEndings : List String :=
  [".test.js", ".test.jsx", ".test.ts", ".test.tsx", ".spec.js", ".spec.jsx",
    ".spec.ts", ".spec.tsx"]

theorem testPatterns_eq :
    testPatterns = testEndings.map ("**/*" ++ ·) ++ ["**/" ++ "__tests__" ++ "/**"] := by
  decide

/-- Holds of the names that the patterns of test files ask for. -/
def isTestName (name : String) : Bool :=
  name == "__tests__" || testEndings.any (·.toList.isSuffixOf name.toList)

theorem mem_readable {p : Glob.Pattern} {texts : List String}
    (h : p ∈ Ignores.readable texts) :
    ∃ text ∈ texts, Glob.Pattern.parse text = .ok p := by
  obtain ⟨text, htext, hp⟩ := List.mem_filterMap.1 h
  refine ⟨text, htext, ?_⟩
  rcases hparse : Glob.Pattern.parse text with e | q
  · rw [hparse] at hp
    cases hp
  · rw [hparse] at hp
    exact congrArg Except.ok (Option.some.inj hp)

/-- The patterns of test files overlook bases of which no name is that of a test
file. -/
theorem overlooks_testPatterns {base base' : String}
    (hbase : (names base).any isTestName = false)
    (hbase' : (names base').any isTestName = false) :
    ∀ p ∈ Ignores.readable testPatterns, p.Overlooks base base' := by
  intro p hp
  obtain ⟨text, htext, hparse⟩ := mem_readable hp
  have hname {base : String} (hbase : (names base).any isTestName = false) {name : String}
      (hmem : name ∈ names base) :
      name ≠ "__tests__" ∧ ∀ ending ∈ testEndings, ¬ ending.toList <:+ name.toList := by
    have hnone : isTestName name = false := by
      simpa using List.any_eq_false.1 hbase name hmem
    rw [isTestName, Bool.or_eq_false_iff, List.any_eq_false] at hnone
    refine ⟨by simpa using hnone.1, fun ending hending hsuffix => ?_⟩
    exact hnone.2 ending hending (List.isSuffixOf_iff_suffix.2 hsuffix)
  rw [testPatterns_eq, List.mem_append, List.mem_map, List.mem_singleton] at htext
  rcases htext with ⟨ending, hending, rfl⟩ | rfl
  · have hplain : ∀ ending ∈ testEndings, ending.toList.any Glob.isWildcard = false ∧
        '/' ∉ ending.toList ∧ ¬ ending.toList <:+ "".toList ∧
        ¬ ending.toList <:+ ".".toList := by
      decide
    obtain ⟨hplain, hslash, hempty, hdot⟩ := hplain ending hending
    refine Glob.overlooks_ending hplain hslash hparse (fun name hidle => ?_)
      (fun name hmem => (hname hbase hmem).2 ending hending)
      (fun name hmem => (hname hbase' hmem).2 ending hending)
    rw [isIdle, Bool.or_eq_true, decide_eq_true_eq, decide_eq_true_eq] at hidle
    rcases hidle with rfl | rfl
    · exact hempty
    · exact hdot
  · exact Glob.overlooks_directory (by decide) (by decide) hparse
      (fun hmem => (hname hbase hmem).1 rfl) (fun hmem => (hname hbase' hmem).1 rfl)

end AnimLint
