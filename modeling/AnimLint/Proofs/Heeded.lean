/-
AnimLint/Proofs/Heeded.lean

What valid settings say is heeded, and where it is not.  Every ignored entry is
kept, as a path or as a pattern.  An included pattern is tried as a whole when
the settings are validated, but part by part, and behind the base directory,
when it is expanded: it is refused if and only if some part of it or of the base
cannot be read.  A keyword is compared with callees whose blanks at the end are
dropped, so one that ends with a blank stands for no callee, and any other for
all that end with it.

Main results: `Settings.invalid_eq_none_iff`, `exists_badInclude_iff`,
`Target.covers_of_endsIn`, `valid_settings_heeded`.
-/
import AnimLint.Project
import AnimLint.Proofs.Gaps
import AnimLint.Proofs.PatternParts
import Mathlib.Tactic.SplitIfs

namespace AnimLint

open Files Glob

/-! ### What validation asks for -/

namespace Settings

theorem invalidGlob_eq_none_iff {field : Field} {patterns : List String} :
    invalidGlob? field patterns = none ↔
      ∀ pattern ∈ patterns, isReadable pattern = true := by
  rw [invalidGlob?, List.findSome?_eq_none_iff]
  refine forall₂_congr fun pattern _ => ?_
  rcases hparse : Pattern.parse pattern with e | p
  · rw [isReadable, hparse]
    constructor
    · intro h
      cases h
    · intro h
      cases h
  · rw [isReadable, hparse]
    exact ⟨fun _ => rfl, fun _ => rfl⟩

/-- Settings are valid if every ignored entry can be read as a pattern, and
every included one that looks like a pattern, and if there are keywords and none
of them is blank. -/
theorem invalid_eq_none_iff {settings : Settings} : settings.invalid? = none ↔
    (∀ text ∈ settings.ignores, isReadable text = true) ∧
      (∀ text ∈ settings.includes, isPattern text = true → isReadable text = true) ∧
      settings.keywords ≠ [] ∧
      ∀ k ∈ settings.keywords, k.toList.all Text.isBlank = false := by
  have hincludes : (∀ text ∈ settings.includes.filter isPattern, isReadable text = true) ↔
      ∀ text ∈ settings.includes, isPattern text = true → isReadable text = true := by
    simp only [List.mem_filter, and_imp]
  rw [invalid?, ← @invalidGlob_eq_none_iff .ignores, ← hincludes,
    ← @invalidGlob_eq_none_iff .includes]
  rcases invalidGlob? .ignores settings.ignores with - | reason
  · rcases invalidGlob? .includes (settings.includes.filter isPattern) with - | reason
    · show (if settings.keywords.isEmpty then some Invalid.noKeywords
        else if settings.keywords.any fun k =>
          k.toList.all Text.isBlank then some .blankKeyword
        else none) = none ↔ _
      rw [← List.isEmpty_eq_false_iff]
      split_ifs with hempty hblank
      · exact ⟨fun h => (nomatch h), fun h => absurd hempty (Bool.eq_false_iff.1 h.2.2.1)⟩
      · obtain ⟨k, hk, hall⟩ := List.any_eq_true.1 hblank
        exact ⟨fun h => (nomatch h),
          fun h => absurd hall (Bool.eq_false_iff.1 (h.2.2.2 k hk))⟩
      · rw [Bool.not_eq_true] at hempty hblank
        exact ⟨fun _ => ⟨rfl, rfl, hempty,
          fun k hk => Bool.eq_false_iff.2 (List.any_eq_false.1 hblank k hk)⟩,
          fun _ => rfl⟩
    · exact ⟨fun h => (nomatch h), fun h => (nomatch h.2.1)⟩
  · exact ⟨fun h => (nomatch h), fun h => (nomatch h.1)⟩

end Settings

/-! ### What is heeded -/

/-- An ignored entry that can be read is kept, as the path that it names from
the base or as a pattern. -/
theorem Ignores.kept_of_isReadable {request : SurveyRequest} {text : String}
    (h : text ∈ request.ignores) (hread : isReadable text = true) :
    (isPattern text = false ∧ join request.base text ∈ (ofRequest request).paths) ∨
      ∃ p, isPattern text = true ∧ Pattern.parse text = .ok p ∧
        p ∈ (ofRequest request).patterns := by
  rcases hpattern : isPattern text with - | -
  · refine .inl ⟨rfl, List.mem_map_of_mem (List.mem_filter.2 ⟨h, ?_⟩)⟩
    rw [hpattern]
    rfl
  · obtain ⟨p, hp⟩ := exists_of_isReadable hread
    refine .inr ⟨p, rfl, hp, List.mem_append_left _ (List.mem_filterMap.2 ⟨text, ?_, ?_⟩)⟩
    · exact List.mem_filter.2 ⟨h, hpattern⟩
    · rw [hp]
      rfl

theorem ignoreWarnings_eq_nil {request : SurveyRequest}
    (h : ∀ text ∈ request.ignores, isReadable text = true) :
    ignoreWarnings request = [] := by
  rw [ignoreWarnings, List.filterMap_eq_nil_iff]
  intro text htext
  obtain ⟨p, hp⟩ := exists_of_isReadable (h text (List.mem_filter.1 htext).1)
  rw [hp]

/-- The parts that an included entry is expanded by: those of the base, unless
the entry starts at the root, and its own. -/
def expandedParts (base text : String) : List String :=
  (if isAbsolute text then [] else pathParts base) ++ pathParts text

theorem pathParts_join_eq (base text : String) :
    pathParts (join base text) = expandedParts base text := by
  rw [expandedParts]
  rcases htext : isAbsolute text with - | -
  · have hstem := stem_eq_pathParts text
    rw [htext] at hstem
    rw [pathParts_join htext, hstem]
    rfl
  · have hroot : (text.toList.head? == some '/') = true := htext
    rw [join, hroot]
    rfl

/-- An entry is refused where it is expanded. -/
theorem rootsOf_badInclude_iff {fs : FileSystem} {base text other : String}
    {e : PatternError} :
    rootsOf fs base other = .error (.badInclude text e) ↔
      other = text ∧ isPattern text = true ∧ expand fs (join base text) = .error e := by
  rw [rootsOf]
  rcases hpattern : isPattern other with - | -
  · have hplain :
        ¬(other = text ∧ isPattern text = true ∧ expand fs (join base text) =
          .error e) := by
      rintro ⟨rfl, h, -⟩
      rw [hpattern] at h
      cases h
    simp only [Bool.not_false, if_true, hplain, iff_false]
    split <;> nofun
  · simp only [Bool.not_true, Bool.false_eq_true, if_false]
    split
    · next e' he =>
      constructor
      · intro h
        obtain ⟨rfl, rfl⟩ := SurveyWarning.badInclude.inj (Except.error.inj h)
        exact ⟨rfl, hpattern, he⟩
      · rintro ⟨rfl, -, h⟩
        rw [he] at h
        rw [Except.error.inj h]
    · next found hfound =>
      refine ⟨nofun, ?_⟩
      rintro ⟨rfl, -, h⟩
      rw [hfound] at h
      cases h

theorem badInclude_mem_scanRoots_iff {fs : FileSystem} {request : SurveyRequest}
    {text : String}
    {e : PatternError} : .badInclude text e ∈ (scanRoots fs request).2 ↔
      text ∈ request.includes ∧ isPattern text = true ∧
      expand fs (join request.base text) = .error e := by
  rw [scanRoots]
  split
  · next hempty =>
    rw [List.isEmpty_iff.1 hempty]
    exact ⟨nofun, nofun⟩
  · rw [List.mem_filterMap]
    constructor
    · rintro ⟨result, hresult, hwarning⟩
      obtain ⟨other, hother, rfl⟩ := List.mem_map.1 hresult
      split at hwarning
      · cases hwarning
      · next hroots =>
        rw [Option.some.inj hwarning] at hroots
        obtain ⟨rfl, hpattern, he⟩ := rootsOf_badInclude_iff.1 hroots
        exact ⟨hother, hpattern, he⟩
    · rintro ⟨htext, hpattern, he⟩
      refine ⟨_, List.mem_map_of_mem htext, ?_⟩
      rw [rootsOf_badInclude_iff.2 ⟨rfl, hpattern, he⟩]

/-- **An included entry is refused if and only if it is a pattern and some part
of it, or of the base that it is seen from, cannot be read.** -/
theorem exists_badInclude_iff {fs : FileSystem} {request : SurveyRequest} {text : String}
    (htext : text ∈ request.includes) :
    (∃ e, .badInclude text e ∈ (scanRoots fs request).2) ↔
      isPattern text = true ∧ ∃ part ∈ expandedParts request.base text,
        isReadable part = false := by
  have hexpand : (∃ e, expand fs (join request.base text) = .error e) ↔
      ∃ part ∈ expandedParts request.base text, isReadable part = false := by
    have hok := @isOk_expand_iff fs (join request.base text)
    rw [pathParts_join_eq] at hok
    rcases hexpand : expand fs (join request.base text) with e | found
    · rw [hexpand] at hok
      refine ⟨fun _ => ?_, fun _ => ⟨e, rfl⟩⟩
      simpa only [Classical.not_forall, Bool.not_eq_true, exists_prop]
        using mt hok.2 nofun
    · rw [hexpand] at hok
      refine ⟨nofun, ?_⟩
      rintro ⟨part, hpart, hbad⟩
      rw [hok.1 rfl part hpart] at hbad
      cases hbad
  rw [← hexpand, ← exists_and_left]
  refine exists_congr fun e => ?_
  rw [badInclude_mem_scanRoots_iff]
  exact and_iff_right htext

/-- Holds of texts with a blank at their end. -/
def endsBlank (text : String) : Bool := text.toList.getLast?.any Text.isBlank

/-- What is left of a text without its blanks at the end does not end with a
blank. -/
theorem getLast_trimEnd (s : List Char) :
    (Text.trimEnd s).getLast?.any Text.isBlank = false := by
  induction s with
  | nil => rfl
  | cons c s ih =>
    rw [Text.trimEnd]
    rcases hs : Text.trimEnd s with - | ⟨d, kept⟩
    · by_cases hc : Text.isBlank c = true
      · simp only [hc, if_true]
        rfl
      · simp only [hc, Bool.false_eq_true, if_false]
        exact Bool.eq_false_iff.2 hc
    · rw [hs] at ih
      rw [List.getLast?_cons_cons]
      exact ih

/-- What `Target.covers` says of a single keyword. -/
theorem Target.covers_keyword_eq (k : String) (callee : List Char) :
    (⟨[k], []⟩ : Target).covers callee = k.toList.isSuffixOf (Text.trimEnd callee) := by
  rw [covers, List.any_cons, List.any_nil, Bool.or_false, Bool.not_false, Bool.and_true]
  rfl

/-- A keyword that does not end with a blank stands for all callees that end
with it. -/
theorem Target.covers_of_endsIn {k : String} (hk : k.toList.all Text.isBlank = false)
    (hlast : endsBlank k = false) {callee : List Char} (h : endsIn callee k = true) :
    (⟨[k], []⟩ : Target).covers callee = true := by
  obtain ⟨front, hfront⟩ := List.isSuffixOf_iff_suffix.1 h
  rw [covers_keyword_eq, List.isSuffixOf_iff_suffix]
  rcases List.eq_nil_or_concat k.toList with hnil | ⟨start, c, hstart⟩
  · rw [hnil] at hk
    cases hk
  · rw [List.concat_eq_append] at hstart
    have hc : Text.isBlank c = false := by
      rw [endsBlank, hstart, List.getLast?_concat] at hlast
      exact hlast
    have htrim := trimEnd_append_cons hc (front ++ start) []
    rw [← hfront, hstart, ← List.append_assoc, htrim, List.append_assoc]
    exact List.suffix_append front _

/-- A keyword that ends with a blank stands for no callee. -/
theorem Target.covers_of_endsBlank {k : String} (h : endsBlank k = true)
    (callee : List Char) :
    (⟨[k], []⟩ : Target).covers callee = false := by
  rw [covers_keyword_eq, Bool.eq_false_iff]
  intro hends
  obtain ⟨front, hfront⟩ := List.isSuffixOf_iff_suffix.1 hends
  have hlast := getLast_trimEnd callee
  rw [endsBlank] at h
  rcases hc : k.toList.getLast? with - | c
  · rw [hc] at h
    cases h
  · rw [← hfront, List.getLast?_append, hc] at hlast
    rw [hc] at h
    exact Bool.false_ne_true (hlast.symm.trans h)

/-- **What valid settings say is heeded**, whatever the base directory, up to
classes and blanks.  Every ignored entry is kept, and none is warned of.  An
included entry is refused if and only if it is a pattern and a part of it, or of
the base that it is seen from, cannot be read; behind a base without wildcards
no entry without classes is refused.  A keyword stands for all callees that end
with it unless it ends with a blank, and then for none. -/
theorem valid_settings_heeded {settings : Settings}
    (hvalid : settings.invalid? = none) (fs : FileSystem) (base : String) :
    ((∀ text ∈ settings.ignores,
        (isPattern text = false ∧
          join base text ∈ (Ignores.ofRequest (Project.request base settings)).paths) ∨
        ∃ p, isPattern text = true ∧ Pattern.parse text = .ok p ∧
          p ∈ (Ignores.ofRequest (Project.request base settings)).patterns) ∧
      ignoreWarnings (Project.request base settings) = []) ∧
    (∀ text ∈ settings.includes,
      ((∃ e, .badInclude text e ∈ (scanRoots fs (Project.request base settings)).2) ↔
        isPattern text = true ∧
        ∃ part ∈ expandedParts base text, isReadable part = false) ∧
      (base.toList.any isWildcard = false → '[' ∉ text.toList →
        ∀ e, .badInclude text e ∉ (scanRoots fs (Project.request base settings)).2)) ∧
    ∀ k ∈ settings.keywords,
      (endsBlank k = false → ∀ callee, Target.endsIn callee k = true →
        (⟨[k], []⟩ : Target).covers callee = true) ∧
      (endsBlank k = true → ∀ callee, (⟨[k], []⟩ : Target).covers callee = false) := by
  obtain ⟨hignores, hincludes, -, hkeywords⟩ := Settings.invalid_eq_none_iff.1 hvalid
  refine ⟨⟨?_, ignoreWarnings_eq_nil hignores⟩,
    fun text htext => ?_, fun k hk => ⟨?_, ?_⟩⟩
  · intro text htext
    have hentry : text ∈ (Project.request base settings).ignores := htext
    exact Ignores.kept_of_isReadable hentry (hignores text htext)
  · have hentry : text ∈ (Project.request base settings).includes := htext
    refine ⟨exists_badInclude_iff hentry, fun hbase hbracket e he => ?_⟩
    obtain ⟨hpattern, part, hpart, hbad⟩ := (exists_badInclude_iff hentry).1 ⟨e, he⟩
    have hread : isReadable part = true := by
      rcases List.mem_append.1 hpart with hpart | hpart
      · split at hpart
        · cases hpart
        · exact isReadable_of_plain (List.any_eq_false.2 fun c hc =>
            List.any_eq_false.1 hbase c (mem_of_mem_pathParts hpart hc))
      · exact isReadable_part hbracket (hincludes text htext hpattern) hpart
    rw [hread] at hbad
    cases hbad
  · exact fun hlast callee => Target.covers_of_endsIn (hkeywords k hk) hlast
  · exact Target.covers_of_endsBlank

/-- A base with a bracket in it has a pattern behind it refused, though not one
that has none; and a keyword with a blank at its end stands for no callee. -/
theorem valid_settings_heeded_bracketBase :
    let settings : Settings :=
      ⟨["src/*"], ["**/dist/**", "lib"], false, [".to", ".set "], []⟩
    let fs : FileSystem := ⟨.empty, []⟩
    settings.invalid? = none ∧
      ignoreWarnings (Project.request "lab[1" settings) = [] ∧
      (∃ e, .badInclude "src/*" e ∈ (scanRoots fs (Project.request "lab[1" settings)).2) ∧
      (∀ e, .badInclude "src/*" e ∉ (scanRoots fs (Project.request "lab" settings)).2) ∧
      (⟨[".to"], []⟩ : Target).covers "gsap.to".toList = true ∧
      (⟨[".set "], []⟩ : Target).covers "gsap.set ".toList = false := by
  intro settings fs
  have hvalid : settings.invalid? = none := by decide
  obtain ⟨⟨-, hwarnings⟩, hbracket, hkeywords⟩ := valid_settings_heeded hvalid fs "lab[1"
  obtain ⟨-, hplain, -⟩ := valid_settings_heeded hvalid fs "lab"
  refine ⟨hvalid, hwarnings,
    (hbracket "src/*" (by decide)).1.2 ⟨by decide, "lab[1", by decide, by decide⟩,
    (hplain "src/*" (by decide)).2 (by decide) (by decide), ?_, ?_⟩
  · exact (hkeywords ".to" (by decide)).1 (by decide) _ (by decide)
  · exact (hkeywords ".set " (by decide)).2 (by decide) _

/-- Without the conditions entries of valid settings are overlooked: a pattern
behind a base with a bracket, a pattern with a slash in a class behind any base,
and a keyword with a blank at its end. -/
theorem valid_settings_overlooked :
    let settings : Settings := ⟨["src/*", "src/[a/b]*"], [], false, [".to "], []⟩
    let fs : FileSystem := ⟨.empty, []⟩
    settings.invalid? = none ∧
      .badInclude "src/*" ⟨3, .range⟩ ∈
        (scanRoots fs (Project.request "lab[1" settings)).2 ∧
      .badInclude "src/[a/b]*" ⟨0, .range⟩ ∈
        (scanRoots fs (Project.request "." settings)).2 ∧
      Target.endsIn "gsap.to ".toList ".to " = true ∧
      settings.target.covers "gsap.to ".toList = false := by
  decide

end AnimLint
