/-
AnimLint/Proofs/Expansion.lean

One step of the expansion of a pattern, and the components that it takes as they
stand.  With one more step to go, a component without wildcards is looked up
(`expandFrom_literal`), and one with wildcards is tried on each entry of the
directory reached so far (`expandFrom_wild`); either way what is found is found
one step further on (`exists_step_of_mem`).  Names without wildcards in front of
a pattern only say where it is expanded from (`expandFrom_names`), and a text
without wildcards is read as its characters (`parse_plain`).
-/
import AnimLint.Proofs.PathText

namespace AnimLint.Glob

open Files

/-! ### One step -/

section Step

variable (fs : FileSystem) (directoryOnly : Bool) (n : Nat) (path : String)

/-- How the expansion goes on from a path with the components that are left. -/
def onward (ps : List Pattern) : List String :=
  if !ps.isEmpty then expandFrom fs directoryOnly n path ps
  else if directoryOnly && !fs.hasDirectory path then []
  else [path]

/-- Holds if a component that stands for itself leads on from a path. -/
def leadsOn (name : String) : Bool :=
  if name == "." || name == ".." then fs.hasDirectory path else
    isThere fs (under path name)

/-- The components that an entry is tried on: a recursive one stands aside for
those behind it. -/
def triedOn (p : Pattern) (ps : List Pattern) : List Pattern :=
  if p.isRecursive then ps.dropWhile (·.isRecursive) else p :: ps

/-- What an entry of a directory gives if the next component is tried on it. -/
def visitHere (name : String) : List Pattern → List String
  | [] => if fs.hasDirectory (under path name) then [under path name] else []
  | q :: qs => if q.covers name then
    onward fs directoryOnly n (under path name) qs else []

/-- What lies below an entry of a directory, for a recursive component. -/
def visitBelow (p : Pattern) (ps : List Pattern) (name : String) : List String :=
  if p.isRecursive && fs.hasDirectory (under path name) then
    expandFrom fs directoryOnly n (under path name) (p :: triedOn p ps)
  else []

/-- What one of the names `.` and `..` gives, which only a component with a `.`
at its front stands for. -/
def visitDots (p : Pattern) (ps : List Pattern) (name : String) : List String :=
  if p.tokens.head? == some (.char '.') && p.covers name then
    onward fs directoryOnly n (join path name) ps
  else []

variable {fs directoryOnly n path} {p : Pattern} (ps : List Pattern)

theorem expandFrom_literal {name : List Char} (h : p.literal? = some name) :
    expandFrom fs directoryOnly (n + 1) path (p :: ps) =
      if leadsOn fs path (String.ofList name) then
        onward fs directoryOnly n (under path (String.ofList name)) ps
      else [] := by
  rw [expandFrom, h]
  rfl

theorem expandFrom_wild (h : p.literal? = none) :
    expandFrom fs directoryOnly (n + 1) path (p :: ps) =
      if !fs.hasDirectory path then []
      else
        (namesIn fs path).flatMap (fun name =>
            visitHere fs directoryOnly n path name (triedOn p ps) ++
              visitBelow fs directoryOnly n path p ps name) ++
          visitDots fs directoryOnly n path p ps "." ++
          visitDots fs directoryOnly n path p ps ".." := by
  rw [expandFrom, h]
  rfl

end Step

/-- What one component does at a path: it goes on by a name to another path, and
leaves components to expand from there. -/
inductive Step (fs : FileSystem) (path : String) (p : Pattern) (ps : List Pattern) :
    String → String → List Pattern → Prop
  | literal {name : List Char} : p.literal? = some name →
      Step fs path p ps (String.ofList name) (under path (String.ofList name)) ps
  | entry {name : String} {q : Pattern} {qs : List Pattern} : p.literal? = none →
      name ∈ namesIn fs path → triedOn p ps = q :: qs →
      Step fs path p ps name (under path name) qs
  | last {name : String} : p.literal? = none → name ∈ namesIn fs path →
    triedOn p ps = [] →
      Step fs path p ps name (under path name) []
  | down {name : String} : p.literal? = none → name ∈ namesIn fs path →
    p.isRecursive = true →
      Step fs path p ps name (under path name) (p :: triedOn p ps)
  | dots {name : String} : p.literal? = none → name = "." ∨ name = ".." →
      p.tokens.head? = some (.char '.') → p.covers name = true →
      Step fs path p ps name (join path name) ps

/-- What is found is found one step further on. -/
theorem exists_step_of_mem {fs : FileSystem} {directoryOnly : Bool} {n : Nat}
    {path found : String} {p : Pattern} {ps : List Pattern}
    (h : found ∈ expandFrom fs directoryOnly (n + 1) path (p :: ps)) :
    ∃ name next qs, Step fs path p ps name next qs ∧
      found ∈ onward fs directoryOnly n next qs := by
  rcases hliteral : p.literal? with - | name
  · have hdots {name : String} (hname : name = "." ∨ name = "..")
        (h : found ∈ visitDots fs directoryOnly n path p ps name) :
        ∃ name next qs, Step fs path p ps name next qs ∧
          found ∈ onward fs directoryOnly n next qs := by
      unfold visitDots at h
      split at h
      · next hcovers =>
        rw [Bool.and_eq_true, beq_iff_eq] at hcovers
        exact ⟨name, _, _, .dots hliteral hname hcovers.1 hcovers.2, h⟩
      · cases h
    rw [expandFrom_wild ps hliteral] at h
    split at h
    · cases h
    · rw [List.mem_append, List.mem_append, or_assoc] at h
      rcases h with h | h | h
      · obtain ⟨name, hname, h⟩ := List.mem_flatMap.1 h
        rcases List.mem_append.1 h with h | h
        · rcases htried : triedOn p ps with - | ⟨q, qs⟩
          · rw [htried, visitHere] at h
            split at h
            · next hdirectory =>
              refine ⟨name, _, _, .last hliteral hname htried, ?_⟩
              rw [onward, hdirectory]
              simpa using h
            · cases h
          · rw [htried, visitHere] at h
            split at h
            · exact ⟨name, _, _, .entry hliteral hname htried, h⟩
            · cases h
        · unfold visitBelow at h
          split at h
          · next hbelow =>
            rw [Bool.and_eq_true] at hbelow
            exact ⟨name, _, _, .down hliteral hname hbelow.1, h⟩
          · cases h
      · exact hdots (.inl rfl) h
      · exact hdots (.inr rfl) h
  · rw [expandFrom_literal ps hliteral] at h
    split at h
    · exact ⟨_, _, _, .literal hliteral, h⟩
    · cases h

theorem triedOn_subset (p : Pattern) (ps : List Pattern) : triedOn p ps ⊆ p :: ps := by
  unfold triedOn
  split
  · exact fun q hq => List.mem_cons_of_mem p ((List.dropWhile_sublist _).subset hq)
  · exact fun q hq => hq

/-- No other components are left than there were. -/
theorem Step.subset {fs : FileSystem} {path name next : String} {p : Pattern}
    {ps qs : List Pattern}
    (h : Step fs path p ps name next qs) : qs ⊆ p :: ps := by
  cases h with
  | literal => exact List.subset_cons_self p ps
  | entry _ _ htried =>
    intro q hq
    apply triedOn_subset p ps
    rw [htried]
    exact List.mem_cons_of_mem _ hq
  | last => exact List.nil_subset _
  | down => exact List.cons_subset.2 ⟨List.mem_cons_self, triedOn_subset p ps⟩
  | dots => exact List.subset_cons_self p ps

/-- What a directory holds has a proper name. -/
theorem proper_of_namesIn {fs : FileSystem} (hwell : fs.root.isWellNamed = true)
    {path name : String}
    (h : name ∈ namesIn fs path) : isProperName name = true := by
  unfold namesIn at h
  split at h
  · next node hnode =>
    obtain ⟨found, hlocate⟩ := FileSystem.locate_of_node hnode
    have hnode :=
      Node.isWellNamed_of_descend hwell (FileSystem.node_of_locate hlocate).symm
    obtain ⟨⟨other, child⟩, hmem, rfl⟩ := List.mem_map.1 h
    cases node with
    | directory entries => exact (Node.lookup_of_areWellNamed hnode hmem).1
    | file content => cases hmem
    | link target => cases hmem
  · cases h

/-! ### Names without wildcards -/

/-- Holds of the characters that a pattern does not take for themselves. -/
def isWildcard (c : Char) : Bool := c == '*' || c == '?' || c == '['

/-- The pattern that stands for a name and nothing else. -/
def Pattern.ofName (name : String) : Pattern := ⟨name.toList.map .char⟩

@[simp] theorem literal?_ofName (name : String) :
    (Pattern.ofName name).literal? = some name.toList := by
  rw [Pattern.literal?, Pattern.ofName]
  show Glob.literal? (name.toList.map .char) = some name.toList
  induction name.toList with
  | nil => rfl
  | cons c cs ih =>
    rw [List.map_cons, Glob.literal?, ih]
    rfl

/-- Characters that are no wildcards are read as they are, whatever follows. -/
theorem tokensFrom_append {cs : List Char} (h : cs.any isWildcard = false)
    (position : Nat)
    (last : Option Char) (before : List Token) (r : List Char) :
    tokensFrom 0 position last before (cs ++ r) =
      tokensFrom 0 (position + cs.length) (cs.getLast?.or last)
        ((cs.map .char).reverse ++ before) r := by
  induction cs generalizing position last before with
  | nil => rfl
  | cons c cs ih =>
    rw [List.any_cons, Bool.or_eq_false_iff, isWildcard, Bool.or_eq_false_iff,
      Bool.or_eq_false_iff] at h
    obtain ⟨⟨⟨hstar, hmark⟩, hbracket⟩, hrest⟩ := h
    have hlast : (c :: cs).getLast?.or last = cs.getLast?.or (some c) := by
      rw [List.getLast?_cons]
      cases cs.getLast? <;> rfl
    rw [List.cons_append, tokensFrom, hmark, hbracket, hstar, hlast, List.length_cons,
      List.map_cons, List.reverse_cons, List.append_assoc, List.singleton_append,
      Nat.add_comm cs.length,
      ← Nat.add_assoc, ← ih hrest]
    rfl

theorem tokensFrom_plain {cs : List Char} (h : cs.any isWildcard = false) (position : Nat)
    (last : Option Char) (before : List Token) :
    tokensFrom 0 position last before cs = .ok (before.reverse ++ cs.map .char) := by
  have happend := tokensFrom_append h position last before []
  rw [List.append_nil] at happend
  rw [happend, tokensFrom, List.reverse_append, List.reverse_reverse]

/-- Holds of characters, or the start of a text, behind which `**` may stand. -/
def endsComponent (last : Option Char) : Bool := !(last.isSome && last != some '/')

/-- Whether the rest of a text can be read does not depend on what stands in
front of it, but for whether `**` may stand there. -/
theorem isOk_tokensFrom {cs : List Char} {skip position position' : Nat}
    {last last' : Option Char}
    {before before' : List Token} (h : endsComponent last = endsComponent last') :
    (tokensFrom skip position last before cs).isOk =
      (tokensFrom skip position' last' before' cs).isOk := by
  induction cs generalizing skip position position' last last' before before' with
  | nil => rfl
  | cons c r ih =>
    cases skip with
    | succ k => exact ih rfl
    | zero =>
      rw [tokensFrom, tokensFrom]
      split
      · exact ih rfl
      · split
        · split
          · exact ih rfl
          · rfl
        · split
          · split
            · exact ih rfl
            · rw [endsComponent, endsComponent, Bool.not_inj_iff] at h
              rw [h]
              split
              · rfl
              · split
                · rfl
                · exact ih rfl
                · rfl
            · rfl
          · exact ih rfl

theorem isOk_parse (text : String) :
    (Pattern.parse text).isOk = (tokensFrom 0 0 none [] text.toList).isOk := by
  rw [Pattern.parse]
  rcases tokensFrom 0 0 none [] text.toList with e | tokens <;> rfl

/-- A text without wildcards is read as its characters. -/
theorem parse_plain {text : String} (h : text.toList.any isWildcard = false) :
    Pattern.parse text = .ok (Pattern.ofName text) := by
  rw [Pattern.parse, tokensFrom_plain h]
  rfl

theorem mapM_parse_plain {texts : List String}
    (h : ∀ text ∈ texts, text.toList.any isWildcard = false) :
    texts.mapM Pattern.parse = .ok (texts.map Pattern.ofName) := by
  induction texts with
  | nil => rfl
  | cons text texts ih =>
    rw [List.mapM_cons, parse_plain (h text List.mem_cons_self),
      ih fun other hother => h other (List.mem_cons_of_mem text hother)]
    rfl

/-- What is read in front of a text stays in the pattern. -/
theorem mem_tokensFrom {cs : List Char} {skip position : Nat} {last : Option Char}
    {before tokens : List Token}
    (h : tokensFrom skip position last before cs = .ok tokens)
    {t : Token} (ht : t ∈ before) : t ∈ tokens := by
  have hcomponents {before : List Token} (ht : t ∈ before) :
      t ∈ addComponents before := by
    unfold addComponents
    split
    · exact ht
    · exact List.mem_cons_of_mem _ ht
  induction cs generalizing skip position last before with
  | nil =>
    rw [tokensFrom] at h
    obtain rfl := Except.ok.inj h
    exact List.mem_reverse.2 ht
  | cons c r ih =>
    cases skip with
    | succ k => exact ih h ht
    | zero =>
      rw [tokensFrom] at h
      split at h
      · exact ih h (List.mem_cons_of_mem _ ht)
      · split at h
        · split at h
          · exact ih h (List.mem_cons_of_mem _ ht)
          · cases h
        · split at h
          · split at h
            · exact ih h (List.mem_cons_of_mem _ ht)
            · split at h
              · cases h
              · split at h
                · obtain rfl := Except.ok.inj h
                  exact List.mem_reverse.2 (hcomponents ht)
                · exact ih h (hcomponents ht)
                · cases h
            · cases h
          · exact ih h (List.mem_cons_of_mem _ ht)

/-- Holds of the parts of a pattern that stand for themselves. -/
def Token.isChar : Token → Bool
  | .char _ => true
  | _ => false

theorem isChar_of_literal? {tokens : List Token} {name : List Char}
    (h : Glob.literal? tokens = some name) : ∀ t ∈ tokens, t.isChar = true := by
  induction tokens generalizing name with
  | nil =>
    intro t ht
    cases ht
  | cons first rest ih =>
    cases first with
    | char c =>
      obtain ⟨name', hrest, -⟩ := Option.map_eq_some_iff.1 h
      intro t ht
      rcases List.mem_cons.1 ht with rfl | ht
      · rfl
      · exact ih hrest t ht
    | anyChar => cases h
    | anyText => cases h
    | anyComponents => cases h
    | among specifiers => cases h
    | notAmong specifiers => cases h

theorem isChar_of_class? {s : List Char} {t : Token} {n : Nat}
    (h : class? s = some (t, n)) :
    t.isChar = false := by
  unfold class? at h
  split at h
  · obtain ⟨k, -, hk⟩ := Option.map_eq_some_iff.1 h
    obtain ⟨rfl, -⟩ := Prod.mk.inj hk
    rfl
  · cases h
  · obtain ⟨k, -, hk⟩ := Option.map_eq_some_iff.1 h
    obtain ⟨rfl, -⟩ := Prod.mk.inj hk
    rfl
  · cases h

theorem anyComponents_mem_addComponents (before : List Token) :
    Token.anyComponents ∈ addComponents before := by
  unfold addComponents
  split <;> exact List.mem_cons_self

/-- A text that is read as characters only has no wildcards. -/
theorem any_isWildcard_of_tokensFrom {cs : List Char} {position : Nat}
    {last : Option Char}
    {before tokens : List Token} (h : tokensFrom 0 position last before cs = .ok tokens)
    (hchar : ∀ t ∈ tokens, t.isChar = true) : cs.any isWildcard = false := by
  have hnone {skip position : Nat} {last : Option Char} {before : List Token}
      {cs : List Char}
      (h : tokensFrom skip position last before cs = .ok tokens) {t : Token}
        (ht : t ∈ before)
      (hother : t.isChar = false) : False := by
    have htrue := hchar t (mem_tokensFrom h ht)
    rw [hother] at htrue
    cases htrue
  induction cs generalizing position last before with
  | nil => rfl
  | cons c r ih =>
    rw [tokensFrom] at h
    split at h
    · exact (hnone h List.mem_cons_self rfl).elim
    · next hmark =>
      split at h
      · split at h
        · next hclass => exact (hnone h List.mem_cons_self (isChar_of_class? hclass)).elim
        · cases h
      · next hbracket =>
        split at h
        · split at h
          · exact (hnone h List.mem_cons_self rfl).elim
          · split at h
            · cases h
            · split at h
              · obtain rfl := Except.ok.inj h
                have htrue := hchar .anyComponents
                  (List.mem_reverse.2 (anyComponents_mem_addComponents _))
                cases htrue
              · exact (hnone h (anyComponents_mem_addComponents _) rfl).elim
              · cases h
          · cases h
        · next hstar =>
          rw [List.any_cons, ih h, isWildcard, Bool.or_false]
          simp [hmark, hbracket, hstar]

/-- A pattern that stands for one name is that name. -/
theorem literal?_parse {text : String} {p : Pattern} (h : Pattern.parse text = .ok p)
    {name : List Char} (hname : p.literal? = some name) : name = text.toList := by
  have hplain : text.toList.any isWildcard = false := by
    unfold Pattern.parse at h
    split at h
    · cases h
    · next tokens htokens =>
      obtain rfl := Except.ok.inj h
      exact any_isWildcard_of_tokensFrom htokens (isChar_of_literal? hname)
  rw [parse_plain hplain] at h
  obtain rfl := Except.ok.inj h
  rw [literal?_ofName] at hname
  exact (Option.some.inj hname).symm

/-- What is read of several texts is read of one of them. -/
theorem mem_of_mapM_parse {texts : List String} {ps : List Pattern}
    (h : texts.mapM Pattern.parse = .ok ps) :
    ∀ p ∈ ps, ∃ text ∈ texts, Pattern.parse text = .ok p := by
  induction texts generalizing ps with
  | nil =>
    obtain rfl := Except.ok.inj h
    intro p hp
    cases hp
  | cons text texts ih =>
    rw [List.mapM_cons] at h
    rcases htext : Pattern.parse text with e | q
    · rw [htext] at h
      cases h
    · rcases hrest : texts.mapM Pattern.parse with e | qs
      · rw [htext, hrest] at h
        cases h
      · rw [htext, hrest] at h
        obtain rfl := Except.ok.inj h
        intro p hp
        rcases List.mem_cons.1 hp with rfl | hp
        · exact ⟨text, List.mem_cons_self, htext⟩
        · obtain ⟨other, hother, hparse⟩ := ih hrest p hp
          exact ⟨other, List.mem_cons_of_mem text hother, hparse⟩

theorem length_of_mapM_parse {texts : List String} {ps : List Pattern}
    (h : texts.mapM Pattern.parse = .ok ps) : ps.length = texts.length := by
  induction texts generalizing ps with
  | nil =>
    obtain rfl := Except.ok.inj h
    rfl
  | cons text texts ih =>
    rw [List.mapM_cons] at h
    rcases htext : Pattern.parse text with e | q
    · rw [htext] at h
      cases h
    · rcases hrest : texts.mapM Pattern.parse with e | qs
      · rw [htext, hrest] at h
        cases h
      · rw [htext, hrest] at h
        obtain rfl := Except.ok.inj h
        rw [List.length_cons, List.length_cons, ih hrest]

theorem mapM_parse_append {texts texts' : List String} {ps : List Pattern}
    (h : (texts ++ texts').mapM Pattern.parse = .ok ps) :
    ∃ qs qs', texts.mapM Pattern.parse = .ok qs ∧ texts'.mapM Pattern.parse = .ok qs' ∧
      ps = qs ++ qs' := by
  rw [List.mapM_append] at h
  rcases hfirst : texts.mapM Pattern.parse with e | qs
  · rw [hfirst] at h
    cases h
  · rcases hsecond : texts'.mapM Pattern.parse with e | qs'
    · rw [hfirst, hsecond] at h
      cases h
    · rw [hfirst, hsecond] at h
      exact ⟨qs, qs', rfl, rfl, (Except.ok.inj h).symm⟩

/-- How many steps an expansion by so many components may take. -/
def stepsFor (fs : FileSystem) (count : Nat) : Nat :=
  2 * count + (maxLinks + 1) * (depth fs.root + 1) + 1

theorem expand_of_error {fs : FileSystem} {text : String} {e : PatternError}
    (h : Pattern.parse text = .error e) : expand fs text = .error e := by
  rw [expand, h]

theorem expand_of_parts_error {fs : FileSystem} {text : String} {p : Pattern}
    {e : PatternError} (hparse : Pattern.parse text = .ok p)
    (h : (pathParts text).mapM Pattern.parse = .error e) :
    expand fs text = .error e := by
  rw [pathParts] at h
  rw [expand, hparse]
  dsimp only
  rw [h]

/-- A text is expanded part by part, from the root or from the current
directory. -/
theorem expand_of_parts {fs : FileSystem} {text : String} {p : Pattern}
    {ps : List Pattern} (hparse : Pattern.parse text = .ok p)
    (h : (pathParts text).mapM Pattern.parse = .ok ps) :
    expand fs text =
      .ok (expandFrom fs (text.toList.getLast? == some '/') (stepsFor fs ps.length)
      (if isAbsolute text then "/" else ".") ps) := by
  rw [pathParts] at h
  rw [expand, hparse]
  dsimp only
  rw [h]
  rfl

theorem expand_eq_ok {fs : FileSystem} {text : String} {found : List String}
    (h : expand fs text = .ok found) :
    ∃ ps, (pathParts text).mapM Pattern.parse = .ok ps ∧
      found = expandFrom fs (text.toList.getLast? == some '/') (stepsFor fs ps.length)
        (if isAbsolute text then "/" else ".") ps := by
  rcases hparse : Pattern.parse text with e | p
  · rw [expand_of_error hparse] at h
    cases h
  · rcases hps : (pathParts text).mapM Pattern.parse with e | ps
    · rw [expand_of_parts_error hparse hps] at h
      cases h
    · rw [expand_of_parts hparse hps] at h
      exact ⟨ps, rfl, (Except.ok.inj h).symm⟩

/-- Holds if names lead on from a path, one after the other. -/
def allLeadOn (fs : FileSystem) : String → List String → Bool
  | _, [] => true
  | path, name :: rest => leadsOn fs path name && allLeadOn fs (under path name) rest

/-- Names in front of a pattern say where it is expanded from. -/
theorem expandFrom_names (fs : FileSystem) (directoryOnly : Bool) (n : Nat)
    (path : String) (front : List String) {ps : List Pattern} (hps : ps ≠ []) :
    expandFrom fs directoryOnly (n + front.length) path (front.map Pattern.ofName ++ ps) =
      if allLeadOn fs path front then
        expandFrom fs directoryOnly n (front.foldl under path) ps
      else [] := by
  induction front generalizing path with
  | nil => rfl
  | cons name front ih =>
    have hrest : (front.map Pattern.ofName ++ ps).isEmpty = false := by
      rw [List.isEmpty_eq_false_iff]
      exact List.append_ne_nil_of_right_ne_nil _ hps
    have honward (next : String) :
        onward fs directoryOnly (n + front.length) next (front.map Pattern.ofName ++ ps) =
          expandFrom fs directoryOnly (n + front.length)
            next (front.map Pattern.ofName ++ ps) := by
      rw [onward, hrest]
      rfl
    rw [List.length_cons, ← Nat.add_assoc, List.map_cons, List.cons_append,
      expandFrom_literal _ (literal?_ofName name), String.ofList_toList, honward,
      ih, allLeadOn,
      List.foldl_cons]
    rcases leadsOn fs path name <;> rfl

end AnimLint.Glob
