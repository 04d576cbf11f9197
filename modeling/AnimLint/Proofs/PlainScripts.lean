/-
AnimLint/Proofs/PlainScripts.lean

Scripts of plain statements.  Such a script is read as the tree it is spelled by
(`parse_plainScript`), and it stays one when its arguments are respaced
(`PlainScript.respaced`).  So the reader of the language gives the spacing of
the arguments of a plain script no meaning (`readsRespaced_plainScript`), and a
reader that refuses all other scripts gives none to any
(`Reader.plain_ignoresSpacing`).
-/
import AnimLint.Proofs.PlainRuns

namespace AnimLint.Script

open Script.Parser Script.Grammar Script.Tree

/-! ### Scripts -/

/-- A script of plain statements, token after token as it is read. -/
structure PlainScript (t : Tree) : Prop where
  eq_node : ∃ statements stop, t = .node .module (statements ++ [.leaf stop]) ∧
    Plain .statements statements ∧ stop.kind = .endOfText
  areRegular : areRegular t.tokens = true

theorem State.startScript_of_head {text : List Char} (h : text.head? ≠ some '#') :
    startScript text = start text := by
  unfold startScript
  split
  · exact absurd rfl h
  · rfl

/-- A row of tokens that is read as it stands names no interpreter. -/
theorem head_tokensSource_ne {ts : List Token} (h : areRegular ts = true) :
    (tokensSource ts).head? ≠ some '#' := by
  rcases ts with - | ⟨t, ts⟩
  · exact nofun
  · intro hhead
    rcases head_tokensSource h hhead with (hspace | hslash) | ⟨r, htext⟩
    · exact absurd hspace (by decide)
    · exact absurd hslash (by decide)
    · have hregular := (areRegular_cons h).2.1
      rw [Token.isRegular, htext] at hregular
      cases hkind : t.kind <;> rw [hkind] at hregular
      case word | number | string =>
        exact absurd (Bool.and_eq_true_iff.1 hregular).1 (by decide)
      case punctuator =>
        rcases r with - | ⟨d, r⟩
        · exact absurd hregular (by decide)
        · cases hregular
      all_goals cases hregular

/-- There are no more tokens than characters. -/
theorem length_le_of_isInner {a : List Token}
    (h : ∀ s ∈ a, s.isInner = true ∧ s.isPlain = true) :
    a.length ≤ (tokensSource a).length := by
  induction a with
  | nil => exact Nat.zero_le _
  | cons s a ih =>
    obtain ⟨⟨hs, -⟩, ha⟩ := List.forall_mem_cons.1 h
    obtain ⟨c, r, htext, -⟩ := exists_solid (Bool.and_eq_true_iff.1 hs).1
    have := ih ha
    simp only [tokensSource_cons, Token.source, htext, List.length_append,
      List.length_cons]
    omega

theorem run_moduleStep_end {self : Self} {c : Setting} {stop : Token}
    (hstop : stop.kind = .endOfText) (done : List Tree) (ts : List Token) :
    (moduleStep self).run c (.facing done (stop :: ts)) =
      .ok (false, .facing done (stop :: ts)) := by
  have hend : (stop.kind == .endOfText) = true := by rw [hstop]; rfl
  simp only [moduleStep, seesEnd, run_look]
  rw [show (State.facing done (stop :: ts)).next = stop from rfl, hend, if_pos rfl]
  rfl

theorem run_module {statements : List Tree} {stop : Token}
    (h : Plain .statements statements)
    (hstop : stop.kind = .endOfText) (n : Nat) (c : Setting)
    (hts : areRegular (tokensAll statements ++ [stop]) = true)
    (hn : 3 * (tokensAll statements).length ≤ n)
    (hlimit : (tokensAll statements).length < c.limit) :
    (ofRules rules (n + 4) .module).run c (.facing [] (tokensAll statements ++ [stop])) =
      .ok ((), .facing [.node .module (statements ++ [.leaf stop])] []) := by
  obtain ⟨k, hk, hrun⟩ := runs_of_plain h n c hts hn hlimit
  obtain ⟨m, hm⟩ := Nat.exists_eq_add_of_lt (Nat.lt_of_le_of_lt hk hlimit)
  have hitems : (iterate (moduleStep (ofRules rules (n + 3)))).run c
      (.facing [] (tokensAll statements ++ [stop])) =
        .ok ((), .facing statements.reverse [stop]) := by
    rw [run_iterate, hm, Nat.add_assoc, Nat.add_comm k, hrun (m + 1) [], List.append_nil]
    exact run_loop_false (run_moduleStep_end hstop _ []) (Nat.succ_pos m)
  show (module (ofRules rules (n + 3))).run c _ = _
  rw [module]
  refine run_node .module ?_ []
  rw [run_bind hitems, run_bump (areRegular_append hts), List.reverse_append]
  rfl

/-- **A plain script is read as the tree it is spelled by.** -/
theorem parse_plainScript {t : Tree} (h : PlainScript t) (dialect : Dialect) :
    parse dialect t.source = .ok t := by
  obtain ⟨⟨statements, stop, rfl, hstatements, hstop⟩, hregular⟩ := h
  have htokens : (Tree.node .module (statements ++ [.leaf stop])).tokens =
      tokensAll statements ++ [stop] := by simp [tokens, tokensAll, tokensAll_append]
  rw [htokens] at hregular
  have hlen := length_le_of_isInner (isInner_of_areRegular hregular)
  have hstart : State.startScript (tokensSource (tokensAll statements ++ [stop])) =
      .facing [] (tokensAll statements ++ [stop]) := by
    rw [State.startScript_of_head (head_tokensSource_ne hregular),
      start_tokensSource hregular]
  rw [← tokensSource_tokens, htokens, parse, run, hstart]
  have hle : (tokensAll statements).length ≤
      (tokensSource (tokensAll statements ++ [stop])).length := by
    rw [tokensSource_append, List.length_append]
    exact Nat.le_add_right_of_le hlen
  generalize tokensSource (tokensAll statements ++ [stop]) = text at hle
  obtain ⟨n, hn⟩ :=
    Nat.exists_eq_add_of_le' (show 4 ≤ depthBound text by rw [depthBound]; omega)
  have hmodule :=
    run_module hstatements hstop n { dialect, limit := depthBound text } hregular
    (by rw [depthBound] at hn; omega) (show _ < depthBound text by rw [depthBound]; omega)
  rw [← hn] at hmodule
  rw [hmodule]
  rfl

theorem PlainScript.respaced {t t' : Tree} (h : PlainScript t) (ht : Respaced t t') :
    PlainScript t' := by
  obtain ⟨⟨statements, stop, rfl, hstatements, hstop⟩, hregular⟩ := h
  have htokens := areRegular_releaded (tokens_respaced _ _ ht) hregular
  obtain ⟨_, rfl, hparts⟩ := ht
  obtain ⟨statements', _, rfl, hrespaced, _, _, rfl, rfl, rfl⟩ :=
    allRespaced_append hparts
  exact ⟨⟨statements', stop, rfl,
    hstatements.respaced _ (itemsRespaced_of_allRespaced hrespaced),
    hstop⟩, htokens⟩

/-! ### Readers -/

theorem read_script {t : Tree} (h : PlainScript t) (dialect : Dialect) :
    Reader.script.read dialect t.source = .ok t :=
  parse_plainScript h dialect

/-- The reader of the language gives the spacing of the arguments of a plain
script no meaning. -/
theorem readsRespaced_plainScript {t : Tree} (h : PlainScript t) (dialect : Dialect) :
    Reader.script.ReadsRespaced dialect t := by
  intro t' ht'
  refine read_script ?_ dialect
  induction ht' with
  | refl => exact h
  | tail _ ht ih => exact ih.respaced ht

open Classical in
/-- What is read as a plain script. -/
noncomputable def readPlain (dialect : Dialect) (text : List Char) :
    Except SyntaxError Tree :=
  match parse dialect text with
  | .error e => .error e
  | .ok t => if PlainScript t then .ok t else .error ⟨.tooDeep, 1, 1⟩

theorem readPlain_eq_ok {dialect : Dialect} {text : List Char} {t : Tree} :
    readPlain dialect text = .ok t ↔ parse dialect text = .ok t ∧ PlainScript t := by
  rw [readPlain]
  cases parse dialect text with
  | error e => simp
  | ok u =>
    by_cases hplain : PlainScript u
    · simp only [if_pos hplain, Except.ok.injEq]
      exact ⟨fun h => ⟨h, h ▸ hplain⟩, And.left⟩
    · simp only [if_neg hplain, Except.ok.injEq]
      exact ⟨nofun, fun ⟨h, ht⟩ => absurd (h ▸ ht) hplain⟩

/-- The reader of plain scripts: it reads as the reader of the language does and
refuses what is more than plain. -/
noncomputable def Reader.plain : Reader where
  read := readPlain
  source_of_read h := source_of_parse (readPlain_eq_ok.1 h).1
  isSound_of_read h := isSound_of_parse (readPlain_eq_ok.1 h).1

theorem read_plain {t : Tree} (h : PlainScript t) (dialect : Dialect) :
    Reader.plain.read dialect t.source = .ok t :=
  readPlain_eq_ok.2 ⟨parse_plainScript h dialect, h⟩

/-- **The reader of plain scripts gives the spacing of arguments no
meaning.** -/
theorem Reader.plain_ignoresSpacing : Reader.plain.IgnoresSpacing := by
  intro dialect text t t' h ht
  exact read_plain ((readPlain_eq_ok.1 h).2.respaced ht) dialect

/-! ### A script with one call -/

/-- The script `a.to({});` with trivia at its front and in front of the
object. -/
def toCall (front row : List Trivia) : Tree :=
  .node .module [
    .node .phrase [
      .call (.node .member [.leaf ⟨front, .word, ['a']⟩, .leaf ⟨[], .punctuator, ['.']⟩,
          .leaf ⟨[], .word, ['t', 'o']⟩])
        [] ⟨[], .punctuator, ['(']⟩
        [.node .object [.leaf ⟨row, .punctuator, ['\x7b']⟩,
          .leaf ⟨[], .punctuator, ['\x7d']⟩]]
        ⟨[], .punctuator, [')']⟩,
      .leaf ⟨[], .punctuator, [';']⟩],
    .leaf ⟨[], .endOfText, []⟩]

theorem plainScript_toCall {front row : List Trivia} (hfront : isReadRow front = true)
    (hrow : isReadRow row = true) : PlainScript (toCall front row) where
  eq_node := by
    have hcallee : Plain .chain [.node .member [.leaf ⟨front, .word, ['a']⟩,
        .leaf ⟨[], .punctuator, ['.']⟩, .leaf ⟨[], .word, ['t', 'o']⟩]] :=
      .member (.name rfl) rfl rfl
    have hobject :
        Plain (.item .value) [.node .object [.leaf ⟨row, .punctuator, ['\x7b']⟩,
        .leaf ⟨[], .punctuator, ['\x7d']⟩]] := .object rfl .noItems rfl
    exact ⟨_, _, rfl, .statement (.call hcallee rfl (.lastItem hobject) rfl) rfl
      .noStatements, rfl⟩
  areRegular := by
    simp only [toCall, tokens, tokensAll, List.cons_append, List.nil_append,
      areRegular, hfront, hrow]
    rfl

end AnimLint.Script
