/-
AnimLint/Proofs/PlainRuns.lean

The runs of the machine over plain rows.  The rules of the grammar are followed
one by one, from an operand with its properties and calls up to the statement it
makes; `Runs` says of a row how the machine comes through it, and
`runs_of_plain` puts the rules together by induction over how the row is made.
-/
import AnimLint.Proofs.PlainRows

namespace AnimLint.Script

open Script.Parser Script.Grammar Script.Tree

/-! ### Rules -/

namespace Grammar

section Stages

variable {self : Self} {c : Setting} {t u : Token} {v : Tree} {ts rest : List Token}

theorem run_postfixed
    (h : (self .leftHand).run c (.facing [] ts) = .ok ((), .facing [v] (u :: rest)))
    (hu : u.closes = true) (done : List Tree) :
    (postfixed self).run c (.facing done ts) =
      .ok ((), .facing (v :: done) (u :: rest)) := by
  refine run_frame_one ?_ done
  have hplus : u.isPunctuator "++" = false := Token.isPunctuator_of_closes hu (by decide)
  have hminus : u.isPunctuator "--" = false := Token.isPunctuator_of_closes hu (by decide)
  simp only [here, seesOnLine, run_look]
  rw [run_bind h]
  simp only [run_look, State.facing, hplus, hminus]
  rfl

theorem run_unary (ht : t.opens = true) (done : List Tree) (ts : List Token) :
    (unary self).run c (.facing done (t :: ts)) =
      (postfixed self).run c (.facing done (t :: ts)) := by
  simp only [unary, unaryOperators, unaryWords, peek, peekSecond, setting, run_look]
  simp (disch := decide) only [State.facing, List.any_cons, List.any_nil,
    Token.isPunctuator_of_opens ht, Token.isWord_of_opens ht, Bool.or_false,
    Bool.false_and,
    if_false, Bool.false_eq_true]
  rfl

theorem isBinary_of_closes (hu : u.closes = true) : isBinary c u = false := by
  have hword (w : String) : u.isWord w = false :=
    Token.isWord_of_kind (by simp [Token.kind_of_closes hu]) w
  rw [isBinary, Token.any_isPunctuator fun p hp =>
    Token.isPunctuator_of_closes hu ?_, hword, hword]
  · rfl
  · revert p
    decide

theorem run_binaryRest (hu : u.closes = true) (done : List Tree) (rest : List Token) :
    (binaryRest self).run c (.facing done (u :: rest)) =
      .ok (false, .facing done (u :: rest)) := by
  have hword (w : String) : u.isWord w = false :=
    Token.isWord_of_kind (by simp [Token.kind_of_closes hu]) w
  simp only [binaryRest, peek, setting, run_look, State.facing,
    isBinary_of_closes hu, hword]
  rfl

theorem run_conditional
    (h : (self .unary).run c (.facing [] ts) = .ok ((), .facing [v] (u :: rest)))
    (hu : u.closes = true) (hlimit : 0 < c.limit) (done : List Tree) :
    (conditional self).run c (.facing done ts) =
      .ok ((), .facing (v :: done) (u :: rest)) := by
  refine run_frame_one ?_ done
  have hchoice : u.isPunctuator "?" = false := Token.isPunctuator_of_closes hu (by decide)
  rw [run_bind (run_recover h),
    run_bind ((run_iterate _).trans (run_loop_false (run_binaryRest hu [v] rest) hlimit)),
    run_bind (run_take_of_ne hchoice [v] rest)]
  rfl

theorem run_arrowFunction (ht : t.opens = true) (hts : areRegular (t :: ts) = true)
    (done : List Tree) :
    (arrowFunction? self).run c (.facing done (t :: ts)) =
      .ok (false, .facing done (t :: ts)) := by
  have harrow : (Token.read (tokensSource ts)).1.isPunctuator "=>" = false := by
    rw [read_facing (areRegular_cons hts).2.2.2 []]
    rcases ts with - | ⟨u, ts⟩
    · rfl
    · exact Token.isPunctuator_of_isRegular
        (areRegular_cons (areRegular_cons hts).2.2.2).2.1 (by decide)
  simp only [arrowFunction?, peek, peekSecond, peekThird, run_look]
  simp (disch := decide) only [State.facing, harrow, Token.isPunctuator_of_opens ht,
    Token.isWord_of_opens ht, Bool.and_false, Bool.false_and, if_false,
    Bool.false_eq_true]
  rfl

theorem run_assignment (ht : t.opens = true) (hts : areRegular (t :: ts) = true)
    (h : (conditional self).run c (.facing [] (t :: ts)) =
      .ok ((), .facing [v] (u :: rest)))
    (hu : u.closes = true) (done : List Tree) :
    (assignment self).run c (.facing done (t :: ts)) =
      .ok ((), .facing (v :: done) (u :: rest)) := by
  have hassigns : (assignmentOperators.any fun p => u.isPunctuator p) = false := by
    refine Token.any_isPunctuator fun p hp => Token.isPunctuator_of_closes hu ?_
    revert p
    decide
  have hyield : t.isWord "yield" = false := Token.isWord_of_opens ht (by decide)
  have hframe : (frame do
      let place ← here
      conditional self
      let t ← peek
      if assignmentOperators.any (t.isPunctuator ·) then
        checkTarget place (if t.isPunctuator "=" then isPatternTarget else isTarget)
        bump
        self .assignment
        wrap .phrase).run c (.facing done (t :: ts)) =
          .ok ((), .facing (v :: done) (u :: rest)) := by
    refine run_frame_one ?_ done
    simp only [here, run_look]
    rw [run_bind h]
    simp only [peek, run_look, State.facing, hassigns]
    rfl
  rw [assignment, run_bind (run_arrowFunction ht hts done)]
  simp only [setting, seesWord, run_look, State.facing, hyield, Bool.and_false,
    if_false, Bool.false_eq_true] at hframe ⊢
  exact hframe

end Stages

section Suffixes

variable {self : Self} {c : Setting} {t u point name opening closing : Token}
  {v : Tree} {ts rest : List Token}

theorem run_chainKind (hv : isOptionalChain v = false) (kind : Kind) (done : List Tree)
    (ts : List Token) :
    (chainKind kind).run c (.facing (v :: done) ts) =
      .ok (kind, .facing (v :: done) ts) := by
  have hlast : (State.facing (v :: done) ts).done.head? = some v := by
    rw [done_facing]; rfl
  simp only [chainKind, last?, run_look, hlast, Option.any_some, hv]
  rfl

theorem run_typeArguments (hless : u.isPunctuator "<" = false)
    (hshift : u.isPunctuator "<<" = false)
    (done : List Tree) (rest : List Token) :
    (typeArguments? self).run c (.facing done (u :: rest)) =
      .ok (false, .facing done (u :: rest)) := by
  show (if !c.dialect.types || !(u.isPunctuator "<" || u.isPunctuator "<<") then
      Pure.pure false
    else _ : Parser Bool).run c (.facing done (u :: rest)) = _
  rw [hless, hshift, if_pos (by simp)]
  rfl

/-- Behind a value no property and no call of it follows. -/
theorem run_suffix_of_closes (hu : u.closes = true) (hv : isOptionalChain v = false)
    (rest : List Token) :
    (suffix self).run c (.facing [v] (u :: rest)) =
      .ok (false, .facing [v] (u :: rest)) := by
  have hmark {p : String} (hp : p.toList ∉ [[')'], ['\x7d'], [','], [';']]) :
      u.isPunctuator p = false :=
    Token.isPunctuator_of_closes hu hp
  have hmember : (memberSuffix self).run c (.facing [v] (u :: rest)) =
      .ok (false, .facing [v] (u :: rest)) := by
    simp only [memberSuffix, peek, run_look, State.facing]
    simp (disch := decide) only [hmark, Bool.false_and, if_false, Bool.false_eq_true,
      Token.kind_of_closes hu]
    rfl
  rw [suffix, run_bind (run_take_of_ne (hmark (by decide)) [v] rest),
    if_neg Bool.false_ne_true, run_bind (run_sees "(" u rest), hmark (by decide),
    if_neg Bool.false_ne_true, run_bind hmember, if_neg Bool.false_ne_true,
    run_bind (run_chainKind hv .phrase [] (u :: rest)),
    run_bind (run_typeArguments (hmark (by decide)) (hmark (by decide)) [v] rest)]
  rfl

/-- A property by name. -/
theorem run_suffix_member (hts : areRegular (point :: name :: rest) = true)
    (hv : isOptionalChain v = false) (hpoint : point.isPunctuator "." = true)
    (hname : name.kind = .word) :
    (suffix self).run c (.facing [v] (point :: name :: rest)) =
      .ok (true, .facing [.node .member [v, .leaf point, .leaf name]] rest) := by
  have hmark {p : String} (hp : p.toList ≠ ['.']) : point.isPunctuator p = false :=
    Token.isPunctuator_of_ne hpoint hp.symm
  have hmemberName : memberName.run c (.facing [.leaf point, v] (name :: rest)) =
      .ok ((), .facing [.leaf name, .leaf point, v] rest) := by
    have hbump : bump.run c (.facing [.leaf point, v] (name :: rest)) =
        .ok ((), .facing [.leaf name, .leaf point, v] rest) :=
      run_bump (areRegular_cons hts).2.2.2 _
    simp only [memberName, anyWord, peek, run_look, State.facing, hname]
    rw [if_neg (by decide)]
    simp only [run_look, hname, beq_self_eq_true, if_true]
    exact hbump
  have hmember : (memberSuffix self).run c (.facing [v] (point :: name :: rest)) =
      .ok (true, .facing [.node .member [v, .leaf point, .leaf name]] rest) := by
    rw [memberSuffix, peek, run_look,
      show (State.facing [v] (point :: name :: rest)).next = point from rfl,
      if_pos hpoint, run_bind (run_chainKind hv .member [] _),
      run_bind (run_bump hts [v]), run_bind hmemberName,
      run_bind (run_wrap .member _ rest)]
    rfl
  rw [suffix, run_bind (run_take_of_ne (hmark (by decide)) [v] _),
    if_neg Bool.false_ne_true, run_bind (run_sees "(" point _), hmark (by decide),
    if_neg Bool.false_ne_true, run_bind hmember]
  rfl

/-- A call. -/
theorem run_suffix_call {trees : List Tree} {call : Tree} {before : List Token}
    (hv : isOptionalChain v = false) (hopening : opening.isPunctuator "(" = true)
    (harguments : (arguments self).run c (.facing [v] (opening :: before)) =
      .ok ((), .facing trees rest)) (hcall : Tree.call? trees.reverse = some call) :
    (suffix self).run c (.facing [v] (opening :: before)) =
      .ok (true, .facing [call] rest) := by
  have hmark {p : String} (hp : p.toList ≠ ['(']) : opening.isPunctuator p = false :=
    Token.isPunctuator_of_ne hopening hp.symm
  have hclose : (closeCall .phrase).run c (.facing trees rest) =
      .ok ((), .facing [call] rest) :=
    run_wrapCall hcall rest
  rw [suffix, run_bind (run_take_of_ne (hmark (by decide)) [v] _),
    if_neg Bool.false_ne_true, run_bind (run_sees "(" opening _), hopening,
    if_pos rfl, run_bind (run_chainKind hv .phrase [] _), run_bind harguments,
    run_bind hclose]
  rfl

end Suffixes

section Operands

variable {self : Self} {c : Setting} {t u opening : Token} {ts rest : List Token}

theorem run_primary_name (ht : t.isOrdinary = true) (hts : areRegular (t :: ts) = true) :
    (primary self).run c (.facing [] (t :: ts)) = .ok ((), .facing [.leaf t] ts) := by
  have hconstants : (constants.any fun w => t.isWord w) = false := by
    refine List.any_eq_false.2 fun w hw => ?_
    rw [Token.isWord_of_isOrdinary ht (by revert w; decide)]
    exact Bool.false_ne_true
  have hreserved : (reservedWords.any fun w => t.isWord w) = false := by
    refine List.any_eq_false.2 fun w hw => ?_
    rw [Token.isWord_of_isOrdinary ht (by revert w; decide)]
    exact Bool.false_ne_true
  have hvalueName : valueName.run c (.facing [] (t :: ts)) =
      .ok ((), .facing [.leaf t] ts) := by
    rw [← run_bump hts []]
    simp (disch := decide) only [valueName, peek, run_look, State.facing,
      Token.isWord_of_isOrdinary ht, hreserved, Bool.false_eq_true, if_false]
    rfl
  rw [← hvalueName, primary]
  simp only [peek, peekSecond, run_look, State.facing, Token.kind_of_isOrdinary ht,
    hconstants]
  simp (disch := decide) only [Token.isWord_of_isOrdinary ht,
    Token.isName_of_isOrdinary ht, Bool.false_eq_true, if_false, Bool.false_and, if_true]

theorem run_literal (ht : t.isConstant = true) (hts : areRegular (t :: ts) = true) :
    literal.run c (.facing [] (t :: ts)) = .ok ((), .facing [.leaf t] ts) := by
  rw [← run_bump hts [], literal]
  simp only [Token.isConstant, Bool.or_eq_true, Bool.and_eq_true, beq_iff_eq,
    Option.isNone_iff_eq_none] at ht
  simp only [peek, here, run_look, State.facing]
  rcases ht with ⟨hkind, hlegacy⟩ | ⟨hkind, hlegacy⟩ <;>
    simp only [hkind, hlegacy] <;> rfl

theorem run_primary_constant (ht : t.isConstant = true)
    (hts : areRegular (t :: ts) = true) :
    (primary self).run c (.facing [] (t :: ts)) =
      .ok ((), .facing [.node .constant [.leaf t]] ts) := by
  have hnode : (node .constant literal).run c (.facing [] (t :: ts)) =
      .ok ((), .facing [.node .constant [.leaf t]] ts) :=
    run_node .constant (run_literal ht hts) []
  rw [← hnode, primary]
  simp only [Token.isConstant, Bool.or_eq_true, Bool.and_eq_true, beq_iff_eq] at ht
  simp only [peek, peekSecond, run_look, State.facing]
  rcases ht with ⟨hkind, -⟩ | ⟨hkind, -⟩ <;> simp only [hkind]

theorem run_primary_object (hopening : opening.isPunctuator "\x7b" = true)
    (ts : List Token) :
    (primary self).run c (.facing [] (opening :: ts)) =
      (objectLiteral self).run c (.facing [] (opening :: ts)) := by
  have hmark {p : String} (hp : p.toList ≠ ['\x7b']) : opening.isPunctuator p = false :=
    Token.isPunctuator_of_ne hopening hp.symm
  rw [primary]
  simp only [peek, peekSecond, run_look, State.facing,
    Token.kind_of_isPunctuator hopening]
  simp (disch := decide) only [hmark, hopening, Bool.false_eq_true, if_false, if_true]

end Operands

section Lists

variable {self : Self} {c : Setting} {t u comma stop : Token} {v : Tree}
  {done : List Tree} {ts rest : List Token}
  {item : Parser Unit} {closing : String}

theorem run_spreadable (ht : t.opens = true) (done : List Tree) (ts : List Token) :
    (spreadable self).run c (.facing done (t :: ts)) =
      (self .assignment).run c (.facing done (t :: ts)) := by
  rw [spreadable, run_bind (run_sees "..." t ts),
    Token.isPunctuator_of_opens ht (by decide), if_neg Bool.false_ne_true]

/-- An item in front of the closing punctuator. -/
theorem run_listStep_last (ht : t.isPunctuator closing = false)
    (hitem : item.run c (.facing done (t :: ts)) =
      .ok ((), .facing (v :: done) (u :: rest)))
    (hu : u.isPunctuator closing = true) :
    (listStep closing item).run c (.facing done (t :: ts)) =
      .ok (true, .facing (v :: done) (u :: rest)) := by
  rw [listStep, run_bind (run_take_of_ne ht done ts), if_neg Bool.false_ne_true,
    run_bind hitem, run_bind (run_sees closing u rest), hu, if_pos rfl]
  rfl

/-- An item with a comma behind it. -/
theorem run_listStep_next (ht : t.isPunctuator closing = false)
    (hitem : item.run c (.facing done (t :: ts)) =
      .ok ((), .facing (v :: done) (comma :: rest)))
    (hrest : areRegular (comma :: rest) = true) (hcomma : comma.isPunctuator "," = true)
    (hne : comma.isPunctuator closing = false) :
    (listStep closing item).run c (.facing done (t :: ts)) =
      .ok (true, .facing (.leaf comma :: v :: done) rest) := by
  rw [listStep, run_bind (run_take_of_ne ht done ts), if_neg Bool.false_ne_true,
    run_bind hitem, run_bind (run_sees closing comma rest), hne,
    if_neg Bool.false_ne_true, run_bind (run_expect hrest hcomma (v :: done))]
  rfl

/-- The closing punctuator. -/
theorem run_listStep_closing (hu : u.isPunctuator closing = true)
    (hrest : areRegular (u :: rest) = true) (item : Parser Unit) (done : List Tree) :
    (listStep closing item).run c (.facing done (u :: rest)) =
      .ok (false, .facing (.leaf u :: done) rest) := by
  rw [listStep, run_bind (run_take hrest hu done), if_pos rfl]
  rfl

/-- A property by a word. -/
theorem run_property {key colon : Token} {value : List Token}
    (hts : areRegular (key :: colon :: value) = true) (hkey : key.kind = .word)
    (hcolon : colon.isPunctuator ":" = true)
    (hvalue : (self .assignment).run c (.facing [.leaf colon, .leaf key] value) =
      .ok ((), .facing [v, .leaf colon, .leaf key] rest)) (done : List Tree) :
    (property self).run c (.facing done (key :: colon :: value)) =
      .ok ((), .facing (.node .phrase [.leaf key, .leaf colon, v] :: done) rest) := by
  have hmark (p : String) : key.isPunctuator p = false :=
    Token.isPunctuator_of_kind (by simp [hkey]) p
  have hcolonMark {p : String} (hp : p.toList ≠ [':']) : colon.isPunctuator p = false :=
    Token.isPunctuator_of_ne hcolon hp.symm
  have hends : endsName colon = true := by
    simp only [endsName, List.any_cons, hcolon, Bool.true_or, Bool.or_true]
  have hsecond : (Token.read (tokensSource (colon :: value))).1 = colon := by
    rw [read_tokensSource (areRegular_cons hts).2.2.2]
  have hpropertyKey : (propertyKey self).run c (.facing [] (key :: colon :: value)) =
      .ok ((), .facing [.leaf key] (colon :: value)) := by
    have hbump : bump.run c (.facing [] (key :: colon :: value)) =
        .ok ((), .facing [.leaf key] (colon :: value)) := run_bump hts []
    rw [← hbump, propertyKey]
    simp only [peek, run_look, State.facing, hkey]
  rw [property]
  refine run_node .phrase ?_ done
  simp only [peek, peekSecond, run_look]
  rw [show (State.facing [] (key :: colon :: value)).next = key from rfl,
    show (Token.read (State.facing [] (key :: colon :: value)).ahead).1 =
        colon from hsecond,
    run_bind (run_take_of_ne (hmark "...") [] _), if_neg Bool.false_ne_true]
  simp only [hends, Bool.not_true, Bool.and_false, Bool.false_and, if_false,
    Bool.false_eq_true]
  rw [run_bind (run_take_of_ne (hmark "*") [] _), if_neg Bool.false_ne_true,
    run_bind hpropertyKey, run_bind (run_sees "(" colon value),
    hcolonMark (by decide), run_bind (run_types c _),
    run_bind (run_sees "<" colon value), hcolonMark (by decide), Bool.and_false,
    Bool.or_false, if_neg Bool.false_ne_true,
    run_bind (run_take (areRegular_cons hts).2.2.2 hcolon [.leaf key]), if_pos rfl]
  exact hvalue

/-- A plain value, from its operand to its end. -/
theorem run_value {n : Nat} (ht : t.opens = true) (hts : areRegular (t :: ts) = true)
    (h : (primary (ofRules rules n) >>= fun _ => iterate (suffix (ofRules rules n))).run c
      (.facing [] (t :: ts)) = .ok ((), .facing [v] (u :: rest)))
    (hu : u.closes = true) (hlimit : 0 < c.limit) (done : List Tree) :
    (ofRules rules (n + 3) .assignment).run c (.facing done (t :: ts)) =
      .ok ((), .facing (v :: done) (u :: rest)) := by
  have hleft : (ofRules rules (n + 1) .leftHand).run c (.facing [] (t :: ts)) =
      .ok ((), .facing [v] (u :: rest)) := by
    refine run_frame_one ?_ []
    rw [← h]
    simp only [peek, run_look]
    simp (disch := decide) only [State.facing, Token.isWord_of_opens ht,
      Bool.false_eq_true, if_false]
  have hunary : (ofRules rules (n + 2) .unary).run c (.facing [] (t :: ts)) =
      .ok ((), .facing [v] (u :: rest)) :=
    (run_unary ht [] ts).trans (run_postfixed hleft hu [])
  exact run_assignment ht hts (run_conditional hunary hu hlimit []) hu done

end Lists

section Statements

variable {self : Self} {c : Setting} {s semicolon : Token} {v : Tree}
  {ts rest : List Token}

theorem run_expression (h : (self .assignment).run c (.facing [] ts) =
      .ok ((), .facing [v] (semicolon :: rest)))
      (hcomma : semicolon.isPunctuator "," = false) (done : List Tree) :
    (expression self).run c (.facing done ts) =
      .ok ((), .facing (v :: done) (semicolon :: rest)) := by
  refine run_frame_one ?_ done
  rw [run_bind h, run_bind (run_sees "," semicolon rest), hcomma,
    if_neg Bool.false_ne_true]
  rfl

theorem run_expressionStatement (h : (self .expression).run c (.facing [] ts) =
      .ok ((), .facing [v] (semicolon :: rest)))
      (hts : areRegular (semicolon :: rest) = true)
    (hsemicolon : semicolon.isPunctuator ";" = true) (done : List Tree) :
    (expressionStatement self).run c (.facing done ts) =
      .ok ((), .facing (.node .phrase [v, .leaf semicolon] :: done) rest) := by
  rw [expressionStatement]
  refine run_node .phrase ?_ done
  have hend : takeStatementEnd.run c (.facing [v] (semicolon :: rest)) =
      .ok (true, .facing [.leaf semicolon, v] rest) := by
    simp only [takeStatementEnd, seesStatementEnd, run_look, State.facing,
      hsemicolon, Bool.true_or, if_true]
    exact run_bind (run_take hts hsemicolon [v]) _
  rw [run_bind h, run_bind hend]
  rfl

theorem run_seesResources (hs : s.isOrdinary = true) (done : List Tree)
    (ts : List Token) :
    seesResources.run c (.facing done (s :: ts)) =
      .ok (false, .facing done (s :: ts)) := by
  simp only [seesResources, peek, peekSecond, peekThird, run_look]
  rw [run_bind (run_types c _)]
  simp (disch := decide) only [State.facing, Token.isWord_of_isOrdinary hs,
    Bool.false_and, Bool.or_false, Bool.and_false]
  rfl

theorem run_seesVariables (hs : s.isOrdinary = true) (done : List Tree)
    (ts : List Token) :
    seesVariables.run c (.facing done (s :: ts)) =
      .ok (false, .facing done (s :: ts)) := by
  simp only [seesVariables, peek, peekSecond, run_look]
  rw [run_bind (run_seesResources hs done ts)]
  simp (disch := decide) only [State.facing, Token.isWord_of_isOrdinary hs,
    Bool.false_and, Bool.or_false]
  rfl

theorem run_seesTypeDeclaration (hs : s.isOrdinary = true) (done : List Tree)
    (ts : List Token) :
    seesTypeDeclaration.run c (.facing done (s :: ts)) =
      .ok (false, .facing done (s :: ts)) := by
  rw [seesTypeDeclaration]
  simp only [peek, peekSecond, run_look]
  rw [run_bind (run_types c _)]
  cases c.dialect.types with
  | false => rfl
  | true =>
    simp (disch := decide) only [State.facing, Token.isWord_of_isOrdinary hs,
      Bool.false_and, Bool.or_false, Bool.and_false, setting]
    rfl

/-- A statement that starts with a name that is no word of the language. -/
theorem run_statement_name (hs : s.isOrdinary = true)
    (hcolon : (Token.read (tokensSource ts)).1.isPunctuator ":" = false)
    (done : List Tree) :
    (statement self).run c (.facing done (s :: ts)) =
      (expressionStatement self).run c (.facing done (s :: ts)) := by
  have hword {w : String} (hw : w ∈ Token.keywords ++ Token.contextualWords) :
      s.isWord w = false :=
    Token.isWord_of_isOrdinary hs hw
  rw [statement]
  simp only [peek, peekSecond, run_look]
  rw [show (State.facing done (s :: ts)).next = s from rfl, Token.kind_of_isOrdinary hs]
  simp only []
  rw [run_bind (run_seesVariables hs done ts), if_neg Bool.false_ne_true]
  simp (disch := decide) only [hword, Bool.false_and, Bool.or_false, if_false,
    Bool.false_eq_true]
  have hlabel :
      (s.isName && (Token.read (State.facing done (s :: ts)).ahead).1.isPunctuator ":") =
      false := by rw [show (State.facing done (s :: ts)).ahead =
        tokensSource ts from rfl, hcolon,
        Bool.and_false]
  rw [hlabel, if_neg Bool.false_ne_true, run_bind (run_seesTypeDeclaration hs done ts),
    if_neg Bool.false_ne_true]

/-- An item that is an expression and a semicolon. -/
theorem run_moduleStep {n : Nat} (hs : s.isOrdinary = true)
    (hcolon : (Token.read (tokensSource ts)).1.isPunctuator ":" = false)
    (h : (ofRules rules n .assignment).run c (.facing [] (s :: ts)) =
      .ok ((), .facing [v] (semicolon :: rest)))
      (hrest : areRegular (semicolon :: rest) = true)
    (hsemicolon : semicolon.isPunctuator ";" = true) (done : List Tree) :
    (moduleStep (ofRules rules (n + 3))).run c (.facing done (s :: ts)) =
      .ok (true, .facing (.node .phrase [v, .leaf semicolon] :: done) rest) := by
  have hword {w : String} (hw : w ∈ Token.keywords ++ Token.contextualWords) :
      s.isWord w = false :=
    Token.isWord_of_isOrdinary hs hw
  have hcomma : semicolon.isPunctuator "," = false :=
    Token.isPunctuator_of_ne hsemicolon (by decide)
  have hstatement : (ofRules rules (n + 2) .statement).run c (.facing done (s :: ts)) =
      .ok ((), .facing (.node .phrase [v, .leaf semicolon] :: done) rest) :=
    (run_statement_name hs hcolon done).trans
      (run_expressionStatement (run_expression h hcomma []) hrest hsemicolon done)
  have hitem : (ofRules rules (n + 3) .moduleItem).run c (.facing done (s :: ts)) =
      .ok ((), .facing (.node .phrase [v, .leaf semicolon] :: done) rest) := by
    refine Eq.trans ?_ hstatement
    show (moduleItem (ofRules rules (n + 2))).run c _ = _
    simp only [moduleItem, peek, peekSecond, run_look, State.facing]
    simp (disch := decide) only [hword, Bool.false_and, if_false, Bool.false_eq_true]
  have hend : (s.kind == .endOfText) = false := by rw [Token.kind_of_isOrdinary hs]; rfl
  simp only [moduleStep, seesEnd, run_look]
  rw [show (State.facing done (s :: ts)).next = s from rfl, hend,
    if_neg Bool.false_ne_true, run_bind hitem]
  rfl

end Statements

end Grammar

/-! ### Runs -/

theorem splitClosing_append (items : List Tree) (t : Token) :
    splitClosing? (items ++ [.leaf t]) = some (items, t) := by
  induction items with
  | nil => rfl
  | cons u items ih =>
    rw [List.cons_append, splitClosing?, ih]
    · rfl
    · intro v _ hnil
      exact List.append_ne_nil_of_right_ne_nil items (List.cons_ne_nil _ _) hnil

theorem Plain.isOptionalChain_eq_false {t : Tree} (h : Plain .chain [t]) :
    isOptionalChain t = false := by
  cases h <;> rfl

theorem Plain.call?_eq {callee : Tree} {opening closing : Token} {items : List Tree}
    (h : Plain .chain [.call callee [] opening items closing])
    (hts : ∀ s ∈ tokensAll [.call callee [] opening items closing],
      s.isInner = true ∧ s.isPlain = true) :
    Tree.call? (callee :: .leaf opening :: (items ++ [.leaf closing])) =
      some (.call callee [] opening items closing) := by
  have hsound : callIsSound callee opening items closing = true := by
    have h := h.areSound hts
    simp only [Tree.areSound, isSound, Bool.and_eq_true] at h
    exact h.1.1.1.1
  simp only [Tree.call?, callOf?, splitClosing_append, hsound, if_true]

/-- The parser of an item. -/
def ItemKind.parser (self : Self) : ItemKind → Parser Unit
  | .value => self .assignment
  | .field => property self

/-- The parser of an item of a list. -/
def ItemKind.listed (self : Self) : ItemKind → Parser Unit
  | .value => spreadable self
  | .field => property self

/-- How the machine comes through a plain row in front of another token.  A name
with properties and calls is a name and some rounds behind it, and lists and
statements are some rounds too; the rounds that are left go on behind the
row. -/
def Runs : Role → List Tree → Prop
  | .chain, ts => ∀ (n : Nat) (c : Setting) {u : Token} {rest : List Token},
      areRegular (tokensAll ts ++ u :: rest) = true →
      3 * (tokensAll ts).length ≤ n + 3 → (tokensAll ts).length < c.limit →
      ∃ k < (tokensAll ts).length, ∀ m,
        (primary (ofRules rules n) >>=
          fun _ => loop (m + k) (suffix (ofRules rules n))).run c
            (.facing [] (tokensAll ts ++ u :: rest)) =
          (loop m (suffix (ofRules rules n))).run c (.facing ts (u :: rest))
  | .item kind, ts => ∀ (n : Nat) (c : Setting) {u : Token} {rest : List Token},
      areRegular (tokensAll ts ++ u :: rest) = true → u.closes = true →
      3 * (tokensAll ts).length ≤ n → (tokensAll ts).length < c.limit → ∀ done,
        (kind.parser (ofRules rules n)).run c (.facing done (tokensAll ts ++ u :: rest)) =
          .ok ((), .facing (ts ++ done) (u :: rest))
  | .items kind, ts =>
    ∀ (n : Nat) (c : Setting) {u : Token} {rest : List Token} {closing : String},
      areRegular (tokensAll ts ++ u :: rest) = true → u.isPunctuator closing = true →
      closing.toList ∈ [[')'], ['\x7d']] →
      3 * (tokensAll ts).length ≤ n → (tokensAll ts).length < c.limit →
      ∃ k ≤ (tokensAll ts).length, ∀ m done,
        (loop (m + k) (listStep closing (kind.listed (ofRules rules n)))).run c
            (.facing done (tokensAll ts ++ u :: rest)) =
          (loop m (listStep closing (kind.listed (ofRules rules n)))).run c
            (.facing (ts.reverse ++ done) (u :: rest))
  | .statements, ts => ∀ (n : Nat) (c : Setting) {u : Token} {rest : List Token},
      areRegular (tokensAll ts ++ u :: rest) = true →
      3 * (tokensAll ts).length ≤ n → (tokensAll ts).length < c.limit →
      ∃ k ≤ (tokensAll ts).length, ∀ m done,
        (loop (m + k) (moduleStep (ofRules rules (n + 3)))).run c
            (.facing done (tokensAll ts ++ u :: rest)) =
          (loop m (moduleStep (ofRules rules (n + 3)))).run c
            (.facing (ts.reverse ++ done) (u :: rest))

section Runs

variable {u : Token} {rest : List Token}

/-- A name with properties and calls, as a value. -/
theorem runs_operand {t : Tree} (ht : Plain .chain [t]) (h : Runs .chain [t]) :
    Runs (.item .value) [t] := by
  intro n c u rest hts hu hn hlimit done
  obtain ⟨s, ss, hss, hs, -⟩ := ht.exists_chain rfl
  have hopens : s.opens = true := by rw [Token.opens, hs]; rfl
  rw [hss] at hn hlimit
  obtain ⟨n, rfl⟩ := Nat.exists_eq_add_of_le (show 3 ≤ n by simp at hn; omega)
  obtain ⟨k, hk, hrun⟩ := h n c hts (by rw [hss]; omega) (by rw [hss]; exact hlimit)
  obtain ⟨m, hm⟩ := Nat.exists_eq_add_of_lt (Nat.lt_trans hk (hss ▸ hlimit))
  rw [hss, List.cons_append] at hts hrun ⊢
  rw [Nat.add_comm 3 n]
  refine run_value hopens hts ?_ hu (Nat.zero_lt_of_lt hlimit) done
  -- some of the rounds are taken by the chain, and the next one ends it
  show (primary (ofRules rules n) >>=
      fun _ => loop c.limit (suffix (ofRules rules n))).run c _ = _
  rw [hm, Nat.add_assoc, Nat.add_comm k, hrun (m + 1)]
  exact run_loop_false (run_suffix_of_closes hu ht.isOptionalChain_eq_false rest)
    (Nat.succ_pos m)

theorem runs_name {t : Token} (ht : t.isOrdinary = true) : Runs .chain [.leaf t] := by
  intro n c u rest hts _ _
  refine ⟨0, Nat.one_pos, fun m => ?_⟩
  exact run_bind (run_primary_name ht hts) _

theorem runs_member {callee : Tree} {point name : Token} (hcallee : Plain .chain [callee])
    (hpoint : point.isPunctuator "." = true) (hname : name.kind = .word)
    (h : Runs .chain [callee]) :
    Runs .chain [.node .member [callee, .leaf point, .leaf name]] := by
  intro n c u rest hts hn hlimit
  have htokens : tokensAll [.node .member [callee, .leaf point, .leaf name]] =
      tokensAll [callee] ++ [point, name] := by simp [tokensAll, tokens]
  simp only [htokens, List.length_append, List.length_cons, List.length_nil] at hn hlimit
  simp only [htokens, List.append_assoc, List.cons_append, List.nil_append] at hts ⊢
  obtain ⟨k, hk, hrun⟩ := h n c hts (by omega) (by omega)
  refine ⟨k + 1, by simp only [List.length_append, List.length_cons]; omega, fun m => ?_⟩
  rw [Nat.add_comm k, ← Nat.add_assoc, hrun (m + 1)]
  exact run_loop_true
    (run_suffix_member (areRegular_append hts) hcallee.isOptionalChain_eq_false
    hpoint hname) m

/-- The rounds of a list and its closing punctuator. -/
theorem run_listUntil {kind : ItemKind} {items : List Tree} (h : Runs (.items kind) items)
    (n : Nat) (c : Setting) {closing : String}
    (hts : areRegular (tokensAll items ++ u :: rest) = true)
    (hu : u.isPunctuator closing = true) (hclosing : closing.toList ∈ [[')'], ['\x7d']])
    (hn : 3 * (tokensAll items).length ≤ n) (hlimit : (tokensAll items).length < c.limit)
    (done : List Tree) :
    (listUntil closing (kind.listed (ofRules rules n))).run c
        (.facing done (tokensAll items ++ u :: rest)) =
      .ok ((), .facing (.leaf u :: (items.reverse ++ done)) rest) := by
  obtain ⟨k, hk, hrun⟩ := h n c hts hu hclosing hn hlimit
  obtain ⟨m, hm⟩ := Nat.exists_eq_add_of_lt (Nat.lt_of_le_of_lt hk hlimit)
  rw [listUntil, run_iterate, hm, Nat.add_assoc, Nat.add_comm k, hrun (m + 1)]
  exact run_loop_false (run_listStep_closing hu (areRegular_append hts) _ _)
    (Nat.succ_pos m)

theorem runs_call {callee : Tree} {opening closing : Token} {items : List Tree}
    (h : Plain .chain [.call callee [] opening items closing])
    (hcallee : Plain .chain [callee])
    (hopening : opening.isPunctuator "(" = true)
    (hclosing : closing.isPunctuator ")" = true)
    (hrunCallee : Runs .chain [callee]) (hrunItems : Runs (.items .value) items) :
    Runs .chain [.call callee [] opening items closing] := by
  intro n c u rest hts hn hlimit
  have hcall := h.call?_eq (isInner_of_areRegular hts)
  have htokens : tokensAll [.call callee [] opening items closing] =
      tokensAll [callee] ++ opening :: (tokensAll items ++ [closing]) := by
    simp [tokensAll, tokens]
  have hlen := congrArg List.length htokens
  simp only [List.length_append, List.length_cons, List.length_nil] at hlen
  rw [hlen] at hn hlimit
  simp only [htokens, List.append_assoc, List.cons_append, List.nil_append] at hts ⊢
  obtain ⟨k, hk, hrun⟩ := hrunCallee n c hts (by omega) (by omega)
  have hbehind := areRegular_append hts
  have harguments : (arguments (ofRules rules n)).run c
      (.facing [callee] (opening :: (tokensAll items ++ closing :: u :: rest))) =
        .ok ((), .facing (.leaf closing ::
          (items.reverse ++ [.leaf opening, callee])) (u :: rest)) := by
    rw [arguments, run_bind (run_expect hbehind hopening [callee]), run_within]
    exact run_listUntil hrunItems n c.inBrackets (areRegular_cons hbehind).2.2.2
      hclosing (by decide) (by omega)
      (show _ < c.limit by omega) _
  refine ⟨k + 1, by rw [List.length_append, List.length_cons]; omega, fun m => ?_⟩
  rw [Nat.add_comm k, ← Nat.add_assoc, hrun (m + 1)]
  exact run_loop_true
    (run_suffix_call hcallee.isOptionalChain_eq_false hopening harguments
    (by simpa using hcall)) m

theorem runs_constant {t : Token} (ht : t.isConstant = true) :
    Runs (.item .value) [.node .constant [.leaf t]] := by
  intro n c u rest hts hu hn hlimit done
  obtain ⟨n, rfl⟩ := Nat.exists_eq_add_of_le' (show 3 ≤ n from hn)
  refine run_value (Token.opens_of_isConstant ht) hts ?_ hu
    (Nat.zero_lt_of_lt hlimit) done
  rw [run_bind (run_primary_constant ht hts), run_iterate]
  exact run_loop_false (run_suffix_of_closes hu rfl rest) (Nat.zero_lt_of_lt hlimit)

theorem runs_object {opening closing : Token} {items : List Tree}
    (hopening : opening.isPunctuator "\x7b" = true)
    (hclosing : closing.isPunctuator "\x7d" = true)
    (h : Runs (.items .field) items) :
    Runs (.item .value)
      [.node .object (.leaf opening :: (items ++ [.leaf closing]))] := by
  intro n c u rest hts hu hn hlimit done
  have hopens : opening.opens = true := by rw [Token.opens, hopening, Bool.or_true]
  have htokens : tokensAll [.node .object (.leaf opening :: (items ++ [.leaf closing]))] =
      opening :: (tokensAll items ++ [closing]) := by
    simp [tokensAll, tokens, tokensAll_append]
  simp only [htokens, List.length_append, List.length_cons, List.length_nil] at hn hlimit
  simp only [htokens, List.append_assoc, List.cons_append, List.nil_append] at hts ⊢
  obtain ⟨n, rfl⟩ := Nat.exists_eq_add_of_le' (show 3 ≤ n by omega)
  have hobject : (objectLiteral (ofRules rules n)).run c
      (.facing [] (opening :: (tokensAll items ++ closing :: u :: rest))) =
        .ok ((), .facing
          [.node .object (.leaf opening :: (items ++ [.leaf closing]))] (u :: rest)) := by
    rw [objectLiteral]
    refine run_node .object ?_ []
    rw [run_bind (run_expect hts hopening []), run_within]
    refine (run_listUntil h n c.inBrackets (areRegular_cons hts).2.2.2 hclosing
      (by decide) (by omega)
      (show _ < c.limit by omega) _).trans ?_
    simp
  refine run_value hopens hts ?_ hu (Nat.zero_lt_of_lt hlimit) done
  rw [run_bind ((run_primary_object hopening _).trans hobject), run_iterate]
  exact run_loop_false (run_suffix_of_closes hu rfl rest) (Nat.zero_lt_of_lt hlimit)

theorem runs_field {key colon : Token} {value : Tree} (hkey : key.kind = .word)
    (hcolon : colon.isPunctuator ":" = true) (h : Runs (.item .value) [value]) :
    Runs (.item .field) [.node .phrase [.leaf key, .leaf colon, value]] := by
  intro n c u rest hts hu hn hlimit done
  have htokens : tokensAll [.node .phrase [.leaf key, .leaf colon, value]] =
      key :: colon :: tokensAll [value] := by simp [tokensAll, tokens]
  simp only [htokens, List.length_cons] at hn hlimit
  simp only [htokens, List.cons_append] at hts ⊢
  exact run_property hts hkey hcolon
    (h n c (areRegular_append (a := [key, colon]) hts) hu (by omega) (by omega) _) done

/-- An item of a list, up to the token behind it. -/
theorem run_listed {kind : ItemKind} {t : Tree} (ht : Plain (.item kind) [t])
    (h : Runs (.item kind) [t]) (n : Nat) (c : Setting)
    (hts : areRegular (tokensAll [t] ++ u :: rest) = true) (hu : u.closes = true)
    (hn : 3 * (tokensAll [t]).length ≤ n) (hlimit : (tokensAll [t]).length < c.limit)
    {closing : String} (hclosing : closing.toList ∈ [[')'], ['\x7d']])
    (done : List Tree) :
    ∃ s ss, tokensAll [t] = s :: ss ∧ s.isPunctuator closing = false ∧
      (kind.listed (ofRules rules n)).run c (.facing done (s :: (ss ++ u :: rest))) =
        .ok ((), .facing (t :: done) (u :: rest)) := by
  have hne : closing.toList ≠ ['\x7b'] := by
    rintro heq
    rw [heq] at hclosing
    exact absurd hclosing (by decide)
  obtain ⟨s, ss, hss, hs⟩ := ht.exists_item rfl
  have hrun := h n c hts hu hn hlimit done
  rw [hss, List.cons_append] at hrun
  refine ⟨s, ss, hss, ?_, ?_⟩
  · rcases hs with hs | ⟨-, hs⟩
    · exact Token.isPunctuator_of_opens hs hne
    · exact Token.isPunctuator_of_kind (by simp [hs]) closing
  · cases kind with
    | value =>
      have hs : s.opens = true := hs.resolve_right fun h => by cases h.1
      exact (run_spreadable hs done _).trans hrun
    | field => exact hrun

theorem runs_lastItem {kind : ItemKind} {t : Tree} (ht : Plain (.item kind) [t])
    (h : Runs (.item kind) [t]) : Runs (.items kind) [t] := by
  intro n c u rest closing hts hu hclosing hn hlimit
  obtain ⟨s, ss, hss, -⟩ := ht.exists_item rfl
  refine ⟨1, by rw [hss]; exact Nat.succ_pos _, fun m done => ?_⟩
  obtain ⟨s, ss, hss, hne, hrun⟩ :=
    run_listed ht h n c hts
      (Token.closes_of_isPunctuator hu
        (List.mem_append_left [[','], [';']] hclosing)) hn hlimit
    hclosing done
  rw [hss, List.cons_append]
  exact run_loop_true (run_listStep_last hne hrun hu) m

theorem runs_nextItem {kind : ItemKind} {t : Tree} {comma : Token} {ts : List Tree}
    (ht : Plain (.item kind) [t]) (hcomma : comma.isPunctuator "," = true)
    (h : Runs (.item kind) [t]) (hrest : Runs (.items kind) ts) :
    Runs (.items kind) (t :: .leaf comma :: ts) := by
  intro n c u rest closing hts hu hclosing hn hlimit
  have htokens : tokensAll (t :: .leaf comma :: ts) =
      tokensAll [t] ++ comma :: tokensAll ts := by
    simp [tokensAll, tokens]
  have hcloses := Token.closes_of_isPunctuator hcomma (by decide)
  have hne : comma.isPunctuator closing = false := by
    refine Token.isPunctuator_of_ne hcomma fun heq => ?_
    rw [← heq] at hclosing
    exact absurd hclosing (by decide)
  simp only [htokens, List.length_append, List.length_cons] at hn hlimit
  simp only [htokens, List.append_assoc, List.cons_append] at hts ⊢
  have hbehind := areRegular_append hts
  obtain ⟨k, hk, hrun⟩ :=
    hrest n c (areRegular_cons hbehind).2.2.2 hu hclosing (by omega) (by omega)
  refine ⟨k + 1, by rw [List.length_append, List.length_cons]; omega, fun m done => ?_⟩
  obtain ⟨s, ss, hss, hopen, hitem⟩ :=
    run_listed ht h n c hts hcloses (by omega) (by omega)
    hclosing done
  rw [hss, List.cons_append, ← Nat.add_assoc,
    run_loop_true (run_listStep_next hopen hitem hbehind hcomma hne), hrun m]
  simp

theorem runs_statement {t : Tree} {semicolon : Token} {ts : List Tree}
    (ht : Plain .chain [t])
    (hsemicolon : semicolon.isPunctuator ";" = true) (h : Runs .chain [t])
    (hrest : Runs .statements ts) :
    Runs .statements (.node .phrase [t, .leaf semicolon] :: ts) := by
  intro n c u rest hts hn hlimit
  have htokens : tokensAll (.node .phrase [t, .leaf semicolon] :: ts) =
      tokensAll [t] ++ semicolon :: tokensAll ts := by simp [tokensAll, tokens]
  have hcloses := Token.closes_of_isPunctuator hsemicolon (by decide)
  simp only [htokens, List.length_append, List.length_cons] at hn hlimit
  simp only [htokens, List.append_assoc, List.cons_append] at hts ⊢
  have hbehind := areRegular_append hts
  obtain ⟨k, hk, hrun⟩ := hrest n c (areRegular_cons hbehind).2.2.2 (by omega) (by omega)
  refine ⟨k + 1, by rw [List.length_append, List.length_cons]; omega, fun m done => ?_⟩
  obtain ⟨s, ss, hss, hs, hnext⟩ := ht.exists_chain rfl
  have hvalue := runs_operand ht h n c hts hcloses (by omega) (by omega) []
  rw [hss, List.cons_append] at hts hvalue ⊢
  have hcolon :
      (Token.read (tokensSource
        (ss ++ semicolon :: (tokensAll ts ++ u :: rest)))).1.isPunctuator
      ":" = false := by
    have hss := (areRegular_cons hts).2.2.2
    rcases ss with - | ⟨v, ss⟩
    · rw [List.nil_append, read_tokensSource hss]
      exact Token.isPunctuator_of_ne hsemicolon (by decide)
    · rw [List.cons_append] at hss ⊢
      rw [read_tokensSource hss]
      exact hnext v rfl
  rw [← Nat.add_assoc,
    run_loop_true (run_moduleStep hs hcolon hvalue hbehind hsemicolon done), hrun m]
  simp

/-- **The machine comes through plain rows.** -/
theorem runs_of_plain {r : Role} {ts : List Tree} (h : Plain r ts) : Runs r ts := by
  induction h with
  | name ht => exact runs_name ht
  | member hcallee hpoint hname ih => exact runs_member hcallee hpoint hname ih
  | call hcallee hopening hitems hclosing ihc ihi =>
    exact runs_call (.call hcallee hopening hitems hclosing) hcallee hopening
      hclosing ihc ihi
  | operand ht ih => exact runs_operand ht ih
  | constant ht => exact runs_constant ht
  | object hopening _ hclosing ih => exact runs_object hopening hclosing ih
  | field hkey hcolon _ ih => exact runs_field hkey hcolon ih
  | noItems => exact fun _ _ _ _ _ _ _ _ _ _ => ⟨0, Nat.zero_le _, fun _ _ => rfl⟩
  | lastItem ht ih => exact runs_lastItem ht ih
  | nextItem ht hcomma _ ih ihs => exact runs_nextItem ht hcomma ih ihs
  | noStatements => exact fun _ _ _ _ _ _ _ => ⟨0, Nat.zero_le _, fun _ _ => rfl⟩
  | statement ht hsemicolon _ ih ihs => exact runs_statement ht hsemicolon ih ihs

end Runs

end AnimLint.Script
