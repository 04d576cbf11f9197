/-
AnimLint/Proofs/ParserRuns.lean

Runs of the machine over rows of tokens.  In front of a row of tokens that is
read as it stands (`State.facing`), the machine takes token after token, so a
step can be followed by what it does to the row: it takes some tokens away and
adds trees for them.  There is one lemma for each step the machine is made of; a
phrase of the grammar is followed by putting these together.

Two sorts of tokens end most choices of the grammar: names that are no words of
the language (`Token.isOrdinary`), and the marks that end an operand
(`Token.closes`).
-/
import AnimLint.Proofs.TokenRows

namespace AnimLint.Script

/-! ### The machine in front of a row of tokens -/

/-- The machine in front of a row of tokens. -/
def State.facing (done : List Tree) : List Token → State
  | [] => ⟨done, ⟨[], .endOfText, []⟩, [], none⟩
  | t :: ts => ⟨done, t, tokensSource ts, none⟩

section Facing

variable {ts : List Token} {done : List Tree}

theorem read_facing (h : areRegular ts = true) (done : List Tree) :
    Token.read (tokensSource ts) =
      ((State.facing done ts).next, (State.facing done ts).ahead) := by
  cases ts with
  | nil => rfl
  | cons t ts => exact read_tokensSource h

theorem start_tokensSource (h : areRegular ts = true) :
    State.start (tokensSource ts) = .facing [] ts := by
  rw [State.start, read_facing h []]
  cases ts <;> rfl

theorem facing_frame (done done' : List Tree) :
    { State.facing done ts with done := done' } = .facing done' ts := by
  cases ts <;> rfl

theorem done_facing (done : List Tree) : (State.facing done ts).done = done := by
  cases ts <;> rfl

theorem areRegular_append {a b : List Token} (h : areRegular (a ++ b) = true) :
    areRegular b = true := by
  induction a with
  | nil => exact h
  | cons t a ih => exact ih (areRegular_cons h).2.2.2

end Facing

/-! ### Steps -/

namespace Parser

variable {α β : Type} {c : Setting} {s s' : State} {done : List Tree} {t : Token}
  {ts ts' : List Token}

/-- A step that comes through is followed by what goes on from there. -/
theorem run_bind {p : Parser α} {a : α} (h : p.run c s = .ok (a, s')) (f : α → Parser β) :
    (p >>= f).run c s = (f a).run c s' := by
  show (bind p f).run c s = _
  simp only [bind, h]

/-- What a look sees is there for what goes on from it. -/
theorem run_look (f : Setting → State → α) (g : α → Parser β) :
    (look f >>= g).run c s = (g (f c s)).run c s := rfl

theorem run_within (f : Setting → Setting) (p : Parser α) :
    (within f p).run c s = p.run (f c) s := rfl

/-- A step that sees none of the trees before it. -/
theorem run_frame {p : Parser α} {a : α} {trees : List Tree}
    (h : p.run c (.facing [] ts) = .ok (a, .facing trees ts')) (done : List Tree) :
    (frame p).run c (.facing done ts) = .ok (a, .facing (trees ++ done) ts') := by
  simp only [frame, facing_frame, h, done_facing]

/-- A step that makes one tree. -/
theorem run_frame_one {p : Parser α} {a : α} {v : Tree}
    (h : p.run c (.facing [] ts) = .ok (a, .facing [v] ts')) (done : List Tree) :
    (frame p).run c (.facing done ts) = .ok (a, .facing (v :: done) ts') :=
  run_frame h done

/-- A phrase is put together from the trees of its frame. -/
theorem run_node {p : Parser Unit} {parts : List Tree} (kind : Kind)
    (h : p.run c (.facing [] ts) = .ok ((), .facing parts.reverse ts'))
    (done : List Tree) :
    (node kind p).run c (.facing done ts) =
      .ok ((), .facing (.node kind parts :: done) ts') := by
  refine run_frame_one ?_ done
  rw [run_bind h]
  show Except.ok ((), (State.facing parts.reverse ts').pack _) = _
  rw [done_facing, State.pack, facing_frame, List.reverse_reverse]

theorem run_wrap (kind : Kind) (done : List Tree) (ts : List Token) :
    (wrap kind).run c (.facing done ts) =
      .ok ((), .facing [.node kind done.reverse] ts) := by
  show Except.ok ((), (State.facing done ts).pack _) = _
  rw [done_facing, State.pack, facing_frame]

theorem run_wrapCall {tree : Tree} (h : Tree.call? done.reverse = some tree)
    (ts : List Token) :
    wrapCall.run c (.facing done ts) = .ok ((), .facing [tree] ts) := by
  simp only [wrapCall, done_facing, h, State.pack, facing_frame]

/-- The next token is taken. -/
theorem run_bump (h : areRegular (t :: ts) = true) (done : List Tree) :
    bump.run c (.facing done (t :: ts)) = .ok ((), .facing (.leaf t :: done) ts) := by
  obtain ⟨-, hregular, -, hts⟩ := areRegular_cons h
  have hfault := Token.isRegular_cases hregular
  have hturn : ((State.facing done (t :: ts)).push (.leaf t)).turn
      (Token.read (tokensSource ts)) =
      .facing (.leaf t :: done) ts := by
    rw [read_facing hts (.leaf t :: done)]
    cases ts <;> rfl
  simp only [bump]
  split
  · next cause hkind =>
    have hkind : t.kind = .fault cause := hkind
    simp [hkind] at hfault
  · exact congrArg (fun s => Except.ok ((), s)) hturn

theorem run_sees (spelling : String) (t : Token) (ts : List Token) :
    (sees spelling).run c (.facing done (t :: ts)) =
      .ok (t.isPunctuator spelling, .facing done (t :: ts)) := rfl

theorem run_types (c : Setting) (s : State) :
    types.run c s = .ok (c.dialect.types, s) := rfl

theorem run_take (h : areRegular (t :: ts) = true) {spelling : String}
    (ht : t.isPunctuator spelling = true) (done : List Tree) :
    (take spelling).run c (.facing done (t :: ts)) =
      .ok (true, .facing (.leaf t :: done) ts) := by
  rw [take, run_bind (run_sees spelling t ts), if_pos ht, run_bind (run_bump h done)]
  rfl

theorem run_take_of_ne {spelling : String} (ht : t.isPunctuator spelling = false)
    (done : List Tree) (ts : List Token) :
    (take spelling).run c (.facing done (t :: ts)) =
      .ok (false, .facing done (t :: ts)) := by
  rw [take, run_bind (run_sees spelling t ts), ht]
  rfl

theorem run_expect (h : areRegular (t :: ts) = true) {spelling : String}
    (ht : t.isPunctuator spelling = true) (done : List Tree) :
    (expect spelling).run c (.facing done (t :: ts)) =
      .ok ((), .facing (.leaf t :: done) ts) := by
  rw [expect, run_bind (run_take h ht done)]
  rfl

/-- A step that answers `true` is repeated. -/
theorem run_loop_true {p : Parser Bool} (h : p.run c s = .ok (true, s')) (n : Nat) :
    (loop (n + 1) p).run c s = (loop n p).run c s' := by
  simp only [loop, h]

/-- A step that answers `false` is the last one. -/
theorem run_loop_false {p : Parser Bool} (h : p.run c s = .ok (false, s')) {n : Nat}
    (hn : 0 < n) :
    (loop n p).run c s = .ok ((), s') := by
  obtain ⟨n, rfl⟩ := Nat.exists_eq_add_of_lt hn
  simp only [Nat.zero_add, loop, h]

theorem run_iterate (p : Parser Bool) :
    (iterate p).run c s = (loop c.limit p).run c s := rfl

theorem run_recover {mend : Setting → Stop → Token → Option Mishap} {p : Parser Unit}
    (h : p.run c s = .ok ((), s')) : (recover mend p).run c s = .ok ((), s') := by
  simp only [recover, h]

end Parser

/-! ### Names and marks -/

namespace Token

/-- Holds of names that are no words of the language. -/
def isOrdinary (t : Token) : Bool :=
  t.kind == .word && (keywords ++ contextualWords).all fun w => t.text != w.toList

/-- Holds of the marks that end an operand. -/
def closes (t : Token) : Bool :=
  t.kind == .punctuator && [[')'], ['\x7d'], [','], [';']].contains t.text

variable {t : Token}

theorem kind_of_isOrdinary (h : t.isOrdinary = true) : t.kind = .word := by
  simp only [isOrdinary, Bool.and_eq_true, beq_iff_eq] at h
  exact h.1

theorem isWord_of_isOrdinary (h : t.isOrdinary = true) {w : String}
    (hw : w ∈ keywords ++ contextualWords) : t.isWord w = false := by
  simp only [isOrdinary, Bool.and_eq_true, List.all_eq_true, bne_iff_ne] at h
  rw [isWord, beq_eq_false_iff_ne.2 (h.2 w hw), Bool.and_false]

theorem isName_of_isOrdinary (h : t.isOrdinary = true) : t.isName = true := by
  have hkeyword : t.isKeyword = false := by
    rw [isKeyword, Bool.and_eq_false_iff]
    refine .inr (List.any_eq_false.2 fun w hw => ?_)
    have hne := isWord_of_isOrdinary h (List.mem_append_left contextualWords hw)
    rw [isWord, kind_of_isOrdinary h] at hne
    simpa using hne
  rw [isName, kind_of_isOrdinary h, hkeyword]
  rfl

theorem any_isPunctuator {ps : List String} (h : ∀ p ∈ ps, t.isPunctuator p = false) :
    (ps.any fun p => t.isPunctuator p) = false :=
  List.any_eq_false.2 fun p hp => by simp [h p hp]

theorem isPunctuator_of_kind (h : t.kind ≠ .punctuator) (p : String) :
    t.isPunctuator p = false := by
  rw [isPunctuator, beq_eq_false_iff_ne.2 h, Bool.false_and]

theorem isWord_of_kind (h : t.kind ≠ .word) (w : String) : t.isWord w = false := by
  rw [isWord, beq_eq_false_iff_ne.2 h, Bool.false_and]

theorem kind_of_isPunctuator {p : String} (h : t.isPunctuator p = true) :
    t.kind = .punctuator := by
  simp only [isPunctuator, Bool.and_eq_true, beq_iff_eq] at h
  exact h.1

theorem text_of_isPunctuator {p : String} (h : t.isPunctuator p = true) :
    t.text = p.toList := by
  simp only [isPunctuator, Bool.and_eq_true, beq_iff_eq] at h
  exact h.2

/-- A punctuator has one spelling. -/
theorem isPunctuator_of_ne {p q : String} (h : t.isPunctuator p = true)
    (hne : p.toList ≠ q.toList) : t.isPunctuator q = false := by
  rw [isPunctuator, text_of_isPunctuator h, beq_eq_false_iff_ne.2 hne, Bool.and_false]

theorem kind_of_closes (h : t.closes = true) : t.kind = .punctuator := by
  simp only [closes, Bool.and_eq_true, beq_iff_eq] at h
  exact h.1

theorem closes_of_isPunctuator {p : String} (h : t.isPunctuator p = true)
    (hp : p.toList ∈ [[')'], ['\x7d'], [','], [';']]) : t.closes = true := by
  rw [closes, kind_of_isPunctuator h, text_of_isPunctuator h]
  exact List.contains_iff_mem.2 hp

theorem isPunctuator_of_closes (h : t.closes = true) {p : String}
    (hp : p.toList ∉ [[')'], ['\x7d'], [','], [';']]) : t.isPunctuator p = false := by
  simp only [closes, Bool.and_eq_true, List.contains_iff_mem] at h
  refine Bool.eq_false_iff.2 fun htext => hp ?_
  rw [← text_of_isPunctuator htext]
  exact h.2

end Token

end AnimLint.Script
