/-
AnimLint/Script/Parser.lean

The machine that builds syntax trees.  It holds the trees that are finished, the
next token and the text after it.  A parser moves text from ahead to the
finished trees and may put trees together; it comes with the proof that nothing
is lost or changed on the way (`Parser.keeps`), so whatever the grammar does
with the machine, the tree it ends with spells the text; and tokens are only
read behind blanks and whole comments, and calls are put together only from what
makes a call, so that all trees are sound.  A calm text stays calm as long as no
fault is noted, and so its tree has no call.

Parsers may give up: `attempt` goes back to where it started, and `recover` goes
on where the parser stopped.  `frame` keeps the trees that a phrase builds apart
from those before it.

Main definitions: `Setting`, `State`, `State.Follows`, `Parser` and its
primitives.
-/
import AnimLint.Script.Calm

namespace AnimLint.Script

/-! ### Settings -/

/-- What a script may contain besides the plain language. -/
structure Dialect where
  /-- Type annotations. -/
  types : Bool
  /-- Tags as expressions. -/
  markup : Bool
deriving DecidableEq, Repr

/-- What depends on where a phrase stands. -/
structure Setting where
  dialect : Dialect
  /-- A bound on the number of rounds of any repetition. -/
  limit : Nat
  inFunction : Bool := false
  awaits : Bool := true
  yields : Bool := false
  breakable : Bool := false
  continuable : Bool := false
  labels : List (List Char) := []
  /-- Whether `in` is an operator here. -/
  allowIn : Bool := true
  /-- Whether a colon has to follow, so that one cannot open a return type. -/
  colonDue : Bool := false
  /-- Whether declarations stand without values here. -/
  ambient : Bool := false
  /-- Whether a type may go on with a condition here. -/
  conditionalTypes : Bool := true

/-- The setting inside brackets, where nothing outside matters. -/
def Setting.inBrackets (c : Setting) : Setting :=
  { c with allowIn := true, colonDue := false, conditionalTypes := true }

/-- The setting of the body of a loop. -/
def Setting.inLoop (c : Setting) : Setting :=
  { c with breakable := true, continuable := true }

/-- The setting of a function body. -/
def Setting.inBody (awaits yields : Bool) (c : Setting) : Setting :=
  { c with
    inFunction := true, awaits := awaits, yields := yields, breakable := false
    continuable := false, labels := [], allowIn := true, colonDue :=
      false, ambient := false }

/-! ### States -/

/-- A fault and the text from its place on. -/
structure Mishap where
  fault : Fault
  rest : List Char
deriving DecidableEq, Repr

/-- Why a step stopped. -/
structure Stop where
  mishap : Mishap
  /-- The text from the token on that the step stopped in front of, where
  reading can be resumed. -/
  left : Option (List Char)
deriving DecidableEq, Repr

/-- Where the machine stands. -/
structure State where
  /-- The trees of the current frame, the last one first. -/
  done : List Tree
  next : Token
  ahead : List Char
  /-- The first fault that did not stop the machine. -/
  noted : Option Mishap

namespace State

/-- The text from the start of the current frame on. -/
def source (s : State) : List Char :=
  Tree.sourceAll s.done.reverse ++ (s.next.source ++ s.ahead)

/-- The text from the next token on. -/
def rest (s : State) : List Char := s.next.text ++ s.ahead

/-- The machine with another token and text ahead. -/
def turn (s : State) (cut : Token × List Char) : State :=
  { s with next := cut.1, ahead := cut.2 }

/-- The machine with another tree at the end of its frame. -/
def push (s : State) (t : Tree) : State := { s with done := t :: s.done }

/-- The machine with the trees of its frame put together. -/
def pack (s : State) (t : Tree) : State := { s with done := [t] }

theorem source_turn (s : State) (cut : Token × List Char)
    (h : cut.1.source ++ cut.2 = s.next.source ++ s.ahead) :
    (s.turn cut).source = s.source := by
  simp [turn, source, h]

theorem source_turn_push (s : State) :
    ((s.push (.leaf s.next)).turn (Token.read s.ahead)).source = s.source := by
  simp [turn, push, source, Tree.sourceAll, Tree.source, Token.read_source]

theorem source_pack (s : State) (t : Tree)
    (h : t.source = Tree.sourceAll s.done.reverse) :
    (s.pack t).source = s.source := by
  simp [pack, source, Tree.sourceAll, h]

/-- The machine in front of a text. -/
def start (text : List Char) : State :=
  turn ⟨[], ⟨[], .endOfText, []⟩, [], none⟩ (Token.read text)

@[simp] theorem source_start (text : List Char) : (start text).source = text := by
  simp [start, turn, source, Tree.sourceAll, Token.read_source]

/-- The machine in front of what is left of its text, which has to be the end of
it; what stands before is passed over, and a fault is noted. -/
def resume? (s : State) (left : List Char) (mishap : Mishap) : Option State :=
  let noted := s.noted <|> some mishap
  let passed := s.rest.take (s.rest.length - left.length)
  if passed.isEmpty then some { s with noted := noted }
  else if passed ++ left = s.rest then
    let leaf := Tree.leaf ⟨s.next.trivia, .fault mishap.fault, passed⟩
    some { (s.push leaf).turn (Token.read left) with noted := noted }
  else none

theorem source_resume {s s' : State} {left : List Char} {mishap : Mishap}
    (h : s.resume? left mishap = some s') : s'.source = s.source := by
  simp only [resume?] at h
  split at h
  · obtain rfl := Option.some.inj h
    rfl
  · split at h
    · next hrest =>
      obtain rfl := Option.some.inj h
      simp only [turn, push, source, List.reverse_cons, Tree.sourceAll_append,
        Tree.sourceAll, Tree.source, Token.source, List.append_nil, List.append_assoc]
      have := Token.read_source left
      simp only [Token.source, List.append_assoc] at this
      rw [this, hrest, rest]
    · simp at h

/-- Holds if all finished trees are sound and the next token is plain. -/
def isSound (s : State) : Bool := s.done.all Tree.isSound && s.next.isPlain

theorem isSound_turn {s : State} {cut : Token × List Char}
    (hs : s.done.all Tree.isSound = true)
    (hcut : cut.1.isPlain = true) : (s.turn cut).isSound = true := by
  simp [isSound, turn, hs, hcut]

theorem sound_resume {s s' : State} {left : List Char} {mishap : Mishap}
    (h : s.resume? left mishap = some s') (hs : s.isSound = true) :
    s'.isSound = true := by
  simp only [resume?] at h
  split at h
  · obtain rfl := Option.some.inj h
    exact hs
  · split at h
    · obtain rfl := Option.some.inj h
      simp only [isSound, Bool.and_eq_true] at hs
      simp only [isSound, turn, push, List.all_cons, Tree.isSound, hs.1,
        Token.isPlain_read, Bool.and_true]
      exact hs.2
    · simp at h

theorem noted_resume {s s' : State} {left : List Char} {mishap : Mishap}
    (h : s.resume? left mishap = some s') : s'.noted ≠ none := by
  have hnoted : (s.noted <|> some mishap) ≠ none := by
    rcases s.noted with - | m <;> exact Option.some_ne_none _
  simp only [resume?] at h
  split at h
  · obtain rfl := Option.some.inj h
    exact hnoted
  · split at h
    · obtain rfl := Option.some.inj h
      exact hnoted
    · simp at h

/-- Holds of machines that have read calm tokens only and have a calm text
before them. -/
structure Calm (s : State) : Prop where
  done : s.done.all Tree.isCalm = true
  rest : Script.Calm s.rest
  ahead : Script.Calm s.ahead

/-- Holds if the next token, or a token of the current frame, asks that text be
read in a way of its own. -/
def isMarked (s : State) : Bool := s.next.isMarked || s.done.any Tree.isMarked

theorem Calm.isMarked_eq_false {s : State} (h : s.Calm) : s.isMarked = false := by
  have hdone : s.done.any Tree.isMarked = false := List.any_eq_false.2 fun t ht => by
    rw [Tree.isMarked_eq_false (List.all_eq_true.1 h.done t ht)]
    exact Bool.false_ne_true
  rw [isMarked, Token.isMarked_eq_false (Token.isCalm_of_rest h.rest), hdone]
  rfl

theorem Calm.turn {s : State} {cut : Token × List Char}
    (h : s.done.all Tree.isCalm = true)
    (hcut : Script.Calm (cut.1.text ++ cut.2) ∧ Script.Calm cut.2) : (s.turn cut).Calm :=
  ⟨h, hcut.1, hcut.2⟩

/-- What every step of the machine keeps: the text, that what it holds is sound,
and, unless a fault is noted, that it is calm. -/
structure Follows (s s' : State) : Prop where
  source : s'.source = s.source
  sound : s.isSound = true → s'.isSound = true
  calm : s'.noted = none → s.noted = none ∧ (s.Calm → s'.Calm)

theorem Follows.refl (s : State) : s.Follows s := ⟨rfl, id, fun h => ⟨h, id⟩⟩

theorem Follows.trans {s s' s'' : State} (h : s.Follows s') (h' : s'.Follows s'') :
    s.Follows s'' where
  source := h'.source.trans h.source
  sound := h'.sound ∘ h.sound
  calm hnone := by
    obtain ⟨hnone', hcalm'⟩ := h'.calm hnone
    obtain ⟨hnone, hcalm⟩ := h.calm hnone'
    exact ⟨hnone, hcalm' ∘ hcalm⟩

theorem Follows.of_turn (s : State) (cut : Token × List Char)
    (h : cut.1.source ++ cut.2 = s.next.source ++ s.ahead)
    (hcut : s.next.isPlain = true → cut.1.isPlain = true)
    (hcalm : s.Calm → Script.Calm (cut.1.text ++ cut.2) ∧ Script.Calm cut.2) :
    s.Follows (s.turn cut) where
  source := s.source_turn cut h
  sound hs := by
    simp only [isSound, Bool.and_eq_true] at hs
    exact isSound_turn hs.1 (hcut hs.2)
  calm hnone := ⟨hnone, fun hs => .turn hs.done (hcalm hs)⟩

theorem Follows.of_pack (s : State) (t : Tree)
    (h : t.source = Tree.sourceAll s.done.reverse)
    (ht : s.done.all Tree.isSound = true → t.isSound = true)
    (hcalm : s.done.all Tree.isCalm = true → t.isCalm = true) : s.Follows (s.pack t) where
  source := s.source_pack t h
  sound hs := by
    simp only [isSound, Bool.and_eq_true] at hs
    simp [isSound, pack, ht hs.1, hs.2]
  calm hnone := ⟨hnone, fun hs => ⟨by simp [pack, hcalm hs.done], hs.rest, hs.ahead⟩⟩

end State

/-! ### Parsers -/

/-- A step of the machine, which keeps the text and the trees sound. -/
structure Parser (α : Type) where
  run : Setting → State → Except Stop (α × State)
  keeps : ∀ {c : Setting} {s : State} {a : α} {s' : State},
    run c s = .ok (a, s') → s.Follows s'

namespace Parser

variable {α β : Type}

/-- Does nothing. -/
def pure (a : α) : Parser α where
  run _ s := .ok (a, s)
  keeps h := by
    obtain ⟨_, rfl⟩ := Prod.mk.inj (Except.ok.inj h)
    exact .refl _

/-- One step after another. -/
def bind (p : Parser α) (f : α → Parser β) : Parser β where
  run c s :=
    match p.run c s with
    | .error e => .error e
    | .ok (a, s') => (f a).run c s'
  keeps {c s b s''} h := by
    split at h
    · simp at h
    · next a s' hp => exact (p.keeps hp).trans ((f a).keeps h)

instance : Monad Parser where
  pure := pure
  bind := bind

/-- A step that only looks. -/
def look (f : Setting → State → α) : Parser α where
  run c s := .ok (f c s, s)
  keeps h := by
    obtain ⟨_, rfl⟩ := Prod.mk.inj (Except.ok.inj h)
    exact .refl _

/-- The setting. -/
def setting : Parser Setting := look fun c _ => c

/-- The next token. -/
def peek : Parser Token := look fun _ s => s.next

/-- The token after the next. -/
def peekSecond : Parser Token := look fun _ s => (Token.read s.ahead).1

/-- The second token after the next. -/
def peekThird : Parser Token := look fun _ s => (Token.read (Token.read s.ahead).2).1

/-- The text from the next token on. -/
def here : Parser (List Char) := look fun _ s => s.rest

/-- The last tree of the frame. -/
def last? : Parser (Option Tree) := look fun _ s => s.done.head?

/-- Whether the frame has a tree of which `p` holds. -/
def anyDone (p : Tree → Bool) : Parser Bool := look fun _ s => s.done.any p

/-- Stops at a given place. -/
def failAt (rest : List Char) (fault : Fault) : Parser α where
  run _ s := .error ⟨⟨fault, rest⟩, some s.rest⟩
  keeps h := by simp at h

/-- Stops at the next token. -/
def fail (fault : Fault) : Parser α where
  run _ s := .error ⟨⟨fault, s.rest⟩, some s.rest⟩
  keeps h := by simp at h

/-- Stops with the fault that the next token is. -/
def failLexical (otherwise : Fault) : Parser α where
  run _ s :=
    match s.next.kind with
    | .fault cause => .error ⟨⟨cause, s.ahead⟩, none⟩
    | _ => .error ⟨⟨otherwise, s.rest⟩, some s.rest⟩
  keeps h := by split at h <;> simp at h

/-- Notes a fault at a given place and goes on. -/
def noteAt (rest : List Char) (fault : Fault) : Parser Unit where
  run _ s := .ok ((), { s with noted := s.noted <|> some ⟨fault, rest⟩ })
  keeps {_ s _ _} h := by
    obtain ⟨_, rfl⟩ := Prod.mk.inj (Except.ok.inj h)
    refine ⟨rfl, id, fun hnone => ?_⟩
    rcases hnoted : s.noted with - | m <;> rw [hnoted] at hnone <;> cases hnone

/-- Notes a fault at the next token and goes on. -/
def note (fault : Fault) : Parser Unit := do noteAt (← here) fault

/-- Takes the next token. -/
def bump : Parser Unit where
  run _ s :=
    match s.next.kind with
    | .fault cause => .error ⟨⟨cause, s.ahead⟩, none⟩
    | _ => .ok ((), (s.push (.leaf s.next)).turn (Token.read s.ahead))
  keeps {c s a s'} h := by
    split at h
    · simp at h
    · obtain ⟨_, rfl⟩ := Prod.mk.inj (Except.ok.inj h)
      refine ⟨s.source_turn_push, fun hs => ?_, fun hnone => ⟨hnone, fun hs => ?_⟩⟩
      · simp only [State.isSound, Bool.and_eq_true] at hs
        refine State.isSound_turn ?_ (Token.isPlain_read s.ahead)
        simp only [State.push, List.all_cons, Tree.isSound, hs.1, hs.2, Bool.and_true]
      · refine .turn ?_ (Token.calm_read hs.ahead)
        simp only [State.push, List.all_cons, Tree.isCalm,
          Token.isCalm_of_rest hs.rest, hs.done, Bool.and_true]

/-- Reads the next token again, from after its trivia on, by a reader that
leaves calm texts calm. -/
def recut (reader : List Char → TokenKind × Nat)
    (hreader : ∀ {s}, Calm s → Calm (s.drop (reader s).2)) : Parser Unit where
  run _ s := .ok ((), s.turn (Token.cut reader s.next.trivia s.rest))
  keeps {c s a s'} h := by
    obtain ⟨_, rfl⟩ := Prod.mk.inj (Except.ok.inj h)
    refine .of_turn s _ (by rw [Token.cut_source]; simp [Token.source, State.rest])
      id fun hs => ?_
    exact ⟨by simpa [Token.cut] using hs.rest, hreader hs.rest⟩

/-- Where a mark asks for it, puts another token and text in place of the next
token and the text ahead. -/
def recutMarked (cut : State → Token × List Char)
    (hcut : ∀ s, (cut s).1.source ++ (cut s).2 = s.next.source ++ s.ahead)
    (hplain : ∀ s, s.next.isPlain = true → (cut s).1.isPlain = true) : Parser Unit where
  run _ s := .ok ((), if s.isMarked then s.turn (cut s) else s)
  keeps {c s a s'} h := by
    obtain ⟨_, rfl⟩ := Prod.mk.inj (Except.ok.inj h)
    split
    · next hmarked =>
      refine .of_turn s _ (hcut s) (hplain s) fun hs => ?_
      rw [hs.isMarked_eq_false] at hmarked
      cases hmarked
    · exact .refl s

/-- Reads the next token again, from after its trivia on, where a mark asks for
it. -/
def recutAfterTrivia (reader : List Char → TokenKind × Nat) : Parser Unit :=
  recutMarked (fun s => Token.cut reader s.next.trivia s.rest)
    (fun s => by rw [Token.cut_source]; simp [Token.source, State.rest]) fun _ => id

/-- Reads the next token again, from the end of the last one on, where a mark
asks for it. -/
def recutRaw (reader : List Char → TokenKind × Nat) : Parser Unit :=
  recutMarked (fun s => Token.cut reader [] (s.next.source ++ s.ahead))
    (fun s => by simp [Token.cut_source, triviaText]) fun _ _ => rfl

/-- Goes back if a step stops. -/
def attempt (p : Parser α) : Parser (Option α) where
  run c s :=
    match p.run c s with
    | .error _ => .ok (none, s)
    | .ok (a, s') => .ok (some a, s')
  keeps {c s a s'} h := by
    split at h
    · obtain ⟨_, rfl⟩ := Prod.mk.inj (Except.ok.inj h)
      exact .refl _
    · next hp =>
      obtain ⟨_, rfl⟩ := Prod.mk.inj (Except.ok.inj h)
      exact p.keeps hp

/-- Runs a step; where it stops in front of a token, `mend` may turn that into a
fault to be noted, and reading is resumed there. -/
def recover (mend : Setting → Stop → Token → Option Mishap) (p : Parser Unit) :
    Parser Unit where
  run c s :=
    match p.run c s with
    | .ok done => .ok done
    | .error stop =>
      match (stop.left.bind fun left =>
          (mend c stop (Token.read left).1).bind (s.resume? left)) with
      | some s' => .ok ((), s')
      | none => .error stop
  keeps {c s a s'} h := by
    split at h
    · next hp =>
      obtain rfl := Except.ok.inj h
      exact p.keeps hp
    · split at h
      · next hs =>
        obtain ⟨_, rfl⟩ := Prod.mk.inj (Except.ok.inj h)
        obtain ⟨left, _, hleft⟩ := Option.bind_eq_some_iff.1 hs
        obtain ⟨mishap, _, hresume⟩ := Option.bind_eq_some_iff.1 hleft
        exact ⟨State.source_resume hresume, State.sound_resume hresume,
          fun hnone => absurd hnone (State.noted_resume hresume)⟩
      · simp at h

/-- Runs a step that is not resumed where it stops. -/
def final (p : Parser α) : Parser α where
  run c s :=
    match p.run c s with
    | .ok done => .ok done
    | .error stop => .error { stop with left := none }
  keeps {c s a s'} h := by
    split at h
    · next hp =>
      obtain rfl := Except.ok.inj h
      exact p.keeps hp
    · simp at h

/-- Runs a step in another setting. -/
def within (f : Setting → Setting) (p : Parser α) : Parser α where
  run c s := p.run (f c) s
  keeps h := p.keeps h

/-- Runs a step that sees none of the trees before it. -/
def frame (p : Parser α) : Parser α where
  run c s :=
    match p.run c { s with done := [] } with
    | .error e => .error e
    | .ok (a, s') => .ok (a, { s' with done := s'.done ++ s.done })
  keeps {c s a s'} h := by
    split at h
    · simp at h
    · next hp =>
      obtain ⟨_, rfl⟩ := Prod.mk.inj (Except.ok.inj h)
      have hsource := (p.keeps hp).source
      have hsound := (p.keeps hp).sound
      simp only [State.source, List.reverse_nil, Tree.sourceAll, List.nil_append]
        at hsource
      refine ⟨by simp [State.source, ← hsource], fun hs => ?_, fun hnone => ?_⟩
      · simp only [State.isSound, Bool.and_eq_true, List.all_nil, true_and] at hsound hs
        simp [State.isSound, List.all_append, hsound hs.2, hs.1]
      · obtain ⟨hnone, hcalm⟩ := (p.keeps hp).calm hnone
        refine ⟨hnone, fun hs => ?_⟩
        have hframe := hcalm ⟨rfl, hs.rest, hs.ahead⟩
        exact ⟨by simp [List.all_append, hframe.done, hs.done], hframe.rest, hframe.ahead⟩

/-- Puts the trees of the frame together. -/
def wrap (kind : Kind) : Parser Unit where
  run _ s := .ok ((), s.pack (.node kind s.done.reverse))
  keeps {c s a s'} h := by
    obtain ⟨_, rfl⟩ := Prod.mk.inj (Except.ok.inj h)
    refine .of_pack s _ (by simp [Tree.source]) (fun hs => ?_) fun hs => ?_
    · rw [Tree.isSound, Tree.areSound_eq_all, List.all_reverse, hs]
    · rw [Tree.isCalm, Tree.areCalm_eq_all, List.all_reverse, hs]

/-- Puts the trees of the frame together into a call. -/
def wrapCall : Parser Unit where
  run _ s :=
    match Tree.call? s.done.reverse with
    | some t => .ok ((), s.pack t)
    | none => .error ⟨⟨.expressionExpected, s.rest⟩, some s.rest⟩
  keeps {c s a s'} h := by
    split at h
    · next ht =>
      obtain ⟨_, rfl⟩ := Prod.mk.inj (Except.ok.inj h)
      refine .of_pack s _ (Tree.source_call ht)
        (fun hs => Tree.isSound_call ht ?_) fun hs => ?_
      · rw [Tree.areSound_eq_all, List.all_reverse, hs]
      · rw [Tree.call?_eq_none (by rw [Tree.areCalm_eq_all, List.all_reverse, hs])] at ht
        cases ht
    · simp at h

/-- Repeats a step while it answers `true`, at most so many times. -/
def loop : Nat → Parser Bool → Parser Unit
  | 0, _ => fail .tooDeep
  | n + 1, p => {
    run := fun c s =>
      match p.run c s with
      | .error e => .error e
      | .ok (true, s') => (loop n p).run c s'
      | .ok (false, s') => .ok ((), s')
    keeps := fun {c s a s'} h => by
      split at h
      · simp at h
      · next hp => exact (p.keeps hp).trans ((loop n p).keeps h)
      · next hp =>
        obtain ⟨_, rfl⟩ := Prod.mk.inj (Except.ok.inj h)
        exact p.keeps hp }

/-- Repeats a step while it answers `true`. -/
def iterate (p : Parser Bool) : Parser Unit where
  run c s := (loop c.limit p).run c s
  keeps {c _ _ _} h := (loop c.limit p).keeps h

/-! ### Small steps made of these -/

/-- A phrase of a kind. -/
def node (kind : Kind) (p : Parser Unit) : Parser Unit := frame do p; wrap kind

/-- Whether the next token is the given punctuator. -/
def sees (spelling : String) : Parser Bool := look fun _ s => s.next.isPunctuator spelling

/-- Whether the next token is the given word. -/
def seesWord (spelling : String) : Parser Bool := look fun _ s => s.next.isWord spelling

/-- Whether the next token is the given punctuator, with no line end before
it. -/
def seesOnLine (spelling : String) : Parser Bool :=
  look fun _ s => s.next.isPunctuator spelling && !s.next.afterLineEnd

/-- Whether the next token may name something. -/
def seesName : Parser Bool := look fun _ s => s.next.isName

/-- Whether the text ends here. -/
def seesEnd : Parser Bool := look fun _ s => s.next.kind == .endOfText

/-- Takes the given punctuator if it is next. -/
def take (spelling : String) : Parser Bool := do
  if ← sees spelling then bump; return true else return false

/-- Takes the given word if it is next. -/
def takeWord (spelling : String) : Parser Bool := do
  if ← seesWord spelling then bump; return true else return false

/-- Stops because something else was due. -/
def failExpected (due : String) : Parser α := do
  fail (.expected due (← peek).shown)

/-- Stops because something of another kind was due. -/
def failUnexpected (due : String) : Parser α := do
  fail (.unexpected (← peek).shown due)

/-- Takes the given punctuator, which has to be next. -/
def expect (spelling : String) : Parser Unit := do
  unless ← take spelling do failExpected spelling

/-- Takes the given word, which has to be next. -/
def expectWord (spelling : String) : Parser Unit := do
  unless ← takeWord spelling do failExpected spelling

/-- Takes a name. -/
def name : Parser Unit := do
  if ← seesName then bump else failLexical .nameExpected

/-- Takes a name or keyword. -/
def anyWord : Parser Unit := do
  if (← peek).kind == .word then bump else failLexical .nameExpected

/-- Whether type annotations are part of the language. -/
def types : Parser Bool := return (← setting).dialect.types

/-- Whether tags are part of the language. -/
def markup : Parser Bool := return (← setting).dialect.markup

/-- Cuts a punctuator after its first character, as nested brackets need. -/
def splitPunctuator : Parser Unit := recutAfterTrivia fun _ => (.punctuator, 1)

/-- Takes the `<` that opens type arguments, also where it is the first half of
`<<`. -/
def expectLess : Parser Unit := do
  if (← peek).isPunctuator "<<" then splitPunctuator
  expect "<"

/-- Takes the `>` that closes type arguments, also where it starts a longer
punctuator. -/
def expectGreater : Parser Unit := do
  let t ← peek
  if t.kind == .punctuator && t.text.head? == some '>' then splitPunctuator
  expect ">"

/-- Whether a statement may end before the next token. -/
def seesStatementEnd : Parser Bool := look fun _ s =>
  s.next.isPunctuator ";" || s.next.isPunctuator "\x7d" || s.next.kind == .endOfText ||
    s.next.afterLineEnd

/-- Takes the end of a statement if there may be one, and a semicolon if there
is one. -/
def takeStatementEnd : Parser Bool := do
  if ← seesStatementEnd then
    let _ ← take ";"
    return true
  else return false

/-- Takes the end of a statement. -/
def statementEnd : Parser Unit := do
  unless ← takeStatementEnd do failExpected ";"

/-- An item with the comma behind it, or the closing punctuator of a list; the
answer is whether the list goes on. -/
def listStep (closing : String) (item : Parser Unit) : Parser Bool := do
  if ← take closing then return false
  item
  if ← sees closing then return true
  expect ","
  return true

/-- Items with commas between them up to a closing punctuator; a comma may stand
after the last. -/
def listUntil (closing : String) (item : Parser Unit) : Parser Unit :=
  iterate (listStep closing item)

end Parser

/-! ### Grammars -/

/-- Lets the rules of a grammar, which say how each phrase is made of phrases,
be used up to a given depth of nesting. -/
def Parser.ofRules {Phrase : Type}
    (rules : (Phrase → Parser Unit) → Phrase → Parser Unit) :
    Nat → Phrase → Parser Unit
  | 0, _ => .fail .tooDeep
  | n + 1, phrase => rules (ofRules rules n) phrase

end AnimLint.Script
