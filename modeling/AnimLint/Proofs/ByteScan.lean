/-
AnimLint/Proofs/ByteScan.lean

Reading a gap byte by byte.  A scanner that looks at single bytes never decodes
a character: it moves on by one byte, over a backslash and the byte behind it by
two, and behind a comment to where a search ends.  So it may come to stand
inside a character, and it has to cut the text where segments end; a cut inside
a character or beyond the text fails (`scanFrom`).

It never does.  A byte of ASCII stands only where a character does
(`ne_of_mem_encoding`), so nothing opens or closes inside a character, and the
scanner cuts where the reader of characters does (`scan_segmented`).  What holds
of the segments follows from what they are (`segments_lossless`).
-/
import AnimLint.Proofs.Segmentation

namespace AnimLint

/-! ### Bytes -/

namespace Text

/-- The bytes of a text. -/
def bytes (s : List Char) : List UInt8 := s.flatMap String.utf8EncodeChar

theorem bytes_append (s t : List Char) : bytes (s ++ t) = bytes s ++ bytes t :=
  List.flatMap_append

theorem bytes_cons (c : Char) (s : List Char) :
    bytes (c :: s) = String.utf8EncodeChar c ++ bytes s :=
  List.flatMap_cons

theorem length_bytes (s : List Char) : (bytes s).length = byteLength s := by
  induction s with
  | nil => rfl
  | cons c s ih =>
    rw [bytes_cons, List.length_append, String.length_utf8EncodeChar, ih, byteLength_cons]

/-- The bytes behind a character boundary are those of the text behind it. -/
theorem getElem?_bytes (p s : List Char) (k : Nat) :
    (bytes (p ++ s))[byteLength p + k]? = (bytes s)[k]? := by
  rw [bytes_append, List.getElem?_append_right (by rw [length_bytes]; omega),
    length_bytes, Nat.add_sub_cancel_left]

/-- Holds of the characters that take one byte. -/
def IsAscii (c : Char) : Prop := c.toNat < 128
deriving Decidable

theorem encoding_of_isAscii {c : Char} (h : IsAscii c) :
    String.utf8EncodeChar c = [c.toUInt8] := by
  have hle : c.val.toNat ≤ 127 := Nat.le_of_lt_succ h
  rw [String.utf8EncodeChar]
  simp only [if_pos hle]
  rfl

theorem utf8Size_of_isAscii {c : Char} (h : IsAscii c) : c.utf8Size = 1 := by
  rw [← String.length_utf8EncodeChar, encoding_of_isAscii h]
  rfl

theorem le_of_mem_encoding {c : Char} (h : ¬ IsAscii c) {b : UInt8}
    (hb : b ∈ String.utf8EncodeChar c) :
    128 ≤ b.toNat := by
  have hlarge : ¬ c.val.toNat ≤ 127 := fun hle => h (Nat.lt_succ_of_le hle)
  rw [String.utf8EncodeChar] at hb
  simp only [if_neg hlarge] at hb
  split at hb
  · simp only [List.mem_cons, List.not_mem_nil, or_false] at hb
    rcases hb with rfl | rfl <;> rw [UInt8.toNat_ofNat'] <;> omega
  · split at hb
    · simp only [List.mem_cons, List.not_mem_nil, or_false] at hb
      rcases hb with rfl | rfl | rfl <;> rw [UInt8.toNat_ofNat'] <;> omega
    · simp only [List.mem_cons, List.not_mem_nil, or_false] at hb
      rcases hb with rfl | rfl | rfl | rfl <;> rw [UInt8.toNat_ofNat'] <;> omega

theorem toNat_toUInt8 {c : Char} (h : IsAscii c) : c.toUInt8.toNat = c.toNat := by
  have hlt : c.val.toNat < 128 := h
  show c.val.toUInt8.toNat = c.val.toNat
  rw [UInt32.toNat_toUInt8]
  omega

/-- The byte of one character is found in no other. -/
theorem ne_of_mem_encoding {c d : Char} (hd : IsAscii d) (hne : c ≠ d) {b : UInt8}
    (hb : b ∈ String.utf8EncodeChar c) : b ≠ d.toUInt8 := by
  intro heq
  have hbyte : b.toNat = d.toNat := by rw [heq, toNat_toUInt8 hd]
  by_cases hc : IsAscii c
  · rw [encoding_of_isAscii hc, List.mem_singleton] at hb
    rw [hb, toNat_toUInt8 hc] at hbyte
    exact hne (Char.toNat_inj.1 hbyte)
  · have hle := le_of_mem_encoding hc hb
    rw [hbyte] at hle
    exact Nat.not_lt.2 hle hd

/-- Each byte of a character is found where the character stands. -/
theorem exists_byte (p : List Char) (c : Char) (s : List Char) {k : Nat}
    (hk : k < c.utf8Size) :
    ∃ b ∈ String.utf8EncodeChar c, (bytes (p ++ c :: s))[byteLength p + k]? = some b := by
  have hlen : k < (String.utf8EncodeChar c).length := by
    rwa [String.length_utf8EncodeChar]
  refine ⟨(String.utf8EncodeChar c)[k], List.getElem_mem hlen, ?_⟩
  rw [getElem?_bytes, bytes_cons, List.getElem?_append_left hlen,
    List.getElem?_eq_getElem hlen]

/-- At a character boundary the byte of a character shows the character. -/
theorem getElem?_eq_toUInt8 {d : Char} (hd : IsAscii d) (p s : List Char) :
    (bytes (p ++ s))[byteLength p]? = some d.toUInt8 ↔ s.head? = some d := by
  rcases s with - | ⟨c, s⟩
  · rw [List.append_nil, ← length_bytes, List.getElem?_length]
    simp
  · obtain ⟨b, hb, hbyte⟩ := exists_byte p c s c.utf8Size_pos
    rw [Nat.add_zero] at hbyte
    rw [hbyte, List.head?_cons, Option.some.injEq, Option.some.injEq]
    constructor
    · intro heq
      by_contra hne
      exact ne_of_mem_encoding hd hne hb heq
    · rintro rfl
      rw [encoding_of_isAscii hd] at hb
      exact List.mem_singleton.1 hb

end Text

namespace Gap

open Text

/-! ### The scanner -/

/-- The byte behind the quote that closes a literal, from a byte inside it on;
the end of the text if none closes it.  A backslash is passed over with the byte
behind it. -/
def literalEnd (bs : List UInt8) (quote : UInt8) (j : Nat) : Nat :=
  if h : j < bs.length then
    if bs[j] = '\\'.toUInt8 then literalEnd bs quote (j + 2)
    else if bs[j] = quote then j + 1
    else literalEnd bs quote (j + 1)
  else bs.length
termination_by bs.length - j

/-- The byte offset of the first place where a word stands. -/
def offsetOf? (word : List Char) : List Char → Option Nat
  | [] => if word.isEmpty then some 0 else none
  | c :: r => if word.isPrefixOf (c :: r) then some 0 else
    (offsetOf? word r).map (c.utf8Size + ·)

/-- What opens at a byte: the kind of a literal or a comment, and the byte
behind it; nothing where code goes on.  There is no answer if the text would
have to be cut inside a character. -/
def openedAt? (text : List Char) (i : Nat) : Option (Option (SegmentKind × Nat)) :=
  let bs := bytes text
  match bs[i]? with
  | none => some none
  | some b =>
    if b = '\''.toUInt8 ∨ b = '"'.toUInt8 ∨ b = '`'.toUInt8 then
      some (some (.verbatim, literalEnd bs b (i + 1)))
    else if b = '/'.toUInt8 ∧ bs[i + 1]? = some '/'.toUInt8 then
      (slice? text ⟨i, bs.length⟩).map fun rest =>
        some (.lineComment, ((offsetOf? ['\n'] rest).map (i + ·)).getD bs.length)
    else if b = '/'.toUInt8 ∧ bs[i + 1]? = some '*'.toUInt8 then
      (slice? text ⟨i + 2, bs.length⟩).map fun rest =>
        some (.verbatim, ((offsetOf? ['*', '/'] rest).map (i + 2 + · + 2)).getD bs.length)
    else some none

/-- The segment between two bytes; none if there is nothing between them. -/
def segmentOf? (text : List Char) (kind : SegmentKind) (span : Span) :
    Option (List Segment) :=
  if span.start < span.stop then (slice? text span).map fun t => [⟨kind, t⟩] else some []

theorem le_literalEnd {bs : List UInt8} {quote : UInt8} {j : Nat} (h : j ≤ bs.length) :
    j ≤ literalEnd bs quote j := by
  fun_induction literalEnd bs quote j with
  | case1 j hj hescape ih =>
    by_cases hnext : j + 2 ≤ bs.length
    · exact Nat.le_trans (Nat.le_add_right j 2) (ih hnext)
    · rw [literalEnd, dif_neg (by omega)]
      exact h
  | case2 => exact Nat.le_succ _
  | case3 j hj _ _ ih => exact Nat.le_trans (Nat.le_add_right j 1) (ih hj)
  | case4 => exact h

/-- What opens at a byte ends behind it. -/
theorem lt_of_openedAt {text : List Char} {i stop : Nat} {kind : SegmentKind}
    (h : openedAt? text i = some (some (kind, stop))) : i < stop := by
  unfold openedAt? at h
  dsimp only at h
  split at h
  · cases h
  · next b hb =>
    have hi : i < (bytes text).length := (List.getElem?_eq_some_iff.1 hb).1
    split at h
    · simp only [Option.some.injEq, Prod.mk.injEq] at h
      exact h.2 ▸ le_literalEnd hi
    · split at h
      · next hslash =>
        obtain ⟨rest, hrest, hstop⟩ := Option.map_eq_some_iff.1 h
        simp only [Option.some.injEq, Prod.mk.injEq] at hstop
        rw [← hstop.2]
        obtain ⟨before, after, rfl, hbefore, -⟩ := slice?_eq_some_iff.1 hrest
        -- the search starts at the slash, which is no line feed
        have hhead : (rest ++ after).head? = some '/' := by
          refine (getElem?_eq_toUInt8 (by decide) before _).1 ?_
          rw [hbefore, hb, hslash.1]
        rcases hoffset : offsetOf? ['\n'] rest with - | n
        · exact hi
        · rcases rest with - | ⟨c, rest⟩
          · cases hoffset
          · obtain rfl : c = '/' := Option.some.inj hhead
            obtain ⟨m, -, rfl⟩ := Option.map_eq_some_iff.1 hoffset
            have := '/'.utf8Size_pos
            simp only [Option.map_some, Option.getD_some]
            omega
      · split at h
        · obtain ⟨rest, -, hstop⟩ := Option.map_eq_some_iff.1 h
          simp only [Option.some.injEq, Prod.mk.injEq] at hstop
          rw [← hstop.2]
          rcases offsetOf? ['*', '/'] rest with - | n
          · exact hi
          · simp only [Option.map_some, Option.getD_some]
            omega
        · cases h

/-- The segments from a byte on, where the code before it goes back to another
byte.  There are none if the text would have to be cut inside a character or
beyond its end. -/
def scanFrom (text : List Char) (codeStart i : Nat) : Option (List Segment) :=
  if i < byteLength text then
    match hopened : openedAt? text i with
    | none => none
    | some none => scanFrom text codeStart (i + 1)
    | some (some (kind, stop)) => do
      let code ← segmentOf? text .code ⟨codeStart, i⟩
      let lexeme ← segmentOf? text kind ⟨i, stop⟩
      let rest ← scanFrom text stop stop
      return code ++ (lexeme ++ rest)
  else segmentOf? text .code ⟨codeStart, byteLength text⟩
termination_by byteLength text - i
decreasing_by
  · omega
  · have := lt_of_openedAt hopened
    omega

/-- The segments of a text, read byte by byte. -/
def scan (text : List Char) : Option (List Segment) := scanFrom text 0 0

/-! ### Searching -/

theorem offsetOf_self {word : List Char} (hword : word ≠ []) (s : List Char) :
    offsetOf? word (word ++ s) = some 0 := by
  obtain ⟨c, word, rfl⟩ := List.exists_cons_of_ne_nil hword
  rw [List.cons_append, offsetOf?, if_pos]
  rw [List.isPrefixOf_iff_prefix]
  exact ⟨s, rfl⟩

/-- A word that does not start in the front of a text is found behind it. -/
theorem offsetOf_append {word a : List Char} (s : List Char)
    (h : ∀ back, back ≠ [] → back <:+ a → ¬ word <+: back ++ s) :
    offsetOf? word (a ++ s) = (offsetOf? word s).map (byteLength a + ·) := by
  induction a with
  | nil => simp
  | cons c a ih =>
    have hnot : ¬ word.isPrefixOf (c :: (a ++ s)) = true := by
      rw [List.isPrefixOf_iff_prefix]
      exact h (c :: a) (List.cons_ne_nil _ _) List.suffix_rfl
    rw [List.cons_append, offsetOf?, if_neg hnot, ih, Option.map_map]
    · refine congrArg (fun f => Option.map f (offsetOf? word s)) (funext fun n => ?_)
      rw [byteLength_cons, Function.comp_apply, Nat.add_assoc]
    · exact fun back hne hback => h back hne (hback.trans (List.suffix_cons c a))

theorem offsetOf_feed {a s : List Char} (h : '\n' ∉ a) :
    offsetOf? ['\n'] (a ++ s) = (offsetOf? ['\n'] s).map (byteLength a + ·) := by
  refine offsetOf_append s fun back hne hback hstart => ?_
  obtain ⟨c, back, rfl⟩ := List.exists_cons_of_ne_nil hne
  rw [List.cons_append, List.cons_prefix_cons] at hstart
  exact h (hstart.1 ▸ hback.subset List.mem_cons_self)

theorem offsetOf_close {a s : List Char} (h : ¬ ['*', '/'] <:+: a)
    (hs : s.head? ≠ some '/') :
    offsetOf? ['*', '/'] (a ++ s) = (offsetOf? ['*', '/'] s).map (byteLength a + ·) := by
  refine offsetOf_append s fun back hne hback hstart => ?_
  obtain ⟨c, back, rfl⟩ := List.exists_cons_of_ne_nil hne
  rw [List.cons_append, List.cons_prefix_cons] at hstart
  obtain ⟨rfl, hslash⟩ := hstart
  rcases back with - | ⟨d, back⟩
  · obtain ⟨r, hr⟩ := hslash
    exact hs (by rw [← List.nil_append s, ← hr]; rfl)
  · rw [List.cons_append, List.cons_prefix_cons] at hslash
    obtain ⟨rfl, -⟩ := hslash
    exact h (List.IsInfix.trans ⟨[], back, rfl⟩ hback.isInfix)

/-! ### The end of a literal -/

/-- Bytes that are neither a backslash nor the quote are passed over one by
one. -/
theorem literalEnd_skip {bs : List UInt8} {quote : UInt8} {j n : Nat}
    (h : ∀ k < n, ∃ b, bs[j + k]? = some b ∧ b ≠ '\\'.toUInt8 ∧ b ≠ quote) :
    literalEnd bs quote j = literalEnd bs quote (j + n) := by
  induction n with
  | zero => rfl
  | succ n ih =>
    obtain ⟨b, hb, hescape, hquote⟩ := h n (Nat.lt_succ_self n)
    obtain ⟨hj, hget⟩ := List.getElem?_eq_some_iff.1 hb
    rw [ih fun k hk => h k (Nat.lt_succ_of_lt hk), literalEnd, dif_pos hj,
      if_neg (by rwa [hget]), if_neg (by rwa [hget])]
    rfl

theorem literalEnd_char {q c : Char} (hq : IsAscii q) (hquote : c ≠ q)
    (hescape : c ≠ '\\') (p s : List Char) :
    literalEnd (bytes (p ++ c :: s)) q.toUInt8 (byteLength p) =
      literalEnd (bytes (p ++ c :: s)) q.toUInt8 (byteLength (p ++ [c])) := by
  rw [byteLength_append, byteLength_cons, byteLength_nil, Nat.add_zero]
  refine literalEnd_skip fun k hk => ?_
  obtain ⟨b, hb, hbyte⟩ := exists_byte p c s hk
  exact ⟨b, hbyte, ne_of_mem_encoding (by decide) hescape hb,
    ne_of_mem_encoding hq hquote hb⟩

theorem literalEnd_escape (quote : UInt8) (p s : List Char) :
    literalEnd (bytes (p ++ '\\' :: s)) quote (byteLength p) =
      literalEnd (bytes (p ++ '\\' :: s)) quote (byteLength p + 2) := by
  have hbyte := (getElem?_eq_toUInt8 (d := '\\') (by decide) p ('\\' :: s)).2 rfl
  obtain ⟨hj, hget⟩ := List.getElem?_eq_some_iff.1 hbyte
  rw [literalEnd, dif_pos hj, if_pos hget]

/-- Behind a backslash the scanner stands behind the first byte of a character,
and the other bytes of it close nothing. -/
theorem literalEnd_escaped {q : Char} (hq : IsAscii q) (p : List Char) (c : Char)
    (s : List Char) :
    literalEnd (bytes (p ++ '\\' :: c :: s)) q.toUInt8 (byteLength p) =
      literalEnd (bytes (p ++ '\\' :: c :: s)) q.toUInt8
        (byteLength (p ++ ['\\', c])) := by
  have hone : ('\\' : Char).utf8Size = 1 := rfl
  have hpos := c.utf8Size_pos
  have hsame : p ++ '\\' :: c :: s = (p ++ ['\\']) ++ c :: s := by simp
  have hstop : byteLength (p ++ ['\\', c]) = byteLength p + 2 + (c.utf8Size - 1) := by
    simp only [byteLength_append, byteLength_cons, byteLength_nil, hone]
    omega
  rw [literalEnd_escape, hstop]
  refine literalEnd_skip fun k hk => ?_
  have hwide : ¬ IsAscii c := by
    intro hascii
    rw [utf8Size_of_isAscii hascii] at hk
    omega
  obtain ⟨b, hb, hbyte⟩ := exists_byte (p ++ ['\\']) c s (k := k + 1) (by omega)
  have hne {d : Char} (hd : IsAscii d) : b ≠ d.toUInt8 :=
    ne_of_mem_encoding hd (fun heq => hwide (by rwa [heq])) hb
  refine ⟨b, ?_, hne (by decide), hne hq⟩
  rw [← hbyte, hsame]
  refine congrArg (fun n => (bytes (p ++ ['\\'] ++ c :: s))[n]?) ?_
  simp only [byteLength_append, byteLength_cons, byteLength_nil, hone]
  omega

/-- Inside a literal the scanner moves on over whole characters. -/
theorem literalEnd_quoted {q : Char} (hq : IsAscii q) {body : List Char}
    (hbody : Quoted q body) (p s : List Char) :
    literalEnd (bytes (p ++ (body ++ s))) q.toUInt8 (byteLength p) =
      literalEnd (bytes (p ++ (body ++ s))) q.toUInt8 (byteLength (p ++ body)) := by
  induction hbody generalizing p with
  | nil => rw [List.append_nil]
  | @char c r hquote hescape _ ih =>
    have hrest := ih (p ++ [c])
    rw [List.append_assoc, List.singleton_append, List.append_assoc,
      List.singleton_append] at hrest
    rw [List.cons_append, literalEnd_char hq hquote hescape, hrest]
  | @escape c r _ ih =>
    have hrest := ih (p ++ ['\\', c])
    rw [List.append_assoc, List.append_assoc] at hrest
    rw [List.cons_append, List.cons_append, literalEnd_escaped hq]
    exact hrest

/-! ### What opens -/

theorem isAscii_of_isQuote {q : Char} (hq : isQuote q = true) : IsAscii q := by
  rcases isQuote_cases hq with rfl | rfl | rfl <;> decide

theorem openedAt_quote {q : Char} (hq : isQuote q = true) (p s : List Char) :
    openedAt? (p ++ q :: s) (byteLength p) =
      some (some (.verbatim, literalEnd (bytes (p ++ q :: s)) q.toUInt8
        (byteLength (p ++ [q])))) := by
  have hbyte := (getElem?_eq_toUInt8 (isAscii_of_isQuote hq) p (q :: s)).2 rfl
  have hquote :
      q.toUInt8 = '\''.toUInt8 ∨ q.toUInt8 = '"'.toUInt8 ∨
        q.toUInt8 = '`'.toUInt8 := by
    rcases isQuote_cases hq with rfl | rfl | rfl <;> simp
  rw [openedAt?]
  simp only [hbyte, if_pos hquote, byteLength_append, byteLength_cons, byteLength_nil,
    utf8Size_of_isAscii (isAscii_of_isQuote hq), Nat.add_zero]

/-- The slice from a character boundary to the end. -/
theorem slice?_rest (p s : List Char) :
    slice? (p ++ s) ⟨byteLength p, byteLength (p ++ s)⟩ = some s :=
  slice?_eq_some_iff.2 ⟨p, [], by simp, rfl, by simp⟩

theorem openedAt_comment {b : Char} (hb : b = '/' ∨ b = '*') (p s : List Char) :
    openedAt? (p ++ '/' :: b :: s) (byteLength p) =
      if b = '/' then
        some (some (.lineComment,
          ((offsetOf? ['\n'] ('/' :: '/' :: s)).map (byteLength p + ·)).getD
          (byteLength (p ++ '/' :: '/' :: s))))
      else
        some (some (.verbatim,
          ((offsetOf? ['*', '/'] s).map (byteLength p + 2 + · + 2)).getD
          (byteLength (p ++ '/' :: '*' :: s)))) := by
  have hone : ('/' : Char).utf8Size = 1 := rfl
  have hslash := (getElem?_eq_toUInt8 (d := '/') (by decide) p ('/' :: b :: s)).2 rfl
  have hascii : IsAscii b := by rcases hb with rfl | rfl <;> decide
  have hnext := (getElem?_eq_toUInt8 hascii (p ++ ['/']) (b :: s)).2 rfl
  rw [List.append_assoc, List.singleton_append, byteLength_append, byteLength_cons,
    byteLength_nil, hone] at hnext
  have hquote :
      ¬ ('/'.toUInt8 = '\''.toUInt8 ∨ '/'.toUInt8 = '"'.toUInt8 ∨
        '/'.toUInt8 = '`'.toUInt8) := by
    decide
  rw [openedAt?]
  rcases hb with rfl | rfl
  · simp only [hslash, if_neg hquote, hnext, and_self, if_true, length_bytes,
      slice?_rest, Option.map_some]
  · have hinner := slice?_rest (p ++ ['/', '*']) s
    have htwo : byteLength (p ++ ['/', '*']) = byteLength p + 2 := by simp [hone]; rfl
    rw [List.append_assoc, htwo] at hinner
    have hstar : ¬ (some '*'.toUInt8 = some '/'.toUInt8) := by decide
    have hne : ¬ ('*' : Char) = '/' := by decide
    simp only [hslash, if_neg hquote, hnext, hstar, and_false, if_false, and_self,
      if_true, hne]
    rw [length_bytes, show p ++ '/' :: '*' :: s = p ++ (['/', '*'] ++ s) from rfl, hinner]
    rfl

/-- The scanner finds where a literal or a block comment is closed. -/
theorem openedAt_closed {t : List Char} (h : IsClosed t) (p s : List Char) :
    openedAt? (p ++ (t ++ s)) (byteLength p) =
      some (some (.verbatim, byteLength (p ++ t))) := by
  cases h with
  | @literal q body hq hbody =>
    have hascii := isAscii_of_isQuote hq
    have hend := literalEnd_quoted hascii hbody (p ++ [q]) ([q] ++ s)
    have hsame : p ++ (q :: (body ++ [q]) ++ s) = p ++ q :: (body ++ q :: s) := by simp
    have hsame' : p ++ [q] ++ (body ++ ([q] ++ s)) = p ++ q :: (body ++ q :: s) := by simp
    have hbyte := (getElem?_eq_toUInt8 hascii (p ++ [q] ++ body) (q :: s)).2 rfl
    rw [show p ++ [q] ++ body ++ q :: s = p ++ q :: (body ++ q :: s) by simp] at hbyte
    obtain ⟨hj, hget⟩ := List.getElem?_eq_some_iff.1 hbyte
    have hescape : ¬ q.toUInt8 = '\\'.toUInt8 := by
      rcases isQuote_cases hq with rfl | rfl | rfl <;> decide
    rw [hsame'] at hend
    rw [hsame, openedAt_quote hq, hend, literalEnd, dif_pos hj, hget,
      if_neg hescape, if_pos rfl]
    simp [utf8Size_of_isAscii hascii, Nat.add_assoc]
  | @comment inner hinner =>
    have hslashSize : ('/' : Char).utf8Size = 1 := rfl
    have hstarSize : ('*' : Char).utf8Size = 1 := rfl
    have hfound : offsetOf? ['*', '/'] (inner ++ '*' :: '/' :: s) =
        some (byteLength inner) := by
      rw [offsetOf_close hinner (by simp),
        show '*' :: '/' :: s = ['*', '/'] ++ s from rfl,
        offsetOf_self (List.cons_ne_nil _ _), Option.map_some, Nat.add_zero]
    rw [show p ++ ('/' :: '*' :: (inner ++ ['*', '/']) ++ s) =
      p ++ '/' :: '*' :: (inner ++ '*' :: '/' :: s) by simp, openedAt_comment (.inr rfl),
      if_neg (by decide), hfound, Option.map_some, Option.getD_some]
    simp [hslashSize, hstarSize]
    omega

/-- What nothing closes goes on to the end of the text, a literal behind its
last backslash as well. -/
theorem openedAt_unclosed {t : List Char} (h : IsUnclosed t) (p : List Char) :
    openedAt? (p ++ t) (byteLength p) = some (some (.verbatim, byteLength (p ++ t))) := by
  cases h with
  | @literal q body hq hbody =>
    have hend := literalEnd_quoted (isAscii_of_isQuote hq) hbody (p ++ [q]) []
    have hsame : p ++ [q] ++ (body ++ []) = p ++ q :: body := by simp
    rw [hsame] at hend
    rw [openedAt_quote hq, hend, literalEnd, dif_neg (by rw [length_bytes]; simp),
      length_bytes]
  | @hanging q body hq hbody =>
    have hbackslash : ('\\' : Char).utf8Size = 1 := rfl
    have hend := literalEnd_quoted (isAscii_of_isQuote hq) hbody (p ++ [q]) ['\\']
    have hlast := literalEnd_escape q.toUInt8 (p ++ [q] ++ body) []
    have hsame : p ++ [q] ++ (body ++ ['\\']) = p ++ q :: (body ++ ['\\']) := by simp
    have hsame' : p ++ [q] ++ body ++ ['\\'] = p ++ q :: (body ++ ['\\']) := by simp
    rw [hsame] at hend
    rw [hsame'] at hlast
    rw [openedAt_quote hq, hend, hlast, literalEnd, dif_neg, length_bytes]
    rw [length_bytes]
    simp only [byteLength_append, byteLength_cons, byteLength_nil, hbackslash]
    omega
  | @comment inner hinner =>
    have hfound : offsetOf? ['*', '/'] inner = none := by
      have hnone := offsetOf_close (s := []) hinner (by simp)
      rwa [List.append_nil] at hnone
    rw [openedAt_comment (.inr rfl), if_neg (by decide), hfound]
    rfl

/-- A line comment goes on to the next line feed. -/
theorem openedAt_line {inner s : List Char} (hinner : '\n' ∉ inner)
    (hs : ∀ c ∈ s.head?, c = '\n')
    (p : List Char) : openedAt? (p ++ ('/' :: '/' :: inner ++ s)) (byteLength p) =
      some (some (.lineComment, byteLength (p ++ '/' :: '/' :: inner))) := by
  have hslashes : '\n' ∉ '/' :: '/' :: inner := by simpa using hinner
  have hfound := offsetOf_feed (s := s) hslashes
  rw [List.cons_append, List.cons_append] at hfound
  rw [List.cons_append, List.cons_append, openedAt_comment (.inl rfl), if_pos rfl, hfound]
  rcases s with - | ⟨c, s⟩
  · rw [List.append_nil]
    rfl
  · obtain rfl := hs c rfl
    rw [show '\n' :: s = ['\n'] ++ s from rfl, offsetOf_self (List.cons_ne_nil _ _)]
    simp

/-- The scanner finds where a lexeme ends. -/
theorem openedAt_lexeme {kind : SegmentKind} {t s : List Char} (h : Lexeme kind t s)
    (p : List Char) :
    openedAt? (p ++ (t ++ s)) (byteLength p) =
      some (some (kind, byteLength (p ++ t))) := by
  cases h with
  | closed h => exact openedAt_closed h p s
  | unclosed h =>
    rw [List.append_nil]
    exact openedAt_unclosed h p
  | line hinner hs => exact openedAt_line hinner hs p

/-- Nothing opens at the bytes of a character of plain code. -/
theorem openedAt_plain {c : Char} {s : List Char} (hquote : isQuote c = false)
    (hnext : ∀ b ∈ s.head?, opensComment c b = false) (p : List Char) {k : Nat}
    (hk : k < c.utf8Size) :
    openedAt? (p ++ c :: s) (byteLength p + k) = some none := by
  obtain ⟨b, hb, hbyte⟩ := exists_byte p c s hk
  have hne {d : Char} (hd : IsAscii d) (hcd : c ≠ d) : ¬ b = d.toUInt8 :=
    ne_of_mem_encoding hd hcd hb
  have hnone : ¬ (b = '\''.toUInt8 ∨ b = '"'.toUInt8 ∨ b = '`'.toUInt8) := by
    have hother {d : Char} (hd : isQuote d = true) : c ≠ d := by
      rintro rfl
      rw [hquote] at hd
      cases hd
    simp only [not_or]
    exact ⟨hne (by decide) (hother rfl), hne (by decide) (hother rfl),
      hne (by decide) (hother rfl)⟩
  have hcomment {d : Char} (hd : d = '/' ∨ d = '*') :
      ¬ (b = '/'.toUInt8 ∧ (bytes (p ++ c :: s))[byteLength p + k + 1]? =
        some d.toUInt8) := by
    rintro ⟨hslash, hbehind⟩
    have hascii : IsAscii d := by rcases hd with rfl | rfl <;> decide
    obtain rfl : c = '/' := by
      by_contra hcd
      exact hne (by decide) hcd hslash
    obtain rfl : k = 0 := by
      have hone : ('/' : Char).utf8Size = 1 := rfl
      omega
    have hhead := (getElem?_eq_toUInt8 hascii (p ++ ['/']) s).1 (by
      rw [List.append_assoc, byteLength_append]
      exact hbehind)
    have := hnext d hhead
    rcases hd with rfl | rfl <;> cases this
  rw [openedAt?]
  simp only [hbyte, if_neg hnone, if_neg (hcomment (.inl rfl)),
    if_neg (hcomment (.inr rfl))]

/-! ### The whole scan -/

theorem scanFrom_skip {text : List Char} {codeStart i n : Nat}
    (hle : i + n ≤ byteLength text)
    (h : ∀ k < n, openedAt? text (i + k) = some none) :
    scanFrom text codeStart i = scanFrom text codeStart (i + n) := by
  induction n with
  | zero => rfl
  | succ n ih =>
    rw [ih (by omega) fun k hk => h k (Nat.lt_succ_of_lt hk), scanFrom, if_pos (by omega)]
    split
    · next hopened =>
      rw [h n (Nat.lt_succ_self n)] at hopened
      cases hopened
    · rfl
    · next hopened =>
      rw [h n (Nat.lt_succ_self n)] at hopened
      cases hopened

/-- Over plain code the scanner moves on. -/
theorem scanFrom_plain {c s : List Char} (hc : IsPlain c) (hmeet : Parted c s)
    (p : List Char) (codeStart : Nat) :
    scanFrom (p ++ (c ++ s)) codeStart (byteLength p) =
      scanFrom (p ++ (c ++ s)) codeStart (byteLength (p ++ c)) := by
  induction c generalizing p with
  | nil => rw [List.append_nil]
  | cons x c ih =>
    obtain ⟨hx, hrest, hpair⟩ := isPlain_append.1 (show IsPlain ([x] ++ c) from hc)
    have hnext : ∀ b ∈ (c ++ s).head?, opensComment x b = false := by
      rcases c with - | ⟨y, c⟩
      · exact hmeet x rfl
      · exact hpair x rfl
    have hskip : scanFrom (p ++ x :: (c ++ s)) codeStart (byteLength p) =
        scanFrom (p ++ x :: (c ++ s)) codeStart (byteLength p + x.utf8Size) :=
      scanFrom_skip (by simp) fun k hk =>
        openedAt_plain (hx.noQuote x (List.mem_singleton_self x)) hnext p hk
    have hmoved := ih hrest (hmeet.suffix (List.suffix_cons x c)) (p ++ [x])
    rw [List.append_assoc, List.append_assoc, List.singleton_append,
      List.singleton_append, byteLength_append, byteLength_cons, byteLength_nil,
      Nat.add_zero] at hmoved
    rw [List.cons_append, hskip, hmoved]

theorem segmentOf_append (p t s : List Char) (kind : SegmentKind) :
    segmentOf? (p ++ (t ++ s)) kind ⟨byteLength p, byteLength (p ++ t)⟩ =
      some (finish kind t.reverse) := by
  rw [segmentOf?]
  by_cases ht : t = []
  · subst ht
    rw [List.append_nil, if_neg (Nat.lt_irrefl _)]
    rfl
  · have hpos : byteLength t ≠ 0 := fun h => ht (byteLength_eq_zero.1 h)
    have hlt : byteLength p < byteLength (p ++ t) := by
      rw [byteLength_append]
      omega
    rw [if_pos hlt, byteLength_append, slice?_mid, finish_of_ne_nil _ (by simpa using ht),
      List.reverse_reverse]
    rfl

/-- The scanner cuts a text as it is cut into code and lexemes. -/
theorem scanFrom_segmented {s : List Char} {segs : List Segment}
    (h : Segmented s segs) (p : List Char) :
    scanFrom (p ++ s) (byteLength p) (byteLength p) = some segs := by
  induction h generalizing p with
  | @code c hc =>
    have hskip := scanFrom_plain hc (Parted.nil_right c) p (byteLength p)
    have hcut := segmentOf_append p c [] .code
    rw [List.append_nil] at hskip hcut
    rw [hskip, scanFrom, if_neg (Nat.lt_irrefl _), hcut]
    rfl
  | @lexeme c t s kind segs hc hmeet hlexeme _ ih =>
    have hparted : Parted c (t ++ s) := by
      intro a ha b hb
      refine hmeet a ha b ?_
      obtain ⟨d, t, rfl⟩ := List.exists_cons_of_ne_nil hlexeme.ne_nil
      exact hb
    have hpos : byteLength t ≠ 0 :=
      fun hzero => hlexeme.ne_nil (byteLength_eq_zero.1 hzero)
    have hopened := openedAt_lexeme hlexeme (p ++ c)
    have hcode := segmentOf_append p c (t ++ s) .code
    have hcut := segmentOf_append (p ++ c) t s kind
    have hrest := ih (p ++ c ++ t)
    rw [List.append_assoc, List.append_assoc] at hrest
    rw [List.append_assoc] at hopened hcut
    rw [scanFrom_plain hc hparted, scanFrom, if_pos (by simp; omega)]
    split
    · next hnone =>
      rw [hopened] at hnone
      cases hnone
    · next hnone =>
      rw [hopened] at hnone
      cases hnone
    · next kind' stop hfound =>
      rw [hopened] at hfound
      obtain ⟨rfl, rfl⟩ := Prod.mk.inj (Option.some.inj (Option.some.inj hfound))
      rw [hcode, hcut, hrest, finish_of_ne_nil kind (by simpa using hlexeme.ne_nil),
        List.reverse_reverse]
      rfl

theorem scan_segmented (text : List Char) : scan text = some (segments text) :=
  scanFrom_segmented (segmented_segments text) []

/-- **Segmentation loses nothing and never fails.**  Read byte by byte, each
text is cut at character boundaries only, into the segments that the reader of
characters finds.  Together they are the text; none is empty, each is of its
kind, no two segments of code adjoin, and only the last may be a literal or a
block comment that nothing closes. -/
theorem segments_lossless (text : List Char) :
    scan text = some (segments text) ∧
      (segments text).flatMap Segment.text = text ∧
      (∀ s ∈ segments text, s.text ≠ [] ∧ s.IsProper) ∧
      (segments text).IsChain (fun a b => ¬ (a.kind = .code ∧ b.kind = .code)) ∧
      ∀ s ∈ (segments text).dropLast, s.kind = .verbatim → IsClosed s.text :=
  have hsegmented := segmented_segments text
  ⟨scan_segmented text, text_segments text, hsegmented.isProper, hsegmented.isChain,
    hsegmented.isClosed⟩

end Gap

end AnimLint
