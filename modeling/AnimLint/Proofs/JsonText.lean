/-
AnimLint/Proofs/JsonText.lean

JSON text is read back as what it was written for: strings with their escapes,
truth values, lists of strings, and objects field by field, at whatever level of
indentation they stand.  An object is read into a record by a reader of its own,
so what is proved of objects takes one step for each field and puts the steps
together.

Main results: `stringFrom_escape`, `readString_renderString`, `readBool_render`,
`readList_strings`, `readFields_object`.
-/
import AnimLint.Json.Reader
import Mathlib.Tactic.SplitIfs

namespace AnimLint.Json

/-! ### Blanks -/

theorem skipBlanks_cons {c : Char} (h : isBlank c = false) (s : List Char) :
    skipBlanks (c :: s) = c :: s := by
  rw [skipBlanks, List.dropWhile_cons_of_neg (by rw [h]; exact Bool.false_ne_true)]

/-- Indentation is passed over. -/
@[simp] theorem skipBlanks_newLine (level : Nat) (s : List Char) :
    skipBlanks (newLine level ++ s) = skipBlanks s := by
  rw [skipBlanks, skipBlanks, List.dropWhile_append_of_pos]
  intro c hc
  rcases List.mem_cons.1 hc with rfl | hc
  · rfl
  · rw [List.eq_of_mem_replicate hc]
    rfl

@[simp] theorem skipBlanks_space (s : List Char) :
    skipBlanks (' ' :: s) = skipBlanks s := rfl

/-! ### Strings -/

theorem hexValue_hexDigit : ∀ n < 16, hexValue? (hexDigit n) = some n := by decide

/-- A code of four digits is read as the character it stands for. -/
theorem unescape_code {c : Char} (hc : c.toNat < 32) (s : List Char) :
    unescape ('u' :: '0' :: '0' :: hexDigit (c.toNat / 16) ::
      hexDigit (c.toNat % 16) :: s) = .ok (c, 5) := by
  have hfour :
      hexFour ('0' :: '0' :: hexDigit (c.toNat / 16) :: hexDigit (c.toNat % 16) :: s) =
      .ok c.toNat := by
    have hdigits :
        (List.take 4 ('0' :: '0' :: hexDigit (c.toNat / 16) ::
          hexDigit (c.toNat % 16) :: s)).mapM
        hexValue? = some [0, 0, c.toNat / 16, c.toNat % 16] := by
      simp only [List.take_succ_cons, List.take_zero, List.mapM_cons, List.mapM_nil,
        hexValue_hexDigit _ (show c.toNat / 16 < 16 by omega),
        hexValue_hexDigit _ (show c.toNat % 16 < 16 by omega)]
      rfl
    rw [hexFour, hdigits]
    show Except.ok (4096 * 0 + 256 * 0 + 16 * (c.toNat / 16) + c.toNat % 16) =
        Except.ok c.toNat
    congr 1
    omega
  show unicodeEscape _ = _
  rw [unicodeEscape, hfour]
  dsimp only
  rw [if_neg (by rw [Bool.and_eq_true, decide_eq_true_eq, decide_eq_true_eq]; omega),
    if_pos (by rw [Bool.or_eq_true, decide_eq_true_eq, decide_eq_true_eq]; omega),
    Char.ofNat_toNat]

theorem eq_of_toNat {c d : Char} (h : (c.toNat == d.toNat) = true) : c = d := by
  rw [← Char.ofNat_toNat c, ← Char.ofNat_toNat d, eq_of_beq h]

/-- A character stands for itself, or behind a backslash for what it is read as
there. -/
theorem escape_cases (c : Char) :
    (escape c = [c] ∧ c ≠ '"' ∧ c ≠ '\\' ∧ 32 ≤ c.toNat) ∨
      ∃ code, escape c = '\\' :: code ∧
        ∀ s, unescape (code ++ s) = .ok (c, code.length) := by
  rw [escape]
  split_ifs with hquote hslash hfeed hreturn htab hback hpage hcode
  · obtain rfl := eq_of_beq hquote
    exact .inr ⟨['"'], rfl, fun s => rfl⟩
  · obtain rfl := eq_of_beq hslash
    exact .inr ⟨['\\'], rfl, fun s => rfl⟩
  · obtain rfl := eq_of_beq hfeed
    exact .inr ⟨['n'], rfl, fun s => rfl⟩
  · obtain rfl := eq_of_beq hreturn
    exact .inr ⟨['r'], rfl, fun s => rfl⟩
  · obtain rfl := eq_of_beq htab
    exact .inr ⟨['t'], rfl, fun s => rfl⟩
  · obtain rfl : c = '\x08' := eq_of_toNat hback
    exact .inr ⟨['b'], rfl, fun s => rfl⟩
  · obtain rfl : c = '\x0c' := eq_of_toNat hpage
    exact .inr ⟨['f'], rfl, fun s => rfl⟩
  · exact .inr ⟨_, rfl, unescape_code hcode⟩
  · exact .inl ⟨rfl, by simpa using hquote, by simpa using hslash, by omega⟩

/-- The characters of a code are passed over. -/
theorem stringFrom_code (code s : List Char) :
    stringFrom code.length (code ++ s) = stringFrom 0 s := by
  induction code with
  | nil => rfl
  | cons c code ih => exact ih

/-- One character of a string is read back. -/
theorem stringFrom_escape_append {s text rest : List Char}
    (h : stringFrom 0 s = .ok (text, rest)) (c : Char) :
    stringFrom 0 (escape c ++ s) = .ok (c :: text, rest) := by
  rcases escape_cases c with ⟨hself, hquote, hslash, hlow⟩ | ⟨code, hcode, hread⟩
  · rw [hself, List.singleton_append, stringFrom, if_neg (by simpa using hquote),
      if_neg (by simpa using hslash), if_neg (by omega), h]
  · rw [hcode, List.cons_append, stringFrom, if_neg (by decide), if_pos (by decide),
      hread]
    dsimp only
    rw [stringFrom_code, h]

/-- **A string is read back from its text**, whatever characters it has. -/
theorem stringFrom_escape (text rest : List Char) :
    stringFrom 0 (text.flatMap escape ++ '"' :: rest) = .ok (text, rest) := by
  induction text with
  | nil => rfl
  | cons c text ih =>
    rw [List.flatMap_cons, List.append_assoc]
    exact stringFrom_escape_append ih c

/-- The text of a string is its quote and what the reader takes off. -/
theorem renderString_append (s : String) (rest : List Char) :
    renderString s ++ rest = '"' :: (s.toList.flatMap escape ++ '"' :: rest) := by
  rw [renderString, List.cons_append, List.append_assoc, List.singleton_append]

theorem skipBlanks_renderString (s : String) (rest : List Char) :
    skipBlanks (renderString s ++ rest) = renderString s ++ rest := by
  rw [renderString_append, skipBlanks_cons rfl]

/-! ### Values -/

theorem readString_renderString (s : String) (rest : List Char) :
    readString (renderString s ++ rest) = .ok (s, rest) := by
  rw [readString, skipBlanks_renderString, renderString_append]
  simp only [stringFrom_escape, String.ofList_toList]

theorem readBool_render (level : Nat) (b : Bool) (rest : List Char) :
    readBool (' ' :: (renderAt level (.bool b) ++ rest)) = .ok (b, rest) := by
  cases b <;> rfl

/-! ### Lists of strings -/

theorem nextItem_first (level : Nat) (item : String) (s : List Char) :
    nextItem? false (newLine level ++ (renderString item ++ s)) =
      .ok (true, renderString item ++ s) := by
  rw [nextItem?, skipBlanks_newLine, skipBlanks_renderString, renderString_append]
  rfl

theorem nextItem_further (level : Nat) (item : String) (s : List Char) :
    nextItem? true (',' :: (newLine level ++ (renderString item ++ s))) =
      .ok (true, renderString item ++ s) := by
  rw [nextItem?, skipBlanks_cons rfl]
  dsimp only
  rw [skipBlanks_newLine, skipBlanks_renderString, renderString_append]
  rfl

/-- The item that comes next is the first of those that are read. -/
theorem readItems_cons {more : Bool} {n : Nat} {s t rest : List Char}
    {item : String} {items : List String}
    (hnext : nextItem? more s = .ok (true, renderString item ++ t))
    (hitems : readItems readString n true t = .ok (items, rest)) :
    readItems readString (n + 1) more s = .ok (item :: items, rest) := by
  have hrest : (do
      let tail ← readItems readString n true t
      return (item :: tail.1, tail.2)) = Except.ok (item :: items, rest) := by
    rw [hitems]
    rfl
  have hitem : (do
      let head ← readString (renderString item ++ t)
      let tail ← readItems readString n true head.2
      return (head.1 :: tail.1, tail.2)) = Except.ok (item :: items, rest) := by
    rw [readString_renderString]
    exact hrest
  rw [readItems, hnext]
  exact hitem

/-- Further items of a list are read up to its end. -/
theorem readItems_renderItems (level outer : Nat) (items : List String)
    (rest : List Char) {n : Nat} (hn : items.length < n) :
    readItems readString n true
      (renderItems level (items.map string) ++ (newLine outer ++ ']' :: rest)) =
        .ok (items, rest) := by
  obtain ⟨n, rfl⟩ := Nat.exists_eq_add_one_of_ne_zero (Nat.ne_zero_of_lt hn)
  induction items generalizing n with
  | nil =>
    have hend : skipBlanks (newLine outer ++ ']' :: rest) = ']' :: rest := by
      rw [skipBlanks_newLine, skipBlanks_cons rfl]
    show readItems readString (n + 1) true (newLine outer ++ ']' :: rest) = _
    rw [readItems, nextItem?, hend]
    have hclose : closeList (']' :: rest) = .ok rest := by
      rw [closeList, skipBlanks_cons rfl]
      rfl
    exact congrArg (Except.map fun after => (([] : List String), after)) hclose
  | cons item items ih =>
    rw [List.length_cons] at hn
    obtain ⟨n, rfl⟩ := Nat.exists_eq_add_one_of_ne_zero (show n ≠ 0 by omega)
    rw [List.map_cons, renderItems, renderAt, List.cons_append, List.append_assoc,
      List.append_assoc]
    exact readItems_cons (nextItem_further level item _) (ih n (by omega))

theorem length_le_renderItems (level : Nat) (items : List Json) :
    items.length ≤ (renderItems level items).length := by
  induction items with
  | nil => exact Nat.zero_le _
  | cons item items ih =>
    rw [renderItems, List.length_cons, List.length_cons, List.length_append,
      List.length_append]
    omega

/-- **A list of strings is read back from its text.** -/
theorem readList_strings (level : Nat) (items : List String) (rest : List Char) :
    readList readString (' ' :: (renderAt level (strings items) ++ rest)) =
      .ok (items, rest) := by
  rw [readList, skipBlanks_space]
  rcases items with - | ⟨item, items⟩
  · rfl
  · rw [strings, List.map_cons, renderAt, renderAt, List.cons_append, skipBlanks_cons rfl]
    simp only [List.append_assoc, List.singleton_append]
    refine readItems_cons (nextItem_first (level + 1) item _)
      (readItems_renderItems _ _ items rest ?_)
    have hlength := length_le_renderItems (level + 1) (items.map string)
    rw [List.length_map] at hlength
    simp only [List.length_append]
    have hquote : 0 < (renderString item).length := Nat.succ_pos _
    omega

/-! ### Objects -/

variable {σ : Type} {read : σ → List Char → Reader σ} {level : Nat}

/-- The fields of an object lead from one record to another: the reader of the
record takes each of them as it stands in the text. -/
inductive Fills (read : σ → List Char → Reader σ) (level : Nat) :
    σ → List (String × Json) → σ → Prop
  | nil {record : σ} : Fills read level record [] record
  | cons {record next last : σ} {name : String} {value : Json}
    {fields : List (String × Json)} :
      (∀ rest, read record name.toList
        (':' :: ' ' :: (renderAt level value ++ rest)) = .ok (next, rest)) →
      Fills read level next fields last →
      Fills read level record ((name, value) :: fields) last

theorem nextKey_first (level : Nat) (name : String) (s : List Char) :
    nextKey? false (newLine level ++ (renderString name ++ s)) =
      .ok (some name.toList, s) := by
  rw [nextKey?, skipBlanks_newLine, skipBlanks_renderString, renderString_append]
  show (stringFrom 0 _).map _ = _
  rw [stringFrom_escape]
  rfl

theorem nextKey_further (level : Nat) (name : String) (s : List Char) :
    nextKey? true (',' :: (newLine level ++ (renderString name ++ s))) =
      .ok (some name.toList, s) := by
  rw [nextKey?, skipBlanks_cons rfl]
  dsimp only
  rw [skipBlanks_newLine, skipBlanks_renderString, renderString_append]
  show (stringFrom 0 _).map _ = _
  rw [stringFrom_escape]
  rfl

theorem nextKey_end (more : Bool) (level : Nat) (s : List Char) :
    nextKey? more (newLine level ++ '\x7d' :: s) = .ok (none, '\x7d' :: s) := by
  rw [nextKey?, skipBlanks_newLine, skipBlanks_cons rfl]
  rfl

/-- The field that comes next is the first of those that fill a record. -/
theorem readFields_cons {more : Bool} {n : Nat} {s t u rest : List Char} {key : List Char}
    {record next last : σ} (hnext : nextKey? more s = .ok (some key, t))
    (hread : read record key t = .ok (next, u))
    (hfields : readFields read n true next u = .ok (last, rest)) :
    readFields read (n + 1) more record s = .ok (last, rest) := by
  have hfield : (do
      let after ← read record key t
      readFields read n true after.1 after.2) = Except.ok (last, rest) := by
    rw [hread]
    exact hfields
  rw [readFields, hnext]
  exact hfield

/-- Further fields of an object are read up to its end. -/
theorem readFields_renderFields {record last : σ} {fields : List (String × Json)}
    (hfills : Fills read level record fields last) (outer : Nat)
    (rest : List Char) {n : Nat} (hn : fields.length < n) :
    readFields read n true record
      (renderFields level fields ++ (newLine outer ++ '\x7d' :: rest)) =
      .ok (last, rest) := by
  obtain ⟨n, rfl⟩ := Nat.exists_eq_add_one_of_ne_zero (Nat.ne_zero_of_lt hn)
  induction hfills generalizing n with
  | nil =>
    show readFields read (n + 1) true _ (newLine outer ++ '\x7d' :: rest) = _
    rw [readFields, nextKey_end]
    rfl
  | @cons record next last name value fields hread _ ih =>
    rw [List.length_cons] at hn
    obtain ⟨n, rfl⟩ := Nat.exists_eq_add_one_of_ne_zero (show n ≠ 0 by omega)
    rw [renderFields]
    simp only [List.cons_append, List.append_assoc]
    exact readFields_cons (nextKey_further level name _) (hread _) (ih n (by omega))

theorem length_le_renderFields (level : Nat) (fields : List (String × Json)) :
    fields.length ≤ (renderFields level fields).length := by
  induction fields with
  | nil => exact Nat.zero_le _
  | cons field fields ih =>
    rw [renderFields, List.length_cons, List.length_cons]
    simp only [List.length_append, List.length_cons]
    omega

/-- **An object is read back from its text** into the record that its fields
lead to. -/
theorem readFields_object {record last : σ} {fields : List (String × Json)}
    (hfills : Fills read (level + 1) record fields last) (rest : List Char) :
    ∃ s, renderAt level (.object fields) ++ rest = '\x7b' :: s ∧
      readFields read (s.length + 1) false record s = .ok (last, rest) := by
  rcases hfills with - | @⟨_, next, _, name, value, fields, hread, hfills⟩
  · refine ⟨'\x7d' :: rest, rfl, ?_⟩
    rw [readFields, nextKey?, skipBlanks_cons rfl]
    rfl
  · refine ⟨_, by rw [renderAt, List.cons_append], ?_⟩
    simp only [List.append_assoc, List.cons_append, List.nil_append]
    refine readFields_cons (nextKey_first (level + 1) name _) (hread _)
      (readFields_renderFields hfills level rest ?_)
    have hlength := length_le_renderFields (level + 1) fields
    simp only [List.length_append, List.length_cons]
    omega

end AnimLint.Json
