import LeasePool.Proofs.JsonText
import LeasePool.Toml.Reader

/-!
# Reading flat TOML documents

A flat document has one line for each key, with a string, a natural number or a truth value. It can
say any text and any number that is a signed word of 64 bits, as a string may hold every character
by its number (`Toml.writtenChar`), and it is read as what its lines say.

* `readString_written`, `readNumber_toDigits`: strings and numbers are read up to the end of their
  line, by induction on their characters;
* `readLines_written`: so are the lines of a document, by induction on the lines;
* `parse_written`: a document is read as the table of its lines, if their keys are distinct.
-/

namespace LeasePool.Toml

/-- What is written for each item of a list has at least as many characters as the list has
    items. -/
theorem length_le_flatMap {f : α → List Char} {items : List α} (h : ∀ a ∈ items, f a ≠ []) :
    items.length ≤ (items.flatMap f).length := by
  induction items with
  | nil => exact Nat.zero_le _
  | cons a items ih =>
    obtain ⟨first, others⟩ := List.forall_mem_cons.1 h
    have := List.length_pos_iff.2 first
    have := ih others
    simp only [List.flatMap_cons, List.length_cons, List.length_append]
    omega

/-! ### Strings -/

/-- How a character is written in a basic string: as itself, or by its number. -/
def writtenChar (c : Char) : List Char :=
  if isBasicChar c then [c] else ['\\', 'u', '0', '0'] ++ Text.hexByte c.toNat

/-- What cannot stand for itself has a number of two hexadecimal digits. -/
theorem toNat_lt_of_not_isBasicChar {c : Char} (h : isBasicChar c = false) : c.toNat < 256 := by
  simp only [isBasicChar, isCommentChar, Bool.and_eq_false_iff, Bool.or_eq_false_iff,
    decide_eq_false_iff_not, bne_eq_false_iff_eq] at h
  obtain (⟨-, control | delete⟩ | rfl) | rfl := h
  · omega
  · omega
  · decide
  · decide

theorem ne_of_isBasicChar {c : Char} (h : isBasicChar c = true) : c ≠ '"' ∧ c ≠ '\\' := by
  simp only [isBasicChar, Bool.and_eq_true, bne_iff_ne] at h
  exact ⟨h.1.2, h.2⟩

/-- The four digits of an escaped character. -/
theorem scalar?_hexByte {n : Nat} (h : n < 256) :
    scalar? ('0' :: '0' :: Text.hexByte n) = some (Char.ofNat n) := by
  have hzero : Text.hexValue? '0' = some 0 := by decide
  have values : ('0' :: '0' :: Text.hexByte n).mapM Text.hexValue? =
      some [0, 0, n / 16, n % 16] := by
    simp [Text.hexByte, hzero, Text.hexValue?_digitChar (show n / 16 < 16 by omega),
      Text.hexValue?_digitChar (show n % 16 < 16 by omega)]
  have number : [0, 0, n / 16, n % 16].foldl (fun m v => m * 16 + v) 0 = n := by
    simp only [List.foldl_cons, List.foldl_nil]
    omega
  have valid : n.isValidChar := .inl (by omega)
  rw [scalar?, values, Option.bind_eq_bind, Option.bind_some, number]
  exact if_pos valid

/-- An escaped character is read from its number. -/
theorem readEscape_hexByte {n : Nat} (h : n < 256) (rest : List Char) :
    readEscape ('u' :: '0' :: '0' :: (Text.hexByte n ++ rest)) = some (Char.ofNat n, rest) := by
  have long : ¬ ('0' :: '0' :: (Text.hexByte n ++ rest)).length < 4 := by simp [Text.hexByte]
  have digits : ('0' :: '0' :: (Text.hexByte n ++ rest)).take 4 = '0' :: '0' :: Text.hexByte n := by
    simp [Text.hexByte]
  rw [readEscape, if_neg long, digits, scalar?_hexByte h]
  simp [Text.hexByte]

/-- A character is read from how it is written. -/
theorem readBasic_writtenChar (c : Char) (bound : Nat) (rest : List Char) :
    readBasic (bound + 1) (writtenChar c ++ rest) =
      (readBasic bound rest).map fun q => (c :: q.1, q.2) := by
  rw [writtenChar]
  split
  · next basic =>
    obtain ⟨quote, slash⟩ := ne_of_isBasicChar basic
    rw [List.singleton_append, readBasic, if_pos basic]
    · exact quote
    · exact slash
  · next special =>
    have small := toNat_lt_of_not_isBasicChar (Bool.not_eq_true _ ▸ special)
    simp only [List.cons_append, List.nil_append]
    rw [readBasic, readEscape_hexByte small, Char.ofNat_toNat]
    change (readBasic bound rest >>= fun q => some (c :: q.1, q.2)) = _
    cases readBasic bound rest <;> rfl

/-- The characters of a string are read back, up to its closing quote. -/
theorem readBasic_flatMap (cs rest : List Char) {bound : Nat} (h : cs.length < bound) :
    readBasic bound (cs.flatMap writtenChar ++ '"' :: rest) = some (cs, rest) := by
  induction cs generalizing bound with
  | nil =>
    obtain ⟨bound, rfl⟩ := Nat.exists_eq_add_one.2 h
    rfl
  | cons c cs ih =>
    obtain ⟨bound, rfl⟩ := Nat.exists_eq_add_one.2 (Nat.zero_lt_of_lt h)
    rw [List.flatMap_cons, List.append_assoc, readBasic_writtenChar, ih (Nat.lt_of_succ_lt_succ h)]
    rfl

/-- A character is never written as a quote. -/
theorem exists_writtenChar (c : Char) : ∃ d ds, writtenChar c = d :: ds ∧ d ≠ '"' := by
  rw [writtenChar]
  split
  · next basic => exact ⟨c, [], rfl, (ne_of_isBasicChar basic).1⟩
  · exact ⟨'\\', _, rfl, by decide⟩

/-- A string is read from between its quotes, at the end of a line. It does not begin with three
    quotes, as an empty one is not followed by a third. -/
theorem readString_written (s : String) (rest : List Char) :
    readString ('"' :: (s.toList.flatMap writtenChar ++ '"' :: '\n' :: rest)) =
      some (s, '\n' :: rest) := by
  have enough : s.toList.length <
      (s.toList.flatMap writtenChar ++ '"' :: '\n' :: rest).length + 1 := by
    have : s.toList.length ≤ (s.toList.flatMap writtenChar).length :=
      length_le_flatMap fun c _ => by
        obtain ⟨d, ds, written, -⟩ := exists_writtenChar c
        exact written ▸ List.cons_ne_nil d ds
    rw [List.length_append]
    omega
  rw [readString, readLineString, readBasic_flatMap _ _ enough]
  · simp only [Option.map_some, String.ofList_toList]
  · -- Three quotes at the beginning would be a string of many lines.
    intro tail triple
    cases hs : s.toList with
    | nil => simp [hs] at triple
    | cons c cs =>
      obtain ⟨d, ds, written, quote⟩ := exists_writtenChar c
      simp [hs, written, quote] at triple
  · simp

/-! ### Numbers -/

/-- There is no digit at the end of a line. -/
theorem readDigits_lineEnd (rest : List Char) : readDigits Char.isDigit ('\n' :: rest) = none := by
  rw [readDigits.eq_def]
  split
  · next lineEnd =>
    obtain ⟨rfl, -⟩ := List.cons.inj lineEnd
    exact if_neg (by decide)
  · next lineEnd =>
    obtain ⟨rfl, -⟩ := List.cons.inj lineEnd
    exact if_neg (by decide)
  · rfl

/-- The digits of a line are read as far as it goes. -/
theorem readDigits_append {d : Char} {ds : List Char} (hds : ∀ c ∈ d :: ds, c.isDigit = true)
    (rest : List Char) :
    readDigits Char.isDigit (d :: ds ++ '\n' :: rest) = some (d :: ds, '\n' :: rest) := by
  obtain ⟨digit, digits⟩ := List.forall_mem_cons.1 hds
  induction ds generalizing d with
  | nil =>
    rw [List.singleton_append, readDigits, if_pos digit, readDigits_lineEnd]
    simp
  | cons e es ih =>
    have more := List.forall_mem_cons.1 digits
    have joint : ∀ cs, e :: es ++ '\n' :: rest = '_' :: cs → False := by
      rintro cs split
      obtain ⟨rfl, -⟩ := List.cons.inj split
      exact absurd more.1 (by decide)
    rw [List.cons_append, readDigits, if_pos digit, ih digits more.1 more.2]
    exact joint

theorem isDigit_toDigits (n : Nat) : ∀ c ∈ Nat.toDigits 10 n, c.isDigit = true :=
  fun _ => Nat.isDigit_of_mem_toDigits (by decide) (by decide)

/-- The value of a decimal digit. -/
theorem hexValue?_of_isDigit {c : Char} (h : c.isDigit = true) :
    Text.hexValue? c = some (c.toNat - '0'.toNat) := by
  simp only [Char.isDigit, Bool.and_eq_true, decide_eq_true_eq] at h
  exact if_pos h

/-- Decimal digits write the number that they are the digits of. -/
theorem numberOf_toDigits (n : Nat) : numberOf 10 (Nat.toDigits 10 n) = n := by
  have same : ∀ m, ∀ c ∈ Nat.toDigits 10 n,
      m * 10 + (Text.hexValue? c).getD 0 = 10 * m + (c.toNat - '0'.toNat) := by
    intro m c hc
    rw [hexValue?_of_isDigit (isDigit_toDigits n c hc), Option.getD_some, Nat.mul_comm]
  rw [numberOf, List.foldl_ext _ _ _ same, ← Nat.ofDigitChars_eq_foldl,
    Nat.ofDigitChars_toDigits (by decide) (by decide)]

section

variable {n : Nat} {c : Char} {cs rest : List Char}

/-- The digits of a number begin with a digit. -/
theorem isDigit_of_toDigits_append (h : Nat.toDigits 10 n ++ rest = c :: cs) :
    c.isDigit = true := by
  obtain ⟨d, ds, digits, digit⟩ := Json.exists_toDigits n
  rw [digits, List.cons_append] at h
  exact (List.cons.inj h).1 ▸ digit

/-- They begin with a zero only if they are no more than that. -/
theorem eq_of_toDigits_append (h : Nat.toDigits 10 n ++ rest = '0' :: cs) : n = 0 ∧ cs = rest := by
  obtain ⟨d, ds, digits, -⟩ := Json.exists_toDigits n
  rw [digits, List.cons_append] at h
  obtain ⟨rfl, tail⟩ := List.cons.inj h
  obtain rfl := Json.head_toDigits digits
  obtain rfl : [] = ds := (List.cons.inj digits).2
  exact ⟨rfl, tail.symm⟩

end

/-- The digits of a number are read as a decimal integer. -/
theorem readDecimal_toDigits (n : Nat) (rest : List Char) :
    readDecimal (Nat.toDigits 10 n ++ '\n' :: rest) =
      some (Nat.toDigits 10 n, '\n' :: rest) := by
  rw [readDecimal.eq_def]
  split
  · next zero =>
    obtain ⟨rfl, rfl⟩ := eq_of_toDigits_append zero
    rfl
  · obtain ⟨d, ds, digits, -⟩ := Json.exists_toDigits n
    rw [digits]
    exact readDigits_append (digits ▸ isDigit_toDigits n) rest

theorem readSign_toDigits (n : Nat) (rest : List Char) :
    readSign (Nat.toDigits 10 n ++ rest) = (false, Nat.toDigits 10 n ++ rest) := by
  rw [readSign.eq_def]
  split
  · next plus => exact absurd (isDigit_of_toDigits_append plus) (by decide)
  · next minus => exact absurd (isDigit_of_toDigits_append minus) (by decide)
  · rfl

/-- The first number that is too large for a document. -/
def numberLimit : Nat := 9223372036854775808

/-- A number that is not too large is read from its digits, at the end of a line. -/
theorem readInteger_toDigits {n : Nat} (h : n < numberLimit) (rest : List Char) :
    readInteger (Nat.toDigits 10 n ++ '\n' :: rest) = some (.integer n, '\n' :: rest) := by
  have fits : int64? n = some (.integer n) := if_pos (by rw [numberLimit] at h; omega)
  have based : ∀ c cs, Nat.toDigits 10 n ++ '\n' :: rest = '0' :: c :: cs → c = '\n' :=
    fun c cs zero => (List.cons.inj (eq_of_toDigits_append zero).2).1
  rw [readInteger.eq_def]
  split
  · next mark => exact absurd (based _ _ mark) (by decide)
  · next mark => exact absurd (based _ _ mark) (by decide)
  · next mark => exact absurd (based _ _ mark) (by decide)
  · simp [readSign_toDigits, readDecimal_toDigits, numberOf_toDigits, fits]

/-- The digits of a line are a number, which is no float. -/
theorem readNumber_toDigits {n : Nat} (h : n < numberLimit) (rest : List Char) :
    readNumber (Nat.toDigits 10 n ++ '\n' :: rest) = some (.integer n, '\n' :: rest) := by
  have decimal : readDecimalFloat (Nat.toDigits 10 n ++ '\n' :: rest) = none := by
    simp [readDecimalFloat, readSign_toDigits, readDecimal_toDigits, readFraction, readExponent]
  have special : readSpecialFloat (Nat.toDigits 10 n ++ '\n' :: rest) = none := by
    rw [readSpecialFloat, readSign_toDigits]
    split
    · next name => exact absurd (isDigit_of_toDigits_append (Prod.ext_iff.1 name).2) (by decide)
    · next name => exact absurd (isDigit_of_toDigits_append (Prod.ext_iff.1 name).2) (by decide)
    · rfl
  rw [readNumber, decimal, special, readInteger_toDigits h]
  rfl

/-! ### No dates -/

namespace Calendar

variable {ds rest cs : List Char} {count v : Nat}

/-- In a line of digits, what follows some of them is another digit or the end of the line. -/
theorem expect?_eq_none {c : Char} (mark : c.isDigit = false ∧ c ≠ '\n')
    (hds : ∀ d ∈ ds, d.isDigit = true)
    (h : readFixed count (ds ++ '\n' :: rest) = some (v, cs)) : expect? c cs = none := by
  simp only [readFixed, Option.ite_none_right_eq_some, Option.some.injEq, Prod.mk.injEq,
    List.all_eq_true] at h
  obtain ⟨⟨-, digits⟩, -, rfl⟩ := h
  have within : count ≤ ds.length := by
    by_contra beyond
    -- Otherwise the end of the line would be one of the digits that have been read.
    obtain ⟨k, hk⟩ := Nat.exists_eq_add_of_lt (Nat.lt_of_not_le beyond)
    have lineEnd : '\n' ∈ (ds ++ '\n' :: rest).take count := by
      rw [hk, Nat.add_assoc, List.take_length_add_append, List.take_succ_cons]
      simp
    exact absurd (digits _ lineEnd) (by decide)
  rw [List.drop_append_of_le_length within]
  cases hd : ds.drop count with
  | nil => exact if_neg (Ne.symm mark.2)
  | cons d tail =>
    have digit := hds d (List.mem_of_mem_drop (hd ▸ List.mem_cons_self))
    exact if_neg fun same => by simp [← same, digit] at mark

/-- A line of digits is no moment. -/
theorem readMoment_eq_none (hds : ∀ d ∈ ds, d.isDigit = true) :
    readMoment (ds ++ '\n' :: rest) = none := by
  have date : readDate (ds ++ '\n' :: rest) = none := by
    cases year : readFixed 4 (ds ++ '\n' :: rest) with
    | none => simp [readDate, year]
    | some found => simp [readDate, year, expect?_eq_none (c := '-') (by decide) hds year]
  have time : readTime (ds ++ '\n' :: rest) = none := by
    cases hour : readFixed 2 (ds ++ '\n' :: rest) with
    | none => simp [readTime, hour]
    | some found => simp [readTime, hour, expect?_eq_none (c := ':') (by decide) hds hour]
  rw [readMoment, date, time]
  rfl

end Calendar

/-! ### Scalars -/

/-- A value that is written on one line. -/
inductive Scalar where
  | string (s : String)
  | number (n : Nat)
  | boolean (b : Bool)

namespace Scalar

/-- The value that is meant. -/
def value : Scalar → Value
  | string s => .string s
  | number n => .integer n
  | boolean b => .boolean b

/-- The value is no number that is too large for a document. -/
def Fits : Scalar → Prop
  | number n => n < numberLimit
  | _ => True

/-- How a value is written. -/
def written : Scalar → List Char
  | string s => '"' :: (s.toList.flatMap writtenChar ++ ['"'])
  | number n => Nat.toDigits 10 n
  | boolean true => ['t', 'r', 'u', 'e']
  | boolean false => ['f', 'a', 'l', 's', 'e']

/-- A value does not begin with a blank, and does not open other values. -/
theorem head_written {v : Scalar} {c : Char} {cs rest : List Char}
    (h : v.written ++ rest = c :: cs) : isBlank c = false ∧ c ≠ '[' ∧ c ≠ '\x7b' := by
  cases v with
  | string s =>
    obtain ⟨rfl, -⟩ := List.cons.inj h
    decide
  | number n =>
    have other : ∀ d : Char, d.isDigit = false → c ≠ d := fun d hd same => by
      rw [← same, isDigit_of_toDigits_append h] at hd
      contradiction
    exact ⟨by simp [isBlank, other], other _ (by decide), other _ (by decide)⟩
  | boolean b => cases b <;> (obtain ⟨rfl, -⟩ := List.cons.inj h; decide)

theorem written_ne_nil (v : Scalar) : v.written ≠ [] := by
  cases v with
  | string s => exact List.cons_ne_nil _ _
  | number n => exact Nat.toDigits_ne_nil
  | boolean b => cases b <;> exact List.cons_ne_nil _ _

end Scalar

/-- A value is read up to the end of its line. -/
theorem readScalar_written {v : Scalar} (h : v.Fits) (rest : List Char) :
    readScalar (v.written ++ '\n' :: rest) = some (v.value, '\n' :: rest) := by
  cases v with
  | string s =>
    simp only [Scalar.written, List.cons_append, List.append_assoc, List.nil_append]
    rw [readScalar, readString_written]
    rfl
  | number n =>
    have moment : Calendar.readMoment (Nat.toDigits 10 n ++ '\n' :: rest) = none :=
      Calendar.readMoment_eq_none (isDigit_toDigits n)
    rw [Scalar.written, readScalar.eq_def]
    split
    · next other => exact absurd (isDigit_of_toDigits_append other) (by decide)
    · next other => exact absurd (isDigit_of_toDigits_append other) (by decide)
    · next other => exact absurd (isDigit_of_toDigits_append other) (by decide)
    · next other => exact absurd (isDigit_of_toDigits_append other) (by decide)
    · rw [moment]
      exact readNumber_toDigits h rest
  | boolean b => cases b <;> rfl

/-- So it is as a value at any depth. -/
theorem readValue_written {v : Scalar} (h : v.Fits) (depth : Nat) (rest : List Char) :
    readValue depth (v.written ++ '\n' :: rest) = some (v.value, '\n' :: rest) := by
  rw [← readScalar_written h, readValue.eq_def]
  split
  · next bracket => exact absurd rfl (Scalar.head_written bracket).2.1
  · next brace => exact absurd rfl (Scalar.head_written brace).2.2
  · next bracket => exact absurd rfl (Scalar.head_written bracket).2.1
  · next brace => exact absurd rfl (Scalar.head_written brace).2.2
  · rfl

/-! ### Lines -/

/-- A line of a flat document. -/
structure Line where
  key : String
  value : Scalar

namespace Line

/-- The key needs no quotes, and the value fits. -/
structure Fits (l : Line) : Prop where
  key_ne : l.key ≠ ""
  bare : ∀ c ∈ l.key.toList, isKeyChar c = true
  value : l.value.Fits

/-- How a line is written. -/
def written (l : Line) : List Char :=
  l.key.toList ++ ' ' :: '=' :: ' ' :: (l.value.written ++ ['\n'])

/-- What a line says. -/
def pair (l : Line) : Pair := ⟨[], l.key, l.value.value⟩

/-- The entry of a line in the table of its document. -/
def entry (l : Line) : String × Value := (l.key, l.value.value)

variable {l : Line}

/-- A key has a first character. -/
theorem Fits.exists_key (h : l.Fits) : ∃ c cs, l.key.toList = c :: cs ∧ isKeyChar c = true := by
  cases hkey : l.key.toList with
  | nil => exact absurd (String.toList_eq_nil_iff.1 hkey) h.key_ne
  | cons c cs => exact ⟨c, cs, rfl, h.bare c (hkey ▸ List.mem_cons_self)⟩

/-- With it the line begins. -/
theorem Fits.exists_written (h : l.Fits) : ∃ c cs, l.written = c :: cs ∧ isKeyChar c = true := by
  obtain ⟨c, cs, hkey, hc⟩ := h.exists_key
  exact ⟨c, _, by rw [written, hkey, List.cons_append], hc⟩

end Line

theorem ne_of_isKeyChar {c d : Char} (hc : isKeyChar c = true) (hd : isKeyChar d = false) :
    c ≠ d := by
  rintro rfl
  rw [hc] at hd
  contradiction

theorem skipBlanks_cons {c : Char} (h : isBlank c = false) (cs : List Char) :
    skipBlanks (c :: cs) = c :: cs :=
  List.dropWhile_cons_of_neg (by simp [h])

/-- A key is not preceded by blanks. -/
theorem skipBlanks_of_isKeyChar {c : Char} (h : isKeyChar c = true) (cs : List Char) :
    skipBlanks (c :: cs) = c :: cs := by
  have other : ∀ d, isKeyChar d = false → c ≠ d := fun d => ne_of_isKeyChar h
  exact skipBlanks_cons (by simp [isBlank, other ' ' (by decide), other '\t' (by decide)]) cs

section

variable {l : Line} (h : l.Fits) (rest : List Char)
include h

/-- The key of a line is read up to the blank before the equals sign. -/
theorem readKeyPart_written :
    readKeyPart (l.key.toList ++ ' ' :: rest) = some (l.key, ' ' :: rest) := by
  have blank : isKeyChar ' ' = false := by decide
  have taken : (l.key.toList ++ ' ' :: rest).takeWhile isKeyChar = l.key.toList := by
    rw [List.takeWhile_append_of_pos h.bare, List.takeWhile_cons_of_neg (by simp [blank]),
      List.append_nil]
  have left : (l.key.toList ++ ' ' :: rest).dropWhile isKeyChar = ' ' :: rest := by
    rw [List.dropWhile_append_of_pos h.bare, List.dropWhile_cons_of_neg (by simp [blank])]
  have head {c : Char} {cs : List Char} (text : l.key.toList ++ ' ' :: rest = c :: cs) :
      isKeyChar c = true := by
    obtain ⟨d, ds, hkey, hd⟩ := h.exists_key
    rw [hkey, List.cons_append] at text
    exact (List.cons.inj text).1 ▸ hd
  rw [readKeyPart.eq_def]
  split
  · next quote => exact absurd (head quote) (by decide)
  · next quote => exact absurd (head quote) (by decide)
  · rw [taken, left]
    split
    · next empty => exact absurd (String.toList_eq_nil_iff.1 empty) h.key_ne
    · rw [String.ofList_toList]

/-- The key of a line is read up to the equals sign. -/
theorem readKey_written (bound : Nat) :
    readKey (bound + 1) (l.key.toList ++ ' ' :: '=' :: rest) = some ([], l.key, '=' :: rest) := by
  obtain ⟨c, cs, hkey, hc⟩ := h.exists_key
  have start : skipBlanks (l.key.toList ++ ' ' :: '=' :: rest) =
      l.key.toList ++ ' ' :: '=' :: rest := by
    rw [hkey]
    exact skipBlanks_of_isKeyChar hc _
  rw [readKey, start, readKeyPart_written h]
  rfl

/-- A line is read as its key with its value. -/
theorem readPair_written :
    readPair (readValue depthLimit) (l.written ++ rest) = some (l.pair, '\n' :: rest) := by
  have start : skipBlanks (' ' :: (l.value.written ++ '\n' :: rest)) =
      l.value.written ++ '\n' :: rest := by
    obtain ⟨c, cs, hvalue⟩ := List.exists_cons_of_ne_nil l.value.written_ne_nil
    have head := Scalar.head_written ((List.append_nil _).trans hvalue)
    rw [hvalue]
    exact skipBlanks_cons head.1 _
  have text : l.written ++ rest =
      l.key.toList ++ ' ' :: '=' :: ' ' :: (l.value.written ++ '\n' :: rest) := by
    simp [Line.written]
  rw [text, readPair, depthLimit, readKey_written h]
  simp [start, readValue_written h.value, Line.pair]

end

/-- The lines of a document are read one by one. -/
theorem readLines_written {lines : List Line} (h : ∀ l ∈ lines, l.Fits) {bound : Nat}
    (enough : lines.length < bound) :
    readLines bound (lines.flatMap Line.written) = some (lines.map Line.pair, []) := by
  induction lines generalizing bound with
  | nil =>
    obtain ⟨bound, rfl⟩ := Nat.exists_eq_add_one.2 enough
    rfl
  | cons l lines ih =>
    obtain ⟨bound, rfl⟩ := Nat.exists_eq_add_one.2 (Nat.zero_lt_of_lt enough)
    obtain ⟨fits, others⟩ := List.forall_mem_cons.1 h
    have pair := readPair_written fits (lines.flatMap Line.written)
    obtain ⟨c, cs, text, hc⟩ := fits.exists_written
    rw [text, List.cons_append] at pair
    rw [List.flatMap_cons, text, List.cons_append, readLines, skipBlanks_of_isKeyChar hc]
    -- The line begins with its key, so it is not the end, no header, and no comment.
    split
    · next empty => cases empty
    · next bracket => exact absurd (List.cons.inj bracket).1 (ne_of_isKeyChar hc (by decide))
    · next found =>
      obtain ⟨rfl, rfl⟩ := List.cons.inj found
      have plain : ¬ (c = '#' ∨ c = '\n' ∨ c = '\r') := by
        rintro (other | other | other)
        all_goals exact absurd other (ne_of_isKeyChar hc (by decide))
      have after : afterLine? ('\n' :: lines.flatMap Line.written) =
          some (lines.flatMap Line.written) := rfl
      rw [if_neg plain, pair]
      simp [after, ih others (Nat.lt_of_succ_lt_succ enough)]

/-! ### Documents -/

/-- The text of a document with the given lines. -/
def written (lines : List Line) : String := String.ofList (lines.flatMap Line.written)

/-- Lines with distinct keys, none of them in the table yet, are added to the table. -/
theorem fill_pairs {lines : List Line} {entries : Entries}
    (distinct : (entries.map Prod.fst ++ lines.map Line.key).Nodup) :
    fill (lines.map Line.pair) entries =
      some (entries ++ lines.map fun l => (l.key, .value l.value.value)) := by
  induction lines generalizing entries with
  | nil => simp [fill]
  | cons l lines ih =>
    have absent : entries.lookup l.key = none := by
      refine List.lookup_eq_none_iff.2 fun e he => bne_iff_ne.2 fun same => ?_
      exact (List.nodup_append.1 distinct).2.2 _ (List.mem_map_of_mem he) _ List.mem_cons_self
        same.symm
    have added : entries.addPair [] l.key l.value.value =
        some (entries ++ [(l.key, .value l.value.value)]) := by
      simp [Entries.addPair, Entries.within, absent]
    have more := @ih (entries ++ [(l.key, .value l.value.value)]) (by simpa using distinct)
    rw [fill] at more
    rw [List.map_cons, fill, List.foldlM_cons, Line.pair, added, Option.bind_eq_bind,
      Option.bind_some, more, List.append_assoc]
    rfl

theorem finishEntries_lines (lines : List Line) :
    finishEntries (lines.map fun l => (l.key, .value l.value.value)) = lines.map Line.entry := by
  induction lines with
  | nil => rfl
  | cons l lines ih =>
    rw [List.map_cons, finishEntries, ih]
    rfl

/-- A document is read as the table of its lines. -/
theorem parse_written {lines : List Line} (h : ∀ l ∈ lines, l.Fits)
    (distinct : (lines.map Line.key).Nodup) :
    parse (written lines) = some (lines.map Line.entry) := by
  have mark : skipByteOrderMark (lines.flatMap Line.written) = lines.flatMap Line.written := by
    cases lines with
    | nil => rfl
    | cons l lines =>
      obtain ⟨c, cs, text, hc⟩ := (h l List.mem_cons_self).exists_written
      rw [List.flatMap_cons, text, List.cons_append]
      refine if_neg fun same => ne_of_isKeyChar hc (d := '\uFEFF') (by decide) ?_
      exact Char.toNat_inj.1 same
  have enough : lines.length ≤ (lines.flatMap Line.written).length :=
    length_le_flatMap fun l hl => by
      obtain ⟨c, cs, text, -⟩ := (h l hl).exists_written
      exact text ▸ List.cons_ne_nil c cs
  have top : fill (lines.map Line.pair) [] = _ := fill_pairs (by simpa using distinct)
  rw [parse, written, String.toList_ofList, mark, readLines_written h (Nat.lt_succ_of_le enough)]
  simp [top, finishEntries_lines]

end LeasePool.Toml
