import LeasePool.Json.Printer
import LeasePool.Json.Reader
import Mathlib.Data.List.Basic
import Mathlib.Tactic.IntervalCases

/-!
# Reading compact JSON text

The compact text of a value is read as the value, with what follows it left
over. A number ends where the text goes on with neither a digit nor the
beginning of a fraction or an exponent (`Json.Detached`), which holds of
everything that can follow a value in a document. Only a number that is no
unsigned integer may be spelled as something else, so a value must be without
one (`Json.Plain`).

* `Json.readPieces_escapedChar`: an escape is read as one piece of a string,
  which stands for the escaped character alone;
* `Json.readValue_written`: a value is read from its text, by induction on the
  value, at any depth that is no less than the length of the text;
* `Json.parse_compact`: the compact text of a plain value is a document of it.
-/

namespace LeasePool.Json

/-! ### Strings -/

/-- A piece stands for one character wherever it is in a string. -/
def Piece.Spells (p : Piece) (c : Char) : Prop :=
  ∀ ps, assemble? (p :: ps) = (assemble? ps).map (c :: ·)

theorem Piece.spells_char (c : Char) : Piece.Spells (.char c) c := fun _ => rfl

/-- A unit below the halves of surrogate pairs is a character on its own. -/
theorem Piece.spells_unit {n : Nat} (h : n < 0xD800) : Piece.Spells (.unit n) (Char.ofNat n) := by
  intro ps
  have hhigh : isHighHalf n = false := by simp [isHighHalf]; omega
  have hlow : isLowHalf n = false := by simp [isLowHalf]; omega
  rw [assemble?.eq_def]
  simp [hhigh, hlow]

/-- The four digits of an escaped control character. -/
theorem hexValues?_hexByte {n : Nat} (h : n < 32) :
    hexValues? '0' '0' (Nat.digitChar (n / 16)) (Nat.digitChar (n % 16)) = some n := by
  have hzero : Text.hexValue? '0' = some 0 := by decide
  simp only [hexValues?, hzero, Text.hexValue?_digitChar (show n / 16 < 16 by omega),
    Text.hexValue?_digitChar (show n % 16 < 16 by omega), Option.bind_eq_bind, Option.bind_some,
    Option.pure_def, Option.some.injEq]
  omega

/-- A character that is not escaped is read as itself. -/
theorem readPieces_cons {c : Char} (hquote : c ≠ '"') (hslash : c ≠ '\\') (hctrl : ¬c.toNat < 32)
    (rest : List Char) :
    readPieces (c :: rest) = (readPieces rest).map fun q => (.char c :: q.1, q.2) := by
  rw [readPieces.eq_def]
  split
  · simp_all
  · simp_all
  · simp_all
  · simp_all
  · next hc =>
    obtain ⟨rfl, rfl⟩ := List.cons.inj hc
    rw [if_neg (by simp [hctrl, hslash])]
    cases readPieces _ <;> rfl

/-- An escape of one letter is read as the character that it stands for. -/
theorem readPieces_short {e c : Char} (h : shortEscape? e = some c) (hu : e ≠ 'u')
    (rest : List Char) :
    readPieces ('\\' :: e :: rest) = (readPieces rest).map fun q => (.char c :: q.1, q.2) := by
  rw [readPieces, h]
  · cases readPieces rest <;> rfl
  · simp [hu]

/-- The escape of a control character is read as a unit. -/
theorem readPieces_hexByte {n : Nat} (h : n < 32) (rest : List Char) :
    readPieces (['\\', 'u', '0', '0'] ++ Text.hexByte n ++ rest) =
      (readPieces rest).map fun q => (.unit n :: q.1, q.2) := by
  simp only [Text.hexByte, List.cons_append, List.nil_append]
  rw [readPieces, hexValues?_hexByte h]
  cases readPieces rest <;> rfl

/-- A character of a string is read as one piece, which stands for it. -/
theorem readPieces_escapedChar (c : Char) : ∃ p : Piece, p.Spells c ∧ ∀ rest,
    readPieces (escapedChar c ++ rest) = (readPieces rest).map fun q => (p :: q.1, q.2) := by
  have short : ∀ e, shortEscape? e = some c → e ≠ 'u' → ∃ p : Piece, p.Spells c ∧ ∀ rest,
      readPieces (['\\', e] ++ rest) = (readPieces rest).map fun q => (p :: q.1, q.2) :=
    fun e he hu => ⟨.char c, Piece.spells_char c, readPieces_short he hu⟩
  have named : ∀ d : Char, c.toNat = d.toNat → c = d := fun _ => Char.toNat_inj.1
  unfold escapedChar
  -- Seven characters have a short escape, the other controls are written with four digits, and the
  -- rest stand for themselves.
  split_ifs with hquote hslash hback hform hline hreturn htab hctrl
  · exact short '"' (by rw [hquote]; rfl) (by decide)
  · exact short '\\' (by rw [hslash]; rfl) (by decide)
  · exact short 'b' (by rw [named '\x08' hback]; rfl) (by decide)
  · exact short 'f' (by rw [named '\x0c' hform]; rfl) (by decide)
  · exact short 'n' (by rw [hline]; rfl) (by decide)
  · exact short 'r' (by rw [hreturn]; rfl) (by decide)
  · exact short 't' (by rw [htab]; rfl) (by decide)
  · refine ⟨.unit c.toNat, ?_, readPieces_hexByte hctrl⟩
    have hspells := Piece.spells_unit (show c.toNat < 0xD800 by omega)
    rwa [Char.ofNat_toNat] at hspells
  · exact ⟨.char c, Piece.spells_char c, readPieces_cons hquote hslash hctrl⟩

/-- The characters of a string are read back, up to its closing quote. -/
theorem readPieces_flatMap (cs rest : List Char) : ∃ ps,
    readPieces (cs.flatMap escapedChar ++ '"' :: rest) = some (ps, rest) ∧
      assemble? ps = some cs := by
  induction cs with
  | nil => exact ⟨[], by simp [readPieces], rfl⟩
  | cons c cs ih =>
    obtain ⟨p, hp, hread⟩ := readPieces_escapedChar c
    obtain ⟨ps, hps, has⟩ := ih
    refine ⟨p :: ps, ?_, by rw [hp, has]; rfl⟩
    rw [List.flatMap_cons, List.append_assoc, hread, hps]
    rfl

/-- A string is read from what its quotes enclose. -/
theorem readText_writtenText (s : String) (rest : List Char) :
    readText (s.toList.flatMap escapedChar ++ '"' :: rest) = some (some s, rest) := by
  obtain ⟨ps, hps, has⟩ := readPieces_flatMap s.toList rest
  simp [readText, hps, has, String.ofList_toList]

/-- A string with half a surrogate pair is read as one without a text. -/
theorem readText_half (rest : List Char) :
    readText ('\\' :: 'u' :: 'd' :: '8' :: '0' :: '0' :: '"' :: rest) = some (none, rest) := by
  have hhalf : hexValues? 'd' '8' '0' '0' = some 0xD800 := by decide
  simp only [readText, readPieces, hhalf]
  rfl

/-! ### Numbers -/

/-- A text does not go on with a number that has just ended. -/
def Detached (rest : List Char) : Prop :=
  ∀ c cs, rest = c :: cs → c.isDigit = false ∧ c ≠ '.' ∧ c ≠ 'e' ∧ c ≠ 'E'

theorem detached_nil : Detached [] := fun _ _ h => nomatch h

theorem detached_cons {c : Char} (h : c.isDigit = false ∧ c ≠ '.' ∧ c ≠ 'e' ∧ c ≠ 'E')
    (rest : List Char) : Detached (c :: rest) := by
  rintro d cs hd
  obtain ⟨rfl, rfl⟩ := List.cons.inj hd
  exact h

/-- Digits are read up to the end of the number. -/
theorem readDigits_append {ds rest : List Char} (hds : ∀ c ∈ ds, c.isDigit = true)
    (hrest : Detached rest) : readDigits (ds ++ rest) = (ds, rest) := by
  have htake : rest.takeWhile Char.isDigit = [] := by
    cases rest with
    | nil => rfl
    | cons c cs => simp [(hrest c cs rfl).1]
  have hdrop : rest.dropWhile Char.isDigit = rest := by
    cases rest with
    | nil => rfl
    | cons c cs => simp [(hrest c cs rfl).1]
  rw [readDigits, List.takeWhile_append_of_pos hds, List.dropWhile_append_of_pos hds, htake, hdrop,
    List.append_nil]

/-- The decimal digits of a number begin with a digit. -/
theorem exists_toDigits (n : Nat) : ∃ c cs, Nat.toDigits 10 n = c :: cs ∧ c.isDigit = true := by
  cases hds : Nat.toDigits 10 n with
  | nil => exact absurd hds Nat.toDigits_ne_nil
  | cons c cs =>
    exact ⟨c, cs, rfl,
      Nat.isDigit_of_mem_toDigits (by decide) (by decide) (hds ▸ List.mem_cons_self)⟩

/-- The decimal digits of a number that is not zero do not begin with a zero. -/
theorem head_toDigits {n : Nat} {ds : List Char} (h : Nat.toDigits 10 n = '0' :: ds) : n = 0 := by
  induction n using Nat.strong_induction_on generalizing ds with
  | _ n ih =>
    rcases Nat.lt_or_ge n 10 with hlt | hge
    · rw [Nat.toDigits_of_lt_base hlt] at h
      interval_cases n <;> simp_all [Nat.digitChar]
    · rw [Nat.toDigits_of_base_le (by omega) hge] at h
      obtain ⟨d, cs, hds, -⟩ := exists_toDigits (n / 10)
      rw [hds, List.cons_append] at h
      obtain ⟨rfl, -⟩ := List.cons.inj h
      have := ih (n / 10) (by omega) hds
      omega

/-- An integer is read from its digits. -/
theorem readInteger_toDigits (n : Nat) {rest : List Char} (hrest : Detached rest) :
    readInteger (Nat.toDigits 10 n ++ rest) = some (Nat.toDigits 10 n, rest) := by
  have hdigits : readDigits (Nat.toDigits 10 n ++ rest) = (Nat.toDigits 10 n, rest) :=
    readDigits_append (fun c => Nat.isDigit_of_mem_toDigits (by decide) (by decide)) hrest
  rw [readInteger, hdigits]
  split
  · next h => exact absurd (Prod.ext_iff.1 h).1 Nat.toDigits_ne_nil
  · next c cs ys h =>
    -- Two digits of which the first one is a zero: only zero has it, and it has no second one.
    have hzero := head_toDigits (Prod.ext_iff.1 h).1
    subst hzero
    simp [Nat.toDigits_of_lt_base (show 0 < 10 by decide)] at h
  · next found hfirst hsecond => rfl

theorem skipFraction?_of_detached {rest : List Char} (h : Detached rest) :
    skipFraction? rest = some rest := by
  rw [skipFraction?.eq_def]
  split
  · exact absurd rfl (h _ _ rfl).2.1
  · rfl

theorem skipExponent?_of_detached {rest : List Char} (h : Detached rest) :
    skipExponent? rest = some rest := by
  cases rest with
  | nil => rfl
  | cons c cs =>
    obtain ⟨-, -, he, hE⟩ := h c cs rfl
    simp [skipExponent?, he, hE]

/-- An unsigned integer is read from its digits. -/
theorem readNumber_toDigits (n : Nat) {rest : List Char} (hrest : Detached rest) :
    readNumber (Nat.toDigits 10 n ++ rest) = some (.nat n, rest) := by
  have hhead : ∀ cs, Nat.toDigits 10 n ++ rest = '-' :: cs → False := by
    intro cs h
    obtain ⟨c, ds, hds, hc⟩ := exists_toDigits n
    rw [hds, List.cons_append] at h
    obtain ⟨rfl, -⟩ := List.cons.inj h
    exact absurd hc (by decide)
  rw [readNumber]
  · simp only [readInteger_toDigits n hrest, Option.bind_eq_bind, Option.bind_some,
      skipFraction?_of_detached hrest, skipExponent?_of_detached hrest, and_self, if_true,
      Nat.ofDigitChars_toDigits (show 1 < 10 by decide) (show 10 ≤ 10 by decide), Option.pure_def]
  · exact hhead

/-! ### Values -/

mutual

/-- A value holds no other number than unsigned integers. -/
def Plain : Json → Prop
  | .number _ => False
  | .array xs => PlainItems xs
  | .object ms => PlainMembers ms
  | _ => True

/-- The items of an array are plain. -/
def PlainItems : List Json → Prop
  | [] => True
  | x :: xs => Plain x ∧ PlainItems xs

/-- The values of the members of an object are plain. -/
def PlainMembers : List (Option String × Json) → Prop
  | [] => True
  | m :: ms => Plain m.2 ∧ PlainMembers ms

end

@[simp] theorem plain_null : Plain .null := trivial

@[simp] theorem plain_bool (b : Bool) : (bool b).Plain := trivial

@[simp] theorem plain_nat (n : Nat) : (nat n).Plain := trivial

@[simp] theorem plain_text (s : String) : (text s).Plain := trivial

/-- A record is plain if its fields are. -/
theorem plain_record {members : List (String × Json)} (h : ∀ m ∈ members, m.2.Plain) :
    (record members).Plain := by
  rw [record, Plain]
  induction members with
  | nil => simp [PlainMembers]
  | cons m ms ih =>
    obtain ⟨hm, hms⟩ := List.forall_mem_cons.1 h
    exact ⟨hm, ih hms⟩

@[simp] theorem plain_ofOption {write : α → Json} (h : ∀ a, (write a).Plain) (a : Option α) :
    (ofOption write a).Plain := by
  cases a with
  | none => exact plain_null
  | some a => exact h a

theorem skipBlanks_cons {c : Char} (h : isBlank c = false) (cs : List Char) :
    skipBlanks (c :: cs) = c :: cs := by
  simp [skipBlanks, h]

theorem isBlank_of_isDigit {c : Char} (h : c.isDigit = true) : isBlank c = false := by
  simp only [isBlank, Bool.or_eq_false_iff, beq_eq_false_iff_ne]
  refine ⟨⟨⟨?_, ?_⟩, ?_⟩, ?_⟩ <;> rintro rfl <;> exact absurd h (by decide)

/-- An integer is read from its digits as a value: a digit begins nothing else. -/
theorem readValue_toDigits (n d : Nat) {rest : List Char} (hrest : Detached rest) :
    readValue (d + 1) (Nat.toDigits 10 n ++ rest) = some (.nat n, rest) := by
  have hread := readNumber_toDigits n hrest
  obtain ⟨c, cs, hds, hc⟩ := exists_toDigits n
  rw [hds, List.cons_append] at hread ⊢
  rw [readValue, skipBlanks_cons (isBlank_of_isDigit hc)]
  split
  all_goals first
    | exact hread
    | next h =>
      obtain ⟨rfl, -⟩ := List.cons.inj h
      exact absurd hc (by decide)

/-- The text of a value does not begin with a blank or with the end of an
    array. -/
theorem written_head {j : Json} (h : j.Plain) :
    ∃ c cs, j.written = c :: cs ∧ isBlank c = false ∧ c ≠ ']' := by
  cases j with
  | null => exact ⟨_, _, rfl, by decide, by decide⟩
  | bool b => cases b <;> exact ⟨_, _, rfl, by decide, by decide⟩
  | nat n =>
    obtain ⟨c, cs, hds, hc⟩ := exists_toDigits n
    refine ⟨c, cs, by rw [written, hds], isBlank_of_isDigit hc, ?_⟩
    rintro rfl
    exact absurd hc (by decide)
  | number spelling => simp [Plain] at h
  | text s => exact ⟨_, _, by rw [written, writtenText], by decide, by decide⟩
  | brokenText => exact ⟨_, _, by rw [written, writtenHalf], by decide, by decide⟩
  | array xs => cases xs <;> exact ⟨_, _, by rw [written]; try rfl, by decide, by decide⟩
  | object ms => cases ms <;> exact ⟨_, _, by rw [written]; try rfl, by decide, by decide⟩

/-- An array that has a first item is read as its items. -/
theorem readValue_array {d : Nat} {cs : List Char} (h : ∃ c ds, cs = c :: ds ∧ isBlank c = false ∧
    c ≠ ']') :
    readValue (d + 1) ('[' :: cs) = (readItems d cs).map fun q => (.array q.1, q.2) := by
  obtain ⟨c, ds, rfl, hblank, hend⟩ := h
  rw [readValue, skipBlanks_cons (by decide)]
  simp only [skipBlanks_cons hblank]
  split
  · next h => exact absurd (List.cons.inj h).1 hend
  · cases readItems d (c :: ds) <;> rfl

/-- An object that has a first member is read as its members. -/
theorem readValue_object {d : Nat} (cs : List Char) :
    readValue (d + 1) ('\x7b' :: '"' :: cs) =
      (readMembers d ('"' :: cs)).map fun q => (.object q.1, q.2) := by
  rw [readValue, skipBlanks_cons (by decide)]
  simp only [skipBlanks_cons (show isBlank '"' = false by decide)]
  split
  · next h => exact absurd (List.cons.inj h).1 (by decide)
  · cases readMembers d ('"' :: cs) <;> rfl

/-- The last item of an array ends it. -/
theorem readItems_last {d : Nat} {x : Json} {cs rest : List Char}
    (h : readValue d cs = some (x, ']' :: rest)) : readItems (d + 1) cs = some ([x], rest) := by
  simp only [readItems, h, Option.bind_eq_bind, Option.bind_some,
    skipBlanks_cons (show isBlank ']' = false by decide)]
  rfl

/-- An item before a comma is followed by further ones. -/
theorem readItems_cons {d : Nat} {x : Json} {xs : List Json} {cs ds rest : List Char}
    (h : readValue d cs = some (x, ',' :: ds)) (htail : readItems d ds = some (xs, rest)) :
    readItems (d + 1) cs = some (x :: xs, rest) := by
  simp only [readItems, h, Option.bind_eq_bind, Option.bind_some,
    skipBlanks_cons (show isBlank ',' = false by decide), htail]
  rfl

/-- The last member of an object ends it. -/
theorem readMembers_last {d : Nat} {key : Option String} {v : Json} {cs ds rest : List Char}
    (hkey : readText cs = some (key, ':' :: ds)) (h : readValue d ds = some (v, '\x7d' :: rest)) :
    readMembers (d + 1) ('"' :: cs) = some ([(key, v)], rest) := by
  rw [readMembers, skipBlanks_cons (by decide)]
  simp only [hkey, h, Option.bind_eq_bind, Option.bind_some,
    skipBlanks_cons (show isBlank ':' = false by decide),
    skipBlanks_cons (show isBlank '\x7d' = false by decide)]
  rfl

/-- A member before a comma is followed by further ones. -/
theorem readMembers_cons {d : Nat} {key : Option String} {v : Json}
    {ms : List (Option String × Json)} {cs ds es rest : List Char}
    (hkey : readText cs = some (key, ':' :: ds)) (h : readValue d ds = some (v, ',' :: es))
    (htail : readMembers d es = some (ms, rest)) :
    readMembers (d + 1) ('"' :: cs) = some ((key, v) :: ms, rest) := by
  rw [readMembers, skipBlanks_cons (by decide)]
  simp only [hkey, h, Option.bind_eq_bind, Option.bind_some,
    skipBlanks_cons (show isBlank ':' = false by decide),
    skipBlanks_cons (show isBlank ',' = false by decide), htail]
  rfl

/-- A member is written with its key in quotes, which is read back. -/
theorem exists_writtenMember (m : Option String × Json) (rest : List Char) : ∃ cs,
    writtenMember m ++ rest = '"' :: cs ∧
      readText cs = some (m.1, ':' :: (m.2.written ++ rest)) := by
  obtain ⟨key, v⟩ := m
  cases key with
  | none =>
    exact ⟨_, by rw [writtenMember, writtenHalf]; rfl, readText_half _⟩
  | some key =>
    refine ⟨key.toList.flatMap escapedChar ++ '"' :: ':' :: (v.written ++ rest), ?_,
      readText_writtenText key _⟩
    simp [writtenMember, writtenText]

theorem length_writtenMember (m : Option String × Json) :
    m.2.written.length < (writtenMember m).length := by
  obtain ⟨key, v⟩ := m
  cases key <;> simp [writtenMember] <;> omega

mutual

/-- A value is read from its text, and what follows is left over. -/
theorem readValue_written {j : Json} (h : j.Plain) {d : Nat} (hd : j.written.length ≤ d)
    {rest : List Char} (hrest : Detached rest) :
    readValue d (j.written ++ rest) = some (j, rest) := by
  -- No value has an empty text, so the bound allows for one level at least.
  obtain ⟨d, rfl⟩ : ∃ e, d = e + 1 := by
    obtain ⟨c, cs, hc, -⟩ := written_head h
    rw [hc, List.length_cons] at hd
    exact ⟨d - 1, by omega⟩
  match j with
  | .null => rfl
  | .bool true => rfl
  | .bool false => rfl
  | .nat n => exact readValue_toDigits n d hrest
  | .text s =>
    have hread := readText_writtenText s rest
    rw [written, writtenText]
    simp only [List.cons_append, List.append_assoc, List.nil_append]
    rw [readValue, skipBlanks_cons (by decide)]
    simp [hread, ofText?]
  | .brokenText =>
    rw [written, writtenHalf]
    simp only [List.cons_append, List.nil_append]
    rw [readValue, skipBlanks_cons (by decide)]
    simp [readText_half, ofText?]
  | .array [] => rfl
  | .array (x :: xs) =>
    obtain ⟨hx, hxs⟩ := h
    rw [written] at hd ⊢
    simp only [List.cons_append, List.append_assoc, List.length_cons, List.length_append] at hd ⊢
    rw [readValue_array, readItems_written hx hxs (by omega)]
    · rfl
    · obtain ⟨c, cs, hc, hhead⟩ := written_head hx
      exact ⟨c, cs ++ _, by rw [hc, List.cons_append], hhead⟩
  | .object [] => rfl
  | .object (m :: ms) =>
    obtain ⟨hm, hms⟩ := h
    rw [written] at hd ⊢
    simp only [List.cons_append, List.append_assoc, List.length_cons, List.length_append] at hd ⊢
    have hread := readMembers_written hm hms (d := d) (by omega) rest
    obtain ⟨cs, hcs, -⟩ := exists_writtenMember m (writtenMembers ms ++ rest)
    rw [hcs] at hread ⊢
    rw [readValue_object, hread]
    rfl

/-- The items of an array are read up to its end. -/
theorem readItems_written {x : Json} {xs : List Json} (hx : x.Plain) (hxs : PlainItems xs) {d : Nat}
    (hd : x.written.length + (writtenItems xs).length ≤ d) (rest : List Char) :
    readItems d (x.written ++ (writtenItems xs ++ rest)) = some (x :: xs, rest) := by
  match xs, d with
  | [], d + 1 =>
    rw [writtenItems] at hd ⊢
    exact readItems_last (readValue_written hx (by simpa using hd)
      (detached_cons (by decide) _))
  | y :: ys, d + 1 =>
    rw [writtenItems] at hd ⊢
    simp only [List.length_cons, List.length_append, List.cons_append, List.append_assoc] at hd ⊢
    exact readItems_cons (readValue_written hx (by omega) (detached_cons (by decide) _))
      (readItems_written hxs.1 hxs.2 (by omega) rest)

/-- The members of an object are read up to its end. -/
theorem readMembers_written {m : Option String × Json} {ms : List (Option String × Json)}
    (hm : m.2.Plain) (hms : PlainMembers ms) {d : Nat}
    (hd : (writtenMember m).length + (writtenMembers ms).length ≤ d) (rest : List Char) :
    readMembers d (writtenMember m ++ (writtenMembers ms ++ rest)) = some (m :: ms, rest) := by
  obtain ⟨cs, hcs, hkey⟩ := exists_writtenMember m (writtenMembers ms ++ rest)
  have hlt := length_writtenMember m
  rw [hcs]
  -- The recursion is on the members, each of which leaves a bound that is enough for the rest.
  match ms, d with
  | [], d + 1 =>
    rw [writtenMembers] at hd hkey
    rw [List.length_singleton] at hd
    exact readMembers_last hkey (readValue_written hm (by omega) (detached_cons (by decide) _))
  | m' :: ms, d + 1 =>
    rw [writtenMembers] at hd hkey
    simp only [List.length_cons, List.length_append, List.cons_append, List.append_assoc] at hd hkey
    exact readMembers_cons hkey (readValue_written hm (by omega) (detached_cons (by decide) _))
      (readMembers_written hms.1 hms.2 (by omega) rest)

end

/-- The compact text of a value is a document of that value. -/
theorem parse_compact {j : Json} (h : j.Plain) : parse j.compact = some j := by
  have hread := readValue_written h (d := 2 * j.compact.length + 2)
    (by simp [compact]; omega) detached_nil
  rw [List.append_nil] at hread
  rw [compact] at hread ⊢
  rw [parse, String.toList_ofList, hread]
  rfl

end LeasePool.Json
