/-
  SandboxFetch.Proofs.Json.Text — a value that is written is read back.

  Whatever the layout puts between the tokens, as long as it is white space, the text of a value
  stands for that value and the reader stops behind it (`readValue_write`). Left out are values that
  no text stands for and numbers whose significand has no room in 64 bits (`Writable`). What follows
  a value may not prolong a number (`Stops`); a comma, a bracket, white space and the end of the text
  do not.

  The fuel of the readers is compared with the length of the text: every call that goes on does so
  behind a character that has been taken.
-/

import SandboxFetch.Json.Reading
import SandboxFetch.Json.Writing
import SandboxFetch.Proofs.Text.Numeral

namespace SandboxFetch

/-- The significand of a number has room in 64 bits. -/
def JsonNumber.HasRoom : JsonNumber → Prop
  | .whole _ n => n < Text.word64
  | .scaled _ significand _ => significand < Text.word64

namespace Json

/-! ## White space -/

def Blank (cs : List Char) : Prop := ∀ c ∈ cs, isSpace c = true

theorem skipSpace_append {blanks : List Char} (blank : Blank blanks) (cs : List Char) :
    skipSpace (blanks ++ cs) = skipSpace cs := List.dropWhile_append_of_pos blank

theorem skipSpace_cons {c : Char} (token : isSpace c = false) (cs : List Char) : skipSpace (c :: cs) = c :: cs := by
  simp [skipSpace, token]

structure Layout.IsBlank (layout : Layout) : Prop where
  lineBreak : ∀ depth, Blank (layout.lineBreak depth)
  colon : ∃ before after, layout.colon = before ++ ':' :: after ∧ Blank before ∧ Blank after

theorem isBlank_pretty : pretty.IsBlank where
  lineBreak depth := by
    intro c member
    rcases List.mem_cons.1 member with rfl | member
    · rfl
    · rw [List.eq_of_mem_replicate member]
      rfl
  colon := ⟨[], [' '], rfl, by simp [Blank], by simp [Blank, isSpace]⟩

theorem isBlank_compact : compact.IsBlank where
  lineBreak depth := by simp [Blank, compact]
  colon := ⟨[], [], rfl, by simp [Blank], by simp [Blank]⟩

/-! ## Strings -/

/-- A unit stands for a character, as itself or by the number of a control character. -/
def Denotes (u : StringUnit) (c : Char) : Prop := u = .char c ∨ u = .code c.toNat ∧ c.toNat < 0x20

theorem digitValue?_hexDigit : ∀ n < 16, Text.digitValue? 16 (Text.hexDigit n) = some n := by decide

/-- The number of a control character is read from the four digits it is written with. -/
theorem codeUnit?_control {n : Nat} (control : n < 0x20) :
    codeUnit? '0' '0' (Text.hexDigit (n / 16)) (Text.hexDigit (n % 16)) = some n := by
  have zero : Text.digitValue? 16 '0' = some 0 := by decide
  unfold codeUnit?
  rw [zero, digitValue?_hexDigit (n / 16) (by omega), digitValue?_hexDigit (n % 16) (by omega)]
  simp only [Option.bind_eq_bind, Option.bind_some, Option.pure_def, Option.some.injEq]
  omega

/-- A character that needs no escape is read as itself. -/
theorem readUnits_cons {c : Char} (quote : c ≠ '\x22') (backslash : c ≠ '\\') (control : ¬ c.toNat < 0x20)
    (rest : List Char) : readUnits (c :: rest) = (readUnits rest).map fun (units, rest) => (.char c :: units, rest) := by
  rw [readUnits.eq_def]
  split
  · next empty => cases empty
  · next same => exact absurd (List.cons.inj same).1 quote
  · next same => exact absurd (List.cons.inj same).1 backslash
  · next same => exact absurd (List.cons.inj same).1 backslash
  · next same =>
    obtain ⟨rfl, rfl⟩ := List.cons.inj same
    rw [if_neg control]

theorem readUnits_escapeChar (c : Char) (rest : List Char) : ∃ u, Denotes u c ∧
    readUnits (escapeChar c ++ rest) = (readUnits rest).map fun (units, rest) => (u :: units, rest) := by
  unfold escapeChar
  repeat
    split
    · next same =>
      subst same
      exact ⟨.char _, .inl rfl, rfl⟩
  split
  · next control =>
    refine ⟨.code c.toNat, .inr ⟨rfl, control⟩, ?_⟩
    simp only [List.cons_append, List.nil_append]
    rw [readUnits, codeUnit?_control control]
  · next control =>
    next quote backslash _ _ _ _ _ => exact ⟨.char c, .inl rfl, readUnits_cons quote backslash control rest⟩

theorem joinUnits_cons {u : StringUnit} {c : Char} (denotes : Denotes u c) (units : List StringUnit) :
    joinUnits (u :: units) = (joinUnits units).map (c :: ·) := by
  rcases denotes with rfl | ⟨rfl, control⟩
  · rfl
  · -- a control character is no half of a surrogate pair
    have high : isHighSurrogate c.toNat = false := by
      unfold isHighSurrogate
      simp only [Bool.and_eq_false_iff, decide_eq_false_iff_not]
      omega
    have low : isLowSurrogate c.toNat = false := by
      unfold isLowSurrogate
      simp only [Bool.and_eq_false_iff, decide_eq_false_iff_not]
      omega
    have same : Char.ofNat c.toNat = c := Char.ofNat_toNat c
    match units with
    | [] | .char d :: units => simp only [joinUnits, high, low, same, Bool.or_self, Bool.false_eq_true, if_false]
    | .code d :: units =>
      rw [joinUnits, high, low, same]
      rfl

/-- The characters between the quotation marks are read up to the closing one. -/
theorem readUnits_escaped (cs rest : List Char) : ∃ units,
    readUnits (cs.flatMap escapeChar ++ '\x22' :: rest) = some (units, rest) ∧ joinUnits units = some cs := by
  induction cs with
  | nil => exact ⟨[], rfl, rfl⟩
  | cons c cs ih =>
    obtain ⟨units, read, joined⟩ := ih
    obtain ⟨u, denotes, first⟩ := readUnits_escapeChar c (cs.flatMap escapeChar ++ '\x22' :: rest)
    refine ⟨u :: units, ?_, ?_⟩
    · rw [List.flatMap_cons, List.append_assoc, first, read]
      rfl
    · rw [joinUnits_cons denotes, joined]
      rfl

theorem readString_escaped (s : String) (rest : List Char) :
    readString (s.toList.flatMap escapeChar ++ '\x22' :: rest) = some (some s, rest) := by
  obtain ⟨units, read, joined⟩ := readUnits_escaped s.toList rest
  unfold readString
  rw [read]
  simp only [Option.map_some, joined, String.ofList_toList]

/-! ## Numbers -/

/-- What follows does not prolong a number. -/
def Stops (rest : List Char) : Prop :=
  ∀ c ∈ rest.head?, c.isDigit = false ∧ c ≠ '.' ∧ c ≠ 'e' ∧ c ≠ 'E'

theorem stops_nil : Stops [] := by
  intro c member
  cases member

theorem stops_append {blanks rest : List Char} (blank : Blank blanks) (stops : Stops rest) : Stops (blanks ++ rest) := by
  cases blanks with
  | nil => exact stops
  | cons b blanks =>
    intro c member
    cases member
    have space := blank b List.mem_cons_self
    simp only [isSpace, Bool.or_eq_true, beq_iff_eq] at space
    rcases space with ((rfl | rfl) | rfl) | rfl <;> decide

theorem readDigits_append {digits rest : List Char} (all : ∀ c ∈ digits, c.isDigit = true)
    (stop : ∀ c ∈ rest.head?, c.isDigit = false) : readDigits (digits ++ rest) = (digits, rest) := by
  unfold readDigits
  rw [List.takeWhile_append_of_pos all, List.dropWhile_append_of_pos all]
  cases rest with
  | nil => simp
  | cons c rest => simp [stop c rfl]

theorem le_ofDigitChars (digits : List Char) (n : Nat) : n ≤ Nat.ofDigitChars 10 digits n := by
  rw [Nat.ofDigitChars_eq_ofDigitChars_zero]
  have := Nat.le_mul_of_pos_left n (Nat.pow_pos (n := digits.length) (show 0 < 10 by decide))
  omega

/-- All digits are taken when the number that they make has room. -/
theorem takeDigits_of_lt (digits : List Char) (significand taken : Nat)
    (room : Nat.ofDigitChars 10 digits significand < Text.word64) :
    takeDigits significand taken digits = (Nat.ofDigitChars 10 digits significand, taken + digits.length, 0) := by
  induction digits generalizing significand taken with
  | nil => rfl
  | cons d digits ih =>
    have split : Nat.ofDigitChars 10 (d :: digits) significand =
        Nat.ofDigitChars 10 digits (Nat.ofDigitChars 10 [d] significand) :=
      Nat.ofDigitChars_append (l := [d]) significand
    rw [split] at room ⊢
    have first := le_ofDigitChars digits (Nat.ofDigitChars 10 [d] significand)
    unfold takeDigits
    rw [if_pos (by omega), ih _ (taken + 1) room, List.length_cons]
    congr 2
    omega

theorem readNumber_significand (negative : Bool) (n : Nat) {tail : List Char}
    (stop : ∀ c ∈ tail.head?, c.isDigit = false) :
    readNumber (writeSign negative ++ (Nat.toDigits 10 n ++ tail)) = (do
      let (fraction, rest) ← readFraction tail
      let (exponent, rest) ← readExponent rest
      return (numberOf negative (Nat.toDigits 10 n) fraction exponent, rest)) := by
  have digits := readDigits_append (fun _ => Text.isDigit_of_mem_toDigits (n := n)) stop
  have some : (Nat.toDigits 10 n).isEmpty = false := by simp [Nat.toDigits_ne_nil]
  have plain : ((Nat.toDigits 10 n).head? == Option.some '0' && (Nat.toDigits 10 n).length != 1) = false := by
    by_cases zero : n = 0
    · subst zero
      decide
    · simp [Text.head?_toDigits (Nat.pos_of_ne_zero zero)]
  unfold readNumber writeSign
  split
  next sign cs same =>
    -- a digit is no minus, so the sign is read as it was written
    have signed : sign = negative ∧ cs = Nat.toDigits 10 n ++ tail := by
      cases negative with
      | true =>
        cases same
        exact ⟨rfl, rfl⟩
      | false =>
        obtain ⟨d, ds, cut, digit⟩ := Text.exists_toDigits n
        rw [cut] at same ⊢
        simp only [Bool.false_eq_true, if_false, List.nil_append, List.cons_append] at same
        split at same
        · next first => exact absurd (List.cons.inj first).1 (Text.ne_of_isDigit digit rfl)
        · cases same
          exact ⟨rfl, rfl⟩
    obtain ⟨rfl, rfl⟩ := signed
    simp only [digits, some, plain]
    rfl

theorem readExponent_write (e : Int) {rest : List Char} (stop : ∀ c ∈ rest.head?, c.isDigit = false) :
    readExponent ('e' :: (writeSign (e < 0) ++ (Nat.toDigits 10 e.natAbs ++ rest))) = some (some e, rest) := by
  have digits := readDigits_append (fun _ => Text.isDigit_of_mem_toDigits (n := e.natAbs)) stop
  have nonempty : (Nat.toDigits 10 e.natAbs).isEmpty = false := by simp [Nat.toDigits_ne_nil]
  have value : Nat.ofDigitChars 10 (Nat.toDigits 10 e.natAbs) 0 = e.natAbs := Nat.ofDigitChars_ten_toDigits
  by_cases negative : e < 0
  · have same : -((e.natAbs : Nat) : Int) = e := by omega
    simp only [readExponent, writeSign, negative, decide_true, Bool.true_or, if_true, List.cons_append, List.nil_append,
      digits, nonempty, value, same, Bool.false_eq_true, if_false]
  · have same : ((e.natAbs : Nat) : Int) = e := by omega
    obtain ⟨d, ds, cut, digit⟩ := Text.exists_toDigits e.natAbs
    simp only [readExponent, writeSign, negative, decide_false, decide_true, Bool.true_or, Bool.false_eq_true, if_true,
      if_false, List.nil_append]
    split
    · next first =>
      rw [cut] at first
      exact absurd (List.cons.inj first).1 (Text.ne_of_isDigit digit rfl)
    · next first =>
      rw [cut] at first
      exact absurd (List.cons.inj first).1 (Text.ne_of_isDigit digit rfl)
    · simp only [digits, nonempty, value, same, Bool.false_eq_true, if_false]

/-- A number is read back from its text. -/
theorem readNumber_write {n : JsonNumber} (room : n.HasRoom) {rest : List Char} (stops : Stops rest) :
    readNumber (writeNumber n ++ rest) = some (n, rest) := by
  have value (n : Nat) : Nat.ofDigitChars 10 (Nat.toDigits 10 n) 0 = n := Nat.ofDigitChars_ten_toDigits
  have stop : ∀ c ∈ rest.head?, c.isDigit = false := fun c member => (stops c member).1
  cases n with
  | whole negative n =>
    -- what follows a whole number starts neither a fraction nor an exponent
    have fraction : readFraction rest = some (none, rest) := by
      unfold readFraction
      split
      · exact absurd rfl (stops '.' rfl).2.1
      · rfl
    have exponent : readExponent rest = some (none, rest) := by
      cases rest with
      | nil => rfl
      | cons c rest =>
        obtain ⟨-, -, lower, upper⟩ := stops c rfl
        simp [readExponent, lower, upper]
    have taken := takeDigits_of_lt (Nat.toDigits 10 n) 0 0 (by rw [value]; exact room)
    simp only [writeNumber, Text.writeNat, String.toList_ofList, List.append_assoc]
    rw [readNumber_significand negative n stop, fraction]
    simp only [Option.bind_eq_bind, Option.bind_some, exponent, Option.pure_def]
    unfold numberOf
    rw [taken, value]
    rfl
  | scaled negative significand e =>
    have taken := takeDigits_of_lt (Nat.toDigits 10 significand) 0 0 (by rw [value]; exact room)
    simp only [writeNumber, Text.writeNat, String.toList_ofList, List.append_assoc, List.cons_append]
    rw [readNumber_significand negative significand (by intro c member; cases member; rfl)]
    show (readExponent _ >>= _) = _
    rw [readExponent_write e stop]
    simp only [Option.bind_eq_bind, Option.bind_some, Option.pure_def]
    unfold numberOf
    rw [taken, value]
    simp [takeDigits]

/-! ## Values -/

inductive Writable : Json → Prop
  | null : Writable .null
  | bool (b : Bool) : Writable (.bool b)
  | number {n : JsonNumber} (room : n.HasRoom) : Writable (.number n)
  | text (s : String) : Writable (.text s)
  | array {items : List Json} (each : ∀ v ∈ items, Writable v) : Writable (.array items)
  | object {members : List (String × Json)} (each : ∀ m ∈ members, Writable m.2) : Writable (.object members)

theorem readValue_append {blanks : List Char} (blank : Blank blanks) (fuel : Nat) (cs : List Char) :
    readValue fuel (blanks ++ cs) = readValue fuel cs := by
  cases fuel with
  | zero => rfl
  | succ fuel => rw [readValue, readValue, skipSpace_append blank]

theorem readMembers_append {blanks : List Char} (blank : Blank blanks) (fuel : Nat) (cs : List Char) :
    readMembers fuel (blanks ++ cs) = readMembers fuel cs := by
  cases fuel with
  | zero => rfl
  | succ fuel => rw [readMembers, readMembers, skipSpace_append blank]

theorem readItems_append {blanks : List Char} (blank : Blank blanks) (fuel : Nat) (cs : List Char) :
    readItems fuel (blanks ++ cs) = readItems fuel cs := by
  cases fuel with
  | zero => rfl
  | succ fuel => rw [readItems, readItems, readValue_append blank]

/-- The value is read from its text, whatever follows. -/
def ReadsBack (layout : Layout) (v : Json) : Prop :=
  ∀ depth fuel rest, Stops rest → (write layout depth v).length ≤ fuel →
    readValue fuel (write layout depth v ++ rest) = some (v, rest)

variable {layout : Layout}

/-- A number begins with its sign or a digit. -/
theorem exists_writeNumber (n : JsonNumber) : ∃ c cs, writeNumber n = c :: cs ∧ (c = '-' ∨ c.isDigit = true) := by
  have front (negative : Bool) (n : Nat) (cs : List Char) :
      ∃ c rest, writeSign negative ++ (Nat.toDigits 10 n ++ cs) = c :: rest ∧ (c = '-' ∨ c.isDigit = true) := by
    cases negative with
    | true => exact ⟨'-', _, rfl, .inl rfl⟩
    | false =>
      obtain ⟨d, ds, cut, digit⟩ := Text.exists_toDigits n
      exact ⟨d, ds ++ cs, by simp [writeSign, cut], .inr digit⟩
  cases n with
  | whole negative n =>
    have := front negative n []
    simpa [writeNumber, Text.writeNat] using this
  | scaled negative significand e =>
    have := front negative significand ('e' :: (writeSign (e < 0) ++ Nat.toDigits 10 e.natAbs))
    simpa [writeNumber, Text.writeNat] using this

theorem ne_of_number {c d : Char} (first : c = '-' ∨ c.isDigit = true) (other : d ≠ '-' ∧ d.isDigit = false) : c ≠ d := by
  rcases first with rfl | digit
  · exact other.1.symm
  · exact Text.ne_of_isDigit digit other.2

theorem isSpace_of_number {c : Char} (first : c = '-' ∨ c.isDigit = true) : isSpace c = false := by
  have apart : c ≠ ' ' ∧ c ≠ '\t' ∧ c ≠ '\n' ∧ c ≠ '\r' := by
    refine ⟨?_, ?_, ?_, ?_⟩ <;> exact ne_of_number first (by decide)
  simp [isSpace, apart]

/-- Where a sign or a digit stands, a number is read. -/
theorem readValue_number {c : Char} (first : c = '-' ∨ c.isDigit = true) (fuel : Nat) (cs : List Char) :
    readValue (fuel + 1) (c :: cs) = (readNumber (c :: cs)).map fun (n, rest) => (.number n, rest) := by
  rw [readValue, skipSpace_cons (isSpace_of_number first)]
  split
  iterate 6
    · next same => exact absurd (List.cons.inj same).1 (ne_of_number first (by decide))
  · rfl

/-- A value begins with a token, which is not the end of a list. -/
theorem exists_write (layout : Layout) (depth : Nat) (v : Json) :
    ∃ c cs, write layout depth v = c :: cs ∧ isSpace c = false ∧ c ≠ ']' := by
  cases v with
  | null => exact ⟨_, _, rfl, rfl, by decide⟩
  | bool b => cases b <;> exact ⟨_, _, rfl, rfl, by decide⟩
  | number n =>
    obtain ⟨c, cs, text, first⟩ := exists_writeNumber n
    exact ⟨c, cs, by rw [write, text], isSpace_of_number first, ne_of_number first (by decide)⟩
  | text s => exact ⟨_, _, rfl, rfl, by decide⟩
  | array items => cases items <;> exact ⟨_, _, rfl, rfl, by decide⟩
  | object members => cases members <;> exact ⟨_, _, rfl, rfl, by decide⟩
  | unreadable => exact ⟨_, _, rfl, rfl, by decide⟩

/-- What follows an item or a member is a comma or the end of the list or object. -/
theorem stops_of_token {c : Char} (token : c = ',' ∨ c = ']' ∨ c = '\x7d') (rest : List Char) : Stops (c :: rest) := by
  intro d member
  cases member
  rcases token with rfl | rfl | rfl <;> decide

theorem readItems_write (blank : layout.IsBlank) {x : Json} {xs : List Json} (each : ∀ v ∈ x :: xs, ReadsBack layout v)
    (depth outer fuel : Nat) (rest : List Char)
    (enough : (write layout depth x).length + (writeItems layout depth xs).length + 1 ≤ fuel) :
    readItems fuel (write layout depth x ++ (writeItems layout depth xs ++ (layout.lineBreak outer ++ ']' :: rest))) =
      some (x :: xs, rest) := by
  induction xs generalizing x fuel with
  | nil =>
    obtain ⟨fuel, rfl⟩ : ∃ n, fuel = n + 1 := ⟨fuel - 1, by omega⟩
    have stops : Stops (layout.lineBreak outer ++ ']' :: rest) :=
      stops_append (blank.lineBreak outer) (stops_of_token (by simp) rest)
    have first := each x List.mem_cons_self depth fuel _ stops (by omega)
    rw [writeItems, List.nil_append, readItems, first]
    simp only [skipSpace_append (blank.lineBreak outer)]
    rfl
  | cons y ys ih =>
    obtain ⟨fuel, rfl⟩ : ∃ n, fuel = n + 1 := ⟨fuel - 1, by omega⟩
    simp only [writeItems, List.length_cons, List.length_append] at enough
    have others := ih (x := y) (fun v member => each v (List.mem_cons_of_mem _ member)) fuel (by omega)
    have first (tail : List Char) :=
      each x List.mem_cons_self depth fuel (',' :: tail) (stops_of_token (.inl rfl) tail) (by omega)
    simp only [writeItems, List.cons_append, List.append_assoc]
    rw [readItems, first]
    simp only [skipSpace_cons (show isSpace ',' = false from rfl), readItems_append (blank.lineBreak depth), others,
      Option.map_some]

theorem writeText_append (s : String) (rest : List Char) :
    writeText s ++ rest = '\x22' :: (s.toList.flatMap escapeChar ++ '\x22' :: rest) := by
  simp [writeText]

/-- A member is read when its value is, and what comes next decides how it goes on. -/
theorem readMembers_member (blank : layout.IsBlank) {v : Json} (back : ReadsBack layout v) (k : String)
    {depth fuel : Nat} (enough : (write layout depth v).length ≤ fuel) {tail : List Char} (stops : Stops tail) :
    (∀ rest, skipSpace tail = ',' :: rest →
      readMembers (fuel + 1) (writeText k ++ (layout.colon ++ (write layout depth v ++ tail))) =
        (readMembers fuel rest).map fun (ms, rest) => ((some k, v) :: ms, rest)) ∧
    ∀ rest, skipSpace tail = '\x7d' :: rest →
      readMembers (fuel + 1) (writeText k ++ (layout.colon ++ (write layout depth v ++ tail))) =
        some ([(some k, v)], rest) := by
  obtain ⟨before, after, colon, blankBefore, blankAfter⟩ := blank.colon
  have value := back depth fuel tail stops enough
  rw [writeText_append, readMembers, skipSpace_cons (by rfl)]
  simp only [readString_escaped]
  rw [colon, List.append_assoc, skipSpace_append blankBefore, List.cons_append, skipSpace_cons (by rfl)]
  simp only [readValue_append blankAfter, value]
  refine ⟨?_, ?_⟩
  · intro rest next
    simp only [next]
  · intro rest last
    simp only [last]

theorem readMembers_write (blank : layout.IsBlank) {k : String} {x : Json} {ms : List (String × Json)}
    (each : ∀ m ∈ (k, x) :: ms, ReadsBack layout m.2) (depth outer fuel : Nat) (rest : List Char)
    (enough : (write layout depth x).length + (writeMembers layout depth ms).length + 1 ≤ fuel) :
    readMembers fuel (writeText k ++ (layout.colon ++ (write layout depth x ++ (writeMembers layout depth ms ++
      (layout.lineBreak outer ++ '\x7d' :: rest))))) = some (((k, x) :: ms).map fun m => (some m.1, m.2), rest) := by
  induction ms generalizing k x fuel with
  | nil =>
    obtain ⟨fuel, rfl⟩ : ∃ n, fuel = n + 1 := ⟨fuel - 1, by omega⟩
    have stops : Stops (layout.lineBreak outer ++ '\x7d' :: rest) :=
      stops_append (blank.lineBreak outer) (stops_of_token (by simp) rest)
    have member := readMembers_member blank (each (k, x) List.mem_cons_self) k
      (show (write layout depth x).length ≤ fuel by omega) stops
    rw [writeMembers, List.nil_append]
    exact member.2 rest (skipSpace_append (blank.lineBreak outer) _)
  | cons m ms ih =>
    obtain ⟨j, y⟩ := m
    obtain ⟨fuel, rfl⟩ : ∃ n, fuel = n + 1 := ⟨fuel - 1, by omega⟩
    simp only [writeMembers, List.length_cons, List.length_append] at enough
    have others := ih (k := j) (x := y) (fun v member => each v (List.mem_cons_of_mem _ member)) fuel (by omega)
    have member (tail : List Char) := readMembers_member blank (each (k, x) List.mem_cons_self) k
      (show (write layout depth x).length ≤ fuel by omega) (stops_of_token (.inl rfl) tail)
    simp only [writeMembers, List.cons_append, List.append_assoc]
    rw [(member _).1 _ (skipSpace_cons (by rfl) _)]
    simp only [readMembers_append (blank.lineBreak depth), others, Option.map_some, List.map_cons]

theorem ofReadMembers_map (ms : List (String × Json)) : ofReadMembers (ms.map fun m => (some m.1, m.2)) = .object ms := by
  have read : (ms.map fun m => (some m.1, m.2)).mapM (fun m : Option String × Json => m.1.map (·, m.2)) = some ms := by
    induction ms with
    | nil => rfl
    | cons m ms ih =>
      rw [List.map_cons, List.mapM_cons, ih]
      rfl
  unfold ofReadMembers
  rw [read]

theorem readsBack_of_succ {v : Json} (back : ∀ depth fuel rest, Stops rest →
    (write layout depth v).length ≤ fuel + 1 → readValue (fuel + 1) (write layout depth v ++ rest) = some (v, rest)) :
    ReadsBack layout v := by
  intro depth fuel rest stops enough
  cases fuel with
  | zero =>
    obtain ⟨c, cs, text, -⟩ := exists_write layout depth v
    rw [text, List.length_cons] at enough
    omega
  | succ fuel => exact back depth fuel rest stops enough

theorem readsBack_array (blank : layout.IsBlank) {items : List Json} (each : ∀ v ∈ items, ReadsBack layout v) :
    ReadsBack layout (.array items) := by
  refine readsBack_of_succ fun depth fuel rest stops enough => ?_
  cases items with
  | nil => rfl
  | cons x xs =>
    simp only [write, List.length_cons, List.length_append, List.length_nil] at enough
    have inner := readItems_write blank each (depth + 1) depth fuel rest (by omega)
    obtain ⟨c, cs, text, token, apart⟩ := exists_write layout (depth + 1) x
    simp only [write, List.cons_append, List.append_assoc, List.nil_append]
    rw [readValue, skipSpace_cons (by rfl)]
    simp only [readItems_append (blank.lineBreak _), inner, Option.map_some]
    rw [skipSpace_append (blank.lineBreak _), text, List.cons_append, skipSpace_cons token]
    split
    · next same => exact absurd (List.cons.inj same).1 apart
    · rfl

theorem readsBack_object (blank : layout.IsBlank) {members : List (String × Json)}
    (each : ∀ m ∈ members, ReadsBack layout m.2) : ReadsBack layout (.object members) := by
  refine readsBack_of_succ fun depth fuel rest stops enough => ?_
  cases members with
  | nil => rfl
  | cons m ms =>
    obtain ⟨k, x⟩ := m
    simp only [write, List.length_cons, List.length_append, List.length_nil] at enough
    have inner := readMembers_write blank each (depth + 1) depth fuel rest (by omega)
    simp only [write, List.cons_append, List.append_assoc, List.nil_append]
    rw [readValue, skipSpace_cons (by rfl)]
    simp only [readMembers_append (blank.lineBreak _), inner, Option.map_some, ofReadMembers_map]
    rw [skipSpace_append (blank.lineBreak _), writeText_append, skipSpace_cons (by rfl)]
    rfl

/-- A value is read from its text, whatever follows. -/
theorem readValue_write (blank : layout.IsBlank) {v : Json} (writable : Writable v) : ReadsBack layout v := by
  induction writable with
  | null => exact readsBack_of_succ fun _ _ _ _ _ => rfl
  | bool b => cases b <;> exact readsBack_of_succ fun _ _ _ _ _ => rfl
  | @number n room =>
    refine readsBack_of_succ fun depth fuel rest stops _ => ?_
    obtain ⟨c, cs, text, first⟩ := exists_writeNumber n
    have back := readNumber_write room stops
    rw [text, List.cons_append] at back
    rw [write, text, List.cons_append, readValue_number first, back]
    rfl
  | text s =>
    refine readsBack_of_succ fun depth fuel rest _ _ => ?_
    rw [write, writeText_append, readValue, skipSpace_cons (by rfl)]
    simp only [readString_escaped]
    rfl
  | array _ each => exact readsBack_array blank each
  | object _ each => exact readsBack_object blank each

/-- The value of a text is the one that the text was written for, also when white space follows. -/
theorem ofText?_toText (blank : layout.IsBlank) {v : Json} (writable : Writable v) {after : List Char}
    (blankAfter : Blank after) : ofText? (toText layout v ++ String.ofList after) = some v := by
  have skipped : skipSpace after = [] := by
    rw [← List.append_nil after, skipSpace_append blankAfter]
    rfl
  have stops : Stops after := by
    rw [← List.append_nil after]
    exact stops_append blankAfter stops_nil
  unfold ofText? toText
  simp only [String.toList_append, String.toList_ofList]
  rw [readValue_write blank writable 0 _ after stops (by rw [List.length_append]; omega)]
  simp only [skipped]
  rfl

end Json

end SandboxFetch
