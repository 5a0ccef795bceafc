import Mathlib.Data.List.TakeWhile
import TreeLayout.Json.Record
import TreeLayout.Proofs.Json.Reader
import TreeLayout.Proofs.Text.Segments

/-!
# Reading records back

Whatever texts a record holds, its line is one JSON object on one line, and reading it gives its members in
their order.
-/

namespace TreeLayout.Json

open Toml (hexValue? prepend)

theorem hexValue?_hexDigit : ∀ n < 16, hexValue? (hexDigit n) = some n := by decide

/-- The unit that a control character is escaped as. -/
theorem unit?_hexDigit {n : Nat} (h : n < 0x20) :
    unit? ['0', '0', hexDigit (n / 16), hexDigit (n % 16)] = some n := by
  have hzero : hexValue? '0' = some 0 := by decide
  have hhigh := hexValue?_hexDigit (n / 16) (by omega)
  have hlow := hexValue?_hexDigit (n % 16) (by omega)
  simp only [unit?, List.foldlM_cons, List.foldlM_nil, hzero, hhigh, hlow, bind, Option.bind, pure]
  rw [show 16 * (16 * (16 * (16 * 0 + 0) + 0) + n / 16) + n % 16 = n by omega]

/-- A character that needs no escape stands for itself. -/
theorem readString_cons {c : Char} (hquote : c ≠ '"') (hbackslash : c ≠ '\\')
    (hcontrol : ¬ c.toNat < 0x20) (rest : List Char) :
    readString none (c :: rest) = prepend c (readString none rest) := by
  rw [readString.eq_def]
  split
  · simp_all
  · simp_all
  · simp_all
  · simp_all
  · rename_i heq
    obtain ⟨rfl, rfl⟩ := List.cons.inj heq
    rw [Option.isSome_none, Bool.false_or, if_neg (by simpa using hcontrol)]

/-- A character is read from the letter that stands for it after a backslash. -/
theorem readString_letter {letter c : Char} (h : escaped? letter = some c) (rest : List Char) :
    readString none ('\\' :: letter :: rest) = prepend c (readString none rest) := by
  have hunit : letter ≠ 'u' := by
    rintro rfl
    cases h
  rw [readString.eq_def]
  split
  case h_3 heq =>
    simp only [List.cons.injEq] at heq
    exact absurd heq.2.1 hunit
  case h_4 heq =>
    simp only [List.cons.injEq, true_and] at heq
    obtain ⟨rfl, rfl⟩ := heq
    simp [h]
  case h_5 hplain heq =>
    obtain ⟨hfirst, hrest⟩ := List.cons.inj heq
    exact absurd hrest.symm (hplain letter rest hfirst.symm)
  all_goals simp at *

/-- A character is escaped by a letter or by its number, or it stands for itself. -/
theorem escape_cases (c : Char) :
    (∃ letter, escaped? letter = some c ∧ letter ≠ '\n' ∧ escape c = ['\\', letter]) ∨
    (c.toNat < 0x20 ∧
      escape c = ['\\', 'u', '0', '0', hexDigit (c.toNat / 16), hexDigit (c.toNat % 16)]) ∨
    (c ≠ '"' ∧ c ≠ '\\' ∧ ¬ c.toNat < 0x20 ∧ escape c = [c]) := by
  by_cases hletter : c ∈ ['"', '\\', '\n', '\r', '\t', '\x08', '\x0c']
  · simp only [List.mem_cons, List.not_mem_nil, or_false] at hletter
    rcases hletter with rfl | rfl | rfl | rfl | rfl | rfl | rfl
    all_goals exact .inl ⟨_, rfl, by decide, rfl⟩
  · simp only [List.mem_cons, List.not_mem_nil, or_false, not_or] at hletter
    obtain ⟨hquote, hbackslash, hfeed, hreturn, htab, hback, hform⟩ := hletter
    unfold escape
    rw [if_neg hquote, if_neg hbackslash, if_neg hfeed, if_neg hreturn, if_neg htab, if_neg hback,
      if_neg hform]
    by_cases hcontrol : c.toNat < 0x20
    · exact .inr (.inl ⟨hcontrol, if_pos hcontrol⟩)
    · exact .inr (.inr ⟨hquote, hbackslash, hcontrol, if_neg hcontrol⟩)

/-- A control character is read from its number. -/
theorem readString_unit {c : Char} (h : c.toNat < 0x20) (rest : List Char) :
    readString none
      ('\\' :: 'u' :: '0' :: '0' :: hexDigit (c.toNat / 16) :: hexDigit (c.toNat % 16) :: rest) =
        prepend c (readString none rest) := by
  have hhigh : isHighUnit c.toNat = false := by
    rw [isHighUnit, Bool.and_eq_false_iff, decide_eq_false_iff_not]
    omega
  have hlow : isLowUnit c.toNat = false := by
    rw [isLowUnit, Bool.and_eq_false_iff, decide_eq_false_iff_not]
    omega
  rw [readString]
  simp [unit?_hexDigit h, hhigh, hlow]

/-- A character is read from its escape. -/
theorem readString_escape (c : Char) (rest : List Char) :
    readString none (escape c ++ rest) = prepend c (readString none rest) := by
  rcases escape_cases c with ⟨letter, hletter, -, hescape⟩ | ⟨hcontrol, hescape⟩ |
    ⟨hquote, hbackslash, hcontrol, hescape⟩
  · rw [hescape]
    exact readString_letter hletter rest
  · rw [hescape]
    exact readString_unit hcontrol rest
  · rw [hescape]
    exact readString_cons hquote hbackslash hcontrol rest

/-- A text is read from its escapes up to the closing quote. -/
theorem readString_flatMap_escape (text rest : List Char) :
    readString none (text.flatMap escape ++ '"' :: rest) = some (text, rest) := by
  induction text with
  | nil => rfl
  | cons c text ih =>
    rw [List.flatMap_cons, List.append_assoc, readString_escape, ih]
    rfl

/-- Whether a text goes on after a number, with what cannot belong to the number. -/
def EndsNumber (rest : List Char) : Prop :=
  ∀ c ∈ rest.head?, c.isDigit = false ∧ c ≠ '.' ∧ c ≠ 'e' ∧ c ≠ 'E'

/-- Only zero is written with a leading zero. -/
theorem head?_toDigits_ne_zero {n : Nat} (h : n ≠ 0) : (Nat.toDigits 10 n).head? ≠ some '0' := by
  induction n using Nat.strong_induction_on with
  | _ n ih =>
    by_cases hlt : n < 10
    · rw [Nat.toDigits_of_lt_base hlt]
      simpa using h
    · rw [Nat.toDigits_of_base_le (by omega) (by omega), List.head?_append_of_ne_nil _ Nat.toDigits_ne_nil]
      exact ih (n / 10) (by omega) (by omega)

/-- Digits are read up to what ends a number. -/
theorem readDigits_append {digits rest : List Char} (hdigits : ∀ c ∈ digits, c.isDigit = true)
    (hne : digits ≠ []) (hrest : EndsNumber rest) :
    readDigits (digits ++ rest) = some (digits, rest) := by
  have htail : rest.takeWhile Char.isDigit = [] ∧ rest.dropWhile Char.isDigit = rest := by
    cases rest with
    | nil => exact ⟨rfl, rfl⟩
    | cons c rest =>
      have hc := (hrest c rfl).1
      simp [hc]
  rw [readDigits, List.takeWhile_append_of_pos hdigits, List.dropWhile_append_of_pos hdigits, htail.1,
    htail.2, List.append_nil, if_neg hne]

/-- What ends a number holds neither a fraction nor an exponent. -/
theorem readFraction_of_endsNumber {rest : List Char} (h : EndsNumber rest) :
    readFraction rest = some ([], rest) := by
  rw [readFraction.eq_def]
  split
  · exact absurd rfl (h '.' rfl).2.1
  · rfl

theorem readExponent_of_endsNumber {rest : List Char} (h : EndsNumber rest) :
    readExponent rest = some (0, rest) := by
  cases rest with
  | nil => rfl
  | cons c rest =>
    obtain ⟨-, -, hlower, hupper⟩ := h c rfl
    rw [readExponent, if_neg (by simp [hlower, hupper])]

/-- A number starts with a digit. -/
theorem exists_toDigits_eq_cons (n : Nat) :
    ∃ first digits, Nat.toDigits 10 n = first :: digits ∧ first.isDigit = true := by
  obtain ⟨first, digits, htext⟩ := List.exists_cons_of_ne_nil (Nat.toDigits_ne_nil (n := n) (b := 10))
  refine ⟨first, digits, htext, ?_⟩
  apply Nat.isDigit_of_mem_toDigits (b := 10) (n := n) (by decide) (by decide)
  rw [htext]
  exact List.mem_cons_self

/-- A natural number is read from its digits. -/
theorem readNumber_toDigits (n : Nat) {rest : List Char} (hrest : EndsNumber rest) :
    readNumber (Nat.toDigits 10 n ++ rest) = some (.number n 0, rest) := by
  have hdigits : ∀ c ∈ Nat.toDigits 10 n, c.isDigit = true := fun c hc =>
    Nat.isDigit_of_mem_toDigits (by decide) (by decide) hc
  obtain ⟨first, digits, htext, hfirst⟩ := exists_toDigits_eq_cons n
  have hwhole : readWhole (Nat.toDigits 10 n ++ rest) = some (Nat.toDigits 10 n, rest) := by
    by_cases hn : n = 0
    · subst hn
      rfl
    · have hzero : first ≠ '0' := by
        intro heq
        apply head?_toDigits_ne_zero hn
        rw [htext, heq, List.head?_cons]
      rw [← readDigits_append hdigits Nat.toDigits_ne_nil hrest, htext, List.cons_append,
        readWhole.eq_def]
      split
      · rename_i heq
        exact absurd (List.cons.inj heq).1 hzero
      · rfl
  have hminus : readMinus (Nat.toDigits 10 n ++ rest) = (false, Nat.toDigits 10 n ++ rest) := by
    rw [htext, List.cons_append, readMinus.eq_def]
    split
    · rename_i heq
      rw [(List.cons.inj heq).1] at hfirst
      exact absurd hfirst (by decide)
    · rfl
  rw [readNumber, hminus]
  simp only [hwhole, readFraction_of_endsNumber hrest, readExponent_of_endsNumber hrest, bind,
    Option.bind, List.append_nil, Nat.ofDigitChars_ten_toDigits]
  rfl

/-- The value of a scalar. -/
def Scalar.value : Scalar → Value
  | .text content => .string content
  | .flag b => .boolean b
  | .count n => .number n 0

/-- The members of a record as those of an object. -/
def membersOf (record : Record) : List (String × Value) :=
  record.map fun member => (member.1, member.2.value)

theorem skipSpace_cons {c : Char} (h : (c = ' ' || c = '\t' || c = '\n' || c = '\r') = false)
    (rest : List Char) : skipSpace (c :: rest) = c :: rest :=
  List.dropWhile_cons_of_neg (by simpa using h)

/-- A quoted text is read back. -/
theorem readValue_quote (depth : Nat) (text : String) (rest : List Char) :
    readValue depth (quote text ++ rest) = some (.string text, rest) := by
  have hcontents := readString_flatMap_escape text.toList rest
  have hquote : quote text ++ rest = '"' :: (text.toList.flatMap escape ++ '"' :: rest) := by
    simp [quote]
  rw [hquote, readValue, skipSpace_cons (by decide)]
  simp [hcontents]

/-- What starts with a digit is a number. -/
theorem readValue_of_isDigit (depth : Nat) {c : Char} (h : c.isDigit = true) (rest : List Char) :
    readValue depth (c :: rest) = readNumber (c :: rest) := by
  have hne {d : Char} (hd : d.isDigit = false) : c ≠ d := by
    rintro rfl
    rw [h] at hd
    cases hd
  have hspace : (c = ' ' || c = '\t' || c = '\n' || c = '\r') = false := by
    simp [hne (d := ' ') (by decide), hne (d := '\t') (by decide), hne (d := '\n') (by decide),
      hne (d := '\r') (by decide)]
  rw [readValue, skipSpace_cons hspace]
  split
  case h_7 => rfl
  all_goals
    rename_i heq
    exact absurd (List.cons.inj heq).1 (hne (by decide))

/-- A scalar is read back. -/
theorem readValue_write (depth : Nat) (scalar : Scalar) {rest : List Char} (hrest : EndsNumber rest) :
    readValue depth (scalar.write ++ rest) = some (scalar.value, rest) := by
  cases scalar with
  | text content => exact readValue_quote depth content rest
  | flag b =>
    cases b with
    | false => rw [readValue]; rfl
    | true => rw [readValue]; rfl
  | count n =>
    obtain ⟨first, digits, htext, hfirst⟩ := exists_toDigits_eq_cons n
    have hnumber := readNumber_toDigits n hrest
    rw [htext, List.cons_append] at hnumber
    rw [Scalar.write, htext, List.cons_append, readValue_of_isDigit depth hfirst, hnumber]
    rfl

/-- A member is read back. -/
theorem readMember_write (depth : Nat) (key : String) (scalar : Scalar) {rest : List Char}
    (hrest : EndsNumber rest) :
    readMember (readValue depth) (quote key ++ ':' :: (scalar.write ++ rest)) =
      some ((key, scalar.value), rest) := by
  have hkey := readString_flatMap_escape key.toList (':' :: (scalar.write ++ rest))
  have hquote : quote key ++ ':' :: (scalar.write ++ rest) =
      '"' :: (key.toList.flatMap escape ++ '"' :: ':' :: (scalar.write ++ rest)) := by
    simp [quote]
  rw [hquote, readMember, skipSpace_cons (by decide)]
  simp only [hkey, bind, Option.bind]
  rw [skipSpace_cons (by decide)]
  simp only [readValue_write depth scalar hrest, String.ofList_toList]
  rfl

theorem endsNumber_comma (rest : List Char) : EndsNumber (',' :: rest) := by
  intro c hc
  cases hc
  decide

theorem endsNumber_brace (rest : List Char) : EndsNumber ('\x7d' :: rest) := by
  intro c hc
  cases hc
  decide

/-- The members of a record are read back. -/
theorem readMembers_writeMembers (depth : Nat) {record : Record} (hne : record ≠ []) {fuel : Nat}
    (hfuel : record.length ≤ fuel) (rest : List Char) :
    readMembers (readValue depth) fuel (writeMembers record ++ '\x7d' :: rest) =
      some (membersOf record, rest) := by
  induction record generalizing fuel with
  | nil => exact absurd rfl hne
  | cons member record ih =>
    obtain ⟨key, scalar⟩ := member
    cases fuel with
    | zero => simp at hfuel
    | succ fuel =>
      cases record with
      | nil =>
        have hmember := readMember_write depth key scalar (endsNumber_brace rest)
        have htext : writeMembers [(key, scalar)] ++ '\x7d' :: rest =
            quote key ++ ':' :: (scalar.write ++ '\x7d' :: rest) := by simp [writeMembers]
        rw [htext, readMembers, hmember]
        simp only [bind, Option.bind]
        rw [skipSpace_cons (by decide)]
        rfl
      | cons next record =>
        have hrest := ih (by simp) (Nat.le_of_succ_le_succ hfuel)
        have hmember := readMember_write depth key scalar
          (endsNumber_comma (writeMembers (next :: record) ++ '\x7d' :: rest))
        have htext : writeMembers ((key, scalar) :: next :: record) ++ '\x7d' :: rest =
            quote key ++ ':' :: (scalar.write ++
              ',' :: (writeMembers (next :: record) ++ '\x7d' :: rest)) := by simp [writeMembers]
        rw [htext, readMembers, hmember]
        simp only [bind, Option.bind]
        rw [skipSpace_cons (by decide)]
        simp only [hrest]
        rfl

/-- The line of a record without its line feed. -/
def lineOf (record : Record) : List Char := '\x7b' :: writeMembers record ++ ['\x7d']

theorem toList_writeLine (record : Record) : (writeLine record).toList = lineOf record ++ ['\n'] := by
  simp [writeLine, lineOf]

/-- The members of a record start with the quote of the first key. -/
theorem exists_writeMembers_eq_cons {record : Record} (hne : record ≠ []) :
    ∃ text, writeMembers record = '"' :: text := by
  cases record with
  | nil => exact absurd rfl hne
  | cons member record =>
    obtain ⟨key, scalar⟩ := member
    cases record <;> exact ⟨_, rfl⟩

theorem length_le_length_writeMembers (record : Record) :
    record.length ≤ (writeMembers record).length := by
  induction record with
  | nil => exact Nat.zero_le _
  | cons member record ih =>
    obtain ⟨key, scalar⟩ := member
    cases record with
    | nil => simp [writeMembers, quote]
    | cons next record =>
      simp only [writeMembers, List.length_cons, List.length_append] at ih ⊢
      omega

/-- An object with a member is read member by member. -/
theorem readValue_brace (depth : Nat) (text : List Char) :
    readValue (depth + 1) ('\x7b' :: '"' :: text) =
      (readMembers (readValue depth) (text.length + 2) ('"' :: text)).map fun (members, rest) =>
        (.object members, rest) := by
  have hspace : skipSpace ('\x7b' :: '"' :: text) = '\x7b' :: '"' :: text := skipSpace_cons (by decide) _
  have hquote : skipSpace ('"' :: text) = '"' :: text := skipSpace_cons (by decide) text
  rw [readValue, hspace]
  simp only [hquote]
  rfl

/-- The line of a record is an object with the members of the record. -/
theorem parse?_lineOf {record : Record} (hne : record ≠ []) :
    parse? (lineOf record) = some (.object (membersOf record)) := by
  obtain ⟨text, htext⟩ := exists_writeMembers_eq_cons hne
  have hlength := length_le_length_writeMembers record
  have hfuel : record.length ≤ (text ++ ['\x7d']).length + 2 := by
    rw [htext, List.length_cons] at hlength
    rw [List.length_append]
    omega
  have hmembers := readMembers_writeMembers 126 hne hfuel []
  rw [htext, List.cons_append] at hmembers
  have hvalue : readValue depthLimit (lineOf record) = some (.object (membersOf record), []) := by
    rw [depthLimit, lineOf, htext, List.cons_append, List.cons_append, readValue_brace 126, hmembers]
    rfl
  rw [parse?, hvalue]
  rfl

theorem hexDigit_ne_lineFeed : ∀ n < 16, hexDigit n ≠ '\n' := by decide

/-- No character is escaped as a line feed. -/
theorem notMem_escape (c : Char) : '\n' ∉ escape c := by
  rcases escape_cases c with ⟨letter, -, hfeed, hescape⟩ | ⟨hcontrol, hescape⟩ |
    ⟨-, -, hcontrol, hescape⟩
  · simp [hescape, hfeed.symm]
  · have hhigh := hexDigit_ne_lineFeed (c.toNat / 16) (by omega)
    have hlow := hexDigit_ne_lineFeed (c.toNat % 16) (by omega)
    simp [hescape, hhigh.symm, hlow.symm]
  · have hfeed : c ≠ '\n' := by
      rintro rfl
      exact hcontrol (by decide)
    simp [hescape, hfeed.symm]

theorem notMem_quote (text : String) : '\n' ∉ quote text := by
  have hcontents : '\n' ∉ text.toList.flatMap escape := by
    intro hmem
    obtain ⟨c, -, hc⟩ := List.mem_flatMap.mp hmem
    exact notMem_escape c hc
  simpa [quote] using hcontents

theorem notMem_write (scalar : Scalar) : '\n' ∉ scalar.write := by
  cases scalar with
  | text content => exact notMem_quote content
  | flag b => cases b <;> decide
  | count n =>
    intro hmem
    have hdigit := Nat.isDigit_of_mem_toDigits (b := 10) (by decide) (by decide) hmem
    exact absurd hdigit (by decide)

theorem notMem_writeMembers (record : Record) : '\n' ∉ writeMembers record := by
  induction record with
  | nil => exact List.not_mem_nil
  | cons member record ih =>
    obtain ⟨key, scalar⟩ := member
    have hkey := notMem_quote key
    have hscalar := notMem_write scalar
    cases record with
    | nil => simp [writeMembers, hkey, hscalar]
    | cons next record => simp [writeMembers, hkey, hscalar, ih]

/-- The line of a record holds no line feed. -/
theorem notMem_lineOf (record : Record) : '\n' ∉ lineOf record := by
  simp [lineOf, notMem_writeMembers record]

theorem toList_writeLines (records : List Record) :
    (writeLines records).toList = (records.map lineOf).flatMap (· ++ ['\n']) := by
  rw [writeLines, String.toList_join, List.flatMap_map, List.flatMap_map]
  simp only [toList_writeLine]

/-- Whether a text is made of lines that are JSON objects: each is ended by a line feed and holds none. -/
structure AreObjectLines (lines : List (List Char)) (text : String) : Prop where
  toList_eq : text.toList = lines.flatMap (· ++ ['\n'])
  notMem : ∀ line ∈ lines, '\n' ∉ line
  isObject : ∀ line ∈ lines, ∃ members, parse? line = some (.object members)

/-- The lines of a text are the pieces between its line feeds. -/
theorem AreObjectLines.split_eq {lines : List (List Char)} {text : String} (h : AreObjectLines lines text) :
    Text.split '\n' text.toList = lines ++ [[]] := by
  rw [h.toList_eq, Text.split_flatMap_append_separator h.notMem]

/-- A text has its lines in one way only. -/
theorem AreObjectLines.unique {lines lines' : List (List Char)} {text : String}
    (h : AreObjectLines lines text) (h' : AreObjectLines lines' text) : lines = lines' := by
  have hsplit := h.split_eq
  rw [h'.split_eq] at hsplit
  exact (List.append_cancel_right hsplit).symm

/-- Records that have members are as many lines. -/
theorem areObjectLines_writeLines {records : List Record} (h : ∀ record ∈ records, record ≠ []) :
    AreObjectLines (records.map lineOf) (writeLines records) where
  toList_eq := toList_writeLines records
  notMem line hline := by
    obtain ⟨record, -, rfl⟩ := List.mem_map.mp hline
    exact notMem_lineOf record
  isObject line hline := by
    obtain ⟨record, hrecord, rfl⟩ := List.mem_map.mp hline
    exact ⟨_, parse?_lineOf (h record hrecord)⟩

end TreeLayout.Json
