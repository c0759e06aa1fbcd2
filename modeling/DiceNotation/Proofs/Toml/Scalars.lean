import DiceNotation.Proofs.Numeral
import DiceNotation.Proofs.Toml.Contract
import DiceNotation.Toml.Scalar

/-! # Reading strings, numbers, dates and times

Only a decimal integer can be too long, and it is a run of digits in the text then
(`reads_number?`).  Every integer that is read and is not positive can be written
(`Reportable`): it was written with few enough digits, and a base in front makes no number
negative. -/

namespace DiceNotation.Toml

open Reader
open DiceNotation.Numeral (maxDigits)

variable {text rest : List Char}

/-! ## Strings -/

/-- A character written in hexadecimal digits is read from the front of the text. -/
private theorem reads_hexCharacter (width : Nat) : Reads text
    (hexCharacter width) fun _ => True := by
  unfold hexCharacter
  apply Reads.get_bind
  apply Reads.set_bind (List.drop_suffix _ _)
  split
  · exact .fail
  · dsimp only
    split
    · exact .pure trivial
    · exact .fail

/-- An escape is read from the front of the text. -/
private theorem reads_escape (multiline : Bool) : Reads text (escape multiline) fun _ => True := by
  unfold escape
  apply Reads.get_bind
  cases text with
  | nil => exact .fail
  | cons c rest =>
    apply Reads.set_bind (List.suffix_cons c rest)
    split
    -- The letters that stand for one character.
    iterate 7 exact .pure trivial
    · exact (reads_hexCharacter 4).bind fun _ _ _ => .pure trivial
    · exact (reads_hexCharacter 8).bind fun _ _ _ => .pure trivial
    · -- A line that ends in a backslash is joined with the next one, which may only take layout
      -- away.
      have joined (rest : List Char) : Reads rest (do
          skipWhile isSpaceOrNewline
          return []) fun _ : List Char => True :=
        (reads_skipWhile _).bind fun _ _ _ => .pure trivial
      split
      · split
        · apply reads_spaces.bind
          intro _ rest' _
          apply (reads_accept "\n").bind
          intro ended rest'' _
          apply Reads.peek_bind
          split
          · exact .fail_bind
          · exact joined _
        · exact joined _
      · exact .fail

/-- The rest of a basic string is read, however many steps it may take. -/
private theorem reads_basicWithin (multiline : Bool) (steps : Nat) :
    Reads text (basicWithin multiline steps) fun _ => True := by
  induction steps generalizing text with
  | zero => exact .fail
  | succ steps ih =>
    apply (reads_accept _).bind
    intro closed rest _
    -- The quote ends the string, a backslash begins an escape, and any other character stands for
    -- itself.
    split
    · exact .pure trivial
    · apply Reads.get_bind
      cases rest with
      | nil => exact .fail
      | cons c rest =>
        apply Reads.set_bind (List.suffix_cons c rest)
        split
        · apply (reads_escape multiline).bind
          intro first rest' _
          exact ih.bind fun _ _ _ => .pure trivial
        · split
          · exact .fail
          · exact ih.bind fun _ _ _ => .pure trivial

/-- The rest of a basic string is read from the front of the text. -/
theorem reads_basic (multiline : Bool) : Reads text (basic multiline) fun _ => True :=
  .remaining_bind ((reads_basicWithin _ _).bind fun _ _ _ => .pure trivial)

/-- The rest of a literal string is read, however many steps it may take. -/
private theorem reads_literalWithin (multiline : Bool) (steps : Nat) :
    Reads text (literalWithin multiline steps) fun _ => True := by
  -- Every turn either ends the string or takes one character.
  induction steps generalizing text with
  | zero => exact .fail
  | succ steps ih =>
    apply (reads_accept _).bind
    intro closed rest _
    split
    · exact .pure trivial
    · apply Reads.get_bind
      cases rest with
      | nil => exact .fail
      | cons c rest =>
        apply Reads.set_bind (List.suffix_cons c rest)
        split
        · exact .fail
        · exact ih.bind fun _ _ _ => .pure trivial

/-- The rest of a literal string is read from the front of the text. -/
theorem reads_literal (multiline : Bool) : Reads text (literal multiline) fun _ => True :=
  .remaining_bind ((reads_literalWithin _ _).bind fun _ _ _ => .pure trivial)

/-- A multiline string is read from the front of the text if its body is. -/
private theorem reads_multilineString (quote : String) {body : Reader String}
    (h : ∀ rest, Reads rest body fun _ => True) :
    Reads text (multilineString quote body) fun _ => True := by
  apply (reads_accept "\n").bind
  intro _ rest _
  apply (h rest).bind
  intro _ rest _
  -- Up to two quotes in front of the closing ones belong to the string.
  apply (reads_accept quote).bind
  intro one rest _
  split
  · apply (reads_accept quote).bind
    intro two rest _
    split
    · exact .pure trivial
    · exact .pure trivial
  · exact .pure trivial

/-- A string of any of the four forms is read from the front of the text. -/
theorem reads_string? : Reads text string? fun _ => True := by
  -- The quotes in front say which kind of string it is.
  apply (reads_accept "\"\"\"").bind
  intro _ rest _
  split
  · exact (reads_multilineString _ fun _ => reads_basic true).bind fun _ _ _ => .pure trivial
  apply (reads_accept "\"").bind
  intro _ rest _
  split
  · exact (reads_basic false).bind fun _ _ _ => .pure trivial
  apply (reads_accept "'''").bind
  intro _ rest _
  split
  · exact (reads_multilineString _ fun _ => reads_literal true).bind fun _ _ _ => .pure trivial
  apply (reads_accept "'").bind
  intro _ rest _
  split
  · exact (reads_literal false).bind fun _ _ _ => .pure trivial
  · exact .pure trivial

/-! ## Numbers -/

/-- The run consists of these digits and underscores. -/
structure IsRun (isDigit : Char → Bool) (digits run : List Char) : Prop where
  plain : ∀ c ∈ run, isDigit c ∨ c = '_'
  filter_eq : run.filter isDigit = digits

/-- An integer that is not positive can be written, as it is in the message that refuses it. -/
def Reportable (n : Number) : Prop := ∀ k, n = .int k → k < 1 → (Number.int k).isWritable = true

/-- All numbers in a value are reportable. -/
inductive Value.IsReportable : Value → Prop where
  | string {s : String} : IsReportable (.string s)
  | number {n : Number} (h : Reportable n) : IsReportable (.number n)
  | boolean {b : Bool} : IsReportable (.boolean b)
  | date {d : Date} : IsReportable (.date d)
  | time {t : Time} : IsReportable (.time t)
  | dateTime {d : Date} {t : Time} {offset : Option Int} : IsReportable (.dateTime d t offset)
  | array {items : List Value} (h : ∀ item ∈ items, item.IsReportable) :
      IsReportable (.array items)
  | table {entries : Entries} (h : ∀ entry ∈ entries, entry.2.IsReportable) :
      IsReportable (.table entries)

namespace IsRun

variable {isDigit : Char → Bool} {digits run : List Char} {c : Char}

/-- The empty run has no digits. -/
theorem nil : IsRun isDigit [] [] := ⟨nofun, rfl⟩

/-- A digit can be put in front of a run. -/
private theorem digit (isDigit_c : isDigit c = true) (h : IsRun isDigit digits run) :
    IsRun isDigit (c :: digits) (c :: run) := by
  refine ⟨?_, ?_⟩
  · rintro d hd
    rcases List.mem_cons.mp hd with rfl | later
    · exact .inl isDigit_c
    · exact h.plain d later
  · rw [List.filter_cons_of_pos isDigit_c, h.filter_eq]

/-- An underscore can be put in front of a run. -/
private theorem underscore (plain : isDigit '_' = false) (h : IsRun isDigit digits run) :
    IsRun isDigit digits ('_' :: run) := by
  refine ⟨?_, ?_⟩
  · rintro d hd
    rcases List.mem_cons.mp hd with rfl | later
    · exact .inr rfl
    · exact h.plain d later
  · rw [List.filter_cons_of_neg (by simp [plain]), h.filter_eq]

/-- Only digits are kept of a run. -/
private theorem isDigit_of_mem (h : IsRun isDigit digits run) (hc : c ∈ digits) :
    isDigit c = true := by
  rw [← h.filter_eq] at hc
  exact (List.mem_filter.mp hc).2

/-- A run with too many decimal digits in it. -/
private theorem hasLongInteger (h : IsRun Char.isDigit digits run) (inside : run <:+: text)
    (long : maxDigits < digits.length) : HasLongInteger text := by
  refine ⟨run, inside, h.plain, ?_⟩
  rw [List.countP_eq_length_filter, h.filter_eq]
  exact long

end IsRun

/-- The digits behind the first one are read off a run. -/
private theorem exists_isRun_moreDigits {isDigit : Char → Bool} (plain : isDigit '_' = false)
    (text : List Char) : ∃ run, text = run ++ (moreDigits isDigit text).2 ∧
      IsRun isDigit (moreDigits isDigit text).1 run := by
  fun_induction moreDigits isDigit text with
  | case1 => exact ⟨[], rfl, .nil⟩
  | case2 c digit => exact ⟨[c], rfl, .digit digit .nil⟩
  | case3 c other => exact ⟨[], rfl, .nil⟩
  | case4 c d rest digit found ih =>
    obtain ⟨run, same, isRun⟩ := ih
    exact ⟨c :: run, congrArg (c :: ·) same, .digit digit isRun⟩
  -- An underscore is taken only together with the digit behind it.
  | case5 c d rest other separated found ih =>
    obtain ⟨rfl, digit⟩ := separated
    obtain ⟨run, same, isRun⟩ := ih
    exact ⟨'_' :: d :: run, congrArg ('_' :: d :: ·) same, .underscore plain (.digit digit isRun)⟩
  | case6 => exact ⟨[], rfl, .nil⟩

/-- A run of digits is read to its end. -/
theorem moreDigits_of_isDigit {isDigit : Char → Bool} {digits : List Char}
    (h : ∀ c ∈ digits, isDigit c) : moreDigits isDigit digits = (digits, []) := by
  induction digits with
  | nil => rfl
  | cons c rest ih =>
    have others := ih fun d hd => h d (List.mem_cons_of_mem _ hd)
    have first : isDigit c = true := h c List.mem_cons_self
    cases rest with
    | nil => simp [moreDigits, first]
    | cons d rest => simp [moreDigits, first, others]

/-- Digits are read off a run at the front of the text. -/
private theorem exists_isRun_digits? {isDigit : Char → Bool} (plain : isDigit '_' = false)
    {digits : List Char} (h : digits? isDigit text = some (digits, rest)) :
    ∃ run, text = run ++ rest ∧ IsRun isDigit digits run := by
  unfold digits? at h
  split at h
  · cases h
  · next c behind =>
    split at h
    · next digit =>
      cases h
      obtain ⟨run, same, isRun⟩ := exists_isRun_moreDigits plain behind
      exact ⟨c :: run, congrArg (c :: ·) same, .digit digit isRun⟩
    · cases h

/-- Digits are read from the front of the text. -/
private theorem suffix_of_digits? {isDigit : Char → Bool} (plain : isDigit '_' = false)
    {digits : List Char} (h : digits? isDigit text = some (digits, rest)) : rest <:+ text := by
  obtain ⟨run, rfl, -⟩ := exists_isRun_digits? plain h
  exact List.suffix_append run rest

/-- An integer with a base is read from the front of the text. -/
private theorem suffix_of_based? {n : Nat} (h : based? text = some (n, rest)) : rest <:+ text := by
  -- The three bases differ in their letter and in their digits only.
  have behind {isDigit : Char → Bool} {base : Nat} {b : Char} {digits : List Char}
      (plain : isDigit '_' = false)
      (h : (digits? isDigit digits).map (fun found => (ofDigits base found.1, found.2)) =
        some (n, rest)) : rest <:+ '0' :: b :: digits := by
    obtain ⟨found, found_eq, same⟩ := Option.map_eq_some_iff.mp h
    cases same
    have shorter := suffix_of_digits? plain found_eq
    exact (shorter.trans (List.suffix_cons b digits)).trans (List.suffix_cons '0' _)
  unfold based? at h
  split at h
  · exact behind (by decide) h
  · exact behind (by decide) h
  · exact behind (by decide) h
  · cases h

/-- A sign is read from the front of the text. -/
private theorem suffix_of_sign {negative : Bool} (h : sign text = (negative, rest)) :
    rest <:+ text := by
  unfold sign at h
  split at h
  · cases h
    exact List.suffix_cons _ _
  · cases h
    exact List.suffix_cons _ _
  · cases h
    exact List.suffix_refl _

/-- The whole part of a number is read off a run of decimal digits. -/
private theorem exists_isRun_whole? {whole : List Char} (h : whole? text = some (whole, rest)) :
    ∃ run, text = run ++ rest ∧ IsRun Char.isDigit whole run := by
  unfold whole? at h
  split at h
  · cases h
    exact ⟨['0'], rfl, .digit rfl .nil⟩
  · exact exists_isRun_digits? rfl h

/-- A fraction is read from the front of the text. -/
private theorem suffix_of_fraction {digits : Option (List Char)}
    (h : fraction text = (digits, rest)) : rest <:+ text := by
  unfold fraction at h
  split at h
  · next behind =>
    split at h
    · next found =>
      cases h
      exact (suffix_of_digits? rfl found).trans (List.suffix_cons _ _)
    · cases h
      exact List.suffix_refl _
  · cases h
    exact List.suffix_refl _

/-- An exponent is read from the front of the text. -/
private theorem suffix_of_exponent {digits : Option (Bool × List Char)}
    (h : exponent text = (digits, rest)) : rest <:+ text := by
  unfold exponent at h
  -- Only a letter with digits behind it is taken; otherwise nothing is.
  split at h
  · next c behind =>
    split at h
    · cases signed : sign behind with
      | mk negative unsigned =>
        simp only [signed] at h
        split at h
        · next found =>
          cases h
          -- The digits stand behind the sign, and the sign behind the letter.
          have shorter := (suffix_of_digits? rfl found).trans (suffix_of_sign signed)
          exact shorter.trans (List.suffix_cons c behind)
        · cases h
          exact List.suffix_refl _
    · cases h
      exact List.suffix_refl _
  · cases h
    exact List.suffix_refl _

/-- The integer part of a numeral is a run in the text. -/
private theorem exists_isRun_numeral? {n : Numeral} (h : numeral? text = some (n, rest)) :
    rest <:+ text ∧ ∃ run, run <:+: text ∧ IsRun Char.isDigit n.whole run := by
  unfold numeral? at h
  cases signed : sign text with
  | mk negative unsigned =>
    simp only [signed] at h
    obtain ⟨⟨whole, behind⟩, found, same⟩ := Option.map_eq_some_iff.mp h
    obtain ⟨run, rfl, isRun⟩ := exists_isRun_whole? found
    cases fractional : fraction behind with
    | mk digits behind' =>
      cases powered : exponent behind' with
      | mk power behind'' =>
        simp only [fractional, powered] at same
        cases same
        have front := suffix_of_sign signed
        have shorter := (suffix_of_exponent powered).trans (suffix_of_fraction fractional)
        -- The run is inside the text, behind the sign and in front of the fraction.
        refine ⟨(shorter.trans (List.suffix_append run behind)).trans front, run, ?_, isRun⟩
        exact (List.prefix_append run behind).isInfix.trans front.isInfix

/-- Decimal digits have the value that they have in an expression. -/
private theorem ofDigits_eq {digits : List Char} (h : ∀ c ∈ digits, c.isDigit) :
    ofDigits 10 digits = Numeral.ofDigits (digits.map Numeral.digitValue) := by
  unfold ofDigits Numeral.ofDigits
  rw [List.foldl_map]
  refine List.foldl_ext _ _ _ fun n c hc => ?_
  unfold hexDigit?
  rw [if_pos (h c hc)]
  rfl

/-- A number with few digits can be written. -/
private theorem ofDigits_lt_writableBound {digits : List Char} (h : ∀ c ∈ digits, c.isDigit)
    (few : digits.length ≤ maxDigits) : ofDigits 10 digits < Number.writableBound := by
  have below : ∀ d ∈ digits.map Numeral.digitValue, d < 10 := by
    intro d hd
    obtain ⟨c, hc, rfl⟩ := List.mem_map.mp hd
    have := (Numeral.isDigit_iff c).mp (h c hc)
    unfold Numeral.digitValue
    omega
  have bound : Number.writableBound = 10 ^ maxDigits := by decide +kernel
  rw [ofDigits_eq h, bound]
  refine (Numeral.ofDigits_lt below).trans_le (Nat.pow_le_pow_right (by decide) ?_)
  rw [List.length_map]
  exact few

/-- A number that is read from decimal digits is reportable. -/
private theorem reportable_toNumber {n : Numeral} {a : Number} (digits : ∀ c ∈ n.whole, c.isDigit)
    (h : n.toNumber = .ok a) : Reportable a := by
  unfold Numeral.toNumber at h
  split at h
  · cases h
    rintro k ⟨⟩
  · split at h
    · cases h
    · next few =>
      -- A numeral that was converted has few enough digits to be written again.
      have small := ofDigits_lt_writableBound digits (Nat.le_of_not_lt few)
      rintro k rfl -
      simp only [Except.ok.injEq, Number.int.injEq] at h
      unfold Number.isWritable
      rw [decide_eq_true_eq]
      split at h <;> omega

/-- If a numeral cannot be read, it is an integer that is too long. -/
private theorem hasLongInteger_of_toNumber {n : Numeral} {e : ReadError}
    (h : numeral? text = some (n, rest)) (failed : n.toNumber = .error e) :
    e = .tooManyDigits ∧ HasLongInteger text := by
  obtain ⟨-, run, inside, isRun⟩ := exists_isRun_numeral? h
  unfold Numeral.toNumber at failed
  split at failed
  · cases failed
  · split at failed
    · next long =>
      cases failed
      exact ⟨rfl, isRun.hasLongInteger inside long⟩
    · cases failed

/-- An integer with a base is taken as it is. -/
private theorem number?_of_based? {n : Nat} (h : based? text = some (n, rest)) :
    number? text = .ok (some (.int n), rest) := by
  show Except.bind (attempt based? text) _ = _
  rw [attempt_eq, h]
  rfl

/-- Nothing is read where neither an integer with a base nor a numeral stands. -/
private theorem number?_of_none (plain : based? text = none) (none : numeral? text = none) :
    number? text = .ok (.none, text) := by
  show Except.bind (attempt based? text) _ = _
  rw [attempt_eq, plain]
  show Except.bind (attempt numeral? text) _ = _
  rw [attempt_eq, none]
  rfl

/-- A numeral at the front of the text is read. -/
theorem number?_of_numeral? {n : Numeral} (plain : based? text = none)
    (h : numeral? text = some (n, rest)) :
    number? text = n.toNumber.map fun a => (some a, rest) := by
  show Except.bind (attempt based? text) _ = _
  rw [attempt_eq, plain]
  show Except.bind (attempt numeral? text) _ = _
  rw [attempt_eq, h]
  show (do return some (← n.toNumber) : Reader (Option Number)) rest = _
  cases n.toNumber <;> rfl

/-- The number that is read is reportable; if it has too many digits they stand in the text. -/
theorem reads_number? : Reads text number? fun found => ∀ a ∈ found, Reportable a := by
  -- What is too long stands before what is left, so the text is looked at as a whole.
  constructor
  cases based : based? text with
  | some found =>
    obtain ⟨n, rest⟩ := found
    rw [number?_of_based? based]
    refine ⟨suffix_of_based? based, ?_⟩
    rintro _ ⟨⟩ k ⟨⟩ small
    obtain rfl : n = 0 := by omega
    decide +kernel
  | none =>
    cases numeral : numeral? text with
    | none =>
      rw [number?_of_none based numeral]
      exact ⟨List.suffix_refl _, nofun⟩
    | some found =>
      obtain ⟨n, rest⟩ := found
      obtain ⟨behind, run, -, isRun⟩ := exists_isRun_numeral? numeral
      rw [number?_of_numeral? based numeral]
      cases number : n.toNumber with
      | ok a =>
        refine ⟨behind, ?_⟩
        rintro _ ⟨⟩
        exact reportable_toNumber (fun c hc => isRun.isDigit_of_mem hc) number
      -- The only way to fail is an integer with too many digits.
      | error e =>
        obtain ⟨rfl, long⟩ := hasLongInteger_of_toNumber numeral number
        exact long

/-- An infinity or what is not a number is reportable. -/
theorem reads_special? : Reads text special? fun found => ∀ a ∈ found, Reportable a := by
  -- Only integers can be too long to be reported.
  have real (x : Float) : ∀ a ∈ some (Number.real x), Reportable a := by
    rintro _ ⟨⟩ k ⟨⟩
  apply (reads_acceptAny _).bind
  intro _ rest _
  split
  · exact .pure (real _)
  apply (reads_accept _).bind
  intro _ rest _
  split
  · exact .pure (real _)
  apply (reads_acceptAny _).bind
  intro _ rest _
  split
  · exact .pure (real _)
  · exact .pure nofun

/-! ## Dates and times -/

/-- Two digits are read from the front of the text. -/
private theorem suffix_of_twoDigits? {least most n : Nat}
    (h : twoDigits? least most text = some (n, rest)) : rest <:+ text := by
  unfold twoDigits? at h
  split at h
  · dsimp only at h
    split at h
    · cases h
      exact (List.suffix_cons _ _).trans (List.suffix_cons _ _)
    · cases h
  · cases h

/-- A mark is read from the front of the text. -/
private theorem suffix_of_after? {c : Char} (h : after? c text = some rest) : rest <:+ text := by
  unfold after? at h
  split at h
  · split at h
    · cases h
      exact List.suffix_cons _ _
    · cases h
  · cases h

/-- The parts of a second are read from the front of the text. -/
private theorem suffix_of_microseconds {n : Nat} (h : microseconds text = (n, rest)) :
    rest <:+ text := by
  unfold microseconds at h
  split at h
  · dsimp only at h
    split at h
    · cases h
      exact List.suffix_refl _
    · cases h
      exact (List.dropWhile_suffix _).trans (List.suffix_cons _ _)
  · cases h
    exact List.suffix_refl _

/-- A time is read from the front of the text. -/
private theorem suffix_of_time? {time : Time} (h : time? text = some (time, rest)) :
    rest <:+ text := by
  unfold time? at h
  simp only [Option.bind_eq_bind, Option.bind_eq_some_iff, Prod.exists] at h
  obtain ⟨hour, rest₁, hour_eq, rest₂, colon, minute, rest₃, minute_eq, rest₄, colon', second,
    rest₅, second_eq, last⟩ := h
  cases micros : microseconds rest₅ with
  | mk n rest₆ =>
    simp only [micros] at last
    cases last
    -- Each part is taken off the front of what the one before has left.
    calc rest
      _ <:+ rest₅ := suffix_of_microseconds micros
      _ <:+ rest₄ := suffix_of_twoDigits? second_eq
      _ <:+ rest₃ := suffix_of_after? colon'
      _ <:+ rest₂ := suffix_of_twoDigits? minute_eq
      _ <:+ rest₁ := suffix_of_after? colon
      _ <:+ text := suffix_of_twoDigits? hour_eq

/-- A date is read from the front of the text. -/
private theorem suffix_of_date? {date : Date} (h : date? text = some (date, rest)) :
    rest <:+ text := by
  unfold date? at h
  simp only [Option.bind_eq_bind, Option.bind_eq_some_iff, Prod.exists] at h
  obtain ⟨century, rest₁, century_eq, year, rest₂, year_eq, rest₃, dash, month, rest₄, month_eq,
    rest₅, dash', day, rest₆, day_eq, last⟩ := h
  cases last
  -- The year is read as two pairs of digits.
  calc rest
    _ <:+ rest₅ := suffix_of_twoDigits? day_eq
    _ <:+ rest₄ := suffix_of_after? dash'
    _ <:+ rest₃ := suffix_of_twoDigits? month_eq
    _ <:+ rest₂ := suffix_of_after? dash
    _ <:+ rest₁ := suffix_of_twoDigits? year_eq
    _ <:+ text := suffix_of_twoDigits? century_eq

/-- An offset is read from the front of the text. -/
private theorem suffix_of_offset {minutes : Option Int} (h : offset text = (minutes, rest)) :
    rest <:+ text := by
  unfold offset at h
  -- There is no offset, a single letter, or a sign with hours and minutes.
  split at h
  · cases h
    exact List.suffix_refl _
  · next c behind =>
    split at h
    · cases h
      exact List.suffix_cons _ _
    · split at h
      · dsimp only at h
        split at h
        · next found =>
          cases h
          simp only [Option.bind_eq_bind, Option.bind_eq_some_iff, Prod.exists] at found
          obtain ⟨hour, rest₁, hour_eq, rest₂, colon, minute, rest₃, minute_eq, last⟩ := found
          cases last
          calc rest
            _ <:+ rest₂ := suffix_of_twoDigits? minute_eq
            _ <:+ rest₁ := suffix_of_after? colon
            _ <:+ behind := suffix_of_twoDigits? hour_eq
            _ <:+ c :: behind := List.suffix_cons c behind
        · cases h
          exact List.suffix_refl _
      · cases h
        exact List.suffix_refl _

/-- The time and offset behind a date are read from the front of the text. -/
private theorem suffix_of_dateTail? {tail : Time × Option Int}
    (h : dateTail? text = some (tail, rest)) : rest <:+ text := by
  unfold dateTail? at h
  split at h
  · cases h
  · next c behind =>
    split at h
    · obtain ⟨⟨time, rest₁⟩, found, same⟩ := Option.map_eq_some_iff.mp h
      cases ahead : offset rest₁ with
      | mk minutes rest₂ =>
        simp only [ahead] at same
        cases same
        -- The time stands behind the separator and in front of the offset.
        have shorter := (suffix_of_offset ahead).trans (suffix_of_time? found)
        exact shorter.trans (List.suffix_cons c behind)
    · cases h

/-- A date or time is reportable. -/
theorem reads_dateTime? : Reads text dateTime? fun found => ∀ v ∈ found, v.IsReportable := by
  apply (reads_attempt fun _ _ => suffix_of_date?).bind
  intro found rest _
  cases found with
  | none =>
    apply (reads_attempt fun _ _ => suffix_of_time?).bind
    intro found rest' _
    refine .pure ?_
    intro v hv
    -- Without a date there may still be a time of its own.
    obtain ⟨t, -, rfl⟩ := Option.map_eq_some_iff.mp hv
    exact .time
  | some date =>
    apply (reads_attempt fun _ _ => suffix_of_dateTail?).bind
    intro found rest' _
    -- Whether the date exists is tested at the end, with a time behind it or without.
    have valid {v : Value} (h : v.IsReportable) : Reads rest' (do
        if !date.isValid then fail
        return some v) fun found => ∀ v ∈ found, v.IsReportable := by
      split
      · exact .fail_bind
      · refine .pure ?_
        rintro _ ⟨⟩
        exact h
    cases found with
    | none => exact valid .date
    | some tail => exact valid .dateTime

end DiceNotation.Toml
