import DiceNotation.CommandLine.Report
import DiceNotation.Proofs.Toml.Documents

/-! # Which configurations are answered

A configuration is answered if there are positive limits or if it is said what is wrong with it.
All that a file holds is answered but bytes that are no text, and documents in which an integer is
too long to be read.  The command line takes over what is said, with the status 2; where nothing is
said it breaks down.

* `Answered`              a result, or what is wrong with the configuration
* `Config.load_cases`     an answer, unless the file is unreadable -/

namespace DiceNotation

open Toml (HasLongInteger)

/-- There is a result as `post` says, or it is said what is wrong with the configuration. -/
inductive Answered {α : Type} (post : α → Prop) : Except ConfigFault α → Prop where
  | ok {a : α} (h : post a) : Answered post (.ok a)
  | invalid (e : ConfigError) : Answered post (.error (.invalid e))

/-- A limit that is set is at least one. -/
structure Limits.Positive (limits : Limits) : Prop where
  rolls : ∀ n ∈ limits.maxRolls, 1 ≤ n
  sides : ∀ n ∈ limits.maxSides, 1 ≤ n
  iterations : 1 ≤ limits.maxIterations

/-- What is read from the file comes to no end that could be reported. -/
inductive FileContent.Unreadable : FileContent → ConfigFault → Prop where
  /-- The bytes are no text. -/
  | undecodable {content : ByteArray} (h : String.fromUTF8? content = none) :
      Unreadable (.bytes content) .undecodable
  /-- An integer is too long. -/
  | tooManyDigits {content : ByteArray} {text : String} (decoded : Config.decode content = .ok text)
      (h : Toml.parse text = .error .tooManyDigits) : Unreadable (.bytes content) .tooManyDigits

/-- If the setting is an integer that is not positive, it can be written. -/
def Setting.IsReportable (setting : Setting) : Prop :=
  ∀ n, setting = .whole n → n < 1 → (Number.int n).isWritable = true

section

variable {α β : Type} {post : α → Prop} {post' : β → Prop} {result : Except ConfigFault α}

/-- A step that is answered can be followed by one that is answered on what the first one gives. -/
theorem Answered.bind {next : α → Except ConfigFault β} (h : Answered post result)
    (hnext : ∀ a, post a → Answered post' (next a)) : Answered post' (result >>= next) := by
  cases h with
  | ok holds => exact hnext _ holds
  | invalid e => exact .invalid e

/-- What is answered is answered when a function is applied to it. -/
private theorem Answered.map {f : α → β} (h : Answered post result)
    (implied : ∀ a, post a → post' (f a)) : Answered post' (result.map f) := by
  cases h with
  | ok holds => exact .ok (implied _ holds)
  | invalid e => exact .invalid e

end

/-! ## Settings -/

namespace Limits

variable {name : String} {setting rolls sides iterations : Setting} {settings : OrderedMap Setting}

/-- The check for a positive integer gives a positive number or says what is wrong. -/
private theorem answered_positive (h : setting.IsReportable) :
    Answered (1 ≤ ·) (positive name setting) := by
  cases setting with
  | whole n =>
    unfold positive
    dsimp only
    by_cases above : 1 ≤ n
    · rw [if_pos above]
      exact .ok (by omega)
    · rw [if_neg above, if_pos (h n rfl (by omega))]
      exact .invalid _
  | unset => exact .invalid _
  | other => exact .invalid _

/-- An optional positive integer is a positive number, or none, or it is said what is wrong. -/
private theorem answered_positive? (h : setting.IsReportable) :
    Answered (fun limit => ∀ n ∈ limit, 1 ≤ n) (positive? name setting) := by
  have given : Answered (fun limit : Option Nat => ∀ n ∈ limit, 1 ≤ n)
      ((positive name setting).map some) := by
    apply (answered_positive h).map
    rintro n above _ ⟨⟩
    exact above
  cases setting with
  | unset => exact .ok nofun
  | whole n => exact given
  | other => exact given

/-- Limits that are made of three settings are positive, or it is said what is wrong. -/
private theorem answered_make (hrolls : rolls.IsReportable) (hsides : sides.IsReportable)
    (hiterations : iterations.IsReportable) : Answered Positive (make rolls sides iterations) := by
  apply (answered_positive? hrolls).bind
  intro rolls' aboveRolls
  apply (answered_positive? hsides).bind
  intro sides' aboveSides
  apply (answered_positive hiterations).bind
  intro iterations' aboveIterations
  exact .ok ⟨aboveRolls, aboveSides, aboveIterations⟩

/-- Limits that are made of named settings are positive, or it is said what is wrong. -/
private theorem answered_ofSettings
    (h : ∀ key setting, settings.get? key = some setting → setting.IsReportable) :
    Answered Positive (ofSettings settings) := by
  -- A setting comes from the table or is the fallback, and both can be reported.
  have default {key : String} {default : Setting} (fallback : default.IsReportable) :
      ((settings.get? key).getD default).IsReportable := by
    cases found : settings.get? key with
    | none => exact fallback
    | some setting => exact h key setting found
  have unset : Setting.IsReportable .unset := nofun
  have thousand : Setting.IsReportable (.whole 1000) := by
    rintro _ ⟨⟩ small
    exact absurd small (by decide)
  unfold ofSettings
  dsimp only
  -- An unknown key is refused before any value is looked at.
  split
  · exact .invalid _
  · exact answered_make (default unset) (default unset) (default thousand)

end Limits

/-! ## Files -/

namespace Config

variable {document table : Toml.Entries}

/-- A table inside a reportable one is reportable, or it is said that there is none. -/
private theorem answered_subtable {name : String} {found : Option Toml.Value}
    (h : ∀ value ∈ found, value.IsReportable) :
    Answered Toml.Entries.AreReportable (subtable name found) := by
  cases found with
  | none => exact .ok .nil
  | some value =>
    cases h value rfl with
    | table entries => exact .ok entries
    | _ => exact .invalid _

/-- The table of a reportable document is reportable, or it is said that there is none. -/
private theorem answered_findTable (h : document.AreReportable) :
    Answered Toml.Entries.AreReportable (findTable document) := by
  have below {table : Toml.Entries} (h : table.AreReportable) (key : String) :
      ∀ value ∈ table.lookup key, value.IsReportable := fun value found => h.lookup found
  unfold findTable
  split
  · next value found => exact answered_subtable (found ▸ below h "dicelang")
  · apply (answered_subtable (below h "tool")).bind
    intro tool reportable
    exact answered_subtable (below reportable "dicelang")

/-- The limits in a reportable table are positive, or it is said what is wrong. -/
private theorem answered_limits (h : table.AreReportable) : Answered Limits.Positive
    (limits table) := by
  apply Limits.answered_ofSettings
  intro key setting found
  obtain ⟨⟨name, value⟩, inside, same⟩ := List.mem_map.mp (OrderedMap.mem_of_get?_ofList found)
  cases same
  -- Only a number of the file becomes a whole setting, and the reader has vouched for it.
  rintro n whole small
  unfold Config.setting at whole
  split at whole
  · next number =>
    cases whole
    have reportable := h _ inside
    rw [number] at reportable
    cases reportable with
    | number reportable => exact reportable n rfl small
  · cases whole

/-- The table of settings is found, or it is said what is wrong, unless the file is unreadable. -/
private theorem readTable_cases (path : String) (file : FileContent) :
    Answered Toml.Entries.AreReportable (readTable path file) ∨
      ∃ fault, file.Unreadable fault ∧ readTable path file = .error fault := by
  unfold readTable
  cases file with
  | missing => exact .inl (.invalid _)
  | bytes content =>
    dsimp only
    cases decoded : decode content with
    | error fault =>
      -- Decoding fails on nothing but bytes that are no text.
      have none : String.fromUTF8? content = none ∧ fault = .undecodable := by
        unfold decode at decoded
        split at decoded
        · cases decoded
        · next none =>
          cases decoded
          exact ⟨none, rfl⟩
      obtain ⟨none, rfl⟩ := none
      exact .inr ⟨_, .undecodable none, rfl⟩
    | ok text =>
      -- From here on whatever is wrong is reported by name, apart from an integer too long to read.
      simp only [bind, Except.bind]
      cases parsed : Toml.parse text with
      | ok document => exact .inl (answered_findTable (Toml.parse_reportable parsed))
      | error e =>
        cases e with
        | malformed => exact .inl (.invalid _)
        | tooManyDigits => exact .inr ⟨_, .tooManyDigits decoded parsed, rfl⟩

/-- Limits are made, or it is said what is wrong, unless the file is unreadable. -/
theorem load_cases (path : String) (file : FileContent) :
    Answered Limits.Positive (load path file) ∨
      ∃ fault, file.Unreadable fault ∧ load path file = .error fault := by
  unfold load
  rcases readTable_cases path file with answered | ⟨fault, unreadable, failed⟩
  · exact .inl (answered.bind fun _ => answered_limits)
  · rw [failed]
    exact .inr ⟨fault, unreadable, rfl⟩

/-- What is read from an unreadable file is no more than why it is unreadable. -/
private theorem load_of_unreadable {path : String} {file : FileContent} {fault : ConfigFault}
    (h : file.Unreadable fault) : load path file = .error fault := by
  unfold load readTable
  -- The file fails either when it is decoded or when the text is parsed.
  cases h with
  | undecodable none =>
    dsimp only
    unfold decode
    rw [none]
    rfl
  | tooManyDigits decoded long =>
    dsimp only
    rw [decoded]
    simp only [bind, Except.bind]
    rw [long]
    rfl

end Config

/-! ## The command line -/

namespace CommandLine.Request

variable {request : Request} {path : String} {file : FileContent} {e : ConfigFault}

/-- What is wrong with the configuration is wrong with the request. -/
private theorem limits_of_load (given : request.options.config = some path)
    (failed : Config.load path file = .error e) : ∃ log, request.limits file = (.error e, log) := by
  unfold Config.load at failed
  unfold limits
  rw [given]
  dsimp only
  -- The failure is that of the table or that of the limits in it.
  cases found : Config.readTable path file with
  | error fault =>
    rw [found] at failed
    cases failed
    exact ⟨_, rfl⟩
  | ok table =>
    rw [found] at failed
    have failed : Config.limits table = .error e := failed
    dsimp only
    rw [failed]
    exact ⟨_, rfl⟩

/-- An invalid configuration ends the program with status 2 and the message on the error stream. -/
private theorem perform_of_invalid {wrong : ConfigError}
    (given : request.options.config = some path)
    (failed : Config.load path file = .error (.invalid wrong)) (source : Source) :
    ∃ log, request.perform file source = .ok (request.report 2 [] log [wrong.message]) := by
  obtain ⟨log, limits⟩ := limits_of_load given failed
  refine ⟨log, ?_⟩
  unfold perform
  rw [limits]
  rfl

/-- A file that cannot be read as a configuration ends the program with a fault. -/
private theorem perform_of_unreadable (given : request.options.config = some path)
    (unreadable : file.Unreadable e) (source : Source) :
    request.perform file source = .error (.config e) := by
  obtain ⟨log, limits⟩ := limits_of_load given (Config.load_of_unreadable unreadable)
  unfold perform
  rw [limits]
  cases unreadable <;> rfl

end CommandLine.Request

/-- A configuration file gives positive limits, or it is said what is wrong with it and the command
line ends with the status 2; this is so exactly unless the file is unreadable, as it is only if its
bytes are no text or it holds an integer that is too long.  Then the command line breaks down. -/
theorem configuration_answered_iff (path : String) (file : FileContent) :
    (Answered Limits.Positive (Config.load path file) ↔ ∀ fault, ¬ file.Unreadable fault) ∧
    (∀ fault, file.Unreadable fault → Config.load path file = .error fault ∧
      ∃ content, file = .bytes content ∧ (fault = .undecodable ∧ String.fromUTF8? content = none ∨
        fault = .tooManyDigits ∧ ∃ text, Config.decode content = .ok text ∧
          HasLongInteger text.toList)) ∧
    ∀ (request : CommandLine.Request) (source : Source), request.options.config = some path →
      (∀ wrong, Config.load path file = .error (.invalid wrong) → ∃ log,
        request.perform file source = .ok (request.report 2 [] log [wrong.message])) ∧
      ∀ fault, file.Unreadable fault → request.perform file source = .error (.config fault) := by
  refine ⟨?_, ?_, ?_⟩
  · -- A load either answers or fails with the one fault of an unreadable file; the two exclude each
    -- other, as an answer is never a fault of that kind.
    rcases Config.load_cases path file with answered | ⟨fault, unreadable, failed⟩
    · refine iff_of_true answered fun fault unreadable => ?_
      rw [Config.load_of_unreadable unreadable] at answered
      cases answered
      cases unreadable
    · refine iff_of_false ?_ fun never => never fault unreadable
      rw [failed]
      intro answered
      cases answered
      cases unreadable
  · -- Both faults are traced back to the bytes of the file.
    intro fault unreadable
    refine ⟨Config.load_of_unreadable unreadable, ?_⟩
    cases unreadable with
    | undecodable none => exact ⟨_, rfl, .inl ⟨rfl, none⟩⟩
    | tooManyDigits decoded long =>
      exact ⟨_, rfl, .inr ⟨rfl, _, decoded, Toml.hasLongInteger_of_parse long⟩⟩
  · intro request source given
    exact ⟨fun wrong failed => CommandLine.Request.perform_of_invalid given failed source,
      fun fault unreadable => CommandLine.Request.perform_of_unreadable given unreadable source⟩

/-! ## Files that are not answered -/

namespace Toml

open DiceNotation.Numeral (maxDigits)

variable {n : Nat}

/-- A run of ones is read as one numeral, with nothing left over. -/
private theorem numeral?_ones (n : Nat) : numeral? ('1' :: List.replicate n '1') =
    some (⟨false, '1' :: List.replicate n '1', none, none⟩, []) := by
  have digits : ∀ c ∈ List.replicate n '1', Char.isDigit c := by
    intro c hc
    rw [List.eq_of_mem_replicate hc]
    rfl
  -- The whole part takes all digits, so neither a fraction nor an exponent is left.
  have whole : whole? ('1' :: List.replicate n '1') = some ('1' :: List.replicate n '1', []) := by
    have read : whole? ('1' :: List.replicate n '1') =
        some ('1' :: (moreDigits Char.isDigit (List.replicate n '1')).1,
          (moreDigits Char.isDigit (List.replicate n '1')).2) := rfl
    rw [read, moreDigits_of_isDigit digits]
  have parts : numeral? ('1' :: List.replicate n '1') =
      (whole? ('1' :: List.replicate n '1')).map fun found =>
        (⟨false, found.1, (fraction found.2).1, (exponent (fraction found.2).2).1⟩,
          (exponent (fraction found.2).2).2) := rfl
  rw [parts, whole]
  rfl

/-- A run of ones that is too long is no number. -/
private theorem number?_ones (long : maxDigits < n + 1) :
    number? ('1' :: List.replicate n '1') = .error .tooManyDigits := by
  have lengthy : maxDigits < ('1' :: List.replicate n '1').length := by
    rw [List.length_cons, List.length_replicate]
    exact long
  rw [number?_of_numeral? rfl (numeral?_ones n)]
  unfold Numeral.toNumber
  simp only [Option.isSome_none, Bool.or_false, Bool.false_eq_true, if_false]
  rw [if_pos lengthy]
  rfl

/-- A key with so many ones is not read. -/
private theorem parse_ones (long : maxDigits < n + 5) :
    parse (String.ofList ('a' :: '=' :: List.replicate (n + 5) '1')) = .error .tooManyDigits := by
  have failed : number? (List.replicate (n + 5) '1') = .error .tooManyDigits := number?_ones long
  -- A value begins with a digit, so it is read as a number whatever reads the values inside.
  have unread (inner : Reader Value) :
      value inner (List.replicate (n + 5) '1') = .error .tooManyDigits := by
    show Except.bind (number? (List.replicate (n + 5) '1')) (fun found => _) = _
    rw [failed]
    rfl
  rw [parse_eq, String.toList_ofList]
  -- Behind the key and the sign the document waits for this value.
  show Except.map _ (Except.bind (Except.bind (Except.bind
    (value (valueWithin _) (List.replicate (n + 5) '1')) fun found => _) fun found => _)
      fun found => _) = _
  rw [unread]
  rfl

end Toml

/-- A text without carriage returns keeps its line ends. -/
private theorem Config.unifyLineEnds_of_notMem {text : List Char} (none : '\r' ∉ text) :
    Config.unifyLineEnds text = text := by
  fun_induction Config.unifyLineEnds text with
  | case1 rest ih => exact absurd List.mem_cons_self none
  | case2 rest _ ih => exact absurd List.mem_cons_self none
  | case3 c rest _ _ ih => rw [ih fun inside => none (List.mem_cons_of_mem _ inside)]
  | case4 => rfl

/-- A text without carriage returns is read as it was written. -/
private theorem Config.decode_toUTF8 {text : String} (none : '\r' ∉ text.toList) :
    Config.decode text.toUTF8 = .ok text := by
  have read : String.fromUTF8? text.toUTF8 = some text := dif_pos text.isValidUTF8
  unfold Config.decode
  rw [read]
  dsimp only
  rw [Config.unifyLineEnds_of_notMem none, String.ofList_toList]

/-- A single byte that begins no character is answered by nothing, and neither is an integer of 4301
    digits. -/
theorem configuration_not_answered :
    ¬ Answered Limits.Positive (Config.load "limits.toml" (.bytes ⟨#[0xff]⟩)) ∧
    ¬ Answered Limits.Positive (Config.load "limits.toml"
      (.bytes (String.ofList ('a' :: '=' :: List.replicate 4301 '1')).toUTF8)) := by
  -- The byte `ff` is no text in UTF-8.
  have undecodable : Config.load "limits.toml" (.bytes ⟨#[0xff]⟩) = .error .undecodable := by
    decide +kernel
  have same : Config.decode (String.ofList ('a' :: '=' :: List.replicate 4301 '1')).toUTF8 =
      .ok (String.ofList ('a' :: '=' :: List.replicate 4301 '1')) := by
    refine Config.decode_toUTF8 ?_
    rw [String.toList_ofList]
    rintro (_ | ⟨_, _ | ⟨_, ones⟩⟩)
    exact absurd (List.eq_of_mem_replicate ones) (by decide)
  -- The digits are one more than can be read.
  have tooLong : Config.load "limits.toml"
      (.bytes (String.ofList ('a' :: '=' :: List.replicate 4301 '1')).toUTF8) =
      .error .tooManyDigits :=
    Config.load_of_unreadable (.tooManyDigits same (Toml.parse_ones (by decide)))
  rw [undecodable, tooLong]
  exact ⟨nofun, nofun⟩

end DiceNotation
