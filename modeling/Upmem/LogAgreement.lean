import Upmem.LogReader

namespace Upmem.Log

section Tokens

/-- The format under which a literal text that has begun is stored. -/
def textFormats (text : List Byte) : List (List Byte) :=
  if text = [] then [] else [stringFormat]

/-- What a literal text prints. -/
def textPrinted (text : List Byte) : List Printed :=
  if text = [] then [] else [⟨[⟨stringFormat, .string text⟩], text ++ [0]⟩]

/-- What tokens and their arguments print when the decoder reads what the encoder
wrote: the literal texts and the conversions in their order, each with its value and with
the bytes written for it. `text` is the literal text that has begun before them. -/
def expectedOf (text : List Byte) : List Token → List Arg → List Printed
  | [], _ => textPrinted text
  | .literal c :: tokens, args => expectedOf (text ++ [c]) tokens args
  | .conversion _ _ :: _, [] => textPrinted text
  | .conversion flags letter :: tokens, arg :: args =>
    textPrinted text ++
      ⟨[⟨storedFormat flags letter, valueOf letter arg⟩], (argumentBytes letter (isLong flags) arg).getD []⟩ ::
        expectedOf [] tokens args

/-- The two sides agree on every conversion of a list of tokens. -/
def AllAgree (tokens : List Token) : Prop :=
  ∀ flags letter, .conversion flags letter ∈ tokens → Agrees flags letter

theorem allAgree_literal {c : Byte} {tokens : List Token} : AllAgree (.literal c :: tokens) ↔ AllAgree tokens := by
  simp [AllAgree]

theorem allAgree_conversion {flags : List Byte} {letter : Byte} {tokens : List Token} :
    AllAgree (.conversion flags letter :: tokens) ↔ Agrees flags letter ∧ AllAgree tokens := by
  simp only [AllAgree, List.mem_cons, Token.conversion.injEq]
  constructor
  · intro all
    exact ⟨all flags letter (Or.inl ⟨rfl, rfl⟩), fun flags' letter' member => all flags' letter' (Or.inr member)⟩
  · rintro ⟨agrees, all⟩ flags' letter' (⟨rfl, rfl⟩ | member)
    · exact agrees
    · exact all flags' letter' member

theorem argumentsOf_conversion {flags : List Byte} {letter : Byte} {tokens : List Token} {args : List Arg}
    {inText : Bool} {bytes : List Byte}
    (matching : argumentsOf inText (.conversion flags letter :: tokens) args = some bytes) :
    ∃ arg others written after, args = arg :: others ∧ argumentBytes letter (isLong flags) arg = some written ∧
      argumentsOf false tokens others = some after ∧ bytes = endOfText inText ++ written ++ after := by
  cases args with
  | nil => cases matching
  | cons arg others =>
    cases encoded : argumentBytes letter (isLong flags) arg with
    | none => simp [argumentsOf, writeArg, encoded] at matching
    | some written =>
      simp only [argumentsOf, writeArg, encoded, Option.map_some, Option.map_eq_map, Option.map_eq_some_iff]
        at matching
      obtain ⟨after, later, same⟩ := matching
      exact ⟨arg, others, written, after, rfl, encoded, later, same.symm⟩

theorem argumentsOf_literal {c : Byte} {tokens : List Token} {args : List Arg} {inText : Bool} {bytes : List Byte}
    (matching : argumentsOf inText (.literal c :: tokens) args = some bytes) :
    ∃ after, argumentsOf true tokens args = some after ∧ bytes = c :: after := by
  simp only [argumentsOf, Option.map_eq_map, Option.map_eq_some_iff] at matching
  obtain ⟨after, later, same⟩ := matching
  exact ⟨after, later, same.symm⟩

/-- A literal text is read up to its end character. -/
theorem parseAndPrint_text {text : List Byte} (clean : ∀ c ∈ text, c ≠ 0) (formats : List (List Byte))
    (buffer : List Byte) :
    parseAndPrintArgumentSection (textFormats text ++ formats) (text ++ endOfText (!text.isEmpty) ++ buffer) =
      (parseAndPrintArgumentSection formats buffer).map fun result => (textPrinted text ++ result.1, result.2) := by
  cases text with
  | nil =>
    change parseAndPrintArgumentSection formats buffer = _
    cases parseAndPrintArgumentSection formats buffer <;> rfl
  | cons c text =>
    have whole : cString (c :: text) = c :: text :=
      List.takeWhile_eq_self_iff.mpr fun d member => by simpa using clean d member
    have encoded : argumentBytes (ascii 's') (isLong []) (.string (c :: text)) = some (c :: text ++ [0]) :=
      congrArg (fun bytes => some (bytes ++ [0])) whole
    have step := printArgument_agrees encoded (Or.inl rfl) buffer
    have stored : storedFormat [] (ascii 's') = stringFormat := by decide
    have value : valueOf (ascii 's') (.string (c :: text)) = .string (c :: text) := congrArg Value.string whole
    rw [stored, value] at step
    have formatsEq : textFormats (c :: text) ++ formats = stringFormat :: formats := rfl
    have bytes : c :: text ++ endOfText (!(c :: text).isEmpty) ++ buffer = c :: text ++ [0] ++ buffer := rfl
    rw [formatsEq, bytes]
    simp only [parseAndPrintArgumentSection, step, Option.bind_eq_bind, Option.bind_some]
    cases parseAndPrintArgumentSection formats buffer <;> rfl

theorem begun_concat (text : List Byte) (c : Byte) : (!(text ++ [c]).isEmpty) = true := by
  simp

theorem textFormats_literal (text : List Byte) (c : Byte) (tokens : List Token) :
    textFormats text ++ formatsOf (!text.isEmpty) (.literal c :: tokens) =
      textFormats (text ++ [c]) ++ formatsOf (!(text ++ [c]).isEmpty) tokens := by
  cases text <;> rfl

theorem textFormats_conversion (text flags : List Byte) (letter : Byte) (tokens : List Token) :
    textFormats text ++ formatsOf (!text.isEmpty) (.conversion flags letter :: tokens) =
      textFormats text ++ storedFormat flags letter :: formatsOf (!([] : List Byte).isEmpty) tokens := rfl

/-- The characters of a token as the decoder can read them. -/
def Token.Plain : Token → Prop
  | .literal c => c ≠ 0
  | .conversion flags letter => ∀ c ∈ flags ++ [letter], c ≠ ascii '%' ∧ c ≠ 0

def Clean (tokens : List Token) : Prop :=
  ∀ token ∈ tokens, token.Plain

theorem Clean.tail {token : Token} {tokens : List Token} (clean : Clean (token :: tokens)) : Clean tokens :=
  fun other member => clean other (List.mem_cons_of_mem token member)

theorem Clean.cons {token : Token} {tokens : List Token} (plain : token.Plain) (clean : Clean tokens) :
    Clean (token :: tokens) :=
  List.forall_mem_cons.mpr ⟨plain, clean⟩

theorem Reads.clean {format : List Byte} {tokens : List Token} (reads : Reads format tokens)
    (string : ∀ c ∈ format, c ≠ 0) : Clean tokens := by
  induction reads with
  | nil => exact fun _ member => absurd member List.not_mem_nil
  | lonePercent => exact fun _ member => absurd member List.not_mem_nil
  | literal _ _ ih =>
    obtain ⟨first, others⟩ := List.forall_mem_cons.mp string
    exact (ih others).cons first
  | percent _ ih =>
    obtain ⟨first, others⟩ := List.forall_mem_cons.mp string
    exact (ih (List.forall_mem_cons.mp others).2).cons first
  | @conversion flags letter rest tokens _ noPercent _ ends _ ih =>
    have inside : ∀ c ∈ flags ++ [letter], c ≠ 0 := by
      intro c member
      exact string c (by simp only [List.mem_append, List.mem_cons] at member ⊢; tauto)
    refine Clean.cons ?_ (ih fun c member => string c (by simp [member]))
    intro c member
    refine ⟨?_, inside c member⟩
    rintro rfl
    rcases List.mem_append.mp member with flag | last
    · exact noPercent flag
    · rw [← List.mem_singleton.mp last] at ends
      exact absurd ends (by decide)

/-- Every format that is stored starts with the only `%` in it. -/
theorem formatsOf_body {tokens : List Token} (clean : Clean tokens) (inText : Bool) :
    ∀ format ∈ formatsOf inText tokens,
      ∃ body, format = ascii '%' :: body ∧ ∀ c ∈ body, c ≠ ascii '%' ∧ c ≠ 0 := by
  induction tokens generalizing inText with
  | nil => exact fun _ member => absurd member List.not_mem_nil
  | cons token tokens ih =>
    intro format member
    cases token with
    | literal c =>
      rcases List.mem_append.mp member with text | later
      · cases inText with
        | true => exact absurd text List.not_mem_nil
        | false => exact ⟨[ascii 's'], List.mem_singleton.mp text, by decide⟩
      · exact ih clean.tail true format later
    | conversion flags letter =>
      rcases List.mem_cons.mp member with rfl | later
      · refine ⟨_, rfl, fun c inside => ?_⟩
        have plain := clean _ List.mem_cons_self
        rcases List.mem_append.mp inside with flag | last
        · exact plain c (List.mem_append_left _ (List.mem_of_mem_filter flag))
        · rw [List.mem_singleton.mp last]
          split
          · decide
          · exact plain letter (List.mem_append_right _ List.mem_cons_self)
      · exact ih clean.tail false format later

theorem clean_append {text : List Byte} {c : Byte} {tokens : List Token} (plain : ∀ c ∈ text, c ≠ 0)
    (clean : Clean (.literal c :: tokens)) : ∀ d ∈ text ++ [c], d ≠ 0 := by
  intro d member
  rcases List.mem_append.mp member with inside | last
  · exact plain d inside
  · rw [List.mem_singleton.mp last]
    exact clean (.literal c) List.mem_cons_self

theorem parseAndPrint_agree {tokens : List Token} {args : List Arg} {text bytes : List Byte}
    (plain : ∀ c ∈ text, c ≠ 0) (clean : Clean tokens)
    (matching : argumentsOf (!text.isEmpty) tokens args = some bytes) (agree : AllAgree tokens) (rest : List Byte) :
    parseAndPrintArgumentSection (textFormats text ++ formatsOf (!text.isEmpty) tokens) (text ++ bytes ++ rest) =
      some (expectedOf text tokens args, rest) := by
  induction tokens generalizing args text bytes with
  | nil =>
    cases matching
    have read := parseAndPrint_text plain [] rest
    rw [show formatsOf (!text.isEmpty) [] = [] from rfl, read]
    simp [parseAndPrintArgumentSection, expectedOf]
  | cons token tokens ih =>
    cases token with
    | literal c =>
      obtain ⟨after, later, rfl⟩ := argumentsOf_literal matching
      have next :=
        ih (clean_append plain clean) clean.tail (begun_concat text c ▸ later) (allAgree_literal.mp agree)
      rw [textFormats_literal, expectedOf, ← next]
      simp
    | conversion flags letter =>
      obtain ⟨arg, others, written, after, rfl, encoded, later, rfl⟩ := argumentsOf_conversion matching
      obtain ⟨agrees, all⟩ := allAgree_conversion.mp agree
      have next := @ih _ [] _ (by simp) clean.tail later all
      have step := printArgument_agrees encoded agrees (after ++ rest)
      have bytes : text ++ (endOfText (!text.isEmpty) ++ written ++ after) ++ rest =
          text ++ endOfText (!text.isEmpty) ++ (written ++ (after ++ rest)) := by simp
      rw [textFormats_conversion, bytes, parseAndPrint_text plain]
      rw [List.nil_append, show textFormats [] = [] from rfl, List.nil_append] at next
      simp only [parseAndPrintArgumentSection, step, next, Option.bind_eq_bind, Option.bind_some,
        expectedOf, encoded]
      rfl

theorem expectedOf_length {tokens : List Token} {args : List Arg} {text bytes : List Byte}
    (matching : argumentsOf (!text.isEmpty) tokens args = some bytes) :
    (expectedOf text tokens args).length = (textFormats text ++ formatsOf (!text.isEmpty) tokens).length := by
  have texts (text : List Byte) : (textPrinted text).length = (textFormats text).length := by
    cases text <;> rfl
  induction tokens generalizing args text bytes with
  | nil => simp [expectedOf, texts, formatsOf]
  | cons token tokens ih =>
    cases token with
    | literal c =>
      obtain ⟨after, later, -⟩ := argumentsOf_literal matching
      rw [textFormats_literal, expectedOf]
      exact ih (begun_concat text c ▸ later)
    | conversion flags letter =>
      obtain ⟨arg, others, written, after, rfl, -, later, -⟩ := argumentsOf_conversion matching
      have next := @ih _ [] _ later
      rw [textFormats_conversion, expectedOf, List.length_append, List.length_append, List.length_cons,
        List.length_cons, next, texts]
      rfl

/-- When what is printed is what is expected, the two sides agree on every conversion. -/
theorem parseAndPrint_allAgree {tokens : List Token} {args : List Arg} {text bytes rest rest' : List Byte}
    (plain : ∀ c ∈ text, c ≠ 0) (clean : Clean tokens)
    (matching : argumentsOf (!text.isEmpty) tokens args = some bytes)
    (run : parseAndPrintArgumentSection (textFormats text ++ formatsOf (!text.isEmpty) tokens)
      (text ++ bytes ++ rest) = some (expectedOf text tokens args, rest')) : AllAgree tokens := by
  induction tokens generalizing args text bytes with
  | nil => exact fun _ _ member => absurd member List.not_mem_nil
  | cons token tokens ih =>
    cases token with
    | literal c =>
      obtain ⟨after, later, rfl⟩ := argumentsOf_literal matching
      rw [textFormats_literal, expectedOf] at run
      refine allAgree_literal.mpr (ih (clean_append plain clean) clean.tail (begun_concat text c ▸ later) ?_)
      rw [← run]
      simp
    | conversion flags letter =>
      obtain ⟨arg, others, written, after, rfl, encoded, later, rfl⟩ := argumentsOf_conversion matching
      have bytes : text ++ (endOfText (!text.isEmpty) ++ written ++ after) ++ rest =
          text ++ endOfText (!text.isEmpty) ++ (written ++ (after ++ rest)) := by simp
      rw [textFormats_conversion, bytes, parseAndPrint_text plain, Option.map_eq_some_iff] at run
      obtain ⟨⟨printed, last⟩, run, same⟩ := run
      rw [Prod.mk.injEq, expectedOf, List.append_cancel_left_eq] at same
      obtain ⟨rfl, rfl⟩ := same
      simp only [parseAndPrintArgumentSection, Option.bind_eq_bind, Option.bind_eq_some_iff] at run
      obtain ⟨⟨first, middle⟩, step, ⟨others', last'⟩, steps, same⟩ := run
      simp only [pure, Option.some.injEq, Prod.mk.injEq, List.cons.injEq] at same
      obtain ⟨⟨rfl, rfl⟩, rfl⟩ := same
      have agrees : Agrees flags letter := by
        by_contra differs
        exact printArgument_differs encoded differs step rfl
      rw [printArgument_agrees encoded agrees] at step
      cases step
      exact allAgree_conversion.mpr ⟨agrees, @ih _ [] _ (by simp) clean.tail later steps⟩

end Tokens

section Runs

/-- A call of `printf` that the decoder has room for: its conversions take no
width or precision from an argument, and it has an argument of the right type for each. -/
structure FormattedCall where
  call : PrintfCall
  tokens : List Token
  reads : Reads (cString call.format) tokens
  matching : (argumentsOf false tokens call.args).isSome
  few : (formatsOf false tokens).length ≤ MAX_FMT_ARGS
  short : ∀ format ∈ formatsOf false tokens, format.length < FORMAT_SIZE

namespace FormattedCall
variable (formatted : FormattedCall)

def formats : List (List Byte) :=
  formatsOf false formatted.tokens

def arguments : List Byte :=
  (argumentsOf false formatted.tokens formatted.call.args).get formatted.matching

/-- The bytes in the buffer of the standard output. -/
def output : List Byte :=
  padded (formatted.formats.flatten ++ [0] ++ formatted.arguments)

def expected : List Printed :=
  expectedOf [] formatted.tokens formatted.call.args

theorem arguments_eq : argumentsOf false formatted.tokens formatted.call.args = some formatted.arguments :=
  (Option.some_get formatted.matching).symm

theorem clean : Clean formatted.tokens :=
  formatted.reads.clean (cString_clean _)

theorem encoded :
    printfBytes formatted.call = some (formatted.formats.flatten ++ [0] ++ formatted.arguments) := by
  have formats := formatPass_eq formatted.reads false
  have arguments := argumentPass_eq formatted.reads false formatted.call.args
  rw [Bool.not_false] at formats
  rw [formatted.arguments_eq] at arguments
  rw [printfBytes, formats, arguments]
  rfl

theorem readable : ∀ format ∈ formatted.formats, Readable format := by
  intro format member
  obtain ⟨body, same, plain⟩ := formatsOf_body formatted.clean false format member
  exact ⟨body, same, plain, formatted.short format member⟩

theorem expected_length : formatted.expected.length = formatted.formats.length :=
  @expectedOf_length _ _ [] _ formatted.arguments_eq

theorem formats_eq_nil (empty : formatted.formats = []) : formatted.tokens = [] := by
  cases same : formatted.tokens with
  | nil => rfl
  | cons token tokens =>
    rw [formats, same] at empty
    cases token <;> cases empty

/-- The zeros that complete the output. -/
theorem output_append (rest : List Byte) : ∃ count, formatted.output ++ rest =
    formatted.formats.flatten ++ 0 :: (formatted.arguments ++ (List.replicate count 0 ++ rest)) := by
  refine ⟨STDOUT_CACHE_BUFFER_SIZE -
    (formatted.formats.flatten ++ [0] ++ formatted.arguments).length % STDOUT_CACHE_BUFFER_SIZE, ?_⟩
  rw [output, padded]
  simp only [List.append_assoc, List.cons_append, List.nil_append]

/-- What the decoder reads at the start of the output of a call that stores a format. -/
theorem parsed (nonempty : formatted.formats ≠ []) (rest : List Byte) :
    parseFormatSection (formatted.formats.flatten ++ 0 :: rest) = .success formatted.formats rest :=
  parseFormatSection_eq rest nonempty formatted.readable formatted.few

/-- A call whose conversions the two sides agree on is printed as expected. -/
theorem read_agree (agree : AllAgree formatted.tokens) (rest : List Byte) :
    readAndDisplayContentsOf (formatted.output ++ rest) =
      (readAndDisplayContentsOf rest).map fun shown => shown.map (formatted.expected ++ ·) := by
  obtain ⟨count, output⟩ := formatted.output_append rest
  rw [output]
  by_cases empty : formatted.formats = []
  · have tokens := formatted.formats_eq_nil empty
    have noArguments : formatted.arguments = [] := by
      have same := formatted.arguments_eq
      rw [tokens] at same
      exact (Option.some.inj same).symm
    have nothing : formatted.expected = [] := by rw [expected, tokens]; rfl
    have zeros : (0 : Byte) :: (List.replicate count 0 ++ rest) = List.replicate (count + 1) 0 ++ rest := rfl
    rw [empty, noArguments, nothing, List.flatten_nil, List.nil_append, List.nil_append, zeros,
      readAndDisplayContentsOf_skip]
    cases readAndDisplayContentsOf rest with
    | none => rfl
    | some shown => cases shown <;> rfl
  · have printed : parseAndPrintArgumentSection formatted.formats
        (formatted.arguments ++ (List.replicate count 0 ++ rest)) =
          some (formatted.expected, List.replicate count 0 ++ rest) :=
      @parseAndPrint_agree _ _ [] _ (by simp) formatted.clean formatted.arguments_eq agree _
    rw [readAndDisplayContentsOf_success (formatted.parsed empty _) printed, readAndDisplayContentsOf_skip]

/-- When what is displayed starts as expected, the two sides agree on the call. -/
theorem allAgree_of_read {rest : List Byte} {shown : List Printed}
    (read : readAndDisplayContentsOf (formatted.output ++ rest) = some (.ok (formatted.expected ++ shown))) :
    AllAgree formatted.tokens := by
  obtain ⟨count, output⟩ := formatted.output_append rest
  rw [output] at read
  by_cases empty : formatted.formats = []
  · rw [formatted.formats_eq_nil empty]
    exact fun _ _ member => absurd member List.not_mem_nil
  · have parsed := formatted.parsed empty (formatted.arguments ++ (List.replicate count 0 ++ rest))
    cases run : parseAndPrintArgumentSection formatted.formats
        (formatted.arguments ++ (List.replicate count 0 ++ rest)) with
    | none =>
      rw [readAndDisplayContentsOf_stuck parsed run] at read
      cases read
    | some result =>
      obtain ⟨printed, rest'⟩ := result
      rw [readAndDisplayContentsOf_success parsed run] at read
      obtain ⟨displayed, -, same⟩ := Option.map_eq_some_iff.mp read
      cases displayed with
      | error error => cases same
      | ok displayed =>
        have lists : printed ++ displayed = formatted.expected ++ shown := Except.ok.inj same
        have lengths : printed.length = formatted.expected.length :=
          (parseAndPrintArgumentSection_length run).2.trans formatted.expected_length.symm
        obtain ⟨rfl, -⟩ := List.append_inj lists lengths
        exact @parseAndPrint_allAgree _ _ [] _ _ _ (by simp) formatted.clean formatted.arguments_eq run

end FormattedCall

variable (stdoutBufferSize : Nat)

/-- A program that calls `printf` again and again. -/
def printAll (stdout : Stdout) (calls : List FormattedCall) : Option Stdout :=
  calls.foldlM (fun stdout formatted => printf stdoutBufferSize stdout formatted.call) stdout

theorem printAll_contents {calls : List FormattedCall} {stdout : Stdout}
    (room : stdout.wp + (calls.flatMap FormattedCall.output).length < stdoutBufferSize) :
    ∃ after, printAll stdoutBufferSize stdout calls = some after ∧
      after.contents = stdout.contents ++ calls.flatMap FormattedCall.output ∧
      after.hasWrapped = stdout.hasWrapped := by
  induction calls generalizing stdout with
  | nil => exact ⟨stdout, rfl, (List.append_nil _).symm, rfl⟩
  | cons formatted calls ih =>
    rw [List.flatMap_cons, List.length_append] at room
    have fits : stdout.wp + formatted.output.length < stdoutBufferSize := by omega
    obtain ⟨middle, step, contents, wrapped⟩ := printf_contents stdoutBufferSize formatted.encoded fits
    have wp : middle.wp = stdout.wp + formatted.output.length := by
      have lengths := congrArg List.length contents
      rwa [List.length_append, Stdout.contents_length, Stdout.contents_length] at lengths
    obtain ⟨after, run, contents', wrapped'⟩ := @ih middle (by omega)
    refine ⟨after, ?_, ?_, wrapped'.trans wrapped⟩
    · rw [printAll, List.foldlM_cons, step]
      exact run
    · rw [contents', contents, List.append_assoc]
      rfl

theorem read_outputs (calls : List FormattedCall) :
    readAndDisplayContentsOf (calls.flatMap FormattedCall.output) =
        some (.ok (calls.flatMap FormattedCall.expected)) ↔
      ∀ formatted ∈ calls, AllAgree formatted.tokens := by
  induction calls with
  | nil =>
    refine iff_of_true readAndDisplayContentsOf_nil fun _ member => absurd member List.not_mem_nil
  | cons formatted calls ih =>
    rw [List.flatMap_cons, List.flatMap_cons, List.forall_mem_cons, ← ih]
    constructor
    · intro read
      have agree := formatted.allAgree_of_read read
      refine ⟨agree, ?_⟩
      rw [formatted.read_agree agree] at read
      obtain ⟨displayed, found, same⟩ := Option.map_eq_some_iff.mp read
      rw [found]
      cases displayed with
      | error error => cases same
      | ok displayed => rw [List.append_cancel_left (Except.ok.inj same)]
    · rintro ⟨agree, read⟩
      rw [formatted.read_agree agree, read]
      rfl

/-- The host reads what a program prints as the program means it when the decoder
knows every conversion that the program uses. -/
theorem decoded_iff (stdout : Stdout) (calls : List FormattedCall) (start : stdout.wp = 0)
    (whole : stdout.hasWrapped = false) (room : (calls.flatMap FormattedCall.output).length < stdoutBufferSize) :
    (∃ after log, printAll stdoutBufferSize stdout calls = some after ∧ fetchLog after = .ok log ∧
        readAndDisplayContentsOf log = some (.ok (calls.flatMap FormattedCall.expected))) ↔
      ∀ formatted ∈ calls, ∀ flags letter, .conversion flags letter ∈ formatted.tokens → Agrees flags letter := by
  obtain ⟨after, run, contents, wrapped⟩ :=
    printAll_contents stdoutBufferSize (show stdout.wp + (calls.flatMap FormattedCall.output).length < _ by omega)
  have nothing : stdout.contents = [] := by rw [Stdout.contents, start]; rfl
  rw [nothing, List.nil_append] at contents
  have fetched : fetchLog after = .ok (calls.flatMap FormattedCall.output) := by
    rw [fetchLog, wrapped, whole, ← contents]
    rfl
  refine Iff.trans ?_ (read_outputs calls)
  constructor
  · rintro ⟨after', log, run', fetched', read⟩
    cases Option.some.inj (run.symm.trans run')
    cases Except.ok.inj (fetched.symm.trans fetched')
    exact read
  · intro read
    exact ⟨after, _, run, fetched, read⟩

/-- The standard output when the DPU is started. -/
def Stdout.empty : Stdout :=
  ⟨fun _ => 0, 0, false, fun _ => 0, 0, 0⟩

/-- `printf("%d", 7)`. -/
def decimalCall : FormattedCall where
  call := ⟨[ascii '%', ascii 'd'], [.int 7]⟩
  tokens := [.conversion [] (ascii 'd')]
  reads := @Reads.conversion [] _ _ _ (by decide) (by decide) (by decide) (by decide) .nil
  matching := by decide
  few := by decide
  short := by decide

/-- `printf("%g", 1.5)`. -/
def shortestCall : FormattedCall where
  call := ⟨[ascii '%', ascii 'g'], [.double 0x3FF8000000000000]⟩
  tokens := [.conversion [] (ascii 'g')]
  reads := @Reads.conversion [] _ _ _ (by decide) (by decide) (by decide) (by decide) .nil
  matching := by decide
  few := by decide
  short := by decide

theorem decoded_iff_decimal : ∃ after log, printAll 64 Stdout.empty [decimalCall] = some after ∧
    fetchLog after = .ok log ∧ readAndDisplayContentsOf log = some (.ok decimalCall.expected) := by
  have agree : ∀ formatted ∈ [decimalCall], ∀ flags letter,
      .conversion flags letter ∈ formatted.tokens → Agrees flags letter := by
    intro formatted member flags letter conversion
    cases List.mem_singleton.mp member
    cases List.mem_singleton.mp conversion
    exact Or.inr (Or.inr (Or.inr (by decide)))
  exact (decoded_iff 64 Stdout.empty [decimalCall] rfl rfl (by decide)).mpr agree

/-- The decoder prints the conversion itself and leaves half of the double in the log. -/
theorem shortest_differs : ∃ after log, printAll 64 Stdout.empty [shortestCall] = some after ∧
    fetchLog after = .ok log ∧
    readAndDisplayContentsOf log = some (.ok [⟨[⟨stringFormat, .string [ascii '%', ascii 'g']⟩], [0, 0, 0, 0]⟩]) ∧
    shortestCall.expected =
      [⟨[⟨[ascii '%', ascii 'g'], .double 0x3FF8000000000000⟩], [0, 0, 0, 0, 0, 0, 0xF8, 0x3F]⟩] := by
  obtain ⟨after, run, contents, wrapped⟩ :=
    printAll_contents 64
      (show Stdout.empty.wp + ([shortestCall].flatMap FormattedCall.output).length < 64 by decide)
  refine ⟨after, shortestCall.output, run, ?_, ?_, by decide⟩
  · rw [fetchLog, wrapped, show (List.range after.wp).map after.buffer = after.contents from rfl, contents]
    rfl
  · have parsed : parseFormatSection shortestCall.output =
        .success [[ascii '%', ascii 'g']] [0, 0, 0, 0, 0, 0, 0xF8, 0x3F, 0, 0, 0, 0, 0] := rfl
    have printed : parseAndPrintArgumentSection [[ascii '%', ascii 'g']]
        [0, 0, 0, 0, 0, 0, 0xF8, 0x3F, 0, 0, 0, 0, 0] =
          some ([⟨[⟨stringFormat, .string [ascii '%', ascii 'g']⟩], [0, 0, 0, 0]⟩],
            [0, 0, 0xF8, 0x3F, 0, 0, 0, 0, 0]) := by decide
    have done : readAndDisplayContentsOf [0, 0, 0xF8, 0x3F, 0, 0, 0, 0, 0] = some (.ok []) := by
      rw [readAndDisplayContentsOf]
      rfl
    rw [readAndDisplayContentsOf_success parsed printed, done]
    rfl

end Runs

end Upmem.Log
