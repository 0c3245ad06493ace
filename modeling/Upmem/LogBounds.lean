import Upmem.LogReader

namespace Upmem.Log

/-- The status of `print_fct` after some calls, of which the first that fails is the last. -/
def answers (printFct : Call → DpuError) : List Call → DpuError
  | [] => .ok
  | call :: calls => if printFct call ≠ .ok then printFct call else answers printFct calls

/-- What comes of the arguments of one message: a byte read behind the buffer,
a status of `print_fct`, or the rest of the buffer. -/
inductive Printing
  | outOfBounds
  | returned (status : DpuError)
  | continues (buffer : List Byte)

/-- `parse_and_print_argument_section` with a `print_fct` that may fail. -/
def printArguments (printFct : Call → DpuError) : List (List Byte) → List Byte → Printing
  | [], buffer => .continues buffer
  | format :: formats, buffer =>
    match printArgument format buffer with
    | none => .outOfBounds
    | some (printed, buffer) =>
      if answers printFct printed.calls ≠ .ok then .returned (answers printFct printed.calls)
      else printArguments printFct formats buffer

theorem printArguments_length {printFct : Call → DpuError} {formats : List (List Byte)} {buffer rest : List Byte}
    (run : printArguments printFct formats buffer = .continues rest) : rest.length ≤ buffer.length := by
  induction formats generalizing buffer with
  | nil =>
    cases run
    exact le_rfl
  | cons format formats ih =>
    unfold printArguments at run
    split at run
    · cases run
    · rename_i printed middle step
      split at run
      · cases run
      · exact (ih run).trans (printArgument_length step)

/-- What `dpulog_read_and_display_contents_of` comes to: an access outside the
buffer or the reader, or the status that it returns. -/
inductive Display
  | outOfBounds
  | returned (status : DpuError)
  deriving DecidableEq

/-- `dpulog_read_and_display_contents_of` with its accesses to the buffer and to `reader.format`. -/
def displayContentsOf (printFct : Call → DpuError) (buffer : List Byte) : Display :=
  match _parsed : parseFormatSection buffer with
  | .success formats rest =>
    match _run : printArguments printFct formats rest with
    | .outOfBounds => .outOfBounds
    | .returned status => .returned status
    | .continues rest' => displayContentsOf printFct rest'
  | .error => .returned .logFormat
  -- once a format has begun, the byte at the end of the buffer is read before the end is noticed
  | .endOfBuffer => if ascii '%' ∈ buffer then .outOfBounds else .returned .ok
  | .overflow => .outOfBounds
termination_by buffer.length
decreasing_by exact (printArguments_length _run).trans_lt (parseFormatSection_length _parsed)

/-- The bytes that are read for a format. A letter that is not supported needs none. -/
def argumentLength (format buffer : List Byte) : Nat :=
  match format.getLast? with
  | none => 0
  | some letter =>
    if letter = ascii 's' then (cString buffer).length + 1
    else if letter = ascii 'c' then 1
    else if letter = ascii 'b' then 4
    else if letter ∈ integerLetters then if ascii 'l' ∈ format.dropLast then 8 else 4
    else if letter ∈ doubleLetters then 8
    else 0

/-- The buffer behind the argument of a format, four bytes further where none were read. -/
def afterArgument (format buffer : List Byte) : List Byte :=
  buffer.drop (if argumentLength format buffer = 0 then 4 else argumentLength format buffer)

/-- The calls of `print_fct` for a format. -/
def argumentCalls (format buffer : List Byte) : List Call :=
  ((printArgument format buffer).map fun result => result.1.calls).getD []

theorem readInt_isSome {buffer : List Byte} : (readInt buffer).isSome ↔ 4 ≤ buffer.length := by
  rcases buffer with _ | ⟨b0, _ | ⟨b1, _ | ⟨b2, _ | ⟨b3, rest⟩⟩⟩⟩ <;> simp [readInt]

theorem readLong_isSome {buffer : List Byte} : (readLong buffer).isSome ↔ 8 ≤ buffer.length := by
  rcases buffer with _ | ⟨b0, _ | ⟨b1, _ | ⟨b2, _ | ⟨b3, _ | ⟨b4, _ | ⟨b5, _ | ⟨b6, _ | ⟨b7, rest⟩⟩⟩⟩⟩⟩⟩⟩ <;>
    simp [readLong]

/-- Reading a number of bytes for an argument succeeds where they are there, and goes behind them. -/
theorem shown_spec {α : Type} {value : Option α} {count : Nat} {buffer : List Byte} (positive : 0 < count)
    (isSome : value.isSome ↔ count ≤ buffer.length) (calls : α → List Call) :
    (count ≤ buffer.length ∧ ∃ printed, (value.map fun v => shown (calls v) count buffer) =
        some (printed, buffer.drop (if count = 0 then 4 else count))) ∨
      (¬count ≤ buffer.length ∧ (value.map fun v => shown (calls v) count buffer) = none) := by
  rw [if_neg positive.ne']
  cases value with
  | none => exact .inr ⟨by simpa using isSome, rfl⟩
  | some v => exact .inl ⟨isSome.mp rfl, ⟨calls v, buffer.take count⟩, rfl⟩

/-- The argument of a format is read exactly when its bytes are there. -/
theorem printArgument_spec {format : List Byte} (nonempty : format ≠ []) (buffer : List Byte) :
    (argumentLength format buffer ≤ buffer.length ∧ ∃ printed,
        printArgument format buffer = some (printed, afterArgument format buffer)) ∨
      (¬argumentLength format buffer ≤ buffer.length ∧ printArgument format buffer = none) := by
  obtain ⟨letter, last⟩ := Option.isSome_iff_exists.mp (List.getLast?_isSome.mpr nonempty)
  have head : buffer.head?.isSome ↔ 1 ≤ buffer.length := by cases buffer <;> simp
  simp only [afterArgument, argumentLength, printArgument, last]
  by_cases string : letter = ascii 's'
  · simp only [if_pos string]
    by_cases inside : (cString buffer).length < buffer.length
    · exact .inl ⟨inside, _, by rw [if_pos inside, if_neg (Nat.succ_ne_zero _)]; rfl⟩
    · exact .inr ⟨inside, if_neg inside⟩
  simp only [if_neg string]
  by_cases char : letter = ascii 'c'
  · simp only [if_pos char]
    exact shown_spec (by decide) head _
  simp only [if_neg char]
  by_cases bits : letter = ascii 'b'
  · simp only [if_pos bits]
    exact shown_spec (by decide) readInt_isSome _
  simp only [if_neg bits]
  by_cases integer : letter ∈ integerLetters
  · simp only [if_pos integer]
    by_cases long : ascii 'l' ∈ format.dropLast
    · simp only [if_pos long]
      exact shown_spec (by decide) readLong_isSome _
    · simp only [if_neg long]
      exact shown_spec (by decide) readInt_isSome _
  simp only [if_neg integer]
  by_cases double : letter ∈ doubleLetters
  · simp only [if_pos double]
    exact shown_spec (by decide) readLong_isSome _
  · simp only [if_neg double]
    exact .inl ⟨Nat.zero_le _, _, rfl⟩

/-- The formats of a message as the reader can hold them. -/
structure Held (formats : List (List Byte)) : Prop where
  readable : ∀ format ∈ formats, Readable format
  few : formats.length ≤ MAX_FMT_ARGS

theorem Readable.append {format : List Byte} {c : Byte} (readable : Readable format) (other : c ≠ ascii '%')
    (nonzero : c ≠ 0) (short : format.length + 1 < FORMAT_SIZE) : Readable (format ++ [c]) := by
  obtain ⟨body, rfl, plain, _⟩ := readable
  refine ⟨body ++ [c], rfl, fun d member => ?_, by simpa using short⟩
  rcases List.mem_append.mp member with old | new
  · exact plain d old
  · exact List.mem_singleton.mp new ▸ ⟨other, nonzero⟩

/-- The loop over the formats ends well only where they are held and a zero follows them. -/
theorem parseFormats_success {done formats : List (List Byte)} {current : Option (List Byte)}
    {buffer rest : List Byte}
    (held : Held (done ++ current.toList)) (parsed : parseFormats done current buffer = .success formats rest) :
    Held formats ∧ formats.flatten ++ 0 :: rest = (done ++ current.toList).flatten ++ buffer := by
  induction buffer generalizing done current with
  | nil => cases parsed
  | cons c buffer ih =>
    unfold parseFormats at parsed
    by_cases zero : c = 0
    · rw [if_pos zero] at parsed
      cases parsed
      exact ⟨held, zero ▸ rfl⟩
    rw [if_neg zero] at parsed
    by_cases other : c ≠ ascii '%'
    · rw [if_pos other] at parsed
      cases current with
      | none => cases parsed
      | some format =>
        dsimp only at parsed
        by_cases long : FORMAT_SIZE ≤ format.length + 1
        · rw [if_pos long] at parsed
          cases parsed
        rw [if_neg long] at parsed
        have before : Readable format := held.readable format (by simp)
        have next : Held (done ++ (some (format ++ [c])).toList) := by
          refine ⟨fun each member => ?_, by simpa using held.few⟩
          rcases List.mem_append.mp member with old | new
          · exact held.readable each (List.mem_append_left _ old)
          · exact List.mem_singleton.mp new ▸ before.append other zero (not_le.mp long)
        obtain ⟨after, bytes⟩ := ih next parsed
        exact ⟨after, by simpa using bytes⟩
    · rw [if_neg other] at parsed
      by_cases many : MAX_FMT_ARGS ≤ (done ++ current.toList).length
      · rw [if_pos many] at parsed
        cases parsed
      rw [if_neg many] at parsed
      have percent : c = ascii '%' := not_not.mp other
      have next : Held (done ++ current.toList ++ (some [c]).toList) := by
        refine ⟨fun each member => ?_, ?_⟩
        · rcases List.mem_append.mp member with old | new
          · exact held.readable each old
          · exact List.mem_singleton.mp new ▸ ⟨[], by rw [percent], by simp, by simp [FORMAT_SIZE]⟩
        · rw [List.length_append]
          exact not_le.mp many
      obtain ⟨after, bytes⟩ := ih next parsed
      exact ⟨after, by simpa using bytes⟩

theorem parseFormats_ne_error {done : List (List Byte)} {format : List Byte} {buffer : List Byte} :
    parseFormats done (some format) buffer ≠ .error := by
  induction buffer generalizing done format with
  | nil => exact ParseFormatSection.noConfusion
  | cons c buffer ih =>
    unfold parseFormats
    split_ifs
    · exact ParseFormatSection.noConfusion
    · dsimp only
      split_ifs
      · exact ParseFormatSection.noConfusion
      · exact ih
    · exact ParseFormatSection.noConfusion
    · exact ih

theorem parseFormatSection_skipped {skipped : List Byte} (plain : ascii '%' ∉ skipped) (buffer : List Byte) :
    parseFormatSection (skipped ++ buffer) = parseFormatSection buffer := by
  have dropped : (skipped ++ buffer).dropWhile (· != ascii '%') = buffer.dropWhile (· != ascii '%') :=
    List.dropWhile_append_of_pos fun c member => by simpa using fun same : c = ascii '%' => plain (same ▸ member)
  rw [parseFormatSection, parseFormatSection, dropped]

theorem parseFormatSection_plain {buffer : List Byte} (plain : ascii '%' ∉ buffer) :
    parseFormatSection buffer = .endOfBuffer := by
  have none := parseFormatSection_skipped plain []
  rw [List.append_nil] at none
  exact none

theorem parseFormatSection_percent (rest : List Byte) :
    parseFormatSection (ascii '%' :: rest) = parseFormats [] (some [ascii '%']) rest := by
  have first : (ascii '%' :: rest).dropWhile (· != ascii '%') = ascii '%' :: rest :=
    List.dropWhile_cons_of_neg (by simp)
  rw [parseFormatSection, first]
  exact (if_neg (by decide)).trans (if_neg (by simp))

/-- A message is read as bytes without a format, the formats and a zero. -/
theorem parseFormatSection_success {formats : List (List Byte)} {buffer rest : List Byte}
    (parsed : parseFormatSection buffer = .success formats rest) :
    formats ≠ [] ∧ Held formats ∧ ∃ skipped, ascii '%' ∉ skipped ∧
      buffer = skipped ++ (formats.flatten ++ 0 :: rest) := by
  by_cases some : ascii '%' ∈ buffer
  · obtain ⟨skipped, after, rfl, plain⟩ := List.eq_append_cons_of_mem some
    rw [parseFormatSection_skipped plain, parseFormatSection_percent] at parsed
    have first : Held ([] ++ (Option.some [ascii '%']).toList) :=
      ⟨fun each member => List.mem_singleton.mp member ▸ ⟨[], rfl, by simp, by decide⟩, by decide⟩
    obtain ⟨held, bytes⟩ := parseFormats_success first parsed
    refine ⟨?_, held, skipped, plain, by rw [bytes]; simp⟩
    rintro rfl
    have same := congrArg List.head? bytes
    revert same
    simp
    decide
  · rw [parseFormatSection_plain some] at parsed
    cases parsed

theorem parseFormatSection_ne_error (buffer : List Byte) : parseFormatSection buffer ≠ .error := by
  by_cases some : ascii '%' ∈ buffer
  · obtain ⟨skipped, after, rfl, plain⟩ := List.eq_append_cons_of_mem some
    rw [parseFormatSection_skipped plain, parseFormatSection_percent]
    exact parseFormats_ne_error
  · rw [parseFormatSection_plain some]
    exact ParseFormatSection.noConfusion

/-- The bytes of the arguments of a message are there and `print_fct` goes
through, up to the rest of the buffer, or it stops with `DPU_ERR_LOG_FORMAT`. -/
inductive ArgumentsFit (printFct : Call → DpuError) : List (List Byte) → List Byte → Option (List Byte) → Prop
  | done {buffer} : ArgumentsFit printFct [] buffer (some buffer)
  | stops {format formats buffer} : argumentLength format buffer ≤ buffer.length →
      answers printFct (argumentCalls format buffer) = .logFormat →
      ArgumentsFit printFct (format :: formats) buffer none
  | shows {format formats buffer rest} : argumentLength format buffer ≤ buffer.length →
      answers printFct (argumentCalls format buffer) = .ok →
      ArgumentsFit printFct formats (afterArgument format buffer) rest →
        ArgumentsFit printFct (format :: formats) buffer rest

/-- A buffer of messages whose formats are held by the reader and end with a
zero, and whose arguments fit, with bytes without a format before, between and
behind them. -/
inductive Displayable (printFct : Call → DpuError) : List Byte → Prop
  | plain {buffer} : ascii '%' ∉ buffer → Displayable printFct buffer
  | stops {skipped formats arguments} : ascii '%' ∉ skipped → formats ≠ [] → Held formats →
      ArgumentsFit printFct formats arguments none →
      Displayable printFct (skipped ++ (formats.flatten ++ 0 :: arguments))
  | message {skipped formats arguments rest} : ascii '%' ∉ skipped → formats ≠ [] → Held formats →
      ArgumentsFit printFct formats arguments (some rest) → Displayable printFct rest →
      Displayable printFct (skipped ++ (formats.flatten ++ 0 :: arguments))

section Bounds
variable {printFct : Call → DpuError} {formats : List (List Byte)} {buffer rest : List Byte}

theorem printArguments_fit (nonempty : ∀ format ∈ formats, format ≠ []) :
    (∀ rest, printArguments printFct formats buffer = .continues rest ↔
      ArgumentsFit printFct formats buffer (some rest)) ∧
      (printArguments printFct formats buffer = .returned .logFormat ↔ ArgumentsFit printFct formats buffer none) ∧
      printArguments printFct formats buffer ≠ .returned .ok := by
  induction formats generalizing buffer with
  | nil =>
    refine ⟨fun rest => ⟨fun same => ?_, fun fit => ?_⟩, ⟨fun same => ?_, fun fit => ?_⟩, Printing.noConfusion⟩
    · cases same
      exact .done
    · cases fit
      rfl
    · cases same
    · cases fit
  | cons format formats ih =>
    obtain ⟨here, nonempty⟩ := List.forall_mem_cons.mp nonempty
    rcases printArgument_spec here buffer with ⟨inside, printed, step⟩ | ⟨outside, stuck⟩
    · have calls : argumentCalls format buffer = printed.calls := by rw [argumentCalls, step]; rfl
      rw [printArguments, step]
      dsimp only
      rw [← calls]
      by_cases ok : answers printFct (argumentCalls format buffer) = .ok
      · obtain ⟨continues, stops, never⟩ := @ih (afterArgument format buffer) nonempty
        rw [if_neg (not_not.mpr ok), stops]
        refine ⟨fun rest => (continues rest).trans ⟨.shows inside ok, ?_⟩, ⟨.shows inside ok, ?_⟩, never⟩
        · rintro (_ | _ | ⟨_, _, later⟩)
          exact later
        · rintro (_ | ⟨_, failed⟩ | ⟨_, _, later⟩)
          · cases ok.symm.trans failed
          · exact later
      · rw [if_pos ok]
        refine ⟨fun rest => iff_of_false Printing.noConfusion ?_,
          ⟨fun same => .stops inside (Printing.returned.inj same), ?_⟩, ?_⟩
        · rintro (_ | _ | ⟨_, passed, _⟩)
          exact ok passed
        · rintro (_ | ⟨_, failed⟩ | ⟨_, passed, _⟩)
          · rw [failed]
          · exact absurd passed ok
        · exact fun same => ok (Printing.returned.inj same)
    · rw [printArguments, stuck]
      refine ⟨fun rest => iff_of_false Printing.noConfusion ?_, iff_of_false Printing.noConfusion ?_,
        Printing.noConfusion⟩
      · rintro (_ | _ | ⟨inside, _⟩)
        exact outside inside
      · rintro (_ | ⟨inside, _⟩ | ⟨inside, _⟩)
        · exact outside inside
        · exact outside inside

/-- A message is displayed and the rest behind it. -/
theorem displayContentsOf_message {arguments : List Byte}
    (parsed : parseFormatSection buffer = .success formats arguments) :
    displayContentsOf printFct buffer =
      match printArguments printFct formats arguments with
      | .outOfBounds => .outOfBounds
      | .returned status => .returned status
      | .continues rest => displayContentsOf printFct rest := by
  rw [displayContentsOf]
  split
  · rename_i formats' arguments' same
    rw [parsed] at same
    cases same
    split <;> rename_i run <;> rw [run]
  all_goals
    rename_i other
    cases parsed.symm.trans other

theorem displayContentsOf_end (parsed : parseFormatSection buffer = .endOfBuffer) :
    displayContentsOf printFct buffer = if ascii '%' ∈ buffer then .outOfBounds else .returned .ok := by
  rw [displayContentsOf]
  split
  case h_3 => rfl
  all_goals
    rename_i other
    cases parsed.symm.trans other

theorem displayContentsOf_overflow (parsed : parseFormatSection buffer = .overflow) :
    displayContentsOf printFct buffer = .outOfBounds := by
  rw [displayContentsOf]
  split
  case h_4 => rfl
  all_goals
    rename_i other
    cases parsed.symm.trans other

theorem Held.ne_nil (held : Held formats) : ∀ format ∈ formats, format ≠ [] := by
  intro format member
  obtain ⟨body, rfl, _⟩ := held.readable format member
  exact List.cons_ne_nil _ _

theorem Held.parsed {skipped arguments : List Byte} (held : Held formats) (plain : ascii '%' ∉ skipped)
    (nonempty : formats ≠ []) :
    parseFormatSection (skipped ++ (formats.flatten ++ 0 :: arguments)) = .success formats arguments :=
  (parseFormatSection_skipped plain _).trans (parseFormatSection_eq arguments nonempty held.readable held.few)

theorem Displayable.inBounds (displayable : Displayable printFct buffer) :
    displayContentsOf printFct buffer = .returned .ok ∨
      displayContentsOf printFct buffer = .returned .logFormat := by
  induction displayable with
  | plain none =>
    rw [displayContentsOf_end (parseFormatSection_plain none), if_neg none]
    exact .inl rfl
  | stops plain nonempty held fit =>
    rw [displayContentsOf_message (held.parsed plain nonempty), (printArguments_fit held.ne_nil).2.1.mpr fit]
    exact .inr rfl
  | message plain nonempty held fit _ ih =>
    rw [displayContentsOf_message (held.parsed plain nonempty), ((printArguments_fit held.ne_nil).1 _).mpr fit]
    exact ih

/-- The log is read within the buffer and the reader, with one of the two
statuses, if and only if the buffer can be displayed. -/
theorem displayContentsOf_inBounds_iff (printFct : Call → DpuError) (buffer : List Byte) :
    (displayContentsOf printFct buffer = .returned .ok ∨ displayContentsOf printFct buffer = .returned .logFormat) ↔
      Displayable printFct buffer := by
  refine ⟨fun ended => ?_, Displayable.inBounds⟩
  induction size : buffer.length using Nat.strong_induction_on generalizing buffer with
  | _ n ih =>
    cases parsed : parseFormatSection buffer with
    | success formats arguments =>
      obtain ⟨nonempty, held, skipped, plain, same⟩ := parseFormatSection_success parsed
      rw [displayContentsOf_message parsed] at ended
      cases run : printArguments printFct formats arguments with
      | outOfBounds => simp [run] at ended
      | returned status =>
        simp only [run, Display.returned.injEq] at ended
        rcases ended with rfl | rfl
        · exact absurd run (printArguments_fit held.ne_nil).2.2
        · exact same ▸ .stops plain nonempty held ((printArguments_fit held.ne_nil).2.1.mp run)
      | continues rest =>
        simp only [run] at ended
        have shorter := (printArguments_length run).trans_lt (parseFormatSection_length parsed)
        exact same ▸ .message plain nonempty held (((printArguments_fit held.ne_nil).1 rest).mp run)
          (ih rest.length (size ▸ shorter) rest ended rfl)
    | error => exact absurd parsed (parseFormatSection_ne_error buffer)
    | endOfBuffer =>
      rw [displayContentsOf_end parsed] at ended
      by_cases some : ascii '%' ∈ buffer
      · simp [some] at ended
      · exact .plain some
    | overflow => simp [displayContentsOf_overflow parsed] at ended

end Bounds

/-- Behind a format that does not end, a byte is read that is not in the buffer. -/
theorem unterminated_outOfBounds : ¬∀ printFct buffer,
    displayContentsOf printFct buffer = .returned .ok ∨
    displayContentsOf printFct buffer = .returned .logFormat := by
  intro inBounds
  have parsed : parseFormatSection [ascii '%', ascii 'd'] = .endOfBuffer := rfl
  have beyond := @displayContentsOf_end (fun _ => .ok) _ parsed
  have ended := inBounds (fun _ => .ok) [ascii '%', ascii 'd']
  rw [beyond] at ended
  revert ended
  decide

end Upmem.Log
