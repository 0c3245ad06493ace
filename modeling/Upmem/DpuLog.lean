import Upmem.Rank
import Upmem.Printf

namespace Upmem.Log

attribute [local instance] lawfulBEq_byte

def MAX_FMT_ARGS : Nat := 64

/-- The size of `format_t`. -/
def FORMAT_SIZE : Nat := 16

/-- `parse_format_section_ret_t`, with what the reader holds after a success.
More formats, or a longer one, than the reader has room for overflow it. -/
inductive ParseFormatSection
  | success (formats : List (List Byte)) (rest : List Byte)
  | error
  | endOfBuffer
  | overflow

/-- The loop of `parse_format_section`: the formats that are complete and the
one that is being read. -/
def parseFormats (done : List (List Byte)) (current : Option (List Byte)) : List Byte → ParseFormatSection
  | [] => .endOfBuffer
  | c :: rest =>
    if c = 0 then .success (done ++ current.toList) rest
    else if c ≠ ascii '%' then
      match current with
      | none => .error
      | some format =>
        if FORMAT_SIZE ≤ format.length + 1 then .overflow
        else parseFormats done (some (format ++ [c])) rest
    else if MAX_FMT_ARGS ≤ (done ++ current.toList).length then .overflow
    else parseFormats (done ++ current.toList) (some [c]) rest

def parseFormatSection (buffer : List Byte) : ParseFormatSection :=
  match buffer.dropWhile (· != ascii '%') with
  | [] => .endOfBuffer
  | c :: rest => parseFormats [] none (c :: rest)

/-- What is passed to `print_fct` after the format. -/
inductive Value
  | string (bytes : List Byte)
  | byte (value : Byte)
  | int (value : BitVec 32)
  | long (value : BitVec 64)
  | double (bits : BitVec 64)
  deriving DecidableEq

/-- A call of `print_fct`, which returns `DPU_OK`. -/
structure Call where
  format : List Byte
  value : Value
  deriving DecidableEq

/-- What is done for one format: the calls of `print_fct` and the bytes consumed. -/
structure Printed where
  calls : List Call
  consumed : List Byte
  deriving DecidableEq

/-- A word in the order of the bytes in memory. -/
def readInt : List Byte → Option (BitVec 32)
  | b0 :: b1 :: b2 :: b3 :: _ => some (b3 ++ b2 ++ b1 ++ b0)
  | _ => none

def readLong : List Byte → Option (BitVec 64)
  | b0 :: b1 :: b2 :: b3 :: b4 :: b5 :: b6 :: b7 :: _ =>
    some (b7 ++ b6 ++ b5 ++ b4 ++ b3 ++ b2 ++ b1 ++ b0)
  | _ => none

/-- The letters read as an integer. -/
def integerLetters : List Byte :=
  ['d', 'i', 'x', 'X', 'o', 'p', 'u'].map ascii

/-- The letters read as a double. -/
def doubleLetters : List Byte :=
  ['e', 'E', 'f'].map ascii

def stringFormat : List Byte :=
  [ascii '%', ascii 's']

/-- The calls made for a format and the reader `count` bytes further. -/
def shown (calls : List Call) (count : Nat) (buffer : List Byte) : Printed × List Byte :=
  (⟨calls, buffer.take count⟩, buffer.drop count)

/-- The switch over the last character of a format. Bytes past the end of the
buffer have no meaning. -/
def printArgument (format buffer : List Byte) : Option (Printed × List Byte) :=
  match format.getLast? with
  | none => none
  | some letter =>
    if letter = ascii 's' then
      if (cString buffer).length < buffer.length then
        some (shown [⟨format, .string (cString buffer)⟩] ((cString buffer).length + 1) buffer)
      else none
    else if letter = ascii 'c' then
      buffer.head?.map fun byte => shown [⟨format, .byte byte⟩] 1 buffer
    else if letter = ascii 'b' then
      (readInt buffer).map fun bits =>
        shown ((List.range 32).map fun each => ⟨[ascii '%', ascii 'u'], .int (bits >>> each &&& 1#32)⟩) 4 buffer
    else if letter ∈ integerLetters then
      if ascii 'l' ∈ format.dropLast then
        (readLong buffer).map fun value => shown [⟨format, .long value⟩] 8 buffer
      else (readInt buffer).map fun value => shown [⟨format, .int value⟩] 4 buffer
    else if letter ∈ doubleLetters then
      (readLong buffer).map fun bits => shown [⟨format, .double bits⟩] 8 buffer
    else some (shown [⟨stringFormat, .string format⟩] 4 buffer)

/-- `parse_and_print_argument_section`. -/
def parseAndPrintArgumentSection : List (List Byte) → List Byte → Option (List Printed × List Byte)
  | [], buffer => some ([], buffer)
  | format :: formats, buffer => do
    let (printed, buffer) ← printArgument format buffer
    let (rest, buffer) ← parseAndPrintArgumentSection formats buffer
    return (printed :: rest, buffer)

theorem parseFormats_length {done formats : List (List Byte)} {current : Option (List Byte)}
    {buffer rest : List Byte} (parsed : parseFormats done current buffer = .success formats rest) :
    rest.length < buffer.length := by
  induction buffer generalizing done current with
  | nil => cases parsed
  | cons c buffer ih =>
    unfold parseFormats at parsed
    split at parsed
    · cases parsed
      exact Nat.lt_succ_self _
    · split at parsed
      · split at parsed
        · cases parsed
        · split at parsed
          · cases parsed
          · exact Nat.lt_succ_of_lt (ih parsed)
      · split at parsed
        · cases parsed
        · exact Nat.lt_succ_of_lt (ih parsed)

theorem parseFormatSection_length {formats : List (List Byte)} {buffer rest : List Byte}
    (parsed : parseFormatSection buffer = .success formats rest) : rest.length < buffer.length := by
  rw [parseFormatSection] at parsed
  split at parsed
  · cases parsed
  · rename_i c found skipped
    have shorter := (List.dropWhile_suffix (l := buffer) (· != ascii '%')).length_le
    rw [skipped] at shorter
    exact (parseFormats_length parsed).trans_le shorter

theorem printArgument_length {format buffer rest : List Byte} {printed : Printed}
    (run : printArgument format buffer = some (printed, rest)) : rest.length ≤ buffer.length := by
  have dropped : ∃ calls count, shown calls count buffer = (printed, rest) := by
    unfold printArgument at run
    repeat' split at run
    all_goals simp only [Option.map_eq_some_iff, Option.some.injEq, reduceCtorEq] at run
    all_goals first
      | exact ⟨_, _, run⟩
      | obtain ⟨_, _, same⟩ := run; exact ⟨_, _, same⟩
  obtain ⟨calls, count, same⟩ := dropped
  cases same
  simp

theorem parseAndPrintArgumentSection_length {formats : List (List Byte)} {buffer rest : List Byte}
    {printed : List Printed} (run : parseAndPrintArgumentSection formats buffer = some (printed, rest)) :
    rest.length ≤ buffer.length ∧ printed.length = formats.length := by
  induction formats generalizing buffer printed with
  | nil =>
    cases run
    exact ⟨le_rfl, rfl⟩
  | cons format formats ih =>
    simp only [parseAndPrintArgumentSection, Option.bind_eq_bind, Option.bind_eq_some_iff] at run
    obtain ⟨⟨first, middle⟩, step, ⟨others, last⟩, steps, same⟩ := run
    cases same
    obtain ⟨shorter, count⟩ := ih steps
    exact ⟨shorter.trans (printArgument_length step), congrArg Nat.succ count⟩

/-- `dpulog_read_and_display_contents_of`. -/
def readAndDisplayContentsOf (buffer : List Byte) : Option (Except DpuError (List Printed)) :=
  match _parsed : parseFormatSection buffer with
  | .success formats rest =>
    match _run : parseAndPrintArgumentSection formats rest with
    | none => none
    | some (printed, rest') => (readAndDisplayContentsOf rest').map fun shown => shown.map (printed ++ ·)
  | .error => some (.error .logFormat)
  | .endOfBuffer => some (.ok [])
  | .overflow => none
termination_by buffer.length
decreasing_by exact (parseAndPrintArgumentSection_length _run).1.trans_lt (parseFormatSection_length _parsed)

/-- The bytes that the host has fetched from the DPU. -/
def fetchLog (stdout : Stdout) : Except DpuError (List Byte) :=
  if stdout.hasWrapped then .error .logBufferTooSmall else .ok ((List.range stdout.wp).map stdout.buffer)

end Upmem.Log
