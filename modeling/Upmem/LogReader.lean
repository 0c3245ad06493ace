import Mathlib.Data.List.TakeWhile
import Upmem.PrintfTokens

namespace Upmem.Log

section Decoder

theorem readInt_littleEndian (value : BitVec 32) (rest : List Byte) :
    readInt (littleEndian 4 value ++ rest) = some value := by
  have bytes : littleEndian 4 value = [value.extractLsb' 0 8, value.extractLsb' 8 8, value.extractLsb' 16 8,
      value.extractLsb' 24 8] := rfl
  rw [bytes]
  simp only [List.cons_append, List.nil_append, readInt, Option.some.injEq]
  ext i below
  simp only [BitVec.getElem_append, BitVec.getElem_extractLsb']
  grind

theorem readLong_littleEndian (value : BitVec 64) (rest : List Byte) :
    readLong (littleEndian 8 value ++ rest) = some value := by
  have bytes : littleEndian 8 value = [value.extractLsb' 0 8, value.extractLsb' 8 8, value.extractLsb' 16 8,
      value.extractLsb' 24 8, value.extractLsb' 32 8, value.extractLsb' 40 8, value.extractLsb' 48 8,
      value.extractLsb' 56 8] := rfl
  rw [bytes]
  simp only [List.cons_append, List.nil_append, readLong, Option.some.injEq]
  ext i below
  simp only [BitVec.getElem_append, BitVec.getElem_extractLsb']
  grind

theorem cString_append {text : List Byte} (clean : ∀ c ∈ text, c ≠ 0) (rest : List Byte) :
    cString (text ++ 0 :: rest) = text := by
  rw [cString, List.takeWhile_append_of_pos fun c member => by simpa using clean c member]
  simp

theorem cString_clean (bytes : List Byte) : ∀ c ∈ cString bytes, c ≠ 0 := by
  intro c member
  simpa using List.mem_takeWhile_imp member

/-- A format as the reader can hold it. -/
def Readable (format : List Byte) : Prop :=
  ∃ body, format = ascii '%' :: body ∧ (∀ c ∈ body, c ≠ ascii '%' ∧ c ≠ 0) ∧ format.length < FORMAT_SIZE

theorem parseFormats_body {done : List (List Byte)} {format body : List Byte} (rest : List Byte)
    (plain : ∀ c ∈ body, c ≠ ascii '%' ∧ c ≠ 0) (room : format.length + body.length < FORMAT_SIZE) :
    parseFormats done (some format) (body ++ rest) = parseFormats done (some (format ++ body)) rest := by
  induction body generalizing format with
  | nil => rw [List.nil_append, List.append_nil]
  | cons c body ih =>
    obtain ⟨other, nonzero⟩ := plain c List.mem_cons_self
    rw [List.length_cons] at room
    have next := @ih (format ++ [c]) (fun d member => plain d (List.mem_cons_of_mem c member))
      (by rw [List.length_append, List.length_singleton]; omega)
    rw [List.append_assoc, List.singleton_append] at next
    rw [List.cons_append, ← next]
    conv_lhs => unfold parseFormats
    rw [if_neg nonzero, if_pos other]
    exact if_neg (by omega)

theorem parseFormats_formats {formats done : List (List Byte)} {current : Option (List Byte)} (rest : List Byte)
    (readable : ∀ format ∈ formats, Readable format)
    (few : (done ++ current.toList ++ formats).length ≤ MAX_FMT_ARGS) :
    parseFormats done current (formats.flatten ++ 0 :: rest) =
      .success (done ++ current.toList ++ formats) rest := by
  induction formats generalizing done current with
  | nil =>
    rw [List.flatten_nil, List.nil_append, List.append_nil]
    unfold parseFormats
    exact if_pos rfl
  | cons format formats ih =>
    obtain ⟨body, rfl, plain, short⟩ := readable format List.mem_cons_self
    rw [List.flatten_cons, List.append_assoc, List.cons_append]
    unfold parseFormats
    have room : ¬ MAX_FMT_ARGS ≤ (done ++ current.toList).length := by
      rw [List.length_append, List.length_cons] at few
      omega
    rw [if_neg (by decide), if_neg (by simp), if_neg room,
      parseFormats_body _ plain (by simpa [Nat.add_comm] using short),
      ih (fun format member => readable format (List.mem_cons_of_mem _ member)) (by simpa using few)]
    simp

theorem parseFormatSection_eq {formats : List (List Byte)} (rest : List Byte) (nonempty : formats ≠ [])
    (readable : ∀ format ∈ formats, Readable format) (few : formats.length ≤ MAX_FMT_ARGS) :
    parseFormatSection (formats.flatten ++ 0 :: rest) = .success formats rest := by
  have parsed := @parseFormats_formats formats [] none rest readable (by simpa using few)
  obtain ⟨format, others, rfl⟩ := List.exists_cons_of_ne_nil nonempty
  obtain ⟨body, same, -, -⟩ := readable format List.mem_cons_self
  subst same
  rw [parseFormatSection]
  simp only [List.flatten_cons, List.cons_append, bne_self_eq_false, Bool.false_eq_true, not_false_eq_true,
    List.dropWhile_cons_of_neg] at parsed ⊢
  exact parsed

/-- Bytes that start no format are skipped. -/
theorem parseFormatSection_skip (count : Nat) (buffer : List Byte) :
    parseFormatSection (List.replicate count 0 ++ buffer) = parseFormatSection buffer := by
  have skipped : (List.replicate count 0 ++ buffer).dropWhile (· != ascii '%') =
      buffer.dropWhile (· != ascii '%') := by
    rw [List.dropWhile_append_of_pos]
    intro c member
    rw [List.eq_of_mem_replicate member]
    decide
  rw [parseFormatSection, parseFormatSection, skipped]

theorem readAndDisplayContentsOf_success {buffer rest rest' : List Byte} {formats : List (List Byte)}
    {printed : List Printed} (parsed : parseFormatSection buffer = .success formats rest)
    (run : parseAndPrintArgumentSection formats rest = some (printed, rest')) :
    readAndDisplayContentsOf buffer =
      (readAndDisplayContentsOf rest').map fun shown => shown.map (printed ++ ·) := by
  rw [readAndDisplayContentsOf]
  split
  · rename_i formats' middle same
    rw [parsed] at same
    cases same
    split
    · rename_i failed
      rw [run] at failed
      cases failed
    · rename_i printed' last same
      rw [run] at same
      cases same
      rfl
  all_goals
    rename_i other
    cases parsed.symm.trans other

theorem readAndDisplayContentsOf_stuck {buffer rest : List Byte} {formats : List (List Byte)}
    (parsed : parseFormatSection buffer = .success formats rest)
    (run : parseAndPrintArgumentSection formats rest = none) : readAndDisplayContentsOf buffer = none := by
  rw [readAndDisplayContentsOf]
  split
  · rename_i formats' middle same
    rw [parsed] at same
    cases same
    split
    · rfl
    · rename_i printed last found
      rw [run] at found
      cases found
  all_goals
    rename_i other
    cases parsed.symm.trans other

theorem readAndDisplayContentsOf_nil : readAndDisplayContentsOf [] = some (.ok []) := by
  rw [readAndDisplayContentsOf]
  rfl

theorem readAndDisplayContentsOf_skip (count : Nat) (buffer : List Byte) :
    readAndDisplayContentsOf (List.replicate count 0 ++ buffer) = readAndDisplayContentsOf buffer := by
  have same := parseFormatSection_skip count buffer
  cases parsed : parseFormatSection buffer with
  | success formats rest =>
    rw [parsed] at same
    cases run : parseAndPrintArgumentSection formats rest with
    | none => rw [readAndDisplayContentsOf_stuck parsed run, readAndDisplayContentsOf_stuck same run]
    | some result =>
      rw [readAndDisplayContentsOf_success parsed run, readAndDisplayContentsOf_success same run]
  | _ =>
    rw [parsed] at same
    conv_lhs => rw [readAndDisplayContentsOf]
    conv_rhs => rw [readAndDisplayContentsOf]
    split <;> split <;> simp_all

end Decoder

section Conversions

/-- The value a conversion prints. -/
def valueOf (letter : Byte) : Arg → Value
  | .string bytes => .string (cString bytes)
  | .int value => if letter = ascii 'c' then .byte (value.setWidth 8) else .int value
  | .long value => .long value
  | .double bits => .double bits

/-- The encoder and the decoder agree on a conversion: its letter is one that the
decoder reads, and an integer of 64 bits keeps the modifier that says so. -/
def Agrees (flags : List Byte) (letter : Byte) : Prop :=
  letter = ascii 's' ∨ letter = ascii 'c' ∨ letter ∈ doubleLetters ∨
    letter ∈ integerLetters ∧ (ascii 'L' ∈ flags → ascii 'l' ∈ flags)

theorem storedFormat_getLast (flags : List Byte) (letter : Byte) :
    (storedFormat flags letter).getLast? = some (if letter = ascii 'i' then ascii 'd' else letter) := by
  rw [storedFormat, ← List.cons_append, List.getLast?_concat]

theorem storedFormat_long (flags : List Byte) (letter : Byte) :
    ascii 'l' ∈ (storedFormat flags letter).dropLast ↔ ascii 'l' ∈ flags := by
  rw [storedFormat, ← List.cons_append, List.dropLast_concat, List.mem_cons, List.mem_filter]
  have start : ascii 'l' ≠ ascii '%' := by decide
  have kept : (ascii 'l' != ascii 'L' && ascii 'l' != ascii 'z') = true := by decide
  simp [start, kept]

/-- What an argument that has a meaning for a conversion is. -/
theorem argumentBytes_cases {letter : Byte} {long : Bool} {arg : Arg} {written : List Byte}
    (encoded : argumentBytes letter long arg = some written) :
    (letter = ascii 's' ∧ ∃ bytes, arg = .string bytes ∧ written = cString bytes ++ [0]) ∨
    (letter = ascii 'c' ∧ ∃ value, arg = .int value ∧ written = [value.setWidth 8]) ∨
    (letter ∈ floatLetters ∧ ∃ bits, arg = .double bits ∧ written = littleEndian 8 bits) ∨
    ((letter ≠ ascii 's' ∧ letter ≠ ascii 'c' ∧ letter ∉ floatLetters) ∧
      ((long = true ∧ ∃ value, arg = .long value ∧ written = littleEndian 8 value) ∨
        (long = false ∧ ∃ value, arg = .int value ∧ written = littleEndian 4 value))) := by
  by_cases string : letter = ascii 's'
  · subst string
    cases arg with
    | string bytes => exact Or.inl ⟨rfl, bytes, rfl, (Option.some.inj encoded).symm⟩
    | _ => cases encoded
  by_cases char : letter = ascii 'c'
  · subst char
    cases arg with
    | int value => exact Or.inr (Or.inl ⟨rfl, value, rfl, (Option.some.inj encoded).symm⟩)
    | _ => cases encoded
  by_cases float : letter ∈ floatLetters
  · rw [argumentBytes.eq_def, if_neg string, if_neg char, if_pos float] at encoded
    cases arg with
    | double bits => exact Or.inr (Or.inr (Or.inl ⟨float, bits, rfl, (Option.some.inj encoded).symm⟩))
    | _ => cases encoded
  rw [argumentBytes.eq_def, if_neg string, if_neg char, if_neg float] at encoded
  refine Or.inr (Or.inr (Or.inr ⟨⟨string, char, float⟩, ?_⟩))
  cases long with
  | true =>
    cases arg with
    | long value => exact Or.inl ⟨rfl, value, rfl, (Option.some.inj encoded).symm⟩
    | _ => cases encoded
  | false =>
    cases arg with
    | int value => exact Or.inr ⟨rfl, value, rfl, (Option.some.inj encoded).symm⟩
    | _ => cases encoded

section Switch
variable {format buffer : List Byte} {letter : Byte}

theorem printArgument_string (last : format.getLast? = some (ascii 's'))
    (inside : (cString buffer).length < buffer.length) :
    printArgument format buffer =
      some (shown [⟨format, .string (cString buffer)⟩] ((cString buffer).length + 1) buffer) := by
  rw [printArgument, last]
  exact (if_pos rfl).trans (if_pos inside)

theorem printArgument_char (last : format.getLast? = some (ascii 'c')) :
    printArgument format buffer = buffer.head?.map fun byte => shown [⟨format, .byte byte⟩] 1 buffer := by
  rw [printArgument, last]
  rfl

theorem printArgument_integer (last : format.getLast? = some letter) (integer : letter ∈ integerLetters) :
    printArgument format buffer =
      if ascii 'l' ∈ format.dropLast then (readLong buffer).map fun value => shown [⟨format, .long value⟩] 8 buffer
      else (readInt buffer).map fun value => shown [⟨format, .int value⟩] 4 buffer := by
  have others : letter ≠ ascii 's' ∧ letter ≠ ascii 'c' ∧ letter ≠ ascii 'b' := by
    simp only [integerLetters, List.map_cons, List.map_nil, List.mem_cons, List.not_mem_nil, or_false] at integer
    rcases integer with rfl | rfl | rfl | rfl | rfl | rfl | rfl <;> decide
  rw [printArgument, last]
  simp only [if_neg others.1, if_neg others.2.1, if_neg others.2.2, if_pos integer]

theorem printArgument_double (last : format.getLast? = some letter) (double : letter ∈ doubleLetters) :
    printArgument format buffer = (readLong buffer).map fun bits => shown [⟨format, .double bits⟩] 8 buffer := by
  have others : letter ≠ ascii 's' ∧ letter ≠ ascii 'c' ∧ letter ≠ ascii 'b' ∧ letter ∉ integerLetters := by
    simp only [doubleLetters, List.map_cons, List.map_nil, List.mem_cons, List.not_mem_nil, or_false] at double
    rcases double with rfl | rfl | rfl <;> decide
  rw [printArgument, last]
  simp only [if_neg others.1, if_neg others.2.1, if_neg others.2.2.1, if_neg others.2.2.2, if_pos double]

/-- What is called for a letter that the decoder does not read as the encoder
writes it: the digits of a word, or the format as a text. -/
theorem printArgument_other {printed : Printed} {rest : List Byte} (last : format.getLast? = some letter)
    (notString : letter ≠ ascii 's') (notChar : letter ≠ ascii 'c') (notInteger : letter ∉ integerLetters)
    (notDouble : letter ∉ doubleLetters) (run : printArgument format buffer = some (printed, rest)) :
    printed.calls.length = 32 ∨ printed.calls = [⟨stringFormat, .string format⟩] := by
  rw [printArgument, last] at run
  simp only [if_neg notString, if_neg notChar, if_neg notInteger, if_neg notDouble] at run
  split at run
  · obtain ⟨bits, _, same⟩ := Option.map_eq_some_iff.mp run
    cases same
    exact Or.inl (by simp)
  · cases run
    exact Or.inr rfl

end Switch

theorem shown_append (calls : List Call) (written rest : List Byte) :
    shown calls written.length (written ++ rest) = (⟨calls, written⟩, rest) := by
  simp [shown]

theorem storedLetter_of_ne {letter : Byte} (other : letter ≠ ascii 'i') (flags : List Byte) :
    (storedFormat flags letter).getLast? = some letter := by
  rw [storedFormat_getLast, if_neg other]

theorem Agrees.double_of_float {flags : List Byte} {letter : Byte} (agrees : Agrees flags letter)
    (float : letter ∈ floatLetters) : letter ∈ doubleLetters := by
  rcases agrees with rfl | rfl | double | ⟨integer, -⟩
  · exact absurd float (by decide)
  · exact absurd float (by decide)
  · exact double
  · have both : ∀ c ∈ floatLetters, c ∉ integerLetters := by decide
    exact absurd integer (both letter float)

theorem Agrees.integer_of_not_float {flags : List Byte} {letter : Byte} (agrees : Agrees flags letter)
    (notString : letter ≠ ascii 's') (notChar : letter ≠ ascii 'c') (notFloat : letter ∉ floatLetters) :
    letter ∈ integerLetters ∧ (ascii 'l' ∈ flags ↔ isLong flags = true) := by
  rcases agrees with string | char | double | ⟨integer, long⟩
  · exact absurd string notString
  · exact absurd char notChar
  · have both : ∀ c ∈ doubleLetters, c ∈ floatLetters := by decide
    exact absurd (both letter double) notFloat
  · refine ⟨integer, ?_⟩
    simp only [isLong, Bool.or_eq_true, decide_eq_true_eq]
    tauto

theorem storedLetter_integer {letter : Byte} (integer : letter ∈ integerLetters) :
    (if letter = ascii 'i' then ascii 'd' else letter) ∈ integerLetters := by
  split
  · decide
  · exact integer

/-- The bytes of an argument whose conversion the two sides agree on are read back. -/
theorem printArgument_agrees {flags : List Byte} {letter : Byte} {arg : Arg} {written : List Byte}
    (encoded : argumentBytes letter (isLong flags) arg = some written) (agrees : Agrees flags letter)
    (rest : List Byte) :
    printArgument (storedFormat flags letter) (written ++ rest) =
      some (⟨[⟨storedFormat flags letter, valueOf letter arg⟩], written⟩, rest) := by
  rcases argumentBytes_cases encoded with ⟨rfl, bytes, rfl, rfl⟩ | ⟨rfl, value, rfl, rfl⟩ | ⟨float,
    bits, rfl, rfl⟩ |
    ⟨⟨notString, notChar, notFloat⟩, typed⟩
  · have read : cString (cString bytes ++ [0] ++ rest) = cString bytes := by
      rw [List.append_assoc]
      exact cString_append (cString_clean bytes) rest
    have last := storedLetter_of_ne (show ascii 's' ≠ ascii 'i' by decide) flags
    have length : (cString bytes).length + 1 = (cString bytes ++ [0]).length := by simp
    rw [printArgument_string last (by rw [read]; simp), read, length]
    exact congrArg some (shown_append _ (cString bytes ++ [0]) rest)
  · rw [printArgument_char (storedLetter_of_ne (by decide) flags)]
    exact congrArg some (shown_append _ [value.setWidth 8] rest)
  · have double := agrees.double_of_float float
    have other : letter ≠ ascii 'i' := by
      rintro rfl
      exact absurd float (by decide)
    rw [printArgument_double (storedLetter_of_ne other flags) double, readLong_littleEndian]
    exact congrArg some (shown_append _ (littleEndian 8 bits) rest)
  · obtain ⟨integer, long⟩ := agrees.integer_of_not_float notString notChar notFloat
    rw [printArgument_integer (storedFormat_getLast flags letter) (storedLetter_integer integer)]
    simp only [storedFormat_long]
    rcases typed with ⟨isLong, value, rfl, rfl⟩ | ⟨isInt, value, rfl, rfl⟩
    · rw [if_pos (long.mpr isLong), readLong_littleEndian]
      exact congrArg some (shown_append _ (littleEndian 8 value) rest)
    · have short : ascii 'l' ∉ flags := fun member => by simp [long.mp member] at isInt
      rw [if_neg short, readInt_littleEndian, valueOf, if_neg notChar]
      exact congrArg some (shown_append _ (littleEndian 4 value) rest)

/-- A conversion on which the two sides do not agree is not printed with its value. -/
theorem printArgument_differs {flags : List Byte} {letter : Byte} {arg : Arg} {written buffer rest : List Byte}
    {printed : Printed} (encoded : argumentBytes letter (isLong flags) arg = some written)
    (differs : ¬ Agrees flags letter)
    (run : printArgument (storedFormat flags letter) buffer = some (printed, rest)) :
    printed.calls ≠ [⟨storedFormat flags letter, valueOf letter arg⟩] := by
  have notString : letter ≠ ascii 's' := fun same => differs (Or.inl same)
  have notChar : letter ≠ ascii 'c' := fun same => differs (Or.inr (Or.inl same))
  have notDouble : letter ∉ doubleLetters := fun double => differs (Or.inr (Or.inr (Or.inl double)))
  have notText : ∀ text, valueOf letter arg ≠ .string text := by
    intro text same
    rcases argumentBytes_cases encoded with ⟨string, -⟩ | ⟨char, -⟩ | ⟨-, bits, rfl, -⟩ |
      ⟨-, ⟨-, value, rfl, -⟩ | ⟨-, value, rfl, -⟩⟩
    · exact notString string
    · exact notChar char
    · cases same
    · cases same
    · rw [valueOf, if_neg notChar] at same
      cases same
  intro printedValue
  by_cases integer : letter ∈ integerLetters
  · have lost : ascii 'L' ∈ flags ∧ ascii 'l' ∉ flags := by
      by_contra kept
      exact differs (Or.inr (Or.inr (Or.inr ⟨integer, fun member => by tauto⟩)))
    rw [printArgument_integer (storedFormat_getLast flags letter) (storedLetter_integer integer)] at run
    simp only [storedFormat_long, if_neg lost.2] at run
    obtain ⟨value, -, same⟩ := Option.map_eq_some_iff.mp run
    cases same
    have long : isLong flags = true := by simp [isLong, lost.1]
    rcases argumentBytes_cases encoded with ⟨string, -⟩ | ⟨char, -⟩ | ⟨float, -⟩ |
      ⟨-, ⟨-, value', rfl, -⟩ | ⟨isInt, -⟩⟩
    · exact notString string
    · exact notChar char
    · have both : ∀ c ∈ floatLetters, c ∉ integerLetters := by decide
      exact both letter float integer
    · cases printedValue
    · rw [long] at isInt
      cases isInt
  · have other : letter ≠ ascii 'i' := by
      rintro rfl
      exact integer (by decide)
    rcases printArgument_other (storedLetter_of_ne other flags) notString notChar integer notDouble run with
      digits | text
    · rw [printedValue] at digits
      cases digits
    · rw [text, List.cons.injEq, Call.mk.injEq] at printedValue
      exact notText _ printedValue.1.2.symm

end Conversions

end Upmem.Log
