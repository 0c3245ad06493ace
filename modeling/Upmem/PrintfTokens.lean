import Upmem.DpuLog

namespace Upmem.Log
open Blit

attribute [local instance] lawfulBEq_byte

/-- What a format is made of: literal characters and conversions, each with the
characters between `%` and its letter. -/
inductive Token
  | literal (c : Byte)
  | conversion (flags : List Byte) (letter : Byte)

/-- The letters `l`, `L` and `z` modify a conversion and do not end it. -/
def endsConversion (c : Byte) : Bool :=
  isLetter c && !(c == ascii 'l' || c == ascii 'L' || c == ascii 'z')

/-- The tokens of a format whose conversions are complete and take no width or
precision from an argument. A last `%` alone is left out. -/
inductive Reads : List Byte → List Token → Prop
  | nil : Reads [] []
  | lonePercent : Reads [ascii '%'] []
  | literal {c rest tokens} : c ≠ ascii '%' → Reads rest tokens → Reads (c :: rest) (.literal c :: tokens)
  | percent {rest tokens} : Reads rest tokens →
      Reads (ascii '%' :: ascii '%' :: rest) (.literal (ascii '%') :: tokens)
  | conversion {flags letter rest tokens} : (∀ c ∈ flags, endsConversion c = false) →
      ascii '%' ∉ flags → ascii '*' ∉ flags → endsConversion letter = true → Reads rest tokens →
      Reads (ascii '%' :: (flags ++ letter :: rest)) (.conversion flags letter :: tokens)

/-- The conversion as it is stored: an integer is `d` and two modifiers are left out. -/
def storedFormat (flags : List Byte) (letter : Byte) : List Byte :=
  ascii '%' :: (flags.filter (fun c => c != ascii 'L' && c != ascii 'z') ++
    [if letter = ascii 'i' then ascii 'd' else letter])

/-- The modifiers ask for an argument of 64 bits. -/
def isLong (flags : List Byte) : Bool :=
  decide (ascii 'l' ∈ flags) || decide (ascii 'L' ∈ flags)

/-- The formats of a list of tokens; `inText` says that a literal text has begun before it. -/
def formatsOf (inText : Bool) : List Token → List (List Byte)
  | [] => []
  | .literal _ :: tokens => (if inText then [] else [stringFormat]) ++ formatsOf true tokens
  | .conversion flags letter :: tokens => storedFormat flags letter :: formatsOf false tokens

/-- The bytes of the arguments of a list of tokens. -/
def argumentsOf (inText : Bool) : List Token → List Arg → Option (List Byte)
  | [], _ => some (endOfText inText)
  | .literal c :: tokens, args => (c :: ·) <$> argumentsOf true tokens args
  | .conversion flags letter :: tokens, args =>
    match writeArg letter (isLong flags) args with
    | none => none
    | some (written, args) => (endOfText inText ++ written ++ ·) <$> argumentsOf false tokens args

section Encoder

theorem endsConversion_iff {c : Byte} :
    endsConversion c = true ↔ isLetter c = true ∧ c ≠ ascii 'l' ∧ c ≠ ascii 'L' ∧ c ≠ ascii 'z' := by
  simp [endsConversion, and_assoc]

theorem formatStep_inside {c : Byte} (inside : endsConversion c = false) (next after : Option (List Byte)) :
    formatStep c next after = ([c].filter (fun c => c != ascii 'L' && c != ascii 'z') ++ ·) <$> next := by
  have kept : ¬ (isLetter c = true ∧ c ≠ ascii 'l' ∧ c ≠ ascii 'L' ∧ c ≠ ascii 'z') := by
    rw [← endsConversion_iff, inside]
    decide
  by_cases l : c = ascii 'l'
  · subst l
    cases next <;> rfl
  by_cases modifier : c = ascii 'L' ∨ c = ascii 'z'
  · rcases modifier with rfl | rfl <;> cases next <;> rfl
  · have other : isLetter c ≠ true := fun letter => kept ⟨letter, l, by tauto, by tauto⟩
    have noti : c ≠ ascii 'i' := by
      rintro rfl
      exact other (by decide)
    have stays : ([c].filter fun c => c != ascii 'L' && c != ascii 'z') = [c] := by
      simp only [not_or] at modifier
      simp [modifier]
    rw [formatStep, if_neg l, if_neg modifier, if_neg noti, if_neg other, stays]
    rfl

theorem formatStep_ends {c : Byte} (ends : endsConversion c = true) (next after : Option (List Byte)) :
    formatStep c next after = ((if c = ascii 'i' then ascii 'd' else c) :: ·) <$> after := by
  obtain ⟨letter, notl, notL, notz⟩ := endsConversion_iff.mp ends
  rw [formatStep, if_neg notl, if_neg (by tauto), if_pos letter]
  split <;> rfl

/-- The first loop over the rest of a conversion. -/
theorem formatPass_conversion {flags : List Byte} {letter : Byte} (rest : List Byte)
    (inside : ∀ c ∈ flags, endsConversion c = false) (ends : endsConversion letter = true) :
    formatPass .conversion false (flags ++ letter :: rest) =
      (flags.filter (fun c => c != ascii 'L' && c != ascii 'z') ++
        [if letter = ascii 'i' then ascii 'd' else letter] ++ ·) <$> formatPass .text true rest := by
  induction flags with
  | nil => exact formatStep_ends ends _ _
  | cons c flags ih =>
    have split : (c :: flags).filter (fun c => c != ascii 'L' && c != ascii 'z') =
        [c].filter (fun c => c != ascii 'L' && c != ascii 'z') ++
          flags.filter (fun c => c != ascii 'L' && c != ascii 'z') := List.filter_append [c] flags
    rw [List.cons_append, formatPass, formatStep_inside (inside c List.mem_cons_self),
      ih fun d member => inside d (List.mem_cons_of_mem c member), split]
    cases formatPass .text true rest with
    | none => rfl
    | some bytes => exact congrArg some (by simp only [List.append_assoc])

theorem formatPass_eq {format : List Byte} {tokens : List Token} (reads : Reads format tokens) (inText : Bool) :
    formatPass .text (!inText) format = some (formatsOf inText tokens).flatten := by
  induction reads generalizing inText with
  | nil => rfl
  | lonePercent => rfl
  | literal other _ ih =>
    rw [formatPass, if_neg other]
    change _ <$> formatPass .text (!true) _ = _
    rw [ih]
    cases inText <;> rfl
  | percent _ ih =>
    rw [formatPass, if_pos rfl, formatPass, if_pos rfl]
    change _ <$> formatPass .text (!true) _ = _
    rw [ih]
    cases inText <;> rfl
  | @conversion flags letter rest tokens inside noPercent _ ends _ ih =>
    have conversion := formatPass_conversion rest inside ends
    have text := ih false
    have start : formatPass .percent (!inText) (flags ++ letter :: rest) =
        (ascii '%' :: ·) <$> formatPass .conversion false (flags ++ letter :: rest) := by
      cases flags with
      | nil =>
        have other : letter ≠ ascii '%' := by
          rintro rfl
          exact absurd ends (by decide)
        rw [List.nil_append, formatPass, if_neg other]
        rfl
      | cons c flags =>
        have other : c ≠ ascii '%' := fun same => noPercent (same ▸ List.mem_cons_self)
        rw [List.cons_append, formatPass, if_neg other]
        rfl
    rw [formatPass, if_pos rfl, start, conversion]
    change _ <$> _ <$> formatPass .text (!false) _ = _
    rw [text]
    simp [formatsOf, storedFormat]

theorem argumentStep_inside {c : Byte} (inside : endsConversion c = false) (argIs64Bits : Bool) (args : List Arg)
    (next : Bool → Option (List Byte)) (after : List Arg → Option (List Byte)) :
    argumentStep c argIs64Bits args next after = next (argIs64Bits || isLong [c]) := by
  have kept : ¬ (isLetter c = true ∧ c ≠ ascii 'l' ∧ c ≠ ascii 'L' ∧ c ≠ ascii 'z') := by
    rw [← endsConversion_iff, inside]
    decide
  rw [argumentStep]
  by_cases long : c = ascii 'l' ∨ c = ascii 'L'
  · have both : isLong [c] = true := by rcases long with rfl | rfl <;> decide
    rw [if_pos long, both, Bool.or_true]
  · have short : isLong [c] = false := by
      simp only [not_or] at long
      simp [isLong, Ne.symm long.1, Ne.symm long.2]
    rw [if_neg long, short, Bool.or_false]
    by_cases z : c = ascii 'z'
    · rw [if_pos z]
    · rw [if_neg z, if_neg fun letter => kept ⟨letter, by tauto, by tauto, z⟩]

theorem argumentStep_ends {c : Byte} (ends : endsConversion c = true) (argIs64Bits : Bool) (args : List Arg)
    (next : Bool → Option (List Byte)) (after : List Arg → Option (List Byte)) :
    argumentStep c argIs64Bits args next after =
      match writeArg c argIs64Bits args with
      | none => none
      | some (written, args) => (written ++ ·) <$> after args := by
  obtain ⟨letter, notl, notL, notz⟩ := endsConversion_iff.mp ends
  rw [argumentStep, if_neg (by tauto), if_neg notz]
  exact if_pos letter

theorem isLong_cons (c : Byte) (flags : List Byte) : isLong (c :: flags) = (isLong [c] || isLong flags) := by
  simp only [isLong, List.mem_cons, List.not_mem_nil, or_false, Bool.decide_or]
  cases decide (ascii 'l' = c) <;> cases decide (ascii 'L' = c) <;> simp

/-- The second loop over the rest of a conversion. -/
theorem argumentPass_conversion {flags : List Byte} {letter : Byte} (rest : List Byte)
    (inside : ∀ c ∈ flags, endsConversion c = false) (ends : endsConversion letter = true) (argIs64Bits : Bool)
    (args : List Arg) :
    argumentPass .conversion argIs64Bits false (flags ++ letter :: rest) args =
      match writeArg letter (argIs64Bits || isLong flags) args with
      | none => none
      | some (written, args) => (written ++ ·) <$> argumentPass .text false false rest args := by
  induction flags generalizing argIs64Bits with
  | nil =>
    rw [List.nil_append, argumentPass, argumentStep_ends ends]
    simp [isLong]
  | cons c flags ih =>
    rw [List.cons_append, argumentPass, argumentStep_inside (inside c List.mem_cons_self),
      ih fun d member => inside d (List.mem_cons_of_mem c member), isLong_cons c flags, Bool.or_assoc]

theorem argumentPass_eq {format : List Byte} {tokens : List Token} (reads : Reads format tokens) (inText : Bool)
    (args : List Arg) : argumentPass .text false inText format args = argumentsOf inText tokens args := by
  induction reads generalizing inText args with
  | nil => rfl
  | lonePercent => rfl
  | literal other _ ih => rw [argumentPass, if_neg other, ih, argumentsOf]
  | percent _ ih => rw [argumentPass, if_pos rfl, argumentPass, if_pos rfl, ih, argumentsOf]
  | @conversion flags letter rest tokens inside noPercent _ ends _ ih =>
    have conversion := argumentPass_conversion rest inside ends false args
    have start : argumentPass .percent false inText (flags ++ letter :: rest) args =
        (endOfText inText ++ ·) <$> argumentPass .conversion false false (flags ++ letter :: rest) args := by
      cases flags with
      | nil =>
        have other : letter ≠ ascii '%' := by
          rintro rfl
          exact absurd ends (by decide)
        rw [List.nil_append, argumentPass, if_neg other]
        rfl
      | cons c flags =>
        have other : c ≠ ascii '%' := fun same => noPercent (same ▸ List.mem_cons_self)
        rw [List.cons_append, argumentPass, if_neg other]
        rfl
    rw [argumentPass, if_pos rfl, start, conversion, Bool.false_or, argumentsOf]
    cases writeArg letter (isLong flags) args with
    | none => rfl
    | some result =>
      obtain ⟨written, args⟩ := result
      simp only [ih]
      cases argumentsOf false tokens args with
      | none => rfl
      | some bytes => exact congrArg some (List.append_assoc ..).symm

end Encoder

section Output

/-- The bytes in the buffer of the MRAM, up to the write pointer. -/
def Stdout.contents (stdout : Stdout) : List Byte :=
  (List.range stdout.wp).map stdout.buffer

/-- The bytes in the cache. -/
def Stdout.cached (stdout : Stdout) : List Byte :=
  (List.range stdout.cacheWriteIndex).map stdout.cache

@[simp] theorem Stdout.contents_length (stdout : Stdout) : stdout.contents.length = stdout.wp := by
  simp [contents]

@[simp] theorem Stdout.cached_length (stdout : Stdout) : stdout.cached.length = stdout.cacheWriteIndex := by
  simp [cached]

variable (stdoutBufferSize : Nat)

/-- A transfer that does not reach the end of the buffer appends the cache. -/
theorem transferCacheToMram_contents {stdout : Stdout}
    (room : stdout.wp + STDOUT_CACHE_BUFFER_SIZE < stdoutBufferSize) :
    let transferred := transferCacheToMram stdoutBufferSize stdout
    transferred.contents = stdout.contents ++ (List.range STDOUT_CACHE_BUFFER_SIZE).map stdout.cache ∧
      transferred.hasWrapped = stdout.hasWrapped ∧ transferred.nrOfWrapping = stdout.nrOfWrapping := by
  simp only [transferCacheToMram, if_neg (Nat.not_le_of_lt room), and_self, and_true]
  rw [Stdout.contents, List.range_add, List.map_append, List.map_map]
  congr 1
  · refine List.map_congr_left fun a member => blit_outside _ _ _ ?_
    have := List.mem_range.mp member
    omega
  · refine List.map_congr_left fun i member => ?_
    exact (blit_inside _ _ _ _ (List.mem_range.mp member)).trans (by rw [Nat.zero_add])

/-- The bytes written so far, whether in the buffer or in the cache. -/
structure Written (before : List Byte) (wrapped : Bool) (bytes : List Byte) (stdout : Stdout) : Prop where
  stream : stdout.contents ++ stdout.cached = before ++ bytes
  index : stdout.cacheWriteIndex = bytes.length % STDOUT_CACHE_BUFFER_SIZE
  wrapped : stdout.hasWrapped = wrapped
  wraps : stdout.nrOfWrapping = 0

theorem Written.length {before bytes : List Byte} {wrapped : Bool} {stdout : Stdout}
    (written : Written before wrapped bytes stdout) :
    stdout.wp + stdout.cacheWriteIndex = before.length + bytes.length := by
  have lengths := congrArg List.length written.stream
  simpa using lengths

theorem Written.byte {before bytes : List Byte} {wrapped : Bool} {stdout : Stdout}
    (written : Written before wrapped bytes stdout) (byte : Byte)
    (room : before.length + bytes.length + 1 < stdoutBufferSize) :
    Written before wrapped (bytes ++ [byte]) (writeByteAndFlushIfNeeded stdoutBufferSize stdout byte) := by
  have length := written.length
  have index := written.index
  set cached : Stdout :=
    { stdout with
      cache := Function.update stdout.cache stdout.cacheWriteIndex byte
      cacheWriteIndex := stdout.cacheWriteIndex + 1 } with cachedEq
  have grown : cached.cached = stdout.cached ++ [byte] := by
    rw [Stdout.cached, Stdout.cached, List.range_succ, List.map_append]
    congr 1
    · refine List.map_congr_left fun i member => Function.update_of_ne ?_ _ _
      exact (List.mem_range.mp member).ne
    · exact congrArg (fun b => [b]) (Function.update_self ..)
  have all : stdout.contents ++ cached.cached = before ++ (bytes ++ [byte]) := by
    rw [grown, ← List.append_assoc, written.stream, List.append_assoc]
  rw [writeByteAndFlushIfNeeded]
  by_cases full : cached.cacheWriteIndex = STDOUT_CACHE_BUFFER_SIZE
  · rw [if_pos full]
    have fits : cached.wp + STDOUT_CACHE_BUFFER_SIZE < stdoutBufferSize := by
      have same : stdout.cacheWriteIndex + 1 = STDOUT_CACHE_BUFFER_SIZE := full
      have wp : cached.wp = stdout.wp := rfl
      omega
    obtain ⟨contents, wrapped', wraps⟩ := transferCacheToMram_contents stdoutBufferSize fits
    have flushed : (List.range STDOUT_CACHE_BUFFER_SIZE).map cached.cache = cached.cached := by
      rw [Stdout.cached, full]
    rw [flushed] at contents
    refine ⟨(List.append_nil _).trans (contents.trans all), ?_, wrapped'.trans written.wrapped,
      wraps.trans written.wraps⟩
    have same : stdout.cacheWriteIndex + 1 = STDOUT_CACHE_BUFFER_SIZE := full
    rw [List.length_append, List.length_singleton]
    simp only [STDOUT_CACHE_BUFFER_SIZE] at index same ⊢
    omega
  · rw [if_neg full]
    refine ⟨all, ?_, written.wrapped, written.wraps⟩
    have differ : stdout.cacheWriteIndex + 1 ≠ STDOUT_CACHE_BUFFER_SIZE := full
    rw [List.length_append, List.length_singleton]
    simp only [STDOUT_CACHE_BUFFER_SIZE] at index differ ⊢
    omega

theorem Written.foldl {before bytes : List Byte} {wrapped : Bool} {stdout : Stdout}
    (written : Written before wrapped bytes stdout) (more : List Byte)
    (room : before.length + bytes.length + more.length < stdoutBufferSize) :
    Written before wrapped (bytes ++ more) (more.foldl (writeByteAndFlushIfNeeded stdoutBufferSize) stdout) := by
  induction more generalizing bytes stdout with
  | nil => rwa [List.append_nil]
  | cons byte more ih =>
    rw [List.length_cons] at room
    have next := ih (written.byte stdoutBufferSize byte (by omega)) (by simp; omega)
    rwa [List.append_assoc, List.singleton_append] at next

/-- A sequence that does not reach the end of the buffer appends its bytes and
the zeros that complete the last double word. -/
theorem printf_contents {stdout : Stdout} {call : PrintfCall} {bytes : List Byte}
    (encoded : printfBytes call = some bytes) (room : stdout.wp + (padded bytes).length < stdoutBufferSize) :
    ∃ after, printf stdoutBufferSize stdout call = some after ∧
      after.contents = stdout.contents ++ padded bytes ∧ after.hasWrapped = stdout.hasWrapped := by
  have size : (padded bytes).length =
      bytes.length + (STDOUT_CACHE_BUFFER_SIZE - bytes.length % STDOUT_CACHE_BUFFER_SIZE) := by
    simp [padded]
  have place : STDOUT_CACHE_BUFFER_SIZE = 8 := rfl
  have opened : Written stdout.contents stdout.hasWrapped [] (openPrintSequence stdout) :=
    ⟨rfl, rfl, rfl, rfl⟩
  have written := opened.foldl stdoutBufferSize bytes (by
    rw [Stdout.contents_length, List.length_nil]
    omega)
  rw [List.nil_append] at written
  set filled := bytes.foldl (writeByteAndFlushIfNeeded stdoutBufferSize) (openPrintSequence stdout)
  have index := written.index
  have below : filled.cacheWriteIndex < STDOUT_CACHE_BUFFER_SIZE := by
    rw [index]
    exact Nat.mod_lt _ (by decide)
  have length := written.length
  rw [Stdout.contents_length] at length
  set completed : Stdout :=
    { filled with
      cache := blit (fun _ => 0) 0 filled.cache filled.cacheWriteIndex
        (STDOUT_CACHE_BUFFER_SIZE - filled.cacheWriteIndex) } with completedEq
  have fits : completed.wp + STDOUT_CACHE_BUFFER_SIZE < stdoutBufferSize := by
    have wp : completed.wp = filled.wp := rfl
    omega
  obtain ⟨contents, wrapped, wraps⟩ := transferCacheToMram_contents stdoutBufferSize fits
  have cache : (List.range STDOUT_CACHE_BUFFER_SIZE).map completed.cache =
      filled.cached ++ List.replicate (STDOUT_CACHE_BUFFER_SIZE - bytes.length % STDOUT_CACHE_BUFFER_SIZE) 0 := by
    have split : STDOUT_CACHE_BUFFER_SIZE =
        filled.cacheWriteIndex + (STDOUT_CACHE_BUFFER_SIZE - filled.cacheWriteIndex) := by omega
    conv_lhs => rw [split, List.range_add, List.map_append, List.map_map]
    congr 1
    · refine List.map_congr_left fun i member => blit_outside (fun _ => 0) 0 filled.cache ?_
      have := List.mem_range.mp member
      omega
    · rw [← index]
      refine List.eq_replicate_iff.mpr ⟨by simp, fun b member => ?_⟩
      obtain ⟨i, inside, rfl⟩ := List.mem_map.mp member
      exact blit_inside (fun _ => 0) filled.cache 0 filled.cacheWriteIndex (List.mem_range.mp inside)
  refine ⟨transferCacheToMram stdoutBufferSize completed, ?_, ?_, wrapped.trans written.wrapped⟩
  · have calm : ¬ (1 < (transferCacheToMram stdoutBufferSize completed).nrOfWrapping ∨
        (transferCacheToMram stdoutBufferSize completed).nrOfWrapping = 1 ∧
          stdout.wp < (transferCacheToMram stdoutBufferSize completed).wp) := by
      rw [wraps, show completed.nrOfWrapping = 0 from written.wraps]
      omega
    simp only [printf, encoded, Option.bind_eq_bind, Option.bind_some, finalizedPrintSequence]
    exact if_neg calm
  · rw [contents, cache, ← List.append_assoc, show completed.contents = filled.contents from rfl, written.stream,
      List.append_assoc, padded]

end Output

end Upmem.Log
