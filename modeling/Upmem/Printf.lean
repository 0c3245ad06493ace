import Upmem.Lib.Blit

namespace Upmem.Log
open Blit

abbrev Byte := BitVec 8

theorem lawfulBEq_byte : LawfulBEq Byte := inferInstance

attribute [local instance] lawfulBEq_byte

def ascii (c : Char) : Byte :=
  BitVec.ofNat 8 c.toNat

/-- The bytes of a string before the end character. -/
def cString (bytes : List Byte) : List Byte :=
  bytes.takeWhile (· != 0#8)

def isLetter (c : Byte) : Bool :=
  decide (65 ≤ c.toNat ∧ c.toNat ≤ 90) || decide (97 ≤ c.toNat ∧ c.toNat ≤ 122)

/-- An argument of `printf`; a double is its bits. -/
inductive Arg
  | string (bytes : List Byte)
  | int (value : BitVec 32)
  | long (value : BitVec 64)
  | double (bits : BitVec 64)

def littleEndian {w : Nat} (count : Nat) (value : BitVec w) : List Byte :=
  (List.range count).map fun i => value.extractLsb' (8 * i) 8

/-- The letters written as a double. -/
def floatLetters : List Byte :=
  ['f', 'e', 'E', 'g', 'G'].map ascii

/-- The switch over the letter of a conversion: the bytes written for its
argument. An argument of another type has no meaning. -/
def argumentBytes (letter : Byte) (argIs64Bits : Bool) (arg : Arg) : Option (List Byte) :=
  if letter = ascii 's' then
    match arg with
    | .string bytes => some (cString bytes ++ [0])
    | _ => none
  else if letter = ascii 'c' then
    match arg with
    | .int value => some [value.setWidth 8]
    | _ => none
  else if letter ∈ floatLetters then
    match arg with
    | .double bits => some (littleEndian 8 bits)
    | _ => none
  else if argIs64Bits then
    match arg with
    | .long value => some (littleEndian 8 value)
    | _ => none
  else
    match arg with
    | .int value => some (littleEndian 4 value)
    | _ => none

/-- The bytes written for the next argument, and the arguments left. -/
def writeArg (letter : Byte) (argIs64Bits : Bool) : List Arg → Option (List Byte × List Arg)
  | [] => none
  | arg :: args => (argumentBytes letter argIs64Bits arg).map fun written => (written, args)

/-- Where the scan of a format stands: outside of the conversions, behind the
character that starts one, or inside of one. -/
inductive Scan
  | text | percent | conversion

/-- A character of a conversion in the first loop, with what is written for the
rest of the format when the conversion goes on and when it ends. -/
def formatStep (c : Byte) (inside after : Option (List Byte)) : Option (List Byte) :=
  if c = ascii 'l' then (c :: ·) <$> inside
  else if c = ascii 'L' ∨ c = ascii 'z' then inside
  else if c = ascii 'i' then (ascii 'd' :: ·) <$> after
  else if isLetter c then (c :: ·) <$> after
  else (c :: ·) <$> inside

/-- What a literal character writes in the first loop. -/
def stringArgFormat (insertStringArg : Bool) : List Byte :=
  if insertStringArg then [ascii '%', ascii 's'] else []

/-- The first loop of `printf`. A format that ends inside of a conversion is
read past its end. -/
def formatPass (scan : Scan) (insertStringArg : Bool) : List Byte → Option (List Byte)
  | [] =>
    match scan with
    | .conversion => none
    | _ => some []
  | c :: rest =>
    match scan with
    | .text =>
      if c = ascii '%' then formatPass .percent insertStringArg rest
      else (stringArgFormat insertStringArg ++ ·) <$> formatPass .text false rest
    | .percent =>
      if c = ascii '%' then (stringArgFormat insertStringArg ++ ·) <$> formatPass .text false rest
      else (ascii '%' :: ·) <$> formatStep c (formatPass .conversion false rest) (formatPass .text true rest)
    | .conversion => formatStep c (formatPass .conversion false rest) (formatPass .text true rest)

/-- A character of a conversion in the second loop. -/
def argumentStep (c : Byte) (argIs64Bits : Bool) (args : List Arg) (inside : Bool → Option (List Byte))
    (after : List Arg → Option (List Byte)) : Option (List Byte) :=
  if c = ascii 'l' ∨ c = ascii 'L' then inside true
  else if c = ascii 'z' then inside argIs64Bits
  else if isLetter c then
    match writeArg c argIs64Bits args with
    | none => none
    | some (written, args) => (written ++ ·) <$> after args
  else inside argIs64Bits

/-- The end character of a literal text. -/
def endOfText (insertStringArgEndCharacter : Bool) : List Byte :=
  if insertStringArgEndCharacter then [0] else []

/-- The second loop of `printf`, with the end character written after it. -/
def argumentPass (scan : Scan) (argIs64Bits insertStringArgEndCharacter : Bool) :
    List Byte → List Arg → Option (List Byte)
  | [], _ =>
    match scan with
    | .conversion => none
    | _ => some (endOfText insertStringArgEndCharacter)
  | c :: rest, args =>
    match scan with
    | .text =>
      if c = ascii '%' then argumentPass .percent false insertStringArgEndCharacter rest args
      else (c :: ·) <$> argumentPass .text false true rest args
    | .percent =>
      if c = ascii '%' then (c :: ·) <$> argumentPass .text false true rest args
      else
        (endOfText insertStringArgEndCharacter ++ ·) <$>
          argumentStep c false args (fun argIs64Bits => argumentPass .conversion argIs64Bits false rest args)
            (argumentPass .text false false rest)
    | .conversion =>
      argumentStep c argIs64Bits args (fun argIs64Bits => argumentPass .conversion argIs64Bits false rest args)
        (argumentPass .text false false rest)

structure PrintfCall where
  format : List Byte
  args : List Arg

/-- The bytes `printf` writes, without those that complete the last double word. -/
def printfBytes (call : PrintfCall) : Option (List Byte) := do
  let formats ← formatPass .text true (cString call.format)
  let arguments ← argumentPass .text false false (cString call.format) call.args
  return formats ++ [0] ++ arguments

section Stdout

def STDOUT_CACHE_BUFFER_SIZE : Nat := 8

/-- The standard output of a DPU: the buffer in the MRAM, `__STDOUT_BUFFER_STATE` and the cache. -/
structure Stdout where
  buffer : Nat → Byte
  wp : Nat
  hasWrapped : Bool
  cache : Nat → Byte
  cacheWriteIndex : Nat
  nrOfWrapping : Nat

variable (stdoutBufferSize : Nat)

def transferCacheToMram (stdout : Stdout) : Stdout :=
  let written := { stdout with buffer := blit stdout.cache 0 stdout.buffer stdout.wp STDOUT_CACHE_BUFFER_SIZE }
  if stdoutBufferSize ≤ stdout.wp + STDOUT_CACHE_BUFFER_SIZE then
    { written with wp := 0, hasWrapped := true, nrOfWrapping := stdout.nrOfWrapping + 1 }
  else { written with wp := stdout.wp + STDOUT_CACHE_BUFFER_SIZE }

def writeByteAndFlushIfNeeded (stdout : Stdout) (byte : Byte) : Stdout :=
  let cached :=
    { stdout with
      cache := Function.update stdout.cache stdout.cacheWriteIndex byte
      cacheWriteIndex := stdout.cacheWriteIndex + 1 }
  if cached.cacheWriteIndex = STDOUT_CACHE_BUFFER_SIZE then
    { transferCacheToMram stdoutBufferSize cached with cacheWriteIndex := 0 }
  else cached

/-- `initial` is the write pointer when the sequence was opened. The fault that
an output too large for the buffer raises stops the DPU. -/
def finalizedPrintSequence (initial : Nat) (stdout : Stdout) : Option Stdout :=
  let completed :=
    { stdout with
      cache := blit (fun _ => 0) 0 stdout.cache stdout.cacheWriteIndex
        (STDOUT_CACHE_BUFFER_SIZE - stdout.cacheWriteIndex) }
  let transferred := transferCacheToMram stdoutBufferSize completed
  if 1 < transferred.nrOfWrapping ∨ transferred.nrOfWrapping = 1 ∧ initial < transferred.wp then none
  else some transferred

def openPrintSequence (stdout : Stdout) : Stdout :=
  { stdout with cacheWriteIndex := 0, nrOfWrapping := 0 }

def printf (stdout : Stdout) (call : PrintfCall) : Option Stdout := do
  let bytes ← printfBytes call
  let opened := openPrintSequence stdout
  finalizedPrintSequence stdoutBufferSize opened.wp
    (bytes.foldl (writeByteAndFlushIfNeeded stdoutBufferSize) opened)

/-- The bytes as they are stored: zeros complete the last double word, eight of
them when it is complete. -/
def padded (bytes : List Byte) : List Byte :=
  bytes ++ List.replicate (STDOUT_CACHE_BUFFER_SIZE - bytes.length % STDOUT_CACHE_BUFFER_SIZE) 0

end Stdout

end Upmem.Log
