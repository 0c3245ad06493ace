import Mathlib.Data.BitVec

namespace Upmem

/-- The properties of a profile that the allocation of a rank fetches. -/
inductive Property
  | backend | enableProfiling | profilingDpuId | profilingSliceId | mcountAddress | retMcountAddress
  | threadProfilingAddress | disabledMask | disableSafeChecks | disableMuxSwitch | disableResetOnAlloc
  | cmdsBufferSize | nrThreadsPerRank | nrJobsPerRank
  deriving DecidableEq

/-- `dpu_properties_t`: the value of each property the profile gives. -/
abbrev Properties := Property → Option String

def digitValue (c : Char) : Option Nat :=
  if '0' ≤ c ∧ c ≤ '9' then some (c.toNat - 48)
  else if 'a' ≤ c ∧ c ≤ 'z' then some (c.toNat - 87)
  else if 'A' ≤ c ∧ c ≤ 'Z' then some (c.toNat - 55)
  else none

def isDigit (base : Nat) (c : Char) : Bool :=
  match digitValue c with
  | some digit => decide (digit < base)
  | none => false

/-- The base that a number shows by its prefix, and its digits. -/
def detectBase : List Char → Nat × List Char
  | '0' :: x :: digit :: rest =>
    if (x = 'x' ∨ x = 'X') ∧ isDigit 16 digit = true then (16, digit :: rest) else (8, '0' :: x :: digit :: rest)
  | '0' :: rest => (8, '0' :: rest)
  | text => (10, text)

/-- The whole text as an integer in the notation of `strtol` with base 0, or
none when a character is left over. -/
def readInteger (text : List Char) : Option Int :=
  let (negative, unsigned) := match text with
    | '-' :: rest => (true, rest)
    | '+' :: rest => (false, rest)
    | text => (false, text)
  let (base, digits) := detectBase unsigned
  if digits = [] ∨ digits.any (fun c => !isDigit base c) then none
  else
    let value := digits.foldl (fun value c => value * base + (digitValue c).getD 0) 0
    some (if negative then -value else value)

def isSpace (c : Char) : Bool :=
  c = ' ' || ('\t' ≤ c && c ≤ '\r')

def fetchIntegerProperty (properties : Properties) (name : Property) (defaultValue : BitVec 32) :
    Option (BitVec 32) :=
  match properties name with
  | none => some defaultValue
  | some valueString =>
    match valueString.toList with
    | [] => none
    | first :: rest =>
      if isSpace first then none
      else
        match readInteger (first :: rest) with
        | none => none
        | some parsed => if parsed > 2 ^ 32 - 1 ∨ parsed < -2 ^ 63 then none else some (BitVec.ofInt 32 parsed)

def fetchLongProperty (properties : Properties) (name : Property) (defaultValue : BitVec 64) : Option (BitVec 64) :=
  match properties name with
  | none => some defaultValue
  | some valueString =>
    match valueString.toList with
    | [] => none
    | first :: rest =>
      if isSpace first then none
      else
        match readInteger (first :: rest) with
        | none => none
        | some parsed => if parsed.natAbs > 2 ^ 64 - 1 then none else some (BitVec.ofInt 64 parsed)

/-- `strcasecmp` finds no difference. -/
def equalsIgnoringCase (text other : String) : Bool :=
  text.toList.map Char.toLower = other.toList.map Char.toLower

/-- Every text is the value of some boolean property, so that the fetch never fails. -/
def fetchBooleanProperty (properties : Properties) (name : Property) (defaultValue : Bool) : Bool :=
  match properties name with
  | none => defaultValue
  | some valueString => !equalsIgnoringCase "false" valueString && !equalsIgnoringCase "0" valueString

/-- The fetch of a text copies it, which fails when `malloc` does. -/
def fetchStringProperty (copied : Property → Bool) (properties : Properties) (name : Property) :
    Option (Option String) :=
  match properties name with
  | none => some none
  | some valueString => if copied name then some (some valueString) else none

theorem fetchStringProperty_eq_some {copied : Property → Bool} {properties : Properties} {name : Property}
    {value : Option String} :
    fetchStringProperty copied properties name = some value ↔
      properties name = value ∧ (value.isSome = true → copied name = true) := by
  unfold fetchStringProperty
  cases given : properties name with
  | none => cases value <;> simp
  | some text => cases copied name <;> cases value <;> simp

/-- The fetch fails exactly for a given text that finds no memory. -/
theorem fetchStringProperty_isSome {copied : Property → Bool} {properties : Properties} {name : Property} :
    (fetchStringProperty copied properties name).isSome = true ↔
      ((properties name).isSome = true → copied name = true) := by
  unfold fetchStringProperty
  cases properties name with
  | none => simp
  | some text => cases copied name <;> simp

end Upmem
