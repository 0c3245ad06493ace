import Upmem.PropertyList
import Mathlib.Data.List.DropRight

namespace Upmem.PropertyList

def isspace (c : Char) : Bool := c = ' ' || ('\t' ≤ c && c ≤ '\r')

def isprint (c : Char) : Bool := ' ' ≤ c && c ≤ '~'

/-- `trim_string`. The loop that takes characters off the end stops before the first one. -/
def trimString (input : Text) : Text :=
  match (input.dropWhile fun c => !(isprint c && !isspace c)).filter isprint with
  | [] => []
  | first :: rest => first :: rest.rdropWhile fun c => isspace c || !isprint c

/-- Where the assignment of a line begins and how far its `=` is from there, if the line
is not blank and no comment. -/
def findAssignment (line : Text) : Option (Nat × Nat) :=
  let beginingOfLine := (line.takeWhile fun c => isspace c || !isprint c).length
  let rest := line.drop beginingOfLine
  if rest = [] ∨ rest.take 2 = ['/', '/'] then none
  else (strchr rest '=').map fun sep => (beginingOfLine, sep)

/-- The property that a line assigns. -/
def assignment (line : Text) : Option (Text × Text) :=
  match findAssignment line with
  | none => none
  | some (beginingOfLine, sep) =>
    let propertyName := trimString ((line.drop beginingOfLine).take sep)
    let propertyValue := trimString (line.drop (beginingOfLine + sep + 1))
    if propertyName ≠ [] ∧ propertyValue ≠ [] then some (propertyName, propertyValue) else none

/-- The bytes from an address to the next NUL. -/
def stringAt (buffer : Text) (place : Nat) : Text := (buffer.drop place).takeWhile fun c => c ≠ '\x00'

/-- `decode_properties_line` of the string at a place of a buffer, when memory is
available. The line is cut at its `=`. -/
def decodePropertiesLine (buffer : Text) (line : Nat) (properties : Properties) : Bool × Text × Properties :=
  match findAssignment (stringAt buffer line) with
  | none => (true, buffer, properties)
  | some (beginingOfLine, sep) =>
    (true, buffer.set (line + beginingOfLine + sep) '\x00',
      match assignment (stringAt buffer line) with
      | none => properties
      | some (propertyName, propertyValue) => dpuPropertiesAdd properties propertyName propertyValue)

/-- The loop of `try_load_properties_from_text`, for a number of turns: the separator stays where it is. -/
def textLoop (sep : Option Nat) : Nat → Bool → Text → Nat → Properties → Option (Bool × Properties)
  | 0, _, _, _, _ => none
  | turns + 1, status, buffer, next, properties =>
    match status, sep with
    | true, some sep =>
      let (status, buffer, properties) := decodePropertiesLine (buffer.set sep '\x00') next properties
      textLoop (some sep) turns status buffer (sep + 1) properties
    | _, _ => some (status, properties)

def tryLoadPropertiesFromText (turns : Nat) (text : Text) (properties : Properties) : Option (Bool × Properties) :=
  textLoop (strchr (stringAt text 0) '\n') turns true text 0 properties

/-- `dpu_properties_load_from_string`: what it returns within a number of turns. -/
def dpuPropertiesLoadFromString (turns : Nat) (config : Option Text) : Option (Option Properties) :=
  match config with
  | none => some (some [])
  | some text =>
    (tryLoadPropertiesFromText turns text []).map fun (status, properties) =>
      if status then some properties else none

/-- The properties after a line has been decoded on its own. -/
def decodeLine (properties : Properties) (line : Text) : Properties := (decodePropertiesLine line 0 properties).2.2

section Lines
variable {text : Text} {properties : Properties}

theorem decodePropertiesLine_status (buffer : Text) (line : Nat) (properties : Properties) :
    (decodePropertiesLine buffer line properties).1 = true := by
  rw [decodePropertiesLine]
  split <;> rfl

/-- With a newline the loop goes on for ever. -/
theorem textLoop_endless (sep turns : Nat) (buffer : Text) (next : Nat) (properties : Properties) :
    textLoop (some sep) turns true buffer next properties = none := by
  induction turns generalizing buffer next properties with
  | zero => rfl
  | succ turns ih =>
    rw [textLoop]
    simp only
    rw [decodePropertiesLine_status]
    exact ih _ _ _

/-- Without one nothing is decoded. -/
theorem textLoop_none (turns : Nat) (status : Bool) (buffer : Text) (next : Nat) (properties : Properties) :
    textLoop none (turns + 1) status buffer next properties = some (status, properties) := by
  cases status <;> rfl

theorem dpuPropertiesAdd_ne_nil (properties : Properties) (name value : Text) :
    dpuPropertiesAdd properties name value ≠ [] := by
  intro empty
  have there := @valueOf_add properties name name value
  rw [empty, if_pos rfl] at there
  cases there

theorem decodeLine_eq (clean : '\x00' ∉ text) (properties : Properties) : decodeLine properties text =
    match assignment text with
    | none => properties
    | some (propertyName, propertyValue) => dpuPropertiesAdd properties propertyName propertyValue := by
  have whole : stringAt text 0 = text := by
    rw [stringAt, List.drop_zero, List.takeWhile_eq_self_iff]
    exact fun c member => decide_eq_true fun same => clean (same ▸ member)
  rw [decodeLine, decodePropertiesLine, whole]
  cases found : findAssignment text with
  | none => simp [assignment, found]
  | some place => rfl

/-- A text is loaded as its lines are if and only if it is a single line that assigns nothing, with no newline. -/
theorem loadFromString_iff (text : Text) (clean : '\x00' ∉ text) :
    (∃ turns,
      dpuPropertiesLoadFromString turns (some text) = some (some ((text.splitOn '\n').foldl decodeLine []))) ↔
      '\n' ∉ text ∧ assignment text = none := by
  have whole : stringAt text 0 = text := by
    rw [stringAt, List.drop_zero, List.takeWhile_eq_self_iff]
    exact fun c member => decide_eq_true fun same => clean (same ▸ member)
  unfold dpuPropertiesLoadFromString tryLoadPropertiesFromText
  simp only [whole]
  by_cases newline : '\n' ∈ text
  · refine iff_of_false ?_ fun both => both.1 newline
    rintro ⟨turns, returns⟩
    obtain ⟨sep, found⟩ : ∃ sep, strchr text '\n' = some sep := by
      rw [← Option.isSome_iff_exists, strchr, List.findIdx?_isSome, List.any_eq_true]
      exact ⟨_, newline, decide_eq_true rfl⟩
    rw [found, textLoop_endless] at returns
    cases returns
  · have none : strchr text '\n' = none :=
      List.findIdx?_eq_none_iff.mpr fun c member => decide_eq_false fun same => newline (same ▸ member)
    rw [none, List.splitOn_eq_singleton newline, List.foldl_cons, List.foldl_nil, decodeLine_eq clean,
      and_iff_right newline]
    constructor
    · rintro ⟨turns, returns⟩
      cases turns with
      | zero => cases returns
      | succ turns =>
        rw [textLoop_none] at returns
        cases assigned : assignment text with
        | none => rfl
        | some property =>
          rw [assigned] at returns
          exact absurd (Option.some.inj (Option.some.inj returns)).symm (dpuPropertiesAdd_ne_nil _ _ _)
    · intro nothing
      refine ⟨1, ?_⟩
      rw [nothing, textLoop_none]
      rfl

/-- A line with a name and no value. -/
theorem loadFromString_noValue : ∃ turns, dpuPropertiesLoadFromString turns (some "\t mramWipe =  ".toList) =
    some (some (("\t mramWipe =  ".toList.splitOn '\n').foldl decodeLine [])) :=
  (loadFromString_iff "\t mramWipe =  ".toList (by decide)).mpr ⟨by decide, by decide⟩

theorem loadFromString_two_lines : ¬∃ turns, dpuPropertiesLoadFromString turns (some "a=1\nb=2\n".toList) =
    some (some (("a=1\nb=2\n".toList.splitOn '\n').foldl decodeLine [])) := by
  rintro ⟨turns, returns⟩
  have found : strchr (stringAt "a=1\nb=2\n".toList 0) '\n' = some 3 := by decide
  rw [dpuPropertiesLoadFromString, tryLoadPropertiesFromText, found, textLoop_endless] at returns
  cases returns

end Lines

end Upmem.PropertyList
