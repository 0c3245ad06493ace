import Mathlib.Data.List.Basic

namespace Upmem.PropertyList

/-- The bytes of a C string, without its NUL. -/
abbrev Text := List Char

/-- `struct _dpu_properties_property`. -/
structure Property where
  name : Text
  value : Text
  used : Bool
  deriving DecidableEq

/-- `dpu_properties_t`. -/
abbrev Properties := List Property

def lookupForPropertyCalled (properties : Properties) (name : Text) : Option Property :=
  properties.find? fun property => property.name = name

/-- `update_properties`, of the first property with the name. -/
def updateProperties (name value : Text) : Properties → Properties
  | [] => []
  | property :: rest =>
    if property.name = name then { property with value := value } :: rest
      else property :: updateProperties name value rest

/-- `add_properties`, when memory is available. -/
def addProperties (properties : Properties) (name value : Text) : Properties :=
  properties ++ [⟨name, value, false⟩]

def dpuPropertiesAdd (properties : Properties) (name value : Text) : Properties :=
  match lookupForPropertyCalled properties name with
  | some _ => updateProperties name value properties
  | none => addProperties properties name value

/-- `dpu_properties_get`. The property is marked as used. -/
def dpuPropertiesGet (properties : Properties) (name : Text) : Option Text × Properties :=
  match lookupForPropertyCalled properties name with
  | none => (none, properties)
  | some property =>
    (some property.value, properties.map fun each => if each.name = name then { each with used := true } else each)

/-- `strchr`: how far the first occurrence is. -/
def strchr (text : Text) (c : Char) : Option Nat := text.findIdx? fun each => each = c

def PROPERTY_SEPARATOR_CHARACTER : Char := ','

def LEGACY_PROPERTY_SEPARATOR_CHARACTER : Char := '&'

/-- The separator that is nearer. -/
def propertySeparator (text : Text) : Option Nat :=
  match strchr text PROPERTY_SEPARATOR_CHARACTER, strchr text LEGACY_PROPERTY_SEPARATOR_CHARACTER with
  | none, legacy => legacy
  | some separator, none => some separator
  | some separator, some legacy => if legacy < separator then some legacy else some separator

/-- What `try_load_properties_from_profile` does with the text up to a separator. -/
def loadSegment (segment : Text) (properties : Properties) : Option Properties :=
  (strchr segment '=').map fun equal => dpuPropertiesAdd properties (segment.take equal) (segment.drop (equal + 1))

theorem propertySeparator_lt {text : Text} {separator : Nat} (found : propertySeparator text = some separator) :
    separator < text.length := by
  have inside {c : Char} {place : Nat} (there : strchr text c = some place) : place < text.length :=
    (List.findIdx?_eq_some_iff_getElem.mp there).1
  unfold propertySeparator at found
  split at found
  · exact inside found
  · next there _ => exact Option.some.inj found ▸ inside there
  · next there legacy =>
    split_ifs at found
    · exact Option.some.inj found ▸ inside legacy
    · exact Option.some.inj found ▸ inside there

/-- The loop of `try_load_properties_from_profile`: the result, and the properties at its end. -/
def loadSegments (text : Text) (properties : Properties) : Bool × Properties :=
  match _found : propertySeparator text with
  | some separator =>
    match loadSegment (text.take separator) properties with
    | none => (false, properties)
    | some properties => loadSegments (text.drop (separator + 1)) properties
  | none =>
    match loadSegment text properties with
    | none => (false, properties)
    | some properties => (true, properties)
termination_by text.length
decreasing_by
  have inside := propertySeparator_lt ‹_›
  rw [List.length_drop]
  omega

def tryLoadPropertiesFromProfile (text : Text) (properties : Properties) : Bool × Properties :=
  if text = [] then (true, properties) else loadSegments text properties

/-- `dpu_profile_concat3`, where none is `NULL`. -/
def dpuProfileConcat3 (first second third : Option Text) : Text :=
  let firstProfile := first.getD []
  let secondProfile := second.getD []
  let thirdProfile := third.getD []
  let firstSeparatorNeeded := firstProfile ≠ [] ∧ secondProfile ≠ []
  let secondSeparatorNeeded := thirdProfile ≠ [] ∧ (firstProfile ≠ [] ∨ secondProfile ≠ [])
  firstProfile ++ (if firstSeparatorNeeded then [PROPERTY_SEPARATOR_CHARACTER] else []) ++ secondProfile ++
    (if secondSeparatorNeeded then [PROPERTY_SEPARATOR_CHARACTER] else []) ++ thirdProfile

section Get
variable {properties : Properties} {name other value : Text}

/-- What the properties give for a name. -/
def valueOf (properties : Properties) (name : Text) : Option Text := (dpuPropertiesGet properties name).1

theorem valueOf_eq (properties : Properties) (name : Text) :
    valueOf properties name = (lookupForPropertyCalled properties name).map Property.value := by
  unfold valueOf dpuPropertiesGet
  cases lookupForPropertyCalled properties name <;> rfl

theorem lookup_update (there : (lookupForPropertyCalled properties name).isSome) :
    (lookupForPropertyCalled (updateProperties name value properties) other).map Property.value =
      if other = name then some value else (lookupForPropertyCalled properties other).map Property.value := by
  induction properties with
  | nil => cases there
  | cons property rest ih =>
    unfold lookupForPropertyCalled at *
    rw [updateProperties]
    by_cases here : property.name = name
    · by_cases same : other = name
      · simp [here, same]
      · have differ : ¬name = other := fun equal => same equal.symm
        simp [here, same, differ]
    · rw [if_neg here]
      simp only [List.find?_cons, decide_eq_false here] at there ⊢
      by_cases found : property.name = other
      · have differ : ¬other = name := fun equal => here (found.trans equal)
        simp [found, differ]
      · simpa [found] using ih there

/-- Adding a property overrides the value of its name alone. -/
theorem valueOf_add : valueOf (dpuPropertiesAdd properties name value) other =
    if other = name then some value else valueOf properties other := by
  rw [valueOf_eq, valueOf_eq, dpuPropertiesAdd]
  cases found : lookupForPropertyCalled properties name with
  | some property => exact lookup_update (by rw [found]; rfl)
  | none =>
    simp only [addProperties]
    unfold lookupForPropertyCalled at *
    rw [List.find?_append]
    by_cases same : other = name
    · subst same
      simp [found]
    · have differ : ¬name = other := fun equal => same equal.symm
      simp [same, differ]

end Get

def isSeparator (c : Char) : Bool := c = PROPERTY_SEPARATOR_CHARACTER ∨ c = LEGACY_PROPERTY_SEPARATOR_CHARACTER

/-- The pieces of a profile between the separators. -/
noncomputable def segments (text : Text) : List Text := text.splitOnP isSeparator

/-- The text before the first `=`. -/
def nameOf (segment : Text) : Text := segment.takeWhile fun c => c ≠ '='

/-- The text after it. -/
def textAfter (segment : Text) : Text := (segment.dropWhile fun c => c ≠ '=').tail

/-- What the last segment with a name gives for it. -/
def lastValue (name : Text) : List Text → Option Text
  | [] => none
  | segment :: rest => (lastValue name rest).or (if nameOf segment = name then some (textAfter segment) else none)

/-- The segments loaded one after another, up to the first that is refused. -/
def loadAll : List Text → Properties → Bool × Properties
  | [], properties => (true, properties)
  | segment :: rest, properties =>
    match loadSegment segment properties with
    | none => (false, properties)
    | some properties => loadAll rest properties

section Segments
variable {properties : Properties} {text segment name : Text}

theorem propertySeparator_eq (text : Text) : propertySeparator text = text.findIdx? isSeparator := by
  induction text with
  | nil => rfl
  | cons c rest ih =>
    unfold propertySeparator strchr at ih ⊢
    simp only [List.findIdx?_cons]
    rw [← ih]
    by_cases comma : c = PROPERTY_SEPARATOR_CHARACTER
    · have other : ¬c = LEGACY_PROPERTY_SEPARATOR_CHARACTER := by rw [comma]; decide
      have separates : isSeparator c = true := decide_eq_true (.inl comma)
      rw [if_pos separates]
      simp only [comma, decide_true, if_true]
      cases List.findIdx? _ rest <;> simp [LEGACY_PROPERTY_SEPARATOR_CHARACTER, PROPERTY_SEPARATOR_CHARACTER]
    by_cases legacy : c = LEGACY_PROPERTY_SEPARATOR_CHARACTER
    · have separates : isSeparator c = true := decide_eq_true (.inr legacy)
      rw [if_pos separates]
      simp only [legacy, decide_true, if_true]
      cases List.findIdx? _ rest <;> simp [LEGACY_PROPERTY_SEPARATOR_CHARACTER, PROPERTY_SEPARATOR_CHARACTER]
    · have separates : isSeparator c = false := decide_eq_false (not_or.mpr ⟨comma, legacy⟩)
      simp only [comma, legacy, decide_false, separates]
      cases List.findIdx? (fun each => decide (each = PROPERTY_SEPARATOR_CHARACTER)) rest <;>
        cases List.findIdx? (fun each => decide (each = LEGACY_PROPERTY_SEPARATOR_CHARACTER)) rest <;> simp
      split_ifs <;> rfl

theorem strchr_equal {k : Nat} (found : strchr segment '=' = some k) :
    segment.take k = nameOf segment ∧ segment.drop (k + 1) = textAfter segment := by
  induction segment generalizing k with
  | nil => cases found
  | cons c rest ih =>
    rw [strchr, List.findIdx?_cons] at found
    by_cases here : c = '='
    · rw [if_pos (decide_eq_true here)] at found
      obtain rfl := Option.some.inj found
      simp [nameOf, textAfter, here]
    · rw [if_neg (by simpa using here)] at found
      obtain ⟨before, there, rfl⟩ := Option.map_eq_some_iff.mp found
      obtain ⟨name, after⟩ := ih there
      refine ⟨?_, ?_⟩
      · rw [List.take_succ_cons, name, nameOf, nameOf, List.takeWhile_cons_of_pos (by simpa using here)]
      · rw [List.drop_succ_cons, after, textAfter, textAfter, List.dropWhile_cons_of_pos (by simpa using here)]

/-- A segment is refused if and only if it has no `=`. -/
theorem loadSegment_eq (segment : Text) (properties : Properties) : loadSegment segment properties =
    if '=' ∈ segment then some (dpuPropertiesAdd properties (nameOf segment) (textAfter segment)) else none := by
  rw [loadSegment]
  split_ifs with there
  · cases found : strchr segment '=' with
    | none => exact absurd (List.findIdx?_eq_none_iff.mp found _ there) (by decide)
    | some k =>
      obtain ⟨name, after⟩ := strchr_equal found
      rw [Option.map_some, name, after]
  · have none : strchr segment '=' = none :=
      List.findIdx?_eq_none_iff.mpr fun c member => decide_eq_false fun same => there (same ▸ member)
    rw [none]
    rfl

theorem segments_of_separator {k : Nat} (found : propertySeparator text = some k) :
    segments text = text.take k :: segments (text.drop (k + 1)) := by
  rw [propertySeparator_eq] at found
  obtain ⟨inside, separates, earlier⟩ := List.findIdx?_eq_some_iff_getElem.mp found
  have parts : text = text.take k ++ text[k] :: text.drop (k + 1) := by
    rw [← List.drop_eq_getElem_cons inside, List.take_append_drop]
  have clean : ∀ c ∈ text.take k, isSeparator c = false := by
    intro c member
    obtain ⟨place, before, rfl⟩ := List.mem_take_iff_getElem.mp member
    exact (Bool.not_eq_true _).mp (earlier place (by omega))
  conv_lhs => rw [segments, parts]
  exact List.splitOnP_append_cons_of_forall_mem clean _ separates _

theorem segments_of_none (none : propertySeparator text = none) : segments text = [text] := by
  rw [propertySeparator_eq] at none
  exact List.splitOnP_eq_singleton (List.findIdx?_eq_none_iff.mp none)

theorem loadSegments_eq (text : Text) (properties : Properties) :
    loadSegments text properties = loadAll (segments text) properties := by
  fun_induction loadSegments text properties with
  | case1 text properties k found refused => rw [segments_of_separator found, loadAll, refused]
  | case2 text properties k found after loaded ih =>
    rw [segments_of_separator found, loadAll, loaded]
    exact ih
  | case3 text properties found refused => rw [segments_of_none found, loadAll, refused]
  | case4 text properties found after loaded =>
    rw [segments_of_none found, loadAll, loaded]
    rfl

theorem loadAll_succeeds (all : List Text) (properties : Properties) :
    (loadAll all properties).1 = true ↔ ∀ segment ∈ all, '=' ∈ segment := by
  induction all generalizing properties with
  | nil => simp [loadAll]
  | cons segment rest ih =>
    rw [loadAll, loadSegment_eq, List.forall_mem_cons]
    by_cases equal : '=' ∈ segment
    · rw [if_pos equal]
      exact (ih _).trans (and_iff_right equal).symm
    · rw [if_neg equal]
      exact iff_of_false Bool.false_ne_true fun both => equal both.1

/-- Each name has what the last of its segments gives, else what it had before. -/
theorem valueOf_loadAll {all : List Text} (accepted : (loadAll all properties).1 = true) :
    valueOf (loadAll all properties).2 name = (lastValue name all).or (valueOf properties name) := by
  induction all generalizing properties with
  | nil => rfl
  | cons segment rest ih =>
    rw [loadAll, loadSegment_eq] at accepted ⊢
    by_cases equal : '=' ∈ segment
    · rw [if_pos equal] at accepted ⊢
      refine (ih accepted).trans ?_
      rw [valueOf_add, lastValue, Option.or_assoc]
      congr 1
      by_cases same : name = nameOf segment
      · rw [if_pos same, if_pos same.symm]
        rfl
      · rw [if_neg same, if_neg (Ne.symm same)]
        rfl
    · rw [if_neg equal] at accepted
      cases accepted

theorem lastValue_append (name : Text) (first second : List Text) :
    lastValue name (first ++ second) = (lastValue name second).or (lastValue name first) := by
  induction first with
  | nil => exact Option.or_none.symm
  | cons segment rest ih => rw [List.cons_append, lastValue, lastValue, ih, Option.or_assoc]

/-- The segments that are loaded: none of the empty text. -/
noncomputable def parts (text : Text) : List Text := if text = [] then [] else segments text

theorem tryLoad_eq (text : Text) (properties : Properties) :
    tryLoadPropertiesFromProfile text properties = loadAll (parts text) properties := by
  rw [tryLoadPropertiesFromProfile, parts]
  split_ifs
  · rfl
  · exact loadSegments_eq text properties

theorem parts_separated {first second : Text} (left : first ≠ []) (right : second ≠ []) :
    parts (first ++ PROPERTY_SEPARATOR_CHARACTER :: second) = parts first ++ parts second := by
  rw [parts, parts, parts, if_neg left, if_neg right, if_neg (by simp)]
  exact List.splitOnP_append_cons _ _ (by decide)

theorem parts_concat3 (first second third : Option Text) : parts (dpuProfileConcat3 first second third) =
    parts (first.getD []) ++ parts (second.getD []) ++ parts (third.getD []) := by
  have empty : parts [] = [] := if_pos rfl
  unfold dpuProfileConcat3
  simp only
  by_cases one : first.getD [] = [] <;> by_cases two : second.getD [] = [] <;> by_cases three :
    third.getD [] = [] <;>
    simp [one, two, three, empty, parts_separated]

end Segments

/-- A profile that can be loaded. -/
def Accepted (profile : Text) : Prop := (tryLoadPropertiesFromProfile profile []).1 = true

/-- The properties of a profile. -/
def propertiesOf (profile : Text) : Properties := (tryLoadPropertiesFromProfile profile []).2

/-- A profile is loaded if and only if all of its segments have a `=`, a name then has what the last of its segments
gives, and in the concatenation of three profiles those of a later one override those of an earlier one. -/
theorem tryLoad_profile :
    (∀ text ≠ [], (Accepted text ↔ ∀ segment ∈ segments text, '=' ∈ segment) ∧
      (Accepted text → ∀ name, valueOf (propertiesOf text) name = lastValue name (segments text))) ∧
    ∀ first second third : Option Text, Accepted (first.getD []) → Accepted (second.getD []) →
      Accepted (third.getD []) → Accepted (dpuProfileConcat3 first second third) ∧
        ∀ name, valueOf (propertiesOf (dpuProfileConcat3 first second third)) name =
          ((valueOf (propertiesOf (third.getD [])) name).or (valueOf (propertiesOf (second.getD [])) name)).or
            (valueOf (propertiesOf (first.getD [])) name) := by
  have given (text : Text) (accepted : Accepted text) (name : Text) :
      valueOf (propertiesOf text) name = lastValue name (parts text) := by
    unfold Accepted propertiesOf at *
    rw [tryLoad_eq] at accepted ⊢
    rw [valueOf_loadAll accepted]
    exact Option.or_none
  have accepted_iff (text : Text) : Accepted text ↔ ∀ segment ∈ parts text, '=' ∈ segment := by
    rw [Accepted, tryLoad_eq, loadAll_succeeds]
  refine ⟨fun text nonempty => ?_, fun first second third one two three => ?_⟩
  · have whole : parts text = segments text := if_neg nonempty
    rw [← whole]
    exact ⟨accepted_iff text, given text⟩
  · have concatenated : Accepted (dpuProfileConcat3 first second third) := by
      rw [accepted_iff, parts_concat3]
      rw [accepted_iff] at one two three
      simp only [List.mem_append]
      rintro segment ((member | member) | member)
      · exact one segment member
      · exact two segment member
      · exact three segment member
    refine ⟨concatenated, fun name => ?_⟩
    rw [given _ concatenated, given _ one, given _ two, given _ three, parts_concat3, lastValue_append,
      lastValue_append,
      Option.or_assoc]

end Upmem.PropertyList
