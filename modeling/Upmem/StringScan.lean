import Mathlib

namespace Upmem.Strings

abbrev Wram := Nat → BitVec 8

abbrev Text := List (BitVec 8)

/-- The text that the terminator ends. -/
def Spells (wram : Wram) (string : Nat) : Text → Prop
  | [] => wram string = 0#8
  | c :: text => wram string = c ∧ c ≠ 0#8 ∧ Spells wram (string + 1) text

/-- The inner loop of `strspn`. A loop is given its turns, and `none` is a loop that does not end in them. -/
def accepted (wram : Wram) (c : BitVec 8) (accept : Nat) : (turns : Nat) → Option Bool
  | 0 => none
  | turns + 1 =>
    if c = wram accept then some true
    else if wram accept = 0#8 then some false
    else accepted wram c (accept + 1) turns

/-- The inner loop of `strcspn`. -/
def rejected (wram : Wram) (c : BitVec 8) (reject : Nat) : (turns : Nat) → Option Bool
  | 0 => none
  | turns + 1 =>
    if wram reject = 0#8 then some false
    else if wram reject = c then some true
    else rejected wram c (reject + 1) turns

/-- The outer loop of `strspn` and `strcspn`, which goes on while the inner one returns `goesOn`. -/
def spanLoop (inner : BitVec 8 → Option Bool) (goesOn : Bool) (wram : Wram) (string : Nat) :
    (turns : Nat) → Option Nat
  | 0 => none
  | turns + 1 =>
    if wram string = 0#8 then some 0
    else
      match inner (wram string) with
      | none => none
      | some found => if found = goesOn then (spanLoop inner goesOn wram (string + 1) turns).map (· + 1) else some 0

def strspn (wram : Wram) (string accept turns : Nat) : Option Nat :=
  spanLoop (fun c => accepted wram c accept turns) true wram string turns

def strcspn (wram : Wram) (string reject turns : Nat) : Option Nat :=
  spanLoop (fun c => rejected wram c reject turns) false wram string turns

/-- `none` inside is `NULL`. -/
def strpbrk (wram : Wram) (string accept turns : Nat) : Option (Option Nat) :=
  (strcspn wram string accept turns).map fun length =>
    if wram (string + length) ≠ 0#8 then some (string + length) else none

section Spelling
variable {wram wram' : Wram} {string : Nat} {text before after : Text} {c : BitVec 8}

theorem Spells.drop (spells : Spells wram string (before ++ after)) :
    Spells wram (string + before.length) after := by
  induction before generalizing string with
  | nil => exact spells
  | cons first before ih =>
    rw [List.length_cons, Nat.add_comm before.length, ← Nat.add_assoc]
    exact ih spells.2.2

/-- A text depends on its own bytes. -/
theorem Spells.congr (spells : Spells wram string text)
    (same : ∀ a, string ≤ a → a ≤ string + text.length → wram' a = wram a) : Spells wram' string text := by
  induction text generalizing string with
  | nil => exact (same string (Nat.le_refl _) (Nat.le_refl _)).trans spells
  | cons first text ih =>
    rw [List.length_cons] at same
    refine ⟨(same string (Nat.le_refl _) (by omega)).trans spells.1, spells.2.1, ih spells.2.2 ?_⟩
    exact fun a above below => same a (by omega) (by omega)

/-- A terminator written into a text ends it there. -/
theorem Spells.cut (spells : Spells wram string (before ++ after)) :
    Spells (Function.update wram (string + before.length) 0#8) string before := by
  induction before generalizing string with
  | nil => exact Function.update_self ..
  | cons first before ih =>
    rw [List.length_cons, Nat.add_comm before.length, ← Nat.add_assoc]
    refine ⟨?_, spells.2.1, ih spells.2.2⟩
    rw [Function.update_of_ne (by omega)]
    exact spells.1

/-- The byte at the end of a text that has ended or goes on. -/
theorem Spells.at_end (spells : Spells wram string (before ++ after)) :
    wram (string + before.length) = after.head?.getD 0#8 := by
  have rest := spells.drop
  cases after with
  | nil => exact rest
  | cons c after => exact rest.1

end Spelling

section Scans
variable {wram : Wram} {string set turns : Nat} {text chars : Text} {c : BitVec 8}

theorem accepted_eq (nonzero : c ≠ 0#8) (spells : Spells wram set chars) (enough : chars.length < turns) :
    accepted wram c set turns = some (decide (c ∈ chars)) := by
  induction chars generalizing set turns with
  | nil =>
    obtain ⟨turns, rfl⟩ := Nat.exists_eq_add_one_of_ne_zero (Nat.ne_zero_of_lt enough)
    rw [accepted, spells, if_neg nonzero, if_pos rfl]
    rfl
  | cons first chars ih =>
    obtain ⟨turns, rfl⟩ := Nat.exists_eq_add_one_of_ne_zero (Nat.ne_zero_of_lt enough)
    rw [accepted, spells.1]
    by_cases found : c = first
    · rw [if_pos found, found]
      simp
    · rw [if_neg found, if_neg spells.2.1, ih spells.2.2 (Nat.lt_of_succ_lt_succ enough)]
      simp [found]

theorem rejected_eq (spells : Spells wram set chars) (enough : chars.length < turns) :
    rejected wram c set turns = some (decide (c ∈ chars)) := by
  induction chars generalizing set turns with
  | nil =>
    obtain ⟨turns, rfl⟩ := Nat.exists_eq_add_one_of_ne_zero (Nat.ne_zero_of_lt enough)
    rw [rejected, spells, if_pos rfl]
    rfl
  | cons first chars ih =>
    obtain ⟨turns, rfl⟩ := Nat.exists_eq_add_one_of_ne_zero (Nat.ne_zero_of_lt enough)
    rw [rejected, spells.1, if_neg spells.2.1]
    by_cases found : first = c
    · rw [if_pos found, found]
      simp
    · rw [if_neg found, ih spells.2.2 (Nat.lt_of_succ_lt_succ enough)]
      simp [Ne.symm found]

/-- The outer loop counts the characters that the inner one lets through. -/
theorem spanLoop_eq {inner : BitVec 8 → Option Bool} {goesOn : Bool} {test : BitVec 8 → Bool}
    (spells : Spells wram string text) (enough : text.length < turns)
    (tests : ∀ c, c ≠ 0#8 → ∃ found, inner c = some found ∧ (found = goesOn ↔ test c)) :
    spanLoop inner goesOn wram string turns = some (text.takeWhile test).length := by
  induction text generalizing string turns with
  | nil =>
    obtain ⟨turns, rfl⟩ := Nat.exists_eq_add_one_of_ne_zero (Nat.ne_zero_of_lt enough)
    exact if_pos spells
  | cons first text ih =>
    obtain ⟨turns, rfl⟩ := Nat.exists_eq_add_one_of_ne_zero (Nat.ne_zero_of_lt enough)
    obtain ⟨found, returned, goes⟩ := tests first spells.2.1
    rw [spanLoop, spells.1, if_neg spells.2.1, returned]
    dsimp only
    by_cases through : test first
    · rw [if_pos (goes.mpr through), ih spells.2.2 (Nat.lt_of_succ_lt_succ enough),
        List.takeWhile_cons_of_pos through]
      rfl
    · rw [if_neg (mt goes.mp through), List.takeWhile_cons_of_neg through]
      rfl

theorem strspn_eq (spells : Spells wram string text) (delims : Spells wram set chars)
    (enough : text.length < turns) (enough' : chars.length < turns) :
    strspn wram string set turns = some (text.takeWhile (· ∈ chars)).length := by
  refine spanLoop_eq spells enough fun c nonzero => ⟨_, accepted_eq nonzero delims enough', ?_⟩
  exact Iff.rfl

theorem strcspn_eq (spells : Spells wram string text) (delims : Spells wram set chars)
    (enough : text.length < turns) (enough' : chars.length < turns) :
    strcspn wram string set turns = some (text.takeWhile (· ∉ chars)).length := by
  refine spanLoop_eq spells enough fun c _ => ⟨_, rejected_eq delims enough', ?_⟩
  simp

end Scans

end Upmem.Strings
