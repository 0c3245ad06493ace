import Upmem.StringScan

namespace Upmem.Strings

/-- The loop of `strstr`. A mismatch starts again at the next character of the haystack. -/
def strstrLoop (wram : Wram) (needle : Nat) : (turns : Nat) → Nat → Nat → Nat → Option (Option Nat)
  | 0, _, _, _ => none
  | turns + 1, currentNeedle, startHaystack, currentHaystack =>
    if wram currentNeedle = 0#8 then some (some startHaystack)
    else if wram currentHaystack = wram currentNeedle then
      strstrLoop wram needle turns (currentNeedle + 1) startHaystack (currentHaystack + 1)
    else if wram currentHaystack = 0#8 then some none
    else strstrLoop wram needle turns needle (startHaystack + 1) (startHaystack + 1)

def strstr (wram : Wram) (haystack needle turns : Nat) : Option (Option Nat) :=
  strstrLoop wram needle turns needle haystack haystack

/-- `strcmp`, with the characters unsigned. -/
def strcmp (wram : Wram) (string1 string2 : Nat) : (turns : Nat) → Option Int
  | 0 => none
  | turns + 1 =>
    let c1 := ((wram string1).toNat : Int)
    let c2 := ((wram string2).toNat : Int)
    if wram string1 = 0#8 then some (c1 - c2)
    else if c1 - c2 ≠ 0 then some (c1 - c2)
    else strcmp wram (string1 + 1) (string2 + 1) turns

/-- The pointer to the first occurrence, or `NULL` where there is none. -/
def First (pattern text : Text) (start : Nat) (result : Option Nat) : Prop :=
  result = none ∧ ¬ pattern <:+: text ∨
    ∃ before after, text = before ++ pattern ++ after ∧ result = some (start + before.length) ∧
      ∀ i < before.length, ¬ pattern <+: text.drop i

variable {wram : Wram} {needle haystack start turns : Nat} {pattern matched left text : Text} {c : BitVec 8}

/-- An occurrence behind a character at which there is none. -/
theorem First.cons {result : Option Nat} (first : First pattern text (start + 1) result)
    (none_ : ¬ pattern <+: c :: text) : First pattern (c :: text) start result := by
  obtain ⟨null, absent⟩ | ⟨before, after, rfl, found, earlier⟩ := first
  · refine .inl ⟨null, fun occurs => ?_⟩
    obtain here | later := List.infix_cons_iff.mp occurs
    · exact none_ here
    · exact absent later
  · refine .inr ⟨c :: before, after, rfl, ?_, fun i below => ?_⟩
    · rw [found, List.length_cons, Nat.add_assoc, Nat.add_comm 1]
    · cases i with
      | zero => exact none_
      | succ i => exact earlier i (Nat.lt_of_succ_lt_succ below)

theorem strstrLoop_first (needles : Spells wram needle pattern) (split_ : pattern = matched ++ left)
    (spells : Spells wram start (matched ++ text))
    (enough : (matched ++ text).length * (pattern.length + 1) + left.length < turns) :
    ∃ result, strstrLoop wram needle turns (needle + matched.length) start (start + matched.length) = some result ∧
      First pattern (matched ++ text) start result := by
  induction turns generalizing matched left start text with
  | zero => exact absurd enough (Nat.not_lt_zero _)
  | succ turns ih =>
    have atNeedle := (split_ ▸ needles).at_end
    have atHaystack := spells.at_end
    rw [strstrLoop, atNeedle, atHaystack]
    cases left with
    | nil =>
      rw [List.append_nil] at split_
      subst split_
      exact ⟨some start, rfl, .inr ⟨[], text, by simp, rfl, fun i below => absurd below (Nat.not_lt_zero i)⟩⟩
    | cons c left =>
      have nonzero := (split_ ▸ needles).drop.2.1
      rw [List.head?_cons, Option.getD_some, if_neg nonzero]
      by_cases same : text.head?.getD 0#8 = c
      · rw [if_pos same]
        cases text with
        | nil => exact absurd same.symm nonzero
        | cons d text =>
          obtain rfl : d = c := same
          have whole : matched ++ d :: text = matched ++ [d] ++ text := by simp
          have next := @ih start (matched ++ [d]) left text (by simpa using split_) (whole ▸ spells) (by
            rw [whole, List.length_cons] at enough
            omega)
          rwa [← whole, List.length_append, List.length_singleton, ← Nat.add_assoc, ← Nat.add_assoc] at next
      · rw [if_neg same]
        have absent : ¬ pattern <+: matched ++ text := by
          rw [split_, List.prefix_append_right_inj]
          rintro ⟨after, rfl⟩
          exact same rfl
        cases text with
        | nil =>
          refine ⟨none, if_pos rfl, .inl ⟨rfl, fun occurs => ?_⟩⟩
          have length := occurs.length_le
          rw [split_, List.length_append, List.length_append, List.length_cons, List.length_nil] at length
          omega
        | cons d text =>
          have goesOn : (d :: text).head?.getD 0#8 ≠ 0#8 := spells.drop.2.1
          have nonempty : matched ++ d :: text ≠ [] :=
            List.append_ne_nil_of_right_ne_nil matched (List.cons_ne_nil d text)
          obtain ⟨first, rest, whole⟩ := List.exists_cons_of_ne_nil nonempty
          rw [if_neg goesOn]
          rw [whole] at spells absent enough ⊢
          rw [List.length_cons, Nat.add_mul, Nat.one_mul] at enough
          obtain ⟨result, returned, found⟩ := @ih (start + 1) [] pattern rest rfl spells.2.2 (by
            rw [List.nil_append]
            omega)
          exact ⟨result, returned, found.cons absent⟩

/-- `strstr` ends, and it returns the first occurrence. -/
theorem strstr_first (needles : Spells wram needle pattern) (spells : Spells wram haystack text)
    (enough : (text.length + 1) * (pattern.length + 1) ≤ turns) :
    ∃ result, strstr wram haystack needle turns = some result ∧ First pattern text haystack result := by
  refine @strstrLoop_first wram needle haystack turns pattern [] pattern text needles rfl spells ?_
  rw [List.nil_append]
  rw [Nat.add_mul] at enough
  omega

theorem strstr_first_ab :
    ∃ result, strstr (fun a => [97#8, 97#8, 98#8, 0#8, 97#8, 98#8].getD a 0#8) 0 4 12 = some result ∧
    First [97#8, 98#8] [97#8, 97#8, 98#8] 0 result :=
  @strstr_first (fun a => [97#8, 97#8, 98#8, 0#8, 97#8, 98#8].getD a 0#8) 4 0 12 [97#8, 98#8] [97#8, 97#8, 98#8]
    ⟨rfl, by decide, rfl, by decide, rfl⟩ ⟨rfl, by decide, rfl, by decide, rfl, by decide, rfl⟩ (by decide)

/-- The sign of the result is the order of the texts. -/
theorem strcmp_order {string1 string2 : Nat} {text1 text2 : Text} (spells1 : Spells wram string1 text1)
    (spells2 : Spells wram string2 text2) (enough : text1.length < turns) :
    ∃ result, strcmp wram string1 string2 turns = some result ∧ (result < 0 ↔ text1 < text2) ∧
      (result = 0 ↔ text1 = text2) ∧ (0 < result ↔ text2 < text1) := by
  induction turns generalizing string1 string2 text1 text2 with
  | zero => exact absurd enough (Nat.not_lt_zero _)
  | succ turns ih =>
    unfold strcmp
    dsimp only
    cases text1 with
    | nil =>
      have end1 : wram string1 = 0#8 := spells1
      rw [if_pos end1, end1]
      refine ⟨_, rfl, ?_⟩
      cases text2 with
      | nil =>
        have end2 : wram string2 = 0#8 := spells2
        rw [end2]
        simp
      | cons d text2 =>
        have positive : (wram string2).toNat ≠ 0 := spells2.1 ▸ BitVec.toNat_ne_iff_ne.mpr spells2.2.1
        have zero : (0#8).toNat = 0 := rfl
        refine ⟨iff_of_true ?_ (List.nil_lt_cons d text2), iff_of_false ?_ (List.cons_ne_nil d text2).symm,
          iff_of_false ?_ (List.not_lt_nil _)⟩
        all_goals omega
    | cons c text1 =>
      rw [spells1.1, if_neg spells1.2.1]
      cases text2 with
      | nil =>
        have end2 : wram string2 = 0#8 := spells2
        have zero : (0#8).toNat = 0 := rfl
        have positive : c.toNat ≠ 0 := BitVec.toNat_ne_iff_ne.mpr spells1.2.1
        rw [end2, if_pos (by omega)]
        refine ⟨_, rfl, iff_of_false ?_ (List.not_lt_nil _), iff_of_false ?_ (List.cons_ne_nil c text1),
          iff_of_true ?_ (List.nil_lt_cons c text1)⟩
        all_goals omega
      | cons d text2 =>
        rw [spells2.1]
        by_cases same : c = d
        · subst same
          rw [if_neg (by omega)]
          obtain ⟨result, returned, less, equal, greater⟩ :=
            ih spells1.2.2 spells2.2.2 (Nat.lt_of_succ_lt_succ enough)
          refine ⟨result, returned, ?_⟩
          rw [less, equal, greater]
          simp
        · have differ : c.toNat ≠ d.toNat := BitVec.toNat_ne_iff_ne.mpr same
          rw [if_pos (by omega)]
          refine ⟨_, rfl, ?_⟩
          simp only [List.cons_lt_cons_iff, List.cons.injEq, same, Ne.symm same, false_and, or_false,
            iff_false, BitVec.lt_def]
          omega

theorem strcmp_order_ab : ∃ result, strcmp (fun a => [97#8, 0#8, 98#8, 0#8].getD a 0#8) 0 2 2 = some result ∧
    (result < 0 ↔ [97#8] < [98#8]) ∧ (result = 0 ↔ [97#8] = [98#8]) ∧ (0 < result ↔ [98#8] < [97#8]) :=
  @strcmp_order (fun a => [97#8, 0#8, 98#8, 0#8].getD a 0#8) 2 0 2 [97#8] [98#8]
    ⟨rfl, by decide, rfl⟩ ⟨rfl, by decide, rfl⟩ (by decide)

end Upmem.Strings
