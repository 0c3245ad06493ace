import Upmem.Lib.Tokens
import Upmem.StringScan

namespace Upmem.Strings
open Tokens

/-- What a call of `strtok_r` returns and leaves behind. -/
structure StrtokResult where
  result : Option Nat
  wram : Wram
  saveptr : Nat

/-- `strtok_r`. `none` in place of `str` is `NULL`. -/
def strtokR (wram : Wram) (str : Option Nat) (delim saveptr turns : Nat) : Option StrtokResult :=
  let str := str.getD saveptr
  if wram str = 0#8 then some ⟨none, wram, str⟩
  else
    (strspn wram str delim turns).bind fun skipped =>
      let str := str + skipped
      if wram str = 0#8 then some ⟨none, wram, str⟩
      else
        (strcspn wram str delim turns).map fun length =>
          let end_ := str + length
          if wram end_ = 0#8 then ⟨some str, wram, end_⟩
          else ⟨some str, Function.update wram end_ 0#8, end_ + 1⟩

/-- What a call of `strsep` returns and leaves behind. -/
structure StrsepResult where
  result : Option Nat
  wram : Wram
  stringp : Option Nat

def strsep (wram : Wram) (stringp : Option Nat) (delim turns : Nat) : Option StrsepResult :=
  match stringp with
  | none => some ⟨none, wram, none⟩
  | some original =>
    (strpbrk wram original delim turns).map fun delimPtr =>
      match delimPtr with
      | none => ⟨some original, wram, none⟩
      | some delimPtr => ⟨some original, Function.update wram delimPtr 0#8, some (delimPtr + 1)⟩

/-- Calls of a function that goes through a text, each with what the one before it left behind. -/
def calls {Cursor : Type} (call : Wram → Cursor → Option (Option Nat × Wram × Cursor)) :
    (number : Nat) → Wram → Cursor → Option (List (Option Nat) × Wram)
  | 0, wram, _ => some ([], wram)
  | number + 1, wram, cursor =>
    (call wram cursor).bind fun ⟨result, wram, cursor⟩ =>
      (calls call number wram cursor).map fun ⟨results, wram⟩ => (result :: results, wram)

/-- A first call with `str`, and calls with `NULL` after it. -/
def strtokCalls (delim turns number : Nat) (wram : Wram) (str saveptr : Nat) : Option (List (Option Nat) × Wram) :=
  calls (fun wram cursor => (strtokR wram cursor.1 delim cursor.2 turns).map fun after =>
    (after.result, after.wram, none, after.saveptr)) number wram (some str, saveptr)

def strsepCalls (delim turns number : Nat) (wram : Wram) (stringp : Option Nat) :
    Option (List (Option Nat) × Wram) :=
  calls (fun wram stringp => (strsep wram stringp delim turns).map fun after =>
    (after.result, after.wram, after.stringp)) number wram stringp

/-- A returned pointer shows the piece, and `NULL` shows that there is none. -/
def Shows (wram : Wram) : Option Nat → Option Text → Prop := Option.Rel (Spells wram)

/-- Only delimiters are overwritten, with the terminator, and none of them outside the rest of the text. -/
structure Overwrites (chars : Text) (low high : Nat) (wram wram' : Wram) : Prop where
  outside : ∀ a, a < low ∨ high ≤ a → wram' a = wram a
  inside : ∀ a, wram' a ≠ wram a → wram a ∈ chars ∧ wram' a = 0#8

variable {chars : Text} {low mid high : Nat} {wram wram' wram'' : Wram}

theorem Overwrites.refl : Overwrites chars low high wram wram :=
  ⟨fun _ _ => rfl, fun _ changed => absurd rfl changed⟩

theorem Overwrites.trans (first : Overwrites chars low high wram wram')
    (later : Overwrites chars mid high wram' wram'')
    (ordered : low ≤ mid) (gone : ∀ a, mid ≤ a → wram' a = wram a) : Overwrites chars low high wram wram'' := by
  refine ⟨fun a away => ?_, fun a changed => ?_⟩
  · exact (later.outside a (by omega)).trans (first.outside a away)
  · by_cases again : wram'' a = wram' a
    · rw [again] at changed ⊢
      exact first.inside a changed
    · have place : mid ≤ a := by
        by_contra before
        exact again (later.outside a (.inl (by omega)))
      rw [← gone a place]
      exact later.inside a again

/-- What one call does with the pieces that are left. -/
structure Call (chars : Text) (high low : Nat) (pieces : List Text) (wram : Wram) (result : Option Nat)
    (wram' : Wram)
    (low' : Nat) : Prop where
  forward : low ≤ low'
  overwrites : Overwrites chars low high wram wram'
  rest : ∀ a, low' ≤ a → wram' a = wram a
  stays : ∀ wram'' : Wram, (∀ a, a < low' ∨ high ≤ a → wram'' a = wram' a) → Shows wram'' result pieces.head?

/-- A run of calls returns the pieces one after the other, when each call returns one and
leaves the others to the next. -/
theorem calls_return {Cursor : Type} {call : Wram → Cursor → Option (Option Nat × Wram × Cursor)}
    (Ready : Wram → Cursor → Nat → List Text → Prop)
    (step : ∀ wram cursor low pieces, Ready wram cursor low pieces → ∃ result wram' cursor' low',
      call wram cursor = some (result, wram', cursor') ∧ Ready wram' cursor' low' pieces.tail ∧
        Call chars high low pieces wram result wram' low')
    {number : Nat} {cursor : Cursor} {pieces : List Text} (ready : Ready wram cursor low pieces) :
    ∃ (results : List (Option Nat)) (wram' : Wram), calls call number wram cursor = some (results, wram') ∧
      results.length = number ∧ Overwrites chars low high wram wram' ∧
        ∀ (i : Nat) (result : Option Nat), results[i]? = some result → Shows wram' result pieces[i]? := by
  induction number generalizing wram cursor low pieces with
  | zero => exact ⟨[], wram, rfl, rfl, .refl, fun i result at_ => absurd at_ (by simp)⟩
  | succ number ih =>
    obtain ⟨result, wram', cursor', low', called, ready', made⟩ := step wram cursor low pieces ready
    obtain ⟨results, final, run, length, later, shows_⟩ := ih ready'
    refine ⟨result :: results, final, ?_, congrArg (· + 1) length, ?_, ?_⟩
    · rw [calls, called, Option.bind_some]
      dsimp only
      rw [run, Option.map_some]
    · exact made.overwrites.trans later made.forward made.rest
    · intro i each at_
      cases i with
      | zero =>
        rw [List.getElem?_cons_zero] at at_
        obtain rfl := Option.some.inj at_
        rw [← List.head?_eq_getElem?]
        exact made.stays final later.outside
      | succ i =>
        rw [List.getElem?_cons_succ] at at_
        have tail := shows_ i each at_
        rwa [List.getElem?_tail] at tail

variable {delim turns : Nat} {text before after : Text} {c : BitVec 8}

/-- A text that is to be cut, and the delimiters away from it. -/
structure Ready (chars : Text) (delim turns high : Nat) (wram : Wram) (low : Nat) (text : Text) : Prop where
  spells : Spells wram low text
  delims : Spells wram delim chars
  ends : low + text.length = high
  apart : ∀ a, delim ≤ a → a ≤ delim + chars.length → a < low ∨ high ≤ a
  enough : text.length < turns
  enough' : chars.length < turns

theorem Overwrites.mono (overwrites : Overwrites chars mid high wram wram') (ordered : low ≤ mid) :
    Overwrites chars low high wram wram' :=
  ⟨fun a away => overwrites.outside a (by omega), overwrites.inside⟩

theorem Ready.drop (ready : Ready chars delim turns high wram low (before ++ after)) :
    Ready chars delim turns high wram (low + before.length) after := by
  have ends := ready.ends
  have enough := ready.enough
  rw [List.length_append] at ends enough
  refine ⟨ready.spells.drop, ready.delims, by omega, fun a above below => ?_, by omega, ready.enough'⟩
  exact (ready.apart a above below).imp_left fun before_ => by omega

/-- The piece that ends with its text. -/
theorem Ready.last (ready : Ready chars delim turns high wram low before)
    (same : ∀ a, a < low + before.length ∨ high ≤ a → wram'' a = wram a) : Spells wram'' low before := by
  have ends := ready.ends
  exact ready.spells.congr fun a above below => same a (by omega)

/-- The piece that ends with a delimiter, which becomes its terminator. -/
theorem Ready.cut (ready : Ready chars delim turns high wram low (before ++ c :: after)) (delimiter : c ∈ chars) :
    Ready chars delim turns high (Function.update wram (low + before.length) 0#8) (low + before.length + 1) after ∧
      Overwrites chars low high wram (Function.update wram (low + before.length) 0#8) ∧
      (∀ a, low + before.length + 1 ≤ a → Function.update wram (low + before.length) 0#8 a = wram a) ∧
      ∀ wram'' : Wram, (∀ a, a < low + before.length + 1 ∨ high ≤ a →
        wram'' a = Function.update wram (low + before.length) 0#8 a) → Spells wram'' low before := by
  have ends := ready.ends
  have enough := ready.enough
  rw [List.length_append, List.length_cons] at ends enough
  have rest : ∀ a, a ≠ low + before.length → Function.update wram (low + before.length) 0#8 a = wram a :=
    fun a other => Function.update_of_ne other ..
  refine ⟨⟨?_, ?_, by omega, ?_, by omega, ready.enough'⟩, ⟨?_, ?_⟩, ?_, ?_⟩
  · exact ready.spells.drop.2.2.congr fun a above below => rest a (by omega)
  · refine ready.delims.congr fun a above below => rest a ?_
    have away := ready.apart a above below
    omega
  · exact fun a above below => (ready.apart a above below).imp_left fun before_ => by omega
  · exact fun a away => rest a (by omega)
  · intro a changed
    by_cases here : a = low + before.length
    · subst here
      rw [Function.update_self, ready.spells.at_end]
      exact ⟨delimiter, rfl⟩
    · exact absurd (rest a here) changed
  · exact fun a above => rest a (by omega)
  · intro wram'' same
    exact ready.spells.cut.congr fun a above below => same a (.inl (by omega))

/-- A text is empty where its terminator is. -/
theorem Ready.empty_iff (ready : Ready chars delim turns high wram low text) : wram low = 0#8 ↔ text = [] := by
  cases text with
  | nil => exact iff_of_true ready.spells rfl
  | cons c text =>
    refine iff_of_false ?_ (List.cons_ne_nil c text)
    rw [ready.spells.1]
    exact ready.spells.2.1

/-- The characters that a scan lets through, and the one it stops at. -/
theorem takeWhile_stops (test : BitVec 8 → Bool) (text : Text) :
    ∃ rest, text = text.takeWhile test ++ rest ∧ rest = text.dropWhile test ∧ ∀ c, rest.head? = some c →
      ¬ test c := by
  refine ⟨text.dropWhile test, List.takeWhile_append_dropWhile.symm, rfl, fun c first => ?_⟩
  have stopped := List.head?_dropWhile_not test text
  rw [first] at stopped
  simpa using stopped

theorem strtokR_step {str : Option Nat} {saveptr : Nat}
    (ready : Ready chars delim turns high wram (str.getD saveptr) text) :
    ∃ after text', strtokR wram str delim saveptr turns = some after ∧
      Ready chars delim turns high after.wram after.saveptr text' ∧
      tokens (· ∈ chars) text' = (tokens (· ∈ chars) text).tail ∧
      Call chars high (str.getD saveptr) (tokens (· ∈ chars) text) wram after.result after.wram after.saveptr := by
  unfold strtokR
  dsimp only
  generalize str.getD saveptr = low at *
  split_ifs with empty
  · obtain rfl := ready.empty_iff.mp empty
    exact ⟨_, [], rfl, ready, rfl, Nat.le_refl _, .refl, fun _ _ => rfl, fun _ _ => .none⟩
  obtain ⟨rest, split_, rest_eq, stops⟩ := takeWhile_stops (· ∈ chars) text
  rw [strspn_eq ready.spells ready.delims ready.enough ready.enough', Option.bind_some]
  rw [← tokens_dropWhile text, ← rest_eq]
  generalize text.takeWhile (· ∈ chars) = skipped at *
  rw [split_] at ready
  have readyRest := ready.drop
  split_ifs with empty'
  · obtain rfl := readyRest.empty_iff.mp empty'
    exact ⟨_, [], rfl, readyRest, rfl, Nat.le_add_right .., .refl, fun _ _ => rfl, fun _ _ => .none⟩
  obtain ⟨after, split', -, stops'⟩ := takeWhile_stops (· ∉ chars) rest
  rw [strcspn_eq readyRest.spells readyRest.delims readyRest.enough readyRest.enough', Option.map_some]
  have nonempty : rest.takeWhile (· ∉ chars) ≠ [] := by
    obtain ⟨c, rest, rfl⟩ := List.exists_cons_of_ne_nil (mt readyRest.empty_iff.mpr empty')
    rw [List.takeWhile_cons_of_pos (by simpa using stops c rfl)]
    exact List.cons_ne_nil c _
  have plain : ∀ c ∈ rest.takeWhile (· ∉ chars), decide (c ∈ chars) = false := by
    intro c member
    simpa using List.mem_takeWhile_imp member
  generalize rest.takeWhile (· ∉ chars) = word at *
  subst split'
  cases after with
  | nil =>
    have end_ : wram (low + skipped.length + word.length) = 0#8 := readyRest.spells.at_end
    have readyEnd := readyRest.drop
    rw [List.append_nil] at readyRest ⊢
    rw [if_pos end_, tokens_last plain nonempty]
    refine ⟨_, [], rfl, readyEnd, rfl, by dsimp only; omega, .refl, fun _ _ => rfl, ?_⟩
    exact fun wram'' same => .some (readyRest.last same)
  | cons c after =>
    have delimiter : c ∈ chars := by simpa using stops' c rfl
    have end_ := readyRest.spells.at_end
    obtain ⟨ready', overwrites, rest, stays⟩ := readyRest.cut delimiter
    rw [if_neg (by rw [end_]; exact readyRest.spells.drop.2.1),
      tokens_word plain nonempty (by simpa using delimiter)]
    refine ⟨_, after, rfl, ready', rfl, by dsimp only; omega, overwrites.mono (by omega), rest, ?_⟩
    exact fun wram'' same => .some (stays wram'' same)

theorem strsep_step (ready : Ready chars delim turns high wram low text) :
    ∃ after low', strsep wram (some low) delim turns = some after ∧
      Call chars high low (text.splitOnP (· ∈ chars)) wram after.result after.wram low' ∧
      (after.stringp = none ∧ (text.splitOnP (· ∈ chars)).tail = [] ∨ after.stringp = some low' ∧ ∃ text',
        Ready chars delim turns high after.wram low' text' ∧
          text'.splitOnP (· ∈ chars) = (text.splitOnP (· ∈ chars)).tail) := by
  obtain ⟨after, split_, -, stops⟩ := takeWhile_stops (· ∉ chars) text
  have plain : ∀ c ∈ text.takeWhile (· ∉ chars), decide (c ∈ chars) = false := by
    intro c member
    simpa using List.mem_takeWhile_imp member
  unfold strsep strpbrk
  dsimp only
  rw [strcspn_eq ready.spells ready.delims ready.enough ready.enough', Option.map_some, Option.map_some]
  generalize text.takeWhile (· ∉ chars) = piece at *
  subst split_
  have end_ := ready.spells.at_end
  cases after with
  | nil =>
    have terminated : wram (low + piece.length) = 0#8 := end_
    rw [List.append_nil] at ready ⊢
    rw [if_neg (not_not.mpr terminated), List.splitOnP_eq_singleton plain]
    refine ⟨_, low + piece.length, rfl, ⟨by omega, .refl, fun _ _ => rfl, ?_⟩, .inl ⟨rfl, rfl⟩⟩
    exact fun wram'' same => .some (ready.last same)
  | cons c after =>
    have delimiter : c ∈ chars := by simpa using stops c rfl
    obtain ⟨ready', overwrites, rest, stays⟩ := ready.cut delimiter
    rw [if_pos (by rw [end_]; exact ready.spells.drop.2.1),
      List.splitOnP_append_cons_of_forall_mem plain c (by simpa using delimiter)]
    refine ⟨_, low + piece.length + 1, rfl, ⟨by omega, overwrites, rest, ?_⟩, .inr ⟨rfl, after, ready', rfl⟩⟩
    exact fun wram'' same => .some (stays wram'' same)

/-- Where a call of `strtok_r` begins, with the tokens that are left. -/
def StrtokReady (chars : Text) (delim turns high : Nat) (wram : Wram) (cursor : Option Nat × Nat) (low : Nat)
    (pieces : List Text) : Prop :=
  cursor.1.getD cursor.2 = low ∧
    ∃ text, Ready chars delim turns high wram low text ∧ tokens (· ∈ chars) text = pieces

/-- Where a call of `strsep` begins, with the pieces that are left. -/
def StrsepReady (chars : Text) (delim turns high : Nat) (wram : Wram) (stringp : Option Nat) (low : Nat)
    (pieces : List Text) : Prop :=
  stringp = none ∧ pieces = [] ∨ stringp = some low ∧
    ∃ text, Ready chars delim turns high wram low text ∧ text.splitOnP (· ∈ chars) = pieces

/-- A run of calls goes through the pieces in their order, and it changes delimiters of the text only. -/
def Returns (chars : Text) (wram : Wram) (str : Nat) (text : Text) (number : Nat) (pieces : List Text)
    (run : Option (List (Option Nat) × Wram)) : Prop :=
  ∃ (results : List (Option Nat)) (wram' : Wram), run = some (results, wram') ∧ results.length = number ∧
    Overwrites chars str (str + text.length) wram wram' ∧
      ∀ (i : Nat) (result : Option Nat), results[i]? = some result → Shows wram' result pieces[i]?

/-- `strtok_r` returns the tokens that are not empty, and `strsep` every piece; a call
after the last one returns `NULL`. -/
theorem calls_return_pieces {str : Nat} (spells : Spells wram str text) (delims : Spells wram delim chars)
    (apart : ∀ a, delim ≤ a → a ≤ delim + chars.length → a < str ∨ str + text.length ≤ a)
    (enough : text.length < turns) (enough' : chars.length < turns) (number saveptr : Nat) :
    Returns chars wram str text number (tokens (· ∈ chars) text) (strtokCalls delim turns number wram str saveptr) ∧
      Returns chars wram str text number (text.splitOnP (· ∈ chars))
    (strsepCalls delim turns number wram (some str)) := by
  have ready : Ready chars delim turns (str + text.length) wram str text :=
    ⟨spells, delims, rfl, apart, enough, enough'⟩
  constructor
  · refine calls_return (StrtokReady chars delim turns _) ?_ ⟨rfl, text, ready, rfl⟩
    rintro wram ⟨str, saveptr⟩ low pieces ⟨rfl, text, ready, rfl⟩
    obtain ⟨after, text', returned, ready', left, made⟩ := strtokR_step ready
    refine ⟨after.result, after.wram, (none, after.saveptr), after.saveptr, ?_, ⟨rfl, text', ready', left⟩, made⟩
    rw [returned, Option.map_some]
  · refine calls_return (StrsepReady chars delim turns _) ?_ (.inr ⟨rfl, text, ready, rfl⟩)
    intro wram stringp low pieces left
    obtain ⟨rfl, rfl⟩ | ⟨rfl, text, ready, rfl⟩ := left
    · refine ⟨none, wram, none, low, rfl, .inl ⟨rfl, rfl⟩, Nat.le_refl _, .refl, fun _ _ => rfl, fun _ _ => .none⟩
    · obtain ⟨after, low', returned, made, left⟩ := strsep_step ready
      refine ⟨after.result, after.wram, after.stringp, low', ?_, left, made⟩
      rw [returned, Option.map_some]

/-- The text `a,b` with the delimiter `,` behind it. -/
theorem calls_return_pieces_comma :
    let wram : Wram := fun a => [97#8, 44#8, 98#8, 0#8, 44#8].getD a 0#8
    Returns [44#8] wram 0 [97#8, 44#8, 98#8] 3 (tokens (· ∈ [44#8]) [97#8, 44#8, 98#8])
    (strtokCalls 4 4 3 wram 0 0) ∧
      Returns [44#8] wram 0 [97#8, 44#8, 98#8] 3 ([97#8, 44#8, 98#8].splitOnP (· ∈ [44#8]))
    (strsepCalls 4 4 3 wram (some 0)) :=
  @calls_return_pieces [44#8] (fun a => [97#8, 44#8, 98#8, 0#8, 44#8].getD a 0#8) 4 4 [97#8, 44#8, 98#8] 0
    ⟨rfl, by decide, rfl, by decide, rfl, by decide, rfl⟩ ⟨rfl, by decide, rfl⟩
    (fun a above _ => .inr (Nat.le_of_succ_le above)) (by decide) (by decide) 3 0

end Upmem.Strings
