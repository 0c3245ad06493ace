import Mathlib.Data.List.Perm.Basic
import Upmem.Repair

namespace Upmem.RepairSlots
universe u v

section Groups
variable {α : Type u} {κ : Type v} (key : α → κ)

/-- At most two elements, with the same key. -/
structure Paired (group : List α) : Prop where
  few : group.length ≤ 2
  same : ∀ a ∈ group, ∀ b ∈ group, key a = key b

/-- The elements can be split into two groups of at most two that share their keys. -/
def Splits (elements : List α) : Prop :=
  ∃ first second, elements.Perm (first ++ second) ∧ Paired key first ∧ Paired key second

/-- An element joins the second group. -/
def joinSecond [DecidableEq κ] (ab cd : List α) (x : α) : Option (List α × List α) :=
  match cd with
  | [] => some (ab, [x])
  | [c] => if key c = key x then some (ab, [c, x]) else none
  | _ => none

/-- An element joins the first of two groups that takes it. -/
def join [DecidableEq κ] (groups : List α × List α) (x : α) : Option (List α × List α) :=
  match groups.1 with
  | [] => some ([x], groups.2)
  | [a] => if key a = key x then some ([a, x], groups.2) else joinSecond key groups.1 groups.2 x
  | _ => joinSecond key groups.1 groups.2 x

/-- What the groups are once some elements have joined them one after the other. -/
structure Joined (done ab cd : List α) : Prop where
  all : done.Perm (ab ++ cd)
  first : Paired key ab
  second : Paired key cd
  empty : ab = [] → cd = []
  single : ∀ a, ab = [a] → ∀ c ∈ cd, key a ≠ key c

theorem Paired.nil : Paired key ([] : List α) := ⟨by simp, by simp⟩

theorem Paired.singleton (a : α) : Paired key [a] := ⟨by simp, by simp⟩

variable {key} {done ab cd : List α} {x : α}

theorem Paired.pair {a b : α} (same : key a = key b) : Paired key [a, b] := ⟨by simp, by simp [same]⟩

/-- A group of two has no room for a third element. -/
theorem Paired.no_third {group : List α} {a b c : α} (paired : Paired key group) (distinct : [a, b, c].Nodup)
    (first : a ∈ group) (second : b ∈ group) (third : c ∈ group) : False := by
  have subset : [a, b, c] ⊆ group := by simp [first, second, third]
  have lengths := (distinct.subperm subset).length_le
  have few := paired.few
  simp only [List.length_cons, List.length_nil] at lengths
  omega

/-- Elements with three keys do not split. -/
theorem not_splits_three {elements : List α} {a b c : α} (splits : Splits key elements) (first : a ∈ elements)
    (second : b ∈ elements) (third : c ∈ elements) (ab : key a ≠ key b) (ac : key a ≠ key c)
    (bc : key b ≠ key c) : False := by
  obtain ⟨left, right, all, inLeft, inRight⟩ := splits
  have side (x : α) (member : x ∈ elements) : x ∈ left ∨ x ∈ right :=
    List.mem_append.mp ((all.mem_iff).mp member)
  rcases side a first with aLeft | aRight
  · rcases side b second with bLeft | bRight
    · exact ab (inLeft.same a aLeft b bLeft)
    · rcases side c third with cLeft | cRight
      · exact ac (inLeft.same a aLeft c cLeft)
      · exact bc (inRight.same b bRight c cRight)
  · rcases side b second with bLeft | bRight
    · rcases side c third with cLeft | cRight
      · exact bc (inLeft.same b bLeft c cLeft)
      · exact ac (inRight.same a aRight c cRight)
    · exact ab (inRight.same a aRight b bRight)

/-- Two elements with different keys leave no room for two more of one key. -/
theorem not_splits_four {elements : List α} {p q r s : α} (splits : Splits key elements)
    (distinct : [p, q, r, s].Nodup)
    (members : ∀ x ∈ [p, q, r, s], x ∈ elements) (same : key p = key q) (differ : key r ≠ key s) : False := by
  obtain ⟨left, right, all, inLeft, inRight⟩ := splits
  have side (x : α) (member : x ∈ [p, q, r, s]) : x ∈ left ∨ x ∈ right :=
    List.mem_append.mp ((all.mem_iff).mp (members x member))
  -- whichever group each of the two is in, the other two elements fit in neither
  have full {one other : List α} (inOne : Paired key one) (inOther : Paired key other) (rOne : r ∈ one)
      (sOther : s ∈ other) (sides : ∀ x ∈ [p, q, r, s], x ∈ one ∨ x ∈ other) : False := by
    have pqr : [p, q, r].Nodup := distinct.sublist (by simp)
    have pqs : [p, q, s].Nodup := distinct.sublist (by simp)
    rcases sides p (by simp) with pOne | pOther
    · rcases sides q (by simp) with qOne | qOther
      · exact inOne.no_third pqr pOne qOne rOne
      · exact differ ((inOne.same r rOne p pOne).trans (same.trans (inOther.same q qOther s sOther)))
    · rcases sides q (by simp) with qOne | qOther
      · exact differ ((inOne.same r rOne q qOne).trans (same.symm.trans (inOther.same p pOther s sOther)))
      · exact inOther.no_third pqs pOther qOther sOther
  rcases side r (by simp) with rLeft | rRight
  · rcases side s (by simp) with sLeft | sRight
    · exact differ (inLeft.same r rLeft s sLeft)
    · exact full inLeft inRight rLeft sRight side
  · rcases side s (by simp) with sLeft | sRight
    · exact full inRight inLeft rRight sLeft fun x member => (side x member).symm
    · exact differ (inRight.same r rRight s sRight)

theorem Splits.few {elements : List α} (splits : Splits key elements) : elements.length ≤ 4 := by
  obtain ⟨left, right, all, inLeft, inRight⟩ := splits
  rw [all.length_eq, List.length_append]
  exact Nat.add_le_add inLeft.few inRight.few

theorem Joined.start : Joined key ([] : List α) [] [] :=
  ⟨List.Perm.nil, .nil key, .nil key, fun _ => rfl, by simp⟩

theorem Joined.splits (joined : Joined key done ab cd) : Splits key done :=
  ⟨ab, cd, joined.all, joined.first, joined.second⟩

variable [DecidableEq κ]

theorem joinSecond_some {ab' cd' : List α} (joined : Joined key done ab cd) (nonempty : ab ≠ [])
    (apart : ∀ a, ab = [a] → key a ≠ key x) (taken : joinSecond key ab cd x = some (ab', cd')) :
    Joined key (done ++ [x]) ab' cd' := by
  obtain ⟨all, first, second, _, single⟩ := joined
  unfold joinSecond at taken
  split at taken
  · cases taken
    refine ⟨?_, first, .singleton key x, fun empty => absurd empty nonempty, fun a only c member => ?_⟩
    · simpa using all.append_right [x]
    · rw [List.mem_singleton.mp member]
      exact apart a only
  · rename_i c
    split_ifs at taken with same
    cases taken
    refine ⟨?_, first, .pair same, fun empty => absurd empty nonempty, fun a only d member => ?_⟩
    · simpa using all.append_right [x]
    · rcases List.mem_pair.mp member with rfl | rfl
      · exact single a only _ (by simp)
      · exact apart a only
  · cases taken

/-- An element that joins a group leaves groups as they should be. -/
theorem join_some {ab' cd' : List α} (joined : Joined key done ab cd)
    (taken : join key (ab, cd) x = some (ab', cd')) :
    Joined key (done ++ [x]) ab' cd' := by
  unfold join at taken
  split at taken
  · rename_i empty
    cases taken
    simp only at empty
    obtain rfl := joined.empty empty
    refine ⟨?_, .singleton key x, .nil key, by simp, by simp⟩
    simpa [empty] using joined.all.append_right [x]
  · rename_i a only
    simp only at only
    split_ifs at taken with same
    · cases taken
      refine ⟨?_, .pair same, joined.second, by simp, by simp⟩
      refine (joined.all.append_right [x]).trans ?_
      rw [only, List.append_assoc]
      exact (show (cd ++ [x]).Perm ([x] ++ cd) from List.perm_append_comm).append_left [a]
    · refine joinSecond_some joined (by simp [only]) (fun b other => ?_) taken
      cases only.symm.trans other
      exact same
  · rename_i none one
    exact joinSecond_some joined none (fun a only => absurd only (one a)) taken

/-- When no group takes an element the elements do not split. -/
theorem join_none {elements : List α} (joined : Joined key done ab cd) (stuck : join key (ab, cd) x = none)
    (distinct : (done ++ [x]).Nodup) (members : ∀ y ∈ done ++ [x], y ∈ elements) : ¬ Splits key elements := by
  intro splits
  have all : (done ++ [x]).Perm (ab ++ cd ++ [x]) := joined.all.append_right [x]
  have apart := (all.nodup_iff).mp distinct
  have inside (y : α) (member : y ∈ ab ++ cd ++ [x]) : y ∈ elements := members y ((all.mem_iff).mpr member)
  match ab, cd, joined, stuck, apart, inside with
  | [], _, _, stuck, _, _ => cases stuck
  | [_], [], _, stuck, _, _ =>
    simp only [join, joinSecond] at stuck
    split_ifs at stuck
  | [a], [c], joined, stuck, apart, inside =>
    simp only [join, joinSecond] at stuck
    split_ifs at stuck with ax cx
    exact not_splits_three splits (inside a (by simp)) (inside c (by simp)) (inside x (by simp))
      (joined.single a rfl c (by simp)) ax cx
  | [a], [c, d], joined, stuck, apart, inside =>
    simp only [join, joinSecond] at stuck
    split_ifs at stuck with ax
    have swapped : ([c, d] ++ [a]).Perm ([a] ++ [c, d]) := List.perm_append_comm
    have order : [c, d, a, x].Perm ([a] ++ [c, d] ++ [x]) := swapped.append_right [x]
    exact not_splits_four splits ((order.nodup_iff).mpr apart)
      (fun y member => inside y ((order.mem_iff).mp member))
      (joined.second.same c (by simp) d (by simp)) ax
  | [_, _], [], _, stuck, _, _ => cases stuck
  | [a, b], [c], joined, stuck, apart, inside =>
    simp only [join, joinSecond] at stuck
    split_ifs at stuck with cx
    exact not_splits_four splits apart inside (joined.first.same a (by simp) b (by simp)) cx
  | [a, b], [c, d], joined, stuck, apart, inside =>
    have lengths := (apart.subperm inside).length_le
    have few := splits.few
    simp only [List.length_append, List.length_cons, List.length_nil] at lengths
    omega
  | _ :: _ :: _ :: _, _, joined, _, _, _ =>
    have few := joined.first.few
    simp only [List.length_cons] at few
    omega
  | _, _ :: _ :: _ :: _, joined, _, _, _ =>
    have few := joined.second.few
    simp only [List.length_cons] at few
    omega

/-- One after the other the elements join the groups, unless they do not split. -/
theorem foldlM_join {elements : List α} (distinct : (done ++ elements).Nodup) (joined : Joined key done ab cd) :
    (∃ ab' cd', elements.foldlM (join key) (ab, cd) = some (ab', cd') ∧ Joined key (done ++ elements) ab' cd') ∨
      elements.foldlM (join key) (ab, cd) = none ∧ ¬ Splits key (done ++ elements) := by
  induction elements generalizing done ab cd with
  | nil => exact Or.inl ⟨ab, cd, rfl, by simpa using joined⟩
  | cons x rest ih =>
    have assoc : done ++ x :: rest = done ++ [x] ++ rest := by simp
    rw [assoc] at distinct ⊢
    cases taken : join key (ab, cd) x with
    | none =>
      refine Or.inr ⟨by simp [taken], join_none joined taken distinct.of_append_left fun y member => ?_⟩
      exact List.mem_append_left rest member
    | some groups =>
      have next := ih distinct (join_some joined taken)
      simpa [taken] using next

end Groups

section Slots

/-- The bits of an address that the addresses of a group share, and the others. -/
def upper (address : BitVec 32) : BitVec 8 := (address >>> 4).setWidth 8

def lower (address : BitVec 32) : BitVec 8 := (address &&& 0xF#32).setWidth 8

/-- The three fields for a group hold its addresses, 0xFF being the mark of an empty slot. -/
def Holds (msbs firstLsbs secondLsbs : BitVec 8) : List (BitVec 32) → Prop
  | [] => firstLsbs = 0xFF#8 ∧ secondLsbs = 0xFF#8
  | [a] => msbs = upper a ∧ firstLsbs = lower a ∧ secondLsbs = 0xFF#8
  | [a, b] => msbs = upper a ∧ msbs = upper b ∧ firstLsbs = lower a ∧ secondLsbs = lower b
  | _ => False

/-- A configuration holds two groups, and no index yet. -/
structure InSlots (config : RepairConfig) (ab cd : List (BitVec 32)) : Prop where
  first : Holds config.abMsbs config.aLsbs config.bLsbs ab
  second : Holds config.cdMsbs config.cLsbs config.dLsbs cd
  even : config.evenIndex = 0xFF#8
  odd : config.oddIndex = 0xFF#8

theorem lower_ne (address : BitVec 32) : lower address ≠ 0xFF#8 := by
  intro same
  have bit := congrArg (BitVec.getLsbD · 7) same
  simp [lower] at bit

/-- What is left of `placeAddress` when the slots A and B take no address. -/
def placeSecond (config : RepairConfig) (address : BitVec 32) : Option RepairConfig :=
  if config.cLsbs = 0xFF#8 then some { config with cdMsbs := upper address, cLsbs := lower address }
  else if config.dLsbs = 0xFF#8 ∧ config.cdMsbs = upper address then some { config with dLsbs := lower address }
  else none

theorem placeAddress_eq (config : RepairConfig) (address : BitVec 32) : config.placeAddress address =
    if config.aLsbs = 0xFF#8 then some { config with abMsbs := upper address, aLsbs := lower address }
    else if config.bLsbs = 0xFF#8 ∧ config.abMsbs = upper address then some { config with bLsbs := lower address }
    else placeSecond config address := rfl

/-- A step on the groups and one on the slots agree. -/
def Agrees (groups : Option (List (BitVec 32) × List (BitVec 32))) (placed : Option RepairConfig) : Prop :=
  match groups with
  | none => placed = none
  | some (ab, cd) => ∃ config, placed = some config ∧ InSlots config ab cd

variable {config : RepairConfig} {ab cd : List (BitVec 32)} (slots : InSlots config ab cd) (address : BitVec 32)
include slots

theorem placeSecond_join : Agrees (joinSecond upper ab cd address) (placeSecond config address) := by
  obtain ⟨first, second, even, odd⟩ := slots
  unfold placeSecond
  match cd, second with
  | [], second =>
    rw [if_pos second.1]
    exact ⟨_, rfl, first, ⟨rfl, rfl, second.2⟩, even, odd⟩
  | [c], ⟨msbs, lsbs, free⟩ =>
    rw [if_neg (lsbs ▸ lower_ne c)]
    by_cases same : upper c = upper address
    · rw [if_pos ⟨free, msbs.trans same⟩, joinSecond, if_pos same]
      exact ⟨_, rfl, first, ⟨msbs, msbs.trans same, lsbs, rfl⟩, even, odd⟩
    · rw [if_neg (fun both => same (msbs.symm.trans both.2)), joinSecond, if_neg same]
      rfl
  | [c, d], ⟨_, _, lsbsC, lsbsD⟩ =>
    rw [if_neg (lsbsC ▸ lower_ne c), if_neg (fun both => lower_ne d (lsbsD.symm.trans both.1))]
    rfl

/-- A corrupted address takes the slot of the group that it joins. -/
theorem placeAddress_join : Agrees (join upper (ab, cd) address) (config.placeAddress address) := by
  have rest := placeSecond_join slots address
  obtain ⟨first, second, even, odd⟩ := slots
  rw [placeAddress_eq]
  match ab, first, rest with
  | [], first, _ =>
    rw [if_pos first.1]
    exact ⟨_, rfl, ⟨rfl, rfl, first.2⟩, second, even, odd⟩
  | [a], ⟨msbs, lsbs, free⟩, rest =>
    rw [if_neg (lsbs ▸ lower_ne a)]
    by_cases same : upper a = upper address
    · rw [if_pos ⟨free, msbs.trans same⟩, join]
      simp only
      rw [if_pos same]
      exact ⟨_, rfl, ⟨msbs, msbs.trans same, lsbs, rfl⟩, second, even, odd⟩
    · rw [if_neg (fun both => same (msbs.symm.trans both.2)), join]
      simp only
      rwa [if_neg same]
  | [a, b], ⟨_, _, lsbsA, lsbsB⟩, rest =>
    rwa [if_neg (lsbsA ▸ lower_ne a), if_neg (fun both => lower_ne b (lsbsB.symm.trans both.1))]

/-- The same for all addresses. -/
theorem foldlM_placeAddress (addresses : List (BitVec 32)) :
    Agrees (addresses.foldlM (join upper) (ab, cd)) (addresses.foldlM RepairConfig.placeAddress config) := by
  induction addresses generalizing config ab cd with
  | nil => exact ⟨config, rfl, slots⟩
  | cons address rest ih =>
    have step := placeAddress_join slots address
    rw [List.foldlM_cons, List.foldlM_cons]
    cases joined : join upper (ab, cd) address with
    | none =>
      rw [joined] at step
      rw [show config.placeAddress address = none from step]
      rfl
    | some groups =>
      rw [joined] at step
      obtain ⟨config', placed, slots'⟩ := step
      rw [placed]
      exact ih slots'

end Slots

section Bits
variable {bits : BitVec 64} {i j : Nat}

/-- At most one even and at most one odd bit. -/
def OneOfEach (bits : BitVec 64) : Prop :=
  ∀ i j, bits.getLsbD i = true → bits.getLsbD j = true → i % 2 = j % 2 → i = j

/-- The bits that are set, the lowest one first. -/
def setBits (bits : BitVec 64) : List Nat := (List.range 64).filter fun i => bits.getLsbD i

theorem mem_setBits : i ∈ setBits bits ↔ bits.getLsbD i = true := by
  rw [setBits, List.mem_filter, List.mem_range]
  exact ⟨And.right, fun set => ⟨BitVec.lt_of_getLsbD set, set⟩⟩

theorem setBits_sorted (bits : BitVec 64) : (setBits bits).Pairwise (· < ·) :=
  List.pairwise_lt_range.filter _

theorem popcount_eq (bits : BitVec 64) : popcount bits = (setBits bits).length :=
  List.countP_eq_length_filter ..

theorem findIndexOfFirstFaultyBit_eq (set : bits.getLsbD i = true) (least : ∀ k, bits.getLsbD k = true → i ≤ k) :
    findIndexOfFirstFaultyBit bits = BitVec.ofNat 8 i := by
  have nonzero : bits ≠ 0#64 := by
    rintro rfl
    simp at set
  have lower := least _ (BitVec.getLsbD_true_ctz_of_ne_zero nonzero)
  have same : bits.ctz.toNat = i := by
    by_contra other
    have cleared := BitVec.getLsbD_false_of_lt_ctz (lt_of_le_of_ne lower (Ne.symm other))
    simp [set] at cleared
  rw [findIndexOfFirstFaultyBit, ← same]
  rfl

theorem findIndexOfLastFaultyBit_eq (set : bits.getLsbD i = true) (greatest : ∀ k, bits.getLsbD k = true → k ≤ i) :
    findIndexOfLastFaultyBit bits = BitVec.ofNat 8 i := by
  have nonzero : bits ≠ 0#64 := by
    rintro rfl
    simp at set
  have upper := greatest _ (BitVec.getLsbD_true_clz_of_ne_zero (by decide) nonzero)
  have small : i < 64 - bits.clz.toNat := by
    have above : 2 ^ i ≤ bits.toNat := Nat.ge_two_pow_of_testBit set
    have below := BitVec.toNat_lt_two_pow_sub_clz (x := bits)
    exact (Nat.pow_lt_pow_iff_right (by decide)).mp (above.trans_lt below)
  have same : (63#64 - bits.clz).toNat = i := by
    rw [BitVec.toNat_sub_of_le (by rw [BitVec.le_def]; simp; omega)]
    simp
    omega
  rw [findIndexOfLastFaultyBit, ← same]
  rfl

theorem odd_index : ∀ i < 64, BitVec.ofNat 8 i &&& 1#8 = 1#8 ↔ i % 2 = 1 := by decide

theorem index_set : ∀ i < 64, BitVec.ofNat 8 i ≠ 0xFF#8 := by decide

/-- The index of its parity covers every faulty bit. -/
def CoversBits (bits : BitVec 64) (config : RepairConfig) : Prop :=
  ∀ i, bits.getLsbD i = true → (if i % 2 = 1 then config.oddIndex else config.evenIndex) = BitVec.ofNat 8 i

/-- A configuration is another one but for the indexes. -/
structure SameSlots (config config' : RepairConfig) : Prop where
  abMsbs : config'.abMsbs = config.abMsbs
  cdMsbs : config'.cdMsbs = config.cdMsbs
  aLsbs : config'.aLsbs = config.aLsbs
  bLsbs : config'.bLsbs = config.bLsbs
  cLsbs : config'.cLsbs = config.cLsbs
  dLsbs : config'.dLsbs = config.dLsbs

/-- The indexes are chosen exactly when there is at most one faulty bit of each parity. -/
theorem placeFaultyBits_spec (bits : BitVec 64) {config : RepairConfig} (even : config.evenIndex = 0xFF#8)
    (odd : config.oddIndex = 0xFF#8) :
    (∃ config', config.placeFaultyBits bits = some config' ∧ SameSlots config config' ∧ CoversBits bits config') ∧
        OneOfEach bits ∨
      config.placeFaultyBits bits = none ∧ ¬ OneOfEach bits := by
  have sorted := setBits_sorted bits
  have set (i : Nat) : i ∈ setBits bits ↔ bits.getLsbD i = true := mem_setBits
  rw [RepairConfig.placeFaultyBits, popcount_eq]
  rcases all : setBits bits with _ | ⟨i, _ | ⟨j, _ | ⟨k, rest⟩⟩⟩
  · have none (i : Nat) : ¬ bits.getLsbD i = true := by
      rw [← set i, all]
      exact List.not_mem_nil
    exact Or.inl ⟨⟨config, rfl, ⟨rfl, rfl, rfl, rfl, rfl, rfl⟩, fun i here => absurd here (none i)⟩,
      fun i _ here => absurd here (none i)⟩
  · have only (k : Nat) : bits.getLsbD k = true ↔ k = i := by rw [← set k, all, List.mem_singleton]
    have here := (only i).mpr rfl
    have first := findIndexOfFirstFaultyBit_eq here fun k other => ((only k).mp other).ge
    have parity := odd_index i (BitVec.lt_of_getLsbD here)
    have one : OneOfEach bits := fun k l setK setL _ => ((only k).mp setK).trans ((only l).mp setL).symm
    refine Or.inl ⟨?_, one⟩
    simp only [List.length_singleton, RepairConfig.placeFirstBit, first, parity, odd, even, ne_eq,
      not_true, if_false]
    split_ifs with isOdd
    · refine ⟨_, rfl, ⟨rfl, rfl, rfl, rfl, rfl, rfl⟩, fun k other => ?_⟩
      rw [(only k).mp other, if_pos isOdd]
    · refine ⟨_, rfl, ⟨rfl, rfl, rfl, rfl, rfl, rfl⟩, fun k other => ?_⟩
      rw [(only k).mp other, if_neg isOdd]
  · have only (k : Nat) : bits.getLsbD k = true ↔ k = i ∨ k = j := by rw [← set k, all, List.mem_pair]
    have order : i < j := by
      rw [all] at sorted
      simpa using sorted
    have setI := (only i).mpr (Or.inl rfl)
    have setJ := (only j).mpr (Or.inr rfl)
    have first := findIndexOfFirstFaultyBit_eq setI fun k other => by
      rcases (only k).mp other with rfl | rfl
      · exact le_rfl
      · exact order.le
    have last := findIndexOfLastFaultyBit_eq setJ fun k other => by
      rcases (only k).mp other with rfl | rfl
      · exact order.le
      · exact le_rfl
    have parityI := odd_index i (BitVec.lt_of_getLsbD setI)
    have parityJ := odd_index j (BitVec.lt_of_getLsbD setJ)
    have usedJ := index_set j (BitVec.lt_of_getLsbD setJ)
    have one_iff : OneOfEach bits ↔ i % 2 ≠ j % 2 := by
      refine ⟨fun one same => order.ne (one i j setI setJ same), fun differ k l setK setL same => ?_⟩
      rcases (only k).mp setK with rfl | rfl <;> rcases (only l).mp setL with rfl | rfl
      · rfl
      · exact absurd same differ
      · exact absurd same.symm differ
      · rfl
    have two : [i, j].length = 2 := rfl
    rw [one_iff]
    simp only [two, RepairConfig.placeFirstBit, RepairConfig.placeLastBit, first, last, parityI, parityJ]
    by_cases oddI : i % 2 = 1 <;> by_cases oddJ : j % 2 = 1
    · exact Or.inr ⟨by simp [oddI, oddJ, usedJ], by omega⟩
    · refine Or.inl ⟨⟨{ config with oddIndex := BitVec.ofNat 8 i, evenIndex := BitVec.ofNat 8 j }, ?_,
        ⟨rfl, rfl, rfl, rfl, rfl, rfl⟩, fun k other => ?_⟩, by omega⟩
      · simp [oddI, oddJ, odd]
      · rcases (only k).mp other with rfl | rfl
        · rw [if_pos oddI]
        · rw [if_neg oddJ]
    · refine Or.inl ⟨⟨{ config with oddIndex := BitVec.ofNat 8 j, evenIndex := BitVec.ofNat 8 i }, ?_,
        ⟨rfl, rfl, rfl, rfl, rfl, rfl⟩, fun k other => ?_⟩, by omega⟩
      · simp [oddI, oddJ, even]
      · rcases (only k).mp other with rfl | rfl
        · rw [if_neg oddI]
        · rw [if_pos oddJ]
    · exact Or.inr ⟨by simp [oddI, oddJ, usedJ], by omega⟩
  · rw [all] at sorted
    obtain ⟨aboveI, sorted⟩ := List.pairwise_cons.mp sorted
    obtain ⟨aboveJ, _⟩ := List.pairwise_cons.mp sorted
    have setI := (set i).mp (by simp [all])
    have setJ := (set j).mp (by simp [all])
    have setK := (set k).mp (by simp [all])
    have ij := aboveI j (by simp)
    have ik := aboveI k (by simp)
    have jk := aboveJ k (by simp)
    -- two of three bits have the same parity
    refine Or.inr ⟨rfl, fun one => ?_⟩
    have first := one i j setI setJ
    have second := one i k setI setK
    have third := one j k setJ setK
    omega

end Bits

section Extraction

/-- The address that a slot stands for. -/
def slotAddress (msbs lsbs : BitVec 8) : BitVec 32 := msbs.setWidth 32 <<< 4 ||| lsbs.setWidth 32

/-- One of the four slots stands for an address. -/
def CoversAddress (config : RepairConfig) (address : BitVec 32) : Prop :=
  address = slotAddress config.abMsbs config.aLsbs ∨ address = slotAddress config.abMsbs config.bLsbs ∨
    address = slotAddress config.cdMsbs config.cLsbs ∨ address = slotAddress config.cdMsbs config.dLsbs

theorem upper_toNat {address : BitVec 32} (small : address < 0x1000#32) :
    (upper address).toNat = address.toNat / 16 := by
  have bound : address.toNat < 0x1000 := small
  rw [upper, BitVec.toNat_setWidth, BitVec.toNat_ushiftRight, Nat.shiftRight_eq_div_pow]
  omega

theorem lower_toNat (address : BitVec 32) : (lower address).toNat = address.toNat % 16 := by
  have low : address.toNat &&& 15 = address.toNat % 16 := Nat.and_two_pow_sub_one_eq_mod address.toNat 4
  rw [lower, BitVec.toNat_setWidth, BitVec.toNat_and, BitVec.toNat_ofNat, low]
  omega

theorem slotAddress_eq {address : BitVec 32} (small : address < 0x1000#32) :
    slotAddress (upper address) (lower address) = address := by
  have bound : address.toNat < 0x1000 := small
  have low : address.toNat % 16 < 2 ^ 4 := Nat.mod_lt _ (by decide)
  have fits : (address.toNat / 16) <<< 4 < 2 ^ 32 := by
    rw [Nat.shiftLeft_eq]
    omega
  apply BitVec.eq_of_toNat_eq
  rw [slotAddress, BitVec.toNat_or, BitVec.toNat_shiftLeft, BitVec.toNat_setWidth, BitVec.toNat_setWidth,
    upper_toNat small, lower_toNat, Nat.mod_eq_of_lt (show address.toNat / 16 < 2 ^ 32 by omega),
    Nat.mod_eq_of_lt fits,
    Nat.mod_eq_of_lt (show address.toNat % 16 < 2 ^ 32 by omega), ← Nat.shiftLeft_add_eq_or_of_lt low,
      Nat.shiftLeft_eq]
  omega

theorem upper_eq_iff {a b : BitVec 32} (smallA : a < 0x1000#32) (smallB : b < 0x1000#32) :
    upper a = upper b ↔ a >>> 4 = b >>> 4 := by
  rw [← BitVec.toNat_inj, ← BitVec.toNat_inj, upper_toNat smallA, upper_toNat smallB, BitVec.toNat_ushiftRight,
    BitVec.toNat_ushiftRight, Nat.shiftRight_eq_div_pow, Nat.shiftRight_eq_div_pow]

theorem Paired.congr {α κ κ' : Type} {key : α → κ} {key' : α → κ'} {group : List α}
    (same : ∀ a ∈ group, ∀ b ∈ group, key a = key b ↔ key' a = key' b) (paired : Paired key group) :
    Paired key' group :=
  ⟨paired.few, fun a inA b inB => (same a inA b inB).mp (paired.same a inA b inB)⟩

theorem splits_congr {α κ κ' : Type} {key : α → κ} {key' : α → κ'} {elements : List α}
    (same : ∀ a ∈ elements, ∀ b ∈ elements, key a = key b ↔ key' a = key' b) (splits : Splits key elements) :
    Splits key' elements := by
  obtain ⟨left, right, all, inLeft, inRight⟩ := splits
  have member (a : α) (side : a ∈ left ∨ a ∈ right) : a ∈ elements := (all.mem_iff).mpr (List.mem_append.mpr side)
  refine ⟨left, right, all, inLeft.congr fun a inA b inB => ?_, inRight.congr fun a inA b inB => ?_⟩
  · exact same a (member a (Or.inl inA)) b (member b (Or.inl inB))
  · exact same a (member a (Or.inr inA)) b (member b (Or.inr inB))

/-- The corrupted addresses of a memory. -/
def addresses (repairInfo : MemoryRepair) : List (BitVec 32) :=
  (List.range repairInfo.nrOfCorruptedAddresses).map fun k => (repairInfo.corruptedAddresses k).address

/-- A bit is faulty at one of the corrupted addresses. -/
def Faulty (repairInfo : MemoryRepair) (i : Nat) : Prop :=
  ∃ k < repairInfo.nrOfCorruptedAddresses, (repairInfo.corruptedAddresses k).faultyBits.getLsbD i = true

/-- The union of the masks. -/
def unionBits (repairInfo : MemoryRepair) : BitVec 64 :=
  ((List.range repairInfo.nrOfCorruptedAddresses).map repairInfo.corruptedAddresses).foldl
    (fun bits entry => bits ||| entry.faultyBits) 0#64

theorem foldl_or_getLsbD (entries : List MemoryRepairAddress) (bits : BitVec 64) (i : Nat) :
    (entries.foldl (fun bits entry => bits ||| entry.faultyBits) bits).getLsbD i = true ↔
      bits.getLsbD i = true ∨ ∃ entry ∈ entries, entry.faultyBits.getLsbD i = true := by
  induction entries generalizing bits with
  | nil => simp
  | cons entry rest ih =>
    rw [List.foldl_cons, ih, BitVec.getLsbD_or, Bool.or_eq_true, or_assoc, List.exists_mem_cons_iff]

theorem unionBits_getLsbD (repairInfo : MemoryRepair) (i : Nat) :
    (unionBits repairInfo).getLsbD i = true ↔ Faulty repairInfo i := by
  rw [unionBits, foldl_or_getLsbD, Faulty]
  simp

theorem withDefaults_coversBits {bits : BitVec 64} {config : RepairConfig} (covers : CoversBits bits config) :
    CoversBits bits config.withDefaults := by
  intro i set
  have here := covers i set
  have used := index_set i (BitVec.lt_of_getLsbD set)
  unfold RepairConfig.withDefaults
  split_ifs at here ⊢ with isOdd <;> simp_all

/-- An address in a slot that holds it is covered, whatever the empty slots stand for. -/
theorem withDefaults_coversAddress {config : RepairConfig} {ab cd : List (BitVec 32)}
    (first : Holds config.abMsbs config.aLsbs config.bLsbs ab)
    (second : Holds config.cdMsbs config.cLsbs config.dLsbs cd)
    {address : BitVec 32} (small : address < 0x1000#32) (member : address ∈ ab ++ cd) :
    CoversAddress config.withDefaults address := by
  have whole := slotAddress_eq small
  have used := lower_ne address
  unfold CoversAddress RepairConfig.withDefaults
  rcases List.mem_append.mp member with inFirst | inSecond
  · match ab, first with
    | [a], ⟨msbs, lsbs, _⟩ =>
      obtain rfl := List.mem_singleton.mp inFirst
      left
      simp only [lsbs, if_neg used, msbs, whole]
    | [a, b], ⟨msbsA, msbsB, lsbsA, lsbsB⟩ =>
      rcases List.mem_pair.mp inFirst with rfl | rfl
      · left
        simp only [lsbsA, if_neg used, msbsA, whole]
      · right; left
        simp only [lsbsB, if_neg used, msbsB, whole]
  · match cd, second with
    | [c], ⟨msbs, lsbs, _⟩ =>
      obtain rfl := List.mem_singleton.mp inSecond
      right; right; left
      simp only [lsbs, if_neg used, msbs, whole]
    | [c, d], ⟨msbsC, msbsD, lsbsC, lsbsD⟩ =>
      rcases List.mem_pair.mp inSecond with rfl | rfl
      · right; right; left
        simp only [lsbsC, if_neg used, msbsC, whole]
      · right; right; right
        simp only [lsbsD, if_neg used, msbsD, whole]

section Completeness
variable {repairInfo : MemoryRepair} (few : repairInfo.nrOfCorruptedAddresses ≤ NB_MAX_REPAIR_ADDR)
include few

theorem extract_eq : extractMemoryRepairConfiguration repairInfo =
    ((addresses repairInfo).foldlM RepairConfig.placeAddress .unset).bind fun config =>
      (config.placeFaultyBits (unionBits repairInfo)).map RepairConfig.withDefaults := by
  rw [extractMemoryRepairConfiguration, if_neg (not_lt.mpr few), addresses]
  simp only [List.foldlM_map]
  rfl

/-- A memory has a repair exactly when its addresses split into two groups of at most
two that share their upper bits and its faulty bits are at most one even and one odd
one, and the repair covers them. -/
theorem extractMemoryRepairConfiguration_complete (distinct : (addresses repairInfo).Nodup)
    (small : ∀ address ∈ addresses repairInfo, address < 0x1000#32) :
    ((extractMemoryRepairConfiguration repairInfo).isSome = true ↔
      Splits (fun address : BitVec 32 => address >>> 4) (addresses repairInfo) ∧
        ∀ i j, Faulty repairInfo i → Faulty repairInfo j → i % 2 = j % 2 → i = j) ∧
    ∀ config, extractMemoryRepairConfiguration repairInfo = some config →
      (∀ address ∈ addresses repairInfo, CoversAddress config address) ∧
        ∀ i, Faulty repairInfo i →
        (if i % 2 = 1 then config.oddIndex else config.evenIndex) = BitVec.ofNat 8 i := by
  have keys (a : BitVec 32) (inA : a ∈ addresses repairInfo) (b : BitVec 32) (inB : b ∈ addresses repairInfo) :
      upper a = upper b ↔ a >>> 4 = b >>> 4 := upper_eq_iff (small a inA) (small b inB)
  have splits_iff : Splits (fun address : BitVec 32 => address >>> 4) (addresses repairInfo) ↔
      Splits upper (addresses repairInfo) :=
    ⟨splits_congr fun a inA b inB => (keys a inA b inB).symm, splits_congr keys⟩
  have one_iff : (∀ i j, Faulty repairInfo i → Faulty repairInfo j → i % 2 = j % 2 → i = j) ↔
      OneOfEach (unionBits repairInfo) := by
    simp only [OneOfEach, unionBits_getLsbD]
  have start : InSlots .unset [] [] := ⟨⟨rfl, rfl⟩, ⟨rfl, rfl⟩, rfl, rfl⟩
  have placed := foldlM_placeAddress start (addresses repairInfo)
  have empty : Joined upper ([] : List (BitVec 32)) [] [] := .start
  have joined := foldlM_join (by simpa using distinct) empty
  rw [extract_eq few, splits_iff, one_iff]
  rcases joined with ⟨ab, cd, groups, joined⟩ | ⟨stuck, apart⟩
  · rw [groups] at placed
    obtain ⟨config, slots, first, second, even, odd⟩ := placed
    have splits : Splits upper (addresses repairInfo) := joined.splits
    rw [slots, Option.bind_some]
    rcases placeFaultyBits_spec (unionBits repairInfo) even odd with
      ⟨⟨config', chosen, same, covers⟩, one⟩ | ⟨none, many⟩
    · rw [chosen]
      refine ⟨by simp [splits, one], fun result given => ?_⟩
      obtain rfl := Option.some.inj given
      refine ⟨fun address member => ?_, fun i faulty => ?_⟩
      · obtain ⟨abMsbs, cdMsbs, aLsbs, bLsbs, cLsbs, dLsbs⟩ := same
        refine withDefaults_coversAddress (by rwa [abMsbs, aLsbs, bLsbs]) (by rwa [cdMsbs, cLsbs, dLsbs])
          (small address member) ((joined.all.mem_iff).mp (by simpa using member))
      · exact withDefaults_coversBits covers i ((unionBits_getLsbD repairInfo i).mpr faulty)
    · rw [none]
      exact ⟨by simp [many], by simp⟩
  · rw [stuck] at placed
    rw [show (addresses repairInfo).foldlM RepairConfig.placeAddress .unset = none from placed]
    rw [List.nil_append] at apart
    exact ⟨by simp [apart], by simp⟩

end Completeness

/-- Two addresses that share their upper bits, with a faulty bit each. -/
def twoFaults : MemoryRepair := ⟨fun k => ⟨BitVec.ofNat 32 (0x120 + k), 1#64 <<< k⟩, 2⟩

theorem twoFaults_covered : ∃ config, extractMemoryRepairConfiguration twoFaults = some config ∧
    CoversAddress config 0x121#32 := by
  have both : addresses twoFaults = [0x120#32, 0x121#32] := rfl
  have small : ∀ address ∈ addresses twoFaults, address < 0x1000#32 := by simp [both]
  have complete := extractMemoryRepairConfiguration_complete (show twoFaults.nrOfCorruptedAddresses ≤ 4 by decide)
    (by simp [both]) small
  obtain ⟨config, found⟩ := Option.isSome_iff_exists.mp
    (show (extractMemoryRepairConfiguration twoFaults).isSome = true by decide +kernel)
  exact ⟨config, found, (complete.2 config found).1 _ (by simp [both])⟩

end Extraction

end Upmem.RepairSlots
