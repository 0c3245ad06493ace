import Mathlib
import Upmem.Keccak
import Upmem.Lib.ParityMixing

namespace Upmem.Keccak
open ParityMixing

/-- The bits of a keccak state by column, row and depth. -/
abbrev Cube := Fin 5 → Fin 5 → Fin 64 → Bool

/-- The permutation of SHA-3 step by step, as the standard that the source names has it. -/
def column (A : Cube) (x : Fin 5) (z : Fin 64) : Bool := A x 0 z ^^ A x 1 z ^^ A x 2 z ^^ A x 3 z ^^ A x 4 z

def theta (A : Cube) : Cube := fun x y z => A x y z ^^ column A (x - 1) z ^^ column A (x + 1) (z - 1)

/-- The columns and rows in the order of their rotations. -/
def walk : Nat → Fin 5 × Fin 5
  | 0 => (1, 0)
  | t + 1 => ((walk t).2, 2 * (walk t).1 + 3 * (walk t).2)

def offset (x y : Fin 5) : Nat :=
  match (List.range 24).find? fun t => walk t = (x, y) with
  | some t => (t + 1) * (t + 2) / 2
  | none => 0

def rho (A : Cube) : Cube := fun x y z => A x y (z - Fin.ofNat 64 (offset x y))

def pi (A : Cube) : Cube := fun x y z => A (x + 3 * y) x z

def chi (A : Cube) : Cube := fun x y z => A x y z ^^ (!A (x + 1) y z && A (x + 2) y z)

/-- The shift register of the round constants. -/
def shiftRegister (r : BitVec 8) : BitVec 8 := if r.msb then r <<< 1 ^^^ 0x71#8 else r <<< 1

def rc (t : Nat) : Bool := (shiftRegister^[t % 255] 1#8).getLsbD 0

def roundConstant (round : Nat) : BitVec 64 :=
  (List.range 7).foldl (fun word j => if rc (j + 7 * round) then word ||| 1#64 <<< (2 ^ j - 1) else word) 0#64

def iota (round : Nat) (A : Cube) : Cube := fun x y z =>
  A x y z ^^ (decide (x = 0 ∧ y = 0) && (roundConstant round).getLsbD z)

def keccakF1600 (A : Cube) : Cube :=
  (List.range 24).foldl (fun A round => iota round (chi (pi (rho (theta A))))) A

/-- The bits of the words. -/
def cube (st : Words) : Cube := fun x y z => st[x.val + 5 * y.val].getLsbD z.val

section Steps

theorem getLsbD_ROTL64 (x : BitVec 64) {y : Nat} (some : 0 < y) (below : y < 64) (z : Fin 64) :
    (ROTL64 x y).getLsbD z.val = x.getLsbD (z - Fin.ofNat 64 y).val := by
  have inside := z.isLt
  have turned : (z - Fin.ofNat 64 y).val = (64 - y + z.val) % 64 := by
    rw [Fin.val_sub, Fin.val_ofNat, Nat.mod_eq_of_lt below]
  rw [turned, ROTL64, BitVec.getLsbD_or, BitVec.getLsbD_shiftLeft, BitVec.getLsbD_ushiftRight,
    decide_eq_true inside,
    Bool.true_and]
  by_cases low : z.val < y
  · have place : (64 - y + z.val) % 64 = 64 - y + z.val := Nat.mod_eq_of_lt (by omega)
    simp [low, place]
  · have place : (64 - y + z.val) % 64 = z.val - y := by omega
    have high : x.getLsbD (64 - y + z.val) = false := BitVec.getLsbD_of_ge _ _ (by omega)
    simp [low, place, high]

theorem val_sub_one (x : Fin 5) : (x - 1).val = (x.val + 4) % 5 := by
  revert x
  decide

theorem val_add_one (x : Fin 5) : (x + 1).val = (x.val + 1) % 5 := by
  revert x
  decide

theorem val_add_two (x : Fin 5) : (x + 2).val = (x.val + 2) % 5 := by
  revert x
  decide

theorem cube_addParities (st : Words) : cube (addParities st) = theta (cube st) := by
  funext x y z
  have before : (x.val + 5 * y.val + 4) % 5 = (x - 1).val := by
    rw [val_sub_one]
    omega
  have after : (x.val + 5 * y.val + 1) % 5 = (x + 1).val := by
    rw [val_add_one]
    omega
  simp only [theta, column, cube, addParities, Vector.getElem_ofFn, BitVec.getLsbD_xor, before, after]
  rw [getLsbD_ROTL64 _ (by omega) (by omega)]
  simp only [BitVec.getLsbD_xor, Bool.xor_assoc]
  rfl

/-- The moves with the word that each of them takes. -/
def movedFrom (previous : Fin 25) : List (Fin 25 × Nat) → List (Fin 25 × Fin 25 × Nat)
  | [] => []
  | (i, rotation) :: moves => (i, previous, rotation) :: movedFrom i moves

/-- One move: a word is replaced by the turned one that was taken before, and taken. -/
def turnWord (moving : Words × BitVec 64) (move : Fin 25 × Nat) : Words × BitVec 64 :=
  (moving.1.set move.1.val (ROTL64 moving.2 move.2), moving.1.get move.1)

theorem moveWords_eq (st : Words) : moveWords st = (moves.foldl turnWord (st, st.get 1)).1 := rfl

/-- Moves of different words: each word has been taken before it is overwritten. -/
theorem foldl_moves (st : Words) (moves : List (Fin 25 × Nat)) (nodup : (moves.map Prod.fst).Nodup) (moving : Words)
    (previous : Fin 25) (untouched : ∀ i ∈ moves.map Prod.fst, moving.get i = st.get i) :
    (∀ i source rotation, (i, source, rotation) ∈ movedFrom previous moves →
      (moves.foldl turnWord (moving, st.get previous)).1.get i = ROTL64 (st.get source) rotation) ∧
    ∀ i : Fin 25, i ∉ moves.map Prod.fst →
      (moves.foldl turnWord (moving, st.get previous)).1.get i = moving.get i := by
  induction moves generalizing moving previous with
  | nil =>
    refine ⟨fun _ _ _ member => ?_, fun _ _ => rfl⟩
    cases member
  | cons move moves ih =>
    obtain ⟨target, turn⟩ := move
    obtain ⟨fresh, nodup⟩ := List.nodup_cons.mp nodup
    obtain ⟨first, untouched⟩ := List.forall_mem_cons.mp untouched
    have others (i : Fin 25) (differ : i ≠ target) :
        (moving.set target.val (ROTL64 (st.get previous) turn)).get i = moving.get i :=
      Vector.getElem_set_ne _ _ fun same => differ (Fin.ext same.symm)
    obtain ⟨moved, kept⟩ :=
      ih nodup (moving.set target.val (ROTL64 (st.get previous) turn)) target fun i member => by
      rw [others i fun same => fresh (same ▸ member)]
      exact untouched i member
    rw [List.foldl_cons, turnWord]
    dsimp only at first ⊢
    rw [first]
    refine ⟨fun i source rotation member => ?_, fun i outside => ?_⟩
    · rcases List.mem_cons.mp member with same | later
      · cases same
        rw [kept target fresh]
        exact Vector.getElem_set_self _
      · exact moved i source rotation later
    · rw [List.map_cons, List.mem_cons, not_or] at outside
      rw [kept i outside.2, others i outside.1]

/-- The words that are not in the corner move as `pi` says and turn as `rho` says. -/
theorem mem_movedFrom : ∀ x y : Fin 5, ¬(x = 0 ∧ y = 0) →
    (Fin.ofNat 25 (x.val + 5 * y.val), Fin.ofNat 25 ((x + 3 * y).val + 5 * x.val), offset (x + 3 * y) x % 64) ∈
      movedFrom 1 moves ∧ 0 < offset (x + 3 * y) x % 64 := by
  decide

theorem cube_moveWords (st : Words) : cube (moveWords st) = pi (rho (cube st)) := by
  obtain ⟨moved, kept⟩ := foldl_moves st moves (by decide) st 1 fun _ _ => rfl
  rw [← moveWords_eq] at moved kept
  funext x y z
  have target : (Fin.ofNat 25 (x.val + 5 * y.val)).val = x.val + 5 * y.val := Nat.mod_eq_of_lt (by omega)
  have source : (Fin.ofNat 25 ((x + 3 * y).val + 5 * x.val)).val = (x + 3 * y).val + 5 * x.val :=
    Nat.mod_eq_of_lt (by omega)
  rw [pi, rho, cube, cube]
  by_cases corner : x = 0 ∧ y = 0
  · obtain ⟨rfl, rfl⟩ := corner
    have word : (moveWords st)[0] = st[0] := kept 0 (by decide)
    have still : z - Fin.ofNat 64 (offset (0 + 3 * 0) 0) = z := sub_zero z
    rw [still]
    exact congrArg (fun word : BitVec 64 => word.getLsbD z.val) word
  · obtain ⟨member, some⟩ := mem_movedFrom x y corner
    have word := moved _ _ _ member
    simp only [Vector.get_eq_getElem, target, source] at word
    have turn : Fin.ofNat 64 (offset (x + 3 * y) x % 64) = Fin.ofNat 64 (offset (x + 3 * y) x) :=
      Fin.ext (Nat.mod_mod ..)
    rw [← turn, ← getLsbD_ROTL64 _ some (Nat.mod_lt _ (by omega))]
    exact congrArg (fun word : BitVec 64 => word.getLsbD z.val) word

theorem cube_mixRows (st : Words) : cube (mixRows st) = chi (cube st) := by
  funext x y z
  have next : (x.val + 5 * y.val) / 5 * 5 + (x.val + 5 * y.val + 1) % 5 = (x + 1).val + 5 * y.val := by
    rw [val_add_one]
    omega
  have afterNext : (x.val + 5 * y.val) / 5 * 5 + (x.val + 5 * y.val + 2) % 5 = (x + 2).val + 5 * y.val := by
    rw [val_add_two]
    omega
  simp only [cube, mixRows, chi, Vector.getElem_ofFn, BitVec.getLsbD_xor, BitVec.getLsbD_and,
    BitVec.getLsbD_not, next,
    afterNext, decide_eq_true z.isLt, Bool.true_and]

theorem roundConstant_eq : (List.range 24).map roundConstant = keccakfRndc := by
  decide +kernel

theorem zero_lt_words : 0 < 25 := by decide

theorem cube_addRndc (st : Words) (round : Nat) :
    cube (st.set 0 (getElem st 0 zero_lt_words ^^^ roundConstant round) zero_lt_words) = iota round (cube st) := by
  funext x y z
  rw [iota, cube, cube]
  by_cases corner : x = 0 ∧ y = 0
  · obtain ⟨rfl, rfl⟩ := corner
    simp
  · have elsewhere : ¬0 = x.val + 5 * y.val := by
      intro same
      exact corner ⟨Fin.ext (by simp; omega), Fin.ext (by simp; omega)⟩
    rw [decide_eq_false corner, Bool.false_and, Bool.xor_false, Vector.getElem_set_ne _ _ elsewhere]

/-- `keccakf` with its named rotations and its table of constants is the
permutation that the steps of the standard define. -/
theorem cube_keccakf (st : Words) : cube (keccakf st) = keccakF1600 (cube st) := by
  rw [keccakf, ← roundConstant_eq, List.foldl_map, keccakF1600]
  induction List.range 24 generalizing st with
  | nil => rfl
  | cons round rounds ih =>
    rw [List.foldl_cons, List.foldl_cons, ih, cube_addRndc, cube_mixRows, cube_moveWords, cube_addParities]

end Steps

section Inverse

theorem cube_injective : Function.Injective cube := by
  intro st other same
  refine Vector.ext fun i inside => BitVec.eq_of_getLsbD_eq fun z below => ?_
  have bit := congrFun (congrFun (congrFun same ⟨i % 5, by omega⟩) ⟨i / 5, by omega⟩) ⟨z, below⟩
  have place : i % 5 + 5 * (i / 5) = i := Nat.mod_add_div i 5
  simpa only [cube, place] using bit

/-- The columns after `theta`: five times the two neighbours are once them. -/
theorem column_theta (A : Cube) : (fun g : Fin 5 × Fin 64 => column (theta A) g.1 g.2) =
    mix (1, 0) (-1, 1) fun g => column A g.1 g.2 := by
  funext g
  have fiveTimes (a b c d e behind ahead : Bool) :
      ((a ^^ behind ^^ ahead) ^^ (b ^^ behind ^^ ahead) ^^ (c ^^ behind ^^ ahead) ^^ (d ^^ behind ^^ ahead) ^^
        (e ^^ behind ^^ ahead)) = ((a ^^ b ^^ c ^^ d ^^ e) ^^ behind ^^ ahead) := by
    cases behind <;> cases ahead <;> simp
  have corners : g - (1, 0) = (g.1 - 1, g.2) ∧ g - (-1, 1) = (g.1 + 1, g.2 - 1) := by
    constructor <;> ext <;> simp
  rw [mix, corners.1, corners.2]
  exact fiveTimes ..

/-- The doublings of the distances of `theta` come back after six, and the cube of what is left is nothing. -/
theorem column_mix_injective : Function.Injective (mix ((1, 0) : Fin 5 × Fin 64) (-1, 1)) := by
  refine mix_injective 6 ?_
  have doubled : 2 ^ 6 • ((1, 0) : Fin 5 × Fin 64) = ((-1, 0) : Fin 5 × Fin 64) ∧
      2 ^ 6 • ((-1, 1) : Fin 5 × Fin 64) = ((1, 0) : Fin 5 × Fin 64) := by decide
  rw [doubled.1, doubled.2]
  refine Function.LeftInverse.injective (g := mix (-2, 0) (2, 0)) fun c => ?_
  funext g
  have meets : ((-2, 0) + (-1, 0) : Fin 5 × Fin 64) = (2, 0) ∧ ((-2, 0) + (1, 0) : Fin 5 × Fin 64) = (-1, 0) ∧
      ((2, 0) + (-1, 0) : Fin 5 × Fin 64) = (1, 0) ∧ ((2, 0) + (1, 0) : Fin 5 × Fin 64) = (-2, 0) := by decide
  simp only [mix, sub_sub, meets]
  cases c g <;> cases c (g - (1, 0)) <;> cases c (g - (-1, 0)) <;> cases c (g - (2, 0))
    <;> cases c (g - (-2, 0)) <;> rfl

theorem theta_injective : Function.Injective theta := by
  intro A B same
  have columns : (fun g : Fin 5 × Fin 64 => column A g.1 g.2) = fun g => column B g.1 g.2 := by
    refine column_mix_injective ?_
    rw [← column_theta, ← column_theta, same]
  funext x y z
  have here := congrFun (congrFun (congrFun same x) y) z
  have behind := congrFun columns (x - 1, z)
  have ahead := congrFun columns (x + 1, z - 1)
  dsimp only at behind ahead
  rw [theta, theta, behind, ahead] at here
  exact Bool.xor_left_inj.mp (Bool.xor_left_inj.mp here)

theorem rho_injective : Function.Injective rho := by
  intro A B same
  funext x y z
  have here := congrFun (congrFun (congrFun same x) y) (z + Fin.ofNat 64 (offset x y))
  rwa [rho, rho, add_sub_cancel_right] at here

theorem pi_injective : Function.Injective pi := by
  intro A B same
  funext x y z
  have place : ∀ x y : Fin 5, y + 3 * (2 * (x - y)) = x := by decide
  have here := congrFun (congrFun (congrFun same y) (2 * (x - y))) z
  rwa [pi, pi, place] at here

/-- A row is known by what `chi` makes of it. -/
theorem chi_row : ∀ f g : Fin 5 → Bool,
    (∀ x, (f x ^^ (!f (x + 1) && f (x + 2))) = (g x ^^ (!g (x + 1) && g (x + 2)))) → f = g := by
  decide

theorem chi_injective : Function.Injective chi := by
  intro A B same
  funext x y z
  have row : (fun x => A x y z) = fun x => B x y z :=
    chi_row _ _ fun x => congrFun (congrFun (congrFun same x) y) z
  exact congrFun row x

theorem iota_injective (round : Nat) : Function.Injective (iota round) := by
  intro A B same
  funext x y z
  exact Bool.xor_left_inj.mp (congrFun (congrFun (congrFun same x) y) z)

theorem keccakF1600_injective : Function.Injective keccakF1600 := by
  unfold keccakF1600
  induction List.range 24 with
  | nil => exact Function.injective_id
  | cons round rounds ih =>
    exact ih.comp ((iota_injective round).comp (chi_injective.comp (pi_injective.comp
      (rho_injective.comp theta_injective))))

theorem keccakf_injective : Function.Injective keccakf := by
  intro st other same
  refine cube_injective (keccakF1600_injective ?_)
  rw [← cube_keccakf, ← cube_keccakf, same]

theorem rotateWords_injective : Function.Injective rotateWords := by
  intro st other same
  refine Vector.ext fun i inside => ?_
  cases i with
  | zero =>
    have last := congrArg (fun st : Words => st[24]) same
    simpa [rotateWords] using last
  | succ i =>
    have word := congrArg (fun st : Words => st[i]) same
    have below : i < 24 := by omega
    simpa [rotateWords, below] using word

/-- There are finitely many states, so that a turn which merges no two of them reaches them all. -/
theorem loopTurn_bijective : Function.Bijective loopTurn :=
  have : Finite Words := .of_injective cube cube_injective
  Finite.injective_iff_bijective.mp (rotateWords_injective.comp keccakf_injective)

/-- A turn is a bijection, and no two keys ever meet: after any number of loops their states differ. -/
theorem loopTurn_separates :
    Function.Bijective loopTurn ∧ ∀ l, Function.Injective fun key : BitVec 64 => loopTurn^[l] (keyWords key) := by
  refine ⟨loopTurn_bijective, fun l => (loopTurn_bijective.injective.iterate l).comp fun key other same => ?_⟩
  have word := congrArg (fun st : Words => st[0]) same
  simpa [keyWords] using word

end Inverse

end Upmem.Keccak
