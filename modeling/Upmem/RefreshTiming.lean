import Mathlib.Data.BitVec
import Mathlib.Tactic.IntervalCases

namespace Upmem.RefreshTiming

/-- Arithmetic of `u32`. -/
def word (n : Nat) : Nat := n % 2 ^ 32

/-- `n - 1` in a word. -/
def minusOne (n : Nat) : Nat := word (n + (2 ^ 32 - 1))

/-- `nr_cycles_for`. -/
def nrCyclesFor (durationInNsTenfold frequencyInMhz : Nat) : Nat :=
  word ((durationInNsTenfold * frequencyInMhz + (1000 - 1)) / 1000)

def REFRESH_START_VALUE : Nat := 2

def REFRESH_END_VALUE : Nat := 2

def REFRESH_ACTIVATE_DURATION_TENFOLD_NS : Nat := 512

def REFRESH_PRECHARGE_DURATION_TENFOLD_NS : Nat := 269

def REFRESH_NR_PULSES_DEFAULT : Nat := 4

/-- The arguments of `fill_timing_configuration`. -/
structure Clock where
  fckFrequency : Nat
  fckDivision : Nat
  refreshMode : Nat

namespace Clock
variable (clock : Clock)

def halfTenthFckFrequency : Nat := clock.fckFrequency / (2 * 10)

/-- What `refresh_activate` begins with. -/
def refreshActivate : Nat :=
  minusOne (nrCyclesFor REFRESH_ACTIVATE_DURATION_TENFOLD_NS clock.halfTenthFckFrequency)

/-- What `refresh_precharge` begins with. -/
def refreshPrecharge : Nat :=
  minusOne (nrCyclesFor REFRESH_PRECHARGE_DURATION_TENFOLD_NS clock.halfTenthFckFrequency)

def refreshNrPulses : Nat := REFRESH_NR_PULSES_DEFAULT / clock.refreshMode

def tRFC : Nat :=
  match clock.refreshMode with
  | 1 => 345
  | 2 => 255
  | _ => 155

def refreshModeLog2 : Nat :=
  match clock.refreshMode with
  | 1 => 0
  | 2 => 1
  | _ => 2

def refresh (activate precharge : Nat) : Nat :=
  word (REFRESH_START_VALUE + 1 + clock.refreshNrPulses * (activate + 1) +
    (clock.refreshNrPulses - 1) * (precharge + 1) + nrCyclesFor (14 * 10) clock.halfTenthFckFrequency)

def refreshDma : Nat :=
  minusOne (word (word (clock.tRFC * clock.fckFrequency) / (4 * clock.fckDivision * 1000)))

def refreshCyclesTotal (activate precharge : Nat) : Nat :=
  word (1 + REFRESH_START_VALUE + 1 + clock.refreshNrPulses * (activate + 1) +
    clock.refreshNrPulses * (precharge + 1) + REFRESH_END_VALUE + 1)

def dmaCycles : Nat := word ((clock.refreshDma + 1) * 4 * clock.fckDivision) / 2

/-- What the loop of `fill_timing_configuration` goes through, and what it ends with. -/
structure Settled where
  visited : List (Nat × Nat)
  activate : Nat
  precharge : Nat

/-- The loop, for a number of turns. -/
def fillLoop : (turns activate precharge : Nat) → Option Settled
  | 0, _, _ => none
  | turns + 1, activate, precharge =>
    if clock.dmaCycles ≤ clock.refreshCyclesTotal activate precharge then
      (fillLoop turns (minusOne activate) (minusOne precharge)).map fun settled =>
        { settled with visited := (activate, precharge) :: settled.visited }
    else some ⟨[(activate, precharge)], activate, precharge⟩

end Clock

/-- What `fill_timing_configuration` stores. -/
structure TimingConfig where
  refreshAccessNumber : BitVec 8
  refreshStart : BitVec 8
  refreshActiv : BitVec 8
  refreshPrech : BitVec 8
  refreshEnd : BitVec 8
  refreshAndRowHammerInfo : BitVec 16

/-- `refresh_and_row_hammer_info`, where the bit 8 of the value is kept at the top. -/
def refreshInfo (refresh : BitVec 32) (refreshModeLog2 : BitVec 32) : BitVec 16 :=
  (((refresh >>> 8) &&& 1#32) <<< 15 ||| (refreshModeLog2 &&& 3#32) <<< 8 ||| (refresh &&& 0xFF#32)).setWidth 16

/-- The value of nine bits in it. -/
def refreshOf (info : BitVec 16) : Nat := (info >>> 15).toNat * 2 ^ 8 + (info &&& 0xFF#16).toNat

def Clock.store (clock : Clock) (activate precharge : Nat) : TimingConfig where
  refreshAccessNumber := BitVec.ofNat 8 clock.refreshDma
  refreshStart := BitVec.ofNat 8 REFRESH_START_VALUE
  refreshActiv := BitVec.ofNat 8 activate
  refreshPrech := BitVec.ofNat 8 precharge
  refreshEnd := BitVec.ofNat 8 REFRESH_END_VALUE
  refreshAndRowHammerInfo :=
    refreshInfo (BitVec.ofNat 32 (clock.refresh activate precharge)) (BitVec.ofNat 32 clock.refreshModeLog2)

def Clock.fillTimingConfiguration (clock : Clock) (turns : Nat) : Option TimingConfig :=
  (clock.fillLoop turns clock.refreshActivate clock.refreshPrecharge).map fun settled =>
    clock.store settled.activate settled.precharge

/-- The division that `fetch_dma_and_wavegen_configs` takes for a factor. -/
def divisionOf : Nat → Nat
  | 3 => 3
  | 4 => 4
  | _ => 2

/-- What `fetch_dma_and_wavegen_configs` passes on. -/
def fetchedClock (fckFrequency clockDivision refreshMode : Nat) : Clock :=
  ⟨fckFrequency, divisionOf clockDivision, refreshMode⟩

def fetchDmaAndWavegenConfigs (turns fckFrequency clockDivision refreshMode : Nat) : Option TimingConfig :=
  (fetchedClock fckFrequency clockDivision refreshMode).fillTimingConfiguration turns

/-- Nothing is lost where the values are stored. -/
structure Clock.Lossless (clock : Clock) (activate precharge : Nat) : Prop where
  accessNumber : (clock.store activate precharge).refreshAccessNumber.toNat = clock.refreshDma
  activ : (clock.store activate precharge).refreshActiv.toNat = activate
  prech : (clock.store activate precharge).refreshPrech.toNat = precharge
  refresh : refreshOf (clock.store activate precharge).refreshAndRowHammerInfo = clock.refresh activate precharge

/-- Neither counter is ever above what it began with, as it is once it has gone below 0,
the DMA takes more cycles than the refresh, and nothing is lost. -/
structure Clock.Right (clock : Clock) (settled : Clock.Settled) : Prop where
  above : ∀ pair ∈ settled.visited, pair.1 ≤ clock.refreshActivate ∧ pair.2 ≤ clock.refreshPrecharge
  enough : 1 + REFRESH_START_VALUE + 1 + clock.refreshNrPulses * (settled.activate + 1) +
    clock.refreshNrPulses * (settled.precharge + 1) + REFRESH_END_VALUE + 1 <
      (clock.refreshDma + 1) * 4 * clock.fckDivision / 2
  lossless : clock.Lossless settled.activate settled.precharge

/-- The loop ends, it is right, and what it has come to is stored. -/
def Clock.Fits (clock : Clock) : Prop :=
  ∃ turns settled, clock.fillLoop turns clock.refreshActivate clock.refreshPrecharge = some settled ∧
    clock.Right settled ∧
    clock.fillTimingConfiguration turns = some (clock.store settled.activate settled.precharge)

section Info
variable (refresh refreshModeLog2 : BitVec 32)

theorem refreshInfo_top : refreshInfo refresh refreshModeLog2 >>> 15 = ((refresh >>> 8) &&& 1#32).setWidth 16 := by
  ext i inside
  rcases Nat.eq_zero_or_pos i with rfl | more
  · simp [refreshInfo, ← BitVec.getLsbD_eq_getElem]
  · simp [refreshInfo, ← BitVec.getLsbD_eq_getElem, more.ne']
    omega

theorem refreshInfo_low : refreshInfo refresh refreshModeLog2 &&& 0xFF#16 = (refresh &&& 0xFF#32).setWidth 16 := by
  have same : ∀ i < 16, (0xFF#16).getLsbD i = decide (i < 8) := by decide
  ext i inside
  by_cases small : i < 8
  · simp [refreshInfo, ← BitVec.getLsbD_eq_getElem, same i inside, small, show i < 15 by omega]
  · simp [refreshInfo, ← BitVec.getLsbD_eq_getElem, same i inside, small]

/-- Nine bits of the value are kept. -/
theorem refreshOf_refreshInfo : refreshOf (refreshInfo refresh refreshModeLog2) = refresh.toNat % 512 := by
  have one : (refresh.toNat >>> 8) &&& 1 = refresh.toNat / 256 % 2 := by
    rw [Nat.and_one_is_mod, Nat.shiftRight_eq_div_pow]
  have byte : refresh.toNat &&& 255 = refresh.toNat % 256 := Nat.and_two_pow_sub_one_eq_mod _ 8
  rw [refreshOf, refreshInfo_top, refreshInfo_low]
  simp only [BitVec.toNat_setWidth, BitVec.toNat_and, BitVec.toNat_ushiftRight, BitVec.toNat_ofNat]
  norm_num [one, byte]
  omega

end Info

namespace Clock
variable {clock : Clock}

theorem lossless_iff {activate precharge : Nat} : clock.Lossless activate precharge ↔
    clock.refreshDma < 256 ∧ activate < 256 ∧ precharge < 256 ∧ clock.refresh activate precharge < 512 := by
  have kept : refreshOf (clock.store activate precharge).refreshAndRowHammerInfo =
      clock.refresh activate precharge % 512 := by
    have bound : clock.refresh activate precharge < 2 ^ 32 := Nat.mod_lt _ (by decide)
    rw [store, refreshOf_refreshInfo, BitVec.toNat_ofNat, Nat.mod_eq_of_lt bound]
  have byte (n : Nat) : (BitVec.ofNat 8 n).toNat = n ↔ n < 256 := by
    rw [BitVec.toNat_ofNat]
    omega
  constructor
  · rintro ⟨access, activ, prech, whole⟩
    rw [kept] at whole
    exact ⟨(byte _).mp access, (byte _).mp activ, (byte _).mp prech, by omega⟩
  · rintro ⟨access, activ, prech, whole⟩
    exact ⟨(byte _).mpr access, (byte _).mpr activ, (byte _).mpr prech, kept.trans (Nat.mod_eq_of_lt whole)⟩

/-- Nothing is lost of what a turn ends with, as far as it fits at all. -/
def keeps (clock : Clock) (activate precharge : Nat) : Bool :=
  decide (clock.refreshDma < 256) && decide (activate < 256) && decide (precharge < 256) &&
    decide (clock.refresh activate precharge < 512)

/-- The loop as long as no counter wraps, with what it ends with. -/
def settles (clock : Clock) : (precharge activate : Nat) → Bool
  | 0, activate => decide (clock.refreshCyclesTotal activate 0 < clock.dmaCycles) && clock.keeps activate 0
  | precharge + 1, activate =>
    if clock.refreshCyclesTotal activate (precharge + 1) < clock.dmaCycles then clock.keeps activate (precharge + 1)
    else decide (activate ≠ 0) && settles clock precharge (activate - 1)

theorem keeps_iff {activate precharge : Nat} : clock.keeps activate precharge = true ↔
      clock.Lossless activate precharge := by
  rw [lossless_iff]
  simp [keeps, and_assoc]

/-- Where nothing is lost the cycles are what they are in a word. -/
theorem enough_of_keeps {activate precharge : Nat} (pulses : clock.refreshNrPulses ≤ 4)
    (division : clock.fckDivision ≤ 4)
    (lossless : clock.Lossless activate precharge)
    (fits : clock.refreshCyclesTotal activate precharge < clock.dmaCycles) :
    1 + REFRESH_START_VALUE + 1 + clock.refreshNrPulses * (activate + 1) +
      clock.refreshNrPulses * (precharge + 1) + REFRESH_END_VALUE + 1 <
        (clock.refreshDma + 1) * 4 * clock.fckDivision / 2 := by
  obtain ⟨access, activ, prech, _⟩ := lossless_iff.mp lossless
  have activates : clock.refreshNrPulses * (activate + 1) ≤ 4 * 256 := Nat.mul_le_mul pulses activ
  have precharges : clock.refreshNrPulses * (precharge + 1) ≤ 4 * 256 := Nat.mul_le_mul pulses prech
  have cycles : (clock.refreshDma + 1) * 4 * clock.fckDivision ≤ 256 * 4 * 4 :=
    Nat.mul_le_mul (Nat.mul_le_mul_right 4 access) division
  unfold refreshCyclesTotal dmaCycles word REFRESH_START_VALUE REFRESH_END_VALUE at *
  rw [Nat.mod_eq_of_lt (by omega), Nat.mod_eq_of_lt (by omega)] at fits
  exact fits

/-- Where a turn begins is visited. -/
theorem fillLoop_visits {turns activate precharge : Nat} {settled : Settled}
    (ends : clock.fillLoop turns activate precharge = some settled) : (activate, precharge) ∈ settled.visited := by
  cases turns with
  | zero => cases ends
  | succ turns =>
    rw [fillLoop] at ends
    split_ifs at ends with more
    · obtain ⟨rest, _, rfl⟩ := Option.map_eq_some_iff.mp ends
      exact List.mem_cons_self
    · rw [← Option.some.inj ends]
      exact List.mem_cons_self

theorem minusOne_pos {n : Nat} (positive : n ≠ 0) (bound : n < 2 ^ 32) : minusOne n = n - 1 := by
  unfold minusOne word
  omega

theorem fillLoop_right (pulses : clock.refreshNrPulses ≤ 4) (division : clock.fckDivision ≤ 4)
    (word : clock.refreshActivate < 2 ^ 32 - 1 ∧ clock.refreshPrecharge < 2 ^ 32 - 1) (precharge activate : Nat)
    (lowActivate : activate ≤ clock.refreshActivate) (lowPrecharge : precharge ≤ clock.refreshPrecharge) :
    (∃ turns settled, clock.fillLoop turns activate precharge = some settled ∧ clock.Right settled) ↔
      clock.settles precharge activate = true := by
  have last {activate precharge : Nat} (low : activate ≤ clock.refreshActivate ∧ precharge ≤ clock.refreshPrecharge)
      (fits : clock.refreshCyclesTotal activate precharge < clock.dmaCycles) :
      (∃ turns settled, clock.fillLoop turns activate precharge = some settled ∧ clock.Right settled) ↔
        clock.keeps activate precharge = true := by
    rw [keeps_iff]
    constructor
    · rintro ⟨turns, settled, ends, right⟩
      cases turns with
      | zero => cases ends
      | succ turns =>
        rw [fillLoop, if_neg (not_le.mpr fits)] at ends
        obtain rfl := Option.some.inj ends
        exact right.lossless
    · intro lossless
      have enough := enough_of_keeps pulses division lossless fits
      refine ⟨1, ⟨[(activate, precharge)], activate, precharge⟩, ?_, ?_, enough, lossless⟩
      · rw [fillLoop, if_neg (not_le.mpr fits)]
      intro pair member
      rw [List.mem_singleton.mp member]
      exact low
  induction precharge generalizing activate with
  | zero =>
    rw [settles, Bool.and_eq_true, decide_eq_true_eq]
    by_cases fits : clock.refreshCyclesTotal activate 0 < clock.dmaCycles
    · rw [and_iff_right fits]
      exact last ⟨lowActivate, lowPrecharge⟩ fits
    · refine iff_of_false ?_ fun both => fits both.1
      rintro ⟨turns, settled, ends, right⟩
      cases turns with
      | zero => cases ends
      | succ turns =>
        rw [fillLoop, if_pos (not_lt.mp fits)] at ends
        obtain ⟨rest, after, rfl⟩ := Option.map_eq_some_iff.mp ends
        have wrapped := (right.above _ (List.mem_cons_of_mem _ (fillLoop_visits after))).2
        have above : minusOne 0 < 2 ^ 32 - 1 := wrapped.trans_lt word.2
        exact absurd above (by decide)
  | succ precharge ih =>
    rw [settles]
    split_ifs with fits
    · exact last ⟨lowActivate, lowPrecharge⟩ fits
    rw [Bool.and_eq_true, decide_eq_true_eq]
    have before : minusOne (precharge + 1) = precharge := minusOne_pos (Nat.succ_ne_zero _) (by omega)
    by_cases zero : activate = 0
    · refine iff_of_false ?_ fun both => both.1 zero
      rintro ⟨turns, settled, ends, right⟩
      cases turns with
      | zero => cases ends
      | succ turns =>
        rw [fillLoop, if_pos (not_lt.mp fits)] at ends
        obtain ⟨rest, after, rfl⟩ := Option.map_eq_some_iff.mp ends
        have wrapped := (right.above _ (List.mem_cons_of_mem _ (fillLoop_visits after))).1
        rw [zero] at wrapped
        have above : minusOne 0 < 2 ^ 32 - 1 := wrapped.trans_lt word.1
        exact absurd above (by decide)
    · have earlier : minusOne activate = activate - 1 := minusOne_pos zero (by omega)
      rw [and_iff_right zero]
      refine Iff.trans ?_ (ih (activate - 1) (by omega) (by omega))
      constructor
      · rintro ⟨turns, settled, ends, right⟩
        cases turns with
        | zero => cases ends
        | succ turns =>
          rw [fillLoop, if_pos (not_lt.mp fits), before, earlier] at ends
          obtain ⟨rest, after, rfl⟩ := Option.map_eq_some_iff.mp ends
          exact ⟨turns, rest, after,
            fun pair member => right.above pair (List.mem_cons_of_mem _ member), right.enough,
            right.lossless⟩
      · rintro ⟨turns, settled, ends, right⟩
        refine ⟨turns + 1, { settled with visited := (activate, precharge + 1) :: settled.visited },
          ?_, ?_, right.enough,
          right.lossless⟩
        · rw [fillLoop, if_pos (not_lt.mp fits), before, earlier, ends]
          rfl
        · exact List.forall_mem_cons.mpr ⟨⟨lowActivate, lowPrecharge⟩, right.above⟩

theorem settles_first {precharge activate : Nat}
    (fits : clock.refreshCyclesTotal activate precharge < clock.dmaCycles) :
    clock.settles precharge activate = clock.keeps activate precharge := by
  cases precharge with
  | zero => rw [settles, decide_eq_true fits, Bool.true_and]
  | succ precharge => rw [settles, if_pos fits]

/-- Counters that are too far apart do not both fit. -/
theorem settles_far {precharge activate : Nat} (far : precharge + 256 ≤ activate) :
    clock.settles precharge activate = false := by
  have wide (precharge : Nat) {activate : Nat} (far : 256 ≤ activate) : clock.keeps activate precharge = false := by
    simp [keeps, not_lt.mpr far]
  induction precharge generalizing activate with
  | zero => rw [settles, wide 0 (by omega), Bool.and_false]
  | succ precharge ih =>
    rw [settles]
    split_ifs
    · exact wide _ (by omega)
    · rw [ih (by omega), Bool.and_false]

end Clock

/-- The frequencies for a division and a mode. -/
def window (fckDivision refreshMode fckFrequency : Nat) : Bool :=
  match refreshMode, fckDivision with
  | 1, 2 => (116 ≤ fckFrequency && fckFrequency < 120) || (140 ≤ fckFrequency && fckFrequency < 3360)
  | 1, _ => 140 ≤ fckFrequency && fckFrequency < 3360
  | 2, 3 => 142 ≤ fckFrequency && fckFrequency < 7080
  | 2, _ => 126 ≤ fckFrequency && fckFrequency < 7080
  | _, 2 => (156 ≤ fckFrequency && fckFrequency < 200) || (208 ≤ fckFrequency && fckFrequency < 10020)
  | _, 3 => (156 ≤ fckFrequency && fckFrequency < 200) || (234 ≤ fckFrequency && fckFrequency < 10020)
  | _, _ => 208 ≤ fckFrequency && fckFrequency < 10020

/-- The loop from where it begins. -/
def Clock.settlesAtAll (clock : Clock) : Bool := clock.settles clock.refreshPrecharge clock.refreshActivate

theorem settles_low : ∀ fckDivision ∈ [2, 3, 4], ∀ refreshMode ∈ [1, 2, 4],
    ((List.range (if refreshMode = 1 then 660 else 250)).all fun k =>
      Clock.settlesAtAll ⟨2 * k + 102, fckDivision, refreshMode⟩ ==
        window fckDivision refreshMode (2 * k + 102)) = true := by
  decide +kernel

section High
variable {clock : Clock}

theorem word_eq {n : Nat} (small : n < 2 ^ 32) : word n = n := Nat.mod_eq_of_lt small

theorem nrCyclesFor_eq {duration : Nat} (short : duration ≤ 1000) (word : clock.fckFrequency < 2 ^ 32) :
    nrCyclesFor duration clock.halfTenthFckFrequency = (duration * (clock.fckFrequency / 20) + 999) / 1000 := by
  have product : duration * (clock.fckFrequency / 20) ≤ 1000 * (2 ^ 32 / 20) := Nat.mul_le_mul short (by omega)
  have same : clock.halfTenthFckFrequency = clock.fckFrequency / 20 := rfl
  rw [nrCyclesFor, same, word_eq (by omega)]

/-- What the counters begin with. -/
theorem counters (word : clock.fckFrequency < 2 ^ 32) (above : 100 < clock.fckFrequency) :
    clock.refreshActivate + 1 = (512 * (clock.fckFrequency / 20) + 999) / 1000 ∧
      clock.refreshPrecharge + 1 = (269 * (clock.fckFrequency / 20) + 999) / 1000 := by
  unfold Clock.refreshActivate Clock.refreshPrecharge REFRESH_ACTIVATE_DURATION_TENFOLD_NS
    REFRESH_PRECHARGE_DURATION_TENFOLD_NS
  rw [nrCyclesFor_eq (by decide) word, nrCyclesFor_eq (by decide) word, Clock.minusOne_pos (by omega) (by omega),
    Clock.minusOne_pos (by omega) (by omega)]
  omega

theorem refreshDma_eq (clock : Clock) (low : clock.tRFC * clock.fckFrequency < 2 ^ 32)
    (enough : 0 < clock.tRFC * clock.fckFrequency / (4 * clock.fckDivision * 1000)) :
    clock.refreshDma + 1 = clock.tRFC * clock.fckFrequency / (4 * clock.fckDivision * 1000) := by
  have small : clock.tRFC * clock.fckFrequency / (4 * clock.fckDivision * 1000) < 2 ^ 32 :=
    (Nat.div_le_self _ _).trans_lt low
  rw [Clock.refreshDma, word_eq low, word_eq small, Clock.minusOne_pos (by omega) small]
  omega

section Numbers
variable {f a p d c m t n : Nat} (above : 1420 ≤ f ∨ m ≠ 1 ∧ 600 ≤ f) (low : f < 22000)
  (activate : a + 1 = (512 * (f / 20) + 999) / 1000)
  (precharge : p + 1 = (269 * (f / 20) + 999) / 1000) (dma : d + 1 = t * f / (4 * c * 1000))
  (division : c = 2 ∨ c = 3 ∨ c = 4)
  (mode : m = 1 ∧ t = 345 ∧ n = 4 ∨ m = 2 ∧ t = 255 ∧ n = 2 ∨ m = 4 ∧ t = 155 ∧ n = 1)
include above low activate precharge dma division mode

theorem first_turn_fits : word (1 + 2 + 1 + n * (a + 1) + n * (p + 1) + 2 + 1) < word ((d + 1) * 4 * c) / 2 := by
  rcases division with rfl | rfl | rfl <;> rcases mode with ⟨rfl, rfl, rfl⟩ | ⟨rfl, rfl, rfl⟩ | ⟨rfl, rfl, rfl⟩ <;>
    simp only [Nat.reduceMul] at dma <;>
    rw [word_eq (by omega), word_eq (by omega)] <;>
    omega

theorem stored_iff : (d < 256 ∧ a < 256 ∧ p < 256 ∧
    word (2 + 1 + n * (a + 1) + (n - 1) * (p + 1) + (140 * (f / 20) + 999) / 1000) < 512) ↔
    window c m f = true := by
  -- from these frequencies on the refresh value takes more than nine bits
  have beyond : (3360 ≤ f → 87 ≤ (512 * (f / 20) + 999) / 1000 ∧ 46 ≤ (269 * (f / 20) + 999) / 1000 ∧
      24 ≤ (140 * (f / 20) + 999) / 1000) ∧ (7080 ≤ f → 182 ≤ (512 * (f / 20) + 999) / 1000 ∧
      96 ≤ (269 * (f / 20) + 999) / 1000 ∧ 50 ≤ (140 * (f / 20) + 999) / 1000) := by omega
  have under (below : f < 7080) : (512 * (f / 20) + 999) / 1000 ≤ 181 ∧ (269 * (f / 20) + 999) / 1000 ≤ 95 ∧
      (140 * (f / 20) + 999) / 1000 ≤ 50 := by omega
  rcases division with rfl | rfl | rfl <;> rcases mode with ⟨rfl, rfl, rfl⟩ | ⟨rfl, rfl, rfl⟩ | ⟨rfl, rfl, rfl⟩ <;>
    simp only [window, Bool.or_eq_true, Bool.and_eq_true, decide_eq_true_eq, Nat.reduceMul] at dma ⊢ <;>
    rw [word_eq (by omega)] <;>
    omega

end Numbers

theorem mode_values (mode : clock.refreshMode = 1 ∨ clock.refreshMode = 2 ∨ clock.refreshMode = 4) :
    clock.refreshMode = 1 ∧ clock.tRFC = 345 ∧ clock.refreshNrPulses = 4 ∨
      clock.refreshMode = 2 ∧ clock.tRFC = 255 ∧ clock.refreshNrPulses = 2 ∨
        clock.refreshMode = 4 ∧ clock.tRFC = 155 ∧ clock.refreshNrPulses = 1 := by
  unfold Clock.tRFC Clock.refreshNrPulses REFRESH_NR_PULSES_DEFAULT
  rcases mode with mode | mode | mode <;> simp [mode]

theorem settles_high (division : clock.fckDivision = 2 ∨ clock.fckDivision = 3 ∨ clock.fckDivision = 4)
    (mode : clock.refreshMode = 1 ∨ clock.refreshMode = 2 ∨ clock.refreshMode = 4)
    (above : 1420 ≤ clock.fckFrequency ∨ clock.refreshMode ≠ 1 ∧ 600 ≤ clock.fckFrequency)
    (low : clock.fckFrequency < 22000) :
    clock.settlesAtAll = window clock.fckDivision clock.refreshMode clock.fckFrequency := by
  have word : clock.fckFrequency < 2 ^ 32 := by omega
  obtain ⟨activate, precharge⟩ := counters word (by omega)
  have values := mode_values mode
  have times : 155 * 600 ≤ clock.tRFC * clock.fckFrequency ∧ clock.tRFC * clock.fckFrequency ≤ 345 * 22000 :=
    ⟨Nat.mul_le_mul (by omega) (by omega), Nat.mul_le_mul (by omega) low.le⟩
  have dma : clock.refreshDma + 1 = clock.tRFC * clock.fckFrequency / (4 * clock.fckDivision * 1000) :=
    refreshDma_eq clock (by omega) (Nat.div_pos (by omega) (by omega))
  have first : clock.refreshCyclesTotal clock.refreshActivate clock.refreshPrecharge < clock.dmaCycles :=
    first_turn_fits above low activate precharge dma division values
  have stored := stored_iff above low activate precharge dma division values
  have cycles :
      nrCyclesFor (14 * 10) clock.halfTenthFckFrequency = (140 * (clock.fckFrequency / 20) + 999) / 1000 :=
    nrCyclesFor_eq (by decide) word
  rw [Clock.settlesAtAll, Clock.settles_first first, Bool.eq_iff_iff, Clock.keeps_iff, Clock.lossless_iff, ← stored,
    Clock.refresh, cycles]
  rfl

/-- Too high a frequency is none of the window, and takes the counters too far apart. -/
theorem settles_over (word : clock.fckFrequency < 2 ^ 32) (beyond : 22000 ≤ clock.fckFrequency) :
    clock.settlesAtAll = false := by
  obtain ⟨activate, precharge⟩ := counters word (by omega)
  rw [Clock.settlesAtAll]
  exact Clock.settles_far (by omega)

theorem window_over {fckDivision refreshMode fckFrequency : Nat} (beyond : 22000 ≤ fckFrequency) :
    window fckDivision refreshMode fckFrequency = false := by
  unfold window
  split <;> simp <;> omega

end High

/-- The division is one of three. -/
theorem divisionOf_cases (factor : Nat) : divisionOf factor = 2 ∨ divisionOf factor = 3 ∨
      divisionOf factor = 4 := by
  unfold divisionOf
  split <;> simp

/-- For an even frequency above 100 the timing is filled in right if and only if the frequency is in the window. -/
theorem Clock.fits_iff (clock : Clock)
    (division : clock.fckDivision = 2 ∨ clock.fckDivision = 3 ∨ clock.fckDivision = 4)
    (mode : clock.refreshMode = 1 ∨ clock.refreshMode = 2 ∨ clock.refreshMode = 4)
    (even : clock.fckFrequency % 2 = 0)
    (above : 100 < clock.fckFrequency) (word : clock.fckFrequency < 2 ^ 32) :
    clock.Fits ↔ window clock.fckDivision clock.refreshMode clock.fckFrequency = true := by
  have values := mode_values mode
  obtain ⟨activate, precharge⟩ := counters word above
  have agrees : clock.settlesAtAll = window clock.fckDivision clock.refreshMode clock.fckFrequency := by
    by_cases beyond : 22000 ≤ clock.fckFrequency
    · rw [settles_over word beyond, window_over beyond]
    by_cases low : clock.fckFrequency < if clock.refreshMode = 1 then 1420 else 600
    · have each := settles_low clock.fckDivision (by simpa using division) clock.refreshMode (by simpa using mode)
      have here :=
        List.all_eq_true.mp each (clock.fckFrequency / 2 - 51) (List.mem_range.mpr (by split_ifs at * <;> omega))
      rw [show 2 * (clock.fckFrequency / 2 - 51) + 102 = clock.fckFrequency by omega] at here
      exact beq_iff_eq.mp here
    · exact settles_high division mode (by split_ifs at low <;> omega) (by omega)
  rw [← agrees, Clock.settlesAtAll]
  have pulses : clock.refreshNrPulses ≤ 4 := by omega
  have small : clock.fckDivision ≤ 4 := by omega
  have counts : clock.refreshActivate < 2 ^ 32 - 1 ∧ clock.refreshPrecharge < 2 ^ 32 - 1 := by omega
  rw [← fillLoop_right pulses small counts clock.refreshPrecharge clock.refreshActivate le_rfl le_rfl]
  constructor
  · rintro ⟨turns, settled, ends, right, _⟩
    exact ⟨turns, settled, ends, right⟩
  · rintro ⟨turns, settled, ends, right⟩
    exact ⟨turns, settled, ends, right, by rw [fillTimingConfiguration, ends]; rfl⟩

theorem fetch_fits_iff (fckFrequency clockDivision refreshMode : Nat) (even : fckFrequency % 2 = 0)
    (above : 100 < fckFrequency) (word : fckFrequency < 2 ^ 32)
    (mode : refreshMode = 1 ∨ refreshMode = 2 ∨ refreshMode = 4) :
    (fetchedClock fckFrequency clockDivision refreshMode).Fits ↔
      window (divisionOf clockDivision) refreshMode fckFrequency = true :=
  (fetchedClock fckFrequency clockDivision refreshMode).fits_iff
    (divisionOf_cases clockDivision) mode even above word

theorem fetch_fits_thousand : (fetchedClock 1000 2 2).Fits :=
  (fetch_fits_iff 1000 2 2 (by decide) (by decide) (by decide) (by decide)).mpr (by decide)

/-- At 102 MHz, divided by 4, `refresh_dma` is below 0, and the loop does not end. -/
theorem fetch_lowest_wrong : ¬(fetchedClock 102 4 4).Fits := fun fits =>
  absurd (((fetchedClock 102 4 4).fits_iff (by decide) (by decide) (by decide) (by decide) (by decide)).mp fits)
    (by decide)

end Upmem.RefreshTiming
