import Upmem.Rank

namespace Upmem.PcMode

/-- The DPUs of a rank, and the mode of the program counter that each of them reports. -/
structure PcRank where
  nrCis : Nat
  nrDpusPerCi : Nat
  enabled : (ci dpu : Nat) → Bool
  reported : (ci dpu : Nat) → BitVec 8

inductive PcCommand
  | selectAll
  | setPcMode (mode : BitVec 8)
  | selectDpu (dpu : Nat)
  | getPcMode (dpu : Nat)

/-- The entry for each CI of an array of modes. -/
abbrev PcModes := Nat → BitVec 8

variable (rank : PcRank) (answer : PcCommand → DpuError) (pcMode : BitVec 8)

/-- The mask that `ufi_select_dpu` leaves of all CIs. -/
def selected (dpu ci : Nat) : Bool := rank.enabled ci dpu

/-- `ufi_get_pc_mode` of the selected DPU: the other entries stay as they are. -/
def ufiGetPcMode (mask : Nat → Bool) (dpu : Nat) (pcModes : PcModes) : PcModes :=
  fun ci => if ci < rank.nrCis ∧ mask ci = true then rank.reported ci dpu else pcModes ci

/-- The inner loop, from a slice on: the entry that is compared is that of the number of the DPU. -/
def checkSlices (dpuId : Nat) (pcModes : PcModes) (status : DpuError) : (left sliceId : Nat) → DpuError
  | 0, _ => status
  | left + 1, sliceId =>
    if rank.enabled sliceId dpuId = true ∧ pcModes dpuId ≠ pcMode then .internal
    else checkSlices dpuId pcModes status left (sliceId + 1)

/-- The outer loop, from a DPU on. -/
def checkLines : (left dpuId : Nat) → DpuError → PcModes → DpuError
  | 0, _, status, _ => status
  | left + 1, dpuId, _, pcModes =>
    let status := answer (.selectDpu dpuId)
    if status ≠ .ok then status
    else
      let status := answer (.getPcMode dpuId)
      if status ≠ .ok then status
      else
        let pcModes := ufiGetPcMode rank (selected rank dpuId) dpuId pcModes
        checkLines left (dpuId + 1) (checkSlices rank pcMode dpuId pcModes status rank.nrCis 0) pcModes

def dpuSetPcMode : DpuError :=
  let status := answer .selectAll
  if status ≠ .ok then status
  else
    let status := answer (.setPcMode pcMode)
    if status ≠ .ok then status else checkLines rank answer pcMode rank.nrDpusPerCi 0 status fun _ => pcMode

/-- What the array holds for a CI once a number of lines has been read. -/
def lastReported (ci : Nat) : Nat → BitVec 8
  | 0 => pcMode
  | dpu + 1 => if ci < rank.nrCis ∧ rank.enabled ci dpu = true then rank.reported ci dpu else lastReported ci dpu

variable {rank answer pcMode}

theorem checkSlices_ok (dpuId : Nat) (pcModes : PcModes) (left sliceId : Nat) :
    checkSlices rank pcMode dpuId pcModes .ok left sliceId = .ok ↔
      (∃ ci, sliceId ≤ ci ∧ ci < sliceId + left ∧ rank.enabled ci dpuId = true) → pcModes dpuId = pcMode := by
  induction left generalizing sliceId with
  | zero => exact iff_of_true rfl fun ⟨ci, above, below, _⟩ => absurd below (by omega)
  | succ left ih =>
    rw [checkSlices]
    by_cases same : pcModes dpuId = pcMode
    · rw [if_neg fun both => both.2 same, ih]
      exact iff_of_true (fun _ => same) fun _ => same
    by_cases here : rank.enabled sliceId dpuId = true
    · rw [if_pos ⟨here, same⟩]
      exact iff_of_false (by decide) fun all => same (all ⟨sliceId, le_rfl, by omega, here⟩)
    · rw [if_neg fun both => here both.1, ih]
      refine imp_congr_left (exists_congr fun ci => ⟨fun ⟨above, below, on⟩ => ⟨by omega, by omega, on⟩, ?_⟩)
      rintro ⟨above, below, on⟩
      have differ : sliceId ≠ ci := by
        rintro rfl
        exact here on
      exact ⟨by omega, by omega, on⟩

/-- The array after the lines up to `dpuId` have been read, and the status after a line
depends on that line alone. -/
theorem checkLines_ok (fine : ∀ command, answer command = .ok) (left dpuId : Nat) (status : DpuError) :
    checkLines rank answer pcMode (left + 1) dpuId status (fun ci => lastReported rank pcMode ci dpuId) = .ok ↔
      (∃ ci < rank.nrCis, rank.enabled ci (dpuId + left) = true) →
        lastReported rank pcMode (dpuId + left) (dpuId + left + 1) = pcMode := by
  have read (dpuId : Nat) :
    ufiGetPcMode rank (selected rank dpuId) dpuId (fun ci => lastReported rank pcMode ci dpuId) =
      fun ci => lastReported rank pcMode ci (dpuId + 1) := rfl
  induction left generalizing dpuId status with
  | zero =>
    simp only [checkLines, fine, ne_eq, not_true_eq_false, if_false, read, checkSlices_ok]
    simp
  | succ left ih =>
    rw [checkLines]
    simp only [fine, ne_eq, not_true_eq_false, if_false, read]
    refine (ih (dpuId + 1) _).trans ?_
    rw [Nat.add_right_comm dpuId 1 left, Nat.add_assoc dpuId left 1]

/-- The array differs from the mode that was asked for where the last enabled DPU of a CI reports another one. -/
theorem lastReported_ne {ci : Nat} (lines : Nat) : lastReported rank pcMode ci lines ≠ pcMode ↔
    ci < rank.nrCis ∧ ∃ dpu < lines, rank.enabled ci dpu = true ∧ rank.reported ci dpu ≠ pcMode ∧
      ∀ later, dpu < later → later < lines → rank.enabled ci later = false := by
  induction lines with
  | zero => simp [lastReported]
  | succ last ih =>
    rw [lastReported]
    by_cases inside : ci < rank.nrCis
    · by_cases here : rank.enabled ci last = true
      · rw [if_pos ⟨inside, here⟩, and_iff_right inside]
        constructor
        · exact fun other =>
            ⟨last, Nat.lt_succ_self _, here, other, fun later above below => absurd below (by omega)⟩
        · rintro ⟨dpu, below, on, other, rest⟩
          rcases Nat.lt_succ_iff_lt_or_eq.mp below with earlier | rfl
          · rw [rest last earlier (Nat.lt_succ_self _)] at here
            cases here
          · exact other
      · rw [if_neg fun both => here both.2, ih]
        refine and_congr_right fun _ => exists_congr fun dpu => ?_
        constructor
        · rintro ⟨below, on, other, rest⟩
          refine ⟨by omega, on, other, fun later above inside => ?_⟩
          rcases Nat.lt_succ_iff_lt_or_eq.mp inside with earlier | rfl
          · exact rest later above earlier
          · exact (Bool.not_eq_true _).mp here
        · rintro ⟨below, on, other, rest⟩
          have differ : dpu ≠ last := by
            rintro rfl
            exact here on
          exact ⟨by omega, on, other, fun later above inside => rest later above (by omega)⟩
    · rw [if_neg fun both => inside both.1, ih]
      exact iff_of_false (fun both => inside both.1) fun both => inside both.1

/-- All enabled DPUs report the mode. -/
def AllReport (rank : PcRank) (pcMode : BitVec 8) : Prop :=
  ∀ ci < rank.nrCis, ∀ dpu < rank.nrDpusPerCi, rank.enabled ci dpu = true → rank.reported ci dpu = pcMode

/-- With `n` DPUs per CI, the last line has an enabled DPU, and the last enabled DPU of
the CI `n - 1` reports another mode. -/
def Noticed (rank : PcRank) (pcMode : BitVec 8) : Prop :=
  (∃ ci < rank.nrCis, rank.enabled ci (rank.nrDpusPerCi - 1) = true) ∧ rank.nrDpusPerCi - 1 < rank.nrCis ∧
    ∃ dpu < rank.nrDpusPerCi, rank.enabled (rank.nrDpusPerCi - 1) dpu = true ∧
      rank.reported (rank.nrDpusPerCi - 1) dpu ≠ pcMode ∧
      ∀ later, dpu < later → later < rank.nrDpusPerCi → rank.enabled (rank.nrDpusPerCi - 1) later = false

theorem dpuSetPcMode_ok (fine : ∀ command, answer command = .ok) :
    dpuSetPcMode rank answer pcMode = .ok ↔ ¬Noticed rank pcMode := by
  rw [dpuSetPcMode]
  simp only [fine, ne_eq, not_true_eq_false, if_false]
  rw [Noticed]
  cases rank.nrDpusPerCi with
  | zero => simp [checkLines]
  | succ last =>
    have lines := @checkLines_ok rank answer pcMode fine last 0 .ok
    rw [Nat.zero_add] at lines
    refine lines.trans ?_
    rw [not_and, Nat.add_sub_cancel]
    exact imp_congr_right fun _ => by rw [← lastReported_ne, not_not]

/-- The check succeeds exactly when all enabled DPUs report the mode, if and only if they all do or what is wrong is
noticed. -/
theorem dpuSetPcMode_right_iff (rank : PcRank) (answer : PcCommand → DpuError) (pcMode : BitVec 8)
    (fine : ∀ command, answer command = .ok) :
    (dpuSetPcMode rank answer pcMode = .ok ↔ AllReport rank pcMode) ↔ AllReport rank pcMode ∨
      Noticed rank pcMode := by
  rw [dpuSetPcMode_ok fine]
  have wrong : Noticed rank pcMode → ¬AllReport rank pcMode := by
    rintro ⟨_, inside, dpu, below, on, other, _⟩ all
    exact other (all _ inside dpu below on)
  tauto

/-- One CI of two DPUs, of which the second one reports another mode. -/
def secondDiffers : PcRank := ⟨1, 2, fun _ _ => true, fun _ dpu => if dpu = 1 then 1#8 else 0#8⟩

theorem secondDiffers_unnoticed :
    ¬(dpuSetPcMode secondDiffers (fun _ => .ok) 0#8 = .ok ↔ AllReport secondDiffers 0#8) := by
  intro right
  have all := right.mp (by decide) 0 (by decide) 1 (by decide) rfl
  exact absurd all (by decide)

/-- Eight CIs of eight DPUs, of which the last one is disabled. The one before it and a DPU of the first CI report
another mode. -/
def twoDiffer : PcRank :=
  ⟨8, 8, fun ci dpu => !(ci == 7 && dpu == 7), fun ci dpu => if (ci, dpu) ∈ [(0, 3), (7, 6)] then 1#8 else 0#8⟩

theorem twoDiffer_right : dpuSetPcMode twoDiffer (fun _ => .ok) 0#8 = .ok ↔ AllReport twoDiffer 0#8 :=
  (dpuSetPcMode_right_iff _ _ _ fun _ => rfl).mpr
    (.inr ⟨⟨0, by decide, rfl⟩, by decide, 6, by decide, rfl, by decide, fun later above below => by
      obtain rfl : later = 7 := Nat.le_antisymm (Nat.le_of_lt_succ below) above
      rfl⟩)

end Upmem.PcMode
