import Upmem.Lib.Transitions
import Upmem.Vpd

namespace Upmem.Vpd
open Codec Transitions

/-- An update of a VPD. -/
inductive VpdAction
  | addRepairEntry (place : DpuPlace) (repairEntry : RepairEntry)
  | enableDpu (place : DpuPlace)
  | disableDpu (place : DpuPlace)

def VpdAction.exec : VpdAction → DpuVpd → VpdError × DpuVpd
  | .addRepairEntry place repairEntry, vpd => dpuVpdAddRepairEntry vpd place repairEntry
  | .enableDpu place, vpd => dpuVpdEnableDpu vpd place
  | .disableDpu place, vpd => dpuVpdDisableDpu vpd place

/-- An entry that is added is for a DPU. -/
def VpdAction.Valid : VpdAction → Prop
  | .addRepairEntry place repairEntry => repairEntry.IsAt place
  | _ => True

def vpdStep (vpd : DpuVpd) (action : VpdAction) (after : DpuVpd) : Prop :=
  action.Valid ∧ after = (action.exec vpd).2

def newVpd (vpd : DpuVpd) : DpuVpd :=
  (dpuVpdInit .null vpd).2

/-- The entries are distinct and fit, and the bitmaps are those of the entries. -/
structure DpuVpd.Sound (vpd : DpuVpd) : Prop where
  count : vpd.written.length ≤ NB_MAX_REPAIR
  distinct : vpd.written.Pairwise fun a b => ¬a.SameAs b
  iram : ∀ place, (vpd.header.ranks place.rank).iramRepair.getLsbD place.bit = true ↔
    ∃ entry ∈ vpd.written, entry.IsAt place ∧ entry.isIram = true
  wram : ∀ place, (vpd.header.ranks place.rank).wramRepair.getLsbD place.bit = true ↔
    ∃ entry ∈ vpd.written, entry.IsAt place ∧ entry.isIram = false

/-- The state is written, and reading the file gives it back. -/
structure DpuVpd.RoundTrips (vpd : DpuVpd) : Prop where
  written : (dpuVpdWrite vpd).1 = .ok
  read : ∀ target, (dpuVpdInit (.file (dpuVpdWrite vpd).2) target).1 = .ok
  header : ∀ target, (dpuVpdInit (.file (dpuVpdWrite vpd).2) target).2.header = vpd.header
  entries : ∀ target, (dpuVpdInit (.file (dpuVpdWrite vpd).2) target).2.written = vpd.written

/-- What the updates keep besides: the header is that of a VPD. -/
structure DpuVpd.Held (vpd : DpuVpd) : Prop extends vpd.Sound where
  structId : vpd.header.structId = VPD_STRUCT_ID
  structVer : vpd.header.structVer = VPD_STRUCT_VERSION

@[simp] theorem NB_MAX_REPAIR_eq : NB_MAX_REPAIR = 121 := rfl

section Bits
variable {place other : DpuPlace}

theorem DpuPlace.bit_lt (place : DpuPlace) : place.bit < 64 := by
  have ci := place.ci.isLt
  have dpu := place.dpu.isLt
  simp only [DpuPlace.bit, DPU_MAX_NR_CIS, DPU_MAX_NR_DPUS_PER_CI] at *
  omega

/-- DPUs of one rank have different bits. -/
theorem DpuPlace.bit_eq_iff (sameRank : other.rank = place.rank) : other.bit = place.bit ↔ other = place := by
  constructor
  · intro same
    have first := place.dpu.isLt
    have second := other.dpu.isLt
    simp only [DpuPlace.bit, DPU_MAX_NR_DPUS_PER_CI] at *
    obtain ⟨rank, ci, dpu⟩ := place
    obtain ⟨rank', ci', dpu'⟩ := other
    simp only [DpuPlace.mk.injEq] at *
    exact ⟨sameRank, Fin.ext (by omega), Fin.ext (by omega)⟩
  · rintro rfl
    rfl

theorem getLsbD_or_bit (mask : BitVec 64) (sameRank : other.rank = place.rank) :
    (mask ||| 1#64 <<< place.bit).getLsbD other.bit = true ↔ mask.getLsbD other.bit = true ∨ other = place := by
  have inside := other.bit_lt
  rw [BitVec.getLsbD_or, Bool.or_eq_true, ← DpuPlace.bit_eq_iff sameRank]
  refine or_congr_right ?_
  rw [BitVec.getLsbD_shiftLeft, BitVec.getLsbD_one]
  simp only [inside, decide_true, Bool.true_and, Bool.and_eq_true, Bool.not_eq_true', decide_eq_false_iff_not,
    decide_eq_true_eq]
  omega

theorem RepairEntry.IsAt.unique {entry : RepairEntry} (first : entry.IsAt place) (second : entry.IsAt other) :
    other = place := by
  obtain ⟨rank, ci, dpu⟩ := place
  obtain ⟨rank', ci', dpu'⟩ := other
  simp only [RepairEntry.IsAt] at first second
  simp only [DpuPlace.mk.injEq]
  exact ⟨Fin.ext (by omega), Fin.ext (by omega), Fin.ext (by omega)⟩

end Bits

section Updates
variable {vpd : DpuVpd}

theorem written_of_undefined (undefined : vpd.header.repairCount = VPD_UNDEFINED_REPAIR_COUNT) :
    vpd.written = [] := by
  simp [DpuVpd.written, undefined]

theorem written_of_defined (defined : vpd.header.repairCount ≠ VPD_UNDEFINED_REPAIR_COUNT) :
    vpd.written = (List.range vpd.header.repairCount.toNat).map vpd.repairEntries := by
  rw [DpuVpd.written, if_pos defined]

/-- The number of entries that the next one follows. -/
def DpuVpd.nrEntries (vpd : DpuVpd) : BitVec 16 :=
  if vpd.header.repairCount = VPD_UNDEFINED_REPAIR_COUNT then 0#16 else vpd.header.repairCount

theorem written_eq : vpd.written = (List.range vpd.nrEntries.toNat).map vpd.repairEntries := by
  unfold DpuVpd.nrEntries
  by_cases undefined : vpd.header.repairCount = VPD_UNDEFINED_REPAIR_COUNT
  · rw [written_of_undefined undefined, if_pos undefined]
    rfl
  · rw [written_of_defined undefined, if_neg undefined]

theorem length_written : vpd.written.length = vpd.nrEntries.toNat := by
  rw [written_eq, List.length_map, List.length_range]

/-- A change of the bitmap of disabled DPUs. -/
theorem DpuVpd.Held.setDisabled (held : vpd.Held) (rank : Fin VPD_MAX_RANK) (dpuDisabled : BitVec 64) :
    DpuVpd.Held { vpd with header := vpd.header.setRank rank { vpd.header.ranks rank with dpuDisabled :=
      dpuDisabled } } := by
  have iram (r : Fin VPD_MAX_RANK) :
    ((vpd.header.setRank rank { vpd.header.ranks rank with dpuDisabled := dpuDisabled }).ranks r).iramRepair =
      (vpd.header.ranks r).iramRepair := by
    rw [Header.setRank]
    by_cases same : r = rank
    · subst same
      simp
    · simp [same]
  have wram (r : Fin VPD_MAX_RANK) :
    ((vpd.header.setRank rank { vpd.header.ranks rank with dpuDisabled := dpuDisabled }).ranks r).wramRepair =
      (vpd.header.ranks r).wramRepair := by
    rw [Header.setRank]
    by_cases same : r = rank
    · subst same
      simp
    · simp [same]
  exact
    { count := held.count
      distinct := held.distinct
      iram := fun place => by rw [iram]; exact held.iram place
      wram := fun place => by rw [wram]; exact held.wram place
      structId := held.structId
      structVer := held.structVer }

theorem nrEntries_of_count {header : Header} {repairEntries : Nat → RepairEntry}
    (small : header.repairCount.toNat ≤ 121) :
    (⟨header, repairEntries⟩ : DpuVpd).nrEntries = header.repairCount := by
  have defined : header.repairCount ≠ VPD_UNDEFINED_REPAIR_COUNT := by
    intro undefined
    rw [undefined] at small
    revert small
    decide
  exact if_neg defined

/-- Adding an entry to the bitmap of its kind. -/
def RankData.repair (data : RankData) (repairEntry : RepairEntry) (bit : Nat) : RankData :=
  if repairEntry.isIram then { data with iramRepair := data.iramRepair ||| 1#64 <<< bit }
  else { data with wramRepair := data.wramRepair ||| 1#64 <<< bit }

section
variable (place : DpuPlace) (repairEntry : RepairEntry)

/-- A VPD with one more entry. -/
def DpuVpd.append (vpd : DpuVpd) : DpuVpd where
  header :=
    { vpd.header.setRank place.rank ((vpd.header.ranks place.rank).repair repairEntry place.bit) with
      repairCount := vpd.nrEntries + 1 }
  repairEntries := Function.update vpd.repairEntries vpd.nrEntries.toNat repairEntry

theorem dpuVpdAddRepairEntry_new (room : vpd.nrEntries.toNat < 121)
    (new : ∀ entry ∈ vpd.written, ¬entry.SameAs repairEntry) :
    (dpuVpdAddRepairEntry vpd place repairEntry).2 = vpd.append place repairEntry := by
  have counted : (if vpd.header.repairCount = VPD_UNDEFINED_REPAIR_COUNT then 0#16 else vpd.header.repairCount) =
      vpd.nrEntries := rfl
  have notFull : vpd.header.repairCount.toNat ≠ NB_MAX_REPAIR := by
    intro full
    unfold DpuVpd.nrEntries at room
    split at room
    · rename_i undefined
      rw [undefined] at full
      revert full
      decide
    · rw [full, NB_MAX_REPAIR_eq] at room
      omega
  have absent : ((List.range vpd.nrEntries.toNat).any fun repair =>
      (vpd.repairEntries repair).SameAs repairEntry) = false := by
    rw [List.any_eq_false]
    intro repair inside
    have differs :=
      new (vpd.repairEntries repair) (by rw [written_eq]; exact List.mem_map.mpr ⟨repair, inside, rfl⟩)
    simpa using differs
  unfold dpuVpdAddRepairEntry
  rw [if_neg notFull]
  simp only [counted, absent, Bool.false_eq_true, if_false]
  rfl

/-- An addition is refused, finds the entry, or appends it. -/
theorem dpuVpdAddRepairEntry_cases (held : vpd.Held) :
    (dpuVpdAddRepairEntry vpd place repairEntry).2 = vpd ∨
      (vpd.nrEntries.toNat < 121 ∧
        (dpuVpdAddRepairEntry vpd place repairEntry).2 =
          { vpd with header := { vpd.header with repairCount := vpd.nrEntries } }) ∨
      (vpd.nrEntries.toNat < 121 ∧ (∀ entry ∈ vpd.written, ¬entry.SameAs repairEntry) ∧
        (dpuVpdAddRepairEntry vpd place repairEntry).2 = vpd.append place repairEntry) := by
  by_cases full : vpd.header.repairCount.toNat = NB_MAX_REPAIR
  · rw [dpuVpdAddRepairEntry, if_pos full]
    exact .inl rfl
  have room : vpd.nrEntries.toNat < 121 := by
    have few := held.count
    rw [length_written, NB_MAX_REPAIR_eq] at few
    refine lt_of_le_of_ne few fun last => full ?_
    unfold DpuVpd.nrEntries at last
    split at last
    · cases last
    · exact last
  by_cases new : ∀ entry ∈ vpd.written, ¬entry.SameAs repairEntry
  · exact .inr (.inr ⟨room, new, dpuVpdAddRepairEntry_new place repairEntry room new⟩)
  · have counted : (if vpd.header.repairCount = VPD_UNDEFINED_REPAIR_COUNT then 0#16 else vpd.header.repairCount) =
        vpd.nrEntries := rfl
    push Not at new
    obtain ⟨entry, member, same⟩ := new
    rw [written_eq] at member
    obtain ⟨repair, inside, rfl⟩ := List.mem_map.mp member
    have found :
        ((List.range vpd.nrEntries.toNat).any fun repair => (vpd.repairEntries repair).SameAs repairEntry) = true :=
      List.any_eq_true.mpr ⟨repair, inside, by simpa using same⟩
    refine .inr (.inl ⟨room, ?_⟩)
    rw [dpuVpdAddRepairEntry, if_neg full]
    simp only [counted, found, if_true]

end

theorem repair_iram_iff (header : Header) {place other : DpuPlace} (repairEntry : RepairEntry) :
    ((header.setRank place.rank ((header.ranks place.rank).repair repairEntry place.bit)).ranks
        other.rank).iramRepair.getLsbD other.bit = true ↔
      (header.ranks other.rank).iramRepair.getLsbD other.bit = true ∨ other = place ∧
      repairEntry.isIram = true := by
  by_cases sameRank : other.rank = place.rank
  · simp only [Header.setRank, sameRank, Function.update_self, RankData.repair]
    cases repairEntry.isIram with
    | true => simp only [if_true, getLsbD_or_bit _ sameRank, and_true]
    | false => simp
  · have differs : other ≠ place := fun same => sameRank (same ▸ rfl)
    simp [Header.setRank, sameRank, differs]

theorem repair_wram_iff (header : Header) {place other : DpuPlace} (repairEntry : RepairEntry) :
    ((header.setRank place.rank ((header.ranks place.rank).repair repairEntry place.bit)).ranks
        other.rank).wramRepair.getLsbD other.bit = true ↔
      (header.ranks other.rank).wramRepair.getLsbD other.bit = true ∨ other = place ∧
      repairEntry.isIram = false := by
  by_cases sameRank : other.rank = place.rank
  · simp only [Header.setRank, sameRank, Function.update_self, RankData.repair]
    cases repairEntry.isIram with
    | true => simp
    | false => simp only [Bool.false_eq_true, if_false, getLsbD_or_bit _ sameRank, and_true]
  · have differs : other ≠ place := fun same => sameRank (same ▸ rfl)
    simp [Header.setRank, sameRank, differs]

/-- The appended entry is the last one. -/
theorem written_append {vpd : DpuVpd} (place : DpuPlace) (repairEntry : RepairEntry)
    (room : vpd.nrEntries.toNat < 121) :
    (vpd.append place repairEntry).written = vpd.written ++ [repairEntry] := by
  have one : (1 : BitVec 16).toNat = 1 := rfl
  have next : (vpd.append place repairEntry).header.repairCount.toNat = vpd.nrEntries.toNat + 1 := by
    rw [DpuVpd.append, BitVec.toNat_add, one]
    omega
  have small : (vpd.append place repairEntry).header.repairCount.toNat ≤ 121 := by omega
  have counted : (vpd.append place repairEntry).nrEntries = (vpd.append place repairEntry).header.repairCount :=
    nrEntries_of_count small
  have after : (vpd.append place repairEntry).written =
      (List.range (vpd.nrEntries.toNat + 1)).map
      (Function.update vpd.repairEntries vpd.nrEntries.toNat repairEntry) := by
    rw [written_eq, counted, next]
    rfl
  rw [after, List.range_succ, List.map_append, written_eq]
  congr 1
  · refine List.map_congr_left fun repair inside => ?_
    exact Function.update_of_ne (List.mem_range.mp inside).ne _ _
  · simp

theorem DpuVpd.Held.addRepairEntry (held : vpd.Held) {place : DpuPlace} {repairEntry : RepairEntry}
    (own : repairEntry.IsAt place) : (dpuVpdAddRepairEntry vpd place repairEntry).2.Held := by
  rcases dpuVpdAddRepairEntry_cases place repairEntry held with same | ⟨room, found⟩ | ⟨room, new, appended⟩
  · rw [same]
    exact held
  · have counted : ({ vpd with header := { vpd.header with repairCount := vpd.nrEntries } } : DpuVpd).nrEntries =
        vpd.nrEntries := nrEntries_of_count room.le
    have kept : ({ vpd with header := { vpd.header with repairCount := vpd.nrEntries } } : DpuVpd).written =
        vpd.written := by
      rw [written_eq, counted, written_eq]
    rw [found]
    exact
      { count := by rw [kept]; exact held.count
        distinct := by rw [kept]; exact held.distinct
        iram := by rw [kept]; exact held.iram
        wram := by rw [kept]; exact held.wram
        structId := held.structId
        structVer := held.structVer }
  · rw [appended]
    have longer := written_append place repairEntry room
    have here (other : DpuPlace) : repairEntry.IsAt other ↔ other = place :=
      ⟨fun at_other => own.unique at_other, fun same => same ▸ own⟩
    exact
      { count := by
          rw [longer, List.length_append, length_written, List.length_singleton, NB_MAX_REPAIR_eq]
          omega
        distinct := by
          rw [longer, List.pairwise_append]
          exact ⟨held.distinct, List.pairwise_singleton _ _, fun entry old last member =>
            List.mem_singleton.mp member ▸ new entry old⟩
        iram := fun other => by
          rw [longer]
          simp only [List.mem_append, List.mem_singleton, or_and_right, exists_or, exists_eq_left,
            here, ← held.iram other]
          exact repair_iram_iff vpd.header repairEntry
        wram := fun other => by
          rw [longer]
          simp only [List.mem_append, List.mem_singleton, or_and_right, exists_or, exists_eq_left,
            here, ← held.wram other]
          exact repair_wram_iff vpd.header repairEntry
        structId := held.structId
        structVer := held.structVer }

/-- Every update keeps the state sound. -/
theorem DpuVpd.Held.step {action : VpdAction} {after : DpuVpd} (held : vpd.Held)
    (taken : vpdStep vpd action after) :
    after.Held := by
  obtain ⟨valid, rfl⟩ := taken
  cases action with
  | addRepairEntry place repairEntry => exact held.addRepairEntry valid
  | enableDpu place =>
    simp only [VpdAction.exec, dpuVpdEnableDpu]
    split
    · exact held.setDisabled place.rank _
    · exact held
  | disableDpu place =>
    simp only [VpdAction.exec, dpuVpdDisableDpu]
    split
    · exact held.setDisabled place.rank _
    · exact held

theorem newVpd_held (vpd : DpuVpd) : (newVpd vpd).Held where
  count := Nat.zero_le _
  distinct := List.Pairwise.nil
  iram _ := by simp [newVpd, dpuVpdInit, emptyRankData, DpuVpd.written]
  wram _ := by simp [newVpd, dpuVpdInit, emptyRankData, DpuVpd.written]
  structId := rfl
  structVer := rfl

end Updates

section File
variable {vpd : DpuVpd}

theorem readEntries_below (fuel : Nat) (bytes : List Byte) (entries : Nat → RepairEntry) {k i : Nat}
    (below : i < k) :
    readEntries fuel bytes entries k i = entries i := by
  induction fuel generalizing bytes entries k with
  | zero => rfl
  | succ fuel ih =>
    unfold readEntries
    split_ifs
    · rfl
    · rw [ih _ _ (Nat.lt_succ_of_lt below), Function.update_of_ne below.ne]

/-- Entries that were written one after the other are read, whatever follows them. -/
theorem readEntries_encodeAll (es : List RepairEntry) (rest : List Byte) {fuel : Nat} (enough : es.length ≤ fuel)
    (entries : Nat → RepairEntry) (k : Nat) {i : Nat} (inside : i < es.length) :
    readEntries fuel (encodeAll repairEntryCodec es ++ rest) entries k (k + i) = es[i] := by
  induction es generalizing fuel entries k i with
  | nil => exact absurd inside (Nat.not_lt_zero i)
  | cons entry es ih =>
    obtain ⟨fuel, rfl⟩ : ∃ more, fuel = more + 1 := ⟨fuel - 1, by rw [List.length_cons] at enough; omega⟩
    have split : encodeAll repairEntryCodec (entry :: es) ++ rest =
        repairEntryCodec.encode entry ++ (encodeAll repairEntryCodec es ++ rest) := by
      rw [encodeAll, List.flatMap_cons, List.append_assoc]
      rfl
    have long : ¬(repairEntryCodec.encode entry ++ (encodeAll repairEntryCodec es ++ rest)).length <
        repairEntryCodec.size := by
      rw [List.length_append, Fixed.length_encode]
      omega
    rw [split, readEntries, if_neg long, List.drop_left' (Fixed.length_encode _ _),
      List.take_left' (Fixed.length_encode _ _), Fixed.decode_encode]
    cases i with
    | zero =>
      refine (readEntries_below fuel _ _ (show k + 0 < k + 1 by omega)).trans ?_
      rw [Nat.add_zero, Function.update_self, List.getElem_cons_zero]
    | succ i =>
      have more :=
        ih (by simpa using enough) (Function.update entries k entry) (k + 1) (i := i) (by simpa using inside)
      rw [Nat.add_assoc, Nat.add_comm 1] at more
      rw [more, List.getElem_cons_succ]

theorem length_file (vpd : DpuVpd) :
    (headerCodec.encode vpd.header ++ encodeAll repairEntryCodec vpd.written).length = 112 +
      16 * vpd.written.length := by
  rw [List.length_append, Fixed.length_encode, length_encodeAll]
  rfl

/-- The file is written unless it is full, where there is nothing to pad. -/
theorem dpuVpdWrite_eq (few : vpd.written.length ≤ 121) :
    (vpd.written.length = 121 ∧ (dpuVpdWrite vpd).1 = .err) ∨ (vpd.written.length ≠ 121 ∧ ∃ padding,
      dpuVpdWrite vpd = (.ok,
        headerCodec.encode vpd.header ++ (encodeAll repairEntryCodec vpd.written ++ padding))) := by
  unfold dpuVpdWrite
  simp only [length_file, VPD_MAX_SIZE, VPD_SIZE_CHUNK_MULTIPLE]
  by_cases full : vpd.written.length = 121
  · refine .inl ⟨full, ?_⟩
    rw [full]
    rfl
  · have some : min ((2 ^ 64 + 2048 - (112 + 16 * vpd.written.length)) % 2 ^ 64)
        (272 - (112 + 16 * vpd.written.length) % 272) ≠ 0 := by omega
    refine .inr ⟨full, ?_⟩
    rw [if_neg some, List.append_assoc]
    exact ⟨_, rfl⟩

/-- Reading a file that starts with the header and the entries of a VPD. -/
theorem dpuVpdInit_file (held : vpd.Held) (padding : List Byte) (target : DpuVpd) :
    ∃ after, dpuVpdInit
      (.file (headerCodec.encode vpd.header ++ (encodeAll repairEntryCodec vpd.written ++ padding))) target =
      (.ok, after) ∧ after.header = vpd.header ∧ after.written = vpd.written := by
  have long : ¬(headerCodec.encode vpd.header ++ (encodeAll repairEntryCodec vpd.written ++ padding)).length <
      headerCodec.size := by
    rw [List.length_append, Fixed.length_encode]
    omega
  have first : headerCodec.decode ((headerCodec.encode vpd.header ++
      (encodeAll repairEntryCodec vpd.written ++ padding)).take headerCodec.size) = vpd.header := by
    rw [List.take_left' (Fixed.length_encode _ _), Fixed.decode_encode]
  have rest :
    (headerCodec.encode vpd.header ++ (encodeAll repairEntryCodec vpd.written ++ padding)).drop headerCodec.size =
      encodeAll repairEntryCodec vpd.written ++ padding := List.drop_left' (Fixed.length_encode _ _)
  simp only [dpuVpdInit, long, if_false, first, rest, held.structId, held.structVer, ne_eq, not_true_eq_false]
  by_cases undefined : vpd.header.repairCount = VPD_UNDEFINED_REPAIR_COUNT
  · refine ⟨⟨vpd.header, target.repairEntries⟩, by simp [undefined], rfl, ?_⟩
    have none : (⟨vpd.header, target.repairEntries⟩ : DpuVpd).written = [] := written_of_undefined undefined
    rw [none, written_of_undefined undefined]
  · simp only [undefined, not_false_eq_true, if_true]
    refine ⟨_, rfl, rfl, ?_⟩
    have count : vpd.written.length = vpd.header.repairCount.toNat := by
      rw [written_of_defined undefined, List.length_map, List.length_range]
    have fuel : vpd.written.length ≤
        (headerCodec.encode vpd.header ++ (encodeAll repairEntryCodec vpd.written ++ padding)).length := by
      have file := length_file vpd
      simp only [List.length_append] at file ⊢
      omega
    have entries : (⟨vpd.header, readEntries
        (headerCodec.encode vpd.header ++ (encodeAll repairEntryCodec vpd.written ++ padding)).length
        (encodeAll repairEntryCodec vpd.written ++ padding) target.repairEntries 0⟩ : DpuVpd).written = _ :=
      written_of_defined undefined
    rw [entries]
    refine List.ext_getElem (by simp [count]) fun i inside other => ?_
    have read := readEntries_encodeAll vpd.written padding fuel target.repairEntries 0 other
    rw [Nat.zero_add] at read
    rw [← read, List.getElem_map, List.getElem_range]

/-- A sound state goes through a file and comes back unless it is full. -/
theorem DpuVpd.Held.roundTrips_iff (held : vpd.Held) : vpd.RoundTrips ↔ vpd.written.length ≠ 121 := by
  have few := held.count
  rw [NB_MAX_REPAIR_eq] at few
  rcases dpuVpdWrite_eq few with ⟨full, failed⟩ | ⟨room, padding, result⟩
  · refine iff_of_false (fun trips => ?_) (not_not.mpr full)
    cases failed.symm.trans trips.written
  · refine iff_of_true ⟨by rw [result], fun target => ?_, fun target => ?_, fun target => ?_⟩ room
    all_goals
      obtain ⟨after, read, header, entries⟩ := dpuVpdInit_file held padding target
      rw [result, read]
    · exact header
    · exact entries

end File

/-- After any sequence of updates of a new VPD the entries and the bitmaps are
sound, and the VPD goes through a file and comes back, if and only if it holds
less than the greatest number of entries. -/
theorem sound_roundTrips_iff (vpd : DpuVpd) {s : DpuVpd} (reach : Reachable vpdStep (newVpd vpd) s) :
    s.Sound ∧ s.RoundTrips ↔ s.header.repairCount.toNat ≠ NB_MAX_REPAIR := by
  have held : s.Held := reach.invariant (newVpd_held vpd) fun _ _ _ held taken => held.step taken
  have count : s.written.length = 121 ↔ s.header.repairCount.toNat = NB_MAX_REPAIR := by
    rw [length_written, DpuVpd.nrEntries, NB_MAX_REPAIR_eq]
    split
    · rename_i undefined
      rw [undefined]
      decide
    · rfl
  rw [held.roundTrips_iff, ne_eq, count]
  exact and_iff_right held.toSound

/-- The first DPU of a DIMM. -/
def firstDpu : DpuPlace := ⟨⟨0, by decide⟩, ⟨0, by decide⟩, ⟨0, by decide⟩⟩

/-- A defect in the IRAM of the first DPU. -/
def iramDefect (address : Nat) : RepairEntry :=
  ⟨0#8, 0#8, 0#8, 0#8, 0#8, 0#8, BitVec.ofNat 16 address, 1#64⟩

/-- A new VPD to which some defects of the first DPU are added. -/
def defectiveVpd : Nat → DpuVpd
  | 0 => newVpd ⟨⟨0, 0, 0, 0, 0, 0, 0, fun _ => emptyRankData⟩, fun _ => iramDefect 0⟩
  | n + 1 => (dpuVpdAddRepairEntry (defectiveVpd n) firstDpu (iramDefect n)).2

theorem defectiveVpd_written {n : Nat} (few : n ≤ 121) :
    Reachable vpdStep (defectiveVpd 0)
    (defectiveVpd n) ∧ (defectiveVpd n).written = (List.range n).map iramDefect := by
  induction n with
  | zero => exact ⟨⟨[], .start⟩, rfl⟩
  | succ n ih =>
    obtain ⟨reach, written⟩ := ih (by omega)
    have room : (defectiveVpd n).nrEntries.toNat < 121 := by
      rw [← length_written, written, List.length_map, List.length_range]
      omega
    have new : ∀ entry ∈ (defectiveVpd n).written, ¬entry.SameAs (iramDefect n) := by
      intro entry member same
      rw [written] at member
      obtain ⟨address, inside, rfl⟩ := List.mem_map.mp member
      have addresses := congrArg BitVec.toNat same.2.2.2.2.2.1
      have below := List.mem_range.mp inside
      simp only [iramDefect, BitVec.toNat_ofNat] at addresses
      omega
    have next : defectiveVpd (n + 1) = (defectiveVpd n).append firstDpu (iramDefect n) :=
      dpuVpdAddRepairEntry_new firstDpu (iramDefect n) room new
    have own : (iramDefect n).IsAt firstDpu := ⟨rfl, rfl, rfl⟩
    have taken : vpdStep (defectiveVpd n) (.addRepairEntry firstDpu (iramDefect n)) (defectiveVpd (n + 1)) :=
      ⟨own, rfl⟩
    refine ⟨reach.next taken, ?_⟩
    rw [next, written_append firstDpu (iramDefect n) room, written, List.range_succ, List.map_append]
    rfl

theorem sound_roundTrips_iff_oneDefect : (defectiveVpd 1).Sound ∧ (defectiveVpd 1).RoundTrips :=
  (sound_roundTrips_iff _ (defectiveVpd_written (n := 1) (by omega)).1).mpr (by decide)

/-- A VPD with as many entries as fit cannot be written. -/
theorem fullVpd_not_roundTrips :
    ¬∀ (vpd s : DpuVpd), Reachable vpdStep (newVpd vpd) s → s.Sound ∧ s.RoundTrips := by
  intro always
  obtain ⟨reach, written⟩ := defectiveVpd_written (n := 121) le_rfl
  have length : (defectiveVpd 121).written.length = 121 := by rw [written, List.length_map, List.length_range]
  rcases dpuVpdWrite_eq length.le with ⟨-, failed⟩ | ⟨room, -⟩
  · cases failed.symm.trans (always _ _ reach).2.written
  · exact room length

end Upmem.Vpd
