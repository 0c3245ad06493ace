import Upmem.Lib.Codec
import Upmem.Mask

namespace Upmem.Vpd
open Codec

def VPD_MAX_RANK : Nat := 4
def VPD_STRUCT_ID : BitVec 32 := 0x564d5055#32
def VPD_STRUCT_VERSION : BitVec 32 := 0x4000#32
def VPD_MAX_SIZE : Nat := 2048
def VPD_UNDEFINED_REPAIR_COUNT : BitVec 16 := -1#16
def VPD_SIZE_CHUNK_MULTIPLE : Nat := 272

/-- `enum dpu_vpd_error`. -/
inductive VpdError
  | ok | headerFormat | headerVersion | nbMaxRepair | dpuAlreadyEnabled | dpuAlreadyDisabled | err
  deriving DecidableEq

/-- `struct dpu_vpd_rank_data`. -/
structure RankData where
  dpuDisabled : BitVec 64
  wramRepair : BitVec 64
  iramRepair : BitVec 64

/-- `struct dpu_vpd_repair_entry`. -/
structure RepairEntry where
  iramWram : BitVec 8
  rank : BitVec 8
  ci : BitVec 8
  dpu : BitVec 8
  bank : BitVec 8
  padding : BitVec 8
  address : BitVec 16
  bits : BitVec 64

/-- `struct dpu_vpd_header`, with its four letters as a word. -/
structure Header where
  structId : BitVec 32
  structVer : BitVec 32
  structSize : BitVec 16
  rankCount : BitVec 8
  padding0 : BitVec 8
  repairCount : BitVec 16
  padding1 : BitVec 16
  ranks : Fin VPD_MAX_RANK → RankData

def rankDataCodec : Fixed RankData :=
  (pair (word 8) (pair (word 8) (word 8))).via (fun data => (data.dpuDisabled, data.wramRepair, data.iramRepair))
    (fun p => ⟨p.1, p.2.1, p.2.2⟩) fun _ => rfl

def repairEntryCodec : Fixed RepairEntry :=
  (pair (word 1) (pair (word 1) (pair (word 1) (pair (word 1) (pair (word 1) (pair (word 1)
    (pair (word 2) (word 8)))))))).via
    (fun entry => (entry.iramWram, entry.rank, entry.ci, entry.dpu, entry.bank, entry.padding,
      entry.address, entry.bits))
    (fun p => ⟨p.1, p.2.1, p.2.2.1, p.2.2.2.1, p.2.2.2.2.1, p.2.2.2.2.2.1, p.2.2.2.2.2.2.1,
      p.2.2.2.2.2.2.2⟩) fun _ => rfl

def headerCodec : Fixed Header :=
  (pair (word 4) (pair (word 4) (pair (word 2) (pair (word 1) (pair (word 1) (pair (word 2) (pair (word 2)
    (array VPD_MAX_RANK rankDataCodec)))))))).via
    (fun header => (header.structId, header.structVer, header.structSize, header.rankCount, header.padding0,
      header.repairCount, header.padding1, header.ranks))
    (fun p => ⟨p.1, p.2.1, p.2.2.1, p.2.2.2.1, p.2.2.2.2.1, p.2.2.2.2.2.1, p.2.2.2.2.2.2.1,
      p.2.2.2.2.2.2.2⟩) fun _ => rfl

def NB_MAX_REPAIR : Nat := (VPD_MAX_SIZE - headerCodec.size) / repairEntryCodec.size

/-- `struct dpu_vpd`. The array of repair entries has `NB_MAX_REPAIR` elements. -/
structure DpuVpd where
  header : Header
  repairEntries : Nat → RepairEntry

/-- What `vpd_path` names. -/
inductive VpdPath
  | null
  | absent
  | file (bytes : List Byte)

/-- The loop that reads entries as long as the file has them. -/
def readEntries : Nat → List Byte → (Nat → RepairEntry) → Nat → (Nat → RepairEntry)
  | 0, _, entries, _ => entries
  | fuel + 1, bytes, entries, repairCount =>
    if bytes.length < repairEntryCodec.size then entries
    else
      readEntries fuel (bytes.drop repairEntryCodec.size)
        (Function.update entries repairCount (repairEntryCodec.decode (bytes.take repairEntryCodec.size)))
          (repairCount + 1)

def emptyRankData : RankData := ⟨0, 0, 0⟩

def dpuVpdInit (vpdPath : VpdPath) (vpd : DpuVpd) : VpdError × DpuVpd :=
  match vpdPath with
  | .null =>
    (.ok, { vpd with
      header :=
        ⟨VPD_STRUCT_ID, VPD_STRUCT_VERSION, BitVec.ofNat 16 headerCodec.size, 0, 0, VPD_UNDEFINED_REPAIR_COUNT, 0,
        fun _ => emptyRankData⟩ })
  | .absent => (.err, vpd)
  | .file bytes =>
    if bytes.length < headerCodec.size then (.err, vpd)
    else
      let vpd := { vpd with header := headerCodec.decode (bytes.take headerCodec.size) }
      if vpd.header.structId ≠ VPD_STRUCT_ID then (.headerFormat, vpd)
      else if vpd.header.structVer ≠ VPD_STRUCT_VERSION then (.headerVersion, vpd)
      else if vpd.header.repairCount ≠ VPD_UNDEFINED_REPAIR_COUNT then
        (.ok, { vpd with
          repairEntries := readEntries bytes.length (bytes.drop headerCodec.size) vpd.repairEntries 0 })
      else (.ok, vpd)

/-- The entries that `dpu_vpd_write` writes. -/
def DpuVpd.written (vpd : DpuVpd) : List RepairEntry :=
  if vpd.header.repairCount ≠ VPD_UNDEFINED_REPAIR_COUNT then
    (List.range vpd.header.repairCount.toNat).map vpd.repairEntries
  else []

/-- `dpu_vpd_write` to a new file, where every write of at least one byte
succeeds. A write of elements of size 0 gives 0. -/
def dpuVpdWrite (vpd : DpuVpd) : VpdError × List Byte :=
  let bytes := headerCodec.encode vpd.header ++ encodeAll repairEntryCodec vpd.written
  let sizeWritten := bytes.length
  let sizeAlign := min ((2 ^ 64 + VPD_MAX_SIZE - sizeWritten) % 2 ^ 64)
    (VPD_SIZE_CHUNK_MULTIPLE - sizeWritten % VPD_SIZE_CHUNK_MULTIPLE)
  if sizeAlign = 0 then (.err, bytes) else (.ok, bytes ++ List.replicate sizeAlign 0#8)

/-- `__dpu_vpd_compare_repair_entry`. -/
def RepairEntry.SameAs (a b : RepairEntry) : Prop :=
  a.iramWram = b.iramWram ∧ a.rank = b.rank ∧ a.ci = b.ci ∧ a.dpu = b.dpu ∧ a.bank = b.bank ∧
    a.address = b.address ∧
    a.bits = b.bits

instance (a b : RepairEntry) : Decidable (a.SameAs b) := by
  unfold RepairEntry.SameAs
  infer_instance

/-- A DPU of a DIMM. -/
structure DpuPlace where
  rank : Fin VPD_MAX_RANK
  ci : Fin DPU_MAX_NR_CIS
  dpu : Fin DPU_MAX_NR_DPUS_PER_CI
  deriving DecidableEq

/-- The number of a DPU in the bitmaps of its rank. -/
def DpuPlace.bit (place : DpuPlace) : Nat := place.ci * DPU_MAX_NR_DPUS_PER_CI + place.dpu

/-- An entry is for a DPU. -/
def RepairEntry.IsAt (entry : RepairEntry) (place : DpuPlace) : Prop :=
  entry.rank.toNat = place.rank ∧ entry.ci.toNat = place.ci ∧ entry.dpu.toNat = place.dpu

def RepairEntry.isIram (entry : RepairEntry) : Bool := entry.iramWram = 0#8

/-- The change of the data of one rank. -/
def Header.setRank (header : Header) (rank : Fin VPD_MAX_RANK) (data : RankData) : Header :=
  { header with ranks := Function.update header.ranks rank data }

/-- `dpu_vpd_add_repair_entry` for an entry of a DPU. -/
def dpuVpdAddRepairEntry (vpd : DpuVpd) (place : DpuPlace) (repairEntry : RepairEntry) : VpdError × DpuVpd :=
  if vpd.header.repairCount.toNat = NB_MAX_REPAIR then (.nbMaxRepair, vpd)
  else
    let count := if vpd.header.repairCount = VPD_UNDEFINED_REPAIR_COUNT then 0#16 else vpd.header.repairCount
    let vpd := { vpd with header := { vpd.header with repairCount := count } }
    if (List.range count.toNat).any fun repair => (vpd.repairEntries repair).SameAs repairEntry then (.ok, vpd)
    else
      let data := vpd.header.ranks place.rank
      let mask := 1#64 <<< place.bit
      let data := if repairEntry.isIram then { data with iramRepair := data.iramRepair ||| mask }
        else { data with wramRepair := data.wramRepair ||| mask }
      (.ok, { header := { vpd.header.setRank place.rank data with repairCount := count + 1 }
              repairEntries := Function.update vpd.repairEntries count.toNat repairEntry })

def dpuVpdDisableDpu (vpd : DpuVpd) (place : DpuPlace) : VpdError × DpuVpd :=
  let mask := 1#64 <<< place.bit
  let data := vpd.header.ranks place.rank
  if data.dpuDisabled &&& mask = 0 then
    (.ok,
      { vpd with header := vpd.header.setRank place.rank { data with dpuDisabled := data.dpuDisabled ||| mask } })
  else (.dpuAlreadyDisabled, vpd)

def dpuVpdEnableDpu (vpd : DpuVpd) (place : DpuPlace) : VpdError × DpuVpd :=
  let mask := 1#64 <<< place.bit
  let data := vpd.header.ranks place.rank
  if data.dpuDisabled &&& mask ≠ 0 then
    (.ok, { vpd with header := vpd.header.setRank place.rank { data with dpuDisabled :=
      data.dpuDisabled &&& ~~~mask } })
  else (.dpuAlreadyEnabled, vpd)

end Upmem.Vpd
