import Upmem.ByteInterleave
import Upmem.Lib.Blit

namespace Upmem.Power9
open Blit ByteInterleave

/-- `struct dpu_transfer_matrix`: 64 pointers, the offset, the size and the type. -/
def MAX_NR_DPUS_PER_RANK : Nat := 64
def OFFSET_FIELD : Nat := 512
def SIZE_FIELD : Nat := 516
def SIZEOF_MATRIX : Nat := 528

def BANK_START (dpuId : Nat) : Nat :=
  match dpuId with
  | 0 => 0
  | 1 => 0x400
  | 2 => 0x200
  | 3 => 0x600
  | 4 => 0x100
  | 5 => 0x500
  | 6 => 0x300
  | _ => 0x700

def BANK_OFFSET_NEXT_DATA (i : BitVec 32) : BitVec 32 := 0x40#32 * i
def BANK_CHUNK_SIZE : Nat := 0x80
def BANK_NEXT_CHUNK_OFFSET : Nat := 0x800

/-- The words at an address, least significant byte first. -/
def word32 (host : Bytes) (address : Nat) : BitVec 32 :=
  host (address + 3) ++ host (address + 2) ++ host (address + 1) ++ host address

def word64 (host : Bytes) (address : Nat) : BitVec 64 := word32 host (address + 4) ++ word32 host address

/-- The state of a transfer: the accesses to the memory of the host, each with its length, in order. -/
structure XferState where
  host : Bytes
  region : Bytes
  cacheLine : Bytes
  accesses : List (Nat × Nat)

def XferState.access (s : XferState) (address length : Nat) : XferState :=
  { s with accesses := s.accesses ++ [(address, length)] }

/-- `byte_interleave` of both halves of the 16 words. -/
def interleaveBoth (cacheLine : Bytes) : Bytes :=
  fun p => if p < 64 then byteInterleave cacheLine p else byteInterleave (fun q => cacheLine (64 + q)) (p - 64)

section Transfer
variable (nbCis xferMatrix : Nat)

/-- The size and the offset of a line. They are read in the entry of the first DPU that
has a buffer, as if the matrix were an array of matrices. -/
def lineParameters (idx : Nat) : List Nat → XferState → (BitVec 32 × BitVec 32) × XferState
  | [], s => ((0#32, 0#32), s)
  | ciId :: rest, s =>
    let s := s.access (xferMatrix + 8 * (idx + ciId)) 8
    if word64 s.host (xferMatrix + 8 * (idx + ciId)) ≠ 0#64 then
      let entry := xferMatrix + SIZEOF_MATRIX * (idx + ciId)
      ((word32 s.host (entry + SIZE_FIELD), word32 s.host (entry + OFFSET_FIELD)),
        (s.access (entry + SIZE_FIELD) 4).access (entry + OFFSET_FIELD) 4)
    else lineParameters idx rest s

/-- The place of the words of a turn in the banks of a line. -/
def bankOffset (offset : BitVec 32) (i : Nat) : Nat :=
  let nextData := (BANK_OFFSET_NEXT_DATA (BitVec.ofNat 32 i + offset / 8#32)).toNat
  nextData % BANK_CHUNK_SIZE + nextData / BANK_CHUNK_SIZE * BANK_NEXT_CHUNK_OFFSET

/-- The address that is taken for a word of the buffer of a DPU: the array of pointers of the entry of the DPU. -/
def wordOf (idx i ciId : Nat) : Nat := xferMatrix + SIZEOF_MATRIX * (idx + ciId % nbCis) + 8 * (i + ciId / nbCis)

def fetchWord (idx i : Nat) (s : XferState) (ciId : Nat) : XferState :=
  let s := s.access (xferMatrix + 8 * (idx + ciId % nbCis)) 8
  if word64 s.host (xferMatrix + 8 * (idx + ciId % nbCis)) ≠ 0#64 then
    { s.access (wordOf nbCis xferMatrix idx i ciId) 8 with
      cacheLine := blit s.host (wordOf nbCis xferMatrix idx i ciId) s.cacheLine (8 * ciId) 8 }
  else s

def storeWord (idx i : Nat) (interleaved : Bytes) (s : XferState) (ciId : Nat) : XferState :=
  let s := s.access (xferMatrix + 8 * (idx + ciId % nbCis)) 8
  if word64 s.host (xferMatrix + 8 * (idx + ciId % nbCis)) ≠ 0#64 then
    { s.access (wordOf nbCis xferMatrix idx i ciId) 8 with
      host := blit interleaved (8 * ciId) s.host (wordOf nbCis xferMatrix idx i ciId) 8 }
  else s

def writeTurn (dpuId : Nat) (offset : BitVec 32) (s : XferState) (i : Nat) : XferState :=
  let s := (List.range (nbCis * 2)).foldl (fetchWord nbCis xferMatrix (8 * dpuId) i) s
  { s with region := blit (interleaveBoth s.cacheLine) 0 s.region (BANK_START dpuId + bankOffset offset i) 128 }

def readTurn (dpuId : Nat) (offset : BitVec 32) (s : XferState) (i : Nat) : XferState :=
  let cacheLine := blit s.region (BANK_START dpuId + bankOffset offset i) s.cacheLine 0 128
  (List.range (2 * nbCis)).foldl (storeWord nbCis xferMatrix (8 * dpuId) i (interleaveBoth cacheLine))
    { s with cacheLine := cacheLine }

/-- The counter of the turns, which goes up by two. -/
def turns (sizeTransfer : BitVec 32) : List Nat := (List.range ((sizeTransfer.toNat / 8 + 1) / 2)).map (2 * ·)

/-- A line, with the turns of a direction. -/
def transferLine (turn : Nat → BitVec 32 → XferState → Nat → XferState) (s : XferState) (dpuId : Nat) : XferState :=
  let ((sizeTransfer, offset), s) := lineParameters xferMatrix (8 * dpuId) (List.range nbCis) s
  if sizeTransfer = 0#32 then s else (turns sizeTransfer).foldl (turn dpuId offset) s

end Transfer

section Rank
variable (nbCis nbDpusPerCi xferMatrix : Nat)

def power9WriteToRank (s : XferState) : XferState :=
  (List.range nbDpusPerCi).foldl (transferLine nbCis xferMatrix (writeTurn nbCis xferMatrix)) s

def power9ReadFromRank (s : XferState) : XferState :=
  (List.range nbDpusPerCi).foldl (transferLine nbCis xferMatrix (readTurn nbCis xferMatrix)) s

end Rank

/-- The MRAM bytes that have been written, by the index of the DPU. -/
abbrev Mrams := Nat → Nat → Option (BitVec 8)

/-- A transfer with the memory of the host, in which its matrix is. -/
structure XferCall where
  isWrite : Bool
  host : Bytes
  matrix : Nat
  cacheLine : Bytes

/-- The buffer of a DPU; the DPU has none if it is 0. -/
def XferCall.ptr (call : XferCall) (index : Nat) : Nat := (word64 call.host (call.matrix + 8 * index)).toNat

def XferCall.size (call : XferCall) : Nat := (word32 call.host (call.matrix + SIZE_FIELD)).toNat

def XferCall.offset (call : XferCall) : Nat := (word32 call.host (call.matrix + OFFSET_FIELD)).toNat

def NB_CIS : Nat := 8

def XferCall.exec (nbDpusPerCi : Nat) (call : XferCall) (region : Bytes) : XferState :=
  let s : XferState := ⟨call.host, region, call.cacheLine, []⟩
  if call.isWrite then power9WriteToRank NB_CIS nbDpusPerCi call.matrix s
  else power9ReadFromRank NB_CIS nbDpusPerCi call.matrix s

/-- The DPU of the rank has a buffer. -/
def XferCall.Given (call : XferCall) (nbDpusPerCi index : Nat) : Prop :=
  index < NB_CIS * nbDpusPerCi ∧ call.ptr index ≠ 0

instance {call : XferCall} {nbDpusPerCi index : Nat} : Decidable (call.Given nbDpusPerCi index) :=
  inferInstanceAs (Decidable (_ ∧ _))

/-- An access lies in the matrix, or in the buffer of a DPU. -/
def XferCall.Allows (call : XferCall) (nbDpusPerCi : Nat) (access : Nat × Nat) : Prop :=
  (call.matrix ≤ access.1 ∧ access.1 + access.2 ≤ call.matrix + SIZEOF_MATRIX) ∨
    ∃ index, call.Given nbDpusPerCi index ∧ call.ptr index ≤ access.1 ∧
    access.1 + access.2 ≤ call.ptr index + call.size

/-- A transfer only accesses the matrix and the buffers, and a read returns the bytes last written. -/
structure XferCall.Right (nbDpusPerCi : Nat) (call : XferCall) (region : Bytes) (mrams : Mrams) : Prop where
  confined : ∀ access ∈ (call.exec nbDpusPerCi region).accesses, call.Allows nbDpusPerCi access
  returns : call.isWrite = false → ∀ index, call.Given nbDpusPerCi index → ∀ y < call.size, ∀ byte,
    mrams index (call.offset + y) = some byte → (call.exec nbDpusPerCi region).host (call.ptr index + y) = byte

/-- What has been written after a transfer. -/
def Mrams.next (mrams : Mrams) (nbDpusPerCi : Nat) (call : XferCall) : Mrams :=
  if call.isWrite then
    fun index x =>
      if call.Given nbDpusPerCi index ∧ call.offset ≤ x ∧ x < call.offset + call.size then
        some (call.host (call.ptr index + (x - call.offset)))
      else mrams index x
  else mrams

/-- Every transfer of a sequence is right. -/
def RunRight (nbDpusPerCi : Nat) : Bytes → Mrams → List XferCall → Prop
  | _, _, [] => True
  | region, mrams, call :: calls => call.Right nbDpusPerCi region mrams ∧
    RunRight nbDpusPerCi (call.exec nbDpusPerCi region).region (mrams.next nbDpusPerCi call) calls

/-- Each DPU of a line has a buffer if one has, and what is transferred are whole words inside of the MRAM. -/
structure XferCall.Proper (nbDpusPerCi : Nat) (call : XferCall) : Prop where
  full : ∀ dpuId < nbDpusPerCi, (∃ ciId < NB_CIS, call.ptr (8 * dpuId + ciId) ≠ 0) → ∀ ciId < NB_CIS,
    call.ptr (8 * dpuId + ciId) ≠ 0
  offset : call.offset % 8 = 0
  size : call.size % 8 = 0
  inside : call.offset + call.size ≤ 2 ^ 26

/-- No buffer is in the memory after the matrix, where the other matrices of an array would be. -/
def XferCall.Separate (nbDpusPerCi : Nat) (call : XferCall) : Prop :=
  ∀ index, call.Given nbDpusPerCi index → call.ptr index + call.size ≤ call.matrix + SIZEOF_MATRIX ∨
    call.matrix + SIZEOF_MATRIX * MAX_NR_DPUS_PER_RANK ≤ call.ptr index

/-- The condition: only DPUs of the line 0 have a buffer, and the size is 0 if they have. -/
def XferCall.MovesNothing (nbDpusPerCi : Nat) (call : XferCall) : Prop :=
  ∀ index, call.Given nbDpusPerCi index → index < NB_CIS ∧ call.size = 0

end Upmem.Power9
