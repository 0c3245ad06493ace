import Mathlib
import Upmem.Loader

namespace Upmem.Profiler

/-- The table of a thread, by the sites of the program and their counts. -/
def table (sites : List (BitVec 16)) (counts : Nat → BitVec 64) : List (Option McountStat) :=
  sites.mapIdx fun i address => some ⟨address, counts i⟩

section Samples
variable {sites : List (BitVec 16)} {counts : Nat → BitVec 64} {context : ProfilingContext} {nrThreads : Nat}

@[simp] theorem table_nil : table [] counts = [] := rfl

theorem table_cons (address : BitVec 16) :
    table (address :: sites) counts = some ⟨address, counts 0⟩ :: table sites fun i => counts (i + 1) :=
  List.mapIdx_cons

theorem table_length : (table sites counts).length = sites.length := List.length_mapIdx

theorem table_fresh : table sites (fun _ => 0#64) = sites.map fresh := by
  induction sites with
  | nil => rfl
  | cons address rest ih =>
    rw [table_cons, ih]
    rfl

/-- The tables of a program with these sites, with a count for each thread and site. -/
structure ProfilingContext.Counts (nrThreads : Nat) (sites : List (BitVec 16)) (counts : Nat → Nat → BitVec 64)
    (context : ProfilingContext) : Prop where
  made : context.mcountStats.isSome
  total : context.nrOfMcountStats.toNat = sites.length
  entries : ∀ thId < nrThreads, context.entries thId = table sites (counts thId)

theorem ProfilingContext.Counts.sized {counts : Nat → Nat → BitVec 64}
    (counted : context.Counts nrThreads sites counts) :
    context.Sized nrThreads :=
  ⟨counted.made, fun thId inside => by rw [counted.entries thId inside, table_length, counted.total]⟩

end Samples

end Upmem.Profiler

namespace Upmem.Loader
open CountFill Profiler StatusChain SymbolBounds

/-- The sites of a header, by which its calls are counted. -/
def sitesOf (elf : ElfFd) (profiling : ProfilingContext) (entry : Option GElfPhdr × SegmentOutcome) :
    List (BitVec 16) :=
  match iramSegment elf entry with
  | some (words, addr, size) => sites profiling addr words (size.truncate 16).toNat
  | none => []

/-- The number of instructions of a header. -/
def instructions (entry : Option GElfPhdr × SegmentOutcome) : Nat := (amount .iram entry).toNat

section Load
variable {target : Target} {elf : ElfFd} {profiling : ProfilingContext} {s t : LoaderState}

/-- The loader after some headers of a program with statistics. -/
structure StatisticsSoFar (target : Target) (elf : ElfFd) (profiling : ProfilingContext)
    (front : List (Option GElfPhdr × SegmentOutcome)) (s : LoaderState) : Prop where
  accumulated : s.accumulated .iram = BitVec.ofNat 32 (front.map instructions).sum
  setup : s.profiling.SameSetup profiling
  stray : s.profiling.stray = profiling.stray
  none_ : (front.map instructions).sum = 0 → front.flatMap (sitesOf elf profiling) = [] ∧
    (s.profiling.mcountStats = none → s.profiling.nrOfMcountStats = 0#16)
  some_ : 0 < (front.map instructions).sum →
    s.profiling.Counts target.nrThreads (front.flatMap (sitesOf elf profiling)) (fun _ _ => 0#64) ∧
      (front.flatMap (sitesOf elf profiling)).length ≤ (front.map instructions).sum

theorem amount_iram {phdr : GElfPhdr} {outcome : SegmentOutcome} {entry : Option GElfPhdr × SegmentOutcome}
    {kind : Memory} {addr size : BitVec 32} {raw : Nat → BitVec 8} {words : Nat → Word kind}
    (header : entry.1 = some phdr) (load : phdr.pType = PT_LOAD)
    (loaded : Loaded target elf phdr outcome s t kind addr size raw words) :
    instructions entry = (if kind = .iram then size else 0#32).toNat := by
  rw [instructions, amount, header]
  dsimp only
  rw [if_pos load, loaded.converted]

theorem StatisticsSoFar.idle {front : List (Option GElfPhdr × SegmentOutcome)}
    {entry : Option GElfPhdr × SegmentOutcome}
    (sofar : StatisticsSoFar target elf profiling front s) (instructions_eq : instructions entry = 0)
    (sites_eq : sitesOf elf profiling entry = []) (profiled : t.profiling = s.profiling)
    (accumulated : t.accumulated .iram = s.accumulated .iram) :
    StatisticsSoFar target elf profiling (front ++ [entry]) t := by
  have total : ((front ++ [entry]).map instructions).sum = (front.map instructions).sum := by
    rw [List.map_append, List.sum_append, List.map_singleton, List.sum_singleton, instructions_eq, Nat.add_zero]
  have all : (front ++ [entry]).flatMap (sitesOf elf profiling) = front.flatMap (sitesOf elf profiling) := by
    rw [List.flatMap_append, List.flatMap_singleton, sites_eq, List.append_nil]
  refine ⟨?_, profiled ▸ sofar.setup, profiled ▸ sofar.stray, ?_, ?_⟩
  · rw [total, accumulated, sofar.accumulated]
  · rw [total, all, profiled]
    exact sofar.none_
  · rw [total, all, profiled]
    exact sofar.some_

/-- A header for the IRAM adds its sites. -/
theorem StatisticsSoFar.iram {front : List (Option GElfPhdr × SegmentOutcome)}
    {entry : Option GElfPhdr × SegmentOutcome}
    {phdr : GElfPhdr} {addr size : BitVec 32} {raw : Nat → BitVec 8} {words : Nat → Word .iram}
    (sofar : StatisticsSoFar target elf profiling front s) (stats : profiling.enableProfiling = .stats)
    (patches : profiling.Patches) (enabled : target.profiled = true)
    (small : ((front ++ [entry]).map instructions).sum < 2 ^ 16) (header : entry.1 = some phdr)
    (load : phdr.pType = PT_LOAD) (loaded : Loaded target elf phdr entry.2 s t .iram addr size raw words) :
    StatisticsSoFar target elf profiling (front ++ [entry]) t := by
  have here : instructions entry = size.toNat := by rw [amount_iram header load loaded, if_pos rfl]
  have total : ((front ++ [entry]).map instructions).sum = (front.map instructions).sum + size.toNat := by
    rw [List.map_append, List.sum_append, List.map_singleton, List.sum_singleton, here]
  rw [total] at small
  have whole : (size.truncate 16).toNat = size.toNat := by
    rw [BitVec.toNat_setWidth, Nat.mod_eq_of_lt (by omega)]
  have sites_eq : sitesOf elf profiling entry =
      sites profiling addr (wordsOf (segmentByte raw phdr) .iram) size.toNat := by
    rw [sitesOf, loaded.iramSegment_eq header load, if_pos rfl]
    dsimp only
    rw [whole]
  have all : (front ++ [entry]).flatMap (sitesOf elf profiling) = front.flatMap (sitesOf elf profiling) ++
      sites profiling addr (wordsOf (segmentByte raw phdr) .iram) size.toNat := by
    rw [List.flatMap_append, List.flatMap_singleton, sites_eq]
  have first : decide (s.accumulated .iram = 0#32) = true ↔ (front.map instructions).sum = 0 := by
    rw [decide_eq_true_eq, sofar.accumulated, ← BitVec.toNat_inj, BitVec.toNat_ofNat, Nat.mod_eq_of_lt (by omega)]
    rfl
  have calls := tally_le (fun insn => isCallR23 (wordsOf (segmentByte raw phdr) .iram insn)) size.toNat
  have patched := loaded.patched
  have ofDpu := (patchIram_inv patched).resolve_left fun idle => Bool.false_ne_true (idle.1.symm.trans enabled)
  have patched := ofDpu.2
  have same : s.profiling.Patches := by
    unfold ProfilingContext.Patches at patches ⊢
    rwa [sofar.setup.method, sofar.setup.mcount, sofar.setup.retMcount, sofar.setup.threadProfiling]
  have earlier (late : decide (s.accumulated .iram = 0#32) = false) : 0 < (front.map instructions).sum := by
    refine Nat.pos_of_ne_zero fun zero => ?_
    rw [first.mpr zero] at late
    cases late
  have room : (if decide (s.accumulated .iram = 0#32) = true then 0 else s.profiling.nrOfMcountStats.toNat) +
      tally (fun insn => isCallR23 (wordsOf (segmentByte raw phdr) .iram insn))
      (size.truncate 16).toNat < 2 ^ 16 := by
    rw [whole]
    split_ifs with early
    · omega
    · have some_ := sofar.some_ (earlier (Bool.eq_false_iff.mpr early))
      rw [some_.1.total]
      omega
  obtain ⟨before, setup, begun, counted⟩ :=
    patchProfiling_ok same patched (fun early => (sofar.none_ (first.mp early)).2)
    (fun late => (sofar.some_ (earlier late)).1.sized) room
  have base : before.Counts target.nrThreads (front.flatMap (sitesOf elf profiling)) (fun _ _ => 0#64) ∧
      (front.flatMap (sitesOf elf profiling)).length ≤ (front.map instructions).sum := by
    cases late : decide (s.accumulated .iram = 0#32) with
    | true =>
      obtain ⟨zero, empty⟩ := begun.first late
      rw [(sofar.none_ (first.mp late)).1]
      exact ⟨⟨begun.sized.made, congrArg BitVec.toNat zero, empty⟩, Nat.zero_le _⟩
    | false =>
      rw [begun.later late]
      exact sofar.some_ (earlier late)
  have method : before.enableProfiling = .stats := (setup.trans sofar.setup).method.trans stats
  have more := counted.entries method
  have longer := counted.total
  rw [whole, (setup.trans sofar.setup).sites_eq] at more
  rw [whole, ← sites_length_eq method, (setup.trans sofar.setup).sites_eq, base.1.total] at longer
  have bound := @sites_length_le size.toNat profiling addr (wordsOf (segmentByte raw phdr) .iram)
  have after :
      t.profiling.Counts target.nrThreads ((front ++ [entry]).flatMap (sitesOf elf profiling)) fun _ _ => 0#64 := by
    refine ⟨counted.sized.made, by rw [longer, all, List.length_append], fun thId inside => ?_⟩
    rw [more thId inside, base.1.entries thId inside, table_fresh, table_fresh, all, List.map_append]
  refine ⟨?_, (counted.setup.trans setup).trans sofar.setup,
    counted.stray.trans (begun.stray.trans sofar.stray), ?_, ?_⟩
  · rw [loaded.accumulated, Function.update_self, sofar.accumulated, total, BitVec.ofNat_add, BitVec.ofNat_toNat,
      BitVec.setWidth_eq]
  · rw [total]
    intro none_
    have empty : size.toNat = 0 := by omega
    rw [all, empty, (sofar.none_ (by omega)).1]
    refine ⟨rfl, fun missing => ?_⟩
    have made := counted.sized.made
    rw [missing] at made
    cases made
  · intro _
    refine ⟨after, ?_⟩
    rw [total, all, List.length_append]
    omega

theorem StatisticsSoFar.turn {front : List (Option GElfPhdr × SegmentOutcome)}
    {entry : Option GElfPhdr × SegmentOutcome}
    (sofar : StatisticsSoFar target elf profiling front s) (stats : profiling.enableProfiling = .stats)
    (patches : profiling.Patches) (enabled : target.profiled = true)
    (small : ((front ++ [entry]).map instructions).sum < 2 ^ 16) (passed : loadPhdr target elf entry s = (.ok, t)) :
    StatisticsSoFar target elf profiling (front ++ [entry]) t := by
  obtain ⟨phdr, header, ⟨other, same⟩ | ⟨load, kind, addr, size, raw, words, loaded⟩⟩ := loadPhdr_inv passed
  · refine sofar.idle ?_ ?_ same.profiling (by rw [same.accumulated])
    · rw [instructions, amount_other header other]
      rfl
    · rw [sitesOf, iramSegment_other header other]
  · by_cases here : kind = .iram
    · subst here
      exact sofar.iram stats patches enabled small header load loaded
    · refine sofar.idle ?_ ?_ ?_ ?_
      · rw [amount_iram header load loaded, if_neg here]
        rfl
      · rw [sitesOf, loaded.iramSegment_eq header load, if_neg here]
      · have patched := loaded.patched
        cases kind with
        | iram => exact absurd rfl here
        | wram => exact (Prod.mk.inj (Prod.mk.inj patched).2).1.symm
        | mram => exact (Prod.mk.inj (Prod.mk.inj patched).2).1.symm
      · rw [loaded.accumulated, Function.update_of_ne (Ne.symm here)]

end Load

end Upmem.Loader
