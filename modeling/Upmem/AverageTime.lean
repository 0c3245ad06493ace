import Upmem.Lib.RunningMean
import Upmem.Preempt

namespace Upmem
open Transitions

/-- What a poll reads about a rank: the answers of `dpu_status_rank` and the elapsed time. -/
structure StatusReading where
  rankDone : Bool
  rankFault : Bool
  elapsedTime : Nat

/-- The figures, with the ranks that have been recorded done, the latest first. -/
structure Polled where
  preempt : PreemptInfo
  completed : List Nat

/-- An iteration of `each_rank_status`, which records a completion when the rank is done for the first time. -/
def Polled.iterate (readings : Nat → StatusReading) (s : Polled) (eachRank : Nat) : Polled where
  preempt := eachRankStatus eachRank (readings eachRank).rankDone (readings eachRank).rankFault
    (readings eachRank).elapsedTime s.preempt
  completed :=
    if (readings eachRank).rankDone = true ∧ s.preempt.rankDone eachRank = 0 then eachRank :: s.completed
    else s.completed

/-- `each_rank_status`. -/
def Polled.poll (s : Polled) (readings : Nat → StatusReading) : Polled :=
  (List.range s.preempt.nrRank).foldl (Polled.iterate readings) s

/-- The figures of `nrRank` ranks after some polls. -/
def polls (nrRank : Nat) (readings : List (Nat → StatusReading)) : Polled :=
  readings.foldl Polled.poll ⟨initPreempt nrRank, []⟩

/-- The recorded execution times, the latest first. -/
def Polled.times (s : Polled) : List Nat := s.completed.map s.preempt.executionTimes

/-- The average is the one that is rebuilt from the times of the ranks recorded done, each of them recorded once. -/
structure Polled.Averaged (s : Polled) : Prop where
  nodup : s.completed.Nodup
  marked : ∀ rank ∈ s.completed, s.preempt.rankDone rank ≠ 0
  unmarked : ∀ rank ∉ s.completed, s.preempt.rankDone rank ≠ 1
  numDone : s.preempt.numDone = s.completed.length
  average : s.preempt.avgExecutionDur = RunningMean.after s.times

theorem averaged_initial (nrRank : Nat) : (Polled.mk (initPreempt nrRank) []).Averaged where
  nodup := .nil
  marked := by simp
  unmarked := by simp [initPreempt]
  numDone := rfl
  average := rfl

/-- A rank that is recorded done enters the average with its time, and the times before it are kept. -/
theorem Polled.Averaged.complete {s : Polled} (averaged : s.Averaged) {rank : Nat}
    (fresh : s.preempt.rankDone rank = 0)
    (elapsedTime : Nat) (fault : Bool) :
    (Polled.mk (eachRankStatus rank true fault elapsedTime s.preempt) (rank :: s.completed)).Averaged := by
  have absent : rank ∉ s.completed := fun member => averaged.marked rank member fresh
  have kept : s.completed.map (Function.update s.preempt.executionTimes rank elapsedTime) = s.times := by
    refine List.map_congr_left fun other member => Function.update_of_ne ?_ _ _
    exact ne_of_mem_of_not_mem member absent
  have status : eachRankStatus rank true fault elapsedTime s.preempt =
      { s.preempt with
        rankDone := Function.update s.preempt.rankDone rank 1
        executionTimes := Function.update s.preempt.executionTimes rank elapsedTime
        avgExecutionDur := (s.preempt.avgExecutionDur * s.preempt.numDone + elapsedTime) / (s.preempt.numDone + 1)
        numDone := s.preempt.numDone + 1 } := by
    simp [eachRankStatus, fresh]
  rw [status]
  constructor
  case nodup => exact List.nodup_cons.mpr ⟨absent, averaged.nodup⟩
  case marked =>
    intro other member
    by_cases same : other = rank
    · simp [same]
    · simpa [same] using averaged.marked other ((List.mem_cons.mp member).resolve_left same)
  case unmarked =>
    intro other outside
    have differ : other ≠ rank := fun same => outside (same ▸ List.mem_cons_self)
    simpa [differ] using averaged.unmarked other fun member => outside (List.mem_cons_of_mem _ member)
  case numDone => simp [averaged.numDone]
  case average =>
    have count : s.times.length = s.preempt.numDone := by rw [Polled.times, List.length_map, averaged.numDone]
    change (s.preempt.avgExecutionDur * s.preempt.numDone + elapsedTime) / (s.preempt.numDone + 1) =
      RunningMean.after (Function.update s.preempt.executionTimes rank elapsedTime rank ::
        s.completed.map (Function.update s.preempt.executionTimes rank elapsedTime))
    rw [Function.update_self, kept, RunningMean.after_cons, ← averaged.average, count, RunningMean.next]

theorem Polled.Averaged.fault {s : Polled} (averaged : s.Averaged) (rank : Nat) :
    (Polled.mk { s.preempt with rankDone := Function.update s.preempt.rankDone rank 2 } s.completed).Averaged := by
  refine ⟨averaged.nodup, fun other member => ?_, fun other outside => ?_, averaged.numDone, averaged.average⟩
  · by_cases same : other = rank
    · simp [same]
    · simpa [same] using averaged.marked other member
  · by_cases same : other = rank
    · simp [same]
    · simpa [same] using averaged.unmarked other outside

/-- An iteration keeps the average, whatever it reads. -/
theorem Polled.Averaged.iterate {s : Polled} (averaged : s.Averaged) (readings : Nat → StatusReading) (rank : Nat) :
    (Polled.iterate readings s rank).Averaged := by
  unfold Polled.iterate
  cases done : (readings rank).rankDone with
  | true =>
    by_cases fresh : s.preempt.rankDone rank = 0
    · simpa [fresh] using averaged.complete fresh (readings rank).elapsedTime (readings rank).rankFault
    · simpa [eachRankStatus, fresh] using averaged
  | false =>
    cases faulty : (readings rank).rankFault with
    | true => simpa [eachRankStatus] using averaged.fault rank
    | false => simpa [eachRankStatus] using averaged

theorem Polled.Averaged.poll {s : Polled} (averaged : s.Averaged) (readings : Nat → StatusReading) :
    (s.poll readings).Averaged := by
  unfold Polled.poll
  generalize List.range s.preempt.nrRank = ranks
  induction ranks generalizing s with
  | nil => exact averaged
  | cons rank ranks ih => exact ih (averaged.iterate readings rank)

theorem polls_averaged (nrRank : Nat) (readings : List (Nat → StatusReading)) :
    (polls nrRank readings).Averaged := by
  unfold polls
  generalize started : Polled.mk (initPreempt nrRank) [] = s
  have averaged : s.Averaged := started ▸ averaged_initial nrRank
  clear started
  induction readings generalizing s with
  | nil => exact averaged
  | cons reading readings ih => exact ih _ (averaged.poll reading)

/-- The average lies between the least and the greatest recorded time, and behind their mean by at most half a
millisecond for each rank but the first. -/
structure Polled.MeanBounds (s : Polled) : Prop where
  count : s.times.length = s.preempt.numDone
  nodup : s.completed.Nodup
  done : ∀ rank, s.preempt.rankDone rank = 1 → rank ∈ s.completed
  minimum : s.times.minimum ≤ (s.preempt.avgExecutionDur : WithTop Nat)
  maximum : (s.preempt.avgExecutionDur : WithBot Nat) ≤ s.times.maximum
  mean : (s.preempt.avgExecutionDur : ℚ) ≤ s.times.sum / s.preempt.numDone
  behind : (s.times.sum / s.preempt.numDone : ℚ) - s.preempt.avgExecutionDur ≤ (s.preempt.numDone - 1) / 2

theorem Polled.Averaged.meanBounds {s : Polled} (averaged : s.Averaged) (some : 1 ≤ s.preempt.numDone) :
    s.MeanBounds := by
  have count : s.times.length = s.preempt.numDone := by rw [Polled.times, List.length_map, averaged.numDone]
  have recorded : s.times ≠ [] := List.length_pos_iff.mp (count ▸ some)
  constructor
  case count => exact count
  case nodup => exact averaged.nodup
  case done => exact fun rank done => by_contra fun outside => averaged.unmarked rank outside done
  case minimum => exact averaged.average ▸ RunningMean.minimum_le_after recorded
  case maximum => exact averaged.average ▸ RunningMean.after_le_maximum recorded
  case mean => exact count ▸ averaged.average ▸ RunningMean.after_le_mean recorded
  case behind => exact count ▸ averaged.average ▸ RunningMean.mean_sub_after_le recorded

/-- The average after any polls in which some rank was recorded done. -/
theorem polls_meanBounds (nrRank : Nat) (readings : List (Nat → StatusReading))
    (some : 1 ≤ (polls nrRank readings).preempt.numDone) : (polls nrRank readings).MeanBounds :=
  (polls_averaged nrRank readings).meanBounds some

/-- Two of three ranks are done at the first poll, after 10 and 13 ms. -/
theorem polls_meanBounds_two : (polls 3 [fun rank => ⟨decide (rank < 2), false, 10 + 3 * rank⟩]).MeanBounds :=
  polls_meanBounds 3 _ (by decide)

/-- The figures of the poller of a launch are those of polls. -/
theorem CallRun.averaged {setup : CallSetup} {history : List (Transition Call CallAction)} {c : Call}
    (run : CallRun setup history c) : ∃ completed, (Polled.mk c.preempt completed).Averaged := by
  refine run.reachable.invariant (P := fun c => ∃ completed, (Polled.mk c.preempt completed).Averaged)
    ⟨[], averaged_initial 0⟩ ?_
  rintro s a t ⟨completed, averaged⟩ taken
  cases Call.step_sound taken with
  | getJobs at_caller => exact ⟨[], averaged_initial _⟩
  | @check eachRank rankDone rankFault elapsedTime at_poller inside later =>
    exact ⟨_, averaged.iterate (fun _ => ⟨rankDone, rankFault, elapsedTime⟩) eachRank⟩
  | _ => exact ⟨completed, averaged⟩

end Upmem
