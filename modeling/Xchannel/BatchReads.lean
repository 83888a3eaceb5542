import Xchannel.ReaderBounds

/-! A batch against the single reads of the same records, on any bytes. -/
namespace Xchannel.BatchReads
open ByteMemory Format Storage ChannelLog RecordChain Observation SegmentWalk WriterSpecs ReaderOpen ReaderCalls ReadPath
  ReadSpecs BatchSpecs ReadLaws OpenSpecs PartialRun ChainScan ScanSpecs SweepSpecs ScanLaws ReaderBounds
  Sessions

section Paths
variable {env : Env} {R gen max : Nat} {d : Disk} {pl mid mid' : Place} {hops hops' : List Hop}

/-- A place that no scan can read. -/
def Spoiled (env : Env) (R gen : Nat) (d : Disk) (pl : Place) : Prop :=
  onward env R gen d pl = .hole ∨ onward env R gen d pl = .unmapped ∨ onward env R gen d pl = .damaged

theorem usersLe (a b : List Hop) : (usersOf a).length ≤ (usersOf (a ++ b)).length := by
  rw [usersAppend, List.length_append]
  exact Nat.le_add_right _ _

end Paths

section Reads
variable {env : Env} {R gen max fuel : Nat} {d : Disk} {r : Reader} {pl : Place}

/- The outcome of one call, with no call of the system refused. -/
def answer (env : Env) (fuel : Nat) (d : Disk) (r : Reader) (c : ReadCall) : Except IoError Reply :=
  ((ask env fuel c : Trial Disk Reader IoError Reply) d (fun _ => none) r 0).1

/- What a batch comes to. -/
def Batched (env : Env) (R gen : Nat) (d : Disk) (max : Nat) (pl : Place) : Except IoError Reply → Prop
  | .ok (.batch none) => ∃ hops mid maps n', Quiet env R gen d pl hops mid ∧ onward env R gen d mid = .free ∧
      Rested env R gen d (fun _ => none) max maps [] 0 0 n' hops mid
  | .ok (.batch (some msgs)) => ∃ hops mid maps n', Run (hop env R gen d) pl hops mid ∧
      msgs.map (MessageRef.record R d) = itemRecords d (usersOf hops) ∧ usersOf hops ≠ [] ∧
      Rested env R gen d (fun _ => none) max maps [] 0 0 n' hops mid
  | .ok _ => False
  | .error _ => ∃ hops mid, Run (hop env R gen d) pl hops mid ∧ (usersOf hops).length < max ∧
      (65535 < crossed hops ∨ Spoiled env R gen d mid ∨ (usersOf hops = [] ∧ ∃ e, onward env R gen d mid = .barred e))

end Reads
end Xchannel.BatchReads
