import Ffrt.Dependence.Manager

/-!
# Dependence — Ordering

What the version chains are for, stated without them: the program means what it means when
every submit runs to completion where it is submitted, children inside their parent (the
sequential elision).  A task's `label` is its path of child numbers from the root, so the
elision runs tasks in the lexicographic order of labels, a task before its descendants.

* `MustPrecede x y sig`: `x` comes before `y` in the elision, `y` is not inside `x`, both
  declare `sig`, and one of them writes it.  `Awaits s y sig`: some such `x`, or a descendant
  of `x` that declares `sig`, has not returned.
* `StartOrdered`: no task leaves the ready queue for its first run while it awaits a
  signature.  `CountsExact` and `NoDeadlock`: the counter of a waiting task is the number of
  versions that will release it, and a task that awaits nothing has been made Ready.
  `ChainsSound`: the version chains are linked both ways, each version goes onto the trashcan
  once, and a freed version is held by no unfinished task and linked from no live version.
* `dataOrdering_fails`, `countersExact_fails`, `chainsSound_fails`: each fails on a run of the
  model.  Two defects are behind them.  The merge of a `ready` child version
  (`mergeChildVersion`) moves its readers to the parent's version without adding them to its
  consumers, so the first of two such readers to finish empties the consumers, consumes the
  version under the other (`onConsumed`), wakes the next writer and recycles the version.
  And `insDedup` keeps a repeated input, so `buildConsumeRelationship` counts it twice in a
  task that one notification releases once.
-/

namespace Ffrt

/-! ### The sequential elision -/

/-- `x` runs before `y` in the sequential elision. -/
def Precedes (x y : Task) : Prop := x.label < y.label

/-- `y` is submitted, directly or not, by `x`. -/
def IsDescendant (y x : Task) : Prop := x.label <+: y.label ∧ x.label ≠ y.label

def Declares (x : Task) (sig : Signature) : Prop := sig ∈ x.declIns ∨ sig ∈ x.declOuts

def Writes (x : Task) (sig : Signature) : Prop := sig ∈ x.declOuts

/-- The task's function has returned. -/
def Finished (x : Task) : Prop := x.control = .returned

instance (x y : Task) : Decidable (Precedes x y) := inferInstanceAs (Decidable (x.label < y.label))

instance (y x : Task) : Decidable (IsDescendant y x) :=
  inferInstanceAs (Decidable (x.label <+: y.label ∧ x.label ≠ y.label))

instance (x : Task) (sig : Signature) : Decidable (Declares x sig) :=
  inferInstanceAs (Decidable (sig ∈ x.declIns ∨ sig ∈ x.declOuts))

instance (x : Task) (sig : Signature) : Decidable (Writes x sig) :=
  inferInstanceAs (Decidable (sig ∈ x.declOuts))

instance (x : Task) : Decidable (Finished x) := inferInstanceAs (Decidable (x.control = .returned))

/-- `x` must be done with `sig` before `y` touches it. -/
def MustPrecede (x y : Task) (sig : Signature) : Prop :=
  Precedes x y ∧ ¬ IsDescendant y x ∧ Declares x sig ∧ Declares y sig ∧
    (Writes x sig ∨ Writes y sig)

instance (x y : Task) (sig : Signature) : Decidable (MustPrecede x y sig) := by
  unfold MustPrecede; infer_instance

/-- `z` does `x`'s work on `sig`: it is `x`, or a descendant of `x` that declares `sig`. -/
def WorkOf (s : State) (z x : TaskId) (sig : Signature) : Prop :=
  z = x ∨ IsDescendant (s.tasks z) (s.tasks x) ∧ Declares (s.tasks z) sig

instance (s : State) (z x : TaskId) (sig : Signature) : Decidable (WorkOf s z x sig) := by
  unfold WorkOf; infer_instance

/-- `y` still awaits `sig`: a submitted task that must precede it on `sig` has unfinished work
on it. -/
def Awaits (s : State) (y : TaskId) (sig : Signature) : Prop :=
  ∃ x < s.nextTask, ∃ z < s.nextTask, rootId < x ∧ MustPrecede (s.tasks x) (s.tasks y) sig ∧
    WorkOf s z x sig ∧ ¬ Finished (s.tasks z)

instance (s : State) (y : TaskId) (sig : Signature) : Decidable (Awaits s y sig) := by
  unfold Awaits; infer_instance

/-- The signatures a task was submitted with. -/
def declared (x : Task) : List Signature := x.declIns ++ x.declOuts

/-! ### Data ordering -/

/-- No task that is about to be started for the first time awaits one of its signatures. -/
def StartOrdered (s : State) : Prop :=
  ∀ y ∈ s.readyQueue, (s.tasks y).control = .pending → ∀ sig ∈ declared (s.tasks y),
    ¬ Awaits s y sig

instance : DecidablePred StartOrdered := fun s => by unfold StartOrdered; infer_instance

/-- Every run, in a build with or without coroutines, starts tasks in an order the sequential
elision allows. -/
def DataOrdering : Prop := ∀ b s, Reachable b s → StartOrdered s

/-- A data dependence. -/
def data (p : Nat) : Dep := ⟨.data, p⟩

/-- A parent `2` writes `100` and a second writer `3` follows it.  Inside `2`, a child `4`
writes `100` and two children `5` and `6` read it.  `4` finishes: `5` and `6` are Ready on
its `ready` version.  `2` returns: its version takes that one over and `5` and `6` read it.
`5` finishes first: the version is consumed and the writer `3` is Ready while `6` still
reads. -/
def mergedReaders : List Action :=
  [.submit rootId [] [data 100] false, .submit rootId [] [data 100] false, .start 2,
   .submit 2 [] [data 100] false, .submit 2 [data 100] [] false, .submit 2 [data 100] [] false,
   .start 4, .done 4, .done 2, .start 5, .start 6, .done 5]

theorem dataOrdering_fails : ¬ DataOrdering := fun h =>
  Machine.not_always_of_failsAfter mergedReaders (by decide +kernel) (h true)

/-! ### Exact counters -/

/-- The versions among the first `n` addresses that `f` picks. -/
def countVersions (s : State) (f : VersionCtx → Bool) : Nat :=
  ((List.range s.nextVersion).filter (fun v => f (s.versions v))).length

/-- A task that is not Ready yet waits for exactly the `idle` versions that counted it and
the versions whose next producer it is. -/
def CountsExact (s : State) : Prop :=
  ∀ t < s.nextTask, rootId < t → (s.tasks t).curStatus = .submitted →
    (s.tasks t).dataRefCnt.toNat =
      countVersions s (fun x => decide (t ∈ x.counted ∧ t ∈ x.consumers ∧ x.status = .idle)) +
        countVersions s (fun x => x.nextProducer = some t)

instance : DecidablePred CountsExact := fun s => by unfold CountsExact; infer_instance

/-- A submitted task that awaits no signature has been made Ready. -/
def NoDeadlock (s : State) : Prop :=
  ∀ t < s.nextTask, rootId < t → (s.tasks t).curStatus = .submitted →
    ∃ sig ∈ declared (s.tasks t), Awaits s t sig

instance : DecidablePred NoDeadlock := fun s => by unfold NoDeadlock; infer_instance

/-- The counters are exact and the dependence graph never deadlocks. -/
def CountersExact : Prop := ∀ b s, Reachable b s → CountsExact s ∧ NoDeadlock s

/-- A writer `2`, then a reader `3` that lists `100` twice: `3` is counted twice on `2`'s
version and released once when `2` finishes. -/
def repeatedInput : List Action :=
  [.submit rootId [] [data 100] false, .submit rootId [data 100, data 100] [] false, .start 2,
   .done 2]

theorem countersExact_fails : ¬ CountersExact := fun h =>
  Machine.not_always_of_failsAfter repeatedInput (by decide +kernel)
    (fun s hs => (h true s hs).2)

/-! ### Version chains -/

/-- The versions before `v` on its chain, newest first, following `last` at most `n` times. -/
def chainFrom (s : State) : Nat → VersionId → List VersionId
  | 0, _ => []
  | n + 1, v =>
      match (s.versions v).last with
      | some w => w :: chainFrom s n w
      | none => []

/-- Every signature's chain ends, is linked both ways and holds no freed version, and its root
is where the `next` pointers end. -/
def ChainsLinked (s : State) : Prop :=
  ∀ e ∈ s.vaMap, (s.versions e.2).next = none ∧
    (∃ u ∈ e.2 :: chainFrom s s.nextVersion e.2, (s.versions u).last = none) ∧
    ∀ u ∈ e.2 :: chainFrom s s.nextVersion e.2, u ∉ s.freedVersions ∧
      ∀ w, (s.versions u).last = some w → (s.versions w).next = some u

/-- A freed version is held by no unfinished task and linked from no live version; a freed
root had no version left below it. -/
def FreedUnused (s : State) : Prop :=
  ∀ v ∈ s.freedVersions,
    (∀ t < s.nextTask, ¬ Finished (s.tasks t) → v ∉ (s.tasks t).ins ∧ v ∉ (s.tasks t).outs) ∧
    (∀ u < s.nextVersion, u ∉ s.freedVersions →
      (s.versions u).next ≠ some v ∧ (s.versions u).last ≠ some v) ∧
    ((s.versions v).next = none → (s.versions v).last = none)

/-- The chains are sound and recycling is safe. -/
def ChainsSound : Prop :=
  ∀ b s, Reachable b s → ChainsLinked s ∧ s.trashed.Nodup ∧ FreedUnused s

instance : DecidablePred FreedUnused := fun s => by unfold FreedUnused; infer_instance

/-- On the run of `dataOrdering_fails`, `5`'s finish recycles the version that `6` still
reads. -/
theorem chainsSound_fails : ¬ ChainsSound := fun h =>
  Machine.not_always_of_failsAfter mergedReaders (by decide +kernel)
    (fun s hs => (h true s hs).2.2)

end Ffrt
