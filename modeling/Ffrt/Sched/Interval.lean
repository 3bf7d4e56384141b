import Ffrt.Sched.LoadPredictor
import Ffrt.Support.Machine

/-!
# Sched — Intervals

A `DefaultInterval` (`src/sched/interval.cpp`) with its `Deadline`, its `PerfCtrl` and its
`IntervalLoadPredictor`, each operation taken under the interval's `mutex`, so one step.  The
`uint64_t` fields are naturals below `2 ^ 64`, their products and sums taken modulo `2 ^ 64`;
the loads the kernel's load tracking reports, the clock and whether the thread group is busy
are the environment's, given to each operation.

* `Deadline.toUs_update_eq_iff`: after `Update(d)` with `d ≥ 1`, `ToUs()` is `d` exactly when
  `d * 1000` fits in 64 bits, whatever the deadline held before.
* `deadline_wraps`: `MAX_US_COUNT`, the bound `ffrt_interval_create` and
  `ffrt_interval_update` clamp to, is `2 ^ 63 - 1` microseconds, whose nanoseconds wrap; and a
  deadline of one microsecond is skipped by `Update`'s test against `ToUs()`, which reads `1`
  for a fresh `Deadline`, so the window is set to `0` nanoseconds.
* `IntervalLoadPredictor` carries `cpLoadIndex ≤ cpLoad.size()`, which `ResetCPIndex` and
  `UpdateCPLoad` keep; `getCPLoad_eq_none_iff`: `GetCPLoad` reads past the deque exactly when
  the index is its size.
* `length_cpLoad_of_reach`: in every run with no access past the deque, the deque keeps its one
  predictor, as `UpdateCPLoad` only grows it past an index `GetCPLoad` has just read;
  `checkPoint_eq_none_iff`: so the second `CheckPoint` of every interval reads past it, which
  `cpLoad_out_of_bounds` exhibits after `Begin` and one `CheckPoint`.
-/

namespace Ffrt.Sched

/-! ### Deadlines -/

/-- `NS_PER_US`. -/
def nsPerUs : Nat := 1000

/-- `MAX_US_COUNT`: `std::chrono::microseconds::max().count()`, the largest `int64_t`. -/
def maxUsCount : Nat := 2 ^ 63 - 1

/-- The clamp of `ffrt_interval_create` and `ffrt_interval_update`: a deadline above
`MAX_US_COUNT` is taken as `MAX_US_COUNT`. -/
def clampDeadline (deadlineUs : Nat) : Nat :=
  if deadlineUs > maxUsCount then maxUsCount else deadlineUs

/-- A `Deadline`: its length `deadlineNs` and the time `absDeadlineNs` it ends at, both
`uint64_t`. -/
structure Deadline where
  deadlineNs : Nat
  absDeadlineNs : Nat
  deadlineNs_lt : deadlineNs < 2 ^ 64
  absDeadlineNs_lt : absDeadlineNs < 2 ^ 64

namespace Deadline

/-- `ToNs()`. -/
def toNs (d : Deadline) : Nat := d.deadlineNs

/-- `ToUs()`: never `0`. -/
def toUs (d : Deadline) : Nat :=
  let us := d.deadlineNs / nsPerUs
  if us > 0 then us else 1

/-- `LeftNs()`, with `AbsNowNs()` read as `nowNs`: `1` once the deadline has passed. -/
def leftNs (d : Deadline) (nowNs : Nat) : Nat :=
  if d.absDeadlineNs > nowNs then d.absDeadlineNs - nowNs else 1

/-- The length `Update(deadlineUs)` stores: unchanged when `deadlineUs` is `ToUs()`, `1` for
`0`, and otherwise `deadlineUs * 1000` in 64 bits. -/
def updatedNs (d : Deadline) (deadlineUs : Nat) : Nat :=
  if deadlineUs ≠ d.toUs then
    if deadlineUs < 1 then 1 else deadlineUs * 1000 % 2 ^ 64
  else d.deadlineNs

theorem updatedNs_lt (d : Deadline) (deadlineUs : Nat) : d.updatedNs deadlineUs < 2 ^ 64 := by
  unfold updatedNs
  split
  · split
    · decide
    · exact Nat.mod_lt _ (by decide)
  · exact d.deadlineNs_lt

/-- `Update` skips a deadline equal to `ToUs()`. -/
theorem updatedNs_toUs (d : Deadline) : d.updatedNs d.toUs = d.deadlineNs := by
  simp [updatedNs]

/-- `Update` stores any other deadline of at least one microsecond in nanoseconds, in 64 bits. -/
theorem updatedNs_of_ne {d : Deadline} {us : Nat} (hne : us ≠ d.toUs) (h : 1 ≤ us) :
    d.updatedNs us = us * 1000 % 2 ^ 64 := by
  simp [updatedNs, hne, Nat.not_lt.mpr h]

/-- `Deadline::Update(deadlineUs)`, with `AbsNowNs()` read as `now`. -/
def update (d : Deadline) (deadlineUs now : Nat) : Deadline :=
  let ns := d.updatedNs deadlineUs
  ⟨ns, (ns + now) % 2 ^ 64, d.updatedNs_lt deadlineUs, Nat.mod_lt _ (by decide)⟩

/-- The constructor `Deadline(deadlineUs)`: both fields start at `0`, then `Update`. -/
def new (deadlineUs now : Nat) : Deadline :=
  (⟨0, 0, by decide, by decide⟩ : Deadline).update deadlineUs now

@[simp] theorem update_toNs (d : Deadline) (deadlineUs now : Nat) :
    (d.update deadlineUs now).toNs = d.updatedNs deadlineUs := rfl

/-- A fresh deadline reads as one microsecond. -/
theorem toUs_fresh : (⟨0, 0, by decide, by decide⟩ : Deadline).toUs = 1 := rfl

/-- `ToUs()`, in nanoseconds, is at most the length, or one microsecond. -/
theorem toUs_mul_le (d : Deadline) : d.toUs * 1000 ≤ max d.deadlineNs 1000 := by
  by_cases h0 : d.deadlineNs / nsPerUs > 0
  · rw [toUs, if_pos h0]
    exact Nat.le_trans (Nat.div_mul_le_self _ _) (Nat.le_max_left _ _)
  · rw [toUs, if_neg h0]
    exact Nat.le_max_right _ _

/-- `ToUs()` of any deadline, in nanoseconds, fits in 64 bits. -/
theorem toUs_mul_lt (d : Deadline) : d.toUs * 1000 < 2 ^ 64 := by
  have hns := d.deadlineNs_lt
  have := d.toUs_mul_le
  omega

/-- `ToUs()` of a length of at least one microsecond is that length in whole microseconds. -/
theorem toUs_of_le {d : Deadline} (h : 1000 ≤ d.deadlineNs) : d.toUs = d.deadlineNs / 1000 := by
  have : 0 < d.deadlineNs / 1000 := Nat.div_pos h (by decide)
  simp [toUs, nsPerUs, this]

/-- **`ToUs()` after `Update(d)`**, for `d ≥ 1`: it is `d` exactly when `d * 1000` fits in
64 bits.  Below that bound either `Update` stores `d * 1000`, or it skips as `d` is already
`ToUs()`; above it, `ToUs()` of any deadline is smaller than `d`, so `Update` stores the wrapped
product, whose microseconds are smaller still. -/
theorem toUs_update_eq_iff (d : Deadline) {us : Nat} (h : 1 ≤ us) (now : Nat) :
    (d.update us now).toUs = us ↔ us * 1000 < 2 ^ 64 := by
  have hprev := d.toUs_mul_lt
  by_cases hskip : us = d.toUs
  · -- the skip: the length, and so `ToUs()`, is unchanged
    have hns : (d.update us now).deadlineNs = d.deadlineNs := by
      rw [← toNs, update_toNs, hskip, updatedNs_toUs]
    have hus : (d.update us now).toUs = d.toUs := by simp only [toUs, hns]
    rw [hus, ← hskip]
    exact ⟨fun _ => hskip ▸ hprev, fun _ => rfl⟩
  · have hns : (d.update us now).deadlineNs = us * 1000 % 2 ^ 64 := by
      rw [← toNs, update_toNs, updatedNs_of_ne hskip h]
    constructor
    · -- a wrapped product reads back below `us`
      intro hus
      by_contra hwrap
      have hlt : (d.update us now).deadlineNs < us * 1000 := by
        rw [hns]
        exact Nat.lt_of_lt_of_le (Nat.mod_lt _ (by decide)) (Nat.not_lt.mp hwrap)
      have hback := (d.update us now).toUs_mul_le
      rw [hus] at hback
      omega
    · intro hfit
      rw [Nat.mod_eq_of_lt hfit] at hns
      rw [toUs_of_le (by omega), hns, Nat.mul_div_cancel _ (by decide)]

end Deadline

/-! ### The thread group's performance control -/

/-- `SCHED_CAPACITY_SHIFT`. -/
def schedCapacityShift : Nat := 10

/-- `SCHED_MAX_CAPACITY`. -/
def schedMaxCapacity : Nat := 1 <<< schedCapacityShift

/-- A `PerfCtrl`: whether it has a thread group `tg`, the window size last given to it, and the
predicted and current utilisation. -/
structure PerfCtrl where
  tg : Bool
  windowSize : Nat
  predUtil : Nat
  curUtil : Nat

namespace PerfCtrl

/-- The constructor: a thread group is bound unless the QoS is `qos_inherit`. -/
def new (tg : Bool) : PerfCtrl := ⟨tg, 0, 0, 0⟩

/-- `isBusy()`: the thread group's `isBegin()`, which is the environment's. -/
def isBusy (c : PerfCtrl) (isBegin : Bool) : Bool := c.tg && isBegin

/-- `SetWindowSize(size)`. -/
def setWindowSize (c : PerfCtrl) (size : Nat) : PerfCtrl :=
  if c.tg then { c with windowSize := size } else c

/-- `Update(force)`: the prediction becomes current unless it already is and `force` is off. -/
def updateForce (c : PerfCtrl) (force : Bool) : PerfCtrl :=
  if !force && c.predUtil == c.curUtil then c else { c with curUtil := c.predUtil }

/-- `Update(deadlineNs, load, force)`: the utilisation `(load << 10) / deadlineNs` in 64 bits,
capped at `SCHED_MAX_CAPACITY`. -/
def update (c : PerfCtrl) (deadlineNs load : Nat) (force : Bool) : PerfCtrl :=
  let deadlineNs := if deadlineNs = 0 then 1 else deadlineNs
  let predUtil := (load <<< schedCapacityShift) % 2 ^ 64 / deadlineNs
  let predUtil := if predUtil > schedMaxCapacity then schedMaxCapacity else predUtil
  { c with predUtil }.updateForce force

/-- `Clear()`. -/
def clear (c : PerfCtrl) : PerfCtrl := { c with predUtil := 0, curUtil := 0 }

end PerfCtrl

/-! ### The checkpoint predictors -/

/-- An `IntervalLoadPredictor`: the predictor of whole intervals, the `std::deque` of
predictors of each checkpoint, and the index of the next checkpoint.  The index never passes
the deque's size. -/
structure IntervalLoadPredictor where
  totalLoad : SimpleLoadPredictor
  cpLoad : List SimpleLoadPredictor
  cpLoadIndex : Nat
  length_pos : 0 < cpLoad.length
  cpLoadIndex_le : cpLoadIndex ≤ cpLoad.length

/-- `std::deque::resize(n)`: cut to `n`, or filled with fresh predictors up to `n`. -/
def resize (q : List SimpleLoadPredictor) (n : Nat) : List SimpleLoadPredictor :=
  (q ++ List.replicate (n - q.length) SimpleLoadPredictor.init).take n

theorem length_resize (q : List SimpleLoadPredictor) (n : Nat) : (resize q n).length = n := by
  simp only [resize, List.length_take, List.length_append, List.length_replicate]
  omega

namespace IntervalLoadPredictor

/-- The constructor: `cpLoad.resize(1)`. -/
def init : IntervalLoadPredictor :=
  ⟨.init, [.init], 0, Nat.one_pos, Nat.zero_le _⟩

/-- `ResetCPIndex()`. -/
def resetCPIndex (lp : IntervalLoadPredictor) : IntervalLoadPredictor :=
  { lp with cpLoadIndex := 0, cpLoadIndex_le := Nat.zero_le _ }

/-- `UpdateTotalLoad(load)`. -/
def updateTotalLoad (lp : IntervalLoadPredictor) (load : Nat) : IntervalLoadPredictor :=
  { lp with totalLoad := lp.totalLoad.updateLoad load }

/-- The deque `UpdateCPLoad` writes into: resized to `cpLoadIndex + 1` when shorter. -/
def grown (lp : IntervalLoadPredictor) : List SimpleLoadPredictor :=
  if lp.cpLoadIndex + 1 > lp.cpLoad.length then resize lp.cpLoad (lp.cpLoadIndex + 1)
  else lp.cpLoad

theorem lt_length_grown (lp : IntervalLoadPredictor) : lp.cpLoadIndex < lp.grown.length := by
  unfold grown
  split
  · rw [length_resize]
    exact Nat.lt_succ_self _
  · omega

/-- `UpdateCPLoad(load)`: `cpLoad[cpLoadIndex++].UpdateLoad(load)` on the grown deque. -/
def updateCPLoad (lp : IntervalLoadPredictor) (load : Nat) : IntervalLoadPredictor :=
  { lp with
    cpLoad := lp.grown.modify lp.cpLoadIndex (·.updateLoad load)
    cpLoadIndex := lp.cpLoadIndex + 1
    length_pos := by
      rw [List.length_modify]
      exact Nat.lt_of_le_of_lt (Nat.zero_le _) lp.lt_length_grown
    cpLoadIndex_le := by
      rw [List.length_modify]
      exact lp.lt_length_grown }

/-- `GetTotalLoad()`. -/
def getTotalLoad (lp : IntervalLoadPredictor) : Nat := lp.totalLoad.getPredictLoad

/-- `GetCPLoad()`: the checkpoint's prediction taken from the interval's, or `0` when it has
none.  `none` is `cpLoad[cpLoadIndex]` read past the end of the deque. -/
def getCPLoad (lp : IntervalLoadPredictor) : Option Nat := do
  let p ← lp.cpLoad[lp.cpLoadIndex]?
  let load := p.getPredictLoad
  if load = 0 then return 0
  let predictLoad := lp.totalLoad.getPredictLoad
  return if predictLoad < load then 0 else predictLoad - load

/-- **`GetCPLoad` reads past the deque exactly when the index has reached its size.** -/
theorem getCPLoad_eq_none_iff (lp : IntervalLoadPredictor) :
    lp.getCPLoad = none ↔ lp.cpLoadIndex = lp.cpLoad.length := by
  have hle := lp.cpLoadIndex_le
  cases h : lp.cpLoad[lp.cpLoadIndex]? with
  | none =>
      have : lp.cpLoad.length ≤ lp.cpLoadIndex := List.getElem?_eq_none_iff.mp h
      simp only [getCPLoad, h, Option.bind_eq_bind, Option.bind_none, true_iff]
      omega
  | some p =>
      have : lp.cpLoadIndex < lp.cpLoad.length := (List.getElem?_eq_some_iff.mp h).1
      simp only [getCPLoad, h, Option.bind_eq_bind, Option.bind_some]
      constructor
      · intro hnone
        split at hnone <;> simp at hnone
      · omega

/-- Past an index in bounds, `UpdateCPLoad` does not grow the deque. -/
theorem length_updateCPLoad {lp : IntervalLoadPredictor} (h : lp.cpLoadIndex < lp.cpLoad.length)
    (load : Nat) : (lp.updateCPLoad load).cpLoad.length = lp.cpLoad.length := by
  have hgrown : lp.grown = lp.cpLoad := if_neg (by omega)
  simp only [updateCPLoad, List.length_modify, hgrown]

end IntervalLoadPredictor

/-! ### The interval -/

/-- The states of `UpdateTaskSwitch`. -/
inductive TaskSwitchState
  | begin
  | update
  | end_
  deriving DecidableEq, Repr

/-- A `DefaultInterval`: its deadline, whether it has begun, its predictor and its control. -/
structure DefaultInterval where
  dl : Deadline
  enabled : Bool
  lp : IntervalLoadPredictor
  ctrl : PerfCtrl

namespace DefaultInterval

/-- The constructor, `AbsNowNs()` read as `now`: `ctrl.SetWindowSize(Ddl().ToNs())`. -/
def new (deadlineUs : Nat) (tg : Bool) (now : Nat) : DefaultInterval :=
  let dl := Deadline.new deadlineUs now
  ⟨dl, false, .init, (PerfCtrl.new tg).setWindowSize dl.toNs⟩

/-- `Begin()`, the thread group's `isBegin()` read as `busy`: `-1` when already begun or busy. -/
def begin (t : DefaultInterval) (busy : Bool) : Int × DefaultInterval :=
  if t.enabled then (-1, t)
  else if t.ctrl.isBusy busy then (-1, t)
  else
    (0, { t with
      enabled := true
      ctrl := t.ctrl.update t.dl.toNs t.lp.getTotalLoad true
      lp := t.lp.resetCPIndex })

/-- `Update(deadlineUs)`, `AbsNowNs()` read as `now`. -/
def update (t : DefaultInterval) (deadlineUs now : Nat) : DefaultInterval :=
  if !t.enabled then t
  else
    let dl := t.dl.update deadlineUs now
    { t with dl, ctrl := t.ctrl.setWindowSize dl.toNs }

/-- `End()`, the load tracking's `GetLoad()` read as `load`. -/
def end_ (t : DefaultInterval) (load : Nat) : DefaultInterval :=
  if !t.enabled then t
  else { t with enabled := false, lp := t.lp.updateTotalLoad load }

/-- `CheckPoint()`, `AbsNowNs()` read as `now` and `GetLoad()` as `load`; `none` when
`GetCPLoad` reads past the deque. -/
def checkPoint (t : DefaultInterval) (now load : Nat) : Option DefaultInterval :=
  if !t.enabled then some t
  else do
    let cpLoad ← t.lp.getCPLoad
    return { t with
      ctrl := t.ctrl.update (t.dl.leftNs now) cpLoad false
      lp := t.lp.updateCPLoad load }

/-- `UpdateTaskSwitch(state)`. -/
def updateTaskSwitch (t : DefaultInterval) : TaskSwitchState → DefaultInterval
  | .begin => { t with ctrl := t.ctrl.updateForce true }
  | .update => { t with ctrl := t.ctrl.updateForce false }
  | .end_ => { t with ctrl := t.ctrl.clear.updateForce true }

/-- The operations of a `DefaultInterval`, each with what it reads of the environment. -/
inductive IntervalOp
  | begin (busy : Bool)
  | update (deadlineUs now : Nat)
  | end_ (load : Nat)
  | checkPoint (now load : Nat)
  | updateTaskSwitch (state : TaskSwitchState)
  deriving DecidableEq, Repr

/-- One operation, under the interval's `mutex`. -/
def step (t : DefaultInterval) : IntervalOp → Option DefaultInterval
  | .begin busy => some (t.begin busy).2
  | .update deadlineUs now => some (t.update deadlineUs now)
  | .end_ load => some (t.end_ load)
  | .checkPoint now load => t.checkPoint now load
  | .updateTaskSwitch state => some (t.updateTaskSwitch state)

/-- **`CheckPoint` reads past the deque exactly when the interval has begun and the index is the
deque's size.** -/
theorem checkPoint_eq_none_iff (t : DefaultInterval) (now load : Nat) :
    t.checkPoint now load = none ↔
      t.enabled = true ∧ t.lp.cpLoadIndex = t.lp.cpLoad.length := by
  cases he : t.enabled with
  | false => simp [checkPoint, he]
  | true =>
      rw [← IntervalLoadPredictor.getCPLoad_eq_none_iff]
      cases h : t.lp.getCPLoad <;> simp [checkPoint, he, h]

/-- One operation with no access past the deque leaves it its size. -/
theorem length_cpLoad_step {t t' : DefaultInterval} {a : IntervalOp} (h : step t a = some t') :
    t'.lp.cpLoad.length = t.lp.cpLoad.length := by
  cases a with
  | begin busy =>
      cases h
      unfold begin
      split
      · rfl
      · split <;> rfl
  | update deadlineUs now =>
      cases h
      unfold update
      split <;> rfl
  | end_ load =>
      cases h
      unfold end_
      split <;> rfl
  | checkPoint now load =>
      simp only [step, checkPoint] at h
      split at h
      · cases h
        rfl
      · -- `GetCPLoad` read in bounds, so `UpdateCPLoad` does not grow the deque
        cases hcp : t.lp.getCPLoad with
        | none => simp [hcp] at h
        | some cpLoad =>
            simp only [hcp, Option.bind_eq_bind, Option.bind_some, Option.pure_def,
              Option.some.injEq] at h
            subst h
            have hne : t.lp.cpLoadIndex ≠ t.lp.cpLoad.length := fun heq =>
              by simp [(IntervalLoadPredictor.getCPLoad_eq_none_iff _).mpr heq] at hcp
            exact IntervalLoadPredictor.length_updateCPLoad
              (Nat.lt_of_le_of_ne t.lp.cpLoadIndex_le hne) load
  | updateTaskSwitch state =>
      cases h
      cases state <;> rfl

/-- **The deque keeps its one predictor.**  In every run of a new interval's operations in
which no `GetCPLoad` reads past the deque, the deque holds one predictor. -/
theorem length_cpLoad_of_reach {deadlineUs now : Nat} {tg : Bool} {t : DefaultInterval}
    (h : Machine.Reach step (new deadlineUs tg now) t) : t.lp.cpLoad.length = 1 := by
  -- induction on the run; each step keeps the size
  induction h with
  | init => rfl
  | next _ _ hstep ih => rw [length_cpLoad_step hstep, ih]

/-- **The second `CheckPoint` of an interval reads past the deque.**  After `Begin` and one
`CheckPoint` of a new interval, the index has reached the size of the deque, so the next
`CheckPoint` reads `cpLoad[1]` of a deque of one predictor, whatever it reads of the clock and
the load tracking. -/
theorem cpLoad_out_of_bounds :
    ∃ t, Machine.Reach step (new 100 true 0) t ∧ t.enabled = true ∧
      t.lp.cpLoadIndex = t.lp.cpLoad.length ∧ t.lp.cpLoad.length = 1 ∧
      ∀ now load, t.checkPoint now load = none := by
  have hrun : Machine.holdsAfter step (new 100 true 0) [.begin false, .checkPoint 0 0]
      (fun (t : DefaultInterval) => t.enabled = true ∧
        t.lp.cpLoadIndex = t.lp.cpLoad.length) = true := by
    decide +kernel
  obtain ⟨t, hreach, he, hidx⟩ := Machine.exists_of_holdsAfter _ hrun
  exact ⟨t, hreach, he, hidx, length_cpLoad_of_reach hreach,
    fun now load => (checkPoint_eq_none_iff t now load).mpr ⟨he, hidx⟩⟩

end DefaultInterval

/-- **Admitted deadlines wrap.**  `ffrt_interval_create` and `ffrt_interval_update` admit
deadlines up to `MAX_US_COUNT`; `Update(MAX_US_COUNT)` stores `MAX_US_COUNT * 1000` modulo
`2 ^ 64`, so `ToUs()` no longer reads it back, and nor is `ToNs()` the deadline in
nanoseconds.  And a new interval of one microsecond keeps the length `0` of the fresh
`Deadline`, whose `ToUs()` is already `1`, so it sets its window to `0` nanoseconds. -/
theorem deadline_wraps (now : Nat) :
    clampDeadline (2 ^ 64 - 1) = maxUsCount ∧
      (Deadline.new maxUsCount now).toUs ≠ maxUsCount ∧
      (Deadline.new maxUsCount now).toNs ≠ maxUsCount * 1000 ∧
      (DefaultInterval.new 1 true now).ctrl.windowSize ≠ 1 * nsPerUs := by
  refine ⟨by decide, ?_, ?_, ?_⟩
  · -- `MAX_US_COUNT * 1000` does not fit in 64 bits
    rw [Deadline.new, Ne, Deadline.toUs_update_eq_iff _ (by decide)]
    decide
  · rw [Deadline.new, Deadline.update_toNs,
      Deadline.updatedNs_of_ne (by rw [Deadline.toUs_fresh]; decide) (by decide)]
    decide
  · -- `Update(1)` is skipped: the fresh length `0` reads as `1` microsecond
    have hns : (Deadline.new 1 now).toNs = 0 := by
      rw [Deadline.new, Deadline.update_toNs, ← Deadline.toUs_fresh, Deadline.updatedNs_toUs]
    simp [DefaultInterval.new, PerfCtrl.new, PerfCtrl.setWindowSize, hns, nsPerUs]

end Ffrt.Sched
