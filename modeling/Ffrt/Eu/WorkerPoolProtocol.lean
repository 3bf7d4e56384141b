import Ffrt.Eu.WorkerPool
import Ffrt.Support.Count

/-!
# Eu — the worker pool's protocol

What `CPUWorkerGroup`'s counters mean over every interleaving of the workers and the pokes, and
that no task is left in the queue with nobody to take it.

* `Counted`: `executingNum` counts the workers from `IncWorker` or a wake-up to `IntoSleep`,
  and the creations under way (`WorkerCreate` done, `IncWorker` not); `sleepingNum` counts the
  workers from `IntoSleep` to their wake-up or `WorkerDestroy`, and `deepSleepingWorkerNum` the
  deep sleepers.  The workers and the creations stay within `hardLimit` under the default
  strategy and within `maxConcurrency` under the others.  Every step keeps it, a failed
  `IncWorker` included (`workerCounts_of_reach`).
* The strategies.  One that does nothing for a task added has seen a worker executing, one
  that wakes has seen a sleeper, and `PokeImpl`'s escape branch is never taken while
  `maxConcurrency` and `hardLimit` are positive, as `ffrt_set_cpu_worker_max_num` and
  `GlobalConfig` keep them.
* `Serving`: while the queue holds a task, some worker runs, holds `mtx` before its predicate
  check, or was notified; or some caller's poke is still to decide or to create a worker; or
  one is to notify while a waiter is there to be notified.
* `noStrandedTask_of_leads`: on every run whose `IncWorker`s succeed, spurious wake-ups and
  timeouts included, the queue never holds a task while every worker waits un-notified or has
  left and no caller pokes: the wake-up a `PushTask` needs is never lost.
-/

namespace Ffrt.Eu

open Function Count Machine

/-! ### What the counters count -/

/-- The workers `executingNum` counts: from `IncWorker` or a wake-up to `IntoSleep`. -/
def WorkerPc.executing : WorkerPc → Bool
  | .loop | .poke _ | .run | .idle => true
  | _ => false

/-- The workers `sleepingNum` counts: from `IntoSleep` to a wake-up or `WorkerDestroy`. -/
def WorkerPc.sleeping : WorkerPc → Bool
  | .check | .waiting _ | .deepWaiting _ => true
  | _ => false

/-- The workers `deepSleepingWorkerNum` counts. -/
def WorkerPc.deep : WorkerPc → Bool
  | .deepWaiting _ => true
  | _ => false

/-- A poke between `WorkerCreate` and `IncWorker`. -/
def pokeCreating : Option PokePc → Bool
  | some .create => true
  | _ => false

/-- A worker in such a poke. -/
def WorkerPc.creating : WorkerPc → Bool
  | .poke p => pokeCreating (some p)
  | _ => false

/-- A worker that will look at the queue: it runs, holds `mtx` before its predicate check, or
was notified in its wait. -/
def WorkerPc.serves : WorkerPc → Bool
  | .loop | .poke _ | .run | .idle | .check | .waiting true | .deepWaiting true => true
  | _ => false

namespace WorkerPc

theorem serves_of_executing {p : WorkerPc} (h : p.executing = true) : p.serves = true := by
  cases p <;> simp_all [executing, serves]

theorem serves_of_creating {p : WorkerPc} (h : p.creating = true) : p.serves = true := by
  cases p <;> simp_all [creating, serves]

/-- A sleeper will look at the queue, or waits for a `notify_one`. -/
theorem serves_or_unnotified {p : WorkerPc} (h : p.sleeping = true) :
    p.serves = true ∨ p.unnotified = true := by
  cases p with
  | waiting n => cases n <;> simp [serves, unnotified]
  | deepWaiting n => cases n <;> simp [serves, unnotified]
  | _ => simp_all [sleeping, serves]

theorem notify_serves {p : WorkerPc} (h : p.unnotified = true) : p.notify.serves = true := by
  cases p <;> simp_all [unnotified, notify, serves]

theorem serves_eq_false_of_unnotified {p : WorkerPc} (h : p.unnotified = true) :
    p.serves = false := by
  cases p with
  | waiting n => cases n <;> simp_all [unnotified, serves]
  | deepWaiting n => cases n <;> simp_all [unnotified, serves]
  | _ => simp_all [unnotified]

/-- `notify_one` moves a waiter within its counts. -/
theorem notify_counts (p : WorkerPc) :
    p.notify.executing = p.executing ∧ p.notify.sleeping = p.sleeping ∧
      p.notify.deep = p.deep ∧ p.notify.creating = p.creating := by
  cases p <;> simp [notify, executing, sleeping, deep, creating]

end WorkerPc

/-- A caller's poke that is still to decide or to create a worker. -/
def PokePc.pending : PokePc → Bool
  | .wake => false
  | _ => true

theorem pokeCreating_eq_true {p : Option PokePc} (h : pokeCreating p = true) :
    p = some .create := by
  rcases p with _ | _ | _ | _ | _ <;> simp_all [pokeCreating]

/-- A caller's poke is for `TASK_ADDED`, and one past `GetGlobalTaskCnt` read a task. -/
def PokePc.added : PokePc → Prop
  | .read notifyType => notifyType = .taskAdded
  | .decide notifyType taskCount => notifyType = .taskAdded ∧ 0 < taskCount
  | _ => True

namespace WorkerPool

/-- The creations under way. -/
def creations (cfg : PoolConfig) (s : WorkerPool) : Nat :=
  below s.spawned s.worker WorkerPc.creating + below cfg.callers s.caller pokeCreating

/-- The bound on the workers that the strategy keeps: `hardLimit` for `PokeImpl`, which
creates below it, and `maxConcurrency` for the others, which create only while fewer execute
and none sleeps. -/
def workerLimit (cfg : PoolConfig) : Nat :=
  match cfg.strategy with
  | .default => cfg.hardLimit
  | _ => cfg.maxConcurrency

/-- **The counters count the workers**, and the workers stay within the strategy's bound. -/
structure Counted (cfg : PoolConfig) (s : WorkerPool) : Prop where
  fresh : ∀ w, s.spawned ≤ w → s.worker w = .unborn
  idle : ∀ c, cfg.callers ≤ c → s.caller c = none
  executing : s.executingNum = below s.spawned s.worker WorkerPc.executing + s.creations cfg
  sleeping : s.sleepingNum = below s.spawned s.worker WorkerPc.sleeping
  deep : s.deepSleepingWorkerNum = below s.spawned s.worker WorkerPc.deep
  bounded : s.sleepingNum + s.executingNum ≤ workerLimit cfg

/-! ### The strategies' choices -/

section Strategies

variable {cfg : PoolConfig} {s : WorkerPool} {n : Nat} {notifyType : TaskNotifyType}

/-- A strategy wakes only when it has seen a sleeper. -/
theorem handleTaskNotify_wake (h : s.handleTaskNotify cfg n notifyType = .wake) :
    0 < s.sleepingNum := by
  unfold handleTaskNotify pokeImpl handleTaskNotifyConservative
    handleTaskNotifyUltraConservative at h
  -- one case per strategy; each is a chain of comparisons of the counters
  split at h <;> grind

/-- A strategy creates a worker only below its bound. -/
theorem handleTaskNotify_create (h : s.handleTaskNotify cfg n notifyType = .create) :
    s.sleepingNum + s.executingNum < workerLimit cfg := by
  unfold handleTaskNotify pokeImpl handleTaskNotifyConservative
    handleTaskNotifyUltraConservative at h
  unfold workerLimit
  split at h <;> rename_i hs <;> simp only [hs] <;> grind [getRunningNum]

variable (hmax : 0 < cfg.maxConcurrency) (hlim : 0 < cfg.hardLimit)
include hmax hlim

/-- **`PokeImpl`'s escape branch is never taken**: with no worker running it wakes a sleeper
or creates one, since none running and none sleeping is below `hardLimit`. -/
theorem handleTaskNotify_ne_escape : s.handleTaskNotify cfg n notifyType ≠ .escape := by
  intro h
  unfold handleTaskNotify pokeImpl handleTaskNotifyConservative
    handleTaskNotifyUltraConservative at h
  split at h <;> grind [getRunningNum]

/-- **A strategy that does nothing for a task added has seen a worker executing.** -/
theorem handleTaskNotify_skip (hn : 0 < n) (h : s.handleTaskNotify cfg n .taskAdded = .skip) :
    0 < s.executingNum := by
  unfold handleTaskNotify pokeImpl handleTaskNotifyConservative
    handleTaskNotifyUltraConservative at h
  split at h <;> grind [getRunningNum]

end Strategies

/-! ### The counts over a step -/

namespace Counted

variable {cfg : PoolConfig} {s t : WorkerPool}

theorem lt_spawned (h : Counted cfg s) {w : Nat} (hw : s.worker w ≠ .unborn) : w < s.spawned :=
  Nat.lt_of_not_le fun hle => hw (h.fresh w hle)

theorem lt_callers (h : Counted cfg s) {c : Nat} (hc : s.caller c ≠ none) : c < cfg.callers :=
  Nat.lt_of_not_le fun hle => hc (h.idle c hle)

/-- A poke that is to create a worker is counted among the creations. -/
theorem creations_pos (h : Counted cfg s) {x : Ctx} (hx : s.pokeOf x = some .create) :
    0 < s.creations cfg := by
  unfold creations
  cases x with
  | caller c =>
      have hc : c < cfg.callers := h.lt_callers (by simp_all)
      have := below_pos (q := pokeCreating) (f := s.caller) hc (by simp_all [pokeCreating])
      omega
  | worker w =>
      have hw : s.worker w = .poke .create := pokeOf_worker.mp hx
      have hlt : w < s.spawned := h.lt_spawned (by simp [hw])
      have := below_pos (q := WorkerPc.creating) (f := s.worker) hlt
        (by simp [hw, WorkerPc.creating, pokeCreating])
      omega

theorem size (h : Counted cfg s) (n : Nat) : Counted cfg { s with size := n } :=
  ⟨h.fresh, h.idle, h.executing, h.sleeping, h.deep, h.bounded⟩

/-- **Moving one worker** keeps the counts when each counter moves as the worker's classes
do. -/
theorem move (h : Counted cfg s) {w : Nat} (hw : w < s.spawned) (hsp : t.spawned = s.spawned)
    (hwk : ∀ v ≠ w, t.worker v = s.worker v) (hc : t.caller = s.caller)
    (he : t.executingNum + ((s.worker w).executing.toNat + (s.worker w).creating.toNat) =
      s.executingNum + ((t.worker w).executing.toNat + (t.worker w).creating.toNat))
    (hs : t.sleepingNum + (s.worker w).sleeping.toNat =
      s.sleepingNum + (t.worker w).sleeping.toNat)
    (hd : t.deepSleepingWorkerNum + (s.worker w).deep.toNat =
      s.deepSleepingWorkerNum + (t.worker w).deep.toNat)
    (hb : t.sleepingNum + t.executingNum ≤ workerLimit cfg) : Counted cfg t :=
  have hup : t.worker = update s.worker w (t.worker w) := by
    funext v
    by_cases hv : v = w
    · subst hv
      rw [update_self]
    · rw [update_of_ne hv, hwk v hv]
  { fresh := fun v hv => by
      rw [hwk v (by omega)]
      exact h.fresh v (hsp ▸ hv)
    idle := hc ▸ h.idle
    executing := by
      have h1 := below_update (q := WorkerPc.executing) (f := s.worker) hw (t.worker w)
      have h2 := below_update (q := WorkerPc.creating) (f := s.worker) hw (t.worker w)
      have h0 := h.executing
      unfold creations at h0 ⊢
      rw [hsp, hc, hup]
      omega
    sleeping := by
      have h1 := below_update (q := WorkerPc.sleeping) (f := s.worker) hw (t.worker w)
      have h0 := h.sleeping
      rw [hsp, hup]
      omega
    deep := by
      have h1 := below_update (q := WorkerPc.deep) (f := s.worker) hw (t.worker w)
      have h0 := h.deep
      rw [hsp, hup]
      omega
    bounded := hb }

/-- **Moving one worker to `p`** on a state `s'` with the counters of the step, the workers and
the callers of `s`. -/
theorem moveTo (h : Counted cfg s) {w : Nat} (hw : w < s.spawned) {s' : WorkerPool}
    (hsp : s'.spawned = s.spawned) (hwk : s'.worker = s.worker) (hc : s'.caller = s.caller)
    (p : WorkerPc)
    (he : s'.executingNum + ((s.worker w).executing.toNat + (s.worker w).creating.toNat) =
      s.executingNum + (p.executing.toNat + p.creating.toNat))
    (hs : s'.sleepingNum + (s.worker w).sleeping.toNat = s.sleepingNum + p.sleeping.toNat)
    (hd : s'.deepSleepingWorkerNum + (s.worker w).deep.toNat =
      s.deepSleepingWorkerNum + p.deep.toNat)
    (hb : s'.sleepingNum + s'.executingNum ≤ workerLimit cfg) :
    Counted cfg (s'.setWorker w p) := by
  refine h.move hw hsp (fun v hv => by simp [hwk, update_of_ne hv]) hc ?_ ?_ ?_ hb <;>
    simpa only [setWorker_executingNum, setWorker_sleepingNum, setWorker_deepSleepingWorkerNum,
      setWorker_worker, update_self]

/-- A worker that moves within its counts, the counters left as they are. -/
theorem setWorker (h : Counted cfg s) {w : Nat} (hw : w < s.spawned) {p : WorkerPc}
    (hp : p.executing = (s.worker w).executing ∧ p.sleeping = (s.worker w).sleeping ∧
      p.deep = (s.worker w).deep ∧ p.creating = (s.worker w).creating) :
    Counted cfg (s.setWorker w p) := by
  obtain ⟨h1, h2, h3, h4⟩ := hp
  refine h.moveTo hw rfl rfl rfl p ?_ ?_ ?_ h.bounded <;> simp only [h1, h2, h3, h4]

/-- **Moving one caller's poke** keeps the counts when `executingNum` moves as its creation
does. -/
theorem moveCaller (h : Counted cfg s) {c : Nat} (hc : c < cfg.callers) (p : Option PokePc)
    {e : Nat} (he : e + (pokeCreating (s.caller c)).toNat = s.executingNum + (pokeCreating p).toNat)
    (hb : s.sleepingNum + e ≤ workerLimit cfg) :
    Counted cfg ({ s with executingNum := e }.setCaller c p) where
  fresh := h.fresh
  idle c' hc' := by simp [update_of_ne (show c' ≠ c by omega), h.idle c' hc']
  executing := by
    have h1 := below_update (q := pokeCreating) (f := s.caller) hc p
    have h0 := h.executing
    unfold creations at h0 ⊢
    simp only [setCaller_executingNum, setCaller_spawned, setCaller_worker, setCaller_caller]
    omega
  sleeping := h.sleeping
  deep := h.deep
  bounded := hb

/-- **Moving a poke on**, a caller's or a worker's, keeps the counts when `executingNum` moves
as its creation does. -/
theorem setPoke (h : Counted cfg s) {x : Ctx} {p : PokePc} (hx : s.pokeOf x = some p)
    (p' : Option PokePc) {e : Nat}
    (he : e + (pokeCreating (some p)).toNat = s.executingNum + (pokeCreating p').toNat)
    (hb : s.sleepingNum + e ≤ workerLimit cfg) :
    Counted cfg ({ s with executingNum := e }.setPoke x p') := by
  cases x with
  | caller c =>
      rw [pokeOf_caller] at hx
      exact h.moveCaller (h.lt_callers (by simp [hx])) p' (hx ▸ he) hb
  | worker w =>
      have hw : s.worker w = .poke p := pokeOf_worker.mp hx
      have hlt : w < s.spawned := h.lt_spawned (by simp [hw])
      -- the worker stays executing; only its creation moves
      cases p' with
      | none =>
          have h0 : (pokeCreating none).toNat = 0 := rfl
          refine h.moveTo hlt (by rfl) (by rfl) (by rfl) _ ?_ ?_ ?_ hb <;>
            simp [hw, WorkerPc.executing, WorkerPc.sleeping, WorkerPc.deep, WorkerPc.creating]
          omega
      | some q =>
          refine h.moveTo hlt (by rfl) (by rfl) (by rfl) _ ?_ ?_ ?_ hb <;>
            simp [hw, WorkerPc.executing, WorkerPc.sleeping, WorkerPc.deep, WorkerPc.creating]
          omega

/-- The new worker, numbered `spawned`, leaves every later number unborn. -/
theorem fresh_spawn (h : Counted cfg s) :
    ∀ v, s.spawned + 1 ≤ v → update s.worker s.spawned .loop v = .unborn :=
  fun v hv => by rw [update_of_ne (by omega)]; exact h.fresh v (by omega)

/-- **`IncWorker` succeeds for a caller**: the new worker, at `loop`, takes over the count of
the caller's creation. -/
theorem spawn_caller (h : Counted cfg s) {c : Nat} (hc : s.caller c = some .create) :
    Counted cfg (s.incWorker (.caller c) true) := by
  have hlt : c < cfg.callers := h.lt_callers (by simp [hc])
  have hsub := below_update_sub (q := pokeCreating) (f := s.caller) hlt
    (p := none) (by simp [hc, pokeCreating]) rfl
  have h0 := h.executing
  unfold creations at h0
  simp only [incWorker, if_true]
  refine ⟨fun v hv => h.fresh_spawn v hv, fun c' hc' => ?_, ?_, ?_, ?_, h.bounded⟩
  · simp [update_of_ne (show c' ≠ c by omega), h.idle c' hc']
  · unfold creations
    simp only [setPoke_caller, setCaller_executingNum, setCaller_spawned, setCaller_worker,
      setCaller_caller, setWorker_executingNum, setWorker_spawned, setWorker_worker,
      setWorker_caller, below_succ_update]
    simp only [WorkerPc.executing, WorkerPc.creating, Bool.toNat_true, Bool.toNat_false]
    omega
  · simp only [setPoke_caller, setCaller_sleepingNum, setCaller_spawned, setCaller_worker,
      setWorker_sleepingNum, setWorker_spawned, setWorker_worker, below_succ_update, h.sleeping]
    rfl
  · simp only [setPoke_caller, setCaller_deepSleepingWorkerNum, setCaller_spawned,
      setCaller_worker, setWorker_deepSleepingWorkerNum, setWorker_spawned, setWorker_worker,
      below_succ_update, h.deep]
    rfl

/-- **`IncWorker` succeeds for a worker's poke**: the new worker starts at `loop` as the poking
worker goes back to its task, and the creation ends. -/
theorem spawn_worker (h : Counted cfg s) {w : Nat} (hw : s.worker w = .poke .create) :
    Counted cfg (s.incWorker (.worker w) true) := by
  have hlt : w < s.spawned := h.lt_spawned (by simp [hw])
  have hnew : ∀ q : WorkerPc → Bool, below (s.spawned + 1) (update s.worker s.spawned .loop) q =
      below s.spawned s.worker q + (q .loop).toNat := fun q => below_succ_update WorkerPc.loop
  have hold : update s.worker s.spawned .loop w = .poke .create := by
    rw [update_of_ne (by omega), hw]
  -- one count after both moves: the new worker in, the poking worker from `poke` to `run`
  have hmove : ∀ q : WorkerPc → Bool,
      below (s.spawned + 1) (update (update s.worker s.spawned .loop) w .run) q +
          (q (.poke .create)).toNat =
        below s.spawned s.worker q + (q .loop).toNat + (q .run).toNat := fun q => by
    rw [← hnew, ← hold]
    exact below_update (by omega) WorkerPc.run
  have h0 := h.executing
  unfold creations at h0
  simp only [incWorker, if_true]
  refine ⟨fun v hv => ?_, h.idle, ?_, ?_, ?_, h.bounded⟩
  · simp only [setPoke_worker_none, setWorker_worker, setWorker_spawned] at hv ⊢
    rw [update_of_ne (by omega)]
    exact h.fresh_spawn v hv
  · unfold creations
    have he := hmove WorkerPc.executing
    have hcr := hmove WorkerPc.creating
    simp only [WorkerPc.executing, WorkerPc.creating, pokeCreating, Bool.toNat_true,
      Bool.toNat_false] at he hcr
    simp only [setPoke_worker_none, setWorker_executingNum, setWorker_spawned,
      setWorker_worker, setWorker_caller]
    omega
  · have hs := hmove WorkerPc.sleeping
    have h1 := h.sleeping
    simp only [WorkerPc.sleeping, Bool.toNat_false] at hs
    simp only [setPoke_worker_none, setWorker_sleepingNum, setWorker_spawned, setWorker_worker]
    omega
  · have hd := hmove WorkerPc.deep
    have h2 := h.deep
    simp only [WorkerPc.deep, Bool.toNat_false] at hd
    simp only [setPoke_worker_none, setWorker_deepSleepingWorkerNum, setWorker_spawned,
      setWorker_worker]
    omega

/-- **`IncWorker` succeeds**: the new worker takes over the count of its creation. -/
theorem spawn (h : Counted cfg s) {x : Ctx} (hx : s.pokeOf x = some .create) :
    Counted cfg (s.incWorker x true) := by
  cases x with
  | caller c => exact h.spawn_caller hx
  | worker w => exact h.spawn_worker (pokeOf_worker.mp hx)

/-- A worker counted as executing runs, or is about to be created by a caller's poke. -/
theorem serves_of_executingNum (h : Counted cfg s) (hpos : 0 < s.executingNum) :
    (∃ w < s.spawned, (s.worker w).serves = true) ∨ ∃ c, s.caller c = some .create := by
  have h0 := h.executing
  unfold creations at h0
  by_cases he : 0 < below s.spawned s.worker WorkerPc.executing
  · obtain ⟨w, hw, hx⟩ := exists_of_below_pos he
    exact .inl ⟨w, hw, WorkerPc.serves_of_executing hx⟩
  by_cases hw : 0 < below s.spawned s.worker WorkerPc.creating
  · obtain ⟨w, hlt, hx⟩ := exists_of_below_pos hw
    exact .inl ⟨w, hlt, WorkerPc.serves_of_creating hx⟩
  · obtain ⟨c, -, hx⟩ :=
      exists_of_below_pos (n := cfg.callers) (q := pokeCreating) (f := s.caller) (by omega)
    exact .inr ⟨c, pokeCreating_eq_true hx⟩

/-- A worker counted as sleeping will look at the queue, or waits for a `notify_one`. -/
theorem serves_of_sleepingNum (h : Counted cfg s) (hpos : 0 < s.sleepingNum) :
    ∃ w < s.spawned, (s.worker w).serves = true ∨ (s.worker w).unnotified = true := by
  obtain ⟨w, hw, hx⟩ := exists_of_below_pos (h.sleeping ▸ hpos)
  exact ⟨w, hw, WorkerPc.serves_or_unnotified hx⟩

end Counted

section Steps

variable {cfg : PoolConfig} {s t : WorkerPool} {a : PoolAction}

theorem counted_init : Counted cfg init where
  fresh _ _ := rfl
  idle _ _ := rfl
  executing := by
    have h0 : below cfg.callers (fun _ => (none : Option PokePc)) pokeCreating = 0 :=
      List.countP_eq_zero.mpr fun _ _ => Bool.false_ne_true
    simp [init, creations, h0]
  sleeping := rfl
  deep := rfl
  bounded := Nat.zero_le _

/-- **Every step keeps the counts**, a failed `IncWorker` included. -/
theorem counted_step (h : Counted cfg s) (hs : s.step cfg a = some t) : Counted cfg t := by
  cases a with
  | submit c =>
      obtain ⟨hc, hnone, -, rfl⟩ := step_submit hs
      refine (h.size (s.size + 1)).moveCaller hc _ ?_ h.bounded
      simp [hnone, pokeCreating]
  | submitInTask w =>
      obtain ⟨hw, -, rfl⟩ := step_submitInTask hs
      refine (h.size (s.size + 1)).setWorker (h.lt_spawned (w := w) (by simp [hw])) ?_
      simp [hw, WorkerPc.executing, WorkerPc.sleeping, WorkerPc.deep, WorkerPc.creating,
        pokeCreating]
  | popTask w =>
      obtain ⟨hw, -, rfl⟩ := step_popTask hs
      have hlt : w < s.spawned := h.lt_spawned (by simp [hw])
      split_ifs
      · refine (h.size (s.size - 1)).setWorker hlt ?_
        simp [hw, WorkerPc.executing, WorkerPc.sleeping, WorkerPc.deep, WorkerPc.creating,
          pokeCreating]
      · refine h.setWorker hlt ?_
        simp [hw, WorkerPc.executing, WorkerPc.sleeping, WorkerPc.deep, WorkerPc.creating]
  | runTask w =>
      obtain ⟨hw, rfl⟩ := step_runTask hs
      refine h.setWorker (h.lt_spawned (w := w) (by simp [hw])) ?_
      simp [hw, WorkerPc.executing, WorkerPc.sleeping, WorkerPc.deep, WorkerPc.creating]
  | intoSleep w =>
      -- the worker moves from executing to sleeping, and so do the counters
      obtain ⟨hw, -, rfl⟩ := step_intoSleep hs
      have hlt : w < s.spawned := h.lt_spawned (by simp [hw])
      have hpos := below_pos (q := WorkerPc.executing) (f := s.worker) hlt (by rw [hw]; rfl)
      have h0 := h.executing
      have hb := h.bounded
      refine h.moveTo hlt (by rfl) (by rfl) (by rfl) _ ?_ ?_ ?_ ?_ <;>
        simp [hw, WorkerPc.executing, WorkerPc.sleeping, WorkerPc.deep, WorkerPc.creating] <;>
        omega
  | waitFor w =>
      obtain ⟨hw, rfl⟩ := step_waitFor hs
      have hlt : w < s.spawned := h.lt_spawned (by simp [hw])
      have hpos := below_pos (q := WorkerPc.sleeping) (f := s.worker) hlt (by rw [hw]; rfl)
      have h0 := h.sleeping
      have hb := h.bounded
      split_ifs
      · refine h.moveTo hlt (by rfl) (by rfl) (by rfl) _ ?_ ?_ ?_ ?_ <;>
          simp [hw, WorkerPc.executing, WorkerPc.sleeping, WorkerPc.deep, WorkerPc.creating] <;>
          omega
      · refine h.setWorker hlt ?_
        simp [hw, WorkerPc.executing, WorkerPc.sleeping, WorkerPc.deep, WorkerPc.creating]
  | wakeUp w timeout =>
      obtain ⟨⟨n, hw⟩, -, rfl⟩ := step_wakeUp hs
      have hlt : w < s.spawned := h.lt_spawned (by simp [hw])
      have hpos := below_pos (q := WorkerPc.sleeping) (f := s.worker) hlt (by rw [hw]; rfl)
      have h0 := h.sleeping
      have hb := h.bounded
      -- back to work, waiting again, leaving, or into the deep sleep
      unfold WorkerPool.wakeUp
      split_ifs <;>
        refine h.moveTo hlt (by rfl) (by rfl) (by rfl) _ ?_ ?_ ?_ ?_ <;>
        simp [hw, hb, WorkerPc.executing, WorkerPc.sleeping, WorkerPc.deep, WorkerPc.creating] <;>
        omega
  | deepWakeUp w =>
      obtain ⟨⟨n, hw⟩, -, rfl⟩ := step_deepWakeUp hs
      have hlt : w < s.spawned := h.lt_spawned (by simp [hw])
      have hpos := below_pos (q := WorkerPc.deep) (f := s.worker) hlt (by rw [hw]; rfl)
      have hpos' := below_pos (q := WorkerPc.sleeping) (f := s.worker) hlt (by rw [hw]; rfl)
      have h0 := h.sleeping
      have h1 := h.deep
      have hb := h.bounded
      split_ifs <;>
        refine h.moveTo hlt (by rfl) (by rfl) (by rfl) _ ?_ ?_ ?_ ?_ <;>
        simp [hw, hb, WorkerPc.executing, WorkerPc.sleeping, WorkerPc.deep, WorkerPc.creating] <;>
        omega
  | getGlobalTaskCnt x =>
      obtain ⟨notifyType, hx, rfl⟩ := step_getGlobalTaskCnt hs
      split_ifs
      · exact h.setPoke hx _ rfl h.bounded
      · exact h.setPoke hx _ rfl h.bounded
  | lock x =>
      obtain ⟨notifyType, taskCount, hx, rfl⟩ := step_lock hs
      unfold lockSection
      split
      · exact h.setPoke hx _ rfl h.bounded
      · exact h.setPoke hx _ rfl h.bounded
      · -- `WorkerCreate`, below the strategy's bound
        rename_i hcreate
        have := handleTaskNotify_create hcreate
        refine h.setPoke hx _ rfl ?_
        omega
      · exact h.setPoke hx _ rfl h.bounded
  | wakeupWorkers x target =>
      cases target with
      | some w =>
          obtain ⟨hx, hlt, hun, rfl⟩ := step_wakeupWorkers_some hs
          have hnp : ∀ r, s.worker w ≠ .poke r := fun r he => by
            simp [he, WorkerPc.unnotified] at hun
          have h' := h.setWorker hlt (WorkerPc.notify_counts (s.worker w))
          exact h'.setPoke (pokeOf_setWorker hx hnp) _ rfl h.bounded
      | none =>
          obtain ⟨hx, -, rfl⟩ := step_wakeupWorkers_none hs
          exact h.setPoke hx _ rfl h.bounded
  | incWorker x ok =>
      obtain ⟨hx, rfl⟩ := step_incWorker hs
      cases ok with
      | true => exact h.spawn hx
      | false =>
          -- `RollBackCreate`: the creation leaves the count
          have hpos := h.creations_pos hx
          have h0 := h.executing
          have hb := h.bounded
          have h1 : (pokeCreating (some .create)).toNat = 1 := rfl
          have h2 : (pokeCreating none).toNat = 0 := rfl
          refine h.setPoke hx none ?_ ?_ <;> omega

end Steps


/-! ### No lost wake-up -/

/-- **While the queue holds a task, someone will take it**: a worker that runs, holds `mtx`
before its predicate check, or was notified; a caller's poke still to decide or to create a
worker; or a caller's poke to notify while a waiter is there to be notified.  The callers'
pokes are for `TASK_ADDED`, and read a task before their `lock` section. -/
structure Serving (s : WorkerPool) : Prop where
  added : ∀ c p, s.caller c = some p → p.added
  served : 0 < s.size →
    (∃ w < s.spawned, (s.worker w).serves = true) ∨
      (∃ c p, s.caller c = some p ∧ p.pending = true) ∨
      ((∃ c, s.caller c = some .wake) ∧ ∃ w < s.spawned, (s.worker w).unnotified = true)

/-- **A task is stranded**: the queue holds a task while every worker created waits with no
`notify_one` on its way or has left, and no caller is in a poke. -/
def Stranded (cfg : PoolConfig) (s : WorkerPool) : Prop :=
  0 < s.size ∧ (∀ w < s.spawned, (s.worker w).unnotified = true ∨ s.worker w = .retired) ∧
    ∀ c < cfg.callers, s.caller c = none

instance (cfg : PoolConfig) (s : WorkerPool) : Decidable (Stranded cfg s) :=
  inferInstanceAs (Decidable (_ ∧ _ ∧ _))

namespace Serving

variable {cfg : PoolConfig} {s t : WorkerPool}

/-- After a step that leaves a worker to serve. -/
theorem of_worker (hadd : ∀ c p, t.caller c = some p → p.added) {w : Nat} (hw : w < t.spawned)
    (hs : (t.worker w).serves = true) : Serving t :=
  ⟨hadd, fun _ => .inl ⟨w, hw, hs⟩⟩

/-- After a step that leaves the queue empty. -/
theorem of_empty (hadd : ∀ c p, t.caller c = some p → p.added) (h0 : ¬ 0 < t.size) :
    Serving t :=
  ⟨hadd, fun h => absurd h h0⟩

/-- A caller's poke that moves on to one for `TASK_ADDED`. -/
theorem added_update (h : Serving s) {c : Nat} {p : Option PokePc}
    (hp : ∀ q : PokePc, p = some q → q.added) :
    ∀ c' q, update s.caller c p c' = some q → q.added := by
  intro c' q hq
  by_cases hc : c' = c
  · subst hc
    rw [update_self] at hq
    exact hp q hq
  · rw [update_of_ne hc] at hq
    exact h.added c' q hq

/-- **A queued task never goes unserved**: no stranded state while `Counted` and `Serving`
hold. -/
theorem not_stranded (hc : Counted cfg s) (h : Serving s) : ¬ Stranded cfg s := by
  rintro ⟨hpos, hw, hcl⟩
  rcases h.served hpos with ⟨w, hlt, hsv⟩ | ⟨c, p, hcp, -⟩ | ⟨⟨c, hcw⟩, -⟩
  · rcases hw w hlt with hun | hret
    · rw [WorkerPc.serves_eq_false_of_unnotified hun] at hsv
      cases hsv
    · rw [hret] at hsv
      cases hsv
  · have := hcl c (hc.lt_callers (by simp [hcp]))
    simp_all
  · have := hcl c (hc.lt_callers (by simp [hcw]))
    simp_all

end Serving

section Served

variable {cfg : PoolConfig} {s t : WorkerPool} {a : PoolAction}

theorem serving_init : Serving init :=
  ⟨fun _ _ h => by simp [init] at h, fun h => absurd h (Nat.lt_irrefl 0)⟩

variable (hmax : 0 < cfg.maxConcurrency) (hlim : 0 < cfg.hardLimit)
include hmax hlim

/-- A caller's `lock` section keeps a task served: it goes on to create or to notify, or it
does nothing because a worker executes or is being created. -/
theorem serving_lockCaller (hc : Counted cfg s) (h : Serving s) {c notifyType taskCount}
    (hx : s.caller c = some (.decide notifyType taskCount)) :
    Serving (s.lockSection cfg (.caller c) taskCount notifyType) := by
  obtain ⟨rfl, hn⟩ : notifyType = .taskAdded ∧ 0 < taskCount := h.added c _ hx
  have hadd := fun p' (hp : ∀ q : PokePc, p' = some q → q.added) => h.added_update (c := c) hp
  unfold lockSection
  split
  · -- nothing: a worker executes, or a creation is under way
    rename_i hskip
    refine ⟨hadd none (by simp), fun hpos => ?_⟩
    rcases hc.serves_of_executingNum (handleTaskNotify_skip hmax hlim hn hskip) with
      ⟨w, hw, hsv⟩ | ⟨c', hc'⟩
    · exact .inl ⟨w, hw, hsv⟩
    · have hne : c' ≠ c := fun he => by simp [he, hx] at hc'
      exact .inr (.inl ⟨c', .create, by simp [update_of_ne hne, hc'], rfl⟩)
  · -- a wake: a sleeper serves, or waits for this `notify_one`
    rename_i hwake
    refine ⟨hadd (some .wake) (by simp [PokePc.added]), fun _ => ?_⟩
    obtain ⟨w, hw, hsv | hun⟩ := hc.serves_of_sleepingNum (handleTaskNotify_wake hwake)
    · exact .inl ⟨w, hw, hsv⟩
    · exact .inr (.inr ⟨⟨c, by simp⟩, w, hw, hun⟩)
  · exact ⟨hadd (some .create) (by simp [PokePc.added]),
      fun _ => .inr (.inl ⟨c, .create, by simp, rfl⟩)⟩
  · rename_i hesc
    exact absurd hesc (handleTaskNotify_ne_escape hmax hlim)

/-- **Every step whose `IncWorker` succeeds keeps a queued task served.** -/
theorem serving_step (hc : Counted cfg s) (h : Serving s) (ha : a.incWorkerOk)
    (hs : s.step cfg a = some t) : Serving t := by
  cases a with
  | submit c =>
      obtain ⟨-, -, -, rfl⟩ := step_submit hs
      refine ⟨h.added_update (by simp [PokePc.added]),
        fun _ => .inr (.inl ⟨c, .read .taskAdded, by simp, rfl⟩)⟩
  | submitInTask w =>
      obtain ⟨hw, -, rfl⟩ := step_submitInTask hs
      exact Serving.of_worker h.added (hc.lt_spawned (w := w) (by simp [hw]))
        (by simp [WorkerPc.serves])
  | popTask w =>
      obtain ⟨hw, -, rfl⟩ := step_popTask hs
      have hlt : w < s.spawned := hc.lt_spawned (by simp [hw])
      split_ifs
      · exact Serving.of_worker h.added hlt (by simp [WorkerPc.serves])
      · exact Serving.of_worker h.added hlt (by simp [WorkerPc.serves])
  | runTask w =>
      obtain ⟨hw, rfl⟩ := step_runTask hs
      exact Serving.of_worker h.added (hc.lt_spawned (w := w) (by simp [hw]))
        (by simp [WorkerPc.serves])
  | intoSleep w =>
      obtain ⟨hw, -, rfl⟩ := step_intoSleep hs
      exact Serving.of_worker h.added (hc.lt_spawned (w := w) (by simp [hw]))
        (by simp [WorkerPc.serves])
  | waitFor w =>
      -- the predicate finds the task, or the queue is empty
      obtain ⟨hw, rfl⟩ := step_waitFor hs
      split_ifs with hpos
      · exact Serving.of_worker h.added (hc.lt_spawned (w := w) (by simp [hw]))
          (by simp [WorkerPc.serves])
      · exact Serving.of_empty h.added hpos
  | wakeUp w timeout =>
      obtain ⟨⟨n, hw⟩, -, rfl⟩ := step_wakeUp hs
      unfold WorkerPool.wakeUp
      split_ifs with hpos
      · exact Serving.of_worker h.added (hc.lt_spawned (w := w) (by simp [hw]))
          (by simp [WorkerPc.serves])
      all_goals exact Serving.of_empty h.added hpos
  | deepWakeUp w =>
      obtain ⟨⟨n, hw⟩, -, rfl⟩ := step_deepWakeUp hs
      split_ifs with hpos
      · exact Serving.of_worker h.added (hc.lt_spawned (w := w) (by simp [hw]))
          (by simp [WorkerPc.serves])
      · exact Serving.of_empty h.added hpos
  | getGlobalTaskCnt x =>
      obtain ⟨notifyType, hx, rfl⟩ := step_getGlobalTaskCnt hs
      cases x with
      | caller c =>
          have hadd := h.added c _ hx
          split_ifs with hpos
          · exact ⟨h.added_update (by simpa [PokePc.added] using ⟨hadd, hpos⟩),
              fun _ => .inr (.inl ⟨c, .decide notifyType s.size, by simp, rfl⟩)⟩
          · exact Serving.of_empty (h.added_update (by simp)) hpos
      | worker w =>
          have hw : s.worker w = .poke (.read notifyType) := pokeOf_worker.mp hx
          have hlt : w < s.spawned := hc.lt_spawned (by simp [hw])
          split_ifs
          · exact Serving.of_worker h.added hlt (by simp [WorkerPc.serves])
          · exact Serving.of_worker h.added hlt (by simp [WorkerPc.serves])
  | lock x =>
      obtain ⟨notifyType, taskCount, hx, rfl⟩ := step_lock hs
      cases x with
      | caller c => exact serving_lockCaller hmax hlim hc h hx
      | worker w =>
          -- a worker's poke leaves the worker running its task
          have hw : s.worker w = .poke (.decide notifyType taskCount) := pokeOf_worker.mp hx
          have hlt : w < s.spawned := hc.lt_spawned (by simp [hw])
          unfold lockSection
          split <;> exact Serving.of_worker h.added hlt (by simp [WorkerPc.serves])
  | wakeupWorkers x target =>
      cases target with
      | some w =>
          obtain ⟨hx, hlt, hun, rfl⟩ := step_wakeupWorkers_some hs
          have hsv := WorkerPc.notify_serves hun
          cases x with
          | caller c =>
              exact Serving.of_worker (h.added_update (by simp)) hlt (by simpa using hsv)
          | worker v =>
              have hv : s.worker v = .poke .wake := pokeOf_worker.mp hx
              have hne : w ≠ v := fun he => by simp [he, hv, WorkerPc.unnotified] at hun
              exact Serving.of_worker h.added hlt (by simpa [update_of_ne hne] using hsv)
      | none =>
          obtain ⟨hx, hnone, rfl⟩ := step_wakeupWorkers_none hs
          cases x with
          | caller c =>
              -- a lost `notify_one`: someone else serves, since no waiter was there
              refine ⟨h.added_update (by simp), fun hpos => ?_⟩
              rcases h.served hpos with hw | ⟨c', p, hc', hp⟩ | ⟨-, w, hw, hun⟩
              · exact .inl hw
              · have hne : c' ≠ c := by
                  rintro rfl
                  rw [show s.caller c' = some .wake from hx] at hc'
                  cases hc'
                  cases hp
                exact .inr (.inl ⟨c', p, by simp [update_of_ne hne, hc'], hp⟩)
              · simp [hnone w hw] at hun
          | worker v =>
              have hv : s.worker v = .poke .wake := pokeOf_worker.mp hx
              exact Serving.of_worker h.added (hc.lt_spawned (w := v) (by simp [hv]))
                (by simp [WorkerPc.serves])
  | incWorker x ok =>
      -- the new worker starts at the top of `WorkerLooper`
      obtain ⟨hx, rfl⟩ := step_incWorker hs
      obtain rfl : ok = true := ha
      simp only [incWorker, if_true]
      cases x with
      | caller c =>
          exact Serving.of_worker (h.added_update (by simp)) (w := s.spawned) (by simp)
            (by simp [WorkerPc.serves])
      | worker v =>
          have hv : s.worker v = .poke .create := pokeOf_worker.mp hx
          have hlt : v < s.spawned := hc.lt_spawned (by simp [hv])
          exact Serving.of_worker h.added (w := s.spawned) (by simp)
            (by simp [update_of_ne (show s.spawned ≠ v by omega), WorkerPc.serves])

end Served

/-! ### Over every run -/

section Runs

variable {cfg : PoolConfig} {s : WorkerPool}

/-- **The counters count the workers on every run.**  `executingNum` is the number of workers
between `IncWorker` or a wake-up and `IntoSleep`, with the creations under way; `sleepingNum`
the workers between `IntoSleep` and their wake-up or `WorkerDestroy`; `deepSleepingWorkerNum`
the deep sleepers.  So the workers and the creations never exceed `hardLimit` under
`HandleTaskNotifyDefault`, nor `maxConcurrency` under the other strategies.  This holds on
every interleaving, with spurious wake-ups, timeouts and failed `IncWorker`s. -/
theorem workerCounts_of_reach (h : Reach (step cfg) init s) :
    s.executingNum = below s.spawned s.worker WorkerPc.executing + s.creations cfg ∧
      s.sleepingNum = below s.spawned s.worker WorkerPc.sleeping ∧
      s.deepSleepingWorkerNum = below s.spawned s.worker WorkerPc.deep ∧
      s.sleepingNum + s.executingNum ≤ workerLimit cfg := by
  have hc : Counted cfg s := Invariant.reach (fun _ _ _ h hs => counted_step h hs) counted_init h
  exact ⟨hc.executing, hc.sleeping, hc.deep, hc.bounded⟩

/-- A caller creates the first worker, which runs its task and sleeps; a second caller's
task then finds it asleep and notifies it.  The queue holds that task, one worker is counted
as sleeping and none as executing. -/
theorem workerCounts_of_reach_notified :
    ∃ s, Reach (step ⟨2, 2, .default, false, 2⟩) init s ∧ 0 < s.size ∧ s.spawned = 1 ∧
      s.sleepingNum = 1 ∧ s.executingNum = 0 ∧
      (s.executingNum = below s.spawned s.worker WorkerPc.executing +
          s.creations ⟨2, 2, .default, false, 2⟩ ∧
        s.sleepingNum = below s.spawned s.worker WorkerPc.sleeping ∧
        s.deepSleepingWorkerNum = below s.spawned s.worker WorkerPc.deep ∧
        s.sleepingNum + s.executingNum ≤ workerLimit ⟨2, 2, .default, false, 2⟩) := by
  have hrun : holdsAfter (step ⟨2, 2, .default, false, 2⟩) init
      [.submit 0, .getGlobalTaskCnt (.caller 0), .lock (.caller 0),
        .incWorker (.caller 0) true, .popTask 0, .getGlobalTaskCnt (.worker 0), .runTask 0,
        .popTask 0, .intoSleep 0, .waitFor 0, .submit 1, .getGlobalTaskCnt (.caller 1),
        .lock (.caller 1), .wakeupWorkers (.caller 1) (some 0)]
      (fun s : WorkerPool => 0 < s.size ∧ s.spawned = 1 ∧ s.sleepingNum = 1 ∧
        s.executingNum = 0 ∧ s.worker 0 = .waiting true ∧
        ∀ c : Nat, c < 2 → s.caller c = none) = true := by
    decide +kernel
  obtain ⟨s, hreach, hsize, hsp, hsl, hex, -, -⟩ := exists_of_holdsAfter _ hrun
  exact ⟨s, hreach, hsize, hsp, hsl, hex, workerCounts_of_reach hreach⟩

/-- **No task is stranded.**  On every run whose `IncWorker`s succeed, with spurious
wake-ups and timeouts, under each strategy, the queue never holds a task while every worker
waits with no `notify_one` on its way or has left and no caller is in a poke: the wake-up that
a `PushTask` needs is never lost. -/
theorem noStrandedTask_of_leads (hmax : 0 < cfg.maxConcurrency) (hlim : 0 < cfg.hardLimit)
    (h : Leads (step cfg) PoolAction.incWorkerOk init s) : ¬ Stranded cfg s := by
  have hstep : ∀ s a t, a.incWorkerOk → Counted cfg s ∧ Serving s →
      s.step cfg a = some t → Counted cfg t ∧ Serving t := fun _ _ _ ha hi hs =>
    ⟨counted_step hi.1 hs, serving_step hmax hlim hi.1 hi.2 ha hs⟩
  obtain ⟨hc, hserv⟩ := Leads.invariant hstep ⟨counted_init, serving_init⟩ h
  exact hserv.not_stranded hc

/-- The same run: a task is queued, no caller is in a poke and the only worker is asleep, and
the `notify_one` it received is what keeps the task from being stranded. -/
theorem noStrandedTask_of_leads_notified :
    0 < (⟨2, 2, .default, false, 2⟩ : PoolConfig).maxConcurrency ∧
      0 < (⟨2, 2, .default, false, 2⟩ : PoolConfig).hardLimit ∧
      ∃ s, Leads (step ⟨2, 2, .default, false, 2⟩) PoolAction.incWorkerOk init s ∧
        0 < s.size ∧ s.worker 0 = .waiting true ∧ (∀ c < 2, s.caller c = none) ∧
        ¬ Stranded ⟨2, 2, .default, false, 2⟩ s := by
  have hrun : holdsAfter (step ⟨2, 2, .default, false, 2⟩) init
      [.submit 0, .getGlobalTaskCnt (.caller 0), .lock (.caller 0),
        .incWorker (.caller 0) true, .popTask 0, .getGlobalTaskCnt (.worker 0), .runTask 0,
        .popTask 0, .intoSleep 0, .waitFor 0, .submit 1, .getGlobalTaskCnt (.caller 1),
        .lock (.caller 1), .wakeupWorkers (.caller 1) (some 0)]
      (fun s : WorkerPool => 0 < s.size ∧ s.spawned = 1 ∧ s.sleepingNum = 1 ∧
        s.executingNum = 0 ∧ s.worker 0 = .waiting true ∧
        ∀ c : Nat, c < 2 → s.caller c = none) = true := by
    decide +kernel
  obtain ⟨s, hleads, hsize, -, -, -, hw, hc⟩ :=
    Leads.exists_of_holdsAfter PoolAction.incWorkerOk _ (by simp [PoolAction.incWorkerOk]) hrun
  exact ⟨by decide, by decide, s, hleads, hsize, hw, hc,
    noStrandedTask_of_leads (by decide) (by decide) hleads⟩

end Runs

end WorkerPool

end Ffrt.Eu
