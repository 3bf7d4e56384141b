import Ffrt.Queue.Concurrent

/-!
# Queue — Concurrent protocol

How a concurrent queue counts its chains, and what `WaitAll` does, over every interleaving of
submissions, chains, `WaitAll` calls, cancellations and the clock.

* `Counted`: `concurrency_` is the number of live chains and within `maxConcurrency_`, which is
  at least one, and a filed task has a chain to run it.  `Counted.concurrent` and `Counted.file`
  are the two answers of `PushAndCalConcurrency`; `foldl_repushOne` is `WaitAll`'s loop.
* `CountInv` and `Accounted`, kept by every step.  `Accounted` says that every task `Push` took
  is in exactly one place: run, in a chain, in a map or in `waitingMap_`, or cancelled.
* `returnsAfterZero_fails`: `WaitAll` does not always return after the count reached zero; a
  second call returns `1` at once, as `ffrt_concurrent_queue_wait_all` documents.
* `ConcurrentProtocol`, `concurrentProtocol_of_reach`: the count, its bounds, no stranded task,
  a `WaitAll` that returns `0` saw the count at zero, a diverted task waits for a pending
  `WaitAll`, which pushes each one again once, and no task is lost or counted twice.
-/

namespace Ffrt.Queue

/-! ### Sums over a list of chains -/

section ListSum

variable {α M : Type*} [AddCommMonoid M] (f : α → M)

theorem sum_map_set {l : List α} {i : Nat} {a : α} (h : l[i]? = some a) (b : α) :
    ((l.set i b).map f).sum + f a = (l.map f).sum + f b := by
  induction l generalizing i with
  | nil => simp at h
  | cons x l ih =>
      cases i with
      | zero =>
          simp only [List.getElem?_cons_zero, Option.some.injEq] at h
          subst h
          simp only [List.set_cons_zero, List.map_cons, List.sum_cons]
          abel
      | succ i =>
          simp only [List.getElem?_cons_succ] at h
          simp only [List.set_cons_succ, List.map_cons, List.sum_cons]
          rw [add_assoc, ih h, ← add_assoc]

theorem sum_map_eraseIdx {l : List α} {i : Nat} {a : α} (h : l[i]? = some a) :
    ((l.eraseIdx i).map f).sum + f a = (l.map f).sum := by
  induction l generalizing i with
  | nil => simp at h
  | cons x l ih =>
      cases i with
      | zero =>
          simp only [List.getElem?_cons_zero, Option.some.injEq] at h
          subst h
          simp only [List.eraseIdx_cons_zero, List.map_cons, List.sum_cons]
          abel
      | succ i =>
          simp only [List.getElem?_cons_succ] at h
          simp only [List.eraseIdx_cons_succ, List.map_cons, List.sum_cons]
          rw [add_assoc, ih h]

end ListSum

/-- The tasks the chains hold. -/
def chainTasks (cs : List CChain) : Multiset QueueTask :=
  (cs.map fun c => (↑c.tasks : Multiset QueueTask)).sum

@[simp] theorem chainTasks_append_singleton (cs : List CChain) (c : CChain) :
    chainTasks (cs ++ [c]) = chainTasks cs + ↑c.tasks := by
  simp [chainTasks]

/-- A chain that moves on changes the chains' tasks by its own. -/
theorem chainTasks_set {cs : List CChain} {i : Nat} {c : CChain} (h : cs[i]? = some c)
    (c' : CChain) : chainTasks (cs.set i c') + ↑c.tasks = chainTasks cs + ↑c'.tasks :=
  sum_map_set _ h c'

theorem chainTasks_eraseIdx {cs : List CChain} {i : Nat} {c : CChain} (h : cs[i]? = some c) :
    chainTasks (cs.eraseIdx i) + ↑c.tasks = chainTasks cs :=
  sum_map_eraseIdx _ h

/-! ### The count -/

/-- `concurrency_` counts the live chains, within a limit of at least one, and a filed task has
a chain. -/
structure Counted (q : ConcurrentQueue) (cs : List CChain) : Prop where
  count : q.concurrency = cs.length
  le_max : q.concurrency ≤ q.maxConcurrency
  max_pos : 1 ≤ q.maxConcurrency
  stranded : (∃ p, q.whenMapVec p ≠ []) → 1 ≤ q.concurrency

namespace Counted

variable {q : ConcurrentQueue} {cs : List CChain}

/-- `Counted` reads only the count, the limit and the maps. -/
theorem of_eq {q' : ConcurrentQueue} (h : Counted q cs) (hc : q'.concurrency = q.concurrency)
    (hm : q'.maxConcurrency = q.maxConcurrency) (hv : q'.whenMapVec = q.whenMapVec) :
    Counted q' cs :=
  ⟨hc ▸ h.count, hc ▸ hm ▸ h.le_max, hm ▸ h.max_pos, hc ▸ hv ▸ h.stranded⟩

theorem nonneg (h : Counted q cs) : 0 ≤ q.concurrency := by
  rw [h.count]
  exact Int.natCast_nonneg _

/-- `CONCURRENT`: one more chain, below the limit. -/
theorem concurrent (h : Counted q cs) (hlt : q.concurrency < q.maxConcurrency)
    (v : Fin 4 → WhenMap) (c : CChain) :
    Counted { q with concurrency := q.concurrency + 1, whenMapVec := v } (cs ++ [c]) :=
  ⟨by simp [h.count], hlt, h.max_pos, fun _ => by have := h.nonneg; dsimp only; omega⟩

/-- At the limit the task is filed, and the chains that are there will run it. -/
theorem file (h : Counted q cs) (hle : q.maxConcurrency ≤ q.concurrency) (v : Fin 4 → WhenMap) :
    Counted { q with whenMapVec := v } cs :=
  ⟨h.count, h.le_max, h.max_pos, fun _ => le_trans h.max_pos hle⟩

end Counted

namespace Concurrent

variable (qc : ConcurrentQueue × List CChain) (t : QueueTask) (ts : List QueueTask)

/-- A re-push leaves `waitingMap_` and the flags as they are. -/
theorem repushOne_frame :
    (repushOne qc t).1.waitingMap = qc.1.waitingMap ∧ (repushOne qc t).1.isExit = qc.1.isExit ∧
      (repushOne qc t).1.waitingAll = qc.1.waitingAll := by
  rcases qc.1.pushAndCalConcurrency_cases t with ⟨-, hp⟩ | ⟨-, hp⟩ <;> simp [repushOne, hp]

/-- A re-pushed task goes to the maps or to a new chain. -/
theorem repushOne_values :
    Multimap.values (repushOne qc t).1.whenMapVec + chainTasks (repushOne qc t).2 =
      Multimap.values qc.1.whenMapVec + chainTasks qc.2 + {t} := by
  rcases qc.1.pushAndCalConcurrency_cases t with ⟨-, hp⟩ | ⟨-, hp⟩
  · simp only [repushOne, hp]
    -- a task with no delay is the chain's; a delayed one is filed for the init task
    by_cases hd : t.delay = 0
    · have hnd : ¬ t.delay > 0 := by omega
      simp only [if_neg hnd, if_pos hd, chainTasks_append_singleton, CChain.tasks,
        Multiset.coe_singleton]
      abel
    · have hpos : t.delay > 0 := Nat.pos_of_ne_zero hd
      simp only [if_pos hpos, if_neg hd, chainTasks_append_singleton, CChain.tasks,
        ConcurrentQueue.values_fileTask, Multiset.coe_nil, add_zero]
      abel
  · simp only [repushOne, hp, ConcurrentQueue.values_fileTask]
    abel

/-- A re-push keeps the count. -/
theorem repushOne_counted (h : Counted qc.1 qc.2) :
    Counted (repushOne qc t).1 (repushOne qc t).2 := by
  rcases qc.1.pushAndCalConcurrency_cases t with ⟨hlt, hp⟩ | ⟨hle, hp⟩ <;> simp only [repushOne, hp]
  · exact h.concurrent hlt _ _
  · exact h.file hle _

theorem foldl_repushOne_frame :
    (ts.foldl repushOne qc).1.waitingMap = qc.1.waitingMap ∧
      (ts.foldl repushOne qc).1.isExit = qc.1.isExit ∧
      (ts.foldl repushOne qc).1.waitingAll = qc.1.waitingAll := by
  induction ts generalizing qc with
  | nil => exact ⟨rfl, rfl, rfl⟩
  | cons t ts ih =>
      obtain ⟨h₁, h₂, h₃⟩ := repushOne_frame qc t
      obtain ⟨k₁, k₂, k₃⟩ := ih (repushOne qc t)
      exact ⟨k₁.trans h₁, k₂.trans h₂, k₃.trans h₃⟩

/-- **`WaitAll`'s loop puts each task in the maps or in a new chain once.** -/
theorem foldl_repushOne_values :
    Multimap.values (ts.foldl repushOne qc).1.whenMapVec + chainTasks (ts.foldl repushOne qc).2 =
      Multimap.values qc.1.whenMapVec + chainTasks qc.2 + ↑ts := by
  induction ts generalizing qc with
  | nil => simp
  | cons t ts ih =>
      rw [List.foldl_cons, ih, repushOne_values, ← Multiset.cons_coe, ← Multiset.singleton_add]
      abel

theorem foldl_repushOne_counted (h : Counted qc.1 qc.2) :
    Counted (ts.foldl repushOne qc).1 (ts.foldl repushOne qc).2 := by
  induction ts generalizing qc with
  | nil => exact h
  | cons t ts ih => exact ih _ (repushOne_counted qc t h)

/-! ### The invariants -/

/-- The count, the exit, and `WaitAll`'s flag agree with the chains, the maps and the waiters;
a `WaitAll` that returned `0` saw the count at zero. -/
structure CountInv (s : Concurrent) : Prop where
  counted : Counted s.queue s.chains
  exit : s.queue.isExit = true → (∀ p, s.queue.whenMapVec p = []) ∧ s.queue.waitingMap = []
  waiting : s.queue.waitingMap ≠ [] → s.queue.waitingAll = true
  waiters : s.queue.waitingAll = true ↔ s.waiters ≠ []
  one_waiter : s.waiters.length ≤ 1
  results : ∀ r ∈ s.waitResults, r.1 = 0 → r.2 = 0

theorem countInv_init (name : String) (qos m : Int) : CountInv (init name qos m) := by
  have hmax : (1 : Int) ≤ if m ≤ 0 then 1 else m := by split <;> omega
  refine ⟨⟨rfl, ?_, hmax, ?_⟩, ?_, ?_, ?_, ?_, ?_⟩
  · show (0 : Int) ≤ if m ≤ 0 then 1 else m
    omega
  · rintro ⟨p, hp⟩
    exact absurd rfl hp
  · intro h
    simp [init, ConcurrentQueue.create] at h
  · intro h
    exact absurd rfl h
  · simp [init, ConcurrentQueue.create]
  · simp [init]
  · simp [init]

/-- The waiter is the only one. -/
theorem CountInv.waiters_eq {s : Concurrent} (hI : CountInv s) {th : Nat} (h : th ∈ s.waiters) :
    s.waiters = [th] := by
  have hle := hI.one_waiter
  rcases hws : s.waiters with _ | ⟨w, _ | ⟨w', rest⟩⟩
  · rw [hws] at h
    cases h
  · rw [hws] at h
    rw [List.mem_singleton.mp h]
  · rw [hws] at hle
    simp at hle

/-- **The count invariant is kept by every step.** -/
theorem countInv_step {s s' : Concurrent} {a : ConcurrentAction} (hI : CountInv s)
    (h : s.step a = some s') : CountInv s' := by
  rcases step_cases h with ⟨th, attr, rfl⟩ | ⟨i, c, c', hc, -, -, rfl⟩ | ⟨i, t, hc, rfl⟩ |
    ⟨i, q, hc, hp, rfl⟩ | ⟨i, q, t, hc, hp, rfl⟩ | ⟨th, rfl⟩ | ⟨th, hw, h0, rfl⟩ |
    ⟨q, hq, rfl⟩ | rfl
  · -- submit, by what `Push` answered
    rcases submit_cases s th attr with ⟨-, he⟩ | ⟨hx, hw, he⟩ | ⟨hx, hw, hlt, he⟩ |
      ⟨hx, hw, hle, he⟩ <;> rw [he]
    · exact ⟨hI.counted, hI.exit, hI.waiting, hI.waiters, hI.one_waiter, hI.results⟩
    · exact ⟨hI.counted.of_eq rfl rfl rfl, fun h => by simp [hx] at h, fun _ => hw, hI.waiters,
        hI.one_waiter, hI.results⟩
    · exact ⟨hI.counted.concurrent hlt _ _, fun h => by simp [hx] at h, hI.waiting, hI.waiters,
        hI.one_waiter, hI.results⟩
    · exact ⟨hI.counted.file hle _, fun h => by simp [hx] at h, hI.waiting, hI.waiters,
        hI.one_waiter, hI.results⟩
  · -- a chain moves on: as many chains as before
    refine ⟨⟨by simp [hI.counted.count], hI.counted.le_max, hI.counted.max_pos,
      hI.counted.stranded⟩, hI.exit, hI.waiting, hI.waiters, hI.one_waiter, hI.results⟩
  · refine ⟨⟨by simp [hI.counted.count], hI.counted.le_max, hI.counted.max_pos,
      hI.counted.stranded⟩, hI.exit, hI.waiting, hI.waiters, hI.one_waiter, hI.results⟩
  · -- `Pull` ends the chain: the maps are empty and the count goes down with it
    have hlen : i < s.chains.length := (List.getElem?_eq_some_iff.mp hc).1
    rcases ConcurrentQueue.pull_cases s.queue hp with ⟨hm, rfl, -⟩ | ⟨hx, ⟨p, hp'⟩, -, -⟩ |
      ⟨p, e, rest, -, -, hr, -⟩
    · refine ⟨⟨?_, ?_, hI.counted.max_pos, fun ⟨p, hp'⟩ => absurd (hm p) hp'⟩, hI.exit,
        hI.waiting, hI.waiters, hI.one_waiter, hI.results⟩
      · simp only [List.length_eraseIdx_of_lt hlen, hI.counted.count]
        omega
      · have := hI.counted.le_max
        dsimp only
        omega
    · exact absurd ((hI.exit hx).1 p) hp'
    · cases hr
  · -- `Pull` hands the chain the next task
    rcases ConcurrentQueue.pull_cases s.queue hp with ⟨-, -, hr⟩ | ⟨-, -, -, hr⟩ |
      ⟨p, e, rest, hx, -, -, rfl⟩
    · cases hr
    · cases hr
    · have hlen : 0 < s.chains.length :=
        lt_of_le_of_lt (Nat.zero_le _) (List.getElem?_eq_some_iff.mp hc).1
      refine ⟨⟨by simp [hI.counted.count], hI.counted.le_max, hI.counted.max_pos,
        fun _ => by rw [hI.counted.count]; omega⟩, fun h => by simp [hx] at h, hI.waiting,
        hI.waiters, hI.one_waiter, hI.results⟩
  · -- `WaitAll` answers at once, or starts waiting as the only waiter
    unfold waitAll
    split
    · exact ⟨hI.counted, hI.exit, hI.waiting, hI.waiters, hI.one_waiter,
        fun r hr h0 => by simp at hr; rcases hr with hr | rfl; exact hI.results r hr h0; cases h0⟩
    · split
      · exact ⟨hI.counted, hI.exit, hI.waiting, hI.waiters, hI.one_waiter,
          fun r hr h0 => by simp at hr; rcases hr with hr | rfl; exact hI.results r hr h0; cases h0⟩
      · rename_i hx hwa
        have h₀ : s.waiters = [] := by
          by_contra hne
          exact hwa (hI.waiters.mpr hne)
        exact ⟨hI.counted.of_eq rfl rfl rfl, fun h => absurd h hx, fun _ => rfl, by simp,
          by simp [h₀], hI.results⟩
  · -- the wake-up pushes every waiting task again and clears the flag
    have k₁ := foldl_repushOne_counted (s.queue, s.chains) (s.queue.waitingMap.map Prod.snd)
      hI.counted
    obtain ⟨-, k₄, -⟩ := foldl_repushOne_frame (s.queue, s.chains) (s.queue.waitingMap.map Prod.snd)
    have hws := hI.waiters_eq hw
    unfold wake
    refine ⟨k₁.of_eq rfl rfl rfl, fun hx => ?_, fun h => absurd rfl h, by simp [hws],
      by simp [hws], ?_⟩
    · -- on exit nothing waited, so the loop ran over nothing
      have hx' : s.queue.isExit = true := by
        rw [← k₄]
        exact hx
      obtain ⟨hm, hwm⟩ := hI.exit hx'
      refine ⟨fun p => ?_, rfl⟩
      simp only [hwm, List.map_nil, List.foldl_nil]
      exact hm p
    · intro r hr hr0
      simp only [List.mem_append, List.mem_singleton] at hr
      rcases hr with hr | rfl
      · exact hI.results r hr hr0
      · exact h0
  · -- a removal keeps the count and the flags, and only empties the maps
    refine ⟨⟨hq.concurrency ▸ hI.counted.count, hq.concurrency ▸ hq.maxConcurrency ▸
      hI.counted.le_max, hq.maxConcurrency ▸ hI.counted.max_pos, fun ⟨p, hp⟩ => ?_⟩,
      fun hx => ?_, fun hne => ?_, hq.waitingAll ▸ hI.waiters, hI.one_waiter, hI.results⟩
    · rw [show (cancelWith s q).queue = q from rfl, hq.concurrency]
      refine hI.counted.stranded ⟨p, fun h0 => hp ?_⟩
      exact List.eq_nil_of_sublist_nil (h0 ▸ hq.maps p)
    · rcases hq.exit hx with hx | hclear
      · obtain ⟨hm, hwm⟩ := hI.exit hx
        exact ⟨fun p => List.eq_nil_of_sublist_nil (hm p ▸ hq.maps p),
          List.eq_nil_of_sublist_nil (hwm ▸ hq.waiting)⟩
      · exact hclear
    · rw [show (cancelWith s q).queue = q from rfl, hq.waitingAll]
      exact hI.waiting fun h0 => hne (List.eq_nil_of_sublist_nil (h0 ▸ hq.waiting))
  · exact ⟨hI.counted, hI.exit, hI.waiting, hI.waiters, hI.one_waiter, hI.results⟩

/-! ### No task lost or counted twice -/

/-- Every task `Push` took is in exactly one place: run, in a chain, in the queue, or
cancelled. -/
def Accounted (s : Concurrent) : Prop :=
  (↑s.accepted : Multiset QueueTask) = ↑s.executed + chainTasks s.chains + s.queue.tasks + s.cancelled

theorem accounted_init (name : String) (qos m : Int) : Accounted (init name qos m) := by
  simp [Accounted, init, chainTasks, ConcurrentQueue.tasks, ConcurrentQueue.create,
    Multimap.values]

/-- **The accounting is kept by every step.**  A new task goes to one place, a step moves one
task from one place to the next, `WaitAll` moves every waiting task once, and a removal records
what it took. -/
theorem accounted_step {s s' : Concurrent} {a : ConcurrentAction} (hA : Accounted s)
    (h : s.step a = some s') : Accounted s' := by
  unfold Accounted at hA ⊢
  rcases step_cases h with ⟨th, attr, rfl⟩ | ⟨i, c, c', hc, ht, -, rfl⟩ | ⟨i, t, hc, rfl⟩ |
    ⟨i, q, hc, hp, rfl⟩ | ⟨i, q, t, hc, hp, rfl⟩ | ⟨th, rfl⟩ | ⟨th, hw, h0, rfl⟩ |
    ⟨q, hq, rfl⟩ | rfl
  · rcases submit_cases s th attr with ⟨-, he⟩ | ⟨-, -, he⟩ | ⟨-, -, -, he⟩ | ⟨-, -, -, he⟩ <;>
      rw [he] <;> set t := clampPrio (newTask s.name s.qos s.nextGid s.now attr)
    · exact hA
    · -- diverted into `waitingMap_`
      simp only [ConcurrentQueue.tasks, Multimap.map_snd_insert, ← Multiset.coe_add,
        Multiset.coe_singleton] at hA ⊢
      rw [hA]
      abel
    · -- a new chain: the task is its own, or filed for its init task
      by_cases hd : t.delay = 0
      · have hnd : ¬ t.delay > 0 := by omega
        simp only [if_neg hnd, if_pos hd, chainTasks_append_singleton, CChain.tasks,
          ← Multiset.coe_add, Multiset.coe_singleton] at hA ⊢
        rw [hA]
        simp only [ConcurrentQueue.tasks]
        abel
      · have hpos : t.delay > 0 := Nat.pos_of_ne_zero hd
        simp only [if_pos hpos, if_neg hd, chainTasks_append_singleton, CChain.tasks,
          ← Multiset.coe_add, Multiset.coe_singleton, Multiset.coe_nil, add_zero] at hA ⊢
        rw [hA]
        simp only [ConcurrentQueue.tasks, ConcurrentQueue.values_fileTask]
        abel
    · simp only [← Multiset.coe_add, Multiset.coe_singleton] at hA ⊢
      rw [hA]
      simp only [ConcurrentQueue.tasks, ConcurrentQueue.values_fileTask]
      abel
  · -- the chain holds the same task
    have hs := chainTasks_set hc c'
    rw [ht] at hs
    rw [add_right_cancel hs]
    exact hA
  · -- the chain's task has run
    have hs := chainTasks_set hc .deliver
    simp only [CChain.tasks, Multiset.coe_nil, add_zero, Multiset.coe_singleton] at hs
    change _ = ↑(s.executed ++ [t]) + chainTasks (s.chains.set i .deliver) + _ + _
    rw [hA, ← Multiset.coe_add, Multiset.coe_singleton, ← hs]
    abel
  · -- the chain ends: it held nothing, and the queue keeps its tasks
    have hs := chainTasks_eraseIdx hc
    simp only [CChain.tasks, Multiset.coe_nil, add_zero] at hs
    have hq : q.tasks = s.queue.tasks := by
      rcases ConcurrentQueue.pull_cases s.queue hp with ⟨-, rfl, -⟩ | ⟨-, -, rfl, -⟩ |
        ⟨_, _, _, -, -, hr, -⟩
      · rfl
      · rfl
      · cases hr
    change _ = _ + chainTasks (s.chains.eraseIdx i) + q.tasks + _
    rw [hA, hq, hs]
  · -- the head of a map goes to the chain
    rcases ConcurrentQueue.pull_cases s.queue hp with ⟨-, -, hr⟩ | ⟨-, -, -, hr⟩ |
      ⟨p, e, rest, -, hv, hr, rfl⟩
    · cases hr
    · cases hr
    · cases hr
      have hs := chainTasks_set hc (.ready e.2)
      simp only [CChain.tasks, Multiset.coe_nil, add_zero, Multiset.coe_singleton] at hs
      -- the map loses its head `e`, which is what the chain gained
      have hm := Multimap.values_update s.queue.whenMapVec p rest
      rw [hv, List.map_cons, ← Multiset.cons_coe, ← Multiset.singleton_add, ← add_assoc] at hm
      have hm' := add_right_cancel hm
      change _ = _ + chainTasks (s.chains.set i (.ready e.2)) + _ + _
      rw [hA, hs]
      simp only [ConcurrentQueue.tasks]
      rw [← hm']
      abel
  · unfold waitAll
    split
    · exact hA
    · split
      · exact hA
      · exact hA
  · -- the wake-up moves every waiting task into the maps or a new chain
    have k := foldl_repushOne_values (s.queue, s.chains) (s.queue.waitingMap.map Prod.snd)
    unfold wake
    simp only [ConcurrentQueue.tasks, List.map_nil, Multiset.coe_nil, add_zero] at hA ⊢
    rw [hA]
    calc ↑s.executed + chainTasks s.chains +
          (Multimap.values s.queue.whenMapVec + ↑(s.queue.waitingMap.map Prod.snd)) + s.cancelled
        = ↑s.executed + (Multimap.values s.queue.whenMapVec + chainTasks s.chains +
            ↑(s.queue.waitingMap.map Prod.snd)) + s.cancelled := by abel
      _ = _ := by rw [← k]; abel
  · -- a removal records what it took
    obtain ⟨d, hd⟩ := Multiset.le_iff_exists_add.mp hq.tasks_le
    simp only [cancelWith]
    rw [hA, hd, add_tsub_cancel_left]
    abel
  · exact hA

/-! ### `WaitAll` -/

/-- Every `WaitAll` that returned saw `concurrency_` at zero. -/
def ReturnsAfterZero (s : Concurrent) : Prop :=
  ∀ r ∈ s.waitResults, r.2 = 0

instance : DecidablePred ReturnsAfterZero := fun s =>
  inferInstanceAs (Decidable (∀ r ∈ s.waitResults, r.2 = 0))

/-- A second `WaitAll`, called while the first waits on a running chain, returns `1` at once. -/
theorem returnsAfterZero_fails :
    ¬ ∀ s, Machine.Reach step (init "q" 2 1) s → ReturnsAfterZero s :=
  Machine.not_always_of_failsAfter [.submit 1 plainAttr, .waitAll 7, .waitAll 8] (by decide +kernel)

/-- The wake-up of `WaitAll` is its loop over `waitingMap_`. -/
theorem step_waitAllWake {s s' : Concurrent} {th : Nat} (h : s.step (.waitAllWake th) = some s') :
    s' = s.wake th := by
  simp only [step] at h
  split at h
  · exact (Option.some.inj h).symm
  · cases h

/-! ### The protocol -/

/-- What the concurrent queue keeps over every interleaving. -/
structure ConcurrentProtocol (s : Concurrent) : Prop where
  /-- `concurrency_` is the number of live chains. -/
  count : s.queue.concurrency = s.chains.length
  bounded : 0 ≤ s.queue.concurrency ∧ s.queue.concurrency ≤ s.queue.maxConcurrency
  /-- A task in a map has a chain to run it. -/
  not_stranded : (∃ p, s.queue.whenMapVec p ≠ []) → 1 ≤ s.queue.concurrency
  /-- A `WaitAll` that returned `0` saw the count at zero. -/
  wait_zero : ∀ r ∈ s.waitResults, r.1 = 0 → r.2 = 0
  /-- A task waits in `waitingMap_` only while a `WaitAll` waits. -/
  diverted : s.queue.waitingMap ≠ [] → s.queue.waitingAll = true ∧ s.waiters ≠ []
  /-- No task is lost or held twice. -/
  accounted : Accounted s
  /-- The wake-up pushes every waiting task once, and none waits after it. -/
  repushed : ∀ th s', s.step (.waitAllWake th) = some s' → s'.queue.waitingMap = [] ∧
    Multimap.values s'.queue.whenMapVec + chainTasks s'.chains =
      Multimap.values s.queue.whenMapVec + chainTasks s.chains +
        ↑(s.queue.waitingMap.map Prod.snd)

theorem concurrentInv_step :
    Machine.Invariant step (fun s => CountInv s ∧ Accounted s) :=
  Machine.Invariant.and (fun _ _ _ hI h => countInv_step hI h)
    (fun _ _ _ hA h => accounted_step hA h)

/-- **The concurrent queue's protocol holds in every reachable state.** -/
theorem concurrentProtocol_of_reach {name : String} {qos m : Int} {s : Concurrent}
    (h : Machine.Reach step (init name qos m) s) : ConcurrentProtocol s := by
  obtain ⟨hI, hA⟩ := concurrentInv_step.reach ⟨countInv_init name qos m, accounted_init name qos m⟩ h
  refine ⟨hI.counted.count, ⟨hI.counted.nonneg, hI.counted.le_max⟩, hI.counted.stranded,
    hI.results, fun hne => ?_, hA, fun th s' hs => ?_⟩
  · have hw := hI.waiting hne
    exact ⟨hw, hI.waiters.mp hw⟩
  · rw [step_waitAllWake hs]
    exact ⟨rfl, foldl_repushOne_values (s.queue, s.chains) (s.queue.waitingMap.map Prod.snd)⟩

theorem concurrentProtocol_waiting :
    Machine.Reach step (init "q" 2 1)
        ((((init "q" 2 1).submit 1 plainAttr).waitAll 7).submit 2 plainAttr) ∧
      ConcurrentProtocol ((((init "q" 2 1).submit 1 plainAttr).waitAll 7).submit 2 plainAttr) :=
  have h : Machine.Reach step (init "q" 2 1)
      ((((init "q" 2 1).submit 1 plainAttr).waitAll 7).submit 2 plainAttr) :=
    .next (.submit 2 plainAttr) (.next (.waitAll 7) (.next (.submit 1 plainAttr) .init rfl) rfl) rfl
  ⟨h, concurrentProtocol_of_reach h⟩

end Concurrent

end Ffrt.Queue
