import Ffrt.Queue.Adapter

/-!
# Queue — Starvation

`QueueStrategy::DequeSingleAgainstStarvation` (`src/queue/queue_strategy.h`), the `dequeFunc_`
of an `EventHandlerAdapterQueue`, with the `pulledTaskCount_` vector that it and `Push` keep,
over every sequence of `Push` calls, `Pull` calls and time passing.  Its comment promises that
"a low-priority task is dequeued every time five high-priority tasks are dequeued".

* `headDue`, `dueMaps`, `pickMap`: the test of the second loop, the maps below idle that pass
  it, and the map a call takes from.
* `dequeSingle_takes_head`, `pickMap_first_due`: a call takes the head of one map, the least key
  of that map when it is sorted, and no map above it and below idle has a due head and fewer
  than five pulls in a row; `dequeSingle_spec` puts them together.
* `Dequeuer`, `step`: the queue under `Push` of new tasks and `Pull`, the clock, and a ghost log
  of the maps each `Pull` took from and the maps that were due then.  `sortedMaps_of_reach`: the
  maps stay sorted by key, as a `std::multimap` keeps them, so `dequeSingle_spec` applies to the
  call of every reachable state.
* `againstStarvation_fails`: once two maps have each had five pulls in a row and the maps
  between are empty, the fallback to the earliest key takes from the higher map again and again
  while the lower one has a due head.
-/

namespace Ffrt.Queue

namespace AdapterQueue

/-- The head of the map is due at `now`: the test of the second loop. -/
def headDue (now : Nat) (m : WhenMap) : Bool :=
  match m.head? with
  | some e => decide (e.1 < now)
  | none => false

/-- The maps below idle whose head is due. -/
def dueMaps (now : Nat) (v : Fin 5 → WhenMap) : List (Fin 5) :=
  (List.finRange 5).filter fun j => decide (j.val < innerQueuePriorityIdle) && headDue now (v j)

/-- The map a call of `DequeSingleAgainstStarvation` takes from: `iterIndex` after both loops. -/
def pickMap (now : Nat) (v : Fin 5 → WhenMap) (cnt : Fin 5 → Nat) : Fin 5 :=
  (dueMap? now v cnt).getD (earliestMap v)

theorem dueMap?_eq (now : Nat) (v : Fin 5 → WhenMap) (cnt : Fin 5 → Nat) :
    dueMap? now v cnt =
      ((List.finRange 4).find? fun idx =>
        decide (cnt idx.castSucc < maxPullTaskCount) && headDue now (v idx.castSucc)).map
        Fin.castSucc := rfl

/-- **A call takes the head of the map it picks**, counts one more pull of that map and
restarts the runs of the maps above it. -/
theorem dequeSingle_takes_head {now : Nat} {v v' : Fin 5 → WhenMap} {cnt cnt' : Fin 5 → Nat}
    {t : QueueTask} (h : dequeSingleAgainstStarvation now v cnt = some (t, v', cnt')) :
    ∃ k rest, v (pickMap now v cnt) = (k, t) :: rest ∧
      v' = Function.update v (pickMap now v cnt) rest ∧
      cnt' = fun j => if j = pickMap now v cnt then cnt j + 1
        else if j < pickMap now v cnt then 0 else cnt j := by
  have hp : (dueMap? now v cnt).getD (earliestMap v) = pickMap now v cnt := rfl
  unfold dequeSingleAgainstStarvation at h
  simp only [hp] at h
  -- the map it picks is empty, or has a head
  cases hv : v (pickMap now v cnt) with
  | nil =>
      rw [hv] at h
      cases h
  | cons e rest =>
      rw [hv] at h
      cases h
      exact ⟨e.1, rest, rfl, rfl, rfl⟩

/-- **No map below idle with a due head and room in its run is passed over** for a map after
it. -/
theorem pickMap_first_due (now : Nat) (v : Fin 5 → WhenMap) (cnt : Fin 5 → Nat) {j : Fin 5}
    (hj : j < pickMap now v cnt) (hidle : j.val < innerQueuePriorityIdle)
    (hc : cnt j < maxPullTaskCount) : headDue now (v j) = false := by
  let ok := fun idx : Fin 4 =>
    decide (cnt idx.castSucc < maxPullTaskCount) && headDue now (v idx.castSucc)
  -- `j` is `castSucc` of an index of the second loop
  have hjc : (⟨j.val, hidle⟩ : Fin 4).castSucc = j := rfl
  suffices ok ⟨j.val, hidle⟩ = false by
    simpa [ok, hjc, hc] using this
  unfold pickMap at hj
  rw [dueMap?_eq] at hj
  cases hf : (List.finRange 4).find? ok with
  | none =>
      -- the loop found nothing: no index passes
      exact Bool.eq_false_iff.mpr (List.find?_eq_none.mp hf _ (List.mem_finRange _))
  | some q =>
      -- the loop stopped at `q`, and every index before it failed
      obtain ⟨-, i, hi, hq, hbefore⟩ := List.find?_eq_some_iff_getElem.mp hf
      have hji : j.val < i := by
        have hlt : j < q.castSucc := by
          change j < ((List.finRange 4).find? ok |>.map Fin.castSucc).getD (earliestMap v) at hj
          rw [hf] at hj
          exact hj
        rw [← hq, List.getElem_finRange] at hlt
        exact hlt
      have := hbefore j.val hji
      rw [List.getElem_finRange] at this
      simpa using this

/-- Every map is sorted by key. -/
def SortedMaps (v : Fin 5 → WhenMap) : Prop := ∀ p, Multimap.Sorted (v p)

instance (v : Fin 5 → WhenMap) : Decidable (SortedMaps v) :=
  inferInstanceAs (Decidable (∀ p, (v p).Pairwise fun e f => e.1 ≤ f.1))

theorem sortedMaps_empty : SortedMaps fun _ => [] := fun _ => List.Pairwise.nil

theorem SortedMaps.fileTask {v : Fin 5 → WhenMap} (h : SortedMaps v) (t : QueueTask) :
    SortedMaps (fileTask v t) := by
  intro p
  unfold AdapterQueue.fileTask
  by_cases hp : p = slot t
  · subst hp
    rw [Function.update_self]
    split
    · -- key `0` goes before every key
      exact List.pairwise_cons.mpr ⟨fun f _ => Nat.zero_le f.1, h _⟩
    · exact Multimap.sorted_insert _ _ (h _)
  · rw [Function.update_of_ne hp]
    exact h p

theorem SortedMaps.update_tail {v : Fin 5 → WhenMap} (h : SortedMaps v) {p : Fin 5}
    {e : Nat × QueueTask} {rest : WhenMap} (hp : v p = e :: rest) :
    SortedMaps (Function.update v p rest) := by
  intro j
  by_cases hj : j = p
  · subst hj
    rw [Function.update_self]
    exact (h j).sublist (hp ▸ List.sublist_cons_self e rest)
  · rw [Function.update_of_ne hj]
    exact h j

theorem SortedMaps.push {q : AdapterQueue} (h : SortedMaps q.whenMapVec) (t : QueueTask) :
    SortedMaps (q.push t).1.whenMapVec := by
  rcases push_cases q t with ⟨-, hp⟩ | ⟨-, -, hp⟩ | ⟨-, -, hp⟩ <;> rw [hp]
  · exact h
  · exact h
  · exact h.fileTask t

end AdapterQueue

/-! ### Sequences of calls -/

/-- A call of `DequeSingleAgainstStarvation` in the log: the map it took from, and the maps
below idle whose head was due when it was called. -/
structure Dequeue where
  map : Fin 5
  due : List (Fin 5)
  deriving DecidableEq, Repr

/-- An adapter queue under `Push` and `Pull`, with the clock, the next task id and the log of
the calls of the strategy. -/
structure Dequeuer where
  queue : AdapterQueue
  now : Nat
  nextGid : Nat
  log : List Dequeue

inductive DequeuerAction
  /-- `Push` of a new task with the given attributes. -/
  | push (attr : TaskAttr)
  /-- `Pull`. -/
  | pull
  | tick

namespace Dequeuer

def init : Dequeuer := ⟨AdapterQueue.create, 0, 1, []⟩

/-- One step.  `Push` takes only a priority the attribute API admits; a `Pull` that takes a
task logs the call of the strategy. -/
def step (s : Dequeuer) : DequeuerAction → Option Dequeuer
  | .push attr =>
      if Admitted attr then
        some { s with queue := (s.queue.push (newTask "h" 2 s.nextGid s.now attr)).1,
                      nextGid := s.nextGid + 1 }
      else none
  | .pull =>
      (s.queue.pull s.now).map fun (q, r) =>
        match r with
        | some _ =>
            { s with queue := q,
                     log := s.log ++ [⟨AdapterQueue.pickMap s.now s.queue.whenMapVec
                       s.queue.pulledTaskCount, AdapterQueue.dueMaps s.now s.queue.whenMapVec⟩] }
        | none => { s with queue := q }
  | .tick => some { s with now := s.now + 1 }

/-- The maps stay sorted: `Push` files in order, `Pull` takes a head. -/
theorem sortedMaps_step {s s' : Dequeuer} {a : DequeuerAction}
    (hs : AdapterQueue.SortedMaps s.queue.whenMapVec) (h : s.step a = some s') :
    AdapterQueue.SortedMaps s'.queue.whenMapVec := by
  cases a with
  | push attr =>
      simp only [step] at h
      split at h
      · cases h
        exact hs.push _
      · cases h
  | pull =>
      simp only [step] at h
      obtain ⟨⟨q, r⟩, hp, rfl⟩ := Option.map_eq_some_iff.mp h
      have hq : AdapterQueue.SortedMaps q.whenMapVec := by
        rcases AdapterQueue.pull_cases _ hp with ⟨-, rfl, -⟩ | ⟨-, rfl, -⟩ |
            ⟨-, p, e, rest, cnt, hm, -, rfl⟩
        · exact hs
        · exact hs
        · exact hs.update_tail hm
      cases r <;> exact hq
  | tick =>
      cases h
      exact hs

theorem sortedMaps_of_reach {s : Dequeuer} (h : Machine.Reach step init s) :
    AdapterQueue.SortedMaps s.queue.whenMapVec :=
  Machine.Invariant.reach (P := fun s => AdapterQueue.SortedMaps s.queue.whenMapVec)
    (fun _ _ _ hs h => sortedMaps_step hs h) AdapterQueue.sortedMaps_empty h

end Dequeuer

namespace AdapterQueue

/-- **What one call does**, on sorted maps: it takes the head of the map it picks, whose key
is the least of that map, and takes nothing else; it passes over no map below idle with a due
head and fewer than five pulls in a row. -/
theorem dequeSingle_spec {now : Nat} {v v' : Fin 5 → WhenMap} {cnt cnt' : Fin 5 → Nat}
    {t : QueueTask} (hs : SortedMaps v)
    (h : dequeSingleAgainstStarvation now v cnt = some (t, v', cnt')) :
    ∃ k rest, v (pickMap now v cnt) = (k, t) :: rest ∧ (∀ e ∈ rest, k ≤ e.1) ∧
      v' = Function.update v (pickMap now v cnt) rest ∧
      ∀ j < pickMap now v cnt, j.val < innerQueuePriorityIdle → cnt j < maxPullTaskCount →
        headDue now (v j) = false := by
  obtain ⟨k, rest, hp, hv, -⟩ := dequeSingle_takes_head h
  have hmin : ∀ e ∈ rest, k ≤ e.1 := by
    have := hs (pickMap now v cnt)
    rw [hp] at this
    exact (List.pairwise_cons.mp this).1
  exact ⟨k, rest, hp, hmin, hv, fun j hj hidle hc => pickMap_first_due now v cnt hj hidle hc⟩

/-- A call in a reachable state, at time `2`: map `0`'s head is not yet due, map `1` has a due
head but five pulls in a row, and map `2` has two due entries.  The call passes over maps `0`
and `1` and takes the head of map `2`. -/
theorem dequeSingle_spec_skips :
    ∃ s : Dequeuer, Machine.Reach Dequeuer.step Dequeuer.init s ∧
      let v := s.queue.whenMapVec
      let cnt := s.queue.pulledTaskCount
      v 0 ≠ [] ∧ headDue s.now (v 0) = false ∧ headDue s.now (v 1) = true ∧
        cnt 1 = maxPullTaskCount ∧ (v 2).length = 2 ∧ pickMap s.now v cnt = 2 ∧
        ∃ t v' cnt', dequeSingleAgainstStarvation s.now v cnt = some (t, v', cnt') ∧
          ∃ k rest, v (pickMap s.now v cnt) = (k, t) :: rest ∧ (∀ e ∈ rest, k ≤ e.1) ∧
            v' = Function.update v (pickMap s.now v cnt) rest ∧
            ∀ j < pickMap s.now v cnt, j.val < innerQueuePriorityIdle →
              cnt j < maxPullTaskCount → headDue s.now (v j) = false := by
  -- five pulls in a row from map `1`, then two tasks for map `2`, and one for map `0` that is
  -- filed after the last tick
  have hrun : Machine.holdsAfter Dequeuer.step Dequeuer.init
      (List.replicate 6 (.push (setQueuePriority plainAttr 1)) ++ [.tick] ++
        List.replicate 4 .pull ++ List.replicate 2 (.push (setQueuePriority plainAttr 2)) ++
        [.tick, .push (setQueuePriority plainAttr 0)])
      (fun s : Dequeuer => s.queue.whenMapVec 0 ≠ [] ∧
        headDue s.now (s.queue.whenMapVec 0) = false ∧
        headDue s.now (s.queue.whenMapVec 1) = true ∧
        s.queue.pulledTaskCount 1 = maxPullTaskCount ∧ (s.queue.whenMapVec 2).length = 2 ∧
        pickMap s.now s.queue.whenMapVec s.queue.pulledTaskCount = 2 ∧
        (dequeSingleAgainstStarvation s.now s.queue.whenMapVec
          s.queue.pulledTaskCount).isSome) = true := by
    decide +kernel
  obtain ⟨s, hs, h0, hd0, hd1, hc, hl, hp, hsome⟩ := Machine.exists_of_holdsAfter _ hrun
  obtain ⟨⟨t, v', cnt'⟩, hd⟩ := Option.isSome_iff_exists.mp hsome
  exact ⟨s, hs, h0, hd0, hd1, hc, hl, hp, t, v', cnt', hd,
    dequeSingle_spec (Dequeuer.sortedMaps_of_reach hs) hd⟩

end AdapterQueue

namespace Dequeuer

/-- Six calls in a row take from one map while one map after it and below idle has a due head
at each of them. -/
def StarvedRun (w : List Dequeue) : Prop :=
  w.length = maxPullTaskCount + 1 ∧
    ∃ p j : Fin 5, p < j ∧ j.val < innerQueuePriorityIdle ∧ ∀ d ∈ w, d.map = p ∧ j ∈ d.due

instance (w : List Dequeue) : Decidable (StarvedRun w) :=
  inferInstanceAs (Decidable (_ ∧ _))

/-- The comment's promise: no map is taken from more than five times in a row while a map
after it and below idle has a due head. -/
def AgainstStarvation (s : Dequeuer) : Prop :=
  ∀ i ≤ s.log.length, ¬ StarvedRun ((s.log.drop i).take (maxPullTaskCount + 1))

instance : DecidablePred AgainstStarvation := fun s =>
  inferInstanceAs (Decidable (∀ i ≤ s.log.length, _))

/-- Five tasks of priority `1` and, after they are due, four pulls: with the count `Push` gave
the first task, map `1` has had five pulls in a row.  Then six tasks of priority `0` inserted at
the head, under key `0`: the first five pulls take them by the second loop, and the sixth finds
both maps at five and maps `2` and `3` empty, and falls back to the earliest key, the head of
map `0` again, while map `1` has a due head. -/
theorem againstStarvation_fails : ¬ ∀ s, Machine.Reach step init s → AgainstStarvation s :=
  Machine.not_always_of_failsAfter
    (List.replicate 6 (.push (setQueuePriority plainAttr 1)) ++ [.tick] ++
      List.replicate 4 .pull ++
      List.replicate 6 (.push { setQueuePriority plainAttr 0 with insertHead := true }) ++
      List.replicate 6 .pull)
    (by decide +kernel)

end Dequeuer

end Ffrt.Queue
