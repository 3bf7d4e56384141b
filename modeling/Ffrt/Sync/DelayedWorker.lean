import Ffrt.Support.Multimap
import Ffrt.Support.Machine

/-!
# Sync — Delayed worker

`DelayedWorker` (`src/sync/delayed_worker.cpp`): the map from time point to `DelayedWork`
(`WaitEntry*` and callback) that `dispatch` fills and `remove` takes from, and the worker thread
that calls `HandleWork` under `lock`.  `HandleWork` samples `startTp`, and while the first entry
is due at `startTp`, `HandleWorkImpl` erases it, drops the lock, runs its callback, takes the
lock again and samples `startTp` anew.

The callers of `dispatch` and `remove` take `lock`, so they run while the worker waits in
`epoll_wait` or runs a callback, never inside `HandleWork`'s loop.  A dispatch is named by a
ghost `id`, so that entries with one time point and one `WaitEntry*` stay apart.

* `DelayedWorker`, `step`: the map, where the worker is, the clock, and ghost records of the
  dispatches, of the entries a `remove` took, and of the callbacks `HandleWorkImpl` claimed.
* `WorkerInv`: every dispatched entry is in the map, or was taken by one `remove`, or was
  claimed by the worker, exactly one of them; no callback before its time point.
* `drains`, `resolves`: the worker, with time passing, empties the map, so every dispatched
  entry is resolved.
-/

namespace Ffrt.Sync

/-- A `DelayedWork` of the map: its `WaitEntry*`, and the ghost name of the `dispatch` that put
it there.  The callback itself is not modelled. -/
structure Work where
  we : Nat
  id : Nat
  deriving DecidableEq, Repr

/-- A callback that `HandleWorkImpl` claimed: the entry's name and time point, and the
`startTp` it was found due at. -/
structure Fired where
  id : Nat
  time : Nat
  startTp : Nat
  deriving DecidableEq, Repr

/-- Where the worker thread is. -/
inductive WorkerPc
  /-- In `epoll_wait`, without the lock. -/
  | idle
  /-- In `HandleWork`'s loop with the lock, `startTp` sampled. -/
  | pass (startTp : Nat)
  /-- In `HandleWorkImpl`, running the callback of the entry it erased, without the lock. -/
  | callback (w : Work) (startTp : Nat)
  deriving DecidableEq, Repr

namespace WorkerPc

/-- The worker does not hold `lock`. -/
def lockFree : WorkerPc → Bool
  | .pass _ => false
  | _ => true

/-- The `startTp` the worker holds, `0` in `epoll_wait`. -/
def startTp : WorkerPc → Nat
  | .idle => 0
  | .pass tp => tp
  | .callback _ tp => tp

end WorkerPc

/-- The delayed worker, its clock, and the ghost records. -/
structure DelayedWorker where
  map : List (Nat × Work)
  pc : WorkerPc
  now : Nat
  nextId : Nat
  /-- The names of the dispatches that returned `true`. -/
  dispatched : List Nat
  /-- The names of the entries a `remove` took, answering `true`. -/
  removed : List Nat
  /-- The callbacks `HandleWorkImpl` claimed. -/
  fired : List Fired

inductive DelayedAction
  /-- `dispatch(to, we, wakeup, skipTimeCheck)`. -/
  | dispatch (time we : Nat) (skipTimeCheck : Bool)
  /-- `remove(to, we)`. -/
  | remove (time we : Nat)
  /-- The worker's loop calls `HandleWork`. -/
  | handle
  /-- One turn of `HandleWork`'s loop. -/
  | handleOne
  /-- The callback returns to `HandleWorkImpl`. -/
  | callbackDone
  | tick

namespace DelayedAction

/-- The worker's own steps, and time passing. -/
def byWorker : DelayedAction → Bool
  | .handle | .handleOne | .callbackDone | .tick => true
  | _ => false

end DelayedAction

namespace DelayedWorker

def init : DelayedWorker := ⟨[], .idle, 0, 0, [], [], []⟩

/-- `dispatch`: refused for a time point not after `now` unless `skipTimeCheck`; else the entry
goes into the map after the entries of its time point. -/
def dispatch (s : DelayedWorker) (time we : Nat) (skipTimeCheck : Bool) : DelayedWorker × Bool :=
  if !skipTimeCheck && decide (time ≤ s.now) then (s, false)
  else
    ({ s with map := Multimap.insert time ⟨we, s.nextId⟩ s.map, nextId := s.nextId + 1,
              dispatched := s.dispatched ++ [s.nextId] }, true)

/-- The entry `remove(to, we)` looks for: the first of `equal_range(to)` whose `we` is `we`. -/
def findEntry (m : List (Nat × Work)) (time we : Nat) : Option (Nat × Work) :=
  m.find? fun e => e.1 == time && e.2.we == we

/-- `remove`: the entry found is erased and `true` returned; else `false`. -/
def remove (s : DelayedWorker) (time we : Nat) : DelayedWorker × Bool :=
  match findEntry s.map time we with
  | some e => ({ s with map := s.map.erase e, removed := s.removed ++ [e.2.id] }, true)
  | none => (s, false)

/-- `HandleWork` is called: on an empty map it returns at once, else it samples `startTp`. -/
def handle (s : DelayedWorker) : DelayedWorker :=
  if s.map = [] then s else { s with pc := .pass s.now }

/-- One turn of the loop: the first entry, due at `startTp`, is erased and its callback claimed;
else `HandleWork` returns. -/
def handleOne (s : DelayedWorker) (startTp : Nat) : DelayedWorker :=
  match s.map with
  | e :: rest =>
      if e.1 ≤ startTp then
        { s with map := rest, pc := .callback e.2 startTp,
                 fired := s.fired ++ [⟨e.2.id, e.1, startTp⟩] }
      else { s with pc := .idle }
  | [] => { s with pc := .idle }

/-- The callback returned: the lock is taken again, and `startTp` is the time now. -/
def callbackDone (s : DelayedWorker) : DelayedWorker := { s with pc := .pass s.now }

def step (s : DelayedWorker) : DelayedAction → Option DelayedWorker
  | .dispatch time we skip => if s.pc.lockFree then some (s.dispatch time we skip).1 else none
  | .remove time we => if s.pc.lockFree then some (s.remove time we).1 else none
  | .handle => if s.pc = .idle then some s.handle else none
  | .handleOne =>
      match s.pc with
      | .pass tp => some (s.handleOne tp)
      | _ => none
  | .callbackDone =>
      match s.pc with
      | .callback _ _ => some s.callbackDone
      | _ => none
  | .tick => some { s with now := s.now + 1 }

/-- The names of the entries in the map. -/
def mapIds (s : DelayedWorker) : List Nat := s.map.map fun e => e.2.id

/-- The names of the claimed callbacks. -/
def firedIds (s : DelayedWorker) : List Nat := s.fired.map Fired.id

/-! ### What each call does -/

/-- **`remove` answers `true` exactly when an entry of `time` with `we` is in the map.** -/
theorem remove_true_iff (s : DelayedWorker) (time we : Nat) :
    (s.remove time we).2 = true ↔ ∃ e ∈ s.map, e.1 = time ∧ e.2.we = we := by
  unfold remove
  split
  · rename_i e he
    have hp := List.find?_some he
    simp only [Bool.and_eq_true, beq_iff_eq] at hp
    exact ⟨fun _ => ⟨e, List.mem_of_find?_eq_some he, hp⟩, fun _ => rfl⟩
  · rename_i he
    simp only [Bool.false_eq_true, false_iff, not_exists, not_and]
    intro e hm hto hwe
    have := List.find?_eq_none.mp he e hm
    simp [hto, hwe] at this

theorem dispatch_cases (s : DelayedWorker) (time we : Nat) (skip : Bool) :
    (s.dispatch time we skip = (s, false)) ∨
      (s.dispatch time we skip =
        ({ s with map := Multimap.insert time ⟨we, s.nextId⟩ s.map, nextId := s.nextId + 1,
                  dispatched := s.dispatched ++ [s.nextId] }, true)) := by
  unfold dispatch
  split
  · exact .inl rfl
  · exact .inr rfl

theorem remove_cases (s : DelayedWorker) (time we : Nat) :
    (s.remove time we = (s, false)) ∨
      ∃ e ∈ s.map, s.remove time we =
        ({ s with map := s.map.erase e, removed := s.removed ++ [e.2.id] }, true) := by
  unfold remove
  split
  · rename_i e he
    exact .inr ⟨e, List.mem_of_find?_eq_some he, rfl⟩
  · exact .inl rfl

theorem handleOne_cases (s : DelayedWorker) (tp : Nat) :
    (s.handleOne tp = { s with pc := .idle }) ∨
      ∃ e rest, s.map = e :: rest ∧ e.1 ≤ tp ∧
        s.handleOne tp = { s with map := rest, pc := .callback e.2 tp,
                                  fired := s.fired ++ [⟨e.2.id, e.1, tp⟩] } := by
  unfold handleOne
  split
  · rename_i e rest hm
    split
    · exact .inr ⟨e, rest, hm, by assumption, rfl⟩
    · exact .inl rfl
  · exact .inl rfl

/-- **Everything one step can do.** -/
theorem step_cases {s s' : DelayedWorker} {a : DelayedAction} (h : s.step a = some s') :
    s' = s ∨
    (s.pc.lockFree = true ∧ ∃ time we, s' = { s with
      map := Multimap.insert time ⟨we, s.nextId⟩ s.map, nextId := s.nextId + 1,
      dispatched := s.dispatched ++ [s.nextId] }) ∨
    (s.pc.lockFree = true ∧ ∃ e ∈ s.map,
      s' = { s with map := s.map.erase e, removed := s.removed ++ [e.2.id] }) ∨
    (s.pc = .idle ∧ s' = { s with pc := .pass s.now }) ∨
    (∃ tp, s.pc = .pass tp ∧ s' = { s with pc := .idle }) ∨
    (∃ tp e rest, s.pc = .pass tp ∧ s.map = e :: rest ∧ e.1 ≤ tp ∧
      s' = { s with
        map := rest, pc := .callback e.2 tp, fired := s.fired ++ [⟨e.2.id, e.1, tp⟩] }) ∨
    (∃ w tp, s.pc = .callback w tp ∧ s' = { s with pc := .pass s.now }) ∨
    s' = { s with now := s.now + 1 } := by
  cases a with
  | dispatch time we skip =>
      simp only [step] at h
      split at h
      · cases h
        rcases dispatch_cases s time we skip with he | he <;> rw [he]
        · exact .inl rfl
        · exact .inr (.inl ⟨by assumption, time, we, rfl⟩)
      · cases h
  | remove time we =>
      simp only [step] at h
      split at h
      · cases h
        rcases remove_cases s time we with he | ⟨e, hm, he⟩ <;> rw [he]
        · exact .inl rfl
        · exact .inr (.inr (.inl ⟨by assumption, e, hm, rfl⟩))
      · cases h
  | handle =>
      simp only [step] at h
      split at h
      · cases h
        unfold handle
        split
        · exact .inl rfl
        · exact .inr (.inr (.inr (.inl ⟨by assumption, rfl⟩)))
      · cases h
  | handleOne =>
      simp only [step] at h
      split at h
      · rename_i tp hpc
        cases h
        rcases handleOne_cases s tp with he | ⟨e, rest, hm, hle, he⟩ <;> rw [he]
        · exact .inr (.inr (.inr (.inr (.inl ⟨tp, hpc, rfl⟩))))
        · exact .inr (.inr (.inr (.inr (.inr (.inl ⟨tp, e, rest, hpc, hm, hle, rfl⟩)))))
      · cases h
  | callbackDone =>
      simp only [step] at h
      split at h
      · rename_i w tp hpc
        cases h
        exact .inr (.inr (.inr (.inr (.inr (.inr (.inl ⟨w, tp, hpc, rfl⟩))))))
      · cases h
  | tick =>
      cases h
      exact .inr (.inr (.inr (.inr (.inr (.inr (.inr rfl))))))

/-! ### Each entry resolved once, none early -/

/-- The invariant: the names of the entries in the map, the entries removed and the callbacks
claimed are the dispatches, each once; no callback was claimed before its time point, and no
`startTp` is ahead of the clock. -/
structure WorkerInv (s : DelayedWorker) : Prop where
  resolved : (s.mapIds ++ s.removed ++ s.firedIds).Perm s.dispatched
  fresh : ∀ i ∈ s.dispatched, i < s.nextId
  nodup : s.dispatched.Nodup
  on_time : ∀ f ∈ s.fired, f.time ≤ f.startTp ∧ f.startTp ≤ s.now
  sampled : s.pc.startTp ≤ s.now

theorem workerInv_init : WorkerInv init :=
  ⟨List.Perm.nil, by simp [init], List.nodup_nil, by simp [init], le_refl _⟩

/-- A dispatch adds a fresh name to the map and to the dispatches. -/
theorem resolved_dispatch {s : DelayedWorker} (hI : WorkerInv s) (time we : Nat) :
    ((Multimap.insert time ⟨we, s.nextId⟩ s.map).map (fun e => e.2.id) ++ s.removed ++
      s.firedIds).Perm (s.dispatched ++ [s.nextId]) := by
  have hins := (Multimap.perm_insert time (⟨we, s.nextId⟩ : Work) s.map).map fun e => e.2.id
  rw [List.perm_iff_count] at hins ⊢
  intro i
  have h₁ := hins i
  have h₂ := hI.resolved.count_eq i
  simp only [mapIds, List.map_cons, List.count_append, List.count_cons, List.count_nil] at h₁ h₂ ⊢
  omega

/-- A `remove` moves the name of the entry it erases from the map to the removed ones. -/
theorem resolved_remove {s : DelayedWorker} (hI : WorkerInv s) {e : Nat × Work} (he : e ∈ s.map) :
    ((s.map.erase e).map (fun e => e.2.id) ++ (s.removed ++ [e.2.id]) ++ s.firedIds).Perm
      s.dispatched := by
  have hcons := (List.perm_cons_erase he).map fun e : Nat × Work => e.2.id
  rw [List.perm_iff_count] at hcons ⊢
  intro i
  have h₁ := hcons i
  have h₂ := hI.resolved.count_eq i
  simp only [mapIds, List.map_cons, List.count_append, List.count_cons, List.count_nil] at h₁ h₂ ⊢
  omega

/-- A claimed callback moves the name of the first entry from the map to the claimed ones. -/
theorem resolved_claim {s : DelayedWorker} (hI : WorkerInv s) {e : Nat × Work} {rest : List (Nat × Work)}
    (hm : s.map = e :: rest) (tp : Nat) :
    (rest.map (fun e => e.2.id) ++ s.removed ++
      (s.fired ++ [(⟨e.2.id, e.1, tp⟩ : Fired)]).map Fired.id).Perm
      s.dispatched := by
  have h₂ := hI.resolved
  rw [List.perm_iff_count] at h₂ ⊢
  intro i
  have := h₂ i
  simp only [mapIds, firedIds, hm, List.map_cons, List.map_append, List.count_append,
    List.count_cons, List.count_nil, List.map_nil] at this ⊢
  omega

theorem workerInv_step {s s' : DelayedWorker} {a : DelayedAction} (hI : WorkerInv s)
    (h : s.step a = some s') : WorkerInv s' := by
  rcases step_cases h with rfl | ⟨_, time, we, rfl⟩ | ⟨_, e, he, rfl⟩ | ⟨hpc, rfl⟩ |
      ⟨tp, hpc, rfl⟩ | ⟨tp, e, rest, hpc, hm, hle, rfl⟩ | ⟨w, tp, hpc, rfl⟩ | rfl
  · exact hI
  · -- dispatch: a fresh name, in the map
    refine ⟨resolved_dispatch hI time we, fun i hi => ?_, ?_, hI.on_time, hI.sampled⟩
    · rcases List.mem_append.mp hi with hi | hi
      · exact Nat.lt_succ_of_lt (hI.fresh i hi)
      · rw [List.mem_singleton.mp hi]
        exact Nat.lt_succ_self _
    · exact List.nodup_append.mpr ⟨hI.nodup, List.nodup_singleton _,
        fun i hi j hj hij => by rw [List.mem_singleton.mp hj] at hij; exact absurd (hij ▸ hI.fresh i hi) (lt_irrefl _)⟩
  · exact ⟨resolved_remove hI he, hI.fresh, hI.nodup, hI.on_time, hI.sampled⟩
  · exact ⟨hI.resolved, hI.fresh, hI.nodup, hI.on_time, le_refl _⟩
  · exact ⟨hI.resolved, hI.fresh, hI.nodup, hI.on_time, Nat.zero_le _⟩
  · -- a claim: due at `startTp`, which is not ahead of the clock
    have htp : tp ≤ s.now := by
      have := hI.sampled
      rw [hpc] at this
      exact this
    refine ⟨resolved_claim hI hm tp, hI.fresh, hI.nodup, fun f hf => ?_, htp⟩
    rcases List.mem_append.mp hf with hf | hf
    · exact hI.on_time f hf
    · rw [List.mem_singleton.mp hf]
      exact ⟨hle, htp⟩
  · exact ⟨hI.resolved, hI.fresh, hI.nodup, hI.on_time, le_refl _⟩
  · -- time passes: every sampled time is further behind
    refine ⟨hI.resolved, hI.fresh, hI.nodup, fun f hf => ?_, Nat.le_succ_of_le hI.sampled⟩
    exact ⟨(hI.on_time f hf).1, Nat.le_succ_of_le (hI.on_time f hf).2⟩

theorem workerInv_of_reach {s : DelayedWorker} (h : Machine.Reach step init s) : WorkerInv s :=
  Machine.Invariant.reach (fun _ _ _ hI hs => workerInv_step hI hs) workerInv_init h

/-! ### The worker resolves every entry -/

/-- `t` is reached from `s` by the worker and time passing. -/
abbrev WorkerLeads (s t : DelayedWorker) : Prop :=
  Machine.Leads step (fun a => a.byWorker = true) s t

theorem ticks_leads (s : DelayedWorker) (n : Nat) : WorkerLeads s { s with now := s.now + n } := by
  induction n generalizing s with
  | zero => exact Machine.Leads.refl s
  | succ n ih =>
      have h := ih { s with now := s.now + 1 }
      rw [show s.now + 1 + n = s.now + (n + 1) by omega] at h
      exact Machine.Leads.head (a := .tick) rfl rfl h

/-- **The loop runs the map dry.**  In `HandleWork`'s loop with every entry due at `startTp`,
the worker claims the first entry, runs its callback and samples `startTp` again, until the map
is empty. -/
theorem drain_pass (s : DelayedWorker) {tp : Nat} (hpc : s.pc = .pass tp) (htp : tp ≤ s.now)
    (hdue : ∀ e ∈ s.map, e.1 ≤ tp) : ∃ t, WorkerLeads s t ∧ t.map = [] := by
  -- on the entries left: each turn claims one
  induction hn : s.map generalizing s tp with
  | nil => exact ⟨s, Machine.Leads.refl s, hn⟩
  | cons e rest ih =>
      have hle : e.1 ≤ tp := hdue e (by rw [hn]; exact List.mem_cons_self)
      let s₁ : DelayedWorker := { s with
        map := rest, pc := .callback e.2 tp, fired := s.fired ++ [⟨e.2.id, e.1, tp⟩] }
      have h₁ : s.step .handleOne = some s₁ := by
        simp only [step, hpc, handleOne, hn, hle, if_true, s₁]
      have h₂ : s₁.step .callbackDone = some { s₁ with pc := .pass s.now } := rfl
      obtain ⟨t, hl, ht⟩ := ih { s₁ with pc := .pass s.now } rfl (le_refl _)
        (fun f hf => le_trans (hdue f (by rw [hn]; exact List.mem_cons_of_mem e hf)) htp) rfl
      exact ⟨t, Machine.Leads.head rfl h₁ (Machine.Leads.head rfl h₂ hl), ht⟩

/-- From anywhere, once every entry is due, the worker gets into the loop with `startTp` the
time now, or finds the map empty. -/
theorem to_pass (s : DelayedWorker) (hdue : ∀ e ∈ s.map, e.1 ≤ s.now) :
    ∃ t, WorkerLeads s t ∧ (t.map = [] ∨ (t.pc = .pass t.now ∧ ∀ e ∈ t.map, e.1 ≤ t.now)) := by
  -- `HandleWork` from `epoll_wait`
  have from_idle : ∀ u : DelayedWorker, u.pc = .idle → (∀ e ∈ u.map, e.1 ≤ u.now) →
      ∃ t, WorkerLeads u t ∧ (t.map = [] ∨ (t.pc = .pass t.now ∧ ∀ e ∈ t.map, e.1 ≤ t.now)) := by
    intro u hu hdu
    by_cases hm : u.map = []
    · exact ⟨u, Machine.Leads.refl u, .inl hm⟩
    · refine ⟨{ u with pc := .pass u.now }, Machine.Leads.single (a := .handle) rfl ?_,
        .inr ⟨rfl, hdu⟩⟩
      simp [step, hu, handle, hm]
  match hpc : s.pc with
  | .idle => exact from_idle s hpc hdue
  | .callback w tp =>
      exact ⟨{ s with pc := .pass s.now },
        Machine.Leads.single (a := .callbackDone) rfl (by simp [step, hpc, callbackDone]),
        .inr ⟨rfl, hdue⟩⟩
  | .pass tp =>
      rcases handleOne_cases s tp with he | ⟨e, rest, hm, hle, he⟩
      · -- `HandleWork` returned; the worker calls it again
        obtain ⟨t, hl, ht⟩ := from_idle { s with pc := .idle } rfl hdue
        exact ⟨t, Machine.Leads.head (a := .handleOne) rfl (by simp [step, hpc, he]) hl, ht⟩
      · -- the first entry is claimed, and the callback returns
        let s₁ : DelayedWorker := { s with
          map := rest, pc := .callback e.2 tp, fired := s.fired ++ [⟨e.2.id, e.1, tp⟩] }
        refine ⟨{ s₁ with pc := .pass s.now },
          Machine.Leads.head (a := .handleOne) (t := s₁) rfl (by simp [step, hpc, he, s₁])
            (Machine.Leads.single (a := .callbackDone) rfl rfl),
          .inr ⟨rfl, fun f hf => hdue f (by rw [hm]; exact List.mem_cons_of_mem e hf)⟩⟩

/-- **The worker empties the map.**  With time passing until every entry is due, the worker
claims the callbacks of all the entries in the map. -/
theorem drains (s : DelayedWorker) : ∃ t, WorkerLeads s t ∧ t.map = [] := by
  let K := (s.map.map Prod.fst).sum
  have hdue : ∀ e ∈ s.map, e.1 ≤ s.now + K := fun e he =>
    le_trans (List.le_sum_of_mem (List.mem_map_of_mem he)) (Nat.le_add_left _ _)
  obtain ⟨u, hl₁, hu⟩ := to_pass { s with now := s.now + K } hdue
  rcases hu with hu | ⟨hpc, hdu⟩
  · exact ⟨u, (ticks_leads s K).trans hl₁, hu⟩
  · obtain ⟨t, hl₂, ht⟩ := drain_pass u hpc (le_refl _) hdu
    exact ⟨t, (ticks_leads s K).trans (hl₁.trans hl₂), ht⟩

/-- A dispatch, once made, stays on record. -/
theorem dispatched_step {s s' : DelayedWorker} {a : DelayedAction} {i : Nat}
    (hi : i ∈ s.dispatched) (h : s.step a = some s') : i ∈ s'.dispatched := by
  rcases step_cases h with rfl | ⟨_, time, we, rfl⟩ | ⟨_, e, he, rfl⟩ | ⟨hpc, rfl⟩ |
      ⟨tp, hpc, rfl⟩ | ⟨tp, e, rest, hpc, hm, hle, rfl⟩ | ⟨w, tp, hpc, rfl⟩ | rfl
  all_goals first | exact hi | exact List.mem_append_left _ hi

/-- **Every dispatched entry is resolved.**  From a reachable state, the worker and time
passing lead to a state where the entry was taken by a `remove` or its callback was claimed. -/
theorem resolves {s : DelayedWorker} (h : Machine.Reach step init s) {i : Nat}
    (hi : i ∈ s.dispatched) : ∃ t, WorkerLeads s t ∧ (i ∈ t.removed ∨ i ∈ t.firedIds) := by
  obtain ⟨t, hl, ht⟩ := drains s
  have hI := workerInv_of_reach (h.trans hl.reach)
  have hit : i ∈ t.dispatched :=
    Machine.Leads.invariant (P := fun u => i ∈ u.dispatched)
      (fun _ _ _ _ hu hs => dispatched_step hu hs) hi hl
  -- the map is empty, so the name is among the removed or the claimed
  have hmem := hI.resolved.symm.subset hit
  simp only [mapIds, ht, List.map_nil, List.nil_append, List.mem_append] at hmem
  exact ⟨t, hl, hmem⟩

/-- **`DelayedWorker` resolves every dispatched entry exactly once, and never early.**  In every
reachable state: the entries in the map, those a `remove` took and the callbacks claimed are
the dispatches, each exactly once; the worker, with time passing, resolves every one; `remove`
answers `true` exactly when an entry of its time point and `WaitEntry*` is in the map; and every
callback was claimed at a sampled `startTp`, not before the entry's time point. -/
theorem dispatched_resolved_once {s : DelayedWorker} (h : Machine.Reach step init s) :
    (s.mapIds ++ s.removed ++ s.firedIds).Perm s.dispatched ∧ s.dispatched.Nodup ∧
      (∀ i ∈ s.dispatched, ∃ t, WorkerLeads s t ∧ (i ∈ t.removed ∨ i ∈ t.firedIds)) ∧
      (∀ time we, (s.remove time we).2 = true ↔ ∃ e ∈ s.map, e.1 = time ∧ e.2.we = we) ∧
      ∀ f ∈ s.fired, f.time ≤ f.startTp ∧ f.startTp ≤ s.now := by
  have hI := workerInv_of_reach h
  exact ⟨hI.resolved, hI.nodup, fun i hi => resolves h hi, remove_true_iff s, hI.on_time⟩

/-- After one dispatch at time point `5`. -/
theorem dispatched_resolved_once_one :
    let s := (init.dispatch 5 7 false).1
    (s.mapIds ++ s.removed ++ s.firedIds).Perm s.dispatched ∧ s.dispatched.Nodup ∧
      (∀ i ∈ s.dispatched, ∃ t, WorkerLeads s t ∧ (i ∈ t.removed ∨ i ∈ t.firedIds)) ∧
      (∀ time we, (s.remove time we).2 = true ↔ ∃ e ∈ s.map, e.1 = time ∧ e.2.we = we) ∧
      ∀ f ∈ s.fired, f.time ≤ f.startTp ∧ f.startTp ≤ s.now :=
  dispatched_resolved_once (Machine.Reach.one (.dispatch 5 7 false) rfl)

end DelayedWorker

end Ffrt.Sync
