import Ffrt.Queue.Serial

/-!
# Queue — Serial protocol

What a serial queue promises the threads that submit to it, over every interleaving of their
submissions, its dispatch chain, the cancelling calls and the clock, while it is not exiting.

* `SerialInv`: `ChainsInv`, `MapInv` and `OrderInv` together, kept by every step.
* `batch_leads`, `deliver_drains`, `chain_drains`: the chain, by its own steps and with time
  passing, runs its batch, then pulls batch after batch until the map is empty and the chain
  ends.  No other thread's step is needed (`Machine.Leads` with `SerialAction.byChain`).
* `takesPrefix_step`: a step that is no cancel takes tasks out of the map only from its front.
* `SerialProtocol`, `serialProtocol_of_reach`: one chain, so one running task; no task in the
  map without an active queue and a chain that will run it; tasks taken from the front; one
  thread's plain tasks run in the order it submitted them.
-/

namespace Ffrt.Queue

/-- The steps of the chain at index `0`, and time passing: all a chain needs to get on. -/
def SerialAction.byChain : SerialAction → Bool
  | .transfer 0 | .rePush 0 | .transferInit 0 | .dispatchInit 0 | .exec 0 | .pull 0 | .tick => true
  | _ => false

namespace SerialQueue

theorem sublist_push (q : SerialQueue) (t : QueueTask) :
    List.Sublist q.whenMap (q.push t).1.whenMap := by
  -- on exit and on an inactive queue the map stays as it is
  rcases push_cases q t with ⟨-, hp⟩ | ⟨-, -, hp⟩ | ⟨-, -, hp⟩
  · rw [hp]
  · rw [hp]
  · rw [hp]
    exact Multimap.sublist_insert _ _ _

theorem isExit_push (q : SerialQueue) (t : QueueTask) : (q.push t).1.isExit = q.isExit := by
  rcases push_cases q t with ⟨-, hp⟩ | ⟨-, -, hp⟩ | ⟨-, -, hp⟩ <;> rw [hp]

/-- `Pull` hands over the batch at the front once the head is due. -/
theorem pull_of_due {q : SerialQueue} {now : Nat} {e : Nat × QueueTask} {m : WhenMap}
    (hm : q.whenMap = e :: m) (hx : q.isExit = false) (hd : e.1 ≤ now) :
    q.pull now =
      some ({ q with whenMap := (dequeBatch now q.whenMap).2 }, (dequeBatch now q.whenMap).1) := by
  unfold pull
  rw [hm]
  simp [hx, Nat.not_lt.mpr hd]

end SerialQueue

namespace Serial

/-- `t` is reached from `s` by the chain's own steps and time passing. -/
abbrev ChainLeads (s t : Serial) : Prop := Machine.Leads step (fun a => a.byChain = true) s t

/-! ### The invariants together -/

/-- The chain, map and order invariants of a serial queue. -/
def SerialInv (s : Serial) : Prop := ChainsInv s ∧ MapInv s ∧ OrderInv s

theorem serialInv_step : Machine.Invariant step SerialInv := by
  rintro s a t ⟨hI, hM, hO⟩ h
  exact ⟨chainsInv_step hI h, mapInv_step hI hM h, orderInv_step hI hM hO h⟩

theorem serialInv_of_reach {name : String} {qos : Int} {s : Serial}
    (h : Machine.Reach step (init name qos) s) : SerialInv s :=
  serialInv_step.reach ⟨chainsInv_init name qos, mapInv_init name qos, orderInv_init name qos⟩ h

/-! ### The chain runs the map -/

/-- Time passes until `t`. -/
theorem ticks_leads (s : Serial) {t : Nat} (ht : s.now ≤ t) : ChainLeads s { s with now := t } := by
  obtain ⟨n, rfl⟩ := Nat.exists_eq_add_of_le ht
  clear ht
  induction n generalizing s with
  | zero => exact Machine.Leads.refl s
  | succ n ih =>
      have h := ih { s with now := s.now + 1 }
      rw [show s.now + 1 + n = s.now + (n + 1) by omega] at h
      exact Machine.Leads.head (a := .tick) rfl rfl h

/-- `Dispatch` runs a batch to its end and reaches `Deliver`. -/
theorem batch_leads (s : Serial) {ts : List QueueTask} (hs : s.chains = [.batch ts])
    (hts : ts ≠ []) :
    ChainLeads s { s with executed := s.executed ++ ts, chains := [.deliver] } := by
  induction ts generalizing s with
  | nil => exact absurd rfl hts
  | cons t rest ih =>
      have hstep : s.step (.exec 0) = some { s with
          executed := s.executed ++ [t]
          chains := [if rest = [] then .deliver else .batch rest] } := by
        simp [step, hs]
      by_cases hr : rest = []
      · subst hr
        exact Machine.Leads.single rfl (by simpa using hstep)
      · -- the rest of the batch, from the state after its first task
        have h := ih { s with executed := s.executed ++ [t], chains := [.batch rest] } rfl hr
        simp only [List.append_assoc, List.singleton_append] at h
        exact Machine.Leads.head rfl (by simpa [hr] using hstep) h

/-- **From `Deliver`, the chain runs the whole map.**  It waits for the head's time, pulls a
batch from the front, runs it and comes back to `Deliver`; on an empty map it ends. -/
theorem deliver_drains (s : Serial) (hs : s.chains = [.deliver]) (hx : s.queue.isExit = false) :
    ∃ s', ChainLeads s s' ∧ s'.chains = [] ∧ s'.queue.whenMap = [] ∧
      s'.executed = s.executed ++ s.queue.whenMap.map Prod.snd := by
  -- on the size of the map: each pull takes its head at least
  induction hn : s.queue.whenMap.length using Nat.strong_induction_on generalizing s with
  | _ n ih =>
  cases hm : s.queue.whenMap with
  | nil =>
      refine ⟨{ s with queue := { s.queue with isActiveState := false }, chains := [] },
        Machine.Leads.single (a := .pull 0) rfl ?_, rfl, hm, by simp⟩
      simp [step, hs, SerialQueue.pull, hm]
  | cons e m =>
      -- wait until the head is due, then pull
      obtain ⟨t, ht, hdue⟩ : ∃ t, s.now ≤ t ∧ e.1 ≤ t := ⟨max s.now e.1, le_max_left _ _, le_max_right _ _⟩
      have hbne : (dequeBatch t s.queue.whenMap).1 ≠ [] := by
        rw [hm]
        simp [dequeBatch]
      have hpull : step { s with now := t } (.pull 0) = some { s with
          now := t
          queue := { s.queue with whenMap := (dequeBatch t s.queue.whenMap).2 }
          chains := [.batch (dequeBatch t s.queue.whenMap).1] } := by
        simp [step, hs, SerialQueue.pull_of_due hm hx hdue, hbne]
      -- the pulled batch was not empty, so the map is shorter
      obtain ⟨pre, hpre, hb⟩ := dequeBatch_prefix t s.queue.whenMap
      have hpre' : pre ≠ [] := by
        rintro rfl
        simp [hb] at hbne
      have hlt : (dequeBatch t s.queue.whenMap).2.length < n := by
        have hlen := congrArg List.length hpre
        rw [List.length_append, hn] at hlen
        have := List.length_pos_of_ne_nil hpre'
        omega
      obtain ⟨s', hl, h₁, h₂, h₃⟩ := ih _ hlt { s with
          now := t
          queue := { s.queue with whenMap := (dequeBatch t s.queue.whenMap).2 }
          executed := s.executed ++ (dequeBatch t s.queue.whenMap).1
          chains := [.deliver] } rfl hx rfl
      refine ⟨s', (ticks_leads s ht).trans (Machine.Leads.head (a := .pull 0) rfl hpull
        ((batch_leads _ rfl hbne).trans hl)), h₁, h₂, ?_⟩
      rw [h₃, ← hm]
      dsimp only
      conv_rhs => rw [hpre]
      rw [hb, List.map_append, List.append_assoc]

/-- The chain reaches `Deliver`: its submitter hands the first task over, or pushes a delayed
one again and starts the init task; a batch runs.  The map only grows on the way. -/
theorem reaches_deliver (s : Serial) {c : Chain} (hs : s.chains = [c]) (hc : c ≠ .batch []) :
    ∃ s₀, ChainLeads s s₀ ∧ s₀.chains = [.deliver] ∧ s₀.queue.isExit = s.queue.isExit ∧
      List.Sublist s.queue.whenMap s₀.queue.whenMap := by
  have hinit : ∀ s₁ : Serial, s₁.chains = [.initTask] →
      ChainLeads s₁ { s₁ with chains := [.deliver] } :=
    fun s₁ h₁ => Machine.Leads.single (a := .dispatchInit 0) rfl (by simp [step, advance, h₁])
  cases c with
  | transfer th t =>
      refine ⟨_, Machine.Leads.head (a := .transfer 0) (t := { s with chains := [.batch [t]] }) rfl
        (by simp [step, advance, hs]) (batch_leads _ rfl (List.cons_ne_nil _ _)), rfl, rfl,
        List.Sublist.refl _⟩
  | rePush th t =>
      -- the task goes into the map, then the init task is started
      have h₁ : ChainLeads s { s with queue := (s.queue.push t).1, chains := [.transferInit th] } :=
        Machine.Leads.single (a := .rePush 0) rfl (by simp [step, hs])
      have h₂ : ChainLeads { s with queue := (s.queue.push t).1, chains := [.transferInit th] }
          { s with queue := (s.queue.push t).1, chains := [.initTask] } :=
        Machine.Leads.single (a := .transferInit 0) rfl (by simp [step, advance])
      exact ⟨_, h₁.trans (h₂.trans (hinit _ rfl)), rfl, SerialQueue.isExit_push _ _,
        SerialQueue.sublist_push _ _⟩
  | transferInit th =>
      exact ⟨_, Machine.Leads.head (a := .transferInit 0) (t := { s with chains := [.initTask] }) rfl
        (by simp [step, advance, hs]) (hinit _ rfl), rfl, rfl, List.Sublist.refl _⟩
  | initTask => exact ⟨_, hinit s hs, rfl, rfl, List.Sublist.refl _⟩
  | batch ts =>
      have hts : ts ≠ [] := fun h => hc (by rw [h])
      exact ⟨_, batch_leads s hs hts, rfl, rfl, List.Sublist.refl _⟩
  | deliver => exact ⟨s, Machine.Leads.refl s, hs, rfl, List.Sublist.refl _⟩

/-- **A chain runs every task of the map.**  By its own steps and with time passing, the
chain of a queue that is not exiting runs every task the map holds, and ends with the map
empty. -/
theorem chain_drains (s : Serial) {c : Chain} (hs : s.chains = [c]) (hc : c ≠ .batch [])
    (hx : s.queue.isExit = false) :
    ∃ s', ChainLeads s s' ∧ s'.chains = [] ∧ s'.queue.whenMap = [] ∧
      ∀ e ∈ s.queue.whenMap, e.2 ∈ s'.executed := by
  obtain ⟨s₀, hl₀, hs₀, hx₀, hsub⟩ := reaches_deliver s hs hc
  obtain ⟨s', hl, h₁, h₂, h₃⟩ := deliver_drains s₀ hs₀ (hx₀.trans hx)
  refine ⟨s', hl₀.trans hl, h₁, h₂, fun e he => ?_⟩
  rw [h₃]
  exact List.mem_append_right _ (List.mem_map.mpr ⟨e, hsub.subset he, rfl⟩)

/-! ### Taken from the front -/

/-- **What leaves the map leaves from its front.**  Every step but a cancel takes tasks out of
the map only as a prefix of its `(key, insertion)` order: `Submit` and the second push of a
delayed task only file one, and `Pull` takes the batch at the front. -/
theorem takesPrefix_step {s s' : Serial} {a : SerialAction} (h : s.step a = some s')
    (hc : a.cancels = false) : Multimap.TakesPrefix s.queue.whenMap s'.queue.whenMap := by
  rcases step_cases h with ⟨th, attr, rfl⟩ | ⟨i, c, c', -, -, -, -, rfl⟩ |
    ⟨i, th, t, -, rfl⟩ | ⟨i, t, rest, -, rfl⟩ | ⟨i, q, b, -, hp, rfl⟩ | ⟨hca, -⟩ | rfl
  · rcases submit_cases s th attr with ⟨-, he⟩ | ⟨-, -, he⟩ | ⟨-, -, he⟩ <;> rw [he]
    · exact .of_sublist (List.Sublist.refl _)
    · exact .of_sublist (List.Sublist.refl _)
    · exact .of_sublist (Multimap.sublist_insert _ _ _)
  · exact .of_sublist (List.Sublist.refl _)
  · exact .of_sublist (SerialQueue.sublist_push _ _)
  · exact .of_sublist (List.Sublist.refl _)
  · -- either branch of `Deliver` leaves the queue `Pull` returned
    have hq : (if b = [] then { s with queue := q, chains := s.chains.eraseIdx i }
        else { s with queue := q, chains := s.chains.set i (.batch b) }).queue = q := by
      split <;> rfl
    rw [hq]
    rcases SerialQueue.pull_cases s.queue hp with ⟨-, rfl, -⟩ | ⟨-, rfl, -⟩ | ⟨-, -, -, -, pre, hpre, -⟩
    · exact .of_sublist (List.Sublist.refl _)
    · exact .of_sublist (List.Sublist.refl _)
    · exact .of_append hpre
  · rw [hc] at hca
    cases hca
  · exact .of_sublist (List.Sublist.refl _)

/-! ### The protocol -/

/-- What a serial queue promises in a state where it is not exiting. -/
structure SerialProtocol (s : Serial) : Prop where
  /-- One dispatch chain at most, so one task of the queue running at most. -/
  one_chain : s.chains.length ≤ 1
  one_running : (s.chains.filterMap Chain.current).length ≤ 1
  /-- A task in the map has the queue active and a chain, which by its own steps and with
  time passing runs every task of the map. -/
  not_stranded : s.queue.whenMap ≠ [] → s.queue.isActiveState = true ∧ s.chains.length = 1 ∧
    ∃ s', ChainLeads s s' ∧ s'.chains = [] ∧ s'.queue.whenMap = [] ∧
      ∀ e ∈ s.queue.whenMap, e.2 ∈ s'.executed
  /-- Only a cancel takes tasks out of the map other than from its front. -/
  takes_prefix : ∀ a s', s.step a = some s' → a.cancels = false →
    Multimap.TakesPrefix s.queue.whenMap s'.queue.whenMap
  /-- One thread's tasks with no delay and not at the head run in the order it submitted
  them. -/
  in_order : ∀ x y, SubmittedBefore s.submitted x y → ¬ List.Sublist [y, x] s.executed

/-- **The serial queue's protocol holds over every interleaving.** -/
theorem serialProtocol_of_reach {name : String} {qos : Int} {s : Serial}
    (h : Machine.Reach step (init name qos) s) (hx : s.queue.isExit = false) :
    SerialProtocol s := by
  obtain ⟨hI, -, hO⟩ := serialInv_of_reach h
  refine ⟨hI.le_one, (List.length_filterMap_le _ _).trans hI.le_one, ?_,
    fun a s' hs hc => takesPrefix_step hs hc, ?_⟩
  · -- the map holds a task: the queue is active, so its chain is there
    intro hne
    have ha : s.queue.isActiveState = true := by
      cases ha : s.queue.isActiveState
      · exact absurd (hI.inactive ha).2 hne
      · rfl
    have hl := hI.active hx ha
    obtain ⟨c, hc⟩ := List.length_eq_one_iff.mp hl
    have hcb : c ≠ .batch [] := fun hb => hI.batch (by simp [hc, hb])
    exact ⟨ha, hl, chain_drains s hc hcb hx⟩
  · -- what ran is a prefix of the pipeline, whose order the order invariant gives
    intro x y hxy hyx
    have hsub : List.Sublist s.executed s.pipeline :=
      (List.sublist_append_left _ _).trans (List.sublist_append_left _ _)
    exact List.pairwise_pair.mp (hO.sublist (hyx.trans hsub)) hxy

theorem serialProtocol_twoSubmits :
    Machine.Reach step (init "q" 2) (((init "q" 2).submit 1 plainAttr).submit 2 plainAttr) ∧
      (((init "q" 2).submit 1 plainAttr).submit 2 plainAttr).queue.isExit = false ∧
      SerialProtocol (((init "q" 2).submit 1 plainAttr).submit 2 plainAttr) :=
  have h : Machine.Reach step (init "q" 2)
      (((init "q" 2).submit 1 plainAttr).submit 2 plainAttr) :=
    .next (.submit 2 plainAttr) (.next (.submit 1 plainAttr) .init rfl) rfl
  ⟨h, rfl, serialProtocol_of_reach h rfl⟩

end Serial

end Ffrt.Queue
