import Ffrt.Pattern.JobPartner

/-!
# Pattern — job_partner's accounts over every interleaving

What every run of `JobPartner.step` keeps, for any attributes and any number of callers, when
`align2n` of `partner_q`'s depth does not wrap (`PartnerInv`):

* `partner_q` keeps its own invariant (`MpmcInv`), and each thread's place in `job_partner`
  fits its place in `partner_q`: a submitter in `try_push` pushes its own job, and only a thread
  in `try_run` is in `try_pop` (`CallerPc.Fits`, `PartnerPc.Fits`);
* each job counted by `fetch_add` is held by its submitter until its `try_push` claims an
  index, and then pushed once (`PartnerInv.jobs`); the jobs `try_pop` took are those running and
  those finished (`PartnerInv.taken`); so each job counted is exactly once in flight, in
  `partner_q`, running or finished (`PartnerInv.placed`), and `job_num` counts those not
  finished;
* `partner_num` is the number of partners that hold a count, and a thread past the test of
  `try_add_partner` holds a `wn` that passed it, so `partner_num` never exceeds
  `max(max_parallelism, 1)`;
* every return of `wait()` saw every job counted before the call finished.

Each kind of step has its lemma (`PartnerInv.setCaller`, `PartnerInv.queueCaller`, …), and the
step lemmas `partnerInv_callerStep` and `partnerInv_partnerStep` pick one for each place.
-/

namespace Ffrt.Pattern

open Function Machine MpmcQueue

/-- Two sums over the threads that differ only at thread `i`. -/
theorem sum_add_eq_of_eq_off {ι M : Type*} [DecidableEq ι] [AddCommMonoid M] {s : Finset ι}
    {i : ι} (hi : i ∈ s) {f g : ι → M} (h : ∀ j ∈ s, j ≠ i → f j = g j) :
    ∑ j ∈ s, f j + g i = ∑ j ∈ s, g j + f i := by
  rw [← Finset.add_sum_erase s f hi, ← Finset.add_sum_erase s g hi,
    Finset.sum_congr rfl fun j hj => h j (Finset.mem_of_mem_erase hj) (Finset.ne_of_mem_erase hj)]
  abel

/-! ### `try_add_partner` -/

namespace AddPc

/-- The `iread_` that `size()` read, between its two loads. -/
def head : AddPc → Option Nat
  | .size _ head => some head
  | _ => none

/-- Past the test, the `wn` held passed its part before `size()`. -/
def prefixOk (attr : JobPartnerAttr) (boost : Bool) : AddPc → Bool
  | .size wn _ | .cas wn => attr.addPrefix boost wn
  | _ => true

end AddPc

variable {attr : JobPartnerAttr}

/-- A `wn` that passes the test is below `max(max_parallelism, 1)`. -/
theorem JobPartnerAttr.addPrefix_le_max {boost : Bool} {wn : Nat}
    (h : attr.addPrefix boost wn = true) : wn + 1 ≤ max attr.maxParallelism 1 := by
  unfold JobPartnerAttr.addPrefix at h
  cases boost <;> simp at h <;> omega

section AddStep

variable {boost : Bool} {pn ir iw : Nat} {a a' : AddPc}

/-- After a step of `try_add_partner` that does not return, the `wn` held past the test passed
it, and `size()` read an `iread_` at most the current one. -/
theorem addStep_cont (h : addStep attr boost pn ir iw a = .cont a')
    (ha : a.prefixOk attr boost = true) :
    a'.prefixOk attr boost = true ∧ ∀ hd, a'.head = some hd → hd ≤ ir := by
  cases a with
  | load =>
      cases h
      exact ⟨rfl, fun _ h => by cases h⟩
  | test wn =>
      simp only [addStep] at h
      split at h <;> cases h
      exact ⟨‹_›, fun _ h => by cases h; exact le_rfl⟩
  | size wn head =>
      simp only [addStep] at h
      split at h <;> cases h
      exact ⟨ha, fun _ h => by cases h⟩
  | cas wn =>
      simp only [addStep] at h
      split at h <;> cases h
      exact ⟨rfl, fun _ h => by cases h⟩

/-- A `try_add_partner` that returns `true` won its compare-exchange on a `partner_num` below
`max(max_parallelism, 1)`. -/
theorem addStep_done_true (h : addStep attr boost pn ir iw a = .done true)
    (ha : a.prefixOk attr boost = true) : pn + 1 ≤ max attr.maxParallelism 1 := by
  cases a with
  | load => cases h
  | test wn =>
      simp only [addStep] at h
      split at h <;> cases h
  | size wn head =>
      simp only [addStep] at h
      split at h <;> cases h
  | cas wn =>
      simp only [addStep] at h
      split at h
      · rename_i hpn
        subst hpn
        exact JobPartnerAttr.addPrefix_le_max ha
      · cases h

end AddStep

/-! ### What a caller's place says -/

namespace CallerPc

/-- The job a caller has counted and not yet pushed, at place `q` in `partner_q`: its
`try_push` holds the job until the compare-exchange claims an index. -/
def inflightJob (q : QPc Nat) : CallerPc → Option Nat
  | .push j _ | .pushRun j _ | .pushPopping j _ | .run _ (.push j _) | .notify (.push j _) => some j
  | .pushing j _ => if q.claimed then none else some j
  | _ => none

/-- The job a caller runs in `try_run`, before its `done_one`. -/
def runningJob : CallerPc → Option Nat
  | .run k _ => some k
  | _ => none

/-- The `since` of a caller inside `wait()`, `0` for any other. -/
def since : CallerPc → Nat
  | .run _ (.wait since _) | .notify (.wait since _) | .waitAdd since _ _ | .waitRun since _
  | .waitPopping since _ | .waitCheck since _ | .waitSet since _ | .waitRecheck since _
  | .waitHasJob since _ | .waitHasJobSize since _ _ | .waitSleep since _
  | .waitExchange since _ => since
  | _ => 0

/-- The call of `partner_q` the caller is in shows at its place `q` there. -/
def queueAgree (q : QPc Nat) : CallerPc → Bool
  | .pushing j _ => q.pushes j
  | .pushPopping .. | .waitPopping .. => q.pops
  | _ => q.isIdle

/-- The `iread_` a caller's `size()` read, between its two loads. -/
def head : CallerPc → Option Nat
  | .add _ a | .waitAdd _ _ a => a.head
  | .waitHasJobSize _ _ head => some head
  | _ => none

/-- A caller past the test of `try_add_partner` holds a `wn` that passed it. -/
def prefixOk (attr : JobPartnerAttr) : CallerPc → Bool
  | .add boost a => a.prefixOk attr boost
  | .waitAdd _ _ a => a.prefixOk attr true
  | _ => true

/-- What a caller's place says of the rest of the state: of its place `q` in `partner_q`, of
the jobs counted and of `iread_`. -/
structure Fits (attr : JobPartnerAttr) (q : QPc Nat) (added iread : Nat) (pc : CallerPc) :
    Prop where
  agree : pc.queueAgree q = true
  since_le : pc.since ≤ added
  prefixOk : pc.prefixOk attr = true
  head_le : ∀ h, pc.head = some h → h ≤ iread

theorem Fits.mono {q : QPc Nat} {added added' iread iread' : Nat} {pc : CallerPc}
    (h : pc.Fits attr q added iread) (ha : added ≤ added') (hr : iread ≤ iread') :
    pc.Fits attr q added' iread' :=
  ⟨h.agree, h.since_le.trans ha, h.prefixOk, fun x hx => (h.head_le x hx).trans hr⟩

/-- A caller at a place with no job, no call of `partner_q`, no test and no `size()`. -/
theorem Fits.of_idle {added iread : Nat} {pc : CallerPc} (hq : pc.queueAgree .idle = true)
    (hs : pc.since ≤ added) (hp : pc.prefixOk attr = true) (hh : pc.head = none) :
    pc.Fits attr .idle added iread :=
  ⟨hq, hs, hp, fun _ h => by rw [hh] at h; cases h⟩

end CallerPc

/-- After `done_one`, a caller goes on where it ran the job from, holding what it held. -/
theorem CallerRet.resume_inflightJob (r : CallerRet) (k : Nat) (q : QPc Nat) :
    r.resume.inflightJob q = (CallerPc.run k r).inflightJob q := by
  cases r <;> rfl

theorem CallerRet.notify_inflightJob (r : CallerRet) (k : Nat) (q : QPc Nat) :
    (CallerPc.notify r).inflightJob q = (CallerPc.run k r).inflightJob q := by
  cases r <;> rfl

theorem CallerRet.resume_fits {r : CallerRet} {k added iread : Nat}
    (h : (CallerPc.run k r).since ≤ added) : r.resume.Fits attr .idle added iread := by
  cases r <;> exact CallerPc.Fits.of_idle rfl h rfl rfl

theorem CallerRet.notify_fits {r : CallerRet} {k added iread : Nat}
    (h : (CallerPc.run k r).since ≤ added) : (CallerPc.notify r).Fits attr .idle added iread := by
  cases r <;> exact CallerPc.Fits.of_idle rfl h rfl rfl

/-! ### What a partner's place says -/

namespace PartnerPc

/-- The job a partner runs, before its `done_one`. -/
def runningJob : PartnerPc → Option Nat
  | .job k => some k
  | _ => none

/-- A partner that holds one count of `partner_num`: from the compare-exchange that added it,
or won the count back, to its `fetch_sub`. -/
def holdsCount : PartnerPc → Bool
  | .lastCas | .check | .checkSize _ | .retry _ | .exited => false
  | _ => true

/-- Only a partner in `try_run` is in a call of `partner_q`, a `try_pop`. -/
def queueAgree (q : QPc Nat) : PartnerPc → Bool
  | .popping => q.pops
  | _ => q.isIdle

/-- The `iread_` a partner's `size()` read, between its two loads. -/
def head : PartnerPc → Option Nat
  | .add a | .retry a => a.head
  | .stallSize head | .checkSize head => some head
  | _ => none

/-- A partner past the test of `try_add_partner<true>` holds a `wn` that passed it. -/
def prefixOk (attr : JobPartnerAttr) : PartnerPc → Bool
  | .add a | .retry a => a.prefixOk attr true
  | _ => true

/-- What a partner's place says of its place `q` in `partner_q` and of `iread_`. -/
structure Fits (attr : JobPartnerAttr) (q : QPc Nat) (iread : Nat) (pc : PartnerPc) : Prop where
  agree : pc.queueAgree q = true
  prefixOk : pc.prefixOk attr = true
  head_le : ∀ h, pc.head = some h → h ≤ iread

theorem Fits.mono {q : QPc Nat} {iread iread' : Nat} {pc : PartnerPc}
    (h : pc.Fits attr q iread) (hr : iread ≤ iread') : pc.Fits attr q iread' :=
  ⟨h.agree, h.prefixOk, fun x hx => (h.head_le x hx).trans hr⟩

theorem Fits.of_idle {iread : Nat} {pc : PartnerPc} (hq : pc.queueAgree .idle = true)
    (hp : pc.prefixOk attr = true) (hh : pc.head = none) : pc.Fits attr .idle iread :=
  ⟨hq, hp, fun _ h => by rw [hh] at h; cases h⟩

end PartnerPc

namespace JobPartner

variable {n : Nat} {s t : JobPartner n}

/-! ### Where the jobs and the counts are -/

/-- The jobs counted and not pushed, one per submitter. -/
def inflightJobs (s : JobPartner n) : Multiset Nat :=
  ∑ c, (((s.caller c).inflightJob (s.pq.pc c)).toList : Multiset Nat)

/-- The jobs taken from `partner_q` and not through `done_one`, by callers and by the partners
below `spawned`. -/
def runningJobs (s : JobPartner n) : Multiset Nat :=
  (∑ c, ((s.caller c).runningJob.toList : Multiset Nat)) +
    ∑ p ∈ Finset.range s.spawned, ((s.partner p).runningJob.toList : Multiset Nat)

/-- The partners below `spawned` that hold a count of `partner_num`. -/
def holders (s : JobPartner n) : Nat :=
  ∑ p ∈ Finset.range s.spawned, if (s.partner p).holdsCount then 1 else 0

/-- The jobs a `try_pop` took from `partner_q`. -/
def takenJobs (s : JobPartner n) : Multiset Nat := (s.hist.got.map Prod.snd).reduceOption

theorem setCaller_self (s : JobPartner n) (c : Fin n) : s.setCaller c (s.caller c) = s := by
  simp [setCaller]

theorem setPartner_self (s : JobPartner n) (p : Nat) : s.setPartner p (s.partner p) = s := by
  simp [setPartner]

/-- Partner `p` is thread `n + p` of `partner_q`, no caller's. -/
theorem partner_ne_caller (c : Fin n) (p : Nat) : n + p ≠ c := by omega

theorem callerQueue_eq_some {c : Fin n} {next : Bool → Option Nat → CallerPc}
    (h : s.callerQueue c next = some t) :
    ∃ q, s.pq.step (.resume c) = some q ∧
      t = (s.setQueue q (s.pq.record (.resume c) s.hist)).setCaller c
        (if (q.pc c).isIdle then next ((q.ret c).getD false) (q.result c) else s.caller c) := by
  obtain ⟨u, hu, rfl⟩ := Option.map_eq_some_iff.mp h
  obtain ⟨q, hq, rfl⟩ := Option.map_eq_some_iff.mp hu
  refine ⟨q, hq, ?_⟩
  by_cases hidle : (q.pc c).isIdle = true
  · simp only [setQueue_pq, hidle, if_true]
  · -- still in the call: the caller stays where it is
    simp only [setQueue_pq, hidle, if_false, Bool.false_eq_true]
    exact (setCaller_self _ c).symm

theorem partnerQueue_eq_some {p : Nat} {next : Bool → Option Nat → PartnerPc}
    (h : s.partnerQueue p next = some t) :
    ∃ q, s.pq.step (.resume (n + p)) = some q ∧
      t = (s.setQueue q (s.pq.record (.resume (n + p)) s.hist)).setPartner p
        (if (q.pc (n + p)).isIdle then
          next ((q.ret (n + p)).getD false) (q.result (n + p))
        else s.partner p) := by
  obtain ⟨u, hu, rfl⟩ := Option.map_eq_some_iff.mp h
  obtain ⟨q, hq, rfl⟩ := Option.map_eq_some_iff.mp hu
  refine ⟨q, hq, ?_⟩
  by_cases hidle : (q.pc (n + p)).isIdle = true
  · simp only [setQueue_pq, hidle, if_true]
  · simp only [setQueue_pq, hidle, if_false, Bool.false_eq_true]
    exact (setPartner_self _ p).symm

theorem queueStep_eq_some {a : QAction Nat} (h : s.queueStep a = some t) :
    ∃ q, s.pq.step a = some q ∧ t = s.setQueue q (s.pq.record a s.hist) := by
  obtain ⟨q, hq, rfl⟩ := Option.map_eq_some_iff.mp h
  exact ⟨q, hq, rfl⟩

/-- Caller `c` alone moved, in `job_partner` or in `partner_q`. -/
theorem inflightJobs_add {c : Fin n}
    (h : ∀ c', c' ≠ c → (t.caller c').inflightJob (t.pq.pc c') =
      (s.caller c').inflightJob (s.pq.pc c')) :
    inflightJobs t + (((s.caller c).inflightJob (s.pq.pc c)).toList : Multiset Nat) =
      inflightJobs s + ((t.caller c).inflightJob (t.pq.pc c)).toList :=
  sum_add_eq_of_eq_off (Finset.mem_univ c)
    (f := fun c' => (((t.caller c').inflightJob (t.pq.pc c')).toList : Multiset Nat))
    (g := fun c' => (((s.caller c').inflightJob (s.pq.pc c')).toList : Multiset Nat))
    fun c' _ hc' => by simp only [h c' hc']

theorem runningJobs_add_caller {c : Fin n} (hsp : t.spawned = s.spawned)
    (hp : t.partner = s.partner)
    (h : ∀ c', c' ≠ c → (t.caller c').runningJob = (s.caller c').runningJob) :
    runningJobs t + ((s.caller c).runningJob.toList : Multiset Nat) =
      runningJobs s + ((t.caller c).runningJob.toList : Multiset Nat) := by
  have hsum := sum_add_eq_of_eq_off (Finset.mem_univ c)
    (f := fun c' => ((t.caller c').runningJob.toList : Multiset Nat))
    (g := fun c' => ((s.caller c').runningJob.toList : Multiset Nat)) fun c' _ hc' => by
      rw [h c' hc']
  unfold runningJobs
  rw [hsp, hp, add_right_comm, hsum, add_right_comm]

theorem runningJobs_add_partner {p : Nat} (hp : p < s.spawned) (hsp : t.spawned = s.spawned)
    (hc : t.caller = s.caller)
    (h : ∀ p', p' ≠ p → (t.partner p').runningJob = (s.partner p').runningJob) :
    runningJobs t + ((s.partner p).runningJob.toList : Multiset Nat) =
      runningJobs s + ((t.partner p).runningJob.toList : Multiset Nat) := by
  have hsum := sum_add_eq_of_eq_off (Finset.mem_range.mpr hp)
    (f := fun p' => ((t.partner p').runningJob.toList : Multiset Nat))
    (g := fun p' => ((s.partner p').runningJob.toList : Multiset Nat)) fun p' _ hp' => by
      rw [h p' hp']
  unfold runningJobs
  rw [hsp, hc, add_assoc, hsum, add_assoc]

theorem holders_add {p : Nat} (hp : p < s.spawned) (hsp : t.spawned = s.spawned)
    (h : ∀ p', p' ≠ p → t.partner p' = s.partner p') :
    holders t + (if (s.partner p).holdsCount then 1 else 0) =
      holders s + (if (t.partner p).holdsCount then 1 else 0) := by
  unfold holders
  rw [hsp]
  exact sum_add_eq_of_eq_off (Finset.mem_range.mpr hp)
    (f := fun p' => if (t.partner p').holdsCount then 1 else 0)
    (g := fun p' => if (s.partner p').holdsCount then 1 else 0)
    fun p' _ hp' => by simp only [h p' hp']

/-- A new partner runs no job. -/
theorem runningJobs_spawn (s : JobPartner n) : runningJobs s.spawn = runningJobs s := by
  have h : ∑ p ∈ Finset.range s.spawned,
      ((update s.partner s.spawned (.add .load) p).runningJob.toList : Multiset Nat) =
      ∑ p ∈ Finset.range s.spawned, ((s.partner p).runningJob.toList : Multiset Nat) :=
    Finset.sum_congr rfl fun p hp => by
      rw [update_of_ne (Finset.mem_range.mp hp).ne]
  simp only [runningJobs, spawn_caller, spawn_partner, spawn_spawned, Finset.sum_range_succ, h,
    update_self]
  simp [PartnerPc.runningJob]

/-- A new partner holds the count its adder won. -/
theorem holders_spawn (s : JobPartner n) : holders s.spawn = holders s + 1 := by
  have h : ∑ p ∈ Finset.range s.spawned,
      (if (update s.partner s.spawned (.add .load) p).holdsCount then 1 else 0) =
      ∑ p ∈ Finset.range s.spawned, (if (s.partner p).holdsCount then 1 else 0) :=
    Finset.sum_congr rfl fun p hp => by
      rw [update_of_ne (Finset.mem_range.mp hp).ne]
  simp only [holders, spawn_partner, spawn_spawned, Finset.sum_range_succ, h, update_self]
  rfl

/-- An account after a thread's step, which gave up `x` and took `y` against the step's
change from `v` to `u`. -/
theorem account_add {M : Type*} [AddCancelCommMonoid M] {a b x y u v r : M}
    (hmove : a + x = b + y) (hstep : y + u = x + v) (hb : b + v = r) : a + u = r := by
  apply add_right_cancel (b := x)
  rw [add_right_comm, hmove, add_assoc, hstep, ← hb]
  abel

/-- An account of the jobs taken, after a thread's step that gave up `x` and took `y`. -/
theorem account_eq {M : Type*} [AddCancelCommMonoid M] {a b c d e x y : M}
    (ha : a + x = b + y) (hc : c + x = d + y) (hb : b = d + e) : a = c + e := by
  apply add_right_cancel (b := x)
  rw [ha, hb, add_right_comm, ← hc, add_right_comm]

theorem QPc.isIdle_of_pushes {q : QPc Nat} {d : Nat} (h : q.pushes d = true) :
    q.isIdle = false := by
  cases q <;> first | rfl | cases h

theorem QPc.isIdle_of_pops {q : QPc Nat} (h : q.pops = true) : q.isIdle = false := by
  cases q <;> first | rfl | cases h

/-- A step of thread `c` in the `try_pop` of a `try_run`, from where `popNext` sends it: the
thread stays in the call, or leaves it at `empty`, or at `took k` for the job `k` the ghost
records it took; nothing is pushed. -/
theorem popStep {β : Type} {c : Nat} {q : MpmcQueue Nat} (hc : (s.pq.pc c).pops = true)
    (hq : s.pq.step (.resume c) = some q) (P empty : β) (took : Nat → β) :
    (s.pq.record (.resume c) s.hist).pushed = s.hist.pushed ∧
    ((if (q.pc c).isIdle then popNext took empty ((q.ret c).getD false) (q.result c) else P) = P ∧
        (q.pc c).pops = true ∧ (s.pq.record (.resume c) s.hist).got = s.hist.got ∨
      q.pc c = .idle ∧
        ((if (q.pc c).isIdle then popNext took empty ((q.ret c).getD false) (q.result c)
            else P) = empty ∧
          ((s.pq.record (.resume c) s.hist).got.map Prod.snd).reduceOption =
            (s.hist.got.map Prod.snd).reduceOption ∨
        ∃ k, (if (q.pc c).isIdle then popNext took empty ((q.ret c).getD false) (q.result c)
            else P) = took k ∧
          ((s.pq.record (.resume c) s.hist).got.map Prod.snd).reduceOption =
            (s.hist.got.map Prod.snd).reduceOption ++ [k])) := by
  obtain ⟨-, -, ⟨hpop, hrec⟩ | ⟨hidle, hret, hrec⟩ | ⟨hidle, hret, i, hrec⟩⟩ :=
    resume_of_pops s.hist hc hq
  · -- still in the call
    rw [hrec]
    exact ⟨rfl, .inl ⟨by simp [QPc.isIdle_of_pops hpop], hpop, rfl⟩⟩
  · -- `try_pop` returned `false`
    rw [hrec]
    exact ⟨rfl, .inr ⟨hidle, .inl ⟨by simp [hidle, hret, QPc.isIdle, popNext], rfl⟩⟩⟩
  · -- `try_pop` returned `true` with the value it recorded
    rw [hrec]
    refine ⟨rfl, .inr ⟨hidle, ?_⟩⟩
    cases hk : q.result c with
    | none =>
        exact .inl ⟨by simp [hidle, hret, QPc.isIdle, popNext], by
          simp [List.reduceOption_append, List.reduceOption_cons_of_none]⟩
    | some k =>
        exact .inr ⟨k, by simp [hidle, hret, QPc.isIdle, popNext], by
          simp [List.reduceOption_append, List.reduceOption_cons_of_some]⟩

/-! ### The invariant -/

/-- What every run keeps: `partner_q`'s invariant, where each thread is, where each job is, the
two counts, and what `wait()` saw. -/
structure PartnerInv (attr : JobPartnerAttr) (s : JobPartner n) : Prop where
  queue : MpmcInv s.pq s.hist
  callers : ∀ c, (s.caller c).Fits attr (s.pq.pc c) s.added s.pq.iread
  partners : ∀ p, (s.partner p).Fits attr (s.pq.pc (n + p)) s.pq.iread
  /-- Each job counted is in flight or pushed, exactly once. -/
  jobs : inflightJobs s + (s.hist.pushed : Multiset Nat) = Multiset.range s.added
  /-- The jobs `try_pop` took are those running and those finished. -/
  taken : takenJobs s = runningJobs s + s.finished
  /-- `job_num` counts the jobs not finished. -/
  jobNum : s.jobNum + s.finished.length = s.added
  returns : ∀ r ∈ s.returns, ∀ j < r.1, j ∈ r.2
  unspawned : ∀ p, s.spawned ≤ p → s.partner p = .exited
  /-- `partner_num` counts the partners that hold a count. -/
  partnerNum : s.partnerNum = holders s
  le_max : s.partnerNum ≤ max attr.maxParallelism 1

theorem partnerInv_init (hdepth : attr.depth ≤ 2 ^ 63) : PartnerInv attr (init attr : JobPartner n) where
  queue := mpmcInv_new hdepth
  callers _ := CallerPc.Fits.of_idle rfl (Nat.zero_le _) rfl rfl
  partners _ := PartnerPc.Fits.of_idle rfl rfl rfl
  jobs := by simp [inflightJobs, init, CallerPc.inflightJob]
  taken := by simp [takenJobs, runningJobs, init, CallerPc.runningJob]
  jobNum := rfl
  returns := by simp [init]
  unspawned _ _ := rfl
  partnerNum := by simp [holders, init]
  le_max := Nat.zero_le _

namespace PartnerInv

variable (hI : PartnerInv attr s)
include hI

/-- **Each job counted is exactly once in flight, in `partner_q`, running or finished.** -/
theorem placed :
    inflightJobs s + (s.hist.unread : Multiset Nat) + runningJobs s + (s.finished : Multiset Nat) =
      Multiset.range s.added := by
  have hpushed : (s.hist.pushed : Multiset Nat) = s.hist.unread + takenJobs s := by
    rw [Multiset.coe_eq_coe.mpr hI.queue.pushed_perm, ← Multiset.coe_add]
    rfl
  rw [← hI.jobs, hpushed, hI.taken]
  abel

/-- A job running keeps `job_num` positive: `done_one`'s `fetch_sub` does not go below zero. -/
theorem jobNum_pos {k : Nat} (hk : k ∈ runningJobs s) : 1 ≤ s.jobNum := by
  have hcard := congrArg Multiset.card hI.placed
  have hrun : 1 ≤ Multiset.card (runningJobs s) := Multiset.card_pos_iff_exists_mem.mpr ⟨k, hk⟩
  simp only [Multiset.card_add, Multiset.coe_card, Multiset.card_range] at hcard
  have := hI.jobNum
  omega

/-- Once `job_num` is zero, every job counted is finished. -/
theorem finished_of_jobNum {j : Nat} (h0 : s.jobNum = 0) (hj : j < s.added) : j ∈ s.finished := by
  have hle : (s.finished : Multiset Nat) ≤ Multiset.range s.added := by
    rw [← hI.placed]
    exact Multiset.le_add_left _ _
  have hcard : Multiset.card (Multiset.range s.added) ≤ Multiset.card (s.finished : Multiset Nat) := by
    have := hI.jobNum
    simp only [Multiset.card_range, Multiset.coe_card]
    omega
  have heq := Multiset.eq_of_le_of_card_le hle hcard
  have : j ∈ (s.finished : Multiset Nat) := by
    rw [heq, Multiset.mem_range]
    exact hj
  exact Multiset.mem_coe.mp this

/-- A partner that holds a count keeps `partner_num` positive: its `fetch_sub` does not go
below zero. -/
theorem partnerNum_pos {p : Nat} (hp : p < s.spawned) (h : (s.partner p).holdsCount = true) :
    0 < s.partnerNum := by
  have hH := holders_add (s := s) (t := s.setPartner p .exited) hp rfl
    fun p' h => by simp [update_of_ne h]
  simp only [setPartner_partner, update_self, h, if_true] at hH
  rw [hI.partnerNum]
  simp [PartnerPc.holdsCount] at hH
  omega

/-- Caller `c` moves to a place that fits. -/
theorem callers_update {c : Fin n} {pc : CallerPc}
    (hF : pc.Fits attr (s.pq.pc c) s.added s.pq.iread) (c' : Fin n) :
    (update s.caller c pc c').Fits attr (s.pq.pc c') s.added s.pq.iread := by
  by_cases h : c' = c
  · subst h
    simpa using hF
  · simpa [update_of_ne h] using hI.callers c'

/-- Partner `p` moves to a place that fits. -/
theorem partners_update {p : Nat} {pc : PartnerPc}
    (hF : pc.Fits attr (s.pq.pc (n + p)) s.pq.iread) (p' : Nat) :
    (update s.partner p pc p').Fits attr (s.pq.pc (n + p')) s.pq.iread := by
  by_cases h : p' = p
  · subst h
    simpa using hF
  · simpa [update_of_ne h] using hI.partners p'

theorem unspawned_update {p : Nat} (hp : p < s.spawned) (pc : PartnerPc) (p' : Nat)
    (hp' : s.spawned ≤ p') : update s.partner p pc p' = .exited := by
  rw [update_of_ne (show p' ≠ p by omega)]
  exact hI.unspawned p' hp'

theorem setMasterWait (m : Nat) : PartnerInv attr (s.setMasterWait m) :=
  ⟨hI.queue, hI.callers, hI.partners, hI.jobs, hI.taken, hI.jobNum, hI.returns, hI.unspawned,
    hI.partnerNum, hI.le_max⟩

/-- A caller moving on without counting, pushing, taking or finishing a job. -/
theorem setCaller {c : Fin n} {pc : CallerPc}
    (hF : pc.Fits attr (s.pq.pc c) s.added s.pq.iread)
    (hin : pc.inflightJob (s.pq.pc c) = (s.caller c).inflightJob (s.pq.pc c))
    (hrun : pc.runningJob = (s.caller c).runningJob) :
    PartnerInv attr (s.setCaller c pc) := by
  have hF' := inflightJobs_add (s := s) (t := s.setCaller c pc) (c := c) fun c' h => by
    simp [update_of_ne h]
  have hR := runningJobs_add_caller (s := s) (t := s.setCaller c pc) (c := c) rfl rfl
    fun c' h => by simp [update_of_ne h]
  simp only [setCaller_caller, update_self, setCaller_pq, hin, hrun] at hF' hR
  refine ⟨hI.queue, hI.callers_update hF, hI.partners, ?_, ?_, hI.jobNum, hI.returns,
    hI.unspawned, hI.partnerNum, hI.le_max⟩
  · simpa [(add_left_inj _).mp hF'] using hI.jobs
  · simpa [takenJobs, (add_left_inj _).mp hR] using hI.taken

/-- A caller at `p` moving on to `pc`, with the same job in flight and running. -/
theorem moveCaller {c : Fin n} {p pc : CallerPc} (hc : s.caller c = p)
    (hF : pc.Fits attr (s.pq.pc c) s.added s.pq.iread)
    (hin : ∀ q, pc.inflightJob q = p.inflightJob q) (hrun : pc.runningJob = p.runningJob) :
    PartnerInv attr (s.setCaller c pc) :=
  hI.setCaller hF (by rw [hc]; exact hin _) (by rw [hc]; exact hrun)

/-- A partner moving on without taking or finishing a job, with `partner_num` now `m`. -/
theorem setPartnerCount {p : Nat} (hp : p < s.spawned) {pc : PartnerPc} {m : Nat}
    (hF : pc.Fits attr (s.pq.pc (n + p)) s.pq.iread)
    (hrun : pc.runningJob = (s.partner p).runningJob)
    (hcount : m + (if (s.partner p).holdsCount then 1 else 0) =
      s.partnerNum + (if pc.holdsCount then 1 else 0))
    (hmax : m ≤ max attr.maxParallelism 1) :
    PartnerInv attr ((s.setPartnerNum m).setPartner p pc) := by
  have hR := runningJobs_add_partner (s := s) (t := (s.setPartnerNum m).setPartner p pc) hp rfl
    rfl fun p' h => by simp [update_of_ne h]
  have hH := holders_add (s := s) (t := (s.setPartnerNum m).setPartner p pc) hp rfl
    fun p' h => by simp [update_of_ne h]
  simp only [setPartner_partner, setPartnerNum_partner, update_self, hrun] at hR hH
  refine ⟨hI.queue, hI.callers, hI.partners_update hF, hI.jobs, ?_, hI.jobNum, hI.returns,
    hI.unspawned_update hp pc, ?_, hmax⟩
  · simpa [takenJobs, (add_left_inj _).mp hR] using hI.taken
  · simp only [setPartner_partnerNum, setPartnerNum_partnerNum]
    rw [hI.partnerNum] at hcount
    omega

/-- A partner moving on, `partner_num` and its count unchanged. -/
theorem setPartner {p : Nat} (hp : p < s.spawned) {pc : PartnerPc}
    (hF : pc.Fits attr (s.pq.pc (n + p)) s.pq.iread)
    (hrun : pc.runningJob = (s.partner p).runningJob)
    (hholds : pc.holdsCount = (s.partner p).holdsCount) :
    PartnerInv attr (s.setPartner p pc) :=
  hI.setPartnerCount hp hF hrun (by rw [hholds]) hI.le_max

/-- A compare-exchange of `try_add_partner` that adds a partner. -/
theorem casAdd_spawn (hmax : s.partnerNum + 1 ≤ max attr.maxParallelism 1) :
    PartnerInv attr s.casAdd.spawn := by
  have hR : runningJobs s.casAdd.spawn = runningJobs s := runningJobs_spawn s.casAdd
  have hH : holders s.casAdd.spawn = holders s + 1 := holders_spawn s.casAdd
  -- the new partner was in no call of `partner_q`
  have hidle : (s.pq.pc (n + s.spawned)).isIdle = true := by
    simpa [hI.unspawned _ le_rfl, PartnerPc.queueAgree] using (hI.partners s.spawned).agree
  refine ⟨hI.queue, ?_, ?_, hI.jobs, ?_, hI.jobNum, hI.returns, ?_, ?_, hmax⟩
  · exact hI.callers
  · simpa using hI.partners_update (p := s.spawned)
      (⟨hidle, rfl, fun _ h => by cases h⟩ : (PartnerPc.add .load).Fits attr _ s.pq.iread)
  · simpa [takenJobs, hR] using hI.taken
  · intro p hp
    simp only [spawn_spawned, casAdd_spawned] at hp
    simpa [update_of_ne (show p ≠ s.spawned by omega)] using hI.unspawned p (by omega)
  · simp [hH, hI.partnerNum]

/-- `submit`: the `fetch_add` counts a new job, which the caller holds until its push. -/
theorem submit {c : Fin n} (hc : s.caller c = .idle) (boost : Bool) :
    PartnerInv attr (s.countJob.setCaller c (.push s.added boost)) := by
  have hF := inflightJobs_add (s := s) (t := s.countJob.setCaller c (.push s.added boost))
    (c := c) fun c' h => by simp [update_of_ne h]
  have hR := runningJobs_add_caller (s := s) (t := s.countJob.setCaller c (.push s.added boost))
    (c := c) rfl rfl fun c' h => by simp [update_of_ne h]
  simp only [setCaller_caller, update_self, hc, CallerPc.inflightJob,
    CallerPc.runningJob, Option.toList_none, Option.toList_some, Multiset.coe_nil, add_zero,
    Multiset.coe_singleton] at hF hR
  have hidle : (s.pq.pc c).isIdle = true := by
    simpa [hc, CallerPc.queueAgree] using (hI.callers c).agree
  have hcallers := hI.callers_update (c := c)
    (⟨hidle, Nat.zero_le _, rfl, fun _ h => by cases h⟩ :
      (CallerPc.push s.added boost).Fits attr (s.pq.pc c) s.added s.pq.iread)
  refine ⟨hI.queue, fun c' => ((hcallers c').mono (Nat.le_succ _) le_rfl), hI.partners, ?_, ?_,
    ?_, hI.returns, hI.unspawned, hI.partnerNum, hI.le_max⟩
  · simp only [setCaller_hist, countJob_hist, setCaller_added, countJob_added, hF,
      Multiset.range_succ, ← hI.jobs, ← Multiset.singleton_add]
    abel
  · simpa [takenJobs, hR] using hI.taken
  · simp only [setCaller_jobNum, countJob_jobNum, setCaller_finished, countJob_finished,
      setCaller_added, countJob_added]
    have := hI.jobNum
    omega

/-- `done_one` by a caller: its job is finished and `job_num` drops. -/
theorem doneCaller {c : Fin n} {k : Nat} (hk : (s.caller c).runningJob = some k) {pc : CallerPc}
    (hF : pc.Fits attr (s.pq.pc c) s.added s.pq.iread)
    (hin : pc.inflightJob (s.pq.pc c) = (s.caller c).inflightJob (s.pq.pc c))
    (hrun : pc.runningJob = none) :
    PartnerInv attr ((s.doneJob k).setCaller c pc) := by
  have hF' := inflightJobs_add (s := s) (t := (s.doneJob k).setCaller c pc) (c := c)
    fun c' h => by simp [update_of_ne h]
  have hR := runningJobs_add_caller (s := s) (t := (s.doneJob k).setCaller c pc) (c := c) rfl rfl
    fun c' h => by simp [update_of_ne h]
  simp only [setCaller_caller, update_self, setCaller_pq, doneJob_pq, hin, hk, hrun,
    Option.toList_none, Option.toList_some, Multiset.coe_nil, add_zero,
    Multiset.coe_singleton] at hF' hR
  have hpos := hI.jobNum_pos (k := k) (by
    rw [← hR]
    exact Multiset.mem_add.mpr (.inr (Multiset.mem_singleton_self k)))
  refine ⟨hI.queue, hI.callers_update hF, hI.partners, ?_, ?_, ?_, hI.returns, hI.unspawned,
    hI.partnerNum, hI.le_max⟩
  · simpa [(add_left_inj _).mp hF'] using hI.jobs
  · have htaken := hI.taken
    unfold takenJobs at htaken ⊢
    simp only [setCaller_hist, doneJob_hist, setCaller_finished, doneJob_finished,
      ← Multiset.coe_add, Multiset.coe_singleton, htaken, ← hR]
    abel
  · simp only [setCaller_jobNum, doneJob_jobNum, setCaller_finished, doneJob_finished,
      List.length_append, List.length_singleton, setCaller_added, doneJob_added]
    have := hI.jobNum
    omega

/-- `done_one` by a partner: its job is finished and `job_num` drops. -/
theorem donePartner {p : Nat} (hp : p < s.spawned) {k : Nat}
    (hk : (s.partner p).runningJob = some k) {pc : PartnerPc}
    (hF : pc.Fits attr (s.pq.pc (n + p)) s.pq.iread) (hrun : pc.runningJob = none)
    (hholds : pc.holdsCount = (s.partner p).holdsCount) :
    PartnerInv attr ((s.doneJob k).setPartner p pc) := by
  have hR := runningJobs_add_partner (s := s) (t := (s.doneJob k).setPartner p pc) hp rfl rfl
    fun p' h => by simp [update_of_ne h]
  have hH := holders_add (s := s) (t := (s.doneJob k).setPartner p pc) hp rfl
    fun p' h => by simp [update_of_ne h]
  simp only [setPartner_partner, doneJob_partner, update_self, hk, hrun, hholds,
    Option.toList_none, Option.toList_some, Multiset.coe_nil, add_zero,
    Multiset.coe_singleton] at hR hH
  have hpos := hI.jobNum_pos (k := k) (by
    rw [← hR]
    exact Multiset.mem_add.mpr (.inr (Multiset.mem_singleton_self k)))
  refine ⟨hI.queue, hI.callers, hI.partners_update hF, hI.jobs, ?_, ?_, hI.returns,
    hI.unspawned_update hp pc, ?_, hI.le_max⟩
  · have htaken := hI.taken
    unfold takenJobs at htaken ⊢
    simp only [setPartner_hist, doneJob_hist, setPartner_finished, doneJob_finished,
      ← Multiset.coe_add, Multiset.coe_singleton, htaken, ← hR]
    abel
  · simp only [setPartner_jobNum, doneJob_jobNum, setPartner_finished, doneJob_finished,
      List.length_append, List.length_singleton, setPartner_added, doneJob_added]
    have := hI.jobNum
    omega
  · simp only [setPartner_partnerNum, doneJob_partnerNum, hI.partnerNum]
    omega

/-- `wait()` returns on `job_num` at zero: every job counted is finished. -/
theorem ret {c : Fin n} {since : Nat} (h0 : s.jobNum = 0)
    (hin : (s.caller c).inflightJob (s.pq.pc c) = none) (hrun : (s.caller c).runningJob = none)
    (hidle : (s.pq.pc c).isIdle = true) (hsince : since ≤ s.added) :
    PartnerInv attr (s.ret c since) := by
  have hI' := hI.setCaller (c := c)
    (⟨hidle, Nat.zero_le _, rfl, fun _ h => by cases h⟩ :
      CallerPc.idle.Fits attr (s.pq.pc c) s.added s.pq.iread) (by rw [hin]; rfl) (by rw [hrun]; rfl)
  refine ⟨hI'.queue, hI'.callers, hI'.partners, hI'.jobs, hI'.taken, hI'.jobNum, ?_,
    hI'.unspawned, hI'.partnerNum, hI'.le_max⟩
  intro r hr j hj
  simp only [ret_returns, List.mem_append, List.mem_singleton] at hr
  rcases hr with hr | rfl
  · exact hI.returns r hr j hj
  · exact hI.finished_of_jobNum h0 (Nat.lt_of_lt_of_le hj hsince)

/-! #### Steps in `partner_q` -/

/-- A step `a` of caller `c` in `partner_q`, after which the caller is at `pc`: the job it holds
and the job it runs move with what the step records. -/
theorem queueCaller {c : Fin n} {a : QAction Nat} (ha : a.thread = c) {q : MpmcQueue Nat}
    (hq : s.pq.step a = some q) {pc : CallerPc} (hF : pc.Fits attr (q.pc c) s.added q.iread)
    (hjobs : ((pc.inflightJob (q.pc c)).toList : Multiset Nat) +
        ((s.pq.record a s.hist).pushed : Multiset Nat) =
      ((s.caller c).inflightJob (s.pq.pc c)).toList + s.hist.pushed)
    (htaken : (((s.pq.record a s.hist).got.map Prod.snd).reduceOption : Multiset Nat) +
        ((s.caller c).runningJob.toList : Multiset Nat) =
      ((s.hist.got.map Prod.snd).reduceOption : Multiset Nat) + pc.runningJob.toList) :
    PartnerInv attr ((s.setQueue q (s.pq.record a s.hist)).setCaller c pc) := by
  -- the step moves no other thread of `partner_q`, and `iread_` only up
  have hpc : ∀ d : Nat, d ≠ c → q.pc d = s.pq.pc d := fun d hd => step_pc_of_ne hq (ha ▸ hd)
  have hread := step_iread_le hq
  have hF' := inflightJobs_add (s := s) (t := (s.setQueue q (s.pq.record a s.hist)).setCaller c pc)
    (c := c) fun c' h => by simp [update_of_ne h, hpc c' (Fin.val_ne_of_ne h)]
  have hR := runningJobs_add_caller (s := s)
    (t := (s.setQueue q (s.pq.record a s.hist)).setCaller c pc) (c := c) rfl rfl
    fun c' h => by simp [update_of_ne h]
  simp only [setCaller_caller, update_self, setCaller_pq, setQueue_pq] at hF' hR
  refine ⟨mpmcInv_step hI.queue hq, fun c' => ?_, fun p => ?_, ?_, ?_, hI.jobNum, hI.returns,
    hI.unspawned, hI.partnerNum, hI.le_max⟩
  · by_cases h : c' = c
    · subst h
      simpa using hF
    · simpa [update_of_ne h, hpc c' (Fin.val_ne_of_ne h)] using
        (hI.callers c').mono le_rfl hread
  · simpa [hpc (n + p) (partner_ne_caller c p)] using (hI.partners p).mono hread
  · exact account_add hF' hjobs hI.jobs
  · exact account_eq htaken hR hI.taken

/-- A step `a` of partner `p` in `partner_q`, after which the partner is at `pc`. -/
theorem queuePartner {p : Nat} (hp : p < s.spawned) {a : QAction Nat} (ha : a.thread = n + p)
    {q : MpmcQueue Nat} (hq : s.pq.step a = some q) {pc : PartnerPc}
    (hF : pc.Fits attr (q.pc (n + p)) q.iread) (hholds : pc.holdsCount = (s.partner p).holdsCount)
    (hpushed : (s.pq.record a s.hist).pushed = s.hist.pushed)
    (htaken : (((s.pq.record a s.hist).got.map Prod.snd).reduceOption : Multiset Nat) +
        ((s.partner p).runningJob.toList : Multiset Nat) =
      ((s.hist.got.map Prod.snd).reduceOption : Multiset Nat) + pc.runningJob.toList) :
    PartnerInv attr ((s.setQueue q (s.pq.record a s.hist)).setPartner p pc) := by
  have hpc : ∀ d : Nat, d ≠ n + p → q.pc d = s.pq.pc d := fun d hd =>
    step_pc_of_ne hq (ha ▸ hd)
  have hread := step_iread_le hq
  have hR := runningJobs_add_partner (s := s)
    (t := (s.setQueue q (s.pq.record a s.hist)).setPartner p pc) hp rfl rfl
    fun p' h => by simp [update_of_ne h]
  have hH := holders_add (s := s) (t := (s.setQueue q (s.pq.record a s.hist)).setPartner p pc)
    hp rfl fun p' h => by simp [update_of_ne h]
  simp only [setPartner_partner, setQueue_partner, update_self, hholds] at hR hH
  refine ⟨mpmcInv_step hI.queue hq, fun c => ?_, fun p' => ?_, ?_, ?_, hI.jobNum, hI.returns,
    hI.unspawned_update hp pc, ?_, hI.le_max⟩
  · simpa [hpc c (partner_ne_caller c p).symm] using (hI.callers c).mono le_rfl hread
  · by_cases h : p' = p
    · subst h
      simpa using hF
    · simpa [update_of_ne h, hpc (n + p') (by omega)] using (hI.partners p').mono hread
  · -- no caller moved in `partner_q`, and nothing was pushed
    have hF' : inflightJobs ((s.setQueue q (s.pq.record a s.hist)).setPartner p pc) =
        inflightJobs s := by
      unfold inflightJobs
      exact Finset.sum_congr rfl fun c _ => by
        simp [hpc c (partner_ne_caller c p).symm]
    simpa [hF', hpushed] using hI.jobs
  · exact account_eq htaken hR hI.taken
  · simp only [setPartner_partnerNum, setQueue_partnerNum, hI.partnerNum]
    omega

/-- A step of submitter `c` in the `try_push` of its job `j`: it stays in the call, or goes on
to `trigger_partner` when the call returns `true`, or to `try_run` when it returns `false`. -/
theorem callerPush {c : Fin n} {j : Nat} {boost : Bool} (hc : s.caller c = .pushing j boost)
    {q : MpmcQueue Nat} (hq : s.pq.step (.resume c) = some q) :
    PartnerInv attr ((s.setQueue q (s.pq.record (.resume c) s.hist)).setCaller c
      (if (q.pc c).isIdle then (if (q.ret c).getD false then .add boost .load else .pushRun j boost)
        else s.caller c)) := by
  have hag : (s.pq.pc c).pushes j = true := by
    simpa [hc, CallerPc.queueAgree] using (hI.callers c).agree
  obtain ⟨-, ⟨hpush, hcase⟩ | ⟨hidle, hret, hrec, -⟩⟩ := resume_of_pushes s.hist hag hq
  · -- still in `try_push`: the job leaves the caller when the compare-exchange claims an index
    rw [if_neg (by simp [QPc.isIdle_of_pushes hpush]), hc]
    refine hI.queueCaller rfl hq ⟨by simpa [CallerPc.queueAgree] using hpush, Nat.zero_le _, rfl,
      fun _ h => by cases h⟩ ?_ ?_
    · rcases hcase with ⟨hrec, -, hcl⟩ | ⟨hrec, -, hcl, hcl'⟩
      · simp [hrec, hc, CallerPc.inflightJob, hcl]
      · simp [hrec, hc, CallerPc.inflightJob, hcl, hcl', add_comm, ← Multiset.coe_add]
    · rcases hcase with ⟨hrec, -⟩ | ⟨hrec, -⟩ <;> simp [hrec, hc, CallerPc.runningJob]
  · -- `try_push` returned: `true` after the claim, `false` before it
    have hF : ∀ pc : CallerPc, pc.queueAgree .idle = true → pc.since = 0 →
        pc.prefixOk attr = true → pc.head = none → pc.Fits attr (q.pc c) s.added q.iread :=
      fun pc h₁ h₂ h₃ h₄ => by rw [hidle]; exact CallerPc.Fits.of_idle h₁ (by omega) h₃ h₄
    rw [if_pos (by simp [hidle, QPc.isIdle]), hret, Option.getD_some]
    cases hcl : (s.pq.pc c).claimed
    · refine hI.queueCaller rfl hq (hF _ rfl rfl rfl rfl) ?_ ?_ <;>
        simp [hrec, hc, CallerPc.inflightJob, CallerPc.runningJob, hcl]
    · refine hI.queueCaller rfl hq (hF _ rfl rfl rfl rfl) ?_ ?_ <;>
        simp [hrec, hc, CallerPc.inflightJob, CallerPc.runningJob, hcl]

/-- A step of caller `c` at `P` in the `try_pop` of a `try_run`, which takes its job to `took`
and goes on at `empty` when the pop fails. -/
theorem callerPop {c : Fin n} {P empty : CallerPc} {took : Nat → CallerPc} (hc : s.caller c = P)
    (hP : ∀ q, P.queueAgree q = q.pops) (hPin : ∀ q q', P.inflightJob q = P.inflightJob q')
    (hPrun : P.runningJob = none)
    (htook : ∀ k, (∀ q, (took k).inflightJob q = P.inflightJob q) ∧
      (took k).runningJob = some k ∧ (took k).queueAgree .idle = true ∧
      (took k).since = P.since ∧ (took k).prefixOk attr = true ∧ (took k).head = none)
    (hempty : (∀ q, empty.inflightJob q = P.inflightJob q) ∧ empty.runningJob = none ∧
      empty.queueAgree .idle = true ∧ empty.since = P.since ∧ empty.prefixOk attr = true ∧
      empty.head = none)
    {q : MpmcQueue Nat} (hq : s.pq.step (.resume c) = some q) :
    PartnerInv attr ((s.setQueue q (s.pq.record (.resume c) s.hist)).setCaller c
      (if (q.pc c).isIdle then popNext took empty ((q.ret c).getD false) (q.result c)
        else s.caller c)) := by
  subst hc
  have hF := hI.callers c
  have hpops : (s.pq.pc c).pops = true := by rw [← hP]; exact hF.agree
  obtain ⟨hpushed, ⟨hpc, hpop, hgot⟩ | ⟨hidle, ⟨hpc, hgot⟩ | ⟨k, hpc, hgot⟩⟩⟩ :=
    popStep hpops hq (s.caller c) empty took
  · -- still in `try_pop`
    rw [hpc]
    refine hI.queueCaller rfl hq ⟨by rw [hP]; exact hpop, hF.since_le, hF.prefixOk,
      fun h hh => (hF.head_le h hh).trans (step_iread_le hq)⟩ ?_ ?_
    · rw [hpushed, hPin (q.pc c) (s.pq.pc c)]
    · rw [hgot]
  · -- the pop failed
    obtain ⟨hin, hrun, h₁, h₂, h₃, h₄⟩ := hempty
    have hF' : empty.Fits attr (q.pc c) s.added q.iread := by
      rw [hidle]
      exact CallerPc.Fits.of_idle h₁ (h₂ ▸ hF.since_le) h₃ h₄
    rw [hpc]
    refine hI.queueCaller rfl hq hF' ?_ ?_
    · rw [hpushed, hin, hPin _ (s.pq.pc c)]
    · rw [hgot, hrun, hPrun]
  · -- the caller took job `k`
    obtain ⟨hin, hrun, h₁, h₂, h₃, h₄⟩ := htook k
    have hF' : (took k).Fits attr (q.pc c) s.added q.iread := by
      rw [hidle]
      exact CallerPc.Fits.of_idle h₁ (h₂ ▸ hF.since_le) h₃ h₄
    rw [hpc]
    refine hI.queueCaller rfl hq hF' ?_ ?_
    · rw [hpushed, hin, hPin _ (s.pq.pc c)]
    · simp [hgot, hrun, hPrun, ← Multiset.coe_add]

/-- A step of partner `p` in the `try_pop` of its `try_run`: it runs the job it took, or gives
its count back when the pop fails. -/
theorem partnerPop {p : Nat} (hp : p < s.spawned) (hc : s.partner p = .popping)
    {q : MpmcQueue Nat} (hq : s.pq.step (.resume (n + p)) = some q) :
    PartnerInv attr ((s.setQueue q (s.pq.record (.resume (n + p)) s.hist)).setPartner p
      (if (q.pc (n + p)).isIdle then
        popNext .job .sub ((q.ret (n + p)).getD false) (q.result (n + p))
      else s.partner p)) := by
  have hpops : (s.pq.pc (n + p)).pops = true := by
    simpa [hc, PartnerPc.queueAgree] using (hI.partners p).agree
  rw [hc]
  obtain ⟨hpushed, ⟨hpc, hpop, hgot⟩ | ⟨hidle, ⟨hpc, hgot⟩ | ⟨k, hpc, hgot⟩⟩⟩ :=
    popStep hpops hq PartnerPc.popping PartnerPc.sub PartnerPc.job
  · rw [hpc]
    exact hI.queuePartner hp rfl hq ⟨by simpa [PartnerPc.queueAgree] using hpop, rfl,
      fun _ h => by cases h⟩ (by rw [hc]) hpushed (by rw [hgot, hc])
  · rw [hpc]
    exact hI.queuePartner hp rfl hq (by rw [hidle]; exact PartnerPc.Fits.of_idle rfl rfl rfl)
      (by rw [hc]; rfl) hpushed (by rw [hgot, hc]; rfl)
  · rw [hpc]
    exact hI.queuePartner hp rfl hq (by rw [hidle]; exact PartnerPc.Fits.of_idle rfl rfl rfl)
      (by rw [hc]; rfl) hpushed (by simp [hgot, hc, PartnerPc.runningJob, ← Multiset.coe_add])

end PartnerInv

/-- A caller's step keeps the invariant. -/
theorem partnerInv_callerStep (hI : PartnerInv attr s) {c : Fin n}
    (hs : callerStep attr s c = some t) : PartnerInv attr t := by
  have hF := hI.callers c
  unfold callerStep at hs
  split at hs
  next => cases hs
  next j boost hc =>
    -- `push<1>`'s `try_push` loads `iwrite_`
    obtain ⟨u, hu, rfl⟩ := Option.map_eq_some_iff.mp hs
    obtain ⟨q, hq, rfl⟩ := queueStep_eq_some hu
    have hpc := (step_tryPush hq).1
    rw [hc] at hF
    refine hI.queueCaller rfl hq ⟨by simp [hpc, CallerPc.queueAgree, QPc.pushes], Nat.zero_le _,
      rfl, fun _ h => by cases h⟩ ?_ ?_ <;>
      simp [hpc, hc, CallerPc.inflightJob, CallerPc.runningJob, QPc.claimed, MpmcQueue.record]
  next j boost hc =>
    obtain ⟨q, hq, rfl⟩ := callerQueue_eq_some hs
    exact hI.callerPush hc hq
  next j boost hc =>
    -- `try_run`'s `try_pop` loads `iread_`
    obtain ⟨u, hu, rfl⟩ := Option.map_eq_some_iff.mp hs
    obtain ⟨q, hq, rfl⟩ := queueStep_eq_some hu
    have hpc := (step_tryPop hq).1
    refine hI.queueCaller rfl hq ⟨by simp [hpc, CallerPc.queueAgree, QPc.pops], Nat.zero_le _,
      rfl, fun _ h => by cases h⟩ ?_ ?_ <;>
      simp [hc, CallerPc.inflightJob, CallerPc.runningJob, MpmcQueue.record]
  next j boost hc =>
    obtain ⟨q, hq, rfl⟩ := callerQueue_eq_some hs
    refine hI.callerPop hc ?_ ?_ ?_ ?_ ?_ hq
    exacts [fun _ => rfl, fun _ _ => rfl, rfl, fun _ => ⟨fun _ => rfl, rfl, rfl, rfl, rfl, rfl⟩,
      ⟨fun _ => rfl, rfl, rfl, rfl, rfl, rfl⟩]
  next boost a hc =>
    cases hs
    rw [hc] at hF
    unfold callerAdd
    split
    next a' hstep =>
      obtain ⟨hpre, hhead⟩ := addStep_cont hstep hF.prefixOk
      exact hI.moveCaller hc ⟨hF.agree, Nat.zero_le _, hpre, hhead⟩ (fun _ => rfl) rfl
    next hstep =>
      -- the compare-exchange won: `add_partner`
      have hI' := hI.casAdd_spawn (addStep_done_true hstep hF.prefixOk)
      exact hI'.setCaller ⟨hF.agree, Nat.zero_le _, rfl, fun _ h => by cases h⟩
        (by simp [hc, CallerPc.inflightJob]) (by simp [hc, CallerPc.runningJob])
    next =>
      exact hI.moveCaller hc ⟨hF.agree, Nat.zero_le _, rfl, fun _ h => by cases h⟩ (fun _ => rfl)
        rfl
  next k r hc =>
    cases hs
    rw [hc] at hF
    have hq := QPc.eq_idle (show (s.pq.pc c).isIdle = true from hF.agree)
    have hk : (s.caller c).runningJob = some k := by rw [hc]; rfl
    split
    · exact hI.doneCaller hk (by rw [hq]; exact CallerRet.notify_fits hF.since_le)
        (by rw [hc]; exact r.notify_inflightJob k _) rfl
    · exact hI.doneCaller hk (by rw [hq]; exact CallerRet.resume_fits hF.since_le)
        (by rw [hc]; exact r.resume_inflightJob k _) (by cases r <;> rfl)
  next r hc =>
    cases hs
    rw [hc] at hF
    have hq := QPc.eq_idle (show (s.pq.pc c).isIdle = true from hF.agree)
    have hrun : (CallerPc.notify r).since = (CallerPc.run 0 r).since := by cases r <;> rfl
    exact (hI.setMasterWait 0).moveCaller hc
      (by rw [setMasterWait_pq, hq]; exact CallerRet.resume_fits (hrun ▸ hF.since_le))
      (fun q => by rw [r.resume_inflightJob 0, r.notify_inflightJob 0]) (by cases r <;> rfl)
  next since help a hc =>
    cases hs
    rw [hc] at hF
    unfold callerAdd
    have hdone : (if help then CallerPc.waitRun since help else .waitCheck since help).Fits attr
        (s.pq.pc c) s.added s.pq.iread := by
      split
      · exact ⟨hF.agree, hF.since_le, rfl, fun _ h => by cases h⟩
      · exact ⟨hF.agree, hF.since_le, rfl, fun _ h => by cases h⟩
    split
    next a' hstep =>
      obtain ⟨hpre, hhead⟩ := addStep_cont hstep hF.prefixOk
      exact hI.moveCaller hc ⟨hF.agree, hF.since_le, hpre, hhead⟩ (fun _ => rfl) rfl
    next hstep =>
      have hI' := hI.casAdd_spawn (addStep_done_true hstep hF.prefixOk)
      exact hI'.setCaller hdone (by simp only [spawn_caller, casAdd_caller, hc]; split <;> rfl)
        (by simp only [spawn_caller, casAdd_caller, hc]; split <;> rfl)
    next =>
      exact hI.moveCaller hc hdone (fun _ => by split <;> rfl) (by split <;> rfl)
  next since help hc =>
    obtain ⟨u, hu, rfl⟩ := Option.map_eq_some_iff.mp hs
    obtain ⟨q, hq, rfl⟩ := queueStep_eq_some hu
    have hpc := (step_tryPop hq).1
    rw [hc] at hF
    refine hI.queueCaller rfl hq ⟨by simp [hpc, CallerPc.queueAgree, QPc.pops], hF.since_le,
      rfl, fun _ h => by cases h⟩ ?_ ?_ <;>
      simp [hc, CallerPc.inflightJob, CallerPc.runningJob, MpmcQueue.record]
  next since help hc =>
    obtain ⟨q, hq, rfl⟩ := callerQueue_eq_some hs
    refine hI.callerPop hc ?_ ?_ ?_ ?_ ?_ hq
    exacts [fun _ => rfl, fun _ _ => rfl, rfl, fun _ => ⟨fun _ => rfl, rfl, rfl, rfl, rfl, rfl⟩,
      ⟨fun _ => rfl, rfl, rfl, rfl, rfl, rfl⟩]
  next since help hc =>
    rw [hc] at hF
    split at hs
    · cases hs
      rename_i h0
      exact hI.ret h0 (by rw [hc]; rfl) (by rw [hc]; rfl) hF.agree hF.since_le
    · cases hs
      exact hI.moveCaller hc ⟨hF.agree, hF.since_le, rfl, fun _ h => by cases h⟩
        (fun _ => rfl) rfl
  next since help hc =>
    cases hs
    rw [hc] at hF
    exact (hI.setMasterWait 1).moveCaller hc ⟨hF.agree, hF.since_le, rfl, fun _ h => by cases h⟩
      (fun _ => rfl) rfl
  next since help hc =>
    cases hs
    rw [hc] at hF
    refine hI.moveCaller hc ?_ (fun _ => by split <;> (try split) <;> rfl)
      (by split <;> (try split) <;> rfl)
    split <;> (try split) <;> exact ⟨hF.agree, hF.since_le, rfl, fun _ h => by cases h⟩
  next since help hc =>
    cases hs
    rw [hc] at hF
    exact hI.moveCaller hc ⟨hF.agree, hF.since_le, rfl, fun _ h => by cases h; exact le_rfl⟩
      (fun _ => rfl) rfl
  next since help head hc =>
    cases hs
    rw [hc] at hF
    refine hI.moveCaller hc ?_ (fun _ => by split <;> rfl) (by split <;> rfl)
    split <;> exact ⟨hF.agree, hF.since_le, rfl, fun _ h => by cases h⟩
  next since help hc =>
    rw [hc] at hF
    split at hs
    · cases hs
    · cases hs
      exact hI.moveCaller hc ⟨hF.agree, hF.since_le, rfl, fun _ h => by cases h⟩
        (fun _ => rfl) rfl
  next since help hc =>
    cases hs
    rw [hc] at hF
    exact (hI.setMasterWait 0).moveCaller hc ⟨hF.agree, hF.since_le, rfl, fun _ h => by cases h⟩
      (fun _ => rfl) rfl

/-- A partner's step keeps the invariant. -/
theorem partnerInv_partnerStep (hI : PartnerInv attr s) {p : Nat}
    (hs : partnerStep attr s p = some t) : PartnerInv attr t := by
  unfold partnerStep at hs
  split at hs
  · cases hs
  rename_i hp
  replace hp : p < s.spawned := by omega
  have hF := hI.partners p
  split at hs
  next a hc =>
    cases hs
    rw [hc] at hF
    unfold partnerAdd
    split
    next a' hstep =>
      obtain ⟨hpre, hhead⟩ := addStep_cont hstep hF.prefixOk
      exact hI.setPartner hp ⟨by rw [hc] at *; exact hF.agree, hpre, hhead⟩ (by rw [hc]; rfl)
        (by rw [hc]; rfl)
    next hstep =>
      -- the compare-exchange won: `add_partner`, and the partner goes on to `try_run`
      have hI' := hI.casAdd_spawn (addStep_done_true hstep hF.prefixOk)
      have hold : s.casAdd.spawn.partner p = s.partner p := update_of_ne hp.ne _ _
      exact hI'.setPartner (by simp; omega) ⟨hF.agree, rfl, fun _ h => by cases h⟩
        (by rw [hold, hc]; rfl) (by rw [hold, hc]; rfl)
    next =>
      exact hI.setPartner hp ⟨hF.agree, rfl, fun _ h => by cases h⟩ (by rw [hc]; rfl)
        (by rw [hc]; rfl)
  next hc =>
    obtain ⟨u, hu, rfl⟩ := Option.map_eq_some_iff.mp hs
    obtain ⟨q, hq, rfl⟩ := queueStep_eq_some hu
    have hpc := (step_tryPop hq).1
    exact hI.queuePartner hp rfl hq ⟨by simp [hpc, PartnerPc.queueAgree, QPc.pops], rfl,
      fun _ h => by cases h⟩ (by rw [hc]; rfl) rfl (by simp [hc, PartnerPc.runningJob, MpmcQueue.record])
  next hc =>
    obtain ⟨q, hq, rfl⟩ := partnerQueue_eq_some hs
    exact hI.partnerPop hp hc hq
  next k hc =>
    cases hs
    rw [hc] at hF
    have hk : (s.partner p).runningJob = some k := by rw [hc]; rfl
    split
    · exact hI.donePartner hp hk ⟨hF.agree, rfl, fun _ h => by cases h⟩ rfl (by rw [hc]; rfl)
    · exact hI.donePartner hp hk ⟨hF.agree, rfl, fun _ h => by cases h⟩ rfl (by rw [hc]; rfl)
  next hc =>
    cases hs
    rw [hc] at hF
    exact (hI.setMasterWait 0).setPartner hp ⟨hF.agree, rfl, fun _ h => by cases h⟩
      (by rw [setMasterWait_partner, hc]; rfl) (by rw [setMasterWait_partner, hc]; rfl)
  next hc =>
    cases hs
    rw [hc] at hF
    -- the partner gives its count back
    have hpos : 0 < s.partnerNum := hI.partnerNum_pos hp (by rw [hc]; rfl)
    have hnew : (if s.partnerNum - 1 = 0 ∧ 0 < attr.busy then PartnerPc.lastCas
        else .check).holdsCount = false := by
      split <;> rfl
    refine hI.setPartnerCount hp ?_ (by rw [hc]; split <;> rfl) ?_ (by have := hI.le_max; omega)
    · split <;> exact ⟨hF.agree, rfl, fun _ h => by cases h⟩
    · rw [hc, hnew]
      show s.partnerNum - 1 + 1 = s.partnerNum + 0
      omega
  next hc =>
    rw [hc] at hF
    split at hs
    · cases hs
      rename_i h0
      exact hI.setPartnerCount hp ⟨hF.agree, rfl, fun _ h => by cases h⟩ (by rw [hc]; rfl)
        (by rw [hc, h0]; simp [PartnerPc.holdsCount]) (by omega)
    · cases hs
      exact hI.setPartner hp ⟨hF.agree, rfl, fun _ h => by cases h⟩ (by rw [hc]; rfl)
        (by rw [hc]; rfl)
  next hc =>
    cases hs
    rw [hc] at hF
    exact hI.setPartner hp ⟨hF.agree, rfl, fun _ h => by cases h; exact le_rfl⟩ (by rw [hc]; rfl)
      (by rw [hc]; rfl)
  next head hc =>
    cases hs
    rw [hc] at hF
    refine hI.setPartner hp ?_ (by rw [hc]; split <;> rfl) (by rw [hc]; split <;> rfl)
    split <;> exact ⟨hF.agree, rfl, fun _ h => by cases h⟩
  next hc =>
    cases hs
    rw [hc] at hF
    have hpos : 0 < s.partnerNum := hI.partnerNum_pos hp (by rw [hc]; rfl)
    refine hI.setPartnerCount hp ⟨hF.agree, rfl, fun _ h => by cases h⟩ (by rw [hc]; rfl) ?_
      (by have := hI.le_max; omega)
    rw [hc]
    simp [PartnerPc.holdsCount]
    omega
  next hc =>
    cases hs
    rw [hc] at hF
    exact hI.setPartner hp ⟨hF.agree, rfl, fun _ h => by cases h; exact le_rfl⟩ (by rw [hc]; rfl)
      (by rw [hc]; rfl)
  next head hc =>
    cases hs
    rw [hc] at hF
    refine hI.setPartner hp ?_ (by rw [hc]; split <;> rfl) (by rw [hc]; split <;> rfl)
    split <;> exact ⟨hF.agree, rfl, fun _ h => by cases h⟩
  next a hc =>
    cases hs
    rw [hc] at hF
    unfold partnerAdd
    split
    next a' hstep =>
      obtain ⟨hpre, hhead⟩ := addStep_cont hstep hF.prefixOk
      exact hI.setPartner hp ⟨hF.agree, hpre, hhead⟩ (by rw [hc]; rfl) (by rw [hc]; rfl)
    next hstep =>
      -- the partner wins a count back and goes on
      exact hI.setPartnerCount (m := s.partnerNum + 1) hp ⟨hF.agree, rfl, fun _ h => by cases h⟩
        (by rw [hc]; rfl) (by rw [hc]; simp [PartnerPc.holdsCount])
        (addStep_done_true hstep hF.prefixOk)
    next =>
      exact hI.setPartner hp ⟨hF.agree, rfl, fun _ h => by cases h⟩ (by rw [hc]; rfl)
        (by rw [hc]; rfl)
  next hc => cases hs

/-- **Every step keeps the invariant.** -/
theorem partnerInv_step (hI : PartnerInv attr s) {a : PartnerAction n}
    (hs : step attr s a = some t) : PartnerInv attr t := by
  cases a with
  | submit c boost =>
      simp only [step] at hs
      split at hs
      · cases hs
        exact hI.submit ‹_› boost
      · cases hs
  | wait c help =>
      simp only [step] at hs
      split at hs
      · rename_i hc
        have hF := hI.callers c
        rw [hc] at hF
        split at hs
        · cases hs
          exact hI.ret ‹_› (by rw [hc]; rfl) (by rw [hc]; rfl) hF.agree le_rfl
        · cases hs
          exact hI.moveCaller hc ⟨hF.agree, le_rfl, rfl, fun _ h => by cases h⟩ (fun _ => rfl) rfl
      · cases hs
  | caller c => exact partnerInv_callerStep hI hs
  | partner p => exact partnerInv_partnerStep hI hs

theorem partnerInv_of_reach (hdepth : attr.depth ≤ 2 ^ 63) (h : Reach (step attr) (init attr) s) :
    PartnerInv attr s :=
  Invariant.reach (fun _ _ _ hI hs => partnerInv_step hI hs) (partnerInv_init hdepth) h

end JobPartner

end Ffrt.Pattern
