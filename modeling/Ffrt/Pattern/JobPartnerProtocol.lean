import Ffrt.Pattern.JobPartnerAccounts

/-!
# Pattern — job_partner never strands its queue

With `max_parallelism ≥ 1`, as the attribute's documentation asks, `partner_q` holding more
than the threshold with no partner always has a thread that will still test it (`RespInv`): a
submitter whose `try_push` has claimed an index, or that is in `trigger_partner` with no partner
read, or a partner that gave its count back and tests the queue before it exits.  Such a thread
either reads a partner, or adds one: its `size()` reads an `iread_` at most the current one, so
it sees at least the jobs the premise counts, and the bound on no partner is at most the
threshold (`addStep_responds`).  No such thread is left in a state where no submitter is inside
`submit` and every partner has exited.

* `jobPartner_of_reach`: job_partner's accounts (`PartnerInv`) and this, over every run.
-/

namespace Ffrt.Pattern

open Function Machine MpmcQueue

/-- A `try_add_partner` that will still add when it sees the queue above the threshold: it read
no partner, or has not read one yet. -/
def AddPc.willAdd : AddPc → Bool
  | .load | .test 0 | .size 0 _ | .cas 0 => true
  | _ => false

/-- A submitter that will still read `partner_num` and test `partner_q`: its `try_push` has
claimed an index, or it is in `trigger_partner` with no partner read. -/
def CallerPc.willAdd (q : QPc Nat) : CallerPc → Bool
  | .pushing .. => q.claimed
  | .add _ a => a.willAdd
  | _ => false

/-- A partner that gave its count back and will still test `partner_q` before it exits. -/
def PartnerPc.willAdd : PartnerPc → Bool
  | .lastCas | .check | .checkSize _ => true
  | .retry a => a.willAdd
  | _ => false

/-- What a step of `try_add_partner` by a thread that will still add leads to, on `pn`
partners: a place where it still will, or `partner_num` nonzero, or a partner added. -/
def AddNext.Responds (pn : Nat) : AddNext → Prop
  | .cont a => a.willAdd = true ∨ pn ≠ 0
  | .done added => added = true

variable {attr : JobPartnerAttr}

/-- With no partner read, the bound `size()` must exceed is at most the threshold. -/
theorem JobPartnerAttr.addBound_zero_le (boost : Bool) : attr.addBound boost 0 ≤ attr.threshold := by
  unfold JobPartnerAttr.addBound
  split
  · rw [Nat.zero_mul, Nat.zero_add]
    exact Nat.mod_le _ _
  · exact le_rfl

/-- **A thread that will still add does.**  With a partner allowed and the queue above the
threshold at indices `ir` and `iw`, a step of `try_add_partner` on no partner read goes on to a
place where it still will, finds a partner, or adds one: the test passes on `wn = 0`, and the
`iread_` its `size()` read is at most `ir`. -/
theorem addStep_responds (hmax : 1 ≤ attr.maxParallelism) {boost : Bool} {pn ir iw : Nat}
    {a : AddPc} (ha : a.willAdd = true) (hhead : ∀ hd, a.head = some hd → hd ≤ ir)
    (hsize : attr.threshold < iw - ir) : (addStep attr boost pn ir iw a).Responds pn := by
  cases a with
  | load => by_cases h0 : pn = 0 <;> simp [addStep, AddNext.Responds, AddPc.willAdd, h0]
  | test wn =>
      cases wn with
      | zero =>
          have hpre : attr.addPrefix boost 0 = true := by
            cases boost <;> simp [JobPartnerAttr.addPrefix]
            omega
          simp [addStep, hpre, AddNext.Responds, AddPc.willAdd]
      | succ => cases ha
  | size wn head =>
      cases wn with
      | zero =>
          have hb : attr.addBound boost 0 ≤ attr.threshold := JobPartnerAttr.addBound_zero_le boost
          have hh := hhead head rfl
          have hlt : attr.addBound boost 0 < iw - head := by omega
          simp [addStep, hlt, AddNext.Responds, AddPc.willAdd]
      | succ => cases ha
  | cas wn =>
      cases wn with
      | zero => by_cases h0 : pn = 0 <;> simp [addStep, AddNext.Responds, AddPc.willAdd, h0]
      | succ => cases ha

namespace JobPartner

variable {n : Nat} {s t : JobPartner n}

/-! ### No queue is left above the threshold without a partner -/

/-- A queue above the threshold with no partner has a submitter or a partner that will still
test it. -/
def RespInv (attr : JobPartnerAttr) (s : JobPartner n) : Prop :=
  s.partnerNum = 0 → attr.threshold < s.size →
    (∃ c, (s.caller c).willAdd (s.pq.pc c) = true) ∨ ∃ p < s.spawned, (s.partner p).willAdd = true

theorem respInv_init : RespInv attr (init attr : JobPartner n) := by
  intro _ h
  simp [init, size, MpmcQueue.new] at h

namespace RespInv

/-- The stepping caller itself will test the queue. -/
theorem of_caller {c : Fin n} (h : (t.caller c).willAdd (t.pq.pc c) = true) : RespInv attr t :=
  fun _ _ => .inl ⟨c, h⟩

theorem of_partner {p : Nat} (hp : p < t.spawned) (h : (t.partner p).willAdd = true) :
    RespInv attr t :=
  fun _ _ => .inr ⟨p, hp, h⟩

/-- A partner was counted: `partner_num` is not zero. -/
theorem of_pos (h : t.partnerNum ≠ 0) : RespInv attr t := fun h0 => absurd h0 h

theorem of_le (h : t.size ≤ attr.threshold) : RespInv attr t :=
  fun _ hth => absurd hth (by omega)

variable (hR : RespInv attr s)
include hR

/-- A caller that was not going to test the queue moved, moving no other thread; whatever else
changed did not make the queue longer or `partner_num` zero. -/
theorem caller_not {c : Fin n} (hnot : (s.caller c).willAdd (s.pq.pc c) = false)
    (hc : ∀ c', c' ≠ c → (t.caller c').willAdd (t.pq.pc c') = (s.caller c').willAdd (s.pq.pc c'))
    (hp : t.partner = s.partner) (hsp : t.spawned = s.spawned)
    (hprem : t.partnerNum = 0 → attr.threshold < t.size →
      s.partnerNum = 0 ∧ attr.threshold < s.size) : RespInv attr t := by
  intro h0 hth
  obtain ⟨c', hc'⟩ | ⟨p, hp', hw⟩ := hR (hprem h0 hth).1 (hprem h0 hth).2
  · have hne : c' ≠ c := by
      rintro rfl
      rw [hnot] at hc'
      cases hc'
    exact .inl ⟨c', by rw [hc c' hne]; exact hc'⟩
  · exact .inr ⟨p, hsp ▸ hp', by rw [hp]; exact hw⟩

/-- A partner that was not going to test the queue moved, moving no other thread. -/
theorem partner_not {p : Nat} (hnot : (s.partner p).willAdd = false)
    (hc : ∀ c, (t.caller c).willAdd (t.pq.pc c) = (s.caller c).willAdd (s.pq.pc c))
    (hp : ∀ p', p' ≠ p → t.partner p' = s.partner p') (hsp : t.spawned = s.spawned)
    (hprem : t.partnerNum = 0 → attr.threshold < t.size →
      s.partnerNum = 0 ∧ attr.threshold < s.size) : RespInv attr t := by
  intro h0 hth
  obtain ⟨c, hc'⟩ | ⟨p', hp', hw⟩ := hR (hprem h0 hth).1 (hprem h0 hth).2
  · exact .inl ⟨c, by rw [hc c]; exact hc'⟩
  · have hne : p' ≠ p := by
      rintro rfl
      rw [hnot] at hw
      cases hw
    exact .inr ⟨p', hsp ▸ hp', by rw [hp p' hne]; exact hw⟩

/-- A caller that was not going to test the queue moved on in `u`, which changes nothing
else that counts. -/
theorem setCaller_not {c : Fin n} (hnot : (s.caller c).willAdd (s.pq.pc c) = false)
    {u : JobPartner n} (hu : u.caller = s.caller) (hq : u.pq = s.pq) (hp : u.partner = s.partner)
    (hsp : u.spawned = s.spawned) (hpn : u.partnerNum = s.partnerNum) (pc : CallerPc) :
    RespInv attr (u.setCaller c pc) :=
  hR.caller_not hnot (fun c' h => by simp [hu, hq, update_of_ne h]) hp hsp
    (fun h0 hth => ⟨hpn ▸ h0, by simpa [size, hq] using hth⟩)

/-- A partner that was not going to test the queue moved on in `u`, which changes nothing else
that counts. -/
theorem setPartner_not {p : Nat} (hnot : (s.partner p).willAdd = false) {u : JobPartner n}
    (hu : u.caller = s.caller) (hq : u.pq = s.pq) (hp : u.partner = s.partner)
    (hsp : u.spawned = s.spawned) (hpn : u.partnerNum = s.partnerNum) (pc : PartnerPc) :
    RespInv attr (u.setPartner p pc) :=
  hR.partner_not hnot (fun c => by simp [hu, hq]) (fun p' h => by simp [hp, update_of_ne h])
    hsp (fun h0 hth => ⟨hpn ▸ h0, by simpa [size, hq] using hth⟩)

/-- A step `a` of a thread of `partner_q` that moved none of the callers' places there and did
not make the queue longer. -/
theorem queue_not {c : Fin n} (hnot : (s.caller c).willAdd (s.pq.pc c) = false)
    {a : QAction Nat} (ha : a.thread = c) {q : MpmcQueue Nat} (hq : s.pq.step a = some q)
    (hw : q.iwrite = s.pq.iwrite) (pc : CallerPc) :
    RespInv attr ((s.setQueue q (s.pq.record a s.hist)).setCaller c pc) := by
  have hr := step_iread_le hq
  refine hR.caller_not hnot (fun c' h => ?_) rfl rfl fun h0 hth => ⟨h0, ?_⟩
  · simp [update_of_ne h, step_pc_of_ne hq (ha ▸ Fin.val_ne_of_ne h)]
  · simp only [size, setCaller_pq, setQueue_pq, hw] at hth ⊢
    omega

theorem queuePartner_not {p : Nat} (hnot : (s.partner p).willAdd = false) {a : QAction Nat}
    (ha : a.thread = n + p) {q : MpmcQueue Nat} (hq : s.pq.step a = some q)
    (hw : q.iwrite = s.pq.iwrite) (pc : PartnerPc) :
    RespInv attr ((s.setQueue q (s.pq.record a s.hist)).setPartner p pc) := by
  have hr := step_iread_le hq
  refine hR.partner_not hnot (fun c => ?_) (fun p' h => by simp [update_of_ne h]) rfl
    fun h0 hth => ⟨h0, ?_⟩
  · simp [step_pc_of_ne hq (ha ▸ (partner_ne_caller c p).symm)]
  · simp only [size, setPartner_pq, setQueue_pq, hw] at hth ⊢
    omega

end RespInv

section Resp

variable (hmax : 1 ≤ attr.maxParallelism)
include hmax

/-- A caller's step keeps `RespInv`. -/
theorem respInv_callerStep (hI : PartnerInv attr s) (hR : RespInv attr s) {c : Fin n}
    (hs : callerStep attr s c = some t) : RespInv attr t := by
  have hF := hI.callers c
  unfold callerStep at hs
  split at hs
  next => cases hs
  next j boost hc =>
    obtain ⟨u, hu, rfl⟩ := Option.map_eq_some_iff.mp hs
    obtain ⟨q, hq, rfl⟩ := queueStep_eq_some hu
    exact hR.queue_not (by rw [hc]; rfl) rfl hq (step_tryPush hq).2.1 _
  next j boost hc =>
    -- the submitter's `try_push`: once it claims an index, it will test the queue
    obtain ⟨q, hq, rfl⟩ := callerQueue_eq_some hs
    have hag : (s.pq.pc c).pushes j = true := by
      simpa [hc, CallerPc.queueAgree] using hF.agree
    obtain ⟨-, ⟨hpush, hcase⟩ | ⟨hidle, hret, -, hw⟩⟩ := resume_of_pushes s.hist hag hq
    · rw [if_neg (by simp [QPc.isIdle_of_pushes hpush]), hc]
      rcases hcase with ⟨-, hw, hcl⟩ | ⟨-, -, -, hcl'⟩
      · cases hold : (s.pq.pc c).claimed
        · exact hR.queue_not (by simp [hc, CallerPc.willAdd, hold]) rfl hq hw _
        · exact RespInv.of_caller (c := c) (by simp [CallerPc.willAdd, hcl, hold])
      · exact RespInv.of_caller (c := c) (by simp [CallerPc.willAdd, hcl'])
    · rw [if_pos (by simp [hidle, QPc.isIdle]), hret, Option.getD_some]
      cases hold : (s.pq.pc c).claimed
      · exact hR.queue_not (by simp [hc, CallerPc.willAdd, hold]) rfl hq hw _
      · exact RespInv.of_caller (c := c) (by simp [CallerPc.willAdd, AddPc.willAdd])
  next j boost hc =>
    obtain ⟨u, hu, rfl⟩ := Option.map_eq_some_iff.mp hs
    obtain ⟨q, hq, rfl⟩ := queueStep_eq_some hu
    exact hR.queue_not (by rw [hc]; rfl) rfl hq (step_tryPop hq).2.1 _
  next j boost hc =>
    obtain ⟨q, hq, rfl⟩ := callerQueue_eq_some hs
    have hpops : (s.pq.pc c).pops = true := by simpa [hc, CallerPc.queueAgree] using hF.agree
    exact hR.queue_not (by rw [hc]; rfl) rfl hq (resume_of_pops s.hist hpops hq).1 _
  next boost a hc =>
    cases hs
    rw [hc] at hF
    unfold callerAdd
    by_cases ha : a.willAdd = true
    · -- the submitter will still add: it reads a partner, or adds one
      split
      next a' hstep =>
        intro h0 hth
        have hresp : (addStep attr boost s.partnerNum s.pq.iread s.pq.iwrite a).Responds
            s.partnerNum := addStep_responds hmax ha hF.head_le (by simpa [size] using hth)
        rw [hstep] at hresp
        rcases hresp with hw | hpn
        · exact .inl ⟨c, by simp [CallerPc.willAdd, hw]⟩
        · exact absurd (by simpa using h0) hpn
      next => exact RespInv.of_pos (by simp)
      next hstep =>
        intro h0 hth
        have hresp : (addStep attr boost s.partnerNum s.pq.iread s.pq.iwrite a).Responds
            s.partnerNum := addStep_responds hmax ha hF.head_le (by simpa [size] using hth)
        rw [hstep] at hresp
        cases hresp
    · have hnot : (s.caller c).willAdd (s.pq.pc c) = false := by
        simpa [hc, CallerPc.willAdd] using ha
      split
      · exact hR.setCaller_not hnot rfl rfl rfl rfl rfl _
      · exact RespInv.of_pos (by simp)
      · exact hR.setCaller_not hnot rfl rfl rfl rfl rfl _
  next k r hc =>
    cases hs
    exact hR.setCaller_not (u := s.doneJob k) (by rw [hc]; rfl) rfl rfl rfl rfl rfl _
  next r hc =>
    cases hs
    exact hR.setCaller_not (u := s.setMasterWait 0) (by rw [hc]; rfl) rfl rfl rfl rfl rfl _
  next since help a hc =>
    cases hs
    unfold callerAdd
    split
    · exact hR.setCaller_not (by rw [hc]; rfl) rfl rfl rfl rfl rfl _
    · exact RespInv.of_pos (by simp)
    · exact hR.setCaller_not (by rw [hc]; rfl) rfl rfl rfl rfl rfl _
  next since help hc =>
    obtain ⟨u, hu, rfl⟩ := Option.map_eq_some_iff.mp hs
    obtain ⟨q, hq, rfl⟩ := queueStep_eq_some hu
    exact hR.queue_not (by rw [hc]; rfl) rfl hq (step_tryPop hq).2.1 _
  next since help hc =>
    obtain ⟨q, hq, rfl⟩ := callerQueue_eq_some hs
    have hpops : (s.pq.pc c).pops = true := by simpa [hc, CallerPc.queueAgree] using hF.agree
    exact hR.queue_not (by rw [hc]; rfl) rfl hq (resume_of_pops s.hist hpops hq).1 _
  next since help hc =>
    split at hs
    · cases hs
      exact hR.setCaller_not (u := { s with returns := s.returns ++ [(since, s.finished)] })
        (by rw [hc]; rfl) rfl rfl rfl rfl rfl .idle
    · cases hs
      exact hR.setCaller_not (by rw [hc]; rfl) rfl rfl rfl rfl rfl _
  next since help hc =>
    cases hs
    exact hR.setCaller_not (u := s.setMasterWait 1) (by rw [hc]; rfl) rfl rfl rfl rfl rfl _
  next since help hc =>
    cases hs
    exact hR.setCaller_not (by rw [hc]; rfl) rfl rfl rfl rfl rfl _
  next since help hc =>
    cases hs
    exact hR.setCaller_not (by rw [hc]; rfl) rfl rfl rfl rfl rfl _
  next since help head hc =>
    cases hs
    exact hR.setCaller_not (by rw [hc]; rfl) rfl rfl rfl rfl rfl _
  next since help hc =>
    split at hs
    · cases hs
    · cases hs
      exact hR.setCaller_not (by rw [hc]; rfl) rfl rfl rfl rfl rfl _
  next since help hc =>
    cases hs
    exact hR.setCaller_not (u := s.setMasterWait 0) (by rw [hc]; rfl) rfl rfl rfl rfl rfl _

/-- A partner's step keeps `RespInv`. -/
theorem respInv_partnerStep (hI : PartnerInv attr s) (hR : RespInv attr s) {p : Nat}
    (hs : partnerStep attr s p = some t) : RespInv attr t := by
  unfold partnerStep at hs
  split at hs
  · cases hs
  rename_i hp
  replace hp : p < s.spawned := by omega
  have hF := hI.partners p
  split at hs
  next a hc =>
    cases hs
    unfold partnerAdd
    split
    · exact hR.setPartner_not (by rw [hc]; rfl) rfl rfl rfl rfl rfl _
    · exact RespInv.of_pos (by simp)
    · exact hR.setPartner_not (by rw [hc]; rfl) rfl rfl rfl rfl rfl _
  next hc =>
    obtain ⟨u, hu, rfl⟩ := Option.map_eq_some_iff.mp hs
    obtain ⟨q, hq, rfl⟩ := queueStep_eq_some hu
    exact hR.queuePartner_not (by rw [hc]; rfl) rfl hq (step_tryPop hq).2.1 _
  next hc =>
    obtain ⟨q, hq, rfl⟩ := partnerQueue_eq_some hs
    have hpops : (s.pq.pc (n + p)).pops = true := by
      simpa [hc, PartnerPc.queueAgree] using hF.agree
    exact hR.queuePartner_not (by rw [hc]; rfl) rfl hq (resume_of_pops s.hist hpops hq).1 _
  next k hc =>
    cases hs
    exact hR.setPartner_not (u := s.doneJob k) (by rw [hc]; rfl) rfl rfl rfl rfl rfl _
  next hc =>
    cases hs
    exact hR.setPartner_not (u := s.setMasterWait 0) (by rw [hc]; rfl) rfl rfl rfl rfl rfl _
  next hc =>
    -- the partner gave its count back: it tests the queue before it exits
    cases hs
    refine RespInv.of_partner (p := p) hp ?_
    simp only [setPartner_partner, update_self]
    split <;> rfl
  next hc =>
    split at hs
    · cases hs
      exact RespInv.of_pos (by simp)
    · cases hs
      exact RespInv.of_partner (p := p) hp (by simp [PartnerPc.willAdd])
  next hc =>
    cases hs
    exact hR.setPartner_not (by rw [hc]; rfl) rfl rfl rfl rfl rfl _
  next head hc =>
    cases hs
    exact hR.setPartner_not (by rw [hc]; rfl) rfl rfl rfl rfl rfl _
  next hc =>
    cases hs
    exact RespInv.of_partner (p := p) hp (by simp [PartnerPc.willAdd])
  next hc =>
    cases hs
    exact RespInv.of_partner (p := p) hp (by simp [PartnerPc.willAdd])
  next head hc =>
    cases hs
    rw [hc] at hF
    split
    · exact RespInv.of_partner (p := p) hp (by simp [PartnerPc.willAdd, AddPc.willAdd])
    · -- `size()` saw no job since `head`, so the queue is empty now
      rename_i hempty
      have hh := hF.head_le head rfl
      exact RespInv.of_le (by simp only [size, setPartner_pq]; omega)
  next a hc =>
    cases hs
    rw [hc] at hF
    unfold partnerAdd
    by_cases ha : a.willAdd = true
    · -- the partner will still add: it reads a partner, or wins a count back
      split
      next a' hstep =>
        intro h0 hth
        have hresp : (addStep attr true s.partnerNum s.pq.iread s.pq.iwrite a).Responds
            s.partnerNum := addStep_responds hmax ha hF.head_le (by simpa [size] using hth)
        rw [hstep] at hresp
        rcases hresp with hw | hpn
        · exact .inr ⟨p, by simpa using hp, by simp [PartnerPc.willAdd, hw]⟩
        · exact absurd (by simpa using h0) hpn
      next => exact RespInv.of_pos (by simp)
      next hstep =>
        intro h0 hth
        have hresp : (addStep attr true s.partnerNum s.pq.iread s.pq.iwrite a).Responds
            s.partnerNum := addStep_responds hmax ha hF.head_le (by simpa [size] using hth)
        rw [hstep] at hresp
        cases hresp
    · have hnot : (s.partner p).willAdd = false := by simpa [hc, PartnerPc.willAdd] using ha
      split
      · exact hR.setPartner_not hnot rfl rfl rfl rfl rfl _
      · exact RespInv.of_pos (by simp)
      · exact hR.setPartner_not hnot rfl rfl rfl rfl rfl _
  next hc => cases hs

theorem respInv_step (hI : PartnerInv attr s) (hR : RespInv attr s) {a : PartnerAction n}
    (hs : step attr s a = some t) : RespInv attr t := by
  cases a with
  | submit c boost =>
      simp only [step] at hs
      split at hs
      · cases hs
        exact hR.setCaller_not (u := s.countJob) (by rw [‹s.caller c = .idle›]; rfl) rfl rfl rfl
          rfl rfl _
      · cases hs
  | wait c help =>
      simp only [step] at hs
      split at hs
      · rename_i hc
        split at hs
        · cases hs
          exact hR.setCaller_not (u := { s with returns := s.returns ++ [(s.added, s.finished)] })
            (by rw [hc]; rfl) rfl rfl rfl rfl rfl .idle
        · cases hs
          exact hR.setCaller_not (by rw [hc]; rfl) rfl rfl rfl rfl rfl _
      · cases hs
  | caller c => exact respInv_callerStep hmax hI hR hs
  | partner p => exact respInv_partnerStep hmax hI hR hs

theorem respInv_of_reach (hdepth : attr.depth ≤ 2 ^ 63) (h : Reach (step attr) (init attr) s) :
    RespInv attr s := by
  -- induction on the run: a step keeps `RespInv` from a state that keeps the accounts
  induction h with
  | init => exact respInv_init
  | next a hr hs ih => exact respInv_step hmax (partnerInv_of_reach hdepth hr) ih hs

end Resp

/-- A submitter that will still test the queue is inside `submit`. -/
theorem CallerPc.submitting_of_willAdd {q : QPc Nat} {pc : CallerPc} (h : pc.willAdd q = true) :
    pc.submitting = true := by
  cases pc with
  | pushing j boost => rfl
  | add boost a => rfl
  | _ => cases h

/-- In a quiescent state no thread will still test the queue. -/
theorem Quiescent.not_willAdd (hq : Quiescent s) :
    ¬ ((∃ c, (s.caller c).willAdd (s.pq.pc c) = true) ∨
      ∃ p < s.spawned, (s.partner p).willAdd = true) := by
  rintro (⟨c, hc⟩ | ⟨p, hp, hw⟩)
  · have := hq.1 c
    rw [CallerPc.submitting_of_willAdd hc] at this
    cases this
  · rw [hq.2 p hp] at hw
    cases hw

/-- What job_partner's counters mean, in one state. -/
def Accounting (attr : JobPartnerAttr) (s : JobPartner n) : Prop :=
  -- every job counted is exactly once in flight, in `partner_q`, running or finished, and
  -- `job_num` counts the jobs not finished
  (inflightJobs s + (s.hist.unread : Multiset Nat) + runningJobs s + (s.finished : Multiset Nat) =
      Multiset.range s.added ∧
    s.jobNum + s.finished.length = s.added) ∧
  -- `partner_num` counts the partners holding a count, so no `fetch_sub` goes below zero, and
  -- is bounded
  (s.partnerNum = holders s ∧
    (∀ p < s.spawned, (s.partner p).holdsCount = true → 0 < s.partnerNum) ∧
    s.partnerNum ≤ max attr.maxParallelism 1) ∧
  -- no quiescent state leaves `partner_q` above the threshold without a partner
  (Quiescent s → s.partnerNum = 0 → s.size ≤ attr.threshold) ∧
  -- `wait()` returned only when every job counted before the call had finished
  (∀ r ∈ s.returns, ∀ j < r.1, j ∈ r.2)

/-- **job_partner keeps its accounts**, for any number of callers and any attributes with
`max_parallelism ≥ 1` and a `partner_q` depth that `align2n` does not wrap. -/
theorem jobPartner_of_reach {attr : JobPartnerAttr} (hmax : 1 ≤ attr.maxParallelism)
    (hdepth : attr.depth ≤ 2 ^ 63) {s : JobPartner n} (h : Reach (step attr) (init attr) s) :
    Accounting attr s := by
  have hI := partnerInv_of_reach hdepth h
  have hR := respInv_of_reach hmax hdepth h
  refine ⟨⟨hI.placed, hI.jobNum⟩, ⟨hI.partnerNum, fun p hp hh => hI.partnerNum_pos hp hh,
    hI.le_max⟩, fun hq h0 => ?_, hI.returns⟩
  by_contra hlen
  exact hq.not_willAdd (hR h0 (by omega))

/-- A `Boost` submit of job `0` adds partner `0`, which runs the job, stalls as the last
partner and exits; a `wait()` then returns at once. -/
theorem jobPartner_of_reach_stalled :
    1 ≤ JobPartnerAttr.default.maxParallelism ∧ JobPartnerAttr.default.depth ≤ 2 ^ 63 ∧
      ∃ s : JobPartner 2, Reach (step .default) (init .default) s ∧ s.spawned = 1 ∧
        s.finished = [0] ∧ s.returns = [(1, [0])] ∧ Quiescent s ∧ Accounting .default s := by
  have hrun : holdsAfter (step .default) (init .default : JobPartner 2)
      [.submit 0 true, .caller 0, .caller 0, .caller 0, .caller 0, .caller 0, .caller 0,
        .caller 0, .caller 0, .partner 0, .partner 0, .partner 0, .partner 0, .partner 0,
        .partner 0, .partner 0, .partner 0, .partner 0, .partner 0, .partner 0, .partner 0,
        .partner 0, .partner 0, .partner 0, .partner 0, .partner 0, .partner 0, .wait 1 true]
      (fun s => s.spawned = 1 ∧ s.finished = [0] ∧ s.returns = [(1, [0])] ∧ Quiescent s) =
        true := by
    decide +kernel
  obtain ⟨s, hreach, hsp, hfin, hret, hq⟩ := exists_of_holdsAfter _ hrun
  exact ⟨by decide, by decide, s, hreach, hsp, hfin, hret, hq,
    jobPartner_of_reach (by decide) (by decide) hreach⟩

end JobPartner

end Ffrt.Pattern
