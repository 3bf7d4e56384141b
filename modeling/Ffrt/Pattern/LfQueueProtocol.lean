import Ffrt.Pattern.LfQueue
import Ffrt.Support.Ring

/-!
# Pattern — the bounded lock-free queue, over every interleaving

What `mpmc_queue` keeps over every interleaving of any number of producers and consumers, the
`try_push` that fails on a slot it reads stale included.  A ghost (`Machine.ghost`) records the
run: the values whose index a `try_push`'s compare-exchange claimed, in index order, and each
index a `try_pop` read with what it read there.

Slot `k` is always at one place in the protocol, read off its `iwrite_exp` `e` (`SlotInv`):
below `iread_`, a consumer has claimed index `e` and not yet released the slot; between the
indices, index `e` is written, or its producer is about to write it; at or above `iwrite_`,
the slot waits for index `e`, its `iread_exp` the index before it there.  A thread's local
index is a value the global index had, and a check it passed still holds while the global
index has not moved (`PcInv`).

* `mpmcInv_step`: every step keeps `MpmcInv`, one lemma per place in the code.
* `mpmcQueue_of_reach`: on every run, `iread_ ≤ iwrite_ ≤ iread_ + capacity`; every value a
  `try_pop` read is the value pushed at the index it read, no index is read twice, and every
  index below `iread_` has been read or is being read; every value pushed at an index not yet
  claimed by a consumer is in its slot or about to be written there.
-/

namespace Ffrt.Pattern

open Machine

/-- What a run of an `mpmc_queue` has done: the values whose index a `try_push` claimed, in
index order, and each index a `try_pop` read, with the value it read there. -/
structure MpmcHist (α : Type) where
  pushed : List α
  got : List (Nat × Option α)

/-- The thread is about to write a slot or to read one. -/
def QPc.owns {α : Type} : QPc α → Bool
  | .pushStore _ _ | .popLoad _ => true
  | _ => false

theorem QPc.ne_popLoad {α : Type} {p : QPc α} (hp : p.owns = false) (i : Nat) : p ≠ .popLoad i := by
  rintro rfl
  cases hp

theorem QPc.ne_pushStore {α : Type} {p : QPc α} (hp : p.owns = false) (d : α) (i : Nat) :
    p ≠ .pushStore d i := by
  rintro rfl
  cases hp

/-- The thread is in `try_push` with `d`. -/
def QPc.pushes {α : Type} [DecidableEq α] (d : α) : QPc α → Bool
  | .pushCheck d' _ | .pushCas d' _ | .pushStore d' _ => d' == d
  | _ => false

/-- The thread is in `try_pop`. -/
def QPc.pops {α : Type} : QPc α → Bool
  | .popCheck _ | .popCas _ | .popLoad _ => true
  | _ => false

/-- The thread's `try_push` has claimed its index and not yet written it. -/
def QPc.claimed {α : Type} : QPc α → Bool
  | .pushStore _ _ => true
  | _ => false

theorem QPc.eq_idle {α : Type} {q : QPc α} (h : q.isIdle = true) : q = .idle := by
  cases q <;> first | rfl | cases h

/-- The thread that takes the step. -/
def QAction.thread {α : Type} : QAction α → Nat
  | .tryPush c _ | .tryPop c | .resume c => c

namespace MpmcQueue

variable {α : Type}

/-- The ghost's step: a `try_push` whose compare-exchange claims its index records its value;
a `try_pop` that reads its slot records the index and what it read. -/
def record (s : MpmcQueue α) : QAction α → MpmcHist α → MpmcHist α
  | .resume c, G =>
      match s.pc c with
      | .pushCas data iwrite =>
          if s.iwrite = iwrite then { G with pushed := G.pushed ++ [data] } else G
      | .popLoad iread => { G with got := G.got ++ [(iread, (s.slot iread).data)] }
      | _ => G
  | _, G => G

/-- The `iread_exp` of a slot waiting for index `e`: the index before `e` in the slot, or the
constructor's `-1` when `e` is the slot's first. -/
def prevRead (cap e : Nat) : Nat := if e < cap then 2 ^ 64 - 1 else e - cap

/-- Some consumer is about to read index `i`. -/
def Loads (pc : Nat → QPc α) (i : Nat) : Prop := ∃ c, pc c = .popLoad i

/-- Some producer is about to write index `i`. -/
def Stores (pc : Nat → QPc α) (i : Nat) : Prop := ∃ c d, pc c = .pushStore d i

/-- No two producers are about to write one index. -/
def StoreOnce (pc : Nat → QPc α) : Prop :=
  ∀ c c' d d' i, pc c = .pushStore d i → pc c' = .pushStore d' i → c = c'

/-- No two consumers are about to read one index. -/
def LoadOnce (pc : Nat → QPc α) : Prop := ∀ c c' i, pc c = .popLoad i → pc c' = .popLoad i → c = c'

/-- Slot `k`, holding `it`, in a queue of capacity `cap` with indices `W = iwrite_` and
`R = iread_`: where its `iwrite_exp` places it in the protocol. -/
structure SlotInv (cap W R : Nat) (pushed : List α) (pc : Nat → QPc α) (k : Nat) (it : Item α) :
    Prop where
  mod : it.iwriteExp % cap = k
  lower : W ≤ it.iwriteExp + cap
  upper : it.iwriteExp < R + cap
  /-- Claimed by a consumer that has not yet read it. -/
  taken : it.iwriteExp < R → it.ireadExp = it.iwriteExp ∧ it.data = pushed[it.iwriteExp]? ∧
    Loads pc it.iwriteExp
  /-- Claimed by a producer: written, or about to be. -/
  claimed : R ≤ it.iwriteExp → it.iwriteExp < W →
    (it.ireadExp = it.iwriteExp ∧ it.data = pushed[it.iwriteExp]?) ∨
      (it.ireadExp = prevRead cap it.iwriteExp ∧ Stores pc it.iwriteExp)
  /-- Waiting for a producer. -/
  free : W ≤ it.iwriteExp → it.ireadExp = prevRead cap it.iwriteExp

/-- What a thread's place in `try_push` or `try_pop` says of the queue. -/
def PcInv (s : MpmcQueue α) (G : MpmcHist α) : QPc α → Prop
  | .idle => True
  | .pushCheck _ iwrite => iwrite ≤ s.iwrite
  | .pushCas _ iwrite =>
      iwrite ≤ s.iwrite ∧ (iwrite = s.iwrite → (s.slot iwrite).iwriteExp = iwrite)
  | .pushStore data iwrite =>
      s.iread ≤ iwrite ∧ iwrite < s.iwrite ∧ G.pushed[iwrite]? = some data ∧
        (s.slot iwrite).iwriteExp = iwrite ∧ (s.slot iwrite).ireadExp ≠ iwrite
  | .popCheck iread => iread ≤ s.iread
  | .popCas iread => iread ≤ s.iread ∧ (iread = s.iread → (s.slot iread).ireadExp = iread)
  | .popLoad iread =>
      iread < s.iread ∧ (s.slot iread).iwriteExp = iread ∧ iread ∉ G.got.map Prod.fst

/-- Moving a thread changes nothing a thread's place says of the queue. -/
theorem pcInv_setPc {s : MpmcQueue α} {G : MpmcHist α} {c : Nat} {p q : QPc α} :
    PcInv (s.setPc c p) G q ↔ PcInv s G q := Iff.rfl

/-- The invariant of an `mpmc_queue` and the ghost of its run. -/
structure MpmcInv (s : MpmcQueue α) (G : MpmcHist α) : Prop where
  mask : s.mask = s.capacity - 1
  pow : s.capacity.isPowerOfTwo
  cap_le : s.capacity ≤ 2 ^ 63
  read_le : s.iread ≤ s.iwrite
  write_le : s.iwrite ≤ s.iread + s.capacity
  pushed : G.pushed.length = s.iwrite
  slots : ∀ k < s.capacity, SlotInv s.capacity s.iwrite s.iread G.pushed s.pc k (s.q k)
  threads : ∀ c, PcInv s G (s.pc c)
  storeOnce : StoreOnce s.pc
  loadOnce : LoadOnce s.pc
  got : ∀ p ∈ G.got, p.1 < s.iread ∧ p.2 = G.pushed[p.1]?
  gotNodup : (G.got.map Prod.fst).Nodup
  gotAll : ∀ i < s.iread, i ∈ G.got.map Prod.fst ∨ Loads s.pc i

/-! ### The `iread_exp` a slot waits with -/

theorem prevRead_add (cap e : Nat) : prevRead cap (e + cap) = e := by
  simp [prevRead]

/-- A slot waiting for index `e` has not seen `e` written. -/
theorem prevRead_ne {cap : Nat} (hcap : cap ≤ 2 ^ 63) (hpos : 0 < cap) (e : Nat) :
    prevRead cap e ≠ e := by
  unfold prevRead
  split_ifs <;> omega

/-- Nor any index from `R` on, when `e` is less than a lap past `R`. -/
theorem prevRead_ne_of_lt {cap R e : Nat} (hcap : cap ≤ 2 ^ 63) (hR : R ≤ e)
    (he : e < R + cap) : prevRead cap e ≠ R := by
  unfold prevRead
  split_ifs <;> omega

theorem Loads.update {pc : Nat → QPc α} {i c : Nat} (h : Loads pc i) (hc : pc c ≠ .popLoad i)
    (p : QPc α) : Loads (Function.update pc c p) i := by
  obtain ⟨c', hc'⟩ := h
  have hne : c' ≠ c := by rintro rfl; exact hc hc'
  exact ⟨c', by rw [Function.update_of_ne hne]; exact hc'⟩

theorem Stores.update {pc : Nat → QPc α} {i c : Nat} (h : Stores pc i)
    (hc : ∀ d, pc c ≠ .pushStore d i) (p : QPc α) : Stores (Function.update pc c p) i := by
  obtain ⟨c', d', hc'⟩ := h
  have hne : c' ≠ c := by rintro rfl; exact hc d' hc'
  exact ⟨c', d', by rw [Function.update_of_ne hne]; exact hc'⟩

/-- Moving a thread to a place other than a write keeps the writers of each index apart. -/
theorem StoreOnce.update {pc : Nat → QPc α} (h : StoreOnce pc) {c : Nat} {p : QPc α}
    (hp : ∀ d i, p ≠ .pushStore d i) : StoreOnce (Function.update pc c p) := by
  intro c₁ c₂ d₁ d₂ i h₁ h₂
  by_cases hc₁ : c₁ = c
  · rw [hc₁, Function.update_self] at h₁
    exact absurd h₁ (hp d₁ i)
  · by_cases hc₂ : c₂ = c
    · rw [hc₂, Function.update_self] at h₂
      exact absurd h₂ (hp d₂ i)
    · rw [Function.update_of_ne hc₁] at h₁
      rw [Function.update_of_ne hc₂] at h₂
      exact h c₁ c₂ d₁ d₂ i h₁ h₂

/-- Moving a thread to a place other than a read keeps the readers of each index apart. -/
theorem LoadOnce.update {pc : Nat → QPc α} (h : LoadOnce pc) {c : Nat} {p : QPc α}
    (hp : ∀ i, p ≠ .popLoad i) : LoadOnce (Function.update pc c p) := by
  intro c₁ c₂ i h₁ h₂
  by_cases hc₁ : c₁ = c
  · rw [hc₁, Function.update_self] at h₁
    exact absurd h₁ (hp i)
  · by_cases hc₂ : c₂ = c
    · rw [hc₂, Function.update_self] at h₂
      exact absurd h₂ (hp i)
    · rw [Function.update_of_ne hc₁] at h₁
      rw [Function.update_of_ne hc₂] at h₂
      exact h c₁ c₂ i h₁ h₂

/-- A slot's place depends on the threads only through who is about to read or write its
index. -/
theorem SlotInv.congr_pc {cap W R k : Nat} {pushed : List α} {pc pc' : Nat → QPc α}
    {it : Item α} (h : SlotInv cap W R pushed pc k it)
    (hl : Loads pc it.iwriteExp → Loads pc' it.iwriteExp)
    (hs : Stores pc it.iwriteExp → Stores pc' it.iwriteExp) :
    SlotInv cap W R pushed pc' k it where
  mod := h.mod
  lower := h.lower
  upper := h.upper
  taken he := by
    obtain ⟨h₁, h₂, h₃⟩ := h.taken he
    exact ⟨h₁, h₂, hl h₃⟩
  claimed h₁ h₂ := (h.claimed h₁ h₂).imp id fun ⟨h₃, h₄⟩ => ⟨h₃, hs h₄⟩
  free := h.free

/-- **A thread's place stays true while `iwrite_` grows** and the pushes so far, the reads and
the slots stay: a check it passed speaks of an index `iwrite_` has since left, or of the slot as
it still is. -/
theorem PcInv.write_grows {s t : MpmcQueue α} {G G' : MpmcHist α} {q : QPc α}
    (h : PcInv s G q) (hR : t.iread = s.iread) (hW : s.iwrite ≤ t.iwrite)
    (hslot : ∀ i, t.slot i = s.slot i) (hpushed : ∀ i < s.iwrite, G'.pushed[i]? = G.pushed[i]?)
    (hgot : G'.got = G.got) : PcInv t G' q := by
  cases q with
  | idle => trivial
  | pushCheck d iw =>
      simp only [PcInv] at h ⊢
      omega
  | pushCas d iw =>
      simp only [PcInv] at h ⊢
      refine ⟨by omega, fun he => ?_⟩
      rw [hslot]
      exact h.2 (by omega)
  | pushStore d iw =>
      simp only [PcInv] at h ⊢
      obtain ⟨h₁, h₂, h₃, h₄, h₅⟩ := h
      exact ⟨by omega, by omega, (hpushed iw h₂).trans h₃, by rw [hslot]; exact h₄,
        by rw [hslot]; exact h₅⟩
  | popCheck ir =>
      simp only [PcInv] at h ⊢
      omega
  | popCas ir =>
      simp only [PcInv, hR, hslot] at h ⊢
      exact h
  | popLoad ir =>
      simp only [PcInv, hR, hslot, hgot] at h ⊢
      exact h

namespace MpmcInv

variable {s : MpmcQueue α} {G : MpmcHist α}

theorem capacity_pos (hI : MpmcInv s G) : 0 < s.capacity := Nat.pos_of_isPowerOfTwo hI.pow

/-- `q[i & mask]` is slot `i % capacity`. -/
theorem slot_eq (hI : MpmcInv s G) (i : Nat) : s.slot i = s.q (i % s.capacity) := by
  rw [slot, hI.mask, Ring.and_pred_eq_mod hI.pow]

theorem slotInv (hI : MpmcInv s G) (i : Nat) :
    SlotInv s.capacity s.iwrite s.iread G.pushed s.pc (i % s.capacity) (s.slot i) := by
  rw [hI.slot_eq]
  exact hI.slots _ (Nat.mod_lt _ hI.capacity_pos)

/-- **An index between `iread_` and `iwrite_` is its slot's.** -/
theorem slot_of_window (hI : MpmcInv s G) {i : Nat} (hR : s.iread ≤ i) (hW : i < s.iwrite) :
    (s.slot i).iwriteExp = i := by
  have h := hI.slotInv i
  exact Ring.eq_of_mod_eq h.mod (by have := h.upper; omega) (by have := h.lower; omega)

/-- Moving a thread that neither writes nor reads a slot, between such places. -/
theorem setPc {c : Nat} {p : QPc α} (hI : MpmcInv s G) (hc : (s.pc c).owns = false)
    (hp : p.owns = false) (hpc : PcInv s G p) : MpmcInv (s.setPc c p) G where
  mask := hI.mask
  pow := hI.pow
  cap_le := hI.cap_le
  read_le := hI.read_le
  write_le := hI.write_le
  pushed := hI.pushed
  slots k hk := (hI.slots k hk).congr_pc (fun h => h.update (QPc.ne_popLoad hc _) p)
    (fun h => h.update (fun d => QPc.ne_pushStore hc d _) p)
  threads d := by
    rw [pcInv_setPc]
    by_cases hd : d = c
    · subst hd
      rw [setPc_pc, Function.update_self]
      exact hpc
    · rw [setPc_pc, Function.update_of_ne hd]
      exact hI.threads d
  storeOnce := hI.storeOnce.update (QPc.ne_pushStore hp)
  loadOnce := hI.loadOnce.update (QPc.ne_popLoad hp)
  got := hI.got
  gotNodup := hI.gotNodup
  gotAll i hi := (hI.gotAll i hi).imp id fun h => h.update (QPc.ne_popLoad hc _) p

/-- The invariant reads the capacity, the mask, the slots, the indices and the threads' places,
not what the calls returned. -/
theorem of_view {t : MpmcQueue α} (hI : MpmcInv s G) (hcap : t.capacity = s.capacity)
    (hmask : t.mask = s.mask) (hq : t.q = s.q) (hw : t.iwrite = s.iwrite) (hr : t.iread = s.iread)
    (hpc : t.pc = s.pc) : MpmcInv t G := by
  obtain ⟨_, _, _, _, _, _, _, _⟩ := s
  obtain ⟨_, _, _, _, _, _, _, _⟩ := t
  simp only at hcap hmask hq hw hr hpc
  subst hcap hmask hq hw hr hpc
  exact ⟨hI.mask, hI.pow, hI.cap_le, hI.read_le, hI.write_le, hI.pushed, hI.slots, hI.threads,
    hI.storeOnce, hI.loadOnce, hI.got, hI.gotNodup, hI.gotAll⟩

/-- Writing the slot of index `j` writes slot `j % capacity`. -/
theorem q_setSlot (hI : MpmcInv s G) (j : Nat) (it : Item α) :
    (s.setSlot j it).q = Function.update s.q (j % s.capacity) it := by
  funext k
  rw [setSlot_q, hI.mask, Ring.and_pred_eq_mod hI.pow]

/-- Writing the slot of index `j` changes the slot of each index a whole number of laps from
`j`, and no other. -/
theorem slot_setSlot (hI : MpmcInv s G) (j i : Nat) (it : Item α) :
    (s.setSlot j it).slot i = if i % s.capacity = j % s.capacity then it else s.slot i := by
  rw [slot, setSlot_mask, hI.mask, Ring.and_pred_eq_mod hI.pow, hI.q_setSlot,
    Function.update_apply, hI.slot_eq]

/-- **A slot whose `iread_exp` is `iread_` holds index `iread_`, written.**  Any other place
would put a stale `iread_exp` there: the constructor's `-1`, or an index more than a lap back. -/
theorem readable (hI : MpmcInv s G) (hr : (s.slot s.iread).ireadExp = s.iread) :
    (s.slot s.iread).iwriteExp = s.iread ∧ s.iread < s.iwrite ∧
      (s.slot s.iread).data = G.pushed[s.iread]? := by
  have hS := hI.slotInv s.iread
  have hne : s.iread ≤ (s.slot s.iread).iwriteExp →
      (s.slot s.iread).iwriteExp < s.iread + s.capacity →
      prevRead s.capacity (s.slot s.iread).iwriteExp ≠ s.iread :=
    prevRead_ne_of_lt hI.cap_le
  rcases Nat.lt_or_ge (s.slot s.iread).iwriteExp s.iread with h | h
  · -- taken by a consumer: its `iread_exp` is its own index, below `iread_`
    have := (hS.taken h).1
    omega
  · rcases Nat.lt_or_ge (s.slot s.iread).iwriteExp s.iwrite with h' | h'
    · rcases hS.claimed h h' with ⟨h₁, h₂⟩ | ⟨h₁, -⟩
      · have he : (s.slot s.iread).iwriteExp = s.iread := by omega
        exact ⟨he, by omega, by rw [h₂, he]⟩
      · exact absurd (h₁.symm.trans hr) (hne h (by have := hI.write_le; omega))
    · exact absurd ((hS.free h').symm.trans hr) (hne h hS.upper)

/-- **A `try_push` claims its index.**  Its compare-exchange finds `iwrite_` at the index whose
slot it checked: the slot waits for it, so the index is less than a lap past `iread_`, and the
value is recorded as pushed at it. -/
theorem claimPush {c : Nat} {d : α} (hI : MpmcInv s G) (hpc : s.pc c = .pushCas d s.iwrite) :
    MpmcInv { s.setPc c (.pushStore d s.iwrite) with iwrite := s.iwrite + 1 }
      { G with pushed := G.pushed ++ [d] } := by
  generalize ht : { s.setPc c (.pushStore d s.iwrite) with iwrite := s.iwrite + 1 } = t
  have hcap : t.capacity = s.capacity := ht ▸ rfl
  have hq : t.q = s.q := ht ▸ rfl
  have hw : t.iwrite = s.iwrite + 1 := ht ▸ rfl
  have hr : t.iread = s.iread := ht ▸ rfl
  have hpcs : t.pc = Function.update s.pc c (.pushStore d s.iwrite) := ht ▸ rfl
  have hslot : ∀ i, t.slot i = s.slot i := fun i => ht ▸ rfl
  have hcas := hI.threads c
  rw [hpc] at hcas
  have he : (s.slot s.iwrite).iwriteExp = s.iwrite := hcas.2 rfl
  have hW := hI.slotInv s.iwrite
  -- the slot of the claimed index waits for it
  have hfree : (s.slot s.iwrite).ireadExp = prevRead s.capacity s.iwrite := by
    have := hW.free he.ge
    rwa [he] at this
  have hup : s.iwrite < s.iread + s.capacity := he ▸ hW.upper
  have hpos := hI.capacity_pos
  have hRW := hI.read_le
  have hold : ∀ i < s.iwrite, (G.pushed ++ [d])[i]? = G.pushed[i]? := fun i hi =>
    List.getElem?_append_left (by rw [hI.pushed]; exact hi)
  -- any other slot's index is not the claimed one, nor a lap before it
  have hother : ∀ k < s.capacity, (s.q k).iwriteExp ≠ s.iwrite →
      (s.q k).iwriteExp + s.capacity ≠ s.iwrite := by
    intro k hk hne heq
    have hmod := (hI.slots k hk).mod
    have hk' : s.iwrite % s.capacity = k := by rw [← heq, Nat.add_mod_right, hmod]
    rw [hI.slot_eq, hk'] at he
    exact hne he
  have hnotLoad : ∀ i, s.pc c ≠ .popLoad i := fun i => by rw [hpc]; simp
  have hnotStore : ∀ d' i, s.pc c ≠ .pushStore d' i := fun d' i => by rw [hpc]; simp
  refine ⟨ht ▸ hI.mask, hcap ▸ hI.pow, hcap ▸ hI.cap_le, by omega, by omega,
    by simp [hw, hI.pushed], fun k hk => ?_, fun e => ?_, ?_, ?_, ?_, hI.gotNodup,
    fun i hi => ?_⟩
  · -- the slots
    rw [hcap] at hk
    have hS := hI.slots k hk
    rw [hcap, hq, hw, hr, hpcs]
    by_cases hk0 : (s.q k).iwriteExp = s.iwrite
    · have hslotk : s.slot s.iwrite = s.q k := by
        rw [hI.slot_eq, ← hS.mod, hk0]
      refine ⟨hS.mod, by omega, hS.upper, fun h => absurd h (by omega),
        fun _ _ => .inr ⟨?_, c, d, by rw [hk0, Function.update_self]⟩, fun h => by omega⟩
      rw [← hslotk, hfree, he]
    · have hne := hother k hk hk0
      refine ⟨hS.mod, by have := hS.lower; omega, hS.upper, fun h => ?_, fun h₁ h₂ => ?_,
        fun h => hS.free (by omega)⟩
      · obtain ⟨h₁, h₂, h₃⟩ := hS.taken h
        exact ⟨h₁, by rw [h₂, hold _ (by omega)], h₃.update (hnotLoad _) _⟩
      · rcases hS.claimed h₁ (by omega) with ⟨h₃, h₄⟩ | ⟨h₃, h₄⟩
        · exact .inl ⟨h₃, by rw [h₄, hold _ (by omega)]⟩
        · exact .inr ⟨h₃, h₄.update (fun d' => hnotStore d' _) _⟩
  · -- the threads
    rw [hpcs]
    by_cases hec : e = c
    · subst hec
      rw [Function.update_self]
      show t.iread ≤ s.iwrite ∧ s.iwrite < t.iwrite ∧ (G.pushed ++ [d])[s.iwrite]? = some d ∧
        (t.slot s.iwrite).iwriteExp = s.iwrite ∧ (t.slot s.iwrite).ireadExp ≠ s.iwrite
      rw [hslot, hr, hw, hfree]
      refine ⟨hRW, by omega, by simp [← hI.pushed], he, prevRead_ne hI.cap_le hpos _⟩
    · rw [Function.update_of_ne hec]
      exact (hI.threads e).write_grows hr (by omega) hslot hold rfl
  · -- one writer for each index: the claimed one is new
    intro c₁ c₂ d₁ d₂ i h₁ h₂
    rw [hpcs] at h₁ h₂
    have hlt : ∀ e d' i, s.pc e = .pushStore d' i → i < s.iwrite := fun e d' i h => by
      have := hI.threads e
      rw [h] at this
      exact this.2.1
    by_cases hc₁ : c₁ = c <;> by_cases hc₂ : c₂ = c
    · exact hc₁.trans hc₂.symm
    · rw [hc₁, Function.update_self] at h₁
      rw [Function.update_of_ne hc₂] at h₂
      cases h₁
      exact absurd (hlt c₂ d₂ _ h₂) (lt_irrefl _)
    · rw [hc₂, Function.update_self] at h₂
      rw [Function.update_of_ne hc₁] at h₁
      cases h₂
      exact absurd (hlt c₁ d₁ _ h₁) (lt_irrefl _)
    · rw [Function.update_of_ne hc₁] at h₁
      rw [Function.update_of_ne hc₂] at h₂
      exact hI.storeOnce c₁ c₂ d₁ d₂ i h₁ h₂
  · rw [hpcs]
    exact hI.loadOnce.update fun i => by simp
  · intro q hq
    obtain ⟨h₁, h₂⟩ := hI.got q hq
    exact ⟨hr ▸ h₁, by rw [h₂]; exact (hold _ (by omega)).symm⟩
  · rw [hr] at hi
    rw [hpcs]
    exact (hI.gotAll i hi).imp id fun h => h.update (hnotLoad _) _

/-- **A `try_pop` claims its index.**  Its compare-exchange finds `iread_` at the index whose
slot it checked: the slot holds that index, written, so the index is below `iwrite_`. -/
theorem claimPop {c : Nat} (hI : MpmcInv s G) (hpc : s.pc c = .popCas s.iread) :
    MpmcInv { s.setPc c (.popLoad s.iread) with iread := s.iread + 1 } G := by
  generalize ht : { s.setPc c (.popLoad s.iread) with iread := s.iread + 1 } = t
  have hcap : t.capacity = s.capacity := ht ▸ rfl
  have hq : t.q = s.q := ht ▸ rfl
  have hw : t.iwrite = s.iwrite := ht ▸ rfl
  have hr : t.iread = s.iread + 1 := ht ▸ rfl
  have hpcs : t.pc = Function.update s.pc c (.popLoad s.iread) := ht ▸ rfl
  have hslot : ∀ i, t.slot i = s.slot i := fun i => ht ▸ rfl
  have hcas := hI.threads c
  rw [hpc] at hcas
  obtain ⟨he, hRW, hdata⟩ := hI.readable (hcas.2 rfl)
  have hread : (s.slot s.iread).ireadExp = s.iread := hcas.2 rfl
  have hpos := hI.capacity_pos
  have hWR := hI.write_le
  have hnotLoad : ∀ i, s.pc c ≠ .popLoad i := fun i => by rw [hpc]; simp
  have hnotStore : ∀ d' i, s.pc c ≠ .pushStore d' i := fun d' i => by rw [hpc]; simp
  refine ⟨ht ▸ hI.mask, hcap ▸ hI.pow, hcap ▸ hI.cap_le, by omega, by omega,
    by rw [hw]; exact hI.pushed, fun k hk => ?_, fun e => ?_, ?_, ?_, ?_, hI.gotNodup,
    fun i hi => ?_⟩
  · -- the slots
    rw [hcap] at hk
    have hS := hI.slots k hk
    rw [hcap, hq, hw, hr, hpcs]
    by_cases hk0 : (s.q k).iwriteExp = s.iread
    · have hslotk : s.slot s.iread = s.q k := by
        rw [hI.slot_eq, ← hS.mod, hk0]
      refine ⟨hS.mod, hS.lower, by omega, fun _ => ⟨?_, ?_, c, by rw [hk0, Function.update_self]⟩,
        fun h => absurd h (by omega), fun h => absurd h (by omega)⟩
      · rw [← hslotk, hread, he]
      · rw [← hslotk, hdata, he]
    · refine ⟨hS.mod, hS.lower, by have := hS.upper; omega, fun h => ?_, fun h₁ h₂ => ?_, hS.free⟩
      · obtain ⟨h₁, h₂, h₃⟩ := hS.taken (by omega)
        exact ⟨h₁, h₂, h₃.update (hnotLoad _) _⟩
      · exact (hS.claimed (by omega) h₂).imp id fun ⟨h₃, h₄⟩ =>
          ⟨h₃, h₄.update (fun d' => hnotStore d' _) _⟩
  · -- the threads
    rw [hpcs]
    by_cases hec : e = c
    · subst hec
      rw [Function.update_self]
      show s.iread < t.iread ∧ (t.slot s.iread).iwriteExp = s.iread ∧ s.iread ∉ G.got.map Prod.fst
      refine ⟨by omega, by rw [hslot]; exact he, fun hm => ?_⟩
      obtain ⟨q, hq', hq1⟩ := List.mem_map.mp hm
      have := (hI.got q hq').1
      omega
    · rw [Function.update_of_ne hec]
      have h := hI.threads e
      -- `iread_` moves past the index just claimed, which no producer is about to write
      cases hpe : s.pc e with
      | idle => trivial
      | pushCheck d iw =>
          rw [hpe] at h
          simp only [PcInv] at h
          show iw ≤ t.iwrite
          omega
      | pushCas d iw =>
          rw [hpe] at h
          simp only [PcInv] at h
          show iw ≤ t.iwrite ∧ (iw = t.iwrite → (t.slot iw).iwriteExp = iw)
          rw [hw, hslot]
          exact h
      | pushStore d iw =>
          rw [hpe] at h
          simp only [PcInv] at h
          obtain ⟨h₁, h₂, h₃, h₄, h₅⟩ := h
          have hne : iw ≠ s.iread := by rintro rfl; exact h₅ hread
          show t.iread ≤ iw ∧ iw < t.iwrite ∧ G.pushed[iw]? = some d ∧
            (t.slot iw).iwriteExp = iw ∧ (t.slot iw).ireadExp ≠ iw
          rw [hr, hw, hslot]
          exact ⟨by omega, h₂, h₃, h₄, h₅⟩
      | popCheck ir =>
          rw [hpe] at h
          simp only [PcInv] at h
          show ir ≤ t.iread
          omega
      | popCas ir =>
          rw [hpe] at h
          simp only [PcInv] at h
          show ir ≤ t.iread ∧ (ir = t.iread → (t.slot ir).ireadExp = ir)
          exact ⟨by omega, fun h' => by have := h.1; omega⟩
      | popLoad ir =>
          rw [hpe] at h
          simp only [PcInv] at h
          show ir < t.iread ∧ (t.slot ir).iwriteExp = ir ∧ ir ∉ G.got.map Prod.fst
          rw [hslot]
          exact ⟨by omega, h.2⟩
  · rw [hpcs]
    exact hI.storeOnce.update fun d i => by simp
  · -- one reader for each index: the claimed one is new
    intro c₁ c₂ i h₁ h₂
    rw [hpcs] at h₁ h₂
    have hlt : ∀ e i, s.pc e = .popLoad i → i < s.iread := fun e i h => by
      have := hI.threads e
      rw [h] at this
      exact this.1
    by_cases hc₁ : c₁ = c <;> by_cases hc₂ : c₂ = c
    · exact hc₁.trans hc₂.symm
    · rw [hc₁, Function.update_self] at h₁
      rw [Function.update_of_ne hc₂] at h₂
      cases h₁
      exact absurd (hlt c₂ _ h₂) (lt_irrefl _)
    · rw [hc₂, Function.update_self] at h₂
      rw [Function.update_of_ne hc₁] at h₁
      cases h₂
      exact absurd (hlt c₁ _ h₁) (lt_irrefl _)
    · rw [Function.update_of_ne hc₁] at h₁
      rw [Function.update_of_ne hc₂] at h₂
      exact hI.loadOnce c₁ c₂ i h₁ h₂
  · intro q hq'
    obtain ⟨h₁, h₂⟩ := hI.got q hq'
    exact ⟨by omega, h₂⟩
  · rw [hr] at hi
    rw [hpcs]
    rcases Nat.lt_or_ge i s.iread with hi' | hi'
    · exact (hI.gotAll i hi').imp id fun h => h.update (hnotLoad _) _
    · have : i = s.iread := by omega
      subst this
      exact .inr ⟨c, Function.update_self ..⟩

/-- Writing slot `j` keeps the slot of an index whose slot waits for another index. -/
theorem slot_setSlot_of_ne (hI : MpmcInv s G) {i j : Nat} (it : Item α)
    (h : (s.slot i).iwriteExp ≠ (s.slot j).iwriteExp) : (s.setSlot j it).slot i = s.slot i := by
  rw [hI.slot_setSlot, if_neg]
  intro hm
  apply h
  rw [hI.slot_eq i, hm, ← hI.slot_eq]

/-- **A `try_push` writes its slot.**  The index is its own and between the indices, so the
slot is no other thread's: no consumer has claimed it, and no other producer's index is one
lap from it. -/
theorem store {c : Nat} {d : α} {iw : Nat} (hI : MpmcInv s G) (hpc : s.pc c = .pushStore d iw) :
    MpmcInv ((s.setSlot iw { s.slot iw with data := some d, ireadExp := iw }).setPc c .idle) G := by
  generalize hit : ({ s.slot iw with data := some d, ireadExp := iw } : Item α) = it
  generalize ht : (s.setSlot iw it).setPc c .idle = t
  have hcap : t.capacity = s.capacity := ht ▸ rfl
  have hq : t.q = Function.update s.q (iw % s.capacity) it := by rw [← ht]; exact hI.q_setSlot ..
  have hw : t.iwrite = s.iwrite := ht ▸ rfl
  have hr : t.iread = s.iread := ht ▸ rfl
  have hpcs : t.pc = Function.update s.pc c .idle := ht ▸ rfl
  have hslot : ∀ i, t.slot i = if i % s.capacity = iw % s.capacity then it else s.slot i := by
    intro i
    rw [← ht]
    exact hI.slot_setSlot ..
  have hst := hI.threads c
  rw [hpc] at hst
  obtain ⟨hRi, hiW, hpd, he, hne⟩ := hst
  -- the write keeps every `iwrite_exp`
  have hexp : ∀ i, (t.slot i).iwriteExp = (s.slot i).iwriteExp := by
    intro i
    rw [hslot]
    split_ifs with hi
    · rw [← hit, hI.slot_eq i, hi, ← hI.slot_eq]
    · rfl
  -- an index of the window one lap from `iw` is `iw`
  have hlap : ∀ i, s.iread ≤ i → i < s.iwrite → i % s.capacity = iw % s.capacity → i = iw :=
    fun i h₁ h₂ hi => Ring.eq_of_mod_eq hi (by have := hI.write_le; omega)
      (by have := hI.write_le; omega)
  have hS0 := hI.slotInv iw
  refine ⟨ht ▸ hI.mask, hcap ▸ hI.pow, hcap ▸ hI.cap_le, by omega, by have := hI.write_le; omega,
    by rw [hw]; exact hI.pushed, fun k hk => ?_, fun e => ?_, ?_, ?_, by rw [hr]; exact hI.got,
    hI.gotNodup, fun i hi => ?_⟩
  · -- the slots
    rw [hcap] at hk
    rw [hcap, hq, hw, hr, hpcs]
    by_cases hk0 : k = iw % s.capacity
    · subst hk0
      rw [Function.update_self, ← hit]
      -- index `iw` is now written
      refine ⟨hS0.mod, hS0.lower, hS0.upper, fun h => ?_, fun _ _ => .inl ⟨?_, ?_⟩, fun h => ?_⟩
      · simp only at h
        omega
      · simp only
        rw [he]
      · simp only
        rw [he, hpd]
      · simp only at h
        omega
    · rw [Function.update_of_ne hk0]
      have hS := hI.slots k hk
      have hek : (s.q k).iwriteExp ≠ iw := fun h => hk0 (by rw [← hS.mod, h])
      exact hS.congr_pc (fun h => h.update (by rw [hpc]; simp) _)
        (fun h => h.update (fun d' => by rw [hpc]; simp [Ne.symm hek]) _)
  · -- the threads
    rw [hpcs]
    by_cases hec : e = c
    · subst hec
      rw [Function.update_self]
      trivial
    · rw [Function.update_of_ne hec]
      have h := hI.threads e
      cases hpe : s.pc e with
      | idle => trivial
      | pushCheck d' iw' =>
          rw [hpe] at h
          show iw' ≤ t.iwrite
          rw [hw]
          exact h
      | pushCas d' iw' =>
          rw [hpe] at h
          show iw' ≤ t.iwrite ∧ (iw' = t.iwrite → (t.slot iw').iwriteExp = iw')
          rw [hw, hexp]
          exact h
      | pushStore d' iw' =>
          rw [hpe] at h
          simp only [PcInv] at h
          obtain ⟨h₁, h₂, h₃, h₄, h₅⟩ := h
          -- another writer's index is another slot's
          have hne' : iw' ≠ iw := fun h' => hec (hI.storeOnce e c d' d iw' hpe (h' ▸ hpc))
          have hslot' : t.slot iw' = s.slot iw' := by
            rw [hslot, if_neg fun hm => hne' (hlap iw' h₁ h₂ hm)]
          show t.iread ≤ iw' ∧ iw' < t.iwrite ∧ G.pushed[iw']? = some d' ∧
            (t.slot iw').iwriteExp = iw' ∧ (t.slot iw').ireadExp ≠ iw'
          rw [hr, hw, hslot']
          exact ⟨h₁, h₂, h₃, h₄, h₅⟩
      | popCheck ir =>
          rw [hpe] at h
          show ir ≤ t.iread
          rw [hr]
          exact h
      | popCas ir =>
          rw [hpe] at h
          simp only [PcInv] at h
          show ir ≤ t.iread ∧ (ir = t.iread → (t.slot ir).ireadExp = ir)
          rw [hr]
          refine ⟨h.1, fun hir => ?_⟩
          -- the slot a consumer is about to claim is written, so it is not `iw`'s
          have hslot' : t.slot ir = s.slot ir := by
            rw [hslot, if_neg]
            intro hm
            have := hlap ir (by omega) (by omega) hm
            subst this
            exact hne (h.2 hir)
          rw [hslot']
          exact h.2 hir
      | popLoad ir =>
          rw [hpe] at h
          simp only [PcInv] at h
          show ir < t.iread ∧ (t.slot ir).iwriteExp = ir ∧ ir ∉ G.got.map Prod.fst
          rw [hr, hexp]
          exact h
  · rw [hpcs]
    exact hI.storeOnce.update fun d i => by simp
  · rw [hpcs]
    exact hI.loadOnce.update fun i => by simp
  · rw [hr] at hi
    rw [hpcs]
    exact (hI.gotAll i hi).imp id fun h => h.update (by rw [hpc]; simp) _

/-- **A `try_pop` reads its slot and releases it** to the index one lap on: no index below
`iread_` other than its own waits in the slot, so the slot is no other thread's. -/
theorem load {c ir : Nat} (hI : MpmcInv s G) (hpc : s.pc c = .popLoad ir) :
    MpmcInv ((s.setSlot ir { s.slot ir with iwriteExp := ir + s.capacity }).setPc c .idle)
      { G with got := G.got ++ [(ir, (s.slot ir).data)] } := by
  generalize hit : ({ s.slot ir with iwriteExp := ir + s.capacity } : Item α) = it
  generalize ht : (s.setSlot ir it).setPc c .idle = t
  have hcap : t.capacity = s.capacity := ht ▸ rfl
  have hq : t.q = Function.update s.q (ir % s.capacity) it := by rw [← ht]; exact hI.q_setSlot ..
  have hw : t.iwrite = s.iwrite := ht ▸ rfl
  have hr : t.iread = s.iread := ht ▸ rfl
  have hpcs : t.pc = Function.update s.pc c .idle := ht ▸ rfl
  have hst := hI.threads c
  rw [hpc] at hst
  obtain ⟨hiR, he, hnot⟩ := hst
  -- only the slot of `ir` changes, and no other index below `iread_` waits in it
  have hslot : ∀ i, (s.slot i).iwriteExp ≠ ir → t.slot i = s.slot i := by
    intro i hi
    rw [← ht]
    exact hI.slot_setSlot_of_ne it (by rw [he]; exact hi)
  have hS0 := hI.slotInv ir
  obtain ⟨hre, hdata, -⟩ := hS0.taken (by rw [he]; exact hiR)
  rw [he] at hre hdata
  have hRW := hI.read_le
  have hWR := hI.write_le
  refine ⟨ht ▸ hI.mask, hcap ▸ hI.pow, hcap ▸ hI.cap_le, by omega, by omega,
    by rw [hw]; exact hI.pushed, fun k hk => ?_, fun e => ?_, ?_, ?_, fun p hp => ?_, ?_,
    fun i hi => ?_⟩
  · -- the slots
    rw [hcap] at hk
    rw [hcap, hq, hw, hr, hpcs]
    by_cases hk0 : k = ir % s.capacity
    · subst hk0
      rw [Function.update_self, ← hit]
      -- the slot now waits for index `ir + capacity`
      have hlow := hS0.lower
      rw [he] at hlow
      refine ⟨by simp, by simp only; omega, by simp only; omega, fun h => ?_, fun _ h => ?_,
        fun _ => ?_⟩
      · simp only at h
        omega
      · simp only at h
        omega
      · simp only
        rw [prevRead_add, hre]
    · rw [Function.update_of_ne hk0]
      have hS := hI.slots k hk
      have hek : (s.q k).iwriteExp ≠ ir := fun h => hk0 (by rw [← hS.mod, h])
      exact hS.congr_pc (fun h => h.update (by rw [hpc]; simp [Ne.symm hek]) _)
        (fun h => h.update (fun d' => by rw [hpc]; simp) _)
  · -- the threads
    rw [hpcs]
    by_cases hec : e = c
    · subst hec
      rw [Function.update_self]
      trivial
    · rw [Function.update_of_ne hec]
      have h := hI.threads e
      cases hpe : s.pc e with
      | idle => trivial
      | pushCheck d' iw' =>
          rw [hpe] at h
          show iw' ≤ t.iwrite
          rw [hw]
          exact h
      | pushCas d' iw' =>
          rw [hpe] at h
          simp only [PcInv] at h
          show iw' ≤ t.iwrite ∧ (iw' = t.iwrite → (t.slot iw').iwriteExp = iw')
          rw [hw]
          refine ⟨h.1, fun hiw => ?_⟩
          -- the slot `iwrite_` waits in is not the one being read, which waits for `ir`
          have h₂ := h.2 hiw
          rw [hslot iw' (by omega)]
          exact h₂
      | pushStore d' iw' =>
          rw [hpe] at h
          simp only [PcInv] at h
          obtain ⟨h₁, h₂, h₃, h₄, h₅⟩ := h
          show t.iread ≤ iw' ∧ iw' < t.iwrite ∧ G.pushed[iw']? = some d' ∧
            (t.slot iw').iwriteExp = iw' ∧ (t.slot iw').ireadExp ≠ iw'
          rw [hr, hw, hslot iw' (by omega)]
          exact ⟨h₁, h₂, h₃, h₄, h₅⟩
      | popCheck ir' =>
          rw [hpe] at h
          show ir' ≤ t.iread
          rw [hr]
          exact h
      | popCas ir' =>
          rw [hpe] at h
          simp only [PcInv] at h
          show ir' ≤ t.iread ∧ (ir' = t.iread → (t.slot ir').ireadExp = ir')
          rw [hr]
          refine ⟨h.1, fun hir => ?_⟩
          have h₂ := h.2 hir
          -- a slot whose index is claimed by a reader holds that index as `iread_exp`
          have hne : (s.slot ir').iwriteExp ≠ ir := by
            intro hx
            have hS := hI.slotInv ir'
            have := (hS.taken (by omega)).1
            omega
          rw [hslot ir' hne]
          exact h₂
      | popLoad ir' =>
          rw [hpe] at h
          simp only [PcInv] at h
          obtain ⟨h₁, h₂, h₃⟩ := h
          have hne : ir' ≠ ir := fun h' => hec (hI.loadOnce e c ir' hpe (h' ▸ hpc))
          show ir' < t.iread ∧ (t.slot ir').iwriteExp = ir' ∧
            ir' ∉ (G.got ++ [(ir, (s.slot ir).data)]).map Prod.fst
          rw [hr, hslot ir' (by omega)]
          refine ⟨h₁, h₂, ?_⟩
          simp only [List.map_append, List.map_cons, List.map_nil, List.mem_append,
            List.mem_singleton, not_or]
          exact ⟨h₃, hne⟩
  · rw [hpcs]
    exact hI.storeOnce.update fun d i => by simp
  · rw [hpcs]
    exact hI.loadOnce.update fun i => by simp
  · -- what was read at `ir` is what was pushed there
    rw [hr]
    rcases List.mem_append.mp hp with hp | hp
    · exact hI.got p hp
    · rw [List.mem_singleton.mp hp]
      exact ⟨hiR, hdata⟩
  · simp only [List.map_append, List.map_cons, List.map_nil]
    exact hI.gotNodup.append (List.nodup_singleton _) (by simpa using hnot)
  · rw [hr] at hi
    rw [hpcs]
    by_cases hir : i = ir
    · left
      simp [hir]
    · refine (hI.gotAll i hi).imp (fun h => ?_)
        fun h => h.update (by rw [hpc]; simp [Ne.symm hir]) _
      simp only [List.map_append, List.mem_append]
      exact .inl h

end MpmcInv

/-- The constructor's queue, with nothing pushed or read, is at its invariant when `align2n`
does not wrap: every slot waits for its first index. -/
theorem mpmcInv_new {cap : Nat} (hcap : cap ≤ 2 ^ 63) :
    MpmcInv (new cap : MpmcQueue α) ⟨[], []⟩ where
  mask := rfl
  pow := align2n_isPowerOfTwo cap
  cap_le := align2n_le hcap
  read_le := le_refl _
  write_le := Nat.zero_le _
  pushed := rfl
  slots k hk := by
    refine ⟨Nat.mod_eq_of_lt hk, Nat.zero_le _, by simpa [new] using hk, fun h => ?_,
      fun _ h => ?_, fun _ => ?_⟩
    · simp [new] at h
    · simp [new] at h
    · exact (if_pos hk).symm
  threads _ := trivial
  storeOnce c _ _ _ _ h := by simp [new] at h
  loadOnce c _ _ h := by simp [new] at h
  got _ h := by simp at h
  gotNodup := List.nodup_nil
  gotAll _ h := by simp [new] at h

/-- **Every step keeps the invariant**, the ghost recording what the step did. -/
theorem mpmcInv_step {s t : MpmcQueue α} {G : MpmcHist α} {a : QAction α} (hI : MpmcInv s G)
    (h : s.step a = some t) : MpmcInv t (s.record a G) := by
  cases a with
  | tryPush c d =>
      simp only [step] at h
      split at h
      · next hc =>
        cases h
        have hidle : s.pc c = .idle := by revert hc; cases s.pc c <;> simp [QPc.isIdle]
        exact hI.setPc (by rw [hidle]; rfl) rfl (le_refl _)
      · cases h
  | tryPop c =>
      simp only [step] at h
      split at h
      · next hc =>
        cases h
        have hidle : s.pc c = .idle := by revert hc; cases s.pc c <;> simp [QPc.isIdle]
        exact hI.setPc (by rw [hidle]; rfl) rfl (le_refl _)
      · cases h
  | resume c =>
      simp only [step, resume] at h
      simp only [record]
      -- one case for each place in the code
      cases hpc : s.pc c with
      | idle =>
          rw [hpc] at h
          cases h
      | pushCheck d iw =>
          rw [hpc] at h
          simp only at h
          have hown : (s.pc c).owns = false := by rw [hpc]; rfl
          split_ifs at h with hx <;> cases h
          · exact (hI.setPc hown (rfl : (QPc.idle : QPc α).owns = false) trivial).of_view
              rfl rfl rfl rfl rfl rfl
          · have h₁ : iw ≤ s.iwrite := by have := hI.threads c; rwa [hpc] at this
            exact hI.setPc hown rfl ⟨h₁, fun _ => not_not.mp hx⟩
      | pushCas d iw =>
          rw [hpc] at h
          simp only at h ⊢
          split_ifs at h ⊢ with hx <;> cases h
          · subst hx
            exact hI.claimPush hpc
          · exact hI.setPc (by rw [hpc]; rfl) rfl (le_refl _)
      | pushStore d iw =>
          rw [hpc] at h
          cases h
          exact (hI.store hpc).of_view rfl rfl rfl rfl rfl rfl
      | popCheck ir =>
          rw [hpc] at h
          simp only at h
          have hown : (s.pc c).owns = false := by rw [hpc]; rfl
          split_ifs at h with hx <;> cases h
          · exact (hI.setPc hown (rfl : (QPc.idle : QPc α).owns = false) trivial).of_view
              rfl rfl rfl rfl rfl rfl
          · have h₁ : ir ≤ s.iread := by have := hI.threads c; rwa [hpc] at this
            exact hI.setPc hown rfl ⟨h₁, fun _ => not_not.mp hx⟩
      | popCas ir =>
          rw [hpc] at h
          simp only at h
          split_ifs at h with hx <;> cases h
          · subst hx
            exact hI.claimPop hpc
          · exact hI.setPc (by rw [hpc]; rfl) rfl (le_refl _)
      | popLoad ir =>
          rw [hpc] at h
          cases h
          exact (hI.load hpc).of_view rfl rfl rfl rfl rfl rfl

/-- The invariant holds all along a run from the constructor, with the ghost of the run. -/
theorem mpmcInv_of_reach {cap : Nat} (hcap : cap ≤ 2 ^ 63) {p : MpmcQueue α × MpmcHist α}
    (h : Reach (ghost step record) (new cap, ⟨[], []⟩) p) : MpmcInv p.1 p.2 := by
  have hinv : Invariant (ghost step record)
      fun p : MpmcQueue α × MpmcHist α => MpmcInv p.1 p.2 := by
    intro p a q hp hq
    obtain ⟨hs, hg⟩ := ghost_eq_some.mp hq
    rw [hg]
    exact mpmcInv_step hp hs
  exact hinv.reach (mpmcInv_new hcap) h

/-- **An `mpmc_queue` loses, duplicates and invents no value**, over every interleaving of any
number of producers and consumers, when `align2n` does not wrap.  The indices stay at most a
lap apart; the ghost holds one value per index `iwrite_` passed; every value a `try_pop` read
is the value pushed at its index, no index is read twice, and every index `iread_` passed has
been read or is being read; and every index between the two is in its slot with the value
pushed there, or its producer is about to write it. -/
theorem mpmcQueue_of_reach {cap : Nat} (hcap : cap ≤ 2 ^ 63) {s : MpmcQueue α}
    {G : MpmcHist α} (h : Reach (ghost step record) (new cap, ⟨[], []⟩) (s, G)) :
    s.iread ≤ s.iwrite ∧ s.iwrite ≤ s.iread + s.capacity ∧ G.pushed.length = s.iwrite ∧
      (∀ p ∈ G.got, p.1 < s.iread ∧ p.2 = G.pushed[p.1]?) ∧ (G.got.map Prod.fst).Nodup ∧
      (∀ i < s.iread, i ∈ G.got.map Prod.fst ∨ Loads s.pc i) ∧
      ∀ i, s.iread ≤ i → i < s.iwrite →
        ((s.slot i).ireadExp = i ∧ (s.slot i).data = G.pushed[i]?) ∨ Stores s.pc i := by
  have hI : MpmcInv s G := mpmcInv_of_reach hcap h
  refine ⟨hI.read_le, hI.write_le, hI.pushed, hI.got, hI.gotNodup, hI.gotAll,
    fun i hR hW => ?_⟩
  have he := hI.slot_of_window hR hW
  have hc := (hI.slotInv i).claimed (by rw [he]; exact hR) (by rw [he]; exact hW)
  rw [he] at hc
  exact hc.imp id And.right

/-- Producer `0` pushes `7`; producer `1` claims index `1` for `8` and stops before its store;
consumer `2` pops `7`.  One value has been read and one is still to be written. -/
theorem mpmcQueue_of_reach_midPush :
    2 ≤ 2 ^ 63 ∧ ∃ (s : MpmcQueue Nat) (G : MpmcHist Nat),
      Reach (ghost step record) (new 2, ⟨[], []⟩) (s, G) ∧ s.iwrite = 2 ∧ s.iread = 1 ∧
      G.pushed = [7, 8] ∧ G.got = [(0, some 7)] ∧
      (s.iread ≤ s.iwrite ∧ s.iwrite ≤ s.iread + s.capacity ∧ G.pushed.length = s.iwrite ∧
        (∀ p ∈ G.got, p.1 < s.iread ∧ p.2 = G.pushed[p.1]?) ∧ (G.got.map Prod.fst).Nodup ∧
        (∀ i < s.iread, i ∈ G.got.map Prod.fst ∨ Loads s.pc i) ∧
        ∀ i, s.iread ≤ i → i < s.iwrite →
          ((s.slot i).ireadExp = i ∧ (s.slot i).data = G.pushed[i]?) ∨ Stores s.pc i) := by
  have hrun : holdsAfter (ghost step record) ((new 2 : MpmcQueue Nat), ⟨[], []⟩)
      [.tryPush 0 7, .resume 0, .resume 0, .resume 0, .tryPush 1 8, .resume 1, .resume 1,
        .tryPop 2, .resume 2, .resume 2, .resume 2]
      (fun p : MpmcQueue Nat × MpmcHist Nat => p.1.iwrite = 2 ∧ p.1.iread = 1 ∧
        p.2.pushed = [7, 8] ∧ p.2.got = [(0, some 7)]) = true := by
    decide +kernel
  obtain ⟨⟨s, G⟩, hreach, hw, hr, hp, hg⟩ := exists_of_holdsAfter _ hrun
  exact ⟨by norm_num, s, G, hreach, hw, hr, hp, hg, mpmcQueue_of_reach (by norm_num) hreach⟩

/-! ### A call, seen from the thread that makes it -/

/-- A step moves only its own thread. -/
theorem step_pc_of_ne {s t : MpmcQueue α} {a : QAction α} (h : s.step a = some t) {d : Nat}
    (hd : d ≠ a.thread) : t.pc d = s.pc d := by
  cases a with
  | tryPush c data =>
      simp only [step] at h
      split at h <;> cases h
      exact Function.update_of_ne hd _ _
  | tryPop c =>
      simp only [step] at h
      split at h <;> cases h
      exact Function.update_of_ne hd _ _
  | resume c =>
      simp only [step, resume] at h
      split at h
      · cases h
      all_goals
        (try split at h) <;> cases h <;> exact Function.update_of_ne hd _ _

/-- A step never moves `iread_` down. -/
theorem step_iread_le {s t : MpmcQueue α} {a : QAction α} (h : s.step a = some t) :
    s.iread ≤ t.iread := by
  cases a with
  | tryPush c data =>
      simp only [step] at h
      split at h <;> cases h
      exact le_refl _
  | tryPop c =>
      simp only [step] at h
      split at h <;> cases h
      exact le_refl _
  | resume c =>
      simp only [step, resume] at h
      split at h
      · cases h
      all_goals
        (try split at h) <;> cases h <;> simp [setPc, finish, setSlot]
      omega

/-- `try_push` starts by loading `iwrite_`. -/
theorem step_tryPush {s t : MpmcQueue α} {c : Nat} {d : α} (h : s.step (.tryPush c d) = some t) :
    t.pc c = .pushCheck d s.iwrite ∧ t.iwrite = s.iwrite ∧ t.iread = s.iread := by
  simp only [step] at h
  split at h <;> cases h
  simp [setPc]

/-- `try_pop` starts by loading `iread_`. -/
theorem step_tryPop {s t : MpmcQueue α} {c : Nat} (h : s.step (.tryPop c) = some t) :
    t.pc c = .popCheck s.iread ∧ t.iwrite = s.iwrite ∧ t.iread = s.iread := by
  simp only [step] at h
  split at h <;> cases h
  simp [setPc]

/-- A step of a thread in `try_push d`: it stays in the call, and only the compare-exchange that
claims its index records `d` and moves `iwrite_`; or it returns, `false` before the claim and
`true` after it. -/
theorem resume_of_pushes [DecidableEq α] {s t : MpmcQueue α} {c : Nat} {d : α} (G : MpmcHist α)
    (hc : (s.pc c).pushes d = true) (h : s.step (.resume c) = some t) :
    t.iread = s.iread ∧
    ((t.pc c).pushes d = true ∧
      (s.record (.resume c) G = G ∧ t.iwrite = s.iwrite ∧ (t.pc c).claimed = (s.pc c).claimed ∨
        s.record (.resume c) G = { G with pushed := G.pushed ++ [d] } ∧
          t.iwrite = s.iwrite + 1 ∧ (s.pc c).claimed = false ∧ (t.pc c).claimed = true) ∨
    t.pc c = .idle ∧ t.ret c = some (s.pc c).claimed ∧ s.record (.resume c) G = G ∧
      t.iwrite = s.iwrite) := by
  simp only [step, resume] at h
  simp only [record]
  -- one case for each place of `try_push`
  cases hpc : s.pc c with
  | pushCheck d' iw =>
      rw [hpc] at h hc
      obtain rfl : d' = d := by simpa [QPc.pushes] using hc
      simp only at h ⊢
      split_ifs at h <;> cases h <;> simp [setPc, finish, QPc.pushes, QPc.claimed]
  | pushCas d' iw =>
      rw [hpc] at h hc
      obtain rfl : d' = d := by simpa [QPc.pushes] using hc
      simp only at h ⊢
      split_ifs at h with hx <;> cases h <;> simp [setPc, QPc.pushes, QPc.claimed, hx]
  | pushStore d' iw =>
      rw [hpc] at h hc
      obtain rfl : d' = d := by simpa [QPc.pushes] using hc
      cases h
      simp [setPc, finish, setSlot, QPc.claimed]
  | _ => rw [hpc] at hc; cases hc

/-- A step of a thread in `try_pop`: it stays in the call, recording nothing; or it returns
`false`, recording nothing, or `true`, recording the index it read with the value it returns. -/
theorem resume_of_pops {s t : MpmcQueue α} {c : Nat} (G : MpmcHist α) (hc : (s.pc c).pops = true)
    (h : s.step (.resume c) = some t) :
    t.iwrite = s.iwrite ∧ s.iread ≤ t.iread ∧
    ((t.pc c).pops = true ∧ s.record (.resume c) G = G ∨
      t.pc c = .idle ∧ t.ret c = some false ∧ s.record (.resume c) G = G ∨
      t.pc c = .idle ∧ t.ret c = some true ∧
        ∃ i, s.record (.resume c) G = { G with got := G.got ++ [(i, t.result c)] }) := by
  simp only [step, resume] at h
  simp only [record]
  -- one case for each place of `try_pop`
  cases hpc : s.pc c with
  | popCheck i =>
      rw [hpc] at h
      simp only at h ⊢
      split_ifs at h <;> cases h <;> simp [setPc, finish, QPc.pops]
  | popCas i =>
      rw [hpc] at h
      simp only at h ⊢
      split_ifs at h with hx <;> cases h <;> simp [setPc, QPc.pops]
      omega
  | popLoad i =>
      rw [hpc] at h
      cases h
      simp [setPc, finish, setSlot]
  | _ => rw [hpc] at hc; cases hc

end MpmcQueue

/-! ### The values still in the queue -/

theorem List.filterMap_getElem?_range {α : Type} (l : List α) (m : Nat) :
    (List.range m).filterMap (l[·]?) = l.take m := by
  induction m with
  | zero => simp
  | succ m ih =>
      rw [List.range_succ, List.filterMap_append, ih, List.take_add_one]
      cases h : l[m]? <;> simp [h]

/-- A list is, up to order, its values at the indices not read followed by the values read,
when each index read is in the list, read once, with the value there. -/
theorem List.perm_unread_append_read {α : Type} {l : List α} {got : List (Nat × Option α)}
    (hgot : ∀ p ∈ got, p.1 < l.length ∧ p.2 = l[p.1]?) (hnd : (got.map Prod.fst).Nodup) :
    l.Perm (((List.range l.length).filter (· ∉ got.map Prod.fst)).filterMap (l[·]?) ++
      (got.map Prod.snd).reduceOption) := by
  -- the indices read are, up to order, those of `range` that are in `got`
  have hidx : ((List.range l.length).filter (· ∈ got.map Prod.fst)).Perm (got.map Prod.fst) := by
    refine (List.perm_ext_iff_of_nodup (List.nodup_range.filter _) hnd).mpr fun i => ?_
    simp only [List.mem_filter, List.mem_range, decide_eq_true_eq, List.mem_map]
    constructor
    · exact fun h => h.2
    · rintro ⟨p, hp, rfl⟩
      exact ⟨(hgot p hp).1, p, hp, rfl⟩
  have hread : (got.map Prod.fst).filterMap (l[·]?) = (got.map Prod.snd).reduceOption := by
    rw [List.filterMap_map, List.reduceOption, List.filterMap_map]
    exact List.filterMap_congr fun p hp => by simp [(hgot p hp).2]
  have hsplit : (List.range l.length).Perm
      ((List.range l.length).filter (· ∉ got.map Prod.fst) ++
        (List.range l.length).filter (· ∈ got.map Prod.fst)) := by
    have h := List.filter_append_perm (· ∈ got.map Prod.fst) (List.range l.length)
    simp only [← decide_not] at h
    exact (List.perm_append_comm.trans h).symm
  have hl : l = (List.range l.length).filterMap (l[·]?) := by
    rw [List.filterMap_getElem?_range, List.take_length]
  rw [← hread]
  conv_lhs => rw [hl]
  refine (hsplit.filterMap _).trans ?_
  rw [List.filterMap_append]
  exact (hidx.filterMap _).append_left _

/-- The values pushed at the indices no `try_pop` has read, in index order: those from `iread_`
on, and those whose index a consumer has claimed and not yet read. -/
def MpmcHist.unread {α : Type} (G : MpmcHist α) : List α :=
  ((List.range G.pushed.length).filter (· ∉ G.got.map Prod.fst)).filterMap (G.pushed[·]?)

/-- **No value is lost**: every value pushed is still unread or was read, once. -/
theorem MpmcQueue.MpmcInv.pushed_perm {α : Type} {s : MpmcQueue α} {G : MpmcHist α}
    (hI : MpmcQueue.MpmcInv s G) :
    G.pushed.Perm (G.unread ++ (G.got.map Prod.snd).reduceOption) :=
  List.perm_unread_append_read
    (fun p hp => ⟨by have := hI.got p hp; have := hI.read_le; have := hI.pushed; omega,
      (hI.got p hp).2⟩) hI.gotNodup

end Ffrt.Pattern
