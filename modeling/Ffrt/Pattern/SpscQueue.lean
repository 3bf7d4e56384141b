import Ffrt.Pattern.LfQueue
import Ffrt.Support.Ring

/-!
# Pattern — the single-producer single-consumer queue

`spsc_queue<T>` (`interfaces/kits/cpp/pattern/job_utils.h`), the queue under
`lf_queue<false, false, T>` and so under `job_ring<false>`: a ring of `align2n(cap)` slots, each
with a flag `valid`; the producer's index `iwrite_` and its count `cached_write` of the pushes it
may make before it reads `iread_` again; and the consumer's index `iread_`.  One producer calls
`try_push` and one consumer `try_pop`, and each atomic operation is a step of the thread that runs
it.  The producer's write of `data` and release store of `valid`, with its updates of `iwrite_`
and `cached_write`, which no other thread reads, are one step; so are the consumer's read of
`data` and its store of `valid`; its `fetch_add` of `iread_` is a step of its own.  Indices are
unbounded, as for `mpmc_queue`.

* `spscInv_step`: every step keeps `SpscInv`, with a ghost of the values pushed and popped.
* `spscQueue_of_reach`: on every run the values popped are the values pushed, in order, each
  once, and those not yet popped are in their slots; the queue never holds more than
  `capacity - 1` values; `try_push` fails exactly when it holds that many, and `try_pop` exactly
  when it is empty.  So a queue of capacity `1`, which `align2n` gives for `cap ≤ 1`, takes no
  value at all (`tryPush_fails_of_le_one`).
-/

namespace Ffrt.Pattern

open Machine

/-- A slot: `data` (`none` before its first write) and `valid`, set while the slot holds a value
not yet popped. -/
structure SpscItem (α : Type) where
  data : Option α
  valid : Bool

/-- Where the producer is in `try_push`. -/
inductive PushPc (α : Type)
  | idle
  /-- There is room: writing `data` into the slot of `iwrite_` is next. -/
  | store (data : α)

/-- Where the consumer is in `try_pop`, with the index it loaded. -/
inductive PopPc
  | idle
  /-- The slot of `iread` was `valid`: reading `data` and clearing `valid` is next. -/
  | load (iread : Nat)
  /-- `iread_.fetch_add(1)` is next. -/
  | advance

/-- An `spsc_queue` with its producer and its consumer: where each is, what its last call
returned, and the value the consumer's last successful `try_pop` gave it. -/
structure SpscQueue (α : Type) where
  capacity : Nat
  mask : Nat
  cachedWrite : Nat
  q : Nat → SpscItem α
  iwrite : Nat
  iread : Nat
  push : PushPc α
  pop : PopPc
  pushRet : Option Bool
  popRet : Option Bool
  result : Option α

/-- The producer's and the consumer's actions. -/
inductive SpscAction (α : Type)
  | tryPush (data : α)
  | tryPop
  | resumePush
  | resumePop

namespace SpscQueue

variable {α : Type}

/-- The constructor: `capacity(align2n(cap))`, `mask(capacity - 1)`, `cached_write` at
`capacity - 1`, and every slot not `valid`. -/
def new (cap : Nat) : SpscQueue α :=
  let capacity := align2n cap
  ⟨capacity, capacity - 1, capacity - 1, fun _ => ⟨none, false⟩, 0, 0, .idle, .idle, none, none,
    none⟩

/-- The slot of index `i`: `q[i & mask]`. -/
def slot (s : SpscQueue α) (i : Nat) : SpscItem α := s.q (i &&& s.mask)

/-- The slot of index `i` becomes `it`. -/
@[simps]
def setSlot (s : SpscQueue α) (i : Nat) (it : SpscItem α) : SpscQueue α :=
  { s with q := Function.update s.q (i &&& s.mask) it }

/-- `try_push(data)` up to its write: with `cached_write` at `0` it loads `iread_` and counts the
room again, and returns `false` if there is none. -/
def tryPush (s : SpscQueue α) (data : α) : SpscQueue α :=
  if s.cachedWrite = 0 then
    let cachedWrite := s.iread + s.capacity - 1 - s.iwrite
    if cachedWrite = 0 then { s with cachedWrite := cachedWrite, pushRet := some false }
    else { s with cachedWrite := cachedWrite, push := .store data }
  else { s with push := .store data }

/-- `try_pop()` up to its read: the slot of `iread_` not `valid` returns `false`. -/
def tryPop (s : SpscQueue α) : SpscQueue α :=
  if !(s.slot s.iread).valid then { s with popRet := some false }
  else { s with pop := .load s.iread }

/-- The producer's write: `data` and `valid` into the slot of `iwrite_`, then `iwrite_++` and
`cached_write--`, and `true` returned. -/
def resumePush (s : SpscQueue α) : Option (SpscQueue α) :=
  match s.push with
  | .idle => none
  | .store data =>
      some { s.setSlot s.iwrite ⟨some data, true⟩ with
        iwrite := s.iwrite + 1, cachedWrite := s.cachedWrite - 1, push := .idle,
        pushRet := some true }

/-- The consumer's read of `data` and clearing of `valid`, then its `fetch_add` and `true`
returned. -/
def resumePop (s : SpscQueue α) : Option (SpscQueue α) :=
  match s.pop with
  | .idle => none
  | .load iread =>
      some { s.setSlot iread { s.slot iread with valid := false } with
        pop := .advance, result := (s.slot iread).data }
  | .advance => some { s with iread := s.iread + 1, pop := .idle, popRet := some true }

/-- One step: a call starts only when its thread is in no call. -/
def step (s : SpscQueue α) : SpscAction α → Option (SpscQueue α)
  | .tryPush data =>
      match s.push with
      | .idle => some (s.tryPush data)
      | .store _ => none
  | .tryPop =>
      match s.pop with
      | .idle => some s.tryPop
      | _ => none
  | .resumePush => s.resumePush
  | .resumePop => s.resumePop

/-! ### The invariant -/

/-- What a run has done: the values the producer wrote, in order, and what each read of the
consumer took. -/
structure SpscHist (α : Type) where
  pushed : List α
  popped : List (Option α)

/-- The ghost's step: a write records its value, a read what it took. -/
def record (s : SpscQueue α) : SpscAction α → SpscHist α → SpscHist α
  | .resumePush, G =>
      match s.push with
      | .store data => { G with pushed := G.pushed ++ [data] }
      | .idle => G
  | .resumePop, G =>
      match s.pop with
      | .load iread => { G with popped := G.popped ++ [(s.slot iread).data] }
      | _ => G
  | _, G => G

/-- The index the consumer reads next once its `try_pop` is done: `iread_`, one more while a
`try_pop` has cleared its slot and not yet moved `iread_`. -/
def readDone (s : SpscQueue α) : Nat :=
  match s.pop with
  | .advance => s.iread + 1
  | _ => s.iread

/-- The invariant of an `spsc_queue` and the ghost of its run.  The slots of the lap from
`readDone` are read off the indices: `valid`, holding the value pushed there, below `iwrite_`,
and not `valid` from `iwrite_` on. -/
structure SpscInv (s : SpscQueue α) (G : SpscHist α) : Prop where
  mask : s.mask = s.capacity - 1
  pow : s.capacity.isPowerOfTwo
  cap_le : s.capacity ≤ 2 ^ 63
  /-- `cached_write` never counts more room than `iread_` leaves, one slot kept free. -/
  room : s.iwrite + s.cachedWrite + 1 ≤ s.iread + s.capacity
  read_le : s.readDone ≤ s.iwrite
  pushed : G.pushed.length = s.iwrite
  popped : G.popped = (G.pushed.take s.readDone).map some
  slots : ∀ i, s.readDone ≤ i → i < s.readDone + s.capacity →
    (s.slot i).valid = decide (i < s.iwrite) ∧ (i < s.iwrite → (s.slot i).data = G.pushed[i]?)
  store : ∀ d, s.push = .store d → 0 < s.cachedWrite
  load : ∀ i, s.pop = .load i → i = s.iread ∧ s.iread < s.iwrite

/-- With room counted from `iread_`, `try_push` goes on to its write, whatever `cached_write`
says. -/
theorem tryPush_push_of_lt {s : SpscQueue α} (hlt : s.iwrite + 1 < s.iread + s.capacity)
    (d : α) : (s.tryPush d).push = .store d := by
  rw [SpscQueue.tryPush]
  dsimp only
  split_ifs with h₀ h₁
  · omega
  · rfl
  · rfl

namespace SpscInv

variable {s : SpscQueue α} {G : SpscHist α}

theorem capacity_pos (hI : SpscInv s G) : 0 < s.capacity := Nat.pos_of_isPowerOfTwo hI.pow

/-- `q[i & mask]` is slot `i % capacity`. -/
theorem slot_eq (hI : SpscInv s G) (i : Nat) : s.slot i = s.q (i % s.capacity) := by
  rw [slot, hI.mask, Ring.and_pred_eq_mod hI.pow]

/-- Writing the slot of index `j` changes the slot of `j` and leaves the others of its lap. -/
theorem slot_setSlot (hI : SpscInv s G) (j i : Nat) (it : SpscItem α) :
    (s.setSlot j it).slot i = if i % s.capacity = j % s.capacity then it else s.slot i := by
  rw [slot, setSlot_q, setSlot_mask, hI.mask, Ring.and_pred_eq_mod hI.pow,
    Ring.and_pred_eq_mod hI.pow, Function.update_apply, hI.slot_eq]

/-- The invariant reads the capacity, the mask, the slots, `iwrite_` and the index the consumer
reads next; a move that keeps these, the room that `cached_write` counts, and what the threads'
places say, keeps it. -/
theorem of_view {t : SpscQueue α} (hI : SpscInv s G) (hcap : t.capacity = s.capacity)
    (hmask : t.mask = s.mask) (hq : t.q = s.q) (hw : t.iwrite = s.iwrite)
    (hrd : t.readDone = s.readDone) (hroom : t.iwrite + t.cachedWrite + 1 ≤ t.iread + t.capacity)
    (hstore : ∀ d, t.push = .store d → 0 < t.cachedWrite)
    (hload : ∀ i, t.pop = .load i → i = t.iread ∧ t.iread < t.iwrite) : SpscInv t G := by
  have hslot : ∀ i, t.slot i = s.slot i := fun i => by rw [slot, slot, hq, hmask]
  refine ⟨hmask.trans (hcap ▸ hI.mask), hcap ▸ hI.pow, hcap ▸ hI.cap_le, hroom,
    hrd ▸ hw ▸ hI.read_le, hw ▸ hI.pushed, hrd ▸ hI.popped, fun i h₁ h₂ => ?_, hstore, hload⟩
  rw [hslot, hw]
  rw [hrd] at h₁
  rw [hrd, hcap] at h₂
  exact hI.slots i h₁ h₂

/-- **`try_push` up to its write**: a `cached_write` of `0` is counted again from `iread_`, which
gives the room exactly, and the call goes on only with room. -/
theorem tryPush (hI : SpscInv s G) (hp : s.push = .idle) (d : α) : SpscInv (s.tryPush d) G := by
  have hroom := hI.room
  rw [SpscQueue.tryPush]
  dsimp only
  split_ifs with h₀ h₁
  · -- no room: `false`
    refine hI.of_view rfl rfl rfl rfl rfl ?_ (fun d' h => ?_) hI.load
    · show s.iwrite + (s.iread + s.capacity - 1 - s.iwrite) + 1 ≤ s.iread + s.capacity
      omega
    · simp [hp] at h
  · -- room counted again
    refine hI.of_view rfl rfl rfl rfl rfl ?_ (fun _ _ => Nat.pos_of_ne_zero h₁) hI.load
    show s.iwrite + (s.iread + s.capacity - 1 - s.iwrite) + 1 ≤ s.iread + s.capacity
    omega
  · exact hI.of_view rfl rfl rfl rfl rfl hroom (fun _ _ => Nat.pos_of_ne_zero h₀) hI.load

/-- **`try_pop` up to its read**: the slot of `iread_` is `valid` exactly when `iread_` is below
`iwrite_`. -/
theorem tryPop (hI : SpscInv s G) (hp : s.pop = .idle) : SpscInv s.tryPop G := by
  have hrd : s.readDone = s.iread := by simp [readDone, hp]
  unfold SpscQueue.tryPop
  split_ifs with hv
  · exact hI.of_view rfl rfl rfl rfl rfl hI.room hI.store hI.load
  · refine hI.of_view rfl rfl rfl rfl (by rw [hrd]; rfl) hI.room hI.store fun i h => ?_
    -- the slot of `iread_` is `valid`, so a value is pushed there
    have hs := (hI.slots s.iread (by omega) (by have := hI.capacity_pos; omega)).1
    simp only [Bool.not_eq_true', Bool.not_eq_false] at hv
    rw [hv] at hs
    cases h
    exact ⟨rfl, of_decide_eq_true hs.symm⟩

/-- **The producer's write** fills the slot of `iwrite_`, which the room keeps within the lap
from the consumer's index and apart from every slot holding a value. -/
theorem write {d : α} (hI : SpscInv s G) (hp : s.push = .store d) :
    SpscInv { s.setSlot s.iwrite ⟨some d, true⟩ with
        iwrite := s.iwrite + 1, cachedWrite := s.cachedWrite - 1, push := .idle,
        pushRet := some true }
      { G with pushed := G.pushed ++ [d] } := by
  generalize ht : { s.setSlot s.iwrite ⟨some d, true⟩ with
    iwrite := s.iwrite + 1, cachedWrite := s.cachedWrite - 1, push := .idle,
    pushRet := some true } = t
  have hcap : t.capacity = s.capacity := ht ▸ rfl
  have hw : t.iwrite = s.iwrite + 1 := ht ▸ rfl
  have hcw : t.cachedWrite = s.cachedWrite - 1 := ht ▸ rfl
  have hr : t.iread = s.iread := ht ▸ rfl
  have hrd : t.readDone = s.readDone := ht ▸ rfl
  have hpush : t.push = .idle := ht ▸ rfl
  have hpop : t.pop = s.pop := ht ▸ rfl
  have hslot : ∀ i, t.slot i =
      if i % s.capacity = s.iwrite % s.capacity then ⟨some d, true⟩ else s.slot i := by
    intro i
    rw [← ht]
    exact hI.slot_setSlot ..
  have h₀ := hI.store d hp
  have hroom := hI.room
  have hread : s.iread ≤ s.readDone := by unfold readDone; split <;> omega
  have hle := hI.read_le
  have hlen := hI.pushed
  refine ⟨ht ▸ hI.mask, hcap ▸ hI.pow, hcap ▸ hI.cap_le, by omega, by omega, by simp [hw, hlen],
    ?_, fun i h₁ h₂ => ?_, fun d' h => by simp [hpush] at h, fun i h => ?_⟩
  · rw [hrd, List.take_append_of_le_length (by omega)]
    exact hI.popped
  · -- the slot of `iwrite_` now holds `d`; the others of the lap are as they were
    rw [hrd] at h₁
    rw [hrd, hcap] at h₂
    rw [hslot, hw]
    split_ifs with hm
    · obtain rfl : i = s.iwrite := Ring.eq_of_mod_eq hm (by omega) (by omega)
      refine ⟨by simp, fun _ => ?_⟩
      rw [← hlen, List.getElem?_concat_length]
    · have hne : i ≠ s.iwrite := fun h => hm (h ▸ rfl)
      obtain ⟨hv, hd⟩ := hI.slots i h₁ h₂
      refine ⟨by rw [hv]; simp only [decide_eq_decide]; omega, fun hi => ?_⟩
      rw [hd (by omega), List.getElem?_append_left (by omega)]
  · rw [hpop] at h
    obtain ⟨h₁, h₂⟩ := hI.load i h
    exact ⟨h₁.trans hr.symm, by omega⟩

/-- **The consumer's read** takes the value pushed at `iread_` and frees its slot for the index
a lap on, which the room keeps at or past `iwrite_`. -/
theorem read {j : Nat} (hI : SpscInv s G) (hp : s.pop = .load j) :
    SpscInv { s.setSlot j { s.slot j with valid := false } with
        pop := .advance, result := (s.slot j).data }
      { G with popped := G.popped ++ [(s.slot j).data] } := by
  obtain ⟨rfl, hjw⟩ := hI.load j hp
  generalize ht : { s.setSlot s.iread { s.slot s.iread with valid := false } with
    pop := .advance, result := (s.slot s.iread).data } = t
  have hcap : t.capacity = s.capacity := ht ▸ rfl
  have hw : t.iwrite = s.iwrite := ht ▸ rfl
  have hcw : t.cachedWrite = s.cachedWrite := ht ▸ rfl
  have hr : t.iread = s.iread := ht ▸ rfl
  have hrd : t.readDone = s.iread + 1 := ht ▸ rfl
  have hpush : t.push = s.push := ht ▸ rfl
  have hpop : t.pop = .advance := ht ▸ rfl
  have hslot : ∀ i, t.slot i = if i % s.capacity = s.iread % s.capacity then
      { s.slot s.iread with valid := false } else s.slot i := by
    intro i
    rw [← ht]
    exact hI.slot_setSlot ..
  have hrd₀ : s.readDone = s.iread := by simp [readDone, hp]
  have hpos := hI.capacity_pos
  have hroom := hI.room
  have hlen := hI.pushed
  -- what the read takes is the value pushed at `iread_`
  have hdata : (s.slot s.iread).data = G.pushed[s.iread]? :=
    (hI.slots s.iread (by omega) (by omega)).2 hjw
  refine ⟨ht ▸ hI.mask, hcap ▸ hI.pow, hcap ▸ hI.cap_le, by omega, by omega, hw ▸ hlen, ?_,
    fun i h₁ h₂ => ?_, fun d h => hcw ▸ hI.store d (hpush ▸ h), fun i h => by simp [hpop] at h⟩
  · have hb : s.iread < G.pushed.length := by omega
    rw [hrd, hI.popped, hrd₀, List.take_add_one, List.map_append, hdata,
      List.getElem?_eq_getElem hb]
    rfl
  · rw [hrd] at h₁
    rw [hrd, hcap] at h₂
    rw [hslot, hw]
    split_ifs with hm
    · -- the freed slot is that of `iread_ + capacity`, at or past `iwrite_`
      have hi : i = s.iread + s.capacity :=
        Ring.eq_of_mod_eq (by rw [hm, Nat.add_mod_right]) (by omega) (by omega)
      refine ⟨?_, fun h => absurd h (by omega)⟩
      show false = decide (i < s.iwrite)
      rw [eq_comm, decide_eq_false_iff_not]
      omega
    · have hi : i < s.iread + s.capacity := by
        by_contra hi
        exact hm (by rw [show i = s.iread + s.capacity by omega, Nat.add_mod_right])
      exact hI.slots i (by rw [hrd₀]; omega) (by rw [hrd₀]; exact hi)

/-- A full queue: `cached_write` is `0`, and counting the room again finds none. -/
theorem tryPush_of_full (hI : SpscInv s G) (hfull : s.iwrite + 1 = s.iread + s.capacity)
    (d : α) : s.tryPush d = { s with cachedWrite := 0, pushRet := some false } := by
  have hroom := hI.room
  have h₀ : s.cachedWrite = 0 := by omega
  have h₁ : s.iread + s.capacity - 1 - s.iwrite = 0 := by omega
  rw [SpscQueue.tryPush, if_pos h₀]
  dsimp only
  rw [if_pos h₁, h₁]

/-- **`try_push` fails exactly when the queue is full**: `capacity - 1` values, counted from
`iread_`. -/
theorem tryPush_idle_iff (hI : SpscInv s G) (d : α) :
    (s.tryPush d).push = .idle ↔ s.iwrite + 1 = s.iread + s.capacity := by
  have hroom := hI.room
  constructor
  · intro h
    by_contra hne
    rw [tryPush_push_of_lt (by omega) d] at h
    cases h
  · intro hfull
    rw [hI.tryPush_of_full hfull d]
    show s.push = .idle
    -- a full queue is one whose producer is in no call: `cached_write` is `0`
    cases hp : s.push with
    | idle => rfl
    | store d' => exact absurd (hI.store d' hp) (by omega)

/-- **`try_pop` fails exactly when the queue is empty.** -/
theorem tryPop_idle_iff (hI : SpscInv s G) (hp : s.pop = .idle) :
    s.tryPop.pop = .idle ↔ s.iread = s.iwrite := by
  have hrd : s.readDone = s.iread := by simp [readDone, hp]
  have hle := hI.read_le
  have hv := (hI.slots s.iread (by omega) (by have := hI.capacity_pos; omega)).1
  rw [SpscQueue.tryPop]
  split_ifs with h
  · simp only [Bool.not_eq_true'] at h
    rw [h] at hv
    have : ¬ s.iread < s.iwrite := fun hlt => by simp [hlt] at hv
    exact ⟨fun _ => by omega, fun _ => hp⟩
  · simp only [Bool.not_eq_true', Bool.not_eq_false] at h
    rw [h] at hv
    have : s.iread < s.iwrite := of_decide_eq_true hv.symm
    exact ⟨fun h' => absurd h' (by simp), fun _ => by omega⟩

end SpscInv

/-- The constructor's queue, with nothing pushed or popped, is at its invariant when `align2n`
does not wrap. -/
theorem spscInv_new {cap : Nat} (hcap : cap ≤ 2 ^ 63) :
    SpscInv (new cap : SpscQueue α) ⟨[], []⟩ where
  mask := rfl
  pow := align2n_isPowerOfTwo cap
  cap_le := align2n_le hcap
  room := by
    have := Nat.pos_of_isPowerOfTwo (align2n_isPowerOfTwo cap)
    show 0 + (align2n cap - 1) + 1 ≤ 0 + align2n cap
    omega
  read_le := le_refl _
  pushed := rfl
  popped := rfl
  slots i _ _ := ⟨by simp [new, slot], fun h => absurd h (by simp [new])⟩
  store d h := by simp [new] at h
  load i h := by simp [new] at h

/-- **Every step keeps the invariant**, the ghost recording what the step did. -/
theorem spscInv_step {s t : SpscQueue α} {G : SpscHist α} {a : SpscAction α}
    (hI : SpscInv s G) (h : s.step a = some t) : SpscInv t (s.record a G) := by
  cases a with
  | tryPush d =>
      simp only [step] at h
      split at h
      · next hp =>
        cases h
        exact hI.tryPush hp d
      · cases h
  | tryPop =>
      simp only [step] at h
      split at h
      · next hp =>
        cases h
        exact hI.tryPop hp
      · cases h
  | resumePush =>
      simp only [step, resumePush] at h
      simp only [record]
      split at h
      · cases h
      · next d hp =>
        cases h
        rw [hp]
        exact hI.write hp
  | resumePop =>
      simp only [step, resumePop] at h
      simp only [record]
      split at h
      · cases h
      · next j hp =>
        cases h
        rw [hp]
        exact hI.read hp
      · next hp =>
        cases h
        rw [hp]
        -- `fetch_add` moves `iread_` onto the index `readDone` already counted
        have hrd : s.readDone = s.iread + 1 := by simp [readDone, hp]
        have hroom := hI.room
        exact hI.of_view rfl rfl rfl rfl hrd.symm (by
          show s.iwrite + s.cachedWrite + 1 ≤ s.iread + 1 + s.capacity
          omega)
          (fun d h => hI.store d h) fun i h => by simp at h

/-- The invariant holds all along a run from the constructor, with the ghost of the run. -/
theorem spscInv_of_reach {cap : Nat} (hcap : cap ≤ 2 ^ 63) {p : SpscQueue α × SpscHist α}
    (h : Reach (ghost step record) (new cap, ⟨[], []⟩) p) : SpscInv p.1 p.2 := by
  have hinv : Invariant (ghost step record)
      fun p : SpscQueue α × SpscHist α => SpscInv p.1 p.2 := by
    intro p a q hp hq
    obtain ⟨hs, hg⟩ := ghost_eq_some.mp hq
    rw [hg]
    exact spscInv_step hp hs
  exact hinv.reach (spscInv_new hcap) h

/-- A step starts a call only from no call, and keeps the capacity. -/
theorem step_tryPush {s t : SpscQueue α} {d : α} (h : s.step (.tryPush d) = some t) :
    s.push = .idle ∧ t = s.tryPush d := by
  simp only [step] at h
  split at h
  · next hp =>
    cases h
    exact ⟨hp, rfl⟩
  · cases h

theorem step_tryPop {s t : SpscQueue α} (h : s.step .tryPop = some t) :
    s.pop = .idle ∧ t = s.tryPop := by
  simp only [step] at h
  split at h
  · next hp =>
    cases h
    exact ⟨hp, rfl⟩
  · cases h

/-- **An `spsc_queue` is a FIFO queue of `capacity - 1` places**, over every interleaving of its
producer and its consumer, when `align2n` does not wrap.  The values popped are the first values
pushed, in order, each once, and each value pushed and not yet popped is in its slot; the queue
never holds more than `capacity - 1` values; a `try_push` fails exactly when it holds that many,
and a `try_pop` exactly when it holds none. -/
theorem spscQueue_of_reach {cap : Nat} (hcap : cap ≤ 2 ^ 63) {s : SpscQueue α}
    {G : SpscHist α} (h : Reach (ghost step record) (new cap, ⟨[], []⟩) (s, G)) :
    G.popped = (G.pushed.take G.popped.length).map some ∧
      (∀ i, G.popped.length ≤ i → i < s.iwrite → (s.slot i).data = G.pushed[i]?) ∧
      s.iwrite + 1 ≤ s.iread + s.capacity ∧
      (∀ d t, s.step (.tryPush d) = some t →
        (t.push = .idle ↔ s.iwrite + 1 = s.iread + s.capacity)) ∧
      ∀ t, s.step .tryPop = some t → (t.pop = .idle ↔ s.iread = s.iwrite) := by
  have hI : SpscInv s G := spscInv_of_reach hcap h
  have hroom := hI.room
  have hle := hI.read_le
  have hread : s.iread ≤ s.readDone := by unfold readDone; split <;> omega
  -- the consumer has taken exactly the values below `readDone`
  have hlen : G.popped.length = s.readDone := by
    rw [hI.popped, List.length_map, List.length_take, hI.pushed]
    omega
  refine ⟨by rw [hlen]; exact hI.popped, fun i h₁ h₂ => ?_, by omega, fun d t ht => ?_,
    fun t ht => ?_⟩
  · rw [hlen] at h₁
    exact (hI.slots i h₁ (by omega)).2 h₂
  · obtain ⟨-, rfl⟩ := step_tryPush ht
    exact hI.tryPush_idle_iff d
  · obtain ⟨hp, rfl⟩ := step_tryPop ht
    exact hI.tryPop_idle_iff hp

/-- At capacity `2` the producer pushes `7`, the consumer pops it, and the producer pushes `8`:
the queue is full again with its one place, so the next `try_push` fails. -/
theorem spscQueue_of_reach_full :
    2 ≤ 2 ^ 63 ∧ ∃ (s : SpscQueue Nat) (G : SpscHist Nat),
      Reach (ghost step record) (new 2, ⟨[], []⟩) (s, G) ∧ s.iwrite = 2 ∧ s.iread = 1 ∧
      G.pushed = [7, 8] ∧ G.popped = [some 7] ∧
      (G.popped = (G.pushed.take G.popped.length).map some ∧
        (∀ i, G.popped.length ≤ i → i < s.iwrite → (s.slot i).data = G.pushed[i]?) ∧
        s.iwrite + 1 ≤ s.iread + s.capacity ∧
        (∀ d t, s.step (.tryPush d) = some t →
          (t.push = .idle ↔ s.iwrite + 1 = s.iread + s.capacity)) ∧
        ∀ t, s.step .tryPop = some t → (t.pop = .idle ↔ s.iread = s.iwrite)) := by
  have hrun : holdsAfter (ghost step record) ((new 2 : SpscQueue Nat), ⟨[], []⟩)
      [.tryPush 7, .resumePush, .tryPop, .resumePop, .resumePop, .tryPush 8, .resumePush]
      (fun p : SpscQueue Nat × SpscHist Nat => p.1.iwrite = 2 ∧ p.1.iread = 1 ∧
        p.2.pushed = [7, 8] ∧ p.2.popped = [some 7]) = true := by
    decide +kernel
  obtain ⟨⟨s, G⟩, hreach, hw, hr, hp, hg⟩ := exists_of_holdsAfter _ hrun
  exact ⟨by norm_num, s, G, hreach, hw, hr, hp, hg, spscQueue_of_reach (by norm_num) hreach⟩

end SpscQueue

end Ffrt.Pattern
