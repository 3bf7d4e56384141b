import Ffrt.Support.Machine

/-!
# Util — the single-producer queue

`SpmcQueue` (`src/util/spmc_queue.cpp`): a ring of `capacity_` slots `buf_` with the atomic
counters `head_` and `tail_`.  Each queue has an owner, the one thread that calls `PushTail` on
it; any thread calls `PopHead`, or `PopHeadToAnotherQueue` from any queue into one it owns.
Every atomic load, store and compare-exchange, and every access of a slot, is one step of the
thread that runs it, and `compare_exchange_weak` may fail spuriously.  A thread's load of
`tail_` of a queue it owns (in `PushTail`, and in `GetLength` of the destination) is folded into
the step after it, as no other thread moves that `tail_`.  The counters are unbounded: `size_t`
wraps only after `2 ^ 64` pushes.  Beside the code's state, each queue records the objects
`PushTail` accepted (`pushed`) and those its successful compare-exchanges took (`popped`), and
each thread what its call took and where it put each of them (`took`, `outs`), and the queue its
last `PushTail` pushed into with the length `tail_ - head_` when it loaded `head_` (`loaded`).

* `QInv`: a queue holds `pushed` from `head_` to `tail_`, slot `i % capacity_` holding the
  `i`-th, `tail_ - head_ ≤ capacity_`, and `popped` is what `pushed` has below `head_`.
* `PcInv`: what a thread knows of the queues from what it loaded.  A consumer whose `head` is
  still `head_` read the object `pushed` has there, since the producer writes a slot again only
  once `head_` has moved past it; the producer's stale `head` is at most `head_`.
* `LoadedInv`: the length `loaded` records is the `tail - head` that `PushTail` checks, and
  what it returned follows from it.
* `sysInv_of_reach`: every step keeps them, the ones of the stepping thread and those of all
  others, which the step may only move forward (`Rely`).
* `spmcQueue_of_reach`: so in every reachable state the queues pop what was pushed, once each
  and in order, no slot is written over before it is consumed, `PopHead` returns the object its
  compare-exchange took, `PushTail` returns `-1` only for a queue that was full when it loaded
  `head_`, every object a call took went to exactly one place, and `PopHeadToAnotherQueue`
  returns the number of objects it moved; it drops only a `nullptr` it took.
* `transfer_drops_null`: `PushTail(nullptr)` is accepted, and `PopHeadToAnotherQueue` takes
  that object, breaks out of its loop on it, and neither moves it nor passes it to `func`.
-/

namespace Ffrt.Util

/-- A `SpmcQueue` past `Init`: the slots `buf_` (`none` is `nullptr`, and what `malloc` is taken
to leave), `capacity_`, `head_` and `tail_`; `pushed` and `popped` are the objects `PushTail`
accepted and the objects the successful compare-exchanges on `head_` took, in order. -/
structure SpmcQueue (α : Type) where
  buf : Nat → Option α
  capacity : Nat
  head : Nat
  tail : Nat
  pushed : List (Option α)
  popped : List (Option α)

namespace SpmcQueue

variable {α : Type}

/-- The queue a successful `Init(capacity)` sets up. -/
def new (capacity : Nat) : SpmcQueue α := ⟨fun _ => none, capacity, 0, 0, [], []⟩

/-- `Init(capacity)`: `-1` (`none`) for a capacity of `0`. -/
def init (capacity : Nat) : Option (SpmcQueue α) :=
  if capacity = 0 then none else some (new capacity)

/-- `buf_[i % capacity_]`. -/
def slot (Q : SpmcQueue α) (i : Nat) : Option α := Q.buf (i % Q.capacity)

/-- A successful `head_.compare_exchange_weak(head, head + 1)`, which takes `res`. -/
@[simps]
def casHead (Q : SpmcQueue α) (res : Option α) : SpmcQueue α :=
  { Q with head := Q.head + 1, popped := Q.popped ++ [res] }

/-- `buf_[tail % capacity_] = object`. -/
@[simps]
def write (Q : SpmcQueue α) (tail : Nat) (object : Option α) : SpmcQueue α :=
  { Q with buf := Function.update Q.buf (tail % Q.capacity) object }

/-- `tail_.store(tail + 1)`, which accepts `object`. -/
@[simps]
def storeTail (Q : SpmcQueue α) (tail : Nat) (object : Option α) : SpmcQueue α :=
  { Q with tail := tail + 1, pushed := Q.pushed ++ [object] }

end SpmcQueue

/-- Where a `PopHead` or a `PushTail` returns to: its caller, or the loop of
`PopHeadToAnotherQueue` from `src` into `dst`, with its `elementNum` and `pushCount`. -/
inductive Cont
  | caller
  | transfer (src dst elementNum pushCount : Nat)
  deriving DecidableEq

/-- Where a thread is, with the locals it holds. -/
inductive Pc (α : Type)
  | idle
  /-- `PopHead` on queue `q`: `auto head = head_.load()` is next. -/
  | popLoadHead (q : Nat) (k : Cont)
  /-- `auto tail = tail_.load()` and the check `tail == head` are next. -/
  | popLoadTail (q head : Nat) (k : Cont)
  /-- `void* res = buf_[head % capacity_]` is next. -/
  | popRead (q head : Nat) (k : Cont)
  /-- `head_.compare_exchange_weak(head, head + 1)` is next. -/
  | popCas (q head : Nat) (res : Option α) (k : Cont)
  /-- `PushTail(object)` on queue `q`: `auto head = head_.load()` is next. -/
  | pushLoadHead (q : Nat) (object : Option α) (k : Cont)
  /-- The load of `tail_` and the check `tail - head < capacity_` are next. -/
  | pushCheck (q head : Nat) (object : Option α) (k : Cont)
  /-- `buf_[tail % capacity_] = object` is next. -/
  | pushWrite (q tail : Nat) (object : Option α) (k : Cont)
  /-- `tail_.store(tail + 1)` is next. -/
  | pushStore (q tail : Nat) (object : Option α) (k : Cont)
  /-- `PopHeadToAnotherQueue`: `dstQueue.GetLength() < dstQueue.GetCapacity()` is next. -/
  | xferLength (src dst elementNum pushCount : Nat)
  /-- The loop's `head_.load()` is next. -/
  | xferHead (src dst elementNum pushCount : Nat)
  /-- The loop's `tail_.load()` and the check `head != tail` are next. -/
  | xferTail (src dst elementNum pushCount head : Nat)
  deriving DecidableEq

/-- What a call returns. -/
inductive Ret (α : Type)
  | popHead (res : Option α)
  | pushTail (ret : Int)
  | transfer (pushCount : Nat)
  deriving DecidableEq

/-- Where a call put an object that one of its compare-exchanges took. -/
inductive Outcome (α : Type)
  /-- `PopHead` returned it to its caller. -/
  | returned (object : Option α)
  /-- `PopHeadToAnotherQueue` pushed it into its destination. -/
  | moved (object : Option α)
  /-- `PopHeadToAnotherQueue` passed it to `func`, as `PushTail` into the destination failed. -/
  | func (object : Option α)
  /-- `PopHeadToAnotherQueue` broke out of its loop on it. -/
  | dropped (object : Option α)
  deriving DecidableEq

/-- A thread: where it is, what its last call returned, and, for its current or last call,
the objects its compare-exchanges took and where it put them, and the queue of its last
`PushTail` with that queue's length when the call loaded `head_`. -/
structure Thread (α : Type) where
  pc : Pc α
  ret : Option (Ret α)
  took : List (Option α)
  outs : List (Outcome α)
  loaded : Option (Nat × Nat)

/-- The queues, and the threads that call them. -/
structure SpmcSys (α : Type) where
  queue : Nat → SpmcQueue α
  thread : Nat → Thread α

/-- The actions, each named by its thread. -/
inductive Action (α : Type)
  | popHead (c q : Nat)
  | pushTail (c q : Nat) (object : Option α)
  | popHeadToAnotherQueue (c src dst elementNum : Nat)
  | resume (c : Nat)
  /-- `compare_exchange_weak` fails although `head_` is `head`. -/
  | casFail (c : Nat)

variable {α : Type}

/-- The object a `PushTail` holds for `PopHeadToAnotherQueue`, which took it. -/
def Cont.held (object : Option α) : Cont → List (Option α)
  | .caller => []
  | .transfer .. => [object]

/-- The thread is in no call. -/
def Pc.isIdle : Pc α → Bool
  | .idle => true
  | _ => false

/-- The object the thread took and holds. -/
def Pc.held : Pc α → List (Option α)
  | .pushLoadHead _ object k | .pushCheck _ _ object k | .pushWrite _ _ object k
  | .pushStore _ _ object k => k.held object
  | _ => []

/-- Where the `PopHead` or `PushTail` the thread is in returns to. -/
def Pc.cont : Pc α → Option Cont
  | .popLoadHead _ k | .popLoadTail _ _ k | .popRead _ _ k | .popCas _ _ _ k
  | .pushLoadHead _ _ k | .pushCheck _ _ _ k | .pushWrite _ _ _ k | .pushStore _ _ _ k => some k
  | _ => none

/-- The object an outcome is about. -/
def Outcome.object : Outcome α → Option α
  | .returned object | .moved object | .func object | .dropped object => object

/-- The outcome is a push into the destination. -/
def Outcome.isMoved : Outcome α → Bool
  | .moved _ => true
  | _ => false

namespace Thread

/-- A call starts at `p`: nothing returned, taken or put yet. -/
def call (p : Pc α) : Thread α := ⟨p, none, [], [], none⟩

/-- The call returns `r`. -/
def finish (th : Thread α) (r : Ret α) : Thread α := { th with pc := .idle, ret := some r }

/-- `PopHead` finds the queue empty and returns `nullptr`; `PopHeadToAnotherQueue` then breaks
out of its loop. -/
def retEmpty (th : Thread α) : Cont → Thread α
  | .caller => th.finish (.popHead none)
  | .transfer _ _ _ pushCount => th.finish (.transfer pushCount)

/-- `PopHead` took `res` and returns it; `PopHeadToAnotherQueue` breaks on `nullptr` and pushes
anything else into its destination. -/
def retTaken (th : Thread α) (res : Option α) : Cont → Thread α
  | .caller => { th.finish (.popHead res) with outs := th.outs ++ [.returned res] }
  | .transfer src dst elementNum pushCount =>
      match res with
      | none => { th.finish (.transfer pushCount) with outs := th.outs ++ [.dropped res] }
      | some _ => { th with pc := .pushLoadHead dst res (.transfer src dst elementNum pushCount) }

/-- `PushTail(object)` returns `0` if `ok`, else `-1`.  `PopHeadToAnotherQueue` counts a push and
stops at `elementNum`; a rejected object goes to `func`, and the call returns. -/
def retPush (th : Thread α) (object : Option α) (ok : Bool) : Cont → Thread α
  | .caller => th.finish (.pushTail (if ok then 0 else -1))
  | .transfer src dst elementNum pushCount =>
      if ok then
        if pushCount + 1 = elementNum then
          { th.finish (.transfer (pushCount + 1)) with outs := th.outs ++ [.moved object] }
        else
          { th with pc := .xferLength src dst elementNum (pushCount + 1),
                    outs := th.outs ++ [.moved object] }
      else { th.finish (.transfer pushCount) with outs := th.outs ++ [.func object] }

end Thread

namespace SpmcSys

/-- Every queue past `Init(caps q)`, every thread in no call. -/
def init (caps : Nat → Nat) : SpmcSys α :=
  ⟨fun q => .new (caps q), fun _ => ⟨.idle, none, [], [], none⟩⟩

/-- Thread `c` becomes `th`. -/
def setThread (s : SpmcSys α) (c : Nat) (th : Thread α) : SpmcSys α :=
  { s with thread := Function.update s.thread c th }

/-- Thread `c` moves to `p`. -/
def setPc (s : SpmcSys α) (c : Nat) (p : Pc α) : SpmcSys α :=
  s.setThread c { s.thread c with pc := p }

/-- Queue `q` becomes `Q`. -/
def setQueue (s : SpmcSys α) (q : Nat) (Q : SpmcQueue α) : SpmcSys α :=
  { s with queue := Function.update s.queue q Q }

/-- Thread `c`'s next step; `none` when it is in no call. -/
def resume (s : SpmcSys α) (c : Nat) : Option (SpmcSys α) :=
  let th := s.thread c
  match th.pc with
  | .idle => none
  | .popLoadHead q k => some (s.setPc c (.popLoadTail q (s.queue q).head k))
  | .popLoadTail q head k =>
      if (s.queue q).tail = head then some (s.setThread c (th.retEmpty k))
      else some (s.setPc c (.popRead q head k))
  | .popRead q head k => some (s.setPc c (.popCas q head ((s.queue q).slot head) k))
  | .popCas q head res k =>
      if (s.queue q).head = head then
        some ((s.setQueue q ((s.queue q).casHead res)).setThread c
          ({ th with took := th.took ++ [res] }.retTaken res k))
      -- the failed compare-exchange loads `head_` into `head`, and the loop loads it again
      else some (s.setPc c (.popLoadHead q k))
  | .pushLoadHead q object k =>
      -- `loaded` is ghost: only this thread moves `tail_`, so the length it records is the
      -- `tail - head` of the check
      some (s.setThread c
        { th with
          pc := .pushCheck q (s.queue q).head object k
          loaded := some (q, (s.queue q).tail - (s.queue q).head) })
  | .pushCheck q head object k =>
      if (s.queue q).tail - head < (s.queue q).capacity then
        some (s.setPc c (.pushWrite q (s.queue q).tail object k))
      else some (s.setThread c (th.retPush object false k))
  | .pushWrite q tail object k =>
      some ((s.setQueue q ((s.queue q).write tail object)).setPc c (.pushStore q tail object k))
  | .pushStore q tail object k =>
      some ((s.setQueue q ((s.queue q).storeTail tail object)).setThread c
        (th.retPush object true k))
  | .xferLength src dst elementNum pushCount =>
      if (s.queue dst).tail - (s.queue dst).head < (s.queue dst).capacity then
        some (s.setPc c (.xferHead src dst elementNum pushCount))
      else some (s.setThread c (th.finish (.transfer pushCount)))
  | .xferHead src dst elementNum pushCount =>
      some (s.setPc c (.xferTail src dst elementNum pushCount (s.queue src).head))
  | .xferTail src dst elementNum pushCount head =>
      if head ≠ (s.queue src).tail then
        some (s.setPc c (.popLoadHead src (.transfer src dst elementNum pushCount)))
      else some (s.setThread c (th.finish (.transfer pushCount)))

variable (owner : Nat → Nat)

/-- One step.  A thread in no call starts one: `PushTail` only on a queue it owns, and
`PopHeadToAnotherQueue` only into one, which returns `0` at once for an `elementNum` of `0`. -/
def step (s : SpmcSys α) : Action α → Option (SpmcSys α)
  | .popHead c q =>
      if (s.thread c).pc.isIdle then some (s.setThread c (.call (.popLoadHead q .caller)))
      else none
  | .pushTail c q object =>
      if (s.thread c).pc.isIdle ∧ owner q = c then
        some (s.setThread c (.call (.pushLoadHead q object .caller)))
      else none
  | .popHeadToAnotherQueue c src dst elementNum =>
      if (s.thread c).pc.isIdle ∧ owner dst = c then
        if elementNum = 0 then some (s.setThread c ((Thread.call .idle).finish (.transfer 0)))
        else some (s.setThread c (.call (.xferLength src dst elementNum 0)))
      else none
  | .resume c => s.resume c
  | .casFail c =>
      match (s.thread c).pc with
      | .popCas q _ _ k => some (s.setPc c (.popLoadHead q k))
      | _ => none

end SpmcSys

/-! ### One queue -/

/-- Two indices less than `c` apart fall in different slots of a ring of `c`. -/
theorem mod_ne_of_lt {c i j : Nat} (hij : i < j) (hj : j < i + c) : j % c ≠ i % c := by
  intro h
  have h0 : (j - i) % c = 0 := Nat.sub_mod_eq_zero_of_mod_eq h
  rw [Nat.mod_eq_of_lt (by omega)] at h0
  omega

/-- What a list has at an index, a list it is a prefix of has there too. -/
theorem getElem?_of_prefix {β : Type} {l l' : List β} (h : l <+: l') {i : Nat} {b : β}
    (hb : l[i]? = some b) : l'[i]? = some b := by
  obtain ⟨t, rfl⟩ := h
  obtain ⟨hi, -⟩ := List.getElem?_eq_some_iff.mp hb
  rw [List.getElem?_append_left hi, hb]

namespace SpmcQueue

variable {Q : SpmcQueue α} {tail i : Nat} {object res : Option α}

@[simp] theorem slot_write_self : (Q.write tail object).slot tail = object := by
  simp [slot]

theorem slot_write_of_ne (h : i % Q.capacity ≠ tail % Q.capacity) :
    (Q.write tail object).slot i = Q.slot i := by
  simp [slot, Function.update_of_ne h]

/-- The queue's invariant: at most `capacity_` objects, `pushed` from `head_` to `tail_` in the
slots, and `popped` what `pushed` has below `head_`. -/
structure QInv (Q : SpmcQueue α) : Prop where
  capacity_pos : 0 < Q.capacity
  head_le : Q.head ≤ Q.tail
  tail_le : Q.tail ≤ Q.head + Q.capacity
  tail_eq : Q.tail = Q.pushed.length
  popped_eq : Q.popped = Q.pushed.take Q.head
  slot_eq : ∀ i, Q.head ≤ i → i < Q.tail → Q.pushed[i]? = some (Q.slot i)

theorem qInv_new {capacity : Nat} (h : 0 < capacity) : QInv (new capacity : SpmcQueue α) where
  capacity_pos := h
  head_le := le_refl _
  tail_le := Nat.zero_le _
  tail_eq := rfl
  popped_eq := rfl
  slot_eq i _ hi := absurd hi (Nat.not_lt_zero i)

/-- The compare-exchange that moves `head_` on takes the object `pushed` has there. -/
theorem QInv.casHead (hQ : QInv Q) (hres : Q.pushed[Q.head]? = some res) :
    QInv (Q.casHead res) where
  capacity_pos := hQ.capacity_pos
  head_le := by
    obtain ⟨hlt, -⟩ := List.getElem?_eq_some_iff.mp hres
    simp only [casHead_head, casHead_tail, hQ.tail_eq]
    omega
  tail_le := by
    simp only [casHead_head, casHead_tail, casHead_capacity]
    have := hQ.tail_le
    omega
  tail_eq := hQ.tail_eq
  popped_eq := by simp [hQ.popped_eq, List.take_add_one, hres]
  slot_eq i hi hlt := hQ.slot_eq i (Nat.le_of_succ_le hi) hlt

/-- The producer's write at `tail`, less than `capacity_` past `head_`, leaves every slot from
`head_` to `tail_` as it was. -/
theorem QInv.write (hQ : QInv Q) (ht : tail = Q.tail) (hlt : tail < Q.head + Q.capacity) :
    QInv (Q.write tail object) where
  capacity_pos := hQ.capacity_pos
  head_le := hQ.head_le
  tail_le := hQ.tail_le
  tail_eq := hQ.tail_eq
  popped_eq := hQ.popped_eq
  slot_eq i hi hit := by
    simp only [write_head, write_tail, write_pushed] at hi hit ⊢
    have hne : tail % Q.capacity ≠ i % Q.capacity := mod_ne_of_lt (by omega) (by omega)
    rw [hQ.slot_eq i hi hit, slot_write_of_ne (Ne.symm hne)]

/-- Storing `tail + 1` accepts the object written at `tail`. -/
theorem QInv.storeTail (hQ : QInv Q) (ht : tail = Q.tail) (hlt : tail < Q.head + Q.capacity)
    (hslot : Q.slot tail = object) : QInv (Q.storeTail tail object) where
  capacity_pos := hQ.capacity_pos
  head_le := by
    simp only [storeTail_head, storeTail_tail]
    have := hQ.head_le
    omega
  tail_le := by
    simp only [storeTail_head, storeTail_tail, storeTail_capacity]
    omega
  tail_eq := by simp [hQ.tail_eq, ht]
  popped_eq := by
    have hle : Q.head ≤ Q.pushed.length := hQ.tail_eq ▸ hQ.head_le
    simp [hQ.popped_eq, List.take_append_of_le_length hle]
  slot_eq i hi hit := by
    simp only [storeTail_head, storeTail_tail, storeTail_pushed] at hi hit ⊢
    have hlen := hQ.tail_eq
    rcases Nat.lt_succ_iff_lt_or_eq.mp hit with hlt' | rfl
    · rw [List.getElem?_append_left (by omega)]
      exact hQ.slot_eq i hi (by omega)
    · rw [ht, hlen, List.getElem?_concat_length, ← hlen, ← ht, ← hslot]
      rfl

/-- What a step may do to a queue that other threads read: keep its capacity, move `head_` and
`tail_` only up and only add to `pushed`.  A step of a thread that does not own the queue moves
neither `tail_` nor `pushed` nor a slot. -/
structure RelyQ (byOwner : Prop) (Q Q' : SpmcQueue α) : Prop where
  capacity_eq : Q'.capacity = Q.capacity
  head_le : Q.head ≤ Q'.head
  tail_le : Q.tail ≤ Q'.tail
  pushed_grows : Q.pushed <+: Q'.pushed
  of_not_owner : ¬ byOwner → Q'.tail = Q.tail ∧ Q'.pushed = Q.pushed ∧ Q'.buf = Q.buf

theorem RelyQ.refl (b : Prop) (Q : SpmcQueue α) : RelyQ b Q Q :=
  ⟨rfl, le_refl _, le_refl _, List.prefix_refl _, fun _ => ⟨rfl, rfl, rfl⟩⟩

theorem RelyQ.casHead (b : Prop) (Q : SpmcQueue α) (res : Option α) :
    RelyQ b Q (Q.casHead res) :=
  ⟨rfl, Nat.le_succ _, le_refl _, List.prefix_refl _, fun _ => ⟨rfl, rfl, rfl⟩⟩

theorem RelyQ.write {b : Prop} (hb : b) (Q : SpmcQueue α) (tail : Nat) (object : Option α) :
    RelyQ b Q (Q.write tail object) :=
  ⟨rfl, le_refl _, le_refl _, List.prefix_refl _, fun h => absurd hb h⟩

theorem RelyQ.storeTail {b : Prop} (hb : b) (ht : tail = Q.tail) :
    RelyQ b Q (Q.storeTail tail object) :=
  ⟨rfl, le_refl _, by simp [ht], List.prefix_append _ _, fun h => absurd hb h⟩

end SpmcQueue

/-! ### The threads -/

open SpmcQueue

variable (owner : Nat → Nat)

/-- A `PopHeadToAnotherQueue` pushes into a queue its thread owns, and its `pushCount` is the
number of objects it moved. -/
def Cont.Inv (c : Nat) (outs : List (Outcome α)) : Cont → Prop
  | .caller => True
  | .transfer _ dst _ pushCount => owner dst = c ∧ pushCount = outs.countP Outcome.isMoved

/-- What thread `c` knows of the queues `qs` from what it loaded.  A consumer's `head` is at
most `head_`, and below `tail_` once it saw them differ; while it is still `head_`, the object
read is the one `pushed` has there.  The producer's `head` is at most `head_`, its `tail` is
`tail_`, and the slot it writes lies outside `[head_, tail_)`. -/
def PcInv (qs : Nat → SpmcQueue α) (c : Nat) (outs : List (Outcome α)) : Pc α → Prop
  | .idle => True
  | .popLoadHead _ k => k.Inv owner c outs
  | .popLoadTail q head k => head ≤ (qs q).head ∧ k.Inv owner c outs
  | .popRead q head k => head ≤ (qs q).head ∧ head < (qs q).tail ∧ k.Inv owner c outs
  | .popCas q head res k =>
      head ≤ (qs q).head ∧ (head = (qs q).head → (qs q).pushed[head]? = some res) ∧
        k.Inv owner c outs
  | .pushLoadHead q _ k => owner q = c ∧ k.Inv owner c outs
  | .pushCheck q head _ k =>
      owner q = c ∧ head ≤ (qs q).head ∧ (qs q).tail - head ≤ (qs q).capacity ∧
        k.Inv owner c outs
  | .pushWrite q tail _ k =>
      owner q = c ∧ tail = (qs q).tail ∧ tail < (qs q).head + (qs q).capacity ∧
        k.Inv owner c outs
  | .pushStore q tail object k =>
      owner q = c ∧ tail = (qs q).tail ∧ tail < (qs q).head + (qs q).capacity ∧
        (qs q).slot tail = object ∧ k.Inv owner c outs
  | .xferLength src dst elementNum pushCount | .xferHead src dst elementNum pushCount
  | .xferTail src dst elementNum pushCount _ =>
      (Cont.transfer src dst elementNum pushCount).Inv owner c outs

/-- What a call did with the objects it took: in order, each was put in one place or is still
held; a `PopHeadToAnotherQueue` that returned counted the objects it moved, and what it dropped
is `nullptr`; a `PopHead` of the thread's own has put nothing before it returns, and then
returned what it took, or `nullptr` with nothing taken. -/
structure Thread.Ghost (th : Thread α) : Prop where
  took_eq : th.took = th.outs.map Outcome.object ++ th.pc.held
  busy : th.pc.isIdle = false → th.ret = none
  ret_transfer : ∀ m, th.ret = some (.transfer m) → m = th.outs.countP Outcome.isMoved
  dropped : ∀ v, Outcome.dropped v ∈ th.outs → v = none
  caller_fresh : th.pc.cont = some .caller → th.outs = []
  ret_popHead : ∀ r, th.ret = some (.popHead r) → th.outs = [.returned r] ∨ r = none ∧ th.outs = []

/-- What the ghost `loaded` says.  While `PushTail` checks `tail - head < capacity_`, it holds the
queue and the `tail - head` of the check; once the check passed, that length was below
`capacity_`; and a `PushTail` that returned to its caller returned `0` for a length below
`capacity_` and `-1` for a full queue. -/
def LoadedInv (qs : Nat → SpmcQueue α) (loaded : Option (Nat × Nat)) (ret : Option (Ret α)) :
    Pc α → Prop
  | .idle => ∀ r, ret = some (.pushTail r) → ∃ q n, loaded = some (q, n) ∧
      (r = 0 ∧ n < (qs q).capacity ∨ r = -1 ∧ n = (qs q).capacity)
  | .pushCheck q head _ _ => loaded = some (q, (qs q).tail - head)
  | .pushWrite q _ _ _ | .pushStore q _ _ _ => ∃ n, loaded = some (q, n) ∧ n < (qs q).capacity
  | _ => True

/-- Thread `c`'s invariant over the queues `qs`. -/
structure ThreadInv (qs : Nat → SpmcQueue α) (c : Nat) (th : Thread α) : Prop where
  pc : PcInv owner qs c th.outs th.pc
  ghost : th.Ghost
  loaded : LoadedInv qs th.loaded th.ret th.pc

/-- A step of thread `c` moves every queue forward, as `RelyQ` allows. -/
def Rely (c : Nat) (qs qs' : Nat → SpmcQueue α) : Prop :=
  ∀ q, RelyQ (owner q = c) (qs q) (qs' q)

variable {owner}

theorem rely_update {c q : Nat} {qs : Nat → SpmcQueue α} {Q : SpmcQueue α}
    (h : RelyQ (owner q = c) (qs q) Q) : Rely owner c qs (Function.update qs q Q) := by
  intro q'
  by_cases hq : q' = q
  · subst hq
    simpa using h
  · rw [Function.update_of_ne hq]
    exact RelyQ.refl _ _

/-- **What thread `c'` knows stays true when another thread steps.**  Its loaded `head` stays
at most `head_`, which only grows; if `head_` is still its `head`, no push wrote over the slot
it read; and a queue it owns keeps its `tail_` and slots, as only the owner moves them. -/
theorem PcInv.rely {c c' : Nat} {qs qs' : Nat → SpmcQueue α} (hne : c' ≠ c)
    (hR : Rely owner c qs qs') {outs : List (Outcome α)} (p : Pc α)
    (hp : PcInv owner qs c' outs p) : PcInv owner qs' c' outs p := by
  have hown : ∀ q, owner q = c' → ¬ owner q = c := fun q ho h => hne (ho.symm.trans h)
  cases p with
  | idle => trivial
  | popLoadHead q k => exact hp
  | popLoadTail q head k =>
      obtain ⟨hh, hk⟩ := hp
      exact ⟨hh.trans (hR q).head_le, hk⟩
  | popRead q head k =>
      obtain ⟨hh, ht, hk⟩ := hp
      exact ⟨hh.trans (hR q).head_le, ht.trans_le (hR q).tail_le, hk⟩
  | popCas q head res k =>
      obtain ⟨hh, hres, hk⟩ := hp
      refine ⟨hh.trans (hR q).head_le, fun heq => ?_, hk⟩
      -- `head_` only grows, so it can only have stayed at `head`
      have hstay : head = (qs q).head := le_antisymm hh (heq ▸ (hR q).head_le)
      exact getElem?_of_prefix (hR q).pushed_grows (hres hstay)
  | pushLoadHead q object k => exact hp
  | pushCheck q head object k =>
      obtain ⟨ho, hh, ht, hk⟩ := hp
      obtain ⟨htail, -, -⟩ := (hR q).of_not_owner (hown q ho)
      refine ⟨ho, hh.trans (hR q).head_le, ?_, hk⟩
      rw [htail, (hR q).capacity_eq]
      exact ht
  | pushWrite q tail object k =>
      obtain ⟨ho, ht, hlt, hk⟩ := hp
      obtain ⟨htail, -, -⟩ := (hR q).of_not_owner (hown q ho)
      have hhead := (hR q).head_le
      refine ⟨ho, ht.trans htail.symm, ?_, hk⟩
      rw [(hR q).capacity_eq]
      omega
  | pushStore q tail object k =>
      obtain ⟨ho, ht, hlt, hslot, hk⟩ := hp
      obtain ⟨htail, -, hbuf⟩ := (hR q).of_not_owner (hown q ho)
      have hhead := (hR q).head_le
      refine ⟨ho, ht.trans htail.symm, ?_, ?_, hk⟩
      · rw [(hR q).capacity_eq]
        omega
      · rw [← hslot]
        simp only [SpmcQueue.slot, hbuf, (hR q).capacity_eq]
  | xferLength src dst elementNum pushCount => exact hp
  | xferHead src dst elementNum pushCount => exact hp
  | xferTail src dst elementNum pushCount head => exact hp

/-- **The ghost `loaded` of thread `c'` stays true when another thread steps**: capacities never
change, and the `tail_` of a queue `c'` pushes into moves only by `c'`. -/
theorem LoadedInv.rely {c c' : Nat} {qs qs' : Nat → SpmcQueue α} (hne : c' ≠ c)
    (hR : Rely owner c qs qs') {outs : List (Outcome α)} {loaded : Option (Nat × Nat)}
    {ret : Option (Ret α)} {p : Pc α} (hp : PcInv owner qs c' outs p)
    (hL : LoadedInv qs loaded ret p) : LoadedInv qs' loaded ret p := by
  cases p
  case idle =>
    intro r hr
    obtain ⟨q, n, hl, hn⟩ := hL r hr
    exact ⟨q, n, hl, by rwa [(hR q).capacity_eq]⟩
  case pushCheck q head object k =>
    obtain ⟨htail, -, -⟩ := (hR q).of_not_owner fun h => hne (hp.1.symm.trans h)
    show loaded = some (q, (qs' q).tail - head)
    rw [htail]
    exact hL
  case pushWrite q tail object k =>
    obtain ⟨n, hl, hn⟩ := hL
    exact ⟨n, hl, by rwa [(hR q).capacity_eq]⟩
  case pushStore q tail object k =>
    obtain ⟨n, hl, hn⟩ := hL
    exact ⟨n, hl, by rwa [(hR q).capacity_eq]⟩
  all_goals trivial

/-! ### What a call does with the objects it takes -/

namespace Thread

variable {th : Thread α} {k : Cont} {c : Nat}

/-- The thread moves on within its call, holding what it held; `loaded` is ghost the call
may set. -/
theorem Ghost.setPc (hG : th.Ghost) (hbusy : th.pc.isIdle = false) {p : Pc α}
    (hheld : p.held = th.pc.held) (hcont : p.cont = some .caller → th.pc.cont = some .caller)
    {l : Option (Nat × Nat)} : Ghost ⟨p, th.ret, th.took, th.outs, l⟩ where
  took_eq := by
    simp only [hheld]
    exact hG.took_eq
  busy _ := hG.busy hbusy
  ret_transfer := hG.ret_transfer
  dropped := hG.dropped
  caller_fresh h := hG.caller_fresh (hcont h)
  ret_popHead := hG.ret_popHead

theorem ghost_call {p : Pc α} (hp : p.held = []) : (call p).Ghost where
  took_eq := by simp [call, hp]
  busy _ := rfl
  ret_transfer m h := by simp [call] at h
  dropped v h := by simp [call] at h
  caller_fresh _ := rfl
  ret_popHead r h := by cases h

/-- A call returns `r` with nothing held; a `PopHead` that returns this way returns `nullptr`
and took nothing. -/
theorem Ghost.finish (hG : th.Ghost) (hheld : th.pc.held = []) {r : Ret α}
    (hr : ∀ m, r = .transfer m → m = th.outs.countP Outcome.isMoved)
    (hpop : ∀ v, r = .popHead v → v = none ∧ th.outs = []) : (th.finish r).Ghost where
  took_eq := hG.took_eq.trans (by rw [hheld]; rfl)
  busy h := by cases h
  ret_transfer m h := hr m (Option.some.inj h)
  dropped := hG.dropped
  caller_fresh h := by cases h
  ret_popHead v h := .inr (hpop v (Option.some.inj h))

theorem Pc.eq_idle_of_isIdle {p : Pc α} (h : p.isIdle = true) : p = .idle := by
  cases p <;> first | rfl | cases h

/-- A thread whose call has returned is in no call. -/
theorem Ghost.idle_of_ret (hG : th.Ghost) {r : Ret α} (hr : th.ret = some r) :
    th.pc = .idle := by
  apply Pc.eq_idle_of_isIdle
  cases h : th.pc.isIdle
  · rw [hG.busy h] at hr
    cases hr
  · rfl

/-- **`PopHead` returns the object its compare-exchange took**, or `nullptr` when it found the
queue empty and took nothing. -/
theorem Ghost.ret_popHead_took (hG : th.Ghost) {r : Option α} (hr : th.ret = some (.popHead r)) :
    th.took = [r] ∧ th.outs = [.returned r] ∨ r = none ∧ th.took = [] := by
  have htook := hG.took_eq
  rw [hG.idle_of_ret hr] at htook
  rcases hG.ret_popHead r hr with hout | ⟨rfl, hout⟩
  · exact .inl ⟨by simp [htook, hout, Pc.held, Outcome.object], hout⟩
  · exact .inr ⟨rfl, by simp [htook, hout, Pc.held]⟩

/-- **An object the call took goes to one place.**  With `took` the objects put before and
`o`'s, a call that puts `o` and holds nothing more keeps its ghost. -/
theorem ghost_put {p : Pc α} {r : Option (Ret α)} {took : List (Option α)} {o : Outcome α}
    {l : Option (Nat × Nat)}
    (htook : took = th.outs.map Outcome.object ++ [o.object]) (hp : p.held = [])
    (hcont : p.cont = none) (hbusy : p.isIdle = false → r = none)
    (hret : ∀ m, r = some (.transfer m) → m = (th.outs ++ [o]).countP Outcome.isMoved)
    (hpop : ∀ v, r = some (.popHead v) → th.outs = [] ∧ o = .returned v)
    (hdrop : ∀ v, o = .dropped v → v = none) (hG : ∀ v, .dropped v ∈ th.outs → v = none) :
    Ghost ⟨p, r, took, th.outs ++ [o], l⟩ where
  took_eq := by simp [htook, hp]
  busy := hbusy
  ret_transfer := hret
  dropped v hv := by
    rcases List.mem_append.mp hv with hv | hv
    · exact hG v hv
    · exact hdrop v (List.mem_singleton.mp hv).symm
  caller_fresh h := by
    rw [hcont] at h
    cases h
  ret_popHead v h := by
    obtain ⟨h0, rfl⟩ := hpop v h
    exact .inl (by simp [h0])

theorem threadInv_retEmpty {qs : Nat → SpmcQueue α} (hG : th.Ghost) (hheld : th.pc.held = [])
    (hcont : th.pc.cont = some k) (hk : k.Inv owner c th.outs) :
    ThreadInv owner qs c (th.retEmpty k) := by
  cases k with
  | caller =>
      exact ⟨trivial, hG.finish hheld (fun m h => by cases h)
        (fun v h => by cases h; exact ⟨rfl, hG.caller_fresh hcont⟩), fun r h => by cases h⟩
  | transfer src dst elementNum pushCount =>
      exact ⟨trivial, hG.finish hheld (fun m h => by cases h; exact hk.2) (fun v h => by cases h),
        fun r h => by cases h⟩

/-- After a successful compare-exchange took `res`: `PopHead` returns it, and
`PopHeadToAnotherQueue` drops it if it is `nullptr` and holds it for its destination if not. -/
theorem threadInv_retTaken {qs : Nat → SpmcQueue α} {res : Option α} (hG : th.Ghost)
    (hbusy : th.pc.isIdle = false) (hheld : th.pc.held = []) (hcont : th.pc.cont = some k)
    (hk : k.Inv owner c th.outs) :
    ThreadInv owner qs c ({ th with took := th.took ++ [res] }.retTaken res k) := by
  have htook : th.took ++ [res] = th.outs.map Outcome.object ++ [res] := by
    rw [hG.took_eq, hheld, List.append_nil]
  cases k with
  | caller =>
      -- a `PopHead` of the thread's own put nothing before, so it returns just this object
      exact ⟨trivial, ghost_put htook rfl rfl (fun h => by cases h) (fun m h => by cases h)
        (fun v h => by cases h; exact ⟨hG.caller_fresh hcont, rfl⟩) (fun v h => by cases h)
        hG.dropped, fun r h => by cases h⟩
  | transfer src dst elementNum pushCount =>
      cases res with
      | none =>
          refine ⟨trivial, ghost_put htook rfl rfl (fun h => by cases h) (fun m h => ?_)
            (fun v h => by cases h) (fun v h => by cases h; rfl) hG.dropped,
            fun r h => by cases h⟩
          cases h
          simp [hk.2, Outcome.isMoved]
      | some v =>
          refine ⟨⟨hk.1, hk⟩, ⟨?_, fun _ => hG.busy hbusy, hG.ret_transfer, hG.dropped,
            (fun h => by cases h), hG.ret_popHead⟩, trivial⟩
          simp [retTaken, htook, Pc.held, Cont.held]

/-- After `PushTail` returned: a `PopHeadToAnotherQueue` counts the object it moved, or passes
the one `PushTail` rejected to `func`. -/
theorem threadInv_retPush {qs : Nat → SpmcQueue α} {object : Option α} {ok : Bool}
    (hG : th.Ghost) (hbusy : th.pc.isIdle = false) (hheld : th.pc.held = k.held object)
    (hk : k.Inv owner c th.outs)
    (hload : ∃ q n, th.loaded = some (q, n) ∧
      (ok = true ∧ n < (qs q).capacity ∨ ok = false ∧ n = (qs q).capacity)) :
    ThreadInv owner qs c (th.retPush object ok k) := by
  cases k with
  | caller =>
      obtain ⟨q, n, hl, hn⟩ := hload
      refine ⟨trivial, hG.finish hheld (fun m h => by cases h) (fun v h => by cases h),
        fun r hr => ⟨q, n, hl, ?_⟩⟩
      -- the call returns `0` when the check passed and `-1` on a full queue
      cases Option.some.inj hr
      rcases hn with ⟨rfl, hn⟩ | ⟨rfl, hn⟩
      · exact .inl ⟨rfl, hn⟩
      · exact .inr ⟨rfl, hn⟩
  | transfer src dst elementNum pushCount =>
      obtain ⟨ho, hcount⟩ := hk
      have htook : th.took = th.outs.map Outcome.object ++ [object] := by
        rw [hG.took_eq, hheld]
        rfl
      cases ok with
      | false =>
          refine ⟨trivial, ghost_put htook rfl rfl (fun h => by cases h) (fun m h => ?_)
            (fun v h => by cases h) (fun v h => by cases h) hG.dropped, fun r h => by cases h⟩
          cases h
          simp [hcount, Outcome.isMoved]
      | true =>
          have hmoved :
              pushCount + 1 = (th.outs ++ [Outcome.moved object]).countP Outcome.isMoved := by
            simp [hcount, Outcome.isMoved]
          by_cases hn : pushCount + 1 = elementNum
          · simp only [retPush, if_true, hn]
            refine ⟨trivial, ghost_put htook rfl rfl (fun h => by cases h) (fun m h => ?_)
              (fun v h => by cases h) (fun v h => by cases h) hG.dropped, fun r h => by cases h⟩
            cases h
            rw [← hn]
            exact hmoved
          · simp only [retPush, if_true, hn, if_false]
            have hret := hG.busy hbusy
            exact ⟨⟨ho, hmoved⟩, ghost_put htook rfl rfl (fun _ => hret)
              (fun m h => by rw [hret] at h; cases h) (fun v h => by rw [hret] at h; cases h)
              (fun v h => by cases h) hG.dropped, trivial⟩

end Thread

/-! ### Every step keeps the invariant -/

variable (owner) in
/-- The invariant of the queues and the threads. -/
structure SysInv (s : SpmcSys α) : Prop where
  queue : ∀ q, QInv (s.queue q)
  thread : ∀ c, ThreadInv owner s.queue c (s.thread c)

namespace SysInv

open Thread

variable {s : SpmcSys α} {c q : Nat} {k : Cont}

/-- **A step of thread `c` keeps the invariant** if the queues it leaves keep theirs and moved
only forward, and thread `c` keeps its own: those of the other threads follow. -/
theorem update (hI : SysInv owner s) {qs : Nat → SpmcQueue α} {th : Thread α}
    (hQ : ∀ q, QInv (qs q)) (hR : Rely owner c s.queue qs) (hT : ThreadInv owner qs c th) :
    SysInv owner ⟨qs, Function.update s.thread c th⟩ where
  queue := hQ
  thread c' := by
    by_cases hc : c' = c
    · subst hc
      simpa using hT
    · show ThreadInv owner qs c' (Function.update s.thread c th c')
      rw [Function.update_of_ne hc]
      obtain ⟨hpc, hG, hL⟩ := hI.thread c'
      exact ⟨PcInv.rely hc hR _ hpc, hG, LoadedInv.rely hc hR hpc hL⟩

theorem setThread (hI : SysInv owner s) {th : Thread α} (hT : ThreadInv owner s.queue c th) :
    SysInv owner (s.setThread c th) :=
  hI.update hI.queue (fun _ => RelyQ.refl _ _) hT

/-- Thread `c` moves on from `p` to `p'` and holds what it held. -/
theorem setPc (hI : SysInv owner s) {p p' : Pc α} (hp : (s.thread c).pc = p)
    (hpc : PcInv owner s.queue c (s.thread c).outs p') (hbusy : p.isIdle = false)
    (hheld : p'.held = p.held) (hcont : p'.cont = some .caller → p.cont = some .caller)
    (hL : LoadedInv s.queue (s.thread c).loaded (s.thread c).ret p') :
    SysInv owner (s.setPc c p') :=
  hI.setThread ⟨hpc, (hI.thread c).ghost.setPc (hp ▸ hbusy) (hp ▸ hheld) (hp ▸ hcont), hL⟩

/-- A step of thread `c` that changes queue `q` only. -/
theorem setQueue (hI : SysInv owner s) {Q : SpmcQueue α} {th : Thread α} (hQ : QInv Q)
    (hR : RelyQ (owner q = c) (s.queue q) Q)
    (hT : ThreadInv owner (Function.update s.queue q Q) c th) :
    SysInv owner ((s.setQueue q Q).setThread c th) := by
  refine hI.update (fun q' => ?_) (rely_update hR) hT
  show QInv (Function.update s.queue q Q q')
  by_cases hq : q' = q
  · subst hq
    simpa using hQ
  · rw [Function.update_of_ne hq]
    exact hI.queue q'

theorem pcInv_of (hI : SysInv owner s) {p : Pc α} (hp : (s.thread c).pc = p) :
    PcInv owner s.queue c (s.thread c).outs p :=
  hp ▸ (hI.thread c).pc

theorem loadedInv_of (hI : SysInv owner s) {p : Pc α} (hp : (s.thread c).pc = p) :
    LoadedInv s.queue (s.thread c).loaded (s.thread c).ret p :=
  hp ▸ (hI.thread c).loaded

/-- `auto head = head_.load()` in `PopHead`. -/
theorem popLoadHead (hI : SysInv owner s) (hp : (s.thread c).pc = .popLoadHead q k) :
    SysInv owner (s.setPc c (.popLoadTail q (s.queue q).head k)) :=
  hI.setPc hp ⟨le_refl _, hI.pcInv_of hp⟩ rfl rfl id trivial

/-- `tail == head`: `PopHead` returns `nullptr`. -/
theorem popEmpty (hI : SysInv owner s) {head : Nat} (hp : (s.thread c).pc = .popLoadTail q head k) :
    SysInv owner (s.setThread c ((s.thread c).retEmpty k)) :=
  hI.setThread (threadInv_retEmpty (hI.thread c).ghost (hp ▸ rfl) (hp ▸ rfl) (hI.pcInv_of hp).2)

/-- `tail != head`: since `head ≤ head_ ≤ tail_ = tail`, the slot at `head` holds an object. -/
theorem popLoadTail (hI : SysInv owner s) {head : Nat}
    (hp : (s.thread c).pc = .popLoadTail q head k) (hne : (s.queue q).tail ≠ head) :
    SysInv owner (s.setPc c (.popRead q head k)) := by
  obtain ⟨hh, hk⟩ := hI.pcInv_of hp
  have hlt : head < (s.queue q).tail :=
    Nat.lt_of_le_of_ne (hh.trans (hI.queue q).head_le) (Ne.symm hne)
  exact hI.setPc hp ⟨hh, hlt, hk⟩ rfl rfl id trivial

/-- `void* res = buf_[head % capacity_]`: if `head` is still `head_`, the slot holds the object
`pushed` has there. -/
theorem popRead (hI : SysInv owner s) {head : Nat} (hp : (s.thread c).pc = .popRead q head k) :
    SysInv owner (s.setPc c (.popCas q head ((s.queue q).slot head) k)) := by
  obtain ⟨hh, hlt, hk⟩ := hI.pcInv_of hp
  refine hI.setPc hp ⟨hh, fun heq => ?_, hk⟩ rfl rfl id trivial
  exact (hI.queue q).slot_eq head heq.ge hlt

/-- The compare-exchange succeeds: `head_` moves past the object the thread read, which is
the one `pushed` has at `head_`. -/
theorem popCas (hI : SysInv owner s) {head : Nat} {res : Option α}
    (hp : (s.thread c).pc = .popCas q head res k) (heq : (s.queue q).head = head) :
    SysInv owner ((s.setQueue q ((s.queue q).casHead res)).setThread c
      ({ s.thread c with took := (s.thread c).took ++ [res] }.retTaken res k)) := by
  obtain ⟨-, hres, hk⟩ := hI.pcInv_of hp
  have hres' : (s.queue q).pushed[(s.queue q).head]? = some res := heq ▸ hres heq.symm
  exact hI.setQueue ((hI.queue q).casHead hres') (RelyQ.casHead _ _ _)
    (threadInv_retTaken (hI.thread c).ghost (hp ▸ rfl) (hp ▸ rfl) (hp ▸ rfl) hk)

/-- The compare-exchange fails, or fails spuriously: the loop starts again. -/
theorem popRetry (hI : SysInv owner s) {head : Nat} {res : Option α}
    (hp : (s.thread c).pc = .popCas q head res k) :
    SysInv owner (s.setPc c (.popLoadHead q k)) :=
  hI.setPc hp (hI.pcInv_of hp).2.2 rfl rfl id trivial

/-- `auto head = head_.load()` in `PushTail`, which records the queue's length in `loaded`. -/
theorem pushLoadHead (hI : SysInv owner s) {object : Option α}
    (hp : (s.thread c).pc = .pushLoadHead q object k) :
    SysInv owner (s.setThread c
      { s.thread c with
        pc := .pushCheck q (s.queue q).head object k
        loaded := some (q, (s.queue q).tail - (s.queue q).head) }) := by
  obtain ⟨ho, hk⟩ := hI.pcInv_of hp
  have htail := (hI.queue q).tail_le
  have hcont : (Pc.pushCheck q (s.queue q).head object k).cont = some .caller →
      (s.thread c).pc.cont = some .caller := by
    rw [hp]
    exact id
  exact hI.setThread ⟨⟨ho, le_refl _, by omega, hk⟩,
    (hI.thread c).ghost.setPc (hp ▸ rfl) (hp ▸ rfl) hcont, rfl⟩

/-- `tail - head < capacity_`: the slot at `tail` is outside the queue, as `head ≤ head_`. -/
theorem pushCheck (hI : SysInv owner s) {head : Nat} {object : Option α}
    (hp : (s.thread c).pc = .pushCheck q head object k)
    (hlt : (s.queue q).tail - head < (s.queue q).capacity) :
    SysInv owner (s.setPc c (.pushWrite q (s.queue q).tail object k)) := by
  obtain ⟨ho, hh, -, hk⟩ := hI.pcInv_of hp
  exact hI.setPc hp ⟨ho, rfl, by omega, hk⟩ rfl rfl id ⟨_, hI.loadedInv_of hp, hlt⟩

/-- The check fails: `PushTail` returns `-1`, as the queue held `capacity_` objects when it
loaded `head_`. -/
theorem pushFull (hI : SysInv owner s) {head : Nat} {object : Option α}
    (hp : (s.thread c).pc = .pushCheck q head object k)
    (hge : ¬ (s.queue q).tail - head < (s.queue q).capacity) :
    SysInv owner (s.setThread c ((s.thread c).retPush object false k)) := by
  obtain ⟨-, -, hle, hk⟩ := hI.pcInv_of hp
  exact hI.setThread (threadInv_retPush (hI.thread c).ghost (hp ▸ rfl) (hp ▸ rfl) hk
    ⟨q, _, hI.loadedInv_of hp, .inr ⟨rfl, by omega⟩⟩)

/-- `buf_[tail % capacity_] = object`. -/
theorem pushWrite (hI : SysInv owner s) {tail : Nat} {object : Option α}
    (hp : (s.thread c).pc = .pushWrite q tail object k) :
    SysInv owner ((s.setQueue q ((s.queue q).write tail object)).setPc c
      (.pushStore q tail object k)) := by
  obtain ⟨ho, ht, hlt, hk⟩ := hI.pcInv_of hp
  obtain ⟨n, hl, hn⟩ := hI.loadedInv_of hp
  have hpc : PcInv owner (Function.update s.queue q ((s.queue q).write tail object)) c
      (s.thread c).outs (.pushStore q tail object k) :=
    ⟨ho, by simpa using ht, by simpa using hlt, by simp, hk⟩
  have hcont : (Pc.pushStore q tail object k).cont = some .caller →
      (s.thread c).pc.cont = some .caller := by
    rw [hp]
    exact id
  exact hI.setQueue ((hI.queue q).write ht hlt) (RelyQ.write ho _ _ _)
    ⟨hpc, (hI.thread c).ghost.setPc (hp ▸ rfl) (hp ▸ rfl) hcont, ⟨n, hl, by simpa using hn⟩⟩

/-- `tail_.store(tail + 1)`: `PushTail` accepts the object and returns `0`. -/
theorem pushStore (hI : SysInv owner s) {tail : Nat} {object : Option α}
    (hp : (s.thread c).pc = .pushStore q tail object k) :
    SysInv owner ((s.setQueue q ((s.queue q).storeTail tail object)).setThread c
      ((s.thread c).retPush object true k)) := by
  obtain ⟨ho, ht, hlt, hslot, hk⟩ := hI.pcInv_of hp
  obtain ⟨n, hl, hn⟩ := hI.loadedInv_of hp
  exact hI.setQueue ((hI.queue q).storeTail ht hlt hslot) (RelyQ.storeTail ho ht)
    (threadInv_retPush (hI.thread c).ghost (hp ▸ rfl) (hp ▸ rfl) hk
      ⟨q, n, hl, .inl ⟨rfl, by simpa using hn⟩⟩)

/-- `PopHeadToAnotherQueue` leaves its loop and returns `pushCount`. -/
theorem xferExit (hI : SysInv owner s) {p : Pc α} {pushCount : Nat} (hp : (s.thread c).pc = p)
    (hcount : PcInv owner s.queue c (s.thread c).outs p →
      pushCount = (s.thread c).outs.countP Outcome.isMoved)
    (hheld : p.held = []) :
    SysInv owner (s.setThread c ((s.thread c).finish (.transfer pushCount))) :=
  hI.setThread ⟨trivial, (hI.thread c).ghost.finish (hp ▸ hheld)
    (fun m h => by cases h; exact hcount (hI.pcInv_of hp)) (fun v h => by cases h),
    fun r h => by cases h⟩

end SysInv

/-! ### Every run keeps the invariant -/

namespace SpmcSys

variable {s t : SpmcSys α}

theorem sysInv_resume {c : Nat} (hI : SysInv owner s) (h : s.resume c = some t) :
    SysInv owner t := by
  -- one case for each place in the code a thread can be
  cases hp : (s.thread c).pc with
  | idle => simp [resume, hp] at h
  | popLoadHead q k =>
      simp only [resume, hp, Option.some.injEq] at h
      subst h
      exact hI.popLoadHead hp
  | popLoadTail q head k =>
      simp only [resume, hp] at h
      split at h
      · cases h
        exact hI.popEmpty hp
      · rename_i hne
        cases h
        exact hI.popLoadTail hp hne
  | popRead q head k =>
      simp only [resume, hp, Option.some.injEq] at h
      subst h
      exact hI.popRead hp
  | popCas q head res k =>
      simp only [resume, hp] at h
      split at h
      · rename_i heq
        cases h
        exact hI.popCas hp heq
      · cases h
        exact hI.popRetry hp
  | pushLoadHead q object k =>
      simp only [resume, hp, Option.some.injEq] at h
      subst h
      exact hI.pushLoadHead hp
  | pushCheck q head object k =>
      simp only [resume, hp] at h
      split at h
      · rename_i hlt
        cases h
        exact hI.pushCheck hp hlt
      · rename_i hge
        cases h
        exact hI.pushFull hp hge
  | pushWrite q tail object k =>
      simp only [resume, hp, Option.some.injEq] at h
      subst h
      exact hI.pushWrite hp
  | pushStore q tail object k =>
      simp only [resume, hp, Option.some.injEq] at h
      subst h
      exact hI.pushStore hp
  | xferLength src dst elementNum pushCount =>
      simp only [resume, hp] at h
      split at h
      · cases h
        have hk := hI.pcInv_of hp
        exact hI.setPc hp hk rfl rfl id trivial
      · cases h
        exact hI.xferExit hp (fun h => h.2) rfl
  | xferHead src dst elementNum pushCount =>
      simp only [resume, hp, Option.some.injEq] at h
      subst h
      have hk := hI.pcInv_of hp
      exact hI.setPc hp hk rfl rfl id trivial
  | xferTail src dst elementNum pushCount head =>
      simp only [resume, hp] at h
      split at h
      · cases h
        have hk := hI.pcInv_of hp
        exact hI.setPc hp hk rfl rfl (fun h => by cases h) trivial
      · cases h
        exact hI.xferExit hp (fun h => h.2) rfl

/-- **Every step keeps the invariant.**  A call starts with nothing taken, `PushTail` and
`PopHeadToAnotherQueue` on queues their thread owns. -/
theorem sysInv_step {a : Action α} (hI : SysInv owner s) (h : step owner s a = some t) :
    SysInv owner t := by
  cases a with
  | popHead c q =>
      simp only [step] at h
      split at h
      · cases h
        exact hI.setThread ⟨trivial, Thread.ghost_call rfl, trivial⟩
      · cases h
  | pushTail c q object =>
      simp only [step] at h
      split at h
      · rename_i hc
        cases h
        exact hI.setThread ⟨⟨hc.2, trivial⟩, Thread.ghost_call rfl, trivial⟩
      · cases h
  | popHeadToAnotherQueue c src dst elementNum =>
      simp only [step] at h
      split at h
      · rename_i hc
        split at h
        · cases h
          exact hI.setThread ⟨trivial, (Thread.ghost_call rfl).finish rfl
            (fun m hm => by cases hm; rfl) (fun v hv => by cases hv), fun r h => by cases h⟩
        · cases h
          exact hI.setThread ⟨⟨hc.2, rfl⟩, Thread.ghost_call rfl, trivial⟩
      · cases h
  | resume c => exact sysInv_resume hI h
  | casFail c =>
      cases hp : (s.thread c).pc
      case popCas q head res k =>
        simp only [step, hp, Option.some.injEq] at h
        subst h
        exact hI.popRetry hp
      all_goals simp [step, hp] at h

theorem sysInv_init {caps : Nat → Nat} (hcap : ∀ q, 0 < caps q) :
    SysInv owner (init caps : SpmcSys α) where
  queue q := qInv_new (hcap q)
  thread _ := ⟨trivial, Thread.ghost_call rfl, fun r h => by cases h⟩

theorem sysInv_of_reach {caps : Nat → Nat} (hcap : ∀ q, 0 < caps q)
    (h : Machine.Reach (step owner) (init caps) s) : SysInv owner s :=
  Machine.Invariant.reach (fun _ _ _ hI hs => sysInv_step hI hs) (sysInv_init hcap) h

variable (owner) in
/-- **`SpmcQueue` is a bounded FIFO for one producer and many consumers.**  After `Init` with
positive capacities, in every state that any interleaving of `PushTail` by each queue's owner,
`PopHead` by any thread and `PopHeadToAnotherQueue` into a queue its thread owns reaches:

* every queue keeps `QInv`: the successful compare-exchanges took exactly the objects `PushTail`
  accepted below `head_`, once each and in push order (`popped`); the others, from `head_` to
  `tail_`, are still in their slots, so none was written over before it was consumed; and
  `tail_ - head_ ≤ capacity_`;
* a `PushTail` about to check `tail - head < capacity_` holds a `head` that was `head_` when it
  loaded it and is at most `head_` now, with `tail_ - head ≤ capacity_` and `tail_` unmoved since
  (only it pushes): it fails only when the queue held `capacity_` objects at that load;
* a `PopHead` that returned `r` took `r` with its compare-exchange and returned it, or found the
  queue empty, took nothing and returned `nullptr`;
* a `PushTail` that returned `r` had loaded `head_` when its queue held `n` objects: `r` is `0`
  for `n < capacity_` and `-1` for `n = capacity_`;
* every thread's call put each object it took in exactly one place, in order, except the one it
  holds (`Ghost.took_eq`); `PopHeadToAnotherQueue` returns the number of objects it moved into
  its destination (`Ghost.ret_transfer`); and the only object it drops is `nullptr`
  (`Ghost.dropped`). -/
theorem spmcQueue_of_reach {caps : Nat → Nat} (hcap : ∀ q, 0 < caps q)
    (h : Machine.Reach (step owner) (init caps) s) :
    (∀ q, QInv (s.queue q)) ∧
      (∀ c q head object k, (s.thread c).pc = .pushCheck q head object k →
        head ≤ (s.queue q).head ∧ (s.queue q).tail - head ≤ (s.queue q).capacity) ∧
      (∀ c r, (s.thread c).ret = some (.popHead r) →
        (s.thread c).took = [r] ∧ (s.thread c).outs = [.returned r] ∨
          r = none ∧ (s.thread c).took = []) ∧
      (∀ c r, (s.thread c).ret = some (.pushTail r) → ∃ q n, (s.thread c).loaded = some (q, n) ∧
        (r = 0 ∧ n < (s.queue q).capacity ∨ r = -1 ∧ n = (s.queue q).capacity)) ∧
      ∀ c, (s.thread c).Ghost := by
  have hI := sysInv_of_reach hcap h
  refine ⟨hI.queue, fun c q head object k hp => ?_, fun c r hr => ?_, fun c r hr => ?_,
    fun c => (hI.thread c).ghost⟩
  · obtain ⟨-, hh, ht, -⟩ := hI.pcInv_of hp
    exact ⟨hh, ht⟩
  · exact (hI.thread c).ghost.ret_popHead_took hr
  · exact hI.loadedInv_of ((hI.thread c).ghost.idle_of_ret hr) r hr

/-- Thread `0` pushes `7` into its queue `0` of capacity `1`, then pushes `8` into the full queue
and gets `-1`; thread `1`'s `PopHead` then takes `7` and returns it. -/
theorem spmcQueue_of_reach_fullThenPop :
    (∀ q, 0 < (fun _ => 1 : Nat → Nat) q) ∧
      ∃ s : SpmcSys Nat, Machine.Reach (step id) (init fun _ => 1) s ∧
        (s.thread 0).ret = some (.pushTail (-1)) ∧ (s.thread 1).ret = some (.popHead (some 7)) ∧
        (s.queue 0).popped = [some 7] ∧
        ((∀ q, QInv (s.queue q)) ∧
          (∀ c q head object k, (s.thread c).pc = .pushCheck q head object k →
            head ≤ (s.queue q).head ∧ (s.queue q).tail - head ≤ (s.queue q).capacity) ∧
          (∀ c r, (s.thread c).ret = some (.popHead r) →
            (s.thread c).took = [r] ∧ (s.thread c).outs = [.returned r] ∨
              r = none ∧ (s.thread c).took = []) ∧
          (∀ c r, (s.thread c).ret = some (.pushTail r) →
            ∃ q n, (s.thread c).loaded = some (q, n) ∧
              (r = 0 ∧ n < (s.queue q).capacity ∨ r = -1 ∧ n = (s.queue q).capacity)) ∧
          ∀ c, (s.thread c).Ghost) := by
  have hrun : Machine.holdsAfter (step id) (init fun _ => 1)
      [.pushTail 0 0 (some 7), .resume 0, .resume 0, .resume 0, .resume 0,
        .pushTail 0 0 (some 8), .resume 0, .resume 0,
        .popHead 1 0, .resume 1, .resume 1, .resume 1, .resume 1]
      (fun (s : SpmcSys Nat) => (s.thread 0).ret = some (Ret.pushTail (-1)) ∧
        (s.thread 1).ret = some (Ret.popHead (some 7)) ∧ (s.queue 0).popped = [some 7]) =
        true := by
    decide +kernel
  obtain ⟨s, hreach, h0, h1, hpop⟩ := Machine.exists_of_holdsAfter _ hrun
  exact ⟨fun _ => Nat.one_pos, s, hreach, h0, h1, hpop,
    spmcQueue_of_reach id (fun _ => Nat.one_pos) hreach⟩

/-- **`PopHeadToAnotherQueue` loses a `nullptr` that `PushTail` accepted.**  Thread `0` pushes
`nullptr` into queue `0`, which accepts it; thread `1` moves from queue `0` into its queue `1`,
takes that object with its compare-exchange, and breaks out of its loop on it: it returns `0`,
the object is in neither queue, and `func` never saw it. -/
theorem transfer_drops_null :
    ∃ s : SpmcSys Nat, Machine.Reach (step id) (init fun _ => 1) s ∧
      (s.queue 0).pushed = [none] ∧ (s.queue 0).popped = [none] ∧ (s.queue 1).pushed = [] ∧
      (s.thread 1).ret = some (.transfer 0) ∧ (s.thread 1).outs = [.dropped none] := by
  have hrun : Machine.holdsAfter (step id) (init fun _ => 1)
      [.pushTail 0 0 none, .resume 0, .resume 0, .resume 0, .resume 0,
        .popHeadToAnotherQueue 1 0 1 1, .resume 1, .resume 1, .resume 1, .resume 1, .resume 1,
        .resume 1, .resume 1]
      (fun (s : SpmcSys Nat) => (s.queue 0).pushed = [none] ∧ (s.queue 0).popped = [none] ∧
        (s.queue 1).pushed = [] ∧ (s.thread 1).ret = some (Ret.transfer 0) ∧
        (s.thread 1).outs = [Outcome.dropped none]) = true := by
    decide +kernel
  exact Machine.exists_of_holdsAfter _ hrun

end SpmcSys

end Ffrt.Util
