import Mathlib.Data.List.Nodup
import Mathlib.Logic.Function.Basic

/-!
# Support — Intrusive lists

A circular doubly linked list threaded through link fields that live in the nodes themselves:
the `next` and `prev` of every node, with a head node that belongs to the list's owner.  The
operations are written field write by field write, in the order a C++ implementation performs
them, so that they can be run on links that are not a well-formed list.

* `Links`, `insertBefore`, `delete`, `removeNext`: the link fields and the three operations a
  queue is built from (`PushBack` is `insertBefore` at the head, `PopFront` is `removeNext` at
  the head).
* `Path`, `Rep`: the head's list holds the nodes `l`, in order, each once.
* `Rep.pushBack`, `Rep.popFront`, `Rep.empty_iff`, `Rep.walk`: what the operations do to a
  well-formed list whose pushed node is not in it.
* `Rep.not_mem_of_next_self`: a node linked to itself, as the constructor and `Delete` leave it,
  is in no list.
* `insertBefore_last_self`: a node pushed again while it is still the last one ends up linked
  to itself, and `next` from the head never comes back.
-/

namespace Intrusive

variable {ν : Type*} [DecidableEq ν]

/-- The link fields of every node. -/
structure Links (ν : Type*) where
  next : ν → ν
  prev : ν → ν

namespace Links

/-- Every node linked to itself, as a node's constructor leaves it. -/
def single : Links ν := ⟨id, id⟩

/-- `InsertBefore(cur, node)`: `node->next = cur; node->prev = cur->prev;
cur->prev->next = node; cur->prev = node`. -/
def insertBefore (L : Links ν) (cur node : ν) : Links ν :=
  let L₁ : Links ν := { L with next := Function.update L.next node cur }
  let L₂ : Links ν := { L₁ with prev := Function.update L₁.prev node (L₁.prev cur) }
  let L₃ : Links ν := { L₂ with next := Function.update L₂.next (L₂.prev cur) node }
  { L₃ with prev := Function.update L₃.prev cur node }

/-- `Delete(node)`: `node->prev->next = node->next; node->next->prev = node->prev;
node->next = node; node->prev = node`. -/
def delete (L : Links ν) (node : ν) : Links ν :=
  let L₁ : Links ν := { L with next := Function.update L.next (L.prev node) (L.next node) }
  let L₂ : Links ν := { L₁ with prev := Function.update L₁.prev (L₁.next node) (L₁.prev node) }
  let L₃ : Links ν := { L₂ with next := Function.update L₂.next node node }
  { L₃ with prev := Function.update L₃.prev node node }

/-- `RemoveNext(cur)`: nothing when `cur` is linked to itself, else the node after it,
deleted. -/
def removeNext (L : Links ν) (cur : ν) : Option (ν × Links ν) :=
  if L.next cur = cur then none else some (L.next cur, L.delete (L.next cur))

/-- The nodes `next` visits from `a`, at most `k` of them, up to the head `h`. -/
def walk (L : Links ν) (h : ν) : Nat → ν → List ν
  | 0, _ => []
  | k + 1, a => if L.next a = h then [] else L.next a :: walk L h k (L.next a)

/-- `next` leads from `a` through the nodes `l` to `b`, and `prev` leads back. -/
def Path (L : Links ν) : ν → List ν → ν → Prop
  | a, [], b => L.next a = b ∧ L.prev b = a
  | a, x :: l, b => L.next a = x ∧ L.prev x = a ∧ Path L x l b

/-- The list headed by `h` holds the nodes `l`, in order, each once. -/
def Rep (L : Links ν) (h : ν) (l : List ν) : Prop := Path L h l h ∧ (h :: l).Nodup

/-! ### Paths -/

omit [DecidableEq ν] in
/-- A path reads `next` at its sources and `prev` at its targets only. -/
theorem Path.congr {L L' : Links ν} {a b : ν} {l : List ν} (hp : Path L a l b)
    (hn : ∀ x ∈ a :: l, L'.next x = L.next x) (hq : ∀ x ∈ l ++ [b], L'.prev x = L.prev x) :
    Path L' a l b := by
  induction l generalizing a with
  | nil =>
      obtain ⟨h₁, h₂⟩ := hp
      exact ⟨(hn a (by simp)).trans h₁, (hq b (by simp)).trans h₂⟩
  | cons x l ih =>
      obtain ⟨h₁, h₂, hp⟩ := hp
      refine ⟨(hn a (by simp)).trans h₁, (hq x (by simp)).trans h₂, ih hp ?_ ?_⟩
      · exact fun y hy => hn y (List.mem_cons_of_mem a hy)
      · exact fun y hy => hq y (by simp only [List.cons_append, List.mem_cons]; exact .inr hy)

omit [DecidableEq ν] in
/-- A path through `l₁ ++ x :: l₂` is a path to `x` and one from it. -/
theorem path_append {L : Links ν} {a b x : ν} {l₁ l₂ : List ν} :
    Path L a (l₁ ++ x :: l₂) b ↔ Path L a l₁ x ∧ Path L x l₂ b := by
  induction l₁ generalizing a with
  | nil => simp [Path, and_assoc]
  | cons y l₁ ih => simp only [List.cons_append, Path, ih, and_assoc]

/-! ### The operations on a well-formed list -/

omit [DecidableEq ν] in
/-- An empty list is its head linked to itself. -/
theorem Rep.empty_iff {L : Links ν} {h : ν} {l : List ν} (hr : Rep L h l) :
    L.next h = h ↔ l = [] := by
  obtain ⟨hp, hn⟩ := hr
  cases l with
  | nil => exact ⟨fun _ => rfl, fun _ => hp.1⟩
  | cons x l =>
      refine ⟨fun he => ?_, fun he => absurd he (List.cons_ne_nil x l)⟩
      have hx : x = h := hp.1.symm.trans he
      exact absurd (hx ▸ List.mem_cons_self : h ∈ x :: l) (List.nodup_cons.mp hn).1

/-- **`PushBack` of a node that is not in the list appends it.** -/
theorem Rep.pushBack {L : Links ν} {h node : ν} {l : List ν} (hr : Rep L h l)
    (hnode : node ∉ h :: l) : Rep (L.insertBefore h node) h (l ++ [node]) := by
  obtain ⟨hp, hn⟩ := hr
  have hnh : node ≠ h := fun he => hnode (he ▸ List.mem_cons_self)
  refine ⟨?_, ?_⟩
  · -- the old last node, `prev h`, now leads to `node`, which leads back to the head
    rcases List.eq_nil_or_concat l with rfl | ⟨init, last, rfl⟩
    · obtain ⟨h₁, h₂⟩ := hp
      simp [Path, insertBefore, h₂, hnh, Function.update]
    · rw [List.concat_eq_append] at hp hn hnode ⊢
      have hp' : Path L h init last ∧ Path L last [] h := path_append.mp hp
      have hhl : h ∉ init := fun hm => (List.nodup_cons.mp hn).1 (List.mem_append_left _ hm)
      have hlh : last ≠ h := fun he =>
        (List.nodup_cons.mp hn).1 (he ▸ List.mem_append_right _ (List.mem_singleton_self _))
      have hli : last ∉ init :=
        (List.nodup_cons.mp (List.nodup_append_comm.mp (List.nodup_cons.mp hn).2)).1
      have hlast : L.prev h = last := hp'.2.2
      have hni : node ∉ init := fun hm => hnode (by simp [hm])
      have hnl : node ≠ last := fun he => hnode (by simp [he])
      rw [List.append_assoc, List.singleton_append, path_append]
      refine ⟨hp'.1.congr (fun x hx => ?_) (fun x hx => ?_), ?_⟩
      · -- `next` changed at `last` and at `node` only, neither of which leads in `h :: init`
        have hxl : x ≠ last := by
          rcases List.mem_cons.mp hx with rfl | hx
          · exact hlh.symm
          · exact fun he => hli (he ▸ hx)
        have hxn : x ≠ node := by
          rcases List.mem_cons.mp hx with rfl | hx
          · exact hnh.symm
          · exact fun he => hni (he ▸ hx)
        simp [insertBefore, Function.update, hlast, hxl, hxn]
      · -- `prev` changed at `node` and at the head only
        have hxh : x ≠ h := by
          rcases List.mem_append.mp hx with hx | hx
          · exact fun he => hhl (he ▸ hx)
          · rw [List.mem_singleton.mp hx]
            exact hlh
        have hxn : x ≠ node := by
          rcases List.mem_append.mp hx with hx | hx
          · exact fun he => hni (he ▸ hx)
          · rw [List.mem_singleton.mp hx]
            exact hnl.symm
        simp [insertBefore, Function.update, hxh, hxn]
      · simp [Path, insertBefore, Function.update, hlast, hnl, hnh]
  · -- the pushed node is new
    rw [← List.cons_append, List.nodup_append_comm]
    exact List.nodup_cons.mpr ⟨hnode, hn⟩

/-- **`PopFront` takes the first node off and links it to itself.** -/
theorem Rep.popFront {L : Links ν} {h x : ν} {l : List ν} (hr : Rep L h (x :: l)) :
    ∃ L', L.removeNext h = some (x, L') ∧ Rep L' h l ∧ L'.next x = x ∧ L'.prev x = x := by
  obtain ⟨⟨hhx, hxh, hp⟩, hn⟩ := hr
  have hh : h ∉ x :: l := (List.nodup_cons.mp hn).1
  have hx : x ∉ l := (List.nodup_cons.mp (List.nodup_cons.mp hn).2).1
  have hl : l.Nodup := (List.nodup_cons.mp (List.nodup_cons.mp hn).2).2
  have hxne : x ≠ h := fun he => hh (he ▸ List.mem_cons_self)
  refine ⟨L.delete x, ?_, ⟨?_, hn.sublist (List.Sublist.cons_cons h (List.sublist_cons_self x l))⟩,
    by simp [delete], by simp [delete]⟩
  · simp [removeNext, hhx, hxne]
  · -- the head now leads to what followed `x`
    cases l with
    | nil =>
        obtain ⟨h₁, h₂⟩ := hp
        simp [Path, delete, Function.update, hxh, h₁, hxne, hxne.symm]
    | cons y l =>
        obtain ⟨h₁, h₂, hp⟩ := hp
        have hyx : y ≠ x := fun he => hx (he ▸ List.mem_cons_self)
        have hyh : y ≠ h := fun he => hh (by simp [he])
        have hlh : h ∉ l := fun hm => hh (by simp [hm])
        have hlx : x ∉ l := fun hm => hx (List.mem_cons_of_mem y hm)
        have hly : y ∉ l := (List.nodup_cons.mp hl).1
        refine ⟨by simp [delete, Function.update, hxh, h₁, hxne, hxne.symm],
          by simp [delete, Function.update, hxh, h₁, hyx], hp.congr (fun z hz => ?_)
            (fun z hz => ?_)⟩
        · -- `next` changed at the head and at `x` only
          have hzx : z ≠ x := by
            rcases List.mem_cons.mp hz with rfl | hz
            · exact hyx
            · exact fun he => hlx (he ▸ hz)
          have hzh : z ≠ h := by
            rcases List.mem_cons.mp hz with rfl | hz
            · exact hyh
            · exact fun he => hlh (he ▸ hz)
          simp [delete, Function.update, hxh, h₁, hzx, hzh]
        · -- `prev` changed at `y` and at `x` only
          have hzx : z ≠ x := by
            rcases List.mem_append.mp hz with hz | hz
            · exact fun he => hlx (he ▸ hz)
            · rw [List.mem_singleton.mp hz]
              exact hxne.symm
          have hzy : z ≠ y := by
            rcases List.mem_append.mp hz with hz | hz
            · exact fun he => hly (he ▸ hz)
            · rw [List.mem_singleton.mp hz]
              exact hyh.symm
          simp [delete, Function.update, hxh, h₁, hzx, hzy]

/-- `next` from the head visits the list's nodes, given enough steps. -/
theorem Rep.walk {L : Links ν} {h : ν} {l : List ν} (hr : Rep L h l) {k : Nat}
    (hk : l.length ≤ k) : L.walk h k h = l := by
  obtain ⟨hp, hn⟩ := hr
  have hh : h ∉ l := (List.nodup_cons.mp hn).1
  -- along the path, each step either reaches the head or the next node of `l`
  suffices ∀ (m : List ν) (a : ν) (k : Nat), Path L a m h → h ∉ m → m.length ≤ k →
      L.walk h k a = m from this l h k hp hh hk
  intro m
  induction m with
  | nil =>
      intro a k hp _ _
      cases k with
      | zero => rfl
      | succ k => simp [Links.walk, hp.1]
  | cons x m ih =>
      intro a k hp hhm hk
      obtain ⟨h₁, -, hp⟩ := hp
      have hxh : x ≠ h := fun he => hhm (he ▸ List.mem_cons_self)
      cases k with
      | zero => simp at hk
      | succ k =>
          simp only [Links.walk, h₁, hxh, if_false]
          rw [ih x k hp (fun hm => hhm (List.mem_cons_of_mem x hm)) (by simpa using hk)]

/-! ### Nodes linked to themselves -/

omit [DecidableEq ν] in
/-- `next` of a path's first node is the next node of the path, or its end. -/
theorem Path.next_mem {L : Links ν} {a b : ν} {l : List ν} (hp : Path L a l b) :
    L.next a ∈ l ++ [b] := by
  cases l with
  | nil => simp [hp.1]
  | cons y l => simp [hp.1]

omit [DecidableEq ν] in
/-- A node linked to itself is in no well-formed list but as its head. -/
theorem Rep.not_mem_of_next_self {L : Links ν} {h node : ν} {l : List ν} (hr : Rep L h l)
    (hh : node ≠ h) (hself : L.next node = node) : node ∉ l := by
  intro hm
  obtain ⟨l₁, l₂, rfl⟩ := List.append_of_mem hm
  -- `next` of `node` is the node after it, or the head
  have hnext := (path_append.mp hr.1).2.next_mem
  rw [hself] at hnext
  rcases List.mem_append.mp hnext with h₂ | h₂
  · have hnd : (node :: l₂).Nodup := (List.nodup_cons.mp hr.2).2.of_append_right
    exact (List.nodup_cons.mp hnd).1 h₂
  · exact hh (List.mem_singleton.mp h₂)

/-- **A node pushed again while it is the last one links to itself.**  `next` from the head
reaches it and then stays there. -/
theorem insertBefore_last_self (L : Links ν) {h x : ν} (hlast : L.prev h = x) :
    (L.insertBefore h x).next x = x := by
  simp [insertBefore, Function.update, hlast]

end Links

end Intrusive
