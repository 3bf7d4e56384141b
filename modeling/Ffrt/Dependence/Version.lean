import Ffrt.Dependence.Task

/-!
# Dependence — Version

The version chains of `src/core/version_ctx.{h,cpp}` and `src/core/entity.cpp`.  Every
signature has a root `VersionCtx` in `vaMap`; each producer of the signature appends a version
before the root, and a nested producer appends one before its parent's version, so that the
chain reads `v1 <-> v2.1 <-> v2.2 <-> v2 <-> v3 <-> data` (the comment at the top of
`version_ctx.h`).  `last` points one step towards the oldest version, `next` one step towards
the root.

A version is `idle` until its producer finishes, `ready` while its consumers run, and
`consumed` when the last of them is done; then it wakes its `nextProducer` and goes onto the
trashcan, which `recycleVersion` empties at the end of every `onTaskDone`.  When a producer
finishes while its own children's last version is not consumed, `onProduced` merges that
version into its own (`mergeChildVersion`).

Each function below is the code's, one definition each, with the code's name; loops over
`consumers` and `dataWaitTaskByThis` are folds in list order.  `FreeMem` does not erase the
record: a version read after it is freed reads what it held (`freedVersions` logs the frees).
-/

namespace Ffrt

/-- `FreeMem` of a version, logged. -/
def freeVersion (s : State) (v : VersionId) : State :=
  { s with freedVersions := s.freedVersions ++ [v] }

/-- `versionTrashcan.push_back`, logged. -/
def pushTrash (s : State) (v : VersionId) : State :=
  { s with versionTrashcan := s.versionTrashcan ++ [v], trashed := s.trashed ++ [v] }

/-- `new (SimpleAllocator<VersionCtx>::AllocMem()) VersionCtx(...)`: a fresh address. -/
def allocVersion (s : State) (x : VersionCtx) : State × VersionId :=
  ({ s with versions := fun u => if u = s.nextVersion then x else s.versions u,
            nextVersion := s.nextVersion + 1 }, s.nextVersion)

/-- `Entity::VA2Ctx`: the root version of a signature, made on first use. -/
def va2Ctx (s : State) (p : Signature) : State × VersionId :=
  match s.vaMap.lookup p with
  | some v => (s, v)
  | none =>
      let (s, v) := allocVersion s { signature := p }
      ({ s with vaMap := s.vaMap ++ [(p, v)] }, v)

/-- `VersionCtx::CreateChildVersion`: a new version just before `v`, which becomes `v.last`. -/
def createChildVersion (s : State) (v : VersionId) (st : DataStatus) : State :=
  let prev := (s.versions v).last
  let (s, n) := allocVersion s
    { signature := (s.versions v).signature, next := some v, last := prev, status := st }
  let s := s.modifyVersion v (fun x => { x with last := some n })
  match prev with
  | some q => s.modifyVersion q (fun x => { x with next := some n })
  | none => s

/-- `BuildConsumeRelationship`: an `idle` version counts its new consumer; a consumed one is
ready again for it. -/
def buildConsumeRelationship (s : State) (v : VersionId) (c : TaskId) : State :=
  let st := (s.versions v).status
  let s := if st = .idle then s.modifyTask c (fun t => { t with dataRefCnt := t.dataRefCnt + 1 })
    else s
  s.modifyVersion v (fun x => { x with
    consumers := setInsert x.consumers c
    counted := if st = .idle then setInsert x.counted c else x.counted
    status := if st = .consumed then .ready else st })

/-- `BuildProducerProducerRelationship`: a producer waits for the previous version to be
consumed. -/
def buildProducerProducerRelationship (s : State) (pre : VersionId) (np : TaskId) : State :=
  if (s.versions pre).status ≠ .consumed then
    (s.modifyVersion pre (fun x => { x with nextProducer := some np })).modifyTask np
      (fun t => { t with dataRefCnt := t.dataRefCnt + 1 })
  else s

/-- `VersionCtx::AddConsumer`: a consumer of the data reads its newest version (made `ready`
when there is none), a consumer of its parent's input reads the parent's version itself. -/
def addConsumer (s : State) (v : VersionId) (c : TaskId) (nt : NestType) : State :=
  let (s, be) :=
    if nt = .parentOut ∨ nt = .default then
      let s := if (s.versions v).last = none then createChildVersion s v .ready else s
      (s, (s.versions v).last.getD v)
    else (s, v)
  let s := buildConsumeRelationship s be c
  s.modifyTask c (fun t => { t with ins := setInsert t.ins be })

/-- `VersionCtx::AddProducer`: the producer waits for the newest version and appends its own. -/
def addProducer (s : State) (v : VersionId) (pr : TaskId) : State :=
  let s := match (s.versions v).last with
    | some pre => buildProducerProducerRelationship s pre pr
    | none => s
  let s := createChildVersion s v .idle
  let n := (s.versions v).last.getD v
  let s := s.modifyTask pr (fun t => { t with outs := setInsert t.outs n })
  s.modifyVersion n (fun x => { x with myProducer := some pr })

/-- `NotifyConsumers`: `DecDepRef` on every consumer; the set is kept. -/
def notifyConsumers (s : State) (v : VersionId) : State :=
  (s.versions v).consumers.foldl decDepRef s

/-- `NotifyNextProducer`. -/
def notifyNextProducer (s : State) (v : VersionId) : State :=
  match (s.versions v).nextProducer with
  | some np => (decDepRef s np).modifyVersion v (fun x => { x with nextProducer := none })
  | none => s

/-- `NotifyDataWaitTask`: `DecWaitDataRef` on every waiter, and the list is cleared. -/
def notifyDataWaitTask (s : State) (v : VersionId) : State :=
  ((s.versions v).dataWaitTaskByThis.foldl decWaitDataRef s).modifyVersion v
    (fun x => { x with dataWaitTaskByThis := [] })

/-- `VersionCtx::AddDataWaitTaskByThis`: wait for the newest version while it is `idle`. -/
def addDataWaitTaskByThis (s : State) (v : VersionId) (t : TaskId) : State :=
  match (s.versions v).last with
  | some w =>
      if (s.versions w).status = .idle then
        (s.modifyVersion w (fun x => { x with dataWaitTaskByThis := x.dataWaitTaskByThis ++ [t] }))
          |>.modifyTask t (fun x => { x with dataRefCnt := x.dataRefCnt + 1 })
      else s
  | none => s

/-- `MergeConsumerInDep`: the consumers of `m` read `v` instead. -/
def mergeConsumerInDep (s : State) (v m : VersionId) : State :=
  (s.versions m).consumers.foldl
    (fun s c => s.modifyTask c (fun t => { t with ins := (setInsert t.ins v).erase m })) s

/-- `MergeProducerOutDep`: the producer of `m` produces `v` instead. -/
def mergeProducerOutDep (s : State) (v m : VersionId) : State :=
  match (s.versions m).myProducer with
  | some pr => s.modifyTask pr (fun t => { t with outs := (setInsert t.outs v).erase m })
  | none => s

/-- `VersionCtx::MergeChildVersion`: `v` takes over its last child version's status; a `ready`
child's consumers are re-pointed to `v` (and `v`'s own consumers woken), an `idle` child's
consumers and producer move to `v`.  The child goes onto the trashcan. -/
def mergeChildVersion (s : State) (v : VersionId) : State :=
  match (s.versions v).last with
  | none => s
  | some m =>
      let mx := s.versions m
      let s := s.modifyVersion v (fun x => { x with status := mx.status })
      let s := if mx.status = .ready then notifyDataWaitTask (notifyConsumers s v) v else s
      let s := mergeConsumerInDep s v m
      let s := if mx.status = .idle then
          let s := s.modifyVersion v (fun x => { x with
            consumers := mx.consumers.foldl setInsert x.consumers
            counted := mx.consumers.foldl setInsert x.counted })
          (mergeProducerOutDep s v m).modifyVersion v (fun x => { x with myProducer := mx.myProducer })
        else s
      pushTrash s m

/-- `VersionCtx::onProduced`. -/
def onProduced (s : State) (v : VersionId) : State :=
  let lastDone : Bool := match (s.versions v).last with
    | none => true
    | some l => decide ((s.versions l).status = .consumed)
  if lastDone then
    let s :=
      if (s.versions v).consumers = [] then
        pushTrash (notifyNextProducer (s.modifyVersion v (fun x => { x with status := .consumed })) v) v
      else notifyConsumers (s.modifyVersion v (fun x => { x with status := .ready })) v
    notifyDataWaitTask s v
  else mergeChildVersion s v

/-- `VersionCtx::onConsumed`. -/
def onConsumed (s : State) (v : VersionId) (c : TaskId) : State :=
  let s := s.modifyVersion v (fun x => { x with consumers := x.consumers.erase c })
  if (s.versions v).consumers = [] then
    pushTrash (notifyNextProducer (s.modifyVersion v (fun x => { x with status := .consumed })) v) v
  else s

/-- One turn of `Entity::RecycleVersion`'s loop: `cur` is unlinked and freed, and when the
version after it is a root (`next->next == nullptr`), that root is erased from `vaMap` and
freed too. -/
def recycleOne (s : State) (cur : VersionId) : State :=
  let c := s.versions cur
  match c.next with
  | none => s
  | some nx =>
      let s := s.modifyVersion nx (fun x => { x with last := c.last })
      let s := match c.last with
        | some l => s.modifyVersion l (fun x => { x with next := some nx })
        | none => s
      let s := freeVersion s cur
      if (s.versions nx).next = none then
        let sig := (s.versions nx).signature
        freeVersion { s with vaMap := s.vaMap.filter (fun e => e.1 ≠ sig) } nx
      else s

/-- `Entity::RecycleVersion`: every version on the trashcan, in order. -/
def recycleVersion (s : State) : State :=
  { s.versionTrashcan.foldl recycleOne s with versionTrashcan := [] }

end Ffrt
