-- `semaphores.c`: 128 semaphores, each with a counter and a queue of the pids
-- that wait. The queue holds pids, not processes: `sem_post` looks each pid up.
import BareBones.SchedulerPartition

namespace bare_bones.semaphore

open bare_bones.doubleLinkedList bare_bones.process bare_bones.scheduler

variable {H : Type}

def NUM_SEMS : Int := 128

/-- `sizeof(SemaphoreCDT)`. -/
def SEMAPHORE_SIZE : Nat := 2048

/-- `sizeof(int16_t)`. -/
def PID_SIZE : Nat := 2

/-- What a node of a wait queue points to: a block of the heap with a pid. -/
structure Waiter where
  block : Addr
  pid : Int
deriving DecidableEq

/-- `semaphore_t`. The counter is a `uint32_t`. -/
structure Semaphore where
  waitQueue : Option (DoubleLinkedList Waiter)
  counter : Nat
  spinlock : Nat
  active : Bool

/-- The queue of a semaphore, first come first. -/
def Semaphore.waiters (sem : Semaphore) : List Waiter :=
  match sem.waitQueue with
  | none => []
  | some queue => queue.data

/-- The scheduler and the table of the semaphores; they share the heap. -/
structure Kernel (H : Type) where
  scheduler : Scheduler H
  semaphores : Int → Semaphore

namespace Kernel

def setSem (k : Kernel H) (id : Int) (sem : Semaphore) : Kernel H :=
  { k with semaphores := Function.update k.semaphores id sem }

def setHeap (k : Kernel H) (heap : H) : Kernel H :=
  { k with scheduler := { k.scheduler with heap := heap } }

end Kernel

/-! ## The calls -/

def isValidSemId (id : Int) : Int := if id < 0 ∨ id ≥ NUM_SEMS then -1 else 0

/-- `acquire` spins until the lock is free. Interrupts are off, so on a lock
that is taken it never comes back. -/
def acquire (sem : Semaphore) : Option Semaphore :=
  if sem.spinlock = 0 then some { sem with spinlock := 1 } else none

def release (sem : Semaphore) : Semaphore := { sem with spinlock := 0 }

def sem_open (k : Kernel H) (id : Int) : Int :=
  if isValidSemId id = -1 then -1 else if (k.semaphores id).active then 0 else -1

/-- The test of the purge: the pid names no process, or a dead one. -/
def isGone (s : Scheduler H) (pid : Int) : Bool :=
  match findProcess s pid with
  | none => true
  | some proc => s.status proc = .TERMINATED

variable [MemoryManager H]

def initSemaphoreManager (scheduler : Scheduler H) : Option (Kernel H) :=
  match mm_alloc SEMAPHORE_SIZE scheduler.heap with
  | (none, _) => none
  | (some _, heap) =>
    some ⟨{ scheduler with heap := heap }, fun _ => ⟨none, 0, 0, false⟩⟩

def sem_create (k : Kernel H) (id : Int) (initialValue : Nat) : Int × Kernel H :=
  if isValidSemId id = -1 then (-1, k)
  else if ¬ (k.semaphores id).active then
    match createDoubleLinkedListADT k.scheduler.heap with
    | (none, heap) => (-1, (k.setHeap heap).setSem id ⟨none, initialValue, 0, true⟩)
    | (some waitQueue, heap) =>
      (0, (k.setHeap heap).setSem id ⟨some waitQueue, initialValue, 0, true⟩)
  else (-1, k)

/-- `none` when `freeLinkedListADT` is given `NULL`, and faults. -/
def sem_destroy (k : Kernel H) (id : Int) : Option (Int × Kernel H) :=
  if isValidSemId id = -1 then some (-1, k)
  else if ¬ (k.semaphores id).active then some (-1, k)
  else
    match (k.semaphores id).waitQueue with
    | none => none
    | some waitQueue =>
      some (0, (k.setHeap (freeLinkedListADT waitQueue k.scheduler.heap)).setSem id
        ⟨none, 0, 0, false⟩)

/-- `addNode` of `doubleLinkedList.c` on a queue that may be `NULL`. -/
def addWaiter (waitQueue : Option (DoubleLinkedList Waiter)) (waiter : Waiter) (heap : H) :
    Option (DoubleLinkedList Waiter) × H :=
  match waitQueue with
  | none => (none, heap)
  | some queue =>
    let (_, queue, heap) := addNode queue waiter heap
    (some queue, heap)

/-- When it blocks the caller, the result is that of the call once it runs
again. `none`: the call spins for ever. -/
def sem_wait (k : Kernel H) (id : Int) (rsp : Addr) : Option (Int × Kernel H) :=
  if isValidSemId id = -1 then some (-1, k)
  else
    match acquire (k.semaphores id) with
    | none => none
    | some sem =>
      if sem.counter > 0 then
        some (0, k.setSem id (release { sem with counter := sem.counter - 1 }))
      else
        let currentPid := getPid k.scheduler
        match mm_alloc PID_SIZE k.scheduler.heap with
        | (none, heap) => some (-1, (k.setHeap heap).setSem id (release sem))
        | (some pid, heap) =>
          let (waitQueue, heap) := addWaiter sem.waitQueue ⟨pid, currentPid⟩ heap
          let k := (k.setHeap heap).setSem id (release { sem with waitQueue := waitQueue })
          let (_, scheduler) := blockProcess k.scheduler currentPid rsp
          some (0, { k with scheduler := scheduler })

/-- The loop of `sem_post` that takes the dead waiters out. -/
def purge (s : Scheduler H) :
    List Waiter → DoubleLinkedList Waiter → H → DoubleLinkedList Waiter × H
  | [], queue, heap => (queue, heap)
  | pid :: rest, queue, heap =>
    if isGone s pid.pid then
      let (_, queue, heap) := removeNode queue pid heap
      purge s rest queue (mm_free pid.block heap)
    else purge s rest queue heap

/-- The middle of `sem_post`: the purged queue gives its first waiter, if it
has one. A `NULL` queue is empty too. -/
def takeFirst (s : Scheduler H) (waitQueue : Option (DoubleLinkedList Waiter)) (heap : H) :
    Option Waiter × Option (DoubleLinkedList Waiter) × H :=
  match waitQueue with
  | none => (none, none, heap)
  | some queue =>
    let (queue, heap) := purge s queue.data queue heap
    if isEmpty queue then (none, some queue, heap)
    else
      match getFirstData queue heap with
      | (none, queue, heap) => (none, some queue, heap)
      | (some pid, queue, heap) =>
        let (_, queue, heap) := removeNode queue pid heap
        (some pid, some queue, heap)

def sem_post (k : Kernel H) (id : Int) : Option (Int × Kernel H) :=
  if isValidSemId id = -1 then some (-1, k)
  else
    match acquire (k.semaphores id) with
    | none => none
    | some sem =>
      match takeFirst k.scheduler sem.waitQueue k.scheduler.heap with
      | (none, waitQueue, heap) =>
        some (0, (k.setHeap heap).setSem id
          (release { sem with waitQueue := waitQueue, counter := (sem.counter + 1) % 2 ^ 32 }))
      | (some pid, waitQueue, heap) =>
        let k := (k.setHeap (mm_free pid.block heap)).setSem id
          (release { sem with waitQueue := waitQueue })
        let (_, scheduler) := setReadyProcess k.scheduler pid.pid
        some (0, { k with scheduler := scheduler })

end bare_bones.semaphore
