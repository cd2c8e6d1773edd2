-- The spinlocks of the semaphores: `sem_wait` and `sem_post` once more, with the exchanges
-- of `acquire`, the stores of the lock, and the kernel each time that control can pass on.
-- Interrupts are off in the kernel, so control passes when `yield` raises the timer
-- interrupt and when the call returns.
import BareBones.SemaphoreFailures

namespace bare_bones.semaphore

open bare_bones.doubleLinkedList bare_bones.process bare_bones.scheduler runs

variable {H : Type}

/-! ## The lock -/

/-- `xchg [rdi], al`: what `al` is then, and what the lock is. -/
def xchg (lock al : Nat) : Nat × Nat := (lock, al)

/-- The loop of `acquire`: how often it exchanges before it returns, and the lock then. The
fuel bounds the exchanges. -/
def acquireLoop : Nat → Nat → Nat → Option (Nat × Nat)
  | 0, _, _ => none
  | fuel + 1, al, lock =>
    let (al, lock) := xchg lock al
    if al = 0 then some (1, lock)
    else (acquireLoop fuel al lock).map fun (n, lock) => (n + 1, lock)

def acquire_traced (fuel lock : Nat) : Option (Nat × Nat) := acquireLoop fuel 1 lock

namespace Kernel

/-! The fields of a semaphore in the table. -/

def setLock (k : Kernel H) (id : Int) (lock : Nat) : Kernel H :=
  k.setSem id { k.semaphores id with spinlock := lock }

def setCounter (k : Kernel H) (id : Int) (counter : Nat) : Kernel H :=
  k.setSem id { k.semaphores id with counter := counter }

def setQueue (k : Kernel H) (id : Int) (waitQueue : Option (DoubleLinkedList Waiter)) :
    Kernel H :=
  k.setSem id { k.semaphores id with waitQueue := waitQueue }

def setScheduler (k : Kernel H) (scheduler : Scheduler H) : Kernel H :=
  { k with scheduler := scheduler }

end Kernel

/-- How often each `acquire` of a call exchanged, and the kernel each time that control
could pass to another process or to the handler of an interrupt. -/
structure Trace (H : Type) where
  exchanges : List Nat
  passes : List (Kernel H)

/-! ## The calls, with their traces -/

section Traced

variable [MemoryManager H]

/-- The scheduler when the timer interrupt is raised, and after it. -/
def yield_traced (s : Scheduler H) (rsp : Addr) : List (Scheduler H) × Scheduler H :=
  ([{ s with quantums := 0 }], (schedule { s with quantums := 0 } rsp).2)

def blockProcess_traced (s : Scheduler H) (pid : Int) (rsp : Addr) :
    List (Scheduler H) × Scheduler H :=
  match findProcess s pid with
  | none => ([], s)
  | some process =>
    if s.status process = .RUNNING ∨ s.status process = .READY then
      match (if s.status process = .READY then removeNode s.readyProcess process s.heap
        else (some process, s.readyProcess, s.heap)) with
      | (none, _, _) => ([], s)
      | (some _, readyProcess, heap) =>
        let s := { s with readyProcess := readyProcess, heap := heap }
        match addNode s.blockedProcess process s.heap with
        | (none, _, heap) => ([], { s with heap := heap })
        | (some _, blockedProcess, heap) =>
          let s := { s with blockedProcess := blockedProcess, heap := heap }.setStatus
            process .BLOCKED
          if getPid s = pid then yield_traced s rsp else ([], s)
    else if getPid s = pid then yield_traced s rsp else ([], s)

def sem_wait_traced (fuel : Nat) (k : Kernel H) (id : Int) (rsp : Addr) :
    Option (Int × Kernel H × Trace H) :=
  if isValidSemId id = -1 then some (-1, k, ⟨[], [k]⟩)
  else
    match acquire_traced fuel (k.semaphores id).spinlock with
    | none => none
    | some (n, lock) =>
      let k := k.setLock id lock
      if (k.semaphores id).counter > 0 then
        let k := k.setCounter id ((k.semaphores id).counter - 1)
        let k := k.setLock id 0
        some (0, k, ⟨[n], [k]⟩)
      else
        let currentPid := getPid k.scheduler
        match mm_alloc PID_SIZE k.scheduler.heap with
        | (none, heap) =>
          let k := k.setHeap heap
          let k := k.setLock id 0
          some (-1, k, ⟨[n], [k]⟩)
        | (some pid, heap) =>
          let (waitQueue, heap) := addWaiter (k.semaphores id).waitQueue ⟨pid, currentPid⟩ heap
          let k := (k.setHeap heap).setQueue id waitQueue
          let k := k.setLock id 0
          let (passes, scheduler) := blockProcess_traced k.scheduler currentPid rsp
          let passes := passes.map k.setScheduler
          let k := k.setScheduler scheduler
          some (0, k, ⟨[n], passes ++ [k]⟩)

def sem_post_traced (fuel : Nat) (k : Kernel H) (id : Int) : Option (Int × Kernel H × Trace H) :=
  if isValidSemId id = -1 then some (-1, k, ⟨[], [k]⟩)
  else
    match acquire_traced fuel (k.semaphores id).spinlock with
    | none => none
    | some (n, lock) =>
      let k := k.setLock id lock
      match takeFirst k.scheduler (k.semaphores id).waitQueue k.scheduler.heap with
      | (none, waitQueue, heap) =>
        let k := (k.setHeap heap).setQueue id waitQueue
        let k := k.setCounter id (((k.semaphores id).counter + 1) % 2 ^ 32)
        let k := k.setLock id 0
        some (0, k, ⟨[n], [k]⟩)
      | (some pid, waitQueue, heap) =>
        let k := (k.setHeap (mm_free pid.block heap)).setQueue id waitQueue
        let k := k.setScheduler (setReadyProcess k.scheduler pid.pid).2
        let k := k.setLock id 0
        some (0, k, ⟨[n], [k]⟩)

end Traced

/-! ## What the traces add -/

/-- A lock that is free is taken at the first exchange, and one that is not is never taken. -/
theorem acquire_traced_spec {fuel : Nat} (hfuel : 0 < fuel) (lock : Nat) :
    acquire_traced fuel lock = if lock = 0 then some (1, 1) else none := by
  have hspins : ∀ fuel al lock, al ≠ 0 → lock ≠ 0 → acquireLoop fuel al lock = none := by
    intro fuel
    induction fuel with
    | zero => exact fun _ _ _ _ => rfl
    | succ fuel ih =>
      intro al lock hal hlock
      rw [acquireLoop]
      simp [xchg, hlock, ih lock al hlock hal]
  obtain ⟨fuel, rfl⟩ := Nat.exists_eq_succ_of_ne_zero (Nat.ne_of_gt hfuel)
  rw [acquire_traced, acquireLoop]
  by_cases h : lock = 0
  · simp [xchg, h]
  · simp [xchg, h, hspins fuel lock 1 h (by decide)]

/-- A kernel in which no lock is held. -/
def Unlocked (k : Kernel H) : Prop := ∀ j, (k.semaphores j).spinlock = 0

section Fields

variable (k : Kernel H) (id : Int) (lock : Nat)

@[simp] theorem setLock_counter :
    ((k.setLock id lock).semaphores id).counter = (k.semaphores id).counter := by
  simp [Kernel.setLock, Kernel.setSem]

@[simp] theorem setLock_waitQueue :
    ((k.setLock id lock).semaphores id).waitQueue = (k.semaphores id).waitQueue := by
  simp [Kernel.setLock, Kernel.setSem]

@[simp] theorem setQueue_counter (waitQueue : Option (DoubleLinkedList Waiter)) :
    ((k.setQueue id waitQueue).semaphores id).counter = (k.semaphores id).counter := by
  simp [Kernel.setQueue, Kernel.setSem]

@[simp] theorem setHeap_semaphores (heap : H) : (k.setHeap heap).semaphores = k.semaphores := rfl

@[simp] theorem setLock_scheduler : (k.setLock id lock).scheduler = k.scheduler := rfl

@[simp] theorem setLock_setHeap (heap : H) :
    (k.setLock id lock).setHeap heap = (k.setHeap heap).setLock id lock := rfl

@[simp] theorem setLock_setScheduler (s : Scheduler H) :
    (k.setLock id lock).setScheduler s = (k.setScheduler s).setLock id lock := rfl

@[simp] theorem setLock_setCounter (counter : Nat) :
    (k.setLock id lock).setCounter id counter = (k.setCounter id counter).setLock id lock := by
  simp [Kernel.setLock, Kernel.setCounter, Kernel.setSem]

@[simp] theorem setLock_setQueue (waitQueue : Option (DoubleLinkedList Waiter)) :
    (k.setLock id lock).setQueue id waitQueue = (k.setQueue id waitQueue).setLock id lock := by
  simp [Kernel.setLock, Kernel.setQueue, Kernel.setSem]

@[simp] theorem setLock_setLock (lock' : Nat) :
    (k.setLock id lock).setLock id lock' = k.setLock id lock' := by
  simp [Kernel.setLock, Kernel.setSem]

end Fields

/-- The release of a lock that was free before. -/
theorem Unlocked.release {k : Kernel H} (h : Unlocked k) (id : Int) : k.setLock id 0 = k := by
  have hself : ({ k.semaphores id with spinlock := 0 } : Semaphore) = k.semaphores id := by
    rw [← h id]
  rw [Kernel.setLock]
  refine (congrArg (k.setSem id) hself).trans ?_
  rw [Kernel.setSem, Function.update_eq_self]

theorem Unlocked.setQueue {k : Kernel H} (h : Unlocked k) (id : Int)
    (waitQueue : Option (DoubleLinkedList Waiter)) : Unlocked (k.setQueue id waitQueue) :=
  setSem_free h id _ (h id)

theorem Unlocked.setCounter {k : Kernel H} (h : Unlocked k) (id : Int) (counter : Nat) :
    Unlocked (k.setCounter id counter) := setSem_free h id _ (h id)

theorem Unlocked.setHeap {k : Kernel H} (h : Unlocked k) (heap : H) :
    Unlocked (k.setHeap heap) := h

theorem Unlocked.setScheduler {k : Kernel H} (h : Unlocked k) (s : Scheduler H) :
    Unlocked (k.setScheduler s) := h

variable [MemoryManager H]

theorem blockProcess_traced_eq (s : Scheduler H) (pid : Int) (rsp : Addr) :
    (blockProcess_traced s pid rsp).2 = (blockProcess s pid rsp).2 := by
  have hyields : ∀ s : Scheduler H,
      (if getPid s = pid then yield_traced s rsp else ([], s)).2 =
        (if getPid s = pid then ((0 : Int), yield s rsp) else (0, s)).2 := by
    intro s
    split <;> rfl
  unfold blockProcess_traced blockProcess
  cases findProcess s pid with
  | none => rfl
  | some process =>
    dsimp only
    generalize (if s.status process = .READY then removeNode s.readyProcess process s.heap
      else (some process, s.readyProcess, s.heap)) = taken
    by_cases hs : s.status process = .RUNNING ∨ s.status process = .READY
    · rw [if_pos hs, if_pos hs]
      rcases taken with ⟨_ | _, readyProcess, heap⟩
      · rfl
      · dsimp only
        rcases addNode s.blockedProcess process heap with ⟨_ | _, blockedProcess, heap'⟩
        · rfl
        · exact hyields _
    · rw [if_neg hs, if_neg hs]
      exact hyields s

/-- The traced call ends as the call does. Each `acquire` of it exchanged once, and no lock
was held when control could pass on. -/
structure Clean (traced : Option (Int × Kernel H × Trace H)) (plain : Option (Int × Kernel H)) :
    Prop where
  ends : traced.isSome
  same : traced.map (fun r => (r.1, r.2.1)) = plain
  once : ∀ r ∈ traced, ∀ n ∈ r.2.2.exchanges, n = 1
  passes : ∀ r ∈ traced, r.2.1 ∈ r.2.2.passes ∧ ∀ k ∈ r.2.2.passes, Unlocked k

omit [MemoryManager H] in
/-- A call whose last pass is its return. -/
theorem clean_some {r : Int} {k : Kernel H} {exchanges : List Nat} {passes : List (Kernel H)}
    {plain : Option (Int × Kernel H)} (hplain : plain = some (r, k))
    (hexchanges : ∀ n ∈ exchanges, n = 1) (hpasses : ∀ k' ∈ passes, Unlocked k')
    (hk : Unlocked k) : Clean (some (r, k, ⟨exchanges, passes ++ [k]⟩)) plain := by
  refine ⟨rfl, hplain.symm, ?_, ?_⟩
  · rintro _ ⟨⟩
    exact hexchanges
  · rintro _ ⟨⟩
    refine ⟨List.mem_append_right _ (List.mem_singleton_self k), fun k' hk' => ?_⟩
    rcases List.mem_append.mp hk' with hk' | hk'
    · exact hpasses k' hk'
    · rw [List.mem_singleton.mp hk']
      exact hk

section Clean

variable {k : Kernel H} {id : Int} {fuel : Nat}

theorem sem_wait_clean (h : Unlocked k) (id : Int) (rsp : Addr) (hfuel : 0 < fuel) :
    Clean (sem_wait_traced fuel k id rsp) (sem_wait k id rsp) := by
  rcases valid_cases id with hv | hv
  · rw [sem_wait_traced, if_pos hv]
    exact @clean_some _ _ _ [] [] _ (sem_wait_invalid k rsp hv) (by simp) (by simp) h
  have hfree := h id
  have hacquire := acquire_traced_spec hfuel 0
  rcases Nat.eq_zero_or_pos (k.semaphores id).counter with hc | hc
  · rcases ha : mm_alloc PID_SIZE k.scheduler.heap with ⟨_ | block, heap⟩
    · have htraced : sem_wait_traced fuel k id rsp =
          some (-1, k.setHeap heap, ⟨[1], [] ++ [k.setHeap heap]⟩) := by
        simp [sem_wait_traced, hv, hfree, hacquire, hc, ha, (h.setHeap heap).release id]
      rw [htraced]
      exact clean_some (sem_wait_noPid rsp hv hfree hc ha) (by simp) (by simp) h
    · -- the caller is in the queue when it blocks
      rcases hq : addWaiter (k.semaphores id).waitQueue ⟨block, getPid k.scheduler⟩ heap with
        ⟨waitQueue, heap'⟩
      have hunlocked := (h.setHeap heap').setQueue id waitQueue
      have hplain := sem_wait_waits rsp hv hfree hc ha hq
      generalize hk' : (k.setHeap heap').setQueue id waitQueue = k' at hunlocked
      generalize hb : blockProcess_traced k'.scheduler (getPid k.scheduler) rsp = blocked
      have htraced : sem_wait_traced fuel k id rsp = some (0, k'.setScheduler blocked.2,
          ⟨[1], blocked.1.map k'.setScheduler ++ [k'.setScheduler blocked.2]⟩) := by
        simp [sem_wait_traced, hv, hfree, hacquire, hc, ha, hq, hk', hb, hunlocked.release id]
      rw [htraced]
      refine clean_some (hplain.trans ?_) (by simp) (fun k'' hk'' => ?_)
        (hunlocked.setScheduler blocked.2)
      · rw [← hb, blockProcess_traced_eq, ← hk']
        rfl
      · obtain ⟨s, -, rfl⟩ := List.mem_map.mp hk''
        exact hunlocked.setScheduler s
  · have hunlocked := h.setCounter id ((k.semaphores id).counter - 1)
    have htraced : sem_wait_traced fuel k id rsp =
        some (0, k.setCounter id ((k.semaphores id).counter - 1),
          ⟨[1], [] ++ [k.setCounter id ((k.semaphores id).counter - 1)]⟩) := by
      simp [sem_wait_traced, hv, hfree, hacquire, hc, hunlocked.release id]
    rw [htraced]
    exact clean_some (sem_wait_token rsp hv hfree hc) (by simp) (by simp) hunlocked

theorem sem_post_clean (h : Unlocked k) (id : Int) (hfuel : 0 < fuel) :
    Clean (sem_post_traced fuel k id) (sem_post k id) := by
  rcases valid_cases id with hv | hv
  · rw [sem_post_traced, if_pos hv]
    exact @clean_some _ _ _ [] [] _ (sem_post_invalid k hv) (by simp) (by simp) h
  have hfree := h id
  have hacquire := acquire_traced_spec hfuel 0
  rcases ht : takeFirst k.scheduler (k.semaphores id).waitQueue k.scheduler.heap with
    ⟨_ | w, waitQueue, heap⟩
  · -- nobody waits
    have hunlocked := ((h.setHeap heap).setQueue id waitQueue).setCounter id
      (((k.semaphores id).counter + 1) % 2 ^ 32)
    have hplain : sem_post k id = some (0, ((k.setHeap heap).setQueue id waitQueue).setCounter id
        (((k.semaphores id).counter + 1) % 2 ^ 32)) := by
      simp [sem_post, hv, acquire, hfree, ht, release, Kernel.setQueue, Kernel.setCounter,
        Kernel.setSem, Kernel.setHeap]
    have htraced : sem_post_traced fuel k id = some (0,
        ((k.setHeap heap).setQueue id waitQueue).setCounter id
          (((k.semaphores id).counter + 1) % 2 ^ 32),
        ⟨[1], [] ++ [((k.setHeap heap).setQueue id waitQueue).setCounter id
          (((k.semaphores id).counter + 1) % 2 ^ 32)]⟩) := by
      simpa [sem_post_traced, hv, hfree, hacquire, ht] using hunlocked.release id
    rw [htraced]
    exact clean_some hplain (by simp) (by simp) hunlocked
  · -- the lock is held while the waiter is made ready
    generalize hk' : (k.setHeap (mm_free w.block heap)).setQueue id waitQueue = k'
    have hunlocked : Unlocked k' := hk' ▸ (h.setHeap _).setQueue id waitQueue
    generalize hs : (setReadyProcess k'.scheduler w.pid).2 = scheduler
    have hplain : sem_post k id = some (0, k'.setScheduler scheduler) := by
      rw [← hs, ← hk']
      simp [sem_post, hv, acquire, hfree, ht, release, Kernel.setQueue, Kernel.setScheduler,
        Kernel.setSem, Kernel.setHeap]
    have htraced : sem_post_traced fuel k id =
        some (0, k'.setScheduler scheduler, ⟨[1], [] ++ [k'.setScheduler scheduler]⟩) := by
      simp [sem_post_traced, hv, hfree, hacquire, ht, hk', hs,
        (hunlocked.setScheduler scheduler).release id]
    rw [htraced]
    exact clean_some hplain (by simp) (by simp) (hunlocked.setScheduler scheduler)

end Clean

/-! ## Every run -/

/-- No lock is held now, nor when control passes on in a `sem_wait` or a `sem_post` that
comes next. -/
structure NeverHeld (s : System H) : Prop where
  now : Unlocked s.kernel
  wait : ∀ id rsp fuel, 0 < fuel →
    Clean (sem_wait_traced fuel s.kernel id rsp) (call s.kernel (.sem_wait id rsp))
  post : ∀ id fuel, 0 < fuel →
    Clean (sem_post_traced fuel s.kernel id) (call s.kernel (.sem_post id))

/-- In no run is a lock held across a switch or an interrupt, so `acquire` always comes back
after its first exchange. -/
theorem no_lock_is_held_when_control_passes {boot : System H} (hb : BootedSystem boot)
    (calls : List Call) : NeverHeld (run step boot calls) := by
  have hnow : Unlocked (run step boot calls).kernel := free_run hb calls
  exact ⟨hnow, fun id rsp fuel hfuel => sem_wait_clean hnow id rsp hfuel,
    fun id fuel hfuel => sem_post_clean hnow id hfuel⟩

/-- Pid 3 blocks in `sem_wait`: control passes in its `yield` and at its return. -/
theorem no_lock_is_held_when_a_waiter_blocks :
    NeverHeld (run step endlessSystem waitingRun.dropLast) ∧
      (sem_wait_traced 1 (run step endlessSystem waitingRun.dropLast).kernel 5 10).map
        (fun r => (r.2.2.exchanges, r.2.2.passes.length)) = some ([1], 2) :=
  ⟨no_lock_is_held_when_control_passes booted_endlessSystem _, by decide +kernel⟩

end bare_bones.semaphore
