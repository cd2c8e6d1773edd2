-- What each call of `semaphores.c` does to the process table and to the
-- semaphore it names, while the heap serves the nodes of the lists.
import BareBones.SemaphoreHistory

namespace bare_bones.semaphore

open bare_bones.doubleLinkedList bare_bones.process bare_bones.scheduler
open bare_bones.process_table

variable {H : Type}

/-- The waiters of a semaphore whose pid still names a process. -/
def present (k : Kernel H) (id : Int) : List Waiter :=
  (k.semaphores id).waiters.filter (fun w => ¬ isGone k.scheduler w.pid)

/-- `k'` is `k` but for the table `t` and the semaphore `sem` of `id`. The
block of the heap does not matter. -/
structure Becomes (k : Kernel H) (t : Table) (id : Int) (sem : Semaphore) (k' : Kernel H) :
    Prop where
  table : k'.scheduler.view = t
  sems : k'.semaphores = Function.update k.semaphores id sem

theorem valid_iff {id : Int} : isValidSemId id = 0 ↔ 0 ≤ id ∧ id < NUM_SEMS := by
  unfold isValidSemId
  split <;> simp <;> omega

theorem valid_cases (id : Int) : isValidSemId id = -1 ∨ isValidSemId id = 0 := by
  unfold isValidSemId
  split
  · exact Or.inl rfl
  · exact Or.inr rfl

theorem acquire_free {sem : Semaphore} (h : sem.spinlock = 0) :
    acquire sem = some { sem with spinlock := 1 } := by
  unfold acquire
  rw [if_pos h]

/-- The lock is free again after the call. -/
theorem release_acquired {sem : Semaphore} (h : sem.spinlock = 0) :
    release { sem with spinlock := 1 } = sem := by
  cases sem
  cases h
  rfl

variable [MemoryManager H]

theorem addWaiter_spec (hn : Serves H NODE_SIZE) (queue : Option (DoubleLinkedList Waiter))
    (w : Waiter) (heap : H) :
    ∃ queue' heap', addWaiter queue w heap = (queue', heap') ∧
      queue'.map (·.data) = queue.map (fun q => q.data ++ [w]) := by
  unfold addWaiter
  cases queue with
  | none => exact ⟨none, heap, rfl, rfl⟩
  | some q =>
    obtain ⟨a, q', heap', ha, hd⟩ := addNode_spec hn q w heap
    refine ⟨some q', heap', ?_, congrArg some hd⟩
    dsimp only
    rw [ha]

theorem sem_wait_invalid (k : Kernel H) (rsp : Addr) {id : Int} (hv : isValidSemId id = -1) :
    sem_wait k id rsp = some (-1, k) := by
  rw [sem_wait, if_pos hv]

theorem sem_post_invalid (k : Kernel H) {id : Int} (hv : isValidSemId id = -1) :
    sem_post k id = some (-1, k) := by
  rw [sem_post, if_pos hv]

/-- `sem_wait` takes a token, or fails on the heap, or blocks its caller. -/
theorem sem_wait_spec (hn : Serves H NODE_SIZE) (k : Kernel H) {id : Int} (rsp : Addr)
    (hv : isValidSemId id = 0) (hf : (k.semaphores id).spinlock = 0) :
    (0 < (k.semaphores id).counter ∧ ∃ k', sem_wait k id rsp = some (0, k') ∧
      Becomes k k.scheduler.view id
        { k.semaphores id with counter := (k.semaphores id).counter - 1 } k') ∨
    ((k.semaphores id).counter = 0 ∧ ∃ k', sem_wait k id rsp = some (-1, k') ∧
      Becomes k k.scheduler.view id (k.semaphores id) k') ∨
    ((k.semaphores id).counter = 0 ∧ ∃ k' block waitQueue, sem_wait k id rsp = some (0, k') ∧
      waitQueue.map (·.data) = (k.semaphores id).waitQueue.map
        (fun q => q.data ++ [⟨block, getPid k.scheduler⟩]) ∧
      Becomes k (k.scheduler.view.block (getPid k.scheduler)) id
        { k.semaphores id with waitQueue := waitQueue } k') := by
  unfold sem_wait
  rw [if_neg (by rw [hv]; decide), acquire_free hf]
  dsimp only
  by_cases hc : (k.semaphores id).counter > 0
  · rw [if_pos hc]
    refine Or.inl ⟨hc, _, rfl, rfl, ?_⟩
    simp only [Kernel.setSem, release, hf]
  · rw [if_neg hc]
    have hc0 : (k.semaphores id).counter = 0 := by omega
    refine Or.inr ?_
    split
    · refine Or.inl ⟨hc0, _, rfl, rfl, ?_⟩
      simp only [Kernel.setSem, Kernel.setHeap, release_acquired hf]
    · rename_i block heap hb
      obtain ⟨queue, heap', hq, hd⟩ := addWaiter_spec hn (k.semaphores id).waitQueue
        ⟨block, getPid k.scheduler⟩ heap
      rw [hq]
      refine Or.inr ⟨hc0, _, block, queue, rfl, hd, ?_, ?_⟩
      · exact blockProcess_view hn { k.scheduler with heap := heap' } _ rsp
      · simp only [Kernel.setSem, Kernel.setHeap, release, hf]

/-- The purge keeps the waiters that are present, in their order. -/
theorem purge_data (s : Scheduler H) (rest : List Waiter) (queue : DoubleLinkedList Waiter)
    (heap : H) (pre : List Waiter) (hpre : ∀ w ∈ pre, isGone s w.pid = false)
    (hd : queue.data = pre ++ rest) :
    (purge s rest queue heap).1.data = pre ++ rest.filter (fun w => ¬ isGone s w.pid) := by
  induction rest generalizing queue heap pre with
  | nil => simpa [purge] using hd
  | cons w rest ih =>
    unfold purge
    by_cases hw : isGone s w.pid
    · rw [if_pos hw]
      have hmem : w ∈ queue.data := by rw [hd]; simp
      obtain ⟨queue', heap', hr, hd'⟩ := removeNode_of_mem heap hmem
      have hnp : w ∉ pre := fun hm => by rw [hpre w hm] at hw; cases hw
      rw [hr]
      dsimp only
      rw [ih _ _ pre hpre (by rw [hd', hd, List.erase_append_right _ hnp, List.erase_cons_head])]
      simp [hw]
    · rw [if_neg hw]
      have hw' : isGone s w.pid = false := by simpa using hw
      rw [ih queue heap (pre ++ [w]) ?_ (by rw [hd]; simp)]
      · simp [hw']
      · intro x hx
        rcases List.mem_append.mp hx with hx | hx
        · exact hpre x hx
        · rw [List.mem_singleton.mp hx]
          exact hw'

/-- What `takeFirst` gives: the first waiter that is present. -/
theorem takeFirst_spec (k : Kernel H) (id : Int) (heap : H) :
    ∃ queue' heap', takeFirst k.scheduler (k.semaphores id).waitQueue heap =
        ((present k id).head?, queue', heap') ∧
      queue'.isSome = (k.semaphores id).waitQueue.isSome ∧
      ∀ sem : Semaphore, sem.waitQueue = queue' →
        sem.waiters = match present k id with
          | [] => []
          | w :: rest => rest.erase w := by
  unfold takeFirst present Semaphore.waiters
  cases hq : (k.semaphores id).waitQueue with
  | none => exact ⟨none, heap, rfl, rfl, fun sem hs => by rw [hs]; rfl⟩
  | some queue =>
    dsimp only
    have hd := purge_data k.scheduler queue.data queue heap [] (fun _ hw => by cases hw) rfl
    rw [List.nil_append] at hd
    generalize purge k.scheduler queue.data queue heap = p at hd
    obtain ⟨queue₁, heap₁⟩ := p
    dsimp only at hd ⊢
    cases hl : queue.data.filter (fun w => ¬ isGone k.scheduler w.pid) with
    | nil =>
      rw [hl] at hd
      have hnodes : queue₁.nodes = [] := by simpa [DoubleLinkedList.data] using hd
      have he : isEmpty queue₁ = true := by simp [isEmpty, hnodes]
      rw [if_pos he]
      exact ⟨some queue₁, heap₁, rfl, rfl, fun sem hs => by rw [hs]; exact hd⟩
    | cons w rest =>
      rw [hl] at hd
      have he : ¬ isEmpty queue₁ = true := by
        simp only [isEmpty, List.isEmpty_iff]
        intro hnil
        simp [DoubleLinkedList.data, hnil] at hd
      obtain ⟨queue₂, heap₂, hg, hd₂⟩ := getFirstData_cons heap₁ hd
      rw [if_neg he, hg]
      dsimp only
      by_cases hm : w ∈ queue₂.data
      · obtain ⟨queue₃, heap₃, hr, hd₃⟩ := removeNode_of_mem heap₂ hm
        rw [hr]
        exact ⟨some queue₃, heap₃, rfl, rfl, fun sem hs => by rw [hs, ← hd₂]; exact hd₃⟩
      · rw [removeNode_of_not_mem heap₂ hm]
        refine ⟨some queue₂, heap₂, rfl, rfl, fun sem hs => ?_⟩
        rw [hs, ← hd₂, List.erase_of_not_mem hm]

/-- `sem_post` adds a token when no waiter is present; else the first one
takes it, and the counter stays. -/
theorem sem_post_spec (hn : Serves H NODE_SIZE) (k : Kernel H) {id : Int}
    (hv : isValidSemId id = 0) (hf : (k.semaphores id).spinlock = 0) :
    ∃ k' waitQueue, sem_post k id = some (0, k') ∧
      waitQueue.isSome = (k.semaphores id).waitQueue.isSome ∧
      match present k id with
      | [] => (∀ sem : Semaphore, sem.waitQueue = waitQueue → sem.waiters = []) ∧
          Becomes k k.scheduler.view id
            { k.semaphores id with
              waitQueue := waitQueue, counter := ((k.semaphores id).counter + 1) % 2 ^ 32 } k'
      | w :: rest => (∀ sem : Semaphore, sem.waitQueue = waitQueue → sem.waiters = rest.erase w) ∧
          Becomes k (k.scheduler.view.wake w.pid) id
            { k.semaphores id with waitQueue := waitQueue } k' := by
  unfold sem_post
  rw [if_neg (by rw [hv]; decide), acquire_free hf]
  obtain ⟨queue', heap', ht, hsome, hw⟩ := takeFirst_spec k id k.scheduler.heap
  dsimp only
  rw [ht]
  cases hp : present k id with
  | nil =>
    rw [hp] at hw
    refine ⟨_, queue', rfl, hsome, hw, rfl, ?_⟩
    simp only [Kernel.setSem, Kernel.setHeap, release, hf]
  | cons w rest =>
    rw [hp] at hw
    refine ⟨_, queue', rfl, hsome, hw, ?_, ?_⟩
    · exact setReadyProcess_view hn { k.scheduler with heap := mm_free w.block heap' } w.pid
    · simp only [Kernel.setSem, Kernel.setHeap, release, hf]

end bare_bones.semaphore
