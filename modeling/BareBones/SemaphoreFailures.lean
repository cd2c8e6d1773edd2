-- What a failing `sem_wait`, `sem_post` or `sem_create` leaves behind, over a heap that
-- may refuse any allocation.
import BareBones.HeapExhaustion
import BareBones.SemaphoreQueues

namespace bare_bones.semaphore

open bare_bones.doubleLinkedList bare_bones.process bare_bones.scheduler
open bare_bones.process_table runs

variable {H : Type}

theorem setSem_free {k : Kernel H} (h : ∀ j, (k.semaphores j).spinlock = 0) (id : Int)
    (sem : Semaphore) (hs : sem.spinlock = 0) (j : Int) :
    ((k.setSem id sem).semaphores j).spinlock = 0 := by
  unfold Kernel.setSem
  dsimp only
  by_cases hj : j = id
  · rw [hj, Function.update_self, hs]
  · rw [Function.update_of_ne hj, h]

variable [MemoryManager H]

/-! ## The ways through `sem_wait` -/

section Wait

variable {k : Kernel H} {id : Int} (rsp : Addr)

theorem sem_wait_token (hv : isValidSemId id = 0) (hf : (k.semaphores id).spinlock = 0)
    (hc : 0 < (k.semaphores id).counter) :
    sem_wait k id rsp = some (0, k.setSem id
      { k.semaphores id with counter := (k.semaphores id).counter - 1 }) := by
  unfold sem_wait
  rw [acquire_free hf]
  simp [hv, hc, release, hf]

theorem sem_wait_noPid {heap : H} (hv : isValidSemId id = 0)
    (hf : (k.semaphores id).spinlock = 0) (hc : (k.semaphores id).counter = 0)
    (ha : mm_alloc PID_SIZE k.scheduler.heap = (none, heap)) :
    sem_wait k id rsp = some (-1, k.setHeap heap) := by
  unfold sem_wait
  rw [acquire_free hf]
  dsimp only
  rw [release_acquired hf, ha]
  simp [hv, hc, Kernel.setSem, Kernel.setHeap]

theorem sem_wait_waits {block : Addr} {heap heap' : H}
    {waitQueue : Option (DoubleLinkedList Waiter)} (hv : isValidSemId id = 0)
    (hf : (k.semaphores id).spinlock = 0) (hc : (k.semaphores id).counter = 0)
    (ha : mm_alloc PID_SIZE k.scheduler.heap = (some block, heap))
    (hq : addWaiter (k.semaphores id).waitQueue ⟨block, getPid k.scheduler⟩ heap =
      (waitQueue, heap')) :
    sem_wait k id rsp = some (0,
      { (k.setHeap heap').setSem id { k.semaphores id with waitQueue := waitQueue } with
        scheduler :=
          (blockProcess (k.setHeap heap').scheduler (getPid k.scheduler) rsp).2 }) := by
  unfold sem_wait
  rw [acquire_free hf]
  simp [hv, hc, ha, hq, release, hf, Kernel.setSem, Kernel.setHeap]

/-- What a `sem_wait` does when nobody holds the lock. -/
inductive WaitsBy (k : Kernel H) (id : Int) (rsp : Addr) : Option (Int × Kernel H) → Prop
  | invalid (hv : isValidSemId id = -1) : WaitsBy k id rsp (some (-1, k))
  | token (hv : isValidSemId id = 0) (hc : 0 < (k.semaphores id).counter) :
      WaitsBy k id rsp (some (0, k.setSem id
        { k.semaphores id with counter := (k.semaphores id).counter - 1 }))
  | noPid {heap : H} (hv : isValidSemId id = 0) (hc : (k.semaphores id).counter = 0)
      (ha : mm_alloc PID_SIZE k.scheduler.heap = (none, heap)) :
      WaitsBy k id rsp (some (-1, k.setHeap heap))
  | enters {block : Addr} {heap heap' : H} {waitQueue : Option (DoubleLinkedList Waiter)}
      (hv : isValidSemId id = 0) (hc : (k.semaphores id).counter = 0)
      (ha : mm_alloc PID_SIZE k.scheduler.heap = (some block, heap))
      (hq : addWaiter (k.semaphores id).waitQueue ⟨block, getPid k.scheduler⟩ heap =
        (waitQueue, heap')) :
      WaitsBy k id rsp (some (0,
        { (k.setHeap heap').setSem id { k.semaphores id with waitQueue := waitQueue } with
          scheduler :=
            (blockProcess (k.setHeap heap').scheduler (getPid k.scheduler) rsp).2 }))

theorem sem_wait_ways (hf : (k.semaphores id).spinlock = 0) :
    WaitsBy k id rsp (sem_wait k id rsp) := by
  rcases valid_cases id with hv | hv
  · rw [sem_wait_invalid k rsp hv]
    exact .invalid hv
  rcases Nat.eq_zero_or_pos (k.semaphores id).counter with hc | hc
  · rcases ha : mm_alloc PID_SIZE k.scheduler.heap with ⟨_ | block, heap⟩
    · rw [sem_wait_noPid rsp hv hf hc ha]
      exact .noPid hv hc ha
    · rcases hq : addWaiter (k.semaphores id).waitQueue ⟨block, getPid k.scheduler⟩ heap with
        ⟨waitQueue, heap'⟩
      rw [sem_wait_waits rsp hv hf hc ha hq]
      exact .enters hv hc ha hq
  · rw [sem_wait_token rsp hv hf hc]
    exact .token hv hc

end Wait

/-- What a `sem_post` does when nobody holds the lock. -/
inductive PostsBy (k : Kernel H) (id : Int) : Option (Int × Kernel H) → Prop
  | invalid (hv : isValidSemId id = -1) : PostsBy k id (some (-1, k))
  | counts {waitQueue : Option (DoubleLinkedList Waiter)} {heap : H} (hv : isValidSemId id = 0)
      (ht : takeFirst k.scheduler (k.semaphores id).waitQueue k.scheduler.heap =
        (none, waitQueue, heap)) :
      PostsBy k id (some (0, (k.setHeap heap).setSem id { k.semaphores id with
        waitQueue := waitQueue, counter := ((k.semaphores id).counter + 1) % 2 ^ 32 }))
  | wakes {w : Waiter} {waitQueue : Option (DoubleLinkedList Waiter)} {heap : H}
      (hv : isValidSemId id = 0)
      (ht : takeFirst k.scheduler (k.semaphores id).waitQueue k.scheduler.heap =
        (some w, waitQueue, heap)) :
      PostsBy k id (some (0, { (k.setHeap (mm_free w.block heap)).setSem id
          { k.semaphores id with waitQueue := waitQueue } with
        scheduler := (setReadyProcess (k.setHeap (mm_free w.block heap)).scheduler w.pid).2 }))

theorem sem_post_ways {k : Kernel H} {id : Int} (hf : (k.semaphores id).spinlock = 0) :
    PostsBy k id (sem_post k id) := by
  rcases valid_cases id with hv | hv
  · rw [sem_post_invalid k hv]
    exact .invalid hv
  unfold sem_post
  rw [if_neg (by simp [hv]), acquire_free hf]
  dsimp only
  rcases ht : takeFirst k.scheduler (k.semaphores id).waitQueue k.scheduler.heap with
    ⟨_ | w, waitQueue, heap⟩
  · have hcounts := PostsBy.counts hv ht
    simpa [release, hf] using hcounts
  · have hwakes := PostsBy.wakes hv ht
    simpa [release, hf, Kernel.setSem] using hwakes

/-! ## No lock is held between two calls -/

theorem sem_create_free {k : Kernel H} (h : ∀ j, (k.semaphores j).spinlock = 0) (id : Int)
    (v : Nat) (j : Int) : ((sem_create k id v).2.semaphores j).spinlock = 0 := by
  unfold sem_create
  split
  · exact h j
  split
  · split
    · apply setSem_free h
      rfl
    · apply setSem_free h
      rfl
  · exact h j

theorem sem_destroy_free {k : Kernel H} (h : ∀ j, (k.semaphores j).spinlock = 0) (id j : Int) :
    ((after k (.sem_destroy id)).semaphores j).spinlock = 0 := by
  rcases sem_destroy_spec k id with hc | ⟨_, hb⟩
  · rw [hc, h]
  · exact hb.free h rfl j

theorem sem_wait_free {k : Kernel H} (h : ∀ j, (k.semaphores j).spinlock = 0) (id : Int)
    (rsp : Addr) (j : Int) : ((after k (.sem_wait id rsp)).semaphores j).spinlock = 0 := by
  have hways := sem_wait_ways rsp (h id)
  generalize hr : sem_wait k id rsp = r at hways
  cases hways with
  | invalid hv =>
    rw [after_some (c := .sem_wait id rsp) hr]
    exact h j
  | token hv hc =>
    rw [after_some (c := .sem_wait id rsp) hr]
    exact setSem_free h id
      { k.semaphores id with counter := (k.semaphores id).counter - 1 } (h id) j
  | noPid hv hc ha =>
    rw [after_some (c := .sem_wait id rsp) hr]
    exact h j
  | @enters block heap heap' waitQueue hv hc ha hq =>
    rw [after_some (c := .sem_wait id rsp) hr]
    exact setSem_free (k := k.setHeap heap') h id
      { k.semaphores id with waitQueue := waitQueue } (h id) j

theorem sem_post_free {k : Kernel H} (h : ∀ j, (k.semaphores j).spinlock = 0) (id j : Int) :
    ((after k (.sem_post id)).semaphores j).spinlock = 0 := by
  have hways := sem_post_ways (h id)
  generalize hr : sem_post k id = r at hways
  cases hways with
  | invalid hv =>
    rw [after_some (c := .sem_post id) hr]
    exact h j
  | @counts waitQueue heap hv ht =>
    rw [after_some (c := .sem_post id) hr]
    apply setSem_free (k := k.setHeap heap) h
    exact h id
  | @wakes w waitQueue heap hv ht =>
    rw [after_some (c := .sem_post id) hr]
    apply setSem_free (k := k.setHeap (mm_free w.block heap)) h
    exact h id

theorem free_step {s : System H} (h : ∀ j, (s.sem j).spinlock = 0) (c : Call) (j : Int) :
    ((step s c).sem j).spinlock = 0 := by
  cases c with
  | scheduler op => exact h j
  | sem_create id v => exact sem_create_free h id v j
  | sem_destroy id => exact sem_destroy_free h id j
  | sem_wait id rsp => exact sem_wait_free h id rsp j
  | sem_post id => exact sem_post_free h id j

theorem free_booted {s : System H} (h : BootedSystem s) (j : Int) : (s.sem j).spinlock = 0 := by
  obtain ⟨scheduler, -, hinit, -⟩ := h
  unfold initSemaphoreManager at hinit
  split at hinit
  · cases hinit
  · unfold System.sem
    rw [← Option.some.inj hinit]

theorem free_run {s : System H} (h : BootedSystem s) (calls : List Call) (j : Int) :
    ((run step s calls).sem j).spinlock = 0 :=
  run_keeps (I := fun s : System H => ∀ j, (s.sem j).spinlock = 0)
    (fun _ c hs => free_step hs c) (free_booted h) calls j

/-! ## Inactive semaphores -/

/-- The call gives -1 and changes neither a semaphore, nor the heap, nor the status of a
process. -/
def Rejected (k : Kernel H) (c : Call) : Prop :=
  ∃ k', call k c = some (-1, k') ∧ k'.semaphores = k.semaphores ∧
    k'.scheduler.heap = k.scheduler.heap ∧ ∀ p, k'.scheduler.status p = k.scheduler.status p

/-- `sem_wait` does not look at the active flag: it rejects an id out of range, and any
other when there is no token and no block for the pid. -/
theorem sem_wait_rejected_iff {k : Kernel H} {id : Int} (hf : (k.semaphores id).spinlock = 0)
    (rsp : Addr) :
    Rejected k (.sem_wait id rsp) ↔ isValidSemId id = -1 ∨
      (k.semaphores id).counter = 0 ∧
        mm_alloc PID_SIZE k.scheduler.heap = (none, k.scheduler.heap) := by
  unfold Rejected
  dsimp only [call]
  have hways := sem_wait_ways rsp hf
  generalize sem_wait k id rsp = r at hways
  cases hways with
  | invalid hv => exact iff_of_true ⟨k, rfl, rfl, rfl, fun _ => rfl⟩ (Or.inl hv)
  | token hv hc =>
    apply iff_of_false
    · rintro ⟨k', hk, -⟩
      cases hk
    · simp [hv, Nat.ne_of_gt hc]
  | @noPid heap hv hc ha =>
    rw [ha]
    constructor
    · rintro ⟨k', hk, -, hheap, -⟩
      cases hk
      have hsame : heap = k.scheduler.heap := hheap
      exact Or.inr ⟨hc, by rw [hsame]⟩
    · rintro (h | ⟨-, h⟩)
      · simp [hv] at h
      · cases h
        exact ⟨_, rfl, rfl, rfl, fun p => rfl⟩
  | enters hv hc ha hq =>
    rw [ha]
    apply iff_of_false
    · rintro ⟨k', hk, -⟩
      cases hk
    · simp [hv]

/-- `sem_post` rejects nothing but an id out of range. -/
theorem sem_post_rejected_iff {k : Kernel H} {id : Int} (hf : (k.semaphores id).spinlock = 0) :
    Rejected k (.sem_post id) ↔ isValidSemId id = -1 := by
  unfold Rejected
  dsimp only [call]
  have hways := sem_post_ways hf
  generalize sem_post k id = r at hways
  cases hways with
  | invalid hv => exact iff_of_true ⟨k, rfl, rfl, rfl, fun _ => rfl⟩ hv
  | counts hv ht =>
    apply iff_of_false
    · rintro ⟨k', hk, -⟩
      cases hk
    · simp [hv]
  | wakes hv ht =>
    apply iff_of_false
    · rintro ⟨k', hk, -⟩
      cases hk
    · simp [hv]

/-- An id that is out of range or not in use, and then `sem_wait` and `sem_post` of it
are rejected. -/
def rejectsInactive (s : System H) (id : Int) : Prop :=
  isValidSemId id = -1 ∨ (s.sem id).active = false →
    (∀ rsp, Rejected s.kernel (.sem_wait id rsp)) ∧ Rejected s.kernel (.sem_post id)

/-- After any calls, every id out of range is rejected, and no id in range that is not
in use. -/
theorem inactive_rejected_iff {boot : System H} (hboot : BootedSystem boot) (calls : List Call)
    (id : Int) :
    rejectsInactive (run step boot calls) id ↔
      isValidSemId id = -1 ∨ ((run step boot calls).sem id).active = true := by
  have hf := free_run hboot calls id
  unfold rejectsInactive
  simp only [sem_wait_rejected_iff hf, sem_post_rejected_iff hf]
  constructor
  · intro h
    cases ha : ((run step boot calls).sem id).active with
    | true => exact Or.inr rfl
    | false => exact Or.inl (h (Or.inr ha)).2
  · rintro (hv | ha) hid
    · exact ⟨fun _ => Or.inl hv, hv⟩
    · rcases hid with hv | hno
      · exact ⟨fun _ => Or.inl hv, hv⟩
      · simp [ha] at hno

/-- A semaphore is created and destroyed. -/
def createdAndDestroyed : List Call := [.sem_create 5 1, .sem_destroy 5]

theorem id_128_is_rejected :
    isValidSemId 128 = -1 ∧ rejectsInactive (run step endlessSystem createdAndDestroyed) 128 :=
  ⟨rfl, (inactive_rejected_iff booted_endlessSystem createdAndDestroyed 128).mpr (Or.inl rfl)⟩

/-- `sem_post` of the destroyed semaphore gives 0 and counts. -/
theorem destroyed_semaphore_still_posts :
    ((run step endlessSystem createdAndDestroyed).sem 5).active = false ∧
      result (run step endlessSystem createdAndDestroyed).kernel (.sem_post 5) = some 0 ∧
      ((run step endlessSystem (createdAndDestroyed ++ [.sem_post 5])).sem 5).counter = 1 ∧
      ¬ rejectsInactive (run step endlessSystem createdAndDestroyed) 5 := by
  have hinactive : ((run step endlessSystem createdAndDestroyed).sem 5).active = false := by
    decide
  have hzero : result (run step endlessSystem createdAndDestroyed).kernel (.sem_post 5) =
      some 0 := by decide
  refine ⟨hinactive, hzero, by decide, fun h => ?_⟩
  obtain ⟨k', hk, -⟩ := (h (Or.inr hinactive)).2
  rw [result_some hk] at hzero
  simp at hzero

end bare_bones.semaphore
