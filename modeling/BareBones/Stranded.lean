-- Stranded waiters. While nobody waits on a semaphore without a queue and no
-- queue is freed under its waiters, a process that is blocked in `sem_wait` is
-- where `sem_post` finds it. `closePipe` destroys three semaphores at once.
import BareBones.PipeCalls
import BareBones.SemaphoreQueues

namespace bare_bones.pipe_manager

open bare_bones.doubleLinkedList bare_bones.process bare_bones.scheduler
open bare_bones.semaphore bare_bones.process_table runs

variable {H : Type}

/-- Every process that is blocked inside `sem_wait` is in the queue of that
semaphore, which is active. -/
def NoStranded (s : System H) : Prop :=
  ∀ p id, (p, .sem id) ∈ s.history.inside →
    s.scheduler.pid p ∈ pids (s.sem id) ∧ (s.sem id).active = true

theorem Queued.noStranded {s : System H} (h : Queued s) : NoStranded s := by
  intro p id hp
  have hmem : s.scheduler.pid p ∈ pids (s.sem id) :=
    (h.order id).subset (List.mem_map_of_mem (mem_blockedOn.mpr hp))
  refine ⟨hmem, ?_⟩
  by_contra hi
  have hnone := h.inactive id (by simpa using hi)
  rw [pids, Semaphore.waiters, hnone] at hmem
  cases hmem

/-- In every run of calls on semaphores and pipes in which no queue is freed under
its waiters and nobody waits without one, no waiter is stranded. -/
theorem no_waiter_is_stranded_while_queues_are_kept [MemoryManager H] (hn : Serves H NODE_SIZE)
    {boot : PipeSystem H} (hboot : BootedPipes boot) {acts : List Act}
    (hok : Meets act (eachCall keepsQueues) boot acts) :
    NoStranded (run act boot acts).system := by
  have hinv : Sound (run act boot acts).system ∧ Queued (run act boot acts).system :=
    system_invariant (I := fun s : System H => Sound s ∧ Queued s)
      (fun s c h hc => ⟨sound_step hn s c h.1 hc.1, queued_step hn s c h.1 h.2 hc⟩)
      ⟨sound_booted hn hboot.system, queued_booted hboot.system⟩ hok
  exact Queued.noStranded hinv.2

/-- A process waits on semaphore 5, and another opens and closes a pipe. -/
def closeBesideAWaiter : List Act :=
  waitingRun.map Act.call ++ [.createPipe, .closePipe 3 1 11, .go 12]

theorem no_waiter_is_stranded_by_another_pipe :
    NoStranded (run act endlessPipes closeBesideAWaiter).system :=
  no_waiter_is_stranded_while_queues_are_kept (endless_serves _) booted_endlessPipes
    (by decide +kernel)

/-- A process opens a pipe and starts a reader, pid 2, and a writer, pid 3. The
reader blocks. -/
def readerBlocks : List Act :=
  [.call (.scheduler (.createProcess 2 none 0 1 none 0)), .call (.scheduler (.yield 3)),
    .call (.scheduler (.yield 4)), .createPipe,
    .call (.scheduler (.createProcess 5 none 0 1 none 1)),
    .call (.scheduler (.createProcess 6 none 0 1 none 1)), .call (.scheduler (.yield 7)),
    .call (.scheduler (.yield 8)), .io ⟨.read, 3, some (fun _ => 0), 2⟩, .go 9]

/-- The writer closes the pipe, and the reader goes on. -/
def readerMeetsTheEnd : List Act :=
  readerBlocks ++ [.closePipe 3 1 10, .go 11, .call (.scheduler (.yield 12)),
    .call (.scheduler (.yield 13)), .call (.scheduler (.yield 14)), .go 15]

/-- `closePipe` wakes the reader, but destroys the mutex before the reader waits
for it. -/
theorem closePipe_strands_its_reader :
    Meets act (eachCall sparesIdle) endlessPipes readerMeetsTheEnd ∧
      ¬ NoStranded (run act endlessPipes readerMeetsTheEnd).system := by
  have h : Meets act (eachCall sparesIdle) endlessPipes readerMeetsTheEnd ∧
      (2, .sem 102) ∈ (run act endlessPipes readerMeetsTheEnd).system.history.inside ∧
      ((run act endlessPipes readerMeetsTheEnd).system.sem 102).active = false := by
    decide +kernel
  refine ⟨h.1, fun hno => ?_⟩
  have hactive := (hno 2 102 h.2.1).2
  rw [h.2.2] at hactive
  cases hactive

end bare_bones.pipe_manager
