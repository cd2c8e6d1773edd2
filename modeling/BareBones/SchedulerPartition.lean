-- Runs of the kernel's process calls. From `createScheduler` on, the three
-- lists, the statuses, the current process and the count agree, and a freed
-- PCB is nowhere.
import BareBones.Lib.Runs
import BareBones.SchedulerRefinement
import BareBones.Asleep

namespace bare_bones.scheduler

open bare_bones.doubleLinkedList bare_bones.process bare_bones.process_table runs

variable {H : Type}

/-- A call of the kernel. `rsp` is the stack pointer that a switch saves. -/
inductive Op
  | schedule (rsp : Addr)
  | yield (rsp : Addr)
  | createProcess (rip : Addr) (args : Args) (argc : Int) (priority : Nat)
      (fileDescriptors : Option (Fin CANT_FILE_DESCRIPTORS → Int)) (ground : Nat)
  | blockProcess (pid : Int) (rsp : Addr)
  | setReadyProcess (pid : Int)
  | waitProcess (pid : Int) (rsp : Addr)
  | changePriority (pid : Int) (priority : Nat)
  | killProcess (pid : Int)
  | killForegroundProcess
  /-- A new owner writes `content` over the freed PCB `p`. -/
  | reuse (p : Pcb) (content : ProcessContext)

section Exec

variable [MemoryManager H]

def exec (s : Scheduler H) : Op → Scheduler H
  | .schedule rsp => (schedule s rsp).2
  | .yield rsp => yield s rsp
  | .createProcess rip args argc priority fileDescriptors ground =>
    (createProcess s rip args argc priority fileDescriptors ground).2
  | .blockProcess pid rsp => (blockProcess s pid rsp).2
  | .setReadyProcess pid => (setReadyProcess s pid).2
  | .waitProcess pid rsp => (waitProcess s pid rsp).2
  | .changePriority pid priority => (changePriority s pid priority).2
  | .killProcess pid => (killProcess s pid).2
  | .killForegroundProcess => (killForegroundProcess s).2
  | .reuse p content => if 0 < s.frees p then s.setPcb p content else s

/-- A scheduler as `createScheduler` leaves it, with idle in place. -/
def Booted (s : Scheduler H) : Prop :=
  ∃ rip heap, createScheduler rip heap = some s ∧ (findProcess s IDLE_PID).isSome

/-- A scheduler on a heap that never runs out. -/
def endlessBoot : Scheduler Endless := (createScheduler 1 ⟨4096⟩).get rfl

theorem booted_endlessBoot : Booted endlessBoot := ⟨1, ⟨4096⟩, (Option.some_get _).symm, rfl⟩

/-- Nobody blocks or kills idle by its pid. `waitProcess` blocks its caller,
and idle never calls it. -/
def sparesIdle (s : Scheduler H) : Op → Prop
  | .blockProcess pid _ => pid ≠ IDLE_PID
  | .killProcess pid => pid ≠ IDLE_PID
  | .waitProcess pid _ => (findProcess s pid).isSome → getPid s ≠ pid → getPid s ≠ IDLE_PID
  | _ => True

instance (s : Scheduler H) (op : Op) : Decidable (sparesIdle s op) :=
  match op with
  | .blockProcess pid _ | .killProcess pid => inferInstanceAs (Decidable (pid ≠ IDLE_PID))
  | .waitProcess pid _ => inferInstanceAs (Decidable
      ((findProcess s pid).isSome → getPid s ≠ pid → getPid s ≠ IDLE_PID))
  | .createProcess .. | .setReadyProcess _ | .killForegroundProcess | .changePriority ..
  | .schedule _ | .yield _ | .reuse .. => isTrue trivial

end Exec

/-! ## The partition -/

structure Partition (s : Scheduler H) : Prop where
  procs_nodup : s.procs.Nodup
  pids_nodup : (s.procs.map s.pid).Nodup
  pids_range : ∀ p ∈ s.procs, 0 ≤ s.pid p ∧ s.pid p ≤ 29
  qty : s.processQty = s.procs.length
  ready_iff : ∀ p ∈ s.procs, s.status p = .READY ↔ s.ready.count p = 1
  blocked_iff : ∀ p ∈ s.procs, s.status p = .BLOCKED ↔ s.blocked.count p = 1
  running_iff : ∀ p ∈ s.procs, s.status p = .RUNNING ↔ s.currentProcess = some p
  one_queue : ∀ p ∈ s.procs, s.ready.count p + s.blocked.count p ≤ 1
  ready_subset : s.ready ⊆ s.procs
  blocked_subset : s.blocked ⊆ s.procs
  freed : ∀ p, 0 < s.frees p →
    p ∉ s.procs ∧ p ∉ s.ready ∧ p ∉ s.blocked ∧ s.currentProcess ≠ some p
  frees_le : ∀ p, s.frees p ≤ 1

theorem partition_of_inv {s : Scheduler H} (h : Inv s.view) : Partition s := by
  have hc := h.core
  have hready : ∀ p ∈ s.procs, s.status p = .READY ↔ p ∈ s.ready := fun p hp =>
    ⟨fun hs => (hc.mem_ready p).mpr ⟨hp, hs, by simp⟩, fun hm => ((hc.mem_ready p).mp hm).2.1⟩
  have hblocked : ∀ p ∈ s.procs, s.status p = .BLOCKED ↔ p ∈ s.blocked := fun p hp =>
    ⟨fun hs => (hc.mem_blocked p).mpr ⟨hp, hs, by simp⟩, fun hm => ((hc.mem_blocked p).mp hm).2.1⟩
  have hcount : ∀ {l : List Pcb} (p : Pcb), l.Nodup → (p ∈ l ↔ l.count p = 1) := fun p hn =>
    ⟨fun hm => List.count_eq_one_of_mem hn hm, fun h1 => List.count_pos_iff.mp (h1 ▸ Nat.one_pos)⟩
  have hlive : ∀ p, 0 < s.frees p → p ∉ s.procs := fun p hf hp => by
    have := (hc.live p hp).1
    exact absurd (show s.frees p = 0 from this) (by omega)
  refine ⟨hc.procs_nodup, ?_, ?_, hc.qty, ?_, ?_, ?_, ?_, ?_, ?_, ?_, hc.frees_le⟩
  · exact (List.nodup_map_iff_inj_on hc.procs_nodup).mpr
      fun p hp q hq he => hc.pid_inj p hp q hq he
  · intro p hp
    have := hc.pid_range p hp
    refine ⟨this.1, ?_⟩
    have hlt := this.2
    simp only [MAX_PROCESS] at hlt
    exact Int.lt_add_one_iff.mp hlt
  · exact fun p hp => (hready p hp).trans (hcount p hc.ready_nodup)
  · exact fun p hp => (hblocked p hp).trans (hcount p hc.blocked_nodup)
  · intro p hp
    refine ⟨fun hr => h.cur.running p hp hr, fun hcur => ?_⟩
    have h1 := h.cur.not_ready p hcur
    have h2 := h.not_blocked p hcur
    have h3 := hc.alive p hp
    show s.view.status p = _
    cases hst : s.view.status p <;> simp_all
  · intro p hp
    have h1 := List.nodup_iff_count_le_one.mp hc.ready_nodup p
    have h2 := List.nodup_iff_count_le_one.mp hc.blocked_nodup p
    by_cases hm : p ∈ s.ready
    · have hnb : p ∉ s.blocked := fun hb => by
        have := (hready p hp).mpr hm
        rw [(hblocked p hp).mpr hb] at this
        cases this
      rw [List.count_eq_zero_of_not_mem hnb]
      exact h1
    · rw [List.count_eq_zero_of_not_mem hm, Nat.zero_add]
      exact h2
  · exact fun p hp => ((hc.mem_ready p).mp hp).1
  · exact fun p hp => ((hc.mem_blocked p).mp hp).1
  · intro p hf
    have hp := hlive p hf
    refine ⟨hp, fun hm => hp ((hc.mem_ready p).mp hm).1, fun hm => hp ((hc.mem_blocked p).mp hm).1,
      fun hcur => ?_⟩
    have := (h.cur.live p hcur).1
    exact absurd (show s.frees p = 0 from this) (by omega)

/-! ## Every run -/

variable [MemoryManager H]

theorem inv_exec (hn : Serves H NODE_SIZE) (s : Scheduler H) (op : Op) (h : Inv s.view)
    (hok : sparesIdle s op) : Inv (exec s op).view := by
  cases op with
  | schedule rsp =>
    rw [exec, schedule_view hn]
    exact inv_tick h
  | yield rsp =>
    rw [exec, yield_view hn]
    exact inv_yield h.core h.cur
  | createProcess rip args argc priority fds ground =>
    exact inv_creates h (createProcess_view hn s rip args argc priority fds ground)
  | blockProcess pid rsp =>
    rw [exec, blockProcess_view hn]
    exact inv_block h hok
  | setReadyProcess pid =>
    rw [exec, setReadyProcess_view hn]
    exact inv_wake h pid
  | waitProcess pid rsp =>
    rw [exec, waitProcess_view hn]
    exact inv_wait h pid hok
  | changePriority pid priority =>
    rcases changePriority_view s pid priority with hv | hv
    · rw [exec, hv]
      exact h
    · rw [exec, hv]
      exact inv_setPriority h pid priority
  | killProcess pid =>
    rw [exec, killProcess_view hn]
    exact (buried_killPid h hok).inv
  | killForegroundProcess =>
    rw [exec, killForegroundProcess_view hn]
    exact (buried_killForeground h).inv
  | reuse p content =>
    rw [exec]
    split
    · rename_i hf
      rw [view_setPcb]
      exact inv_reuse h hf _
    · exact h

omit [MemoryManager H] in
theorem empty_emptyScheduler {processList readyProcess blockedProcess : DoubleLinkedList Pcb}
    (heap : H) (hp : processList.data = []) (hr : readyProcess.data = [])
    (hb : blockedProcess.data = []) :
    Empty (emptyScheduler heap processList readyProcess blockedProcess).view :=
  ⟨hp, hr, hb, rfl, rfl, rfl, rfl, fun _ => rfl⟩

/-- `createScheduler` makes idle in an empty table. -/
theorem createScheduler_makes_idle {rip : Addr} {heap : H} {s : Scheduler H}
    (hc : createScheduler rip heap = some s) :
    ∃ (s₀ : Scheduler H) (args : Args), Empty s₀.view ∧
      s = (createProcess s₀ rip args 1 MIN_PRIORITY (some idleDescriptors) 1).2 := by
  unfold createScheduler at hc
  split at hc
  · cases hc
  split at hc
  · cases hc
  rename_i processList _ hp
  split at hc
  · cases hc
  rename_i readyProcess _ hr
  split at hc
  · cases hc
  rename_i blockedProcess heap' hb
  exact ⟨_, _, empty_emptyScheduler heap' (createDoubleLinkedListADT_data hp)
    (createDoubleLinkedListADT_data hr) (createDoubleLinkedListADT_data hb),
    (Option.some.inj hc).symm⟩

theorem inv_booted (hn : Serves H NODE_SIZE) {s : Scheduler H} (h : Booted s) : Inv s.view := by
  obtain ⟨rip, heap, hc, hidle⟩ := h
  obtain ⟨s₀, args, hempty, rfl⟩ := createScheduler_makes_idle hc
  exact inv_boot hempty (by decide) (createProcess_view hn s₀ rip args 1 MIN_PRIORITY
    (some idleDescriptors) 1) hidle

/-- After any sequence of calls the lists, the statuses and the current process
still agree. -/
theorem every_call_keeps_the_partition (hn : Serves H NODE_SIZE) {s : Scheduler H}
    (h : Booted s) (ops : List Op) (hok : Meets exec sparesIdle s ops) :
    Partition (run exec s ops) :=
  partition_of_inv (run_invariant (I := fun s => Inv s.view) (inv_exec hn) (inv_booted hn h) hok)

/-- A shell starts a child and waits for it; the child ends. -/
theorem every_call_keeps_the_partition_of_a_wait :
    Partition (run exec endlessBoot [.createProcess 2 none 0 1 none 0, .schedule 3, .schedule 4,
      .createProcess 5 none 0 1 none 0, .waitProcess 2 6, .schedule 7, .killForegroundProcess,
      .schedule 8]) :=
  every_call_keeps_the_partition (endless_serves _) booted_endlessBoot _ (by decide)

end bare_bones.scheduler
