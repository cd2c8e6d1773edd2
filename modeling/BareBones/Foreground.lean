-- Ctrl+C. When the current process is of the foreground it is killed by its pid,
-- and its pipe peer with it; any other process of the foreground is killed alone.
import BareBones.Refusing

namespace bare_bones.scheduler

open bare_bones.doubleLinkedList bare_bones.process bare_bones.process_table runs
open Scheduler

variable {H : Type}

/-- A process of the foreground, but for the shell. -/
def inForeground (s : Scheduler H) (p : Pcb) : Prop :=
  (s.pcb p).ground = 0 ∧ s.pid p ≠ SHELL_PID

instance (s : Scheduler H) (p : Pcb) : Decidable (inForeground s p) :=
  inferInstanceAs (Decidable (_ ∧ _))

/-- The processes of the two states differ in their turns only. -/
structure SameProcesses (s s' : Scheduler H) : Prop where
  procs : s'.procs = s.procs
  pid : ∀ p ∈ s.procs, s'.pid p = s.pid p
  ground : ∀ p ∈ s.procs, (s'.pcb p).ground = (s.pcb p).ground
  fds : ∀ p ∈ s.procs, ∀ i, (s'.pcb p).fileDescriptors i = (s.pcb p).fileDescriptors i

/-- The current process is the shell, idle or of the background. -/
def runsBeside (s : Scheduler H) : Prop := ∃ c, s.currentProcess = some c ∧ ¬ inForeground s c

instance (s : Scheduler H) : Decidable (runsBeside s) :=
  decidable_of_iff (∃ c ∈ s.currentProcess, ¬ inForeground s c) Iff.rfl

/-- `v` is the current process, or the first of the foreground and without a pipe
peer; and it is in the queue that its status names. -/
def interrupts (s : Scheduler H) (v : Pcb) : Prop :=
  v ∈ s.procs ∧ inForeground s v ∧ inItsQueue s v ∧
    (s.currentProcess = some v ∨
      runsBeside s ∧ s.procs.find? (fun p => inForeground s p) = some v ∧ pipedPeer s v = none)

instance (s : Scheduler H) (v : Pcb) : Decidable (interrupts s v) :=
  inferInstanceAs (Decidable (_ ∧ _))

variable [MemoryManager H]

/-- The process is in the process list before Ctrl+C, and not after. -/
def goesOnInterrupt (s : Scheduler H) (p : Pcb) : Prop :=
  p ∈ s.procs ∧ p ∉ (killForegroundProcess s).2.procs

instance (s : Scheduler H) (p : Pcb) : Decidable (goesOnInterrupt s p) :=
  inferInstanceAs (Decidable (_ ∧ _))

/-- Ctrl+C takes the foreground process `v`, and with it whoever `killProcess` takes
with the pid of `v`. A current process of the foreground is the one that is taken. -/
structure TakesPipeline (s : Scheduler H) (v : Pcb) : Prop where
  listed : v ∈ s.procs
  foreground : inForeground s v
  current : ∀ c, s.currentProcess = some c → inForeground s c → c = v
  goes : goesOnInterrupt s v
  same : ∀ p, goesOnInterrupt s p ↔ goesWith s (s.pid v) p

/-! ## The victim -/

/-- `killProcess` takes the process of the pid first. -/
theorem goesWith_self {s : Scheduler H} (h : Sturdy s.view) {v : Pcb} (hv : v ∈ s.procs)
    (hq : inItsQueue s v) : goesWith s (s.pid v) v := by
  have hf : findProcess s (s.pid v) = some v := h.find_pid hv
  obtain ⟨hr, hprocs⟩ := kill_listed hv hq
  have hout : v ∉ (kill s v).2.procs := by
    rw [hprocs]
    exact fun hm => (h.procs_nodup.mem_erase_iff.mp hm).1 rfl
  refine ⟨hv, ?_⟩
  unfold killProcess
  rw [hf]
  dsimp only
  generalize kill s v = k at hr hout
  obtain ⟨r, s'⟩ := k
  dsimp only at hr hout ⊢
  rw [if_neg (by simp [hr])]
  split
  · split
    · exact hout
    · rename_i w _
      rcases (takes_kill s' w).procs with ⟨-, hsame⟩ | herase
      · rwa [hsame]
      · rw [herase]
        exact fun hm => hout (List.mem_of_mem_erase hm)
  · exact hout

/-- Without a peer it goes alone. -/
theorem goesWith_alone {s : Scheduler H} (h : Sturdy s.view) {v : Pcb} (hv : v ∈ s.procs)
    (hq : inItsQueue s v) (hpeer : pipedPeer s v = none) (p : Pcb) :
    goesWith s (s.pid v) p ↔ p = v := by
  have hf : findProcess s (s.pid v) = some v := h.find_pid hv
  constructor
  · intro hp
    obtain ⟨u, hu, hcase⟩ := goesWith_cases hp
    cases hf.symm.trans hu
    rcases hcase with rfl | hw
    · rfl
    · rw [hpeer] at hw
      cases hw
  · rintro rfl
    exact goesWith_self h hv hq

/-- Ctrl+C under a current process of the foreground. -/
theorem killForegroundProcess_current {s : Scheduler H} {c : Pcb}
    (hc : s.currentProcess = some c) (hg : inForeground s c) :
    killForegroundProcess s = killProcess s (s.pid c) := by
  unfold killForegroundProcess
  rw [hc]
  exact if_pos hg

/-- Ctrl+C under any other current process. -/
theorem killForegroundProcess_beside {s : Scheduler H} {v : Pcb} (hb : runsBeside s)
    (hf : s.procs.find? (fun p => inForeground s p) = some v) :
    killForegroundProcess s = kill s v := by
  obtain ⟨c, hc, hg⟩ := hb
  have hf' : s.procs.find? (fun p => (s.pcb p).ground = 0 ∧ s.pid p ≠ SHELL_PID) = some v := hf
  unfold killForegroundProcess
  rw [hc]
  dsimp only
  apply (if_neg hg).trans
  rw [hf']

theorem takesPipeline_of_interrupts {s : Scheduler H} (h : Sturdy s.view) {v : Pcb}
    (hi : interrupts s v) : TakesPipeline s v := by
  obtain ⟨hv, hg, hq, hc | ⟨hb, hf, hpeer⟩⟩ := hi
  · have hsame : ∀ p, goesOnInterrupt s p ↔ goesWith s (s.pid v) p := fun p => by
      rw [goesOnInterrupt, killForegroundProcess_current hc hg, goesWith]
    refine ⟨hv, hg, fun c hcc _ => ?_, (hsame v).mpr (goesWith_self h hv hq), hsame⟩
    exact Option.some.inj (hcc.symm.trans hc)
  · have hn : s.procs.Nodup := h.procs_nodup
    have hgoes : ∀ p, goesOnInterrupt s p ↔ p = v := fun p => by
      rw [goesOnInterrupt, killForegroundProcess_beside hb hf, (kill_listed hv hq).2,
        hn.mem_erase_iff]
      grind
    refine ⟨hv, hg, fun c hc hgc => ?_, (hgoes v).mpr rfl,
      fun p => (hgoes p).trans (goesWith_alone h hv hq hpeer p).symm⟩
    obtain ⟨d, hd, hgd⟩ := hb
    cases hc.symm.trans hd
    exact absurd hgc hgd

/-! ## Two states with the same processes -/

omit [MemoryManager H] in
theorem SameProcesses.pipedPeer {s s' : Scheduler H} (h : SameProcesses s s') {v : Pcb}
    (hv : v ∈ s.procs) : pipedPeer s' v = pipedPeer s v := by
  unfold scheduler.pipedPeer
  have hfds : ∀ p ∈ s.procs, (s'.pcb p).fileDescriptors = (s.pcb p).fileDescriptors :=
    fun p hp => funext (h.fds p hp)
  simp only [h.procs, hfds v hv, ← List.head?_filter]
  congr 2
  apply List.filter_congr
  intro p hp
  rw [hfds p (List.mem_of_mem_erase hp)]

/-- The same processes go, whoever is current. -/
theorem same_processes_go {s s' : Scheduler H} (h : Sturdy s.view) (h' : Sturdy s'.view)
    (hsame : SameProcesses s s') {v : Pcb} (hi : interrupts s v) (hi' : interrupts s' v)
    (hb : runsBeside s') (p : Pcb) : goesOnInterrupt s p ↔ goesOnInterrupt s' p := by
  have hpeer' : pipedPeer s' v = none := by
    rcases hi'.2.2.2 with hc | ⟨-, -, hpeer⟩
    · obtain ⟨d, hd, hgd⟩ := hb
      cases hc.symm.trans hd
      exact absurd hi'.2.1 hgd
    · exact hpeer
  have hpeer : pipedPeer s v = none := (hsame.pipedPeer hi.1).symm.trans hpeer'
  rw [(takesPipeline_of_interrupts h hi).same, (takesPipeline_of_interrupts h' hi').same,
    goesWith_alone h hi.1 hi.2.2.1 hpeer, goesWith_alone h' hi'.1 hi'.2.2.1 hpeer']

/-! ## Every reachable state -/

/-- While the list nodes are granted the peer goes with `killProcess`, so Ctrl+C that
spares it does not agree. -/
theorem interrupts_of_takesPipeline (hn : Serves H NODE_SIZE) {s : Scheduler H}
    (h : Inv s.view) {v : Pcb} (ht : TakesPipeline s v) : interrupts s v := by
  refine ⟨ht.listed, ht.foreground, semaphore.inItsQueue_of_inv h ht.listed, ?_⟩
  have hgoes := ht.goes.2
  unfold killForegroundProcess at hgoes
  cases hc : s.currentProcess with
  | none =>
    rw [hc] at hgoes
    exact absurd ht.listed hgoes
  | some c =>
    by_cases hg : inForeground s c
    · exact Or.inl (congrArg some (ht.current c hc hg))
    · have hb : runsBeside s := ⟨c, hc, hg⟩
      cases hf : s.procs.find? (fun p => inForeground s p) with
      | none =>
        have := List.find?_eq_none.mp hf v ht.listed
        simp [ht.foreground] at this
      | some w =>
        have honly : ∀ p, goesOnInterrupt s p → p = w := by
          intro p hp
          rw [goesOnInterrupt, killForegroundProcess_beside hb hf] at hp
          by_contra hne
          rcases (takes_kill s w).procs with ⟨-, hsame⟩ | herase
          · exact hp.2 (hsame ▸ hp.1)
          · exact hp.2 (herase ▸ (List.mem_erase_of_ne hne).mpr hp.1)
        cases honly v ht.goes
        refine Or.inr ⟨hb, rfl, ?_⟩
        cases hpeer : pipedPeer s v with
        | none => rfl
        | some u =>
          have hfind : findProcess s (s.pid v) = some v := Table.find_of_mem h.core ht.listed
          obtain ⟨hu, hne⟩ := peer_goesWith hn h hfind hpeer
          cases honly u ((ht.same u).mpr hu)
          exact absurd hfind hne

/-- In every reachable state, whatever the heap answers: Ctrl+C takes the pipeline of
its victim when the victim is the current process or has no peer, and then it does not
matter who is current. While the list nodes are granted, only then. -/
theorem ctrl_c_takes_the_pipeline_of_the_current_process_only :
    (∀ boot : Scheduler H, Booted boot → ∀ events : List KernelEvent, ∀ v,
        interrupts (run onEvent boot events) v → TakesPipeline (run onEvent boot events) v) ∧
      (∀ boot boot' : Scheduler H, Booted boot → Booted boot' → ∀ events events' : List KernelEvent,
        SameProcesses (run onEvent boot events) (run onEvent boot' events') → ∀ v,
        interrupts (run onEvent boot events) v → interrupts (run onEvent boot' events') v →
        runsBeside (run onEvent boot' events') → ∀ p,
        goesOnInterrupt (run onEvent boot events) p ↔
          goesOnInterrupt (run onEvent boot' events') p) ∧
      (Serves H NODE_SIZE → ∀ boot : Scheduler H, Booted boot → ∀ events : List KernelEvent,
        Meets onEvent eventSparesIdle boot events → ∀ v,
        TakesPipeline (run onEvent boot events) v → interrupts (run onEvent boot events) v) :=
  ⟨fun _ hboot events _ hi => takesPipeline_of_interrupts (sturdy_run hboot events) hi,
    fun _ _ hboot hboot' events events' hsame _ hi hi' hb p =>
      same_processes_go (sturdy_run hboot events) (sturdy_run hboot' events') hsame hi hi' hb p,
    fun hn _ hboot _ hok _ ht => interrupts_of_takesPipeline hn
      (run_invariant (I := fun s : Scheduler H => Inv s.view) (inv_step hn) (inv_booted hn hboot)
        hok) ht⟩

/-- The pipeline of the processes 2 and 3, and then `n` ticks. -/
def pipelineEvents (n : Nat) : List KernelEvent :=
  pipelineRun.map .call ++ (List.range n).map (fun i => .call (.schedule i))

/-- The shell and one more process of the foreground, and then `n` ticks. -/
def foregroundEvents (n : Nat) : List KernelEvent :=
  (pipelineRun.take 1 ++ pipelineRun.take 1).map .call ++
    (List.range n).map (fun i => .call (.schedule i))

/-- With the writer current the reader goes too; a process without a pipe goes alone,
whether it is current or the shell is. -/
theorem ctrl_c_takes_the_current_pipeline :
    TakesPipeline (run onEvent endlessBoot (pipelineEvents 3)) 2 ∧
      interrupts (run onEvent endlessBoot (pipelineEvents 3)) 2 ∧
      ∀ p, goesOnInterrupt (run onEvent endlessBoot (foregroundEvents 3)) p ↔
        goesOnInterrupt (run onEvent endlessBoot (foregroundEvents 2)) p := by
  have hi : interrupts (run onEvent endlessBoot (pipelineEvents 3)) 2 := by decide +kernel
  have ht := ctrl_c_takes_the_pipeline_of_the_current_process_only.1 endlessBoot
    booted_endlessBoot (pipelineEvents 3) 2 hi
  refine ⟨ht, ctrl_c_takes_the_pipeline_of_the_current_process_only.2.2 (endless_serves _)
    endlessBoot booted_endlessBoot (pipelineEvents 3) (by decide +kernel) 2 ht, ?_⟩
  exact ctrl_c_takes_the_pipeline_of_the_current_process_only.2.1 endlessBoot endlessBoot
    booted_endlessBoot booted_endlessBoot (foregroundEvents 3) (foregroundEvents 2)
    ⟨by decide +kernel, by decide +kernel, by decide +kernel, by decide +kernel⟩ 2
    (by decide +kernel) (by decide +kernel) (by decide +kernel)

/-- Under the shell Ctrl+C takes the writer of the pipe alone; with the writer current
it takes the reader too. -/
theorem ctrl_c_under_the_shell_spares_the_reader :
    SameProcesses (run onEvent endlessBoot (pipelineEvents 3))
        (run onEvent endlessBoot (pipelineEvents 2)) ∧
      inForeground (run onEvent endlessBoot (pipelineEvents 2)) 2 ∧
      (¬ ∃ v, TakesPipeline (run onEvent endlessBoot (pipelineEvents 2)) v) ∧
      goesOnInterrupt (run onEvent endlessBoot (pipelineEvents 3)) 3 ∧
      ¬ goesOnInterrupt (run onEvent endlessBoot (pipelineEvents 2)) 3 := by
  refine ⟨⟨by decide +kernel, by decide +kernel, by decide +kernel, by decide +kernel⟩,
    by decide +kernel, ?_, by decide +kernel, by decide +kernel⟩
  rintro ⟨v, h⟩
  have hgoes : ∀ p, goesOnInterrupt (run onEvent endlessBoot (pipelineEvents 2)) p → p = 2 := by
    have hall : ∀ p ∈ (run onEvent endlessBoot (pipelineEvents 2)).procs,
      goesOnInterrupt (run onEvent endlessBoot (pipelineEvents 2)) p → p = 2 := by decide +kernel
    exact fun p hp => hall p hp.1 hp
  cases hgoes v h.goes
  have h3 := (h.same 3).mpr (by decide +kernel)
  exact absurd (hgoes 3 h3) (by decide)

end bare_bones.scheduler
