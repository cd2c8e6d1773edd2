-- Which process goes on after `schedule`. A switch always picks a process that
-- may run; a tick inside a quantum gives the processor back to the current
-- process without a look at its status, even after a kill.
import BareBones.Dispatches

namespace bare_bones.process_table

open bare_bones.process
open bare_bones.scheduler (IDLE_PID)

open Table

/-! ## After a switch -/

/-- Whoever has the processor is in the table and RUNNING. -/
def CurrentRuns (t : Table) : Prop := ∀ p, t.current = some p → p ∈ t.procs ∧ t.status p = .RUNNING

theorem currentRuns_switch {t : Table} (h : Core none t) (hc : Cur t) : CurrentRuns t.switch :=
  fun _ hp => switch_runs h hc hp

/-- A yield of a blocked process switches in the table without it. -/
theorem block_switches {t : Table} (h : Inv t) {pid : Int} (hpid : pid ≠ IDLE_PID)
    (hy : t.yields pid) : ∃ u, Core none u ∧ Cur u ∧ t.block pid = u.switch := by
  obtain ⟨p, hf⟩ := Option.isSome_iff_exists.mp hy.1
  obtain ⟨hp, rfl⟩ := find_some hf
  have hcore : Core none (t.suspend p) := core_suspend h.core hp hpid
  refine ⟨_, core_quantums hcore (-1), cur_quantums (cur_suspend h.cur hp) (-1), ?_⟩
  rw [block_eq h hf, if_pos hy.2, yield_eq_switch hcore]

/-- The current process runs, unless it was killed. -/
theorem currentRuns_iff {t : Table} (h : Inv t) :
    CurrentRuns t ↔ ∀ p, t.current = some p → t.status p ≠ .TERMINATED := by
  constructor
  · intro hr p hp
    simp [(hr p hp).2]
  · intro hr p hp
    have hmem : p ∈ t.procs := by
      by_contra hnp
      exact hr p hp (h.cur.gone p hp hnp).1
    refine ⟨hmem, ?_⟩
    have h1 := h.cur.not_ready p hp
    have h2 := h.not_blocked p hp
    have h3 := hr p hp
    cases hst : t.status p <;> simp_all

theorem currentRuns_tick {t : Table} (h : Inv t) :
    CurrentRuns t.tick ↔
      ∀ p, t.current = some p → t.status p = .TERMINATED → t.quantums ≤ 1 := by
  by_cases hs : t.spent
  · rw [tick_of_spent hs]
    exact ⟨fun _ _ _ _ => hs.2,
      fun _ => currentRuns_switch (core_quantums h.core _) (cur_quantums h.cur _)⟩
  · have hq : ¬ t.quantums ≤ 1 := fun hq => hs ⟨qty_ne_zero h.core, hq⟩
    rw [tick_of_not_spent hs, currentRuns_iff (inv_quantums h _)]
    exact forall_congr' fun p => imp_congr_right fun _ =>
      ⟨fun hne he => absurd he hne, fun hle he => hq (hle he)⟩

end bare_bones.process_table

namespace bare_bones.scheduler

open bare_bones.doubleLinkedList bare_bones.process bare_bones.process_table runs

variable {H : Type} [MemoryManager H]

/-! ## The stack pointer -/

omit [MemoryManager H] in
theorem dispatch_pointer (s : Scheduler H) (p : Pcb) :
    (dispatch s p).2.currentProcess = some p ∧
      (dispatch s p).1 = ((dispatch s p).2.pcb p).stackPos := by
  simp [dispatch, Scheduler.setStatus, Scheduler.setPcb]

theorem leaveCurrent_current (s : Scheduler H) (prevRSP : Addr) :
    (leaveCurrent s prevRSP).currentProcess = s.currentProcess ∨
      (leaveCurrent s prevRSP).currentProcess = none := by
  unfold leaveCurrent
  split
  · exact Or.inl rfl
  · split
    · exact Or.inr rfl
    · refine Or.inl ?_
      dsimp only
      split <;> rfl

/-- `schedule` gives back the pointer it was given, and the processor to the
process that had it or to nobody, or it gives the pointer of a process that now
has the processor. -/
def ReturnsPointer (s : Scheduler H) (prevRSP : Addr) : Prop :=
  (schedule s prevRSP).1 = prevRSP ∧
      ((schedule s prevRSP).2.currentProcess = s.currentProcess ∨
        (schedule s prevRSP).2.currentProcess = none) ∨
    ∃ p, (schedule s prevRSP).2.currentProcess = some p ∧
      (schedule s prevRSP).1 = ((schedule s prevRSP).2.pcb p).stackPos

theorem schedule_pointer (s : Scheduler H) (prevRSP : Addr) : ReturnsPointer s prevRSP := by
  unfold ReturnsPointer
  unfold schedule
  dsimp only
  split
  · exact Or.inl ⟨rfl, Or.inl rfl⟩
  unfold switch
  split
  · split
    · exact Or.inl ⟨rfl, Or.inr rfl⟩
    · exact Or.inr ⟨_, dispatch_pointer _ _⟩
  · dsimp only
    split
    · split
      · exact Or.inl ⟨rfl, leaveCurrent_current _ prevRSP⟩
      · exact Or.inr ⟨_, dispatch_pointer _ _⟩
    · exact Or.inr ⟨_, dispatch_pointer _ _⟩

/-! ## Every run -/

/-- The call runs `schedule`. -/
def schedules (s : Scheduler H) : Op → Prop
  | .schedule _ => True
  | op => switches s op

instance (s : Scheduler H) (op : Op) : Decidable (schedules s op) :=
  match op with
  | .schedule _ => isTrue trivial
  | .yield rsp => inferInstanceAs (Decidable (switches s (.yield rsp)))
  | .blockProcess pid rsp => inferInstanceAs (Decidable (switches s (.blockProcess pid rsp)))
  | .waitProcess pid rsp => inferInstanceAs (Decidable (switches s (.waitProcess pid rsp)))
  | .createProcess .. | .setReadyProcess _ | .killProcess _ | .killForegroundProcess
  | .changePriority .. | .reuse .. => isFalse fun h => h

/-- When the call runs `schedule`, the process that goes on is in the process
list and RUNNING. -/
def ResumesRunning (s : Scheduler H) (op : Op) : Prop :=
  schedules s op → ∀ p ∈ (exec s op).currentProcess,
    p ∈ (exec s op).procs ∧ (exec s op).status p = .RUNNING

instance (s : Scheduler H) (op : Op) : Decidable (ResumesRunning s op) :=
  inferInstanceAs (Decidable (_ → _))

/-- A tick inside a quantum finds the current process alive. -/
def ticksAlive (s : Scheduler H) : Op → Prop
  | .schedule _ => ∀ p ∈ s.currentProcess, s.status p = .TERMINATED → s.quantums ≤ 1
  | _ => True

instance (s : Scheduler H) (op : Op) : Decidable (ticksAlive s op) :=
  match op with
  | .schedule _ => inferInstanceAs (Decidable
      (∀ p ∈ s.currentProcess, s.status p = .TERMINATED → s.quantums ≤ 1))
  | .yield _ | .blockProcess .. | .waitProcess .. | .createProcess .. | .setReadyProcess _
  | .killProcess _ | .killForegroundProcess | .changePriority .. | .reuse .. => isTrue trivial

/-- A call that switches runs `schedule` with no quantum left. -/
theorem exec_switches (hn : Serves H NODE_SIZE) {s : Scheduler H} (h : Inv s.view) {op : Op}
    (hok : sparesIdle s op) (hs : switches s op) :
    ∃ t, Core none t ∧ Cur t ∧ (exec s op).view = t.switch := by
  cases op with
  | schedule rsp =>
    have hspent : s.view.spent := hs
    refine ⟨_, core_quantums h.core (s.quantums - 1), cur_quantums h.cur (s.quantums - 1), ?_⟩
    rw [exec, schedule_view hn, tick_of_spent hspent]
    rfl
  | yield rsp =>
    refine ⟨_, core_quantums h.core (-1), cur_quantums h.cur (-1), ?_⟩
    rw [exec, yield_view hn, yield_eq_switch h.core]
  | blockProcess pid rsp =>
    rw [exec, blockProcess_view hn]
    exact block_switches h hok ⟨(blockProcess_result hn h pid rsp).mp hs.2.1, hs.2.2⟩
  | waitProcess pid rsp =>
    obtain ⟨hfind, hself⟩ := (waitProcess_result s pid rsp).mp hs.2.1
    obtain ⟨target, hf⟩ := Option.isSome_iff_exists.mp hfind
    obtain ⟨t', hwait, hinv, _, hy⟩ := wait_eq h hf hself
    rw [exec, waitProcess_view hn, hwait]
    exact block_switches hinv (hok hfind hself) (hy.mpr hs.2.2)
  | createProcess _ _ _ _ _ _ => exact absurd hs fun h => h
  | setReadyProcess _ | killProcess _ => exact absurd hs fun h => h
  | killForegroundProcess => exact absurd hs fun h => h
  | changePriority _ _ | reuse _ _ => exact absurd hs fun h => h

theorem currentRuns_switches (hn : Serves H NODE_SIZE) {s : Scheduler H} (h : Inv s.view) {op : Op}
    (hok : sparesIdle s op) (hs : switches s op) : CurrentRuns (exec s op).view := by
  obtain ⟨t, hcore, hcur, ht⟩ := exec_switches hn h hok hs
  rw [ht]
  exact currentRuns_switch hcore hcur

/-- In every reachable state: the process that `schedule` resumes is RUNNING,
except when the current process was killed inside its quantum. It resumes on
the pointer of that process. -/
theorem schedule_resumes_running_processes_that_were_not_killed (hn : Serves H NODE_SIZE)
    {boot : Scheduler H} (hboot : Booted boot) {ops : List Op}
    (hok : Meets exec sparesIdle boot ops) {op : Op} (hop : sparesIdle (run exec boot ops) op) :
    (ResumesRunning (run exec boot ops) op ↔ ticksAlive (run exec boot ops) op) ∧
      ∀ prevRSP, ReturnsPointer (run exec boot ops) prevRSP := by
  refine ⟨?_, schedule_pointer _⟩
  have h : Inv (run exec boot ops).view :=
    run_invariant (I := fun s : Scheduler H => Inv s.view) (inv_exec hn) (inv_booted hn hboot) hok
  generalize run exec boot ops = s at h hop
  have hread : CurrentRuns (exec s op).view ↔ ∀ p ∈ (exec s op).currentProcess,
      p ∈ (exec s op).procs ∧ (exec s op).status p = .RUNNING := Iff.rfl
  by_cases htick : ∃ rsp, op = .schedule rsp
  · obtain ⟨rsp, rfl⟩ := htick
    have hiff := currentRuns_tick h
    rw [← schedule_view hn s rsp] at hiff
    exact true_imp_iff.trans (hread.symm.trans hiff)
  · have hne : ∀ rsp, op ≠ .schedule rsp := fun rsp he => htick ⟨rsp, he⟩
    have hsched : schedules s op → switches s op := by
      cases op <;> first | exact fun h => h | exact absurd rfl (hne _)
    have halive : ticksAlive s op := by
      cases op <;> first | trivial | exact absurd rfl (hne _)
    exact iff_of_true (fun hs => hread.mp (currentRuns_switches hn h hop (hsched hs))) halive

/-- A process with two ticks kills itself in its first one. -/
def killedInItsQuantum : List Op :=
  [.createProcess 2 none 0 2 none 0, .schedule 3, .schedule 4, .killProcess 1]

/-- The next tick gives the processor back to it. -/
theorem a_killed_process_gets_another_tick :
    Meets exec sparesIdle endlessBoot killedInItsQuantum ∧
      (findProcess (run exec endlessBoot killedInItsQuantum) IDLE_PID).isSome ∧
      ¬ ResumesRunning (run exec endlessBoot killedInItsQuantum) (.schedule 5) := by
  decide

/-- The yield of `syscall_exit` after the kill. -/
theorem schedule_resumes_a_running_process_after_an_exit :
    ResumesRunning (run exec endlessBoot killedInItsQuantum) (.yield 5) := by
  refine (schedule_resumes_running_processes_that_were_not_killed (endless_serves _)
    booted_endlessBoot ?_ ?_).1.mpr ?_
  all_goals decide

end bare_bones.scheduler
