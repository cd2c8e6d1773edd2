-- The effect of a call on the sleepers: who dies, which pids are woken and
-- which pids go to sleep. Everybody else sleeps on or stays awake.
import BareBones.SemaphoreInvariant
import BareBones.Waiters

namespace bare_bones.semaphore

open bare_bones.doubleLinkedList bare_bones.process bare_bones.scheduler
open bare_bones.process_table runs

variable {H : Type}

/-! ## Who dies, who wakes and who sleeps -/

/-- Every process of the table is in the queue that its status names. -/
theorem inItsQueue_of_inv {s : Scheduler H} (h : Inv s.view) {p : Pcb} (hp : p ∈ s.procs) :
    inItsQueue s p :=
  ⟨fun hr => (h.core.mem_ready p).mpr ⟨hp, hr, by simp⟩,
    fun hb => (h.core.mem_blocked p).mpr ⟨hp, hb, by simp⟩⟩

theorem victims_view {s : Scheduler H} (h : Inv s.view) (pid : Int) :
    s.view.victims pid = victims s pid := by
  unfold Table.victims victims
  rw [findProcess_view]
  cases hf : s.view.find pid with
  | none => rfl
  | some v =>
    dsimp only
    rw [if_pos (inItsQueue_of_inv h (Table.find_some hf).1)]
    rfl

theorem foregroundVictims_view {s : Scheduler H} (h : Inv s.view) :
    s.view.foregroundVictims = foregroundVictims s := by
  unfold Table.foregroundVictims foregroundVictims
  rw [view_current]
  cases s.currentProcess with
  | none => rfl
  | some p =>
    dsimp only
    by_cases hg : (s.pcb p).ground = 0 ∧ s.pid p ≠ SHELL_PID
    · rw [if_pos hg, if_pos (show (s.view.pcb p).ground = 0 ∧ s.view.pid p ≠ SHELL_PID from hg)]
      exact victims_view h _
    · rw [if_neg hg, if_neg (show ¬((s.view.pcb p).ground = 0 ∧ s.view.pid p ≠ SHELL_PID) from hg)]
      have hf : s.view.procs.find?
            (fun p => (s.view.pcb p).ground = 0 ∧ s.view.pid p ≠ SHELL_PID) =
          s.procs.find? (fun p => (s.pcb p).ground = 0 ∧ s.pid p ≠ SHELL_PID) := rfl
      rw [hf]
      cases hw : s.procs.find? (fun p => (s.pcb p).ground = 0 ∧ s.pid p ≠ SHELL_PID) with
      | none => rfl
      | some w =>
        have hq := inItsQueue_of_inv h (List.mem_of_find?_eq_some hw)
        rw [Option.toList_some, List.filter_cons_of_pos (by simpa using hq)]
        rfl

/-- The processes that a call kills. -/
def dead (k : Kernel H) : Call → List Pcb
  | .scheduler (.killProcess pid) => victims k.scheduler pid
  | .scheduler .killForegroundProcess => foregroundVictims k.scheduler
  | _ => []

theorem mem_victims {s : Scheduler H} {pid : Int} {p : Pcb} (h : p ∈ victims s pid) :
    p ∈ s.procs := by
  unfold victims at h
  split at h
  · cases h
  rename_i v hf
  have hv : v ∈ s.procs := List.mem_of_find?_eq_some hf
  split at h
  · rcases List.mem_cons.mp h with rfl | h
    · exact hv
    · unfold pipedPeer at h
      dsimp only at h
      split at h
      · cases h
      · exact List.mem_of_mem_erase (List.mem_of_find?_eq_some (Option.mem_toList.mp h))
  · cases h

theorem mem_dead {k : Kernel H} {c : Call} {p : Pcb} (h : p ∈ dead k c) :
    p ∈ k.scheduler.procs := by
  unfold dead at h
  split at h
  · exact mem_victims h
  · unfold foregroundVictims at h
    split at h
    · cases h
    split at h
    · exact mem_victims h
    · have hf := (List.mem_filter.mp h).1
      exact List.mem_of_find?_eq_some (Option.mem_toList.mp hf)
  · cases h

/-- The pids that a call wakes. -/
def woken (k : Kernel H) (c : Call) : List Int :=
  match c with
  | .scheduler (.setReadyProcess pid) => [pid]
  | .scheduler (.killProcess _) | .scheduler .killForegroundProcess =>
    k.scheduler.view.awaiting (dead k c)
  | .sem_post id => if isValidSemId id = 0 then ((present k id).head?.map Waiter.pid).toList else []
  | _ => []

variable [MemoryManager H]

/-- The pids that a call puts to sleep. -/
def slept (k : Kernel H) (c : Call) : List Int :=
  match c with
  | .scheduler (.blockProcess pid _) => [pid]
  | .scheduler (.waitProcess pid _) =>
    k.scheduler.view.waitsAs pid
  | .sem_wait id _ =>
    if isValidSemId id = 0 ∧ (k.semaphores id).counter = 0 ∧ result k c = some 0 then
      [getPid k.scheduler]
    else []
  | _ => []

/-! ## The effect of each call -/

theorem effect_exec (hn : Serves H NODE_SIZE) (k : Kernel H) (op : Op) (h : Inv k.scheduler.view)
    (hok : scheduler.sparesIdle k.scheduler op) :
    Effect (dead k (.scheduler op)) (woken k (.scheduler op)) (slept k (.scheduler op))
      k.scheduler.view (exec k.scheduler op).view := by
  cases op with
  | schedule rsp =>
    rw [exec, schedule_view hn]
    exact (sameAsleep_tick h.core h.cur).effect
  | yield rsp =>
    rw [exec, yield_view hn]
    exact (sameAsleep_yield h.core h.cur).effect
  | createProcess rip args argc priority fds ground =>
    exact effect_creates h.core (createProcess_view hn _ rip args argc priority fds ground)
  | blockProcess pid rsp =>
    rw [exec, blockProcess_view hn]
    exact effect_block h hok
  | setReadyProcess pid =>
    rw [exec, setReadyProcess_view hn]
    exact effect_wake h.core pid
  | waitProcess pid rsp =>
    rw [exec, waitProcess_view hn]
    exact effect_wait h pid hok
  | changePriority pid priority =>
    rcases changePriority_view k.scheduler pid priority with hv | hv
    · rw [exec, hv]
      exact (SameAsleep.refl _).effect
    · rw [exec, hv]
      unfold Table.setPriority
      split
      · exact (SameAsleep.refl _).effect
      · refine SameAsleep.effect (sameAsleep_set ?_ ?_) <;> rfl
  | killProcess pid =>
    have hb := (buried_killPid h hok).effect
    rw [victims_view h] at hb
    rw [exec, killProcess_view hn]
    exact hb
  | killForegroundProcess =>
    have hb := (buried_killForeground h).effect
    rw [foregroundVictims_view h] at hb
    rw [exec, killForegroundProcess_view hn]
    exact hb
  | reuse p content =>
    rw [exec]
    split
    · rename_i hf
      have hp : ∀ q ∈ k.scheduler.procs, q ≠ p := fun q hq he =>
        Nat.ne_of_gt hf (he ▸ (h.core.live q hq).1)
      rw [view_setPcb]
      refine ⟨fun q hq => by simpa [dead] using hq, fun q hq => ?_, fun q hq => ?_,
        fun q hq => by cases hq⟩
      · rw [Table.pid, Table.set_pcb_ne _ (hp q hq), Table.pid]
      · unfold Asleep Table.status
        rw [Table.set_pcb_ne _ (hp q hq)]
        simp [dead, woken, slept]
    · exact (SameAsleep.refl _).effect

theorem effect_after (hn : Serves H NODE_SIZE) (s : System H) (c : Call) (h : Sound s)
    (hok : sparesIdle s c) :
    Effect (dead s.kernel c) (woken s.kernel c) (slept s.kernel c) s.table
      (after s.kernel c).scheduler.view := by
  have hrefl : ∀ t, t = s.table → Effect [] [] [] s.table t := fun t ht =>
    ht ▸ (SameAsleep.refl _).effect
  cases c with
  | scheduler op => exact effect_exec hn s.kernel op h.inv hok
  | sem_create id initialValue =>
    rcases sem_create_spec s.kernel id initialValue with ⟨_, hc⟩ | ⟨_, r, k', q, hc, _, _, hb⟩
    · rw [after_some (c := .sem_create id initialValue) (congrArg some hc)]
      exact hrefl _ rfl
    · rw [after_some (c := .sem_create id initialValue) (congrArg some hc)]
      exact hrefl _ hb.table
  | sem_destroy id =>
    rcases sem_destroy_spec s.kernel id with hc | ⟨_, hb⟩
    · rw [hc]
      exact hrefl _ rfl
    · exact hrefl _ hb.table
  | sem_wait id rsp =>
    rcases valid_cases id with hv | hv
    · have hc : call s.kernel (.sem_wait id rsp) = some (-1, s.kernel) :=
        sem_wait_invalid _ rsp hv
      rw [after_some hc, slept, if_neg (by simp [hv])]
      exact hrefl _ rfl
    · rcases sem_wait_spec hn s.kernel rsp hv (h.free id) with
        ⟨hpos, k', hc, hb⟩ | ⟨_, k', hc, hb⟩ | ⟨h0, k', block, q, hc, _, hb⟩
      · rw [after_some (c := .sem_wait id rsp) hc, slept, if_neg (by omega)]
        exact hrefl _ hb.table
      · rw [after_some (c := .sem_wait id rsp) hc, slept,
          result_some (c := .sem_wait id rsp) hc, if_neg (by simp)]
        exact hrefl _ hb.table
      · rw [after_some (c := .sem_wait id rsp) hc, slept,
          result_some (c := .sem_wait id rsp) hc, if_pos ⟨hv, h0, rfl⟩, hb.table]
        exact effect_block h.inv hok
  | sem_post id =>
    rcases valid_cases id with hv | hv
    · have hc : call s.kernel (.sem_post id) = some (-1, s.kernel) :=
        sem_post_invalid _ hv
      rw [after_some hc, woken, if_neg (by simp [hv])]
      exact hrefl _ rfl
    · obtain ⟨k', q, hc, _, hp⟩ := sem_post_spec hn s.kernel hv (h.free id)
      rw [after_some (c := .sem_post id) hc, woken, if_pos hv]
      cases hl : present s.kernel id with
      | nil =>
        rw [hl] at hp
        exact hrefl _ hp.2.table
      | cons w rest =>
        rw [hl] at hp
        rw [hp.2.table]
        exact effect_wake h.inv.core w.pid

/-! ## Who is inside a call -/

/-- A process inside a call sleeps on, unless the call kills it or wakes its
pid. -/
theorem asleep_inside (hn : Serves H NODE_SIZE) {s : System H} (h : Sound s) {c : Call}
    (hok : sparesIdle s c) {e : Pcb × Reason} (he : e ∈ s.history.inside) :
    Asleep (after s.kernel c).scheduler.view e.1 ↔
      e.1 ∉ dead s.kernel c ∧ s.table.pid e.1 ∉ woken s.kernel c := by
  have ha := h.asleep e he
  rw [(effect_after hn s c h hok).asleep e.1 ha.1]
  simp [ha]

/-- It goes on when the call wakes it and does not kill it. -/
theorem returns_inside (hn : Serves H NODE_SIZE) {s : System H} (h : Sound s) {c : Call}
    (hok : sparesIdle s c) {e : Pcb × Reason} (he : e ∈ s.history.inside) :
    Returns (after s.kernel c).scheduler.view e.1 ↔
      e.1 ∉ dead s.kernel c ∧ s.table.pid e.1 ∈ woken s.kernel c := by
  have hE := effect_after hn s c h hok
  have ha := h.asleep e he
  have hasleep := asleep_inside hn h hok he
  have hprocs := hE.procs e.1 ha.1
  unfold Returns
  constructor
  · rintro ⟨hst, hp | hc⟩
    · refine ⟨hprocs.mp hp, ?_⟩
      by_contra hw
      exact hst (hasleep.mpr ⟨hprocs.mp hp, hw⟩).2
    · by_cases hd : e.1 ∈ dead s.kernel c
      · exact absurd ha.2 (h.inv.not_blocked e.1 (hE.current e.1 hd hc))
      · refine ⟨hd, ?_⟩
        by_contra hw
        exact hst (hasleep.mpr ⟨hd, hw⟩).2
  · rintro ⟨hd, hw⟩
    have hp := hprocs.mpr hd
    exact ⟨fun hb => (hasleep.mp ⟨hp, hb⟩).2 hw, Or.inl hp⟩

end bare_bones.semaphore
