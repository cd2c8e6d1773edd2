-- The invariant of the process table: each process is in the queue that its
-- status names, the current process runs, and a PCB is freed at most once and
-- only after it left the table.
import BareBones.ProcessTable
import Mathlib.Data.List.Nodup
import Mathlib.Tactic.Tauto

namespace bare_bones.process_table

open bare_bones.process
open bare_bones.scheduler (MAX_PROCESS NO_PROCESS IDLE_PID SHELL_PID STDIN STDOUT pipedFd
  idleDescriptors)

/-- The processes and their queues. `v` is a process under `kill`, which has
left its queue and keeps its status. -/
structure Core (v : Option Pcb) (t : Table) : Prop where
  procs_nodup : t.procs.Nodup
  pid_inj : ∀ p ∈ t.procs, ∀ q ∈ t.procs, t.pid p = t.pid q → p = q
  pid_range : ∀ p ∈ t.procs, 0 ≤ t.pid p ∧ t.pid p < MAX_PROCESS
  qty : t.qty = t.procs.length
  ready_nodup : t.ready.Nodup
  blocked_nodup : t.blocked.Nodup
  mem_ready : ∀ p, p ∈ t.ready ↔ p ∈ t.procs ∧ t.status p = .READY ∧ v ≠ some p
  mem_blocked : ∀ p, p ∈ t.blocked ↔ p ∈ t.procs ∧ t.status p = .BLOCKED ∧ v ≠ some p
  alive : ∀ p ∈ t.procs, t.status p ≠ .TERMINATED
  live : ∀ p ∈ t.procs, t.frees p = 0 ∧ p < t.pcbQty
  frees_le : ∀ p, t.frees p ≤ 1
  fresh : ∀ p, t.pcbQty ≤ p → t.frees p = 0
  idle : ∃ i ∈ t.procs, t.pid i = IDLE_PID ∧ t.status i ≠ .BLOCKED ∧ v ≠ some i ∧
    (t.pcb i).fds = idleDescriptors ∧ (t.pcb i).ground ≠ 0

/-- The current process. After its own kill it is no longer in the table and
runs on until the next switch. -/
structure Cur (t : Table) : Prop where
  none_pid : t.current = none → t.currentPid = NO_PROCESS
  some_pid : ∀ p, t.current = some p → t.currentPid = t.pid p ∧ 0 ≤ t.pid p
  gone : ∀ p, t.current = some p → p ∉ t.procs → t.status p = .TERMINATED ∧ t.pid p ≠ IDLE_PID
  not_ready : ∀ p, t.current = some p → t.status p ≠ .READY
  live : ∀ p, t.current = some p → t.frees p = 0 ∧ p < t.pcbQty
  running : ∀ p ∈ t.procs, t.status p = .RUNNING → t.current = some p

/-- The invariant between two calls. -/
structure Inv (t : Table) : Prop where
  core : Core none t
  cur : Cur t
  not_blocked : ∀ p, t.current = some p → t.status p ≠ .BLOCKED

namespace Table

/-! ## What `find` finds -/

theorem find_some {t : Table} {pid : Int} {p : Pcb} (h : t.find pid = some p) :
    p ∈ t.procs ∧ t.pid p = pid :=
  ⟨List.mem_of_find?_eq_some h, by simpa using List.find?_some h⟩

theorem find_none {t : Table} {pid : Int} (h : t.find pid = none) :
    ∀ p ∈ t.procs, t.pid p ≠ pid := by
  simpa [find] using h

/-- Where the PIDs differ, each process is found under its own. -/
theorem find_of_inj {t : Table} (h : ∀ p ∈ t.procs, ∀ q ∈ t.procs, t.pid p = t.pid q → p = q)
    {p : Pcb} (hp : p ∈ t.procs) : t.find (t.pid p) = some p := by
  cases hf : t.find (t.pid p) with
  | none => exact absurd rfl (find_none hf p hp)
  | some q =>
    obtain ⟨hq, hpid⟩ := find_some hf
    rw [h q hq p hp hpid]

theorem find_of_mem {v : Option Pcb} {t : Table} (h : Core v t) {p : Pcb} (hp : p ∈ t.procs) :
    t.find (t.pid p) = some p := find_of_inj h.pid_inj hp

theorem find_congr {t t' : Table} (hp : t'.procs = t.procs) (hpid : ∀ p, t'.pid p = t.pid p)
    (pid : Int) : t'.find pid = t.find pid := by
  simp only [find, hp, hpid]

end Table

open Table

/-! ## Moves between the queues -/

theorem nodup_snoc {l : List Pcb} {p : Pcb} (h : l.Nodup) (hp : p ∉ l) : (l ++ [p]).Nodup := by
  rw [← List.concat_eq_append]
  exact List.Nodup.concat hp h

/-- `t'` has the processes of `t`; only queues and statuses differ. -/
structure SameProcs (t t' : Table) : Prop where
  procs : t'.procs = t.procs
  qty : t'.qty = t.qty
  pcbQty : t'.pcbQty = t.pcbQty
  frees : t'.frees = t.frees
  pid : ∀ p, t'.pid p = t.pid p
  fds : ∀ p, (t'.pcb p).fds = (t.pcb p).fds
  ground : ∀ p, (t'.pcb p).ground = (t.pcb p).ground

theorem SameProcs.queues (t : Table) (ready blocked : List Pcb) :
    SameProcs t (t.queues ready blocked) :=
  ⟨rfl, rfl, rfl, rfl, fun _ => rfl, fun _ => rfl, fun _ => rfl⟩

theorem SameProcs.mark {t t' : Table} (h : SameProcs t t') (p : Pcb) (st : ProcessState) :
    SameProcs t (t'.mark p st) where
  procs := h.procs
  qty := h.qty
  pcbQty := h.pcbQty
  frees := h.frees
  pid q := by rw [pid_mark, h.pid]
  fds q := by rw [fds_mark, h.fds]
  ground q := by rw [ground_mark, h.ground]

/-- A change of queues keeps `Core` when the queues agree with the statuses
again and idle is not blocked by it. -/
theorem Core.of_same {v v' : Option Pcb} {t t' : Table} (h : Core v t) (hs : SameProcs t t')
    (hrn : t'.ready.Nodup) (hbn : t'.blocked.Nodup)
    (hr : ∀ p, p ∈ t'.ready ↔ p ∈ t.procs ∧ t'.status p = .READY ∧ v' ≠ some p)
    (hb : ∀ p, p ∈ t'.blocked ↔ p ∈ t.procs ∧ t'.status p = .BLOCKED ∧ v' ≠ some p)
    (ha : ∀ p ∈ t.procs, t'.status p ≠ .TERMINATED)
    (hi : ∀ p ∈ t.procs, t.pid p = IDLE_PID → t.status p ≠ .BLOCKED → v ≠ some p →
      t'.status p ≠ .BLOCKED ∧ v' ≠ some p) : Core v' t' where
  procs_nodup := hs.procs ▸ h.procs_nodup
  pid_inj p hp q hq he := by
    rw [hs.procs] at hp hq
    rw [hs.pid, hs.pid] at he
    exact h.pid_inj p hp q hq he
  pid_range p hp := by
    rw [hs.procs] at hp
    rw [hs.pid]
    exact h.pid_range p hp
  qty := by rw [hs.qty, hs.procs, h.qty]
  ready_nodup := hrn
  blocked_nodup := hbn
  mem_ready p := by rw [hr, hs.procs]
  mem_blocked p := by rw [hb, hs.procs]
  alive p hp := ha p (hs.procs ▸ hp)
  live p hp := by
    rw [hs.procs] at hp
    rw [hs.frees, hs.pcbQty]
    exact h.live p hp
  frees_le p := by rw [hs.frees]; exact h.frees_le p
  fresh p hp := by
    rw [hs.pcbQty] at hp
    rw [hs.frees]
    exact h.fresh p hp
  idle := by
    obtain ⟨i, him, hipid, hib, hiv, hifds, hig⟩ := h.idle
    obtain ⟨hb', hv'⟩ := hi i him hipid hib hiv
    exact ⟨i, hs.procs ▸ him, by rw [hs.pid, hipid], hb', hv', by rw [hs.fds, hifds],
      by rw [hs.ground]; exact hig⟩

/-- A blocked process becomes READY. -/
theorem core_toReady {v : Option Pcb} {t : Table} {p : Pcb} (h : Core v t) (hp : p ∈ t.procs)
    (hb : t.status p = .BLOCKED) (hv : v ≠ some p) :
    Core v ((t.queues (t.ready ++ [p]) (t.blocked.erase p)).mark p .READY) := by
  have hpr : p ∉ t.ready := fun hr => by simp [(h.mem_ready p).mp hr] at hb
  refine h.of_same ((SameProcs.queues t _ _).mark p _) (nodup_snoc h.ready_nodup hpr)
    (h.blocked_nodup.erase p) ?_ ?_ ?_ ?_
  · intro q
    simp only [ready_mark, ready_queues, status_mark, status_queues, List.mem_append,
      List.mem_singleton, h.mem_ready]
    grind
  · intro q
    simp only [blocked_mark, blocked_queues, status_mark, status_queues,
      h.blocked_nodup.mem_erase_iff, h.mem_blocked]
    grind
  · intro q hq
    simp only [status_mark, status_queues]
    have := h.alive q hq
    grind
  · intro q _ _ hq hqv
    simp only [status_mark, status_queues]
    grind

/-- A READY or RUNNING process, not idle, becomes BLOCKED. -/
theorem core_suspend {t : Table} {p : Pcb} (h : Core none t) (hp : p ∈ t.procs)
    (hidle : t.pid p ≠ IDLE_PID) : Core none (t.suspend p) := by
  have hmove : ∀ r, r.Nodup → (∀ q, q ∈ r ↔ q ∈ t.ready ∧ q ≠ p) → t.status p ≠ .BLOCKED →
      Core none ((t.queues r (t.blocked ++ [p])).mark p .BLOCKED) := by
    intro r hrn hr hnb
    have hpb : p ∉ t.blocked := fun hb => hnb ((h.mem_blocked p).mp hb).2.1
    refine h.of_same ((SameProcs.queues t _ _).mark p _) hrn
      (nodup_snoc h.blocked_nodup hpb) ?_ ?_ ?_ ?_
    · intro q
      simp only [ready_mark, ready_queues, status_mark, status_queues, hr, h.mem_ready]
      grind
    · intro q
      simp only [blocked_mark, blocked_queues, status_mark, status_queues, List.mem_append,
        List.mem_singleton, h.mem_blocked]
      grind
    · intro q hq
      simp only [status_mark, status_queues]
      have := h.alive q hq
      grind
    · intro q _ hqpid hq hqv
      simp only [status_mark, status_queues]
      grind
  unfold suspend
  split
  · rename_i hr
    exact hmove _ (h.ready_nodup.erase p) (fun q => by
      rw [h.ready_nodup.mem_erase_iff, and_comm]) (by simp [hr])
  · split
    · rename_i hnr hrun
      exact hmove _ h.ready_nodup (fun q => ⟨fun hq => ⟨hq, fun he => hnr (by
        rw [← he]; exact ((h.mem_ready q).mp hq).2.1)⟩, And.left⟩) (by simp [hrun])
    · exact h

/-- The current process goes back to the end of the ready queue. -/
theorem core_requeue {t : Table} {p : Pcb} (h : Core none t) (hp : p ∈ t.procs)
    (hr : t.status p = .RUNNING) :
    Core none ((t.queues (t.ready ++ [p]) t.blocked).mark p .READY) := by
  have hpr : p ∉ t.ready := fun hm => by simp [(h.mem_ready p).mp hm] at hr
  refine h.of_same ((SameProcs.queues t _ _).mark p _) (nodup_snoc h.ready_nodup hpr)
    h.blocked_nodup ?_ ?_ ?_ ?_
  · intro q
    simp only [ready_mark, ready_queues, status_mark, status_queues, List.mem_append,
      List.mem_singleton, h.mem_ready]
    grind
  · intro q
    simp only [blocked_mark, blocked_queues, status_mark, status_queues, h.mem_blocked]
    grind
  · intro q hq
    simp only [status_mark, status_queues]
    have := h.alive q hq
    grind
  · intro q _ _ hq hqv
    simp only [status_mark, status_queues]
    grind

theorem SameProcs.dispatch {t t' : Table} (h : SameProcs t t') (p : Pcb) :
    SameProcs t (t'.dispatch p) := by
  have h' : SameProcs t { t' with
      current := some p, currentPid := t'.pid p, quantums := (t'.pcb p).priority } :=
    ⟨h.procs, h.qty, h.pcbQty, h.frees, h.pid, h.fds, h.ground⟩
  exact h'.mark p _

/-- The head of the ready queue becomes RUNNING. -/
theorem core_dispatch {t : Table} {p : Pcb} {rest : List Pcb} (h : Core none t)
    (hr : t.ready = p :: rest) : Core none ((t.queues rest t.blocked).dispatch p) := by
  have hn := h.ready_nodup
  rw [hr, List.nodup_cons] at hn
  have hp : p ∈ t.procs ∧ t.status p = .READY := by
    have := (h.mem_ready p).mp (by simp [hr])
    exact ⟨this.1, this.2.1⟩
  have hrest : ∀ q, q ∈ rest ↔ q ∈ t.ready ∧ q ≠ p := by
    intro q
    rw [hr, List.mem_cons]
    grind
  refine h.of_same ((SameProcs.queues t _ _).dispatch p) hn.2 h.blocked_nodup ?_ ?_ ?_ ?_
  · intro q
    simp only [ready_dispatch, ready_queues, status_dispatch, status_queues, hrest, h.mem_ready]
    grind
  · intro q
    simp only [blocked_dispatch, blocked_queues, status_dispatch, status_queues, h.mem_blocked]
    grind
  · intro q hq
    simp only [status_dispatch, status_queues]
    have := h.alive q hq
    grind
  · intro q _ _ hq hqv
    simp only [status_dispatch, status_queues]
    grind

/-! ## Waking a process -/

/-- `wake` moves one blocked process or does nothing. -/
theorem wake_cases {v : Option Pcb} {t : Table} (h : Core v t) (pid : Int) :
    (∃ p ∈ t.procs, t.pid p = pid ∧ t.status p = .BLOCKED ∧ v ≠ some p ∧
      t.wake pid = (t.queues (t.ready ++ [p]) (t.blocked.erase p)).mark p .READY) ∨
    (t.wake pid = t ∧ ∀ p ∈ t.procs, t.pid p = pid → t.status p = .BLOCKED → v = some p) := by
  unfold wake
  cases hf : t.find pid with
  | none => exact Or.inr ⟨rfl, fun p hp hpid _ => absurd hpid (find_none hf p hp)⟩
  | some p =>
    obtain ⟨hp, hpid⟩ := find_some hf
    by_cases hb : t.status p = .BLOCKED ∧ p ∈ t.blocked
    · have hv := ((h.mem_blocked p).mp hb.2).2.2
      exact Or.inl ⟨p, hp, hpid, hb.1, hv, by simp only [hb, and_self, if_true]⟩
    · refine Or.inr ⟨by simp only [hb, if_false], ?_⟩
      intro q hq hqpid hqb
      have hqp : q = p := h.pid_inj q hq p hp (hqpid.trans hpid.symm)
      subst hqp
      by_contra hv
      exact hb ⟨hqb, (h.mem_blocked q).mpr ⟨hq, hqb, hv⟩⟩

/-- A wake keeps the invariant: the process it moves is blocked, so it is not
the current one. -/
theorem core_wake {v : Option Pcb} {t : Table} (h : Core v t) (pid : Int) :
    Core v (t.wake pid) := by
  rcases wake_cases h pid with ⟨p, hp, _, hb, hv, he⟩ | ⟨he, _⟩
  · rw [he]
    exact core_toReady h hp hb hv
  · rw [he]
    exact h

theorem sameProcs_wake {v : Option Pcb} {t : Table} (h : Core v t) (pid : Int) :
    SameProcs t (t.wake pid) := by
  rcases wake_cases h pid with ⟨p, _, _, _, _, he⟩ | ⟨he, _⟩
  · rw [he]
    exact (SameProcs.queues t _ _).mark p _
  · rw [he]
    exact SameProcs.queues t t.ready t.blocked

@[simp] theorem current_wake (t : Table) (pid : Int) : (t.wake pid).current = t.current := by
  unfold wake
  split
  · rfl
  · split <;> rfl

@[simp] theorem currentPid_wake (t : Table) (pid : Int) :
    (t.wake pid).currentPid = t.currentPid := by
  unfold wake
  split
  · rfl
  · split <;> rfl

/-- A wake changes no status but that of a blocked process. -/
theorem status_wake {v : Option Pcb} {t : Table} (h : Core v t) (pid : Int) {q : Pcb}
    (hq : t.status q ≠ .BLOCKED) : (t.wake pid).status q = t.status q := by
  rcases wake_cases h pid with ⟨p, _, _, hb, _, he⟩ | ⟨he, _⟩
  · have hqp : q ≠ p := fun hqp => hq (by rw [hqp, hb])
    rw [he, status_mark, if_neg hqp, status_queues]
  · rw [he]

/-! ## The current process -/

/-- `Cur` depends on the table only through what it names. -/
theorem Cur.of_same {t t' : Table} (h : Cur t) (hs : SameProcs t t')
    (hc : t'.current = t.current) (hp : t'.currentPid = t.currentPid)
    (hst : ∀ p, t.current = some p → t'.status p = t.status p)
    (hrun : ∀ p ∈ t.procs, t'.status p = .RUNNING → t.status p = .RUNNING) : Cur t' where
  none_pid hn := by rw [hp]; exact h.none_pid (hc ▸ hn)
  some_pid p hcp := by
    rw [hp, hs.pid]
    exact h.some_pid p (hc ▸ hcp)
  gone p hcp hnp := by
    rw [hs.procs] at hnp
    rw [hst p (hc ▸ hcp), hs.pid]
    exact h.gone p (hc ▸ hcp) hnp
  not_ready p hcp := by
    rw [hst p (hc ▸ hcp)]
    exact h.not_ready p (hc ▸ hcp)
  live p hcp := by
    rw [hs.frees, hs.pcbQty]
    exact h.live p (hc ▸ hcp)
  running p hpm hr := by
    rw [hs.procs] at hpm
    rw [hc]
    exact h.running p hpm (hrun p hpm hr)

theorem cur_wake {v : Option Pcb} {t : Table} (h : Core v t) (hc : Cur t)
    (hnb : ∀ p, t.current = some p → t.status p ≠ .BLOCKED) (pid : Int) : Cur (t.wake pid) := by
  refine hc.of_same (sameProcs_wake h pid) (current_wake t pid) (currentPid_wake t pid)
    (fun p hp => status_wake h pid (hnb p hp)) ?_
  intro p _ hr
  rcases wake_cases h pid with ⟨q, _, _, _, _, he⟩ | ⟨he, _⟩
  · rw [he, status_mark, status_queues] at hr
    split at hr
    · cases hr
    · exact hr
  · rwa [he] at hr

theorem inv_wake {t : Table} (h : Inv t) (pid : Int) : Inv (t.wake pid) := by
  refine ⟨core_wake h.core pid, cur_wake h.core h.cur h.not_blocked pid, fun p hp => ?_⟩
  rw [current_wake] at hp
  rw [status_wake h.core pid (h.not_blocked p hp)]
  exact h.not_blocked p hp

/-- Nobody in the table runs. -/
def NoneRuns (t : Table) : Prop := ∀ p ∈ t.procs, t.status p ≠ .RUNNING

/-- The process that the scheduler picks runs, and the invariant holds. -/
theorem inv_dispatch {t : Table} {p : Pcb} {rest : List Pcb} (h : Core none t)
    (hn : NoneRuns t) (hr : t.ready = p :: rest) :
    Inv ((t.queues rest t.blocked).dispatch p) := by
  have hp : p ∈ t.procs := ((h.mem_ready p).mp (by simp [hr])).1
  refine ⟨core_dispatch h hr, ⟨?_, ?_, ?_, ?_, ?_, ?_⟩, ?_⟩
  · intro hc
    cases hc
  · intro q hq
    cases hq
    exact ⟨((SameProcs.queues t rest t.blocked).dispatch p).pid p ▸ rfl,
      ((SameProcs.queues t rest t.blocked).dispatch p).pid p ▸ (h.pid_range p hp).1⟩
  · intro q hq hnq
    cases hq
    exact absurd hp hnq
  · intro q hq
    cases hq
    simp [status_dispatch]
  · intro q hq
    cases hq
    exact h.live p hp
  · intro q hq hrun
    by_cases hqp : q = p
    · rw [hqp]; rfl
    · rw [status_dispatch, if_neg hqp] at hrun
      exact absurd hrun (hn q hq)
  · intro q hq
    cases hq
    simp [status_dispatch]

/-- Idle waits in the ready queue when nobody runs. -/
theorem ready_ne_nil {t : Table} (h : Core none t) (hn : NoneRuns t) :
    ∃ p rest, t.ready = p :: rest := by
  obtain ⟨i, hi, _, hib, hiv, _, _⟩ := h.idle
  have hready : t.status i = .READY := by
    have h1 := hn i hi
    have h2 := h.alive i hi
    cases hst : t.status i <;> simp_all
  have hmem : i ∈ t.ready := (h.mem_ready i).mpr ⟨hi, hready, hiv⟩
  cases hrd : t.ready with
  | nil => simp [hrd] at hmem
  | cons p rest => exact ⟨p, rest, rfl⟩

theorem inv_next {t : Table} (h : Core none t) (hn : NoneRuns t) : Inv t.next := by
  obtain ⟨p, rest, hr⟩ := ready_ne_nil h hn
  unfold next
  rw [hr]
  exact inv_dispatch h hn hr

/-! ## PCBs outside the table -/

/-- A PCB that no process has may hold anything. -/
theorem core_setOut {v : Option Pcb} {t : Table} {p : Pcb} (h : Core v t) (hp : p ∉ t.procs)
    (e : Entry) : Core v (t.set p e) := by
  have hpcb : ∀ q ∈ t.procs, (t.set p e).pcb q = t.pcb q :=
    fun q hq => set_pcb_ne e (fun he : q = p => hp (he ▸ hq))
  have hst : ∀ q ∈ t.procs, (t.set p e).status q = t.status q :=
    fun q hq => congrArg Entry.status (hpcb q hq)
  have hpid : ∀ q ∈ t.procs, (t.set p e).pid q = t.pid q :=
    fun q hq => congrArg Entry.pid (hpcb q hq)
  have hqueue : ∀ q st, q ∈ t.procs ∧ t.status q = st ∧ v ≠ some q ↔
      q ∈ t.procs ∧ (t.set p e).status q = st ∧ v ≠ some q :=
    fun q st => and_congr_right fun hq => by rw [hst q hq]
  refine ⟨h.procs_nodup, ?_, ?_, h.qty, h.ready_nodup, h.blocked_nodup, ?_, ?_, ?_, h.live,
    h.frees_le, h.fresh, ?_⟩
  · intro a ha b hb he
    rw [hpid a ha, hpid b hb] at he
    exact h.pid_inj a ha b hb he
  · intro a ha
    rw [hpid a ha]
    exact h.pid_range a ha
  · exact fun q => (h.mem_ready q).trans (hqueue q _)
  · exact fun q => (h.mem_blocked q).trans (hqueue q _)
  · intro a ha
    rw [hst a ha]
    exact h.alive a ha
  · obtain ⟨i, hi, h1, h2, h3, h4, h5⟩ := h.idle
    exact ⟨i, hi, by rw [hpid i hi, h1], by rw [hst i hi]; exact h2, h3,
      by rw [hpcb i hi]; exact h4, by rw [hpcb i hi]; exact h5⟩

theorem cur_setOut {t : Table} {p : Pcb} (hc : Cur t) (hp : p ∉ t.procs)
    (hcp : t.current ≠ some p) (e : Entry) : Cur (t.set p e) := by
  have hpcb : ∀ q, t.current = some q → (t.set p e).pcb q = t.pcb q :=
    fun q hq => set_pcb_ne e (fun he : q = p => hcp (he ▸ hq))
  have hst : ∀ q, t.current = some q → (t.set p e).status q = t.status q :=
    fun q hq => congrArg Entry.status (hpcb q hq)
  have hpid : ∀ q, t.current = some q → (t.set p e).pid q = t.pid q :=
    fun q hq => congrArg Entry.pid (hpcb q hq)
  refine ⟨hc.none_pid, ?_, ?_, ?_, hc.live, ?_⟩
  · intro q hq
    rw [hpid q hq]
    exact hc.some_pid q hq
  · intro q hq hnq
    rw [hst q hq, hpid q hq]
    exact hc.gone q hq hnq
  · intro q hq
    rw [hst q hq]
    exact hc.not_ready q hq
  · intro q hq hr
    rw [Table.status, set_pcb_ne e (fun he : q = p => hp (he ▸ hq))] at hr
    exact hc.running q hq hr

theorem inv_setOut {t : Table} {p : Pcb} (h : Inv t) (hp : p ∉ t.procs)
    (hcp : t.current ≠ some p) (e : Entry) : Inv (t.set p e) := by
  refine ⟨core_setOut h.core hp e, cur_setOut h.cur hp hcp e, fun q hq => ?_⟩
  rw [Table.status, set_pcb_ne e (fun he : q = p => hcp (he ▸ hq))]
  exact h.not_blocked q hq

/-- No process has a freed PCB. -/
theorem inv_reuse {t : Table} {p : Pcb} (h : Inv t) (hp : 0 < t.frees p) (e : Entry) :
    Inv (t.set p e) :=
  inv_setOut h (fun hm => Nat.ne_of_gt hp (h.core.live p hm).1)
    (fun hc => Nat.ne_of_gt hp (h.cur.live p hc).1) e

theorem core_free {v : Option Pcb} {t : Table} {p : Pcb} (h : Core v t) (hp : p ∉ t.procs)
    (hl : t.frees p = 0 ∧ p < t.pcbQty) : Core v (t.free p) := by
  have h' := core_setOut h hp { t.pcb p with waiting := none }
  refine ⟨h'.procs_nodup, h'.pid_inj, h'.pid_range, h'.qty, h'.ready_nodup, h'.blocked_nodup,
    h'.mem_ready, h'.mem_blocked, h'.alive, ?_, ?_, ?_, h'.idle⟩
  · intro a ha
    have hap : a ≠ p := fun he => hp (he ▸ ha)
    simpa [Table.free, hap] using h.live a ha
  · intro a
    by_cases ha : a = p
    · subst ha; simp [Table.free, hl.1]
    · simpa [Table.free, ha] using h.frees_le a
  · intro a ha
    have hap : a ≠ p := fun he => by
      subst he
      exact absurd hl.2 (Nat.not_lt.mpr ha)
    simpa [Table.free, hap] using h.fresh a ha

theorem cur_free {t : Table} {p : Pcb} (hc : Cur t) (hp : p ∉ t.procs)
    (hcp : t.current ≠ some p) : Cur (t.free p) := by
  have h' := cur_setOut hc hp hcp { t.pcb p with waiting := none }
  refine ⟨h'.none_pid, h'.some_pid, h'.gone, h'.not_ready, ?_, h'.running⟩
  intro q hq
  have hqp : q ≠ p := fun he => hcp (by rw [← he]; exact hq)
  simpa [Table.free, hqp] using hc.live q hq

/-- After the current process gave the processor back, nobody runs. -/
theorem core_leave {t : Table} (h : Core none t) (hc : Cur t) :
    Core none t.leave ∧ NoneRuns t.leave := by
  unfold leave
  cases hcur : t.current with
  | none =>
    refine ⟨h, fun p hp hr => ?_⟩
    have := hc.running p hp hr
    rw [hcur] at this
    cases this
  | some p =>
    have honly : ∀ q ∈ t.procs, t.status q = .RUNNING → q = p := fun q hq hr => by
      have := hc.running q hq hr
      rw [hcur] at this
      cases this
      rfl
    by_cases hterm : t.status p = .TERMINATED
    · have hp : p ∉ t.procs := fun hp => h.alive p hp hterm
      have hf := core_free h hp (hc.live p hcur)
      simp only [hterm, if_true]
      refine ⟨⟨hf.procs_nodup, hf.pid_inj, hf.pid_range, hf.qty, hf.ready_nodup, hf.blocked_nodup,
        hf.mem_ready, hf.mem_blocked, hf.alive, hf.live, hf.frees_le, hf.fresh, hf.idle⟩, ?_⟩
      intro q hq hr
      have hqp : q ≠ p := fun he => hp (he ▸ hq)
      have : t.status q = .RUNNING := by
        simpa [Table.free, Table.set, Table.status, hqp] using hr
      exact hqp (honly q hq this)
    · have hp : p ∈ t.procs := by
        by_contra hnp
        exact hterm (hc.gone p hcur hnp).1
      by_cases hrun : t.status p = .RUNNING
      · simp only [if_neg hterm, if_pos hrun]
        refine ⟨core_requeue h hp hrun, ?_⟩
        intro q hq hr
        rw [status_mark] at hr
        split at hr
        · cases hr
        · exact absurd (honly q hq hr) (by assumption)
      · simp only [if_neg hterm, if_neg hrun]
        exact ⟨h, fun q hq hr => hrun (honly q hq hr ▸ hr)⟩

theorem inv_switch {t : Table} (h : Core none t) (hc : Cur t) : Inv t.switch := by
  unfold switch
  cases hcur : t.current with
  | none =>
    have hn : NoneRuns t := fun p hp hr => by
      have := hc.running p hp hr
      rw [hcur] at this
      cases this
    obtain ⟨p, rest, hr⟩ := ready_ne_nil h hn
    simp only [hc.none_pid hcur, if_true, hr]
    exact inv_dispatch h hn hr
  | some p =>
    have hpid : t.currentPid ≠ NO_PROCESS := by
      obtain ⟨h1, h2⟩ := hc.some_pid p hcur
      simp only [NO_PROCESS, ne_eq]
      omega
    simp only [hpid, if_false]
    obtain ⟨hl, hn⟩ := core_leave h hc
    exact inv_next hl hn

theorem core_quantums {v : Option Pcb} {t : Table} (h : Core v t) (q : Int) :
    Core v { t with quantums := q } :=
  ⟨h.procs_nodup, h.pid_inj, h.pid_range, h.qty, h.ready_nodup, h.blocked_nodup, h.mem_ready,
    h.mem_blocked, h.alive, h.live, h.frees_le, h.fresh, h.idle⟩

theorem cur_quantums {t : Table} (h : Cur t) (q : Int) : Cur { t with quantums := q } :=
  ⟨h.none_pid, h.some_pid, h.gone, h.not_ready, h.live, h.running⟩

theorem inv_quantums {t : Table} (h : Inv t) (q : Int) : Inv { t with quantums := q } :=
  ⟨core_quantums h.core q, cur_quantums h.cur q, h.not_blocked⟩

theorem inv_tick {t : Table} (h : Inv t) : Inv t.tick := by
  unfold tick
  dsimp only
  split
  · exact inv_quantums h _
  · exact inv_switch (core_quantums h.core _) (cur_quantums h.cur _)

/-- A yield always switches, so the caller may be blocked when it comes. -/
theorem inv_yield {t : Table} (h : Core none t) (hc : Cur t) : Inv t.yield := by
  have hq : t.qty ≠ 0 := by
    obtain ⟨i, hi, _⟩ := h.idle
    have := List.length_pos_of_mem hi
    rw [h.qty]
    omega
  unfold yield tick
  dsimp only
  rw [if_neg (by simp [hq])]
  exact inv_switch (core_quantums (core_quantums h _) _) (cur_quantums (cur_quantums hc _) _)
/-! ## Blocking -/

theorem sameProcs_suspend (t : Table) (p : Pcb) : SameProcs t (t.suspend p) := by
  unfold suspend
  split
  · exact (SameProcs.queues t _ _).mark p _
  · split
    · exact (SameProcs.queues t _ _).mark p _
    · exact SameProcs.queues t t.ready t.blocked

@[simp] theorem current_suspend (t : Table) (p : Pcb) : (t.suspend p).current = t.current := by
  unfold suspend
  split
  · rfl
  · split <;> rfl

@[simp] theorem currentPid_suspend (t : Table) (p : Pcb) :
    (t.suspend p).currentPid = t.currentPid := by
  unfold suspend
  split
  · rfl
  · split <;> rfl

theorem status_suspend (t : Table) (p q : Pcb) : (t.suspend p).status q =
    if q = p ∧ (t.status p = .READY ∨ t.status p = .RUNNING) then .BLOCKED else t.status q := by
  unfold suspend
  split
  · rename_i h
    rw [status_mark]
    simp [h]
  · split
    · rename_i h
      rw [status_mark]
      simp [h]
    · rename_i h1 h2
      simp [h1, h2]

theorem cur_suspend {t : Table} {p : Pcb} (hc : Cur t) (hp : p ∈ t.procs) :
    Cur (t.suspend p) := by
  have hs := sameProcs_suspend t p
  refine ⟨?_, ?_, ?_, ?_, ?_, ?_⟩
  · simpa using hc.none_pid
  · simpa [hs.pid] using hc.some_pid
  · intro q hq hnq
    rw [current_suspend] at hq
    rw [hs.procs] at hnq
    have hqp : q ≠ p := fun he => hnq (he ▸ hp)
    rw [status_suspend, hs.pid]
    simpa [hqp] using hc.gone q hq hnq
  · intro q hq
    rw [current_suspend] at hq
    have := hc.not_ready q hq
    rw [status_suspend]
    split
    · simp
    · exact this
  · simpa [hs.frees, hs.pcbQty] using hc.live
  · intro q hq hr
    rw [hs.procs] at hq
    rw [status_suspend] at hr
    rw [current_suspend]
    split at hr
    · cases hr
    · exact hc.running q hq hr

theorem inv_block {t : Table} (h : Inv t) {pid : Int} (hpid : pid ≠ IDLE_PID) :
    Inv (t.block pid) := by
  unfold block
  cases hf : t.find pid with
  | none => exact h
  | some p =>
    obtain ⟨hp, hpp⟩ := find_some hf
    have hcore := core_suspend h.core hp (hpp ▸ hpid)
    have hcur := cur_suspend h.cur hp
    dsimp only
    split
    · exact h
    · split
      · exact inv_yield hcore hcur
      · rename_i hne
        refine ⟨hcore, hcur, fun q hq => ?_⟩
        rw [current_suspend] at hq
        have hqp : q ≠ p := fun he => hne (by rw [(h.cur.some_pid q hq).1, he, hpp])
        rw [status_suspend]
        simpa [hqp] using h.not_blocked q hq

/-! ## Killing -/

theorem core_leaveQueue {t : Table} {p : Pcb} (h : Core none t) (hp : p ∈ t.procs)
    (hpid : t.pid p ≠ IDLE_PID) :
    ∃ r b, t.leaveQueue p = some (t.queues r b) ∧ Core (some p) (t.queues r b) := by
  have hidle : ∀ q ∈ t.procs, t.pid q = IDLE_PID → t.status q ≠ .BLOCKED → none ≠ some q →
      t.status q ≠ .BLOCKED ∧ some p ≠ some q := by
    intro q _ hq hb _
    refine ⟨hb, fun he => hpid ?_⟩
    cases he
    exact hq
  have hsame : ∀ r b, r.Nodup → b.Nodup → (∀ q, q ∈ r ↔ q ∈ t.ready ∧ q ≠ p) →
      (∀ q, q ∈ b ↔ q ∈ t.blocked ∧ q ≠ p) → Core (some p) (t.queues r b) := by
    intro r b hrn hbn hr hb
    refine h.of_same (SameProcs.queues t r b) hrn hbn ?_ ?_ h.alive hidle
    · intro q
      simp only [ready_queues, status_queues, hr, h.mem_ready]
      grind
    · intro q
      simp only [blocked_queues, status_queues, hb, h.mem_blocked]
      grind
  have hstay : t.status p ≠ .READY → ∀ q, q ∈ t.ready ↔ q ∈ t.ready ∧ q ≠ p := fun hst q =>
    ⟨fun hq => ⟨hq, fun he => hst (by rw [← he]; exact ((h.mem_ready q).mp hq).2.1)⟩, And.left⟩
  have hstay' : t.status p ≠ .BLOCKED → ∀ q, q ∈ t.blocked ↔ q ∈ t.blocked ∧ q ≠ p := fun hst q =>
    ⟨fun hq => ⟨hq, fun he => hst (by rw [← he]; exact ((h.mem_blocked q).mp hq).2.1)⟩, And.left⟩
  unfold leaveQueue
  cases hst : t.status p with
  | READY =>
    have hmem : p ∈ t.ready := (h.mem_ready p).mpr ⟨hp, hst, by simp⟩
    refine ⟨t.ready.erase p, t.blocked, by simp [hmem], ?_⟩
    exact hsame _ _ (h.ready_nodup.erase p) h.blocked_nodup
      (fun q => by rw [h.ready_nodup.mem_erase_iff, and_comm]) (hstay' (by simp [hst]))
  | BLOCKED =>
    have hmem : p ∈ t.blocked := (h.mem_blocked p).mpr ⟨hp, hst, by simp⟩
    refine ⟨t.ready, t.blocked.erase p, by simp [hmem], ?_⟩
    exact hsame _ _ h.ready_nodup (h.blocked_nodup.erase p) (hstay (by simp [hst]))
      (fun q => by rw [h.blocked_nodup.mem_erase_iff, and_comm])
  | RUNNING =>
    exact ⟨t.ready, t.blocked, rfl, hsame _ _ h.ready_nodup h.blocked_nodup
      (hstay (by simp [hst])) (hstay' (by simp [hst]))⟩
  | TERMINATED => exact absurd hst (h.alive p hp)

/-- What the wakes of a `kill` leave: everything but some statuses. -/
structure Woken (v : Option Pcb) (t t' : Table) : Prop where
  core : Core v t'
  cur : Cur t'
  not_blocked : ∀ p, t'.current = some p → t'.status p ≠ .BLOCKED
  same : SameProcs t t'
  current : t'.current = t.current

theorem woken_wakeAll {v : Option Pcb} {t : Table} (waiters : List (Option Pcb)) (h : Core v t)
    (hc : Cur t) (hnb : ∀ p, t.current = some p → t.status p ≠ .BLOCKED) :
    Woken v t (wakeAll waiters t) := by
  induction waiters generalizing t with
  | nil => exact ⟨h, hc, hnb, SameProcs.queues t t.ready t.blocked, rfl⟩
  | cons w rest ih =>
    cases w with
    | none => exact ih h hc hnb
    | some aux =>
      have hcw := core_wake h (t.pid aux)
      have hnb' : ∀ p, (t.wake (t.pid aux)).current = some p →
          (t.wake (t.pid aux)).status p ≠ .BLOCKED := by
        intro p hp
        rw [current_wake] at hp
        rw [status_wake h _ (hnb p hp)]
        exact hnb p hp
      have hw := ih hcw (cur_wake h hc hnb _) hnb'
      have hs := sameProcs_wake h (t.pid aux)
      refine ⟨hw.core, hw.cur, hw.not_blocked, ?_, by rw [wakeAll, hw.current, current_wake]⟩
      exact ⟨hw.same.procs.trans hs.procs, hw.same.qty.trans hs.qty,
        hw.same.pcbQty.trans hs.pcbQty, hw.same.frees.trans hs.frees,
        fun p => (hw.same.pid p).trans (hs.pid p), fun p => (hw.same.fds p).trans (hs.fds p),
        fun p => (hw.same.ground p).trans (hs.ground p)⟩

/-- Distinct pids below `MAX_PROCESS`: there are at most that many processes. -/
theorem Core.length_le {v : Option Pcb} {t : Table} (h : Core v t) :
    t.procs.length ≤ MAX_PROCESS := by
  have hn : (t.procs.map (fun p => (t.pid p).toNat)).Nodup := by
    apply (List.nodup_map_iff_inj_on h.procs_nodup).mpr
    intro p hp q hq he
    have h1 := (h.pid_range p hp).1
    have h2 := (h.pid_range q hq).1
    exact h.pid_inj p hp q hq (by omega)
  have hsub : t.procs.map (fun p => (t.pid p).toNat) ⊆ List.range MAX_PROCESS := by
    intro n hn
    obtain ⟨p, hp, rfl⟩ := List.mem_map.mp hn
    have := h.pid_range p hp
    simp only [List.mem_range, MAX_PROCESS] at this ⊢
    omega
  simpa using List.Nodup.length_le_of_subset hn hsub

theorem core_drop {t : Table} {p : Pcb} (h : Core (some p) t) (hp : p ∈ t.procs) :
    Core none (t.drop p) := by
  have hmem : ∀ q, q ∈ t.procs.erase p ↔ q ∈ t.procs ∧ q ≠ p := fun q => by
    rw [h.procs_nodup.mem_erase_iff, and_comm]
  have hst : ∀ q, (t.drop p).status q = if q = p then .TERMINATED else t.status q :=
    fun q => status_mark _ p q _
  have hpid : ∀ q, (t.drop p).pid q = t.pid q := fun q => pid_mark _ p q _
  refine ⟨h.procs_nodup.erase p, ?_, ?_, ?_, h.ready_nodup, h.blocked_nodup, ?_, ?_, ?_, ?_,
    h.frees_le, h.fresh, ?_⟩
  · intro a ha b hb he
    rw [hpid, hpid] at he
    exact h.pid_inj a ((hmem a).mp ha).1 b ((hmem b).mp hb).1 he
  · intro a ha
    rw [hpid]
    exact h.pid_range a ((hmem a).mp ha).1
  · have hlen := List.length_erase_of_mem hp
    have hpos := List.length_pos_of_mem hp
    have hbound := h.length_le
    show (t.qty + 2 ^ 16 - 1) % 2 ^ 16 = (t.procs.erase p).length
    rw [h.qty, hlen]
    simp only [MAX_PROCESS] at hbound
    omega
  · intro q
    rw [hst]
    show q ∈ t.ready ↔ q ∈ t.procs.erase p ∧ _ ∧ _
    rw [h.mem_ready, hmem]
    grind
  · intro q
    rw [hst]
    show q ∈ t.blocked ↔ q ∈ t.procs.erase p ∧ _ ∧ _
    rw [h.mem_blocked, hmem]
    grind
  · intro q hq
    obtain ⟨hq, hqp⟩ := (hmem q).mp hq
    rw [hst, if_neg hqp]
    exact h.alive q hq
  · intro q hq
    exact h.live q ((hmem q).mp hq).1
  · obtain ⟨i, hi, h1, h2, h3, h4, h5⟩ := h.idle
    have hip : i ≠ p := fun he => h3 (by rw [he])
    refine ⟨i, (hmem i).mpr ⟨hi, hip⟩, by rw [hpid, h1], by rw [hst, if_neg hip]; exact h2,
      by simp, ?_, ?_⟩
    · rw [drop, fds_mark]; exact h4
    · rw [drop, ground_mark]; exact h5
theorem cur_drop {t : Table} {p : Pcb} (hc : Cur t) (hpid : t.pid p ≠ IDLE_PID) :
    Cur (t.drop p) := by
  have hst : ∀ q, (t.drop p).status q = if q = p then .TERMINATED else t.status q :=
    fun q => status_mark _ p q _
  have hp : ∀ q, (t.drop p).pid q = t.pid q := fun q => pid_mark _ p q _
  refine ⟨hc.none_pid, ?_, ?_, ?_, hc.live, ?_⟩
  · intro q hq
    rw [hp]
    exact hc.some_pid q hq
  · intro q hq hnq
    rw [hst, hp]
    by_cases hqp : q = p
    · subst hqp
      exact ⟨by simp, hpid⟩
    · rw [if_neg hqp]
      exact hc.gone q hq (fun hm => hnq ((List.mem_erase_of_ne hqp).mpr hm))
  · intro q hq
    rw [hst]
    split
    · simp
    · exact hc.not_ready q hq
  · intro q hq hr
    rw [hst] at hr
    split at hr
    · cases hr
    · exact hc.running q (List.mem_of_mem_erase hq) hr

theorem inv_terminate {t : Table} {p : Pcb} (h : Core (some p) t) (hc : Cur t)
    (hnb : ∀ q, t.current = some q → t.status q ≠ .BLOCKED) (hp : p ∈ t.procs)
    (hpid : t.pid p ≠ IDLE_PID) :
    ∃ t', t.terminate p = (true, t') ∧ Inv t' ∧ t'.procs = t.procs.erase p := by
  have hcore := core_drop h hp
  have hcur := cur_drop hc hpid
  have hnp : p ∉ (t.drop p).procs := fun hm => (h.procs_nodup.mem_erase_iff.mp hm).1 rfl
  have hst : ∀ q, (t.drop p).status q = if q = p then .TERMINATED else t.status q :=
    fun q => status_mark _ p q _
  have hnb' : ∀ q, t.current = some q → (t.drop p).status q ≠ .BLOCKED := by
    intro q hq
    rw [hst]
    split
    · simp
    · exact hnb q hq
  unfold terminate
  rw [if_pos hp]
  by_cases hcp : t.current = some p
  · exact ⟨t.drop p, by rw [if_pos hcp], ⟨hcore, hcur, hnb'⟩, rfl⟩
  · refine ⟨(t.drop p).free p, by rw [if_neg hcp],
      ⟨core_free hcore hnp (h.live p hp), cur_free hcur hnp hcp, ?_⟩, rfl⟩
    intro q hq
    have hqp : q ≠ p := fun he => hcp (by rw [← he]; exact hq)
    have : ((t.drop p).free p).status q = (t.drop p).status q := by
      simp [Table.free, Table.set, Table.status, hqp]
    rw [this]
    exact hnb' q hq

/-- A kill of a process other than idle succeeds and takes it, and only it,
out of the process list. -/
theorem inv_kill {t : Table} (h : Inv t) {p : Pcb} (hp : p ∈ t.procs)
    (hpid : t.pid p ≠ IDLE_PID) :
    ∃ t', t.kill p = (true, t') ∧ Inv t' ∧ t'.procs = t.procs.erase p := by
  obtain ⟨r, b, hl, hcore⟩ := core_leaveQueue h.core hp hpid
  have hcur : Cur (t.queues r b) :=
    h.cur.of_same (SameProcs.queues t r b) rfl rfl (fun _ _ => rfl) (fun _ _ h => h)
  have hw := woken_wakeAll ((t.queues r b).pcb p).waiters hcore hcur h.not_blocked
  have hp' : p ∈ (wakeAll ((t.queues r b).pcb p).waiters (t.queues r b)).procs := by
    rw [hw.same.procs]
    exact hp
  obtain ⟨t', ht, hinv, hprocs⟩ := inv_terminate hw.core hw.cur hw.not_blocked hp'
    (by rw [hw.same.pid]; exact hpid)
  refine ⟨t', by unfold kill; rw [hl]; exact ht, hinv, ?_⟩
  rw [hprocs, hw.same.procs]
  rfl

/-- Idle has no pipe, so no peer kill reaches it. -/
theorem pipedTo_ne_idle {t : Table} (h : Core none t) {fd : Int} {p : Pcb} (hfd : fd ≠ -1)
    (hp : t.pipedTo fd = some p) : p ∈ t.procs ∧ t.pid p ≠ IDLE_PID := by
  have hmem : p ∈ t.procs := List.mem_of_find?_eq_some hp
  refine ⟨hmem, fun hpid => ?_⟩
  obtain ⟨i, hi, hipid, _, _, hfds, _⟩ := h.idle
  have hip : p = i := h.pid_inj p hmem i hi (hpid.trans hipid.symm)
  have := List.find?_some hp
  rw [hip, hfds] at this
  simp only [idleDescriptors, STDIN, STDOUT, bare_bones.scheduler.STDERR] at this
  simp at this
  omega

/-! ## Other writes -/

theorem SameProcs.set {t : Table} {p : Pcb} {e : Entry} (hpid : e.pid = t.pid p)
    (hfds : e.fds = (t.pcb p).fds) (hg : e.ground = (t.pcb p).ground) :
    SameProcs t (t.set p e) := by
  refine ⟨rfl, rfl, rfl, rfl, ?_, ?_, ?_⟩ <;> intro q <;> by_cases hq : q = p
  · subst hq; simpa [Table.pid] using hpid
  · simp [Table.pid, set_pcb_ne _ hq]
  · subst hq; simpa using hfds
  · simp [set_pcb_ne _ hq]
  · subst hq; simpa using hg
  · simp [set_pcb_ne _ hq]

/-- A write to a PCB that leaves status, pid, descriptors and ground alone. -/
theorem inv_set {t : Table} (h : Inv t) {p : Pcb} {e : Entry} (hst : e.status = t.status p)
    (hpid : e.pid = t.pid p) (hfds : e.fds = (t.pcb p).fds) (hg : e.ground = (t.pcb p).ground) :
    Inv (t.set p e) := by
  have hs := SameProcs.set hpid hfds hg
  have hstatus : ∀ q, (t.set p e).status q = t.status q := by
    intro q
    by_cases hq : q = p
    · subst hq; simpa [Table.status] using hst
    · simp [Table.status, set_pcb_ne _ hq]
  refine ⟨h.core.of_same hs h.core.ready_nodup h.core.blocked_nodup ?_ ?_ ?_ ?_,
    h.cur.of_same hs rfl rfl (fun q _ => hstatus q) (fun q _ hr => hstatus q ▸ hr), ?_⟩
  · intro q
    rw [hstatus]
    exact h.core.mem_ready q
  · intro q
    rw [hstatus]
    exact h.core.mem_blocked q
  · intro q hq
    rw [hstatus]
    exact h.core.alive q hq
  · intro q _ _ hb _
    rw [hstatus]
    exact ⟨hb, by simp⟩
  · intro q hq
    rw [hstatus]
    exact h.not_blocked q hq

theorem inv_setPriority {t : Table} (h : Inv t) (pid : Int) (priority : Nat) :
    Inv (t.setPriority pid priority) := by
  unfold setPriority
  split
  · exact h
  · exact inv_set h rfl rfl rfl rfl

theorem inv_wait {t : Table} (h : Inv t) (pid : Int)
    (hcur : (t.find pid).isSome → t.currentPid ≠ pid → t.currentPid ≠ IDLE_PID) :
    Inv (t.wait pid) := by
  unfold wait
  cases hf : t.find pid with
  | none => exact h
  | some target =>
    rw [hf] at hcur
    dsimp only
    split
    · exact h
    · rename_i hself
      refine inv_block (inv_set h ?_ ?_ ?_ ?_) (hcur rfl hself) <;> rfl

/-! ## New processes -/

theorem pcb_alloc {t : Table} (h : Core none t) (e : Entry) {p : Pcb} (hp : p ∈ t.procs) :
    (t.alloc e).pcb p = t.pcb p :=
  set_pcb_ne e (Nat.ne_of_lt (h.live p hp).2)

/-- The heap gives a PCB that no process has. -/
theorem inv_alloc {t : Table} (h : Inv t) (e : Entry) : Inv (t.alloc e) := by
  have hnew : t.pcbQty ∉ t.procs := fun hm => Nat.lt_irrefl _ (h.core.live _ hm).2
  have hcur : t.current ≠ some t.pcbQty := fun hm => Nat.lt_irrefl _ (h.cur.live _ hm).2
  obtain ⟨hc, hcu, hb⟩ := inv_setOut h hnew hcur e
  refine ⟨⟨hc.procs_nodup, hc.pid_inj, hc.pid_range, hc.qty, hc.ready_nodup, hc.blocked_nodup,
    hc.mem_ready, hc.mem_blocked, hc.alive, ?_, hc.frees_le, ?_, hc.idle⟩,
    ⟨hcu.none_pid, hcu.some_pid, hcu.gone, hcu.not_ready, ?_, hcu.running⟩, hb⟩
  · exact fun a ha => ⟨(h.core.live a ha).1, Nat.lt_succ_of_lt (h.core.live a ha).2⟩
  · exact fun a ha => h.core.fresh a (Nat.le_of_succ_le ha)
  · exact fun q hq => ⟨(h.cur.live q hq).1, Nat.lt_succ_of_lt (h.cur.live q hq).2⟩

/-- The new pid is one that no process has. -/
theorem minFreePid_spec {t : Table} {n : Nat} (h : t.minFreePid = some n) :
    n < MAX_PROCESS ∧ ∀ p ∈ t.procs, t.pid p ≠ n := by
  have hlt : n < MAX_PROCESS := by simpa using List.mem_of_find?_eq_some h
  have hnone : t.find n = none := by simpa using List.find?_some h
  exact ⟨hlt, find_none hnone⟩

theorem inv_join {t : Table} (h : Inv t) {p : Pcb} {n : Nat} (hp : p ∉ t.procs)
    (hcp : t.current ≠ some p) (hl : t.frees p = 0 ∧ p < t.pcbQty) (hst : t.status p = .READY)
    (hpid : t.pid p = n) (hn : n < MAX_PROCESS) (hfree : ∀ q ∈ t.procs, t.pid q ≠ n) :
    Inv (t.join p) := by
  have hc := h.core
  have hmem : ∀ q, q ∈ t.procs ++ [p] ↔ q ∈ t.procs ∨ q = p := by simp
  refine ⟨⟨nodup_snoc hc.procs_nodup hp, ?_, ?_, ?_, ?_, hc.blocked_nodup, ?_, ?_, ?_, ?_,
    hc.frees_le, hc.fresh, ?_⟩, ⟨h.cur.none_pid, h.cur.some_pid, ?_, h.cur.not_ready, h.cur.live,
      ?_⟩, h.not_blocked⟩
  · intro a ha b hb he
    rcases (hmem a).mp ha with ha' | ha' <;> rcases (hmem b).mp hb with hb' | hb'
    · exact hc.pid_inj a ha' b hb' he
    · subst hb'
      exact absurd (he.trans hpid) (hfree a ha')
    · subst ha'
      exact absurd (he.symm.trans hpid) (hfree b hb')
    · rw [ha', hb']
  · intro a ha
    rcases (hmem a).mp ha with ha | rfl
    · exact hc.pid_range a ha
    · show 0 ≤ t.pid a ∧ t.pid a < MAX_PROCESS
      rw [hpid]
      simp only [MAX_PROCESS] at hn ⊢
      omega
  · show t.qty + 1 = (t.procs ++ [p]).length
    rw [List.length_append, hc.qty]
    rfl
  · exact nodup_snoc hc.ready_nodup (fun hr => hp ((hc.mem_ready p).mp hr).1)
  · intro q
    show q ∈ t.ready ++ [p] ↔ q ∈ t.procs ++ [p] ∧ t.status q = _ ∧ _
    rw [hmem, List.mem_append, List.mem_singleton, hc.mem_ready]
    grind
  · intro q
    show q ∈ t.blocked ↔ q ∈ t.procs ++ [p] ∧ t.status q = _ ∧ _
    rw [hmem, hc.mem_blocked]
    grind
  · intro q hq
    show t.status q ≠ _
    rcases (hmem q).mp hq with hq | rfl
    · exact hc.alive q hq
    · simp [hst]
  · intro q hq
    rcases (hmem q).mp hq with hq | rfl
    · exact hc.live q hq
    · exact hl
  · obtain ⟨i, hi, hrest⟩ := hc.idle
    exact ⟨i, (hmem i).mpr (Or.inl hi), hrest⟩
  · intro q hq hnq
    exact h.cur.gone q hq (fun hm => hnq ((hmem q).mpr (Or.inl hm)))
  · intro q hq hr
    rcases (hmem q).mp hq with hq' | hq'
    · exact h.cur.running q hq' hr
    · subst hq'
      have hr' : t.status q = .RUNNING := hr
      rw [hst] at hr'
      cases hr'

theorem inv_creates {t t' : Table} {fds : Fin CANT_FILE_DESCRIPTORS → Int} {ground : Nat}
    (h : Inv t) (hc : Creates fds ground t t') : Inv t' := by
  have hnew : t.pcbQty ∉ t.procs := fun hm => Nat.lt_irrefl _ (h.core.live _ hm).2
  have hcur : t.current ≠ some t.pcbQty := fun hm => Nat.lt_irrefl _ (h.cur.live _ hm).2
  have hlive : t.frees t.pcbQty = 0 ∧ t.pcbQty < t.pcbQty + 1 :=
    ⟨h.core.fresh _ (Nat.le_refl _), Nat.lt_succ_self _⟩
  cases hc with
  | refused => exact h
  | failed e =>
    have ha := inv_alloc h e
    refine ⟨core_free ha.core hnew hlive, cur_free ha.cur hnew hcur, ?_⟩
    intro q hq
    have hqn : q ≠ t.pcbQty := fun he => hcur (by rw [← he]; exact hq)
    have : ((t.alloc e).free t.pcbQty).status q = (t.alloc e).status q := by
      simp [Table.free, Table.set, Table.status, hqn]
    rw [this]
    exact ha.not_blocked q hq
  | created e₀ e n hqty hn hpid hst _ _ _ =>
    obtain ⟨hlt, hfree⟩ := minFreePid_spec hn
    refine inv_join (n := n) (inv_alloc h e) hnew hcur hlive ?_ ?_ hlt ?_
    · simpa [Table.status, alloc] using hst
    · simpa [Table.pid, alloc] using hpid
    · intro q hq
      have := hfree q hq
      rwa [Table.pid, pcb_alloc h.core _ hq] at this ⊢

/-! ## The start -/

/-- A table with no process and nothing allocated. -/
structure Empty (t : Table) : Prop where
  procs : t.procs = []
  ready : t.ready = []
  blocked : t.blocked = []
  current : t.current = none
  currentPid : t.currentPid = NO_PROCESS
  qty : t.qty = 0
  pcbQty : t.pcbQty = 0
  frees : ∀ p, t.frees p = 0

/-- The invariant holds as soon as idle is there. -/
theorem inv_boot {t t' : Table} {ground : Nat} (h : Empty t) (hground : ground ≠ 0)
    (hc : Creates idleDescriptors ground t t') (hidle : (t'.find IDLE_PID).isSome) : Inv t' := by
  obtain ⟨i, hi⟩ := Option.isSome_iff_exists.mp hidle
  obtain ⟨himem, hipid⟩ := find_some hi
  cases hc with
  | refused => simp [h.procs] at himem
  | failed e => simp [Table.free, alloc, h.procs] at himem
  | created e₀ e n hqty hn hpid hst hfds hg hwait =>
    have hprocs : ((t.alloc e).join t.pcbQty).procs = [t.pcbQty] := by simp [join, alloc, h.procs]
    have hready : ((t.alloc e).join t.pcbQty).ready = [t.pcbQty] := by simp [join, alloc, h.ready]
    have hblocked : ((t.alloc e).join t.pcbQty).blocked = [] := h.blocked
    have hcur : ((t.alloc e).join t.pcbQty).current = none := h.current
    have hpcb : ((t.alloc e).join t.pcbQty).pcb t.pcbQty = e := set_pcb_self _ _ _
    have hstatus : ((t.alloc e).join t.pcbQty).status t.pcbQty = .READY := by
      rw [Table.status, hpcb, hst]
    have hi' : i = t.pcbQty := by simpa [hprocs] using himem
    rw [hi'] at hipid
    refine ⟨⟨?_, ?_, ?_, ?_, ?_, ?_, ?_, ?_, ?_, ?_, ?_, ?_, ?_⟩, ⟨?_, ?_, ?_, ?_, ?_, ?_⟩, ?_⟩
    · simp [hprocs]
    · intro p hp q hq _
      rw [hprocs, List.mem_singleton] at hp hq
      rw [hp, hq]
    · intro p hp
      rw [hprocs, List.mem_singleton] at hp
      rw [hp, hipid]
      decide
    · rw [hprocs]
      exact congrArg (· + 1) h.qty
    · simp [hready]
    · simp [hblocked]
    · intro p
      rw [hready, hprocs, List.mem_singleton]
      exact ⟨fun hp => ⟨hp, hp ▸ hstatus, by simp⟩, fun hp => hp.1⟩
    · intro p
      rw [hblocked, hprocs, List.mem_singleton]
      simp only [List.not_mem_nil, false_iff]
      rintro ⟨hp, hb, _⟩
      rw [hp, hstatus] at hb
      cases hb
    · intro p hp
      rw [hprocs, List.mem_singleton] at hp
      rw [hp, hstatus]
      simp
    · intro p hp
      rw [hprocs, List.mem_singleton] at hp
      rw [hp]
      exact ⟨h.frees _, Nat.lt_succ_self t.pcbQty⟩
    · exact fun p => (h.frees p).symm ▸ Nat.zero_le _
    · exact fun p _ => h.frees p
    · exact ⟨t.pcbQty, by simp [hprocs], hipid, by simp [hstatus], by simp, by rw [hpcb, hfds],
        by rwa [hpcb, hg]⟩
    · exact fun _ => h.currentPid
    all_goals simp [hcur, hprocs, hstatus]

end bare_bones.process_table
