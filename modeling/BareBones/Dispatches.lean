-- Which calls of the kernel end in a switch, and who gets the processor. A
-- switch takes the head of the ready queue; whatever else a call does to the
-- queue, it takes processes out or appends them.
import BareBones.Lib.Fifo
import BareBones.SchedulerPartition

namespace bare_bones.process_table

open bare_bones.process
open bare_bones.scheduler (NO_PROCESS IDLE_PID SHELL_PID)

open Table

/-! ## The switch -/

/-- The current process goes to the end of the ready queue, if it still runs. -/
theorem ready_leave (t : Table) :
    t.leave.ready = t.ready ∨
      ∃ c, t.current = some c ∧ t.status c = .RUNNING ∧ t.leave.ready = t.ready ++ [c] := by
  unfold leave
  split
  · exact Or.inl rfl
  rename_i c hc
  split
  · exact Or.inl rfl
  · split
    · rename_i hr
      exact Or.inr ⟨c, hc, hr, rfl⟩
    · exact Or.inl rfl

/-- A switch gives the processor to the head of the ready queue. -/
theorem switch_dispatches {t : Table} (h : Core none t) (hc : Cur t) :
    ∃ p rest, t.leave.ready = p :: rest ∧
      t.switch = (t.leave.queues rest t.leave.blocked).dispatch p := by
  obtain ⟨hl, hn⟩ := core_leave h hc
  obtain ⟨p, rest, hr⟩ := ready_ne_nil hl hn
  refine ⟨p, rest, hr, ?_⟩
  unfold switch
  cases hcur : t.current with
  | none =>
    have hleave : t.leave = t := by simp only [leave, hcur]
    rw [hleave] at hr ⊢
    simp only [hc.none_pid hcur, if_true, hr]
  | some c =>
    have hpid : t.currentPid ≠ NO_PROCESS := by
      obtain ⟨h1, h2⟩ := hc.some_pid c hcur
      simp only [NO_PROCESS, ne_eq]
      omega
    rw [if_neg hpid, next, hr]

/-- The process that a switch picks is in the table and runs. -/
theorem switch_runs {t : Table} (h : Core none t) (hc : Cur t) {p : Pcb}
    (hp : t.switch.current = some p) : p ∈ t.switch.procs ∧ t.switch.status p = .RUNNING := by
  obtain ⟨q, rest, hr, hs⟩ := switch_dispatches h hc
  have hq : q ∈ t.leave.procs := ((core_leave h hc).1.mem_ready q |>.mp (by simp [hr])).1
  rw [hs] at hp ⊢
  cases hp
  exact ⟨hq, by simp [status_dispatch]⟩

/-! ## The flow of the ready queue -/

/-- `t'` follows `t` in a call that took `n` processes off the head of the ready
queue. The call may take out others, and appends processes that were not in the
queue. -/
def Flows (n : Nat) (t t' : Table) : Prop := fifo.Flow n t.ready t'.ready

theorem Flows.of_ready {t t' : Table} (h : t'.ready = t.ready) : Flows 0 t t' :=
  .sublist (by rw [h])

/-- A switch takes one process off the head. -/
theorem flows_switch {t : Table} (h : Core none t) (hc : Cur t) : Flows 1 t t.switch := by
  obtain ⟨p, rest, hr, hs⟩ := switch_dispatches h hc
  rcases ready_leave t with hl | ⟨c, hcur, hrun, hl⟩
  · refine ⟨rest, [], by simp [hs], ?_, by simp⟩
    rw [← hl, hr]
    exact List.Sublist.refl _
  · have hcr : c ∉ t.ready := fun hm => by simp [(h.mem_ready c).mp hm] at hrun
    have htail : rest = (t.ready ++ [c]).tail := by rw [← hl, hr, List.tail_cons]
    refine ⟨t.ready.drop 1, [c].drop (1 - t.ready.length), ?_, List.Sublist.refl _, ?_⟩
    · rw [hs, ready_dispatch, ready_queues, htail, ← List.drop_one, List.drop_append]
    · intro q hq
      rw [List.mem_singleton.mp (List.mem_of_mem_drop hq)]
      exact hcr

/-- Whether a tick ends in a switch. -/
def Table.spent (t : Table) : Prop := t.qty ≠ 0 ∧ t.quantums ≤ 1

instance (t : Table) : Decidable t.spent := inferInstanceAs (Decidable (_ ∧ _))

theorem tick_of_spent {t : Table} (h : t.spent) :
    t.tick = { t with quantums := t.quantums - 1 }.switch := by
  have hq : ¬ t.quantums - 1 > 0 := by have := h.2; omega
  simp only [tick, h.1, hq, or_self, if_false]

theorem tick_of_not_spent {t : Table} (h : ¬ t.spent) :
    t.tick = { t with quantums := t.quantums - 1 } := by
  have hq : t.qty = 0 ∨ t.quantums - 1 > 0 := by
    unfold spent at h
    omega
  simp only [tick, hq, if_true]

theorem flows_tick {t : Table} (h : Core none t) (hc : Cur t) :
    Flows (if t.spent then 1 else 0) t t.tick := by
  by_cases hs : t.spent
  · rw [if_pos hs, tick_of_spent hs]
    exact flows_switch (t := { t with quantums := t.quantums - 1 }) (core_quantums h _)
      (cur_quantums hc _)
  · rw [if_neg hs, tick_of_not_spent hs]
    exact .of_ready rfl

/-- There is always a process, idle at least. -/
theorem qty_ne_zero {v : Option Pcb} {t : Table} (h : Core v t) : t.qty ≠ 0 := by
  obtain ⟨i, hi, _⟩ := h.idle
  have := List.length_pos_of_mem hi
  rw [h.qty]
  omega

theorem yield_eq_switch {v : Option Pcb} {t : Table} (h : Core v t) :
    t.yield = { t with quantums := -1 }.switch :=
  tick_of_spent (t := { t with quantums := 0 }) ⟨(qty_ne_zero h :), by simp⟩

theorem flows_yield {t : Table} (h : Core none t) (hc : Cur t) : Flows 1 t t.yield := by
  rw [yield_eq_switch h]
  exact flows_switch (t := { t with quantums := -1 }) (core_quantums h _) (cur_quantums hc _)

/-! ## The flow of the other moves -/

theorem flows_suspend {t : Table} (p : Pcb) : Flows 0 t (t.suspend p) := by
  unfold suspend
  split
  · exact .sublist List.erase_sublist
  · split
    · exact .of_ready rfl
    · exact .of_ready rfl

/-- Whether a block ends in a switch. -/
def Table.yields (t : Table) (pid : Int) : Prop := (t.find pid).isSome ∧ t.currentPid = pid

instance (t : Table) (pid : Int) : Decidable (t.yields pid) := inferInstanceAs (Decidable (_ ∧ _))

/-- `block` of a process that is there: it is suspended, and a switch follows if
the caller is meant. -/
theorem block_eq {t : Table} (h : Inv t) {pid : Int} {p : Pcb} (hf : t.find pid = some p) :
    t.block pid = if t.currentPid = pid then (t.suspend p).yield else t.suspend p := by
  have hready : ¬ (t.status p = .READY ∧ p ∉ t.ready) := fun hr =>
    hr.2 ((h.core.mem_ready p).mpr ⟨(find_some hf).1, hr.1, by simp⟩)
  unfold block
  rw [hf]
  simp only [hready, if_false]

theorem flows_block {t : Table} (h : Inv t) {pid : Int} (hpid : pid ≠ IDLE_PID) :
    Flows (if t.yields pid then 1 else 0) t (t.block pid) := by
  cases hf : t.find pid with
  | none =>
    have hsame : t.block pid = t := by simp only [block, hf]
    rw [hsame, if_neg (by simp [yields, hf])]
    exact .of_ready rfl
  | some p =>
    obtain ⟨hp, rfl⟩ := find_some hf
    rw [block_eq h hf]
    by_cases hcur : t.currentPid = t.pid p
    · rw [if_pos hcur, if_pos ⟨by simp [hf], hcur⟩]
      have hcore := core_suspend h.core hp hpid
      have hc := cur_suspend h.cur hp
      have hflow := flows_yield hcore hc
      apply (flows_suspend p).trans hflow
      intro q hq hqr
      -- a process that comes back was in the queue or ran, so it was not READY
      obtain ⟨kept, new, hr, hk, hn⟩ := hflow
      rw [hr] at hq
      rcases List.mem_append.mp hq with hq | hq
      · exact List.mem_of_mem_drop (hk.subset hq)
      · by_contra hnot
        have hst : (t.suspend p).status q = .BLOCKED := by
          have hqs := ((h.core.mem_ready q).mp hqr)
          by_contra hnb
          refine hnot ((hcore.mem_ready q).mpr ⟨(sameProcs_suspend t p).procs ▸ hqs.1, ?_, by simp⟩)
          rw [status_suspend] at hnb ⊢
          split
          · rename_i hs
            exact absurd (if_pos hs) hnb
          · exact hqs.2.1
        have hasleep : Asleep (t.suspend p).yield q :=
          (sameAsleep_yield hcore hc).iff q |>.mpr
            ⟨(sameProcs_suspend t p).procs ▸ ((h.core.mem_ready q).mp hqr).1, hst⟩
        have hready := ((inv_yield hcore hc).core.mem_ready q).mp (by simp [hr, hq])
        exact absurd (hasleep.2.symm.trans hready.2.1) (by simp)
    · rw [if_neg hcur, if_neg (fun hy => hcur hy.2)]
      exact flows_suspend p

/-- A `wait` that is not refused blocks its caller, after a write to the target. -/
theorem wait_eq {t : Table} (h : Inv t) {pid : Int} {target : Pcb}
    (hf : t.find pid = some target) (hself : t.currentPid ≠ pid) :
    ∃ t', t.wait pid = t'.block t.currentPid ∧ Inv t' ∧ t'.ready = t.ready ∧
      (t'.yields t.currentPid ↔ (t.find t.currentPid).isSome) := by
  have hset : SameProcs t (t.set target ((t.pcb target).enlist (t.find t.currentPid))) :=
    SameProcs.set rfl rfl rfl
  refine ⟨t.set target ((t.pcb target).enlist (t.find t.currentPid)), ?_,
    inv_set h rfl rfl rfl rfl, rfl, ?_⟩
  · unfold wait
    rw [hf]
    simp only [hself, if_false]
  · unfold yields
    rw [find_congr hset.procs hset.pid]
    simp

/-! ## The flow of wakes and kills -/

/-- Only sleepers enter the ready queue. -/
def Stirs (t t' : Table) : Prop :=
  ∃ kept new, t'.ready = kept ++ new ∧ kept.Sublist t.ready ∧ ∀ p ∈ new, Asleep t p

theorem Stirs.refl (t : Table) : Stirs t t :=
  ⟨t.ready, [], by simp, List.Sublist.refl _, by simp⟩

theorem Stirs.trans {t t' t'' : Table} (h : Stirs t t') (h' : Stirs t' t'')
    (hasleep : ∀ p, Asleep t' p → Asleep t p) : Stirs t t'' := by
  obtain ⟨kept, new, hr, hk, hn⟩ := h
  obtain ⟨kept', new', hr', hk', hn'⟩ := h'
  rw [hr] at hk'
  obtain ⟨a, b, rfl, ha, hb⟩ := List.sublist_append_iff.mp hk'
  refine ⟨a, b ++ new', by rw [hr', List.append_assoc], ha.trans hk, fun p hp => ?_⟩
  rcases List.mem_append.mp hp with hp | hp
  · exact hn p (hb.subset hp)
  · exact hasleep p (hn' p hp)

theorem Stirs.flows {t t' : Table} (hc : Core none t) (h : Stirs t t') : Flows 0 t t' := by
  obtain ⟨kept, new, hr, hk, hn⟩ := h
  refine ⟨kept, new, hr, hk, fun p hp hpr => ?_⟩
  have hready := ((hc.mem_ready p).mp hpr).2.1
  exact absurd (hready.symm.trans (hn p hp).2) (by simp)

theorem stirs_wake {v : Option Pcb} {t : Table} (h : Core v t) (pid : Int) :
    Stirs t (t.wake pid) := by
  rcases wake_cases h pid with ⟨p, hp, _, hb, _, he⟩ | ⟨he, _⟩
  · rw [he]
    exact ⟨t.ready, [p], rfl, List.Sublist.refl _, by simpa using ⟨hp, hb⟩⟩
  · rw [he]
    exact .refl t

theorem stirs_wakeAll {v : Option Pcb} (waiters : List (Option Pcb)) {t : Table}
    (h : Core v t) : Stirs t (wakeAll waiters t) := by
  induction waiters generalizing t with
  | nil => exact .refl t
  | cons w rest ih =>
    cases w with
    | none => exact ih h
    | some aux =>
      apply (stirs_wake h (t.pid aux)).trans (ih (core_wake h _))
      intro p hp
      refine ⟨(sameProcs_wake h (t.pid aux)).procs ▸ hp.1, ?_⟩
      by_contra hnb
      exact hnb ((status_wake h (t.pid aux) hnb).symm.trans hp.2)

theorem leaveQueue_ready {t t' : Table} {p : Pcb} (h : t.leaveQueue p = some t') :
    t'.ready.Sublist t.ready := by
  unfold leaveQueue at h
  split at h
  · split at h
    · cases h
      exact List.erase_sublist
    · cases h
  · split at h
    · cases h
      exact List.Sublist.refl _
    · cases h
  · cases h
    exact List.Sublist.refl _

theorem ready_terminate (t : Table) (p : Pcb) : (t.terminate p).2.ready = t.ready := by
  unfold terminate
  split
  · dsimp only
    split <;> rfl
  · rfl

theorem stirs_kill {t : Table} (h : Inv t) {p : Pcb} (hp : p ∈ t.procs)
    (hpid : t.pid p ≠ IDLE_PID) : Stirs t (t.kill p).2 := by
  obtain ⟨r, b, hl, hcore⟩ := core_leaveQueue h.core hp hpid
  obtain ⟨kept, new, hr, hk, hn⟩ := stirs_wakeAll ((t.queues r b).pcb p).waiters hcore
  unfold kill
  rw [hl]
  exact ⟨kept, new, (ready_terminate _ p).trans hr, hk.trans (leaveQueue_ready hl), hn⟩

theorem stirs_killPid {t : Table} (h : Inv t) {pid : Int} (hpid : pid ≠ IDLE_PID) :
    Stirs t (t.killPid pid) := by
  unfold killPid
  cases hf : t.find pid with
  | none => exact .refl t
  | some v =>
    obtain ⟨hv, rfl⟩ := find_some hf
    obtain ⟨t', hk, hkilled⟩ := killed_kill h hv hpid
    have hstirs := stirs_kill h hv hpid
    rw [hk] at hstirs
    dsimp only
    rw [hk]
    dsimp only at hstirs ⊢
    split
    · exact hstirs
    · rename_i hfd
      split
      · exact hstirs
      · rename_i w hw
        obtain ⟨hwm, hwpid⟩ := pipedTo_ne_idle hkilled.inv.core hfd hw
        exact hstirs.trans (stirs_kill hkilled.inv hwm hwpid) fun p hp =>
          ((hkilled.asleep p).mp hp).1

/-- No foreground process is idle. -/
theorem foreground_ne_idle {v : Option Pcb} {t : Table} (h : Core v t) {p : Pcb}
    (hp : p ∈ t.procs) (hg : (t.pcb p).ground = 0) : t.pid p ≠ IDLE_PID := by
  intro hpid
  obtain ⟨i, hi, hipid, _, _, _, hig⟩ := h.idle
  exact hig (h.pid_inj p hp i hi (hpid.trans hipid.symm) ▸ hg)

theorem stirs_killForeground {t : Table} (h : Inv t) : Stirs t t.killForeground := by
  unfold killForeground
  cases hc : t.current with
  | none => exact .refl t
  | some p =>
    dsimp only
    split
    · rename_i hg
      apply stirs_killPid h
      by_cases hp : p ∈ t.procs
      · exact foreground_ne_idle h.core hp hg.1
      · exact (h.cur.gone p hc hp).2
    · split
      · exact .refl t
      · rename_i w hf
        have hg : (t.pcb w).ground = 0 ∧ t.pid w ≠ SHELL_PID := by simpa using List.find?_some hf
        have hw : w ∈ t.procs := List.mem_of_find?_eq_some hf
        exact stirs_kill h hw (foreground_ne_idle h.core hw hg.1)

/-! ## The flow of new processes -/

theorem flows_creates {fds : Fin CANT_FILE_DESCRIPTORS → Int} {ground : Nat} {t t' : Table}
    (h : Core none t) (hc : Creates fds ground t t') : Flows 0 t t' := by
  cases hc with
  | refused => exact .of_ready rfl
  | failed e => exact .of_ready rfl
  | created e₀ e n hqty hn hpid hst hfds hground hwait =>
    have hnew : t.pcbQty ∉ t.ready := fun hm =>
      Nat.lt_irrefl _ (h.live _ ((h.mem_ready _).mp hm).1).2
    exact .append hnew

end bare_bones.process_table

namespace bare_bones.scheduler

open bare_bones.doubleLinkedList bare_bones.process bare_bones.process_table

variable {H : Type} [MemoryManager H]

/-! ## The calls that end in a switch -/

/-- The call ends in a switch: a tick that spends the quantum, a `yield`, or a
call that blocks its caller. -/
def switches (s : Scheduler H) : Op → Prop
  | .schedule _ => s.processQty ≠ 0 ∧ s.quantums ≤ 1
  | .yield _ => s.processQty ≠ 0
  | .blockProcess pid rsp =>
    s.processQty ≠ 0 ∧ (blockProcess s pid rsp).1 = 0 ∧ getPid s = pid
  | .waitProcess pid rsp =>
    s.processQty ≠ 0 ∧ (waitProcess s pid rsp).1 = 0 ∧ (findProcess s (getPid s)).isSome
  | _ => False

instance (s : Scheduler H) (op : Op) : Decidable (switches s op) :=
  match op with
  | .schedule _ => inferInstanceAs (Decidable (s.processQty ≠ 0 ∧ s.quantums ≤ 1))
  | .yield _ => inferInstanceAs (Decidable (s.processQty ≠ 0))
  | .blockProcess pid rsp => inferInstanceAs (Decidable
      (s.processQty ≠ 0 ∧ (blockProcess s pid rsp).1 = 0 ∧ getPid s = pid))
  | .waitProcess pid rsp => inferInstanceAs (Decidable
      (s.processQty ≠ 0 ∧ (waitProcess s pid rsp).1 = 0 ∧ (findProcess s (getPid s)).isSome))
  | .createProcess .. | .setReadyProcess _ | .killProcess _ | .killForegroundProcess
  | .changePriority .. | .reuse .. => isFalse fun h => h

/-- The process that gets the processor in the call. -/
def dispatched (s : Scheduler H) (op : Op) : Option Pcb :=
  if switches s op then (exec s op).currentProcess else none

theorem blockProcess_result (hn : Serves H NODE_SIZE) {s : Scheduler H} (h : Inv s.view)
    (pid : Int) (rsp : Addr) :
    (blockProcess s pid rsp).1 = 0 ↔ (findProcess s pid).isSome := by
  unfold blockProcess
  cases hf : findProcess s pid with
  | none => simp
  | some p =>
    have hp : p ∈ s.procs := (Table.find_some (findProcess_view s pid ▸ hf)).1
    have hlast : ∀ s' : Scheduler H,
        (if getPid s' = pid then ((0 : Int), yield s' rsp) else (0, s')).1 = 0 := fun s' => by
      split <;> rfl
    simp only [Option.isSome_some, iff_true]
    split
    · by_cases hr : s.status p = .READY
      · have hm : p ∈ s.ready := (h.core.mem_ready p).mpr ⟨hp, hr, by simp⟩
        obtain ⟨r, h₁, hrm, _⟩ := removeNode_of_mem s.heap hm
        obtain ⟨a, b, h₂, ha, _⟩ := addNode_spec hn s.blockedProcess p h₁
        simp only [if_pos hr, hrm, ha]
        exact hlast _
      · obtain ⟨a, b, h₂, ha, _⟩ := addNode_spec hn s.blockedProcess p s.heap
        simp only [if_neg hr, ha]
        exact hlast _
    · exact hlast _

theorem waitProcess_result (s : Scheduler H) (pid : Int) (rsp : Addr) :
    (waitProcess s pid rsp).1 = 0 ↔ (findProcess s pid).isSome ∧ getPid s ≠ pid := by
  unfold waitProcess
  dsimp only
  cases findProcess s pid with
  | none => simp
  | some target =>
    dsimp only
    split <;> simp_all

/-- What every call does to the ready queue. -/
theorem flows_exec (hn : Serves H NODE_SIZE) {s : Scheduler H} (op : Op) (h : Inv s.view)
    (hok : sparesIdle s op) :
    Flows (if switches s op then 1 else 0) s.view (exec s op).view := by
  have hqty : s.processQty ≠ 0 := qty_ne_zero h.core
  cases op with
  | schedule rsp =>
    rw [exec, schedule_view hn]
    exact flows_tick h.core h.cur
  | yield rsp =>
    rw [exec, yield_view hn, if_pos (c := switches s (.yield rsp)) hqty]
    exact flows_yield h.core h.cur
  | createProcess rip args argc priority fds ground =>
    exact flows_creates h.core (createProcess_view hn s rip args argc priority fds ground)
  | blockProcess pid rsp =>
    have hiff : switches s (.blockProcess pid rsp) ↔ s.view.yields pid := by
      simp only [switches, hqty, ne_eq, not_false_iff, true_and, blockProcess_result hn h]
      exact Iff.rfl
    rw [exec, blockProcess_view hn, if_congr hiff rfl rfl]
    exact flows_block h hok
  | setReadyProcess pid =>
    rw [exec, setReadyProcess_view hn]
    exact (stirs_wake h.core pid).flows h.core
  | waitProcess pid rsp =>
    rw [exec, waitProcess_view hn]
    cases hf : s.view.find pid with
    | none =>
      have hno : ¬ switches s (.waitProcess pid rsp) := fun hs => by
        have := ((waitProcess_result s pid rsp).mp hs.2.1).1
        rw [findProcess_view, hf] at this
        cases this
      rw [if_neg hno, Table.wait, hf]
      exact .of_ready rfl
    | some target =>
      by_cases hself : s.view.currentPid = pid
      · have hno : ¬ switches s (.waitProcess pid rsp) := fun hs =>
          ((waitProcess_result s pid rsp).mp hs.2.1).2 hself
        rw [if_neg hno, Table.wait, hf]
        simp only [hself, if_true]
        exact .of_ready rfl
      · obtain ⟨t', hwait, hinv, hready, hy⟩ := wait_eq h hf hself
        have hfind : (findProcess s pid).isSome := by
          rw [findProcess_view, hf]
          rfl
        have hres : (waitProcess s pid rsp).1 = 0 :=
          (waitProcess_result s pid rsp).mpr ⟨hfind, hself⟩
        have hiff : switches s (.waitProcess pid rsp) ↔ t'.yields s.view.currentPid := by
          rw [hy]
          simp only [switches, hqty, hres, ne_eq, not_false_iff, true_and]
          exact Iff.rfl
        have hflow := flows_block hinv (hok hfind hself)
        rw [if_congr hiff rfl rfl, hwait]
        unfold Flows at hflow ⊢
        rwa [hready] at hflow
  | changePriority pid priority =>
    rcases changePriority_view s pid priority with hv | hv
    · rw [exec, hv]
      exact .of_ready rfl
    · rw [exec, hv]
      refine .of_ready ?_
      unfold Table.setPriority
      split <;> rfl
  | killProcess pid =>
    rw [exec, killProcess_view hn]
    exact (stirs_killPid h hok).flows h.core
  | killForegroundProcess =>
    rw [exec, killForegroundProcess_view hn]
    exact (stirs_killForeground h).flows h.core
  | reuse p content =>
    rw [if_neg (fun hs : switches s (.reuse p content) => hs), exec]
    split
    · rw [view_setPcb]
      exact .of_ready rfl
    · exact .of_ready rfl

end bare_bones.scheduler
