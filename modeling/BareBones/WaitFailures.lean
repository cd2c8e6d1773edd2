-- `sem_create` and `sem_wait` when the heap refuses one of the blocks that they ask for:
-- the header of a queue, the pid, its node in the queue, or the node that `blockProcess`
-- takes.
import BareBones.SemaphoreFailures

namespace bare_bones.process_table

open bare_bones.process
open bare_bones.scheduler (IDLE_PID)
open Table

/-! ## Who sleeps -/

/-- The process runs on, now or when it gets the processor. -/
def goesOn (t : Table) (p : Pcb) : Prop := t.status p ≠ .BLOCKED ∨ t.current = some p

instance (t : Table) (p : Pcb) : Decidable (goesOn t p) :=
  inferInstanceAs (Decidable (_ ≠ _ ∨ _ = _))

/-- Someone other than `p` is there for the processor. -/
def othersReady (t : Table) (p : Pcb) : Prop :=
  t.qty ≠ 0 ∧ ((∃ q ∈ t.ready, q ≠ p) ∨ ∃ i ∈ t.find IDLE_PID, i ≠ p)

instance (t : Table) (p : Pcb) : Decidable (othersReady t p) :=
  inferInstanceAs (Decidable (_ ≠ _ ∧ ((∃ q ∈ t.ready, q ≠ p) ∨ ∃ i ∈ t.find IDLE_PID, i ≠ p)))

/-- The dispatch passes over a process that is BLOCKED. -/
theorem next_sleeps {t : Table} {p : Pcb} (h : othersReady t p) (hr : p ∉ t.ready)
    (hst : t.status p = .BLOCKED) : ¬ goesOn t.next p := by
  have hdispatch : ∀ {t : Table} {q : Pcb}, t.status p = .BLOCKED → q ≠ p →
      ¬ goesOn (t.dispatch q) p := by
    intro t q hst hq
    rintro (hgo | hcur)
    · rw [status_dispatch, if_neg (Ne.symm hq)] at hgo
      exact hgo hst
    · exact hq (Option.some.inj hcur)
  unfold Table.next
  split
  · rename_i q rest hrd
    apply hdispatch hst
    rintro rfl
    exact hr (by simp [hrd])
  · rename_i hrd
    rcases h.2 with ⟨q, hq, -⟩ | ⟨i, hi, hne⟩
    · simp [hrd] at hq
    · rw [show t.find IDLE_PID = some i from hi]
      exact hdispatch hst hne

/-- With nobody else there, the dispatch leaves the processor where it is. -/
theorem next_stays {t : Table} {p : Pcb} (hcur : t.current = some p)
    (h : ¬ ((∃ q ∈ t.ready, q ≠ p) ∨ ∃ i ∈ t.find IDLE_PID, i ≠ p)) :
    t.next.current = some p := by
  rw [not_or] at h
  unfold Table.next
  split
  · rename_i q rest hrd
    have hqp : q = p := by_contra fun hne => h.1 ⟨q, by simp [hrd], hne⟩
    exact congrArg some hqp
  · split
    · exact hcur
    · rename_i i hi
      have hip : i = p := by_contra fun hne => h.2 ⟨i, hi, hne⟩
      exact congrArg some hip

theorem status_dispatch_ne {t : Table} {p : Pcb} (q : Pcb) (h : t.status p ≠ .BLOCKED) :
    (t.dispatch q).status p ≠ .BLOCKED := by
  rw [status_dispatch]
  split
  · simp
  · exact h

theorem status_next_ne {t : Table} {p : Pcb} (h : t.status p ≠ .BLOCKED) :
    t.next.status p ≠ .BLOCKED := by
  unfold Table.next
  split
  · exact status_dispatch_ne _ h
  · split
    · exact h
    · exact status_dispatch_ne _ h

end bare_bones.process_table

namespace bare_bones.scheduler

open bare_bones.doubleLinkedList bare_bones.process bare_bones.process_table
open Table

variable {H : Type} [MemoryManager H]

/-- A `yield` is a switch, while there is a process. -/
theorem yield_switch (s : Scheduler H) (rsp : Addr) (h : s.processQty ≠ 0) :
    yield s rsp = (switch { s with quantums := 0 - 1 } rsp).2 := by
  unfold yield schedule
  simp [h]

/-- Who yields while BLOCKED sleeps when someone else is there, and only then. -/
theorem yield_sleeps_iff {s : Scheduler H} (h : Sturdy s.view) {p : Pcb} (hp : p ∈ s.procs)
    (hcur : s.currentProcess = some p) (hst : s.status p = .BLOCKED) (rsp : Addr) :
    ¬ goesOn (yield s rsp).view p ↔ othersReady s.view p := by
  have hpid : s.currentPid ≠ NO_PROCESS := by
    have hc : s.currentPid = s.view.pid p := h.current p hp hcur
    have hn := h.pid_nonneg p hp
    simp only [NO_PROCESS]
    omega
  have hready : p ∉ s.ready := fun hm => by
    have := (h.placed p hp).ready hm
    cases hst.symm.trans this
  by_cases hq : s.processQty = 0
  · apply iff_of_false
    · apply not_not.mpr
      right
      have hsame : (yield s rsp).currentProcess = s.currentProcess := by
        unfold yield schedule
        simp [hq]
      exact hsame.trans hcur
    · intro hothers
      exact hothers.1 hq
  · rw [yield_switch s rsp hq, switch_leaves { s with quantums := 0 - 1 } rsp hpid]
    have hl := leaveCurrent_leaves { s with quantums := 0 - 1 } rsp
    generalize (leaveCurrent { s with quantums := 0 - 1 } rsp).view = t at hl
    have hno : ∀ {c : Pcb} {st : ProcessState}, s.currentProcess = some c → s.status c = st →
        st = .BLOCKED := by
      intro c st hc hs
      cases hc.symm.trans hcur
      exact hs.symm.trans hst
    cases hl with
    | stays hs =>
      constructor
      · intro hgo
        refine ⟨hq, by_contra fun hnone => hgo (Or.inr (next_stays hcur hnone))⟩
      · intro hothers
        exact next_sleeps ⟨hq, hothers.2⟩ hready hst
    | freed hc hst' => cases hno hc hst'
    | requeued hc hst' ha => cases hno hc hst'
    | refused hc hst' ha => cases hno hc hst'

/-- A switch makes nobody BLOCKED. -/
theorem status_switch_ne {s : Scheduler H} {p : Pcb} (hst : s.status p ≠ .BLOCKED)
    (rsp : Addr) : (switch s rsp).2.view.status p ≠ .BLOCKED := by
  by_cases hpid : s.currentPid = NO_PROCESS
  · rw [switch_none s rsp hpid]
    unfold Table.switch
    rw [if_pos (show s.view.currentPid = NO_PROCESS from hpid)]
    split
    · exact status_dispatch_ne _ hst
    · exact hst
  · rw [switch_leaves s rsp hpid]
    apply status_next_ne
    have hl := leaveCurrent_leaves s rsp
    generalize (leaveCurrent s rsp).view = t at hl
    have hready : ∀ {t : Table} (c : Pcb), t.status p ≠ .BLOCKED →
        (t.mark c .READY).status p ≠ .BLOCKED := by
      intro t c ht
      rw [status_mark]
      split
      · simp
      · exact ht
    cases hl with
    | stays hs => exact hst
    | @freed c hc hst' =>
      have hfree : (s.view.free c).status p = s.view.status p := by
        unfold Table.free Table.set Table.status
        by_cases hp : p = c
        · simp [hp]
        · simp [Function.update_of_ne hp]
      intro hblocked
      exact hst (hfree.symm.trans hblocked)
    | requeued hc hst' ha => exact hready _ hst
    | refused hc hst' ha => exact hready _ hst

theorem yield_goesOn {s : Scheduler H} {p : Pcb} (hst : s.status p ≠ .BLOCKED) (rsp : Addr) :
    goesOn (yield s rsp).view p := by
  left
  by_cases hq : s.processQty = 0
  · have hsame : (yield s rsp).pcb = s.pcb := by
      unfold yield schedule
      simp [hq]
    intro hblocked
    apply hst
    rw [← hblocked]
    exact congrArg (fun f => (f p).status) hsame.symm
  · rw [yield_switch s rsp hq]
    exact status_switch_ne (s := { s with quantums := 0 - 1 }) hst rsp

/-! ## The block of the caller -/

/-- `blockProcess` asks for a node of the blocked queue and does not get it. -/
def nodeRefused (s : Scheduler H) (pid : Int) : Prop :=
  ∃ p ∈ findProcess s pid,
    s.status p = .RUNNING ∧ (mm_alloc NODE_SIZE s.heap).1 = none ∨
      s.status p = .READY ∧ p ∈ s.ready ∧
        (mm_alloc NODE_SIZE (removeNode s.readyProcess p s.heap).2.2).1 = none

instance (s : Scheduler H) (pid : Int) : Decidable (nodeRefused s pid) :=
  inferInstanceAs (Decidable (∃ p ∈ findProcess s pid, _))

/-- The process is listed, in the ready queue if it is READY, and someone else is there
for the processor. -/
def canSleep (t : Table) (p : Pcb) : Prop :=
  p ∈ t.procs ∧ (t.status p = .READY → p ∈ t.ready) ∧ othersReady t p

instance (t : Table) (p : Pcb) : Decidable (canSleep t p) :=
  inferInstanceAs (Decidable (_ ∧ (_ → _) ∧ _))

omit [MemoryManager H] in
theorem findProcess_caller {s : Scheduler H} (h : Sturdy s.view) {c : Pcb} (hc : c ∈ s.procs)
    (hcur : s.currentProcess = some c) : findProcess s (getPid s) = some c := by
  have hpid : s.view.currentPid = s.view.pid c := h.current c hc hcur
  have hfind := h.find_pid hc
  rw [← hpid] at hfind
  exact hfind

/-- The others are still there when the caller has left the ready queue. -/
theorem othersReady_suspended {t : Table} {c : Pcb} {ready blocked : List Pcb}
    (hr : ∀ q, q ≠ c → (q ∈ ready ↔ q ∈ t.ready)) :
    othersReady ((t.queues ready blocked).mark c .BLOCKED) c ↔ othersReady t c := by
  have hfind : ((t.queues ready blocked).mark c .BLOCKED).find IDLE_PID = t.find IDLE_PID := by
    refine find_congr ?_ (fun q => pid_mark _ c q .BLOCKED) IDLE_PID
    rfl
  unfold othersReady
  rw [hfind]
  have hready : (∃ q ∈ ready, q ≠ c) ↔ ∃ q ∈ t.ready, q ≠ c := by
    constructor
    · rintro ⟨q, hq, hne⟩
      exact ⟨q, (hr q hne).mp hq, hne⟩
    · rintro ⟨q, hq, hne⟩
      exact ⟨q, (hr q hne).mpr hq, hne⟩
  exact and_congr Iff.rfl (or_congr hready Iff.rfl)

/-- A caller that leaves its queue, or the processor, for the blocked queue sleeps when
someone else is there, and only then. -/
theorem suspended_sleeps_iff {s s' : Scheduler H} {c : Pcb}
    (hc : c ∈ s.procs) (hcur : s.currentProcess = some c) {ready : List Pcb}
    (hr : ∀ q, q ≠ c → (q ∈ ready ↔ q ∈ s.ready))
    (hv : s'.view = (s.view.queues ready (s.blocked ++ [c])).mark c .BLOCKED)
    (hs' : Sturdy s'.view) (rsp : Addr) :
    ¬ goesOn (if getPid s' = getPid s then yield s' rsp else s').view c ↔
      othersReady s.view c := by
  have hpid : getPid s' = getPid s := congrArg Table.currentPid hv
  have hst : s'.view.status c = .BLOCKED := by
    rw [hv, status_mark, if_pos rfl]
  have hcur' : s'.currentProcess = some c := (congrArg Table.current hv).trans hcur
  have hprocs : s'.procs = s.procs := congrArg Table.procs hv
  rw [if_pos hpid, yield_sleeps_iff hs' (hprocs ▸ hc) hcur' hst rsp, hv]
  exact othersReady_suspended hr

theorem block_sleeps {s : Scheduler H} (h : Sturdy s.view) {c : Pcb}
    (hcur : s.currentProcess = some c) (hok : ¬ nodeRefused s (getPid s))
    (hsleep : canSleep s.view c) (rsp : Addr) :
    ¬ goesOn (blockProcess s (getPid s) rsp).2.view c := by
  obtain ⟨hc, hqueued, hothers⟩ := hsleep
  have hfind := findProcess_caller h hc hcur
  have hsame : ∀ {p : Pcb}, findProcess s (getPid s) = some p → p = c := fun hf =>
    Option.some.inj (hf.symm.trans hfind)
  have hb := blockProcess_blocks s (getPid s) rsp
  generalize blockProcess s (getPid s) rsp = r at hb
  cases hb with
  | absent hf => cases hf.symm.trans hfind
  | misplaced hf hst hr =>
    cases hsame hf
    exact absurd (hqueued hst) hr
  | refusedReady hf hst hr ha hv =>
    exact absurd ⟨_, hf, Or.inr ⟨hst, hr, by simpa using ha⟩⟩ hok
  | refusedRunning hf hst ha hv =>
    exact absurd ⟨_, hf, Or.inl ⟨hst, by simpa using ha⟩⟩ hok
  | @ready p s' hf hst hr ha hv =>
    cases hsame hf
    have hmoved : Change (fun _ => True) s.view s'.view := hv ▸ .suspended hc hst hr trivial
    refine (suspended_sleeps_iff hc hcur (fun q hq => List.mem_erase_of_ne hq) hv ?_
      rsp).mpr hothers
    exact sturdy_change h hmoved
  | @running p s' hf hst ha hv =>
    cases hsame hf
    have hmoved : Change (fun _ => True) s.view s'.view := hv ▸ .stopped hc hst trivial
    refine (suspended_sleeps_iff hc hcur (fun q _ => Iff.rfl) hv ?_ rsp).mpr hothers
    exact sturdy_change h hmoved
  | asleep hf hready hrun =>
    cases hsame hf
    have hst : s.status c = .BLOCKED := by
      have halive := h.alive c hc
      change s.status c ≠ .TERMINATED at halive
      cases hs : s.status c <;> simp_all
    rw [if_pos rfl]
    exact (yield_sleeps_iff h hc hcur hst rsp).mpr hothers

/-- A caller that runs and sleeps after the block could sleep. -/
theorem canSleep_of_block {s : Scheduler H} (h : Sturdy s.view) {c : Pcb}
    (hcur : s.currentProcess = some c) (hrun : s.status c = .RUNNING) (rsp : Addr)
    (hsleep : ¬ goesOn (blockProcess s (getPid s) rsp).2.view c) : canSleep s.view c := by
  have hon : goesOn s.view c := Or.inr hcur
  -- another process with the pid of the caller is blocked, and the caller goes on
  have hother : ∀ {s' : Scheduler H}, s'.status c ≠ .BLOCKED →
      goesOn (if getPid s' = getPid s then yield s' rsp else s').view c := by
    intro s' hst
    split
    · exact yield_goesOn hst rsp
    · exact Or.inl hst
  have hne : ∀ {s' : Scheduler H} {p : Pcb} {ready blocked : List Pcb}, p ≠ c →
      s'.view = (s.view.queues ready blocked).mark p .BLOCKED → s'.status c ≠ .BLOCKED := by
    intro s' p ready blocked hpc hv
    have hst : s'.view.status c = .RUNNING := by
      rw [hv, status_mark, if_neg (Ne.symm hpc)]
      exact hrun
    intro hblocked
    cases hst.symm.trans hblocked
  have hb := blockProcess_blocks s (getPid s) rsp
  generalize blockProcess s (getPid s) rsp = r at hb hsleep
  cases hb with
  | absent hf => exact absurd hon hsleep
  | misplaced hf hst hr => exact absurd hon hsleep
  | refusedReady hf hst hr ha hv => exact absurd (hv ▸ Or.inr hcur) hsleep
  | refusedRunning hf hst ha hv => exact absurd (hv ▸ hon) hsleep
  | @ready p s' hf hst hr ha hv =>
    have hpc : p ≠ c := by
      rintro rfl
      cases hst.symm.trans hrun
    exact absurd (hother (hne hpc hv)) hsleep
  | @running p s' hf hst ha hv =>
    by_cases hpc : p = c
    · subst hpc
      have hp := (findProcess_some hf).1
      have hmoved : Change (fun _ => True) s.view s'.view := hv ▸ .stopped hp hst trivial
      refine ⟨hp, fun hready => ?_, ?_⟩
      · cases hready.symm.trans hrun
      · refine (suspended_sleeps_iff hp hcur (fun q _ => Iff.rfl) hv ?_ rsp).mp hsleep
        exact sturdy_change h hmoved
    · exact absurd (hother (hne hpc hv)) hsleep
  | @asleep p hf hready hst =>
    refine absurd (hother ?_) hsleep
    simp [hrun]

end bare_bones.scheduler

namespace bare_bones.semaphore

open bare_bones.doubleLinkedList bare_bones.process bare_bones.scheduler
open bare_bones.process_table runs

variable {H : Type} [MemoryManager H]

/-! ## The kernel between two calls -/

/-- What holds between two calls, whatever the heap answers. -/
structure Steady (k : Kernel H) : Prop where
  sturdy : Sturdy k.scheduler.view
  free : ∀ id, (k.semaphores id).spinlock = 0

theorem sturdy_create {k : Kernel H} (h : Sturdy k.scheduler.view) (id : Int) (v : Nat) :
    Sturdy (sem_create k id v).2.scheduler.view := by
  rcases sem_create_spec k id v with ⟨-, hc⟩ | ⟨-, r, k', q, hc, -, -, hb⟩
  · rw [hc]
    exact h
  · rw [hc, hb.table]
    exact h

theorem sturdy_destroy {k : Kernel H} (h : Sturdy k.scheduler.view) (id : Int) :
    Sturdy (after k (.sem_destroy id)).scheduler.view := by
  rcases sem_destroy_spec k id with hc | ⟨-, hb⟩
  · rw [hc]
    exact h
  · rw [hb.table]
    exact h

theorem sturdy_wait {k : Kernel H} (h : Steady k) (id : Int) (rsp : Addr) :
    Sturdy (after k (.sem_wait id rsp)).scheduler.view := by
  have hways := sem_wait_ways rsp (h.free id)
  generalize hr : sem_wait k id rsp = r at hways
  cases hways with
  | invalid hv =>
    rw [after_some (c := .sem_wait id rsp) hr]
    exact h.sturdy
  | token hv hc =>
    rw [after_some (c := .sem_wait id rsp) hr]
    exact h.sturdy
  | noPid hv hc ha =>
    rw [after_some (c := .sem_wait id rsp) hr]
    exact h.sturdy
  | @enters block heap heap' waitQueue hv hc ha hq =>
    rw [after_some (c := .sem_wait id rsp) hr]
    exact sturdy_exec (s := (k.setHeap heap').scheduler) h.sturdy (.blockProcess _ rsp)

theorem sturdy_post {k : Kernel H} (h : Steady k) (id : Int) :
    Sturdy (after k (.sem_post id)).scheduler.view := by
  have hways := sem_post_ways (h.free id)
  generalize hr : sem_post k id = r at hways
  cases hways with
  | invalid hv =>
    rw [after_some (c := .sem_post id) hr]
    exact h.sturdy
  | counts hv ht =>
    rw [after_some (c := .sem_post id) hr]
    exact h.sturdy
  | @wakes w waitQueue heap hv ht =>
    rw [after_some (c := .sem_post id) hr]
    exact sturdy_exec (s := (k.setHeap (mm_free w.block heap)).scheduler) h.sturdy
      (.setReadyProcess w.pid)

theorem steady_step {s : System H} (h : Steady s.kernel) (c : Call) : Steady (step s c).kernel := by
  refine ⟨?_, free_step (s := s) h.free c⟩
  cases c with
  | scheduler op => exact sturdy_exec h.sturdy op
  | sem_create id v => exact sturdy_create h.sturdy id v
  | sem_destroy id => exact sturdy_destroy h.sturdy id
  | sem_wait id rsp => exact sturdy_wait h id rsp
  | sem_post id => exact sturdy_post h id

theorem steady_run {s : System H} (h : BootedSystem s) (calls : List Call) :
    Steady (run step s calls).kernel := by
  refine run_keeps (I := fun s : System H => Steady s.kernel) (fun _ c hs => steady_step hs c)
    ?_ calls
  refine ⟨?_, free_booted h⟩
  obtain ⟨scheduler, hb, hinit, -⟩ := h
  unfold initSemaphoreManager at hinit
  split at hinit
  · cases hinit
  · rw [← Option.some.inj hinit]
    have hs : Sturdy scheduler.view := sturdy_booted hb
    exact hs

/-! ## The blocks that a call asks for -/

/-- With the answer of the heap to the request for the pid: `sem_wait` asks for one more
block, and does not get it. -/
def waitRefused (k : Kernel H) (id : Int) : Option Addr × H → Prop
  | (none, _) => True
  | (some block, heap) =>
    ((k.semaphores id).waitQueue.isSome ∧ (mm_alloc NODE_SIZE heap).1 = none) ∨
      nodeRefused (k.setHeap (addWaiter (k.semaphores id).waitQueue
        ⟨block, getPid k.scheduler⟩ heap).2).scheduler (getPid k.scheduler)

/-- The call asks the heap for a block and does not get it. -/
def allocationFails (k : Kernel H) : Call → Prop
  | .sem_create id _ => isValidSemId id = 0 ∧ (k.semaphores id).active = false ∧
      (mm_alloc LIST_SIZE k.scheduler.heap).1 = none
  | .sem_wait id _ => isValidSemId id = 0 ∧ (k.semaphores id).counter = 0 ∧
      waitRefused k id (mm_alloc PID_SIZE k.scheduler.heap)
  | _ => False

/-- Once the pid has its block, the nodes of the two queues are served and the caller can
sleep. -/
def waitSuffices (k : Kernel H) (id : Int) : Option Addr × H → Prop
  | (none, _) => True
  | (some block, heap) =>
    ¬ waitRefused k id (some block, heap) ∧
      ∀ c ∈ k.scheduler.currentProcess, canSleep k.scheduler.view c

/-- What a call needs to survive. -/
def blocksSuffice (k : Kernel H) : Call → Prop
  | .sem_create id _ => isValidSemId id = 0 → (k.semaphores id).active = false →
      (mm_alloc LIST_SIZE k.scheduler.heap).1.isSome
  | .sem_wait id _ => isValidSemId id = 0 → (k.semaphores id).counter = 0 →
      waitSuffices k id (mm_alloc PID_SIZE k.scheduler.heap)
  | _ => True

instance (k : Kernel H) (id : Int) (r : Option Addr × H) : Decidable (waitRefused k id r) :=
  match r with
  | (none, _) => isTrue trivial
  | (some _, _) => inferInstanceAs (Decidable ((_ ∧ _) ∨ nodeRefused _ _))

instance (k : Kernel H) (id : Int) (r : Option Addr × H) : Decidable (waitSuffices k id r) :=
  match r with
  | (none, _) => isTrue trivial
  | (some _, _) => inferInstanceAs (Decidable (¬ _ ∧ ∀ c ∈ k.scheduler.currentProcess, _))

instance (k : Kernel H) (c : Call) : Decidable (allocationFails k c) :=
  match c with
  | .sem_create _ _ => inferInstanceAs (Decidable (_ ∧ _ ∧ _))
  | .sem_wait _ _ => inferInstanceAs (Decidable (_ ∧ _ ∧ _))
  | .scheduler _ | .sem_destroy _ | .sem_post _ => isFalse fun hf => hf

instance (k : Kernel H) (c : Call) : Decidable (blocksSuffice k c) :=
  match c with
  | .sem_create _ _ => inferInstanceAs (Decidable (_ → _ → _))
  | .sem_wait _ _ => inferInstanceAs (Decidable (_ → _ → _))
  | .scheduler _ | .sem_destroy _ | .sem_post _ => isTrue trivial

/-- A call that is refused a block gives -1, and leaves the semaphores and the status of
its caller as they are. A `sem_wait` that gives 0 has taken a token, or its caller sleeps. -/
structure Survives (k : Kernel H) (c : Call) : Prop where
  fails : allocationFails k c → ∃ k', call k c = some (-1, k') ∧
    k'.semaphores = k.semaphores ∧
    ∀ p ∈ k.scheduler.currentProcess, k'.scheduler.status p = k.scheduler.status p
  granted : ∀ id rsp k', c = .sem_wait id rsp → call k c = some (0, k') →
    ∀ p ∈ k.scheduler.currentProcess, goesOn k'.scheduler.view p →
      (k'.semaphores id).counter + 1 = (k.semaphores id).counter

theorem sem_create_survives_iff {k : Kernel H} (id : Int) (v : Nat) :
    Survives k (.sem_create id v) ↔ blocksSuffice k (.sem_create id v) := by
  constructor
  · intro h hv ha
    by_contra hno
    have hnone : (mm_alloc LIST_SIZE k.scheduler.heap).1 = none := by simpa using hno
    obtain ⟨k', hk, hsems, -⟩ := h.fails ⟨hv, ha, hnone⟩
    rcases hheap : mm_alloc LIST_SIZE k.scheduler.heap with ⟨_ | a, heap⟩
    · have hactive : (k'.semaphores id).active = true := by
        have hc : call k (.sem_create id v) =
            some (-1, (k.setHeap heap).setSem id ⟨none, v, 0, true⟩) := by
          simp [call, sem_create, hv, ha, createDoubleLinkedListADT, hheap]
        cases hc.symm.trans hk
        simp [Kernel.setSem]
      rw [hsems, ha] at hactive
      cases hactive
    · simp [hheap] at hnone
  · intro h
    refine ⟨?_, fun _ _ _ hc => by cases hc⟩
    rintro ⟨hv, ha, hnone⟩
    have := h hv ha
    simp [hnone] at this

theorem sem_wait_survives {k : Kernel H} (h : Steady k) (id : Int) (rsp : Addr)
    (hok : blocksSuffice k (.sem_wait id rsp)) : Survives k (.sem_wait id rsp) := by
  have hways := sem_wait_ways rsp (h.free id)
  generalize hr : sem_wait k id rsp = r at hways
  cases hways with
  | invalid hv =>
    have hc : call k (.sem_wait id rsp) = _ := hr
    refine ⟨fun hf => ?_, fun j r k' _ hk => ?_⟩
    · have := hf.1
      simp [hv] at this
    · cases hc.symm.trans hk
  | token hv hcount =>
    have hc : call k (.sem_wait id rsp) = _ := hr
    refine ⟨fun hf => ?_, fun j r k' hj hk p _ _ => ?_⟩
    · have := hf.2.1
      omega
    · cases hc.symm.trans hk
      cases hj
      simp only [Kernel.setSem, Function.update_self]
      omega
  | noPid hv hcount ha =>
    have hc : call k (.sem_wait id rsp) = _ := hr
    refine ⟨fun _ => ⟨_, hc, rfl, fun _ _ => rfl⟩, fun j r k' _ hk => ?_⟩
    cases hc.symm.trans hk
  | @enters block heap heap' waitQueue hv hcount ha hq =>
    have hc : call k (.sem_wait id rsp) = _ := hr
    have hneeds := hok hv hcount
    rw [ha] at hneeds
    obtain ⟨hserved, hsleep⟩ := hneeds
    constructor
    · rintro ⟨-, -, hf⟩
      rw [ha] at hf
      exact absurd hf hserved
    · intro j r k' _ hk p hp hgo
      cases hc.symm.trans hk
      have hblock : ¬ nodeRefused (k.setHeap heap').scheduler (getPid k.scheduler) := by
        intro hno
        apply hserved
        right
        rw [hq]
        exact hno
      exact absurd hgo (block_sleeps (s := (k.setHeap heap').scheduler) h.sturdy hp hblock
        (hsleep p hp) rsp)

/-- A process that runs and survives `sem_wait` had what the call needs. -/
theorem sem_wait_needs {k : Kernel H} (h : Steady k)
    (hrun : ∀ c ∈ k.scheduler.currentProcess, k.scheduler.status c = .RUNNING) (id : Int)
    (rsp : Addr) (hs : Survives k (.sem_wait id rsp)) : blocksSuffice k (.sem_wait id rsp) := by
  intro hv hcount
  rcases ha : mm_alloc PID_SIZE k.scheduler.heap with ⟨_ | block, heap⟩
  · trivial
  rcases hq : addWaiter (k.semaphores id).waitQueue ⟨block, getPid k.scheduler⟩ heap with
    ⟨waitQueue, heap'⟩
  have hc : call k (.sem_wait id rsp) = _ := sem_wait_waits rsp hv (h.free id) hcount ha hq
  refine ⟨fun hno => ?_, fun c hcur => ?_⟩
  · have hfails : allocationFails k (.sem_wait id rsp) := by
      refine ⟨hv, hcount, ?_⟩
      rw [ha]
      exact hno
    obtain ⟨k', hk, -⟩ := hs.fails hfails
    cases hc.symm.trans hk
  · apply canSleep_of_block (s := (k.setHeap heap').scheduler) h.sturdy hcur (hrun c hcur) rsp
    intro hgo
    have htoken := hs.granted id rsp _ rfl hc c hcur hgo
    simp [Kernel.setSem] at htoken

/-- After any calls, a call survives when it has what it needs; and when its caller runs,
only then. -/
theorem semaphores_survive_exactly {boot : System H} (h : BootedSystem boot)
    (calls : List Call) (c : Call) :
    (blocksSuffice (run step boot calls).kernel c → Survives (run step boot calls).kernel c) ∧
      ((∀ p ∈ (run step boot calls).scheduler.currentProcess,
          (run step boot calls).scheduler.status p = .RUNNING) →
        Survives (run step boot calls).kernel c →
          blocksSuffice (run step boot calls).kernel c) := by
  have hsteady := steady_run h calls
  generalize run step boot calls = s at hsteady
  have hothers : ∀ c : Call, ¬ allocationFails s.kernel c →
      (∀ id rsp, c ≠ .sem_wait id rsp) → Survives s.kernel c := by
    intro c hno hne
    exact ⟨fun hf => absurd hf hno, fun id rsp _ hc => absurd hc (hne id rsp)⟩
  cases c with
  | sem_create id v =>
    have hiff := sem_create_survives_iff (k := s.kernel) id v
    exact ⟨hiff.mpr, fun _ => hiff.mp⟩
  | sem_wait id rsp => exact ⟨sem_wait_survives hsteady id rsp,
      fun hrun => sem_wait_needs hsteady hrun id rsp⟩
  | scheduler op => exact ⟨fun _ => hothers _ id (by simp), fun _ _ => trivial⟩
  | sem_destroy id => exact ⟨fun _ => hothers _ (fun hf => hf) (by simp), fun _ _ => trivial⟩
  | sem_post id => exact ⟨fun _ => hothers _ (fun hf => hf) (by simp), fun _ _ => trivial⟩

/-- The kernel on a heap of 182 blocks. -/
def kernelOn182 : Scheduler bitmap_heap.Manager :=
  (createScheduler 1 { heap_owners.smallManager with blockCount := 182 }).get (by decide +kernel)

def systemOn182 : System bitmap_heap.Manager :=
  ⟨(initSemaphoreManager kernelOn182).get (by decide +kernel), .start⟩

theorem booted_systemOn182 : BootedSystem systemOn182 := by
  refine ⟨kernelOn182, ⟨1, _, (Option.some_get _).symm, by decide +kernel⟩, ?_, ?_⟩
  · simp [systemOn182]
  · simp [systemOn182]

/-- The shell runs and creates `n` semaphores with no token. Four blocks are left for
them. -/
def shellCreates (n : Nat) : List Call :=
  [.scheduler (.createProcess 2 none 0 1 none 0), .scheduler (.schedule 3),
    .scheduler (.schedule 4)] ++ (List.range n).map fun id => .sem_create id 0

/-- With three blocks left the shell waits, and sleeps. -/
theorem a_wait_survives_on_three_blocks :
    Survives (run step systemOn182 (shellCreates 1)).kernel (.sem_wait 0 5) :=
  (semaphores_survive_exactly booted_systemOn182 (shellCreates 1) (.sem_wait 0 5)).1
    (by decide +kernel)

/-- Who has the processor after a `sem_wait` that found no token and gave 0 was let
through. -/
theorem not_survives_of_through {k : Kernel H} {id : Int} {rsp : Addr} {p : Pcb}
    (h : result k (.sem_wait id rsp) = some 0 ∧ (k.semaphores id).counter = 0 ∧
      k.scheduler.currentProcess = some p ∧
      (after k (.sem_wait id rsp)).scheduler.currentProcess = some p) :
    ¬ Survives k (.sem_wait id rsp) := by
  obtain ⟨hzero, hcount, hcaller, hruns⟩ := h
  intro hs
  rcases hc : call k (.sem_wait id rsp) with _ | ⟨r, k'⟩
  · simp [result, hc] at hzero
  · have hr : r = 0 := by simpa [result, hc] using hzero
    rw [after_some hc] at hruns
    have htoken := hs.granted id rsp k' rfl (hr ▸ hc) p hcaller (Or.inr hruns)
    omega

/-- With two blocks left `sem_wait` gives 0 to the shell and it runs on, with no token and
its pid in the queue. With none, `sem_create` gives -1 and the semaphore is in use. -/
theorem a_full_heap_lets_a_waiter_through :
    ¬ Survives (run step systemOn182 (shellCreates 2)).kernel (.sem_wait 0 5) ∧
      ¬ Survives (run step systemOn182 (shellCreates 4)).kernel (.sem_create 100 1) := by
  constructor
  · exact not_survives_of_through (p := 1) (by decide +kernel)
  · intro hs
    have hserved := (sem_create_survives_iff 100 1).mp hs
    revert hserved
    decide +kernel

end bare_bones.semaphore
