-- `scheduler.c` over a heap that may refuse any node. Each call is a sequence of
-- changes of the process table, so what the changes keep, every call keeps.
import BareBones.Bystanders
import BareBones.Changes

namespace bare_bones.scheduler

open bare_bones.doubleLinkedList bare_bones.process bare_bones.process_table
open Scheduler Table

variable {H : Type} [MemoryManager H] {ok : Pcb → Prop}

/-! ## The switch -/

/-- How the current process leaves the processor. -/
inductive Leaves (s : Scheduler H) : Table → Prop
  | stays (h : ∀ c, s.currentProcess = some c → s.status c ≠ .RUNNING) : Leaves s s.view
  | freed {c : Pcb} (hc : s.currentProcess = some c) (hst : s.status c = .TERMINATED) :
      Leaves s { s.view.free c with current := none, currentPid := NO_PROCESS }
  | requeued {c : Pcb} (hc : s.currentProcess = some c) (hst : s.status c = .RUNNING)
      (ha : (mm_alloc NODE_SIZE s.heap).1.isSome) :
      Leaves s ((s.view.queues (s.ready ++ [c]) s.blocked).mark c .READY)
  | refused {c : Pcb} (hc : s.currentProcess = some c) (hst : s.status c = .RUNNING)
      (ha : (mm_alloc NODE_SIZE s.heap).1 = none) : Leaves s (s.view.mark c .READY)

theorem addNode_isSome {α : Type} (list : DoubleLinkedList α) (x : α) (h : H) :
    (addNode list x h).1.isSome = (mm_alloc NODE_SIZE h).1.isSome := by
  unfold addNode
  split <;> simp_all

theorem addNode_heap {α : Type} (list : DoubleLinkedList α) (x : α) (h : H) :
    (addNode list x h).2.2 = (mm_alloc NODE_SIZE h).2 := by
  unfold addNode
  split <;> simp_all

theorem leaveCurrent_leaves (s : Scheduler H) (rsp : Addr) :
    Leaves s (leaveCurrent s rsp).view := by
  unfold leaveCurrent
  cases hc : s.currentProcess with
  | none => exact .stays fun c h => by simp [hc] at h
  | some c =>
    have hrsp : (s.setPcb c { s.pcb c with stackPos := rsp }).view = s.view := by
      rw [view_setPcb]
      exact congrArg (fun f => { s.view with pcb := f }) (Function.update_eq_self c s.view.pcb)
    have hst : (s.setPcb c { s.pcb c with stackPos := rsp }).status c = s.status c :=
      congrArg (fun t : Table => t.status c) hrsp
    dsimp only
    by_cases ht : s.status c = .TERMINATED
    · rw [if_pos ht]
      have := Leaves.freed hc ht
      rw [← view_free] at this
      exact this
    rw [if_neg ht, hst]
    by_cases hr : s.status c = .RUNNING
    · rw [if_pos hr]
      have hready := view_setStatus (s.setPcb c { s.pcb c with stackPos := rsp }) c .READY
      rw [hrsp] at hready
      obtain ⟨s₁, hs₁⟩ : ∃ s₁, (s.setPcb c { s.pcb c with stackPos := rsp }).setStatus c .READY =
        s₁ := ⟨_, rfl⟩
      have hlist : s₁.readyProcess = s.readyProcess ∧ s₁.heap = s.heap := hs₁ ▸ ⟨rfl, rfl⟩
      rw [hs₁] at hready ⊢
      rw [hlist.1, hlist.2]
      have hsome := addNode_isSome s.readyProcess c s.heap
      rcases ha : addNode s.readyProcess c s.heap with ⟨_ | a, r, heap⟩ <;> rw [ha] at hsome
      · have hl := Leaves.refused hc hr (by simpa using hsome.symm)
        rw [addNode_none ha, ← hlist.1]
        exact hready ▸ hl
      · have hl := Leaves.requeued hc hr hsome.symm
        rw [← show r.data = s.ready ++ [c] from addNode_some ha] at hl
        have hview : { s₁ with readyProcess := r, heap := heap }.view =
            (s.view.queues r.data s.blocked).mark c .READY := by
          calc _ = s₁.view.queues r.data s₁.view.blocked := rfl
            _ = _ := by rw [hready]; rfl
        exact hview ▸ hl
    · rw [if_neg hr, hrsp]
      exact .stays fun d hd => by cases hc.symm.trans hd; exact hr

/-- The first half of a switch, and then the dispatch. -/
theorem switch_leaves (s : Scheduler H) (rsp : Addr) (hpid : s.currentPid ≠ NO_PROCESS) :
    (switch s rsp).2.view = (leaveCurrent s rsp).view.next := by
  unfold switch
  rw [if_neg hpid]
  exact next_view (leaveCurrent s rsp) rsp

theorem switch_none (s : Scheduler H) (rsp : Addr) (hpid : s.currentPid = NO_PROCESS) :
    (switch s rsp).2.view = s.view.switch := by
  unfold switch Table.switch
  rw [if_pos hpid, if_pos (show s.view.currentPid = NO_PROCESS from hpid)]
  cases hr : s.view.ready with
  | nil =>
    rw [getFirstData_nil s.heap hr]
    dsimp only
    rw [← hr]
    rfl
  | cons p rest =>
    obtain ⟨r, h, hg, hrd⟩ := getFirstData_cons s.heap hr
    rw [hg]
    dsimp only
    rw [dispatch_view, ← hrd]
    rfl

theorem changes_next {t : Table} (hl : Left t) : Changes ok t t.next := by
  unfold Table.next
  cases hr : t.ready with
  | cons p rest => exact .single (.head hr hl)
  | nil =>
    cases hf : t.find IDLE_PID with
    | none => exact .refl
    | some i => exact .single (.fallback hr hf hl)

/-- Whoever keeps the processor for lack of a node, `ok` holds of it or it is idle
with nobody else READY. -/
def requeues (ok : Pcb → Prop) (s : Scheduler H) : Prop :=
  ∀ c, s.currentProcess = some c → s.status c = .RUNNING → (mm_alloc NODE_SIZE s.heap).1 = none →
    ok c ∨ s.ready = [] ∧ findProcess s IDLE_PID = some c

theorem changes_switch {s : Scheduler H} (h : requeues ok s) (rsp : Addr) :
    Changes ok s.view (switch s rsp).2.view := by
  by_cases hpid : s.currentPid = NO_PROCESS
  · rw [switch_none s rsp hpid]
    have hp : s.view.currentPid = NO_PROCESS := hpid
    unfold Table.switch
    rw [if_pos hp]
    split
    · rename_i p rest hr
      exact .single (.head hr (Or.inl hp))
    · rename_i hr
      exact .single (.nobody hp hr)
  · rw [switch_leaves s rsp hpid]
    have hl := leaveCurrent_leaves s rsp
    generalize (leaveCurrent s rsp).view = t at hl
    cases hl with
    | stays hs => exact changes_next (Or.inr hs)
    | freed hc hst => exact .head (.freed hc hst) (changes_next (Or.inl rfl))
    | @requeued c hc hst ha =>
      refine .head (.requeued hc hst) (changes_next (Or.inr ?_))
      intro d hd
      cases hc.symm.trans hd
      simp [status_mark]
    | @refused c hc hst ha =>
      rcases h c hc hst ha with hok | ⟨hr, hf⟩
      · refine .head (.lost hc hst hok) (changes_next (Or.inr ?_))
        intro d hd
        cases hc.symm.trans hd
        simp [status_mark]
      · have hnext : (s.view.mark c .READY).next = (s.view.mark c .READY).dispatch c := by
          unfold Table.next
          rw [show (s.view.mark c .READY).ready = [] from hr]
          dsimp only
          have hfind : (s.view.mark c .READY).find IDLE_PID = s.view.find IDLE_PID := by
            refine find_congr ?_ (fun q => pid_mark _ c q .READY) IDLE_PID
            rfl
          rw [hfind, show s.view.find IDLE_PID = some c from hf]
        rw [hnext]
        exact .single (.again hc hst hr hf)

theorem changes_schedule {s : Scheduler H}
    (h : s.processQty ≠ 0 → s.quantums ≤ 1 → requeues ok s) (rsp : Addr) :
    Changes ok s.view (schedule s rsp).2.view := by
  refine .head (.quantum (s.quantums - 1)) ?_
  unfold schedule
  dsimp only
  split
  · exact .refl
  · rename_i hs
    rw [not_or] at hs
    exact changes_switch (s := { s with quantums := s.quantums - 1 }) (h hs.1 (by omega)) rsp

theorem changes_yield {s : Scheduler H} (h : s.processQty ≠ 0 → requeues ok s) (rsp : Addr) :
    Changes ok s.view (yield s rsp).view :=
  .head (.quantum 0) (changes_schedule (s := { s with quantums := 0 }) (fun hq _ => h hq) rsp)

/-! ## The queues -/

/-- A process goes from the blocked queue to the ready one, or loses its place on
the way. -/
inductive Wakes (s : Scheduler H) : Table → Prop
  | nobody : Wakes s s.view
  | refused {p : Pcb} (hst : s.status p = .BLOCKED) (hb : p ∈ s.blocked) :
      Wakes s (s.view.queues s.ready (s.blocked.erase p))
  | woken {p : Pcb} (hp : p ∈ s.procs) (hst : s.status p = .BLOCKED) (hb : p ∈ s.blocked) :
      Wakes s ((s.view.queues (s.ready ++ [p]) (s.blocked.erase p)).mark p .READY)

theorem setReadyProcess_wakes (s : Scheduler H) (pid : Int) :
    Wakes s (setReadyProcess s pid).2.view := by
  unfold setReadyProcess
  split
  · exact .nobody
  rename_i p hf
  have hp : p ∈ s.procs := List.mem_of_find?_eq_some hf
  split
  swap
  · exact .nobody
  rename_i hst
  split
  · exact .nobody
  rename_i b h₁ hb
  obtain ⟨hmem, hbd⟩ := removeNode_some hb
  dsimp only
  split
  · have hr := Wakes.refused hst hmem
    rw [← show b.data = s.blocked.erase p from hbd] at hr
    exact hr
  · rename_i r h₂ ha
    have hw := Wakes.woken hp hst hmem
    rw [← show b.data = s.blocked.erase p from hbd,
      ← show r.data = s.ready ++ [p] from addNode_some ha] at hw
    rw [view_setStatus]
    exact hw

theorem changes_setReadyProcess (s : Scheduler H) (pid : Int) :
    Changes ok s.view (setReadyProcess s pid).2.view := by
  have hw := setReadyProcess_wakes s pid
  generalize (setReadyProcess s pid).2.view = t at hw
  cases hw with
  | nobody => exact .refl
  | refused hst hb => exact .single (.unblocked hst)
  | woken hp hst hb => exact .single (.woken hp hst hb)

theorem changes_wakeWaiters (waiters : List (Option Pcb)) (s : Scheduler H) :
    Changes ok s.view (wakeWaiters waiters s).view := by
  induction waiters generalizing s with
  | nil => exact .refl
  | cons w rest ih =>
    cases w with
    | none => exact ih s
    | some aux => exact (changes_setReadyProcess s (s.pid aux)).trans (ih _)

/-- What `blockProcess` does, by the turn of the process and the answer of the heap. -/
inductive Blocks (s : Scheduler H) (pid : Int) (rsp : Addr) : Int × Scheduler H → Prop
  | absent (hf : findProcess s pid = none) : Blocks s pid rsp (-1, s)
  | misplaced {p : Pcb} (hf : findProcess s pid = some p) (hst : s.status p = .READY)
      (hr : p ∉ s.ready) : Blocks s pid rsp (-1, s)
  | refusedReady {p : Pcb} {s' : Scheduler H} (hf : findProcess s pid = some p)
      (hst : s.status p = .READY) (hr : p ∈ s.ready)
      (ha : (mm_alloc NODE_SIZE (removeNode s.readyProcess p s.heap).2.2).1.isSome = false)
      (hv : s'.view = s.view.queues (s.ready.erase p) s.blocked) : Blocks s pid rsp (-1, s')
  | refusedRunning {p : Pcb} {s' : Scheduler H} (hf : findProcess s pid = some p)
      (hst : s.status p = .RUNNING) (ha : (mm_alloc NODE_SIZE s.heap).1.isSome = false)
      (hv : s'.view = s.view) : Blocks s pid rsp (-1, s')
  | ready {p : Pcb} {s' : Scheduler H} (hf : findProcess s pid = some p)
      (hst : s.status p = .READY) (hr : p ∈ s.ready)
      (ha : (mm_alloc NODE_SIZE (removeNode s.readyProcess p s.heap).2.2).1.isSome)
      (hv : s'.view = (s.view.queues (s.ready.erase p) (s.blocked ++ [p])).mark p .BLOCKED) :
      Blocks s pid rsp (0, if getPid s' = pid then yield s' rsp else s')
  | running {p : Pcb} {s' : Scheduler H} (hf : findProcess s pid = some p)
      (hst : s.status p = .RUNNING) (ha : (mm_alloc NODE_SIZE s.heap).1.isSome)
      (hv : s'.view = (s.view.queues s.ready (s.blocked ++ [p])).mark p .BLOCKED) :
      Blocks s pid rsp (0, if getPid s' = pid then yield s' rsp else s')
  | asleep {p : Pcb} (hf : findProcess s pid = some p) (hready : s.status p ≠ .READY)
      (hrun : s.status p ≠ .RUNNING) :
      Blocks s pid rsp (0, if getPid s = pid then yield s rsp else s)

theorem blockProcess_blocks (s : Scheduler H) (pid : Int) (rsp : Addr) :
    Blocks s pid rsp (blockProcess s pid rsp) := by
  unfold blockProcess
  cases hf : findProcess s pid with
  | none => exact .absent hf
  | some p =>
    dsimp only
    simp only [← apply_ite (Prod.mk (0 : Int))]
    by_cases hready : s.status p = .READY
    · rw [if_pos (Or.inr hready), if_pos hready]
      by_cases hr : p ∈ s.ready
      · obtain ⟨r, h₁, hrem, hrd⟩ := removeNode_of_mem s.heap hr
        have hsome := addNode_isSome s.blockedProcess p h₁
        rw [hrem]
        dsimp only
        rcases ha : addNode s.blockedProcess p h₁ with ⟨_ | a, b, h₂⟩ <;> rw [ha] at hsome
        · refine .refusedReady hf hready hr (by rw [hrem]; exact hsome.symm) ?_
          rw [← show r.data = s.ready.erase p from hrd]
          rfl
        · refine .ready hf hready hr (by rw [hrem]; exact hsome.symm) ?_
          rw [view_setStatus, ← show r.data = s.ready.erase p from hrd,
            ← show b.data = s.blocked ++ [p] from addNode_some ha]
          rfl
      · rw [removeNode_of_not_mem s.heap hr]
        exact .misplaced hf hready hr
    · by_cases hrun : s.status p = .RUNNING
      · rw [if_pos (Or.inl hrun), if_neg hready]
        dsimp only
        have hsome := addNode_isSome s.blockedProcess p s.heap
        rcases ha : addNode s.blockedProcess p s.heap with ⟨_ | a, b, h₂⟩ <;> rw [ha] at hsome
        · exact .refusedRunning hf hrun hsome.symm rfl
        · refine .running hf hrun hsome.symm ?_
          rw [view_setStatus, ← show b.data = s.blocked ++ [p] from addNode_some ha]
          rfl
      · rw [if_neg (by simp [hready, hrun])]
        exact .asleep hf hready hrun

omit [MemoryManager H] in
theorem not_running {s' : Scheduler H} {t : Table} {p : Pcb} (hv : s'.view = t.mark p .BLOCKED) :
    s'.status p ≠ .RUNNING := by
  have hst : s'.status p = .BLOCKED :=
    (congrArg (Table.status · p) hv).trans (by simp [status_mark])
  simp [hst]

/-- Who gives the processor back by a block of its own pid is not RUNNING. -/
theorem changes_block_yield {s : Scheduler H} (h : Sturdy s.view)
    (hghost : ∀ c, c ∉ s.procs → ok c) {p : Pcb} (hp : p ∈ s.procs) (hst : s.status p ≠ .RUNNING)
    (rsp : Addr) :
    Changes ok s.view (if getPid s = s.pid p then yield s rsp else s).view := by
  split
  · rename_i hcur
    refine changes_yield (fun _ c hc hrun _ => Or.inl ?_) rsp
    by_cases hcp : c ∈ s.procs
    · have hpid : s.currentPid = s.pid c := h.current c hcp hc
      have hcp : c = p := h.pid_inj c hcp p hp (hpid.symm.trans hcur)
      exact absurd hrun (hcp ▸ hst)
    · exact hghost c hcp
  · exact .refl

theorem changes_blockProcess {s : Scheduler H} (h : Sturdy s.view)
    (hghost : ∀ c, c ∉ s.procs → ok c) {pid : Int}
    (hok : ∀ p, findProcess s pid = some p → ok p) (rsp : Addr) :
    Changes ok s.view (blockProcess s pid rsp).2.view := by
  have hyield : ∀ {s' : Scheduler H} {p : Pcb}, findProcess s pid = some p →
      Changes ok s.view s'.view → s'.procs = s.procs → s'.pid p = s.pid p →
      s'.status p ≠ .RUNNING →
      Changes ok s.view (if getPid s' = pid then yield s' rsp else s').view := by
    intro s' p hf hc hprocs hpid hst
    obtain ⟨hp, rfl⟩ := findProcess_some hf
    rw [← hpid]
    exact hc.trans (changes_block_yield (sturdy_changes h hc) (hprocs ▸ hghost) (hprocs ▸ hp) hst
      rsp)
  have hb := blockProcess_blocks s pid rsp
  generalize blockProcess s pid rsp = r at hb
  cases hb with
  | absent hf => exact .refl
  | misplaced hf hst hr => exact .refl
  | refusedReady hf hst hr ha hv => exact hv ▸ .single (.unready hst (hok _ hf))
  | refusedRunning hf hst ha hv => exact hv ▸ .refl
  | @ready p s' hf hst hr ha hv =>
    have hc : Change ok s.view s'.view :=
      hv ▸ .suspended (findProcess_some hf).1 hst hr (hok p hf)
    exact hyield hf (.single hc) (congrArg Table.procs hv)
      ((congrArg (Table.pid · p) hv).trans (pid_mark _ _ _ _)) (not_running hv)
  | @running p s' hf hst ha hv =>
    have hc : Change ok s.view s'.view := hv ▸ .stopped (findProcess_some hf).1 hst (hok p hf)
    exact hyield hf (.single hc) (congrArg Table.procs hv)
      ((congrArg (Table.pid · p) hv).trans (pid_mark _ _ _ _)) (not_running hv)
  | asleep hf hready hrun => exact hyield hf .refl rfl rfl hrun

/-- The caller enters the waiting list of `target`, when a node is granted. -/
def enlist (s : Scheduler H) (target : Pcb) (caller : Option Pcb) : Scheduler H :=
  match (s.pcb target).waitingList with
  | none => s
  | some list =>
    let (_, list, heap) := addNode list caller s.heap
    { s with heap := heap }.setPcb target { s.pcb target with waitingList := some list }

theorem waitProcess_eq {s : Scheduler H} {pid : Int} {target : Pcb}
    (hf : findProcess s pid = some target) (hne : getPid s ≠ pid) (rsp : Addr) :
    waitProcess s pid rsp =
      (0, (blockProcess (enlist s target (findProcess s (getPid s))) (getPid s) rsp).2) := by
  unfold waitProcess
  dsimp only
  rw [hf]
  dsimp only
  rw [if_neg hne]
  rfl

/-- What `enlist` does: it appends the caller, or it leaves the table alone. -/
structure Enlists (s : Scheduler H) (target : Pcb) (caller : Option Pcb) (s' : Scheduler H) :
    Prop where
  heap : s'.heap = (mm_alloc NODE_SIZE s.heap).2
  view : s'.view = s.view.set target (if (mm_alloc NODE_SIZE s.heap).1.isSome then
    (s.view.pcb target).enlist caller else s.view.pcb target)

theorem enlist_enlists {s : Scheduler H} {target : Pcb}
    (h : ((s.view.pcb target).waiting).isSome) (caller : Option Pcb) :
    Enlists s target caller (enlist s target caller) := by
  have hw : (s.pcb target).waitingList.isSome := by simpa [view, entry] using h
  obtain ⟨list, hlist⟩ := Option.isSome_iff_exists.mp hw
  have hdata : (s.view.pcb target).waiting = some list.data := by simp [view, entry, hlist]
  unfold enlist
  rw [hlist]
  have hsome := addNode_isSome list caller s.heap
  have hheap := addNode_heap list caller s.heap
  dsimp only
  rcases ha : addNode list caller s.heap with ⟨_ | a, list', heap⟩ <;>
    rw [ha] at hsome hheap <;> dsimp only at hsome hheap ⊢ <;> refine ⟨hheap, ?_⟩ <;>
    rw [← hsome, view_setPcb] <;> refine congrArg (s.view.set target) ?_
  · rw [addNode_none ha]
    simp [entry, hlist, view]
  · rw [if_pos Option.isSome_some, Entry.enlist, hdata, Option.map_some, ← addNode_some ha]
    rfl

theorem Enlists.amends {s s' : Scheduler H} {target : Pcb} {caller : Option Pcb}
    (h : Enlists s target caller s') (ht : target ∈ s.procs) : Change ok s.view s'.view := by
  rw [h.view]
  refine .amended ht ?_
  split
  · exact ⟨rfl, rfl, rfl, rfl, by simp [Entry.enlist]⟩
  · exact ⟨rfl, rfl, rfl, rfl, rfl⟩

theorem waitProcess_absent {s : Scheduler H} {pid : Int}
    (h : findProcess s pid = none ∨ getPid s = pid) (rsp : Addr) :
    waitProcess s pid rsp = (-1, s) := by
  unfold waitProcess
  dsimp only
  cases hf : findProcess s pid with
  | none => rfl
  | some target => simp [h.resolve_left (by simp [hf])]

theorem Enlists.pid {s s' : Scheduler H} {target : Pcb} {caller : Option Pcb}
    (h : Enlists s target caller s') (q : Pcb) : s'.pid q = s.pid q := by
  show s'.view.pid q = s.view.pid q
  rw [h.view]
  by_cases hq : q = target
  · subst hq
    split <;> simp [Table.pid, Entry.enlist]
  · simp [Table.pid, set_pcb_ne _ hq]

theorem Enlists.findProcess {s s' : Scheduler H} {target : Pcb} {caller : Option Pcb}
    (h : Enlists s target caller s') (pid : Int) : findProcess s' pid = findProcess s pid :=
  have hprocs : s'.view.procs = s.view.procs := by rw [h.view]; rfl
  find_congr hprocs h.pid pid

theorem changes_waitProcess {s : Scheduler H} (h : Sturdy s.view)
    (hghost : ∀ c, c ∉ s.procs → ok c) (pid : Int)
    (hok : ∀ p, findProcess s (getPid s) = some p → ok p) (rsp : Addr) :
    Changes ok s.view (waitProcess s pid rsp).2.view := by
  by_cases habs : findProcess s pid = none ∨ getPid s = pid
  · rw [waitProcess_absent habs]
  rw [not_or] at habs
  obtain ⟨target, hf⟩ := Option.ne_none_iff_exists'.mp habs.1
  have ht := (findProcess_some hf).1
  have he := enlist_enlists (h.waiting target ht) (findProcess s (getPid s))
  rw [waitProcess_eq hf habs.2]
  generalize enlist s target (findProcess s (getPid s)) = s' at he ⊢
  have hc : Change ok s.view s'.view := he.amends ht
  have hprocs : s'.procs = s.procs := congrArg Table.procs he.view
  refine .head hc (changes_blockProcess (sturdy_change h hc) (hprocs ▸ hghost) ?_ rsp)
  rw [he.findProcess]
  exact hok

/-! ## The kills -/

theorem pid_wakeWaiters (waiters : List (Option Pcb)) (s : Scheduler H) (p : Pcb) :
    (wakeWaiters waiters s).pid p = s.pid p := by
  induction waiters generalizing s with
  | nil => rfl
  | cons w rest ih =>
    cases w with
    | none => exact ih s
    | some aux =>
      apply (ih _).trans
      have hw := setReadyProcess_wakes s (s.pid aux)
      show (setReadyProcess s (s.pid aux)).2.view.pid p = s.view.pid p
      generalize (setReadyProcess s (s.pid aux)).2.view = t at hw
      cases hw <;> simp

/-- A process that is in its queue goes, whatever the heap answers. -/
theorem kill_listed {s : Scheduler H} {v : Pcb} (hv : v ∈ s.procs) (hq : inItsQueue s v) :
    (kill s v).1 = 0 ∧ (kill s v).2.procs = s.procs.erase v := by
  unfold kill
  rcases leaveQueue_spec s v with ⟨s', hl, hk, -⟩ | ⟨-, hno⟩
  swap
  · exact absurd hq hno
  rw [hl]
  have hprocs := (hk.trans (keeps_wakeWaiters (s'.pcb v).waiters s')).procs
  dsimp only
  generalize wakeWaiters (s'.pcb v).waiters s' = s₁ at hprocs
  obtain ⟨l, heap, hrem, hd⟩ := removeNode_of_mem s₁.heap (hprocs ▸ hv : v ∈ s₁.procs)
  have hl : l.data = s.procs.erase v := hprocs ▸ hd
  unfold terminate
  rw [hrem]
  dsimp only
  split
  · exact ⟨rfl, hl⟩
  · exact ⟨rfl, hl⟩

/-- Out of both queues, and no waiter brings it back. -/
structure Unqueued (t : Table) (v : Pcb) : Prop where
  ready : v ∉ t.ready
  blocked : t.status v = .BLOCKED → v ∉ t.blocked

theorem unqueued_setReadyProcess {s : Scheduler H} {v : Pcb} (h : Unqueued s.view v) (pid : Int) :
    Unqueued (setReadyProcess s pid).2.view v := by
  have hw := setReadyProcess_wakes s pid
  generalize (setReadyProcess s pid).2.view = t at hw
  cases hw with
  | nobody => exact h
  | @refused p hst hb => exact ⟨h.ready, fun hv hm => h.blocked hv (List.mem_of_mem_erase hm)⟩
  | @woken p hp hst hb =>
    have hvp : v ≠ p := by
      rintro rfl
      exact h.blocked hst hb
    refine ⟨fun hm => ?_, fun hv hm => ?_⟩
    · simp only [ready_mark, ready_queues, List.mem_append, List.mem_singleton, hvp, or_false] at hm
      exact h.ready hm
    · rw [status_mark, if_neg hvp] at hv
      exact h.blocked hv (List.mem_of_mem_erase hm)

theorem unqueued_wakeWaiters {v : Pcb} (waiters : List (Option Pcb)) {s : Scheduler H}
    (h : Unqueued s.view v) : Unqueued (wakeWaiters waiters s).view v := by
  induction waiters generalizing s with
  | nil => exact h
  | cons w rest ih =>
    cases w with
    | none => exact ih h
    | some aux => exact ih (unqueued_setReadyProcess h (s.pid aux))

/-- The victim leaves its queue: it is out of both, unless it is idle. -/
structure LeavesQueue (ok : Pcb → Prop) (s : Scheduler H) (v : Pcb) (t : Table) : Prop where
  changes : Changes ok s.view t
  procs : t.procs = s.procs
  pid : ∀ p, t.pid p = s.pid p
  out : s.pid v ≠ IDLE_PID → Unqueued t v

theorem leaveQueue_leaves {s s' : Scheduler H} (h : Sturdy s.view) {v : Pcb} (hv : v ∈ s.procs)
    (hok : ok v) (hl : leaveQueue s v = some s') : LeavesQueue ok s v s'.view := by
  have hplaced : Placed s.view v := h.placed v hv
  have hview : s.view.leaveQueue v = some s'.view := by
    rw [← leaveQueue_view, hl]
    rfl
  generalize s'.view = t at hview
  unfold Table.leaveQueue at hview
  have hnr : s.view.status v ≠ .READY → v ∉ s.view.ready := fun hne hm => hne (hplaced.ready hm)
  cases hst : s.view.status v with
  | READY =>
    simp only [hst, Option.ite_none_right_eq_some, Option.some.injEq] at hview
    obtain ⟨hm, rfl⟩ := hview
    refine ⟨.single (.unready hst hok), rfl, fun _ => rfl, fun _ => ⟨?_, fun hb => ?_⟩⟩
    · have := hplaced.once
      rw [ready_queues, ← List.count_eq_zero, List.count_erase_self]
      omega
    · rw [status_queues, hst] at hb
      cases hb
  | BLOCKED =>
    simp only [hst, Option.ite_none_right_eq_some, Option.some.injEq] at hview
    obtain ⟨hm, rfl⟩ := hview
    refine ⟨.single (.unblocked hst), rfl, fun _ => rfl, fun hpid => ⟨hnr (by simp [hst]),
      fun _ => ?_⟩⟩
    have := hplaced.blocked_once hpid
    rw [blocked_queues, ← List.count_eq_zero, List.count_erase_self]
    omega
  | RUNNING | TERMINATED =>
    simp only [hst, Option.some.injEq] at hview
    subst hview
    exact ⟨.refl, rfl, fun _ => rfl, fun _ => ⟨hnr (by simp [hst]), by simp [hst]⟩⟩

theorem changes_kill {s : Scheduler H} (h : Sturdy s.view) {v : Pcb} (hv : v ∈ s.procs)
    (hok : ok v) : Changes ok s.view (kill s v).2.view := by
  unfold kill
  cases hl : leaveQueue s v with
  | none => exact .refl
  | some s' =>
    obtain ⟨hc, hprocs, hpid, hout⟩ := leaveQueue_leaves h hv hok hl
    have hk := keeps_wakeWaiters (s'.pcb v).waiters s'
    dsimp only
    apply (hc.trans (changes_wakeWaiters (s'.pcb v).waiters s')).trans
    rw [(terminate_view _ v).1]
    have hv' : v ∈ (wakeWaiters (s'.pcb v).waiters s').view.procs := by
      rw [show (wakeWaiters (s'.pcb v).waiters s').view.procs = s.procs from hk.procs.trans hprocs]
      exact hv
    refine .single (.killed hv' hok fun hne =>
      (unqueued_wakeWaiters _ (hout fun he => hne ?_)).ready)
    exact (pid_wakeWaiters (s'.pcb v).waiters s' v).trans ((hpid v).trans he)

/-- The victim and the peer that `killProcess` finds. -/
theorem changes_killProcess {s : Scheduler H} (h : Sturdy s.view) {pid : Int}
    (hok : ∀ p, findProcess s pid = some p → ok p)
    (hpeer : ∀ p fd, fd ≠ -1 → attached s p fd → ok p) :
    Changes ok s.view (killProcess s pid).2.view := by
  unfold killProcess
  cases hf : findProcess s pid with
  | none => exact .refl
  | some v =>
    have hc := changes_kill h (findProcess_some hf).1 (hok v hf)
    have ht := takes_kill s v
    dsimp only
    generalize kill s v = k at hc ht
    obtain ⟨r, s'⟩ := k
    dsimp only at hc ht ⊢
    split
    · exact hc
    split
    swap
    · exact hc
    rename_i hfd
    split
    · exact hc
    rename_i w hw
    have hatt : attached s' w (pipedFd (s.pcb v).fileDescriptors) := by
      simpa [attached] using List.find?_some hw
    have hwok : ok w := hpeer w _ hfd (by rwa [attached, ht.fds] at hatt)
    exact hc.trans (changes_kill (sturdy_changes h hc) (List.mem_of_find?_eq_some hw) hwok)

theorem changes_killForegroundProcess {s : Scheduler H} (h : Sturdy s.view)
    (hcur : ∀ c, s.currentProcess = some c → (s.pcb c).ground = 0 →
      ∀ p, findProcess s (s.pid c) = some p → ok p)
    (hground : ∀ p ∈ s.procs, (s.pcb p).ground = 0 → ok p)
    (hpeer : ∀ p fd, fd ≠ -1 → attached s p fd → ok p) :
    Changes ok s.view (killForegroundProcess s).2.view := by
  unfold killForegroundProcess
  split
  · exact .refl
  rename_i c hc
  split
  · rename_i hg
    exact changes_killProcess h (hcur c hc hg.1) hpeer
  · split
    · exact .refl
    · rename_i v hv
      have hg : (s.pcb v).ground = 0 ∧ s.pid v ≠ SHELL_PID := by simpa using List.find?_some hv
      have hvp := List.mem_of_find?_eq_some hv
      exact changes_kill h hvp (hground v hvp hg.1)

/-! ## A new process -/

/-- A new process enters the lists whose nodes are granted. -/
theorem addProcess_view_cases {s : Scheduler H} {p : Pcb} (hst : s.status p = .READY) :
    ∃ procs ready,
      (procs = s.procs ++ [p] ∧ (mm_alloc NODE_SIZE s.heap).1.isSome ∨
        procs = s.procs ∧ (mm_alloc NODE_SIZE s.heap).1.isSome = false) ∧
      (ready = s.ready ++ [p] ∧ (mm_alloc NODE_SIZE (mm_alloc NODE_SIZE s.heap).2).1.isSome ∨
        ready = s.ready ∧
          (mm_alloc NODE_SIZE (mm_alloc NODE_SIZE s.heap).2).1.isSome = false) ∧
      (addProcess s p).view =
        { s.view with procs := procs, ready := ready, qty := s.processQty + 1 } := by
  have hnode : ∀ (list : DoubleLinkedList Pcb) (h : H),
      (addNode list p h).2.1.data = list.data ++ [p] ∧ (mm_alloc NODE_SIZE h).1.isSome ∨
        (addNode list p h).2.1.data = list.data ∧ (mm_alloc NODE_SIZE h).1.isSome = false := by
    intro list h
    have hsome := addNode_isSome list p h
    rcases addNode_data list p h with ⟨hd, hs⟩ | ⟨hl, hn⟩
    · exact Or.inl ⟨hd, hsome ▸ hs⟩
    · exact Or.inr ⟨by rw [hl], by rw [← hsome, hn]; rfl⟩
  have hheap := addNode_heap s.processList p s.heap
  refine ⟨_, _, hnode s.processList s.heap, hnode s.readyProcess _, ?_⟩
  unfold addProcess
  rcases ha : addNode s.processList p s.heap with ⟨a, l, h₁⟩
  rw [ha] at hheap
  rw [← hheap]
  dsimp only
  rw [if_pos (show status { s with processList := l, heap := h₁, processQty := s.processQty + 1 }
    p = .READY from hst)]
  rfl

/-- A process that was filled in joins the lists that get a node for it. -/
theorem addProcess_filled {s s' : Scheduler H} {c : ProcessContext}
    (hv : s'.view = s.view.alloc (entry c)) (hst : c.status = .READY) :
    ∃ procs ready,
      (procs = s.procs ++ [s.pcbQty] ∧ (mm_alloc NODE_SIZE s'.heap).1.isSome ∨
        procs = s.procs ∧ (mm_alloc NODE_SIZE s'.heap).1.isSome = false) ∧
      (ready = s.ready ++ [s.pcbQty] ∧
          (mm_alloc NODE_SIZE (mm_alloc NODE_SIZE s'.heap).2).1.isSome ∨
        ready = s.ready ∧
          (mm_alloc NODE_SIZE (mm_alloc NODE_SIZE s'.heap).2).1.isSome = false) ∧
      (addProcess s' s.pcbQty).view =
        { s.view.alloc (entry c) with procs := procs, ready := ready, qty := s.view.qty + 1 } := by
  have hpcb : s'.view.pcb s.pcbQty = entry c := by
    rw [hv]
    exact set_pcb_self _ _ _
  obtain ⟨procs, ready, hp, hr, hadd⟩ := addProcess_view_cases (s := s') (p := s.pcbQty)
    ((congrArg Entry.status hpcb).trans hst)
  have hprocs : s'.procs = s.procs := congrArg Table.procs hv
  have hready : s'.ready = s.ready := congrArg Table.ready hv
  have hqty : s'.processQty = s.view.qty := congrArg Table.qty hv
  rw [hprocs] at hp
  rw [hready] at hr
  exact ⟨procs, ready, hp, hr, by rw [hadd, hv, hqty]⟩

section Creation

variable (s : Scheduler H) (rip : Addr) (args : Args) (argc : Int) (priority : Nat)
  (fds : Option (Fin CANT_FILE_DESCRIPTORS → Int)) (ground : Nat)

/-- What `createProcess` does. -/
inductive Creation : Int × Scheduler H → Prop
  | full (hqty : s.processQty ≥ MAX_PROCESS) : Creation (-1, s)
  | noBlock {s' : Scheduler H} (ha : (mm_alloc PCB_SIZE s.heap).1 = none)
      (hv : s'.view = s.view) : Creation (-1, s')
  | noPid {s' : Scheduler H} {e : Entry} (hn : (s.view.alloc e).minFreePid = none)
      (hv : s'.view = (s.view.alloc e).free s.pcbQty) : Creation (-1, s')
  | notFilled {s' : Scheduler H} {block : Addr} {heap heap' : H} {pid : Int} {c : ProcessContext}
      (ha : mm_alloc PCB_SIZE s.heap = (some block, heap))
      (hi : initializeProcess (.zeroed block) pid args argc priority rip ground fds heap =
        (-1, c, heap'))
      (hv : s'.view = (s.view.alloc (entry c)).free s.pcbQty) : Creation (-1, s')
  | created {s' : Scheduler H} {block : Addr} {heap : H} {pid : Nat} {r : Int}
      {c : ProcessContext} (hqty : s.processQty < MAX_PROCESS)
      (ha : mm_alloc PCB_SIZE s.heap = (some block, heap))
      (hn : (s.view.alloc (entry (.zeroed block))).minFreePid = some pid)
      (hi : initializeProcess (.zeroed block) pid args argc priority rip ground fds heap =
        (r, c, s'.heap)) (hr : r ≠ -1)
      (hv : s'.view = s.view.alloc (entry c)) : Creation (pid, addProcess s' s.pcbQty)

theorem createProcess_creation :
    Creation s rip args argc priority fds ground
      (createProcess s rip args argc priority fds ground) := by
  unfold createProcess
  split
  · exact .full (by assumption)
  rename_i hqty
  split
  · rename_i heap ha
    exact .noBlock (by rw [ha]) rfl
  rename_i block heap ha
  dsimp only
  have halloc : ({ s with heap := heap, pcbQty := s.pcbQty + 1 }.setPcb s.pcbQty
      (.zeroed block)).view = s.view.alloc (entry (.zeroed block)) := view_setPcb _ _ _
  have hheap : ({ s with heap := heap, pcbQty := s.pcbQty + 1 }.setPcb s.pcbQty
      (.zeroed block)).heap = heap := rfl
  have hpcb := pcb_setPcb_self { s with heap := heap, pcbQty := s.pcbQty + 1 } s.pcbQty
    (.zeroed block)
  generalize { s with heap := heap, pcbQty := s.pcbQty + 1 }.setPcb s.pcbQty
    (.zeroed block) = s₁ at halloc hheap hpcb ⊢
  split
  · rename_i hn
    have hn' : s₁.view.minFreePid = none := hn
    exact .noPid (halloc ▸ hn') (by rw [view_free, halloc])
  rename_i pid hn
  rw [hpcb, hheap]
  split
  · rename_i c h hi
    exact .notFilled ha hi (by rw [view_free, view_filled halloc])
  · rename_i r c h hr hi
    have hpid : (addProcess ({ s₁ with heap := h }.setPcb s.pcbQty c) s.pcbQty).pid s.pcbQty =
        pid := by
      rw [Scheduler.pid, pcb_addProcess, pcb_setPcb_self]
      exact (initializeProcess_filled hi hr).1
    have hn' : s₁.view.minFreePid = some pid := hn
    rw [hpid]
    exact .created (Nat.not_le.mp hqty) ha (halloc ▸ hn') hi hr (view_filled halloc h c)

end Creation

theorem changes_createProcess {s : Scheduler H} (hok : ok s.pcbQty) (rip : Addr) (args : Args)
    (argc : Int) (priority : Nat) (fds : Option (Fin CANT_FILE_DESCRIPTORS → Int))
    (ground : Nat) :
    Changes ok s.view (createProcess s rip args argc priority fds ground).2.view := by
  have hc := createProcess_creation s rip args argc priority fds ground
  generalize createProcess s rip args argc priority fds ground = r at hc
  cases hc with
  | full hqty => exact .refl
  | noBlock ha hv => exact hv ▸ .refl
  | noPid hn hv => exact hv ▸ .single (.failed _)
  | notFilled ha hi hv => exact hv ▸ .single (.failed _)
  | @created s' block heap pid r c hqty ha hn hi hr hv =>
    obtain ⟨hpid, hst, _, -, -, hwait⟩ := initializeProcess_filled hi hr
    obtain ⟨procs, ready, hp, hrd, hadd⟩ := addProcess_filled hv hst
    rw [hadd]
    exact .single (.created hn hpid hst hwait (hp.symm.imp And.left And.left)
      (hrd.symm.imp And.left And.left) (Or.inr hok))

omit [MemoryManager H] in
theorem changes_changePriority (s : Scheduler H) (pid : Int) (priority : Nat) :
    Changes ok s.view (changePriority s pid priority).2.view := by
  rcases changePriority_view s pid priority with hv | hv <;> rw [hv]
  unfold Table.setPriority
  split
  · exact .refl
  · rename_i p hf
    exact .single (.amended (Table.find_some hf).1 ⟨rfl, rfl, rfl, rfl, rfl⟩)

theorem changes_reuse (s : Scheduler H) (p : Pcb) (content : ProcessContext) :
    Changes ok s.view (exec s (.reuse p content)).view := by
  rw [exec]
  split
  · rename_i hf
    rw [view_setPcb]
    exact .single (.reused _ hf)
  · exact .refl

/-! ## Every run -/

/-- A call of the scheduler, or one of the `mm_alloc` and `mm_free` of a program. -/
inductive KernelEvent
  | call (op : Op)
  | mm_alloc (bytes : Nat)
  | mm_free (ptr : Addr)

/-- A program that takes a block or gives one back touches the heap only. -/
def onEvent (s : Scheduler H) : KernelEvent → Scheduler H
  | .call op => exec s op
  | .mm_alloc bytes => { s with heap := (mm_alloc bytes s.heap).2 }
  | .mm_free ptr => { s with heap := mm_free ptr s.heap }

theorem sturdy_exec {s : Scheduler H} (h : Sturdy s.view) (op : Op) : Sturdy (exec s op).view := by
  have htrue : ∀ {t}, Changes (fun _ => True) s.view t → Sturdy t := fun hc => sturdy_changes h hc
  have hreq : requeues (fun _ => True) s := fun _ _ _ _ => Or.inl trivial
  cases op with
  | schedule rsp => exact htrue (changes_schedule (fun _ _ => hreq) rsp)
  | yield rsp => exact htrue (changes_yield (fun _ => hreq) rsp)
  | createProcess rip args argc priority fds ground =>
    exact htrue (changes_createProcess trivial rip args argc priority fds ground)
  | blockProcess pid rsp =>
    exact htrue (changes_blockProcess h (fun _ _ => trivial) (fun _ _ => trivial) rsp)
  | setReadyProcess pid => exact htrue (changes_setReadyProcess s pid)
  | waitProcess pid rsp =>
    exact htrue (changes_waitProcess h (fun _ _ => trivial) pid (fun _ _ => trivial) rsp)
  | changePriority pid priority => exact htrue (changes_changePriority s pid priority)
  | killProcess pid =>
    exact htrue (changes_killProcess h (fun _ _ => trivial) fun _ _ _ _ => trivial)
  | killForegroundProcess =>
    exact htrue (changes_killForegroundProcess h (fun _ _ _ _ _ => trivial)
      (fun _ _ _ => trivial) fun _ _ _ _ => trivial)
  | reuse p content => exact htrue (changes_reuse s p content)

theorem sturdy_step {s : Scheduler H} (h : Sturdy s.view) (e : KernelEvent) :
    Sturdy (onEvent s e).view := by
  cases e with
  | call op => exact sturdy_exec h op
  | mm_alloc bytes => exact h
  | mm_free ptr => exact h

theorem sturdy_empty {t : Table} (h : Empty t) : Sturdy t := by
  have hno : ∀ p, p ∉ t.procs := fun p hp => by simp [h.procs] at hp
  refine ⟨by simp [h.procs], fun p hp => absurd hp (hno p), fun p hp => absurd hp (hno p),
    fun p hp => absurd hp (hno p), fun p hp => absurd hp (hno p), fun p _ => h.frees p,
    fun p hp => absurd hp (hno p), fun p hp => ?_, fun p hp => absurd hp (hno p),
    fun p hp => absurd hp (hno p), fun p hp => absurd hp (hno p)⟩
  simp [h.ready, h.blocked, h.current] at hp

theorem sturdy_booted {s : Scheduler H} (h : Booted s) : Sturdy s.view := by
  obtain ⟨rip, heap, hc, -⟩ := h
  obtain ⟨s₀, args, hempty, rfl⟩ := createScheduler_makes_idle hc
  exact sturdy_exec (sturdy_empty hempty) (.createProcess rip args 1 MIN_PRIORITY
    (some idleDescriptors) 1)

/-- In every run, whatever the heap answers. -/
theorem sturdy_run {s : Scheduler H} (h : Booted s) (events : List KernelEvent) :
    Sturdy (runs.run onEvent s events).view :=
  runs.run_keeps (I := fun s : Scheduler H => Sturdy s.view) (fun _ e hs => sturdy_step hs e)
    (sturdy_booted h) events

/-- Idle is spared by the calls of a run; `mm_alloc` and `mm_free` of a program may
come in between. -/
def eventSparesIdle (s : Scheduler H) : KernelEvent → Prop
  | .call op => sparesIdle s op
  | .mm_alloc _ | .mm_free _ => True

instance (s : Scheduler H) (e : KernelEvent) : Decidable (eventSparesIdle s e) :=
  match e with
  | .call op => inferInstanceAs (Decidable (sparesIdle s op))
  | .mm_alloc _ | .mm_free _ => isTrue trivial

theorem inv_step (hn : Serves H NODE_SIZE) (s : Scheduler H) (e : KernelEvent) (h : Inv s.view)
    (hok : eventSparesIdle s e) : Inv (onEvent s e).view := by
  cases e with
  | call op => exact inv_exec hn s op h hok
  | mm_alloc bytes => exact h
  | mm_free ptr => exact h

end bare_bones.scheduler
