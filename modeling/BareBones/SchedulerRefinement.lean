-- `scheduler.c` refines the process table: while the heap serves the nodes of
-- its lists, each call does to the table what the move of the same name does.
import BareBones.TableInvariant

namespace bare_bones.scheduler

open bare_bones.doubleLinkedList bare_bones.process bare_bones.process_table

variable {H : Type}

def entry (c : ProcessContext) : Entry :=
  ⟨c.status, c.pid, c.priority, c.ground, c.fileDescriptors,
    c.waitingList.map (·.data)⟩

/-- The process table that a scheduler holds. -/
def Scheduler.view (s : Scheduler H) : Table where
  procs := s.procs
  ready := s.ready
  blocked := s.blocked
  pcb p := entry (s.pcb p)
  current := s.currentProcess
  currentPid := s.currentPid
  qty := s.processQty
  quantums := s.quantums
  pcbQty := s.pcbQty
  frees := s.frees

open Scheduler

section
variable (s : Scheduler H)

theorem view_procs : s.view.procs = s.procs := rfl

theorem view_ready : s.view.ready = s.ready := rfl

theorem view_blocked : s.view.blocked = s.blocked := rfl

theorem view_current : s.view.current = s.currentProcess := rfl

theorem view_currentPid : s.view.currentPid = s.currentPid := rfl

theorem view_status (p : Pcb) : s.view.status p = s.status p := rfl

end

theorem entry_update (f : Pcb → ProcessContext) (p : Pcb) (c : ProcessContext) :
    (fun q => entry (Function.update f p c q)) =
      Function.update (fun q => entry (f q)) p (entry c) := by
  funext q
  by_cases h : q = p
  · subst h; simp
  · simp [h]

theorem waiters_entry (c : ProcessContext) : (entry c).waiters = c.waiters := by
  unfold Entry.waiters ProcessContext.waiters entry
  cases c.waitingList <;> rfl

theorem view_setPcb (s : Scheduler H) (p : Pcb) (c : ProcessContext) :
    (s.setPcb p c).view = s.view.set p (entry c) := by
  simp only [view, setPcb, Table.set, entry_update]
  rfl

theorem view_setStatus (s : Scheduler H) (p : Pcb) (st : ProcessState) :
    (s.setStatus p st).view = s.view.mark p st := by
  rw [setStatus, view_setPcb]
  rfl

theorem view_withQty (s : Scheduler H) (qty : Nat) :
    { s with processQty := qty }.view = { s.view with qty := qty } := rfl

theorem findProcess_view (s : Scheduler H) (pid : Int) :
    findProcess s pid = s.view.find pid := rfl

theorem dispatch_view (s : Scheduler H) (p : Pcb) :
    (dispatch s p).2.view = s.view.dispatch p := by
  simp only [dispatch, view_setStatus, Table.dispatch]
  rfl

variable [MemoryManager H]

theorem entry_freeProcess (c : ProcessContext) (h : H) :
    entry (freeProcess c h).1 = { entry c with waiting := none } := rfl

theorem view_free (s : Scheduler H) (p : Pcb) : (s.free p).view = s.view.free p := by
  simp only [view, Scheduler.free, Table.free, Table.set, entry_update, entry_freeProcess]
  rfl

/-! ## The refinement -/

theorem setReadyProcess_view (hn : Serves H NODE_SIZE) (s : Scheduler H) (pid : Int) :
    (setReadyProcess s pid).2.view = s.view.wake pid := by
  unfold setReadyProcess Table.wake
  rw [findProcess_view]
  cases s.view.find pid with
  | none => rfl
  | some p =>
    dsimp only
    by_cases hb : s.status p = .BLOCKED
    · have hb' : s.view.status p = .BLOCKED := hb
      by_cases hm : p ∈ s.blocked
      · have hm' : p ∈ s.view.blocked := hm
        obtain ⟨b, h₁, hr, hbd⟩ := removeNode_of_mem s.heap hm
        obtain ⟨a, r, h₂, ha, hrd⟩ := addNode_spec hn s.readyProcess p h₁
        simp only [hb, hb', hm', hr, ha, if_true, and_self, view_setStatus]
        simp only [view, Table.queues, procs, ready, blocked, hbd, hrd]
      · have hm' : p ∉ s.view.blocked := hm
        rw [if_pos hb, removeNode_of_not_mem s.heap hm, if_neg (fun h => hm' h.2)]
    · have hb' : ¬ (s.view.status p = .BLOCKED ∧ p ∈ s.view.blocked) := fun h => hb h.1
      rw [if_neg hb, if_neg hb']

theorem leaveCurrent_view (hn : Serves H NODE_SIZE) (s : Scheduler H) (prevRSP : Addr) :
    (leaveCurrent s prevRSP).view = s.view.leave := by
  have hrsp : ∀ p, (s.setPcb p { s.pcb p with stackPos := prevRSP }).view = s.view := by
    intro p
    rw [view_setPcb]
    have : entry { s.pcb p with stackPos := prevRSP } = s.view.pcb p := rfl
    rw [this, Table.set, Function.update_eq_self]
  unfold leaveCurrent Table.leave
  rw [view_current]
  cases s.currentProcess with
  | none => rfl
  | some p =>
    dsimp only
    by_cases ht : s.status p = .TERMINATED
    · have ht' : s.view.status p = .TERMINATED := ht
      rw [if_pos ht, if_pos ht', ← view_free]
      rfl
    · have ht' : s.view.status p ≠ .TERMINATED := ht
      rw [if_neg ht, if_neg ht']
      have hs := hrsp p
      generalize s.setPcb p { s.pcb p with stackPos := prevRSP } = s₁ at hs
      by_cases hr : s.view.status p = .RUNNING
      · have hr' : s₁.status p = .RUNNING := by
          rw [← view_status, hs]
          exact hr
        rw [if_pos hr', if_pos hr, ← hs]
        obtain ⟨a, r, h, ha, hrd⟩ := addNode_spec hn (s₁.setStatus p .READY).readyProcess p
          (s₁.setStatus p .READY).heap
        rw [ha]
        have hv := view_setStatus s₁ p .READY
        have hrd' : r.data = s₁.view.ready ++ [p] := hrd
        calc _ = (s₁.setStatus p .READY).view.queues r.data s₁.view.blocked := rfl
          _ = _ := by rw [hv, hrd']; rfl
      · have hr' : s₁.status p ≠ .RUNNING := by
          rw [← view_status, hs]
          exact hr
        rw [if_neg hr', if_neg hr, hs]

theorem next_view (s : Scheduler H) (prevRSP : Addr) :
    (match getFirstData s.readyProcess s.heap with
      | (none, readyProcess, heap) =>
        match findProcess { s with readyProcess := readyProcess, heap := heap } IDLE_PID with
        | none => (prevRSP, { s with readyProcess := readyProcess, heap := heap })
        | some idle => dispatch { s with readyProcess := readyProcess, heap := heap } idle
      | (some first, readyProcess, heap) =>
        dispatch { s with readyProcess := readyProcess, heap := heap } first).2.view =
      s.view.next := by
  unfold Table.next
  cases hr : s.view.ready with
  | nil =>
    rw [getFirstData_nil s.heap hr]
    dsimp only
    have hf : findProcess { s with readyProcess := s.readyProcess, heap := s.heap } IDLE_PID =
        s.view.find IDLE_PID := rfl
    rw [hf]
    cases s.view.find IDLE_PID with
    | none => rfl
    | some idle => exact dispatch_view s idle
  | cons p rest =>
    obtain ⟨r, h, hg, hrd⟩ := getFirstData_cons s.heap hr
    rw [hg]
    dsimp only
    rw [dispatch_view, ← hrd]
    rfl

theorem switch_view (hn : Serves H NODE_SIZE) (s : Scheduler H) (prevRSP : Addr) :
    (switch s prevRSP).2.view = s.view.switch := by
  unfold switch Table.switch
  rw [view_currentPid]
  split
  · cases hr : s.view.ready with
    | nil =>
      rw [getFirstData_nil s.heap hr]
      dsimp only
      rw [← hr]
      rfl
    | cons p rest =>
      obtain ⟨r, h, hg, hrd⟩ := getFirstData_cons s.heap hr
      rw [hg]
      dsimp only
      rw [dispatch_view, ← hrd]
      rfl
  · rw [← leaveCurrent_view hn s prevRSP]
    exact next_view (leaveCurrent s prevRSP) prevRSP

theorem schedule_view (hn : Serves H NODE_SIZE) (s : Scheduler H) (prevRSP : Addr) :
    (schedule s prevRSP).2.view = s.view.tick := by
  unfold schedule Table.tick
  dsimp only
  split
  · rw [if_pos (by assumption)]
    rfl
  · rw [if_neg (by assumption), switch_view hn]
    rfl

theorem yield_view (hn : Serves H NODE_SIZE) (s : Scheduler H) (rsp : Addr) :
    (yield s rsp).view = s.view.yield := by
  rw [yield, schedule_view hn]
  rfl
/-- A process that is out of the ready queue, or never was in it, enters the
blocked queue. -/
theorem toBlocked_view (hn : Serves H NODE_SIZE) (s : Scheduler H) (p : Pcb)
    (r : DoubleLinkedList Pcb) (heap : H) :
    ∃ a b heap', addNode s.blockedProcess p heap = (some a, b, heap') ∧
      ({ s with readyProcess := r, blockedProcess := b, heap := heap' }.setStatus p
        .BLOCKED).view =
        (s.view.queues r.data (s.view.blocked ++ [p])).mark p .BLOCKED := by
  obtain ⟨a, b, heap', ha, hbd⟩ := addNode_spec hn s.blockedProcess p heap
  refine ⟨a, b, heap', ha, ?_⟩
  rw [view_setStatus]
  have : s.view.blocked ++ [p] = b.data := hbd.symm
  rw [this]
  rfl

theorem blockProcess_view (hn : Serves H NODE_SIZE) (s : Scheduler H) (pid : Int) (rsp : Addr) :
    (blockProcess s pid rsp).2.view = s.view.block pid := by
  have hlast : ∀ s' : Scheduler H, s'.currentPid = s.currentPid →
      (if getPid s' = pid then ((0 : Int), yield s' rsp) else (0, s')).2.view =
        if s.view.currentPid = pid then s'.view.yield else s'.view := by
    intro s' hs'
    have hp : (s.view.currentPid = pid) ↔ getPid s' = pid := by rw [getPid, hs']; rfl
    by_cases h : getPid s' = pid
    · rw [if_pos h, if_pos (hp.mpr h), yield_view hn]
    · rw [if_neg h, if_neg (fun hc => h (hp.mp hc))]
  unfold blockProcess Table.block
  rw [findProcess_view]
  cases s.view.find pid with
  | none => rfl
  | some p =>
    have hst : s.view.status p = s.status p := rfl
    dsimp only
    by_cases hready : s.status p = .READY
    · rw [if_pos (Or.inr hready), if_pos hready]
      by_cases hm : p ∈ s.ready
      · have hm' : p ∈ s.view.ready := hm
        obtain ⟨r, h₁, hr, hrd⟩ := removeNode_of_mem s.heap hm
        obtain ⟨a, b, h₂, ha, hv⟩ := toBlocked_view hn s p r h₁
        simp only [hr, ha]
        refine (hlast ({ s with readyProcess := r, blockedProcess := b, heap := h₂ }.setStatus p
          .BLOCKED) rfl).trans ?_
        have hsus : s.view.suspend p =
            (s.view.queues (s.view.ready.erase p) (s.view.blocked ++ [p])).mark p .BLOCKED := by
          rw [Table.suspend, if_pos (hst.trans hready)]
        have hrd' : s.view.ready.erase p = r.data := hrd.symm
        have hguard : ¬ (s.view.status p = .READY ∧ p ∉ s.view.ready) := fun h => h.2 hm'
        rw [if_neg hguard, hsus, hrd', ← hv]
      · rw [removeNode_of_not_mem s.heap hm, if_pos ⟨hst.trans hready, hm⟩]
    · rw [if_neg (show ¬ (s.view.status p = .READY ∧ p ∉ s.view.ready) from fun h => hready h.1)]
      by_cases hrun : s.status p = .RUNNING
      · rw [if_pos (Or.inl hrun), if_neg hready]
        obtain ⟨a, b, h₂, ha, hv⟩ := toBlocked_view hn s p s.readyProcess s.heap
        simp only [ha]
        refine (hlast ({ s with readyProcess := s.readyProcess, blockedProcess := b, heap := h₂
          }.setStatus p .BLOCKED) rfl).trans ?_
        have hsus : s.view.suspend p =
            (s.view.queues s.view.ready (s.view.blocked ++ [p])).mark p .BLOCKED := by
          rw [Table.suspend, if_neg (hst ▸ hready), if_pos (hst.trans hrun)]
        rw [hsus, view_ready, ready, ← hv]
      · rw [if_neg (by simp [hready, hrun])]
        apply (hlast s rfl).trans
        have hsus : s.view.suspend p = s.view := by
          rw [Table.suspend, if_neg (hst ▸ hready), if_neg (hst ▸ hrun)]
        rw [hsus]

/-! ## The kills -/

theorem leaveQueue_view (s : Scheduler H) (p : Pcb) :
    (leaveQueue s p).map view = s.view.leaveQueue p := by
  unfold leaveQueue Table.leaveQueue
  rw [view_status]
  cases s.status p with
  | READY =>
    dsimp only
    by_cases hm : p ∈ s.ready
    · obtain ⟨r, h, hr, hrd⟩ := removeNode_of_mem s.heap hm
      have herase : s.ready.erase p = r.data := hrd.symm
      rw [hr, view_ready, if_pos hm, herase]
      rfl
    · rw [removeNode_of_not_mem s.heap hm, view_ready, if_neg hm]
      rfl
  | BLOCKED =>
    dsimp only
    by_cases hm : p ∈ s.blocked
    · obtain ⟨b, h, hb, hbd⟩ := removeNode_of_mem s.heap hm
      have herase : s.blocked.erase p = b.data := hbd.symm
      rw [hb, view_blocked, if_pos hm, herase]
      rfl
    · rw [removeNode_of_not_mem s.heap hm, view_blocked, if_neg hm]
      rfl
  | RUNNING => rfl
  | TERMINATED => rfl

theorem wakeWaiters_view (hn : Serves H NODE_SIZE) (waiters : List (Option Pcb))
    (s : Scheduler H) : (wakeWaiters waiters s).view = Table.wakeAll waiters s.view := by
  induction waiters generalizing s with
  | nil => rfl
  | cons w rest ih =>
    cases w with
    | none => exact ih s
    | some aux =>
      rw [wakeWaiters, ih, setReadyProcess_view hn]
      rfl

theorem terminate_view (s : Scheduler H) (p : Pcb) :
    (terminate s p).2.view = (s.view.terminate p).2 ∧
      ((terminate s p).1 = -1 ↔ (s.view.terminate p).1 = false) := by
  unfold terminate Table.terminate
  by_cases hm : p ∈ s.procs
  · obtain ⟨l, h, hl, hld⟩ := removeNode_of_mem s.heap hm
    rw [hl, view_procs, if_pos hm, view_current]
    have hdrop : { { s with processList := l, heap := h }.setStatus p .TERMINATED with
        processQty := (s.processQty + 2 ^ 16 - 1) % 2 ^ 16 }.view = s.view.drop p := by
      have hld' : s.view.procs.erase p = l.data := hld.symm
      rw [view_withQty, view_setStatus, Table.drop, hld']
      rfl
    by_cases hc : s.currentProcess = some p
    · rw [if_pos hc]
      dsimp only
      rw [if_pos (show (Scheduler.setStatus { s with processList := l, heap := h } p
        .TERMINATED).currentProcess = some p from hc)]
      exact ⟨hdrop, by simp⟩
    · rw [if_neg hc]
      dsimp only
      rw [if_neg (show (Scheduler.setStatus { s with processList := l, heap := h } p
        .TERMINATED).currentProcess ≠ some p from hc)]
      exact ⟨by rw [view_free]; exact congrArg (·.free p) hdrop, by simp⟩
  · rw [removeNode_of_not_mem s.heap hm, view_procs, if_neg hm]
    simp

theorem kill_view (hn : Serves H NODE_SIZE) (s : Scheduler H) (p : Pcb) :
    (kill s p).2.view = (s.view.kill p).2 ∧
      ((kill s p).1 = -1 ↔ (s.view.kill p).1 = false) := by
  unfold kill Table.kill
  rw [← leaveQueue_view]
  cases leaveQueue s p with
  | none => simp
  | some s' =>
    dsimp only [Option.map_some]
    have hw := wakeWaiters_view hn (s'.pcb p).waiters s'
    have hwait : (s'.view.pcb p).waiters = (s'.pcb p).waiters := waiters_entry (s'.pcb p)
    have ht := terminate_view (wakeWaiters (s'.pcb p).waiters s') p
    rw [hw] at ht
    rw [hwait]
    exact ht

theorem killProcess_view (hn : Serves H NODE_SIZE) (s : Scheduler H) (pid : Int) :
    (killProcess s pid).2.view = s.view.killPid pid := by
  unfold killProcess Table.killPid
  rw [findProcess_view]
  cases s.view.find pid with
  | none => rfl
  | some p =>
    obtain ⟨hv, hr⟩ := kill_view hn s p
    dsimp only
    generalize kill s p = k at hv hr ⊢
    generalize s.view.kill p = k' at hv hr ⊢
    obtain ⟨r, s'⟩ := k
    obtain ⟨ok, t'⟩ := k'
    dsimp only at hv hr ⊢
    subst hv
    cases ok with
    | false => rw [if_pos (hr.mpr rfl)]
    | true =>
      rw [if_neg (fun h => by simpa using hr.mp h)]
      have hfd : pipedFd (s.view.pcb p).fds = pipedFd (s.pcb p).fileDescriptors := rfl
      rw [hfd]
      dsimp only
      by_cases hne : pipedFd (s.pcb p).fileDescriptors = -1
      · rw [if_neg (not_not.mpr hne), if_pos hne]
      · rw [if_pos hne, if_neg hne]
        have hp : s'.view.pipedTo (pipedFd (s.pcb p).fileDescriptors) =
            pipedTo s' (pipedFd (s.pcb p).fileDescriptors) := rfl
        rw [hp]
        cases pipedTo s' (pipedFd (s.pcb p).fileDescriptors) with
        | none => rfl
        | some aux => exact (kill_view hn s' aux).1

theorem killForegroundProcess_view (hn : Serves H NODE_SIZE) (s : Scheduler H) :
    (killForegroundProcess s).2.view = s.view.killForeground := by
  unfold killForegroundProcess Table.killForeground
  rw [view_current]
  cases s.currentProcess with
  | none => rfl
  | some p =>
    dsimp only
    by_cases hg : (s.pcb p).ground = 0 ∧ s.pid p ≠ SHELL_PID
    · rw [if_pos hg, if_pos (show (s.view.pcb p).ground = 0 ∧ s.view.pid p ≠ SHELL_PID from hg)]
      exact killProcess_view hn s (s.pid p)
    · rw [if_neg hg, if_neg (show ¬((s.view.pcb p).ground = 0 ∧ s.view.pid p ≠ SHELL_PID) from hg)]
      have hf : s.view.procs.find?
            (fun p => (s.view.pcb p).ground = 0 ∧ s.view.pid p ≠ SHELL_PID) =
          s.procs.find? (fun p => (s.pcb p).ground = 0 ∧ s.pid p ≠ SHELL_PID) := rfl
      rw [hf]
      cases s.procs.find? (fun p => (s.pcb p).ground = 0 ∧ s.pid p ≠ SHELL_PID) with
      | none => rfl
      | some aux => exact (kill_view hn s aux).1

/-! ## The other calls -/

omit [MemoryManager H] in
theorem changePriority_view (s : Scheduler H) (pid : Int) (priority : Nat) :
    (changePriority s pid priority).2.view = s.view ∨
      (changePriority s pid priority).2.view = s.view.setPriority pid priority := by
  unfold changePriority Table.setPriority
  split
  · exact Or.inl rfl
  · refine Or.inr ?_
    rw [findProcess_view]
    cases s.view.find pid with
    | none => rfl
    | some p => exact view_setPcb s p _

theorem waitProcess_view (hn : Serves H NODE_SIZE) (s : Scheduler H) (pid : Int) (rsp : Addr) :
    (waitProcess s pid rsp).2.view = s.view.wait pid := by
  unfold waitProcess Table.wait
  rw [findProcess_view]
  cases s.view.find pid with
  | none => rfl
  | some target =>
    dsimp only
    by_cases hself : getPid s = pid
    · rw [if_pos hself, if_pos (show s.view.currentPid = pid from hself)]
    · rw [if_neg hself, if_neg (show s.view.currentPid ≠ pid from hself)]
      dsimp only
      rw [blockProcess_view hn]
      apply congrArg (Table.block · s.view.currentPid)
      have hwait : (s.view.pcb target).waiting = (s.pcb target).waitingList.map (·.data) := rfl
      unfold Entry.enlist
      rw [hwait]
      cases hw : (s.pcb target).waitingList with
      | none =>
        rw [hw] at hwait
        have he : { s.view.pcb target with waiting := none } = s.view.pcb target :=
          congrArg (fun w => { s.view.pcb target with waiting := w }) hwait.symm
        dsimp only [Option.map_none]
        rw [he, Table.set, Function.update_eq_self]
      | some list =>
        obtain ⟨a, list', heap, ha, hd⟩ := addNode_spec hn list (findProcess s (getPid s)) s.heap
        dsimp only [Option.map_some]
        rw [ha]
        dsimp only
        rw [view_setPcb, show list.data ++ [s.view.find s.view.currentPid] = list'.data
          from hd.symm]
        rfl

omit [MemoryManager H] in
/-- A PCB that was just taken may be filled in at once. -/
theorem alloc_set (t : Table) (e e' : Entry) : (t.alloc e).set t.pcbQty e' = t.alloc e' := by
  simp only [Table.alloc, Table.set, Function.update_idem]

omit [MemoryManager H] in
/-- The PCB that `createProcess` took is filled in, whatever the heap gave on the way. -/
theorem view_filled {s s₁ : Scheduler H} {e : Entry} (halloc : s₁.view = s.view.alloc e) (h : H)
    (c : ProcessContext) :
    ({ s₁ with heap := h }.setPcb s.pcbQty c).view = s.view.alloc (entry c) := by
  rw [view_setPcb, show view { s₁ with heap := h } = s₁.view from rfl, halloc]
  exact alloc_set s.view _ _

theorem addProcess_view (hn : Serves H NODE_SIZE) (s : Scheduler H) (p : Pcb)
    (hst : s.status p = .READY) : (addProcess s p).view = s.view.join p := by
  obtain ⟨a, l, h₁, ha, hld⟩ := addNode_spec hn s.processList p s.heap
  obtain ⟨a', r, h₂, ha', hrd⟩ := addNode_spec hn s.readyProcess p h₁
  have hld' : s.view.procs ++ [p] = l.data := hld.symm
  have hrd' : s.view.ready ++ [p] = r.data := hrd.symm
  unfold addProcess
  rw [ha]
  dsimp only
  rw [if_pos (show status { s with processList := l, heap := h₁, processQty := s.processQty + 1 }
    p = .READY from hst), ha', Table.join, hld', hrd']
  rfl

/-- `createProcess`, seen from the table: it may fail at any of its
allocations but for those of list nodes. -/
theorem createProcess_view (hn : Serves H NODE_SIZE) (s : Scheduler H) (rip : Addr) (args : Args)
    (argc : Int) (priority : Nat) (fds : Option (Fin CANT_FILE_DESCRIPTORS → Int))
    (ground : Nat) :
    Table.Creates (fds.getD (fun i => i.val)) ground s.view
      (createProcess s rip args argc priority fds ground).2.view := by
  unfold createProcess
  split
  · exact .refused
  rename_i hqty
  split
  · exact .refused
  rename_i block heap _
  dsimp only
  have halloc : ({ s with heap := heap, pcbQty := s.pcbQty + 1 }.setPcb s.pcbQty
      (.zeroed block)).view = s.view.alloc (entry (.zeroed block)) := view_setPcb _ _ _
  generalize { s with heap := heap, pcbQty := s.pcbQty + 1 }.setPcb s.pcbQty
    (.zeroed block) = s₁ at halloc ⊢
  split
  · rw [view_free, halloc]
    exact .failed _
  rename_i pid hpid
  have hpid' : (s.view.alloc (entry (.zeroed block))).minFreePid = some pid := halloc ▸ hpid
  split
  · rw [view_free, view_filled halloc]
    exact .failed _
  rename_i r c h hr hi
  obtain ⟨hcpid, hst, _, hground, hfds, hwait⟩ := initializeProcess_filled hi hr
  dsimp only
  rw [addProcess_view hn _ _ (by simpa [status, setPcb] using hst), view_filled halloc]
  exact .created _ _ pid (Nat.not_le.mp hqty) hpid' hcpid hst hfds hground hwait

end bare_bones.scheduler
