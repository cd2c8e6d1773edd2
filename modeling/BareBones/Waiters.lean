-- The waiting lists. A process keeps pointers to the PCBs that wait for its
-- end, and nothing takes a pointer out when the waiter is killed first.
import BareBones.SchedulerPartition

namespace bare_bones.scheduler

open bare_bones.doubleLinkedList bare_bones.process runs

open Scheduler

variable {H : Type}

/-- Each waiter of a live process is a PCB that is not freed, of a process of
the list. -/
def NoDangling (s : Scheduler H) : Prop :=
  ∀ p ∈ s.procs, ∀ w ∈ (s.pcb p).waiters, ∃ a, w = some a ∧ s.frees a = 0 ∧ a ∈ s.procs

/-! ## What a call kills -/

/-- `process` is in the queue that its status names, so `kill` goes through. -/
def inItsQueue (s : Scheduler H) (process : Pcb) : Prop :=
  (s.status process = .READY → process ∈ s.ready) ∧
    (s.status process = .BLOCKED → process ∈ s.blocked)

instance (s : Scheduler H) (process : Pcb) : Decidable (inItsQueue s process) := by
  unfold inItsQueue
  infer_instance

/-- The process at the other end of the pipe of `process`, once that left the
process list. -/
def pipedPeer (s : Scheduler H) (process : Pcb) : Option Pcb :=
  let fd := pipedFd (s.pcb process).fileDescriptors
  if fd = -1 then none
  else (s.procs.erase process).find? (fun p =>
    (s.pcb p).fileDescriptors STDIN = fd ∨ (s.pcb p).fileDescriptors STDOUT = fd)

/-- Who `killProcess` kills, in order. -/
def victims (s : Scheduler H) (pid : Int) : List Pcb :=
  match findProcess s pid with
  | none => []
  | some process =>
    if inItsQueue s process then process :: (pipedPeer s process).toList else []

/-- Who `killForegroundProcess` kills, in order. -/
def foregroundVictims (s : Scheduler H) : List Pcb :=
  match s.currentProcess with
  | none => []
  | some current =>
    if (s.pcb current).ground = 0 ∧ s.pid current ≠ SHELL_PID then victims s (s.pid current)
    else
      ((s.procs.find? (fun p => (s.pcb p).ground = 0 ∧ s.pid p ≠ SHELL_PID)).toList).filter
        (fun p => inItsQueue s p)

/-- Each of the victims, in the order in which they go, is in no waiting list
of the processes that are left. -/
def unawaited (s : Scheduler H) : List Pcb → List Pcb → Prop
  | [], _ => True
  | v :: victims, left =>
    (∀ q ∈ left.erase v, some v ∉ (s.pcb q).waiters) ∧ unawaited s victims (left.erase v)

instance decidableUnawaited (s : Scheduler H) :
    ∀ victims left, Decidable (unawaited s victims left)
  | [], _ => isTrue trivial
  | v :: victims, left =>
    have := decidableUnawaited s victims (left.erase v)
    inferInstanceAs (Decidable ((∀ q ∈ left.erase v, some v ∉ (s.pcb q).waiters) ∧ _))

/-- No process that waits for another one is killed, and `waitProcess` is
called by a process of the list. -/
def sparesWaiters (s : Scheduler H) : Op → Prop
  | .killProcess pid => unawaited s (victims s pid) s.procs
  | .killForegroundProcess => unawaited s (foregroundVictims s) s.procs
  | .waitProcess pid _ =>
    (findProcess s pid).isSome → getPid s ≠ pid → (findProcess s (getPid s)).isSome
  | _ => True

instance (s : Scheduler H) (op : Op) : Decidable (sparesWaiters s op) :=
  match op with
  | .killProcess pid => inferInstanceAs (Decidable (unawaited s (victims s pid) s.procs))
  | .killForegroundProcess =>
    inferInstanceAs (Decidable (unawaited s (foregroundVictims s) s.procs))
  | .waitProcess pid _ => inferInstanceAs (Decidable
      ((findProcess s pid).isSome → getPid s ≠ pid → (findProcess s (getPid s)).isSome))
  | .createProcess .. | .setReadyProcess _ | .blockProcess .. | .changePriority ..
  | .schedule _ | .yield _ | .reuse .. => isTrue trivial

section Kills

variable [MemoryManager H]

/-- The calls of `kill` that `killProcess` makes, each with the state it is
made in. -/
def kills (s : Scheduler H) (pid : Int) : List (Scheduler H × Pcb) :=
  match findProcess s pid with
  | none => []
  | some process =>
    let fd := pipedFd (s.pcb process).fileDescriptors
    let (result, s') := kill s process
    if result = -1 ∨ fd = -1 then [(s, process)]
    else (s, process) :: (pipedTo s' fd).toList.map (fun aux => (s', aux))

def foregroundKills (s : Scheduler H) : List (Scheduler H × Pcb) :=
  match s.currentProcess with
  | none => []
  | some current =>
    if (s.pcb current).ground = 0 ∧ s.pid current ≠ SHELL_PID then kills s (s.pid current)
    else
      ((s.procs.find? (fun p => (s.pcb p).ground = 0 ∧ s.pid p ≠ SHELL_PID)).toList).map
        (fun aux => (s, aux))

/-- The loop of `kill` reads `aux->pid` of PCBs only that are not freed. -/
def loopReadsLive (kills : List (Scheduler H × Pcb)) : Prop :=
  ∀ k ∈ kills, ∀ w ∈ (k.1.pcb k.2).waiters, ∀ aux, w = some aux → k.1.frees aux = 0

def readsLive (s : Scheduler H) : Op → Prop
  | .killProcess pid => loopReadsLive (kills s pid)
  | .killForegroundProcess => loopReadsLive (foregroundKills s)
  | _ => True

end Kills

/-! ## The invariant -/

/-- The PCBs that a switch may reach. -/
def Reaches (s : Scheduler H) (p : Pcb) : Prop :=
  p ∈ s.procs ∨ p ∈ s.ready ∨ s.currentProcess = some p

/-- It holds whatever the heap answers. -/
structure Tidy (s : Scheduler H) : Prop where
  procs_nodup : s.procs.Nodup
  alive : ∀ p ∈ s.procs, s.status p ≠ .TERMINATED
  live : ∀ p ∈ s.procs, s.frees p = 0
  known : ∀ p, Reaches s p → p < s.pcbQty
  fresh : ∀ p, s.pcbQty ≤ p → s.frees p = 0
  waiters : ∀ p ∈ s.procs, ∀ w ∈ (s.pcb p).waiters, ∃ a ∈ s.procs, w = some a

theorem Tidy.noDangling {s : Scheduler H} (h : Tidy s) : NoDangling s := by
  intro p hp w hw
  obtain ⟨a, ha, rfl⟩ := h.waiters p hp w hw
  exact ⟨a, rfl, h.live a ha, ha⟩

/-- `s'` differs from `s` in the heap, the queues, statuses of live processes
and the current process only. -/
structure Keeps (s s' : Scheduler H) : Prop where
  procs : s'.procs = s.procs
  pcbQty : s'.pcbQty = s.pcbQty
  frees : s'.frees = s.frees
  reaches : ∀ p, Reaches s' p → Reaches s p
  alive : ∀ p, s'.status p = .TERMINATED → s.status p = .TERMINATED
  waiters : ∀ p, (s'.pcb p).waiters = (s.pcb p).waiters
  fds : ∀ p, (s'.pcb p).fileDescriptors = (s.pcb p).fileDescriptors

theorem Keeps.refl (s : Scheduler H) : Keeps s s :=
  ⟨rfl, rfl, rfl, fun _ h => h, fun _ h => h, fun _ => rfl, fun _ => rfl⟩

theorem Keeps.trans {s₁ s₂ s₃ : Scheduler H} (h : Keeps s₁ s₂) (h' : Keeps s₂ s₃) :
    Keeps s₁ s₃ where
  procs := h'.procs.trans h.procs
  pcbQty := h'.pcbQty.trans h.pcbQty
  frees := h'.frees.trans h.frees
  reaches p hp := h.reaches p (h'.reaches p hp)
  alive p hp := h.alive p (h'.alive p hp)
  waiters p := (h'.waiters p).trans (h.waiters p)
  fds p := (h'.fds p).trans (h.fds p)

theorem Tidy.of_keeps {s s' : Scheduler H} (h : Tidy s) (hk : Keeps s s') : Tidy s' where
  procs_nodup := hk.procs ▸ h.procs_nodup
  alive p hp ht := h.alive p (hk.procs ▸ hp) (hk.alive p ht)
  live p hp := by rw [hk.frees]; exact h.live p (hk.procs ▸ hp)
  known p hp := by rw [hk.pcbQty]; exact h.known p (hk.reaches p hp)
  fresh p hp := by rw [hk.frees]; exact h.fresh p (hk.pcbQty ▸ hp)
  waiters p hp w hw := by
    rw [hk.waiters] at hw
    rw [hk.procs] at hp ⊢
    exact h.waiters p hp w hw

theorem keeps_setPcb (s : Scheduler H) {p : Pcb} {c : ProcessContext}
    (hst : c.status = .TERMINATED → s.status p = .TERMINATED)
    (hw : c.waiters = (s.pcb p).waiters) (hfd : c.fileDescriptors = (s.pcb p).fileDescriptors) :
    Keeps s (s.setPcb p c) := by
  refine ⟨rfl, rfl, rfl, fun _ h => h, ?_, ?_, ?_⟩ <;> intro q <;> by_cases hq : q = p
  · subst hq; simpa [status, setPcb] using hst
  · simp [status, setPcb, hq]
  · subst hq; simpa [setPcb] using hw
  · simp [setPcb, hq]
  · subst hq; simpa [setPcb] using hfd
  · simp [setPcb, hq]

theorem keeps_setStatus (s : Scheduler H) (p : Pcb) {st : ProcessState} (h : st ≠ .TERMINATED) :
    Keeps s (s.setStatus p st) := keeps_setPcb s (fun ht => absurd ht h) rfl rfl

/-- New queues, with nobody in the ready queue that was out of reach. -/
theorem keeps_queues (s : Scheduler H) {r b : DoubleLinkedList Pcb} {h : H}
    (hr : ∀ p ∈ r.data, Reaches s p) :
    Keeps s { s with readyProcess := r, blockedProcess := b, heap := h } := by
  refine ⟨rfl, rfl, rfl, ?_, fun _ h => h, fun _ => rfl, fun _ => rfl⟩
  rintro p (hp | hp | hp)
  · exact Or.inl hp
  · exact hr p hp
  · exact Or.inr (Or.inr hp)

variable [MemoryManager H]

theorem mem_addNode {list : DoubleLinkedList Pcb} {x y : Pcb} {h : H}
    (hy : y ∈ (addNode list x h).2.1.data) : y ∈ list.data ∨ y = x := by
  rcases addNode_data list x h with ⟨hd, _⟩ | ⟨he, _⟩
  · rw [hd, List.mem_append, List.mem_singleton] at hy
    exact hy
  · rw [he] at hy
    exact Or.inl hy

theorem mem_removeNode {list : DoubleLinkedList Pcb} {x y : Pcb} {h : H}
    (hy : y ∈ (removeNode list x h).2.1.data) : y ∈ list.data := by
  by_cases hx : x ∈ list.data
  · obtain ⟨l', h', hr, hd⟩ := removeNode_of_mem h hx
    rw [hr] at hy
    exact List.mem_of_mem_erase (hd ▸ hy)
  · rw [removeNode_of_not_mem h hx] at hy
    exact hy

/-! ## The calls that keep the process list -/

theorem keeps_setReadyProcess (s : Scheduler H) (pid : Int) :
    Keeps s (setReadyProcess s pid).2 := by
  unfold setReadyProcess
  split
  · exact .refl s
  rename_i p hf
  have hp : p ∈ s.procs := List.mem_of_find?_eq_some hf
  split
  swap
  · exact .refl s
  split
  · exact .refl s
  rename_i b h₁ hb
  dsimp only
  split
  · rename_i h₂ ha
    exact keeps_queues s (fun q hq => Or.inr (Or.inl hq))
  · rename_i r h₂ ha
    refine (keeps_queues s (fun q hq => ?_)).trans (keeps_setStatus _ p (by simp))
    have hq' : q ∈ (addNode s.readyProcess p h₁).2.1.data := by rw [ha]; exact hq
    rcases mem_addNode hq' with hm | rfl
    · exact Or.inr (Or.inl hm)
    · exact Or.inl hp

theorem keeps_wakeWaiters (waiters : List (Option Pcb)) (s : Scheduler H) :
    Keeps s (wakeWaiters waiters s) := by
  induction waiters generalizing s with
  | nil => exact .refl s
  | cons w rest ih =>
    cases w with
    | none => exact ih s
    | some aux => exact (keeps_setReadyProcess s (s.pid aux)).trans (ih _)

omit [MemoryManager H] in
theorem Keeps.dispatch {s s' : Scheduler H} (h : Keeps s s') {p : Pcb} (hp : Reaches s p) :
    Keeps s (dispatch s' p).2 := by
  have h' : Keeps s { s' with
      currentProcess := some p, currentPid := s'.pid p, quantums := (s'.pcb p).priority } := by
    refine ⟨h.procs, h.pcbQty, h.frees, ?_, h.alive, h.waiters, h.fds⟩
    rintro q (hq | hq | hq)
    · exact h.reaches q (Or.inl hq)
    · exact h.reaches q (Or.inr (Or.inl hq))
    · cases hq
      exact hp
  exact h'.trans (keeps_setStatus _ p (by simp))

/-- Whatever `getFirstData` answers, it adds nobody to the ready queue, and
who it takes was in it. -/
theorem keeps_getFirstData (s : Scheduler H) :
    ∃ o r h, getFirstData s.readyProcess s.heap = (o, r, h) ∧
      Keeps s { s with readyProcess := r, heap := h } ∧ ∀ p, o = some p → Reaches s p := by
  cases hr : s.ready with
  | nil =>
    exact ⟨none, _, _, getFirstData_nil s.heap hr, .refl s, fun p hp => by cases hp⟩
  | cons p rest =>
    obtain ⟨r, h, hg, hd⟩ := getFirstData_cons s.heap hr
    have hmem : ∀ q ∈ p :: rest, Reaches s q := fun q hq => Or.inr (Or.inl (hr ▸ hq))
    refine ⟨some p, r, h, hg, ?_, fun q hq => ?_⟩
    · exact keeps_queues s (fun q hq => hmem q (List.mem_cons_of_mem p (hd ▸ hq)))
    · cases hq
      exact hmem p List.mem_cons_self

theorem tidy_free {s : Scheduler H} (h : Tidy s) {p : Pcb} (hp : p ∉ s.procs)
    (hk : p < s.pcbQty) : Tidy (s.free p) := by
  have hne : ∀ q ∈ s.procs, q ≠ p := fun q hq he => hp (he ▸ hq)
  refine ⟨h.procs_nodup, ?_, ?_, h.known, ?_, ?_⟩
  · intro q hq
    simpa [Scheduler.free, status, hne q hq] using h.alive q hq
  · intro q hq
    simpa [Scheduler.free, hne q hq] using h.live q hq
  · intro q hq
    have hqp : q ≠ p := fun he => absurd hk (Nat.not_lt.mpr (he ▸ hq))
    simpa [Scheduler.free, hqp] using h.fresh q hq
  · intro q hq w hw
    rw [show (s.free p).pcb q = s.pcb q by simp [Scheduler.free, hne q hq]] at hw
    exact h.waiters q hq w hw

theorem tidy_leaveCurrent {s : Scheduler H} (h : Tidy s) (prevRSP : Addr) :
    Tidy (leaveCurrent s prevRSP) := by
  unfold leaveCurrent
  split
  · exact h
  rename_i current hcur
  split
  · rename_i ht
    have hnp : current ∉ s.procs := fun hm => h.alive current hm ht
    have hf := tidy_free h hnp (h.known current (Or.inr (Or.inr hcur)))
    refine ⟨hf.procs_nodup, hf.alive, hf.live, ?_, hf.fresh, hf.waiters⟩
    rintro p (hp | hp | hp)
    · exact hf.known p (Or.inl hp)
    · exact hf.known p (Or.inr (Or.inl hp))
    · cases hp
  · have hrsp : Keeps s (s.setPcb current { s.pcb current with stackPos := prevRSP }) :=
      keeps_setPcb s id rfl rfl
    dsimp only
    split
    · have hready := hrsp.trans (keeps_setStatus _ current (by simp : ProcessState.READY ≠ _))
      refine h.of_keeps (hready.trans (keeps_queues _ (fun q hq => ?_)))
      rcases mem_addNode hq with hm | rfl
      · exact Or.inr (Or.inl hm)
      · exact Or.inr (Or.inr hcur)
    · exact h.of_keeps hrsp

theorem tidy_switch {s : Scheduler H} (h : Tidy s) (prevRSP : Addr) :
    Tidy (switch s prevRSP).2 := by
  unfold switch
  split
  · obtain ⟨o, r, heap, hg, hk, ho⟩ := keeps_getFirstData s
    rw [hg]
    cases o with
    | none =>
      refine h.of_keeps (hk.trans ⟨rfl, rfl, rfl, ?_, fun _ h => h, fun _ => rfl, fun _ => rfl⟩)
      rintro p (hp | hp | hp)
      · exact Or.inl hp
      · exact Or.inr (Or.inl hp)
      · cases hp
    | some p => exact h.of_keeps (hk.dispatch (ho p rfl))
  · have hl := tidy_leaveCurrent h prevRSP
    dsimp only
    generalize leaveCurrent s prevRSP = s₁ at hl
    obtain ⟨o, r, heap, hg, hk, ho⟩ := keeps_getFirstData s₁
    rw [hg]
    cases o with
    | none =>
      dsimp only
      split
      · exact hl.of_keeps hk
      · rename_i idle hf
        exact hl.of_keeps (hk.dispatch (Or.inl (List.mem_of_find?_eq_some hf)))
    | some p => exact hl.of_keeps (hk.dispatch (ho p rfl))

theorem tidy_schedule {s : Scheduler H} (h : Tidy s) (prevRSP : Addr) :
    Tidy (schedule s prevRSP).2 := by
  have hq : ∀ q : Int, Tidy { s with quantums := q } := fun q =>
    ⟨h.procs_nodup, h.alive, h.live, h.known, h.fresh, h.waiters⟩
  unfold schedule
  dsimp only
  split
  · exact hq _
  · exact tidy_switch (hq _) prevRSP

theorem tidy_yield {s : Scheduler H} (h : Tidy s) (rsp : Addr) : Tidy (yield s rsp) :=
  tidy_schedule (s := { s with quantums := 0 })
    ⟨h.procs_nodup, h.alive, h.live, h.known, h.fresh, h.waiters⟩ rsp

theorem tidy_blockProcess {s : Scheduler H} (h : Tidy s) (pid : Int) (rsp : Addr) :
    Tidy (blockProcess s pid rsp).2 := by
  have hlast : ∀ s' : Scheduler H, Tidy s' →
      Tidy (if getPid s' = pid then ((0 : Int), yield s' rsp) else (0, s')).2 := by
    intro s' hs'
    split
    · exact tidy_yield hs' rsp
    · exact hs'
  unfold blockProcess
  split
  · exact h
  rename_i p hf
  split
  swap
  · exact hlast s h
  split
  · exact h
  rename_i o r h₁ hr
  have hready : ∀ q ∈ r.data, Reaches s q := by
    intro q hq
    split at hr
    · have hq' : q ∈ (removeNode s.readyProcess p s.heap).2.1.data := by rw [hr]; exact hq
      exact Or.inr (Or.inl (mem_removeNode hq'))
    · cases hr
      exact Or.inr (Or.inl hq)
  dsimp only
  split
  · exact h.of_keeps (keeps_queues s hready)
  · exact hlast _ (h.of_keeps ((keeps_queues s hready).trans (keeps_setStatus _ p (by simp))))

/-! ## The kills -/

theorem leaveQueue_spec (s : Scheduler H) (p : Pcb) :
    (∃ s', leaveQueue s p = some s' ∧ Keeps s s' ∧ inItsQueue s p) ∨
      (leaveQueue s p = none ∧ ¬ inItsQueue s p) := by
  unfold leaveQueue inItsQueue
  cases hst : s.status p with
  | READY =>
    by_cases hm : p ∈ s.ready
    · obtain ⟨r, h, hr, hd⟩ := removeNode_of_mem s.heap hm
      rw [hr]
      refine Or.inl ⟨_, rfl, keeps_queues s (fun q hq => ?_), by simp [hm]⟩
      exact Or.inr (Or.inl (List.mem_of_mem_erase (hd ▸ hq)))
    · rw [removeNode_of_not_mem s.heap hm]
      exact Or.inr ⟨rfl, by simp [hm]⟩
  | BLOCKED =>
    by_cases hm : p ∈ s.blocked
    · obtain ⟨b, h, hb, hd⟩ := removeNode_of_mem s.heap hm
      rw [hb]
      exact Or.inl ⟨_, rfl, keeps_queues s (fun q hq => Or.inr (Or.inl hq)), by simp [hm]⟩
    · rw [removeNode_of_not_mem s.heap hm]
      exact Or.inr ⟨rfl, by simp [hm]⟩
  | RUNNING => exact Or.inl ⟨s, rfl, .refl s, by simp⟩
  | TERMINATED => exact Or.inl ⟨s, rfl, .refl s, by simp⟩

/-- The death of `v` as its table sees it: `v` is gone, and the others keep
their waiters and their descriptors. -/
structure Buries (v : Pcb) (s s' : Scheduler H) : Prop where
  tidy : Tidy s'
  procs : s'.procs = s.procs.erase v
  waiters : ∀ p ∈ s'.procs, (s'.pcb p).waiters = (s.pcb p).waiters
  fds : ∀ p ∈ s'.procs, (s'.pcb p).fileDescriptors = (s.pcb p).fileDescriptors

theorem buries_terminate {s : Scheduler H} (h : Tidy s) {v : Pcb} (hv : v ∈ s.procs)
    (hu : ∀ q ∈ s.procs.erase v, some v ∉ (s.pcb q).waiters) :
    (terminate s v).1 = 0 ∧ Buries v s (terminate s v).2 := by
  obtain ⟨l, heap, hl, hd⟩ := removeNode_of_mem s.heap hv
  have hmem : ∀ q, q ∈ s.procs.erase v ↔ q ≠ v ∧ q ∈ s.procs := fun q =>
    h.procs_nodup.mem_erase_iff
  let s₁ : Scheduler H := { s with
    processList := l, heap := heap, processQty := (s.processQty + 2 ^ 16 - 1) % 2 ^ 16,
    pcb := Function.update s.pcb v { s.pcb v with status := .TERMINATED } }
  have hpcb : ∀ q ∈ s.procs.erase v, s₁.pcb q = s.pcb q := fun q hq =>
    Function.update_of_ne ((hmem q).mp hq).1 _ _
  have hprocs : s₁.procs = s.procs.erase v := hd
  have hknown : ∀ p, Reaches s₁ p → p < s₁.pcbQty := by
    rintro p (hp | hp | hp)
    · exact h.known p (Or.inl ((hmem p).mp (hprocs ▸ hp)).2)
    · exact h.known p (Or.inr (Or.inl hp))
    · exact h.known p (Or.inr (Or.inr hp))
  have h₁ : Tidy s₁ := by
    refine ⟨hprocs ▸ h.procs_nodup.erase v, ?_, ?_, hknown, h.fresh, ?_⟩
    · intro p hp
      rw [hprocs] at hp
      rw [status, hpcb p hp]
      exact h.alive p ((hmem p).mp hp).2
    · intro p hp
      exact h.live p ((hmem p).mp (hprocs ▸ hp)).2
    · intro p hp w hw
      rw [hprocs] at hp ⊢
      rw [hpcb p hp] at hw
      obtain ⟨a, ha, rfl⟩ := h.waiters p ((hmem p).mp hp).2 w hw
      exact ⟨a, (hmem a).mpr ⟨fun he => hu p hp (he ▸ hw), ha⟩, rfl⟩
  have hb : Buries v s s₁ := ⟨h₁, hprocs, fun p hp => congrArg _ (hpcb p (hprocs ▸ hp)),
    fun p hp => congrArg _ (hpcb p (hprocs ▸ hp))⟩
  have hvn : v ∉ s₁.procs := fun hm => ((hmem v).mp (hprocs ▸ hm)).1 rfl
  have hf : Buries v s (s₁.free v) := by
    have hne : ∀ q ∈ s₁.procs, q ≠ v := fun q hq he => hvn (he ▸ hq)
    have hpf : ∀ q ∈ s₁.procs, (s₁.free v).pcb q = s₁.pcb q := fun q hq => by
      simp [Scheduler.free, hne q hq]
    exact ⟨tidy_free h₁ hvn (h.known v (Or.inl hv)), hprocs,
      fun p hp => (congrArg _ (hpf p hp)).trans (hb.waiters p hp),
      fun p hp => (congrArg _ (hpf p hp)).trans (hb.fds p hp)⟩
  unfold terminate
  rw [hl]
  dsimp only
  by_cases hc : s.currentProcess = some v
  · rw [if_pos (show (Scheduler.setStatus { s with processList := l, heap := heap } v
      .TERMINATED).currentProcess = some v from hc)]
    exact ⟨rfl, hb⟩
  · rw [if_neg (show (Scheduler.setStatus { s with processList := l, heap := heap } v
      .TERMINATED).currentProcess ≠ some v from hc)]
    exact ⟨rfl, hf⟩

theorem kill_spec {s : Scheduler H} (h : Tidy s) {v : Pcb} (hv : v ∈ s.procs)
    (hu : inItsQueue s v → ∀ q ∈ s.procs.erase v, some v ∉ (s.pcb q).waiters) :
    (inItsQueue s v ∧ (kill s v).1 = 0 ∧ Buries v s (kill s v).2) ∨
      (¬ inItsQueue s v ∧ kill s v = (-1, s)) := by
  unfold kill
  rcases leaveQueue_spec s v with ⟨s', hl, hk, hq⟩ | ⟨hl, hq⟩
  · rw [hl]
    have hw := hk.trans (keeps_wakeWaiters (s'.pcb v).waiters s')
    have ht := buries_terminate (h.of_keeps hw) (v := v) (hw.procs ▸ hv) (fun q hq' => by
      rw [hw.waiters]
      exact hu hq q (hw.procs ▸ hq'))
    refine Or.inl ⟨hq, ht.1, ht.2.tidy, ht.2.procs.trans (by rw [hw.procs]), ?_, ?_⟩
    · exact fun p hp => (ht.2.waiters p hp).trans (hw.waiters p)
    · exact fun p hp => (ht.2.fds p hp).trans (hw.fds p)
  · rw [hl]
    exact Or.inr ⟨hq, rfl⟩

omit [MemoryManager H] in
theorem pipedTo_congr {s s' : Scheduler H} {v : Pcb} (hb : Buries v s s') (fd : Int) :
    pipedTo s' fd = (s.procs.erase v).find? (fun p =>
      (s.pcb p).fileDescriptors STDIN = fd ∨ (s.pcb p).fileDescriptors STDOUT = fd) := by
  unfold pipedTo
  rw [hb.procs]
  have hfds : ∀ p ∈ s.procs.erase v, (s'.pcb p).fileDescriptors = (s.pcb p).fileDescriptors :=
    fun p hp => hb.fds p (hb.procs ▸ hp)
  generalize s.procs.erase v = l at hfds
  induction l with
  | nil => rfl
  | cons p rest ih =>
    rw [List.find?_cons, List.find?_cons, hfds p List.mem_cons_self,
      ih (fun q hq => hfds q (List.mem_cons_of_mem p hq))]

/-- `killProcess` calls `kill` in tidy states and on live processes only. -/
theorem killProcess_spec {s : Scheduler H} (h : Tidy s) (pid : Int)
    (hu : unawaited s (victims s pid) s.procs) :
    Tidy (killProcess s pid).2 ∧ ∀ k ∈ kills s pid, Tidy k.1 ∧ k.2 ∈ k.1.procs := by
  unfold victims at hu
  unfold killProcess kills
  cases hf : findProcess s pid with
  | none => exact ⟨h, fun k hk => by cases hk⟩
  | some v =>
    rw [hf] at hu
    have hv : v ∈ s.procs := List.mem_of_find?_eq_some hf
    have hfirst : ∀ k ∈ [(s, v)], Tidy k.1 ∧ k.2 ∈ k.1.procs := by
      intro k hk
      rw [List.mem_singleton] at hk
      rw [hk]
      exact ⟨h, hv⟩
    dsimp only at hu ⊢
    rcases kill_spec h hv (fun hq => by rw [if_pos hq] at hu; exact hu.1) with
      ⟨hq, hr, hb⟩ | ⟨_, hk⟩
    · rw [if_pos hq] at hu
      rw [hr, if_neg (by decide)]
      by_cases hfd : pipedFd (s.pcb v).fileDescriptors = -1
      · rw [if_neg (not_not.mpr hfd), if_pos (Or.inr hfd)]
        exact ⟨hb.tidy, hfirst⟩
      · rw [if_pos hfd, if_neg (by simp [hfd]), pipedTo_congr hb]
        unfold pipedPeer at hu
        rw [if_neg hfd] at hu
        cases hp : (s.procs.erase v).find? (fun p =>
          (s.pcb p).fileDescriptors STDIN = pipedFd (s.pcb v).fileDescriptors ∨
            (s.pcb p).fileDescriptors STDOUT = pipedFd (s.pcb v).fileDescriptors) with
        | none => exact ⟨hb.tidy, hfirst⟩
        | some aux =>
          rw [hp] at hu
          have haux : aux ∈ (kill s v).2.procs := hb.procs ▸ List.mem_of_find?_eq_some hp
          refine ⟨?_, fun k hk => ?_⟩
          · rcases kill_spec hb.tidy haux (fun _ q hq' => by
              rw [hb.waiters q (List.mem_of_mem_erase hq')]
              rw [hb.procs] at hq'
              exact hu.2.1 q hq') with ⟨_, _, hb'⟩ | ⟨_, hk'⟩
            · exact hb'.tidy
            · dsimp only
              rw [hk']
              exact hb.tidy
          · rcases List.mem_cons.mp hk with hk | hk
            · exact hfirst k (List.mem_singleton.mpr hk)
            · obtain rfl : k = ((kill s v).2, aux) := by simpa using hk
              exact ⟨hb.tidy, haux⟩
    · rw [hk]
      exact ⟨h, hfirst⟩

theorem killForegroundProcess_spec {s : Scheduler H} (h : Tidy s)
    (hu : unawaited s (foregroundVictims s) s.procs) :
    Tidy (killForegroundProcess s).2 ∧
      ∀ k ∈ foregroundKills s, Tidy k.1 ∧ k.2 ∈ k.1.procs := by
  unfold foregroundVictims at hu
  unfold killForegroundProcess foregroundKills
  cases hc : s.currentProcess with
  | none => exact ⟨h, fun k hk => by cases hk⟩
  | some current =>
    rw [hc] at hu
    dsimp only at hu ⊢
    by_cases hg : (s.pcb current).ground = 0 ∧ s.pid current ≠ SHELL_PID
    · rw [if_pos hg] at hu ⊢
      rw [if_pos hg]
      exact killProcess_spec h _ hu
    · rw [if_neg hg] at hu ⊢
      rw [if_neg hg]
      cases hf : s.procs.find? (fun p => (s.pcb p).ground = 0 ∧ s.pid p ≠ SHELL_PID) with
      | none => exact ⟨h, fun k hk => by cases hk⟩
      | some aux =>
        rw [hf] at hu
        have haux : aux ∈ s.procs := List.mem_of_find?_eq_some hf
        refine ⟨?_, fun k hk => ?_⟩
        · rcases kill_spec h haux (fun hq => by
            rw [Option.toList_some, List.filter_cons_of_pos (by simpa using hq)] at hu
            exact hu.1) with ⟨_, _, hb⟩ | ⟨_, hk⟩
          · exact hb.tidy
          · dsimp only
            rw [hk]
            exact h
        · obtain rfl : k = (s, aux) := by simpa using hk
          exact ⟨h, haux⟩

/-! ## The other calls -/

theorem tidy_waitProcess {s : Scheduler H} (h : Tidy s) (pid : Int) (rsp : Addr)
    (hcur : (findProcess s pid).isSome → getPid s ≠ pid → (findProcess s (getPid s)).isSome) :
    Tidy (waitProcess s pid rsp).2 := by
  unfold waitProcess
  cases hf : findProcess s pid with
  | none => exact h
  | some target =>
    rw [hf] at hcur
    dsimp only
    split
    · exact h
    rename_i hself
    refine tidy_blockProcess ?_ _ _
    obtain ⟨caller, hcaller⟩ := Option.isSome_iff_exists.mp (hcur rfl hself)
    have hmem : caller ∈ s.procs := List.mem_of_find?_eq_some hcaller
    cases hw : (s.pcb target).waitingList with
    | none => exact h
    | some list =>
      rw [hcaller]
      dsimp only
      have hlist : (s.pcb target).waiters = list.data := by
        rw [ProcessContext.waiters, hw]
      refine ⟨h.procs_nodup, ?_, h.live, h.known, h.fresh, ?_⟩
      · intro p hp
        by_cases hpt : p = target
        · subst hpt
          simpa [status, setPcb] using h.alive p hp
        · simpa [status, setPcb, hpt] using h.alive p hp
      · intro p hp w hwm
        by_cases hpt : p = target
        · subst hpt
          simp only [setPcb, Function.update_self, ProcessContext.waiters] at hwm
          rcases addNode_data list (some caller) s.heap with ⟨hd, _⟩ | ⟨he, _⟩
          · rw [hd, List.mem_append, List.mem_singleton] at hwm
            rcases hwm with hwm | rfl
            · exact h.waiters p hp w (hlist ▸ hwm)
            · exact ⟨caller, hmem, rfl⟩
          · rw [he] at hwm
            exact h.waiters p hp w (hlist ▸ hwm)
        · simp only [setPcb, Function.update_of_ne hpt] at hwm
          exact h.waiters p hp w hwm

omit [MemoryManager H] in
theorem tidy_setPcb_out {s : Scheduler H} (h : Tidy s) {p : Pcb} (hp : p ∉ s.procs)
    (c : ProcessContext) : Tidy (s.setPcb p c) := by
  have hpcb : ∀ q ∈ s.procs, (s.setPcb p c).pcb q = s.pcb q := fun q hq =>
    Function.update_of_ne (fun he : q = p => hp (he ▸ hq)) _ _
  refine ⟨h.procs_nodup, ?_, h.live, h.known, h.fresh, ?_⟩
  · intro q hq
    rw [status, hpcb q hq]
    exact h.alive q hq
  · intro q hq w hw
    rw [hpcb q hq] at hw
    exact h.waiters q hq w hw

theorem tidy_addProcess {s : Scheduler H} (h : Tidy s) {p : Pcb} (hp : p ∉ s.procs)
    (hk : p < s.pcbQty) (hf : s.frees p = 0) (hst : s.status p ≠ .TERMINATED)
    (hw : (s.pcb p).waiters = []) : Tidy (addProcess s p) := by
  have hlist : ∃ l heap, addNode s.processList p s.heap = ((addNode s.processList p s.heap).1,
      l, heap) ∧ (l.data = s.procs ++ [p] ∨ l.data = s.procs) := by
    refine ⟨_, _, rfl, ?_⟩
    rcases addNode_data s.processList p s.heap with ⟨hd, _⟩ | ⟨he, _⟩
    · exact Or.inl hd
    · exact Or.inr (congrArg (·.data) he)
  obtain ⟨l, heap, ha, hl⟩ := hlist
  have hmem : ∀ q ∈ l.data, q ∈ s.procs ∨ q = p := fun q hq => by
    rcases hl with hl | hl <;> rw [hl] at hq
    · simpa using hq
    · exact Or.inl hq
  have hsub : ∀ q ∈ s.procs, q ∈ l.data := fun q hq => by
    rcases hl with hl | hl <;> rw [hl]
    · exact List.mem_append_left _ hq
    · exact hq
  let s₁ : Scheduler H :=
    { s with processList := l, heap := heap, processQty := s.processQty + 1 }
  have h₁ : Tidy s₁ := by
    refine ⟨?_, ?_, ?_, ?_, h.fresh, ?_⟩
    · rcases hl with hl | hl
      · show l.data.Nodup
        rw [hl]
        exact process_table.nodup_snoc h.procs_nodup hp
      · show l.data.Nodup
        rw [hl]
        exact h.procs_nodup
    · intro q hq
      rcases hmem q hq with hq | rfl
      · exact h.alive q hq
      · exact hst
    · intro q hq
      rcases hmem q hq with hq | rfl
      · exact h.live q hq
      · exact hf
    · rintro q (hq | hq | hq)
      · rcases hmem q hq with hq | rfl
        · exact h.known q (Or.inl hq)
        · exact hk
      · exact h.known q (Or.inr (Or.inl hq))
      · exact h.known q (Or.inr (Or.inr hq))
    · intro q hq w hwm
      rcases hmem q hq with hq | rfl
      · obtain ⟨a, ham, rfl⟩ := h.waiters q hq w hwm
        exact ⟨a, hsub a ham, rfl⟩
      · rw [show (s₁.pcb q).waiters = [] from hw] at hwm
        cases hwm
  unfold addProcess
  rw [ha]
  dsimp only
  have hknown : ∀ q, q ∈ s.ready ∨ q = p → q < s.pcbQty := by
    rintro q (hq | rfl)
    · exact h.known q (Or.inr (Or.inl hq))
    · exact hk
  split
  · refine ⟨h₁.procs_nodup, h₁.alive, h₁.live, ?_, h₁.fresh, h₁.waiters⟩
    rintro q (hq | hq | hq)
    · exact h₁.known q (Or.inl hq)
    · exact hknown q (mem_addNode hq)
    · exact h₁.known q (Or.inr (Or.inr hq))
  · split
    · exact ⟨h₁.procs_nodup, h₁.alive, h₁.live, h₁.known, h₁.fresh, h₁.waiters⟩
    · exact h₁

theorem tidy_createProcess {s : Scheduler H} (h : Tidy s) (rip : Addr) (args : Args) (argc : Int)
    (priority : Nat) (fds : Option (Fin CANT_FILE_DESCRIPTORS → Int)) (ground : Nat) :
    Tidy (createProcess s rip args argc priority fds ground).2 := by
  have hheap : ∀ {s : Scheduler H} (heap : H), Tidy s → Tidy { s with heap := heap } :=
    fun _ h => ⟨h.procs_nodup, h.alive, h.live, h.known, h.fresh, h.waiters⟩
  have hnew : s.pcbQty ∉ s.procs := fun hm => Nat.lt_irrefl _ (h.known _ (Or.inl hm))
  unfold createProcess
  split
  · exact h
  split
  · exact hheap _ h
  rename_i block heap _
  dsimp only
  have halloc : Tidy { s with heap := heap, pcbQty := s.pcbQty + 1 } :=
    ⟨h.procs_nodup, h.alive, h.live, fun p hp => Nat.lt_succ_of_lt (h.known p hp),
      fun p hp => h.fresh p (Nat.le_of_succ_le hp), h.waiters⟩
  have hzero := tidy_setPcb_out halloc hnew (.zeroed block)
  have hlt : s.pcbQty < s.pcbQty + 1 := Nat.lt_succ_self _
  split
  · exact tidy_free hzero hnew hlt
  split
  · exact tidy_free (tidy_setPcb_out (hheap _ hzero) hnew _) hnew hlt
  rename_i r c heap' hr hi
  obtain ⟨_, hst, _, _, _, hwait⟩ := initializeProcess_filled hi hr
  refine tidy_addProcess (tidy_setPcb_out (hheap _ hzero) hnew c) hnew hlt
    (h.fresh _ (Nat.le_refl _)) ?_ ?_
  · simp [status, setPcb, hst]
  · have hw : c.waiters = [] := by
      rw [ProcessContext.waiters]
      cases hc : c.waitingList with
      | none => rfl
      | some list => simpa [hc] using hwait
    simpa [setPcb] using hw

theorem tidy_exec (s : Scheduler H) (op : Op) (h : Tidy s) (hok : sparesWaiters s op) :
    Tidy (exec s op) := by
  cases op with
  | schedule rsp => exact tidy_schedule h rsp
  | yield rsp => exact tidy_yield h rsp
  | createProcess rip args argc priority fds ground =>
    exact tidy_createProcess h rip args argc priority fds ground
  | blockProcess pid rsp => exact tidy_blockProcess h pid rsp
  | setReadyProcess pid => exact h.of_keeps (keeps_setReadyProcess s pid)
  | waitProcess pid rsp => exact tidy_waitProcess h pid rsp hok
  | changePriority pid priority =>
    rw [exec, changePriority]
    split
    · exact h
    split
    · exact h
    · exact h.of_keeps (keeps_setPcb s id rfl rfl)
  | killProcess pid => exact (killProcess_spec h pid hok).1
  | killForegroundProcess => exact (killForegroundProcess_spec h hok).1
  | reuse p content =>
    rw [exec]
    split
    · rename_i hf
      exact tidy_setPcb_out h (fun hp => Nat.ne_of_gt hf (h.live p hp)) content
    · exact h

theorem readsLive_of_tidy (s : Scheduler H) (op : Op) (h : Tidy s) (hok : sparesWaiters s op) :
    readsLive s op := by
  have hlive : ∀ {ks : List (Scheduler H × Pcb)}, (∀ k ∈ ks, Tidy k.1 ∧ k.2 ∈ k.1.procs) →
      loopReadsLive ks := by
    rintro ks hks k hk w hw aux rfl
    obtain ⟨a, ha, hl, _⟩ := (hks k hk).1.noDangling k.2 (hks k hk).2 _ hw
    cases ha
    exact hl
  cases op with
  | killProcess pid => exact hlive (killProcess_spec h pid hok).2
  | killForegroundProcess => exact hlive (killForegroundProcess_spec h hok).2
  | _ => trivial

theorem tidy_createScheduler {rip : Addr} {heap : H} {s : Scheduler H}
    (hc : createScheduler rip heap = some s) : Tidy s := by
  unfold createScheduler at hc
  split at hc
  · cases hc
  split at hc
  · cases hc
  rename_i processList _ hp
  split at hc
  · cases hc
  rename_i readyProcess _ hr
  split at hc
  · cases hc
  rename_i blockedProcess heap' hb
  have hprocs : ∀ p, p ∉ (emptyScheduler heap' processList readyProcess blockedProcess).procs :=
    fun p hm => by
      rw [procs, show (emptyScheduler heap' processList readyProcess
        blockedProcess).processList.data = [] from createDoubleLinkedListADT_data hp] at hm
      cases hm
  cases hc
  refine tidy_createProcess ⟨?_, fun p hm => absurd hm (hprocs p), fun _ _ => rfl, ?_,
    fun _ _ => rfl, fun p hm => absurd hm (hprocs p)⟩ rip _ 1 MIN_PRIORITY _ 1
  · rw [List.eq_nil_iff_forall_not_mem.mpr hprocs]
    exact List.nodup_nil
  · rintro p (hm | hm | hm)
    · exact absurd hm (hprocs p)
    · rw [ready, show (emptyScheduler heap' processList readyProcess
        blockedProcess).readyProcess.data = [] from createDoubleLinkedListADT_data hr] at hm
      cases hm
    · cases hm

/-- While no waiter is killed before its target, no waiting list dangles, and
the loop of `kill` reads no freed PCB. The heap may refuse any request. -/
theorem no_waiter_dangles_while_waiters_are_spared {rip : Addr} {heap : H} {s : Scheduler H}
    (hc : createScheduler rip heap = some s) (ops : List Op)
    (hok : Meets exec sparesWaiters s ops) :
    NoDangling (run exec s ops) ∧ Meets exec readsLive s ops :=
  ⟨(run_invariant tidy_exec (tidy_createScheduler hc) hok).noDangling,
    run_steps tidy_exec readsLive_of_tidy (tidy_createScheduler hc) hok⟩

/-- The shell, pid 1, makes the processes 2 and 3; 3 waits for 2. -/
def awaitedRun : List Op :=
  [.createProcess 2 none 0 1 none 0, .schedule 3, .schedule 4, .createProcess 5 none 0 1 none 1,
    .createProcess 6 none 0 1 none 1, .schedule 7, .schedule 8, .schedule 9, .waitProcess 2 10]

theorem no_waiter_dangles_when_the_target_ends_first :
    NoDangling (run exec endlessBoot (awaitedRun ++ [.killProcess 2])) ∧
      Meets exec readsLive endlessBoot (awaitedRun ++ [.killProcess 2]) :=
  no_waiter_dangles_while_waiters_are_spared (Option.some_get rfl).symm _ (by decide)

/-- The waiter is killed first: its freed PCB stays in the waiting list, and
the kill of the target reads it. -/
theorem a_dead_waiter_stays_in_the_list :
    ¬ NoDangling (run exec endlessBoot (awaitedRun ++ [.killProcess 3])) ∧
      ¬ readsLive (run exec endlessBoot (awaitedRun ++ [.killProcess 3])) (.killProcess 2) := by
  refine ⟨fun h => ?_, fun h => ?_⟩
  · obtain ⟨a, ha, hf, _⟩ := h 2 (by decide) (some 3) (by decide)
    cases ha
    exact absurd hf (by decide)
  · exact absurd (h (_, 2) List.mem_cons_self (some 3) (by decide) 3 rfl) (by decide)

end bare_bones.scheduler
