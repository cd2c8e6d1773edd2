-- The stack pointers that the scheduler keeps. `schedule` alone changes one, that of the
-- process which it suspends; it gives that of the process which goes on. The other calls
-- only lose processes, and `createProcess` adds one.
import BareBones.Spinlocks

namespace bare_bones.scheduler

open bare_bones.doubleLinkedList bare_bones.process bare_bones.process_table

variable {H : Type}

/-- The PCB was allocated and not freed since. -/
def Live (s : Scheduler H) (p : Pcb) : Prop := p < s.pcbQty ∧ s.frees p = 0

/-- The same stack, from the same stack pointer on. -/
structure SameStack (c c' : ProcessContext) : Prop where
  base : c'.stackBase = c.stackBase
  pos : c'.stackPos = c.stackPos

theorem SameStack.refl (c : ProcessContext) : SameStack c c := ⟨rfl, rfl⟩

theorem SameStack.trans {c c' c'' : ProcessContext} (h : SameStack c c') (h' : SameStack c' c'') :
    SameStack c c'' :=
  ⟨h'.base.trans h.base, h'.pos.trans h.pos⟩

/-- The processor stays with its process, and no process is new. -/
structure KeepsStacks (s s' : Scheduler H) : Prop where
  current : s'.currentProcess = s.currentProcess
  qty : s.pcbQty ≤ s'.pcbQty
  live : ∀ p, Live s' p → Live s p ∧ SameStack (s.pcb p) (s'.pcb p)

namespace KeepsStacks

variable {s s' s'' : Scheduler H}

theorem refl (s : Scheduler H) : KeepsStacks s s := ⟨rfl, le_rfl, fun _ h => ⟨h, SameStack.refl _⟩⟩

theorem trans (h : KeepsStacks s s') (h' : KeepsStacks s' s'') : KeepsStacks s s'' := by
  refine ⟨h'.current.trans h.current, h.qty.trans h'.qty, ?_⟩
  intro p hp
  obtain ⟨hlive', hsame'⟩ := h'.live p hp
  obtain ⟨hlive, hsame⟩ := h.live p hlive'
  exact ⟨hlive, hsame.trans hsame'⟩

/-- Only fields changed that have no part in it. -/
theorem of_eq (hcurrent : s'.currentProcess = s.currentProcess) (hqty : s'.pcbQty = s.pcbQty)
    (hfrees : s'.frees = s.frees) (hpcb : s'.pcb = s.pcb) : KeepsStacks s s' := by
  refine ⟨hcurrent, hqty.ge, ?_⟩
  intro p hp
  rw [Live, hqty, hfrees] at hp
  rw [hpcb]
  exact ⟨hp, SameStack.refl _⟩

theorem setPcb (h : KeepsStacks s s') {p : Pcb} {c : ProcessContext}
    (hc : Live s' p → SameStack (s'.pcb p) c) : KeepsStacks s (s'.setPcb p c) := by
  apply h.trans
  refine ⟨rfl, le_rfl, ?_⟩
  intro q hq
  have hlive : Live s' q := hq
  refine ⟨hlive, ?_⟩
  by_cases he : q = p
  · rw [he, Scheduler.pcb_setPcb_self]
    exact hc (he ▸ hlive)
  · rw [Scheduler.pcb_setPcb_ne s' c he]
    exact SameStack.refl _

theorem setStatus (h : KeepsStacks s s') (p : Pcb) (status : ProcessState) :
    KeepsStacks s (s'.setStatus p status) :=
  h.setPcb fun _ => ⟨rfl, rfl⟩

theorem free [MemoryManager H] (s : Scheduler H) (p : Pcb) : KeepsStacks s (s.free p) := by
  refine ⟨rfl, le_rfl, ?_⟩
  intro q hq
  have hfrees : Function.update s.frees p (s.frees p + 1) q = 0 := hq.2
  have hne : q ≠ p := by
    rintro rfl
    rw [Function.update_self] at hfrees
    exact absurd hfrees (Nat.succ_ne_zero _)
  rw [Function.update_of_ne hne] at hfrees
  have hpcb : (s.free p).pcb q = s.pcb q := Function.update_of_ne hne ..
  rw [hpcb]
  exact ⟨⟨hq.1, hfrees⟩, SameStack.refl _⟩

end KeepsStacks

theorem not_live_free [MemoryManager H] (s : Scheduler H) (p : Pcb) : ¬ Live (s.free p) p := by
  rintro ⟨-, hfrees⟩
  have hcount : s.frees p + 1 = 0 := by
    simpa only [Scheduler.free, Function.update_self] using hfrees
  exact Nat.succ_ne_zero _ hcount

/-! ## The calls that do not switch -/

section Calls

variable [MemoryManager H]

theorem keepsStacks_setReadyProcess (s : Scheduler H) (pid : Int) :
    KeepsStacks s (setReadyProcess s pid).2 := by
  unfold setReadyProcess
  split
  · exact KeepsStacks.refl s
  · split
    · split
      · exact KeepsStacks.refl s
      · dsimp only
        split
        · exact KeepsStacks.of_eq rfl rfl rfl rfl
        · apply KeepsStacks.setStatus
          exact KeepsStacks.of_eq rfl rfl rfl rfl
    · exact KeepsStacks.refl s

theorem keepsStacks_wakeWaiters (waiters : List (Option Pcb)) (s : Scheduler H) :
    KeepsStacks s (wakeWaiters waiters s) := by
  induction waiters generalizing s with
  | nil => exact KeepsStacks.refl s
  | cons w rest ih =>
    cases w with
    | none => exact ih s
    | some aux => exact (keepsStacks_setReadyProcess s (s.pid aux)).trans (ih _)

theorem keepsStacks_leaveQueue {s s' : Scheduler H} {p : Pcb} (h : leaveQueue s p = some s') :
    KeepsStacks s s' := by
  unfold leaveQueue at h
  split at h
  · split at h
    · cases h
    · cases h
      exact KeepsStacks.of_eq rfl rfl rfl rfl
  · split at h
    · cases h
    · cases h
      exact KeepsStacks.of_eq rfl rfl rfl rfl
  · cases h
    exact KeepsStacks.refl s

theorem keepsStacks_terminate (s : Scheduler H) (p : Pcb) : KeepsStacks s (terminate s p).2 := by
  unfold terminate
  split
  · exact KeepsStacks.refl s
  · rename_i processList heap _
    have hmarked : KeepsStacks s
        ({ s with processList := processList, heap := heap }.setStatus p .TERMINATED) := by
      apply KeepsStacks.setStatus
      exact KeepsStacks.of_eq rfl rfl rfl rfl
    dsimp only
    split
    · exact hmarked.trans (KeepsStacks.of_eq rfl rfl rfl rfl)
    · apply KeepsStacks.trans _ (KeepsStacks.free _ p)
      exact hmarked.trans (KeepsStacks.of_eq rfl rfl rfl rfl)

theorem keepsStacks_kill (s : Scheduler H) (p : Pcb) : KeepsStacks s (kill s p).2 := by
  unfold kill
  split
  · exact KeepsStacks.refl s
  · rename_i s' hs'
    exact (keepsStacks_leaveQueue hs').trans
      ((keepsStacks_wakeWaiters _ s').trans (keepsStacks_terminate _ p))

theorem keepsStacks_killProcess (s : Scheduler H) (pid : Int) :
    KeepsStacks s (killProcess s pid).2 := by
  unfold killProcess
  split
  · exact KeepsStacks.refl s
  · rename_i p _
    have hkill := keepsStacks_kill s p
    dsimp only
    generalize kill s p = killed at hkill
    split
    · exact hkill
    · split
      · split
        · exact hkill
        · exact hkill.trans (keepsStacks_kill _ _)
      · exact hkill

theorem keepsStacks_killForegroundProcess (s : Scheduler H) :
    KeepsStacks s (killForegroundProcess s).2 := by
  unfold killForegroundProcess
  split
  · exact KeepsStacks.refl s
  · split
    · exact keepsStacks_killProcess s _
    · split
      · exact KeepsStacks.refl s
      · exact keepsStacks_kill s _

omit [MemoryManager H] in
theorem keepsStacks_changePriority (s : Scheduler H) (pid : Int) (priority : Nat) :
    KeepsStacks s (changePriority s pid priority).2 := by
  unfold changePriority
  split
  · exact KeepsStacks.refl s
  · split
    · exact KeepsStacks.refl s
    · exact (KeepsStacks.refl s).setPcb fun _ => ⟨rfl, rfl⟩

theorem keepsStacks_enlist (s : Scheduler H) (target : Pcb) (caller : Option Pcb) :
    KeepsStacks s (enlist s target caller) := by
  unfold enlist
  split
  · exact KeepsStacks.refl s
  · apply KeepsStacks.setPcb
    · exact KeepsStacks.of_eq rfl rfl rfl rfl
    · exact fun _ => ⟨rfl, rfl⟩

omit [MemoryManager H] in
/-- A freed PCB is no longer live. -/
theorem keepsStacks_reuse (s : Scheduler H) (p : Pcb) (content : ProcessContext) :
    KeepsStacks s (if 0 < s.frees p then s.setPcb p content else s) := by
  split
  · rename_i hfreed
    exact (KeepsStacks.refl s).setPcb fun hlive => absurd hlive.2 (Nat.ne_of_gt hfreed)
  · exact KeepsStacks.refl s

end Calls

/-! ## A new process -/

section Creation

variable [MemoryManager H]

/-- The PCB has a stack, with the registers of a new process on it. -/
structure Prepared (rip : Addr) (argc : Int) (c : ProcessContext) : Prop where
  base : STACK_SIZE ≤ c.stackBase
  pos : c.stackPos = setupStackFrame c.stackBase
  rip : c.rip = rip
  argc : c.argc = argc
  argv : c.argv.isSome

theorem initializeProcess_prepared {process p : ProcessContext} {pid : Int} {args : Args}
    {argc : Int} {priority : Nat} {rip : Addr} {ground : Nat}
    {fds : Option (Fin CANT_FILE_DESCRIPTORS → Int)} {h h' : H} {r : Int}
    (hi : initializeProcess process pid args argc priority rip ground fds h = (r, p, h'))
    (hr : r ≠ -1) : Prepared rip argc p := by
  unfold initializeProcess at hi
  dsimp only at hi
  split at hi
  · cases hi
    exact absurd rfl hr
  split at hi
  · cases hi
    exact absurd rfl hr
  split at hi
  · cases hi
    exact absurd rfl hr
  split at hi
  · cases hi
    exact absurd rfl hr
  · cases hi
    exact ⟨Nat.le_add_left .., rfl, rfl, rfl, rfl⟩

/-- One process is new. -/
structure Spawns (s s' : Scheduler H) (rip : Addr) (argc : Int) : Prop where
  current : s'.currentProcess = s.currentProcess
  qty : s'.pcbQty = s.pcbQty + 1
  live : ∀ p, Live s' p → p = s.pcbQty ∨ (Live s p ∧ SameStack (s.pcb p) (s'.pcb p))
  fresh : Live s' s.pcbQty
  prepared : Prepared rip argc (s'.pcb s.pcbQty)

/-- What a failed creation leaves is freed. -/
theorem keepsStacks_failed {s s' : Scheduler H}
    (hcurrent : s'.currentProcess = s.currentProcess) (hqty : s'.pcbQty = s.pcbQty + 1)
    (hfrees : s'.frees = s.frees) (hpcb : ∀ p ≠ s.pcbQty, s'.pcb p = s.pcb p) :
    KeepsStacks s (s'.free s.pcbQty) := by
  refine ⟨hcurrent, Nat.le_of_lt (Nat.lt_of_succ_le hqty.ge), ?_⟩
  intro p hp
  obtain ⟨⟨hlt, hzero⟩, hsame⟩ := (KeepsStacks.free s' s.pcbQty).live p hp
  have hne : p ≠ s.pcbQty := by
    rintro rfl
    exact not_live_free s' _ hp
  rw [hqty] at hlt
  rw [hfrees] at hzero
  rw [hpcb p hne] at hsame
  exact ⟨⟨Nat.lt_of_le_of_ne (Nat.le_of_lt_succ hlt) hne, hzero⟩, hsame⟩

theorem addProcess_rest (s : Scheduler H) (p : Pcb) :
    (addProcess s p).currentProcess = s.currentProcess ∧ (addProcess s p).pcbQty = s.pcbQty ∧
      (addProcess s p).frees = s.frees := by
  unfold addProcess
  dsimp only
  split
  · exact ⟨rfl, rfl, rfl⟩
  · split <;> exact ⟨rfl, rfl, rfl⟩

theorem createProcess_stacks (s : Scheduler H) (hfresh : s.frees s.pcbQty = 0) (rip : Addr)
    (args : Args) (argc : Int) (priority : Nat)
    (fds : Option (Fin CANT_FILE_DESCRIPTORS → Int)) (ground : Nat) :
    let r := createProcess s rip args argc priority fds ground
    (r.1 = -1 ∧ KeepsStacks s r.2) ∨ (0 ≤ r.1 ∧ Spawns s r.2 rip argc) := by
  dsimp only
  unfold createProcess
  split
  · exact Or.inl ⟨rfl, KeepsStacks.refl s⟩
  split
  · exact Or.inl ⟨rfl, KeepsStacks.of_eq rfl rfl rfl rfl⟩
  rename_i block heap _
  dsimp only
  have hother : ∀ (c : ProcessContext), ∀ p ≠ s.pcbQty,
      (({ s with heap := heap, pcbQty := s.pcbQty + 1 }.setPcb s.pcbQty c).pcb p) = s.pcb p := by
    intro c p hp
    exact Scheduler.pcb_setPcb_ne _ c hp
  split
  · exact Or.inl ⟨rfl, keepsStacks_failed rfl rfl rfl (hother _)⟩
  split
  · refine Or.inl ⟨rfl, keepsStacks_failed rfl rfl rfl ?_⟩
    intro p hp
    rw [Scheduler.pcb_setPcb_ne _ _ hp]
    exact hother _ p hp
  · rename_i r c h hr hi
    have hprepared := initializeProcess_prepared hi hr
    have hpid := (initializeProcess_filled hi hr).1
    right
    dsimp only
    generalize hs₁ : ({ { s with heap := heap, pcbQty := s.pcbQty + 1 }.setPcb s.pcbQty
      (.zeroed block) with heap := h }.setPcb s.pcbQty c) = s₁
    have hcurrent : s₁.currentProcess = s.currentProcess := hs₁ ▸ rfl
    have hqty : s₁.pcbQty = s.pcbQty + 1 := hs₁ ▸ rfl
    have hfrees : s₁.frees = s.frees := hs₁ ▸ rfl
    have hnew : s₁.pcb s.pcbQty = c := by
      rw [← hs₁]
      exact Scheduler.pcb_setPcb_self ..
    have hold : ∀ p ≠ s.pcbQty, s₁.pcb p = s.pcb p := by
      intro p hp
      rw [← hs₁, Scheduler.pcb_setPcb_ne _ _ hp]
      exact hother _ p hp
    obtain ⟨hcurrent', hqty', hfrees'⟩ := addProcess_rest s₁ s.pcbQty
    refine ⟨?_, hcurrent'.trans hcurrent, hqty'.trans hqty, ?_, ?_, ?_⟩
    · rw [Scheduler.pid, pcb_addProcess, hnew, hpid]
      exact Int.natCast_nonneg _
    · rintro p ⟨hlt, hzero⟩
      rw [hqty', hqty] at hlt
      rw [hfrees', hfrees] at hzero
      by_cases hp : p = s.pcbQty
      · exact Or.inl hp
      · rw [pcb_addProcess, hold p hp]
        exact Or.inr ⟨⟨Nat.lt_of_le_of_ne (Nat.le_of_lt_succ hlt) hp, hzero⟩, SameStack.refl _⟩
    · rw [Live, hqty', hqty, hfrees', hfrees]
      exact ⟨Nat.lt_succ_self _, hfresh⟩
    · rw [pcb_addProcess, hnew]
      exact hprepared

/-- After boot there is idle, and nobody runs. -/
structure Alone (s : Scheduler H) : Prop where
  current : s.currentProcess = none
  live : ∀ p, Live s p → p = 0
  prepared : ∃ rip, Prepared rip 1 (s.pcb 0)

theorem booted_alone (hn : Serves H NODE_SIZE) {s : Scheduler H} (h : Booted s) : Alone s := by
  have hinv := inv_booted hn h
  obtain ⟨rip, heap, hc, hidle⟩ := h
  obtain ⟨s₀, args, hempty, hcreate⟩ := createScheduler_makes_idle hc
  have hqty : s₀.pcbQty = 0 := hempty.pcbQty
  have hnobody : ∀ p, ¬ Live s₀ p := by
    intro p hp
    have hlt := hp.1
    rw [hqty] at hlt
    exact Nat.not_lt_zero p hlt
  have hstacks := createProcess_stacks s₀ (hempty.frees _) rip args 1 MIN_PRIORITY
    (some idleDescriptors) 1
  dsimp only at hstacks
  rw [← hcreate] at hstacks
  obtain ⟨idle, hin⟩ := Option.isSome_iff_exists.mp hidle
  have hspawns : Spawns s₀ s rip 1 := by
    apply (hstacks.resolve_left _).2
    rintro ⟨-, hkeeps⟩
    have hlive : Live s idle := And.symm (hinv.core.live idle (findProcess_some hin).1)
    exact hnobody idle (hkeeps.live idle hlive).1
  refine ⟨hspawns.current.trans hempty.current, ?_, rip, ?_⟩
  · intro p hp
    rw [← hqty]
    exact (hspawns.live p hp).resolve_right fun hold => hnobody p hold.1
  · rw [← hqty]
    exact hspawns.prepared

end Creation

/-! ## The switch -/

section Switch

variable [MemoryManager H] {s s' : Scheduler H}

/-- The stack pointers once `rsp` is saved for the process that runs. -/
def savedPos (s : Scheduler H) (rsp : Addr) (p : Pcb) : Addr :=
  if s.currentProcess = some p then rsp else (s.pcb p).stackPos

/-- The stack pointers are those of `pos`. -/
structure Suspends (s s' : Scheduler H) (pos : Pcb → Addr) : Prop where
  qty : s.pcbQty ≤ s'.pcbQty
  live : ∀ p, Live s' p → Live s p
  base : ∀ p, Live s' p → (s'.pcb p).stackBase = (s.pcb p).stackBase
  pos : ∀ p, Live s' p → (s'.pcb p).stackPos = pos p

omit [MemoryManager H] in
theorem Suspends.keeps {s'' : Scheduler H} {pos : Pcb → Addr} (h : Suspends s s' pos)
    (hkeeps : KeepsStacks s' s'') : Suspends s s'' pos where
  qty := h.qty.trans hkeeps.qty
  live p hp := h.live p (hkeeps.live p hp).1
  base p hp := (hkeeps.live p hp).2.base.trans (h.base p (hkeeps.live p hp).1)
  pos p hp := (hkeeps.live p hp).2.pos.trans (h.pos p (hkeeps.live p hp).1)

/-- The process that runs gets its stack pointer saved, unless it is freed now. -/
theorem leaveCurrent_suspends (s : Scheduler H) (rsp : Addr) :
    Suspends s (leaveCurrent s rsp) (savedPos s rsp) := by
  unfold leaveCurrent
  split
  · rename_i hc
    refine ⟨le_rfl, fun _ hp => hp, fun _ _ => rfl, fun p _ => ?_⟩
    simp [savedPos, hc]
  · rename_i current hc
    split
    · have hfree := KeepsStacks.free s current
      refine ⟨le_rfl, fun p hp => (hfree.live p hp).1, fun p hp => (hfree.live p hp).2.base, ?_⟩
      intro p hp
      have hne : s.currentProcess ≠ some p := by
        rw [hc]
        rintro ⟨rfl⟩
        exact not_live_free s current hp
      rw [savedPos, if_neg hne]
      exact (hfree.live p hp).2.pos
    · have hsaved : Suspends s (s.setPcb current { s.pcb current with stackPos := rsp })
          (savedPos s rsp) := by
        refine ⟨le_rfl, fun _ hp => hp, ?_, ?_⟩
        · intro p _
          by_cases he : p = current
          · rw [he, Scheduler.pcb_setPcb_self]
          · rw [Scheduler.pcb_setPcb_ne s _ he]
        · intro p _
          by_cases he : p = current
          · rw [he, Scheduler.pcb_setPcb_self, savedPos, if_pos hc]
          · have hne : s.currentProcess ≠ some p := fun hp =>
              he (Option.some.inj (hp.symm.trans hc))
            rw [Scheduler.pcb_setPcb_ne s _ he, savedPos, if_neg hne]
      dsimp only
      split
      · apply hsaved.keeps
        apply KeepsStacks.trans (KeepsStacks.setStatus (KeepsStacks.refl _) current .READY)
        exact KeepsStacks.of_eq rfl rfl rfl rfl
      · exact hsaved

/-- The processor goes to `p`, at the stack pointer that is given. -/
structure GoesTo (s : Scheduler H) (rsp : Addr) (r : Addr × Scheduler H) (p : Pcb) : Prop where
  current : r.2.currentProcess = some p
  live : Live r.2 p
  pos : r.1 = savedPos s rsp p
  suspends : Suspends s r.2 (savedPos s rsp)

omit [MemoryManager H] in
theorem dispatch_goesTo {rsp : Addr} {p : Pcb} (h : Suspends s s' (savedPos s rsp))
    (hp : Live s' p) : GoesTo s rsp (dispatch s' p) p := by
  have hkept : Suspends s (dispatch s' p).2 (savedPos s rsp) := by
    have hmarked := KeepsStacks.setStatus (KeepsStacks.refl s') p .RUNNING
    exact ⟨h.qty, fun q hq => h.live q hq, (h.keeps hmarked).base, (h.keeps hmarked).pos⟩
  exact ⟨rfl, hp, h.pos p hp, hkept⟩

/-- The head of the ready queue. -/
theorem head_goesTo {rsp : Addr} (h : Suspends s s' (savedPos s rsp)) (hcore : Core none s'.view)
    (hnone : NoneRuns s'.view) : ∃ first readyProcess heap,
      getFirstData s'.readyProcess s'.heap = (some first, readyProcess, heap) ∧
        GoesTo s rsp (dispatch { s' with readyProcess := readyProcess, heap := heap } first)
          first := by
  obtain ⟨first, rest, hready⟩ := ready_ne_nil hcore hnone
  obtain ⟨readyProcess, heap, hget, -⟩ := getFirstData_cons s'.heap hready
  have hin : first ∈ s'.view.procs := by
    apply ((hcore.mem_ready first).mp _).1
    rw [hready]
    exact List.mem_cons_self
  have hlive : Live s' first := And.symm (hcore.live first hin)
  refine ⟨first, readyProcess, heap, hget, ?_⟩
  exact dispatch_goesTo (h.keeps (KeepsStacks.of_eq rfl rfl rfl rfl)) hlive

theorem switch_goesTo (hn : Serves H NODE_SIZE) (hcore : Core none s.view) (hcur : Cur s.view)
    (rsp : Addr) : ∃ p, GoesTo s rsp (switch s rsp) p := by
  unfold switch
  cases hc : s.currentProcess with
  | none =>
    have hnone : NoneRuns s.view := fun p hp hr => by
      have hruns : s.currentProcess = some p := hcur.running p hp hr
      rw [hc] at hruns
      cases hruns
    have hstays : Suspends s s (savedPos s rsp) := by
      refine ⟨le_rfl, fun _ hp => hp, fun _ _ => rfl, fun p _ => ?_⟩
      simp [savedPos, hc]
    have hpid : s.currentPid = NO_PROCESS := hcur.none_pid hc
    obtain ⟨first, readyProcess, heap, hget, hgoes⟩ := head_goesTo hstays hcore hnone
    rw [if_pos hpid, hget]
    exact ⟨first, hgoes⟩
  | some p =>
    have hpid : s.currentPid ≠ NO_PROCESS := by
      obtain ⟨h1, h2⟩ := hcur.some_pid p hc
      have hview : s.currentPid = s.view.pid p := h1
      unfold NO_PROCESS
      omega
    obtain ⟨hleft, hnone⟩ := core_leave hcore hcur
    rw [← leaveCurrent_view hn s rsp] at hleft hnone
    obtain ⟨first, readyProcess, heap, hget, hgoes⟩ :=
      head_goesTo (leaveCurrent_suspends s rsp) hleft hnone
    rw [if_neg hpid]
    dsimp only
    rw [hget]
    exact ⟨first, hgoes⟩

/-- A tick leaves the processor where it is, or suspends the process that runs. -/
theorem schedule_goesTo (hn : Serves H NODE_SIZE) (hcore : Core none s.view) (hcur : Cur s.view)
    (rsp : Addr) : ((schedule s rsp).1 = rsp ∧ KeepsStacks s (schedule s rsp).2) ∨
      ∃ p, GoesTo s rsp (schedule s rsp) p := by
  unfold schedule
  dsimp only
  split
  · exact Or.inl ⟨rfl, KeepsStacks.of_eq rfl rfl rfl rfl⟩
  · right
    obtain ⟨p, hgoes⟩ := @switch_goesTo _ _ { s with quantums := s.quantums - 1 } hn
      (core_quantums hcore _) (cur_quantums hcur _) rsp
    exact ⟨p, hgoes.current, hgoes.live, hgoes.pos, hgoes.suspends.qty, hgoes.suspends.live,
      hgoes.suspends.base,
      hgoes.suspends.pos⟩

end Switch

/-! ## The calls that raise the timer interrupt -/

section Raises

open bare_bones.semaphore (yield_traced blockProcess_traced blockProcess_traced_eq)

variable [MemoryManager H]

/-- A call that comes to its end, or that raises the interrupt with the scheduler in the state
`s₁`. -/
inductive Raises (s : Scheduler H) (rsp : Addr) : List (Scheduler H) × Scheduler H → Prop
  | ends {s' : Scheduler H} (hkeeps : KeepsStacks s s') : Raises s rsp ([], s')
  | raises {s₁ : Scheduler H} (hkeeps : KeepsStacks s s₁) (hcore : Core none s₁.view)
      (hcur : Cur s₁.view) : Raises s rsp ([s₁], (schedule s₁ rsp).2)

theorem Raises.after {s s₀ : Scheduler H} {rsp : Addr} {r : List (Scheduler H) × Scheduler H}
    (h : Raises s rsp r) (hkeeps : KeepsStacks s₀ s) : Raises s₀ rsp r := by
  cases h with
  | ends h => exact .ends (hkeeps.trans h)
  | raises h hcore hcur => exact .raises (hkeeps.trans h) hcore hcur

theorem yield_raises {s s' : Scheduler H} (h : KeepsStacks s s') (hcore : Core none s'.view)
    (hcur : Cur s'.view) (rsp : Addr) : Raises s rsp (yield_traced s' rsp) := by
  apply Raises.raises
  · exact h.trans (KeepsStacks.of_eq rfl rfl rfl rfl)
  · exact core_quantums hcore 0
  · exact cur_quantums hcur 0

/-- The last lines of `blockProcess`. -/
theorem block_raises {s s' : Scheduler H} (h : KeepsStacks s s') (hcore : Core none s'.view)
    (hcur : Cur s'.view) (pid : Int) (rsp : Addr) :
    Raises s rsp (if getPid s' = pid then yield_traced s' rsp else ([], s')) := by
  split
  · exact yield_raises h hcore hcur rsp
  · exact .ends h

/-- A process goes to the blocked queue, from the ready queue `r` or from the processor. -/
theorem toBlocked_raises (hn : Serves H NODE_SIZE) {s : Scheduler H} (h : Inv s.view) {p : Pcb}
    (hp : p ∈ s.procs) (hpid : s.pid p ≠ IDLE_PID) {r : DoubleLinkedList Pcb} (heap : H)
    (hr : s.view.suspend p = (s.view.queues r.data (s.view.blocked ++ [p])).mark p .BLOCKED)
    (pid : Int) (rsp : Addr) :
    ∃ a b heap', addNode s.blockedProcess p heap = (some a, b, heap') ∧
      let s' := { s with readyProcess := r, blockedProcess := b, heap := heap' }.setStatus p
        .BLOCKED
      Raises s rsp (if getPid s' = pid then yield_traced s' rsp else ([], s')) := by
  obtain ⟨a, b, heap', ha, hv⟩ := toBlocked_view hn s p r heap
  rw [← hr] at hv
  refine ⟨a, b, heap', ha, block_raises ?_ ?_ ?_ pid rsp⟩
  · apply KeepsStacks.setStatus
    exact KeepsStacks.of_eq rfl rfl rfl rfl
  · rw [hv]
    exact core_suspend h.core hp hpid
  · rw [hv]
    exact cur_suspend h.cur hp

theorem blockProcess_raises (hn : Serves H NODE_SIZE) {s : Scheduler H} (h : Inv s.view)
    {pid : Int} (hpid : pid ≠ IDLE_PID) (rsp : Addr) :
    Raises s rsp (blockProcess_traced s pid rsp) := by
  unfold blockProcess_traced
  cases hf : findProcess s pid with
  | none => exact .ends (KeepsStacks.refl s)
  | some p =>
    obtain ⟨hp, hpp⟩ := findProcess_some hf
    have hidle : s.pid p ≠ IDLE_PID := hpp ▸ hpid
    have hst : s.view.status p = s.status p := rfl
    dsimp only
    by_cases hready : s.status p = .READY
    · rw [if_pos (Or.inr hready), if_pos hready]
      have hm : p ∈ s.ready := (h.core.mem_ready p).mpr ⟨hp, hready, by simp⟩
      obtain ⟨r, heap, hr, hrd⟩ := removeNode_of_mem s.heap hm
      have hsus : s.view.suspend p =
          (s.view.queues r.data (s.view.blocked ++ [p])).mark p .BLOCKED := by
        rw [Table.suspend, if_pos (hst.trans hready), hrd]
        rfl
      obtain ⟨a, b, heap', ha, hraises⟩ := toBlocked_raises hn h hp hidle heap hsus pid rsp
      rw [hr]
      dsimp only
      rw [ha]
      exact hraises
    · by_cases hrun : s.status p = .RUNNING
      · rw [if_pos (Or.inl hrun), if_neg hready]
        have hsus : s.view.suspend p =
            (s.view.queues s.readyProcess.data (s.view.blocked ++ [p])).mark p .BLOCKED := by
          rw [Table.suspend, if_neg (hst ▸ hready), if_pos (hst.trans hrun)]
          rfl
        obtain ⟨a, b, heap', ha, hraises⟩ :=
          toBlocked_raises hn h hp hidle s.heap hsus pid rsp
        dsimp only
        rw [ha]
        exact hraises
      · rw [if_neg (by simp [hready, hrun])]
        exact block_raises (KeepsStacks.refl s) h.core h.cur pid rsp

/-- The calls of the scheduler with the interrupt that they raise. -/
def exec_traced (s : Scheduler H) : Op → List (Scheduler H) × Scheduler H
  | .schedule rsp => ([s], (schedule s rsp).2)
  | .yield rsp => yield_traced s rsp
  | .blockProcess pid rsp => blockProcess_traced s pid rsp
  | .waitProcess pid rsp =>
    match findProcess s pid with
    | none => ([], s)
    | some target =>
      if getPid s = pid then ([], s)
      else
        blockProcess_traced (enlist s target (findProcess s (getPid s))) (getPid s) rsp
  | op => ([], exec s op)

theorem exec_traced_eq (s : Scheduler H) (op : Op) : (exec_traced s op).2 = exec s op := by
  cases op with
  | blockProcess pid rsp => exact blockProcess_traced_eq s pid rsp
  | waitProcess pid rsp =>
    simp only [exec_traced, exec]
    cases hf : findProcess s pid with
    | none => rw [waitProcess_absent (Or.inl hf)]
    | some target =>
      dsimp only
      by_cases hself : getPid s = pid
      · rw [if_pos hself, waitProcess_absent (Or.inr hself)]
      · rw [if_neg hself, waitProcess_eq hf hself, blockProcess_traced_eq]
  | _ => rfl

/-- The call, with the stack pointer at which its interrupt comes. -/
def Op.saving (rsp : Addr) : Op → Op
  | .schedule _ => .schedule rsp
  | .yield _ => .yield rsp
  | .blockProcess pid _ => .blockProcess pid rsp
  | .waitProcess pid _ => .waitProcess pid rsp
  | op => op

def Op.creates : Op → Bool
  | .createProcess .. => true
  | _ => false

theorem inv_enlist {s : Scheduler H} (h : Inv s.view) (target : Pcb) (caller : Option Pcb) :
    Inv (enlist s target caller).view := by
  unfold enlist
  split
  · exact h
  · dsimp only
    rw [view_setPcb]
    exact inv_set h rfl rfl rfl rfl

theorem exec_traced_raises (hn : Serves H NODE_SIZE) {s : Scheduler H} (h : Inv s.view) (op : Op)
    (hok : sparesIdle s op) (hop : op.creates = false) (rsp : Addr) :
    Raises s rsp (exec_traced s (op.saving rsp)) := by
  cases op with
  | schedule _ => exact .raises (KeepsStacks.refl s) h.core h.cur
  | yield _ => exact yield_raises (KeepsStacks.refl s) h.core h.cur rsp
  | createProcess rip args argc priority fds ground => cases hop
  | blockProcess pid _ => exact blockProcess_raises hn h hok rsp
  | setReadyProcess pid => exact .ends (keepsStacks_setReadyProcess s pid)
  | waitProcess pid _ =>
    have hcurrent : (findProcess s pid).isSome → getPid s ≠ pid → getPid s ≠ IDLE_PID := hok
    simp only [Op.saving, exec_traced]
    cases hf : findProcess s pid with
    | none => exact .ends (KeepsStacks.refl s)
    | some target =>
      rw [hf] at hcurrent
      dsimp only
      by_cases hself : getPid s = pid
      · rw [if_pos hself]
        exact .ends (KeepsStacks.refl s)
      · rw [if_neg hself]
        have hraises := blockProcess_raises hn
          (inv_enlist h target (findProcess s (getPid s))) (hcurrent rfl hself) rsp
        exact hraises.after (keepsStacks_enlist s target _)
  | changePriority pid priority => exact .ends (keepsStacks_changePriority s pid priority)
  | killProcess pid => exact .ends (keepsStacks_killProcess s pid)
  | killForegroundProcess => exact .ends (keepsStacks_killForegroundProcess s)
  | reuse p content => exact .ends (keepsStacks_reuse s p content)

end Raises

end bare_bones.scheduler

namespace bare_bones.semaphore

open bare_bones.doubleLinkedList bare_bones.process bare_bones.scheduler
open bare_bones.process_table

variable {H : Type}

def Call.saving (rsp : Addr) : Call → Call
  | .scheduler op => .scheduler (op.saving rsp)
  | .sem_wait id _ => .sem_wait id rsp
  | c => c

def Call.creates : Call → Bool
  | .scheduler op => op.creates
  | _ => false

variable [MemoryManager H]

omit [MemoryManager H] in
theorem sparesIdle_saving (s : System H) (c : Call) (rsp : Addr) :
    sparesIdle s (c.saving rsp) ↔ sparesIdle s c := by
  cases c with
  | scheduler op => cases op <;> exact Iff.rfl
  | _ => exact Iff.rfl

/-- The kernel when a call raises the timer interrupt, if it does. -/
def raised (k : Kernel H) : Call → Option (Kernel H)
  | .scheduler op => (exec_traced k.scheduler op).1.head?.map k.setScheduler
  | .sem_wait id rsp =>
    (sem_wait_traced 1 k id rsp).bind fun r => r.2.2.passes.dropLast.head?
  | _ => none

/-- A call comes to its end and the processor stays where it is, or a tick follows. -/
inductive Continues (k : Kernel H) (c : Call) (rsp : Addr) : Prop
  | ends (hraised : raised k (c.saving rsp) = none)
      (hkeeps : KeepsStacks k.scheduler (after k (c.saving rsp)).scheduler)
  | raises (k₁ : Kernel H) (hraised : raised k (c.saving rsp) = some k₁)
      (hafter : after k (c.saving rsp) = k₁.setScheduler (schedule k₁.scheduler rsp).2)
      (hkeeps : KeepsStacks k.scheduler k₁.scheduler) (hcore : Core none k₁.scheduler.view)
      (hcur : Cur k₁.scheduler.view)

theorem keepsStacks_sem_create (k : Kernel H) (id : Int) (initialValue : Nat) :
    KeepsStacks k.scheduler (sem_create k id initialValue).2.scheduler := by
  unfold sem_create
  split
  · exact KeepsStacks.refl _
  · split
    · split <;> exact KeepsStacks.of_eq rfl rfl rfl rfl
    · exact KeepsStacks.refl _

theorem keepsStacks_sem_destroy {k k' : Kernel H} {id r : Int}
    (h : sem_destroy k id = some (r, k')) : KeepsStacks k.scheduler k'.scheduler := by
  unfold sem_destroy at h
  split at h
  · cases h
    exact KeepsStacks.refl _
  split at h
  · cases h
    exact KeepsStacks.refl _
  split at h
  · cases h
  · cases h
    exact KeepsStacks.of_eq rfl rfl rfl rfl

theorem keepsStacks_sem_post {k k' : Kernel H} {id r : Int} (h : sem_post k id = some (r, k')) :
    KeepsStacks k.scheduler k'.scheduler := by
  unfold sem_post at h
  split at h
  · cases h
    exact KeepsStacks.refl _
  split at h
  · cases h
  split at h
  · cases h
    exact KeepsStacks.of_eq rfl rfl rfl rfl
  · cases h
    apply KeepsStacks.trans _ (keepsStacks_setReadyProcess _ _)
    exact KeepsStacks.of_eq rfl rfl rfl rfl

theorem keepsStacks_after {k : Kernel H} {c : Call}
    (h : ∀ r k', call k c = some (r, k') → KeepsStacks k.scheduler k'.scheduler) :
    KeepsStacks k.scheduler (after k c).scheduler := by
  unfold after
  split
  · exact KeepsStacks.refl _
  · rename_i r k' hcall
    exact h r k' hcall

/-- `sem_wait` raises the interrupt once its caller is in the queue. -/
theorem sem_wait_continues (hn : Serves H NODE_SIZE) {k : Kernel H} (h : Inv k.scheduler.view)
    (hfree : Unlocked k) (id : Int) (hok : getPid k.scheduler ≠ IDLE_PID) (old rsp : Addr) :
    Continues k (.sem_wait id old) rsp := by
  have hends : ∀ (r : Int) (k' : Kernel H) (exchanges : List Nat),
      sem_wait_traced 1 k id rsp = some (r, k', ⟨exchanges, [k']⟩) →
      sem_wait k id rsp = some (r, k') → KeepsStacks k.scheduler k'.scheduler →
      Continues k (.sem_wait id old) rsp := by
    intro r k' exchanges htraced hplain hkeeps
    apply Continues.ends
    · simp [Call.saving, raised, htraced]
    · have hafter : after k (.sem_wait id rsp) = k' := after_some hplain
      rw [Call.saving, hafter]
      exact hkeeps
  rcases valid_cases id with hv | hv
  · apply hends (-1) k []
    · rw [sem_wait_traced, if_pos hv]
    · exact sem_wait_invalid k rsp hv
    · exact KeepsStacks.refl _
  have hlock := hfree id
  have hacquire := acquire_traced_spec Nat.one_pos 0
  rcases Nat.eq_zero_or_pos (k.semaphores id).counter with hc | hc
  · rcases ha : mm_alloc PID_SIZE k.scheduler.heap with ⟨_ | block, heap⟩
    · apply hends (-1) (k.setHeap heap) [1]
      · simp [sem_wait_traced, hv, hlock, hacquire, hc, ha, (hfree.setHeap heap).release id]
      · exact sem_wait_noPid rsp hv hlock hc ha
      · exact KeepsStacks.of_eq rfl rfl rfl rfl
    · rcases hq : addWaiter (k.semaphores id).waitQueue ⟨block, getPid k.scheduler⟩ heap with
        ⟨waitQueue, heap'⟩
      have hunlocked := (hfree.setHeap heap').setQueue id waitQueue
      have hplain := sem_wait_waits rsp hv hlock hc ha hq
      have hkeeps : KeepsStacks k.scheduler ((k.setHeap heap').setQueue id waitQueue).scheduler :=
        KeepsStacks.of_eq rfl rfl rfl rfl
      have hinv : Inv ((k.setHeap heap').setQueue id waitQueue).scheduler.view := h
      have hraises : Raises ((k.setHeap heap').setQueue id waitQueue).scheduler rsp
          (blockProcess_traced ((k.setHeap heap').setQueue id waitQueue).scheduler
            (getPid k.scheduler) rsp) := blockProcess_raises hn hinv hok rsp
      have hafter : after k (.sem_wait id rsp) =
          ((k.setHeap heap').setQueue id waitQueue).setScheduler
            (blockProcess_traced ((k.setHeap heap').setQueue id waitQueue).scheduler
              (getPid k.scheduler) rsp).2 := by
        rw [blockProcess_traced_eq]
        exact after_some hplain
      generalize hk' : (k.setHeap heap').setQueue id waitQueue = k' at *
      generalize hb : blockProcess_traced k'.scheduler (getPid k.scheduler) rsp = blocked at *
      have htraced : sem_wait_traced 1 k id rsp = some (0, k'.setScheduler blocked.2,
          ⟨[1], blocked.1.map k'.setScheduler ++ [k'.setScheduler blocked.2]⟩) := by
        simp [sem_wait_traced, hv, hlock, hacquire, hc, ha, hq, hk', hb, hunlocked.release id]
      cases hraises with
      | ends hends' =>
        apply Continues.ends
        · simp [Call.saving, raised, htraced]
        · rw [Call.saving, hafter]
          exact hkeeps.trans hends'
      | @raises s₁ hkeeps₁ hcore hcur =>
        apply Continues.raises (k'.setScheduler s₁)
        · simp [Call.saving, raised, htraced]
        · rw [Call.saving, hafter]
          rfl
        · exact hkeeps.trans hkeeps₁
        · exact hcore
        · exact hcur
  · have hunlocked := hfree.setCounter id ((k.semaphores id).counter - 1)
    apply hends 0 (k.setCounter id ((k.semaphores id).counter - 1)) [1]
    · simp [sem_wait_traced, hv, hlock, hacquire, hc, hunlocked.release id]
    · exact sem_wait_token rsp hv hlock hc
    · exact KeepsStacks.of_eq rfl rfl rfl rfl

theorem call_continues (hn : Serves H NODE_SIZE) {k : Kernel H} (h : Inv k.scheduler.view)
    (hfree : Unlocked k) (c : Call) (hok : sparesIdle ⟨k, .start⟩ c) (hc : c.creates = false)
    (rsp : Addr) : Continues k c rsp := by
  cases c with
  | scheduler op =>
    have hraises := exec_traced_raises hn h op hok hc rsp
    have heq := exec_traced_eq k.scheduler (op.saving rsp)
    have hafter : after k (.scheduler (op.saving rsp)) =
        k.setScheduler (exec k.scheduler (op.saving rsp)) := rfl
    rw [← heq] at hafter
    generalize ht : exec_traced k.scheduler (op.saving rsp) = traced at hraises hafter
    cases hraises with
    | ends hkeeps =>
      apply Continues.ends
      · simp [Call.saving, raised, ht]
      · exact hafter ▸ hkeeps
    | @raises s₁ hkeeps hcore hcur =>
      apply Continues.raises (k.setScheduler s₁)
      · simp [Call.saving, raised, ht]
      · exact hafter
      · exact hkeeps
      · exact hcore
      · exact hcur
  | sem_create id initialValue =>
    apply Continues.ends rfl
    apply keepsStacks_after
    intro r k' hcall
    have hkeeps := keepsStacks_sem_create k id initialValue
    rwa [Option.some.inj hcall] at hkeeps
  | sem_destroy id =>
    apply Continues.ends rfl
    exact keepsStacks_after fun r k' hcall => keepsStacks_sem_destroy hcall
  | sem_wait id old => exact sem_wait_continues hn h hfree id hok old rsp
  | sem_post id =>
    apply Continues.ends rfl
    exact keepsStacks_after fun r k' hcall => keepsStacks_sem_post hcall

end bare_bones.semaphore
