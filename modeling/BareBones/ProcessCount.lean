-- `processQty` against the length of the process list. Only `createProcess` adds to
-- one of them without the other: it counts the new process before it knows of its node.
import BareBones.HeapExhaustion

namespace bare_bones.scheduler

open bare_bones.doubleLinkedList bare_bones.process bare_bones.process_table runs
open Scheduler

variable {H : Type} [MemoryManager H]

/-! ## The calls that leave both alone -/

/-- The process list and its count are the same. -/
structure SameList (s s' : Scheduler H) : Prop where
  procs : s'.procs = s.procs
  qty : s'.processQty = s.processQty

omit [MemoryManager H] in
theorem SameList.refl (s : Scheduler H) : SameList s s := ⟨rfl, rfl⟩

omit [MemoryManager H] in
theorem SameList.trans {s₁ s₂ s₃ : Scheduler H} (h : SameList s₁ s₂) (h' : SameList s₂ s₃) :
    SameList s₁ s₃ := ⟨h'.procs.trans h.procs, h'.qty.trans h.qty⟩

omit [MemoryManager H] in
theorem SameList.before {s₁ s₂ s₃ : Scheduler H} (h : SameList s₂ s₃)
    (hprocs : s₂.procs = s₁.procs) (hqty : s₂.processQty = s₁.processQty) : SameList s₁ s₃ :=
  ⟨h.procs.trans hprocs, h.qty.trans hqty⟩

theorem sameList_leaveCurrent (s : Scheduler H) (rsp : Addr) : SameList s (leaveCurrent s rsp) := by
  unfold leaveCurrent
  split
  · exact .refl s
  · split
    · exact ⟨rfl, rfl⟩
    · dsimp only
      split <;> exact ⟨rfl, rfl⟩

theorem sameList_switch (s : Scheduler H) (rsp : Addr) : SameList s (switch s rsp).2 := by
  unfold switch
  split
  · split <;> exact ⟨rfl, rfl⟩
  · have hleft := sameList_leaveCurrent s rsp
    dsimp only
    split
    · split
      · exact hleft.trans ⟨rfl, rfl⟩
      · exact hleft.trans ⟨rfl, rfl⟩
    · exact hleft.trans ⟨rfl, rfl⟩

theorem sameList_schedule (s : Scheduler H) (rsp : Addr) : SameList s (schedule s rsp).2 := by
  unfold schedule
  dsimp only
  split
  · exact ⟨rfl, rfl⟩
  · exact (sameList_switch _ rsp).before rfl rfl

theorem sameList_yield (s : Scheduler H) (rsp : Addr) : SameList s (yield s rsp) :=
  (sameList_schedule { s with quantums := 0 } rsp).before rfl rfl

theorem sameList_ite_yield (s : Scheduler H) (b : Prop) [Decidable b] (rsp : Addr) :
    SameList s (if b then ((0 : Int), yield s rsp) else (0, s)).2 := by
  split
  · exact sameList_yield s rsp
  · exact .refl s

theorem sameList_blockProcess (s : Scheduler H) (pid : Int) (rsp : Addr) :
    SameList s (blockProcess s pid rsp).2 := by
  unfold blockProcess
  split
  · exact .refl s
  · split
    · split
      · exact .refl s
      · dsimp only
        split
        · exact ⟨rfl, rfl⟩
        · exact (sameList_ite_yield _ _ rsp).before rfl rfl
    · exact sameList_ite_yield s _ rsp

theorem sameList_setReadyProcess (s : Scheduler H) (pid : Int) :
    SameList s (setReadyProcess s pid).2 := by
  unfold setReadyProcess
  split
  · exact .refl s
  · split
    · split
      · exact .refl s
      · dsimp only
        split <;> exact ⟨rfl, rfl⟩
    · exact .refl s

theorem sameList_waitProcess (s : Scheduler H) (pid : Int) (rsp : Addr) :
    SameList s (waitProcess s pid rsp).2 := by
  unfold waitProcess
  dsimp only
  split
  · exact .refl s
  · split
    · exact .refl s
    · refine .trans ?_ (sameList_blockProcess _ _ rsp)
      split <;> exact ⟨rfl, rfl⟩

omit [MemoryManager H] in
theorem sameList_changePriority (s : Scheduler H) (pid : Int) (priority : Nat) :
    SameList s (changePriority s pid priority).2 := by
  unfold changePriority
  split
  · exact .refl s
  · split
    · exact .refl s
    · exact ⟨rfl, rfl⟩

theorem sameList_wakeWaiters (waiters : List (Option Pcb)) (s : Scheduler H) :
    SameList s (wakeWaiters waiters s) := by
  induction waiters generalizing s with
  | nil => exact .refl s
  | cons waiter waiters ih =>
    cases waiter with
    | none => exact ih s
    | some aux => exact (sameList_setReadyProcess s (s.pid aux)).trans (ih _)

theorem sameList_leaveQueue {s s' : Scheduler H} {p : Pcb} (h : leaveQueue s p = some s') :
    SameList s s' := by
  unfold leaveQueue at h
  split at h
  · split at h
    · cases h
    · cases h
      exact ⟨rfl, rfl⟩
  · split at h
    · cases h
    · cases h
      exact ⟨rfl, rfl⟩
  · cases h
    exact .refl s

/-! ## What is missing in the list -/

/-- The count is `d` more than there are processes in the list. -/
structure Missing (d : Nat) (s : Scheduler H) : Prop where
  count : s.processQty = s.procs.length + d
  most : s.processQty ≤ MAX_PROCESS

omit [MemoryManager H] in
theorem Missing.same {d : Nat} {s s' : Scheduler H} (h : Missing d s) (hs : SameList s s') :
    Missing d s' := by
  obtain ⟨hcount, hmost⟩ := h
  rw [← hs.procs, ← hs.qty] at hcount
  rw [← hs.qty] at hmost
  exact ⟨hcount, hmost⟩

theorem missing_terminate {d : Nat} {s : Scheduler H} (h : Missing d s) (p : Pcb) :
    Missing d (terminate s p).2 := by
  unfold terminate
  split
  · exact h
  · rename_i processList heap hr
    obtain ⟨hmem, hdata⟩ := removeNode_some hr
    have hlen : processList.data.length = s.procs.length - 1 := by
      rw [hdata]
      exact List.length_erase_of_mem hmem
    have hpos : 0 < s.procs.length := List.length_pos_of_mem hmem
    have hcount := h.count
    have hmost := h.most
    have hleft : Missing d { s with
        heap := heap
        processList := processList
        processQty := (s.processQty + 2 ^ 16 - 1) % 2 ^ 16 } := by
      have hwrap : (s.processQty + 2 ^ 16 - 1) % 2 ^ 16 = s.processQty - 1 := by
        unfold MAX_PROCESS at hmost
        omega
      constructor
      · change (s.processQty + 2 ^ 16 - 1) % 2 ^ 16 = processList.data.length + d
        omega
      · change (s.processQty + 2 ^ 16 - 1) % 2 ^ 16 ≤ MAX_PROCESS
        omega
    dsimp only
    split
    · exact hleft.same ⟨rfl, rfl⟩
    · exact hleft.same ⟨rfl, rfl⟩

theorem missing_kill {d : Nat} {s : Scheduler H} (h : Missing d s) (p : Pcb) :
    Missing d (kill s p).2 := by
  unfold kill
  split
  · exact h
  · rename_i s' hs
    exact missing_terminate ((h.same (sameList_leaveQueue hs)).same (sameList_wakeWaiters _ s')) p

theorem missing_killProcess {d : Nat} {s : Scheduler H} (h : Missing d s) (pid : Int) :
    Missing d (killProcess s pid).2 := by
  unfold killProcess
  split
  · exact h
  · rename_i p _
    have hkilled := missing_kill h p
    dsimp only
    split
    · exact hkilled
    · split
      · split
        · exact hkilled
        · exact missing_kill hkilled _
      · exact hkilled

theorem missing_killForegroundProcess {d : Nat} {s : Scheduler H} (h : Missing d s) :
    Missing d (killForegroundProcess s).2 := by
  unfold killForegroundProcess
  split
  · exact h
  · split
    · exact missing_killProcess h _
    · split
      · exact h
      · exact missing_kill h _

/-! ## The creation -/

/-- A creation that gets all the rest gets the node of the process list. -/
def listsCreated (s : Scheduler H) (args : Args) (argc : Int) : Prop :=
  s.processQty < MAX_PROCESS → (minFreePid s).isSome →
    ∀ requests ∈ processRequests args argc, ∀ heap ∈ serve (PCB_SIZE :: requests) s.heap,
      (mm_alloc NODE_SIZE heap).1.isSome

instance (s : Scheduler H) (args : Args) (argc : Int) : Decidable (listsCreated s args argc) :=
  inferInstanceAs (Decidable (_ → _ → ∀ requests ∈ processRequests args argc, _))

theorem missing_createProcess {d : Nat} {s : Scheduler H} (hs : Sturdy s.view) (h : Missing d s)
    (rip : Addr) (args : Args) (argc : Int) (priority : Nat)
    (fds : Option (Fin CANT_FILE_DESCRIPTORS → Int)) (ground : Nat) :
    Missing d (createProcess s rip args argc priority fds ground).2 ∨
      Missing (d + 1) (createProcess s rip args argc priority fds ground).2 ∧
        (createProcess s rip args argc priority fds ground).2.procs = s.procs ∧
        ¬ listsCreated s args argc := by
  have hc := createProcess_creation s rip args argc priority fds ground
  generalize createProcess s rip args argc priority fds ground = r at hc
  cases hc with
  | full hqty => exact .inl h
  | noBlock ha hv => exact .inl (h.same ⟨congrArg Table.procs hv, congrArg Table.qty hv⟩)
  | noPid hn hv => exact .inl (h.same ⟨congrArg Table.procs hv, congrArg Table.qty hv⟩)
  | notFilled ha hi hv => exact .inl (h.same ⟨congrArg Table.procs hv, congrArg Table.qty hv⟩)
  | @created s' block heap pid r c hqty ha hn hi hr hv =>
    obtain ⟨procs, ready, hp, -, hview⟩ := addProcess_filled hv (initializeProcess_filled hi hr).2.1
    have hprocs : (addProcess s' s.pcbQty).procs = procs := congrArg Table.procs hview
    have hcount : (addProcess s' s.pcbQty).processQty = s.processQty + 1 :=
      congrArg Table.qty hview
    have hd := h.count
    rcases hp with ⟨rfl, -⟩ | ⟨rfl, hnone⟩
    · refine .inl ⟨?_, hcount.trans_le hqty⟩
      rw [hprocs, hcount, List.length_append, List.length_singleton]
      omega
    · refine .inr ⟨⟨?_, hcount.trans_le hqty⟩, hprocs, fun hlists => ?_⟩
      · rw [hprocs, hcount]
        omega
      · obtain ⟨requests, hreq, hserve⟩ := (initializeProcess_served _ pid args argc priority rip
          ground fds heap s'.heap).mp ⟨r, c, hr, hi⟩
        have hpid : (minFreePid s).isSome := by
          rw [← minFreePid_alloc hs (entry (.zeroed block)), hn]
          rfl
        have hall : serve (PCB_SIZE :: requests) s.heap = some s'.heap := by
          simp [serve, ha, hserve]
        rw [hlists hqty hpid requests hreq s'.heap hall] at hnone
        cases hnone

/-! ## Every run -/

/-- The process list gets its node for every new process. -/
def listsItsProcess (s : Scheduler H) : KernelEvent → Prop
  | .call (.createProcess _ args argc _ _ _) => listsCreated s args argc
  | _ => True

instance (s : Scheduler H) (e : KernelEvent) : Decidable (listsItsProcess s e) :=
  match e with
  | .call (.createProcess _ args argc _ _ _) =>
    inferInstanceAs (Decidable (listsCreated s args argc))
  | .call (.schedule _) | .call (.yield _) | .call (.blockProcess _ _) | .call (.waitProcess _ _)
  | .call (.setReadyProcess _) | .call (.changePriority _ _) | .call (.killProcess _)
  | .call .killForegroundProcess | .call (.reuse _ _) | .mm_alloc _ | .mm_free _ => isTrue trivial

theorem missing_step {d : Nat} {s : Scheduler H} (hs : Sturdy s.view) (h : Missing d s)
    (e : KernelEvent) :
    Missing d (onEvent s e) ∨ Missing (d + 1) (onEvent s e) ∧ ¬ listsItsProcess s e := by
  cases e with
  | mm_alloc bytes => exact .inl (h.same ⟨rfl, rfl⟩)
  | mm_free ptr => exact .inl (h.same ⟨rfl, rfl⟩)
  | call op =>
    cases op with
    | createProcess rip args argc priority fds ground =>
      exact (missing_createProcess hs h rip args argc priority fds ground).imp_right
        fun hmore => ⟨hmore.1, hmore.2.2⟩
    | schedule rsp => exact .inl (h.same (sameList_schedule s rsp))
    | yield rsp => exact .inl (h.same (sameList_yield s rsp))
    | blockProcess pid rsp => exact .inl (h.same (sameList_blockProcess s pid rsp))
    | setReadyProcess pid => exact .inl (h.same (sameList_setReadyProcess s pid))
    | waitProcess pid rsp => exact .inl (h.same (sameList_waitProcess s pid rsp))
    | changePriority pid priority => exact .inl (h.same (sameList_changePriority s pid priority))
    | killProcess pid => exact .inl (missing_killProcess h pid)
    | killForegroundProcess => exact .inl (missing_killForegroundProcess h)
    | reuse p content =>
      refine .inl (h.same ?_)
      simp only [onEvent, exec]
      split <;> exact ⟨rfl, rfl⟩

/-- Idle is in the list and counted. -/
theorem missing_booted {s : Scheduler H} (h : Booted s) : Missing 0 s := by
  obtain ⟨rip, heap, hc, hidle⟩ := h
  obtain ⟨s₀, args, hempty, rfl⟩ := createScheduler_makes_idle hc
  have hprocs : s₀.procs = [] := hempty.procs
  have hqty : s₀.processQty = 0 := hempty.qty
  have h₀ : Missing 0 s₀ := ⟨by rw [hprocs, hqty, List.length_nil], hqty ▸ Nat.zero_le _⟩
  rcases missing_createProcess (sturdy_empty hempty) h₀ rip args 1 MIN_PRIORITY
    (some idleDescriptors) 1 with hnew | ⟨-, hlist, -⟩
  · exact hnew
  · obtain ⟨p, hp⟩ := Option.isSome_iff_exists.mp hidle
    have hmem := (findProcess_some hp).1
    rw [hlist, hprocs] at hmem
    cases hmem

/-- In every run the list is no longer than the count. -/
theorem missing_run {boot : Scheduler H} (h : Booted boot) (events : List KernelEvent) :
    ∃ d, Missing d (run onEvent boot events) := by
  have hall := run_keeps (I := fun s : Scheduler H => Sturdy s.view ∧ ∃ d, Missing d s)
    (fun s e hs => by
      obtain ⟨hsturdy, d, hd⟩ := hs
      refine ⟨sturdy_step hsturdy e, ?_⟩
      rcases missing_step hsturdy hd e with hsame | ⟨hmore, -⟩
      · exact ⟨d, hsame⟩
      · exact ⟨d + 1, hmore⟩) ⟨sturdy_booted h, 0, missing_booted h⟩ events
  exact hall.2

/-- While every new process is listed, nobody is missing. -/
theorem nobody_missing_run {boot : Scheduler H} (h : Booted boot) {events : List KernelEvent}
    (hlists : Meets onEvent listsItsProcess boot events) : Missing 0 (run onEvent boot events) := by
  have hall := run_invariant (I := fun s : Scheduler H => Sturdy s.view ∧ Missing 0 s)
    (fun s e hs hl => ⟨sturdy_step hs.1 e,
      (missing_step hs.1 hs.2 e).resolve_right fun hmore => hmore.2 hl⟩)
    ⟨sturdy_booted h, missing_booted h⟩ hlists
  exact hall.2

end bare_bones.scheduler
