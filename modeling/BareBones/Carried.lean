-- One manager seen through another. When `f` carries the answers of one over to
-- the other, the kernel does the same over both: so the account of an audited
-- heap changes nothing.
import BareBones.Audited
import BareBones.Scheduler

namespace bare_bones

variable {H K : Type} [MemoryManager H] [MemoryManager K]

/-- The manager of `K` answers as that of `H` does, and `f` keeps up. -/
structure Carries (f : H → K) : Prop where
  alloc : ∀ bytes h, mm_alloc bytes (f h) = ((mm_alloc bytes h).1, f (mm_alloc bytes h).2)
  free : ∀ a h, mm_free a (f h) = f (mm_free a h)

theorem carries_manager {H : Type} [Accountable H] :
    Carries (Audited.manager : Audited H → H) where
  alloc bytes h := Prod.ext (Audited.alloc_manager bytes h).1.symm
    (Audited.alloc_manager bytes h).2.symm
  free a h := (Audited.free_manager a h).symm

variable {f : H → K} (hf : Carries f)

include hf

theorem freeAll_carried (blocks : List Addr) (h : H) :
    freeAll blocks (f h) = f (freeAll blocks h) := by
  induction blocks generalizing h with
  | nil => rfl
  | cons a blocks ih =>
    have hstep : freeAll (a :: blocks) (f h) = freeAll blocks (mm_free a (f h)) := rfl
    rw [hstep, hf.free, ih]
    rfl

/-! ## Lists -/

namespace doubleLinkedList

variable {α : Type}

theorem createDoubleLinkedListADT_carried (h : H) :
    (createDoubleLinkedListADT (f h) : Option (DoubleLinkedList α) × K) =
      ((createDoubleLinkedListADT h).1,
        f (createDoubleLinkedListADT h : Option (DoubleLinkedList α) × H).2) := by
  unfold createDoubleLinkedListADT
  rw [hf.alloc]
  cases mm_alloc LIST_SIZE h with
  | mk r h' => cases r <;> rfl

theorem addNode_carried (list : DoubleLinkedList α) (x : α) (h : H) :
    addNode list x (f h) =
      ((addNode list x h).1, (addNode list x h).2.1, f (addNode list x h).2.2) := by
  unfold addNode
  rw [hf.alloc]
  cases mm_alloc NODE_SIZE h with
  | mk r h' => cases r <;> rfl

theorem freeLinkedListADT_carried (list : DoubleLinkedList α) (h : H) :
    freeLinkedListADT list (f h) = f (freeLinkedListADT list h) := by
  unfold freeLinkedListADT
  rw [freeAll_carried hf, hf.free]

end doubleLinkedList

open doubleLinkedList

/-! ## Processes -/

namespace process

theorem freeArgv_carried (argv : Argv) (h : H) : freeArgv argv (f h) = f (freeArgv argv h) := by
  unfold freeArgv
  rw [freeAll_carried hf, hf.free]

theorem allocArgv_loop_carried (argv : Nat → Option CString) (n i : Nat) (copies : List Addr)
    (h : H) : allocArgv_loop argv n i copies (f h) =
      ((allocArgv_loop argv n i copies h).1, f (allocArgv_loop argv n i copies h).2) := by
  induction n generalizing i copies h with
  | zero => rfl
  | succ n ih =>
    unfold allocArgv_loop
    cases argv i with
    | none => exact congrArg (Prod.mk none) (freeAll_carried hf copies h)
    | some chars =>
      dsimp only
      rw [hf.alloc]
      cases mm_alloc (chars.length + 1) h with
      | mk r h' =>
        cases r with
        | none => exact congrArg (Prod.mk none) (freeAll_carried hf copies h')
        | some copy => exact ih _ _ _

theorem allocArgv_carried (argv : Args) (argc : Int) (h : H) :
    allocArgv argv argc (f h) = ((allocArgv argv argc h).1, f (allocArgv argv argc h).2) := by
  unfold allocArgv
  split
  · rw [hf.alloc]
    cases mm_alloc 8 h with
    | mk r h' => cases r <;> rfl
  · cases argv with
    | none => rfl
    | some argv =>
      dsimp only
      rw [hf.alloc]
      cases mm_alloc ((argc.toNat + 1) * 8) h with
      | mk r h' =>
        cases r with
        | none => rfl
        | some array =>
          dsimp only
          rw [allocArgv_loop_carried hf]
          cases allocArgv_loop argv argc.toNat 0 [] h' with
          | mk r h' =>
            cases r with
            | none => exact congrArg (Prod.mk none) (hf.free array h')
            | some strings => rfl

theorem initializeProcess_carried (process : ProcessContext) (pid : Int) (args : Args)
    (argc : Int) (priority : Nat) (rip : Addr) (ground : Nat)
    (fileDescriptors : Option (Fin CANT_FILE_DESCRIPTORS → Int)) (h : H) :
    initializeProcess process pid args argc priority rip ground fileDescriptors (f h) =
      ((initializeProcess process pid args argc priority rip ground fileDescriptors h).1,
        (initializeProcess process pid args argc priority rip ground fileDescriptors h).2.1,
        f (initializeProcess process pid args argc priority rip ground fileDescriptors h).2.2) := by
  unfold initializeProcess
  dsimp only
  rw [hf.alloc]
  cases mm_alloc STACK_SIZE h with
  | mk r h =>
    cases r with
    | none => rfl
    | some stack =>
      dsimp only
      rw [allocArgv_carried hf]
      cases allocArgv args argc h with
      | mk r h =>
        cases r with
        | none => simp only [hf.free]
        | some argv =>
          dsimp only
          rw [hf.alloc]
          cases mm_alloc ((processName args argc).length + 1) h with
          | mk r h =>
            cases r with
            | none => simp only [freeArgv_carried hf, hf.free]
            | some block =>
              dsimp only
              rw [createDoubleLinkedListADT_carried hf]
              cases (createDoubleLinkedListADT h : Option (DoubleLinkedList (Option Pcb)) × H) with
              | mk r h =>
                cases r with
                | none => simp only [freeArgv_carried hf, hf.free]
                | some waitingList => rfl

theorem freeProcess_carried (pcb : ProcessContext) (h : H) :
    freeProcess pcb (f h) = ((freeProcess pcb h).1, f (freeProcess pcb h).2) := by
  unfold freeProcess
  cases pcb.argv <;> cases pcb.name <;> cases pcb.waitingList <;>
    simp only [freeArgv_carried hf, hf.free, freeLinkedListADT_carried hf, ← apply_ite f]

end process

/-! ## The scheduler -/

namespace scheduler

open process

omit [MemoryManager H] [MemoryManager K] hf in
/-- The scheduler over the heap that `f` sees. -/
def Scheduler.onto (f : H → K) (s : Scheduler H) : Scheduler K where
  heap := f s.heap
  processList := s.processList
  readyProcess := s.readyProcess
  blockedProcess := s.blockedProcess
  currentPid := s.currentPid
  currentProcess := s.currentProcess
  processQty := s.processQty
  quantums := s.quantums
  pcb := s.pcb
  pcbQty := s.pcbQty
  frees := s.frees

theorem free_carried (s : Scheduler H) (p : Pcb) : (s.onto f).free p = (s.free p).onto f := by
  unfold Scheduler.free
  rw [show (s.onto f).heap = f s.heap from rfl, freeProcess_carried hf]
  rfl

theorem addProcess_carried (s : Scheduler H) (p : Pcb) :
    addProcess (s.onto f) p = (addProcess s p).onto f := by
  unfold addProcess
  rw [show (s.onto f).heap = f s.heap from rfl, addNode_carried hf]
  dsimp only
  by_cases hready : s.status p = .READY
  · refine (if_pos hready).trans (.trans ?_ (congrArg (Scheduler.onto f) (if_pos hready)).symm)
    rw [addNode_carried hf]
    rfl
  refine (if_neg hready).trans (.trans ?_ (congrArg (Scheduler.onto f) (if_neg hready)).symm)
  by_cases hblocked : s.status p = .BLOCKED
  · refine (if_pos hblocked).trans (.trans ?_ (congrArg (Scheduler.onto f) (if_pos hblocked)).symm)
    rw [addNode_carried hf]
    rfl
  · refine (if_neg hblocked).trans (.trans ?_ (congrArg (Scheduler.onto f) (if_neg hblocked)).symm)
    rfl

/-- A process is created in the same way over both heaps. -/
theorem createProcess_carried (s : Scheduler H) (rip : Addr) (args : Args) (argc : Int)
    (priority : Nat) (fileDescriptors : Option (Fin CANT_FILE_DESCRIPTORS → Int)) (ground : Nat) :
    createProcess (s.onto f) rip args argc priority fileDescriptors ground =
      ((createProcess s rip args argc priority fileDescriptors ground).1,
        (createProcess s rip args argc priority fileDescriptors ground).2.onto f) := by
  unfold createProcess
  by_cases hqty : s.processQty ≥ MAX_PROCESS
  · rw [if_pos hqty]
    exact if_pos hqty
  rw [if_neg hqty]
  apply (if_neg hqty).trans
  rw [show (s.onto f).heap = f s.heap from rfl, hf.alloc]
  cases mm_alloc PCB_SIZE s.heap with
  | mk r h =>
    cases r with
    | none => rfl
    | some block =>
      dsimp only
      have hborn : { s.onto f with heap := f h, pcbQty := (s.onto f).pcbQty + 1 }.setPcb
          (s.onto f).pcbQty (.zeroed block) =
          ({ s with heap := h, pcbQty := s.pcbQty + 1 }.setPcb s.pcbQty (.zeroed block)).onto f :=
        rfl
      rw [hborn]
      generalize { s with heap := h, pcbQty := s.pcbQty + 1 }.setPcb s.pcbQty (.zeroed block) = s₁
      rw [show minFreePid (s₁.onto f) = minFreePid s₁ from rfl]
      cases minFreePid s₁ with
      | none => exact congrArg (Prod.mk (-1)) (free_carried hf s₁ s.pcbQty)
      | some pid =>
        dsimp only
        rw [show (s₁.onto f).heap = f s₁.heap from rfl,
          show (s₁.onto f).pcb (s.onto f).pcbQty = s₁.pcb s.pcbQty from rfl,
          initializeProcess_carried hf]
        generalize initializeProcess (s₁.pcb s.pcbQty) pid args argc priority rip ground
          fileDescriptors s₁.heap = filled
        obtain ⟨r, c, h'⟩ := filled
        have hfilled : { s₁.onto f with heap := f h' }.setPcb s.pcbQty c =
            ({ s₁ with heap := h' }.setPcb s.pcbQty c).onto f := rfl
        rw [show (s.onto f).pcbQty = s.pcbQty from rfl]
        dsimp only
        split
        · rename_i heq
          cases heq
          rw [hfilled, free_carried hf]
          rfl
        · rename_i hne heq
          cases heq
          rw [hfilled, addProcess_carried hf]
          split
          · rename_i heq
            cases heq
            exact (hne rfl).elim
          · rename_i heq
            cases heq
            rfl

end scheduler

end bare_bones
