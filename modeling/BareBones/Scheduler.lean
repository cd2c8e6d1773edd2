-- `scheduler.c` and the calls of `process.c` that use it. The kernel is not
-- preemptive: each call runs with interrupts off, and the processor changes
-- hands only in `schedule`.
import BareBones.Process
import Mathlib.Logic.Function.Basic

namespace bare_bones.scheduler

open bare_bones.doubleLinkedList bare_bones.process

variable {H : Type}

def MAX_PROCESS : Nat := 30
def MIN_QUANTUMS : Int := 1
def MIN_PRIORITY : Nat := 1
def MAX_PRIORITY : Nat := 10
def NO_PROCESS : Int := -1
def IDLE_PID : Int := 0
def SHELL_PID : Int := 1

def STDIN : Fin CANT_FILE_DESCRIPTORS := 0
def STDOUT : Fin CANT_FILE_DESCRIPTORS := 1
def STDERR : Fin CANT_FILE_DESCRIPTORS := 2

/-- `sizeof(schedulerCDT)`. -/
def SCHEDULER_SIZE : Nat := 48

/-- `schedulerCDT`, the PCBs and the heap under them. -/
structure Scheduler (H : Type) where
  heap : H
  processList : DoubleLinkedList Pcb
  readyProcess : DoubleLinkedList Pcb
  blockedProcess : DoubleLinkedList Pcb
  currentPid : Int
  currentProcess : Option Pcb
  processQty : Nat
  quantums : Int
  /-- What a read through a `ProcessContext` pointer gives, freed or not. -/
  pcb : Pcb → ProcessContext
  /-- How many PCBs were allocated so far. No code reads it. -/
  pcbQty : Nat
  /-- How often each PCB was freed. No code reads it. -/
  frees : Pcb → Nat

namespace Scheduler

def procs (s : Scheduler H) : List Pcb := s.processList.data
def ready (s : Scheduler H) : List Pcb := s.readyProcess.data
def blocked (s : Scheduler H) : List Pcb := s.blockedProcess.data

def status (s : Scheduler H) (p : Pcb) : ProcessState := (s.pcb p).status
def pid (s : Scheduler H) (p : Pcb) : Int := (s.pcb p).pid

def setPcb (s : Scheduler H) (p : Pcb) (c : ProcessContext) : Scheduler H :=
  { s with pcb := Function.update s.pcb p c }

def setStatus (s : Scheduler H) (p : Pcb) (status : ProcessState) : Scheduler H :=
  s.setPcb p { s.pcb p with status := status }

theorem pcb_setPcb_self (s : Scheduler H) (p : Pcb) (c : ProcessContext) :
    (s.setPcb p c).pcb p = c := by simp [setPcb]

theorem pcb_setPcb_ne (s : Scheduler H) {p q : Pcb} (c : ProcessContext) (h : q ≠ p) :
    (s.setPcb p c).pcb q = s.pcb q := by simp [setPcb, h]

end Scheduler

open Scheduler

section SetStatus

variable (s : Scheduler H) (p q : Pcb) (st : ProcessState)

theorem status_setStatus : (s.setStatus p st).status q = if q = p then st else s.status q := by
  by_cases h : q = p
  · subst h; simp [setStatus, setPcb, Scheduler.status]
  · simp [setStatus, setPcb, Scheduler.status, h]

@[simp] theorem pid_setStatus : (s.setStatus p st).pid q = s.pid q := by
  by_cases h : q = p
  · subst h; simp [setStatus, setPcb, Scheduler.pid]
  · simp [setStatus, setPcb, Scheduler.pid, h]

end SetStatus

/-! ## Reads -/

def findProcess (s : Scheduler H) (pid : Int) : Option Pcb :=
  s.procs.find? (fun p => s.pid p = pid)

theorem findProcess_some {s : Scheduler H} {pid : Int} {p : Pcb} (h : findProcess s pid = some p) :
    p ∈ s.procs ∧ s.pid p = pid :=
  ⟨List.mem_of_find?_eq_some h, by simpa using List.find?_some h⟩

def getPid (s : Scheduler H) : Int := s.currentPid

/-- The loop of `createProcess` over the pids. -/
def minFreePid (s : Scheduler H) : Option Nat :=
  (List.range MAX_PROCESS).find? (fun pid => (findProcess s pid).isNone)

/-- The descriptor of the pipe of a process, or -1. -/
def pipedFd (fds : Fin CANT_FILE_DESCRIPTORS → Int) : Int :=
  if fds STDIN ≠ STDIN.val then fds STDIN
  else if fds STDOUT ≠ STDOUT.val then fds STDOUT
  else -1

def pipedTo (s : Scheduler H) (fd : Int) : Option Pcb :=
  s.procs.find? (fun p =>
    (s.pcb p).fileDescriptors STDIN = fd ∨ (s.pcb p).fileDescriptors STDOUT = fd)

/-! ## Writes to one PCB -/

/-- The end of `schedule`: `process` gets the processor for its priority in
ticks. Gives its stack pointer. -/
def dispatch (s : Scheduler H) (process : Pcb) : Addr × Scheduler H :=
  ((s.pcb process).stackPos,
    { s with
      currentProcess := some process
      currentPid := s.pid process
      quantums := (s.pcb process).priority }.setStatus process .RUNNING)

def changePriority (s : Scheduler H) (pid : Int) (priority : Nat) : Int × Scheduler H :=
  if priority > MAX_PRIORITY ∨ priority < MIN_PRIORITY then (-1, s)
  else
    match findProcess s pid with
    | none => (-1, s)
    | some process =>
      (priority, s.setPcb process { s.pcb process with priority := priority })

/-! ## The queues -/

variable [MemoryManager H]

/-- `freeProcess`, counted. -/
def Scheduler.free (s : Scheduler H) (p : Pcb) : Scheduler H :=
  let (c, heap) := freeProcess (s.pcb p) s.heap
  { s with
    heap := heap
    pcb := Function.update s.pcb p c
    frees := Function.update s.frees p (s.frees p + 1) }

def setReadyProcess (s : Scheduler H) (pid : Int) : Int × Scheduler H :=
  match findProcess s pid with
  | none => (-1, s)
  | some process =>
    if s.status process = .BLOCKED then
      match removeNode s.blockedProcess process s.heap with
      | (none, _, _) => (-1, s)
      | (some _, blockedProcess, heap) =>
        let s := { s with blockedProcess := blockedProcess, heap := heap }
        match addNode s.readyProcess process s.heap with
        | (none, _, heap) => (-1, { s with heap := heap })
        | (some _, readyProcess, heap) =>
          (0, { s with readyProcess := readyProcess, heap := heap }.setStatus process .READY)
    else (0, s)

/-! ## The processor -/

/-- The middle of `schedule`: a process that was killed while it ran is freed
now, and one that still runs goes to the end of the ready queue. -/
def leaveCurrent (s : Scheduler H) (prevRSP : Addr) : Scheduler H :=
  match s.currentProcess with
  | none => s
  | some current =>
    if s.status current = .TERMINATED then
      { s.free current with currentProcess := none, currentPid := NO_PROCESS }
    else
      let s := s.setPcb current { s.pcb current with stackPos := prevRSP }
      if s.status current = .RUNNING then
        let s := s.setStatus current .READY
        let (_, readyProcess, heap) := addNode s.readyProcess current s.heap
        { s with readyProcess := readyProcess, heap := heap }
      else s

/-- The switch itself, once the quantums are spent. -/
def switch (s : Scheduler H) (prevRSP : Addr) : Addr × Scheduler H :=
  if s.currentPid = NO_PROCESS then
    match getFirstData s.readyProcess s.heap with
    | (none, readyProcess, heap) =>
      (prevRSP,
        { s with currentProcess := none, readyProcess := readyProcess, heap := heap })
    | (some first, readyProcess, heap) =>
      dispatch { s with readyProcess := readyProcess, heap := heap } first
  else
    let s := leaveCurrent s prevRSP
    match getFirstData s.readyProcess s.heap with
    | (none, readyProcess, heap) =>
      let s := { s with readyProcess := readyProcess, heap := heap }
      match findProcess s IDLE_PID with
      | none => (prevRSP, s)
      | some idle => dispatch s idle
    | (some first, readyProcess, heap) =>
      dispatch { s with readyProcess := readyProcess, heap := heap } first

/-- The timer tick. `created` is 1 and the scheduler is there, from
`createScheduler` on. -/
def schedule (s : Scheduler H) (prevRSP : Addr) : Addr × Scheduler H :=
  let s := { s with quantums := s.quantums - 1 }
  if s.processQty = 0 ∨ s.quantums > 0 then (prevRSP, s) else switch s prevRSP

/-- `yield` raises the timer interrupt itself; `rsp` is the stack pointer it
saves. -/
def yield (s : Scheduler H) (rsp : Addr) : Scheduler H :=
  (schedule { s with quantums := 0 } rsp).2

/-- When it blocks the caller, the result is that of the call once it runs
again. -/
def blockProcess (s : Scheduler H) (pid : Int) (rsp : Addr) : Int × Scheduler H :=
  match findProcess s pid with
  | none => (-1, s)
  | some process =>
    if s.status process = .RUNNING ∨ s.status process = .READY then
      match (if s.status process = .READY then removeNode s.readyProcess process s.heap
        else (some process, s.readyProcess, s.heap)) with
      | (none, _, _) => (-1, s)
      | (some _, readyProcess, heap) =>
        let s := { s with readyProcess := readyProcess, heap := heap }
        match addNode s.blockedProcess process s.heap with
        | (none, _, heap) => (-1, { s with heap := heap })
        | (some _, blockedProcess, heap) =>
          let s := { s with blockedProcess := blockedProcess, heap := heap }.setStatus
            process .BLOCKED
          if getPid s = pid then (0, yield s rsp) else (0, s)
    else if getPid s = pid then (0, yield s rsp) else (0, s)

/-! ## Life and death of a process -/

/-- The end of `createProcess`: the new process enters the process list and
the queue of its status. -/
def addProcess (s : Scheduler H) (newProcess : Pcb) : Scheduler H :=
  let (_, processList, heap) := addNode s.processList newProcess s.heap
  let s := { s with processList := processList, heap := heap, processQty := s.processQty + 1 }
  if s.status newProcess = .READY then
    let (_, readyProcess, heap) := addNode s.readyProcess newProcess s.heap
    { s with readyProcess := readyProcess, heap := heap }
  else if s.status newProcess = .BLOCKED then
    let (_, blockedProcess, heap) := addNode s.blockedProcess newProcess s.heap
    { s with blockedProcess := blockedProcess, heap := heap }
  else s

@[simp] theorem pcb_addProcess (s : Scheduler H) (p : Pcb) :
    (addProcess s p).pcb = s.pcb := by
  unfold addProcess
  dsimp only
  split
  · rfl
  · split <;> rfl

def createProcess (s : Scheduler H) (rip : Addr) (args : Args) (argc : Int) (priority : Nat)
    (fileDescriptors : Option (Fin CANT_FILE_DESCRIPTORS → Int)) (ground : Nat) :
    Int × Scheduler H :=
  if s.processQty ≥ MAX_PROCESS then (-1, s)
  else
    match mm_alloc PCB_SIZE s.heap with
    | (none, heap) => (-1, { s with heap := heap })
    | (some block, heap) =>
      let newProcess := s.pcbQty
      let s := { s with heap := heap, pcbQty := s.pcbQty + 1 }.setPcb newProcess
        (.zeroed block)
      match minFreePid s with
      | none => (-1, s.free newProcess)
      | some pid =>
        match initializeProcess (s.pcb newProcess) pid args argc priority rip ground
          fileDescriptors s.heap with
        | (-1, process, heap) =>
          (-1, ({ s with heap := heap }.setPcb newProcess process).free newProcess)
        | (_, process, heap) =>
          let s := addProcess ({ s with heap := heap }.setPcb newProcess process) newProcess
          (s.pid newProcess, s)

/-- The first lines of `kill`: the victim leaves its queue. -/
def leaveQueue (s : Scheduler H) (process : Pcb) : Option (Scheduler H) :=
  match s.status process with
  | .READY =>
    match removeNode s.readyProcess process s.heap with
    | (none, _, _) => none
    | (some _, readyProcess, heap) =>
      some { s with readyProcess := readyProcess, heap := heap }
  | .BLOCKED =>
    match removeNode s.blockedProcess process s.heap with
    | (none, _, _) => none
    | (some _, blockedProcess, heap) =>
      some { s with blockedProcess := blockedProcess, heap := heap }
  | _ => some s

/-- The loop of `kill` over the waiters. It reads `aux->pid` through the
pointer of the list, also when that PCB is freed. -/
def wakeWaiters : List (Option Pcb) → Scheduler H → Scheduler H
  | [], s => s
  | none :: rest, s => wakeWaiters rest s
  | some aux :: rest, s => wakeWaiters rest (setReadyProcess s (s.pid aux)).2

/-- The end of `kill`: the victim leaves the process list. It is freed at
once, but for the current process, that `schedule` frees. -/
def terminate (s : Scheduler H) (process : Pcb) : Int × Scheduler H :=
  match removeNode s.processList process s.heap with
  | (none, _, _) => (-1, s)
  | (some _, processList, heap) =>
    let s := { s with processList := processList, heap := heap }.setStatus process .TERMINATED
    -- `processQty` is a `uint16_t`
    let s := { s with processQty := (s.processQty + 2 ^ 16 - 1) % 2 ^ 16 }
    if s.currentProcess = some process then (0, s) else (0, s.free process)

def kill (s : Scheduler H) (process : Pcb) : Int × Scheduler H :=
  match leaveQueue s process with
  | none => (-1, s)
  | some s => terminate (wakeWaiters (s.pcb process).waiters s) process

def killProcess (s : Scheduler H) (pid : Int) : Int × Scheduler H :=
  match findProcess s pid with
  | none => (-1, s)
  | some process =>
    let fd := pipedFd (s.pcb process).fileDescriptors
    let (result, s) := kill s process
    if result = -1 then (-1, s)
    else if fd ≠ -1 then
      match pipedTo s fd with
      | none => (0, s)
      | some aux => kill s aux
    else (0, s)

/-- It reads `currentProcess->pid`, so there must be a current process. -/
def killCurrentProcess (s : Scheduler H) (current : Pcb) : Int × Scheduler H :=
  killProcess s (s.pid current)

/-- Ctrl+C. A foreground process has `ground` 0. The `^C` that it prints is
left out. -/
def killForegroundProcess (s : Scheduler H) : Int × Scheduler H :=
  match s.currentProcess with
  | none => (-1, s)
  | some current =>
    if (s.pcb current).ground = 0 ∧ s.pid current ≠ SHELL_PID then
      killCurrentProcess s current
    else
      match s.procs.find? (fun p => (s.pcb p).ground = 0 ∧ s.pid p ≠ SHELL_PID) with
      | none => (0, s)
      | some aux => kill s aux

def waitProcess (s : Scheduler H) (pid : Int) (rsp : Addr) : Int × Scheduler H :=
  let currentPid := getPid s
  match findProcess s pid with
  | none => (-1, s)
  | some pcb =>
    if currentPid = pid then (-1, s)
    else
      let currentProcess := findProcess s currentPid
      let s := match (s.pcb pcb).waitingList with
        | none => s
        | some list =>
          let (_, list, heap) := addNode list currentProcess s.heap
          { s with heap := heap }.setPcb pcb { s.pcb pcb with waitingList := some list }
      (0, (blockProcess s currentPid rsp).2)

/-! ## The start -/

def idleDescriptors : Fin CANT_FILE_DESCRIPTORS → Int := fun i => if i = STDERR then 2 else -1

/-- The scheduler with its three lists and no process. -/
def emptyScheduler (heap : H) (processList readyProcess blockedProcess : DoubleLinkedList Pcb) :
    Scheduler H where
  heap := heap
  processList := processList
  readyProcess := readyProcess
  blockedProcess := blockedProcess
  currentPid := NO_PROCESS
  currentProcess := none
  processQty := 0
  quantums := MIN_QUANTUMS
  pcb := fun _ => .zeroed 0
  pcbQty := 0
  frees := fun _ => 0

/-- `createScheduler`, with `idle` at the address `rip`. It is `none` when the
heap has no room for the scheduler and its lists; `main` calls it on a fresh
heap. -/
def createScheduler (rip : Addr) (heap : H) : Option (Scheduler H) :=
  match mm_alloc SCHEDULER_SIZE heap with
  | (none, _) => none
  | (some _, heap) =>
    match createDoubleLinkedListADT heap with
    | (none, _) => none
    | (some processList, heap) =>
      match createDoubleLinkedListADT heap with
      | (none, _) => none
      | (some readyProcess, heap) =>
        match createDoubleLinkedListADT heap with
        | (none, _) => none
        | (some blockedProcess, heap) =>
          let args : Args := some (fun i => if i = 0 then some [105, 100, 108, 101] else none)
          some (createProcess (emptyScheduler heap processList readyProcess blockedProcess) rip
            args 1 MIN_PRIORITY (some idleDescriptors) 1).2

end bare_bones.scheduler
