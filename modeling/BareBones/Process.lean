-- `process.c`: the process control block, with every block of the heap that
-- it owns, and how it is filled in and freed.
import BareBones.DoubleLinkedList

namespace bare_bones.process

open bare_bones.doubleLinkedList

variable {H : Type} [MemoryManager H]

abbrev CANT_FILE_DESCRIPTORS : Nat := 3
def STACK_SIZE : Nat := 4096

/-- `sizeof(ProcessContext)`. -/
def PCB_SIZE : Nat := 80

inductive ProcessState
  | READY
  | RUNNING
  | BLOCKED
  | TERMINATED
deriving DecidableEq, Repr

/-- A C string, without its terminator. -/
abbrev CString := List UInt8

/-- `char **args` of `createProcess`: `NULL`, or the entries of the array. -/
abbrev Args := Option (Nat → Option CString)

/-- The copy of `args` in the heap: the array, and the block of each entry. -/
structure Argv where
  array : Addr
  strings : List Addr
deriving DecidableEq

/-- The copy of the name in the heap. -/
structure Name where
  block : Addr
  chars : CString
deriving DecidableEq

/-- A pointer to a `ProcessContext`: the number of its allocation, counted
from 0. A block that `mm_free` got back and `mm_alloc` gives again is a new
allocation. -/
abbrev Pcb := Nat

structure ProcessContext where
  /-- The block that holds the PCB itself. -/
  block : Addr
  name : Option Name
  priority : Nat
  pid : Int
  stackBase : Addr
  stackPos : Addr
  status : ProcessState
  ground : Nat
  argv : Option Argv
  argc : Int
  rip : Addr
  fileDescriptors : Fin CANT_FILE_DESCRIPTORS → Int
  /-- The waiters. An entry is `NULL` when the caller of `waitProcess` had no
  PCB in the process list. -/
  waitingList : Option (DoubleLinkedList (Option Pcb))

/-- A PCB after `memset(newProcess, 0, sizeof(ProcessContext))`. -/
def ProcessContext.zeroed (block : Addr) : ProcessContext where
  block := block
  name := none
  priority := 0
  pid := 0
  stackBase := 0
  stackPos := 0
  status := .READY
  ground := 0
  argv := none
  argc := 0
  rip := 0
  fileDescriptors := fun _ => 0
  waitingList := none

/-- The waiters of a PCB, first come first. -/
def ProcessContext.waiters (process : ProcessContext) : List (Option Pcb) :=
  match process.waitingList with
  | none => []
  | some list => list.data

/-- `setupStackFrame` aligns the base down to 16 and pushes 20 words. -/
def setupStackFrame (stackBase : Addr) : Addr := stackBase / 16 * 16 - 20 * 8

def freeArgv (argv : Argv) (h : H) : H := mm_free argv.array (freeAll argv.strings h)

/-- The loop of `allocArgv`: copies the entries from `i` on, `n` of them. On a
`NULL` entry or a failed copy it frees the copies made so far. -/
def allocArgv_loop (argv : Nat → Option CString) :
    Nat → Nat → List Addr → H → Option (List Addr) × H
  | 0, _, copies, h => (some copies, h)
  | n + 1, i, copies, h =>
    match argv i with
    | none => (none, freeAll copies h)
    | some chars =>
      match mm_alloc (chars.length + 1) h with
      | (none, h) => (none, freeAll copies h)
      | (some copy, h) => allocArgv_loop argv n (i + 1) (copies ++ [copy]) h

def allocArgv (argv : Args) (argc : Int) (h : H) : Option Argv × H :=
  if argc ≤ 0 then
    match mm_alloc 8 h with
    | (none, h) => (none, h)
    | (some array, h) => (some ⟨array, []⟩, h)
  else
    match argv with
    | none => (none, h)
    | some argv =>
      match mm_alloc ((argc.toNat + 1) * 8) h with
      | (none, h) => (none, h)
      | (some array, h) =>
        match allocArgv_loop argv argc.toNat 0 [] h with
        | (none, h) => (none, mm_free array h)
        | (some strings, h) => (some ⟨array, strings⟩, h)

/-- The name of a process: `args[0]`, or `"process"` when it has none. -/
def processName (args : Args) (argc : Int) : CString :=
  let process : CString := [112, 114, 111, 99, 101, 115, 115]
  if argc > 0 then
    match args with
    | none => process
    | some args => (args 0).getD process
  else process

/-- Fills in a PCB. On -1 every block taken on the way is free again and its
pointer is `NULL`. -/
def initializeProcess (process : ProcessContext) (pid : Int) (args : Args) (argc : Int)
    (priority : Nat) (rip : Addr) (ground : Nat)
    (fileDescriptors : Option (Fin CANT_FILE_DESCRIPTORS → Int)) (h : H) :
    Int × ProcessContext × H :=
  let process := { process with
    stackBase := 0, stackPos := 0, argv := none, argc := argc, name := none,
    priority := priority, pid := pid, rip := rip, ground := ground, waitingList := none,
    status := .READY }
  match mm_alloc STACK_SIZE h with
  | (none, h) => (-1, process, h)
  | (some stack, h) =>
    match allocArgv args argc h with
    | (none, h) => (-1, process, mm_free stack h)
    | (some argv, h) =>
      let name := processName args argc
      match mm_alloc (name.length + 1) h with
      | (none, h) => (-1, process, mm_free stack (freeArgv argv h))
      | (some block, h) =>
        let process := { process with
          stackBase := stack + STACK_SIZE
          stackPos := setupStackFrame (stack + STACK_SIZE)
          fileDescriptors := fileDescriptors.getD (fun i => i.val) }
        match createDoubleLinkedListADT h with
        | (none, h) =>
          (-1, { process with stackBase := 0 },
            mm_free stack (freeArgv argv (mm_free block h)))
        | (some waitingList, h) =>
          (0, { process with
            argv := some argv, name := some ⟨block, name⟩, waitingList := some waitingList }, h)

/-- Frees what a PCB owns, and then its own block. The freed PCB keeps its
other fields until the heap gives the block away. -/
def freeProcess (pcb : ProcessContext) (h : H) : ProcessContext × H :=
  let h := match pcb.argv with
    | none => h
    | some argv => freeArgv argv h
  let h := match pcb.name with
    | none => h
    | some name => mm_free name.block h
  let h := if pcb.stackBase ≥ STACK_SIZE then mm_free (pcb.stackBase - STACK_SIZE) h else h
  let h := match pcb.waitingList with
    | none => h
    | some waitingList => freeLinkedListADT waitingList h
  ({ pcb with
    argv := none
    name := none
    stackBase := if pcb.stackBase ≥ STACK_SIZE then 0 else pcb.stackBase
    waitingList := none }, mm_free pcb.block h)

/-- A PCB that was filled in: it is READY, has the data of the call and no
waiter yet. -/
theorem initializeProcess_filled {process p : ProcessContext} {pid : Int} {args : Args}
    {argc : Int} {priority : Nat} {rip : Addr} {ground : Nat}
    {fileDescriptors : Option (Fin CANT_FILE_DESCRIPTORS → Int)} {h h' : H} {r : Int}
    (hi : initializeProcess process pid args argc priority rip ground fileDescriptors h =
      (r, p, h')) (hr : r ≠ -1) :
    p.pid = pid ∧ p.status = .READY ∧ p.priority = priority ∧ p.ground = ground ∧
      p.fileDescriptors = fileDescriptors.getD (fun i => i.val) ∧
      p.waitingList.map (·.data) = some [] := by
  unfold initializeProcess at hi
  dsimp only at hi
  split at hi
  · cases hi
    exact absurd rfl hr
  split at hi
  · cases hi
    exact absurd rfl hr
  split at hi
  · cases hi
    exact absurd rfl hr
  split at hi
  · cases hi
    exact absurd rfl hr
  · rename_i waitingList _ hl
    cases hi
    exact ⟨rfl, rfl, rfl, rfl, rfl, congrArg some (createDoubleLinkedListADT_data hl)⟩

end bare_bones.process
