-- `pipes.c`: a ring of 512 bytes, with one semaphore for the bytes, one for the
-- free cells and a mutex. `readPipe` and `writePipe` go on from one `sem_wait`
-- to the next at once: interrupts are off, and only `sem_wait` switches.
import BareBones.Lib.RingBuffer
import BareBones.Programs

namespace bare_bones.pipe_manager

open bare_bones.process bare_bones.scheduler bare_bones.semaphore bare_bones.program
open runs ring_buffer

variable {H : Type}

def MAX_PIPES : Nat := 16

def PIPE_BUFFER_SIZE : Nat := 512

/-- `pipe_t`. -/
structure Pipe where
  buffer : Nat → UInt8
  readIdx : Nat
  writeIdx : Nat
  count : Nat
  semReaders : Int
  semWriters : Int
  mutex : Int
  readers : Nat
  writers : Nat
  isOpen : Bool

/-- `pipeManager`, and the static `next_sem_id`. -/
structure PipeManager where
  pipes : Nat → Pipe
  next_sem_id : Int

def PipeManager.setPipe (m : PipeManager) (i : Nat) (pipe : Pipe) : PipeManager :=
  { m with pipes := Function.update m.pipes i pipe }

def initializePipeManager : PipeManager :=
  ⟨fun _ => ⟨fun _ => 0, 0, 0, 0, -1, -1, -1, 0, 0, false⟩, 100⟩

section Create

variable [MemoryManager H]

/-- Three calls of `sem_create`, up to the first that fails. -/
def createSems (s : System H) (pipe : Pipe) : Bool × System H :=
  let s₁ := step s (.sem_create pipe.semReaders 0)
  if (sem_create s.kernel pipe.semReaders 0).1 < 0 then (false, s₁)
  else
    let s₂ := step s₁ (.sem_create pipe.semWriters PIPE_BUFFER_SIZE)
    if (sem_create s₁.kernel pipe.semWriters PIPE_BUFFER_SIZE).1 < 0 then (false, s₂)
    else
      let s₃ := step s₂ (.sem_create pipe.mutex 1)
      (¬ (sem_create s₂.kernel pipe.mutex 1).1 < 0, s₃)

/-- The first three descriptors are those of the terminal. -/
def createPipe (s : System H) (m : PipeManager) : Int × System H × PipeManager :=
  match (List.range MAX_PIPES).find? (fun i => ¬ (m.pipes i).isOpen) with
  | none => (-1, s, m)
  | some i =>
    let pipe : Pipe := ⟨fun _ => 0, 0, 0, 0, m.next_sem_id, m.next_sem_id + 1, m.next_sem_id + 2,
      1, 1, true⟩
    let m := { m.setPipe i pipe with next_sem_id := m.next_sem_id + 3 }
    match createSems s pipe with
    | (false, s) => (-1, s, m)
    | (true, s) => ((i : Int) + 3, s, m)

end Create

/-- The index of an open pipe. -/
def validatePipeId (m : PipeManager) (pipeId : Int) : Option Nat :=
  if pipeId < 3 then none
  else if pipeId > MAX_PIPES + 2 then none
  else
    let index := (pipeId - 3).toNat
    if ¬ (m.pipes index).isOpen then none else some index

/-! ## Reading and writing -/

inductive Way
  | read
  | write
deriving DecidableEq

/-- The arguments of `readPipe` or `writePipe`. -/
structure Request where
  way : Way
  pipe_id : Int
  buffer : Option (Nat → UInt8)
  size : Int

/-- The next stop of a call: the head of its loop, the wait for the mutex, or
what comes after that wait. -/
inductive Stage
  | loop | mutex | critical
deriving DecidableEq

/-- A call that did not return yet: its arguments, the index of the pipe and the
locals. `bytes` is `bytes_read` or `bytes_written`. -/
structure Task where
  request : Request
  pipe : Nat
  stage : Stage
  i : Int
  bytes : Int
  buffer : Nat → UInt8

/-- The past of the pipe. No code reads it. -/
structure Past where
  written : List UInt8
  delivered : List UInt8
  /-- How often `writePipe` found the buffer full. -/
  dropped : Nat
  /-- How often `readPipe` found it empty. -/
  retried : Nat

def Past.start : Past := ⟨[], [], 0, 0⟩

/-- What a call does up to its next stop, and its result if it returns. -/
structure Move where
  calls : List Call
  pipe : Pipe
  past : Past
  task : Task
  returned : Option Int

def readPipe (pipe : Pipe) (past : Past) (t : Task) (rsp : Addr) : Move :=
  match t.stage with
  | .loop =>
    if t.i < t.request.size then
      ⟨[.sem_wait pipe.semReaders rsp], pipe, past, { t with stage := .mutex }, none⟩
    else ⟨[], pipe, past, t, some t.bytes⟩
  | .mutex => ⟨[.sem_wait pipe.mutex rsp], pipe, past, { t with stage := .critical }, none⟩
  | .critical =>
    if pipe.count = 0 ∧ pipe.writers = 0 then
      ⟨[.sem_post pipe.mutex], pipe, past, t, some (if t.bytes > 0 then t.bytes else -1)⟩
    else if pipe.count > 0 then
      let byte := pipe.buffer pipe.readIdx
      let t := { t with buffer := Function.update t.buffer t.i.toNat byte, bytes := t.bytes + 1 }
      let pipe := { pipe with
        readIdx := (pipe.readIdx + 1) % PIPE_BUFFER_SIZE, count := pipe.count - 1 }
      let past := { past with delivered := past.delivered ++ [byte] }
      let calls := [.sem_post pipe.mutex, .sem_post pipe.semWriters]
      if pipe.writers = 0 ∧ pipe.count = 0 then ⟨calls, pipe, past, t, some t.bytes⟩
      else ⟨calls, pipe, past, { t with stage := .loop, i := t.i + 1 }, none⟩
    else
      -- `i--` here and `i++` in the head of the loop
      ⟨[.sem_post pipe.mutex], pipe, { past with retried := past.retried + 1 },
        { t with stage := .loop }, none⟩

def writePipe (pipe : Pipe) (past : Past) (t : Task) (rsp : Addr) : Move :=
  match t.stage with
  | .loop =>
    if t.i < t.request.size then
      ⟨[.sem_wait pipe.semWriters rsp], pipe, past, { t with stage := .mutex }, none⟩
    else ⟨[], pipe, past, t, some t.bytes⟩
  | .mutex => ⟨[.sem_wait pipe.mutex rsp], pipe, past, { t with stage := .critical }, none⟩
  | .critical =>
    let calls := [.sem_post pipe.mutex, .sem_post pipe.semReaders]
    if pipe.count < PIPE_BUFFER_SIZE then
      let byte := t.buffer t.i.toNat
      ⟨calls, { pipe with
          buffer := Function.update pipe.buffer pipe.writeIdx byte
          writeIdx := (pipe.writeIdx + 1) % PIPE_BUFFER_SIZE
          count := pipe.count + 1 },
        { past with written := past.written ++ [byte] },
        { t with stage := .loop, i := t.i + 1, bytes := t.bytes + 1 }, none⟩
    else
      ⟨calls, pipe, { past with dropped := past.dropped + 1 },
        { t with stage := .loop, i := t.i + 1 }, none⟩

/-! ## The processes that use pipes -/

/-- A call that returned: its arguments, its result and what it left in the
buffer. -/
structure Return where
  request : Request
  result : Int
  buffer : Nat → UInt8

/-- What a process still wants to call, the call it is in, and the calls that
returned. -/
structure Client where
  todo : List Request
  task : Option Task
  returns : List Return

structure Shared where
  manager : PipeManager
  past : Past

/-- The next move of a call. -/
def Task.move (t : Task) (g : Shared) (rsp : Addr) : Move :=
  match t.request.way with
  | .read => readPipe (g.manager.pipes t.pipe) g.past t rsp
  | .write => writePipe (g.manager.pipes t.pipe) g.past t rsp

/-- The checks at the start of a call. -/
def Request.start (r : Request) (m : PipeManager) : Option Task :=
  match validatePipeId m r.pipe_id, r.buffer with
  | some pipe, some buffer =>
    if r.size ≤ 0 then none else some ⟨r, pipe, .loop, 0, 0, buffer⟩
  | _, _ => none

/-- Any number of processes that read and write. -/
def clients : Program H Client Shared := fun _ _ c g rsp =>
  match c.task with
  | none =>
    match c.todo with
    | [] => ([], c, g)
    | r :: todo =>
      match r.start g.manager with
      | none => ([], ⟨todo, none, c.returns ++ [⟨r, -1, r.buffer.getD (fun _ => 0)⟩]⟩, g)
      | some t => ([], ⟨todo, some t, c.returns⟩, g)
  | some t =>
    let move := t.move g rsp
    let g := ⟨g.manager.setPipe t.pipe move.pipe, move.past⟩
    match move.returned with
    | none => (move.calls, ⟨c.todo, some move.task, c.returns⟩, g)
    | some result =>
      (move.calls, ⟨c.todo, none, c.returns ++ [⟨t.request, result, move.task.buffer⟩]⟩, g)

end bare_bones.pipe_manager
