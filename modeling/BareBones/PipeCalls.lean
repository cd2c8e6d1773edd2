-- Every call on pipes by any number of processes, with `syscall_exit`, which
-- closes the pipe of the stdout of its caller. A process goes on inside its call
-- when it runs again; in between come ticks and any other calls.
import BareBones.Pipes

namespace bare_bones.pipe_manager

open bare_bones.process bare_bones.scheduler bare_bones.semaphore runs

variable {H : Type}

/-- What `closePipe` does after its `sem_wait`: the calls it makes, and the pipe
after them. -/
def closePipe (pipe : Pipe) : List Call × Pipe :=
  if pipe.writers = 0 then ([.sem_post pipe.mutex], pipe)
  else
    let pipe := { pipe with writers := pipe.writers - 1 }
    if pipe.writers = 0 then
      (List.replicate PIPE_BUFFER_SIZE (.sem_post pipe.semReaders) ++
          [.sem_post pipe.mutex, .sem_destroy pipe.semReaders, .sem_destroy pipe.semWriters,
            .sem_destroy pipe.mutex],
        { pipe with
          isOpen := false, readIdx := 0, writeIdx := 0, count := 0, readers := 0, writers := 0
          semReaders := -1, semWriters := -1 })
    else ([.sem_post pipe.mutex], { pipe with mutex := -1 })

/-- The call on pipes that a process is inside. `generation` is that of the pipe
it means. -/
inductive Job
  | io (t : Task) (generation : Nat)
  /-- `closePipe` after its `sem_wait`; `exits` when `syscall_exit` called it. -/
  | close (pipe : Nat) (generation : Nat) (exits : Bool)
  /-- `syscall_exit` after its first `yield`. -/
  | exit

/-- The kernel with its pipes. -/
structure PipeSystem (H : Type) where
  system : System H
  manager : PipeManager
  jobs : Pcb → Option Job
  /-- The past of the pipe in a slot. No code reads it. -/
  past : Nat → Past
  /-- How often `createPipe` took a slot. No code reads it. -/
  generation : Nat → Nat

inductive Act
  /-- A tick, or a call that is not on pipes. -/
  | call (c : Call)
  | createPipe
  /-- `readPipe` or `writePipe`. -/
  | io (r : Request)
  /-- `closePipe` for the pipe that had this id and generation. -/
  | closePipe (pipe_id : Int) (generation : Nat) (rsp : Addr)
  /-- `syscall_exit` by a process whose stdout had this generation. -/
  | syscall_exit (generation : Nat) (rsp : Addr)
  /-- The current process goes on inside its call. -/
  | go (rsp : Addr)

namespace PipeSystem

def pipe (m : PipeSystem H) (x : Nat) : Pipe := m.manager.pipes x

def setPipe (m : PipeSystem H) (x : Nat) (pipe : Pipe) : PipeSystem H :=
  { m with manager := m.manager.setPipe x pipe }

def setJob (m : PipeSystem H) (p : Pcb) (job : Option Job) : PipeSystem H :=
  { m with jobs := Function.update m.jobs p job }

/-- The pipes beside a new state of the kernel. The calls of a process that was
killed end with it. -/
def settle (m : PipeSystem H) (s : System H) : PipeSystem H :=
  { m with
    system := s
    jobs := fun p =>
      if p ∈ s.scheduler.procs ∨ s.scheduler.currentProcess = some p then m.jobs p else none }

end PipeSystem

/-- The first slot that is not open. -/
def freeSlot (m : PipeManager) : Option Nat :=
  (List.range MAX_PIPES).find? (fun i => ¬ (m.pipes i).isOpen)

/-- The last lines of `syscall_exit`: `killCurrentProcess` and `yield`. -/
def exitCalls (s : System H) (p : Pcb) (rsp : Addr) : List Call :=
  [.scheduler (.killProcess (s.scheduler.pid p)), .scheduler (.yield rsp)]

section Turns

variable [MemoryManager H]

/-- The calls of `sem_create` that `createPipe` makes, up to the first that
fails. -/
def createCalls (s : System H) (pipe : Pipe) : List Call :=
  let c₁ : Call := .sem_create pipe.semReaders 0
  let c₂ : Call := .sem_create pipe.semWriters PIPE_BUFFER_SIZE
  if (sem_create s.kernel pipe.semReaders 0).1 < 0 then [c₁]
  else if (sem_create (step s c₁).kernel pipe.semWriters PIPE_BUFFER_SIZE).1 < 0 then [c₁, c₂]
  else [c₁, c₂, .sem_create pipe.mutex 1]

/-- The start of `closePipe`, up to its `sem_wait`. -/
def beginClose (m : PipeSystem H) (p : Pcb) (pipe_id : Int) (generation : Nat) (exits : Bool)
    (rsp : Addr) : List Call × PipeSystem H :=
  match validatePipeId m.manager pipe_id with
  | none =>
    if exits then ([.scheduler (.yield rsp)], m.setJob p (some .exit)) else ([], m)
  | some x =>
    ([.sem_wait (m.pipe x).mutex rsp], m.setJob p (some (.close x generation exits)))

/-- What the current process `p` does next inside its call. -/
def proceed (m : PipeSystem H) (p : Pcb) (rsp : Addr) : Job → List Call × PipeSystem H
  | .io t generation =>
    let move := t.move ⟨m.manager, m.past t.pipe⟩ rsp
    let job := if move.returned.isSome then none else some (.io move.task generation)
    (move.calls, { (m.setPipe t.pipe move.pipe).setJob p job with
      past := Function.update m.past t.pipe move.past })
  | .close x _ exits =>
    let (calls, pipe) := closePipe (m.pipe x)
    if exits then
      (calls ++ [.scheduler (.yield rsp)], (m.setPipe x pipe).setJob p (some .exit))
    else (calls, (m.setPipe x pipe).setJob p none)
  | .exit => (exitCalls m.system p rsp, m.setJob p none)

/-- The calls of an act of the current process `p`, and the pipes after them. -/
def turn (m : PipeSystem H) (p : Pcb) (a : Act) : List Call × PipeSystem H :=
  match a, m.jobs p with
  | .go rsp, some job => proceed m p rsp job
  | .createPipe, none =>
    match freeSlot m.manager with
    | none => ([], m)
    | some i =>
      let manager := (createPipe m.system m.manager).2.2
      (createCalls m.system (manager.pipes i), { m with
        manager
        past := Function.update m.past i .start
        generation := Function.update m.generation i (m.generation i + 1) })
  | .io r, none =>
    match r.start m.manager with
    | none => ([], m)
    | some t => ([], m.setJob p (some (.io t (m.generation t.pipe))))
  | .closePipe pipe_id generation rsp, none => beginClose m p pipe_id generation false rsp
  | .syscall_exit generation rsp, none =>
    let stdout_fd := (m.system.scheduler.pcb p).fileDescriptors STDOUT
    if stdout_fd ≥ 3 then beginClose m p stdout_fd generation true rsp
    else (exitCalls m.system p rsp, m)
  -- a process that is inside a call makes no other, and one that is not has
  -- nothing to go on with
  | _, _ => ([], m)

/-- The calls that an act makes. -/
def calls (m : PipeSystem H) : Act → List Call
  | .call c => [c]
  | a =>
    match m.system.scheduler.currentProcess with
    | none => []
    | some p => (turn m p a).1

def act (m : PipeSystem H) : Act → PipeSystem H
  | .call c => m.settle (step m.system c)
  | a =>
    match m.system.scheduler.currentProcess with
    | none => m
    | some p => (turn m p a).2.settle (run step m.system (turn m p a).1)

/-- The kernel as `main` starts it, with no pipe open. -/
structure BootedPipes (m : PipeSystem H) : Prop where
  system : BootedSystem m.system
  manager : m.manager = initializePipeManager
  jobs : ∀ p, m.jobs p = none
  past : ∀ x, m.past x = .start
  generation : ∀ x, m.generation x = 0

/-- Every call of every act meets `ok`. -/
def eachCall (ok : System H → Call → Prop) (m : PipeSystem H) (a : Act) : Prop :=
  Meets step ok m.system (calls m a)

instance (ok : System H → Call → Prop) [∀ s c, Decidable (ok s c)] (m : PipeSystem H) (a : Act) :
    Decidable (eachCall ok m a) :=
  inferInstanceAs (Decidable (Meets _ _ _ _))

/-- Without a process on the processor no process acts. -/
theorem act_idle {m : PipeSystem H} {a : Act} (ha : ∀ c, a ≠ .call c)
    (hcur : m.system.scheduler.currentProcess = none) : act m a = m := by
  cases a with
  | call c => exact absurd rfl (ha c)
  | _ => simp only [act, hcur]

/-- The process on the processor takes its turn. -/
theorem act_turn {m : PipeSystem H} {a : Act} (ha : ∀ c, a ≠ .call c) {p : Pcb}
    (hcur : m.system.scheduler.currentProcess = some p) :
    act m a = (turn m p a).2.settle (run step m.system (turn m p a).1) := by
  cases a with
  | call c => exact absurd rfl (ha c)
  | _ => simp only [act, hcur]

theorem system_act (m : PipeSystem H) (a : Act) :
    (act m a).system = run step m.system (calls m a) := by
  have hact : ∀ a : Act, (∀ c, a ≠ .call c) →
      (act m a).system = run step m.system (calls m a) := fun a ha => by
    cases hcur : m.system.scheduler.currentProcess with
    | none =>
      rw [act_idle ha hcur]
      cases a with
      | call c => exact absurd rfl (ha c)
      | _ => simp only [calls, hcur, run_nil]
    | some p =>
      rw [act_turn ha hcur]
      cases a with
      | call c => exact absurd rfl (ha c)
      | _ => simp only [calls, hcur, PipeSystem.settle]
  cases a with
  | call c => rfl
  | _ => exact hact _ fun _ h => by cases h

/-- What every call preserves, every run of acts preserves. -/
theorem system_invariant {ok : System H → Call → Prop} {I : System H → Prop}
    (hstep : ∀ s c, I s → ok s c → I (step s c)) {m : PipeSystem H} {acts : List Act}
    (h0 : I m.system) (hok : Meets act (eachCall ok) m acts) : I (run act m acts).system := by
  refine run_invariant (I := fun m : PipeSystem H => I m.system) (fun m a h hm => ?_) h0 hok
  rw [system_act]
  exact run_invariant hstep h hm

end Turns

/-- No pipe yet, on a heap that never runs out. -/
def endlessPipes : PipeSystem Endless :=
  ⟨endlessSystem, initializePipeManager, fun _ => none, fun _ => .start, fun _ => 0⟩

theorem booted_endlessPipes : BootedPipes endlessPipes :=
  ⟨booted_endlessSystem, rfl, fun _ => rfl, fun _ => rfl, fun _ => rfl⟩

end bare_bones.pipe_manager
