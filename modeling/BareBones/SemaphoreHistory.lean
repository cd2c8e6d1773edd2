-- The calls of the kernel one after the other, and what it does not keep of
-- them: who is blocked inside which call, and who waited and posted so far.
import BareBones.Asleep
import BareBones.Semaphores

namespace bare_bones.semaphore

open bare_bones.doubleLinkedList bare_bones.process bare_bones.scheduler
open bare_bones.process_table runs

variable {H : Type}

/-- A call that the current process makes, or an interrupt. -/
inductive Call
  | scheduler (op : Op)
  | sem_create (id : Int) (initialValue : Nat)
  | sem_destroy (id : Int)
  | sem_wait (id : Int) (rsp : Addr)
  | sem_post (id : Int)

/-- The call that a process is blocked in. -/
inductive Reason
  | sem (id : Int)
  | wait (target : Pcb)
deriving DecidableEq

/-- The past of the kernel. No code reads it. -/
structure History where
  /-- The processes that are blocked inside a call, in the order of the calls. -/
  inside : List (Pcb × Reason)
  /-- The value that a semaphore was created with. -/
  initial : Int → Nat
  /-- Who called `sem_wait` since then, first come first. -/
  arrivals : Int → List Pcb
  /-- Whose `sem_wait` returned 0, or will once the process runs. -/
  completed : Int → List Pcb
  /-- Who was the current process at each `sem_post`. -/
  posts : Int → List (Option Pcb)

def History.start : History := ⟨[], fun _ => 0, fun _ => [], fun _ => [], fun _ => []⟩

structure System (H : Type) where
  kernel : Kernel H
  history : History

namespace System

def scheduler (s : System H) : Scheduler H := s.kernel.scheduler

def table (s : System H) : Table := s.kernel.scheduler.view

def sem (s : System H) (id : Int) : Semaphore := s.kernel.semaphores id

/-- Who is blocked inside `sem_wait` on a semaphore, first come first. -/
def blockedOn (s : System H) (id : Int) : List Pcb :=
  (s.history.inside.filter (fun e => e.2 = .sem id)).map Prod.fst

end System

/-- The process goes on: it is not blocked, and it was not killed before it
could run. -/
def Returns (t : Table) (p : Pcb) : Prop :=
  t.status p ≠ .BLOCKED ∧ (p ∈ t.procs ∨ t.current = some p)

instance (t : Table) (p : Pcb) : Decidable (Returns t p) := by
  unfold Returns
  infer_instance

variable [MemoryManager H]

/-- The result of a call and the kernel after it. -/
def call (k : Kernel H) : Call → Option (Int × Kernel H)
  | .scheduler op => some (0, { k with scheduler := exec k.scheduler op })
  | .sem_create id initialValue => some (sem_create k id initialValue)
  | .sem_destroy id => sem_destroy k id
  | .sem_wait id rsp => sem_wait k id rsp
  | .sem_post id => sem_post k id

/-- A call that does not come back leaves the kernel as it is. -/
def after (k : Kernel H) (c : Call) : Kernel H :=
  match call k c with
  | none => k
  | some (_, k) => k

def result (k : Kernel H) (c : Call) : Option Int := (call k c).map Prod.fst

/-- The current process, inside the call that may block it. -/
def enters (k : Kernel H) (c : Call) : List (Pcb × Reason) :=
  match c with
  | .sem_wait id _ =>
    if isValidSemId id = 0 ∧ result k c = some 0 then
      k.scheduler.currentProcess.toList.map (fun p => (p, .sem id))
    else []
  | .scheduler (.waitProcess pid _) =>
    match findProcess k.scheduler pid with
    | none => []
    | some target => k.scheduler.currentProcess.toList.map (fun p => (p, .wait target))
  | _ => []

/-- The value that a call gives a new semaphore. -/
def created (k : Kernel H) (c : Call) (id : Int) : Option Nat :=
  match c with
  | .sem_create j initialValue =>
    if j = id ∧ isValidSemId id = 0 ∧ ¬ (k.semaphores id).active then some initialValue else none
  | _ => none

/-- The current process, when it posts. -/
def poster (k : Kernel H) (c : Call) (id : Int) : List (Option Pcb) :=
  match c with
  | .sem_post j =>
    if j = id ∧ isValidSemId id = 0 ∧ result k c = some 0 then [k.scheduler.currentProcess]
    else []
  | _ => []

/-- The entries of a semaphore, or none when it is new. -/
def since {α : Type} (k : Kernel H) (c : Call) (id : Int) (past : List α) : List α :=
  if (created k c id).isSome then [] else past

def History.next (h : History) (k : Kernel H) (c : Call) : History where
  inside := (h.inside ++ enters k c).filter (fun e => Asleep (after k c).scheduler.view e.1)
  initial id := (created k c id).getD (h.initial id)
  arrivals id := since k c id (h.arrivals id) ++
    ((enters k c).filter (fun e => e.2 = .sem id)).map Prod.fst
  completed id := since k c id (h.completed id) ++
    ((h.inside ++ enters k c).filter
      (fun e => e.2 = .sem id ∧ Returns (after k c).scheduler.view e.1)).map Prod.fst
  posts id := since k c id (h.posts id) ++ poster k c id

def step (s : System H) (c : Call) : System H := ⟨after s.kernel c, s.history.next s.kernel c⟩

/-- The system as `main` starts it. -/
def BootedSystem (s : System H) : Prop :=
  ∃ scheduler, Booted scheduler ∧ initSemaphoreManager scheduler = some s.kernel ∧
    s.history = .start

/-- The system on a heap that never runs out. -/
def endlessSystem : System Endless := ⟨(initSemaphoreManager endlessBoot).get rfl, .start⟩

theorem booted_endlessSystem : BootedSystem endlessSystem := by
  have boots : (initSemaphoreManager endlessBoot).isSome = true := rfl
  exact ⟨endlessBoot, booted_endlessBoot, (Option.some_get boots).symm, rfl⟩

/-- The shell starts a process that starts two more; the first of them, pid 3,
waits on semaphore 5. -/
def waitingRun : List Call :=
  [.sem_create 5 0, .scheduler (.createProcess 2 none 0 1 none 0), .scheduler (.schedule 3),
    .scheduler (.schedule 4), .scheduler (.createProcess 5 none 0 1 none 1),
    .scheduler (.createProcess 6 none 0 1 none 1), .scheduler (.schedule 7),
    .scheduler (.schedule 8), .scheduler (.schedule 9), .sem_wait 5 10]

/-- The waiter is killed and a new process gets its pid: the purge spares the
stale pid. -/
def staleRun : List Call :=
  waitingRun ++ [.scheduler (.killProcess 3), .scheduler (.createProcess 11 none 0 1 none 1)]

/-- Idle is not killed, and does not block. -/
def sparesIdle (s : System H) : Call → Prop
  | .scheduler op => scheduler.sparesIdle s.scheduler op
  | .sem_wait _ _ => getPid s.scheduler ≠ IDLE_PID
  | _ => True

instance (s : System H) (c : Call) : Decidable (sparesIdle s c) :=
  match c with
  | .scheduler op => inferInstanceAs (Decidable (scheduler.sparesIdle s.scheduler op))
  | .sem_wait _ _ => inferInstanceAs (Decidable (getPid s.scheduler ≠ IDLE_PID))
  | .sem_create _ _ | .sem_destroy _ | .sem_post _ => isTrue trivial

end bare_bones.semaphore
