-- The process table: what the scheduler is for, with no heap under it. A
-- process waits its turn in the ready queue, runs, or is blocked; the queues
-- are plain lists. `scheduler.c` refines it while its list nodes are granted.
import BareBones.Scheduler

namespace bare_bones.process_table

open bare_bones.process
open bare_bones.scheduler (MAX_PROCESS NO_PROCESS IDLE_PID SHELL_PID STDIN STDOUT pipedFd
  idleDescriptors)

/-- What scheduling reads of a PCB. -/
structure Entry where
  status : ProcessState
  pid : Int
  priority : Nat
  ground : Nat
  fds : Fin CANT_FILE_DESCRIPTORS → Int
  waiting : Option (List (Option Pcb))

/-- Who waits for the end of this process, first come first. -/
def Entry.waiters (e : Entry) : List (Option Pcb) := e.waiting.getD []

/-- One more waiter. -/
def Entry.enlist (e : Entry) (w : Option Pcb) : Entry :=
  { e with waiting := e.waiting.map (fun waiters => waiters ++ [w]) }

structure Table where
  procs : List Pcb
  ready : List Pcb
  blocked : List Pcb
  pcb : Pcb → Entry
  current : Option Pcb
  currentPid : Int
  qty : Nat
  quantums : Int
  pcbQty : Nat
  frees : Pcb → Nat

namespace Table

def status (t : Table) (p : Pcb) : ProcessState := (t.pcb p).status
def pid (t : Table) (p : Pcb) : Int := (t.pcb p).pid

def set (t : Table) (p : Pcb) (e : Entry) : Table := { t with pcb := Function.update t.pcb p e }

def mark (t : Table) (p : Pcb) (status : ProcessState) : Table :=
  t.set p { t.pcb p with status := status }

def queues (t : Table) (ready blocked : List Pcb) : Table :=
  { t with ready := ready, blocked := blocked }

/-- A freed PCB has lost its waiting list. -/
def free (t : Table) (p : Pcb) : Table :=
  { t.set p { t.pcb p with waiting := none } with
    frees := Function.update t.frees p (t.frees p + 1) }

def find (t : Table) (pid : Int) : Option Pcb := t.procs.find? (fun p => t.pid p = pid)

/-! ## The moves -/

/-- A blocked process goes to the end of the ready queue. -/
def wake (t : Table) (pid : Int) : Table :=
  match t.find pid with
  | none => t
  | some p =>
    if t.status p = .BLOCKED ∧ p ∈ t.blocked then
      (t.queues (t.ready ++ [p]) (t.blocked.erase p)).mark p .READY
    else t

def dispatch (t : Table) (p : Pcb) : Table :=
  { t with current := some p, currentPid := t.pid p, quantums := (t.pcb p).priority }.mark p
    .RUNNING

/-- The current process gives the processor back. -/
def leave (t : Table) : Table :=
  match t.current with
  | none => t
  | some p =>
    if t.status p = .TERMINATED then
      { t.free p with current := none, currentPid := NO_PROCESS }
    else if t.status p = .RUNNING then (t.queues (t.ready ++ [p]) t.blocked).mark p .READY
    else t

/-- The head of the ready queue gets the processor, or else idle. -/
def next (t : Table) : Table :=
  match t.ready with
  | p :: rest => (t.queues rest t.blocked).dispatch p
  | [] =>
    match t.find IDLE_PID with
    | none => t
    | some idle => t.dispatch idle

def switch (t : Table) : Table :=
  if t.currentPid = NO_PROCESS then
    match t.ready with
    | p :: rest => (t.queues rest t.blocked).dispatch p
    | [] => { t with current := none }
  else t.leave.next

def tick (t : Table) : Table :=
  let t := { t with quantums := t.quantums - 1 }
  if t.qty = 0 ∨ t.quantums > 0 then t else t.switch

def yield (t : Table) : Table := { t with quantums := 0 }.tick

/-- A process goes to the blocked queue, unless it is there already. -/
def suspend (t : Table) (p : Pcb) : Table :=
  if t.status p = .READY then
    (t.queues (t.ready.erase p) (t.blocked ++ [p])).mark p .BLOCKED
  else if t.status p = .RUNNING then (t.queues t.ready (t.blocked ++ [p])).mark p .BLOCKED
  else t

def block (t : Table) (pid : Int) : Table :=
  match t.find pid with
  | none => t
  | some p =>
    if t.status p = .READY ∧ p ∉ t.ready then t
    else if t.currentPid = pid then (t.suspend p).yield
    else t.suspend p

def leaveQueue (t : Table) (p : Pcb) : Option Table :=
  match t.status p with
  | .READY => if p ∈ t.ready then some (t.queues (t.ready.erase p) t.blocked) else none
  | .BLOCKED => if p ∈ t.blocked then some (t.queues t.ready (t.blocked.erase p)) else none
  | _ => some t

def wakeAll : List (Option Pcb) → Table → Table
  | [], t => t
  | none :: rest, t => wakeAll rest t
  | some aux :: rest, t => wakeAll rest (t.wake (t.pid aux))

/-- The process list loses `p`. -/
def drop (t : Table) (p : Pcb) : Table :=
  { t with
    procs := t.procs.erase p
    qty := (t.qty + 2 ^ 16 - 1) % 2 ^ 16 }.mark p .TERMINATED

def terminate (t : Table) (p : Pcb) : Bool × Table :=
  if p ∈ t.procs then
    (true, if t.current = some p then t.drop p else (t.drop p).free p)
  else (false, t)

/-- `false` says that the kill failed. -/
def kill (t : Table) (p : Pcb) : Bool × Table :=
  match t.leaveQueue p with
  | none => (false, t)
  | some t => (wakeAll (t.pcb p).waiters t).terminate p

def pipedTo (t : Table) (fd : Int) : Option Pcb :=
  t.procs.find? (fun p => (t.pcb p).fds STDIN = fd ∨ (t.pcb p).fds STDOUT = fd)

def killPid (t : Table) (pid : Int) : Table :=
  match t.find pid with
  | none => t
  | some p =>
    match t.kill p with
    | (false, t) => t
    | (true, t') =>
      if pipedFd (t.pcb p).fds = -1 then t'
      else
        match t'.pipedTo (pipedFd (t.pcb p).fds) with
        | none => t'
        | some aux => (t'.kill aux).2

def killForeground (t : Table) : Table :=
  match t.current with
  | none => t
  | some p =>
    if (t.pcb p).ground = 0 ∧ t.pid p ≠ SHELL_PID then t.killPid (t.pid p)
    else
      match t.procs.find? (fun p => (t.pcb p).ground = 0 ∧ t.pid p ≠ SHELL_PID) with
      | none => t
      | some aux => (t.kill aux).2

/-- The caller enters the waiting list of the process `pid` and blocks. -/
def wait (t : Table) (pid : Int) : Table :=
  match t.find pid with
  | none => t
  | some target =>
    if t.currentPid = pid then t
    else (t.set target ((t.pcb target).enlist (t.find t.currentPid))).block t.currentPid

def setPriority (t : Table) (pid : Int) (priority : Nat) : Table :=
  match t.find pid with
  | none => t
  | some p => t.set p { t.pcb p with priority := priority }

def minFreePid (t : Table) : Option Nat :=
  (List.range MAX_PROCESS).find? (fun pid => (t.find pid).isNone)

/-- The table after a new PCB was taken from the heap. -/
def alloc (t : Table) (e : Entry) : Table := { t with pcbQty := t.pcbQty + 1 }.set t.pcbQty e

/-- A new process joins the process list and the ready queue. -/
def join (t : Table) (p : Pcb) : Table :=
  { t with procs := t.procs ++ [p], ready := t.ready ++ [p], qty := t.qty + 1 }

/-- What a call of `createProcess` may do: nothing, take a PCB and free it
again, or add a READY process with the least free pid. -/
inductive Creates (fds : Fin CANT_FILE_DESCRIPTORS → Int) (ground : Nat) (t : Table) :
    Table → Prop
  | refused : Creates fds ground t t
  | failed (e : Entry) : Creates fds ground t ((t.alloc e).free t.pcbQty)
  | created (e₀ e : Entry) (n : Nat) (hqty : t.qty < MAX_PROCESS)
      (hn : (t.alloc e₀).minFreePid = some n) (hpid : e.pid = n) (hst : e.status = .READY)
      (hfds : e.fds = fds) (hground : e.ground = ground) (hwait : e.waiting = some []) :
      Creates fds ground t ((t.alloc e).join t.pcbQty)

/-! ## How the moves read back -/

@[simp] theorem set_pcb_self (t : Table) (p : Pcb) (e : Entry) : (t.set p e).pcb p = e := by
  simp [set]

theorem set_pcb_ne {t : Table} {p q : Pcb} (e : Entry) (h : q ≠ p) :
    (t.set p e).pcb q = t.pcb q := by
  simp [set, h]

section Readback

variable (t : Table) (p q : Pcb) (st : ProcessState) (r b : List Pcb) (e : Entry)

@[simp] theorem procs_set : (t.set p e).procs = t.procs := rfl
@[simp] theorem ready_set : (t.set p e).ready = t.ready := rfl
@[simp] theorem blocked_set : (t.set p e).blocked = t.blocked := rfl
@[simp] theorem current_set : (t.set p e).current = t.current := rfl
@[simp] theorem currentPid_set : (t.set p e).currentPid = t.currentPid := rfl
@[simp] theorem frees_set : (t.set p e).frees = t.frees := rfl
@[simp] theorem pcbQty_set : (t.set p e).pcbQty = t.pcbQty := rfl

@[simp] theorem procs_mark : (t.mark p st).procs = t.procs := rfl
@[simp] theorem ready_mark : (t.mark p st).ready = t.ready := rfl
@[simp] theorem blocked_mark : (t.mark p st).blocked = t.blocked := rfl
@[simp] theorem current_mark : (t.mark p st).current = t.current := rfl
@[simp] theorem currentPid_mark : (t.mark p st).currentPid = t.currentPid := rfl
@[simp] theorem frees_mark : (t.mark p st).frees = t.frees := rfl
@[simp] theorem pcbQty_mark : (t.mark p st).pcbQty = t.pcbQty := rfl

@[simp] theorem procs_queues : (t.queues r b).procs = t.procs := rfl
@[simp] theorem ready_queues : (t.queues r b).ready = r := rfl
@[simp] theorem blocked_queues : (t.queues r b).blocked = b := rfl
@[simp] theorem pcb_queues : (t.queues r b).pcb = t.pcb := rfl
@[simp] theorem status_queues : (t.queues r b).status p = t.status p := rfl
@[simp] theorem pid_queues : (t.queues r b).pid p = t.pid p := rfl
@[simp] theorem current_queues : (t.queues r b).current = t.current := rfl
@[simp] theorem currentPid_queues : (t.queues r b).currentPid = t.currentPid := rfl
@[simp] theorem frees_queues : (t.queues r b).frees = t.frees := rfl
@[simp] theorem pcbQty_queues : (t.queues r b).pcbQty = t.pcbQty := rfl

@[simp] theorem procs_dispatch : (t.dispatch p).procs = t.procs := rfl
@[simp] theorem ready_dispatch : (t.dispatch p).ready = t.ready := rfl
@[simp] theorem blocked_dispatch : (t.dispatch p).blocked = t.blocked := rfl
@[simp] theorem current_dispatch : (t.dispatch p).current = some p := rfl
@[simp] theorem currentPid_dispatch : (t.dispatch p).currentPid = t.pid p := rfl
@[simp] theorem frees_dispatch : (t.dispatch p).frees = t.frees := rfl
@[simp] theorem pcbQty_dispatch : (t.dispatch p).pcbQty = t.pcbQty := rfl

theorem status_mark : (t.mark p st).status q = if q = p then st else t.status q := by
  by_cases h : q = p
  · subst h; simp [mark, status]
  · simp [mark, status, set_pcb_ne _ h, h]

theorem status_dispatch : (t.dispatch p).status q = if q = p then .RUNNING else t.status q := by
  rw [dispatch, status_mark]
  rfl

@[simp] theorem pid_mark : (t.mark p st).pid q = t.pid q := by
  by_cases h : q = p
  · subst h; simp [mark, pid]
  · simp [mark, pid, set_pcb_ne _ h]

@[simp] theorem fds_mark : ((t.mark p st).pcb q).fds = (t.pcb q).fds := by
  by_cases h : q = p
  · subst h; simp [mark]
  · simp [mark, set_pcb_ne _ h]

@[simp] theorem ground_mark : ((t.mark p st).pcb q).ground = (t.pcb q).ground := by
  by_cases h : q = p
  · subst h; simp [mark]
  · simp [mark, set_pcb_ne _ h]

@[simp] theorem waiting_mark : ((t.mark p st).pcb q).waiting = (t.pcb q).waiting := by
  by_cases h : q = p
  · subst h; simp [mark]
  · simp [mark, set_pcb_ne _ h]

end Readback

end Table

end bare_bones.process_table
