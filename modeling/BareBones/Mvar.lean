-- `mvar.c`: a manager starts writers and readers of a shared variable. The variable is
-- a pipe, and a pipe takes 512 bytes before a writer has to wait.
import BareBones.Numerals
import BareBones.PipeEnd
import BareBones.Shell
import BareBones.Video

namespace bare_bones.mvar

open bare_bones.builtinFunctions (isNumber number)
open bare_bones.process bare_bones.scheduler bare_bones.semaphore bare_bones.pipe_manager
open bare_bones.numerals (numeral)
open bare_bones.shell (Word Cells word str_to_uint32)
open bare_bones.video (Color BLACK)
open runs

variable {H : Type}

def MVAR_SEM_PRINT : Int := 93

def MIN_PAUSE_STEPS : Nat := 1

def MVAR_VALUE_BYTES : Int := 1

def reader_palette : List (Color × Word) :=
  [(⟨0, 0, 255⟩, word "red"), (⟨100, 255, 100⟩, word "light-green"),
    (⟨100, 150, 100⟩, word "dark-green"), (⟨255, 153, 184⟩, word "pink"),
    (⟨255, 0, 184⟩, word "magenta"), (⟨173, 169, 170⟩, word "silver")]

def writer_value (writer_id : Int) : UInt8 := UInt8.ofInt (65 + writer_id.tmod 26)

def reader_entry (reader_id : Int) : Color × Word :=
  reader_palette.getD (reader_id.tmod 6).toNat (BLACK, [])

def reader_color (reader_id : Int) : Color := (reader_entry reader_id).1

/-! ## The processes -/

/-- Where the manager is. It is in `log_wait` and `log_post` when a creation failed. -/
inductive Manager.Line
  | start | sem_destroy | sem_create | pipe_create | spawn | log_wait | log_post
  | exit | leaving
deriving DecidableEq

/-- The arguments and the locals of `mvar_manager`. `way` tells which of the two loops
of creations runs. -/
structure Manager where
  argc : Int
  argv : Option Cells
  writer_count : Int
  reader_count : Int
  value_pipe_id : Int
  way : Way
  i : Nat
  line : Manager.Line

/-- Where a writer or a reader is. `inside` is the call on the pipe. -/
inductive Line
  | start | random_pause
  | yield (spins : Nat)
  | transfer | inside
  | sem_wait | getFontColor | setFontColor | putchar | restoreFont | sem_post
  | exit | leaving
deriving DecidableEq

/-- The arguments and the locals of `mvar_writer` or `mvar_reader`. `value` is
`produced_value` or `consumed_value`. -/
structure Actor where
  way : Way
  argc : Int
  argv : Option Cells
  id : Int
  value_pipe : Int
  value : UInt8
  previous_font : Color
  line : Line

structure World (H : Type) where
  pipes : PipeSystem H
  /-- The process that runs `mvar_manager`. -/
  manager_pcb : Pcb
  manager : Manager
  actors : Pcb → Option Actor
  /-- What `getUniform(PAUSE_SPREAD_STEPS)` answers, call by call, and how often it was
  called. -/
  getUniform : Nat → Nat
  drawn : Nat
  fontColor : Color
  /-- What the readers printed. -/
  screen : List (Color × UInt8)
  /-- Where the code of `mvar_writer` and of `mvar_reader` is. -/
  rip : Way → Addr
  /-- The slot of the pipe that the manager created. No code reads it. -/
  slot : Option Nat
  /-- Who took which value from the pipe. No code reads it. -/
  taken : List (Pcb × UInt8)

namespace World

def setManager (w : World H) (m : Manager) : World H := { w with manager := m }

def setActor (w : World H) (p : Pcb) (a : Actor) : World H :=
  { w with actors := Function.update w.actors p (some a) }

variable [MemoryManager H]

def act (w : World H) (a : Act) : World H := { w with pipes := pipe_manager.act w.pipes a }

/-- A system call and what comes after its result. A call that spins for ever has none. -/
def call (w : World H) (c : Call) (after : Int → World H → World H) : World H :=
  match result w.pipes.system.kernel c with
  | none => w
  | some r => after r (w.act (.call c))

end World

/-! ## `mvar_manager` -/

def compose_writer_args (id : Nat) (value_pipe_id : Int) : Cells := fun i =>
  [word "writer-" ++ [writer_value id], numeral 10 id, numeral 10 value_pipe_id.toNat][i]?

def compose_reader_args (id : Nat) (value_pipe_id : Int) : Cells := fun i =>
  [word "reader-" ++ (reader_entry id).2, numeral 10 id, numeral 10 value_pipe_id.toNat][i]?

def compose_args : Way → Nat → Int → Cells
  | .write => compose_writer_args
  | .read => compose_reader_args

/-- A process that did not run yet. -/
def Actor.new (way : Way) (argc : Int) (argv : Cells) : Actor :=
  ⟨way, argc, some argv, 0, 0, 0, BLACK, .start⟩

section Manager

variable [MemoryManager H]

/-- `spawn_writer` or `spawn_reader`, up to its check of the pid. -/
def spawn (way : Way) (id : Nat) (value_pipe_id : Int) (w : World H) : World H :=
  let argv := compose_args way id value_pipe_id
  let io_descriptors : Fin CANT_FILE_DESCRIPTORS → Int := fun i => i.val
  let s := w.pipes.system.scheduler
  let w' := w.act (.call (.scheduler (.createProcess (w.rip way) (some argv) 3 3
    (some io_descriptors) 1)))
  if (createProcess s (w.rip way) (some argv) 3 3 (some io_descriptors) 1).1 < 0 then
    w'.setManager { w.manager with line := .log_wait }
  else
    (w'.setActor s.pcbQty (.new way 3 argv)).setManager { w.manager with i := w.manager.i + 1 }

def spawn_writer : Nat → Int → World H → World H := spawn .write

def spawn_reader : Nat → Int → World H → World H := spawn .read

/-- The next line of `mvar_manager`. A process that is inside a call makes no other. -/
def mvar_manager (w : World H) (p : Pcb) (rsp : Addr) : World H :=
  let m := w.manager
  match m.line, w.pipes.jobs p with
  | .start, none =>
    match m.argv.bind (· 1), m.argv.bind (· 2) with
    | some writers, some readers =>
      let writer_count := (str_to_uint32 writers).toInt32
      let reader_count := (str_to_uint32 readers).toInt32
      if m.argc < 3 ∨ writer_count = 0 ∨ reader_count = 0 then
        w.setManager { m with line := .exit }
      else
        w.setManager { m with
          writer_count := writer_count.toInt, reader_count := reader_count.toInt
          line := .sem_destroy }
    | _, _ => w.setManager { m with line := .exit }
  | .sem_destroy, none =>
    w.call (.sem_destroy MVAR_SEM_PRINT) fun _ w => w.setManager { m with line := .sem_create }
  | .sem_create, none =>
    w.call (.sem_create MVAR_SEM_PRINT 1) fun r w =>
      w.setManager { m with line := if r ≠ 0 then .exit else .pipe_create }
  | .pipe_create, none =>
    let value_pipe_id := (createPipe w.pipes.system w.pipes.manager).1
    let w := w.act .createPipe
    if value_pipe_id < 0 then w.setManager { m with line := .exit }
    else { w.setManager { m with value_pipe_id, way := .write, i := 0, line := .spawn } with
      slot := some (value_pipe_id - 3).toNat }
  | .spawn, none =>
    match m.way with
    | .write =>
      if (m.i : Int) < m.writer_count then spawn_writer m.i m.value_pipe_id w
      else w.setManager { m with way := .read, i := 0 }
    | .read =>
      if (m.i : Int) < m.reader_count then spawn_reader m.i m.value_pipe_id w
      else w.setManager { m with line := .exit }
  | .log_wait, none =>
    w.call (.sem_wait MVAR_SEM_PRINT rsp) fun r w =>
      w.setManager (if r = 0 then { m with line := .log_post }
        else { m with i := m.i + 1, line := .spawn })
  | .log_post, none =>
    w.call (.sem_post MVAR_SEM_PRINT) fun _ w =>
      w.setManager { m with i := m.i + 1, line := .spawn }
  -- the generation of the stdout is a record that no code reads
  | .exit, none => (w.act (.syscall_exit 0 rsp)).setManager { m with line := .leaving }
  | .leaving, some (.close ..) => w.act (.go rsp)
  | .leaving, some .exit => w.act (.go rsp)
  | _, _ => w

end Manager

/-! ## `mvar_writer` and `mvar_reader` -/

section Actors

variable [MemoryManager H]

/-- One byte through the pipe: `pipe_write_all` or `pipe_read_all`, up to the call. -/
def pipe_all (w : World H) (p : Pcb) (a : Actor) (value : UInt8) : World H :=
  let r : Request := ⟨a.way, a.value_pipe, some fun _ => value, MVAR_VALUE_BYTES⟩
  if a.value_pipe < 0 ∨ (r.start w.pipes.manager).isNone then w.setActor p { a with line := .exit }
  else (w.act (.io r)).setActor p { a with value, line := .inside }

/-- The call goes on, and when it returns the process does too. -/
def goOn (w : World H) (p : Pcb) (a : Actor) (t : Task) (rsp : Addr) (done : Line) : World H :=
  let past := w.pipes.past t.pipe
  let move := t.move ⟨w.pipes.manager, past⟩ rsp
  let w := { w.act (.go rsp) with
    taken := w.taken ++ (move.past.delivered.drop past.delivered.length).map fun v => (p, v) }
  match move.returned with
  | none => w
  | some r =>
    if r = MVAR_VALUE_BYTES then w.setActor p { a with value := move.task.buffer 0, line := done }
    else w.setActor p { a with line := .exit }

/-- The lines that writers and readers share: the check of the arguments, the pause and
the call on the pipe, which leads to the line `done`. -/
def transfers (value : UInt8) (done : Line) (w : World H) (p : Pcb) (a : Actor) (rsp : Addr) :
    World H :=
  match a.line, w.pipes.jobs p with
  | .start, none =>
    match a.argv.bind (· 1), a.argv.bind (· 2) with
    | some id, some value_pipe =>
      if a.argc < 3 then w.setActor p { a with line := .exit }
      else
        w.setActor p { a with
          id := (str_to_uint32 id).toInt32.toInt
          value_pipe := (number (value_pipe.takeWhile isNumber)).toInt
          line := .random_pause }
    | _, _ => w.setActor p { a with line := .exit }
  | .random_pause, none =>
    let spins := MIN_PAUSE_STEPS + w.getUniform w.drawn
    { w.setActor p { a with line := .yield spins } with drawn := w.drawn + 1 }
  | .yield 0, none => w.setActor p { a with line := .transfer }
  | .yield (spins + 1), none =>
    (w.act (.call (.scheduler (.yield rsp)))).setActor p { a with line := .yield spins }
  | .transfer, none => pipe_all w p a value
  | .inside, some (.io t _) => goOn w p a t rsp done
  | .exit, none => (w.act (.syscall_exit 0 rsp)).setActor p { a with line := .leaving }
  | .leaving, some (.close ..) => w.act (.go rsp)
  | .leaving, some .exit => w.act (.go rsp)
  | _, _ => w

def mvar_writer (w : World H) (p : Pcb) (a : Actor) (rsp : Addr) : World H :=
  transfers (writer_value a.id) .random_pause w p a rsp

def mvar_reader (w : World H) (p : Pcb) (a : Actor) (rsp : Addr) : World H :=
  match a.line, w.pipes.jobs p with
  | .sem_wait, none =>
    w.call (.sem_wait MVAR_SEM_PRINT rsp) fun r w =>
      w.setActor p { a with line := if r ≠ 0 then .exit else .getFontColor }
  | .getFontColor, none =>
    w.setActor p { a with previous_font := w.fontColor, line := .setFontColor }
  | .setFontColor, none =>
    { w.setActor p { a with line := .putchar } with fontColor := reader_color a.id }
  | .putchar, none =>
    { w.setActor p { a with line := .restoreFont } with
      screen := w.screen ++ [(w.fontColor, a.value)] }
  | .restoreFont, none =>
    { w.setActor p { a with line := .sem_post } with fontColor := a.previous_font }
  | .sem_post, none =>
    w.call (.sem_post MVAR_SEM_PRINT) fun _ w => w.setActor p { a with line := .random_pause }
  | _, _ => transfers a.value .sem_wait w p a rsp

inductive Event
  /-- The current process takes its next step, if it is one of `mvar`. -/
  | run (rsp : Addr)
  /-- A tick, or an act of another process. -/
  | other (a : Act)

def next (w : World H) : Event → World H
  | .run rsp =>
    match w.pipes.system.scheduler.currentProcess with
    | none => w
    | some p =>
      if p = w.manager_pcb then mvar_manager w p rsp
      else
        match w.actors p with
        | none => w
        | some a =>
          match a.way with
          | .write => mvar_writer w p a rsp
          | .read => mvar_reader w p a rsp
  | .other a => w.act a

end Actors

end bare_bones.mvar
