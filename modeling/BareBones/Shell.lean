-- The shell: a line cut into words, the lookup of its commands, and the processes that
-- it creates and waits for. The events of a line are its reads of the tables of commands,
-- its writes to arrays of words, and what it asks the kernel for.
import BareBones.Builtins
import Mathlib.Data.List.Range
import Mathlib.Logic.Function.Basic

namespace bare_bones.shell

open bare_bones.builtinFunctions (Builtin)

abbrev Word := List UInt8

/-- An array of pointers to words; `NULL` is `none`. -/
abbrev Cells := Nat → Option Word

def word (s : String) : Word := s.toList.map fun c => UInt8.ofNat c.toNat

def MAX_ARGS : Nat := 16

def CANT_INSTRUCTIONS : Nat := 21

def CLEAR : Int := 7

def FONT_SIZE : Int := 6

def IS_BUILT_IN (i : Int) : Bool := 0 ≤ i && i ≤ FONT_SIZE

inductive Handler
  | clear
  | ps
  | loop
  | cat
  | wc
  | filter
  | mvar
  | test_mm
  | test_processes
  | test_priority
  | test_sync
  deriving DecidableEq

def instruction_handlers : List Handler :=
  [.clear, .ps, .loop, .cat, .wc, .filter, .mvar, .test_mm, .test_processes, .test_priority,
    .test_sync]

def built_in_handlers : List Builtin :=
  [.help, .mem, .kill, .block, .unblock, .nice, .fontSize]

def instruction_list : List Word :=
  ["help", "mem", "kill", "block", "unblock", "nice", "font-size", "clear", "ps", "loop", "cat",
    "wc", "filter", "mvar", "testmem", "testproc", "testprio", "testsync"].map word

/-- What is around the shell when it handles a line: the pointers behind
`instruction_list`, what `cmd1` and `cmd2` held before, whether the record of a pipeline
is served, the pipe, and the answers to the first and the second creation. -/
structure World where
  behind : Cells
  junk1 : Cells
  junk2 : Cells
  pipeCmd : Bool
  pipe_create : Int32
  firstPid : Int16
  secondPid : Int16

structure Request where
  program : Handler
  argv : Cells
  argc : Int
  priority : Nat
  background : Bool
  stdin : Int32
  stdout : Int32

inductive Pointer
  | arguments1
  | arguments2
  | pipeCmd

/-- The first three are reads, at an index of a table, and the next three are writes. A
`call` names the handler, and `fault` is a call through an entry that is `NULL`. -/
inductive Event
  | list (i : Int)
  | builtInHandler (i : Int)
  | handler (i : Int)
  | argv (i : Nat)
  | cmd1 (i : Nat)
  | cmd2 (i : Nat)
  | builtIn (b : Builtin) (argc : Nat) (argv : Cells)
  | call (h : Handler)
  | fault
  | createProcess (request : Request) (pid : Int16)
  | waitProcess (pid : Int16)
  | pipe_create (fd : Int32)
  | pipe_close (fd : Int32)
  | mm_free (p : Pointer)
  | printErr (text : String)
  | printf (text : String) (names : List (Option Word))

/-! ## The words of a line -/

/-- The words of a line that starts with none of its blanks, as many as there is room
for. -/
def words : Nat → List UInt8 → List Word
  | 0, _ => []
  | _ + 1, [] => []
  | room + 1, c :: args =>
    (c :: args).takeWhile (· ≠ 32) ::
      words room (((c :: args).dropWhile (· ≠ 32)).dropWhile (· = 32))

/-- The words in `argv`, and `NULL` behind them. -/
def split_args (line : List UInt8) : Cells × Nat × List Event :=
  let found := words MAX_ARGS (line.dropWhile (· = 32))
  (fun i => found[i]?, found.length, (List.range MAX_ARGS).map .argv)

/-- The search of `str_in_list`, from `i` on, and the indexes that it reads. -/
def search (needle : Word) (list : Cells) : Nat → Nat → Int × List Nat
  | _, 0 => (-1, [])
  | i, n + 1 =>
    if list i = some needle then (i, [i])
    else ((search needle list (i + 1) n).1, i :: (search needle list (i + 1) n).2)

def str_in_list (needle : Option Word) (list : Cells) (list_len : Nat) : Int × List Nat :=
  match needle with
  | none => (0, [])
  | some needle => if list_len = 0 then (0, []) else search needle list 0 list_len

/-- `instruction_list` and the memory behind it. -/
def instructions (w : World) : Cells := fun i =>
  if i < instruction_list.length then instruction_list[i]? else w.behind i

/-- How many words follow each other from `i` on, in at most `n` cells. -/
def filled (argv : Cells) : Nat → Nat → Nat
  | _, 0 => 0
  | i, n + 1 => if (argv i).isSome then filled argv (i + 1) n + 1 else 0

def bar : Word := word "|"

/-- The words before the first bar go to `cmd1`, the ones behind it to `cmd2`, and a
`NULL` follows them. -/
def separate_cmds (w : World) (argv : Cells) : Cells × Cells × List Event :=
  let sep := (str_in_list (some bar) argv MAX_ARGS).1.toNat
  let c1 := min sep MAX_ARGS
  let c2 := filled argv (sep + 1) (MAX_ARGS - (sep + 1))
  (fun i => if i < c1 then argv i else if i = c1 then none else w.junk1 i,
    fun i => if i < c2 then argv (sep + 1 + i) else if i = c2 then none else w.junk2 i,
    (List.range (c1 + 1)).map .cmd1 ++ (List.range (c2 + 1)).map .cmd2)

/-- Takes a last word that starts with `&` away. Gives 1 when there is none. -/
def check_fore (write : Nat → Event) (argv : Cells) (argc : Nat) :
    Cells × Nat × Bool × List Event :=
  if argc = 0 then (argv, argc, true, [])
  else if ((argv (argc - 1)).getD []).head? = some 38 then
    (Function.update argv (argc - 1) none, argc - 1, false, [write (argc - 1)])
  else (argv, argc, true, [])

def remove_name (argv : Cells) (argc : Nat) : Cells × Nat × List Event :=
  if argc = 0 then (argv, argc, [])
  else
    let moved := min (argc - 1) (MAX_ARGS - 1)
    let argv := fun i => if i < moved then argv (i + 1) else argv i
    if argc - 1 < MAX_ARGS then
      (Function.update argv (argc - 1) none, argc - 1,
        (List.range moved).map .argv ++ [.argv (argc - 1)])
    else (argv, argc - 1, (List.range moved).map .argv)

/-! ## The handlers of applications -/

section
variable (argv : Cells) (argc : Int) (ground : Bool) (stdin stdout : Int32) (pid : Int16)

/-- A process for an application, with the answer of the kernel. A background process
is not told. -/
def launch (program : Handler) (priority : Nat) (argc : Int) : List Event × Int16 :=
  ([.createProcess ⟨program, argv, argc, priority, !ground, stdin, stdout⟩ pid],
    if ground then pid else 0)

/-- The usage, and -1. -/
def usage (text : String) : List Event × Int16 := ([.printf text []], -1)

def handle_clear : List Event × Int16 :=
  launch argv ground stdin stdout pid .clear 1 (if 0 < argc then argc else 1)

def handle_ps : List Event × Int16 :=
  launch argv ground stdin stdout pid .ps 1 (if 0 < argc then argc else 1)

def handle_loop : List Event × Int16 :=
  launch argv ground stdin stdout pid .loop 1 (if 0 < argc then argc else 1)

def handle_cat : List Event × Int16 :=
  launch argv ground stdin stdout pid .cat 1 (if 0 < argc then argc else 1)

def handle_wc : List Event × Int16 :=
  launch argv ground stdin stdout pid .wc 1 (if 0 < argc then argc else 1)

def handle_filter : List Event × Int16 :=
  launch argv ground stdin stdout pid .filter 1 (if 0 < argc then argc else 1)

def handle_test_mm : List Event × Int16 :=
  if argc < 2 ∨ argv 1 = none then usage "Uso: testmem <max_memory>\n"
  else launch argv ground stdin stdout pid .test_mm 1 argc

def handle_test_processes : List Event × Int16 :=
  if argc < 2 ∨ argv 1 = none then usage "Uso: testproc <max_processes>\n"
  else launch argv ground stdin stdout pid .test_processes 1 (if 0 < argc then argc else 1)

def handle_test_priority : List Event × Int16 :=
  if argc < 2 ∨ argv 1 = none then usage "Uso: testprio <max_value>\n"
  else launch argv ground stdin stdout pid .test_priority 1 argc

def handle_test_sync : List Event × Int16 :=
  if argc < 3 then usage "Uso: testsync <iteraciones> <usar_sem>\n"
  else launch argv ground stdin stdout pid .test_sync 1 argc

def my_isdigit (c : UInt8) : Bool := 48 ≤ c && c ≤ 57

def str_to_uint32 (str : Word) : UInt32 :=
  let str := str.dropWhile fun c => c = 32 || c = 9
  let digits := str.takeWhile my_isdigit
  let rest := (str.dropWhile my_isdigit).dropWhile fun c => c = 32 || c = 9
  if digits = [] ∨ rest ≠ [] then 0 - 1
  else digits.foldl (fun result c => result * 10 + UInt32.ofNat (c.toNat - 48)) 0

def handle_mvar : List Event × Int16 :=
  match argv 1, argv 2 with
  | some writers, some readers =>
    if argc < 3 then usage "Uso: mvar <writers> <readers>\n"
    else
      let writer_count := (str_to_uint32 writers).toInt32
      let reader_count := (str_to_uint32 readers).toInt32
      if writer_count = 0 ∨ reader_count = 0 then
        usage "Uso: mvar <writers> <readers> (valores > 0)\n"
      else if 26 < writer_count then
        usage "Uso: mvar <writers> <readers> (max writers = 26)\n"
      else launch argv ground stdin stdout pid .mvar 2 argc
  | _, _ => usage "Uso: mvar <writers> <readers>\n"

/-- The function behind an entry of `instruction_handlers`. -/
def handle : Handler → List Event × Int16
  | .clear => handle_clear argv argc ground stdin stdout pid
  | .ps => handle_ps argv argc ground stdin stdout pid
  | .loop => handle_loop argv argc ground stdin stdout pid
  | .cat => handle_cat argv argc ground stdin stdout pid
  | .wc => handle_wc argv argc ground stdin stdout pid
  | .filter => handle_filter argv argc ground stdin stdout pid
  | .mvar => handle_mvar argv argc ground stdin stdout pid
  | .test_mm => handle_test_mm argv argc ground stdin stdout pid
  | .test_processes => handle_test_processes argv argc ground stdin stdout pid
  | .test_priority => handle_test_priority argv argc ground stdin stdout pid
  | .test_sync => handle_test_sync argv argc ground stdin stdout pid

end

/-! ## Commands and lines -/

structure command where
  instruction : Int
  arguments : Cells
  argc : Nat
  ground : Bool

def STDIN : Int32 := 0

def STDOUT : Int32 := 1

def lookup (w : World) (needle : Option Word) : Int × List Event :=
  let found := str_in_list needle (instructions w) CANT_INSTRUCTIONS
  (found.1, found.2.map fun (i : Nat) => .list i)

def set_cmd (w : World) (write : Nat → Event) (argv : Cells) : command × List Event :=
  let (argv, argc, ground, writes) := check_fore write argv (filled argv 0 MAX_ARGS)
  let (instruction, reads) := lookup w (argv 0)
  (⟨instruction, argv, argc, ground⟩, writes ++ reads)

/-- Calls entry `i` of `instruction_handlers` for a command; `none` when there is no
function to come back from. -/
def callHandler (cmd : command) (i : Int) (stdin stdout : Int32) (pid : Int16) :
    List Event × Option Int16 :=
  match instruction_handlers[i.toNat]? with
  | none => ([.handler i, .fault], none)
  | some h =>
    let (events, answer) := handle cmd.arguments cmd.argc cmd.ground stdin stdout pid h
    ([.handler i, .call h] ++ events, some answer)

def freeAll : List Event := [.mm_free .arguments1, .mm_free .arguments2, .mm_free .pipeCmd]

def handle_piped_commands (w : World) (cmd1 cmd2 : command) : List Event :=
  if cmd1.instruction = -1 ∨ cmd2.instruction = -1 then
    .printErr "Comando invalido.\n" :: freeAll
  else if IS_BUILT_IN cmd1.instruction ∨ IS_BUILT_IN cmd2.instruction then
    .printErr "No se pueden usar comandos built-in con pipes.\n" :: freeAll
  else if w.pipe_create < 0 then
    [.pipe_create w.pipe_create, .printErr "Error al crear el pipe\n"] ++ freeAll
  else
    .pipe_create w.pipe_create ::
      match callHandler cmd1 (cmd1.instruction - FONT_SIZE - 1) STDIN w.pipe_create w.firstPid with
      | (events, none) => events
      | (events, some pid1) =>
        events ++
          match callHandler cmd2 (cmd2.instruction - FONT_SIZE - 1) w.pipe_create STDOUT
            w.secondPid with
          | (events, none) => events
          | (events, some pid2) =>
            events ++ [.waitProcess pid1, .mm_free .arguments1, .waitProcess pid2,
              .mm_free .arguments2, .pipe_close w.pipe_create, .mm_free .pipeCmd]

def handle_process_command (w : World) (argv : Cells) (argc : Nat) (inst_n : Int) : List Event :=
  let (argv, argc, ground, writes) := check_fore .argv argv argc
  writes ++
    match callHandler ⟨inst_n, argv, argc, ground⟩ (inst_n - CLEAR) STDIN STDOUT w.firstPid with
    | (events, none) => events
    | (events, some pid) =>
      events ++
        if pid < 0 then [.printErr "Error al ejecutar el comando.\n"]
        else if pid = 0 then
          [.list inst_n,
            .printf "Proceso %s ejecutado en background.\n" [instructions w inst_n.toNat]]
        else [.waitProcess pid]

/-- The body of the loop of `run_shell`, for a line that is not empty. -/
def run_line (w : World) (line : List UInt8) : List Event :=
  let (argv, argc, writes) := split_args line
  writes ++
    if argc = 0 then []
    else if (str_in_list (some bar) argv MAX_ARGS).1 ≠ -1 then
      if w.pipeCmd then
        let (words1, words2, copies) := separate_cmds w argv
        let (cmd1, events1) := set_cmd w .cmd1 words1
        let (cmd2, events2) := set_cmd w .cmd2 words2
        copies ++ events1 ++ events2 ++ handle_piped_commands w cmd1 cmd2
      else [.printErr "Error al asignar memoria para pipeCmd\n"]
    else
      let (instruction_n, reads) := lookup w (argv 0)
      reads ++
        if instruction_n = -1 then
          [.printErr "Comando invalido, ejecuta 'help' para conocer los comandos\n"]
        else if IS_BUILT_IN instruction_n then
          let (argv, argc, moves) := remove_name argv argc
          moves ++ .builtInHandler instruction_n ::
            match built_in_handlers[instruction_n.toNat]? with
            | none => [.fault]
            | some b => [.builtIn b argc argv]
        else handle_process_command w argv argc instruction_n

end bare_bones.shell
