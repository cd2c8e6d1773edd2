-- The built-in commands of the shell and what they store. The interrupt table lies at
-- address 0, where a store through `NULL` goes without a fault.
import BareBones.Lib.ByteMemory
import BareBones.Lib.Runs
import Mathlib.Data.Nat.Digits.Defs

namespace bare_bones.builtinFunctions

open byte_memory runs

/-! ## The interrupt table -/

def idt : Nat := 0

/-- Where the 255 descriptors of 16 bytes end. -/
def idtEnd : Nat := idt + 255 * 16

def ACS_INT : Nat := 0x8E

def setup_IDT_entry (index offset : Nat) (m : Memory) : Memory :=
  let entry := idt + 16 * index
  let m := m.storeInt (entry + 2) 2 0x08
  let m := m.storeInt entry 2 (offset % 2 ^ 16)
  let m := m.storeInt (entry + 6) 2 (offset / 2 ^ 16 % 2 ^ 16)
  let m := m.storeInt (entry + 8) 4 (offset / 2 ^ 32 % 2 ^ 32)
  let m := m.storeInt (entry + 5) 1 ACS_INT
  let m := m.storeInt (entry + 4) 1 0
  m.storeInt (entry + 12) 4 0

/-- The addresses of the handlers, by the vector that each one serves. -/
def load_idt (handlers : Nat → Nat) (m : Memory) : Memory :=
  [0x00, 0x06, 0x0D, 0x0E, 0x20, 0x21, 0x80].foldl
    (fun m index => setup_IDT_entry index (handlers index) m) m

/-! ## Numbers in strings -/

def NULL : Nat := 0

/-- A string: where it is, and its characters up to the terminator. -/
structure Str where
  addr : Nat
  chars : List UInt8

def isNumber (c : UInt8) : Bool := 48 ≤ c && c ≤ 57

def number (digits : List UInt8) : Int32 :=
  digits.foldl (fun num c => num * 10 + Int32.ofNat c.toNat - 48) 0

def atoi (s : Str) : Int32 := number (s.chars.takeWhile isNumber)

/-- Stores the address of the first character that is no digit in `*stop`. -/
def strtoi (s : Str) (stop : Nat) (m : Memory) : Int32 × Memory :=
  let digits := s.chars.takeWhile isNumber
  (number digits, m.storeInt stop 8 (s.addr + digits.length))

def digitChar (r : Nat) : UInt8 := UInt8.ofNat (if 9 < r then r - 10 + 65 else r + 48)

/-- The digits of `n` in `buffer`, and the terminator. -/
def itoa (n buffer base : Nat) (m : Memory) : Memory :=
  m.store buffer
    (if n = 0 then [48, 0] else ((Nat.digits base n).reverse.map digitChar) ++ [0])

/-! ## Printing -/

/-- The locals whose addresses are taken: those of `vprintf`, and the record that
`bi_mem` asks for. The stack of the shell lies behind the table. `literals` is where
the formats are. -/
structure Frame where
  literals : Nat
  fmtPtr : Nat
  buffer : Nat
  info : Nat
  fmtPtr_behind : idtEnd ≤ fmtPtr
  buffer_behind : idtEnd ≤ buffer
  info_behind : idtEnd ≤ info

def text (s : String) : List UInt8 := s.toUTF8.toList

/-- What `vprintf` stores for the rest of a format, at `pos`, with the arguments that
are numbers. -/
def vprintf (fr : Frame) (pos : Nat) (fmt : List UInt8) (args : List Nat) (m : Memory) : Memory :=
  match fmt with
  | [] => m
  | 37 :: fmt =>
    let m := (strtoi ⟨pos + 1, fmt⟩ fr.fmtPtr m).2
    let pos := pos + 1 + (fmt.takeWhile isNumber).length
    match hrest : fmt.dropWhile isNumber with
    | [] => m
    | c :: rest =>
      if c = 100 ∨ c = 117 then
        vprintf fr (pos + 1) rest args.tail (itoa (args.headD 0) fr.buffer 10 m)
      else if c = 120 then
        vprintf fr (pos + 1) rest args.tail (itoa (args.headD 0) fr.buffer 16 m)
      else vprintf fr (pos + 1) rest args m
  | _ :: fmt => vprintf fr (pos + 1) fmt args m
termination_by fmt.length
decreasing_by
  all_goals
    have := (List.dropWhile_suffix isNumber (l := fmt)).length_le
    simp_all
    try omega

/-- The arguments are passed in registers of 64 bits. -/
def printf (fr : Frame) (fmt : String) (args : List Int) (m : Memory) : Memory :=
  vprintf fr fr.literals (text fmt) (args.map fun n => (n % 2 ^ 64).toNat) m

/-! ## The commands -/

def MIN_FONT_SIZE : Int32 := 1

def MAX_FONT_SIZE : Int32 := 3

def MIN_PRIORITY : Int32 := 1

def MAX_PRIORITY : Int32 := 10

/-- What the kernel answers while a command runs. `mm_info` gives the record in memory
and its three numbers. -/
structure Answers where
  getPid : Int16
  blockProcess : Int16 → Int32
  changePriority : Int16 → Int32 → Int32
  mm_info : List UInt8 × Int × Int × Int

/-- The calls that ask the kernel for something besides output. -/
inductive Syscall
  | setFontSize (size : UInt8)
  | blockProcess (pid : Int16)
  | setReadyProcess (pid : Int16)
  | killProcess (pid : Int16)
  | changePriority (pid : Int16) (priority : Int32)
  deriving DecidableEq

section
variable (fr : Frame) (ans : Answers) (argc : Int) (argv : Nat → Option Str)

/-- The manual goes to `puts`, that stores nothing. -/
def bi_help (m : Memory) : List Syscall × Memory :=
  if argc ≠ 0 then ([], printf fr "El comando help no requiere argumentos.\n" [] m)
  else ([], printf fr "%s" [] m)

def bi_fontSize (m : Memory) : List Syscall × Memory :=
  match argv 0 with
  | none => ([], printf fr "Uso: font-size <n>\n" [] m)
  | some arg =>
    if argc ≠ 1 then ([], printf fr "Uso: font-size <n>\n" [] m)
    else
      let (v, m) := strtoi arg NULL m
      if v < MIN_FONT_SIZE ∨ MAX_FONT_SIZE < v then
        ([], printf fr "Tamaño invalido. Rango: %d..%d\n"
          [MIN_FONT_SIZE.toInt, MAX_FONT_SIZE.toInt] m)
      else ([.setFontSize v.toInt8.toUInt8], m)

def bi_block (m : Memory) : List Syscall × Memory :=
  match argv 0 with
  | none => ([], printf fr "Uso: block <pid>\n" [] m)
  | some arg =>
    if argc < 1 then ([], printf fr "Uso: block <pid>\n" [] m)
    else
      let pid := (atoi arg).toInt16
      if pid = 0 ∨ pid = 1 ∨ pid = ans.getPid then
        ([], printf fr "Error: no se puede bloquear la shell ni el proceso idle.\n" [] m)
      else if ans.blockProcess pid = -1 then
        ([.blockProcess pid], printf fr "Error al bloquear el proceso %d\n" [pid.toInt] m)
      else ([.blockProcess pid], printf fr "Proceso %d bloqueado correctamente\n" [pid.toInt] m)

def bi_unblock (m : Memory) : List Syscall × Memory :=
  match argv 0 with
  | none => ([], printf fr "Uso: unblock <pid>\n" [] m)
  | some arg =>
    if argc < 1 then ([], printf fr "Uso: unblock <pid>\n" [] m)
    else ([.setReadyProcess (atoi arg).toInt16], m)

def bi_kill (m : Memory) : List Syscall × Memory :=
  match argv 0 with
  | none => ([], printf fr "Uso: kill <pid>\n" [] m)
  | some arg =>
    if argc ≠ 1 then ([], printf fr "Uso: kill <pid>\n" [] m)
    else
      let pid := (atoi arg).toInt16
      if pid ≤ 1 then ([], printf fr "PID debe ser mayor que 1\n" [] m)
      else ([.killProcess pid], m)

def bi_nice (m : Memory) : List Syscall × Memory :=
  match argv 0, argv 1 with
  | some arg, some arg' =>
    if argc < 2 then ([], printf fr "Uso: nice <pid> <priority>\n" [] m)
    else
      let pid := (atoi arg).toInt16
      let (priority, m) := strtoi arg' NULL m
      if pid = 0 ∨ pid = 1 then
        ([], printf fr "No se pueden cambiar las prioridades de idle o de la shell.\n" [] m)
      else if priority < MIN_PRIORITY ∨ MAX_PRIORITY < priority then
        ([], printf fr "Prioridad invalida (rango %d..%d)\n"
          [MIN_PRIORITY.toInt, MAX_PRIORITY.toInt] m)
      else if ans.changePriority pid priority = -1 then
        ([.changePriority pid priority], printf fr "Proceso %d no encontrado\n" [pid.toInt] m)
      else ([.changePriority pid priority], m)
  | _, _ => ([], printf fr "Uso: nice <pid> <priority>\n" [] m)

def bi_mem (m : Memory) : List Syscall × Memory :=
  if argc ≠ 0 then ([], printf fr "Uso: mem\n" [] m)
  else
    let (record, size, used, free) := ans.mm_info
    let m := m.store fr.info record
    let m := printf fr "Memoria total: %u bytes\n" [size] m
    let m := printf fr "Usada: %u bytes\n" [used] m
    ([], printf fr "Libre: %u bytes\n" [free] m)

end

inductive Builtin
  | help
  | mem
  | kill
  | block
  | unblock
  | nice
  | fontSize
  deriving DecidableEq

/-- A command of the shell with its arguments, and what the kernel answers to it. -/
structure Command where
  builtin : Builtin
  argc : Int
  argv : Nat → Option Str
  answers : Answers

def exec (fr : Frame) (m : Memory) (c : Command) : Memory :=
  match c.builtin with
  | .help => (bi_help fr c.argc m).2
  | .mem => (bi_mem fr c.answers c.argc m).2
  | .kill => (bi_kill fr c.argc c.argv m).2
  | .block => (bi_block fr c.answers c.argc c.argv m).2
  | .unblock => (bi_unblock fr c.argc c.argv m).2
  | .nice => (bi_nice fr c.answers c.argc c.argv m).2
  | .fontSize => (bi_fontSize fr c.argc c.argv m).2

/-! ## What the commands store -/

section
variable {P : Nat → Prop} {fr : Frame}

theorem spares_behind {a : Nat} (hP : ∀ i, P i → i < idtEnd) (ha : idtEnd ≤ a) (n : Nat) :
    ∀ i, P i → i < a ∨ a + n ≤ i := fun i hi => Or.inl (Nat.lt_of_lt_of_le (hP i hi) ha)

theorem spares_vprintf (hP : ∀ i, P i → i < idtEnd) (pos : Nat) (fmt : List UInt8)
    (args : List Nat) (m : Memory) : Spares P m (vprintf fr pos fmt args m) := by
  have hparse : ∀ (s : Str) (m : Memory), Spares P m (strtoi s fr.fmtPtr m).2 :=
    fun s m => Spares.storeInt (spares_behind hP fr.fmtPtr_behind 8) m _
  have hdigits : ∀ (n base : Nat) (m : Memory), Spares P m (itoa n fr.buffer base m) :=
    fun n base m => Spares.store (spares_behind hP fr.buffer_behind _) m
  fun_induction vprintf fr pos fmt args m with
  | case1 => exact Spares.refl _
  | case2 => exact hparse _ _
  | case3 pos args m fmt m' pos' c rest hrest hc ih =>
    exact (hparse _ _).trans ((hdigits _ _ _).trans ih)
  | case4 pos args m fmt m' pos' rest hrest hc ih =>
    exact (hparse _ _).trans ((hdigits _ _ _).trans ih)
  | case5 pos args m fmt m' pos' c rest hrest hc hx ih => exact (hparse _ _).trans ih
  | case6 pos args m c fmt hc ih => exact ih

theorem spares_printf (hP : ∀ i, P i → i < idtEnd) (fmt : String) (args : List Int)
    (m : Memory) : Spares P m (printf fr fmt args m) := spares_vprintf hP _ _ _ _

/-- The commands that look for a number with `strtoi`. -/
def parsesIntoNull (c : Command) : Prop :=
  match c.builtin with
  | .fontSize => c.argc = 1 ∧ (c.argv 0).isSome
  | .nice => 2 ≤ c.argc ∧ (c.argv 0).isSome ∧ (c.argv 1).isSome
  | _ => False

/-- Nothing more was stored, or one more text printed. -/
def Prints (fr : Frame) (m m' : Memory) : Prop := m' = m ∨ ∃ fmt args, m' = printf fr fmt args m

theorem Prints.spares {m m' : Memory} (h : Prints fr m m') (hP : ∀ i, P i → i < idtEnd) :
    Spares P m m' := by
  rcases h with rfl | ⟨fmt, args, rfl⟩
  · exact Spares.refl _
  · exact spares_printf hP fmt args m

theorem prints_nothing (m : Memory) : Prints fr m m := Or.inl rfl

theorem prints_printf (fmt : String) (args : List Int) (m : Memory) :
    Prints fr m (printf fr fmt args m) := Or.inr ⟨fmt, args, rfl⟩

theorem bi_help_prints (argc : Int) (m : Memory) : Prints fr m (bi_help fr argc m).2 := by
  unfold bi_help
  split <;> exact prints_printf _ _ _

theorem bi_kill_prints (argc : Int) (argv : Nat → Option Str) (m : Memory) :
    Prints fr m (bi_kill fr argc argv m).2 := by
  unfold bi_kill
  dsimp only
  split
  · exact prints_printf _ _ _
  · split_ifs <;> first | exact prints_printf _ _ _ | exact prints_nothing m

theorem bi_block_prints (ans : Answers) (argc : Int) (argv : Nat → Option Str) (m : Memory) :
    Prints fr m (bi_block fr ans argc argv m).2 := by
  unfold bi_block
  dsimp only
  split
  · exact prints_printf _ _ _
  · split_ifs <;> exact prints_printf _ _ _

theorem bi_unblock_prints (argc : Int) (argv : Nat → Option Str) (m : Memory) :
    Prints fr m (bi_unblock fr argc argv m).2 := by
  unfold bi_unblock
  split
  · exact prints_printf _ _ _
  · split_ifs <;> first | exact prints_printf _ _ _ | exact prints_nothing m

/-- The usage, or a store at `NULL` first. -/
theorem bi_fontSize_prints (argc : Int) (argv : Nat → Option Str) (m : Memory) :
    (argc = 1 ∧ (argv 0).isSome →
      ∃ arg, Prints fr (strtoi arg NULL m).2 (bi_fontSize fr argc argv m).2) ∧
    (¬ (argc = 1 ∧ (argv 0).isSome) → Prints fr m (bi_fontSize fr argc argv m).2) := by
  unfold bi_fontSize
  cases argv 0 with
  | none => simpa using prints_printf _ _ _
  | some arg =>
    constructor
    · intro hone
      refine ⟨arg, ?_⟩
      dsimp only
      rw [if_neg (not_not.mpr hone.1)]
      split_ifs <;> first | exact prints_printf _ _ _ | exact prints_nothing _
    · intro hnone
      have hargc : argc ≠ 1 := fun h => hnone ⟨h, rfl⟩
      simpa [hargc] using prints_printf _ _ _

theorem bi_nice_prints (ans : Answers) (argc : Int) (argv : Nat → Option Str) (m : Memory) :
    (2 ≤ argc ∧ (argv 0).isSome ∧ (argv 1).isSome →
      ∃ arg, Prints fr (strtoi arg NULL m).2 (bi_nice fr ans argc argv m).2) ∧
    (¬ (2 ≤ argc ∧ (argv 0).isSome ∧ (argv 1).isSome) →
      Prints fr m (bi_nice fr ans argc argv m).2) := by
  unfold bi_nice
  cases argv 0 with
  | none => simpa using prints_printf _ _ _
  | some arg =>
    cases argv 1 with
    | none => simpa using prints_printf _ _ _
    | some arg' =>
      constructor
      · intro htwo
        refine ⟨arg', ?_⟩
        dsimp only
        rw [if_neg (Int.not_lt.mpr htwo.1)]
        split_ifs <;> first | exact prints_printf _ _ _ | exact prints_nothing _
      · intro hnone
        have hargc : argc < 2 := Int.not_le.mp fun h => hnone ⟨h, rfl, rfl⟩
        simpa [hargc] using prints_printf _ _ _

/-- `bi_mem` has its record filled, behind the table too. -/
theorem bi_mem_spares (hP : ∀ i, P i → i < idtEnd) (ans : Answers) (argc : Int) (m : Memory) :
    Spares P m (bi_mem fr ans argc m).2 := by
  have hprint : ∀ fmt args m, Spares P m (printf fr fmt args m) := spares_printf hP
  unfold bi_mem
  split
  · exact hprint _ _ _
  · have hinfo := Spares.store (spares_behind hP fr.info_behind ans.mm_info.1.length) m
    exact (hinfo.trans (hprint _ _ _)).trans ((hprint _ _ _).trans (hprint _ _ _))

/-- A command first stores at `NULL` when it looks for a number. The rest goes behind
the table. -/
theorem exec_parses (fr : Frame) (c : Command) (m : Memory) (h : parsesIntoNull c) :
    ∃ arg, Prints fr (strtoi arg NULL m).2 (exec fr m c) := by
  obtain ⟨builtin, argc, argv, ans⟩ := c
  cases builtin with
  | fontSize => exact (bi_fontSize_prints argc argv m).1 h
  | nice => exact (bi_nice_prints ans argc argv m).1 h
  | help => exact h.elim
  | mem => exact h.elim
  | kill => exact h.elim
  | block => exact h.elim
  | unblock => exact h.elim

theorem exec_spares (fr : Frame) (hP : ∀ i, P i → i < idtEnd) (c : Command) (m : Memory)
    (h : ¬ parsesIntoNull c) : Spares P m (exec fr m c) := by
  obtain ⟨builtin, argc, argv, ans⟩ := c
  cases builtin with
  | help => exact (bi_help_prints argc m).spares hP
  | mem => exact bi_mem_spares hP ans argc m
  | kill => exact (bi_kill_prints argc argv m).spares hP
  | block => exact (bi_block_prints ans argc argv m).spares hP
  | unblock => exact (bi_unblock_prints argc argv m).spares hP
  | nice => exact ((bi_nice_prints ans argc argv m).2 h).spares hP
  | fontSize => exact ((bi_fontSize_prints argc argv m).2 h).spares hP

theorem null_stored (fr : Frame) {c : Command} (h : parsesIntoNull c) (m : Memory) :
    NULL ∈ (exec fr m c).stored := by
  obtain ⟨arg, hprints⟩ := exec_parses fr c m h
  have hlater := (hprints.spares (P := fun _ => False) (fun _ h => h.elim)).later
  exact hlater (mem_stored_storeInt m NULL _ (by decide))

theorem exec_later (c : Command) (m : Memory) : m.stored ⊆ (exec fr m c).stored := by
  have hnowhere : ∀ i, False → i < idtEnd := fun _ h => h.elim
  by_cases h : parsesIntoNull c
  · obtain ⟨arg, hprints⟩ := exec_parses fr c m h
    exact List.Subset.trans (List.subset_append_left _ _) (hprints.spares hnowhere).later
  · exact (exec_spares fr hnowhere c m h).later

end

/-! ## Runs -/

/-- The memory when the shell starts; what was stored before is forgotten. -/
def boot (handlers : Nat → Nat) (m : Memory) : Memory := { load_idt handlers m with stored := [] }

/-- The table is as `load_idt` left it, and nothing was stored to it. -/
structure TableKept (booted final : Memory) : Prop where
  bytes : ∀ a < idtEnd, final.bytes a = booted.bytes a
  stores : ∀ a ∈ final.stored, idtEnd ≤ a

theorem later_run (fr : Frame) (m : Memory) (cmds : List Command) :
    m.stored ⊆ (run (exec fr) m cmds).stored :=
  run_keeps (I := fun m' => m.stored ⊆ m'.stored)
    (fun m' c h _ ha => exec_later c m' (h ha)) (fun _ h => h) cmds

theorem spares_run (fr : Frame) {cmds : List Command} (h : ∀ c ∈ cmds, ¬ parsesIntoNull c)
    (m : Memory) : Spares (· < idtEnd) m (run (exec fr) m cmds) := by
  induction cmds generalizing m with
  | nil => exact Spares.refl m
  | cons c cmds ih =>
    have hc := exec_spares (P := (· < idtEnd)) fr (fun _ h => h) c m
      (h c List.mem_cons_self)
    exact hc.trans (ih (fun c hc => h c (List.mem_cons_of_mem _ hc)) _)

/-- The table outlives a series of commands exactly when none of them looks for a
number with `strtoi`. -/
theorem table_kept_iff (fr : Frame) (handlers : Nat → Nat) (m : Memory) (cmds : List Command) :
    TableKept (boot handlers m) (run (exec fr) (boot handlers m) cmds) ↔
      ∀ c ∈ cmds, ¬ parsesIntoNull c := by
  constructor
  · intro h c hc hparses
    obtain ⟨before, after, rfl⟩ := List.append_of_mem hc
    have hnull := later_run fr _ after
      (null_stored fr hparses (run (exec fr) (boot handlers m) before))
    rw [run_append, run_cons] at h
    exact absurd (h.stores NULL hnull) (by decide)
  · intro h
    have hs := spares_run fr h (boot handlers m)
    refine ⟨hs.bytes, fun a ha => ?_⟩
    by_contra hlt
    exact absurd (hs.stored a ha (Nat.lt_of_not_le hlt)) (by simp [boot])

/-- `font-size 2` with its argument at 6 MiB: the selector of the first descriptor, 8
before, gets the third byte of that address. -/
theorem font_size_breaks_the_first_descriptor :
    ¬ TableKept (boot (fun _ => 0x100200) ⟨fun _ => 0, []⟩)
      (run (exec ⟨0x400000, 0x800000, 0x800010, 0x800120, by decide, by decide, by decide⟩)
        (boot (fun _ => 0x100200) ⟨fun _ => 0, []⟩)
        [⟨.fontSize, 1, fun i => if i = 0 then some ⟨0x600000, [50]⟩ else none,
          ⟨1, fun _ => 0, fun _ _ => 0, [], 0, 0, 0⟩⟩]) := by
  intro h
  have hselector : (0x60 : UInt8) = 8 := h.bytes 2 (by decide)
  exact absurd hselector (by decide)

end bare_bones.builtinFunctions
