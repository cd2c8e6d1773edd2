-- The handlers of `interrupts.asm`, instruction by instruction. Each one saves the registers
-- of the process that it interrupts on the stack of that process, and brings back those that
-- lie where the stack pointer is in the end.
import BareBones.Lib.Processor

namespace bare_bones.interrupts

open byte_memory processor runs

/-! ## The registers of a process in memory -/

/-- The registers of `popState`, in its order. -/
def stateRegs : List Reg :=
  [.r15, .r14, .r13, .r12, .r11, .r10, .r9, .r8, .rsi, .rdi, .rbp, .rdx, .rcx, .rbx, .rax]

def pushState : List Instr :=
  [.push .rax, .push .rbx, .push .rcx, .push .rdx, .push .rbp, .push .rdi, .push .rsi, .push .r8,
    .push .r9, .push .r10, .push .r11, .push .r12, .push .r13, .push .r14, .push .r15]

def popState : List Instr := stateRegs.map .pop

theorem pushState_eq : pushState = stateRegs.reverse.map .push := rfl

theorem mem_stateRegs (r : Reg) : r ∈ stateRegs ↔ r ≠ .rsp := by
  cases r <;> decide

/-- The registers as a handler saves them, at the lowest address the last one pushed. -/
def frame (c : Cpu) : List Word := stateRegs.map c.regs ++ c.returnFrame

def FRAME_SIZE : Nat := 20 * 8

@[simp] theorem length_frame (c : Cpu) : (frame c).length = 20 := rfl

/-- The registers `c` are saved at `a`. -/
def Framed (m : Memory) (a : Nat) (c : Cpu) : Prop := Holds m a (frame c)

theorem Framed.congr {m m' : Memory} {a : Nat} {c : Cpu} (h : Framed m a c)
    (hm : ∀ i, a ≤ i → i < a + FRAME_SIZE → m'.bytes i = m.bytes i) : Framed m' a c :=
  Holds.congr h hm

/-! ## In and out -/

/-- Where a handler saves the registers of the process that it interrupts. -/
def framePos (s : State) : Nat := s.rsp.toNat / 16 * 16 - FRAME_SIZE

/-- The interrupt, and the first lines of its handler. -/
def enter (g : Gate) (s : State) : State := run exec (interrupt g s) pushState

/-- The last lines of a handler. -/
def leave (s : State) : State := iretq (run exec s popState)

/-- The registers are saved under the stack pointer, and no more than that is written. -/
structure Entered (s s' : State) : Prop where
  rsp : s'.rsp.toNat = framePos s
  regs : ∀ r ≠ .rsp, s'.reg r = s.reg r
  framed : Framed s'.memory (framePos s) s.cpu
  spared : Spares (fun i => i < framePos s ∨ framePos s + FRAME_SIZE ≤ i) s.memory s'.memory

theorem pushState_pushed {s : State} (hroom : 120 ≤ s.rsp.toNat) :
    Pushed s (run exec s pushState) (stateRegs.reverse.map s.reg) := by
  rw [pushState_eq, run_pushes stateRegs.reverse (by decide) s]
  apply pushed_foldl
  simpa [stateRegs] using hroom

theorem enter_entered (g : Gate) (s : State) (hroom : FRAME_SIZE ≤ s.rsp.toNat / 16 * 16) :
    Entered s (enter g s) := by
  have hroom' : 160 ≤ s.rsp.toNat / 16 * 16 := hroom
  obtain ⟨hpos, hregs, hwrote⟩ := interrupt_pushed g s (by omega)
  obtain ⟨s₁, hs₁⟩ : ∃ s₁, interrupt g s = s₁ := ⟨_, rfl⟩
  rw [hs₁] at hpos hregs hwrote
  have hwords : stateRegs.reverse.map s₁.reg = stateRegs.reverse.map s.reg := by
    apply List.map_congr_left
    intro r hr
    exact hregs r ((mem_stateRegs r).mp (List.mem_reverse.mp hr))
  have hpushed : Pushed s₁ (enter g s) (stateRegs.reverse.map s.reg) := by
    rw [enter, hs₁, ← hwords]
    exact pushState_pushed (by omega)
  have hrsp : (enter g s).rsp.toNat = framePos s := by
    rw [hpushed.rsp, hpos, framePos, FRAME_SIZE]
    simp [stateRegs]
    omega
  have hmemory := hpushed.memory
  rw [hrsp, List.map_reverse, List.reverse_reverse] at hmemory
  have hbytes : s.rsp.toNat / 16 * 16 - 40 =
      framePos s + (wordBytes (stateRegs.map s.reg)).length := by
    simp [stateRegs, framePos, FRAME_SIZE]
    omega
  rw [hbytes] at hwrote
  have hall := hwrote.before hmemory
  rw [← wordBytes_append] at hall
  refine ⟨hrsp, ?_, hall.bytes, hall.spared⟩
  intro r hr
  rw [State.reg, hpushed.cpu]
  simp only [Cpu.setRegs, Function.update_of_ne hr]
  exact hregs r hr

/-- `popState` brings the words that lie at the stack pointer. -/
theorem popState_held {s : State} {v : Reg → Word}
    (hheld : Holds s.memory s.rsp.toNat (stateRegs.map v)) (hend : s.rsp.toNat + 120 < 2 ^ 64) :
    (run exec s popState).rsp.toNat = s.rsp.toNat + 120 ∧
      (run exec s popState).memory = s.memory ∧ ∀ r ≠ .rsp, (run exec s popState).reg r = v r := by
  obtain ⟨rsp, hpos, hrun⟩ := run_pops stateRegs (by decide) v s hheld hend
  rw [popState, hrun]
  refine ⟨hpos, rfl, ?_⟩
  intro r hr
  simp [State.reg, Cpu.setRegs, popped, hr, mem_stateRegs]

/-- `iretq` completes the registers. -/
theorem iretq_completes {s : State} {c : Cpu} (hregs : ∀ r ≠ .rsp, s.reg r = c.regs r)
    (hheld : Holds s.memory s.rsp.toNat c.returnFrame) (hend : s.rsp.toNat + 40 < 2 ^ 64) :
    iretq s = ⟨c, s.memory⟩ := by
  have hall : Function.update s.cpu.regs .rsp (c.regs .rsp) = c.regs := by
    funext r
    by_cases hr : r = .rsp
    · rw [hr, Function.update_self]
    · rw [Function.update_of_ne hr]
      exact hregs r hr
  rw [iretq_returns c hheld hend, hall]

theorem holds_append {m : Memory} {a : Nat} {ws vs : List Word} :
    Holds m a (ws ++ vs) ↔ Holds m a ws ∧ Holds m (a + 8 * ws.length) vs := by
  have happend := @Memory.load_append m a (wordBytes ws) (wordBytes vs)
  rw [← wordBytes_append] at happend
  simpa [Holds, Nat.mul_add] using happend

/-- What was saved comes back. -/
theorem leave_framed {s : State} {c : Cpu} (h : Framed s.memory s.rsp.toNat c)
    (hend : s.rsp.toNat + FRAME_SIZE < 2 ^ 64) : leave s = ⟨c, s.memory⟩ := by
  have hend' : s.rsp.toNat + 160 < 2 ^ 64 := hend
  obtain ⟨hstate, hreturn⟩ := holds_append.mp h
  obtain ⟨hrsp, hmemory, hregs⟩ := popState_held hstate (by omega)
  rw [leave, ← hmemory]
  apply iretq_completes hregs
  · rw [hmemory, hrsp]
    exact hreturn
  · omega

/-! ## The handlers -/

/-- `_irq00Handler`. `schedule` is given a stack pointer and says where to go on; the other
function that is called is `irqDispatcher`. -/
def irq00Handler {K : Type} (g : Gate) (x y : Scratch) (schedule : Nat → Nat × K) (s : State) :
    State × K :=
  let s := exec (enter g s) (.movImm .rdi 0)
  let s := exec (s.called x none) (.mov .rdi .rsp)
  let (rsp, k) := schedule (s.reg .rdi).toNat
  let s := s.called y (some (BitVec.ofNat 64 rsp))
  (leave (run exec s [.mov .rsp .rax, .movAl 0x20, .out]), k)

/-- `irqHandlerMaster n`. -/
def irqHandlerMaster (g : Gate) (n : Word) (x : Scratch) (s : State) : State :=
  let s := exec (enter g s) (.movImm .rdi n)
  leave (run exec (s.called x none) [.movAl 0x20, .out])

/-- An exception: for some of them the processor pushes an error code too. -/
def raise (g : Gate) (code : Option Word) (s : State) : State :=
  code.toList.foldl State.push (interrupt g s)

/-- The lines of `exceptionHandler n` before its call: the second argument points to where the
saved `rip` should be, the third to where the saved `rsp` should be. -/
def exceptionEnter (g : Gate) (n : Word) (code : Option Word) (s : State) : State :=
  run exec (run exec (raise g code s) pushState)
    [.mov .rsi .rsp, .add .rsi (15 * 8), .mov .rdx .rsp, .add .rdx (18 * 8), .movImm .rdi n]

/-- The lines behind it, up to `iretq`. -/
def exceptionLeave (load_main : Word) (s : State) : State :=
  run exec (run exec s popState) [.add .rsp 8, .pushImm load_main]

/-- The stack of `exceptionHandler n` when it comes to `iretq`. -/
def exceptionReturn (g : Gate) (n load_main : Word) (code : Option Word) (x : Scratch)
    (s : State) : State :=
  exceptionLeave load_main ((exceptionEnter g n code s).called x none)

/-- `exceptionHandler n`. The words that `iretq` takes may be others than the handler means. -/
def exceptionHandler (sel : Selectors) (g : Gate) (n load_main : Word) (code : Option Word)
    (x : Scratch) (s : State) : Option State :=
  iretqOrFault sel (exceptionReturn g n load_main code x s)

/-- The lines of `_syscallHandler` before its call. -/
def syscallEnter (g : Gate) (s : State) : State :=
  run exec (enter g s)
    [.mov .rbp .rsp, .push .r9, .mov .r9 .r8, .mov .r8 .rcx, .mov .rcx .rdx, .mov .rdx .rsi,
      .mov .rsi .rdi, .mov .rdi .rax]

/-- And the lines behind it. -/
def syscallLeave (aux : Nat) (s : State) : State :=
  let s := run exec s [.store aux .rax, .movAl 0x20, .out, .mov .rsp .rbp]
  iretq (run exec s (popState ++ [.load .rax aux]))

/-- What is saved of the interrupted process when a handler goes on to its end: its registers,
and all that is not in the `n` bytes below them. -/
structure Saved (s : State) (n : Nat) (m : Memory) : Prop where
  framed : Framed m (framePos s) s.cpu
  spared : Spares (fun i => i < framePos s - n ∨ framePos s + FRAME_SIZE ≤ i) s.memory m

section Handlers

variable {g : Gate} {s s' : State} {n : Nat}

theorem Entered.saved (h : Entered s s') (n : Nat) : Saved s n s'.memory := by
  refine ⟨h.framed, h.spared.mono ?_⟩
  intro i hi
  omega

/-- A call stores below the saved registers. -/
theorem Saved.called (h : Saved s n s'.memory) (hrsp : s'.rsp.toNat = framePos s) {x : Scratch}
    (hx : x.below.length ≤ n) (hn : n ≤ framePos s) (result : Option Word) :
    Saved s n (s'.called x result).memory := by
  have hspares := called_spares s' x result (by omega)
  rw [hrsp] at hspares
  constructor
  · apply h.framed.congr
    intro i hi _
    exact hspares.bytes i (Or.inr hi)
  · apply h.spared.trans
    apply hspares.mono
    intro i hi
    omega

/-- The tick saves the registers, and brings back those that lie where `schedule` says. -/
theorem irq00Handler_spec {K : Type} (g : Gate) {x y : Scratch} (schedule : Nat → Nat × K)
    (hx : x.below.length ≤ n) (hy : y.below.length ≤ n)
    (hroom : n + FRAME_SIZE ≤ s.rsp.toNat / 16 * 16) :
    (irq00Handler g x y schedule s).2 = (schedule (framePos s)).2 ∧
      ∃ m, Saved s n m ∧ ∀ c, Framed m (schedule (framePos s)).1 c →
        (schedule (framePos s)).1 + FRAME_SIZE < 2 ^ 64 →
        (irq00Handler g x y schedule s).1 = ⟨c, m⟩ := by
  have hentered := enter_entered g s (by omega)
  have hn : n ≤ framePos s := by
    unfold framePos
    omega
  obtain ⟨s₁, hs₁⟩ : ∃ s₁, exec (enter g s) (.movImm .rdi 0) = s₁ := ⟨_, rfl⟩
  have hrsp₁ : s₁.rsp.toNat = framePos s := by
    rw [← hs₁, ← hentered.rsp]
    exact congrArg BitVec.toNat (reg_setReg_ne _ _ (by decide))
  have hsaved₁ : Saved s n s₁.memory := by
    rw [← hs₁]
    exact hentered.saved n
  obtain ⟨s₂, hs₂⟩ : ∃ s₂, exec (s₁.called x none) (.mov .rdi .rsp) = s₂ := ⟨_, rfl⟩
  have hrsp₂ : s₂.rsp.toNat = framePos s ∧ (s₂.reg .rdi).toNat = framePos s := by
    rw [← hrsp₁, ← rsp_called s₁ x none, ← hs₂]
    constructor
    · exact congrArg BitVec.toNat (reg_setReg_ne _ _ (by decide))
    · exact congrArg BitVec.toNat (reg_setReg_self ..)
  have hsaved₂ : Saved s n s₂.memory := by
    rw [← hs₂]
    exact hsaved₁.called hrsp₁ hx hn none
  have hsaved₃ := hsaved₂.called hrsp₂.1 hy hn
    (some (BitVec.ofNat 64 (schedule (framePos s)).1))
  have hrun : irq00Handler g x y schedule s =
      (leave (run exec (s₂.called y (some (BitVec.ofNat 64 (schedule (framePos s)).1)))
        [.mov .rsp .rax, .movAl 0x20, .out]), (schedule (framePos s)).2) := by
    simp only [irq00Handler, hs₁, hs₂, hrsp₂.2]
  rw [hrun]
  refine ⟨rfl, _, hsaved₃, ?_⟩
  intro c hc hend
  obtain ⟨s₃, hs₃⟩ : ∃ s₃, run exec (s₂.called y (some (BitVec.ofNat 64
    (schedule (framePos s)).1))) [.mov .rsp .rax, .movAl 0x20, .out] = s₃ := ⟨_, rfl⟩
  have hmemory : s₃.memory = (s₂.called y (some (BitVec.ofNat 64
      (schedule (framePos s)).1))).memory := by
    rw [← hs₃]
    rfl
  have hrsp₃ : s₃.rsp.toNat = (schedule (framePos s)).1 := by
    have hrax : s₃.rsp = (s₂.called y (some (BitVec.ofNat 64
        (schedule (framePos s)).1))).reg .rax := by
      rw [← hs₃]
      rfl
    rw [hrax, rax_called, BitVec.toNat_ofNat]
    unfold FRAME_SIZE at hend
    omega
  rw [← hmemory, hs₃]
  apply leave_framed
  · rwa [hmemory, hrsp₃]
  · rwa [hrsp₃]

/-- The other interrupts leave the registers of the process as they were. -/
theorem irqHandlerMaster_spec (g : Gate) (w : Word) {x : Scratch} (hx : x.below.length ≤ n)
    (hroom : n + FRAME_SIZE ≤ s.rsp.toNat / 16 * 16) :
    ∃ m, Saved s n m ∧ irqHandlerMaster g w x s = ⟨s.cpu, m⟩ := by
  have hentered := enter_entered g s (by omega)
  have hn : n ≤ framePos s := by
    unfold framePos
    omega
  obtain ⟨s₁, hs₁⟩ : ∃ s₁, exec (enter g s) (.movImm .rdi w) = s₁ := ⟨_, rfl⟩
  have hrsp₁ : s₁.rsp.toNat = framePos s := by
    rw [← hs₁, ← hentered.rsp]
    exact congrArg BitVec.toNat (reg_setReg_ne _ _ (by decide))
  have hsaved₁ : Saved s n s₁.memory := by
    rw [← hs₁]
    exact hentered.saved n
  have hsaved₂ := hsaved₁.called hrsp₁ hx hn none
  obtain ⟨s₂, hs₂⟩ : ∃ s₂, run exec (s₁.called x none) [.movAl 0x20, .out] = s₂ := ⟨_, rfl⟩
  have hmemory : s₂.memory = (s₁.called x none).memory := by
    rw [← hs₂]
    rfl
  have hrsp₂ : s₂.rsp.toNat = framePos s := by
    rw [← hrsp₁, ← rsp_called s₁ x none, ← hs₂]
    exact congrArg BitVec.toNat (reg_setReg_ne _ _ (by decide))
  refine ⟨_, hsaved₂, ?_⟩
  have hrun : irqHandlerMaster g w x s = leave s₂ := by
    rw [irqHandlerMaster, hs₁, hs₂]
  rw [hrun, ← hmemory]
  have hlt := s.rsp.isLt
  apply leave_framed
  · rw [hmemory, hrsp₂]
    exact hsaved₂.framed
  · rw [hrsp₂]
    unfold framePos FRAME_SIZE at *
    omega

end Handlers

/-! ## Exceptions -/

/-- What `printError` shows: the message, and what `dump` prints of `rip`, of `rsp` and of each
register with its name. -/
structure Report where
  msg : String
  rip : Word
  rsp : Word
  registers : List (String × Word)

def regNames : List String :=
  ["RAX", "RBX", "RCX", "RDX", "RBP", "RDI", "RSI", "R8", "R9", "R10", "R11", "R12", "R13", "R14",
    "R15"]

def message (ex : Nat) : String :=
  if ex = 0 then "Division por cero"
  else if ex = 6 then "Operacion invalida"
  else if ex = 13 then "Proteccion general"
  else if ex = 14 then "Fallo de pagina"
  else ""

/-- `dump` goes down from the word under the saved `rip`. -/
def exceptionDispatcher (m : Memory) (ex : Nat) (rip rsp : Nat) : Report where
  msg := message ex
  rip := BitVec.ofNat 64 (m.loadInt rip 8)
  rsp := BitVec.ofNat 64 (m.loadInt rsp 8)
  registers := regNames.zipIdx.map fun (name, i) =>
    (name, BitVec.ofNat 64 (m.loadInt (rsp - 8 * 4 - 8 * i) 8))

/-- What the handler makes of the registers when it calls `exceptionDispatcher`. -/
def reported (s : State) : Report :=
  exceptionDispatcher s.memory (s.reg .rdi).toNat (s.reg .rsi).toNat (s.reg .rdx).toNat

section Exceptions

variable {g : Gate} {s : State} {code : Option Word} {n : Nat}

theorem toNat_add_lt {w : Word} (k : Nat) (hk : k < 2 ^ 64) (h : w.toNat + k < 2 ^ 64) :
    (w + BitVec.ofNat 64 k).toNat = w.toNat + k := by
  rw [BitVec.toNat_add, BitVec.toNat_ofNat, Nat.mod_eq_of_lt hk]
  exact Nat.mod_eq_of_lt h

/-- Where the registers of a process lie that raised an exception. -/
def raisePos (code : Option Word) (s : State) : Nat := framePos s - 8 * code.toList.length

/-- The words from there on: an error code lies between the registers and the others. -/
def raised (code : Option Word) (c : Cpu) : List Word :=
  stateRegs.map c.regs ++ (code.toList ++ c.returnFrame)

theorem length_raised (code : Option Word) (c : Cpu) :
    (raised code c).length = 20 + code.toList.length := by
  simp [raised, stateRegs, Cpu.returnFrame]
  omega

theorem raise_pushed (g : Gate) (code : Option Word)
    (hroom : 8 * code.toList.length + FRAME_SIZE ≤ s.rsp.toNat / 16 * 16) :
    (raise g code s).rsp.toNat = raisePos code s + 120 ∧
      (∀ r ≠ .rsp, (raise g code s).reg r = s.reg r) ∧
      Wrote s.memory (raise g code s).memory (raisePos code s + 120)
        (wordBytes (code.toList ++ s.cpu.returnFrame)) := by
  have hframe : FRAME_SIZE = 160 := rfl
  obtain ⟨hpos, hregs, hwrote⟩ := interrupt_pushed g s (by omega)
  obtain ⟨s₁, hs₁⟩ : ∃ s₁, interrupt g s = s₁ := ⟨_, rfl⟩
  obtain ⟨s₂, hs₂⟩ : ∃ s₂, raise g code s = s₂ := ⟨_, rfl⟩
  rw [hs₁] at hpos hregs hwrote
  have hpushed : Pushed s₁ s₂ code.toList := by
    rw [← hs₂, raise, hs₁]
    apply pushed_foldl
    omega
  have hreverse : code.toList.reverse = code.toList := by cases code <;> rfl
  have hmemory := hpushed.memory
  rw [hreverse] at hmemory
  have hrsp : s₂.rsp.toNat = raisePos code s + 120 := by
    rw [hpushed.rsp, hpos, raisePos, framePos]
    omega
  have hbytes : s.rsp.toNat / 16 * 16 - 40 = s₂.rsp.toNat + (wordBytes code.toList).length := by
    rw [length_wordBytes, hpushed.rsp, hpos]
    omega
  rw [hbytes] at hwrote
  have hall := hwrote.before hmemory
  rw [← wordBytes_append, hrsp] at hall
  rw [hs₂]
  refine ⟨hrsp, ?_, hall⟩
  intro r hr
  rw [State.reg, hpushed.cpu]
  simp only [Cpu.setRegs, Function.update_of_ne hr]
  exact hregs r hr

/-- The registers as `exceptionDispatcher` is called. -/
theorem exceptionEnter_entered (g : Gate) (w : Word) (code : Option Word)
    (hroom : 8 * code.toList.length + FRAME_SIZE ≤ s.rsp.toNat / 16 * 16) :
    (exceptionEnter g w code s).rsp.toNat = raisePos code s ∧
      ((exceptionEnter g w code s).reg .rsi).toNat = raisePos code s + 8 * 15 ∧
      ((exceptionEnter g w code s).reg .rdx).toNat = raisePos code s + 8 * 18 ∧
      Wrote s.memory (exceptionEnter g w code s).memory (raisePos code s)
        (wordBytes (raised code s.cpu)) := by
  have hframe : FRAME_SIZE = 160 := rfl
  have hlt := s.rsp.isLt
  obtain ⟨hpos, hregs, hwrote⟩ := raise_pushed g code hroom
  obtain ⟨s₁, hs₁⟩ : ∃ s₁, raise g code s = s₁ := ⟨_, rfl⟩
  obtain ⟨s₂, hs₂⟩ : ∃ s₂, run exec s₁ pushState = s₂ := ⟨_, rfl⟩
  rw [hs₁] at hpos hregs hwrote
  have hwords : stateRegs.reverse.map s₁.reg = stateRegs.reverse.map s.reg := by
    apply List.map_congr_left
    intro r hr
    exact hregs r ((mem_stateRegs r).mp (List.mem_reverse.mp hr))
  have hpushed : Pushed s₁ s₂ (stateRegs.reverse.map s.reg) := by
    rw [← hs₂, ← hwords]
    exact pushState_pushed (by omega)
  have hrsp : s₂.rsp.toNat = raisePos code s := by
    rw [hpushed.rsp, hpos]
    simp [stateRegs]
  have hmemory := hpushed.memory
  rw [List.map_reverse, List.reverse_reverse, hrsp] at hmemory
  have hall := Wrote.before (by simpa [stateRegs] using hwrote) hmemory
  rw [← wordBytes_append] at hall
  have hbelow : raisePos code s + 160 ≤ s.rsp.toNat := by
    unfold raisePos framePos
    omega
  have hrsi : (exceptionEnter g w code s).reg .rsi = s₂.rsp + BitVec.ofNat 64 120 := by
    rw [exceptionEnter, hs₁, hs₂]
    rfl
  have hrdx : (exceptionEnter g w code s).reg .rdx = s₂.rsp + BitVec.ofNat 64 144 := by
    rw [exceptionEnter, hs₁, hs₂]
    rfl
  have hrest : (exceptionEnter g w code s).rsp = s₂.rsp ∧
      (exceptionEnter g w code s).memory = s₂.memory := by
    rw [exceptionEnter, hs₁, hs₂]
    exact ⟨rfl, rfl⟩
  rw [hrest.1, hrest.2, hrsi, hrdx, toNat_add_lt 120 (by decide) (by omega),
    toNat_add_lt 144 (by decide) (by omega), hrsp]
  exact ⟨rfl, rfl, rfl, hall⟩

/-- What is shown of a process: with an error code on the stack, that is taken for `rip` and
`rflags` for `rsp`. -/
def shown (w : Word) (code : Option Word) (s : State) : Report where
  msg := message w.toNat
  rip := code.getD s.cpu.rip
  rsp := if code.isSome then s.cpu.rflags else s.rsp
  registers := regNames.zip (stateRegs.reverse.map s.reg)

theorem reported_spec (g : Gate) (w : Word) (code : Option Word)
    (hroom : 8 * code.toList.length + FRAME_SIZE ≤ s.rsp.toNat / 16 * 16) :
    reported (exceptionEnter g w code s) = shown w code s := by
  have hrdi : (exceptionEnter g w code s).reg .rdi = w := reg_setReg_self _ .rdi w
  obtain ⟨-, hrsi, hrdx, hwrote⟩ := exceptionEnter_entered g w code hroom
  have hheld : Holds (exceptionEnter g w code s).memory (raisePos code s) (raised code s.cpu) := by
    have hbytes := hwrote.bytes
    rwa [length_wordBytes] at hbytes
  unfold reported exceptionDispatcher shown
  rw [hrsi, hrdx, hrdi]
  have hlength := length_raised code s.cpu
  have hrip : BitVec.ofNat 64 ((exceptionEnter g w code s).memory.loadInt
      (raisePos code s + 8 * 15) 8) = code.getD s.cpu.rip := by
    rw [hheld.word 15 (by omega)]
    cases code <;> rfl
  have hrsp : BitVec.ofNat 64 ((exceptionEnter g w code s).memory.loadInt
      (raisePos code s + 8 * 18) 8) = if code.isSome then s.cpu.rflags else s.rsp := by
    rw [hheld.word 18 (by omega)]
    cases code <;> rfl
  rw [hrip, hrsp]
  apply congrArg
  · apply List.ext_getElem
    · simp [regNames, stateRegs]
    · intro i hi _
      have hi15 : i < 15 := by simpa [regNames] using hi
      have hlow : raisePos code s + 8 * 18 - 8 * 4 - 8 * i =
          raisePos code s + 8 * (14 - i) := by omega
      have hreverse : i < stateRegs.reverse.length := hi15
      have hreg : (raised code s.cpu)[14 - i] = s.reg stateRegs.reverse[i] := by
        have hregs : 14 - i < (stateRegs.map s.cpu.regs).length := by
          simp only [stateRegs, List.length_map, List.length_cons, List.length_nil]
          omega
        simp only [raised]
        rw [List.getElem_append_left hregs, List.getElem_map, List.getElem_reverse]
        rfl
      simp only [List.getElem_map, List.getElem_zipIdx, List.getElem_zip, Nat.zero_add, hlow,
        hheld.word (14 - i) (by omega), hreg]

/-- What `iretq` takes for the registers: with an error code on the stack each word of the
others is taken for the one before it. -/
def restarted (load_main : Word) (code : Option Word) (c : Cpu) : Cpu :=
  match code with
  | none => { c with rip := load_main }
  | some _ =>
    ⟨Function.update c.regs .rsp c.rflags, load_main, c.rip, c.cs, c.regs .rsp⟩

theorem regs_restarted {load_main : Word} {c : Cpu} {r : Reg} (hr : r ≠ .rsp) :
    (restarted load_main code c).regs r = c.regs r := by
  cases code with
  | none => rfl
  | some w => exact Function.update_of_ne hr ..

/-- What `iretq` takes are the words from `rip` on, with `load_main` in place of the first. -/
theorem restarted_frame (load_main : Word) (code : Option Word) (c : Cpu) :
    ∃ first rest last, code.toList ++ c.returnFrame = first :: rest ∧
      load_main :: rest = (restarted load_main code c).returnFrame ++ last := by
  cases code with
  | none => exact ⟨_, _, [], rfl, rfl⟩
  | some w => exact ⟨_, _, [c.ss], rfl, rfl⟩

/-- The lines of `exceptionHandler` behind its call bring back the registers, and leave
`load_main` and four of the words that the processor pushed. -/
theorem exceptionLeave_spec (load_main : Word) {c : Cpu}
    (hheld : Holds s.memory s.rsp.toNat (raised code c)) (hend : s.rsp.toNat + 160 < 2 ^ 64) :
    (exceptionLeave load_main s).rsp.toNat = s.rsp.toNat + 120 ∧
      (exceptionLeave load_main s).memory =
        s.memory.storeInt (s.rsp.toNat + 120) 8 load_main.toNat ∧
      (∀ r ≠ .rsp, (exceptionLeave load_main s).reg r = (restarted load_main code c).regs r) ∧
      Holds (exceptionLeave load_main s).memory (exceptionLeave load_main s).rsp.toNat
        (restarted load_main code c).returnFrame := by
  obtain ⟨hstate, hreturn⟩ := holds_append.mp hheld
  obtain ⟨hrsp, hmemory, hregs⟩ := popState_held hstate (by omega)
  unfold exceptionLeave
  obtain ⟨t, ht⟩ : ∃ t, run exec s popState = t := ⟨_, rfl⟩
  rw [ht] at hrsp hmemory hregs ⊢
  obtain ⟨u, hu⟩ : ∃ u, run exec t [.add .rsp 8, .pushImm load_main] = u := ⟨_, rfl⟩
  have hback : u.rsp = t.rsp + 8 - 8 ∧
      u.memory = t.memory.storeInt (t.rsp + 8 - 8).toNat 8 load_main.toNat := by
    rw [← hu]
    exact ⟨rfl, rfl⟩
  rw [BitVec.add_sub_cancel, hrsp, hmemory] at hback
  rw [hu, hback.1, hback.2]
  refine ⟨hrsp, rfl, ?_, ?_⟩
  · intro r hr
    rw [regs_restarted hr, ← hregs r hr, ← hu]
    simp [exec, State.push, State.setReg, State.reg, Cpu.setRegs, hr]
  obtain ⟨first, rest, last, hfirst, hlast⟩ := restarted_frame load_main code c
  have hwords : Holds (s.memory.storeInt (s.rsp.toNat + 120) 8 load_main.toNat) t.rsp.toNat
      (load_main :: rest) := by
    have hwrote : Wrote s.memory (s.memory.storeInt (s.rsp.toNat + 120) 8 load_main.toNat)
        (s.rsp.toNat + 120) (intBytes 8 load_main.toNat) := wrote_store ..
    rw [hfirst] at hreturn
    have hrest : Holds s.memory (s.rsp.toNat + 120 + 8) rest := (holds_cons.mp hreturn).2
    rw [hrsp]
    apply holds_cons.mpr
    constructor
    · simpa [Holds] using hwrote.bytes
    · apply Holds.congr hrest
      intro i hi _
      exact hwrote.spared.bytes i (Or.inr (by simpa using hi))
  rw [hlast] at hwords
  exact (holds_append.mp hwords).1

/-- What `iretq` finds, and what it does if it can load the selectors that it finds. -/
theorem exceptionReturn_spec (g : Gate) (w load_main : Word) (code : Option Word) {x : Scratch}
    (hx : x.below.length ≤ n)
    (hroom : n + 8 * code.toList.length + FRAME_SIZE ≤ s.rsp.toNat / 16 * 16) {u : State}
    (hu : exceptionReturn g w load_main code x s = u) :
    Holds u.memory u.rsp.toNat (restarted load_main code s.cpu).returnFrame ∧
      iretq u = ⟨restarted load_main code s.cpu, u.memory⟩ ∧
      Spares (fun i => i < raisePos code s - n ∨ framePos s + FRAME_SIZE ≤ i) s.memory
        u.memory := by
  have hframe : FRAME_SIZE = 160 := rfl
  have hlt := s.rsp.isLt
  obtain ⟨hrsp, -, -, hwrote⟩ := exceptionEnter_entered (s := s) g w code (by omega)
  obtain ⟨s₁, hs₁⟩ : ∃ s₁, exceptionEnter g w code s = s₁ := ⟨_, rfl⟩
  rw [hs₁] at hrsp hwrote
  have hpos : raisePos code s + 8 * code.toList.length = framePos s ∧
      n ≤ raisePos code s ∧ framePos s + 160 ≤ s.rsp.toNat := by
    unfold raisePos framePos
    omega
  have hspares := called_spares s₁ x none (by omega)
  rw [hrsp] at hspares
  have hrsp' := rsp_called s₁ x none
  have hheld : Holds (s₁.called x none).memory (s₁.called x none).rsp.toNat
      (raised code s.cpu) := by
    have hbytes := hwrote.bytes
    rw [length_wordBytes] at hbytes
    rw [hrsp', hrsp]
    apply Holds.congr hbytes
    intro i hi _
    exact hspares.bytes i (Or.inr hi)
  obtain ⟨hpos', hmemory, hregs, hwords⟩ := exceptionLeave_spec load_main hheld
    (by rw [hrsp', hrsp]; omega)
  rw [exceptionReturn, hs₁] at hu
  rw [hu] at hpos' hmemory hregs hwords
  rw [hrsp', hrsp] at hpos' hmemory
  refine ⟨hwords, iretq_completes hregs hwords (by omega), ?_⟩
  have hlength := length_raised code s.cpu
  have hsaved : Spares (fun i => i < raisePos code s - n ∨ framePos s + FRAME_SIZE ≤ i)
      s.memory s₁.memory := by
    apply hwrote.spared.mono
    intro i hi
    rw [length_wordBytes]
    omega
  have hcalled : Spares (fun i => i < raisePos code s - n ∨ framePos s + FRAME_SIZE ≤ i)
      s₁.memory (s₁.called x none).memory := by
    apply hspares.mono
    intro i hi
    omega
  rw [hmemory]
  apply (hsaved.trans hcalled).trans
  apply Spares.storeInt
  intro i hi
  omega

/-- An exception shows the process. Without an error code it goes on at `load_main`. With one it
shows the code for `rip` and `rflags` for `rsp`, and `iretq` finds the old `rip` for `cs`, which it
cannot load but for a `rip` that ends in a selector of code. -/
theorem an_exception_shows_the_process_and_goes_on_at_load_main (sel : Selectors) (g : Gate)
    (w load_main : Word) (code : Option Word) {x : Scratch} (hx : x.below.length ≤ n)
    (hroom : n + 8 * code.toList.length + FRAME_SIZE ≤ s.rsp.toNat / 16 * 16) :
    let u := exceptionReturn g w load_main code x s
    reported (exceptionEnter g w code s) = shown w code s ∧
      Spares (fun i => i < raisePos code s - n ∨ framePos s + FRAME_SIZE ≤ i) s.memory u.memory ∧
      (code = none → sel.load s.cpu → exceptionHandler sel g w load_main code x s =
        some ⟨{ s.cpu with rip := load_main }, u.memory⟩) ∧
      (code.isSome → Holds u.memory u.rsp.toNat
          [load_main, s.cpu.rip, s.cpu.cs, s.cpu.rflags, s.rsp] ∧
        (sel.code (s.cpu.rip.setWidth 16) = false →
          exceptionHandler sel g w load_main code x s = none)) := by
  intro u
  obtain ⟨hwords, hreturns, hspares⟩ :=
    exceptionReturn_spec g w load_main code hx hroom (u := u) rfl
  have hhandler : exceptionHandler sel g w load_main code x s =
      if sel.load (restarted load_main code s.cpu) then
        some ⟨restarted load_main code s.cpu, u.memory⟩ else none := by
    show (if sel.load (iretq u).cpu then some (iretq u) else none) = _
    rw [hreturns]
  refine ⟨reported_spec g w code (by omega), hspares, ?_, ?_⟩
  · rintro rfl hload
    rw [hhandler]
    exact if_pos hload
  · intro hcode
    obtain ⟨e, rfl⟩ := Option.isSome_iff_exists.mp hcode
    refine ⟨hwords, fun hrip => ?_⟩
    rw [hhandler]
    apply if_neg
    simp [Selectors.load, restarted, hrip]

/-- A division by zero, and a general protection fault with the error code 0x18. -/
theorem an_exception_shows_the_process_and_goes_on_at_load_main_of_a_division :
    let s : State := ⟨⟨fun _ => 0x2000, 0x1000, 0x8, 0x202, 0⟩, ⟨fun _ => 0, []⟩⟩
    let sel : Selectors := ⟨fun w => w = 0x8, fun w => w = 0⟩
    let x : Scratch := ⟨fun _ => 1, 0, [1, 2]⟩
    (∃ m, exceptionHandler sel ⟨0x8, 0x5000⟩ 0 0x4000 none x s =
      some ⟨{ s.cpu with rip := 0x4000 }, m⟩) ∧
    exceptionHandler sel ⟨0x8, 0x5000⟩ 13 0x4000 (some 0x18) x s = none := by
  intro s sel x
  have hdivision := an_exception_shows_the_process_and_goes_on_at_load_main (n := 2) (s := s) sel
    ⟨0x8, 0x5000⟩ 0 0x4000 none (x := x) (by decide) (by decide)
  have hfault := an_exception_shows_the_process_and_goes_on_at_load_main (n := 2) (s := s) sel
    ⟨0x8, 0x5000⟩ 13 0x4000 (some 0x18) (x := x) (by decide) (by decide)
  exact ⟨⟨_, hdivision.2.2.1 rfl rfl⟩, (hfault.2.2.2 rfl).2 rfl⟩

end Exceptions

/-! ## System calls -/

section Syscalls

variable {g : Gate} {s : State} {n : Nat}

/-- The function is called with the number of the call and its six arguments. -/
theorem syscallEnter_spec (g : Gate) (hroom : 8 + FRAME_SIZE ≤ s.rsp.toNat / 16 * 16) :
    ([.rdi, .rsi, .rdx, .rcx, .r8, .r9].map (syscallEnter g s).reg =
        [.rax, .rdi, .rsi, .rdx, .rcx, .r8].map s.reg ∧ (syscallEnter g s).top = s.reg .r9) ∧
      ((syscallEnter g s).reg .rbp).toNat = framePos s ∧
      (syscallEnter g s).rsp.toNat = framePos s - 8 ∧ Saved s 8 (syscallEnter g s).memory := by
  have hentered := enter_entered g s (by omega)
  have hn : 8 ≤ framePos s := by
    unfold framePos
    omega
  obtain ⟨e, he⟩ : ∃ e, enter g s = e := ⟨_, rfl⟩
  obtain ⟨u, hu⟩ : ∃ u, syscallEnter g s = u := ⟨_, rfl⟩
  rw [he] at hentered
  have hrsp := hentered.rsp
  have hr9 : e.reg .r9 = s.reg .r9 := hentered.regs .r9 (by simp)
  have hbelow : (e.rsp - 8).toNat = framePos s - 8 := by
    rw [toNat_sub_eight (by omega), hrsp]
  have hregs : [.rdi, .rsi, .rdx, .rcx, .r8, .r9].map u.reg =
      [.rax, .rdi, .rsi, .rdx, .rcx, .r8].map e.reg := by
    rw [← hu, syscallEnter, he]
    rfl
  have hrest : u.reg .rbp = e.rsp ∧ u.rsp = e.rsp - 8 := by
    rw [← hu, syscallEnter, he]
    exact ⟨rfl, rfl⟩
  have hmemory : u.memory = e.memory.storeInt (e.rsp - 8).toNat 8 (e.reg .r9).toNat := by
    rw [← hu, syscallEnter, he]
    rfl
  have hwrote : Wrote e.memory u.memory (e.rsp - 8).toNat (intBytes 8 (e.reg .r9).toNat) := by
    rw [hmemory]
    exact wrote_store ..
  have htop : Holds u.memory u.rsp.toNat [e.reg .r9] := by
    rw [hrest.2]
    simpa [Holds] using hwrote.bytes
  have hspares : Spares (fun i => i < framePos s - 8 ∨ framePos s ≤ i) e.memory u.memory := by
    apply hwrote.spared.mono
    intro i hi
    rw [hbelow, length_intBytes]
    omega
  rw [hu]
  refine ⟨⟨?_, ?_⟩, ?_, ?_, ?_⟩
  · rw [hregs]
    apply List.map_congr_left
    intro r hr
    apply hentered.regs
    rintro rfl
    simp at hr
  · rw [State.top, htop.loadInt, hr9]
  · rw [hrest.1, hrsp]
  · rw [hrest.2, hbelow]
  · constructor
    · apply hentered.framed.congr
      intro i hi _
      exact hspares.bytes i (Or.inr hi)
    · apply (hentered.saved 8).spared.trans
      apply hspares.mono
      intro i hi
      omega

/-- And the process gets its registers back, with the result in `rax`. -/
theorem syscallLeave_spec {aux : Nat} {c : Cpu} (hframed : Framed s.memory (s.reg .rbp).toNat c)
    (hend : (s.reg .rbp).toNat + FRAME_SIZE < 2 ^ 64)
    (haux : Apart (s.reg .rbp).toNat FRAME_SIZE aux 8) :
    syscallLeave aux s = ⟨c.setRegs (Function.update c.regs .rax (s.reg .rax)),
      s.memory.storeInt aux 8 (s.reg .rax).toNat⟩ := by
  have hframe : FRAME_SIZE = 160 := rfl
  obtain ⟨t, ht⟩ : ∃ t, run exec s [.store aux .rax, .movAl 0x20, .out, .mov .rsp .rbp] = t :=
    ⟨_, rfl⟩
  have hback : t.rsp = s.reg .rbp ∧
      t.memory = s.memory.storeInt aux 8 (s.reg .rax).toNat := by
    rw [← ht]
    exact ⟨rfl, rfl⟩
  have hwrote : Wrote s.memory t.memory aux (intBytes 8 (s.reg .rax).toNat) := by
    rw [hback.2]
    exact wrote_store ..
  have hframed' : Framed t.memory t.rsp.toNat c := by
    rw [hback.1]
    apply hframed.congr
    intro i hi hlt
    apply hwrote.spared.bytes
    rw [length_intBytes]
    unfold Apart at haux
    omega
  obtain ⟨hstate, hreturn⟩ := holds_append.mp hframed'
  obtain ⟨hrsp, hmemory, hregs⟩ := popState_held hstate (by rw [hback.1]; omega)
  obtain ⟨u, hu⟩ : ∃ u, run exec t popState = u := ⟨_, rfl⟩
  rw [hu] at hrsp hmemory hregs
  have hresult : BitVec.ofNat 64 (u.memory.loadInt aux 8) = s.reg .rax := by
    rw [hmemory]
    apply Holds.loadInt
    simpa [Holds] using hwrote.bytes
  obtain ⟨v, hv⟩ : ∃ v, exec u (.load .rax aux) = v := ⟨_, rfl⟩
  have hrax : v.reg .rax = s.reg .rax := by
    rw [← hresult, ← hv]
    exact reg_setReg_self ..
  have hrest : ∀ r ≠ .rax, v.reg r = u.reg r := by
    intro r hr
    rw [← hv]
    exact reg_setReg_ne _ _ hr
  have hmemory' : v.memory = t.memory := by
    rw [← hmemory, ← hv]
    rfl
  have hrsp' : v.rsp.toNat = t.rsp.toNat + 120 := by
    rw [← hrsp]
    exact congrArg BitVec.toNat (hrest .rsp (by simp))
  have hrun : syscallLeave aux s = iretq v := by
    rw [← hv, ← hu, ← ht]
    rfl
  rw [hrun, ← hback.2, ← hmemory']
  apply iretq_completes
  · intro r hr
    by_cases hq : r = .rax
    · rw [hq, hrax]
      exact (Function.update_self .rax (s.reg .rax) c.regs).symm
    · rw [hrest r hq, hregs r hr]
      exact (Function.update_of_ne hq (s.reg .rax) c.regs).symm
  · rw [hmemory', hrsp']
    exact hreturn
  · rw [hrsp', hback.1]
    omega

def SYSCALL_COUNT : Nat := 36

/-- A function of the table `syscalls`: what it stores, what it leaves in the registers that it
may use, and its result. -/
structure Syscall where
  memory : Memory
  scratch : Scratch
  result : Word

/-- A number that is too large gives -1. -/
def answer (syscalls : Nat → List Word → Memory → Syscall) (x : Scratch) (nr : Nat)
    (args : List Word) (m : Memory) : Syscall :=
  if nr ≥ SYSCALL_COUNT then ⟨m, x, -1⟩ else syscalls nr args m

/-- It reads its number and five arguments from the registers, and the last one from the
stack. -/
def syscallDispatcher (syscalls : Nat → List Word → Memory → Syscall) (x : Scratch)
    (s : State) : State :=
  let args := [.rsi, .rdx, .rcx, .r8, .r9].map s.reg ++ [s.top]
  let r := answer syscalls x (s.reg .rdi).toNat args s.memory
  { s with memory := r.memory }.called r.scratch (some r.result)

def syscallHandler (g : Gate) (aux : Nat) (syscalls : Nat → List Word → Memory → Syscall)
    (x : Scratch) (s : State) : State :=
  syscallLeave aux (syscallDispatcher syscalls x (syscallEnter g s))

/-- The functions of `syscalls.asm` of the processes: `mov rax, n`, `int 80h`, `ret`. -/
def sys (g : Gate) (aux : Nat) (syscalls : Nat → List Word → Memory → Syscall) (x : Scratch)
    (w : Word) (s : State) : State :=
  exec (syscallHandler g aux syscalls x (exec s (.movImm .rax w))) .ret

/-- The arguments of a system call. -/
def syscallArgs (s : State) : List Word := [.rdi, .rsi, .rdx, .rcx, .r8, .r9].map s.reg

theorem syscallDispatcher_called (g : Gate) (syscalls : Nat → List Word → Memory → Syscall)
    (x : Scratch) (hroom : 8 + FRAME_SIZE ≤ s.rsp.toNat / 16 * 16) :
    let e := syscallEnter g s
    let r := answer syscalls x (s.reg .rax).toNat (syscallArgs s) e.memory
    syscallDispatcher syscalls x e = { e with memory := r.memory }.called r.scratch
      (some r.result) := by
  intro e r
  obtain ⟨⟨hregs, htop⟩, -, -, -⟩ := syscallEnter_spec g hroom
  have hrdi : e.reg .rdi = s.reg .rax := congrArg List.head! hregs
  have hargs : [.rsi, .rdx, .rcx, .r8, .r9].map e.reg ++ [e.top] = syscallArgs s := by
    have htail : [.rsi, .rdx, .rcx, .r8, .r9].map e.reg = [.rdi, .rsi, .rdx, .rcx, .r8].map s.reg :=
      congrArg List.tail hregs
    rw [htail, htop]
    rfl
  simp only [syscallDispatcher, hrdi, hargs]
  rfl

/-- The dispatcher leaves what is saved of the process alone, and the result in `rax`. -/
theorem syscallDispatcher_spec (g : Gate) {syscalls : Nat → List Word → Memory → Syscall}
    {x : Scratch} (hroom : n + 8 + FRAME_SIZE ≤ s.rsp.toNat / 16 * 16) {r : Syscall}
    (hr : answer syscalls x (s.reg .rax).toNat (syscallArgs s) (syscallEnter g s).memory = r)
    (hbelow : r.scratch.below.length ≤ n) {d : State}
    (hd : syscallDispatcher syscalls x (syscallEnter g s) = d) :
    (d.reg .rbp).toNat = framePos s ∧ d.reg .rax = r.result ∧
      ∀ i, framePos s ≤ i → d.memory.bytes i = r.memory.bytes i := by
  have hpos : framePos s + FRAME_SIZE = s.rsp.toNat / 16 * 16 := by
    unfold framePos
    omega
  have hcalled := syscallDispatcher_called g syscalls x (s := s) (by omega)
  obtain ⟨-, hrbp, hrsp, -⟩ := syscallEnter_spec g (s := s) (by omega)
  dsimp only at hcalled
  rw [hr, hd] at hcalled
  generalize syscallEnter g s = e at hcalled hrbp hrsp
  refine ⟨?_, ?_, fun i hi => ?_⟩
  · rw [hcalled, reg_called _ _ _ rfl, ← hrbp]
    rfl
  · rw [hcalled, rax_called]
  · have hspared := called_spares { e with memory := r.memory } r.scratch (some r.result)
    have hrsp' : processor.State.rsp { e with memory := r.memory } = e.rsp := rfl
    rw [hrsp', hrsp] at hspared
    rw [hcalled]
    exact (hspared (by omega)).bytes i (Or.inr (by omega))

/-- The handler comes back with the result in `rax`, and with the other registers as they were. -/
theorem syscallHandler_spec (g : Gate) {aux : Nat}
    {syscalls : Nat → List Word → Memory → Syscall} {x : Scratch}
    (hroom : n + 8 + FRAME_SIZE ≤ s.rsp.toNat / 16 * 16)
    (haux : Apart (framePos s) FRAME_SIZE aux 8) {r : Syscall}
    (hr : answer syscalls x (s.reg .rax).toNat (syscallArgs s) (syscallEnter g s).memory = r)
    (hbelow : r.scratch.below.length ≤ n)
    (hkept : ∀ i, framePos s ≤ i → i < framePos s + FRAME_SIZE →
      r.memory.bytes i = (syscallEnter g s).memory.bytes i) {u : State}
    (hu : syscallHandler g aux syscalls x s = u) :
    u.cpu = s.cpu.setRegs (Function.update s.cpu.regs .rax r.result) ∧
      ∀ i, framePos s ≤ i → Apart i 1 aux 8 → u.memory.bytes i = r.memory.bytes i := by
  have hframe : FRAME_SIZE = 160 := rfl
  have hlt := s.rsp.isLt
  have hpos : framePos s + FRAME_SIZE = s.rsp.toNat / 16 * 16 := by
    unfold framePos
    omega
  obtain ⟨-, -, -, hsaved⟩ := syscallEnter_spec g (s := s) (by omega)
  obtain ⟨d, hd⟩ : ∃ d, syscallDispatcher syscalls x (syscallEnter g s) = d := ⟨_, rfl⟩
  obtain ⟨hrbp, hrax, hbytes⟩ := syscallDispatcher_spec g hroom hr hbelow hd
  rw [syscallHandler, hd] at hu
  have hframed : Framed d.memory (d.reg .rbp).toNat s.cpu := by
    rw [hrbp]
    apply hsaved.framed.congr
    intro i hi hi'
    rw [hbytes i hi, hkept i hi (by omega)]
  have hleave := syscallLeave_spec hframed (by rw [hrbp]; omega) (by rwa [hrbp])
  rw [hu, hrax] at hleave
  rw [hleave]
  refine ⟨rfl, fun i hi hapart => ?_⟩
  have hwrote := wrote_store d.memory aux (intBytes 8 r.result.toNat)
  rw [← hbytes i hi]
  apply hwrote.spared.bytes
  rw [length_intBytes]
  unfold Apart at hapart
  omega

/-- `mov rax, w` changes no argument of the call. -/
theorem syscall_number (s : State) (w : Word) :
    let t := exec s (.movImm .rax w)
    t.reg .rax = w ∧ (∀ r ≠ .rax, t.reg r = s.reg r) ∧ syscallArgs t = syscallArgs s ∧
      framePos t = framePos s ∧ t.memory = s.memory := by
  intro t
  have hregs : ∀ r ≠ .rax, t.reg r = s.reg r := fun r hr => reg_setReg_ne s w hr
  have hrsp : t.rsp = s.rsp := hregs .rsp (by simp)
  refine ⟨reg_setReg_self .., hregs, ?_, ?_, rfl⟩
  · apply List.map_congr_left
    intro r hr
    apply hregs
    rintro rfl
    simp at hr
  · rw [framePos, hrsp, framePos]

/-- A process that makes a system call goes on behind it with the result in `rax`, and with its
other registers as they were. -/
theorem a_system_call_comes_back_with_its_result (g : Gate) {aux : Nat}
    {syscalls : Nat → List Word → Memory → Syscall} {x : Scratch} {w : Word}
    (hroom : n + 8 + FRAME_SIZE ≤ s.rsp.toNat / 16 * 16)
    (haux : Apart (framePos s) (s.rsp.toNat + 8 - framePos s) aux 8)
    (hspares : ∀ m, (answer syscalls x w.toNat (syscallArgs s) m).scratch.below.length ≤ n ∧
      ∀ i, framePos s ≤ i → i < s.rsp.toNat + 8 →
        (answer syscalls x w.toNat (syscallArgs s) m).memory.bytes i = m.bytes i) :
    let t := sys g aux syscalls x w s
    (∃ m, Spares (fun i => i < framePos s - 8 ∨ framePos s + FRAME_SIZE ≤ i) s.memory m ∧
      t.reg .rax = (answer syscalls x w.toNat (syscallArgs s) m).result ∧
      ∀ i, framePos s ≤ i → Apart i 1 aux 8 →
        t.memory.bytes i = (answer syscalls x w.toNat (syscallArgs s) m).memory.bytes i) ∧
    (∀ r, r ≠ .rax → r ≠ .rsp → t.reg r = s.reg r) ∧
      t.rsp = s.rsp + 8 ∧ t.cpu = { s.cpu with regs := t.cpu.regs, rip := s.top } := by
  intro t
  have hlt := s.rsp.isLt
  have hpos : framePos s + FRAME_SIZE = s.rsp.toNat / 16 * 16 := by
    unfold framePos
    omega
  obtain ⟨s₁, hs₁⟩ : ∃ s₁, exec s (.movImm .rax w) = s₁ := ⟨_, rfl⟩
  obtain ⟨hrax₁, hregs₁, hargs₁, hpos₁, hmemory₁⟩ := syscall_number s w
  rw [hs₁] at hrax₁ hregs₁ hargs₁ hpos₁ hmemory₁
  have hrsp₁ : s₁.rsp = s.rsp := hregs₁ .rsp (by simp)
  have hroom₁ : n + 8 + FRAME_SIZE ≤ s₁.rsp.toNat / 16 * 16 := by rwa [hrsp₁]
  obtain ⟨-, -, -, hsaved⟩ := syscallEnter_spec g (s := s₁) (by omega)
  have hspared := hsaved.spared
  rw [hpos₁, hmemory₁] at hspared
  obtain ⟨hbelow, hkept⟩ := hspares (syscallEnter g s₁).memory
  obtain ⟨r, hr⟩ : ∃ r, answer syscalls x w.toNat (syscallArgs s) (syscallEnter g s₁).memory = r :=
    ⟨_, rfl⟩
  rw [hr] at hbelow hkept
  obtain ⟨u, hu⟩ : ∃ u, syscallHandler g aux syscalls x s₁ = u := ⟨_, rfl⟩
  obtain ⟨hcpu, hmemory⟩ := syscallHandler_spec g hroom₁
    (by rw [hpos₁]; unfold Apart at haux ⊢; omega) (by rwa [hrax₁, hargs₁]) hbelow
    (fun i hi hi' => hkept i (by omega) (by omega)) hu
  rw [hpos₁] at hmemory
  have ht : t = exec u .ret := by
    rw [← hu, ← hs₁]
    rfl
  clear_value t
  have hregs : ∀ q, u.reg q = if q = .rax then r.result else s.reg q := by
    intro q
    rw [State.reg, hcpu]
    by_cases hq : q = .rax
    · rw [hq, if_pos rfl]
      exact Function.update_self Reg.rax r.result s₁.cpu.regs
    · rw [if_neg hq, ← hregs₁ q hq]
      exact Function.update_of_ne hq r.result s₁.cpu.regs
  have hrsp : u.rsp = s.rsp := (hregs .rsp).trans (if_neg (by simp))
  -- the address that `ret` takes is where it was
  have htop : u.top = s.top := by
    rw [State.top, State.top, hrsp]
    apply congrArg (BitVec.ofNat 64 <| ofBytes ·)
    apply Memory.load_congr
    intro i hi
    rw [hmemory _ (by omega) (by unfold Apart at haux ⊢; omega), hkept _ (by omega) (by omega),
      hspared.bytes _ (by omega)]
  have hret : ∀ q ≠ .rsp, t.reg q = u.reg q := by
    intro q hq
    rw [ht, reg_ret u hq]
  refine ⟨⟨(syscallEnter g s₁).memory, hspared, ?_, ?_⟩, ?_, ?_, ?_⟩
  · rw [hret .rax (by simp), hregs, if_pos rfl, hr]
  · intro i hi hapart
    rw [hr, ← hmemory i hi hapart, ht, memory_ret]
  · intro q hq hq'
    rw [hret q hq', hregs, if_neg hq]
  · rw [ht, rsp_ret, hrsp]
  · rw [ht, ← htop, cpu_ret, hcpu, ← hs₁]
    rfl

/-- A system call that adds its first two arguments. -/
theorem a_system_call_comes_back_with_its_result_of_a_sum :
    let s : State := ⟨⟨fun r => if r = .rsp then 0x2000 else 7, 0x1000, 0x8, 0x202, 0⟩,
      ⟨fun _ => 0, []⟩⟩
    let syscalls : Nat → List Word → Memory → Syscall := fun _ args m =>
      ⟨m, ⟨fun _ => 1, 0, [1, 2]⟩, args.getD 0 0 + args.getD 1 0⟩
    let x : Scratch := ⟨fun _ => 1, 0, []⟩
    let t := sys ⟨0x8, 0x5000⟩ 0x9000 syscalls x 13 s
    (∃ m, Spares (fun i => i < framePos s - 8 ∨ framePos s + FRAME_SIZE ≤ i) s.memory m ∧
      t.reg .rax = (answer syscalls x 13 (syscallArgs s) m).result ∧
      ∀ i, framePos s ≤ i → Apart i 1 0x9000 8 →
        t.memory.bytes i = (answer syscalls x 13 (syscallArgs s) m).memory.bytes i) ∧
    (∀ r, r ≠ .rax → r ≠ .rsp → t.reg r = s.reg r) ∧
      t.rsp = s.rsp + 8 ∧ t.cpu = { s.cpu with regs := t.cpu.regs, rip := s.top } :=
  a_system_call_comes_back_with_its_result (n := 2) ⟨0x8, 0x5000⟩ (w := 13) (by decide)
    (by decide) fun _ => ⟨Nat.le_refl 2, fun _ _ _ => rfl⟩

end Syscalls

/-! ## The frame of a new process -/

/-- `setupStackFrame`, with `stackBase` in `rdi`, `code` in `rsi`, `argc` in `rdx` and `args` in
`rcx`. -/
def setupStackFrame : List Instr :=
  [.push .rbp, .mov .rbp .rsp, .mov .rsp .rdi, .and .rsp (-16), .pushImm 0x0, .push .rdi,
    .pushImm 0x202, .pushImm 0x8, .push .rsi, .push .rax, .push .rbx, .push .rdi, .push .rsi,
    .push .rbp, .push .rdx, .push .rcx, .push .r8, .push .r9, .push .r10, .push .r11, .push .r12,
    .push .r13, .push .r14, .push .r15, .mov .rax .rsp, .mov .rsp .rbp, .pop .rbp, .ret]

/-- The registers that a new process starts with: it begins at `code` with interrupts on, and
gets `argc` and `args`. The others are what they were in the caller. -/
def startCpu (s : State) : Cpu where
  regs
    | .rdi => s.reg .rdx
    | .rsi => s.reg .rcx
    | .rdx => s.reg .rsi
    | .rcx => s.reg .rdi
    | .rsp => s.reg .rdi
    | .rbp => s.rsp - 8
    | r => s.reg r
  rip := s.reg .rsi
  cs := 0x8
  rflags := 0x202
  ss := 0x0

section Setup

variable {s : State}

/-- The words that `setupStackFrame` pushes, and what is left to push when the registers come. -/
def startWords (s : State) : List Word := [0x0, s.reg .rdi, 0x202, 0x8, s.reg .rsi]

def startRegs : List Reg :=
  [.rax, .rbx, .rdi, .rsi, .rbp, .rdx, .rcx, .r8, .r9, .r10, .r11, .r12, .r13, .r14, .r15]

theorem setupStackFrame_eq (s : State) : run exec s setupStackFrame =
    run exec (run exec (run exec s [.push .rbp, .mov .rbp .rsp, .mov .rsp .rdi, .and .rsp (-16)])
      ([.pushImm 0x0, .push .rdi, .pushImm 0x202, .pushImm 0x8, .push .rsi] ++
        startRegs.map .push))
      [.mov .rax .rsp, .mov .rsp .rbp, .pop .rbp, .ret] := rfl

/-- The words that lie there then, the last one pushed first. -/
theorem frame_startCpu (s : State) : frame (startCpu s) =
    (startWords s ++
      startRegs.map fun r => if r = .rbp then s.rsp - 8 else s.reg r).reverse := rfl

/-- The old `rbp` is pushed, and the stack pointer goes to the new stack. -/
theorem setupStackFrame_begins {s₁ : State} (hs₁ : run exec s [.push .rbp, .mov .rbp .rsp,
    .mov .rsp .rdi, .and .rsp (-16)] = s₁) : s₁.rsp = s.reg .rdi &&& -16 ∧
      s₁.memory = s.memory.storeInt (s.rsp - 8).toNat 8 (s.reg .rbp).toNat ∧
      ∀ r, r ≠ .rsp → s₁.reg r = if r = .rbp then s.rsp - 8 else s.reg r := by
  rw [← hs₁]
  refine ⟨rfl, rfl, fun r hr => ?_⟩
  cases r <;> first | rfl | exact absurd rfl hr

/-- Then its words and its registers are pushed. -/
theorem setupStackFrame_pushes {s₁ : State} (hs₁ : run exec s [.push .rbp, .mov .rbp .rsp,
    .mov .rsp .rdi, .and .rsp (-16)] = s₁) :
    run exec s₁ ([.pushImm 0x0, .push .rdi, .pushImm 0x202, .pushImm 0x8, .push .rsi] ++
      startRegs.map .push) = (startWords s ++
        startRegs.map fun r => if r = .rbp then s.rsp - 8 else s.reg r).foldl State.push s₁ := by
  obtain ⟨-, -, hregs₁⟩ := setupStackFrame_begins hs₁
  obtain ⟨p, hp⟩ : ∃ p, (startWords s).foldl State.push s₁ = p := ⟨_, rfl⟩
  have hfirst : run exec s₁ [.pushImm 0x0, .push .rdi, .pushImm 0x202, .pushImm 0x8,
      .push .rsi] = p := by
    rw [← hp, startWords, ← hs₁]
    rfl
  have hregs : startRegs.map p.reg =
      startRegs.map fun r => if r = .rbp then s.rsp - 8 else s.reg r := by
    apply List.map_congr_left
    intro r hr
    have hne : r ≠ .rsp := by
      rintro rfl
      simp [startRegs] at hr
    rw [← hregs₁ r hne, ← hp]
    simp [startWords, State.push, State.reg, State.setReg, Cpu.setRegs, hne]
  rw [run_append, hfirst, run_pushes startRegs (by decide), List.foldl_append, hp, hregs]

/-- What lay around the old stack pointer is still there: the `rbp` that was pushed, and the
address to come back to. -/
theorem setupStackFrame_kept {s₁ s₂ : State} (hrsp : 8 ≤ s.rsp.toNat)
    (hs₁ : run exec s [.push .rbp, .mov .rbp .rsp, .mov .rsp .rdi, .and .rsp (-16)] = s₁)
    (hkept : ∀ i, s.rsp.toNat - 8 ≤ i → i < s.rsp.toNat + 8 →
      s₂.memory.bytes i = s₁.memory.bytes i) :
    Wrote s.memory s₁.memory (s.rsp.toNat - 8) (intBytes 8 (s.reg .rbp).toNat) ∧
      BitVec.ofNat 64 (s₂.memory.loadInt (s.rsp - 8).toNat 8) = s.reg .rbp ∧
      s₂.memory.loadInt s.rsp.toNat 8 = s.memory.loadInt s.rsp.toNat 8 := by
  obtain ⟨-, hmemory₁, -⟩ := setupStackFrame_begins hs₁
  have hbelow : (s.rsp - 8).toNat = s.rsp.toNat - 8 := toNat_sub_eight hrsp
  have hold : Wrote s.memory s₁.memory (s.rsp.toNat - 8) (intBytes 8 (s.reg .rbp).toNat) := by
    rw [hmemory₁, hbelow]
    exact wrote_store ..
  refine ⟨hold, ?_, ?_⟩
  · apply Holds.loadInt
    have hheld : Holds s₁.memory (s.rsp - 8).toNat [s.reg .rbp] := by
      rw [hbelow]
      simpa [Holds] using hold.bytes
    apply hheld.congr
    intro i hi hlt
    rw [hbelow] at hi hlt
    exact hkept i hi (by simp at hlt; omega)
  · apply congrArg ofBytes
    apply Memory.load_congr
    intro i hi
    rw [hkept (s.rsp.toNat + i) (by omega) (by omega)]
    apply hold.spared.bytes
    rw [length_intBytes]
    omega

/-- A new process is given the registers of `startCpu`, under its `stackBase`. -/
theorem setupStackFrame_spec (hrsp : 8 ≤ s.rsp.toNat) (hend : s.rsp.toNat + 8 < 2 ^ 64)
    (hroom : FRAME_SIZE ≤ (s.reg .rdi).toNat / 16 * 16)
    (hapart : Apart ((s.reg .rdi).toNat / 16 * 16 - FRAME_SIZE) FRAME_SIZE (s.rsp.toNat - 8) 16) :
    let t := run exec s setupStackFrame
    (t.reg .rax).toNat = (s.reg .rdi).toNat / 16 * 16 - FRAME_SIZE ∧
      Framed t.memory ((s.reg .rdi).toNat / 16 * 16 - FRAME_SIZE) (startCpu s) ∧
      t.rsp = s.rsp + 8 ∧ t.cpu.rip = s.top ∧ (∀ r, r ≠ .rax → r ≠ .rsp → t.reg r = s.reg r) ∧
      Spares (fun i => Apart i 1 ((s.reg .rdi).toNat / 16 * 16 - FRAME_SIZE) FRAME_SIZE ∧
        Apart i 1 (s.rsp.toNat - 8) 8) s.memory t.memory := by
  have hframe : FRAME_SIZE = 160 := rfl
  intro t
  obtain ⟨s₁, hs₁⟩ : ∃ s₁, run exec s [.push .rbp, .mov .rbp .rsp, .mov .rsp .rdi,
    .and .rsp (-16)] = s₁ := ⟨_, rfl⟩
  obtain ⟨hrsp₁, -, hregs₁⟩ := setupStackFrame_begins hs₁
  obtain ⟨s₂, hs₂⟩ : ∃ s₂, run exec s₁ ([.pushImm 0x0, .push .rdi, .pushImm 0x202, .pushImm 0x8,
    .push .rsi] ++ startRegs.map .push) = s₂ := ⟨_, rfl⟩
  have hwords := setupStackFrame_pushes hs₁
  rw [hs₂] at hwords
  have hpushed := pushed_foldl (startWords s ++
    startRegs.map fun r => if r = .rbp then s.rsp - 8 else s.reg r) s₁
    (by rw [hrsp₁, toNat_align]; simpa [startWords, startRegs, hframe] using hroom)
  rw [← hwords] at hpushed
  have hrsp₂ : s₂.rsp.toNat = (s.reg .rdi).toNat / 16 * 16 - FRAME_SIZE := by
    rw [hpushed.rsp, hrsp₁, toNat_align]
    rfl
  have hregs₂ : ∀ r, r ≠ .rsp → s₂.reg r = if r = .rbp then s.rsp - 8 else s.reg r := by
    intro r hr
    rw [← hregs₁ r hr, State.reg, hpushed.cpu]
    simp [Cpu.setRegs, State.reg, hr]
  have hframed := hpushed.memory
  rw [← frame_startCpu, hrsp₂] at hframed
  have hkept : ∀ i, s.rsp.toNat - 8 ≤ i → i < s.rsp.toNat + 8 →
      s₂.memory.bytes i = s₁.memory.bytes i := by
    intro i hi hlt
    apply hframed.spared.bytes
    rw [length_wordBytes, length_frame]
    unfold Apart at hapart
    omega
  obtain ⟨hold, hrbp, htop⟩ := setupStackFrame_kept hrsp hs₁ hkept
  -- and the function comes back
  have ht : t = run exec s₂ [.mov .rax .rsp, .mov .rsp .rbp, .pop .rbp, .ret] := by
    rw [← hs₂, ← hs₁]
    exact setupStackFrame_eq s
  have hback : t.reg .rax = s₂.rsp ∧ t.rsp = s₂.reg .rbp + 8 + 8 ∧
      t.reg .rbp = BitVec.ofNat 64 (s₂.memory.loadInt (s₂.reg .rbp).toNat 8) ∧
      t.cpu.rip = BitVec.ofNat 64 (s₂.memory.loadInt (s₂.reg .rbp + 8).toNat 8) ∧
      t.memory = s₂.memory := by
    rw [ht]
    exact ⟨rfl, rfl, rfl, rfl, rfl⟩
  rw [hregs₂ .rbp (by simp), if_pos rfl, BitVec.sub_add_cancel, hrbp, htop] at hback
  obtain ⟨hrax, hrsp', hrbp', hrip, hmemory⟩ := hback
  refine ⟨by rw [hrax, hrsp₂], ?_, hrsp', hrip, ?_, ?_⟩
  · have hbytes := hframed.bytes
    rw [length_wordBytes] at hbytes
    rw [hmemory]
    exact hbytes
  · intro r hr hr'
    by_cases hq : r = .rbp
    · rw [hq, hrbp']
    · have hsame : t.reg r = s₂.reg r := by
        rw [ht]
        simp [exec, State.drop, State.setReg, State.reg, Cpu.setRegs, hr, hr', hq]
      rw [hsame, hregs₂ r hr', if_neg hq]
  · rw [hmemory]
    apply (hold.spared.mono ?_).trans (hframed.spared.mono ?_)
    · intro i hi
      rw [length_intBytes]
      unfold Apart at hi
      omega
    · intro i hi
      rw [length_wordBytes, length_frame]
      unfold Apart at hi
      omega

end Setup

end bare_bones.interrupts
