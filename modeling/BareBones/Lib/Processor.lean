-- A processor over a memory of bytes: sixteen registers, words of eight bytes that are
-- pushed and popped, straight-line code, calls of functions that follow the calling
-- convention, and an interrupt with the return from it.
import BareBones.Lib.Copies
import BareBones.Lib.Runs
import Mathlib.Logic.Function.Basic

namespace processor

open byte_memory runs

abbrev Word := BitVec 64

inductive Reg
  | rax | rbx | rcx | rdx | rbp | rdi | rsi | rsp | r8 | r9 | r10 | r11 | r12 | r13 | r14 | r15
deriving DecidableEq

structure Cpu where
  regs : Reg → Word
  rip : Word
  cs : Word
  rflags : Word
  ss : Word

def Cpu.setRegs (c : Cpu) (regs : Reg → Word) : Cpu := { c with regs := regs }

structure State where
  cpu : Cpu
  memory : Memory

namespace State

def reg (s : State) (r : Reg) : Word := s.cpu.regs r

def rsp (s : State) : Word := s.cpu.regs .rsp

def setReg (s : State) (r : Reg) (w : Word) : State :=
  { s with cpu := s.cpu.setRegs (Function.update s.cpu.regs r w) }

def push (s : State) (w : Word) : State :=
  ⟨(s.setReg .rsp (s.rsp - 8)).cpu, s.memory.storeInt (s.rsp - 8).toNat 8 w.toNat⟩

/-- The word that the stack pointer points to. -/
def top (s : State) : Word := BitVec.ofNat 64 (s.memory.loadInt s.rsp.toNat 8)

def drop (s : State) : State := s.setReg .rsp (s.rsp + 8)

end State

/-! ## Straight-line code -/

inductive Instr
  | push (r : Reg)
  | pushImm (w : Word)
  | pop (r : Reg)
  | mov (dst src : Reg)
  | movImm (dst : Reg) (w : Word)
  /-- The lowest byte of `rax`. -/
  | movAl (w : BitVec 8)
  | and (dst : Reg) (w : Word)
  | add (dst : Reg) (w : Word)
  | load (dst : Reg) (a : Nat)
  | store (a : Nat) (src : Reg)
  /-- A byte for a device. -/
  | out
  | ret

def exec (s : State) : Instr → State
  | .push r => s.push (s.reg r)
  | .pushImm w => s.push w
  | .pop r => s.drop.setReg r s.top
  | .mov dst src => s.setReg dst (s.reg src)
  | .movImm dst w => s.setReg dst w
  | .movAl w => s.setReg .rax (s.reg .rax &&& ~~~0xFF ||| w.setWidth 64)
  | .and dst w => s.setReg dst (s.reg dst &&& w)
  | .add dst w => s.setReg dst (s.reg dst + w)
  | .load dst a => s.setReg dst (BitVec.ofNat 64 (s.memory.loadInt a 8))
  | .store a src => { s with memory := s.memory.storeInt a 8 (s.reg src).toNat }
  | .out => s
  | .ret => { s.drop with cpu := { s.drop.cpu with rip := s.top } }

/-! ## Interrupts -/

/-- What a gate of the interrupt table says. -/
structure Gate where
  selector : Word
  offset : Word

/-- The flag that lets interrupts in. -/
def IF : Word := 0x200

/-- The five words that the processor pushes. -/
def returnWords (c : Cpu) : List Word := [c.ss, c.regs .rsp, c.rflags, c.cs, c.rip]

/-- An interrupt of long mode: the stack pointer is aligned first, and what it was is
pushed with the rest. -/
def interrupt (g : Gate) (s : State) : State :=
  let pushed := (returnWords s.cpu).foldl State.push (s.setReg .rsp (s.rsp &&& -16))
  { pushed with cpu :=
      { pushed.cpu with rip := g.offset, cs := g.selector, rflags := s.cpu.rflags &&& ~~~IF } }

/-- `iretq` on a frame that an interrupt pushed, or one like it: its selectors can be loaded. -/
def iretq (s : State) : State :=
  let rip := s.top
  let s := s.drop
  let cs := s.top
  let s := s.drop
  let rflags := s.top
  let s := s.drop
  let rsp := s.top
  let s := s.drop
  ⟨⟨Function.update s.cpu.regs .rsp rsp, rip, cs, rflags, s.top⟩, s.memory⟩

/-- What the table of descriptors lets into `cs`, and what into `ss`. -/
structure Selectors where
  code : BitVec 16 → Bool
  stack : BitVec 16 → Bool

def Selectors.load (sel : Selectors) (c : Cpu) : Bool :=
  sel.code (c.cs.setWidth 16) && sel.stack (c.ss.setWidth 16)

/-- `iretq` on any words. With a selector that cannot be loaded it faults, which is `none`. -/
def iretqOrFault (sel : Selectors) (s : State) : Option State :=
  if sel.load (iretq s).cpu then some (iretq s) else none

/-! ## Calls -/

/-- The registers that a function gives back as it found them. -/
def calleeSaved : Reg → Bool
  | .rbx | .rbp | .rsp | .r12 | .r13 | .r14 | .r15 => true
  | _ => false

/-- What a function leaves in the other registers, and under the stack pointer. -/
structure Scratch where
  regs : Reg → Word
  rflags : Word
  below : List UInt8

/-- A function was called and came back, with a result or without one. -/
def State.called (s : State) (x : Scratch) (result : Option Word) : State where
  cpu := { s.cpu with
    regs := fun r =>
      if calleeSaved r then s.reg r else if r = .rax then result.getD (x.regs r) else x.regs r
    rflags := x.rflags }
  memory := s.memory.store (s.rsp.toNat - x.below.length) x.below

/-! ## Words in memory -/

/-- The bytes of some words, the first one at the lowest address. -/
def wordBytes (ws : List Word) : List UInt8 := ws.flatMap fun w => intBytes 8 w.toNat

@[simp] theorem wordBytes_nil : wordBytes [] = [] := rfl

@[simp] theorem wordBytes_cons (w : Word) (ws : List Word) :
    wordBytes (w :: ws) = intBytes 8 w.toNat ++ wordBytes ws := rfl

@[simp] theorem wordBytes_append (ws vs : List Word) :
    wordBytes (ws ++ vs) = wordBytes ws ++ wordBytes vs := by
  simp [wordBytes]

@[simp] theorem length_wordBytes (ws : List Word) : (wordBytes ws).length = 8 * ws.length := by
  induction ws with
  | nil => rfl
  | cons w ws ih =>
    simp [ih]
    omega

/-- The words lie at `a`. -/
def Holds (m : Memory) (a : Nat) (ws : List Word) : Prop := m.load a (8 * ws.length) = wordBytes ws

theorem holds_cons {m : Memory} {a : Nat} {w : Word} {ws : List Word} :
    Holds m a (w :: ws) ↔ Holds m a [w] ∧ Holds m (a + 8) ws := by
  have happend := @Memory.load_append m a (intBytes 8 w.toNat) (wordBytes ws)
  simpa [Holds, Nat.mul_add, Nat.add_comm] using happend

theorem Holds.loadInt {m : Memory} {a : Nat} {w : Word} (h : Holds m a [w]) :
    BitVec.ofNat 64 (m.loadInt a 8) = w := by
  have hbytes : m.load a 8 = intBytes 8 w.toNat := by simpa [Holds] using h
  rw [Memory.loadInt, hbytes, ofBytes_intBytes (show w.toNat < 256 ^ 8 from w.isLt)]
  simp

/-- Each word where it lies. -/
theorem Holds.word {m : Memory} {a : Nat} {ws : List Word} (h : Holds m a ws) (i : Nat)
    (hi : i < ws.length) : BitVec.ofNat 64 (m.loadInt (a + 8 * i) 8) = ws[i] := by
  induction ws generalizing a i with
  | nil => exact absurd hi (Nat.not_lt_zero i)
  | cons w ws ih =>
    obtain ⟨hfirst, hrest⟩ := holds_cons.mp h
    cases i with
    | zero => exact hfirst.loadInt
    | succ i =>
      have hpos : a + 8 * (i + 1) = a + 8 + 8 * i := by omega
      rw [hpos, List.getElem_cons_succ]
      exact ih hrest i (Nat.lt_of_succ_lt_succ hi)

theorem Holds.congr {m m' : Memory} {a : Nat} {ws : List Word} (h : Holds m a ws)
    (hm : ∀ i, a ≤ i → i < a + 8 * ws.length → m'.bytes i = m.bytes i) : Holds m' a ws := by
  rw [Holds, Memory.load_congr fun i hi => hm (a + i) (by omega) (by omega)]
  exact h

/-! ## Pushes and pops -/

section Stack

variable {s : State}

@[simp] theorem reg_setReg_self (s : State) (r : Reg) (w : Word) : (s.setReg r w).reg r = w := by
  simp [State.setReg, State.reg, Cpu.setRegs]

@[simp] theorem reg_setReg_ne (s : State) {r q : Reg} (w : Word) (h : q ≠ r) :
    (s.setReg r w).reg q = s.reg q := by
  simp [State.setReg, State.reg, Cpu.setRegs, h]

@[simp] theorem memory_setReg (s : State) (r : Reg) (w : Word) :
    (s.setReg r w).memory = s.memory := rfl

/-- The return of a function. -/
theorem reg_ret (s : State) {q : Reg} (h : q ≠ .rsp) : (exec s .ret).reg q = s.reg q := by
  simp [exec, State.drop, State.setReg, State.reg, Cpu.setRegs, h]

theorem rsp_ret (s : State) : (exec s .ret).rsp = s.rsp + 8 := by
  simp [exec, State.drop, State.setReg, State.rsp, Cpu.setRegs]

theorem cpu_ret (s : State) :
    (exec s .ret).cpu = { s.cpu with regs := (exec s .ret).cpu.regs, rip := s.top } := rfl

@[simp] theorem memory_ret (s : State) : (exec s .ret).memory = s.memory := rfl

/-- Where a word is pushed. -/
theorem toNat_sub_eight {w : Word} (h : 8 ≤ w.toNat) : (w - 8).toNat = w.toNat - 8 := by
  have hle : (8 : Word) ≤ w := BitVec.le_def.mpr h
  exact BitVec.toNat_sub_of_le hle

/-- Some words lie under the stack pointer, and nothing else changed but what it is. -/
structure Pushed (s s' : State) (ws : List Word) : Prop where
  rsp : s'.rsp.toNat = s.rsp.toNat - 8 * ws.length
  cpu : s'.cpu = s.cpu.setRegs (Function.update s.cpu.regs .rsp s'.rsp)
  memory : Wrote s.memory s'.memory s'.rsp.toNat (wordBytes ws.reverse)

theorem pushed_nil (s : State) : Pushed s s [] := by
  refine ⟨rfl, ?_, Wrote.nothing ..⟩
  rw [State.rsp, Function.update_eq_self]
  rfl

theorem pushed_push (w : Word) (h : 8 ≤ s.rsp.toNat) : Pushed s (s.push w) [w] := by
  have hrsp : (s.push w).rsp = s.rsp - 8 := by
    simp [State.push, State.rsp, State.setReg, Cpu.setRegs]
  refine ⟨?_, ?_, ?_⟩
  · rw [hrsp, toNat_sub_eight h]
    rfl
  · rw [hrsp]
    rfl
  · rw [hrsp]
    simp only [List.reverse_singleton, wordBytes_cons, wordBytes_nil, List.append_nil]
    exact wrote_store s.memory (s.rsp - 8).toNat (intBytes 8 w.toNat)

theorem Pushed.trans {s' s'' : State} {ws vs : List Word} (h : Pushed s s' ws)
    (h' : Pushed s' s'' vs) (hroom : 8 * (ws ++ vs).length ≤ s.rsp.toNat) :
    Pushed s s'' (ws ++ vs) := by
  have hfirst := h.rsp
  have hlast := h'.rsp
  simp only [List.length_append] at hroom
  refine ⟨?_, ?_, ?_⟩
  · simp only [List.length_append]
    omega
  · rw [h'.cpu, h.cpu]
    simp [Cpu.setRegs]
  · have hwrote := h.memory
    have hnext : s'.rsp.toNat = s''.rsp.toNat + (wordBytes vs.reverse).length := by
      simp only [length_wordBytes, List.length_reverse]
      omega
    rw [hnext] at hwrote
    simpa using hwrote.before h'.memory

theorem pushed_foldl (ws : List Word) (s : State) (hroom : 8 * ws.length ≤ s.rsp.toNat) :
    Pushed s (ws.foldl State.push s) ws := by
  induction ws generalizing s with
  | nil => exact pushed_nil s
  | cons w ws ih =>
    simp only [List.length_cons] at hroom
    have hfirst := pushed_push (s := s) w (by omega)
    have hrsp := hfirst.rsp
    simp only [List.length_singleton] at hrsp
    exact hfirst.trans (ih (s.push w) (by omega)) (by simpa using hroom)

/-- Pushes of registers: each still has its value when its turn comes. -/
theorem run_pushes (rs : List Reg) (hrs : .rsp ∉ rs) (s : State) :
    run exec s (rs.map .push) = (rs.map s.reg).foldl State.push s := by
  induction rs generalizing s with
  | nil => rfl
  | cons r rs ih =>
    have hkept : rs.map (s.push (s.reg r)).reg = rs.map s.reg := by
      apply List.map_congr_left
      intro q hq
      have hne : q ≠ .rsp := fun he => hrs (he ▸ List.mem_cons_of_mem r hq)
      exact Function.update_of_ne hne ..
    rw [List.map_cons, run_cons, ih (fun hm => hrs (List.mem_cons_of_mem r hm))]
    simp only [exec, List.map_cons, List.foldl_cons, hkept]

/-- The registers after words of `v` were popped into those of `rs`. -/
def popped (rs : List Reg) (v old : Reg → Word) (rsp : Word) : Reg → Word := fun r =>
  if r = .rsp then rsp else if r ∈ rs then v r else old r

/-- Pops bring the words that lie at the stack pointer into the registers. -/
theorem run_pops (rs : List Reg) (hrs : .rsp ∉ rs) (v : Reg → Word) (s : State)
    (hheld : Holds s.memory s.rsp.toNat (rs.map v))
    (hend : s.rsp.toNat + 8 * rs.length < 2 ^ 64) :
    ∃ rsp : Word, rsp.toNat = s.rsp.toNat + 8 * rs.length ∧
      run exec s (rs.map .pop) = ⟨s.cpu.setRegs (popped rs v s.cpu.regs rsp), s.memory⟩ := by
  induction rs generalizing s with
  | nil =>
    refine ⟨s.rsp, rfl, ?_⟩
    have hregs : popped [] v s.cpu.regs s.rsp = s.cpu.regs := by
      funext r
      simp only [popped, List.not_mem_nil, if_false]
      split
      · rename_i hr
        rw [hr, State.rsp]
      · rfl
    rw [hregs]
    rfl
  | cons r rs ih =>
    rw [List.mem_cons, not_or] at hrs
    obtain ⟨htop, hrest⟩ := holds_cons.mp hheld
    have hword : s.top = v r := htop.loadInt
    obtain ⟨s₁, hs₁⟩ : ∃ s₁, exec s (.pop r) = s₁ := ⟨_, rfl⟩
    have hcpu : s₁.cpu = s.cpu.setRegs
        (Function.update (Function.update s.cpu.regs .rsp (s.rsp + 8)) r (v r)) := by
      rw [← hs₁, ← hword]
      rfl
    have hrsp : s₁.rsp = s.rsp + 8 := by
      rw [State.rsp, hcpu]
      simp [Cpu.setRegs, Function.update_of_ne hrs.1]
    have hnat : s₁.rsp.toNat = s.rsp.toNat + 8 := by
      rw [hrsp, BitVec.toNat_add]
      simp only [List.length_cons] at hend
      exact Nat.mod_eq_of_lt (by simp; omega)
    have hmemory : s₁.memory = s.memory := by
      rw [← hs₁]
      rfl
    rw [← hmemory, ← hnat] at hrest
    simp only [List.length_cons] at hend ⊢
    obtain ⟨rsp, hend', hrun⟩ := ih hrs.2 s₁ hrest (by omega)
    refine ⟨rsp, by omega, ?_⟩
    rw [List.map_cons, run_cons, hs₁, hrun, hmemory, hcpu]
    have hregs : popped rs v (s.cpu.setRegs (Function.update (Function.update s.cpu.regs .rsp
        (s.rsp + 8)) r (v r))).regs rsp = popped (r :: rs) v s.cpu.regs rsp := by
      funext q
      simp only [popped, Cpu.setRegs, List.mem_cons]
      by_cases hq : q = .rsp
      · simp [hq]
      · by_cases hqr : q = r
        · subst hqr
          simp [hq]
        · simp [hq, hqr]
    rw [hregs]
    rfl

/-! ## An interrupt and the return from it -/

/-- The words that `iretq` takes, the first one at the lowest address. -/
def Cpu.returnFrame (c : Cpu) : List Word := [c.rip, c.cs, c.rflags, c.regs .rsp, c.ss]

theorem toNat_align (w : Word) : (w &&& -16).toNat = w.toNat / 16 * 16 := by
  have hmask : (-16 : Word).toNat = 2 ^ 64 - 16 := by decide
  rw [BitVec.toNat_and, hmask]
  apply Nat.eq_of_testBit_eq
  intro i
  have hbits : (2 ^ 64 - 16).testBit i = (decide (4 ≤ i) && decide (i < 64)) := by
    rw [show 2 ^ 64 - 16 = (2 ^ 60 - 1) <<< 4 by decide, Nat.testBit_shiftLeft,
      Nat.testBit_two_pow_sub_one]
    by_cases h4 : 4 ≤ i
    · simp only [h4, decide_true, Bool.true_and, decide_eq_decide]
      omega
    · simp [h4]
  have hshift : w.toNat / 16 * 16 = (w.toNat >>> 4) <<< 4 := by
    simp [Nat.shiftLeft_eq, Nat.shiftRight_eq_div_pow]
  rw [Nat.testBit_and, hbits, hshift, Nat.testBit_shiftLeft, Nat.testBit_shiftRight]
  by_cases h4 : 4 ≤ i
  · by_cases h64 : i < 64
    · simp [h4, h64]
    · simp [h4, h64, Nat.testBit_lt_two_pow (Nat.lt_of_lt_of_le w.isLt
        (Nat.pow_le_pow_right (by decide) (Nat.not_lt.mp h64)))]
  · simp [h4]

/-- What an interrupt pushes is what `iretq` takes. -/
theorem interrupt_pushed (g : Gate) (s : State) (hroom : 40 ≤ s.rsp.toNat / 16 * 16) :
    (interrupt g s).rsp.toNat = s.rsp.toNat / 16 * 16 - 40 ∧
      (∀ r ≠ .rsp, (interrupt g s).reg r = s.reg r) ∧
      Wrote s.memory (interrupt g s).memory (s.rsp.toNat / 16 * 16 - 40)
        (wordBytes s.cpu.returnFrame) := by
  obtain ⟨aligned, haligned⟩ : ∃ a, s.setReg .rsp (s.rsp &&& -16) = a := ⟨_, rfl⟩
  have hrsp : aligned.rsp.toNat = s.rsp.toNat / 16 * 16 := by
    rw [← toNat_align, ← haligned]
    exact congrArg BitVec.toNat (reg_setReg_self s .rsp _)
  obtain ⟨pushed, hp⟩ : ∃ t, (returnWords s.cpu).foldl State.push aligned = t := ⟨_, rfl⟩
  have hpushed : Pushed aligned pushed (returnWords s.cpu) := by
    rw [← hp]
    exact pushed_foldl _ aligned (by simpa [returnWords, hrsp] using hroom)
  have hpos : pushed.rsp.toNat = s.rsp.toNat / 16 * 16 - 40 := by
    rw [hpushed.rsp, hrsp]
    rfl
  have hmemory := hpushed.memory
  rw [hpos, ← haligned] at hmemory
  have hinterrupt : interrupt g s = { pushed with cpu := { pushed.cpu with
      rip := g.offset, cs := g.selector, rflags := s.cpu.rflags &&& ~~~IF } } := by
    rw [← hp, ← haligned]
    rfl
  rw [hinterrupt]
  refine ⟨hpos, ?_, hmemory⟩
  intro r hr
  have hreg : pushed.reg r = aligned.reg r := by
    rw [State.reg, hpushed.cpu]
    simp [Cpu.setRegs, State.reg, hr]
  rw [← haligned, reg_setReg_ne s _ hr] at hreg
  exact hreg

theorem iretq_returns {s : State} (c : Cpu)
    (hheld : Holds s.memory s.rsp.toNat c.returnFrame) (hend : s.rsp.toNat + 40 < 2 ^ 64) :
    iretq s = ⟨{ c with regs := Function.update s.cpu.regs .rsp (c.regs .rsp) }, s.memory⟩ := by
  have hdrop : ∀ t : State, t.rsp.toNat + 8 < 2 ^ 64 → t.drop.rsp.toNat = t.rsp.toNat + 8 := by
    intro t ht
    have hrsp : t.drop.rsp = t.rsp + 8 := reg_setReg_self t .rsp _
    rw [hrsp, BitVec.toNat_add]
    exact Nat.mod_eq_of_lt ht
  have h1 := hdrop s (by omega)
  have h2 := hdrop s.drop (by omega)
  have h3 := hdrop s.drop.drop (by omega)
  have h4 := hdrop s.drop.drop.drop (by omega)
  obtain ⟨hrip, hheld⟩ := holds_cons.mp hheld
  obtain ⟨hcs, hheld⟩ := holds_cons.mp hheld
  obtain ⟨hrflags, hheld⟩ := holds_cons.mp hheld
  obtain ⟨hrsp, hss⟩ := holds_cons.mp hheld
  rw [← h1] at hcs hrflags hrsp hss
  rw [← h2] at hrflags hrsp hss
  rw [← h3] at hrsp hss
  rw [← h4] at hss
  have hregs : Function.update s.drop.drop.drop.drop.cpu.regs .rsp (c.regs .rsp) =
      Function.update s.cpu.regs .rsp (c.regs .rsp) := by
    funext r
    by_cases hr : r = .rsp
    · simp [hr]
    · simp [State.drop, State.setReg, Cpu.setRegs, hr]
  have hwords : s.top = c.rip ∧ s.drop.top = c.cs ∧ s.drop.drop.top = c.rflags ∧
      s.drop.drop.drop.top = c.regs .rsp ∧ s.drop.drop.drop.drop.top = c.ss :=
    ⟨hrip.loadInt, hcs.loadInt, hrflags.loadInt, hrsp.loadInt, hss.loadInt⟩
  obtain ⟨w1, w2, w3, w4, w5⟩ := hwords
  simp only [iretq, w1, w2, w3, w4, w5, hregs]
  rfl

end Stack

/-! ## What a call leaves alone -/

section Called

variable (s : State) (x : Scratch) (result : Option Word)

theorem reg_called {r : Reg} (hr : calleeSaved r) : (s.called x result).reg r = s.reg r := by
  simp [State.called, State.reg, hr]

@[simp] theorem rsp_called : (s.called x result).rsp = s.rsp := reg_called s x result rfl

@[simp] theorem rax_called (w : Word) : (s.called x (some w)).reg .rax = w := by
  simp [State.called, State.reg, calleeSaved]

/-- A call stores under the stack pointer only. -/
theorem called_spares (hroom : x.below.length ≤ s.rsp.toNat) :
    Spares (fun i => i < s.rsp.toNat - x.below.length ∨ s.rsp.toNat ≤ i) s.memory
      (s.called x result).memory := by
  apply Spares.store
  intro i hi
  omega

end Called

end processor
