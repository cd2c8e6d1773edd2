-- The processor, the memory and the kernel together. Each process has a processor and a stack
-- of its own: it goes on as if no other process was there, and only its own code changes
-- its registers.
import BareBones.ContextSwitch
import BareBones.Interrupts
import BareBones.Lib.TimeSharing

namespace bare_bones.machine

open byte_memory processor runs time_sharing
open bare_bones.doubleLinkedList bare_bones.process_table bare_bones.interrupts
open bare_bones.process hiding setupStackFrame
open bare_bones.scheduler hiding exec sparesIdle
open bare_bones.semaphore hiding step

variable {H : Type}

structure Machine (H : Type) where
  state : processor.State
  kernel : Kernel H

namespace Machine

def scheduler (m : Machine H) : Scheduler H := m.kernel.scheduler

def pcb (m : Machine H) (p : Pcb) : ProcessContext := m.kernel.scheduler.pcb p

def current (m : Machine H) : Option Pcb := m.kernel.scheduler.currentProcess

end Machine

inductive Event
  /-- The code that runs, of a process or of the kernel, comes to the state `s`. -/
  | code (s : processor.State)
  /-- What a call does in the kernel. If it raises the timer interrupt, the functions that the
  handler calls leave `x` and `y` in the registers that they may use. -/
  | call (c : Call) (x y : Scratch)
  /-- `irqHandlerMaster n`, when the function that it calls changes nothing in the kernel. -/
  | irq (n : Word) (x : Scratch)
  /-- `createProcess`, which comes to the call of `setupStackFrame` in the state `s`, or fails
  and leaves `s`. -/
  | create (rip : Addr) (args : Args) (argc : Int) (priority : Nat)
      (fileDescriptors : Option (Fin CANT_FILE_DESCRIPTORS → Int)) (ground : Nat)
      (s : processor.State)

variable [MemoryManager H]

def step (g : Gate) (m : Machine H) : Event → Machine H
  | .code s => { m with state := s }
  | .call c x y =>
    let c := c.saving (framePos m.state)
    match raised m.kernel c with
    | none => { m with kernel := after m.kernel c }
    | some k =>
      let (state, scheduler) := irq00Handler g x y (schedule k.scheduler) m.state
      ⟨state, k.setScheduler scheduler⟩
  | .irq n x => { m with state := irqHandlerMaster g n x m.state }
  | .create rip args argc priority fileDescriptors ground s =>
    let (result, scheduler) :=
      createProcess m.scheduler rip args argc priority fileDescriptors ground
    ⟨if result = -1 then s else run exec s setupStackFrame, m.kernel.setScheduler scheduler⟩

/-! ## Stacks -/

/-- The two fields as numbers. -/
def baseOf (c : ProcessContext) : Nat := c.stackBase

def posOf (c : ProcessContext) : Nat := c.stackPos

def inStack (c : ProcessContext) (i : Nat) : Prop := baseOf c - STACK_SIZE ≤ i ∧ i < baseOf c

/-- The byte lies in the stack of a process that does not run. -/
def Foreign (m : Machine H) (i : Nat) : Prop :=
  ∃ p, Live m.scheduler p ∧ m.current ≠ some p ∧ inStack (m.pcb p) i

/-- The byte lies in the stack of a process. -/
def Used (m : Machine H) (i : Nat) : Prop := ∃ p, Live m.scheduler p ∧ inStack (m.pcb p) i

/-- The stack has room for the registers of the process and `n` bytes more. -/
def Room (m : Machine H) (n : Nat) : Prop :=
  n + FRAME_SIZE ≤ m.state.rsp.toNat / 16 * 16 ∧
    match m.current with
    | some p => baseOf (m.pcb p) - STACK_SIZE + n ≤ framePos m.state ∧
        framePos m.state + FRAME_SIZE ≤ baseOf (m.pcb p)
    | none => ∀ i, framePos m.state - n ≤ i → i < framePos m.state + FRAME_SIZE → ¬ Foreign m i

/-- The arguments of `setupStackFrame`, and where its own stack is. The heap gives a stack of
bytes that are not `used`; its caller is no process of `foreign`. -/
structure SetsUp (used foreign : Nat → Prop) (s : processor.State) (c : ProcessContext) :
    Prop where
  stackBase : s.reg .rdi = BitVec.ofNat 64 (baseOf c)
  code : s.reg .rsi = BitVec.ofNat 64 c.rip
  argc : (s.reg .rdx).setWidth 32 = BitVec.ofInt 32 c.argc
  args : ∀ argv ∈ c.argv, s.reg .rcx = BitVec.ofNat 64 argv.array
  bounded : baseOf c < 2 ^ 64
  apart : ∀ i, inStack c i → ¬ used i
  low : 8 ≤ s.rsp.toNat
  high : s.rsp.toNat + 8 < 2 ^ 64
  own : ∀ i, s.rsp.toNat - 8 ≤ i → i < s.rsp.toNat + 8 → ¬ foreign i ∧ ¬ inStack c i

/-- The code stores to no stack of a process that does not run, nobody blocks or kills idle, and
the stack of the process that runs is large enough. -/
def Allowed (m : Machine H) : Event → Prop
  | .code s => Spares (Foreign m) m.state.memory s.memory
  | .call c x y =>
    c.creates = false ∧ sparesIdle ⟨m.kernel, .start⟩ c ∧
      ((raised m.kernel (c.saving (framePos m.state))).isSome →
        Room m (max x.below.length y.below.length))
  | .irq _ x => Room m x.below.length
  | .create rip args argc priority fileDescriptors ground s =>
    let r := createProcess m.scheduler rip args argc priority fileDescriptors ground
    Spares (Foreign m) m.state.memory s.memory ∧
      (r.1 ≠ -1 → SetsUp (Used m) (Foreign m) s (r.2.pcb m.scheduler.pcbQty))

/-! ## The processes as they see themselves -/

/-- The registers of a process, and its stack from its stack pointer on. -/
structure Context where
  cpu : Cpu
  stack : List UInt8

def contextOf (s : processor.State) (stackBase : Nat) : Context :=
  ⟨s.cpu, s.memory.load (s.rsp.toNat / 16 * 16) (stackBase - s.rsp.toNat / 16 * 16)⟩

/-- The process that runs works. -/
def works (m : Machine H) (s : processor.State) : List (Act Pcb Context) :=
  m.current.toList.map fun p => .work (contextOf s (baseOf (m.pcb p)))

/-- What an event is for the processes: one works, another goes on, or one begins. -/
def trace (m : Machine H) (e : Event) : List (Act Pcb Context) :=
  match e with
  | .code s => works m s
  | .call c _ _ =>
    match raised m.kernel (c.saving (framePos m.state)) with
    | none => []
    | some k => [.switch (schedule k.scheduler (framePos m.state)).2.currentProcess]
  | .irq _ _ => []
  | .create rip args argc priority fileDescriptors ground s =>
    let (result, scheduler) :=
      createProcess m.scheduler rip args argc priority fileDescriptors ground
    if result = -1 then works m s
    else
      works m (run exec s setupStackFrame) ++ [.spawn m.scheduler.pcbQty
        (contextOf ⟨startCpu s, (run exec s setupStackFrame).memory⟩
          (baseOf (scheduler.pcb m.scheduler.pcbQty)))]

/-- The processes after some events. -/
def follow (g : Gate) (v : Shared Pcb Context) (m : Machine H) : List Event → Shared Pcb Context
  | [] => v
  | e :: es => follow g (run act v (trace m e)) (step g m e) es

/-- The registers lie where the stack pointer of the PCB is. -/
structure Parked (memory : Memory) (c : ProcessContext) (x : Context) : Prop where
  pos : posOf c + FRAME_SIZE = (x.cpu.regs .rsp).toNat / 16 * 16
  low : baseOf c - STACK_SIZE ≤ posOf c
  high : posOf c + FRAME_SIZE ≤ baseOf c
  framed : Framed memory (posOf c) x.cpu
  stack : contextOf ⟨x.cpu, memory⟩ (baseOf c) = x

/-- The machine holds the context of each process. -/
structure Implements (m : Machine H) (v : Shared Pcb Context) : Prop where
  inv : Inv m.scheduler.view
  unlocked : Unlocked m.kernel
  current : v.current = m.current
  running : ∀ p, m.current = some p → v.contexts p = contextOf m.state (baseOf (m.pcb p))
  parked : ∀ p, Live m.scheduler p → m.current ≠ some p →
    Parked m.state.memory (m.pcb p) (v.contexts p)
  apart : ∀ p q, Live m.scheduler p → Live m.scheduler q → p ≠ q →
    ∀ i, inStack (m.pcb p) i → ¬ inStack (m.pcb q) i
  bounded : ∀ p, Live m.scheduler p → baseOf (m.pcb p) < 2 ^ 64

section Parked

variable {memory memory' : Memory} {c c' : ProcessContext} {x : Context} {s : processor.State}

omit [MemoryManager H]

theorem contextOf_congr {base : Nat} (h : ∀ i, s.rsp.toNat / 16 * 16 ≤ i → i < base →
    memory.bytes i = s.memory.bytes i) : contextOf ⟨s.cpu, memory⟩ base = contextOf s base := by
  have hload : memory.load (s.rsp.toNat / 16 * 16) (base - s.rsp.toNat / 16 * 16) =
      s.memory.load (s.rsp.toNat / 16 * 16) (base - s.rsp.toNat / 16 * 16) := by
    apply Memory.load_congr
    intro i hi
    exact h _ (by omega) (by omega)
  exact congrArg (Context.mk s.cpu) hload

theorem Parked.congr (h : Parked memory c x)
    (hm : ∀ i, inStack c i → memory'.bytes i = memory.bytes i) : Parked memory' c x := by
  have hframe : FRAME_SIZE = 160 := rfl
  have hpos := h.pos
  have hlow := h.low
  have hhigh := h.high
  refine ⟨h.pos, h.low, h.high, ?_, ?_⟩
  · apply h.framed.congr
    intro i hi hlt
    exact hm i ⟨by omega, by omega⟩
  · have hsame : contextOf ⟨x.cpu, memory'⟩ (baseOf c) = contextOf ⟨x.cpu, memory⟩ (baseOf c) := by
      refine @contextOf_congr memory' ⟨x.cpu, memory⟩ (baseOf c) ?_
      intro i hi hlt
      have hrsp : processor.State.rsp ⟨x.cpu, memory⟩ = x.cpu.regs .rsp := rfl
      rw [hrsp] at hi
      exact hm i ⟨by omega, hlt⟩
    exact hsame.trans h.stack

theorem Parked.same (h : Parked memory c x) (hc : SameStack c c') : Parked memory c' x := by
  have hpos := h.pos
  have hlow := h.low
  have hhigh := h.high
  have hframed := h.framed
  have hstack := h.stack
  have hbase' : baseOf c' = baseOf c := hc.base
  have hpos' : posOf c' = posOf c := hc.pos
  rw [← hpos'] at hpos hlow hhigh hframed
  rw [← hbase'] at hlow hhigh hstack
  exact ⟨hpos, hlow, hhigh, hframed, hstack⟩

/-- The registers that a handler saved. -/
theorem parked_of_saved {n : Nat} (h : Saved s n memory)
    (hroom : FRAME_SIZE ≤ s.rsp.toNat / 16 * 16)
    (hpos : posOf c = framePos s) (hlow : baseOf c - STACK_SIZE ≤ framePos s)
    (hhigh : framePos s + FRAME_SIZE ≤ baseOf c) :
    Parked memory c (contextOf s (baseOf c)) := by
  have hend : framePos s + FRAME_SIZE = s.rsp.toNat / 16 * 16 := by
    unfold framePos
    omega
  refine ⟨?_, ?_, ?_, ?_, ?_⟩
  · rw [hpos]
    exact hend
  · omega
  · omega
  · rw [hpos]
    exact h.framed
  · apply contextOf_congr
    intro i hi _
    apply h.spared.bytes
    omega

/-- A new process is parked with the registers that it starts with. -/
theorem parked_new {rip : Addr} {argc : Int} {cpu : Cpu} (h : Prepared rip argc c)
    (hcpu : cpu.regs .rsp = BitVec.ofNat 64 (baseOf c)) (hbounded : baseOf c < 2 ^ 64)
    (hframed : Framed memory (posOf c) cpu) :
    Parked memory c (contextOf ⟨cpu, memory⟩ (baseOf c)) := by
  have hframe : FRAME_SIZE = 160 := rfl
  have hsize : STACK_SIZE = 4096 := rfl
  have hbase : STACK_SIZE ≤ baseOf c := h.base
  have hpos : posOf c = baseOf c / 16 * 16 - 160 := h.pos
  have hend : posOf c + FRAME_SIZE = (cpu.regs .rsp).toNat / 16 * 16 := by
    rw [hcpu, BitVec.toNat_ofNat, Nat.mod_eq_of_lt hbounded]
    omega
  have hlow : baseOf c - STACK_SIZE ≤ posOf c := by omega
  have hhigh : posOf c + FRAME_SIZE ≤ baseOf c := by omega
  exact ⟨hend, hlow, hhigh, hframed, rfl⟩

end Parked

/-! ## One event -/

section Events

variable {g : Gate} {m : Machine H} {v : Shared Pcb Context}

omit [MemoryManager H] in
theorem Implements.live (h : Implements m v) {p : Pcb} (hp : m.current = some p) :
    Live m.scheduler p :=
  And.symm (h.inv.cur.live p hp)

omit [MemoryManager H] in
/-- The stack of the process that runs is no other's. -/
theorem Implements.own (h : Implements m v) {p : Pcb} (hp : m.current = some p) {i : Nat}
    (hi : inStack (m.pcb p) i) : ¬ Foreign m i := by
  rintro ⟨q, hq, hne, hin⟩
  have hpq : p ≠ q := fun he => hne (he ▸ hp)
  exact h.apart p q (h.live hp) hq hpq i hi hin

omit [MemoryManager H] in
/-- What a handler writes lies in no stack of a process that does not run. -/
theorem Implements.spares (h : Implements m v) {n : Nat} (hroom : Room m n) {memory : Memory}
    (hsaved : Saved m.state n memory) {i : Nat} (hi : Foreign m i) :
    memory.bytes i = m.state.memory.bytes i := by
  apply hsaved.spared.bytes
  by_contra hin
  rw [not_or, Nat.not_lt, Nat.not_le] at hin
  obtain ⟨hlow, hhigh⟩ := hin
  obtain ⟨-, hwhere⟩ := hroom
  cases hc : m.current with
  | none =>
    rw [hc] at hwhere
    exact hwhere i hlow hhigh hi
  | some p =>
    rw [hc] at hwhere
    exact h.own hc ⟨by omega, by omega⟩ hi

omit [MemoryManager H] in
/-- The context of each process once the handler has saved the registers. -/
theorem Implements.park (h : Implements m v) {n : Nat} (hroom : Room m n) {memory : Memory}
    (hsaved : Saved m.state n memory) {s s' : Scheduler H} (hkeeps : KeepsStacks m.scheduler s)
    (hsuspends : Suspends s s' (savedPos s (framePos m.state))) {p : Pcb} (hp : Live s' p) :
    Parked memory (s'.pcb p) (v.contexts p) := by
  have hlive := hsuspends.live p hp
  obtain ⟨hlive', hsame⟩ := hkeeps.live p hlive
  have hbase : baseOf (s'.pcb p) = baseOf (m.pcb p) := (hsuspends.base p hp).trans hsame.base
  have hpos : posOf (s'.pcb p) = savedPos s (framePos m.state) p := hsuspends.pos p hp
  by_cases hc : m.current = some p
  · have hcurrent : s.currentProcess = some p := hkeeps.current.trans hc
    rw [savedPos, if_pos hcurrent] at hpos
    obtain ⟨hlarge, hwhere⟩ := hroom
    rw [hc] at hwhere
    rw [h.running p hc, ← hbase]
    apply parked_of_saved hsaved _ hpos
    · rw [hbase]
      omega
    · rw [hbase]
      exact hwhere.2
    · omega
  · have hcurrent : s.currentProcess ≠ some p := fun he => hc (hkeeps.current.symm.trans he)
    rw [savedPos, if_neg hcurrent] at hpos
    have hparked : Parked memory (m.pcb p) (v.contexts p) := by
      apply (h.parked p hlive' hc).congr
      intro i hi
      exact h.spares hroom hsaved ⟨p, hlive', hc, hi⟩
    exact hparked.same ⟨hbase, hpos.trans hsame.pos⟩

omit [MemoryManager H] in
/-- Stacks stay apart while no process is new. -/
theorem Implements.keptApart (h : Implements m v) {s : Scheduler H}
    (hlive : ∀ p, Live s p → Live m.scheduler p)
    (hbase : ∀ p, Live s p → baseOf (s.pcb p) = baseOf (m.pcb p)) {p q : Pcb} (hp : Live s p)
    (hq : Live s q) (hne : p ≠ q) (i : Nat) (hi : inStack (s.pcb p) i) :
    ¬ inStack (s.pcb q) i := by
  unfold inStack at *
  rw [hbase p hp] at hi
  rw [hbase q hq]
  exact h.apart p q (hlive p hp) (hlive q hq) hne i hi

omit [MemoryManager H] in
theorem run_works (hv : v.current = m.current) (s : processor.State) :
    (run act v (works m s)).current = v.current ∧
      (∀ p, m.current = some p →
        (run act v (works m s)).contexts p = contextOf s (baseOf (m.pcb p))) ∧
      ∀ p, m.current ≠ some p → (run act v (works m s)).contexts p = v.contexts p := by
  cases hc : m.current with
  | none =>
    have hrun : run act v (works m s) = v := by
      rw [works, hc]
      rfl
    rw [hrun]
    refine ⟨rfl, ?_, fun p _ => rfl⟩
    rintro p ⟨⟩
  | some q =>
    rw [hc] at hv
    have hrun : run act v (works m s) =
        { v with contexts := Function.update v.contexts q (contextOf s (baseOf (m.pcb q))) } := by
      rw [works, hc, Option.toList_some, List.map_singleton, run_cons, run_nil, act, hv]
    rw [hrun]
    refine ⟨rfl, ?_, ?_⟩
    · rintro p ⟨⟩
      exact Function.update_self ..
    · intro p hp
      have hne : p ≠ q := fun he => hp (he ▸ rfl)
      exact Function.update_of_ne hne ..

omit [MemoryManager H] in
theorem implements_code (h : Implements m v) {s : processor.State}
    (hs : Spares (Foreign m) m.state.memory s.memory) :
    Implements { m with state := s } (run act v (works m s)) := by
  obtain ⟨hcurrent, hruns, hrests⟩ := run_works h.current s
  refine ⟨h.inv, h.unlocked, hcurrent.trans h.current, hruns, ?_, h.apart, h.bounded⟩
  intro p hp hne
  have hne' : m.current ≠ some p := hne
  rw [hrests p hne']
  apply (h.parked p hp hne').congr
  intro i hi
  exact hs.bytes i ⟨p, hp, hne', hi⟩

omit [MemoryManager H] in
/-- A call that only loses processes. -/
theorem Implements.keeps (h : Implements m v) {k : Kernel H} (hinv : Inv k.scheduler.view)
    (hunlocked : Unlocked k) (hkeeps : KeepsStacks m.scheduler k.scheduler) :
    Implements { m with kernel := k } v := by
  have hcurrent : k.scheduler.currentProcess = m.current := hkeeps.current
  have hbase : ∀ p, Live k.scheduler p → baseOf (k.scheduler.pcb p) = baseOf (m.pcb p) :=
    fun p hp => (hkeeps.live p hp).2.base
  refine ⟨hinv, hunlocked, h.current.trans hcurrent.symm, ?_, ?_, ?_, ?_⟩
  · intro p hp
    have hlive : Live k.scheduler p := And.symm (hinv.cur.live p hp)
    have hp' : m.current = some p := hcurrent.symm.trans hp
    rw [h.running p hp', ← hbase p hlive]
    rfl
  · intro p hp hne
    obtain ⟨hlive, hsame⟩ := hkeeps.live p hp
    have hne' : m.current ≠ some p := fun he => hne (hcurrent.trans he)
    exact (h.parked p hlive hne').same hsame
  · intro p q hp hq hne i
    exact h.keptApart (fun p hp => (hkeeps.live p hp).1) hbase hp hq hne i
  · intro p hp
    have hb := h.bounded p (hkeeps.live p hp).1
    rw [← hbase p hp] at hb
    exact hb

omit [MemoryManager H] in
/-- The processor stays with its process, which finds its registers. -/
theorem Implements.stays (h : Implements m v) {n : Nat} (hroom : Room m n) {memory : Memory}
    (hsaved : Saved m.state n memory) : Implements ⟨⟨m.state.cpu, memory⟩, m.kernel⟩ v := by
  refine ⟨h.inv, h.unlocked, h.current, ?_, ?_, h.apart, h.bounded⟩
  · intro p hp
    rw [h.running p hp]
    apply Eq.symm
    apply contextOf_congr
    intro i hi _
    apply hsaved.spared.bytes
    have hlarge := hroom.1
    unfold framePos
    omega
  · intro p hp hne
    apply (h.parked p hp hne).congr
    intro i hi
    exact h.spares hroom hsaved ⟨p, hp, hne, hi⟩

omit [MemoryManager H] in
theorem implements_irq (h : Implements m v) (g : Gate) (w : Word) {x : Scratch}
    (hroom : Room m x.below.length) :
    Implements { m with state := irqHandlerMaster g w x m.state } v := by
  obtain ⟨memory, hsaved, hrun⟩ := irqHandlerMaster_spec g w (Nat.le_refl x.below.length) hroom.1
  rw [hrun]
  exact h.stays hroom hsaved

omit [MemoryManager H] in
/-- Another process goes on, with the registers that were saved of it. -/
theorem Implements.switches (h : Implements m v) {n : Nat} (hroom : Room m n) {memory : Memory}
    (hsaved : Saved m.state n memory) {s : Scheduler H} {r : Addr × Scheduler H} {p : Pcb}
    (hkeeps : KeepsStacks m.scheduler s) (hgoes : GoesTo s (framePos m.state) r p) {k : Kernel H}
    (hk : k.scheduler = r.2) (hinv : Inv k.scheduler.view) (hunlocked : Unlocked k) :
    Framed memory r.1 (v.contexts p).cpu ∧ r.1 + FRAME_SIZE < 2 ^ 64 ∧
      Implements ⟨⟨(v.contexts p).cpu, memory⟩, k⟩ { v with current := r.2.currentProcess } := by
  have hparked : ∀ q, Live r.2 q → Parked memory (r.2.pcb q) (v.contexts q) :=
    fun q hq => h.park hroom hsaved hkeeps hgoes.suspends hq
  have hlive : ∀ q, Live r.2 q → Live m.scheduler q :=
    fun q hq => (hkeeps.live q (hgoes.suspends.live q hq)).1
  have hbase : ∀ q, Live r.2 q → baseOf (r.2.pcb q) = baseOf (m.pcb q) := by
    intro q hq
    have hlive' := hgoes.suspends.live q hq
    exact (hgoes.suspends.base q hq).trans (hkeeps.live q hlive').2.base
  have hpos : r.1 = posOf (r.2.pcb p) :=
    hgoes.pos.trans (hgoes.suspends.pos p hgoes.live).symm
  have hp := hparked p hgoes.live
  have hbound : ∀ q, Live r.2 q → baseOf (r.2.pcb q) < 2 ^ 64 := by
    intro q hq
    rw [hbase q hq]
    exact h.bounded q (hlive q hq)
  refine ⟨hpos ▸ hp.framed, ?_, ?_⟩
  · have hhigh := hp.high
    have hlt := hbound p hgoes.live
    rw [hpos]
    exact Nat.lt_of_le_of_lt hhigh hlt
  · refine ⟨hinv, hunlocked, congrArg Scheduler.currentProcess hk.symm, ?_, ?_, ?_, ?_⟩
    · intro q hq
      have hqp : q = p := by
        have hnow : some p = some q := by
          rw [← hgoes.current, ← hk]
          exact hq
        exact (Option.some.inj hnow).symm
      have hstack : contextOf ⟨(v.contexts p).cpu, memory⟩ (baseOf (k.scheduler.pcb p)) =
          v.contexts p := by
        rw [hk]
        exact hp.stack
      rw [hqp]
      exact hstack.symm
    · intro q hq _
      have hq' : Parked memory (k.scheduler.pcb q) (v.contexts q) := by
        rw [hk]
        exact hparked q (hk ▸ hq)
      exact hq'
    · intro q q' hq hq' hne i hi
      have hq₁ : Live r.2 q := hk ▸ hq
      have hq₂ : Live r.2 q' := hk ▸ hq'
      have hi' : inStack (r.2.pcb q) i := hk ▸ hi
      have hapart := h.keptApart hlive hbase hq₁ hq₂ hne i hi'
      rw [← hk] at hapart
      exact hapart
    · intro q hq
      have hlt := hbound q (hk ▸ hq)
      rw [← hk] at hlt
      exact hlt

/-- The kernel after a call is that of `after`, also when an interrupt came. -/
theorem implements_call (hn : Serves H NODE_SIZE) (h : Implements m v) (g : Gate) {c : Call}
    {x y : Scratch} (hok : Allowed m (.call c x y)) :
    (step g m (.call c x y)).kernel = after m.kernel (c.saving (framePos m.state)) ∧
      m.scheduler.pcbQty ≤ (step g m (.call c x y)).scheduler.pcbQty ∧
      Implements (step g m (.call c x y)) (run act v (trace m (.call c x y))) := by
  obtain ⟨hcreates, hidle, hroom⟩ := hok
  have hsound : Sound ⟨m.kernel, .start⟩ :=
    ⟨h.inv, h.unlocked, List.nodup_nil, fun e he => nomatch he⟩
  have hidle' : sparesIdle ⟨m.kernel, .start⟩ (c.saving (framePos m.state)) :=
    (sparesIdle_saving _ c _).mpr hidle
  obtain ⟨hinv, hunlocked⟩ := inv_after hn ⟨m.kernel, .start⟩ _ hsound hidle'
  have hcontinues := call_continues hn h.inv h.unlocked c hidle hcreates (framePos m.state)
  unfold step trace
  cases hcontinues with
  | ends hraised hkeeps =>
    simp only [hraised]
    exact ⟨trivial, hkeeps.qty, h.keeps hinv hunlocked hkeeps⟩
  | raises k₁ hraised hafter hkeeps hcore hcur =>
    have hlarge := hroom (hraised ▸ rfl)
    simp only [hraised]
    obtain ⟨hresult, memory, hsaved, hleave⟩ := irq00Handler_spec (s := m.state) g
      (schedule k₁.scheduler) (Nat.le_max_left x.below.length y.below.length)
      (Nat.le_max_right x.below.length y.below.length) hlarge.1
    rw [hafter] at hinv hunlocked
    rw [hresult, hafter]
    refine ⟨rfl, ?_⟩
    rcases schedule_goesTo hn hcore hcur (framePos m.state) with ⟨hpos, hkeeps'⟩ | ⟨p, hgoes⟩
    · have hall := hkeeps.trans hkeeps'
      have hcurrent : (schedule k₁.scheduler (framePos m.state)).2.currentProcess = v.current :=
        hall.current.trans h.current.symm
      have hbound : framePos m.state + FRAME_SIZE < 2 ^ 64 := by
        have hlt := m.state.rsp.isLt
        have hroom' := hlarge.1
        unfold framePos
        omega
      have hframed : Framed memory (schedule k₁.scheduler (framePos m.state)).1 m.state.cpu := by
        rw [hpos]
        exact hsaved.framed
      rw [hleave _ hframed (by rw [hpos]; exact hbound), run_cons, run_nil, act, hcurrent]
      refine ⟨hall.qty, ?_⟩
      exact (h.stays hlarge hsaved).keeps hinv hunlocked hall
    · obtain ⟨hframed, hbound, himplements⟩ :=
        h.switches hlarge hsaved hkeeps hgoes rfl hinv hunlocked
      rw [hleave _ hframed hbound]
      exact ⟨hkeeps.qty.trans hgoes.suspends.qty, himplements⟩

omit [MemoryManager H] in
/-- A new process has a stack of its own, with the registers that it starts with. -/
theorem Implements.spawns (h : Implements m v) {s' : Scheduler H} {rip : Addr} {argc : Int}
    (hspawns : Spawns m.scheduler s' rip argc) (hinv : Inv s'.view) (cpu : Cpu)
    (hcpu : cpu.regs .rsp = BitVec.ofNat 64 (baseOf (s'.pcb m.scheduler.pcbQty)))
    (hframed : Framed m.state.memory (posOf (s'.pcb m.scheduler.pcbQty)) cpu)
    (hbounded : baseOf (s'.pcb m.scheduler.pcbQty) < 2 ^ 64)
    (hapart : ∀ p, Live m.scheduler p → ∀ i, inStack (s'.pcb m.scheduler.pcbQty) i →
      ¬ inStack (m.pcb p) i) :
    Implements { m with kernel := m.kernel.setScheduler s' }
      (act v (.spawn m.scheduler.pcbQty
        (contextOf ⟨cpu, m.state.memory⟩ (baseOf (s'.pcb m.scheduler.pcbQty))))) := by
  obtain ⟨new, hnew⟩ : ∃ new, m.scheduler.pcbQty = new := ⟨_, rfl⟩
  have hprepared := hspawns.prepared
  have hfresh := hspawns.fresh
  have hlive := hspawns.live
  rw [hnew] at hcpu hframed hbounded hapart hprepared hfresh hlive ⊢
  have hold : ∀ p, Live m.scheduler p → p ≠ new := by
    intro p hp
    have hlt := hp.1
    rw [hnew] at hlt
    exact Nat.ne_of_lt hlt
  have hcurrent : s'.currentProcess = m.current := hspawns.current
  refine ⟨hinv, h.unlocked, h.current.trans hcurrent.symm, ?_, ?_, ?_, ?_⟩
  · intro p hp
    have hp' : m.current = some p := hcurrent.symm.trans hp
    have hne := hold p (h.live hp')
    have hsame := (hlive p (And.symm (hinv.cur.live p hp))).resolve_left hne
    have hbase' : baseOf (s'.pcb p) = baseOf (m.pcb p) := hsame.2.base
    rw [contexts_spawn_ne v _ hne, h.running p hp', ← hbase']
    rfl
  · intro p hp hne
    have hne' : m.current ≠ some p := fun he => hne (hcurrent.trans he)
    by_cases hq : p = new
    · rw [hq, contexts_spawn_self]
      exact parked_new hprepared hcpu hbounded hframed
    · obtain ⟨hlive', hsame⟩ := (hlive p hp).resolve_left hq
      rw [contexts_spawn_ne v _ hq]
      exact (h.parked p hlive' hne').same hsame
  · have hkept : ∀ p, Live s' p → p ≠ new → ∀ i, inStack (s'.pcb p) i ↔ inStack (m.pcb p) i := by
      intro p hp hne i
      have hbase' : baseOf (s'.pcb p) = baseOf (m.pcb p) := ((hlive p hp).resolve_left hne).2.base
      unfold inStack
      rw [hbase']
    intro p q hp hq hne i hi hi'
    have hi₁ : inStack (s'.pcb p) i := hi
    have hi₂ : inStack (s'.pcb q) i := hi'
    by_cases hpn : p = new
    · have hqn : q ≠ new := fun he => hne (hpn.trans he.symm)
      rw [hkept q hq hqn] at hi₂
      rw [hpn] at hi₁
      exact hapart q ((hlive q hq).resolve_left hqn).1 i hi₁ hi₂
    · rw [hkept p hp hpn] at hi₁
      have hlive₁ := ((hlive p hp).resolve_left hpn).1
      by_cases hqn : q = new
      · rw [hqn] at hi₂
        exact hapart p hlive₁ i hi₂ hi₁
      · rw [hkept q hq hqn] at hi₂
        exact h.apart p q hlive₁ ((hlive q hq).resolve_left hqn).1 hne i hi₁ hi₂
  · intro p hp
    by_cases hq : p = new
    · rw [hq]
      exact hbounded
    · obtain ⟨hlive', hsame⟩ := (hlive p hp).resolve_left hq
      have hb := h.bounded p hlive'
      have hbase' : baseOf (s'.pcb p) = baseOf (m.pcb p) := hsame.base
      rw [← hbase'] at hb
      exact hb

omit [MemoryManager H] in
/-- `setupStackFrame` stores into the new stack and below its own stack pointer only. -/
theorem SetsUp.spec {used foreign : Nat → Prop} {s : processor.State} {c : ProcessContext}
    (h : SetsUp used foreign s c) (hforeign : ∀ i, foreign i → used i)
    (hsize : STACK_SIZE ≤ baseOf c) :
    Framed (run exec s setupStackFrame).memory (baseOf c / 16 * 16 - FRAME_SIZE) (startCpu s) ∧
      Spares foreign s.memory (run exec s setupStackFrame).memory := by
  have hframe : FRAME_SIZE = 160 := rfl
  have hstack : STACK_SIZE = 4096 := rfl
  have hrdi : (s.reg .rdi).toNat = baseOf c := by
    rw [h.stackBase, BitVec.toNat_ofNat]
    exact Nat.mod_eq_of_lt h.bounded
  have hin : ∀ i, baseOf c / 16 * 16 - FRAME_SIZE ≤ i → i < baseOf c / 16 * 16 →
      inStack c i := by
    intro i hi hlt
    exact ⟨by omega, by omega⟩
  have hapart : Apart (baseOf c / 16 * 16 - FRAME_SIZE) FRAME_SIZE (s.rsp.toNat - 8) 16 := by
    by_contra hover
    have hlow := h.low
    unfold Apart at hover
    have hown := h.own (max (baseOf c / 16 * 16 - FRAME_SIZE) (s.rsp.toNat - 8)) (by omega)
      (by omega)
    exact hown.2 (hin _ (by omega) (by omega))
  have hspec := setupStackFrame_spec (s := s) h.low h.high (by rw [hrdi]; omega)
    (by rw [hrdi]; exact hapart)
  rw [hrdi] at hspec
  obtain ⟨-, hframed, -, -, -, hspares⟩ := hspec
  refine ⟨hframed, hspares.mono ?_⟩
  intro i hi
  have hnew : ¬ inStack c i := fun hic => h.apart i hic (hforeign i hi)
  have hnot : ¬ (s.rsp.toNat - 8 ≤ i ∧ i < s.rsp.toNat + 8) := fun ⟨h1, h2⟩ => (h.own i h1 h2).1 hi
  have hout : ¬ (baseOf c / 16 * 16 - FRAME_SIZE ≤ i ∧ i < baseOf c / 16 * 16) :=
    fun ⟨h1, h2⟩ => hnew (hin i h1 h2)
  have hlow := h.low
  unfold Apart
  omega

theorem implements_create (hn : Serves H NODE_SIZE) (h : Implements m v) (g : Gate) {rip : Addr}
    {args : Args} {argc : Int} {priority : Nat}
    {fds : Option (Fin CANT_FILE_DESCRIPTORS → Int)} {ground : Nat} {s : processor.State}
    (hok : Allowed m (.create rip args argc priority fds ground s)) :
    m.scheduler.pcbQty ≤
        (step g m (.create rip args argc priority fds ground s)).scheduler.pcbQty ∧
      Implements (step g m (.create rip args argc priority fds ground s))
        (run act v (trace m (.create rip args argc priority fds ground s))) := by
  obtain ⟨hcode, hsets⟩ := hok
  have hinv : Inv (createProcess m.scheduler rip args argc priority fds ground).2.view :=
    inv_exec hn m.scheduler (.createProcess rip args argc priority fds ground) h.inv trivial
  have hstacks := createProcess_stacks m.scheduler (h.inv.core.fresh _ le_rfl) rip args argc
    priority fds ground
  dsimp only at hstacks
  generalize hr : createProcess m.scheduler rip args argc priority fds ground = r at *
  rcases hstacks with ⟨hfails, hkeeps⟩ | ⟨hcreates, hspawns⟩
  · have hstep : step g m (.create rip args argc priority fds ground s) =
        ⟨s, m.kernel.setScheduler r.2⟩ := by
      simp only [step, hr, hfails, if_true]
    have htrace : trace m (.create rip args argc priority fds ground s) = works m s := by
      simp only [trace, hr, hfails, if_true]
    rw [htrace, hstep]
    have himplements := implements_code h hcode
    exact ⟨hkeeps.qty, himplements.keeps (k := m.kernel.setScheduler r.2) hinv h.unlocked hkeeps⟩
  · have hne : r.1 ≠ -1 := by omega
    have hsetup := hsets hne
    obtain ⟨hframed, hspares⟩ := hsetup.spec (fun i ⟨p, hp, _, hin⟩ => ⟨p, hp, hin⟩)
      hspawns.prepared.base
    obtain ⟨t, ht⟩ : ∃ t, run exec s setupStackFrame = t := ⟨_, rfl⟩
    rw [ht] at hframed hspares
    have hstep : step g m (.create rip args argc priority fds ground s) =
        ⟨t, m.kernel.setScheduler r.2⟩ := by
      simp only [step, hr, if_neg hne, ht]
    have htrace : trace m (.create rip args argc priority fds ground s) =
        works m t ++ [.spawn m.scheduler.pcbQty (contextOf ⟨startCpu s, t.memory⟩
          (baseOf (r.2.pcb m.scheduler.pcbQty)))] := by
      simp only [trace, hr, if_neg hne, ht]
    have hpos : posOf (r.2.pcb m.scheduler.pcbQty) =
        baseOf (r.2.pcb m.scheduler.pcbQty) / 16 * 16 - FRAME_SIZE := hspawns.prepared.pos
    rw [← hpos] at hframed
    have himplements := implements_code h (hcode.trans hspares)
    rw [htrace, hstep, runs.run_append]
    refine ⟨Nat.le_of_lt (Nat.lt_of_succ_le hspawns.qty.ge), ?_⟩
    exact himplements.spawns hspawns hinv (startCpu s) hsetup.stackBase hframed hsetup.bounded
      (fun p hp i hi hin => hsetup.apart i hi ⟨p, hp, hin⟩)

theorem implements_step (hn : Serves H NODE_SIZE) (h : Implements m v) (g : Gate) {e : Event}
    (hok : Allowed m e) : m.scheduler.pcbQty ≤ (step g m e).scheduler.pcbQty ∧
      Implements (step g m e) (run act v (trace m e)) := by
  cases e with
  | code s => exact ⟨le_rfl, implements_code h hok⟩
  | call c x y => exact (implements_call hn h g hok).2
  | irq n x => exact ⟨le_rfl, implements_irq h g n hok⟩
  | create rip args argc priority fds ground s => exact implements_create hn h g hok

end Events

/-! ## Every run -/

section Runs

variable {m : Machine H} {v : Shared Pcb Context}

theorem implements_run (hn : Serves H NODE_SIZE) (h : Implements m v) (g : Gate)
    {es : List Event} (hok : Meets (step g) Allowed m es) :
    m.scheduler.pcbQty ≤ (run (step g) m es).scheduler.pcbQty ∧
      Implements (run (step g) m es) (follow g v m es) := by
  induction es generalizing m v with
  | nil => exact ⟨le_rfl, h⟩
  | cons e es ih =>
    rw [meets_cons] at hok
    obtain ⟨hqty, hfirst⟩ := implements_step hn h g hok.1
    obtain ⟨hqty', hrest⟩ := ih hfirst hok.2
    rw [run_cons, follow]
    exact ⟨hqty.trans hqty', hrest⟩

/-- The machine when `setupStackFrame` comes back for idle. It was called in the state `s`. -/
structure Boots (m : Machine H) (s : processor.State) : Prop where
  kernel : ∃ scheduler, Booted scheduler ∧ initSemaphoreManager scheduler = some m.kernel
  state : m.state = run exec s setupStackFrame
  setsUp : SetsUp (fun _ => False) (fun _ => False) s (m.pcb 0)

theorem implements_boot (hn : Serves H NODE_SIZE) {s : processor.State} (h : Boots m s) :
    Implements m ⟨none, fun _ => contextOf ⟨startCpu s, m.state.memory⟩ (baseOf (m.pcb 0))⟩ := by
  obtain ⟨scheduler, hbooted, hinit⟩ := h.kernel
  have hinv := inv_booted hn hbooted
  have halone := booted_alone hn hbooted
  unfold initSemaphoreManager at hinit
  split at hinit
  · cases hinit
  rename_i heap _
  have hk := (Option.some.inj hinit).symm
  have hview : m.scheduler.view = scheduler.view := by
    rw [Machine.scheduler, hk]
    rfl
  have hlive : ∀ p, Live m.scheduler p → p = 0 := by
    intro p hp
    rw [Machine.scheduler, hk] at hp
    exact halone.live p hp
  have hcurrent : m.current = none := by
    rw [Machine.current, hk]
    exact halone.current
  have hprepared : ∃ rip, Prepared rip 1 (m.pcb 0) := by
    rw [Machine.pcb, hk]
    exact halone.prepared
  obtain ⟨rip, hprepared⟩ := hprepared
  obtain ⟨hframed, -⟩ := h.setsUp.spec (fun _ hi => hi) hprepared.base
  have hpos : posOf (m.pcb 0) = baseOf (m.pcb 0) / 16 * 16 - FRAME_SIZE := hprepared.pos
  rw [← h.state, ← hpos] at hframed
  refine ⟨hview ▸ hinv, ?_, hcurrent.symm, ?_, ?_, ?_, ?_⟩
  · intro id
    rw [hk]
  · intro p hp
    rw [hcurrent] at hp
    cases hp
  · intro p hp _
    rw [hlive p hp]
    exact parked_new hprepared h.setsUp.stackBase h.setsUp.bounded hframed
  · intro p q hp hq hne
    exact absurd ((hlive p hp).trans (hlive q hq).symm) hne
  · intro p hp
    rw [hlive p hp]
    exact h.setsUp.bounded

/-! ### A machine with a heap that never runs out -/

def endlessGate : Gate := ⟨8, 0x5000⟩

/-- The state in which `setupStackFrame` is called for idle. -/
def idleSetup : processor.State :=
  ⟨⟨fun | .rdi | .rcx => 8416 | .rsi | .rdx => 1 | .rsp => 0x100000 | _ => 0, 0, 0, 0, 0⟩,
    ⟨fun _ => 0, []⟩⟩

def endlessMachine : Machine Endless := ⟨run exec idleSetup setupStackFrame, endlessSystem.kernel⟩

def ticked : Event := .call (.scheduler (.schedule 0)) ⟨fun _ => 0, 0, []⟩ ⟨fun _ => 0, 0, []⟩

/-- The machine once idle runs. -/
def idleRuns : Machine Endless := step endlessGate endlessMachine ticked

/-- And for a process that idle creates. -/
def childSetup : processor.State :=
  ⟨⟨fun | .rdi | .rcx => 14746 | .rsi => 2 | .rsp => 8000 | _ => 0, 0, 0, 0, 0⟩,
    idleRuns.state.memory⟩

theorem live_zero {s : Scheduler Endless} (hqty : s.pcbQty = 1) {p : Pcb} (hp : Live s p) :
    p = 0 := by
  have hlt := hp.1
  rw [hqty] at hlt
  exact Nat.lt_one_iff.mp hlt

theorem boots_endlessMachine : Boots endlessMachine idleSetup where
  kernel := by
    obtain ⟨scheduler, hbooted, hinit, -⟩ := booted_endlessSystem
    exact ⟨scheduler, hbooted, hinit⟩
  state := rfl
  setsUp := by
    have hbase : baseOf (endlessMachine.pcb 0) = 8416 := by decide +kernel
    have hpcb : idleSetup.reg .rsi = BitVec.ofNat 64 (endlessMachine.pcb 0).rip ∧
        (idleSetup.reg .rdx).setWidth 32 = BitVec.ofInt 32 (endlessMachine.pcb 0).argc ∧
        ∀ argv ∈ (endlessMachine.pcb 0).argv, idleSetup.reg .rcx = BitVec.ofNat 64 argv.array := by
      decide +kernel
    refine ⟨?_, hpcb.1, hpcb.2.1, hpcb.2.2, ?_, fun i _ => not_false, ?_, ?_, ?_⟩
    · rw [hbase]
      rfl
    · rw [hbase]
      decide
    · decide
    · decide
    · intro i hi _
      have hrsp : idleSetup.rsp.toNat = 1048576 := rfl
      refine ⟨not_false, ?_⟩
      unfold inStack
      rw [hbase]
      omega

def created : Event := .create 2 none 0 1 none 0 childSetup

def childWaits : Machine Endless := step endlessGate idleRuns created

theorem allowed_endlessMachine : Allowed endlessMachine ticked := by
  have hboot : framePos endlessMachine.state = 1048416 ∧ endlessMachine.current = none ∧
      endlessMachine.scheduler.pcbQty = 1 ∧ baseOf (endlessMachine.pcb 0) = 8416 ∧
      endlessMachine.state.rsp.toNat / 16 * 16 = 1048576 := by decide +kernel
  obtain ⟨hpos, hcurrent, hqty, hbase, hrsp⟩ := hboot
  refine ⟨rfl, trivial, fun _ => ?_⟩
  unfold Room
  rw [hcurrent, hpos, hrsp]
  refine ⟨by decide, ?_⟩
  rintro i hi - ⟨p, hp, -, hin⟩
  rw [live_zero hqty hp] at hin
  unfold inStack at hin
  rw [hbase] at hin
  have hlow : 1048416 ≤ i := hi
  omega

theorem allowed_ticked {m : Machine Endless} {p : Pcb} (hcurrent : m.current = some p)
    (hroom : FRAME_SIZE ≤ m.state.rsp.toNat / 16 * 16 ∧
      baseOf (m.pcb p) - STACK_SIZE ≤ framePos m.state ∧
      framePos m.state + FRAME_SIZE ≤ baseOf (m.pcb p)) : Allowed m ticked := by
  refine ⟨rfl, trivial, fun _ => ?_⟩
  unfold Room
  rw [hcurrent]
  simpa using hroom

/-- The process that idle creates. -/
def child : ProcessContext := (createProcess idleRuns.scheduler 2 none 0 1 none 0).2.pcb 1

theorem setsUp_child : SetsUp (Used idleRuns) (Foreign idleRuns) childSetup child := by
  have hchild : baseOf child = 14746 ∧ child.rip = 2 ∧ child.argc = 0 ∧
      child.argv.map (·.array) = some 14746 := by decide +kernel
  have hmachine : idleRuns.scheduler.pcbQty = 1 ∧ baseOf (idleRuns.pcb 0) = 8416 ∧
      idleRuns.current = some 0 := by decide +kernel
  obtain ⟨hbase, hrip, hargc, hargv⟩ := hchild
  obtain ⟨hqty, hidle, hcurrent⟩ := hmachine
  have hused : ∀ i, Used idleRuns i → i < 8416 := by
    rintro i ⟨p, hp, -, hin⟩
    rw [live_zero hqty hp, hidle] at hin
    exact hin
  have hstack : ∀ i, inStack child i → 10650 ≤ i := by
    intro i hi
    have hlow := hi.1
    rw [hbase] at hlow
    exact hlow
  refine ⟨?_, ?_, ?_, ?_, ?_, ?_, by decide, by decide, ?_⟩
  · rw [hbase]
    rfl
  · rw [hrip]
    rfl
  · rw [hargc]
    rfl
  · intro argv hin
    have harray : argv.array = 14746 := by simpa [Option.mem_def.mp hin] using hargv
    rw [harray]
    rfl
  · rw [hbase]
    decide
  · intro i hi hin
    have hlow := hstack i hi
    have hhigh := hused i hin
    omega
  · intro i _ hlt
    have hrsp : childSetup.rsp.toNat = 8000 := rfl
    constructor
    · rintro ⟨p, hp, hne, -⟩
      exact hne (live_zero hqty hp ▸ hcurrent)
    · intro hin
      have hlow := hstack i hin
      omega

theorem allowed_idleRuns : Allowed idleRuns created := by
  have hqty : idleRuns.scheduler.pcbQty = 1 := by decide +kernel
  have hmemory : childSetup.memory = idleRuns.state.memory := by
    simp only [childSetup]
  refine ⟨?_, ?_⟩
  · rw [hmemory]
    exact Spares.refl _
  intro _
  have hsetup := setsUp_child
  unfold child at hsetup
  rw [← hqty] at hsetup
  exact hsetup

/-- Idle is interrupted, and creates a process that goes on. -/
theorem allowed_creation :
    Meets (step endlessGate) Allowed endlessMachine [ticked, created, ticked] := by
  have hwaits : Allowed childWaits ticked := allowed_ticked (p := 0) (by decide +kernel)
    (by decide +kernel)
  simp only [meets_cons]
  exact ⟨allowed_endlessMachine, allowed_idleRuns, hwaits, trivial⟩

theorem allowed_return :
    Meets (step endlessGate) Allowed endlessMachine [ticked, created, ticked, ticked] := by
  have hwaits : Allowed childWaits ticked := allowed_ticked (p := 0) (by decide +kernel)
    (by decide +kernel)
  have hruns : Allowed (step endlessGate childWaits ticked) ticked :=
    allowed_ticked (p := 1) (by decide +kernel) (by decide +kernel)
  simp only [meets_cons]
  exact ⟨allowed_endlessMachine, allowed_idleRuns, hwaits, hruns, trivial⟩

/-! ### The processes -/

/-- The code that runs is not that of `p`. -/
def Waits (p : Pcb) (m : Machine H) : Event → Prop
  | .code _ | .create .. => m.current ≠ some p
  | .call .. | .irq .. => True

theorem trace_rests (h : Implements m v) {p : Pcb} (hp : p < m.scheduler.pcbQty)
    {e : Event} (hwaits : Waits p m e) : Meets act (Rests p) v (trace m e) := by
  have hworks : m.current ≠ some p → ∀ s, Meets act (Rests p) v (works m s) := by
    intro hne s
    have hv : v.current ≠ some p := fun he => hne (h.current ▸ he)
    unfold works
    cases m.current with
    | none => trivial
    | some q => exact ⟨hv, trivial⟩
  cases e with
  | code s => exact hworks hwaits s
  | call c x y =>
    simp only [trace]
    split
    · trivial
    · exact ⟨trivial, trivial⟩
  | irq n x => exact trivial
  | create rip args argc priority fds ground s =>
    simp only [trace]
    split
    · exact hworks hwaits _
    · apply (meets_append act (Rests p) v _ _).mpr
      refine ⟨hworks hwaits _, ?_, trivial⟩
      exact Nat.ne_of_gt hp

/-- A process that is there keeps its context as long as others work. -/
theorem follow_rests (hn : Serves H NODE_SIZE) (h : Implements m v) (g : Gate) {p : Pcb}
    (hp : p < m.scheduler.pcbQty) {es : List Event} (hok : Meets (step g) Allowed m es)
    (hwaits : Meets (step g) (Waits p) m es) : (follow g v m es).contexts p = v.contexts p := by
  induction es generalizing m v with
  | nil => rfl
  | cons e es ih =>
    rw [meets_cons] at hok hwaits
    obtain ⟨hqty, hnext⟩ := implements_step hn h g hok.1
    rw [follow, ih hnext (Nat.lt_of_lt_of_le hp hqty) hok.2 hwaits.2]
    exact run_rests (trace_rests h hp hwaits.1)

omit [MemoryManager H] in
theorem bytes_of_contextOf {s t : processor.State} {base base' : Nat}
    (h : contextOf t base' = contextOf s base) : t.cpu = s.cpu ∧
      ∀ i, s.rsp.toNat / 16 * 16 ≤ i → i < base → t.memory.bytes i = s.memory.bytes i := by
  have hcpu : t.cpu = s.cpu := congrArg Context.cpu h
  have hrsp : t.rsp = s.rsp := congrArg (Cpu.regs · .rsp) hcpu
  have hload := congrArg Context.stack h
  simp only [contextOf, hrsp] at hload
  refine ⟨hcpu, ?_⟩
  intro i hi hlt
  generalize s.rsp.toNat / 16 * 16 = a at *
  have hbytes := congrArg (fun bs => bs[i - a]?) hload
  have hlength := congrArg List.length hload
  rw [Memory.length_load, Memory.length_load] at hlength
  have hin : i - a < base - a := by omega
  have hin' : i - a < base' - a := by omega
  simpa [Memory.load, hin, hin', Nat.add_sub_cancel' hi] using hbytes

/-! ### The kernel -/

/-- The calls of the kernel, with the stack pointers that the handler saves. -/
def calls (m : Machine H) : Event → List Call
  | .code _ => []
  | .call c _ _ => [c.saving (framePos m.state)]
  | .irq _ _ => []
  | .create rip args argc priority fileDescriptors ground _ =>
    [.scheduler (.createProcess rip args argc priority fileDescriptors ground)]

def callsOf (g : Gate) (m : Machine H) : List Event → List Call
  | [] => []
  | e :: es => calls m e ++ callsOf g (step g m e) es

theorem kernel_step (hn : Serves H NODE_SIZE) (h : Implements m v) (g : Gate) {e : Event}
    (hok : Allowed m e) : (step g m e).kernel = run after m.kernel (calls m e) := by
  cases e with
  | code s => rfl
  | call c x y => exact (implements_call hn h g hok).1
  | irq n x => rfl
  | create rip args argc priority fds ground s => rfl

/-- The machine gives each process a processor: it holds the registers and the stack of each
one, and its kernel is that of the calls, one after the other. -/
theorem the_machine_gives_each_process_a_processor (hn : Serves H NODE_SIZE) (g : Gate)
    {s : processor.State} (hboots : Boots m s) {es : List Event}
    (hok : Meets (step g) Allowed m es) :
    Implements (run (step g) m es) (follow g
        ⟨none, fun _ => contextOf ⟨startCpu s, m.state.memory⟩ (baseOf (m.pcb 0))⟩ m es) ∧
      (run (step g) m es).kernel = run after m.kernel (callsOf g m es) := by
  have hstart := implements_boot hn hboots
  refine ⟨(implements_run hn hstart g hok).2, ?_⟩
  clear hboots
  generalize Shared.mk none _ = v at hstart
  induction es generalizing m v with
  | nil => rfl
  | cons e es ih =>
    rw [meets_cons] at hok
    have hnext := (implements_step hn hstart g hok.1).2
    rw [run_cons, callsOf, runs.run_append, ← kernel_step hn hstart g hok.1]
    exact ih hok.2 _ hnext

/-- Idle creates a process and is interrupted. -/
theorem the_machine_gives_each_process_a_processor_of_a_creation :
    Implements (run (step endlessGate) endlessMachine [ticked, created, ticked])
        (follow endlessGate ⟨none, fun _ => contextOf ⟨startCpu idleSetup,
          endlessMachine.state.memory⟩ (baseOf (endlessMachine.pcb 0))⟩ endlessMachine
          [ticked, created, ticked]) ∧
      (run (step endlessGate) endlessMachine [ticked, created, ticked]).kernel =
        run after endlessMachine.kernel
          (callsOf endlessGate endlessMachine [ticked, created, ticked]) :=
  the_machine_gives_each_process_a_processor (endless_serves _) endlessGate boots_endlessMachine
    allowed_creation

/-- Between two moments at which a process runs, the others and the kernel leave its registers
as they were, and its stack from its stack pointer on. -/
theorem a_process_goes_on_where_it_was (hn : Serves H NODE_SIZE) (g : Gate)
    {s : processor.State} (hboots : Boots m s) {before after : List Event}
    (hok : Meets (step g) Allowed m (before ++ after)) {p : Pcb}
    (hp : (run (step g) m before).current = some p)
    (hwaits : Meets (step g) (Waits p) (run (step g) m before) after)
    (hback : (run (step g) m (before ++ after)).current = some p) :
    let old := run (step g) m before
    let new := run (step g) m (before ++ after)
    new.state.cpu = old.state.cpu ∧
      ∀ i, old.state.rsp.toNat / 16 * 16 ≤ i → i < baseOf (old.pcb p) →
        new.state.memory.bytes i = old.state.memory.bytes i := by
  have hstart := implements_boot hn hboots
  rw [meets_append] at hok
  obtain ⟨-, hbefore⟩ := implements_run hn hstart g hok.1
  obtain ⟨-, hafter⟩ := implements_run hn hbefore g hok.2
  rw [runs.run_append] at hback ⊢
  have hkept := follow_rests hn hbefore g (hbefore.live hp).1 hok.2 hwaits
  rw [hafter.running p hback, hbefore.running p hp] at hkept
  exact bytes_of_contextOf hkept

/-- Idle creates a process, which runs and gives the processor back. -/
theorem a_process_goes_on_where_it_was_of_a_creation :
    let old := run (step endlessGate) endlessMachine [ticked, created]
    let new := run (step endlessGate) endlessMachine ([ticked, created] ++ [ticked, ticked])
    new.state.cpu = old.state.cpu ∧
      ∀ i, old.state.rsp.toNat / 16 * 16 ≤ i → i < baseOf (old.pcb 0) →
        new.state.memory.bytes i = old.state.memory.bytes i :=
  a_process_goes_on_where_it_was (endless_serves _) endlessGate boots_endlessMachine
    allowed_return (by decide +kernel) ⟨trivial, trivial, trivial⟩ (by decide +kernel)

/-- A process begins at its function, with its arguments, an empty stack and interrupts on. -/
theorem a_new_process_begins_at_its_function (hn : Serves H NODE_SIZE) (g : Gate)
    {s t : processor.State} (hboots : Boots m s) {before after : List Event} {rip : Addr}
    {args : Args} {argc : Int} {priority : Nat}
    {fds : Option (Fin CANT_FILE_DESCRIPTORS → Int)} {ground : Nat}
    (hok : Meets (step g) Allowed m
      (before ++ .create rip args argc priority fds ground t :: after))
    (hcreated : (createProcess (run (step g) m before).scheduler rip args argc priority fds
      ground).1 ≠ -1)
    (hwaits : Meets (step g) (Waits (run (step g) m before).scheduler.pcbQty)
      (run (step g) m (before ++ [.create rip args argc priority fds ground t])) after)
    (hruns : (run (step g) m
      (before ++ .create rip args argc priority fds ground t :: after)).current =
        some (run (step g) m before).scheduler.pcbQty) :
    let old := run (step g) m before
    let pcb := (createProcess old.scheduler rip args argc priority fds ground).2.pcb
      old.scheduler.pcbQty
    let cpu := (run (step g) m
      (before ++ .create rip args argc priority fds ground t :: after)).state.cpu
    cpu.rip = BitVec.ofNat 64 rip ∧ (cpu.regs .rdi).setWidth 32 = BitVec.ofInt 32 argc ∧
      (∃ argv, pcb.argv = some argv ∧ cpu.regs .rsi = BitVec.ofNat 64 argv.array) ∧
      cpu.regs .rsp = BitVec.ofNat 64 pcb.stackBase ∧
      cpu.rflags = 0x202 ∧ cpu.cs = 0x8 ∧ cpu.ss = 0x0 := by
  intro old pcb cpu
  have hstart := implements_boot hn hboots
  rw [meets_append] at hok
  obtain ⟨hok, hok'⟩ := hok
  rw [meets_cons] at hok'
  obtain ⟨-, hbefore⟩ := implements_run hn hstart g hok
  obtain ⟨-, hnext⟩ := implements_step hn hbefore g hok'.1
  obtain ⟨-, hafter⟩ := implements_run hn hnext g hok'.2
  have hspawns := (createProcess_stacks old.scheduler (hbefore.inv.core.fresh _ le_rfl) rip args
    argc priority fds ground).resolve_left fun hfails => hcreated hfails.1
  have hsetup := hok'.1.2 hcreated
  have hprepared := hspawns.2.prepared
  have hqty : old.scheduler.pcbQty <
      (step g old (.create rip args argc priority fds ground t)).scheduler.pcbQty := by
    have hmore := hspawns.2.qty
    exact Nat.lt_of_succ_le hmore.ge
  have hspawn : trace old (.create rip args argc priority fds ground t) =
      works old (run exec t setupStackFrame) ++ [.spawn old.scheduler.pcbQty
        (contextOf ⟨startCpu t, (run exec t setupStackFrame).memory⟩ (baseOf pcb))] := by
    simp only [trace]
    exact if_neg hcreated
  rw [runs.run_append, run_cons] at hruns
  rw [runs.run_append, run_cons, run_nil] at hwaits
  have hkept := follow_rests hn hnext g hqty hok'.2 hwaits
  rw [hafter.running _ hruns, hspawn, runs.run_append, run_cons, run_nil,
    contexts_spawn_self] at hkept
  have hcpu : cpu = startCpu t := by
    have hsame := congrArg Context.cpu hkept
    simp only [cpu, runs.run_append, run_cons]
    exact hsame
  have hargv : ∃ argv, pcb.argv = some argv := Option.isSome_iff_exists.mp hprepared.argv
  obtain ⟨argv, hargv⟩ := hargv
  rw [hcpu]
  refine ⟨?_, ?_, ⟨argv, hargv, hsetup.args argv hargv⟩, hsetup.stackBase, rfl, rfl, rfl⟩
  · rw [← hprepared.rip]
    exact hsetup.code
  · rw [← hprepared.argc]
    exact hsetup.argc

/-- It is the process that idle creates. -/
theorem a_new_process_begins_at_its_function_of_a_creation :
    let pcb := (createProcess (run (step endlessGate) endlessMachine [ticked]).scheduler 2 none 0 1
      none 0).2.pcb (run (step endlessGate) endlessMachine [ticked]).scheduler.pcbQty
    let cpu := (run (step endlessGate) endlessMachine ([ticked] ++ created :: [ticked])).state.cpu
    cpu.rip = BitVec.ofNat 64 2 ∧ (cpu.regs .rdi).setWidth 32 = BitVec.ofInt 32 0 ∧
      (∃ argv, pcb.argv = some argv ∧ cpu.regs .rsi = BitVec.ofNat 64 argv.array) ∧
      cpu.regs .rsp = BitVec.ofNat 64 pcb.stackBase ∧
      cpu.rflags = 0x202 ∧ cpu.cs = 0x8 ∧ cpu.ss = 0x0 :=
  a_new_process_begins_at_its_function (endless_serves _) endlessGate boots_endlessMachine
    allowed_creation (by decide +kernel) ⟨trivial, trivial⟩ (by decide +kernel)

end Runs

end bare_bones.machine
