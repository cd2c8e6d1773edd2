-- Programs that run on the kernel: the current process takes the next step of
-- its program, which may make calls; in between come ticks and other calls.
import BareBones.SemaphoreHistory
import Mathlib.Algebra.BigOperators.Group.Finset.Basic

namespace bare_bones.program

open bare_bones.process bare_bones.scheduler bare_bones.semaphore runs

variable {H L G : Type}

/-- A program with locals `L` on a shared memory `G`: the calls that its next
step makes, in their order, and what the step makes of the locals and of the
shared memory. -/
abbrev Program (H L G : Type) := System H → Pcb → L → G → Addr → List Call × L × G

structure Machine (H L G : Type) where
  system : System H
  locals : Pcb → L
  shared : G

inductive Event
  /-- The current process takes its next step. `rsp` is its stack pointer. -/
  | run (rsp : Addr)
  /-- A tick, or a call that is not of the program. -/
  | other (c : Call)

variable [MemoryManager H]

def next (P : Program H L G) (m : Machine H L G) : Event → Machine H L G
  | .run rsp =>
    match m.system.scheduler.currentProcess with
    | none => m
    | some p =>
      let (calls, l, g) := P m.system p (m.locals p) m.shared rsp
      ⟨run step m.system calls, Function.update m.locals p l, g⟩
  | .other c => { m with system := step m.system c }

/-- The calls of the program meet `own`, the calls in between `others`. -/
def Allows (P : Program H L G) (own others : System H → Call → Prop) (m : Machine H L G) :
    Event → Prop
  | .run rsp => ∀ p ∈ m.system.scheduler.currentProcess,
      Meets step own m.system (P m.system p (m.locals p) m.shared rsp).1
  | .other c => others m.system c

instance (P : Program H L G) (own others : System H → Call → Prop)
    [∀ s c, Decidable (own s c)] [∀ s c, Decidable (others s c)] (m : Machine H L G) (e : Event) :
    Decidable (Allows P own others m e) :=
  match e with
  | .run rsp => inferInstanceAs (Decidable (∀ p ∈ m.system.scheduler.currentProcess,
      Meets step own m.system (P m.system p (m.locals p) m.shared rsp).1))
  | .other c => inferInstanceAs (Decidable (others m.system c))

omit [MemoryManager H] in
/-- A sum over the processes when one of them moves. -/
theorem tally_update {M : Type*} [AddCommMonoid M] (f : L → M) {ps : Finset Pcb}
    (locals : Pcb → L) {p : Pcb} (hp : p ∈ ps) (l : L) :
    ∑ q ∈ ps, f (Function.update locals p l q) + f (locals p) =
      ∑ q ∈ ps, f (locals q) + f l := by
  have hrest : ∑ q ∈ ps.erase p, f (Function.update locals p l q) =
      ∑ q ∈ ps.erase p, f (locals q) :=
    Finset.sum_congr rfl fun q hq => by rw [Function.update_of_ne (Finset.ne_of_mem_erase hq)]
  rw [← Finset.add_sum_erase ps _ hp, ← Finset.add_sum_erase ps (fun q => f (locals q)) hp,
    Function.update_self, hrest, add_right_comm, add_comm (f l), add_right_comm]

end bare_bones.program
