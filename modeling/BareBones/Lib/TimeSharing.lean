-- Many contexts that share one processor: each process has a context of its own, and the
-- current one goes on in its context. A context changes by the work of its process only.
import BareBones.Lib.Runs
import Mathlib.Logic.Function.Basic

namespace time_sharing

open runs

variable {P C : Type*} [DecidableEq P]

structure Shared (P C : Type*) where
  current : Option P
  contexts : P → C

inductive Act (P C : Type*)
  /-- The current process goes on, to the context `c`. -/
  | work (c : C)
  /-- Another process goes on from now on, or the same, or none. -/
  | switch (next : Option P)
  /-- A process begins. -/
  | spawn (p : P) (c : C)

def act (s : Shared P C) : Act P C → Shared P C
  | .work c =>
    match s.current with
    | none => s
    | some p => { s with contexts := Function.update s.contexts p c }
  | .switch next => { s with current := next }
  | .spawn p c => { s with contexts := Function.update s.contexts p c }

@[simp] theorem contexts_spawn_self (s : Shared P C) (p : P) (c : C) :
    (act s (.spawn p c)).contexts p = c :=
  Function.update_self ..

theorem contexts_spawn_ne (s : Shared P C) {p q : P} (c : C) (h : q ≠ p) :
    (act s (.spawn p c)).contexts q = s.contexts q :=
  Function.update_of_ne h ..

/-- The process does not work, and no process begins in its place. -/
def Rests (p : P) (s : Shared P C) : Act P C → Prop
  | .work _ => s.current ≠ some p
  | .switch _ => True
  | .spawn q _ => q ≠ p

theorem act_rests {p : P} {s : Shared P C} {a : Act P C} (h : Rests p s a) :
    (act s a).contexts p = s.contexts p := by
  cases a with
  | work c =>
    unfold act
    cases hc : s.current with
    | none => rfl
    | some q =>
      apply Function.update_of_ne
      intro he
      exact h (he ▸ hc)
  | switch next => rfl
  | spawn q c => exact contexts_spawn_ne s c (Ne.symm h)

/-- A process that rests finds its context as it left it. -/
theorem run_rests {p : P} {s : Shared P C} {acts : List (Act P C)}
    (h : Meets act (Rests p) s acts) : (run act s acts).contexts p = s.contexts p := by
  induction acts generalizing s with
  | nil => rfl
  | cons a acts ih =>
    obtain ⟨hfirst, hrest⟩ := h
    rw [run_cons, ih hrest, act_rests hfirst]

end time_sharing
