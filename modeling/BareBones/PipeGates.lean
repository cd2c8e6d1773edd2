-- The three semaphores of a pipe as gates that its readers and writers pass:
-- what a wait or a post at one gate does to all three.
import BareBones.Pipes
import BareBones.SemaphoreAccounting
import Mathlib.Data.Fintype.Basic

namespace bare_bones.pipe_manager

open bare_bones.doubleLinkedList bare_bones.process bare_bones.scheduler bare_bones.semaphore
open bare_bones.program runs ring_buffer token_semaphore

variable {H : Type}

/-- `semReaders`, `semWriters` and `mutex`. -/
inductive Gate
  | readers | writers | mutex
deriving DecidableEq

instance : Fintype Gate := ⟨{.readers, .writers, .mutex}, fun g => by cases g <;> decide⟩

def Pipe.sem (pipe : Pipe) : Gate → Int
  | .readers => pipe.semReaders
  | .writers => pipe.semWriters
  | .mutex => pipe.mutex

/-- The initial values that `createPipe` gives. -/
def capacity : Gate → Nat
  | .readers => 0
  | .writers => PIPE_BUFFER_SIZE
  | .mutex => 1

/-- The tokens that a gate has in the counter and with those who passed it. -/
def Pipe.tokens (pipe : Pipe) : Gate → Nat
  | .readers => pipe.count
  | .writers => PIPE_BUFFER_SIZE - pipe.count
  | .mutex => 1

/-- The gate that a call waits at for each byte, before the mutex. -/
def Way.gate : Way → Gate
  | .read => .readers
  | .write => .writers

/-- The gate that a call posts at for each byte, after the mutex. -/
def Way.posts : Way → Gate
  | .read => .writers
  | .write => .readers

/-! ## Waits and posts -/

structure Gates (ids : Gate → Int) (s : System H) : Prop where
  sound : Sound s
  counts : ∀ g, Counts (capacity g) (ids g) s

section Calls

variable [MemoryManager H] {ids : Gate → Int} {s : System H}

/-- The run is about the pipe only: nobody at its gates is killed or woken from
elsewhere. -/
def ownCall (ids : Gate → Int) (s : System H) (c : Call) : Prop :=
  ∀ g, undisturbed (ids g) s c

/-- The calls in between do not use the semaphores of the pipe. -/
def otherCall (ids : Gate → Int) (s : System H) (c : Call) : Prop :=
  ownCall ids s c ∧ ∀ g, ¬ names (ids g) c

instance (s : System H) (c : Call) : Decidable (ownCall ids s c) :=
  inferInstanceAs (Decidable (∀ g, undisturbed (ids g) s c))

instance (s : System H) (c : Call) : Decidable (otherCall ids s c) :=
  inferInstanceAs (Decidable (ownCall ids s c ∧ ∀ g, ¬ names (ids g) c))

theorem gates_other (hn : Serves H NODE_SIZE) (h : Gates ids s) {c : Call}
    (hok : otherCall ids s c) :
    Gates ids (step s c) ∧ ∀ g, (step s c).tokens (ids g) = s.tokens (ids g) := by
  have hcall : ∀ g, (step s c).tokens (ids g) = s.tokens (ids g) ∧ _ ∧
      Counts (capacity g) (ids g) (step s c) := fun g =>
    counts_other hn h.sound (h.counts g) (hok.1 g) (fun rsp hc => hok.2 g (hc ▸ rfl))
      (fun hc => hok.2 g (hc ▸ rfl))
  exact ⟨⟨sound_step hn s c h.sound (hok.1 .mutex).1, fun g => (hcall g).2.2⟩,
    fun g => (hcall g).1⟩

omit [MemoryManager H] in
/-- A call at one gate: what it does there, and that the other gates stay as they are. -/
theorem gates_at {s' : System H} (hsound : Sound s') {g : Gate} {t : Tokens Pcb}
    (hself : s'.tokens (ids g) = t ∧ Counts (capacity g) (ids g) s')
    (hne : ∀ g', g' ≠ g →
      s'.tokens (ids g') = s.tokens (ids g') ∧ Counts (capacity g') (ids g') s') :
    Gates ids s' ∧ ∀ g', s'.tokens (ids g') = if g' = g then t else s.tokens (ids g') := by
  refine ⟨⟨hsound, fun g' => ?_⟩, fun g' => ?_⟩
  · by_cases hg : g' = g
    · rw [hg]
      exact hself.2
    · exact (hne g' hg).2
  · split
    · rename_i hg
      rw [hg]
      exact hself.1
    · rename_i hg
      exact (hne g' hg).1

theorem gates_wait (hn : Serves H NODE_SIZE) (hm : Serves H PID_SIZE)
    (hids : Function.Injective ids) (h : Gates ids s) {g : Gate} {rsp : Addr} {p : Pcb}
    (hok : ownCall ids s (.sem_wait (ids g) rsp))
    (hcur : s.scheduler.currentProcess = some p) :
    Gates ids (step s (.sem_wait (ids g) rsp)) ∧ ∀ g',
      (step s (.sem_wait (ids g) rsp)).tokens (ids g') =
        if g' = g then (s.tokens (ids g)).wait p else s.tokens (ids g') := by
  obtain ⟨htokens, -, hcounts⟩ := counts_wait hn hm h.sound (h.counts g) (hok g) hcur
  apply gates_at (sound_step hn _ _ h.sound (hok g).1) ⟨htokens, hcounts⟩
  intro g' hg
  obtain ⟨hsame, -, hcounts'⟩ := counts_other hn h.sound (h.counts g') (hok g')
    (fun _ hc => hg (hids (Call.sem_wait.inj hc).1).symm) (fun hc => by cases hc)
  exact ⟨hsame, hcounts'⟩

theorem gates_post (hn : Serves H NODE_SIZE) (hids : Function.Injective ids) (h : Gates ids s)
    {g : Gate} (hok : ownCall ids s (.sem_post (ids g)))
    (hroom : (s.tokens (ids g)).counter + 1 < 2 ^ 32) :
    Gates ids (step s (.sem_post (ids g))) ∧ ∀ g',
      (step s (.sem_post (ids g))).tokens (ids g') =
        if g' = g then (s.tokens (ids g)).post else s.tokens (ids g') := by
  obtain ⟨htokens, -, hcounts⟩ := counts_post hn h.sound (h.counts g) (hok g) hroom
  apply gates_at (sound_step hn _ _ h.sound (hok g).1) ⟨htokens, hcounts⟩
  intro g' hg
  obtain ⟨hsame, -, hcounts'⟩ := counts_other hn h.sound (h.counts g') (hok g')
    (fun _ hc => by cases hc) (fun hc => hg (hids (Call.sem_post.inj hc)).symm)
  exact ⟨hsame, hcounts'⟩

end Calls

/-! ## Who is past a gate -/

/-- The call went through the wait of the gate, or is blocked in it, and did not
use its token yet. -/
def Task.past (t : Task) : Gate → Bool
  | .mutex => t.stage = .critical
  | g => t.request.way.gate = g ∧ t.stage ≠ .loop

/-- The call is at its stop after the wait of the gate. -/
def Task.waits (t : Task) : Gate → Prop
  | .mutex => t.stage = .critical
  | g => t.request.way.gate = g ∧ t.stage = .mutex

def Client.past (g : Gate) (c : Client) : Nat :=
  match c.task with
  | none => 0
  | some t => (t.past g).toNat

theorem Client.past_of {c : Client} {t : Task} (h : c.task = some t) (g : Gate) :
    c.past g = (t.past g).toNat := by
  rw [Client.past, h]

theorem Task.waits.past {t : Task} {g : Gate} (h : t.waits g) : t.past g = true := by
  cases g with
  | mutex => exact decide_eq_true h
  | readers | writers => exact decide_eq_true ⟨h.1, by rw [h.2]; decide⟩

/-- A call in its critical section has the tokens of its gate and of the mutex. -/
theorem Task.past_critical {t : Task} (h : t.stage = .critical) :
    t.past t.request.way.gate = true ∧ t.past .mutex = true ∧
      t.past t.request.way.posts = false := by
  refine ⟨?_, decide_eq_true h, ?_⟩
  · cases hw : t.request.way <;> simp [Task.past, Way.gate, hw, h]
  · cases hw : t.request.way <;> simp [Task.past, Way.gate, Way.posts, hw]

theorem Task.past_loop {t : Task} (h : t.stage = .loop) (g : Gate) : t.past g = false := by
  cases g <;> simp [Task.past, h]

end bare_bones.pipe_manager
