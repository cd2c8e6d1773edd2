-- What the variable of `mvar` holds. Its values come out one by one and in their order
-- whatever the processes do, but only a put that finds the pipe empty keeps it a variable.
import BareBones.MvarSteps

namespace bare_bones.mvar

open bare_bones.process bare_bones.scheduler bare_bones.semaphore bare_bones.pipe_manager
open bare_bones.shell (Cells word)
open bare_bones.video (BLACK)
open runs

variable {H : Type}

/-- At most one value is pending, and each value that was taken has the one reader that
took it, in the order of the writes. -/
structure OnePlace (w : World H) : Prop where
  pending : w.pending = 0 ∨ w.pending = 1
  taken : w.taken.map Prod.snd <+: w.past.written

/-- What holds however the processes take turns: the values are handed on in their order,
each to one reader, and up to 512 are pending. -/
structure Queue (w : World H) : Prop where
  pending : 0 ≤ w.pending ∧ w.pending ≤ PIPE_BUFFER_SIZE
  taken : w.taken.map Prod.snd <+: w.past.written

/-- A write does not complete while a value was not taken. -/
def writersWait [MemoryManager H] (w : World H) (e : Event) : Prop :=
  w.pending = 1 → (next w e).writes = w.writes

/-- A writer that is past both waits of `writePipe` finds the pipe empty. -/
def putsIntoEmpty (w : World H) : Event → Prop
  | .run _ => ∀ t ∈ w.task, t.request.way = .write → t.stage = .critical →
      (w.pipes.pipe t.pipe).count = 0
  | .other _ => True

instance (w : World H) : ∀ e, Decidable (putsIntoEmpty w e)
  | .run _ => inferInstanceAs (Decidable (∀ t ∈ w.task, _))
  | .other _ => isTrue trivial

/-- The manager did not run yet. Whatever its arguments are, they say how many writers
and readers it will start. -/
structure Starting (w : World H) : Prop where
  line : w.manager.line = .start
  actors : ∀ p, w.actors p = none
  slot : w.slot = none
  taken : w.taken = []

/-! ## Whole runs -/

section Runs

variable {w : World H} {x : Nat}

/-- The variable has no pipe yet, or it has one in order. -/
def Ordered (w : World H) : Prop := Unopened w ∨ ∃ x, Opened x w

theorem Unopened.counts (h : Unopened w) : w.writes = 0 ∧ w.reads = 0 := by
  rw [World.writes, World.past, h.slot, World.reads, h.taken]
  exact ⟨rfl, rfl⟩

theorem Ordered.queue (h : Ordered w) : Queue w := by
  rcases h with h | ⟨x, h⟩
  · obtain ⟨hwrites, hreads⟩ := h.counts
    refine ⟨?_, by rw [h.taken]; exact List.nil_prefix⟩
    rw [World.pending, hwrites, hreads]
    decide
  · have hcount : (w.pipes.pipe x).count ≤ PIPE_BUFFER_SIZE := h.order.ring.count
    refine ⟨?_, ?_⟩
    · rw [h.pending]
      omega
    · rw [h.taken, h.past]
      exact ⟨_, h.order.bytes.symm⟩

theorem Opened.task_pipe (h : Opened x w) {t : Task} (ht : w.task = some t) : t.pipe = x := by
  obtain ⟨p, a, generation, -, hm, ha, hline, hjob⟩ := task_some ht
  exact (h.actors p a hm ha).job hline t generation hjob

theorem Unopened.task (h : Unopened w) : World.task w = none := by
  cases ht : w.task with
  | none => rfl
  | some t =>
    obtain ⟨p, a, generation, -, -, ha, -⟩ := task_some ht
    rw [h.actors p] at ha
    cases ha

variable [MemoryManager H]

/-- A step before there is a pipe. -/
theorem unopened_next (h : Unopened w) (e : Event) :
    Ordered (next w e) ∧ (next w e).writes = 0 ∧ (next w e).reads = 0 := by
  have hsame : ∀ {w' : World H}, Unopened w' → Ordered w' ∧ w'.writes = 0 ∧ w'.reads = 0 :=
    fun h => ⟨Or.inl h, h.counts⟩
  cases e with
  | other a => exact hsame (h.managed rfl rfl rfl h.line)
  | run rsp =>
    unfold next
    cases hcur : w.pipes.system.scheduler.currentProcess with
    | none => exact hsame h
    | some p =>
      dsimp only
      rw [h.actors p]
      split
      · rcases unopened_manager h hcur rsp with hu | ⟨x, hx, hpast⟩
        · exact hsame hu
        · have htaken := congrArg List.length hx.taken
          rw [List.length_map, hpast] at htaken
          refine ⟨Or.inr ⟨x, hx⟩, ?_, htaken⟩
          rw [World.writes, hx.past, hpast]
          rfl
      · exact hsame h

/-- What one step does to the numbers of writes and reads. -/
theorem ordered_next (h : Ordered w) {e : Event} (hown : ownPipe w e) :
    Ordered (next w e) ∧ w.reads ≤ (next w e).reads ∧
      ((Puts w e ∧ (next w e).writes = w.writes + 1 ∧ (next w e).reads = w.reads) ∨
        (¬ Puts w e ∧ (next w e).writes = w.writes)) := by
  rcases h with h | ⟨x, h⟩
  · obtain ⟨hordered, hwrites, hreads⟩ := unopened_next h e
    refine ⟨hordered, by rw [h.counts.2]; exact Nat.zero_le _, Or.inr ⟨?_, ?_⟩⟩
    · cases e with
      | other a => exact id
      | run rsp => exact not_puts_of_task h.task
    · rw [hwrites, h.counts.1]
  · have hcounted := opened_next h hown
    exact ⟨Or.inr ⟨x, hcounted.opened⟩, hcounted.reads, hcounted.writes⟩

omit [MemoryManager H] in
/-- The pending values when a writer is at its put. -/
theorem Ordered.pending_of_task (h : Ordered w) {t : Task} (ht : w.task = some t) :
    w.pending = (w.pipes.pipe t.pipe).count := by
  rcases h with h | ⟨x, h⟩
  · rw [h.task] at ht
    cases ht
  · rw [h.task_pipe ht, h.pending]

omit [MemoryManager H] in
/-- A put that finds the pipe empty comes when no value is pending. -/
theorem Puts.pending {e : Event} (hputs : Puts w e) (h : Ordered w) (hok : putsIntoEmpty w e) :
    w.pending = 0 := by
  cases e with
  | other a => exact hputs.elim
  | run rsp =>
    obtain ⟨t, ht, hway, hstage, _⟩ := hputs
    rw [h.pending_of_task ht, hok t ht hway hstage]
    rfl

theorem pending_next (h : Ordered w) (hpending : w.pending ≤ 1) {e : Event} (hown : ownPipe w e)
    (hok : putsIntoEmpty w e) : (next w e).pending ≤ 1 := by
  obtain ⟨_, hreads, ⟨hputs, hwrites, hsame⟩ | ⟨_, hwrites⟩⟩ := ordered_next h hown
  · have hzero := hputs.pending h hok
    unfold World.pending at *
    omega
  · unfold World.pending at *
    omega

theorem writersWait_next (h : Ordered w) {e : Event} (hown : ownPipe w e)
    (hok : putsIntoEmpty w e) : writersWait w e := by
  intro hone
  obtain ⟨_, _, ⟨hputs, _⟩ | ⟨_, hwrites⟩⟩ := ordered_next h hown
  · rw [hputs.pending h hok] at hone
    cases hone
  · exact hwrites

/-- A put that finds a value in the pipe leaves two. -/
theorem putsIntoEmpty_of_onePlace (h : Ordered w) (hpending : w.pending ≤ 1) {e : Event}
    (hown : ownPipe w e) (hone : OnePlace (next w e)) : putsIntoEmpty w e := by
  cases e with
  | other a => trivial
  | run rsp =>
    intro t ht hway hstage
    by_contra hcount
    have hcounted := h.pending_of_task ht
    have hroom : (w.pipes.pipe t.pipe).count < PIPE_BUFFER_SIZE := by
      unfold PIPE_BUFFER_SIZE
      omega
    have hputs : Puts w (.run rsp) := ⟨t, ht, hway, hstage, hroom⟩
    obtain ⟨_, _, ⟨_, hwrites, hreads⟩ | ⟨hnot, _⟩⟩ := ordered_next h hown
    · have hnext := hone.pending
      unfold World.pending at *
      omega
    · exact hnot hputs

/-- For every number of writers and readers, and however they take turns: at most one
value is pending, and a writer waits while it was not taken, exactly in the runs where
each writer that comes to put its value finds the pipe empty. In all others the variable
is a queue of up to 512 values. -/
theorem mvar_is_one_place_while_puts_find_the_pipe_empty (hstart : Starting w) (es : List Event)
    (hown : Meets next ownPipe w es) :
    ((∀ seen, seen <+: es → OnePlace (run next w seen)) ∧ Meets next writersWait w es ↔
      Meets next putsIntoEmpty w es) ∧ Queue (run next w es) := by
  have hordered : Ordered w :=
    Or.inl ⟨hstart.slot, by rw [hstart.line]; rfl, hstart.actors, hstart.taken⟩
  have hempty : w.pending ≤ 1 := by
    rcases hordered with hu | ⟨x, hx⟩
    · rw [World.pending, hu.counts.1, hu.counts.2]
      decide
    · exact absurd (hstart.slot.symm.trans hx.slot) (Option.some_ne_none x).symm
  have hkeep : ∀ (w : World H) (e : Event), Ordered w ∧ w.pending ≤ 1 → ownPipe w e →
      putsIntoEmpty w e → Ordered (next w e) ∧ (next w e).pending ≤ 1 :=
    fun w e h hown hok => ⟨(ordered_next h.1 hown).1, pending_next h.1 h.2 hown hok⟩
  have hstates := everywhere_iff_meets (P := OnePlace) (fun w h => ?_) hkeep
    (fun w e h hown hone => putsIntoEmpty_of_onePlace h.1 h.2 hown hone) ⟨hordered, hempty⟩ hown
  refine ⟨⟨fun h => hstates.mp h.1, fun h => ⟨hstates.mpr h, ?_⟩⟩, ?_⟩
  · exact run_steps (fun w e h hok => hkeep w e h hok.1 hok.2)
      (fun w e h hok => writersWait_next h.1 hok.1 hok.2) ⟨hordered, hempty⟩ (hown.and h)
  · have hnext : ∀ (w : World H) (e : Event), Ordered w → ownPipe w e → Ordered (next w e) :=
      fun w e h hown => (ordered_next h hown).1
    exact (run_invariant hnext hordered hown).queue
  · have hqueue := h.1.queue
    exact ⟨by have := hqueue.pending.1; have := h.2; omega, hqueue.taken⟩

end Runs

/-! ## `mvar 1 1` -/

def mvarArgs : Cells := fun i => [word "mvar", word "1", word "1"][i]?

/-- The shell started `mvar` in the background and waits for a key. -/
def launched : PipeSystem Endless :=
  run act endlessPipes [.call (.sem_create 0 0),
    .call (.scheduler (.createProcess 2 none 0 1 none 0)), .call (.scheduler (.yield 3)),
    .call (.scheduler (.yield 4)),
    .call (.scheduler (.createProcess 5 (some mvarArgs) 3 2 (some fun i => i.val) 1)),
    .call (.sem_wait 0 6)]

/-- One writer and one reader, with the pauses that `getUniform` gives. -/
def oneAndOne (getUniform : Nat → Nat) : World Endless where
  pipes := launched
  manager_pcb := 2
  manager := ⟨3, some mvarArgs, 0, 0, 0, .write, 0, .start⟩
  actors _ := none
  getUniform := getUniform
  drawn := 0
  fontColor := BLACK
  screen := []
  rip way := match way with
    | .write => 10
    | .read => 11
  slot := none
  taken := []

theorem starting_oneAndOne (getUniform : Nat → Nat) : Starting (oneAndOne getUniform) :=
  ⟨rfl, fun _ => rfl, rfl, rfl⟩

/-- The idle process gives way. -/
def idles : Event := .other (.call (.scheduler (.yield 9)))

/-- The manager starts both and leaves, and both come to their first pause. -/
def startUp : List Event :=
  idles :: List.replicate 9 (.run 7) ++ idles :: List.replicate 6 (.run 7) ++ [idles]

/-- The pauses of both are as short as they can be. -/
def promptReader : World Endless := oneAndOne fun _ => 0

/-- The writer puts a value, and the reader takes it. -/
def takesInTime : List Event := startUp ++ List.replicate 20 (.run 7)

theorem mvar_is_one_place_while_the_reader_is_prompt :
    (∀ seen, seen <+: takesInTime → OnePlace (run next promptReader seen)) ∧
      Meets next writersWait promptReader takesInTime ∧
      (run next promptReader takesInTime).reads = 1 :=
  have h := (mvar_is_one_place_while_puts_find_the_pipe_empty (starting_oneAndOne fun _ => 0)
    takesInTime (by decide +kernel)).1.mpr (by decide +kernel)
  ⟨h.1, h.2, by decide +kernel⟩

/-- The first pause of the reader is longer. -/
def slowReader : World Endless := oneAndOne fun n => if n = 1 then 3 else 0

/-- The writer comes back before the reader. -/
def writesTwice : List Event :=
  startUp ++ List.replicate 9 (.run 7) ++ idles :: List.replicate 5 (.run 7)

theorem mvar_holds_two_values :
    Starting slowReader ∧ Meets next ownPipe slowReader writesTwice ∧
      (run next slowReader writesTwice).pending = 2 ∧
      ¬ OnePlace (run next slowReader writesTwice) := by
  have htwo : (run next slowReader writesTwice).pending = 2 := by decide +kernel
  refine ⟨starting_oneAndOne _, by decide +kernel, htwo, fun h => ?_⟩
  have hpending := h.pending
  rw [htwo] at hpending
  omega

end bare_bones.mvar
