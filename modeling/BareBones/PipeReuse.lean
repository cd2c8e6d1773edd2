-- The slots of the pipes are used again, but the ids of their semaphores are
-- not: they come from a counter that only grows, past the 128 that exist.
import BareBones.PipeCalls
import BareBones.PipeFifo

namespace bare_bones.pipe_manager

open bare_bones.doubleLinkedList bare_bones.process bare_bones.scheduler bare_bones.semaphore runs

variable {H : Type}

/-! ## What an act does to the pipes -/

/-- A pipe as `createPipe` fills its slot. -/
def newPipe (next_sem_id : Int) : Pipe :=
  ⟨fun _ => 0, 0, 0, 0, next_sem_id, next_sem_id + 1, next_sem_id + 2, 1, 1, true⟩

def PipeManager.opened (m : PipeManager) (i : Nat) : PipeManager :=
  { m.setPipe i (newPipe m.next_sem_id) with next_sem_id := m.next_sem_id + 3 }

/-- The slot and the generation that a process closes when it goes on inside
`closePipe`. -/
def closing (m : PipeSystem H) : Act → Option (Nat × Nat)
  | .go _ =>
    match m.system.scheduler.currentProcess.bind m.jobs with
    | some (.close x generation _) => some (x, generation)
    | _ => none
  | _ => none

/-- What one act may do to the pipes and to the calls that are open. -/
inductive Moves (m : PipeSystem H) (a : Act) : PipeSystem H → Prop
  | idles : Moves m a m
  | stays (s : System H) : Moves m a (m.settle s)
  | opens (s : System H) (i : Nat) (hi : freeSlot m.manager = some i) :
    Moves m a (({ m with
      manager := m.manager.opened i
      past := Function.update m.past i .start
      generation := Function.update m.generation i (m.generation i + 1) } : PipeSystem H).settle s)
  | starts (s : System H) (p : Pcb) (r : Request) (t : Task) (hp : m.jobs p = none)
    (ht : r.start m.manager = some t) :
    Moves m a ((m.setJob p (some (.io t (m.generation t.pipe)))).settle s)
  | asks (s : System H) (p : Pcb) (pipe_id : Int) (x generation : Nat) (exits : Bool)
    (hp : m.jobs p = none) (hx : validatePipeId m.manager pipe_id = some x) :
    Moves m a ((m.setJob p (some (.close x generation exits))).settle s)
  | turns (s : System H) (p : Pcb) (t : Task) (generation : Nat) (rsp : Addr)
    (hp : m.jobs p = some (.io t generation)) :
    Moves m a (({ (m.setPipe t.pipe (t.move ⟨m.manager, m.past t.pipe⟩ rsp).pipe).setJob p
        (if (t.move ⟨m.manager, m.past t.pipe⟩ rsp).returned.isSome then none
          else some (.io (t.move ⟨m.manager, m.past t.pipe⟩ rsp).task generation)) with
      past := Function.update m.past t.pipe (t.move ⟨m.manager, m.past t.pipe⟩ rsp).past } :
        PipeSystem H).settle s)
  | closes (s : System H) (p : Pcb) (x generation : Nat) (exits : Bool)
    (hcur : m.system.scheduler.currentProcess = some p)
    (hp : m.jobs p = some (.close x generation exits))
    (hclosing : closing m a = some (x, generation)) :
    Moves m a (((m.setPipe x (closePipe (m.pipe x)).2).setJob p
        (if exits then some .exit else none)).settle s)
  | exits (s : System H) (p : Pcb) (job : Option Job) (hjob : job = none ∨ job = some .exit) :
    Moves m a ((m.setJob p job).settle s)

section Moves

theorem moves_beginClose (m : PipeSystem H) (a : Act) (s : System H) {p : Pcb}
    (hp : m.jobs p = none) (pipe_id : Int) (generation : Nat) (exits : Bool) (rsp : Addr) :
    Moves m a ((beginClose m p pipe_id generation exits rsp).2.settle s) := by
  unfold beginClose
  split
  · split
    · exact .exits s p _ (Or.inr rfl)
    · exact .stays s
  · rename_i x hx
    exact .asks s p pipe_id x generation exits hp hx

variable [MemoryManager H]

theorem createPipe_manager (s : System H) (m : PipeManager) {i : Nat} (hi : freeSlot m = some i) :
    (createPipe s m).2.2 = m.opened i := by
  unfold createPipe
  rw [show (List.range MAX_PIPES).find? (fun i => ¬ (m.pipes i).isOpen) = some i from hi]
  dsimp only
  split <;> rfl

theorem moves_turn (m : PipeSystem H) (s : System H) {p : Pcb}
    (hcur : m.system.scheduler.currentProcess = some p) (a : Act) :
    Moves m a ((turn m p a).2.settle s) := by
  unfold turn
  split
  · rename_i rsp job hp
    cases job with
    | io t generation => exact .turns s p t generation rsp hp
    | close x generation exits =>
      have hclosing : closing m (.go rsp) = some (x, generation) := by simp [closing, hcur, hp]
      have hc := Moves.closes s p x generation exits hcur hp hclosing
      cases exits <;> exact hc
    | exit => exact .exits s p none (Or.inl rfl)
  · rename_i hp
    split
    · exact .stays s
    · rename_i i hi
      have hm := createPipe_manager m.system m.manager hi
      have ho := Moves.opens (a := .createPipe) s i hi
      rw [← hm] at ho
      exact ho
  · rename_i r hp
    split
    · exact .stays s
    · rename_i t ht
      exact .starts s p r t hp ht
  · rename_i pipe_id generation rsp hp
    exact moves_beginClose m _ s hp pipe_id generation false rsp
  · rename_i generation rsp hp
    dsimp only
    split
    · exact moves_beginClose m _ s hp _ generation true rsp
    · exact .stays s
  · exact .stays s

/-- An act makes one of the moves. -/
theorem moves_act (m : PipeSystem H) (a : Act) : Moves m a (act m a) := by
  have hact : ∀ a : Act, (∀ c, a ≠ .call c) → Moves m a (act m a) := fun a ha => by
    cases hcur : m.system.scheduler.currentProcess with
    | none =>
      rw [act_idle ha hcur]
      exact .idles
    | some p =>
      rw [act_turn ha hcur]
      exact moves_turn m _ hcur a
  cases a with
  | call c => exact .stays (step m.system c)
  | _ => exact hact _ fun _ h => by cases h

end Moves

/-! ## The ids of the semaphores -/

/-- The counter of the ids is above every id that a pipe has. -/
structure Below (m : PipeManager) : Prop where
  next : 0 ≤ m.next_sem_id
  ids : ∀ i g, (m.pipes i).sem g < m.next_sem_id

theorem move_sem (t : Task) (g : Shared) (rsp : Addr) :
    (t.move g rsp).pipe.sem = (g.manager.pipes t.pipe).sem := by
  have hr : ∀ pipe past, (readPipe pipe past t rsp).pipe.sem = pipe.sem := fun pipe past => by
    unfold readPipe
    split
    · split <;> rfl
    · rfl
    · split
      · rfl
      · split
        · dsimp only
          split <;> (funext g; cases g <;> rfl)
        · rfl
  have hw : ∀ pipe past, (writePipe pipe past t rsp).pipe.sem = pipe.sem := fun pipe past => by
    unfold writePipe
    split
    · split <;> rfl
    · rfl
    · dsimp only
      split
      · funext g; cases g <;> rfl
      · rfl
  unfold Task.move
  split
  · exact hr _ _
  · exact hw _ _

/-- A close takes ids off a pipe, and gives it none. -/
theorem closePipe_sem (pipe : Pipe) (g : Gate) :
    (closePipe pipe).2.sem g = pipe.sem g ∨ (closePipe pipe).2.sem g = -1 := by
  unfold closePipe
  split
  · exact Or.inl rfl
  · dsimp only
    split <;> cases g <;> simp [Pipe.sem]

theorem Below.setPipe {m : PipeManager} (h : Below m) (x : Nat) {pipe : Pipe}
    (hp : ∀ g, pipe.sem g < m.next_sem_id) : Below (m.setPipe x pipe) := by
  refine ⟨h.next, fun i g => ?_⟩
  by_cases hi : i = x
  · subst hi
    simpa [PipeManager.setPipe] using hp g
  · simpa [PipeManager.setPipe, hi] using h.ids i g

theorem Below.opened {m : PipeManager} (h : Below m) (i : Nat) : Below (m.opened i) := by
  have hnext := h.next
  refine ⟨by simp only [PipeManager.opened]; omega, fun j g => ?_⟩
  by_cases hj : j = i
  · subst hj
    cases g <;> simp [PipeManager.opened, PipeManager.setPipe, newPipe, Pipe.sem]
  · have := h.ids j g
    simp only [PipeManager.opened, PipeManager.setPipe, Function.update_of_ne hj]
    omega

theorem below_moves {m m' : PipeSystem H} {a : Act} (h : Below m.manager) (hm : Moves m a m') :
    Below m'.manager := by
  cases hm with
  | idles => exact h
  | stays s => exact h
  | opens s i hi => exact h.opened i
  | starts s p r t hp ht => exact h
  | asks s p pipe_id x generation exits hp hx => exact h
  | turns s p t generation rsp hp =>
    apply h.setPipe t.pipe
    intro g
    rw [move_sem]
    exact h.ids t.pipe g
  | closes s p x generation exits hcur hp hclosing =>
    apply h.setPipe x
    intro g
    have hnext := h.next
    have hid := h.ids x g
    rcases closePipe_sem (m.pipe x) g with hg | hg <;> rw [hg]
    · exact hid
    · omega
  | exits s p job hjob => exact h

theorem below_booted [MemoryManager H] {m : PipeSystem H} (h : BootedPipes m) :
    Below m.manager := by
  rw [h.manager]
  refine ⟨by simp [initializePipeManager], fun i g => ?_⟩
  cases g <;> simp [initializePipeManager, Pipe.sem]

/-! ## One `createPipe` -/

variable [MemoryManager H]

/-- A new semaphore, when the heap gives its queue. -/
theorem sem_create_step (hs : Serves H LIST_SIZE) (s : System H) (id : Int) (v : Nat) :
    (isValidSemId id = 0 ∧ (s.sem id).active = false ∧ (sem_create s.kernel id v).1 = 0 ∧
        ((step s (.sem_create id v)).sem id).counter = v ∧
        ((step s (.sem_create id v)).sem id).active = true) ∨
      (¬ (isValidSemId id = 0 ∧ (s.sem id).active = false) ∧
        (sem_create s.kernel id v).1 = -1) := by
  have hstep : ∀ {r : Int × Kernel H}, sem_create s.kernel id v = r →
      (step s (.sem_create id v)).sem id = r.2.semaphores id := fun hr => by rw [← hr]; rfl
  rcases valid_cases id with hv | hv
  · refine Or.inr ⟨fun h => ?_, by rw [sem_create, if_pos hv]⟩
    rw [hv] at h
    cases h.1
  have hne : ¬ isValidSemId id = -1 := by
    rw [hv]
    decide
  by_cases ha : (s.sem id).active = true
  · refine Or.inr ⟨fun h => ?_, ?_⟩
    · rw [ha] at h
      cases h.2
    · have ha' : (s.kernel.semaphores id).active = true := ha
      simp [sem_create, hne, ha']
  · obtain ⟨a, heap, hheap⟩ := hs s.kernel.scheduler.heap
    have hc : sem_create s.kernel id v =
        (0, (s.kernel.setHeap heap).setSem id ⟨some ⟨a, []⟩, v, 0, true⟩) := by
      have hna : ¬ (s.kernel.semaphores id).active = true := ha
      simp [sem_create, hne, hna, createDoubleLinkedListADT, hheap]
    refine Or.inl ⟨hv, by simpa using ha, by rw [hc], ?_, ?_⟩ <;>
      rw [hstep hc] <;> simp [Kernel.setSem]

/-- The other semaphores. -/
theorem sem_create_other (s : System H) {id j : Int} (v : Nat) (h : j ≠ id) :
    (step s (.sem_create id v)).sem j = s.sem j := by
  show (sem_create s.kernel id v).2.semaphores j = _
  unfold sem_create
  split
  · rfl
  · split
    · split
      · simp [Kernel.setSem, Kernel.setHeap, h]
        rfl
      · simp [Kernel.setSem, Kernel.setHeap, h]
        rfl
    · rfl

theorem newPipe_sem_ne (n : Int) {g g' : Gate} (h : g ≠ g') :
    (newPipe n).sem g ≠ (newPipe n).sem g' := by
  cases g <;> cases g' <;> simp [Pipe.sem, newPipe] at h ⊢

/-- The semaphores of a new pipe are made when all three ids are valid and not in
use, and only then. -/
theorem createSems_iff (hs : Serves H LIST_SIZE) (s : System H) (n : Int) :
    (createSems s (newPipe n)).1 = true ↔
      ∀ g, isValidSemId ((newPipe n).sem g) = 0 ∧
        (s.sem ((newPipe n).sem g)).active = false := by
  have hall : (∀ g, isValidSemId ((newPipe n).sem g) = 0 ∧
      (s.sem ((newPipe n).sem g)).active = false) ↔
      (isValidSemId (newPipe n).semReaders = 0 ∧ (s.sem (newPipe n).semReaders).active = false) ∧
      (isValidSemId (newPipe n).semWriters = 0 ∧ (s.sem (newPipe n).semWriters).active = false) ∧
      (isValidSemId (newPipe n).mutex = 0 ∧ (s.sem (newPipe n).mutex).active = false) := by
    constructor
    · exact fun h => ⟨h .readers, h .writers, h .mutex⟩
    · rintro ⟨h1, h2, h3⟩ g
      cases g
      · exact h1
      · exact h2
      · exact h3
  have h12 := newPipe_sem_ne n (g := .writers) (h := (by decide : _ ≠ Gate.readers))
  have h13 := newPipe_sem_ne n (g := .mutex) (h := (by decide : _ ≠ Gate.readers))
  have h23 := newPipe_sem_ne n (g := .mutex) (h := (by decide : _ ≠ Gate.writers))
  simp only [Pipe.sem] at h12 h13 h23
  rw [hall]
  unfold createSems
  dsimp only
  rcases sem_create_step hs s (newPipe n).semReaders 0 with ⟨hv₁, ha₁, hr₁, _⟩ | ⟨hno, hr₁⟩
  · rw [hr₁, if_neg (by decide), ← sem_create_other s 0 h12, ← sem_create_other s 0 h13]
    generalize step s (.sem_create (newPipe n).semReaders 0) = s₁
    rcases sem_create_step hs s₁ (newPipe n).semWriters PIPE_BUFFER_SIZE with
      ⟨hv₂, ha₂, hr₂, _⟩ | ⟨hno, hr₂⟩
    · rw [hr₂, if_neg (by decide), ← sem_create_other s₁ PIPE_BUFFER_SIZE h23]
      generalize step s₁ (.sem_create (newPipe n).semWriters PIPE_BUFFER_SIZE) = s₂
      rcases sem_create_step hs s₂ (newPipe n).mutex 1 with ⟨hv₃, ha₃, hr₃, _⟩ | ⟨hno, hr₃⟩
      · simp [hr₃, hv₁, ha₁, hv₂, ha₂, hv₃, ha₃]
      · simp only [hr₃]
        exact iff_of_false Bool.false_ne_true fun h => hno h.2.2
    · rw [hr₂, if_pos (by decide)]
      exact iff_of_false Bool.false_ne_true fun h => hno h.2.1
  · rw [hr₁, if_pos (by decide)]
    exact iff_of_false Bool.false_ne_true fun h => hno h.1

/-- The semaphores of a new pipe count from their initial values. -/
theorem createSems_gates (hs : Serves H LIST_SIZE) {s s' : System H} {n : Int}
    (h : createSems s (newPipe n) = (true, s')) (g : Gate) :
    (s'.sem ((newPipe n).sem g)).active = true ∧
      (s'.sem ((newPipe n).sem g)).counter = capacity g := by
  have hmade : ∀ {s : System H} {id : Int} {v : Nat},
      result s.kernel (.sem_create id v) = some 0 →
      ((step s (.sem_create id v)).sem id).active = true ∧
        ((step s (.sem_create id v)).sem id).counter = v := by
    intro s id v hr
    rcases sem_create_step hs s id v with ⟨_, _, _, hc, ha⟩ | ⟨_, hm⟩
    · exact ⟨ha, hc⟩
    · have hres : some (sem_create s.kernel id v).1 = some 0 := hr
      rw [hm] at hres
      cases hres
  obtain ⟨s₁, s₂, hr₁, hs₁, hr₂, hs₂, hr₃, hs₃⟩ := createSems_spec h
  cases g with
  | readers =>
    have h12 : (newPipe n).semReaders ≠ (newPipe n).semWriters :=
      newPipe_sem_ne n (g := .readers) (h := (by decide : _ ≠ Gate.writers))
    have h13 : (newPipe n).semReaders ≠ (newPipe n).mutex :=
      newPipe_sem_ne n (g := .readers) (h := (by decide : _ ≠ Gate.mutex))
    have hsem : s'.sem (newPipe n).semReaders = s₁.sem (newPipe n).semReaders := by
      rw [hs₃, sem_create_other s₂ 1 h13, hs₂, sem_create_other s₁ PIPE_BUFFER_SIZE h12]
    rw [Pipe.sem, hsem, hs₁]
    exact hmade hr₁
  | writers =>
    have h23 : (newPipe n).semWriters ≠ (newPipe n).mutex :=
      newPipe_sem_ne n (g := .writers) (h := (by decide : _ ≠ Gate.mutex))
    have hsem : s'.sem (newPipe n).semWriters = s₂.sem (newPipe n).semWriters := by
      rw [hs₃, sem_create_other s₂ 1 h23]
    rw [Pipe.sem, hsem, hs₂]
    exact hmade hr₂
  | mutex =>
    rw [Pipe.sem, hs₃]
    exact hmade hr₃

/-! ## Every run -/

/-- `createPipe` gave the id of a slot, with three new semaphores of its own. -/
structure GivesPipe (r : Int × System H × PipeManager) : Prop where
  id : 3 ≤ r.1 ∧ r.1 ≤ 18
  sems : ∀ g, (r.2.1.sem ((r.2.2.pipes (r.1 - 3).toNat).sem g)).active = true ∧
    (r.2.1.sem ((r.2.2.pipes (r.1 - 3).toNat).sem g)).counter = capacity g
  apart : ∀ j, j ≠ (r.1 - 3).toNat → (r.2.2.pipes j).isOpen = true → ∀ g g',
    (r.2.2.pipes j).sem g ≠ (r.2.2.pipes (r.1 - 3).toNat).sem g'

/-- The next three ids are ids of semaphores, and none of them is in use. -/
def idsLeft (m : PipeSystem H) : Prop :=
  m.manager.next_sem_id + 2 < NUM_SEMS ∧
    ∀ g, (m.system.sem ((newPipe m.manager.next_sem_id).sem g)).active = false

instance (m : PipeSystem H) : Decidable (idsLeft m) :=
  inferInstanceAs (Decidable (_ ∧ ∀ _ : Gate, _))

omit [MemoryManager H] in
theorem idsLeft_iff {m : PipeSystem H} (h : Below m.manager) :
    idsLeft m ↔ ∀ g, isValidSemId ((newPipe m.manager.next_sem_id).sem g) = 0 ∧
      (m.system.sem ((newPipe m.manager.next_sem_id).sem g)).active = false := by
  have hnext := h.next
  have hvalid : m.manager.next_sem_id + 2 < NUM_SEMS ↔
      ∀ g, isValidSemId ((newPipe m.manager.next_sem_id).sem g) = 0 := by
    simp only [valid_iff, NUM_SEMS]
    constructor
    · intro hlt g
      cases g <;> simp only [Pipe.sem, newPipe] <;> omega
    · intro hall
      have := (hall .mutex).2
      simpa [Pipe.sem, newPipe] using this
  unfold idsLeft
  rw [hvalid]
  exact forall_and.symm

/-- In every state that any run of calls reaches: with a slot free and memory for
the queues, `createPipe` gives a new pipe when the next three ids are left, and
only then. -/
theorem createPipe_gives_a_pipe_while_ids_are_left (hs : Serves H LIST_SIZE)
    {boot : PipeSystem H} (hboot : BootedPipes boot) (acts : List Act)
    (hfree : (freeSlot (run act boot acts).manager).isSome) :
    GivesPipe (createPipe (run act boot acts).system (run act boot acts).manager) ↔
      idsLeft (run act boot acts) := by
  have hbelow : ∀ (acts : List Act) (m : PipeSystem H), Below m.manager →
      Below (run act m acts).manager := by
    intro acts
    induction acts with
    | nil => exact fun _ h => h
    | cons a acts ih => exact fun m h => ih _ (below_moves h (moves_act m a))
  have h := hbelow acts boot (below_booted hboot)
  generalize run act boot acts = m at h hfree
  obtain ⟨i, hi⟩ := Option.isSome_iff_exists.mp hfree
  have hmax : i < MAX_PIPES := List.mem_range.mp (List.mem_of_find?_eq_some hi)
  have hmanager := createPipe_manager m.system m.manager hi
  rw [idsLeft_iff h, ← createSems_iff hs m.system m.manager.next_sem_id]
  have hcreate : ∀ ok s, createSems m.system (newPipe m.manager.next_sem_id) = (ok, s) →
      createPipe m.system m.manager =
        (if ok then (i : Int) + 3 else -1, s, m.manager.opened i) := fun ok s hsems => by
    unfold createPipe
    rw [show (List.range MAX_PIPES).find? (fun i => ¬ (m.manager.pipes i).isOpen) = some i from hi]
    dsimp only
    rw [newPipe] at hsems
    rw [hsems]
    cases ok <;> rfl
  cases hsems : createSems m.system (newPipe m.manager.next_sem_id) with
  | mk ok s =>
    rw [hcreate ok s hsems]
    cases ok with
    | false =>
      refine iff_of_false (fun hg => ?_) Bool.false_ne_true
      have hid : (3 : Int) ≤ -1 := hg.id.1
      omega
    | true =>
      simp only [if_true]
      have hx : ((i : Int) + 3 - 3).toNat = i := by omega
      have hpipe : (m.manager.opened i).pipes i = newPipe m.manager.next_sem_id := by
        simp [PipeManager.opened, PipeManager.setPipe]
      refine iff_of_true ⟨?_, fun g => ?_, fun j hj _ g g' => ?_⟩ trivial
      · dsimp only
        simp only [MAX_PIPES] at hmax
        omega
      · dsimp only
        rw [hx, hpipe]
        exact createSems_gates hs hsems g
      · dsimp only at hj ⊢
        rw [hx] at hj ⊢
        rw [hpipe]
        have hid := h.ids j g
        simp only [PipeManager.opened, PipeManager.setPipe, Function.update_of_ne hj]
        cases g' <;> simp only [Pipe.sem, newPipe] at hid ⊢ <;> omega

/-- A process opens a pipe and closes it. -/
def openAndClose : List Act :=
  [.call (.scheduler (.createProcess 2 none 0 1 none 0)), .call (.scheduler (.yield 3)),
    .call (.scheduler (.yield 4)), .createPipe, .closePipe 3 1 5, .go 6]

theorem createPipe_uses_a_slot_again :
    GivesPipe (createPipe (run act endlessPipes openAndClose).system
      (run act endlessPipes openAndClose).manager) :=
  (createPipe_gives_a_pipe_while_ids_are_left (endless_serves _) booted_endlessPipes openAndClose
    (by decide +kernel)).mpr (by decide +kernel)

/-- A process opens nine pipes. -/
def ninePipes : List Act :=
  [.call (.scheduler (.createProcess 2 none 0 1 none 0)), .call (.scheduler (.yield 3)),
    .call (.scheduler (.yield 4))] ++ List.replicate 9 .createPipe

/-- Seven slots are free and the semaphores 0 to 99 are not in use, but the next
ids are 127 to 129. -/
theorem the_tenth_createPipe_fails :
    (freeSlot (run act endlessPipes ninePipes).manager).isSome ∧
      (∀ id < 100, ((run act endlessPipes ninePipes).system.sem (id : Nat)).active = false) ∧
      ¬ GivesPipe (createPipe (run act endlessPipes ninePipes).system
        (run act endlessPipes ninePipes).manager) := by
  have h : (freeSlot (run act endlessPipes ninePipes).manager).isSome ∧
      (∀ id < 100, ((run act endlessPipes ninePipes).system.sem (id : Nat)).active = false) ∧
      (createPipe (run act endlessPipes ninePipes).system
        (run act endlessPipes ninePipes).manager).1 = -1 := by
    decide +kernel
  refine ⟨h.1, h.2.1, fun hg => ?_⟩
  have hid := hg.id.1
  rw [h.2.2] at hid
  omega

end bare_bones.pipe_manager
