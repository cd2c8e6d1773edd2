-- The end of a pipe. `closePipe` resets the slot and destroys the semaphores
-- before the readers that it wakes can run, so a pipe only ends well when it is
-- empty and nobody is inside `readPipe`.
import BareBones.PipeGenerations
import BareBones.Stranded

namespace bare_bones.pipe_manager

open bare_bones.doubleLinkedList bare_bones.process bare_bones.scheduler bare_bones.semaphore
open runs ring_buffer

variable {H : Type}

/-! ## The bytes of a slot -/

theorem inOrder_new (n : Int) : InOrder (newPipe n) .start :=
  ⟨⟨(by decide : 0 < PIPE_BUFFER_SIZE), Nat.zero_le _⟩, rfl, rfl⟩

/-- A turn of `readPipe` or `writePipe` keeps the bytes in order. It neither opens
nor closes the pipe, and goes on with the call that it is a turn of. -/
theorem move_inOrder (t : Task) {g : Shared} (h : InOrder (g.manager.pipes t.pipe) g.past)
    (rsp : Addr) : InOrder (t.move g rsp).pipe (t.move g rsp).past ∧
      (t.move g rsp).pipe.isOpen = (g.manager.pipes t.pipe).isOpen ∧
      (t.move g rsp).task.request = t.request ∧ (t.move g rsp).task.pipe = t.pipe := by
  unfold Task.move
  generalize g.manager.pipes t.pipe = pipe at h
  cases t.request.way with
  | read =>
    dsimp only
    unfold readPipe
    split
    · split <;> exact ⟨h, rfl, rfl, rfl⟩
    · exact ⟨h, rfl, rfl, rfl⟩
    · split
      · exact ⟨h, rfl, rfl, rfl⟩
      · split
        · rename_i hpos
          have htake := h.take hpos
          dsimp only
          split <;> exact ⟨htake, rfl, rfl, rfl⟩
        · exact ⟨⟨h.ring, h.writeIdx, h.bytes⟩, rfl, rfl, rfl⟩
  | write =>
    dsimp only
    unfold writePipe
    split
    · split <;> exact ⟨h, rfl, rfl, rfl⟩
    · exact ⟨h, rfl, rfl, rfl⟩
    · dsimp only
      split
      · rename_i hlt
        exact ⟨h.put hlt _, rfl, rfl, rfl⟩
      · exact ⟨⟨h.ring, h.writeIdx, h.bytes⟩, rfl, rfl, rfl⟩

/-- A close that takes the last writer off an empty pipe loses nothing, and one
that does not leaves the pipe open. -/
theorem closePipe_inOrder {pipe : Pipe} {past : Past} (h : InOrder pipe past)
    (he : pipe.writers = 1 → pipe.count = 0) :
    InOrder (closePipe pipe).2 past ∧
      (pipe.writers ≠ 1 → (closePipe pipe).2.isOpen = pipe.isOpen) := by
  unfold closePipe
  split
  · exact ⟨h, fun _ => rfl⟩
  · dsimp only
    split
    · have h1 : pipe.writers = 1 := by omega
      have hempty : pipe.contents = [] := by
        have hlen := RingBuffer.length_contents PIPE_BUFFER_SIZE pipe.ring
        rw [show pipe.ring.count = 0 from he h1] at hlen
        exact List.eq_nil_of_length_eq_zero hlen
      refine ⟨⟨⟨(by decide : 0 < PIPE_BUFFER_SIZE), Nat.zero_le _⟩, rfl, ?_⟩,
        fun hne => absurd h1 hne⟩
      rw [h.bytes, hempty]
      rfl
    · exact ⟨⟨h.ring, h.writeIdx, h.bytes⟩, fun _ => rfl⟩

/-! ## Who is inside `readPipe` -/

/-- The call is a `readPipe` on the slot. -/
def readsFrom (x : Nat) : Option Job → Prop
  | some (.io t _) => t.request.way = .read ∧ t.pipe = x
  | _ => False

instance (x : Nat) (job : Option Job) : Decidable (readsFrom x job) := by
  unfold readsFrom
  split <;> infer_instance

/-- A close that takes the last writer off finds the pipe empty, and no process
inside `readPipe`. -/
def endsEmpty (m : PipeSystem H) (a : Act) : Prop :=
  ∀ c ∈ closing m a, (m.pipe c.1).writers = 1 →
    (m.pipe c.1).count = 0 ∧ ∀ p ∈ m.system.scheduler.procs, ¬ readsFrom c.1 (m.jobs p)

instance (m : PipeSystem H) (a : Act) : Decidable (endsEmpty m a) :=
  inferInstanceAs (Decidable (∀ c ∈ closing m a, _))

structure Drains (m : PipeSystem H) : Prop where
  order : ∀ x, InOrder (m.pipe x) (m.past x)
  inside : ∀ p t generation, m.jobs p = some (.io t generation) → t.request.way = .read →
    (m.pipe t.pipe).isOpen = true ∧ generation = m.generation t.pipe
  alive : ∀ p, m.jobs p ≠ none →
    p ∈ m.system.scheduler.procs ∨ m.system.scheduler.currentProcess = some p

theorem settle_jobs {m : PipeSystem H} {s : System H} {p : Pcb} {job : Job}
    (h : (m.settle s).jobs p = some job) : m.jobs p = some job := by
  unfold PipeSystem.settle at h
  dsimp only at h
  split at h
  · exact h
  · cases h

theorem settle_alive (m : PipeSystem H) (s : System H) (p : Pcb) (h : (m.settle s).jobs p ≠ none) :
    p ∈ s.scheduler.procs ∨ s.scheduler.currentProcess = some p := by
  unfold PipeSystem.settle at h
  dsimp only at h
  split at h
  · assumption
  · exact absurd rfl h

theorem pipe_setPipe (m : PipeSystem H) (x y : Nat) (pipe : Pipe) :
    (m.setPipe x pipe).pipe y = if y = x then pipe else m.pipe y := by
  by_cases h : y = x
  · subst h
    rw [if_pos rfl]
    exact Function.update_self _ _ _
  · rw [if_neg h]
    exact Function.update_of_ne h _ _

theorem jobs_setJob (m : PipeSystem H) (p q : Pcb) (job : Option Job) :
    (m.setJob p job).jobs q = if q = p then job else m.jobs q := by
  by_cases h : q = p
  · subst h
    rw [if_pos rfl]
    exact Function.update_self _ _ _
  · rw [if_neg h]
    exact Function.update_of_ne h _ _

/-- The index that a call gets is that of an open pipe. -/
theorem start_open {r : Request} {mgr : PipeManager} {t : Task} (h : r.start mgr = some t) :
    (mgr.pipes t.pipe).isOpen = true := by
  unfold Request.start at h
  split at h
  · rename_i x _ hx _
    split at h
    · cases h
    · cases h
      unfold validatePipeId at hx
      split at hx
      · cases hx
      · split at hx
        · cases hx
        · dsimp only at hx
          split at hx
          · cases hx
          · rename_i hopen
            cases hx
            simpa using hopen
  · cases h

/-! ## The pipes of others -/

/-- The slot that a process is inside a call on. -/
def slotOf : Option Job → Option Nat
  | some (.io t _) => some t.pipe
  | some (.close x _ _) => some x
  | _ => none

section Others

variable [MemoryManager H]

/-- A turn changes the job of nobody else, and no pipe but the one that it is inside a
call on, if the pipe is open. -/
theorem turn_others (m : PipeSystem H) (p : Pcb) (a : Act) :
    (∀ q, q ≠ p → (turn m p a).2.jobs q = m.jobs q) ∧
      ∀ x, (m.pipe x).isOpen = true → slotOf (m.jobs p) ≠ some x →
        (turn m p a).2.pipe x = m.pipe x ∧ (turn m p a).2.past x = m.past x := by
  have hjob : ∀ (m' : PipeSystem H) (job : Option Job) (q : Pcb), q ≠ p →
      (m'.setJob p job).jobs q = m'.jobs q := fun m' job q hq => by
    rw [jobs_setJob, if_neg hq]
  have hclose : ∀ pipe_id generation exits rsp,
      (∀ q, q ≠ p → (beginClose m p pipe_id generation exits rsp).2.jobs q = m.jobs q) ∧
        ∀ x, (beginClose m p pipe_id generation exits rsp).2.pipe x = m.pipe x ∧
          (beginClose m p pipe_id generation exits rsp).2.past x = m.past x := by
    intro pipe_id generation exits rsp
    unfold beginClose
    split
    · split
      · exact ⟨hjob m _, fun x => ⟨rfl, rfl⟩⟩
      · exact ⟨fun q _ => rfl, fun x => ⟨rfl, rfl⟩⟩
    · exact ⟨hjob m _, fun x => ⟨rfl, rfl⟩⟩
  unfold turn
  split
  · rename_i rsp job hp
    rw [hp]
    cases job with
    | io t generation =>
      refine ⟨hjob _ _, fun x _ hx => ?_⟩
      have hne : x ≠ t.pipe := fun h => hx (h ▸ rfl)
      exact ⟨(pipe_setPipe m _ _ _).trans (if_neg hne), Function.update_of_ne hne _ _⟩
    | close y generation exits =>
      have hset : ∀ x, slotOf (some (.close y generation exits)) ≠ some x →
          (m.setPipe y (closePipe (m.pipe y)).2).pipe x = m.pipe x := fun x hx =>
        (pipe_setPipe m _ _ _).trans (if_neg fun h => hx (by rw [h]; rfl))
      unfold proceed
      dsimp only
      split
      · exact ⟨hjob _ _, fun x _ hx => ⟨hset x hx, rfl⟩⟩
      · exact ⟨hjob _ _, fun x _ hx => ⟨hset x hx, rfl⟩⟩
    | exit => exact ⟨hjob _ _, fun x _ _ => ⟨rfl, rfl⟩⟩
  · split
    · exact ⟨fun q _ => rfl, fun x _ _ => ⟨rfl, rfl⟩⟩
    · rename_i i hi
      refine ⟨fun q _ => rfl, fun x hopen _ => ?_⟩
      have hne : x ≠ i := by
        rintro rfl
        have hfree := List.find?_some hi
        simp [show (m.manager.pipes x).isOpen = true from hopen] at hfree
      refine ⟨?_, Function.update_of_ne hne _ _⟩
      simp only [PipeSystem.pipe, createPipe_manager m.system m.manager hi]
      exact Function.update_of_ne hne _ _
  · split
    · exact ⟨fun q _ => rfl, fun x _ _ => ⟨rfl, rfl⟩⟩
    · exact ⟨hjob m _, fun x _ _ => ⟨rfl, rfl⟩⟩
  · exact ⟨(hclose ..).1, fun x _ _ => (hclose ..).2 x⟩
  · dsimp only
    split
    · exact ⟨(hclose ..).1, fun x _ _ => (hclose ..).2 x⟩
    · exact ⟨fun q _ => rfl, fun x _ _ => ⟨rfl, rfl⟩⟩
  · exact ⟨fun q _ => rfl, fun x _ _ => ⟨rfl, rfl⟩⟩

/-- An act is about the job of the current process and the pipe of this job. -/
theorem act_others (m : PipeSystem H) (a : Act) :
    (∀ q job, m.system.scheduler.currentProcess ≠ some q → (act m a).jobs q = some job →
        m.jobs q = some job) ∧
      ∀ x, (m.pipe x).isOpen = true →
        ((∀ c, a ≠ .call c) → ∀ p ∈ m.system.scheduler.currentProcess,
          slotOf (m.jobs p) ≠ some x) →
        (act m a).pipe x = m.pipe x ∧ (act m a).past x = m.past x := by
  by_cases hcall : ∃ c, a = .call c
  · obtain ⟨c, rfl⟩ := hcall
    exact ⟨fun q job _ h => settle_jobs h, fun x _ _ => ⟨rfl, rfl⟩⟩
  have ha : ∀ c, a ≠ .call c := fun c hc => hcall ⟨c, hc⟩
  cases hcur : m.system.scheduler.currentProcess with
  | none =>
    rw [act_idle ha hcur]
    exact ⟨fun q job _ h => h, fun x _ _ => ⟨rfl, rfl⟩⟩
  | some p =>
    rw [act_turn ha hcur]
    obtain ⟨hjobs, hpipes⟩ := turn_others m p a
    refine ⟨fun q job hq h => ?_, fun x hopen hslot => hpipes x hopen (hslot ha p rfl)⟩
    rw [← hjobs q (fun h => hq (h ▸ rfl))]
    exact settle_jobs h

end Others

/-! ## The moves -/

theorem drains_settle {m : PipeSystem H} (horder : ∀ x, InOrder (m.pipe x) (m.past x))
    (hinside : ∀ p t generation, m.jobs p = some (.io t generation) → t.request.way = .read →
      (m.pipe t.pipe).isOpen = true ∧ generation = m.generation t.pipe) (s : System H) :
    Drains (m.settle s) :=
  ⟨horder, fun p t generation hp => hinside p t generation (settle_jobs hp), settle_alive m s⟩

/-- A new job of one process that is not a read. -/
theorem inside_setJob {m : PipeSystem H} (h : Drains m) {p : Pcb} {job : Option Job}
    (hjob : ∀ t generation, job ≠ some (.io t generation)) :
    ∀ q t generation, (m.setJob p job).jobs q = some (.io t generation) → t.request.way = .read →
      (m.pipe t.pipe).isOpen = true ∧ generation = m.generation t.pipe := by
  intro q t generation hq hway
  rw [jobs_setJob] at hq
  split at hq
  · exact absurd hq (hjob t generation)
  · exact h.inside q t generation hq hway

theorem drains_opens {m : PipeSystem H} (h : Drains m) (s : System H) {i : Nat}
    (hi : freeSlot m.manager = some i) :
    Drains (({ m with
      manager := m.manager.opened i
      past := Function.update m.past i .start
      generation := Function.update m.generation i (m.generation i + 1) } :
        PipeSystem H).settle s) := by
  have hfree : (m.pipe i).isOpen = false := by
    simpa [PipeSystem.pipe] using List.find?_some hi
  have hpipe : ∀ x, (m.manager.opened i).pipes x =
      if x = i then newPipe m.manager.next_sem_id else m.pipe x := fun x => by
    by_cases hx : x = i
    · subst hx; simp [PipeManager.opened, PipeManager.setPipe]
    · simp [PipeManager.opened, PipeManager.setPipe, hx, PipeSystem.pipe]
  refine drains_settle (fun x => ?_) (fun p t generation hp hway => ?_) s
  · rw [PipeSystem.pipe, hpipe]
    by_cases hx : x = i
    · subst hx
      rw [if_pos rfl]
      dsimp only
      rw [Function.update_self]
      exact inOrder_new _
    · rw [if_neg hx]
      dsimp only
      rw [Function.update_of_ne hx]
      exact h.order x
  · obtain ⟨hopen, hgen⟩ := h.inside p t generation hp hway
    have hne : t.pipe ≠ i := fun he => by
      rw [he, hfree] at hopen
      cases hopen
    rw [PipeSystem.pipe, hpipe, if_neg hne]
    dsimp only
    rw [Function.update_of_ne hne]
    exact ⟨hopen, hgen⟩

theorem drains_turns {m : PipeSystem H} (h : Drains m) (s : System H) {p : Pcb} {t : Task}
    {generation : Nat} (rsp : Addr) (hp : m.jobs p = some (.io t generation)) :
    Drains (({ (m.setPipe t.pipe (t.move ⟨m.manager, m.past t.pipe⟩ rsp).pipe).setJob p
        (if (t.move ⟨m.manager, m.past t.pipe⟩ rsp).returned.isSome then none
          else some (.io (t.move ⟨m.manager, m.past t.pipe⟩ rsp).task generation)) with
      past := Function.update m.past t.pipe (t.move ⟨m.manager, m.past t.pipe⟩ rsp).past } :
        PipeSystem H).settle s) := by
  obtain ⟨horder, hopen, hrequest, htask⟩ :=
    move_inOrder t (g := ⟨m.manager, m.past t.pipe⟩) (h.order t.pipe) rsp
  generalize t.move ⟨m.manager, m.past t.pipe⟩ rsp = move at horder hopen hrequest htask
  have hopen' : ∀ x, ((m.setPipe t.pipe move.pipe).pipe x).isOpen = (m.pipe x).isOpen := fun x => by
    rw [pipe_setPipe]
    split
    · rename_i hx
      rw [hx]
      exact hopen
    · rfl
  refine drains_settle (fun x => ?_) (fun q u gen hq hway => ?_) s
  · show InOrder ((m.setPipe t.pipe move.pipe).pipe x) (Function.update m.past t.pipe move.past x)
    rw [pipe_setPipe]
    by_cases hx : x = t.pipe
    · subst hx
      rw [if_pos rfl, Function.update_self]
      exact horder
    · rw [if_neg hx, Function.update_of_ne hx]
      exact h.order x
  · show ((m.setPipe t.pipe move.pipe).pipe u.pipe).isOpen = true ∧ gen = m.generation u.pipe
    rw [hopen']
    have hjob := (jobs_setJob (m.setPipe t.pipe move.pipe) p q (if move.returned.isSome then none
      else some (.io move.task generation))).symm.trans hq
    split at hjob
    · rename_i hqp
      split at hjob
      · cases hjob
      · cases hjob
        rw [hrequest] at hway
        rw [htask]
        exact h.inside p t generation hp hway
    · exact h.inside q u gen hjob hway

theorem drains_closes {m : PipeSystem H} (h : Drains m) (s : System H) {p : Pcb}
    {x generation : Nat} {exits : Bool} (hcur : m.system.scheduler.currentProcess = some p)
    (hp : m.jobs p = some (.close x generation exits))
    (hok : (m.pipe x).writers = 1 →
      (m.pipe x).count = 0 ∧ ∀ p ∈ m.system.scheduler.procs, ¬ readsFrom x (m.jobs p)) :
    Drains (((m.setPipe x (closePipe (m.pipe x)).2).setJob p
      (if exits then some .exit else none)).settle s) := by
  obtain ⟨horder, hopen⟩ := closePipe_inOrder (h.order x) fun hw => (hok hw).1
  refine drains_settle (fun y => ?_) (fun q u gen hq hway => ?_) s
  · show InOrder ((m.setPipe x (closePipe (m.pipe x)).2).pipe y) (m.past y)
    rw [pipe_setPipe]
    split
    · rename_i hy
      rw [hy]
      exact horder
    · exact h.order y
  · have hjob : ∀ t generation, (if exits then some Job.exit else none) ≠
        some (.io t generation) := fun t generation => by cases exits <;> simp
    obtain ⟨hu, hgen⟩ := inside_setJob h hjob q u gen hq hway
    refine ⟨?_, hgen⟩
    show ((m.setPipe x (closePipe (m.pipe x)).2).pipe u.pipe).isOpen = true
    rw [pipe_setPipe]
    split
    · rename_i hy
      rw [hy] at hu
      by_cases hw : (m.pipe x).writers = 1
      · -- a reader of the pipe is not the process that closes it
        rw [jobs_setJob] at hq
        have hqp : q ≠ p := fun he => by
          rw [if_pos he] at hq
          exact hjob u gen hq
        have hqjob : m.jobs q = some (.io u gen) := by
          rw [if_neg hqp] at hq
          exact hq
        rcases h.alive q (by rw [hqjob]; simp) with hq' | hq'
        · exact absurd ⟨hway, hy⟩ (hqjob ▸ (hok hw).2 q hq')
        · rw [hcur] at hq'
          exact absurd (Option.some.inj hq').symm hqp
      · rw [hopen hw, hu]
    · exact hu

theorem drains_moves {m m' : PipeSystem H} {a : Act} (h : Drains m) (hok : endsEmpty m a)
    (hm : Moves m a m') : Drains m' := by
  cases hm with
  | idles => exact h
  | stays s => exact drains_settle h.order h.inside s
  | opens s i hi => exact drains_opens h s hi
  | starts s p r t hp ht =>
    refine drains_settle (m := m.setJob p _) h.order (fun q u gen hq hway => ?_) s
    rw [jobs_setJob] at hq
    split at hq
    · cases hq
      exact ⟨start_open ht, rfl⟩
    · exact h.inside q u gen hq hway
  | asks s p pipe_id x generation exits hp hx =>
    exact drains_settle (m := m.setJob p _) h.order (inside_setJob h (by simp)) s
  | turns s p t generation rsp hp => exact drains_turns h s rsp hp
  | closes s p x generation exits hcur hp hclosing =>
    exact drains_closes h s hcur hp (hok (x, generation) hclosing)
  | exits s p job hjob =>
    refine drains_settle (m := m.setJob p job) h.order (inside_setJob h ?_) s
    rcases hjob with rfl | rfl <;> simp

/-! ## Every run -/

/-- No byte is lost, a read of a closed pipe returns at once, and no reader is
blocked inside a `readPipe` on a pipe that is closed. -/
structure EndOfFile (m : PipeSystem H) : Prop where
  kept : ∀ x, (m.past x).written = (m.past x).delivered ++ (m.pipe x).contents
  returns : ∀ (r : Request) (x : Nat), r.pipe_id = (x : Int) + 3 → (m.pipe x).isOpen = false →
    r.start m.manager = none
  blocked : ∀ p t generation, m.jobs p = some (.io t generation) → t.request.way = .read →
    m.system.scheduler.status p = .BLOCKED →
    (m.pipe t.pipe).isOpen = true ∧ generation = m.generation t.pipe

theorem start_closed {r : Request} {mgr : PipeManager} {x : Nat} (hid : r.pipe_id = (x : Int) + 3)
    (hclosed : (mgr.pipes x).isOpen = false) : r.start mgr = none := by
  cases hs : r.start mgr with
  | none => rfl
  | some t =>
    have hpipe : t.pipe = x := by
      unfold Request.start validatePipeId at hs
      split at hs
      · rename_i y _ hy _
        split at hs
        · cases hs
        · cases hs
          split at hy
          · cases hy
          · split at hy
            · cases hy
            · dsimp only at hy
              split at hy
              · cases hy
              · cases hy
                dsimp only
                omega
      · cases hs
    have hopen := start_open hs
    rw [hpipe, hclosed] at hopen
    cases hopen

/-- The process is blocked inside a `readPipe` on the slot, which is closed. -/
def StuckReader (m : PipeSystem H) (x : Nat) (p : Pcb) : Prop :=
  readsFrom x (m.jobs p) ∧ m.system.scheduler.status p = .BLOCKED ∧ (m.pipe x).isOpen = false

instance (m : PipeSystem H) (x : Nat) (p : Pcb) : Decidable (StuckReader m x p) :=
  inferInstanceAs (Decidable (_ ∧ _))

/-- Bytes that were not delivered are no longer in the slot. -/
def LostBytes (m : PipeSystem H) (x : Nat) : Prop :=
  (m.pipe x).count = 0 ∧ (m.past x).written ≠ (m.past x).delivered

instance (m : PipeSystem H) (x : Nat) : Decidable (LostBytes m x) :=
  inferInstanceAs (Decidable (_ ∧ _))

theorem StuckReader.not_endOfFile {m : PipeSystem H} {x : Nat} {p : Pcb} (hs : StuckReader m x p) :
    ¬ EndOfFile m := by
  intro h
  obtain ⟨hreads, hblocked, hclosed⟩ := hs
  unfold readsFrom at hreads
  split at hreads
  · rename_i t generation hjob
    obtain ⟨hway, rfl⟩ := hreads
    have hopen := (h.blocked p t generation hjob hway hblocked).1
    rw [hclosed] at hopen
    cases hopen
  · exact hreads

theorem LostBytes.not_endOfFile {m : PipeSystem H} {x : Nat} (hl : LostBytes m x) :
    ¬ EndOfFile m := by
  intro h
  have hlen := RingBuffer.length_contents PIPE_BUFFER_SIZE (m.pipe x).ring
  have hempty : (m.pipe x).contents = [] := List.eq_nil_of_length_eq_zero (hlen.trans hl.1)
  refine hl.2 ((h.kept x).trans ?_)
  rw [hempty, List.append_nil]

theorem Drains.endOfFile {m : PipeSystem H} (h : Drains m) : EndOfFile m :=
  ⟨fun x => (h.order x).bytes, fun _ _ hid hclosed => start_closed hid hclosed,
    fun p t generation hp hway _ => h.inside p t generation hp hway⟩

variable [MemoryManager H]

theorem drains_booted {m : PipeSystem H} (h : BootedPipes m) : Drains m := by
  have hpipe : ∀ x, m.pipe x = ⟨fun _ => 0, 0, 0, 0, -1, -1, -1, 0, 0, false⟩ := fun x => by
    rw [PipeSystem.pipe, h.manager]
    rfl
  refine ⟨fun x => ?_, fun p t generation hp => ?_, fun p hp => absurd (h.jobs p) hp⟩
  · rw [hpipe, h.past]
    exact ⟨⟨(by decide : 0 < PIPE_BUFFER_SIZE), Nat.zero_le _⟩, rfl, rfl⟩
  · rw [h.jobs p] at hp
    cases hp

/-- In every run in which the pipes are empty and nobody is inside `readPipe` when
they lose their last writer, every pipe ends well. -/
theorem a_pipe_ends_well_when_it_is_empty_and_nobody_reads {boot : PipeSystem H}
    (hboot : BootedPipes boot) {acts : List Act} (hok : Meets act endsEmpty boot acts) :
    EndOfFile (run act boot acts) :=
  (run_invariant (fun m a h ha => drains_moves h ha (moves_act m a)) (drains_booted hboot)
    hok).endOfFile

/-- The writer writes two bytes, and closes the pipe when the reader has them. -/
def readerGetsTheBytes : List Act :=
  readerBlocks ++ .io ⟨.write, 3, some (fun _ => 7), 2⟩ :: List.replicate 7 (.go 10) ++
  [.call (.scheduler (.yield 11)), .call (.scheduler (.yield 12)),
    .call (.scheduler (.yield 13))] ++ List.replicate 6 (.go 14) ++
  [.call (.scheduler (.yield 15)), .closePipe 3 1 16, .go 17]

theorem a_pipe_ends_well_when_the_reader_has_the_bytes :
    EndOfFile (run act endlessPipes readerGetsTheBytes) :=
  a_pipe_ends_well_when_it_is_empty_and_nobody_reads booted_endlessPipes (by decide +kernel)

/-- The writer closes the pipe before anybody reads its byte. -/
def unreadByte : List Act :=
  [.call (.scheduler (.createProcess 2 none 0 1 none 0)), .call (.scheduler (.yield 3)),
    .call (.scheduler (.yield 4)), .createPipe, .io ⟨.write, 3, some (fun _ => 7), 1⟩] ++
  List.replicate 4 (.go 5) ++ [.closePipe 3 1 6, .go 7]

/-- The reader that `closePipe` wakes blocks for ever on the mutex, and the byte
is gone. -/
theorem closePipe_blocks_the_reader_and_drops_the_byte :
    (Meets act (eachCall sparesIdle) endlessPipes readerMeetsTheEnd ∧
        ¬ EndOfFile (run act endlessPipes readerMeetsTheEnd) ∧
        ((run act endlessPipes readerMeetsTheEnd).system.sem 102).waitQueue = none) ∧
      Meets act (eachCall sparesIdle) endlessPipes unreadByte ∧
      ¬ EndOfFile (run act endlessPipes unreadByte) := by
  have hreader : Meets act (eachCall sparesIdle) endlessPipes readerMeetsTheEnd ∧
      StuckReader (run act endlessPipes readerMeetsTheEnd) 0 2 ∧
      ((run act endlessPipes readerMeetsTheEnd).system.sem 102).waitQueue = none := by
    decide +kernel
  have hbyte : Meets act (eachCall sparesIdle) endlessPipes unreadByte ∧
      LostBytes (run act endlessPipes unreadByte) 0 := by
    decide +kernel
  exact ⟨⟨hreader.1, hreader.2.1.not_endOfFile, hreader.2.2⟩, hbyte.1, hbyte.2.not_endOfFile⟩

end bare_bones.pipe_manager
