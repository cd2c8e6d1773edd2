-- What the steps of the manager, the writers and the readers of `mvar` do to the pipe of
-- the variable. Only the calls on it put and take values, one byte at a time.
import BareBones.Mvar

namespace bare_bones.mvar

open bare_bones.builtinFunctions (isNumber number)
open bare_bones.process bare_bones.scheduler bare_bones.semaphore bare_bones.pipe_manager
open bare_bones.numerals (numeral number_numeral isNumber_numeral)
open runs ring_buffer

variable {H : Type}

namespace World

/-- The past of the variable. -/
def past (w : World H) : Past :=
  match w.slot with
  | none => .start
  | some x => w.pipes.past x

/-- The completed writes. -/
def writes (w : World H) : Nat := w.past.written.length

/-- The completed reads. -/
def reads (w : World H) : Nat := w.taken.length

def pending (w : World H) : Int := (w.writes : Int) - w.reads

/-- The call on the pipe that a writer or a reader goes on with when it runs. -/
def task (w : World H) : Option Task :=
  match w.pipes.system.scheduler.currentProcess with
  | none => none
  | some p =>
    if p = w.manager_pcb then none
    else
      match w.actors p, w.pipes.jobs p with
      | some a, some (.io t _) => if a.line = .inside then some t else none
      | _, _ => none

end World

theorem task_some {w : World H} {t : Task} (h : w.task = some t) :
    ∃ p a generation, w.pipes.system.scheduler.currentProcess = some p ∧ p ≠ w.manager_pcb ∧
      w.actors p = some a ∧ a.line = .inside ∧ w.pipes.jobs p = some (.io t generation) := by
  unfold World.task at h
  split at h
  · cases h
  · rename_i p hcur
    split at h
    · cases h
    · rename_i hm
      split at h
      · rename_i a u generation ha hjob
        split at h
        · rename_i hline
          rw [← Option.some.inj h]
          exact ⟨p, a, generation, hcur, hm, ha, hline, hjob⟩
        · cases h
      · cases h

/-- The slot that a process goes on to close. -/
def closes : Option Job → Option Nat
  | some (.close x _ _) => some x
  | _ => none

/-- The pipe belongs to `mvar`: nobody closes it, and the acts of other processes are
not calls on it. -/
def ownPipe (w : World H) : Event → Prop
  | .run _ => ∀ p ∈ w.pipes.system.scheduler.currentProcess, ∀ x ∈ w.slot,
      closes (w.pipes.jobs p) ≠ some x
  | .other (.call _) => True
  | .other _ => ∀ p ∈ w.pipes.system.scheduler.currentProcess,
      p ≠ w.manager_pcb ∧ (w.actors p).isNone ∧ ∀ x ∈ w.slot, slotOf (w.pipes.jobs p) ≠ some x

instance (w : World H) : ∀ e, Decidable (ownPipe w e)
  | .run _ => inferInstanceAs (Decidable (∀ p ∈ _, ∀ x ∈ w.slot, _))
  | .other (.call _) => isTrue trivial
  | .other .createPipe | .other (.io _) | .other (.closePipe ..) | .other (.syscall_exit ..)
  | .other (.go _) => inferInstanceAs (Decidable (∀ p ∈ _, _ ∧ _ ∧ _))

/-! ## The invariant -/

/-- After the manager created the pipe, and before it leaves. -/
def Manager.Line.spawning : Manager.Line → Bool
  | .spawn | .log_wait | .log_post => true
  | _ => false

/-- Before the manager created the pipe. -/
def Manager.Line.opening : Manager.Line → Bool
  | .start | .sem_destroy | .sem_create | .pipe_create => true
  | _ => false

/-- The arguments are read, and the process does not leave. -/
def Line.working : Line → Bool
  | .start | .exit | .leaving => false
  | _ => true

structure Unopened (w : World H) : Prop where
  slot : w.slot = none
  line : w.manager.line.spawning = false
  actors : ∀ p, w.actors p = none
  taken : w.taken = []

/-- A writer or a reader of the pipe in the slot `x`. -/
structure Actor.Ok (x : Nat) (a : Actor) (job : Option Job) : Prop where
  argv : a.argv.bind (· 2) = some (numeral 10 (x + 3))
  pipe : a.line.working = true → a.value_pipe = (x : Int) + 3
  job : a.line = .inside → ∀ t generation, job = some (.io t generation) → t.pipe = x

structure Opened (x : Nat) (w : World H) : Prop where
  slot : w.slot = some x
  lt : x < MAX_PIPES
  isOpen : (w.pipes.pipe x).isOpen = true
  order : InOrder (w.pipes.pipe x) (w.pipes.past x)
  taken : w.taken.map Prod.snd = (w.pipes.past x).delivered
  line : w.manager.line.opening = false
  value_pipe_id : w.manager.value_pipe_id = (x : Int) + 3
  actors : ∀ p a, p ≠ w.manager_pcb → w.actors p = some a → a.Ok x (w.pipes.jobs p)

theorem Opened.past {x : Nat} {w : World H} (h : Opened x w) : World.past w = w.pipes.past x := by
  rw [World.past, h.slot]

/-- The pending values are those in the pipe. -/
theorem Opened.pending {x : Nat} {w : World H} (h : Opened x w) :
    w.pending = (w.pipes.pipe x).count := by
  have hbytes := congrArg List.length h.order.bytes
  have hcontents : (w.pipes.pipe x).contents.length = (w.pipes.pipe x).count :=
    RingBuffer.length_contents PIPE_BUFFER_SIZE (w.pipes.pipe x).ring
  have htaken := congrArg List.length h.taken
  rw [List.length_append, hcontents] at hbytes
  rw [List.length_map] at htaken
  rw [World.pending, World.writes, World.reads, h.past]
  omega

/-! ## The steps that leave the pipe alone -/

/-- Nobody used the pipe, and only the current process may have got another job. -/
structure Spares (x : Nat) (m m' : PipeSystem H) : Prop where
  pipe : m'.pipe x = m.pipe x
  past : m'.past x = m.past x
  jobs : ∀ q job, m.system.scheduler.currentProcess ≠ some q → m'.jobs q = some job →
    m.jobs q = some job

theorem Spares.refl (x : Nat) (m : PipeSystem H) : Spares x m m :=
  ⟨rfl, rfl, fun _ _ _ h => h⟩

/-- What a step leaves when it does not use the pipe. -/
structure Keeps (x : Nat) (w w' : World H) : Prop where
  opened : Opened x w'
  past : w'.pipes.past x = w.pipes.past x
  taken : w'.taken = w.taken

section Quiet

variable {x : Nat} {w w' : World H} {p : Pcb}

/-- Another line or another job does not matter to a process outside of its calls. -/
theorem Actor.Ok.goto {a : Actor} {job job' : Option Job} {line : Line} (h : a.Ok x job)
    (hpipe : line.working = true → a.line.working = true) (hinside : line ≠ .inside) :
    ({ a with line } : Actor).Ok x job' :=
  ⟨h.argv, fun hw => h.pipe (hpipe hw), fun hl => absurd hl hinside⟩

theorem Actor.Ok.loses {a : Actor} {job job' : Option Job} (h : a.Ok x job)
    (hjob : ∀ j, job' = some j → job = some j) : a.Ok x job' :=
  ⟨h.argv, h.pipe, fun hl t generation ht => h.job hl t generation (hjob _ ht)⟩

theorem Opened.kept (h : Opened x w) (hs : Spares x w.pipes w'.pipes) (hslot : w'.slot = w.slot)
    (htaken : w'.taken = w.taken) (hline : w'.manager.line.opening = false)
    (hid : w'.manager.value_pipe_id = w.manager.value_pipe_id)
    (hactors : ∀ q a, q ≠ w'.manager_pcb → w'.actors q = some a → a.Ok x (w'.pipes.jobs q)) :
    Keeps x w w' := by
  refine ⟨⟨hslot.trans h.slot, h.lt, ?_, ?_, ?_, hline, hid.trans h.value_pipe_id, hactors⟩,
    hs.past, htaken⟩
  · rw [hs.pipe]
    exact h.isOpen
  · rw [hs.pipe, hs.past]
    exact h.order
  · rw [htaken, hs.past]
    exact h.taken

/-- The writers and readers other than the current process stay where they are. -/
theorem Opened.others (h : Opened x w) (hs : Spares x w.pipes w'.pipes)
    (hcur : w.pipes.system.scheduler.currentProcess = some p) {q : Pcb} {a : Actor} (hq : q ≠ p)
    (hm : q ≠ w.manager_pcb) (ha : w.actors q = some a) : a.Ok x (w'.pipes.jobs q) := by
  refine (h.actors q a hm ha).loses fun j hj => hs.jobs q j ?_ hj
  rw [hcur]
  exact fun he => hq (Option.some.inj he).symm

theorem ok_update {actors : Pcb → Option Actor} {jobs : Pcb → Option Job} {a b : Actor} {q : Pcb}
    (hok : a.Ok x (jobs p)) (hb : Function.update actors p (some a) q = some b)
    (hothers : q ≠ p → actors q = some b → b.Ok x (jobs q)) : b.Ok x (jobs q) := by
  by_cases hq : q = p
  · subst hq
    rw [Function.update_self] at hb
    rw [← Option.some.inj hb]
    exact hok
  · rw [Function.update_of_ne hq] at hb
    exact hothers hq hb

/-- A writer or a reader moves on. -/
theorem Opened.actor (h : Opened x w) (hcur : w.pipes.system.scheduler.currentProcess = some p)
    {a : Actor} (hs : Spares x w.pipes w'.pipes) (hslot : w'.slot = w.slot)
    (htaken : w'.taken = w.taken)
    (hmanager : w'.manager = w.manager ∧ w'.manager_pcb = w.manager_pcb)
    (hactors : w'.actors = Function.update w.actors p (some a))
    (hok : a.Ok x (w'.pipes.jobs p)) : Keeps x w w' := by
  refine h.kept hs hslot htaken (hmanager.1 ▸ h.line) (by rw [hmanager.1]) fun q b hm hb => ?_
  rw [hmanager.2] at hm
  rw [hactors] at hb
  exact ok_update hok hb fun hq ha => h.others hs hcur hq hm ha

theorem Opened.set (h : Opened x w) {a : Actor} (hok : a.Ok x (w.pipes.jobs p)) :
    Opened x (w.setActor p a) := by
  have hsame : Spares x w.pipes (w.setActor p a).pipes := Spares.refl x w.pipes
  refine (h.kept hsame rfl rfl h.line rfl fun q b hq hb => ?_).opened
  exact ok_update hok hb fun _ ha => h.actors q b hq ha

variable [MemoryManager H]

theorem spares_act (h : Opened x w) {a : Act}
    (hslot : (∀ c, a ≠ .call c) → ∀ p ∈ w.pipes.system.scheduler.currentProcess,
      slotOf (w.pipes.jobs p) ≠ some x) : Spares x w.pipes (pipe_manager.act w.pipes a) := by
  obtain ⟨hjobs, hpipes⟩ := act_others w.pipes a
  obtain ⟨hpipe, hpast⟩ := hpipes x h.isOpen hslot
  exact ⟨hpipe, hpast, hjobs⟩

theorem spares_call (h : Opened x w) (c : Call) :
    Spares x w.pipes (pipe_manager.act w.pipes (.call c)) :=
  spares_act h fun hc => absurd rfl (hc c)

theorem spares_current (h : Opened x w)
    (hcur : w.pipes.system.scheduler.currentProcess = some p)
    (hslot : slotOf (w.pipes.jobs p) ≠ some x) (a : Act) :
    Spares x w.pipes (pipe_manager.act w.pipes a) :=
  spares_act h fun _ q hq => by
    rw [hcur] at hq
    rw [← Option.some.inj hq]
    exact hslot

theorem spares_outside (h : Opened x w)
    (hcur : w.pipes.system.scheduler.currentProcess = some p) (hnone : w.pipes.jobs p = none)
    (a : Act) : Spares x w.pipes (pipe_manager.act w.pipes a) := by
  apply spares_current h hcur
  rw [hnone]
  exact (Option.some_ne_none x).symm

/-! ## The lines of the processes -/

omit [MemoryManager H] in
/-- The id of the pipe comes through the arguments as it is. -/
theorem number_of_numeral {n : Nat} (hn : n < 2 ^ 31) :
    (number ((numeral 10 n).takeWhile isNumber)).toInt = n := by
  have hdigits : (numeral 10 n).takeWhile isNumber = numeral 10 n :=
    List.takeWhile_eq_self_iff.mpr fun _ hc => isNumber_numeral hc
  rw [hdigits, number_numeral]
  exact Int32.toInt_ofNat_of_lt hn

omit [MemoryManager H] in
theorem start_slot {r : Request} {mgr : PipeManager} {t : Task} (h : r.start mgr = some t)
    (hid : r.pipe_id = (x : Int) + 3) : t.pipe = x := by
  have hindex : ((x : Int) + 3 - 3).toNat = x := by omega
  unfold Request.start at h
  split at h
  · rename_i y _ hy _
    split at h
    · cases h
    · cases h
      unfold validatePipeId at hy
      rw [hid, hindex] at hy
      split at hy
      · cases hy
      · split at hy
        · cases hy
        · dsimp only at hy
          split at hy
          · cases hy
          · exact (Option.some.inj hy).symm
  · cases h

/-- The job of a process that started a call on the pipe. -/
theorem act_io_job (hcur : w.pipes.system.scheduler.currentProcess = some p)
    (hnone : w.pipes.jobs p = none) {r : Request} (hid : r.pipe_id = (x : Int) + 3) {t : Task}
    {generation : Nat}
    (hjob : (pipe_manager.act w.pipes (.io r)).jobs p = some (.io t generation)) : t.pipe = x := by
  rw [act_turn (fun _ h => by cases h) hcur] at hjob
  have hturn := settle_jobs hjob
  simp only [turn, hnone] at hturn
  split at hturn
  · rw [hnone] at hturn
    cases hturn
  · rename_i u hu
    rw [jobs_setJob, if_pos rfl] at hturn
    cases hturn
    exact start_slot hu hid

/-- A writer or a reader outside of its call. -/
theorem transfers_keeps (h : Opened x w)
    (hcur : w.pipes.system.scheduler.currentProcess = some p)
    (hown : closes (w.pipes.jobs p) ≠ some x) {a : Actor} (hm : p ≠ w.manager_pcb)
    (ha : w.actors p = some a) (hline : a.line ≠ .inside) (value : UInt8) (done : Line)
    (rsp : Addr) :
    Keeps x w (transfers value done w p a rsp) := by
  have hok := h.actors p a hm ha
  have hsame := Spares.refl x w.pipes
  have hleaves : ({ a with line := .exit } : Actor).Ok x (w.pipes.jobs p) :=
    hok.goto (fun hw => by cases hw) (by simp)
  have hidle : Keeps x w w := ⟨h, rfl, rfl⟩
  have hgoes : slotOf (w.pipes.jobs p) ≠ some x → Keeps x w (w.act (.go rsp)) := fun hslot =>
    h.actor hcur (spares_current h hcur hslot (.go rsp)) rfl rfl ⟨rfl, rfl⟩
      (Function.update_eq_self_iff.mpr ha.symm).symm
      ⟨hok.argv, hok.pipe, fun hl => absurd hl hline⟩
  unfold transfers
  split
  · -- the arguments are those that the manager gave
    split
    · rename_i id value_pipe _ hpipe
      split
      · exact h.actor hcur hsame rfl rfl ⟨rfl, rfl⟩ rfl hleaves
      · have hvalue : value_pipe = numeral 10 (x + 3) := Option.some.inj (hpipe.symm.trans hok.argv)
        refine h.actor hcur hsame rfl rfl ⟨rfl, rfl⟩ rfl ⟨hok.argv, fun _ => ?_, nofun⟩
        have hlt := h.lt
        unfold MAX_PIPES at hlt
        dsimp only
        rw [hvalue, number_of_numeral (by omega)]
        push_cast
        rfl
    · exact h.actor hcur hsame rfl rfl ⟨rfl, rfl⟩ rfl hleaves
  · rename_i hl hnone
    exact h.actor hcur hsame rfl rfl ⟨rfl, rfl⟩ rfl (hok.goto (fun _ => by rw [hl]; rfl) (by simp))
  · rename_i hl hnone
    exact h.actor hcur hsame rfl rfl ⟨rfl, rfl⟩ rfl (hok.goto (fun _ => by rw [hl]; rfl) (by simp))
  · rename_i spins hl hnone
    exact h.actor hcur (spares_outside h hcur hnone (.call (.scheduler (.yield rsp)))) rfl rfl
      ⟨rfl, rfl⟩ rfl (hok.goto (fun _ => by rw [hl]; rfl) (by simp))
  · rename_i hl hnone
    have hid : a.value_pipe = (x : Int) + 3 := hok.pipe (by rw [hl]; rfl)
    unfold pipe_all
    dsimp only
    split
    · exact h.actor hcur hsame rfl rfl ⟨rfl, rfl⟩ rfl hleaves
    · exact h.actor hcur (spares_outside h hcur hnone (.io _)) rfl rfl ⟨rfl, rfl⟩ rfl
        ⟨hok.argv, fun _ => hid, fun _ t generation hjob => act_io_job hcur hnone hid hjob⟩
  · rename_i hl _
    exact absurd hl hline
  · rename_i hl hnone
    exact h.actor hcur (spares_outside h hcur hnone (.syscall_exit 0 rsp)) rfl rfl ⟨rfl, rfl⟩ rfl
      (hok.goto (fun hw => by cases hw) (by simp))
  · rename_i hl hjob
    exact hgoes (by rw [hjob] at hown ⊢; exact hown)
  · rename_i hl hjob
    exact hgoes (by rw [hjob]; simp [slotOf])
  · exact hidle

theorem call_keeps (h : Opened x w) {c : Call} {after : Int → World H → World H}
    (hafter : ∀ r, Keeps x w (after r (w.act (.call c)))) : Keeps x w (w.call c after) := by
  unfold World.call
  split
  · exact ⟨h, rfl, rfl⟩
  · exact hafter _

theorem mvar_reader_keeps (h : Opened x w)
    (hcur : w.pipes.system.scheduler.currentProcess = some p)
    (hown : closes (w.pipes.jobs p) ≠ some x) {a : Actor} (hm : p ≠ w.manager_pcb)
    (ha : w.actors p = some a) (hline : a.line ≠ .inside) (rsp : Addr) :
    Keeps x w (mvar_reader w p a rsp) := by
  have hok := h.actors p a hm ha
  have hsame := Spares.refl x w.pipes
  unfold mvar_reader
  split
  · rename_i hl _
    refine call_keeps h fun r => h.actor hcur (spares_call h _) rfl rfl ⟨rfl, rfl⟩ rfl
      (hok.goto (fun _ => by rw [hl]; rfl) ?_)
    split <;> simp
  · rename_i hl _
    exact h.actor hcur hsame rfl rfl ⟨rfl, rfl⟩ rfl
      ⟨hok.argv, fun _ => hok.pipe (by rw [hl]; rfl), fun hl => by cases hl⟩
  · rename_i hl _
    exact h.actor hcur hsame rfl rfl ⟨rfl, rfl⟩ rfl (hok.goto (fun _ => by rw [hl]; rfl) (by simp))
  · rename_i hl _
    exact h.actor hcur hsame rfl rfl ⟨rfl, rfl⟩ rfl (hok.goto (fun _ => by rw [hl]; rfl) (by simp))
  · rename_i hl _
    exact h.actor hcur hsame rfl rfl ⟨rfl, rfl⟩ rfl (hok.goto (fun _ => by rw [hl]; rfl) (by simp))
  · rename_i hl _
    exact call_keeps h fun r => h.actor hcur (spares_call h _) rfl rfl ⟨rfl, rfl⟩ rfl
      (hok.goto (fun _ => by rw [hl]; rfl) (by simp))
  · exact transfers_keeps h hcur hown hm ha hline _ _ rsp

omit [MemoryManager H] in
/-- The manager moves on. -/
theorem Opened.managed (h : Opened x w) (hp : p = w.manager_pcb)
    (hcur : w.pipes.system.scheduler.currentProcess = some p)
    (hs : Spares x w.pipes w'.pipes) (hslot : w'.slot = w.slot) (htaken : w'.taken = w.taken)
    (hpcb : w'.manager_pcb = w.manager_pcb) (hactors : w'.actors = w.actors)
    (hline : w'.manager.line.opening = false)
    (hid : w'.manager.value_pipe_id = w.manager.value_pipe_id) : Keeps x w w' :=
  h.kept hs hslot htaken hline hid fun q a hq ha => by
    rw [hpcb] at hq
    rw [hactors] at ha
    exact h.others hs hcur (fun he => hq (he.trans hp)) hq ha

theorem spawn_keeps (h : Opened x w) (hp : p = w.manager_pcb)
    (hcur : w.pipes.system.scheduler.currentProcess = some p) (way : Way) (id : Nat) :
    Keeps x w (spawn way id w.manager.value_pipe_id w) := by
  have hopening : w.manager.line.opening = false := h.line
  unfold spawn
  dsimp only
  split
  · exact h.managed hp hcur (spares_call h _) rfl rfl rfl rfl rfl rfl
  · have hnew : ∀ job,
        (Actor.new way 3 (compose_args way id w.manager.value_pipe_id)).Ok x job := fun job => by
      refine ⟨?_, nofun, nofun⟩
      rw [h.value_pipe_id]
      cases way <;> rfl
    refine h.kept (spares_call h _) rfl rfl hopening rfl fun q a hq ha => ?_
    exact ok_update (hnew _) ha fun _ ha =>
      h.others (spares_call h _) hcur (fun he => hq (he.trans hp)) hq ha

theorem mvar_manager_keeps (h : Opened x w) (hp : p = w.manager_pcb)
    (hcur : w.pipes.system.scheduler.currentProcess = some p)
    (hown : closes (w.pipes.jobs p) ≠ some x) (rsp : Addr) :
    Keeps x w (mvar_manager w p rsp) := by
  have hopening := h.line
  -- the first four lines come before the pipe
  have hlate : ∀ {line : Manager.Line}, w.manager.line = line → line.opening = true → False := by
    intro line hl hbefore
    rw [hl, hbefore] at hopening
    cases hopening
  have hsame := Spares.refl x w.pipes
  have hgoes : slotOf (w.pipes.jobs p) ≠ some x → Keeps x w (w.act (.go rsp)) := fun hslot =>
    h.managed hp hcur (spares_current h hcur hslot (.go rsp)) rfl rfl rfl rfl hopening rfl
  unfold mvar_manager
  dsimp only
  split
  · rename_i hl _
    exact (hlate hl rfl).elim
  · rename_i hl _
    exact (hlate hl rfl).elim
  · rename_i hl _
    exact (hlate hl rfl).elim
  · rename_i hl _
    exact (hlate hl rfl).elim
  · split
    · split
      · exact spawn_keeps h hp hcur .write _
      · exact h.managed hp hcur hsame rfl rfl rfl rfl hopening rfl
    · split
      · exact spawn_keeps h hp hcur .read _
      · exact h.managed hp hcur hsame rfl rfl rfl rfl rfl rfl
  · refine call_keeps h fun r => h.managed hp hcur (spares_call h _) rfl rfl rfl rfl ?_ ?_
    · dsimp only [World.setManager]
      split <;> rfl
    · dsimp only [World.setManager]
      split <;> rfl
  · exact call_keeps h fun r => h.managed hp hcur (spares_call h _) rfl rfl rfl rfl rfl rfl
  · rename_i hl hnone
    exact h.managed hp hcur (spares_outside h hcur hnone (.syscall_exit 0 rsp)) rfl rfl rfl rfl
      rfl rfl
  · rename_i hl hjob
    exact hgoes (by rw [hjob] at hown ⊢; exact hown)
  · rename_i hl hjob
    exact hgoes (by rw [hjob]; simp [slotOf])
  · exact ⟨h, rfl, rfl⟩

/-! ## The calls on the pipe -/

/-- The next move of the call puts a byte into the pipe. -/
def puts (t : Task) (pipe : Pipe) : Prop :=
  t.request.way = .write ∧ t.stage = .critical ∧ pipe.count < PIPE_BUFFER_SIZE

omit [MemoryManager H] in
/-- A move puts a byte, or it takes some. -/
theorem move_past (t : Task) (g : Shared) (rsp : Addr) :
    (puts t (g.manager.pipes t.pipe) ∧ (t.move g rsp).past.delivered = g.past.delivered ∧
        ∃ byte, (t.move g rsp).past.written = g.past.written ++ [byte]) ∨
      (¬ puts t (g.manager.pipes t.pipe) ∧ (t.move g rsp).past.written = g.past.written ∧
        ∃ bytes, (t.move g rsp).past.delivered = g.past.delivered ++ bytes) := by
  unfold Task.move puts
  cases hw : t.request.way with
  | read =>
    right
    refine ⟨fun hp => (by cases hp.1), ?_⟩
    dsimp only
    unfold readPipe
    split
    · split <;> exact ⟨rfl, [], (List.append_nil _).symm⟩
    · exact ⟨rfl, [], (List.append_nil _).symm⟩
    · split
      · exact ⟨rfl, [], (List.append_nil _).symm⟩
      · split
        · dsimp only
          split <;> exact ⟨rfl, _, rfl⟩
        · exact ⟨rfl, [], (List.append_nil _).symm⟩
  | write =>
    dsimp only
    unfold writePipe
    split
    · rename_i hs
      right
      refine ⟨fun hp => (by rw [hs] at hp; cases hp.2.1), ?_⟩
      split <;> exact ⟨rfl, [], (List.append_nil _).symm⟩
    · rename_i hs
      right
      exact ⟨fun hp => (by rw [hs] at hp; cases hp.2.1), rfl, [], (List.append_nil _).symm⟩
    · rename_i hs
      dsimp only
      split
      · rename_i hlt
        exact Or.inl ⟨⟨rfl, hs, hlt⟩, rfl, _, rfl⟩
      · rename_i hfull
        exact Or.inr ⟨fun hp => hfull hp.2.2, rfl, [], (List.append_nil _).symm⟩

/-- The pipes and the jobs when a process goes on inside its call. -/
theorem act_go {m : PipeSystem H} (hcur : m.system.scheduler.currentProcess = some p) {t : Task}
    {generation : Nat} (hjob : m.jobs p = some (.io t generation)) (rsp : Addr) :
    (pipe_manager.act m (.go rsp)).pipe t.pipe = (t.move ⟨m.manager, m.past t.pipe⟩ rsp).pipe ∧
      (pipe_manager.act m (.go rsp)).past t.pipe = (t.move ⟨m.manager, m.past t.pipe⟩ rsp).past ∧
      ∀ u generation', (pipe_manager.act m (.go rsp)).jobs p = some (.io u generation') →
        u = (t.move ⟨m.manager, m.past t.pipe⟩ rsp).task := by
  have hturn : turn m p (.go rsp) = proceed m p rsp (.io t generation) := by simp only [turn, hjob]
  rw [act_turn (fun _ h => by cases h) hcur, hturn]
  refine ⟨(pipe_setPipe m _ _ _).trans (if_pos rfl), Function.update_self _ _ _, ?_⟩
  intro u generation' hu
  have hset := settle_jobs hu
  simp only [proceed, PipeSystem.setJob, Function.update_self] at hset
  split at hset
  · cases hset
  · exact (Job.io.inj (Option.some.inj hset)).1.symm

/-- A writer or a reader goes on inside its call. -/
theorem goOn_opened (h : Opened x w) (hcur : w.pipes.system.scheduler.currentProcess = some p)
    {a : Actor} (hm : p ≠ w.manager_pcb) (ha : w.actors p = some a) (hline : a.line = .inside)
    {t : Task} {generation : Nat} (hjob : w.pipes.jobs p = some (.io t generation)) {done : Line}
    (hdone : done ≠ .inside) (rsp : Addr) :
    Opened x (goOn w p a t rsp done) ∧
      (goOn w p a t rsp done).pipes.past x =
        (t.move ⟨w.pipes.manager, w.pipes.past x⟩ rsp).past := by
  have hok := h.actors p a hm ha
  have hx : t.pipe = x := hok.job hline t generation hjob
  subst hx
  obtain ⟨hpipe, hpast, hjobs⟩ := act_go hcur hjob rsp
  obtain ⟨horder, hopen, _, htask⟩ := move_inOrder t (g := ⟨w.pipes.manager, w.pipes.past t.pipe⟩)
    h.order rsp
  have hbytes : ∃ bytes, (t.move ⟨w.pipes.manager, w.pipes.past t.pipe⟩ rsp).past.delivered =
      (w.pipes.past t.pipe).delivered ++ bytes := by
    rcases move_past t ⟨w.pipes.manager, w.pipes.past t.pipe⟩ rsp with ⟨_, hsame, _⟩ | ⟨_, _, hm⟩
    · exact ⟨[], hsame.trans (List.append_nil _).symm⟩
    · exact hm
  obtain ⟨bytes, hbytes⟩ := hbytes
  have hopened : Opened t.pipe { w.act (.go rsp) with
      taken := w.taken ++ ((t.move ⟨w.pipes.manager, w.pipes.past t.pipe⟩ rsp).past.delivered.drop
        (w.pipes.past t.pipe).delivered.length).map fun v => (p, v) } := by
    refine ⟨h.slot, h.lt, ?_, ?_, ?_, h.line, h.value_pipe_id, fun q b hq hb => ?_⟩
    · exact (congrArg Pipe.isOpen hpipe).trans (hopen.trans h.isOpen)
    · exact hpipe.symm ▸ hpast.symm ▸ horder
    · refine Eq.trans ?_ (congrArg Past.delivered hpast).symm
      rw [hbytes, List.drop_left, List.map_append, h.taken, List.map_map]
      exact congrArg _ (List.map_id _)
    · by_cases hqp : q = p
      · subst hqp
        rw [← Option.some.inj (ha.symm.trans hb)]
        exact ⟨hok.argv, hok.pipe, fun _ u g hu => (hjobs u g hu) ▸ htask⟩
      · refine (h.actors q b hq hb).loses fun j hj => ?_
        refine (act_others w.pipes (.go rsp)).1 q j (fun he => hqp ?_) hj
        exact Option.some.inj (he.symm.trans hcur)
  unfold goOn
  dsimp only
  split
  · exact ⟨hopened, hpast⟩
  · split
    · refine ⟨hopened.set ⟨hok.argv, fun _ => hok.pipe (by rw [hline]; rfl), ?_⟩, hpast⟩
      exact fun hl => absurd hl hdone
    · exact ⟨hopened.set ⟨hok.argv, nofun, nofun⟩, hpast⟩

/-! ## The steps -/

/-- A step that puts a byte. -/
def Puts (w : World H) : Event → Prop
  | .run _ => ∃ t ∈ w.task, puts t (w.pipes.pipe t.pipe)
  | .other _ => False

/-- What one step does to the variable. -/
structure Counted (x : Nat) (w w' : World H) (put : Prop) : Prop where
  opened : Opened x w'
  writes : (put ∧ w'.writes = w.writes + 1 ∧ w'.reads = w.reads) ∨ (¬ put ∧ w'.writes = w.writes)
  reads : w.reads ≤ w'.reads

omit [MemoryManager H] in
theorem Keeps.counted (h : Opened x w) (hk : Keeps x w w') {put : Prop} (hput : ¬ put) :
    Counted x w w' put := by
  refine ⟨hk.opened, Or.inr ⟨hput, ?_⟩, ?_⟩
  · rw [World.writes, World.writes, hk.opened.past, h.past, hk.past]
  · rw [World.reads, World.reads, hk.taken]

omit [MemoryManager H] in
theorem task_inside (hcur : w.pipes.system.scheduler.currentProcess = some p) {a : Actor}
    (hm : p ≠ w.manager_pcb) (ha : w.actors p = some a) (hline : a.line = .inside) {t : Task}
    {generation : Nat} (hjob : w.pipes.jobs p = some (.io t generation)) : w.task = some t := by
  simp only [World.task, hcur, if_neg hm, ha, hjob, if_pos hline]

theorem inside_counted (h : Opened x w)
    (hcur : w.pipes.system.scheduler.currentProcess = some p) {a : Actor}
    (hm : p ≠ w.manager_pcb) (ha : w.actors p = some a) (hline : a.line = .inside) {t : Task}
    {generation : Nat} (hjob : w.pipes.jobs p = some (.io t generation)) {done : Line}
    (hdone : done ≠ .inside) (rsp : Addr) :
    Counted x w (goOn w p a t rsp done) (Puts w (.run rsp)) := by
  obtain ⟨hopened, hpast⟩ := goOn_opened h hcur hm ha hline hjob hdone rsp
  have hx : t.pipe = x := (h.actors p a hm ha).job hline t generation hjob
  subst hx
  have htask := task_inside hcur hm ha hline hjob
  have hputs : Puts w (.run rsp) ↔ puts t (w.pipes.pipe t.pipe) := by
    simp [Puts, htask]
  have hreads : ∀ {w : World H}, Opened t.pipe w →
      w.reads = (w.pipes.past t.pipe).delivered.length := fun h => by
    rw [World.reads, ← h.taken, List.length_map]
  rw [hputs]
  rcases move_past t ⟨w.pipes.manager, w.pipes.past t.pipe⟩ rsp with
    ⟨hput, hdelivered, byte, hwritten⟩ | ⟨hput, hwritten, bytes, hdelivered⟩
  · have hsame : (goOn w p a t rsp done).reads = w.reads := by
      rw [hreads hopened, hreads h, hpast, hdelivered]
    refine ⟨hopened, Or.inl ⟨hput, ?_, hsame⟩, hsame.ge⟩
    rw [World.writes, World.writes, hopened.past, h.past, hpast, hwritten, List.length_append]
    rfl
  · refine ⟨hopened, Or.inr ⟨hput, ?_⟩, ?_⟩
    · rw [World.writes, World.writes, hopened.past, h.past, hpast, hwritten]
    · rw [hreads hopened, hreads h, hpast, hdelivered, List.length_append]
      exact Nat.le_add_right _ _

omit [MemoryManager H] in
theorem not_puts_of_task {rsp : Addr} (h : w.task = none) : ¬ Puts w (.run rsp) := by
  rintro ⟨t, ht, _⟩
  rw [h] at ht
  cases ht

omit [MemoryManager H] in
theorem task_none (hcur : w.pipes.system.scheduler.currentProcess = some p) {a : Actor}
    (ha : w.actors p = some a)
    (hout : a.line = .inside → ∀ t generation, w.pipes.jobs p ≠ some (.io t generation)) :
    w.task = none := by
  cases ht : w.task with
  | none => rfl
  | some t =>
    obtain ⟨q, b, generation, hq, -, hb, hline, hjob⟩ := task_some ht
    obtain rfl := Option.some.inj (hcur.symm.trans hq)
    obtain rfl := Option.some.inj (ha.symm.trans hb)
    exact absurd hjob (hout hline t generation)

/-- A writer or a reader takes its next step. -/
theorem actor_counted (h : Opened x w)
    (hcur : w.pipes.system.scheduler.currentProcess = some p)
    (hown : closes (w.pipes.jobs p) ≠ some x) {a : Actor} (hm : p ≠ w.manager_pcb)
    (ha : w.actors p = some a) (rsp : Addr) :
    Counted x w (mvar_writer w p a rsp) (Puts w (.run rsp)) ∧
      Counted x w (mvar_reader w p a rsp) (Puts w (.run rsp)) := by
  by_cases hline : a.line = .inside
  · have hreader : mvar_reader w p a rsp = transfers a.value .sem_wait w p a rsp := by
      simp only [mvar_reader, hline]
    rw [mvar_writer, hreader]
    by_cases hjob : ∃ t generation, w.pipes.jobs p = some (.io t generation)
    · obtain ⟨t, generation, hjob⟩ := hjob
      have hgo : ∀ value done, transfers value done w p a rsp = goOn w p a t rsp done :=
        fun value done => by simp only [transfers, hline, hjob]
      rw [hgo, hgo]
      exact ⟨inside_counted h hcur hm ha hline hjob (by simp) rsp,
        inside_counted h hcur hm ha hline hjob (by simp) rsp⟩
    · have hidle : ∀ value done, transfers value done w p a rsp = w := by
        intro value done
        cases hj : w.pipes.jobs p with
        | none => simp only [transfers, hline, hj]
        | some job =>
          cases job with
          | io t generation => exact absurd ⟨t, generation, hj⟩ hjob
          | close y generation exits => simp only [transfers, hline, hj]
          | exit => simp only [transfers, hline, hj]
      have hnone := task_none hcur ha fun _ t generation hj => hjob ⟨t, generation, hj⟩
      have hkeeps : Keeps x w w := ⟨h, rfl, rfl⟩
      rw [hidle, hidle]
      exact ⟨hkeeps.counted h (not_puts_of_task hnone), hkeeps.counted h (not_puts_of_task hnone)⟩
  · have hnone := task_none hcur ha fun hl => absurd hl hline
    exact ⟨(transfers_keeps h hcur hown hm ha hline _ _ rsp).counted h (not_puts_of_task hnone),
      (mvar_reader_keeps h hcur hown hm ha hline rsp).counted h (not_puts_of_task hnone)⟩

/-- An act of another process. -/
theorem other_keeps (h : Opened x w) {a : Act}
    (hown : ∀ p ∈ w.pipes.system.scheduler.currentProcess,
      p ≠ w.manager_pcb ∧ (w.actors p).isNone ∧ ∀ x ∈ w.slot, slotOf (w.pipes.jobs p) ≠ some x) :
    Keeps x w (w.act a) := by
  have hs : Spares x w.pipes (w.act a).pipes :=
    spares_act h fun _ p hp => (hown p hp).2.2 x h.slot
  refine h.kept hs rfl rfl h.line rfl fun q b hq hb => (h.actors q b hq hb).loses fun j hj => ?_
  refine hs.jobs q j (fun hcur => ?_) hj
  have hnone := (hown q hcur).2.1
  rw [show w.actors q = some b from hb] at hnone
  cases hnone

/-- One step of anybody, once the pipe is open. -/
theorem opened_next (h : Opened x w) {e : Event} (hown : ownPipe w e) :
    Counted x w (next w e) (Puts w e) := by
  have hidle : Keeps x w w := ⟨h, rfl, rfl⟩
  cases e with
  | other a =>
    have hkeeps : Keeps x w (w.act a) := by
      cases a with
      | call c =>
        exact h.kept (spares_call h c) rfl rfl h.line rfl fun q b hq hb =>
          (h.actors q b hq hb).loses fun j hj => settle_jobs hj
      | _ => exact other_keeps h hown
    exact hkeeps.counted h id
  | run rsp =>
    unfold next
    cases hcur : w.pipes.system.scheduler.currentProcess with
    | none =>
      have hnone : w.task = none := by simp only [World.task, hcur]
      exact hidle.counted h (not_puts_of_task hnone)
    | some p =>
      have hclose := hown p hcur x h.slot
      dsimp only
      split
      · rename_i hp
        have hnone : w.task = none := by simp only [World.task, hcur, if_pos hp]
        exact (mvar_manager_keeps h hp hcur hclose rsp).counted h (not_puts_of_task hnone)
      · rename_i hm
        cases ha : w.actors p with
        | none =>
          have hnone : w.task = none := by simp only [World.task, hcur, if_neg hm, ha]
          exact hidle.counted h (not_puts_of_task hnone)
        | some a =>
          obtain ⟨hwriter, hreader⟩ := actor_counted h hcur hclose hm ha rsp
          dsimp only
          split
          · exact hwriter
          · exact hreader

end Quiet

/-! ## The creation of the pipe -/

section Creation

variable [MemoryManager H] {w : World H} {p : Pcb}

theorem createPipe_slot {s : System H} {m : PipeManager} (h : ¬ (createPipe s m).1 < 0) :
    ∃ i, freeSlot m = some i ∧ (createPipe s m).1 = (i : Int) + 3 := by
  unfold createPipe at h ⊢
  unfold freeSlot
  split at h
  · exact absurd (Int.negSucc_lt_zero 0) h
  · rename_i i hi
    rw [hi]
    dsimp only at h ⊢
    split at h
    · exact absurd (Int.negSucc_lt_zero 0) h
    · exact ⟨i, rfl, rfl⟩

/-- The manager opens the pipe of the variable. -/
theorem opened_createPipe (h : Unopened w)
    (hcur : w.pipes.system.scheduler.currentProcess = some p) (hnone : w.pipes.jobs p = none)
    {i : Nat} (hi : freeSlot w.pipes.manager = some i) {m : Manager} (hline : m.line = .spawn)
    (hid : m.value_pipe_id = (i : Int) + 3) :
    Opened i { (w.act .createPipe).setManager m with slot := some i } ∧
      (w.act .createPipe).pipes.past i = .start := by
  have hact : (w.act .createPipe).pipes.manager = w.pipes.manager.opened i ∧
      (w.act .createPipe).pipes.past = Function.update w.pipes.past i .start := by
    rw [World.act, act_turn (fun _ h => by cases h) hcur]
    simp only [turn, hnone, hi, createPipe_manager w.pipes.system w.pipes.manager hi]
    exact ⟨rfl, rfl⟩
  have hpipe : (w.act .createPipe).pipes.pipe i = newPipe w.pipes.manager.next_sem_id := by
    rw [PipeSystem.pipe, hact.1]
    exact Function.update_self _ _ _
  have hpast : (w.act .createPipe).pipes.past i = .start := by
    rw [hact.2, Function.update_self]
  refine ⟨⟨rfl, List.mem_range.mp (List.mem_of_find?_eq_some hi), ?_, ?_, ?_, ?_, hid, ?_⟩, hpast⟩
  · exact congrArg Pipe.isOpen hpipe
  · exact hpipe.symm ▸ hpast.symm ▸ inOrder_new _
  · exact (congrArg (List.map Prod.snd) h.taken).trans (congrArg Past.delivered hpast).symm
  · rw [World.setManager, hline]
    rfl
  · intro q a _ ha
    have hsome : w.actors q = some a := ha
    rw [h.actors q] at hsome
    cases hsome

omit [MemoryManager H] in
theorem Unopened.managed (h : Unopened w) {w' : World H} (hslot : w'.slot = w.slot)
    (hactors : w'.actors = w.actors) (htaken : w'.taken = w.taken)
    (hline : w'.manager.line.spawning = false) : Unopened w' :=
  ⟨hslot.trans h.slot, hline, fun q => hactors ▸ h.actors q, htaken.trans h.taken⟩

theorem unopened_call (h : Unopened w) {c : Call} {after : Int → World H → World H}
    (hafter : ∀ r, Unopened (after r (w.act (.call c)))) : Unopened (w.call c after) := by
  unfold World.call
  split
  · exact h
  · exact hafter _

/-- The manager before it has the pipe. -/
theorem unopened_manager (h : Unopened w)
    (hcur : w.pipes.system.scheduler.currentProcess = some p) (rsp : Addr) :
    Unopened (mvar_manager w p rsp) ∨
      ∃ x, Opened x (mvar_manager w p rsp) ∧ (mvar_manager w p rsp).pipes.past x = .start := by
  have hspawning := h.line
  -- the lines of the creations come after the pipe
  have hearly : ∀ {line : Manager.Line}, w.manager.line = line → line.spawning = true → False := by
    intro line hl hafter
    rw [hl, hafter] at hspawning
    cases hspawning
  unfold mvar_manager
  dsimp only
  split
  · left
    split
    · split
      · exact h.managed rfl rfl rfl rfl
      · exact h.managed rfl rfl rfl rfl
    · exact h.managed rfl rfl rfl rfl
  · exact Or.inl (unopened_call h fun r => h.managed rfl rfl rfl rfl)
  · refine Or.inl (unopened_call h fun r => h.managed rfl rfl rfl ?_)
    dsimp only [World.setManager]
    split <;> rfl
  · rename_i hl hnone
    split
    · exact Or.inl (h.managed rfl rfl rfl rfl)
    · rename_i hfd
      obtain ⟨i, hi, hid⟩ := createPipe_slot hfd
      have hindex : ((i : Int) + 3 - 3).toNat = i := by omega
      rw [hid, hindex]
      exact Or.inr ⟨i, opened_createPipe h hcur hnone hi rfl rfl⟩
  · rename_i hl _
    exact (hearly hl rfl).elim
  · rename_i hl _
    exact (hearly hl rfl).elim
  · rename_i hl _
    exact (hearly hl rfl).elim
  · exact Or.inl (h.managed rfl rfl rfl rfl)
  · exact Or.inl (h.managed rfl rfl rfl hspawning)
  · exact Or.inl (h.managed rfl rfl rfl hspawning)
  · exact Or.inl h

end Creation

end bare_bones.mvar
