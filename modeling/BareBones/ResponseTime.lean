-- How long a READY process waits: the ticks until `schedule` gives it the processor, whatever
-- calls come in between. Only a dispatch winds up the quantum, to the priority of the process.
import BareBones.Overtaking
import BareBones.Rotation

namespace bare_bones.process_table

open bare_bones.process
open Table

/-! ## Priorities and the quantum under each move -/

/-- Nobody new is in the table, and the priorities are the same. -/
structure SamePriorities (t t' : Table) : Prop where
  procs : ∀ p ∈ t'.procs, p ∈ t.procs
  priority : ∀ p, (t'.pcb p).priority = (t.pcb p).priority

/-- And so is what is left of the quantum. -/
structure SameClock (t t' : Table) : Prop extends SamePriorities t t' where
  quantums : t'.quantums = t.quantums

variable {t t' t'' : Table}

theorem SamePriorities.trans (h : SamePriorities t t') (h' : SamePriorities t' t'') :
    SamePriorities t t'' :=
  ⟨fun p hp => h.procs p (h'.procs p hp), fun p => (h'.priority p).trans (h.priority p)⟩

namespace SameClock

theorem refl (t : Table) : SameClock t t := ⟨⟨fun _ h => h, fun _ => rfl⟩, rfl⟩

theorem trans (h : SameClock t t') (h' : SameClock t' t'') : SameClock t t'' :=
  ⟨h.toSamePriorities.trans h'.toSamePriorities, h'.quantums.trans h.quantums⟩

theorem set (t : Table) (p : Pcb) {e : Entry} (he : e.priority = (t.pcb p).priority) :
    SameClock t (t.set p e) := by
  refine ⟨⟨fun _ h => h, fun q => ?_⟩, rfl⟩
  by_cases hq : q = p
  · rw [hq, set_pcb_self, he]
  · rw [set_pcb_ne e hq]

theorem mark (t : Table) (p : Pcb) (status : ProcessState) : SameClock t (t.mark p status) :=
  set t p rfl

theorem free (t : Table) (p : Pcb) : SameClock t (t.free p) := by
  have hset : SameClock t (t.set p { t.pcb p with waiting := none }) := set t p rfl
  exact ⟨⟨hset.procs, hset.priority⟩, rfl⟩

theorem queues (t : Table) (ready blocked : List Pcb) : SameClock t (t.queues ready blocked) :=
  ⟨⟨fun _ h => h, fun _ => rfl⟩, rfl⟩

theorem wake (t : Table) (pid : Int) : SameClock t (t.wake pid) := by
  unfold Table.wake
  split
  · exact refl t
  · split
    · exact (queues t _ _).trans (mark _ _ _)
    · exact refl t

theorem wakeAll (waiters : List (Option Pcb)) (t : Table) : SameClock t (wakeAll waiters t) := by
  induction waiters generalizing t with
  | nil => exact refl t
  | cons w rest ih =>
    cases w with
    | none => exact ih t
    | some aux => exact (wake t (t.pid aux)).trans (ih _)

theorem suspend (t : Table) (p : Pcb) : SameClock t (t.suspend p) := by
  unfold Table.suspend
  split
  · exact (queues t _ _).trans (mark _ _ _)
  · split
    · exact (queues t _ _).trans (mark _ _ _)
    · exact refl t

theorem leaveQueue {p : Pcb} (h : t.leaveQueue p = some t') : SameClock t t' := by
  unfold Table.leaveQueue at h
  split at h
  · split at h
    · cases h
      exact queues t _ _
    · cases h
  · split at h
    · cases h
      exact queues t _ _
    · cases h
  · cases h
    exact refl t

theorem drop (t : Table) (p : Pcb) : SameClock t (t.drop p) := by
  have hmark := mark { t with procs := t.procs.erase p, qty := (t.qty + 2 ^ 16 - 1) % 2 ^ 16 } p
    .TERMINATED
  exact ⟨⟨fun q hq => List.mem_of_mem_erase hq, hmark.priority⟩, rfl⟩

theorem terminate (t : Table) (p : Pcb) : SameClock t (t.terminate p).2 := by
  unfold Table.terminate
  split
  · dsimp only
    split
    · exact drop t p
    · exact (drop t p).trans (free _ p)
  · exact refl t

theorem kill (t : Table) (p : Pcb) : SameClock t (t.kill p).2 := by
  unfold Table.kill
  split
  · exact refl t
  · rename_i hleft
    exact (leaveQueue hleft).trans ((wakeAll _ _).trans (terminate _ p))

theorem killPid (t : Table) (pid : Int) : SameClock t (t.killPid pid) := by
  unfold Table.killPid
  split
  · exact refl t
  · rename_i p _
    have hkill := kill t p
    split
    · rename_i hk
      rwa [hk] at hkill
    · rename_i hk
      rw [hk] at hkill
      split
      · exact hkill
      · split
        · exact hkill
        · exact hkill.trans (kill _ _)

theorem killForeground (t : Table) : SameClock t t.killForeground := by
  unfold Table.killForeground
  split
  · exact refl t
  · split
    · exact killPid t _
    · split
      · exact refl t
      · exact kill t _

end SameClock

namespace SamePriorities

theorem clock (t : Table) (quantums : Int) : SamePriorities t { t with quantums := quantums } :=
  ⟨fun _ h => h, fun _ => rfl⟩

theorem dispatch (t : Table) (p : Pcb) : SamePriorities t (t.dispatch p) := by
  have hmark := SameClock.mark { t with current := some p, currentPid := t.pid p,
                                        quantums := (t.pcb p).priority } p .RUNNING
  exact ⟨hmark.procs, hmark.priority⟩

theorem leave (t : Table) : SamePriorities t t.leave := by
  unfold Table.leave
  split
  · exact (SameClock.refl t).toSamePriorities
  · split
    · have hfree := SameClock.free t ‹_›
      exact ⟨hfree.procs, hfree.priority⟩
    · split
      · exact ((SameClock.queues t _ _).trans (SameClock.mark _ _ _)).toSamePriorities
      · exact (SameClock.refl t).toSamePriorities

theorem next (t : Table) : SamePriorities t t.next := by
  unfold Table.next
  split
  · exact (SameClock.queues t _ _).toSamePriorities.trans (dispatch _ _)
  · split
    · exact (SameClock.refl t).toSamePriorities
    · exact dispatch t _

theorem switch (t : Table) : SamePriorities t t.switch := by
  unfold Table.switch
  split
  · split
    · exact (SameClock.queues t _ _).toSamePriorities.trans (dispatch _ _)
    · exact ⟨fun _ h => h, fun _ => rfl⟩
  · exact (leave t).trans (next _)

theorem tick (t : Table) : SamePriorities t t.tick := by
  unfold Table.tick
  dsimp only
  split
  · exact clock t _
  · exact (clock t _).trans (switch _)

theorem yield (t : Table) : SamePriorities t t.yield := (clock t 0).trans (tick _)

theorem block (t : Table) (pid : Int) : SamePriorities t (t.block pid) := by
  unfold Table.block
  split
  · exact (SameClock.refl t).toSamePriorities
  · split
    · exact (SameClock.refl t).toSamePriorities
    · split
      · exact (SameClock.suspend t _).toSamePriorities.trans (yield _)
      · exact (SameClock.suspend t _).toSamePriorities

theorem wait (t : Table) (pid : Int) : SamePriorities t (t.wait pid) := by
  unfold Table.wait
  split
  · exact (SameClock.refl t).toSamePriorities
  · split
    · exact (SameClock.refl t).toSamePriorities
    · rename_i target _ _
      have hset := SameClock.set t target (e := (t.pcb target).enlist (t.find t.currentPid)) rfl
      exact hset.toSamePriorities.trans (block _ _)

end SamePriorities

/-- A block that does not end in a switch leaves the quantum. -/
theorem quantums_block (h : Inv t) {pid : Int} (hy : ¬ t.yields pid) :
    (t.block pid).quantums = t.quantums := by
  cases hf : t.find pid with
  | none => simp only [Table.block, hf]
  | some p =>
    have hcur : ¬ t.currentPid = pid := fun hcur => hy ⟨by simp [hf], hcur⟩
    rw [block_eq h hf, if_neg hcur]
    exact (SameClock.suspend t p).quantums

/-- And so does a wait. -/
theorem quantums_wait (h : Inv t) {pid : Int}
    (hno : ¬ ((t.find pid).isSome ∧ t.currentPid ≠ pid ∧ (t.find t.currentPid).isSome)) :
    (t.wait pid).quantums = t.quantums := by
  unfold Table.wait
  split
  · rfl
  rename_i target hf
  split
  · rfl
  rename_i hself
  have hset : SameProcs t (t.set target ((t.pcb target).enlist (t.find t.currentPid))) :=
    SameProcs.set rfl rfl rfl
  have hinv : Inv (t.set target ((t.pcb target).enlist (t.find t.currentPid))) :=
    inv_set h rfl rfl rfl rfl
  have hstays : ¬ (t.set target _).yields t.currentPid → _ := quantums_block hinv
  apply hstays
  rintro ⟨hfind, _⟩
  rw [find_congr hset.procs hset.pid] at hfind
  exact hno ⟨by simp [hf], hself, hfind⟩

theorem quantums_creates {fds : Fin CANT_FILE_DESCRIPTORS → Int} {ground : Nat}
    (h : Creates fds ground t t') : t'.quantums = t.quantums := by
  cases h <;> rfl

/-- No process of the table has a priority over `W`. -/
def Bounded (W : Nat) (t : Table) : Prop := ∀ p ∈ t.procs, (t.pcb p).priority ≤ W

theorem Bounded.of_same {W : Nat} (h : Bounded W t) (hs : SamePriorities t t') : Bounded W t' := by
  intro p hp
  rw [hs.priority p]
  exact h p (hs.procs p hp)

/-- A switch winds the quantum up to a priority of the table. -/
theorem quantums_switch {W : Nat} (h : Core none t) (hc : Cur t) (hb : Bounded W t.switch) :
    t.switch.current.isSome ∧ t.switch.quantums ≤ W := by
  obtain ⟨p, hp, hq⟩ := fullQuantum_switch h hc
  obtain ⟨hin, _⟩ := switch_runs h hc hp
  have hle := Int.ofNat_le.mpr (hb p hin)
  exact ⟨by simp [hp], hq.trans_le hle⟩

end bare_bones.process_table

namespace bare_bones.scheduler

open bare_bones.doubleLinkedList bare_bones.process bare_bones.process_table

variable {H : Type} [MemoryManager H] {W : Nat}

/-! ## Priorities and the quantum under each call -/

/-- A new process does not ask for a priority over `W`. `changePriority` checks its own. -/
def asksAtMost (W : Nat) : Op → Prop
  | .createProcess _ _ _ priority _ _ => priority ≤ W
  | _ => True

instance (W : Nat) (op : Op) : Decidable (asksAtMost W op) := by
  cases op <;> unfold asksAtMost <;> infer_instance

/-- The call is a tick of the timer. -/
def ticks : Op → Bool
  | .schedule _ => true
  | _ => false

theorem bounded_createProcess (hn : Serves H NODE_SIZE) {s : Scheduler H}
    (hlive : ∀ p ∈ s.procs, p < s.pcbQty) (hb : Bounded W s.view) (rip : Addr) (args : Args)
    (argc : Int) {priority : Nat} (hle : priority ≤ W)
    (fds : Option (Fin CANT_FILE_DESCRIPTORS → Int)) (ground : Nat) :
    Bounded W (createProcess s rip args argc priority fds ground).2.view := by
  -- the PCB that is taken is none of the table
  have hnew : ∀ e : Entry, Bounded W (s.view.alloc e) := by
    intro e p hp
    have hne : p ≠ s.view.pcbQty := Nat.ne_of_lt (hlive p hp)
    have hsame : (s.view.alloc e).pcb p = s.view.pcb p := Table.set_pcb_ne e hne
    rw [hsame]
    exact hb p hp
  have hfree : ∀ e : Entry, Bounded W ((s.view.alloc e).free s.view.pcbQty) := by
    intro e
    apply (hnew e).of_same
    exact (SameClock.free _ _).toSamePriorities
  unfold createProcess
  split
  · exact hb
  split
  · exact hb
  rename_i block heap _
  dsimp only
  have halloc : ({ s with heap := heap, pcbQty := s.pcbQty + 1 }.setPcb s.pcbQty
      (.zeroed block)).view = s.view.alloc (entry (.zeroed block)) := view_setPcb _ _ _
  generalize { s with heap := heap, pcbQty := s.pcbQty + 1 }.setPcb s.pcbQty
    (.zeroed block) = s₁ at halloc ⊢
  split
  · rw [view_free, halloc]
    exact hfree _
  split
  · rw [view_free, view_filled halloc]
    exact hfree _
  rename_i r c heap' hr hi
  obtain ⟨_, hst, hprio, _⟩ := initializeProcess_filled hi hr
  dsimp only
  rw [addProcess_view hn _ _ (by simpa [Scheduler.status, Scheduler.setPcb] using hst),
    view_filled halloc]
  intro p hp
  rcases List.mem_append.mp hp with hold | hin
  · exact hnew _ p hold
  · have hself : ((s.view.alloc (entry c)).pcb s.pcbQty).priority = c.priority :=
      congrArg Entry.priority (Table.set_pcb_self _ _ _)
    rw [List.mem_singleton.mp hin]
    exact hself.trans_le (hprio ▸ hle)

omit [MemoryManager H] in
theorem bounded_changePriority (hW : MAX_PRIORITY ≤ W) {s : Scheduler H} (hb : Bounded W s.view)
    (pid : Int) (priority : Nat) : Bounded W (changePriority s pid priority).2.view := by
  unfold changePriority
  split
  · exact hb
  rename_i hrange
  split
  · exact hb
  rename_i process _
  rw [view_setPcb]
  intro p hp
  by_cases hself : p = process
  · have hmax : priority ≤ MAX_PRIORITY := by
      simp only [not_or, Nat.not_lt] at hrange
      exact hrange.1
    rw [hself, Table.set_pcb_self]
    exact hmax.trans hW
  · rw [Table.set_pcb_ne _ hself]
    exact hb p hp

/-- No call puts a process over `W`. -/
theorem bounded_exec (hn : Serves H NODE_SIZE) (hW : MAX_PRIORITY ≤ W) {s : Scheduler H} (op : Op)
    (h : Inv s.view) (hask : asksAtMost W op) (hb : Bounded W s.view) :
    Bounded W (exec s op).view := by
  cases op with
  | schedule rsp =>
    rw [exec, schedule_view hn]
    exact hb.of_same (SamePriorities.tick _)
  | yield rsp =>
    rw [exec, yield_view hn]
    exact hb.of_same (SamePriorities.yield _)
  | createProcess rip args argc priority fds ground =>
    have hlive : ∀ p ∈ s.procs, p < s.pcbQty := fun p hp => (h.core.live p hp).2
    exact bounded_createProcess hn hlive hb rip args argc hask fds ground
  | blockProcess pid rsp =>
    rw [exec, blockProcess_view hn]
    exact hb.of_same (SamePriorities.block _ pid)
  | setReadyProcess pid =>
    rw [exec, setReadyProcess_view hn]
    exact hb.of_same (SameClock.wake _ pid).toSamePriorities
  | waitProcess pid rsp =>
    rw [exec, waitProcess_view hn]
    exact hb.of_same (SamePriorities.wait _ pid)
  | changePriority pid priority => exact bounded_changePriority hW hb pid priority
  | killProcess pid =>
    rw [exec, killProcess_view hn]
    exact hb.of_same (SameClock.killPid _ pid).toSamePriorities
  | killForegroundProcess =>
    rw [exec, killForegroundProcess_view hn]
    exact hb.of_same (SameClock.killForeground _).toSamePriorities
  | reuse p content =>
    rw [exec]
    split
    · rename_i hfreed
      rw [view_setPcb]
      intro q hq
      have hne : q ≠ p := by
        intro hqp
        have hlive := (h.core.live q hq).1
        rw [hqp] at hlive
        exact absurd hlive (Nat.ne_of_gt hfreed)
      rw [Table.set_pcb_ne _ hne]
      exact hb q hq
    · exact hb

theorem bounded_booted (hn : Serves H NODE_SIZE) (hW : MAX_PRIORITY ≤ W) {s : Scheduler H}
    (h : Booted s) : Bounded W s.view := by
  obtain ⟨rip, heap, hc, _⟩ := h
  obtain ⟨s₀, args, hempty, rfl⟩ := createScheduler_makes_idle hc
  have hnone : ∀ p, p ∉ s₀.view.procs := by simp [hempty.procs]
  have hmin : MIN_PRIORITY ≤ W := Nat.le_trans (by decide) hW
  apply bounded_createProcess hn _ _ rip args 1 hmin
  all_goals
    intro p hp
    exact absurd hp (hnone p)

theorem quantums_booted (hn : Serves H NODE_SIZE) {s : Scheduler H} (h : Booted s) :
    s.quantums = MIN_QUANTUMS := by
  obtain ⟨rip, heap, hc, _⟩ := h
  unfold createScheduler at hc
  split at hc
  · cases hc
  split at hc
  · cases hc
  split at hc
  · cases hc
  split at hc
  · cases hc
  rw [← Option.some.inj hc]
  exact quantums_creates (createProcess_view hn _ _ _ 1 MIN_PRIORITY (some idleDescriptors) 1)

/-- A call that does not end in a switch leaves the quantum, but for the tick, that takes one
off and leaves one. -/
theorem quantums_stays (hn : Serves H NODE_SIZE) {s : Scheduler H} {op : Op} (h : Inv s.view)
    (hok : sparesIdle s op) (hs : ¬ switches s op) :
    (exec s op).quantums + (if ticks op then 1 else 0 : Nat) = s.quantums ∧
      (ticks op → 1 ≤ (exec s op).quantums) := by
  have hqty : s.processQty ≠ 0 := qty_ne_zero h.core
  -- all but the tick leave it, seen from the table
  have hview : ∀ t : Table, (exec s op).view = t → ticks op = false →
      t.quantums = s.view.quantums →
      (exec s op).quantums + (if ticks op then 1 else 0 : Nat) = s.quantums ∧
        (ticks op → 1 ≤ (exec s op).quantums) := by
    rintro t rfl hno hq
    rw [hno]
    have hsame : (exec s op).quantums = s.quantums := hq
    exact ⟨by simpa using hsame, by simp⟩
  cases op with
  | schedule rsp =>
    have hspent : ¬ s.view.spent := hs
    have htick := (schedule_view hn s rsp).trans (tick_of_not_spent hspent)
    have hq : (exec s (.schedule rsp)).quantums = s.quantums - 1 := congrArg Table.quantums htick
    have hleft : ¬ s.quantums ≤ 1 := fun hle => hs ⟨hqty, hle⟩
    rw [hq]
    constructor
    · simp [ticks]
    · intro _
      omega
  | yield rsp => exact absurd hqty hs
  | createProcess rip args argc priority fds ground =>
    apply hview _ rfl rfl
    exact quantums_creates (createProcess_view hn s rip args argc priority fds ground)
  | blockProcess pid rsp =>
    have hy : ¬ s.view.yields pid := by
      intro hy
      apply hs
      exact ⟨hqty, (blockProcess_result hn h pid rsp).mpr hy.1, hy.2⟩
    exact hview _ (blockProcess_view hn s pid rsp) rfl (quantums_block h hy)
  | setReadyProcess pid =>
    exact hview _ (setReadyProcess_view hn s pid) rfl (SameClock.wake _ pid).quantums
  | waitProcess pid rsp =>
    apply hview _ (waitProcess_view hn s pid rsp) rfl
    apply quantums_wait h
    rintro ⟨hfind, hself, hcaller⟩
    apply hs
    exact ⟨hqty, (waitProcess_result s pid rsp).mpr ⟨hfind, hself⟩, hcaller⟩
  | changePriority pid priority =>
    apply hview _ rfl rfl
    rw [exec, changePriority]
    split
    · rfl
    · split <;> rfl
  | killProcess pid =>
    exact hview _ (killProcess_view hn s pid) rfl (SameClock.killPid _ pid).quantums
  | killForegroundProcess =>
    exact hview _ (killForegroundProcess_view hn s) rfl (SameClock.killForeground _).quantums
  | reuse p content =>
    apply hview _ rfl rfl
    rw [exec]
    split <;> rfl

end bare_bones.scheduler

namespace bare_bones.semaphore

open bare_bones.doubleLinkedList bare_bones.process bare_bones.scheduler
open bare_bones.process_table runs fifo

variable {H : Type} [MemoryManager H] {W : Nat}

/-! ## The same for the calls on semaphores -/

/-- A new process does not ask for a priority over `W`. -/
def asksAtMost (W : Nat) (_ : System H) : Call → Prop
  | .scheduler op => scheduler.asksAtMost W op
  | _ => True

instance (W : Nat) (s : System H) (c : Call) : Decidable (asksAtMost W s c) := by
  cases c <;> unfold asksAtMost <;> infer_instance

/-- The call is a tick of the timer. -/
def ticks : Call → Bool
  | .scheduler op => scheduler.ticks op
  | _ => false

/-- A call on a semaphore leaves the clock of the table, or it blocks its caller. -/
theorem table_of_sem_wait (hn : Serves H NODE_SIZE) {s : System H} (h : Sound s) (id : Int)
    (rsp : Addr) :
    (¬ switches s (.sem_wait id rsp) ∧ SameClock s.table (step s (.sem_wait id rsp)).table) ∨
      ((switches s (.sem_wait id rsp) ↔ s.table.yields (getPid s.scheduler)) ∧
        (step s (.sem_wait id rsp)).table = s.table.block (getPid s.scheduler)) := by
  -- a call that fails does not block
  have hno : ∀ {k' : Kernel H}, sem_wait s.kernel id rsp = some (-1, k') →
      ¬ switches s (.sem_wait id rsp) := by
    rintro k' hc ⟨_, _, hres, _⟩
    rw [result_some (c := .sem_wait id rsp) hc] at hres
    exact absurd (Option.some.inj hres) (by decide)
  rcases valid_cases id with hv | hv
  · have hc : sem_wait s.kernel id rsp = some (-1, s.kernel) := sem_wait_invalid _ rsp hv
    left
    rw [table_step (c := .sem_wait id rsp) hc]
    exact ⟨hno hc, .refl _⟩
  rcases sem_wait_spec hn s.kernel rsp hv (h.free id) with
    ⟨hpos, k', hc, hb⟩ | ⟨_, k', hc, hb⟩ | ⟨h0, k', block, q, hc, _, hb⟩
  · have hpass : ¬ switches s (.sem_wait id rsp) := fun hs => Nat.ne_of_gt hpos hs.2.1
    left
    rw [table_step (c := .sem_wait id rsp) hc, hb.table]
    exact ⟨hpass, .refl _⟩
  · left
    rw [table_step (c := .sem_wait id rsp) hc, hb.table]
    exact ⟨hno hc, .refl _⟩
  · right
    rw [table_step (c := .sem_wait id rsp) hc, hb.table]
    refine ⟨⟨fun hs => ⟨hs.2.2.2, rfl⟩, fun hy => ?_⟩, rfl⟩
    exact ⟨qty_ne_zero h.inv.core, h0, result_some (c := .sem_wait id rsp) hc, hy.1⟩

theorem table_of_semaphore (hn : Serves H NODE_SIZE) {s : System H} {c : Call} (h : Sound s)
    (hc : ∀ op, c ≠ .scheduler op) :
    (¬ switches s c ∧ SameClock s.table (step s c).table) ∨
      ((switches s c ↔ s.table.yields (getPid s.scheduler)) ∧
        (step s c).table = s.table.block (getPid s.scheduler)) := by
  cases c with
  | scheduler op => exact absurd rfl (hc op)
  | sem_wait id rsp => exact table_of_sem_wait hn h id rsp
  | sem_create id v =>
    refine Or.inl ⟨fun hs => hs, ?_⟩
    rcases sem_create_spec s.kernel id v with ⟨_, hs⟩ | ⟨_, r, k', q, hs, _, _, hb⟩
    · rw [table_step (c := .sem_create id v) (congrArg some hs)]
      exact .refl _
    · rw [table_step (c := .sem_create id v) (congrArg some hs), hb.table]
      exact .refl _
  | sem_destroy id =>
    refine Or.inl ⟨fun hs => hs, ?_⟩
    have htable : (step s (.sem_destroy id)).table = s.table := by
      rcases sem_destroy_spec s.kernel id with hs | ⟨_, hb⟩
      · exact congrArg (fun k : Kernel H => k.scheduler.view) hs
      · exact hb.table
    rw [htable]
    exact .refl _
  | sem_post id =>
    refine Or.inl ⟨fun hs => hs, ?_⟩
    rcases valid_cases id with hv | hv
    · rw [table_step (c := .sem_post id) (sem_post_invalid s.kernel hv)]
      exact .refl _
    · obtain ⟨k', q, hs, _, hp⟩ := sem_post_spec hn s.kernel hv (h.free id)
      rw [table_step (c := .sem_post id) hs]
      cases hl : present s.kernel id with
      | nil =>
        rw [hl] at hp
        rw [hp.2.table]
        exact .refl _
      | cons w rest =>
        rw [hl] at hp
        rw [hp.2.table]
        exact SameClock.wake _ w.pid

theorem bounded_step (hn : Serves H NODE_SIZE) (hW : MAX_PRIORITY ≤ W) {s : System H} {c : Call}
    (h : Sound s) (hask : asksAtMost W s c) (hb : Bounded W s.table) :
    Bounded W (step s c).table := by
  by_cases hop : ∃ op, c = .scheduler op
  · obtain ⟨op, rfl⟩ := hop
    exact bounded_exec hn hW op h.inv hask hb
  · rcases table_of_semaphore hn h (not_exists.mp hop) with ⟨_, hsame⟩ | ⟨_, hblock⟩
    · exact hb.of_same hsame.toSamePriorities
    · rw [hblock]
      exact hb.of_same (SamePriorities.block _ _)

/-- The call runs the quantum down, or winds it up. -/
theorem quantums_step (hn : Serves H NODE_SIZE) {s : System H} {c : Call} (h : Sound s)
    (hok : sparesIdle s c) (hb : Bounded W (step s c).table) :
    (switches s c → (step s c).scheduler.currentProcess.isSome ∧
        (step s c).scheduler.quantums ≤ W) ∧
      (¬ switches s c →
        (step s c).scheduler.quantums + (if ticks c then 1 else 0 : Nat) =
            s.scheduler.quantums ∧
          (ticks c → 1 ≤ (step s c).scheduler.quantums)) := by
  by_cases hop : ∃ op, c = .scheduler op
  · obtain ⟨op, rfl⟩ := hop
    refine ⟨fun hs => ?_, fun hs => quantums_stays hn h.inv hok hs⟩
    obtain ⟨u, hcore, hcur, hu⟩ := exec_switches hn h.inv hok hs
    have htable : (step s (.scheduler op)).table = u.switch := hu
    rw [htable] at hb
    have hq := quantums_switch hcore hcur hb
    rw [← htable] at hq
    exact hq
  · have htick : ticks c = false := by
      cases c <;> first | rfl | exact absurd ⟨_, rfl⟩ hop
    rw [htick]
    rcases table_of_semaphore hn h (not_exists.mp hop) with ⟨hno, hsame⟩ | ⟨hiff, hblock⟩
    · refine ⟨fun hs => absurd hs hno, fun _ => ?_⟩
      have hq : (step s c).scheduler.quantums = s.scheduler.quantums := hsame.quantums
      simp [hq]
    · constructor
      · intro hs
        have hpid : getPid s.scheduler ≠ IDLE_PID := by
          cases c with
          | scheduler op => exact absurd ⟨op, rfl⟩ hop
          | sem_wait id rsp => exact hok
          | sem_create id v => exact hs.elim
          | sem_destroy id => exact hs.elim
          | sem_post id => exact hs.elim
        obtain ⟨u, hcore, hcur, hu⟩ := block_switches h.inv hpid (hiff.mp hs)
        have htable : (step s c).table = u.switch := hblock.trans hu
        rw [htable] at hb
        have hq := quantums_switch hcore hcur hb
        rw [← htable] at hq
        exact hq
      · intro hs
        have hy : ¬ s.table.yields (getPid s.scheduler) := fun hy => hs (hiff.mpr hy)
        have hq : (step s c).scheduler.quantums = s.scheduler.quantums :=
          (congrArg Table.quantums hblock).trans (quantums_block h.inv hy)
        simp [hq]

/-- The invariant of the waits: no priority and no quantum is over `W`. -/
structure Timed (W : Nat) (s : System H) : Prop extends Sound s where
  bounded : Bounded W s.table
  quantums : s.scheduler.quantums ≤ W

theorem timed_step (hn : Serves H NODE_SIZE) (hW : MAX_PRIORITY ≤ W) (s : System H) (c : Call)
    (h : Timed W s) (hok : sparesIdle s c ∧ asksAtMost W s c) : Timed W (step s c) := by
  have hb := bounded_step hn hW h.toSound hok.2 h.bounded
  obtain ⟨hup, hdown⟩ := quantums_step hn h.toSound hok.1 hb
  refine ⟨sound_step hn s c h.toSound hok.1, hb, ?_⟩
  by_cases hs : switches s c
  · exact (hup hs).2
  · have hq := (hdown hs).1
    have hle := h.quantums
    omega

theorem timed_booted (hn : Serves H NODE_SIZE) (hW : MAX_PRIORITY ≤ W) {s : System H}
    (h : BootedSystem s) : Timed W s := by
  have hsound := sound_booted hn h
  obtain ⟨sch, hb, hi, _⟩ := h
  unfold initSemaphoreManager at hi
  split at hi
  · cases hi
  have hk := (Option.some.inj hi).symm
  refine ⟨hsound, ?_, ?_⟩
  · rw [show s.table = sch.view by rw [System.table, hk]; rfl]
    exact bounded_booted hn hW hb
  · rw [show s.scheduler.quantums = sch.quantums by rw [System.scheduler, hk]]
    rw [quantums_booted hn hb]
    exact Int.ofNat_le.mpr (Nat.le_trans (by decide) hW : 1 ≤ W)

/-- A dispatch winds the quantum up to `W` at most. -/
theorem quantums_of_dispatch (hn : Serves H NODE_SIZE) (hW : MAX_PRIORITY ≤ W) (s : System H)
    (c : Call) (h : Timed W s) (hok : sparesIdle s c ∧ asksAtMost W s c)
    (hserved : dispatched s c ≠ []) : (step s c).scheduler.quantums ≤ W := by
  have hs : switches s c := by
    by_contra hno
    exact hserved (if_neg hno)
  have hb := (timed_step hn hW s c h hok).bounded
  exact ((quantums_step hn h.toSound hok.1 hb).1 hs).2

/-- Without one, a tick takes one off and leaves one. -/
theorem quantums_of_no_dispatch (hn : Serves H NODE_SIZE) (hW : MAX_PRIORITY ≤ W) (s : System H)
    (c : Call) (h : Timed W s) (hok : sparesIdle s c ∧ asksAtMost W s c)
    (hserved : dispatched s c = []) :
    (step s c).scheduler.quantums + (if ticks c then 1 else 0 : Nat) ≤ s.scheduler.quantums ∧
      (ticks c → 1 ≤ (step s c).scheduler.quantums) := by
  have hb := (timed_step hn hW s c h hok).bounded
  obtain ⟨hup, hdown⟩ := quantums_step hn h.toSound hok.1 hb
  -- a switch always gives the processor to somebody
  have hs : ¬ switches s c := by
    intro hs
    have hcur := (hup hs).1
    rw [dispatched, if_pos hs, Option.toList_eq_nil_iff] at hserved
    simp [hserved] at hcur
  obtain ⟨hclock, hleft⟩ := hdown hs
  exact ⟨hclock.le, hleft⟩

/-! ## Every run -/

/-- From any reachable state, as long as a process stays READY, fewer ticks pass than the quanta
of those ahead of it and what is left of the current one: never more than 300, if the processes
are created with priorities that `changePriority` allows too. -/
theorem nobody_waits_longer_than_the_quanta_ahead (hn : Serves H NODE_SIZE)
    (hW : MAX_PRIORITY ≤ W) {boot : System H} (hboot : BootedSystem boot) {past : List Call}
    (hpast : Meets step (fun s c => sparesIdle s c ∧ asksAtMost W s c) boot past)
    {calls : List Call}
    (hcalls : Meets step (fun s c => sparesIdle s c ∧ asksAtMost W s c) (run step boot past) calls)
    {p : Pcb} (hp : p ∈ (run step boot past).scheduler.ready)
    (hstay : Meets step (staysReady p) (run step boot past) calls) :
    calls.countP ticks < (run step boot past).scheduler.ready.idxOf p * W +
        max (run step boot past).scheduler.quantums.toNat 1 ∧
      (run step boot past).scheduler.ready.idxOf p * W +
        max (run step boot past).scheduler.quantums.toNat 1 ≤ MAX_PROCESS * W := by
  have htimed := run_invariant (timed_step hn hW) (timed_booted hn hW hboot) hpast
  have hone : 1 ≤ W := Nat.le_trans (by decide) hW
  generalize run step boot past = s at htimed hcalls hp hstay ⊢
  constructor
  · have hspares : Meets step sparesIdle s calls :=
      run_steps (I := fun _ => True) (fun _ _ _ _ => trivial) (fun _ _ _ hok => hok.1) trivial
        hcalls
    have hstays := stays_of_ready hn htimed.toSound hspares hstay
    have hticks := run_patience (fun s : System H => s.scheduler.quantums) ticks hone
      (timed_step hn hW) (fun s c h hok => flows_step hn s c h.toSound hok.1)
      (fun s h => h.inv.core.ready_nodup) (quantums_of_dispatch hn hW)
      (quantums_of_no_dispatch hn hW) htimed hcalls hp hstays
    unfold patience at hticks
    omega
  · have hfull := htimed.inv.core.length_le
    have hsub : s.scheduler.ready.length ≤ s.scheduler.procs.length := by
      apply List.Subperm.length_le
      apply List.subperm_of_subset htimed.inv.core.ready_nodup
      intro q hq
      exact ((htimed.inv.core.mem_ready q).mp hq).1
    have hquantums := htimed.quantums
    have hat := List.idxOf_lt_length_of_mem hp
    have hless : s.scheduler.ready.idxOf p + 1 ≤ MAX_PROCESS := (hat.trans_le hsub).trans_le hfull
    have hrounds := Nat.mul_le_mul_right W hless
    rw [Nat.add_mul, Nat.one_mul] at hrounds
    omega

/-- The first of three uses up two ticks of its quantum, posts on a semaphore and raises its own
priority; the second waits. -/
theorem nobody_waits_longer_behind_the_first_of_three :
    [Call.scheduler (.schedule 6), .sem_create 5 0, .sem_post 5, .scheduler (.schedule 7),
        .scheduler (.changePriority 1 7), .scheduler (.schedule 8)].countP ticks <
      (run step endlessSystem threeBehindIdle).scheduler.ready.idxOf 2 * MAX_PRIORITY +
        max (run step endlessSystem threeBehindIdle).scheduler.quantums.toNat 1 := by
  refine (nobody_waits_longer_than_the_quanta_ahead (endless_serves _) (Nat.le_refl MAX_PRIORITY)
    booted_endlessSystem ?_ ?_ ?_ ?_).1
  all_goals decide

end bare_bones.semaphore
