-- Bounded overtaking. A READY process moves up in the ready queue with every
-- process that `schedule` dispatches before it, and nobody passes it, whatever
-- calls come in between.
import BareBones.Dispatches
import BareBones.SemaphoreInvariant

namespace bare_bones.semaphore

open bare_bones.doubleLinkedList bare_bones.process bare_bones.scheduler
open bare_bones.process_table runs fifo

variable {H : Type} [MemoryManager H]

/-! ## Who is dispatched -/

/-- The call ends in a switch. `sem_wait` does when it blocks its caller. -/
def switches (s : System H) : Call → Prop
  | .scheduler op => scheduler.switches s.scheduler op
  | .sem_wait id rsp =>
    s.scheduler.processQty ≠ 0 ∧ (s.sem id).counter = 0 ∧
      result s.kernel (.sem_wait id rsp) = some 0 ∧
      (findProcess s.scheduler (getPid s.scheduler)).isSome
  | _ => False

instance (s : System H) (c : Call) : Decidable (switches s c) :=
  match c with
  | .scheduler op => inferInstanceAs (Decidable (scheduler.switches s.scheduler op))
  | .sem_wait id rsp => inferInstanceAs (Decidable
      (s.scheduler.processQty ≠ 0 ∧ (s.sem id).counter = 0 ∧
        result s.kernel (.sem_wait id rsp) = some 0 ∧
        (findProcess s.scheduler (getPid s.scheduler)).isSome))
  | .sem_create .. | .sem_destroy _ | .sem_post _ => isFalse fun h => h

/-- The process that gets the processor in the call, if it ends in a switch. -/
def dispatched (s : System H) (c : Call) : List Pcb :=
  if switches s c then (step s c).scheduler.currentProcess.toList else []

/-- The processes that get the processor along a run, in order. -/
def dispatches (s : System H) (calls : List Call) : List Pcb :=
  servedAlong step dispatched s calls

/-- The process is READY after the call. -/
def staysReady (p : Pcb) (s : System H) (c : Call) : Prop :=
  p ∈ (step s c).scheduler.procs ∧ (step s c).scheduler.status p = .READY

instance (p : Pcb) (s : System H) (c : Call) : Decidable (staysReady p s c) :=
  inferInstanceAs (Decidable (_ ∧ _))

/-! ## The flow of the ready queue -/

theorem length_dispatched (s : System H) (c : Call) :
    (dispatched s c).length ≤ if switches s c then 1 else 0 := by
  unfold dispatched
  split
  · cases (step s c).scheduler.currentProcess <;> simp
  · exact Nat.le_refl _

theorem table_step {s : System H} {c : Call} {k' : Kernel H} {r : Int}
    (hc : call s.kernel c = some (r, k')) : (step s c).table = k'.scheduler.view :=
  congrArg (fun k : Kernel H => k.scheduler.view) (after_some hc)

theorem flows_sem_wait (hn : Serves H NODE_SIZE) {s : System H} (h : Sound s) {id : Int}
    {rsp : Addr} (hok : sparesIdle s (.sem_wait id rsp)) :
    Flows (if switches s (.sem_wait id rsp) then 1 else 0) s.table
      (step s (.sem_wait id rsp)).table := by
  -- a call that fails does not block
  have hno : ∀ {k' : Kernel H}, sem_wait s.kernel id rsp = some (-1, k') →
      ¬ switches s (.sem_wait id rsp) := by
    rintro k' hc ⟨_, _, hres, _⟩
    rw [result_some (c := .sem_wait id rsp) hc] at hres
    exact absurd (Option.some.inj hres) (by decide)
  rcases valid_cases id with hv | hv
  · have hc : sem_wait s.kernel id rsp = some (-1, s.kernel) :=
      sem_wait_invalid _ rsp hv
    rw [if_neg (hno hc), table_step (c := .sem_wait id rsp) hc]
    exact .of_ready rfl
  rcases sem_wait_spec hn s.kernel rsp hv (h.free id) with
    ⟨hpos, k', hc, hb⟩ | ⟨_, k', hc, hb⟩ | ⟨h0, k', block, q, hc, _, hb⟩
  · have hpass : ¬ switches s (.sem_wait id rsp) := fun hs => Nat.ne_of_gt hpos hs.2.1
    rw [if_neg hpass, table_step (c := .sem_wait id rsp) hc, hb.table]
    exact .of_ready rfl
  · rw [if_neg (hno hc), table_step (c := .sem_wait id rsp) hc, hb.table]
    exact .of_ready rfl
  · have hiff : switches s (.sem_wait id rsp) ↔
        s.table.yields (getPid s.scheduler) := by
      refine ⟨fun hs => ⟨hs.2.2.2, rfl⟩, fun hy => ⟨qty_ne_zero h.inv.core, h0, ?_, hy.1⟩⟩
      exact result_some (c := .sem_wait id rsp) hc
    rw [if_congr hiff rfl rfl, table_step (c := .sem_wait id rsp) hc, hb.table]
    exact flows_block h.inv hok

/-- What every call does to the ready queue. -/
theorem flows_step (hn : Serves H NODE_SIZE) (s : System H) (c : Call) (h : Sound s)
    (hok : sparesIdle s c) :
    Flow (dispatched s c).length s.scheduler.ready (step s c).scheduler.ready := by
  have hflow : Flows (if switches s c then 1 else 0) s.table (step s c).table := by
    cases c with
    | scheduler op => exact flows_exec hn op h.inv hok
    | sem_create id v =>
      rcases sem_create_spec s.kernel id v with ⟨_, hs⟩ | ⟨_, r, k', q, hs, _, _, hb⟩
      · rw [table_step (c := .sem_create id v) (congrArg some hs)]
        exact .of_ready rfl
      · rw [table_step (c := .sem_create id v) (congrArg some hs), hb.table]
        exact .of_ready rfl
    | sem_destroy id =>
      rcases sem_destroy_spec s.kernel id with hs | ⟨_, hb⟩
      · exact .of_ready (congrArg (fun k : Kernel H => k.scheduler.view.ready) hs)
      · exact .of_ready (congrArg Table.ready hb.table)
    | sem_wait id rsp => exact flows_sem_wait hn h hok
    | sem_post id =>
      rcases valid_cases id with hv | hv
      · have hc : sem_post s.kernel id = some (-1, s.kernel) :=
          sem_post_invalid _ hv
        rw [table_step (c := .sem_post id) hc]
        exact .of_ready rfl
      · obtain ⟨k', q, hc, _, hp⟩ := sem_post_spec hn s.kernel hv (h.free id)
        rw [table_step (c := .sem_post id) hc]
        cases hl : present s.kernel id with
        | nil =>
          rw [hl] at hp
          rw [hp.2.table]
          exact .of_ready rfl
        | cons w rest =>
          rw [hl] at hp
          rw [hp.2.table]
          exact (stirs_wake h.inv.core w.pid).flows h.inv.core
  exact Flow.mono hflow (length_dispatched s c)

omit [MemoryManager H] in
/-- A process that is READY is in the ready queue. -/
theorem mem_ready_of_ready {s : System H} (h : Sound s) {p : Pcb} (hp : p ∈ s.scheduler.procs)
    (hr : s.scheduler.status p = .READY) : p ∈ s.scheduler.ready :=
  (h.inv.core.mem_ready p).mpr ⟨hp, hr, by simp⟩

theorem stays_of_ready (hn : Serves H NODE_SIZE) {s : System H} {calls : List Call} (h : Sound s)
    (hok : Meets step sparesIdle s calls) {p : Pcb} (hp : Meets step (staysReady p) s calls) :
    Stays step (fun s : System H => s.scheduler.ready) p s calls := by
  induction calls generalizing s with
  | nil => trivial
  | cons c calls ih =>
    have hs := sound_step hn s c h hok.1
    exact ⟨mem_ready_of_ready hs hp.1.1 hp.1.2, ih hs hok.2 hp.2⟩

/-! ## Every run -/

/-- From any reachable state, as long as a process stays READY, `schedule`
dispatches at most as many other processes as were ahead of it, and it keeps its
order with everybody else who stays READY. -/
theorem nobody_overtakes_a_ready_process (hn : Serves H NODE_SIZE) {boot : System H}
    (hboot : BootedSystem boot) {past : List Call} (hpast : Meets step sparesIdle boot past)
    {calls : List Call} (hcalls : Meets step sparesIdle (run step boot past) calls) {p : Pcb}
    (hp : p ∈ (run step boot past).scheduler.ready)
    (hstay : Meets step (staysReady p) (run step boot past) calls) :
    ((dispatches (run step boot past) calls).filter (· ≠ p)).length ≤
        (run step boot past).scheduler.ready.idxOf p ∧
      ∀ q ∈ (run step boot past).scheduler.ready,
        Meets step (staysReady q) (run step boot past) calls →
        ((run step boot (past ++ calls)).scheduler.ready.idxOf p <
            (run step boot (past ++ calls)).scheduler.ready.idxOf q ↔
          (run step boot past).scheduler.ready.idxOf p <
            (run step boot past).scheduler.ready.idxOf q) := by
  have hsound := run_invariant (sound_step hn) (sound_booted hn hboot) hpast
  have hnodup : ∀ s : System H, Sound s → s.scheduler.ready.Nodup :=
    fun s h => h.inv.core.ready_nodup
  have hps := stays_of_ready hn hsound hcalls hstay
  refine ⟨?_, fun q hq hqstay => ?_⟩
  · have hpos := run_position (sound_step hn) (flows_step hn) hnodup hsound hcalls hp hps
    have hle := List.length_filter_le (· ≠ p) (dispatches (run step boot past) calls)
    unfold dispatches at hle ⊢
    omega
  · rw [run_append]
    exact run_ahead (sound_step hn) (flows_step hn) hnodup hsound hcalls hp hq hps
      (stays_of_ready hn hsound hcalls hqstay)

/-- Three processes behind idle, which is about to run. -/
def threeBehindIdle : List Call :=
  [.scheduler (.createProcess 2 none 0 3 none 0), .scheduler (.createProcess 3 none 0 1 none 1),
    .scheduler (.createProcess 4 none 0 1 none 1), .scheduler (.schedule 5)]

/-- The first of three runs, posts on a semaphore and starts a fourth process;
the second waits. -/
theorem nobody_overtakes_the_second_of_three :
    ((dispatches (run step endlessSystem threeBehindIdle)
      [.scheduler (.schedule 6), .sem_create 5 0, .sem_post 5,
        .scheduler (.createProcess 7 none 0 1 none 1), .scheduler (.schedule 8)]).filter
          (· ≠ 2)).length ≤
      (run step endlessSystem threeBehindIdle).scheduler.ready.idxOf 2 := by
  refine (nobody_overtakes_a_ready_process (endless_serves _) booted_endlessSystem ?_ ?_ ?_ ?_).1
  all_goals decide

end bare_bones.semaphore
