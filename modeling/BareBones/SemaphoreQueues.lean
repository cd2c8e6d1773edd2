-- The wait queues. A process that is blocked inside `sem_wait` is in the queue
-- of its semaphore, in the order of the calls; the queue may hold more: pids of
-- waiters that were killed or unblocked, until `sem_post` meets them.
import BareBones.Effects

namespace bare_bones.semaphore

open bare_bones.doubleLinkedList bare_bones.process bare_bones.scheduler
open bare_bones.process_table runs

variable {H : Type}

/-- Who enters the wait of a semaphore. -/
def entering (entries : List (Pcb × Reason)) (id : Int) : List Pcb :=
  (entries.filter (fun e => e.2 = .sem id)).map Prod.fst

/-- The pids of a wait queue. -/
def pids (sem : Semaphore) : List Int := sem.waiters.map Waiter.pid

structure Queued (s : System H) : Prop where
  order : ∀ id, ((s.blockedOn id).map s.table.pid).Sublist (pids (s.sem id))
  inactive : ∀ id, (s.sem id).active = false → (s.sem id).waitQueue = none

theorem mem_blockedOn {s : System H} {id : Int} {p : Pcb} :
    p ∈ s.blockedOn id ↔ (p, .sem id) ∈ s.history.inside := by
  simp [System.blockedOn]

/-- A pid names somebody alive or it is gone. -/
theorem isGone_iff {s : Scheduler H} (h : Inv s.view) (pid : Int) :
    isGone s pid = true ↔ ∀ p ∈ s.procs, s.pid p ≠ pid := by
  unfold isGone
  rw [findProcess_view]
  cases hf : s.view.find pid with
  | none => exact ⟨fun _ => Table.find_none hf, fun _ => rfl⟩
  | some p =>
    obtain ⟨hp, hpid⟩ := Table.find_some hf
    have ha : s.status p ≠ .TERMINATED := h.core.alive p hp
    simp only [decide_eq_true_eq]
    exact ⟨fun ht => absurd ht ha, fun hall => absurd hpid (hall p hp)⟩

/-- The pids of the waiters that are present. -/
theorem present_pids (k : Kernel H) (id : Int) :
    (present k id).map Waiter.pid =
      (pids (k.semaphores id)).filter (fun pid => ¬ isGone k.scheduler pid) := by
  unfold present pids
  induction (k.semaphores id).waiters with
  | nil => rfl
  | cons w ws ih =>
    by_cases hw : isGone k.scheduler w.pid <;> simp_all

/-- The sleepers are in the part of the queue that is present. -/
theorem blockedOn_present {s : System H} (h : Sound s) (hq : Queued s) (id : Int) :
    ((s.blockedOn id).map s.table.pid).Sublist ((present s.kernel id).map Waiter.pid) := by
  rw [present_pids]
  have hsub := (hq.order id).filter (fun pid => ¬ isGone s.kernel.scheduler pid)
  rw [List.filter_eq_self.mpr] at hsub
  · exact hsub
  · intro pid hpid
    obtain ⟨p, hp, rfl⟩ := List.mem_map.mp hpid
    have hmem := (h.asleep _ (mem_blockedOn.mp hp)).1
    have hng : ¬ isGone s.kernel.scheduler (s.table.pid p) = true := fun hg =>
      (isGone_iff h.inv _).mp hg p hmem rfl
    simpa using hng

variable [MemoryManager H]

theorem blockedOn_step (s : System H) (c : Call) (id : Int) :
    (step s c).blockedOn id = (s.blockedOn id ++ entering (enters s.kernel c) id).filter
      (fun p => Asleep (after s.kernel c).scheduler.view p) := by
  unfold System.blockedOn entering step History.next
  dsimp only
  rw [← List.map_append, ← List.filter_append, List.filter_map, List.filter_filter,
    List.filter_filter]
  congr 1
  apply List.filter_congr
  intro e _
  simp [Bool.and_comm]

theorem entering_other {k : Kernel H} {c : Call} {id : Int}
    (hc : ∀ rsp, c ≠ .sem_wait id rsp) : entering (enters k c) id = [] := by
  unfold entering
  rw [List.map_eq_nil_iff, List.filter_eq_nil_iff]
  intro e he hr
  obtain ⟨rsp, hw, _⟩ := enters_sem he (by simpa using hr)
  exact hc rsp hw

/-- The sleepers of before are still in order after the call. -/
theorem pids_after (hn : Serves H NODE_SIZE) {s : System H} (h : Sound s) {c : Call}
    (hok : sparesIdle s c) {l : List Pcb} (hl : ∀ p ∈ l, p ∈ s.table.procs) (q : Pcb → Bool) :
    (((l.filter q).map (after s.kernel c).scheduler.view.pid)).Sublist (l.map s.table.pid) := by
  have hE := effect_after hn s c h hok
  rw [List.map_congr_left (fun p hp => hE.pid p (hl p (List.mem_of_mem_filter hp)))]
  exact List.filter_sublist.map _

/-! ## The queues along a run -/

theorem filter_erase_sublist (rest : List Waiter) (w : Waiter) :
    ((rest.map Waiter.pid).filter (fun pid => decide (pid ≠ w.pid))).Sublist
      ((rest.erase w).map Waiter.pid) := by
  induction rest with
  | nil => exact List.Sublist.refl _
  | cons x xs ih =>
    by_cases hx : x = w
    · subst hx
      rw [List.erase_cons_head, List.map_cons, List.filter_cons_of_neg (by simp)]
      exact List.filter_sublist
    · rw [List.erase_cons_tail (by simpa using hx), List.map_cons, List.map_cons]
      by_cases hp : x.pid = w.pid
      · rw [List.filter_cons_of_neg (by simpa using hp)]
        exact ih.cons _
      · rw [List.filter_cons_of_pos (by simpa using hp)]
        exact ih.cons_cons _

/-- A `sem_wait` that is not refused and finds no token finds a queue, and no
queue is freed under its waiters. -/
def keepsQueues (s : System H) (c : Call) : Prop :=
  sparesIdle s c ∧
  match c with
  | .sem_wait id _ =>
    isValidSemId id = 0 → (s.sem id).counter = 0 → (s.sem id).waitQueue.isSome
  | .sem_destroy id => s.blockedOn id = []
  | _ => True

instance (s : System H) (c : Call) : Decidable (keepsQueues s c) :=
  match c with
  | .sem_wait id rsp => inferInstanceAs (Decidable (sparesIdle s (.sem_wait id rsp) ∧
      (isValidSemId id = 0 → (s.sem id).counter = 0 → (s.sem id).waitQueue.isSome)))
  | .sem_destroy id => inferInstanceAs (Decidable
      (sparesIdle s (.sem_destroy id) ∧ s.blockedOn id = []))
  | .scheduler op => inferInstanceAs (Decidable (sparesIdle s (.scheduler op) ∧ True))
  | .sem_create id value => inferInstanceAs (Decidable (sparesIdle s (.sem_create id value) ∧ True))
  | .sem_post id => inferInstanceAs (Decidable (sparesIdle s (.sem_post id) ∧ True))

omit [MemoryManager H] in
theorem Queued.mem_procs {s : System H} (h : Sound s) {id : Int} :
    ∀ p ∈ s.blockedOn id, p ∈ s.table.procs :=
  fun _ hp => (h.asleep _ (mem_blockedOn.mp hp)).1

/-- A call that no process enters, and that leaves the queue alone. -/
theorem queued_same (hn : Serves H NODE_SIZE) {s : System H} (h : Sound s) (hq : Queued s)
    {c : Call} (hok : sparesIdle s c) {id : Int} (hc : ∀ rsp, c ≠ .sem_wait id rsp)
    (hsem : pids ((step s c).sem id) = pids (s.sem id)) :
    (((step s c).blockedOn id).map (step s c).table.pid).Sublist (pids ((step s c).sem id)) := by
  rw [blockedOn_step, entering_other hc, List.append_nil, hsem]
  exact (pids_after hn h hok (Queued.mem_procs h) _).trans (hq.order id)

/-- A call that nobody comes out of asleep. -/
theorem queued_nobody {s : System H} {c : Call} {id : Int}
    (hc : ∀ rsp, c ≠ .sem_wait id rsp) (hnil : s.blockedOn id = []) :
    (((step s c).blockedOn id).map (step s c).table.pid).Sublist (pids ((step s c).sem id)) := by
  rw [blockedOn_step, entering_other hc, hnil]
  exact List.nil_sublist _

theorem queued_wait (hn : Serves H NODE_SIZE) {s : System H} (h : Sound s) (hq : Queued s)
    {id : Int} {rsp : Addr} (hok : keepsQueues s (.sem_wait id rsp)) :
    (((step s (.sem_wait id rsp)).blockedOn id).map (step s (.sem_wait id rsp)).table.pid).Sublist
      (pids ((step s (.sem_wait id rsp)).sem id)) := by
  have hprocs : ∀ p ∈ s.blockedOn id, p ∈ s.table.procs := Queued.mem_procs h
  -- whoever enters awake adds nothing
  have hawake : ∀ {r : Int} {k' : Kernel H}, call s.kernel (.sem_wait id rsp) = some (r, k') →
      k'.scheduler.view = s.table → pids (k'.semaphores id) = pids (s.sem id) →
      (((step s (.sem_wait id rsp)).blockedOn id).map
        (step s (.sem_wait id rsp)).table.pid).Sublist
          (pids ((step s (.sem_wait id rsp)).sem id)) := by
    intro r k' hc htable hsem
    have hsem' : pids ((step s (.sem_wait id rsp)).sem id) = pids (s.sem id) := by
      show pids ((after s.kernel (.sem_wait id rsp)).semaphores id) = _
      rw [after_some (c := .sem_wait id rsp) hc]
      exact hsem
    rw [blockedOn_step, hsem', List.filter_append,
      (List.filter_eq_nil_iff (l := entering _ _)).mpr, List.append_nil]
    · exact (pids_after hn h hok.1 hprocs _).trans (hq.order id)
    · intro p hp
      obtain ⟨e, he, rfl⟩ := List.mem_map.mp hp
      obtain ⟨he, hr⟩ := List.mem_filter.mp he
      obtain ⟨_, _, _, _, hpcur⟩ := enters_sem he (by simpa using hr)
      rw [after_some (c := .sem_wait id rsp) hc, htable]
      simpa using fun ha : Asleep s.table e.1 => h.inv.not_blocked e.1 hpcur ha.2
  rcases valid_cases id with hv | hv
  · have hc : call s.kernel (.sem_wait id rsp) = some (-1, s.kernel) :=
      sem_wait_invalid _ rsp hv
    exact hawake hc rfl rfl
  rcases sem_wait_spec hn s.kernel rsp hv (h.free id) with
    ⟨_, k', hc, hb⟩ | ⟨_, k', hc, hb⟩ | ⟨h0, k', block, q, hc, hd, hb⟩
  · exact hawake hc hb.table (by rw [hb.sem_self]; rfl)
  · exact hawake hc hb.table (by rw [hb.sem_self]; rfl)
  · obtain ⟨queue, hqueue⟩ := Option.isSome_iff_exists.mp (hok.2 hv h0)
    have hpids : pids ((step s (.sem_wait id rsp)).sem id) =
        pids (s.sem id) ++ [getPid s.scheduler] := by
      show pids ((after s.kernel (.sem_wait id rsp)).semaphores id) = _
      rw [after_some (c := .sem_wait id rsp) hc, hb.sem_self]
      rw [show (s.kernel.semaphores id).waitQueue = some queue from hqueue] at hd
      obtain ⟨queue', hq', hdata⟩ := Option.map_eq_some_iff.mp hd
      simp only [pids, Semaphore.waiters, hq', hdata,
        show (s.sem id).waitQueue = some queue from hqueue]
      simp [System.scheduler]
    rw [blockedOn_step, hpids]
    rcases enters_current s.kernel (.sem_wait id rsp) with he | ⟨p, r, hcur, he⟩
    · rw [he, entering, List.filter_nil, List.map_nil, List.append_nil]
      exact ((pids_after hn h hok.1 hprocs _).trans (hq.order id)).trans
        (List.sublist_append_left _ _)
    · have hent : (entering (enters s.kernel (.sem_wait id rsp)) id).Sublist [p] := by
        rw [he]
        exact List.filter_sublist.map Prod.fst
      by_cases hp : p ∈ s.table.procs
      · have hall : ∀ q ∈ s.blockedOn id ++ entering (enters s.kernel (.sem_wait id rsp)) id,
            q ∈ s.table.procs := by
          intro q hqm
          rcases List.mem_append.mp hqm with hqm | hqm
          · exact hprocs q hqm
          · rw [List.mem_singleton.mp (hent.subset hqm)]
            exact hp
        apply (pids_after hn h hok.1 hall _).trans
        rw [List.map_append]
        refine (hq.order id).append ((hent.map s.table.pid).trans ?_)
        rw [List.map_singleton, (h.inv.cur.some_pid p hcur).1.symm]
        exact List.Sublist.refl _
      · have hnp : ¬ Asleep (after s.kernel (.sem_wait id rsp)).scheduler.view p := by
          rw [after_some (c := .sem_wait id rsp) hc, hb.table]
          have hprocs' : (s.table.block (getPid s.scheduler)).procs = s.table.procs :=
            procs_block h.inv hok.1
          exact fun ha => hp (hprocs' ▸ ha.1)
        rw [List.filter_append, (List.filter_eq_nil_iff (l := entering _ _)).mpr, List.append_nil]
        · exact ((pids_after hn h hok.1 hprocs _).trans (hq.order id)).trans
            (List.sublist_append_left _ _)
        · intro q hqm
          rw [List.mem_singleton.mp (hent.subset hqm)]
          simpa using hnp

theorem queued_post (hn : Serves H NODE_SIZE) {s : System H} (h : Sound s) (hq : Queued s)
    {id : Int} :
    (((step s (.sem_post id)).blockedOn id).map (step s (.sem_post id)).table.pid).Sublist
      (pids ((step s (.sem_post id)).sem id)) := by
  rcases valid_cases id with hv | hv
  · have hc : call s.kernel (.sem_post id) = some (-1, s.kernel) :=
      sem_post_invalid _ hv
    apply queued_same hn h hq (c := .sem_post id) trivial (fun _ hc => by cases hc)
    show pids ((after s.kernel (.sem_post id)).semaphores id) = _
    rw [after_some hc]
    rfl
  obtain ⟨k', q, hc, _, hp⟩ := sem_post_spec hn s.kernel hv (h.free id)
  have hpres := blockedOn_present h hq id
  cases hl : present s.kernel id with
  | nil =>
    rw [hl, List.map_nil, List.sublist_nil, List.map_eq_nil_iff] at hpres
    exact queued_nobody (fun _ hc => by cases hc) hpres
  | cons w rest =>
    have hpids : pids ((step s (.sem_post id)).sem id) = (rest.erase w).map Waiter.pid := by
      show pids ((after s.kernel (.sem_post id)).semaphores id) = _
      rw [hl] at hp
      rw [after_some (c := .sem_post id) hc, hp.2.sem_self, pids, hp.1 _ rfl]
    have hasleep : ∀ p ∈ s.blockedOn id, decide (Asleep
        (after s.kernel (.sem_post id)).scheduler.view p) = decide (s.table.pid p ≠ w.pid) := by
      intro p hp
      have := asleep_inside hn h (c := .sem_post id) trivial (mem_blockedOn.mp hp)
      rw [decide_eq_decide, this]
      simp [dead, woken, hv, hl]
    have hsub := hpres.filter (fun pid => decide (pid ≠ w.pid))
    rw [blockedOn_step, entering_other (fun _ hc => by cases hc), List.append_nil, hpids,
      List.filter_congr hasleep]
    have hpid : (step s (.sem_post id)).table = (after s.kernel (.sem_post id)).scheduler.view :=
      rfl
    rw [hpid, List.map_congr_left (fun p hp => (effect_after hn s (.sem_post id) h trivial).pid p
      (Queued.mem_procs h p (List.mem_of_mem_filter hp)))]
    rw [List.filter_map, hl, List.map_cons, List.filter_cons_of_neg (by simp)] at hsub
    exact hsub.trans (filter_erase_sublist rest w)

omit [MemoryManager H] in
/-- Nobody is blocked on a semaphore that has no queue. -/
theorem Queued.blockedOn_nil {s : System H} (hq : Queued s) {id : Int}
    (hnone : (s.sem id).waitQueue = none) : s.blockedOn id = [] := by
  have hsub := hq.order id
  rw [pids, Semaphore.waiters, hnone, List.map_nil, List.sublist_nil, List.map_eq_nil_iff] at hsub
  exact hsub

theorem queued_order_step (hn : Serves H NODE_SIZE) {s : System H} {c : Call} (h : Sound s)
    (hq : Queued s) (hok : keepsQueues s c) (id : Int) :
    (((step s c).blockedOn id).map (step s c).table.pid).Sublist (pids ((step s c).sem id)) := by
  by_cases hne : names id c
  · cases c with
    | scheduler op => exact absurd hne (fun hne => hne)
    | sem_create j v =>
      obtain rfl : j = id := hne
      rcases sem_create_spec s.kernel j v with ⟨_, hs⟩ | ⟨hc, _⟩
      · apply queued_same hn h hq (c := .sem_create j v) trivial (fun _ hc => by cases hc)
        show pids ((after s.kernel (.sem_create j v)).semaphores j) = _
        rw [after_some (c := .sem_create j v) (congrArg some hs)]
        rfl
      · refine queued_nobody (fun _ hc => by cases hc) (hq.blockedOn_nil (hq.inactive j ?_))
        show (s.kernel.semaphores j).active = false
        simp only [created] at hc
        split at hc
        · rename_i hj
          simpa using hj.2.2
        · cases hc
    | sem_destroy j =>
      obtain rfl : j = id := hne
      exact queued_nobody (fun _ hc => by cases hc) hok.2
    | sem_wait j rsp =>
      obtain rfl : j = id := hne
      exact queued_wait hn h hq hok
    | sem_post j =>
      obtain rfl : j = id := hne
      exact queued_post hn h hq
  · apply queued_same hn h hq hok.1 (fun rsp hc => hne (by rw [hc]; rfl))
    exact congrArg pids (sem_after_ne hn h hne)

theorem queued_inactive_step (hn : Serves H NODE_SIZE) {s : System H} {c : Call} (h : Sound s)
    (hq : Queued s) (hok : keepsQueues s c) (id : Int)
    (hi : ((step s c).sem id).active = false) : ((step s c).sem id).waitQueue = none := by
  have hsem : (step s c).sem id = (after s.kernel c).semaphores id := rfl
  rw [hsem] at hi ⊢
  have hsame : (after s.kernel c).semaphores id = s.sem id →
      ((after s.kernel c).semaphores id).waitQueue = none := fun he => by
    rw [he] at hi ⊢
    exact hq.inactive id hi
  by_cases hne : names id c
  swap
  · exact hsame (sem_after_ne hn h hne)
  cases c with
  | scheduler op => exact absurd hne (fun hne => hne)
  | sem_create j v =>
    obtain rfl : j = id := hne
    rcases sem_create_spec s.kernel j v with ⟨_, hs⟩ | ⟨_, r, k', q, hs, _, _, hb⟩
    · exact hsame (congrArg (fun k => k.semaphores j)
        (after_some (c := .sem_create j v) (congrArg some hs)))
    · rw [after_some (c := .sem_create j v) (congrArg some hs), hb.sem_self] at hi
      cases hi
  | sem_destroy j =>
    obtain rfl : j = id := hne
    rcases sem_destroy_spec s.kernel j with hs | ⟨_, hb⟩
    · exact hsame (congrArg (fun k => k.semaphores j) hs)
    · rw [hb.sem_self]
  | sem_wait j rsp =>
    obtain rfl : j = id := hne
    rcases valid_cases j with hv | hv
    · have hc : call s.kernel (.sem_wait j rsp) = some (-1, s.kernel) :=
        sem_wait_invalid _ rsp hv
      exact hsame (congrArg (fun k => k.semaphores j) (after_some hc))
    rcases sem_wait_spec hn s.kernel rsp hv (h.free j) with
      ⟨_, k', hc, hb⟩ | ⟨_, k', hc, hb⟩ | ⟨h0, k', block, q, hc, hd, hb⟩
    · rw [after_some (c := .sem_wait j rsp) hc, hb.sem_self] at hi ⊢
      exact hq.inactive j hi
    · rw [after_some (c := .sem_wait j rsp) hc, hb.sem_self] at hi ⊢
      exact hq.inactive j hi
    · rw [after_some (c := .sem_wait j rsp) hc, hb.sem_self] at hi
      have := hok.2 hv h0
      rw [hq.inactive j hi] at this
      cases this
  | sem_post j =>
    obtain rfl : j = id := hne
    rcases valid_cases j with hv | hv
    · have hc : call s.kernel (.sem_post j) = some (-1, s.kernel) :=
        sem_post_invalid _ hv
      exact hsame (congrArg (fun k => k.semaphores j) (after_some hc))
    obtain ⟨k', q, hc, hsome, hp⟩ := sem_post_spec hn s.kernel hv (h.free j)
    have hnone : (s.sem j).active = false → q = none := fun hi => by
      rw [show (s.kernel.semaphores j).waitQueue = none from hq.inactive j hi] at hsome
      simpa using hsome
    rw [after_some (c := .sem_post j) hc] at hi ⊢
    cases hl : present s.kernel j with
    | nil =>
      rw [hl] at hp
      rw [hp.2.sem_self] at hi ⊢
      exact hnone hi
    | cons w rest =>
      rw [hl] at hp
      rw [hp.2.sem_self] at hi ⊢
      exact hnone hi

theorem queued_step (hn : Serves H NODE_SIZE) (s : System H) (c : Call) (h : Sound s)
    (hq : Queued s) (hok : keepsQueues s c) : Queued (step s c) :=
  ⟨queued_order_step hn h hq hok, queued_inactive_step hn h hq hok⟩

theorem queued_booted {s : System H} (h : BootedSystem s) : Queued s := by
  obtain ⟨sch, _, hi, hh⟩ := h
  unfold initSemaphoreManager at hi
  split at hi
  · cases hi
  · refine ⟨fun id => ?_, fun id _ => ?_⟩
    · rw [System.blockedOn, hh]
      exact List.nil_sublist _
    · rw [System.sem, (Option.some.inj hi).symm]

end bare_bones.semaphore
