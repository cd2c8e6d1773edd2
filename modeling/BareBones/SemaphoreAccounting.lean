-- A semaphore that is left to its waiters and posters counts every token: the
-- kernel's counter and queue of pids behave as the queue of tokens of the
-- library, with the processes in place of the pids.
import BareBones.Lib.TokenSemaphore
import BareBones.SemaphoreQueues
import BareBones.WakeUps

namespace bare_bones.semaphore

open bare_bones.doubleLinkedList bare_bones.process bare_bones.scheduler
open bare_bones.process_table runs token_semaphore

variable {H : Type}

namespace System

/-- The counter of a semaphore, and who is blocked on it. -/
def tokens (s : System H) (id : Int) : Tokens Pcb := ⟨(s.sem id).counter, s.blockedOn id⟩

def ledger (s : System H) (id : Int) : Ledger Pcb :=
  ⟨s.history.arrivals id, s.history.completed id, s.history.posts id⟩

end System

/-- The kernel counts the tokens of a semaphore that was created with `n₀`. Its
queue holds exactly the pids of those who are blocked on it. -/
structure Counts (n₀ : Nat) (id : Int) (s : System H) : Prop where
  valid : isValidSemId id = 0
  active : (s.sem id).active = true
  queue : (s.sem id).waitQueue.isSome
  pids : pids (s.sem id) = (s.blockedOn id).map s.table.pid
  initial : s.history.initial id = n₀
  balanced : Balanced n₀ (s.tokens id) (s.ledger id)

variable [MemoryManager H]

/-- Nobody who waits on the semaphore is killed, or woken by another call than
a post on it; who waits on it is alive; and it is not destroyed. -/
def undisturbed (id : Int) (s : System H) (c : Call) : Prop :=
  sparesIdle s c ∧
  (∀ p ∈ s.blockedOn id, p ∉ dead s.kernel c ∧
    (s.table.pid p ∈ woken s.kernel c → ends s.kernel c (.sem id))) ∧
  match c with
  | .sem_wait j _ => j = id → ∃ p ∈ s.scheduler.procs, s.scheduler.currentProcess = some p
  | .sem_destroy j => j ≠ id
  | _ => True

/-- The initial value and the posts together stay below `2 ^ 32`. -/
def postsFit (id : Int) (s : System H) : Call → Prop
  | .sem_post j => j = id → s.history.initial id + (s.history.posts id).length + 1 < 2 ^ 32
  | _ => True

def calm (id : Int) (s : System H) (c : Call) : Prop := undisturbed id s c ∧ postsFit id s c

instance (id : Int) (s : System H) (c : Call) : Decidable (undisturbed id s c) :=
  have : Decidable (match c with
    | .sem_wait j _ => j = id → ∃ p ∈ s.scheduler.procs, s.scheduler.currentProcess = some p
    | .sem_destroy j => j ≠ id
    | _ => True) :=
    match c with
    | .sem_wait j _ => show Decidable (j = id →
        ∃ p ∈ s.scheduler.procs, s.scheduler.currentProcess = some p) from inferInstance
    | .sem_destroy j => show Decidable (j ≠ id) from inferInstance
    | .scheduler _ | .sem_create _ _ | .sem_post _ => isTrue trivial
  show Decidable (_ ∧ _ ∧ _) from inferInstance

omit [MemoryManager H] in
instance (id : Int) (s : System H) (c : Call) : Decidable (postsFit id s c) :=
  match c with
  | .sem_post j => inferInstanceAs (Decidable
      (j = id → s.history.initial id + (s.history.posts id).length + 1 < 2 ^ 32))
  | .scheduler _ | .sem_create _ _ | .sem_destroy _ | .sem_wait _ _ => isTrue trivial

instance (id : Int) (s : System H) (c : Call) : Decidable (calm id s c) :=
  inferInstanceAs (Decidable (_ ∧ _))

/-! ## What a call adds to the history -/

theorem posts_next (s : System H) (c : Call) (id : Int) :
    (step s c).history.posts id =
      since s.kernel c id (s.history.posts id) ++ poster s.kernel c id := rfl

theorem arrivals_next (s : System H) (c : Call) (id : Int) :
    (step s c).history.arrivals id =
      since s.kernel c id (s.history.arrivals id) ++ entering (enters s.kernel c) id := rfl

omit [MemoryManager H] in
theorem created_active {k : Kernel H} {id : Int} (ha : (k.semaphores id).active = true)
    (c : Call) : created k c id = none := by
  cases c with
  | sem_create j v =>
    unfold created
    dsimp only
    rw [if_neg]
    rintro ⟨rfl, _, hi⟩
    exact hi ha
  | _ => rfl

omit [MemoryManager H] in
theorem since_active {k : Kernel H} {id : Int} (ha : (k.semaphores id).active = true)
    (c : Call) {α : Type} (past : List α) : since k c id past = past := by
  rw [since, created_active ha]
  rfl

/-- Who is blocked on the semaphore sleeps on, unless the call is a post. -/
theorem blocked_stay (hn : Serves H NODE_SIZE) {s : System H} (h : Sound s) {id : Int} {c : Call}
    (hok : undisturbed id s c) (hp : c ≠ .sem_post id) {p : Pcb} (hb : p ∈ s.blockedOn id) :
    Asleep (after s.kernel c).scheduler.view p := by
  obtain ⟨hd, hw⟩ := hok.2.1 p hb
  refine (asleep_inside hn h hok.1 (mem_blockedOn.mp hb)).mpr ⟨hd, fun hm => hp ?_⟩
  have hends := hw hm
  cases c with
  | sem_post j => exact congrArg Call.sem_post hends
  | _ => exact absurd hends (fun hf => hf)

/-- Who is blocked on the semaphore after the call keeps its pid. -/
theorem pid_blockedOn (hn : Serves H NODE_SIZE) {s : System H} (h : Sound s) {id : Int} {c : Call}
    (hok : undisturbed id s c) :
    ((step s c).blockedOn id).map (step s c).table.pid =
      ((step s c).blockedOn id).map s.table.pid := by
  refine List.map_congr_left fun p hp => (effect_after hn s c h hok.1).pid p ?_
  rw [blockedOn_step] at hp
  rcases List.mem_append.mp (List.mem_of_mem_filter hp) with hp | hp
  · exact (h.asleep _ (mem_blockedOn.mp hp)).1
  · obtain ⟨e, he, rfl⟩ := List.mem_map.mp hp
    obtain ⟨he, hr⟩ := List.mem_filter.mp he
    obtain ⟨rsp, rfl, _, _, hcur⟩ := enters_sem he (by simpa using hr)
    obtain ⟨p, hp, hcur'⟩ := hok.2.2 rfl
    rw [Option.some.inj (hcur.symm.trans hcur')]
    exact hp

/-- The processes that were blocked go on being so. -/
theorem blockedOn_keep (hn : Serves H NODE_SIZE) {s : System H} (h : Sound s) {id : Int} {c : Call}
    (hok : undisturbed id s c) (hp : c ≠ .sem_post id) :
    (step s c).blockedOn id = s.blockedOn id ++ (entering (enters s.kernel c) id).filter
      (fun p => Asleep (after s.kernel c).scheduler.view p) := by
  rw [blockedOn_step, List.filter_append, List.filter_eq_self.mpr]
  intro p hb
  exact decide_eq_true (blocked_stay hn h hok hp hb)

theorem completing_keep (hn : Serves H NODE_SIZE) {s : System H} (h : Sound s) {id : Int}
    {c : Call} (hok : undisturbed id s c) (hp : c ≠ .sem_post id) :
    completing s.kernel c id s.history.inside = [] := by
  refine completing_nil fun e he hr hret => hret.1 ?_
  have hb : e.1 ∈ s.blockedOn id := mem_blockedOn.mpr (by rw [← hr]; exact he)
  exact (blocked_stay hn h hok hp hb).2

/-! ## The kernel refines the semaphore of the library -/

/-- The call leaves the semaphore with the tokens `t`, and grants one to each
of `granted`. -/
structure Leaves (id : Int) (s : System H) (c : Call) (t : Tokens Pcb) (granted : List Pcb) :
    Prop where
  tokens : (step s c).tokens id = t
  granted : (step s c).history.completed id = s.history.completed id ++ granted
  pids : pids ((step s c).sem id) = ((step s c).blockedOn id).map s.table.pid
  active : ((step s c).sem id).active = true
  queue : ((step s c).sem id).waitQueue.isSome

theorem Leaves.counts (hn : Serves H NODE_SIZE) {s : System H} (h : Sound s) {n₀ : Nat} {id : Int}
    (hs : Counts n₀ id s) {c : Call} (hok : undisturbed id s c) {t : Tokens Pcb}
    {granted : List Pcb} (hl : Leaves id s c t granted)
    (hbalanced : Balanced n₀ ((step s c).tokens id) ((step s c).ledger id)) :
    Counts n₀ id (step s c) := by
  refine ⟨hs.valid, hl.active, hl.queue, ?_, ?_, hbalanced⟩
  · rw [hl.pids, pid_blockedOn hn h hok]
  · rw [initial_step (created_active hs.active c)]
    exact hs.initial

/-- A call that neither waits nor posts on the semaphore. -/
theorem leaves_other (hn : Serves H NODE_SIZE) {s : System H} (h : Sound s) {n₀ : Nat} {id : Int}
    (hs : Counts n₀ id s) {c : Call} (hok : undisturbed id s c)
    (hw : ∀ rsp, c ≠ .sem_wait id rsp) (hp : c ≠ .sem_post id) :
    Leaves id s c (s.tokens id) [] := by
  have hsem : (step s c).sem id = s.sem id := by
    by_cases hne : names id c
    swap
    · exact sem_after_ne hn h hne
    cases c with
    | scheduler op => exact absurd hne (fun hf => hf)
    | sem_create j v =>
      obtain rfl : j = id := hne
      rcases sem_create_spec s.kernel j v with ⟨_, hc⟩ | ⟨hc, _⟩
      · exact congrArg (fun k => k.semaphores j)
          (after_some (c := .sem_create j v) (congrArg some hc))
      · rw [created_active hs.active] at hc
        cases hc
    | sem_destroy j => exact absurd hne hok.2.2
    | sem_wait j rsp => exact absurd (congrArg (Call.sem_wait · rsp) hne) (hw rsp)
    | sem_post j => exact absurd (congrArg Call.sem_post hne) hp
  have hblocked : (step s c).blockedOn id = s.blockedOn id := by
    rw [blockedOn_keep hn h hok hp, entering_other hw, List.filter_nil, List.append_nil]
  have hen : completing s.kernel c id (enters s.kernel c) = [] := by
    apply completing_nil
    intro e he hr _
    obtain ⟨rsp, hj, _⟩ := enters_sem he hr
    exact hw rsp hj
  refine ⟨?_, ?_, ?_, ?_, ?_⟩
  · rw [System.tokens, hsem, hblocked]
    rfl
  · rw [completed_next, completing_keep hn h hok hp, hen, since_active hs.active]
    rfl
  · rw [hsem, hblocked]
    exact hs.pids
  · rw [hsem]
    exact hs.active
  · rw [hsem]
    exact hs.queue

theorem counts_other (hn : Serves H NODE_SIZE) {s : System H} (h : Sound s) {n₀ : Nat} {id : Int}
    (hs : Counts n₀ id s) {c : Call} (hok : undisturbed id s c)
    (hw : ∀ rsp, c ≠ .sem_wait id rsp) (hp : c ≠ .sem_post id) :
    (step s c).tokens id = s.tokens id ∧ (step s c).ledger id = s.ledger id ∧
      Counts n₀ id (step s c) := by
  have hl := leaves_other hn h hs hok hw hp
  have hposter : poster s.kernel c id = [] := by
    cases c with
    | sem_post j =>
      unfold poster
      dsimp only
      rw [if_neg]
      rintro ⟨rfl, _⟩
      exact hp rfl
    | _ => rfl
  have hledger : (step s c).ledger id = s.ledger id := by
    unfold System.ledger
    rw [hl.granted, posts_next, hposter, arrivals_next, entering_other hw,
      since_active hs.active, since_active hs.active]
    simp
  refine ⟨hl.tokens, hledger, hl.counts hn h hs hok ?_⟩
  rw [hl.tokens, hledger]
  exact hs.balanced

/-- Who waits on a semaphore is served or sleeps, while the heap serves pids. -/
theorem sem_wait_served (hm : Serves H PID_SIZE) {k : Kernel H} {id : Int} (rsp : Addr)
    (hv : isValidSemId id = 0) (hf : (k.semaphores id).spinlock = 0) :
    result k (.sem_wait id rsp) = some 0 := by
  unfold result call sem_wait
  dsimp only
  rw [if_neg (by rw [hv]; decide), acquire_free hf]
  dsimp only
  split
  · rfl
  · obtain ⟨a, heap, ha⟩ := hm k.scheduler.heap
    rw [ha]
    rfl

section Wait

variable {s : System H} {n₀ : Nat} {id : Int} {rsp : Addr} {p : Pcb}

theorem enters_wait (hm : Serves H PID_SIZE) (h : Sound s) (hs : Counts n₀ id s)
    (hcur : s.scheduler.currentProcess = some p) :
    enters s.kernel (.sem_wait id rsp) = [(p, .sem id)] := by
  rw [enters, if_pos ⟨hs.valid, sem_wait_served hm rsp hs.valid (h.free id)⟩,
    show s.kernel.scheduler.currentProcess = some p from hcur]
  rfl

theorem entering_wait (hm : Serves H PID_SIZE) (h : Sound s) (hs : Counts n₀ id s)
    (hcur : s.scheduler.currentProcess = some p) :
    entering (enters s.kernel (.sem_wait id rsp)) id = [p] := by
  rw [enters_wait hm h hs hcur]
  simp [entering]

/-- The waiter takes a token of the counter. -/
theorem leaves_wait_pos (hn : Serves H NODE_SIZE) (hm : Serves H PID_SIZE) (h : Sound s)
    (hs : Counts n₀ id s) (hok : undisturbed id s (.sem_wait id rsp))
    (hcur : s.scheduler.currentProcess = some p) (hpos : 0 < (s.sem id).counter) :
    Leaves id s (.sem_wait id rsp) ((s.tokens id).wait p) ((s.tokens id).waitGrants p) := by
  obtain ⟨p', hp, hcur'⟩ := hok.2.2 rfl
  obtain rfl : p' = p := Option.some.inj (hcur'.symm.trans hcur)
  have hpos' : 0 < (s.tokens id).counter := hpos
  obtain ⟨_, k', hc, hb⟩ | ⟨h0, _⟩ | ⟨h0, _⟩ :=
    sem_wait_spec hn s.kernel rsp hs.valid (h.free id)
  rotate_left
  · exact absurd h0 (Nat.ne_of_gt hpos)
  · exact absurd h0 (Nat.ne_of_gt hpos)
  have hafter := after_some (c := .sem_wait id rsp) hc
  have hsem : (step s (.sem_wait id rsp)).sem id =
      { s.sem id with counter := (s.sem id).counter - 1 } := by
    show (after s.kernel (.sem_wait id rsp)).semaphores id = _
    rw [hafter, hb.sem_self]
    rfl
  have hawake : ¬ Asleep (after s.kernel (.sem_wait id rsp)).scheduler.view p' := by
    rw [hafter, hb.table]
    exact fun ha => h.inv.not_blocked p' hcur ha.2
  have hret : Returns (after s.kernel (.sem_wait id rsp)).scheduler.view p' := by
    rw [hafter, hb.table]
    exact ⟨h.inv.not_blocked p' hcur, Or.inl hp⟩
  have hblocked : (step s (.sem_wait id rsp)).blockedOn id = s.blockedOn id := by
    rw [blockedOn_keep hn h hok (by simp), entering_wait hm h hs hcur,
      List.filter_cons_of_neg (by simpa using hawake), List.filter_nil, List.append_nil]
  refine ⟨?_, ?_, ?_, ?_, ?_⟩
  · rw [System.tokens, hsem, hblocked, Tokens.wait, if_pos hpos']
    rfl
  · rw [completed_next, completing_keep hn h hok (by simp), enters_wait hm h hs hcur,
      since_active hs.active, Tokens.waitGrants, if_pos hpos', completing,
      List.filter_cons_of_pos (by simpa using hret)]
    rfl
  · rw [hsem, hblocked]
    exact hs.pids
  · rw [hsem]
    exact hs.active
  · rw [hsem]
    exact hs.queue

/-- The waiter finds no token and blocks. -/
theorem leaves_wait_zero (hn : Serves H NODE_SIZE) (hm : Serves H PID_SIZE) (h : Sound s)
    (hs : Counts n₀ id s) (hok : undisturbed id s (.sem_wait id rsp))
    (hcur : s.scheduler.currentProcess = some p) (hzero : (s.sem id).counter = 0) :
    Leaves id s (.sem_wait id rsp) ((s.tokens id).wait p) ((s.tokens id).waitGrants p) := by
  obtain ⟨p', hp, hcur'⟩ := hok.2.2 rfl
  obtain rfl : p' = p := Option.some.inj (hcur'.symm.trans hcur)
  have hr := sem_wait_served hm rsp hs.valid (h.free id)
  have hneg : ¬ 0 < (s.tokens id).counter := by
    rw [System.tokens, hzero]
    exact Nat.lt_irrefl 0
  obtain ⟨hpos, _⟩ | ⟨_, k', hc, _⟩ | ⟨_, k', block, q, hc, hd, hb⟩ :=
    sem_wait_spec hn s.kernel rsp hs.valid (h.free id)
  · exact absurd hpos hneg
  · rw [result_some (c := .sem_wait id rsp) hc] at hr
    cases hr
  have hsem : (step s (.sem_wait id rsp)).sem id = { s.sem id with waitQueue := q } := by
    show (after s.kernel (.sem_wait id rsp)).semaphores id = _
    rw [after_some (c := .sem_wait id rsp) hc, hb.sem_self]
    rfl
  have hasleep := asleep_waiter hn h hok.1 hs.valid hzero hr hp hcur
  have hblocked : (step s (.sem_wait id rsp)).blockedOn id = s.blockedOn id ++ [p'] := by
    rw [blockedOn_keep hn h hok (by simp), entering_wait hm h hs hcur,
      List.filter_cons_of_pos (by simpa using hasleep), List.filter_nil]
  obtain ⟨queue, hqueue⟩ := Option.isSome_iff_exists.mp hs.queue
  rw [show (s.kernel.semaphores id).waitQueue = some queue from hqueue] at hd
  obtain ⟨queue', hq', hdata⟩ := Option.map_eq_some_iff.mp hd
  refine ⟨?_, ?_, ?_, ?_, ?_⟩
  · rw [System.tokens, hsem, hblocked, Tokens.wait, if_neg hneg]
    rfl
  · rw [completed_next, completing_keep hn h hok (by simp), enters_wait hm h hs hcur,
      since_active hs.active, Tokens.waitGrants, if_neg hneg, completing_nil]
    · rfl
    · intro e he _ hret
      rw [List.mem_singleton.mp he] at hret
      exact hret.1 hasleep.2
  · have hold := hs.pids
    rw [pids, Semaphore.waiters, hqueue] at hold
    have hpid : getPid s.scheduler = s.table.pid p' := (h.inv.cur.some_pid p' hcur).1
    rw [hsem, hblocked, List.map_append, ← hold, List.map_singleton, ← hpid, pids,
      Semaphore.waiters, hq']
    simp [hdata, System.scheduler]
  · rw [hsem]
    exact hs.active
  · rw [hsem, hq']
    rfl

/-- `sem_wait` is the wait of the library. -/
theorem counts_wait (hn : Serves H NODE_SIZE) (hm : Serves H PID_SIZE) (h : Sound s)
    (hs : Counts n₀ id s) (hok : undisturbed id s (.sem_wait id rsp))
    (hcur : s.scheduler.currentProcess = some p) :
    (step s (.sem_wait id rsp)).tokens id = (s.tokens id).wait p ∧
      (step s (.sem_wait id rsp)).ledger id = (s.ledger id).wait (s.tokens id) p ∧
      Counts n₀ id (step s (.sem_wait id rsp)) := by
  have hl : Leaves id s (.sem_wait id rsp) ((s.tokens id).wait p) ((s.tokens id).waitGrants p) := by
    rcases Nat.eq_zero_or_pos (s.sem id).counter with hc | hc
    · exact leaves_wait_zero hn hm h hs hok hcur hc
    · exact leaves_wait_pos hn hm h hs hok hcur hc
  have hledger : (step s (.sem_wait id rsp)).ledger id =
      (s.ledger id).wait (s.tokens id) p := by
    unfold System.ledger Ledger.wait
    rw [hl.granted, posts_next, arrivals_next, entering_wait hm h hs hcur,
      since_active hs.active, since_active hs.active]
    simp [poster]
  refine ⟨hl.tokens, hledger, hl.counts hn h hs hok ?_⟩
  rw [hl.tokens, hledger]
  exact balanced_wait hs.balanced p

end Wait

section Post

variable {s : System H} {n₀ : Nat} {id : Int}

theorem completing_blockedOn (s : System H) (c : Call) (id : Int) :
    (completing s.kernel c id s.history.inside).map Prod.fst =
      (s.blockedOn id).filter (fun p => Returns (after s.kernel c).scheduler.view p) := by
  unfold completing System.blockedOn
  rw [List.filter_map, List.filter_filter]
  congr 1
  apply List.filter_congr
  intro e _
  simp [Bool.and_comm]

omit [MemoryManager H] in
/-- All the pids of the queue name processes. -/
theorem present_all (h : Sound s) (hs : Counts n₀ id s) :
    present s.kernel id = (s.sem id).waiters := by
  apply List.filter_eq_self.mpr
  intro w hw
  have hm : w.pid ∈ (s.blockedOn id).map s.table.pid := by
    rw [← hs.pids]
    exact List.mem_map_of_mem hw
  obtain ⟨p, hp, hpid⟩ := List.mem_map.mp hm
  have hnot : ¬ isGone s.kernel.scheduler w.pid = true := fun hg =>
    (isGone_iff h.inv _).mp hg p (h.asleep _ (mem_blockedOn.mp hp)).1 hpid
  simpa using hnot

omit [MemoryManager H] in
theorem nodup_blockedOn (h : Sound s) (id : Int) : ((s.blockedOn id).map s.table.pid).Nodup := by
  have hn : (s.blockedOn id).Nodup := h.nodup.sublist (List.filter_sublist.map Prod.fst)
  apply hn.map_on
  intro p hp q hq he
  exact h.inv.core.pid_inj p (h.asleep _ (mem_blockedOn.mp hp)).1 q
    (h.asleep _ (mem_blockedOn.mp hq)).1 he

theorem completed_post (hs : Counts n₀ id s) :
    (step s (.sem_post id)).history.completed id = s.history.completed id ++
      (s.blockedOn id).filter
        (fun p => Returns (after s.kernel (.sem_post id)).scheduler.view p) := by
  rw [completed_next, completing_blockedOn, since_active hs.active]
  exact congrArg _ (List.append_nil _)

/-- The post counts up when nobody waits. -/
theorem leaves_post_nil (hn : Serves H NODE_SIZE) (h : Sound s) (hs : Counts n₀ id s)
    (hroom : (s.sem id).counter + 1 < 2 ^ 32) (hnil : s.blockedOn id = []) :
    Leaves id s (.sem_post id) (s.tokens id).post (s.tokens id).postGrants := by
  obtain ⟨k', q, hc, hsome, hp⟩ := sem_post_spec hn s.kernel hs.valid (h.free id)
  have hwaiters : (s.sem id).waiters = [] := by
    have hpids := hs.pids
    rw [hnil, List.map_nil] at hpids
    exact List.map_eq_nil_iff.mp hpids
  rw [present_all h hs, hwaiters] at hp
  have hsem : (step s (.sem_post id)).sem id = { s.sem id with
      waitQueue := q, counter := ((s.sem id).counter + 1) % 2 ^ 32 } := by
    show (after s.kernel (.sem_post id)).semaphores id = _
    rw [after_some (c := .sem_post id) hc, hp.2.sem_self]
    rfl
  have hblocked : (step s (.sem_post id)).blockedOn id = [] := by
    rw [blockedOn_step, entering_other (by simp), hnil]
    rfl
  refine ⟨?_, ?_, ?_, ?_, ?_⟩
  · rw [System.tokens, hsem, hblocked, Tokens.post]
    simp only [System.tokens, hnil, Nat.mod_eq_of_lt hroom]
  · rw [completed_post hs, hnil]
    simp [Tokens.postGrants, System.tokens, hnil]
  · rw [hsem, hblocked, pids, hp.1 _ rfl]
    rfl
  · rw [hsem]
    exact hs.active
  · rw [hsem]
    exact hsome.trans hs.queue

/-- The post hands its token to the first waiter. -/
theorem leaves_post_cons (hn : Serves H NODE_SIZE) (h : Sound s) (hs : Counts n₀ id s)
    {p : Pcb} {rest : List Pcb} (hcons : s.blockedOn id = p :: rest) :
    Leaves id s (.sem_post id) (s.tokens id).post (s.tokens id).postGrants := by
  obtain ⟨k', q, hc, hsome, hp⟩ := sem_post_spec hn s.kernel hs.valid (h.free id)
  have hpids := hs.pids
  have hnodup := nodup_blockedOn h id
  rw [hcons, List.map_cons] at hpids hnodup
  rw [present_all h hs] at hp
  -- the first of the queue is the pid of `p`
  obtain ⟨w, ws, hwaiters, hw, hws⟩ := List.map_eq_cons_iff.mp hpids
  rw [hwaiters] at hp
  have hwoken : woken s.kernel (.sem_post id) = [s.table.pid p] := by
    rw [woken, if_pos hs.valid, present_all h hs, hwaiters, ← hw]
    rfl
  have hdistinct : ∀ q ∈ rest, s.table.pid q ≠ s.table.pid p := fun q hq he =>
    (List.nodup_cons.mp hnodup).1 (he ▸ List.mem_map_of_mem hq)
  have hnotin : w ∉ ws := fun hm =>
    (List.nodup_cons.mp hnodup).1 (hws ▸ hw ▸ List.mem_map_of_mem hm)
  have hmem : ∀ q, q ∈ p :: rest → (q, Reason.sem id) ∈ s.history.inside := fun q hq =>
    mem_blockedOn.mp (hcons ▸ hq)
  have hasleep : ∀ q ∈ p :: rest, Asleep (after s.kernel (.sem_post id)).scheduler.view q ↔
      s.table.pid q ≠ s.table.pid p := fun q hq => by
    rw [asleep_inside hn h (c := .sem_post id) trivial (hmem q hq), hwoken]
    simp [dead]
  have hreturns : ∀ q ∈ p :: rest, Returns (after s.kernel (.sem_post id)).scheduler.view q ↔
      s.table.pid q = s.table.pid p := fun q hq => by
    rw [returns_inside hn h (c := .sem_post id) trivial (hmem q hq), hwoken]
    simp [dead]
  have hsem : (step s (.sem_post id)).sem id = { s.sem id with waitQueue := q } := by
    show (after s.kernel (.sem_post id)).semaphores id = _
    rw [after_some (c := .sem_post id) hc, hp.2.sem_self]
    rfl
  have hblocked : (step s (.sem_post id)).blockedOn id = rest := by
    rw [blockedOn_step, entering_other (by simp), List.append_nil, hcons,
      List.filter_cons_of_neg (by simp [hasleep]), List.filter_eq_self]
    exact fun q hq => decide_eq_true ((hasleep q (List.mem_cons_of_mem _ hq)).mpr (hdistinct q hq))
  refine ⟨?_, ?_, ?_, ?_, ?_⟩
  · rw [System.tokens, hsem, hblocked, Tokens.post]
    simp only [System.tokens, hcons]
  · rw [completed_post hs, hcons, List.filter_cons_of_pos (by simp [hreturns]),
      List.filter_eq_nil_iff.mpr]
    · simp [Tokens.postGrants, System.tokens, hcons]
    · intro q hq hret
      exact hdistinct q hq ((hreturns q (List.mem_cons_of_mem _ hq)).mp (of_decide_eq_true hret))
  · rw [hsem, hblocked, pids, hp.1 _ rfl, List.erase_of_not_mem hnotin]
    exact hws
  · rw [hsem]
    exact hs.active
  · rw [hsem]
    exact hsome.trans hs.queue

/-- `sem_post` is the post of the library, while the counter can count. -/
theorem counts_post (hn : Serves H NODE_SIZE) (h : Sound s) (hs : Counts n₀ id s)
    (hok : undisturbed id s (.sem_post id)) (hroom : (s.sem id).counter + 1 < 2 ^ 32) :
    (step s (.sem_post id)).tokens id = (s.tokens id).post ∧
      (step s (.sem_post id)).ledger id =
        (s.ledger id).post (s.tokens id) s.scheduler.currentProcess ∧
      Counts n₀ id (step s (.sem_post id)) := by
  have hl : Leaves id s (.sem_post id) (s.tokens id).post (s.tokens id).postGrants := by
    cases hb : s.blockedOn id with
    | nil => exact leaves_post_nil hn h hs hroom hb
    | cons p rest => exact leaves_post_cons hn h hs hb
  obtain ⟨k', q, hc, _⟩ := sem_post_spec hn s.kernel hs.valid (h.free id)
  have hposter : poster s.kernel (.sem_post id) id = [s.scheduler.currentProcess] := by
    rw [poster, if_pos ⟨rfl, hs.valid, result_some (c := .sem_post id) hc⟩]
    rfl
  have hledger : (step s (.sem_post id)).ledger id =
      (s.ledger id).post (s.tokens id) s.scheduler.currentProcess := by
    unfold System.ledger Ledger.post
    rw [hl.granted, posts_next, hposter, arrivals_next, entering_other (by simp),
      since_active hs.active, since_active hs.active]
    simp
  refine ⟨hl.tokens, hledger, hl.counts hn h hs hok ?_⟩
  rw [hl.tokens, hledger]
  exact balanced_post hs.balanced _

end Post

/-! ## A new semaphore -/

/-- The system right after the semaphore is created for the first time. -/
def FreshlyCreated (n₀ : Nat) (id : Int) (s : System H) : Prop :=
  ∃ (boot : System H) (before : List Call), BootedSystem boot ∧
    Meets step sparesIdle boot before ∧ (∀ c ∈ before, ¬ names id c) ∧
    result (run step boot before).kernel (.sem_create id n₀) = some 0 ∧
    s = step (run step boot before) (.sem_create id n₀)

theorem created_zero {s : System H} {n₀ : Nat} {id : Int}
    (hr : result s.kernel (.sem_create id n₀) = some 0) :
    isValidSemId id = 0 ∧ created s.kernel (.sem_create id n₀) id = some n₀ ∧
      ∃ waitQueue, waitQueue.isSome ∧
        (∀ sem : Semaphore, sem.waitQueue = waitQueue → sem.waiters = []) ∧
        (step s (.sem_create id n₀)).sem id = ⟨waitQueue, n₀, 0, true⟩ := by
  obtain ⟨_, hs⟩ | ⟨hc, r, k', q, hs, hq, hsome, hb⟩ := sem_create_spec s.kernel id n₀
  · rw [result_some (c := .sem_create id n₀) (congrArg some hs)] at hr
    cases hr
  rw [result_some (c := .sem_create id n₀) (congrArg some hs)] at hr
  refine ⟨?_, hc, q, hsome (Option.some.inj hr), hq, ?_⟩
  · unfold created at hc
    dsimp only at hc
    split at hc
    · rename_i hv
      exact hv.2.1
    · cases hc
  · show (after s.kernel (.sem_create id n₀)).semaphores id = _
    rw [after_some (c := .sem_create id n₀) (congrArg some hs), hb.sem_self]

/-- A new semaphore has no past. -/
theorem created_empty {s : System H} {n₀ : Nat} {id : Int} (hnil : s.blockedOn id = [])
    (hr : result s.kernel (.sem_create id n₀) = some 0) :
    (step s (.sem_create id n₀)).blockedOn id = [] ∧
      (step s (.sem_create id n₀)).ledger id = ⟨[], [], []⟩ := by
  constructor
  · rw [blockedOn_step, entering_other (by simp), hnil]
    rfl
  · unfold System.ledger
    rw [completed_next, completing_blockedOn, hnil, posts_next, arrivals_next,
      entering_other (by simp)]
    simp [since, (created_zero hr).2.1, poster, completing, enters]

theorem counts_created {s : System H} {n₀ : Nat} {id : Int} (hnil : s.blockedOn id = [])
    (hr : result s.kernel (.sem_create id n₀) = some 0) :
    Counts n₀ id (step s (.sem_create id n₀)) := by
  obtain ⟨hvalid, hc, q, hsome, hq, hsem⟩ := created_zero hr
  obtain ⟨hblocked, hledger⟩ := created_empty hnil hr
  refine ⟨hvalid, ?_, ?_, ?_, ?_, ?_⟩
  · rw [hsem]
  · rw [hsem]
    exact hsome
  · rw [hsem, hblocked, pids, hq _ rfl]
    rfl
  · show (created s.kernel (.sem_create id n₀) id).getD _ = n₀
    rw [hc]
    rfl
  · rw [System.tokens, hsem, hblocked, hledger]
    exact balanced_start n₀

/-- Nobody is blocked on a semaphore that no call was about. -/
theorem blockedOn_unused {boot : System H} (h : BootedSystem boot) {before : List Call} {id : Int}
    (hunused : ∀ c ∈ before, ¬ names id c) : (run step boot before).blockedOn id = [] := by
  have hmeets : Meets step (fun _ c => ¬ names id c) boot before := by
    clear h
    induction before generalizing boot with
    | nil => trivial
    | cons c before ih =>
      exact ⟨hunused c List.mem_cons_self,
        ih fun c' hc' => hunused c' (List.mem_cons_of_mem _ hc')⟩
  refine run_invariant (I := fun s => s.blockedOn id = []) (fun s c hs hc => ?_) ?_ hmeets
  · rw [blockedOn_step, hs, entering_other]
    · rfl
    · rintro rsp rfl
      exact hc rfl
  · obtain ⟨_, _, _, hh⟩ := h
    rw [System.blockedOn, hh]
    rfl

theorem FreshlyCreated.sound (hn : Serves H NODE_SIZE) {s : System H} {n₀ : Nat} {id : Int}
    (h : FreshlyCreated n₀ id s) : Sound s := by
  obtain ⟨boot, before, hb, hok, _, _, rfl⟩ := h
  exact sound_step hn _ _ (run_invariant (sound_step hn) (sound_booted hn hb) hok) trivial

theorem FreshlyCreated.counts {s : System H} {n₀ : Nat} {id : Int} (h : FreshlyCreated n₀ id s) :
    Counts n₀ id s := by
  obtain ⟨boot, before, hb, _, hunused, hr, rfl⟩ := h
  exact counts_created (blockedOn_unused hb hunused) hr

theorem FreshlyCreated.empty {s : System H} {n₀ : Nat} {id : Int} (h : FreshlyCreated n₀ id s) :
    s.blockedOn id = [] ∧ s.ledger id = ⟨[], [], []⟩ := by
  obtain ⟨boot, before, hb, _, hunused, hr, rfl⟩ := h
  exact created_empty (blockedOn_unused hb hunused) hr

/-! ## What a call does to the books -/

/-- What a call does to the books of the semaphore: it is a wait or a post of
the library, or leaves them alone. -/
theorem counts_cases (hn : Serves H NODE_SIZE) (hm : Serves H PID_SIZE) {s : System H} {n₀ : Nat}
    {id : Int} (c : Call) (h : Sound s) (hs : Counts n₀ id s) (hok : calm id s c) :
    Counts n₀ id (step s c) ∧
      ((∃ rsp p, c = .sem_wait id rsp ∧ s.scheduler.currentProcess = some p ∧
          (step s c).ledger id = (s.ledger id).wait (s.tokens id) p) ∨
        (c = .sem_post id ∧ (step s c).ledger id =
          (s.ledger id).post (s.tokens id) s.scheduler.currentProcess) ∨
        ((∀ rsp, c ≠ .sem_wait id rsp) ∧ c ≠ .sem_post id ∧
          (step s c).ledger id = s.ledger id)) := by
  by_cases hw : ∃ rsp, c = .sem_wait id rsp
  · obtain ⟨rsp, rfl⟩ := hw
    obtain ⟨p, _, hcur⟩ := hok.1.2.2 rfl
    obtain ⟨_, hledger, hcounts⟩ := counts_wait hn hm h hs hok.1 hcur
    exact ⟨hcounts, Or.inl ⟨rsp, p, rfl, hcur, hledger⟩⟩
  by_cases hp : c = .sem_post id
  · subst hp
    have hroom : (s.sem id).counter + 1 < 2 ^ 32 := by
      have hfit := hok.2 rfl
      have hcount := hs.balanced.count
      rw [hs.initial] at hfit
      simp only [System.tokens, System.ledger] at hcount
      omega
    obtain ⟨_, hledger, hcounts⟩ := counts_post hn h hs hok.1 hroom
    exact ⟨hcounts, Or.inr (Or.inl ⟨rfl, hledger⟩)⟩
  · have hw' : ∀ rsp, c ≠ .sem_wait id rsp := fun rsp hc => hw ⟨rsp, hc⟩
    obtain ⟨_, hledger, hcounts⟩ := counts_other hn h hs hok.1 hw' hp
    exact ⟨hcounts, Or.inr (Or.inr ⟨hw', hp, hledger⟩)⟩

/-- To whom a call grants a token: a wait on a positive counter, and a post when
somebody waits. -/
def granted (id : Int) (s : System H) : Call → List Pcb
  | .sem_wait j _ => if j = id ∧ 0 < (s.sem id).counter then s.scheduler.currentProcess.toList
    else []
  | .sem_post j => if j = id then (s.blockedOn id).take 1 else []
  | _ => []

/-- The waits that a call grants are those of `granted`. -/
def Grants (id : Int) (s : System H) (c : Call) : Prop :=
  (step s c).history.completed id = s.history.completed id ++ granted id s c

theorem grants_step (hn : Serves H NODE_SIZE) (hm : Serves H PID_SIZE) {s : System H} {n₀ : Nat}
    {id : Int} (c : Call) (h : Sound s) (hs : Counts n₀ id s) (hok : calm id s c) :
    Grants id s c := by
  unfold Grants
  obtain ⟨_, ⟨rsp, p, rfl, hcur, hledger⟩ | ⟨rfl, hledger⟩ | ⟨hw, hp, hledger⟩⟩ :=
    counts_cases hn hm c h hs hok
  · apply (congrArg Ledger.granted hledger).trans
    by_cases hpos : 0 < (s.sem id).counter
    · simp [granted, hcur, hpos, Ledger.wait, Tokens.waitGrants, System.ledger, System.tokens]
    · simp [granted, hpos, Ledger.wait, Tokens.waitGrants, System.ledger, System.tokens]
  · apply (congrArg Ledger.granted hledger).trans
    simp [granted, Ledger.post, Tokens.postGrants, System.ledger, System.tokens]
  · have hnil : granted id s c = [] := by
      cases c with
      | sem_wait j rsp => exact if_neg fun hj => hw rsp (congrArg (Call.sem_wait · rsp) hj.1)
      | sem_post j => exact if_neg fun hj => hp (congrArg Call.sem_post hj)
      | _ => rfl
    rw [hnil, List.append_nil]
    exact congrArg Ledger.granted hledger

/-- The books of the semaphore balance, and its queue holds exactly the pids of
the processes that are blocked on it, each once. -/
structure Accounting (n₀ : Nat) (id : Int) (s : System H) : Prop where
  count : (s.sem id).counter + (s.history.completed id).length =
    n₀ + (s.history.posts id).length
  served : 0 < (s.sem id).counter → (s.sem id).waiters = []
  queue : pids (s.sem id) = (s.blockedOn id).map s.scheduler.pid
  nodup : (pids (s.sem id)).Nodup
  blocked : ∀ p ∈ s.blockedOn id, p ∈ s.scheduler.procs ∧ s.scheduler.status p = .BLOCKED
  order : s.history.arrivals id = s.history.completed id ++ s.blockedOn id

omit [MemoryManager H] in
theorem Counts.accounting {s : System H} (h : Sound s) {n₀ : Nat} {id : Int}
    (hs : Counts n₀ id s) : Accounting n₀ id s := by
  refine ⟨hs.balanced.count, fun hpos => ?_, hs.pids, ?_, ?_, hs.balanced.order⟩
  · have hnil : s.blockedOn id = [] := hs.balanced.served hpos
    have hpids := hs.pids
    rw [hnil, List.map_nil] at hpids
    exact List.map_eq_nil_iff.mp hpids
  · rw [hs.pids]
    exact nodup_blockedOn h id
  · exact fun p hp => h.asleep _ (mem_blockedOn.mp hp)

/-- A process posts only between a wait that was granted and its own post. -/
def brackets (id : Int) (s : System H) : Call → Prop
  | .sem_post j => j = id → ∃ p ∈ s.scheduler.currentProcess, (s.ledger id).Holds p
  | _ => True

instance (id : Int) (s : System H) (c : Call) : Decidable (brackets id s c) :=
  match c with
  | .sem_post j => inferInstanceAs (Decidable
      (j = id → ∃ p ∈ s.scheduler.currentProcess, (s.ledger id).Holds p))
  | .scheduler _ | .sem_create _ _ | .sem_destroy _ | .sem_wait _ _ => isTrue trivial

/-- A bracketed call keeps the tokens with those who hold them. -/
theorem fair_step (hn : Serves H NODE_SIZE) (hm : Serves H PID_SIZE) {s : System H} {n₀ : Nat}
    {id : Int} (c : Call) (h : Sound s) (hs : Counts n₀ id s) (hf : (s.ledger id).Fair)
    (hok : calm id s c) (hb : brackets id s c) :
    ((step s c).ledger id).Fair := by
  obtain ⟨_, ⟨rsp, p, rfl, hcur, hledger⟩ | ⟨rfl, hledger⟩ | ⟨_, _, hledger⟩⟩ :=
    counts_cases hn hm c h hs hok
  · rw [hledger]
    exact fair_grant hf _ _
  · obtain ⟨p, hcur, hholds⟩ := hb rfl
    rw [hledger, hcur]
    exact fair_post hf hholds _
  · rw [hledger]
    exact hf

/-! ## Every run -/

theorem accounting_run (hn : Serves H NODE_SIZE) (hm : Serves H PID_SIZE) {s : System H} {n₀ : Nat}
    {id : Int} (h : FreshlyCreated n₀ id s) {cs : List Call} (hok : Meets step (calm id) s cs) :
    Meets step (Grants id) s cs ∧ Accounting n₀ id (run step s cs) := by
  have hstep : ∀ s c, Sound s ∧ Counts n₀ id s → calm id s c →
      Sound (step s c) ∧ Counts n₀ id (step s c) := fun s c hs hok =>
    ⟨sound_step hn s c hs.1 hok.1.1, (counts_cases hn hm c hs.1 hs.2 hok).1⟩
  have h0 : Sound s ∧ Counts n₀ id s := ⟨h.sound hn, h.counts⟩
  refine ⟨run_steps hstep (fun s c hs hok => grants_step hn hm c hs.1 hs.2 hok) h0 hok, ?_⟩
  have hrun := run_invariant hstep h0 hok
  exact hrun.2.accounting hrun.1

/-- At most one process is between a wait that was granted and its post. -/
theorem exclusion_run (hn : Serves H NODE_SIZE) (hm : Serves H PID_SIZE) {s : System H} {id : Int}
    (h : FreshlyCreated 1 id s) {cs : List Call}
    (hok : Meets step (fun s c => calm id s c ∧ brackets id s c) s cs) {p q : Pcb}
    (hp : ((run step s cs).ledger id).Holds p) (hq : ((run step s cs).ledger id).Holds q) :
    p = q := by
  have hstep : ∀ s c, Sound s ∧ Counts 1 id s ∧ (s.ledger id).Fair → calm id s c ∧ brackets id s c →
      Sound (step s c) ∧ Counts 1 id (step s c) ∧ ((step s c).ledger id).Fair :=
    fun s c hs hok => ⟨sound_step hn s c hs.1 hok.1.1.1, (counts_cases hn hm c hs.1 hs.2.1 hok.1).1,
      fair_step hn hm c hs.1 hs.2.1 hs.2.2 hok.1 hok.2⟩
  have hrun := run_invariant hstep ⟨h.sound hn, h.counts, by rw [h.empty.2]; exact fair_start⟩ hok
  exact one_holds hrun.2.1.balanced hrun.2.2 hp hq

end bare_bones.semaphore
