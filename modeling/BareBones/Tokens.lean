-- The token of a post. It goes to the counter or to the process that has
-- waited longest, unless a stale pid at the head of the queue takes it.
import BareBones.SemaphoreQueues

namespace bare_bones.semaphore

open bare_bones.doubleLinkedList bare_bones.process bare_bones.scheduler
open bare_bones.process_table runs

variable {H : Type} [MemoryManager H]

/-- A post either counts up while nobody is blocked on the semaphore, or makes
READY the process that has been blocked on it longest. No other status
changes. -/
def TokenKept (s : System H) (id : Int) : Prop :=
  let s' := step s (.sem_post id)
  ((s'.sem id).counter = (s.sem id).counter + 1 ∧ s.blockedOn id = [] ∧
    ∀ q, s'.scheduler.status q = s.scheduler.status q) ∨
  ((s'.sem id).counter = (s.sem id).counter ∧ ∃ p rest, s.blockedOn id = p :: rest ∧
    s.scheduler.status p = .BLOCKED ∧ s'.scheduler.status p = .READY ∧
    ∀ q, q ≠ p → s'.scheduler.status q = s.scheduler.status q)

/-- The head of the queue is not stale: the first pid of the queue that names a
process is that of the process which has been blocked on the semaphore longest.
When no pid names one, the counter can still count. -/
def HeadIsDue (s : System H) (id : Int) : Prop :=
  match present s.kernel id with
  | [] => (s.sem id).counter + 1 < 2 ^ 32
  | w :: _ => (s.blockedOn id).head?.map s.scheduler.pid = some w.pid

instance (s : System H) (id : Int) : Decidable (HeadIsDue s id) := by
  unfold HeadIsDue
  split <;> infer_instance

/-- What a post does to the statuses and the counter. -/
theorem post_step (hn : Serves H NODE_SIZE) {s : System H} (h : Sound s) {id : Int}
    (hv : isValidSemId id = 0) :
    result s.kernel (.sem_post id) = some 0 ∧
      match present s.kernel id with
      | [] => ((step s (.sem_post id)).sem id).counter = ((s.sem id).counter + 1) % 2 ^ 32 ∧
          (step s (.sem_post id)).table = s.table
      | w :: _ => ((step s (.sem_post id)).sem id).counter = (s.sem id).counter ∧
          (step s (.sem_post id)).table = s.table.wake w.pid := by
  obtain ⟨k', q, hc, _, hp⟩ := sem_post_spec hn s.kernel hv (h.free id)
  have hstep : (step s (.sem_post id)).kernel = k' := after_some (c := .sem_post id) hc
  refine ⟨result_some (c := .sem_post id) hc, ?_⟩
  unfold System.sem System.table
  rw [hstep]
  cases hl : present s.kernel id with
  | nil =>
    rw [hl] at hp
    exact ⟨by rw [hp.2.sem_self], hp.2.table⟩
  | cons w rest =>
    rw [hl] at hp
    exact ⟨by rw [hp.2.sem_self], hp.2.table⟩

/-- A post keeps its token exactly when the head of the queue is due. -/
theorem tokenKept_iff (hn : Serves H NODE_SIZE) {s : System H} (h : Sound s) (hq : Queued s)
    {id : Int} (hv : isValidSemId id = 0) : TokenKept s id ↔ HeadIsDue s id := by
  have hpost := (post_step hn h hv).2
  have hstatus : ∀ q, (step s (.sem_post id)).scheduler.status q =
      (step s (.sem_post id)).table.status q := fun _ => rfl
  have hstatus' : ∀ q, s.scheduler.status q = s.table.status q := fun _ => rfl
  have hpres := blockedOn_present h hq id
  unfold TokenKept HeadIsDue
  simp only [hstatus, hstatus']
  cases hl : present s.kernel id with
  | nil =>
    rw [hl] at hpost hpres
    rw [List.map_nil, List.sublist_nil, List.map_eq_nil_iff] at hpres
    rw [hpost.1, hpost.2, hpres]
    constructor
    · rintro (⟨hcount, _, _⟩ | ⟨_, p, rest, hb, _⟩)
      · rw [← hcount]
        exact Nat.mod_lt _ (by decide)
      · cases hb
    · exact fun hlt => Or.inl ⟨Nat.mod_eq_of_lt hlt, rfl, fun _ => rfl⟩
  | cons w rest =>
    rw [hl] at hpost
    rw [hpost.1, hpost.2]
    constructor
    · rintro (⟨hcount, _, _⟩ | ⟨_, p, others, hb, hblocked, hready, _⟩)
      · omega
      · rw [hb]
        rcases wake_cases h.inv.core w.pid with ⟨p', _, hpid, _, _, he⟩ | ⟨he, _⟩
        · rw [he, Table.status_mark, Table.status_queues] at hready
          split at hready
          · rename_i hpp
            rw [hpp]
            exact congrArg some hpid
          · rw [hblocked] at hready
            cases hready
        · rw [he, hblocked] at hready
          cases hready
    · intro hhead
      cases hb : s.blockedOn id with
      | nil => rw [hb] at hhead; cases hhead
      | cons p others =>
        rw [hb] at hhead
        have hpw : s.table.pid p = w.pid := Option.some.inj hhead
        have ha := h.asleep (p, .sem id) (mem_blockedOn.mp (by rw [hb]; exact List.mem_cons_self))
        refine Or.inr ⟨rfl, p, others, rfl, ha.2, ?_⟩
        rcases wake_cases h.inv.core w.pid with ⟨p', hm, hpid, _, _, he⟩ | ⟨_, hno⟩
        · have hpp : p' = p := h.inv.core.pid_inj p' hm p ha.1 (hpid.trans hpw.symm)
          rw [he, hpp]
          exact ⟨by rw [Table.status_mark, if_pos rfl], fun q hq => by
            rw [Table.status_mark, if_neg hq, Table.status_queues]⟩
        · exact absurd (hno p ha.1 hpw ha.2) (by simp)

/-- In every state that the calls reach, a post on an open semaphore gives 0,
and keeps its token exactly when the head of the queue is due. -/
theorem a_post_keeps_its_token_when_the_head_is_due (hn : Serves H NODE_SIZE) {s : System H}
    (h : BootedSystem s) (cs : List Call) (hok : Meets step keepsQueues s cs) {id : Int}
    (hid : sem_open (run step s cs).kernel id = 0) :
    result (run step s cs).kernel (.sem_post id) = some 0 ∧
      (TokenKept (run step s cs) id ↔ HeadIsDue (run step s cs) id) := by
  have hstep : ∀ s c, Sound s ∧ Queued s → keepsQueues s c →
      Sound (step s c) ∧ Queued (step s c) := fun s c hs hok =>
    ⟨sound_step hn s c hs.1 hok.1, queued_step hn s c hs.1 hs.2 hok⟩
  have hrun := run_invariant hstep ⟨sound_booted hn h, queued_booted h⟩ hok
  have hv : isValidSemId id = 0 := by
    rcases valid_cases id with hv | hv
    · rw [sem_open, if_pos hv] at hid
      cases hid
    · exact hv
  exact ⟨(post_step hn hrun.1 hv).1, tokenKept_iff hn hrun.1 hrun.2 hv⟩

theorem a_post_wakes_the_process_that_waits :
    TokenKept (run step endlessSystem waitingRun) 5 :=
  (a_post_keeps_its_token_when_the_head_is_due (endless_serves _) booted_endlessSystem
    waitingRun (by decide) rfl).2.mpr (by decide)

/-- A post on the stale pid neither counts up nor wakes anybody. -/
theorem a_stale_pid_takes_the_token :
    BootedSystem endlessSystem ∧ Meets step keepsQueues endlessSystem staleRun ∧
      sem_open (run step endlessSystem staleRun).kernel 5 = 0 ∧
      result (run step endlessSystem staleRun).kernel (.sem_post 5) = some 0 ∧
      ¬ TokenKept (run step endlessSystem staleRun) 5 := by
  refine ⟨booted_endlessSystem, by decide, rfl, by decide, ?_⟩
  rintro (⟨hcount, _⟩ | ⟨_, p, rest, hb, _⟩)
  · exact absurd hcount (by decide)
  · rw [show (run step endlessSystem staleRun).blockedOn 5 = [] by decide] at hb
    cases hb

end bare_bones.semaphore
