-- The invariant of the kernel with its semaphores: the process table is in
-- order, no lock is held between two calls, and who is inside a call sleeps.
import BareBones.SemaphoreCalls

namespace bare_bones.semaphore

open bare_bones.doubleLinkedList bare_bones.process bare_bones.scheduler
open bare_bones.process_table runs

variable {H : Type}

structure Sound (s : System H) : Prop where
  inv : Inv s.table
  free : ∀ id, (s.sem id).spinlock = 0
  nodup : (s.history.inside.map Prod.fst).Nodup
  asleep : ∀ e ∈ s.history.inside, Asleep s.table e.1

theorem Becomes.sem_self {k k' : Kernel H} {t : Table} {id : Int} {sem : Semaphore}
    (h : Becomes k t id sem k') : k'.semaphores id = sem := by
  rw [h.sems, Function.update_self]

theorem Becomes.sem_ne {k k' : Kernel H} {t : Table} {id j : Int} {sem : Semaphore}
    (h : Becomes k t id sem k') (hj : j ≠ id) : k'.semaphores j = k.semaphores j := by
  rw [h.sems, Function.update_of_ne hj]

theorem Becomes.free {k k' : Kernel H} {t : Table} {id : Int} {sem : Semaphore}
    (h : Becomes k t id sem k') (hk : ∀ j, (k.semaphores j).spinlock = 0)
    (hs : sem.spinlock = 0) (j : Int) : (k'.semaphores j).spinlock = 0 := by
  by_cases hj : j = id
  · rw [hj, h.sem_self, hs]
  · rw [h.sem_ne hj, hk]

variable [MemoryManager H]

theorem after_some {k k' : Kernel H} {c : Call} {r : Int} (h : call k c = some (r, k')) :
    after k c = k' := by
  unfold after
  rw [h]

theorem result_some {k k' : Kernel H} {c : Call} {r : Int} (h : call k c = some (r, k')) :
    result k c = some r := by
  unfold result
  rw [h]
  rfl

theorem sem_create_spec (k : Kernel H) (id : Int) (initialValue : Nat) :
    (created k (.sem_create id initialValue) id = none ∧
      sem_create k id initialValue = (-1, k)) ∨
    (created k (.sem_create id initialValue) id = some initialValue ∧
      ∃ r k' waitQueue, sem_create k id initialValue = (r, k') ∧
        (∀ sem : Semaphore, sem.waitQueue = waitQueue → sem.waiters = []) ∧
        (r = 0 → waitQueue.isSome) ∧
        Becomes k k.scheduler.view id ⟨waitQueue, initialValue, 0, true⟩ k') := by
  unfold created sem_create
  rcases valid_cases id with hv | hv
  · rw [hv]
    simp
  · rw [hv]
    by_cases ha : (k.semaphores id).active
    · simp [ha]
    · refine Or.inr ⟨by simp [ha], ?_⟩
      rw [if_neg (by decide), if_pos ha]
      split
      · exact ⟨_, _, none, rfl, fun sem hs => by rw [Semaphore.waiters, hs],
          fun h => absurd h (by decide), rfl, rfl⟩
      · rename_i queue heap hq
        refine ⟨_, _, some queue, rfl, fun sem hs => ?_, fun _ => rfl, rfl, rfl⟩
        rw [Semaphore.waiters, hs]
        exact createDoubleLinkedListADT_data hq

theorem sem_destroy_spec (k : Kernel H) (id : Int) :
    after k (.sem_destroy id) = k ∨
      ((k.semaphores id).active ∧
        Becomes k k.scheduler.view id ⟨none, 0, 0, false⟩ (after k (.sem_destroy id))) := by
  have hd : sem_destroy k id = none ∨ sem_destroy k id = some (-1, k) ∨
      ((k.semaphores id).active ∧ ∃ k', sem_destroy k id = some (0, k') ∧
        Becomes k k.scheduler.view id ⟨none, 0, 0, false⟩ k') := by
    unfold sem_destroy
    split
    · exact Or.inr (Or.inl rfl)
    split
    · exact Or.inr (Or.inl rfl)
    rename_i ha
    split
    · exact Or.inl rfl
    · exact Or.inr (Or.inr ⟨not_not.mp ha, _, rfl, rfl, rfl⟩)
  rcases hd with hc | hc | ⟨ha, k', hc, hb⟩
  · left
    unfold after
    rw [show call k (.sem_destroy id) = none from hc]
  · exact Or.inl (after_some hc)
  · rw [after_some (c := .sem_destroy id) hc]
    exact Or.inr ⟨ha, hb⟩

/-- The table and the locks after a call. -/
theorem inv_after (hn : Serves H NODE_SIZE) (s : System H) (c : Call) (h : Sound s)
    (hok : sparesIdle s c) :
    Inv (after s.kernel c).scheduler.view ∧
      ∀ id, ((after s.kernel c).semaphores id).spinlock = 0 := by
  cases c with
  | scheduler op => exact ⟨inv_exec hn _ op h.inv hok, h.free⟩
  | sem_create id initialValue =>
    rcases sem_create_spec s.kernel id initialValue with ⟨_, hc⟩ | ⟨_, r, k', q, hc, _, _, hb⟩
    · rw [after_some (c := .sem_create id initialValue) (congrArg some hc)]
      exact ⟨h.inv, h.free⟩
    · rw [after_some (c := .sem_create id initialValue) (congrArg some hc)]
      exact ⟨hb.table ▸ h.inv, hb.free h.free rfl⟩
  | sem_destroy id =>
    rcases sem_destroy_spec s.kernel id with hc | ⟨_, hb⟩
    · rw [hc]
      exact ⟨h.inv, h.free⟩
    · exact ⟨hb.table ▸ h.inv, hb.free h.free rfl⟩
  | sem_wait id rsp =>
    rcases valid_cases id with hv | hv
    · have hc : call s.kernel (.sem_wait id rsp) = some (-1, s.kernel) :=
        sem_wait_invalid _ rsp hv
      rw [after_some hc]
      exact ⟨h.inv, h.free⟩
    · rcases sem_wait_spec hn s.kernel rsp hv (h.free id) with ⟨_, k', hc, hb⟩ | ⟨_, k', hc, hb⟩ |
        ⟨_, k', block, q, hc, _, hb⟩
      · rw [after_some (c := .sem_wait id rsp) hc]
        exact ⟨hb.table ▸ h.inv, hb.free h.free (h.free id)⟩
      · rw [after_some (c := .sem_wait id rsp) hc]
        exact ⟨hb.table ▸ h.inv, hb.free h.free (h.free id)⟩
      · rw [after_some (c := .sem_wait id rsp) hc, hb.table]
        exact ⟨inv_block h.inv hok, hb.free h.free (h.free id)⟩
  | sem_post id =>
    rcases valid_cases id with hv | hv
    · have hc : call s.kernel (.sem_post id) = some (-1, s.kernel) :=
        sem_post_invalid _ hv
      rw [after_some hc]
      exact ⟨h.inv, h.free⟩
    · obtain ⟨k', q, hc, _, hp⟩ := sem_post_spec hn s.kernel hv (h.free id)
      rw [after_some (c := .sem_post id) hc]
      cases hl : present s.kernel id with
      | nil =>
        rw [hl] at hp
        exact ⟨hp.2.table ▸ h.inv, hp.2.free h.free (h.free id)⟩
      | cons w rest =>
        rw [hl] at hp
        rw [hp.2.table]
        exact ⟨inv_wake h.inv w.pid, hp.2.free h.free (h.free id)⟩

/-- The call is one on the semaphore. -/
def names (id : Int) : Call → Prop
  | .scheduler _ => False
  | .sem_create j _ | .sem_destroy j | .sem_wait j _ | .sem_post j => j = id

instance (id : Int) (c : Call) : Decidable (names id c) :=
  match c with
  | .scheduler _ => isFalse fun hf => hf
  | .sem_create j _ | .sem_destroy j | .sem_wait j _ | .sem_post j =>
    inferInstanceAs (Decidable (j = id))

/-- A call on another semaphore, or on none, leaves a semaphore alone. -/
theorem sem_after_ne (hn : Serves H NODE_SIZE) {s : System H} {c : Call} (h : Sound s) {id : Int}
    (hc : ¬ names id c) : (after s.kernel c).semaphores id = s.sem id := by
  cases c with
  | scheduler op => rfl
  | sem_create j v =>
    rcases sem_create_spec s.kernel j v with ⟨_, hs⟩ | ⟨_, r, k', q, hs, _, _, hb⟩
    · rw [after_some (c := .sem_create j v) (congrArg some hs)]
      rfl
    · rw [after_some (c := .sem_create j v) (congrArg some hs)]
      exact hb.sem_ne (Ne.symm hc)
  | sem_destroy j =>
    rcases sem_destroy_spec s.kernel j with hs | ⟨_, hb⟩
    · rw [hs]
      rfl
    · exact hb.sem_ne (Ne.symm hc)
  | sem_wait j rsp =>
    rcases valid_cases j with hv | hv
    · rw [after_some (c := .sem_wait j rsp) (sem_wait_invalid s.kernel rsp hv)]
      rfl
    · rcases sem_wait_spec hn s.kernel rsp hv (h.free j) with ⟨_, k', hs, hb⟩ | ⟨_, k', hs, hb⟩ |
        ⟨_, k', block, q, hs, _, hb⟩ <;> rw [after_some (c := .sem_wait j rsp) hs] <;>
        exact hb.sem_ne (Ne.symm hc)
  | sem_post j =>
    rcases valid_cases j with hv | hv
    · rw [after_some (c := .sem_post j) (sem_post_invalid s.kernel hv)]
      rfl
    · obtain ⟨k', q, hs, _, hp⟩ := sem_post_spec hn s.kernel hv (h.free j)
      rw [after_some (c := .sem_post j) hs]
      cases hl : present s.kernel j with
      | nil =>
        rw [hl] at hp
        exact hp.2.sem_ne (Ne.symm hc)
      | cons w rest =>
        rw [hl] at hp
        exact hp.2.sem_ne (Ne.symm hc)

/-- Only the current process enters a call, and it is awake. -/
theorem enters_current (k : Kernel H) (c : Call) :
    enters k c = [] ∨ ∃ p r, k.scheduler.currentProcess = some p ∧ enters k c = [(p, r)] := by
  have hmap : ∀ r : Reason, k.scheduler.currentProcess.toList.map (fun p => (p, r)) = [] ∨
      ∃ p r', k.scheduler.currentProcess = some p ∧
        k.scheduler.currentProcess.toList.map (fun p => (p, r)) = [(p, r')] := by
    intro r
    cases k.scheduler.currentProcess with
    | none => exact Or.inl rfl
    | some p => exact Or.inr ⟨p, r, rfl, rfl⟩
  unfold enters
  split
  · split
    · exact hmap _
    · exact Or.inl rfl
  · split
    · exact Or.inl rfl
    · exact hmap _
  · exact Or.inl rfl

/-- Who enters `sem_wait` is the current process, and the call gave 0. -/
theorem enters_sem {k : Kernel H} {c : Call} {e : Pcb × Reason} {id : Int}
    (he : e ∈ enters k c) (hr : e.2 = .sem id) :
    ∃ rsp, c = .sem_wait id rsp ∧ isValidSemId id = 0 ∧ result k c = some 0 ∧
      k.scheduler.currentProcess = some e.1 := by
  unfold enters at he
  split at he
  · rename_i j rsp
    split at he
    · rename_i hv
      obtain ⟨p, hp, rfl⟩ := List.mem_map.mp he
      cases hr
      exact ⟨rsp, rfl, hv.1, hv.2, Option.mem_toList.mp hp⟩
    · cases he
  · split at he
    · cases he
    · obtain ⟨p, _, rfl⟩ := List.mem_map.mp he
      cases hr
  · cases he

theorem nodup_entries {s : System H} (h : Sound s) (c : Call) :
    ((s.history.inside ++ enters s.kernel c).map Prod.fst).Nodup := by
  rcases enters_current s.kernel c with he | ⟨p, r, hp, he⟩
  · rw [he, List.append_nil]
    exact h.nodup
  · rw [he, List.map_append]
    apply nodup_snoc h.nodup
    intro hm
    obtain ⟨e, hem, rfl⟩ := List.mem_map.mp hm
    exact h.inv.not_blocked e.1 hp (h.asleep e hem).2

theorem sound_step (hn : Serves H NODE_SIZE) (s : System H) (c : Call) (h : Sound s)
    (hok : sparesIdle s c) : Sound (step s c) := by
  obtain ⟨hinv, hfree⟩ := inv_after hn s c h hok
  refine ⟨hinv, hfree, ?_, ?_⟩
  · exact (nodup_entries h c).sublist (List.filter_sublist.map Prod.fst)
  · intro e he
    exact of_decide_eq_true (List.mem_filter.mp he).2

theorem sound_booted (hn : Serves H NODE_SIZE) {s : System H} (h : BootedSystem s) : Sound s := by
  obtain ⟨sch, hb, hi, hh⟩ := h
  unfold initSemaphoreManager at hi
  split at hi
  · cases hi
  · rename_i heap _
    have hk := (Option.some.inj hi).symm
    refine ⟨?_, fun id => ?_, ?_, ?_⟩
    · have : s.table = sch.view := by rw [System.table, hk]; rfl
      rw [this]
      exact inv_booted hn hb
    · rw [System.sem, hk]
    · rw [hh]
      exact List.nodup_nil
    · rw [hh]
      intro e he
      cases he

end bare_bones.semaphore
