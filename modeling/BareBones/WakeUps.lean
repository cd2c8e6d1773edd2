-- Why a blocked process runs again. All calls share one BLOCKED status, and
-- `setReadyProcess` wakes by pid whoever has it; a pid that a waiting list or a
-- wait queue still holds may by now be that of a process in another call.
import BareBones.Effects

namespace bare_bones.semaphore

open bare_bones.doubleLinkedList bare_bones.process bare_bones.scheduler
open bare_bones.process_table runs

variable {H : Type} [MemoryManager H]

/-- The call ends what a process waits for: it posts on the semaphore, or it
kills the target. -/
def ends (k : Kernel H) (c : Call) : Reason → Prop
  | .sem id => match c with
    | .sem_post j => j = id
    | _ => False
  | .wait target => target ∈ dead k c

instance (k : Kernel H) (c : Call) (r : Reason) : Decidable (ends k c r) :=
  match r, c with
  | .sem id, .sem_post j => inferInstanceAs (Decidable (j = id))
  | .sem _, .scheduler _ | .sem _, .sem_create _ _ | .sem _, .sem_destroy _
  | .sem _, .sem_wait _ _ => isFalse id
  | .wait target, c => inferInstanceAs (Decidable (target ∈ dead k c))

/-- The pids that the call wakes name nobody who is inside another call, and
a process that finds no token is in the process list. -/
def wakesForAReason (s : System H) (c : Call) : Prop :=
  sparesIdle s c ∧
  (∀ e ∈ s.history.inside, e.1 ∉ dead s.kernel c → s.table.pid e.1 ∈ woken s.kernel c →
    ends s.kernel c e.2) ∧
  match c with
  | .sem_wait id _ => (s.sem id).counter = 0 → ∃ p ∈ s.scheduler.procs,
      s.scheduler.currentProcess = some p
  | _ => True

instance (s : System H) (c : Call) : Decidable (wakesForAReason s c) :=
  have : Decidable (match c with
    | .sem_wait id _ => (s.sem id).counter = 0 → ∃ p ∈ s.scheduler.procs,
        s.scheduler.currentProcess = some p
    | _ => True) :=
    match c with
    | .sem_wait id _ => inferInstanceAs (Decidable ((s.sem id).counter = 0 →
        ∃ p ∈ s.scheduler.procs, s.scheduler.currentProcess = some p))
    | .scheduler _ | .sem_create _ _ | .sem_destroy _ | .sem_post _ => isTrue trivial
  inferInstanceAs (Decidable (_ ∧ _ ∧ _))

/-- Who was blocked inside `sem_wait` goes on only when a post hands it the
token, and to nobody else; who was inside `waitProcess`, only when the process
it waits for leaves the process list. -/
def WokenRightly (s : System H) (c : Call) : Prop :=
  ∀ e ∈ s.history.inside, e.1 ∈ (step s c).scheduler.procs →
    (step s c).scheduler.status e.1 ≠ .BLOCKED →
    match e.2 with
    | .sem id => c = .sem_post id ∧ ((step s c).sem id).counter = (s.sem id).counter ∧
        ∀ e' ∈ s.history.inside, e'.1 ≠ e.1 → (step s c).scheduler.status e'.1 = .BLOCKED
    | .wait target => target ∈ s.scheduler.procs ∧ target ∉ (step s c).scheduler.procs

/-- The waits that came through are covered by the initial value and the
posts. -/
def Covered (s : System H) : Prop :=
  ∀ id, (s.history.completed id).length ≤ s.history.initial id + (s.history.posts id).length

omit [MemoryManager H] in
/-- A post wakes the pid of the first waiter that is present. -/
theorem woken_post {k : Kernel H} {id pid : Int} (h : pid ∈ woken k (.sem_post id)) :
    ∃ w, isValidSemId id = 0 ∧ ∃ rest, present k id = w :: rest ∧ pid = w.pid := by
  unfold woken at h
  dsimp only at h
  split at h
  · rename_i hv
    cases hl : present k id with
    | nil => simp [hl] at h
    | cons w rest =>
      rw [hl] at h
      exact ⟨w, hv, rest, rfl, by simpa using h⟩
  · cases h

theorem woken_rightly (hn : Serves H NODE_SIZE) (s : System H) (c : Call) (h : Sound s)
    (hok : wakesForAReason s c) : WokenRightly s c := by
  intro e he hp hst
  have hE := effect_after hn s c h hok.1
  have ha := h.asleep e he
  have hd : e.1 ∉ dead s.kernel c := (hE.procs e.1 ha.1).mp hp
  have hw : s.table.pid e.1 ∈ woken s.kernel c := by
    by_contra hw
    exact hst ((asleep_inside hn h hok.1 he).mpr ⟨hd, hw⟩).2
  have hends := hok.2.1 e he hd hw
  cases hr : e.2 with
  | wait target =>
    rw [hr] at hends
    have ht : target ∈ s.scheduler.procs := mem_dead hends
    exact ⟨ht, fun hm => (hE.procs target ht).mp hm hends⟩
  | sem id =>
    rw [hr] at hends
    cases c with
    | sem_post j =>
      obtain rfl : j = id := hends
      refine ⟨rfl, ?_, fun e' he' hne => ?_⟩
      · obtain ⟨w, hv, rest, hl, _⟩ := woken_post hw
        obtain ⟨k', q, hc, _, hp⟩ := sem_post_spec hn s.kernel hv (h.free j)
        rw [hl] at hp
        show ((after s.kernel (.sem_post j)).semaphores j).counter = _
        rw [after_some (c := .sem_post j) hc, hp.2.sem_self]
        rfl
      · obtain ⟨w, hv, rest, hl, hpid⟩ := woken_post hw
        have ha' := h.asleep e' he'
        refine ((asleep_inside hn h hok.1 he').mpr ⟨by simp [dead], fun hw' => hne ?_⟩).2
        obtain ⟨w', _, rest', hl', hpid'⟩ := woken_post hw'
        rw [hl, List.cons.injEq] at hl'
        exact h.inv.core.pid_inj e'.1 ha'.1 e.1 ha.1 (by rw [hpid, hpid', hl'.1])
    | _ => exact absurd hends (by simp [ends])

/-! ## The count of the waits -/

/-- Tokens and completed waits together come from the initial value and the
posts. -/
def Accounted (s : System H) : Prop :=
  ∀ id, (s.sem id).counter + (s.history.completed id).length ≤
    s.history.initial id + (s.history.posts id).length

/-- The entries of a call that wait for a semaphore and go on. -/
def completing (k : Kernel H) (c : Call) (id : Int) (entries : List (Pcb × Reason)) :
    List (Pcb × Reason) :=
  entries.filter (fun e => e.2 = .sem id ∧ Returns (after k c).scheduler.view e.1)

theorem completed_next (s : System H) (c : Call) (id : Int) :
    (step s c).history.completed id = since s.kernel c id (s.history.completed id) ++
      ((completing s.kernel c id s.history.inside).map Prod.fst ++
        (completing s.kernel c id (enters s.kernel c)).map Prod.fst) := by
  simp only [step, History.next, completing, List.filter_append, List.map_append]

theorem completed_step (s : System H) (c : Call) (id : Int) :
    ((step s c).history.completed id).length =
      (since s.kernel c id (s.history.completed id)).length +
        (completing s.kernel c id s.history.inside).length +
        (completing s.kernel c id (enters s.kernel c)).length := by
  rw [completed_next, List.length_append, List.length_append, List.length_map, List.length_map,
    Nat.add_assoc]

theorem completing_mem {k : Kernel H} {c : Call} {id : Int} {entries : List (Pcb × Reason)}
    {e : Pcb × Reason} (h : e ∈ completing k c id entries) :
    e ∈ entries ∧ e.2 = .sem id ∧ Returns (after k c).scheduler.view e.1 := by
  simpa [completing] using h

theorem completing_nil {k : Kernel H} {c : Call} {id : Int} {entries : List (Pcb × Reason)}
    (h : ∀ e ∈ entries, e.2 = .sem id → ¬ Returns (after k c).scheduler.view e.1) :
    completing k c id entries = [] := by
  rw [List.eq_nil_iff_forall_not_mem]
  intro e he
  obtain ⟨hm, hr, hret⟩ := completing_mem he
  exact h e hm hr hret

/-- Distinct processes that share their pid with `p` are `p`. -/
theorem length_le_one_of_nodup {l : List (Pcb × Reason)} (hn : (l.map Prod.fst).Nodup) {p : Pcb}
    (h : ∀ e ∈ l, e.1 = p) : l.length ≤ 1 := by
  match l, hn, h with
  | [], _, _ => exact Nat.zero_le 1
  | [_], _, _ => exact Nat.le_refl 1
  | a :: b :: _, hn, h =>
    have hab : a.1 = b.1 := (h a (by simp)).trans (h b (by simp)).symm
    simp [hab] at hn

/-- Only a post on the semaphore lets a process on that waits for it. -/
theorem completing_inside_nil (hn : Serves H NODE_SIZE) {s : System H} {c : Call} (h : Sound s)
    (hok : wakesForAReason s c) {id : Int} (hc : ∀ j, c = .sem_post j → j ≠ id) :
    completing s.kernel c id s.history.inside = [] := by
  apply completing_nil
  intro e he hr hret
  obtain ⟨hd, hw⟩ := (returns_inside hn h hok.1 he).mp hret
  have hends := hok.2.1 e he hd hw
  rw [hr] at hends
  cases c with
  | sem_post j => exact hc j rfl hends
  | _ => exact hends

/-- A post lets one process on at most, and none when it adds a token. -/
theorem completing_post (hn : Serves H NODE_SIZE) {s : System H} {id : Int} (h : Sound s)
    (hok : wakesForAReason s (.sem_post id)) :
    (completing s.kernel (.sem_post id) id s.history.inside).length ≤
      (woken s.kernel (.sem_post id)).length := by
  cases hw : woken s.kernel (.sem_post id) with
  | nil =>
    rw [completing_nil]
    · exact Nat.zero_le _
    · intro e he _ hret
      have := ((returns_inside hn h hok.1 he).mp hret).2
      rw [hw] at this
      cases this
  | cons pid rest =>
    have hmem : pid ∈ woken s.kernel (.sem_post id) := by rw [hw]; exact List.mem_cons_self
    obtain ⟨w, _, _, hl, hpid⟩ := woken_post hmem
    refine Nat.le_trans ?_ (Nat.succ_le_succ (Nat.zero_le rest.length))
    have hnodup := h.nodup.sublist ((List.filter_sublist (p := fun e => decide (e.2 = .sem id ∧
      Returns (after s.kernel (.sem_post id)).scheduler.view e.1))).map Prod.fst)
    have hsame : ∀ e ∈ completing s.kernel (.sem_post id) id s.history.inside,
        s.table.pid e.1 = w.pid ∧ e.1 ∈ s.table.procs := by
      intro e he
      obtain ⟨hm, _, hret⟩ := completing_mem he
      obtain ⟨w', _, _, hl', hpid'⟩ := woken_post ((returns_inside hn h hok.1 hm).mp hret).2
      rw [hl, List.cons.injEq] at hl'
      exact ⟨by rw [hpid', hl'.1], (h.asleep e hm).1⟩
    cases hlist : completing s.kernel (.sem_post id) id s.history.inside with
    | nil => exact Nat.zero_le 1
    | cons e es =>
      rw [← hlist]
      have he := hsame e (by rw [hlist]; exact List.mem_cons_self)
      apply length_le_one_of_nodup hnodup (p := e.1)
      intro e' he'
      have h' := hsame e' he'
      exact h.inv.core.pid_inj e'.1 h'.2 e.1 he.2 (h'.1.trans he.1.symm)

/-- The length of what went through a call that is no post on `id`. -/
theorem completed_length (hn : Serves H NODE_SIZE) {s : System H} {c : Call} (h : Sound s)
    (hok : wakesForAReason s c) {id : Int} (hp : ∀ j, c = .sem_post j → j ≠ id)
    (hw : ∀ j rsp, c = .sem_wait j rsp → j ≠ id) (hc : created s.kernel c id = none) :
    ((step s c).history.completed id).length = (s.history.completed id).length := by
  have hen : completing s.kernel c id (enters s.kernel c) = [] := by
    apply completing_nil
    intro e he hr _
    obtain ⟨rsp, hj, _⟩ := enters_sem he hr
    exact hw id rsp hj rfl
  rw [completed_step, completing_inside_nil hn h hok hp, hen, since, hc]
  rfl

theorem posts_length {s : System H} {c : Call} {id : Int} (hc : created s.kernel c id = none) :
    ((step s c).history.posts id).length =
      (s.history.posts id).length + (poster s.kernel c id).length := by
  simp [step, History.next, since, hc]

theorem initial_step {s : System H} {c : Call} {id : Int} (hc : created s.kernel c id = none) :
    (step s c).history.initial id = s.history.initial id := by
  simp [step, History.next, hc]

/-- A call that leaves the counter as it is and lets nobody on. -/
theorem accounted_same (hn : Serves H NODE_SIZE) {s : System H} {c : Call} (h : Sound s)
    (hok : wakesForAReason s c) {id : Int} (hs : Accounted s)
    (hp : ∀ j, c = .sem_post j → j ≠ id) (hw : ∀ j rsp, c = .sem_wait j rsp → j ≠ id)
    (hc : created s.kernel c id = none)
    (hcounter : ((step s c).sem id).counter ≤ (s.sem id).counter) :
    ((step s c).sem id).counter + ((step s c).history.completed id).length ≤
      (step s c).history.initial id + ((step s c).history.posts id).length := by
  have := hs id
  rw [completed_length hn h hok hp hw hc, posts_length hc, initial_step hc]
  omega

/-- A live process that finds no token falls asleep. -/
theorem asleep_waiter (hn : Serves H NODE_SIZE) {s : System H} {id : Int} {rsp : Addr}
    (h : Sound s) (hok : sparesIdle s (.sem_wait id rsp)) (hv : isValidSemId id = 0)
    (h0 : (s.sem id).counter = 0) (hr : result s.kernel (.sem_wait id rsp) = some 0) {p : Pcb}
    (hp : p ∈ s.scheduler.procs) (hcur : s.scheduler.currentProcess = some p) :
    Asleep (after s.kernel (.sem_wait id rsp)).scheduler.view p := by
  have hslept : s.table.pid p ∈ slept s.kernel (.sem_wait id rsp) := by
    rw [slept, if_pos ⟨hv, h0, hr⟩, List.mem_singleton]
    exact (h.inv.cur.some_pid p hcur).1.symm
  exact ((effect_after hn s (.sem_wait id rsp) h hok).asleep p hp).mpr
    ⟨Or.inr hslept, by simp [dead], by simp [woken]⟩

theorem accounted_wait (hn : Serves H NODE_SIZE) {s : System H} {id : Int} {rsp : Addr}
    (h : Sound s) (hok : wakesForAReason s (.sem_wait id rsp)) (hs : Accounted s) :
    ((step s (.sem_wait id rsp)).sem id).counter +
        ((step s (.sem_wait id rsp)).history.completed id).length ≤
      (step s (.sem_wait id rsp)).history.initial id +
        ((step s (.sem_wait id rsp)).history.posts id).length := by
  have hid := hs id
  have hin : completing s.kernel (.sem_wait id rsp) id s.history.inside = [] :=
    completing_inside_nil hn h hok (fun j hj => by cases hj)
  rw [completed_step, hin, posts_length rfl, initial_step rfl]
  suffices hmain : ((step s (.sem_wait id rsp)).sem id).counter +
      (completing s.kernel (.sem_wait id rsp) id (enters s.kernel (.sem_wait id rsp))).length ≤
        (s.sem id).counter by
    simp only [since, created, poster, List.length_nil, Option.isSome_none]
    simp
    omega
  show ((after s.kernel (.sem_wait id rsp)).semaphores id).counter + _ ≤ _
  have hnone : ∀ r, result s.kernel (.sem_wait id rsp) = some r → isValidSemId id = -1 ∨ r ≠ 0 →
      enters s.kernel (.sem_wait id rsp) = [] := by
    intro r hr hne
    unfold enters
    dsimp only
    rw [if_neg]
    rintro ⟨hv, h0⟩
    rw [hr, Option.some.injEq] at h0
    rw [hv] at hne
    exact hne.elim (by decide) (fun hne => hne h0)
  rcases valid_cases id with hv | hv
  · have hc : call s.kernel (.sem_wait id rsp) = some (-1, s.kernel) :=
      sem_wait_invalid _ rsp hv
    rw [hnone _ (result_some hc) (Or.inl hv), after_some hc]
    exact Nat.le_refl _
  rcases sem_wait_spec hn s.kernel rsp hv (h.free id) with
    ⟨hpos, k', hc, hb⟩ | ⟨_, k', hc, hb⟩ | ⟨h0, k', block, q, hc, _, hb⟩
  · have hen : (completing s.kernel (.sem_wait id rsp) id
        (enters s.kernel (.sem_wait id rsp))).length ≤ 1 := by
      apply Nat.le_trans (List.length_filter_le _ _)
      rcases enters_current s.kernel (.sem_wait id rsp) with he | ⟨p, r, _, he⟩ <;> rw [he] <;> simp
    rw [after_some (c := .sem_wait id rsp) hc, hb.sem_self]
    have hpos' : 0 < (s.sem id).counter := hpos
    show (s.sem id).counter - 1 + _ ≤ _
    omega
  · rw [hnone _ (result_some (c := .sem_wait id rsp) hc) (Or.inr (by decide)),
      after_some (c := .sem_wait id rsp) hc, hb.sem_self]
    exact Nat.le_refl _
  · obtain ⟨p, hp, hcur⟩ := hok.2.2 h0
    have hen : completing s.kernel (.sem_wait id rsp) id (enters s.kernel (.sem_wait id rsp)) =
        [] := by
      refine completing_nil fun e he hr hret => hret.1 ?_
      obtain ⟨_, _, _, _, he1⟩ := enters_sem he hr
      rw [Option.some.inj (he1.symm.trans hcur)]
      exact (asleep_waiter hn h hok.1 hv h0 (result_some (c := .sem_wait id rsp) hc) hp hcur).2
    rw [hen, after_some (c := .sem_wait id rsp) hc, hb.sem_self]
    exact Nat.le_refl _

theorem accounted_post (hn : Serves H NODE_SIZE) {s : System H} {id : Int}
    (h : Sound s) (hok : wakesForAReason s (.sem_post id)) (hs : Accounted s) :
    ((step s (.sem_post id)).sem id).counter +
        ((step s (.sem_post id)).history.completed id).length ≤
      (step s (.sem_post id)).history.initial id +
        ((step s (.sem_post id)).history.posts id).length := by
  have hid := hs id
  have hin := completing_post hn h hok
  have hen : completing s.kernel (.sem_post id) id (enters s.kernel (.sem_post id)) = [] := rfl
  rw [completed_step, hen, posts_length rfl, initial_step rfl]
  rcases valid_cases id with hv | hv
  · have hc : call s.kernel (.sem_post id) = some (-1, s.kernel) :=
      sem_post_invalid _ hv
    have hw : woken s.kernel (.sem_post id) = [] := by simp [woken, hv]
    rw [hw] at hin
    have hsem : ((step s (.sem_post id)).sem id).counter = (s.sem id).counter := by
      show ((after s.kernel (.sem_post id)).semaphores id).counter = _
      rw [after_some hc]
      rfl
    rw [hsem]
    simp only [since, created, List.length_nil, Option.isSome_none] at hin ⊢
    simp
    omega
  · obtain ⟨k', q, hc, _, hp⟩ := sem_post_spec hn s.kernel hv (h.free id)
    have hposter : poster s.kernel (.sem_post id) id = [s.kernel.scheduler.currentProcess] := by
      simp [poster, hv, result_some (c := .sem_post id) hc]
    have hsem : ((step s (.sem_post id)).sem id).counter +
        (woken s.kernel (.sem_post id)).length ≤ (s.sem id).counter + 1 := by
      show ((after s.kernel (.sem_post id)).semaphores id).counter + _ ≤ _
      rw [after_some (c := .sem_post id) hc]
      cases hl : present s.kernel id with
      | nil =>
        rw [hl] at hp
        have hw : woken s.kernel (.sem_post id) = [] := by simp [woken, hv, hl]
        rw [hp.2.sem_self, hw]
        exact Nat.mod_le ((s.sem id).counter + 1) (2 ^ 32)
      | cons w rest =>
        rw [hl] at hp
        have hw : woken s.kernel (.sem_post id) = [w.pid] := by simp [woken, hv, hl]
        rw [hp.2.sem_self, hw]
        exact Nat.le_refl _
    rw [hposter]
    simp only [since, created, List.length_nil, Option.isSome_none, List.length_singleton]
    simp
    omega

theorem accounted_step (hn : Serves H NODE_SIZE) (s : System H) (c : Call) (h : Sound s)
    (ha : Accounted s) (hok : wakesForAReason s c) : Accounted (step s c) := by
  intro id
  have hother : ¬ names id c → created s.kernel c id = none →
      ((step s c).sem id).counter + ((step s c).history.completed id).length ≤
        (step s c).history.initial id + ((step s c).history.posts id).length := by
    intro hne hc
    refine accounted_same hn h hok ha (fun j hj he => hne ?_) (fun j rsp hj he => hne ?_) hc ?_
    · rw [hj]
      exact he
    · rw [hj]
      exact he
    · exact Nat.le_of_eq (congrArg Semaphore.counter (sem_after_ne hn h hne))
  cases c with
  | scheduler op => exact hother (fun hne => hne) rfl
  | sem_create j v =>
    by_cases hj : j = id
    · subst hj
      have hin : completing s.kernel (.sem_create j v) j s.history.inside = [] :=
        completing_inside_nil hn h hok (fun _ hj => by cases hj)
      have hen : completing s.kernel (.sem_create j v) j (enters s.kernel (.sem_create j v)) = [] :=
        rfl
      rcases sem_create_spec s.kernel j v with ⟨hc, hs⟩ | ⟨hc, r, k', q, hs, _, _, hb⟩
      · refine accounted_same hn h hok ha (fun _ hj => by cases hj) (fun _ _ hj => by cases hj)
          hc ?_
        show ((after s.kernel (.sem_create j v)).semaphores j).counter ≤ _
        rw [after_some (c := .sem_create j v) (congrArg some hs)]
        exact Nat.le_refl _
      · rw [completed_step, hin, hen]
        show ((after s.kernel (.sem_create j v)).semaphores j).counter + _ ≤
          (created s.kernel (.sem_create j v) j).getD _ + _
        rw [after_some (c := .sem_create j v) (congrArg some hs), hb.sem_self, hc]
        simp [since, hc]
    · exact hother hj (by simp [created, hj])
  | sem_destroy j =>
    by_cases hj : j = id
    · subst hj
      apply accounted_same hn h hok ha (fun _ hj => by cases hj) (fun _ _ hj => by cases hj) rfl
      show ((after s.kernel (.sem_destroy j)).semaphores j).counter ≤ _
      rcases sem_destroy_spec s.kernel j with hs | ⟨_, hb⟩
      · rw [hs]
        exact Nat.le_refl _
      · rw [hb.sem_self]
        exact Nat.zero_le _
    · exact hother hj rfl
  | sem_wait j rsp =>
    by_cases hj : j = id
    · subst hj
      exact accounted_wait hn h hok ha
    · exact hother hj rfl
  | sem_post j =>
    by_cases hj : j = id
    · subst hj
      exact accounted_post hn h hok ha
    · exact hother hj rfl

/-! ## Every run -/

theorem accounted_booted {s : System H} (h : BootedSystem s) : Accounted s := by
  obtain ⟨sch, _, hi, hh⟩ := h
  intro id
  unfold initSemaphoreManager at hi
  split at hi
  · cases hi
  · rw [System.sem, (Option.some.inj hi).symm, hh]
    exact Nat.le_refl 0

/-- While the pids that a call wakes name nobody inside another call, each
blocked process goes on for its own reason, and no wait comes through without
a token. -/
theorem a_process_wakes_for_its_own_reason (hn : Serves H NODE_SIZE) {s : System H}
    (h : BootedSystem s) (cs : List Call) (hok : Meets step wakesForAReason s cs) :
    Meets step WokenRightly s cs ∧ Covered (run step s cs) := by
  have hstep : ∀ s c, Sound s ∧ Accounted s → wakesForAReason s c →
      Sound (step s c) ∧ Accounted (step s c) := fun s c hs hok =>
    ⟨sound_step hn s c hs.1 hok.1, accounted_step hn s c hs.1 hs.2 hok⟩
  have h0 : Sound s ∧ Accounted s := ⟨sound_booted hn h, accounted_booted h⟩
  refine ⟨run_steps hstep (fun s c hs hok => woken_rightly hn s c hs.1 hok) h0 hok, fun id => ?_⟩
  exact Nat.le_trans (Nat.le_add_left _ _) ((run_invariant hstep h0 hok).2 id)

theorem a_post_is_the_reason_to_go_on :
    Meets step WokenRightly endlessSystem (waitingRun ++ [.sem_post 5]) ∧
      Covered (run step endlessSystem (waitingRun ++ [.sem_post 5])) :=
  a_process_wakes_for_its_own_reason (endless_serves _) booted_endlessSystem _ (by decide)

/-- The new process with the old pid runs and waits for pid 2. -/
def wakingRun : List Call :=
  staleRun ++ [.scheduler (.schedule 12), .scheduler (.schedule 13), .scheduler (.schedule 14),
    .scheduler (.waitProcess 2 15)]

/-- The stale pid of the queue ends the wait while the target still runs. -/
theorem a_post_ends_the_wait_for_a_process :
    BootedSystem endlessSystem ∧ Meets step wakesForAReason endlessSystem wakingRun ∧
      ¬ WokenRightly (run step endlessSystem wakingRun) (.sem_post 5) := by
  refine ⟨booted_endlessSystem, by decide, fun h => ?_⟩
  have hends := h (4, .wait 2) (by decide) (by decide) (by decide)
  exact hends.2 (by decide)

end bare_bones.semaphore
