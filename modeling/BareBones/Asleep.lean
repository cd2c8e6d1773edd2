-- Which moves of the process table wake which blocked processes. A switch
-- wakes nobody; `wake` and `kill` wake by pid.
import BareBones.TableInvariant

namespace bare_bones.process_table

open bare_bones.process
open bare_bones.scheduler (MAX_PROCESS NO_PROCESS IDLE_PID SHELL_PID STDIN STDOUT pipedFd
  idleDescriptors)

/-- `p` is in the table and blocked. -/
def Asleep (t : Table) (p : Pcb) : Prop := p ∈ t.procs ∧ t.status p = .BLOCKED

instance (t : Table) (p : Pcb) : Decidable (Asleep t p) := by
  unfold Asleep
  infer_instance

open Table

/-- Two tables with the same processes, of which the same are blocked. -/
structure SameAsleep (t t' : Table) : Prop where
  procs : t'.procs = t.procs
  pid : ∀ p, t'.pid p = t.pid p
  status : ∀ p ∈ t.procs, t'.status p = .BLOCKED ↔ t.status p = .BLOCKED

theorem SameAsleep.refl (t : Table) : SameAsleep t t := ⟨rfl, fun _ => rfl, fun _ _ => Iff.rfl⟩

theorem SameAsleep.trans {t₁ t₂ t₃ : Table} (h : SameAsleep t₁ t₂) (h' : SameAsleep t₂ t₃) :
    SameAsleep t₁ t₃ where
  procs := h'.procs.trans h.procs
  pid p := (h'.pid p).trans (h.pid p)
  status p hp := (h'.status p (h.procs ▸ hp)).trans (h.status p hp)

theorem SameAsleep.iff {t t' : Table} (h : SameAsleep t t') (p : Pcb) :
    Asleep t' p ↔ Asleep t p := by
  unfold Asleep
  rw [h.procs]
  exact and_congr_right (h.status p)

/-! ## A switch wakes nobody -/

theorem sameAsleep_mark {t : Table} {p : Pcb} {st : ProcessState} (hst : st ≠ .BLOCKED)
    (hp : p ∈ t.procs → t.status p ≠ .BLOCKED) : SameAsleep t (t.mark p st) := by
  refine ⟨rfl, fun q => pid_mark t p q st, fun q hq => ?_⟩
  rw [status_mark]
  by_cases hqp : q = p
  · rw [if_pos hqp, hqp]
    exact ⟨fun h => absurd h hst, fun h => absurd h (hp (hqp ▸ hq))⟩
  · rw [if_neg hqp]

theorem sameAsleep_dispatch {t : Table} {p : Pcb} (hp : p ∈ t.procs → t.status p ≠ .BLOCKED) :
    SameAsleep t (t.dispatch p) := by
  have h : SameAsleep t { t with
      current := some p, currentPid := t.pid p, quantums := (t.pcb p).priority } :=
    ⟨rfl, fun _ => rfl, fun _ _ => Iff.rfl⟩
  exact h.trans (sameAsleep_mark (by simp) hp)

theorem sameAsleep_leave {t : Table} : SameAsleep t t.leave := by
  unfold leave
  split
  · exact .refl t
  rename_i p _
  split
  · have hstatus : ∀ q, (t.free p).status q = t.status q := fun q => by
      by_cases hq : q = p
      · subst hq; simp [Table.free, Table.status, Table.set]
      · simp [Table.free, Table.status, Table.set, hq]
    have hpid : ∀ q, (t.free p).pid q = t.pid q := fun q => by
      by_cases hq : q = p
      · subst hq; simp [Table.free, Table.pid, Table.set]
      · simp [Table.free, Table.pid, Table.set, hq]
    refine ⟨rfl, hpid, fun q _ => ?_⟩
    have : Table.status { t.free p with current := none, currentPid := NO_PROCESS } q =
      t.status q := hstatus q
    rw [this]
  · split
    · rename_i hr
      have hq : SameAsleep t (t.queues (t.ready ++ [p]) t.blocked) :=
        ⟨rfl, fun _ => rfl, fun _ _ => Iff.rfl⟩
      exact hq.trans (sameAsleep_mark (by simp) (fun _ => by simp [hr]))
    · exact .refl t

theorem sameAsleep_next {t : Table} (h : Core none t) : SameAsleep t t.next := by
  unfold next
  split
  · rename_i p rest hr
    have hp : t.status p = .READY := ((h.mem_ready p).mp (by simp [hr])).2.1
    have hq : SameAsleep t (t.queues rest t.blocked) := ⟨rfl, fun _ => rfl, fun _ _ => Iff.rfl⟩
    exact hq.trans (sameAsleep_dispatch (fun _ => by simp [hp]))
  · split
    · exact .refl t
    · rename_i idle hf
      obtain ⟨hidle, hpid⟩ := find_some hf
      obtain ⟨i, hi, hipid, hib, _⟩ := h.idle
      have : idle = i := h.pid_inj idle hidle i hi (hpid.trans hipid.symm)
      exact sameAsleep_dispatch (fun _ => this ▸ hib)

theorem sameAsleep_switch {t : Table} (h : Core none t) (hc : Cur t) : SameAsleep t t.switch := by
  unfold switch
  split
  · split
    · rename_i p rest hr
      have hp : t.status p = .READY := ((h.mem_ready p).mp (by simp [hr])).2.1
      have hq : SameAsleep t (t.queues rest t.blocked) :=
        ⟨rfl, fun _ => rfl, fun _ _ => Iff.rfl⟩
      exact hq.trans (sameAsleep_dispatch (fun _ => by simp [hp]))
    · exact ⟨rfl, fun _ => rfl, fun _ _ => Iff.rfl⟩
  · exact sameAsleep_leave.trans (sameAsleep_next (core_leave h hc).1)

theorem sameAsleep_tick {t : Table} (h : Core none t) (hc : Cur t) : SameAsleep t t.tick := by
  unfold tick
  dsimp only
  have hq : SameAsleep t { t with quantums := t.quantums - 1 } :=
    ⟨rfl, fun _ => rfl, fun _ _ => Iff.rfl⟩
  split
  · exact hq
  · exact hq.trans (sameAsleep_switch (core_quantums h _) (cur_quantums hc _))

theorem sameAsleep_yield {t : Table} (h : Core none t) (hc : Cur t) : SameAsleep t t.yield := by
  have hq : SameAsleep t { t with quantums := 0 } := ⟨rfl, fun _ => rfl, fun _ _ => Iff.rfl⟩
  exact hq.trans (sameAsleep_tick (core_quantums h 0) (cur_quantums hc 0))

/-! ## Blocking -/

/-- The effect of a call on the processes that were there before it: who died,
which pids were woken and which were put to sleep. -/
structure Effect (dead : List Pcb) (woken slept : List Int) (t t' : Table) : Prop where
  procs : ∀ p ∈ t.procs, p ∈ t'.procs ↔ p ∉ dead
  pid : ∀ p ∈ t.procs, t'.pid p = t.pid p
  asleep : ∀ p ∈ t.procs,
    Asleep t' p ↔ (Asleep t p ∨ t.pid p ∈ slept) ∧ p ∉ dead ∧ t.pid p ∉ woken
  /-- A process that dies does not get the processor by it. -/
  current : ∀ p ∈ dead, t'.current = some p → t.current = some p

theorem SameAsleep.effect {t t' : Table} (h : SameAsleep t t') : Effect [] [] [] t t' where
  procs p hp := by simp [h.procs, hp]
  pid p _ := h.pid p
  asleep p _ := by simp [h.iff p]
  current p hp := by cases hp

/-- A switch adds nothing to an effect. -/
theorem Effect.same {woken slept : List Int} {t t' t'' : Table}
    (h : Effect [] woken slept t t') (hs : SameAsleep t' t'') : Effect [] woken slept t t'' where
  procs p hp := by rw [hs.procs, h.procs p hp]
  pid p hp := by rw [hs.pid, h.pid p hp]
  asleep p hp := by rw [hs.iff, h.asleep p hp]
  current p hp := by cases hp

theorem effect_suspend {t : Table} (h : Core none t) {p : Pcb} (hp : p ∈ t.procs) :
    Effect [] [] [t.pid p] t (t.suspend p) where
  procs q hq := by simp [(sameProcs_suspend t p).procs, hq]
  pid q _ := (sameProcs_suspend t p).pid q
  asleep q hq := by
    unfold Asleep
    rw [(sameProcs_suspend t p).procs, status_suspend]
    simp only [hq, true_and, List.mem_singleton, List.not_mem_nil, not_false_iff, and_true]
    have hpid : t.pid q = t.pid p ↔ q = p := ⟨h.pid_inj q hq p hp, fun he => by rw [he]⟩
    rw [hpid]
    by_cases hqp : q = p
    · subst hqp
      have ha := h.alive q hq
      refine ⟨fun _ => Or.inr rfl, fun _ => ?_⟩
      split
      · rfl
      · rename_i hn
        cases hst : t.status q with
        | READY => exact absurd ⟨rfl, Or.inl hst⟩ hn
        | RUNNING => exact absurd ⟨rfl, Or.inr hst⟩ hn
        | BLOCKED => rfl
        | TERMINATED => exact absurd hst ha
    · simp [hqp]
  current q hq := by cases hq

/-- `block` puts the process of that pid to sleep, and nobody else. -/
theorem effect_block {t : Table} (h : Inv t) {pid : Int} (hpid : pid ≠ IDLE_PID) :
    Effect [] [] [pid] t (t.block pid) := by
  unfold block
  cases hf : t.find pid with
  | none =>
    have hno := find_none hf
    exact ⟨fun p hp => by simp [hp], fun _ _ => rfl, fun p hp => by simp [hno p hp],
      fun p hp => by cases hp⟩
  | some q =>
    obtain ⟨hq, rfl⟩ := find_some hf
    have hready : ¬ (t.status q = .READY ∧ q ∉ t.ready) := fun hr =>
      hr.2 ((h.core.mem_ready q).mpr ⟨hq, hr.1, by simp⟩)
    have hsus := effect_suspend h.core hq
    dsimp only
    rw [if_neg hready]
    split
    · exact hsus.same (sameAsleep_yield (core_suspend h.core hq hpid) (cur_suspend h.cur hq))
    · exact hsus

theorem procs_block {t : Table} (h : Inv t) {pid : Int} (hpid : pid ≠ IDLE_PID) :
    (t.block pid).procs = t.procs := by
  unfold block
  cases hf : t.find pid with
  | none => rfl
  | some q =>
    obtain ⟨hq, rfl⟩ := find_some hf
    have hs := (sameProcs_suspend t q).procs
    dsimp only
    split
    · rfl
    · split
      · rw [(sameAsleep_yield (core_suspend h.core hq hpid) (cur_suspend h.cur hq)).procs, hs]
      · exact hs

/-- A write to a PCB that leaves its status and its pid alone. -/
theorem sameAsleep_set {t : Table} {p : Pcb} {e : Entry} (hst : e.status = t.status p)
    (hpid : e.pid = t.pid p) : SameAsleep t (t.set p e) := by
  refine ⟨rfl, fun q => ?_, fun q _ => ?_⟩ <;> by_cases hq : q = p
  · subst hq; simpa [Table.pid] using hpid
  · simp [Table.pid, set_pcb_ne _ hq]
  · subst hq; simpa [Table.status] using by rw [hst]; rfl
  · simp [Table.status, set_pcb_ne _ hq]

theorem SameAsleep.comp {woken slept : List Int} {t t' t'' : Table}
    (h : SameAsleep t t') (he : Effect [] woken slept t' t'') : Effect [] woken slept t t'' where
  procs p hp := he.procs p (h.procs ▸ hp)
  pid p hp := (he.pid p (h.procs ▸ hp)).trans (h.pid p)
  asleep p hp := by rw [he.asleep p (h.procs ▸ hp), h.iff, h.pid]
  current p hp := by cases hp

/-- The pid of the caller of `wait`, when it is put to sleep. -/
def Table.waitsAs (t : Table) (pid : Int) : List Int :=
  if (t.find pid).isSome ∧ t.currentPid ≠ pid then [t.currentPid] else []

theorem effect_wait {t : Table} (h : Inv t) (pid : Int)
    (hcur : (t.find pid).isSome → t.currentPid ≠ pid → t.currentPid ≠ IDLE_PID) :
    Effect [] [] (t.waitsAs pid) t (t.wait pid) := by
  unfold wait waitsAs
  cases hf : t.find pid with
  | none => simpa using (SameAsleep.refl t).effect
  | some target =>
    rw [hf] at hcur
    dsimp only
    by_cases hself : t.currentPid = pid
    · rw [if_pos hself, if_neg (by simp [hself])]
      exact (SameAsleep.refl t).effect
    · rw [if_neg hself, if_pos (by simp [hself])]
      have hset : SameAsleep t (t.set target ((t.pcb target).enlist (t.find t.currentPid))) :=
        sameAsleep_set rfl rfl
      have hinv : Inv (t.set target ((t.pcb target).enlist (t.find t.currentPid))) :=
        inv_set h rfl rfl rfl rfl
      exact hset.comp (effect_block hinv (hcur rfl hself))

/-! ## Waking -/

/-- `wake` wakes the process of that pid, and nobody else. -/
theorem asleep_wake {v : Option Pcb} {t : Table} (h : Core v t) (pid : Int) {p : Pcb}
    (hv : v ≠ some p) : Asleep (t.wake pid) p ↔ Asleep t p ∧ t.pid p ≠ pid := by
  rcases wake_cases h pid with ⟨q, hq, hqp, hb, _, he⟩ | ⟨he, hall⟩
  · rw [he]
    unfold Asleep
    rw [procs_mark, procs_queues, status_mark, status_queues]
    by_cases hpq : p = q
    · subst hpq
      simp [hqp]
    · rw [if_neg hpq]
      refine ⟨fun ⟨hp, hs⟩ => ⟨⟨hp, hs⟩, fun hpid => hpq ?_⟩, fun ⟨ha, _⟩ => ha⟩
      exact h.pid_inj p hp q hq (hpid.trans hqp.symm)
  · rw [he]
    exact ⟨fun ha => ⟨ha, fun hpid => hv (hall p ha.1 hpid ha.2)⟩, fun ha => ha.1⟩

theorem effect_wake {t : Table} (h : Core none t) (pid : Int) :
    Effect [] [pid] [] t (t.wake pid) where
  procs p hp := by simp [(sameProcs_wake h pid).procs, hp]
  pid p _ := (sameProcs_wake h pid).pid p
  asleep p _ := by
    rw [asleep_wake h pid (by simp)]
    simp
  current p hp := by cases hp

theorem asleep_wakeAll {v : Option Pcb} (waiters : List (Option Pcb)) {t : Table} (h : Core v t)
    {p : Pcb} (hv : v ≠ some p) :
    Asleep (wakeAll waiters t) p ↔
      Asleep t p ∧ ∀ aux, some aux ∈ waiters → t.pid aux ≠ t.pid p := by
  induction waiters generalizing t with
  | nil => simp [wakeAll]
  | cons w rest ih =>
    cases w with
    | none =>
      rw [wakeAll, ih h]
      simp
    | some aux =>
      have hs := sameProcs_wake h (t.pid aux)
      rw [wakeAll, ih (core_wake h _), asleep_wake h _ hv]
      simp only [hs.pid, List.mem_cons, Option.some.injEq, and_assoc]
      apply and_congr_right
      intro _
      constructor
      · rintro ⟨hne, hall⟩ a (rfl | ha)
        · exact Ne.symm hne
        · exact hall a ha
      · exact fun hall => ⟨Ne.symm (hall aux (Or.inl rfl)), fun a ha => hall a (Or.inr ha)⟩

/-! ## Kills -/

/-- What a kill of `v` did: `v` is out of the table, and its waiters are
awake. -/
structure Killed (v : Pcb) (t t' : Table) : Prop where
  inv : Inv t'
  procs : t'.procs = t.procs.erase v
  pid : ∀ p, t'.pid p = t.pid p
  fds : ∀ p, (t'.pcb p).fds = (t.pcb p).fds
  waiters : ∀ p, p ≠ v → (t'.pcb p).waiters = (t.pcb p).waiters
  current : t'.current = t.current
  asleep : ∀ p, Asleep t' p ↔
    Asleep t p ∧ p ≠ v ∧ ∀ aux, some aux ∈ (t.pcb v).waiters → t.pid aux ≠ t.pid p

theorem waiting_wake (t : Table) (pid : Int) (p : Pcb) :
    ((t.wake pid).pcb p).waiting = (t.pcb p).waiting := by
  unfold wake
  split
  · rfl
  · split
    · rw [waiting_mark, pcb_queues]
    · rfl

theorem waiting_wakeAll (waiters : List (Option Pcb)) (t : Table) (p : Pcb) :
    ((wakeAll waiters t).pcb p).waiting = (t.pcb p).waiting := by
  induction waiters generalizing t with
  | nil => rfl
  | cons w rest ih =>
    cases w with
    | none => exact ih t
    | some aux => rw [wakeAll, ih, waiting_wake]

theorem pcb_free_ne {t : Table} {p q : Pcb} (h : q ≠ p) : (t.free p).pcb q = t.pcb q :=
  set_pcb_ne _ h

theorem pid_free (t : Table) (p q : Pcb) : (t.free p).pid q = t.pid q := by
  by_cases hq : q = p
  · subst hq; simp [Table.free, Table.pid, Table.set]
  · rw [Table.pid, pcb_free_ne hq, Table.pid]

theorem fds_free (t : Table) (p q : Pcb) : ((t.free p).pcb q).fds = (t.pcb q).fds := by
  by_cases hq : q = p
  · subst hq; simp [Table.free, Table.set]
  · rw [pcb_free_ne hq]

theorem killed_kill {t : Table} (h : Inv t) {v : Pcb} (hv : v ∈ t.procs)
    (hpid : t.pid v ≠ IDLE_PID) : ∃ t', t.kill v = (true, t') ∧ Killed v t t' := by
  obtain ⟨t', hk, hinv, hprocs⟩ := inv_kill h hv hpid
  refine ⟨t', hk, ?_⟩
  obtain ⟨r, b, hl, hcore⟩ := core_leaveQueue h.core hv hpid
  unfold kill at hk
  rw [hl] at hk
  dsimp only at hk
  have hwait := waiting_wakeAll ((t.queues r b).pcb v).waiters (t.queues r b)
  have hasleep := fun p (hp : some v ≠ some p) =>
    asleep_wakeAll ((t.queues r b).pcb v).waiters hcore (p := p) hp
  have hwoken := woken_wakeAll ((t.queues r b).pcb v).waiters hcore
    (h.cur.of_same (SameProcs.queues t r b) rfl rfl (fun _ _ => rfl) (fun _ _ h => h))
    h.not_blocked
  have hsame := hwoken.same
  have hcurrent := hwoken.current
  generalize wakeAll ((t.queues r b).pcb v).waiters (t.queues r b) = w
    at hk hwait hasleep hsame hcurrent
  have hdrop : t' = w.drop v ∨ t' = (w.drop v).free v := by
    unfold terminate at hk
    rw [if_pos (hsame.procs ▸ hv), Prod.mk.injEq] at hk
    rw [← hk.2]
    split
    · exact Or.inl rfl
    · exact Or.inr rfl
  have hne : ∀ p, p ≠ v → t'.pcb p = w.pcb p := by
    intro p hp
    rcases hdrop with rfl | rfl
    · exact set_pcb_ne _ hp
    · rw [pcb_free_ne hp]
      exact set_pcb_ne _ hp
  have hpids : ∀ p, t'.pid p = t.pid p := by
    intro p
    have hd : (w.drop v).pid p = t.pid p := (pid_mark _ v p _).trans (hsame.pid p)
    rcases hdrop with rfl | rfl
    · exact hd
    · rw [pid_free, hd]
  have hfds : ∀ p, (t'.pcb p).fds = (t.pcb p).fds := by
    intro p
    have hd : ((w.drop v).pcb p).fds = (t.pcb p).fds := (fds_mark _ v p _).trans (hsame.fds p)
    rcases hdrop with rfl | rfl
    · exact hd
    · rw [fds_free, hd]
  refine ⟨hinv, hprocs, hpids, hfds, fun p hp => ?_, ?_, fun p => ?_⟩
  · rw [Entry.waiters, hne p hp, hwait]
    rfl
  · rcases hdrop with rfl | rfl <;> exact hcurrent
  · have hmem : p ∈ t'.procs ↔ p ≠ v ∧ p ∈ t.procs := by
      rw [hprocs]
      exact h.core.procs_nodup.mem_erase_iff
    by_cases hpv : p = v
    · subst hpv
      simp [Asleep, hmem]
    · have ha := hasleep p (fun he => hpv (Option.some.inj he).symm)
      have hw : Asleep t' p ↔ Asleep w p := by
        unfold Asleep
        rw [hmem, Table.status, hne p hpv, hsame.procs]
        simp [hpv, Table.status]
      rw [hw, ha]
      simp [hpv, Asleep, Table.pid]

/-- The process that goes after `v`: the other end of its pipe. -/
def Table.peer (t : Table) (v : Pcb) : Option Pcb :=
  if pipedFd (t.pcb v).fds = -1 then none
  else (t.procs.erase v).find? (fun p =>
    (t.pcb p).fds STDIN = pipedFd (t.pcb v).fds ∨ (t.pcb p).fds STDOUT = pipedFd (t.pcb v).fds)

/-- Who goes with a kill of `pid`. -/
def Table.victims (t : Table) (pid : Int) : List Pcb :=
  match t.find pid with
  | none => []
  | some v => v :: (t.peer v).toList

def Table.foregroundVictims (t : Table) : List Pcb :=
  match t.current with
  | none => []
  | some p =>
    if (t.pcb p).ground = 0 ∧ t.pid p ≠ SHELL_PID then t.victims (t.pid p)
    else (t.procs.find? (fun p => (t.pcb p).ground = 0 ∧ t.pid p ≠ SHELL_PID)).toList

/-- What the kills of `vs` did. -/
structure Buried (vs : List Pcb) (t t' : Table) : Prop where
  inv : Inv t'
  procs : ∀ p, p ∈ t'.procs ↔ p ∈ t.procs ∧ p ∉ vs
  pid : ∀ p, t'.pid p = t.pid p
  current : t'.current = t.current
  asleep : ∀ p, Asleep t' p ↔ Asleep t p ∧ p ∉ vs ∧
    ∀ v ∈ vs, ∀ aux, some aux ∈ (t.pcb v).waiters → t.pid aux ≠ t.pid p

theorem Buried.nil {t : Table} (h : Inv t) : Buried [] t t :=
  ⟨h, fun p => by simp, fun _ => rfl, rfl, fun p => by simp⟩

theorem Killed.buried {v : Pcb} {t t' : Table} (h : Inv t) (hk : Killed v t t') :
    Buried [v] t t' where
  inv := hk.inv
  procs p := by
    rw [hk.procs, h.core.procs_nodup.mem_erase_iff, List.mem_singleton, and_comm]
  pid := hk.pid
  current := hk.current
  asleep p := by
    rw [hk.asleep]
    simp

theorem Killed.buried_two {v w : Pcb} {t t' t'' : Table} (h : Inv t) (hk : Killed v t t')
    (hw : w ≠ v) (hk' : Killed w t' t'') : Buried [v, w] t t'' where
  inv := hk'.inv
  procs p := by
    rw [hk'.procs, hk.inv.core.procs_nodup.mem_erase_iff, hk.procs,
      h.core.procs_nodup.mem_erase_iff]
    simp only [List.mem_cons, List.not_mem_nil, or_false, not_or]
    tauto
  pid p := (hk'.pid p).trans (hk.pid p)
  current := hk'.current.trans hk.current
  asleep p := by
    rw [hk'.asleep, hk.asleep, hk.waiters w hw]
    simp only [hk.pid, List.mem_cons, List.not_mem_nil, or_false, not_or, forall_eq_or_imp,
      forall_eq]
    tauto

/-- A kill by pid takes the process and its peer, and wakes their waiters. -/
theorem buried_killPid {t : Table} (h : Inv t) {pid : Int} (hpid : pid ≠ IDLE_PID) :
    Buried (t.victims pid) t (t.killPid pid) := by
  unfold victims killPid
  cases hf : t.find pid with
  | none => exact .nil h
  | some v =>
    obtain ⟨hv, hvp⟩ := find_some hf
    obtain ⟨t', hk, hkilled⟩ := killed_kill h hv (hvp ▸ hpid)
    dsimp only
    rw [hk]
    dsimp only
    unfold peer
    by_cases hfd : pipedFd (t.pcb v).fds = -1
    · rw [if_pos hfd, if_pos hfd]
      exact hkilled.buried h
    · rw [if_neg hfd, if_neg hfd]
      have hpiped : t'.pipedTo (pipedFd (t.pcb v).fds) = (t.procs.erase v).find? (fun p =>
          (t.pcb p).fds STDIN = pipedFd (t.pcb v).fds ∨
            (t.pcb p).fds STDOUT = pipedFd (t.pcb v).fds) := by
        simp only [pipedTo, hkilled.procs, hkilled.fds]
      rw [← hpiped]
      cases hp : t'.pipedTo (pipedFd (t.pcb v).fds) with
      | none => exact hkilled.buried h
      | some w =>
        obtain ⟨hw, hwpid⟩ := pipedTo_ne_idle hkilled.inv.core hfd hp
        obtain ⟨t'', hk', hkilled'⟩ := killed_kill hkilled.inv hw hwpid
        dsimp only
        rw [hk']
        refine hkilled.buried_two h (fun he => ?_) hkilled'
        rw [hkilled.procs, he, h.core.procs_nodup.mem_erase_iff] at hw
        exact hw.1 rfl

theorem buried_killForeground {t : Table} (h : Inv t) :
    Buried t.foregroundVictims t t.killForeground := by
  have hground : ∀ p ∈ t.procs, (t.pcb p).ground = 0 → t.pid p ≠ IDLE_PID := by
    intro p hp hg hpid
    obtain ⟨i, hi, hipid, _, _, _, hig⟩ := h.core.idle
    exact hig (h.core.pid_inj p hp i hi (hpid.trans hipid.symm) ▸ hg)
  unfold foregroundVictims killForeground
  cases hc : t.current with
  | none => exact .nil h
  | some p =>
    dsimp only
    by_cases hg : (t.pcb p).ground = 0 ∧ t.pid p ≠ SHELL_PID
    · rw [if_pos hg, if_pos hg]
      by_cases hp : p ∈ t.procs
      · exact buried_killPid h (hground p hp hg.1)
      · exact buried_killPid h (h.cur.gone p hc hp).2
    · rw [if_neg hg, if_neg hg]
      cases hf : t.procs.find? (fun p => (t.pcb p).ground = 0 ∧ t.pid p ≠ SHELL_PID) with
      | none => exact .nil h
      | some w =>
        have hw : w ∈ t.procs := List.mem_of_find?_eq_some hf
        have hgw : (t.pcb w).ground = 0 ∧ t.pid w ≠ SHELL_PID := by
          simpa using List.find?_some hf
        obtain ⟨t', hk, hkilled⟩ := killed_kill h hw (hground w hw hgw.1)
        dsimp only
        rw [hk]
        exact hkilled.buried h

/-- The pids that the kills of `vs` read in the waiting lists, and wake. -/
def Table.awaiting (t : Table) (vs : List Pcb) : List Int :=
  vs.flatMap (fun v => ((t.pcb v).waiters.filterMap id).map t.pid)

theorem mem_awaiting {t : Table} {vs : List Pcb} {pid : Int} :
    pid ∈ t.awaiting vs ↔ ∃ v ∈ vs, ∃ aux, some aux ∈ (t.pcb v).waiters ∧ t.pid aux = pid := by
  simp [awaiting]

theorem Buried.effect {vs : List Pcb} {t t' : Table} (h : Buried vs t t') :
    Effect vs (t.awaiting vs) [] t t' where
  procs p hp := by simp [h.procs, hp]
  pid p _ := h.pid p
  asleep p _ := by
    rw [h.asleep, mem_awaiting]
    simp
  current p _ hc := h.current ▸ hc

/-! ## New processes -/

theorem effect_creates {fds : Fin CANT_FILE_DESCRIPTORS → Int} {ground : Nat} {t t' : Table}
    (h : Core none t) (hc : Creates fds ground t t') : Effect [] [] [] t t' := by
  have hne : ∀ p ∈ t.procs, p ≠ t.pcbQty := fun p hp => Nat.ne_of_lt (h.live p hp).2
  have heffect : ∀ t' : Table, (∀ p ∈ t.procs, p ∈ t'.procs) →
      (∀ p ∈ t.procs, t'.pcb p = t.pcb p) → Effect [] [] [] t t' := by
    intro t' hprocs hpcb
    refine ⟨fun p hp => by simp [hprocs p hp], fun p hp => congrArg Entry.pid (hpcb p hp),
      fun p hp => ?_, fun p hp => by cases hp⟩
    simp [Asleep, hp, hprocs p hp, Table.status, hpcb p hp]
  cases hc with
  | refused => exact (SameAsleep.refl t).effect
  | failed e =>
    refine heffect _ (fun p hp => hp) fun p hp => ?_
    rw [pcb_free_ne (hne p hp)]
    exact set_pcb_ne _ (hne p hp)
  | created e₀ e n hqty hn hpid hst hfds hground hwait =>
    exact heffect _ (fun p hp => List.mem_append_left _ hp) fun p hp => set_pcb_ne _ (hne p hp)

end bare_bones.process_table
