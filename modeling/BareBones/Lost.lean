-- The processes that a refused list node leaves READY and in no queue: what a
-- switch and a block do to them, exactly.
import BareBones.Dispatches
import BareBones.Refusing

namespace bare_bones.process_table

open bare_bones.process
open bare_bones.scheduler (NO_PROCESS IDLE_PID)
open Table

/-- A process that is READY and that no switch will dispatch. -/
def Lost (t : Table) (p : Pcb) : Prop := p ∈ t.procs ∧ t.status p = .READY ∧ p ∉ t.ready

instance (t : Table) (p : Pcb) : Decidable (Lost t p) := inferInstanceAs (Decidable (_ ∧ _ ∧ _))

theorem Lost.of_status {t t' : Table} {q : Pcb} (h : Lost t' q) (hp : t'.procs = t.procs)
    (hst : t'.status q = t.status q) (hr : q ∈ t.ready → q ∈ t'.ready) : Lost t q :=
  ⟨hp ▸ h.1, hst.symm.trans h.2.1, fun hm => h.2.2 (hr hm)⟩

theorem procs_terminate (t : Table) (v : Pcb) : (t.terminate v).2.procs = t.procs.erase v := by
  unfold terminate
  split
  · dsimp only
    split <;> rfl
  · rename_i hv
    exact (List.erase_of_not_mem hv).symm

theorem status_terminate {t : Table} {v q : Pcb} (hq : q ≠ v) :
    (t.terminate v).2.status q = t.status q := by
  unfold terminate
  split
  · dsimp only
    split
    · exact congrArg Entry.status (set_pcb_ne _ hq)
    · exact congrArg Entry.status ((set_pcb_ne _ hq).trans (set_pcb_ne _ hq))
  · rfl

/-- A change loses nobody but the process that it takes from its place. -/
theorem lost_change {q : Pcb} {t t' : Table} (hs : Sturdy t) (hc : Change (· ≠ q) t t')
    (h : Lost t' q) : Lost t q := by
  obtain ⟨hp, hst, hr⟩ := id h
  have hmark : ∀ {u : Table} {p : Pcb} {st : ProcessState}, q ≠ p →
      (u.mark p st).status q = u.status q := fun hne => by rw [status_mark, if_neg hne]
  have hrun : ∀ {u : Table} {p : Pcb}, (u.dispatch p).status q = .READY → q ≠ p := by
    rintro u p hu rfl
    simp [status_dispatch] at hu
  cases hc with
  | quantum n => exact h
  | amended hp' he => exact h.of_status rfl (he.set q).status id
  | @woken p hp' hst' hb =>
    have hqp : q ≠ p := by
      rintro rfl
      simp at hr
    exact h.of_status rfl (hmark hqp) fun hm => by simp [hm]
  | unblocked hst' => exact h
  | @suspended p hp' hst' hr' hok =>
    exact h.of_status rfl (hmark hok.symm) (List.mem_erase_of_ne hok.symm).mpr
  | @stopped p hp' hst' hok => exact h.of_status rfl (hmark hok.symm) id
  | @unready p hst' hok => exact h.of_status rfl rfl (List.mem_erase_of_ne hok.symm).mpr
  | @requeued c hc hst' =>
    have hqc : q ≠ c := by
      rintro rfl
      simp at hr
    exact h.of_status rfl (hmark hqc) fun hm => by simp [hm]
  | @lost c hc hst' hok => exact h.of_status rfl (hmark hok.symm) id
  | @again c hc hst' hr' hf =>
    have hqc := hrun hst
    refine h.of_status rfl ?_ id
    rw [status_dispatch, if_neg hqc, hmark hqc]
  | @freed c hc hst' =>
    have hqc : q ≠ c := by
      rintro rfl
      exact hs.alive q hp hst'
    exact h.of_status rfl (congrArg Entry.status (set_pcb_ne _ hqc)) id
  | @head p rest hr' hl =>
    have hqp := hrun hst
    refine h.of_status rfl ?_ fun hm => ?_
    · rw [status_dispatch, if_neg hqp]
      rfl
    · rw [hr'] at hm
      exact (List.mem_cons.mp hm).resolve_left hqp
  | @fallback i hr' hf hl =>
    refine h.of_status rfl ?_ id
    rw [status_dispatch, if_neg (hrun hst)]
  | nobody hc hr' => exact h
  | @killed v hv hok hout =>
    rw [procs_terminate] at hp
    refine ⟨List.mem_of_mem_erase hp, ?_, fun hm => hr ?_⟩
    · rw [← hst, status_terminate hok.symm]
    · rw [ready_terminate]
      exact hm
  | failed e =>
    have hqn : q ≠ t.pcbQty := Nat.ne_of_lt (hs.listed q hp)
    exact h.of_status rfl
      (congrArg Entry.status ((set_pcb_ne _ hqn).trans (set_pcb_ne _ hqn))) id
  | @created e₀ e n procs ready hn hpid hst' hwait hp' hr' hok =>
    have hqn : q ≠ t.pcbQty := by
      rintro rfl
      rcases hok with rfl | hok
      · simp at hr
      · exact hok rfl
    refine ⟨?_, ?_, fun hm => hr ?_⟩
    · rcases hp' with rfl | rfl
      · exact hp
      · simpa [hqn] using hp
    · exact (congrArg Entry.status (set_pcb_ne e hqn)).symm.trans hst
    · rcases hr' with rfl | rfl
      · exact hm
      · exact List.mem_append_left _ hm
  | @reused p e hf =>
    have hqp : q ≠ p := by
      rintro rfl
      exact absurd (hs.live q hp) (Nat.ne_of_gt hf)
    exact h.of_status rfl (congrArg Entry.status (set_pcb_ne _ hqp)) id

theorem lost_changes {q : Pcb} {t t' : Table} (hs : Sturdy t) (hc : Changes (· ≠ q) t t')
    (h : Lost t' q) : Lost t q := by
  induction hc with
  | refl => exact h
  | tail hfirst hlast ih => exact ih (lost_change (sturdy_changes hs hfirst) hlast h)

/-- The process list and the blocked queue are as they were, and so is who
waits for whom. -/
structure Frames (t t' : Table) : Prop where
  procs : t'.procs = t.procs
  blocked : t'.blocked = t.blocked
  waiting : ∀ p ∈ t.procs, (t'.pcb p).waiting = (t.pcb p).waiting

theorem Frames.refl (t : Table) : Frames t t := ⟨rfl, rfl, fun _ _ => rfl⟩

theorem Frames.trans {t₁ t₂ t₃ : Table} (h : Frames t₁ t₂) (h' : Frames t₂ t₃) :
    Frames t₁ t₃ :=
  ⟨h'.procs.trans h.procs, h'.blocked.trans h.blocked,
    fun p hp => (h'.waiting p (h.procs ▸ hp)).trans (h.waiting p hp)⟩

theorem frames_mark (t : Table) (ready : List Pcb) (p : Pcb) (st : ProcessState) :
    Frames t ((t.queues ready t.blocked).mark p st) :=
  ⟨rfl, rfl, fun q _ => by simp⟩

theorem frames_dispatch (t : Table) (ready : List Pcb) (p : Pcb) :
    Frames t ((t.queues ready t.blocked).dispatch p) :=
  ⟨rfl, rfl, fun q _ => waiting_mark _ p q .RUNNING⟩

theorem frames_next (t : Table) : Frames t t.next := by
  unfold Table.next
  split
  · exact frames_dispatch t _ _
  · split
    · exact .refl t
    · exact frames_dispatch t t.ready _

end bare_bones.process_table

namespace bare_bones.scheduler

open bare_bones.doubleLinkedList bare_bones.process bare_bones.process_table
open Scheduler Table

variable {H : Type} [MemoryManager H]

/-! ## The switch -/

theorem frames_switch {s : Scheduler H} (h : Sturdy s.view) (rsp : Addr) :
    Frames s.view (switch s rsp).2.view := by
  by_cases hpid : s.currentPid = NO_PROCESS
  · rw [switch_none s rsp hpid]
    unfold Table.switch
    rw [if_pos (show s.view.currentPid = NO_PROCESS from hpid)]
    split
    · exact frames_dispatch s.view _ _
    · exact ⟨rfl, rfl, fun _ _ => rfl⟩
  · rw [switch_leaves s rsp hpid]
    refine Frames.trans ?_ (frames_next _)
    have hl := leaveCurrent_leaves s rsp
    generalize (leaveCurrent s rsp).view = t at hl
    cases hl with
    | stays hs => exact .refl _
    | @freed c hc hst =>
      refine ⟨rfl, rfl, fun p hp => congrArg Entry.waiting (set_pcb_ne _ ?_)⟩
      rintro rfl
      exact h.alive p hp hst
    | requeued hc hst ha => exact frames_mark s.view _ _ _
    | refused hc hst ha => exact frames_mark s.view s.view.ready _ _

omit [MemoryManager H] in
theorem sturdy_quantums {s : Scheduler H} (h : Sturdy s.view) (q : Int) :
    Sturdy { s with quantums := q }.view :=
  have hc : Change (fun _ => True) s.view { s.view with quantums := q } := .quantum q
  sturdy_change h hc

theorem frames_schedule {s : Scheduler H} (h : Sturdy s.view) (rsp : Addr) :
    Frames s.view (schedule s rsp).2.view := by
  unfold schedule
  dsimp only
  split
  · exact ⟨rfl, rfl, fun _ _ => rfl⟩
  · obtain ⟨hprocs, hblocked, hwait⟩ := frames_switch (sturdy_quantums h (s.quantums - 1)) rsp
    exact ⟨hprocs, hblocked, hwait⟩

theorem frames_yield {s : Scheduler H} (h : Sturdy s.view) (rsp : Addr) :
    Frames s.view (yield s rsp).view := by
  obtain ⟨hprocs, hblocked, hwait⟩ := frames_schedule (sturdy_quantums h 0) rsp
  exact ⟨hprocs, hblocked, hwait⟩

/-- The preempted process gets its node in the ready queue; or it is idle, and is
dispatched again with nobody else READY. -/
def requeueSuffices (s : Scheduler H) : Prop :=
  ∀ c ∈ s.procs, s.currentProcess = some c → s.status c = .RUNNING →
    (mm_alloc NODE_SIZE s.heap).1.isSome ∨ s.ready = [] ∧ findProcess s IDLE_PID = some c

instance (s : Scheduler H) : Decidable (requeueSuffices s) :=
  inferInstanceAs (Decidable (∀ c ∈ s.procs, _))

/-- A step loses nobody. -/
abbrev losesNobody (s s' : Scheduler H) : Prop := ∀ p, Lost s'.view p → Lost s.view p

theorem switch_losesNobody {s : Scheduler H} (h : Sturdy s.view) (rsp : Addr) :
    losesNobody s (switch s rsp).2 ↔ requeueSuffices s := by
  constructor
  · intro hlose c hc hcur hrun
    by_contra hno
    rw [not_or] at hno
    have hpid : s.currentPid ≠ NO_PROCESS := by
      have hp : s.currentPid = s.view.pid c := h.current c hc hcur
      have hn := h.pid_nonneg c hc
      simp only [NO_PROCESS]
      omega
    have hready : c ∉ s.view.ready := fun hm => by
      have := (h.placed c hc).ready hm
      cases hrun.symm.trans this
    have hleft : (leaveCurrent s rsp).view = s.view.mark c .READY := by
      have hl := leaveCurrent_leaves s rsp
      generalize (leaveCurrent s rsp).view = t at hl
      cases hl with
      | stays hs => exact absurd hrun (hs c hcur)
      | freed hc' hst =>
        cases hc'.symm.trans hcur
        cases hst.symm.trans hrun
      | requeued hc' hst ha => exact absurd ha hno.1
      | refused hc' hst ha =>
        cases hc'.symm.trans hcur
        rfl
    have hl := hlose c
    rw [switch_leaves s rsp hpid, hleft] at hl
    refine absurd (hl ?_).2.1 (by rw [show s.view.status c = .RUNNING from hrun]; simp)
    have hmark : (s.view.mark c .READY).status c = .READY := by simp [status_mark]
    have hfind : (s.view.mark c .READY).find IDLE_PID = s.view.find IDLE_PID := by
      refine find_congr ?_ (fun q => pid_mark _ c q .READY) IDLE_PID
      rfl
    unfold Table.next
    split
    · rename_i p rest hr
      have hcp : c ≠ p := fun he => hready (by
        rw [show s.view.ready = p :: rest from hr, he]
        exact List.mem_cons_self)
      refine ⟨hc, ?_, fun hm => hready ?_⟩
      · rw [status_dispatch, if_neg hcp]
        exact hmark
      · rw [show s.view.ready = p :: rest from hr]
        exact List.mem_cons_of_mem p hm
    · rename_i hr
      split
      · exact ⟨hc, hmark, hready⟩
      · rename_i i hf
        have hci : c ≠ i := fun he => hno.2 ⟨hr, he ▸ hfind.symm.trans hf⟩
        refine ⟨hc, ?_, hready⟩
        rw [status_dispatch, if_neg hci]
        exact hmark
  · intro hsuf q hq
    have hqp : q ∈ s.view.procs := by
      rw [← (frames_switch h rsp).procs]
      exact hq.1
    refine lost_changes h (changes_switch (fun c hc hrun ha => ?_) rsp) hq
    by_cases hcp : c ∈ s.procs
    · exact Or.inr ((hsuf c hcp hc hrun).resolve_left (by simp [ha]))
    · exact Or.inl fun he => hcp (he ▸ hqp)

theorem schedule_losesNobody {s : Scheduler H} (h : Sturdy s.view) (rsp : Addr) :
    losesNobody s (schedule s rsp).2 ↔ (s.processQty ≠ 0 → s.quantums ≤ 1 → requeueSuffices s) := by
  unfold schedule
  dsimp only
  by_cases hs : s.processQty = 0 ∨ s.quantums - 1 > 0
  · rw [if_pos hs]
    exact ⟨fun _ h0 h1 => absurd hs (by omega), fun _ p hp => hp⟩
  · rw [if_neg hs]
    have hs' := switch_losesNobody (sturdy_quantums h (s.quantums - 1)) rsp
    refine hs'.trans ⟨fun hsuf _ _ => hsuf, fun hsuf => hsuf ?_ ?_⟩ <;> omega

theorem yield_losesNobody {s : Scheduler H} (h : Sturdy s.view) (rsp : Addr) :
    losesNobody s (yield s rsp) ↔ (s.processQty ≠ 0 → requeueSuffices s) :=
  (schedule_losesNobody (sturdy_quantums h 0) rsp).trans
    ⟨fun hsuf hq => hsuf hq (by simp), fun hsuf hq _ => hsuf hq⟩

/-! ## The block -/

/-- A READY process that leaves its queue gets its node in the blocked one. -/
def blockSuffices (s : Scheduler H) (pid : Int) : Prop :=
  ∀ p ∈ findProcess s pid, s.status p = .READY → p ∈ s.ready →
    (mm_alloc NODE_SIZE (removeNode s.readyProcess p s.heap).2.2).1.isSome

instance (s : Scheduler H) (pid : Int) : Decidable (blockSuffices s pid) :=
  inferInstanceAs (Decidable (∀ p ∈ findProcess s pid, _))

/-- The process goes to the blocked queue. -/
def isBlocked (s : Scheduler H) (p : Pcb) : Prop :=
  s.status p = .RUNNING ∧ (mm_alloc NODE_SIZE s.heap).1.isSome ∨
    s.status p = .READY ∧ p ∈ s.ready ∧
      (mm_alloc NODE_SIZE (removeNode s.readyProcess p s.heap).2.2).1.isSome

instance (s : Scheduler H) (p : Pcb) : Decidable (isBlocked s p) :=
  inferInstanceAs (Decidable (_ ∧ _ ∨ _ ∧ _ ∧ _))

/-- A caller of `blockProcess` that blocks itself. -/
theorem frames_ite_yield {s : Scheduler H} (h : Sturdy s.view) (c : Prop) [Decidable c]
    (rsp : Addr) : Frames s.view (if c then yield s rsp else s).view := by
  split
  · exact frames_yield h rsp
  · exact .refl _

theorem lost_ite_yield {s : Scheduler H} (h : Sturdy s.view) {pid : Int} {p q : Pcb}
    (hf : findProcess s pid = some p) (hst : s.status p ≠ .RUNNING) {rsp : Addr}
    (hq : Lost (if getPid s = pid then yield s rsp else s).view q) : Lost s.view q := by
  obtain ⟨hp, rfl⟩ := findProcess_some hf
  have hqp : q ∈ s.view.procs := by
    rw [← (frames_ite_yield h (getPid s = s.pid p) rsp).procs]
    exact hq.1
  have hghost : ∀ c, c ∉ s.procs → c ≠ q := fun c hc he => hc (he ▸ hqp)
  exact lost_changes h (changes_block_yield h hghost hp hst rsp) hq

/-- What `blockProcess` makes of the table: the process is moved or not, and the
processor is given back or not. -/
structure BlockFrame (s : Scheduler H) (pid : Int) (s' : Scheduler H) : Prop where
  procs : s'.procs = s.procs
  waiting : ∀ p ∈ s.procs, (s'.view.pcb p).waiting = (s.view.pcb p).waiting
  blocked : ∀ p, findProcess s pid = some p →
    (s.blocked.count p < s'.blocked.count p ↔ isBlocked s p)
  lost : losesNobody s s' ↔ blockSuffices s pid

/-- Nobody is moved. -/
theorem blockFrame_same {s s' : Scheduler H} {pid : Int} (hfr : Frames s.view s'.view)
    (hno : ∀ p, findProcess s pid = some p → ¬ isBlocked s p) (hsuf : blockSuffices s pid)
    (hlost : losesNobody s s') : BlockFrame s pid s' := by
  refine ⟨hfr.procs, hfr.waiting, fun p hf => ?_, fun _ => hsuf, fun _ => hlost⟩
  have hb : s'.blocked = s.blocked := hfr.blocked
  simp [hb, hno p hf]

/-- The process is moved, and yields when it is the caller. -/
theorem blockFrame_moved {s s' : Scheduler H} (h : Sturdy s.view) {pid : Int} {p : Pcb}
    (hf : findProcess s pid = some p) {ready : List Pcb}
    (hv : s'.view = (s.view.queues ready (s.blocked ++ [p])).mark p .BLOCKED)
    (hc : Change (fun _ => True) s.view s'.view) (hb : isBlocked s p)
    (hready : ∀ q, q ≠ p → q ∈ s.ready → q ∈ ready) (hsuf : blockSuffices s pid) (rsp : Addr) :
    BlockFrame s pid (if getPid s' = pid then yield s' rsp else s') := by
  have hs' : Sturdy s'.view := sturdy_change h hc
  have hfr := frames_ite_yield hs' (getPid s' = pid) rsp
  have hprocs : s'.view.procs = s.view.procs := by rw [hv]; rfl
  have hf' : findProcess s' pid = some p := by
    refine (find_congr hprocs (fun q => ?_) pid).trans hf
    show s'.view.pid q = s.view.pid q
    simp [hv]
  refine ⟨hfr.procs.trans hprocs, fun q hq => ?_, fun q hq => ?_, fun _ => hsuf, fun _ q hq => ?_⟩
  · rw [hfr.waiting q (hprocs ▸ hq), hv]
    simp
  · cases hf.symm.trans hq
    have hblocked : (if getPid s' = pid then yield s' rsp else s').blocked = s.blocked ++ [p] :=
      hfr.blocked.trans (by rw [hv]; rfl)
    simp [hblocked, hb]
  · have hq' := lost_ite_yield hs' hf' (not_running hv) hq
    have hqp : q ≠ p := by
      rintro rfl
      have := hq'.2.1
      simp [hv, status_mark] at this
    refine hq'.of_status hprocs ?_ fun hm => ?_
    · rw [hv, status_mark, if_neg hqp]
      rfl
    · rw [hv]
      exact hready q hqp hm

theorem blockProcess_frame {s : Scheduler H} (h : Sturdy s.view) (pid : Int) (rsp : Addr) :
    BlockFrame s pid (blockProcess s pid rsp).2 := by
  have hb := blockProcess_blocks s pid rsp
  generalize blockProcess s pid rsp = r at hb
  cases hb with
  | absent hf =>
    exact blockFrame_same (.refl _) (fun p hp => by simp [hf] at hp)
      (fun p hp => by simp [hf] at hp) fun q hq => hq
  | @misplaced p hf hst hr =>
    refine blockFrame_same (.refl _) (fun q hq => ?_) (fun q hq _ hm => ?_) fun q hq => hq
    · cases hf.symm.trans hq
      simp [isBlocked, hst, hr]
    · cases hf.symm.trans hq
      exact absurd hm hr
  | @refusedReady p s' hf hst hr ha hv =>
    have hp := (findProcess_some hf).1
    refine ⟨?_, fun q hq => ?_, fun q hq => ?_, fun hlost => ?_, fun hsuf => ?_⟩
    · exact congrArg Table.procs hv
    · rw [hv]
      rfl
    · cases hf.symm.trans hq
      have hblocked : s'.blocked = s.blocked := congrArg Table.blocked hv
      simp [isBlocked, hst, ha, hblocked]
    · refine absurd hr (hlost p ?_).2.2
      rw [hv]
      refine ⟨hp, hst, ?_⟩
      have := (h.placed p hp).once
      rw [ready_queues, ← List.count_eq_zero, List.count_erase_self]
      exact Nat.sub_eq_zero_of_le this
    · have := hsuf p hf hst hr
      simp [ha] at this
  | @refusedRunning p s' hf hst ha hv =>
    refine blockFrame_same (hv ▸ .refl _) (fun q hq => ?_) (fun q hq hst' => ?_)
      fun q hq => hv ▸ hq
    · cases hf.symm.trans hq
      simp [isBlocked, hst, ha]
    · cases hf.symm.trans hq
      cases hst.symm.trans hst'
  | @ready p s' hf hst hr ha hv =>
    have hp := (findProcess_some hf).1
    refine blockFrame_moved h hf hv (hv ▸ .suspended hp hst hr trivial) (Or.inr ⟨hst, hr, ha⟩)
      (fun q hq hm => (List.mem_erase_of_ne hq).mpr hm) (fun q hq _ _ => ?_) rsp
    cases hf.symm.trans hq
    exact ha
  | @running p s' hf hst ha hv =>
    have hp := (findProcess_some hf).1
    refine blockFrame_moved h hf hv (hv ▸ .stopped hp hst trivial) (Or.inl ⟨hst, ha⟩)
      (fun q _ hm => hm) (fun q hq hst' => ?_) rsp
    cases hf.symm.trans hq
    cases hst.symm.trans hst'
  | @asleep p hf hready hrun =>
    refine blockFrame_same (frames_ite_yield h _ rsp) (fun q hq => ?_) (fun q hq hst' => ?_)
      fun q hq => lost_ite_yield h hf hrun hq
    · cases hf.symm.trans hq
      simp [isBlocked, hready, hrun]
    · cases hf.symm.trans hq
      exact absurd hst' hready

end bare_bones.scheduler
