-- Idle is what `schedule` falls back on. It stays current or READY while nobody
-- blocks it or kills it by its pid and the heap gives it its node.
import BareBones.Refusing

namespace bare_bones.process_table

open bare_bones.process
open bare_bones.scheduler (NO_PROCESS IDLE_PID idleDescriptors)
open Table

/-- `i` is idle: it has the processor or waits for it, and no other PCB in use has
its pid. -/
structure Standby (i : Pcb) (t : Table) : Prop where
  listed : i ∈ t.procs
  pid : t.pid i = IDLE_PID
  ground : (t.pcb i).ground ≠ 0
  fds : (t.pcb i).fds = idleDescriptors
  unblocked : i ∉ t.blocked
  place : t.current = some i ∧ t.status i = .RUNNING ∨ i ∈ t.ready ∧ t.status i = .READY
  only : ∀ p < t.pcbQty, t.frees p = 0 → t.pid p = IDLE_PID → p = i
  live : ∀ p, p ∈ t.ready ∨ t.current = some p → t.frees p = 0
  undead : ∀ p ∈ t.ready, t.status p ≠ .TERMINATED

namespace Standby

theorem not_blocked {i : Pcb} {t : Table} (h : Standby i t) : t.status i ≠ .BLOCKED := by
  rcases h.place with ⟨-, hst⟩ | ⟨-, hst⟩ <;> simp [hst]

theorem find_idle {i : Pcb} {t : Table} (h : Standby i t) (hs : Sturdy t) :
    t.find IDLE_PID = some i := h.pid ▸ hs.find_pid h.listed

/-- Once the processor is free idle is READY. -/
theorem ready_of_left {i : Pcb} {t : Table} (h : Standby i t) (hs : Sturdy t) (hl : Left t) :
    i ∈ t.ready := by
  rcases h.place with ⟨hc, hst⟩ | ⟨hr, -⟩
  · rcases hl with hl | hl
    · have hpid := hs.current i h.listed hc
      rw [hl, h.pid] at hpid
      cases hpid
    · exact absurd hst (hl i hc)
  · exact hr

/-- The queues, the statuses and the current process may change. -/
theorem of_same {i : Pcb} {t t' : Table} (h : Standby i t) (hs : SameProcs t t')
    (hblocked : i ∉ t'.blocked)
    (hplace : t'.current = some i ∧ t'.status i = .RUNNING ∨ i ∈ t'.ready ∧ t'.status i = .READY)
    (hlive : ∀ p, p ∈ t'.ready ∨ t'.current = some p → t.frees p = 0)
    (hundead : ∀ p ∈ t'.ready, t'.status p ≠ .TERMINATED) : Standby i t' where
  listed := hs.procs ▸ h.listed
  pid := (hs.pid i).trans h.pid
  ground := by rw [hs.ground]; exact h.ground
  fds := by rw [hs.fds]; exact h.fds
  unblocked := hblocked
  place := hplace
  only p hp hf hpid := h.only p (hs.pcbQty ▸ hp) (hs.frees ▸ hf) ((hs.pid p).symm.trans hpid)
  live p hp := by rw [hs.frees]; exact hlive p hp
  undead := hundead

/-- `p`, another process, moves between the queues. -/
theorem moved {i : Pcb} {t : Table} (h : Standby i t) {ready blocked : List Pcb} {p : Pcb}
    {st : ProcessState} (hst : st ≠ .TERMINATED) (hp : p ≠ i) (hf : t.frees p = 0)
    (hready : ∀ q, q ≠ p → (q ∈ ready ↔ q ∈ t.ready)) (hblocked : i ∉ blocked) :
    Standby i ((t.queues ready blocked).mark p st) := by
  refine h.of_same ((SameProcs.queues t _ _).mark p _) hblocked ?_ (fun q hq => ?_)
    (fun q hq => ?_)
  · rw [status_mark, if_neg (Ne.symm hp)]
    exact h.place.imp id (And.imp_left (hready i (Ne.symm hp)).mpr)
  · by_cases hqp : q = p
    · exact hqp ▸ hf
    · exact h.live q (hq.imp (hready q hqp).mp id)
  · rw [status_mark]
    by_cases hqp : q = p
    · rwa [if_pos hqp]
    · rw [if_neg hqp]
      exact h.undead q ((hready q hqp).mp hq)

/-- Something happens to the PCB `x`, which is not idle and not READY. -/
theorem aside {i x : Pcb} {t t' : Table} (h : Standby i t) (hx : x ≠ i) (hxr : x ∉ t.ready)
    (hprocs : i ∈ t'.procs) (hready : t'.ready = t.ready) (hblocked : t'.blocked = t.blocked)
    (hcur : t'.current = t.current ∨ t'.current = none ∧ t.current = some x)
    (hpcb : ∀ q, q ≠ x →
      t'.pcb q = t.pcb q ∧ t'.frees q = t.frees q ∧ (q < t'.pcbQty → q < t.pcbQty))
    (hpid : t'.frees x = 0 → t'.pid x ≠ IDLE_PID) (hlive : t'.current = some x → t'.frees x = 0) :
    Standby i t' := by
  have hi := hpcb i (Ne.symm hx)
  have hst : ∀ q, q ≠ x → t'.status q = t.status q := fun q hq => congrArg _ (hpcb q hq).1
  have hne : ∀ q ∈ t.ready, q ≠ x := by
    rintro q hq rfl
    exact hxr hq
  refine ⟨hprocs, (congrArg Entry.pid hi.1).trans h.pid, hi.1 ▸ h.ground, hi.1 ▸ h.fds,
    hblocked ▸ h.unblocked, ?_, fun q hq hf hp => ?_, fun q hq => ?_, fun q hq => ?_⟩
  · rw [hst i (Ne.symm hx), hready]
    refine h.place.imp_left (And.imp_left fun hc => ?_)
    rcases hcur with he | ⟨-, he⟩
    · exact he.trans hc
    · exact absurd (Option.some.inj (he.symm.trans hc)) hx
  · by_cases hqx : q = x
    · subst hqx
      exact absurd hp (hpid hf)
    · obtain ⟨hpcb, hfrees, hlt⟩ := hpcb q hqx
      exact h.only q (hlt hq) (hfrees ▸ hf) ((congrArg Entry.pid hpcb).symm.trans hp)
  · by_cases hqx : q = x
    · subst hqx
      exact hlive (hq.resolve_left (hready ▸ hxr))
    · rw [(hpcb q hqx).2.1]
      refine h.live q (hq.imp (hready ▸ ·) fun hc => ?_)
      rcases hcur with he | ⟨he, -⟩
      · exact he.symm.trans hc
      · rw [he] at hc
        cases hc
  · rw [hready] at hq
    rw [hst q (hne q hq)]
    exact h.undead q hq

/-- `p` gets the processor, and idle is left READY when it is not `p`. -/
theorem dispatched {i p : Pcb} {t : Table} {ready : List Pcb} (h : Standby i t)
    (hf : t.frees p = 0) (hsub : ∀ q ∈ ready, q ∈ t.ready)
    (hi : p ≠ i → i ∈ ready ∧ t.status i = .READY) :
    Standby i ((t.queues ready t.blocked).dispatch p) := by
  refine h.of_same ((SameProcs.queues t _ _).dispatch p) h.unblocked ?_ (fun q hq => ?_)
    (fun q hq => ?_)
  · rw [status_dispatch]
    by_cases hpi : p = i
    · exact Or.inl ⟨congrArg some hpi, if_pos hpi.symm⟩
    · rw [if_neg (Ne.symm hpi)]
      exact Or.inr (hi hpi)
  · rcases hq with hq | hq
    · exact h.live q (Or.inl (hsub q hq))
    · cases hq
      exact hf
  · rw [status_dispatch]
    split
    · simp
    · exact h.undead q (hsub q hq)

theorem created {i : Pcb} {t : Table} (h : Standby i t) (hs : Sturdy t) {e₀ e : Entry} {n : Nat}
    {procs ready : List Pcb} (hn : (t.alloc e₀).minFreePid = some n) (hpid : e.pid = n)
    (hst : e.status = .READY) (hp : procs = t.procs ∨ procs = t.procs ++ [t.pcbQty])
    (hr : ready = t.ready ∨ ready = t.ready ++ [t.pcbQty]) :
    Standby i { t.alloc e with procs := procs, ready := ready, qty := t.qty + 1 } := by
  have hlt := hs.listed i h.listed
  have hold : ∀ e', ∀ q < t.pcbQty, (t.alloc e').pcb q = t.pcb q := fun e' q hq =>
    Function.update_of_ne (Nat.ne_of_lt hq) _ _
  have hnew : (t.alloc e).pcb t.pcbQty = e := Function.update_self _ _ _
  have hn0 : (n : Int) ≠ IDLE_PID := by
    intro he
    have hf : (t.alloc e₀).find n = none := by simpa using List.find?_some hn
    apply find_none hf i h.listed
    exact (congrArg Entry.pid (hold e₀ i hlt)).trans (h.pid.trans he.symm)
  have hready : ∀ q ∈ ready, q ∈ t.ready ∨ q = t.pcbQty := fun q hq => by
    rcases hr with rfl | rfl
    · exact Or.inl hq
    · simpa using hq
  have hkeep : ∀ {q : Pcb} {l l' : List Pcb}, (l' = l ∨ l' = l ++ [t.pcbQty]) → q ∈ l → q ∈ l' := by
    rintro q l l' (rfl | rfl) hq
    · exact hq
    · exact List.mem_append_left _ hq
  have hi := hold e i hlt
  refine ⟨hkeep hp h.listed, (congrArg Entry.pid hi).trans h.pid, ?_, ?_, h.unblocked, ?_,
    fun q hq hf hqp => ?_, fun q hq => ?_, fun q hq => ?_⟩
  · show ((t.alloc e).pcb i).ground ≠ 0
    rw [hi]
    exact h.ground
  · exact (congrArg Entry.fds hi).trans h.fds
  · have hsti : ((t.alloc e).pcb i).status = t.status i := congrArg Entry.status hi
    refine h.place.imp (And.imp_right hsti.trans) (And.imp (hkeep hr) hsti.trans)
  · rcases Nat.lt_succ_iff_lt_or_eq.mp hq with hq | rfl
    · exact h.only q hq hf ((congrArg Entry.pid (hold e q hq)).symm.trans hqp)
    · exact absurd ((hpid.symm.trans (congrArg Entry.pid hnew).symm).trans hqp) hn0
  · rcases hq with hq | hq
    · rcases hready q hq with hq | rfl
      · exact h.live q (Or.inl hq)
      · exact hs.fresh _ (Nat.le_refl _)
    · exact h.live q (Or.inr hq)
  · rcases hready q hq with hq | rfl
    · show ((t.alloc e).pcb q).status ≠ _
      rw [hold e q (hs.known q (Or.inl hq))]
      exact h.undead q hq
    · show ((t.alloc e).pcb t.pcbQty).status ≠ _
      rw [hnew, hst]
      simp

end Standby

theorem standby_change {i : Pcb} {t t' : Table} (h : Standby i t) (hs : Sturdy t)
    (hc : Change (· ≠ i) t t') : Standby i t' := by
  cases hc with
  | quantum q =>
    have hq : SameProcs t { t with quantums := q } :=
      ⟨rfl, rfl, rfl, rfl, fun _ => rfl, fun _ => rfl, fun _ => rfl⟩
    exact h.of_same hq h.unblocked h.place h.live h.undead
  | @amended p e hp he =>
    have hst : ∀ q, (t.set p e).status q = t.status q := fun q => (he.set q).status
    refine h.of_same he.sameProcs h.unblocked ?_ h.live fun q hq => ?_
    · rw [hst]
      exact h.place
    · rw [hst]
      exact h.undead q hq
  | @woken p hp hst hb =>
    refine h.moved (by simp) (fun he => h.not_blocked (he ▸ hst)) (hs.live p hp)
      (fun q hq => by simp [hq]) fun hm => h.unblocked (List.mem_of_mem_erase hm)
  | @unblocked p hst =>
    exact h.of_same (SameProcs.queues t _ _) (fun hm => h.unblocked (List.mem_of_mem_erase hm))
      h.place h.live h.undead
  | @suspended p hp hst hr hok =>
    apply h.moved (by simp) hok (hs.live p hp) (fun q hq => List.mem_erase_of_ne hq)
    simp [h.unblocked, Ne.symm hok]
  | @stopped p hp hst hok =>
    apply h.moved (by simp) hok (hs.live p hp) (fun q hq => Iff.rfl)
    simp [h.unblocked, Ne.symm hok]
  | @unready p hst hok =>
    refine h.of_same (SameProcs.queues t _ _) h.unblocked
      (h.place.imp id (And.imp_left (List.mem_erase_of_ne (Ne.symm hok)).mpr))
      (fun q hq => h.live q (hq.imp List.mem_of_mem_erase id))
      (fun q hq => h.undead q (List.mem_of_mem_erase hq))
  | @requeued c hc hst =>
    by_cases hci : c = i
    · subst hci
      refine h.of_same ((SameProcs.queues t _ _).mark c _) h.unblocked
        (Or.inr ⟨by simp, by simp [status_mark]⟩) (fun q hq => h.live q ?_) fun q hq => ?_
      · rcases hq with hq | hq
        · simp only [ready_mark, ready_queues, List.mem_append, List.mem_singleton] at hq
          exact hq.imp_right fun he => by rw [he]; exact hc
        · exact Or.inr hq
      · rw [status_mark]
        by_cases hqc : q = c
        · simp [hqc]
        · rw [if_neg hqc]
          exact h.undead q (by simpa [hqc] using hq)
    · exact h.moved (by simp) hci (h.live c (Or.inr hc)) (fun q hq => by simp [hq]) h.unblocked
  | @lost c hc hst hok =>
    have hlost : Standby i ((t.queues t.ready t.blocked).mark c .READY) :=
      h.moved (by simp) hok (h.live c (Or.inr hc)) (fun q _ => Iff.rfl) h.unblocked
    exact hlost
  | @again c hc hst hr hf =>
    cases hf.symm.trans (h.find_idle hs)
    have hs' : SameProcs t ((t.mark i .READY).dispatch i) :=
      ((SameProcs.queues t t.ready t.blocked).mark i .READY).dispatch i
    refine h.of_same hs' h.unblocked (Or.inl ⟨rfl, by simp [status_dispatch]⟩) (fun q hq => ?_)
      fun q hq => ?_
    · rcases hq with hq | hq
      · exact h.live q (Or.inl hq)
      · cases hq
        exact h.live i (Or.inr hc)
    · have hq' : q ∈ t.ready := hq
      simp [hr] at hq'
  | @freed c hc hst =>
    have hne : c ≠ i := by
      rintro rfl
      rcases h.place with ⟨-, hi⟩ | ⟨-, hi⟩ <;> simp [hi] at hst
    refine h.aside hne (fun hm => h.undead c hm hst) h.listed rfl rfl (Or.inr ⟨rfl, hc⟩)
      (fun q hq => ⟨set_pcb_ne _ hq, Function.update_of_ne hq _ _, id⟩) (fun hf => ?_) fun hcc => ?_
    · simp [Table.free] at hf
    · cases hcc
  | @head p rest hr hl =>
    refine h.dispatched (h.live p (Or.inl (hr ▸ List.mem_cons_self)))
      (fun q hq => hr ▸ List.mem_cons_of_mem p hq) fun hpi => ?_
    have hm := h.ready_of_left hs hl
    refine ⟨?_, (hs.placed i h.listed).ready hm⟩
    rw [hr] at hm
    exact (List.mem_cons.mp hm).resolve_left (Ne.symm hpi)
  | @fallback j hr hf hl =>
    have hm := h.ready_of_left hs hl
    simp [hr] at hm
  | nobody hc hr =>
    have hm := h.ready_of_left hs (Or.inl hc)
    simp [hr] at hm
  | @killed v hv hok hout =>
    have hpid : t.pid v ≠ IDLE_PID := fun he =>
      hok (hs.pid_inj v hv i h.listed (he.trans h.pid.symm))
    have hi : i ∈ (t.drop v).procs :=
      (hs.procs_nodup.mem_erase_iff).mpr ⟨Ne.symm hok, h.listed⟩
    have hd : Standby i (t.drop v) :=
      h.aside hok (hout hpid) hi rfl rfl (Or.inl rfl)
        (fun q hq => ⟨set_pcb_ne _ hq, rfl, id⟩) (fun _ => (pid_mark _ v v .TERMINATED).symm ▸ hpid)
        fun _ => hs.live v hv
    unfold terminate
    rw [if_pos hv]
    dsimp only
    split
    · exact hd
    · rename_i hcv
      exact hd.aside hok (hout hpid) hi rfl rfl (Or.inl rfl)
        (fun q hq => ⟨set_pcb_ne _ hq, Function.update_of_ne hq _ _, id⟩)
        (fun hf => by simp [Table.free] at hf) fun hc => absurd hc hcv
  | failed e =>
    have hlt := hs.listed i h.listed
    refine h.aside (x := t.pcbQty) (Nat.ne_of_gt hlt)
      (fun hm => absurd (hs.known _ (Or.inl hm)) (Nat.lt_irrefl _)) h.listed rfl rfl (Or.inl rfl)
      (fun q hq => ⟨(set_pcb_ne _ hq).trans (set_pcb_ne _ hq), Function.update_of_ne hq _ _,
        fun hle => Nat.lt_of_le_of_ne (Nat.lt_succ_iff.mp hle) hq⟩) (fun hf => ?_) fun hc => ?_
    · simp [Table.free] at hf
    · exact absurd (hs.known _ (Or.inr (Or.inr hc))) (Nat.lt_irrefl _)
  | created hn hpid hst hwait hp hr hok => exact h.created hs hn hpid hst hp hr
  | @reused p e hf =>
    have hnot : ∀ q, t.frees q = 0 → p ≠ q := by
      rintro q hq rfl
      omega
    refine h.aside (hnot i (hs.live i h.listed)) (fun hm => hnot p (h.live p (Or.inl hm)) rfl)
      h.listed rfl rfl (Or.inl rfl) (fun q hq => ⟨set_pcb_ne _ hq, rfl, id⟩)
      (fun hf' => absurd rfl (hnot p hf')) fun hc => absurd rfl (hnot p (h.live p (Or.inr hc)))

theorem standby_changes {i : Pcb} {t t' : Table} (h : Standby i t) (hs : Sturdy t)
    (hc : Changes (· ≠ i) t t') : Standby i t' := by
  induction hc with
  | refl => exact h
  | tail hpre hstep ih => exact standby_change ih (sturdy_changes hs hpre) hstep

end bare_bones.process_table

namespace bare_bones.scheduler

open bare_bones.doubleLinkedList bare_bones.process bare_bones.process_table runs
open Scheduler Table

variable {H : Type}

section Condition

variable [MemoryManager H]

/-- When it is idle that goes back to the ready queue, its node is granted or nobody
else is READY. -/
def idleGetsItsNode (s : Scheduler H) : Prop :=
  s.currentProcess = findProcess s IDLE_PID → s.ready = [] ∨ (mm_alloc NODE_SIZE s.heap).1.isSome

instance (s : Scheduler H) : Decidable (idleGetsItsNode s) :=
  inferInstanceAs (Decidable (_ → _ ∨ _))

/-- A tick that takes the processor from idle finds a node for it. -/
def ticksKeepIdle (s : Scheduler H) : KernelEvent → Prop
  | .call (.schedule _) => s.processQty ≠ 0 → s.quantums ≤ 1 → idleGetsItsNode s
  | .call (.yield _) => s.processQty ≠ 0 → idleGetsItsNode s
  | _ => True

instance (s : Scheduler H) (e : KernelEvent) : Decidable (ticksKeepIdle s e) :=
  match e with
  | .call (.schedule _) =>
    inferInstanceAs (Decidable (s.processQty ≠ 0 → s.quantums ≤ 1 → idleGetsItsNode s))
  | .call (.yield _) => inferInstanceAs (Decidable (s.processQty ≠ 0 → idleGetsItsNode s))
  | .call (.createProcess ..) | .call (.blockProcess ..) | .call (.setReadyProcess _)
  | .call (.waitProcess ..) | .call (.changePriority ..) | .call (.killProcess _)
  | .call .killForegroundProcess | .call (.reuse ..) | .mm_alloc _ | .mm_free _ => isTrue trivial

/-- Nobody blocks or kills idle by its pid, and it gets its node. -/
def leavesIdleAlone (s : Scheduler H) (e : KernelEvent) : Prop :=
  eventSparesIdle s e ∧ ticksKeepIdle s e

instance (s : Scheduler H) (e : KernelEvent) : Decidable (leavesIdleAlone s e) :=
  inferInstanceAs (Decidable (_ ∧ _))

/-- Pid 0 is `i`, which has the processor or waits for it in the ready queue. So the
fallback of `schedule` does not dispatch a process that is queued elsewhere, and each
switch dispatches somebody. -/
structure IdleAvailable (i : Pcb) (s : Scheduler H) : Prop where
  pid_zero : findProcess s IDLE_PID = some i
  available : s.currentProcess = some i ∨ i ∈ s.ready
  fallback : ∀ rsp, (leaveCurrent s rsp).ready = [] →
    ∀ p, findProcess (leaveCurrent s rsp) IDLE_PID = some p → p ∉ (leaveCurrent s rsp).blocked
  dispatches : ∀ rsp, ∃ s' p, switch s rsp = dispatch s' p

end Condition

variable [MemoryManager H] {i : Pcb} {s : Scheduler H}

theorem requeues_idle (hb : Standby i s.view) (hs : Sturdy s.view) (h : idleGetsItsNode s) :
    requeues (· ≠ i) s := by
  intro c hc hrun ha
  by_cases hci : c = i
  · subst hci
    have hf : findProcess s IDLE_PID = some c := hb.find_idle hs
    refine Or.inr ⟨?_, hf⟩
    apply (h (hc.trans hf.symm)).resolve_right
    simp [ha]
  · exact Or.inl hci

omit [MemoryManager H] in
theorem not_idle (hb : Standby i s.view) {pid : Int} (hpid : pid ≠ IDLE_PID) {p : Pcb}
    (hf : findProcess s pid = some p) : p ≠ i := by
  rintro rfl
  exact hpid ((findProcess_some hf).2.symm.trans hb.pid)

/-- Each call, as changes that spare idle. -/
theorem changes_leavesIdleAlone (hb : Standby i s.view) (hs : Sturdy s.view) (e : KernelEvent)
    (hok : leavesIdleAlone s e) : Changes (· ≠ i) s.view (onEvent s e).view := by
  have hghost : ∀ c, c ∉ s.procs → c ≠ i := by
    rintro c hc rfl
    exact hc hb.listed
  have hpeer : ∀ p fd, fd ≠ -1 → attached s p fd → p ≠ i := by
    rintro p fd hfd hatt rfl
    have hfds : (s.pcb p).fileDescriptors = idleDescriptors := hb.fds
    rw [attached, hfds] at hatt
    exact hfd (hatt.elim Eq.symm Eq.symm)
  obtain ⟨hspare, hticks⟩ := hok
  cases e with
  | mm_alloc bytes => exact .refl
  | mm_free ptr => exact .refl
  | call op =>
    cases op with
    | schedule rsp => exact changes_schedule (fun hq hn => requeues_idle hb hs (hticks hq hn)) rsp
    | yield rsp => exact changes_yield (fun hq => requeues_idle hb hs (hticks hq)) rsp
    | createProcess rip args argc priority fds ground =>
      have hne : s.pcbQty ≠ i := Nat.ne_of_gt (hs.listed i hb.listed : i < s.pcbQty)
      exact changes_createProcess hne rip args argc priority fds ground
    | blockProcess pid rsp =>
      exact changes_blockProcess hs hghost (fun p hf => not_idle hb hspare hf) rsp
    | setReadyProcess pid => exact changes_setReadyProcess s pid
    | waitProcess pid rsp =>
      by_cases habs : findProcess s pid = none ∨ getPid s = pid
      · rw [onEvent, exec, waitProcess_absent habs]
      · rw [not_or] at habs
        have hpid : getPid s ≠ IDLE_PID := hspare (Option.isSome_iff_ne_none.mpr habs.1) habs.2
        exact changes_waitProcess hs hghost pid (fun p hf => not_idle hb hpid hf) rsp
    | changePriority pid priority => exact changes_changePriority s pid priority
    | killProcess pid => exact changes_killProcess hs (fun p hf => not_idle hb hspare hf) hpeer
    | killForegroundProcess =>
      refine changes_killForegroundProcess hs (fun c hc hg p hf => not_idle hb (fun hpid => ?_) hf)
        (fun p hp hg => ?_) hpeer
      · have hci : c = i := hb.only c (hs.known c (Or.inr (Or.inr hc))) (hb.live c (Or.inr hc)) hpid
        exact hb.ground (hci ▸ hg)
      · rintro rfl
        exact hb.ground hg
    | reuse p content => exact changes_reuse s p content

theorem standby_step (e : KernelEvent) (h : Sturdy s.view ∧ Standby i s.view)
    (hok : leavesIdleAlone s e) : Sturdy (onEvent s e).view ∧ Standby i (onEvent s e).view :=
  ⟨sturdy_step h.1 e, standby_changes h.2 h.1 (changes_leavesIdleAlone h.2 h.1 e hok)⟩

/-! ## What follows for a switch -/

theorem leaveCurrent_keeps (s : Scheduler H) (rsp : Addr) (pid : Int) :
    findProcess (leaveCurrent s rsp) pid = findProcess s pid ∧
      (leaveCurrent s rsp).blocked = s.blocked := by
  have hl := leaveCurrent_leaves s rsp
  have hsame : ∀ t : Table, t.procs = s.procs → (∀ q, t.pid q = s.view.pid q) →
      t.find pid = s.view.find pid := fun t hprocs hpid => find_congr hprocs hpid pid
  show (leaveCurrent s rsp).view.find pid = s.view.find pid ∧ (leaveCurrent s rsp).view.blocked = _
  generalize (leaveCurrent s rsp).view = t at hl
  cases hl with
  | stays h => exact ⟨rfl, rfl⟩
  | @freed c hc hst => exact ⟨hsame _ rfl (pid_free s.view c), rfl⟩
  | requeued hc hst ha => exact ⟨hsame _ rfl fun q => pid_mark _ _ q .READY, rfl⟩
  | refused hc hst ha => exact ⟨hsame _ rfl fun q => pid_mark _ _ q .READY, rfl⟩

theorem idleAvailable_of_standby (h : Sturdy s.view ∧ Standby i s.view) : IdleAvailable i s := by
  obtain ⟨hs, hb⟩ := h
  have hfind : findProcess s IDLE_PID = some i := hb.find_idle hs
  refine ⟨hfind, hb.place.imp And.left And.left, fun rsp hr p hp => ?_, fun rsp => ?_⟩
  · obtain ⟨hf, hblocked⟩ := leaveCurrent_keeps s rsp IDLE_PID
    rw [hblocked]
    cases (hf.symm.trans hp).symm.trans hfind
    exact hb.unblocked
  · unfold switch
    split
    · rename_i hpid
      have hm : i ∈ s.ready := hb.ready_of_left hs (Or.inl hpid)
      split
      · rename_i hg
        have hnil : s.ready = [] := (getFirstData_none hg).1
        simp [hnil] at hm
      · exact ⟨_, _, rfl⟩
    · dsimp only
      split
      · rename_i hg
        have hf : findProcess (leaveCurrent s rsp) IDLE_PID = some i :=
          (leaveCurrent_keeps s rsp IDLE_PID).1.trans hfind
        obtain ⟨-, rfl, rfl⟩ := getFirstData_none hg
        rw [show findProcess { leaveCurrent s rsp with
          readyProcess := (leaveCurrent s rsp).readyProcess, heap := (leaveCurrent s rsp).heap }
          IDLE_PID = some i from hf]
        exact ⟨_, _, rfl⟩
      · exact ⟨_, _, rfl⟩

/-! ## Every run -/

theorem standby_booted {boot : Scheduler H} (h : Booted boot)
    (hidle : findProcess boot IDLE_PID = some i) (hready : i ∈ boot.ready) :
    Standby i boot.view := by
  obtain ⟨rip, heap, hc, -⟩ := h
  obtain ⟨s₀, args, hempty, rfl⟩ := createScheduler_makes_idle hc
  have hcreation := createProcess_creation s₀ rip args 1 MIN_PRIORITY (some idleDescriptors) 1
  generalize createProcess s₀ rip args 1 MIN_PRIORITY (some idleDescriptors) 1 = r at *
  have hno : ∀ {s : Scheduler H} {t : Table}, s.view = t → t.ready = s₀.view.ready →
      i ∉ s.ready := by
    rintro s _ rfl ht hm
    rw [show s.ready = [] from ht.trans hempty.ready] at hm
    cases hm
  cases hcreation with
  | full hqty => exact absurd hready (hno rfl rfl)
  | noBlock ha hv => exact absurd hready (hno hv rfl)
  | noPid hn hv => exact absurd hready (hno hv rfl)
  | notFilled ha hi hv => exact absurd hready (hno hv rfl)
  | @created s' block heap pid r c hqty ha hn hi hr hv =>
    obtain ⟨hpid, hst, _, hground, hfds, hwait⟩ := initializeProcess_filled hi hr
    have hpcb : (s₀.view.alloc (entry c)).pcb s₀.pcbQty = entry c := set_pcb_self _ _ _
    obtain ⟨procs, ready, -, hrd, hadd⟩ := addProcess_filled hv hst
    have hready₀ : s₀.ready = [] := hempty.ready
    have hmem : ∀ q ∈ ready, q = s₀.pcbQty := fun q hq => by
      rcases hrd with ⟨rfl, -⟩ | ⟨rfl, -⟩ <;> simp_all
    obtain ⟨hlisted, hpid0⟩ := findProcess_some hidle
    have hr' : i ∈ (addProcess s' s₀.pcbQty).view.ready := hready
    have hp' : i ∈ (addProcess s' s₀.pcbQty).view.procs := hlisted
    have hpid' : (addProcess s' s₀.pcbQty).view.pid i = IDLE_PID := hpid0
    show Standby i (addProcess s' s₀.pcbQty).view
    rw [hadd] at hr' hp' hpid' ⊢
    cases hmem i hr'
    refine ⟨hp', hpid', ?_, (congrArg Entry.fds hpcb).trans hfds, ?_,
      Or.inr ⟨hr', (congrArg Entry.status hpcb).trans hst⟩, fun q hq _ _ => ?_,
      fun q hq => hempty.frees q, fun q hq => ?_⟩
    · have hground' : (entry c).ground = 1 := hground
      simp [hpcb, hground']
    · simp [Table.alloc, hempty.blocked]
    · have hlt : q < s₀.view.pcbQty + 1 := hq
      have hzero : s₀.pcbQty = 0 := hempty.pcbQty
      rw [hempty.pcbQty] at hlt
      omega
    · cases hmem q hq
      have hready' : (entry c).status = .READY := hst
      simp [Table.status, hpcb, hready']

/-- In every run, whatever the heap answers otherwise. -/
theorem idle_is_available_while_it_is_left_alone {boot : Scheduler H} (h : Booted boot)
    (hidle : findProcess boot IDLE_PID = some i) (hready : i ∈ boot.ready)
    (events : List KernelEvent) (hok : Meets onEvent leavesIdleAlone boot events) :
    IdleAvailable i (run onEvent boot events) :=
  idleAvailable_of_standby
    (run_invariant (I := fun s : Scheduler H => Sturdy s.view ∧ Standby i s.view)
      (fun _ e hs he => standby_step e hs he)
      ⟨sturdy_booted h, standby_booted h hidle hready⟩ hok)

/-- The shell, pid 1, gets the processor and idle is in the ready queue. -/
def shellEvents : List KernelEvent :=
  [.call (.createProcess 2 none 0 1 none 0), .call (.schedule 3), .call (.schedule 4)]

/-- The shell blocks itself, and idle gets the processor. -/
theorem idle_is_available_when_the_shell_blocks :
    IdleAvailable 0 (run onEvent endlessBoot (shellEvents ++ [.call (.blockProcess 1 5)])) :=
  idle_is_available_while_it_is_left_alone booted_endlessBoot (by decide +kernel)
    (by decide +kernel) _ (by decide +kernel)

/-- The shell blocks pid 0, and idle is nowhere to be had; then it blocks itself, and the
fallback dispatches idle out of the blocked queue. Or it kills pid 0, and then the switch
has nobody, and pid 0 goes to the next process. -/
theorem a_block_or_a_kill_of_pid_0_takes_idle_away :
    ¬ IdleAvailable 0 (run onEvent endlessBoot (shellEvents ++ [.call (.blockProcess 0 5)])) ∧
      (run onEvent endlessBoot (shellEvents ++ [.call (.blockProcess 0 5),
        .call (.blockProcess 1 6)])).currentProcess = some 0 ∧
      0 ∈ (run onEvent endlessBoot (shellEvents ++ [.call (.blockProcess 0 5),
        .call (.blockProcess 1 6)])).blocked ∧
      (run onEvent endlessBoot (shellEvents ++ [.call (.killProcess 0),
        .call (.blockProcess 1 5)])).currentProcess = some 1 ∧
      findProcess (run onEvent endlessBoot (shellEvents ++ [.call (.killProcess 0),
        .call (.createProcess 2 none 0 1 none 0)])) IDLE_PID = some 2 := by
  refine ⟨fun h => absurd h.available ?_, by decide +kernel, by decide +kernel, by decide +kernel,
    by decide +kernel⟩
  decide +kernel

end bare_bones.scheduler
