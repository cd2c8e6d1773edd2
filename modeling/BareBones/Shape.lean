-- Who owns the blocks of the scheduler. A process in the process list owns its
-- blocks, and so does one that was killed while it ran, until `schedule` frees
-- it. What the queues and the process list look like for this to be right,
-- whatever the heap answers, is `Shape`; the changes that keep it are here.
import BareBones.Books

namespace bare_bones.scheduler

open accounts bare_bones.doubleLinkedList bare_bones.process Scheduler

variable {H : Type}

/-- The process that was killed while it ran, until `schedule` frees it. -/
def doomed (s : Scheduler H) : List Pcb :=
  s.currentProcess.toList.filter fun p => s.status p = .TERMINATED

def owners (s : Scheduler H) : List Pcb := s.procs ++ doomed s

theorem doomed_of_current {s : Scheduler H} {p : Pcb} (hc : s.currentProcess = some p)
    (ht : s.status p ≠ .TERMINATED) : doomed s = [] := by
  simp [doomed, hc, ht]

theorem owners_of_not_doomed {s : Scheduler H} (h : doomed s = []) : owners s = s.procs := by
  rw [owners, h, List.append_nil]

/-- Who does not run is not doomed. -/
theorem doomed_of_ne {s s' : Scheduler H} {p : Pcb} (hp : s.currentProcess ≠ some p)
    (hc : s'.currentProcess = s.currentProcess) (hpcb : ∀ q, q ≠ p → s'.status q = s.status q) :
    doomed s' = doomed s := by
  unfold doomed
  rw [hc]
  apply List.filter_congr
  intro q hq
  rw [hpcb q fun hqp => hp (hqp ▸ Option.mem_toList.mp hq)]

/-- Who is where, whatever the heap answers: no queue has a process twice or a
process that was freed, and the process that runs was not freed. -/
structure Shape (s : Scheduler H) : Prop where
  procs_nodup : s.procs.Nodup
  ready_nodup : s.ready.Nodup
  blocked_nodup : s.blocked.Nodup
  alive : ∀ p ∈ s.procs, s.status p ≠ .TERMINATED
  live : ∀ p ∈ s.procs, s.frees p = 0 ∧ p < s.pcbQty
  pid : ∀ p ∈ s.procs, s.pid p ≠ NO_PROCESS
  ready : ∀ p ∈ s.ready, p ∈ s.procs ∧ s.status p = .READY
  blocked : ∀ p ∈ s.blocked, p ∈ s.procs ∧ s.status p = .BLOCKED
  idle : ∀ p ∈ s.procs, s.pid p = IDLE_PID → s.status p ≠ .BLOCKED
  current : ∀ p, s.currentProcess = some p → s.currentPid ≠ NO_PROCESS ∧
    s.frees p = 0 ∧ p < s.pcbQty ∧ (p ∈ s.procs ∨ s.status p = .TERMINATED)
  fresh : ∀ p, s.pcbQty ≤ p → s.frees p = 0

/-- `Shape` reads no block. -/
theorem Shape.same {s s' : Scheduler H} (h : Shape s) (hprocs : s'.procs = s.procs)
    (hready : s'.ready = s.ready) (hblocked : s'.blocked = s.blocked)
    (hcur : s'.currentProcess = s.currentProcess) (hcurPid : s'.currentPid = s.currentPid)
    (hqty : s'.pcbQty = s.pcbQty) (hfrees : s'.frees = s.frees) (hpid : ∀ q, s'.pid q = s.pid q)
    (hst : ∀ q, s'.status q = s.status q) : Shape s' := by
  refine ⟨hprocs ▸ h.procs_nodup, hready ▸ h.ready_nodup, hblocked ▸ h.blocked_nodup,
    ?_, ?_, ?_, ?_, ?_, ?_, ?_, ?_⟩
  all_goals simp only [hprocs, hready, hblocked, hcur, hcurPid, hqty, hfrees, hpid, hst]
  · exact h.alive
  · exact h.live
  · exact h.pid
  · exact h.ready
  · exact h.blocked
  · exact h.idle
  · exact h.current
  · exact h.fresh

theorem blocks_setStatus (s : Scheduler H) (p q : Pcb) (st : ProcessState) :
    ((s.setStatus p st).pcb q).blocks = (s.pcb q).blocks := by
  by_cases h : q = p
  · subst h
    simp only [setStatus, setPcb, Function.update_self]
    rfl
  · simp [setStatus, setPcb, h]

theorem status_setStatus_self (s : Scheduler H) (p : Pcb) (st : ProcessState) :
    (s.setStatus p st).status p = st := (status_setStatus s p p st).trans (if_pos rfl)

variable [Accountable H]

/-- What every call does: `Shape` stays, and the books are right. -/
structure Balances (s s' : Scheduler (Audited H)) : Prop where
  shape : Shape s'
  books : Books (owners s) s (owners s') s'

theorem Balances.refl {s : Scheduler (Audited H)} (h : Shape s) : Balances s s := ⟨h, .refl _ _⟩

theorem Balances.trans {s s' s'' : Scheduler (Audited H)} (h : Balances s s')
    (h' : Balances s' s'') : Balances s s'' := ⟨h'.shape, h.books.trans h'.books⟩

/-! ## Moves between the queues -/

/-- On the way from `s` to `s'` the nodes of the queues change, and the status
of `p`. -/
structure Moves (p : Pcb) (s s' : Scheduler (Audited H)) : Prop where
  procs : s'.processList = s.processList
  pid : ∀ q, s'.pid q = s.pid q
  pcbQty : s'.pcbQty = s.pcbQty
  frees : s'.frees = s.frees
  current : s'.currentProcess = s.currentProcess
  currentPid : s'.currentPid = s.currentPid
  others : ∀ q, q ≠ p → s'.status q = s.status q
  blocks : ∀ q, (s'.pcb q).blocks = (s.pcb q).blocks
  trades : Audited.Trades s.heap s'.heap (s.readyProcess.blocks + s.blockedProcess.blocks)
    (s'.readyProcess.blocks + s'.blockedProcess.blocks)

namespace Moves

variable {p : Pcb} {s s' : Scheduler (Audited H)}

theorem refl (p : Pcb) (s : Scheduler (Audited H)) : Moves p s s :=
  ⟨rfl, fun _ => rfl, rfl, rfl, rfl, rfl, fun _ _ => rfl, fun _ => rfl, .refl _ _⟩

theorem queues (hm : Moves p s s') (r b : DoubleLinkedList Pcb) {heap : Audited H}
    (ht : Audited.Trades s'.heap heap (s'.readyProcess.blocks + s'.blockedProcess.blocks)
      (r.blocks + b.blocks)) :
    Moves p s { s' with readyProcess := r, blockedProcess := b, heap := heap } :=
  ⟨hm.procs, hm.pid, hm.pcbQty, hm.frees, hm.current, hm.currentPid, hm.others, hm.blocks,
    hm.trades.trans ht⟩

theorem setPcb {c : ProcessContext} (hm : Moves p s s') (hpid : c.pid = s'.pid p)
    (hblocks : c.blocks = (s'.pcb p).blocks) : Moves p s (s'.setPcb p c) where
  procs := hm.procs
  pid q := by
    rw [← hm.pid]
    by_cases h : q = p
    · subst h
      simpa [Scheduler.setPcb, Scheduler.pid] using hpid
    · simp [Scheduler.setPcb, Scheduler.pid, h]
  pcbQty := hm.pcbQty
  frees := hm.frees
  current := hm.current
  currentPid := hm.currentPid
  others q hq := by
    rw [← hm.others q hq]
    simp [Scheduler.setPcb, Scheduler.status, hq]
  blocks q := by
    rw [← hm.blocks]
    by_cases h : q = p
    · subst h
      simpa [Scheduler.setPcb] using hblocks
    · simp [Scheduler.setPcb, h]
  trades := hm.trades

theorem mark (hm : Moves p s s') (st : ProcessState) : Moves p s (s'.setStatus p st) :=
  hm.setPcb rfl rfl

theorem shape (hm : Moves p s s') (h : Shape s) (hp : p ∈ s.procs)
    (halive : s'.status p ≠ .TERMINATED) (hidle : s'.status p = .BLOCKED → s.pid p ≠ IDLE_PID)
    (hrn : s'.ready.Nodup)
    (hr : ∀ q ∈ s'.ready, q ≠ p ∧ q ∈ s.ready ∨ q = p ∧ s'.status p = .READY)
    (hbn : s'.blocked.Nodup)
    (hb : ∀ q ∈ s'.blocked, q ≠ p ∧ q ∈ s.blocked ∨ q = p ∧ s'.status p = .BLOCKED) :
    Shape s' := by
  have hprocs : s'.procs = s.procs := congrArg DoubleLinkedList.data hm.procs
  have hothers := hm.others
  refine ⟨hprocs ▸ h.procs_nodup, hrn, hbn, ?_, ?_, ?_, ?_, ?_, ?_, ?_, ?_⟩
  all_goals simp only [hprocs, hm.pid, hm.pcbQty, hm.frees, hm.current, hm.currentPid]
  · intro q hq
    have := h.alive q hq
    grind
  · exact h.live
  · exact h.pid
  · intro q hq
    have := h.ready q
    grind
  · intro q hq
    have := h.blocked q
    grind
  · intro q hq hi
    have := h.idle q hq hi
    grind
  · intro q hq
    have := h.current q hq
    have := h.alive p hp
    grind
  · exact h.fresh

/-- Nobody changes its queue or its status. -/
theorem shape_same (hm : Moves p s s') (h : Shape s) (hp : p ∈ s.procs)
    (hst : s'.status p = s.status p) (hr : s'.ready = s.ready) (hb : s'.blocked = s.blocked) :
    Shape s' := by
  refine hm.shape h hp (hst ▸ h.alive p hp) (fun hb hi => h.idle p hp hi (hst ▸ hb))
    (hr ▸ h.ready_nodup) ?_ (hb ▸ h.blocked_nodup) ?_
  · intro q hq
    have := h.ready q
    grind
  · intro q hq
    have := h.blocked q
    grind

theorem owners_eq (hm : Moves p s s') (ht : s.status p ≠ .TERMINATED)
    (ht' : s'.status p ≠ .TERMINATED) : owners s' = owners s := by
  have hst : ∀ q, (s'.status q = .TERMINATED) = (s.status q = .TERMINATED) := by
    intro q
    by_cases hq : q = p
    · subst hq
      simp [ht, ht']
    · rw [hm.others q hq]
  unfold owners doomed
  simp only [hst, hm.current, Scheduler.procs, hm.procs]

theorem books (hm : Moves p s s') (ht : s.status p ≠ .TERMINATED)
    (ht' : s'.status p ≠ .TERMINATED) : Books (owners s) s (owners s') s' := by
  rw [hm.owners_eq ht ht']
  refine .of_lists ?_ (fun q _ => hm.blocks q)
  unfold lists
  rw [hm.procs, add_assoc, add_assoc]
  exact hm.trades.frame_left _

end Moves

/-- Neither queue has `p`. -/
def Out (p : Pcb) (s : Scheduler (Audited H)) : Prop := p ∉ s.ready ∧ p ∉ s.blocked

/-! ## The process list -/

/-- A process that is nowhere may change, and be freed. -/
theorem Shape.forget {s s' : Scheduler (Audited H)} (h : Shape s) {p : Pcb} (hp : p ∉ s.procs)
    (hcurrent : s.currentProcess ≠ some p) (hqty : p < s.pcbQty)
    (hprocs : s'.procs = s.procs) (hready : s'.ready = s.ready) (hblocked : s'.blocked = s.blocked)
    (hcur : s'.currentProcess = s.currentProcess) (hcurPid : s'.currentPid = s.currentPid)
    (hpcbQty : s'.pcbQty = s.pcbQty) (hpcb : ∀ q, q ≠ p → s'.pcb q = s.pcb q)
    (hfrees : ∀ q, q ≠ p → s'.frees q = s.frees q) : Shape s' := by
  have hne : ∀ q ∈ s.procs, q ≠ p := fun q hq hqp => hp (hqp ▸ hq)
  have hstatus : ∀ q, q ≠ p → s'.status q = s.status q := fun q hq =>
    congrArg ProcessContext.status (hpcb q hq)
  have hpid : ∀ q, q ≠ p → s'.pid q = s.pid q := fun q hq => congrArg ProcessContext.pid (hpcb q hq)
  refine ⟨hprocs ▸ h.procs_nodup, hready ▸ h.ready_nodup, hblocked ▸ h.blocked_nodup,
    ?_, ?_, ?_, ?_, ?_, ?_, ?_, ?_⟩
  all_goals simp only [hprocs, hready, hblocked, hcur, hcurPid, hpcbQty]
  · intro q hq
    rw [hstatus q (hne q hq)]
    exact h.alive q hq
  · intro q hq
    rw [hfrees q (hne q hq)]
    exact h.live q hq
  · intro q hq
    rw [hpid q (hne q hq)]
    exact h.pid q hq
  · intro q hq
    rw [hstatus q (hne q (h.ready q hq).1)]
    exact h.ready q hq
  · intro q hq
    rw [hstatus q (hne q (h.blocked q hq).1)]
    exact h.blocked q hq
  · intro q hq
    rw [hstatus q (hne q hq), hpid q (hne q hq)]
    exact h.idle q hq
  · intro q hq
    have hqp : q ≠ p := fun hqp => hcurrent (hqp ▸ hq)
    rw [hfrees q hqp, hstatus q hqp]
    exact h.current q hq
  · intro q hq
    rw [hfrees q (Nat.ne_of_gt (Nat.lt_of_lt_of_le hqty hq))]
    exact h.fresh q hq

/-- A process outside the queues leaves the process list. -/
theorem Shape.drop {s s' : Scheduler (Audited H)} (h : Shape s) {p : Pcb} (hout : Out p s)
    (hprocs : s'.procs = s.procs.erase p) (hready : s'.ready = s.ready)
    (hblocked : s'.blocked = s.blocked) (hcur : s'.currentProcess = s.currentProcess)
    (hcurPid : s'.currentPid = s.currentPid) (hqty : s'.pcbQty = s.pcbQty)
    (hfrees : s'.frees = s.frees) (hpid : ∀ q, s'.pid q = s.pid q)
    (hst : ∀ q, s'.status q = if q = p then .TERMINATED else s.status q) : Shape s' := by
  have hmem : ∀ q, q ∈ s.procs.erase p ↔ q ≠ p ∧ q ∈ s.procs := fun q =>
    h.procs_nodup.mem_erase_iff
  refine ⟨hprocs ▸ h.procs_nodup.erase p, hready ▸ h.ready_nodup, hblocked ▸ h.blocked_nodup,
    ?_, ?_, ?_, ?_, ?_, ?_, ?_, ?_⟩
  all_goals simp only [hprocs, hready, hblocked, hcur, hcurPid, hqty, hfrees, hpid, hst, hmem]
  · intro q hq
    rw [if_neg hq.1]
    exact h.alive q hq.2
  · exact fun q hq => h.live q hq.2
  · exact fun q hq => h.pid q hq.2
  · intro q hq
    have hqp : q ≠ p := fun hqp => hout.1 (hqp ▸ hq)
    rw [if_neg hqp]
    exact ⟨⟨hqp, (h.ready q hq).1⟩, (h.ready q hq).2⟩
  · intro q hq
    have hqp : q ≠ p := fun hqp => hout.2 (hqp ▸ hq)
    rw [if_neg hqp]
    exact ⟨⟨hqp, (h.blocked q hq).1⟩, (h.blocked q hq).2⟩
  · intro q hq
    rw [if_neg hq.1]
    exact h.idle q hq.2
  · intro q hq
    obtain ⟨hno, hf, hlt, hin⟩ := h.current q hq
    refine ⟨hno, hf, hlt, ?_⟩
    by_cases hqp : q = p
    · exact Or.inr (if_pos hqp)
    · rw [if_neg hqp]
      exact hin.imp_left fun hq => ⟨hqp, hq⟩
  · exact h.fresh

/-- A new process enters the process list, and the ready queue if there is a node. -/
theorem Shape.join {s s' : Scheduler (Audited H)} (h : Shape s) {p : Pcb} (hp : p ∉ s.procs)
    (hlt : p < s.pcbQty) (hfrees : s.frees p = 0) (hst : s.status p = .READY)
    (hpid : s.pid p ≠ NO_PROCESS) (hprocs : s'.procs = s.procs ++ [p])
    (hready : s'.ready = s.ready ∨ s'.ready = s.ready ++ [p]) (hblocked : s'.blocked = s.blocked)
    (hcur : s'.currentProcess = s.currentProcess) (hcurPid : s'.currentPid = s.currentPid)
    (hpcbQty : s'.pcbQty = s.pcbQty) (hfrees' : s'.frees = s.frees) (hpcb : s'.pcb = s.pcb) :
    Shape s' := by
  have hst' : ∀ q, s'.status q = s.status q := fun q => by rw [Scheduler.status, hpcb]; rfl
  have hpid' : ∀ q, s'.pid q = s.pid q := fun q => by rw [Scheduler.pid, hpcb]; rfl
  have hmem : ∀ q, q ∈ s.procs ++ [p] ↔ q ∈ s.procs ∨ q = p := by simp
  have hout : p ∉ s.ready := fun hm => hp (h.ready p hm).1
  have hprocs_nodup : s'.procs.Nodup := by
    rw [hprocs, ← List.concat_eq_append]
    exact List.Nodup.concat hp h.procs_nodup
  have hready_nodup : s'.ready.Nodup := by
    rcases hready with hr | hr
    · exact hr ▸ h.ready_nodup
    · rw [hr, ← List.concat_eq_append]
      exact List.Nodup.concat hout h.ready_nodup
  refine ⟨hprocs_nodup, hready_nodup, hblocked ▸ h.blocked_nodup, ?_, ?_, ?_, ?_, ?_, ?_, ?_, ?_⟩
  all_goals simp only [hprocs, hblocked, hcur, hcurPid, hpcbQty, hfrees', hst', hpid', hmem]
  · rintro q (hq | rfl)
    · exact h.alive q hq
    · simp [hst]
  · rintro q (hq | rfl)
    · exact h.live q hq
    · exact ⟨hfrees, hlt⟩
  · rintro q (hq | rfl)
    · exact h.pid q hq
    · exact hpid
  · intro q hq
    have := h.ready q
    grind
  · exact fun q hq => ⟨Or.inl (h.blocked q hq).1, (h.blocked q hq).2⟩
  · rintro q (hq | rfl) hi
    · exact h.idle q hq hi
    · simp [hst]
  · intro q hq
    obtain ⟨hno, hf, hlt', hin⟩ := h.current q hq
    exact ⟨hno, hf, hlt', hin.imp_left Or.inl⟩
  · exact h.fresh

theorem free_pcb_ne (s : Scheduler (Audited H)) {p q : Pcb} (hq : q ≠ p) :
    (s.free p).pcb q = s.pcb q := by
  simp [Scheduler.free, hq]

theorem Shape.free {s : Scheduler (Audited H)} (h : Shape s) {p : Pcb} (hp : p ∉ s.procs)
    (hcurrent : s.currentProcess ≠ some p) (hqty : p < s.pcbQty) : Shape (s.free p) :=
  h.forget hp hcurrent hqty rfl rfl rfl rfl rfl rfl (fun _ hq => free_pcb_ne s hq)
    (fun q hq => by simp [Scheduler.free, hq])

theorem Books.free {o : List Pcb} {p : Pcb} (hp : p ∉ o) (s : Scheduler (Audited H)) :
    Books (p :: o) s o (s.free p) :=
  .of_freed (trades_freeProcess _ _) rfl fun q hq => by
    have hne : q ≠ p := fun hqp => hp (hqp ▸ hq)
    rw [free_pcb_ne s hne]

end bare_bones.scheduler
