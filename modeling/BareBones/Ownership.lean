-- The calls of `scheduler.c` and `process.c` keep the books: whatever the heap
-- answers, each of them frees only blocks that it owns, and gives every block
-- that it takes an owner or back.
import BareBones.Shape

namespace bare_bones.scheduler

open accounts bare_bones.doubleLinkedList bare_bones.process Scheduler

variable {H : Type} [Accountable H]

/-! ## Waking -/

/-- What `setReadyProcess` can do: nothing, or it takes a process out of the
blocked queue, and lets it in at the end of the ready queue if there is a node. -/
theorem setReadyProcess_cases (s : Scheduler (Audited H)) (pid : Int) :
    (setReadyProcess s pid).2 = s ∨
      ∃ p ∈ s.procs, s.status p = .BLOCKED ∧ p ∈ s.blocked ∧
        Moves p s (setReadyProcess s pid).2 ∧
        (setReadyProcess s pid).2.blocked = s.blocked.erase p ∧
        ((setReadyProcess s pid).2.ready = s.ready ∧
            (setReadyProcess s pid).2.status p = .BLOCKED ∨
          (setReadyProcess s pid).2.ready = s.ready ++ [p] ∧
            (setReadyProcess s pid).2.status p = .READY) := by
  unfold setReadyProcess
  split
  · exact Or.inl rfl
  rename_i p hf
  split
  case isFalse => exact Or.inl rfl
  rename_i hblocked
  split
  · exact Or.inl rfl
  rename_i b heap hrem
  obtain ⟨hmem, hdata⟩ := removeNode_some hrem
  have tb := trades_removeNode s.blockedProcess p s.heap
  rw [hrem] at tb
  refine Or.inr ⟨p, (findProcess_some hf).1, hblocked, hmem, ?_⟩
  dsimp only
  have tr := trades_addNode s.readyProcess p heap
  split
  · rename_i r heap' hadd
    rw [hadd] at tr
    obtain rfl := addNode_none hadd
    exact ⟨.queues (.refl p s) _ b ((tb.frame_left _).trans (tr.frame _)), hdata,
      Or.inl ⟨rfl, hblocked⟩⟩
  · rename_i a r heap' hadd
    rw [hadd] at tr
    exact ⟨((Moves.refl p s).queues r b ((tb.frame_left _).trans (tr.frame _))).mark .READY, hdata,
      Or.inr ⟨addNode_some hadd, status_setStatus_self _ p _⟩⟩

theorem balances_setReadyProcess {s : Scheduler (Audited H)} (h : Shape s) (pid : Int) :
    Balances s (setReadyProcess s pid).2 := by
  rcases setReadyProcess_cases s pid with he | ⟨p, hp, hst, hmem, hm, hb, hr⟩
  · rw [he]
    exact .refl h
  have hout : p ∉ s.ready := fun hm => by
    have := (h.ready p hm).2
    simp [hst] at this
  have ht' : (setReadyProcess s pid).2.status p ≠ .TERMINATED := by
    rcases hr with ⟨-, hst'⟩ | ⟨-, hst'⟩ <;> simp [hst']
  refine ⟨hm.shape h hp ht' ?_ ?_ ?_ ?_ ?_, hm.books (by simp [hst]) ht'⟩
  · exact fun _ hi => h.idle p hp hi hst
  · rcases hr with ⟨hr, -⟩ | ⟨hr, -⟩
    · exact hr ▸ h.ready_nodup
    · rw [hr, ← List.concat_eq_append]
      exact List.Nodup.concat hout h.ready_nodup
  · intro q hq
    grind
  · exact hb ▸ h.blocked_nodup.erase p
  · intro q hq
    exact Or.inl (h.blocked_nodup.mem_erase_iff.mp (hb ▸ hq))

/-- Whoever is out of the queues stays out. -/
theorem out_setReadyProcess {s : Scheduler (Audited H)} (pid : Int) {p : Pcb} (hp : Out p s) :
    Out p (setReadyProcess s pid).2 := by
  rcases setReadyProcess_cases s pid with he | ⟨q, -, -, hmem, -, hb, hr⟩
  · rw [he]
    exact hp
  refine ⟨?_, fun hm => hp.2 (List.mem_of_mem_erase (hb ▸ hm))⟩
  rcases hr with ⟨hr, -⟩ | ⟨hr, -⟩
  · exact hr ▸ hp.1
  · rw [hr, List.mem_append, List.mem_singleton]
    rintro (hm | rfl)
    · exact hp.1 hm
    · exact hp.2 hmem

/-! ## The processor -/

/-- The middle of `blockProcess`, before the switch: a process leaves the ready
queue, and enters the blocked queue if there is a node. -/
theorem blockProcess_cases {s : Scheduler (Audited H)} (h : Shape s) (pid : Int) (rsp : Addr) :
    ∃ t, ((blockProcess s pid rsp).2 = t ∨ (blockProcess s pid rsp).2 = yield t rsp) ∧
      (t = s ∨ ∃ p ∈ s.procs, s.pid p = pid ∧ (s.status p = .RUNNING ∨ s.status p = .READY) ∧
        Moves p s t ∧ t.ready = s.ready.erase p ∧
        (t.blocked = s.blocked ∧ t.status p = s.status p ∨
          t.blocked = s.blocked ++ [p] ∧ t.status p = .BLOCKED)) := by
  unfold blockProcess
  split
  · exact ⟨s, Or.inl rfl, Or.inl rfl⟩
  rename_i p hf
  obtain ⟨hp, hpid⟩ := findProcess_some hf
  split
  case isFalse =>
    refine ⟨s, ?_, Or.inl rfl⟩
    split
    · exact Or.inr rfl
    · exact Or.inl rfl
  rename_i hst
  have hleave : ∀ (x : Pcb) (r : DoubleLinkedList Pcb) (heap : Audited H),
      (if s.status p = .READY then removeNode s.readyProcess p s.heap
        else (some p, s.readyProcess, s.heap)) = (some x, r, heap) →
      r.data = s.ready.erase p ∧
        Audited.Trades s.heap heap s.readyProcess.blocks r.blocks := by
    intro x r heap hrem
    split at hrem
    · have tr := trades_removeNode s.readyProcess p s.heap
      rw [hrem] at tr
      exact ⟨(removeNode_some hrem).2, tr⟩
    · rename_i hnr
      cases hrem
      refine ⟨(List.erase_of_not_mem fun hm => hnr (h.ready p hm).2).symm, .refl _ _⟩
  split
  · exact ⟨s, Or.inl rfl, Or.inl rfl⟩
  rename_i x r heap hrem
  obtain ⟨hready, tr⟩ := hleave x r heap hrem
  dsimp only
  have tb := trades_addNode s.blockedProcess p heap
  split
  · rename_i b heap' hadd
    rw [hadd] at tb
    obtain rfl := addNode_none hadd
    exact ⟨{ s with readyProcess := r, heap := heap' }, Or.inl rfl, Or.inr ⟨p, hp, hpid, hst,
      .queues (.refl p s) r _ ((tr.frame _).trans (tb.frame_left _)), hready, Or.inl ⟨rfl, rfl⟩⟩⟩
  · rename_i a b heap' hadd
    rw [hadd] at tb
    have hm := ((Moves.refl p s).queues r b ((tr.frame _).trans (tb.frame_left _))).mark .BLOCKED
    refine ⟨_, ?_, Or.inr ⟨p, hp, hpid, hst, hm, hready,
      Or.inr ⟨addNode_some hadd, status_setStatus_self _ p _⟩⟩⟩
    split
    · exact Or.inr rfl
    · exact Or.inl rfl

/-- The process that runs gives the processor back. One that was killed is freed. -/
theorem balances_leaveCurrent {s : Scheduler (Audited H)} (h : Shape s) (prevRSP : Addr) :
    Balances s (leaveCurrent s prevRSP) ∧ doomed (leaveCurrent s prevRSP) = [] := by
  unfold leaveCurrent
  split
  · rename_i hnone
    exact ⟨.refl h, by simp [doomed, hnone]⟩
  rename_i p hcurrent
  obtain ⟨hpid, hfrees, hqty, hin⟩ := h.current p hcurrent
  split
  · rename_i ht
    have hp : p ∉ s.procs := fun hp => h.alive p hp ht
    have hnobody : Shape { s with currentProcess := none, currentPid := NO_PROCESS } :=
      ⟨h.procs_nodup, h.ready_nodup, h.blocked_nodup, h.alive, h.live, h.pid, h.ready, h.blocked,
        h.idle, fun q hq => (by cases hq), h.fresh⟩
    refine ⟨⟨hnobody.free hp (by simp) hqty, ?_⟩, rfl⟩
    have howners : owners s = s.procs ++ [p] := by
      simp [owners, doomed, hcurrent, ht]
    have howners' : owners { s.free p with currentProcess := none, currentPid := NO_PROCESS } =
        s.procs := List.append_nil _
    rw [howners, howners']
    exact (Books.perm (List.perm_append_singleton p s.procs)).trans
      ((Books.free hp s).trans (.of_same rfl rfl fun _ _ => rfl))
  · rename_i ht
    have hp : p ∈ s.procs := hin.resolve_right ht
    have hm := (Moves.refl p s).setPcb (c := { s.pcb p with stackPos := prevRSP }) rfl rfl
    have hst : (s.setPcb p { s.pcb p with stackPos := prevRSP }).status p = s.status p := by
      simp [Scheduler.setPcb, Scheduler.status]
    have hr : (s.setPcb p { s.pcb p with stackPos := prevRSP }).ready = s.ready := rfl
    have hb : (s.setPcb p { s.pcb p with stackPos := prevRSP }).blocked = s.blocked := rfl
    dsimp only
    generalize s.setPcb p { s.pcb p with stackPos := prevRSP } = s₁ at hm hst hr hb
    split
    · rename_i hrunning
      have hready : p ∉ s.ready := fun hm => by
        have := (h.ready p hm).2
        simp [← hst, hrunning] at this
      have hblocked : p ∉ s.blocked := fun hm => by
        have := (h.blocked p hm).2
        simp [← hst, hrunning] at this
      have hm' := hm.mark .READY
      have hst' : (s₁.setStatus p .READY).status p = .READY := status_setStatus_self s₁ p _
      have hr' : (s₁.setStatus p .READY).readyProcess.data = s.ready := hr
      have hb' : (s₁.setStatus p .READY).blocked = s.blocked := hb
      generalize s₁.setStatus p .READY = s₂ at hm' hst' hr' hb'
      have tr := trades_addNode s₂.readyProcess p s₂.heap
      have hdata := addNode_data s₂.readyProcess p s₂.heap
      generalize addNode s₂.readyProcess p s₂.heap = added at tr hdata
      obtain ⟨x, r, heap⟩ := added
      have hm₂ := hm'.queues r s₂.blockedProcess (tr.frame _)
      have hdata' : r.data = s.ready ++ [p] ∨ r.data = s.ready := by
        rcases hdata with ⟨hd, -⟩ | ⟨hd, -⟩
        · exact Or.inl (hr' ▸ hd)
        · exact Or.inr ((congrArg DoubleLinkedList.data hd).trans hr')
      have ht₂ : s₂.status p ≠ .TERMINATED := by simp [hst']
      refine ⟨⟨hm₂.shape h hp ht₂ (fun hb => ?_) ?_ (fun q hq => ?_) (hb' ▸ h.blocked_nodup)
        (fun q hq => Or.inl ?_), hm₂.books ht ht₂⟩,
        doomed_of_current (hm'.current.trans hcurrent) ht₂⟩
      · exact absurd (hst'.symm.trans hb) (by simp)
      · show r.data.Nodup
        rcases hdata' with hd | hd
        · rw [hd, ← List.concat_eq_append]
          exact List.Nodup.concat hready h.ready_nodup
        · rw [hd]
          exact h.ready_nodup
      · have hq' : q ∈ r.data := hq
        have hst₂ : s₂.status p = .READY := hst'
        by_cases hqp : q = p
        · exact Or.inr ⟨hqp, hst₂⟩
        · rcases hdata' with hd | hd
          · rw [hd] at hq'
            exact Or.inl ⟨hqp, (List.mem_append.mp hq').resolve_right (by simpa using hqp)⟩
          · exact Or.inl ⟨hqp, hd ▸ hq'⟩
      · have hq' : q ∈ s.blocked := hb' ▸ hq
        exact ⟨fun hqp => hblocked (hqp ▸ hq'), hq'⟩
    · have ht₁ : s₁.status p ≠ .TERMINATED := hst ▸ ht
      exact ⟨⟨hm.shape_same h hp hst hr hb, hm.books ht ht₁⟩,
        doomed_of_current (hm.current.trans hcurrent) ht₁⟩

/-- A process of the list gets the processor. -/
theorem balances_dispatch {s : Scheduler (Audited H)} (h : Shape s) (hd : doomed s = []) {p : Pcb}
    (hp : p ∈ s.procs) (hout : Out p s) : Balances s (dispatch s p).2 := by
  have hcurrent : Shape { s with
      currentProcess := some p, currentPid := s.pid p, quantums := (s.pcb p).priority } := by
    refine ⟨h.procs_nodup, h.ready_nodup, h.blocked_nodup, h.alive, h.live, h.pid, h.ready,
      h.blocked, h.idle, fun q hq => ?_, h.fresh⟩
    cases hq
    exact ⟨h.pid p hp, (h.live p hp).1, (h.live p hp).2, Or.inl hp⟩
  have hm := (Moves.refl p { s with
    currentProcess := some p, currentPid := s.pid p, quantums := (s.pcb p).priority }).mark .RUNNING
  have hst := status_setStatus_self { s with
    currentProcess := some p, currentPid := s.pid p, quantums := (s.pcb p).priority } p .RUNNING
  refine ⟨hm.shape hcurrent hp (by simp [hst]) (by simp [hst]) h.ready_nodup (fun q hq => ?_)
    h.blocked_nodup (fun q hq => ?_), ?_⟩
  · exact Or.inl ⟨fun hqp => hout.1 (hqp ▸ hq), hq⟩
  · exact Or.inl ⟨fun hqp => hout.2 (hqp ▸ hq), hq⟩
  · have hdoomed : doomed (dispatch s p).2 = [] := doomed_of_current (p := p) rfl (by
      have : (dispatch s p).2.status p = .RUNNING := hst
      simp [this])
    rw [owners_of_not_doomed hd, owners_of_not_doomed hdoomed]
    exact .of_same rfl rfl fun q _ => hm.blocks q

/-- The head of the ready queue gets the processor. -/
theorem balances_first {s : Scheduler (Audited H)} (h : Shape s) (hd : doomed s = []) {first : Pcb}
    {r : DoubleLinkedList Pcb} {heap : Audited H}
    (hfirst : getFirstData s.readyProcess s.heap = (some first, r, heap)) :
    Balances s (dispatch { s with readyProcess := r, heap := heap } first).2 := by
  have tr := trades_getFirstData s.readyProcess s.heap
  rw [hfirst] at tr
  have hready : s.ready = first :: r.data := getFirstData_some hfirst
  have hnodup := hready ▸ h.ready_nodup
  obtain ⟨hp, hst⟩ := h.ready first (hready ▸ List.mem_cons_self)
  have hm := (Moves.refl first s).queues r s.blockedProcess (tr.frame _)
  have hout : Out first { s with readyProcess := r, heap := heap } := by
    refine ⟨(List.nodup_cons.mp hnodup).1, fun hm => ?_⟩
    have := (h.blocked first hm).2
    simp [hst] at this
  have hshape : Shape { s with readyProcess := r, heap := heap } := by
    refine hm.shape h hp (h.alive first hp) (fun hb hi => h.idle first hp hi hb)
      (List.nodup_cons.mp hnodup).2 (fun q hq => Or.inl ⟨fun hqf => ?_, ?_⟩) h.blocked_nodup
      (fun q hq => Or.inl ⟨fun hqf => hout.2 (hqf ▸ hq), hq⟩)
    · exact hout.1 (hqf ▸ hq)
    · exact hready ▸ List.mem_cons_of_mem _ hq
  exact Balances.trans ⟨hshape, hm.books (h.alive first hp) (h.alive first hp)⟩
    (balances_dispatch hshape hd hp hout)

theorem balances_switch {s : Scheduler (Audited H)} (h : Shape s) (prevRSP : Addr) :
    Balances s (switch s prevRSP).2 := by
  unfold switch
  split
  · rename_i hno
    have hcurrent : s.currentProcess = none := by
      cases hc : s.currentProcess with
      | none => rfl
      | some p => exact absurd hno (h.current p hc).1
    split
    · rename_i r heap hfirst
      obtain ⟨-, rfl, rfl⟩ := getFirstData_none hfirst
      have : { s with currentProcess := none } = s := by rw [← hcurrent]
      dsimp only
      rw [this]
      exact .refl h
    · rename_i first r heap hfirst
      exact balances_first h (by simp [doomed, hcurrent]) hfirst
  · obtain ⟨hb, hd⟩ := balances_leaveCurrent h prevRSP
    dsimp only
    generalize leaveCurrent s prevRSP = s₁ at hb hd
    apply hb.trans
    split
    · rename_i r heap hfirst
      obtain ⟨hready, rfl, rfl⟩ := getFirstData_none hfirst
      split
      · exact .refl hb.shape
      · rename_i idle hidle
        obtain ⟨hp, hpid⟩ := findProcess_some hidle
        refine balances_dispatch hb.shape hd hp ⟨fun hm => ?_, fun hm => ?_⟩
        · have : idle ∈ s₁.readyProcess.data := hm
          rw [hready] at this
          cases this
        · exact hb.shape.idle idle hp hpid (hb.shape.blocked idle hm).2
    · rename_i first r heap hfirst
      exact balances_first hb.shape hd hfirst

theorem balances_quantums {s : Scheduler (Audited H)} (h : Shape s) (q : Int) :
    Balances s { s with quantums := q } :=
  ⟨⟨h.procs_nodup, h.ready_nodup, h.blocked_nodup, h.alive, h.live, h.pid, h.ready, h.blocked,
    h.idle, h.current, h.fresh⟩, .of_same rfl rfl fun _ _ => rfl⟩

theorem balances_schedule {s : Scheduler (Audited H)} (h : Shape s) (prevRSP : Addr) :
    Balances s (schedule s prevRSP).2 := by
  have hb := balances_quantums h (s.quantums - 1)
  unfold schedule
  dsimp only
  split
  · exact hb
  · exact hb.trans (balances_switch hb.shape prevRSP)

theorem balances_yield {s : Scheduler (Audited H)} (h : Shape s) (rsp : Addr) :
    Balances s (yield s rsp) := by
  have hb := balances_quantums h 0
  exact hb.trans (balances_schedule hb.shape rsp)

theorem balances_blockProcess {s : Scheduler (Audited H)} (h : Shape s) {pid : Int}
    (hpid : pid ≠ IDLE_PID) (rsp : Addr) : Balances s (blockProcess s pid rsp).2 := by
  obtain ⟨t, hend, ht⟩ := blockProcess_cases h pid rsp
  have hb : Balances s t := by
    rcases ht with rfl | ⟨p, hp, hpp, hst, hm, hr, hb⟩
    · exact .refl h
    have hready : p ∉ t.ready := fun hm => by
      rw [hr] at hm
      exact (h.ready_nodup.mem_erase_iff.mp hm).1 rfl
    have hblocked : p ∉ s.blocked := fun hm => by
      have := (h.blocked p hm).2
      simp [this] at hst
    have ht' : t.status p ≠ .TERMINATED := by
      rcases hb with ⟨-, hst'⟩ | ⟨-, hst'⟩
      · exact hst' ▸ h.alive p hp
      · simp [hst']
    refine ⟨hm.shape h hp ht' (fun _ hi => hpid (hpp ▸ hi)) (hr ▸ h.ready_nodup.erase p)
      (fun q hq => Or.inl ?_) ?_ (fun q hq => ?_), hm.books (h.alive p hp) ht'⟩
    · exact ⟨fun hqp => hready (hqp ▸ hq), List.mem_of_mem_erase (hr ▸ hq)⟩
    · rcases hb with ⟨hb, -⟩ | ⟨hb, -⟩
      · exact hb ▸ h.blocked_nodup
      · rw [hb, ← List.concat_eq_append]
        exact List.Nodup.concat hblocked h.blocked_nodup
    · grind
  rcases hend with he | he
  · exact he ▸ hb
  · exact he ▸ hb.trans (balances_yield hb.shape rsp)

/-! ## Killing -/

theorem balances_leaveQueue {s s' : Scheduler (Audited H)} (h : Shape s) {p : Pcb}
    (hp : p ∈ s.procs) (hl : leaveQueue s p = some s') :
    Balances s s' ∧ Out p s' ∧ s'.procs = s.procs := by
  have hm : Moves p s s' ∧ s'.status p = s.status p ∧ s'.ready = s.ready.erase p ∧
      s'.blocked = s.blocked.erase p := by
    have hready : s.status p ≠ .READY → s.ready.erase p = s.ready := fun hst =>
      List.erase_of_not_mem fun hm => hst (h.ready p hm).2
    have hblocked : s.status p ≠ .BLOCKED → s.blocked.erase p = s.blocked := fun hst =>
      List.erase_of_not_mem fun hm => hst (h.blocked p hm).2
    unfold leaveQueue at hl
    split at hl
    · rename_i hst
      split at hl
      · cases hl
      rename_i r heap hrem
      have tr := trades_removeNode s.readyProcess p s.heap
      rw [hrem] at tr
      cases hl
      exact ⟨(Moves.refl p s).queues r s.blockedProcess (tr.frame _), rfl, (removeNode_some hrem).2,
        (hblocked (by simp [hst])).symm⟩
    · rename_i hst
      split at hl
      · cases hl
      rename_i b heap hrem
      have tb := trades_removeNode s.blockedProcess p s.heap
      rw [hrem] at tb
      cases hl
      exact ⟨(Moves.refl p s).queues s.readyProcess b (tb.frame_left _), rfl,
        (hready (by simp [hst])).symm, (removeNode_some hrem).2⟩
    · rename_i hnr hnb
      cases hl
      exact ⟨.refl p s, rfl, (hready hnr).symm, (hblocked hnb).symm⟩
  obtain ⟨hm, hst, hr, hb⟩ := hm
  have hout : Out p s' := by
    constructor
    · rw [hr]
      exact fun hm => (h.ready_nodup.mem_erase_iff.mp hm).1 rfl
    · rw [hb]
      exact fun hm => (h.blocked_nodup.mem_erase_iff.mp hm).1 rfl
  have ht' : s'.status p ≠ .TERMINATED := hst ▸ h.alive p hp
  refine ⟨⟨hm.shape h hp ht' (fun hb hi => h.idle p hp hi (hst ▸ hb)) (hr ▸ h.ready_nodup.erase p)
    (fun q hq => Or.inl ⟨fun hqp => hout.1 (hqp ▸ hq), List.mem_of_mem_erase (hr ▸ hq)⟩)
    (hb ▸ h.blocked_nodup.erase p)
    (fun q hq => Or.inl ⟨fun hqp => hout.2 (hqp ▸ hq), List.mem_of_mem_erase (hb ▸ hq)⟩),
    hm.books (h.alive p hp) ht'⟩, hout, congrArg DoubleLinkedList.data hm.procs⟩

theorem procs_setReadyProcess (s : Scheduler (Audited H)) (pid : Int) :
    (setReadyProcess s pid).2.procs = s.procs := by
  rcases setReadyProcess_cases s pid with he | ⟨p, -, -, -, hm, -⟩
  · rw [he]
  · exact congrArg DoubleLinkedList.data hm.procs

theorem balances_wakeWaiters (waiters : List (Option Pcb)) {s : Scheduler (Audited H)}
    (h : Shape s) {p : Pcb} (hout : Out p s) :
    Balances s (wakeWaiters waiters s) ∧ Out p (wakeWaiters waiters s) ∧
      (wakeWaiters waiters s).procs = s.procs := by
  induction waiters generalizing s with
  | nil => exact ⟨.refl h, hout, rfl⟩
  | cons waiter rest ih =>
    cases waiter with
    | none => exact ih h hout
    | some aux =>
      have hb := balances_setReadyProcess h (s.pid aux)
      obtain ⟨hrest, hout', hprocs⟩ := ih hb.shape (out_setReadyProcess (s.pid aux) hout)
      exact ⟨hb.trans hrest, hout', hprocs.trans (procs_setReadyProcess s _)⟩

/-- What `terminate` does: the process list loses `p`, which is freed unless it
runs. -/
theorem terminate_cases (s : Scheduler (Audited H)) {p : Pcb} (hp : p ∈ s.procs) :
    ∃ (l : DoubleLinkedList Pcb) (heap : Audited H) (qty : Nat), l.data = s.procs.erase p ∧
      Audited.Trades s.heap heap s.processList.blocks l.blocks ∧
      (terminate s p).2 =
        if s.currentProcess = some p then
          { s with processList := l, heap := heap, processQty := qty }.setStatus p .TERMINATED
        else ({ s with processList := l, heap := heap, processQty := qty }.setStatus p
          .TERMINATED).free p := by
  obtain ⟨l, heap, hrem, hl⟩ := removeNode_of_mem s.heap hp
  have tl := trades_removeNode s.processList p s.heap
  rw [hrem] at tl
  refine ⟨l, heap, (s.processQty + 2 ^ 16 - 1) % 2 ^ 16, hl, tl, ?_⟩
  unfold terminate
  rw [hrem]
  dsimp only
  by_cases hc : s.currentProcess = some p
  · rw [if_pos hc]
    exact congrArg Prod.snd (if_pos hc)
  · rw [if_neg hc]
    exact congrArg Prod.snd (if_neg hc)

theorem balances_terminate {s : Scheduler (Audited H)} (h : Shape s) {p : Pcb} (hp : p ∈ s.procs)
    (hout : Out p s) : Balances s (terminate s p).2 := by
  obtain ⟨l, heap, qty, hl, tl, he⟩ := terminate_cases s hp
  rw [he]
  have hst := fun q => status_setStatus
    { s with processList := l, heap := heap, processQty := qty } p q .TERMINATED
  have hblocks := fun q => blocks_setStatus
    { s with processList := l, heap := heap, processQty := qty } p q .TERMINATED
  have hshape : Shape ({ s with processList := l, heap := heap, processQty := qty }.setStatus p
      .TERMINATED) :=
    h.drop hout hl rfl rfl rfl rfl rfl rfl (fun q => pid_setStatus _ p q _) hst
  have hbooks : Books (owners s) s (owners s) ({ s with
      processList := l, heap := heap, processQty := qty }.setStatus p .TERMINATED) :=
    .of_lists ((tl.frame _).frame _) fun q _ => hblocks q
  have hprocs : ({ s with processList := l, heap := heap, processQty := qty }.setStatus p
      .TERMINATED).procs = s.procs.erase p := hl
  have hcurrent : ({ s with processList := l, heap := heap, processQty := qty }.setStatus p
      .TERMINATED).currentProcess = s.currentProcess := rfl
  have hlt : p < ({ s with processList := l, heap := heap, processQty := qty }.setStatus p
      .TERMINATED).pcbQty := (h.live p hp).2
  have hst' : ∀ q, ({ s with processList := l, heap := heap, processQty := qty }.setStatus p
      .TERMINATED).status q = if q = p then .TERMINATED else s.status q := hst
  generalize { s with processList := l, heap := heap, processQty := qty }.setStatus p
      .TERMINATED = s₁ at hshape hbooks hprocs hcurrent hlt hst'
  have hperm : (owners s).Perm (p :: (s.procs.erase p ++ doomed s)) :=
    (List.perm_cons_erase hp).append_right (doomed s)
  have hp₁ : p ∉ s.procs.erase p := fun hm => (h.procs_nodup.mem_erase_iff.mp hm).1 rfl
  split
  · rename_i hc
    have hdoomed : doomed s = [] := doomed_of_current hc (h.alive p hp)
    have hdoomed₁ : doomed s₁ = [p] := by
      simp [doomed, hcurrent, hc, hst']
    refine ⟨hshape, hbooks.trans (.perm (hperm.trans ?_))⟩
    rw [owners, hdoomed₁, hprocs, hdoomed, List.append_nil]
    exact (List.perm_append_singleton p _).symm
  · rename_i hc
    have hp₂ : p ∉ doomed s := fun hm => hc (by simpa [doomed] using (List.mem_filter.mp hm).1)
    have hdoomed₁ : doomed (s₁.free p) = doomed s := by
      refine doomed_of_ne hc hcurrent fun q hqp => ?_
      rw [Scheduler.status, free_pcb_ne s₁ hqp]
      exact (hst' q).trans (if_neg hqp)
    refine ⟨hshape.free (hprocs ▸ hp₁) (hcurrent ▸ hc) hlt,
      hbooks.trans ((Books.perm hperm).trans ?_)⟩
    have howners : owners (s₁.free p) = s.procs.erase p ++ doomed s := by
      rw [owners, hdoomed₁, ← hprocs]
      rfl
    rw [howners]
    exact .free (by simp [hp₁, hp₂]) s₁

theorem balances_kill {s : Scheduler (Audited H)} (h : Shape s) {p : Pcb} (hp : p ∈ s.procs) :
    Balances s (kill s p).2 := by
  unfold kill
  split
  · exact .refl h
  rename_i s₁ hl
  obtain ⟨hb, hout, hprocs⟩ := balances_leaveQueue h hp hl
  obtain ⟨hb', hout', hprocs'⟩ := balances_wakeWaiters (s₁.pcb p).waiters hb.shape hout
  exact (hb.trans hb').trans
    (balances_terminate hb'.shape (by rw [hprocs', hprocs]; exact hp) hout')

theorem balances_killProcess {s : Scheduler (Audited H)} (h : Shape s) (pid : Int) :
    Balances s (killProcess s pid).2 := by
  unfold killProcess
  split
  · exact .refl h
  rename_i p hf
  have hb := balances_kill h (findProcess_some hf).1
  generalize kill s p = killed at hb
  obtain ⟨result, s₁⟩ := killed
  dsimp only
  split
  · exact hb
  split
  case isFalse => exact hb
  split
  · exact hb
  · rename_i aux haux
    exact hb.trans (balances_kill hb.shape (List.mem_of_find?_eq_some haux))

theorem balances_killForegroundProcess {s : Scheduler (Audited H)} (h : Shape s) :
    Balances s (killForegroundProcess s).2 := by
  unfold killForegroundProcess
  split
  · exact .refl h
  split
  · exact balances_killProcess h _
  split
  · exact .refl h
  · rename_i aux haux
    exact balances_kill h (List.mem_of_find?_eq_some haux)

/-! ## Waiting, and the other calls -/

/-- The list of the waiters of a process gets another node. -/
theorem balances_enlist {s : Scheduler (Audited H)} (h : Shape s) {p : Pcb} (hp : p ∈ s.procs)
    {list list' : DoubleLinkedList (Option Pcb)} {heap : Audited H}
    (hlist : (s.pcb p).waitingList = some list)
    (tr : Audited.Trades s.heap heap list.blocks list'.blocks) :
    Balances s ({ s with heap := heap }.setPcb p
      { s.pcb p with waitingList := some list' }) := by
  have hp' := pcb_setPcb_self { s with heap := heap } p { s.pcb p with waitingList := some list' }
  have hpcb := fun q hq => pcb_setPcb_ne { s with heap := heap } (p := p) (q := q)
    { s.pcb p with waitingList := some list' } hq
  have hpid : ∀ q, ({ s with heap := heap }.setPcb p
      { s.pcb p with waitingList := some list' }).pid q = s.pid q := fun q => by
    by_cases hq : q = p
    · rw [hq, Scheduler.pid, hp']; rfl
    · rw [Scheduler.pid, hpcb q hq]; rfl
  have hst : ∀ q, ({ s with heap := heap }.setPcb p
      { s.pcb p with waitingList := some list' }).status q = s.status q := fun q => by
    by_cases hq : q = p
    · rw [hq, Scheduler.status, hp']; rfl
    · rw [Scheduler.status, hpcb q hq]; rfl
  refine ⟨h.same rfl rfl rfl rfl rfl rfl rfl hpid hst, ?_⟩
  have howners : owners ({ s with heap := heap }.setPcb p
      { s.pcb p with waitingList := some list' }) = owners s := by
    unfold owners doomed
    simp only [hst]
    rfl
  have hperm : (owners s).Perm (p :: (s.procs.erase p ++ doomed s)) :=
    (List.perm_cons_erase hp).append_right (doomed s)
  have hrest : ∀ q ∈ s.procs.erase p ++ doomed s, q ≠ p := by
    intro q hq hqp
    subst hqp
    rcases List.mem_append.mp hq with hq | hq
    · exact (h.procs_nodup.mem_erase_iff.mp hq).1 rfl
    · exact h.alive q hp (by simpa using (List.mem_filter.mp hq).2)
  have hbooks : Books (p :: (s.procs.erase p ++ doomed s)) s (p :: (s.procs.erase p ++ doomed s))
      ({ s with heap := heap }.setPcb p { s.pcb p with waitingList := some list' }) := by
    refine .of_pcb ?_ rfl fun q hq => ?_
    · rw [hp']
      unfold ProcessContext.blocks ProcessContext.parts
      rw [hlist]
      exact (tr.frame_left _).frame _
    · rw [hpcb q (hrest q hq)]
  rw [howners]
  exact ((Books.perm hperm).trans hbooks).trans (.perm hperm.symm)

theorem balances_waitProcess {s : Scheduler (Audited H)} (h : Shape s) (pid : Int) (rsp : Addr)
    (hidle : (findProcess s pid).isSome → getPid s ≠ pid → getPid s ≠ IDLE_PID) :
    Balances s (waitProcess s pid rsp).2 := by
  unfold waitProcess
  dsimp only
  split
  · exact .refl h
  rename_i p hf
  split
  · exact .refl h
  rename_i hne
  have hp := (findProcess_some hf).1
  have hpid : getPid s ≠ IDLE_PID := hidle (by rw [hf]; rfl) hne
  dsimp only
  cases hlist : (s.pcb p).waitingList with
  | none => exact balances_blockProcess h hpid rsp
  | some list => ?_
  dsimp only
  have tr := trades_addNode list (findProcess s (getPid s)) s.heap
  generalize addNode list (findProcess s (getPid s)) s.heap = added at tr
  obtain ⟨a, list', heap⟩ := added
  have hb := balances_enlist h hp hlist tr
  exact hb.trans (balances_blockProcess hb.shape hpid rsp)

theorem balances_changePriority {s : Scheduler (Audited H)} (h : Shape s) (pid : Int)
    (priority : Nat) : Balances s (changePriority s pid priority).2 := by
  unfold changePriority
  split
  · exact .refl h
  split
  · exact .refl h
  rename_i p hf
  have hp := (findProcess_some hf).1
  have hm := (Moves.refl p s).setPcb (c := { s.pcb p with priority := priority }) rfl rfl
  have hst : (s.setPcb p { s.pcb p with priority := priority }).status p = s.status p := by
    simp [Scheduler.setPcb, Scheduler.status]
  exact ⟨hm.shape_same h hp hst rfl rfl, hm.books (h.alive p hp) (hst ▸ h.alive p hp)⟩

theorem balances_reuse {s : Scheduler (Audited H)} (h : Shape s) {p : Pcb} (hfreed : 0 < s.frees p)
    (content : ProcessContext) : Balances s (s.setPcb p content) := by
  have hp : p ∉ s.procs := fun hp => Nat.ne_of_gt hfreed (h.live p hp).1
  have hcurrent : s.currentProcess ≠ some p := fun hc => Nat.ne_of_gt hfreed (h.current p hc).2.1
  have hqty : p < s.pcbQty := Nat.lt_of_not_le fun hle => Nat.ne_of_gt hfreed (h.fresh p hle)
  have hpcb : ∀ q, q ≠ p → (s.setPcb p content).pcb q = s.pcb q := fun q hq =>
    pcb_setPcb_ne s content hq
  have hdoomed : doomed (s.setPcb p content) = doomed s :=
    doomed_of_ne hcurrent rfl fun q hq => congrArg ProcessContext.status (hpcb q hq)
  refine ⟨h.forget hp hcurrent hqty rfl rfl rfl rfl rfl rfl hpcb (fun _ _ => rfl), ?_⟩
  have howners : owners (s.setPcb p content) = owners s := by
    rw [owners, hdoomed]
    rfl
  rw [howners]
  refine .of_same rfl rfl fun q hq => ?_
  have hqp : q ≠ p := fun hqp => by
    subst hqp
    rcases List.mem_append.mp hq with hq | hq
    · exact hp hq
    · exact hcurrent (by simpa [doomed] using (List.mem_filter.mp hq).1)
  rw [hpcb q hqp]

/-! ## Creating -/

theorem blocks_zeroed (block : Addr) : (ProcessContext.zeroed block).blocks = {block} := by
  have hstack : (ProcessContext.zeroed block).stack = 0 :=
    if_neg (by decide : ¬ 0 ≥ STACK_SIZE)
  unfold ProcessContext.blocks ProcessContext.parts
  rw [hstack]
  rfl

theorem new_not_owner {s : Scheduler (Audited H)} (h : Shape s) : s.pcbQty ∉ owners s := by
  intro hm
  rcases List.mem_append.mp hm with hm | hm
  · exact Nat.lt_irrefl _ (h.live _ hm).2
  · obtain ⟨hc, -⟩ := List.mem_filter.mp hm
    exact Nat.lt_irrefl _ (h.current _ (Option.mem_toList.mp hc)).2.2.1

theorem balances_addProcess {s : Scheduler (Audited H)} (h : Shape s) {p : Pcb} (hp : p ∉ s.procs)
    (hlt : p < s.pcbQty) (hfrees : s.frees p = 0) (hst : s.status p = .READY)
    (hpid : s.pid p ≠ NO_PROCESS) (hin : p ∈ (addProcess s p).procs) :
    Shape (addProcess s p) ∧
      Books (p :: owners s) s (owners (addProcess s p)) (addProcess s p) := by
  have tp := trades_addNode s.processList p s.heap
  have hdata := addNode_data s.processList p s.heap
  unfold addProcess at hin ⊢
  generalize addNode s.processList p s.heap = added at tp hdata hin ⊢
  obtain ⟨x, l, heap⟩ := added
  dsimp only at hin ⊢
  have hready : ({ s with processList := l, heap := heap, processQty := s.processQty + 1 } :
      Scheduler (Audited H)).status p = .READY := hst
  rw [if_pos hready] at hin ⊢
  have tr := trades_addNode s.readyProcess p heap
  have hdata' := addNode_data s.readyProcess p heap
  generalize addNode s.readyProcess p heap = added at tr hdata' hin ⊢
  obtain ⟨y, r, heap'⟩ := added
  have hin' : p ∈ l.data := hin
  have hl : l.data = s.procs ++ [p] := by
    rcases hdata with ⟨hd, -⟩ | ⟨hd, -⟩
    · exact hd
    · have hd' : l = s.processList := hd
      rw [hd'] at hin'
      exact absurd hin' hp
  have hr : r.data = s.ready ∨ r.data = s.ready ++ [p] := by
    rcases hdata' with ⟨hd, -⟩ | ⟨hd, -⟩
    · exact Or.inr hd
    · exact Or.inl (congrArg DoubleLinkedList.data hd)
  refine ⟨h.join hp hlt hfrees hst hpid hl hr rfl rfl rfl rfl rfl rfl, ?_⟩
  have howners : owners { s with
      processList := l, readyProcess := r, heap := heap', processQty := s.processQty + 1 } =
        s.procs ++ [p] ++ doomed s := congrArg (· ++ doomed s) hl
  have hperm : (p :: owners s).Perm (s.procs ++ [p] ++ doomed s) :=
    ((List.perm_append_singleton p s.procs).symm).append_right (doomed s)
  refine Books.trans (.perm (hperm.trans (.of_eq howners.symm))) (.of_lists ?_ fun _ _ => rfl)
  exact ((tp.frame _).trans (tr.frame_left _)).frame _

/-- On the way from `s` to `s'` the PCB `p` was allocated, which is in no list yet. -/
structure Newborn (p : Pcb) (s s' : Scheduler (Audited H)) : Prop where
  shape : Shape s'
  books : Books (owners s) s (p :: owners s) s'
  same : owners s' = owners s
  outside : p ∉ owners s
  lt : p < s'.pcbQty
  frees : s'.frees p = 0

namespace Newborn

variable {p : Pcb} {s s' : Scheduler (Audited H)}

theorem not_proc (hn : Newborn p s s') : p ∉ s'.procs := fun hm =>
  hn.outside (hn.same ▸ List.mem_append_left _ hm)

theorem not_current (hn : Newborn p s s') : s'.currentProcess ≠ some p := by
  intro hc
  obtain ⟨-, -, -, hin⟩ := hn.shape.current p hc
  have ht := hin.resolve_left hn.not_proc
  refine hn.outside (hn.same ▸ List.mem_append_right _ ?_)
  simp [doomed, hc, ht]

/-- The new PCB is written. -/
theorem fill {heap : Audited H} {c : ProcessContext} (hn : Newborn p s s')
    (ht : Audited.Trades s'.heap heap (s'.pcb p).blocks c.blocks) :
    Newborn p s ({ s' with heap := heap }.setPcb p c) := by
  have hself := pcb_setPcb_self { s' with heap := heap } p c
  have hpcb := fun q hq => pcb_setPcb_ne { s' with heap := heap } (p := p) (q := q) c hq
  have hdoomed : doomed ({ s' with heap := heap }.setPcb p c) = doomed s' :=
    doomed_of_ne hn.not_current rfl fun q hq => congrArg ProcessContext.status (hpcb q hq)
  refine ⟨hn.shape.forget hn.not_proc hn.not_current hn.lt rfl rfl rfl rfl rfl rfl hpcb
    (fun _ _ => rfl), hn.books.trans (.of_pcb (hself.symm ▸ ht) rfl fun q hq => ?_), ?_, hn.outside,
    hn.lt, hn.frees⟩
  · have hqp : q ≠ p := fun hqp => hn.outside (hqp ▸ hq)
    rw [hpcb q hqp]
  · rw [← hn.same, owners, hdoomed]
    rfl

end Newborn

theorem Newborn.balances_free {p : Pcb} {s s' : Scheduler (Audited H)} (hn : Newborn p s s') :
    Balances s (s'.free p) := by
  refine ⟨hn.shape.free hn.not_proc hn.not_current hn.lt, ?_⟩
  have hdoomed : doomed (s'.free p) = doomed s' :=
    doomed_of_ne hn.not_current rfl fun q hq => congrArg ProcessContext.status (free_pcb_ne s' hq)
  have howners : owners (s'.free p) = owners s := by
    rw [← hn.same, owners, hdoomed]
    rfl
  rw [howners]
  exact hn.books.trans (.free hn.outside s')

theorem Newborn.balances_join {p : Pcb} {s s' : Scheduler (Audited H)} (hn : Newborn p s s')
    (hst : s'.status p = .READY) (hpid : s'.pid p ≠ NO_PROCESS)
    (hin : p ∈ (addProcess s' p).procs) : Balances s (addProcess s' p) := by
  obtain ⟨hshape, hbooks⟩ := balances_addProcess hn.shape hn.not_proc hn.lt hn.frees hst
    hpid hin
  exact ⟨hshape, hn.books.trans (hn.same ▸ hbooks)⟩

/-- A PCB is allocated and cleared. -/
theorem newborn_zeroed {s : Scheduler (Audited H)} (h : Shape s) {block : Addr} {heap : Audited H}
    (ha : mm_alloc PCB_SIZE s.heap = (some block, heap)) :
    Newborn s.pcbQty s ({ s with heap := heap, pcbQty := s.pcbQty + 1 }.setPcb s.pcbQty
      (.zeroed block)) := by
  have hout := new_not_owner h
  have hproc : s.pcbQty ∉ s.procs := fun hm => hout (List.mem_append_left _ hm)
  have hcurrent : s.currentProcess ≠ some s.pcbQty := fun hc =>
    Nat.lt_irrefl _ (h.current _ hc).2.2.1
  have hbump : Shape { s with heap := heap, pcbQty := s.pcbQty + 1 } :=
    ⟨h.procs_nodup, h.ready_nodup, h.blocked_nodup, h.alive,
      fun p hp => ⟨(h.live p hp).1, Nat.lt_succ_of_lt (h.live p hp).2⟩, h.pid, h.ready, h.blocked,
      h.idle, fun p hp => ⟨(h.current p hp).1, (h.current p hp).2.1,
        Nat.lt_succ_of_lt (h.current p hp).2.2.1, (h.current p hp).2.2.2⟩,
      fun p hp => h.fresh p (Nat.le_of_succ_le hp)⟩
  have hself := pcb_setPcb_self { s with heap := heap, pcbQty := s.pcbQty + 1 } s.pcbQty
    (.zeroed block)
  have hpcb := fun q hq => pcb_setPcb_ne { s with heap := heap, pcbQty := s.pcbQty + 1 }
    (p := s.pcbQty) (q := q) (.zeroed block) hq
  refine ⟨hbump.forget hproc hcurrent (Nat.lt_succ_self _) rfl rfl rfl rfl rfl rfl hpcb
    (fun _ _ => rfl), .of_new ?_ rfl fun q hq => ?_, ?_, hout, Nat.lt_succ_self _,
    h.fresh _ (Nat.le_refl _)⟩
  · rw [hself, blocks_zeroed]
    exact Audited.alloc_some ha
  · have hqp : q ≠ s.pcbQty := fun hqp => hout (hqp ▸ hq)
    rw [hpcb q hqp]
  · have hdoomed : doomed ({ s with heap := heap, pcbQty := s.pcbQty + 1 }.setPcb s.pcbQty
        (.zeroed block)) = doomed s := by
      refine doomed_of_ne hcurrent rfl fun q hq => ?_
      rw [Scheduler.status, hpcb q hq]
      rfl
    rw [owners, hdoomed]
    rfl

/-- A call of `createProcess` that gives a pid has put the process in the list. -/
theorem balances_createProcess {s : Scheduler (Audited H)} (h : Shape s) (rip : Addr) (args : Args)
    (argc : Int) (priority : Nat)
    (fileDescriptors : Option (Fin CANT_FILE_DESCRIPTORS → Int)) (ground : Nat)
    (hin : (createProcess s rip args argc priority fileDescriptors ground).1 = -1 ∨
      s.pcbQty ∈ (createProcess s rip args argc priority fileDescriptors ground).2.procs) :
    Balances s (createProcess s rip args argc priority fileDescriptors ground).2 := by
  unfold createProcess at hin ⊢
  split
  · exact .refl h
  rename_i hqty
  rw [if_neg hqty] at hin
  split
  · rename_i heap ha
    refine ⟨h.same rfl rfl rfl rfl rfl rfl rfl (fun _ => rfl) (fun _ => rfl), ?_⟩
    exact .of_lists (Audited.alloc_none ha _).1 fun _ _ => rfl
  rename_i block heap ha
  simp only [ha] at hin
  have hn := newborn_zeroed h ha
  have hzeroed := pcb_setPcb_self { s with heap := heap, pcbQty := s.pcbQty + 1 } s.pcbQty
    (.zeroed block)
  dsimp only
  generalize { s with heap := heap, pcbQty := s.pcbQty + 1 }.setPcb s.pcbQty (.zeroed block) = s₁
    at hn hzeroed hin ⊢
  split
  · exact hn.balances_free
  rename_i pid hpid
  simp only [hpid] at hin
  have hfill : ∀ {r : Int} {c : ProcessContext} {heap' : Audited H},
      initializeProcess (s₁.pcb s.pcbQty) pid args argc priority rip ground fileDescriptors
        s₁.heap = (r, c, heap') →
      Newborn s.pcbQty s ({ s₁ with heap := heap' }.setPcb s.pcbQty c) := by
    intro r c heap' hi
    obtain ⟨ti, hblock⟩ := trades_initializeProcess hi
    apply hn.fill
    rw [hzeroed, blocks_zeroed]
    have hb : c.block = block := by rw [hblock, hzeroed]; rfl
    have := ti.frame {block}
    rw [zero_add] at this
    rwa [ProcessContext.blocks, hb]
  split
  · rename_i c heap' hi
    exact (hfill hi).balances_free
  · rename_i r c heap' hr hi
    have hn' := hfill hi
    simp only [hi] at hin
    obtain ⟨hp, hst, -⟩ := initializeProcess_filled hi hr
    have hself := pcb_setPcb_self { s₁ with heap := heap' } s.pcbQty c
    have hst' : ({ s₁ with heap := heap' }.setPcb s.pcbQty c).status s.pcbQty = .READY := by
      rw [Scheduler.status, hself]
      exact hst
    have hpid' : ({ s₁ with heap := heap' }.setPcb s.pcbQty c).pid s.pcbQty = (pid : Int) := by
      rw [Scheduler.pid, hself]
      exact hp
    have hno : (pid : Int) ≠ NO_PROCESS := by unfold NO_PROCESS; omega
    refine hn'.balances_join hst' (hpid' ▸ hno) (hin.resolve_left fun he => hno ?_)
    rw [← hpid']
    simpa [Scheduler.pid, NO_PROCESS] using he

end bare_bones.scheduler
