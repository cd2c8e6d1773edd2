-- Proportional share. While the processes of the ready queue only use up their
-- ticks, `schedule` turns a wheel: each has the processor for its priority in
-- ticks, in an order that comes back every round. A switch needs a list node
-- for the process that it takes off.
import BareBones.Lib.RoundRobin
import BareBones.Resumption
import BareBones.Bitmap

namespace bare_bones.process_table

open bare_bones.process
open bare_bones.scheduler (IDLE_PID)

open Table

/-! ## The quantum of a dispatch -/

/-- The current process has all the ticks of its priority before it. -/
def FullQuantum (t : Table) : Prop := ∃ p, t.current = some p ∧ t.quantums = (t.pcb p).priority

theorem fullQuantum_switch {t : Table} (h : Core none t) (hc : Cur t) : FullQuantum t.switch := by
  obtain ⟨p, rest, _, hs⟩ := switch_dispatches h hc
  exact ⟨p, by rw [hs, current_dispatch], by rw [hs]; simp [dispatch, mark, Table.set]⟩

end bare_bones.process_table

namespace bare_bones.scheduler

open bare_bones.doubleLinkedList bare_bones.process bare_bones.process_table
open runs fifo round_robin

variable {H : Type}

/-! ## Ticks -/

/-- A tick of the timer: the state it finds, and the stack pointer it saves. -/
structure Beat (H : Type) where
  found : Scheduler H
  rsp : Addr

/-- What the processes may do between two ticks, when nobody enters or leaves
the ready queue or changes a priority. -/
structure Undisturbed (s s' : Scheduler H) : Prop where
  current : s'.currentProcess = s.currentProcess
  currentPid : s'.currentPid = s.currentPid
  quantums : s'.quantums = s.quantums
  ready : s'.ready = s.ready
  qty : s'.processQty ≠ 0
  pcb : ∀ p, s.currentProcess = some p ∨ p ∈ s.ready →
    s'.status p = s.status p ∧ s'.pid p = s.pid p ∧ (s'.pcb p).priority = (s.pcb p).priority

/-- The process `c` was just dispatched. -/
structure AtDispatch (s : Scheduler H) (c : Pcb) : Prop where
  current : s.currentProcess = some c
  running : s.status c = .RUNNING
  currentPid : s.currentPid ≠ NO_PROCESS
  quantums : s.quantums = (s.pcb c).priority
  distinct : (c :: s.ready).Nodup
  pids : ∀ p ∈ c :: s.ready, s.pid p ≠ NO_PROCESS
  qty : s.processQty ≠ 0

section Beats

variable [MemoryManager H]

def beat (_ : Scheduler H) (b : Beat H) : Scheduler H := (schedule b.found b.rsp).2

def undisturbed (s : Scheduler H) (b : Beat H) : Prop := Undisturbed s b.found

/-- A tick that ends in a switch gets the list node it asks for. -/
def grantsNode (_ : Scheduler H) (b : Beat H) : Prop :=
  switches b.found (.schedule b.rsp) → (mm_alloc NODE_SIZE b.found.heap).1.isSome

instance (s : Scheduler H) (b : Beat H) : Decidable (grantsNode s b) :=
  inferInstanceAs (Decidable (_ → _))

/-- Who has the processor until the tick. -/
def runner (_ : Scheduler H) (b : Beat H) : List Pcb := b.found.currentProcess.toList

/-- Who has the processor, tick by tick. -/
def runners (s : Scheduler H) (beats : List (Beat H)) : List Pcb := servedAlong beat runner s beats

/-- Who gets the processor, switch by switch. -/
def dispatchOrder (s : Scheduler H) (beats : List (Beat H)) : List Pcb :=
  servedAlong beat (fun _ b => (dispatched b.found (.schedule b.rsp)).toList) s beats

end Beats

/-! ## The wheel -/

/-- The ready queue and the current process as a wheel. -/
structure Turns (w : Pcb → Nat) (s : Scheduler H) (c : Pcb) (rest : List Pcb) (left : Nat) :
    Prop where
  current : s.currentProcess = some c
  running : s.status c = .RUNNING
  currentPid : s.currentPid ≠ NO_PROCESS
  ready : s.ready = rest
  left : s.quantums = left
  priority : ∀ p ∈ c :: rest, (s.pcb p).priority = w p
  distinct : (c :: rest).Nodup
  pids : ∀ p ∈ c :: rest, s.pid p ≠ NO_PROCESS
  qty : s.processQty ≠ 0

theorem AtDispatch.turns {s : Scheduler H} {c : Pcb} (h : AtDispatch s c) :
    Turns (fun p => (s.pcb p).priority) s c s.ready (s.pcb c).priority :=
  ⟨h.current, h.running, h.currentPid, rfl, h.quantums, fun _ _ => rfl, h.distinct, h.pids, h.qty⟩

theorem Turns.keeps {w : Pcb → Nat} {s s' : Scheduler H} {c : Pcb} {rest : List Pcb}
    {left : Nat} (h : Turns w s c rest left) (hu : Undisturbed s s') : Turns w s' c rest left := by
  have hpcb : ∀ p ∈ c :: rest, s'.status p = s.status p ∧ s'.pid p = s.pid p ∧
      (s'.pcb p).priority = (s.pcb p).priority := by
    intro p hp
    apply hu.pcb p
    rcases List.mem_cons.mp hp with rfl | hr
    · exact Or.inl h.current
    · exact Or.inr (h.ready ▸ hr)
  refine ⟨hu.current.trans h.current, ?_, ?_, hu.ready.trans h.ready, hu.quantums.trans h.left,
    ?_, h.distinct, ?_, hu.qty⟩
  · rw [(hpcb c (by simp)).1, h.running]
  · rw [hu.currentPid]
    exact h.currentPid
  · intro p hp
    rw [(hpcb p hp).2.2, h.priority p hp]
  · intro p hp
    rw [(hpcb p hp).2.1]
    exact h.pids p hp

/-- Neither a new stack pointer nor a new status changes a pid or a priority. -/
theorem setStatus_keeps (s : Scheduler H) (p q : Pcb) (st : ProcessState) :
    (s.setStatus p st).pid q = s.pid q ∧
      ((s.setStatus p st).pcb q).priority = (s.pcb q).priority := by
  by_cases h : q = p
  · subst h; simp [Scheduler.setStatus, Scheduler.setPcb, Scheduler.pid]
  · simp [Scheduler.setStatus, Scheduler.setPcb, Scheduler.pid, h]

theorem setStackPos_keeps (s : Scheduler H) (p q : Pcb) (rsp : Addr) :
    (s.setPcb p { s.pcb p with stackPos := rsp }).status q = s.status q ∧
      (s.setPcb p { s.pcb p with stackPos := rsp }).pid q = s.pid q ∧
      ((s.setPcb p { s.pcb p with stackPos := rsp }).pcb q).priority = (s.pcb q).priority := by
  by_cases h : q = p
  · subst h; simp [Scheduler.setPcb, Scheduler.pid, Scheduler.status]
  · simp [Scheduler.setPcb, Scheduler.pid, Scheduler.status, h]

variable [MemoryManager H]

/-- With a node to spare, the current process goes to the end of the ready
queue. -/
theorem leaveCurrent_running {s : Scheduler H} {c : Pcb} (hc : s.currentProcess = some c)
    (hr : s.status c = .RUNNING) (hnode : (mm_alloc NODE_SIZE s.heap).1.isSome) (rsp : Addr) :
    (leaveCurrent s rsp).ready = s.ready ++ [c] ∧
      (leaveCurrent s rsp).processQty = s.processQty ∧
      ∀ p, (leaveCurrent s rsp).pid p = s.pid p ∧
        ((leaveCurrent s rsp).pcb p).priority = (s.pcb p).priority := by
  have hne : s.status c ≠ .TERMINATED := by simp [hr]
  have hst := ((setStackPos_keeps s c c rsp).1.trans hr)
  have hdata : (addNode s.readyProcess c s.heap).2.1.data = s.ready ++ [c] := by
    unfold addNode
    split
    · rename_i heq
      rw [heq] at hnode
      cases hnode
    · simp [DoubleLinkedList.data, Scheduler.ready]
  have hleave : leaveCurrent s rsp =
      { (s.setPcb c { s.pcb c with stackPos := rsp }).setStatus c .READY with
        readyProcess := (addNode s.readyProcess c s.heap).2.1
        heap := (addNode s.readyProcess c s.heap).2.2 } := by
    unfold leaveCurrent
    rw [hc]
    dsimp only
    rw [if_neg hne, if_pos hst]
    rfl
  rw [hleave]
  refine ⟨hdata, rfl, fun p => ?_⟩
  have h1 := setStatus_keeps (s.setPcb c { s.pcb c with stackPos := rsp }) c p .READY
  have h2 := (setStackPos_keeps s c p rsp).2
  exact ⟨h1.1.trans h2.1, h1.2.trans h2.2⟩

/-- A tick that ends in a switch turns the wheel. -/
theorem Turns.switch {w : Pcb → Nat} {s : Scheduler H} {c : Pcb} {rest : List Pcb} {left : Nat}
    (h : Turns w s c rest left) (hq : s.quantums ≤ 1)
    (hnode : (mm_alloc NODE_SIZE s.heap).1.isSome) (rsp : Addr) {x : Pcb} {xs : List Pcb}
    (hx : rest ++ [c] = x :: xs) : Turns w (schedule s rsp).2 x xs (w x) := by
  have hperm : (x :: xs).Perm (c :: rest) := by
    rw [← hx]
    exact List.perm_append_singleton c rest
  have hmem : ∀ p ∈ x :: xs, p ∈ c :: rest := fun p hp => hperm.mem_iff.mp hp
  obtain ⟨hready, hqty, hkeep⟩ := leaveCurrent_running
    (s := { s with quantums := s.quantums - 1 }) h.current h.running hnode rsp
  rw [show Scheduler.ready { s with quantums := s.quantums - 1 } = s.ready from rfl, h.ready,
    hx] at hready
  obtain ⟨r, heap, hget, hr⟩ := getFirstData_cons
    (leaveCurrent { s with quantums := s.quantums - 1 } rsp).heap hready
  have hno : ¬ (s.processQty = 0 ∨ s.quantums - 1 > 0) := by
    have := h.qty
    omega
  have hs : (schedule s rsp).2 = (dispatch { leaveCurrent { s with quantums := s.quantums - 1 }
      rsp with readyProcess := r, heap := heap } x).2 := by
    unfold schedule scheduler.switch
    dsimp only
    rw [if_neg hno, if_neg h.currentPid, hget]
  rw [hs]
  have hd := setStatus_keeps { leaveCurrent { s with quantums := s.quantums - 1 } rsp with
    readyProcess := r, heap := heap } x
  refine ⟨rfl, ?_, ?_, hr, ?_, ?_, hperm.nodup_iff.mpr h.distinct, ?_, ?_⟩
  · exact (status_setStatus _ x x .RUNNING).trans (if_pos rfl)
  · exact fun h0 => h.pids x (hmem x (by simp)) ((hkeep x).1.symm.trans h0)
  · exact congrArg Nat.cast (((hkeep x).2).trans (h.priority x (hmem x (by simp))))
  · intro p hp
    exact ((hd p .RUNNING).2.trans (hkeep p).2).trans (h.priority p (hmem p hp))
  · intro p hp
    rw [show (dispatch { leaveCurrent { s with quantums := s.quantums - 1 } rsp with
      readyProcess := r, heap := heap } x).2.pid p = s.pid p from
      (hd p .RUNNING).1.trans (hkeep p).1]
    exact h.pids p (hmem p hp)
  · exact fun h0 => h.qty (hqty.symm.trans h0)

omit [MemoryManager H] in
theorem Turns.quantums_iff {w : Pcb → Nat} {s : Scheduler H} {c : Pcb} {rest : List Pcb}
    {left : Nat} (h : Turns w s c rest left) : s.quantums ≤ 1 ↔ left ≤ 1 := by
  rw [h.left]
  omega

/-- A tick inside a quantum only counts. -/
theorem Turns.count {w : Pcb → Nat} {s : Scheduler H} {c : Pcb} {rest : List Pcb} {left : Nat}
    (h : Turns w s c rest left) (hq : ¬ left ≤ 1) (rsp : Addr) :
    Turns w (schedule s rsp).2 c rest (left - 1) := by
  have hleft := h.left
  have hs : (schedule s rsp).2 = { s with quantums := s.quantums - 1 } := by
    unfold schedule
    dsimp only
    rw [if_pos (Or.inr (by omega))]
  rw [hs]
  exact ⟨h.current, h.running, h.currentPid, h.ready, by dsimp only; omega, h.priority,
    h.distinct, h.pids, h.qty⟩

/-- The beats turn the wheel tick by tick. -/
theorem Turns.beats {w : Pcb → Nat} {beats : List (Beat H)} {s : Scheduler H} {c : Pcb}
    {rest : List Pcb} {left : Nat} (h : Turns w s c rest left)
    (hu : Meets beat undisturbed s beats) (hg : Meets beat grantsNode s beats) :
    runners s beats = ran w beats.length ⟨left, c :: rest⟩ ∧
      dispatchOrder s beats = turns w beats.length ⟨left, c :: rest⟩ := by
  induction beats generalizing s c rest left with
  | nil => exact ⟨rfl, rfl⟩
  | cons b beats ih =>
    have hb := h.keeps hu.1
    have hcur : runner s b = [c] := by simp [runner, hb.current]
    by_cases hleft : left ≤ 1
    · have hsw : switches b.found (.schedule b.rsp) := ⟨hb.qty, hb.quantums_iff.mpr hleft⟩
      obtain ⟨x, xs, hx⟩ : ∃ x xs, rest ++ [c] = x :: xs :=
        List.exists_cons_of_ne_nil (by simp)
      have hnext := hb.switch hsw.2 (hg.1 hsw) b.rsp hx
      obtain ⟨hran, hturns⟩ := ih hnext hu.2 hg.2
      have htick : tick w ⟨left, c :: rest⟩ = ⟨w x, x :: xs⟩ := by
        simp [tick, hleft, fresh, hx]
      have hd : (dispatched b.found (.schedule b.rsp)).toList = [x] := by
        rw [dispatched, if_pos hsw, exec, hnext.current]
        rfl
      constructor
      · rw [runners, servedAlong, hcur, List.length_cons, ran, htick, ← hran]
        rfl
      · rw [dispatchOrder, servedAlong, hd, List.length_cons, turns, htick, if_pos hleft,
          turned_cons, hx, ← hturns]
        rfl
    · have hsw : ¬ switches b.found (.schedule b.rsp) := fun hs =>
        hleft (hb.quantums_iff.mp hs.2)
      obtain ⟨hran, hturns⟩ := ih (hb.count hleft b.rsp) hu.2 hg.2
      have htick : tick w ⟨left, c :: rest⟩ = ⟨left - 1, c :: rest⟩ := by
        simp [tick, hleft]
      have hd : (dispatched b.found (.schedule b.rsp)).toList = [] := by
        rw [dispatched, if_neg hsw]
        rfl
      constructor
      · rw [runners, servedAlong, hcur, List.length_cons, ran, htick, ← hran]
        rfl
      · rw [dispatchOrder, servedAlong, hd, List.length_cons, turns, htick, if_neg hleft,
          ← hturns]
        rfl

/-! ## Every dispatch -/

theorem fullQuantum_switches (hn : Serves H NODE_SIZE) {s : Scheduler H} (h : Inv s.view) {op : Op}
    (hok : sparesIdle s op) (hs : switches s op) : FullQuantum (exec s op).view := by
  obtain ⟨t, hcore, hcur, ht⟩ := exec_switches hn h hok hs
  rw [ht]
  exact fullQuantum_switch hcore hcur

/-- A call that ends in a switch leaves a process that was just dispatched. -/
theorem atDispatch_switches (hn : Serves H NODE_SIZE) {s : Scheduler H} (h : Inv s.view) {op : Op}
    (hok : sparesIdle s op) (hs : switches s op) : ∃ c, AtDispatch (exec s op) c := by
  have hinv := inv_exec hn s op h hok
  obtain ⟨c, hcur, hq⟩ := fullQuantum_switches hn h hok hs
  obtain ⟨hc, hrun⟩ := currentRuns_switches hn h hok hs c hcur
  have hsub : ∀ p ∈ c :: (exec s op).ready, p ∈ (exec s op).procs := by
    intro p hp
    rcases List.mem_cons.mp hp with rfl | hr
    · exact hc
    · exact ((hinv.core.mem_ready p).mp hr).1
  have hpid : ∀ p ∈ (exec s op).procs, (exec s op).pid p ≠ NO_PROCESS := by
    intro p hp h0
    have : (0 : Int) ≤ (exec s op).pid p := (hinv.core.pid_range p hp).1
    rw [h0, NO_PROCESS] at this
    omega
  refine ⟨c, hcur, hrun, ?_, hq, ?_, fun p hp => hpid p (hsub p hp), qty_ne_zero hinv.core⟩
  · exact fun h0 => hpid c hc ((hinv.cur.some_pid c hcur).1.symm.trans h0)
  · refine List.nodup_cons.mpr ⟨fun hr => ?_, hinv.core.ready_nodup⟩
    have := ((hinv.core.mem_ready c).mp hr).2.1
    rw [hrun] at this
    cases this

/-! ## Every run of ticks -/

/-- From a dispatch on, while nobody enters or leaves the ready queue and each
switch gets its list node: `k` rounds give every process `k` times its priority
in ticks, and every round dispatches in the same order. Every switch of a kernel
that serves list nodes is such a dispatch. -/
theorem schedule_shares_the_processor_while_nodes_are_granted {s : Scheduler H} {c : Pcb}
    (h : AtDispatch s c) (hp : ∀ p ∈ c :: s.ready, 1 ≤ (s.pcb p).priority) (k : Nat)
    {beats : List (Beat H)}
    (hlen : beats.length = k * ticksOf (fun p => (s.pcb p).priority) (c :: s.ready))
    (hu : Meets beat undisturbed s beats) (hg : Meets beat grantsNode s beats) :
    (∀ p ∈ c :: s.ready, (runners s beats).count p = k * (s.pcb p).priority) ∧
      dispatchOrder s beats = (List.replicate k (s.ready ++ [c])).flatten ∧
      (Serves H NODE_SIZE → ∀ boot : Scheduler H, Booted boot → ∀ ops op,
        Meets exec sparesIdle boot ops → sparesIdle (run exec boot ops) op →
          switches (run exec boot ops) op →
            ∃ c', AtDispatch (exec (run exec boot ops) op) c') := by
  obtain ⟨hran, hturns⟩ := h.turns.beats hu hg
  obtain ⟨hr, ht⟩ := rounds (w := fun p => (s.pcb p).priority) hp k
  rw [hlen] at hran hturns
  refine ⟨fun p hm => ?_, hturns.trans ht, fun hn boot hboot ops op hok hop hs => ?_⟩
  · rw [hran]
    exact (congrArg (List.count p) hr).trans (count_rounds _ h.distinct hm k)
  · have hinv : Inv (run exec boot ops).view :=
      run_invariant (I := fun s : Scheduler H => Inv s.view) (inv_exec hn) (inv_booted hn hboot) hok
    exact atDispatch_switches hn hinv hop hs

/-! ## Ticks with nothing in between -/

/-- `n` ticks in a row. -/
def inARow : Nat → Scheduler H → List (Beat H)
  | 0, _ => []
  | n + 1, s => ⟨s, 0⟩ :: inARow n (schedule s 0).2

omit [MemoryManager H] in
theorem undisturbed_heap (s : Scheduler H) (heap : H) (hq : s.processQty ≠ 0) :
    Undisturbed s { s with heap := heap } :=
  ⟨rfl, rfl, rfl, rfl, hq, fun _ _ => ⟨rfl, rfl, rfl⟩⟩

theorem qty_leaveCurrent (s : Scheduler H) (rsp : Addr) :
    (leaveCurrent s rsp).processQty = s.processQty := by
  unfold leaveCurrent
  split
  · rfl
  · split
    · rfl
    · dsimp only
      split <;> rfl

theorem qty_schedule (s : Scheduler H) (rsp : Addr) :
    (schedule s rsp).2.processQty = s.processQty := by
  unfold schedule
  dsimp only
  split
  · rfl
  unfold switch
  split
  · split <;> rfl
  · dsimp only
    split
    · split
      · exact qty_leaveCurrent _ rsp
      · exact qty_leaveCurrent _ rsp
    · exact qty_leaveCurrent _ rsp

theorem undisturbed_inARow (n : Nat) {s : Scheduler H} (hq : s.processQty ≠ 0) :
    Meets beat undisturbed s (inARow n s) := by
  induction n generalizing s with
  | zero => trivial
  | succ n ih =>
    exact ⟨undisturbed_heap s s.heap hq, ih (fun h0 => hq ((qty_schedule s 0).symm.trans h0))⟩

/-- One process takes from the heap before the first of the ticks. -/
theorem undisturbed_after (s : Scheduler H) (heap : H) (n : Nat) (hq : s.processQty ≠ 0) :
    Meets beat undisturbed s
      (⟨{ s with heap := heap }, 0⟩ :: inARow n (schedule { s with heap := heap } 0).2) := by
  refine ⟨undisturbed_heap s heap hq, undisturbed_inARow n fun h0 => hq ?_⟩
  exact (qty_schedule { s with heap := heap } 0).symm.trans h0

/-- Idle and two processes, of which the first has three ticks and was just
dispatched. -/
def threeInTurn : Scheduler Endless :=
  run exec endlessBoot [.createProcess 2 none 0 3 none 0, .createProcess 3 none 0 1 none 0,
    .schedule 4, .schedule 5]

theorem atDispatch_threeInTurn : AtDispatch threeInTurn 1 :=
  ⟨by decide, by decide, by decide, by decide, by decide, by decide, by decide⟩

/-- Two rounds of ten ticks. -/
theorem schedule_shares_two_rounds_of_three :
    (∀ p ∈ 1 :: threeInTurn.ready,
      (runners threeInTurn (inARow 10 threeInTurn)).count p =
        2 * (threeInTurn.pcb p).priority) ∧
      dispatchOrder threeInTurn (inARow 10 threeInTurn) =
        (List.replicate 2 (threeInTurn.ready ++ [1])).flatten := by
  obtain ⟨hcount, horder, -⟩ := schedule_shares_the_processor_while_nodes_are_granted
    atDispatch_threeInTurn (by decide) 2 (by decide) (undisturbed_inARow 10 (by decide)) (by decide)
  exact ⟨hcount, horder⟩

/-! ## A full heap -/

/-- A heap of 150 blocks. -/
def smallHeap : bitmap_heap.Manager := (bitmap_heap.mm_create ⟨4096, 9782, by decide⟩).get rfl

def smallBoot : Scheduler bitmap_heap.Manager :=
  (createScheduler 1 smallHeap).get (by decide +kernel)

/-- Idle waits behind a process that was just dispatched. -/
def twoInTurn : Scheduler bitmap_heap.Manager :=
  run exec smallBoot [.createProcess 2 none 0 1 none 0, .schedule 3, .schedule 4]

/-- The process takes the four blocks that are left, and has spent its tick. -/
def fullHeap : Scheduler bitmap_heap.Manager :=
  { twoInTurn with heap := (mm_alloc 256 twoInTurn.heap).2 }

def crowdedBeats : List (Beat bitmap_heap.Manager) :=
  ⟨fullHeap, 0⟩ :: inARow 3 (schedule fullHeap 0).2

/-- `schedule` does not ask whether `addNode` failed: the process is RUNNING no
more and in no queue. -/
theorem a_process_that_fills_the_heap_loses_its_turn :
    createScheduler 1 smallHeap = some smallBoot ∧ AtDispatch twoInTurn 1 ∧
      (∀ p ∈ 1 :: twoInTurn.ready, 1 ≤ (twoInTurn.pcb p).priority) ∧
      Meets beat undisturbed twoInTurn crowdedBeats ∧
      crowdedBeats.length =
        2 * ticksOf (fun p => (twoInTurn.pcb p).priority) (1 :: twoInTurn.ready) ∧
      (runners twoInTurn crowdedBeats).count 1 ≠ 2 * (twoInTurn.pcb 1).priority := by
  have h : (twoInTurn.currentProcess = some 1 ∧ twoInTurn.status 1 = .RUNNING ∧
      twoInTurn.currentPid ≠ NO_PROCESS ∧ twoInTurn.quantums = (twoInTurn.pcb 1).priority ∧
      (1 :: twoInTurn.ready).Nodup ∧ (∀ p ∈ 1 :: twoInTurn.ready, twoInTurn.pid p ≠ NO_PROCESS) ∧
      twoInTurn.processQty ≠ 0) ∧
      (∀ p ∈ 1 :: twoInTurn.ready, 1 ≤ (twoInTurn.pcb p).priority) ∧
      crowdedBeats.length =
        2 * ticksOf (fun p => (twoInTurn.pcb p).priority) (1 :: twoInTurn.ready) ∧
      (runners twoInTurn crowdedBeats).count 1 ≠ 2 * (twoInTurn.pcb 1).priority := by
    decide +kernel
  obtain ⟨⟨h1, h2, h3, h4, h5, h6, h7⟩, hp, hlen, hne⟩ := h
  refine ⟨(Option.some_get _).symm, ⟨h1, h2, h3, h4, h5, h6, h7⟩, hp, ?_, hlen, hne⟩
  unfold crowdedBeats fullHeap
  exact undisturbed_after twoInTurn _ 3 h7

end bare_bones.scheduler
