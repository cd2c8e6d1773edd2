-- `test_sync.c`: processes that add to a shared variable in a critical section.
-- A tick may come between any two steps, so `slowInc` is taken apart.
import BareBones.Lib.Fifo
import BareBones.Programs
import BareBones.SemaphoreAccounting
import Mathlib.Tactic.Ring

namespace bare_bones.test_sync

open bare_bones.doubleLinkedList bare_bones.process bare_bones.scheduler bare_bones.semaphore
open bare_bones.program
open runs token_semaphore

variable {H : Type}

def SEM_ID : Int := 100

/-- Where a process is in `my_process_inc`. -/
inductive Line
  | start | sem_open | loop | sem_wait | load | yield | add | store | sem_post | next
  | kill | leave | finished
deriving DecidableEq

/-- The arguments and the locals of `my_process_inc`, the numbers as `satoi`
gives them. -/
structure Worker where
  argc : Nat
  n : Nat
  inc : BitVec 8
  use_sem : BitVec 8
  i : Nat
  /-- `aux` of `slowInc`. -/
  aux : BitVec 64
  line : Line
deriving DecidableEq

/-- The system call of a line. `sys_exit` kills the process and yields. -/
def Worker.call (w : Worker) (pid : Int) (rsp : Addr) : List Call :=
  match w.line with
  | .sem_wait => [.sem_wait SEM_ID rsp]
  | .yield => [.scheduler (.yield rsp)]
  | .sem_post => [.sem_post SEM_ID]
  | .kill => [.scheduler (.killProcess pid)]
  | .leave => [.scheduler (.yield rsp)]
  | _ => []

/-- The line after a line. `opened` is the result of `sys_sem_open`. -/
def Worker.goto (w : Worker) (opened : Int) : Line :=
  match w.line with
  | .start =>
    if w.argc ≠ 3 ∨ w.n = 0 ∨ w.inc = 0 ∨ w.use_sem.slt 0 then .kill
    else if w.use_sem ≠ 0 then .sem_open else .loop
  | .sem_open => if opened ≠ 0 then .kill else .loop
  | .loop => if w.i < w.n then (if w.use_sem ≠ 0 then .sem_wait else .load) else .kill
  | .sem_wait => .load
  | .load => .yield
  | .yield => .add
  | .add => .store
  | .store => if w.use_sem ≠ 0 then .sem_post else .next
  | .sem_post => .next
  | .next => .loop
  | .kill => .leave
  | .leave | .finished => .finished

/-- The `int8_t` increment as the `int64_t` argument of `slowInc`. -/
def Worker.inc64 (w : Worker) : BitVec 64 := w.inc.signExtend 64

def my_process_inc (w : Worker) (opened : Int) (global : BitVec 64) : Worker × BitVec 64 :=
  let w' := { w with line := w.goto opened }
  match w.line with
  | .load => ({ w' with aux := global }, global)
  | .add => ({ w' with aux := w.aux + w.inc64 }, global)
  | .store => (w', w.aux)
  | .next => ({ w' with i := w.i + 1 }, global)
  | _ => (w', global)

/-- Some processes run `my_process_inc`, the others something else. -/
def team : Program H (Option Worker) (BitVec 64) := fun s p w global rsp =>
  match w with
  | none => ([], none, global)
  | some w =>
    let (w', global') := my_process_inc w (semaphore.sem_open s.kernel SEM_ID) global
    (w.call (s.table.pid p) rsp, some w', global')

/-! ## The invariant -/

/-- The lines between the wait and the post. -/
def Line.inSection : Line → Bool
  | .load | .yield | .add | .store | .sem_post => true
  | _ => false

/-- The round of the loop is in the shared variable already. -/
def Line.stored : Line → Nat
  | .sem_post | .next => 1
  | _ => 0

def Worker.rounds (w : Worker) : Prop :=
  match w.line with
  | .start | .sem_open | .loop => w.i ≤ w.n
  | .kill | .leave | .finished => w.i = w.n
  | _ => w.i < w.n

/-- What a process that passes the checks keeps. -/
structure Worker.Ok (w : Worker) (global : BitVec 64) : Prop where
  args : w.argc = 3 ∧ w.n ≠ 0 ∧ w.inc ≠ 0 ∧ w.use_sem.slt 0 = false ∧ w.use_sem ≠ 0
  rounds : w.rounds
  loaded : w.line = .yield ∨ w.line = .add → w.aux = global
  added : w.line = .store → w.aux = global + w.inc64

section Goto

variable {w : Worker} {global : BitVec 64}

theorem Worker.Ok.goto_start (h : w.Ok global) (hline : w.line = .start) :
    w.goto 0 = .sem_open := by
  obtain ⟨hargc, hzero, hinc, hslt, huse⟩ := h.args
  simp only [Worker.goto, hline]
  rw [if_neg, if_pos huse]
  rintro (hc | hc | hc | hc)
  · exact hc hargc
  · exact hzero hc
  · exact hinc hc
  · rw [hslt] at hc
    cases hc

theorem Worker.Ok.goto_loop (h : w.Ok global) (hline : w.line = .loop) :
    w.goto 0 = if w.i < w.n then .sem_wait else .kill := by
  simp only [Worker.goto, hline]
  rw [if_pos h.args.2.2.2.2]

theorem Worker.Ok.goto_store (h : w.Ok global) (hline : w.line = .store) :
    w.goto 0 = .sem_post := by
  simp only [Worker.goto, hline]
  exact if_pos h.args.2.2.2.2

end Goto

def inSection (w : Option Worker) : Bool := w.any (·.line.inSection)

/-- What a process added so far. -/
def part : Option Worker → Int
  | none => 0
  | some w => (w.i + w.line.stored : Nat) * w.inc.toInt

/-- What a process adds in all. -/
def sum : Option Worker → Int
  | none => 0
  | some w => w.n * w.inc.toInt

abbrev Team (H : Type) := Machine H (Option Worker) (BitVec 64)

structure InSync (ps : Finset Pcb) (m : Team H) : Prop where
  sound : Sound m.system
  counts : Counts 1 SEM_ID m.system
  fair : (m.system.ledger SEM_ID).Fair
  arrived : ∀ p, (m.system.ledger SEM_ID).arrived.count p =
    ((m.system.ledger SEM_ID).posted : Multiset (Option Pcb)).count (some p) +
      (inSection (m.locals p)).toNat
  blocked : ∀ p ∈ m.system.blockedOn SEM_ID, ∃ w, m.locals p = some w ∧ w.line = .load
  workers : ∀ p w, m.locals p = some w → p ∈ ps ∧ w.Ok m.shared
  total : m.shared = BitVec.ofInt 64 (∑ p ∈ ps, part (m.locals p))

theorem InSync.not_blocked {ps : Finset Pcb} {m : Team H} (h : InSync ps m) {p : Pcb}
    (hcur : m.system.scheduler.currentProcess = some p) : p ∉ m.system.blockedOn SEM_ID :=
  fun hb => h.sound.inv.not_blocked p hcur (h.sound.asleep _ (mem_blockedOn.mp hb)).2

/-- Who is between the wait and the post, and past its wait, holds the token. -/
theorem InSync.holds {ps : Finset Pcb} {m : Team H} (h : InSync ps m) {p : Pcb}
    (hin : inSection (m.locals p) = true) (hb : p ∉ m.system.blockedOn SEM_ID) :
    (m.system.ledger SEM_ID).Holds p := by
  have harrived := h.arrived p
  rw [hin] at harrived
  exact holds_of_count h.counts.balanced harrived hb

/-! ## The steps -/

section Steps

variable {ps : Finset Pcb} {m : Team H} {p : Pcb} {w u : Worker}

/-- One process moves on: what to check of it, of the semaphore, and of the
others when the shared variable changes. -/
theorem inSync_set (h : InSync ps m) (hw : m.locals p = some w) {s' : System H}
    {global : BitVec 64} (hsound : Sound s') (hcounts : Counts 1 SEM_ID s')
    (hfair : (s'.ledger SEM_ID).Fair)
    (hself : (s'.ledger SEM_ID).arrived.count p =
      ((s'.ledger SEM_ID).posted : Multiset (Option Pcb)).count (some p) + u.line.inSection.toNat)
    (hothers : ∀ q, q ≠ p →
      (s'.ledger SEM_ID).arrived.count q = (m.system.ledger SEM_ID).arrived.count q ∧
      ((s'.ledger SEM_ID).posted : Multiset (Option Pcb)).count (some q) =
        ((m.system.ledger SEM_ID).posted : Multiset (Option Pcb)).count (some q))
    (hblocked : ∀ q ∈ s'.blockedOn SEM_ID,
      (q ≠ p ∧ q ∈ m.system.blockedOn SEM_ID) ∨ (q = p ∧ u.line = .load))
    (hok : u.Ok global) (hoks : ∀ q v, q ≠ p → m.locals q = some v → v.Ok global)
    (htotal : global = m.shared + BitVec.ofInt 64 (part (some u) - part (some w))) :
    InSync ps ⟨s', Function.update m.locals p (some u), global⟩ := by
  refine ⟨hsound, hcounts, hfair, fun q => ?_, fun q hq => ?_, fun q v hv => ?_, ?_⟩
  · dsimp only
    by_cases hq : q = p
    · rw [hq, Function.update_self, hself]
      rfl
    · rw [Function.update_of_ne hq, (hothers q hq).1, (hothers q hq).2]
      exact h.arrived q
  · dsimp only
    rcases hblocked q hq with ⟨hqp, hb⟩ | ⟨rfl, hload⟩
    · rw [Function.update_of_ne hqp]
      exact h.blocked q hb
    · exact ⟨u, Function.update_self _ _ _, hload⟩
  · dsimp only at hv ⊢
    by_cases hq : q = p
    · rw [hq, Function.update_self] at hv
      rw [hq, ← Option.some.inj hv]
      exact ⟨(h.workers p w hw).1, hok⟩
    · rw [Function.update_of_ne hq] at hv
      exact ⟨(h.workers q v hv).1, hoks q v hq hv⟩
  · dsimp only
    have htally := tally_update part m.locals (h.workers p w hw).1 (some u)
    rw [hw] at htally
    rw [htotal, h.total, ← BitVec.ofInt_add]
    exact congrArg _ (by omega)

/-- A step that leaves the semaphore and the shared variable alone. -/
theorem inSync_quiet (h : InSync ps m) (hcur : m.system.scheduler.currentProcess = some p)
    (hw : m.locals p = some w) {s' : System H} (hsound : Sound s')
    (hcounts : Counts 1 SEM_ID s') (htokens : s'.tokens SEM_ID = m.system.tokens SEM_ID)
    (hledger : s'.ledger SEM_ID = m.system.ledger SEM_ID)
    (hin : u.line.inSection = w.line.inSection) (hok : u.Ok m.shared)
    (hpart : part (some u) = part (some w)) :
    InSync ps ⟨s', Function.update m.locals p (some u), m.shared⟩ := by
  have hblocked : s'.blockedOn SEM_ID = m.system.blockedOn SEM_ID := congrArg Tokens.queue htokens
  refine inSync_set h hw hsound hcounts ?_ ?_ ?_ ?_ hok
    (fun q v _ hv => (h.workers q v hv).2) ?_
  · rw [hledger]
    exact h.fair
  · have harrived := h.arrived p
    rw [hw] at harrived
    rw [hledger, hin]
    exact harrived
  · intro q _
    rw [hledger]
    exact ⟨rfl, rfl⟩
  · intro q hq
    rw [hblocked] at hq
    exact Or.inl ⟨fun he => h.not_blocked hcur (he ▸ hq), hq⟩
  · rw [hpart, Int.sub_self]
    exact (BitVec.add_zero _).symm

/-- The store: nobody else is between the load and the store. -/
theorem inSync_store (h : InSync ps m) (hcur : m.system.scheduler.currentProcess = some p)
    (hw : m.locals p = some w) (hline : w.line = .store) :
    InSync ps ⟨m.system, Function.update m.locals p (some { w with line := .sem_post }),
      w.aux⟩ := by
  have hp := h.holds (p := p) (by rw [hw, inSection, Option.any_some, hline]; rfl)
    (h.not_blocked hcur)
  have hok := (h.workers p w hw).2
  have haux : w.aux = m.shared + w.inc64 := hok.added hline
  -- whoever else is in the section waits, so it is at its load
  have hload : ∀ q v, q ≠ p → m.locals q = some v → v.line.inSection = true → v.line = .load := by
    intro q v hq hv hin
    by_contra hne
    refine hq (one_holds h.counts.balanced h.fair (h.holds (by rw [hv]; exact hin) ?_) hp)
    intro hb
    obtain ⟨v', hv', hl⟩ := h.blocked q hb
    rw [hv] at hv'
    exact hne (Option.some.inj hv' ▸ hl)
  refine inSync_set h hw h.sound h.counts h.fair ?_ (fun _ _ => ⟨rfl, rfl⟩) ?_ ?_ ?_ ?_
  · have harrived := h.arrived p
    rw [hw, inSection, Option.any_some, hline] at harrived
    exact harrived
  · exact fun q hq => Or.inl ⟨fun he => h.not_blocked hcur (he ▸ hq), hq⟩
  · have hrounds := hok.rounds
    rw [Worker.rounds, hline] at hrounds
    exact ⟨hok.args, hrounds, fun hl => by simp at hl, fun hl => by simp at hl⟩
  · intro q v hq hv
    have hok' := (h.workers q v hv).2
    refine ⟨hok'.args, hok'.rounds, fun hl => ?_, fun hl => ?_⟩
    · have := hload q v hq hv (by rcases hl with hl | hl <;> rw [hl] <;> rfl)
      rw [this] at hl
      simp at hl
    · have := hload q v hq hv (by rw [hl]; rfl)
      rw [this] at hl
      cases hl
  · have hdiff : part (some { w with line := .sem_post }) - part (some w) = w.inc.toInt := by
      simp only [part, hline, Line.stored]
      push_cast
      ring
    rw [hdiff]
    exact haux

variable [MemoryManager H]

/-- The wait: the process is inside once it is served. -/
theorem inSync_wait (hn : Serves H NODE_SIZE) (hm : Serves H PID_SIZE) (h : InSync ps m)
    (hcur : m.system.scheduler.currentProcess = some p) (hw : m.locals p = some w)
    (hline : w.line = .sem_wait) {rsp : Addr}
    (hok : undisturbed SEM_ID m.system (.sem_wait SEM_ID rsp)) :
    InSync ps ⟨step m.system (.sem_wait SEM_ID rsp),
      Function.update m.locals p (some { w with line := .load }), m.shared⟩ := by
  obtain ⟨htokens, hledger, hcounts⟩ := counts_wait hn hm h.sound h.counts hok hcur
  have hwok := (h.workers p w hw).2
  refine inSync_set h hw (sound_step hn _ _ h.sound hok.1) hcounts ?_ ?_ ?_ ?_ ?_
    (fun q v _ hv => (h.workers q v hv).2) ?_
  · rw [hledger]
    exact fair_grant h.fair _ _
  · have harrived := h.arrived p
    rw [hw, inSection, Option.any_some, hline] at harrived
    rw [hledger, Ledger.wait]
    dsimp only
    rw [List.count_append, harrived, List.count_singleton_self]
    rfl
  · intro q hq
    rw [hledger, Ledger.wait]
    dsimp only
    rw [List.count_append, List.count_singleton, if_neg (by simpa using Ne.symm hq)]
    exact ⟨rfl, rfl⟩
  · intro q hq
    have hq' : q ∈ ((m.system.tokens SEM_ID).wait p).queue := htokens ▸ hq
    unfold Tokens.wait at hq'
    split at hq'
    · exact Or.inl ⟨fun he => h.not_blocked hcur (he ▸ hq'), hq'⟩
    · rcases List.mem_append.mp hq' with hq' | hq'
      · exact Or.inl ⟨fun he => h.not_blocked hcur (he ▸ hq'), hq'⟩
      · exact Or.inr ⟨List.mem_singleton.mp hq', rfl⟩
  · have hrounds := hwok.rounds
    rw [Worker.rounds, hline] at hrounds
    exact ⟨hwok.args, hrounds, fun hl => by simp at hl, fun hl => by simp at hl⟩
  · simp [part, hline, Line.stored]

/-- The post: the token goes back or to the next waiter. -/
theorem inSync_post (hn : Serves H NODE_SIZE) (h : InSync ps m)
    (hcur : m.system.scheduler.currentProcess = some p) (hw : m.locals p = some w)
    (hline : w.line = .sem_post) (hok : undisturbed SEM_ID m.system (.sem_post SEM_ID)) :
    InSync ps ⟨step m.system (.sem_post SEM_ID),
      Function.update m.locals p (some { w with line := .next }), m.shared⟩ := by
  have hp := h.holds (p := p) (by rw [hw, inSection, Option.any_some, hline]; rfl)
    (h.not_blocked hcur)
  have hroom : (m.system.sem SEM_ID).counter + 1 < 2 ^ 32 := by
    have hlt : (m.system.sem SEM_ID).counter < 1 := counter_lt h.counts.balanced h.fair hp
    omega
  obtain ⟨htokens, hledger, hcounts⟩ := counts_post hn h.sound h.counts hok hroom
  have hwok := (h.workers p w hw).2
  rw [hcur] at hledger
  refine inSync_set h hw (sound_step hn _ _ h.sound hok.1) hcounts ?_ ?_ ?_ ?_ ?_
    (fun q v _ hv => (h.workers q v hv).2) ?_
  · rw [hledger]
    exact fair_post h.fair hp _
  · have harrived := h.arrived p
    rw [hw, inSection, Option.any_some, hline] at harrived
    rw [hledger, Ledger.post]
    dsimp only
    rw [harrived, ← Multiset.coe_add, Multiset.count_add, Multiset.coe_singleton,
      Multiset.count_singleton_self]
    rfl
  · intro q hq
    rw [hledger, Ledger.post]
    dsimp only
    rw [← Multiset.coe_add, Multiset.count_add, Multiset.coe_singleton, Multiset.count_singleton,
      if_neg (by simpa using hq)]
    exact ⟨rfl, rfl⟩
  · intro q hq
    have hq' : q ∈ (m.system.tokens SEM_ID).post.queue := htokens ▸ hq
    have hb : q ∈ m.system.blockedOn SEM_ID := by
      unfold Tokens.post at hq'
      split at hq'
      · exact hq'
      · rename_i a rest he
        rw [show m.system.blockedOn SEM_ID = a :: rest from he]
        exact List.mem_cons_of_mem a hq'
    exact Or.inl ⟨fun he => h.not_blocked hcur (he ▸ hb), hb⟩
  · have hrounds := hwok.rounds
    rw [Worker.rounds, hline] at hrounds
    exact ⟨hwok.args, hrounds, fun hl => by simp at hl, fun hl => by simp at hl⟩
  · simp [part, hline, Line.stored]

/-- A call of the program that is none on the semaphore. -/
theorem inSync_call (hn : Serves H NODE_SIZE) (h : InSync ps m)
    (hcur : m.system.scheduler.currentProcess = some p) (hw : m.locals p = some w) {op : Op}
    (hok : undisturbed SEM_ID m.system (.scheduler op))
    (hin : u.line.inSection = w.line.inSection) (hwok : u.Ok m.shared)
    (hpart : part (some u) = part (some w)) :
    InSync ps ⟨step m.system (.scheduler op), Function.update m.locals p (some u), m.shared⟩ := by
  obtain ⟨htokens, hledger, hcounts⟩ := counts_other hn h.sound h.counts hok (by simp) (by simp)
  exact inSync_quiet h hcur hw (sound_step hn _ _ h.sound hok.1) hcounts htokens hledger hin hwok
    hpart

/-- A call that is not of the program, and none on the semaphore. -/
theorem inSync_other (hn : Serves H NODE_SIZE) (h : InSync ps m) {c : Call}
    (hok : undisturbed SEM_ID m.system c) (hnames : ¬ names SEM_ID c) :
    InSync ps { m with system := step m.system c } := by
  obtain ⟨htokens, hledger, hcounts⟩ := counts_other hn h.sound h.counts hok
    (fun rsp hc => hnames (hc ▸ rfl)) (fun hc => hnames (hc ▸ rfl))
  have hblocked : (step m.system c).blockedOn SEM_ID = m.system.blockedOn SEM_ID :=
    congrArg Tokens.queue htokens
  refine ⟨sound_step hn _ _ h.sound hok.1, hcounts, ?_, ?_, ?_, h.workers, h.total⟩
  · rw [hledger]
    exact h.fair
  · dsimp only
    rw [hledger]
    exact h.arrived
  · dsimp only
    rw [hblocked]
    exact h.blocked

omit [MemoryManager H] in
theorem sem_open_counts (h : InSync ps m) : semaphore.sem_open m.system.kernel SEM_ID = 0 := by
  unfold semaphore.sem_open
  rw [if_neg (by rw [h.counts.valid]; decide)]
  exact if_pos h.counts.active

/-- A line of the program without a call. -/
theorem inSync_local (h : InSync ps m)
    (hcur : m.system.scheduler.currentProcess = some p) (hw : m.locals p = some w) {rsp : Addr}
    (hcall : w.call (m.system.table.pid p) rsp = [])
    (hnext : my_process_inc w 0 m.shared = (u, m.shared))
    (hin : u.line.inSection = w.line.inSection) (hwok : u.Ok m.shared)
    (hpart : part (some u) = part (some w)) :
    InSync ps ⟨run step m.system (w.call (m.system.table.pid p) rsp),
      Function.update m.locals p (some (my_process_inc w 0 m.shared).1),
      (my_process_inc w 0 m.shared).2⟩ := by
  rw [hcall, hnext]
  exact inSync_quiet h hcur hw h.sound h.counts rfl rfl hin hwok hpart

/-- A line of the program with a call that is none on the semaphore. -/
theorem inSync_calls (hn : Serves H NODE_SIZE) (h : InSync ps m)
    (hcur : m.system.scheduler.currentProcess = some p) (hw : m.locals p = some w) {rsp : Addr}
    {op : Op} (hcall : w.call (m.system.table.pid p) rsp = [.scheduler op])
    (hok : Meets step (undisturbed SEM_ID) m.system (w.call (m.system.table.pid p) rsp))
    (hnext : my_process_inc w 0 m.shared = (u, m.shared))
    (hin : u.line.inSection = w.line.inSection) (hwok : u.Ok m.shared)
    (hpart : part (some u) = part (some w)) :
    InSync ps ⟨run step m.system (w.call (m.system.table.pid p) rsp),
      Function.update m.locals p (some (my_process_inc w 0 m.shared).1),
      (my_process_inc w 0 m.shared).2⟩ := by
  rw [hcall] at hok
  rw [hcall, hnext]
  exact inSync_call hn h hcur hw hok.1 hin hwok hpart

theorem inSync_run (hn : Serves H NODE_SIZE) (hm : Serves H PID_SIZE) (h : InSync ps m)
    (hcur : m.system.scheduler.currentProcess = some p) (hw : m.locals p = some w) {rsp : Addr}
    (hok : Meets step (undisturbed SEM_ID) m.system (w.call (m.system.table.pid p) rsp)) :
    InSync ps ⟨run step m.system (w.call (m.system.table.pid p) rsp),
      Function.update m.locals p (some (my_process_inc w 0 m.shared).1),
      (my_process_inc w 0 m.shared).2⟩ := by
  have hwok := (h.workers p w hw).2
  have hrounds := hwok.rounds
  unfold Worker.rounds at hrounds
  cases hline : w.line with
  | start =>
    have hgoto := hwok.goto_start hline
    rw [hline] at hrounds
    exact inSync_local h hcur hw (u := { w with line := .sem_open })
      (by simp only [Worker.call, hline]) (by simp only [my_process_inc, hline, hgoto])
      (by rw [hline]; rfl) ⟨hwok.args, hrounds, by simp, by simp⟩
      (by simp [part, hline, Line.stored])
  | sem_open =>
    rw [hline] at hrounds
    exact inSync_local h hcur hw (u := { w with line := .loop })
      (by simp only [Worker.call, hline]) (by simp [my_process_inc, hline, Worker.goto])
      (by rw [hline]; rfl) ⟨hwok.args, hrounds, by simp, by simp⟩
      (by simp [part, hline, Line.stored])
  | loop =>
    rw [hline] at hrounds
    by_cases hi : w.i < w.n
    · have hgoto := hwok.goto_loop hline
      rw [if_pos hi] at hgoto
      exact inSync_local h hcur hw (u := { w with line := .sem_wait })
        (by simp only [Worker.call, hline]) (by simp only [my_process_inc, hline, hgoto])
        (by rw [hline]; rfl) ⟨hwok.args, hi, by simp, by simp⟩
        (by simp [part, hline, Line.stored])
    · exact inSync_local h hcur hw (u := { w with line := .kill })
        (by simp only [Worker.call, hline]) (by simp [my_process_inc, hline, Worker.goto, hi])
        (by rw [hline]; rfl)
        ⟨hwok.args, Nat.le_antisymm hrounds (Nat.le_of_not_lt hi), by simp, by simp⟩
        (by simp [part, hline, Line.stored])
  | sem_wait =>
    have hcall : w.call (m.system.table.pid p) rsp = [.sem_wait SEM_ID rsp] := by
      simp only [Worker.call, hline]
    have hstep := inSync_wait hn hm h hcur hw hline (hcall ▸ hok).1
    simpa only [hcall, my_process_inc, hline, Worker.goto, run, List.foldl] using hstep
  | load =>
    rw [hline] at hrounds
    exact inSync_local h hcur hw (u := { w with line := .yield, aux := m.shared })
      (by simp only [Worker.call, hline]) (by simp only [my_process_inc, hline, Worker.goto])
      (by rw [hline]; rfl) ⟨hwok.args, hrounds, by simp, by simp⟩
      (by simp [part, hline, Line.stored])
  | yield =>
    have hcall : w.call (m.system.table.pid p) rsp = [.scheduler (.yield rsp)] := by
      simp only [Worker.call, hline]
    rw [hline] at hrounds
    exact inSync_calls hn h hcur hw (u := { w with line := .add }) hcall hok
      (by simp only [my_process_inc, hline, Worker.goto])
      (by rw [hline]; rfl) ⟨hwok.args, hrounds, fun _ => hwok.loaded (Or.inl hline), by simp⟩
      (by simp [part, hline, Line.stored])
  | add =>
    rw [hline] at hrounds
    have haux : w.aux = m.shared := hwok.loaded (Or.inr hline)
    exact inSync_local h hcur hw (u := { w with line := .store, aux := w.aux + w.inc64 })
      (by simp only [Worker.call, hline]) (by simp only [my_process_inc, hline, Worker.goto])
      (by rw [hline]; rfl)
      ⟨hwok.args, hrounds, by simp, fun _ => congrArg (· + w.inc64) haux⟩
      (by simp [part, hline, Line.stored])
  | store =>
    have hgoto := hwok.goto_store hline
    have hstep := inSync_store h hcur hw hline
    simpa only [Worker.call, my_process_inc, hline, hgoto, run, List.foldl] using hstep
  | sem_post =>
    have hcall : w.call (m.system.table.pid p) rsp = [.sem_post SEM_ID] := by
      simp only [Worker.call, hline]
    have hstep := inSync_post hn h hcur hw hline (hcall ▸ hok).1
    simpa only [hcall, my_process_inc, hline, Worker.goto, run, List.foldl] using hstep
  | next =>
    rw [hline] at hrounds
    exact inSync_local h hcur hw (u := { w with line := .loop, i := w.i + 1 })
      (by simp only [Worker.call, hline]) (by simp only [my_process_inc, hline, Worker.goto])
      (by rw [hline]; rfl) ⟨hwok.args, hrounds, by simp, by simp⟩
      (by simp [part, hline, Line.stored])
  | kill =>
    have hcall : w.call (m.system.table.pid p) rsp =
        [.scheduler (.killProcess (m.system.table.pid p))] := by
      simp only [Worker.call, hline]
    rw [hline] at hrounds
    exact inSync_calls hn h hcur hw (u := { w with line := .leave }) hcall hok
      (by simp only [my_process_inc, hline, Worker.goto])
      (by rw [hline]; rfl) ⟨hwok.args, hrounds, by simp, by simp⟩
      (by simp [part, hline, Line.stored])
  | leave =>
    have hcall : w.call (m.system.table.pid p) rsp = [.scheduler (.yield rsp)] := by
      simp only [Worker.call, hline]
    rw [hline] at hrounds
    exact inSync_calls hn h hcur hw (u := { w with line := .finished }) hcall hok
      (by simp only [my_process_inc, hline, Worker.goto])
      (by rw [hline]; rfl) ⟨hwok.args, hrounds, by simp, by simp⟩
      (by simp [part, hline, Line.stored])
  | finished =>
    rw [hline] at hrounds
    exact inSync_local h hcur hw (u := { w with line := .finished })
      (by simp only [Worker.call, hline]) (by simp only [my_process_inc, hline, Worker.goto])
      (by rw [hline]) ⟨hwok.args, hrounds, by simp, by simp⟩
      (by simp [part, hline, Line.stored])

theorem inSync_next (hn : Serves H NODE_SIZE) (hm : Serves H PID_SIZE) (m : Team H) (e : Event)
    (h : InSync ps m) (hok : Allows team (undisturbed SEM_ID)
      (fun s c => undisturbed SEM_ID s c ∧ ¬ names SEM_ID c) m e) : InSync ps (next team m e) := by
  cases e with
  | other c => exact inSync_other hn h hok.1 hok.2
  | run rsp =>
    unfold next
    cases hcur : m.system.scheduler.currentProcess with
    | none => exact h
    | some p =>
      cases hw : m.locals p with
      | none =>
        have hself : Function.update m.locals p none = m.locals := by
          rw [← hw, Function.update_eq_self]
        simpa [team, hw, run, hself] using h
      | some w =>
        have hcall := hok p hcur
        simp only [team, hw] at hcall
        have hstep := inSync_run hn hm h hcur hw hcall
        simpa only [team, hw, sem_open_counts h] using hstep

end Steps

/-! ## Every run -/

/-- As `test_sync` starts them: `n` and `inc` are not 0, and the semaphore is
in use. -/
def Worker.Starts (w : Worker) : Prop :=
  w.argc = 3 ∧ w.n ≠ 0 ∧ w.inc ≠ 0 ∧ w.use_sem.slt 0 = false ∧ w.use_sem ≠ 0 ∧ w.i = 0 ∧
    w.line = .start

instance (w : Worker) : Decidable w.Starts := inferInstanceAs (Decidable (_ ∧ _))

/-- The team before its first step: the shared variable is 0, and each process
of `ps` runs `my_process_inc`. -/
structure Started (ps : Finset Pcb) (m : Team H) : Prop where
  workers : ∀ p, if p ∈ ps then ∃ w ∈ m.locals p, w.Starts else m.locals p = none
  global : m.shared = 0

def Finished (ps : Finset Pcb) (m : Team H) : Prop :=
  ∀ p ∈ ps, ∃ w ∈ m.locals p, w.line = .finished

instance (ps : Finset Pcb) (m : Team H) : Decidable (Finished ps m) :=
  inferInstanceAs (Decidable (∀ p ∈ ps, ∃ w ∈ m.locals p, w.line = .finished))

theorem inSync_started {ps : Finset Pcb} {m : Team H} (h : Started ps m) (hs : Sound m.system)
    (hc : Counts 1 SEM_ID m.system) (hl : m.system.ledger SEM_ID = ⟨[], [], []⟩)
    (hb : m.system.blockedOn SEM_ID = []) : InSync ps m := by
  have hworker : ∀ p w, m.locals p = some w → p ∈ ps ∧ w.Starts := by
    intro p w hw
    have hp := h.workers p
    split at hp
    · obtain ⟨w', hw', hst⟩ := hp
      rw [Option.mem_def, hw] at hw'
      rw [Option.some.inj hw']
      exact ⟨by assumption, hst⟩
    · rw [hw] at hp
      cases hp
  refine ⟨hs, hc, ?_, fun p => ?_, fun p hp => ?_, fun p w hw => ?_, ?_⟩
  · rw [hl]
    exact fair_start
  · rw [hl]
    cases hw : m.locals p with
    | none => rfl
    | some w =>
      obtain ⟨_, _, _, _, _, _, _, hline⟩ := hworker p w hw
      rw [inSection, Option.any_some, hline]
      rfl
  · rw [hb] at hp
    cases hp
  · obtain ⟨hp, hargc, hzero, hinc, hslt, huse, hi, hline⟩ := hworker p w hw
    refine ⟨hp, ⟨hargc, hzero, hinc, hslt, huse⟩, ?_, ?_, ?_⟩
    · rw [Worker.rounds, hline, hi]
      exact Nat.zero_le _
    · rw [hline]
      simp
    · rw [hline]
      simp
  · have hparts : ∑ p ∈ ps, part (m.locals p) = 0 := by
      apply Finset.sum_eq_zero
      intro p _
      cases hw : m.locals p with
      | none => rfl
      | some w =>
        obtain ⟨_, _, _, _, _, _, hi, hline⟩ := hworker p w hw
        simp [part, hi, hline, Line.stored]
    rw [hparts, h.global]
    rfl

variable [MemoryManager H]

/-- No step changes what a process adds in all. -/
theorem sum_next (m : Team H) (e : Event) (p : Pcb) :
    sum ((next team m e).locals p) = sum (m.locals p) := by
  cases e with
  | other c => rfl
  | run rsp =>
    unfold next
    cases hcur : m.system.scheduler.currentProcess with
    | none => rfl
    | some q =>
      by_cases hq : p = q
      · subst hq
        dsimp only
        rw [Function.update_self]
        cases hw : m.locals p with
        | none => rfl
        | some w =>
          obtain ⟨argc, n, inc, use_sem, i, aux, line⟩ := w
          cases line <;> rfl
      · dsimp only
        rw [Function.update_of_ne hq]

/-- The guard of a run of the team. -/
def safe : Team H → Event → Prop :=
  Allows team (undisturbed SEM_ID) (fun s c => undisturbed SEM_ID s c ∧ ¬ names SEM_ID c)

instance (m : Team H) (e : Event) : Decidable (safe m e) :=
  inferInstanceAs (Decidable (Allows team _ _ m e))

theorem sum_run (hn : Serves H NODE_SIZE) (hm : Serves H PID_SIZE) {s : System H}
    (h : FreshlyCreated 1 SEM_ID s) {ps : Finset Pcb} {m : Team H} (hs : m.system = s)
    (hstart : Started ps m) {es : List Event} (hok : Meets (next team) safe m es)
    (hdone : Finished ps (run (next team) m es)) :
    (run (next team) m es).shared = BitVec.ofInt 64 (∑ p ∈ ps, sum (m.locals p)) := by
  subst hs
  have h0 : InSync ps m := inSync_started hstart (h.sound hn) h.counts h.empty.2 h.empty.1
  have hrun : InSync ps (run (next team) m es) := run_invariant (inSync_next hn hm) h0 hok
  have hsum : ∀ p, sum ((run (next team) m es).locals p) = sum (m.locals p) :=
    run_invariant (I := fun m' => ∀ p, sum (m'.locals p) = sum (m.locals p))
      (fun m' e hs _ p => (sum_next m' e p).trans (hs p)) (fun _ => rfl) hok
  rw [hrun.total]
  refine congrArg _ (Finset.sum_congr rfl fun p hp => ?_)
  obtain ⟨w, hw, hline⟩ := hdone p hp
  have hrounds := (hrun.workers p w hw).2.rounds
  rw [Worker.rounds, hline] at hrounds
  rw [← hsum p, show (run (next team) m es).locals p = some w from hw]
  simp [part, sum, hline, Line.stored, hrounds]

/-! ## How a run ends -/

/-- The steps that a process still has to its end: eight for each round of the loop. -/
def Worker.left (w : Worker) : Nat :=
  match w.line with
  | .start => 8 * (w.n - w.i) + 5
  | .sem_open => 8 * (w.n - w.i) + 4
  | .loop => 8 * (w.n - w.i) + 3
  | .sem_wait => 8 * (w.n - w.i) + 2
  | .load => 8 * (w.n - w.i) + 1
  | .yield => 8 * (w.n - w.i)
  | .add => 8 * (w.n - w.i) - 1
  | .store => 8 * (w.n - w.i) - 2
  | .sem_post => 8 * (w.n - w.i) - 3
  | .next => 8 * (w.n - w.i) - 4
  | .kill => 2
  | .leave => 1
  | .finished => 0

omit [MemoryManager H] in
theorem Worker.Ok.left_step {w : Worker} {global : BitVec 64} (h : w.Ok global) :
    (my_process_inc w 0 global).1.left = w.left - 1 := by
  have hrounds := h.rounds
  unfold Worker.rounds at hrounds
  cases hline : w.line with
  | start => simp only [my_process_inc, hline, h.goto_start hline, Worker.left]; rfl
  | loop =>
    by_cases hi : w.i < w.n
    · simp only [my_process_inc, hline, h.goto_loop hline, if_pos hi, Worker.left]
      rfl
    · simp only [my_process_inc, hline, h.goto_loop hline, if_neg hi, Worker.left]
      omega
  | store => simp only [my_process_inc, hline, h.goto_store hline, Worker.left]; omega
  | next =>
    rw [hline] at hrounds
    dsimp only at hrounds
    simp only [my_process_inc, hline, Worker.goto, Worker.left]
    omega
  | sem_open | sem_wait | load | add | sem_post =>
    simp only [my_process_inc, hline, Worker.goto, Worker.left]
    rfl
  | yield | kill | leave | finished => simp only [my_process_inc, hline, Worker.goto, Worker.left]

omit [MemoryManager H] in
theorem Worker.Ok.finished {w : Worker} {global : BitVec 64} (h : w.Ok global)
    (hleft : w.left = 0) : w.line = .finished := by
  have hrounds := h.rounds
  unfold Worker.left at hleft
  unfold Worker.rounds at hrounds
  cases hline : w.line <;> rw [hline] at hleft hrounds <;> dsimp only at hleft hrounds <;> omega

/-- Who takes the next step of its program. -/
def mover (m : Team H) : Event → List Pcb
  | .run _ => m.system.scheduler.currentProcess.toList
  | .other _ => []

/-- How many steps of its program a process takes in a run. -/
def ownSteps (p : Pcb) (m : Team H) (es : List Event) : Nat :=
  (fifo.servedAlong (next team) mover m es).count p

/-- Each step of a process brings it nearer to its end, and no other step takes it further. -/
theorem left_next {ps : Finset Pcb} {m : Team H} (h : InSync ps m) (e : Event) {p : Pcb}
    {w : Worker} (hw : m.locals p = some w) : ∃ w', (next team m e).locals p = some w' ∧
      w'.left = w.left - (mover m e).count p := by
  cases e with
  | other c => exact ⟨w, hw, rfl⟩
  | run rsp =>
    unfold next mover
    cases hcur : m.system.scheduler.currentProcess with
    | none => exact ⟨w, hw, rfl⟩
    | some q =>
      by_cases hq : p = q
      · subst hq
        refine ⟨(my_process_inc w 0 m.shared).1, ?_, ?_⟩
        · dsimp only
          rw [Function.update_self]
          simp only [team, hw, sem_open_counts h]
        · rw [(h.workers p w hw).2.left_step]
          simp
      · refine ⟨w, ?_, ?_⟩
        · dsimp only
          rw [Function.update_of_ne hq]
          exact hw
        · have hnone : (some q).toList.count p = 0 := by simp [Ne.symm hq]
          rw [hnone, Nat.sub_zero]

theorem left_run (hn : Serves H NODE_SIZE) (hm : Serves H PID_SIZE) {ps : Finset Pcb} {m : Team H}
    {es : List Event} (h : InSync ps m) (hok : Meets (next team) safe m es) {p : Pcb} {w : Worker}
    (hw : m.locals p = some w) : ∃ w', (run (next team) m es).locals p = some w' ∧
      w'.left = w.left - ownSteps p m es := by
  induction es generalizing m w with
  | nil => exact ⟨w, hw, rfl⟩
  | cons e es ih =>
    obtain ⟨w', hw', hleft⟩ := left_next h e hw
    obtain ⟨w'', hw'', hrest⟩ := ih (inSync_next hn hm m e h hok.1) hok.2 hw'
    refine ⟨w'', hw'', ?_⟩
    rw [hrest, hleft, Nat.sub_sub]
    unfold ownSteps
    rw [fifo.servedAlong, List.count_append]

omit [MemoryManager H] in
/-- Who holds the token goes on, and without a holder nobody waits. -/
theorem InSync.goes_on {ps : Finset Pcb} {m : Team H} (h : InSync ps m) {p : Pcb} {w : Worker}
    (hw : m.locals p = some w) (hline : w.line ≠ .finished) :
    ∃ q ∈ ps, (∃ w ∈ m.locals q, w.line ≠ .finished) ∧ q ∉ m.system.blockedOn SEM_ID := by
  by_cases hb : p ∈ m.system.blockedOn SEM_ID
  · have hzero : (m.system.tokens SEM_ID).counter < 1 := by
      by_contra hpos
      have hnil : m.system.blockedOn SEM_ID = [] := h.counts.balanced.served (by omega)
      rw [hnil] at hb
      cases hb
    obtain ⟨q, hq⟩ := exists_holds h.counts.balanced h.fair hzero
    have harrived := h.arrived q
    rw [h.counts.balanced.order, List.count_append] at harrived
    unfold Ledger.Holds at hq
    have hle := Bool.toNat_le (inSection (m.locals q))
    have hin : inSection (m.locals q) = true := by
      by_contra hout
      rw [Bool.not_eq_true] at hout
      rw [hout, Bool.toNat_false] at harrived
      omega
    obtain ⟨u, hu, hsection⟩ := (Option.any_eq_true _ _).mp hin
    refine ⟨q, (h.workers q u hu).1, ⟨u, hu, fun he => ?_⟩, fun hblocked => ?_⟩
    · rw [he] at hsection
      cases hsection
    · have hone : 0 < (m.system.tokens SEM_ID).queue.count q := List.count_pos_iff.mpr hblocked
      omega
  · exact ⟨p, (h.workers p w hw).1, ⟨w, hw, hline⟩, hb⟩

/-- How a run of the team ends: whoever takes all its steps comes to its end, the processes never
wait for each other for ever, and then all of them have added up. -/
structure Adds (ps : Finset Pcb) (m : Team H) (es : List Event) : Prop where
  finishes : (∀ p ∈ ps, ∀ w ∈ m.locals p, 8 * w.n + 5 ≤ ownSteps p m es) →
    Finished ps (run (next team) m es)
  goes_on : ¬ Finished ps (run (next team) m es) → ∃ p ∈ ps,
    (∃ w ∈ (run (next team) m es).locals p, w.line ≠ .finished) ∧
      p ∉ (run (next team) m es).system.blockedOn SEM_ID
  sum : Finished ps (run (next team) m es) →
    (run (next team) m es).shared = BitVec.ofInt 64 (∑ p ∈ ps, sum (m.locals p))

theorem adds_run (hn : Serves H NODE_SIZE) (hm : Serves H PID_SIZE) {s : System H}
    (h : FreshlyCreated 1 SEM_ID s) {ps : Finset Pcb} {m : Team H} (hs : m.system = s)
    (hstart : Started ps m) {es : List Event} (hok : Meets (next team) safe m es) :
    Adds ps m es := by
  subst hs
  have h0 : InSync ps m := inSync_started hstart (h.sound hn) h.counts h.empty.2 h.empty.1
  have hrun : InSync ps (run (next team) m es) := run_invariant (inSync_next hn hm) h0 hok
  have hends : ∀ p ∈ ps, ∃ w ∈ m.locals p, w.Starts ∧
      ∃ w', (run (next team) m es).locals p = some w' ∧ w'.left = w.left - ownSteps p m es := by
    intro p hp
    have hworker := hstart.workers p
    rw [if_pos hp] at hworker
    obtain ⟨w, hw, hst⟩ := hworker
    exact ⟨w, hw, hst, left_run hn hm h0 hok hw⟩
  refine ⟨fun henough p hp => ?_, fun hne => ?_, sum_run hn hm h rfl hstart hok⟩
  · obtain ⟨w, hw, hst, w', hw', hleft⟩ := hends p hp
    obtain ⟨-, -, -, -, -, hi, hline⟩ := hst
    have hsteps := henough p hp w hw
    refine ⟨w', hw', (hrun.workers p w' hw').2.finished ?_⟩
    rw [hleft, Worker.left, hline, hi]
    dsimp only
    omega
  · unfold Finished at hne
    push Not at hne
    obtain ⟨p, hp, hunfinished⟩ := hne
    obtain ⟨w, hw, -, w', hw', -⟩ := hends p hp
    exact hrun.goes_on hw' (hunfinished w' hw')

/-- A semaphore that is left to its waiters and posters counts every token and serves in order;
with one token it excludes; and so the team adds up exactly. -/
theorem a_semaphore_counts_every_token (hn : Serves H NODE_SIZE) (hm : Serves H PID_SIZE)
    {s : System H} {n₀ : Nat} {id : Int} (h : FreshlyCreated n₀ id s) :
    (∀ cs, Meets step (calm id) s cs →
      Meets step (Grants id) s cs ∧ Accounting n₀ id (run step s cs)) ∧
    (n₀ = 1 → ∀ cs, Meets step (fun s c => calm id s c ∧ brackets id s c) s cs →
      ∀ p q, ((run step s cs).ledger id).Holds p → ((run step s cs).ledger id).Holds q → p = q) ∧
    (n₀ = 1 → id = SEM_ID → ∀ (ps : Finset Pcb) (m : Team H), m.system = s → Started ps m →
      ∀ es, Meets (next team) safe m es → Adds ps m es) := by
  refine ⟨fun cs hok => accounting_run hn hm h hok, ?_, ?_⟩
  · rintro rfl cs hok p q hp hq
    exact exclusion_run hn hm h hok hp hq
  · rintro rfl rfl ps m hs hstart es hok
    exact adds_run hn hm h hs hstart hok

/-- Two processes that wait on the semaphore in turn; the first posts. -/
def turns : List Call :=
  [.scheduler (.createProcess 2 none 0 1 none 0), .scheduler (.yield 3), .scheduler (.yield 4),
    .scheduler (.createProcess 5 none 0 1 none 1), .scheduler (.createProcess 6 none 0 1 none 1),
    .scheduler (.yield 7), .scheduler (.yield 8), .sem_wait SEM_ID 9, .scheduler (.yield 10),
    .sem_wait SEM_ID 11, .scheduler (.yield 12), .scheduler (.yield 13), .sem_post SEM_ID]

/-- One process adds 2 and one adds 3, each once. -/
def pair : Team Endless where
  system := step endlessSystem (.sem_create SEM_ID 1)
  locals p := if p = 2 then some ⟨3, 1, 2, 1, 0, 0, .start⟩
    else if p = 3 then some ⟨3, 1, 3, 1, 0, 0, .start⟩ else none
  shared := 0

/-- The turns of the other processes. -/
def elsewhere : List Event := [.other (.scheduler (.yield 3)), .other (.scheduler (.yield 4))]

/-- The second process waits while the first one is between load and store. -/
def pairRun : List Event :=
  .other (.scheduler (.createProcess 2 none 0 1 none 0)) :: elsewhere ++
  [.other (.scheduler (.createProcess 5 none 0 1 none 1)),
    .other (.scheduler (.createProcess 6 none 0 1 none 1))] ++ elsewhere ++
  List.replicate 10 (.run 7) ++ elsewhere ++ List.replicate 7 (.run 8) ++ elsewhere ++
  List.replicate 2 (.run 9) ++ elsewhere ++ List.replicate 7 (.run 10)

theorem started_pair : Started {2, 3} pair := by
  refine ⟨fun p => ?_, rfl⟩
  by_cases h2 : p = 2
  · subst h2
    exact ⟨_, rfl, by decide⟩
  by_cases h3 : p = 3
  · subst h3
    exact ⟨_, rfl, by decide⟩
  · rw [if_neg (by simp [h2, h3])]
    show ite _ _ (ite _ _ _) = _
    rw [if_neg h2, if_neg h3]

theorem a_semaphore_counts_the_tokens_of_a_pair :
    Accounting 1 SEM_ID (run step pair.system turns) ∧
      Finished {2, 3} (run (next team) pair pairRun) ∧
      (run (next team) pair pairRun).shared = 5 := by
  have hfresh : FreshlyCreated 1 SEM_ID pair.system :=
    ⟨endlessSystem, [], booted_endlessSystem, trivial, by simp, rfl, rfl⟩
  have h := a_semaphore_counts_every_token (endless_serves _) (endless_serves _) hfresh
  have hadds := h.2.2 rfl rfl {2, 3} pair rfl started_pair pairRun (by decide)
  have hfinished := hadds.finishes (by decide)
  exact ⟨(h.1 turns (by decide)).2, hfinished, (hadds.sum hfinished).trans (by decide)⟩

end bare_bones.test_sync
