-- The process table while the heap may refuse a list node. Each write of the
-- scheduler is a change; a process whose node is refused loses its place in a
-- queue, and what every change keeps holds whatever the heap answers.
import BareBones.TableInvariant
import Mathlib.Logic.Relation

namespace bare_bones.process_table

open bare_bones.process
open bare_bones.scheduler (MAX_PROCESS NO_PROCESS IDLE_PID SHELL_PID STDIN STDOUT pipedFd
  idleDescriptors)
open Table

/-- `e'` differs from `e` in its priority and in who waits for it. -/
structure Amends (e e' : Entry) : Prop where
  status : e'.status = e.status
  pid : e'.pid = e.pid
  ground : e'.ground = e.ground
  fds : e'.fds = e.fds
  waiting : e'.waiting.isSome = e.waiting.isSome

theorem Amends.set {t : Table} {p : Pcb} {e : Entry} (h : Amends (t.pcb p) e) (q : Pcb) :
    Amends (t.pcb q) ((t.set p e).pcb q) := by
  by_cases hq : q = p
  · subst hq
    simpa using h
  · rw [set_pcb_ne e hq]
    exact ⟨rfl, rfl, rfl, rfl, rfl⟩

theorem Amends.sameProcs {t : Table} {p : Pcb} {e : Entry} (h : Amends (t.pcb p) e) :
    SameProcs t (t.set p e) :=
  ⟨rfl, rfl, rfl, rfl, fun q => (h.set q).pid, fun q => (h.set q).fds, fun q => (h.set q).ground⟩

/-- Nobody has the processor. -/
def Left (t : Table) : Prop :=
  t.currentPid = NO_PROCESS ∨ ∀ c, t.current = some c → t.status c ≠ .RUNNING

/-- One write to the table. `ok` is asked of the process that is blocked or
killed, or that loses its place. -/
inductive Change (ok : Pcb → Prop) (t : Table) : Table → Prop
  | quantum (q : Int) : Change ok t { t with quantums := q }
  | amended {p : Pcb} {e : Entry} (hp : p ∈ t.procs) (he : Amends (t.pcb p) e) :
      Change ok t (t.set p e)
  | woken {p : Pcb} (hp : p ∈ t.procs) (hst : t.status p = .BLOCKED) (hb : p ∈ t.blocked) :
      Change ok t ((t.queues (t.ready ++ [p]) (t.blocked.erase p)).mark p .READY)
  /-- Out of the blocked queue, and into no other. -/
  | unblocked {p : Pcb} (hst : t.status p = .BLOCKED) :
      Change ok t (t.queues t.ready (t.blocked.erase p))
  | suspended {p : Pcb} (hp : p ∈ t.procs) (hst : t.status p = .READY) (hr : p ∈ t.ready)
      (hok : ok p) :
      Change ok t ((t.queues (t.ready.erase p) (t.blocked ++ [p])).mark p .BLOCKED)
  | stopped {p : Pcb} (hp : p ∈ t.procs) (hst : t.status p = .RUNNING) (hok : ok p) :
      Change ok t ((t.queues t.ready (t.blocked ++ [p])).mark p .BLOCKED)
  /-- Out of the ready queue, and into no other. -/
  | unready {p : Pcb} (hst : t.status p = .READY) (hok : ok p) :
      Change ok t (t.queues (t.ready.erase p) t.blocked)
  | requeued {c : Pcb} (hc : t.current = some c) (hst : t.status c = .RUNNING) :
      Change ok t ((t.queues (t.ready ++ [c]) t.blocked).mark c .READY)
  /-- Preempted, and not queued. -/
  | lost {c : Pcb} (hc : t.current = some c) (hst : t.status c = .RUNNING) (hok : ok c) :
      Change ok t (t.mark c .READY)
  /-- Preempted, not queued, and dispatched as idle at once. -/
  | again {c : Pcb} (hc : t.current = some c) (hst : t.status c = .RUNNING) (hr : t.ready = [])
      (hf : t.find IDLE_PID = some c) : Change ok t ((t.mark c .READY).dispatch c)
  | freed {c : Pcb} (hc : t.current = some c) (hst : t.status c = .TERMINATED) :
      Change ok t { t.free c with current := none, currentPid := NO_PROCESS }
  | head {p : Pcb} {rest : List Pcb} (hr : t.ready = p :: rest) (hl : Left t) :
      Change ok t ((t.queues rest t.blocked).dispatch p)
  | fallback {i : Pcb} (hr : t.ready = []) (hf : t.find IDLE_PID = some i) (hl : Left t) :
      Change ok t (t.dispatch i)
  | nobody (hc : t.currentPid = NO_PROCESS) (hr : t.ready = []) :
      Change ok t { t with current := none }
  | killed {v : Pcb} (hv : v ∈ t.procs) (hok : ok v)
      (hout : t.pid v ≠ IDLE_PID → v ∉ t.ready) : Change ok t (t.terminate v).2
  | failed (e : Entry) : Change ok t ((t.alloc e).free t.pcbQty)
  /-- Each of the two list nodes of a new process may be refused. -/
  | created {e₀ e : Entry} {n : Nat} {procs ready : List Pcb}
      (hn : (t.alloc e₀).minFreePid = some n) (hpid : e.pid = n) (hst : e.status = .READY)
      (hwait : e.waiting = some [])
      (hp : procs = t.procs ∨ procs = t.procs ++ [t.pcbQty])
      (hr : ready = t.ready ∨ ready = t.ready ++ [t.pcbQty])
      (hok : ready = t.ready ++ [t.pcbQty] ∨ ok t.pcbQty) :
      Change ok t { t.alloc e with procs := procs, ready := ready, qty := t.qty + 1 }
  | reused {p : Pcb} (e : Entry) (hf : 0 < t.frees p) : Change ok t (t.set p e)

/-- The writes of a call. -/
abbrev Changes (ok : Pcb → Prop) : Table → Table → Prop := Relation.ReflTransGen (Change ok)

/-- The places of a process in the two queues. The dispatch of idle by its pid
leaves it in the blocked queue, when it is there. -/
structure Placed (t : Table) (p : Pcb) : Prop where
  ready : p ∈ t.ready → t.status p = .READY
  once : t.ready.count p ≤ 1
  blocked : t.pid p ≠ IDLE_PID → p ∈ t.blocked → t.status p = .BLOCKED
  blocked_once : t.pid p ≠ IDLE_PID → t.blocked.count p ≤ 1

/-- What holds whatever the heap answers. -/
structure Sturdy (t : Table) : Prop where
  procs_nodup : t.procs.Nodup
  pid_inj : ∀ p ∈ t.procs, ∀ q ∈ t.procs, t.pid p = t.pid q → p = q
  pid_nonneg : ∀ p ∈ t.procs, 0 ≤ t.pid p
  alive : ∀ p ∈ t.procs, t.status p ≠ .TERMINATED
  live : ∀ p ∈ t.procs, t.frees p = 0
  fresh : ∀ p, t.pcbQty ≤ p → t.frees p = 0
  listed : ∀ p ∈ t.procs, p < t.pcbQty
  known : ∀ p, p ∈ t.ready ∨ p ∈ t.blocked ∨ t.current = some p → p < t.pcbQty
  waiting : ∀ p ∈ t.procs, (t.pcb p).waiting.isSome
  placed : ∀ p ∈ t.procs, Placed t p
  current : ∀ c ∈ t.procs, t.current = some c → t.currentPid = t.pid c

theorem Placed.fewer {t t' : Table} {p : Pcb} (h : Placed t p) (hst : t'.status p = t.status p)
    (hpid : t'.pid p = t.pid p) (hr : t'.ready.count p ≤ t.ready.count p)
    (hb : t'.blocked.count p ≤ t.blocked.count p) : Placed t' p where
  ready hm := by
    rw [hst, h.ready (List.count_pos_iff.mp (Nat.lt_of_lt_of_le (List.count_pos_iff.mpr hm) hr))]
  once := Nat.le_trans hr h.once
  blocked hp hm := by
    rw [hst, h.blocked (hpid ▸ hp)
      (List.count_pos_iff.mp (Nat.lt_of_lt_of_le (List.count_pos_iff.mpr hm) hb))]
  blocked_once hp := Nat.le_trans hb (h.blocked_once (hpid ▸ hp))

/-- Who is not READY is in no ready queue, and likewise for the blocked one. -/
theorem Placed.not_ready {t : Table} {p : Pcb} (h : Placed t p) (hst : t.status p ≠ .READY) :
    t.ready.count p = 0 := List.count_eq_zero_of_not_mem fun hm => hst (h.ready hm)

theorem Placed.not_blocked {t : Table} {p : Pcb} (h : Placed t p) (hst : t.status p ≠ .BLOCKED)
    (hpid : t.pid p ≠ IDLE_PID) : t.blocked.count p = 0 :=
  List.count_eq_zero_of_not_mem fun hm => hst (h.blocked hpid hm)

theorem placed_mark {t : Table} {ready blocked : List Pcb} {p : Pcb} {st : ProcessState}
    (hr : ready.count p ≤ if st = .READY then 1 else 0)
    (hb : t.pid p ≠ IDLE_PID → blocked.count p ≤ if st = .BLOCKED then 1 else 0) :
    Placed ((t.queues ready blocked).mark p st) p := by
  have hst : ((t.queues ready blocked).mark p st).status p = st := by simp [status_mark]
  have hle : ∀ {c : Prop} [Decidable c] {n : Nat}, (n ≤ if c then 1 else 0) → n ≤ 1 ∧ (0 < n → c) :=
    fun hn => by split at hn <;> grind
  refine ⟨fun hm => ?_, (hle hr).1, fun hp hm => ?_, fun hp => (hle (hb ?_)).1⟩
  · exact hst.trans ((hle hr).2 (List.count_pos_iff.mpr hm))
  · exact hst.trans ((hle (hb (by simpa using hp))).2 (List.count_pos_iff.mpr hm))
  · simpa using hp

namespace Sturdy

theorem find_pid {t : Table} (h : Sturdy t) {p : Pcb} (hp : p ∈ t.procs) :
    t.find (t.pid p) = some p := find_of_inj h.pid_inj hp

/-- Queues, statuses and the current process may change. -/
theorem of_same {t t' : Table} (h : Sturdy t) (hs : SameProcs t t')
    (hw : ∀ p, (t'.pcb p).waiting.isSome = (t.pcb p).waiting.isSome)
    (halive : ∀ p ∈ t.procs, t'.status p ≠ .TERMINATED)
    (hknown : ∀ p, p ∈ t'.ready ∨ p ∈ t'.blocked ∨ t'.current = some p → p < t.pcbQty)
    (hplaced : ∀ p ∈ t.procs, Placed t' p)
    (hcur : ∀ c ∈ t.procs, t'.current = some c → t'.currentPid = t.pid c) : Sturdy t' where
  procs_nodup := hs.procs ▸ h.procs_nodup
  pid_inj p hp q hq he := by
    rw [hs.procs] at hp hq
    rw [hs.pid, hs.pid] at he
    exact h.pid_inj p hp q hq he
  pid_nonneg p hp := by rw [hs.pid]; exact h.pid_nonneg p (hs.procs ▸ hp)
  alive p hp := halive p (hs.procs ▸ hp)
  live p hp := by rw [hs.frees]; exact h.live p (hs.procs ▸ hp)
  fresh p hp := by rw [hs.frees]; exact h.fresh p (hs.pcbQty ▸ hp)
  listed p hp := by rw [hs.pcbQty]; exact h.listed p (hs.procs ▸ hp)
  known p hp := by rw [hs.pcbQty]; exact hknown p hp
  waiting p hp := by rw [hw]; exact h.waiting p (hs.procs ▸ hp)
  placed p hp := hplaced p (hs.procs ▸ hp)
  current c hc := by rw [hs.pid]; exact hcur c (hs.procs ▸ hc)

/-- A move of `p` between the queues. -/
theorem moved {t : Table} (h : Sturdy t) {ready blocked : List Pcb} {p : Pcb} {st : ProcessState}
    (hst : st ≠ .TERMINATED) (hp : p < t.pcbQty)
    (hothers : ∀ q, q ≠ p → ready.count q = t.ready.count q ∧ blocked.count q = t.blocked.count q)
    (hplaced : p ∈ t.procs → Placed ((t.queues ready blocked).mark p st) p) :
    Sturdy ((t.queues ready blocked).mark p st) := by
  refine h.of_same ((SameProcs.queues t _ _).mark p _) (fun q => by simp) (fun q hq => ?_)
    (fun q hq => ?_) (fun q hq => ?_) h.current
  · rw [status_mark]
    split
    · exact hst
    · exact h.alive q hq
  · by_cases hqp : q = p
    · exact hqp ▸ hp
    · obtain ⟨hr, hb⟩ := hothers q hqp
      apply h.known q
      rw [← List.count_pos_iff, ← List.count_pos_iff, ← hr, ← hb, List.count_pos_iff,
        List.count_pos_iff]
      exact hq
  · by_cases hqp : q = p
    · subst hqp
      exact hplaced hq
    · obtain ⟨hr, hb⟩ := hothers q hqp
      exact (h.placed q hq).fewer (by rw [status_mark, if_neg hqp]; rfl) (pid_mark _ _ _ _)
        (Nat.le_of_eq hr) (Nat.le_of_eq hb)

/-- Somebody may leave a queue. -/
theorem shrunk {t : Table} (h : Sturdy t) {ready blocked : List Pcb}
    (hr : ready.Sublist t.ready) (hb : blocked.Sublist t.blocked) :
    Sturdy (t.queues ready blocked) :=
  h.of_same (SameProcs.queues t _ _) (fun _ => rfl) h.alive
    (fun q hq => h.known q (hq.imp (hr.subset ·) (Or.imp (hb.subset ·) id)))
    (fun q hq => (h.placed q hq).fewer rfl rfl (hr.count_le q) (hb.count_le q)) h.current

/-- `p` gets the processor. -/
theorem dispatched {t : Table} (h : Sturdy t) {ready : List Pcb} {p : Pcb} (hp : p < t.pcbQty)
    (hothers : ∀ q, q ≠ p → ready.count q = t.ready.count q)
    (hplaced : p ∈ t.procs → p ∉ ready ∧ (t.pid p ≠ IDLE_PID → p ∉ t.blocked)) :
    Sturdy ((t.queues ready t.blocked).dispatch p) := by
  have hpid : ∀ q, ((t.queues ready t.blocked).dispatch p).pid q = t.pid q := fun q =>
    pid_mark _ p q .RUNNING
  refine h.of_same ((SameProcs.queues t ready t.blocked).dispatch p) (fun q => by simp [dispatch])
    (fun q hq => ?_) (fun q hq => ?_) (fun q hq => ?_) (fun c hc hcc => ?_)
  · rw [status_dispatch]
    split
    · simp
    · exact h.alive q hq
  · by_cases hqp : q = p
    · exact hqp ▸ hp
    · rcases hq with hq | hq | hq
      · rw [← List.count_pos_iff, ready_dispatch, ready_queues, hothers q hqp,
          List.count_pos_iff] at hq
        exact h.known q (Or.inl hq)
      · exact h.known q (Or.inr (Or.inl hq))
      · cases hq
        exact absurd rfl hqp
  · by_cases hqp : q = p
    · subst hqp
      obtain ⟨hr, hb⟩ := hplaced hq
      exact ⟨fun hm => absurd hm hr, (List.count_eq_zero_of_not_mem hr) ▸ Nat.zero_le 1,
        fun hi hm => absurd hm (hb (hpid q ▸ hi)),
        fun hi => (List.count_eq_zero_of_not_mem (hb (hpid q ▸ hi))) ▸ Nat.zero_le 1⟩
    · exact (h.placed q hq).fewer (by rw [status_dispatch, if_neg hqp]; rfl) (hpid q)
        (Nat.le_of_eq (hothers q hqp)) (Nat.le_refl _)
  · cases hcc
    rfl

theorem amended {t : Table} (h : Sturdy t) {p : Pcb} {e : Entry} (he : Amends (t.pcb p) e) :
    Sturdy (t.set p e) := by
  have hst : ∀ q, (t.set p e).status q = t.status q := fun q => (he.set q).status
  refine h.of_same he.sameProcs (fun q => (he.set q).waiting) (fun q hq => ?_) h.known
    (fun q hq => (h.placed q hq).fewer (hst q) (he.sameProcs.pid q) (Nat.le_refl _)
      (Nat.le_refl _)) h.current
  rw [hst]
  exact h.alive q hq

/-- Processes may go, and the entries of those that stay are as they were. -/
theorem of_fewer {t t' : Table} (h : Sturdy t) (hprocs : t'.procs.Sublist t.procs)
    (hpcb : ∀ p ∈ t'.procs, t'.pcb p = t.pcb p ∧ t'.frees p = t.frees p)
    (hqty : t.pcbQty ≤ t'.pcbQty) (hfresh : ∀ p, t'.pcbQty ≤ p → t'.frees p = 0)
    (hready : t'.ready = t.ready) (hblocked : t'.blocked = t.blocked)
    (hcur : t'.current = none ∨ t'.current = t.current ∧ t'.currentPid = t.currentPid) :
    Sturdy t' := by
  have hmem : ∀ p ∈ t'.procs, p ∈ t.procs := fun p hp => hprocs.subset hp
  have hpid : ∀ p ∈ t'.procs, t'.pid p = t.pid p := fun p hp => congrArg _ (hpcb p hp).1
  have hst : ∀ p ∈ t'.procs, t'.status p = t.status p := fun p hp => congrArg _ (hpcb p hp).1
  refine ⟨h.procs_nodup.sublist hprocs, fun p hp q hq he => ?_, fun p hp => ?_, fun p hp => ?_,
    fun p hp => ?_, hfresh, fun p hp => Nat.lt_of_lt_of_le (h.listed p (hmem p hp)) hqty,
    fun p hp => ?_, fun p hp => ?_, fun p hp => ?_, fun c hc hcc => ?_⟩
  · rw [hpid p hp, hpid q hq] at he
    exact h.pid_inj p (hmem p hp) q (hmem q hq) he
  · rw [hpid p hp]
    exact h.pid_nonneg p (hmem p hp)
  · rw [hst p hp]
    exact h.alive p (hmem p hp)
  · rw [(hpcb p hp).2]
    exact h.live p (hmem p hp)
  · refine Nat.lt_of_lt_of_le (h.known p ?_) hqty
    rcases hp with hp | hp | hp
    · exact Or.inl (hready ▸ hp)
    · exact Or.inr (Or.inl (hblocked ▸ hp))
    · rcases hcur with hn | ⟨hc, _⟩
      · rw [hn] at hp
        cases hp
      · exact Or.inr (Or.inr (hc ▸ hp))
  · rw [(hpcb p hp).1]
    exact h.waiting p (hmem p hp)
  · exact (h.placed p (hmem p hp)).fewer (hst p hp) (hpid p hp)
      (hready ▸ Nat.le_refl _) (hblocked ▸ Nat.le_refl _)
  · rcases hcur with hn | ⟨hcur, hpid'⟩
    · rw [hn] at hcc
      cases hcc
    · rw [hpid', hpid c hc]
      exact h.current c (hmem c hc) (hcur ▸ hcc)

/-! ## Every change -/

theorem freed {t : Table} (h : Sturdy t) {v : Pcb} (hv : v ∉ t.procs) (hq : v < t.pcbQty) :
    Sturdy (t.free v) := by
  refine h.of_fewer (.refl _) (fun p hp => ?_) (Nat.le_refl _) (fun p hp => ?_) rfl
    rfl (Or.inr ⟨rfl, rfl⟩)
  · have hpv : p ≠ v := fun he => hv (he ▸ hp)
    exact ⟨set_pcb_ne _ hpv, Function.update_of_ne hpv _ _⟩
  · have hpv : p ≠ v := fun he => absurd hq (Nat.not_lt.mpr (he ▸ hp))
    exact (Function.update_of_ne hpv _ _).trans (h.fresh p hp)

theorem dropped {t : Table} (h : Sturdy t) (v : Pcb) : Sturdy (t.drop v) := by
  refine h.of_fewer List.erase_sublist (fun p hp => ?_) (Nat.le_refl _) h.fresh rfl
    rfl (Or.inr ⟨rfl, rfl⟩)
  have hpv : p ≠ v := (h.procs_nodup.mem_erase_iff.mp hp).1
  exact ⟨set_pcb_ne _ hpv, rfl⟩

theorem killed {t : Table} (h : Sturdy t) {v : Pcb} (hv : v ∈ t.procs) :
    Sturdy (t.terminate v).2 := by
  have hd := h.dropped v
  have hout : v ∉ (t.drop v).procs := fun hm => (h.procs_nodup.mem_erase_iff.mp hm).1 rfl
  unfold terminate
  rw [if_pos hv]
  dsimp only
  split
  · exact hd
  · exact hd.freed hout (h.listed v hv)

theorem created {t : Table} (h : Sturdy t) {e₀ e : Entry} {n : Nat} {procs ready : List Pcb}
    (hn : (t.alloc e₀).minFreePid = some n) (hpid : e.pid = n) (hst : e.status = .READY)
    (hwait : e.waiting = some []) (hp : procs = t.procs ∨ procs = t.procs ++ [t.pcbQty])
    (hr : ready = t.ready ∨ ready = t.ready ++ [t.pcbQty]) :
    Sturdy { t.alloc e with procs := procs, ready := ready, qty := t.qty + 1 } := by
  have hold : ∀ e', ∀ p < t.pcbQty, (t.alloc e').pcb p = t.pcb p := fun e' p hp =>
    Function.update_of_ne (Nat.ne_of_lt hp) _ _
  have hnew : (t.alloc e).pcb t.pcbQty = e := Function.update_self _ _ _
  have hlt := h.listed
  have hfree : ∀ p ∈ t.procs, t.pid p ≠ n := by
    intro p hp he
    have hf : (t.alloc e₀).find n = none := by simpa using List.find?_some hn
    apply find_none hf p hp
    rw [pid, hold e₀ p (hlt p hp)]
    exact he
  have hnr : t.pcbQty ∉ t.ready := fun hm => absurd (h.known _ (Or.inl hm)) (Nat.lt_irrefl _)
  have hnb : t.pcbQty ∉ t.blocked := fun hm => absurd (h.known _ (Or.inr (Or.inl hm)))
    (Nat.lt_irrefl _)
  have hcases : ∀ p ∈ procs, p ∈ t.procs ∧ p < t.pcbQty ∧ (t.alloc e).pcb p = t.pcb p ∨
      p = t.pcbQty ∧ (t.alloc e).pcb p = e := by
    intro p hm
    have hm' : p ∈ t.procs ∨ p = t.pcbQty := by
      rcases hp with rfl | rfl
      · exact Or.inl hm
      · simpa using hm
    rcases hm' with hm' | rfl
    · exact Or.inl ⟨hm', hlt p hm', hold e p (hlt p hm')⟩
    · exact Or.inr ⟨rfl, hnew⟩
  have hready : ∀ p, ready.count p = t.ready.count p ∨
      p = t.pcbQty ∧ ready.count p = 1 := by
    intro p
    rcases hr with rfl | rfl
    · exact Or.inl rfl
    · by_cases hpq : p = t.pcbQty
      · subst hpq
        simp [List.count_eq_zero_of_not_mem hnr]
      · simp [Ne.symm hpq]
  have hmem : ∀ p, p ∈ ready → p ∈ t.ready ∨ p = t.pcbQty := fun p hm => by
    rw [← List.count_pos_iff] at hm ⊢
    rcases hready p with hc | ⟨hpq, _⟩
    · exact Or.inl (hc ▸ hm)
    · exact Or.inr hpq
  refine ⟨?_, fun p hp q hq he => ?_, fun p hp => ?_, fun p hp => ?_, fun p hp => ?_,
    fun p hp => h.fresh p (Nat.le_of_succ_le hp), fun p hp => Nat.lt_succ_iff.mpr ?_,
    fun p hp => Nat.lt_succ_iff.mpr ?_, fun p hp => ?_, fun p hp => ?_, fun c hc hcc => ?_⟩
  · rcases hp with rfl | rfl
    · exact h.procs_nodup
    · exact nodup_snoc h.procs_nodup fun hm => absurd (hlt _ hm) (Nat.lt_irrefl _)
  · have he' : ((t.alloc e).pcb p).pid = ((t.alloc e).pcb q).pid := he
    rcases hcases p hp with ⟨hpp, -, hpe⟩ | ⟨rfl, hpe⟩ <;>
      rcases hcases q hq with ⟨hqq, -, hqe⟩ | ⟨rfl, hqe⟩ <;> simp only [hpe, hqe] at he'
    · exact h.pid_inj p hpp q hqq he'
    · exact absurd (he'.trans hpid) (hfree p hpp)
    · exact absurd (he'.symm.trans hpid) (hfree q hqq)
    · rfl
  · show 0 ≤ ((t.alloc e).pcb p).pid
    rcases hcases p hp with ⟨hpp, -, hpe⟩ | ⟨rfl, hpe⟩ <;> rw [hpe]
    · exact h.pid_nonneg p hpp
    · simp [hpid]
  · show ((t.alloc e).pcb p).status ≠ _
    rcases hcases p hp with ⟨hpp, -, hpe⟩ | ⟨rfl, hpe⟩ <;> rw [hpe]
    · exact h.alive p hpp
    · simp [hst]
  · rcases hcases p hp with ⟨hpp, -, -⟩ | ⟨rfl, -⟩
    · exact h.live p hpp
    · exact h.fresh _ (Nat.le_refl _)
  · rcases hcases p hp with ⟨-, hlt, -⟩ | ⟨rfl, -⟩
    · exact Nat.le_of_lt hlt
    · exact Nat.le_refl _
  · rcases hp with hp | hp
    · rcases hmem p hp with hm | rfl
      · exact Nat.le_of_lt (h.known p (Or.inl hm))
      · exact Nat.le_refl _
    · exact Nat.le_of_lt (h.known p (Or.inr hp))
  · show ((t.alloc e).pcb p).waiting.isSome
    rcases hcases p hp with ⟨hpp, -, hpe⟩ | ⟨rfl, hpe⟩ <;> rw [hpe]
    · exact h.waiting p hpp
    · simp [hwait]
  · rcases hcases p hp with ⟨hpp, hlt, hpe⟩ | ⟨rfl, hpe⟩
    · refine (h.placed p hpp).fewer (congrArg Entry.status hpe) (congrArg Entry.pid hpe) ?_
        (Nat.le_refl _)
      exact Nat.le_of_eq <| (hready p).resolve_right fun hpq => absurd hlt (hpq.1 ▸ Nat.lt_irrefl _)
    · refine ⟨fun _ => (congrArg Entry.status hpe).trans hst, ?_, fun _ hm => absurd hm hnb,
        fun _ => (List.count_eq_zero_of_not_mem hnb) ▸ Nat.zero_le 1⟩
      rcases hready t.pcbQty with hc | ⟨-, hc⟩
      · rw [hc, List.count_eq_zero_of_not_mem hnr]
        exact Nat.zero_le 1
      · exact Nat.le_of_eq hc
  · show t.currentPid = ((t.alloc e).pcb c).pid
    have hlt : c < t.pcbQty := h.known c (Or.inr (Or.inr hcc))
    rcases hcases c hc with ⟨hcp, -, hce⟩ | ⟨rfl, -⟩
    · rw [hce]
      exact h.current c hcp hcc
    · exact absurd hlt (Nat.lt_irrefl _)

end Sturdy

theorem sturdy_change {ok : Pcb → Prop} {t t' : Table} (h : Sturdy t) (hc : Change ok t t') :
    Sturdy t' := by
  have hcur : ∀ {c}, t.current = some c → c < t.pcbQty := fun hc => h.known _ (Or.inr (Or.inr hc))
  cases hc with
  | quantum q =>
    exact h.of_fewer (.refl _) (fun p hp => ⟨rfl, rfl⟩) (Nat.le_refl _) h.fresh rfl rfl
      (Or.inr ⟨rfl, rfl⟩)
  | amended hp he => exact h.amended he
  | @woken p hp hst hb =>
    refine h.moved (by simp) (h.listed p hp) (fun q hq => ⟨by simp [Ne.symm hq],
      List.count_erase_of_ne hq⟩) fun hp => placed_mark ?_ fun hpid => ?_
    · simp [(h.placed p hp).not_ready (by simp [hst])]
    · have := (h.placed p hp).blocked_once hpid
      simp only [List.count_erase_self]
      grind
  | unblocked hst => exact h.shrunk (.refl _) List.erase_sublist
  | @suspended p hp hst hr hok =>
    refine h.moved (by simp) (h.listed p hp) (fun q hq => ⟨List.count_erase_of_ne hq,
      by simp [Ne.symm hq]⟩) fun hp => placed_mark ?_ fun hpid => ?_
    · have := (h.placed p hp).once
      simp only [List.count_erase_self]
      grind
    · simp [(h.placed p hp).not_blocked (by simp [hst]) hpid]
  | @stopped p hp hst hok =>
    refine h.moved (by simp) (h.listed p hp) (fun q hq => ⟨rfl, by simp [Ne.symm hq]⟩)
      fun hp => placed_mark ?_ fun hpid => ?_
    · simp [(h.placed p hp).not_ready (by simp [hst])]
    · simp [(h.placed p hp).not_blocked (by simp [hst]) hpid]
  | unready hst hok => exact h.shrunk List.erase_sublist (.refl _)
  | @requeued c hc hst =>
    refine h.moved (by simp) (hcur hc) (fun q hq => ⟨by simp [Ne.symm hq], rfl⟩)
      fun hp => placed_mark ?_ fun hpid => ?_
    · simp [(h.placed c hp).not_ready (by simp [hst])]
    · simp [(h.placed c hp).not_blocked (by simp [hst]) hpid]
  | @lost c hc hst hok =>
    have hlost : Sturdy ((t.queues t.ready t.blocked).mark c .READY) := by
      refine h.moved (by simp) (hcur hc) (fun q hq => ⟨rfl, rfl⟩)
        fun hp => placed_mark ?_ fun hpid => ?_
      · simp [(h.placed c hp).not_ready (by simp [hst])]
      · simp [(h.placed c hp).not_blocked (by simp [hst]) hpid]
    exact hlost
  | @again c hc hst hr hf =>
    have hpid : t.pid c = IDLE_PID := (find_some hf).2
    have hlost : Sturdy ((t.queues t.ready t.blocked).mark c .READY) :=
      h.moved (by simp) (hcur hc) (fun q hq => ⟨rfl, rfl⟩)
        fun hp => placed_mark (by simp [hr]) fun hne => absurd hpid hne
    refine hlost.dispatched (hcur hc) (fun q _ => rfl) fun _ => ⟨?_, fun hne => ?_⟩
    · simp [hr]
    · exact absurd (by simpa using hpid) hne
  | @freed c hc hst =>
    have hf := h.freed (fun hm => h.alive c hm hst) (hcur hc)
    exact hf.of_fewer (.refl _) (fun p hp => ⟨rfl, rfl⟩) (Nat.le_refl _) hf.fresh rfl rfl
      (Or.inl rfl)
  | @head p rest hr hl =>
    refine h.dispatched (h.known p (Or.inl (hr ▸ List.mem_cons_self)))
      (fun q hq => by rw [hr, List.count_cons_of_ne (Ne.symm hq)]) fun hp => ?_
    have hready := (h.placed p hp).ready (hr ▸ List.mem_cons_self)
    have honce := (h.placed p hp).once
    rw [hr, List.count_cons_self] at honce
    exact ⟨List.count_eq_zero.mp (by omega),
      fun hpid => List.count_eq_zero.mp ((h.placed p hp).not_blocked (by simp [hready]) hpid)⟩
  | @fallback i hr hf hl =>
    refine h.dispatched (h.listed i (find_some hf).1) (fun q _ => rfl) fun _ => ⟨?_, fun hne => ?_⟩
    · simp [hr]
    · exact absurd (find_some hf).2 hne
  | nobody hc hr =>
    exact h.of_fewer (.refl _) (fun p hp => ⟨rfl, rfl⟩) (Nat.le_refl _) h.fresh rfl rfl
      (Or.inl rfl)
  | killed hv hok hout => exact h.killed hv
  | failed e =>
    refine h.of_fewer (.refl _) (fun p hp => ?_) (Nat.le_succ _) (fun p hp => ?_) rfl
      rfl (Or.inr ⟨rfl, rfl⟩)
    · have hne := Nat.ne_of_lt (h.listed p hp)
      exact ⟨(set_pcb_ne _ hne).trans (set_pcb_ne _ hne), Function.update_of_ne hne _ _⟩
    · exact (Function.update_of_ne (Nat.ne_of_gt hp) _ _).trans (h.fresh p (Nat.le_of_succ_le hp))
  | created hn hpid hst hwait hp hr hok => exact h.created hn hpid hst hwait hp hr
  | @reused p e hf =>
    refine h.of_fewer (.refl _) (fun q hq => ⟨set_pcb_ne _ ?_, rfl⟩) (Nat.le_refl _) h.fresh rfl
      rfl (Or.inr ⟨rfl, rfl⟩)
    rintro rfl
    exact absurd (h.live q hq) (Nat.ne_of_gt hf)

theorem sturdy_changes {ok : Pcb → Prop} {t t' : Table} (h : Sturdy t) (hc : Changes ok t t') :
    Sturdy t' := by
  induction hc with
  | refl => exact h
  | tail _ hstep ih => exact sturdy_change ih hstep

end bare_bones.process_table
