-- What a refused list node does to a process. `schedule`, `createProcess` and
-- `waitProcess` do not look at what `addNode` gives back.
import BareBones.BitmapOwners
import BareBones.Lost
import Mathlib.Data.List.Find

namespace bare_bones.scheduler

open bare_bones.doubleLinkedList bare_bones.process bare_bones.process_table
open Scheduler Table runs

variable {H : Type} [MemoryManager H]

/-! ## The wait -/

/-- The scheduler once `waitProcess` asked for its node, granted or not. -/
def afterNode (s : Scheduler H) : Scheduler H := { s with heap := (mm_alloc NODE_SIZE s.heap).2 }

/-- The caller can go to the blocked queue, and when it goes it is among the
waiters. -/
def waitSuffices (s : Scheduler H) (pid : Int) : Prop :=
  ∀ target ∈ findProcess s pid, getPid s ≠ pid →
    blockSuffices (afterNode s) (getPid s) ∧
      ∀ c ∈ findProcess s (getPid s), isBlocked (afterNode s) c →
        (mm_alloc NODE_SIZE s.heap).1.isSome ∨ some c ∈ (s.pcb target).waiters

instance (s : Scheduler H) (pid : Int) : Decidable (waitSuffices s pid) :=
  inferInstanceAs (Decidable (∀ target ∈ findProcess s pid, _))

/-- Who `waitProcess` blocks waits for its target. -/
def waiterIsListed (s : Scheduler H) (pid : Int) (rsp : Addr) : Prop :=
  ∀ target c, findProcess s pid = some target → findProcess s (getPid s) = some c →
    s.blocked.count c < (waitProcess s pid rsp).2.blocked.count c →
      some c ∈ ((waitProcess s pid rsp).2.pcb target).waiters

theorem enlist_readyProcess (s : Scheduler H) (target : Pcb) (caller : Option Pcb) :
    (enlist s target caller).readyProcess = s.readyProcess := by
  unfold enlist
  split <;> rfl

theorem Enlists.status {s s' : Scheduler H} {target : Pcb} {caller : Option Pcb}
    (h : Enlists s target caller s') (q : Pcb) : s'.status q = s.status q := by
  show s'.view.status q = s.view.status q
  rw [h.view]
  by_cases hq : q = target
  · subst hq
    split <;> simp [Table.status, Entry.enlist]
  · simp [Table.status, set_pcb_ne _ hq]

/-- The waiters of the target after `enlist`. -/
theorem Enlists.waiters {s s' : Scheduler H} {target : Pcb} {caller : Option Pcb}
    (h : Enlists s target caller s') (hw : (s.view.pcb target).waiting.isSome) :
    (s'.pcb target).waiters = if (mm_alloc NODE_SIZE s.heap).1.isSome then
      (s.pcb target).waiters ++ [caller] else (s.pcb target).waiters := by
  rw [← waiters_entry, ← waiters_entry]
  show (s'.view.pcb target).waiters = if _ then (s.view.pcb target).waiters ++ [caller] else
    (s.view.pcb target).waiters
  obtain ⟨list, hlist⟩ := Option.isSome_iff_exists.mp hw
  rw [h.view, set_pcb_self]
  split <;> simp [Entry.waiters, Entry.enlist, hlist]

/-- The block of the caller meets the same heap and the same queues. -/
theorem Enlists.blocks {s s' : Scheduler H} {target : Pcb} {caller : Option Pcb}
    (h : Enlists s target caller s') (hr : s'.readyProcess = s.readyProcess) (pid : Int) :
    (blockSuffices s' pid ↔ blockSuffices (afterNode s) pid) ∧
      ∀ c, isBlocked s' c ↔ isBlocked (afterNode s) c := by
  have hready : s'.ready = s.ready := congrArg DoubleLinkedList.data hr
  constructor
  · unfold blockSuffices
    simp only [h.findProcess, h.status, hready, hr, h.heap]
    rfl
  · intro c
    unfold isBlocked
    simp only [h.status, hready, hr, h.heap]
    rfl

theorem waitProcess_keeps {s : Scheduler H} (h : Sturdy s.view) (pid : Int) (rsp : Addr) :
    losesNobody s (waitProcess s pid rsp).2 ∧ waiterIsListed s pid rsp ↔ waitSuffices s pid := by
  unfold waiterIsListed
  by_cases habs : findProcess s pid = none ∨ getPid s = pid
  · rw [waitProcess_absent habs]
    refine ⟨fun _ target hf hne => ?_, fun _ => ⟨fun q hq => hq, fun target c _ _ hlt => ?_⟩⟩
    · rcases habs with hn | he
      · cases hn.symm.trans hf
      · exact absurd he hne
    · exact absurd hlt (Nat.lt_irrefl _)
  rw [not_or] at habs
  obtain ⟨target, hf⟩ := Option.ne_none_iff_exists'.mp habs.1
  have ht := (findProcess_some hf).1
  have hwait := h.waiting target ht
  have he := enlist_enlists hwait (findProcess s (getPid s))
  have hr := enlist_readyProcess s target (findProcess s (getPid s))
  rw [waitProcess_eq hf habs.2]
  generalize enlist s target (findProcess s (getPid s)) = s' at he hr ⊢
  have hc : Change (fun _ => True) s.view s'.view := he.amends ht
  have hprocs : s'.procs = s.procs := congrArg Table.procs he.view
  have hready : s'.view.ready = s.view.ready := by rw [he.view]; rfl
  have hblocked : s'.blocked = s.blocked := congrArg Table.blocked he.view
  have hfr := blockProcess_frame (sturdy_change h hc) (getPid s) rsp
  obtain ⟨hsuf, hmoves⟩ := he.blocks hr (getPid s)
  have hlost : losesNobody s (blockProcess s' (getPid s) rsp).2 ↔
      losesNobody s' (blockProcess s' (getPid s) rsp).2 := by
    have hsame : ∀ q, Lost s'.view q ↔ Lost s.view q := fun q =>
      ⟨fun hq => hq.of_status hprocs (he.status q) fun hm => hready ▸ hm,
        fun hq => hq.of_status hprocs.symm (he.status q).symm fun hm => hready ▸ hm⟩
    exact forall_congr' fun q => imp_congr_right fun _ => (hsame q).symm
  have hwaiters : ((blockProcess s' (getPid s) rsp).2.pcb target).waiters =
      (s'.pcb target).waiters := by
    rw [← waiters_entry, ← waiters_entry]
    exact congrArg (fun w => Option.getD w []) (hfr.waiting target (hprocs ▸ ht))
  rw [hlost, hfr.lost, hsuf]
  constructor
  · rintro ⟨hblock, hlisted⟩ target' hf' -
    cases hf.symm.trans hf'
    refine ⟨hblock, fun c hc hb => ?_⟩
    have hin := hlisted target c hf hc ?_
    · rw [hwaiters, he.waiters hwait] at hin
      split at hin
      · left
        assumption
      · exact Or.inr hin
    · rw [← hblocked, hfr.blocked c ((he.findProcess _).trans hc), hmoves]
      exact hb
  · intro hall
    obtain ⟨hblock, hlisted⟩ := hall target hf habs.2
    refine ⟨hblock, fun target' c hf' hc hlt => ?_⟩
    cases hf.symm.trans hf'
    rw [← hblocked, hfr.blocked c ((he.findProcess _).trans hc), hmoves] at hlt
    rw [hwaiters, he.waiters hwait]
    rcases hlisted c hc hlt with ha | hin
    · simp [ha, hc]
    · split
      · exact List.mem_append_left _ hin
      · exact hin

/-! ## The creation -/

/-- The heap serves the requests one after the other. -/
def serve : List Nat → H → Option H
  | [], h => some h
  | bytes :: rest, h =>
    match mm_alloc bytes h with
    | (none, _) => none
    | (some _, h) => serve rest h

/-- The strings of an `argv`, with their terminators; `none` when it is too short. -/
def stringRequests (argv : Nat → Option CString) : Nat → Nat → Option (List Nat)
  | 0, _ => some []
  | n + 1, i =>
    match argv i with
    | none => none
    | some chars => (stringRequests argv n (i + 1)).map (fun rest => (chars.length + 1) :: rest)

def argvRequests (args : Args) (argc : Int) : Option (List Nat) :=
  if argc ≤ 0 then some [8]
  else
    match args with
    | none => none
    | some argv => (stringRequests argv argc.toNat 0).map (fun rest => (argc.toNat + 1) * 8 :: rest)

/-- What a new process takes from the heap, before the nodes of its lists. -/
def processRequests (args : Args) (argc : Int) : Option (List Nat) :=
  (argvRequests args argc).map
    (fun argv => STACK_SIZE :: (argv ++ [(processName args argc).length + 1, LIST_SIZE]))

theorem serve_append (first rest : List Nat) (h : H) :
    serve (first ++ rest) h = (serve first h).bind (serve rest) := by
  induction first generalizing h with
  | nil => rfl
  | cons bytes first ih =>
    simp only [List.cons_append, serve]
    split
    · rfl
    · exact ih _

theorem allocArgv_loop_served (argv : Nat → Option CString) (n i : Nat) (copies : List Addr)
    (h h' : H) :
    (∃ strings, allocArgv_loop argv n i copies h = (some strings, h')) ↔
      ∃ requests, stringRequests argv n i = some requests ∧ serve requests h = some h' := by
  induction n generalizing i copies h with
  | zero => simp [allocArgv_loop, stringRequests, serve]
  | succ n ih =>
    unfold allocArgv_loop stringRequests
    cases hi : argv i with
    | none => simp
    | some chars =>
      dsimp only
      rcases ha : mm_alloc (chars.length + 1) h with ⟨_ | a, h₁⟩
      · simp [serve, ha]
      · simp [ih, serve, ha]

theorem allocArgv_served (args : Args) (argc : Int) (h h' : H) :
    (∃ argv, allocArgv args argc h = (some argv, h')) ↔
      ∃ requests, argvRequests args argc = some requests ∧ serve requests h = some h' := by
  unfold allocArgv argvRequests
  split
  · rcases ha : mm_alloc 8 h with ⟨_ | a, h₁⟩ <;> simp [serve, ha]
  · cases args with
    | none => simp
    | some argv =>
      dsimp only
      rcases ha : mm_alloc ((argc.toNat + 1) * 8) h with ⟨_ | a, h₁⟩
      · simp [serve, ha]
      · have hloop := allocArgv_loop_served argv argc.toNat 0 [] h₁ h'
        rcases hl : allocArgv_loop argv argc.toNat 0 [] h₁ with ⟨_ | strings, h₂⟩ <;>
          rw [hl] at hloop <;> simp [serve, ha, hl] at hloop ⊢ <;> exact hloop

/-- A process is filled in exactly when the heap serves what it takes. -/
theorem initializeProcess_served (process : ProcessContext) (pid : Int) (args : Args) (argc : Int)
    (priority : Nat) (rip : Addr) (ground : Nat)
    (fds : Option (Fin CANT_FILE_DESCRIPTORS → Int)) (h h' : H) :
    (∃ r c, r ≠ -1 ∧
        initializeProcess process pid args argc priority rip ground fds h = (r, c, h')) ↔
      ∃ requests, processRequests args argc = some requests ∧ serve requests h = some h' := by
  unfold initializeProcess
  dsimp only
  rcases hs : mm_alloc STACK_SIZE h with ⟨_ | stack, h₁⟩
  · simp [processRequests, serve, hs]
  have hrequests : (∃ requests, processRequests args argc = some requests ∧
      serve requests h = some h') ↔ ∃ argv, argvRequests args argc = some argv ∧
        (serve argv h₁).bind (serve [(processName args argc).length + 1, LIST_SIZE]) = some h' := by
    simp [processRequests, serve, serve_append, hs]
  rw [hrequests]
  have hargv := allocArgv_served args argc h₁
  dsimp only
  rcases hl : allocArgv args argc h₁ with ⟨_ | argv, h₂⟩
  · rw [hl] at hargv
    refine ⟨fun ⟨r, c, hr, he⟩ => absurd (Prod.mk.inj he).1.symm hr, ?_⟩
    rintro ⟨requests, hreq, hserve⟩
    obtain ⟨h₃, hfirst, -⟩ := Option.bind_eq_some_iff.mp hserve
    obtain ⟨argv, he⟩ := (hargv h₃).mpr ⟨requests, hreq, hfirst⟩
    cases he
  · obtain ⟨requests, hreq, hfirst⟩ := (hargv h₂).mp ⟨argv, hl⟩
    simp only [hreq, Option.some.injEq, exists_eq_left', hfirst, Option.bind_some]
    rcases hn : mm_alloc ((processName args argc).length + 1) h₂ with ⟨_ | block, h₃⟩
    · simp [serve, hn]
    · rcases hw : mm_alloc LIST_SIZE h₃ with ⟨_ | list, h₄⟩ <;>
        simp [serve, hn, hw, createDoubleLinkedListADT]

/-- A creation that comes through gets the nodes of both its lists. -/
def creationSuffices (s : Scheduler H) (args : Args) (argc : Int) : Prop :=
  s.processQty < MAX_PROCESS → (minFreePid s).isSome →
    ∀ requests ∈ processRequests args argc, ∀ heap ∈ serve (PCB_SIZE :: requests) s.heap,
      (serve [NODE_SIZE, NODE_SIZE] heap).isSome

instance (s : Scheduler H) (args : Args) (argc : Int) : Decidable (creationSuffices s args argc) :=
  inferInstanceAs (Decidable (_ → _ → ∀ requests ∈ processRequests args argc, _))

/-- A pid that `createProcess` returned is found by `findProcess`. -/
def isFound (r : Int × Scheduler H) : Prop := r.1 ≠ -1 → (findProcess r.2 r.1).isSome

theorem serve_nodes (h : H) : (serve [NODE_SIZE, NODE_SIZE] h).isSome ↔
    (mm_alloc NODE_SIZE h).1.isSome ∧ (mm_alloc NODE_SIZE (mm_alloc NODE_SIZE h).2).1.isSome := by
  rcases hf : mm_alloc NODE_SIZE h with ⟨_ | a, h₁⟩
  · simp [serve, hf]
  · rcases hs : mm_alloc NODE_SIZE h₁ with ⟨_ | b, h₂⟩ <;> simp [serve, hf, hs]

omit [MemoryManager H] in
theorem find_alloc {s : Scheduler H} (h : Sturdy s.view) (e : Entry) (pid : Int) :
    (s.view.alloc e).find pid = s.view.find pid := by
  refine List.find?_congr fun p hp => ?_
  have hne : p ≠ s.pcbQty := Nat.ne_of_lt (h.listed p hp)
  have hpid : (s.view.alloc e).pid p = s.view.pid p :=
    congrArg Entry.pid (Function.update_of_ne hne _ _)
  rw [hpid]

omit [MemoryManager H] in
theorem minFreePid_alloc {s : Scheduler H} (h : Sturdy s.view) (e : Entry) :
    (s.view.alloc e).minFreePid = minFreePid s := by
  unfold Table.minFreePid
  simp only [find_alloc h]
  rfl

theorem createProcess_keeps {s : Scheduler H} (h : Sturdy s.view) (rip : Addr) (args : Args)
    (argc : Int) (priority : Nat) (fds : Option (Fin CANT_FILE_DESCRIPTORS → Int))
    (ground : Nat) :
    losesNobody s (createProcess s rip args argc priority fds ground).2 ∧
        isFound (createProcess s rip args argc priority fds ground) ↔
      creationSuffices s args argc := by
  have hc := createProcess_creation s rip args argc priority fds ground
  generalize createProcess s rip args argc priority fds ground = r at hc
  cases hc with
  | full hqty =>
    exact ⟨fun _ hlt => absurd hlt (Nat.not_lt.mpr hqty),
      fun _ => ⟨fun q hq => hq, fun hne => absurd rfl hne⟩⟩
  | @noBlock s' ha hv =>
    refine ⟨fun _ _ _ requests _ heap hserve => ?_,
      fun _ => ⟨fun q hq => hv ▸ hq, fun hne => absurd rfl hne⟩⟩
    rcases hb : mm_alloc PCB_SIZE s.heap with ⟨_ | block, h₁⟩ <;> rw [hb] at ha
    · simp [serve, hb] at hserve
    · cases ha
  | @noPid s' e hn hv =>
    refine ⟨fun _ _ hpid => ?_, fun _ => ⟨fun q hq => ?_, fun hne => absurd rfl hne⟩⟩
    · rw [minFreePid_alloc h] at hn
      simp [hn] at hpid
    · exact lost_change h (.failed e) (hv ▸ hq)
  | @notFilled s' block heap heap' pid c ha hi hv =>
    refine ⟨fun _ _ _ requests hreq h' hserve => ?_,
      fun _ => ⟨fun q hq => lost_change h (.failed (entry c)) (hv ▸ hq), fun hne => absurd rfl hne⟩⟩
    simp only [serve, ha] at hserve
    obtain ⟨r, c', hr, he⟩ := (initializeProcess_served (.zeroed block) pid args argc priority rip
      ground fds heap h').mpr ⟨requests, hreq, hserve⟩
    cases hi.symm.trans he
    exact absurd rfl hr
  | @created s' block heap pid r c hqty ha hn hi hr hv =>
    have hsuf : creationSuffices s args argc ↔ (serve [NODE_SIZE, NODE_SIZE] s'.heap).isSome := by
      obtain ⟨requests, hreq, hserve⟩ := (initializeProcess_served _ pid args argc priority rip
        ground fds heap s'.heap).mp ⟨r, c, hr, hi⟩
      have hpid : (minFreePid s).isSome := by
        rw [← minFreePid_alloc h (entry (.zeroed block)), hn]
        rfl
      have hall : serve (PCB_SIZE :: requests) s.heap = some s'.heap := by simp [serve, ha, hserve]
      refine ⟨fun hc => hc hqty hpid requests hreq s'.heap hall,
        fun hc _ _ requests' hreq' h' hs => ?_⟩
      cases hreq.symm.trans hreq'
      cases hall.symm.trans hs
      exact hc
    obtain ⟨hpid, hst, -, -, -, hwait⟩ := initializeProcess_filled hi hr
    obtain ⟨procs, ready, hp, hrd, hview⟩ := addProcess_filled hv hst
    have hnew : (addProcess s' s.pcbQty).view.pcb s.pcbQty = entry c := by
      rw [hview]
      exact set_pcb_self _ _ _
    generalize addProcess s' s.pcbQty = s'' at hview hnew ⊢
    rw [hsuf, serve_nodes]
    constructor
    · rintro ⟨hlose, hfound⟩
      have hin : procs = s.procs ++ [s.pcbQty] ∧ (mm_alloc NODE_SIZE s'.heap).1.isSome := by
        apply hp.resolve_right
        intro hno
        have hfree : (s.view.alloc (entry (.zeroed block))).find pid = none := by
          simpa using List.find?_some hn
        have hnone : findProcess s'' pid = none := by
          have hlist : s''.view.procs = (s.view.alloc (entry c)).procs := by
            rw [hview]
            exact hno.1
          have hpids : ∀ q, s''.view.pid q = (s.view.alloc (entry c)).pid q := fun q => by
            rw [hview]
            rfl
          exact (find_congr hlist hpids pid).trans
            ((find_alloc h _ _).trans ((find_alloc h _ _).symm.trans hfree))
        have hsome := hfound (by simp)
        rw [show findProcess s'' (pid, s'').1 = none from hnone] at hsome
        cases hsome
      refine ⟨hin.2, by_contra fun hno => ?_⟩
      have hout : ready = s.ready := (hrd.resolve_left fun hy => hno hy.2).1
      have hlt := h.listed s.pcbQty (hlose s.pcbQty ⟨?_, ?_, fun hm => ?_⟩).1
      · exact Nat.lt_irrefl _ hlt
      · rw [hview, hin.1]
        simp
      · exact (congrArg Entry.status hnew).trans hst
      · rw [hview, hout] at hm
        exact Nat.lt_irrefl _ (h.known _ (Or.inl hm))
    · rintro ⟨h1, h2⟩
      have hin : procs = s.procs ++ [s.pcbQty] :=
        (hp.resolve_right fun hno => by simp [hno.2] at h1).1
      have hqueue : ready = s.ready ++ [s.pcbQty] :=
        (hrd.resolve_right fun hno => by simp [hno.2] at h2).1
      refine ⟨fun q hq => ?_, fun _ => ?_⟩
      · rw [hview] at hq
        exact lost_change h
          (.created hn hpid hst hwait (Or.inr hin) (Or.inr hqueue) (Or.inl hqueue)) hq
      · refine List.find?_isSome.mpr ⟨s.pcbQty, ?_, ?_⟩
        · show s.pcbQty ∈ s''.view.procs
          rw [hview, hin]
          simp
        · have hp : s''.pid s.pcbQty = pid := (congrArg Entry.pid hnew).trans hpid
          simpa using hp

/-! ## The calls that take no node for a process of theirs -/

theorem kill_losesNobody {s : Scheduler H} (h : Sturdy s.view) {v : Pcb} (hv : v ∈ s.procs) :
    losesNobody s (kill s v).2 := by
  intro q hq
  by_cases hqv : v = q
  · subst hqv
    by_cases hin : inItsQueue s v
    · have hm : v ∈ s.procs.erase v := (kill_listed hv hin).2 ▸ hq.1
      exact absurd rfl (h.procs_nodup.mem_erase_iff.mp hm).1
    · have hl : leaveQueue s v = none := by
        rcases leaveQueue_spec s v with ⟨-, -, -, hy⟩ | ⟨hl, -⟩
        · exact absurd hy hin
        · exact hl
      unfold kill at hq
      rw [hl] at hq
      exact hq
  · exact lost_changes h (changes_kill h hv hqv) hq

theorem killProcess_losesNobody {s : Scheduler H} (h : Sturdy s.view) (pid : Int) :
    losesNobody s (killProcess s pid).2 := by
  unfold killProcess
  cases hf : findProcess s pid with
  | none => exact fun q hq => hq
  | some v =>
    have hv := (findProcess_some hf).1
    have hk := kill_losesNobody h hv
    have hc : Changes (fun _ => True) s.view (kill s v).2.view := changes_kill h hv trivial
    have hs := sturdy_changes h hc
    dsimp only
    generalize kill s v = k at hk hs
    obtain ⟨r, s'⟩ := k
    dsimp only at hk hs ⊢
    split
    · exact hk
    split
    · split
      · exact hk
      · rename_i w hw
        exact fun q hq => hk q (kill_losesNobody hs (List.mem_of_find?_eq_some hw) q hq)
    · exact hk

theorem killForegroundProcess_losesNobody {s : Scheduler H} (h : Sturdy s.view) :
    losesNobody s (killForegroundProcess s).2 := by
  unfold killForegroundProcess
  split
  · exact fun q hq => hq
  rename_i c hc
  split
  · exact killProcess_losesNobody h (s.pid c)
  split
  · exact fun q hq => hq
  · rename_i v hv
    exact kill_losesNobody h (List.mem_of_find?_eq_some hv)

/-! ## Every step -/

/-- The nodes that a step asks for suffice. The other calls take none, or lose
nobody without it. -/
def nodesSuffice (s : Scheduler H) : KernelEvent → Prop
  | .call (.schedule _) => s.processQty ≠ 0 → s.quantums ≤ 1 → requeueSuffices s
  | .call (.yield _) => s.processQty ≠ 0 → requeueSuffices s
  | .call (.createProcess _ args argc _ _ _) => creationSuffices s args argc
  | .call (.blockProcess n _) => blockSuffices s n
  | .call (.waitProcess n _) => waitSuffices s n
  | _ => True

instance (s : Scheduler H) (e : KernelEvent) : Decidable (nodesSuffice s e) :=
  match e with
  | .call (.schedule _) => inferInstanceAs (Decidable (_ → _ → requeueSuffices s))
  | .call (.yield _) => inferInstanceAs (Decidable (_ → requeueSuffices s))
  | .call (.createProcess _ args argc _ _ _) =>
    inferInstanceAs (Decidable (creationSuffices s args argc))
  | .call (.blockProcess n _) => inferInstanceAs (Decidable (blockSuffices s n))
  | .call (.waitProcess n _) => inferInstanceAs (Decidable (waitSuffices s n))
  | .call (.setReadyProcess _) | .call (.changePriority _ _) | .call (.killProcess _)
  | .call .killForegroundProcess | .call (.reuse _ _) | .mm_alloc _ | .mm_free _ => isTrue trivial

/-- What the call gave its caller is so: the pid is found, and who is blocked waits. -/
def answersHold (s : Scheduler H) : KernelEvent → Prop
  | .call (.createProcess rip args argc priority fds ground) =>
    isFound (createProcess s rip args argc priority fds ground)
  | .call (.waitProcess n rsp) => waiterIsListed s n rsp
  | _ => True

/-- The call reports a failure and changes nothing. -/
def reportsFailure (s : Scheduler H) : KernelEvent → Prop
  | .call (.createProcess rip args argc priority fds ground) =>
    (createProcess s rip args argc priority fds ground).1 = -1 ∧
      (createProcess s rip args argc priority fds ground).2.view = s.view
  | .call (.waitProcess n rsp) =>
    (waitProcess s n rsp).1 = -1 ∧ (waitProcess s n rsp).2.view = s.view
  | _ => False

/-- A step keeps every live process reachable. -/
structure KeepsReachable (s : Scheduler H) (e : KernelEvent) : Prop where
  ready : ∀ p, Lost (onEvent s e).view p → Lost s.view p
  answers : answersHold s e

theorem keepsReachable_of_reportsFailure {s : Scheduler H} {e : KernelEvent}
    (h : reportsFailure s e) : KeepsReachable s e := by
  cases e with
  | mm_alloc bytes => exact h.elim
  | mm_free ptr => exact h.elim
  | call op =>
    cases op with
    | createProcess rip args argc priority fds ground =>
      exact ⟨fun p hp => h.2 ▸ hp, fun hne => absurd h.1 hne⟩
    | waitProcess pid rsp =>
      refine ⟨fun p hp => h.2 ▸ hp, fun target c _ _ hlt => ?_⟩
      rw [show (waitProcess s pid rsp).2.blocked = s.blocked from congrArg Table.blocked h.2] at hlt
      exact absurd hlt (Nat.lt_irrefl _)
    | _ => exact h.elim

theorem keepsReachable_iff {s : Scheduler H} (h : Sturdy s.view) (e : KernelEvent) :
    KeepsReachable s e ↔ nodesSuffice s e := by
  have hstruct : KeepsReachable s e ↔ losesNobody s (onEvent s e) ∧ answersHold s e :=
    ⟨fun hk => ⟨hk.ready, hk.answers⟩, fun hk => ⟨hk.1, hk.2⟩⟩
  rw [hstruct]
  cases e with
  | mm_alloc bytes => exact ⟨fun _ => trivial, fun _ => ⟨fun q hq => hq, trivial⟩⟩
  | mm_free ptr => exact ⟨fun _ => trivial, fun _ => ⟨fun q hq => hq, trivial⟩⟩
  | call op =>
    cases op with
    | schedule rsp => exact (and_iff_left trivial).trans (schedule_losesNobody h rsp)
    | yield rsp => exact (and_iff_left trivial).trans (yield_losesNobody h rsp)
    | createProcess rip args argc priority fds ground =>
      exact createProcess_keeps h rip args argc priority fds ground
    | blockProcess pid rsp =>
      exact (and_iff_left trivial).trans (blockProcess_frame h pid rsp).lost
    | waitProcess pid rsp => exact waitProcess_keeps h pid rsp
    | setReadyProcess pid =>
      exact ⟨fun _ => trivial,
        fun _ => ⟨fun q hq => lost_changes h (changes_setReadyProcess s pid) hq, trivial⟩⟩
    | changePriority pid priority =>
      exact ⟨fun _ => trivial,
        fun _ => ⟨fun q hq => lost_changes h (changes_changePriority s pid priority) hq, trivial⟩⟩
    | killProcess pid => exact ⟨fun _ => trivial, fun _ => ⟨killProcess_losesNobody h pid, trivial⟩⟩
    | killForegroundProcess =>
      exact ⟨fun _ => trivial, fun _ => ⟨killForegroundProcess_losesNobody h, trivial⟩⟩
    | reuse p content =>
      exact ⟨fun _ => trivial,
        fun _ => ⟨fun q hq => lost_changes h (changes_reuse s p content) hq, trivial⟩⟩

/-- At each step of the run nobody is lost exactly when the nodes suffice; and with nodes
all along, whoever is lost in the end was lost at boot. -/
structure NobodyIsLost (boot : Scheduler H) (events : List KernelEvent) : Prop where
  exactly : ∀ e,
    KeepsReachable (run onEvent boot events) e ∨ reportsFailure (run onEvent boot events) e ↔
      nodesSuffice (run onEvent boot events) e
  everywhere : Meets onEvent nodesSuffice boot events → losesNobody boot (run onEvent boot events)

theorem no_process_is_lost_while_the_nodes_suffice {boot : Scheduler H} (h : Booted boot)
    (events : List KernelEvent) : NobodyIsLost boot events := by
  refine ⟨fun e => ?_, fun hok => ?_⟩
  · rw [← keepsReachable_iff (sturdy_run h events) e]
    exact or_iff_left_of_imp keepsReachable_of_reportsFailure
  · have hall := run_invariant (I := fun s => Sturdy s.view ∧ losesNobody boot s)
      (fun s e hs he => ⟨sturdy_step hs.1 e,
        fun p hp => hs.2 p (((keepsReachable_iff hs.1 e).mpr he).ready p hp)⟩)
      ⟨sturdy_booted h, fun p hp => hp⟩ hok
    exact hall.2

/-! ## A full heap -/

/-- The kernel on a heap of 230 blocks. -/
def kernelOn230 : Scheduler bitmap_heap.Manager :=
  (createScheduler 1 heap_owners.smallManager).get (by decide +kernel)

theorem booted_kernelOn230 : Booted kernelOn230 :=
  ⟨1, heap_owners.smallManager, (Option.some_get _).symm, by decide +kernel⟩

/-- The shell starts and gets the processor, and a program takes `blocks` of the 84
blocks that are left. -/
def shellThenTakes (blocks : Nat) : List KernelEvent :=
  [.call (.createProcess 2 none 0 1 none 0), .call (.schedule 3), .call (.schedule 4),
    .mm_alloc (blocks * 64)]

/-- While 69 blocks are left, the nodes suffice. -/
theorem nobody_is_lost_before_the_heap_is_full :
    Meets onEvent nodesSuffice kernelOn230 (shellThenTakes 15 ++ [.call (.schedule 5)]) ∧
      NobodyIsLost kernelOn230 (shellThenTakes 15 ++ [.call (.schedule 5)]) :=
  ⟨by decide +kernel, no_process_is_lost_while_the_nodes_suffice booted_kernelOn230 _⟩

def withAFullHeap : Scheduler bitmap_heap.Manager := run onEvent kernelOn230 (shellThenTakes 84)

/-- Enough for a PCB and what it owns, and for no node more. -/
def with69Blocks : Scheduler bitmap_heap.Manager := run onEvent kernelOn230 (shellThenTakes 15)

/-- With every block taken, the tick leaves the shell READY and in no queue. With 69
blocks left `createProcess` returns the pid 2, and `findProcess` does not know it. -/
theorem a_full_heap_loses_a_process :
    (¬ (KeepsReachable withAFullHeap (.call (.schedule 5)) ∨
        reportsFailure withAFullHeap (.call (.schedule 5))) ∧
      Lost (onEvent withAFullHeap (.call (.schedule 5))).view 1) ∧
    ¬ (KeepsReachable with69Blocks (.call (.createProcess 6 none 0 1 none 0)) ∨
        reportsFailure with69Blocks (.call (.createProcess 6 none 0 1 none 0))) ∧
      (createProcess with69Blocks 6 none 0 1 none 0).1 = 2 ∧
      findProcess (createProcess with69Blocks 6 none 0 1 none 0).2 2 = none := by
  obtain ⟨hkept, hlost⟩ : ¬ Lost withAFullHeap.view 1 ∧
      Lost (onEvent withAFullHeap (.call (.schedule 5))).view 1 := by decide +kernel
  obtain ⟨hpid, hnone⟩ : (createProcess with69Blocks 6 none 0 1 none 0).1 = 2 ∧
      findProcess (createProcess with69Blocks 6 none 0 1 none 0).2 2 = none := by decide +kernel
  refine ⟨⟨?_, hlost⟩, ?_, hpid, hnone⟩
  · rintro (hk | hf)
    · exact hkept (hk.ready 1 hlost)
    · exact hf
  · rintro (hk | hf)
    · have hfound := hk.answers (by simp [hpid])
      rw [hpid, hnone] at hfound
      cases hfound
    · have hfail := hf.1
      rw [hpid] at hfail
      cases hfail

end bare_bones.scheduler
