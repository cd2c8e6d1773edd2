-- Moving a process between the queues over `bitmap.c`. `setReadyProcess` and
-- `blockProcess` free the node of one queue before they ask for the node of the
-- other, and the block that they free has room for it.
import BareBones.BitmapExact
import BareBones.SchedulerPartition

namespace bare_bones.scheduler

open bare_bones.doubleLinkedList bare_bones.process bitmap_heap Scheduler

/-- The heap is what some calls leave of a fresh one, and the nodes of the two queues
are allocations that are live in it. -/
def NodesLive (s : Scheduler Manager) : Prop :=
  ∃ (r : Region) (m : Manager) (calls : List HeapCall), mm_create r = some m ∧
    r.totalSize ≤ 2 ^ 63 ∧ (runs.run bitmap_heap.exec ⟨m, []⟩ calls).manager = s.heap ∧
    ∀ n ∈ s.readyProcess.nodes ++ s.blockedProcess.nodes,
      ∃ a ∈ (runs.run bitmap_heap.exec ⟨m, []⟩ calls).live, a.ptr = n.1

/-- `p` is the only one to move: from its queue to the end of the blocked queue. -/
structure Blocked (s s' : Scheduler Manager) (p : Pcb) : Prop where
  ready : s'.ready = s.ready.erase p
  blocked : s'.blocked = s.blocked ++ [p]
  status : ∀ q, s'.status q = if q = p then .BLOCKED else s.status q

/-- `p` is the only one to move: from its queue to the end of the ready queue. -/
structure Readied (s s' : Scheduler Manager) (p : Pcb) : Prop where
  ready : s'.ready = s.ready ++ [p]
  blocked : s'.blocked = s.blocked.erase p
  status : ∀ q, s'.status q = if q = p then .READY else s.status q

/-- A call that moves a process moves it whole, or changes nothing at all. -/
structure MovesWhole (s : Scheduler Manager) (pid : Int) (rsp : Addr) : Prop where
  block_fails : (blockProcess s pid rsp).1 = -1 → (blockProcess s pid rsp).2 = s
  block_moves : ∀ p ∈ s.procs, s.pid p = pid → s.status p = .READY →
    ∃ s', Blocked s s' p ∧
      blockProcess s pid rsp = (0, if getPid s = pid then yield s' rsp else s')
  ready_fails : (setReadyProcess s pid).1 = -1 → (setReadyProcess s pid).2 = s
  ready_moves : ∀ p ∈ s.procs, s.pid p = pid → s.status p = .BLOCKED →
    ∃ s', Readied s s' p ∧ setReadyProcess s pid = (0, s')

/-! ## The node -/

theorem addNode_fails {h h' : Manager} {l list : DoubleLinkedList Pcb} {x : Pcb}
    (hd : ∃ e, Drawn h e) (ha : addNode list x h = (none, l, h')) : h' = h := by
  obtain ⟨e, hd⟩ := hd
  unfold addNode at ha
  split at ha
  · rename_i h₁ hm
    cases ha
    have hm' : bitmap_heap.mm_alloc NODE_SIZE h = (none, h') := hm
    rcases mm_alloc_cases hd NODE_SIZE with ⟨he, -⟩ | ⟨i, m', he, -⟩
    · rw [hm'] at he
      exact congrArg Prod.snd he
    · rw [hm'] at he
      cases he
  · cases ha

/-- A node that leaves one list makes room for a node of another. -/
theorem addNode_after_removeNode {h : Heap} (hs : Shows h)
    (hsmall : h.manager.blockCount * BLOCK_SIZE ≤ 2 ^ 63) (hstart : 0 < h.manager.realMemStart)
    {list : DoubleLinkedList Pcb} (other : DoubleLinkedList Pcb)
    (hlive : ∀ n ∈ list.nodes, ∃ a ∈ h.live, a.ptr = n.1)
    {p : Pcb} (hp : p ∈ list.data) :
    ∃ l h₁ a l' h₂, removeNode list p h.manager = (some p, l, h₁) ∧ l.data = list.data.erase p ∧
      addNode other p h₁ = (some a, l', h₂) ∧ l'.data = other.data ++ [p] := by
  obtain ⟨l, h₁, hrem, hdata⟩ := removeNode_of_mem h.manager hp
  have hfreed : ∃ a ∈ h.live, h₁ = bitmap_heap.mm_free a.ptr h.manager := by
    have hrem' := hrem
    unfold removeNode at hrem'
    split at hrem'
    · cases hrem'
    · rename_i n hfind
      obtain ⟨a, ha, hptr⟩ := hlive n (List.mem_of_find?_eq_some hfind)
      cases hrem'
      exact ⟨a, ha, hptr ▸ rfl⟩
  obtain ⟨a, ha, rfl⟩ := hfreed
  have hone : blocksFor NODE_SIZE ≤ blocksFor a.bytes := by
    have := (hs.placed a ha).1
    unfold blocksFor NODE_SIZE BLOCK_SIZE
    omega
  obtain ⟨ptr, m', he⟩ := hs.alloc_after_free hsmall hstart ha (by decide) hone
  have hadd : addNode other p (bitmap_heap.mm_free a.ptr h.manager) =
      (some ptr, { other with nodes := other.nodes ++ [(ptr, p)] }, m') := by
    unfold addNode
    rw [show mm_alloc NODE_SIZE (bitmap_heap.mm_free a.ptr h.manager) = (some ptr, m') from he]
  exact ⟨l, _, ptr, _, m', hrem, hdata, hadd, addNode_some hadd⟩

/-! ## The calls -/

theorem Partition.findProcess {s : Scheduler Manager} (h : Partition s) {p : Pcb}
    (hp : p ∈ s.procs) : findProcess s (s.pid p) = some p := by
  cases hf : scheduler.findProcess s (s.pid p) with
  | none =>
    have := List.find?_eq_none.mp hf p hp
    simp at this
  | some q =>
    have hq : s.pid q = s.pid p := by simpa using List.find?_some hf
    rw [List.inj_on_of_nodup_map h.pids_nodup (List.mem_of_find?_eq_some hf) hp hq]

section Moves

variable {s : Scheduler Manager} {h : Heap}

/-- A READY process finds a node in the blocked queue. -/
theorem blocks_ready (hs : Shows h) (hsmall : h.manager.blockCount * BLOCK_SIZE ≤ 2 ^ 63)
    (hstart : 0 < h.manager.realMemStart) (hheap : h.manager = s.heap)
    (hlive : ∀ n ∈ s.readyProcess.nodes, ∃ a ∈ h.live, a.ptr = n.1) {p : Pcb}
    (hp : p ∈ s.ready) (hst : s.status p = .READY) {pid : Int}
    (hf : findProcess s pid = some p) (rsp : Addr) :
    ∃ s', Blocked s s' p ∧
      blockProcess s pid rsp = (0, if getPid s = pid then yield s' rsp else s') := by
  obtain ⟨l, h₁, a, l', h₂, hrem, hl, hadd, hl'⟩ :=
    addNode_after_removeNode hs hsmall hstart s.blockedProcess hlive hp
  rw [hheap] at hrem
  refine ⟨{ s with readyProcess := l, heap := h₂, blockedProcess := l' }.setStatus p .BLOCKED,
    ?_, ?_⟩
  · exact ⟨hl, hl', fun q => status_setStatus _ p q .BLOCKED⟩
  · unfold blockProcess
    simp only [hf, hst, or_true, if_true, hrem, hadd]
    exact (apply_ite (Prod.mk (0 : Int)) _ _ _).symm

/-- A BLOCKED process finds a node in the ready queue. -/
theorem readies_blocked (hs : Shows h) (hsmall : h.manager.blockCount * BLOCK_SIZE ≤ 2 ^ 63)
    (hstart : 0 < h.manager.realMemStart) (hheap : h.manager = s.heap)
    (hlive : ∀ n ∈ s.blockedProcess.nodes, ∃ a ∈ h.live, a.ptr = n.1) {p : Pcb}
    (hp : p ∈ s.blocked) (hst : s.status p = .BLOCKED) {pid : Int}
    (hf : findProcess s pid = some p) :
    ∃ s', Readied s s' p ∧ setReadyProcess s pid = (0, s') := by
  obtain ⟨l, h₁, a, l', h₂, hrem, hl, hadd, hl'⟩ :=
    addNode_after_removeNode hs hsmall hstart s.readyProcess hlive hp
  rw [hheap] at hrem
  refine ⟨{ s with blockedProcess := l, heap := h₂, readyProcess := l' }.setStatus p .READY,
    ?_, ?_⟩
  · exact ⟨hl', hl, fun q => status_setStatus _ p q .READY⟩
  · unfold setReadyProcess
    simp only [hf, hst, if_true, hrem, hadd]

/-- Only a RUNNING process can find no node, and it stays where it is. -/
theorem blockProcess_fails (hd : ∃ e, Drawn s.heap e) (pid : Int) (rsp : Addr)
    (hready : ∀ p, findProcess s pid = some p → s.status p = .READY →
      (blockProcess s pid rsp).1 = 0) (hfail : (blockProcess s pid rsp).1 = -1) :
    (blockProcess s pid rsp).2 = s := by
  unfold blockProcess at hready hfail ⊢
  cases hf : findProcess s pid with
  | none => rfl
  | some p =>
    have hready := hready p hf
    simp only [hf] at hready hfail ⊢
    by_cases hst : s.status p = .READY
    · rw [hready hst] at hfail
      cases hfail
    · simp only [hst, or_false, if_false] at hfail ⊢
      split_ifs at hfail ⊢ with hrun
      split
      · rename_i l heap hadd
        rw [addNode_fails hd hadd]
      · rename_i a l heap hadd
        rw [hadd] at hfail
        dsimp only at hfail
        split at hfail <;> cases hfail

theorem setReadyProcess_fails (pid : Int)
    (hblocked : ∀ p, findProcess s pid = some p → s.status p = .BLOCKED →
      (setReadyProcess s pid).1 = 0) (hfail : (setReadyProcess s pid).1 = -1) :
    (setReadyProcess s pid).2 = s := by
  cases hf : findProcess s pid with
  | none =>
    unfold setReadyProcess
    rw [hf]
  | some p =>
    by_cases hst : s.status p = .BLOCKED
    · rw [hblocked p hf hst] at hfail
      cases hfail
    · unfold setReadyProcess
      simp only [hf, hst, if_false]

end Moves

/-- For every heap, also a full one, and every pid. -/
theorem no_call_loses_a_process_between_the_queues {s : Scheduler Manager} (hpart : Partition s)
    (hlive : NodesLive s) (pid : Int) (rsp : Addr) : MovesWhole s pid rsp := by
  obtain ⟨r, m, calls, hm, hsize, hheap, hnodes⟩ := hlive
  obtain ⟨hi, hreal, hroom⟩ := mm_create_spec hm
  obtain ⟨hs, hshape⟩ := shows_run hi calls
  generalize runs.run bitmap_heap.exec ⟨m, []⟩ calls = h at hs hshape hheap hnodes
  have hsmall : h.manager.blockCount * BLOCK_SIZE ≤ 2 ^ 63 := by
    rw [hshape.blockCount]
    exact (Nat.mul_le_mul_left _ (Nat.le_succ _)).trans
      ((Nat.le_add_left _ _).trans (hroom.trans hsize))
  have hstart : 0 < h.manager.realMemStart := by
    rw [hshape.realMemStart]
    exact hreal ▸ Nat.lt_of_lt_of_le (by decide : 0 < structSize)
      ((Nat.le_add_left _ _).trans (Nat.le_add_right _ _))
  have hready : ∀ p ∈ s.procs, s.status p = .READY → p ∈ s.ready := fun p hp hst =>
    List.count_pos_iff.mp (by rw [(hpart.ready_iff p hp).mp hst]; decide)
  have hblocked : ∀ p ∈ s.procs, s.status p = .BLOCKED → p ∈ s.blocked := fun p hp hst =>
    List.count_pos_iff.mp (by rw [(hpart.blocked_iff p hp).mp hst]; decide)
  have hblocks : ∀ p ∈ s.procs, s.status p = .READY → findProcess s pid = some p → ∃ s',
      Blocked s s' p ∧
        blockProcess s pid rsp = (0, if getPid s = pid then yield s' rsp else s') :=
    fun p hp hst hf => blocks_ready hs hsmall hstart hheap
      (fun n hn => hnodes n (List.mem_append_left _ hn)) (hready p hp hst) hst hf rsp
  have hreadies : ∀ p ∈ s.procs, s.status p = .BLOCKED → findProcess s pid = some p → ∃ s',
      Readied s s' p ∧ setReadyProcess s pid = (0, s') :=
    fun p hp hst hf => readies_blocked hs hsmall hstart hheap
      (fun n hn => hnodes n (List.mem_append_right _ hn)) (hblocked p hp hst) hst hf
  refine ⟨blockProcess_fails ⟨_, hheap ▸ hs.drawn⟩ pid rsp fun p hf hst => ?_,
    fun p hp hpid hst => hblocks p hp hst (hpid ▸ hpart.findProcess hp),
    setReadyProcess_fails pid fun p hf hst => ?_,
    fun p hp hpid hst => hreadies p hp hst (hpid ▸ hpart.findProcess hp)⟩
  · obtain ⟨s', -, he⟩ := hblocks p (List.mem_of_find?_eq_some hf) hst hf
    rw [he]
  · obtain ⟨s', -, he⟩ := hreadies p (List.mem_of_find?_eq_some hf) hst hf
    rw [he]

/-- The first process is in the ready queue, the second runs and the third is blocked,
on a heap of three blocks that are all taken. -/
def onAFullHeap : Scheduler Manager where
  heap := (runs.run bitmap_heap.exec ⟨⟨fun _ => .FREE, 99, 3, 0⟩, []⟩
    [.mm_alloc 24, .mm_alloc 24, .mm_alloc 1]).manager
  processList := ⟨0, [(0, 0), (0, 1), (0, 2)]⟩
  readyProcess := ⟨0, [(99, 0)]⟩
  blockedProcess := ⟨0, [(163, 2)]⟩
  currentPid := 1
  currentProcess := some 1
  processQty := 3
  quantums := 1
  pcb p := { ProcessContext.zeroed 0 with
    pid := p
    status := if p = 0 then .READY else if p = 1 then .RUNNING else .BLOCKED }
  pcbQty := 3
  frees _ := 0

theorem partition_onAFullHeap : Partition onAFullHeap :=
  ⟨by decide, by decide, by decide, rfl, by decide, by decide, by decide, by decide, by decide,
    by decide, fun _ hf => absurd hf (Nat.lt_irrefl 0), fun _ => Nat.zero_le 1⟩

theorem no_call_loses_a_process_on_a_full_heap : MovesWhole onAFullHeap 0 8 :=
  no_call_loses_a_process_between_the_queues partition_onAFullHeap
    ⟨⟨64, 227, by decide⟩, _, _, rfl, by decide, rfl, by decide⟩ 0 8

end bare_bones.scheduler
