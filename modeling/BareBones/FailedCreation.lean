-- A call of `createProcess` that gives -1 leaves no trace: over any manager the
-- process table is as before, and over `bitmap.c` so are the heap and its count,
-- and only live blocks were freed on the way.
import BareBones.BitmapOwners
import BareBones.Carried

namespace bare_bones.scheduler

open accounts bare_bones.doubleLinkedList bare_bones.process Scheduler

/-! ## What a call that fails does -/

section Fails

variable {H : Type} [MemoryManager H]

/-- How far a call that fails comes with the new PCB: it is cleared, and perhaps
`initializeProcess` has failed on it. -/
inductive HalfBuilt (block : Addr) (heap : H) : ProcessContext → H → Prop
  | cleared : HalfBuilt block heap (.zeroed block) heap
  | failed {pid : Int} {args : Args} {argc : Int} {priority : Nat} {rip : Addr} {ground : Nat}
      {fileDescriptors : Option (Fin CANT_FILE_DESCRIPTORS → Int)} {c : ProcessContext} {heap' : H}
      (hi : initializeProcess (.zeroed block) pid args argc priority rip ground fileDescriptors
        heap = (-1, c, heap')) : HalfBuilt block heap c heap'

/-- A call that fails does nothing, or asks for a PCB and gets none, or frees the PCB
that it got. -/
theorem createProcess_fails {s : Scheduler H} {rip : Addr} {args : Args} {argc : Int}
    {priority : Nat} {fileDescriptors : Option (Fin CANT_FILE_DESCRIPTORS → Int)} {ground : Nat}
    (hfail : (createProcess s rip args argc priority fileDescriptors ground).1 = -1) :
    (createProcess s rip args argc priority fileDescriptors ground).2 = s ∨
      (∃ heap, mm_alloc PCB_SIZE s.heap = (none, heap) ∧
        (createProcess s rip args argc priority fileDescriptors ground).2 =
          { s with heap := heap }) ∨
      ∃ block heap c heap', mm_alloc PCB_SIZE s.heap = (some block, heap) ∧
        HalfBuilt block heap c heap' ∧
        (createProcess s rip args argc priority fileDescriptors ground).2 =
          ({ s with heap := heap', pcbQty := s.pcbQty + 1 }.setPcb s.pcbQty c).free s.pcbQty := by
  unfold createProcess at hfail ⊢
  split
  · exact .inl rfl
  rename_i hqty
  rw [if_neg hqty] at hfail
  split
  · rename_i heap ha
    exact .inr (.inl ⟨heap, ha, rfl⟩)
  rename_i block heap ha
  simp only [ha] at hfail
  dsimp only
  split
  · exact .inr (.inr ⟨block, heap, _, heap, ha, .cleared, rfl⟩)
  rename_i pid hpid
  simp only [hpid] at hfail
  have hzeroed := pcb_setPcb_self { s with heap := heap, pcbQty := s.pcbQty + 1 } s.pcbQty
    (.zeroed block)
  split
  · rename_i c heap' hi
    rw [hzeroed] at hi
    refine .inr (.inr ⟨block, heap, c, heap', ha, .failed hi, ?_⟩)
    simp [setPcb]
  · rename_i r c heap' hr hi
    simp only [hi] at hfail
    have hp := (initializeProcess_filled hi hr).1
    simp only [Scheduler.pid, pcb_addProcess, pcb_setPcb_self] at hfail
    omega

/-- The process table is as it was before the call. -/
structure SameTable (s s' : Scheduler H) : Prop where
  processList : s'.processList = s.processList
  readyProcess : s'.readyProcess = s.readyProcess
  blockedProcess : s'.blockedProcess = s.blockedProcess
  processQty : s'.processQty = s.processQty
  current : s'.currentProcess = s.currentProcess ∧ s'.currentPid = s.currentPid ∧
    s'.quantums = s.quantums
  pcb : ∀ p < s.pcbQty, s'.pcb p = s.pcb p

/-- Whatever the manager: a call that fails leaves every list and every PCB alone. -/
theorem sameTable_of_fails {s : Scheduler H} {rip : Addr} {args : Args} {argc : Int}
    {priority : Nat} {fileDescriptors : Option (Fin CANT_FILE_DESCRIPTORS → Int)} {ground : Nat}
    (hfail : (createProcess s rip args argc priority fileDescriptors ground).1 = -1) :
    SameTable s (createProcess s rip args argc priority fileDescriptors ground).2 := by
  rcases createProcess_fails hfail with he | ⟨heap, -, he⟩ | ⟨block, heap, c, heap', -, -, he⟩
  · rw [he]
    exact ⟨rfl, rfl, rfl, rfl, ⟨rfl, rfl, rfl⟩, fun _ _ => rfl⟩
  · rw [he]
    exact ⟨rfl, rfl, rfl, rfl, ⟨rfl, rfl, rfl⟩, fun _ _ => rfl⟩
  · rw [he]
    refine ⟨rfl, rfl, rfl, rfl, ⟨rfl, rfl, rfl⟩, fun p hp => ?_⟩
    simp [Scheduler.free, setPcb, Nat.ne_of_lt hp]

end Fails

/-- Every block that a call that fails was given comes back. -/
theorem trades_of_fails {H : Type} [Accountable H] {s : Scheduler (Audited H)} {rip : Addr}
    {args : Args} {argc : Int} {priority : Nat}
    {fileDescriptors : Option (Fin CANT_FILE_DESCRIPTORS → Int)} {ground : Nat}
    (hfail : (createProcess s rip args argc priority fileDescriptors ground).1 = -1) :
    Audited.Trades s.heap
      (createProcess s rip args argc priority fileDescriptors ground).2.heap 0 0 := by
  rcases createProcess_fails hfail with he | ⟨heap, ha, he⟩ | ⟨block, heap, c, heap', ha, hb, he⟩
  · rw [he]
    exact .refl _ _
  · rw [he]
    exact (Audited.alloc_none ha 0).1
  · have hfilled : Audited.Trades heap heap' {block} c.blocks := by
      cases hb with
      | cleared =>
        rw [blocks_zeroed]
        exact .refl _ _
      | failed hi =>
        obtain ⟨ti, hblock⟩ := trades_initializeProcess hi
        have := ti.frame {block}
        rw [zero_add] at this
        rwa [ProcessContext.blocks, hblock]
    have hfreed : (({ s with heap := heap', pcbQty := s.pcbQty + 1 }.setPcb s.pcbQty c).free
        s.pcbQty).heap = (freeProcess c heap').2 := by
      simp [Scheduler.free, setPcb]
    rw [he, hfreed]
    exact ((Audited.alloc_some ha).trans hfilled).trans (trades_freeProcess c heap')

end bare_bones.scheduler

namespace bare_bones.bitmap_heap

open accounts extents

/-! ## The blocks of others -/

/-- The bitmap manager as one call sees it that begins in `m`, with `base` allocated:
its account has only the blocks of that call. -/
def Beside (_ : Manager) (_ : List Allocation) : Type := Manager

/-- The bitmap shows `base` and what the account says. -/
structure ShowsBeside (m : Manager) (base : List Allocation) (m' : Manager)
    (x : Account Addr Nat) : Prop where
  shows : Shows ⟨m', allocations x ++ base⟩
  shape : SameShape m m'
  small : m.blockCount * BLOCK_SIZE ≤ 2 ^ 63
  start : 0 < m.realMemStart

instance (m : Manager) (base : List Allocation) : Accountable (Beside m base) where
  mm_alloc := mm_alloc
  mm_free := mm_free
  Tidy := ShowsBeside m base
  tidy_refuse := by
    intro bytes m₁ m₂ x hm h
    have hm' : mm_alloc bytes m₁ = (none, m₂) := hm
    have he : exec ⟨m₁, allocations x ++ base⟩ (.mm_alloc bytes) = ⟨m₂, allocations x ++ base⟩ := by
      rw [exec, hm']
    obtain ⟨hs, hshape⟩ := shows_alloc h.shows bytes
    rw [he] at hs hshape
    exact ⟨hs, h.shape.trans hshape, h.small, h.start⟩
  tidy_give := by
    intro bytes m₁ m₂ a x hm h
    have hm' : mm_alloc bytes m₁ = (some a, m₂) := hm
    have he : exec ⟨m₁, allocations x ++ base⟩ (.mm_alloc bytes) =
        ⟨m₂, allocations (x.give a bytes) ++ base⟩ := by
      rw [exec, hm']
      rfl
    obtain ⟨hs, hshape⟩ := shows_alloc h.shows bytes
    rw [he] at hs hshape
    exact ⟨hs, h.shape.trans hshape, h.small, h.start⟩
  tidy_take := by
    intro m₁ ptr x hmem h
    obtain ⟨g, hg, rfl⟩ := List.mem_map.mp (Multiset.mem_coe.mp hmem)
    have hg' : (⟨g.1, g.2⟩ : Allocation) ∈ allocations x ++ base :=
      List.mem_append_left _ (List.mem_map.mpr ⟨g, hg, rfl⟩)
    have hnodup := h.shows.nodup_ptr
    dsimp only at hnodup
    rw [List.map_append, List.nodup_append] at hnodup
    obtain ⟨hx, -, hapart⟩ := hnodup
    have hbase : base.filter (fun b => ¬ b.ptr = g.1) = base := by
      refine List.filter_eq_self.mpr fun b hb => decide_eq_true fun he => ?_
      exact hapart g.1 (List.mem_map.mpr ⟨⟨g.1, g.2⟩, List.mem_map.mpr ⟨g, hg, rfl⟩, rfl⟩) b.ptr
        (List.mem_map_of_mem hb) he.symm
    have hx' : (x.live.map Prod.fst).Nodup := by
      unfold allocations at hx
      rwa [List.map_map] at hx
    have he := exec_free_start h.shows (h.shape.blockCount ▸ h.small)
      (h.shape.realMemStart ▸ h.start) hg'
    dsimp only at he
    rw [List.filter_append, hbase, allocations_take hx'] at he
    obtain ⟨hs, hshape⟩ := shows_free h.shows g.1
    rw [he] at hs hshape
    exact ⟨hs, h.shape.trans hshape, h.small, h.start⟩

/-- The cells and the count of a heap are as they were. -/
structure SameCells (m m' : Manager) : Prop where
  shape : SameShape m m'
  cells : ∀ i < m.blockCount, m'.bitmap i = m.bitmap i
  counted : m'.usedBlocksCount = m.usedBlocksCount

/-- Two bitmaps of one region that show the same allocations are the same. -/
theorem Shows.sameCells {m m' : Manager} {live : List Allocation} (h : Shows ⟨m, live⟩)
    (h' : Shows ⟨m', live⟩) (hs : SameShape m m') : SameCells m m' := by
  have hcells := cellsOf_shape hs
  have hd := h'.drawn
  dsimp only at hd
  rw [hcells] at hd
  refine ⟨hs, fun i hi => ?_, hd.counted.trans h.drawn.counted.symm⟩
  rw [hd.drawn i (hs.blockCount ▸ hi)]
  exact (h.drawn.drawn i hi).symm

end bare_bones.bitmap_heap

namespace bare_bones.scheduler

open bitmap_heap accounts bare_bones.process Scheduler

/-- Everything is as it was, and only blocks that were live came back. -/
structure NoTrace (s s' : Scheduler (Audited Manager)) : Prop where
  table : SameTable s s'
  heap : SameCells s.heap.manager s'.heap.manager
  frees : s'.heap.account.stray = s.heap.account.stray

/-- The same scheduler, on a heap whose account begins with the call. -/
def beside (s : Scheduler (Audited Manager)) (h : s.heap.account.stray = 0) :
    Scheduler (Audited (Beside s.heap.manager (allocations s.heap.account))) where
  heap :=
    { manager := s.heap.manager
      account := .empty
      tidy := fun _ =>
        ⟨(s.heap.tidy h).shows, .refl _, (s.heap.tidy h).small, (s.heap.tidy h).start⟩ }
  processList := s.processList
  readyProcess := s.readyProcess
  blockedProcess := s.blockedProcess
  currentPid := s.currentPid
  currentProcess := s.currentProcess
  processQty := s.processQty
  quantums := s.quantums
  pcb := s.pcb
  pcbQty := s.pcbQty
  frees := s.frees

theorem carries_beside (m : Manager) (base : List Allocation) :
    Carries (H := Audited (Beside m base)) (K := Manager) (fun h => h.manager) where
  alloc bytes h := (carries_manager (H := Beside m base)).alloc bytes h
  free a h := (carries_manager (H := Beside m base)).free a h

/-- Both accounts lie over one bitmap. -/
theorem manager_beside (s : Scheduler (Audited Manager)) (h : s.heap.account.stray = 0)
    (rip : Addr) (args : Args) (argc : Int) (priority : Nat)
    (fileDescriptors : Option (Fin CANT_FILE_DESCRIPTORS → Int)) (ground : Nat) :
    (createProcess s rip args argc priority fileDescriptors ground).1 =
        (createProcess (beside s h) rip args argc priority fileDescriptors ground).1 ∧
      (createProcess s rip args argc priority fileDescriptors ground).2.heap.manager =
        (createProcess (beside s h) rip args argc priority fileDescriptors
          ground).2.heap.manager := by
  have h₁ := createProcess_carried (carries_manager (H := Manager)) s rip args argc priority
    fileDescriptors ground
  have h₂ := createProcess_carried (carries_beside _ _) (beside s h) rip args argc priority
    fileDescriptors ground
  have hboth := h₁.symm.trans h₂
  exact ⟨congrArg Prod.fst hboth, congrArg (fun r => r.2.heap) hboth⟩

/-- For every process table, every heap and every argument vector, whichever allocation
fails. The account names the blocks that are live when the call begins. -/
theorem a_failed_creation_leaves_no_trace (s : Scheduler (Audited Manager))
    (hbooks : s.heap.account.stray = 0) (rip : Addr) (args : Args) (argc : Int) (priority : Nat)
    (fileDescriptors : Option (Fin CANT_FILE_DESCRIPTORS → Int)) (ground : Nat)
    (hfail : (createProcess s rip args argc priority fileDescriptors ground).1 = -1) :
    NoTrace s (createProcess s rip args argc priority fileDescriptors ground).2 := by
  refine ⟨sameTable_of_fails hfail, ?_, ?_⟩
  · obtain ⟨hr, hm⟩ := manager_beside s hbooks rip args argc priority fileDescriptors ground
    have ht := trades_of_fails (hr ▸ hfail)
    rw [hm]
    generalize (createProcess (beside s hbooks) rip args argc priority fileDescriptors
      ground).2.heap = h at ht
    obtain ⟨hheld, hstray⟩ := ht.held 0 rfl
    have hlive : h.account.live = [] := by
      have hnone : h.account.live.map Prod.fst = [] := (Multiset.coe_eq_zero _).mp hheld
      exact List.map_eq_nil_iff.mp hnone
    have htidy : ShowsBeside s.heap.manager (allocations s.heap.account) h.manager h.account :=
      h.tidy hstray
    have hshows := htidy.shows
    simp only [allocations, hlive, List.map_nil, List.nil_append] at hshows
    exact (s.heap.tidy hbooks).shows.sameCells hshows htidy.shape
  · exact ((trades_of_fails hfail).held s.heap.account.held (zero_add _).symm).2

/-- No process yet, on a fresh heap of 70 blocks. -/
def onSeventyBlocks : Scheduler (Audited Manager) :=
  emptyScheduler (freshHeap (r := ⟨64, 4582, by decide⟩) rfl (by decide)) ⟨0, []⟩ ⟨0, []⟩ ⟨0, []⟩

/-- The second argument is `NULL`: the PCB, the stack, the array and the copy of the
first argument all come back. -/
theorem a_missing_argument_leaves_no_trace :
    NoTrace onSeventyBlocks (createProcess onSeventyBlocks 1
      (some fun i => if i = 0 then some [97] else none) 2 1 none 0).2 :=
  a_failed_creation_leaves_no_trace onSeventyBlocks rfl 1 _ 2 1 none 0 (by decide +kernel)

end bare_bones.scheduler
