-- The kernel over `bitmap.c`: who owns the blocks of the heap in every run of
-- the process calls, with other parts of the kernel allocating and freeing
-- blocks of their own in between.
import BareBones.BitmapSafety
import BareBones.Ownership
import BareBones.SchedulerPartition

namespace bare_bones.bitmap_heap

open bare_bones accounts extents

/-! ## The books of the bitmap -/

/-- The allocations of an account. -/
def allocations (x : Account Addr Nat) : List Allocation := x.live.map fun g => ⟨g.1, g.2⟩

/-- The bitmap shows what the account says. The heap is no larger than the distance
of two pointers can be. -/
structure ShowsAccount (m : Manager) (x : Account Addr Nat) : Prop where
  shows : Shows ⟨m, allocations x⟩
  small : m.blockCount * BLOCK_SIZE ≤ 2 ^ 63
  start : 0 < m.realMemStart

theorem eraseP_eq_filter {α : Type} {l : List α} {f : α → Addr} (h : (l.map f).Nodup) (a : Addr) :
    l.eraseP (fun x => f x = a) = l.filter (fun x => ¬ f x = a) := by
  induction l with
  | nil => rfl
  | cons x l ih =>
    rw [List.map_cons, List.nodup_cons] at h
    by_cases hx : f x = a
    · subst hx
      have hrest : l.filter (fun y => ¬ f y = f x) = l := by
        apply List.filter_eq_self.mpr
        intro y hy
        exact decide_eq_true fun hyx => h.1 (hyx ▸ List.mem_map_of_mem hy)
      rw [List.eraseP_cons_of_pos (by simp), List.filter_cons_of_neg (by simp), hrest]
    · rw [List.eraseP_cons_of_neg (by simpa using hx), List.filter_cons_of_pos (by simpa using hx),
        ih h.2]

theorem ShowsAccount.nodup {m : Manager} {x : Account Addr Nat} (h : ShowsAccount m x) :
    (x.live.map Prod.fst).Nodup := by
  have := h.shows.nodup_ptr
  dsimp only [allocations] at this
  rwa [List.map_map] at this

/-- The allocations of an account, less one that comes back. -/
theorem allocations_take {x : Account Addr Nat} (hnodup : (x.live.map Prod.fst).Nodup)
    (a : Addr) : (allocations x).filter (fun b => ¬ b.ptr = a) = allocations (x.take a) := by
  unfold allocations Account.take
  rw [List.filter_map, eraseP_eq_filter hnodup]
  rfl

/-- Freeing an allocation by its start takes out this one. -/
theorem exec_free_start {h : Heap} (hs : Shows h)
    (hsmall : h.manager.blockCount * BLOCK_SIZE ≤ 2 ^ 63) (hstart : 0 < h.manager.realMemStart)
    {a : Allocation} (ha : a ∈ h.live) : exec h (.mm_free a.ptr) =
      ⟨mm_free a.ptr h.manager, h.live.filter (fun b => ¬ b.ptr = a.ptr)⟩ := by
  have hblock := blockOf_start hs hsmall hstart ha
  have hr : ∀ b : Allocation, Released h.manager a.ptr b ↔ b.ptr = a.ptr := by
    intro b
    rw [Released, hblock, Option.map_some, Option.some.injEq, ← (hs.placed a ha).2]
    exact eq_comm
  simp only [exec, hr]

instance : Accountable Manager where
  Tidy := ShowsAccount
  tidy_refuse := by
    intro bytes m m' x hm h
    have hm' : mm_alloc bytes m = (none, m') := hm
    have he : exec ⟨m, allocations x⟩ (.mm_alloc bytes) = ⟨m', allocations x⟩ := by rw [exec, hm']
    obtain ⟨hs, hshape⟩ := shows_alloc h.shows bytes
    rw [he] at hs hshape
    exact ⟨hs, hshape.blockCount ▸ h.small, hshape.realMemStart ▸ h.start⟩
  tidy_give := by
    intro bytes m m' a x hm h
    have hm' : mm_alloc bytes m = (some a, m') := hm
    have he : exec ⟨m, allocations x⟩ (.mm_alloc bytes) =
        ⟨m', allocations (x.give a bytes)⟩ := by rw [exec, hm']; rfl
    obtain ⟨hs, hshape⟩ := shows_alloc h.shows bytes
    rw [he] at hs hshape
    exact ⟨hs, hshape.blockCount ▸ h.small, hshape.realMemStart ▸ h.start⟩
  tidy_take := by
    intro m ptr x hmem h
    obtain ⟨g, hg, rfl⟩ := List.mem_map.mp (Multiset.mem_coe.mp hmem)
    have hg' : (⟨g.1, g.2⟩ : Allocation) ∈ allocations x := List.mem_map.mpr ⟨g, hg, rfl⟩
    have he := exec_free_start h.shows h.small h.start hg'
    rw [allocations_take h.nodup] at he
    obtain ⟨hs, hshape⟩ := shows_free h.shows g.1
    rw [he] at hs hshape
    exact ⟨hs, hshape.blockCount ▸ h.small, hshape.realMemStart ▸ h.start⟩

/-- What the region keeps free, in blocks, is what its allocations take. -/
theorem ShowsAccount.counted {m : Manager} {x : Account Addr Nat} (h : ShowsAccount m x) :
    m.usedBlocksCount = (x.live.map fun g => blocksFor g.2).sum := by
  have htotal : ∀ l : List (Addr × Nat),
      total ((l.map fun g => (⟨g.1, g.2⟩ : Allocation)).map (cellsOf m)) =
        (l.map fun g => blocksFor g.2).sum := by
    intro l
    induction l with
    | nil => rfl
    | cons g l ih =>
      rw [List.map_cons, List.map_cons, total_cons, ih, List.map_cons, List.sum_cons]
      rfl
  exact h.shows.drawn.counted.trans (htotal x.live)

/-- The ledger of a fresh heap. -/
def freshHeap {r : Region} {m : Manager} (hm : mm_create r = some m)
    (hr : r.totalSize ≤ 2 ^ 63) : Audited Manager where
  manager := m
  account := .empty
  tidy _ := by
    obtain ⟨hshows, hreal, hroom⟩ := mm_create_spec hm
    refine ⟨hshows, ?_, ?_⟩
    · exact (Nat.mul_le_mul_left _ (Nat.le_succ _)).trans
        ((Nat.le_add_left _ _).trans (hroom.trans hr))
    · exact hreal ▸ Nat.lt_of_lt_of_le (by decide : 0 < structSize)
        ((Nat.le_add_left _ _).trans (Nat.le_add_right _ _))

end bare_bones.bitmap_heap

namespace bare_bones.scheduler

open accounts bare_bones.bitmap_heap bare_bones.doubleLinkedList bare_bones.process runs

/-! ## The process calls -/

section Calls

variable {H : Type} [Accountable H]

/-- A `createProcess` that gives no pid. -/
def failsToCreate (s : Scheduler (Audited H)) : Op → Prop
  | .createProcess rip args argc priority fileDescriptors ground =>
    (createProcess s rip args argc priority fileDescriptors ground).1 = -1
  | _ => False

instance (s : Scheduler (Audited H)) (op : Op) : Decidable (failsToCreate s op) :=
  match op with
  | .createProcess .. => inferInstanceAs (Decidable (_ = _))
  | .schedule _ | .yield _ | .blockProcess .. | .setReadyProcess _ | .waitProcess ..
  | .changePriority .. | .killProcess _ | .killForegroundProcess | .reuse .. => isFalse not_false

/-- The heap gives every list node that is asked for. A call asks for nodes only,
but for `createProcess`, which asks for its nodes when it has all the rest. -/
def nodesGranted (s : Scheduler (Audited H)) (op : Op) : Prop :=
  (exec s op).heap.account.refused = s.heap.account.refused ∨ failsToCreate s op

instance (s : Scheduler (Audited H)) (op : Op) : Decidable (nodesGranted s op) :=
  inferInstanceAs (Decidable (_ ∨ _))

/-- What `addProcess` asks for and gets first is the node of the process list. -/
theorem addProcess_node (s : Scheduler (Audited H)) (p : Pcb) :
    (addProcess s p).procs = (addNode s.processList p s.heap).2.1.data ∧
      (addNode s.processList p s.heap).2.2.account.refused ≤
        (addProcess s p).heap.account.refused := by
  unfold addProcess
  generalize addNode s.processList p s.heap = added
  obtain ⟨x, l, heap⟩ := added
  dsimp only
  split
  · exact ⟨rfl, (trades_addNode s.readyProcess p heap).refused⟩
  · split
    · exact ⟨rfl, (trades_addNode s.blockedProcess p heap).refused⟩
    · exact ⟨rfl, Nat.le_refl _⟩

theorem addProcess_enlists {s : Scheduler (Audited H)} {p : Pcb}
    (h : (addProcess s p).heap.account.refused ≤ s.heap.account.refused) :
    p ∈ (addProcess s p).procs := by
  obtain ⟨hprocs, hle⟩ := addProcess_node s p
  rw [hprocs]
  rcases addNode_data s.processList p s.heap with ⟨hd, -⟩ | ⟨-, hnone⟩
  · rw [hd]
    simp
  · exact absurd (hle.trans h) (Nat.not_le.mpr (addNode_refused hnone))

/-- A process that was created is in the process list when nodes are granted. -/
theorem createProcess_enlists {s : Scheduler (Audited H)} {rip : Addr} {args : Args} {argc : Int}
    {priority : Nat} {fileDescriptors : Option (Fin CANT_FILE_DESCRIPTORS → Int)} {ground : Nat}
    (h : nodesGranted s (.createProcess rip args argc priority fileDescriptors ground)) :
    (createProcess s rip args argc priority fileDescriptors ground).1 = -1 ∨
      s.pcbQty ∈ (createProcess s rip args argc priority fileDescriptors ground).2.procs := by
  rcases h with h | h
  case inr => exact Or.inl h
  have h' : (createProcess s rip args argc priority fileDescriptors ground).2.heap.account.refused
      = s.heap.account.refused := h
  clear h
  unfold createProcess at h' ⊢
  split
  · exact Or.inl rfl
  rename_i hqty
  rw [if_neg hqty] at h'
  split
  · exact Or.inl rfl
  rename_i block heap ha
  simp only [ha] at h'
  have hle := (Audited.alloc_some ha).refused
  dsimp only
  split
  · exact Or.inl rfl
  rename_i pid hpid
  simp only [hpid] at h'
  split
  · exact Or.inl rfl
  rename_i r c heap' hr hi
  simp only [hi] at h'
  have hle' := (trades_initializeProcess hi).1.refused
  exact Or.inr (addProcess_enlists (h'.le.trans (hle.trans hle')))

/-- `createProcess` brings no other process into the list. -/
theorem procs_createProcess {s : Scheduler (Audited H)} {rip : Addr} {args : Args} {argc : Int}
    {priority : Nat} {fileDescriptors : Option (Fin CANT_FILE_DESCRIPTORS → Int)} {ground : Nat}
    {p : Pcb}
    (h : p ∈ (createProcess s rip args argc priority fileDescriptors ground).2.procs) :
    p ∈ s.procs ∨ p = s.pcbQty := by
  unfold createProcess at h
  split at h
  · exact Or.inl h
  split at h
  · exact Or.inl h
  dsimp only at h
  split at h
  · exact Or.inl h
  split at h
  · exact Or.inl h
  rename_i c heap' _ hi
  rw [(addProcess_node _ _).1] at h
  rcases addNode_data s.processList s.pcbQty heap' with ⟨hd, -⟩ | ⟨hd, -⟩
  · have h' : p ∈ (addNode s.processList s.pcbQty heap').2.1.data := h
    rw [hd, List.mem_append, List.mem_singleton] at h'
    exact h'
  · have h' : p ∈ (addNode s.processList s.pcbQty heap').2.1.data := h
    rw [hd] at h'
    exact Or.inl h'

theorem balances_exec {s : Scheduler (Audited H)} (h : Shape s) {op : Op} (hidle : sparesIdle s op)
    (hnodes : nodesGranted s op) : Balances s (exec s op) := by
  cases op with
  | schedule rsp => exact balances_schedule h rsp
  | yield rsp => exact balances_yield h rsp
  | createProcess rip args argc priority fileDescriptors ground =>
    exact balances_createProcess h _ _ _ _ _ _ (createProcess_enlists hnodes)
  | blockProcess pid rsp => exact balances_blockProcess h hidle rsp
  | setReadyProcess pid => exact balances_setReadyProcess h pid
  | waitProcess pid rsp => exact balances_waitProcess h pid rsp hidle
  | changePriority pid priority => exact balances_changePriority h pid priority
  | killProcess pid => exact balances_killProcess h pid
  | killForegroundProcess => exact balances_killForegroundProcess h
  | reuse p content =>
    show Balances s (if 0 < s.frees p then s.setPcb p content else s)
    split
    · rename_i hfreed
      exact balances_reuse h hfreed content
    · exact .refl h

/-- Only the heap under the scheduler changes. -/
theorem Shape.withHeap {s : Scheduler (Audited H)} (h : Shape s) (heap : Audited H) :
    Shape { s with heap := heap } :=
  h.same rfl rfl rfl rfl rfl rfl rfl (fun _ => rfl) (fun _ => rfl)

end Calls

end bare_bones.scheduler

namespace bare_bones.heap_owners

open accounts bare_bones.bitmap_heap bare_bones.doubleLinkedList bare_bones.process
open bare_bones.scheduler runs

/-! ## Runs -/

/-- The scheduler, and the blocks of the rest of the kernel. -/
structure Tenants where
  scheduler : Scheduler (Audited Manager)
  others : List Addr

namespace Tenants

def account (t : Tenants) : Account Addr Nat := t.scheduler.heap.account

/-- What the processes and the lists of the scheduler own. -/
def owned (t : Tenants) : Multiset Addr := ownedBy (owners t.scheduler) t.scheduler

/-- The size of an allocation, in blocks of the bitmap. -/
def blocksAt (t : Tenants) (a : Addr) : Nat :=
  ((t.account.live.find? fun g => g.1 = a).map fun g => blocksFor g.2).getD 0

/-- What came back since the state `t`. -/
def freedSince (t t' : Tenants) : List Addr := t'.account.freed.drop t.account.freed.length

end Tenants

/-- A use of the heap: a call of the scheduler, or a call of `mm_alloc` or `mm_free`
by the rest of the kernel, which frees blocks of its own. -/
inductive Use
  | call (op : Op)
  | mm_alloc (bytes : Nat)
  | mm_free (i : Nat)

def Tenants.rent (t : Tenants) (bytes : Nat) : Tenants :=
  match MemoryManager.mm_alloc bytes t.scheduler.heap with
  | (none, heap) => { t with scheduler := { t.scheduler with heap := heap } }
  | (some a, heap) => ⟨{ t.scheduler with heap := heap }, a :: t.others⟩

def Tenants.leave (t : Tenants) (i : Nat) : Tenants :=
  match t.others[i]? with
  | none => t
  | some a =>
    ⟨{ t.scheduler with heap := MemoryManager.mm_free a t.scheduler.heap }, t.others.erase a⟩

def use (t : Tenants) : Use → Tenants
  | .call op => { t with scheduler := exec t.scheduler op }
  | .mm_alloc bytes => t.rent bytes
  | .mm_free i => t.leave i

/-- Nobody blocks or kills idle by its pid, and the scheduler gets its nodes. -/
def grantsNodes (t : Tenants) : Use → Prop
  | .call op => sparesIdle t.scheduler op ∧ nodesGranted t.scheduler op
  | _ => True

instance (t : Tenants) (u : Use) : Decidable (grantsNodes t u) :=
  match u with
  | .call op =>
    inferInstanceAs (Decidable (sparesIdle t.scheduler op ∧ nodesGranted t.scheduler op))
  | .mm_alloc _ | .mm_free _ => isTrue trivial

/-- `createScheduler` on a fresh bitmap, with idle in place. The block of the scheduler
itself is none of those it hands out. -/
def BootedTenants (t : Tenants) : Prop :=
  ∃ (r : Region) (m : Manager) (hm : mm_create r = some m) (hr : r.totalSize ≤ 2 ^ 63)
      (rip a : Addr),
    (MemoryManager.mm_alloc SCHEDULER_SIZE (freshHeap hm hr)).1 = some a ∧
      createScheduler rip (freshHeap hm hr) = some t.scheduler ∧
      (findProcess t.scheduler IDLE_PID).isSome ∧ t.others = [a]

/-- Every block that is allocated has one owner, every block that was freed was
allocated, and the count of the bitmap is the sum of what is owned. -/
structure EachOwned (t : Tenants) : Prop where
  owned : t.account.held = t.owned + ↑t.others
  once : (t.owned + ↑t.others).Nodup
  frees : t.account.stray = 0
  counted : t.scheduler.heap.manager.usedBlocksCount =
    (t.owned.map t.blocksAt).sum + (t.others.map t.blocksAt).sum

/-- A process that was alive in `t`, was killed and does not run in `t'` has given all its
blocks back. -/
structure GivesBack (t t' : Tenants) : Prop where
  blocks : ∀ p ∈ t.scheduler.procs, p ∉ t'.scheduler.procs →
    t'.scheduler.currentProcess ≠ some p → (t.scheduler.pcb p).blocks ≤ ↑(t.freedSince t')

/-- What each use of the heap keeps. -/
structure Settled (t : Tenants) : Prop where
  shape : Shape t.scheduler
  owned : t.account.held = t.owned + ↑t.others
  frees : t.account.stray = 0

/-- Others trade, and the scheduler keeps what it owns. -/
theorem settled_trade {t : Tenants} (h : Settled t) (others : List Addr) {heap : Audited Manager}
    {b b' : List Addr} {kept : Multiset Addr} (hb : ↑t.others = ↑b + kept)
    (hb' : ↑others = ↑b' + kept) (ht : Audited.Trades t.scheduler.heap heap ↑b ↑b') :
    Settled ⟨{ t.scheduler with heap := heap }, others⟩ ∧
      ∃ freed, heap.account.freed = t.account.freed ++ freed := by
  have howned := h.owned
  rw [hb, add_left_comm] at howned
  obtain ⟨hheld, hstray⟩ := ht.held _ howned
  obtain ⟨freed, hf, -⟩ := ht.gone
  refine ⟨⟨h.shape.withHeap heap, ?_, hstray.trans h.frees⟩, freed, hf⟩
  rw [hb', add_left_comm]
  exact hheld

/-- What is kept from `t` to `t'`, and what a process does not own any more was freed. -/
structure Follows (t t' : Tenants) : Prop where
  settled : Settled t'
  gone : ∃ freed, t'.account.freed = t.account.freed ++ freed ∧
    ∀ p, holding (owners t.scheduler) t.scheduler p ≤
      holding (owners t'.scheduler) t'.scheduler p + ↑freed

theorem follows_rent {t : Tenants} (h : Settled t) (bytes : Nat) : Follows t (t.rent bytes) := by
  unfold Tenants.rent
  split
  · rename_i heap ha
    obtain ⟨hs, freed, hf⟩ := settled_trade h t.others (b := []) (zero_add _).symm
      (zero_add _).symm (Audited.alloc_none ha 0).1
    exact ⟨hs, freed, hf, fun p => Multiset.le_add_right _ _⟩
  · rename_i a heap ha
    obtain ⟨hs, freed, hf⟩ := settled_trade h (a :: t.others) (b := [])
      (zero_add _).symm rfl (Audited.alloc_some ha)
    exact ⟨hs, freed, hf, fun p => Multiset.le_add_right _ _⟩

theorem follows_leave {t : Tenants} (h : Settled t) (i : Nat) : Follows t (t.leave i) := by
  unfold Tenants.leave
  split
  · exact ⟨h, [], by simp, fun p => Multiset.le_add_right _ _⟩
  · rename_i a ha
    have hmem := List.mem_of_getElem? ha
    obtain ⟨hs, freed, hf⟩ := settled_trade h (t.others.erase a) (b := [a])
      (Multiset.coe_eq_coe.mpr (List.perm_cons_erase hmem)) (zero_add _).symm
      (Audited.trades_free a _)
    exact ⟨hs, freed, hf, fun p => Multiset.le_add_right _ _⟩

theorem follows_use {t : Tenants} (h : Settled t) {u : Use} (hok : grantsNodes t u) :
    Follows t (use t u) := by
  cases u with
  | call op =>
    have hb := balances_exec h.shape hok.1 hok.2
    obtain ⟨howned, hstray⟩ := hb.books.held _ h.owned
    exact ⟨⟨hb.shape, howned, hstray.trans h.frees⟩, hb.books.gone⟩
  | mm_alloc bytes => exact follows_rent h bytes
  | mm_free i => exact follows_leave h i

theorem Follows.refl {t : Tenants} (h : Settled t) : Follows t t :=
  ⟨h, [], by simp, fun p => Multiset.le_add_right _ _⟩

theorem Follows.trans {t t' t'' : Tenants} (h : Follows t t') (h' : Follows t' t'') :
    Follows t t'' := by
  obtain ⟨freed, hf, hb⟩ := h.gone
  obtain ⟨more, hm, hc⟩ := h'.gone
  exact ⟨h'.settled, freed ++ more, by rw [hm, hf, List.append_assoc],
    fun p => le_add_append (hb p) (hc p)⟩

theorem follows_run {t : Tenants} (h : Settled t) {uses : List Use}
    (hok : Meets use grantsNodes t uses) : Follows t (run use t uses) := by
  induction uses generalizing t with
  | nil => exact .refl h
  | cons u uses ih =>
    have hu := follows_use h hok.1
    exact hu.trans (ih hu.settled hok.2)

/-! ## The owners -/

theorem Settled.eachOwned {t : Tenants} (h : Settled t) : EachOwned t := by
  have htidy : ShowsAccount t.scheduler.heap.manager t.account := t.scheduler.heap.tidy h.frees
  have hnodup := htidy.nodup
  have hat : ∀ g ∈ t.account.live, t.blocksAt g.1 = blocksFor g.2 := by
    intro g hg
    unfold Tenants.blocksAt
    cases hf : t.account.live.find? fun x => x.1 = g.1 with
    | none => exact absurd (decide_eq_true rfl) (List.find?_eq_none.mp hf g hg)
    | some x =>
      have hx : x.1 = g.1 := by simpa using List.find?_some hf
      rw [List.inj_on_of_nodup_map hnodup (List.mem_of_find?_eq_some hf) hg hx]
      rfl
  have hcounted : t.scheduler.heap.manager.usedBlocksCount =
      (t.account.held.map t.blocksAt).sum := by
    rw [htidy.counted]
    unfold Account.held
    rw [Multiset.map_coe, Multiset.sum_coe, List.map_map]
    exact congrArg List.sum (List.map_congr_left fun g hg => (hat g hg).symm)
  refine ⟨h.owned, ?_, h.frees, ?_⟩
  · rw [← h.owned]
    exact Multiset.coe_nodup.mpr hnodup
  · rw [hcounted, h.owned, Multiset.map_add, Multiset.sum_add, Multiset.map_coe, Multiset.sum_coe]

/-- With no process yet, the lists own their headers. -/
theorem shape_emptyScheduler (heap : Audited Manager) {l r b : DoubleLinkedList Pcb}
    (hl : l.data = []) (hr : r.data = []) (hb : b.data = []) :
    Shape (emptyScheduler heap l r b) := by
  have hprocs : (emptyScheduler heap l r b).procs = [] := hl
  have hready : (emptyScheduler heap l r b).ready = [] := hr
  have hblocked : (emptyScheduler heap l r b).blocked = [] := hb
  refine ⟨?_, ?_, ?_, ?_, ?_, ?_, ?_, ?_, ?_, fun p hp => (by cases hp), fun _ _ => rfl⟩
  all_goals simp [hprocs, hready, hblocked]

theorem settled_booted {t : Tenants} (h : BootedTenants t) : Settled t := by
  obtain ⟨r, m, hm, hr, rip, a, ha, hs, hidle, hothers⟩ := h
  have hheld : (freshHeap hm hr).account.held = 0 := rfl
  have hstray : (freshHeap hm hr).account.stray = 0 := rfl
  unfold createScheduler at hs
  generalize freshHeap hm hr = fresh at ha hs hheld hstray
  split at hs
  · cases hs
  rename_i a' h₁ ha'
  rw [ha'] at ha
  cases ha
  split at hs
  · cases hs
  rename_i l h₂ hl
  split at hs
  · cases hs
  rename_i q h₃ hq
  split at hs
  · cases hs
  rename_i b h₄ hb
  have ht := (((Audited.alloc_some ha').earn (createDoubleLinkedListADT_some hl)).earn
    (createDoubleLinkedListADT_some hq)).earn (createDoubleLinkedListADT_some hb)
  have hshape := shape_emptyScheduler h₄ (createDoubleLinkedListADT_data hl)
    (createDoubleLinkedListADT_data hq) (createDoubleLinkedListADT_data hb)
  have hempty : owners (emptyScheduler h₄ l q b) = [] :=
    (List.append_nil _).trans (createDoubleLinkedListADT_data hl)
  obtain ⟨hheld₄, hstray₄⟩ := ht.held 0 hheld
  have howned : h₄.account.held =
      ownedBy (owners (emptyScheduler h₄ l q b)) (emptyScheduler h₄ l q b) + ↑[a] := by
    rw [hheld₄, hempty]
    show {a} + l.blocks + q.blocks + b.blocks + 0 = l.blocks + q.blocks + b.blocks + 0 + {a}
    rw [add_zero, add_zero, add_assoc, add_assoc, add_comm, ← add_assoc]
  have hs' := Option.some.inj hs
  obtain ⟨idle, hfind⟩ := Option.isSome_iff_exists.mp hidle
  have hp := (findProcess_some hfind).1
  rw [← hs'] at hp
  have hnew : idle = (emptyScheduler h₄ l q b).pcbQty := by
    apply (procs_createProcess hp).resolve_left
    intro he
    have he' : idle ∈ l.data := he
    rw [createDoubleLinkedListADT_data hl] at he'
    cases he'
  have hbalances := balances_createProcess hshape rip _ 1 MIN_PRIORITY (some idleDescriptors) 1
    (Or.inr (hnew ▸ hp))
  obtain ⟨hheld', hstray'⟩ := hbalances.books.held _ howned
  rw [hs'] at hbalances hheld' hstray'
  exact ⟨hbalances.shape, hothers ▸ hheld', hstray'.trans (hstray₄.trans hstray)⟩

theorem Follows.givesBack {t t' : Tenants} (h : Follows t t') : GivesBack t t' := by
  refine ⟨fun p hp hgone hcurrent => ?_⟩
  obtain ⟨freed, hf, hb⟩ := h.gone
  have hfreed : t.freedSince t' = freed := by rw [Tenants.freedSince, hf, List.drop_left]
  have hin : p ∈ owners t.scheduler := List.mem_append_left _ hp
  have hnot : p ∉ owners t'.scheduler := by
    intro hm
    rcases List.mem_append.mp hm with hm | hm
    · exact hgone hm
    · exact hcurrent (Option.mem_toList.mp (List.mem_filter.mp hm).1)
  have hp' := hb p
  rw [holding, if_pos hin, holding, if_neg hnot, zero_add] at hp'
  rw [hfreed]
  exact hp'

/-- In every run with the list nodes granted: each block has one owner, and a killed process
that was switched away from has given all its blocks back. -/
theorem every_block_has_one_owner {t : Tenants} (hboot : BootedTenants t) {uses : List Use}
    (hok : Meets use grantsNodes t uses) :
    EachOwned (run use t uses) ∧
      ∀ before after, uses = before ++ after → GivesBack (run use t before) (run use t uses) := by
  have h := settled_booted hboot
  refine ⟨(follows_run h hok).settled.eachOwned, ?_⟩
  rintro before after rfl
  rw [meets_append] at hok
  rw [run_append]
  exact (follows_run (follows_run h hok.1).settled hok.2).givesBack

/-! ## A run -/

def smallRegion : Region := ⟨4096, 14982, by decide⟩

def smallManager : Manager := ⟨fun _ => .FREE, 4358, 230, 0⟩

theorem mm_create_small : mm_create smallRegion = some smallManager := rfl

def smallHeap : Audited Manager := freshHeap mm_create_small (by decide)

def smallScheduler : Scheduler (Audited Manager) :=
  (createScheduler 1 smallHeap).get (by decide +kernel)

/-- The kernel on a heap of 230 blocks. -/
def smallTenants : Tenants := ⟨smallScheduler, [4358]⟩

theorem booted_smallTenants : BootedTenants smallTenants := by
  have hblock : (MemoryManager.mm_alloc SCHEDULER_SIZE smallHeap).1 = some 4358 := by
    decide +kernel
  have hboot : createScheduler 1 smallHeap = some smallScheduler := (Option.some_get _).symm
  have hidle : (findProcess smallScheduler IDLE_PID).isSome := by decide +kernel
  exact ⟨smallRegion, smallManager, mm_create_small, by decide, 1, 4358, hblock, hboot, hidle, rfl⟩

/-- Two processes start, and the first waits for the second. -/
def waited : List Use :=
  [.call (.createProcess 2 none 0 1 none 0), .call (.yield 3), .call (.yield 4), .mm_alloc 100,
    .call (.createProcess 5 none 0 1 none 1), .call (.waitProcess 2 6)]

/-- The second is killed. The first runs again, kills itself, and is switched away from. -/
def killedInTurn : List Use :=
  [.call (.killProcess 2), .mm_free 0, .call (.schedule 7), .call (.killProcess 1),
    .call (.schedule 8)]

/-- Two processes lived and were killed, and all that they owned came back. -/
theorem two_killed_processes_give_back :
    (∀ p ∈ [1, 2], p ∈ (run use smallTenants waited).scheduler.procs ∧
      p ∉ (run use smallTenants (waited ++ killedInTurn)).scheduler.procs) ∧
    EachOwned (run use smallTenants (waited ++ killedInTurn)) ∧
      GivesBack (run use smallTenants waited) (run use smallTenants (waited ++ killedInTurn)) := by
  obtain ⟨hok, hlived⟩ : Meets use grantsNodes smallTenants (waited ++ killedInTurn) ∧
      ∀ p ∈ [1, 2], p ∈ (run use smallTenants waited).scheduler.procs ∧
        p ∉ (run use smallTenants (waited ++ killedInTurn)).scheduler.procs := by decide +kernel
  obtain ⟨howned, hback⟩ := every_block_has_one_owner booted_smallTenants hok
  exact ⟨hlived, howned, hback waited killedInTurn rfl⟩

end bare_bones.heap_owners
