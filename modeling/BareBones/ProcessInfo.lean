-- `ps` of `scheduler.c`: an array with an entry for each process of the list, and a
-- copy of each name. The array is sized by the count and filled by the list.
import BareBones.ProcessCount
import BareBones.ReachedHeap

namespace bare_bones.scheduler

open bare_bones.doubleLinkedList bare_bones.process runs

/-- `ProcessInfo`, with the copy of the name as in a PCB. -/
structure ProcessInfo where
  name : Option Name
  priority : Nat
  ground : Nat
  status : ProcessState
  pid : Int
  stackBase : Addr
  stackPos : Addr
deriving DecidableEq

/-- `sizeof(ProcessInfo)`. -/
def INFO_SIZE : Nat := 32

/-- `ProcessInfo *array`: its block, and what a read of each entry gives. -/
structure InfoArray where
  block : Addr
  entries : Nat → ProcessInfo

def InfoArray.set (array : InfoArray) (i : Nat) (info : ProcessInfo) : InfoArray :=
  { array with entries := Function.update array.entries i info }

/-- The names of the first `n` entries, each with the size of its block. -/
def InfoArray.names (array : InfoArray) (n : Nat) : List (Addr × Nat) :=
  (List.range n).filterMap fun j =>
    (array.entries j).name.map fun name => (name.block, name.chars.length + 1)

section Ps

variable {H : Type} [MemoryManager H]

/-- What the loop writes for `aux`, with a name that is the copy or `NULL`. -/
def infoOf (aux : ProcessContext) (name : Option Name) : ProcessInfo where
  name := name
  priority := aux.priority
  ground := aux.ground
  status := aux.status
  pid := aux.pid
  stackBase := aux.stackBase
  stackPos := aux.stackPos

/-- The loop of `ps` over the rest of the list, from entry `i` on. When a copy is
refused it frees the names before it, and the array. -/
def ps_loop (pcb : Pcb → ProcessContext) :
    List Pcb → Nat → InfoArray → H → Option InfoArray × H
  | [], _, array, h => (some array, h)
  | p :: rest, i, array, h =>
    let aux := pcb p
    match aux.name with
    | none => ps_loop pcb rest (i + 1) (array.set i (infoOf aux none)) h
    | some name =>
      match mm_alloc (name.chars.length + 1) h with
      | (none, h) => (none, mm_free array.block (freeAll ((array.names i).map Prod.fst) h))
      | (some copy, h) =>
        ps_loop pcb rest (i + 1) (array.set i (infoOf aux (some ⟨copy, name.chars⟩))) h

/-- The array or `NULL`, and what `*processQty` is set to. `was` is what the block of the
array holds before. -/
def ps (was : Nat → ProcessInfo) (s : Scheduler H) : Option InfoArray × Nat × Scheduler H :=
  match mm_alloc (INFO_SIZE * s.processQty) s.heap with
  | (none, heap) => (none, 0, { s with heap := heap })
  | (some block, heap) =>
    match ps_loop s.pcb s.procs 0 ⟨block, was⟩ heap with
    | (none, heap) => (none, 0, { s with heap := heap })
    | (some array, heap) => (some array, s.processQty, { s with heap := heap })

/-- The blocks that `ps` asks for: the array, and a copy of each name. -/
def psRequests (s : Scheduler H) : List Nat :=
  INFO_SIZE * s.processQty ::
    s.procs.filterMap fun p => (s.pcb p).name.map fun name => name.chars.length + 1

/-! ## The array -/

@[simp] theorem set_block (array : InfoArray) (i : Nat) (info : ProcessInfo) :
    (array.set i info).block = array.block := rfl

theorem set_entries_self (array : InfoArray) (i : Nat) (info : ProcessInfo) :
    (array.set i info).entries i = info := Function.update_self ..

theorem set_entries_ne (array : InfoArray) {i j : Nat} (info : ProcessInfo) (h : j ≠ i) :
    (array.set i info).entries j = array.entries j := Function.update_of_ne h ..

/-- One more entry, with its name behind the others. -/
theorem names_set (array : InfoArray) (i : Nat) (info : ProcessInfo) :
    (array.set i info).names (i + 1) =
      array.names i ++ (info.name.map fun name => (name.block, name.chars.length + 1)).toList := by
  have hbefore : ∀ j ∈ List.range i, (array.set i info).entries j = array.entries j :=
    fun j hj => set_entries_ne array info (Nat.ne_of_lt (List.mem_range.mp hj))
  unfold InfoArray.names
  rw [List.range_succ, List.filterMap_append]
  congr 1
  · exact List.filterMap_congr fun j hj => by rw [hbefore j hj]
  · cases hname : info.name <;> simp [set_entries_self, hname]

/-- The entry of a process: its fields, and a name of its own with the same characters. -/
structure Entered (aux : ProcessContext) (info : ProcessInfo) : Prop where
  fields : info = infoOf aux info.name
  name : info.name.map Name.chars = aux.name.map Name.chars

/-- The entries from `i` on are those of `rest`, and the ones before are as they were. -/
structure Fills (pcb : Pcb → ProcessContext) (rest : List Pcb) (i : Nat)
    (array array' : InfoArray) : Prop where
  before : ∀ j < i, array'.entries j = array.entries j
  entered : ∀ (j : Nat) (hj : j < rest.length), Entered (pcb rest[j]) (array'.entries (i + j))

theorem Fills.cons {pcb : Pcb → ProcessContext} {p : Pcb} {rest : List Pcb} {i : Nat}
    {array array' : InfoArray} {name : Option Name}
    (h : Fills pcb rest (i + 1) (array.set i (infoOf (pcb p) name)) array')
    (hname : name.map Name.chars = (pcb p).name.map Name.chars) :
    Fills pcb (p :: rest) i array array' := by
  have hi : array'.entries i = infoOf (pcb p) name :=
    (h.before i (Nat.lt_succ_self i)).trans (set_entries_self ..)
  refine ⟨fun j hj => ?_, fun j hj => ?_⟩
  · rw [h.before j (Nat.lt_succ_of_lt hj), set_entries_ne _ _ (Nat.ne_of_lt hj)]
  · cases j with
    | zero =>
      rw [Nat.add_zero, hi]
      exact ⟨rfl, hname⟩
    | succ j =>
      have hentered := h.entered j (Nat.lt_of_succ_lt_succ hj)
      rwa [Nat.add_assoc, Nat.add_comm 1] at hentered

end Ps

/-- The blocks of `ps` so far: the array, and the names of the first `i` entries. -/
structure Holding {H : Type} [MemoryManager H] (size : Nat) (h₀ : H) (array : InfoArray) (i : Nat)
    (blocks : List (Addr × Nat)) (h : H) : Prop where
  took : Took h₀ blocks h
  perm : blocks.Perm ((array.block, size) :: array.names i)

section Loop

variable {H : Type} [MemoryManager H] {pcb : Pcb → ProcessContext} {size : Nat} {h₀ : H}
  {array : InfoArray} {i : Nat} {blocks : List (Addr × Nat)} {h : H}

theorem Holding.skip (hh : Holding size h₀ array i blocks h) (aux : ProcessContext) :
    Holding size h₀ (array.set i (infoOf aux none)) (i + 1) blocks h := by
  refine ⟨hh.took, ?_⟩
  rw [names_set]
  simpa [infoOf] using hh.perm

theorem Holding.copy (hh : Holding size h₀ array i blocks h) (aux : ProcessContext)
    {name : Name} {copy : Addr} {h' : H}
    (ha : mm_alloc (name.chars.length + 1) h = (some copy, h')) :
    Holding size h₀ (array.set i (infoOf aux (some ⟨copy, name.chars⟩))) (i + 1)
      ((copy, name.chars.length + 1) :: blocks) h' := by
  refine ⟨hh.took.cons ha, ?_⟩
  rw [names_set]
  refine (hh.perm.cons _).trans ?_
  simp only [infoOf, Option.map_some, Option.toList_some]
  exact (List.perm_append_singleton _ ((array.block, size) :: array.names i)).symm

theorem ps_loop_some {rest : List Pcb} {array' : InfoArray} {h' : H}
    (hh : Holding size h₀ array i blocks h) (hl : ps_loop pcb rest i array h = (some array', h')) :
    (∃ blocks', Holding size h₀ array' (i + rest.length) blocks' h') ∧
      Fills pcb rest i array array' := by
  induction rest generalizing i array blocks h with
  | nil =>
    cases hl
    exact ⟨⟨blocks, hh⟩, fun _ _ => rfl, fun j hj => absurd hj (Nat.not_lt_zero j)⟩
  | cons p rest ih =>
    rw [List.length_cons, Nat.add_comm rest.length, ← Nat.add_assoc]
    unfold ps_loop at hl
    dsimp only at hl
    split at hl
    · rename_i hnone
      obtain ⟨hheld, hfills⟩ := ih (hh.skip (pcb p)) hl
      exact ⟨hheld, hfills.cons (by rw [hnone])⟩
    · rename_i name hname
      split at hl
      · cases hl
      · rename_i copy h₁ ha
        obtain ⟨hheld, hfills⟩ := ih (hh.copy (pcb p) ha) hl
        exact ⟨hheld, hfills.cons (by rw [hname]; rfl)⟩

/-- The loop comes through exactly when the heap serves every name. -/
theorem ps_loop_served (pcb : Pcb → ProcessContext) (rest : List Pcb) (i : Nat)
    (array : InfoArray) (h : H) : (ps_loop pcb rest i array h).1.isSome ↔
      (serve (rest.filterMap fun p => (pcb p).name.map fun name => name.chars.length + 1)
        h).isSome := by
  induction rest generalizing i array h with
  | nil => simp [ps_loop, serve]
  | cons p rest ih =>
    unfold ps_loop
    dsimp only
    cases hname : (pcb p).name with
    | none => simpa [hname] using ih _ _ h
    | some name =>
      rcases ha : mm_alloc (name.chars.length + 1) h with ⟨_ | copy, h₁⟩
      · simp [hname, serve, ha]
      · simpa [hname, serve, ha] using ih _ _ h₁

theorem ps_served (was : Nat → ProcessInfo) (s : Scheduler H) :
    (ps was s).1.isSome ↔ (serve (psRequests s) s.heap).isSome := by
  unfold ps psRequests
  rcases ha : mm_alloc (INFO_SIZE * s.processQty) s.heap with ⟨_ | block, h₁⟩
  · simp [serve, ha]
  · have hserved := ps_loop_served s.pcb s.procs 0 ⟨block, was⟩ h₁
    rcases hl : ps_loop s.pcb s.procs 0 ⟨block, was⟩ h₁ with ⟨_ | array, h₂⟩ <;>
      rw [hl] at hserved <;> simpa [serve, ha, hl] using hserved

end Loop

section Undo

variable {H : Type} [Reversible H] {pcb : Pcb → ProcessContext} {size : Nat} {h₀ : H}

/-- When a copy is refused, at whatever entry, everything that was taken comes back. -/
theorem ps_loop_none {rest : List Pcb} {i : Nat} {array : InfoArray} {blocks : List (Addr × Nat)}
    {h h' : H} (hh : Holding size h₀ array i blocks h)
    (hl : ps_loop pcb rest i array h = (none, h')) : h' = h₀ := by
  induction rest generalizing i array blocks h with
  | nil => cases hl
  | cons p rest ih =>
    unfold ps_loop at hl
    dsimp only at hl
    split at hl
    · exact ih (hh.skip (pcb p)) hl
    · rename_i name hname
      split at hl
      · rename_i h₁ ha
        obtain rfl := Reversible.alloc_none ha
        have hperm : ((array.names i).map Prod.fst ++ [array.block]).Perm (blocks.map Prod.fst) :=
          (List.perm_append_singleton _ _).trans (hh.perm.map Prod.fst).symm
        have hback := hh.took.freed hperm
        rw [freeAll, List.foldl_append] at hback
        exact (Prod.mk.inj hl).2.symm.trans hback
      · rename_i copy h₁ ha
        exact ih (hh.copy (pcb p) ha) hl

end Undo

/-! ## The snapshot -/

open bitmap_heap

/-- The blocks that were taken, as allocations of the bitmap. -/
def allocationsOf (blocks : List (Addr × Nat)) : List Allocation := blocks.map fun b => ⟨b.1, b.2⟩

/-- An entry for each process that is counted, in the order of the list; and no block is
taken but the array and its names. -/
structure Snapshot (s s' : Scheduler Reached) (array : InfoArray) (qty : Nat) : Prop where
  count : qty = s.processQty
  entries : ∀ i < qty, ∃ p, s.procs[i]? = some p ∧ Entered (s.pcb p) (array.entries i)
  table : ∃ heap, s' = { s with heap := heap }
  blocks : ∀ live, Shows ⟨s.heap.manager, live⟩ → ∃ live', Shows ⟨s'.heap.manager, live'⟩ ∧
    live'.Perm (allocationsOf ((array.block, INFO_SIZE * qty) :: array.names qty) ++ live)

/-- `ps` gives a snapshot, or it gives `NULL` and nothing is changed. -/
structure Faithful (was : Nat → ProcessInfo) (s : Scheduler Reached) : Prop where
  given : ∀ array qty s', ps was s = (some array, qty, s') → Snapshot s s' array qty
  null : ∀ qty s', ps was s = (none, qty, s') → qty = 0 ∧ s' = s

/-- Over any manager that can go back: with `NULL` nothing is left behind. -/
theorem ps_null {H : Type} [Reversible H] {was : Nat → ProcessInfo} {s s' : Scheduler H} {qty : Nat}
    (hps : ps was s = (none, qty, s')) : qty = 0 ∧ s' = s := by
  unfold ps at hps
  split at hps
  · rename_i ha
    cases hps
    rw [Reversible.alloc_none ha]
    exact ⟨rfl, rfl⟩
  · rename_i block h₁ ha
    split at hps
    · rename_i h₂ hl
      cases hps
      have hh : Holding (INFO_SIZE * s.processQty) s.heap ⟨block, was⟩ 0
          [(block, INFO_SIZE * s.processQty)] h₁ := ⟨.cons .nil ha, .refl _⟩
      rw [ps_loop_none hh hl]
      exact ⟨rfl, rfl⟩
    · cases hps

theorem ps_some {H : Type} [MemoryManager H] {was : Nat → ProcessInfo} {s s' : Scheduler H}
    {array : InfoArray} {qty : Nat} (hps : ps was s = (some array, qty, s')) :
    qty = s.processQty ∧ (∃ heap, s' = { s with heap := heap }) ∧
      (∃ blocks, Holding (INFO_SIZE * s.processQty) s.heap array s.procs.length blocks s'.heap) ∧
      ∀ (i : Nat) (hi : i < s.procs.length), Entered (s.pcb s.procs[i]) (array.entries i) := by
  unfold ps at hps
  split at hps
  · cases hps
  · rename_i block h₁ ha
    split at hps
    · cases hps
    · rename_i array' h₂ hl
      cases hps
      have hh : Holding (INFO_SIZE * s.processQty) s.heap ⟨block, was⟩ 0
          [(block, INFO_SIZE * s.processQty)] h₁ := ⟨.cons .nil ha, .refl _⟩
      obtain ⟨hheld, hfills⟩ := ps_loop_some hh hl
      rw [Nat.zero_add] at hheld
      refine ⟨rfl, ⟨h₂, rfl⟩, hheld, fun i hi => ?_⟩
      have hentered := hfills.entered i hi
      rwa [Nat.zero_add] at hentered

/-- With as many processes in the list as are counted, the array is a snapshot. -/
theorem snapshot_of_some {was : Nat → ProcessInfo} {s s' : Scheduler Reached} {array : InfoArray}
    {qty : Nat} (hcount : s.processQty = s.procs.length)
    (hps : ps was s = (some array, qty, s')) : Snapshot s s' array qty := by
  obtain ⟨rfl, htable, ⟨blocks, hheld⟩, hentered⟩ := ps_some hps
  refine ⟨rfl, fun i hi => ?_, htable, fun live hlive => ?_⟩
  · have hi' : i < s.procs.length := hcount ▸ hi
    exact ⟨s.procs[i], List.getElem?_eq_getElem hi', hentered i hi'⟩
  · refine ⟨_, shows_took hheld.took hlive, List.Perm.append_right live ?_⟩
    rw [hcount] at hheld ⊢
    exact hheld.perm.map _

/-- Exactly: the list has a process for each that is counted, or the heap refuses a block. -/
theorem faithful_iff {s : Scheduler Reached} {d : Nat} (hd : Missing d s)
    (was : Nat → ProcessInfo) : Faithful was s ↔
      s.processQty = s.procs.length ∨ (serve (psRequests s) s.heap).isSome = false := by
  constructor
  · intro h
    rw [or_iff_not_imp_right, Bool.not_eq_false]
    intro hserved
    obtain ⟨array, harray⟩ := Option.isSome_iff_exists.mp ((ps_served was s).mpr hserved)
    have hsnapshot := h.given array _ _ (Prod.ext harray rfl)
    have hqty := hsnapshot.count
    have hcount := hd.count
    refine Nat.le_antisymm (Nat.not_lt.mp fun hlt => ?_) (by omega)
    obtain ⟨p, hp, -⟩ := hsnapshot.entries s.procs.length (by omega)
    simp at hp
  · intro hcond
    refine ⟨fun array qty s' hps => ?_, fun qty s' hps => ps_null hps⟩
    rcases hcond with hcount | hrefused
    · exact snapshot_of_some hcount hps
    · have hserved := (ps_served was s).mp (by rw [hps]; rfl)
      rw [hrefused] at hserved
      cases hserved

/-- In the state after any run, exactly; and everywhere as long as the process list gets
its nodes. -/
structure PsIsFaithful (boot : Scheduler Reached) (events : List KernelEvent) : Prop where
  exactly : ∀ was, Faithful was (run onEvent boot events) ↔
    (run onEvent boot events).processQty = (run onEvent boot events).procs.length ∨
      (serve (psRequests (run onEvent boot events)) (run onEvent boot events).heap).isSome = false
  everywhere : Meets onEvent listsItsProcess boot events →
    ∀ was, Faithful was (run onEvent boot events)

theorem ps_is_faithful_while_everybody_is_listed {boot : Scheduler Reached} (h : Booted boot)
    (events : List KernelEvent) : PsIsFaithful boot events := by
  obtain ⟨d, hd⟩ := missing_run h events
  refine ⟨faithful_iff hd, fun hlists was => (faithful_iff hd was).mpr (.inl ?_)⟩
  exact (nobody_missing_run h hlists).count

/-- The kernel on a heap of 230 blocks. -/
def reachedOn230 : Scheduler Reached :=
  (createScheduler 1 (Reached.created heap_owners.mm_create_small
    (Nat.le_of_ble_eq_true rfl))).get (by decide +kernel)

theorem booted_reachedOn230 : Booted reachedOn230 :=
  ⟨1, .created heap_owners.mm_create_small (Nat.le_of_ble_eq_true rfl),
    (Option.some_get _).symm, by decide +kernel⟩

/-- Idle and the shell, with a block of a program beside them. -/
theorem ps_is_faithful_to_idle_and_the_shell :
    Faithful (fun _ => infoOf (.zeroed 0) none) (run onEvent reachedOn230 (shellThenTakes 15)) :=
  (ps_is_faithful_while_everybody_is_listed booted_reachedOn230 (shellThenTakes 15)).everywhere
    (by decide +kernel) _

/-- A program takes 15 blocks, so that a third process gets all but its node, and frees
them. There are three entries then for two processes. -/
def thirdIsMissing : List KernelEvent :=
  shellThenTakes 15 ++ [.call (.createProcess 6 none 0 1 none 0), .mm_free 13702]

theorem ps_counts_a_process_that_is_not_listed :
    ¬ ∀ (boot : Scheduler Reached), Booted boot → ∀ (events : List KernelEvent)
      (was : Nat → ProcessInfo), Faithful was (run onEvent boot events) := by
  intro hall
  obtain ⟨d, hd⟩ := missing_run booted_reachedOn230 thirdIsMissing
  have hfaithful := hall reachedOn230 booted_reachedOn230 thirdIsMissing
    fun _ => infoOf (.zeroed 0) none
  -- three are counted and two are listed, and the heap grants the list
  exact absurd ((faithful_iff hd _).mp hfaithful) (by decide +kernel)

end bare_bones.scheduler
