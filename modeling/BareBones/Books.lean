-- The books of the scheduler: which blocks its three lists and its processes
-- own, and what a change of its state does to them. A process owns its blocks
-- from `createProcess` on until `freeProcess`.
import BareBones.Audited
import BareBones.Scheduler
import Mathlib.Algebra.BigOperators.Group.List.Basic

namespace bare_bones.scheduler

open accounts bare_bones.doubleLinkedList bare_bones.process

variable {H : Type}

/-- What the three lists own. -/
def lists (s : Scheduler H) : Multiset Addr :=
  s.processList.blocks + s.readyProcess.blocks + s.blockedProcess.blocks

/-- What the three lists and the processes `o` own. -/
def ownedBy (o : List Pcb) (s : Scheduler H) : Multiset Addr :=
  lists s + (o.map (fun p => (s.pcb p).blocks)).sum

/-- What `p` owns, if it is one of `o`. -/
def holding (o : List Pcb) (s : Scheduler H) (p : Pcb) : Multiset Addr :=
  if p ∈ o then (s.pcb p).blocks else 0

variable [Accountable H]

/-- On the way from `s` to `s'` the owners `o` become `o'`. The blocks of others
stay, every block that is freed was allocated, and what a process does not own
any more was freed. -/
structure Books (o : List Pcb) (s : Scheduler (Audited H)) (o' : List Pcb)
    (s' : Scheduler (Audited H)) : Prop where
  held : ∀ rest, s.heap.account.held = ownedBy o s + rest →
    s'.heap.account.held = ownedBy o' s' + rest ∧ s'.heap.account.stray = s.heap.account.stray
  gone : ∃ freed, s'.heap.account.freed = s.heap.account.freed ++ freed ∧
    ∀ p, holding o s p ≤ holding o' s' p + ↑freed

namespace Books

variable {o o' o'' : List Pcb} {s s' s'' : Scheduler (Audited H)}

theorem refl (o : List Pcb) (s : Scheduler (Audited H)) : Books o s o s :=
  ⟨fun _ h => ⟨h, rfl⟩, ⟨[], by simp, by simp⟩⟩

theorem trans (h : Books o s o' s') (h' : Books o' s' o'' s'') : Books o s o'' s'' := by
  refine ⟨fun rest hx => ?_, ?_⟩
  · obtain ⟨hy, hs⟩ := h.held rest hx
    obtain ⟨hz, hs'⟩ := h'.held rest hy
    exact ⟨hz, hs'.trans hs⟩
  · obtain ⟨freed, hf, hb⟩ := h.gone
    obtain ⟨more, hm, hc⟩ := h'.gone
    exact ⟨freed ++ more, by rw [hm, hf, List.append_assoc], fun p => le_add_append (hb p) (hc p)⟩

/-- The order of the owners does not matter. -/
theorem perm (h : o.Perm o') : Books o s o' s := by
  have howned : ownedBy o' s = ownedBy o s := by
    unfold ownedBy
    rw [(h.map fun p => (s.pcb p).blocks).sum_eq]
  have hholding : ∀ p, holding o' s p = holding o s p := fun p => by
    unfold holding
    simp only [h.mem_iff]
  refine ⟨fun rest hx => ⟨howned ▸ hx, rfl⟩, ⟨[], by simp, fun p => ?_⟩⟩
  rw [hholding]
  exact Multiset.le_add_right _ _

theorem sum_congr (h : ∀ p ∈ o, (s'.pcb p).blocks = (s.pcb p).blocks) :
    (o.map fun p => (s'.pcb p).blocks).sum = (o.map fun p => (s.pcb p).blocks).sum := by
  rw [List.map_congr_left h]

/-- A process that keeps its blocks loses none to what was freed. -/
theorem holding_kept {p : Pcb} (hp : p ∈ o) (hp' : p ∈ o')
    (hpcb : (s'.pcb p).blocks = (s.pcb p).blocks) (freed : Multiset Addr) :
    holding o s p ≤ holding o' s' p + freed := by
  rw [holding, holding, if_pos hp, if_pos hp', hpcb]
  exact Multiset.le_add_right _ _

theorem holding_of_not_mem {p : Pcb} (hp : p ∉ o) (x : Multiset Addr) : holding o s p ≤ x := by
  rw [holding, if_neg hp]
  exact Multiset.zero_le _

/-- Only the lists trade. -/
theorem of_lists (ht : Audited.Trades s.heap s'.heap (lists s) (lists s'))
    (hpcb : ∀ p ∈ o, (s'.pcb p).blocks = (s.pcb p).blocks) : Books o s o s' := by
  refine ⟨fun rest hx => ?_, ?_⟩
  · unfold ownedBy at hx ⊢
    rw [sum_congr hpcb, add_assoc]
    exact ht.held _ (by rw [hx, add_assoc])
  · obtain ⟨freed, hf, -⟩ := ht.gone
    refine ⟨freed, hf, fun p => ?_⟩
    by_cases hp : p ∈ o
    · exact holding_kept hp hp (hpcb p hp) _
    · exact holding_of_not_mem hp _

/-- Nothing that is owned changes. -/
theorem of_same (hheap : s'.heap = s.heap) (hlists : lists s' = lists s)
    (hpcb : ∀ p ∈ o, (s'.pcb p).blocks = (s.pcb p).blocks) : Books o s o s' :=
  .of_lists (by rw [hheap, hlists]; exact .refl _ _) hpcb

/-- Only one process trades. -/
theorem of_pcb {q : Pcb}
    (ht : Audited.Trades s.heap s'.heap (s.pcb q).blocks (s'.pcb q).blocks)
    (hlists : lists s' = lists s) (hpcb : ∀ p ∈ o, (s'.pcb p).blocks = (s.pcb p).blocks) :
    Books (q :: o) s (q :: o) s' := by
  refine ⟨fun rest hx => ?_, ?_⟩
  · unfold ownedBy at hx ⊢
    rw [List.map_cons, List.sum_cons] at hx ⊢
    rw [sum_congr hpcb, hlists, add_left_comm, add_assoc]
    exact ht.held _ (by rw [hx, add_left_comm, add_assoc])
  · obtain ⟨freed, hf, hb⟩ := ht.gone
    refine ⟨freed, hf, fun p => ?_⟩
    by_cases hp : p ∈ o
    · exact holding_kept (List.mem_cons_of_mem _ hp) (List.mem_cons_of_mem _ hp) (hpcb p hp) _
    · by_cases hpq : p = q
      · subst hpq
        rw [holding, holding, if_pos List.mem_cons_self, if_pos List.mem_cons_self]
        exact hb
      · exact holding_of_not_mem (by simp [hp, hpq]) _

/-- A process gets its first blocks. -/
theorem of_new {q : Pcb} (ht : Audited.Trades s.heap s'.heap 0 (s'.pcb q).blocks)
    (hlists : lists s' = lists s) (hpcb : ∀ p ∈ o, (s'.pcb p).blocks = (s.pcb p).blocks) :
    Books o s (q :: o) s' := by
  refine ⟨fun rest hx => ?_, ?_⟩
  · unfold ownedBy at hx ⊢
    rw [List.map_cons, List.sum_cons, sum_congr hpcb, hlists, add_left_comm, add_assoc]
    exact ht.held _ (by rw [hx, zero_add])
  · obtain ⟨freed, hf, -⟩ := ht.gone
    refine ⟨freed, hf, fun p => ?_⟩
    by_cases hp : p ∈ o
    · exact holding_kept hp (List.mem_cons_of_mem _ hp) (hpcb p hp) _
    · exact holding_of_not_mem hp _

/-- A process gives up all its blocks. -/
theorem of_freed {q : Pcb}
    (ht : Audited.Trades s.heap s'.heap (s.pcb q).blocks 0)
    (hlists : lists s' = lists s) (hpcb : ∀ p ∈ o, (s'.pcb p).blocks = (s.pcb p).blocks) :
    Books (q :: o) s o s' := by
  refine ⟨fun rest hx => ?_, ?_⟩
  · unfold ownedBy at hx ⊢
    rw [List.map_cons, List.sum_cons, add_left_comm, add_assoc] at hx
    rw [sum_congr hpcb, hlists]
    have := ht.held _ hx
    rwa [zero_add] at this
  · obtain ⟨freed, hf, hb⟩ := ht.gone
    refine ⟨freed, hf, fun p => ?_⟩
    by_cases hp : p ∈ o
    · exact holding_kept (List.mem_cons_of_mem _ hp) hp (hpcb p hp) _
    · by_cases hpq : p = q
      · subst hpq
        rw [holding, holding, if_pos List.mem_cons_self, if_neg hp]
        exact hb
      · exact holding_of_not_mem (by simp [hp, hpq]) _

end Books

end bare_bones.scheduler
