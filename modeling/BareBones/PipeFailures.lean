-- What a `createPipe` that fails leaves behind. It takes the slot and the three ids
-- before it asks for the semaphores, and gives nothing back.
import BareBones.HeapExhaustion
import BareBones.PipeReuse

namespace bare_bones.pipe_manager

open bare_bones.doubleLinkedList bare_bones.scheduler bare_bones.semaphore runs

variable {H : Type} [MemoryManager H]

/-- A new semaphore is one that is not in use, with the header of its queue. -/
theorem sem_create_served (s : System H) (id : Int) (v : Nat) :
    (isValidSemId id = 0 ∧ (s.sem id).active = false ∧ (sem_create s.kernel id v).1 = 0 ∧
        ∃ a, mm_alloc LIST_SIZE s.scheduler.heap =
          (some a, (step s (.sem_create id v)).scheduler.heap)) ∨
      (¬ (isValidSemId id = 0 ∧ (s.sem id).active = false ∧
        (mm_alloc LIST_SIZE s.scheduler.heap).1.isSome) ∧ (sem_create s.kernel id v).1 = -1) := by
  rcases valid_cases id with hv | hv
  · right
    rw [sem_create, if_pos hv, hv]
    simp
  have hne : ¬ isValidSemId id = -1 := by
    rw [hv]
    decide
  by_cases ha : (s.kernel.semaphores id).active = true
  · right
    have ha' : (s.sem id).active = true := ha
    simp [sem_create, hne, ha, ha']
  · have ha' : (s.sem id).active = false := Bool.eq_false_iff.mpr ha
    rcases hheap : mm_alloc LIST_SIZE s.kernel.scheduler.heap with ⟨_ | a, heap⟩
    · right
      have hheap' : mm_alloc LIST_SIZE s.scheduler.heap = (none, heap) := hheap
      simp [sem_create, hne, ha, createDoubleLinkedListADT, hheap, hheap']
    · left
      have hc : sem_create s.kernel id v =
          (0, (s.kernel.setHeap heap).setSem id ⟨some ⟨a, []⟩, v, 0, true⟩) := by
        simp [sem_create, hne, ha, createDoubleLinkedListADT, hheap]
      have hafter : (step s (.sem_create id v)).scheduler.heap = heap := by
        change (sem_create s.kernel id v).2.scheduler.heap = heap
        rw [hc]
        rfl
      exact ⟨hv, ha', by rw [hc], a, by rw [hafter]; exact hheap⟩

/-- The three ids are those of semaphores that are not in use, and the heap serves the
headers of their queues. -/
def semsLeft (s : System H) (next_sem_id : Int) : Prop :=
  (∀ g, isValidSemId ((newPipe next_sem_id).sem g) = 0 ∧
    (s.sem ((newPipe next_sem_id).sem g)).active = false) ∧
  (serve [LIST_SIZE, LIST_SIZE, LIST_SIZE] s.scheduler.heap).isSome

theorem isSome_of_serve {n : Nat} {ns : List Nat} {heap : H}
    (h : (serve (n :: ns) heap).isSome) : (mm_alloc n heap).1.isSome := by
  rcases hx : mm_alloc n heap with ⟨_ | a, heap'⟩
  · simp [serve, hx] at h
  · rfl

theorem createSems_served (s : System H) (n : Int) :
    (createSems s (newPipe n)).1 = true ↔ semsLeft s n := by
  have h12 := newPipe_sem_ne n (g := .writers) (h := (by decide : _ ≠ Gate.readers))
  have h13 := newPipe_sem_ne n (g := .mutex) (h := (by decide : _ ≠ Gate.readers))
  have h23 := newPipe_sem_ne n (g := .mutex) (h := (by decide : _ ≠ Gate.writers))
  simp only [Pipe.sem] at h12 h13 h23
  unfold createSems semsLeft
  dsimp only
  rcases sem_create_served s (newPipe n).semReaders 0 with
    ⟨hv₁, ha₁, hr₁, a₁, hh₁⟩ | ⟨hno, hr₁⟩
  · rw [hr₁, if_neg (by decide), serve, hh₁]
    have hw := sem_create_other s 0 h12
    have hm := sem_create_other s 0 h13
    generalize step s (.sem_create (newPipe n).semReaders 0) = s₁ at hw hm hh₁
    rcases sem_create_served s₁ (newPipe n).semWriters PIPE_BUFFER_SIZE with
      ⟨hv₂, ha₂, hr₂, a₂, hh₂⟩ | ⟨hno, hr₂⟩
    · rw [hr₂, if_neg (by decide)]
      have hm' := sem_create_other s₁ PIPE_BUFFER_SIZE h23
      generalize step s₁ (.sem_create (newPipe n).semWriters PIPE_BUFFER_SIZE) = s₂ at hm' hh₂
      dsimp only
      rw [serve, hh₂]
      rcases sem_create_served s₂ (newPipe n).mutex 1 with ⟨hv₃, ha₃, hr₃, a₃, hh₃⟩ | ⟨hno, hr₃⟩
      · refine iff_of_true (by simp [hr₃]) ⟨fun g => ?_, by simp [serve, hh₃]⟩
        cases g with
        | readers => exact ⟨hv₁, ha₁⟩
        | writers => exact ⟨hv₂, hw ▸ ha₂⟩
        | mutex => exact ⟨hv₃, hm ▸ hm' ▸ ha₃⟩
      · refine iff_of_false (by simp [hr₃]) fun h => hno ?_
        obtain ⟨hv, ha⟩ := h.1 .mutex
        exact ⟨hv, by rw [hm', hm]; exact ha, isSome_of_serve h.2⟩
    · rw [hr₂, if_pos (by decide)]
      refine iff_of_false Bool.false_ne_true fun h => hno ?_
      obtain ⟨hv, ha⟩ := h.1 .writers
      exact ⟨hv, by rw [hw]; exact ha, isSome_of_serve h.2⟩
  · rw [hr₁, if_pos (by decide)]
    refine iff_of_false Bool.false_ne_true fun h => hno ?_
    obtain ⟨hv, ha⟩ := h.1 .readers
    exact ⟨hv, ha, isSome_of_serve h.2⟩

/-- A `createPipe` that gives -1 changed no slot, no semaphore and not the counter of
the ids. -/
def failsAtomically (m : PipeSystem H) : Prop :=
  (createPipe m.system m.manager).1 = -1 →
    (createPipe m.system m.manager).2.2 = m.manager ∧
      ∀ id, (createPipe m.system m.manager).2.1.sem id = m.system.sem id

/-- `createPipe` fails atomically when it has no slot to take, or when it does not
fail. -/
theorem createPipe_atomic_iff (m : PipeSystem H) :
    failsAtomically m ↔
      freeSlot m.manager = none ∨ semsLeft m.system m.manager.next_sem_id := by
  unfold failsAtomically
  cases hi : freeSlot m.manager with
  | none =>
    have hcreate : createPipe m.system m.manager = (-1, m.system, m.manager) := by
      unfold createPipe
      rw [show (List.range MAX_PIPES).find? (fun i => ¬ (m.manager.pipes i).isOpen) = none from hi]
    rw [hcreate]
    exact iff_of_true (fun _ => ⟨rfl, fun _ => rfl⟩) (Or.inl rfl)
  | some i =>
    have hmanager := createPipe_manager m.system m.manager hi
    have hresult : (createPipe m.system m.manager).1 =
        if (createSems m.system (newPipe m.manager.next_sem_id)).1 then (i : Int) + 3 else -1 := by
      unfold createPipe
      rw [show (List.range MAX_PIPES).find? (fun i => ¬ (m.manager.pipes i).isOpen) = some i
        from hi]
      dsimp only
      rw [← newPipe]
      rcases createSems m.system (newPipe m.manager.next_sem_id) with ⟨_ | _, s⟩ <;> rfl
    have hopened : m.manager.opened i ≠ m.manager := by
      intro he
      have hnext : m.manager.next_sem_id + 3 = m.manager.next_sem_id :=
        congrArg PipeManager.next_sem_id he
      omega
    rw [hmanager, hresult, ← createSems_served]
    by_cases hok : (createSems m.system (newPipe m.manager.next_sem_id)).1 = true
    · rw [if_pos hok]
      exact iff_of_true (fun h => by omega) (Or.inr hok)
    · rw [if_neg hok]
      refine iff_of_false (fun h => hopened (h rfl).1) ?_
      rintro (h | h)
      · cases h
      · exact hok h

/-- The tenth `createPipe` gives -1 with a slot marked open: its ids are 127 to 129. -/
theorem the_tenth_createPipe_leaks :
    ¬ failsAtomically (run act endlessPipes ninePipes) := by
  intro h
  have hfails : (createPipe (run act endlessPipes ninePipes).system
      (run act endlessPipes ninePipes).manager).1 = -1 := by decide +kernel
  have hnext := congrArg PipeManager.next_sem_id (h hfails).1
  have hmoved : (createPipe (run act endlessPipes ninePipes).system
      (run act endlessPipes ninePipes).manager).2.2.next_sem_id ≠
      (run act endlessPipes ninePipes).manager.next_sem_id := by decide +kernel
  exact hmoved hnext

end bare_bones.pipe_manager
