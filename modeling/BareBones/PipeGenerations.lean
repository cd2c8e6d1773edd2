-- Stale pipe ids. An id is the number of a slot, and the slot may hold another
-- pipe by the time that `closePipe` acts. The other slots are safe: no two
-- pipes share a semaphore.
import BareBones.PipeReuse

namespace bare_bones.pipe_manager

open bare_bones.doubleLinkedList bare_bones.process bare_bones.scheduler bare_bones.semaphore runs

variable {H : Type}

/-! ## No two pipes share a semaphore -/

/-- An id that two pipes have is the -1 of a closed pipe. -/
def Apart (m : PipeManager) : Prop :=
  ∀ x y, x ≠ y → ∀ g g', (m.pipes x).sem g = (m.pipes y).sem g' → (m.pipes x).sem g = -1

theorem Apart.setPipe {m : PipeManager} (h : Apart m) {x : Nat} {pipe : Pipe}
    (hp : ∀ g, pipe.sem g = (m.pipes x).sem g ∨ pipe.sem g = -1) : Apart (m.setPipe x pipe) := by
  intro y z hyz g g' he
  by_cases hy : y = x
  · subst hy
    have hz : (m.setPipe y pipe).pipes z = m.pipes z := by
      simp [PipeManager.setPipe, hyz.symm]
    have hself : (m.setPipe y pipe).pipes y = pipe := by simp [PipeManager.setPipe]
    rw [hz, hself] at he
    rw [hself]
    rcases hp g with hg | hg
    · rw [hg] at he ⊢
      exact h y z hyz g g' he
    · exact hg
  · have hself : (m.setPipe x pipe).pipes y = m.pipes y := by simp [PipeManager.setPipe, hy]
    rw [hself] at he ⊢
    by_cases hz : z = x
    · subst hz
      have hzz : (m.setPipe z pipe).pipes z = pipe := by simp [PipeManager.setPipe]
      rw [hzz] at he
      rcases hp g' with hg | hg
      · rw [hg] at he
        exact h y z hyz g g' he
      · rw [he, hg]
    · have hzz : (m.setPipe x pipe).pipes z = m.pipes z := by simp [PipeManager.setPipe, hz]
      rw [hzz] at he
      exact h y z hyz g g' he

theorem le_newPipe_sem (n : Int) (g : Gate) : n ≤ (newPipe n).sem g := by
  cases g <;> simp only [Pipe.sem, newPipe] <;> omega

theorem Apart.opened {m : PipeManager} (h : Apart m) (hb : Below m) (i : Nat) :
    Apart (m.opened i) := by
  have hself : (m.opened i).pipes i = newPipe m.next_sem_id := by
    simp [PipeManager.opened, PipeManager.setPipe]
  have hne : ∀ {y}, y ≠ i → (m.opened i).pipes y = m.pipes y := fun hy => by
    simp [PipeManager.opened, PipeManager.setPipe, hy]
  intro y z hyz g g' he
  by_cases hy : y = i
  · subst hy
    rw [hself, hne hyz.symm] at he
    have h1 := le_newPipe_sem m.next_sem_id g
    have h2 := hb.ids z g'
    omega
  · rw [hne hy] at he ⊢
    by_cases hz : z = i
    · subst hz
      rw [hself] at he
      have h1 := le_newPipe_sem m.next_sem_id g'
      have h2 := hb.ids y g
      omega
    · rw [hne hz] at he
      exact h y z hyz g g' he

theorem apart_moves {m m' : PipeSystem H} {a : Act} (h : Apart m.manager) (hb : Below m.manager)
    (hm : Moves m a m') : Apart m'.manager := by
  cases hm with
  | idles => exact h
  | stays s => exact h
  | opens s i hi => exact h.opened hb i
  | starts s p r t hp ht => exact h
  | asks s p pipe_id x generation exits hp hx => exact h
  | turns s p t generation rsp hp =>
    refine h.setPipe fun g => Or.inl ?_
    rw [move_sem]
  | closes s p x generation exits hcur hp hclosing => exact h.setPipe (closePipe_sem (m.pipe x))
  | exits s p job hjob => exact h

/-! ## The calls of a close -/

/-- The calls of a close are on the semaphores of its pipe. -/
theorem closePipe_names {pipe : Pipe} {c : Call} (hc : c ∈ (closePipe pipe).1) {id : Int}
    (hn : names id c) : ∃ g, pipe.sem g = id := by
  unfold closePipe at hc
  dsimp only at hc
  split at hc
  · rw [List.mem_singleton.mp hc] at hn
    exact ⟨.mutex, hn⟩
  · split at hc
    · rcases List.mem_append.mp hc with hc | hc
      · rw [List.eq_of_mem_replicate hc] at hn
        exact ⟨.readers, hn⟩
      · simp only [List.mem_cons, List.not_mem_nil, or_false] at hc
        rcases hc with rfl | rfl | rfl | rfl
        · exact ⟨.mutex, hn⟩
        · exact ⟨.readers, hn⟩
        · exact ⟨.writers, hn⟩
        · exact ⟨.mutex, hn⟩
    · rw [List.mem_singleton.mp hc] at hn
      exact ⟨.mutex, hn⟩

variable [MemoryManager H]

omit [MemoryManager H] in
theorem setSem_ne (k : Kernel H) {id j : Int} (sem : Semaphore) (h : id ≠ j) :
    (k.setSem j sem).semaphores id = k.semaphores id := Function.update_of_ne h _ _

theorem sem_destroy_other {k k' : Kernel H} {id j r : Int} (hk : sem_destroy k j = some (r, k'))
    (h : j = id → isValidSemId id = -1) : k'.semaphores id = k.semaphores id := by
  unfold sem_destroy at hk
  split at hk
  · cases hk
    rfl
  have hne : id ≠ j := fun he => by simp_all
  split at hk
  · cases hk
    rfl
  · split at hk
    · cases hk
    · cases hk
      exact setSem_ne _ _ hne

theorem sem_wait_other {k k' : Kernel H} {id j r : Int} {rsp : Addr}
    (hk : sem_wait k j rsp = some (r, k')) (h : j = id → isValidSemId id = -1) :
    k'.semaphores id = k.semaphores id := by
  unfold sem_wait at hk
  split at hk
  · cases hk
    rfl
  have hne : id ≠ j := fun he => by simp_all
  split at hk
  · cases hk
  · split at hk
    · cases hk
      exact setSem_ne _ _ hne
    · dsimp only at hk
      split at hk
      · cases hk
        exact setSem_ne _ _ hne
      · cases hk
        exact setSem_ne _ _ hne

theorem sem_post_other {k k' : Kernel H} {id j r : Int} (hk : sem_post k j = some (r, k'))
    (h : j = id → isValidSemId id = -1) : k'.semaphores id = k.semaphores id := by
  unfold sem_post at hk
  split at hk
  · cases hk
    rfl
  have hne : id ≠ j := fun he => by simp_all
  split at hk
  · cases hk
  · split at hk
    · cases hk
      exact setSem_ne _ _ hne
    · cases hk
      exact setSem_ne _ _ hne

/-- A call on other semaphores, or with an id that is not valid, leaves a
semaphore alone, whatever the heap answers. -/
theorem sem_step_same (s : System H) (c : Call) {id : Int}
    (h : names id c → isValidSemId id = -1) : (step s c).sem id = s.sem id := by
  have hof : (∀ r k', call s.kernel c = some (r, k') → k'.semaphores id = s.sem id) →
      (step s c).sem id = s.sem id := by
    intro hk
    show (after s.kernel c).semaphores id = _
    unfold after
    split
    · rfl
    · exact hk _ _ (by assumption)
  cases c with
  | scheduler op => rfl
  | sem_create j v =>
    by_cases hj : j = id
    · subst hj
      show (sem_create s.kernel j v).2.semaphores j = _
      rw [sem_create, if_pos (h rfl)]
      rfl
    · exact sem_create_other s v (Ne.symm hj)
  | sem_destroy j => exact hof fun r k' hk => sem_destroy_other hk h
  | sem_wait j rsp => exact hof fun r k' hk => sem_wait_other hk h
  | sem_post j => exact hof fun r k' hk => sem_post_other hk h

theorem sem_run_same {calls : List Call} {id : Int}
    (h : ∀ c ∈ calls, names id c → isValidSemId id = -1) (s : System H) :
    (run step s calls).sem id = s.sem id := by
  induction calls generalizing s with
  | nil => rfl
  | cons c calls ih =>
    rw [run_cons, ih (fun c' hc' => h c' (List.mem_cons_of_mem _ hc')),
      sem_step_same s c (h c List.mem_cons_self)]

/-! ## The close of a stale id -/

/-- A close changes no pipe that took the slot later, and no other slot: neither
the pipe in it nor the semaphores of that pipe. -/
def ClosesItsOwn (m : PipeSystem H) (a : Act) : Prop :=
  ∀ c ∈ closing m a,
    (c.2 < m.generation c.1 → (act m a).pipe c.1 = m.pipe c.1) ∧
      ∀ y, y ≠ c.1 → (act m a).pipe y = m.pipe y ∧
        ∀ g, (act m a).system.sem ((m.pipe y).sem g) = m.system.sem ((m.pipe y).sem g)

/-- When `closePipe` acts, nobody took the slot since, or the pipe in it is closed
already. -/
def meansItsPipe (m : PipeSystem H) (a : Act) : Prop :=
  ∀ c ∈ closing m a, m.generation c.1 ≤ c.2 ∨ (m.pipe c.1).writers = 0

instance (m : PipeSystem H) (a : Act) : Decidable (meansItsPipe m a) :=
  inferInstanceAs (Decidable (∀ c ∈ closing m a, _))

theorem act_closing {m : PipeSystem H} {a : Act} {x generation : Nat}
    (h : closing m a = some (x, generation)) :
    (act m a).manager = m.manager.setPipe x (closePipe (m.pipe x)).2 ∧
      ∃ rest : List Call, calls m a = (closePipe (m.pipe x)).1 ++ rest ∧
        ∀ c ∈ rest, ∀ id, ¬ names id c := by
  unfold closing at h
  split at h
  · rename_i rsp
    split at h
    · rename_i x' generation' exits hjob
      obtain ⟨rfl, rfl⟩ := Prod.mk.inj (Option.some.inj h)
      obtain ⟨p, hcur, hp⟩ := Option.bind_eq_some_iff.mp hjob
      have hturn : turn m p (.go rsp) = proceed m p rsp (.close x' generation' exits) := by
        unfold turn
        rw [hp]
      unfold act calls
      rw [hcur]
      dsimp only
      rw [hturn]
      unfold proceed
      cases exits with
      | false => exact ⟨rfl, [], (List.append_nil _).symm, by simp⟩
      | true => exact ⟨rfl, [.scheduler (.yield rsp)], rfl, by simp [names]⟩
    · cases h
  · cases h

omit [MemoryManager H] in
/-- A close with a writer left takes it off. -/
theorem closePipe_changes {pipe : Pipe} (h : pipe.writers ≠ 0) : (closePipe pipe).2 ≠ pipe := by
  intro he
  have hw : (closePipe pipe).2.writers ≠ pipe.writers := by
    unfold closePipe
    rw [if_neg h]
    dsimp only
    split
    · exact Ne.symm h
    · dsimp only
      omega
  exact hw (congrArg Pipe.writers he)

theorem closesItsOwn_iff {m : PipeSystem H} (h : Apart m.manager) (a : Act) :
    ClosesItsOwn m a ↔ meansItsPipe m a := by
  unfold ClosesItsOwn meansItsPipe
  cases hc : closing m a with
  | none => simp
  | some c =>
    obtain ⟨x, generation⟩ := c
    obtain ⟨hmanager, rest, hcalls, hrest⟩ := act_closing hc
    have hself : (act m a).pipe x = (closePipe (m.pipe x)).2 := by
      rw [PipeSystem.pipe, hmanager]
      exact Function.update_self _ _ _
    have hother : ∀ y, y ≠ x → (act m a).pipe y = m.pipe y ∧
        ∀ g, (act m a).system.sem ((m.pipe y).sem g) = m.system.sem ((m.pipe y).sem g) := by
      intro y hy
      refine ⟨?_, fun g => ?_⟩
      · rw [PipeSystem.pipe, hmanager]
        exact Function.update_of_ne hy _ _
      · rw [system_act, hcalls]
        refine sem_run_same (fun c hmem hn => ?_) m.system
        rcases List.mem_append.mp hmem with hmem | hmem
        · obtain ⟨g', hg'⟩ := closePipe_names hmem hn
          have hshared := h y x hy g g' hg'.symm
          rw [show (m.pipe y).sem g = -1 from hshared]
          rfl
        · exact absurd hn (hrest c hmem _)
    simp only [Option.mem_def, Option.some.injEq, forall_eq']
    constructor
    · rintro ⟨hlater, _⟩
      by_contra hno
      rw [not_or, Nat.not_le] at hno
      exact closePipe_changes hno.2 (hself.symm.trans (hlater hno.1))
    · intro hmeans
      refine ⟨fun hlt => ?_, hother⟩
      have hw : (m.pipe x).writers = 0 := hmeans.resolve_left (Nat.not_le.mpr hlt)
      rw [hself, closePipe, if_pos hw]

/-- In every run of calls on pipes and of any others, each close spares the pipes
that are not its own when the slot was not taken again before it acts, and only
then. -/
theorem a_close_spares_later_pipes_when_its_slot_was_not_taken_again {boot : PipeSystem H}
    (hboot : BootedPipes boot) (acts : List Act) :
    Meets act ClosesItsOwn boot acts ↔ Meets act meansItsPipe boot acts := by
  have hapart : Apart boot.manager := by
    rw [hboot.manager]
    intro x y _ g g' _
    cases g <;> rfl
  have hbelow := below_booted hboot
  generalize boot = m at hapart hbelow
  induction acts generalizing m with
  | nil => exact Iff.rfl
  | cons a acts ih =>
    have hm := moves_act m a
    exact and_congr (closesItsOwn_iff hapart a)
      (ih _ (apart_moves hapart hbelow hm) (below_moves hbelow hm))

/-- A shell, pid 1, opens a pipe, starts a process that writes to it and, in the
background, one that will open a pipe of its own. The writer exits. -/
def writerExits : List Act :=
  [.call (.scheduler (.createProcess 2 none 0 1 none 0)), .call (.scheduler (.yield 3)),
    .call (.scheduler (.yield 4)), .createPipe,
    .call (.scheduler (.createProcess 5 none 0 1
      (some fun i => if i = STDOUT then 3 else i.val) 0)),
    .call (.scheduler (.createProcess 6 none 0 1 none 1)), .call (.scheduler (.yield 7)),
    .call (.scheduler (.yield 8)), .syscall_exit 1 9, .go 10]

/-- The shell closes the pipe that is closed already. -/
theorem a_second_close_has_no_effect :
    Meets act ClosesItsOwn endlessPipes
      (writerExits ++ [.call (.scheduler (.yield 11)), .closePipe 3 1 12, .go 13]) :=
  (a_close_spares_later_pipes_when_its_slot_was_not_taken_again booted_endlessPipes _).mpr
    (by decide +kernel)

/-- The third process opens its pipe before the shell closes the one of the
pipeline. -/
def slotTakenAgain : List Act :=
  writerExits ++ [.createPipe, .call (.scheduler (.yield 11)), .closePipe 3 1 12]

theorem a_second_close_takes_a_later_pipe :
    Meets act (eachCall sparesIdle) endlessPipes (slotTakenAgain ++ [.go 13]) ∧
      ¬ Meets act ClosesItsOwn endlessPipes (slotTakenAgain ++ [.go 13]) := by
  have h : Meets act (eachCall sparesIdle) endlessPipes (slotTakenAgain ++ [.go 13]) ∧
      closing (run act endlessPipes slotTakenAgain) (.go 13) = some (0, 1) ∧
      1 < (run act endlessPipes slotTakenAgain).generation 0 ∧
      ((run act endlessPipes slotTakenAgain).pipe 0).isOpen = true ∧
      ((act (run act endlessPipes slotTakenAgain) (.go 13)).pipe 0).isOpen = false := by
    decide +kernel
  refine ⟨h.1, fun hm => ?_⟩
  have hown := meets_last hm
  have hrest := h.2
  generalize run act endlessPipes slotTakenAgain = m at hown hrest
  obtain ⟨hclosing, hlater, hopen, hclosed⟩ := hrest
  rw [(hown (0, 1) hclosing).1 hlater, hopen] at hclosed
  cases hclosed

end bare_bones.pipe_manager
