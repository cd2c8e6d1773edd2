-- Whom `killProcess` takes along. It looks for the peer of a pipe by the number
-- of a descriptor, and takes any number for a pipe that is not the standard one
-- of its place.
import BareBones.Effects

namespace bare_bones.scheduler

open bare_bones.doubleLinkedList bare_bones.process bare_bones.process_table runs

variable {H : Type}

/-- The process has the descriptor as its stdin or stdout. -/
def attached (s : Scheduler H) (p : Pcb) (fd : Int) : Prop :=
  (s.pcb p).fileDescriptors STDIN = fd ∨ (s.pcb p).fileDescriptors STDOUT = fd

instance (s : Scheduler H) (p : Pcb) (fd : Int) : Decidable (attached s p fd) :=
  inferInstanceAs (Decidable (_ ∨ _))

/-- A pipe, a descriptor from 3 on, that both processes are attached to. -/
def sharesPipe (s : Scheduler H) (p q : Pcb) : Prop :=
  ∃ place ∈ [STDIN, STDOUT], 3 ≤ (s.pcb p).fileDescriptors place ∧
    attached s q ((s.pcb p).fileDescriptors place)

instance (s : Scheduler H) (p q : Pcb) : Decidable (sharesPipe s p q) :=
  inferInstanceAs (Decidable (∃ place ∈ [STDIN, STDOUT], _ ∧ _))

section Kill

variable [MemoryManager H]

/-- The process is in the process list before `killProcess`, and not after. -/
def goesWith (s : Scheduler H) (pid : Int) (p : Pcb) : Prop :=
  p ∈ s.procs ∧ p ∉ (killProcess s pid).2.procs

instance (s : Scheduler H) (pid : Int) (p : Pcb) : Decidable (goesWith s pid p) :=
  inferInstanceAs (Decidable (_ ∧ _))

/-- Nobody but the process of the pid goes, and at most one process at the other
end of its pipe. -/
structure NoBystanders (s : Scheduler H) (pid : Int) : Prop where
  peer : ∀ p, goesWith s pid p → findProcess s pid ≠ some p →
    ∃ v, findProcess s pid = some v ∧ sharesPipe s v p
  one : ∀ p q, goesWith s pid p → findProcess s pid ≠ some p → goesWith s pid q →
    findProcess s pid ≠ some q → p = q
  standard : ∀ p, goesWith s pid p → findProcess s pid ≠ some p →
    ¬ ∀ place ∈ [STDIN, STDOUT], (s.pcb p).fileDescriptors place ∈ [0, 1, 2]

end Kill

/-- The descriptor by which `killProcess` looks for a peer is one of a pipe, or
whoever it finds first shares a pipe with the victim. -/
def peersByPipe (s : Scheduler H) (pid : Int) : Prop :=
  ∀ v ∈ findProcess s pid, 3 ≤ pipedFd (s.pcb v).fileDescriptors ∨
    ∀ w ∈ pipedPeer s v, sharesPipe s v w

instance (s : Scheduler H) (pid : Int) : Decidable (peersByPipe s pid) :=
  inferInstanceAs (Decidable (∀ v ∈ findProcess s pid, _ ∨ ∀ w ∈ pipedPeer s v, sharesPipe s v w))

/-! ## The peer -/

/-- The descriptor of the pipe is stdin or stdout. -/
theorem pipedFd_place {fds : Fin CANT_FILE_DESCRIPTORS → Int} (h : pipedFd fds ≠ -1) :
    ∃ place ∈ [STDIN, STDOUT], fds place = pipedFd fds := by
  unfold pipedFd at h ⊢
  split
  · exact ⟨STDIN, by simp, rfl⟩
  · split
    · exact ⟨STDOUT, by simp, rfl⟩
    · simp_all

theorem pipedPeer_attached {s : Scheduler H} {v w : Pcb} (h : pipedPeer s v = some w) :
    pipedFd (s.pcb v).fileDescriptors ≠ -1 ∧ w ∈ s.procs.erase v ∧
      attached s w (pipedFd (s.pcb v).fileDescriptors) := by
  unfold pipedPeer at h
  dsimp only at h
  split at h
  · cases h
  · rename_i hfd
    exact ⟨hfd, List.mem_of_find?_eq_some h, by simpa [attached] using List.find?_some h⟩

/-- A peer by the descriptor of a pipe shares that pipe. -/
theorem peersByPipe_shares {s : Scheduler H} {pid : Int} {v w : Pcb} (h : peersByPipe s pid)
    (hv : findProcess s pid = some v) (hw : pipedPeer s v = some w) : sharesPipe s v w := by
  rcases h v hv with hfd | hall
  · obtain ⟨hne, _, hatt⟩ := pipedPeer_attached hw
    obtain ⟨place, hplace, he⟩ := pipedFd_place hne
    exact ⟨place, hplace, by rw [he]; exact hfd, by rw [he]; exact hatt⟩
  · exact hall w hw

/-- Who shares a pipe has more than standard descriptors. -/
theorem sharesPipe_not_standard {s : Scheduler H} {v w : Pcb} (h : sharesPipe s v w) :
    ¬ ∀ place ∈ [STDIN, STDOUT], (s.pcb w).fileDescriptors place ∈ [0, 1, 2] := by
  obtain ⟨place, _, hge, hatt⟩ := h
  intro hall
  have hin := hall STDIN (by simp)
  have hout := hall STDOUT (by simp)
  simp only [List.mem_cons, List.not_mem_nil, or_false] at hin hout
  rcases hatt with he | he <;> omega

/-! ## Whoever else, in any state -/

variable [MemoryManager H]

/-- What a `kill` does to the process list, whatever the state: it takes the
victim out or leaves the list alone. -/
structure Takes (v : Pcb) (s : Scheduler H) (r : Int × Scheduler H) : Prop where
  procs : r.1 = -1 ∧ r.2.procs = s.procs ∨ r.2.procs = s.procs.erase v
  fds : ∀ p, (r.2.pcb p).fileDescriptors = (s.pcb p).fileDescriptors

theorem fds_free (s : Scheduler H) (v p : Pcb) :
    ((s.free v).pcb p).fileDescriptors = (s.pcb p).fileDescriptors := by
  unfold Scheduler.free
  by_cases hp : p = v
  · subst hp
    simp only [Function.update_self]
    rfl
  · simp only [Function.update_of_ne hp]

theorem takes_terminate (s : Scheduler H) (v : Pcb) : Takes v s (terminate s v) := by
  unfold terminate
  by_cases hv : v ∈ s.procs
  · obtain ⟨l, heap, hl, hd⟩ := removeNode_of_mem s.heap hv
    have hfds : ∀ p, (Function.update s.pcb v { s.pcb v with status := .TERMINATED } p
        ).fileDescriptors = (s.pcb p).fileDescriptors := fun p => by
      by_cases hp : p = v
      · subst hp; simp
      · simp [hp]
    rw [hl]
    dsimp only
    split
    · exact ⟨Or.inr hd, hfds⟩
    · exact ⟨Or.inr hd, fun p => (fds_free _ v p).trans (hfds p)⟩
  · rw [removeNode_of_not_mem s.heap hv]
    exact ⟨Or.inl ⟨rfl, rfl⟩, fun _ => rfl⟩

theorem takes_kill (s : Scheduler H) (v : Pcb) : Takes v s (kill s v) := by
  unfold kill
  rcases leaveQueue_spec s v with ⟨s', hl, hk, _⟩ | ⟨hl, _⟩
  · have hw := hk.trans (keeps_wakeWaiters (s'.pcb v).waiters s')
    have ht := takes_terminate (wakeWaiters (s'.pcb v).waiters s') v
    rw [hl]
    refine ⟨?_, fun p => (ht.fds p).trans (hw.fds p)⟩
    rw [← hw.procs]
    exact ht.procs
  · rw [hl]
    exact ⟨Or.inl ⟨rfl, rfl⟩, fun _ => rfl⟩

/-- Who goes is the process of the pid or the peer that `pipedTo` finds. -/
theorem goesWith_cases {s : Scheduler H} {pid : Int} {p : Pcb} (h : goesWith s pid p) :
    ∃ v, findProcess s pid = some v ∧ (p = v ∨ pipedPeer s v = some p) := by
  obtain ⟨hp, hgone⟩ := h
  unfold killProcess at hgone
  cases hf : findProcess s pid with
  | none =>
    rw [hf] at hgone
    exact absurd hp hgone
  | some v =>
    refine ⟨v, rfl, ?_⟩
    rw [hf] at hgone
    dsimp only at hgone
    have hk := takes_kill s v
    generalize kill s v = k at hk hgone
    obtain ⟨r, s'⟩ := k
    dsimp only at hgone hk
    split at hgone
    · rcases hk.procs with ⟨_, hsame⟩ | herase
      · exact absurd (hsame ▸ hp) hgone
      · by_contra hne
        exact hgone (herase ▸ (List.mem_erase_of_ne (fun he => hne (Or.inl he))).mpr hp)
    · rename_i hr
      have herase : s'.procs = s.procs.erase v := hk.procs.resolve_left fun hs => hr hs.1
      by_cases hpv : p = v
      · exact Or.inl hpv
      · have hp' : p ∈ s'.procs := herase ▸ (List.mem_erase_of_ne hpv).mpr hp
        refine Or.inr ?_
        split at hgone
        · rename_i hfd
          have hpeer : pipedTo s' (pipedFd (s.pcb v).fileDescriptors) = pipedPeer s v := by
            unfold pipedTo pipedPeer
            rw [if_neg hfd, herase]
            refine congrArg (fun f => (s.procs.erase v).find? f) (funext fun q => ?_)
            rw [hk.fds]
          rw [hpeer] at hgone
          split at hgone
          · exact absurd hp' hgone
          · rename_i w hw
            have hkw := takes_kill s' w
            rcases hkw.procs with ⟨_, hsame⟩ | herase'
            · exact absurd (hsame ▸ hp') hgone
            · by_contra hne
              have hpw : p ≠ w := fun he => hne (he ▸ hw)
              exact hgone (herase' ▸ (List.mem_erase_of_ne hpw).mpr hp')
        · exact absurd hp' hgone

theorem noBystanders_of_peersByPipe {s : Scheduler H} {pid : Int} (h : peersByPipe s pid) :
    NoBystanders s pid := by
  have hpeer : ∀ p, goesWith s pid p → findProcess s pid ≠ some p →
      ∃ v, findProcess s pid = some v ∧ pipedPeer s v = some p := by
    intro p hp hne
    obtain ⟨v, hv, rfl | hw⟩ := goesWith_cases hp
    · exact absurd hv hne
    · exact ⟨v, hv, hw⟩
  refine ⟨fun p hp hne => ?_, fun p q hp hpne hq hqne => ?_, fun p hp hne => ?_⟩
  · obtain ⟨v, hv, hw⟩ := hpeer p hp hne
    exact ⟨v, hv, peersByPipe_shares h hv hw⟩
  · obtain ⟨v, hv, hw⟩ := hpeer p hp hpne
    obtain ⟨v', hv', hw'⟩ := hpeer q hq hqne
    rw [hv] at hv'
    cases hv'
    rw [hw] at hw'
    exact Option.some.inj hw'
  · obtain ⟨v, hv, hw⟩ := hpeer p hp hne
    exact sharesPipe_not_standard (peersByPipe_shares h hv hw)

/-! ## Every reachable state -/

omit [MemoryManager H] in
/-- Idle has no pipe. -/
theorem pipedPeer_idle {s : Scheduler H} (h : Inv s.view) {v : Pcb}
    (hv : findProcess s IDLE_PID = some v) : pipedPeer s v = none := by
  obtain ⟨hvp, hvpid⟩ := Table.find_some (findProcess_view s _ ▸ hv)
  obtain ⟨i, hi, hipid, _, _, hfds, _⟩ := h.core.idle
  have hvi : v = i := h.core.pid_inj v hvp i hi (hvpid.trans hipid.symm)
  have hfd : pipedFd (s.pcb v).fileDescriptors = -1 := by
    have : (s.pcb v).fileDescriptors = idleDescriptors := hvi ▸ hfds
    rw [this]
    decide
  simp [pipedPeer, hfd]

/-- In a sound state the peer goes indeed. -/
theorem peer_goesWith (hn : Serves H NODE_SIZE) {s : Scheduler H} (h : Inv s.view) {pid : Int}
    {v w : Pcb} (hv : findProcess s pid = some v) (hw : pipedPeer s v = some w) :
    goesWith s pid w ∧ findProcess s pid ≠ some w := by
  have hpid : pid ≠ IDLE_PID := by
    rintro rfl
    rw [pipedPeer_idle h hv] at hw
    cases hw
  have hwm := (pipedPeer_attached hw).2.1
  obtain ⟨hwv, hwp⟩ := h.core.procs_nodup.mem_erase_iff.mp hwm
  have hvq := semaphore.inItsQueue_of_inv h (Table.find_some (findProcess_view s pid ▸ hv)).1
  have hmem : w ∈ s.view.victims pid := by
    rw [semaphore.victims_view h, victims, hv]
    simp [hvq, hw]
  refine ⟨⟨hwp, fun hin => ?_⟩, fun he => hwv ?_⟩
  · have hb := buried_killPid h hpid
    rw [← killProcess_view hn] at hb
    exact ((hb.procs w).mp hin).2 hmem
  · rw [hv] at he
    exact (Option.some.inj he).symm

theorem peersByPipe_of_noBystanders (hn : Serves H NODE_SIZE) {s : Scheduler H}
    (h : Inv s.view) {pid : Int} (hno : NoBystanders s pid) : peersByPipe s pid := by
  intro v hv
  refine Or.inr fun w hw => ?_
  obtain ⟨hgoes, hne⟩ := peer_goesWith hn h hv hw
  obtain ⟨v', hv', hshares⟩ := hno.peer w hgoes hne
  rw [show findProcess s pid = some v from hv] at hv'
  cases hv'
  exact hshares

/-- `killProcess` has no bystanders when it looks for the peer of a pipe, in any
state whatever the heap answers; in the states that runs reach, only then. -/
theorem killProcess_spares_bystanders_when_it_looks_for_a_pipe :
    (∀ (s : Scheduler H) (pid : Int), peersByPipe s pid → NoBystanders s pid) ∧
      (Serves H NODE_SIZE → ∀ boot : Scheduler H, Booted boot → ∀ ops : List Op,
        Meets exec sparesIdle boot ops → ∀ pid : Int,
        NoBystanders (run exec boot ops) pid → peersByPipe (run exec boot ops) pid) :=
  ⟨fun _ _ => noBystanders_of_peersByPipe, fun hn _ hboot _ hok _ =>
    peersByPipe_of_noBystanders hn
      (run_invariant (I := fun s : Scheduler H => Inv s.view) (inv_exec hn)
        (inv_booted hn hboot) hok)⟩

/-- The shell, pid 1, and two processes at the ends of pipe 3. -/
def pipelineRun : List Op :=
  [.createProcess 2 none 0 1 none 0,
    .createProcess 3 none 0 1 (some fun i => if i = STDOUT then 3 else i.val) 0,
    .createProcess 4 none 0 1 (some fun i => if i = STDIN then 3 else i.val) 0]

theorem killProcess_takes_the_reader_of_its_pipe :
    NoBystanders (run exec endlessBoot pipelineRun) 2 ∧
      peersByPipe (run exec endlessBoot pipelineRun) 2 := by
  have hpipe : peersByPipe (run exec endlessBoot pipelineRun) 2 := by decide
  have hno := killProcess_spares_bystanders_when_it_looks_for_a_pipe.1 _ _ hpipe
  refine ⟨hno, killProcess_spares_bystanders_when_it_looks_for_a_pipe.2 (endless_serves _)
    endlessBoot booted_endlessBoot pipelineRun (by decide) 2 hno⟩

/-- The shell, pid 1, and a process that writes to descriptor 0. -/
def redirectedRun : List Op :=
  [.createProcess 2 none 0 1 none 0,
    .createProcess 3 none 0 1 (some fun i => if i = STDOUT then 0 else i.val) 0]

/-- The shell reads from descriptor 0, and goes with it. -/
theorem the_shell_is_a_bystander :
    Meets exec sparesIdle endlessBoot redirectedRun ∧
      ¬ NoBystanders (run exec endlessBoot redirectedRun) 2 := by
  refine ⟨by decide, fun h => ?_⟩
  exact h.standard 1 (by decide) (by decide) (by decide)

end bare_bones.scheduler
