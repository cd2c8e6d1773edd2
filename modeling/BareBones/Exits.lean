-- What `syscall_exit` does to the other processes. It closes the pipe of its
-- stdout so that the reader sees the end, and then kills its caller with
-- `killProcess`, which takes the other end of the pipe along.
import BareBones.Bystanders
import BareBones.PipeGenerations

namespace bare_bones.pipe_manager

open bare_bones.doubleLinkedList bare_bones.process bare_bones.scheduler bare_bones.semaphore
open bare_bones.process_table runs

variable {H : Type}

/-- The process that an act moves on inside `syscall_exit`. -/
def exiting (m : PipeSystem H) (a : Act) : Option Pcb :=
  match m.system.scheduler.currentProcess with
  | none => none
  | some p =>
    match a, m.jobs p with
    | .syscall_exit _ _, none => some p
    | .go _, some (.close _ _ true) => some p
    | .go _, some .exit => some p
    | _, _ => none

/-- What a process waits for when a call of the exit of `p` may wake it: a post of
the close, or the end of `p`. -/
def endedBy (p : Pcb) : Call → Reason
  | .sem_post id => .sem id
  | _ => .wait p

/-- The pid that a call kills. -/
def kills : Call → Option Int
  | .scheduler (.killProcess pid) => some pid
  | _ => none

/-- When the exit of `p` kills the pid of `p`, that names nobody else, and no other
process has the descriptor of the pipe of `p`; and the pids that it wakes or puts
to sleep name no process that is blocked in another call or runs. -/
def sparesOthers [MemoryManager H] (p : Pcb) (s : System H) (c : Call) : Prop :=
  (∀ pid ∈ kills c, ∀ v ∈ findProcess s.scheduler pid, v = p ∧ pipedPeer s.scheduler v = none) ∧
  (∀ q ∈ s.scheduler.procs, q ≠ p → s.scheduler.status q = .BLOCKED →
    s.scheduler.pid q ∈ woken s.kernel c → (q, endedBy p c) ∈ s.history.inside) ∧
  ∀ q ∈ s.scheduler.procs, q ≠ p → s.scheduler.pid q ∈ slept s.kernel c →
    s.scheduler.status q = .BLOCKED

instance [MemoryManager H] (p : Pcb) (s : System H) (c : Call) : Decidable (sparesOthers p s c) :=
  inferInstanceAs (Decidable ((∀ pid ∈ kills c, ∀ v ∈ findProcess s.scheduler pid, _) ∧ _ ∧ _))

section Calls

variable [MemoryManager H]

/-- Everybody but `p` stays in the process list. Who was not blocked is not
blocked after the call, and who is woken waited for `p` or for the post. -/
def TouchesOnly (p : Pcb) (s : System H) (c : Call) : Prop :=
  ∀ q ∈ s.scheduler.procs, q ≠ p →
    q ∈ (step s c).scheduler.procs ∧
    (s.scheduler.status q ≠ .BLOCKED → (step s c).scheduler.status q ≠ .BLOCKED) ∧
    (s.scheduler.status q = .BLOCKED → (step s c).scheduler.status q ≠ .BLOCKED →
      (q, endedBy p c) ∈ s.history.inside)

omit [MemoryManager H] in
/-- Who dies with the kill of a pid. -/
theorem dead_only_iff {s : System H} (h : Sound s) {c : Call}
    (hc : c ≠ .scheduler .killForegroundProcess) (p : Pcb) :
    (∀ v ∈ dead s.kernel c, v = p) ↔
      ∀ pid ∈ kills c, ∀ v ∈ findProcess s.scheduler pid,
        v = p ∧ pipedPeer s.scheduler v = none := by
  unfold kills
  split
  · rename_i pid
    simp only [Option.mem_def, Option.some.injEq, forall_eq']
    show (∀ v ∈ victims s.scheduler pid, v = p) ↔ _
    unfold victims
    cases hf : findProcess s.scheduler pid with
    | none => simp
    | some v =>
      have hv := (Table.find_some (findProcess_view s.scheduler pid ▸ hf)).1
      have hq : inItsQueue s.scheduler v := inItsQueue_of_inv h.inv hv
      dsimp only
      rw [if_pos hq]
      simp only [List.mem_cons, Option.mem_toList, Option.some.injEq, forall_eq', forall_eq_or_imp]
      apply and_congr_right
      intro hvp
      constructor
      · intro hall
        by_contra hne
        obtain ⟨w, hw⟩ := Option.ne_none_iff_exists'.mp hne
        have hwp := hall w hw
        have hmem := (pipedPeer_attached hw).2.1
        exact (h.inv.core.procs_nodup.mem_erase_iff.mp hmem).1 (hwp.trans hvp.symm)
      · intro hnone w hw
        rw [hnone] at hw
        cases hw
  · rename_i hno
    have hdead : dead s.kernel c = [] := by
      unfold dead
      split
      · exact absurd rfl (hno _)
      · exact absurd rfl hc
      · rfl
    simp [hdead]

/-- No call wakes whom it puts to sleep. -/
theorem not_woken_of_slept {k : Kernel H} {c : Call} {pid : Int} (h : pid ∈ slept k c) :
    pid ∉ woken k c := by
  unfold slept at h
  split at h
  · simp [woken]
  · simp [woken]
  · simp [woken]
  · cases h

/-- A call of the exit touches nobody else when it spares the others, and only
then. -/
theorem touchesOnly_iff (hn : Serves H NODE_SIZE) {s : System H} (h : Sound s) {c : Call}
    (hok : sparesIdle s c) (hc : c ≠ .scheduler .killForegroundProcess) (p : Pcb) :
    TouchesOnly p s c ↔ sparesOthers p s c := by
  have hE := effect_after hn s c h hok
  have hprocs : ∀ q ∈ s.scheduler.procs, q ∈ (step s c).scheduler.procs ↔ q ∉ dead s.kernel c :=
    hE.procs
  have hasleep : ∀ q ∈ s.scheduler.procs, q ∈ (step s c).scheduler.procs →
      ((step s c).scheduler.status q = .BLOCKED ↔
        (s.scheduler.status q = .BLOCKED ∨ s.scheduler.pid q ∈ slept s.kernel c) ∧
          s.scheduler.pid q ∉ woken s.kernel c) := by
    intro q hq hq'
    have ha := hE.asleep q hq
    have hd := (hprocs q hq).mp hq'
    constructor
    · intro hb
      obtain ⟨hs, _, hw⟩ := ha.mp ⟨hq', hb⟩
      exact ⟨hs.imp_left And.right, hw⟩
    · rintro ⟨hs, hw⟩
      exact (ha.mpr ⟨hs.imp_left (fun hb => ⟨hq, hb⟩), hd, hw⟩).2
  unfold sparesOthers
  rw [← dead_only_iff h hc p]
  constructor
  · intro ht
    have hdead : ∀ v ∈ dead s.kernel c, v = p := by
      intro v hv
      by_contra hne
      have hvp := mem_dead hv
      exact (hprocs v hvp).mp (ht v hvp hne).1 hv
    refine ⟨hdead, fun q hq hne hb hw => ?_, fun q hq hne hs => ?_⟩
    · obtain ⟨hq', _, hwake⟩ := ht q hq hne
      exact hwake hb fun hb' => ((hasleep q hq hq').mp hb').2 hw
    · by_contra hnb
      obtain ⟨hq', hsleep, _⟩ := ht q hq hne
      exact hsleep hnb ((hasleep q hq hq').mpr ⟨Or.inr hs, not_woken_of_slept hs⟩)
  · rintro ⟨hdead, hwake, hsleep⟩ q hq hne
    have hq' : q ∈ (step s c).scheduler.procs := (hprocs q hq).mpr fun hd => hne (hdead q hd)
    refine ⟨hq', fun hnb hb => ?_, fun hb hnb => ?_⟩
    · rcases ((hasleep q hq hq').mp hb).1 with hb' | hs
      · exact hnb hb'
      · exact hnb (hsleep q hq hne hs)
    · apply hwake q hq hne hb
      by_contra hw
      exact hnb ((hasleep q hq hq').mpr ⟨Or.inl hb, hw⟩)

/-- The calls of an act of `syscall_exit`. -/
theorem exiting_calls {m : PipeSystem H} {a : Act} {p : Pcb} (h : exiting m a = some p) :
    ∀ c ∈ calls m a, c ≠ .scheduler .killForegroundProcess := by
  have hclose : ∀ pipe, ∀ c ∈ (closePipe pipe).1, c ≠ .scheduler .killForegroundProcess := by
    rintro pipe c hc rfl
    unfold closePipe at hc
    dsimp only at hc
    split at hc
    · simp at hc
    · split at hc
      · rcases List.mem_append.mp hc with hc | hc
        · cases List.eq_of_mem_replicate hc
        · simp at hc
      · simp at hc
  have hbegin : ∀ p pipe_id generation rsp, ∀ c ∈ (beginClose m p pipe_id generation true rsp).1,
      c ≠ .scheduler .killForegroundProcess := by
    rintro p pipe_id generation rsp c hc rfl
    unfold beginClose at hc
    split at hc <;> simp at hc
  have hexit : ∀ p rsp, ∀ c ∈ exitCalls m.system p rsp, c ≠ .scheduler .killForegroundProcess := by
    rintro p rsp c hc rfl
    simp [exitCalls] at hc
  unfold exiting at h
  split at h
  · cases h
  rename_i q hcur
  intro c hc
  cases a with
  | call _ | createPipe | io _ | closePipe _ _ _ => simp at h
  | syscall_exit generation rsp =>
    cases hjob : m.jobs q with
    | some job => simp [hjob] at h
    | none =>
      simp only [calls, hcur, turn, hjob] at hc
      split at hc
      · exact hbegin _ _ _ _ c hc
      · exact hexit _ _ c hc
  | go rsp =>
    cases hjob : m.jobs q with
    | none => simp [hjob] at h
    | some job =>
      simp only [calls, hcur, turn, hjob] at hc
      cases job with
      | io t generation => simp [hjob] at h
      | close x generation exits =>
        cases exits with
        | false => simp [hjob] at h
        | true =>
          simp only [proceed, if_true] at hc
          rcases List.mem_append.mp hc with hc | hc
          · exact hclose _ c hc
          · rw [List.mem_singleton.mp hc]
            simp
      | exit => exact hexit _ _ c hc

end Calls

/-! ## Every run -/

/-- The calls of an act of `syscall_exit` touch nobody but its caller, the
processes that wait for it and those that a post of the close wakes. -/
def ExitsAlone [MemoryManager H] (m : PipeSystem H) (a : Act) : Prop :=
  ∀ p ∈ exiting m a, Meets step (TouchesOnly p) m.system (calls m a)

def exitSparesOthers [MemoryManager H] (m : PipeSystem H) (a : Act) : Prop :=
  ∀ p ∈ exiting m a, Meets step (sparesOthers p) m.system (calls m a)

instance [MemoryManager H] (m : PipeSystem H) (a : Act) : Decidable (exitSparesOthers m a) :=
  inferInstanceAs (Decidable (∀ p ∈ exiting m a, _))

variable [MemoryManager H]

/-- Everybody else is still in the process list after the act. -/
theorem ExitsAlone.stays {m : PipeSystem H} {a : Act} (h : ExitsAlone m a) {p : Pcb}
    (hp : exiting m a = some p) {q : Pcb} (hq : q ∈ m.system.scheduler.procs) (hne : q ≠ p) :
    q ∈ (act m a).system.scheduler.procs := by
  have hcalls : ∀ (calls : List Call) (s : System H), Meets step (TouchesOnly p) s calls →
      q ∈ s.scheduler.procs → q ∈ (run step s calls).scheduler.procs := by
    intro calls
    induction calls with
    | nil => exact fun _ _ hq => hq
    | cons c calls ih => exact fun s hm hq => ih (step s c) hm.2 (hm.1 q hq hne).1
  rw [system_act]
  exact hcalls _ m.system (h p hp) hq

theorem exitsAlone_iff (hn : Serves H NODE_SIZE) {m : PipeSystem H} (h : Sound m.system) {a : Act}
    (hok : eachCall sparesIdle m a) : ExitsAlone m a ↔ exitSparesOthers m a := by
  have hcalls : ∀ (p : Pcb) (calls : List Call) (s : System H), Sound s →
      Meets step sparesIdle s calls → (∀ c ∈ calls, c ≠ .scheduler .killForegroundProcess) →
      (Meets step (TouchesOnly p) s calls ↔ Meets step (sparesOthers p) s calls) := by
    intro p calls
    induction calls with
    | nil => exact fun _ _ _ _ => Iff.rfl
    | cons c calls ih =>
      intro s hs hm hne
      exact and_congr (touchesOnly_iff hn hs hm.1 (hne c List.mem_cons_self) p)
        (ih (step s c) (sound_step hn s c hs hm.1) hm.2
          fun c' hc' => hne c' (List.mem_cons_of_mem _ hc'))
  exact forall₂_congr fun p hp => hcalls p _ m.system h hok (exiting_calls hp)

/-- In every run: each exit touches only those it may touch when it spares the
others, and only then. -/
theorem an_exit_touches_only_its_own_when_it_spares_the_others (hn : Serves H NODE_SIZE)
    {boot : PipeSystem H} (hboot : BootedPipes boot) {acts : List Act}
    (hok : Meets act (eachCall sparesIdle) boot acts) :
    Meets act ExitsAlone boot acts ↔ Meets act exitSparesOthers boot acts := by
  have hsound := sound_booted hn hboot.system
  generalize boot = m at hsound hok
  induction acts generalizing m with
  | nil => exact Iff.rfl
  | cons a acts ih =>
    have hnext : Sound (act m a).system := by
      rw [system_act]
      exact run_invariant (sound_step hn) hsound hok.1
    exact and_congr (exitsAlone_iff hn hsound hok.1) (ih _ hnext hok.2)

/-- The writer of a pipeline exits, and nobody reads from its pipe. -/
theorem an_exit_without_a_reader_touches_nobody :
    Meets act ExitsAlone endlessPipes
      (writerExits ++ [.call (.scheduler (.yield 11)), .call (.scheduler (.yield 12)),
        .call (.scheduler (.yield 13)), .go 14]) := by
  refine (an_exit_touches_only_its_own_when_it_spares_the_others (endless_serves _)
    booted_endlessPipes ?_).mpr ?_
  all_goals decide +kernel

/-- A shell, pid 1, starts a writer, pid 2, and a reader, pid 3, at the ends of a
pipe. The writer exits, and has closed the pipe. -/
def writerLeaves : List Act :=
  [.call (.scheduler (.createProcess 2 none 0 1 none 0)), .call (.scheduler (.yield 3)),
    .call (.scheduler (.yield 4)), .createPipe,
    .call (.scheduler (.createProcess 5 none 0 1
      (some fun i => if i = STDOUT then 3 else i.val) 0)),
    .call (.scheduler (.createProcess 6 none 0 1 (some fun i => if i = STDIN then 3 else i.val) 0)),
    .call (.scheduler (.yield 7)), .call (.scheduler (.yield 8)), .syscall_exit 1 9, .go 10,
    .call (.scheduler (.yield 11)), .call (.scheduler (.yield 12)),
    .call (.scheduler (.yield 13))]

/-- The reader goes with the writer. -/
theorem an_exit_takes_the_reader_of_its_pipe :
    Meets act (eachCall sparesIdle) endlessPipes (writerLeaves ++ [.go 14]) ∧
      ¬ Meets act ExitsAlone endlessPipes (writerLeaves ++ [.go 14]) := by
  have h : Meets act (eachCall sparesIdle) endlessPipes (writerLeaves ++ [.go 14]) ∧
      exiting (run act endlessPipes writerLeaves) (.go 14) = some 2 ∧
      3 ∈ (run act endlessPipes writerLeaves).system.scheduler.procs ∧
      3 ∉ (act (run act endlessPipes writerLeaves) (.go 14)).system.scheduler.procs := by
    decide +kernel
  refine ⟨h.1, fun hm => ?_⟩
  have hrest := h.2
  rw [meets_append] at hm
  generalize run act endlessPipes writerLeaves = m at hm hrest
  obtain ⟨hexiting, hreader, hgone⟩ := hrest
  exact hgone (ExitsAlone.stays hm.2.1 hexiting hreader (by decide))

end bare_bones.pipe_manager
