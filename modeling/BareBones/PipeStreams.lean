-- What the processes themselves see of a pipe: the bytes that their calls leave in their buffers
-- are the bytes that the others passed in theirs.
import BareBones.Lib.Interleaving
import BareBones.PipeFifo

namespace bare_bones.pipe_manager

open bare_bones.doubleLinkedList bare_bones.process bare_bones.scheduler bare_bones.semaphore
open bare_bones.program runs ring_buffer interleaving

variable {H : Type}

/-! ## What a process moved -/

/-- The first bytes of a buffer. -/
def firstBytes (buffer : Nat → UInt8) (n : Int) : List UInt8 := (List.range n.toNat).map buffer

/-- What the process moved in calls that returned, and in the call that it is in. -/
def Client.moved (way : Way) (c : Client) : List UInt8 :=
  (c.returns.filter fun r => r.request.way = way).flatMap (fun r => firstBytes r.buffer r.result) ++
    (c.task.toList.filter fun t => t.request.way = way).flatMap fun t => firstBytes t.buffer t.bytes

/-- All the calls of a process, those to come too. -/
def Client.requests (c : Client) : List Request :=
  c.returns.map Return.request ++ c.task.toList.map Task.request ++ c.todo

/-- A `writePipe` does not write to the buffer that it is passed. -/
structure Client.Keeps (c : Client) : Prop where
  task : ∀ t ∈ c.task, 0 ≤ t.i ∧ (t.request.way = .write → t.request.buffer = some t.buffer)
  returns : ∀ r ∈ c.returns, r.request.way = .write → r.request.buffer = some r.buffer

theorem firstBytes_zero (buffer : Nat → UInt8) : firstBytes buffer 0 = [] := rfl

theorem firstBytes_succ (buffer : Nat → UInt8) {n : Int} (hn : 0 ≤ n) (b : UInt8) :
    firstBytes (Function.update buffer n.toNat b) (n + 1) = firstBytes buffer n ++ [b] := by
  have hsucc : (n + 1).toNat = n.toNat + 1 := by omega
  have hold : ∀ i ∈ List.range n.toNat, Function.update buffer n.toNat b i = buffer i := by
    intro i hi
    apply Function.update_of_ne
    exact Nat.ne_of_lt (List.mem_range.mp hi)
  unfold firstBytes
  rw [hsucc, List.range_succ, List.map_append, List.map_congr_left hold]
  simp

theorem moved_task {c : Client} {t : Task} (h : c.task = some t) (way : Way) :
    c.moved way =
      (c.returns.filter fun r => r.request.way = way).flatMap
          (fun r => firstBytes r.buffer r.result) ++
        if t.request.way = way then firstBytes t.buffer t.bytes else [] := by
  unfold Client.moved
  rw [h]
  by_cases hway : t.request.way = way <;> simp [hway]

theorem moved_none {c : Client} (h : c.task = none) (way : Way) :
    c.moved way = (c.returns.filter fun r => r.request.way = way).flatMap
      fun r => firstBytes r.buffer r.result := by
  unfold Client.moved
  rw [h]
  simp

/-- A call that returns has moved what it moved so far. -/
theorem moved_returned {todo : List Request} {returns : List Return} {t : Task} (way : Way) :
    (Client.mk todo none (returns ++ [⟨t.request, t.bytes, t.buffer⟩])).moved way =
      (Client.mk todo (some t) returns).moved way := by
  rw [moved_none rfl, moved_task rfl, List.filter_append, List.flatMap_append]
  by_cases hway : t.request.way = way <;> simp [hway]

/-! ## One step -/

/-- What went through the pipe in this way, oldest first. -/
def Past.log (past : Past) : Way → List UInt8
  | .read => past.delivered
  | .write => past.written

/-- A process takes its next step: what it moved in one way or the other is what went through. -/
structure Carries (c : Client) (g : Shared) (c' : Client) (g' : Shared) : Prop where
  keeps : c'.Keeps
  requests : c'.requests = c.requests
  bytes : ∃ byte : Way → Option UInt8, ∀ way, c'.moved way = c.moved way ++ (byte way).toList ∧
    g'.past.log way = g.past.log way ++ (byte way).toList

/-- No byte moves. -/
theorem Carries.quiet {c c' : Client} {g g' : Shared} (hkeeps : c'.Keeps)
    (hrequests : c'.requests = c.requests) (hmoved : ∀ way, c'.moved way = c.moved way)
    (hpast : g'.past = g.past) : Carries c g c' g' := by
  refine ⟨hkeeps, hrequests, fun _ => none, fun way => ?_⟩
  rw [hmoved way, hpast]
  simp

/-- In its critical section a call moves a byte, between the pipe and its buffer. -/
theorem critical_moves_byte {t : Task} {g : Shared} (rsp : Addr) {ids : Gate → Int}
    (hok : (g.manager.pipes t.pipe).Ok ids g.past) (hstage : t.stage = .critical)
    (hpos : 0 < (g.manager.pipes t.pipe).tokens t.request.way.gate) (hi : 0 ≤ t.i)
    (hbytes : t.bytes = t.i) :
    ∃ byte calls pipe past buffer, t.move g rsp = ⟨calls, pipe, past,
        { t with stage := .loop, i := t.i + 1, bytes := t.bytes + 1, buffer := buffer }, none⟩ ∧
      firstBytes buffer (t.bytes + 1) = firstBytes t.buffer t.bytes ++ [byte] ∧
      (t.request.way = .write → buffer = t.buffer) ∧
      ∀ way, past.log way = g.past.log way ++ if t.request.way = way then [byte] else [] := by
  unfold Task.move
  cases hw : t.request.way with
  | read =>
    rw [hw] at hpos
    have hpos' : 0 < (g.manager.pipes t.pipe).count := hpos
    have hno : ¬ ((g.manager.pipes t.pipe).count = 0 ∧ (g.manager.pipes t.pipe).writers = 0) :=
      fun he => hok.writers he.2
    dsimp only
    simp only [readPipe, hstage]
    rw [if_neg hno, if_pos hpos', if_neg (fun he => hok.writers he.1)]
    refine ⟨(g.manager.pipes t.pipe).buffer (g.manager.pipes t.pipe).readIdx, _, _, _, _, rfl,
      ?_, by simp, fun way => ?_⟩
    · rw [hbytes]
      exact firstBytes_succ t.buffer hi _
    · cases way <;> simp [Past.log]
  | write =>
    rw [hw] at hpos
    have hroom : (g.manager.pipes t.pipe).count < PIPE_BUFFER_SIZE := Nat.lt_of_sub_pos hpos
    dsimp only
    simp only [writePipe, hstage]
    rw [if_pos hroom]
    refine ⟨t.buffer t.i.toNat, _, _, _, t.buffer, rfl, ?_, fun _ => rfl, fun way => ?_⟩
    · have hsame := firstBytes_succ t.buffer hi (t.buffer t.i.toNat)
      rw [Function.update_eq_self] at hsame
      rw [hbytes]
      exact hsame
    · cases way <;> simp [Past.log]

section Steps

variable {ps : Finset Pcb} {x : Nat} {ids : Gate → Int} {m : Users H} {p : Pcb}

theorem carries_task (h : Flow ps x ids m) (hcur : m.system.scheduler.currentProcess = some p)
    {t : Task} (ht : (m.locals p).task = some t) (hk : (m.locals p).Keeps) (rsp : Addr) :
    Carries (m.locals p) m.shared (clients m.system p (m.locals p) m.shared rsp).2.1
      (clients m.system p (m.locals p) m.shared rsp).2.2 := by
  have htask := (h.clients p).task t ht
  obtain ⟨hi, hbuffer⟩ := hk.task t ht
  have hrequests : ∀ u : Task, u.request = t.request →
      (Client.mk (m.locals p).todo (some u) (m.locals p).returns).requests =
        (m.locals p).requests := by
    intro u hu
    unfold Client.requests
    rw [ht]
    simp [hu]
  cases hstage : t.stage with
  | loop =>
    by_cases hlt : t.i < t.request.size
    · simp only [clients, ht, move_loop hstage hlt]
      refine .quiet ⟨?_, hk.returns⟩ (hrequests _ rfl) (fun way => ?_) rfl
      · intro u hu
        rw [← Option.some.inj hu]
        exact ⟨hi, hbuffer⟩
      · rw [moved_task rfl, moved_task ht]
    · simp only [clients, ht, move_done hstage hlt]
      refine .quiet ⟨fun u hu => ?_, ?_⟩ ?_ (fun way => ?_) rfl
      · cases hu
      · intro r hr
        rcases List.mem_append.mp hr with hr | hr
        · exact hk.returns r hr
        · rw [List.mem_singleton.mp hr]
          exact hbuffer
      · unfold Client.requests
        rw [ht]
        simp
      · rw [moved_returned, moved_task rfl, moved_task ht]
  | mutex =>
    simp only [clients, ht, move_mutex hstage]
    refine .quiet ⟨?_, hk.returns⟩ (hrequests _ rfl) (fun way => ?_) rfl
    · intro u hu
      rw [← Option.some.inj hu]
      exact ⟨hi, hbuffer⟩
    · rw [moved_task rfl, moved_task ht]
  | critical =>
    have hpast : (m.locals p).past t.request.way.gate = 1 := by
      rw [Client.past_of ht, (Task.past_critical hstage).1]
      rfl
    have hpos := h.passing.tokens_pos (h.mem ht) hpast (h.passing.not_blocked hcur _)
    have hpipe : (m.shared.manager.pipes t.pipe).Ok ids m.shared.past := by
      rw [htask.pipe]
      exact h.pipe
    rw [Users.pipe, ← htask.pipe] at hpos
    obtain ⟨byte, calls, pipe, past, buffer, hmove, hmoved, hkept, hlog⟩ :=
      critical_moves_byte rsp hpipe hstage hpos hi htask.bytes
    simp only [clients, ht, hmove]
    refine ⟨⟨?_, hk.returns⟩, hrequests _ rfl,
      fun way => if t.request.way = way then some byte else none, fun way => ⟨?_, ?_⟩⟩
    · intro u hu
      rw [← Option.some.inj hu]
      refine ⟨Int.add_nonneg hi (by decide), fun hway => ?_⟩
      dsimp only at hway ⊢
      rw [hkept hway]
      exact hbuffer hway
    · rw [moved_task rfl, moved_task ht]
      dsimp only
      by_cases hway : t.request.way = way <;> simp [hway, hmoved]
    · rw [hlog way]
      by_cases hway : t.request.way = way <;> simp [hway]

/-- A process that starts a call has moved nothing in it yet. -/
theorem carries_start (h : Flow ps x ids m) (hx : x < MAX_PIPES)
    (hcur : m.system.scheduler.currentProcess = some p) (ht : (m.locals p).task = none)
    (hk : (m.locals p).Keeps) (rsp : Addr) :
    Carries (m.locals p) m.shared (clients m.system p (m.locals p) m.shared rsp).2.1
      (clients m.system p (m.locals p) m.shared rsp).2.2 := by
  cases htodo : (m.locals p).todo with
  | nil =>
    simp only [clients, ht, htodo]
    exact .quiet hk rfl (fun _ => rfl) rfl
  | cons r todo =>
    obtain ⟨t, hstart, _⟩ := flow_start h hx hcur ht htodo
    simp only [clients, ht, htodo, hstart]
    have hfresh : t.i = 0 ∧ t.bytes = 0 ∧ t.request = r ∧ r.buffer = some t.buffer := by
      unfold Request.start at hstart
      split at hstart
      · rename_i hb
        split at hstart
        · cases hstart
        · cases hstart
          exact ⟨rfl, rfl, rfl, hb⟩
      · cases hstart
    obtain ⟨hi, hbytes, hrequest, hbuffer⟩ := hfresh
    refine .quiet ⟨?_, hk.returns⟩ ?_ (fun way => ?_) rfl
    · intro u hu
      rw [← Option.some.inj hu]
      exact ⟨hi.ge, fun _ => hrequest ▸ hbuffer⟩
    · unfold Client.requests
      rw [ht, htodo]
      simp [hrequest]
    · rw [moved_task rfl, moved_none ht]
      dsimp only
      rw [hbytes, firstBytes_zero]
      simp

/-- What each step keeps: the pipe is a queue, and what went through it is made of what each
process moved. -/
structure Streams (ps : Finset Pcb) (x : Nat) (ids : Gate → Int) (m : Users H) : Prop where
  flow : Flow ps x ids m
  keeps : ∀ p, (m.locals p).Keeps
  parts : ∀ way, Interleaves (fun p => (m.locals p).moved way) (m.shared.past.log way)

variable [MemoryManager H]

theorem streams_next (hn : Serves H NODE_SIZE) (hm : Serves H PID_SIZE)
    (hids : Function.Injective ids) (hx : x < MAX_PIPES) (m : Users H) (e : Event)
    (h : Streams ps x ids m) (hok : Allows clients (ownCall ids) (otherCall ids) m e) :
    Streams ps x ids (next clients m e) ∧
      ∀ p, ((next clients m e).locals p).requests = (m.locals p).requests := by
  have hflow := flow_next hn hm hids hx m e h.flow hok
  cases e with
  | other c => exact ⟨⟨hflow, h.keeps, h.parts⟩, fun _ => rfl⟩
  | run rsp =>
    cases hcur : m.system.scheduler.currentProcess with
    | none =>
      have hsame : next clients m (.run rsp) = m := by simp only [next, hcur]
      rw [hsame]
      exact ⟨h, fun _ => rfl⟩
    | some p =>
      have hcarries : Carries (m.locals p) m.shared
          (clients m.system p (m.locals p) m.shared rsp).2.1
          (clients m.system p (m.locals p) m.shared rsp).2.2 := by
        cases ht : (m.locals p).task with
        | some t => exact carries_task h.flow hcur ht (h.keeps p) rsp
        | none => exact carries_start h.flow hx hcur ht (h.keeps p) rsp
      have hnext : next clients m (.run rsp) =
          ⟨run step m.system (clients m.system p (m.locals p) m.shared rsp).1,
            Function.update m.locals p (clients m.system p (m.locals p) m.shared rsp).2.1,
            (clients m.system p (m.locals p) m.shared rsp).2.2⟩ := by
        simp only [next, hcur]
      rw [hnext] at hflow ⊢
      generalize clients m.system p (m.locals p) m.shared rsp = r at hflow hcarries ⊢
      obtain ⟨byte, hbytes⟩ := hcarries.bytes
      refine ⟨⟨hflow, fun q => ?_, fun way => ?_⟩, fun q => ?_⟩ <;> dsimp only
      · by_cases hq : q = p
        · rw [hq, Function.update_self]
          exact hcarries.keeps
        · rw [Function.update_of_ne hq]
          exact h.keeps q
      · obtain ⟨hmoved, hlog⟩ := hbytes way
        rw [hlog]
        apply (h.parts way).grow (i := p)
        · rw [Function.update_self]
          exact hmoved
        · intro q hq
          rw [Function.update_of_ne hq]
      · by_cases hq : q = p
        · rw [hq, Function.update_self]
          exact hcarries.requests
        · rw [Function.update_of_ne hq]

theorem streams_run (hn : Serves H NODE_SIZE) (hm : Serves H PID_SIZE)
    (hids : Function.Injective ids) (hx : x < MAX_PIPES) {m : Users H} {es : List Event}
    (h : Streams ps x ids m)
    (hok : Meets (next clients) (Allows clients (ownCall ids) (otherCall ids)) m es) :
    Streams ps x ids (run (next clients) m es) ∧
      ∀ p, ((run (next clients) m es).locals p).requests = (m.locals p).requests := by
  induction es generalizing m with
  | nil => exact ⟨h, fun _ => rfl⟩
  | cons e es ih =>
    obtain ⟨hnext, hrequests⟩ := streams_next hn hm hids hx m e h hok.1
    obtain ⟨hrun, hrest⟩ := ih hnext hok.2
    exact ⟨hrun, fun p => (hrest p).trans (hrequests p)⟩

end Steps

/-! ## Every interleaving -/

/-- Nothing moved yet. -/
theorem Flow.streams {ps : Finset Pcb} {x : Nat} {ids : Gate → Int} {m : Users H} {fd : Int}
    (h : Flow ps x ids m) (hr : Ready ps fd m) : Streams ps x ids m := by
  have hempty : ∀ p way, (m.locals p).moved way = [] := by
    intro p way
    rw [moved_none (hr.task p), hr.returns p]
    rfl
  have hkeeps : ∀ p, (m.locals p).Keeps := by
    intro p
    refine ⟨fun t ht => ?_, fun r hret => ?_⟩
    · rw [hr.task p] at ht
      cases ht
    · rw [hr.returns p] at hret
      cases hret
  refine ⟨h, hkeeps, fun way => ?_⟩
  have hlog : m.shared.past.log way = [] := by
    rw [hr.past]
    cases way <;> rfl
  rw [hlog]
  exact .nil fun p => hempty p way

/-- The pipe is a queue of the bytes in the buffers of its users: what was written to it is made of
what each one passed, and what it delivered of what each one got, in the order of its calls. -/
structure Delivers (ps : Finset Pcb) (x : Nat) (m : Users H) : Prop extends Fifo ps x m where
  passed : Interleaves (fun p => (m.locals p).moved .write) m.shared.past.written
  got : Interleaves (fun p => (m.locals p).moved .read) m.shared.past.delivered
  given : ∀ p, (m.locals p).Keeps

theorem Streams.delivers {ps : Finset Pcb} {x : Nat} {ids : Gate → Int} {m : Users H}
    (h : Streams ps x ids m) : Delivers ps x m :=
  ⟨h.flow.fifo, h.parts .write, h.parts .read, h.keeps⟩

/-- For every number of readers and writers, and however they take turns, a pipe hands on the bytes
that are written to it, each once and in their order. -/
theorem a_pipe_is_a_queue_for_every_interleaving [MemoryManager H] (hn : Serves H NODE_SIZE)
    (hm : Serves H PID_SIZE) {fd : Int} {m : Users H} {ps : Finset Pcb}
    (h : FreshPipe fd m.system m.shared.manager) (hr : Ready ps fd m) {x : Nat}
    (hx : x = (fd - 3).toNat) (es : List Event)
    (hok : Meets (next clients) (Allows clients (ownCall (Users.pipe m x).sem)
      (otherCall (Users.pipe m x).sem)) m es) : Delivers ps x (run (next clients) m es) := by
  obtain ⟨x', ids, hfd, hmax, hids, hsem, hflow⟩ := h.flow hn hr
  obtain rfl : x = x' := by omega
  rw [← hsem] at hok
  exact (streams_run hn hm hids hmax (hflow.streams hr) hok).1.delivers

/-- The reader comes first and blocks. -/
theorem a_pipe_is_a_queue_when_the_reader_is_first :
    Delivers {2, 3} 0 (run (next clients) readerAndWriter readerFirst) ∧
      ((run (next clients) readerAndWriter readerFirst).locals 2).moved .read = [7, 8] :=
  ⟨a_pipe_is_a_queue_for_every_interleaving (endless_serves _) (endless_serves _) freshPipe_first
    ready_readerAndWriter (by decide) readerFirst (by decide +kernel), by decide +kernel⟩

/-- What the readers have in their buffers and in the ring is what the writers passed: each process
has moved its bytes in its order, and its calls are those that it wanted. -/
structure Hands (x : Nat) (before m : Users H) : Prop where
  bytes : ∃ sent got : List UInt8,
    Interleaves (fun p => (m.locals p).moved .write) sent ∧
    Interleaves (fun p => (m.locals p).moved .read) got ∧
    sent = got ++ (Users.pipe m x).contents
  /-- One reader has what one writer passed, but for what is in the ring. -/
  alone : ∀ p q, (∀ r, r ≠ p → (m.locals r).moved .write = []) →
    (∀ r, r ≠ q → (m.locals r).moved .read = []) →
    (m.locals p).moved .write = (m.locals q).moved .read ++ (Users.pipe m x).contents
  requests : ∀ p, (m.locals p).requests = (before.locals p).todo
  given : ∀ p, (m.locals p).Keeps

/-- For every number of readers and writers, calls of every size, and every interleaving. -/
theorem a_pipe_hands_on_what_is_written [MemoryManager H] (hn : Serves H NODE_SIZE)
    (hm : Serves H PID_SIZE) {fd : Int} {m : Users H} {ps : Finset Pcb}
    (h : FreshPipe fd m.system m.shared.manager) (hr : Ready ps fd m) {x : Nat}
    (hx : x = (fd - 3).toNat) (es : List Event)
    (hok : Meets (next clients) (Allows clients (ownCall (Users.pipe m x).sem)
      (otherCall (Users.pipe m x).sem)) m es) : Hands x m (run (next clients) m es) := by
  obtain ⟨x', ids, hfd, hmax, hids, hsem, hflow⟩ := h.flow hn hr
  obtain rfl : x = x' := by omega
  rw [← hsem] at hok
  have hstart := hflow.streams hr
  obtain ⟨hrun, hrequests⟩ := streams_run hn hm hids hmax hstart hok
  have hbytes := hrun.flow.pipe.bytes
  have hsent := hrun.parts .write
  have hgot := hrun.parts .read
  refine ⟨⟨_, _, hsent, hgot, hbytes⟩, fun p q hp hq => ?_, fun p => ?_, hrun.keeps⟩
  · have hwritten := hsent.eq_of_alone hp
    have hdelivered := hgot.eq_of_alone hq
    rw [← hwritten, ← hdelivered]
    exact hbytes
  · rw [hrequests p]
    unfold Client.requests
    rw [hr.task p, hr.returns p]
    rfl

/-- The reader comes first and blocks. -/
theorem a_pipe_hands_on_what_is_written_to_a_reader_that_is_first :
    Hands 0 readerAndWriter (run (next clients) readerAndWriter readerFirst) :=
  a_pipe_hands_on_what_is_written (endless_serves _) (endless_serves _) freshPipe_first
    ready_readerAndWriter (by decide) readerFirst (by decide +kernel)

end bare_bones.pipe_manager
