-- A pipe is a queue of bytes for every interleaving of its readers and writers.
-- The counters of the semaphores lag behind the buffer while processes that
-- were woken did not run yet, so the invariant counts the tokens in flight.
import BareBones.PipePassing

namespace bare_bones.pipe_manager

open bare_bones.doubleLinkedList bare_bones.process bare_bones.scheduler bare_bones.semaphore
open bare_bones.program runs ring_buffer token_semaphore

variable {H : Type}

/-! ## The invariant -/

def Pipe.ring (pipe : Pipe) : RingBuffer UInt8 := ⟨pipe.buffer, pipe.readIdx, pipe.count⟩

/-- The bytes of the pipe, oldest first. -/
def Pipe.contents (pipe : Pipe) : List UInt8 := pipe.ring.contents PIPE_BUFFER_SIZE

/-- An open pipe in order: what was written is what was delivered and what is
still in the ring. -/
structure Pipe.Ok (ids : Gate → Int) (pipe : Pipe) (past : Past) : Prop where
  sem : pipe.sem = ids
  isOpen : pipe.isOpen = true
  writers : pipe.writers ≠ 0
  ring : pipe.ring.Ok PIPE_BUFFER_SIZE
  writeIdx : pipe.writeIdx = pipe.ring.last PIPE_BUFFER_SIZE
  bytes : past.written = past.delivered ++ pipe.contents
  never : past.dropped = 0 ∧ past.retried = 0

/-- What was written to a pipe is what was delivered and what is still in it. -/
structure InOrder (pipe : Pipe) (past : Past) : Prop where
  ring : pipe.ring.Ok PIPE_BUFFER_SIZE
  writeIdx : pipe.writeIdx = pipe.ring.last PIPE_BUFFER_SIZE
  bytes : past.written = past.delivered ++ pipe.contents

/-- A call on the pipe `fd` with a buffer and a positive size. -/
structure Request.Proper (fd : Int) (r : Request) : Prop where
  pipe_id : r.pipe_id = fd
  buffer : r.buffer.isSome
  size : 0 < r.size

structure Task.Ok (fd : Int) (x : Nat) (t : Task) : Prop where
  proper : t.request.Proper fd
  pipe : t.pipe = x
  bytes : t.bytes = t.i
  le : t.i ≤ t.request.size
  lt : t.stage ≠ .loop → t.i < t.request.size

structure Client.Ok (fd : Int) (x : Nat) (c : Client) : Prop where
  todo : ∀ r ∈ c.todo, r.Proper fd
  task : ∀ t ∈ c.task, t.Ok fd x
  returns : ∀ r ∈ c.returns, r.result = r.request.size

abbrev Users (H : Type) := Machine H Client Shared

def Users.pipe (m : Users H) (x : Nat) : Pipe := m.shared.manager.pipes x

structure Flow (ps : Finset Pcb) (x : Nat) (ids : Gate → Int) (m : Users H) : Prop where
  gates : Gates ids m.system
  pipe : (Users.pipe m x).Ok ids m.shared.past
  flight : ∀ g, InFlight (m.system.tokens (ids g)) (∑ p ∈ ps, (m.locals p).past g)
    ((Users.pipe m x).tokens g)
  blocked : ∀ g, ∀ p ∈ m.system.blockedOn (ids g), ∃ t ∈ (m.locals p).task, t.waits g
  clients : ∀ p, (m.locals p).Ok ((x : Int) + 3) x
  idle : ∀ p, p ∉ ps → (m.locals p).todo = [] ∧ (m.locals p).task = none

/-! ## The bytes of a slot -/

theorem InOrder.take {pipe : Pipe} {past : Past} (h : InOrder pipe past) (hpos : 0 < pipe.count) :
    InOrder { pipe with readIdx := (pipe.readIdx + 1) % PIPE_BUFFER_SIZE, count := pipe.count - 1 }
      { past with delivered := past.delivered ++ [pipe.buffer pipe.readIdx] } := by
  refine ⟨RingBuffer.ok_drop h.ring, ?_, ?_⟩
  · exact h.writeIdx.trans (RingBuffer.last_drop (r := pipe.ring) hpos).symm
  · have hcontents := RingBuffer.contents_drop h.ring hpos
    dsimp only
    rw [h.bytes, Pipe.contents, hcontents, List.append_assoc]
    rfl

theorem InOrder.put {pipe : Pipe} {past : Past} (h : InOrder pipe past)
    (hlt : pipe.count < PIPE_BUFFER_SIZE) (byte : UInt8) :
    InOrder { pipe with
        buffer := Function.update pipe.buffer pipe.writeIdx byte
        writeIdx := (pipe.writeIdx + 1) % PIPE_BUFFER_SIZE
        count := pipe.count + 1 }
      { past with written := past.written ++ [byte] } := by
  have hring : pipe.ring.put PIPE_BUFFER_SIZE byte =
      ⟨Function.update pipe.buffer pipe.writeIdx byte, pipe.readIdx, pipe.count + 1⟩ := by
    rw [h.writeIdx]
    rfl
  refine ⟨?_, ?_, ?_⟩
  · rw [Pipe.ring, ← hring]
    exact RingBuffer.ok_put h.ring hlt byte
  · rw [Pipe.ring, ← hring, RingBuffer.last_put, ← h.writeIdx]
  · have hcontents := RingBuffer.contents_put (n := PIPE_BUFFER_SIZE) (r := pipe.ring) hlt byte
    rw [Pipe.contents, Pipe.ring, ← hring, hcontents]
    dsimp only
    rw [h.bytes, List.append_assoc]
    rfl

theorem Pipe.Ok.inOrder {ids : Gate → Int} {pipe : Pipe} {past : Past} (h : pipe.Ok ids past) :
    InOrder pipe past := ⟨h.ring, h.writeIdx, h.bytes⟩

/-! ## The moves of a call -/

section Moves

variable {t : Task} {g : Shared} {rsp : Addr}

theorem move_loop (hstage : t.stage = .loop) (hi : t.i < t.request.size) :
    t.move g rsp = ⟨[.sem_wait ((g.manager.pipes t.pipe).sem t.request.way.gate) rsp],
      g.manager.pipes t.pipe, g.past, { t with stage := .mutex }, none⟩ := by
  unfold Task.move
  cases hw : t.request.way <;> simp only [readPipe, writePipe, hstage, if_pos hi] <;> rfl

theorem move_done (hstage : t.stage = .loop) (hi : ¬ t.i < t.request.size) :
    t.move g rsp = ⟨[], g.manager.pipes t.pipe, g.past, t, some t.bytes⟩ := by
  unfold Task.move
  cases hw : t.request.way <;> simp only [readPipe, writePipe, hstage, if_neg hi]

theorem move_mutex (hstage : t.stage = .mutex) :
    t.move g rsp = ⟨[.sem_wait ((g.manager.pipes t.pipe).sem .mutex) rsp],
      g.manager.pipes t.pipe, g.past, { t with stage := .critical }, none⟩ := by
  unfold Task.move
  cases hw : t.request.way <;> simp only [readPipe, writePipe, hstage] <;> rfl

theorem read_critical {ids : Gate → Int} {pipe : Pipe} {past : Past} (hok : pipe.Ok ids past)
    (hstage : t.stage = .critical) (hpos : 0 < pipe.count) :
    ∃ pipe' past' buffer', readPipe pipe past t rsp =
        ⟨[.sem_post pipe.mutex, .sem_post pipe.semWriters], pipe', past',
          { t with stage := .loop, i := t.i + 1, bytes := t.bytes + 1, buffer := buffer' }, none⟩ ∧
      pipe'.Ok ids past' ∧ pipe'.count + 1 = pipe.count := by
  have hne : ¬ (pipe.count = 0 ∧ pipe.writers = 0) := fun he => hok.writers he.2
  refine ⟨{ pipe with
      readIdx := (pipe.readIdx + 1) % PIPE_BUFFER_SIZE, count := pipe.count - 1 },
    { past with delivered := past.delivered ++ [pipe.buffer pipe.readIdx] },
    Function.update t.buffer t.i.toNat (pipe.buffer pipe.readIdx), ?_, ?_, ?_⟩
  · simp only [readPipe, hstage]
    rw [if_neg hne, if_pos hpos, if_neg (fun he => hok.writers he.1)]
  · have htake := hok.inOrder.take hpos
    refine ⟨?_, hok.isOpen, hok.writers, htake.ring, htake.writeIdx, htake.bytes, hok.never⟩
    rw [← hok.sem]
    funext gate
    cases gate <;> rfl
  · exact Nat.succ_pred_eq_of_pos hpos

theorem write_critical {ids : Gate → Int} {pipe : Pipe} {past : Past} (hok : pipe.Ok ids past)
    (hstage : t.stage = .critical) (hlt : pipe.count < PIPE_BUFFER_SIZE) :
    ∃ pipe' past' buffer', writePipe pipe past t rsp =
        ⟨[.sem_post pipe.mutex, .sem_post pipe.semReaders], pipe', past',
          { t with stage := .loop, i := t.i + 1, bytes := t.bytes + 1, buffer := buffer' }, none⟩ ∧
      pipe'.Ok ids past' ∧ pipe'.count = pipe.count + 1 := by
  refine ⟨{ pipe with
      buffer := Function.update pipe.buffer pipe.writeIdx (t.buffer t.i.toNat)
      writeIdx := (pipe.writeIdx + 1) % PIPE_BUFFER_SIZE
      count := pipe.count + 1 },
    { past with written := past.written ++ [t.buffer t.i.toNat] }, t.buffer, ?_, ?_, rfl⟩
  · simp only [writePipe, hstage]
    rw [if_pos hlt]
  · have hput := hok.inOrder.put hlt (t.buffer t.i.toNat)
    refine ⟨?_, hok.isOpen, hok.writers, hput.ring, hput.writeIdx, hput.bytes, hok.never⟩
    rw [← hok.sem]
    funext gate
    cases gate <;> rfl

/-- The critical section of a call that has a token moves one byte. -/
theorem move_critical {ids : Gate → Int} (rsp : Addr) (hok : (g.manager.pipes t.pipe).Ok ids g.past)
    (hstage : t.stage = .critical) (hpos : 0 < (g.manager.pipes t.pipe).tokens t.request.way.gate) :
    ∃ pipe' past' buffer', t.move g rsp =
        ⟨[.sem_post (ids .mutex), .sem_post (ids t.request.way.posts)], pipe', past',
          { t with stage := .loop, i := t.i + 1, bytes := t.bytes + 1, buffer := buffer' }, none⟩ ∧
      pipe'.Ok ids past' ∧
      pipe'.tokens t.request.way.gate + 1 =
        (g.manager.pipes t.pipe).tokens t.request.way.gate ∧
      pipe'.tokens t.request.way.posts =
        (g.manager.pipes t.pipe).tokens t.request.way.posts + 1 := by
  unfold Task.move
  have hsem := hok.sem
  have hcount := hok.ring.count
  cases hw : t.request.way with
  | read =>
    rw [hw] at hpos
    obtain ⟨pipe', past', buffer', hm, hok', hc⟩ := read_critical hok hstage hpos
    refine ⟨pipe', past', buffer', by rw [← hsem]; exact hm, hok', hc, ?_⟩
    simp only [Way.posts, Pipe.tokens]
    simp only [Pipe.ring] at hcount
    omega
  | write =>
    rw [hw] at hpos
    obtain ⟨pipe', past', buffer', hm, hok', hc⟩ :=
      write_critical hok hstage (Nat.lt_of_sub_pos hpos)
    refine ⟨pipe', past', buffer', by rw [← hsem]; exact hm, hok', ?_, hc⟩
    simp only [Way.gate, Pipe.tokens] at hpos ⊢
    omega

end Moves

/-! ## Counting those past a gate -/

section Count

variable {ps : Finset Pcb} {x : Nat} {ids : Gate → Int} {m : Users H}

theorem Flow.mem (h : Flow ps x ids m) {p : Pcb} {t : Task} (ht : (m.locals p).task = some t) :
    p ∈ ps := by
  by_contra hp
  rw [(h.idle p hp).2] at ht
  cases ht

theorem past_le_one (g : Gate) (c : Client) : c.past g ≤ 1 := by
  unfold Client.past
  split
  · exact Nat.zero_le 1
  · exact Bool.toNat_le _

theorem Flow.passing (h : Flow ps x ids m) :
    Passing ps ids m.system (fun p g => (m.locals p).past g) (Users.pipe m x).tokens := by
  refine ⟨h.gates, h.flight, fun g p hb => ?_, fun p g => past_le_one g (m.locals p)⟩
  obtain ⟨t, ht, hw⟩ := h.blocked g p hb
  exact ⟨h.mem ht, (Client.past_of ht g).trans (congrArg Bool.toNat hw.past)⟩

theorem tokens_le (pipe : Pipe) (hring : pipe.ring.Ok PIPE_BUFFER_SIZE) (g : Gate) :
    pipe.tokens g ≤ PIPE_BUFFER_SIZE := by
  cases g with
  | readers => exact hring.count
  | writers => exact Nat.sub_le _ _
  | mutex => exact (by decide : 1 ≤ PIPE_BUFFER_SIZE)

end Count

/-! ## The steps -/

section Steps

variable {ps : Finset Pcb} {x : Nat} {ids : Gate → Int} {m : Users H} {p : Pcb}

/-- One process moves on: what to check of it, of the gates and of the pipe. -/
theorem flow_set (h : Flow ps x ids m) (hp : p ∈ ps) {s' : System H} {c' : Client} {g' : Shared}
    {past' : Pcb → Gate → Nat} (hpassing : Passing ps ids s' past' (g'.manager.pipes x).tokens)
    (hself : ∀ g, past' p g = c'.past g) (hother : ∀ q ≠ p, ∀ g, past' q g = (m.locals q).past g)
    (hpipe : (g'.manager.pipes x).Ok ids g'.past)
    (hblocked : ∀ g, ∀ q ∈ s'.blockedOn (ids g),
      (q ≠ p ∧ q ∈ m.system.blockedOn (ids g)) ∨ (q = p ∧ ∃ t ∈ c'.task, t.waits g))
    (hclient : c'.Ok ((x : Int) + 3) x) :
    Flow ps x ids ⟨s', Function.update m.locals p c', g'⟩ := by
  have hpast : ∀ q g, (Function.update m.locals p c' q).past g = past' q g := fun q g => by
    by_cases hq : q = p
    · rw [hq, Function.update_self, hself]
    · rw [Function.update_of_ne hq, hother q hq]
  refine ⟨hpassing.gates, hpipe, (hpassing.congr hpast fun _ => rfl).flight, fun g q hq => ?_,
    fun q => ?_, fun q hq => ?_⟩ <;> dsimp only
  · rcases hblocked g q hq with ⟨hqp, hb⟩ | ⟨rfl, ht⟩
    · rw [Function.update_of_ne hqp]
      exact h.blocked g q hb
    · rw [Function.update_self]
      exact ht
  · by_cases hq : q = p
    · rw [hq, Function.update_self]
      exact hclient
    · rw [Function.update_of_ne hq]
      exact h.clients q
  · rw [Function.update_of_ne fun he : q = p => hq (he ▸ hp)]
    exact h.idle q hq

/-- A step without a call. -/
theorem flow_quiet (h : Flow ps x ids m) (hp : p ∈ ps)
    (hcur : m.system.scheduler.currentProcess = some p) {c' : Client} {g' : Shared}
    (hshared : g' = m.shared) (hpast : ∀ g, c'.past g = (m.locals p).past g)
    (hclient : c'.Ok ((x : Int) + 3) x) :
    Flow ps x ids ⟨m.system, Function.update m.locals p c', g'⟩ := by
  subst hshared
  refine flow_set h hp h.passing (fun g => (hpast g).symm) (fun _ _ _ => rfl) h.pipe
    (fun g q hq => Or.inl ⟨?_, hq⟩) hclient
  rintro rfl
  exact h.passing.not_blocked hcur g hq

variable [MemoryManager H]

/-- A step that waits at a gate. -/
theorem flow_wait (hn : Serves H NODE_SIZE) (hm : Serves H PID_SIZE)
    (hids : Function.Injective ids) (h : Flow ps x ids m)
    (hcur : m.system.scheduler.currentProcess = some p) {c' : Client} {g' : Shared}
    {t u : Task} {g : Gate} {rsp : Addr} (ht : (m.locals p).task = some t)
    (hok : ownCall ids m.system (.sem_wait (ids g) rsp)) (hshared : g' = m.shared)
    (hu : c'.task = some u) (hwaits : u.waits g)
    (hpast : ∀ g', (u.past g').toNat = (t.past g').toNat + if g' = g then 1 else 0)
    (hclient : c'.Ok ((x : Int) + 3) x) :
    Flow ps x ids ⟨step m.system (.sem_wait (ids g) rsp), Function.update m.locals p c', g'⟩ := by
  subst hshared
  have hnew : ∀ g', c'.past g' = (m.locals p).past g' + if g' = g then 1 else 0 := fun g' => by
    rw [Client.past_of hu, Client.past_of ht]
    exact hpast g'
  have hone : c'.past g = 1 := (Client.past_of hu g).trans (congrArg Bool.toNat hwaits.past)
  have hzero : (m.locals p).past g = 0 := by
    have hadd := hnew g
    rw [if_pos rfl, hone] at hadd
    omega
  refine flow_set h (h.mem ht) (h.passing.wait hn hm hids (h.mem ht) hcur hzero hok)
    (fun g' => ?_) (fun q hq g' => congrFun (setPast_pcb hq) g') h.pipe (fun g' q hq => ?_) hclient
  · by_cases hg : g' = g
    · rw [hg, setPast_self, hone]
    · rw [setPast_gate hg, hnew, if_neg hg, Nat.add_zero]
  · rcases blockedOn_wait hn hm hids h.gates hcur hok hq with hb | ⟨rfl, rfl⟩
    · exact Or.inl ⟨fun he => h.passing.not_blocked hcur g' (he ▸ hb), hb⟩
    · exact Or.inr ⟨rfl, u, hu, hwaits⟩

/-- A step that moves a byte, and posts at the mutex and at the other gate. -/
theorem flow_pass (hn : Serves H NODE_SIZE) (hids : Function.Injective ids)
    (h : Flow ps x ids m) (hcur : m.system.scheduler.currentProcess = some p)
    {c' : Client} {g' : Shared} {t u : Task} (ht : (m.locals p).task = some t)
    (hstage : t.stage = .critical)
    (hok : Meets step (ownCall ids) m.system
      [.sem_post (ids .mutex), .sem_post (ids t.request.way.posts)])
    (hpipe : (g'.manager.pipes x).Ok ids g'.past)
    (htaken : (g'.manager.pipes x).tokens t.request.way.gate + 1 =
      (Users.pipe m x).tokens t.request.way.gate)
    (hgiven : (g'.manager.pipes x).tokens t.request.way.posts =
      (Users.pipe m x).tokens t.request.way.posts + 1)
    (hu : c'.task = some u) (hloop : u.stage = .loop)
    (hclient : c'.Ok ((x : Int) + 3) x) :
    Flow ps x ids ⟨run step m.system [.sem_post (ids .mutex), .sem_post (ids t.request.way.posts)],
      Function.update m.locals p c', g'⟩ := by
  have hp := h.mem ht
  obtain ⟨hgate, hmutex, hposts⟩ := Task.past_critical hstage
  have hnew : ∀ g, c'.past g = 0 := fun g => by
    rw [Client.past_of hu, Task.past_loop hloop]
    rfl
  have hgate' : (m.locals p).past t.request.way.gate = 1 := by
    rw [Client.past_of ht, hgate]
    rfl
  have hmutex' : (m.locals p).past .mutex = 1 := by
    rw [Client.past_of ht, hmutex]
    rfl
  have hposts' : (m.locals p).past t.request.way.posts = 0 := by
    rw [Client.past_of ht, hposts]
    rfl
  have hroom : (Users.pipe m x).tokens t.request.way.posts + 1 < 2 ^ 32 := by
    have hle := tokens_le _ h.pipe.ring t.request.way.posts
    unfold PIPE_BUFFER_SIZE at hle
    omega
  obtain ⟨hpassing, hblocked⟩ := h.passing.move hn hids hp hcur hgate' hmutex' rfl hok hroom
  refine flow_set h hp (hpassing.congr (fun _ _ => rfl) fun g => ?_)
    (fun g => (Passing.moved hposts' g).trans (hnew g).symm) (fun q hq g => ?_) hpipe
    (fun g q hq => Or.inl ⟨fun he => ?_, hblocked g q hq⟩) hclient
  · rw [← hgiven]
    cases hw : t.request.way <;> rw [hw] at htaken <;> cases g <;>
      simp [Way.gate, Way.posts, Pipe.tokens] at htaken ⊢ <;> omega
  · rw [setPast_pcb hq, setPast_pcb hq]
  · exact h.passing.not_blocked hcur g (he ▸ hblocked g q hq)

theorem validate_open {mgr : PipeManager} (hx : x < MAX_PIPES)
    (hopen : (mgr.pipes x).isOpen = true) : validatePipeId mgr ((x : Int) + 3) = some x := by
  have hindex : ((x : Int) + 3 - 3).toNat = x := by omega
  unfold validatePipeId
  rw [if_neg (by omega), if_neg (by omega)]
  dsimp only
  rw [hindex, hopen]
  rfl

theorem setPipe_self (mgr : PipeManager) : mgr.setPipe x (mgr.pipes x) = mgr := by
  rw [PipeManager.setPipe, Function.update_eq_self]

omit [MemoryManager H] in
/-- A process starts its next call. -/
theorem flow_start (h : Flow ps x ids m) (hx : x < MAX_PIPES)
    (hcur : m.system.scheduler.currentProcess = some p) (ht : (m.locals p).task = none)
    {r : Request} {todo : List Request} (htodo : (m.locals p).todo = r :: todo) :
    ∃ t, r.start m.shared.manager = some t ∧
      Flow ps x ids ⟨m.system, Function.update m.locals p ⟨todo, some t, (m.locals p).returns⟩,
        m.shared⟩ := by
  have hp : p ∈ ps := by
    by_contra hp
    rw [(h.idle p hp).1] at htodo
    cases htodo
  have hclient := h.clients p
  have hproper := hclient.todo r (by rw [htodo]; exact List.mem_cons_self)
  obtain ⟨buffer, hbuffer⟩ := Option.isSome_iff_exists.mp hproper.buffer
  refine ⟨⟨r, x, .loop, 0, 0, buffer⟩, ?_, ?_⟩
  · unfold Request.start
    rw [hproper.pipe_id, validate_open hx h.pipe.isOpen, hbuffer]
    exact if_neg (by have := hproper.size; omega)
  · refine flow_quiet h hp hcur rfl (fun g => ?_) ⟨?_, ?_, hclient.returns⟩
    · rw [Client.past, Client.past, ht]
      cases g <;> simp [Task.past]
    · exact fun r' hr' => hclient.todo r' (by rw [htodo]; exact List.mem_cons_of_mem r hr')
    · intro t ht
      rw [← Option.some.inj ht]
      exact ⟨hproper, rfl, rfl, Int.le_of_lt hproper.size, fun hne => absurd rfl hne⟩

/-- A process takes the next move of its call. -/
theorem flow_task (hn : Serves H NODE_SIZE) (hm : Serves H PID_SIZE)
    (hids : Function.Injective ids) (h : Flow ps x ids m)
    (hcur : m.system.scheduler.currentProcess = some p) {t : Task}
    (ht : (m.locals p).task = some t) {rsp : Addr}
    (hok : Meets step (ownCall ids) m.system
      (clients m.system p (m.locals p) m.shared rsp).1) :
    Flow ps x ids ⟨run step m.system (clients m.system p (m.locals p) m.shared rsp).1,
      Function.update m.locals p (clients m.system p (m.locals p) m.shared rsp).2.1,
      (clients m.system p (m.locals p) m.shared rsp).2.2⟩ := by
  have hclient := h.clients p
  have htask := hclient.task t ht
  have hpipe : (m.shared.manager.pipes t.pipe).Ok ids m.shared.past := by
    rw [htask.pipe]
    exact h.pipe
  have hsame : (⟨m.shared.manager.setPipe t.pipe (m.shared.manager.pipes t.pipe),
      m.shared.past⟩ : Shared) = m.shared := by rw [setPipe_self]
  cases hstage : t.stage with
  | loop =>
    by_cases hi : t.i < t.request.size
    · simp only [clients, ht, move_loop hstage hi, hpipe.sem] at hok ⊢
      refine flow_wait (u := { t with stage := .mutex }) hn hm hids h hcur ht hok.1 hsame rfl ?_
        (fun g => ?_) ⟨hclient.todo, ?_, hclient.returns⟩
      · cases hw : t.request.way <;> simp [Task.waits, Way.gate, hw]
      · cases g <;> cases hw : t.request.way <;> simp [Task.past, Way.gate, hw, hstage]
      · intro t' ht'
        rw [← Option.some.inj ht']
        exact ⟨htask.proper, htask.pipe, htask.bytes, htask.le, fun _ => hi⟩
    · simp only [clients, ht, move_done hstage hi]
      refine flow_quiet h (h.mem ht) hcur hsame (fun g => ?_) ⟨hclient.todo, ?_, ?_⟩
      · rw [Client.past_of ht, Task.past_loop hstage]
        rfl
      · exact fun t' ht' => by cases ht'
      · intro r hr
        rcases List.mem_append.mp hr with hr | hr
        · exact hclient.returns r hr
        · have hbytes := htask.bytes
          have hle := htask.le
          rw [List.mem_singleton.mp hr]
          show t.bytes = t.request.size
          omega
  | mutex =>
    simp only [clients, ht, move_mutex hstage, hpipe.sem] at hok ⊢
    refine flow_wait (u := { t with stage := .critical }) hn hm hids h hcur ht hok.1 hsame rfl rfl
      (fun g => ?_) ⟨hclient.todo, ?_, hclient.returns⟩
    · cases g <;> simp [Task.past, hstage]
    · intro t' ht'
      rw [← Option.some.inj ht']
      exact ⟨htask.proper, htask.pipe, htask.bytes, htask.le,
        fun _ => htask.lt (by rw [hstage]; decide)⟩
  | critical =>
    have hpast : (m.locals p).past t.request.way.gate = 1 := by
      rw [Client.past_of ht, (Task.past_critical hstage).1]
      rfl
    have hpos := h.passing.tokens_pos (h.mem ht) hpast (h.passing.not_blocked hcur _)
    rw [Users.pipe, ← htask.pipe] at hpos
    obtain ⟨pipe', past', buffer', hmove, hpipe', htaken, hgiven⟩ :=
      move_critical rsp hpipe hstage hpos
    rw [htask.pipe] at htaken hgiven
    simp only [clients, ht, hmove] at hok ⊢
    have hnew : (m.shared.manager.setPipe t.pipe pipe').pipes x = pipe' := by
      rw [htask.pipe]
      exact Function.update_self _ _ _
    have hi := htask.lt (by rw [hstage]; decide)
    refine flow_pass (u := { t with
        stage := .loop, i := t.i + 1, bytes := t.bytes + 1, buffer := buffer' })
      hn hids h hcur ht hstage hok ?_ ?_ ?_ rfl rfl ⟨hclient.todo, ?_, hclient.returns⟩
    · dsimp only
      rw [hnew]
      exact hpipe'
    · dsimp only
      rw [hnew]
      exact htaken
    · dsimp only
      rw [hnew]
      exact hgiven
    · intro t' ht'
      rw [← Option.some.inj ht']
      exact ⟨htask.proper, htask.pipe, congrArg (· + 1) htask.bytes, hi,
        fun hne => absurd rfl hne⟩

theorem flow_next (hn : Serves H NODE_SIZE) (hm : Serves H PID_SIZE)
    (hids : Function.Injective ids) (hx : x < MAX_PIPES) (m : Users H) (e : Event)
    (h : Flow ps x ids m) (hok : Allows clients (ownCall ids) (otherCall ids) m e) :
    Flow ps x ids (next clients m e) := by
  cases e with
  | other c =>
    obtain ⟨hgates, htokens⟩ := gates_other hn h.gates hok
    refine ⟨hgates, h.pipe, fun g => ?_, fun g p hp => ?_, h.clients, h.idle⟩
    · rw [next, htokens g]
      exact h.flight g
    · have hqueue : (step m.system c).blockedOn (ids g) = m.system.blockedOn (ids g) :=
        congrArg Tokens.queue (htokens g)
      exact h.blocked g p (hqueue ▸ hp)
  | run rsp =>
    unfold next
    cases hcur : m.system.scheduler.currentProcess with
    | none => exact h
    | some p =>
      dsimp only
      cases ht : (m.locals p).task with
      | some t => exact flow_task hn hm hids h hcur ht (hok p hcur)
      | none =>
        cases htodo : (m.locals p).todo with
        | nil =>
          have hself : clients m.system p (m.locals p) m.shared rsp =
              ([], m.locals p, m.shared) := by
            simp only [clients, ht, htodo]
          rw [hself]
          dsimp only
          rw [Function.update_eq_self]
          exact h
        | cons r todo =>
          obtain ⟨t, hstart, hflow⟩ := flow_start h hx hcur ht htodo
          have hself : clients m.system p (m.locals p) m.shared rsp =
              ([], ⟨todo, some t, (m.locals p).returns⟩, m.shared) := by
            simp only [clients, ht, htodo, hstart]
          rw [hself]
          exact hflow

end Steps

/-! ## A new pipe -/

section New

variable [MemoryManager H]

/-- A semaphore that nobody used since it was created. -/
def Unused (n₀ : Nat) (id : Int) (s : System H) : Prop :=
  Counts n₀ id s ∧ s.tokens id = ⟨n₀, []⟩

theorem unused_created {s : System H} {n₀ : Nat} {id : Int} (h : FreshlyCreated n₀ id s) :
    Unused n₀ id s := by
  refine ⟨h.counts, ?_⟩
  have hcount := h.counts.balanced.count
  obtain ⟨hblocked, hledger⟩ := h.empty
  rw [hledger] at hcount
  have hcounter : (s.sem id).counter = n₀ := hcount
  rw [System.tokens, hblocked, hcounter]

theorem unused_create (hn : Serves H NODE_SIZE) {s : System H} (hs : Sound s) {n₀ v : Nat}
    {id j : Int} (h : Unused n₀ id s) : Unused n₀ id (step s (.sem_create j v)) := by
  have hok : undisturbed id s (.sem_create j v) :=
    ⟨trivial, fun p _ => ⟨by simp [dead], by simp [woken]⟩, trivial⟩
  obtain ⟨htokens, _, hcounts⟩ := counts_other hn hs h.1 hok (by simp) (by simp)
  exact ⟨hcounts, htokens.trans h.2⟩

theorem sem_create_zero {k : Kernel H} {id : Int} {v : Nat}
    (h : ¬ (semaphore.sem_create k id v).1 < 0) : result k (.sem_create id v) = some 0 := by
  have hcases : (semaphore.sem_create k id v).1 = -1 ∨ (semaphore.sem_create k id v).1 = 0 := by
    unfold semaphore.sem_create
    split
    · exact Or.inl rfl
    · split
      · split
        · exact Or.inl rfl
        · exact Or.inr rfl
      · exact Or.inl rfl
  rcases hcases with hc | hc
  · rw [hc] at h
    exact absurd (by decide) h
  · exact congrArg some hc

/-- The three calls of `sem_create` one after the other. -/
theorem createSems_spec {s s' : System H} {pipe : Pipe} (h : createSems s pipe = (true, s')) :
    ∃ s₁ s₂, result s.kernel (.sem_create pipe.semReaders 0) = some 0 ∧
      s₁ = step s (.sem_create pipe.semReaders 0) ∧
      result s₁.kernel (.sem_create pipe.semWriters PIPE_BUFFER_SIZE) = some 0 ∧
      s₂ = step s₁ (.sem_create pipe.semWriters PIPE_BUFFER_SIZE) ∧
      result s₂.kernel (.sem_create pipe.mutex 1) = some 0 ∧
      s' = step s₂ (.sem_create pipe.mutex 1) := by
  unfold createSems at h
  dsimp only at h
  split at h
  · cases h
  split at h
  · cases h
  obtain ⟨hlast, hs'⟩ := Prod.mk.inj h
  refine ⟨_, _, sem_create_zero (by assumption), rfl, sem_create_zero (by assumption), rfl,
    sem_create_zero (of_decide_eq_true hlast), hs'.symm⟩

/-- The semaphores of a pipe are new when `createPipe` made them. -/
theorem unused_sems (hn : Serves H NODE_SIZE) {boot s : System H} {before : List Call}
    {pipe : Pipe} (hb : BootedSystem boot) (hok : Meets step sparesIdle boot before)
    (hids : Function.Injective pipe.sem) (hnew : ∀ g, ∀ c ∈ before, ¬ names (pipe.sem g) c)
    (h : createSems (run step boot before) pipe = (true, s)) :
    Sound s ∧ ∀ g, Unused (capacity g) (pipe.sem g) s := by
  obtain ⟨s₁, s₂, hr₁, hs₁, hr₂, hs₂, hr₃, hs₃⟩ := createSems_spec h
  have hne : ∀ g g', g ≠ g' → pipe.sem g ≠ pipe.sem g' := fun g g' hg he => hg (hids he)
  have hbefore : ∀ {g : Gate} {c : Call} {cs : List Call}, (∀ c ∈ cs, ¬ names (pipe.sem g) c) →
      ¬ names (pipe.sem g) c → ∀ c' ∈ cs ++ [c], ¬ names (pipe.sem g) c' := by
    intro g c cs hcs hc c' hc'
    rcases List.mem_append.mp hc' with hc' | hc'
    · exact hcs c' hc'
    · rw [List.mem_singleton.mp hc']
      exact hc
  -- each semaphore is created when nobody used its id
  have hfresh₁ : FreshlyCreated 0 (pipe.sem .readers) s₁ :=
    ⟨boot, before, hb, hok, hnew .readers, hr₁, hs₁⟩
  have hrun₁ : run step boot (before ++ [.sem_create pipe.semReaders 0]) = s₁ := by
    rw [run_append, hs₁]
    rfl
  have hok₁ : Meets step sparesIdle boot (before ++ [.sem_create pipe.semReaders 0]) :=
    (meets_append ..).mpr ⟨hok, trivial, trivial⟩
  have hnew₁ : ∀ g, g ≠ .readers → ∀ c ∈ before ++ [.sem_create pipe.semReaders 0],
      ¬ names (pipe.sem g) c := fun g hg => hbefore (hnew g) (hne .readers g hg.symm)
  have hfresh₂ : FreshlyCreated PIPE_BUFFER_SIZE (pipe.sem .writers) s₂ :=
    ⟨boot, _, hb, hok₁, hnew₁ .writers (by decide), by rw [hrun₁]; exact hr₂,
      by rw [hrun₁]; exact hs₂⟩
  have hrun₂ : run step boot (before ++ [.sem_create pipe.semReaders 0] ++
      [.sem_create pipe.semWriters PIPE_BUFFER_SIZE]) = s₂ := by
    rw [run_append, hrun₁, hs₂]
    rfl
  have hok₂ : Meets step sparesIdle boot (before ++ [.sem_create pipe.semReaders 0] ++
      [.sem_create pipe.semWriters PIPE_BUFFER_SIZE]) :=
    (meets_append ..).mpr ⟨hok₁, trivial, trivial⟩
  have hfresh₃ : FreshlyCreated 1 (pipe.sem .mutex) s :=
    ⟨boot, _, hb, hok₂, hbefore (hnew₁ .mutex (by decide)) (hne .writers .mutex (by decide)),
      by rw [hrun₂]; exact hr₃, by rw [hrun₂]; exact hs₃⟩
  refine ⟨hfresh₃.sound hn, fun g => ?_⟩
  cases g with
  | readers =>
    have hunused := unused_create (j := pipe.semWriters) (v := PIPE_BUFFER_SIZE) hn
      (hfresh₁.sound hn) (unused_created hfresh₁)
    rw [← hs₂] at hunused
    rw [hs₃]
    exact unused_create hn (hfresh₂.sound hn) hunused
  | writers =>
    rw [hs₃]
    exact unused_create hn (hfresh₂.sound hn) (unused_created hfresh₂)
  | mutex => exact unused_created hfresh₃

/-- A pipe that `createPipe` gave in a reachable state, on semaphores that nobody
used before. -/
def FreshPipe (fd : Int) (s : System H) (mgr : PipeManager) : Prop :=
  ∃ (boot : System H) (before : List Call) (mgr₀ : PipeManager), BootedSystem boot ∧
    Meets step sparesIdle boot before ∧
    (∀ c ∈ before, ∀ k < 3, ¬ names (mgr₀.next_sem_id + k) c) ∧
    createPipe (run step boot before) mgr₀ = (fd, s, mgr) ∧ fd ≠ -1

/-- Before their first step the users have no call open, and all their calls will
be on the pipe. -/
structure Ready (ps : Finset Pcb) (fd : Int) (m : Users H) : Prop where
  past : m.shared.past = .start
  task : ∀ p, (m.locals p).task = none
  returns : ∀ p, (m.locals p).returns = []
  todo : ∀ p, ∀ r ∈ (m.locals p).todo, r.Proper fd
  idle : ∀ p, p ∉ ps → (m.locals p).todo = []

/-- An empty pipe: its semaphores have the values that `createPipe` gave, and nobody waits. -/
structure Pipe.New (ids : Gate → Int) (s : System H) (pipe : Pipe) : Prop where
  gates : Gates ids s
  tokens : ∀ g, s.tokens (ids g) = ⟨capacity g, []⟩
  sem : pipe.sem = ids
  isOpen : pipe.isOpen = true
  writers : pipe.writers ≠ 0
  ring : pipe.ring.Ok PIPE_BUFFER_SIZE
  writeIdx : pipe.writeIdx = pipe.ring.last PIPE_BUFFER_SIZE
  count : pipe.count = 0

theorem FreshPipe.new (hn : Serves H NODE_SIZE) {fd : Int} {s : System H} {mgr : PipeManager}
    (h : FreshPipe fd s mgr) : ∃ x : Nat, fd = (x : Int) + 3 ∧ x < MAX_PIPES ∧
      Function.Injective (mgr.pipes x).sem ∧ (mgr.pipes x).New (mgr.pipes x).sem s := by
  obtain ⟨boot, before, mgr₀, hb, hok, hnew, hcreate, hfd⟩ := h
  unfold createPipe at hcreate
  split at hcreate
  · exact absurd (Prod.mk.inj hcreate).1.symm hfd
  rename_i x hx
  dsimp only at hcreate
  split at hcreate
  · exact absurd (Prod.mk.inj hcreate).1.symm hfd
  rename_i s hsems
  obtain ⟨hfd', rfl, hmgr⟩ := by simpa only [Prod.mk.injEq] using hcreate
  have hpipe : mgr.pipes x = ⟨fun _ => 0, 0, 0, 0, mgr₀.next_sem_id, mgr₀.next_sem_id + 1,
      mgr₀.next_sem_id + 2, 1, 1, true⟩ := by
    rw [← hmgr]
    exact Function.update_self _ _ _
  rw [← hpipe] at hsems
  have hids : Function.Injective (mgr.pipes x).sem := by
    intro g g' hg
    rw [hpipe] at hg
    cases g <;> cases g' <;> simp [Pipe.sem] at hg ⊢
  have hnames : ∀ g, ∀ c ∈ before, ¬ names ((mgr.pipes x).sem g) c := by
    intro g c hc
    rw [hpipe]
    cases g with
    | readers => exact fun hn => hnew c hc 0 (by decide) (by rw [Int.add_zero]; exact hn)
    | writers => exact hnew c hc 1 (by decide)
    | mutex => exact hnew c hc 2 (by decide)
  obtain ⟨hsound, hunused⟩ := unused_sems hn hb hok hids hnames hsems
  refine ⟨x, hfd'.symm, List.mem_range.mp (List.mem_of_find?_eq_some hx), hids,
    ⟨hsound, fun g => (hunused g).1⟩, fun g => (hunused g).2, rfl, ?_, ?_, ?_, ?_, ?_⟩ <;>
    rw [hpipe]
  · exact Nat.one_ne_zero
  · exact ⟨(by decide : 0 < PIPE_BUFFER_SIZE), Nat.zero_le _⟩
  · rfl

omit [MemoryManager H] in
/-- Whoever uses the pipe next finds it in order. -/
theorem Pipe.New.flow {ids : Gate → Int} {x : Nat} {m : Users H} {ps : Finset Pcb}
    (h : (Users.pipe m x).New ids m.system) (hr : Ready ps ((x : Int) + 3) m) :
    Flow ps x ids m := by
  have hcontents : (Users.pipe m x).contents = [] := by
    rw [Pipe.contents, ← List.length_eq_zero_iff, RingBuffer.length_contents]
    exact h.count
  refine ⟨h.gates, ⟨h.sem, h.isOpen, h.writers, h.ring, h.writeIdx, ?_, ?_⟩, fun g => ?_,
    fun g p hp => ?_, fun p => ⟨hr.todo p, fun t ht => ?_, fun r hret => ?_⟩,
    fun p hp => ⟨hr.idle p hp, hr.task p⟩⟩
  · rw [hr.past, hcontents]
    rfl
  · rw [hr.past]
    exact ⟨rfl, rfl⟩
  · have hzero : ∑ p ∈ ps, (m.locals p).past g = 0 :=
      Finset.sum_eq_zero fun p _ => by rw [Client.past, hr.task p]
    rw [hzero, h.tokens g, Pipe.tokens.eq_def, h.count]
    cases g <;> rfl
  · have hqueue : m.system.blockedOn (ids g) = [] := congrArg Tokens.queue (h.tokens g)
    rw [hqueue] at hp
    cases hp
  · rw [hr.task p] at ht
    cases ht
  · rw [hr.returns p] at hret
    cases hret

theorem FreshPipe.flow (hn : Serves H NODE_SIZE) {fd : Int} {m : Users H} {ps : Finset Pcb}
    (h : FreshPipe fd m.system m.shared.manager) (hr : Ready ps fd m) :
    ∃ (x : Nat) (ids : Gate → Int), fd = (x : Int) + 3 ∧ x < MAX_PIPES ∧ Function.Injective ids ∧
      ids = (Users.pipe m x).sem ∧ Flow ps x ids m := by
  obtain ⟨x, rfl, hx, hids, hnew⟩ := h.new hn
  exact ⟨x, (Users.pipe m x).sem, rfl, hx, hids, rfl, Pipe.New.flow hnew hr⟩

end New

/-! ## Every interleaving -/

/-- Who waited at a gate and was granted, and did not use the token yet. -/
def granted (ps : Finset Pcb) (x : Nat) (m : Users H) (g : Gate) : Finset Pcb :=
  ps.filter (fun p => (m.locals p).past g = 1 ∧
    p ∉ m.system.blockedOn ((Users.pipe m x).sem g))

/-- The pipe `x` is a queue of bytes, and its semaphores count its bytes and its
free cells. -/
structure Fifo (ps : Finset Pcb) (x : Nat) (m : Users H) : Prop where
  count : (Users.pipe m x).count ≤ PIPE_BUFFER_SIZE
  writeIdx : (Users.pipe m x).writeIdx =
    ((Users.pipe m x).readIdx + (Users.pipe m x).count) % PIPE_BUFFER_SIZE
  bytes : m.shared.past.written = m.shared.past.delivered ++ (Users.pipe m x).contents
  delivered : m.shared.past.delivered <+: m.shared.past.written
  readers : (m.system.sem (Users.pipe m x).semReaders).counter + (granted ps x m .readers).card =
    (Users.pipe m x).count
  writers : (m.system.sem (Users.pipe m x).semWriters).counter + (granted ps x m .writers).card +
    (Users.pipe m x).count = PIPE_BUFFER_SIZE
  never : m.shared.past.dropped = 0 ∧ m.shared.past.retried = 0
  returns : ∀ p, ∀ r ∈ (m.locals p).returns, r.result = r.request.size

/-- A token is in the counter, or with a call that was granted it. -/
theorem Flow.counter_add {ps : Finset Pcb} {x : Nat} {ids : Gate → Int} {m : Users H}
    (h : Flow ps x ids m) (g : Gate) : (m.system.sem ((Users.pipe m x).sem g)).counter +
      (granted ps x m g).card = (Users.pipe m x).tokens g := by
  rw [granted, h.pipe.sem]
  exact h.passing.counter_add g

theorem Flow.fifo {ps : Finset Pcb} {x : Nat} {ids : Gate → Int} {m : Users H}
    (h : Flow ps x ids m) : Fifo ps x m := by
  have hcount := h.pipe.ring.count
  refine ⟨hcount, h.pipe.writeIdx, h.pipe.bytes, ⟨_, h.pipe.bytes.symm⟩,
    h.counter_add .readers, ?_,
    h.pipe.never, fun p => (h.clients p).returns⟩
  have hwriters := h.counter_add .writers
  simp only [Pipe.tokens, Pipe.sem] at hwriters
  simp only [Pipe.ring] at hcount
  omega

/-- The first pipe, before any process uses it. -/
def firstPipe : Int × System Endless × PipeManager := createPipe endlessSystem initializePipeManager

/-- One process reads two bytes and one writes two. -/
def readerAndWriter : Users Endless where
  system := firstPipe.2.1
  locals p := if p = 2 then ⟨[⟨.read, 3, some (fun _ => 0), 2⟩], none, []⟩
    else if p = 3 then ⟨[⟨.write, 3, some (fun i => if i = 0 then 7 else 8), 2⟩], none, []⟩
    else ⟨[], none, []⟩
  shared := ⟨firstPipe.2.2, .start⟩

/-- The turns of the other processes. -/
def elsewhere : List Event := [.other (.scheduler (.yield 3)), .other (.scheduler (.yield 4))]

/-- The reader comes first and blocks; the writer wakes it, and it runs when both
bytes are written. -/
def readerFirst : List Event :=
  .other (.scheduler (.createProcess 2 none 0 1 none 0)) :: elsewhere ++
  [.other (.scheduler (.createProcess 5 none 0 1 none 1)),
    .other (.scheduler (.createProcess 6 none 0 1 none 1))] ++ elsewhere ++
  List.replicate 2 (.run 7) ++ List.replicate 8 (.run 8) ++
  .other (.scheduler (.yield 9)) :: elsewhere ++ List.replicate 6 (.run 10)

theorem freshPipe_first : FreshPipe 3 readerAndWriter.system readerAndWriter.shared.manager :=
  ⟨endlessSystem, [], initializePipeManager, booted_endlessSystem, trivial, by simp, rfl,
    by decide⟩

theorem ready_readerAndWriter : Ready {2, 3} 3 readerAndWriter := by
  have hlocals : ∀ p, readerAndWriter.locals p = if p = 2 then
      ⟨[⟨.read, 3, some (fun _ => 0), 2⟩], none, []⟩ else if p = 3 then
      ⟨[⟨.write, 3, some (fun i => if i = 0 then 7 else 8), 2⟩], none, []⟩ else ⟨[], none, []⟩ :=
    fun _ => rfl
  refine ⟨rfl, fun p => ?_, fun p => ?_, fun p r hr => ?_, fun p hp => ?_⟩ <;>
    simp only [hlocals] at *
  · split_ifs <;> rfl
  · split_ifs <;> rfl
  · split_ifs at hr with h2 h3
    · rw [List.mem_singleton.mp hr]
      exact ⟨rfl, rfl, by decide⟩
    · rw [List.mem_singleton.mp hr]
      exact ⟨rfl, rfl, by decide⟩
    · cases hr
  · rw [Finset.mem_insert, Finset.mem_singleton, not_or] at hp
    rw [if_neg hp.1, if_neg hp.2]

end bare_bones.pipe_manager
