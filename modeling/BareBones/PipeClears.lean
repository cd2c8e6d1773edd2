-- `clearPipe` beside the readers and the writers of a pipe. It forgets the bytes, but the
-- tokens of the semaphores that count them stay as they are.
import BareBones.PipeStreams

namespace bare_bones.pipe_manager

open bare_bones.doubleLinkedList bare_bones.process bare_bones.scheduler bare_bones.semaphore
open bare_bones.program runs ring_buffer token_semaphore

variable {H : Type}

/-- What `clearPipe` does after its `sem_wait`: the call it makes, and the pipe after it. -/
def clearPipe (pipe : Pipe) : List Call × Pipe :=
  ([.sem_post pipe.mutex], { pipe with readIdx := 0, writeIdx := 0, count := 0 })

/-! ## The processes that read, write and clear -/

/-- A call that a process still wants to make. -/
inductive Wish
  | io (r : Request)
  | clearPipe (pipe_id : Int)

/-- A call that did not return yet. -/
inductive Doing
  | io (t : Task)
  /-- `clearPipe` after its `sem_wait`, with the index of the pipe. -/
  | clearPipe (pipe : Nat)

structure Caller where
  todo : List Wish
  doing : Option Doing
  returns : List Return
  /-- The results of `clearPipe`. -/
  cleared : List Int

structure Cleared where
  shared : Shared
  /-- How many bytes each `clearPipe` found. No code reads it. -/
  found : List Nat

/-- Any number of processes that read, write and clear. -/
def callers : Program H Caller Cleared := fun _ _ c g rsp =>
  match c.doing with
  | none =>
    match c.todo with
    | [] => ([], c, g)
    | .io r :: todo =>
      match r.start g.shared.manager with
      | none => ([], { c with
          todo, returns := c.returns ++ [⟨r, -1, r.buffer.getD (fun _ => 0)⟩] }, g)
      | some t => ([], { c with todo, doing := some (.io t) }, g)
    | .clearPipe pipe_id :: todo =>
      match validatePipeId g.shared.manager pipe_id with
      | none => ([], { c with todo, cleared := c.cleared ++ [-1] }, g)
      | some x => ([.sem_wait (g.shared.manager.pipes x).mutex rsp],
          { c with todo, doing := some (.clearPipe x) }, g)
  | some (.io t) =>
    let move := t.move g.shared rsp
    let g := { g with shared := ⟨g.shared.manager.setPipe t.pipe move.pipe, move.past⟩ }
    match move.returned with
    | none => (move.calls, { c with doing := some (.io move.task) }, g)
    | some result => (move.calls, { c with
        doing := none, returns := c.returns ++ [⟨t.request, result, move.task.buffer⟩] }, g)
  | some (.clearPipe x) =>
    let pipe := g.shared.manager.pipes x
    ((clearPipe pipe).1, { c with doing := none, cleared := c.cleared ++ [0] },
      ⟨{ g.shared with manager := g.shared.manager.setPipe x (clearPipe pipe).2 },
        g.found ++ [pipe.count]⟩)

abbrev Callers (H : Type) := Machine H Caller Cleared

def Callers.pipe (m : Callers H) (x : Nat) : Pipe := m.shared.shared.manager.pipes x

/-! ## The account of the tokens -/

def Doing.past : Doing → Gate → Nat
  | .io t, g => (t.past g).toNat
  | .clearPipe _, .mutex => 1
  | .clearPipe _, _ => 0

def Caller.past (c : Caller) (g : Gate) : Nat :=
  match c.doing with
  | none => 0
  | some d => d.past g

/-- The tokens of the gates when `clearPipe` took `lost` bytes: they stay with the readers
until a read finds the pipe empty, and never come back to the writers. -/
def level (count lost retried : Nat) : Gate → Nat
  | .readers => count + lost - retried
  | .writers => PIPE_BUFFER_SIZE - (count + lost)
  | .mutex => 1

def Doing.pipe : Doing → Nat
  | .io t => t.pipe
  | .clearPipe x => x

def Wish.Proper (fd : Int) : Wish → Prop
  | .io r => r.Proper fd
  | .clearPipe pipe_id => pipe_id = fd

/-- An open pipe on its semaphores: of its 512 cells those that were lost are not used
again, and each read that found it empty had a token of a lost byte. -/
structure Pipe.On (ids : Gate → Int) (pipe : Pipe) (lost retried : Nat) : Prop where
  sem : pipe.sem = ids
  isOpen : pipe.isOpen = true
  writers : pipe.writers ≠ 0
  room : pipe.count + lost ≤ PIPE_BUFFER_SIZE
  retried : retried ≤ lost

structure Drift (ps : Finset Pcb) (x : Nat) (ids : Gate → Int) (m : Callers H) : Prop where
  passing : Passing ps ids m.system (fun p => (m.locals p).past)
    (level (Callers.pipe m x).count m.shared.found.sum m.shared.shared.past.retried)
  pipe : (Callers.pipe m x).On ids m.shared.found.sum m.shared.shared.past.retried
  todo : ∀ p, ∀ w ∈ (m.locals p).todo, w.Proper ((x : Int) + 3)
  doing : ∀ p, ∀ d ∈ (m.locals p).doing, d.pipe = x
  idle : ∀ p, p ∉ ps → (m.locals p).todo = [] ∧ (m.locals p).doing = none

/-! ## The moves of a read or a write -/

section Moves

variable {t : Task} {g : Shared}

/-- A task with a byte to move: it takes a token of one gate and brings one to the other. -/
theorem move_byte (rsp : Addr) (hw : (g.manager.pipes t.pipe).writers ≠ 0)
    (hstage : t.stage = .critical)
    (hcount : match t.request.way with
      | .read => 0 < (g.manager.pipes t.pipe).count
      | .write => (g.manager.pipes t.pipe).count < PIPE_BUFFER_SIZE) :
    ∃ pipe' past' t', t.move g rsp =
        ⟨[.sem_post ((g.manager.pipes t.pipe).sem .mutex),
          .sem_post ((g.manager.pipes t.pipe).sem t.request.way.posts)], pipe', past', t', none⟩ ∧
      t'.stage = .loop ∧ t'.pipe = t.pipe ∧ past'.retried = g.past.retried ∧
      (pipe'.sem = (g.manager.pipes t.pipe).sem ∧
        pipe'.isOpen = (g.manager.pipes t.pipe).isOpen ∧ pipe'.writers ≠ 0) ∧
      match t.request.way with
      | .read => pipe'.count + 1 = (g.manager.pipes t.pipe).count
      | .write => pipe'.count = (g.manager.pipes t.pipe).count + 1 := by
  unfold Task.move
  cases hway : t.request.way with
  | read =>
    rw [hway] at hcount
    dsimp only at hcount ⊢
    simp only [readPipe, hstage]
    rw [if_neg fun he => hw he.2, if_pos hcount, if_neg fun he => hw he.1]
    refine ⟨_, _, _, rfl, rfl, rfl, rfl, ⟨?_, rfl, hw⟩, Nat.succ_pred_eq_of_pos hcount⟩
    funext gate
    cases gate <;> rfl
  | write =>
    rw [hway] at hcount
    dsimp only at hcount ⊢
    simp only [writePipe, hstage]
    rw [if_pos hcount]
    refine ⟨_, _, _, rfl, rfl, rfl, rfl, ⟨?_, rfl, hw⟩, rfl⟩
    funext gate
    cases gate <;> rfl

/-- A read that finds the pipe empty tries again. -/
theorem move_retry (rsp : Addr) (hw : (g.manager.pipes t.pipe).writers ≠ 0)
    (hstage : t.stage = .critical) (hway : t.request.way = .read)
    (hcount : (g.manager.pipes t.pipe).count = 0) :
    t.move g rsp = ⟨[.sem_post ((g.manager.pipes t.pipe).sem .mutex)], g.manager.pipes t.pipe,
      { g.past with retried := g.past.retried + 1 }, { t with stage := .loop }, none⟩ := by
  unfold Task.move
  rw [hway]
  dsimp only
  simp only [readPipe, hstage]
  rw [if_neg fun he => hw he.2, if_neg (by omega)]
  rfl

end Moves

/-! ## The steps -/

section Steps

variable {ps : Finset Pcb} {x : Nat} {ids : Gate → Int} {m : Callers H} {p : Pcb}

theorem Caller.past_of {c : Caller} {d : Doing} (h : c.doing = some d) : c.past = d.past := by
  funext g
  rw [Caller.past, h]

theorem Caller.past_io {c : Caller} {t : Task} (h : c.doing = some (.io t)) (g : Gate) :
    c.past g = (t.past g).toNat := by
  rw [Caller.past_of h, Doing.past]

theorem Caller.past_none {c : Caller} (h : c.doing = none) (g : Gate) : c.past g = 0 := by
  rw [Caller.past, h]

theorem past_critical {t : Task} (ht : (m.locals p).doing = some (.io t))
    (hstage : t.stage = .critical) : (m.locals p).past t.request.way.gate = 1 ∧
      (m.locals p).past .mutex = 1 ∧ (m.locals p).past t.request.way.posts = 0 := by
  obtain ⟨hgate, hmutex, hposts⟩ := Task.past_critical hstage
  refine ⟨?_, ?_, ?_⟩ <;> rw [Caller.past_io ht]
  · rw [hgate]
    rfl
  · rw [hmutex]
    rfl
  · rw [hposts]
    rfl

theorem Drift.mem (h : Drift ps x ids m) {d : Doing} (hd : (m.locals p).doing = some d) :
    p ∈ ps := by
  by_contra hp
  rw [(h.idle p hp).2] at hd
  cases hd

/-- One process moves on. -/
theorem drift_set (h : Drift ps x ids m) (hp : p ∈ ps) {s' : System H} {c' : Caller} {g' : Cleared}
    {past' : Pcb → Gate → Nat} (hpassing : Passing ps ids s' past'
      (level (g'.shared.manager.pipes x).count g'.found.sum g'.shared.past.retried))
    (hself : ∀ g, past' p g = c'.past g) (hother : ∀ q ≠ p, ∀ g, past' q g = (m.locals q).past g)
    (hpipe : (g'.shared.manager.pipes x).On ids g'.found.sum g'.shared.past.retried)
    (htodo : ∀ w ∈ c'.todo, w.Proper ((x : Int) + 3)) (hdoing : ∀ d ∈ c'.doing, d.pipe = x) :
    Drift ps x ids ⟨s', Function.update m.locals p c', g'⟩ := by
  refine ⟨hpassing.congr (fun q g => ?_) fun _ => rfl, hpipe, fun q => ?_, fun q => ?_,
    fun q hq => ?_⟩ <;> dsimp only
  · by_cases hq : q = p
    · rw [hq, Function.update_self, hself]
    · rw [Function.update_of_ne hq, hother q hq]
  · by_cases hq : q = p
    · rw [hq, Function.update_self]
      exact htodo
    · rw [Function.update_of_ne hq]
      exact h.todo q
  · by_cases hq : q = p
    · rw [hq, Function.update_self]
      exact hdoing
    · rw [Function.update_of_ne hq]
      exact h.doing q
  · rw [Function.update_of_ne fun he : q = p => hq (he ▸ hp)]
    exact h.idle q hq

/-- A step without a call. -/
theorem drift_quiet (h : Drift ps x ids m) (hp : p ∈ ps) {c' : Caller} {g' : Cleared}
    (hshared : g' = m.shared) (hpast : ∀ g, c'.past g = (m.locals p).past g)
    (htodo : ∀ w ∈ c'.todo, w.Proper ((x : Int) + 3)) (hdoing : ∀ d ∈ c'.doing, d.pipe = x) :
    Drift ps x ids ⟨m.system, Function.update m.locals p c', g'⟩ := by
  subst hshared
  exact drift_set h hp h.passing (fun g => (hpast g).symm) (fun _ _ _ => rfl) h.pipe htodo hdoing

variable [MemoryManager H]

/-- A step that waits at a gate. -/
theorem drift_wait (hn : Serves H NODE_SIZE) (hm : Serves H PID_SIZE)
    (hids : Function.Injective ids) (h : Drift ps x ids m) (hp : p ∈ ps)
    (hcur : m.system.scheduler.currentProcess = some p) {c' : Caller} {g' : Cleared} {g : Gate}
    {rsp : Addr} (hok : ownCall ids m.system (.sem_wait (ids g) rsp)) (hshared : g' = m.shared)
    (hbefore : (m.locals p).past g = 0) (hafter : c'.past g = 1)
    (hrest : ∀ g' ≠ g, c'.past g' = (m.locals p).past g')
    (htodo : ∀ w ∈ c'.todo, w.Proper ((x : Int) + 3)) (hdoing : ∀ d ∈ c'.doing, d.pipe = x) :
    Drift ps x ids ⟨step m.system (.sem_wait (ids g) rsp), Function.update m.locals p c', g'⟩ := by
  subst hshared
  refine drift_set h hp (h.passing.wait hn hm hids hp hcur hbefore hok) (fun g' => ?_)
    (fun q hq g' => congrFun (setPast_pcb hq) g') h.pipe htodo hdoing
  by_cases hg : g' = g
  · rw [hg, setPast_self, hafter]
  · rw [setPast_gate hg, hrest g' hg]

omit [MemoryManager H] in
theorem level_le {count lost : Nat} (h : count + lost ≤ PIPE_BUFFER_SIZE) (retried : Nat)
    (g : Gate) : level count lost retried g ≤ PIPE_BUFFER_SIZE := by
  cases g with
  | readers => exact Nat.le_trans (Nat.sub_le _ _) h
  | writers => exact Nat.sub_le _ _
  | mutex => exact (by decide : 1 ≤ PIPE_BUFFER_SIZE)

omit [MemoryManager H] in
/-- A byte that moves takes a token of one gate to the other. -/
theorem level_byte {count count' lost retried : Nat} {w : Way}
    (hcount : match w with
      | .read => count' + 1 = count
      | .write => count' = count + 1)
    (hpos : 0 < level count lost retried w.gate) (hroom : count + lost ≤ PIPE_BUFFER_SIZE)
    (hretried : retried ≤ lost) :
    level count' lost retried = Function.update (Function.update (level count lost retried) w.gate
      (level count lost retried w.gate - 1)) w.posts (level count lost retried w.posts + 1) := by
  funext g
  cases w <;> cases g <;> simp [Way.gate, Way.posts, level] at hcount hpos ⊢ <;> omega

/-- A read or a write that moves a byte. -/
theorem drift_byte (hn : Serves H NODE_SIZE) (hids : Function.Injective ids)
    (h : Drift ps x ids m) (hcur : m.system.scheduler.currentProcess = some p) {c' : Caller}
    {g' : Cleared} {t : Task} (ht : (m.locals p).doing = some (.io t))
    (hstage : t.stage = .critical)
    (hok : Meets step (ownCall ids) m.system
      [.sem_post (ids .mutex), .sem_post (ids t.request.way.posts)])
    (hpipe : (g'.shared.manager.pipes x).sem = ids ∧
      (g'.shared.manager.pipes x).isOpen = true ∧ (g'.shared.manager.pipes x).writers ≠ 0)
    (hfound : g'.found = m.shared.found)
    (hretried : g'.shared.past.retried = m.shared.shared.past.retried)
    (hcount : match t.request.way with
      | .read => (g'.shared.manager.pipes x).count + 1 = (Callers.pipe m x).count
      | .write => (g'.shared.manager.pipes x).count = (Callers.pipe m x).count + 1)
    (hafter : ∀ g, c'.past g = 0) (htodo : ∀ w ∈ c'.todo, w.Proper ((x : Int) + 3))
    (hdoing : ∀ d ∈ c'.doing, d.pipe = x) :
    Drift ps x ids ⟨run step m.system [.sem_post (ids .mutex), .sem_post (ids t.request.way.posts)],
      Function.update m.locals p c', g'⟩ := by
  have hp := h.mem ht
  have hroom := h.pipe.room
  have hretriedLe := h.pipe.retried
  obtain ⟨hgate, hmutex, hposts⟩ := past_critical ht hstage
  have hpos := h.passing.tokens_pos hp hgate (h.passing.not_blocked hcur _)
  obtain ⟨hposted, -⟩ := h.passing.move hn hids hp hcur hgate hmutex rfl hok (by
    have hle := level_le hroom m.shared.shared.past.retried t.request.way.posts
    unfold PIPE_BUFFER_SIZE at hle
    omega)
  rw [← level_byte hcount hpos hroom hretriedLe] at hposted
  rw [← hfound, ← hretried] at hposted
  refine drift_set h hp hposted (fun g => ?_) (fun q hq g => ?_)
    ⟨hpipe.1, hpipe.2.1, hpipe.2.2, ?_, ?_⟩ htodo hdoing
  · rw [hafter]
    exact Passing.moved hposts g
  · rw [setPast_pcb hq, setPast_pcb hq]
  · rw [hfound]
    cases hw : t.request.way with
    | read =>
      rw [hw] at hcount
      dsimp only at hcount
      omega
    | write =>
      rw [hw] at hcount hpos
      simp only [Way.gate, level] at hcount hpos
      omega
  · rw [hfound, hretried]
    exact hretriedLe

/-- A read that finds the pipe empty: a token of a lost byte is gone. -/
theorem drift_retry (hn : Serves H NODE_SIZE) (hids : Function.Injective ids)
    (h : Drift ps x ids m) (hcur : m.system.scheduler.currentProcess = some p) {c' : Caller}
    {g' : Cleared} {t : Task} (ht : (m.locals p).doing = some (.io t))
    (hstage : t.stage = .critical) (hway : t.request.way = .read)
    (hcount : (Callers.pipe m x).count = 0)
    (hok : ownCall ids m.system (.sem_post (ids .mutex)))
    (hpipe : g'.shared.manager.pipes x = Callers.pipe m x) (hfound : g'.found = m.shared.found)
    (hretried : g'.shared.past.retried = m.shared.shared.past.retried + 1)
    (hafter : ∀ g, c'.past g = 0) (htodo : ∀ w ∈ c'.todo, w.Proper ((x : Int) + 3))
    (hdoing : ∀ d ∈ c'.doing, d.pipe = x) :
    Drift ps x ids ⟨step m.system (.sem_post (ids .mutex)), Function.update m.locals p c', g'⟩ := by
  have hp := h.mem ht
  obtain ⟨hgate, hmutex, hposts⟩ := past_critical ht hstage
  rw [hway] at hgate hposts
  have hreaders : (m.locals p).past .readers = 1 := hgate
  have hwriters : (m.locals p).past .writers = 0 := hposts
  have hpos := h.passing.tokens_pos hp hreaders (h.passing.not_blocked hcur _)
  have hleft := (h.passing.use hp hcur hreaders).leave hn hids hp hcur
    ((setPast_gate (by decide)).trans hmutex) (Function.update_of_ne (by decide) _ _) hok
  have hlt : m.shared.shared.past.retried < m.shared.found.sum := by
    simp only [level, hcount] at hpos
    omega
  refine drift_set h hp (hleft.congr (fun _ _ => rfl) fun g => ?_) (fun g => ?_)
    (fun q hq g => ?_) ?_ htodo hdoing
  · rw [hpipe, hfound, hretried]
    cases g with
    | readers =>
      rw [Function.update_self, level, level]
      omega
    | writers | mutex => rfl
  · rw [hafter]
    cases g with
    | mutex => exact setPast_self _ _ _ _
    | readers => exact (setPast_gate (by decide)).trans (setPast_self _ _ _ _)
    | writers =>
      exact (setPast_gate (by decide)).trans ((setPast_gate (by decide)).trans hwriters)
  · rw [setPast_pcb hq, setPast_pcb hq]
  · rw [hpipe, hfound, hretried]
    exact ⟨h.pipe.sem, h.pipe.isOpen, h.pipe.writers, h.pipe.room, hlt⟩

/-- `clearPipe` takes the bytes, and leaves every token where it is. -/
theorem drift_clear (hn : Serves H NODE_SIZE) (hids : Function.Injective ids)
    (h : Drift ps x ids m) (hcur : m.system.scheduler.currentProcess = some p) {c' : Caller}
    {g' : Cleared} (hd : (m.locals p).doing = some (.clearPipe x))
    (hok : ownCall ids m.system (.sem_post (ids .mutex)))
    (hpipe : g'.shared.manager.pipes x = (clearPipe (Callers.pipe m x)).2)
    (hfound : g'.found = m.shared.found ++ [(Callers.pipe m x).count])
    (hretried : g'.shared.past.retried = m.shared.shared.past.retried)
    (hafter : ∀ g, c'.past g = 0) (htodo : ∀ w ∈ c'.todo, w.Proper ((x : Int) + 3))
    (hdoing : ∀ d ∈ c'.doing, d.pipe = x) :
    Drift ps x ids ⟨step m.system (.sem_post (ids .mutex)), Function.update m.locals p c', g'⟩ := by
  have hp := h.mem hd
  have hpast : (m.locals p).past = (Doing.clearPipe x).past := Caller.past_of hd
  have hsum : g'.found.sum = (Callers.pipe m x).count + m.shared.found.sum := by
    rw [hfound, List.sum_append, List.sum_singleton, Nat.add_comm]
  have hleft := h.passing.leave hn hids hp hcur (by rw [hpast]; rfl) rfl hok
  have hroom := h.pipe.room
  have hretriedLe := h.pipe.retried
  refine drift_set h hp (hleft.congr (fun _ _ => rfl) fun g => ?_) (fun g => ?_)
    (fun q hq g => ?_) ?_ htodo hdoing
  · rw [hpipe, hsum, hretried]
    cases g with
    | readers | writers => simp only [clearPipe, level, Nat.zero_add]
    | mutex => rfl
  · rw [hafter]
    by_cases hg : g = .mutex
    · rw [hg, setPast_self]
    · rw [setPast_gate hg, hpast]
      cases g with
      | readers | writers => rfl
      | mutex => exact absurd rfl hg
  · rw [setPast_pcb hq]
  · rw [hpipe, hsum, hretried]
    refine ⟨?_, h.pipe.isOpen, h.pipe.writers, ?_, ?_⟩
    · rw [← h.pipe.sem]
      funext g
      cases g <;> rfl
    · rw [clearPipe, Nat.zero_add]
      exact hroom
    · omega

/-- A process starts its next call. -/
theorem drift_start (hn : Serves H NODE_SIZE) (hm : Serves H PID_SIZE)
    (hids : Function.Injective ids) (hx : x < MAX_PIPES) (h : Drift ps x ids m)
    (hcur : m.system.scheduler.currentProcess = some p) (hdoing : (m.locals p).doing = none)
    {rsp : Addr}
    (hok : Meets step (ownCall ids) m.system
      (callers m.system p (m.locals p) m.shared rsp).1) :
    Drift ps x ids ⟨run step m.system (callers m.system p (m.locals p) m.shared rsp).1,
      Function.update m.locals p (callers m.system p (m.locals p) m.shared rsp).2.1,
      (callers m.system p (m.locals p) m.shared rsp).2.2⟩ := by
  cases htodo : (m.locals p).todo with
  | nil =>
    have hself : callers m.system p (m.locals p) m.shared rsp = ([], m.locals p, m.shared) := by
      simp only [callers, hdoing, htodo]
    rw [hself]
    dsimp only
    rw [Function.update_eq_self]
    exact h
  | cons w todo =>
    have hp : p ∈ ps := by
      by_contra hp
      rw [(h.idle p hp).1] at htodo
      cases htodo
    have hproper := h.todo p
    rw [htodo, List.forall_mem_cons] at hproper
    have hbefore := Caller.past_none hdoing
    have hvalid : validatePipeId m.shared.shared.manager ((x : Int) + 3) = some x :=
      validate_open hx h.pipe.isOpen
    cases w with
    | io r =>
      obtain ⟨buffer, hbuffer⟩ := Option.isSome_iff_exists.mp hproper.1.buffer
      have hstart : r.start m.shared.shared.manager = some ⟨r, x, .loop, 0, 0, buffer⟩ := by
        unfold Request.start
        rw [hproper.1.pipe_id, hvalid, hbuffer]
        exact if_neg (by have := hproper.1.size; omega)
      simp only [callers, hdoing, htodo, hstart]
      refine drift_quiet h hp rfl (fun g => ?_) hproper.2 fun d hd => ?_
      · rw [hbefore, Caller.past]
        cases g <;> simp [Doing.past, Task.past]
      · rw [← Option.some.inj hd]
        rfl
    | clearPipe pipe_id =>
      obtain rfl : pipe_id = (x : Int) + 3 := hproper.1
      have hmutex : (m.shared.shared.manager.pipes x).mutex = ids .mutex :=
        congrFun h.pipe.sem .mutex
      simp only [callers, hdoing, htodo, hvalid, hmutex] at hok ⊢
      refine drift_wait hn hm hids h hp hcur hok.1 rfl (hbefore _) rfl (fun g hg => ?_)
        hproper.2 fun d hd => ?_
      · rw [hbefore]
        cases g with
        | readers | writers => rfl
        | mutex => exact absurd rfl hg
      · rw [← Option.some.inj hd]
        rfl

/-- A process takes the next move of its read or write. -/
theorem drift_task (hn : Serves H NODE_SIZE) (hm : Serves H PID_SIZE)
    (hids : Function.Injective ids) (h : Drift ps x ids m)
    (hcur : m.system.scheduler.currentProcess = some p) {t : Task}
    (ht : (m.locals p).doing = some (.io t)) {rsp : Addr}
    (hok : Meets step (ownCall ids) m.system
      (callers m.system p (m.locals p) m.shared rsp).1) :
    Drift ps x ids ⟨run step m.system (callers m.system p (m.locals p) m.shared rsp).1,
      Function.update m.locals p (callers m.system p (m.locals p) m.shared rsp).2.1,
      (callers m.system p (m.locals p) m.shared rsp).2.2⟩ := by
  have hp := h.mem ht
  have hpast : (m.locals p).past = (Doing.io t).past := Caller.past_of ht
  obtain rfl : t.pipe = x := h.doing p (.io t) ht
  have hsem : ∀ g, (m.shared.shared.manager.pipes t.pipe).sem g = ids g := congrFun h.pipe.sem
  have hsame : ({ m.shared with shared := ⟨m.shared.shared.manager.setPipe t.pipe
      (m.shared.shared.manager.pipes t.pipe), m.shared.shared.past⟩ } : Cleared) = m.shared := by
    rw [setPipe_self]
  cases hstage : t.stage with
  | loop =>
    by_cases hi : t.i < t.request.size
    · simp only [callers, ht, move_loop hstage hi, hsem] at hok ⊢
      refine drift_wait hn hm hids h hp hcur hok.1 hsame ?_ ?_ (fun g hg => ?_) (h.todo p)
        fun d hd => ?_
      · rw [hpast]
        cases hw : t.request.way <;> simp [Doing.past, Task.past, Way.gate, hstage]
      · rw [Caller.past]
        cases hw : t.request.way <;> simp [Doing.past, Task.past, Way.gate, hw]
      · rw [hpast, Caller.past]
        cases g <;> cases hw : t.request.way <;>
          simp_all [Doing.past, Task.past, Way.gate]
      · rw [← Option.some.inj hd]
        rfl
    · simp only [callers, ht, move_done hstage hi]
      refine drift_quiet h hp hsame (fun g => ?_) (h.todo p) fun d hd => by cases hd
      rw [hpast]
      cases g <;> simp [Caller.past, Doing.past, Task.past, hstage]
  | mutex =>
    simp only [callers, ht, move_mutex hstage, hsem] at hok ⊢
    refine drift_wait hn hm hids h hp hcur hok.1 hsame ?_ rfl (fun g hg => ?_) (h.todo p)
      fun d hd => ?_
    · rw [hpast]
      simp [Doing.past, Task.past, hstage]
    · rw [hpast, Caller.past]
      cases g <;> simp_all [Doing.past, Task.past]
    · rw [← Option.some.inj hd]
      rfl
  | critical =>
    have hgate := (past_critical ht hstage).1
    have hpos := h.passing.tokens_pos hp hgate (h.passing.not_blocked hcur _)
    have hloop : ∀ {t' : Task} {c : Caller}, c.doing = some (.io t') → t'.stage = .loop →
        ∀ g, c.past g = 0 := fun hc hl g => by
      rw [Caller.past_io hc, Task.past_loop hl]
      rfl
    by_cases hempty : t.request.way = .read ∧ (Callers.pipe m t.pipe).count = 0
    · have hmove := move_retry (g := m.shared.shared) rsp h.pipe.writers hstage hempty.1 hempty.2
      simp only [callers, ht, hmove, hsem, setPipe_self] at hok ⊢
      refine drift_retry hn hids h hcur ht hstage hempty.1 hempty.2 hok.1 rfl rfl rfl
        (hloop rfl rfl) (h.todo p) fun d hd => ?_
      rw [← Option.some.inj hd]
      rfl
    · have hcount : match t.request.way with
          | .read => 0 < (m.shared.shared.manager.pipes t.pipe).count
          | .write => (m.shared.shared.manager.pipes t.pipe).count < PIPE_BUFFER_SIZE := by
        cases hw : t.request.way with
        | read => exact Nat.pos_of_ne_zero fun h0 => hempty ⟨hw, h0⟩
        | write =>
          rw [hw] at hpos
          simp only [Way.gate, level, Callers.pipe] at hpos
          dsimp only
          omega
      obtain ⟨pipe', past', t', hmove, hstage', hpipe', hretried, hon, hcount'⟩ :=
        move_byte rsp h.pipe.writers hstage hcount
      have hnew : (m.shared.shared.manager.setPipe t.pipe pipe').pipes t.pipe = pipe' :=
        Function.update_self _ _ _
      simp only [callers, ht, hmove, hsem] at hok ⊢
      refine drift_byte hn hids h hcur ht hstage hok ?_ rfl hretried ?_ (hloop rfl hstage')
        (h.todo p) fun d hd => ?_
      · dsimp only
        rw [hnew]
        exact ⟨hon.1.trans h.pipe.sem, hon.2.1.trans h.pipe.isOpen, hon.2.2⟩
      · dsimp only
        rw [hnew]
        exact hcount'
      · rw [← Option.some.inj hd]
        exact hpipe'

theorem drift_next (hn : Serves H NODE_SIZE) (hm : Serves H PID_SIZE)
    (hids : Function.Injective ids) (hx : x < MAX_PIPES) (m : Callers H) (e : Event)
    (h : Drift ps x ids m) (hok : Allows callers (ownCall ids) (otherCall ids) m e) :
    Drift ps x ids (next callers m e) := by
  cases e with
  | other c => exact ⟨h.passing.other hn hok, h.pipe, h.todo, h.doing, h.idle⟩
  | run rsp =>
    unfold next
    cases hcur : m.system.scheduler.currentProcess with
    | none => exact h
    | some p =>
      dsimp only
      have hp := hok p hcur
      cases hdoing : (m.locals p).doing with
      | none => exact drift_start hn hm hids hx h hcur hdoing hp
      | some d =>
        cases d with
        | io t => exact drift_task hn hm hids h hcur hdoing hp
        | clearPipe y =>
          obtain rfl : y = x := h.doing p (.clearPipe y) hdoing
          have hcalls : (clearPipe (m.shared.shared.manager.pipes y)).1 =
              [.sem_post (ids .mutex)] :=
            congrArg (fun id => [Call.sem_post id]) (congrFun h.pipe.sem .mutex)
          simp only [callers, hdoing, hcalls] at hp ⊢
          exact drift_clear hn hids h hcur hdoing hp.1 (Function.update_self _ _ _) rfl rfl
            (fun _ => rfl) (h.todo p) fun d hd => by cases hd

end Steps

/-! ## A pipe like new -/

section New

variable [MemoryManager H]

/-- The current process blocks at a gate when all its tokens were granted, and only then. -/
def WaitsForTokens (ps : Finset Pcb) (x : Nat) (m : Users H) : Prop :=
  ∀ (g : Gate) (p : Pcb) (rsp : Addr), m.system.scheduler.currentProcess = some p →
    ownCall (Users.pipe m x).sem m.system (.sem_wait ((Users.pipe m x).sem g) rsp) →
    (p ∈ (step m.system (.sem_wait ((Users.pipe m x).sem g) rsp)).blockedOn
      ((Users.pipe m x).sem g) ↔ (granted ps x m g).card = (Users.pipe m x).tokens g)

theorem Flow.waitsForTokens (hn : Serves H NODE_SIZE) (hm : Serves H PID_SIZE) {ps : Finset Pcb}
    {x : Nat} {ids : Gate → Int} {m : Users H} (hids : Function.Injective ids)
    (h : Flow ps x ids m) : WaitsForTokens ps x m := by
  intro g p rsp hcur hok
  have hadd : (m.system.tokens ((Users.pipe m x).sem g)).counter + (granted ps x m g).card =
      (Users.pipe m x).tokens g := h.counter_add g
  rw [h.pipe.sem] at hok hadd ⊢
  have htokens := (gates_wait hn hm hids h.gates hok hcur).2 g
  rw [if_pos rfl] at htokens
  have hqueue : (step m.system (.sem_wait (ids g) rsp)).blockedOn (ids g) =
      ((m.system.tokens (ids g)).wait p).queue := congrArg Tokens.queue htokens
  have hawake : p ∉ (m.system.tokens (ids g)).queue := h.passing.not_blocked hcur g
  rw [hqueue, Tokens.wait]
  split
  · exact ⟨fun hp => absurd hp hawake, fun hcard => by omega⟩
  · exact ⟨fun _ => by omega, fun _ => List.mem_append_right _ (List.mem_singleton.mpr rfl)⟩

/-- An empty pipe whose semaphores agree with it. From now on each byte that is written comes
out once and in its order, a writer blocks when the ring is full, and a reader when it is
empty. -/
structure LikeNew (s : System H) (mgr : PipeManager) (x : Nat) : Prop where
  count : (mgr.pipes x).count = 0
  readers : (s.sem (mgr.pipes x).semReaders).counter = 0
  writers : (s.sem (mgr.pipes x).semWriters).counter = PIPE_BUFFER_SIZE
  later : ∀ (ps : Finset Pcb) (m : Users H), m.system = s → m.shared.manager = mgr →
    Ready ps ((x : Int) + 3) m → ∀ es, Meets (next clients) (Allows clients
      (ownCall (mgr.pipes x).sem) (otherCall (mgr.pipes x).sem)) m es →
    Delivers ps x (run (next clients) m es) ∧ WaitsForTokens ps x (run (next clients) m es)

theorem Pipe.New.likeNew (hn : Serves H NODE_SIZE) (hm : Serves H PID_SIZE) {s : System H}
    {mgr : PipeManager} {x : Nat} (hx : x < MAX_PIPES)
    (hids : Function.Injective (mgr.pipes x).sem) (h : (mgr.pipes x).New (mgr.pipes x).sem s) :
    LikeNew s mgr x := by
  refine ⟨h.count, congrArg Tokens.counter (h.tokens .readers),
    congrArg Tokens.counter (h.tokens .writers), fun ps m hs hmgr hr es hok => ?_⟩
  subst hs hmgr
  have hstreams := (streams_run hn hm hids hx ((Pipe.New.flow h hr).streams hr) hok).1
  exact ⟨hstreams.delivers, hstreams.flow.waitsForTokens hn hm hids⟩

/-- Before their first step the processes have no call open, and all their calls will be on
the pipe. -/
structure ReadyToCall (ps : Finset Pcb) (fd : Int) (m : Callers H) : Prop where
  past : m.shared.shared.past = .start
  found : m.shared.found = []
  doing : ∀ p, (m.locals p).doing = none
  todo : ∀ p, ∀ w ∈ (m.locals p).todo, w.Proper fd
  idle : ∀ p, p ∉ ps → (m.locals p).todo = []

omit [MemoryManager H] in
theorem Pipe.New.drift {ids : Gate → Int} {x : Nat} {m : Callers H} {ps : Finset Pcb}
    (h : (Callers.pipe m x).New ids m.system) (hr : ReadyToCall ps ((x : Int) + 3) m) :
    Drift ps x ids m := by
  have hpast : ∀ p g, (m.locals p).past g = 0 := fun p => Caller.past_none (hr.doing p)
  have hfound : m.shared.found.sum = 0 := by rw [hr.found, List.sum_nil]
  have hretried : m.shared.shared.past.retried = 0 := by rw [hr.past, Past.start]
  refine ⟨⟨h.gates, fun g => ?_, fun g p hp => ?_, fun p g => ?_⟩,
    ⟨h.sem, h.isOpen, h.writers, ?_, ?_⟩, hr.todo, fun p d hd => ?_,
    fun p hp => ⟨hr.idle p hp, hr.doing p⟩⟩
  · rw [Finset.sum_eq_zero fun p _ => hpast p g, h.tokens g, h.count, hfound, hretried]
    cases g <;> rfl
  · have hqueue : m.system.blockedOn (ids g) = [] := congrArg Tokens.queue (h.tokens g)
    rw [hqueue] at hp
    cases hp
  · rw [hpast]
    exact Nat.zero_le 1
  · rw [h.count, hfound]
    exact Nat.zero_le _
  · rw [hretried]
    exact Nat.zero_le _
  · rw [hr.doing p] at hd
    cases hd

/-! ## What a call of `clearPipe` leaves -/

section Clear

variable {ps : Finset Pcb} {x : Nat} {ids : Gate → Int} {m : Callers H}

omit [MemoryManager H] in
/-- With no call open, the tokens are all in the counters. -/
theorem Drift.tokens_quiet (h : Drift ps x ids m) (hquiet : ∀ p, (m.locals p).doing = none)
    (g : Gate) : m.system.tokens (ids g) = ⟨level (Callers.pipe m x).count m.shared.found.sum
      m.shared.shared.past.retried g, []⟩ := by
  have hpast : ∀ p g, (m.locals p).past g = 0 := fun p => Caller.past_none (hquiet p)
  have hqueue : m.system.blockedOn (ids g) = [] := by
    refine List.eq_nil_iff_forall_not_mem.mpr fun p hp => ?_
    have hone := (h.passing.blocked g p hp).2
    rw [hpast] at hone
    cases hone
  have hadd := h.passing.counter_add g
  have hnone : ps.filter (fun p => (m.locals p).past g = 1 ∧ p ∉ m.system.blockedOn (ids g)) =
      ∅ := by
    refine Finset.filter_eq_empty_iff.mpr fun p _ hp => ?_
    rw [hpast] at hp
    cases hp.1
  rw [hnone, Finset.card_empty, Nat.add_zero] at hadd
  rw [System.tokens, hqueue]
  exact congrArg (Tokens.mk · []) hadd

/-- The pipe is like new when nothing was lost, and else it is not: what the writers lost
does not come back. -/
theorem Drift.likeNew_iff (hn : Serves H NODE_SIZE) (hm : Serves H PID_SIZE) (hx : x < MAX_PIPES)
    (hids : Function.Injective ids) (h : Drift ps x ids m)
    (hquiet : ∀ p, (m.locals p).doing = none)
    (hpipe : (Callers.pipe m x).readIdx = 0 ∧ (Callers.pipe m x).writeIdx = 0 ∧
      (Callers.pipe m x).count = 0) :
    LikeNew m.system m.shared.shared.manager x ↔ ∀ n ∈ m.shared.found, n = 0 := by
  obtain ⟨hread, hwrite, hcount⟩ := hpipe
  have htokens := h.tokens_quiet hquiet
  have hroom := h.pipe.room
  have hretried := h.pipe.retried
  obtain rfl := h.pipe.sem
  rw [← List.sum_eq_zero_iff_forall_eq_nat]
  constructor
  · intro hnew
    have hcounter : (m.system.tokens ((Callers.pipe m x).sem .writers)).counter =
        PIPE_BUFFER_SIZE := hnew.writers
    rw [htokens .writers] at hcounter
    simp only [level, PIPE_BUFFER_SIZE] at hcounter hroom
    omega
  · intro hsum
    refine Pipe.New.likeNew hn hm hx hids ⟨h.passing.gates, fun g => ?_, rfl, h.pipe.isOpen,
      h.pipe.writers, ⟨?_, ?_⟩, ?_, hcount⟩
    · refine (htokens g).trans ?_
      rw [hcount, hsum]
      cases g with
      | readers => exact congrArg (Tokens.mk · []) (Nat.zero_sub _)
      | writers | mutex => rfl
    · show (Callers.pipe m x).readIdx < PIPE_BUFFER_SIZE
      rw [hread]
      decide
    · show (Callers.pipe m x).count ≤ PIPE_BUFFER_SIZE
      rw [hcount]
      exact Nat.zero_le _
    · show (Callers.pipe m x).writeIdx =
        ((Callers.pipe m x).readIdx + (Callers.pipe m x).count) % PIPE_BUFFER_SIZE
      rw [hread, hwrite, hcount]
      rfl

/-- Who finds a token goes on at once. -/
theorem wait_keeps_current (hn : Serves H NODE_SIZE) {s : System H} (hs : Sound s) {id : Int}
    (hv : isValidSemId id = 0) (rsp : Addr) (hpos : 0 < (s.tokens id).counter) :
    (step s (.sem_wait id rsp)).scheduler.currentProcess = s.scheduler.currentProcess := by
  have hne : (s.kernel.semaphores id).counter ≠ 0 := Nat.ne_of_gt hpos
  obtain ⟨-, k', hk, hb⟩ | ⟨h0, -⟩ | ⟨h0, -⟩ := sem_wait_spec hn s.kernel rsp hv (hs.free id)
  · show (after s.kernel (.sem_wait id rsp)).scheduler.view.current = _
    rw [after_some (c := .sem_wait id rsp) hk, hb.table]
    rfl
  · exact absurd h0 hne
  · exact absurd h0 hne

/-- Both steps of `clearPipe` while no other call is open: it does not block. -/
theorem drift_cleared (hn : Serves H NODE_SIZE) (hm : Serves H PID_SIZE)
    (hids : Function.Injective ids) (hx : x < MAX_PIPES) (h : Drift ps x ids m)
    (hquiet : ∀ p, (m.locals p).doing = none) {p : Pcb} {todo : List Wish} {rsp₁ rsp₂ : Addr}
    (hcur : m.system.scheduler.currentProcess = some p)
    (htodo : (m.locals p).todo = .clearPipe ((x : Int) + 3) :: todo)
    (hok : Meets (next callers) (Allows callers (ownCall ids) (otherCall ids)) m
      [.run rsp₁, .run rsp₂]) :
    ∃ m', run (next callers) m [.run rsp₁, .run rsp₂] = m' ∧ Drift ps x ids m' ∧
      (∀ q, (m'.locals q).doing = none) ∧
      (m'.locals p).cleared = (m.locals p).cleared ++ [0] ∧
      Callers.pipe m' x = (clearPipe (Callers.pipe m x)).2 ∧
      m'.shared.found = m.shared.found ++ [(Callers.pipe m x).count] := by
  have hmutex : (m.shared.shared.manager.pipes x).mutex = ids .mutex :=
    congrFun h.pipe.sem .mutex
  have hwait : callers m.system p (m.locals p) m.shared rsp₁ =
      ([.sem_wait (ids .mutex) rsp₁],
        { m.locals p with todo, doing := some (.clearPipe x) }, m.shared) := by
    simp only [callers, hquiet p, htodo, validate_open hx h.pipe.isOpen, hmutex]
  obtain ⟨m₁, hm₁⟩ : ∃ m₁, next callers m (.run rsp₁) = m₁ := ⟨_, rfl⟩
  obtain ⟨m₂, hm₂⟩ : ∃ m₂, next callers m₁ (.run rsp₂) = m₂ := ⟨_, rfl⟩
  have hdrift₁ : Drift ps x ids m₁ := hm₁ ▸ drift_next hn hm hids hx m _ h hok.1
  have hdrift₂ : Drift ps x ids m₂ := by
    rw [← hm₂]
    exact drift_next hn hm hids hx m₁ _ hdrift₁ (hm₁ ▸ hok.2.1)
  have hrun : run (next callers) m [.run rsp₁, .run rsp₂] = m₂ := by
    rw [run_cons, run_cons, run_nil, hm₁, hm₂]
  simp only [next, hcur, hwait] at hm₁
  -- the mutex is free, so the caller goes on
  have hcur₁ : m₁.system.scheduler.currentProcess = some p := by
    have hpos : 0 < (m.system.tokens (ids .mutex)).counter := by
      rw [h.tokens_quiet hquiet .mutex]
      exact Nat.one_pos
    rw [← hm₁, ← hcur]
    exact wait_keeps_current hn h.passing.gates.sound (h.passing.gates.counts .mutex).valid rsp₁
      hpos
  have hlocals₁ : m₁.locals p = { m.locals p with todo, doing := some (.clearPipe x) } := by
    rw [← hm₁]
    exact Function.update_self _ _ _
  have hshared₁ : m₁.shared = m.shared := by rw [← hm₁]
  simp only [next, hcur₁, callers, hlocals₁, hshared₁] at hm₂
  refine ⟨m₂, hrun, hdrift₂, fun q => ?_, ?_, ?_, ?_⟩
  · rw [← hm₂]
    dsimp only
    by_cases hq : q = p
    · rw [hq, Function.update_self]
    · rw [Function.update_of_ne hq, ← hm₁]
      dsimp only
      rw [Function.update_of_ne hq]
      exact hquiet q
  · rw [← hm₂]
    dsimp only
    rw [Function.update_self]
  · rw [← hm₂]
    exact Function.update_self _ _ _
  · rw [← hm₂]
    rfl

/-- A pipe that was just created is like new. After any calls on it, once none of them is open,
`clearPipe` returns 0. It leaves a pipe like new exactly when it finds no byte and no `clearPipe`
before it found one. -/
theorem clearPipe_leaves_a_new_pipe_iff (hn : Serves H NODE_SIZE) (hm : Serves H PID_SIZE)
    {fd : Int} (h : FreshPipe fd m.system m.shared.shared.manager) (hr : ReadyToCall ps fd m)
    (hx : x = (fd - 3).toNat) (es : List Event) {p : Pcb} {todo : List Wish} {rsp₁ rsp₂ : Addr}
    (hok : Meets (next callers) (Allows callers (ownCall (Callers.pipe m x).sem)
      (otherCall (Callers.pipe m x).sem)) m (es ++ [.run rsp₁, .run rsp₂]))
    (hquiet : ∀ q, ((run (next callers) m es).locals q).doing = none)
    (hcur : (run (next callers) m es).system.scheduler.currentProcess = some p)
    (htodo : ((run (next callers) m es).locals p).todo = .clearPipe fd :: todo) :
    let before := run (next callers) m es
    let after := run (next callers) before [.run rsp₁, .run rsp₂]
    LikeNew m.system m.shared.shared.manager x ∧
    ((after.locals p).doing = none ∧
      (after.locals p).cleared = (before.locals p).cleared ++ [0]) ∧
    (LikeNew after.system after.shared.shared.manager x ↔
      (∀ n ∈ before.shared.found, n = 0) ∧ (Callers.pipe before x).count = 0) := by
  intro before after
  obtain ⟨y, rfl, hy, hids, hnew⟩ := h.new hn
  obtain rfl : x = y := by omega
  obtain ⟨hbefore, hclear⟩ := (meets_append ..).mp hok
  have hdrift := run_invariant (drift_next hn hm hids hy) (Pipe.New.drift hnew hr) hbefore
  obtain ⟨m', hrun, hdrift', hquiet', hresult, hpipe, hfound⟩ :=
    drift_cleared hn hm hids hy hdrift hquiet hcur htodo hclear
  have hafter : after = m' := hrun
  rw [hafter]
  refine ⟨hnew.likeNew hn hm hy hids, ⟨hquiet' p, hresult⟩, ?_⟩
  rw [hdrift'.likeNew_iff hn hm hy hids hquiet' (by rw [hpipe]; exact ⟨rfl, rfl, rfl⟩), hfound]
  simp only [List.mem_append, List.mem_singleton, or_imp, forall_and, forall_eq]
  rfl

end Clear

end New

/-- The shell alone makes these calls on the first pipe. -/
def shellWants (wishes : List Wish) : Callers Endless where
  system := firstPipe.2.1
  locals p := if p = 1 then ⟨wishes, none, [], []⟩ else ⟨[], none, [], []⟩
  shared := ⟨⟨firstPipe.2.2, .start⟩, []⟩

/-- The shell is created, and then it takes `n` steps. -/
def shellRuns (n : Nat) : List Event :=
  .other (.scheduler (.createProcess 2 none 0 1 none 0)) :: elsewhere ++ List.replicate n (.run 7)

def writesAByte : Wish := .io ⟨.write, 3, some (fun _ => 7), 1⟩

def readsAByte : Wish := .io ⟨.read, 3, some (fun _ => 0), 1⟩

theorem ready_shellWants {wishes : List Wish} (h : ∀ w ∈ wishes, w.Proper 3) :
    ReadyToCall {1} 3 (shellWants wishes) := by
  have hlocals : ∀ p, (shellWants wishes).locals p =
      if p = 1 then ⟨wishes, none, [], []⟩ else ⟨[], none, [], []⟩ := fun _ => rfl
  refine ⟨rfl, rfl, fun p => ?_, fun p w hw => ?_, fun p hp => ?_⟩ <;> simp only [hlocals] at *
  · split_ifs <;> rfl
  · split_ifs at hw
    · exact h w hw
    · cases hw
  · rw [if_neg (by simpa using hp)]

/-- Nobody but the shell calls. -/
theorem shell_quiet {wishes : List Wish} (h : ∀ w ∈ wishes, w.Proper 3) {es : List Event}
    (hok : Meets (next callers) (Allows callers (ownCall (Callers.pipe (shellWants wishes) 0).sem)
      (otherCall (Callers.pipe (shellWants wishes) 0).sem)) (shellWants wishes) es)
    (hshell : ((run (next callers) (shellWants wishes) es).locals 1).doing = none) (q : Pcb) :
    ((run (next callers) (shellWants wishes) es).locals q).doing = none := by
  have hfresh : FreshPipe 3 (shellWants wishes).system (shellWants wishes).shared.shared.manager :=
    freshPipe_first
  obtain ⟨x, hx, hmax, hids, hnew⟩ := hfresh.new (endless_serves _)
  obtain rfl : x = 0 := by omega
  have hdrift := run_invariant (drift_next (endless_serves _) (endless_serves _) hids hmax)
    (Pipe.New.drift hnew (ready_shellWants h)) hok
  by_cases hq : q = 1
  · rw [hq]
    exact hshell
  · exact (hdrift.idle q (by simpa using hq)).2

theorem wishes_proper : ∀ w ∈ [writesAByte, readsAByte, .clearPipe 3], w.Proper 3 := by
  intro w hw
  simp only [List.mem_cons, List.not_mem_nil, or_false] at hw
  obtain rfl | rfl | rfl := hw
  · exact ⟨rfl, rfl, by decide⟩
  · exact ⟨rfl, rfl, by decide⟩
  · rfl

/-- A byte is written and read before the pipe is cleared. -/
theorem clearPipe_leaves_a_new_pipe_when_it_is_empty :
    let after := run (next callers) (run (next callers)
      (shellWants [writesAByte, readsAByte, .clearPipe 3]) (shellRuns 10)) [.run 7, .run 7]
    LikeNew after.system after.shared.shared.manager 0 := by
  intro after
  have hok : Meets (next callers) (Allows callers
      (ownCall (Callers.pipe (shellWants [writesAByte, readsAByte, .clearPipe 3]) 0).sem)
      (otherCall (Callers.pipe (shellWants [writesAByte, readsAByte, .clearPipe 3]) 0).sem))
      (shellWants [writesAByte, readsAByte, .clearPipe 3]) (shellRuns 10 ++ [.run 7, .run 7]) := by
    decide +kernel
  have hquiet := shell_quiet wishes_proper ((meets_append ..).mp hok).1 (by decide +kernel)
  have hcur : (run (next callers) (shellWants [writesAByte, readsAByte, .clearPipe 3])
      (shellRuns 10)).system.scheduler.currentProcess = some 1 := by decide +kernel
  have htodo : ((run (next callers) (shellWants [writesAByte, readsAByte, .clearPipe 3])
      (shellRuns 10)).locals 1).todo = [.clearPipe 3] := by rfl
  exact (clearPipe_leaves_a_new_pipe_iff (endless_serves _) (endless_serves _) freshPipe_first
    (ready_shellWants wishes_proper) (by decide) (shellRuns 10) hok hquiet hcur htodo).2.2.mpr
    (by decide +kernel)

theorem not_likeNew {m : Callers H} [MemoryManager H] {x : Nat}
    (h : (m.system.sem (Callers.pipe m x).semReaders).counter ≠ 0) :
    ¬ LikeNew m.system m.shared.shared.manager x := fun hnew => h hnew.readers

/-- The shell writes a byte in five steps, and clears the pipe in two more. -/
def writesAndClears (n : Nat) : Callers Endless :=
  run (next callers) (shellWants [writesAByte, .clearPipe 3]) (shellRuns n)

/-- Nobody reads the byte. The semaphore of the readers keeps its token, and that of the
writers never gets back the one of its cell. -/
theorem clearPipe_keeps_the_token_of_a_byte :
    (FreshPipe 3 (shellWants [writesAByte, .clearPipe 3]).system
        (shellWants [writesAByte, .clearPipe 3]).shared.shared.manager ∧
      ReadyToCall {1} 3 (shellWants [writesAByte, .clearPipe 3]) ∧
      Meets (next callers) (Allows callers
        (ownCall (Callers.pipe (shellWants [writesAByte, .clearPipe 3]) 0).sem)
        (otherCall (Callers.pipe (shellWants [writesAByte, .clearPipe 3]) 0).sem))
        (shellWants [writesAByte, .clearPipe 3]) (shellRuns 7) ∧
      (∀ q, ((writesAndClears 5).locals q).doing = none) ∧
      ((writesAndClears 5).locals 1).cleared = [] ∧
      ((writesAndClears 7).locals 1).cleared = [0]) ∧
    (Callers.pipe (writesAndClears 7) 0).count = 0 ∧
    ((writesAndClears 7).system.sem (Callers.pipe (writesAndClears 7) 0).semReaders).counter = 1 ∧
    ((writesAndClears 7).system.sem (Callers.pipe (writesAndClears 7) 0).semWriters).counter =
      511 ∧
    ¬ LikeNew (writesAndClears 7).system (writesAndClears 7).shared.shared.manager 0 := by
  have hproper : ∀ w ∈ [writesAByte, .clearPipe 3], w.Proper 3 := fun w hw =>
    wishes_proper w (by
      rw [List.mem_cons] at hw ⊢
      exact hw.imp_right (List.mem_cons_of_mem _))
  have hok : Meets (next callers) (Allows callers
      (ownCall (Callers.pipe (shellWants [writesAByte, .clearPipe 3]) 0).sem)
      (otherCall (Callers.pipe (shellWants [writesAByte, .clearPipe 3]) 0).sem))
      (shellWants [writesAByte, .clearPipe 3]) (shellRuns 5 ++ [.run 7, .run 7]) := by
    decide +kernel
  have hreaders : ((writesAndClears 7).system.sem
      (Callers.pipe (writesAndClears 7) 0).semReaders).counter = 1 := by decide +kernel
  refine ⟨⟨freshPipe_first, ready_shellWants hproper, hok,
    shell_quiet hproper ((meets_append ..).mp hok).1 (by decide +kernel), by decide +kernel,
    by decide +kernel⟩, by decide +kernel, hreaders, by decide +kernel, ?_⟩
  exact not_likeNew (by rw [hreaders]; decide)

end bare_bones.pipe_manager
