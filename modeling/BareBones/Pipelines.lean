-- `cat`, `wc` and `filter` with a pipe between two of them: whatever turns the two take, what the
-- second has printed is what it makes of what the first makes of the keys.
import BareBones.Numerals
import BareBones.PipeCalls
import BareBones.PipeStreams

namespace bare_bones.processFunctions

open bare_bones.doubleLinkedList bare_bones.process bare_bones.scheduler bare_bones.semaphore
open bare_bones.pipe_manager bare_bones.numerals bare_bones.program runs interleaving
open bare_bones.builtinFunctions (digitChar)

variable {H : Type}

/-! ## The loops -/

/-- What `getchar` and the loops take for the end of the input. -/
def EOF : UInt8 := 0xFF

/-- The loop over `getchar`: what is put for a character, what is put at the end of the input, and
how often the process yields then. `lines` is the counter of `wc`. -/
structure Loop where
  turn : Nat → UInt8 → Nat × List UInt8
  finish : Nat → List UInt8
  yields : Nat
  turn_clean : ∀ lines c, c ≠ EOF → EOF ∉ (turn lines c).2
  finish_clean : ∀ lines, EOF ∉ finish lines

def cat : Loop where
  turn lines c := (lines, if c ≠ 0 then [c] else [])
  finish _ := []
  yields := 0
  turn_clean lines c hc := by
    dsimp only
    split <;> simp [Ne.symm hc]
  finish_clean _ := by simp

def is_vowel (c : UInt8) : Bool :=
  c = 97 || c = 101 || c = 105 || c = 111 || c = 117 || c = 65 || c = 69 || c = 73 || c = 79 ||
    c = 85

def filter : Loop where
  turn lines c := (lines, if is_vowel c then [] else [c])
  finish _ := []
  yields := 0
  turn_clean lines c hc := by
    dsimp only
    split <;> simp [Ne.symm hc]
  finish_clean _ := by simp

/-- `La cantidad de lineas es: `. -/
def lineasEs : List UInt8 :=
  [76, 97, 32, 99, 97, 110, 116, 105, 100, 97, 100, 32, 100, 101, 32, 108, 105, 110, 101, 97, 115,
    32, 101, 115, 58, 32]

/-- No digit is an end of the input. -/
theorem eof_notMem_numeral (n : Nat) : EOF ∉ numeral 10 n := by
  have hdigit : ∀ r < 10, digitChar r ≠ EOF := by decide
  unfold numeral
  split
  · decide
  · unfold digitChars
    intro hmem
    obtain ⟨r, hr, hc⟩ := List.mem_map.mp hmem
    have hlt : r < 10 := Nat.digits_lt_base (by decide) (List.mem_reverse.mp hr)
    exact hdigit r hlt hc

def wc : Loop where
  turn lines c := if c ≠ 0 then (if c = 10 then lines + 1 else lines, [c]) else (lines, [])
  finish lines := lineasEs ++ numeral 10 lines ++ [10]
  yields := 100
  turn_clean lines c hc := by
    split <;> simp [Ne.symm hc]
  finish_clean lines := by
    intro hmem
    rcases List.mem_append.mp hmem with hmem | hmem
    · rcases List.mem_append.mp hmem with hmem | hmem
      · exact absurd hmem (by decide)
      · exact eof_notMem_numeral lines hmem
    · exact absurd hmem (by decide)

/-! ## What a loop computes -/

/-- A loop on its way: its count of lines, whether it is over, and all that it put. -/
structure Progress where
  lines : Nat
  ended : Bool
  put : List UInt8

def Progress.start : Progress := ⟨1, false, []⟩

/-- `getchar` gave `c`. -/
def Loop.take (l : Loop) (s : Progress) (c : UInt8) : Progress :=
  if s.ended then s
  else if c = EOF then ⟨s.lines, true, s.put ++ l.finish s.lines⟩
  else ⟨(l.turn s.lines c).1, false, s.put ++ (l.turn s.lines c).2⟩

def Loop.after (l : Loop) (input : List UInt8) : Progress := input.foldl l.take .start

/-- What the loop puts for an input. -/
def Loop.output (l : Loop) (input : List UInt8) : List UInt8 := (l.after input).put

theorem Loop.after_snoc (l : Loop) (input : List UInt8) (c : UInt8) :
    l.after (input ++ [c]) = l.take (l.after input) c := by
  simp [Loop.after]

theorem Loop.put_take (l : Loop) (s : Progress) (c : UInt8) : s.put <+: (l.take s c).put := by
  unfold Loop.take
  split
  · exact List.prefix_rfl
  · split <;> exact List.prefix_append _ _

/-- More input, more output. -/
theorem Loop.output_mono (l : Loop) {input more : List UInt8} (h : input <+: more) :
    l.output input <+: l.output more := by
  obtain ⟨rest, rfl⟩ := h
  induction rest using List.reverseRecOn with
  | nil => simp
  | append_singleton rest c ih =>
    rw [← List.append_assoc]
    unfold Loop.output at ih ⊢
    rw [Loop.after_snoc]
    exact ih.trans (l.put_take _ c)

/-- A loop never puts the end of the input. -/
theorem Loop.eof_notMem_output (l : Loop) (input : List UInt8) : EOF ∉ l.output input := by
  induction input using List.reverseRecOn with
  | nil => simp [Loop.output, Loop.after, Progress.start]
  | append_singleton input c ih =>
    unfold Loop.output at ih ⊢
    rw [Loop.after_snoc, Loop.take]
    split
    · exact ih
    · split
      · simp [ih, l.finish_clean]
      · rename_i hc
        simp [ih, l.turn_clean _ c hc]

/-! ## The processes -/

/-- Where a process is in `syscall_exit`. -/
inductive Leaving
  /-- In `closePipe`, after its `sem_wait`. -/
  | close (pipe : Nat)
  /-- After the first `yield`. -/
  | exit
  | gone

/-- A process in such a loop: its descriptors, its call on a pipe, what it still has to put, and
how often it still yields. `keys` is what `getAscii` will give. No code reads `read` and `printed`,
what `getchar` gave and what went to the screen. -/
structure Worker where
  loop : Loop
  stdin : Int
  stdout : Int
  client : Client
  lines : Nat
  ended : Bool
  out : List UInt8
  yields : Nat
  leaving : Option Leaving
  keys : List UInt8
  read : List UInt8
  printed : List UInt8

/-- `getchar` gives `c` to the loop. -/
def Worker.got (w : Worker) (c : UInt8) : Worker :=
  let next := w.loop.take ⟨w.lines, w.ended, w.out⟩ c
  { w with lines := next.lines, ended := next.ended, out := next.put, read := w.read ++ [c] }

/-- A call on a pipe went on. `syscall_read` gives the byte, or the end of the input when
`readPipe` gave none. -/
def Worker.goesOn (w : Worker) (c : Client) : Worker :=
  match c.task, c.returns.getLast? with
  | none, some r =>
    match r.request.way with
    | .read => { w with client := c }.got (if r.result ≤ 0 then EOF else r.buffer 0)
    | .write => { w with client := c }
  | _, _ => { w with client := c }

/-- `syscall_read` and `syscall_write` pass one byte. -/
def Worker.getchar (w : Worker) : Request := ⟨.read, w.stdin, some fun _ => 0, 1⟩

def Worker.putchar (w : Worker) (c : UInt8) : Request := ⟨.write, w.stdout, some fun _ => c, 1⟩

/-- What comes behind the loop: the `yield`s of `wc`, and `sys_exit`. -/
def Worker.leave (w : Worker) (s : System H) (p : Pcb) (g : Shared) (rsp : Addr) :
    List Call × Worker × Shared :=
  match w.leaving with
  | none =>
    if w.yields > 0 then ([.scheduler (.yield rsp)], { w with yields := w.yields - 1 }, g)
    else if w.stdout ≥ 3 then
      match validatePipeId g.manager w.stdout with
      | none => ([.scheduler (.yield rsp)], { w with leaving := some .exit }, g)
      | some x =>
        ([.sem_wait (g.manager.pipes x).mutex rsp], { w with leaving := some (.close x) }, g)
    else (exitCalls s p rsp, { w with leaving := some .gone }, g)
  | some (.close x) =>
    let (calls, pipe) := closePipe (g.manager.pipes x)
    (calls ++ [.scheduler (.yield rsp)], { w with leaving := some .exit },
      { g with manager := g.manager.setPipe x pipe })
  | some .exit => (exitCalls s p rsp, { w with leaving := some .gone }, g)
  | some .gone => ([], w, g)

/-- The next step of a process: it puts what it has to put, and gets the next character when there
is nothing more to put. A descriptor from 3 on is a pipe. -/
def loops : Program H Worker Shared := fun s p w g rsp =>
  match w.client.task with
  | some _ =>
    let (calls, c, g) := clients s p w.client g rsp
    (calls, w.goesOn c, g)
  | none =>
    match w.out with
    | c :: out =>
      if w.stdout ≥ 3 then
        let (calls, c, g) := clients s p { w.client with todo := [w.putchar c] } g rsp
        (calls, { w with out := out }.goesOn c, g)
      else if (w.stdout = STDOUT.val ∨ w.stdout = STDERR.val) ∧ c ≠ EOF then
        ([], { w with out := out, printed := w.printed ++ [c] }, g)
      else ([], { w with out := out }, g)
    | [] =>
      if w.ended then w.leave s p g rsp
      else if w.stdin ≥ 3 then
        let (calls, c, g) := clients s p { w.client with todo := [w.getchar] } g rsp
        (calls, w.goesOn c, g)
      else if w.stdin = STDIN.val then
        match w.keys with
        | [] => ([], w, g)
        | c :: keys => ([], { w with keys := keys }.got c, g)
      else ([], w.got 0, g)

/-- The next step of the process is the first of `sys_exit`. -/
def Worker.atExit (w : Worker) : Prop :=
  w.client.task.isNone ∧ w.out = [] ∧ w.ended ∧ w.yields = 0

instance (w : Worker) : Decidable w.atExit := inferInstanceAs (Decidable (_ ∧ _))

/-- Nobody begins `sys_exit`. -/
def beforeExit (m : Machine H Worker Shared) : Event → Prop
  | .run _ => ∀ p ∈ m.system.scheduler.currentProcess, ¬ (m.locals p).atExit
  | .other _ => True

instance (m : Machine H Worker Shared) (e : Event) : Decidable (beforeExit m e) :=
  match e with
  | .run _ => inferInstanceAs (Decidable (∀ p ∈ m.system.scheduler.currentProcess,
      ¬ (m.locals p).atExit))
  | .other _ => isTrue trivial

/-! ## One process -/

/-- The bytes that the process passed to pipes. -/
def Worker.written (w : Worker) : List UInt8 :=
  (w.client.requests.filter fun r => r.way = .write).map fun r => (r.buffer.getD fun _ => 0) 0

/-- The bytes that it got from pipes, in calls that returned. -/
def Worker.received (w : Worker) : List UInt8 :=
  (w.client.returns.filter fun r => r.request.way = .read).map fun r => r.buffer 0

/-- The process is where its loop is after what it read: all that the loop put went out, or is
still to go. It began as `first`. -/
structure Worker.Ok (fd : Int) (w first : Worker) : Prop where
  same : w.loop = first.loop ∧ w.stdin = first.stdin ∧ w.stdout = first.stdout
  stdin : w.stdin = fd ∨ w.stdin = STDIN.val
  stdout : w.stdout = fd ∨ w.stdout = STDOUT.val
  requests : ∀ r ∈ w.client.requests,
    (r = w.getchar ∧ w.stdin = fd) ∨ ∃ c, r = w.putchar c ∧ w.stdout = fd
  progress : w.loop.after w.read = ⟨w.lines, w.ended, w.written ++ w.printed ++ w.out⟩
  leaving : w.leaving = none
  printed : w.stdout = fd → w.printed = []
  keyboard : w.stdin = STDIN.val → w.read ++ w.keys = first.keys
  pipe : w.stdin = fd → w.read = w.received

section Worker

variable {fd : Int} {first w : Worker} {c : UInt8}

theorem Loop.take_append (l : Loop) (lines : Nat) (ended : Bool) (before out : List UInt8)
    (c : UInt8) : l.take ⟨lines, ended, before ++ out⟩ c =
      { l.take ⟨lines, ended, out⟩ c with
        put := before ++ (l.take ⟨lines, ended, out⟩ c).put } := by
  unfold Loop.take
  dsimp only
  split
  · rfl
  · split <;> simp

theorem progress_got (h : w.loop.after w.read = ⟨w.lines, w.ended, w.written ++ w.printed ++ w.out⟩)
    (c : UInt8) : w.loop.after (w.read ++ [c]) =
      ⟨(w.got c).lines, (w.got c).ended, w.written ++ w.printed ++ (w.got c).out⟩ := by
  rw [Loop.after_snoc, h, Loop.take_append]
  rfl

/-- What is to be put is not the end of the input. -/
theorem Worker.Ok.out_ne_eof (h : w.Ok fd first) (hc : c ∈ w.out) : c ≠ EOF := by
  intro he
  have hput : (w.loop.after w.read).put = w.written ++ w.printed ++ w.out := by rw [h.progress]
  apply w.loop.eof_notMem_output w.read
  rw [Loop.output, hput, ← he]
  exact List.mem_append_right _ hc

/-- A character goes to the screen. -/
theorem Worker.Ok.prints (h : w.Ok fd first) {out : List UInt8} (hout : w.out = c :: out)
    (hfd : w.stdout ≠ fd) : ({ w with out := out, printed := w.printed ++ [c] }).Ok fd first := by
  refine ⟨h.same, h.stdin, h.stdout, h.requests, ?_, h.leaving, fun he => absurd he hfd, h.keyboard,
    h.pipe⟩
  have hprogress := h.progress
  rw [hout] at hprogress
  show w.loop.after w.read = ⟨w.lines, w.ended, w.written ++ (w.printed ++ [c]) ++ out⟩
  rw [hprogress]
  simp

/-- A key comes in. -/
theorem Worker.Ok.types (h : w.Ok fd first) {keys : List UInt8} (hkeys : w.keys = c :: keys)
    (hfd : w.stdin ≠ fd) : (Worker.got { w with keys := keys } c).Ok fd first := by
  refine ⟨h.same, h.stdin, h.stdout, h.requests, progress_got h.progress c, h.leaving, h.printed,
    fun hin => ?_, fun he => absurd he hfd⟩
  have hread := h.keyboard hin
  rw [hkeys] at hread
  show w.read ++ [c] ++ keys = first.keys
  rw [← hread]
  simp

/-- It yields behind its loop. -/
theorem Worker.Ok.yields (h : w.Ok fd first) :
    ({ w with yields := w.yields - 1 }).Ok fd first :=
  ⟨h.same, h.stdin, h.stdout, h.requests, h.progress, h.leaving, h.printed, h.keyboard, h.pipe⟩

/-- It asks for a character of the pipe. -/
theorem Worker.Ok.asks (h : w.Ok fd first) (htodo : w.client.todo = []) (hfd : w.stdin = fd) :
    ({ w with client := { w.client with todo := [w.getchar] } }).Ok fd first := by
  have hrequests : ({ w.client with todo := [w.getchar] } : Client).requests =
      w.client.requests ++ [w.getchar] := by
    simp [Client.requests, htodo]
  refine ⟨h.same, h.stdin, h.stdout, fun r hr => ?_, ?_, h.leaving, h.printed, h.keyboard, h.pipe⟩
  · rw [hrequests] at hr
    rcases List.mem_append.mp hr with hr | hr
    · exact h.requests r hr
    · exact Or.inl ⟨List.mem_singleton.mp hr, hfd⟩
  · rw [Worker.written, hrequests, List.filter_append]
    have hno : [w.getchar].filter (fun r => r.way = .write) = [] := by simp [Worker.getchar]
    rw [hno, List.append_nil]
    exact h.progress

/-- It passes a character to the pipe. -/
theorem Worker.Ok.puts (h : w.Ok fd first) (htodo : w.client.todo = []) {out : List UInt8}
    (hout : w.out = c :: out) (hfd : w.stdout = fd) :
    ({ w with client := { w.client with todo := [w.putchar c] }, out := out }).Ok fd first := by
  have hrequests : ({ w.client with todo := [w.putchar c] } : Client).requests =
      w.client.requests ++ [w.putchar c] := by
    simp [Client.requests, htodo]
  refine ⟨h.same, h.stdin, h.stdout, fun r hr => ?_, ?_, h.leaving, h.printed, h.keyboard, h.pipe⟩
  · rw [hrequests] at hr
    rcases List.mem_append.mp hr with hr | hr
    · exact h.requests r hr
    · exact Or.inr ⟨c, List.mem_singleton.mp hr, hfd⟩
  · have hprogress := h.progress
    rw [hout, h.printed hfd] at hprogress
    rw [Worker.written, hrequests, List.filter_append, List.map_append]
    show w.loop.after w.read = ⟨w.lines, w.ended, (w.written ++ [c]) ++ w.printed ++ out⟩
    rw [hprogress, h.printed hfd]
    simp

@[simp] theorem Worker.client_goesOn (w : Worker) (c : Client) : (w.goesOn c).client = c := by
  unfold Worker.goesOn Worker.got
  split
  · split <;> rfl
  · rfl

/-- What a call did to a client: it goes on, or it returned. -/
inductive Advances (c c' : Client) : Prop
  | stays (ht : c'.task.isSome) (hr : c'.returns = c.returns)
  | returns (r : Return) (ht : c'.task = none) (hr : c'.returns = c.returns ++ [r])
      (hone : r.request.way = .read → r.result = 1)

/-- A call on the pipe goes on. -/
theorem Worker.Ok.goesOn (h : w.Ok fd first) {c' : Client} (hfd : fd ≠ STDIN.val)
    (hrequests : c'.requests = w.client.requests) (ha : Advances w.client c') :
    (w.goesOn c').Ok fd first := by
  have hprogress : w.loop.after w.read =
      ⟨w.lines, w.ended, ({ w with client := c' } : Worker).written ++ w.printed ++ w.out⟩ := by
    rw [Worker.written, hrequests]
    exact h.progress
  have hcalls : ∀ r ∈ c'.requests,
      (r = w.getchar ∧ w.stdin = fd) ∨ ∃ c, r = w.putchar c ∧ w.stdout = fd := by
    rw [hrequests]
    exact h.requests
  cases ha with
  | stays ht hr =>
    obtain ⟨t, ht⟩ := Option.isSome_iff_exists.mp ht
    have hsame : w.goesOn c' = { w with client := c' } := by
      unfold Worker.goesOn
      rw [ht]
    rw [hsame]
    refine ⟨h.same, h.stdin, h.stdout, hcalls, hprogress, h.leaving, h.printed, h.keyboard,
      fun hin => ?_⟩
    rw [Worker.received, hr]
    exact h.pipe hin
  | returns r ht hr hone =>
    have hlast : c'.returns.getLast? = some r := by simp [hr]
    have hin : r.request ∈ c'.requests := by
      unfold Client.requests
      rw [hr]
      simp
    cases hway : r.request.way with
    | write =>
      have hsame : w.goesOn c' = { w with client := c' } := by
        unfold Worker.goesOn
        rw [ht, hlast]
        simp only [hway]
      rw [hsame]
      refine ⟨h.same, h.stdin, h.stdout, hcalls, hprogress, h.leaving, h.printed, h.keyboard,
        fun hstdin => ?_⟩
      rw [Worker.received, hr, List.filter_append]
      have hno : [r].filter (fun r => r.request.way = .read) = [] := by simp [hway]
      rw [hno, List.append_nil]
      exact h.pipe hstdin
    | read =>
      have hstdin : w.stdin = fd := by
        rcases hcalls _ hin with ⟨_, hs⟩ | ⟨c, hc, _⟩
        · exact hs
        · rw [hc] at hway
          cases hway
      have hsame : w.goesOn c' = Worker.got { w with client := c' } (r.buffer 0) := by
        unfold Worker.goesOn
        rw [ht, hlast]
        simp [hway, hone hway]
      rw [hsame]
      refine ⟨h.same, h.stdin, h.stdout, hcalls,
        progress_got (w := { w with client := c' }) hprogress _, h.leaving, h.printed,
        fun hkeys => ?_, fun _ => ?_⟩
      · exact absurd (hstdin.symm.trans hkeys) hfd
      · show w.read ++ [r.buffer 0] = _
        rw [h.pipe hstdin, Worker.received, Worker.received]
        show _ = (c'.returns.filter _).map _
        rw [hr, List.filter_append, List.map_append]
        simp [hway]

end Worker

/-! ## The machine -/

/-- The processes as the pipe sees them. -/
def users (m : Machine H Worker Shared) : Users H :=
  ⟨m.system, fun p => (m.locals p).client, m.shared⟩

section Steps

variable {ps : Finset Pcb} {x : Nat} {ids : Gate → Int} {first : Pcb → Worker}
  {m : Machine H Worker Shared} {p : Pcb} {rsp : Addr}

/-- The next request of a process is taken up. -/
theorem streams_supply {u : Users H} (h : Streams ps x ids u) (hp : p ∈ ps)
    (ht : (u.locals p).task = none) {r : Request}
    (hr : r.Proper ((x : Int) + 3)) :
    Streams ps x ids { u with
      locals := Function.update u.locals p { u.locals p with todo := [r] } } := by
  have hmoved : ∀ q way, (Function.update u.locals p { u.locals p with todo := [r] } q).moved way =
      (u.locals q).moved way := by
    intro q way
    by_cases hq : q = p
    · rw [hq, Function.update_self]
      rfl
    · rw [Function.update_of_ne hq]
  have hpast : ∀ q g, (Function.update u.locals p { u.locals p with todo := [r] } q).past g =
      (u.locals q).past g := by
    intro q g
    by_cases hq : q = p
    · rw [hq, Function.update_self]
      rfl
    · rw [Function.update_of_ne hq]
  refine ⟨⟨h.flow.gates, h.flow.pipe, fun g => ?_, fun g q hq => ?_, fun q => ?_, fun q hq => ?_⟩,
    fun q => ?_, fun way => (h.parts way).congr fun q => hmoved q way⟩
  · rw [Finset.sum_congr rfl fun q _ => hpast q g]
    exact h.flow.flight g
  · obtain ⟨t, htask, hw⟩ := h.flow.blocked g q hq
    by_cases hqp : q = p
    · rw [hqp, ht] at htask
      cases htask
    · dsimp only
      rw [Function.update_of_ne hqp]
      exact ⟨t, htask, hw⟩
  · by_cases hq : q = p
    · dsimp only
      rw [hq, Function.update_self]
      have hclient := h.flow.clients p
      refine ⟨fun r' hr' => ?_, hclient.task, hclient.returns⟩
      rw [List.mem_singleton.mp hr']
      exact hr
    · dsimp only
      rw [Function.update_of_ne hq]
      exact h.flow.clients q
  · have hne : q ≠ p := fun he => hq (he ▸ hp)
    dsimp only
    rw [Function.update_of_ne hne]
    exact h.flow.idle q hq
  · by_cases hq : q = p
    · dsimp only
      rw [hq, Function.update_self]
      exact ⟨(h.keeps p).task, (h.keeps p).returns⟩
    · dsimp only
      rw [Function.update_of_ne hq]
      exact h.keeps q

/-- Every process is where its loop is after what it read, and the pipe between them is a queue. -/
structure Runs (ps : Finset Pcb) (x : Nat) (ids : Gate → Int) (first : Pcb → Worker)
    (m : Machine H Worker Shared) : Prop where
  streams : Streams ps x ids (users m)
  workers : ∀ p, (m.locals p).Ok ((x : Int) + 3) (first p)
  todo : ∀ p, (m.locals p).client.todo = []
  members : ∀ p, (first p).stdin = (x : Int) + 3 ∨ (first p).stdout = (x : Int) + 3 → p ∈ ps

/-- What a step of a call does to its process. -/
theorem advances_clients {u : Users H} (h : Streams ps x ids u) (hx : x < MAX_PIPES)
    (hcur : u.system.scheduler.currentProcess = some p)
    (hbusy : ((u.locals p).task.isSome ∧ (u.locals p).todo = []) ∨
      ((u.locals p).task = none ∧ ∃ r, (u.locals p).todo = [r]))
    (hafter : ∀ r ∈ (clients u.system p (u.locals p) u.shared rsp).2.1.returns,
      r.request.way = .read → r.result = 1) :
    Advances (u.locals p) (clients u.system p (u.locals p) u.shared rsp).2.1 ∧
      (clients u.system p (u.locals p) u.shared rsp).2.1.todo = [] := by
  rcases hbusy with ⟨htask, htodo⟩ | ⟨htask, r, htodo⟩
  · obtain ⟨t, ht⟩ := Option.isSome_iff_exists.mp htask
    simp only [clients, ht] at hafter ⊢
    cases hret : (t.move u.shared rsp).returned with
    | none => exact ⟨.stays rfl rfl, htodo⟩
    | some result =>
      rw [hret] at hafter
      refine ⟨.returns _ rfl rfl fun hway => ?_, htodo⟩
      exact hafter _ (List.mem_append_right _ (List.mem_singleton_self _)) hway
  · obtain ⟨t, hstart, _⟩ := flow_start h.flow hx hcur htask htodo
    simp only [clients, htask, htodo, hstart]
    exact ⟨.stays rfl rfl, trivial⟩

variable [MemoryManager H]

/-- A step of a call on the pipe. -/
theorem runs_call (hn : Serves H NODE_SIZE) (hm : Serves H PID_SIZE)
    (hids : Function.Injective ids) (hx : x < MAX_PIPES) (h : Runs ps x ids first m)
    (hcur : m.system.scheduler.currentProcess = some p) {w : Worker}
    (hw : w.Ok ((x : Int) + 3) (first p))
    (hstreams : Streams ps x ids
      { users m with locals := Function.update (users m).locals p w.client })
    (hbusy : (w.client.task.isSome ∧ w.client.todo = []) ∨
      (w.client.task = none ∧ ∃ r, w.client.todo = [r]))
    (hok : Meets step (ownCall ids) m.system (clients m.system p w.client m.shared rsp).1) :
    Runs ps x ids first
      ⟨run step m.system (clients m.system p w.client m.shared rsp).1,
        Function.update m.locals p (w.goesOn (clients m.system p w.client m.shared rsp).2.1),
        (clients m.system p w.client m.shared rsp).2.2⟩ := by
  obtain ⟨u, hu⟩ : ∃ u, { users m with
      locals := Function.update (users m).locals p w.client } = u := ⟨_, rfl⟩
  have hself : u.locals p = w.client := by
    rw [← hu]
    exact Function.update_self _ _ _
  have hsystem : u.system = m.system := by rw [← hu]; rfl
  have hshared : u.shared = m.shared := by rw [← hu]; rfl
  rw [hu] at hstreams
  have hcur' : u.system.scheduler.currentProcess = some p := by rw [hsystem, hcur]
  have hnext : next clients u (.run rsp) =
      ⟨run step m.system (clients m.system p w.client m.shared rsp).1,
        Function.update u.locals p (clients m.system p w.client m.shared rsp).2.1,
        (clients m.system p w.client m.shared rsp).2.2⟩ := by
    simp only [next, hsystem, hcur, hself, hshared]
  have hallows : Allows clients (ownCall ids) (otherCall ids) u (.run rsp) := by
    intro q hq
    rw [hcur'] at hq
    cases hq
    rw [hself, hsystem, hshared]
    exact hok
  obtain ⟨hafter, hrequests⟩ := streams_next hn hm hids hx u _ hstreams hallows
  rw [hnext] at hafter hrequests
  have hkept := hrequests p
  dsimp only at hkept
  rw [hself, Function.update_self] at hkept
  -- every request is one of a byte
  have hone : ∀ r ∈ (clients m.system p w.client m.shared rsp).2.1.returns,
      r.request.way = .read → r.result = 1 := by
    intro r hr _
    have hclient := hafter.flow.clients p
    dsimp only at hclient
    rw [Function.update_self] at hclient
    have hin : r.request ∈ w.client.requests := by
      rw [← hkept]
      unfold Client.requests
      simp [List.mem_map_of_mem hr]
    have hsize : r.request.size = 1 := by
      rcases hw.requests _ hin with ⟨hr, _⟩ | ⟨c, hr, _⟩ <;> rw [hr] <;> rfl
    rw [hclient.returns r hr, hsize]
  have hadvances := advances_clients (u := u) (p := p) hstreams hx hcur' (by rwa [hself])
    (by rwa [hself, hsystem, hshared])
  rw [hself, hsystem, hshared] at hadvances
  generalize clients m.system p w.client m.shared rsp = r at hafter hkept hadvances ⊢
  obtain ⟨hadvances, htodo⟩ := hadvances
  have hok' := hw.goesOn (by simp [STDIN]; omega) hkept hadvances
  refine ⟨?_, fun q => ?_, fun q => ?_, h.members⟩
  · have hlocals : (fun q => (Function.update m.locals p (w.goesOn r.2.1) q).client) =
        Function.update u.locals p r.2.1 := by
      funext q
      by_cases hq : q = p
      · rw [hq, Function.update_self, Function.update_self, Worker.client_goesOn]
      · rw [Function.update_of_ne hq, Function.update_of_ne hq, ← hu]
        show (m.locals q).client = Function.update (users m).locals p w.client q
        rw [Function.update_of_ne hq]
        rfl
    unfold users
    dsimp only
    rw [hlocals]
    exact hafter
  · dsimp only
    by_cases hq : q = p
    · rw [hq, Function.update_self]
      exact hok'
    · rw [Function.update_of_ne hq]
      exact h.workers q
  · dsimp only
    by_cases hq : q = p
    · rw [hq, Function.update_self, Worker.client_goesOn]
      exact htodo
    · rw [Function.update_of_ne hq]
      exact h.todo q

omit [MemoryManager H] in
/-- A step without a call on the pipe. -/
theorem runs_alone (h : Runs ps x ids first m) {w : Worker}
    (hw : w.Ok ((x : Int) + 3) (first p)) (hclient : w.client = (m.locals p).client) :
    Runs ps x ids first { m with locals := Function.update m.locals p w } := by
  have husers : users { m with locals := Function.update m.locals p w } = users m := by
    have hlocals : (fun q => (Function.update m.locals p w q).client) =
        fun q => (m.locals q).client := by
      funext q
      by_cases hq : q = p
      · rw [hq, Function.update_self, hclient]
      · rw [Function.update_of_ne hq]
    unfold users
    dsimp only
    rw [hlocals]
  refine ⟨husers ▸ h.streams, fun q => ?_, fun q => ?_, h.members⟩ <;> dsimp only
  · by_cases hq : q = p
    · rw [hq, Function.update_self]
      exact hw
    · rw [Function.update_of_ne hq]
      exact h.workers q
  · by_cases hq : q = p
    · rw [hq, Function.update_self, hclient]
      exact h.todo p
    · rw [Function.update_of_ne hq]
      exact h.todo q

omit [MemoryManager H] in
/-- What a process does next: it goes on in a call on the pipe, it starts one, or it goes on
alone, perhaps with a `yield`. -/
theorem loops_cases {first w : Worker} {fd : Int} (h : w.Ok fd first) (hfd : 3 ≤ fd)
    (htodo : w.client.todo = []) (hstays : ¬ w.atExit) (s : System H) (p : Pcb) (g : Shared)
    (rsp : Addr) :
    (∃ w' : Worker, w'.Ok fd first ∧
      ((w.client.task.isSome ∧ w'.client = w.client) ∨
        (w.client.task = none ∧ (first.stdin = fd ∨ first.stdout = fd) ∧
          ∃ r, r.Proper fd ∧ w'.client = { w.client with todo := [r] })) ∧
      loops s p w g rsp = ((clients s p w'.client g rsp).1,
        w'.goesOn (clients s p w'.client g rsp).2.1, (clients s p w'.client g rsp).2.2)) ∨
    ∃ w' : Worker, w'.Ok fd first ∧ w'.client = w.client ∧
      (loops s p w g rsp = ([], w', g) ∨
        loops s p w g rsp = ([.scheduler (.yield rsp)], w', g)) := by
  have hin : w.stdin ≥ 3 ↔ w.stdin = fd := by
    rcases h.stdin with hs | hs <;> simp [hs, STDIN] <;> omega
  have hout : w.stdout ≥ 3 ↔ w.stdout = fd := by
    rcases h.stdout with hs | hs <;> simp [hs, STDOUT] <;> omega
  unfold loops
  cases ht : w.client.task with
  | some t =>
    dsimp only
    exact Or.inl ⟨w, h, Or.inl ⟨rfl, rfl⟩, rfl⟩
  | none =>
    dsimp only
    cases hw : w.out with
    | cons c out =>
      dsimp only
      by_cases hpipe : w.stdout = fd
      · rw [if_pos (hout.mpr hpipe)]
        refine Or.inl ⟨_, h.puts htodo hw hpipe, Or.inr ⟨rfl, Or.inr ?_, ?_⟩, rfl⟩
        · exact h.same.2.2.symm.trans hpipe
        · exact ⟨w.putchar c, ⟨hpipe, rfl, (by decide : (0 : Int) < 1)⟩, rfl⟩
      · have hscreen := h.stdout.resolve_left hpipe
        have hc : c ≠ EOF := h.out_ne_eof (by simp [hw])
        rw [if_neg (fun hge => hpipe (hout.mp hge)), if_pos ⟨Or.inl hscreen, hc⟩]
        exact Or.inr ⟨_, h.prints hw hpipe, rfl, Or.inl rfl⟩
    | nil =>
      dsimp only
      by_cases hended : w.ended
      · have hyields : w.yields > 0 := by
          apply Nat.pos_of_ne_zero
          intro hzero
          exact hstays ⟨by rw [ht]; rfl, hw, hended, hzero⟩
        rw [if_pos hended, Worker.leave, h.leaving]
        dsimp only
        rw [if_pos hyields]
        exact Or.inr ⟨_, h.yields, rfl, Or.inr (by rw [h.leaving])⟩
      rw [if_neg hended]
      by_cases hpipe : w.stdin = fd
      · rw [if_pos (hin.mpr hpipe)]
        refine Or.inl ⟨_, h.asks htodo hpipe, Or.inr ⟨rfl, Or.inl ?_, ?_⟩, rfl⟩
        · exact h.same.2.1.symm.trans hpipe
        · exact ⟨w.getchar, ⟨hpipe, rfl, (by decide : (0 : Int) < 1)⟩, rfl⟩
      · rw [if_neg (fun hge => hpipe (hin.mp hge)), if_pos (h.stdin.resolve_left hpipe)]
        cases hkeys : w.keys with
        | nil => exact Or.inr ⟨w, h, rfl, Or.inl rfl⟩
        | cons c keys => exact Or.inr ⟨_, h.types hkeys hpipe, rfl, Or.inl (by rw [hw])⟩

theorem runs_next (hn : Serves H NODE_SIZE) (hm : Serves H PID_SIZE)
    (hids : Function.Injective ids) (hx : x < MAX_PIPES) (m : Machine H Worker Shared) (e : Event)
    (h : Runs ps x ids first m)
    (hok : Allows loops (ownCall ids) (otherCall ids) m e ∧ beforeExit m e) :
    Runs ps x ids first (next loops m e) := by
  cases e with
  | other c =>
    have hstreams := (streams_next hn hm hids hx (users m) (.other c) h.streams hok.1).1
    exact ⟨hstreams, h.workers, h.todo, h.members⟩
  | run rsp =>
    cases hcur : m.system.scheduler.currentProcess with
    | none =>
      have hsame : next loops m (.run rsp) = m := by simp only [next, hcur]
      rw [hsame]
      exact h
    | some p =>
      have hcalls := hok.1 p hcur
      simp only [next, hcur]
      rcases loops_cases (h.workers p) (by omega) (h.todo p) (hok.2 p hcur) m.system p m.shared rsp
        with ⟨w, hw, hclient, heq⟩ | ⟨w, hw, hclient, heq | heq⟩
      · rw [heq] at hcalls ⊢
        rcases hclient with ⟨hbusy, hsame⟩ | ⟨hidle, huses, r, hr, hnew⟩
        · have hstreams : Streams ps x ids
              { users m with locals := Function.update (users m).locals p w.client } := by
            rw [hsame]
            show Streams ps x ids { users m with
              locals := Function.update (users m).locals p ((users m).locals p) }
            rw [Function.update_eq_self]
            exact h.streams
          apply runs_call hn hm hids hx h hcur hw hstreams ?_ hcalls
          rw [hsame]
          exact Or.inl ⟨hbusy, h.todo p⟩
        · have hstreams : Streams ps x ids
              { users m with locals := Function.update (users m).locals p w.client } := by
            rw [hnew]
            exact streams_supply h.streams (h.members p huses) hidle hr
          apply runs_call hn hm hids hx h hcur hw hstreams ?_ hcalls
          rw [hnew]
          exact Or.inr ⟨hidle, r, rfl⟩
      · rw [heq]
        exact runs_alone h hw hclient
      · rw [heq] at hcalls ⊢
        have hother : otherCall ids m.system (.scheduler (.yield rsp)) :=
          ⟨hcalls.1, fun _ hnames => hnames⟩
        have hstreams := (streams_next hn hm hids hx (users m) (.other _) h.streams hother).1
        have hyielded : Runs ps x ids first
            { m with system := step m.system (.scheduler (.yield rsp)) } :=
          ⟨hstreams, h.workers, h.todo, h.members⟩
        exact runs_alone hyielded hw hclient

end Steps

/-! ## What is in between -/

theorem firstBytes_one (buffer : Nat → UInt8) : firstBytes buffer 1 = [buffer 0] := rfl

/-- A call of one byte has moved it or not. -/
theorem firstBytes_of_one {fd : Int} {x : Nat} {t : Task} (h : t.Ok fd x) (hi : 0 ≤ t.i)
    (hsize : t.request.size = 1) :
    firstBytes t.buffer t.bytes = [] ∨ firstBytes t.buffer t.bytes = [t.buffer 0] := by
  have hle := h.le
  rw [h.bytes]
  rcases (by omega : t.i = 0 ∨ t.i = 1) with hz | hone
  · rw [hz]
    exact Or.inl rfl
  · rw [hone]
    exact Or.inr rfl

section Between

variable {ps : Finset Pcb} {x : Nat} {ids : Gate → Int} {first : Pcb → Worker}
  {m : Machine H Worker Shared} {p : Pcb}

theorem Runs.size_one (h : Runs ps x ids first m) {r : Request}
    (hr : r ∈ (m.locals p).client.requests) : r.size = 1 := by
  rcases (h.workers p).requests r hr with ⟨hr, _⟩ | ⟨c, hr, _⟩ <;> rw [hr] <;> rfl

/-- The calls that returned moved a byte each. -/
theorem Runs.returned (h : Runs ps x ids first m) (way : Way) :
    ((m.locals p).client.returns.filter fun r => r.request.way = way).flatMap
        (fun r => firstBytes r.buffer r.result) =
      ((m.locals p).client.returns.filter fun r => r.request.way = way).map
        fun r => r.buffer 0 := by
  rw [List.map_eq_flatMap]
  apply List.flatMap_congr
  intro r hr
  have hmem := (List.mem_filter.mp hr).1
  have hin : r.request ∈ (m.locals p).client.requests := by
    unfold Client.requests
    simp [List.mem_map_of_mem hmem]
  have hresult : r.result = 1 := ((h.streams.flow.clients p).returns r hmem).trans (h.size_one hin)
  rw [hresult, firstBytes_one]

/-- The byte that is passed with a request to write. -/
theorem Runs.passed (h : Runs ps x ids first m) :
    (((m.locals p).client.returns.map Return.request).filter fun r => r.way = .write).map
        (fun r => (r.buffer.getD fun _ => 0) 0) =
      ((m.locals p).client.returns.filter fun r => r.request.way = .write).map
        fun r => r.buffer 0 := by
  rw [List.filter_map, List.map_map]
  apply List.map_congr_left
  intro r hr
  obtain ⟨hmem, hway⟩ := List.mem_filter.mp hr
  have hgiven := (h.streams.keeps p).returns r hmem (of_decide_eq_true hway)
  simp [hgiven]

/-- All that the process passed to the pipe went in, but for the byte of an open call. -/
theorem Runs.written (h : Runs ps x ids first m) (p : Pcb) :
    ∃ rest, (m.locals p).written = (m.locals p).client.moved .write ++ rest ∧
      ((m.locals p).client.task = none → rest = []) := by
  have hpassed := h.passed (p := p)
  have hreturned := h.returned (p := p) .write
  cases ht : (m.locals p).client.task with
  | none =>
    refine ⟨[], ?_, fun _ => rfl⟩
    rw [moved_none ht, hreturned, Worker.written, Client.requests, ht, h.todo p]
    simpa using hpassed
  | some t =>
    have hin : t.request ∈ (m.locals p).client.requests := by
      unfold Client.requests
      simp [ht]
    obtain ⟨hi, hbuffer⟩ := (h.streams.keeps p).task t ht
    have hone := firstBytes_of_one ((h.streams.flow.clients p).task t ht) hi (h.size_one hin)
    rw [moved_task ht, hreturned, Worker.written, Client.requests, ht, h.todo p]
    simp only [List.append_nil, List.filter_append, List.map_append, hpassed]
    by_cases hway : t.request.way = .write
    · rcases hone with hzero | hone
      · refine ⟨[t.buffer 0], ?_, fun hn => nomatch hn⟩
        simp [hway, hzero, hbuffer hway]
      · refine ⟨[], ?_, fun _ => rfl⟩
        simp [hway, hone, hbuffer hway]
    · refine ⟨[], ?_, fun _ => rfl⟩
      simp [hway]

/-- All that the process got from the pipe it has read, but for the byte of an open call. -/
theorem Runs.received (h : Runs ps x ids first m) (p : Pcb) :
    ∃ rest, (m.locals p).client.moved .read = (m.locals p).received ++ rest ∧
      ((∀ t ∈ (m.locals p).client.task, t.bytes = 0) → rest = []) := by
  have hreturned := h.returned (p := p) .read
  cases ht : (m.locals p).client.task with
  | none =>
    refine ⟨[], ?_, fun _ => rfl⟩
    rw [moved_none ht, hreturned, List.append_nil]
    rfl
  | some t =>
    refine ⟨if t.request.way = .read then firstBytes t.buffer t.bytes else [], ?_, fun hz => ?_⟩
    · rw [moved_task ht, hreturned]
      rfl
    · rw [hz t rfl, firstBytes_zero, ite_self]

/-- What the process takes from no pipe it did not get there. -/
theorem moved_of_requests {c : Client} {way : Way} (h : ∀ r ∈ c.requests, r.way ≠ way) :
    c.moved way = [] := by
  have hreturns : c.returns.filter (fun r => r.request.way = way) = [] := by
    apply List.filter_eq_nil_iff.mpr
    intro r hr hway
    refine h r.request ?_ (of_decide_eq_true hway)
    simp [Client.requests, List.mem_map_of_mem hr]
  cases ht : c.task with
  | none =>
    rw [moved_none ht, hreturns]
    rfl
  | some t =>
    have hway : t.request.way ≠ way := h t.request (by simp [Client.requests, ht])
    rw [moved_task ht, hreturns, if_neg hway]
    rfl

theorem Worker.Ok.no_reads {fd : Int} {w first : Worker} (h : w.Ok fd first) (hfd : w.stdin ≠ fd) :
    ∀ r ∈ w.client.requests, r.way ≠ .read := by
  intro r hr
  rcases h.requests r hr with ⟨_, hin⟩ | ⟨c, hput, _⟩
  · exact absurd hin hfd
  · simp [hput, Worker.putchar]

theorem Worker.Ok.no_writes {fd : Int} {w first : Worker} (h : w.Ok fd first)
    (hfd : w.stdout ≠ fd) : ∀ r ∈ w.client.requests, r.way ≠ .write := by
  intro r hr
  rcases h.requests r hr with ⟨hget, _⟩ | ⟨_, _, hout⟩
  · simp [hget, Worker.getchar]
  · exact absurd hout hfd

end Between

/-! ## Two processes and the pipe between them -/

/-- The processes start: `p` gets the keys and puts to the pipe, and `q` gets from the pipe and puts
to the screen. The others use the keyboard and the screen. -/
structure Starts (fd : Int) (p q : Pcb) (m : Machine H Worker Shared) : Prop where
  ne : p ≠ q
  past : m.shared.past = .start
  client : ∀ r, (m.locals r).client = ⟨[], none, []⟩
  progress : ∀ r, (m.locals r).lines = 1 ∧ (m.locals r).ended = false
  behind : ∀ r, (m.locals r).yields = (m.locals r).loop.yields ∧ (m.locals r).leaving = none
  nothing : ∀ r, (m.locals r).out = [] ∧ (m.locals r).read = [] ∧ (m.locals r).printed = []
  left : (m.locals p).stdin = STDIN.val ∧ (m.locals p).stdout = fd
  right : (m.locals q).stdin = fd ∧ (m.locals q).stdout = STDOUT.val
  others : ∀ r, r ≠ p → r ≠ q → (m.locals r).stdin = STDIN.val ∧ (m.locals r).stdout = STDOUT.val

/-- `q` has printed what its loop makes of what the loop of `p` makes of the keys. -/
structure Composes (x : Nat) (p q : Pcb) (before m : Machine H Worker Shared) : Prop where
  keys : (m.locals p).read ++ (m.locals p).keys = (before.locals p).keys
  printed : (m.locals q).printed <+:
    (before.locals q).loop.output ((before.locals p).loop.output (before.locals p).keys)
  /-- `p` has put all, and `q` waits for more. -/
  all : (m.locals p).out = [] → (m.locals p).client.task = none →
    ((users m).pipe x).contents = [] → (∀ t ∈ (m.locals q).client.task, t.bytes = 0) →
    (m.locals q).out = [] → (m.locals q).printed =
      (before.locals q).loop.output ((before.locals p).loop.output (m.locals p).read)

section Pipeline

variable {fd : Int} {p q : Pcb} {x : Nat} {ids : Gate → Int} {before m : Machine H Worker Shared}

theorem Starts.ready (h : Starts fd p q m) : Ready {p, q} fd (users m) := by
  have hclient : ∀ r, (users m).locals r = ⟨[], none, []⟩ := h.client
  refine ⟨h.past, fun r => ?_, fun r => ?_, fun r c hc => ?_, fun r _ => ?_⟩
  · rw [hclient r]
  · rw [hclient r]
  · rw [hclient r] at hc
    cases hc
  · rw [hclient r]

theorem Starts.ok (h : Starts fd p q m) (r : Pcb) : (m.locals r).Ok fd (m.locals r) := by
  obtain ⟨hlines, hended⟩ := h.progress r
  obtain ⟨hout, hread, hprinted⟩ := h.nothing r
  have hfds : ((m.locals r).stdin = fd ∨ (m.locals r).stdin = STDIN.val) ∧
      ((m.locals r).stdout = fd ∨ (m.locals r).stdout = STDOUT.val) := by
    by_cases hp : r = p
    · rw [hp]
      exact ⟨Or.inr h.left.1, Or.inl h.left.2⟩
    · by_cases hq : r = q
      · rw [hq]
        exact ⟨Or.inl h.right.1, Or.inr h.right.2⟩
      · obtain ⟨hin, hout⟩ := h.others r hp hq
        exact ⟨Or.inr hin, Or.inr hout⟩
  have hrequests : (m.locals r).client.requests = [] := by
    rw [h.client r]
    rfl
  refine ⟨⟨rfl, rfl, rfl⟩, hfds.1, hfds.2, fun c hc => ?_, ?_, (h.behind r).2, fun _ => hprinted,
    fun _ => ?_, fun _ => ?_⟩
  · rw [hrequests] at hc
    cases hc
  · rw [Worker.written, hrequests, hread, hlines, hended, hprinted, hout]
    rfl
  · rw [hread, List.nil_append]
  · rw [Worker.received, h.client r, hread]
    rfl

theorem Starts.runs (h : Starts ((x : Int) + 3) p q m)
    (hstreams : Streams {p, q} x ids (users m)) : Runs {p, q} x ids m.locals m := by
  refine ⟨hstreams, h.ok, fun r => ?_, fun r hr => ?_⟩
  · rw [h.client r]
  · by_contra hmem
    rw [Finset.mem_insert, Finset.mem_singleton, not_or] at hmem
    obtain ⟨hin, hout⟩ := h.others r hmem.1 hmem.2
    rw [hin, hout] at hr
    simp [STDIN, STDOUT] at hr
    omega

/-- What `q` has read, `p` has put. -/
theorem Runs.between (h : Runs {p, q} x ids before.locals m)
    (hs : Starts ((x : Int) + 3) p q before) :
    ∃ rest, (m.locals p).loop.output (m.locals p).read = (m.locals q).read ++ rest ∧
      ((m.locals p).out = [] → (m.locals p).client.task = none →
        ((users m).pipe x).contents = [] → (∀ t ∈ (m.locals q).client.task, t.bytes = 0) →
        rest = []) := by
  have hstdin : ∀ r, r ≠ q → (m.locals r).stdin ≠ (x : Int) + 3 := by
    intro r hr
    rw [(h.workers r).same.2.1]
    by_cases hp : r = p
    · rw [hp, hs.left.1]
      simp [STDIN]
      omega
    · rw [(hs.others r hp hr).1]
      simp [STDIN]
      omega
  have hstdout : ∀ r, r ≠ p → (m.locals r).stdout ≠ (x : Int) + 3 := by
    intro r hr
    rw [(h.workers r).same.2.2]
    by_cases hq : r = q
    · rw [hq, hs.right.2]
      simp [STDOUT]
      omega
    · rw [(hs.others r hr hq).2]
      simp [STDOUT]
      omega
  have hsent := (h.streams.parts .write).eq_of_alone (i := p) fun r hr =>
    moved_of_requests ((h.workers r).no_writes (hstdout r hr))
  have hgot := (h.streams.parts .read).eq_of_alone (i := q) fun r hr =>
    moved_of_requests ((h.workers r).no_reads (hstdin r hr))
  have hbytes := h.streams.flow.pipe.bytes
  obtain ⟨passing, hwritten, hpassing⟩ := h.written p
  obtain ⟨taken, hreceived, htaken⟩ := h.received q
  have hleft : (m.locals p).stdout = (x : Int) + 3 := (h.workers p).same.2.2.trans hs.left.2
  have hright : (m.locals q).stdin = (x : Int) + 3 := (h.workers q).same.2.1.trans hs.right.1
  have hput : (m.locals p).loop.output (m.locals p).read =
      (m.locals p).written ++ (m.locals p).printed ++ (m.locals p).out := by
    rw [Loop.output, (h.workers p).progress]
  refine ⟨taken ++ ((users m).pipe x).contents ++ passing ++ (m.locals p).out, ?_, ?_⟩
  · have hmoved : (m.locals p).client.moved .write =
        (m.locals q).client.moved .read ++ ((users m).pipe x).contents := by
      show ((users m).locals p).moved .write = ((users m).locals q).moved .read ++ _
      rw [← hsent, ← hgot]
      exact hbytes
    rw [hput, (h.workers p).printed hleft, hwritten, hmoved, hreceived, (h.workers q).pipe hright]
    simp
  · intro hout htask hempty hwaits
    rw [htaken hwaits, hempty, hpassing htask, hout]
    rfl

theorem Runs.composes (h : Runs {p, q} x ids before.locals m)
    (hs : Starts ((x : Int) + 3) p q before) : Composes x p q before m := by
  obtain ⟨rest, hput, hrest⟩ := h.between hs
  have hloop : ∀ r, (m.locals r).loop = (before.locals r).loop := fun r => (h.workers r).same.1
  have hkeys := (h.workers p).keyboard ((h.workers p).same.2.1.trans hs.left.1)
  have hnone : (m.locals q).written = [] := by
    have hout : (m.locals q).stdout ≠ (x : Int) + 3 := by
      rw [(h.workers q).same.2.2, hs.right.2]
      simp [STDOUT]
      omega
    unfold Worker.written
    rw [List.map_eq_nil_iff, List.filter_eq_nil_iff]
    intro r hr hway
    exact (h.workers q).no_writes hout r hr (of_decide_eq_true hway)
  have hprinted : (m.locals q).loop.output (m.locals q).read =
      (m.locals q).printed ++ (m.locals q).out := by
    rw [Loop.output, (h.workers q).progress, hnone]
    rfl
  rw [hloop] at hput hprinted
  refine ⟨hkeys, ?_, fun hout htask hempty hwaits hdone => ?_⟩
  · have hread : (m.locals q).read <+:
        (before.locals p).loop.output (before.locals p).keys := by
      apply List.IsPrefix.trans ⟨rest, hput.symm⟩
      exact Loop.output_mono _ ⟨_, hkeys⟩
    apply List.IsPrefix.trans ⟨(m.locals q).out, hprinted.symm⟩
    exact Loop.output_mono _ hread
  · rw [hrest hout htask hempty hwaits, List.append_nil] at hput
    rw [hdone, List.append_nil] at hprinted
    rw [hput, hprinted]

/-- However the two take turns, and whatever the others do, as long as nobody begins `sys_exit`. -/
theorem a_pipeline_prints_the_composition [MemoryManager H] (hn : Serves H NODE_SIZE)
    (hm : Serves H PID_SIZE) (hp : FreshPipe fd m.system m.shared.manager)
    (hs : Starts fd p q m) (hx : x = (fd - 3).toNat) (es : List Event)
    (hok : Meets (next loops) (fun m' e => Allows loops (ownCall ((users m).pipe x).sem)
      (otherCall ((users m).pipe x).sem) m' e ∧ beforeExit m' e) m es) :
    Composes x p q m (run (next loops) m es) := by
  obtain ⟨x', ids, rfl, hmax, hids, hsem, hflow⟩ := FreshPipe.flow (m := users m) hn hp hs.ready
  obtain rfl : x = x' := by omega
  rw [← hsem] at hok
  have hstart := hs.runs (hflow.streams hs.ready)
  exact (run_invariant (runs_next hn hm hids hmax) hstart hok).composes hs

end Pipeline

/-- Process 3 has the keys, and process 2 the screen. -/
def pipeline (left right : Loop) (keys : List UInt8) : Machine Endless Worker Shared where
  system := firstPipe.2.1
  locals p := if p = 3 then
      ⟨left, STDIN.val, 3, ⟨[], none, []⟩, 1, false, [], left.yields, none, keys, [], []⟩
    else if p = 2 then
      ⟨right, 3, STDOUT.val, ⟨[], none, []⟩, 1, false, [], right.yields, none, [], [], []⟩
    else ⟨cat, STDIN.val, STDOUT.val, ⟨[], none, []⟩, 1, false, [], 0, none, [], [], []⟩
  shared := ⟨firstPipe.2.2, .start⟩

/-- The right one comes first and blocks; the left one wakes it and takes `n` steps in all, and then
it runs. -/
def rightFirst (n k : Nat) : List Event :=
  .other (.scheduler (.createProcess 2 none 0 1 none 0)) :: elsewhere ++
  [.other (.scheduler (.createProcess 5 none 0 1 none 1)),
    .other (.scheduler (.createProcess 6 none 0 1 none 1))] ++ elsewhere ++
  List.replicate 2 (.run 7) ++ List.replicate n (.run 8) ++
  .other (.scheduler (.yield 9)) :: elsewhere ++ List.replicate k (.run 10)

theorem starts_pipeline (left right : Loop) (keys : List UInt8) :
    Starts 3 3 2 (pipeline left right keys) := by
  have hlocals : ∀ p, (pipeline left right keys).locals p = if p = 3 then
        ⟨left, STDIN.val, 3, ⟨[], none, []⟩, 1, false, [], left.yields, none, keys, [], []⟩
      else if p = 2 then
        ⟨right, 3, STDOUT.val, ⟨[], none, []⟩, 1, false, [], right.yields, none, [], [], []⟩
      else ⟨cat, STDIN.val, STDOUT.val, ⟨[], none, []⟩, 1, false, [], 0, none, [], [], []⟩ :=
    fun _ => rfl
  refine ⟨by simp, rfl, fun r => ?_, fun r => ?_, fun r => ?_, fun r => ?_, ⟨rfl, rfl⟩, ⟨rfl, rfl⟩,
    fun r hp hq => ?_⟩ <;> rw [hlocals]
  · split_ifs <;> rfl
  · split_ifs <;> exact ⟨rfl, rfl⟩
  · split_ifs <;> exact ⟨rfl, rfl⟩
  · split_ifs <;> exact ⟨rfl, rfl, rfl⟩
  · rw [if_neg hp, if_neg hq]
    exact ⟨rfl, rfl⟩

/-- `cat | filter` with three keys, and `wc | filter` with a letter, a new line and the end of the
input. -/
theorem a_pipeline_prints_the_keys_that_are_no_vowels :
    Composes 0 3 2 (pipeline cat filter [104, 105, 33])
        (run (next loops) (pipeline cat filter [104, 105, 33]) (rightFirst 18 18)) ∧
      Composes 0 3 2 (pipeline wc filter [104, 10, EOF])
        (run (next loops) (pipeline wc filter [104, 10, EOF]) (rightFirst 23 18)) :=
  ⟨a_pipeline_prints_the_composition (endless_serves _) (endless_serves _) freshPipe_first
      (starts_pipeline cat filter _) (by simp) (rightFirst 18 18) (by decide +kernel),
    a_pipeline_prints_the_composition (endless_serves _) (endless_serves _) freshPipe_first
      (starts_pipeline wc filter _) (by simp) (rightFirst 23 18) (by decide +kernel)⟩

example : filter.output (wc.output [104, 10, EOF]) =
    [104, 10, 76, 32, 99, 110, 116, 100, 100, 32, 100, 32, 108, 110, 115, 32, 115, 58, 32, 50,
      10] := by decide +kernel

example : ((run (next loops) (pipeline wc filter [104, 10, EOF]) (rightFirst 23 18)).locals
    2).printed = [104, 10, 76] := by decide +kernel

end bare_bones.processFunctions
