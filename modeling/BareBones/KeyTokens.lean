-- The tokens of semaphore 0 against the keys in the buffer. A key is for one reader, and
-- each reader that has a token finds a key, as long as Ctrl+C does not empty the buffer
-- under a token.
import BareBones.KeyboardRing
import BareBones.Tokens
import BareBones.WakeUps

namespace bare_bones.keyboard

open bare_bones.doubleLinkedList bare_bones.process bare_bones.process_table
open bare_bones.scheduler bare_bones.semaphore
open runs ring_buffer

variable {H : Type}

/-! ## The buffer -/

/-- The buffer and its past agree. -/
structure Kept (k : Keyboard) : Prop where
  start : k.bufferStart < BUFFER_CAPACITY
  size : k.bufferSize < BUFFER_CAPACITY
  accepted : k.past.accepted = k.past.gone.map Prod.fst ++ k.keys
  returned : k.past.returned = (k.past.gone.filter Prod.snd).map (fun e => asciiOf e.1)

theorem kept_released : Kept released := ⟨by decide, by decide, rfl, rfl⟩

/-- The key that the interrupt hands to `writeKey`, if it does. -/
def typed (k : Keyboard) (scancode : UInt8) : Option UInt8 :=
  if scancode &&& RELEASED ≠ 0 ∨ scancode = LCTRL ∨ scancode = LSHIFT then none
  else if k.ctrl then if scancode = D_KEY then some EOF else none
  else some (if k.shift then SHIFTED ||| scancode else scancode)

/-- The interrupt puts a key into the buffer. -/
def takesKey (k : Keyboard) (scancode : UInt8) : Prop :=
  k.bufferSize < BUFFER_CAPACITY - 1 ∧ ∃ key ∈ typed k scancode, isKey key

/-- The interrupt is Ctrl+C. -/
def isCtrlC (k : Keyboard) (scancode : UInt8) : Prop := k.ctrl = true ∧ scancode = C_KEY

/-- What an interrupt does. -/
inductive Handles (k : Keyboard) (scancode : UInt8) : List Call × Keyboard → Prop
  | quiet {k' : Keyboard} (hstart : k'.bufferStart = k.bufferStart)
      (hsize : k'.bufferSize = k.bufferSize) (hbuffer : k'.buffer = k.buffer)
      (hpast : k'.past = k.past) : Handles k scancode ([], k')
  | flushes (h : isCtrlC k scancode) :
      Handles k scancode ([.scheduler .killForegroundProcess], flush k)
  | writes {key : UInt8} (h : takesKey k scancode) (hkey : isKey key) :
      Handles k scancode ([.sem_post KEYBOARD_SEM_ID], (writeKey k key).2)

theorem writeKey_handles {k : Keyboard} {scancode key : UInt8}
    (hsize : k.bufferSize < BUFFER_CAPACITY - 1) (ht : typed k scancode = some key) :
    Handles k scancode (writeKey k key) := by
  by_cases hkey : isKey key
  · have htakes : takesKey k scancode := ⟨hsize, key, ht, hkey⟩
    have hcalls : writeKey k key = ([.sem_post KEYBOARD_SEM_ID], (writeKey k key).2) := by
      unfold writeKey
      rw [if_pos hkey]
    rw [hcalls]
    exact .writes htakes hkey
  · unfold writeKey
    rw [if_neg hkey]
    exact .quiet rfl rfl rfl rfl

theorem keyboardHandler_handles (k : Keyboard) (scancode : UInt8) :
    Handles k scancode (keyboardHandler k scancode) := by
  have hquiet : Handles k scancode ([], k) := .quiet rfl rfl rfl rfl
  unfold keyboardHandler
  split_ifs with hpressed hctrl hshift hheld hc hd hroom hup
  · exact .quiet rfl rfl rfl rfl
  · exact .quiet rfl rfl rfl rfl
  · exact .flushes ⟨hheld, hc⟩
  · apply writeKey_handles hd.2
    unfold typed
    rw [if_neg (by simp [hpressed, hctrl, hshift]), if_pos hheld, if_pos hd.1]
  · exact hquiet
  · apply writeKey_handles hroom
    simp [typed, hpressed, hctrl, hshift, hheld, hup]
  · apply writeKey_handles hroom
    simp [typed, hpressed, hctrl, hshift, hheld, hup]
  · exact hquiet
  · exact .quiet rfl rfl rfl rfl
  · exact .quiet rfl rfl rfl rfl
  · exact hquiet

theorem keys_writeKey {k : Keyboard} (h : Kept k) {key : UInt8} (hkey : isKey key) :
    (writeKey k key).2.keys = k.keys ++ [key] := by
  unfold writeKey
  rw [if_pos hkey]
  exact RingBuffer.contents_put (r := ⟨k.buffer, k.bufferStart, k.bufferSize⟩) h.size key

theorem kept_writeKey {k : Keyboard} (h : Kept k) (hsize : k.bufferSize < BUFFER_CAPACITY - 1)
    {key : UInt8} (hkey : isKey key) :
    Kept (writeKey k key).2 ∧ (writeKey k key).2.bufferSize = k.bufferSize + 1 := by
  have hkeys := keys_writeKey h hkey
  unfold writeKey at hkeys ⊢
  rw [if_pos hkey] at hkeys ⊢
  refine ⟨⟨h.start, ?_, ?_, h.returned⟩, rfl⟩
  · simp only [BUFFER_CAPACITY] at hsize ⊢
    omega
  · rw [hkeys, h.accepted, List.append_assoc]

theorem kept_flush {k : Keyboard} (h : Kept k) : Kept (flush k) := by
  refine ⟨by simp [flush, BUFFER_CAPACITY], by simp [flush, BUFFER_CAPACITY], ?_, ?_⟩
  · have hnil : (flush k).keys = [] := rfl
    rw [hnil]
    simp [flush, h.accepted, Function.comp_def]
  · simp [flush, h.returned, List.filter_map, Function.comp_def]

/-- A reader that finds a key returns it, and takes it out. -/
theorem kept_returnAscii {k : Keyboard} (h : Kept k) (hpos : 0 < k.bufferSize) :
    Kept (returnAscii k).2 ∧ (returnAscii k).2.bufferSize + 1 = k.bufferSize := by
  have hok : RingBuffer.Ok BUFFER_CAPACITY ⟨k.buffer, k.bufferStart, k.bufferSize⟩ :=
    ⟨h.start, Nat.le_of_lt h.size⟩
  have hkeys : k.keys = _ := RingBuffer.contents_drop hok hpos
  have hfirst : k.getBufferIndex 0 = k.bufferStart := Nat.mod_eq_of_lt h.start
  have hdrop := (RingBuffer.ok_drop hok).first
  unfold returnAscii getScancode
  rw [if_pos hpos]
  dsimp only
  rw [hfirst]
  refine ⟨⟨hdrop, ?_, ?_, ?_⟩, Nat.sub_add_cancel hpos⟩
  · exact Nat.lt_of_le_of_lt (Nat.sub_le _ _) h.size
  · dsimp only
    rw [h.accepted, hkeys, List.map_append, List.append_assoc]
    rfl
  · simp [h.returned]

/-! ## The readers -/

/-- The readers that were granted a token and did not go on yet. -/
def granted (m : KeyboardSystem H) : List Pcb :=
  m.readers.filter (· ∉ m.system.blockedOn KEYBOARD_SEM_ID)

/-- The tokens, in the counter and with the readers, are as many as the keys in the buffer.
Each accepted key is in the buffer or left it in its turn, and the calls returned the keys
that were not flushed, one each. -/
structure Agrees (m : KeyboardSystem H) : Prop where
  counts : (m.system.sem KEYBOARD_SEM_ID).counter + (granted m).length = m.driver.bufferSize
  accepted : m.driver.past.accepted = m.driver.past.gone.map Prod.fst ++ m.driver.keys
  returned : m.driver.past.returned =
    (m.driver.past.gone.filter Prod.snd).map (fun e => asciiOf e.1)

/-- What every act keeps. Only readers are blocked on the semaphore. -/
structure Attended (m : KeyboardSystem H) : Prop where
  sound : Sound m.system
  nodup : m.readers.Nodup
  listed : ∀ p ∈ m.readers, p ∈ m.system.scheduler.procs
  inside : ∀ p ∈ m.system.blockedOn KEYBOARD_SEM_ID, p ∈ m.readers
  kept : Kept m.driver
  counts : (m.system.sem KEYBOARD_SEM_ID).counter + (granted m).length = m.driver.bufferSize

theorem Attended.agrees {m : KeyboardSystem H} (h : Attended m) : Agrees m :=
  ⟨h.counts, h.kept.accepted, h.kept.returned⟩

/-- The readers that all live on stay. -/
theorem settle_listed {m : KeyboardSystem H} {s : System H}
    (h : ∀ p ∈ m.readers, p ∈ s.scheduler.procs) : m.settle s = { m with system := s } := by
  have hreaders : m.readers.filter (· ∈ s.scheduler.procs) = m.readers :=
    List.filter_eq_self.mpr fun p hp => by simpa using h p hp
  rw [KeyboardSystem.settle, hreaders]

theorem stops_asleep {s : System H} (h : Sound s) {p : Pcb} (ha : Asleep s.table p) :
    ¬ goesOn s.table p := by
  rintro (hgo | hgo)
  · exact hgo ha.2
  · exact h.inv.not_blocked p hgo ha.2

variable [MemoryManager H]

/-- The call wakes no process that is blocked on semaphore 0, unless it kills it. -/
def wakesNoReader (m : KeyboardSystem H) (c : Call) : Prop :=
  ∀ p ∈ m.system.blockedOn KEYBOARD_SEM_ID, p ∉ dead m.system.kernel c →
    m.system.table.pid p ∉ woken m.system.kernel c

/-- The first pid of the queue that names a process is that of a process that is blocked
inside `sem_wait`. -/
def headReads (m : KeyboardSystem H) : Prop :=
  ∀ w ∈ (present m.system.kernel KEYBOARD_SEM_ID).head?,
    ∃ p ∈ m.system.blockedOn KEYBOARD_SEM_ID, m.system.table.pid p = w.pid

/-- No token is free, and Ctrl+C kills each reader that was granted one. -/
def flushesNoToken (m : KeyboardSystem H) : Prop :=
  (m.system.sem KEYBOARD_SEM_ID).counter = 0 ∧
    (∀ p ∈ granted m, p ∈ foregroundVictims m.system.scheduler) ∧
    wakesNoReader m (.scheduler .killForegroundProcess)

/-- The act keeps tokens and keys in step. -/
def keepsKeys (m : KeyboardSystem H) : Act → Prop
  | .call c => sparesIdle m.system c ∧ ¬ names KEYBOARD_SEM_ID c ∧
      (∀ p ∈ granted m, p ∉ dead m.system.kernel c) ∧ wakesNoReader m c
  | .key scancode => (isCtrlC m.driver scancode → flushesNoToken m) ∧
      (takesKey m.driver scancode → headReads m)
  | .getAscii _ => ∀ p ∈ m.system.scheduler.currentProcess, p ∉ m.readers →
      getPid m.system.scheduler ≠ IDLE_PID ∧
        ((m.system.sem KEYBOARD_SEM_ID).counter = 0 → p ∈ m.system.scheduler.procs ∧
          (mm_alloc PID_SIZE m.system.scheduler.heap).1.isSome)
  | .go => True

/-! ## One call -/

/-- Who is blocked on a semaphore stays so, unless the call kills it or wakes its pid. -/
theorem mem_blockedOn_call (hn : Serves H NODE_SIZE) {s : System H} (h : Sound s) {c : Call}
    (hok : sparesIdle s c) {id : Int} (hc : ∀ rsp, c ≠ .sem_wait id rsp) {p : Pcb} :
    p ∈ (step s c).blockedOn id ↔
      p ∈ s.blockedOn id ∧ p ∉ dead s.kernel c ∧ s.table.pid p ∉ woken s.kernel c := by
  rw [blockedOn_step, entering_other hc, List.append_nil, List.mem_filter, decide_eq_true_iff]
  exact and_congr_right fun hb => asleep_inside hn h hok (mem_blockedOn.mp hb)

section Call

variable {m : KeyboardSystem H} {c : Call}

theorem readers_settle (hn : Serves H NODE_SIZE) (h : Attended m) (hok : sparesIdle m.system c) :
    (m.settle (step m.system c)).readers = m.readers.filter (· ∉ dead m.system.kernel c) := by
  apply List.filter_congr
  intro p hp
  rw [decide_eq_decide]
  exact (effect_after hn m.system c h.sound hok).procs p (h.listed p hp)

theorem granted_settle (hn : Serves H NODE_SIZE) (h : Attended m) (hok : sparesIdle m.system c)
    (hc : ∀ rsp, c ≠ .sem_wait KEYBOARD_SEM_ID rsp) :
    granted (m.settle (step m.system c)) = m.readers.filter (fun p =>
      p ∉ dead m.system.kernel c ∧ (p ∉ m.system.blockedOn KEYBOARD_SEM_ID ∨
        m.system.table.pid p ∈ woken m.system.kernel c)) := by
  unfold granted
  rw [readers_settle hn h hok, List.filter_filter]
  apply List.filter_congr
  intro p _
  have hmem := mem_blockedOn_call hn h.sound hok hc (p := p)
  have hsystem : (m.settle (step m.system c)).system = step m.system c := rfl
  rw [hsystem, ← Bool.decide_and, decide_eq_decide, hmem]
  tauto

/-- The grants of a call that wakes no reader. -/
theorem granted_undisturbed (hn : Serves H NODE_SIZE) (h : Attended m)
    (hok : sparesIdle m.system c) (hc : ∀ rsp, c ≠ .sem_wait KEYBOARD_SEM_ID rsp)
    (hwake : wakesNoReader m c) :
    granted (m.settle (step m.system c)) = (granted m).filter (· ∉ dead m.system.kernel c) := by
  rw [granted_settle hn h hok hc, granted, List.filter_filter]
  apply List.filter_congr
  intro p _
  rw [← Bool.decide_and, decide_eq_decide]
  have hno := hwake p
  tauto

theorem attended_call (hn : Serves H NODE_SIZE) (h : Attended m) (hok : sparesIdle m.system c)
    (hc : ∀ rsp, c ≠ .sem_wait KEYBOARD_SEM_ID rsp) {driver : Keyboard} (hk : Kept driver)
    (hcounts : ((step m.system c).sem KEYBOARD_SEM_ID).counter +
      (granted (m.settle (step m.system c))).length = driver.bufferSize) :
    Attended ({ m with driver }.settle (step m.system c)) where
  sound := sound_step hn m.system c h.sound hok
  nodup := h.nodup.filter _
  listed p hp := of_decide_eq_true (List.mem_filter.mp hp).2
  inside p hp := by
    obtain ⟨hb, hd, -⟩ := (mem_blockedOn_call hn h.sound hok hc).mp hp
    have hr : (m.settle (step m.system c)).readers = _ := readers_settle hn h hok
    change p ∈ (m.settle (step m.system c)).readers
    rw [hr]
    simp [h.inside p hb, hd]
  kept := hk
  counts := hcounts

end Call

/-! ## Each act -/

section Acts

variable {m : KeyboardSystem H}

theorem not_wait {c : Call} (hc : ¬ names KEYBOARD_SEM_ID c) (rsp : Addr) :
    c ≠ .sem_wait KEYBOARD_SEM_ID rsp := by
  rintro rfl
  exact hc rfl

theorem attended_other (hn : Serves H NODE_SIZE) (h : Attended m) {c : Call}
    (hok : keepsKeys m (.call c)) : Attended (act m (.call c)) := by
  obtain ⟨hidle, hne, hdead, hwake⟩ := hok
  apply attended_call hn h hidle (not_wait hne) h.kept
  have hsem : (step m.system c).sem KEYBOARD_SEM_ID = m.system.sem KEYBOARD_SEM_ID :=
    sem_after_ne hn h.sound hne
  rw [hsem, granted_undisturbed hn h hidle (not_wait hne) hwake, List.filter_eq_self.mpr]
  · exact h.counts
  · intro p hp
    simpa using hdead p hp

/-- One more element of a list without duplicates meets the test. -/
theorem length_filter_or {l : List Pcb} (hl : l.Nodup) {p : Pcb} (hp : p ∈ l) {q : Pcb → Prop}
    [DecidablePred q] (hq : ¬ q p) :
    (l.filter (fun x => q x ∨ x = p)).length = (l.filter (fun x => q x)).length + 1 := by
  have hperm := List.perm_cons_erase hp
  rw [(hperm.filter _).length_eq, (hperm.filter _).length_eq,
    List.filter_cons_of_pos (by simp), List.filter_cons_of_neg (by simpa using hq),
    List.length_cons]
  congr 2
  apply List.filter_congr
  intro x hx
  have hne : x ≠ p := (hl.mem_erase_iff.mp hx).1
  simp [hne]

/-- The post of a key adds a token, or grants it to the reader at the head. -/
theorem counts_post (hn : Serves H NODE_SIZE) (h : Attended m) (hhead : headReads m) :
    ((step m.system (.sem_post KEYBOARD_SEM_ID)).sem KEYBOARD_SEM_ID).counter +
        (granted (m.settle (step m.system (.sem_post KEYBOARD_SEM_ID)))).length =
      m.driver.bufferSize + 1 := by
  have hvalid : isValidSemId KEYBOARD_SEM_ID = 0 := rfl
  have hpost := (post_step hn h.sound hvalid).2
  have hcounts := h.counts
  have hsize := h.kept.size
  rw [granted_settle (c := .sem_post KEYBOARD_SEM_ID) hn h trivial (by simp)]
  unfold headReads at hhead
  cases hl : present m.system.kernel KEYBOARD_SEM_ID with
  | nil =>
    rw [hl] at hpost
    have hwoken : woken m.system.kernel (.sem_post KEYBOARD_SEM_ID) = [] := by
      simp [woken, hl]
    have hgranted : m.readers.filter (fun p => p ∉ dead m.system.kernel
        (.sem_post KEYBOARD_SEM_ID) ∧ (p ∉ m.system.blockedOn KEYBOARD_SEM_ID ∨
        m.system.table.pid p ∈ woken m.system.kernel (.sem_post KEYBOARD_SEM_ID))) =
        granted m := by
      rw [hwoken]
      simp [dead, granted]
    rw [hpost.1, hgranted, Nat.mod_eq_of_lt]
    · omega
    · simp only [BUFFER_CAPACITY] at hsize
      omega
  | cons w rest =>
    rw [hl] at hpost hhead
    obtain ⟨p, hp, hpid⟩ := hhead w rfl
    have hwoken : woken m.system.kernel (.sem_post KEYBOARD_SEM_ID) = [w.pid] := by
      rw [woken, if_pos hvalid, hl]
      rfl
    have hin := (h.sound.asleep _ (mem_blockedOn.mp hp)).1
    have hgranted : m.readers.filter (fun q => q ∉ dead m.system.kernel
        (.sem_post KEYBOARD_SEM_ID) ∧ (q ∉ m.system.blockedOn KEYBOARD_SEM_ID ∨
        m.system.table.pid q ∈ woken m.system.kernel (.sem_post KEYBOARD_SEM_ID))) =
        m.readers.filter (fun q => q ∉ m.system.blockedOn KEYBOARD_SEM_ID ∨ q = p) := by
      apply List.filter_congr
      intro q hq
      have hiff : m.system.table.pid q = w.pid ↔ q = p := by
        constructor
        · intro he
          exact h.sound.inv.core.pid_inj q (h.listed q hq) p hin (he.trans hpid.symm)
        · rintro rfl
          exact hpid
      rw [hwoken]
      simp [dead, hiff]
    rw [hpost.1, hgranted, length_filter_or h.nodup (h.inside p hp) (by simpa using hp)]
    have hlen : (m.readers.filter (fun x => x ∉ m.system.blockedOn KEYBOARD_SEM_ID)).length =
        (granted m).length := rfl
    omega

theorem attended_key (hn : Serves H NODE_SIZE) (h : Attended m) {scancode : UInt8}
    (hok : keepsKeys m (.key scancode)) : Attended (act m (.key scancode)) := by
  obtain ⟨hflush, htakes⟩ := hok
  have hact : act m (.key scancode) =
      { m with driver := (keyboardHandler m.driver scancode).2 }.settle
        (run step m.system (keyboardHandler m.driver scancode).1) := rfl
  rw [hact]
  have hhandles := keyboardHandler_handles m.driver scancode
  generalize keyboardHandler m.driver scancode = r at hhandles
  cases hhandles with
  | @quiet k' hstart hsize hbuffer hpast =>
    have hkeys : k'.keys = m.driver.keys := by
      simp [Keyboard.keys, hstart, hsize, hbuffer]
    have hk : Kept k' := by
      refine ⟨hstart ▸ h.kept.start, hsize ▸ h.kept.size, ?_, ?_⟩
      · rw [hpast, hkeys, h.kept.accepted]
      · rw [hpast, h.kept.returned]
    have hm : { m with driver := k' }.settle m.system = { m with driver := k' } :=
      settle_listed h.listed
    dsimp only [run_nil]
    rw [hm]
    exact ⟨h.sound, h.nodup, h.listed, h.inside, hk, h.counts.trans hsize.symm⟩
  | flushes hc =>
    obtain ⟨hzero, hvictims, hwake⟩ := hflush hc
    apply attended_call (c := .scheduler .killForegroundProcess) hn h trivial (by simp)
      (kept_flush h.kept)
    have hsem : (step m.system (.scheduler .killForegroundProcess)).sem KEYBOARD_SEM_ID =
        m.system.sem KEYBOARD_SEM_ID := rfl
    rw [hsem, hzero, granted_undisturbed (c := .scheduler .killForegroundProcess) hn h trivial
      (by simp) hwake, List.filter_eq_nil_iff.mpr]
    · rfl
    · intro p hp
      have hv : p ∈ dead m.system.kernel (.scheduler .killForegroundProcess) := hvictims p hp
      simp [hv]
  | writes ht hkey =>
    have hroom := ht.1
    obtain ⟨hk, hsize⟩ := kept_writeKey h.kept hroom hkey
    apply attended_call (c := .sem_post KEYBOARD_SEM_ID) hn h trivial (by simp) hk
    rw [hsize]
    exact counts_post hn h (htakes ht)

theorem attended_go (h : Attended m) : Attended (act m .go) := by
  cases hcur : m.system.scheduler.currentProcess with
  | none =>
    have hact : act m .go = m := by simp [act, hcur]
    rw [hact]
    exact h
  | some p =>
    by_cases hp : p ∈ m.readers
    · have hact : act m .go =
          { m with driver := (returnAscii m.driver).2, readers := m.readers.erase p } := by
        simp [act, hcur, hp]
      have hawake : p ∉ m.system.blockedOn KEYBOARD_SEM_ID := fun hb =>
        h.sound.inv.not_blocked p hcur (h.sound.asleep _ (mem_blockedOn.mp hb)).2
      have hgranted : (granted m).length =
          ((m.readers.erase p).filter (· ∉ m.system.blockedOn KEYBOARD_SEM_ID)).length + 1 := by
        rw [granted, ((List.perm_cons_erase hp).filter _).length_eq,
          List.filter_cons_of_pos (by simpa using hawake), List.length_cons]
      have hcounts := h.counts
      have hpos : 0 < m.driver.bufferSize := by omega
      obtain ⟨hk, hsize⟩ := kept_returnAscii h.kept hpos
      rw [hact]
      refine ⟨h.sound, h.nodup.erase p, fun q hq => h.listed q (List.mem_of_mem_erase hq),
        fun q hq => ?_, hk, ?_⟩
      · have hne : q ≠ p := by
          rintro rfl
          exact hawake hq
        exact (List.mem_erase_of_ne hne).mpr (h.inside q hq)
      · change (m.system.sem KEYBOARD_SEM_ID).counter +
          ((m.readers.erase p).filter (· ∉ m.system.blockedOn KEYBOARD_SEM_ID)).length = _
        dsimp only
        omega
    · have hact : act m .go = m := by simp [act, hcur, hp]
      rw [hact]
      exact h

/-- Who is blocked on a semaphore after a `sem_wait` on it by `p`: those of before, and
`p` when it fell asleep. -/
theorem mem_blockedOn_wait (hn : Serves H NODE_SIZE) {s : System H} (h : Sound s) {id : Int}
    {rsp : Addr} (hok : sparesIdle s (.sem_wait id rsp)) {p q : Pcb}
    (hcur : s.scheduler.currentProcess = some p) (hv : isValidSemId id = 0)
    (hzero : result s.kernel (.sem_wait id rsp) = some 0) :
    q ∈ (step s (.sem_wait id rsp)).blockedOn id ↔
      q ∈ s.blockedOn id ∨ q = p ∧ Asleep (step s (.sem_wait id rsp)).table p := by
  have hentering : entering (enters s.kernel (.sem_wait id rsp)) id = [p] := by
    unfold entering enters
    dsimp only
    rw [if_pos ⟨hv, hzero⟩, show s.kernel.scheduler.currentProcess = some p from hcur]
    simp
  rw [blockedOn_step, hentering, List.mem_filter, List.mem_append, decide_eq_true_iff,
    List.mem_singleton]
  constructor
  · rintro ⟨hb | rfl, ha⟩
    · exact Or.inl hb
    · exact Or.inr ⟨rfl, ha⟩
  · rintro (hb | ⟨rfl, ha⟩)
    · refine ⟨Or.inl hb, (asleep_inside hn h hok (mem_blockedOn.mp hb)).mpr ⟨?_, ?_⟩⟩
      · simp [dead]
      · simp [woken]
    · exact ⟨Or.inr rfl, ha⟩

/-- A `sem_wait` that finds a token takes it. -/
theorem wait_with_token {s : System H} (h : Sound s) {id : Int} {rsp : Addr}
    (hv : isValidSemId id = 0) (hpos : 0 < (s.sem id).counter) :
    result s.kernel (.sem_wait id rsp) = some 0 ∧
      (step s (.sem_wait id rsp)).table = s.table ∧
      ((step s (.sem_wait id rsp)).sem id).counter = (s.sem id).counter - 1 := by
  have hcall : call s.kernel (.sem_wait id rsp) = _ := sem_wait_token rsp hv (h.free id) hpos
  have hkernel : (step s (.sem_wait id rsp)).kernel = _ := after_some hcall
  refine ⟨result_some hcall, ?_, ?_⟩
  · rw [System.table, hkernel]
    rfl
  · rw [System.sem, hkernel]
    simp [Kernel.setSem, System.sem]

/-- One that finds none, and gets the block of its pid, enters the queue. -/
theorem wait_without_token {s : System H} (h : Sound s) {id : Int} {rsp : Addr}
    (hv : isValidSemId id = 0) (hzero : (s.sem id).counter = 0)
    (hserved : (mm_alloc PID_SIZE s.scheduler.heap).1.isSome) :
    result s.kernel (.sem_wait id rsp) = some 0 ∧
      ((step s (.sem_wait id rsp)).sem id).counter = 0 := by
  rcases ha : mm_alloc PID_SIZE s.kernel.scheduler.heap with ⟨_ | block, heap⟩
  · have hnone : mm_alloc PID_SIZE s.scheduler.heap = (none, heap) := ha
    simp [hnone] at hserved
  · rcases hq : addWaiter (s.kernel.semaphores id).waitQueue
      ⟨block, getPid s.kernel.scheduler⟩ heap with ⟨waitQueue, heap'⟩
    have hcall : call s.kernel (.sem_wait id rsp) = _ :=
      sem_wait_waits rsp hv (h.free id) hzero ha hq
    have hkernel : (step s (.sem_wait id rsp)).kernel = _ := after_some hcall
    refine ⟨result_some hcall, ?_⟩
    rw [System.sem, hkernel]
    simp only [Kernel.setSem, Function.update_self]
    exact hzero

/-- With a token free, `getAscii` takes it and a key. -/
theorem attended_token (hn : Serves H NODE_SIZE) (h : Attended m) {p : Pcb} {rsp : Addr}
    (hcur : m.system.scheduler.currentProcess = some p)
    (hidle : getPid m.system.scheduler ≠ IDLE_PID)
    (hpos : 0 < (m.system.sem KEYBOARD_SEM_ID).counter) : Attended (beginAscii m p rsp) := by
  obtain ⟨hresult, htable, hcounter⟩ := wait_with_token h.sound rfl hpos
  have hblocked : ∀ q, q ∈ (step m.system (.sem_wait KEYBOARD_SEM_ID rsp)).blockedOn
      KEYBOARD_SEM_ID ↔ q ∈ m.system.blockedOn KEYBOARD_SEM_ID := by
    intro q
    rw [mem_blockedOn_wait hn h.sound hidle hcur rfl hresult, htable]
    apply or_iff_left
    rintro ⟨-, ha⟩
    exact h.sound.inv.not_blocked p hcur ha.2
  have hgoes : goesOn (step m.system (.sem_wait KEYBOARD_SEM_ID rsp)).table p := by
    rw [htable]
    exact Or.inr hcur
  have hcounts := h.counts
  obtain ⟨hk, hsize⟩ := kept_returnAscii h.kept (by omega)
  unfold beginAscii
  dsimp only
  rw [if_pos hgoes]
  refine ⟨sound_step hn _ _ h.sound hidle, h.nodup, fun q hq => ?_, fun q hq => ?_, hk, ?_⟩
  · have hprocs : (step m.system (.sem_wait KEYBOARD_SEM_ID rsp)).scheduler.procs =
        m.system.scheduler.procs := congrArg Table.procs htable
    dsimp only
    rw [hprocs]
    exact h.listed q hq
  · exact h.inside q ((hblocked q).mp hq)
  · have hgranted : m.readers.filter (· ∉ (step m.system
        (.sem_wait KEYBOARD_SEM_ID rsp)).blockedOn KEYBOARD_SEM_ID) = granted m := by
      apply List.filter_congr
      intro q _
      rw [decide_eq_decide, hblocked q]
    unfold granted
    dsimp only
    rw [hcounter, hgranted]
    omega

/-- With none, it blocks. -/
theorem attended_blocks (hn : Serves H NODE_SIZE) (h : Attended m) {p : Pcb} {rsp : Addr}
    (hcur : m.system.scheduler.currentProcess = some p) (hnew : p ∉ m.readers)
    (hidle : getPid m.system.scheduler ≠ IDLE_PID)
    (hzero : (m.system.sem KEYBOARD_SEM_ID).counter = 0)
    (hp : p ∈ m.system.scheduler.procs)
    (hserved : (mm_alloc PID_SIZE m.system.scheduler.heap).1.isSome) :
    Attended (beginAscii m p rsp) := by
  obtain ⟨hresult, hcounter⟩ := wait_without_token h.sound rfl hzero hserved
  have hasleep : Asleep (step m.system (.sem_wait KEYBOARD_SEM_ID rsp)).table p :=
    asleep_waiter hn h.sound hidle rfl hzero hresult hp hcur
  have hsound := sound_step hn m.system (.sem_wait KEYBOARD_SEM_ID rsp) h.sound hidle
  have heffect := effect_after hn m.system (.sem_wait KEYBOARD_SEM_ID rsp) h.sound hidle
  have hprocs : ∀ q ∈ m.readers, q ∈ (step m.system
      (.sem_wait KEYBOARD_SEM_ID rsp)).scheduler.procs := fun q hq =>
    (heffect.procs q (h.listed q hq)).mpr (by simp [dead])
  have hblocked := fun q => mem_blockedOn_wait (q := q) hn h.sound hidle hcur rfl hresult
  have hstops := stops_asleep hsound hasleep
  have hcounts := h.counts
  unfold beginAscii
  dsimp only
  rw [if_neg hstops]
  generalize step m.system (.sem_wait KEYBOARD_SEM_ID rsp) = s' at *
  have hlisted : ∀ q ∈ m.readers ++ [p], q ∈ s'.scheduler.procs := by
    intro q hq
    rcases List.mem_append.mp hq with hq | hq
    · exact hprocs q hq
    · rw [List.mem_singleton.mp hq]
      exact hasleep.1
  have hm : { m with readers := m.readers ++ [p] }.settle s' =
      ⟨s', m.driver, m.readers ++ [p]⟩ := settle_listed hlisted
  rw [hm]
  refine ⟨hsound, ?_, hlisted, fun q hq => ?_, h.kept, ?_⟩
  · exact List.nodup_append.mpr ⟨h.nodup, by simp, by
      intro a ha b hb he
      exact hnew ((he.trans (List.mem_singleton.mp hb)) ▸ ha)⟩
  · rcases (hblocked q).mp hq with hb | ⟨rfl, -⟩
    · exact List.mem_append_left _ (h.inside q hb)
    · exact List.mem_append_right _ (List.mem_singleton_self q)
  · have hgranted : (m.readers ++ [p]).filter (· ∉ s'.blockedOn KEYBOARD_SEM_ID) =
        granted m := by
      rw [List.filter_append, List.filter_cons_of_neg, List.filter_nil, List.append_nil]
      · apply List.filter_congr
        intro q hq
        have hne : q ≠ p := by
          rintro rfl
          exact hnew hq
        rw [decide_eq_decide, hblocked q]
        simp [hne]
      · simpa using (hblocked p).mpr (Or.inr ⟨rfl, hasleep⟩)
    unfold granted
    dsimp only
    rw [hcounter, hgranted]
    omega

theorem attended_getAscii (hn : Serves H NODE_SIZE) (h : Attended m) {rsp : Addr}
    (hok : keepsKeys m (.getAscii rsp)) : Attended (act m (.getAscii rsp)) := by
  cases hcur : m.system.scheduler.currentProcess with
  | none =>
    have hact : act m (.getAscii rsp) = m := by simp [act, hcur]
    rw [hact]
    exact h
  | some p =>
    by_cases hp : p ∈ m.readers
    · have hact : act m (.getAscii rsp) = m := by simp [act, hcur, hp]
      rw [hact]
      exact h
    · have hact : act m (.getAscii rsp) = beginAscii m p rsp := by simp [act, hcur, hp]
      obtain ⟨hidle, hneeds⟩ := hok p hcur hp
      rw [hact]
      rcases Nat.eq_zero_or_pos (m.system.sem KEYBOARD_SEM_ID).counter with hzero | hpos
      · obtain ⟨hlisted, hserved⟩ := hneeds hzero
        exact attended_blocks hn h hcur hp hidle hzero hlisted hserved
      · exact attended_token hn h hcur hidle hpos

theorem attended_act (hn : Serves H NODE_SIZE) (m : KeyboardSystem H) (a : Act) (h : Attended m)
    (hok : keepsKeys m a) : Attended (act m a) := by
  cases a with
  | call c => exact attended_other hn h hok
  | key scancode => exact attended_key hn h hok
  | getAscii rsp => exact attended_getAscii hn h hok
  | go => exact attended_go h

end Acts

/-! ## The counters of the code -/

/-- What an act does to the driver: an interrupt, or the `getScancode` of a reader. -/
def events (m : KeyboardSystem H) : Act → List Driver.Event
  | .call _ => []
  | .key scancode => [.key scancode]
  | .getAscii rsp =>
    match m.system.scheduler.currentProcess with
    | none => []
    | some p =>
      if p ∉ m.readers ∧ goesOn (step m.system (.sem_wait KEYBOARD_SEM_ID rsp)).table p then
        [.getScancode]
      else []
  | .go =>
    match m.system.scheduler.currentProcess with
    | none => []
    | some p => if p ∈ m.readers then [.getScancode] else []

def eventsOf (m : KeyboardSystem H) : List Act → List Driver.Event
  | [] => []
  | a :: acts => events m a ++ eventsOf (act m a) acts

section Counters

variable {m : KeyboardSystem H} {d : Driver}

omit [MemoryManager H] in
theorem returnAscii_abs (h : d.Ok) (past : Past) :
    ∃ past', (returnAscii (d.abs past)).2 = d.getScancode.2.abs past' := by
  obtain ⟨past', hget⟩ := Driver.getScancode_abs h past
  refine ⟨{ past' with returned := past'.returned ++ [asciiOf d.getScancode.1] }, ?_⟩
  unfold returnAscii
  rw [hget]
  rfl

theorem act_abs (h : d.Ok) {past : Past} (hd : m.driver = d.abs past) (a : Act) :
    ∃ past', (act m a).driver = (run Driver.step d (events m a)).abs past' := by
  cases a with
  | call c => exact ⟨past, hd⟩
  | key scancode =>
    obtain ⟨past', hhandler⟩ := Driver.keyboardHandler_abs h past scancode
    refine ⟨past', ?_⟩
    show (keyboardHandler m.driver scancode).2 = _
    rw [hd, hhandler]
    rfl
  | getAscii rsp =>
    obtain ⟨past', hreturns⟩ := returnAscii_abs h past
    cases hcur : m.system.scheduler.currentProcess with
    | none => exact ⟨past, by simpa [act, events, hcur] using hd⟩
    | some p =>
      simp only [act, events, hcur]
      by_cases hp : p ∈ m.readers
      · rw [if_pos hp, if_neg fun h => h.1 hp]
        exact ⟨past, hd⟩
      · rw [if_neg hp]
        unfold beginAscii
        dsimp only
        split
        · rename_i hgoes
          rw [if_pos ⟨hp, hgoes⟩]
          exact ⟨past', by rw [hd, hreturns]; rfl⟩
        · rename_i hwaits
          rw [if_neg fun h => hwaits h.2]
          exact ⟨past, hd⟩
  | go =>
    obtain ⟨past', hreturns⟩ := returnAscii_abs h past
    cases hcur : m.system.scheduler.currentProcess with
    | none => exact ⟨past, by simpa [act, events, hcur] using hd⟩
    | some p =>
      simp only [act, events, hcur]
      split
      · exact ⟨past', by rw [hd, hreturns]; rfl⟩
      · exact ⟨past, hd⟩

/-- Whatever the acts are, the driver of the code does the same as the keyboard. -/
theorem simulates_run (h : d.Ok) {past : Past} (hd : m.driver = d.abs past) (acts : List Act) :
    (run Driver.step d (eventsOf m acts)).Simulates (run act m acts).driver := by
  induction acts generalizing m d past with
  | nil =>
    rw [run_nil, hd]
    exact h.simulates past
  | cons a acts ih =>
    obtain ⟨past', hnext⟩ := act_abs h hd a
    rw [run_cons, eventsOf, run_append]
    exact ih (run_keeps Driver.ok_step h _) hnext

end Counters

/-! ## Every run -/

theorem attended_booted (hn : Serves H NODE_SIZE) {m : KeyboardSystem H} (h : BootedKeyboard m) :
    Attended m := by
  obtain ⟨s, hs, rfl⟩ := h
  have hinside : s.history.inside = [] := by
    obtain ⟨_, -, -, hstart⟩ := hs
    rw [hstart]
    rfl
  have hblocked : (step s (.sem_create KEYBOARD_SEM_ID 0)).blockedOn KEYBOARD_SEM_ID = [] := by
    rw [blockedOn_step, entering_other (by simp)]
    simp [System.blockedOn, hinside]
  have hcounter : ((step s (.sem_create KEYBOARD_SEM_ID 0)).sem KEYBOARD_SEM_ID).counter = 0 := by
    rcases sem_create_spec s.kernel KEYBOARD_SEM_ID 0 with ⟨-, hc⟩ | ⟨-, r, k', q, hc, -, -, hb⟩
    · have hkernel : (step s (.sem_create KEYBOARD_SEM_ID 0)).kernel = s.kernel :=
        after_some (c := .sem_create KEYBOARD_SEM_ID 0) (congrArg some hc)
      rw [System.sem, hkernel]
      obtain ⟨scheduler, -, hinit, -⟩ := hs
      unfold initSemaphoreManager at hinit
      split at hinit
      · cases hinit
      · rw [← Option.some.inj hinit]
    · have hkernel : (step s (.sem_create KEYBOARD_SEM_ID 0)).kernel = k' :=
        after_some (c := .sem_create KEYBOARD_SEM_ID 0) (congrArg some hc)
      rw [System.sem, hkernel, hb.sem_self]
  refine ⟨sound_step hn s _ (sound_booted hn hs) trivial, List.nodup_nil, ?_, ?_, kept_released, ?_⟩
  · intro p hp
    cases hp
  · intro p hp
    rw [hblocked] at hp
    cases hp
  · rw [hcounter]
    rfl

theorem driver_booted {m : KeyboardSystem H} (h : BootedKeyboard m) :
    m.driver = Driver.start.abs ⟨[], [], []⟩ := by
  obtain ⟨s, -, rfl⟩ := h
  rfl

/-- While each act keeps tokens and keys in step, they agree in every state, and so they do for
the counters of the code. -/
theorem tokens_and_keys_agree (hn : Serves H NODE_SIZE) {m : KeyboardSystem H}
    (h : BootedKeyboard m) (acts : List Act) (hok : Meets act keepsKeys m acts) :
    Agrees (run act m acts) ∧
      (run Driver.step .start (eventsOf m acts)).Simulates (run act m acts).driver :=
  ⟨(run_invariant (attended_act hn) (attended_booted hn h) hok).agrees,
    simulates_run Driver.ok_start (driver_booted h) acts⟩

instance (m : KeyboardSystem H) (c : Call) : Decidable (wakesNoReader m c) :=
  inferInstanceAs (Decidable (∀ p ∈ m.system.blockedOn KEYBOARD_SEM_ID, _))

instance (m : KeyboardSystem H) : Decidable (headReads m) :=
  inferInstanceAs (Decidable (∀ w ∈ (present m.system.kernel KEYBOARD_SEM_ID).head?, _))

instance (m : KeyboardSystem H) : Decidable (flushesNoToken m) :=
  inferInstanceAs (Decidable (_ ∧ (∀ p ∈ granted m, _) ∧ _))

instance (k : Keyboard) (scancode : UInt8) : Decidable (takesKey k scancode) :=
  inferInstanceAs (Decidable (_ ∧ ∃ key ∈ typed k scancode, _))

instance (k : Keyboard) (scancode : UInt8) : Decidable (isCtrlC k scancode) :=
  inferInstanceAs (Decidable (_ ∧ _))

instance (m : KeyboardSystem H) (a : Act) : Decidable (keepsKeys m a) :=
  match a with
  | .call _ => inferInstanceAs (Decidable (_ ∧ ¬ _ ∧ (∀ p ∈ granted m, _) ∧ _))
  | .key _ => inferInstanceAs (Decidable ((_ → _) ∧ (_ → _)))
  | .getAscii _ => inferInstanceAs (Decidable (∀ p ∈ m.system.scheduler.currentProcess, _))
  | .go => isTrue trivial

/-- The keyboard on a heap that never runs out. -/
def endlessKeyboard : KeyboardSystem Endless :=
  ⟨step endlessSystem (.sem_create KEYBOARD_SEM_ID 0), released, []⟩

theorem booted_endlessKeyboard : BootedKeyboard endlessKeyboard :=
  ⟨endlessSystem, booted_endlessSystem, rfl⟩

/-- The shell starts and gets the processor. -/
def shellActs : List Act :=
  [.call (.scheduler (.createProcess 2 none 0 1 none 0)), .call (.scheduler (.schedule 3)),
    .call (.scheduler (.schedule 4))]

/-- The shell reads, `a` is typed and returned, and then comes Ctrl+C. -/
def typedThenCtrlC : List Act :=
  shellActs ++ [.getAscii 5, .key 0x1E, .call (.scheduler (.yield 6)), .go, .key LCTRL, .key C_KEY]

theorem tokens_and_keys_agree_when_the_key_is_read :
    Agrees (run act endlessKeyboard typedThenCtrlC) ∧
      (run Driver.step .start (eventsOf endlessKeyboard typedThenCtrlC)).Simulates
        (run act endlessKeyboard typedThenCtrlC).driver :=
  tokens_and_keys_agree (endless_serves _) booted_endlessKeyboard _ (by decide +kernel)

/-- `a` is typed and nobody reads; Ctrl+C empties the buffer and leaves the token, so the
next `getAscii` returns 0 at once. -/
theorem ctrl_c_leaves_a_token :
    ¬ Agrees (run act endlessKeyboard (shellActs ++ [.key 0x1E, .key LCTRL, .key C_KEY])) ∧
      (run act endlessKeyboard (shellActs ++ [.key 0x1E, .key LCTRL, .key C_KEY,
        .getAscii 5])).driver.past.returned = [0] := by
  refine ⟨fun h => ?_, by decide +kernel⟩
  have hcounts := h.counts
  revert hcounts
  decide +kernel

end bare_bones.keyboard
