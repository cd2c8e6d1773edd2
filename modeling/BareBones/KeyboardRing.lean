-- The ring of `keyboard.c` in the types of the code: its start is a `uint8_t` and its size a
-- signed `char`. The statics remember what happened since the last Ctrl+C.
import BareBones.Keyboard

namespace bare_bones.keyboard

open bare_bones.scheduler bare_bones.semaphore runs ring_buffer

/-- The past since the last Ctrl+C. No code reads it. -/
structure Since where
  /-- The keys that `writeKey` accepted. -/
  accepted : List UInt8
  /-- The scancodes that `getScancode` returned. -/
  returned : List UInt8

/-- The statics of the driver. -/
structure Driver where
  bufferStart : UInt8
  bufferSize : Int8
  buffer : Int → UInt8
  ctrl : UInt8
  shift : UInt8
  since : Since

namespace Driver

/-- The statics before the first key. -/
def start : Driver := ⟨0, 0, fun _ => 0, 0, 0, ⟨[], []⟩⟩

/-- The remainder of an `int`. -/
def getBufferIndex (d : Driver) (offset : Int) : Int :=
  (d.bufferStart.toNat + offset).tmod BUFFER_CAPACITY

def writeKey (d : Driver) (key : UInt8) : List Call × Driver :=
  if isKey key then
    ([.sem_post KEYBOARD_SEM_ID], { d with
      buffer := Function.update d.buffer (d.getBufferIndex d.bufferSize.toInt) key
      bufferSize := d.bufferSize + 1
      since := { d.since with accepted := d.since.accepted ++ [key] } })
  else ([], d)

/-- The calls that the interrupt makes, and the statics after it. -/
def keyboardHandler (d : Driver) (key : UInt8) : List Call × Driver :=
  if key &&& RELEASED = 0 then
    if key = LCTRL then ([], { d with ctrl := 1 })
    else if key = LSHIFT then ([], { d with shift := 1 })
    else if d.ctrl ≠ 0 then
      if key = C_KEY then
        ([.scheduler .killForegroundProcess],
          { d with bufferStart := 0, bufferSize := 0, since := ⟨[], []⟩ })
      else if key = D_KEY ∧ d.bufferSize.toInt < BUFFER_CAPACITY - 1 then d.writeKey EOF
      else ([], d)
    else if d.bufferSize.toInt < BUFFER_CAPACITY - 1 then
      d.writeKey (if d.shift ≠ 0 then SHIFTED ||| key else key)
    else ([], d)
  else if key = LCTRL ||| RELEASED then ([], { d with ctrl := 0 })
  else if key = LSHIFT ||| RELEASED then ([], { d with shift := 0 })
  else ([], d)

def getScancode (d : Driver) : UInt8 × Driver :=
  if d.bufferSize.toInt > 0 then
    let c := d.buffer (d.getBufferIndex 0)
    (c, { d with
      bufferStart := UInt8.ofInt (d.getBufferIndex 1)
      bufferSize := d.bufferSize - 1
      since := { d.since with returned := d.since.returned ++ [c] } })
  else (0, d)

/-! ## The ring -/

def ring (d : Driver) : RingBuffer UInt8 :=
  ⟨fun i => d.buffer i, d.bufferStart.toNat, d.bufferSize.toInt.toNat⟩

/-- The keys in the buffer, oldest first. -/
def keys (d : Driver) : List UInt8 := d.ring.contents BUFFER_CAPACITY

/-- The counters are in range, and what was accepted is what was returned and what is
still in the buffer. -/
structure Ok (d : Driver) : Prop where
  start : d.bufferStart.toNat < BUFFER_CAPACITY
  size : 0 ≤ d.bufferSize.toInt ∧ d.bufferSize.toInt ≤ 9
  order : d.since.accepted = d.since.returned ++ d.keys

theorem ok_start : start.Ok := ⟨by decide, by decide, rfl⟩

variable {d : Driver}

theorem Ok.ring (h : d.Ok) : d.ring.Ok BUFFER_CAPACITY := by
  refine ⟨h.start, ?_⟩
  have hsize := h.size
  simp only [Driver.ring, BUFFER_CAPACITY]
  omega

/-- An index of the ring, for an offset that is not negative. -/
theorem getBufferIndex_ofNat (d : Driver) (offset : Nat) :
    d.getBufferIndex offset = ((d.bufferStart.toNat + offset) % BUFFER_CAPACITY : Nat) := by
  rw [getBufferIndex, ← Int.natCast_add]
  rfl

theorem size_add_one (h : d.Ok) (hroom : d.bufferSize.toInt < BUFFER_CAPACITY - 1) :
    (d.bufferSize + 1).toInt = d.bufferSize.toInt + 1 := by
  have hsize := h.size
  rw [Int8.toInt_add]
  exact Int.bmod_eq_of_le (by simp; omega) (by simp [BUFFER_CAPACITY] at hroom ⊢; omega)

theorem size_sub_one (h : d.Ok) (hpos : 0 < d.bufferSize.toInt) :
    (d.bufferSize - 1).toInt = d.bufferSize.toInt - 1 := by
  have hsize := h.size
  rw [Int8.toInt_sub]
  exact Int.bmod_eq_of_le (by simp; omega) (by simp; omega)

theorem ring_writeKey (h : d.Ok) (hroom : d.bufferSize.toInt < BUFFER_CAPACITY - 1) {key : UInt8}
    (hkey : isKey key) : (d.writeKey key).2.ring = d.ring.put BUFFER_CAPACITY key := by
  have hsize := h.size
  have hadd := size_add_one h hroom
  have hindex : d.getBufferIndex d.bufferSize.toInt =
      ((d.ring.last BUFFER_CAPACITY : Nat) : Int) := by
    rw [← Int.toNat_of_nonneg hsize.1, getBufferIndex_ofNat]
    rfl
  have hcells := Function.update_comp_eq_of_injective d.buffer
    (Nat.cast_injective (R := Int)) (d.ring.last BUFFER_CAPACITY) key
  rw [show d.writeKey key = ([.sem_post KEYBOARD_SEM_ID], _) from if_pos hkey]
  unfold RingBuffer.put Driver.ring
  simp only [hadd, hindex, Int.toNat_add hsize.1 (by decide : (0 : Int) ≤ 1)]
  exact congrArg (RingBuffer.mk · d.bufferStart.toNat _) hcells

/-- A key that is stored goes behind the others. -/
theorem writeKey_spec (h : d.Ok) (hroom : d.bufferSize.toInt < BUFFER_CAPACITY - 1) {key : UInt8}
    (hkey : isKey key) : (d.writeKey key).2.Ok ∧ (d.writeKey key).2.keys = d.keys ++ [key] := by
  have hsize := h.size
  have hadd := size_add_one h hroom
  have hwrite : d.writeKey key = ([.sem_post KEYBOARD_SEM_ID], _) := if_pos hkey
  have hkeys : (d.writeKey key).2.keys = d.keys ++ [key] := by
    have hlt : d.ring.count < BUFFER_CAPACITY := by
      simp only [Driver.ring, BUFFER_CAPACITY] at hroom ⊢
      omega
    rw [keys, ring_writeKey h hroom hkey, RingBuffer.contents_put hlt]
    rfl
  refine ⟨⟨?_, ?_, ?_⟩, hkeys⟩
  · rw [hwrite]
    exact h.start
  · rw [hwrite]
    dsimp only
    rw [hadd]
    simp only [BUFFER_CAPACITY] at hroom
    omega
  · rw [hkeys, hwrite]
    dsimp only
    rw [h.order, List.append_assoc]

theorem length_keys (d : Driver) : d.keys.length = d.bufferSize.toInt.toNat :=
  RingBuffer.length_contents BUFFER_CAPACITY d.ring

theorem keys_eq_nil (h : d.bufferSize = 0) : d.keys = [] := by
  have hcount := length_keys d
  rw [h] at hcount
  exact List.eq_nil_of_length_eq_zero hcount

/-- Without a key `getScancode` gives 0, and else the oldest one. -/
theorem getScancode_empty (he : d.keys = []) : d.getScancode = (0, d) := by
  have hcount := length_keys d
  rw [he, List.length_nil] at hcount
  exact if_neg (by omega)

theorem getBufferIndex_zero (h : d.Ok) : d.getBufferIndex 0 = d.ring.first :=
  (getBufferIndex_ofNat d 0).trans (congrArg Nat.cast (Nat.mod_eq_of_lt h.start))

theorem ring_getScancode (h : d.Ok) (hpos : 0 < d.bufferSize.toInt) :
    d.getScancode.2.ring = d.ring.drop BUFFER_CAPACITY := by
  have hsub := size_sub_one h hpos
  have hnext : (UInt8.ofInt (d.getBufferIndex 1)).toNat =
      (d.bufferStart.toNat + 1) % BUFFER_CAPACITY := by
    have hlt := Nat.mod_lt (d.bufferStart.toNat + 1) (by decide : 0 < BUFFER_CAPACITY)
    rw [show d.getBufferIndex 1 = _ from getBufferIndex_ofNat d 1]
    generalize (d.bufferStart.toNat + 1) % BUFFER_CAPACITY = next at hlt ⊢
    unfold BUFFER_CAPACITY at hlt
    rw [UInt8.ofInt, UInt8.toNat_ofNat']
    omega
  rw [show d.getScancode = _ from if_pos hpos]
  unfold RingBuffer.drop Driver.ring
  simp only [hnext, hsub]
  congr 1
  omega

theorem getScancode_cons (h : d.Ok) {c : UInt8} {rest : List UInt8} (hk : d.keys = c :: rest) :
    d.getScancode.1 = c ∧ d.getScancode.2.Ok ∧ d.getScancode.2.keys = rest ∧
      d.getScancode.2.since = ⟨d.since.accepted, d.since.returned ++ [c]⟩ := by
  have hsize := h.size
  have hcount := length_keys d
  rw [hk, List.length_cons] at hcount
  have hpos : 0 < d.bufferSize.toInt := by omega
  have hsub := size_sub_one h hpos
  have hring := ring_getScancode h hpos
  have hdrop : d.keys = _ :=
    RingBuffer.contents_drop h.ring (Nat.succ_pos rest.length |>.trans_eq hcount)
  rw [hk, ← hring, List.cons.injEq] at hdrop
  obtain ⟨hc, hrest⟩ := hdrop
  have hread : d.buffer (d.getBufferIndex 0) = c := by
    rw [getBufferIndex_zero h, hc]
    rfl
  have hstart : d.getScancode.2.bufferStart.toNat < BUFFER_CAPACITY := by
    rw [show d.getScancode.2.bufferStart.toNat = _ from congrArg RingBuffer.first hring]
    exact Nat.mod_lt _ (by decide)
  have hget : d.getScancode = _ := if_pos hpos
  refine ⟨?_, ⟨hstart, ?_, ?_⟩, hrest.symm, ?_⟩
  · rw [hget]
    exact hread
  · rw [hget]
    dsimp only
    omega
  · rw [keys, ← hrest, hget]
    dsimp only
    rw [h.order, hk, hread, List.append_assoc]
    rfl
  · rw [hget]
    dsimp only
    rw [hread]

/-! ## The interrupt -/

/-- The interrupt is Ctrl+C. -/
def isCtrlC (d : Driver) (scancode : UInt8) : Prop := d.ctrl ≠ 0 ∧ scancode = C_KEY

/-- What an interrupt does to the ring. -/
inductive Handles (d : Driver) (scancode : UInt8) : List Call × Driver → Prop
  | quiet {d' : Driver} (hring : d'.ring = d.ring) (hsize : d'.bufferSize = d.bufferSize)
      (hsince : d'.since = d.since) : Handles d scancode ([], d')
  | flushes {d' : Driver} (h : d.isCtrlC scancode) (hstart : d'.bufferStart = 0)
      (hsize : d'.bufferSize = 0) (hsince : d'.since = ⟨[], []⟩) :
      Handles d scancode ([.scheduler .killForegroundProcess], d')
  | writes {key : UInt8} (hroom : d.bufferSize.toInt < BUFFER_CAPACITY - 1) (hkey : isKey key) :
      Handles d scancode ([.sem_post KEYBOARD_SEM_ID], (d.writeKey key).2)

theorem writeKey_handles (scancode key : UInt8)
    (hroom : d.bufferSize.toInt < BUFFER_CAPACITY - 1) : Handles d scancode (d.writeKey key) := by
  by_cases hkey : isKey key
  · have hcalls : d.writeKey key = ([.sem_post KEYBOARD_SEM_ID], (d.writeKey key).2) := by
      unfold writeKey
      rw [if_pos hkey]
    rw [hcalls]
    exact .writes hroom hkey
  · unfold writeKey
    rw [if_neg hkey]
    exact .quiet rfl rfl rfl

theorem keyboardHandler_handles (d : Driver) (scancode : UInt8) :
    Handles d scancode (d.keyboardHandler scancode) := by
  unfold keyboardHandler
  split_ifs with hpressed hctrl hshift hheld hc hd hroom hup
  · exact .quiet rfl rfl rfl
  · exact .quiet rfl rfl rfl
  · exact .flushes ⟨hheld, hc⟩ rfl rfl rfl
  · exact writeKey_handles scancode EOF hd.2
  · exact .quiet rfl rfl rfl
  · exact writeKey_handles scancode _ hroom
  · exact writeKey_handles scancode _ hroom
  · exact .quiet rfl rfl rfl
  · exact .quiet rfl rfl rfl
  · exact .quiet rfl rfl rfl
  · exact .quiet rfl rfl rfl

/-- Ctrl+C is never taken for another key. -/
theorem keyboardHandler_ctrlC {scancode : UInt8} (h : d.isCtrlC scancode) :
    d.keyboardHandler scancode = ([.scheduler .killForegroundProcess],
      { d with bufferStart := 0, bufferSize := 0, since := ⟨[], []⟩ }) := by
  obtain ⟨hheld, rfl⟩ := h
  unfold keyboardHandler
  rw [if_pos (by decide), if_neg (by decide), if_neg (by decide), if_pos hheld, if_pos rfl]

/-! ## The keyboard with counters that do not wrap -/

def abs (d : Driver) (past : Past) : Keyboard :=
  ⟨d.ring.first, d.ring.count, d.ring.cells, d.ctrl ≠ 0, d.shift ≠ 0, past⟩

theorem writeKey_abs (h : d.Ok) (hroom : d.bufferSize.toInt < BUFFER_CAPACITY - 1) (past : Past)
    (key : UInt8) : ∃ past', keyboard.writeKey (d.abs past) key =
      ((d.writeKey key).1, (d.writeKey key).2.abs past') := by
  by_cases hkey : isKey key
  · have hring := ring_writeKey h hroom hkey
    refine ⟨{ past with accepted := past.accepted ++ [key] }, ?_⟩
    rw [show (d.writeKey key).2.abs _ = ⟨_, _, _, _, _, _⟩ from rfl, hring]
    unfold keyboard.writeKey writeKey
    rw [if_pos hkey, if_pos hkey]
    rfl
  · refine ⟨past, ?_⟩
    unfold keyboard.writeKey writeKey
    rw [if_neg hkey, if_neg hkey]

/-- In a byte the size does not wrap, so the interrupt makes the same calls and the same
ring. -/
theorem keyboardHandler_abs (h : d.Ok) (past : Past) (scancode : UInt8) :
    ∃ past', keyboard.keyboardHandler (d.abs past) scancode =
      ((d.keyboardHandler scancode).1, (d.keyboardHandler scancode).2.abs past') := by
  have hsize := h.size
  have hroom : (d.abs past).bufferSize < BUFFER_CAPACITY - 1 ↔
      d.bufferSize.toInt < BUFFER_CAPACITY - 1 := by
    simp only [abs, Driver.ring, BUFFER_CAPACITY]
    omega
  have hctrl : (d.abs past).ctrl = true ↔ d.ctrl ≠ 0 := decide_eq_true_iff
  have hshift : (d.abs past).shift = true ↔ d.shift ≠ 0 := decide_eq_true_iff
  unfold keyboard.keyboardHandler keyboardHandler
  simp only [hroom, hctrl, hshift]
  split_ifs
  · exact ⟨past, rfl⟩
  · exact ⟨past, rfl⟩
  · exact ⟨_, rfl⟩
  · rename_i hd
    exact writeKey_abs h hd.2 past EOF
  · exact ⟨past, rfl⟩
  · exact writeKey_abs h (by assumption) past _
  · exact writeKey_abs h (by assumption) past _
  · exact ⟨past, rfl⟩
  · exact ⟨past, rfl⟩
  · exact ⟨past, rfl⟩
  · exact ⟨past, rfl⟩

theorem getScancode_abs (h : d.Ok) (past : Past) :
    ∃ past', keyboard.getScancode (d.abs past) =
      (d.getScancode.1, d.getScancode.2.abs past') := by
  cases hk : d.keys with
  | nil =>
    refine ⟨past, ?_⟩
    rw [getScancode_empty hk]
    have hcount : d.ring.count = 0 := by
      rw [← RingBuffer.length_contents BUFFER_CAPACITY d.ring]
      exact congrArg List.length hk
    exact if_neg (by simp [abs, hcount])
  | cons c rest =>
    have hcount := length_keys d
    rw [hk, List.length_cons] at hcount
    have hpos : 0 < d.bufferSize.toInt := by omega
    have hring := ring_getScancode h hpos
    have hget : d.getScancode = _ := if_pos hpos
    have hfirst : (d.abs past).getBufferIndex 0 = d.ring.first := Nat.mod_eq_of_lt h.start
    have hsome : (d.abs past).bufferSize > 0 := Nat.succ_pos rest.length |>.trans_eq hcount
    refine ⟨{ past with gone := past.gone ++ [(d.ring.cells d.ring.first, true)] }, ?_⟩
    rw [show d.getScancode.2.abs _ = ⟨_, _, _, _, _, _⟩ from rfl, hring, hget,
      getBufferIndex_zero h]
    unfold keyboard.getScancode
    rw [if_pos hsome, hfirst]
    rfl

/-- The keyboard is this driver, with counters that do not wrap: it has the same ring, its
interrupts make the same calls, and its `getScancode` gives the same key. -/
structure Simulates (d : Driver) (k : Keyboard) : Prop where
  ring : ∃ past, k = d.abs past
  calls : ∀ scancode, (keyboard.keyboardHandler k scancode).1 = (d.keyboardHandler scancode).1
  scancode : (keyboard.getScancode k).1 = d.getScancode.1

theorem Ok.simulates (h : d.Ok) (past : Past) : d.Simulates (d.abs past) where
  ring := ⟨past, rfl⟩
  calls scancode := by
    obtain ⟨past', hhandler⟩ := keyboardHandler_abs h past scancode
    rw [hhandler]
  scancode := by
    obtain ⟨past', hget⟩ := getScancode_abs h past
    rw [hget]

/-! ## Every run -/

/-- A key interrupt, or a call of `getScancode`. -/
inductive Event
  | key (scancode : UInt8)
  | getScancode

def step (d : Driver) : Event → Driver
  | .key scancode => (d.keyboardHandler scancode).2
  | .getScancode => d.getScancode.2

theorem ok_step (d : Driver) (e : Event) (h : d.Ok) : (step d e).Ok := by
  cases e with
  | key scancode =>
    have hhandles := keyboardHandler_handles d scancode
    rw [step]
    generalize d.keyboardHandler scancode = r at hhandles
    cases hhandles with
    | quiet hring hsize hsince =>
      have hfirst := congrArg RingBuffer.first hring
      refine ⟨?_, hsize ▸ h.size, ?_⟩
      · exact hfirst.trans_lt h.start
      · rw [hsince, keys, hring]
        exact h.order
    | flushes hc hstart hsize hsince =>
      refine ⟨by rw [hstart]; decide, by rw [hsize]; decide, ?_⟩
      rw [hsince, keys_eq_nil hsize]
      rfl
    | writes hroom hkey => exact (writeKey_spec h hroom hkey).1
  | getScancode =>
    rw [step]
    cases hk : d.keys with
    | nil => rwa [getScancode_empty hk]
    | cons c rest => exact (getScancode_cons h hk).2.1

/-- The ring is a queue of at most nine keys: what was accepted since the last Ctrl+C was
returned in its order, or is still there. -/
structure BoundedFifo (d : Driver) : Prop where
  start : d.bufferStart < 10
  size : 0 ≤ d.bufferSize ∧ d.bufferSize ≤ 9
  stored : (d.keys.length : Int) = d.bufferSize.toInt
  order : d.since.accepted = d.since.returned ++ d.keys
  /-- The next scancode is the oldest key that was not returned. -/
  next : ∀ c rest, d.keys = c :: rest → d.getScancode.1 = c ∧ d.getScancode.2.keys = rest ∧
    d.getScancode.2.since = ⟨d.since.accepted, d.since.returned ++ [c]⟩
  empty : d.keys = [] → d.getScancode = (0, d)
  flush : ∀ scancode, d.isCtrlC scancode →
    (d.keyboardHandler scancode).2.keys = [] ∧
      (d.keyboardHandler scancode).2.since = ⟨[], []⟩
  /-- A key is stored behind the others, or disturbs nothing. -/
  arrives : ∀ scancode, ¬ d.isCtrlC scancode →
    ((d.keyboardHandler scancode).2.ring = d.ring ∧
      (d.keyboardHandler scancode).2.since = d.since) ∨
    ∃ key, isKey key ∧ d.bufferSize < 9 ∧ (d.keyboardHandler scancode).2.keys = d.keys ++ [key] ∧
      (d.keyboardHandler scancode).2.since = ⟨d.since.accepted ++ [key], d.since.returned⟩
  full : d.bufferSize = 9 → ∀ scancode, ¬ d.isCtrlC scancode →
    (d.keyboardHandler scancode).1 = [] ∧ (d.keyboardHandler scancode).2.ring = d.ring ∧
      (d.keyboardHandler scancode).2.since = d.since

theorem Ok.boundedFifo (h : d.Ok) : d.BoundedFifo := by
  have hsize := h.size
  refine ⟨?_, ?_, ?_, h.order, fun c rest hk => ?_, getScancode_empty, fun scancode hc => ?_,
    fun scancode hc => ?_, fun hfull scancode hc => ?_⟩
  · exact UInt8.lt_iff_toNat_lt.mpr h.start
  · exact ⟨Int8.le_iff_toInt_le.mpr hsize.1, Int8.le_iff_toInt_le.mpr hsize.2⟩
  · rw [length_keys, Int.toNat_of_nonneg hsize.1]
  · obtain ⟨hc, -, hrest, hsince⟩ := getScancode_cons h hk
    exact ⟨hc, hrest, hsince⟩
  · have hflush := keyboardHandler_ctrlC hc
    rw [hflush]
    exact ⟨keys_eq_nil rfl, rfl⟩
  · have hhandles := keyboardHandler_handles d scancode
    generalize d.keyboardHandler scancode = r at hhandles
    cases hhandles with
    | quiet hring hsize hsince => exact .inl ⟨hring, hsince⟩
    | flushes hctrl => exact absurd hctrl hc
    | @writes key hroom hkey =>
      refine .inr ⟨key, hkey, Int8.lt_iff_toInt_lt.mpr hroom, (writeKey_spec h hroom hkey).2, ?_⟩
      unfold writeKey
      rw [if_pos hkey]
  · have hhandles := keyboardHandler_handles d scancode
    generalize d.keyboardHandler scancode = r at hhandles
    cases hhandles with
    | quiet hring hsize hsince => exact ⟨rfl, hring, hsince⟩
    | flushes hctrl => exact absurd hctrl hc
    | writes hroom hkey =>
      rw [hfull] at hroom
      exact absurd hroom (by decide)

/-- Whatever keys come, and whenever `getScancode` is called. -/
theorem the_keyboard_ring_is_a_bounded_fifo (events : List Event) :
    BoundedFifo (run step start events) :=
  (run_keeps (fun d e h => ok_step d e h) ok_start events).boundedFifo

end Driver

end bare_bones.keyboard
