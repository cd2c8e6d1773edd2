-- `keyboard.c`: the interrupt puts keys into a ring of ten cells and posts on semaphore 0,
-- and `getAscii` waits on it before it takes a key. Between its `sem_wait` and
-- `getScancode` nothing runs when the wait finds a token; when it blocks, the reader goes
-- on once it has the processor again.
import BareBones.Lib.RingBuffer
import BareBones.WaitFailures

namespace bare_bones.keyboard

open bare_bones.process bare_bones.process_table bare_bones.scheduler bare_bones.semaphore
open runs ring_buffer

variable {H : Type}

/-! ## The scancodes -/

def BUFFER_CAPACITY : Nat := 10

def KEYBOARD_SEM_ID : Int := 0

def LCTRL : UInt8 := 29

def LSHIFT : UInt8 := 42

def C_KEY : UInt8 := 0x2E

def D_KEY : UInt8 := 0x20

def RELEASED : UInt8 := 0x80

def SHIFTED : UInt8 := 0x80

/-- `EOF` as a `char`. -/
def EOF : UInt8 := 0xFF

/-- The entries of a map of scancodes; the others are 0. -/
def mapOf (entries : List Char) (i : UInt8) : UInt8 :=
  (entries.getD i.toNat '\x00').toNat.toUInt8

def charHexMap : UInt8 → UInt8 := mapOf
  ['\x00', '\x00', '1', '2', '3', '4', '5', '6', '7', '8', '9', '0', '-', '=', '\x08', ' ', 'q',
    'w', 'e', 'r', 't', 'y', 'u', 'i', 'o', 'p', '[', ']', '\n', '\x00', 'a', 's', 'd', 'f', 'g',
    'h', 'j', 'k', 'l', ';', '\x27', '\x00', '\x00', '\x5c', 'z', 'x', 'c', 'v', 'b', 'n', 'm',
    ',', '.', '/', '\x00', '*', '\x00', ' ']

def charHexMapShift : UInt8 → UInt8 := mapOf
  ['\x00', '\x00', '!', '@', '#', '$', '%', '^', '&', '*', '(', ')', '_', '+', '\x08', ' ', 'Q',
    'W', 'E', 'R', 'T', 'Y', 'U', 'I', 'O', 'P', '\x7b', '\x7d', '\n', '\x00', 'A', 'S', 'D', 'F',
    'G', 'H', 'J', 'K', 'L', ':', '\x22', '\x00', '\x00', '|', 'Z', 'X', 'C', 'V', 'B', 'N', 'M',
    '<', '>', '?', '\x00', '*', '\x00', ' ']

/-- `sizeof(charHexMap)`. -/
def charHexMapSize : Nat := 256

/-- The end of `getAscii`: the character of a scancode. -/
def asciiOf (scanCode : UInt8) : UInt8 :=
  if scanCode = EOF then EOF
  else if SHIFTED &&& scanCode ≠ 0 then charHexMapShift (scanCode &&& 0x7F)
  else charHexMap scanCode

/-! ## The buffer -/

/-- The past of the keyboard. No code reads it. -/
structure Past where
  /-- The keys that `writeKey` accepted. -/
  accepted : List UInt8
  /-- The keys that left the buffer, and whether `getScancode` took them. -/
  gone : List (UInt8 × Bool)
  /-- What the calls of `getAscii` returned. -/
  returned : List UInt8

/-- The statics of the driver. -/
structure Keyboard where
  bufferStart : Nat
  bufferSize : Nat
  buffer : Nat → UInt8
  ctrl : Bool
  shift : Bool
  past : Past

namespace Keyboard

def getBufferIndex (k : Keyboard) (offset : Nat) : Nat := (k.bufferStart + offset) % BUFFER_CAPACITY

/-- The keys in the buffer, oldest first. -/
def keys (k : Keyboard) : List UInt8 :=
  RingBuffer.contents BUFFER_CAPACITY ⟨k.buffer, k.bufferStart, k.bufferSize⟩

end Keyboard

/-- The keyboard before the first key. -/
def released : Keyboard := ⟨0, 0, fun _ => 0, false, false, ⟨[], [], []⟩⟩

/-- The test of `writeKey`. -/
def isKey (key : UInt8) : Prop :=
  ((key &&& 0x7F).toNat < charHexMapSize ∧ charHexMap (key &&& 0x7F) ≠ 0) ∨ key = EOF

instance (key : UInt8) : Decidable (isKey key) := inferInstanceAs (Decidable (_ ∨ _))

def writeKey (k : Keyboard) (key : UInt8) : List Call × Keyboard :=
  if isKey key then
    ([.sem_post KEYBOARD_SEM_ID], { k with
      buffer := Function.update k.buffer (k.getBufferIndex k.bufferSize) key
      bufferSize := k.bufferSize + 1
      past := { k.past with accepted := k.past.accepted ++ [key] } })
  else ([], k)

/-- Ctrl+C empties the buffer. -/
def flush (k : Keyboard) : Keyboard :=
  { k with
    bufferStart := 0
    bufferSize := 0
    past := { k.past with gone := k.past.gone ++ k.keys.map (·, false) } }

/-- The calls that the interrupt makes, and the keyboard after it. -/
def keyboardHandler (k : Keyboard) (key : UInt8) : List Call × Keyboard :=
  if key &&& RELEASED = 0 then
    if key = LCTRL then ([], { k with ctrl := true })
    else if key = LSHIFT then ([], { k with shift := true })
    else if k.ctrl then
      if key = C_KEY then ([.scheduler .killForegroundProcess], flush k)
      else if key = D_KEY ∧ k.bufferSize < BUFFER_CAPACITY - 1 then writeKey k EOF
      else ([], k)
    else if k.bufferSize < BUFFER_CAPACITY - 1 then
      writeKey k (if k.shift then SHIFTED ||| key else key)
    else ([], k)
  else if key = LCTRL ||| RELEASED then ([], { k with ctrl := false })
  else if key = LSHIFT ||| RELEASED then ([], { k with shift := false })
  else ([], k)

def getScancode (k : Keyboard) : UInt8 × Keyboard :=
  if k.bufferSize > 0 then
    let c := k.buffer (k.getBufferIndex 0)
    (c, { k with
      bufferStart := k.getBufferIndex 1
      bufferSize := k.bufferSize - 1
      past := { k.past with gone := k.past.gone ++ [(c, true)] } })
  else (0, k)

/-- `getAscii` after its `sem_wait`. -/
def returnAscii (k : Keyboard) : UInt8 × Keyboard :=
  let (scanCode, k) := getScancode k
  let c := asciiOf scanCode
  (c, { k with past := { k.past with returned := k.past.returned ++ [c] } })

/-! ## The processes that read -/

/-- The kernel with its keyboard. -/
structure KeyboardSystem (H : Type) where
  system : System H
  driver : Keyboard
  /-- Who blocked inside `getAscii` and did not go on yet. -/
  readers : List Pcb

inductive Act
  /-- A tick, or a call that is not `getAscii`. -/
  | call (c : Call)
  /-- The interrupt of a key. -/
  | key (scancode : UInt8)
  | getAscii (rsp : Addr)
  /-- The current process goes on inside its `getAscii`. -/
  | go

/-- The keyboard beside a new state of the kernel. Who was killed does not go on. -/
def KeyboardSystem.settle (m : KeyboardSystem H) (s : System H) : KeyboardSystem H :=
  { m with system := s, readers := m.readers.filter (· ∈ s.scheduler.procs) }

variable [MemoryManager H]

/-- The start of `getAscii` by the process `p`. -/
def beginAscii (m : KeyboardSystem H) (p : Pcb) (rsp : Addr) : KeyboardSystem H :=
  let s := step m.system (.sem_wait KEYBOARD_SEM_ID rsp)
  if goesOn s.table p then { m with system := s, driver := (returnAscii m.driver).2 }
  else { m with readers := m.readers ++ [p] }.settle s

def act (m : KeyboardSystem H) : Act → KeyboardSystem H
  | .call c => m.settle (step m.system c)
  | .key scancode =>
    let (calls, driver) := keyboardHandler m.driver scancode
    { m with driver }.settle (run step m.system calls)
  | .getAscii rsp =>
    match m.system.scheduler.currentProcess with
    | none => m
    -- a process that is inside `getAscii` makes no other call
    | some p => if p ∈ m.readers then m else beginAscii m p rsp
  | .go =>
    match m.system.scheduler.currentProcess with
    | none => m
    | some p =>
      if p ∈ m.readers then
        { m with driver := (returnAscii m.driver).2, readers := m.readers.erase p }
      else m

/-- `initializeKeyboardDriver` on a kernel that boots. -/
def BootedKeyboard (m : KeyboardSystem H) : Prop :=
  ∃ s, BootedSystem s ∧ m = ⟨step s (.sem_create KEYBOARD_SEM_ID 0), released, []⟩

end bare_bones.keyboard
