-- The modules of an image: `ModulePacker` writes them behind the kernel, and the kernel
-- loads each one to its address.
import BareBones.KernelLib

namespace bare_bones.moduleLoader

open byte_memory
open bare_bones.lib (memcpy memcpy_spec)

abbrev File := List UInt8

/-! ## The packer -/

def BUFFER_SIZE : Nat := 128

/-- An open file: what is left to read, and whether a read came to the end. -/
structure Source where
  rest : File
  feof : Bool

def fopen (file : File) : Source := ⟨file, false⟩

/-- Only a read that finds less than it asks for sets `feof`. -/
def fread (n : Nat) (source : Source) : File × Source :=
  (source.rest.take n, ⟨source.rest.drop n, source.feof || source.rest.length < n⟩)

def write_file (target : File) (source : Source) : File :=
  if source.feof then target
  else write_file (target ++ (fread BUFFER_SIZE source).1) (fread BUFFER_SIZE source).2
termination_by source.rest.length + (if source.feof then 0 else 1)
decreasing_by
  simp_all only [fread, BUFFER_SIZE, List.length_drop, Bool.false_or]
  split <;> grind

/-- `size` is an integer of 32 bits. -/
def write_size (target file : File) : File := target ++ intBytes 4 (file.length % 2 ^ 32)

/-- The files of the command line, the kernel first. Their number is an `int`. -/
structure FileArray where
  kernel : File
  modules : List File
  length_lt : modules.length + 1 < 2 ^ 31

def writeModule (target file : File) : File := write_file (write_size target file) (fopen file)

def buildImage (fileArray : FileArray) : File :=
  let target := write_file [] (fopen fileArray.kernel)
  let target := target ++ intBytes 4 fileArray.modules.length
  fileArray.modules.foldl writeModule target

/-! ## The loader -/

/-- The integer, and the address behind it. -/
def readUint32 (address : Nat) (m : Memory) : Nat × Nat := (m.loadInt address 4, address + 4)

def loadModule (module targetModuleAddress : Nat) (m : Memory) : Nat × Memory :=
  let (moduleSize, module) := readUint32 module m
  (module + moduleSize, (memcpy targetModuleAddress module moduleSize m).2)

def loadModules (payloadStart : Nat) (targetModuleAddress : Nat → Nat) (m : Memory) : Memory :=
  let (moduleCount, currentModule) := readUint32 payloadStart m
  ((List.range moduleCount).foldl
    (fun (currentModule, m) i => loadModule currentModule (targetModuleAddress i) m)
    (currentModule, m)).2

/-! ## What the packer writes -/

theorem write_file_eq (target : File) (source : Source) :
    write_file target source = if source.feof then target else target ++ source.rest := by
  fun_induction write_file target source with
  | case1 target source heof => rw [if_pos heof]
  | case2 target source heof ih =>
    rw [ih, if_neg heof]
    by_cases hshort : source.rest.length < BUFFER_SIZE
    · simp [fread, hshort, List.take_of_length_le (Nat.le_of_lt hshort)]
    · simp [fread, hshort, heof]

/-- A module as it lies in the image: its size, then its bytes. -/
def packed (file : File) : File := intBytes 4 file.length ++ file

theorem writeModule_eq {file : File} (h : file.length < 2 ^ 32) (target : File) :
    writeModule target file = target ++ packed file := by
  rw [writeModule, write_file_eq, write_size, Nat.mod_eq_of_lt h]
  simp [fopen, packed]

theorem foldl_writeModule {modules : List File} (h : ∀ file ∈ modules, file.length < 2 ^ 32)
    (target : File) :
    modules.foldl writeModule target = target ++ modules.flatMap packed := by
  induction modules generalizing target with
  | nil => simp
  | cons file modules ih =>
    rw [List.foldl_cons, writeModule_eq (h file List.mem_cons_self),
      ih fun f hf => h f (List.mem_cons_of_mem _ hf)]
    simp

/-- The number of the modules, then each module. -/
def payload (modules : List File) : File :=
  intBytes 4 modules.length ++ modules.flatMap packed

theorem buildImage_eq (fileArray : FileArray)
    (h : ∀ file ∈ fileArray.modules, file.length < 2 ^ 32) :
    buildImage fileArray = fileArray.kernel ++ payload fileArray.modules := by
  unfold buildImage
  rw [foldl_writeModule h, write_file_eq]
  simp [fopen, payload]

/-! ## What the loader finds -/

section
variable {modules : List File} {payloadStart : Nat} {targets : Nat → Nat} {m m' : Memory}

/-- Where the module `i` lies, its size first. -/
def moduleAt (modules : List File) (payloadStart i : Nat) : Nat :=
  payloadStart + 4 + ((modules.take i).flatMap packed).length

/-- The payload is in the memory. -/
def Holds (m : Memory) (payloadStart : Nat) (modules : List File) : Prop :=
  m.load payloadStart (payload modules).length = payload modules

theorem moduleAt_succ {i : Nat} (hi : i < modules.length) :
    moduleAt modules payloadStart (i + 1) =
      moduleAt modules payloadStart i + 4 + modules[i].length := by
  rw [moduleAt, moduleAt, List.take_succ_eq_append_getElem hi]
  simp only [List.flatMap_append, List.flatMap_singleton, List.length_append, packed,
    length_intBytes]
  omega

/-- The module `i` in the midst of the payload. -/
theorem payload_split {i : Nat} (hi : i < modules.length) :
    payload modules = (intBytes 4 modules.length ++ (modules.take i).flatMap packed) ++
      (packed modules[i] ++ (modules.drop (i + 1)).flatMap packed) := by
  have hsplit : modules = modules.take i ++ modules[i] :: modules.drop (i + 1) := by
    rw [← List.drop_eq_getElem_cons hi, List.take_append_drop]
  have hflat := congrArg (List.flatMap packed) hsplit
  rw [List.flatMap_append, List.flatMap_cons] at hflat
  rw [payload, hflat, List.append_assoc]

theorem moduleAt_le {i : Nat} (hi : i < modules.length) :
    payloadStart ≤ moduleAt modules payloadStart i ∧
      moduleAt modules payloadStart i + 4 + modules[i].length ≤
        payloadStart + (payload modules).length := by
  rw [payload_split hi, moduleAt]
  simp only [List.length_append, packed, length_intBytes]
  omega

theorem Holds.count (h : Holds m payloadStart modules) (hlt : modules.length < 2 ^ 32) :
    m.loadInt payloadStart 4 = modules.length := by
  have hcount := (Memory.load_append.mp h).1
  rw [length_intBytes] at hcount
  rw [Memory.loadInt, hcount, ofBytes_intBytes (by omega)]

/-- The size and the bytes of the module `i`. -/
theorem Holds.module (h : Holds m payloadStart modules) {i : Nat} (hi : i < modules.length)
    (hlt : modules[i].length < 2 ^ 32) :
    m.loadInt (moduleAt modules payloadStart i) 4 = modules[i].length ∧
      m.load (moduleAt modules payloadStart i + 4) modules[i].length = modules[i] := by
  rw [Holds, payload_split hi] at h
  have hat := (Memory.load_append.mp (Memory.load_append.mp h).2).1
  have hstart : payloadStart + (intBytes 4 modules.length ++
      (modules.take i).flatMap packed).length = moduleAt modules payloadStart i := by
    simp [moduleAt, Nat.add_assoc]
  rw [hstart] at hat
  obtain ⟨hsize, hbytes⟩ := Memory.load_append.mp hat
  rw [length_intBytes] at hsize hbytes
  refine ⟨?_, hbytes⟩
  rw [Memory.loadInt, hsize, ofBytes_intBytes (by omega)]

/-- The ranges that the loader writes are apart from each other and from the payload. -/
structure Targets (modules : List File) (payloadStart : Nat) (targets : Nat → Nat) : Prop where
  apart : ∀ i j (hi : i < modules.length) (hj : j < modules.length), i ≠ j →
    Apart (targets i) modules[i].length (targets j) modules[j].length
  payload : ∀ i (hi : i < modules.length),
    Apart (targets i) modules[i].length payloadStart (payload modules).length

/-- The address is in none of the first `k` ranges. -/
def Outside (modules : List File) (targets : Nat → Nat) (k a : Nat) : Prop :=
  ∀ i (hi : i < modules.length), i < k → a < targets i ∨ targets i + modules[i].length ≤ a

/-- The first `k` modules are where they belong, and nothing else was written. -/
structure Loaded (modules : List File) (targets : Nat → Nat) (m m' : Memory) (k : Nat) : Prop where
  held : ∀ i (hi : i < modules.length), i < k →
    m'.load (targets i) modules[i].length = modules[i]
  spared : Spares (Outside modules targets k) m m'

theorem Loaded.holds {k : Nat} (hl : Loaded modules targets m m' k)
    (ht : Targets modules payloadStart targets) (h : Holds m payloadStart modules) :
    Holds m' payloadStart modules := by
  refine (Memory.load_congr fun i hi => hl.spared.bytes _ fun j hj _ => ?_).trans h
  have := ht.payload j hj
  unfold Apart at this
  omega

/-- One module more. -/
theorem Loaded.step {k : Nat} (hk : k < modules.length) (hlt : modules[k].length < 2 ^ 32)
    (hl : Loaded modules targets m m' k) (ht : Targets modules payloadStart targets)
    (h : Holds m payloadStart modules) :
    (loadModule (moduleAt modules payloadStart k) (targets k) m').1 =
        moduleAt modules payloadStart (k + 1) ∧
      Loaded modules targets m
        (loadModule (moduleAt modules payloadStart k) (targets k) m').2 (k + 1) := by
  obtain ⟨hsize, hbytes⟩ := (hl.holds ht h).module hk hlt
  have hin : payloadStart ≤ moduleAt modules payloadStart k ∧ _ := moduleAt_le hk
  have hcopied : Copied m' (loadModule (moduleAt modules payloadStart k) (targets k) m').2
      (targets k) (moduleAt modules payloadStart k + 4) modules[k].length := by
    simp only [loadModule, readUint32, hsize]
    apply memcpy_spec
    have := ht.payload k hk
    unfold Apart at this ⊢
    omega
  refine ⟨?_, ?_, ?_⟩
  · simp only [loadModule, readUint32, hsize, moduleAt_succ hk]
  · intro i hi hik
    by_cases hlast : i = k
    · subst hlast
      rw [hcopied.load_eq, hbytes]
    · rw [hcopied.load_apart (ht.apart i k hi hk hlast), hl.held i hi (by omega)]
  · have hbefore := hl.spared.mono fun a (ha : Outside modules targets (k + 1) a) i hi hik =>
      ha i hi (Nat.lt_succ_of_lt hik)
    exact hbefore.trans (hcopied.outside.mono fun a ha => ha k hk (Nat.lt_succ_self k))

theorem loaded_all (hsizes : ∀ file ∈ modules, file.length < 2 ^ 32)
    (ht : Targets modules payloadStart targets) (h : Holds m payloadStart modules) {k : Nat}
    (hk : k ≤ modules.length) :
    let done := (List.range k).foldl
      (fun (currentModule, m) i => loadModule currentModule (targets i) m)
      (payloadStart + 4, m)
    done.1 = moduleAt modules payloadStart k ∧ Loaded modules targets m done.2 k := by
  induction k with
  | zero =>
    refine ⟨by simp [moduleAt], fun i hi h0 => absurd h0 (Nat.not_lt_zero i), Spares.refl m⟩
  | succ k ih =>
    obtain ⟨hat, hl⟩ := ih (Nat.le_of_succ_le hk)
    have hstep := hl.step hk (hsizes _ (List.getElem_mem hk)) ht h
    rw [← hat] at hstep
    simpa [List.range_succ] using hstep

/-- What `buildImage` appends to the kernel, and `loadModules` reads, gives every module
at its address and nothing else. -/
theorem loadModules_unpacks (fileArray : FileArray)
    (hsizes : ∀ file ∈ fileArray.modules, file.length < 2 ^ 32) (m : Memory)
    (payloadStart : Nat) (targetModuleAddress : Nat → Nat)
    (ht : Targets fileArray.modules payloadStart targetModuleAddress)
    (h : m.load payloadStart ((buildImage fileArray).drop fileArray.kernel.length).length =
      (buildImage fileArray).drop fileArray.kernel.length) :
    (buildImage fileArray).take fileArray.kernel.length = fileArray.kernel ∧
    (∀ i (hi : i < fileArray.modules.length),
      (loadModules payloadStart targetModuleAddress m).load (targetModuleAddress i)
        fileArray.modules[i].length = fileArray.modules[i]) ∧
    Spares (Outside fileArray.modules targetModuleAddress fileArray.modules.length) m
      (loadModules payloadStart targetModuleAddress m) := by
  rw [buildImage_eq fileArray hsizes] at h ⊢
  rw [List.drop_left] at h
  have hcount := Holds.count h (by have := fileArray.length_lt; omega)
  have hloaded := (loaded_all hsizes ht h (Nat.le_refl _)).2
  have hrun : loadModules payloadStart targetModuleAddress m =
      ((List.range fileArray.modules.length).foldl
        (fun (currentModule, m) i => loadModule currentModule (targetModuleAddress i) m)
        (payloadStart + 4, m)).2 := by
    simp only [loadModules, readUint32, hcount]
  rw [hrun]
  exact ⟨List.take_left, fun i hi => hloaded.held i hi hi, hloaded.spared⟩

/-- A module of three bytes at 0 and one of four at 16, from a payload at 1000: the one
is copied by bytes, and so is the other, as its bytes lie at 1015. -/
theorem loadModules_unpacks_two :
    (loadModules 1000 (fun i => 16 * i)
      ⟨fun a => (payload [[1, 2, 3], [4, 5, 6, 7]]).getD (a - 1000) 0, []⟩).load 16 4 =
        [4, 5, 6, 7] := by
  refine (loadModules_unpacks ⟨[9], [[1, 2, 3], [4, 5, 6, 7]], by decide⟩ (by decide) _ 1000
    (fun i => 16 * i) ⟨fun i j hi hj hij => ?_, fun i hi => ?_⟩ ?_).2.1 1 (by decide)
  · match i, j, hi, hj with
    | 0, 0, _, _ => exact absurd rfl hij
    | 0, 1, _, _ => exact (by decide : Apart 0 3 16 4)
    | 1, 0, _, _ => exact (by decide : Apart 16 4 0 3)
    | 1, 1, _, _ => exact absurd rfl hij
  · match i, hi with
    | 0, _ => exact (by decide : Apart 0 3 1000 19)
    | 1, _ => exact (by decide : Apart 16 4 1000 19)
  · rw [buildImage_eq _ (by decide)]
    decide

end

end bare_bones.moduleLoader
