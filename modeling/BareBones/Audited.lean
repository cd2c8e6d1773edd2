-- A manager with its books: which blocks it has given, to requests of which
-- sizes, and which came back. The books follow what the code under
-- `doubleLinkedList.c` and `process.c` allocates and frees: a list owns its
-- header and its nodes, and a PCB all that `freeProcess` frees.
import BareBones.Process
import BareBones.Lib.Account

namespace bare_bones

open accounts

/-- A manager whose books can be kept: while only blocks come back that it has
given, it knows what its account says. -/
class Accountable (H : Type) extends MemoryManager H where
  Tidy : H → Account Addr Nat → Prop
  tidy_refuse : ∀ {bytes : Nat} {h h' : H} {x : Account Addr Nat},
    mm_alloc bytes h = (none, h') → Tidy h x → Tidy h' x.refuse
  tidy_give : ∀ {bytes : Nat} {h h' : H} {a : Addr} {x : Account Addr Nat},
    mm_alloc bytes h = (some a, h') → Tidy h x → Tidy h' (x.give a bytes)
  tidy_take : ∀ {h : H} {a : Addr} {x : Account Addr Nat},
    a ∈ x.held → Tidy h x → Tidy (mm_free a h) (x.take a)

/-- A manager with its account, that no code reads. -/
structure Audited (H : Type) [Accountable H] where
  manager : H
  account : Account Addr Nat
  tidy : account.stray = 0 → Accountable.Tidy manager account

variable {H : Type} [Accountable H]

instance : MemoryManager (Audited H) where
  mm_alloc bytes h :=
    match hm : mm_alloc bytes h.manager with
    | (none, m) =>
      (none, ⟨m, h.account.refuse, fun hs => Accountable.tidy_refuse hm (h.tidy hs)⟩)
    | (some a, m) =>
      (some a, ⟨m, h.account.give a bytes, fun hs => Accountable.tidy_give hm (h.tidy hs)⟩)
  mm_free a h :=
    ⟨mm_free a h.manager, h.account.take a, fun hs =>
      have hstray := Account.take_stray hs
      Accountable.tidy_take hstray.1 (h.tidy hstray.2)⟩

namespace Audited

/-- The account changes no answer and nothing in the heap. -/
theorem alloc_manager (bytes : Nat) (h : Audited H) :
    (mm_alloc bytes h).1 = (mm_alloc bytes h.manager).1 ∧
      (mm_alloc bytes h).2.manager = (mm_alloc bytes h.manager).2 := by
  unfold mm_alloc instMemoryManagerAudited
  dsimp only
  split
  · rename_i hm
    exact ⟨congrArg Prod.fst hm.symm, congrArg Prod.snd hm.symm⟩
  · rename_i hm
    exact ⟨congrArg Prod.fst hm.symm, congrArg Prod.snd hm.symm⟩

theorem free_manager (a : Addr) (h : Audited H) :
    (mm_free a h).manager = mm_free a h.manager := rfl

/-- From `h` to `h'` somebody trades the blocks `b` for `b'`. -/
abbrev Trades (h h' : Audited H) (b b' : Multiset Addr) : Prop :=
  accounts.Trades h.account h'.account b b'

theorem alloc_some {bytes : Nat} {h h' : Audited H} {a : Addr}
    (hm : mm_alloc bytes h = (some a, h')) : Trades h h' 0 {a} := by
  unfold mm_alloc instMemoryManagerAudited at hm
  dsimp only at hm
  split at hm
  · cases hm
  · cases hm
    exact .give _ _ _

theorem alloc_none {bytes : Nat} {h h' : Audited H} (hm : mm_alloc bytes h = (none, h'))
    (b : Multiset Addr) : Trades h h' b b ∧ h.account.refused < h'.account.refused := by
  unfold mm_alloc instMemoryManagerAudited at hm
  dsimp only at hm
  split at hm
  · cases hm
    exact ⟨.refuse _ _, Nat.lt_succ_self _⟩
  · cases hm

theorem trades_free (a : Addr) (h : Audited H) : Trades h (mm_free a h) {a} 0 := .take _ _

theorem trades_freeAll (blocks : List Addr) (h : Audited H) :
    Trades h (freeAll blocks h) ↑blocks 0 := by
  induction blocks generalizing h with
  | nil => exact .refl _ _
  | cons a blocks ih =>
    rw [← Multiset.cons_coe, ← Multiset.singleton_add]
    exact (trades_free a h).pay (ih _)

end Audited

open Audited

/-! ## Lists -/

namespace doubleLinkedList

variable {α : Type}

/-- The blocks of a list: its header and its nodes. -/
def DoubleLinkedList.blocks (list : DoubleLinkedList α) : Multiset Addr :=
  ↑(list.nodes.map Prod.fst) + {list.header}

theorem createDoubleLinkedListADT_some {h h' : Audited H} {list : DoubleLinkedList α}
    (hc : createDoubleLinkedListADT h = (some list, h')) : Trades h h' 0 list.blocks := by
  unfold createDoubleLinkedListADT at hc
  split at hc
  · cases hc
  · rename_i ha
    cases hc
    exact alloc_some ha

theorem createDoubleLinkedListADT_none {h h' : Audited H}
    (hc : createDoubleLinkedListADT h = ((none : Option (DoubleLinkedList α)), h')) :
    Trades h h' 0 0 := by
  unfold createDoubleLinkedListADT at hc
  split at hc
  · rename_i ha
    cases hc
    exact (alloc_none ha 0).1
  · cases hc

theorem trades_addNode (list : DoubleLinkedList α) (x : α) (h : Audited H) :
    Trades h (addNode list x h).2.2 list.blocks (addNode list x h).2.1.blocks := by
  unfold addNode
  split
  · rename_i ha
    exact (alloc_none ha _).1
  · rename_i newNode h' ha
    have hgive := (alloc_some ha).frame_left list.blocks
    rw [add_zero] at hgive
    have hblocks : DoubleLinkedList.blocks
        { list with nodes := list.nodes ++ [(newNode, x)] } = list.blocks + {newNode} := by
      unfold DoubleLinkedList.blocks
      rw [List.map_append, ← Multiset.coe_add, add_right_comm]
      rfl
    rw [hblocks]
    exact hgive

/-- When there was no memory for the node, that was a refusal. -/
theorem addNode_refused {list : DoubleLinkedList α} {x : α} {h : Audited H}
    (hn : (addNode list x h).1 = none) :
    h.account.refused < (addNode list x h).2.2.account.refused := by
  unfold addNode at hn ⊢
  split
  · rename_i ha
    exact (alloc_none ha 0).2
  · rename_i ha
    rw [ha] at hn
    cases hn

/-- What a search finds is what `eraseP` takes out. -/
theorem perm_of_find? {β : Type} {p : β → Bool} {l : List β} {b : β}
    (h : l.find? p = some b) : l.Perm (b :: l.eraseP p) := by
  induction l with
  | nil => cases h
  | cons x l ih =>
    by_cases hx : p x
    · rw [List.find?_cons_of_pos hx] at h
      cases h
      rw [List.eraseP_cons_of_pos hx]
    · rw [List.find?_cons_of_neg hx] at h
      rw [List.eraseP_cons_of_neg hx]
      exact ((ih h).cons x).trans (.swap _ _ _)

theorem trades_removeNode [DecidableEq α] (list : DoubleLinkedList α) (x : α) (h : Audited H) :
    Trades h (removeNode list x h).2.2 list.blocks (removeNode list x h).2.1.blocks := by
  unfold removeNode
  split
  · exact .refl _ _
  · rename_i current hfind
    have hperm : list.blocks = {current.1} + DoubleLinkedList.blocks
        { list with nodes := list.nodes.eraseP (fun n => n.2 = x) } := by
      have hmem : (list.nodes.map Prod.fst).Perm
          (current.1 :: (list.nodes.eraseP (fun n => n.2 = x)).map Prod.fst) :=
        (perm_of_find? hfind).map Prod.fst
      unfold DoubleLinkedList.blocks
      rw [Multiset.coe_eq_coe.mpr hmem, ← Multiset.cons_coe, ← Multiset.singleton_add, add_assoc]
    rw [hperm]
    have hfree := (trades_free current.1 h).frame
      (DoubleLinkedList.blocks { list with nodes := list.nodes.eraseP (fun n => n.2 = x) })
    rw [zero_add] at hfree
    exact hfree

theorem trades_getFirstData [DecidableEq α] (list : DoubleLinkedList α) (h : Audited H) :
    Trades h (getFirstData list h).2.2 list.blocks (getFirstData list h).2.1.blocks := by
  unfold getFirstData
  split
  · exact .refl _ _
  · exact trades_removeNode list _ h

theorem trades_freeLinkedListADT (list : DoubleLinkedList α) (h : Audited H) :
    Trades h (freeLinkedListADT list h) list.blocks 0 :=
  (trades_freeAll _ h).pay (trades_free _ _)

end doubleLinkedList

/-! ## Processes -/

namespace process

open doubleLinkedList

def Argv.blocks (argv : Argv) : Multiset Addr := ↑argv.strings + {argv.array}

namespace ProcessContext

/-- The block under `stackBase`. -/
def stack (p : ProcessContext) : Multiset Addr :=
  if p.stackBase ≥ STACK_SIZE then {p.stackBase - STACK_SIZE} else 0

/-- What `initializeProcess` takes for a PCB. -/
def parts (p : ProcessContext) : Multiset Addr :=
  (p.argv.elim 0 Argv.blocks + p.name.elim 0 (fun name => {name.block}) + p.stack) +
    p.waitingList.elim 0 DoubleLinkedList.blocks

/-- What a PCB owns, its own block too. -/
def blocks (p : ProcessContext) : Multiset Addr := p.parts + {p.block}

end ProcessContext

theorem trades_freeArgv (argv : Argv) (h : Audited H) :
    Trades h (freeArgv argv h) argv.blocks 0 :=
  (trades_freeAll _ h).pay (trades_free _ _)

theorem trades_allocArgv_loop {argv : Nat → Option CString} {n i : Nat} {copies : List Addr}
    {h h' : Audited H} {r : Option (List Addr)}
    (ha : allocArgv_loop argv n i copies h = (r, h')) :
    Trades h h' ↑copies (r.elim 0 (fun strings => ↑strings)) := by
  induction n generalizing i copies h with
  | zero =>
    cases ha
    exact .refl _ _
  | succ n ih =>
    unfold allocArgv_loop at ha
    split at ha
    · cases ha
      exact trades_freeAll _ _
    · split at ha
      · rename_i hnone
        cases ha
        exact (alloc_none hnone _).1.trans (trades_freeAll _ _)
      · rename_i copy h₁ hsome
        have hgive := (alloc_some hsome).frame_left ↑copies
        rw [add_zero] at hgive
        have hcopies : (↑(copies ++ [copy]) : Multiset Addr) = ↑copies + {copy} := rfl
        exact hgive.trans (hcopies ▸ ih ha)

theorem trades_allocArgv {argv : Args} {argc : Int} {h h' : Audited H} {r : Option Argv}
    (ha : allocArgv argv argc h = (r, h')) : Trades h h' 0 (r.elim 0 Argv.blocks) := by
  unfold allocArgv at ha
  split at ha
  · split at ha
    · rename_i hnone
      cases ha
      exact (alloc_none hnone 0).1
    · rename_i hsome
      cases ha
      exact alloc_some hsome
  · split at ha
    · cases ha
      exact .refl _ _
    · split at ha
      · rename_i hnone
        cases ha
        exact (alloc_none hnone 0).1
      · rename_i array h₁ hsome
        have hgive := alloc_some hsome
        split at ha
        · rename_i hloop
          cases ha
          have hall := hgive.earn (trades_allocArgv_loop hloop)
          exact hall.spend (c := {array}) (b := 0) (trades_free _ _)
        · rename_i strings h₂ hloop
          cases ha
          have hall := hgive.earn (trades_allocArgv_loop hloop)
          rw [add_comm] at hall
          exact hall

/-- Whether it fills the PCB in or fails, the PCB owns what was taken. -/
theorem trades_initializeProcess {process p : ProcessContext} {pid : Int} {args : Args}
    {argc : Int} {priority : Nat} {rip : Addr} {ground : Nat}
    {fileDescriptors : Option (Fin CANT_FILE_DESCRIPTORS → Int)} {h h' : Audited H} {r : Int}
    (hi : initializeProcess process pid args argc priority rip ground fileDescriptors h =
      (r, p, h')) : Trades h h' 0 p.parts ∧ p.block = process.block := by
  unfold initializeProcess at hi
  dsimp only at hi
  split at hi
  · rename_i hnone
    cases hi
    exact ⟨(alloc_none hnone 0).1, rfl⟩
  rename_i stack h₁ hstack
  have t₁ := alloc_some hstack
  split at hi
  · rename_i hargv
    cases hi
    exact ⟨(t₁.trans ((trades_allocArgv hargv).frame_left {stack})).spend (b := 0)
      (trades_free _ _), rfl⟩
  rename_i argv h₂ hargv
  have t₂ := t₁.earn (trades_allocArgv hargv)
  split at hi
  · rename_i h₃ hnone
    cases hi
    refine ⟨?_, rfl⟩
    exact ((t₂.trans (alloc_none hnone _).1).spend (trades_freeArgv argv h₃)).spend (b := 0)
      (trades_free _ _)
  rename_i block h₃ hname
  have t₃ := t₂.earn (alloc_some hname)
  split at hi
  · rename_i h₄ hnone
    cases hi
    refine ⟨?_, rfl⟩
    have t₄ := t₃.earn (createDoubleLinkedListADT_none hnone)
    exact (((t₄.spend (.refl _ 0)).spend (trades_free block h₄)).spend
      (trades_freeArgv argv _)).spend (b := 0) (trades_free _ _)
  · rename_i waitingList h₄ hlist
    cases hi
    refine ⟨?_, rfl⟩
    have t₄ := t₃.earn (createDoubleLinkedListADT_some hlist)
    have hstackBase : ProcessContext.stack { process with stackBase := stack + STACK_SIZE } =
        {stack} := by
      unfold ProcessContext.stack
      rw [if_pos (Nat.le_add_left _ _), Nat.add_sub_cancel]
    have hparts : ∀ a b c d : Multiset Addr, a + b + c + d = b + c + a + d := by
      intro a b c d
      rw [add_assoc a, add_comm a]
    rw [hparts, ← hstackBase] at t₄
    exact t₄

/-- Giving back an optional part. -/
theorem trades_elim {α : Type} {f : α → Audited H → Audited H} {p : α → Multiset Addr}
    (hf : ∀ x h, Trades h (f x h) (p x) 0) (o : Option α) (h : Audited H) :
    Trades h (o.elim id f h) (o.elim 0 p) 0 := by
  cases o with
  | none => exact .refl _ _
  | some x => exact hf x h

theorem freeProcess_heap (pcb : ProcessContext) (h : Audited H) :
    (freeProcess pcb h).2 = mm_free pcb.block
      (pcb.waitingList.elim id freeLinkedListADT
        ((fun h => if pcb.stackBase ≥ STACK_SIZE then mm_free (pcb.stackBase - STACK_SIZE) h else h)
          (pcb.name.elim id (fun name => mm_free name.block)
            (pcb.argv.elim id freeArgv h)))) := by
  unfold freeProcess
  cases pcb.argv <;> cases pcb.name <;> cases pcb.waitingList <;> rfl

theorem trades_freeProcess (pcb : ProcessContext) (h : Audited H) :
    Trades h (freeProcess pcb h).2 pcb.blocks 0 := by
  have hargv := trades_elim (H := H) trades_freeArgv pcb.argv
  have hname := trades_elim (H := H) (p := fun name : Name => {name.block})
    (fun name => trades_free name.block) pcb.name
  have hstack : ∀ h : Audited H, Trades h
      (if pcb.stackBase ≥ STACK_SIZE then mm_free (pcb.stackBase - STACK_SIZE) h else h)
      pcb.stack 0 := by
    intro h
    unfold ProcessContext.stack
    split
    · exact trades_free _ h
    · exact .refl _ _
  have hlist := trades_elim (H := H) trades_freeLinkedListADT pcb.waitingList
  rw [freeProcess_heap]
  exact ((((hargv h).pay (hname _)).pay (hstack _)).pay (hlist _)).pay (trades_free _ _)

end process

end bare_bones
