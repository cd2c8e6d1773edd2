-- `doubleLinkedList.c` down to its nodes: the links that each function sets, over a heap
-- where an access to a node that is not there is a fault.
import BareBones.DoubleLinkedList
import BareBones.Lib.DoubleChain
import Mathlib.Data.List.Perm.Subperm

namespace bare_bones.linkedNodes

open double_chain

variable {α : Type}

/-- A node, with a `void *` for its data. -/
abbrev Node (α : Type) := Cell Addr (Option α)

/-- The fields of `doubleLinkedListCDT`. -/
structure CDT where
  head : Option Addr
  tail : Option Addr
  current : Option Addr
  size : Int32

/-- The nodes in the heap, a list unless its pointer is `NULL`, and the blocks that went
to `mm_free`, the last one last. -/
structure World (α : Type) where
  heap : Heap Addr (Option α)
  address : Addr
  list : Option CDT
  released : List Addr

namespace World

def set (w : World α) (a : Addr) (f : Node α → Node α) : Option (World α) :=
  (modifyCell w.heap a f).map fun heap => { w with heap := heap }

def release (w : World α) (a : Addr) : Option (World α) :=
  (w.heap a).map fun _ =>
    { w with heap := Function.update w.heap a none, released := w.released ++ [a] }

end World

/-! ## The functions -/

/-- `served` is the answer of `mm_alloc`. -/
def createDoubleLinkedListADT (served : Option Addr) (w : World α) : World α :=
  match served with
  | none => { w with list := none }
  | some list => { w with address := list, list := some ⟨none, none, none, 0⟩ }

/-- `served` is the answer of `mm_alloc`: a block, with what is in it, or `NULL`. -/
def addNode (data : Option α) (served : Option (Addr × Node α)) (w : World α) :
    Option (Option Addr × World α) :=
  match w.list, served with
  | some list, some (newNode, junk) =>
    let w := { w with
      heap := Function.update w.heap newNode (some { junk with data := data, next := none }) }
    (if 0 < list.size then
      (list.tail.bind fun tail => w.set tail fun node => { node with next := some newNode }).map
        fun w => (w, list)
    else some (w, { list with head := some newNode })).bind fun (w, list) =>
    (w.set newNode fun node => { node with prev := list.tail }).map fun w =>
      (some newNode,
        { w with list := some { list with tail := some newNode, size := list.size + 1 } })
  | _, _ => some (none, w)

def addNodeInFirst (node : Option Addr) (w : World α) : Option (Option Addr × World α) :=
  match w.list, node with
  | some list, some node =>
    (w.set node fun node => { node with prev := none }).bind fun w =>
    (if 0 < list.size then
      (list.head.bind fun head => w.set head fun n => { n with prev := some node }).map
        fun w => (w, list)
    else some (w, { list with tail := some node })).bind fun (w, list) =>
    (w.set node fun node => { node with next := list.head }).map fun w =>
      (some node,
        { w with list := some { list with head := some node, size := list.size + 1 } })
  | _, _ => some (none, w)

/-- The link to `node` from the node before it, or else from the list. -/
def linkBefore (node : Node α) (list : CDT) (w : World α) : Option (World α × CDT) :=
  match node.prev with
  | some prev => (w.set prev fun n => { n with next := node.next }).map fun w => (w, list)
  | none => some (w, { list with head := node.next })

/-- The link to `node` from the node behind it, or else from the list. -/
def linkBehind (node : Node α) (list : CDT) (w : World α) : Option (World α × CDT) :=
  match node.next with
  | some next => (w.set next fun n => { n with prev := node.prev }).map fun w => (w, list)
  | none => some (w, { list with tail := node.prev })

/-- The branch of `removeNode` for the node that it found. -/
def unlink (current : Addr) (list : CDT) (w : World α) : Option (Option α × World α) :=
  (w.heap current).bind fun node => (linkBefore node list w).bind fun (w, list) =>
  (w.heap current).bind fun node => (linkBehind node list w).bind fun (w, list) =>
  (w.heap current).bind fun node =>
  ({ w with list := some { list with size := list.size - 1 } }.release current).map fun w =>
    (node.data, w)

/-- The loop of `removeNode`. The fuel bounds the nodes it looks at. -/
def searchFrom [DecidableEq α] (data : Option α) (list : CDT) :
    Nat → Option Addr → World α → Option (Option α × World α)
  | 0, _, _ => none
  | _ + 1, none, w => some (none, w)
  | fuel + 1, some current, w =>
    (w.heap current).bind fun node =>
      if node.data = data then unlink current list w else searchFrom data list fuel node.next w

def removeNode [DecidableEq α] (fuel : Nat) (data : Option α) (w : World α) :
    Option (Option α × World α) :=
  match w.list with
  | none => some (none, w)
  | some list => if data = none then some (none, w) else searchFrom data list fuel list.head w

def getFirstData [DecidableEq α] (fuel : Nat) (w : World α) : Option (Option α × World α) :=
  match w.list with
  | none => some (none, w)
  | some list =>
    if list.size = 0 then some (none, w)
    else
      (list.head.bind w.heap).bind fun head => removeNode fuel head.data w

/-- The loop of `freeLinkedListADT`. -/
def releaseFrom : Nat → Option Addr → World α → Option (World α)
  | 0, _, _ => none
  | _ + 1, none, w => some w
  | fuel + 1, some current, w =>
    (w.heap current).bind fun node => (w.release current).bind (releaseFrom fuel node.next)

/-- The block of the list is released last. -/
def freeLinkedListADT (fuel : Nat) (w : World α) : Option (World α) :=
  w.list.bind fun list => (releaseFrom fuel list.head w).map fun w =>
    { w with list := none, released := w.released ++ [w.address] }

def toBegin (w : World α) : World α :=
  { w with list := w.list.map fun list => { list with current := list.head } }

def hasNext (w : World α) : Bool := (w.list.bind CDT.current).isSome

def nextInList (w : World α) : Option (Option α × World α) :=
  match w.list with
  | none => some (none, w)
  | some list =>
    match list.current with
    | none => some (none, w)
    | some current => (w.heap current).map fun node =>
      (node.data, { w with list := some { list with current := node.next } })

def getSize (w : World α) : Int32 :=
  match w.list with
  | none => -1
  | some list => list.size

def isEmpty (w : World α) : Int32 :=
  match w.list with
  | none => -1
  | some list => if list.size = 0 then 1 else 0

/-! ## What the nodes stand for -/

/-- The nodes of the list, head first, all of them in a heap that starts at `base`. -/
structure Represents (base : Addr) (w : World α) (l : List (Addr × Option α)) : Prop where
  list : ∃ current, w.list = some ⟨first l none, last none l, current, Int32.ofNat l.length⟩
  chain : Segment w.heap none l none
  nodup : (l.map Prod.fst).Nodup
  inHeap : ∀ a ∈ l.map Prod.fst, base ≤ a ∧ a < base + HEAP_SIZE

/-- A heap has room for fewer nodes than an `int` counts. -/
theorem Represents.length_lt {base : Addr} {w : World α} {l : List (Addr × Option α)}
    (h : Represents base w l) : l.length < 2 ^ 31 := by
  have hsub : l.map Prod.fst ⊆ List.range' base HEAP_SIZE := fun a ha => by
    have := h.inHeap a ha
    rw [List.mem_range'_1]
    exact this
  have hle := (List.subperm_of_subset h.nodup hsub).length_le
  rw [List.length_map, List.length_range'] at hle
  have : HEAP_SIZE = 2 ^ 28 := by decide
  omega

theorem size_pos {n : Nat} (hn : n < 2 ^ 31) : 0 < Int32.ofNat n ↔ 0 < n := by
  rw [Int32.lt_iff_toInt_lt, Int32.toInt_ofNat_of_lt hn, Int32.toInt_zero]
  omega

theorem size_zero {n : Nat} (hn : n < 2 ^ 31) : Int32.ofNat n = 0 ↔ n = 0 := by
  rw [← Int32.toInt_inj, Int32.toInt_ofNat_of_lt hn, Int32.toInt_zero]
  omega

theorem Represents.live {base : Addr} {w : World α} {l : List (Addr × Option α)}
    (h : Represents base w l) {a : Addr} (ha : a ∈ l.map Prod.fst) : w.heap a ≠ none := by
  obtain ⟨n, hn, rfl⟩ := List.mem_map.mp ha
  obtain ⟨before, after, rfl⟩ := List.append_of_mem hn
  rw [((segment_append.mp h.chain).2).1]
  simp

/-! ## What the functions do to the nodes -/

section
variable {base : Addr} {w : World α} {l : List (Addr × Option α)}

/-- A block that `mm_alloc` has just served: in the heap, and no node yet. -/
structure Served (base : Addr) (w : World α) (a : Addr) : Prop where
  free : w.heap a = none
  inHeap : base ≤ a ∧ a < base + HEAP_SIZE

theorem Represents.not_mem (h : Represents base w l) {a : Addr} (ha : w.heap a = none) :
    a ∉ l.map Prod.fst := fun hmem => h.live hmem ha

/-- `w'` is `w` but for the list and for nodes among `touched`, none of them released. -/
structure Leaves (w w' : World α) (touched : List Addr) : Prop where
  heap : ∀ a ∉ touched, w'.heap a = w.heap a
  address : w'.address = w.address
  released : w'.released = w.released

/-- The world of a list with one more node, at its end. -/
theorem Represents.snoc {w' : World α} (h : Represents base w l) {a : Addr} {data : Option α}
    (ha : Served base w a) (current : Option Addr)
    (hw : w'.list = some ⟨first l (some a), some a, current, Int32.ofNat (l.length + 1)⟩ ∧
      Segment w'.heap none l (some a) ∧ w'.heap a = some ⟨data, last none l, none⟩) :
    Represents base w' (l ++ [(a, data)]) where
  list := ⟨current, by rw [hw.1]; simp [first_append]⟩
  chain := segment_append.mpr ⟨hw.2.1, hw.2.2, trivial⟩
  nodup := by
    rw [List.map_append, List.nodup_append]
    refine ⟨h.nodup, by simp, fun b hb c hc heq => h.not_mem ha.free ?_⟩
    obtain rfl : c = a := by simpa using hc
    rwa [← heq]
  inHeap b hb := by
    rw [List.map_append, List.mem_append] at hb
    rcases hb with hb | hb
    · exact h.inHeap b hb
    · obtain rfl : b = a := by simpa using hb
      exact ha.inHeap

theorem addNode_spec (h : Represents base w l) {a : Addr} (ha : Served base w a)
    (data : Option α) (junk : Node α) :
    ∃ w', addNode data (some (a, junk)) w = some (some a, w') ∧
      Represents base w' (l ++ [(a, data)]) ∧ Leaves w w' (a :: l.map Prod.fst) := by
  obtain ⟨current, hlist⟩ := h.list
  have hfresh := h.not_mem ha.free
  have hnew : Segment (Function.update w.heap a (some ⟨data, junk.prev, none⟩)) none l none :=
    h.chain.congr fun b hb => Function.update_of_ne (ne_of_mem_of_not_mem hb hfresh) _ _
  rcases l.eq_nil_or_concat' with rfl | ⟨l, t, rfl⟩
  · refine ⟨{ w with
      heap := Function.update w.heap a (some ⟨data, none, none⟩)
      list := some ⟨some a, some a, current, Int32.ofNat 1⟩ }, ?_, ?_, ?_⟩
    · simp only [addNode, hlist, List.length_nil]
      simp [World.set, modifyCell]
    · exact h.snoc ha current ⟨rfl, trivial, by simp⟩
    · exact ⟨fun b hb => Function.update_of_ne (by simpa using hb) _ _, rfl, rfl⟩
  · obtain ⟨heap, hset, hseg, hother⟩ := hnew.set_next h.nodup (some a)
    have hat : a ≠ t.1 := fun heq => hfresh (by simp [heq])
    have hcell : heap a = some ⟨data, junk.prev, none⟩ := by
      rw [hother a hat, Function.update_self]
    refine ⟨{ w with
      heap := Function.update heap a (some ⟨data, some t.1, none⟩)
      list := some ⟨first (l ++ [t]) (some a), some a, current,
        Int32.ofNat ((l ++ [t]).length + 1)⟩ }, ?_, ?_, ?_⟩
    · have hlen : 0 < Int32.ofNat (l ++ [t]).length := (size_pos h.length_lt).mpr (by simp)
      simp only [addNode, hlist, if_pos hlen, last_concat, Option.bind_some, World.set, hset,
        Option.map_some]
      simp [modifyCell, hcell, first_append]
    · refine h.snoc ha current ⟨rfl, hseg.congr fun b hb => ?_, by simp⟩
      exact Function.update_of_ne (ne_of_mem_of_not_mem hb hfresh) _ _
    · refine ⟨fun b hb => ?_, rfl, rfl⟩
      rw [List.mem_cons, not_or] at hb
      have hbt : b ≠ t.1 := fun heq => hb.2 (by simp [heq])
      simp only [Function.update_of_ne hb.1, hother b hbt]

/-- The world of a list with one more node, in front. -/
theorem Represents.cons {w' : World α} (h : Represents base w l) {a : Addr} {data : Option α}
    (ha : a ∉ l.map Prod.fst) (hin : base ≤ a ∧ a < base + HEAP_SIZE) (current : Option Addr)
    (hw : w'.list = some ⟨some a, last (some a) l, current, Int32.ofNat (l.length + 1)⟩ ∧
      Segment w'.heap (some a) l none ∧ w'.heap a = some ⟨data, none, first l none⟩) :
    Represents base w' ((a, data) :: l) where
  list := ⟨current, by rw [hw.1, last_cons]; rfl⟩
  chain := ⟨hw.2.2, hw.2.1⟩
  nodup := List.nodup_cons.mpr ⟨ha, h.nodup⟩
  inHeap b hb := by
    rcases List.mem_cons.mp hb with rfl | hb
    · exact hin
    · exact h.inHeap b hb

/-- Whatever the links of the node were. -/
theorem addNodeInFirst_spec (h : Represents base w l) {a : Addr} {node : Node α}
    (hnode : w.heap a = some node) (ha : a ∉ l.map Prod.fst)
    (hin : base ≤ a ∧ a < base + HEAP_SIZE) :
    ∃ w', addNodeInFirst (some a) w = some (some a, w') ∧
      Represents base w' ((a, node.data) :: l) ∧ Leaves w w' (a :: l.map Prod.fst) := by
  obtain ⟨current, hlist⟩ := h.list
  have hnew : Segment (Function.update w.heap a (some { node with prev := none })) none l none :=
    h.chain.congr fun b hb => Function.update_of_ne (ne_of_mem_of_not_mem hb ha) _ _
  cases l with
  | nil =>
    refine ⟨{ w with
      heap := Function.update w.heap a (some ⟨node.data, none, none⟩)
      list := some ⟨some a, some a, current, Int32.ofNat 1⟩ }, ?_, ?_, ?_⟩
    · simp only [addNodeInFirst, hlist, List.length_nil]
      simp [World.set, modifyCell, hnode]
    · exact h.cons ha hin current ⟨rfl, trivial, by simp⟩
    · exact ⟨fun b hb => Function.update_of_ne (by simpa using hb) _ _, rfl, rfl⟩
  | cons n l =>
    obtain ⟨heap, hset, hseg, hother⟩ := hnew.set_prev h.nodup (some a)
    have han : a ≠ n.1 := fun heq => ha (by simp [heq])
    have hcell : heap a = some { node with prev := none } := by
      rw [hother a han, Function.update_self]
    refine ⟨{ w with
      heap := Function.update heap a (some ⟨node.data, none, some n.1⟩)
      list := some ⟨some a, last none (n :: l), current, Int32.ofNat ((n :: l).length + 1)⟩ },
      ?_, ?_, ?_⟩
    · have hlen : 0 < Int32.ofNat (n :: l).length := (size_pos h.length_lt).mpr (by simp)
      have hfirst : modifyCell w.heap a (fun node => { node with prev := none }) =
          some (Function.update w.heap a (some { node with prev := none })) := by
        simp [modifyCell, hnode]
      simp only [addNodeInFirst, hlist, World.set, hfirst, if_pos hlen, first_cons,
        Option.bind_some, hset, Option.map_some]
      simp [modifyCell, hcell]
    · refine h.cons ha hin current ⟨by rw [last_cons, last_cons],
        hseg.congr fun b hb => ?_, by simp⟩
      exact Function.update_of_ne (ne_of_mem_of_not_mem hb ha) _ _
    · refine ⟨fun b hb => ?_, rfl, rfl⟩
      rw [List.mem_cons, not_or] at hb
      have hbn : b ≠ n.1 := fun heq => hb.2 (by simp [heq])
      simp only [Function.update_of_ne hb.1, hother b hbn]

/-- The three parts of a list, and what is left of it without the node in the middle. -/
theorem Represents.without {w' : World α} {front back : List (Addr × Option α)}
    {n : Addr × Option α} (h : Represents base w (front ++ n :: back)) (current : Option Addr)
    (hw : w'.list = some ⟨first (front ++ back) none, last none (front ++ back), current,
        Int32.ofNat (front ++ n :: back).length - 1⟩ ∧
      Segment w'.heap none front (first back none) ∧
      Segment w'.heap (last none front) back none) :
    Represents base w' (front ++ back) where
  list := ⟨current, by
    rw [hw.1]
    simp [← Nat.add_assoc]⟩
  chain := segment_append.mpr hw.2
  nodup := by
    have hsub : ((front ++ back).map Prod.fst).Sublist ((front ++ n :: back).map Prod.fst) :=
      ((List.Sublist.refl front).append (List.sublist_cons_self n back)).map _
    exact hsub.nodup h.nodup
  inHeap b hb := h.inHeap b (by
    rw [List.map_append, List.map_cons]
    rw [List.map_append] at hb
    grind)

theorem linkBefore_spec {front : List (Addr × Option α)} {node : Node α} {list : CDT}
    {after : Option Addr} (hseg : Segment w.heap none front after)
    (hnodup : (front.map Prod.fst).Nodup) (hprev : node.prev = last none front)
    (hhead : list.head = first front after) :
    ∃ heap, linkBefore node list w =
        some ({ w with heap := heap }, { list with head := first front node.next }) ∧
      Segment heap none front node.next ∧ ∀ a ∉ front.map Prod.fst, heap a = w.heap a := by
  rcases front.eq_nil_or_concat' with rfl | ⟨front, t, rfl⟩
  · exact ⟨w.heap, by simp [linkBefore, hprev], trivial, fun _ _ => rfl⟩
  · obtain ⟨heap, hset, hseg', hother⟩ := hseg.set_next hnodup node.next
    refine ⟨heap, ?_, hseg', fun a ha => hother a fun heq => ha (by simp [heq])⟩
    rw [last_concat] at hprev
    simp only [linkBefore, hprev, World.set, hset, Option.map_some]
    rw [first_append] at hhead ⊢
    rw [first_cons] at hhead ⊢
    rw [← hhead]

theorem linkBehind_spec {back : List (Addr × Option α)} {node : Node α} (w : World α)
    {before : Option Addr} (hseg : Segment w.heap before back none)
    (hnodup : (back.map Prod.fst).Nodup) (hnext : node.next = first back none) (list : CDT)
    (htail : list.tail = last before back) :
    ∃ heap, linkBehind node list w =
        some ({ w with heap := heap }, { list with tail := last node.prev back }) ∧
      Segment heap node.prev back none ∧ ∀ a ∉ back.map Prod.fst, heap a = w.heap a := by
  cases back with
  | nil => exact ⟨w.heap, by simp [linkBehind, hnext], trivial, fun _ _ => rfl⟩
  | cons n back =>
    obtain ⟨heap, hset, hseg', hother⟩ := hseg.set_prev hnodup node.prev
    refine ⟨heap, ?_, hseg', fun a ha => hother a fun heq => ha (by simp [heq])⟩
    rw [first_cons] at hnext
    simp only [linkBehind, hnext, World.set, hset, Option.map_some]
    rw [last_cons] at htail ⊢
    rw [← htail]

/-- A node in the middle of the list, at one of its ends or alone. -/
theorem unlink_spec {front back : List (Addr × Option α)} {n : Addr × Option α}
    (h : Represents base w (front ++ n :: back)) {list : CDT} (hlist : w.list = some list) :
    ∃ w', unlink n.1 list w = some (n.2, w') ∧ Represents base w' (front ++ back) ∧
      w'.released = w.released ++ [n.1] ∧ w'.address = w.address ∧ w'.heap n.1 = none ∧
      ∀ a ∉ (front ++ n :: back).map Prod.fst, w'.heap a = w.heap a := by
  obtain ⟨current, hfields⟩ := h.list
  obtain rfl := Option.some.inj (hlist.symm.trans hfields)
  obtain ⟨hfront, hn, hback⟩ := segment_append.mp h.chain
  have hnodup := h.nodup
  rw [List.map_append, List.map_cons, List.nodup_append, List.nodup_cons] at hnodup
  obtain ⟨hnodupFront, ⟨hnBack, hnodupBack⟩, hdisjoint⟩ := hnodup
  have hnFront : n.1 ∉ front.map Prod.fst := fun hmem =>
    hdisjoint n.1 hmem n.1 List.mem_cons_self rfl
  have hbackFront : ∀ a ∈ back.map Prod.fst, a ∉ front.map Prod.fst := fun a ha hmem =>
    hdisjoint a hmem a (List.mem_cons_of_mem _ ha) rfl
  generalize hlist₀ : CDT.mk (first (front ++ n :: back) none) (last none (front ++ n :: back))
    current (Int32.ofNat (front ++ n :: back).length) = list
  generalize hnode : Cell.mk n.2 (last none front) (first back none) = node at hn
  -- the link from the front
  have hhead : list.head = first front (some n.1) := by
    rw [← hlist₀]
    exact first_append front (n :: back) none
  have hprev : node.prev = last none front := by rw [← hnode]
  obtain ⟨heap₁, hbefore, hfront₁, hother₁⟩ := linkBefore_spec hfront hnodupFront hprev hhead
  have hn₁ : heap₁ n.1 = some node := (hother₁ n.1 hnFront).trans hn
  have hback₁ : Segment heap₁ (some n.1) back none :=
    hback.congr fun a ha => hother₁ a (hbackFront a ha)
  -- the link from the back
  have hnext : node.next = first back none := by rw [← hnode]
  have htail : list.tail = last (some n.1) back := by
    rw [← hlist₀]
    simp only [last_append, last_cons]
  obtain ⟨heap₂, hbehind, hback₂, hother₂⟩ := linkBehind_spec { w with heap := heap₁ } hback₁
    hnodupBack hnext { list with head := first front node.next } htail
  have hn₂ : heap₂ n.1 = some node := (hother₂ n.1 hnBack).trans hn₁
  have hfront₂ : Segment heap₂ none front node.next :=
    hfront₁.congr fun a ha => hother₂ a fun hmem => hbackFront a hmem ha
  subst hnode
  have hrelease {a : Addr} (ha : a ≠ n.1) : Function.update heap₂ n.1 none a = heap₂ a :=
    Function.update_of_ne ha _ _
  refine ⟨{ w with
    heap := Function.update heap₂ n.1 none
    released := w.released ++ [n.1]
    list := some ⟨first front (first back none), last (last none front) back, current,
      Int32.ofNat (front ++ n :: back).length - 1⟩ }, ?_, h.without current ⟨?_, ?_, ?_⟩, rfl, rfl,
    Function.update_self _ _ _, fun a ha => ?_⟩
  · simp only [unlink, hn, Option.bind_some, hbefore, hn₁, hbehind, hn₂, World.release,
      Option.map_some]
    rw [← hlist₀]
  · simp only [first_append, last_append]
  · exact hfront₂.congr fun a ha => hrelease (ne_of_mem_of_not_mem ha hnFront)
  · exact hback₂.congr fun a ha => hrelease (ne_of_mem_of_not_mem ha hnBack)
  · rw [List.map_append, List.map_cons, List.mem_append, List.mem_cons, not_or, not_or] at ha
    exact (hrelease ha.2.1).trans ((hother₂ a ha.2.2).trans (hother₁ a ha.1))

section
variable [DecidableEq α]

/-- The search passes over nodes with other data. -/
theorem searchFrom_skip {front back : List (Addr × Option α)} {before : Option Addr}
    {data : Option α} (hchain : Segment w.heap before (front ++ back) none)
    (hne : ∀ n ∈ front, n.2 ≠ data) (list : CDT) (fuel : Nat) :
    searchFrom data list (front.length + fuel) (first (front ++ back) none) w =
      searchFrom data list fuel (first back none) w := by
  induction front generalizing before with
  | nil => rw [List.length_nil, Nat.zero_add, List.nil_append]
  | cons n front ih =>
    rw [List.cons_append] at hchain ⊢
    rw [List.length_cons, Nat.add_right_comm, first_cons, searchFrom, hchain.1]
    simp only [Option.bind_some, if_neg (hne n List.mem_cons_self)]
    exact ih hchain.2 fun n hn => hne n (List.mem_cons_of_mem _ hn)

theorem removeNode_absent (h : Represents base w l) {fuel : Nat} (hfuel : l.length < fuel)
    {data : Option α} (hdata : data ∉ l.map Prod.snd) :
    removeNode fuel data w = some (none, w) := by
  obtain ⟨current, hlist⟩ := h.list
  obtain ⟨k, rfl⟩ := Nat.exists_eq_add_of_lt hfuel
  have hchain : Segment w.heap none (l ++ []) none := by
    rw [List.append_nil]
    exact h.chain
  have hskip := searchFrom_skip hchain fun n hn heq => hdata (List.mem_map.mpr ⟨n, hn, heq⟩)
  rw [List.append_nil] at hskip
  simp only [removeNode, hlist, Nat.add_assoc, hskip]
  simp [searchFrom]

/-- The first node with the data goes, and its block with it. -/
theorem removeNode_found {front back : List (Addr × Option α)} {n : Addr × Option α}
    (h : Represents base w (front ++ n :: back)) {fuel : Nat}
    (hfuel : (front ++ n :: back).length < fuel) (hdata : n.2 ≠ none)
    (hfirst : ∀ n' ∈ front, n'.2 ≠ n.2) :
    ∃ w', removeNode fuel n.2 w = some (n.2, w') ∧ Represents base w' (front ++ back) ∧
      w'.released = w.released ++ [n.1] ∧ w'.address = w.address := by
  obtain ⟨current, hlist⟩ := h.list
  obtain ⟨w', hunlink, hrep, hreleased, haddress, -⟩ := unlink_spec h hlist
  refine ⟨w', ?_, hrep, hreleased, haddress⟩
  rw [List.length_append, List.length_cons] at hfuel
  obtain ⟨k, rfl⟩ : ∃ k, fuel = front.length + (k + 1) := ⟨fuel - front.length - 1, by omega⟩
  have hn := ((segment_append.mp h.chain).2).1
  simp only [removeNode, hlist, if_neg hdata, searchFrom_skip h.chain hfirst, first_cons,
    searchFrom, hn, Option.bind_some, if_true, hunlink]

theorem getFirstData_empty (h : Represents base w []) (fuel : Nat) :
    getFirstData fuel w = some (none, w) := by
  obtain ⟨current, hlist⟩ := h.list
  simp [getFirstData, hlist]

theorem getFirstData_found {n : Addr × Option α} (h : Represents base w (n :: l)) {fuel : Nat}
    (hfuel : (n :: l).length < fuel) (hdata : n.2 ≠ none) :
    ∃ w', getFirstData fuel w = some (n.2, w') ∧ Represents base w' l ∧
      w'.released = w.released ++ [n.1] ∧ w'.address = w.address := by
  obtain ⟨current, hlist⟩ := h.list
  have hrep : Represents base w ([] ++ n :: l) := h
  obtain ⟨w', hremove, hspec⟩ := removeNode_found hrep hfuel hdata (by simp)
  refine ⟨w', ?_, hspec⟩
  have hsize : Int32.ofNat (n :: l).length ≠ 0 := fun h0 => by
    have := (size_zero h.length_lt).mp h0
    simp at this
  simp only [getFirstData, hlist, if_neg hsize, first_cons, Option.bind_some, h.chain.1, hremove]

end

theorem getSize_spec (h : Represents base w l) : getSize w = Int32.ofNat l.length := by
  obtain ⟨current, hlist⟩ := h.list
  rw [getSize, hlist]

theorem isEmpty_spec (h : Represents base w l) : isEmpty w = if l = [] then 1 else 0 := by
  obtain ⟨current, hlist⟩ := h.list
  simp [isEmpty, hlist, size_zero h.length_lt]

/-- Each node is released, from the head on, while its link is still there to be read. -/
theorem releaseFrom_spec {before : Option Addr} (h : Segment w.heap before l none)
    (hnodup : (l.map Prod.fst).Nodup) {fuel : Nat} (hfuel : l.length < fuel) :
    ∃ w', releaseFrom fuel (first l none) w = some w' ∧
      w'.released = w.released ++ l.map Prod.fst ∧ w'.address = w.address ∧
      ∀ a, w'.heap a = if a ∈ l.map Prod.fst then none else w.heap a := by
  induction l generalizing w before fuel with
  | nil =>
    obtain ⟨fuel, rfl⟩ := Nat.exists_eq_succ_of_ne_zero (Nat.ne_of_gt hfuel)
    exact ⟨w, rfl, by simp, rfl, by simp⟩
  | cons n l ih =>
    obtain ⟨fuel, rfl⟩ := Nat.exists_eq_succ_of_ne_zero (Nat.ne_of_gt (Nat.zero_lt_of_lt hfuel))
    rw [List.map_cons, List.nodup_cons] at hnodup
    have hrest : Segment (Function.update w.heap n.1 none) (some n.1) l none :=
      h.2.congr fun a ha => Function.update_of_ne (ne_of_mem_of_not_mem ha hnodup.1) _ _
    obtain ⟨w', hrun, hreleased, haddress, hheap⟩ := ih
      (w := { w with heap := Function.update w.heap n.1 none, released := w.released ++ [n.1] })
      hrest hnodup.2 (Nat.lt_of_succ_lt_succ hfuel)
    refine ⟨w', ?_, by simp [hreleased], haddress, fun a => ?_⟩
    · simp only [first_cons, releaseFrom, h.1, Option.bind_some, World.release, Option.map_some,
        hrun]
    · rw [hheap, List.map_cons]
      by_cases han : a = n.1
      · subst han
        simp [hnodup.1]
      · have hmem : a ∈ n.1 :: l.map Prod.fst ↔ a ∈ l.map Prod.fst := by
          rw [List.mem_cons, or_iff_right han]
        simp only [hmem, Function.update_of_ne han]

theorem freeLinkedListADT_spec (h : Represents base w l) {fuel : Nat} (hfuel : l.length < fuel) :
    ∃ w', freeLinkedListADT fuel w = some w' ∧ w'.list = none ∧
      w'.released = w.released ++ l.map Prod.fst ++ [w.address] ∧
      ∀ a ∈ l.map Prod.fst, w'.heap a = none := by
  obtain ⟨current, hlist⟩ := h.list
  obtain ⟨w', hrun, hreleased, haddress, hheap⟩ := releaseFrom_spec h.chain h.nodup hfuel
  refine ⟨{ w' with list := none, released := w'.released ++ [w'.address] }, ?_, rfl, ?_,
    fun a ha => by rw [hheap, if_pos ha]⟩
  · simp only [freeLinkedListADT, hlist, Option.bind_some, hrun, Option.map_some]
  · rw [hreleased, haddress]

end

end bare_bones.linkedNodes
