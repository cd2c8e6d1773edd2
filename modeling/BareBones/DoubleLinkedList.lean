-- `doubleLinkedList.c` as a sequence of nodes, head first. Each node is a
-- block of the heap, so adding a node may fail and removing one frees it.
import BareBones.MemoryManagement

namespace bare_bones.doubleLinkedList

variable {H : Type} [MemoryManager H] {α : Type}

/-- `sizeof(Node)`: data, prev and next. -/
def NODE_SIZE : Nat := 24

/-- `sizeof(doubleLinkedListCDT)`: head, tail, current and size. -/
def LIST_SIZE : Nat := 32

/-- A list: its header block, and its nodes with the block and the data of
each. -/
structure DoubleLinkedList (α : Type) where
  header : Addr
  nodes : List (Addr × α)
deriving DecidableEq

namespace DoubleLinkedList

/-- The data of the nodes, head first. -/
def data (list : DoubleLinkedList α) : List α := list.nodes.map Prod.snd

end DoubleLinkedList

def createDoubleLinkedListADT (h : H) : Option (DoubleLinkedList α) × H :=
  match mm_alloc LIST_SIZE h with
  | (none, h) => (none, h)
  | (some a, h) => (some ⟨a, []⟩, h)

/-- Appends a node. Gives the block of the node, or `NULL` and the list as it
was. -/
def addNode (list : DoubleLinkedList α) (data : α) (h : H) :
    Option Addr × DoubleLinkedList α × H :=
  match mm_alloc NODE_SIZE h with
  | (none, h) => (none, list, h)
  | (some newNode, h) => (some newNode, { list with nodes := list.nodes ++ [(newNode, data)] }, h)

/-- Removes the first node that holds `data` and frees it, or gives `NULL`. -/
def removeNode [DecidableEq α] (list : DoubleLinkedList α) (data : α) (h : H) :
    Option α × DoubleLinkedList α × H :=
  match list.nodes.find? (fun n => n.2 = data) with
  | none => (none, list, h)
  | some current =>
    (some data, { list with nodes := list.nodes.eraseP (fun n => n.2 = data) },
      mm_free current.1 h)

def getFirstData [DecidableEq α] (list : DoubleLinkedList α) (h : H) :
    Option α × DoubleLinkedList α × H :=
  match list.nodes with
  | [] => (none, list, h)
  | head :: _ => removeNode list head.2 h

/-- Frees every node, head first, and then the header. -/
def freeLinkedListADT (list : DoubleLinkedList α) (h : H) : H :=
  mm_free list.header (freeAll (list.nodes.map Prod.fst) h)

def isEmpty (list : DoubleLinkedList α) : Bool := list.nodes.isEmpty

/-! ## The data of a list -/

theorem data_eraseP [DecidableEq α] (nodes : List (Addr × α)) (x : α) :
    (nodes.eraseP (fun n => n.2 = x)).map Prod.snd = (nodes.map Prod.snd).erase x := by
  induction nodes with
  | nil => rfl
  | cons n nodes ih =>
    by_cases h : n.2 = x
    · simp [h]
    · have hne : (n.2 == x) = false := by simpa using h
      rw [List.eraseP_cons_of_neg (by simpa using h), List.map_cons, List.map_cons, ih,
        List.erase_cons_tail (by simp [hne])]

theorem find?_data_none [DecidableEq α] {nodes : List (Addr × α)} {x : α} :
    nodes.find? (fun n => n.2 = x) = none ↔ x ∉ nodes.map Prod.snd := by
  rw [List.find?_eq_none]
  constructor
  · rintro hall hmem
    obtain ⟨n, hn, rfl⟩ := List.mem_map.mp hmem
    exact hall n hn (by simp)
  · intro hx n hn heq
    exact hx (List.mem_map.mpr ⟨n, hn, by simpa using heq⟩)

theorem createDoubleLinkedListADT_data {h h' : H} {list : DoubleLinkedList α}
    (hc : createDoubleLinkedListADT h = (some list, h')) : list.data = [] := by
  unfold createDoubleLinkedListADT at hc
  split at hc
  · cases hc
  · cases hc; rfl

/-- With a node to spare, `addNode` appends. -/
theorem addNode_spec (hs : Serves H NODE_SIZE) (list : DoubleLinkedList α) (x : α) (h : H) :
    ∃ a l' h', addNode list x h = (some a, l', h') ∧ l'.data = list.data ++ [x] := by
  obtain ⟨a, h', ha⟩ := hs h
  refine ⟨a, { list with nodes := list.nodes ++ [(a, x)] }, h', ?_, ?_⟩
  · simp only [addNode, ha]
  · simp [DoubleLinkedList.data]

/-- Whatever the heap answers, `addNode` appends or leaves the data alone. -/
theorem addNode_data (list : DoubleLinkedList α) (x : α) (h : H) :
    (addNode list x h).2.1.data = list.data ++ [x] ∧ (addNode list x h).1.isSome ∨
      (addNode list x h).2.1 = list ∧ (addNode list x h).1 = none := by
  unfold addNode
  split
  · exact Or.inr ⟨rfl, rfl⟩
  · exact Or.inl ⟨by simp [DoubleLinkedList.data], rfl⟩

theorem addNode_some {list l' : DoubleLinkedList α} {x : α} {h h' : H} {a : Addr}
    (ha : addNode list x h = (some a, l', h')) : l'.data = list.data ++ [x] := by
  rcases addNode_data list x h with ⟨hd, -⟩ | ⟨-, hn⟩
  · rwa [ha] at hd
  · rw [ha] at hn
    cases hn

theorem addNode_none {list l' : DoubleLinkedList α} {x : α} {h h' : H}
    (ha : addNode list x h = (none, l', h')) : l' = list := by
  rcases addNode_data list x h with ⟨-, hs⟩ | ⟨hd, -⟩
  · rw [ha] at hs
    cases hs
  · rwa [ha] at hd

theorem removeNode_of_mem [DecidableEq α] {list : DoubleLinkedList α} {x : α} (h : H)
    (hx : x ∈ list.data) :
    ∃ l' h', removeNode list x h = (some x, l', h') ∧ l'.data = list.data.erase x := by
  unfold removeNode
  split
  · rename_i hnone
    exact absurd hx (find?_data_none.mp hnone)
  · exact ⟨_, _, rfl, data_eraseP list.nodes x⟩

theorem removeNode_of_not_mem [DecidableEq α] {list : DoubleLinkedList α} {x : α} (h : H)
    (hx : x ∉ list.data) : removeNode list x h = (none, list, h) := by
  unfold removeNode
  rw [find?_data_none.mpr hx]

theorem removeNode_some [DecidableEq α] {list l' : DoubleLinkedList α} {x y : α} {h h' : H}
    (hr : removeNode list x h = (some y, l', h')) :
    x ∈ list.data ∧ l'.data = list.data.erase x := by
  by_cases hx : x ∈ list.data
  · obtain ⟨l, h₁, hr', hd⟩ := removeNode_of_mem h hx
    rw [hr] at hr'
    cases hr'
    exact ⟨hx, hd⟩
  · rw [removeNode_of_not_mem h hx] at hr
    cases hr

theorem getFirstData_nil [DecidableEq α] {list : DoubleLinkedList α} (h : H)
    (hd : list.data = []) : getFirstData list h = (none, list, h) := by
  have hn : list.nodes = [] := by simpa [DoubleLinkedList.data] using hd
  unfold getFirstData
  rw [hn]

theorem getFirstData_cons [DecidableEq α] {list : DoubleLinkedList α} {x : α} {xs : List α}
    (h : H) (hd : list.data = x :: xs) :
    ∃ l' h', getFirstData list h = (some x, l', h') ∧ l'.data = xs := by
  unfold getFirstData
  match hn : list.nodes with
  | [] => simp [DoubleLinkedList.data, hn] at hd
  | head :: rest =>
    simp only [DoubleLinkedList.data, hn, List.map_cons, List.cons.injEq] at hd
    obtain ⟨hhead, hrest⟩ := hd
    have hmem : x ∈ list.data := by simp [DoubleLinkedList.data, hn, hhead]
    obtain ⟨l', h', hr, hdata⟩ := removeNode_of_mem h hmem
    refine ⟨l', h', by simp only [hhead, hr], ?_⟩
    rw [hdata]
    simp [DoubleLinkedList.data, hn, hhead, hrest]

theorem getFirstData_some [DecidableEq α] {list l' : DoubleLinkedList α} {x : α} {h h' : H}
    (hf : getFirstData list h = (some x, l', h')) : list.data = x :: l'.data := by
  cases hd : list.data with
  | nil =>
    rw [getFirstData_nil h hd] at hf
    cases hf
  | cons y ys =>
    obtain ⟨l, h₁, hc, hl⟩ := getFirstData_cons h hd
    rw [hf] at hc
    cases hc
    rw [hl]

theorem getFirstData_none [DecidableEq α] {list l' : DoubleLinkedList α} {h h' : H}
    (hf : getFirstData list h = (none, l', h')) : list.data = [] ∧ l' = list ∧ h' = h := by
  cases hd : list.data with
  | nil =>
    rw [getFirstData_nil h hd] at hf
    cases hf
    exact ⟨rfl, rfl, rfl⟩
  | cons y ys =>
    obtain ⟨l, h₁, hc, hl⟩ := getFirstData_cons h hd
    rw [hf] at hc
    cases hc

end bare_bones.doubleLinkedList
