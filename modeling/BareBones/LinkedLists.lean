-- Sequences of calls on a linked list, against the sequence of its data, and what its
-- nodes look like in between.
import BareBones.LinkedNodes

namespace bare_bones.linkedNodes

open double_chain

variable {α : Type}

/-! ## Sequences of calls -/

/-- A call with data that is not `NULL`. `served` is the answer of `mm_alloc`, and the
node that is put in front has links of before. -/
inductive Op (α : Type)
  | addNode (data : α) (served : Option (Addr × Node α))
  | addNodeInFirst (node : Addr) (data : α) (prev next : Option Addr)
  | removeNode (data : α)
  | getFirstData
  | getSize
  | isEmpty

/-- What a call gives back: a node, data or an integer. -/
inductive Answer (α : Type)
  | node (a : Option Addr)
  | data (x : Option α)
  | int (n : Int32)
  deriving DecidableEq

/-- The nodes that a call takes from the heap. -/
def Op.takes : Op α → List Addr
  | .addNode _ (some (a, _)) => [a]
  | .addNodeInFirst a _ _ _ => [a]
  | _ => []

def step [DecidableEq α] (fuel : Nat) (op : Op α) (w : World α) : Option (Answer α × World α) :=
  match op with
  | .addNode x served => (addNode (some x) served w).map fun r => (.node r.1, r.2)
  | .addNodeInFirst a x prev next =>
    (addNodeInFirst (some a)
      { w with heap := Function.update w.heap a (some ⟨some x, prev, next⟩) }).map
        fun r => (.node r.1, r.2)
  | .removeNode x => (removeNode fuel (some x) w).map fun r => (.data r.1, r.2)
  | .getFirstData => (getFirstData fuel w).map fun r => (.data r.1, r.2)
  | .getSize => some (.int (linkedNodes.getSize w), w)
  | .isEmpty => some (.int (linkedNodes.isEmpty w), w)

def run [DecidableEq α] (fuel : Nat) : List (Op α) → World α → Option (List (Answer α) × World α)
  | [], w => some ([], w)
  | op :: ops, w =>
    (step fuel op w).bind fun r => (run fuel ops r.2).map fun r' => (r.1 :: r'.1, r'.2)

/-- The calls on a sequence of data, as what they are for. -/
def pureStep [DecidableEq α] (op : Op α) (xs : List α) : Answer α × List α :=
  match op with
  | .addNode x served =>
    (.node (served.map Prod.fst), if served.isSome then xs ++ [x] else xs)
  | .addNodeInFirst a x _ _ => (.node (some a), x :: xs)
  | .removeNode x => (.data (if x ∈ xs then some x else none), xs.erase x)
  | .getFirstData => (.data xs.head?, xs.tail)
  | .getSize => (.int (Int32.ofNat xs.length), xs)
  | .isEmpty => (.int (if xs = [] then 1 else 0), xs)

def pureRun [DecidableEq α] : List (Op α) → List α → List (Answer α) × List α
  | [], xs => ([], xs)
  | op :: ops, xs =>
    ((pureStep op xs).1 :: (pureRun ops (pureStep op xs).2).1, (pureRun ops (pureStep op xs).2).2)

/-- The blocks that the manager serves are free ones of the heap. -/
def Fresh (base : Addr) (op : Op α) (w : World α) : Prop := ∀ a ∈ op.takes, Served base w a

def FreshRun [DecidableEq α] (base fuel : Nat) : List (Op α) → World α → Prop
  | [], _ => True
  | op :: ops, w => Fresh base op w ∧ ∀ r ∈ step fuel op w, FreshRun base fuel ops r.2

/-- The nodes of a list with the data `xs`. -/
structure Holds (base : Addr) (w : World α) (l : List (Addr × Option α)) (xs : List α) : Prop where
  represents : Represents base w l
  data : l.map Prod.snd = xs.map some

section
variable {base : Addr} {w : World α} {l : List (Addr × Option α)} {xs : List α}

/-- A world with another node put in the heap, that is none of the list. -/
theorem Represents.placed (h : Represents base w l) {a : Addr} (ha : Served base w a)
    (node : Node α) :
    Represents base { w with heap := Function.update w.heap a (some node) } l where
  list := h.list
  chain := h.chain.congr fun _ hb =>
    Function.update_of_ne (ne_of_mem_of_not_mem hb (h.not_mem ha.free)) _ _
  nodup := h.nodup
  inHeap := h.inHeap

/-- Nodes whose data is not `NULL`. -/
def marked (nodes : List (Addr × α)) : List (Addr × Option α) := nodes.map fun n => (n.1, some n.2)

@[simp] theorem addresses_marked (nodes : List (Addr × α)) :
    (marked nodes).map Prod.fst = nodes.map Prod.fst := by simp [marked]

@[simp] theorem data_marked (nodes : List (Addr × α)) :
    (marked nodes).map Prod.snd = (nodes.map Prod.snd).map some := by simp [marked]

@[simp] theorem length_marked (nodes : List (Addr × α)) : (marked nodes).length = nodes.length :=
  List.length_map _

theorem marked_injective {nodes nodes' : List (Addr × α)} (h : marked nodes = marked nodes') :
    nodes = nodes' :=
  List.map_injective_iff.mpr (fun n n' hn => by simpa [Prod.ext_iff] using hn) h

theorem Holds.nodes (h : Holds base w l xs) :
    ∃ nodes : List (Addr × α), l = marked nodes ∧ xs = nodes.map Prod.snd := by
  have hdata := h.data
  clear h
  induction l generalizing xs with
  | nil => exact ⟨[], rfl, by simpa using hdata.symm⟩
  | cons n l ih =>
    obtain ⟨x, xs, rfl⟩ : ∃ x xs', xs = x :: xs' := List.exists_cons_of_ne_nil fun h0 => by
      simp [h0] at hdata
    obtain ⟨hn, hl⟩ : n.2 = some x ∧ l.map Prod.snd = xs.map some := by simpa using hdata
    obtain ⟨nodes, rfl, rfl⟩ := ih hl
    exact ⟨(n.1, x) :: nodes, by simp [marked, ← hn], rfl⟩

end

/-! ## One call -/

section
variable [DecidableEq α]

/-- What a call gives back, and the nodes behind it. -/
def edit (op : Op α) (nodes : List (Addr × α)) : Answer α × List (Addr × α) :=
  match op with
  | .addNode x served =>
    (.node (served.map Prod.fst), nodes ++ (served.map fun block => (block.1, x)).toList)
  | .addNodeInFirst a x _ _ => (.node (some a), (a, x) :: nodes)
  | .removeNode x =>
    (.data ((nodes.find? fun n => n.2 = x).map Prod.snd), nodes.eraseP fun n => n.2 = x)
  | .getFirstData => (.data (nodes.head?.map Prod.snd), nodes.tail)
  | .getSize => (.int (Int32.ofNat nodes.length), nodes)
  | .isEmpty => (.int (if nodes.isEmpty then 1 else 0), nodes)

/-- The nodes that a call releases. -/
def Op.frees (op : Op α) (nodes : List (Addr × α)) : List Addr :=
  match op with
  | .removeNode x => ((nodes.find? fun n => n.2 = x).map Prod.fst).toList
  | .getFirstData => (nodes.head?.map Prod.fst).toList
  | _ => []

/-- What a call does in memory. -/
structure StepsTo (base fuel : Nat) (op : Op α) (w w' : World α) (nodes : List (Addr × α)) :
    Prop where
  runs : step fuel op w = some ((edit op nodes).1, w')
  represents : Represents base w' (marked (edit op nodes).2)
  address : w'.address = w.address
  released : w'.released = w.released ++ op.frees nodes

/-- The first node with some data. -/
theorem first_with {nodes : List (Addr × α)} {x : α} {n : Addr × α}
    (hfind : (nodes.find? fun n => n.2 = x) = some n) :
    n.2 = x ∧ ∃ front back, nodes = front ++ n :: back ∧ (∀ n' ∈ front, n'.2 ≠ x) ∧
      nodes.eraseP (fun n => n.2 = x) = front ++ back := by
  obtain ⟨hn, front, back, rfl, hfront⟩ := List.find?_eq_some_iff_append.mp hfind
  have hx : n.2 = x := by simpa using hn
  have hfirst : ∀ n' ∈ front, n'.2 ≠ x := fun n' hn' => by simpa using hfront n' hn'
  refine ⟨hx, front, back, rfl, hfirst, ?_⟩
  rw [List.eraseP_append_right _ (by simpa using hfirst)]
  simp [hx]

theorem erase_absent {nodes : List (Addr × α)} {x : α}
    (hfind : (nodes.find? fun n => n.2 = x) = none) :
    nodes.eraseP (fun n => n.2 = x) = nodes :=
  List.eraseP_of_forall_not fun n hn => by simpa using List.find?_eq_none.mp hfind n hn

section Steps
variable {base fuel : Nat} {w : World α} {nodes : List (Addr × α)}

theorem steps_addNode (h : Represents base w (marked nodes)) (x : α)
    {served : Option (Addr × Node α)} (hfresh : Fresh base (.addNode x served) w) :
    ∃ w', StepsTo base fuel (.addNode x served) w w' nodes := by
  cases served with
  | none =>
    refine ⟨w, ?_, ?_, rfl, by simp [Op.frees]⟩
    · simp [step, addNode, edit]
    · simpa [edit] using h
  | some block =>
    obtain ⟨w', hrun, hrep, hleaves⟩ :=
      addNode_spec h (hfresh block.1 List.mem_cons_self) (some x) block.2
    refine ⟨w', ?_, ?_, hleaves.address, by simp [Op.frees, hleaves.released]⟩
    · simp [step, hrun, edit]
    · simpa [edit, marked] using hrep

theorem steps_addNodeInFirst (h : Represents base w (marked nodes)) {a : Addr} (x : α)
    (prev next : Option Addr) (hfresh : Fresh base (.addNodeInFirst a x prev next) w) :
    ∃ w', StepsTo base fuel (.addNodeInFirst a x prev next) w w' nodes := by
  have ha := hfresh a List.mem_cons_self
  obtain ⟨w', hrun, hrep, hleaves⟩ := addNodeInFirst_spec
    (h.placed ha ⟨some x, prev, next⟩) (Function.update_self _ _ _)
    (h.not_mem ha.free) ha.inHeap
  refine ⟨w', ?_, hrep, hleaves.address, by simp [Op.frees, hleaves.released]⟩
  simp [step, hrun, edit]

theorem steps_removeNode (h : Represents base w (marked nodes)) (x : α)
    (hfuel : nodes.length < fuel) : ∃ w', StepsTo base fuel (.removeNode x) w w' nodes := by
  cases hfind : nodes.find? fun n => n.2 = x with
  | none =>
    have habsent := doubleLinkedList.find?_data_none.mp hfind
    have hrun : removeNode fuel (some x) w = some (none, w) :=
      removeNode_absent h (by simpa using hfuel) (by simpa using habsent)
    refine ⟨w, ?_, ?_, rfl, by simp [Op.frees, hfind]⟩
    · simp [step, hrun, edit, hfind]
    · simpa only [edit, erase_absent hfind] using h
  | some n =>
    obtain ⟨rfl, front, back, rfl, hfirst, herase⟩ := first_with hfind
    rw [marked, List.map_append, List.map_cons] at h
    have hother : ∀ n' ∈ front.map (fun n => (n.1, some n.2)), n'.2 ≠ some n.2 :=
      List.forall_mem_map.mpr fun n' hn' => by simpa using hfirst n' hn'
    obtain ⟨w', hrun, hrep, hreleased, haddress⟩ :=
      removeNode_found h (by simpa using hfuel) (by simp) hother
    refine ⟨w', ?_, ?_, haddress, by simp [Op.frees, hfind, hreleased]⟩
    · simp [step, hrun, edit, hfind]
    · simpa only [edit, herase, marked, List.map_append] using hrep

theorem steps_getFirstData (h : Represents base w (marked nodes)) (hfuel : nodes.length < fuel) :
    ∃ w', StepsTo base fuel .getFirstData w w' nodes := by
  cases nodes with
  | nil =>
    refine ⟨w, ?_, h, rfl, by simp [Op.frees]⟩
    simp [step, getFirstData_empty h, edit]
  | cons n nodes =>
    obtain ⟨w', hrun, hrep, hreleased, haddress⟩ :=
      getFirstData_found (n := (n.1, some n.2)) h (by simpa using hfuel) (by simp)
    refine ⟨w', ?_, hrep, haddress, by simp [Op.frees, hreleased]⟩
    simp [step, hrun, edit]

/-- Each call does in memory what it does to the nodes. -/
theorem steps_edit (h : Represents base w (marked nodes)) {op : Op α} (hfresh : Fresh base op w)
    (hfuel : nodes.length < fuel) : ∃ w', StepsTo base fuel op w w' nodes := by
  cases op with
  | addNode x served => exact steps_addNode h x hfresh
  | addNodeInFirst a x prev next => exact steps_addNodeInFirst h x prev next hfresh
  | removeNode x => exact steps_removeNode h x hfuel
  | getFirstData => exact steps_getFirstData h hfuel
  | getSize =>
    refine ⟨w, ?_, h, rfl, by simp [Op.frees]⟩
    simp [step, getSize_spec h, edit]
  | isEmpty =>
    refine ⟨w, ?_, h, rfl, by simp [Op.frees]⟩
    simp [step, isEmpty_spec h, edit, marked]

end Steps

/-- To the data it does what it is for. -/
theorem pureStep_edit (op : Op α) (nodes : List (Addr × α)) :
    pureStep op (nodes.map Prod.snd) = ((edit op nodes).1, (edit op nodes).2.map Prod.snd) := by
  cases op with
  | addNode x served => cases served <;> simp [pureStep, edit]
  | addNodeInFirst a x prev next => rfl
  | removeNode x =>
    simp only [pureStep, edit, doubleLinkedList.data_eraseP]
    cases hfind : nodes.find? fun n => n.2 = x with
    | none => rw [if_neg (doubleLinkedList.find?_data_none.mp hfind)]; rfl
    | some n =>
      obtain ⟨rfl, front, back, rfl, -⟩ := first_with hfind
      simp
  | getFirstData => cases nodes <;> rfl
  | getSize => simp [pureStep, edit]
  | isEmpty => cases nodes <;> rfl

/-- No node is lost, and none comes twice. -/
theorem perm_edit (op : Op α) (nodes : List (Addr × α)) :
    (op.frees nodes ++ (edit op nodes).2.map Prod.fst).Perm (op.takes ++ nodes.map Prod.fst) := by
  cases op with
  | addNode x served =>
    cases served with
    | none => simp [edit, Op.frees, Op.takes]
    | some block => simp [edit, Op.frees, Op.takes]
  | removeNode x =>
    cases hfind : nodes.find? fun n => n.2 = x with
    | none =>
      simp [edit, Op.frees, Op.takes, hfind, erase_absent hfind]
    | some n =>
      obtain ⟨-, front, back, rfl, -, herase⟩ := first_with hfind
      simpa [edit, Op.frees, Op.takes, hfind, herase] using
        (@List.perm_middle _ _ (front.map Prod.fst) _).symm
  | getFirstData => cases nodes <;> simp [edit, Op.frees, Op.takes]
  | addNodeInFirst _ _ _ _ | getSize | isEmpty => exact List.Perm.refl _

/-! ## Call after call -/

/-- The answers, the nodes in the end and those that were released. -/
def editRun : List (Op α) → List (Addr × α) → List (Answer α) × List (Addr × α) × List Addr
  | [], nodes => ([], nodes, [])
  | op :: ops, nodes =>
    let (answer, next) := edit op nodes
    let (answers, last, freed) := editRun ops next
    (answer :: answers, last, op.frees nodes ++ freed)

theorem pureRun_edit (ops : List (Op α)) (nodes : List (Addr × α)) :
    pureRun ops (nodes.map Prod.snd) =
      ((editRun ops nodes).1, (editRun ops nodes).2.1.map Prod.snd) := by
  induction ops generalizing nodes with
  | nil => rfl
  | cons op ops ih => simp only [pureRun, pureStep_edit, ih, editRun]

theorem perm_editRun (ops : List (Op α)) (nodes : List (Addr × α)) :
    ((editRun ops nodes).2.2 ++ (editRun ops nodes).2.1.map Prod.fst).Perm
      (ops.flatMap Op.takes ++ nodes.map Prod.fst) := by
  induction ops generalizing nodes with
  | nil => exact List.Perm.refl _
  | cons op ops ih =>
    rw [editRun, List.flatMap_cons, List.append_assoc]
    calc List.Perm (op.frees nodes ++ ((editRun ops (edit op nodes).2).2.2 ++
            (editRun ops (edit op nodes).2).2.1.map Prod.fst))
          (op.frees nodes ++ (ops.flatMap Op.takes ++ (edit op nodes).2.map Prod.fst)) :=
          (ih _).append_left _
      List.Perm _ (ops.flatMap Op.takes ++ (op.frees nodes ++ (edit op nodes).2.map Prod.fst)) := by
          rw [← List.append_assoc, ← List.append_assoc]
          exact List.perm_append_comm.append_right _
      List.Perm _ (ops.flatMap Op.takes ++ (op.takes ++ nodes.map Prod.fst)) :=
          (perm_edit op nodes).append_left _
      List.Perm _ (op.takes ++ ops.flatMap Op.takes ++ nodes.map Prod.fst) := by
          rw [← List.append_assoc]
          exact List.perm_append_comm.append_right _

/-- A call makes the list longer by one node at most. -/
theorem length_edit (op : Op α) (nodes : List (Addr × α)) :
    (edit op nodes).2.length ≤ nodes.length + 1 := by
  have hperm := (perm_edit op nodes).length_eq
  have htakes : op.takes.length ≤ 1 := by
    unfold Op.takes
    split <;> simp
  simp only [List.length_append, List.length_map] at hperm
  omega

theorem run_edit {base fuel : Nat} {w : World α} {nodes : List (Addr × α)} (ops : List (Op α))
    (h : Represents base w (marked nodes)) (hfresh : FreshRun base fuel ops w)
    (hfuel : nodes.length + ops.length < fuel) :
    ∃ w', run fuel ops w = some ((editRun ops nodes).1, w') ∧
      Represents base w' (marked (editRun ops nodes).2.1) ∧
      (editRun ops nodes).2.1.length < fuel ∧ w'.address = w.address ∧
      w'.released = w.released ++ (editRun ops nodes).2.2 := by
  induction ops generalizing w nodes with
  | nil => exact ⟨w, rfl, h, hfuel, rfl, by simp [editRun]⟩
  | cons op ops ih =>
    rw [List.length_cons] at hfuel
    have hlt : nodes.length < fuel := by omega
    have hlen := length_edit op nodes
    obtain ⟨w₁, hstep⟩ := steps_edit h hfresh.1 hlt
    obtain ⟨w', hrun, hrep, hlen', haddress, hreleased⟩ :=
      ih hstep.represents (hfresh.2 _ hstep.runs) (by omega)
    refine ⟨w', ?_, hrep, hlen', haddress.trans hstep.address, ?_⟩
    · simp only [run, hstep.runs, Option.bind_some, hrun, Option.map_some, editRun]
    · rw [hreleased, hstep.released, editRun, List.append_assoc]

end

/-! ## The lists of the kernel -/

section
open doubleLinkedList (DoubleLinkedList NODE_SIZE)

variable {H : Type} [MemoryManager H]

/-- The list as the rest of the kernel has it: its block, and its nodes. -/
def Models (base : Addr) (w : World α) (list : DoubleLinkedList α) : Prop :=
  Represents base w (marked list.nodes) ∧ w.address = list.header

/-- The world has the nodes of one list only. -/
theorem Models.nodes_eq {base : Addr} {w : World α} {list : DoubleLinkedList α}
    (h : Models base w list) {l : List (Addr × Option α)} (hrep : Represents base w l) :
    marked list.nodes = l := by
  obtain ⟨current, hlist⟩ := h.1.list
  obtain ⟨current', hlist'⟩ := hrep.list
  have hsame := Option.some.inj (hlist.symm.trans hlist')
  exact h.1.chain.unique hrep.chain (congrArg CDT.head hsame)

/-- From one heap to the other, these blocks were freed in their order, and nodes allocated. -/
inductive Frees (m : H) : List Addr → H → Prop
  | nothing : Frees m [] m
  | allocs {freed : List Addr} {m' : H} (h : Frees m freed m') :
      Frees m freed (mm_alloc NODE_SIZE m').2
  | frees {freed : List Addr} {m' : H} (h : Frees m freed m') (a : Addr) :
      Frees m (freed ++ [a]) (mm_free a m')

theorem Frees.trans {m m₁ m₂ : H} {freed more : List Addr} (h : Frees m freed m₁)
    (h' : Frees m₁ more m₂) : Frees m (freed ++ more) m₂ := by
  induction h' with
  | nothing => rwa [List.append_nil]
  | allocs _ ih => exact .allocs ih
  | frees _ a ih =>
    rw [← List.append_assoc]
    exact .frees ih a

theorem frees_freeAll (blocks : List Addr) (m : H) : Frees m blocks (freeAll blocks m) := by
  induction blocks generalizing m with
  | nil => exact .nothing
  | cons a blocks ih =>
    have hfirst : Frees m ([] ++ [a]) (mm_free a m) := .frees .nothing a
    exact hfirst.trans (ih _)

variable [DecidableEq α]

/-- A call on such a list. -/
def onList (op : Op α) (list : DoubleLinkedList α) (m : H) : Answer α × DoubleLinkedList α × H :=
  match op with
  | .addNode x _ =>
    let (node, list, m) := doubleLinkedList.addNode list x m
    (.node node, list, m)
  | .addNodeInFirst a x _ _ => (.node (some a), { list with nodes := (a, x) :: list.nodes }, m)
  | .removeNode x =>
    let (data, list, m) := doubleLinkedList.removeNode list x m
    (.data data, list, m)
  | .getFirstData =>
    let (data, list, m) := doubleLinkedList.getFirstData list m
    (.data data, list, m)
  | .getSize => (.int (Int32.ofNat list.nodes.length), list, m)
  | .isEmpty => (.int (if doubleLinkedList.isEmpty list then 1 else 0), list, m)

def listRun : List (Op α) → DoubleLinkedList α → H → List (Answer α) × DoubleLinkedList α × H
  | [], list, m => ([], list, m)
  | op :: ops, list, m =>
    let (answer, list, m) := onList op list m
    let (answers, list, m) := listRun ops list m
    (answer :: answers, list, m)

/-- The block of a new node is the one that `mm_alloc` gives. -/
def ServedBy (m : H) : Op α → Prop
  | .addNode _ served => served.map Prod.fst = (mm_alloc NODE_SIZE m).1
  | _ => True

def ServedRun : List (Op α) → DoubleLinkedList α → H → Prop
  | [], _, _ => True
  | op :: ops, list, m =>
    ServedBy m op ∧ ServedRun ops (onList op list m).2.1 (onList op list m).2.2

theorem onList_edit {op : Op α} (list : DoubleLinkedList α) {m : H} (hserved : ServedBy m op) :
    ∃ m', onList op list m = ((edit op list.nodes).1, ⟨list.header, (edit op list.nodes).2⟩, m') ∧
      Frees m (op.frees list.nodes) m' := by
  have hremove : ∀ x, ∃ m', doubleLinkedList.removeNode list x m =
      ((list.nodes.find? fun n => n.2 = x).map Prod.snd,
        ⟨list.header, list.nodes.eraseP fun n => n.2 = x⟩, m') ∧
      Frees m ((list.nodes.find? fun n => n.2 = x).map Prod.fst).toList m' := by
    intro x
    unfold doubleLinkedList.removeNode
    cases hfind : list.nodes.find? fun n => n.2 = x with
    | none =>
      exact ⟨m, by rw [erase_absent hfind]; rfl, .nothing⟩
    | some n =>
      obtain ⟨rfl, -⟩ := first_with hfind
      exact ⟨_, rfl, frees_freeAll [n.1] m⟩
  cases op with
  | addNode x served =>
    have hallocs : Frees m [] (mm_alloc NODE_SIZE m).2 := .allocs .nothing
    unfold ServedBy at hserved
    unfold onList doubleLinkedList.addNode
    generalize mm_alloc NODE_SIZE m = answer at hserved hallocs ⊢
    obtain ⟨a, m'⟩ := answer
    obtain rfl : a = served.map Prod.fst := hserved.symm
    cases served with
    | none => exact ⟨m', by simp [edit], hallocs⟩
    | some block => exact ⟨m', by simp [edit], hallocs⟩
  | addNodeInFirst a x prev next => exact ⟨m, rfl, .nothing⟩
  | removeNode x =>
    obtain ⟨m', hrun, hfrees⟩ := hremove x
    exact ⟨m', by rw [onList, hrun]; rfl, hfrees⟩
  | getFirstData =>
    obtain ⟨header, nodes⟩ := list
    cases nodes with
    | nil => exact ⟨m, rfl, .nothing⟩
    | cons n nodes =>
      obtain ⟨m', hrun, hfrees⟩ := hremove n.2
      refine ⟨m', ?_, by simpa [Op.frees] using hfrees⟩
      rw [onList, show doubleLinkedList.getFirstData ⟨header, n :: nodes⟩ m = _ from hrun]
      simp [edit]
  | getSize => exact ⟨m, rfl, .nothing⟩
  | isEmpty => exact ⟨m, rfl, .nothing⟩

theorem listRun_edit {ops : List (Op α)} {list : DoubleLinkedList α} {m : H}
    (hserved : ServedRun ops list m) :
    ∃ m', listRun ops list m = ((editRun ops list.nodes).1,
        ⟨list.header, (editRun ops list.nodes).2.1⟩, m') ∧
      Frees m (editRun ops list.nodes).2.2 m' := by
  induction ops generalizing list m with
  | nil => exact ⟨m, rfl, .nothing⟩
  | cons op ops ih =>
    obtain ⟨m₁, hop, hfrees₁⟩ := onList_edit list hserved.1
    have hrest := hserved.2
    rw [hop] at hrest
    obtain ⟨m', hrun, hfrees⟩ := ih hrest
    refine ⟨m', ?_, hfrees₁.trans hfrees⟩
    simp only [listRun, hop, hrun, editRun]

/-- After some calls and `freeLinkedListADT`: the list of the kernel gave the same answers, it had
the nodes in memory, and it freed these blocks in their order. -/
structure Mirrors (base : Addr) (ops : List (Op α)) (answers : List (Answer α)) (w : World α)
    (freed : List Addr) (list : DoubleLinkedList α) (m : H) : Prop where
  answers : (listRun ops list m).1 = answers
  models : Models base w (listRun ops list m).2.1
  frees : Frees m freed
    (doubleLinkedList.freeLinkedListADT (listRun ops list m).2.1 (listRun ops list m).2.2)

theorem mirrors_run {base : Addr} {w : World α} {ops : List (Op α)} {list : DoubleLinkedList α}
    {m : H} (hserved : ServedRun ops list m) (hheader : w.address = list.header)
    (hrep : Represents base w (marked (editRun ops list.nodes).2.1)) :
    Mirrors base ops (editRun ops list.nodes).1 w ((editRun ops list.nodes).2.2 ++
      (editRun ops list.nodes).2.1.map Prod.fst ++ [w.address]) list m := by
  obtain ⟨m', hrun, hfrees⟩ := listRun_edit hserved
  refine ⟨by rw [hrun], by rw [hrun]; exact ⟨hrep, hheader⟩, ?_⟩
  rw [hrun, hheader]
  exact .frees (hfrees.trans (frees_freeAll _ _)) _

end

/-! ## What a list looks like -/

/-- From the head, the links forward lead over the nodes to the tail and end there; the
links back lead the other way. -/
structure Shape (w : World α) (nodes : List Addr) (xs : List α) : Prop where
  list : ∃ list, w.list = some list ∧ list.size.toInt = nodes.length ∧
    list.head = nodes.head? ∧ list.tail = nodes.getLast? ∧
    (∀ n, nodes.length ≤ n → follow w.heap Cell.next n list.head = nodes) ∧
    ∀ n, nodes.length ≤ n → follow w.heap Cell.prev n list.tail = nodes.reverse
  head : ∀ a ∈ nodes.head?, (w.heap a).bind Cell.prev = none
  tail : ∀ a ∈ nodes.getLast?, (w.heap a).bind Cell.next = none
  data : nodes.map (fun a => (w.heap a).bind Cell.data) = xs.map some
  nodup : nodes.Nodup

section
variable {base : Addr} {w : World α} {l : List (Addr × Option α)} {xs : List α}

theorem segment_data {before after : Option Addr} (h : Segment w.heap before l after) :
    (l.map Prod.fst).map (fun a => (w.heap a).bind Cell.data) = l.map Prod.snd := by
  induction l generalizing before with
  | nil => rfl
  | cons n l ih => simpa [h.1] using ih h.2

theorem Holds.shape (h : Holds base w l xs) : Shape w (l.map Prod.fst) xs := by
  have hrep := h.represents
  obtain ⟨current, hlist⟩ := hrep.list
  refine ⟨⟨_, hlist, ?_, ?_, ?_, fun n hn => ?_, fun n hn => ?_⟩, fun a ha => ?_, fun a ha => ?_,
    (segment_data hrep.chain).trans h.data, hrep.nodup⟩
  · rw [List.length_map]
    exact Int32.toInt_ofNat_of_lt hrep.length_lt
  · simp [first]
  · simp [last]
  · exact follow_next hrep.chain (by simpa using hn)
  · exact follow_prev hrep.chain (by simpa using hn)
  · cases l with
    | nil => cases ha
    | cons n l =>
      obtain rfl : n.1 = a := by simpa using ha
      simp [hrep.chain.1]
  · rcases l.eq_nil_or_concat' with rfl | ⟨l, n, rfl⟩
    · cases ha
    · obtain rfl : n.1 = a := by simpa using ha
      simp [((segment_append.mp hrep.chain).2).1]

/-- Any sequence of calls on a list does what it does on the sequence of its data, and no
access goes to a node that is not there. A removal finds what is in the sequence, and
leaves everything alone when there is nothing to find. In the end each node was released
once, and the block of the list after them. The lists of the kernel are such lists. -/
theorem list_refines_sequence [DecidableEq α] (h : Holds base w l xs) (ops : List (Op α))
    (fuel : Nat) (hfresh : FreshRun base fuel ops w) (hfuel : l.length + ops.length < fuel) :
    ∃ w' nodes, run fuel ops w = some ((pureRun ops xs).1, w') ∧
      Shape w' nodes (pureRun ops xs).2 ∧
      (∀ x, (x ∉ (pureRun ops xs).2 → removeNode fuel (some x) w' = some (none, w')) ∧
        (x ∈ (pureRun ops xs).2 → ∃ w'', removeNode fuel (some x) w' = some (some x, w''))) ∧
      ∃ w'' freed, freeLinkedListADT fuel w' = some w'' ∧ w''.list = none ∧
        (∀ a ∈ nodes, w''.heap a = none) ∧ w''.released = w.released ++ freed ++ [w.address] ∧
        freed.Perm (ops.flatMap Op.takes ++ l.map Prod.fst) ∧
        ∀ {H : Type} [MemoryManager H] {list : doubleLinkedList.DoubleLinkedList α} {m : H},
          Models base w list → ServedRun ops list m →
            Mirrors base ops (pureRun ops xs).1 w' (freed ++ [w.address]) list m := by
  obtain ⟨nodes, rfl, rfl⟩ := h.nodes
  rw [length_marked] at hfuel
  obtain ⟨w', hrun, hrep, hlen, haddress, hreleased⟩ := run_edit ops h.represents hfresh hfuel
  have hlen' : (marked (editRun ops nodes).2.1).length < fuel := by rwa [length_marked]
  have hholds : Holds base w' (marked (editRun ops nodes).2.1)
      ((editRun ops nodes).2.1.map Prod.snd) := ⟨hrep, data_marked _⟩
  obtain ⟨w'', hfree, hnone, hall, hgone⟩ := freeLinkedListADT_spec hrep hlen'
  rw [pureRun_edit]
  refine ⟨w', _, hrun, hholds.shape, fun x => ⟨fun hx => ?_, fun hx => ?_⟩, w'',
    (editRun ops nodes).2.2 ++ (editRun ops nodes).2.1.map Prod.fst, hfree, hnone, hgone, ?_, ?_,
    fun hmodels hserved => ?_⟩
  · exact removeNode_absent hrep hlen' (by simpa using hx)
  · obtain ⟨w₁, hstep⟩ := steps_removeNode hrep x hlen
    have hpure := congrArg Prod.fst (pureStep_edit (.removeNode x) (editRun ops nodes).2.1)
    have hruns := hstep.runs
    rw [← hpure, step, pureStep, if_pos hx] at hruns
    obtain ⟨r, hr, hanswer⟩ := Option.map_eq_some_iff.mp hruns
    refine ⟨r.2, hr.trans (congrArg some (Prod.ext ?_ rfl))⟩
    simpa using congrArg Prod.fst hanswer
  · rw [hall, hreleased, haddress, addresses_marked]
    simp
  · rw [addresses_marked]
    exact perm_editRun ops nodes
  · obtain rfl := marked_injective (hmodels.nodes_eq h.represents)
    rw [← haddress]
    exact mirrors_run hserved (haddress.trans hmodels.2) hrep

/-- A list that was just created. -/
theorem create_holds (served : Addr) (w : World α) :
    Holds base (createDoubleLinkedListADT (some served) w) [] [] where
  represents := ⟨⟨none, rfl⟩, trivial, List.nodup_nil, by simp⟩
  data := rfl

/-- Two nodes at 100 and 200; the first is removed by its data, the other one is popped. -/
theorem list_refines_sequence_of_two :
    ∃ w' nodes, run 7 [.addNode 1 (some (100, ⟨none, none, some 3⟩)),
        .addNode 2 (some (200, ⟨none, some 4, none⟩)), .removeNode 1, .getFirstData]
        (createDoubleLinkedListADT (some 50) ⟨fun _ => none, 0, none, []⟩) =
      some ([.node (some 100), .node (some 200), .data (some 1), .data (some 2)], w') ∧
      Shape w' nodes ([] : List Nat) := by
  have hfree {op : Op Nat} {w : World Nat} (a : Addr) (hop : op.takes = [a])
      (ha : w.heap a = none) (hin : a < HEAP_SIZE) : Fresh 0 op w := by
    intro b hb
    rw [hop, List.mem_singleton] at hb
    subst hb
    exact ⟨ha, Nat.zero_le _, by simpa using hin⟩
  have hcreated : Holds 0 (createDoubleLinkedListADT (some 50) ⟨fun _ => none, 0, none, []⟩) []
      ([] : List Nat) := create_holds 50 _
  have hfresh : FreshRun 0 7 [.addNode 1 (some (100, ⟨none, none, some 3⟩)),
      .addNode 2 (some (200, ⟨none, some 4, none⟩)), .removeNode 1, .getFirstData]
      (createDoubleLinkedListADT (some 50) ⟨fun _ => none, 0, none, []⟩) := by
    refine ⟨hfree 100 rfl rfl (by decide), fun r hr => ?_⟩
    obtain rfl := Option.some.inj hr
    refine ⟨hfree 200 rfl rfl (by decide), fun r _ => ⟨?_, fun r _ => ⟨?_, fun _ _ => trivial⟩⟩⟩
    · exact fun a ha => absurd ha (by simp [Op.takes])
    · exact fun a ha => absurd ha (by simp [Op.takes])
  obtain ⟨w', nodes, hrun, hshape, -⟩ := list_refines_sequence hcreated _ 7 hfresh (by decide)
  exact ⟨w', nodes, hrun, hshape⟩

end

end bare_bones.linkedNodes
