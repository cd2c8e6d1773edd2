-- The first loop of `sem_post` over the nodes of a list: it removes nodes of the list that
-- it walks. The list holds the cursor, and `removeNode` does not look at it.
import BareBones.LinkedLists
import BareBones.SemaphoreCalls

namespace bare_bones.linkedNodes

open double_chain

variable {α : Type}

/-! ## The loop -/

/-- The turns of the loop, with the data that they visit. `fuel` bounds the search of each
`removeNode`, and the other number the turns. -/
def purgeFrom [DecidableEq α] (removes : Option α → Bool) (fuel : Nat) :
    Nat → World α → Option (List (Option α) × World α)
  | 0, _ => none
  | turns + 1, w =>
    if hasNext w then
      (nextInList w).bind fun (data, w) =>
      (if removes data then (removeNode fuel data w).map Prod.snd else some w).bind fun w =>
      (purgeFrom removes fuel turns w).map fun (visited, w) => (data :: visited, w)
    else some ([], w)

def purge [DecidableEq α] (removes : Option α → Bool) (fuel : Nat) (w : World α) :
    Option (List (Option α) × World α) :=
  purgeFrom removes fuel fuel (toBegin w)

/-! ## The cursor -/

def World.cursor (w : World α) : Option Addr := w.list.bind CDT.current

theorem linkBefore_current {node : Node α} {list list' : CDT} {w w' : World α}
    (h : linkBefore node list w = some (w', list')) : list'.current = list.current := by
  unfold linkBefore at h
  split at h
  · obtain ⟨w₁, -, heq⟩ := Option.map_eq_some_iff.mp h
    rw [← (Prod.mk.inj heq).2]
  · rw [← (Prod.mk.inj (Option.some.inj h)).2]

theorem linkBehind_current {node : Node α} {list list' : CDT} {w w' : World α}
    (h : linkBehind node list w = some (w', list')) : list'.current = list.current := by
  unfold linkBehind at h
  split at h
  · obtain ⟨w₁, -, heq⟩ := Option.map_eq_some_iff.mp h
    rw [← (Prod.mk.inj heq).2]
  · rw [← (Prod.mk.inj (Option.some.inj h)).2]

theorem unlink_cursor {a : Addr} {list : CDT} {w w' : World α} {x : Option α}
    (h : unlink a list w = some (x, w')) : w'.cursor = list.current := by
  obtain ⟨node, -, h⟩ := Option.bind_eq_some_iff.mp h
  obtain ⟨⟨w₁, list₁⟩, hbefore, h⟩ := Option.bind_eq_some_iff.mp h
  obtain ⟨node₁, -, h⟩ := Option.bind_eq_some_iff.mp h
  obtain ⟨⟨w₂, list₂⟩, hbehind, h⟩ := Option.bind_eq_some_iff.mp h
  obtain ⟨node₂, -, h⟩ := Option.bind_eq_some_iff.mp h
  obtain ⟨w₃, hrelease, heq⟩ := Option.map_eq_some_iff.mp h
  obtain ⟨cell, -, hw₃⟩ := Option.map_eq_some_iff.mp hrelease
  obtain rfl := (Prod.mk.inj heq).2
  rw [← hw₃]
  exact (linkBehind_current hbehind).trans (linkBefore_current hbefore)

variable [DecidableEq α]

theorem searchFrom_cursor {data : Option α} {list : CDT} {w w' : World α}
    (hlist : w.list = some list) {fuel : Nat} {from_ : Option Addr} {x : Option α}
    (h : searchFrom data list fuel from_ w = some (x, w')) : w'.cursor = list.current := by
  induction fuel generalizing from_ with
  | zero => cases h
  | succ fuel ih =>
    cases from_ with
    | none =>
      rw [← (Prod.mk.inj (Option.some.inj h)).2, World.cursor, hlist]
      rfl
    | some a =>
      obtain ⟨node, -, h⟩ := Option.bind_eq_some_iff.mp h
      split at h
      · exact unlink_cursor h
      · exact ih h

/-- A removal leaves the cursor where it is. -/
theorem removeNode_cursor {fuel : Nat} {data : Option α} {w w' : World α} {x : Option α}
    (h : removeNode fuel data w = some (x, w')) : w'.cursor = w.cursor := by
  unfold removeNode at h
  split at h
  · rw [← (Prod.mk.inj (Option.some.inj h)).2]
  · rename_i list hlist
    split at h
    · rw [← (Prod.mk.inj (Option.some.inj h)).2]
    · rw [searchFrom_cursor hlist h, World.cursor, hlist]
      rfl

/-! ## One turn -/

section Distinct
variable {β γ : Type} {front back : List (β × γ)} {n : β × γ}

/-- No node in front has the data of this one. -/
theorem data_ne_of_nodup (h : ((front ++ n :: back).map Prod.snd).Nodup) :
    ∀ n' ∈ front, n'.2 ≠ n.2 := by
  intro n' hn' heq
  rw [List.map_append, List.map_cons, List.nodup_append] at h
  exact h.2.2 n'.2 (List.mem_map_of_mem hn') n.2 List.mem_cons_self heq

/-- Without it the data are still distinct. -/
theorem nodup_without (h : ((front ++ n :: back).map Prod.snd).Nodup) :
    ((front ++ back).map Prod.snd).Nodup := by
  have hsub : (front ++ back).Sublist (front ++ n :: back) :=
    (List.Sublist.refl front).append (List.sublist_cons_self n back)
  exact (hsub.map Prod.snd).nodup h

end Distinct

section
variable {base : Addr} {w : World α} {front back : List (Addr × Option α)} {n : Addr × Option α}

omit [DecidableEq α] in
/-- The cursor moves on, and what it was at stays for now. -/
theorem nextInList_spec (h : Represents base w (front ++ n :: back))
    (hcursor : w.cursor = some n.1) :
    hasNext w = true ∧ ∃ w', nextInList w = some (n.2, w') ∧
      Represents base w' (front ++ n :: back) ∧ w'.cursor = first back none ∧
      w'.released = w.released ∧ w'.address = w.address := by
  obtain ⟨current, hlist⟩ := h.list
  have hcurrent : current = some n.1 := by rwa [World.cursor, hlist] at hcursor
  have hn := ((segment_append.mp h.chain).2).1
  refine ⟨by rw [hasNext, ← World.cursor, hcursor]; rfl,
    { w with list := some ⟨first (front ++ n :: back) none, last none (front ++ n :: back),
      first back none, Int32.ofNat (front ++ n :: back).length⟩ }, ?_,
    ⟨⟨_, rfl⟩, h.chain, h.nodup, h.inHeap⟩, rfl, rfl, rfl⟩
  simp only [nextInList, hlist, hcurrent, hn, Option.map_some]

/-- The node behind the cursor goes, and the cursor is still at the rest of the list. -/
theorem removeNode_behind (h : Represents base w (front ++ n :: back))
    (hdistinct : ((front ++ n :: back).map Prod.snd).Nodup) (hdata : n.2 ≠ none) {fuel : Nat}
    (hfuel : (front ++ n :: back).length < fuel) :
    ∃ w', removeNode fuel n.2 w = some (n.2, w') ∧ Represents base w' (front ++ back) ∧
      w'.cursor = w.cursor ∧ w'.released = w.released ++ [n.1] ∧ w'.address = w.address := by
  obtain ⟨w', hrun, hrep, hreleased⟩ :=
    removeNode_found h hfuel hdata (data_ne_of_nodup hdistinct)
  exact ⟨w', hrun, hrep, removeNode_cursor hrun, hreleased⟩

theorem removeNode_null (h : Represents base w (front ++ n :: back)) (fuel : Nat) :
    removeNode fuel none w = some (none, w) := by
  obtain ⟨current, hlist⟩ := h.list
  simp only [removeNode, hlist, if_true]

/-! ## The whole loop -/

/-- What the loop removes: `removeNode` takes no `NULL`. -/
def leaves (removes : Option α → Bool) (data : Option α) : Bool := removes data && data.isSome

/-- The front was walked over already, and the cursor is at the back. -/
theorem purgeFrom_spec (removes : Option α → Bool) {fuel turns : Nat}
    (h : Represents base w (front ++ back)) (hcursor : w.cursor = first back none)
    (hdistinct : ((front ++ back).map Prod.snd).Nodup) (hfuel : (front ++ back).length < fuel)
    (hturns : back.length < turns) :
    ∃ w', purgeFrom removes fuel turns w = some (back.map Prod.snd, w') ∧
      Represents base w' (front ++ back.filter (fun n => !leaves removes n.2)) ∧
      hasNext w' = false ∧ w'.address = w.address ∧
      w'.released = w.released ++ (back.filter (fun n => leaves removes n.2)).map Prod.fst := by
  induction back generalizing front w turns with
  | nil =>
    obtain ⟨turns, rfl⟩ := Nat.exists_eq_succ_of_ne_zero (Nat.ne_of_gt hturns)
    have hend : hasNext w = false := by
      rw [hasNext, ← World.cursor, hcursor]
      rfl
    refine ⟨w, ?_, h, hend, rfl, (List.append_nil _).symm⟩
    rw [purgeFrom, hend]
    rfl
  | cons n back ih =>
    obtain ⟨turns, rfl⟩ := Nat.exists_eq_succ_of_ne_zero (Nat.ne_of_gt (Nat.zero_lt_of_lt hturns))
    have hturns' : back.length < turns := Nat.lt_of_succ_lt_succ hturns
    obtain ⟨hnext, w₁, hdata, hrep₁, hcursor₁, hreleased₁, haddress₁⟩ := nextInList_spec h hcursor
    by_cases hleaves : leaves removes n.2
    · obtain ⟨hremoves, hsome⟩ := (Bool.and_eq_true _ _).mp hleaves
      obtain ⟨w₂, hremove, hrep₂, hcursor₂, hreleased₂, haddress₂⟩ :=
        removeNode_behind hrep₁ hdistinct (Option.isSome_iff_ne_none.mp hsome) hfuel
      have hshort : (front ++ back).length < fuel := by
        simp only [List.length_append, List.length_cons] at hfuel ⊢
        omega
      obtain ⟨w', hrun, hrep', hend, haddress, hreleased'⟩ :=
        ih hrep₂ (hcursor₂.trans hcursor₁) (nodup_without hdistinct) hshort hturns'
      refine ⟨w', ?_, ?_, hend, haddress.trans (haddress₂.trans haddress₁), ?_⟩
      · rw [purgeFrom, if_pos hnext, hdata]
        simp [hremoves, hremove, hrun]
      · simpa [hleaves] using hrep'
      · simp [hleaves, hreleased', hreleased₂, hreleased₁]
    · have hstays : (if removes n.2 then (removeNode fuel n.2 w₁).map Prod.snd else some w₁) =
          some w₁ := by
        by_cases hremoves : removes n.2
        · have hnull : n.2 = none := by simpa [leaves, hremoves] using hleaves
          rw [if_pos hremoves, hnull, removeNode_null hrep₁ fuel]
          rfl
        · exact if_neg hremoves
      have hassoc : front ++ n :: back = (front ++ [n]) ++ back := by simp
      rw [hassoc] at hrep₁ hdistinct hfuel
      obtain ⟨w', hrun, hrep', hend, haddress, hreleased'⟩ :=
        ih hrep₁ hcursor₁ hdistinct hfuel hturns'
      refine ⟨w', ?_, ?_, hend, haddress.trans haddress₁, ?_⟩
      · rw [purgeFrom, if_pos hnext, hdata]
        simp [hstays, hrun]
      · simpa [hleaves] using hrep'
      · simp [hleaves, hreleased', hreleased₁]

/-- No access went to a node that was not there, each node of `l` was visited once, in their
order, and the list is what stays of `l`. The nodes whose data leaves were released. -/
def PurgedTo (base : Addr) (w : World α) (l : List (Addr × Option α)) (leaves : Option α → Bool)
    (answer : Option (List (Option α) × World α)) : Prop :=
  ∃ w', answer = some (l.map Prod.snd, w') ∧ Represents base w' (l.filter fun n => !leaves n.2) ∧
    hasNext w' = false ∧ w'.address = w.address ∧
    w'.released = w.released ++ (l.filter fun n => leaves n.2).map Prod.fst

omit [DecidableEq α] in
theorem Represents.toBegin {l : List (Addr × Option α)} (h : Represents base w l) :
    Represents base (toBegin w) ([] ++ l) ∧ (toBegin w).cursor = first l none := by
  obtain ⟨current, hlist⟩ := h.list
  refine ⟨⟨⟨first l none, ?_⟩, h.chain, h.nodup, h.inHeap⟩, ?_⟩
  · rw [linkedNodes.toBegin, hlist]
    rfl
  · rw [World.cursor, linkedNodes.toBegin, hlist]
    rfl

end

/-! ## The queue of a semaphore -/

section
open doubleLinkedList (DoubleLinkedList)
open bare_bones.scheduler bare_bones.semaphore

variable {H : Type} [MemoryManager H]

/-- The purge of `sem_post`, node by node: who is gone loses the node and then the pid. -/
theorem purge_nodes (s : Scheduler H) (header : Addr) (pre rest : List (Addr × Waiter)) (heap : H)
    (hdistinct : ((pre ++ rest).map Prod.snd).Nodup) :
    semaphore.purge s (rest.map Prod.snd) ⟨header, pre ++ rest⟩ heap =
      (⟨header, pre ++ rest.filter (fun n => !isGone s n.2.pid)⟩,
        freeAll ((rest.filter fun n => isGone s n.2.pid).flatMap fun n => [n.1, n.2.block])
          heap) := by
  induction rest generalizing pre heap with
  | nil => rfl
  | cons n rest ih =>
    rw [List.map_cons, semaphore.purge]
    by_cases hgone : isGone s n.2.pid
    · have hpre : ∀ n' ∈ pre, ¬ n'.2 = n.2 := data_ne_of_nodup hdistinct
      have hfind : (pre ++ n :: rest).find? (fun n' => n'.2 = n.2) = some n :=
        List.find?_eq_some_iff_append.mpr ⟨by simp, pre, rest, rfl, by simpa using hpre⟩
      have herase : (pre ++ n :: rest).eraseP (fun n' => n'.2 = n.2) = pre ++ rest := by
        rw [List.eraseP_append_right _ (by simpa using hpre)]
        simp
      have hremove : doubleLinkedList.removeNode ⟨header, pre ++ n :: rest⟩ n.2 heap =
          (some n.2, ⟨header, pre ++ rest⟩, mm_free n.1 heap) := by
        simp only [doubleLinkedList.removeNode, hfind, herase]
      rw [if_pos hgone, hremove]
      dsimp only
      rw [ih pre _ (nodup_without hdistinct)]
      simp [hgone, freeAll]
    · have hassoc : pre ++ n :: rest = (pre ++ [n]) ++ rest := by simp
      rw [if_neg hgone, hassoc, ih (pre ++ [n]) heap (hassoc ▸ hdistinct)]
      simp [hgone]

/-- The loop does to a wait queue what `sem_post` does to it: who is gone loses the node, which
the heap gets back, and then the block of the pid. -/
def PurgesQueue (base fuel : Nat) (s : Scheduler H) (w : World Waiter)
    (queue : DoubleLinkedList Waiter) (heap : H) : Prop :=
  let gone := queue.nodes.filter fun n => isGone s n.2.pid
  ∃ w', purge (fun data => data.any fun pid => isGone s pid.pid) fuel w =
      some (queue.data.map some, w') ∧
    Models base w' (semaphore.purge s queue.data queue heap).1 ∧
    w'.released = w.released ++ gone.map Prod.fst ∧
    (semaphore.purge s queue.data queue heap).2 =
      freeAll (gone.flatMap fun n => [n.1, n.2.block]) heap

theorem purges_queue {base : Addr} {w : World Waiter} {queue : DoubleLinkedList Waiter}
    (h : Models base w queue) (hdistinct : queue.data.Nodup) (s : Scheduler H) (heap : H)
    {fuel : Nat} (hfuel : queue.nodes.length < fuel) : PurgesQueue base fuel s w queue heap := by
  obtain ⟨hrep, hcursor⟩ := h.1.toBegin
  have hdata : (marked queue.nodes).map Prod.snd = queue.data.map some := data_marked _
  have hsome : (([] ++ marked queue.nodes).map Prod.snd).Nodup := by
    rw [List.nil_append, hdata]
    exact hdistinct.map fun _ _ => Option.some.inj
  have hlen : (marked queue.nodes).length < fuel := by rwa [length_marked]
  obtain ⟨w', hrun, hrep', -, haddress, hreleased⟩ :=
    purgeFrom_spec (fun data => data.any fun pid => isGone s pid.pid) hrep hcursor hsome hlen hlen
  have hnodes := purge_nodes s queue.header [] queue.nodes heap hdistinct
  rw [List.nil_append, ← DoubleLinkedList.data] at hnodes
  refine ⟨w', by rw [← hdata]; exact hrun, ⟨?_, ?_⟩, hreleased.trans ?_, ?_⟩
  · rw [hnodes]
    simpa [marked, leaves, List.filter_map, Function.comp_def] using hrep'
  · rw [hnodes]
    exact haddress.trans h.2
  · simp [marked, leaves, List.filter_map, Function.comp_def, toBegin]
  · rw [hnodes]

end

/-! ## The loop of `sem_post` -/

section
variable {base : Addr} {w : World α}

/-- From the head on, the cursor is always at a node that is still there. To the wait queues of
the kernel the loop does what the kernel does. -/
theorem the_loop_removes_behind_its_cursor {l : List (Addr × Option α)} (h : Represents base w l)
    (hdistinct : (l.map Prod.snd).Nodup) (removes : Option α → Bool) {fuel : Nat}
    (hfuel : l.length < fuel) :
    PurgedTo base w l (fun data => removes data && data.isSome) (purge removes fuel w) ∧
      ∀ {H : Type} [MemoryManager H] {v : World semaphore.Waiter}
        {queue : doubleLinkedList.DoubleLinkedList semaphore.Waiter}, Models base v queue →
          queue.data.Nodup → queue.nodes.length < fuel → ∀ (s : scheduler.Scheduler H) (heap : H),
            PurgesQueue base fuel s v queue heap := by
  obtain ⟨hrep, hcursor⟩ := h.toBegin
  exact ⟨purgeFrom_spec removes hrep hcursor hdistinct hfuel hfuel,
    fun hmodels hqueue hlen s heap => purges_queue hmodels hqueue s heap hlen⟩

/-- The head and the node behind it leave, and then the tail. -/
theorem the_loop_removes_three_of_four :
    let w : World Nat := ⟨fun a =>
      if a = 100 then some ⟨some 1, none, some 200⟩
      else if a = 200 then some ⟨some 3, some 100, some 300⟩
      else if a = 300 then some ⟨some 2, some 200, some 400⟩
      else if a = 400 then some ⟨some 5, some 300, none⟩
      else none, 50, some ⟨some 100, some 400, none, 4⟩, []⟩
    ∃ w', purge (fun x => x ≠ some 2) 5 w = some ([some 1, some 3, some 2, some 5], w') ∧
      Represents 0 w' [(300, some 2)] ∧ hasNext w' = false ∧ w'.address = 50 ∧
      w'.released = [100, 200, 400] := by
  intro w
  have hrep : Represents 0 w [(100, some 1), (200, some 3), (300, some 2), (400, some 5)] :=
    ⟨⟨none, rfl⟩, ⟨rfl, rfl, rfl, rfl, trivial⟩, by decide, by decide⟩
  exact (the_loop_removes_behind_its_cursor hrep (by decide) (fun x => x ≠ some 2) (by decide)).1

/-- A node without data stays, whatever the loop wants to remove. -/
theorem the_loop_keeps_a_null : ¬ ∀ (w : World Nat) (l : List (Addr × Option Nat))
    (removes : Option Nat → Bool) (fuel : Nat), Represents 0 w l → (l.map Prod.snd).Nodup →
    l.length < fuel → PurgedTo 0 w l removes (purge removes fuel w) := by
  intro hclaim
  let w : World Nat := ⟨fun a => if a = 100 then some ⟨none, none, none⟩ else none, 50,
    some ⟨some 100, some 100, none, 1⟩, []⟩
  have hrep : Represents 0 w [(100, none)] :=
    ⟨⟨none, rfl⟩, ⟨rfl, trivial⟩, by decide, by decide⟩
  obtain ⟨w', hrun, -, -, -, hreleased⟩ :=
    hclaim w [(100, none)] (fun _ => true) 2 hrep (by decide) (by decide)
  have hgot : ∃ w', purge (fun _ => true) 2 w = some ([none], w') ∧ w'.released = [] :=
    ⟨_, rfl, rfl⟩
  obtain ⟨w'', hrun', hnone⟩ := hgot
  obtain rfl := (Prod.mk.inj (Option.some.inj (hrun'.symm.trans hrun))).2
  rw [hnone] at hreleased
  exact absurd hreleased (by decide)

end

end bare_bones.linkedNodes
