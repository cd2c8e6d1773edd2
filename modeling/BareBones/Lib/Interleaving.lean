-- Lists that are made of others, one for each party: what a channel carries is made of what
-- each party put in, in its own order.
import Mathlib.Data.List.Basic
import Mathlib.Logic.Function.Basic

namespace interleaving

variable {ι α : Type*} [DecidableEq ι]

/-- The list is made of the lists of the family, each in its order. -/
def Interleaves (parts : ι → List α) (whole : List α) : Prop :=
  ∃ tagged : List (ι × α), tagged.map Prod.snd = whole ∧
    ∀ i, (tagged.filter fun e => e.1 = i).map Prod.snd = parts i

namespace Interleaves

variable {parts : ι → List α} {whole : List α}

theorem nil (h : ∀ i, parts i = []) : Interleaves parts [] := by
  refine ⟨[], rfl, fun i => ?_⟩
  rw [h i]
  rfl

theorem congr {parts' : ι → List α} (h : Interleaves parts whole)
    (hparts : ∀ i, parts' i = parts i) : Interleaves parts' whole := by
  rw [funext hparts]
  exact h

/-- One party adds one at the end. -/
theorem snoc {parts' : ι → List α} {i : ι} {a : α} (h : Interleaves parts whole)
    (hself : parts' i = parts i ++ [a]) (hother : ∀ j, j ≠ i → parts' j = parts j) :
    Interleaves parts' (whole ++ [a]) := by
  obtain ⟨tagged, hwhole, hparts⟩ := h
  refine ⟨tagged ++ [(i, a)], by simp [hwhole], fun j => ?_⟩
  rw [List.filter_append, List.map_append, hparts j]
  by_cases hj : j = i
  · simp [hj, hself]
  · have hne : ¬ i = j := fun he => hj he.symm
    simp [hne, hother j hj]

/-- One party adds one at the end, or nobody does. -/
theorem grow {parts' : ι → List α} {i : ι} {a : Option α} (h : Interleaves parts whole)
    (hself : parts' i = parts i ++ a.toList) (hother : ∀ j, j ≠ i → parts' j = parts j) :
    Interleaves parts' (whole ++ a.toList) := by
  cases a with
  | some a => exact h.snoc hself hother
  | none =>
    rw [Option.toList_none, List.append_nil] at hself ⊢
    apply h.congr
    intro j
    by_cases hj : j = i
    · rw [hj, hself]
    · exact hother j hj

/-- Nobody else put anything in. -/
theorem eq_of_alone {i : ι} (h : Interleaves parts whole) (halone : ∀ j, j ≠ i → parts j = []) :
    whole = parts i := by
  obtain ⟨tagged, hwhole, hparts⟩ := h
  have hall : ∀ e ∈ tagged, e.1 = i := by
    intro e he
    by_contra hne
    have hmem : e.2 ∈ parts e.1 := by
      rw [← hparts e.1]
      exact List.mem_map_of_mem (List.mem_filter.mpr ⟨he, by simp⟩)
    rw [halone e.1 hne] at hmem
    cases hmem
  rw [← hparts i, List.filter_eq_self.mpr (by simpa using hall), hwhole]

end Interleaves

end interleaving
