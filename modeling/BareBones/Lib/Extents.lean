-- Extents: intervals of cells, given by the first one and a length. A store of
-- extents is packed when they are pairwise apart and inside a bound; it covers
-- as many cells as its extents are long.
import Mathlib.Algebra.BigOperators.Group.Finset.Basic
import Mathlib.Data.Finset.Card
import Mathlib.Data.List.Pairwise
import Mathlib.Order.Interval.Finset.Nat

namespace extents

@[ext] structure Extent where
  first : Nat
  len : Nat
  deriving DecidableEq, Repr

namespace Extent

/-- The cell after the last one. -/
def stop (e : Extent) : Nat := e.first + e.len

def Has (e : Extent) (i : Nat) : Prop := e.first ≤ i ∧ i < e.stop

def Apart (a b : Extent) : Prop := a.stop ≤ b.first ∨ b.stop ≤ a.first

def Inside (a b : Extent) : Prop := b.first ≤ a.first ∧ a.stop ≤ b.stop

instance (e : Extent) (i : Nat) : Decidable (e.Has i) :=
  inferInstanceAs (Decidable (e.first ≤ i ∧ i < e.stop))

instance (a b : Extent) : Decidable (a.Apart b) :=
  inferInstanceAs (Decidable (a.stop ≤ b.first ∨ b.stop ≤ a.first))

instance (a b : Extent) : Decidable (a.Inside b) :=
  inferInstanceAs (Decidable (b.first ≤ a.first ∧ a.stop ≤ b.stop))

theorem Apart.symm {a b : Extent} (h : a.Apart b) : b.Apart a := Or.symm h

theorem Apart.not_has {a b : Extent} (h : a.Apart b) {i : Nat} (ha : a.Has i) : ¬ b.Has i := by
  intro hb
  rcases h with h | h
  · exact absurd (Nat.lt_of_lt_of_le ha.2 h) (Nat.not_lt.mpr hb.1)
  · exact absurd (Nat.lt_of_lt_of_le hb.2 h) (Nat.not_lt.mpr ha.1)

theorem has_first {e : Extent} (h : 0 < e.len) : e.Has e.first :=
  ⟨Nat.le_refl _, Nat.lt_add_of_pos_right h⟩

/-- Two extents with no first cell in common are apart. -/
theorem apart_of_firsts {a b : Extent} (ha : ¬ a.Has b.first) (hb : ¬ b.Has a.first) :
    a.Apart b := by
  rcases Nat.le_total a.first b.first with h | h
  · exact .inl (Nat.not_lt.mp fun hlt => ha ⟨h, hlt⟩)
  · exact .inr (Nat.not_lt.mp fun hlt => hb ⟨h, hlt⟩)

theorem Inside.apart {a a' b b' : Extent} (ha : a.Inside a') (hb : b.Inside b')
    (h : a'.Apart b') : a.Apart b := by
  rcases h with h | h
  · exact .inl (Nat.le_trans ha.2 (Nat.le_trans h hb.1))
  · exact .inr (Nat.le_trans hb.2 (Nat.le_trans h ha.1))

/-- An extent of cells as an extent of bytes: cells of `unit` bytes, from `base` on. -/
def bytes (base unit : Nat) (e : Extent) : Extent := ⟨base + e.first * unit, e.len * unit⟩

theorem stop_bytes (base unit : Nat) (e : Extent) :
    (e.bytes base unit).stop = base + e.stop * unit := by
  simp only [stop, bytes, Nat.add_mul, Nat.add_assoc]

theorem Apart.bytes {a b : Extent} (h : a.Apart b) (base unit : Nat) :
    (a.bytes base unit).Apart (b.bytes base unit) := by
  unfold Apart
  rw [stop_bytes, stop_bytes]
  rcases h with h | h
  · exact .inl (Nat.add_le_add_left (Nat.mul_le_mul_right unit h) base)
  · exact .inr (Nat.add_le_add_left (Nat.mul_le_mul_right unit h) base)

theorem Inside.bytes {a b : Extent} (h : a.Inside b) (base unit : Nat) :
    (a.bytes base unit).Inside (b.bytes base unit) := by
  refine ⟨Nat.add_le_add_left (Nat.mul_le_mul_right unit h.1) base, ?_⟩
  rw [stop_bytes, stop_bytes]
  exact Nat.add_le_add_left (Nat.mul_le_mul_right unit h.2) base

end Extent

/-! ## Packed stores -/

structure Packed (count : Nat) (l : List Extent) : Prop where
  apart : l.Pairwise Extent.Apart
  pos : ∀ e ∈ l, 0 < e.len
  fits : ∀ e ∈ l, e.stop ≤ count

def total : List Extent → Nat
  | [] => 0
  | e :: l => e.len + total l

@[simp] theorem total_cons (e : Extent) (l : List Extent) : total (e :: l) = e.len + total l := rfl

theorem packed_nil (count : Nat) : Packed count [] :=
  ⟨List.Pairwise.nil, by simp, by simp⟩

theorem Packed.cons {count : Nat} {l : List Extent} (h : Packed count l) {e : Extent}
    (hpos : 0 < e.len) (hfits : e.stop ≤ count) (hapart : ∀ f ∈ l, e.Apart f) :
    Packed count (e :: l) :=
  ⟨List.pairwise_cons.mpr ⟨hapart, h.apart⟩,
    fun f hf => (List.mem_cons.mp hf).elim (fun he => he ▸ hpos) (h.pos f),
    fun f hf => (List.mem_cons.mp hf).elim (fun he => he ▸ hfits) (h.fits f)⟩

theorem Packed.sublist {count : Nat} {l l' : List Extent} (h : Packed count l)
    (hs : l'.Sublist l) : Packed count l' :=
  ⟨h.apart.sublist hs, fun e he => h.pos e (hs.subset he), fun e he => h.fits e (hs.subset he)⟩

/-- A cell belongs to one extent at most. -/
theorem Packed.unique {count : Nat} {l : List Extent} (h : Packed count l) {e f : Extent}
    (he : e ∈ l) (hf : f ∈ l) {i : Nat} (hei : e.Has i) (hfi : f.Has i) : e = f := by
  by_contra hne
  have hp : l.Pairwise fun a b => a ≠ b → a.Apart b := by
    apply h.apart.imp
    exact fun hab _ => hab
  have hsymm : Std.Symm fun a b : Extent => a ≠ b → a.Apart b :=
    ⟨fun _ _ hab hba => (hab hba.symm).symm⟩
  have hall := hp.forall_of_forall (fun _ _ hn => absurd rfl hn) he hf
  exact (hall hne).not_has hei hfi

theorem Packed.nodup_first {count : Nat} {l : List Extent} (h : Packed count l) :
    (l.map Extent.first).Nodup := by
  apply List.pairwise_map.mpr
  refine List.Pairwise.imp_of_mem (fun {a b} ha hb hab he => ?_) h.apart
  have hb' : b.Has a.first := by rw [he]; exact Extent.has_first (h.pos b hb)
  exact hab.not_has (Extent.has_first (h.pos a ha)) hb'

/-! ## Covered cells -/

def covered (count : Nat) (l : List Extent) : Finset Nat :=
  (Finset.range count).filter fun i => ∃ e ∈ l, e.Has i

theorem card_has {count : Nat} {e : Extent} (h : e.stop ≤ count) :
    ((Finset.range count).filter e.Has).card = e.len := by
  have hset : (Finset.range count).filter e.Has = Finset.Ico e.first e.stop := by
    ext i
    simp only [Finset.mem_filter, Finset.mem_range, Finset.mem_Ico, Extent.Has]
    exact ⟨fun hi => hi.2, fun hi => ⟨Nat.lt_of_lt_of_le hi.2 h, hi⟩⟩
  rw [hset, Nat.card_Ico, Extent.stop, Nat.add_sub_cancel_left]

/-- Extents apart from each other cover as many cells as they are long. -/
theorem Packed.card_covered {count : Nat} {l : List Extent} (h : Packed count l) :
    (covered count l).card = total l := by
  induction l with
  | nil => simp [covered, total]
  | cons e l ih =>
    have hl : Packed count l := h.sublist (List.sublist_cons_self e l)
    have hsplit : covered count (e :: l) =
        (Finset.range count).filter e.Has ∪ covered count l := by
      ext i
      simp only [covered, Finset.mem_filter, Finset.mem_union, List.mem_cons,
        exists_eq_or_imp, ← and_or_left]
    have hdisj : Disjoint ((Finset.range count).filter e.Has) (covered count l) := by
      apply Finset.disjoint_left.mpr
      intro i hi hc
      obtain ⟨f, hf, hfi⟩ := (Finset.mem_filter.mp hc).2
      exact ((List.pairwise_cons.mp h.apart).1 f hf).not_has (Finset.mem_filter.mp hi).2 hfi
    rw [hsplit, Finset.card_union_of_disjoint hdisj, ih hl,
      card_has (h.fits e List.mem_cons_self), total_cons]

theorem Packed.total_le {count : Nat} {l : List Extent} (h : Packed count l) :
    total l ≤ count := by
  rw [← h.card_covered]
  exact (Finset.card_filter_le _ _).trans (Finset.card_range count).le

/-- Taking one extent out. -/
theorem Packed.total_filter {count : Nat} {l : List Extent} (h : Packed count l) {e : Extent}
    (he : e ∈ l) : total (l.filter fun f => f.first ≠ e.first) + e.len = total l := by
  induction l with
  | nil => cases he
  | cons f l ih =>
    have hnd := List.nodup_cons.mp h.nodup_first
    have hl : Packed count l := h.sublist (List.sublist_cons_self f l)
    by_cases hfe : f.first = e.first
    · have heq : e = f := h.unique he List.mem_cons_self
        (Extent.has_first (h.pos e he)) (hfe ▸ Extent.has_first (h.pos f List.mem_cons_self))
      have hrest : ∀ g ∈ l, g.first ≠ e.first := fun g hg hge =>
        hnd.1 (hfe.trans hge.symm ▸ List.mem_map_of_mem hg)
      rw [List.filter_cons_of_neg (by simp [hfe]),
        List.filter_eq_self.mpr fun g hg => decide_eq_true (hrest g hg), heq]
      rw [total_cons, Nat.add_comm]
    · have hmem : e ∈ l := (List.mem_cons.mp he).resolve_left fun h' => hfe (h' ▸ rfl)
      rw [List.filter_cons_of_pos (by simpa using hfe)]
      have := ih hl hmem
      rw [total_cons, total_cons]
      omega

end extents
