-- Runs of a machine that takes one operation at a time: the state after a
-- list of operations, the runs whose every step meets a condition, and the
-- induction that carries an invariant along them.
import Mathlib.Data.List.Basic

namespace runs

variable {σ ι : Type*}

/-- The state after the operations of a list, oldest first. -/
def run (exec : σ → ι → σ) (s : σ) (ops : List ι) : σ := ops.foldl exec s

/-- Every operation of the list meets `ok` in the state it is taken in. -/
def Meets (exec : σ → ι → σ) (ok : σ → ι → Prop) : σ → List ι → Prop
  | _, [] => True
  | s, op :: ops => ok s op ∧ Meets exec ok (exec s op) ops

instance decidableMeets (exec : σ → ι → σ) (ok : σ → ι → Prop)
    [∀ s op, Decidable (ok s op)] : ∀ s ops, Decidable (Meets exec ok s ops)
  | _, [] => isTrue trivial
  | s, op :: ops =>
    have := decidableMeets exec ok (exec s op) ops
    inferInstanceAs (Decidable (ok s op ∧ Meets exec ok (exec s op) ops))

@[simp] theorem run_nil (exec : σ → ι → σ) (s : σ) : run exec s [] = s := rfl

@[simp] theorem run_cons (exec : σ → ι → σ) (s : σ) (op : ι) (ops : List ι) :
    run exec s (op :: ops) = run exec (exec s op) ops := rfl

@[simp] theorem meets_cons (exec : σ → ι → σ) (ok : σ → ι → Prop) (s : σ) (op : ι)
    (ops : List ι) : Meets exec ok s (op :: ops) ↔ ok s op ∧ Meets exec ok (exec s op) ops :=
  Iff.rfl

theorem run_append (exec : σ → ι → σ) (s : σ) (ops more : List ι) :
    run exec s (ops ++ more) = run exec (run exec s ops) more := List.foldl_append

theorem meets_append (exec : σ → ι → σ) (ok : σ → ι → Prop) (s : σ) (ops more : List ι) :
    Meets exec ok s (ops ++ more) ↔
      Meets exec ok s ops ∧ Meets exec ok (run exec s ops) more := by
  induction ops generalizing s with
  | nil => simp [Meets]
  | cons op ops ih => simp [ih, and_assoc]

theorem meets_last {exec : σ → ι → σ} {ok : σ → ι → Prop} {s : σ} {ops : List ι} {op : ι}
    (h : Meets exec ok s (ops ++ [op])) : ok (run exec s ops) op :=
  ((meets_append exec ok s ops [op]).mp h).2.1

theorem Meets.and {exec : σ → ι → σ} {ok ok' : σ → ι → Prop} {s : σ} {ops : List ι}
    (h : Meets exec ok s ops) (h' : Meets exec ok' s ops) :
    Meets exec (fun s op => ok s op ∧ ok' s op) s ops := by
  induction ops generalizing s with
  | nil => trivial
  | cons op ops ih => exact ⟨⟨h.1, h'.1⟩, ih h.2 h'.2⟩

/-- What each permitted step preserves, every permitted run preserves. -/
theorem run_invariant {exec : σ → ι → σ} {ok : σ → ι → Prop} {I : σ → Prop}
    (hstep : ∀ s op, I s → ok s op → I (exec s op)) {s : σ} {ops : List ι}
    (h0 : I s) (hm : Meets exec ok s ops) : I (run exec s ops) := by
  induction ops generalizing s with
  | nil => exact h0
  | cons op ops ih => exact ih (hstep s op h0 hm.1) hm.2

/-- What every step preserves, every run preserves. -/
theorem run_keeps {exec : σ → ι → σ} {I : σ → Prop} (hstep : ∀ s op, I s → I (exec s op)) {s : σ}
    (h0 : I s) (ops : List ι) : I (run exec s ops) := by
  induction ops generalizing s with
  | nil => exact h0
  | cons op ops ih => exact ih (hstep s op h0)

/-- A run passes through a state at each of its steps; what holds of every
step taken from an invariant state holds of every step of the run. -/
theorem run_steps {exec : σ → ι → σ} {ok : σ → ι → Prop} {I : σ → Prop}
    {Good : σ → ι → Prop}
    (hstep : ∀ s op, I s → ok s op → I (exec s op))
    (hgood : ∀ s op, I s → ok s op → Good s op) {s : σ} {ops : List ι}
    (h0 : I s) (hm : Meets exec ok s ops) : Meets exec Good s ops := by
  induction ops generalizing s with
  | nil => trivial
  | cons op ops ih => exact ⟨hgood s op h0 hm.1, ih (hstep s op h0 hm.1) hm.2⟩

/-- A property of all states a run passes through, as a condition on its steps: the
condition keeps an invariant, and a step against it spoils the property. -/
theorem everywhere_iff_meets {exec : σ → ι → σ} {given ok : σ → ι → Prop} {I P : σ → Prop}
    (hP : ∀ s, I s → P s) (hkeep : ∀ s op, I s → given s op → ok s op → I (exec s op))
    (hspoil : ∀ s op, I s → given s op → P (exec s op) → ok s op) {s : σ} {ops : List ι}
    (h0 : I s) (hg : Meets exec given s ops) :
    (∀ seen, seen <+: ops → P (run exec s seen)) ↔ Meets exec ok s ops := by
  induction ops generalizing s with
  | nil =>
    refine ⟨fun _ => trivial, fun _ seen hseen => ?_⟩
    rw [List.prefix_nil.mp hseen]
    exact hP s h0
  | cons op ops ih =>
    constructor
    · intro h
      have hok := hspoil s op h0 hg.1 (h [op] (by simp))
      refine ⟨hok, (ih (hkeep s op h0 hg.1 hok) hg.2).mp fun seen hseen => ?_⟩
      exact h (op :: seen) (List.cons_prefix_cons.mpr ⟨rfl, hseen⟩)
    · rintro ⟨hok, hmore⟩ seen hseen
      cases seen with
      | nil => exact hP s h0
      | cons op' seen =>
        obtain ⟨rfl, hmoreSeen⟩ := List.cons_prefix_cons.mp hseen
        exact (ih (hkeep s op' h0 hg.1 hok) hg.2).mpr hmore seen hmoreSeen

end runs
