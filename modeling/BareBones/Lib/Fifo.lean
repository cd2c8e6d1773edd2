-- A queue that is served from its head. What a step does to it is a flow: it
-- serves some entries at the head, may drop others, and appends new ones. Who
-- stays in the queue moves up by every entry served and is never overtaken.
import BareBones.Lib.Runs
import Mathlib.Data.List.Nodup

namespace fifo

open runs

variable {α : Type*}

/-- `l'` follows `l` after `n` entries were served. -/
def Flow (n : Nat) (l l' : List α) : Prop :=
  ∃ kept new, l' = kept ++ new ∧ kept.Sublist (l.drop n) ∧ ∀ x ∈ new, x ∉ l

theorem Flow.append {l : List α} {x : α} (hx : x ∉ l) : Flow 0 l (l ++ [x]) :=
  ⟨l, [x], rfl, List.Sublist.refl _, by simpa using hx⟩

theorem Flow.sublist {l l' : List α} (h : l'.Sublist l) : Flow 0 l l' :=
  ⟨l', [], by simp, h, by simp⟩

theorem Flow.mono {m n : Nat} {l l' : List α} (h : Flow n l l') (hm : m ≤ n) : Flow m l l' := by
  obtain ⟨kept, new, hl, hk, hn⟩ := h
  exact ⟨kept, new, hl, hk.trans (List.drop_sublist_drop_left l hm), hn⟩

/-- One flow after the other, when nothing that the first took out comes back in
the second. -/
theorem Flow.trans {n : Nat} {l l' l'' : List α} (h : Flow 0 l l') (h' : Flow n l' l'')
    (hback : ∀ x ∈ l'', x ∈ l → x ∈ l') : Flow n l l'' := by
  obtain ⟨kept, new, hl, hk, hn⟩ := h
  obtain ⟨kept', new', hl', hk', hn'⟩ := h'
  rw [hl, List.drop_append] at hk'
  obtain ⟨a, b, rfl, ha, hb⟩ := List.sublist_append_iff.mp hk'
  refine ⟨a, b ++ new', by rw [hl', List.append_assoc], ha.trans (hk.drop n), fun x hx hxl => ?_⟩
  rcases List.mem_append.mp hx with hx | hx
  · exact hn x (List.mem_of_mem_drop (hb.subset hx)) hxl
  · exact hn' x hx (hback x (by simp [hl', hx]) hxl)

/-! ## Positions -/

variable [DecidableEq α]

/-- Taking entries out moves an entry up, past nobody who stays. -/
theorem position_le_of_sublist {k l : List α} (h : k.Sublist l) (hn : l.Nodup) {x : α}
    (hx : x ∈ k) : k.idxOf x ≤ l.idxOf x := by
  induction h with
  | slnil => cases hx
  | @cons k l a h ih =>
    have hax : a ≠ x := fun he => (List.nodup_cons.mp hn).1 (h.subset (he ▸ hx))
    rw [List.idxOf_cons_ne l hax]
    exact Nat.le_succ_of_le (ih (List.nodup_cons.mp hn).2 hx)
  | @cons_cons k l a h ih =>
    by_cases hax : a = x
    · simp [hax]
    · rw [List.idxOf_cons_ne k hax, List.idxOf_cons_ne l hax]
      have hx' : x ∈ k := (List.mem_cons.mp hx).resolve_left (Ne.symm hax)
      exact Nat.succ_le_succ (ih (List.nodup_cons.mp hn).2 hx')

theorem ahead_iff_of_sublist {k l : List α} (h : k.Sublist l) (hn : l.Nodup) {x y : α}
    (hx : x ∈ k) (hy : y ∈ k) : k.idxOf x < k.idxOf y ↔ l.idxOf x < l.idxOf y := by
  induction h with
  | slnil => cases hx
  | @cons k l a h ih =>
    have hout : ∀ z ∈ k, a ≠ z := fun z hz he => (List.nodup_cons.mp hn).1 (h.subset (he ▸ hz))
    rw [List.idxOf_cons_ne l (hout x hx), List.idxOf_cons_ne l (hout y hy)]
    exact (ih (List.nodup_cons.mp hn).2 hx hy).trans Nat.succ_lt_succ_iff.symm
  | @cons_cons k l a h ih =>
    by_cases hax : a = x
    · by_cases hay : a = y
      · simp [← hax, ← hay]
      · simp [hax, List.idxOf_cons_ne _ (hax ▸ hay)]
    · by_cases hay : a = y
      · simp [hay]
      · have hx' : x ∈ k := (List.mem_cons.mp hx).resolve_left (Ne.symm hax)
        have hy' : y ∈ k := (List.mem_cons.mp hy).resolve_left (Ne.symm hay)
        rw [List.idxOf_cons_ne k hax, List.idxOf_cons_ne k hay, List.idxOf_cons_ne l hax,
          List.idxOf_cons_ne l hay]
        simpa using ih (List.nodup_cons.mp hn).2 hx' hy'

theorem position_drop {l : List α} (hn : l.Nodup) {n : Nat} {x : α} (hx : x ∈ l.drop n) :
    (l.drop n).idxOf x + n = l.idxOf x := by
  have hlen : n ≤ l.length := by
    by_contra hgt
    rw [List.drop_eq_nil_of_le (Nat.le_of_not_le hgt)] at hx
    cases hx
  have hout : x ∉ l.take n := fun ht => List.disjoint_take_drop hn (Nat.le_refl n) ht hx
  have hpos : (l.take n ++ l.drop n).idxOf x = (l.take n).length + (l.drop n).idxOf x :=
    List.idxOf_append_of_notMem hout
  rw [List.take_append_drop, List.length_take, Nat.min_eq_left hlen] at hpos
  rw [hpos, Nat.add_comm]

/-- Who stays was not new: it is among the entries kept. -/
theorem Flow.kept {n : Nat} {l l' : List α} (h : Flow n l l') :
    ∃ kept : List α, kept.Sublist (l.drop n) ∧
      ∀ x ∈ l, x ∈ l' → x ∈ kept ∧ l'.idxOf x = kept.idxOf x := by
  obtain ⟨kept, new, rfl, hk, hn⟩ := h
  refine ⟨kept, hk, fun x hx hx' => ?_⟩
  have hxk : x ∈ kept := (List.mem_append.mp hx').resolve_right fun hm => hn x hm hx
  exact ⟨hxk, List.idxOf_append_of_mem hxk⟩

/-- Who stays moves up by every entry served. -/
theorem Flow.position {n : Nat} {l l' : List α} (h : Flow n l l') (hn : l.Nodup) {x : α}
    (hx : x ∈ l) (hx' : x ∈ l') : l'.idxOf x + n ≤ l.idxOf x := by
  obtain ⟨kept, hk, hstay⟩ := h.kept
  obtain ⟨hxk, hpos⟩ := hstay x hx hx'
  have hdrop := position_drop hn (hk.subset hxk)
  have hle := position_le_of_sublist hk (hn.sublist (List.drop_sublist n l)) hxk
  omega

/-- Two who stay keep their order. -/
theorem Flow.ahead {n : Nat} {l l' : List α} (h : Flow n l l') (hn : l.Nodup) {x y : α}
    (hx : x ∈ l) (hy : y ∈ l) (hx' : x ∈ l') (hy' : y ∈ l') :
    l'.idxOf x < l'.idxOf y ↔ l.idxOf x < l.idxOf y := by
  obtain ⟨kept, hk, hstay⟩ := h.kept
  obtain ⟨hxk, hxpos⟩ := hstay x hx hx'
  obtain ⟨hyk, hypos⟩ := hstay y hy hy'
  rw [hxpos, hypos]
  exact ahead_iff_of_sublist (hk.trans (List.drop_sublist n l)) hn hxk hyk

/-! ## Runs -/

section Runs

variable {σ ι : Type*} {exec : σ → ι → σ} {ok : σ → ι → Prop} {I : σ → Prop}
  {queue : σ → List α} {served : σ → ι → List α}

/-- Everybody served along a run, in order. -/
def servedAlong (exec : σ → ι → σ) (served : σ → ι → List α) : σ → List ι → List α
  | _, [] => []
  | s, op :: ops => served s op ++ servedAlong exec served (exec s op) ops

/-- The entry is in the queue after every step of the run. -/
def Stays (exec : σ → ι → σ) (queue : σ → List α) (x : α) (s : σ) (ops : List ι) : Prop :=
  Meets exec (fun s op => x ∈ queue (exec s op)) s ops

/-- Along a run, as many are served as places are gained. -/
theorem run_position (hstep : ∀ s op, I s → ok s op → I (exec s op))
    (hflow : ∀ s op, I s → ok s op →
      Flow (served s op).length (queue s) (queue (exec s op)))
    (hnodup : ∀ s, I s → (queue s).Nodup) {s : σ} {ops : List ι} (h0 : I s)
    (hm : Meets exec ok s ops) {x : α} (hx : x ∈ queue s) (hstay : Stays exec queue x s ops) :
    (queue (run exec s ops)).idxOf x + (servedAlong exec served s ops).length ≤
      (queue s).idxOf x := by
  induction ops generalizing s with
  | nil => exact Nat.le_refl _
  | cons op ops ih =>
    have hpos := (hflow s op h0 hm.1).position (hnodup s h0) hx hstay.1
    have hrest := ih (hstep s op h0 hm.1) hm.2 hstay.1 hstay.2
    rw [run_cons, servedAlong, List.length_append]
    omega

theorem run_ahead (hstep : ∀ s op, I s → ok s op → I (exec s op))
    (hflow : ∀ s op, I s → ok s op →
      Flow (served s op).length (queue s) (queue (exec s op)))
    (hnodup : ∀ s, I s → (queue s).Nodup) {s : σ} {ops : List ι} (h0 : I s)
    (hm : Meets exec ok s ops) {x y : α} (hx : x ∈ queue s) (hy : y ∈ queue s)
    (hxs : Stays exec queue x s ops) (hys : Stays exec queue y s ops) :
    (queue (run exec s ops)).idxOf x < (queue (run exec s ops)).idxOf y ↔
      (queue s).idxOf x < (queue s).idxOf y := by
  induction ops generalizing s with
  | nil => exact Iff.rfl
  | cons op ops ih =>
    have hahead := (hflow s op h0 hm.1).ahead (hnodup s h0) hx hy hxs.1 hys.1
    exact (ih (hstep s op h0 hm.1) hm.2 hxs.1 hys.1 hxs.2 hys.2).trans hahead

/-! ## Quanta

A clock that runs down: a step serves and winds the clock up to at most `W`, or it leaves the
clock and a tick takes one off it. -/

/-- The ticks that can pass before the entry at a position is served, and one more. -/
def patience (W position : Nat) (clock : Int) : Nat := position * W + max clock.toNat 1

theorem patience_of_served {W position position' : Nat} {clock clock' : Int} (hW : 1 ≤ W)
    (hmoved : position' + 1 ≤ position) (hclock : clock' ≤ W) :
    patience W position' clock' + 1 ≤ patience W position clock := by
  have hpositions := Nat.mul_le_mul_right W hmoved
  unfold patience
  rw [Nat.add_mul, Nat.one_mul] at hpositions
  omega

theorem patience_of_idle {W position position' n : Nat} {clock clock' : Int}
    (hmoved : position' ≤ position) (hclock : clock' + n ≤ clock) (hleft : 0 < n → 1 ≤ clock') :
    patience W position' clock' + n ≤ patience W position clock := by
  have hpositions := Nat.mul_le_mul_right W hmoved
  unfold patience
  omega

/-- Along a run, an entry that stays has as many ticks behind it as its patience allows. -/
theorem run_patience (clock : σ → Int) (tick : ι → Bool) {W : Nat} (hW : 1 ≤ W)
    (hstep : ∀ s op, I s → ok s op → I (exec s op))
    (hflow : ∀ s op, I s → ok s op →
      Flow (served s op).length (queue s) (queue (exec s op)))
    (hnodup : ∀ s, I s → (queue s).Nodup)
    (hserved : ∀ s op, I s → ok s op → served s op ≠ [] → clock (exec s op) ≤ W)
    (hidle : ∀ s op, I s → ok s op → served s op = [] →
      clock (exec s op) + (if tick op then 1 else 0 : Nat) ≤ clock s ∧
        (tick op → 1 ≤ clock (exec s op)))
    {s : σ} {ops : List ι} (h0 : I s) (hm : Meets exec ok s ops) {x : α} (hx : x ∈ queue s)
    (hstay : Stays exec queue x s ops) :
    patience W ((queue (run exec s ops)).idxOf x) (clock (run exec s ops)) + ops.countP tick ≤
      patience W ((queue s).idxOf x) (clock s) := by
  induction ops generalizing s with
  | nil => simp
  | cons op ops ih =>
    have hmoved := (hflow s op h0 hm.1).position (hnodup s h0) hx hstay.1
    have hrest := ih (hstep s op h0 hm.1) hm.2 hstay.1 hstay.2
    have hone : patience W ((queue (exec s op)).idxOf x) (clock (exec s op)) +
        (if tick op then 1 else 0) ≤ patience W ((queue s).idxOf x) (clock s) := by
      cases hs : served s op with
      | nil =>
        rw [hs] at hmoved
        obtain ⟨hclock, hleft⟩ := hidle s op h0 hm.1 hs
        apply patience_of_idle hmoved hclock
        intro htick
        apply hleft
        by_contra hno
        simp [hno] at htick
      | cons y ys =>
        have hclock := hserved s op h0 hm.1 (by simp [hs])
        rw [hs, List.length_cons] at hmoved
        have hup : (queue (exec s op)).idxOf x + 1 ≤ (queue s).idxOf x := by omega
        have hless : patience W ((queue (exec s op)).idxOf x) (clock (exec s op)) + 1 ≤
            patience W ((queue s).idxOf x) (clock s) := patience_of_served hW hup hclock
        split <;> omega
    rw [run_cons, List.countP_cons]
    omega

end Runs

end fifo
