-- The maximal runs of a list without a separator, each with the position where it starts.
import Mathlib.Data.List.Basic
import Mathlib.Data.List.TakeWhile

namespace maximal_runs

variable {α : Type} (sep : α → Bool)

/-- The runs of a list that starts at `pos`. -/
def runsFrom (pos : Nat) (l : List α) : List (Nat × List α) :=
  match l with
  | [] => []
  | c :: l =>
    if sep c then runsFrom (pos + 1) l
    else
      let run := (c :: l).takeWhile (fun c => !sep c)
      (pos, run) :: runsFrom (pos + run.length) ((c :: l).dropWhile (fun c => !sep c))
termination_by l.length
decreasing_by
  · simp
  · rename_i h
    have := (List.dropWhile_suffix (fun c => !sep c) (l := l)).length_le
    simp [h]
    omega

/-- `w` is part of `l` at `p`, holds no separator and cannot be made longer. -/
structure IsRun (l : List α) (p : Nat) (w : List α) : Prop where
  nonempty : w ≠ []
  words : ∀ c ∈ w, sep c = false
  maximal : ∃ before after, l = before ++ w ++ after ∧ before.length = p ∧
    (∀ c ∈ before.getLast?, sep c) ∧ ∀ c ∈ after.head?, sep c

variable {sep} {l : List α} {w : List α} {p pos : Nat}

theorem runsFrom_sep {c : α} (hc : sep c) :
    runsFrom sep pos (c :: l) = runsFrom sep (pos + 1) l := by
  rw [runsFrom, if_pos hc]

/-- A run, with all of it in front of a separator or of the end. -/
theorem runsFrom_run (hw : w ≠ []) (hsep : ∀ c ∈ w, sep c = false) (hl : ∀ c ∈ l.head?, sep c) :
    runsFrom sep pos (w ++ l) = (pos, w) :: runsFrom sep (pos + w.length) l := by
  obtain ⟨c, v, rfl⟩ := List.exists_cons_of_ne_nil hw
  have hneg : ∀ d ∈ c :: v, (!sep d) = true := fun d hd => by simp [hsep d hd]
  have htake : (c :: v ++ l).takeWhile (fun c => !sep c) = c :: v := by
    rw [List.takeWhile_append_of_pos hneg]
    cases l with
    | nil => simp
    | cons d l => simp [hl d rfl]
  have hdrop : (c :: v ++ l).dropWhile (fun c => !sep c) = l := by
    rw [List.dropWhile_append_of_pos hneg]
    cases l with
    | nil => rfl
    | cons d l => simp [hl d rfl]
  rw [List.cons_append] at htake hdrop ⊢
  rw [runsFrom, if_neg (by simp [hsep c List.mem_cons_self])]
  simp only [htake, hdrop]

theorem runsFrom_seps {bs : List α} (hbs : ∀ c ∈ bs, sep c) :
    runsFrom sep pos (bs ++ l) = runsFrom sep (pos + bs.length) l := by
  induction bs generalizing pos with
  | nil => rfl
  | cons c bs ih =>
    rw [List.cons_append, runsFrom_sep (hbs c List.mem_cons_self),
      ih fun d hd => hbs d (List.mem_cons_of_mem _ hd)]
    simp [Nat.add_assoc, Nat.add_comm 1]

theorem runsFrom_skip (sep : α → Bool) (pos : Nat) (l : List α) :
    runsFrom sep pos l = runsFrom sep (pos + (l.takeWhile sep).length) (l.dropWhile sep) := by
  rw [← runsFrom_seps fun c (hc : c ∈ l.takeWhile sep) => List.mem_takeWhile_imp hc,
    List.takeWhile_append_dropWhile]

/-- A list that starts with no separator is a run in front of the rest. -/
theorem exists_run {c : α} (hc : sep c = false) (l : List α) :
    ∃ w rest, c :: l = w ++ rest ∧ w ≠ [] ∧ (∀ d ∈ w, sep d = false) ∧ ∀ d ∈ rest.head?, sep d := by
  refine ⟨(c :: l).takeWhile (fun c => !sep c), (c :: l).dropWhile (fun c => !sep c),
    (List.takeWhile_append_dropWhile).symm, by simp [hc], fun d hd => ?_, fun d hd => ?_⟩
  · simpa using List.mem_takeWhile_imp hd
  · have hne : (c :: l).dropWhile (fun c => !sep c) ≠ [] := fun h0 => by simp [h0] at hd
    have hhead := List.head_dropWhile_not (fun c => !sep c) hne
    rw [List.head?_eq_some_head hne, Option.mem_some_iff] at hd
    rw [hd] at hhead
    simpa using hhead

theorem isRun_cons_sep {c : α} (hc : sep c) :
    IsRun sep (c :: l) p w ↔ ∃ q, p = q + 1 ∧ IsRun sep l q w := by
  constructor
  · rintro ⟨hne, hw, before, after, hl, rfl, hlast, hafter⟩
    cases before with
    | nil =>
      obtain ⟨d, v, rfl⟩ := List.exists_cons_of_ne_nil hne
      have hcd : c = d := (List.cons.inj hl).1
      rw [hcd, hw d List.mem_cons_self] at hc
      cases hc
    | cons b before =>
      obtain ⟨-, rfl⟩ := List.cons.inj hl
      refine ⟨before.length, rfl, hne, hw, before, after, by simp, rfl, fun d hd => ?_, hafter⟩
      cases before with
      | nil => cases hd
      | cons b' before => exact hlast d (by simpa using hd)
  · rintro ⟨q, rfl, hne, hw, before, after, rfl, rfl, hlast, hafter⟩
    refine ⟨hne, hw, c :: before, after, by simp, by simp, fun d hd => ?_, hafter⟩
    cases before with
    | nil =>
      obtain rfl : c = d := by simpa using hd
      exact hc
    | cons b before => exact hlast d (by simpa using hd)

/-- A list of no separators, up to a separator or the end, is found in one way. -/
theorem append_run_unique {v w l l' : List α} (hv : ∀ c ∈ v, sep c = false)
    (hw : ∀ c ∈ w, sep c = false) (hl : ∀ c ∈ l.head?, sep c) (hl' : ∀ c ∈ l'.head?, sep c)
    (h : v ++ l = w ++ l') : v = w ∧ l = l' := by
  induction v generalizing w with
  | nil =>
    cases w with
    | nil => exact ⟨rfl, h⟩
    | cons c w =>
      have hc : sep c := hl c (by simpa using congrArg List.head? h)
      rw [hw c List.mem_cons_self] at hc
      cases hc
  | cons c v ih =>
    cases w with
    | nil =>
      have hc : sep c := hl' c (by simpa using (congrArg List.head? h).symm)
      rw [hv c List.mem_cons_self] at hc
      cases hc
    | cons d w =>
      obtain ⟨rfl, htail⟩ := List.cons.inj h
      obtain ⟨rfl, rfl⟩ := ih (fun c hc => hv c (List.mem_cons_of_mem _ hc))
        (fun c hc => hw c (List.mem_cons_of_mem _ hc)) htail
      exact ⟨rfl, rfl⟩

theorem isRun_append {v : List α} (hne : v ≠ []) (hv : ∀ c ∈ v, sep c = false)
    (hl : ∀ c ∈ l.head?, sep c) :
    IsRun sep (v ++ l) p w ↔ p = 0 ∧ w = v ∨ ∃ q, p = v.length + q ∧ IsRun sep l q w := by
  constructor
  · rintro ⟨hwne, hw, before, after, happ, rfl, hlast, hafter⟩
    rcases before.eq_nil_or_concat' with rfl | ⟨before, b, rfl⟩
    · obtain ⟨rfl, -⟩ := append_run_unique hv hw hl hafter happ
      exact Or.inl ⟨rfl, rfl⟩
    · have hb : sep b := hlast b (by simp)
      rw [List.append_assoc] at happ
      rcases List.append_eq_append_iff.mp happ with ⟨front, hfront, hrest⟩ | ⟨front, hfront, -⟩
      · rcases front.eq_nil_or_concat' with rfl | ⟨front, b', rfl⟩
        · have hmem : b ∈ v := by rw [← List.append_nil v, ← hfront]; simp
          rw [hv b hmem] at hb
          cases hb
        · refine Or.inr ⟨(front ++ [b']).length, ?_, hwne, hw, front ++ [b'], after,
            by simpa using hrest, rfl, fun d hd => ?_, hafter⟩
          · rw [hfront]
            simp
          · rw [← List.append_assoc] at hfront
            obtain ⟨-, hbb⟩ := List.append_inj' hfront rfl
            obtain rfl : b' = d := by simpa using hd
            rwa [← (List.cons.inj hbb).1]
      · have hmem : b ∈ v := by rw [hfront]; simp
        rw [hv b hmem] at hb
        cases hb
  · rintro (⟨rfl, rfl⟩ | ⟨q, rfl, hwne, hw, before, after, rfl, rfl, hlast, hafter⟩)
    · exact ⟨hne, hv, [], l, by simp, rfl, by simp, hl⟩
    · refine ⟨hwne, hw, v ++ before, after, by simp, by simp, fun d hd => ?_, hafter⟩
      cases before with
      | nil =>
        obtain ⟨c, u, rfl⟩ := List.exists_cons_of_ne_nil hwne
        have hc : sep c := hl c (by simp)
        rw [hw c List.mem_cons_self] at hc
        cases hc
      | cons b before =>
        rw [List.getLast?_append_cons] at hd
        exact hlast d hd

/-- All the maximal runs, and nothing else. -/
theorem mem_runsFrom_iff :
    (p, w) ∈ runsFrom sep pos l ↔ ∃ q, p = pos + q ∧ IsRun sep l q w := by
  induction hn : l.length using Nat.strongRecOn generalizing pos l with
  | ind n ih =>
    cases l with
    | nil =>
      refine ⟨fun h => by simp [runsFrom] at h, fun ⟨q, _, hne, _, before, after, h, _⟩ => ?_⟩
      simp at h
      exact absurd h.2.1 hne
    | cons c l =>
      by_cases hc : sep c
      · rw [runsFrom_sep hc, ih _ (by simp [← hn]) rfl]
        simp only [isRun_cons_sep hc]
        constructor
        · rintro ⟨q, rfl, hrun⟩
          exact ⟨q + 1, by omega, q, rfl, hrun⟩
        · rintro ⟨_, rfl, q, rfl, hrun⟩
          exact ⟨q, by omega, hrun⟩
      · obtain ⟨v, rest, happ, hv, hwords, hrest⟩ := exists_run (by simpa using hc) l
        rw [happ, runsFrom_run hv hwords hrest, List.mem_cons, Prod.mk.injEq]
        have hshort : rest.length < n := by
          have := congrArg List.length happ
          have := List.length_pos_iff.mpr hv
          simp at *
          omega
        rw [ih _ hshort rfl]
        simp only [isRun_append hv hwords hrest]
        constructor
        · rintro (⟨rfl, rfl⟩ | ⟨q, rfl, hrun⟩)
          · exact ⟨0, rfl, Or.inl ⟨rfl, rfl⟩⟩
          · exact ⟨v.length + q, by omega, Or.inr ⟨q, rfl, hrun⟩⟩
        · rintro ⟨_, rfl, ⟨rfl, rfl⟩ | ⟨q, rfl, hrun⟩⟩
          · exact Or.inl ⟨rfl, rfl⟩
          · exact Or.inr ⟨q, by omega, hrun⟩

theorem pairwise_runsFrom (sep : α → Bool) (pos : Nat) (l : List α) :
    (runsFrom sep pos l).Pairwise (·.1 < ·.1) := by
  fun_induction runsFrom sep pos l with
  | case1 => exact List.Pairwise.nil
  | case2 pos c l hc ih => exact ih
  | case3 pos c l hc run ih =>
    refine List.Pairwise.cons (fun r hr => ?_) ih
    obtain ⟨q, hq, -⟩ := mem_runsFrom_iff.mp hr
    have hrun : 0 < run.length := List.length_pos_iff.mpr (by simp [run, hc])
    omega

end maximal_runs
