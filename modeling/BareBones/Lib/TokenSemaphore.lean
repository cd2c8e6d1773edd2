-- A counting semaphore with a first-come queue that hands tokens over: a post
-- gives its token to the first waiter, and counts up only when nobody waits.
import Mathlib.Data.Multiset.AddSub
import Mathlib.Data.Multiset.Filter
import Mathlib.Data.Option.Basic

namespace token_semaphore

variable {α : Type}

structure Tokens (α : Type) where
  counter : Nat
  queue : List α
deriving DecidableEq

namespace Tokens

/-- A waiter takes a token, or joins the queue. -/
def wait (t : Tokens α) (a : α) : Tokens α :=
  if 0 < t.counter then { t with counter := t.counter - 1 }
  else { t with queue := t.queue ++ [a] }

/-- Who gets a token when `a` waits. -/
def waitGrants (t : Tokens α) (a : α) : List α := if 0 < t.counter then [a] else []

def post (t : Tokens α) : Tokens α :=
  match t.queue with
  | [] => { t with counter := t.counter + 1 }
  | _ :: rest => { t with queue := rest }

/-- Who gets the token of a post. -/
def postGrants (t : Tokens α) : List α := t.queue.take 1

end Tokens

/-- The past of a semaphore: who arrived, who got a token, and who posted, where
that is known. -/
structure Ledger (α : Type) where
  arrived : List α
  granted : List α
  posted : List (Option α)

def Ledger.wait (l : Ledger α) (t : Tokens α) (a : α) : Ledger α :=
  { l with arrived := l.arrived ++ [a], granted := l.granted ++ t.waitGrants a }

def Ledger.post (l : Ledger α) (t : Tokens α) (poster : Option α) : Ledger α :=
  { l with granted := l.granted ++ t.postGrants, posted := l.posted ++ [poster] }

/-! ## The books balance -/

/-- Each token is in the counter or was granted, tokens are left only when
nobody waits, and who arrived first is served first. -/
structure Balanced (n₀ : Nat) (t : Tokens α) (l : Ledger α) : Prop where
  count : t.counter + l.granted.length = n₀ + l.posted.length
  served : 0 < t.counter → t.queue = []
  order : l.arrived = l.granted ++ t.queue

theorem balanced_start (n₀ : Nat) : Balanced n₀ ⟨n₀, []⟩ (⟨[], [], []⟩ : Ledger α) :=
  ⟨rfl, fun _ => rfl, rfl⟩

theorem balanced_wait {n₀ : Nat} {t : Tokens α} {l : Ledger α} (h : Balanced n₀ t l) (a : α) :
    Balanced n₀ (t.wait a) (l.wait t a) := by
  have hcount := h.count
  unfold Tokens.wait Ledger.wait Tokens.waitGrants
  by_cases hpos : 0 < t.counter
  · rw [if_pos hpos, if_pos hpos]
    refine ⟨?_, fun _ => h.served hpos, ?_⟩
    · simp only [List.length_append, List.length_singleton]
      omega
    · simp [h.order, h.served hpos]
  · rw [if_neg hpos, if_neg hpos]
    refine ⟨?_, fun hc => absurd hc hpos, ?_⟩
    · simpa using hcount
    · simp [h.order]

theorem balanced_post {n₀ : Nat} {t : Tokens α} {l : Ledger α} (h : Balanced n₀ t l)
    (poster : Option α) : Balanced n₀ t.post (l.post t poster) := by
  have hcount := h.count
  unfold Tokens.post Ledger.post Tokens.postGrants
  cases hq : t.queue with
  | nil =>
    refine ⟨?_, fun _ => rfl, ?_⟩
    · simp only [List.take_nil, List.append_nil, List.length_append, List.length_singleton]
      omega
    · simp [h.order, hq]
  | cons a rest =>
    have hzero : t.counter = 0 := by
      by_contra hne
      have := h.served (by omega)
      rw [hq] at this
      cases this
    refine ⟨?_, fun hc => absurd hc (by simp [hzero]), ?_⟩
    · simp only [List.take_succ_cons, List.take_zero, List.length_append, List.length_singleton]
      omega
    · simp [h.order, hq]

/-! ## One token -/

/-- `a` got a token that it did not post back. -/
def Ledger.Holds [DecidableEq α] (l : Ledger α) (a : α) : Prop :=
  (l.posted : Multiset (Option α)).count (some a) < l.granted.count a

/-- Each post gives back a token that its poster got. -/
def Ledger.Fair (l : Ledger α) : Prop :=
  (l.posted : Multiset (Option α)) ≤ (l.granted.map some : List (Option α))

section Holds

variable [DecidableEq α]

instance (l : Ledger α) (a : α) : Decidable (l.Holds a) := by
  unfold Ledger.Holds
  infer_instance

theorem count_granted (l : Ledger α) (a : α) :
    ((l.granted.map some : List (Option α)) : Multiset (Option α)).count (some a) =
      l.granted.count a := by
  rw [← Multiset.map_coe, Multiset.count_map_eq_count' _ _ (Option.some_injective α),
    Multiset.coe_count]

omit [DecidableEq α] in
theorem fair_start : (⟨[], [], []⟩ : Ledger α).Fair := Multiset.zero_le _

omit [DecidableEq α] in
theorem fair_grant {l : Ledger α} (h : l.Fair) (as arrived : List α) :
    Ledger.Fair ⟨arrived, l.granted ++ as, l.posted⟩ := by
  unfold Ledger.Fair
  rw [List.map_append, ← Multiset.coe_add]
  exact h.trans (Multiset.le_add_right _ _)

/-- Who holds a token may post it. -/
theorem fair_post {l : Ledger α} (h : l.Fair) {a : α} (ha : l.Holds a) (t : Tokens α) :
    (l.post t (some a)).Fair := by
  have hpost : Ledger.Fair ⟨l.arrived, l.granted, l.posted ++ [some a]⟩ := by
    unfold Ledger.Fair
    rw [Multiset.le_iff_count]
    intro b
    have hb := Multiset.le_iff_count.mp h b
    dsimp only
    rw [← Multiset.coe_add, Multiset.count_add, Multiset.coe_singleton, Multiset.count_singleton]
    split
    · rename_i hab
      rw [hab, count_granted]
      exact ha
    · exact hb
  exact fair_grant hpost _ _

/-- The tokens that were granted and not posted back. -/
def Ledger.out (l : Ledger α) : Multiset (Option α) :=
  (l.granted.map some : List (Option α)) - (l.posted : Multiset (Option α))

theorem card_out {n₀ : Nat} {t : Tokens α} {l : Ledger α} (h : Balanced n₀ t l) (hf : l.Fair) :
    t.counter + l.out.card = n₀ := by
  have hcount := h.count
  have hle := Multiset.card_le_card hf
  have hcard : l.out.card = l.granted.length - l.posted.length := by
    rw [Ledger.out, Multiset.card_sub hf, Multiset.coe_card, Multiset.coe_card, List.length_map]
  rw [Multiset.coe_card, Multiset.coe_card, List.length_map] at hle
  omega

theorem mem_out {l : Ledger α} {a : α} (ha : l.Holds a) : some a ∈ l.out := by
  rw [← Multiset.count_pos, Ledger.out, Multiset.count_sub, count_granted]
  exact Nat.sub_pos_of_lt ha

/-- While somebody holds a token, it is missing from the counter. -/
theorem counter_lt {n₀ : Nat} {t : Tokens α} {l : Ledger α} (h : Balanced n₀ t l) (hf : l.Fair)
    {a : α} (ha : l.Holds a) : t.counter < n₀ := by
  have hcard := card_out h hf
  have hpos : 0 < l.out.card := Multiset.card_pos_iff_exists_mem.mpr ⟨some a, mem_out ha⟩
  omega

/-- What is missing from the counter, somebody holds. -/
theorem exists_holds {n₀ : Nat} {t : Tokens α} {l : Ledger α} (h : Balanced n₀ t l) (hf : l.Fair)
    (hlt : t.counter < n₀) : ∃ a, l.Holds a := by
  have hcard := card_out h hf
  obtain ⟨x, hx⟩ := Multiset.card_pos_iff_exists_mem.mp (show 0 < l.out.card by omega)
  have hgranted : x ∈ l.granted.map some := Multiset.mem_of_le (Multiset.sub_le_self _ _) hx
  obtain ⟨a, -, rfl⟩ := List.mem_map.mp hgranted
  refine ⟨a, ?_⟩
  have hcount := Multiset.count_pos.mpr hx
  rw [Ledger.out, Multiset.count_sub, count_granted] at hcount
  exact Nat.lt_of_sub_pos hcount

/-- With a single token at most one holds it. -/
theorem one_holds {t : Tokens α} {l : Ledger α} (h : Balanced 1 t l) (hf : l.Fair) {a b : α}
    (ha : l.Holds a) (hb : l.Holds b) : a = b := by
  by_contra hne
  have hcard := card_out h hf
  have hle : ({some a, some b} : Multiset (Option α)) ≤ l.out := by
    rw [Multiset.le_iff_subset (by simpa using hne)]
    intro c hc
    rcases Multiset.mem_cons.mp hc with rfl | hc
    · exact mem_out ha
    · rw [Multiset.mem_singleton.mp hc]
      exact mem_out hb
  have htwo := Multiset.card_le_card hle
  rw [Multiset.card_pair] at htwo
  omega

/-- Who arrived once more than it posted, and does not wait, holds a token. -/
theorem holds_of_count {n₀ : Nat} {t : Tokens α} {l : Ledger α} (h : Balanced n₀ t l) {a : α}
    (hcount : l.arrived.count a = (l.posted : Multiset (Option α)).count (some a) + 1)
    (hq : a ∉ t.queue) : l.Holds a := by
  rw [h.order, List.count_append, List.count_eq_zero.mpr hq] at hcount
  unfold Ledger.Holds
  omega

end Holds

/-! ## Tokens in flight -/

/-- `claims` calls went into a wait and did not use their token yet, the queue
included: together with the counter they account for `tokens` tokens. -/
def InFlight (t : Tokens α) (claims tokens : Nat) : Prop :=
  t.counter + claims = tokens + t.queue.length

theorem inFlight_wait {t : Tokens α} {claims tokens : Nat} (h : InFlight t claims tokens) (a : α) :
    InFlight (t.wait a) (claims + 1) tokens := by
  unfold InFlight Tokens.wait at *
  split
  · dsimp only
    omega
  · simp only [List.length_append, List.length_singleton]
    omega

theorem inFlight_post {t : Tokens α} {claims tokens : Nat} (h : InFlight t claims tokens) :
    InFlight t.post claims (tokens + 1) := by
  unfold InFlight Tokens.post at *
  cases hq : t.queue with
  | nil =>
    rw [hq] at h
    simp only [List.length_nil] at h ⊢
    omega
  | cons a rest =>
    rw [hq] at h
    simp only [List.length_cons] at h ⊢
    omega

/-- Who uses its token takes it out of the count. -/
theorem inFlight_use {t : Tokens α} {claims tokens : Nat}
    (h : InFlight t (claims + 1) (tokens + 1)) : InFlight t claims tokens := by
  unfold InFlight at *
  omega

end token_semaphore
