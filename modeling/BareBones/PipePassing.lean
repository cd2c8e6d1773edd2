-- The gates of a pipe with the calls that are past them, whatever the tokens stand for:
-- what a wait, a post and the use of a token do to the account of each gate.
import BareBones.PipeGates
import Mathlib.Algebra.BigOperators.Group.Finset.Piecewise

namespace bare_bones.pipe_manager

open bare_bones.doubleLinkedList bare_bones.process bare_bones.scheduler bare_bones.semaphore
open bare_bones.program runs token_semaphore

variable {H : Type}

/-- `past p g` is 1 while `p` is past the wait of `g`, or blocked in it, and did not use its
token. `tokens` counts those in the counter and those that were granted. -/
structure Passing (ps : Finset Pcb) (ids : Gate → Int) (s : System H) (past : Pcb → Gate → Nat)
    (tokens : Gate → Nat) : Prop where
  gates : Gates ids s
  flight : ∀ g, InFlight (s.tokens (ids g)) (∑ p ∈ ps, past p g) (tokens g)
  blocked : ∀ g, ∀ p ∈ s.blockedOn (ids g), p ∈ ps ∧ past p g = 1
  le_one : ∀ p g, past p g ≤ 1

/-- `past` with another entry for `p` and `g`. -/
def setPast (past : Pcb → Gate → Nat) (p : Pcb) (g : Gate) (n : Nat) : Pcb → Gate → Nat :=
  Function.update past p (Function.update (past p) g n)

theorem setPast_self (past : Pcb → Gate → Nat) (p : Pcb) (g : Gate) (n : Nat) :
    setPast past p g n p g = n := by
  rw [setPast, Function.update_self, Function.update_self]

theorem setPast_gate {past : Pcb → Gate → Nat} {p q : Pcb} {g g' : Gate} {n : Nat} (h : g' ≠ g) :
    setPast past p g n q g' = past q g' := by
  rw [setPast]
  by_cases hq : q = p
  · rw [hq, Function.update_self, Function.update_of_ne h]
  · rw [Function.update_of_ne hq]

theorem setPast_pcb {past : Pcb → Gate → Nat} {p q : Pcb} {g : Gate} {n : Nat} (h : q ≠ p) :
    setPast past p g n q = past q := Function.update_of_ne h _ _

theorem sum_setPast (past : Pcb → Gate → Nat) {ps : Finset Pcb} {p : Pcb} (hp : p ∈ ps) (g : Gate)
    (n : Nat) : ∑ q ∈ ps, setPast past p g n q g + past p g = ∑ q ∈ ps, past q g + n := by
  have hsum := tally_update (fun l : Gate → Nat => l g) past hp (Function.update (past p) g n)
  rwa [Function.update_self] at hsum

theorem setPast_le_one {past : Pcb → Gate → Nat} (h : ∀ p g, past p g ≤ 1) (p : Pcb) (g : Gate)
    {n : Nat} (hn : n ≤ 1) : ∀ q g', setPast past p g n q g' ≤ 1 := by
  intro q g'
  by_cases hg : g' = g
  · subst hg
    by_cases hq : q = p
    · rw [hq, setPast_self]
      exact hn
    · rw [setPast_pcb hq]
      exact h q g'
  · rw [setPast_gate hg]
    exact h q g'

/-! ## Who is blocked after a call -/

section Blocked

variable [MemoryManager H] {ids : Gate → Int} {s : System H} {p q : Pcb} {g g' : Gate}

theorem blockedOn_wait (hn : Serves H NODE_SIZE) (hm : Serves H PID_SIZE)
    (hids : Function.Injective ids) (h : Gates ids s)
    (hcur : s.scheduler.currentProcess = some p) {rsp : Addr}
    (hok : ownCall ids s (.sem_wait (ids g) rsp))
    (hq : q ∈ (step s (.sem_wait (ids g) rsp)).blockedOn (ids g')) :
    q ∈ s.blockedOn (ids g') ∨ (q = p ∧ g' = g) := by
  have hq' : q ∈ (if g' = g then (s.tokens (ids g)).wait p else s.tokens (ids g')).queue :=
    (gates_wait hn hm hids h hok hcur).2 g' ▸ hq
  split at hq'
  · rename_i hg
    subst hg
    unfold Tokens.wait at hq'
    split at hq'
    · exact Or.inl hq'
    · exact (List.mem_append.mp hq').imp_right fun hq => ⟨List.mem_singleton.mp hq, rfl⟩
  · exact Or.inl hq'

theorem blockedOn_post (hn : Serves H NODE_SIZE) (hids : Function.Injective ids) (h : Gates ids s)
    (hok : ownCall ids s (.sem_post (ids g)))
    (hroom : (s.tokens (ids g)).counter + 1 < 2 ^ 32)
    (hq : q ∈ (step s (.sem_post (ids g))).blockedOn (ids g')) : q ∈ s.blockedOn (ids g') := by
  have hq' : q ∈ (if g' = g then (s.tokens (ids g)).post else s.tokens (ids g')).queue :=
    (gates_post hn hids h hok hroom).2 g' ▸ hq
  split at hq'
  · rename_i hg
    subst hg
    unfold Tokens.post at hq'
    split at hq'
    · exact hq'
    · rename_i a rest he
      show q ∈ (s.tokens (ids g')).queue
      rw [he]
      exact List.mem_cons_of_mem a hq'
  · exact hq'

end Blocked

namespace Passing

variable {ps : Finset Pcb} {ids : Gate → Int} {s : System H} {past : Pcb → Gate → Nat}
  {tokens : Gate → Nat} {p : Pcb} {g : Gate}

theorem congr (h : Passing ps ids s past tokens) {past' : Pcb → Gate → Nat} {tokens' : Gate → Nat}
    (hpast : ∀ p g, past' p g = past p g) (htokens : ∀ g, tokens' g = tokens g) :
    Passing ps ids s past' tokens' := by
  obtain rfl : past' = past := funext fun p => funext (hpast p)
  obtain rfl : tokens' = tokens := funext htokens
  exact h

theorem not_blocked (h : Passing ps ids s past tokens)
    (hcur : s.scheduler.currentProcess = some p) (g : Gate) : p ∉ s.blockedOn (ids g) :=
  fun hb => h.gates.sound.inv.not_blocked p hcur (h.gates.sound.asleep _ (mem_blockedOn.mp hb)).2

/-- Those past the gate are those who were granted and those who are blocked. -/
theorem claims_eq (h : Passing ps ids s past tokens) (g : Gate) :
    ∑ p ∈ ps, past p g = (ps.filter fun p => past p g = 1 ∧ p ∉ s.blockedOn (ids g)).card +
      (s.blockedOn (ids g)).length := by
  have hnodup : (s.blockedOn (ids g)).Nodup := (nodup_blockedOn h.gates.sound (ids g)).of_map _
  have hqueue : (s.blockedOn (ids g)).length =
      (ps.filter fun p => p ∈ s.blockedOn (ids g)).card := by
    rw [← List.toFinset_card_of_nodup hnodup]
    congr 1
    ext p
    rw [List.mem_toFinset, Finset.mem_filter]
    exact ⟨fun hp => ⟨(h.blocked g p hp).1, hp⟩, fun hp => hp.2⟩
  rw [hqueue, Finset.card_filter, Finset.card_filter, ← Finset.sum_add_distrib]
  apply Finset.sum_congr rfl
  intro p _
  by_cases hb : p ∈ s.blockedOn (ids g)
  · simp [hb, (h.blocked g p hb).2]
  · rcases Nat.le_one_iff_eq_zero_or_eq_one.mp (h.le_one p g) with h0 | h1
    · simp [hb, h0]
    · simp [hb, h1]

/-- A token is in the counter or was granted. -/
theorem counter_add (h : Passing ps ids s past tokens) (g : Gate) :
    (s.tokens (ids g)).counter +
      (ps.filter fun p => past p g = 1 ∧ p ∉ s.blockedOn (ids g)).card = tokens g := by
  have hflight := h.flight g
  have hclaims := h.claims_eq g
  have hlen : (s.tokens (ids g)).queue.length = (s.blockedOn (ids g)).length := rfl
  unfold InFlight at hflight
  omega

theorem counter_le (h : Passing ps ids s past tokens) (g : Gate) :
    (s.tokens (ids g)).counter ≤ tokens g :=
  h.counter_add g ▸ Nat.le_add_right _ _

/-- Who is past the gate and not blocked accounts for a token. -/
theorem tokens_pos (h : Passing ps ids s past tokens) (hp : p ∈ ps) (hpast : past p g = 1)
    (hb : p ∉ s.blockedOn (ids g)) : 0 < tokens g := by
  have hadd := h.counter_add g
  have hpos : 0 < (ps.filter fun p => past p g = 1 ∧ p ∉ s.blockedOn (ids g)).card :=
    Finset.card_pos.mpr ⟨p, Finset.mem_filter.mpr ⟨hp, hpast, hb⟩⟩
  omega

/-- The current process uses its token. -/
theorem use (h : Passing ps ids s past tokens) (hp : p ∈ ps)
    (hcur : s.scheduler.currentProcess = some p) (hpast : past p g = 1) :
    Passing ps ids s (setPast past p g 0) (Function.update tokens g (tokens g - 1)) := by
  have hpos := h.tokens_pos hp hpast (h.not_blocked hcur g)
  refine ⟨h.gates, fun g' => ?_, fun g' q hq => ⟨(h.blocked g' q hq).1, ?_⟩,
    setPast_le_one h.le_one p g (Nat.zero_le 1)⟩
  · have hflight := h.flight g'
    by_cases hg : g' = g
    · subst hg
      have hsum := sum_setPast past hp g' 0
      rw [Function.update_self]
      rw [hpast, Nat.add_zero (∑ q ∈ ps, past q g')] at hsum
      rw [← hsum, ← Nat.sub_add_cancel hpos] at hflight
      exact inFlight_use hflight
    · rw [Function.update_of_ne hg, Finset.sum_congr rfl fun q _ => setPast_gate hg]
      exact hflight
  · have hne : q ≠ p := fun he => h.not_blocked hcur g' (he ▸ hq)
    rw [setPast_pcb hne]
    exact (h.blocked g' q hq).2

section Calls

variable [MemoryManager H]

/-- A call elsewhere. -/
theorem other (hn : Serves H NODE_SIZE) (h : Passing ps ids s past tokens) {c : Call}
    (hok : otherCall ids s c) : Passing ps ids (step s c) past tokens := by
  obtain ⟨hgates, htokens⟩ := gates_other hn h.gates hok
  refine ⟨hgates, fun g => ?_, fun g p hp => ?_, h.le_one⟩
  · rw [htokens g]
    exact h.flight g
  · have hqueue : (step s c).blockedOn (ids g) = s.blockedOn (ids g) :=
      congrArg Tokens.queue (htokens g)
    exact h.blocked g p (hqueue ▸ hp)

/-- The current process waits at a gate. -/
theorem wait (hn : Serves H NODE_SIZE) (hm : Serves H PID_SIZE) (hids : Function.Injective ids)
    (h : Passing ps ids s past tokens) (hp : p ∈ ps)
    (hcur : s.scheduler.currentProcess = some p) (hpast : past p g = 0) {rsp : Addr}
    (hok : ownCall ids s (.sem_wait (ids g) rsp)) :
    Passing ps ids (step s (.sem_wait (ids g) rsp)) (setPast past p g 1) tokens := by
  obtain ⟨hgates, htokens⟩ := gates_wait hn hm hids h.gates hok hcur
  refine ⟨hgates, fun g' => ?_, fun g' q hq => ?_, setPast_le_one h.le_one p g (Nat.le_refl 1)⟩
  · have hflight := h.flight g'
    rw [htokens g']
    by_cases hg : g' = g
    · subst hg
      have hsum := sum_setPast past hp g' 1
      rw [hpast, Nat.add_zero] at hsum
      rw [if_pos rfl, hsum]
      exact inFlight_wait hflight p
    · rw [if_neg hg, Finset.sum_congr rfl fun q _ => setPast_gate hg]
      exact hflight
  · rcases blockedOn_wait hn hm hids h.gates hcur hok hq with hb | ⟨rfl, rfl⟩
    · have hne : q ≠ p := fun he => h.not_blocked hcur g' (he ▸ hb)
      rw [setPast_pcb hne]
      exact h.blocked g' q hb
    · exact ⟨hp, setPast_self past q g' 1⟩

/-- A post brings a token. -/
theorem post (hn : Serves H NODE_SIZE) (hids : Function.Injective ids)
    (h : Passing ps ids s past tokens) (hok : ownCall ids s (.sem_post (ids g)))
    (hroom : tokens g + 1 < 2 ^ 32) :
    Passing ps ids (step s (.sem_post (ids g))) past
      (Function.update tokens g (tokens g + 1)) := by
  have hroom' : (s.tokens (ids g)).counter + 1 < 2 ^ 32 :=
    Nat.lt_of_le_of_lt (Nat.add_le_add_right (h.counter_le g) 1) hroom
  obtain ⟨hgates, htokens⟩ := gates_post hn hids h.gates hok hroom'
  refine ⟨hgates, fun g' => ?_,
    fun g' q hq => h.blocked g' q (blockedOn_post hn hids h.gates hok hroom' hq), h.le_one⟩
  have hflight := h.flight g'
  rw [htokens g']
  by_cases hg : g' = g
  · subst hg
    rw [if_pos rfl, Function.update_self]
    exact inFlight_post hflight
  · rw [if_neg hg, Function.update_of_ne hg]
    exact hflight

/-- The current process leaves its critical section: it used the token of the mutex, and
brings it back. -/
theorem leave (hn : Serves H NODE_SIZE) (hids : Function.Injective ids)
    (h : Passing ps ids s past tokens) (hp : p ∈ ps)
    (hcur : s.scheduler.currentProcess = some p) (hpast : past p .mutex = 1)
    (hmutex : tokens .mutex = 1) (hok : ownCall ids s (.sem_post (ids .mutex))) :
    Passing ps ids (step s (.sem_post (ids .mutex))) (setPast past p .mutex 0) tokens := by
  have hused := h.use hp hcur hpast
  have hposted := hused.post hn hids hok (by
    rw [Function.update_self, hmutex]
    decide)
  refine hposted.congr (fun _ _ => rfl) fun g => ?_
  rw [Function.update_self, Function.update_idem, hmutex]
  by_cases hg : g = .mutex
  · rw [hg, Function.update_self, hmutex]
  · rw [Function.update_of_ne hg]

omit [MemoryManager H] in
/-- Who moves a byte uses the tokens of its gate and of the mutex, and has no other. -/
theorem moved {w : Way} (hposts : past p w.posts = 0) (g : Gate) :
    setPast (setPast past p w.gate 0) p .mutex 0 p g = 0 := by
  by_cases hgm : g = .mutex
  · rw [hgm, setPast_self]
  rw [setPast_gate hgm]
  by_cases hgg : g = w.gate
  · rw [hgg, setPast_self]
  rw [setPast_gate hgg]
  have hgp : g = w.posts := by
    cases g <;> cases w <;> simp_all [Way.gate, Way.posts]
  rw [hgp]
  exact hposts

/-- A byte moves: the current process uses a token of one gate, leaves the mutex, and brings
a token to the other gate. Nobody blocks. -/
theorem move (hn : Serves H NODE_SIZE) (hids : Function.Injective ids)
    (h : Passing ps ids s past tokens) (hp : p ∈ ps)
    (hcur : s.scheduler.currentProcess = some p) {w : Way} (hgate : past p w.gate = 1)
    (hpast : past p .mutex = 1) (hmutex : tokens .mutex = 1)
    (hok : Meets step (ownCall ids) s [.sem_post (ids .mutex), .sem_post (ids w.posts)])
    (hroom : tokens w.posts + 1 < 2 ^ 32) :
    Passing ps ids (run step s [.sem_post (ids .mutex), .sem_post (ids w.posts)])
        (setPast (setPast past p w.gate 0) p .mutex 0)
        (Function.update (Function.update tokens w.gate (tokens w.gate - 1)) w.posts
          (tokens w.posts + 1)) ∧
      ∀ g, ∀ q ∈ (run step s [.sem_post (ids .mutex), .sem_post (ids w.posts)]).blockedOn (ids g),
        q ∈ s.blockedOn (ids g) := by
  have hgateMutex : w.gate ≠ .mutex := by cases w <;> decide
  have hpostsGate : w.posts ≠ w.gate := by cases w <;> decide
  have hused := h.use hp hcur hgate
  have hleft := hused.leave hn hids hp hcur ((setPast_gate hgateMutex.symm).trans hpast)
    ((Function.update_of_ne hgateMutex.symm _ _).trans hmutex) hok.1
  have hroom' : (Function.update tokens w.gate (tokens w.gate - 1)) w.posts + 1 < 2 ^ 32 := by
    rw [Function.update_of_ne hpostsGate]
    exact hroom
  have hposted := hleft.post hn hids hok.2.1 hroom'
  rw [Function.update_of_ne hpostsGate] at hposted
  refine ⟨hposted, fun g q hq => ?_⟩
  have hfirst : (s.tokens (ids .mutex)).counter + 1 < 2 ^ 32 := by
    have hle := h.counter_le .mutex
    omega
  exact blockedOn_post hn hids h.gates hok.1 hfirst (blockedOn_post hn hids hleft.gates hok.2.1
    (Nat.lt_of_le_of_lt (Nat.add_le_add_right (hleft.counter_le _) 1) hroom') hq)

end Calls

end Passing

end bare_bones.pipe_manager
