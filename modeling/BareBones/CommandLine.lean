-- `split_args` over the bytes of a line. A pointer into the line is an index, and an
-- access outside of it is a fault.
import BareBones.ShellLines
import BareBones.Lib.MaximalRuns

namespace bare_bones.commandLine

open maximal_runs
open bare_bones.shell (Word MAX_ARGS)

abbrev Line := List UInt8

/-- `char *argv[MAX_ARGS]`. -/
abbrev Argv := Fin MAX_ARGS → Option Nat

/-- `while (*args == ' ') args++`. -/
def skipBlanks (chars : Line) (args : Nat) : Option Nat :=
  if h : args < chars.length then
    if chars[args] = 32 then skipBlanks chars (args + 1) else some args
  else none
termination_by chars.length - args

/-- `while (*args && *args != ' ') args++`. -/
def skipWord (chars : Line) (args : Nat) : Option Nat :=
  if h : args < chars.length then
    if chars[args] ≠ 0 ∧ chars[args] ≠ 32 then skipWord chars (args + 1) else some args
  else none
termination_by chars.length - args

/-- A blank behind a word becomes its terminator, and the ones behind it are skipped. -/
def endWord (chars : Line) (args : Nat) : Option (Line × Nat) :=
  match chars[args]? with
  | none => none
  | some c =>
    if c = 32 then
      (skipBlanks (chars.set args 0) (args + 1)).map fun next => (chars.set args 0, next)
    else some (chars, args)

/-- The loop over the words. -/
def splitFrom (chars : Line) (args argc : Nat) (argv : Argv) : Option (Nat × Line × Argv) :=
  match chars[args]? with
  | none => none
  | some c =>
    if h : c ≠ 0 ∧ argc < MAX_ARGS then
      match (skipWord chars args).bind (endWord chars) with
      | none => none
      | some (chars, next) =>
        splitFrom chars next (argc + 1) (Function.update argv ⟨argc, h.2⟩ (some args))
    else some (argc, chars, argv)
termination_by MAX_ARGS - argc
decreasing_by omega

/-- Gives the number of words, or -1, with the line and the array after it. -/
def split_args (args : Option Nat) (out_argv : Option Argv) (line : Line) :
    Option (Int × Line × Option Argv) :=
  match out_argv, args with
  | some argv, some args =>
    match (skipBlanks line args).bind fun args => splitFrom line args 0 argv with
    | none => none
    | some (argc, line, argv) =>
      some (argc, line, some fun i => if argc ≤ i then none else argv i)
  | _, _ => some (-1, line, out_argv)

/-! ## The loops over blanks and characters -/

theorem getElem?_mid (before after : Line) (c : UInt8) :
    (before ++ c :: after)[before.length]? = some c := by simp

theorem skipBlanks_step (before after : Line) :
    skipBlanks (before ++ 32 :: after) before.length =
      skipBlanks (before ++ 32 :: after) (before.length + 1) := by
  rw [skipBlanks, dif_pos (by simp), if_pos (by simp)]

theorem skipBlanks_stop {c : UInt8} (hc : c ≠ 32) (before after : Line) :
    skipBlanks (before ++ c :: after) before.length = some before.length := by
  rw [skipBlanks, dif_pos (by simp), if_neg (by simpa using hc)]

theorem skipBlanks_spec {blanks : Line} (hblanks : ∀ c ∈ blanks, c = 32) {c : UInt8}
    (hc : c ≠ 32) (before after : Line) :
    skipBlanks (before ++ blanks ++ c :: after) before.length =
      some (before ++ blanks).length := by
  induction blanks generalizing before with
  | nil => simpa using skipBlanks_stop hc before after
  | cons b blanks ih =>
    obtain rfl := hblanks b List.mem_cons_self
    have hrest := ih (fun c hc => hblanks c (List.mem_cons_of_mem _ hc)) (before ++ [32])
    rw [List.append_assoc, List.cons_append, skipBlanks_step]
    simpa using hrest

theorem skipWord_spec {w : Word} (hw : ∀ c ∈ w, c ≠ 0 ∧ c ≠ 32) {c : UInt8}
    (hc : c = 0 ∨ c = 32) (before after : Line) :
    skipWord (before ++ w ++ c :: after) before.length = some (before ++ w).length := by
  induction w generalizing before with
  | nil =>
    have hstop : ¬ (c ≠ 0 ∧ c ≠ 32) := fun h => hc.elim h.1 h.2
    rw [skipWord, dif_pos (by simp), if_neg (by simpa using hstop)]
    simp
  | cons d w ih =>
    have hrest := ih (fun c hc => hw c (List.mem_cons_of_mem _ hc)) (before ++ [d])
    rw [skipWord, dif_pos (by simp), if_pos (by simpa using hw d List.mem_cons_self)]
    simpa using hrest

/-- At the end of the line nothing is written. -/
theorem endWord_end (before after : Line) :
    endWord (before ++ 0 :: after) before.length = some (before ++ 0 :: after, before.length) := by
  rw [endWord, getElem?_mid]
  rfl

theorem endWord_blank {blanks : Line} (hblanks : ∀ c ∈ blanks, c = 32) {c : UInt8}
    (hc : c ≠ 32) (before after : Line) :
    endWord (before ++ 32 :: (blanks ++ c :: after)) before.length =
      some (before ++ 0 :: (blanks ++ c :: after), (before ++ 0 :: blanks).length) := by
  have hset : (before ++ 32 :: (blanks ++ c :: after)).set before.length 0 =
      before ++ [0] ++ blanks ++ c :: after := by simp
  have hskip := skipBlanks_spec hblanks hc (before ++ [0]) after
  rw [List.length_append, List.length_singleton] at hskip
  rw [endWord, getElem?_mid]
  dsimp only
  rw [if_pos rfl, hset, hskip, Option.map_some]
  simp

/-! ## The loop over words -/

/-- `bs` is in the line, from `p` on. -/
def HoldsAt (line : Line) (p : Nat) (bs : List UInt8) : Prop :=
  ∃ before after, line = before ++ bs ++ after ∧ before.length = p

def isBlank (c : UInt8) : Bool := c = 32

/-- What the loop leaves of the characters `chars` behind `before`, when there is room
for `room` words and the array is filled up to `argc`. -/
structure Split (before chars : Line) (argc : Nat) (argv : Argv) (chars' : Line) (found : Nat)
    (argv' : Argv) : Prop where
  found : found = min (runsFrom isBlank before.length chars).length (MAX_ARGS - argc)
  length : chars'.length = chars.length
  kept : ∀ i, i.val < argc → argv' i = argv i
  pointers : ∀ i r, argc ≤ i.val → (runsFrom isBlank before.length chars)[i.val - argc]? = some r →
    argv' i = some r.1 ∧ HoldsAt (before ++ chars' ++ [0]) r.1 (r.2 ++ [0])

theorem head_dropWhile_isBlank (l : Line) : ∀ c ∈ (l.dropWhile isBlank).head?, c ≠ 32 := by
  intro c hc h
  have := List.head?_dropWhile_not isBlank l
  rw [Option.mem_def.mp hc, h] at this
  cases this

/-- A word and what is behind it: blanks, the first of which becomes a terminator, or the
end of the line. -/
theorem nextWord_spec {w rest : Line} (hw : ∀ c ∈ w, c ≠ 0 ∧ c ≠ 32)
    (hchars : ∀ c ∈ rest, c ≠ 0) (hrest : ∀ c ∈ rest.head?, isBlank c) (before after : Line) :
    ∃ gap gap' chars, rest = gap ++ chars ∧ (∀ c ∈ gap, isBlank c) ∧
      (∀ c ∈ chars.head?, c ≠ 32) ∧ gap'.length = gap.length ∧
      (gap'.head? = some 0 ∨ gap' = [] ∧ chars = []) ∧
      (skipWord (before ++ w ++ (rest ++ 0 :: after)) before.length).bind
          (endWord (before ++ w ++ (rest ++ 0 :: after))) =
        some (before ++ w ++ gap' ++ chars ++ 0 :: after, (before ++ w ++ gap').length) := by
  cases rest with
  | nil =>
    refine ⟨[], [], [], rfl, by simp, by simp, rfl, Or.inr ⟨rfl, rfl⟩, ?_⟩
    rw [List.nil_append, skipWord_spec hw (Or.inl rfl)]
    simpa using endWord_end (before ++ w) after
  | cons c rest =>
    have hc : c = 32 := by simpa [isBlank] using hrest c rfl
    subst hc
    have hblanks : ∀ c ∈ rest.takeWhile isBlank, c = 32 := fun c hc => by
      simpa [isBlank] using List.mem_takeWhile_imp hc
    have hhead := head_dropWhile_isBlank rest
    have hend : ∃ d after', rest.dropWhile isBlank ++ 0 :: after = d :: after' ∧ d ≠ 32 := by
      cases hdrop : rest.dropWhile isBlank with
      | nil => exact ⟨0, after, rfl, by decide⟩
      | cons d chars => exact ⟨d, chars ++ 0 :: after, rfl, hhead d (by rw [hdrop]; rfl)⟩
    obtain ⟨d, after', hafter, hd⟩ := hend
    have hline : rest ++ 0 :: after = rest.takeWhile isBlank ++ d :: after' := by
      rw [← hafter, ← List.append_assoc, List.takeWhile_append_dropWhile]
    refine ⟨32 :: rest.takeWhile isBlank, 0 :: rest.takeWhile isBlank, rest.dropWhile isBlank,
      by simp [List.takeWhile_append_dropWhile], ?_, hhead, rfl, Or.inl rfl, ?_⟩
    · rintro c (_ | ⟨_, hc⟩)
      · rfl
      · exact List.mem_takeWhile_imp hc
    · rw [List.cons_append, hline, skipWord_spec hw (Or.inr rfl), Option.bind_some,
        endWord_blank hblanks hd, ← hline]
      simp only [List.append_assoc, List.cons_append]
      rw [← List.append_assoc (rest.takeWhile isBlank), List.takeWhile_append_dropWhile]

theorem Split.none {before : Line} {argc : Nat} {argv : Argv} :
    Split before [] argc argv [] 0 argv where
  found := by simp [runsFrom]
  length := rfl
  kept _ _ := rfl
  pointers i r _ hr := by simp [runsFrom] at hr

theorem splitFrom_spec (room : Nat) {argc : Nat} (hargc : argc + room = MAX_ARGS)
    (before chars after : Line) (argv : Argv) (hchars : ∀ c ∈ chars, c ≠ 0)
    (hhead : ∀ c ∈ chars.head?, c ≠ 32) :
    ∃ chars' found argv', splitFrom (before ++ chars ++ 0 :: after) before.length argc argv =
        some (argc + found, before ++ chars' ++ 0 :: after, argv') ∧
      Split before chars argc argv chars' found argv' := by
  induction room generalizing argc before chars argv with
  | zero =>
    refine ⟨chars, 0, argv, ?_, by omega, rfl, fun _ _ => rfl, fun i r hi => ?_⟩
    · cases chars with
      | nil => simp [splitFrom]
      | cons c chars =>
        have hfull : ¬ argc < MAX_ARGS := by omega
        simp [splitFrom, hfull]
    · have := i.isLt
      omega
  | succ room ih =>
    cases chars with
    | nil => exact ⟨[], 0, argv, by simp [splitFrom], Split.none⟩
    | cons c chars =>
      have hc32 : isBlank c = false := by simpa [isBlank] using hhead c rfl
      obtain ⟨w, rest, happ, hne, hwords, hrest⟩ := exists_run hc32 chars
      rw [happ] at hchars ⊢
      have hw : ∀ c ∈ w, c ≠ 0 ∧ c ≠ 32 := fun c hc =>
        ⟨hchars c (List.mem_append_left _ hc), by simpa [isBlank] using hwords c hc⟩
      obtain ⟨gap, gap', chars₂, rfl, hgap, hhead₂, hlen, hzero, hnext⟩ :=
        nextWord_spec hw (fun c hc => hchars c (List.mem_append_right _ hc)) hrest before after
      have hlt : argc < MAX_ARGS := by omega
      have hroom : argc + 1 + room = MAX_ARGS := by omega
      obtain ⟨chars', found, argv', hrun, hsplit⟩ := ih hroom
        (before ++ w ++ gap') chars₂ (Function.update argv ⟨argc, hlt⟩ (some before.length))
        (fun c hc => hchars c (by simp [hc])) hhead₂
      have hruns : runsFrom isBlank before.length (w ++ (gap ++ chars₂)) =
          (before.length, w) :: runsFrom isBlank (before ++ w ++ gap').length chars₂ := by
        rw [runsFrom_run hne hwords hrest, runsFrom_seps hgap]
        simp [hlen, Nat.add_assoc]
      refine ⟨w ++ gap' ++ chars', found + 1, argv', ?_, ?_, ?_, ?_, ?_⟩
      · have hstart : before ++ (w ++ (gap ++ chars₂)) ++ 0 :: after =
            before ++ w ++ (gap ++ chars₂ ++ 0 :: after) := by simp
        obtain ⟨d, v, rfl⟩ := List.exists_cons_of_ne_nil hne
        have hd : (before ++ (d :: v) ++ (gap ++ chars₂ ++ 0 :: after))[before.length]? =
            some d := by
          simp
        rw [hstart, splitFrom, hd]
        dsimp only
        rw [dif_pos ⟨(hw d List.mem_cons_self).1, hlt⟩, hnext]
        dsimp only
        rw [hrun]
        simp [Nat.add_assoc, Nat.add_comm 1]
      · rw [hsplit.found, hruns, List.length_cons]
        omega
      · simp [hsplit.length, hlen]
      · intro i hi
        rw [hsplit.kept i (by omega), Function.update_of_ne (by simp [Fin.ext_iff]; omega)]
      · intro i r hi hr
        rw [hruns] at hr
        have hword : HoldsAt (before ++ (w ++ gap' ++ chars') ++ [0]) before.length (w ++ [0]) := by
          rcases hzero with hgap0 | ⟨rfl, rfl⟩
          · obtain ⟨gap', rfl⟩ := List.head?_eq_some_iff.mp hgap0
            exact ⟨before, gap' ++ chars' ++ [0], by simp, rfl⟩
          · have hnil : chars' = [] := List.length_eq_zero_iff.mp hsplit.length
            subst hnil
            exact ⟨before, [], by simp, rfl⟩
        by_cases hfirst : i.val = argc
        · obtain rfl : (before.length, w) = r := by simpa [hfirst] using hr
          obtain rfl : i = ⟨argc, hlt⟩ := Fin.ext hfirst
          refine ⟨?_, hword⟩
          rw [hsplit.kept _ (Nat.lt_succ_self argc), Function.update_self]
        · have hsub : i.val - argc = (i.val - (argc + 1)) + 1 := by omega
          rw [hsub, List.getElem?_cons_succ] at hr
          simpa using hsplit.pointers i r (by omega) hr

/-! ## Whole lines -/

/-- The words that the shell goes on with. -/
theorem words_eq_runs (room pos : Nat) {chars : Line} (hhead : ∀ c ∈ chars.head?, c ≠ 32) :
    shell.words room chars = ((runsFrom isBlank pos chars).take room).map Prod.snd := by
  fun_induction shell.words room chars generalizing pos with
  | case1 => simp
  | case2 => simp [runsFrom]
  | case3 room c args ih =>
    have hc : isBlank c = false := by simpa [isBlank] using hhead c rfl
    have hword : (fun d : UInt8 => decide (d ≠ 32)) = fun d => !isBlank d := by
      funext d
      simp [isBlank]
    rw [hword] at ih ⊢
    rw [runsFrom, if_neg (by simp [hc]), List.take_succ_cons, List.map_cons]
    generalize (c :: args).dropWhile (fun d => !isBlank d) = rest at ih ⊢
    exact congrArg _ ((ih _ (head_dropWhile_isBlank rest)).trans
      (by rw [runsFrom_skip isBlank _ rest]; rfl))

/-- The words that the shell goes on with are the first of these runs. -/
theorem wordsOf_eq_runs (chars : Line) :
    shell.wordsOf chars = ((runsFrom isBlank 0 chars).take MAX_ARGS).map Prod.snd := by
  rw [runsFrom_skip]
  exact words_eq_runs _ _ (head_dropWhile_isBlank chars)

/-- Every line is split, without a fault: so nothing behind its terminator is read, and it
is found there again. The maximal runs, as many as there is room for, end with a terminator
where they stand, and the array points to them in their order. They are the words that the
shell goes on with. -/
theorem split_args_finds_runs (chars after : Line) (argv : Argv) (hchars : ∀ c ∈ chars, c ≠ 0) :
    ∃ (runs : List (Nat × Word)) (chars' : Line) (argv' : Argv),
      runs.Pairwise (·.1 < ·.1) ∧ (∀ p w, (p, w) ∈ runs ↔ IsRun isBlank chars p w) ∧
      split_args (some 0) (some argv) (chars ++ 0 :: after) =
        some (((min runs.length MAX_ARGS : Nat) : Int), chars' ++ 0 :: after, some argv') ∧
      chars'.length = chars.length ∧
      (∀ i : Fin MAX_ARGS, argv' i = runs[i.val]?.map Prod.fst ∧
        ∀ r ∈ runs[i.val]?, HoldsAt (chars' ++ [0]) r.1 (r.2 ++ [0])) ∧
      shell.wordsOf chars = (runs.take MAX_ARGS).map Prod.snd := by
  have hsplit : chars = chars.takeWhile isBlank ++ chars.dropWhile isBlank :=
    List.takeWhile_append_dropWhile.symm
  generalize hblanks : chars.takeWhile isBlank = blanks at hsplit
  have hallBlank : ∀ c ∈ blanks, isBlank c := fun c hc => by
    rw [← hblanks] at hc
    exact List.mem_takeWhile_imp hc
  have hhead := head_dropWhile_isBlank chars
  generalize chars.dropWhile isBlank = rest at hsplit hhead
  obtain ⟨rest', found, argv', hrun, hs⟩ := splitFrom_spec MAX_ARGS (Nat.zero_add _) blanks rest
    after argv (fun c hc => hchars c (by rw [hsplit]; exact List.mem_append_right _ hc)) hhead
  have hruns : runsFrom isBlank 0 chars = runsFrom isBlank blanks.length rest := by
    rw [hsplit, runsFrom_seps hallBlank, Nat.zero_add]
  have hskip : skipBlanks (chars ++ 0 :: after) 0 = some blanks.length := by
    have hend : ∃ d after', rest ++ 0 :: after = d :: after' ∧ d ≠ 32 := by
      cases rest with
      | nil => exact ⟨0, after, rfl, by decide⟩
      | cons d rest => exact ⟨d, rest ++ 0 :: after, rfl, hhead d rfl⟩
    obtain ⟨d, after', hafter, hd⟩ := hend
    rw [hsplit, List.append_assoc, hafter]
    simpa using skipBlanks_spec (fun c hc => by simpa [isBlank] using hallBlank c hc) hd [] after'
  refine ⟨runsFrom isBlank 0 chars, blanks ++ rest', fun i => if found ≤ i then none else argv' i,
    pairwise_runsFrom _ _ _, fun p w => by simp [mem_runsFrom_iff], ?_, ?_, fun i => ?_,
    wordsOf_eq_runs chars⟩
  · have hfound := hs.found
    rw [Nat.sub_zero, ← hruns] at hfound
    rw [split_args, hskip, Option.bind_some, hsplit, hrun, ← hsplit, ← hfound]
    simp
  · rw [List.length_append, hs.length, hsplit, List.length_append]
  · rw [hruns]
    have hi := i.isLt
    cases hr : (runsFrom isBlank blanks.length rest)[i.val]? with
    | none =>
      have hlen := List.getElem?_eq_none_iff.mp hr
      have hfound := hs.found
      simp
      omega
    | some r =>
      obtain ⟨hp, hholds⟩ := hs.pointers i r (Nat.zero_le _) (by simpa using hr)
      have hlen := (List.getElem?_eq_some_iff.mp hr).1
      have hfound := hs.found
      refine ⟨?_, fun r' hr' => ?_⟩
      · simp [hp]
        omega
      · obtain rfl : r = r' := by simpa using hr'
        exact hholds

/-- A line with two words. -/
theorem split_args_finds_two :
    ∃ (runs : List (Nat × Word)) (chars' : Line) (argv' : Argv),
      (∀ p w, (p, w) ∈ runs ↔ IsRun isBlank [32, 97, 98, 32, 99] p w) ∧
      split_args (some 0) (some fun _ => none) [32, 97, 98, 32, 99, 0] =
        some (((min runs.length MAX_ARGS : Nat) : Int), chars' ++ [0], some argv') := by
  obtain ⟨runs, chars', argv', -, hmem, hrun, -⟩ :=
    split_args_finds_runs [32, 97, 98, 32, 99] [] (fun _ => none) (by simp)
  exact ⟨runs, chars', argv', hmem, hrun⟩

end bare_bones.commandLine
