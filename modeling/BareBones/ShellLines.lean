-- What the shell makes of the words of a line: the sides of a pipeline, the commands that
-- it looks up and the handlers that it calls.
import BareBones.Shell

namespace bare_bones.shell

open bare_bones.builtinFunctions (Builtin)

/-! ## Words in arrays -/

/-- The cells start with the words of `l` and a `NULL`. -/
def Holds (cells : Cells) (l : List Word) : Prop := ∀ i ≤ l.length, cells i = l[i]?

theorem Holds.head {cells : Cells} {l : List Word} (h : Holds cells l) : cells 0 = l.head? := by
  rw [h 0 (Nat.zero_le _), List.head?_eq_getElem?]

theorem length_words (room : Nat) (args : List UInt8) : (words room args).length ≤ room := by
  fun_induction words room args with
  | case1 => simp
  | case2 => simp
  | case3 room c args ih => simpa using ih

/-- The words of a line, as many as there is room for. -/
def wordsOf (line : List UInt8) : List Word := words MAX_ARGS (line.dropWhile (· = 32))

theorem split_args_words (line : List UInt8) :
    (∀ i, (split_args line).1 i = (wordsOf line)[i]?) ∧
      (split_args line).2.1 = (wordsOf line).length := ⟨fun _ => rfl, rfl⟩

theorem length_wordsOf (line : List UInt8) : (wordsOf line).length ≤ MAX_ARGS :=
  length_words _ _

theorem filled_from {cells : Cells} {l : List Word} {i n : Nat}
    (h : ∀ j ≤ l.length, cells (i + j) = l[j]?) (hn : l.length ≤ n) :
    filled cells i n = l.length := by
  induction l generalizing i n with
  | nil =>
    have hnull : cells i = none := by simpa using h 0 (Nat.le_refl _)
    cases n <;> simp [filled, hnull]
  | cons x l ih =>
    have hx : cells i = some x := by simpa using h 0 (Nat.zero_le _)
    obtain ⟨n, rfl⟩ : ∃ m, n = m + 1 := ⟨n - 1, by simp at hn; omega⟩
    have hrest := ih (i := i + 1) (n := n) (fun j hj => by
      have := h (j + 1) (by simpa using hj)
      rw [Nat.add_right_comm, Nat.add_assoc]
      simpa using this) (by simpa using hn)
    simp [filled, hx, hrest]

theorem Holds.filled {cells : Cells} {l : List Word} (h : Holds cells l) {n : Nat}
    (hn : l.length ≤ n) : filled cells 0 n = l.length :=
  filled_from (fun j hj => by simpa using h j hj) hn

/-- The last word starts with `&`. -/
def marked (l : List Word) : Bool := (l.getLast?.getD []).head? = some 38

/-- The words without the mark of the background. -/
def unmarked (l : List Word) : List Word := if marked l then l.dropLast else l

theorem marked_append (front : List Word) (x : Word) :
    marked (front ++ [x]) = decide (x.head? = some 38) := by simp [marked]

theorem unmarked_append (front : List Word) (x : Word) :
    unmarked (front ++ [x]) = if x.head? = some 38 then front else front ++ [x] := by
  simp [unmarked, marked_append]

theorem check_fore_eq (write : Nat → Event) {cells : Cells} {l : List Word} (h : Holds cells l) :
    ∃ cells', Holds cells' (unmarked l) ∧ check_fore write cells l.length =
      (cells', (unmarked l).length, !marked l,
        if marked l then [write (l.length - 1)] else []) := by
  unfold check_fore
  rcases List.eq_nil_or_concat l with rfl | ⟨front, x, hl⟩
  · exact ⟨cells, h, rfl⟩
  rw [List.concat_eq_append] at hl
  subst hl
  have hlast : cells front.length = some x := by
    rw [h front.length (by simp)]
    simp
  rw [if_neg (by simp), unmarked_append, marked_append]
  by_cases hx : x.head? = some 38
  · refine ⟨Function.update cells front.length none, fun i hi => ?_, by simp [hx, hlast]⟩
    rw [if_pos hx] at hi ⊢
    rw [Function.update_apply]
    split
    · rename_i he
      simp [he]
    · rw [h i (by simp; omega), List.getElem?_append_left (by omega)]
  · refine ⟨cells, ?_, by simp [hx, hlast]⟩
    rw [if_neg hx]
    exact h

/-! ## Searches -/

theorem search_found {needle : Word} {list : Cells} {i n k : Nat} (hk : k < n)
    (hlist : list (i + k) = some needle) (hfirst : ∀ j < k, list (i + j) ≠ some needle) :
    search needle list i n = (((i + k : Nat) : Int), List.range' i (k + 1)) := by
  induction k generalizing i n with
  | zero =>
    obtain ⟨n, rfl⟩ : ∃ m, n = m + 1 := ⟨n - 1, by omega⟩
    rw [Nat.add_zero] at hlist
    simp [search, hlist]
  | succ k ih =>
    obtain ⟨n, rfl⟩ : ∃ m, n = m + 1 := ⟨n - 1, by omega⟩
    have hnot : list i ≠ some needle := by simpa using hfirst 0 (Nat.succ_pos k)
    have hrest := ih (i := i + 1) (n := n) (by omega)
      (by rw [Nat.add_right_comm, Nat.add_assoc]; exact hlist)
      (fun j hj => by
        rw [Nat.add_right_comm, Nat.add_assoc]
        exact hfirst (j + 1) (by omega))
    have hsum : i + 1 + k = i + (k + 1) := by omega
    rw [search, if_neg hnot, hrest, hsum, ← List.range'_succ]

theorem search_none (needle : Word) (list : Cells) {i n : Nat}
    (h : ∀ j < n, list (i + j) ≠ some needle) :
    search needle list i n = (-1, List.range' i n) := by
  induction n generalizing i with
  | zero => rfl
  | succ n ih =>
    have hnot : list i ≠ some needle := by simpa using h 0 (Nat.succ_pos n)
    have hrest := ih (i := i + 1) (fun j hj => by
      rw [Nat.add_right_comm, Nat.add_assoc]
      exact h (j + 1) (by omega))
    rw [search, if_neg hnot, hrest, List.range'_succ]

theorem str_in_list_found {needle : Word} {list : Cells} {list_len k : Nat} (hk : k < list_len)
    (hlist : list k = some needle) (hfirst : ∀ j < k, list j ≠ some needle) :
    str_in_list (some needle) list list_len = ((k : Int), List.range (k + 1)) := by
  have hfound := search_found (i := 0) hk (by simpa using hlist) (by simpa using hfirst)
  rw [str_in_list, if_neg (by omega), hfound, Nat.zero_add, List.range_eq_range']

theorem str_in_list_none {needle : Word} {list : Cells} {list_len : Nat} (hlen : list_len ≠ 0)
    (h : ∀ j < list_len, list j ≠ some needle) :
    str_in_list (some needle) list list_len = (-1, List.range list_len) := by
  have hnone := search_none needle list (i := 0) (n := list_len) (by simpa using h)
  rw [str_in_list, if_neg hlen, hnone, List.range_eq_range']

theorem getElem?_idxOf {l : List Word} {x : Word} (h : x ∈ l) :
    l[l.idxOf x]? = some x := by
  have hlt := List.idxOf_lt_length_of_mem h
  rw [List.getElem?_eq_getElem hlt, List.getElem_idxOf hlt]

theorem ne_of_lt_idxOf {l : List Word} {x : Word} {j : Nat} (hj : j < l.idxOf x) :
    l[j]? ≠ some x := by
  intro he
  obtain ⟨hlt, hx⟩ := List.getElem?_eq_some_iff.mp he
  have := List.not_of_lt_findIdx hj
  simp [hx] at this

/-- The first bar of a line, for the words that fit in `argv`. -/
theorem str_in_list_bar {l : List Word} {cells : Cells} (h : ∀ i, cells i = l[i]?)
    (hl : l.length ≤ MAX_ARGS) : (str_in_list (some bar) cells MAX_ARGS).1 =
      if bar ∈ l then (l.idxOf bar : Int) else -1 := by
  split
  · rename_i hbar
    have hlt := List.idxOf_lt_length_of_mem hbar
    rw [str_in_list_found (k := l.idxOf bar) (by omega) (by rw [h, getElem?_idxOf hbar])
      (fun j hj => by rw [h]; exact ne_of_lt_idxOf hj)]
  · rename_i hbar
    rw [str_in_list_none (by decide)]
    intro j _ he
    rw [h] at he
    exact hbar (List.mem_of_getElem? he)

/-! ## The sides of a pipeline -/

/-- The words before the first bar. -/
def side1 (l : List Word) : List Word := l.take (l.idxOf bar)

/-- The words behind it. -/
def side2 (l : List Word) : List Word := l.drop (l.idxOf bar + 1)

theorem separate_cmds_eq {w : World} {l : List Word} {cells : Cells} (h : ∀ i, cells i = l[i]?)
    (hl : l.length ≤ MAX_ARGS) (hbar : bar ∈ l) :
    Holds (separate_cmds w cells).1 (side1 l) ∧ Holds (separate_cmds w cells).2.1 (side2 l) ∧
      (separate_cmds w cells).2.2 = (List.range ((side1 l).length + 1)).map .cmd1 ++
        (List.range ((side2 l).length + 1)).map .cmd2 := by
  have hlt := List.idxOf_lt_length_of_mem hbar
  have hsep : (str_in_list (some bar) cells MAX_ARGS).1.toNat = l.idxOf bar := by
    rw [str_in_list_bar h hl, if_pos hbar, Int.toNat_natCast]
  have hc1 : min (l.idxOf bar) MAX_ARGS = (side1 l).length := by
    simp only [side1, List.length_take]
    omega
  have hc2 : filled cells (l.idxOf bar + 1) (MAX_ARGS - (l.idxOf bar + 1)) = (side2 l).length := by
    apply filled_from
    · intro j _
      rw [h, side2, List.getElem?_drop]
    · simp only [side2, List.length_drop]
      omega
  unfold separate_cmds
  dsimp only
  rw [hsep, hc1, hc2]
  refine ⟨fun i hi => ?_, fun i hi => ?_, rfl⟩
  · dsimp only
    split
    · rename_i hlt'
      have : i < l.idxOf bar := by
        simp only [side1, List.length_take] at hlt'
        omega
      rw [h, side1, List.getElem?_take_of_lt this]
    · have he : i = (side1 l).length := by omega
      simp [he]
  · dsimp only
    split
    · rw [h, side2, List.getElem?_drop]
    · have he : i = (side2 l).length := by omega
      simp [he]

/-! ## Commands -/

theorem instructions_of_lt (w : World) {i : Nat} (hi : i < 18) :
    instructions w i = instruction_list[i]? := if_pos hi

theorem instruction_at {i : Nat} (hi : i < 18) : ∃ x, instruction_list[i]? = some x :=
  ⟨_, List.getElem?_eq_getElem (l := instruction_list) hi⟩

/-- A word that names a command is found in the list, and what is read of it lies
there. -/
theorem lookup_known (w : World) {x : Word} (h : x ∈ instruction_list) :
    lookup w (some x) = ((instruction_list.idxOf x : Int),
      (List.range (instruction_list.idxOf x + 1)).map fun (i : Nat) => .list i) := by
  have hlt : instruction_list.idxOf x < 18 := List.idxOf_lt_length_of_mem h
  have hlen : instruction_list.idxOf x < CANT_INSTRUCTIONS := Nat.lt_trans hlt (by decide)
  have hlist : instructions w (instruction_list.idxOf x) = some x := by
    rw [instructions_of_lt w hlt, getElem?_idxOf h]
  have hfound := str_in_list_found hlen hlist (fun j hj => by
    rw [instructions_of_lt w (Nat.lt_trans hj hlt)]
    exact ne_of_lt_idxOf hj)
  rw [lookup, hfound]

/-- A word that names none has the search read behind the list, and nothing of the list
is found. -/
theorem lookup_unknown (w : World) {x : Word} (h : x ∉ instruction_list) :
    .list 18 ∈ (lookup w (some x)).2 ∧
      ((lookup w (some x)).1 = -1 ∨ 18 ≤ (lookup w (some x)).1) := by
  have hno : ∀ j < 18, instructions w j ≠ some x := by
    intro j hj he
    rw [instructions_of_lt w hj] at he
    exact h (List.mem_of_getElem? he)
  suffices hread : 18 ∈ (str_in_list (some x) (instructions w) CANT_INSTRUCTIONS).2 ∧
      ((str_in_list (some x) (instructions w) CANT_INSTRUCTIONS).1 = -1 ∨
        18 ≤ (str_in_list (some x) (instructions w) CANT_INSTRUCTIONS).1) from
    ⟨List.mem_map.mpr ⟨18, hread.1, rfl⟩, hread.2⟩
  by_cases hfound : ∃ k, k < CANT_INSTRUCTIONS ∧ instructions w k = some x
  · have hk := Nat.find_spec hfound
    have hfirst : ∀ j < Nat.find hfound, instructions w j ≠ some x := fun j hj he =>
      Nat.find_min hfound hj ⟨Nat.lt_trans hj hk.1, he⟩
    have hlarge : 18 ≤ Nat.find hfound := by
      by_contra hlt
      exact hno _ (by omega) hk.2
    rw [str_in_list_found hk.1 hk.2 hfirst, List.mem_range]
    exact ⟨by omega, Or.inr (by dsimp only; omega)⟩
  · rw [str_in_list_none (by decide) fun j hj he => hfound ⟨j, hj, he⟩]
    exact ⟨by decide, Or.inl rfl⟩

/-- The command of a side, and the events of finding it. -/
theorem set_cmd_eq (w : World) (write : Nat → Event) {cells : Cells} {l : List Word}
    (h : Holds cells l) (hl : l.length ≤ MAX_ARGS) :
    ∃ cells', Holds cells' (unmarked l) ∧ set_cmd w write cells =
      (⟨(lookup w (unmarked l).head?).1, cells', (unmarked l).length, !marked l⟩,
        (if marked l then [write (l.length - 1)] else []) ++ (lookup w (unmarked l).head?).2) := by
  obtain ⟨cells', hholds, hfore⟩ := check_fore_eq write h
  refine ⟨cells', hholds, ?_⟩
  rw [set_cmd, h.filled hl, hfore]
  dsimp only
  rw [hholds.head]

/-! ## Handlers -/

/-- What the handler asks of its arguments before it creates a process. -/
def accepts (argv : Cells) (argc : Int) : Handler → Prop
  | .test_mm | .test_processes | .test_priority => ¬ (argc < 2 ∨ argv 1 = none)
  | .test_sync => ¬ argc < 3
  | .mvar => ¬ argc < 3 ∧ ∃ writers readers, argv 1 = some writers ∧ argv 2 = some readers ∧
      ¬ ((str_to_uint32 writers).toInt32 = 0 ∨ (str_to_uint32 readers).toInt32 = 0) ∧
      ¬ 26 < (str_to_uint32 writers).toInt32
  | _ => True

/-- The answer of a handler: a process, told only in the foreground, or none. -/
structure Answers (pid : Int16) (ground : Bool) (accepted : Prop)
    (r : List Event × Int16) : Prop where
  launched : accepted → ∃ request, request.background = !ground ∧
    r = ([.createProcess request pid], if ground then pid else 0)
  refused : ¬ accepted → ∃ text, r = ([.printf text []], -1)

section
variable (argv : Cells) (argc : Int) (ground : Bool) (stdin stdout : Int32) (pid : Int16)

theorem launch_answers (program : Handler) (priority : Nat) (n : Int) :
    Answers pid ground True (launch argv ground stdin stdout pid program priority n) where
  launched _ := ⟨_, rfl, rfl⟩
  refused h := absurd trivial h

/-- A check before the launch. -/
theorem guarded_answers {refuses : Prop} [Decidable refuses] (text : String)
    {r : List Event × Int16} (h : Answers pid ground True r) :
    Answers pid ground (¬ refuses) (if refuses then usage text else r) := by
  constructor
  · intro hpass
    rw [if_neg hpass]
    exact h.launched trivial
  · intro hfail
    rw [if_pos (not_not.mp hfail)]
    exact ⟨text, rfl⟩

theorem handle_mvar_answers :
    Answers pid ground (accepts argv argc .mvar)
      (handle_mvar argv argc ground stdin stdout pid) := by
  have hlaunch := (launch_answers argv ground stdin stdout pid .mvar 2 argc).launched trivial
  unfold handle_mvar
  split
  · rename_i writers readers h1 h2
    split
    · rename_i hargc
      exact ⟨fun h => absurd hargc h.1, fun _ => ⟨_, rfl⟩⟩
    · rename_i hargc
      dsimp only
      split_ifs with hzero hmany
      · constructor
        · rintro ⟨-, writers', readers', hw, hr, hpos, -⟩
          cases h1.symm.trans hw
          cases h2.symm.trans hr
          exact absurd hzero hpos
        · exact fun _ => ⟨_, rfl⟩
      · constructor
        · rintro ⟨-, writers', readers', hw, hr, -, hfew⟩
          cases h1.symm.trans hw
          exact absurd hmany hfew
        · exact fun _ => ⟨_, rfl⟩
      · exact ⟨fun _ => hlaunch,
          fun h => absurd ⟨hargc, writers, readers, h1, h2, hzero, hmany⟩ h⟩
  · rename_i hnone
    exact ⟨fun ⟨_, writers, readers, h1, h2, _⟩ => absurd h2 (hnone writers readers h1),
      fun _ => ⟨_, rfl⟩⟩

theorem handle_answers (h : Handler) :
    Answers pid ground (accepts argv argc h) (handle argv argc ground stdin stdout pid h) := by
  cases h with
  | clear => exact launch_answers argv ground stdin stdout pid .clear 1 _
  | ps => exact launch_answers argv ground stdin stdout pid .ps 1 _
  | loop => exact launch_answers argv ground stdin stdout pid .loop 1 _
  | cat => exact launch_answers argv ground stdin stdout pid .cat 1 _
  | wc => exact launch_answers argv ground stdin stdout pid .wc 1 _
  | filter => exact launch_answers argv ground stdin stdout pid .filter 1 _
  | mvar => exact handle_mvar_answers argv argc ground stdin stdout pid
  | test_mm =>
    exact guarded_answers ground pid _ (launch_answers argv ground stdin stdout pid _ 1 _)
  | test_processes =>
    exact guarded_answers ground pid _ (launch_answers argv ground stdin stdout pid _ 1 _)
  | test_priority =>
    exact guarded_answers ground pid _ (launch_answers argv ground stdin stdout pid _ 1 _)
  | test_sync =>
    exact guarded_answers ground pid _ (launch_answers argv ground stdin stdout pid _ 1 _)

end

/-! ## Dispatch -/

def builtinName : Builtin → Word
  | .help => word "help"
  | .mem => word "mem"
  | .kill => word "kill"
  | .block => word "block"
  | .unblock => word "unblock"
  | .nice => word "nice"
  | .fontSize => word "font-size"

def handlerName : Handler → Word
  | .clear => word "clear"
  | .ps => word "ps"
  | .loop => word "loop"
  | .cat => word "cat"
  | .wc => word "wc"
  | .filter => word "filter"
  | .mvar => word "mvar"
  | .test_mm => word "testmem"
  | .test_processes => word "testproc"
  | .test_priority => word "testprio"
  | .test_sync => word "testsync"

/-- The words that a line has looked up: that of a single command, or those of both
sides of a pipeline, without the marks of the background. -/
def lookedUp (w : World) (line : List UInt8) : List (Option Word) :=
  let l := wordsOf line
  if l = [] then []
  else if bar ∈ l then
    if w.pipeCmd then [(unmarked (side1 l)).head?, (unmarked (side2 l)).head?] else []
  else [l.head?]

/-- The word is there and names a command. -/
def Known (x : Option Word) : Prop := ∃ name ∈ x, name ∈ instruction_list

instance : DecidablePred Known := fun x => inferInstanceAs (Decidable (∃ name ∈ x, _))

/-- The handlers to call: that of a single command, or both of a pipeline of
applications that gets its pipe. -/
def calls (w : World) (line : List UInt8) : List Word :=
  if ∀ x ∈ lookedUp w line, Known x then
    match lookedUp w line with
    | [some x] => [x]
    | [some x, some y] =>
      if 7 ≤ instruction_list.idxOf x ∧ 7 ≤ instruction_list.idxOf y ∧ 0 ≤ w.pipe_create then [x, y]
      else []
    | _ => []
  else []

namespace Event

/-- A read of an entry that the table has, or a write to an entry of the array. -/
def Inside : Event → Prop
  | .list i => 0 ≤ i ∧ i < instruction_list.length
  | .builtInHandler i => 0 ≤ i ∧ i < built_in_handlers.length
  | .handler i => 0 ≤ i ∧ i < instruction_handlers.length
  | .argv i | .cmd1 i | .cmd2 i => i < MAX_ARGS
  | .fault => False
  | _ => True

/-- The name of the handler called. -/
def called : Event → Option Word
  | .builtIn b _ _ => some (builtinName b)
  | .call h => some (handlerName h)
  | _ => none

/-- The report of an invalid command. -/
def reports : Event → Prop
  | .printErr text => text = "Comando invalido.\n" ∨
      text = "Comando invalido, ejecuta 'help' para conocer los comandos\n"
  | _ => False

end Event

structure DispatchesWell (w : World) (line : List UInt8) : Prop where
  inside : ∀ e ∈ run_line w line, e.Inside
  exact : (run_line w line).filterMap Event.called = calls w line
  invalid : (∃ e ∈ run_line w line, e.reports) ↔ ∃ x ∈ lookedUp w line, ¬ Known x

/-- Events that stay inside the tables, call the handlers of `names` and report
nothing. -/
structure Fine (es : List Event) (names : List Word) : Prop where
  inside : ∀ e ∈ es, e.Inside
  called : es.filterMap Event.called = names
  silent : ∀ e ∈ es, ¬ e.reports

namespace Fine

theorem nil : Fine [] [] := ⟨by simp, rfl, by simp⟩

theorem append {es es' : List Event} {l l' : List Word} (h : Fine es l)
    (h' : Fine es' l') : Fine (es ++ es') (l ++ l') where
  inside e he := (List.mem_append.mp he).elim (h.inside e) (h'.inside e)
  called := by rw [List.filterMap_append, h.called, h'.called]
  silent e he := (List.mem_append.mp he).elim (h.silent e) (h'.silent e)

/-- One event that calls nothing. -/
theorem cons (e : Event) (hi : e.Inside) (hc : e.called = none) (hr : ¬ e.reports)
    {es : List Event} {names : List Word} (h : Fine es names) : Fine (e :: es) names where
  inside e' he := (List.mem_cons.mp he).elim (fun h => h ▸ hi) (h.inside e')
  called := by rw [List.filterMap_cons, hc, h.called]
  silent e' he := (List.mem_cons.mp he).elim (fun h => h ▸ hr) (h.silent e')

theorem map {f : Nat → Event} {n : Nat} (hi : ∀ i < n, (f i).Inside)
    (hc : ∀ i, (f i).called = none) (hr : ∀ i, ¬ (f i).reports) :
    Fine ((List.range n).map f) [] where
  inside e he := by
    obtain ⟨i, hlt, rfl⟩ := List.mem_map.mp he
    exact hi i (List.mem_range.mp hlt)
  called := by simp [hc]
  silent e he := by
    obtain ⟨i, -, rfl⟩ := List.mem_map.mp he
    exact hr i

end Fine

theorem lookup_listed (w : World) {x : Option Word} (h : x = none ∨ Known x) :
    ∃ (i : Nat) (reads : List Event), lookup w x = ((i : Int), reads) ∧ Fine reads [] ∧ i < 18 ∧
      i = (x.map fun x => instruction_list.idxOf x).getD 0 := by
  rcases h with rfl | ⟨x, rfl, hx⟩
  · exact ⟨0, [], rfl, Fine.nil, by decide, rfl⟩
  · have hlt : instruction_list.idxOf x < 18 := List.idxOf_lt_length_of_mem hx
    refine ⟨instruction_list.idxOf x, _, lookup_known w hx, ?_, hlt, rfl⟩
    refine Fine.map (f := fun (i : Nat) => .list i) (fun i hi => ⟨by omega, ?_⟩) (fun _ => rfl)
      (fun _ h => h)
    have : instruction_list.length = 18 := rfl
    omega

theorem fine_mark (write : Nat → Event) (hi : ∀ i < MAX_ARGS, (write i).Inside)
    (hc : ∀ i, (write i).called = none) (hr : ∀ i, ¬ (write i).reports) {l : List Word}
    (hl : l.length ≤ MAX_ARGS) : Fine (if marked l then [write (l.length - 1)] else []) [] := by
  split
  · have hpos : 0 < MAX_ARGS := by decide
    exact Fine.cons _ (hi _ (by omega)) (hc _) (hr _) Fine.nil
  · exact Fine.nil

theorem fine_handle (argv : Cells) (argc : Int) (ground : Bool) (stdin stdout : Int32) (pid : Int16)
    (h : Handler) : Fine (handle argv argc ground stdin stdout pid h).1 [] := by
  have hanswers := handle_answers argv argc ground stdin stdout pid h
  by_cases hacc : accepts argv argc h
  · obtain ⟨request, -, hr⟩ := hanswers.launched hacc
    rw [hr]
    exact Fine.cons (.createProcess request pid) trivial rfl (fun h => h) Fine.nil
  · obtain ⟨text, hr⟩ := hanswers.refused hacc
    rw [hr]
    exact Fine.cons (.printf text []) trivial rfl (fun h => h) Fine.nil

/-- The entries of the three tables agree. -/
theorem handlers_agree : ∀ i < 18, 7 ≤ i →
    ∃ h, instruction_handlers[i - 7]? = some h ∧ instruction_list[i]? = some (handlerName h) := by
  decide

theorem builtIns_agree : ∀ i < 7,
    ∃ b, built_in_handlers[i]? = some b ∧ instruction_list[i]? = some (builtinName b) := by decide

theorem fine_callHandler (cmd : command) {i : Nat} (hi : i < 18) (h7 : 7 ≤ i) {x : Word}
    (hx : instruction_list[i]? = some x) (stdin stdout : Int32) (pid : Int16) :
    ∃ events answer, callHandler cmd (i - FONT_SIZE - 1) stdin stdout pid = (events, some answer) ∧
      Fine events [x] := by
  obtain ⟨h, hh, hname⟩ := handlers_agree i hi h7
  cases hx.symm.trans hname
  have hidx : ((i : Int) - FONT_SIZE - 1).toNat = i - 7 := by
    unfold FONT_SIZE
    omega
  refine ⟨_, _, by rw [callHandler, hidx, hh], ?_⟩
  have hentry : (.handler (i - FONT_SIZE - 1) : Event).Inside := by
    have : instruction_handlers.length = 11 := rfl
    unfold FONT_SIZE
    exact ⟨by omega, by omega⟩
  refine Fine.append (l := [handlerName h]) ?_ (fine_handle _ _ _ _ _ _ h)
  exact Fine.cons _ hentry rfl (fun h => h) ⟨by simp [Event.Inside], rfl, by simp [Event.reports]⟩

theorem fine_freeAll : Fine freeAll [] :=
  ⟨by simp [freeAll, Event.Inside], rfl, by simp [freeAll, Event.reports]⟩

theorem isBuiltIn_iff {i : Nat} : IS_BUILT_IN (i : Int) = true ↔ i < 7 := by
  rw [IS_BUILT_IN, Bool.and_eq_true, decide_eq_true_iff, decide_eq_true_iff]
  unfold FONT_SIZE
  omega

/-- A pipeline of two commands that were found. -/
theorem fine_handle_piped (w : World) {cmd1 cmd2 : command} {i j : Nat} {x y : Word}
    (hi : cmd1.instruction = (i : Int)) (hj : cmd2.instruction = (j : Int)) (hi18 : i < 18)
    (hj18 : j < 18) (hx : instruction_list[i]? = some x) (hy : instruction_list[j]? = some y) :
    Fine (handle_piped_commands w cmd1 cmd2)
      (if 7 ≤ i ∧ 7 ≤ j ∧ 0 ≤ w.pipe_create then [x, y] else []) := by
  have hone : ∀ k : Nat, (k : Int) ≠ -1 := fun k => by omega
  unfold handle_piped_commands
  rw [hi, hj, if_neg (by simp [hone])]
  split
  · rename_i hbuiltin
    rw [isBuiltIn_iff, isBuiltIn_iff] at hbuiltin
    rw [if_neg (by omega)]
    exact Fine.cons (.printErr _) trivial rfl (by simp [Event.reports]) fine_freeAll
  · rename_i hbuiltin
    rw [isBuiltIn_iff, isBuiltIn_iff] at hbuiltin
    split
    · rename_i hpipe
      rw [if_neg fun h => absurd h.2.2 (Int32.not_le.mpr hpipe)]
      exact Fine.cons (.pipe_create _) trivial rfl (fun h => h)
        (Fine.cons (.printErr _) trivial rfl (by simp [Event.reports]) fine_freeAll)
    · rename_i hpipe
      obtain ⟨events1, answer1, hcall1, hfine1⟩ :=
        fine_callHandler cmd1 hi18 (by omega) hx STDIN w.pipe_create w.firstPid
      obtain ⟨events2, answer2, hcall2, hfine2⟩ :=
        fine_callHandler cmd2 hj18 (by omega) hy w.pipe_create STDOUT w.secondPid
      rw [hcall1, hcall2, if_pos ⟨by omega, by omega, Int32.not_lt.mp hpipe⟩]
      have hwaits : Fine [.waitProcess answer1, .mm_free .arguments1, .waitProcess answer2,
          .mm_free .arguments2, .pipe_close w.pipe_create, .mm_free .pipeCmd] [] :=
        ⟨by simp [Event.Inside], rfl, by simp [Event.reports]⟩
      exact Fine.cons (.pipe_create _) trivial rfl (fun h => h)
        (hfine1.append (hfine2.append hwaits))

theorem fine_handle_process (w : World) {cells : Cells} {l : List Word} (h : Holds cells l)
    (hl : l.length ≤ MAX_ARGS) {i : Nat} (hi : i < 18) (h7 : 7 ≤ i) {x : Word}
    (hx : instruction_list[i]? = some x) :
    Fine (handle_process_command w cells l.length i) [x] := by
  obtain ⟨cells', -, hfore⟩ := check_fore_eq .argv h
  obtain ⟨events, answer, hcall, hfine⟩ := fine_callHandler
    ⟨i, cells', (unmarked l).length, !marked l⟩ hi h7 hx STDIN STDOUT w.firstPid
  have hidx : (i : Int) - CLEAR = i - FONT_SIZE - 1 := by
    unfold CLEAR FONT_SIZE
    omega
  have hmark := fine_mark .argv (fun _ hi => hi) (fun _ => rfl) (fun _ h => h) hl
  unfold handle_process_command
  rw [hfore, hidx]
  dsimp only
  rw [hcall]
  refine Fine.append (l := []) hmark ?_
  rw [← List.append_nil [x]]
  refine Fine.append hfine ?_
  split_ifs
  · exact Fine.cons (.printErr _) trivial rfl (by simp [Event.reports]) Fine.nil
  · refine Fine.cons (.list i) ⟨by omega, ?_⟩ rfl (fun h => h)
      (Fine.cons (.printf _ _) trivial rfl (fun h => h) Fine.nil)
    have : instruction_list.length = 18 := rfl
    omega
  · exact Fine.cons (.waitProcess answer) trivial rfl (fun h => h) Fine.nil

theorem fine_remove_name {cells : Cells} {argc : Nat} (hl : argc ≤ MAX_ARGS) :
    Fine (remove_name cells argc).2.2 [] := by
  unfold remove_name
  have hpos : 0 < MAX_ARGS := by decide
  dsimp only
  split
  · exact Fine.nil
  · have hmoves : Fine ((List.range (min (argc - 1) (MAX_ARGS - 1))).map .argv) [] :=
      Fine.map (f := .argv) (fun i hi => by simp only [Event.Inside]; omega) (fun _ => rfl)
        (fun _ h => h)
    rw [if_pos (by omega)]
    exact hmoves.append (Fine.cons (.argv (argc - 1)) (by simp only [Event.Inside]; omega) rfl
      (fun h => h) Fine.nil)

theorem bar_line {line : List UInt8} (hbar : bar ∈ wordsOf line) :
    (str_in_list (some bar) (split_args line).1 MAX_ARGS).1 ≠ -1 ∧ wordsOf line ≠ [] := by
  rw [str_in_list_bar (split_args_words line).1 (length_wordsOf line), if_pos hbar]
  exact ⟨by omega, List.ne_nil_of_mem hbar⟩

theorem fine_split_args (line : List UInt8) : Fine (split_args line).2.2 [] :=
  Fine.map (f := .argv) (fun _ hi => hi) (fun _ => rfl) (fun _ h => h)

theorem length_sides {l : List Word} (hl : l.length ≤ MAX_ARGS) (hbar : bar ∈ l) :
    (side1 l).length < MAX_ARGS ∧ (side2 l).length < MAX_ARGS := by
  have hlt := List.idxOf_lt_length_of_mem hbar
  simp only [side1, side2, List.length_take, List.length_drop]
  omega

/-- The two commands of a pipeline, each with the words of its side. -/
theorem commands_eq (w : World) {line : List UInt8} (hbar : bar ∈ wordsOf line) :
    ∃ args1 args2, Holds args1 (unmarked (side1 (wordsOf line))) ∧
      Holds args2 (unmarked (side2 (wordsOf line))) ∧
      set_cmd w .cmd1 (separate_cmds w (split_args line).1).1 =
        (⟨(lookup w (unmarked (side1 (wordsOf line))).head?).1, args1,
            (unmarked (side1 (wordsOf line))).length, !marked (side1 (wordsOf line))⟩,
          (if marked (side1 (wordsOf line)) then [.cmd1 ((side1 (wordsOf line)).length - 1)]
            else []) ++ (lookup w (unmarked (side1 (wordsOf line))).head?).2) ∧
      set_cmd w .cmd2 (separate_cmds w (split_args line).1).2.1 =
        (⟨(lookup w (unmarked (side2 (wordsOf line))).head?).1, args2,
            (unmarked (side2 (wordsOf line))).length, !marked (side2 (wordsOf line))⟩,
          (if marked (side2 (wordsOf line)) then [.cmd2 ((side2 (wordsOf line)).length - 1)]
            else []) ++ (lookup w (unmarked (side2 (wordsOf line))).head?).2) := by
  have hl := length_wordsOf line
  obtain ⟨h1, h2⟩ := length_sides hl hbar
  obtain ⟨hholds1, hholds2, -⟩ := separate_cmds_eq (w := w) (split_args_words line).1 hl hbar
  obtain ⟨args1, hargs1, hcmd1⟩ := set_cmd_eq w .cmd1 hholds1 h1.le
  obtain ⟨args2, hargs2, hcmd2⟩ := set_cmd_eq w .cmd2 hholds2 h2.le
  exact ⟨args1, args2, hargs1, hargs2, hcmd1, hcmd2⟩

/-- The events of a pipeline, up to its two commands and of the two. -/
theorem pipeline_eq (w : World) {line : List UInt8} (hbar : bar ∈ wordsOf line)
    (hrecord : w.pipeCmd = true) :
    ∃ (copies marks1 marks2 : List Event) (args1 args2 : Cells),
      Fine copies [] ∧ Fine marks1 [] ∧ Fine marks2 [] ∧
      run_line w line = copies ++
        (marks1 ++ (lookup w (unmarked (side1 (wordsOf line))).head?).2) ++
        (marks2 ++ (lookup w (unmarked (side2 (wordsOf line))).head?).2) ++
        handle_piped_commands w
          ⟨(lookup w (unmarked (side1 (wordsOf line))).head?).1, args1,
            (unmarked (side1 (wordsOf line))).length, !marked (side1 (wordsOf line))⟩
          ⟨(lookup w (unmarked (side2 (wordsOf line))).head?).1, args2,
            (unmarked (side2 (wordsOf line))).length, !marked (side2 (wordsOf line))⟩ := by
  obtain ⟨h1, h2⟩ := length_sides (length_wordsOf line) hbar
  obtain ⟨hsep, hne⟩ := bar_line hbar
  obtain ⟨-, -, hcopies⟩ :=
    separate_cmds_eq (w := w) (split_args_words line).1 (length_wordsOf line) hbar
  obtain ⟨args1, args2, -, -, hcmd1, hcmd2⟩ := commands_eq w hbar
  refine ⟨(split_args line).2.2 ++ (separate_cmds w (split_args line).1).2.2, _, _, args1, args2,
    ?_, fine_mark .cmd1 (fun _ hi => hi) (fun _ => rfl) (fun _ h => h) h1.le,
    fine_mark .cmd2 (fun _ hi => hi) (fun _ => rfl) (fun _ h => h) h2.le, ?_⟩
  · rw [hcopies]
    refine (fine_split_args line).append ?_
    refine Fine.append (l := []) (Fine.map (f := .cmd1) (fun i hi => ?_) (fun _ => rfl)
      (fun _ h => h)) (Fine.map (f := .cmd2) (fun i hi => ?_) (fun _ => rfl) (fun _ h => h))
    · exact Nat.lt_of_lt_of_le hi h1
    · exact Nat.lt_of_lt_of_le hi h2
  · have hargc : (split_args line).2.1 ≠ 0 := by
      rw [(split_args_words line).2]
      exact fun h => hne (List.length_eq_zero_iff.mp h)
    unfold run_line
    dsimp only
    rw [if_neg hargc, if_pos hsep, if_pos hrecord, hcmd1, hcmd2]
    simp only [List.append_assoc]

theorem known_iff {x : Word} : Known (some x) ↔ x ∈ instruction_list := by simp [Known]

theorem lookedUp_bar {w : World} {line : List UInt8} (hbar : bar ∈ wordsOf line)
    (hrecord : w.pipeCmd = true) : lookedUp w line =
      [(unmarked (side1 (wordsOf line))).head?, (unmarked (side2 (wordsOf line))).head?] := by
  unfold lookedUp
  dsimp only
  rw [if_neg (List.ne_nil_of_mem hbar), if_pos hbar, if_pos hrecord]

/-- A pipeline whose sides are empty or name commands. -/
theorem fine_pipeline {w : World} {line : List UInt8} (hbar : bar ∈ wordsOf line)
    (hrecord : w.pipeCmd = true)
    (h1 : (unmarked (side1 (wordsOf line))).head? = none ∨
      Known (unmarked (side1 (wordsOf line))).head?)
    (h2 : (unmarked (side2 (wordsOf line))).head? = none ∨
      Known (unmarked (side2 (wordsOf line))).head?) :
    ∃ names, Fine (run_line w line) names ∧
      ∀ x y, (unmarked (side1 (wordsOf line))).head? = some x →
        (unmarked (side2 (wordsOf line))).head? = some y →
        names = if 7 ≤ instruction_list.idxOf x ∧ 7 ≤ instruction_list.idxOf y ∧
          0 ≤ w.pipe_create then [x, y] else [] := by
  obtain ⟨copies, marks1, marks2, args1, args2, hcopies, hmarks1, hmarks2, hrun⟩ :=
    pipeline_eq w hbar hrecord
  obtain ⟨i, reads1, hlook1, hfine1, hi, hidx1⟩ := lookup_listed w h1
  obtain ⟨j, reads2, hlook2, hfine2, hj, hidx2⟩ := lookup_listed w h2
  obtain ⟨x, hx⟩ := instruction_at hi
  obtain ⟨y, hy⟩ := instruction_at hj
  rw [hlook1, hlook2] at hrun
  refine ⟨if 7 ≤ i ∧ 7 ≤ j ∧ 0 ≤ w.pipe_create then [x, y] else [], ?_, ?_⟩
  · rw [hrun]
    exact ((hcopies.append (hmarks1.append hfine1)).append (hmarks2.append hfine2)).append
      (fine_handle_piped w rfl rfl hi hj hx hy)
  · intro x' y' hx' hy'
    rw [hx'] at h1 hidx1
    rw [hy'] at h2 hidx2
    have hin1 : x' ∈ instruction_list := known_iff.mp (h1.resolve_left (by simp))
    have hin2 : y' ∈ instruction_list := known_iff.mp (h2.resolve_left (by simp))
    simp only [Option.map_some, Option.getD_some] at hidx1 hidx2
    subst hidx1 hidx2
    cases hx.symm.trans (getElem?_idxOf hin1)
    cases hy.symm.trans (getElem?_idxOf hin2)
    rfl

theorem single_line {line : List UInt8} (hbar : bar ∉ wordsOf line) :
    (str_in_list (some bar) (split_args line).1 MAX_ARGS).1 = -1 := by
  rw [str_in_list_bar (split_args_words line).1 (length_wordsOf line), if_neg hbar]

/-- The events of a single command. -/
theorem run_line_single {w : World} {line : List UInt8} {x : Word} {rest : List Word}
    (hl : wordsOf line = x :: rest) (hbar : bar ∉ wordsOf line) :
    run_line w line = (split_args line).2.2 ++ ((lookup w (some x)).2 ++
      if (lookup w (some x)).1 = -1 then
        [.printErr "Comando invalido, ejecuta 'help' para conocer los comandos\n"]
      else if IS_BUILT_IN (lookup w (some x)).1 then
        (remove_name (split_args line).1 (split_args line).2.1).2.2 ++
          .builtInHandler (lookup w (some x)).1 ::
            match built_in_handlers[(lookup w (some x)).1.toNat]? with
            | none => [.fault]
            | some b => [.builtIn b (remove_name (split_args line).1 (split_args line).2.1).2.1
                (remove_name (split_args line).1 (split_args line).2.1).1]
      else handle_process_command w (split_args line).1 (split_args line).2.1
        (lookup w (some x)).1) := by
  have hargc : (split_args line).2.1 ≠ 0 := by
    rw [(split_args_words line).2, hl]
    simp
  have hhead : (split_args line).1 0 = some x := by
    rw [(split_args_words line).1, hl]
    rfl
  rw [← hhead]
  unfold run_line
  dsimp only
  exact congrArg ((split_args line).2.2 ++ ·)
    ((if_neg hargc).trans (if_neg (not_not.mpr (single_line hbar))))

theorem fine_single {w : World} {line : List UInt8} {x : Word} {rest : List Word}
    (hl : wordsOf line = x :: rest) (hbar : bar ∉ wordsOf line) (hx : x ∈ instruction_list) :
    Fine (run_line w line) [x] := by
  obtain ⟨i, reads, hlook, hfine, hi, hidx⟩ := lookup_listed w (Or.inr (known_iff.mpr hx))
  simp only [Option.map_some, Option.getD_some] at hidx
  have hname : instruction_list[i]? = some x := hidx ▸ getElem?_idxOf hx
  rw [run_line_single hl hbar, hlook]
  refine Fine.append (l := []) (fine_split_args line) ?_
  refine Fine.append (l := []) hfine ?_
  dsimp only
  rw [if_neg (by omega)]
  split
  · rename_i hbuiltin
    rw [isBuiltIn_iff] at hbuiltin
    obtain ⟨b, hb, hbname⟩ := builtIns_agree i hbuiltin
    cases hname.symm.trans hbname
    rw [Int.toNat_natCast, hb]
    refine Fine.append (l := []) (fine_remove_name ?_) ?_
    · rw [(split_args_words line).2]
      exact length_wordsOf line
    · refine Fine.cons (.builtInHandler i) ⟨by omega, ?_⟩ rfl (fun h => h)
        ⟨by simp [Event.Inside], rfl, by simp [Event.reports]⟩
      have : built_in_handlers.length = 7 := rfl
      omega
  · rename_i hbuiltin
    rw [isBuiltIn_iff] at hbuiltin
    rw [(split_args_words line).2]
    exact fine_handle_process w (l := wordsOf line) (fun i _ => (split_args_words line).1 i)
      (length_wordsOf line) hi (by omega) hname

/-- Without words, or without room for the record of a pipeline, nothing is looked
up. -/
theorem fine_nothing {w : World} {line : List UInt8} (h : lookedUp w line = []) :
    Fine (run_line w line) [] := by
  have hlen := (split_args_words line).2
  unfold lookedUp at h
  unfold run_line
  dsimp only at h ⊢
  refine Fine.append (l := []) (fine_split_args line) ?_
  by_cases hl : wordsOf line = []
  · rw [if_pos (hlen.trans (by rw [hl]; rfl))]
    exact Fine.nil
  · rw [if_neg hl] at h
    rw [if_neg fun h0 => hl (List.length_eq_zero_iff.mp (hlen.symm.trans h0))]
    by_cases hbar : bar ∈ wordsOf line
    · rw [if_pos hbar] at h
      have hrecord : ¬ w.pipeCmd = true := by
        intro hp
        simp [hp] at h
      rw [if_pos (bar_line hbar).1, if_neg hrecord]
      exact Fine.cons (.printErr _) trivial rfl (by simp [Event.reports]) Fine.nil
    · simp [hbar] at h

theorem lookedUp_cases (w : World) (line : List UInt8) :
    lookedUp w line = [] ∨ (bar ∈ wordsOf line ∧ w.pipeCmd = true) ∨
      bar ∉ wordsOf line ∧ ∃ x rest, wordsOf line = x :: rest ∧ lookedUp w line = [some x] := by
  unfold lookedUp
  dsimp only
  cases hl : wordsOf line with
  | nil => exact Or.inl (by simp)
  | cons x rest =>
    by_cases hbar : bar ∈ x :: rest
    · by_cases hrecord : w.pipeCmd = true
      · exact Or.inr (Or.inl ⟨hbar, hrecord⟩)
      · exact Or.inl (by simp [hbar, hrecord])
    · exact Or.inr (Or.inr ⟨hbar, x, rest, rfl, by simp [hbar]⟩)

/-- A line whose commands are all in the list. -/
theorem fine_run_line {w : World} {line : List UInt8} (h : ∀ x ∈ lookedUp w line, Known x) :
    Fine (run_line w line) (calls w line) := by
  unfold calls
  rw [if_pos h]
  rcases lookedUp_cases w line with hnone | ⟨hbar, hrecord⟩ | ⟨hbar, x, rest, hl, hone⟩
  · rw [hnone]
    exact fine_nothing hnone
  · rw [lookedUp_bar hbar hrecord] at h ⊢
    have h1 := h _ List.mem_cons_self
    have h2 := h _ (List.mem_cons_of_mem _ List.mem_cons_self)
    obtain ⟨names, hfine, hnames⟩ := fine_pipeline hbar hrecord (Or.inr h1) (Or.inr h2)
    obtain ⟨x, hx, -⟩ := h1
    obtain ⟨y, hy, -⟩ := h2
    rw [Option.mem_def] at hx hy
    rw [hnames x y hx hy] at hfine
    rw [hx, hy]
    exact hfine
  · rw [hone] at h ⊢
    exact fine_single hl hbar (known_iff.mp (h _ List.mem_cons_self))

/-- A word that is looked up and names no command has the search read behind the list. -/
theorem reads_behind {w : World} {line : List UInt8} {x : Word}
    (hx : some x ∈ lookedUp w line) (hnot : x ∉ instruction_list) :
    .list 18 ∈ run_line w line := by
  have hread := (lookup_unknown w hnot).1
  rcases lookedUp_cases w line with hnone | ⟨hbar, hrecord⟩ | ⟨hbar, y, rest, hl, hone⟩
  · rw [hnone] at hx
    exact absurd hx (List.not_mem_nil)
  · obtain ⟨copies, marks1, marks2, args1, args2, -, -, -, hrun⟩ := pipeline_eq w hbar hrecord
    rw [lookedUp_bar hbar hrecord, List.mem_cons, List.mem_singleton] at hx
    rw [hrun]
    rcases hx with hx | hx <;> simp [← hx, hread]
  · rw [hone, List.mem_singleton, Option.some.injEq] at hx
    subst hx
    rw [run_line_single hl hbar]
    simp [hread]

/-- The shell dispatches a line well exactly when each command that it looks up is
there and in the list. -/
theorem dispatch_iff (w : World) (line : List UInt8) :
    DispatchesWell w line ↔ ∀ x ∈ lookedUp w line, Known x := by
  constructor
  · intro h
    have hsome : ∀ x, some x ∈ lookedUp w line → Known (some x) := by
      intro x hx
      by_contra hnot
      have hlist := h.inside _ (reads_behind hx fun hin => hnot (known_iff.mpr hin))
      exact absurd hlist.2 (by decide)
    have hlisted : ∀ x ∈ lookedUp w line, x = none ∨ Known x := by
      intro x hx
      cases x with
      | none => exact Or.inl rfl
      | some x => exact Or.inr (hsome x hx)
    by_contra hall
    obtain ⟨x, hx, hnot⟩ := not_forall₂.mp hall
    obtain ⟨e, he, hreports⟩ := h.invalid.mpr ⟨x, hx, hnot⟩
    rcases lookedUp_cases w line with hnone | ⟨hbar, hrecord⟩ | ⟨hbar, y, rest, hl, hone⟩
    · exact (fine_nothing hnone).silent e he hreports
    · rw [lookedUp_bar hbar hrecord] at hlisted
      obtain ⟨names, hfine, -⟩ := fine_pipeline hbar hrecord (hlisted _ List.mem_cons_self)
        (hlisted _ (List.mem_cons_of_mem _ List.mem_cons_self))
      exact hfine.silent e he hreports
    · have hknown := hsome y (by rw [hone]; exact List.mem_singleton.mpr rfl)
      exact (fine_single hl hbar (known_iff.mp hknown)).silent e he hreports
  · intro h
    have hfine := fine_run_line h
    refine ⟨hfine.inside, hfine.called, ⟨?_, ?_⟩⟩
    · rintro ⟨e, he, hreports⟩
      exact absurd hreports (hfine.silent e he)
    · rintro ⟨x, hx, hnot⟩
      exact absurd (h x hx) hnot

/-- `foo` is compared with three pointers behind the list. -/
theorem unknown_word_reads_behind_the_list :
    ¬ DispatchesWell ⟨fun _ => none, fun _ => none, fun _ => none, true, 3, 2, 3⟩ (word "foo") := by
  intro h
  have hread : Event.list 18 ∈ run_line
      ⟨fun _ => none, fun _ => none, fun _ => none, true, 3, 2, 3⟩ (word "foo") :=
    reads_behind (x := word "foo") (by decide) (by decide)
  exact absurd (h.inside _ hread).2 (by decide)

end bare_bones.shell
