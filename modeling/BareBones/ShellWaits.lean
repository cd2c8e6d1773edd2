-- Whom the shell waits for. A handler gives 0 for a process in the background and -1 for
-- none; a single command looks at that before it waits, a pipeline does not.
import BareBones.ShellLines

namespace bare_bones.shell

/-! ## The events of a line -/

/-- Each wait is for a positive pid that was answered, before it, to the creation of a
process in the foreground; `children` are those answered so far. -/
def waitsWell : List Int16 → List Event → Prop
  | _, [] => True
  | children, .createProcess request pid :: es =>
    waitsWell (if request.background then children else pid :: children) es
  | children, .waitProcess pid :: es => 0 < pid ∧ pid ∈ children ∧ waitsWell children es
  | children, _ :: es => waitsWell children es

/-- Neither a creation nor a wait. -/
def Event.quiet : Event → Prop
  | .createProcess _ _ => False
  | .waitProcess _ => False
  | _ => True

theorem waitsWell_quiet {es : List Event} (h : ∀ e ∈ es, e.quiet) (children : List Int16)
    (more : List Event) : waitsWell children (es ++ more) ↔ waitsWell children more := by
  induction es with
  | nil => rfl
  | cons e es ih =>
    have he := h e List.mem_cons_self
    rw [List.cons_append, ← ih fun e he => h e (List.mem_cons_of_mem _ he)]
    cases e with
    | createProcess request pid => exact he.elim
    | waitProcess pid => exact he.elim
    | _ => rfl

theorem waitsWell_of_quiet {es : List Event} (h : ∀ e ∈ es, e.quiet) (children : List Int16) :
    waitsWell children es := by
  rw [← List.append_nil es, waitsWell_quiet h]
  trivial

theorem quiet_map {α : Type} {f : α → Event} (hf : ∀ a, (f a).quiet) (l : List α) :
    ∀ e ∈ l.map f, e.quiet := by
  intro e he
  obtain ⟨a, -, rfl⟩ := List.mem_map.mp he
  exact hf a

theorem quiet_append {es es' : List Event} (h : ∀ e ∈ es, e.quiet) (h' : ∀ e ∈ es', e.quiet) :
    ∀ e ∈ es ++ es', e.quiet := by
  intro e he
  rcases List.mem_append.mp he with he | he
  · exact h e he
  · exact h' e he

theorem quiet_split_args (line : List UInt8) : ∀ e ∈ (split_args line).2.2, e.quiet :=
  quiet_map (f := .argv) (fun _ => trivial) _

theorem quiet_separate_cmds (w : World) (argv : Cells) :
    ∀ e ∈ (separate_cmds w argv).2.2, e.quiet :=
  quiet_append (quiet_map (f := .cmd1) (fun _ => trivial) _)
    (quiet_map (f := .cmd2) (fun _ => trivial) _)

theorem quiet_lookup (w : World) (needle : Option Word) : ∀ e ∈ (lookup w needle).2, e.quiet :=
  quiet_map (f := fun (i : Nat) => .list i) (fun _ => trivial) _

theorem quiet_check_fore (write : Nat → Event) (hw : ∀ i, (write i).quiet) (argv : Cells)
    (argc : Nat) : ∀ e ∈ (check_fore write argv argc).2.2.2, e.quiet := by
  intro e he
  unfold check_fore at he
  split_ifs at he
  · simp at he
  · rw [List.mem_singleton.mp he]
    exact hw _
  · simp at he

theorem quiet_set_cmd (w : World) (write : Nat → Event) (hw : ∀ i, (write i).quiet)
    (argv : Cells) : ∀ e ∈ (set_cmd w write argv).2, e.quiet :=
  quiet_append (quiet_check_fore write hw _ _) (quiet_lookup w _)

theorem quiet_remove_name (argv : Cells) (argc : Nat) :
    ∀ e ∈ (remove_name argv argc).2.2, e.quiet := by
  unfold remove_name
  dsimp only
  split_ifs
  · simp
  · apply quiet_append (quiet_map (f := .argv) (fun _ => trivial) _)
    simp [Event.quiet]
  · exact quiet_map (f := .argv) (fun _ => trivial) _

theorem quiet_freeAll : ∀ e ∈ freeAll, e.quiet := by simp [freeAll, Event.quiet]

/-! ## The handlers called for a line -/

def handlerOf (i : Int) : Option Handler := instruction_handlers[i.toNat]?

/-- The command becomes a process in the foreground when the kernel gives it one. -/
def forks (cmd : command) (h : Handler) : Prop := cmd.ground ∧ accepts cmd.arguments cmd.argc h

/-- The answer to the call of a handler, and the children after it. A positive answer
is that of a process in the foreground. -/
theorem callHandler_waits (cmd : command) {i : Int} {h : Handler} (hi : handlerOf i = some h)
    (stdin stdout : Int32) (pid : Int16) : ∃ events answer,
      callHandler cmd i stdin stdout pid = (events, some answer) ∧
      (0 < answer ↔ forks cmd h ∧ 0 < pid) ∧
      ∃ born, (forks cmd h → answer = pid ∧ born = [pid]) ∧
        ∀ children more,
          waitsWell children (events ++ more) ↔ waitsWell (born ++ children) more := by
  have hcall : callHandler cmd i stdin stdout pid =
      ([.handler i, .call h] ++
        (handle cmd.arguments cmd.argc cmd.ground stdin stdout pid h).1,
        some (handle cmd.arguments cmd.argc cmd.ground stdin stdout pid h).2) := by
    unfold handlerOf at hi
    unfold callHandler
    rw [hi]
  have hanswers := handle_answers cmd.arguments cmd.argc cmd.ground stdin stdout pid h
  refine ⟨_, _, hcall, ?_⟩
  by_cases hacc : accepts cmd.arguments cmd.argc h
  · obtain ⟨request, hback, hr⟩ := hanswers.launched hacc
    rw [hr]
    by_cases hg : cmd.ground = true
    · refine ⟨by simp [forks, hg, hacc], [pid], by simp [hg], fun children more => ?_⟩
      simp [waitsWell, hback, hg]
    · refine ⟨by simp [forks, hg], [], fun hf => absurd hf.1 hg, fun children more => ?_⟩
      simp [waitsWell, hback, hg]
  · obtain ⟨text, hr⟩ := hanswers.refused hacc
    rw [hr]
    refine ⟨?_, [], fun hf => absurd hf.2 hacc, fun children more => ?_⟩
    · have hneg : ¬ (0 : Int16) < -1 := by decide
      simp [forks, hacc, hneg]
    · simp [waitsWell]

theorem callHandler_fault {cmd : command} {i : Int} (hi : handlerOf i = none)
    (stdin stdout : Int32) (pid : Int16) :
    callHandler cmd i stdin stdout pid = ([.handler i, .fault], none) := by
  unfold handlerOf at hi
  unfold callHandler
  rw [hi]

/-- The two commands of a pipeline get as far as two processes to wait for. -/
def starts (w : World) (cmd1 cmd2 : command) (h1 h2 : Handler) : Prop :=
  cmd1.instruction ≠ -1 ∧ cmd2.instruction ≠ -1 ∧
    ¬ (IS_BUILT_IN cmd1.instruction ∨ IS_BUILT_IN cmd2.instruction) ∧ ¬ w.pipe_create < 0 ∧
    handlerOf (cmd1.instruction - FONT_SIZE - 1) = some h1 ∧
    handlerOf (cmd2.instruction - FONT_SIZE - 1) = some h2

/-- Both sides of a pipeline that starts are in the foreground, with the arguments that
their handlers ask for, and both are created. -/
def bothFork (w : World) (cmd1 cmd2 : command) : Prop :=
  ∀ h1 h2, starts w cmd1 cmd2 h1 h2 →
    forks cmd1 h1 ∧ 0 < w.firstPid ∧ forks cmd2 h2 ∧ 0 < w.secondPid

theorem handle_piped_commands_waits (w : World) (cmd1 cmd2 : command) :
    waitsWell [] (handle_piped_commands w cmd1 cmd2) ↔ bothFork w cmd1 cmd2 := by
  unfold handle_piped_commands
  split_ifs with hinvalid hbuiltin hpipe
  · refine ⟨fun _ h1 h2 hs => ?_, fun _ => waitsWell_of_quiet quiet_freeAll []⟩
    rcases hinvalid with hi | hi
    · exact absurd hi hs.1
    · exact absurd hi hs.2.1
  · refine ⟨fun _ h1 h2 hs => absurd hbuiltin hs.2.2.1,
      fun _ => waitsWell_of_quiet quiet_freeAll []⟩
  · refine ⟨fun _ h1 h2 hs => absurd hpipe hs.2.2.2.1,
      fun _ => waitsWell_of_quiet quiet_freeAll []⟩
  · rw [not_or] at hinvalid
    cases hh1 : handlerOf (cmd1.instruction - FONT_SIZE - 1) with
    | none =>
      rw [callHandler_fault hh1]
      refine ⟨fun _ h1 h2 hs => ?_, fun _ => trivial⟩
      cases hh1.symm.trans hs.2.2.2.2.1
    | some h1 =>
      obtain ⟨events1, answer1, hcall1, hpos1, born1, hborn1, hwaits1⟩ :=
        callHandler_waits _ hh1 STDIN w.pipe_create w.firstPid
      rw [hcall1]
      change waitsWell [] (events1 ++ _) ↔ _
      rw [hwaits1]
      cases hh2 : handlerOf (cmd2.instruction - FONT_SIZE - 1) with
      | none =>
        rw [callHandler_fault hh2]
        refine ⟨fun _ h1 h2 hs => ?_, fun _ => trivial⟩
        cases hh2.symm.trans hs.2.2.2.2.2
      | some h2 =>
        obtain ⟨events2, answer2, hcall2, hpos2, born2, hborn2, hwaits2⟩ :=
          callHandler_waits _ hh2 w.pipe_create STDOUT w.secondPid
        have hstarts : starts w cmd1 cmd2 h1 h2 :=
          ⟨hinvalid.1, hinvalid.2, hbuiltin, hpipe, hh1, hh2⟩
        rw [hcall2]
        change waitsWell _ (events2 ++ _) ↔ _
        rw [hwaits2]
        constructor
        · rintro ⟨hw1, -, hw2, -⟩ h1' h2' hs
          cases hh1.symm.trans hs.2.2.2.2.1
          cases hh2.symm.trans hs.2.2.2.2.2
          exact ⟨(hpos1.mp hw1).1, (hpos1.mp hw1).2, (hpos2.mp hw2).1, (hpos2.mp hw2).2⟩
        · intro hall
          obtain ⟨hf1, hp1, hf2, hp2⟩ := hall h1 h2 hstarts
          obtain ⟨rfl, rfl⟩ := hborn1 hf1
          obtain ⟨rfl, rfl⟩ := hborn2 hf2
          simp [waitsWell, hp1, hp2]

/-- A single command waits only for a positive answer. -/
theorem handle_process_command_waits (w : World) (argv : Cells) (argc : Nat) (inst_n : Int) :
    waitsWell [] (handle_process_command w argv argc inst_n) := by
  unfold handle_process_command
  dsimp only
  rw [waitsWell_quiet (quiet_check_fore .argv (fun _ => trivial) argv argc)]
  generalize (⟨inst_n, _, _, _⟩ : command) = cmd
  cases hh : handlerOf (inst_n - CLEAR) with
  | none =>
    rw [callHandler_fault hh]
    trivial
  | some h =>
    obtain ⟨events, answer, hcall, hpos, born, hborn, hwaits⟩ :=
      callHandler_waits cmd hh STDIN STDOUT w.firstPid
    rw [hcall]
    change waitsWell [] (events ++ _)
    rw [hwaits]
    split_ifs with hneg hzero
    · trivial
    · trivial
    · have hanswer : 0 < answer := by
        rw [Int16.lt_iff_toInt_lt] at hneg ⊢
        rw [← Int16.toInt_inj] at hzero
        simp only [Int16.toInt_zero] at hneg hzero ⊢
        omega
      obtain ⟨rfl, rfl⟩ := hborn (hpos.mp hanswer).1
      simp [waitsWell, hanswer]

/-- The commands of a line that is taken for a pipeline. -/
def pipelineOf (w : World) (line : List UInt8) : Option (command × command) :=
  let (argv, argc, _) := split_args line
  if argc ≠ 0 ∧ (str_in_list (some bar) argv MAX_ARGS).1 ≠ -1 ∧ w.pipeCmd then
    some ((set_cmd w .cmd1 (separate_cmds w argv).1).1,
      (set_cmd w .cmd2 (separate_cmds w argv).2.1).1)
  else none

theorem waits_single {w : World} {line : List UInt8}
    (hbar : (str_in_list (some bar) (split_args line).1 MAX_ARGS).1 = -1) :
    waitsWell [] (run_line w line) := by
  unfold run_line
  dsimp only
  rw [waitsWell_quiet (quiet_split_args line)]
  split
  · trivial
  · rw [if_neg (not_not.mpr hbar), waitsWell_quiet (quiet_lookup w _)]
    split_ifs
    · trivial
    · rw [waitsWell_quiet (quiet_remove_name _ _)]
      split <;> trivial
    · exact handle_process_command_waits w _ _ _

theorem waits_pipeline (w : World) (line : List UInt8) :
    waitsWell [] (run_line w line) ↔
      ∀ cmds ∈ pipelineOf w line, bothFork w cmds.1 cmds.2 := by
  by_cases hpipe : (split_args line).2.1 ≠ 0 ∧
      (str_in_list (some bar) (split_args line).1 MAX_ARGS).1 ≠ -1 ∧ w.pipeCmd
  · obtain ⟨hargc, hbar, hrecord⟩ := hpipe
    have hquiet := quiet_append (quiet_append (quiet_separate_cmds w (split_args line).1)
      (quiet_set_cmd w .cmd1 (fun _ => trivial) (separate_cmds w (split_args line).1).1))
      (quiet_set_cmd w .cmd2 (fun _ => trivial)
        (separate_cmds w (split_args line).1).2.1)
    unfold run_line pipelineOf
    dsimp only
    rw [waitsWell_quiet (quiet_split_args line), if_neg hargc, if_pos hbar, if_pos hrecord,
      waitsWell_quiet hquiet, handle_piped_commands_waits, if_pos ⟨hargc, hbar, hrecord⟩]
    simp
  · have hnone : pipelineOf w line = none := if_neg hpipe
    rw [hnone]
    refine ⟨fun _ cmds h => (nomatch h), fun _ => ?_⟩
    by_cases hbar : (str_in_list (some bar) (split_args line).1 MAX_ARGS).1 = -1
    · exact waits_single hbar
    · unfold run_line
      dsimp only
      rw [waitsWell_quiet (quiet_split_args line)]
      by_cases hargc : (split_args line).2.1 = 0
      · rw [if_pos hargc]
        trivial
      · have hrecord : ¬ w.pipeCmd = true := fun h => hpipe ⟨hargc, hbar, h⟩
        rw [if_neg hargc, if_pos hbar, if_neg hrecord]
        trivial

/-! ## The condition on the words -/

/-- The application that a word names. -/
def handlerNamed (x : Option Word) : Option Handler :=
  instruction_handlers.find? fun h => some (handlerName h) = x

/-- A side of a pipeline with no mark of the background, with the arguments that its
handler asks for, that the kernel made a process of. -/
def sideForks (l : List Word) (h : Handler) (pid : Int16) : Prop :=
  ¬ marked l ∧ accepts (fun i => l[i]?) l.length h ∧ 0 < pid

/-- If the line is a pipeline of two applications, with its record and its pipe served,
then both sides become processes in the foreground. -/
def pipelineForks (w : World) (line : List UInt8) : Prop :=
  bar ∈ wordsOf line → w.pipeCmd → ¬ w.pipe_create < 0 →
    ∀ h1 ∈ handlerNamed (unmarked (side1 (wordsOf line))).head?,
      ∀ h2 ∈ handlerNamed (unmarked (side2 (wordsOf line))).head?,
        sideForks (side1 (wordsOf line)) h1 w.firstPid ∧
          sideForks (side2 (wordsOf line)) h2 w.secondPid

theorem handlerNamed_listed : ∀ x ∈ instruction_list,
    ¬ IS_BUILT_IN (instruction_list.idxOf x) →
      handlerOf (instruction_list.idxOf x - FONT_SIZE - 1) = handlerNamed (some x) := by decide

theorem handlerNamed_builtIn : ∀ x ∈ instruction_list,
    IS_BUILT_IN (instruction_list.idxOf x) → handlerNamed (some x) = none := by decide

theorem handlerName_listed : ∀ h ∈ instruction_handlers, handlerName h ∈ instruction_list := by
  decide

/-- The entry that is called for a word that was looked up, if any. -/
theorem lookup_handler (w : World) (x : Option Word) (h : Handler) :
    ((lookup w x).1 ≠ -1 ∧ ¬ IS_BUILT_IN (lookup w x).1 ∧
      handlerOf ((lookup w x).1 - FONT_SIZE - 1) = some h) ↔ handlerNamed x = some h := by
  cases x with
  | none =>
    have hnone : handlerNamed none = none := by decide
    simp [hnone, lookup, str_in_list, IS_BUILT_IN, FONT_SIZE]
  | some x =>
    by_cases hx : x ∈ instruction_list
    · rw [lookup_known w hx]
      dsimp only
      by_cases hbuiltin : IS_BUILT_IN (instruction_list.idxOf x)
      · simp [hbuiltin, handlerNamed_builtIn x hx hbuiltin]
      · have hne : ((instruction_list.idxOf x : Nat) : Int) ≠ -1 := by omega
        simp [hbuiltin, hne, handlerNamed_listed x hx hbuiltin]
    · have hnone : handlerNamed (some x) = none := by
        rw [handlerNamed, List.find?_eq_none]
        intro h hh he
        have := handlerName_listed h hh
        simp only [Option.some.injEq, decide_eq_true_eq] at he
        exact hx (he ▸ this)
      rw [hnone]
      rcases (lookup_unknown w hx).2 with hi | hi
      · simp [hi]
      · have hbehind : handlerOf ((lookup w (some x)).1 - FONT_SIZE - 1) = none := by
          unfold handlerOf FONT_SIZE
          apply List.getElem?_eq_none
          have : instruction_handlers.length = 11 := rfl
          omega
        simp [hbehind]

theorem accepts_congr {cells : Cells} {l : List Word} (h : Holds cells l) (g : Handler) :
    accepts cells l.length g ↔ accepts (fun i => l[i]?) l.length g := by
  have hcell : ∀ i, i ≤ l.length → cells i = l[i]? := h
  cases g with
  | test_mm => by_cases hl : 1 ≤ l.length <;> simp_all [accepts]
  | test_processes => by_cases hl : 1 ≤ l.length <;> simp_all [accepts]
  | test_priority => by_cases hl : 1 ≤ l.length <;> simp_all [accepts]
  | mvar =>
    by_cases hl : 2 ≤ l.length
    · have h1 := hcell 1 (by omega)
      have h2 := hcell 2 hl
      simp [accepts, h1, h2]
    · simp only [accepts]
      constructor <;> exact fun hacc => absurd hacc.1 (by omega)
  | _ => rfl

/-- The command of a side forks as the words of the side say. -/
theorem forks_iff {l : List Word} {args : Cells} (hargs : Holds args (unmarked l)) (i : Int)
    (h : Handler) : forks ⟨i, args, (unmarked l).length, !marked l⟩ h ↔
      ¬ marked l ∧ accepts (fun i => l[i]?) l.length h := by
  unfold forks
  dsimp only
  rw [accepts_congr hargs]
  by_cases hm : marked l = true
  · simp [hm]
  · have hsame : unmarked l = l := if_neg hm
    simp [hm, hsame]

theorem bothFork_iff (w : World) {l1 l2 : List Word} {args1 args2 : Cells}
    (hargs1 : Holds args1 (unmarked l1)) (hargs2 : Holds args2 (unmarked l2)) :
    bothFork w ⟨(lookup w (unmarked l1).head?).1, args1, (unmarked l1).length, !marked l1⟩
        ⟨(lookup w (unmarked l2).head?).1, args2, (unmarked l2).length, !marked l2⟩ ↔
      (¬ w.pipe_create < 0 → ∀ h1 ∈ handlerNamed (unmarked l1).head?,
        ∀ h2 ∈ handlerNamed (unmarked l2).head?,
          sideForks l1 h1 w.firstPid ∧ sideForks l2 h2 w.secondPid) := by
  unfold bothFork
  simp only [forks_iff hargs1, forks_iff hargs2]
  constructor
  · intro hall hpipe h1 hh1 h2 hh2
    obtain ⟨hi1, hb1, he1⟩ := (lookup_handler w _ h1).mpr hh1
    obtain ⟨hi2, hb2, he2⟩ := (lookup_handler w _ h2).mpr hh2
    obtain ⟨hf1, hp1, hf2, hp2⟩ :=
      hall h1 h2 ⟨hi1, hi2, not_or.mpr ⟨hb1, hb2⟩, hpipe, he1, he2⟩
    exact ⟨⟨hf1.1, hf1.2, hp1⟩, hf2.1, hf2.2, hp2⟩
  · rintro hall h1 h2 ⟨hi1, hi2, hb, hpipe, he1, he2⟩
    rw [not_or] at hb
    obtain ⟨hs1, hs2⟩ := hall hpipe h1 ((lookup_handler w _ h1).mp ⟨hi1, hb.1, he1⟩)
      h2 ((lookup_handler w _ h2).mp ⟨hi2, hb.2, he2⟩)
    exact ⟨⟨hs1.1, hs1.2.1⟩, hs1.2.2, ⟨hs2.1, hs2.2.1⟩, hs2.2.2⟩

/-- The shell waits only for what it created in the foreground, exactly when each side
of the line becomes such a process, if the line is a pipeline that starts. -/
theorem run_line_waits_iff (w : World) (line : List UInt8) :
    waitsWell [] (run_line w line) ↔ pipelineForks w line := by
  rw [waits_pipeline]
  unfold pipelineForks
  by_cases hpipe : bar ∈ wordsOf line ∧ w.pipeCmd = true
  · obtain ⟨hbar, hrecord⟩ := hpipe
    obtain ⟨hsep, hne⟩ := bar_line hbar
    obtain ⟨args1, args2, hargs1, hargs2, hcmd1, hcmd2⟩ := commands_eq w hbar
    have hargc : (split_args line).2.1 ≠ 0 := by
      rw [(split_args_words line).2]
      exact fun h => hne (List.length_eq_zero_iff.mp h)
    have hcmds : pipelineOf w line = some
        ((set_cmd w .cmd1 (separate_cmds w (split_args line).1).1).1,
          (set_cmd w .cmd2 (separate_cmds w (split_args line).1).2.1).1) :=
      if_pos ⟨hargc, hsep, hrecord⟩
    rw [hcmds, hcmd1, hcmd2]
    simp only [Option.mem_def, Option.some.injEq, forall_eq', hbar, hrecord, true_imp_iff]
    exact bothFork_iff w hargs1 hargs2
  · have hnone : pipelineOf w line = none := by
      apply if_neg
      rintro ⟨-, hsep, hrecord⟩
      exact hsep (single_line fun hbar => hpipe ⟨hbar, hrecord⟩)
    rw [hnone]
    refine ⟨fun _ hbar hrecord => absurd ⟨hbar, hrecord⟩ hpipe, fun _ cmds h => ?_⟩
    exact absurd h (by simp)

/-- A pipeline with its second side in the background waits for pid 0. -/
theorem background_pipeline_waits_for_idle :
    ¬ waitsWell [] (run_line ⟨fun _ => none, fun _ => none, fun _ => none, true, 3, 2, 3⟩
      (word "cat | wc &")) := by
  intro h
  have hzero : (0 : Int16) < 0 := h.2.2.1
  exact absurd hzero (by decide)

end bare_bones.shell
