import Mathlib
import Lox.Console.Answer
import Lox.Proofs.Lines
import Lox.Proofs.Reparsed
import Lox.Proofs.Sessions

/-! What a session keeps account of. A text adds what its phases find, in their order, and it is
executed only if they find nothing; the flags and the faults that are held tell of all that was added
since they were last cleared. -/

namespace Lox

open Machine

/-- A program that is stopped by a fault adds that one. -/
def Machine.Signal.faults : Signal → List Fault
  | .failed fault => [.runtime fault]
  | .done _ | .returned _ => []

namespace Session

/-- What the scan of a text complains of. -/
def lexical (source : String) : List Fault := Source.faults (Source.scan source)

/-- The parse of a text's tokens, with the next numbers of a session. -/
def parsed (session : Session) (source : String) : Tree.Parsed :=
  Tree.parse (Source.tokens (Source.scan source)) session.nextId

/-- The faults that one text adds. A scan that finds some lets the text be parsed and resolved, but
not executed; a parse or a walk that finds some ends it. -/
inductive Adds (session : Session) (source : String) : List Fault → Prop
  | unparsed {faults : List Fault} : (session.parsed source).result = .error faults →
      session.Adds source (lexical source ++ faults)
  | unresolved {program : List Stmt} {faults : List StaticFault} :
      (session.parsed source).result = .ok program → Resolution.resolve program = .error faults →
      session.Adds source (lexical source ++ faults.map .static)
  | unscanned {program : List Stmt} {distances : List (Nat × Nat)} :
      (session.parsed source).result = .ok program → Resolution.resolve program = .ok distances →
      lexical source ≠ [] → session.Adds source (lexical source)
  | executed {program : List Stmt} {distances : List (Nat × Nat)} {steps : Nat}
      {ending : Signal × State} :
      (session.parsed source).result = .ok program → Resolution.resolve program = .ok distances →
      lexical source = [] →
      Machine.run steps (interpreting program (session.machine.record distances)) = some ending →
      session.Adds source ending.1.faults

/-- No phase before the execution finds anything. -/
structure Passes (session : Session) (source : String) (program : List Stmt) : Prop where
  scanned : lexical source = []
  parsed : (session.parsed source).result = .ok program
  resolved : ∃ distances, Resolution.resolve program = .ok distances

end Session

/-! ### Reports -/

namespace Report

theorem addAll_faults (report : Report) (faults : List Fault) :
    (report.addAll faults).faults = report.faults ++ faults := by
  induction faults generalizing report with
  | nil => simp [addAll]
  | cons fault rest ih =>
    have later := ih (report.add fault)
    simpa [addAll, add] using later

theorem addAll_hadError (report : Report) (faults : List Fault) :
    (report.addAll faults).hadError = (report.hadError || faults.any Fault.isStatic) := by
  induction faults generalizing report with
  | nil => simp [addAll]
  | cons fault rest ih =>
    have later := ih (report.add fault)
    simpa [addAll, add, Bool.or_assoc] using later

theorem addAll_hadRuntimeError (report : Report) (faults : List Fault) :
    (report.addAll faults).hadRuntimeError =
      (report.hadRuntimeError || faults.any (!·.isStatic)) := by
  induction faults generalizing report with
  | nil => simp [addAll]
  | cons fault rest ih =>
    have later := ih (report.add fault)
    simpa [addAll, add, Bool.or_assoc] using later

theorem addAll_append (report : Report) (first second : List Fault) :
    report.addAll (first ++ second) = (report.addAll first).addAll second :=
  List.foldl_append

theorem exitCode_static (report : Report) : report.exitCode = 65 ↔ report.hadError := by
  obtain ⟨_, hadError, hadRuntimeError⟩ := report
  cases hadError <;> cases hadRuntimeError <;> simp [exitCode]

theorem exitCode_runtime (report : Report) :
    report.exitCode = 70 ↔ ¬report.hadError ∧ report.hadRuntimeError := by
  obtain ⟨_, hadError, hadRuntimeError⟩ := report
  cases hadError <;> cases hadRuntimeError <;> simp [exitCode]

theorem exitCode_clean (report : Report) :
    report.exitCode = 0 ↔ ¬report.hadError ∧ ¬report.hadRuntimeError := by
  obtain ⟨_, hadError, hadRuntimeError⟩ := report
  cases hadError <;> cases hadRuntimeError <;> simp [exitCode]

end Report

/-! ### What the phases find -/

namespace Session

variable {session after : Session} {source : String} {program : List Stmt} {steps : Nat}

/-- The complaints of a scan come in the order of the text. -/
theorem lexical_sorted (source : String) :
    ((lexical source).filterMap Fault.line?).Pairwise (· ≤ ·) := by
  have sorted := Source.scan_sorted source
  unfold lexical Source.faults
  rw [List.filterMap_filterMap, List.pairwise_filterMap]
  refine sorted.imp ?_
  intro first second order line given line' given'
  cases first <;> cases second <;> simp only [Option.bind_none, Option.bind_some, Fault.line?,
    reduceCtorEq, Option.some.injEq] at given given'
  exact given ▸ given' ▸ order

theorem lexical_static {fault : Fault} (member : fault ∈ lexical source) : fault.isStatic := by
  obtain ⟨item, _, same⟩ := List.mem_filterMap.mp member
  cases item <;> cases same
  rfl

/-- All that a parse complains of keeps the text from being executed. -/
theorem parsed_static {faults : List Fault} (failed : (session.parsed source).result = .error faults)
    {fault : Fault} (member : fault ∈ faults) : fault.isStatic := by
  let itself : Likeness := ⟨fun _ => none, Eq, id, id, fun _ => rfl, fun _ => rfl, rfl, rfl⟩
  have tokens : List.Forall₂ itself.Same (Source.tokens (Source.scan source))
      (Source.tokens (Source.scan source)) := List.forall₂_same.mpr fun token _ => .refl token
  have steady : ∀ id, session.nextId ≤ id → itself.number (id + 1) = itself.number id + 1 :=
    fun _ _ => rfl
  have like : Tree.ResultLike itself (session.parsed source).result (session.parsed source).result :=
    (Tree.parse_like tokens steady).1
  rw [failed] at like
  cases like with
  | error moved => exact ((List.forall₂_same.mp moved) fault member).isStatic

theorem run_more {steps : Nat} {config : Config} {ending : Signal × State}
    (ends : Machine.run steps config = some ending) (extra : Nat) :
    Machine.run (steps + extra) config = some ending := by
  induction extra with
  | zero => exact ends
  | succ extra ih => exact run_succ ih

theorem run_unique {first second : Nat} {config : Config} {ending other : Signal × State}
    (ends : Machine.run first config = some ending) (ends' : Machine.run second config = some other) :
    ending = other := by
  have given := run_more ends second
  rw [Nat.add_comm, run_more ends' first] at given
  exact (Option.some.inj given).symm

/-- A text adds what it adds, however many steps it may take. -/
theorem Adds.unique {faults others : List Fault} (adds : session.Adds source faults)
    (adds' : session.Adds source others) : faults = others := by
  cases adds with
  | unparsed failed =>
    cases adds' with
    | unparsed failed' =>
      rw [failed] at failed'
      cases failed'
      rfl
    | unresolved parsed' | unscanned parsed' | executed parsed' =>
      rw [failed] at parsed'
      cases parsed'
  | unresolved parsed broken =>
    cases adds' with
    | unparsed failed' =>
      rw [parsed] at failed'
      cases failed'
    | unresolved parsed' broken' =>
      rw [parsed] at parsed'
      cases parsed'
      rw [broken] at broken'
      cases broken'
      rfl
    | unscanned parsed' resolved' | executed parsed' resolved' =>
      rw [parsed] at parsed'
      cases parsed'
      rw [broken] at resolved'
      cases resolved'
  | unscanned parsed resolved dirty =>
    cases adds' with
    | unparsed failed' =>
      rw [parsed] at failed'
      cases failed'
    | unresolved parsed' broken' =>
      rw [parsed] at parsed'
      cases parsed'
      rw [resolved] at broken'
      cases broken'
    | unscanned => rfl
    | executed _ _ clean => exact absurd clean dirty
  | executed parsed resolved clean ends =>
    cases adds' with
    | unparsed failed' =>
      rw [parsed] at failed'
      cases failed'
    | unresolved parsed' broken' =>
      rw [parsed] at parsed'
      cases parsed'
      rw [resolved] at broken'
      cases broken'
    | unscanned _ _ dirty => exact absurd clean dirty
    | executed parsed' resolved' _ ends' =>
      rw [parsed] at parsed'
      cases parsed'
      rw [resolved] at resolved'
      cases resolved'
      rw [run_unique ends ends']

/-- Either a text is kept from being executed, or it is stopped at most once. -/
theorem Adds.kinds {faults : List Fault} (adds : session.Adds source faults) :
    (∀ fault ∈ faults, fault.isStatic) ∨ ∃ fault, faults = [.runtime fault] := by
  cases adds with
  | unparsed failed =>
    refine .inl fun fault member => ?_
    rcases List.mem_append.mp member with scanned | parsed
    · exact lexical_static scanned
    · exact parsed_static failed parsed
  | unresolved =>
    refine .inl fun fault member => ?_
    rcases List.mem_append.mp member with scanned | walked
    · exact lexical_static scanned
    · obtain ⟨breach, _, same⟩ := List.mem_map.mp walked
      cases same
      rfl
  | unscanned => exact .inl fun fault member => lexical_static member
  | @executed _ _ _ ending =>
    cases shape : ending.1 with
    | done | returned => exact .inl fun fault => List.not_mem_nil.elim
    | failed fault => exact .inr ⟨fault, rfl⟩

/-- A session after a text was prepared: it is refused with all it adds, or accepted without. -/
inductive Gated (session : Session) (source : String) (after : Session) : Option (List Stmt) → Prop
  | refused {faults : List Fault} {table : List (Nat × Nat)} :
      session.Adds source faults → (∀ program, ¬session.Passes source program) →
      after.report = session.report.addAll faults → after.machine = session.machine.record table →
      Gated session source after none
  | accepted {program : List Stmt} {distances : List (Nat × Nat)} :
      session.Passes source program → Resolution.resolve program = .ok distances →
      after.report = session.report → after.machine = session.machine.record distances →
      Gated session source after (some program)

section Prepare

variable {faults : List StaticFault} {distances : List (Nat × Nat)}

theorem prepare_unparsed {faults : List Fault}
    (failed : (session.parsed source).result = .error faults) :
    session.prepare source = (⟨session.machine, session.report.addAll (lexical source ++ faults),
      (session.parsed source).nextId⟩, none) := by
  have given : (Tree.parse (Source.tokens (Source.scan source)) session.nextId).result = _ := failed
  unfold prepare
  dsimp only
  rw [given, Report.addAll_append]
  rfl

theorem prepare_unresolved (parsed : (session.parsed source).result = .ok program)
    (broken : Resolution.resolve program = .error faults) :
    session.prepare source =
      (⟨session.machine, session.report.addAll (lexical source ++ faults.map .static),
        (session.parsed source).nextId⟩, none) := by
  have given : (Tree.parse (Source.tokens (Source.scan source)) session.nextId).result = _ := parsed
  unfold prepare
  dsimp only
  rw [given, Report.addAll_append]
  dsimp only [resolve]
  rw [broken]
  rfl

theorem prepare_resolved (parsed : (session.parsed source).result = .ok program)
    (resolved : Resolution.resolve program = .ok distances) :
    session.prepare source =
      (⟨session.machine.record distances, session.report.addAll (lexical source),
        (session.parsed source).nextId⟩, if (lexical source).isEmpty then some program else none) := by
  have given : (Tree.parse (Source.tokens (Source.scan source)) session.nextId).result = _ := parsed
  unfold prepare
  dsimp only
  rw [given]
  dsimp only [resolve]
  rw [resolved]
  rfl

end Prepare

theorem gated_prepare (session : Session) (source : String) :
    session.Gated source (session.prepare source).1 (session.prepare source).2 := by
  have unchanged := (State.record_nil session.machine).symm
  cases parsed : (session.parsed source).result with
  | error faults =>
    rw [prepare_unparsed parsed]
    refine .refused (.unparsed parsed) ?_ rfl unchanged
    intro program passes
    cases parsed.symm.trans passes.parsed
  | ok program =>
    cases resolved : Resolution.resolve program with
    | error faults =>
      rw [prepare_unresolved parsed resolved]
      refine .refused (.unresolved parsed resolved) ?_ rfl unchanged
      rintro other ⟨_, parsed', distances, resolved'⟩
      cases parsed.symm.trans parsed'
      cases resolved.symm.trans resolved'
    | ok distances =>
      rw [prepare_resolved parsed resolved]
      by_cases clean : lexical source = []
      · rw [clean]
        exact .accepted ⟨clean, parsed, distances, resolved⟩ resolved rfl rfl
      · rw [List.isEmpty_eq_false_iff.mpr clean]
        exact .refused (.unscanned parsed resolved clean) (fun _ passes => clean passes.scanned)
          rfl rfl

/-- A text that is executed adds nothing that would have kept it back. -/
theorem Passes.adds {faults : List Fault} (passes : session.Passes source program)
    (adds : session.Adds source faults) :
    ∀ fault ∈ faults, ¬fault.isStatic := by
  obtain ⟨clean, parsed, distances, resolved⟩ := passes
  cases adds with
  | unparsed failed => cases failed.symm.trans parsed
  | unresolved parsed' broken =>
    cases parsed'.symm.trans parsed
    cases broken.symm.trans resolved
  | unscanned _ _ dirty => exact absurd clean dirty
  | @executed _ _ _ ending =>
    intro fault member
    cases shape : ending.1 with
    | done | returned =>
      rw [shape] at member
      cases member
    | failed given =>
      rw [shape] at member
      cases List.mem_singleton.mp member
      exact Bool.false_ne_true

/-- Nothing is executed of a text that adds a fault of the phases before. -/
theorem Adds.refused {faults : List Fault} (adds : session.Adds source faults)
    (static : ∃ fault ∈ faults, fault.isStatic) :
    ∀ program, ¬session.Passes source program := by
  obtain ⟨fault, member, kept⟩ := static
  exact fun program passes => passes.adds adds fault member kept

theorem Gated.nothing {session after : Session} {source : String} {program : Option (List Stmt)}
    (gated : session.Gated source after program)
    (fails : ∀ program, ¬session.Passes source program) : program = none := by
  cases gated with
  | refused => rfl
  | accepted passes => exact absurd passes (fails _)

theorem settle_report (session : Session) (ending : Signal × State) :
    (session.settle ending).report = session.report.addAll ending.1.faults := by
  unfold settle
  cases ending.1 <;> rfl

/-- Whatever a text adds is added when it is run. -/
theorem adds_of_run (ran : session.run steps source = some after) :
    ∃ faults, session.Adds source faults ∧ after.report = session.report.addAll faults := by
  have gated := session.gated_prepare source
  unfold run at ran
  generalize session.prepare source = result at gated ran
  obtain ⟨prepared, program⟩ := result
  cases gated with
  | refused adds _ report =>
    cases ran
    exact ⟨_, adds, report⟩
  | @accepted program distances passes resolved report machine =>
    obtain ⟨ending, ended, same⟩ := Option.map_eq_some_iff.mp ran
    dsimp only at machine report
    rw [machine] at ended
    refine ⟨_, .executed passes.parsed resolved passes.scanned ended, ?_⟩
    rw [← same, settle_report, report]

end Session

/-! ### Histories -/

/-- What a host does with the report of a session. -/
inductive Event
  | ran (faults : List Fault)
  | taken
  | reset

def Event.faults : Event → List Fault
  | .ran faults => faults
  | .taken | .reset => []

def Event.isTaken : Event → Bool
  | .taken => true
  | .ran _ | .reset => false

def Event.isReset : Event → Bool
  | .reset => true
  | .ran _ | .taken => false

/-- The faults that were added since an event of one kind, or ever. Events stand latest first. -/
def addedSince (stop : Event → Bool) : List Event → List Fault
  | [] => []
  | event :: earlier => if stop event then [] else addedSince stop earlier ++ event.faults

/-- What a host has done with a session so far. What it does with the machine, as when it takes the
text that was printed or defines a global, is no event. -/
inductive History (clock : Nat → Float) (broken : Bool) : List Event → Session → Prop
  | start : History clock broken [] (.start clock broken)
  | touched {events : List Event} {session : Session} (machine : State) :
      History clock broken events session → History clock broken events { session with machine }
  | ran {events : List Event} {session after : Session} {source : String} {faults : List Fault}
      {steps : Nat} : History clock broken events session → session.Adds source faults →
      session.run steps source = some after → History clock broken (.ran faults :: events) after
  | taken {events : List Event} {session : Session} :
      History clock broken events session →
      History clock broken (.taken :: events) session.takeFaults.2
  | reset {events : List Event} {session : Session} :
      History clock broken events session →
      History clock broken (.reset :: events) { session with report := session.report.reset }

namespace History

variable {clock : Nat → Float} {broken : Bool} {events : List Event} {session : Session}

/-- What a report tells of the events so far. -/
structure Tells (report : Report) (events : List Event) : Prop where
  hadError : report.hadError ↔ ∃ fault ∈ addedSince Event.isReset events, fault.isStatic
  hadRuntimeError : report.hadRuntimeError ↔ ∃ fault, .runtime fault ∈ addedSince (fun _ => false) events
  held : report.faults = addedSince Event.isTaken events

theorem any_runtime {source : String} {faults : List Fault} (adds : session.Adds source faults) :
    faults.any (!·.isStatic) ↔ ∃ fault, .runtime fault ∈ faults := by
  rcases adds.kinds with static | ⟨fault, rfl⟩
  · constructor
    · intro found
      obtain ⟨fault, member, runtime⟩ := List.any_eq_true.mp found
      simp [static fault member] at runtime
    · rintro ⟨fault, member⟩
      cases static _ member
  · exact ⟨fun _ => ⟨fault, List.mem_singleton.mpr rfl⟩, fun _ => rfl⟩

theorem tells (history : History clock broken events session) : Tells session.report events := by
  induction history with
  | start => exact ⟨by simp [Session.start, Report.empty, addedSince],
      by simp [Session.start, Report.empty, addedSince], rfl⟩
  | touched machine _ ih => exact ih
  | @ran events session after source faults steps _ adds ran ih =>
    obtain ⟨others, adds', report⟩ := Session.adds_of_run ran
    cases adds.unique adds'
    rw [report]
    refine ⟨?_, ?_, ?_⟩
    · rw [Report.addAll_hadError, Bool.or_eq_true, ih.hadError, List.any_eq_true]
      simp only [addedSince, Event.isReset, Event.faults, Bool.false_eq_true, if_false,
        List.mem_append, or_and_right, exists_or]
    · rw [Report.addAll_hadRuntimeError, Bool.or_eq_true, ih.hadRuntimeError, any_runtime adds]
      simp only [addedSince, Event.faults, Bool.false_eq_true, if_false, List.mem_append, exists_or]
    · rw [Report.addAll_faults, ih.held]
      rfl
  | taken _ ih =>
    refine ⟨?_, ?_, rfl⟩
    · simpa [addedSince, Event.isReset, Event.faults, Session.takeFaults, Report.take]
        using ih.hadError
    · simpa [addedSince, Event.faults, Session.takeFaults, Report.take] using ih.hadRuntimeError
  | reset _ ih =>
    refine ⟨?_, ?_, ?_⟩
    · simp [addedSince, Event.isReset, Report.reset]
    · simpa [addedSince, Event.faults, Report.reset] using ih.hadRuntimeError
    · simpa [addedSince, Event.isTaken, Event.faults, Report.reset] using ih.held

/-- What a session does with a text: the faults that are added are those its phases find, and it is
executed only if they find none. -/
structure Gates (session : Session) (source : String) : Prop where
  inOrder : ((Session.lexical source).filterMap Fault.line?).Pairwise (· ≤ ·)
  executes : (session.prepare source).2.isSome ↔ ∃ program, session.Passes source program
  refuses : (∀ program, ¬session.Passes source program) → ∀ steps, ∃ after table,
    session.run steps source = some after ∧ after.machine = session.machine.record table
  adds : ∀ steps after, session.run steps source = some after → ∃ faults,
    session.Adds source faults ∧ (∀ others, session.Adds source others → others = faults) ∧
      after.report.faults = session.report.faults ++ faults ∧
        ((∀ fault ∈ faults, fault.isStatic) ∨ ∃ fault, faults = [.runtime fault])

theorem gates (session : Session) (source : String) : Gates session source := by
  have gated := session.gated_prepare source
  refine ⟨Session.lexical_sorted source, ?_, ?_, ?_⟩
  · generalize session.prepare source = result at gated
    obtain ⟨prepared, program⟩ := result
    cases gated with
    | refused _ fails =>
      exact ⟨nofun, fun ⟨program, passes⟩ => absurd passes (fails program)⟩
    | accepted passes => exact ⟨fun _ => ⟨_, passes⟩, fun _ => rfl⟩
  · intro fails steps
    unfold Session.run
    generalize session.prepare source = result at gated
    obtain ⟨prepared, program⟩ := result
    cases gated with
    | refused _ _ _ machine => exact ⟨prepared, _, rfl, machine⟩
    | accepted passes => exact absurd passes (fails _)
  · intro steps after ran
    obtain ⟨faults, adds, report⟩ := Session.adds_of_run ran
    refine ⟨faults, adds, fun _ adds' => adds'.unique adds, ?_, adds.kinds⟩
    rw [report, Report.addAll_faults]

/-- What a script's command answers when its text adds these faults. -/
structure Answers (answer : Console.Answer) (faults : List Fault) : Prop where
  err : answer.err = Console.faultLines faults
  static : answer.code = 65 ↔ ∃ fault ∈ faults, fault.isStatic
  silent : answer.code = 65 → answer.out = ""
  runtime : answer.code = 70 ↔ ∃ fault, .runtime fault ∈ faults
  clean : answer.code = 0 ↔ faults = []

theorem silent_of_run {after : Session} {source : String} {steps : Nat} {faults : List Fault}
    (ran : session.run steps source = some after) (adds : session.Adds source faults)
    (static : ∃ fault ∈ faults, fault.isStatic) :
    after.machine.output = session.machine.output := by
  obtain ⟨other, table, ran', machine⟩ := (gates session source).refuses (adds.refused static) steps
  cases ran.symm.trans ran'
  rw [machine]
  rfl

theorem answers {after : Session} {source : String} {steps : Nat} {faults : List Fault}
    (ran : (Session.start clock broken).run steps source = some after)
    (adds : (Session.start clock broken).Adds source faults) :
    Answers (Console.conclude after) faults := by
  have tells := tells (.ran .start adds ran)
  have static : after.report.hadError ↔ ∃ fault ∈ faults, fault.isStatic := tells.hadError
  have runtime : after.report.hadRuntimeError ↔ ∃ fault, .runtime fault ∈ faults :=
    tells.hadRuntimeError
  have held : after.report.faults = faults := tells.held
  have ends65 : (Console.conclude after).code = 65 ↔ ∃ fault ∈ faults, fault.isStatic :=
    after.report.exitCode_static.trans static
  refine ⟨congrArg Console.faultLines held, ends65, ?_, ?_, ?_⟩
  · intro ended
    have same := silent_of_run ran adds (ends65.mp ended)
    exact congrArg Machine.Output.text same
  · refine after.report.exitCode_runtime.trans ?_
    rw [static, runtime]
    refine ⟨And.right, fun ⟨fault, member⟩ => ⟨?_, fault, member⟩⟩
    rintro ⟨other, there, kept⟩
    rcases adds.kinds with all | ⟨only, rfl⟩
    · cases all _ member
    · cases List.mem_singleton.mp there
      cases kept
  · refine after.report.exitCode_clean.trans ?_
    rw [static, runtime, List.eq_nil_iff_forall_not_mem]
    constructor
    · rintro ⟨kept, stopped⟩ fault member
      rcases adds.kinds with all | ⟨only, rfl⟩
      · exact kept ⟨fault, member, all fault member⟩
      · exact stopped ⟨only, List.mem_singleton.mpr rfl⟩
    · intro none
      exact ⟨fun ⟨fault, member, _⟩ => none fault member, fun ⟨fault, member⟩ => none _ member⟩

/-- The report of a session tells just of the faults that were added since it was cleared, and each
text adds what its phases find, in their order; a script ends by what its text adds. -/
theorem accounts (history : History clock broken events session) :
    Tells session.report events ∧ (∀ source, Gates session source) ∧
      ∀ content path input source steps after, Script.read (content path) = .ok source →
        (Session.start clock broken).run steps source = some after →
          ∃ faults answer, (Session.start clock broken).Adds source faults ∧
            Console.respond steps (.start clock broken) content input (.run path) = some answer ∧
              Answers answer faults := by
  refine ⟨history.tells, gates session, ?_⟩
  intro content path input source steps after read ran
  obtain ⟨faults, adds, _⟩ := Session.adds_of_run ran
  refine ⟨faults, Console.conclude after, adds, ?_, answers ran adds⟩
  simp only [Console.respond, read, Console.runScript, ran, Option.map_some]

theorem accounts_after_refusal : ∃ events session, History (fun _ => 0) false events session ∧
    events.length = 3 ∧ ¬session.report.hadError ∧ session.report.faults = [] := by
  let first := Session.start (fun _ => 0) false
  have failed : (first.parsed ")").result =
      .error [.parse 1 (some ")") (.missingPhrase "expression")] := by cbv
  have adds : first.Adds ")" (Session.lexical ")" ++ _) := .unparsed failed
  have refused : (first.prepare ")").2 = none := by cbv
  rcases prepared : first.prepare ")" with ⟨after, program⟩
  rw [prepared] at refused
  cases refused
  have ran : first.run 0 ")" = some after := by
    unfold Session.run
    rw [prepared]
  have begun : History (fun _ => 0) false [] first := .start
  have history := History.reset (.taken (.ran begun adds ran))
  have tells := (accounts history).1
  refine ⟨_, _, history, rfl, ?_, tells.held⟩
  rw [tells.hadError]
  rintro ⟨_, member, _⟩
  cases member

end History

end Lox
