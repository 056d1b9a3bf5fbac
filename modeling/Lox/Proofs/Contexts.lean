import Lox.Proofs.Chains

/-! What a configuration has to do with the scopes its program was resolved in. Every frame waits in
some environment, described by the scopes of the place in the program it belongs to. -/

namespace Lox.Machine

open Resolution

/-- No initializer is being evaluated in these scopes. -/
def Settled (scopes : List (Bindings Bool)) : Prop := ∀ name, ¬Pending scopes name

/-- What a frame holds, as far as it needs only the scopes it stands in. -/
def Frame.Fits (records : Records) (store : Store) (scopes : List (Bindings Bool)) :
    Frame → Prop
  | .left _ operand | .logical _ operand => operand.Resolved records scopes
  | .right value _ => value.Fits records store
  | .assign reference => Writes records scopes reference
  | .callee _ arguments => exprsResolved records scopes arguments
  | .argument called _ evaluated pending =>
    called.Fits records store ∧ (∀ value ∈ evaluated, value.Fits records store) ∧
      exprsResolved records scopes pending
  | .target _ value => value.Resolved records scopes
  | .field object _ => (Value.object object).Fits records store
  | .constructing made => (Value.object made).Fits records store
  | .print | .returning => Settled scopes
  | .branch thenBranch elseBranch =>
    Settled scopes ∧ (thenBranch.Resolved records scopes ∧ thenBranch.declared? = none) ∧
      branchResolved records scopes elseBranch
  | .test condition body | .again condition body =>
    Settled scopes ∧ condition.Resolved records scopes ∧ body.Resolved records scopes ∧
      body.declared? = none
  | _ => True

/-- Each environment on the way back is older than the one in force until then. -/
def StackFits (records : Records) (store : Store) :
    Environment → List (Bindings Bool) → List Frame → Prop
  | here, scopes, [] => here = globals ∧ scopes = [] ∧ 0 < store.scopes.size
  | here, scopes, .define name :: stack =>
    ∃ base, Settled base ∧ Undeclared base name.lexeme ∧
      scopes = marked base name.lexeme false ∧
      StackFits records store here (marked base name.lexeme true) stack
  | here, scopes, .sequence rest :: stack =>
    Settled scopes ∧ stmtsResolved records scopes rest ∧
      StackFits records store here (afterAll rest scopes) stack
  | here, scopes, .restore previous :: stack | here, scopes, .activation previous _ _ :: stack =>
    Settled scopes ∧ previous.scope < here.scope ∧
      ∃ outside, Describes store previous outside ∧ StackFits records store previous outside stack
  | here, scopes, .program rest :: stack =>
    here = globals ∧ scopes = [] ∧ 0 < store.scopes.size ∧ stmtsResolved records [] rest ∧
      stack = []
  | here, scopes, frame :: stack =>
    frame.Fits records store scopes ∧ StackFits records store here scopes stack

/-- The state of a run: everything the store holds was resolved, and the distances that are looked
up are the ones on record. -/
structure State.Sound (records : Records) (state : State) : Prop where
  recorded : ∀ id, state.distances[id]? = records.distance? id
  holds : state.store.Holds (Function.Fits records state.store)
    (Function.FitsMethod records state.store)

/-- An environment in force, and what waits in it. -/
structure Stands (records : Records) (state : State) (scopes : List (Bindings Bool))
    (stack : List Frame) : Prop where
  describes : Describes state.store state.current scopes
  waits : StackFits records state.store state.current scopes stack

/-- A return or a fault may leave a statement half done; the scopes it stands in then describe no
environment, but those of the frames below still do. -/
def Control.Fits (records : Records) (state : State) (stack : List Frame) : Control → Prop
  | .eval e => ∃ scopes, Stands records state scopes stack ∧ e.Resolved records scopes
  | .exec s => ∃ scopes, Settled scopes ∧ Describes state.store state.current scopes ∧
      s.Resolved records scopes ∧
      StackFits records state.store state.current (after s scopes) stack
  | .signal (.done value) =>
    value.Fits records state.store ∧ ∃ scopes, Stands records state scopes stack
  | .signal (.returned value) =>
    value.Fits records state.store ∧
      ∃ scopes, StackFits records state.store state.current scopes stack
  | .signal (.failed _) => ∃ scopes, StackFits records state.store state.current scopes stack

structure Config.Fits (records : Records) (config : Config) : Prop where
  sound : config.state.Sound records
  control : config.control.Fits records config.state config.stack

/-! ### Growing stores -/

variable {records : Records} {before after : Store} {here : Environment}
  {scopes : List (Bindings Bool)} {stack : List Frame}

theorem Frame.Fits.keeps {frame : Frame} (fits : frame.Fits records before scopes)
    (kept : before.Keeps after) : frame.Fits records after scopes := by
  cases frame with
  | right value _ => exact Value.Fits.keeps fits kept
  | argument called _ evaluated pending =>
    obtain ⟨callee, values, rest⟩ := fits
    exact ⟨callee.keeps kept, fun value member => (values value member).keeps kept, rest⟩
  | field object _ => exact Class.keeps fits kept
  | constructing made => exact Class.keeps fits kept
  | _ => exact fits

theorem StackFits.keeps_locals (fits : StackFits records before here scopes stack)
    (kept : before.Keeps after) (same : before.SameLocals here.scope after) :
    StackFits records after here scopes stack := by
  induction stack generalizing here scopes with
  | nil =>
    obtain ⟨atGlobals, shape, positive⟩ := fits
    exact ⟨atGlobals, shape, Nat.lt_of_lt_of_le positive kept.size⟩
  | cons frame stack ih =>
    cases frame with
    | define name =>
      obtain ⟨base, settled, undeclared, shape, rest⟩ := fits
      exact ⟨base, settled, undeclared, shape, ih rest same⟩
    | sequence rest =>
      obtain ⟨settled, resolved, rest⟩ := fits
      exact ⟨settled, resolved, ih rest same⟩
    | restore previous =>
      obtain ⟨settled, older, outside, describes, rest⟩ := fits
      exact ⟨settled, older, outside, describes.keeps_locals kept (same.below older),
        ih rest (same.below (Nat.le_of_lt older))⟩
    | activation previous _ _ =>
      obtain ⟨settled, older, outside, describes, rest⟩ := fits
      exact ⟨settled, older, outside, describes.keeps_locals kept (same.below older),
        ih rest (same.below (Nat.le_of_lt older))⟩
    | program rest =>
      obtain ⟨atGlobals, shape, positive, rest⟩ := fits
      exact ⟨atGlobals, shape, Nat.lt_of_lt_of_le positive kept.size, rest⟩
    | _ =>
      obtain ⟨frame, rest⟩ := fits
      exact ⟨frame.keeps kept, ih rest same⟩

theorem StackFits.keeps (fits : StackFits records before here scopes stack)
    (kept : before.Keeps after) (same : before.Same here.scope after) :
    StackFits records after here scopes stack :=
  fits.keeps_locals kept same.locals

end Lox.Machine
