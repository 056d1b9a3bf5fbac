import Mathlib
import Lox.Proofs.Accepted

/-! The rules on scopes, told by where a node stands in the tree. A walk complains once of each node
that breaks a rule, and of nothing else. -/

namespace Lox
namespace Resolution

/-! ### Where a node stands -/

/-- What a node can stand in. A scope is told with the names it has declared before the node; the
parameters of a function are declared in the scope of its body. -/
inductive Region
  | block (declared : List String)
  | function (declared : List String)
  | method (name : String) (declared : List String)
  | classBody (inherits : Bool)
  | initializer (name : String)

namespace Region

def declared? : Region → Option (List String)
  | block declared | function declared | method _ declared => some declared
  | classBody _ | initializer _ => none

/-- Whether this is the body of a method that may not give a value, if it is a function's body. -/
def initializes? : Region → Option Bool
  | function _ => some false
  | method name _ => some (name == initializerName)
  | block _ | classBody _ | initializer _ => none

def inherits? : Region → Option Bool
  | classBody inherits => some inherits
  | block _ | function _ | method .. | initializer _ => none

/-- The scope after one more declaration. -/
def declare (name : String) : Region → Region
  | block declared => block (name :: declared)
  | function declared => function (name :: declared)
  | method role declared => method role (name :: declared)
  | other => other

end Region

/-- All a node stands in, innermost first. The global scope is none of it. -/
abbrev Place := List Region

namespace Place

/-- The names that the innermost scope has declared before, unless it is the global scope. -/
def declared? (place : Place) : Option (List String) := place.findSome? Region.declared?

/-- Whether the innermost function is a method that may not give a value, if there is a function. -/
def initializes? (place : Place) : Option Bool := place.findSome? Region.initializes?

/-- Whether the innermost class has a superclass, if there is a class. -/
def inherits? (place : Place) : Option Bool := place.findSome? Region.inherits?

/-- Whether this is the initializer of a local that has just got its name. -/
def awaits (name : String) : Place → Bool
  | .initializer var :: outside =>
    var == name && match Place.declared? outside with
      | some declared => decide (name ∉ declared)
      | none => false
  | _ => false

/-- The place after a declaration that stands there. -/
def declare (name : String) : Place → Place
  | scope :: outside => scope.declare name :: outside
  | [] => []

end Place

/-! ### Nodes and rules -/

/-- The nodes that some rule is about. -/
inductive Node
  | read (name : Token)
  | this (keyword : Token)
  | super (keyword : Token)
  | ret (keyword : Token) (hasValue : Bool)
  | declaration (name : Token)
  | inheritance (name above : Token)

/-- The rule that a node breaks. -/
def breach? (place : Place) : Node → Option StaticFault
  | .read name =>
    if place.awaits name.lexeme then some (.undefinedInInitializer name.lexeme name.line) else none
  | .this keyword =>
    if place.inherits?.isNone then some (.thisOutsideClass keyword.line) else none
  | .super keyword =>
    match place.inherits? with
    | none => some (.superOutsideClass keyword.line)
    | some false => some (.superWithoutSuperclass keyword.line)
    | some true => none
  | .ret keyword hasValue =>
    match place.initializes? with
    | none => some (.returnOutsideFunction keyword.line)
    | some true => if hasValue then some (.returnValueInInitializer keyword.line) else none
    | some false => none
  | .declaration name =>
    match place.declared? with
    | some declared =>
      if name.lexeme ∈ declared then some (.duplicateDeclaration name.lexeme name.line) else none
    | none => none
  | .inheritance name above =>
    if above.lexeme = name.lexeme then some (.selfInheritance above.lexeme above.line) else none

end Resolution

open Resolution Walk

mutual

def Expr.nodes (place : Place) : Expr → List (Place × Node)
  | .literal _ => []
  | .unary _ operand => operand.nodes place
  | .binary left _ right => left.nodes place ++ right.nodes place
  | .logical left _ right => left.nodes place ++ right.nodes place
  | .grouping inner => inner.nodes place
  | .variable reference => [(place, .read reference.name)]
  | .assign _ value => value.nodes place
  | .call callee _ arguments => callee.nodes place ++ exprNodes place arguments
  | .get object _ => object.nodes place
  | .set object _ value => object.nodes place ++ value.nodes place
  | .this reference => [(place, .this reference.name)]
  | .super reference _ => [(place, .super reference.name)]

def exprNodes (place : Place) : List Expr → List (Place × Node)
  | [] => []
  | first :: rest => first.nodes place ++ exprNodes place rest

end

def optionalNodes (place : Place) : Option Expr → List (Place × Node)
  | none => []
  | some e => e.nodes place

def superclassNodes (place : Place) (name : Token) : Option Reference → List (Place × Node)
  | none => []
  | some above => [(place, .inheritance name above.name), (place, .read above.name)]

def paramNodes (place : Place) : List Token → List (Place × Node)
  | [] => []
  | first :: rest => (place, .declaration first) :: paramNodes (place.declare first.lexeme) rest

/-- The place of the statements that follow. -/
def Stmt.past (place : Place) (s : Stmt) : Place :=
  match s.declared? with
  | some name => place.declare name.lexeme
  | none => place

mutual

def Stmt.nodes (place : Place) : Stmt → List (Place × Node)
  | .expression e => e.nodes place
  | .print e => e.nodes place
  | .var name initializer =>
    (place, .declaration name) :: optionalNodes (.initializer name.lexeme :: place) initializer
  | .block body => stmtNodes (.block [] :: place) body
  | .conditional condition thenBranch elseBranch =>
    condition.nodes place ++ thenBranch.nodes place ++ branchNodes place elseBranch
  | .loop condition body => condition.nodes place ++ body.nodes place
  | .function declaration =>
    (place, .declaration declaration.name) ::
      declaration.nodes (.function []) (place.declare declaration.name.lexeme)
  | .ret keyword value => (place, .ret keyword value.isSome) :: optionalNodes place value
  | .classDecl name superclass methods =>
    (place, .declaration name) :: superclassNodes (place.declare name.lexeme) name superclass ++
      methodNodes (.classBody superclass.isSome :: place.declare name.lexeme) methods

def stmtNodes (place : Place) : List Stmt → List (Place × Node)
  | [] => []
  | first :: rest => first.nodes place ++ stmtNodes (first.past place) rest

def branchNodes (place : Place) : Option Stmt → List (Place × Node)
  | none => []
  | some s => s.nodes place

/-- `scope` is the scope of the parameters and the body, before anything is declared in it. -/
def FunctionDecl.nodes (scope : Region) (place : Place) : FunctionDecl → List (Place × Node)
  | ⟨_, params, body⟩ =>
    paramNodes (scope :: place) params ++
      stmtNodes (params.foldl (fun place param => place.declare param.lexeme) (scope :: place)) body

def methodNodes (place : Place) : List FunctionDecl → List (Place × Node)
  | [] => []
  | first :: rest =>
    first.nodes (.method first.name.lexeme []) place ++ methodNodes place rest

end

/-- One fault for each node that breaks a rule. -/
def breaches (nodes : List (Place × Node)) : List StaticFault :=
  nodes.filterMap fun (place, node) => breach? place node

@[simp] theorem breaches_append (first second : List (Place × Node)) :
    breaches (first ++ second) = breaches first ++ breaches second :=
  List.filterMap_append

/-! ### Walks -/

namespace Resolution

/-- A walk complains of these nodes, in some order. -/
def Walk.Complains (nodes : List (Place × Node)) (before after : Walk) : Prop :=
  after.faults.Perm (breaches nodes ++ before.faults)

namespace Walk.Complains

variable {before middle after : Walk} {nodes others : List (Place × Node)} {place : Place}
  {node : Node}

theorem nothing (same : after.faults = before.faults) : Complains [] before after :=
  List.Perm.of_eq same

theorem one (told : after.faults = (breach? place node).toList ++ before.faults) :
    Complains [(place, node)] before after := by
  unfold Complains breaches
  rw [told]
  cases broken : breach? place node <;> simp [broken]

theorem followed (first : Complains nodes before middle) (second : Complains others middle after) :
    Complains (nodes ++ others) before after := by
  unfold Complains at first second ⊢
  rw [breaches_append]
  refine second.trans (((first.append_left _).trans ?_))
  rw [← List.append_assoc]
  exact List.perm_append_comm.append_right _

theorem swap (given : Complains (nodes ++ others) before after) :
    Complains (others ++ nodes) before after := by
  unfold Complains at given ⊢
  rw [breaches_append] at given ⊢
  exact given.trans (List.perm_append_comm.append_right _)

theorem starting (given : Complains nodes middle after) (same : middle.faults = before.faults) :
    Complains nodes before after := by
  unfold Complains at given ⊢
  rwa [same] at given

theorem ending (given : Complains nodes before middle) (same : after.faults = middle.faults) :
    Complains nodes before after := by
  unfold Complains at given ⊢
  rwa [same]

end Walk.Complains

namespace FunctionRole

/-- What a role says of the innermost function. -/
def initializes? : FunctionRole → Option Bool
  | none => Option.none
  | function | method => some false
  | initializer => some true

end FunctionRole

namespace ClassRole

/-- What a role says of the innermost class. -/
def inherits? : ClassRole → Option Bool
  | none => Option.none
  | plain => some false
  | derived => some true

end ClassRole

/-- The roles of a walk are those of its place. -/
structure Walk.Tied (place : Place) (walk : Walk) : Prop where
  function : walk.functionRole.initializes? = place.initializes?
  classes : walk.classRole.inherits? = place.inherits?

/-- Between two statements all names of the innermost scope are ready. -/
inductive Settled : Place → List (Bindings Bool) → Prop
  | globally : Settled [] []
  | locally {region : Region} {outside : Place} {declared : List String} {scope : Bindings Bool}
      {outer : List (Bindings Bool)} (known : region.declared? = some declared)
      (ready : ∀ name, scope.find? name = if name ∈ declared then some true else none) :
      Settled (region :: outside) (scope :: outer)

namespace Region

@[simp] theorem initializes_declare (region : Region) (name : String) :
    (region.declare name).initializes? = region.initializes? := by
  cases region <;> rfl

@[simp] theorem inherits_declare (region : Region) (name : String) :
    (region.declare name).inherits? = region.inherits? := by
  cases region <;> rfl

theorem declared_declare {region : Region} {declared : List String}
    (known : region.declared? = some declared) (name : String) :
    (region.declare name).declared? = some (name :: declared) := by
  cases region <;> simp_all [declared?, declare]

end Region

namespace Place

@[simp] theorem initializes_declare (place : Place) (name : String) :
    (place.declare name).initializes? = place.initializes? := by
  cases place with
  | nil => rfl
  | cons region outside => simp [declare, initializes?, List.findSome?_cons]

@[simp] theorem inherits_declare (place : Place) (name : String) :
    (place.declare name).inherits? = place.inherits? := by
  cases place with
  | nil => rfl
  | cons region outside => simp [declare, inherits?, List.findSome?_cons]

theorem declared_of_declared {region : Region} {outside : Place} {declared : List String}
    (known : region.declared? = some declared) :
    Place.declared? (region :: outside) = some declared := by
  simp [declared?, known]

theorem awaits_of_declared {region : Region} {outside : Place} {declared : List String}
    (known : region.declared? = some declared) (name : String) :
    Place.awaits name (region :: outside) = false := by
  cases region <;> simp_all [Region.declared?, awaits]

end Place

namespace Walk

variable {walk later : Walk} {place : Place}

namespace Tied

theorem declare (tied : Tied place walk) (name : String) : Tied (place.declare name) walk :=
  ⟨by simpa using tied.function, by simpa using tied.classes⟩

theorem returns (tied : Tied place walk) (back : Returns walk later) : Tied place later :=
  ⟨by rw [back.functionRole, tied.function], by rw [back.classRole, tied.classes]⟩

theorem past (tied : Tied place walk) (s : Stmt) : Tied (s.past place) walk := by
  unfold Stmt.past
  cases s.declared? with
  | none => exact tied
  | some name => exact tied.declare name.lexeme

end Tied

end Walk

theorem contains_of_ready {declared : List String} {scope : Bindings Bool}
    (ready : ∀ name, scope.find? name = if name ∈ declared then some true else none)
    (name : String) : scope.contains name = decide (name ∈ declared) := by
  unfold Bindings.contains
  rw [ready]
  by_cases member : name ∈ declared <;> simp [member]

namespace Settled

variable {place : Place} {scopes : List (Bindings Bool)}

theorem marked (settled : Settled place scopes) (name : String) :
    Settled (place.declare name) (marked scopes name true) := by
  cases settled with
  | globally => exact globally
  | @locally region outside declared scope outer known ready =>
    refine locally (Region.declared_declare known name) fun other => ?_
    rw [Bindings.find?_insert, ready other]
    by_cases same : other = name <;> simp [same]

theorem entered {region : Region} (known : region.declared? = some []) :
    Settled (region :: place) (.empty :: scopes) :=
  locally known fun name => by simp

theorem after (settled : Settled place scopes) (s : Stmt) :
    Settled (s.past place) (after s scopes) := by
  unfold Resolution.after Stmt.past
  cases s.declared? with
  | none => exact settled
  | some name => exact settled.marked name.lexeme

end Settled

/-- Where an expression is walked, a name waits for its value if the place says so. -/
structure Walk.Expects (place : Place) (walk : Walk) : Prop extends Walk.Tied place walk where
  pending : ∀ name, walk.isPending name = place.awaits name

namespace Walk

variable {walk later : Walk} {place : Place}

theorem isPending_of_scopes (same : later.scopes = walk.scopes) (name : String) :
    later.isPending name = walk.isPending name := by
  unfold isPending
  rw [same]

theorem Expects.stays (expects : Expects place walk) (same : Stays walk later) :
    Expects place later :=
  ⟨expects.toTied.returns same.toReturns,
    fun name => (isPending_of_scopes same.scopes name).trans (expects.pending name)⟩

/-- Between two statements nothing waits for its value. -/
theorem isPending_of_settled (settled : Settled place walk.scopes) (name : String) :
    walk.isPending name = place.awaits name := by
  unfold isPending
  generalize walk.scopes = scopes at settled
  cases settled with
  | globally => rfl
  | @locally region outside declared scope outer known ready =>
    rw [Place.awaits_of_declared known]
    by_cases member : name ∈ declared <;> simp [ready name, member]

theorem Tied.expects (tied : Tied place walk) (settled : Settled place walk.scopes) :
    Expects place walk := ⟨tied, isPending_of_settled settled⟩

/-- A local that has just got its name waits for its value. -/
theorem Tied.initializing (tied : Tied place walk) (settled : Settled place walk.scopes)
    (name : Token) : Expects (.initializer name.lexeme :: place) (walk.declare name) := by
  have back := tied.returns (returns_declare walk name)
  refine ⟨⟨back.function, back.classes⟩, fun other => ?_⟩
  obtain ⟨scopes, found, faults, functionRole, classRole⟩ := walk
  cases settled with
  | globally => simp [isPending, Walk.declare, Place.awaits, Place.declared?]
  | @locally region outside declared scope outer known ready =>
    simp only [Place.awaits, Place.declared_of_declared known, isPending, Walk.declare,
      contains_of_ready ready]
    by_cases member : name.lexeme ∈ declared
    · simp only [member, decide_true, if_true, scopes_complain, ready other]
      by_cases read : other ∈ declared
      · simp [read]
      · have apart : name.lexeme ≠ other := fun same => read (same ▸ member)
        simp [read, apart]
    · simp only [member, decide_false, Bool.false_eq_true, if_false, Bindings.find?_insert,
        ready other]
      by_cases same : other = name.lexeme
      · simp [same, member]
      · by_cases read : other ∈ declared <;> simp [same, read, Ne.symm same]

/-! ### One node -/

theorem faults_complainIf (walk : Walk) (condition : Bool) (fault : StaticFault) :
    (walk.complainIf condition fault).faults =
      (if condition then some fault else none).toList ++ walk.faults := by
  cases condition <;> rfl

theorem faults_ready (walk : Walk) (name : Token) : (walk.ready name).faults = walk.faults := by
  unfold ready
  split <;> rfl

theorem useVariable_complains (reference : Reference)
    (pending : walk.isPending reference.name.lexeme = place.awaits reference.name.lexeme) :
    Complains [(place, .read reference.name)] walk (walk.useVariable reference) := by
  apply Complains.one
  rw [useVariable, faults_refer, faults_complainIf, pending]
  rfl

theorem useThis_complains (tied : Tied place walk) (reference : Reference) :
    Complains [(place, .this reference.name)] walk (walk.useThis reference) := by
  apply Complains.one
  rw [breach?, ← tied.classes]
  cases role : walk.classRole <;> simp [useThis, role, ClassRole.inherits?, complain, faults_refer]

theorem useSuper_complains (tied : Tied place walk) (reference : Reference) :
    Complains [(place, .super reference.name)] walk (walk.useSuper reference) := by
  apply Complains.one
  rw [breach?, ← tied.classes]
  cases role : walk.classRole <;> simp [useSuper, role, ClassRole.inherits?, complain, faults_refer]

theorem useReturn_complains (tied : Tied place walk) (keyword : Token) (hasValue : Bool) :
    Complains [(place, .ret keyword hasValue)] walk (walk.useReturn keyword hasValue) := by
  apply Complains.one
  rw [breach?, ← tied.function]
  cases role : walk.functionRole <;> cases hasValue <;>
    simp [useReturn, role, FunctionRole.initializes?, complainIf, complain]

theorem declare_complains (settled : Settled place walk.scopes) (name : Token) :
    Complains [(place, .declaration name)] walk (walk.declare name) := by
  apply Complains.one
  obtain ⟨scopes, found, faults, functionRole, classRole⟩ := walk
  cases settled with
  | globally => rfl
  | @locally region outside declared scope outer known ready =>
    simp only [breach?, Place.declared_of_declared known, Walk.declare, contains_of_ready ready]
    by_cases member : name.lexeme ∈ declared <;> simp [member, complain]

theorem bind_complains (settled : Settled place walk.scopes) (name : Token) :
    Complains [(place, .declaration name)] walk (walk.bind name) :=
  (declare_complains settled name).ending (faults_ready _ name)

theorem bind_settled (settled : Settled place walk.scopes) (name : Token) :
    Settled (place.declare name.lexeme) (walk.bind name).scopes := by
  rw [scopes_bind]
  exact settled.marked name.lexeme

theorem Tied.binds (params : List Token) (tied : Tied place walk) :
    Tied (params.foldl (fun place param => place.declare param.lexeme) place)
      (params.foldl Walk.bind walk) := by
  induction params generalizing place walk with
  | nil => exact tied
  | cons param rest ih => exact ih ((tied.declare param.lexeme).returns (returns_bind walk param))

theorem binds_settled (params : List Token) (settled : Settled place walk.scopes) :
    Settled (params.foldl (fun place param => place.declare param.lexeme) place)
      (params.foldl Walk.bind walk).scopes := by
  induction params generalizing place walk with
  | nil => exact settled
  | cons param rest ih => exact ih (bind_settled settled param)

theorem binds_complains (params : List Token) (settled : Settled place walk.scopes) :
    Complains (paramNodes place params) walk (params.foldl Walk.bind walk) := by
  induction params generalizing place walk with
  | nil => exact Complains.nothing rfl
  | cons param rest ih =>
    exact (bind_complains settled param).followed (ih (bind_settled settled param))

end Walk

/-! ### Whole trees -/

open Walk

mutual

theorem visitExpr_complains (place : Place) : (e : Expr) → (walk : Walk) → Expects place walk →
    Complains (e.nodes place) walk (visitExpr e walk)
  | .literal _, walk, _ => Complains.nothing rfl
  | .unary _ operand, walk, expects => visitExpr_complains place operand walk expects
  | .binary left _ right, walk, expects | .logical left _ right, walk, expects => by
    have second := expects.stays (visitExpr_stays left walk)
    exact (visitExpr_complains place left walk expects).followed
      (visitExpr_complains place right _ second)
  | .grouping inner, walk, expects => visitExpr_complains place inner walk expects
  | .variable reference, walk, expects => useVariable_complains reference (expects.pending _)
  | .assign target value, walk, expects =>
    (visitExpr_complains place value walk expects).ending (faults_refer _ target)
  | .call callee _ arguments, walk, expects => by
    have second := expects.stays (visitExpr_stays callee walk)
    exact (visitExpr_complains place callee walk expects).followed
      (visitExprs_complains place arguments _ second)
  | .get object _, walk, expects => visitExpr_complains place object walk expects
  | .set object _ value, walk, expects => by
    -- the value is walked before the object
    have second := expects.stays (visitExpr_stays value walk)
    exact ((visitExpr_complains place value walk expects).followed
      (visitExpr_complains place object _ second)).swap
  | .this reference, walk, expects => useThis_complains expects.toTied reference
  | .super reference _, walk, expects => useSuper_complains expects.toTied reference

theorem visitExprs_complains (place : Place) : (es : List Expr) → (walk : Walk) →
    Expects place walk → Complains (exprNodes place es) walk (visitExprs es walk)
  | [], walk, _ => Complains.nothing rfl
  | first :: rest, walk, expects => by
    have second := expects.stays (visitExpr_stays first walk)
    exact (visitExpr_complains place first walk expects).followed
      (visitExprs_complains place rest _ second)

end

theorem visitExprIfAny_complains {place : Place} {walk : Walk} (e : Option Expr)
    (expects : Expects place walk) :
    Complains (optionalNodes place e) walk (visitExprIfAny e walk) := by
  cases e with
  | none => exact Complains.nothing rfl
  | some e => exact visitExpr_complains place e walk expects

/-! ### Classes and functions -/

theorem inheritance_complains (place : Place) (walk : Walk) (name above : Token) :
    Complains [(place, .inheritance name above)] walk
      (walk.complainIf (above.lexeme == name.lexeme)
        (.selfInheritance above.lexeme above.line)) := by
  apply Complains.one
  rw [faults_complainIf]
  simp [breach?]

theorem enterClass_complains {place : Place} {walk : Walk} (name : Token)
    (superclass : Option Reference) (settled : Settled place walk.scopes) :
    Complains ((place, .declaration name) ::
      superclassNodes (place.declare name.lexeme) name superclass) walk
      (enterClass name superclass walk) := by
  let plain := { walk with classRole := .plain }
  have ready : Settled place plain.scopes := settled
  have bound : Complains [(place, .declaration name)] plain (plain.bind name) :=
    bind_complains ready name
  have named : Complains [(place, .declaration name)] walk (plain.bind name) :=
    bound.starting rfl
  cases superclass with
  | none => exact named.ending rfl
  | some above =>
    let checked := (plain.bind name).complainIf (above.name.lexeme == name.lexeme)
      (.selfInheritance above.name.lexeme above.name.line)
    have later : Settled (place.declare name.lexeme) checked.scopes := by
      rw [scopes_complainIf]
      exact bind_settled ready name
    let derived := { checked with classRole := .derived }
    have read : Complains [(place.declare name.lexeme, .read above.name)] derived
        (derived.useVariable above) := useVariable_complains above (isPending_of_settled later _)
    have inherited := inheritance_complains (place.declare name.lexeme) (plain.bind name) name
      above.name
    exact (named.followed (inherited.followed (read.starting rfl))).ending rfl

theorem Walk.Tied.enterClass {place : Place} {walk : Walk} (tied : Tied place walk) (name : Token)
    (superclass : Option Reference) :
    Tied (.classBody superclass.isSome :: place.declare name.lexeme)
      (enterClass name superclass walk) := by
  obtain ⟨function, classes⟩ := roles_enterClass name superclass walk
  constructor
  · rw [function, tied.function]
    exact (Place.initializes_declare place name.lexeme).symm
  · rw [classes]
    cases superclass <;> rfl

/-- The region of a body, before its parameters are declared. -/
structure Fresh (role : FunctionRole) (scope : Region) : Prop where
  known : scope.declared? = some []
  kind : scope.initializes? = role.initializes?
  inside : scope.initializes?.isSome
  plain : scope.inherits? = none

theorem Fresh.method (method : FunctionDecl) :
    Fresh (methodRole method) (.method method.name.lexeme []) := by
  refine ⟨rfl, ?_, rfl, rfl⟩
  unfold methodRole FunctionDecl.isInitializer
  by_cases named : method.name.lexeme = initializerName <;> simp [Region.initializes?, named,
    FunctionRole.initializes?]

theorem Fresh.entered {role : FunctionRole} {scope : Region} {place : Place} {walk : Walk}
    (fresh : Fresh role scope) (tied : Tied place walk) :
    let opened := { walk with functionRole := role }.enter .empty
    Tied (scope :: place) opened ∧ Settled (scope :: place) opened.scopes := by
  refine ⟨⟨?_, ?_⟩, Settled.entered fresh.known⟩
  · obtain ⟨initializes, same⟩ := Option.isSome_iff_exists.mp fresh.inside
    simp [Place.initializes?, same, ← fresh.kind, enter]
  · simpa [Place.inherits?, fresh.plain, enter] using tied.classes

mutual

theorem visitStmt_complains {good : Token → Prop} (place : Place) :
    (s : Stmt) → s.Proper good → (walk : Walk) → Tied place walk → Settled place walk.scopes →
      Complains (s.nodes place) walk (visitStmt s walk)
  | .expression e, _, walk, tied, settled | .print e, _, walk, tied, settled =>
    visitExpr_complains place e walk (tied.expects settled)
  | .var name initializer, _, walk, tied, settled => by
    have value := visitExprIfAny_complains initializer (tied.initializing settled name)
    exact ((declare_complains settled name).followed value).ending (faults_ready _ name)
  | .block body, proper, walk, tied, settled =>
    ((visitStmts_complains (.block [] :: place) body proper (walk.enter .empty)
      ⟨tied.function, tied.classes⟩ (Settled.entered rfl)).starting rfl).ending rfl
  | .conditional condition thenBranch elseBranch, proper, walk, tied, settled => by
    have decided := tied.returns (visitExpr_stays condition walk).toReturns
    have ready : Settled place (visitExpr condition walk).scopes := by
      rwa [scopes_visitExpr]
    have chosen := decided.returns (visitStmt_returns thenBranch (visitExpr condition walk))
    have again : Settled place (visitStmt thenBranch (visitExpr condition walk)).scopes := by
      rwa [scopes_visitStmt thenBranch proper.2.1.1, after_eq_self proper.2.1.2]
    exact ((visitExpr_complains place condition walk (tied.expects settled)).followed
      (visitStmt_complains place thenBranch proper.2.1.1 _ decided ready)).followed
      (visitStmtIfAny_complains place elseBranch proper.2.2 _ chosen again)
  | .loop condition body, proper, walk, tied, settled => by
    have decided := tied.returns (visitExpr_stays condition walk).toReturns
    have ready : Settled place (visitExpr condition walk).scopes := by
      rwa [scopes_visitExpr]
    exact (visitExpr_complains place condition walk (tied.expects settled)).followed
      (visitStmt_complains place body proper.2.1 _ decided ready)
  | .function declaration, proper, walk, tied, settled => by
    have bound := (tied.declare declaration.name.lexeme).returns
      (returns_bind walk declaration.name)
    exact (bind_complains settled declaration.name).followed
      (visitFunction_complains _ .function (.function []) ⟨rfl, rfl, rfl, rfl⟩ declaration proper _
        bound)
  | .ret keyword value, _, walk, tied, settled => by
    have back := (stays_useReturn walk keyword value.isSome).toReturns
    have later : Settled place (walk.useReturn keyword value.isSome).scopes := by
      rw [scopes_useReturn]
      exact settled
    exact (useReturn_complains tied keyword value.isSome).followed
      (visitExprIfAny_complains value ((tied.returns back).expects later))
  | .classDecl name superclass methods, proper, walk, tied, settled => by
    have inside := visitFunctions_complains _ methods proper.2.2 _
      (tied.enterClass name superclass)
    refine ((enterClass_complains name superclass settled).followed inside).ending ?_
    cases superclass <;> rfl

theorem visitStmts_complains {good : Token → Prop} (place : Place) :
    (body : List Stmt) → stmtsProper good body → (walk : Walk) → Tied place walk →
      Settled place walk.scopes → Complains (stmtNodes place body) walk (visitStmts body walk)
  | [], _, walk, _, _ => Complains.nothing rfl
  | first :: rest, proper, walk, tied, settled => by
    have later : Settled (first.past place) (visitStmt first walk).scopes := by
      rw [scopes_visitStmt first proper.1]
      exact settled.after first
    exact (visitStmt_complains place first proper.1 walk tied settled).followed
      (visitStmts_complains _ rest proper.2 _
        ((tied.past first).returns (visitStmt_returns first walk)) later)

theorem visitStmtIfAny_complains {good : Token → Prop} (place : Place) :
    (s : Option Stmt) → branchProper good s → (walk : Walk) → Tied place walk →
      Settled place walk.scopes → Complains (branchNodes place s) walk (visitStmtIfAny s walk)
  | none, _, _, _, _ => Complains.nothing rfl
  | some s, proper, walk, tied, settled => visitStmt_complains place s proper.1 walk tied settled

theorem visitFunction_complains {good : Token → Prop} (place : Place) (role : FunctionRole)
    (scope : Region) (fresh : Fresh role scope) :
    (f : FunctionDecl) → f.Proper good → (walk : Walk) → Tied place walk →
      Complains (f.nodes scope place) walk (visitFunction role f walk)
  | ⟨_, params, body⟩, proper, walk, tied => by
    have opened := fresh.entered tied
    have inside := visitStmts_complains _ body proper.2.2 (enterFunction role params walk)
      (opened.1.binds params) (binds_settled params opened.2)
    exact (((binds_complains params opened.2).starting rfl).followed inside).ending rfl

theorem visitFunctions_complains {good : Token → Prop} (place : Place) :
    (fs : List FunctionDecl) → methodsProper good fs → (walk : Walk) → Tied place walk →
      Complains (methodNodes place fs) walk (visitFunctions fs walk)
  | [], _, _, _ => Complains.nothing rfl
  | first :: rest, proper, walk, tied => by
    have method := Fresh.method first
    exact (visitFunction_complains place _ _ method first proper.1 walk tied).followed
      (visitFunctions_complains place rest proper.2 _
        (tied.returns (visitFunction_returns _ first walk)))

end

/-- The faults of a program are its breaches of the rules, one for each. -/
theorem resolve_exact {source : String} {first : Nat} {program : List Stmt}
    (parsed : (Tree.parse (Source.tokens (Source.scan source)) first).result = .ok program) :
    (∀ faults, resolve program = .error faults → faults.Perm (breaches (stmtNodes [] program))) ∧
      ((∃ table, resolve program = .ok table) ↔ breaches (stmtNodes [] program) = []) := by
  obtain ⟨_, read⟩ := Tree.parse_read (Source.tokens_genuine source) parsed
  have complains := visitStmts_complains [] program read.proper .start ⟨rfl, rfl⟩ .globally
  have told : (visitStmts program .start).faults.Perm (breaches (stmtNodes [] program)) := by
    simpa [Complains, Walk.start] using complains
  unfold resolve
  dsimp only
  cases found : (visitStmts program .start).faults with
  | nil =>
    rw [found] at told
    simp [told.nil_eq]
  | cons fault rest =>
    rw [found] at told
    have broken : breaches (stmtNodes [] program) ≠ [] := fun none => by simp [none] at told
    simp only [List.isEmpty_cons, Bool.false_eq_true, if_false, reduceCtorEq, exists_false,
      false_iff]
    refine ⟨fun faults same => ?_, broken⟩
    cases same
    exact (List.reverse_perm _).trans told

theorem resolve_exact_in_block : ∃ program faults,
    resolve program = .error faults ∧ faults.Perm (breaches (stmtNodes [] program)) ∧
      faults = [.undefinedInInitializer "a" 1, .returnOutsideFunction 1] := by
  let name : Token := ⟨.identifier, "a", 1⟩
  let statements : List Stmt :=
    [.var name (some (.variable ⟨0, name⟩)), .ret ⟨.keyword .return, "return", 1⟩ none]
  have parsed : (Tree.parse (Source.tokens (Source.scan "\x7bvar a=a;return;\x7d")) 0).result =
      .ok [.block statements] := by cbv
  have refused : resolve [.block statements] =
      .error [.undefinedInInitializer "a" 1, .returnOutsideFunction 1] := by cbv
  exact ⟨_, _, refused, (resolve_exact parsed).1 _ refused, rfl⟩

end Resolution
end Lox
