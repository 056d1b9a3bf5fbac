import Lox.Bindings
import Lox.Fault
import Lox.Tree

/-!
Where each reference finds its binding, counted in scopes outwards, and which rules on scopes a
program breaks. The scopes of this walk are the ones that running the program makes: a block, a
call, the receiver of a method, and the superclass around the methods of a subclass. The global
scope is none of them, and a reference found in no scope is a global's.
-/

namespace Lox.Resolution

/-- What kind of body the walk is in. -/
inductive FunctionRole
  | none
  | function
  | method
  | initializer
deriving DecidableEq, Repr

/-- What kind of class the walk is in. -/
inductive ClassRole
  | none
  | plain
  | derived
deriving DecidableEq, Repr

/-- A scope says of each of its names whether it is ready to be read. Scopes stand innermost
first, and what was found and complained of stands latest first. -/
structure Walk where
  scopes : List (Bindings Bool)
  found : List (Nat × Nat)
  faults : List StaticFault
  functionRole : FunctionRole
  classRole : ClassRole

namespace Walk

def start : Walk := ⟨[], [], [], .none, .none⟩

def complain (walk : Walk) (fault : StaticFault) : Walk :=
  { walk with faults := fault :: walk.faults }

def complainIf (walk : Walk) (condition : Bool) (fault : StaticFault) : Walk :=
  if condition then walk.complain fault else walk

def enter (walk : Walk) (scope : Bindings Bool) : Walk :=
  { walk with scopes := scope :: walk.scopes }

def leave (walk : Walk) : Walk := { walk with scopes := walk.scopes.tail }

/-- How many scopes out a name is bound. -/
def distance? (walk : Walk) (name : String) : Option Nat :=
  walk.scopes.findIdx? (·.contains name)

def refer (walk : Walk) (reference : Reference) : Walk :=
  match walk.distance? reference.name.lexeme with
  | some distance => { walk with found := (reference.id, distance) :: walk.found }
  | none => walk

/-- Binds a name that is not ready yet. In the global scope a name may be declared again. -/
def declare (walk : Walk) (name : Token) : Walk :=
  match walk.scopes with
  | [] => walk
  | scope :: outer =>
    if scope.contains name.lexeme then
      walk.complain (.duplicateDeclaration name.lexeme name.line)
    else { walk with scopes := scope.insert name.lexeme false :: outer }

def ready (walk : Walk) (name : Token) : Walk :=
  match walk.scopes with
  | [] => walk
  | scope :: outer => { walk with scopes := scope.insert name.lexeme true :: outer }

def bind (walk : Walk) (name : Token) : Walk := (walk.declare name).ready name

/-- Whether a name is being declared in the innermost scope by what is now walked. -/
def isPending (walk : Walk) (name : String) : Bool :=
  match walk.scopes with
  | [] => false
  | scope :: _ => scope.find? name == some false

def useVariable (walk : Walk) (reference : Reference) : Walk :=
  let name := reference.name
  let checked := walk.complainIf (walk.isPending name.lexeme)
    (.undefinedInInitializer name.lexeme name.line)
  checked.refer reference

def useThis (walk : Walk) (reference : Reference) : Walk :=
  if walk.classRole = .none then walk.complain (.thisOutsideClass reference.name.line)
  else walk.refer reference

def useSuper (walk : Walk) (reference : Reference) : Walk :=
  let line := reference.name.line
  let checked := match walk.classRole with
    | .none => walk.complain (.superOutsideClass line)
    | .plain => walk.complain (.superWithoutSuperclass line)
    | .derived => walk
  checked.refer reference

def useReturn (walk : Walk) (keyword : Token) (hasValue : Bool) : Walk :=
  let checked := walk.complainIf (walk.functionRole = .none) (.returnOutsideFunction keyword.line)
  checked.complainIf (hasValue && walk.functionRole = .initializer)
    (.returnValueInInitializer keyword.line)

end Walk

/-- The scope that holds one name, ready from the start. -/
def scopeOf (name : String) : Bindings Bool := Bindings.empty.insert name true

mutual

def visitExpr : Expr → Walk → Walk
  | .literal _, walk => walk
  | .unary _ operand, walk => visitExpr operand walk
  | .binary left _ right, walk => visitExpr right (visitExpr left walk)
  | .logical left _ right, walk => visitExpr right (visitExpr left walk)
  | .grouping inner, walk => visitExpr inner walk
  | .variable reference, walk => walk.useVariable reference
  | .assign target value, walk => (visitExpr value walk).refer target
  | .call callee _ arguments, walk => visitExprs arguments (visitExpr callee walk)
  | .get object _, walk => visitExpr object walk
  | .set object _ value, walk => visitExpr object (visitExpr value walk)
  | .this reference, walk => walk.useThis reference
  | .super reference _, walk => walk.useSuper reference

def visitExprs : List Expr → Walk → Walk
  | [], walk => walk
  | first :: rest, walk => visitExprs rest (visitExpr first walk)

end

def visitExprIfAny : Option Expr → Walk → Walk
  | none, walk => walk
  | some e, walk => visitExpr e walk

/-- Before the methods: the class has its name, and its superclass is looked up outside of it. -/
def enterClass (name : Token) (superclass : Option Reference) (walk : Walk) : Walk :=
  let named := { walk with classRole := .plain }.bind name
  match superclass with
  | none => named.enter (scopeOf thisName)
  | some reference =>
    let above := reference.name
    let checked := named.complainIf (above.lexeme == name.lexeme)
      (.selfInheritance above.lexeme above.line)
    let used := { checked with classRole := .derived }.useVariable reference
    (used.enter (scopeOf superName)).enter (scopeOf thisName)

def leaveClass (superclass : Option Reference) (before walk : Walk) : Walk :=
  let outside := if superclass.isSome then walk.leave.leave else walk.leave
  { outside with classRole := before.classRole }

def enterFunction (role : FunctionRole) (params : List Token) (walk : Walk) : Walk :=
  params.foldl Walk.bind ({ walk with functionRole := role }.enter .empty)

def leaveFunction (before walk : Walk) : Walk :=
  { walk.leave with functionRole := before.functionRole }

def methodRole (method : FunctionDecl) : FunctionRole :=
  if method.isInitializer then .initializer else .method

mutual

def visitStmt : Stmt → Walk → Walk
  | .expression e, walk => visitExpr e walk
  | .print e, walk => visitExpr e walk
  | .var name initializer, walk => (visitExprIfAny initializer (walk.declare name)).ready name
  | .block body, walk => (visitStmts body (walk.enter .empty)).leave
  | .conditional condition thenBranch elseBranch, walk =>
    visitStmtIfAny elseBranch (visitStmt thenBranch (visitExpr condition walk))
  | .loop condition body, walk => visitStmt body (visitExpr condition walk)
  | .function declaration, walk => visitFunction .function declaration (walk.bind declaration.name)
  | .ret keyword value, walk => visitExprIfAny value (walk.useReturn keyword value.isSome)
  | .classDecl name superclass methods, walk =>
    leaveClass superclass walk (visitFunctions methods (enterClass name superclass walk))

def visitStmts : List Stmt → Walk → Walk
  | [], walk => walk
  | first :: rest, walk => visitStmts rest (visitStmt first walk)

def visitStmtIfAny : Option Stmt → Walk → Walk
  | none, walk => walk
  | some s, walk => visitStmt s walk

def visitFunction (role : FunctionRole) : FunctionDecl → Walk → Walk
  | ⟨_, params, body⟩, walk => leaveFunction walk (visitStmts body (enterFunction role params walk))

def visitFunctions : List FunctionDecl → Walk → Walk
  | [], walk => walk
  | first :: rest, walk => visitFunctions rest (visitFunction (methodRole first) first walk)

end

/-- The distance of each reference to a local, in the order of the walk; or all breaches. -/
def resolve (program : List Stmt) : Except (List StaticFault) (List (Nat × Nat)) :=
  let walk := visitStmts program .start
  if walk.faults.isEmpty then .ok walk.found.reverse else .error walk.faults.reverse

end Lox.Resolution
