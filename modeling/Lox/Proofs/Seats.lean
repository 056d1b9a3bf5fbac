import Lox.Proofs.Hosts

/-! Code in the environments it runs in. An environment was made for a body, for a receiver or for
the superclass of some methods, and what runs in it finds its `this` and its `super` in scopes of
the right kind, unless a loose host has called a method without a receiver or bound it again. -/

namespace Lox

open Resolution Machine

/-! ### Code -/

/-- What a run comes upon in one environment: an expression or a statement, a name to be declared or
assigned to, or a function that is to be made there. -/
inductive Code
  | word (name : Token)
  | target (reference : Reference)
  | expr (e : Expr)
  | stmt (s : Stmt)
  | function (declaration : FunctionDecl)
  | method (declaration : FunctionDecl)

namespace Code

/-- What runs in the same environment. The methods of a class do not: they are made in a scope of
their own, and so is what stands in a block. -/
inductive Part : Code → Code → Prop
  | operand {operator : Token} {inner : Expr} : Part (expr (.unary operator inner)) (expr inner)
  | left {first second : Expr} {operator : Token} :
    Part (expr (.binary first operator second)) (expr first)
  | right {first second : Expr} {operator : Token} :
    Part (expr (.binary first operator second)) (expr second)
  | deciding {first second : Expr} {operator : Token} :
    Part (expr (.logical first operator second)) (expr first)
  | decided {first second : Expr} {operator : Token} :
    Part (expr (.logical first operator second)) (expr second)
  | inner {inner : Expr} : Part (expr (.grouping inner)) (expr inner)
  | assigned {reference : Reference} {value : Expr} :
    Part (expr (.assign reference value)) (expr value)
  | target {reference : Reference} {value : Expr} :
    Part (expr (.assign reference value)) (target reference)
  | callee {called : Expr} {paren : Token} {arguments : List Expr} :
    Part (expr (.call called paren arguments)) (expr called)
  | argument {called e : Expr} {paren : Token} {arguments : List Expr} :
    e ∈ arguments → Part (expr (.call called paren arguments)) (expr e)
  | object {inner : Expr} {name : Token} : Part (expr (.get inner name)) (expr inner)
  | owner {inner value : Expr} {name : Token} : Part (expr (.set inner name value)) (expr inner)
  | value {inner value : Expr} {name : Token} : Part (expr (.set inner name value)) (expr value)
  | expression {e : Expr} : Part (stmt (.expression e)) (expr e)
  | printed {e : Expr} : Part (stmt (.print e)) (expr e)
  | declared {name : Token} {initial : Option Expr} : Part (stmt (.var name initial)) (word name)
  | initial {name : Token} {e : Expr} : Part (stmt (.var name (some e))) (expr e)
  | condition {e : Expr} {s : Stmt} {other : Option Stmt} :
    Part (stmt (.conditional e s other)) (expr e)
  | thenBranch {e : Expr} {s : Stmt} {other : Option Stmt} :
    Part (stmt (.conditional e s other)) (stmt s)
  | elseBranch {e : Expr} {s other : Stmt} :
    Part (stmt (.conditional e s (some other))) (stmt other)
  | test {e : Expr} {s : Stmt} : Part (stmt (.loop e s)) (expr e)
  | body {e : Expr} {s : Stmt} : Part (stmt (.loop e s)) (stmt s)
  | named {declaration : FunctionDecl} : Part (stmt (.function declaration)) (word declaration.name)
  | made {declaration : FunctionDecl} : Part (stmt (.function declaration)) (function declaration)
  | result {keyword : Token} {e : Expr} : Part (stmt (.ret keyword (some e))) (expr e)
  | classed {name : Token} {superclass : Option Reference} {methods : List FunctionDecl} :
    Part (stmt (.classDecl name superclass methods)) (word name)

/-- A method stands one scope further in than where it is made. -/
def uses (depth : Nat) : Code → List Use
  | word _ => []
  | target reference => [⟨depth, true, reference⟩]
  | expr e => e.uses depth
  | stmt s => s.uses depth
  | function declaration => declaration.uses depth
  | method declaration => declaration.uses (depth + 1)

def Proper : Code → Prop
  | word name => Named Token.Genuine name
  | target reference => Named Token.Genuine reference.name
  | expr e => e.Proper Token.Genuine
  | stmt s => s.Proper Token.Genuine
  | function declaration | method declaration => declaration.Proper Token.Genuine

def Resolved (records : Records) (scopes : List (Bindings Bool)) : Code → Prop
  | word _ => True
  | target reference => Writes records scopes reference
  | expr e => e.Resolved records scopes
  | stmt s => s.Resolved records scopes
  | function declaration => declaration.Resolved records scopes
  | method declaration => declaration.Resolved records (scopeOf thisName :: scopes)

end Code

variable {records : Records} {scopes : List (Bindings Bool)} {e : Expr} {es : List Expr}
  {s : Stmt} {body : List Stmt} {f : FunctionDecl} {methods : List FunctionDecl}

theorem exprsResolved_mem (resolved : exprsResolved records scopes es) (member : e ∈ es) :
    e.Resolved records scopes :=
  holds_of_mem (fun _ _ resolved => resolved) resolved member

/-! ### References looked at from further out -/

mutual

theorem Expr.identifiers_uses (depth : Nat) : (e : Expr) →
    identifiers (e.uses (depth + 1)) = identifiers (e.uses depth)
  | .literal _ => rfl
  | .unary _ inner | .grouping inner | .get inner _ => Expr.identifiers_uses depth inner
  | .binary first _ second | .logical first _ second | .set first _ second => by
    simp only [Expr.uses, identifiers_append, Expr.identifiers_uses depth first,
      Expr.identifiers_uses depth second]
  | .variable _ | .this _ | .super _ _ => rfl
  | .assign _ value => by
    simp only [Expr.uses, identifiers_append, Expr.identifiers_uses depth value,
      identifiers_singleton]
  | .call callee _ arguments => by
    simp only [Expr.uses, identifiers_append, Expr.identifiers_uses depth callee,
      identifiers_exprUses depth arguments]

theorem identifiers_exprUses (depth : Nat) : (es : List Expr) →
    identifiers (exprUses (depth + 1) es) = identifiers (exprUses depth es)
  | [] => rfl
  | first :: rest => by
    simp only [exprUses, identifiers_append, Expr.identifiers_uses depth first,
      identifiers_exprUses depth rest]

end

theorem identifiers_optionalUses (depth : Nat) (e : Option Expr) :
    identifiers (optionalUses (depth + 1) e) = identifiers (optionalUses depth e) := by
  cases e with
  | none => rfl
  | some e => exact e.identifiers_uses depth

theorem identifiers_superclassUses (depth : Nat) (superclass : Option Reference) :
    identifiers (superclassUses (depth + 1) superclass) =
      identifiers (superclassUses depth superclass) := by
  cases superclass <;> rfl

mutual

theorem Stmt.identifiers_uses (depth : Nat) : (s : Stmt) →
    identifiers (s.uses (depth + 1)) = identifiers (s.uses depth)
  | .expression e | .print e => e.identifiers_uses depth
  | .var _ initializer => identifiers_optionalUses depth initializer
  | .block body => identifiers_stmtUses (depth + 1) body
  | .conditional condition thenBranch elseBranch => by
    simp only [Stmt.uses, identifiers_append, condition.identifiers_uses depth,
      Stmt.identifiers_uses depth thenBranch, identifiers_branchUses depth elseBranch]
  | .loop condition body => by
    simp only [Stmt.uses, identifiers_append, condition.identifiers_uses depth,
      Stmt.identifiers_uses depth body]
  | .function declaration => FunctionDecl.identifiers_uses depth declaration
  | .ret _ value => identifiers_optionalUses depth value
  | .classDecl _ superclass methods => by
    have inner := identifiers_methodUses (depth + classDepth superclass) methods
    rw [Nat.add_right_comm] at inner
    simp only [Stmt.uses, identifiers_append, identifiers_superclassUses depth superclass, inner]

theorem identifiers_stmtUses (depth : Nat) : (body : List Stmt) →
    identifiers (stmtUses (depth + 1) body) = identifiers (stmtUses depth body)
  | [] => rfl
  | first :: rest => by
    simp only [stmtUses, identifiers_append, Stmt.identifiers_uses depth first,
      identifiers_stmtUses depth rest]

theorem identifiers_branchUses (depth : Nat) : (s : Option Stmt) →
    identifiers (branchUses (depth + 1) s) = identifiers (branchUses depth s)
  | none => rfl
  | some s => Stmt.identifiers_uses depth s

theorem FunctionDecl.identifiers_uses (depth : Nat) : (f : FunctionDecl) →
    identifiers (f.uses (depth + 1)) = identifiers (f.uses depth)
  | ⟨_, _, body⟩ => identifiers_stmtUses (depth + 1) body

theorem identifiers_methodUses (depth : Nat) : (methods : List FunctionDecl) →
    identifiers (methodUses (depth + 1) methods) = identifiers (methodUses depth methods)
  | [] => rfl
  | first :: rest => by
    simp only [methodUses, identifiers_append, FunctionDecl.identifiers_uses depth first,
      identifiers_methodUses depth rest]

end

namespace Code

variable {code part : Code}

theorem Part.proper (stands : Part code part) (proper : code.Proper) : part.Proper := by
  cases stands with
  | operand | inner | object | expression | printed | made | result => exact proper
  | left | deciding | callee | owner | declared | condition | test | classed | target =>
    exact proper.1
  | right | decided | value | assigned | initial => exact proper.2
  | argument member => exact exprsProper_mem proper.2 member
  | thenBranch => exact proper.2.1.1
  | elseBranch => exact proper.2.2.1
  | body => exact proper.2.1
  | @named declaration =>
    obtain ⟨name, params, body⟩ := declaration
    exact proper.1

theorem Part.uses (stands : Part code part) (depth : Nat) :
    (part.uses depth).Sublist (code.uses depth) := by
  cases stands with
  | operand | inner | object | expression | printed | initial | made | result =>
    exact List.Sublist.refl _
  | left | deciding | callee | owner | test | assigned => exact List.sublist_append_left _ _
  | right | decided | value | body | target | elseBranch => exact List.sublist_append_right _ _
  | argument member => exact (exprUses_mem depth member).trans (List.sublist_append_right _ _)
  | condition => exact (List.sublist_append_left _ _).trans (List.sublist_append_left _ _)
  | thenBranch => exact (List.sublist_append_right _ _).trans (List.sublist_append_left _ _)
  | declared | named | classed => exact List.nil_sublist _

theorem Resolved.later {newer : Records} (resolved : code.Resolved records scopes)
    (grown : records.Extends newer) : code.Resolved newer scopes := by
  cases code with
  | word name => trivial
  | target reference => exact Writes.later resolved grown
  | expr e => exact Expr.Resolved.later grown e resolved
  | stmt s => exact Stmt.Resolved.later grown s resolved
  | function declaration | method declaration =>
    exact FunctionDecl.Resolved.later grown declaration resolved

/-- A part is resolved in the same scopes, or after a name was declared in them. -/
theorem Part.resolved (stands : Part code part) (proper : code.Proper)
    (resolved : code.Resolved records scopes) :
    part.Resolved records scopes ∨
      ∃ name ready, Named Token.Genuine name ∧
        part.Resolved records (marked scopes name.lexeme ready) := by
  cases stands with
  | operand | inner | object | expression | printed | result => exact .inl resolved
  | left | deciding | callee | owner | condition | test | target => exact .inl resolved.1
  | right | decided | value | assigned => exact .inl resolved.2
  | argument member => exact .inl (exprsResolved_mem resolved.2 member)
  | thenBranch => exact .inl resolved.2.1.1
  | elseBranch => exact .inl resolved.2.2.1
  | body => exact .inl resolved.2.1
  | declared | named | classed => exact .inl trivial
  | @initial name e => exact .inr ⟨name, false, proper.1, resolved.2⟩
  | @made declaration =>
    refine .inr ⟨declaration.name, true, ?_, resolved.2⟩
    exact Part.named.proper proper

end Code

/-! ### Openings -/

/-- What an environment was made for: a receiver with the method that was bound to it, if it was a
method, or a superclass with the methods around which it stands. -/
inductive Opening
  | globals
  | body
  | receiver (i : Instance) (method : Option FunctionDecl)
  | superclass (above : Class) (methods : List FunctionDecl)

/-- The openings of all environments, by address. -/
abbrev Openings := List Opening

variable {conduct : Conduct} {openings : Openings} {addresses : List Nat} {name : String}
  {uses other : Nat → List Use}

/-- The scopes of the walk name the receiver and the superclass where the environments of a run were
opened for them, and what is used there, told by how many scopes further in, is used in the method or
the methods they were opened for. -/
inductive Lodged (conduct : Conduct) (openings : Openings) :
    List Nat → List (Bindings Bool) → (Nat → List Use) → Prop
  | globals {uses : Nat → List Use} : openings[0]? = some .globals →
      Lodged conduct openings [0] [] uses
  | body {address : Nat} {outer : List Nat} {scope : Bindings Bool} {scopes : List (Bindings Bool)}
      {uses : Nat → List Use} : openings[address]? = some .body →
      scope.contains thisName = false → scope.contains superName = false →
      Lodged conduct openings outer scopes (fun depth => uses (depth + 1)) →
        Lodged conduct openings (address :: outer) (scope :: scopes) uses
  | receiver {i : Instance} {method : FunctionDecl} {address : Nat} {outer : List Nat}
      {scope : Bindings Bool} {scopes : List (Bindings Bool)} {uses : Nat → List Use} :
      openings[address]? = some (.receiver i (some method)) → scope.contains thisName = true →
      scope.contains superName = false → uses 0 ⊆ method.uses 0 →
      Lodged conduct openings outer scopes (fun depth => uses (depth + 1)) →
        Lodged conduct openings (address :: outer) (scope :: scopes) uses
  | superclass {above : Class} {methods : List FunctionDecl} {address : Nat} {outer : List Nat}
      {scope : Bindings Bool} {scopes : List (Bindings Bool)} {uses : Nat → List Use} :
      openings[address]? = some (.superclass above methods) → scope.contains thisName = false →
      scope.contains superName = true → uses 0 ⊆ methodUses 1 methods →
      Lodged conduct openings outer scopes (fun depth => uses (depth + 1)) →
        Lodged conduct openings (address :: outer) (scope :: scopes) uses
  /-- A method that is called without a receiver. -/
  | unbound {scope : Bindings Bool} {addresses : List Nat} {scopes : List (Bindings Bool)}
      {uses : Nat → List Use} : conduct = .loose →
      scope.contains thisName = true → scope.contains superName = false →
      Lodged conduct openings addresses scopes (fun depth => uses (depth + 1)) →
        Lodged conduct openings addresses (scope :: scopes) uses
  /-- A function that is bound, where the walk has found no method. -/
  | rebound {i : Instance} {address : Nat} {outer : List Nat} {scopes : List (Bindings Bool)}
      {uses : Nat → List Use} : conduct = .loose → openings[address]? = some (.receiver i none) →
      Lodged conduct openings outer scopes uses →
        Lodged conduct openings (address :: outer) scopes uses

namespace Lodged

theorem inside (lodged : Lodged conduct openings addresses scopes uses) :
    ∀ address ∈ addresses, address < openings.length := by
  induction lodged with
  | globals there =>
    intro address member
    rw [List.mem_singleton.mp member]
    exact (List.getElem?_eq_some_iff.mp there).1
  | body there _ _ _ ih | receiver there _ _ _ _ ih | superclass there _ _ _ _ ih
  | rebound _ there _ ih =>
    exact List.forall_mem_cons.mpr ⟨(List.getElem?_eq_some_iff.mp there).1, ih⟩
  | unbound _ _ _ _ ih => exact ih

theorem grow (lodged : Lodged conduct openings addresses scopes uses) (more : Openings) :
    Lodged conduct (openings ++ more) addresses scopes uses := by
  have still {address : Nat} {opening : Opening} (there : openings[address]? = some opening) :
      (openings ++ more)[address]? = some opening := by
    rw [List.getElem?_append_left (List.getElem?_eq_some_iff.mp there).1]
    exact there
  induction lodged with
  | globals there => exact .globals (still there)
  | body there noThis noSuper _ ih => exact .body (still there) noThis noSuper ih
  | receiver there this noSuper used _ ih => exact .receiver (still there) this noSuper used ih
  | superclass there noThis super used _ ih => exact .superclass (still there) noThis super used ih
  | unbound loose this noSuper _ ih => exact .unbound loose this noSuper ih
  | rebound loose there _ ih => exact .rebound loose (still there) ih

theorem sub (lodged : Lodged conduct openings addresses scopes uses)
    (sub : ∀ depth, other depth ⊆ uses depth) :
    Lodged conduct openings addresses scopes other := by
  induction lodged generalizing other with
  | globals there => exact .globals there
  | body there noThis noSuper _ ih => exact .body there noThis noSuper (ih fun depth => sub _)
  | receiver there this noSuper used _ ih =>
    exact .receiver there this noSuper (List.Subset.trans (sub 0) used) (ih fun depth => sub _)
  | superclass there noThis super used _ ih =>
    exact .superclass there noThis super (List.Subset.trans (sub 0) used) (ih fun depth => sub _)
  | unbound loose this noSuper _ ih => exact .unbound loose this noSuper (ih fun depth => sub _)
  | rebound loose there _ ih => exact .rebound loose there (ih sub)

theorem marked (lodged : Lodged conduct openings addresses scopes uses) (ordinary : Ordinary name)
    (ready : Bool) :
    Lodged conduct openings addresses (Resolution.marked scopes name ready) uses := by
  have receiver (scope : Bindings Bool) :
      (scope.insert name ready).contains thisName = scope.contains thisName := by
    simp [beq_false_of_ne ordinary.notThis.symm]
  have above (scope : Bindings Bool) :
      (scope.insert name ready).contains superName = scope.contains superName := by
    simp [beq_false_of_ne ordinary.notSuper.symm]
  induction lodged with
  | globals there => exact .globals there
  | body there noThis noSuper outer _ =>
    exact .body there ((receiver _).trans noThis) ((above _).trans noSuper) outer
  | receiver there this noSuper used outer _ =>
    exact .receiver there ((receiver _).trans this) ((above _).trans noSuper) used outer
  | superclass there noThis super used outer _ =>
    exact .superclass there ((receiver _).trans noThis) ((above _).trans super) used outer
  | unbound loose this noSuper outer _ =>
    exact .unbound loose ((receiver _).trans this) ((above _).trans noSuper) outer
  | rebound loose there _ ih => exact .rebound loose there ih

/-- Where no host is loose, what is used in the methods of a subclass is told by how far out the
environment is that was opened for them. -/
theorem within (lodged : Lodged .strict openings addresses scopes uses) {depth address : Nat}
    {above : Class} {methods : List FunctionDecl} (there : addresses[depth]? = some address)
    (opened : openings[address]? = some (.superclass above methods)) :
    uses depth ⊆ methodUses 1 methods := by
  generalize strict : Conduct.strict = conduct at lodged
  induction lodged generalizing depth with
  | globals first =>
    cases depth with
    | zero =>
      cases there
      cases first.symm.trans opened
    | succ depth => cases there
  | body first _ _ _ ih | receiver first _ _ _ _ ih =>
    cases depth with
    | zero =>
      cases there
      cases first.symm.trans opened
    | succ depth => exact ih there
  | superclass first _ _ used _ ih =>
    cases depth with
    | zero =>
      cases there
      cases first.symm.trans opened
      exact used
    | succ depth => exact ih there
  | unbound loose | rebound loose => cases strict.trans loose

end Lodged

/-! ### Seats -/

/-- Code that may run in the environments at some addresses: it was resolved in scopes it is lodged in
there. -/
structure Seated (conduct : Conduct) (records : Records) (openings : Openings) (addresses : List Nat)
    (code : Code) : Prop where
  proper : code.Proper
  distinct : (identifiers (code.uses 0)).Nodup
  resolved : ∃ scopes, Lodged conduct openings addresses scopes (Code.uses · code) ∧
    code.Resolved records scopes

theorem Lodged.after (lodged : Lodged conduct openings addresses scopes uses)
    (proper : s.Proper Token.Genuine) :
    Lodged conduct openings addresses (Resolution.after s scopes) uses := by
  have genuine : ∀ token, Token.Genuine token → token.Genuine := fun _ given => given
  cases s with
  | var name _ => exact lodged.marked (ordinary_of_named proper.1 genuine) true
  | function declaration =>
    exact lodged.marked (ordinary_of_named (named_of_proper declaration proper) genuine) true
  | classDecl name _ _ => exact lodged.marked (ordinary_of_named proper.1 genuine) true
  | expression _ | print _ | block _ | conditional _ _ _ | loop _ _ | ret _ _ => exact lodged

theorem stmtsResolved_mem (lodged : Lodged conduct openings addresses scopes (stmtUses · body))
    (proper : stmtsProper Token.Genuine body) (resolved : stmtsResolved records scopes body)
    (member : s ∈ body) :
    ∃ scopes, Lodged conduct openings addresses scopes (Stmt.uses · s) ∧
      s.Resolved records scopes := by
  induction body generalizing scopes with
  | nil => cases member
  | cons first rest ih =>
    rcases List.mem_cons.mp member with rfl | later
    · exact ⟨scopes, lodged.sub fun depth => List.subset_append_left _ _, resolved.1⟩
    · refine ih (lodged.after proper.1 |>.sub fun depth => ?_) proper.2 resolved.2 later
      exact List.subset_append_right _ _

namespace Seated

variable {code piece : Code} {address : Nat}

theorem inside (seated : Seated conduct records openings addresses code) :
    ∀ address ∈ addresses, address < openings.length := by
  obtain ⟨scopes, lodged, _⟩ := seated.resolved
  exact lodged.inside

theorem part (seated : Seated conduct records openings addresses code)
    (stands : Code.Part code piece) : Seated conduct records openings addresses piece where
  proper := stands.proper seated.proper
  distinct := ((stands.uses 0).map Use.id).nodup seated.distinct
  resolved := by
    obtain ⟨scopes, lodged, resolved⟩ := seated.resolved
    have lodged := lodged.sub fun depth => (stands.uses depth).subset
    rcases stands.resolved seated.proper resolved with same | ⟨name, ready, named, declared⟩
    · exact ⟨scopes, lodged, same⟩
    · have ordinary := ordinary_of_named named fun _ genuine => genuine
      exact ⟨_, lodged.marked ordinary ready, declared⟩

theorem grow (seated : Seated conduct records openings addresses code) (more : Openings) :
    Seated conduct records (openings ++ more) addresses code where
  proper := seated.proper
  distinct := seated.distinct
  resolved := by
    obtain ⟨scopes, lodged, resolved⟩ := seated.resolved
    exact ⟨scopes, lodged.grow more, resolved⟩

theorem later {newer : Records} (seated : Seated conduct records openings addresses code)
    (grown : records.Extends newer) : Seated conduct newer openings addresses code where
  proper := seated.proper
  distinct := seated.distinct
  resolved := by
    obtain ⟨scopes, lodged, resolved⟩ := seated.resolved
    exact ⟨scopes, lodged, resolved.later grown⟩

/-- The statements of a body, in the scope that is opened for them. -/
theorem statement {scope : Bindings Bool} (proper : stmtsProper Token.Genuine body)
    (distinct : (identifiers (stmtUses 1 body)).Nodup)
    (lodged : Lodged conduct openings addresses scopes (fun depth => stmtUses (depth + 1) body))
    (noThis : scope.contains thisName = false) (noSuper : scope.contains superName = false)
    (resolved : stmtsResolved records (scope :: scopes) body) (member : s ∈ body) :
    Seated conduct records (openings ++ [.body]) (openings.length :: addresses) (.stmt s) where
  proper := stmtsProper_mem proper member
  distinct := by
    rw [identifiers_stmtUses] at distinct
    exact ((stmtUses_mem 0 member).map Use.id).nodup distinct
  resolved :=
    have here : Lodged conduct (openings ++ [.body]) (openings.length :: addresses)
        (scope :: scopes) (stmtUses · body) :=
      .body List.getElem?_concat_length noThis noSuper (lodged.grow _)
    stmtsResolved_mem here proper resolved member

theorem block (seated : Seated conduct records openings addresses (.stmt (.block body)))
    (member : s ∈ body) :
    Seated conduct records (openings ++ [.body]) (openings.length :: addresses) (.stmt s) := by
  obtain ⟨scopes, lodged, resolved⟩ := seated.resolved
  exact statement seated.proper seated.distinct lodged rfl rfl resolved member

theorem unnamed_params {params : List Token} {word : String}
    (apart : ∀ param ∈ params, param.lexeme ≠ word) :
    (paramScope params).contains word = false := by
  have absent : word ∉ params.map Token.lexeme := by
    intro member
    obtain ⟨param, listed, same⟩ := List.mem_map.mp member
    exact apart param listed same
  rw [Bindings.contains, find?_paramScope, if_neg absent]
  rfl

/-- The parameters of a function have ordinary names. -/
theorem ordinary_param (seated : Seated conduct records openings addresses (.function f))
    {param : Token} (member : param ∈ f.params) : Ordinary param.lexeme := by
  obtain ⟨name, params, body⟩ := f
  exact ordinary_of_named (seated.proper.2.1 param member) fun _ genuine => genuine

theorem call (seated : Seated conduct records openings addresses (.function f))
    (member : s ∈ f.body) :
    Seated conduct records (openings ++ [.body]) (openings.length :: addresses) (.stmt s) := by
  have ordinary (param : Token) (member : param ∈ f.params) : Ordinary param.lexeme :=
    seated.ordinary_param member
  obtain ⟨name, params, body⟩ := f
  obtain ⟨scopes, lodged, _, resolved⟩ := seated.resolved
  exact statement seated.proper.2.2 seated.distinct lodged
    (unnamed_params fun param listed => (ordinary param listed).notThis)
    (unnamed_params fun param listed => (ordinary param listed).notSuper) resolved member

theorem distinct_method (seated : Seated conduct records openings addresses (.method f)) :
    (identifiers (f.uses 0)).Nodup := by
  have distinct : (identifiers (f.uses 1)).Nodup := seated.distinct
  rwa [f.identifiers_uses] at distinct

/-- A method in the scope of its receiver. -/
theorem bound (seated : Seated conduct records openings addresses (.method f)) (i : Instance) :
    Seated conduct records (openings ++ [.receiver i (some f)]) (openings.length :: addresses)
      (.function f) where
  proper := seated.proper
  distinct := seated.distinct_method
  resolved := by
    obtain ⟨scopes, lodged, resolved⟩ := seated.resolved
    have here : Lodged conduct (openings ++ [.receiver i (some f)]) (openings.length :: addresses)
        (scopeOf thisName :: scopes) (FunctionDecl.uses · f) :=
      .receiver List.getElem?_concat_length (by decide) (by decide) (List.Subset.refl _)
        (lodged.grow _)
    exact ⟨_, here, resolved⟩

/-- A method without a receiver, as loose hosts hand it in. -/
theorem unbound (seated : Seated conduct records openings addresses (.method f))
    (loose : conduct = .loose) : Seated conduct records openings addresses (.function f) where
  proper := seated.proper
  distinct := seated.distinct_method
  resolved := by
    obtain ⟨scopes, lodged, resolved⟩ := seated.resolved
    have here : Lodged conduct openings addresses (scopeOf thisName :: scopes)
        (FunctionDecl.uses · f) := .unbound loose (by decide) (by decide) lodged
    exact ⟨_, here, resolved⟩

/-- A function that a loose host has bound. -/
theorem rebound (seated : Seated conduct records openings addresses (.function f))
    (loose : conduct = .loose) (i : Instance) :
    Seated conduct records (openings ++ [.receiver i none]) (openings.length :: addresses)
      (.function f) where
  proper := seated.proper
  distinct := seated.distinct
  resolved := by
    obtain ⟨scopes, lodged, resolved⟩ := seated.resolved
    exact ⟨_, .rebound loose List.getElem?_concat_length (lodged.grow _), resolved⟩

theorem plain_method {className : Token}
    (seated : Seated conduct records openings addresses (.stmt (.classDecl className none methods)))
    (member : f ∈ methods) : Seated conduct records openings addresses (.method f) where
  proper := methodsProper_mem seated.proper.2.2 member
  distinct := ((methodUses_mem 1 member).map Use.id).nodup seated.distinct
  resolved := by
    obtain ⟨scopes, lodged, _, _, resolved⟩ := seated.resolved
    have ordinary := ordinary_of_named seated.proper.1 fun _ genuine => genuine
    have here : Lodged conduct openings addresses (Resolution.marked scopes className.lexeme true)
        (fun depth => f.uses (depth + 1)) :=
      (lodged.marked ordinary true).sub fun depth => (methodUses_mem (depth + 1) member).subset
    exact ⟨_, here, resolved_of_mem resolved _ member⟩

/-- The references in the methods of a subclass have numbers of their own. -/
theorem distinct_methods {className : Token} {superclass : Reference}
    (seated : Seated conduct records openings addresses
      (.stmt (.classDecl className (some superclass) methods))) :
    (identifiers (methodUses 1 methods)).Nodup := by
  have distinct : (identifiers
      (superclassUses 0 (some superclass) ++ methodUses 2 methods)).Nodup := seated.distinct
  rw [identifiers_append, identifiers_methodUses] at distinct
  exact (List.nodup_append.mp distinct).2.1

/-- A method of a subclass, in the scope of the superclass. -/
theorem derived_method {className : Token} {superclass : Reference}
    (seated : Seated conduct records openings addresses
      (.stmt (.classDecl className (some superclass) methods)))
    (above : Class) (member : f ∈ methods) :
    Seated conduct records (openings ++ [.superclass above methods])
      (openings.length :: addresses) (.method f) where
  proper := methodsProper_mem seated.proper.2.2 member
  distinct := ((methodUses_mem 1 member).map Use.id).nodup seated.distinct_methods
  resolved := by
    obtain ⟨scopes, lodged, _, _, resolved⟩ := seated.resolved
    have ordinary := ordinary_of_named seated.proper.1 fun _ genuine => genuine
    have outer : Lodged conduct openings addresses
        (Resolution.marked scopes className.lexeme true) (fun depth => f.uses (depth + 2)) := by
      refine (lodged.marked ordinary true).sub fun depth => ?_
      exact List.Subset.trans (methodUses_mem (depth + 2) member).subset
        (List.subset_append_right _ _)
    have here : Lodged conduct (openings ++ [.superclass above methods])
        (openings.length :: addresses)
        (scopeOf superName :: Resolution.marked scopes className.lexeme true)
        (fun depth => f.uses (depth + 1)) :=
      .superclass List.getElem?_concat_length (by decide) (by decide)
        (methodUses_mem 1 member).subset (outer.grow _)
    exact ⟨_, here, resolved_of_mem resolved _ member⟩

end Seated

end Lox
