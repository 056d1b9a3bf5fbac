import Lox.Proofs.Derived

/-! The limit on the length of lists. Whether it is kept to can be told by counting commas, so every
part of a program that is accepted keeps to it. -/

namespace Lox.Grammar

open Computability

/-- The commas since each open parenthesis, innermost first. Gives nothing where a list gets too
long. -/
def count (counts : List Nat) (token : Token) : Option (List Nat) :=
  match token.kind, counts with
  | .symbol .leftParen, counts => some (0 :: counts)
  | .symbol .rightParen, _ :: outer => some outer
  | .symbol .rightParen, [] => none
  | .symbol .comma, commas :: outer =>
    if commas + 1 < maxArguments then some ((commas + 1) :: outer) else none
  | .symbol .comma, [] => none
  | _, counts => some counts

def tally (counts : List Nat) (ts : List Token) : Option (List Nat) := ts.foldlM count counts

/-- Tokens of these kinds are not counted. -/
def Uncounted (kind : Kind) : Prop :=
  kind ≠ .symbol .leftParen ∧ kind ≠ .symbol .rightParen ∧ kind ≠ .symbol .comma ∧ kind ≠ .eof

instance : DecidablePred Uncounted := fun _ => inferInstanceAs (Decidable (_ ∧ _))

variable {fits : Nat → Prop} {refusing : Prop} {before middle after : List Nat}
  {A B M N : Language Token} {ts : List Token} {token : Token}

theorem tally_append (counts : List Nat) (first second : List Token) :
    tally counts (first ++ second) = (tally counts first).bind (tally · second) :=
  List.foldlM_append

theorem count_uncounted (uncounted : Uncounted token.kind) (counts : List Nat) :
    count counts token = some counts := by
  obtain ⟨left, right, comma, _⟩ := uncounted
  unfold count
  split <;> simp_all

/-- Token lists without an end in them. They keep to the limit and take the counts from one value to
another, or they are found to break it. -/
def tallied (refusing : Prop) (limited : Language Token) (before after : List Nat) :
    Language Token :=
  {ts | (∀ token ∈ ts, token.kind ≠ .eof) ∧
    ((ts ∈ limited ∧ ∀ outer, tally (before ++ outer) ts = some (after ++ outer)) ∨
      (refusing ∧ ∀ outer, tally (before ++ outer) ts = none))}

theorem tallied_mono (within : M ≤ N) :
    tallied refusing M before after ≤ tallied refusing N before after := by
  intro ts inside
  obtain ⟨words, told⟩ := inside
  exact ⟨words, told.imp_left fun kept => ⟨within kept.1, kept.2⟩⟩

/-- What does not look at the counts does nothing to them further in. -/
theorem tallied_within (counts : List Nat) :
    tallied refusing M [] [] ≤ tallied refusing M counts counts := by
  intro ts inside
  obtain ⟨words, told⟩ := inside
  exact ⟨words, told.imp (fun kept => ⟨kept.1, fun outer => kept.2 (counts ++ outer)⟩)
    fun broken => ⟨broken.1, fun outer => broken.2 (counts ++ outer)⟩⟩

theorem mul_tallied (first : A ≤ tallied refusing M before middle)
    (second : B ≤ tallied refusing N middle after) :
    A * B ≤ tallied refusing (M * N) before after := by
  intro ts inside
  obtain ⟨ta, insideA, tb, insideB, rfl⟩ := Language.mem_mul.mp inside
  obtain ⟨words, told⟩ := first insideA
  obtain ⟨words', told'⟩ := second insideB
  refine ⟨fun token member => (List.mem_append.mp member).elim (words token) (words' token), ?_⟩
  simp only [tally_append]
  rcases told with ⟨kept, moves⟩ | ⟨refused, stops⟩
  · simp only [moves, Option.bind_some]
    exact told'.imp_left fun rest => ⟨Language.append_mem_mul kept rest.1, rest.2⟩
  · exact .inr ⟨refused, fun outer => by rw [stops, Option.bind_none]⟩

theorem add_tallied (first : A ≤ tallied refusing M before after)
    (second : B ≤ tallied refusing N before after) :
    A + B ≤ tallied refusing (M + N) before after := by
  intro ts inside
  rcases inside with inside | inside
  · exact tallied_mono (le_add_right le_rfl) (first inside)
  · exact tallied_mono (le_add_left le_rfl) (second inside)

theorem one_tallied : 1 ≤ tallied refusing 1 before before := by
  intro ts inside
  cases inside
  exact ⟨fun _ => nofun, .inl ⟨rfl, fun _ => rfl⟩⟩

theorem optional_tallied (inner : A ≤ tallied refusing M before before) :
    Grammar.optional A ≤ tallied refusing (Grammar.optional M) before before :=
  add_tallied inner one_tallied

theorem kstar_tallied (inner : A ≤ tallied refusing M before before) :
    A∗ ≤ tallied refusing (M∗) before before := by
  refine kstar_le_of_mul_le_right (one_tallied.trans (tallied_mono one_le_kstar)) ?_
  exact (mul_tallied inner le_rfl).trans (tallied_mono mul_kstar_le_kstar)

theorem one_token {token : Token} (ended : token.kind ≠ .eof) (inside : [token] ∈ M)
    (moves : ∀ outer, count (before ++ outer) token = some (after ++ outer)) :
    [token] ∈ tallied refusing M before after := by
  refine ⟨fun other member => List.mem_singleton.mp member ▸ ended, .inl ⟨inside, fun outer => ?_⟩⟩
  rw [tally, List.foldlM_cons, moves]
  rfl

theorem oneOf_tallied {kinds : List Kind} (uncounted : ∀ kind ∈ kinds, Uncounted kind) :
    oneOf kinds ≤ tallied refusing (oneOf kinds) before before := by
  intro ts inside
  obtain ⟨token, member, rfl⟩ := inside
  have plain := uncounted _ member
  exact one_token plain.2.2.2 ⟨token, member, rfl⟩ fun outer => count_uncounted plain _

theorem opening_tallied :
    symbol .leftParen ≤ tallied refusing (symbol .leftParen) before (0 :: before) := by
  intro ts inside
  obtain ⟨token, member, rfl⟩ := inside
  have kind := List.mem_singleton.mp member
  exact one_token (by simp [kind]) ⟨token, member, rfl⟩ fun outer => by simp [count, kind]

theorem closing_tallied {commas : Nat} :
    symbol .rightParen ≤ tallied refusing (symbol .rightParen) (commas :: before) before := by
  intro ts inside
  obtain ⟨token, member, rfl⟩ := inside
  have kind := List.mem_singleton.mp member
  exact one_token (by simp [kind]) ⟨token, member, rfl⟩ fun outer => by simp [count, kind]

/-! ### Lists -/

theorem comma_tallied (commas : Nat) (room : commas + 1 < maxArguments ∨ refusing) :
    symbol .comma ≤ tallied refusing {ts | commas + 1 < maxArguments ∧ ts ∈ symbol .comma} [commas]
      [commas + 1] := by
  intro ts inside
  obtain ⟨token, member, rfl⟩ := inside
  have kind := List.mem_singleton.mp member
  have ended : token.kind ≠ .eof := by simp [kind]
  by_cases left : commas + 1 < maxArguments
  · exact one_token ended ⟨left, token, member, rfl⟩ fun outer => by simp [count, kind, left]
  · refine ⟨fun other member => List.mem_singleton.mp member ▸ ended, .inr ⟨?_, fun outer => ?_⟩⟩
    · exact room.resolve_left left
    · simp [tally, count, kind, left]

theorem commas_tallied (items : ∀ commas, A ≤ tallied refusing M [commas] [commas]) :
    ∀ more commas, commas + more < maxArguments ∨ refusing →
      (symbol .comma * A) ^ more ≤ tallied refusing
        {ts | (commas < maxArguments → commas + more < maxArguments) ∧
          ts ∈ (symbol .comma * M) ^ more} [commas] [commas + more]
  | 0, commas, _ => by
    rw [pow_zero, pow_zero]
    exact one_tallied.trans (tallied_mono fun _ inside => ⟨id, inside⟩)
  | more + 1, commas, room => by
    have next := comma_tallied commas (room.imp_left (by omega))
    have rest := commas_tallied items more (commas + 1) (room.imp_left (by omega))
    have all := mul_tallied (mul_tallied next (items (commas + 1))) rest
    rw [pow_succ', Nat.add_right_comm] at *
    refine all.trans (tallied_mono ?_)
    rintro _ ⟨_, ⟨_, ⟨left, sign⟩, _, item, rfl⟩, _, ⟨fits, others⟩, rfl⟩
    refine ⟨fun _ => fits left, ?_⟩
    rw [pow_succ']
    exact Language.append_mem_mul (Language.append_mem_mul sign item) others

/-- The items of a list, counted by the commas between them. -/
def counted (refusing : Prop) (limited : Language Token) : Language Token :=
  {ts | ∃ commas, ts ∈ tallied refusing limited [0] [commas]}

variable (limit : ∀ length, fits length → length ≤ maxArguments ∨ refusing)

include limit in
theorem listOf_counted (item : A ≤ tallied refusing M [] []) :
    listOf fits A ≤ counted refusing (listOf (· ≤ maxArguments) M) := by
  intro ts inside
  obtain ⟨more, fit, inside⟩ := inside
  have items (commas : Nat) := item.trans (tallied_within [commas])
  have rest := commas_tallied items more 0 ((limit _ fit).imp_left (by omega))
  refine ⟨0 + more, ?_⟩
  refine (mul_tallied (items 0) rest).trans (tallied_mono ?_) inside
  rintro _ ⟨first, head, others, ⟨few, tail⟩, rfl⟩
  have short : 0 + more < maxArguments := few (by decide)
  exact ⟨more, by omega, Language.append_mem_mul head tail⟩

theorem list_tallied (opening : B ≤ tallied refusing N [] [0]) (list : A ≤ counted refusing M) :
    B * Grammar.optional A * symbol .rightParen ≤
      tallied refusing (N * Grammar.optional M * symbol .rightParen) [] [] := by
  rintro _ ⟨_, ⟨tb, opened, ta, given, rfl⟩, tc, closed, rfl⟩
  obtain ⟨commas, inside⟩ : ∃ commas, ta ∈ tallied refusing (Grammar.optional M) [0] [commas] := by
    rcases given with given | rfl
    · obtain ⟨commas, inside⟩ := list given
      exact ⟨commas, tallied_mono (le_add_right le_rfl) inside⟩
    · exact ⟨0, tallied_mono (le_add_left le_rfl) (one_tallied rfl)⟩
  have items : tallied refusing (Grammar.optional M) [0] [commas] ≤
      tallied refusing (Grammar.optional M) [0] [commas] := le_rfl
  have all := mul_tallied (mul_tallied opening items) closing_tallied
  exact all (Language.append_mem_mul (Language.append_mem_mul opened inside) closed)

/-! ### The grammar -/

/-- What each rule derives, as far as the counts tell. -/
def settled (refusing : Prop) : Rule → Language Token
  | .program => ⊤
  | .parameters => counted refusing (derived .parameters)
  | .arguments => counted refusing (derived .arguments)
  | rule => tallied refusing (derived rule) [] []

theorem number_tallied : number ≤ tallied refusing number before before := by
  rintro _ ⟨token, value, kind, rfl⟩
  exact one_token (by simp [kind]) ⟨token, value, kind, rfl⟩ fun outer =>
    count_uncounted (by simp [kind, Uncounted]) _

theorem string_tallied : string ≤ tallied refusing string before before := by
  rintro _ ⟨token, text, kind, rfl⟩
  exact one_token (by simp [kind]) ⟨token, text, kind, rfl⟩ fun outer =>
    count_uncounted (by simp [kind, Uncounted]) _

theorem settled_of_production {rule : Rule}
    (single : settled refusing rule = tallied refusing (derived rule) [] [])
    (keeps : production fits (settled refusing) rule ≤
      tallied refusing (production (fun length => length ≤ maxArguments) derived rule) [] []) :
    production fits (settled refusing) rule ≤ settled refusing rule := by
  rw [single, derived_eq]
  exact keeps

include limit in
theorem production_settled (rule : Rule) :
    production fits (settled refusing) rule ≤ settled refusing rule := by
  cases rule with
  | program => exact le_top
  | parameters =>
    change _ ≤ counted refusing (derived .parameters)
    rw [derived_eq]
    exact listOf_counted limit (oneOf_tallied (by decide))
  | arguments =>
    change _ ≤ counted refusing (derived .arguments)
    rw [derived_eq]
    exact listOf_counted limit le_rfl
  | function =>
    refine settled_of_production rfl (mul_tallied (list_tallied ?_ le_rfl) le_rfl)
    exact mul_tallied (oneOf_tallied (by decide)) opening_tallied
  | call =>
    refine settled_of_production rfl (mul_tallied le_rfl (kstar_tallied (add_tallied ?_ ?_)))
    · exact list_tallied opening_tallied le_rfl
    · exact mul_tallied (oneOf_tallied (by decide)) (oneOf_tallied (by decide))
  | _ =>
    refine settled_of_production rfl ?_
    simp only [settled, production, operation]
    repeat' first
      | exact le_rfl
      | exact tallied_within _
      | exact oneOf_tallied (by decide)
      | exact number_tallied
      | exact string_tallied
      | exact opening_tallied
      | exact closing_tallied
      | apply optional_tallied
      | apply add_tallied
      | apply mul_tallied
      | apply kstar_tallied

include limit in
theorem grammar_settled (rule : Rule) : grammar fits rule ≤ settled refusing rule := by
  have closed : production fits (settled refusing) ≤ settled refusing := production_settled limit
  exact grammar_le closed rule

variable {rule : Rule} (single : settled True rule = tallied True (derived rule) [] [])

include single in
theorem unlimited_tallied : grammar (fun _ => True) rule ≤ tallied True (derived rule) [] [] := by
  rw [← single]
  exact grammar_settled (fun _ _ => .inr trivial) rule

include single in
/-- Only programs end. -/
theorem unended_of_unlimited (inside : ts ∈ grammar (fun _ => True) rule) :
    ∀ token ∈ ts, token.kind ≠ .eof :=
  (unlimited_tallied single inside).1

theorem grammar_unlimited : grammar fits ≤ grammar (fun _ => True) := by
  have lists {item : Language Token} : listOf fits item ≤ listOf (fun _ => True) item :=
    fun _ ⟨more, _, inside⟩ => ⟨more, trivial, inside⟩
  refine grammar_le fun rule => ?_
  rw [grammar_eq rule]
  cases rule with
  | parameters | arguments => exact lists
  | _ => exact le_rfl

theorem declarations_tally (inside : ts ∈ (derived .declaration)∗) : tally [] ts = some [] := by
  have each : derived .declaration ≤ tallied False (derived .declaration) [] [] :=
    grammar_settled (fun _ => .inl) .declaration
  obtain ⟨_, ⟨_, kept⟩ | ⟨never, _⟩⟩ := kstar_tallied each inside
  · exact kept []
  · exact never.elim

include single in
/-- What would be derived without a limit keeps to it where it is part of an accepted program. -/
theorem derived_of_part {program : List Token} (whole : program ∈ (derived .declaration)∗)
    (part : ts <:+: program) (inside : ts ∈ grammar (fun _ => True) rule) : ts ∈ derived rule := by
  obtain ⟨_, ⟨kept, _⟩ | ⟨_, broken⟩⟩ := unlimited_tallied single inside
  · exact kept
  · obtain ⟨earlier, later, rfl⟩ := part
    have told := declarations_tally whole
    rw [tally_append, tally_append] at told
    cases opened : tally [] earlier with
    | none => simp [opened] at told
    | some counts =>
      rw [opened, Option.bind_some, show tally counts ts = none from broken counts] at told
      cases told

end Lox.Grammar
