import Lox.Proofs.References
import Lox.Tree.Statement

/-! Rules only go on: they read tokens from the front, number references upwards and add complaints.
What they give has numbers of its own, all handed out while it was read, and is made of the words
that were there. -/

namespace Lox

/-- Numbers handed out between two points, each once. -/
structure Fresh (first next : Nat) (ids : List Nat) : Prop where
  distinct : ids.Nodup
  within : ∀ id ∈ ids, first ≤ id ∧ id < next

namespace Fresh

variable {first middle next : Nat} {ids others : List Nat}

theorem nil : Fresh first next [] := ⟨List.nodup_nil, by simp⟩

theorem widen {lower upper : Nat} (fresh : Fresh first next ids) (below : lower ≤ first)
    (above : next ≤ upper) : Fresh lower upper ids := by
  refine ⟨fresh.distinct, ?_⟩
  intro id member
  have inside := fresh.within id member
  omega

theorem append (earlier : Fresh first middle ids) (later : Fresh middle next others)
    (up : first ≤ middle) (on : middle ≤ next) : Fresh first next (ids ++ others) := by
  refine ⟨List.nodup_append.mpr ⟨earlier.distinct, later.distinct, ?_⟩, ?_⟩
  · intro id member other among same
    have := earlier.within id member
    have := later.within other among
    omega
  · intro id member
    rcases List.mem_append.mp member with member | member
    · have := earlier.within id member
      omega
    · have := later.within id member
      omega

theorem prepend (earlier : Fresh first middle ids) (later : Fresh middle next others)
    (up : first ≤ middle) (on : middle ≤ next) : Fresh first next (others ++ ids) := by
  have whole := earlier.append later up on
  exact ⟨List.perm_append_comm.nodup whole.distinct,
    fun id member => whole.within id (by simpa [or_comm] using member)⟩

theorem single (id : Nat) : Fresh id (id + 1) [id] := ⟨by simp, by simp⟩

end Fresh

namespace Tree

/-- How far a rule has come. -/
structure Progress.Leads (before after : Progress) : Prop where
  reads : after.rest <:+ before.rest
  numbers : before.nextId ≤ after.nextId
  complains : before.faults <+: after.faults
  ends : after.endLine = before.endLine

theorem Progress.Leads.refl (progress : Progress) : progress.Leads progress :=
  ⟨List.suffix_refl _, Nat.le_refl _, List.prefix_refl _, rfl⟩

theorem Progress.Leads.trans {first second third : Progress} (before : first.Leads second)
    (after : second.Leads third) : first.Leads third :=
  ⟨after.reads.trans before.reads, Nat.le_trans before.numbers after.numbers,
    before.complains.trans after.complains, after.ends.trans before.ends⟩

namespace Parser

variable {α β : Type} (good : Token → Prop)

/-- Started at a given number on good tokens, a rule goes on, and what it gives holds of the number
it stops at. -/
def Yields (first : Nat) (parser : Parser α) (holds : Nat → α → Prop) : Prop :=
  ∀ before, before.nextId = first → (∀ token ∈ before.rest, good token) →
    before.Leads (parser before).2 ∧
      ∀ value, (parser before).1 = .ok value → holds (parser before).2.nextId value

variable {good} {first : Nat}

namespace Yields

theorem pure {holds : Nat → α → Prop} (value : α) (given : holds first value) :
    Yields good first (Pure.pure value : Parser α) holds := by
  intro before start _
  refine ⟨Progress.Leads.refl before, ?_⟩
  intro other same
  cases same
  exact start ▸ given

theorem bind {parser : Parser α} {next : α → Parser β} {middle : Nat → α → Prop}
    {holds : Nat → β → Prop} (earlier : Yields good first parser middle)
    (later : ∀ second value, first ≤ second → middle second value →
      Yields good second (next value) holds) :
    Yields good first (parser >>= next) holds := by
  intro before start words
  obtain ⟨moved, given⟩ := earlier before start words
  rw [bind_apply]
  rcases result : parser before with ⟨value | value, after⟩
  · rw [result] at moved
    exact ⟨moved, by simp⟩
  · rw [result] at moved given
    have reached := later after.nextId value (start ▸ moved.numbers) (given value rfl) after rfl
      (fun token member => words token (moved.reads.subset member))
    exact ⟨moved.trans reached.1, reached.2⟩

theorem map {parser : Parser α} {f : α → β} {middle : Nat → α → Prop} {holds : Nat → β → Prop}
    (earlier : Yields good first parser middle)
    (later : ∀ second value, first ≤ second → middle second value → holds second (f value)) :
    Yields good first (f <$> parser) holds := by
  intro before start words
  obtain ⟨moved, given⟩ := earlier before start words
  rw [map_apply]
  rcases result : parser before with ⟨value | value, after⟩
  · rw [result] at moved
    exact ⟨moved, by simp⟩
  · rw [result] at moved given
    refine ⟨moved, ?_⟩
    intro other same
    cases same
    exact later after.nextId value (start ▸ moved.numbers) (given value rfl)

theorem weaken {parser : Parser α} {stronger holds : Nat → α → Prop}
    (given : Yields good first parser stronger)
    (implies : ∀ second value, first ≤ second → stronger second value → holds second value) :
    Yields good first parser holds := by
  intro before start words
  obtain ⟨moved, result⟩ := given before start words
  exact ⟨moved, fun value same => implies _ value (start ▸ moved.numbers) (result value same)⟩

/-- A rule that only looks. -/
theorem looking {parser : Parser α} {holds : Nat → α → Prop}
    (still : ∀ before, (parser before).2 = before)
    (given : ∀ before value, (∀ token ∈ before.rest, good token) →
      (parser before).1 = .ok value → holds before.nextId value) :
    Yields good first parser holds := by
  intro before start words
  rw [still before]
  exact ⟨Progress.Leads.refl before, fun value same => given before value words same⟩

theorem failing {holds : Nat → α → Prop} (complaint : ParseComplaint) :
    Yields good first (giveUp complaint : Parser α) holds :=
  looking (fun _ => rfl) (fun _ _ _ same => by cases same)

theorem ite {condition : Prop} [Decidable condition] {yes no : Parser α} {holds : Nat → α → Prop}
    (whenTrue : condition → Yields good first yes holds)
    (whenFalse : ¬ condition → Yields good first no holds) :
    Yields good first (if condition then yes else no) holds := by
  split
  · exact whenTrue ‹_›
  · exact whenFalse ‹_›

/-- The two ways to go on after a choice are one. -/
theorem choose {condition : Prop} [Decidable condition] {yes no : Parser α} {next : α → Parser β}
    {middle : Nat → α → Prop} {holds : Nat → β → Prop}
    (earlier : Yields good first (if condition then yes else no) middle)
    (later : ∀ second value, first ≤ second → middle second value →
      Yields good second (next value) holds) :
    Yields good first (if condition then yes >>= next else no >>= next) holds := by
  by_cases chosen : condition
  · simp only [chosen, if_true] at earlier ⊢
    exact earlier.bind later
  · simp only [chosen, if_false] at earlier ⊢
    exact earlier.bind later

end Yields

/-! ### Single tokens -/

/-- What `acceptAny?` gives, if anything, is a token of the source of one of these kinds. -/
theorem yields_acceptAny (kinds : List Kind) :
    Yields good first (acceptAny? kinds) fun next found =>
      next = first ∧ ∀ token, found = some token → token.kind ∈ kinds ∧ good token := by
  intro before start words
  unfold acceptAny?
  cases shape : before.rest with
  | nil =>
    refine ⟨Progress.Leads.refl before, ?_⟩
    intro value same
    cases same
    exact ⟨start, by simp⟩
  | cons token rest =>
    dsimp only
    split
    · rename_i listed
      refine ⟨⟨by simp [shape], Nat.le_refl _, List.prefix_refl _, rfl⟩, ?_⟩
      intro value same
      cases same
      refine ⟨start, ?_⟩
      rintro other ⟨⟩
      exact ⟨listed, words token (by simp [shape])⟩
    · refine ⟨Progress.Leads.refl before, ?_⟩
      intro value same
      cases same
      exact ⟨start, by simp⟩

theorem yields_accept (kind : Kind) :
    Yields good first (accept kind) fun next _ => next = first :=
  (yields_acceptAny [kind]).map fun _ _ _ given => given.1

theorem yields_sees (kind : Kind) : Yields good first (sees kind) fun next _ => next = first := by
  intro before start _
  unfold sees
  split
  all_goals exact ⟨Progress.Leads.refl before, fun _ _ => start⟩

theorem yields_atEnd : Yields good first atEnd fun next _ => next = first := by
  intro before start _
  exact ⟨Progress.Leads.refl before, fun _ _ => start⟩

theorem yields_skip : Yields good first skip fun next _ => next = first := by
  intro before start _
  exact ⟨⟨List.tail_suffix _, Nat.le_refl _, List.prefix_refl _, rfl⟩, fun _ _ => start⟩

theorem yields_peek :
    Yields good first peek? fun next found =>
      next = first ∧ ∀ token, found = some token → good token := by
  intro before start words
  refine ⟨Progress.Leads.refl before, ?_⟩
  intro value same
  cases same
  refine ⟨start, ?_⟩
  intro token head
  exact words token (List.mem_of_head? head)

theorem yields_record (fault : Fault) :
    Yields good first (record fault) fun next _ => next = first := by
  intro before start _
  exact ⟨⟨List.suffix_refl _, Nat.le_refl _, List.prefix_append _ _, rfl⟩, fun _ _ => start⟩

theorem yields_checkLimit (items : String) (count : Nat) :
    Yields good first (checkLimit items count) fun next _ => next = first := by
  intro before start words
  unfold checkLimit
  split
  · exact yields_record _ before start words
  · exact ⟨Progress.Leads.refl before, fun _ _ => start⟩

theorem yields_expect (symbol : Symbol) (place : String) :
    Yields good first (expect symbol place) fun next _ => next = first := by
  unfold expect
  refine (yields_acceptAny _).bind ?_
  rintro second found - ⟨rfl, -⟩
  cases found with
  | none => exact Yields.failing _
  | some token => exact Yields.pure _ rfl

theorem yields_expectName (phrase : String) :
    Yields good first (expectName phrase) fun next name => next = first ∧ Named good name := by
  unfold expectName
  refine (yields_acceptAny _).bind ?_
  rintro second found - ⟨rfl, given⟩
  cases found with
  | none => exact Yields.failing _
  | some token =>
    obtain ⟨kind, fine⟩ := given token rfl
    exact Yields.pure _ ⟨rfl, List.mem_singleton.mp kind, fine⟩

theorem yields_reference (name : Token) :
    Yields good first (reference name) fun next use =>
      use.name = name ∧ use.id = first ∧ next = first + 1 := by
  rintro before rfl _
  refine ⟨⟨List.suffix_refl _, Nat.le_succ _, List.prefix_refl _, rfl⟩, ?_⟩
  intro value same
  cases same
  exact ⟨rfl, rfl, rfl⟩

/-! ### Lists -/

variable {item : Parser α} {holds : Nat → Nat → List α → Prop}

/-- `holds` says of a list what was read between two numbers. -/
theorem yields_separated (items : String)
    (none : ∀ first, holds first first [])
    (cons : ∀ first, Yields good first item fun second value =>
      ∀ third rest, second ≤ third → holds second third rest → holds first third (value :: rest))
    (bound count first : Nat) :
    Yields good first (separated items item bound count) (holds first) := by
  induction bound generalizing count first with
  | zero =>
    unfold separated
    refine (yields_checkLimit items count).bind ?_
    rintro second _ - rfl
    refine (cons _).bind ?_
    intro third value _ given
    exact Yields.pure _ (given third [] (Nat.le_refl _) (none third))
  | succ bound ih =>
    unfold separated
    refine (yields_checkLimit items count).bind ?_
    rintro second _ - rfl
    refine (cons _).bind ?_
    intro third value _ given
    refine (yields_accept _).bind ?_
    rintro fourth comma - rfl
    refine Yields.ite (fun _ => ?_) (fun _ => ?_)
    · refine (ih (count + 1) _).bind ?_
      intro fifth rest up held
      exact Yields.pure _ (given fifth rest up held)
    · exact Yields.pure _ (given _ [] (Nat.le_refl _) (none _))

theorem yields_listed (holds : Nat → Nat → List α → Prop) (items : String)
    (none : ∀ first, holds first first [])
    (cons : ∀ first, Yields good first item fun second value =>
      ∀ third rest, second ≤ third → holds second third rest → holds first third (value :: rest))
    (bound first : Nat) : Yields good first (listed bound items item) (holds first) := by
  unfold listed
  refine (yields_sees _).bind ?_
  rintro second closing - rfl
  refine Yields.ite (fun _ => ?_) (fun _ => ?_)
  · exact Yields.pure _ (none _)
  · exact yields_separated items none cons _ _ _

end Parser
end Tree
end Lox
