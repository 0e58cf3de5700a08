import ResourceCompiler.Analysis.Basic
import ResourceCompiler.Proofs.Reading.Nesting

/-!
What blocks are made of. A property of work on an analysis that the parts have, and that a sequence
has if its parts have it, belongs to whole blocks as well. Putting in imported tokens is the one
part for which it is asked apart.
-/

namespace ResourceCompiler.Analysis

/-- The property holds of the parts of a block and of work that is put together from them. -/
structure PartWise (P : {α : Type} → Attempt Analysis α → Prop) : Prop where
  fail : ∀ {α : Type} (e : CompileError), P (Attempt.fail e : Attempt Analysis α)
  succeed : ∀ {α : Type} (x : α), P (Attempt.succeed x)
  bind : ∀ {α β : Type} {a : Attempt Analysis α} {f : α → Attempt Analysis β}, P a →
    (∀ x, P (f x)) → P (a >>= f)
  registry : ∀ {α : Type} {g : Registry → Attempt Analysis α}, (∀ known, P (g known)) →
    P (Attempt.get >>= fun s => g s.registry)
  parse : ∀ {α : Type} {n : Nat} {p : Parser α}, Parser.Local n 0 p → P (parse p)
  print : ∀ tokens : List Token, P (Attempt.modify (print tokens))
  register : ∀ registry : Registry, P (Attempt.modify fun s => { s with registry })
  collect : ∀ trees : List InstanceTree, P (Attempt.modify fun s =>
    { s with instances := s.instances ++ InstanceTree.flattenAll trees })

theorem local_arguments : Parser.Local 2 0 arguments :=
  (Parser.local_ensure _).bind (n := 1) (b := 0) fun _ =>
    (Parser.local_consume _).bind (n := 1) (b := 0) fun _ =>
      (Parser.local_ensure _).bind fun _ => Parser.local_pure _

/-- What a declaration does after its first word. -/
def declareRest : Attempt Analysis Unit := do
  let registry := (← Attempt.get).registry
  let trees ← parse (Declaration.body registry)
  Attempt.modify fun s => { s with instances := s.instances ++ InstanceTree.flattenAll trees }

theorem declare_eq :
    declare = parse (Parser.ensure (.keyword "declare")) >>= fun _ => declareRest := by
  rw [declare, declaration, Attempt.bind_assoc]
  rfl

namespace PartWise

variable {P : {α : Type} → Attempt Analysis α → Prop}

theorem lift {α : Type} (h : PartWise P) (r : Except CompileError α) : P (Attempt.lift r) := by
  cases r with
  | error e => exact h.fail e
  | ok x => exact h.succeed x

theorem ite {α : Type} {c : Prop} [Decidable c] {a b : Attempt Analysis α} (ha : P a) (hb : P b) :
    P (if c then a else b) := by
  split
  · exact ha
  · exact hb

theorem output (h : PartWise P) : P output :=
  h.bind (h.parse local_arguments) h.print

theorem define (h : PartWise P) (head : Token) : P (define head) := by
  refine h.bind (h.parse (Definition.local_schema _)) fun schema => ?_
  refine h.registry (g := fun known => Attempt.lift (known.register schema) >>= fun registry =>
    Attempt.modify fun s => { s with registry }) fun known => ?_
  exact h.bind (h.lift _) h.register

theorem importFiles (h : PartWise P) (hinsert : ∀ tokens, P (insertTokens tokens))
    (w : Surroundings) (head : Token) : P (importFiles w head) :=
  h.bind (h.parse local_arguments) fun _ => ite (h.fail _) (h.bind (h.lift _) hinsert)

theorem runDirective (h : PartWise P) (hinsert : ∀ tokens, P (insertTokens tokens))
    (w : Surroundings) (head : Token) : P (runDirective w head) :=
  ite h.output (ite (h.importFiles hinsert w head) (ite (h.define head) (h.fail _)))

theorem directive (h : PartWise P) (hinsert : ∀ tokens, P (insertTokens tokens))
    (w : Surroundings) : P (directive w) :=
  h.bind (h.parse (Parser.local_ensure _)) fun head => h.runDirective hinsert w head

theorem declareRest (h : PartWise P) : P declareRest :=
  h.registry (g := fun known => Analysis.parse (Declaration.body known) >>= fun trees =>
    Attempt.modify fun s => { s with instances := s.instances ++ InstanceTree.flattenAll trees })
    fun _ => h.bind (h.parse Declaration.local_body) h.collect

theorem declare (h : PartWise P) : P declare := by
  rw [declare_eq]
  exact h.bind (h.parse (Parser.local_ensure _)) fun _ => h.declareRest

end PartWise

end ResourceCompiler.Analysis
