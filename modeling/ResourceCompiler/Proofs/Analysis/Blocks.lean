import ResourceCompiler.Proofs.Analysis.ImportTransparency
import ResourceCompiler.Proofs.Declared.ChildrenFirst
import ResourceCompiler.Proofs.Reading.Taking
import ResourceCompiler.Proofs.Schema.Registration

/-!
Blocks take effect as a whole. What an analysis has collected is what the blocks say that it read
to their ends. A block that fails leaves no more behind than that some of its tokens were read.
-/

namespace ResourceCompiler

open TokenStream

namespace Analysis

/-- A block of the source, by what it adds. -/
inductive Block
  | output (arguments : List Token)
  | imports (tokens : List Token)
  | define (schema : Schema)
  | declare (trees : List InstanceTree)

namespace Block

@[simp]
def schema? : Block → Option Schema
  | .define schema => some schema
  | _ => none

/-- Declared instances, with those that are nested in them. -/
@[simp]
def trees : Block → List InstanceTree
  | .declare trees => trees
  | _ => []

@[simp]
def printed : Block → List Token
  | .output arguments => arguments
  | _ => []

end Block

/-- Tokens between braces. -/
def Braced (tokens taken : List Token) : Prop :=
  ∃ opening closing, taken = opening :: (tokens ++ [closing]) ∧ opening.kind = .leftBrace ∧
    closing.kind = .rightBrace ∧ ∀ t ∈ tokens, t.kind ≠ .rightBrace

/-- The state when some more tokens have been read. -/
def past (s : Analysis) (taken : List Token) : Analysis :=
  { s with stream := s.stream.advance taken.length }

/-- A block stands at the front of the tokens, from its head to its end, and nothing about it is
wrong. It leads from one state to another. -/
inductive Completes (w : Surroundings) (s : Analysis) : Block → Analysis → Prop
  | output {head : Token} {arguments taken rest : List Token}
      (unread : s.stream.unread = head :: (taken ++ rest)) (kind : head.kind = .directive)
      (text : head.text = "out") (braced : Braced arguments taken) :
      Completes w s (.output arguments) (print arguments (s.past (head :: taken)))
  | imports {head : Token} {requested tokens taken rest : List Token}
      (unread : s.stream.unread = head :: (taken ++ rest)) (kind : head.kind = .directive)
      (text : head.text = "import") (braced : Braced requested taken) (nonempty : requested ≠ [])
      (files : w.readImports requested = .ok tokens)
      (level : (s.past (head :: taken)).stream.depth < depthLimit) :
      Completes w s (.imports tokens) { s.past (head :: taken) with
        stream := (s.past (head :: taken)).stream.splice tokens }
  | define {head : Token} {schema : Schema} {registry : Registry} {taken rest : List Token}
      {last : Location}
      (unread : s.stream.unread = head :: (taken ++ rest)) (kind : head.kind = .directive)
      (text : head.text = "define")
      (reads : Definition.schema head.location ⟨taken ++ rest, head.location⟩ =
        (.ok schema, ⟨rest, last⟩))
      (registers : s.registry.register schema = .ok registry) :
      Completes w s (.define schema) { s.past (head :: taken) with registry }
  | declare {head : Token} {trees : List InstanceTree} {added : List Instance}
      {taken rest : List Token} {last : Location}
      (unread : s.stream.unread = head :: (taken ++ rest))
      (keyword : (Condition.keyword "declare").holds head = true)
      (reads : Declaration.body s.registry ⟨taken ++ rest, head.location⟩ =
        (.ok trees, ⟨rest, last⟩))
      (order : InstanceTree.ChildrenFirst trees added) :
      Completes w s (.declare trees) { s.past (head :: taken) with
        instances := s.instances ++ added }

variable {w : Surroundings} {s s' t : Analysis} {block : Block} {α : Type}

/-! Reading -/

theorem takes_arguments : Parser.Takes arguments fun taken tokens => Braced tokens taken := by
  refine (Parser.takes_ensure_kind _).bind fun _ opening ho => ?_
  refine (Parser.takes_consume _).bind fun _ tokens ht => ?_
  refine (Parser.takes_ensure_kind _).bind fun _ closing hc => Parser.takes_pure ?_
  obtain ⟨⟨rfl, hopens⟩, ⟨rfl, htokens⟩, ⟨rfl, hcloses⟩⟩ := And.intro ho (And.intro ht hc)
  refine ⟨opening, closing, by simp, hopens, hcloses, fun t ht hkind => ?_⟩
  have hholds := htokens t ht
  rw [Condition.holds_negate, Condition.holds_of_kind.mpr hkind] at hholds
  cases hholds

theorem past_past (s : Analysis) (first second : List Token) :
    (s.past first).past second = s.past (first ++ second) := by
  simp only [past, advance_advance, List.length_append]

theorem unread_past {taken rest : List Token} (h : s.stream.unread = taken ++ rest) :
    (s.past taken).stream.unread = rest := by
  rw [past, unread_advance, h, List.drop_left]

theorem cursor_past {head : Token} {rest : List Token} (h : s.stream.unread = head :: rest) :
    (s.past [head]).cursor = ⟨rest, head.location⟩ := by
  have hlast : (s.past [head]).stream.last = head.location := by
    obtain ⟨⟨_, depth⟩, layered, hlayered, rfl, -⟩ := List.map_eq_cons_iff.mp (unread_eq _ ▸ h)
    exact (next_of_cons hlayered).2.2.1
  have hrest : (s.past [head]).stream.unread = rest := unread_past h
  rw [cursor, hrest, hlast]

/-- A parser that succeeds leads past what it takes. -/
theorem parse_takes {p : Parser α} {told : List Token → α → Prop} (hp : Parser.Takes p told)
    {x : α} (h : parse p s = (.ok x, t)) : ∃ taken last,
      s.stream.unread = taken ++ t.stream.unread ∧ t = s.past taken ∧ told taken x ∧
      p s.cursor = (.ok x, ⟨t.stream.unread, last⟩) := by
  rcases hc : p s.cursor with ⟨e | y, c⟩
  · simp only [cursor] at hc
    simp [parse, TokenStream.parse, hc] at h
  · obtain ⟨taken, hu, htold⟩ := hp _ _ _ hc
    have ht := (parse_of_reads hu hc).symm.trans h
    simp only [Prod.mk.injEq, Except.ok.injEq] at ht
    obtain ⟨rfl, rfl⟩ := ht
    refine ⟨taken, c.last, ?_, rfl, htold, ?_⟩
    · rw [← past, unread_past hu]
      exact hu
    · rw [← past, unread_past hu]

/-! Steps that succeed -/

section Directives

variable {head : Token} (hu : s.stream.unread = head :: (s.past [head]).stream.unread)
  (hkind : head.kind = .directive)

include hu hkind

theorem completes_of_output (htext : head.text = "out")
    (h : output (s.past [head]) = (.ok (), s')) : ∃ block, Completes w s block s' := by
  obtain ⟨arguments, s₁, hread, heffect⟩ := Attempt.bind_eq_ok.mp h
  obtain ⟨taken, _, hbehind, rfl, hbraced, -⟩ := parse_takes takes_arguments hread
  cases heffect
  rw [hbehind] at hu
  rw [past_past]
  exact ⟨_, .output hu hkind htext hbraced⟩

theorem completes_of_import (htext : head.text = "import")
    (h : importFiles w head (s.past [head]) = (.ok (), s')) : ∃ block, Completes w s block s' := by
  obtain ⟨requested, s₁, hread, hrest⟩ := Attempt.bind_eq_ok.mp h
  obtain ⟨taken, _, hbehind, rfl, hbraced, -⟩ := parse_takes takes_arguments hread
  rw [hbehind] at hu
  rw [past_past] at hrest
  split at hrest
  · cases hrest
  · rename_i hne
    obtain ⟨tokens, _, hlift, hinsert⟩ := Attempt.bind_eq_ok.mp hrest
    obtain ⟨hfiles, rfl⟩ := Attempt.lift_eq_ok.mp hlift
    rcases insert_tokens_cases tokens (s.past ([head] ++ taken)) with ⟨hlevel, he⟩ | ⟨-, he⟩
    · rw [he] at hinsert
      cases hinsert
      exact ⟨_, .imports hu hkind htext hbraced (by simpa using hne) hfiles hlevel⟩
    · cases he.symm.trans hinsert

theorem completes_of_define (htext : head.text = "define")
    (h : define head (s.past [head]) = (.ok (), s')) : ∃ block, Completes w s block s' := by
  obtain ⟨schema, s₁, hread, hrest⟩ := Attempt.bind_eq_ok.mp h
  obtain ⟨taken, last, hbehind, rfl, -, hschema⟩ :=
    parse_takes (Definition.local_schema _).takes hread
  obtain ⟨known, _, hget, hregister⟩ := Attempt.bind_eq_ok.mp hrest
  cases hget
  obtain ⟨registry, _, hlift, heffect⟩ := Attempt.bind_eq_ok.mp hregister
  obtain ⟨hregistry, rfl⟩ := Attempt.lift_eq_ok.mp hlift
  cases heffect
  rw [cursor_past hu, hbehind] at hschema
  rw [hbehind] at hu
  rw [past_past]
  exact ⟨_, .define hu hkind htext hschema hregistry⟩

end Directives

theorem completes_of_directive (h : directive w s = (.ok (), s')) :
    ∃ block, Completes w s block s' := by
  obtain ⟨head, s₀, hhead, hrun⟩ := Attempt.bind_eq_ok.mp h
  obtain ⟨_, _, hu, rfl, ⟨rfl, hkind⟩, -⟩ := parse_takes (Parser.takes_ensure_kind _) hhead
  unfold runDirective at hrun
  split at hrun
  · exact completes_of_output hu hkind ‹_› hrun
  split at hrun
  · exact completes_of_import hu hkind ‹_› hrun
  split at hrun
  · exact completes_of_define hu hkind ‹_› hrun
  · cases hrun

theorem completes_of_declare (h : declare s = (.ok (), s')) : ∃ block, Completes w s block s' := by
  rw [declare_eq] at h
  obtain ⟨head, s₀, hhead, hrest⟩ := Attempt.bind_eq_ok.mp h
  obtain ⟨_, _, hu, rfl, ⟨rfl, hkeyword⟩, -⟩ := parse_takes (Parser.takes_ensure _) hhead
  obtain ⟨known, _, hget, hbody⟩ := Attempt.bind_eq_ok.mp hrest
  cases hget
  obtain ⟨trees, s₁, hread, heffect⟩ := Attempt.bind_eq_ok.mp hbody
  obtain ⟨taken, last, hu₁, rfl, -, htrees⟩ := parse_takes Declaration.local_body.takes hread
  cases heffect
  rw [cursor_past hu, hu₁] at htrees
  rw [hu₁] at hu
  rw [past_past]
  exact ⟨_, .declare hu hkeyword htrees (InstanceTree.children_first_flatten_all trees)⟩

theorem completes_of_step (h : step w s = (.ok (), s')) : ∃ block, Completes w s block s' := by
  unfold step at h
  split at h
  · exact completes_of_directive h
  · split at h
    · exact completes_of_declare h
    · split at h <;> cases h

/-- The head of a directive leads to what its name stands for. -/
theorem step_of_head {head : Token} {rest : List Token} (hu : s.stream.unread = head :: rest)
    (hkind : head.kind = .directive) : step w s = runDirective w head (s.past [head]) := by
  have hholds := Condition.holds_of_kind.mpr hkind
  have hstarts : s.startsDirective = true := by
    simp [startsDirective, Cursor.expects, cursor, hu, Condition.allHold, hholds]
  rw [step, if_pos hstarts, directive, Parser.ensureKind, Attempt.bind_ok (parse_first hu hholds)]
  rfl

/-- What a parser reads behind the head of a block. -/
theorem parse_behind {head : Token} {taken rest : List Token} {last : Location} {p : Parser α}
    {x : α} (hu : s.stream.unread = head :: (taken ++ rest))
    (h : p ⟨taken ++ rest, head.location⟩ = (.ok x, ⟨rest, last⟩)) :
    parse p (s.past [head]) = (.ok x, s.past (head :: taken)) := by
  rw [← cursor_past hu] at h
  rw [parse_of_reads (unread_past (by rw [hu]; rfl)) h, ← past, past_past]
  rfl

theorem parse_braced {head : Token} {requested taken rest : List Token}
    (hu : s.stream.unread = head :: (taken ++ rest)) (h : Braced requested taken) :
    parse arguments (s.past [head]) = (.ok requested, s.past (head :: taken)) := by
  obtain ⟨opening, closing, rfl, hopens, hcloses, hrequested⟩ := h
  have hread := arguments_braced hopens hrequested hcloses rest head.location
  exact parse_behind hu (by simpa using hread)

/-- A registration that succeeds, in a state that knows the same types. -/
theorem define_registers {head : Token} {schema : Schema} {registry : Registry} {s₁ : Analysis}
    (hread : parse (Definition.schema head.location) s = (.ok schema, s₁))
    (hregister : s₁.registry.register schema = .ok registry) :
    define head s = (.ok (), { s₁ with registry }) := by
  rw [define, Attempt.bind_ok hread]
  refine Attempt.bind_eq_ok.mpr ⟨s₁, s₁, rfl, Attempt.bind_eq_ok.mpr ⟨registry, s₁, ?_, rfl⟩⟩
  exact Attempt.lift_eq_ok.mpr ⟨hregister, rfl⟩

/-- The conditions on the first tokens of a declaration are those of its parser. -/
theorem starts_declaration {head : Token} {tokens rest : List Token} {last : Location}
    {trees : List InstanceTree} (hu : s.stream.unread = head :: tokens)
    (hkeyword : (Condition.keyword "declare").holds head = true)
    (hreads : Declaration.body s.registry ⟨tokens, head.location⟩ = (.ok trees, ⟨rest, last⟩)) :
    s.startsDirective = false ∧ s.startsDeclaration = true := by
  have hkind : head.kind = .identifier ∧ head.text = "declare" := by
    simpa [Condition.keyword, Condition.exactly, Condition.holds] using hkeyword
  obtain ⟨type, c₁, htype, hbrace⟩ := Attempt.bind_eq_ok.mp hreads
  obtain ⟨brace, c₂, hbrace, -⟩ := Attempt.bind_eq_ok.mp hbrace
  obtain ⟨_, hu₁, rfl, hidentifier⟩ := Parser.takes_ensure_kind _ _ _ _ htype
  obtain ⟨_, hu₂, rfl, hopens⟩ := Parser.takes_ensure_kind _ _ _ _ hbrace
  have htokens : tokens = type :: brace :: c₂.unread := by
    rw [hu₂] at hu₁
    exact hu₁
  constructor
  · simp [startsDirective, Cursor.expects, cursor, hu, Condition.allHold, Condition.ofKind,
      Condition.holds, hkind]
  · simp [startsDeclaration, Cursor.expects, cursor, hu, htokens, Declaration.opening,
      Condition.allHold, hkeyword, Condition.holds_of_kind.mpr hidentifier,
      Condition.holds_of_kind.mpr hopens]

theorem step_of_completes (h : Completes w s block s') : step w s = (.ok (), s') := by
  cases h with
  | output hu hkind htext hbraced =>
    rw [step_of_head hu hkind, runDirective, if_pos htext, output,
      Attempt.bind_ok (parse_braced hu hbraced)]
    rfl
  | imports hu hkind htext hbraced hne hfiles hlevel =>
    rw [step_of_head hu hkind, runDirective, if_neg (by simp [htext]), if_pos htext, importFiles,
      Attempt.bind_ok (parse_braced hu hbraced), if_neg (by simpa using hne), hfiles,
      Attempt.lift_ok, Attempt.bind_ok (Attempt.succeed_apply _ _), insertTokens, if_pos hlevel]
  | define hu hkind htext hreads hregisters =>
    rw [step_of_head hu hkind, runDirective, if_neg (by simp [htext]), if_neg (by simp [htext]),
      if_pos htext, define_registers (parse_behind hu hreads) hregisters]
  | @declare head _ added taken rest _ hu hkeyword hreads horder =>
    obtain rfl := InstanceTree.children_first_iff.mp horder
    have hbody : declareRest (s.past [head]) = (.ok (), _) :=
      Attempt.bind_eq_ok.mpr ⟨_, _, rfl, Attempt.bind_eq_ok.mpr ⟨_, _, parse_behind hu hreads, rfl⟩⟩
    obtain ⟨hdirective, hdeclaration⟩ := starts_declaration hu hkeyword hreads
    rw [step, if_neg (by simp [hdirective]), if_pos hdeclaration, declare_eq,
      Attempt.bind_ok (parse_first hu hkeyword)]
    exact hbody

/-- A step succeeds exactly if a block stands there complete. -/
theorem step_eq_ok : step w s = (.ok (), s') ↔ ∃ block, Completes w s block s' :=
  ⟨completes_of_step, fun ⟨_, h⟩ => step_of_completes h⟩

/-! Steps that fail -/

/-- Nothing has changed but that some more tokens were read. -/
structure ReadOn (s s' : Analysis) : Prop where
  reads : ∃ count, Reads s.stream count s'.stream
  same : s' = { s with stream := s'.stream }

theorem ReadOn.refl (s : Analysis) : ReadOn s s := ⟨⟨0, reads_nothing _⟩, rfl⟩

theorem ReadOn.trans (h : ReadOn s s') (h' : ReadOn s' t) : ReadOn s t := by
  obtain ⟨m, hm⟩ := h.reads
  obtain ⟨n, hn⟩ := h'.reads
  refine ⟨⟨m + n, hm.trans hn⟩, ?_⟩
  rw [h'.same, h.same]

/-- Work that has no effect where it fails. -/
def FailsQuietly (a : Attempt Analysis α) : Prop :=
  ∀ s e s', a s = (.error e, s') → ReadOn s s'

variable {β : Type} {a : Attempt Analysis α} {f : α → Attempt Analysis β}

theorem read_on_parse (p : Parser α) (s : Analysis) : ReadOn s (parse p s).2 :=
  ⟨only_reads_parse p s, rfl⟩

/-- Only the last part of a block has an effect; what is in front of it reads. -/
theorem fails_quietly_bind (ha : ∀ s, ReadOn s (a s).2) (hf : ∀ x, FailsQuietly (f x)) :
    FailsQuietly (a >>= f) := by
  intro s e s' h
  have hread := ha s
  rw [Attempt.bind_apply] at h
  rcases hs : a s with ⟨e' | x, t⟩
  · rw [hs] at h hread
    cases h
    exact hread
  · rw [hs] at h hread
    exact hread.trans (hf x t e s' h)

theorem fails_quietly_lift (r : Except CompileError α) (hf : ∀ x, FailsQuietly (f x)) :
    FailsQuietly (Attempt.lift r >>= f) :=
  fails_quietly_bind (fun s => by cases r <;> exact .refl s) hf

theorem fails_quietly_parse {p : Parser α} (hf : ∀ x, FailsQuietly (f x)) :
    FailsQuietly (parse p >>= f) :=
  fails_quietly_bind (read_on_parse p) hf

theorem fails_quietly_fail (e : CompileError) : FailsQuietly (Attempt.fail e : Attempt _ α) := by
  intro s e s' h
  cases h
  exact .refl s

theorem fails_quietly_modify (f : Analysis → Analysis) : FailsQuietly (Attempt.modify f) := by
  intro s e s' h
  cases h

theorem fails_quietly_insert_tokens (tokens : List Token) : FailsQuietly (insertTokens tokens) := by
  intro s e s' h
  rcases insert_tokens_cases tokens s with ⟨-, he⟩ | ⟨-, he⟩
  · cases he.symm.trans h
  · cases he.symm.trans h
    exact .refl s

theorem fails_quietly_define (head : Token) : FailsQuietly (define head) :=
  fails_quietly_parse fun _ => fails_quietly_bind .refl fun _ =>
    fails_quietly_lift _ fun _ => fails_quietly_modify _

theorem fails_quietly_import_files (w : Surroundings) (head : Token) :
    FailsQuietly (importFiles w head) := by
  refine fails_quietly_parse fun requested => ?_
  split
  · exact fails_quietly_fail _
  · exact fails_quietly_lift _ fails_quietly_insert_tokens

theorem fails_quietly_directive (w : Surroundings) : FailsQuietly (directive w) := by
  refine fails_quietly_parse fun head => ?_
  unfold runDirective
  split
  · exact fails_quietly_parse fun _ => fails_quietly_modify _
  split
  · exact fails_quietly_import_files w head
  split
  · exact fails_quietly_define head
  · exact fails_quietly_fail _

theorem fails_quietly_declare : FailsQuietly declare := by
  rw [declare_eq]
  exact fails_quietly_parse fun _ => fails_quietly_bind .refl fun _ =>
    fails_quietly_parse fun _ => fails_quietly_modify _

theorem fails_quietly_step (w : Surroundings) : FailsQuietly (step w) := by
  intro s e s' h
  unfold step at h
  split at h
  · exact fails_quietly_directive w s e s' h
  · split at h
    · exact fails_quietly_declare s e s' h
    · split at h <;> cases h <;> exact .refl s

/-! Runs -/

/-- Blocks that stand one behind the other, and where they lead. -/
inductive Completed (w : Surroundings) : Analysis → List Block → Analysis → Prop
  | nil (s : Analysis) : Completed w s [] s
  | cons {s s₁ t : Analysis} {block : Block} {blocks : List Block} :
      Completes w s block s₁ → Completed w s₁ blocks t → Completed w s (block :: blocks) t

/-- What some blocks have added. -/
structure Adds (s : Analysis) (blocks : List Block) (t : Analysis) : Prop where
  registry : (blocks.filterMap Block.schema?).foldlM Registry.register s.registry = .ok t.registry
  instances : ∃ added, InstanceTree.ChildrenFirst (blocks.flatMap Block.trees) added ∧
    t.instances.toList = s.instances.toList ++ added
  messages : t.messages.toList =
    s.messages.toList ++ (blocks.flatMap Block.printed).map Token.text
  notes : t.diagnostics.toList =
    s.diagnostics.toList ++ (blocks.flatMap Block.printed).map fun t => .note t.text t.location

theorem Adds.order {tokens : List Token} {blocks : List Block} (h : Adds (start tokens) blocks t) :
    InstanceTree.ChildrenFirst (blocks.flatMap Block.trees) t.instances.toList := by
  obtain ⟨added, horder, hadded⟩ := h.instances
  rw [hadded]
  exact horder

theorem Adds.trans {blocks more : List Block} (h : Adds s blocks s') (h' : Adds s' more t) :
    Adds s (blocks ++ more) t where
  registry := by
    rw [List.filterMap_append, List.foldlM_append, h.registry]
    exact h'.registry
  instances := by
    obtain ⟨added, horder, hadded⟩ := h.instances
    obtain ⟨added', horder', hadded'⟩ := h'.instances
    refine ⟨added ++ added', ?_, by rw [hadded', hadded, List.append_assoc]⟩
    rw [List.flatMap_append]
    exact horder.append horder'
  messages := by
    rw [h'.messages, h.messages, List.flatMap_append, List.map_append, List.append_assoc]
  notes := by rw [h'.notes, h.notes, List.flatMap_append, List.map_append, List.append_assoc]

/-- Every block adds what it is said to add, and nothing else. -/
theorem Completes.adds (h : Completes w s block s') : Adds s [block] s' := by
  cases h with
  | output =>
    exact ⟨rfl, ⟨[], .nil, by simp [past, print]⟩, by simp [past, print], by simp [past, print]⟩
  | imports => exact ⟨rfl, ⟨[], .nil, by simp [past]⟩, by simp [past], by simp [past]⟩
  | define _ _ _ _ hregisters =>
    refine ⟨?_, ⟨[], .nil, by simp [past]⟩, by simp [past], by simp [past]⟩
    change s.registry.register _ >>= _ = _
    rw [hregisters]
    rfl
  | declare _ _ _ horder =>
    exact ⟨rfl, ⟨_, by simpa using horder, by simp⟩, by simp [past], by simp [past]⟩

theorem ReadOn.adds (h : ReadOn s s') : Adds s [] s' := by
  rw [h.same]
  exact ⟨rfl, ⟨[], .nil, by simp⟩, by simp, by simp⟩

theorem Completed.adds {blocks : List Block} (h : Completed w s blocks t) : Adds s blocks t := by
  induction h with
  | nil s => exact ⟨rfl, ⟨[], .nil, by simp⟩, by simp, by simp⟩
  | cons hblock _ ih => exact hblock.adds.trans ih

/-- What a run comes to: the end of the input, or a block that does not stand there complete. -/
theorem run_completed (w : Surroundings) (s : Analysis) : ∃ blocks t, Completed w s blocks t ∧
    (run w s = (.ok (), t) ∧ t.stream.isFinished = true ∨
      ∃ e s', run w s = (.error e, s') ∧ t.stream.isFinished = false ∧
        step w t = (.error e, s')) := by
  induction s using run.induct w with
  | case1 s hf => exact ⟨[], s, .nil s, .inl ⟨run_finished hf, hf⟩⟩
  | case2 s hf s₁ hstep ih =>
    have hf : s.stream.isFinished = false := by simpa using hf
    obtain ⟨block, hblock⟩ := completes_of_step hstep
    obtain ⟨blocks, t, hblocks, hend⟩ := ih
    rw [run_block hf hstep]
    exact ⟨block :: blocks, t, .cons hblock hblocks, hend⟩
  | case3 s hf e s' hstep =>
    have hf : s.stream.isFinished = false := by simpa using hf
    exact ⟨[], s, .nil s, .inr ⟨e, s', run_failed hf hstep, hf, hstep⟩⟩

/-- However a run ends, what it has collected is just what the complete blocks add. The block in
which it fails adds nothing: all that is left of it is that some of its tokens were read. -/
theorem blocks_are_atomic (w : Surroundings) (tokens : List Token) :
    ∃ blocks t, Completed w (start tokens) blocks t ∧
      let (r, s) := run w (start tokens)
      (blocks.filterMap Block.schema?).foldlM Registry.register .empty = .ok s.registry ∧
      s.registry.schemas.toList = blocks.filterMap Block.schema? ∧
      InstanceTree.ChildrenFirst (blocks.flatMap Block.trees) s.instances.toList ∧
      s.messages.toList = (blocks.flatMap Block.printed).map Token.text ∧
      s.diagnostics.toList = (blocks.flatMap Block.printed).map (fun t => .note t.text t.location) ∧
      (r = .ok () ∧ s = t ∧ t.stream.isFinished = true ∨
        ∃ e, r = .error e ∧ t.stream.isFinished = false ∧
          (∀ block s', ¬ Completes w t block s') ∧ ReadOn t s) := by
  obtain ⟨blocks, t, hblocks, hend⟩ := run_completed w (start tokens)
  refine ⟨blocks, t, hblocks, ?_⟩
  rcases hend with ⟨hrun, hf⟩ | ⟨e, s', hrun, hf, hstep⟩
  · have hadds := hblocks.adds
    rw [hrun]
    exact ⟨hadds.registry, Registry.schemas_of_fold hadds.registry, hadds.order, hadds.messages,
      hadds.notes, .inl ⟨rfl, rfl, hf⟩⟩
  · have hread := fails_quietly_step w t e s' hstep
    have hadds := hblocks.adds.trans hread.adds
    rw [List.append_nil] at hadds
    have hincomplete (block : Block) (s₁ : Analysis) : ¬ Completes w t block s₁ := by
      intro hblock
      cases hstep.symm.trans (step_of_completes hblock)
    rw [hrun]
    exact ⟨hadds.registry, Registry.schemas_of_fold hadds.registry, hadds.order, hadds.messages,
      hadds.notes, .inr ⟨e, rfl, hf, hincomplete, hread⟩⟩

/-! A resource inside another one, and an unfinished block behind them -/

/-- A type, a text to print, a declaration and the start of a further block. -/
def nestedWords : List (TokenKind × String) :=
  [(.directive, "define"), (.leftBrace, "\x7b"),
    (.identifier, "name"), (.equals, "="), (.string, "Bang"), (.semicolon, ";"),
    (.identifier, "code"), (.equals, "="), (.string, "bang"), (.semicolon, ";"),
    (.identifier, "field"), (.leftParen, "("), (.string, "hit"), (.rightParen, ")"),
    (.leftBrace, "\x7b"), (.identifier, "value"), (.leftParen, "("), (.identifier, "type"),
    (.equals, "="), (.identifier, "p_string"), (.comma, ","), (.identifier, "offset"),
    (.equals, "="), (.integer, "0"), (.rightParen, ")"), (.semicolon, ";"), (.rightBrace, "\x7d"),
    (.semicolon, ";"), (.identifier, "reference"), (.leftParen, "("), (.string, "in"),
    (.rightParen, ")"), (.leftBrace, "\x7b"), (.identifier, "type"), (.equals, "="),
    (.string, "Bang"), (.semicolon, ";"), (.rightBrace, "\x7d"), (.semicolon, ";"),
    (.rightBrace, "\x7d"),
    (.directive, "out"), (.leftBrace, "\x7b"), (.identifier, "go"), (.rightBrace, "\x7d"),
    (.identifier, "declare"), (.identifier, "Bang"), (.leftBrace, "\x7b"),
    (.identifier, "new"), (.leftBrace, "\x7b"), (.identifier, "in"), (.equals, "="),
    (.identifier, "new"), (.leftBrace, "\x7b"), (.identifier, "hit"), (.equals, "="),
    (.string, "a"), (.semicolon, ";"), (.rightBrace, "\x7d"), (.semicolon, ";"),
    (.rightBrace, "\x7d"), (.rightBrace, "\x7d"),
    (.directive, "out"), (.leftBrace, "\x7b"), (.identifier, "lost")]

def nestedTokens : List Token := nestedWords.map fun (kind, text) => tokenOf "m" kind text

/-- The inner one comes first. -/
def nestedRead : List Instance :=
  let place : Location := ⟨"m", 1⟩
  [⟨"Bang", 0, "", [⟨"hit", [⟨.string, "a", place⟩], place⟩], place⟩,
    ⟨"Bang", 0, "", [], place⟩]

def emptyDisk : Surroundings := ⟨⟨[], []⟩, []⟩

theorem blocks_are_atomic_nested : ∃ blocks t s,
    run emptyDisk (start nestedTokens) =
      (.error (.grammar ⟨"m", 1⟩ (.missing (.ofKind .rightBrace))), s) ∧
    s.instances.toList = nestedRead ∧ s.messages.toList = ["go"] ∧
    Completed emptyDisk (start nestedTokens) blocks t ∧
    InstanceTree.ChildrenFirst (blocks.flatMap Block.trees) nestedRead ∧
    (blocks.flatMap Block.printed).map Token.text = ["go"] ∧ ReadOn t s := by
  have hsteps : ∃ s₁, step emptyDisk (start nestedTokens) = (.ok (), s₁) ∧
      ∃ s₂, step emptyDisk s₁ = (.ok (), s₂) ∧ ∃ s₃, step emptyDisk s₂ = (.ok (), s₃) ∧
        s₃.stream.isFinished = false ∧ ∃ s, step emptyDisk s₃ =
          (.error (.grammar ⟨"m", 1⟩ (.missing (.ofKind .rightBrace))), s) ∧
        s.instances.toList = nestedRead ∧ s.messages.toList = ["go"] :=
    ⟨_, by rfl, _, by rfl, _, by rfl, by rfl, _, by rfl, by rfl, by rfl⟩
  obtain ⟨s₁, h₁, s₂, h₂, s₃, h₃, hf, s, hfails, hinstances, hmessages⟩ := hsteps
  have hrun := (run_block (not_finished_of_step h₁) h₁).trans
    ((run_block (not_finished_of_step h₂) h₂).trans
      ((run_block (not_finished_of_step h₃) h₃).trans (run_failed hf hfails)))
  obtain ⟨blocks, t, hblocks, hrest⟩ := blocks_are_atomic emptyDisk nestedTokens
  rw [hrun] at hrest
  obtain ⟨-, -, horder, hprinted, -, ⟨hok, -⟩ | ⟨_, -, -, -, hread⟩⟩ := hrest
  · cases hok
  · exact ⟨blocks, t, s, hrun, hinstances, hmessages, hblocks, hinstances ▸ horder,
      hprinted.symm.trans hmessages, hread⟩

end Analysis

end ResourceCompiler
