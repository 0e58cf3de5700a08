import ResourceCompiler.Proofs.Analysis.Front
import Mathlib

/-!
An import stands for the tokens of its files. An analysis that comes to an import directive in the
main file goes on like one that finds those tokens there, unless it fails because imports lie too
deep. The one difference between the two is how deep the tokens lie, and only the limit asks for
that.
-/

namespace ResourceCompiler

open TokenStream

/-- The failure of an import at the last level. -/
def TooDeep {α : Type} (r : Except CompileError α) : Prop :=
  ∃ location, r = .error (.meaning location (.importsTooDeep depthLimit))

namespace Analysis

/-- The same token, no deeper. -/
def NoDeeper (p q : Token × Nat) : Prop := q.1 = p.1 ∧ q.2 ≤ p.2

theorem map_fst_of_no_deeper {deep shallow : List (Token × Nat)}
    (h : List.Forall₂ NoDeeper deep shallow) : shallow.map Prod.fst = deep.map Prod.fst := by
  induction h with
  | nil => rfl
  | cons hp _ ih => rw [List.map_cons, List.map_cons, hp.1, ih]

theorem no_deeper_at_depth {depth depth' : Nat} (h : depth' ≤ depth) (tokens : List Token) :
    List.Forall₂ NoDeeper (atDepth depth tokens) (atDepth depth' tokens) := by
  induction tokens with
  | nil => exact .nil
  | cons t tokens ih => exact .cons ⟨rfl, h⟩ ih

/-- Two states between blocks with the same tokens to read, in the second one no deeper. -/
structure Alike (s s' : Analysis) : Prop where
  layered : List.Forall₂ NoDeeper s.stream.layered s'.stream.layered
  registry : s'.registry = s.registry
  instances : s'.instances = s.instances
  messages : s'.messages = s.messages
  diagnostics : s'.diagnostics = s.diagnostics

/-- Two such states inside a block, where the token that was read last counts as well. -/
structure AlikeInside (s s' : Analysis) : Prop extends Alike s s' where
  last : s'.stream.last = s.stream.last
  depth : s'.stream.depth ≤ s.stream.depth

theorem Alike.unread {s s' : Analysis} (h : Alike s s') : s'.stream.unread = s.stream.unread := by
  rw [unread_eq, unread_eq, map_fst_of_no_deeper h.layered]

theorem AlikeInside.cursor {s s' : Analysis} (h : AlikeInside s s') : s'.cursor = s.cursor := by
  rw [Analysis.cursor, Analysis.cursor, h.toAlike.unread, h.last]

/-- Reading a token brings two states that are alike between blocks inside the next one. -/
theorem Alike.next {s s' : Analysis} (h : Alike s s') (hne : s.stream.layered ≠ []) :
    AlikeInside { s with stream := s.stream.next.2 } { s' with stream := s'.stream.next.2 } := by
  have hl := h.layered
  cases hs : s.stream.layered with
  | nil => exact absurd hs hne
  | cons p rest =>
    cases hs' : s'.stream.layered with
    | nil => simp [hs, hs'] at hl
    | cons q rest' =>
      rw [hs, hs', List.forall₂_cons] at hl
      obtain ⟨⟨htoken, hdepth⟩, hrest⟩ := hl
      obtain ⟨-, hr, hlast, hd⟩ := next_of_cons hs
      obtain ⟨-, hr', hlast', hd'⟩ := next_of_cons hs'
      exact
        { h with
          layered := by rwa [hr, hr']
          last := by rw [hlast, hlast', htoken]
          depth := by rwa [hd, hd'] }

theorem AlikeInside.next {s s' : Analysis} (h : AlikeInside s s') :
    AlikeInside { s with stream := s.stream.next.2 } { s' with stream := s'.stream.next.2 } := by
  by_cases hs : s.stream.layered = []
  · have hs' : s'.stream.layered = [] := by
      have hl := h.layered
      rw [hs] at hl
      exact List.forall₂_nil_left_iff.mp hl
    rw [next_of_nil hs, next_of_nil hs']
    exact { h with layered := .nil }
  · exact h.toAlike.next hs

theorem AlikeInside.advance {s s' : Analysis} (h : AlikeInside s s') (count : Nat) :
    AlikeInside { s with stream := s.stream.advance count }
      { s' with stream := s'.stream.advance count } := by
  induction count generalizing s s' with
  | zero => exact h
  | succ count ih => exact ih h.next

/-! Work that does the same on both sides -/

variable {α β : Type}

/-- From states that are alike the work comes to the same result in states that are alike, unless
imports lie too deep for the first one. -/
def Agrees (a : Attempt Analysis α) : Prop :=
  ∀ s s', AlikeInside s s' →
    TooDeep (a s).1 ∨ (a s').1 = (a s).1 ∧ AlikeInside (a s).2 (a s').2

theorem Agrees.bind {a : Attempt Analysis α} {f : α → Attempt Analysis β} (ha : Agrees a)
    (hf : ∀ x, Agrees (f x)) : Agrees (a >>= f) := by
  intro s s' h
  rw [Attempt.bind_apply, Attempt.bind_apply]
  have hagree := ha s s' h
  rcases hs : a s with ⟨e | x, t⟩
  · rw [hs] at hagree
    rcases hagree with ⟨location, hdeep⟩ | ⟨hr, ht⟩
    · cases hdeep
      exact .inl ⟨location, rfl⟩
    · rcases hs' : a s' with ⟨r', t'⟩
      rw [hs'] at hr ht
      cases hr
      exact .inr ⟨rfl, ht⟩
  · rw [hs] at hagree
    rcases hagree with ⟨_, hdeep⟩ | ⟨hr, ht⟩
    · cases hdeep
    · rcases hs' : a s' with ⟨r', t'⟩
      rw [hs'] at hr ht
      cases hr
      exact hf x t t' ht

theorem agrees_parse (p : Parser α) : Agrees (parse p) := by
  intro s s' h
  have hc : p ⟨s'.stream.unread, s'.stream.last⟩ = p ⟨s.stream.unread, s.stream.last⟩ :=
    congrArg p h.cursor
  refine .inr ⟨?_, ?_⟩
  · simp only [parse, TokenStream.parse, hc]
  · simp only [parse, TokenStream.parse, hc]
    rw [h.toAlike.unread]
    exact h.advance _

theorem agrees_registry {g : Registry → Attempt Analysis α} (hg : ∀ r, Agrees (g r)) :
    Agrees (Attempt.get >>= fun a => g a.registry) := by
  intro s s' h
  have hagree := hg s.registry s s' h
  change TooDeep (g s.registry s).1 ∨ (g s'.registry s').1 = (g s.registry s).1 ∧
    AlikeInside (g s.registry s).2 (g s'.registry s').2
  rwa [h.registry]

theorem agrees_modify {f : Analysis → Analysis}
    (hf : ∀ s s', AlikeInside s s' → AlikeInside (f s) (f s')) : Agrees (Attempt.modify f) :=
  fun s s' h => .inr ⟨rfl, hf s s' h⟩

/-- Where tokens are put in, they are so on both sides, or lie too deep for the first one. -/
theorem agrees_insert_tokens (tokens : List Token) : Agrees (insertTokens tokens) := by
  intro s s' h
  unfold insertTokens
  split
  · rename_i hd
    rw [if_pos (Nat.lt_of_le_of_lt h.depth hd)]
    refine .inr ⟨rfl, { h with layered := ?_ }⟩
    rw [layered_splice, layered_splice]
    exact List.rel_append (no_deeper_at_depth (Nat.succ_le_succ h.depth) tokens) h.layered
  · exact .inl ⟨_, rfl⟩

theorem agrees : PartWise Agrees where
  fail _ _ _ h := .inr ⟨rfl, h⟩
  succeed _ _ _ h := .inr ⟨rfl, h⟩
  bind := Agrees.bind
  registry := agrees_registry
  parse _ := agrees_parse _
  print tokens := agrees_modify fun s s' h =>
    { h with
      messages := by rw [print, print, h.messages]
      diagnostics := by rw [print, print, h.diagnostics] }
  register _ := agrees_modify fun _ _ h => { h with registry := rfl }
  collect _ := agrees_modify fun _ _ h => { h with instances := by rw [h.instances] }

/-! Blocks -/

theorem ensure_first {condition : Condition} {t : Token} (ht : condition.holds t = true)
    (rest : List Token) (last : Location) :
    Parser.ensure condition ⟨t :: rest, last⟩ = (.ok t, ⟨rest, t.location⟩) := by
  simp only [Parser.ensure, ht, if_true]

theorem parse_first {condition : Condition} {s : Analysis} {t : Token} {rest : List Token}
    (hu : s.stream.unread = t :: rest) (ht : condition.holds t = true) :
    parse (Parser.ensure condition) s = (.ok t, { s with stream := s.stream.next.2 }) := by
  have hread : Parser.ensure condition s.cursor = (.ok t, ⟨rest, t.location⟩) := by
    rw [cursor, hu, ensure_first ht]
  exact parse_of_reads (show s.stream.unread = [t] ++ rest from hu) hread

/-- After its first token a block does the same on both sides, wherever that token lies. -/
theorem Alike.block {s s' : Analysis} (h : Alike s s') {condition : Condition} {t : Token}
    {rest : List Token} (hu : s.stream.unread = t :: rest) (ht : condition.holds t = true)
    {f : Token → Attempt Analysis Unit} (hf : ∀ t, Agrees (f t)) :
    let block := parse (Parser.ensure condition) >>= f
    TooDeep (block s).1 ∨ (block s').1 = (block s).1 ∧ Alike (block s).2 (block s').2 := by
  have hne : s.stream.layered ≠ [] := by
    intro hnil
    rw [unread_eq, hnil] at hu
    cases hu
  dsimp only
  rw [Attempt.bind_ok (parse_first hu ht), Attempt.bind_ok (parse_first (h.unread.trans hu) ht)]
  rcases hf t _ _ (h.next hne) with hdeep | ⟨hr, hs⟩
  · exact .inl hdeep
  · exact .inr ⟨hr, hs.toAlike⟩

theorem first_of_all_hold {condition : Condition} {conditions : List Condition}
    {tokens : List Token} (h : Condition.allHold (condition :: conditions) tokens = true) :
    ∃ t rest, tokens = t :: rest ∧ condition.holds t = true := by
  cases tokens with
  | nil => cases h
  | cons t rest => exact ⟨t, rest, rfl, (Bool.and_eq_true_iff.mp h).1⟩

theorem Alike.step {s s' : Analysis} (h : Alike s s') (w : Surroundings)
    (hf : s.stream.isFinished = false) :
    TooDeep (step w s).1 ∨ (step w s').1 = (step w s).1 ∧ Alike (step w s).2 (step w s').2 := by
  have hd : s'.startsDirective = s.startsDirective := by
    simp only [startsDirective, Cursor.expects, cursor, h.unread]
  have hb : s'.startsDeclaration = s.startsDeclaration := by
    simp only [startsDeclaration, Cursor.expects, cursor, h.unread]
  unfold Analysis.step
  rw [hd, hb]
  split
  · rename_i hs
    obtain ⟨t, rest, hu, ht⟩ := first_of_all_hold hs
    exact h.block hu ht (agrees.runDirective agrees_insert_tokens w)
  · split
    · rename_i hs
      obtain ⟨t, rest, hu, ht⟩ := first_of_all_hold hs
      rw [declare_eq]
      exact h.block hu ht fun _ => agrees.declareRest
    · rw [peek_zero, peek_zero, h.unread]
      cases hu : s.stream.unread with
      | nil =>
        rw [unread_eq, List.map_eq_nil_iff, ← is_finished_iff, hf] at hu
        cases hu
      | cons t rest => exact .inr ⟨rfl, h⟩

theorem Alike.finished {s s' : Analysis} (h : Alike s s') :
    s'.stream.isFinished = s.stream.isFinished := by
  have hunread (t : TokenStream) : t.isFinished = true ↔ t.unread = [] := by
    rw [is_finished_iff, unread_eq, List.map_eq_nil_iff]
  rw [Bool.eq_iff_iff, hunread, hunread, h.unread]

/-- Two runs that start alike end alike. -/
theorem Alike.run {s s' : Analysis} (h : Alike s s') (w : Surroundings) :
    TooDeep (run w s).1 ∨ (run w s').1 = (run w s).1 ∧ Alike (run w s).2 (run w s').2 := by
  induction s using run.induct w generalizing s' with
  | case1 s hf =>
    rw [run_finished hf, run_finished (h.finished.trans hf)]
    exact .inr ⟨rfl, h⟩
  | case2 s hf t hs ih =>
    have hf : s.stream.isFinished = false := by simpa using hf
    have hstep := h.step w hf
    rcases hs' : Analysis.step w s' with ⟨r, t'⟩
    rw [hs, hs'] at hstep
    rcases hstep with ⟨_, hdeep⟩ | ⟨rfl, ht⟩
    · cases hdeep
    · rw [run_block hf hs, run_block (h.finished.trans hf) hs']
      exact ih ht
  | case3 s hf e t hs =>
    have hf : s.stream.isFinished = false := by simpa using hf
    have hstep := h.step w hf
    rcases hs' : Analysis.step w s' with ⟨r, t'⟩
    rw [hs, hs'] at hstep
    rw [run_failed hf hs]
    rcases hstep with hdeep | ⟨rfl, ht⟩
    · exact .inl hdeep
    · rw [run_failed (h.finished.trans hf) hs']
      exact .inr ⟨rfl, ht⟩

end Analysis

/-! The directive -/

/-- Up to the closing brace every token is an argument. -/
theorem Analysis.arguments_braced {requested : List Token} {opening closing : Token}
    (hopens : opening.kind = .leftBrace) (hrequested : ∀ t ∈ requested, t.kind ≠ .rightBrace)
    (hcloses : closing.kind = .rightBrace) (post : List Token) (last : Location) :
    Analysis.arguments ⟨opening :: (requested ++ closing :: post), last⟩ =
      (.ok requested, ⟨post, closing.location⟩) := by
  have hholds : ∀ t ∈ requested, (Condition.ofKind .rightBrace).negate.holds t = true := by
    intro t ht
    rw [Condition.holds_negate, Condition.holds, Condition.ofKind]
    simp [hrequested t ht]
  have hclosing : (Condition.ofKind .rightBrace).holds closing = true :=
    Condition.holds_of_kind.mpr hcloses
  have hstop : (Condition.ofKind .rightBrace).negate.holds closing = false := by
    rw [Condition.holds_negate, hclosing, Bool.not_true]
  have hconsume (last : Location) : Parser.consume (Condition.ofKind .rightBrace).negate
      ⟨requested ++ closing :: post, last⟩ =
        (.ok requested, Cursor.past ⟨[], last⟩ requested (closing :: post)) := by
    simp only [Parser.consume, List.takeWhile_append_of_pos hholds,
      List.dropWhile_append_of_pos hholds, List.takeWhile_cons, List.dropWhile_cons, hstop,
      Bool.false_eq_true, if_false, List.append_nil]
    rfl
  rw [Analysis.arguments, Parser.ensureKind,
    Attempt.bind_ok (Analysis.ensure_first (Condition.holds_of_kind.mpr hopens) _ _),
    Attempt.bind_ok (hconsume _), Cursor.past, Parser.ensureKind,
    Attempt.bind_ok (Analysis.ensure_first hclosing _ _)]
  rfl

/-- A path in the source that leads to a readable file, with the tokens of that file. -/
def Surroundings.Imports (w : Surroundings) (path : Token) (tokens : List Token) : Prop :=
  ∃ file source, w.findImport path = .ok file ∧ w.disk.readText file = .ok source ∧
    Lexer.tokenize source file.text = .ok tokens

theorem Surroundings.Imports.read {w : Surroundings} {path : Token} {tokens : List Token}
    (h : w.Imports path tokens) (hs : path.kind = .string) : w.readImport path = .ok tokens := by
  obtain ⟨file, source, hfile, hsource, htokens⟩ := h
  rw [Surroundings.readImport, if_neg (by simp [hs]), hfile]
  simp only [bind, Except.bind, hsource, htokens]

/-- A directive that imports files: `@import` and their paths in braces. -/
structure ImportDirective where
  head : Token
  opening : Token
  paths : List Token
  closing : Token
  imports : head.kind = .directive ∧ head.text = "import"
  opens : opening.kind = .leftBrace
  strings : ∀ path ∈ paths, path.kind = .string
  nonempty : paths ≠ []
  closes : closing.kind = .rightBrace

namespace ImportDirective

def tokens (d : ImportDirective) : List Token := d.head :: d.opening :: (d.paths ++ [d.closing])

theorem read_arguments (d : ImportDirective) (post : List Token) (last : Location) :
    Analysis.arguments ⟨d.opening :: (d.paths ++ d.closing :: post), last⟩ =
      (.ok d.paths, ⟨post, d.closing.location⟩) :=
  Analysis.arguments_braced d.opens (fun path hp => by simp [d.strings path hp]) d.closes post last

theorem read_files (d : ImportDirective) {w : Surroundings} {files : List (List Token)}
    (h : List.Forall₂ w.Imports d.paths files) : w.readImports d.paths = .ok files.flatten := by
  have hall : ∀ {paths : List Token} {files : List (List Token)}, (∀ p ∈ paths, p.kind = .string) →
      List.Forall₂ w.Imports paths files → paths.mapM w.readImport = .ok files := by
    intro paths files hs hf
    induction hf with
    | nil => rfl
    | cons hp _ ih =>
      obtain ⟨hstring, hs⟩ := List.forall_mem_cons.mp hs
      rw [List.mapM_cons, hp.read hstring, ih hs]
      rfl
  rw [Surroundings.readImports, hall d.strings h]
  rfl

/-- Where the analysis comes to the directive, it is ready to put in the tokens of the files. -/
theorem importing (d : ImportDirective) {w : Surroundings} {files : List (List Token)}
    (h : List.Forall₂ w.Imports d.paths files) {s : Analysis} {post : List Token}
    (hs : s.stream.unread = d.tokens ++ post) :
    Analysis.Importing w s { s with stream := s.stream.advance d.tokens.length }
      files.flatten := by
  have hu : s.stream.unread = d.head :: (d.opening :: (d.paths ++ d.closing :: post)) := by
    rw [hs, tokens]
    simp
  have hhead := Condition.holds_of_kind.mpr d.imports.1
  have hu₀ : s.stream.next.2.unread = (d.opening :: (d.paths ++ [d.closing])) ++ post := by
    have hnext := layered_advance s.stream 1
    rw [advance, advance] at hnext
    rw [unread_eq, hnext, List.map_drop, ← unread_eq, hu]
    simp
  have harguments : Analysis.arguments (Analysis.cursor { s with stream := s.stream.next.2 }) =
      (.ok d.paths, ⟨post, d.closing.location⟩) := by
    rw [Analysis.cursor, hu₀, List.cons_append, List.append_assoc, List.singleton_append]
    exact d.read_arguments post _
  refine .intro ?_ (Analysis.parse_first hu hhead) d.imports.2
    (Analysis.parse_of_reads hu₀ harguments) d.nonempty (d.read_files h)
  simp only [Analysis.startsDirective, Cursor.expects, Analysis.cursor, hu, Condition.allHold,
    hhead, Bool.and_true]

section Levels

variable (d : ImportDirective) {w : Surroundings} {files : List (List Token)}
  (hfiles : List.Forall₂ w.Imports d.paths files) {s : Analysis} {level : Nat} {post : List Token}
  {others : List (Token × Nat)}
  (hs : s.stream.layered = atDepth level (d.tokens ++ post) ++ others)

include hs

theorem unread_of_layered : s.stream.unread = d.tokens ++ (post ++ others.map Prod.fst) := by
  rw [unread_eq, hs, List.map_append, map_fst_at_depth, List.append_assoc]

theorem not_finished : s.stream.isFinished = false := by
  refine Bool.eq_false_iff.mpr fun hf => ?_
  have hlayered := hs.symm.trans ((is_finished_iff _).mp hf)
  simp [atDepth, tokens] at hlayered

/-- The token in front of what follows the directive is its closing brace. -/
theorem behind : let behind := s.stream.advance d.tokens.length
    behind.last = d.closing.location ∧ behind.depth = level ∧
      behind.layered = atDepth level post ++ others := by
  have hlast := last_advance s.stream d.tokens.length
  rw [hs, at_depth_append, List.append_assoc, ← length_at_depth level d.tokens,
    List.take_left, length_at_depth] at hlast
  have hclosing : (atDepth level d.tokens).getLast? = some (d.closing, level) := by
    simp [atDepth, tokens, List.getLast?_cons]
  rw [hclosing] at hlast
  obtain ⟨hl, hd⟩ := Prod.mk.inj hlast
  refine ⟨hl, hd, ?_⟩
  rw [layered_advance, hs, at_depth_append, List.append_assoc, ← length_at_depth level d.tokens,
    List.drop_left]

include hfiles

/-- The directive is replaced by the tokens of its files, one level below it. -/
theorem step_eq (hlevel : level < depthLimit) :
    ∃ stream, Analysis.step w s = (.ok (), { s with stream }) ∧
      stream.layered = atDepth (level + 1) files.flatten ++ (atDepth level post ++ others) := by
  obtain ⟨-, hdepth, hbehind⟩ := d.behind hs
  refine ⟨(s.stream.advance d.tokens.length).splice files.flatten, ?_, ?_⟩
  · rw [(d.importing hfiles (d.unread_of_layered hs)).step_eq, Analysis.insertTokens,
      if_pos (hdepth ▸ hlevel)]
  · rw [layered_splice, hdepth, hbehind]

/-- On the last level it is refused, at its closing brace. -/
theorem step_eq_error (hlevel : level = depthLimit) : ∃ s', Analysis.step w s =
    (.error (.meaning d.closing.location (.importsTooDeep depthLimit)), s') := by
  obtain ⟨hlast, hdepth, -⟩ := d.behind hs
  refine ⟨{ s with stream := s.stream.advance d.tokens.length }, ?_⟩
  rw [(d.importing hfiles (d.unread_of_layered hs)).step_eq, Analysis.insertTokens,
    if_neg (by simp [hdepth, hlevel]), hlast]

end Levels

end ImportDirective

namespace Analysis

/-- What an analysis comes to: its result, and what it has collected by then. -/
structure Outcome where
  result : Except CompileError Unit
  registry : Registry
  instances : Array Instance
  messages : Array String
  diagnostics : Array Diagnostic

def outcome (w : Surroundings) (tokens : List Token) : Outcome :=
  let (result, s) := run w (start tokens)
  ⟨result, s.registry, s.instances, s.messages, s.diagnostics⟩

/-- The analysis of some tokens comes, between two blocks, to the last ones of them. -/
def ReachesTop (w : Surroundings) (tokens rest : List Token) : Prop :=
  ∃ s, Leads w (start tokens) s ∧ s.stream.layered = atDepth 0 rest

/-- Where an analysis comes to an import in the main file and all that it names can be read, the
tokens of the files may stand in its place. The result and all that is collected are the same,
unless the imports lie too deep. -/
theorem import_transparency {w : Surroundings} {pre post : List Token} {d : ImportDirective}
    {files : List (List Token)} (hfiles : List.Forall₂ w.Imports d.paths files)
    (hreached : ReachesTop w (pre ++ (d.tokens ++ post)) (d.tokens ++ post))
    (hdeep : ¬ TooDeep (outcome w (pre ++ (d.tokens ++ post))).result) :
    outcome w (pre ++ (d.tokens ++ post)) = outcome w (pre ++ (files.flatten ++ post)) := by
  obtain ⟨s, hleads, hlayered⟩ := hreached
  have halone : s.stream.layered = atDepth 0 (d.tokens ++ post) ++ [] := by
    rw [hlayered, List.append_nil]
  obtain ⟨stream, hstep, hstream⟩ := d.step_eq hfiles halone (by decide)
  rw [List.append_nil] at hstream
  -- With the files in place of the directive the analysis comes to the same state.
  have hstart : SameFront (atDepth 0 (d.tokens ++ post)) (atDepth 0 (files.flatten ++ post))
      (start (pre ++ (d.tokens ++ post))) (start (pre ++ (files.flatten ++ post))) :=
    { layered := ⟨atDepth 0 pre, by rw [start, layered_of_tokens, at_depth_append],
        by rw [start, layered_of_tokens, at_depth_append]⟩
      last := rfl
      depth := rfl
      registry := rfl
      instances := rfl
      messages := rfl
      diagnostics := rfl }
  obtain ⟨s', hleads', hs'⟩ := (hleads.carries (hlayered ▸ List.suffix_refl _)).2 _ hstart
  obtain ⟨front, hfront, hother⟩ := hs'.layered
  obtain rfl : front = [] := by
    rw [hlayered] at hfront
    exact List.append_cancel_right hfront.symm
  have halike : Alike { s with stream } s' :=
    { hs' with
      layered := by
        rw [hstream, hother, at_depth_append]
        exact List.rel_append (no_deeper_at_depth (Nat.zero_le 1) _)
          (no_deeper_at_depth (Nat.le_refl 0) _) }
  have hrun : run w (start (pre ++ (d.tokens ++ post))) = run w { s with stream } :=
    hleads.run_eq.trans (run_block (not_finished_of_step hstep) hstep)
  unfold outcome at hdeep ⊢
  rw [hrun] at hdeep ⊢
  rw [hleads'.run_eq]
  obtain ⟨hresult, hend⟩ := (halike.run w).resolve_left hdeep
  simp only [hresult, hend.registry, hend.instances, hend.messages, hend.diagnostics]

/-! A file that leaves a directive open -/

def tokenOf (file : String) (kind : TokenKind) (text : String) : Token := ⟨kind, text, ⟨file, 1⟩⟩

/-- A directory with one file, where `@out` is not closed. -/
def openFile : Surroundings :=
  ⟨⟨[(["a"], .file "@out \x7b y".toUTF8)], []⟩, []⟩

def openTokens : List Token :=
  [tokenOf "a" .directive "out", tokenOf "a" .leftBrace "\x7b", tokenOf "a" .identifier "y"]

def openImport : ImportDirective where
  head := tokenOf "m" .directive "import"
  opening := tokenOf "m" .leftBrace "\x7b"
  paths := [tokenOf "m" .string "a"]
  closing := tokenOf "m" .rightBrace "\x7d"
  imports := ⟨rfl, rfl⟩
  opens := rfl
  strings := by simp [tokenOf]
  nonempty := by simp
  closes := rfl

def beforeImport : List Token :=
  [tokenOf "m" .directive "out", tokenOf "m" .leftBrace "\x7b", tokenOf "m" .identifier "x",
    tokenOf "m" .rightBrace "\x7d"]

def behindImport : List Token := [tokenOf "m" .identifier "z", tokenOf "m" .rightBrace "\x7d"]

/-- The importing file closes the directive. -/
theorem import_transparency_open_file :
    let imported := outcome openFile (beforeImport ++ (openImport.tokens ++ behindImport))
    imported = outcome openFile (beforeImport ++ (openTokens ++ behindImport)) ∧
      imported.result = .ok () ∧ imported.messages = #["x", "y", "z"] := by
  have hfiles : List.Forall₂ openFile.Imports openImport.paths [openTokens] := by
    refine .cons ⟨⟨"a"⟩, "@out \x7b y", ?_, ?_, ?_⟩ .nil <;> cbv
  have h₁ := (Leads.refl (start (beforeImport ++ (openImport.tokens ++ behindImport)))).next
    (w := openFile) (by cbv)
  have h₃ := (h₁.next (by cbv)).next (by cbv)
  have hrun := h₃.run_eq.trans (run_finished (by cbv))
  have houtcome : (outcome openFile (beforeImport ++ (openImport.tokens ++ behindImport))).result =
      .ok () := by
    rw [outcome, hrun]
  have hmessages :
      (outcome openFile (beforeImport ++ (openImport.tokens ++ behindImport))).messages =
        #["x", "y", "z"] := by
    rw [outcome, hrun]
    cbv
  refine ⟨?_, houtcome, hmessages⟩
  refine import_transparency hfiles ⟨_, h₁, by cbv⟩ ?_
  rw [houtcome]
  rintro ⟨_, h⟩
  cases h

end Analysis

end ResourceCompiler
