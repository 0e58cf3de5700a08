import ResourceCompiler.Proofs.Analysis.ErrorPlaces
import Mathlib.Order.WellFounded

/-!
Every run ends, whatever the files on the disk import. Imports add tokens, also more of them than
were read, but always one level below a token that was read, and never below the last level. Inside
a block no repetition spends its allowance either.
-/

namespace ResourceCompiler

open TokenStream

namespace TokenStream

/-- No segment lies deeper than imports may. -/
structure Shallow (s : TokenStream) : Prop where
  segments : ∀ g ∈ s.segments, g.depth ≤ depthLimit
  last : s.depth ≤ depthLimit

theorem shallow_of_tokens (tokens : List Token) : Shallow (ofTokens tokens) := by
  refine ⟨?_, Nat.zero_le _⟩
  unfold ofTokens
  split
  · simp
  · simp [Segment.fresh]

theorem shallow_drop_exhausted {segments : List Segment}
    (h : ∀ g ∈ segments, g.depth ≤ depthLimit) :
    ∀ g ∈ dropExhausted segments, g.depth ≤ depthLimit :=
  fun g hg => h g ((List.dropWhile_suffix _).subset hg)

theorem shallow_next_in {segments rest : List Segment} {t : Token} {depth : Nat}
    (h : ∀ g ∈ segments, g.depth ≤ depthLimit) (hn : nextIn segments = some (t, rest, depth)) :
    (∀ g ∈ rest, g.depth ≤ depthLimit) ∧ depth ≤ depthLimit := by
  induction segments with
  | nil => simp [nextIn] at hn
  | cons s others ih =>
    obtain ⟨hs, hothers⟩ := List.forall_mem_cons.mp h
    unfold nextIn at hn
    split at hn
    · exact ih hothers hn
    · simp only [Option.some.injEq, Prod.mk.injEq] at hn
      obtain ⟨_, rfl, rfl⟩ := hn
      exact ⟨shallow_drop_exhausted (List.forall_mem_cons.mpr ⟨hs, hothers⟩), hs⟩

theorem Shallow.next {s : TokenStream} (h : Shallow s) : Shallow s.next.2 := by
  unfold TokenStream.next
  cases hn : nextIn s.segments with
  | none => exact ⟨by simp, h.last⟩
  | some found =>
    obtain ⟨hsegments, hlast⟩ := shallow_next_in h.segments hn
    exact ⟨hsegments, hlast⟩

theorem Shallow.advance {s : TokenStream} (h : Shallow s) (count : Nat) :
    Shallow (s.advance count) := by
  induction count generalizing s with
  | zero => exact h
  | succ count ih => exact ih h.next

theorem Shallow.splice {s : TokenStream} (h : Shallow s) (hd : s.depth < depthLimit)
    (tokens : List Token) : Shallow (s.splice tokens) := by
  refine ⟨?_, h.last⟩
  unfold TokenStream.splice
  split
  · exact shallow_drop_exhausted h.segments
  · exact List.forall_mem_cons.mpr ⟨hd, shallow_drop_exhausted h.segments⟩

/-- So many tokens were read, and then perhaps some put in. -/
def Moves (before : TokenStream) (count : Nat) (after : TokenStream) : Prop :=
  ∃ read, Reads before count read ∧ (after = read ∨ ∃ tokens, after = read.splice tokens)

end TokenStream

namespace Analysis

/-- Every state of a run between two blocks, the one behind a failed block included. -/
inductive Reached (w : Surroundings) (tokens : List Token) : Analysis → Prop
  | start : Reached w tokens (start tokens)
  | step {s : Analysis} : Reached w tokens s → s.stream.isFinished = false →
      Reached w tokens (step w s).2

/-- From a state on, block after block is read, altogether so many tokens, and the last block is
the end of the input or an error. -/
inductive Ends (w : Surroundings) : Analysis → Nat → Except CompileError Unit × Analysis → Prop
  | finished {s : Analysis} : s.stream.isFinished = true → Ends w s 0 (.ok (), s)
  | failed {s s' : Analysis} {e : CompileError} {count : Nat} : s.stream.isFinished = false →
      step w s = (.error e, s') → Moves s.stream count s'.stream → Ends w s count (.error e, s')
  | block {s s' : Analysis} {count rest : Nat} {r : Except CompileError Unit × Analysis} :
      s.stream.isFinished = false → step w s = (.ok (), s') → Moves s.stream count s'.stream →
      Ends w s' rest r → Ends w s (count + rest) r

theorem step_moves (w : Surroundings) (s : Analysis) :
    ∃ count, Moves s.stream count (step w s).2.stream := by
  by_cases h : ∃ behind tokens, Importing w s behind tokens
  · obtain ⟨behind, tokens, hi⟩ := h
    obtain ⟨count, -, hr⟩ := hi.reads
    refine ⟨count, behind.stream, hr, ?_⟩
    rw [hi.step_eq]
    rcases insert_tokens_cases tokens behind with ⟨-, he⟩ | ⟨-, he⟩
    · exact .inr ⟨tokens, by rw [he]⟩
    · exact .inl (by rw [he])
  · obtain ⟨count, hr⟩ := step_only_reads fun behind tokens hi => h ⟨behind, tokens, hi⟩
    exact ⟨count, _, hr, .inl rfl⟩

/-- A step keeps to the levels. -/
theorem shallow_step {s : Analysis} (h : Shallow s.stream) (w : Surroundings) :
    Shallow (step w s).2.stream := by
  by_cases hi : ∃ behind tokens, Importing w s behind tokens
  · obtain ⟨behind, tokens, hi⟩ := hi
    obtain ⟨count, -, -, hr⟩ := hi.reads
    have hb : Shallow behind.stream := hr ▸ h.advance count
    rw [hi.step_eq]
    rcases insert_tokens_cases tokens behind with ⟨hd, he⟩ | ⟨-, he⟩
    · rw [he]
      exact hb.splice hd tokens
    · rwa [he]
  · obtain ⟨count, -, hr⟩ := step_only_reads fun behind tokens hb => hi ⟨behind, tokens, hb⟩
    rw [hr]
    exact h.advance count

theorem Reached.shallow {w : Surroundings} {tokens : List Token} {s : Analysis}
    (h : Reached w tokens s) : Shallow s.stream := by
  induction h with
  | start => exact shallow_of_tokens tokens
  | step _ _ ih => exact shallow_step ih w

theorem ends_run (w : Surroundings) (s : Analysis) : ∃ count, Ends w s count (run w s) := by
  induction s using run.induct w with
  | case1 s hf => exact ⟨0, run_finished hf ▸ .finished hf⟩
  | case2 s hf s' hs ih =>
    have hf' : s.stream.isFinished = false := by simpa using hf
    obtain ⟨rest, hrest⟩ := ih
    obtain ⟨count, hm⟩ := step_moves w s
    rw [hs] at hm
    exact ⟨count + rest, run_block hf' hs ▸ .block hf' hs hm hrest⟩
  | case3 s hf e s' hs =>
    have hf' : s.stream.isFinished = false := by simpa using hf
    obtain ⟨count, hm⟩ := step_moves w s
    rw [hs] at hm
    exact ⟨count, run_failed hf' hs ▸ .failed hf' hs hm⟩

/-- No steps go on for ever, from whatever state they start. -/
theorem no_endless_steps (w : Surroundings) (states : Nat → Analysis) :
    ¬ ∀ i, step w (states i) = (.ok (), states (i + 1)) := by
  intro h
  have : IsWellFounded TokenStream Nearer := ⟨nearer_well_founded⟩
  obtain ⟨i, hi⟩ := WellFounded.not_rel_apply_succ (r := Nearer) fun i => (states i).stream
  exact hi (nearer_step (h i))

/-- What an import does: its tokens come first, one level below the token that was read last, unless
that level is the last one. -/
theorem Importing.level {w : Surroundings} {s behind : Analysis} {tokens : List Token}
    (h : Importing w s behind tokens) (hs : Shallow s.stream) : ∃ taken t level,
      s.stream.layered = taken ++ (t, level) :: behind.stream.layered ∧
      (step w s = (.error (.meaning t.location (.importsTooDeep depthLimit)), behind) ↔
        level = depthLimit) ∧
      (level ≠ depthLimit → ∃ s', step w s = (.ok (), s') ∧
        s'.stream.layered = atDepth (level + 1) tokens ++ behind.stream.layered) := by
  obtain ⟨count, hpos, hr⟩ := h.reads
  obtain ⟨taken, t, hlayered, hlast⟩ := hr.last_read hpos
  have hle : behind.stream.depth ≤ depthLimit := (hr.2 ▸ hs.advance count).last
  refine ⟨taken, t, behind.stream.depth, hlayered, ?_, ?_⟩
  · rw [h.step_eq]
    rcases insert_tokens_cases tokens behind with ⟨hd, he⟩ | ⟨hd, he⟩
    · simp [he, Nat.ne_of_lt hd]
    · simp [he, hlast, Nat.le_antisymm hle hd]
  · intro hne
    rw [h.step_eq]
    rcases insert_tokens_cases tokens behind with ⟨-, he⟩ | ⟨hd, -⟩
    · exact ⟨_, he, layered_splice _ _⟩
    · exact absurd (Nat.le_antisymm hle hd) hne

/-- A run never breaks down. Its last block may fail, but every error in it can be blamed on
something. -/
theorem run_reported {w : Surroundings} {s s' : Analysis} {e : CompileError}
    (h : run w s = (.error e, s')) (cause : Breakdown) : e ≠ .breakdown cause := by
  obtain ⟨blocks, t, -, ⟨hok, -⟩ | ⟨e', s₁, herror, hf, hstep⟩⟩ := run_completed w s
  · cases hok.symm.trans h
  · cases herror.symm.trans h
    obtain ⟨taken, hblamed⟩ := blamed_step hf hstep
    exact hblamed.points.reported cause

/-- Every analysis ends, after so many tokens were read; and there is no endless sequence of
blocks. No repetition inside a block is cut off by its allowance: the run would break down there,
and it does not (where a repetition comes to its last round it is the unbounded one, by
`Parser.repeating_eq_ok`; how many levels instances are granted makes no difference either, by
`Declaration.instances_eq`). While it runs, in the middle of a block as well, no segment lies more
than 64 levels deep. Imported tokens come one level below the token that was read last, and are
refused exactly if that level is 64; every other block only reads. -/
theorem analysis_ends (w : Surroundings) (tokens : List Token) :
    (∃ count, Ends w (start tokens) count (run w (start tokens))) ∧
    (∀ cause s', run w (start tokens) ≠ (.error (.breakdown cause), s')) ∧
    (∀ states : Nat → Analysis, ¬ ∀ i, step w (states i) = (.ok (), states (i + 1))) ∧
    ∀ s, Reached w tokens s →
      (∀ count, ∀ g ∈ (s.stream.advance count).segments, g.depth ≤ 64) ∧
      (∀ behind imported, Importing w s behind imported → ∃ taken t level,
        s.stream.layered = taken ++ (t, level) :: behind.stream.layered ∧
        (step w s = (.error (.meaning t.location (.importsTooDeep 64)), behind) ↔ level = 64) ∧
        (level ≠ 64 → ∃ s', step w s = (.ok (), s') ∧
          s'.stream.layered = atDepth (level + 1) imported ++ behind.stream.layered)) ∧
      ((∀ behind imported, ¬ Importing w s behind imported) →
        ∃ count, Reads s.stream count (step w s).2.stream) :=
  ⟨ends_run w _, fun cause _ h => run_reported h cause rfl, no_endless_steps w, fun _ hs =>
    ⟨fun count => (hs.shallow.advance count).segments,
      fun _ _ hi => hi.level hs.shallow, step_only_reads⟩⟩

/-! A file that imports itself -/

/-- The file is imported again on every level, and refused on the last one. -/
theorem run_self_import (d : ImportDirective) {w : Surroundings} {files : List (List Token)}
    {rest : List Token} (hfiles : List.Forall₂ w.Imports d.paths files)
    (hself : files.flatten = d.tokens ++ rest) {s : Analysis} {level : Nat}
    {others : List (Token × Nat)}
    (hs : s.stream.layered = atDepth level (d.tokens ++ rest) ++ others)
    (hlevel : level ≤ depthLimit) :
    ∃ s', run w s = (.error (.meaning d.closing.location (.importsTooDeep depthLimit)), s') := by
  -- The levels that are left.
  induction hleft : depthLimit - level generalizing s level others with
  | zero =>
    obtain ⟨s', hstep⟩ := d.step_eq_error hfiles hs (by omega)
    exact ⟨s', run_failed (d.not_finished hs) hstep⟩
  | succ left ih =>
    obtain ⟨stream, hstep, hstream⟩ := d.step_eq hfiles hs (by omega)
    rw [run_block (d.not_finished hs) hstep]
    rw [hself] at hstream
    exact ih hstream (by omega) (by omega)

/-- A directory with one file, which imports itself. -/
def selfFile : Surroundings :=
  ⟨⟨[(["a"], .file "@import \x7b \"a\" \x7d".toUTF8)], []⟩, []⟩

def selfImport : ImportDirective where
  head := tokenOf "a" .directive "import"
  opening := tokenOf "a" .leftBrace "\x7b"
  paths := [tokenOf "a" .string "a"]
  closing := tokenOf "a" .rightBrace "\x7d"
  imports := ⟨rfl, rfl⟩
  opens := rfl
  strings := by simp [tokenOf]
  nonempty := by simp
  closes := rfl

/-- The analysis of that file ends on the last level. -/
theorem analysis_ends_self_import :
    Lexer.tokenize "@import \x7b \"a\" \x7d" "a" = .ok selfImport.tokens ∧
    ∃ s' count, run selfFile (start selfImport.tokens) =
        (.error (.meaning ⟨"a", 1⟩ (.importsTooDeep 64)), s') ∧
      Ends selfFile (start selfImport.tokens) count
        (.error (.meaning ⟨"a", 1⟩ (.importsTooDeep 64)), s') := by
  refine ⟨by cbv, ?_⟩
  have hfiles : List.Forall₂ selfFile.Imports selfImport.paths [selfImport.tokens] := by
    refine .cons ⟨⟨"a"⟩, "@import \x7b \"a\" \x7d", ?_, ?_, ?_⟩ .nil <;> cbv
  have hstart : (start selfImport.tokens).stream.layered =
      atDepth 0 (selfImport.tokens ++ []) ++ [] := by
    rw [start, layered_of_tokens, List.append_nil, List.append_nil]
  obtain ⟨s', hrun⟩ := run_self_import selfImport hfiles rfl hstart (by decide)
  obtain ⟨⟨count, hends⟩, -⟩ := analysis_ends selfFile selfImport.tokens
  rw [hrun] at hends
  exact ⟨s', count, hrun, hends⟩

end Analysis

end ResourceCompiler
