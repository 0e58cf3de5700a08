import ResourceCompiler.Proofs.Analysis.Lookahead
import ResourceCompiler.Proofs.Reading.GrammarBlame
import ResourceCompiler.Proofs.Source.Cutting

/-!
Errors of an analysis point at the source. Wherever a block fails, the place of the error is that
of a token of this block, or of the token that is next. All of these come out of some source text,
those of imported files as well.
-/

namespace ResourceCompiler

open TokenStream

/-- A token that the lexer found in some text. -/
def Token.Lexed (t : Token) : Prop :=
  ∃ source file tokens, Lexer.tokenize source file = .ok tokens ∧ t ∈ tokens

/-- Lines are counted from 1. -/
theorem Lexer.line_of_tokens_of {file : String} {before gap : List Char} {parts : List Part}
    {t : Token} (h : t ∈ tokensOf file before gap parts) : 1 ≤ t.location.line := by
  induction parts generalizing before gap with
  | nil => cases h
  | cons p parts ih =>
    rcases List.mem_cons.mp h with rfl | h
    · exact Nat.le_add_right 1 _
    · exact ih h

theorem Token.Lexed.place_ne_unknown {t : Token} (h : t.Lexed) : t.location ≠ .unknown := by
  obtain ⟨source, file, tokens, htokens, ht⟩ := h
  obtain ⟨gap, parts, -, rfl⟩ := Lexer.tokenize_ok_iff.mp htokens
  intro hunknown
  have hline := Lexer.line_of_tokens_of ht
  rw [hunknown] at hline
  cases hline

/-! Imported files -/

namespace Surroundings

variable {w : Surroundings} {requested tokens : List Token} {path : Token} {e : CompileError}
  {place : Location}

/-- Whatever is wrong with an import, it is wrong where the file is named, or inside the file. -/
theorem points_of_read_import (h : w.readImport path = .error e) :
    e.Points (path.location = ·) := by
  unfold readImport at h
  split at h
  · cases h
    exact CompileError.points_of_place rfl rfl
  · rcases except_bind_eq_error.mp h with hfind | ⟨found, -, h⟩
    · unfold findImport at hfind
      split at hfind
      · cases hfind
      · cases hfind
        exact CompileError.points_of_place rfl rfl
    · split at h
      · cases h
        exact ⟨nofun, nofun⟩
      · obtain ⟨_, _, _, _, -, -, rfl⟩ := Lexer.tokenize_error h
        exact ⟨nofun, nofun⟩

/-- The first file that cannot be read is to blame. -/
theorem points_of_read_imports (h : w.readImports requested = .error e) :
    e.Points fun place => ∃ path ∈ requested, path.location = place := by
  have hfiles : requested.mapM w.readImport = .error e := by
    rcases except_bind_eq_error.mp h with hfiles | ⟨files, -, hpure⟩
    · exact hfiles
    · cases hpure
  clear h
  induction requested with
  | nil => cases hfiles
  | cons path requested ih =>
    rw [List.mapM_cons] at hfiles
    rcases except_bind_eq_error.mp hfiles with hfirst | ⟨_, -, hothers⟩
    · exact (points_of_read_import hfirst).mono fun place hat => ⟨path, List.mem_cons_self, hat⟩
    · rcases except_bind_eq_error.mp hothers with hothers | ⟨_, -, hpure⟩
      · exact (ih hothers).mono fun place ⟨other, hother, hat⟩ =>
          ⟨other, List.mem_cons_of_mem path hother, hat⟩
      · cases hpure

theorem lexed_of_read_import (h : w.readImport path = .ok tokens) : ∀ t ∈ tokens, t.Lexed := by
  unfold readImport at h
  split at h
  · cases h
  · obtain ⟨found, -, h⟩ := except_bind_eq_ok.mp h
    split at h
    · cases h
    · exact fun t ht => ⟨_, _, tokens, h, ht⟩

theorem lexed_of_read_imports (h : w.readImports requested = .ok tokens) :
    ∀ t ∈ tokens, t.Lexed := by
  obtain ⟨files, hfiles, hflat⟩ := except_bind_eq_ok.mp h
  cases hflat
  clear h
  induction requested generalizing files with
  | nil =>
    cases hfiles
    exact nofun
  | cons path requested ih =>
    rw [List.mapM_cons] at hfiles
    obtain ⟨first, hfirst, hfiles⟩ := except_bind_eq_ok.mp hfiles
    obtain ⟨others, hothers, hall⟩ := except_bind_eq_ok.mp hfiles
    cases hall
    rw [List.flatten_cons, List.forall_mem_append]
    exact ⟨lexed_of_read_import hfirst, ih others hothers⟩

end Surroundings

namespace Analysis

open ResourceCompiler.Parser

variable {known : Location → Prop} {given : Prop} {α β : Type} {told : α → Prop}
  {w : Surroundings} {s s' t : Analysis} {taken rest : List Token} {e : CompileError}
  {place : Location}

theorem known_last (h : s.stream.unread = taken ++ rest) (hlast : known s.stream.last)
    (htaken : ∀ t ∈ taken, known t.location) : known (s.past taken).stream.last := by
  rw [past, last_past h]
  cases hg : taken.getLast? with
  | none => exact hlast
  | some t => exact htaken t (List.mem_of_getLast? hg)

/-- A parser that is run reads what it reads, and ends as its blame says. -/
theorem parse_ends {p : Parser α} (hp : Blames known given p told) (s : Analysis) :
    ∃ taken r, parse p s = (r, s.past taken) ∧
      s.stream.unread = taken ++ (s.past taken).stream.unread ∧
      (given → known s.stream.last → (∀ t ∈ taken, known t.location) →
        Traced known told (r, (s.past taken).cursor)) := by
  obtain ⟨taken, hu, hends⟩ := hp s.cursor
  rcases hc : p s.cursor with ⟨r, unread, last⟩
  rw [hc] at hu hends
  have hbehind : (s.past taken).stream.unread = unread := unread_past hu
  refine ⟨taken, r, parse_of_reads hu hc, by rw [hbehind]; exact hu, fun hg hlast htaken => ?_⟩
  have hended := hends hg hlast htaken
  cases r with
  | ok a => exact ⟨known_last hu hlast htaken, hended.2⟩
  | error e => rwa [Traced, unread_cursor, hbehind]

/-- Work that fails has read some tokens, and blames one of them, or the next one, or something that
was known before. -/
def FailsAt (known : Location → Prop) (given : Prop) (a : Attempt Analysis α) : Prop :=
  ∀ s e s', a s = (.error e, s') → ∃ taken, s' = s.past taken ∧
    s.stream.unread = taken ++ s'.stream.unread ∧
    (given → known s.stream.last → (∀ t ∈ taken, known t.location) →
      e.Points (Placed known s'.stream.unread))

theorem fails_at_fail (h : given → e.Points known) :
    FailsAt known given (Attempt.fail e : Attempt Analysis α) := by
  intro s e' s' hf
  cases hf
  exact ⟨[], rfl, rfl, fun hg _ _ => (h hg).mono fun _ => .inl⟩

theorem fails_at_modify (f : Analysis → Analysis) : FailsAt known given (Attempt.modify f) := by
  intro s e s' hf
  cases hf

theorem fails_at_parse {p : Parser α} {f : α → Attempt Analysis β}
    (hp : Blames known given p told) (hf : ∀ x, FailsAt known (given ∧ told x) (f x)) :
    FailsAt known given (parse p >>= f) := by
  intro s e s' h
  obtain ⟨taken, r, hparse, hu, hends⟩ := parse_ends hp s
  rw [Attempt.bind_apply, hparse] at h
  cases r with
  | error e' =>
    cases h
    exact ⟨taken, rfl, hu, hends⟩
  | ok x =>
    obtain ⟨more, rfl, hu₁, hfails⟩ := hf x _ _ _ h
    refine ⟨taken ++ more, past_past s taken more, ?_, fun hg hlast htaken => ?_⟩
    · rw [List.append_assoc, ← hu₁]
      exact hu
    · obtain ⟨hfirst, hmore⟩ := List.forall_mem_append.mp htaken
      obtain ⟨hlast₁, hx⟩ := hends hg hlast hfirst
      exact hfails ⟨hg, hx⟩ hlast₁ hmore

theorem fails_at_lift {r : Except CompileError α} {f : α → Attempt Analysis β}
    (h : given → ∀ e, r = .error e → e.Points known)
    (hf : ∀ x, FailsAt known given (f x)) : FailsAt known given (Attempt.lift r >>= f) := by
  cases r with
  | error e => exact fails_at_fail fun hg => h hg e rfl
  | ok x => exact hf x

theorem fails_at_get {f : Analysis → Attempt Analysis β} (hf : ∀ x, FailsAt known given (f x)) :
    FailsAt known given (Attempt.get >>= f) :=
  fun s e s' h => hf s s e s' h

/-- Imports that lie too deep are blamed on the last token that was read. -/
theorem fails_at_insert_tokens (tokens : List Token) :
    FailsAt known given (insertTokens tokens) := by
  intro s e s' h
  rcases insert_tokens_cases tokens s with ⟨-, he⟩ | ⟨-, he⟩
  · cases he.symm.trans h
  · cases he.symm.trans h
    exact ⟨[], rfl, rfl, fun _ hlast _ => CompileError.points_of_place rfl (.inl hlast)⟩

theorem blames_arguments :
    Blames known given arguments fun tokens => ∀ t ∈ tokens, known t.location :=
  (blames_ensure_kind _).before fun _ => (blames_consume _).bind fun _ =>
    (blames_ensure_kind _).before fun _ => blames_pure And.right

theorem fails_at_import_files {head : Token} (h : given → known head.location) :
    FailsAt known given (importFiles w head) := by
  refine fails_at_parse blames_arguments fun requested => ?_
  split
  · exact fails_at_fail fun hg => CompileError.points_of_place rfl (h hg.1)
  · refine fails_at_lift (fun hg e he => ?_) fails_at_insert_tokens
    refine (Surroundings.points_of_read_imports he).mono ?_
    rintro _ ⟨path, hpath, rfl⟩
    exact hg.2 path hpath

theorem register_place {registry : Registry} {schema : Schema}
    (h : registry.register schema = .error e) : e.place? = some schema.location := by
  unfold Registry.register at h
  split at h
  · cases h
    rfl
  · split at h
    · cases h
      rfl
    · cases h

/-- A type that cannot be registered is blamed on the head of its definition. -/
theorem fails_at_define {head : Token} (h : given → known head.location) :
    FailsAt known given (define head) := by
  refine fails_at_parse (Definition.blames_schema h) fun schema => fails_at_get fun s => ?_
  refine fails_at_lift (fun hg e he => ?_) fun registry => fails_at_modify _
  exact CompileError.points_of_place (register_place he) (hg.2 ▸ h hg.1)

theorem fails_at_run_directive {head : Token} (h : given → known head.location) :
    FailsAt known given (runDirective w head) := by
  unfold runDirective
  split
  · exact fails_at_parse blames_arguments fun _ => fails_at_modify _
  split
  · exact fails_at_import_files h
  split
  · exact fails_at_define h
  · exact fails_at_fail fun hg => CompileError.points_of_place rfl (h hg)

theorem fails_at_declare_rest : FailsAt known given declareRest :=
  fails_at_get fun _ => fails_at_parse Declaration.blames_body fun _ => fails_at_modify _

/-! Blocks -/

/-- Some tokens of a block were read, and one of them is blamed, or the next one. -/
structure Blamed (s : Analysis) (e : CompileError) (taken : List Token) (s' : Analysis) : Prop where
  reads : ReadOff s.stream taken s'.stream
  unread : s.stream.unread = taken ++ s'.stream.unread
  points : e.Points fun place =>
    ∃ t, (t ∈ taken ∨ s'.stream.peek? 0 = some t) ∧ t.location = place

/-- The head of a block is known to what follows it. -/
theorem blamed_behind {head : Token} {a : Attempt Analysis α}
    (ha : ∀ known, FailsAt known (known head.location) a)
    (hu : s.stream.unread = head :: rest) (h : a (s.past [head]) = (.error e, s')) :
    ∃ taken, Blamed s e taken s' := by
  have hrest : (s.past [head]).stream.unread = rest := unread_past hu
  have hlast : (s.past [head]).stream.last = head.location :=
    congrArg Cursor.last (cursor_past hu)
  let known (place : Location) := ∃ behind, s.stream.unread = behind ++ s'.stream.unread ∧
    ∃ t ∈ behind, t.location = place
  obtain ⟨taken, hs', hu₁, hfails⟩ := ha known _ _ _ h
  have hread : s.stream.unread = (head :: taken) ++ s'.stream.unread := by
    rw [hu, ← hrest, hu₁]
    rfl
  have hknown (t : Token) (ht : t ∈ head :: taken) : known t.location := ⟨_, hread, t, ht, rfl⟩
  refine ⟨head :: taken, ?_, hread, ?_⟩
  · rw [hs', past_past]
    exact read_off_advance hread
  · have hhead := hknown head List.mem_cons_self
    refine (hfails hhead (hlast ▸ hhead)
      fun t ht => hknown t (List.mem_cons_of_mem head ht)).mono ?_
    rintro place (⟨behind, hbehind, t, ht, hat⟩ | ⟨t, ht, hat⟩)
    · rw [List.append_cancel_right (hbehind.symm.trans hread)] at ht
      exact ⟨t, .inl ht, hat⟩
    · exact ⟨t, .inr ((peek_zero _).trans ht), hat⟩

/-- The tokens on which a block was begun. -/
theorem first_of_expects {condition : Condition} {conditions : List Condition}
    (h : s.cursor.expects (condition :: conditions) = true) :
    ∃ head rest, s.stream.unread = head :: rest ∧ condition.holds head = true := by
  rw [Cursor.expects, unread_cursor] at h
  cases hu : s.stream.unread with
  | nil => simp [hu, Condition.allHold] at h
  | cons head rest =>
    simp only [hu, Condition.allHold, Bool.and_eq_true] at h
    exact ⟨head, rest, rfl, h.1⟩

theorem blamed_step (hf : s.stream.isFinished = false) (h : step w s = (.error e, s')) :
    ∃ taken, Blamed s e taken s' := by
  have hstep := h
  unfold step at h
  split at h
  · rename_i hstarts
    obtain ⟨head, rest, hu, hkind⟩ := first_of_expects hstarts
    rw [step_of_head hu (Condition.holds_of_kind.mp hkind)] at hstep
    exact blamed_behind (fun _ => fails_at_run_directive id) hu hstep
  · split at h
    · rename_i hstarts
      obtain ⟨head, rest, hu, hkeyword⟩ := first_of_expects hstarts
      rw [declare_eq, Attempt.bind_ok (parse_first hu hkeyword)] at h
      exact blamed_behind (fun _ => fails_at_declare_rest) hu h
    · split at h
      · rename_i t hnext
        cases h
        exact ⟨[], .nil _, rfl, CompileError.points_of_place rfl ⟨t, .inr hnext, rfl⟩⟩
      · rename_i hnone
        rw [peek_zero, List.head?_eq_none_iff, unread_eq, List.map_eq_nil_iff,
          ← is_finished_iff, hf] at hnone
        cases hnone

/-! Where tokens come from -/

/-- What is read next comes from the main source or from an imported file. -/
theorem Completes.lexed {block : Block} (h : Completes w s block s')
    (hs : ∀ t ∈ s.stream.unread, t.Lexed) : ∀ t ∈ s'.stream.unread, t.Lexed := by
  have hbehind {head : Token} {taken rest : List Token}
      (hu : s.stream.unread = head :: (taken ++ rest)) :
      ∀ t ∈ (s.past (head :: taken)).stream.unread, t.Lexed := by
    rw [unread_past hu]
    rw [hu, List.forall_mem_cons, List.forall_mem_append] at hs
    exact hs.2.2
  cases h with
  | output hu => exact hbehind hu
  | imports hu _ _ _ _ hfiles =>
    rw [unread_eq, layered_splice, List.map_append, map_fst_at_depth, ← unread_eq,
      List.forall_mem_append]
    exact ⟨Surroundings.lexed_of_read_imports hfiles, hbehind hu⟩
  | define hu => exact hbehind hu
  | declare hu => exact hbehind hu

theorem Completed.lexed {blocks : List Block} (h : Completed w s blocks t)
    (hs : ∀ t ∈ s.stream.unread, t.Lexed) : ∀ x ∈ t.stream.unread, x.Lexed := by
  induction h with
  | nil s => exact hs
  | cons hblock _ ih => exact ih (hblock.lexed hs)

/-- A run that fails in the grammar or in the meaning of the source fails in a block, behind
complete ones. The error stands where a token of that block stands that was read, or the token that
is next. Such tokens come out of some source text, so the place is never the unknown one. -/
theorem errors_point_at_source {tokens : List Token} (hlexed : ∀ t ∈ tokens, t.Lexed)
    (hrun : run w (start tokens) = (.error e, s')) (hplace : e.place? = some place) :
    ∃ blocks t taken, Completed w (start tokens) blocks t ∧ step w t = (.error e, s') ∧
      ReadOff t.stream taken s'.stream ∧
      (∃ x, (x ∈ taken ∨ s'.stream.peek? 0 = some x) ∧ x.location = place ∧ x.Lexed) ∧
      place ≠ .unknown := by
  obtain ⟨blocks, t, hblocks, ⟨hok, -⟩ | ⟨e', s₁, herror, hf, hstep⟩⟩ :=
    run_completed w (start tokens)
  · cases hrun.symm.trans hok
  · cases hrun.symm.trans herror
    obtain ⟨taken, hblamed⟩ := blamed_step hf hstep
    obtain ⟨x, hx, hat⟩ := hblamed.points.place place hplace
    have hstart : ∀ t ∈ (start tokens).stream.unread, t.Lexed := by
      rwa [start, unread_eq, layered_of_tokens, map_fst_at_depth]
    have hxlexed : x.Lexed := by
      apply hblocks.lexed hstart
      rw [hblamed.unread, List.mem_append]
      refine hx.imp_right fun hnext => List.mem_of_mem_head? ?_
      rwa [peek_zero] at hnext
    exact ⟨blocks, t, taken, hblocks, hstep, hblamed.reads, ⟨x, hx, hat, hxlexed⟩,
      hat ▸ hxlexed.place_ne_unknown⟩

/-- The imported file ends in the middle of a directive, and so does the input. -/
theorem errors_point_at_source_imported :
    ∃ tokens s', Lexer.tokenize "@import \x7b \"a\" \x7d" "m" = .ok tokens ∧
      run openFile (start tokens) =
        (.error (.grammar ⟨"a", 1⟩ (.missing (.ofKind .rightBrace))), s') ∧
      ∃ blocks t taken, Completed openFile (start tokens) blocks t ∧
        ReadOff t.stream taken s'.stream ∧
        ∃ x, (x ∈ taken ∨ s'.stream.peek? 0 = some x) ∧ x.location = ⟨"a", 1⟩ := by
  have hsteps : ∃ tokens, Lexer.tokenize "@import \x7b \"a\" \x7d" "m" = .ok tokens ∧
      ∃ s, step openFile (start tokens) = (.ok (), s) ∧ s.stream.isFinished = false ∧
        ∃ s', step openFile s =
          (.error (.grammar ⟨"a", 1⟩ (.missing (.ofKind .rightBrace))), s') :=
    ⟨_, by cbv, _, by cbv, by cbv, _, by cbv⟩
  obtain ⟨tokens, htokens, s, hfirst, hf, s', hsecond⟩ := hsteps
  have hrun := (run_block (not_finished_of_step hfirst) hfirst).trans (run_failed hf hsecond)
  have hlexed : ∀ t ∈ tokens, t.Lexed := fun t ht => ⟨_, _, tokens, htokens, ht⟩
  obtain ⟨blocks, t, taken, hblocks, -, hreads, ⟨x, hx, hat, -⟩, -⟩ :=
    errors_point_at_source hlexed hrun rfl
  exact ⟨tokens, s', htokens, hrun, blocks, t, taken, hblocks, hreads, x, hx, hat⟩

end Analysis

end ResourceCompiler
