import ResourceCompiler.Analysis.Run
import ResourceCompiler.Proofs.Analysis.Parts
import ResourceCompiler.Proofs.Source.Layers

/-!
What a step may do to the stream. Every step reads tokens from its front; only an import whose
files could all be read does more, and that is its last act.
-/

namespace ResourceCompiler

open TokenStream

namespace TokenStream

/-- So many tokens were read between two states of a stream. -/
def Reads (before : TokenStream) (count : Nat) (after : TokenStream) : Prop :=
  count ≤ before.layered.length ∧ after = before.advance count

theorem advance_advance (s : TokenStream) (first second : Nat) :
    (s.advance first).advance second = s.advance (first + second) := by
  induction first generalizing s with
  | zero => rw [Nat.zero_add, advance]
  | succ first ih => rw [Nat.succ_add, advance, ih, advance]

theorem reads_nothing (s : TokenStream) : Reads s 0 s := ⟨Nat.zero_le _, rfl⟩

theorem Reads.trans {a b c : TokenStream} {m n : Nat} (h : Reads a m b) (h' : Reads b n c) :
    Reads a (m + n) c := by
  obtain ⟨hm, rfl⟩ := h
  obtain ⟨hn, rfl⟩ := h'
  rw [layered_advance, List.length_drop] at hn
  exact ⟨by omega, advance_advance a m n⟩

/-- Behind a token that was read the stream has the depth of that token, and names its place. -/
theorem Reads.last_read {before after : TokenStream} {count : Nat} (h : Reads before count after)
    (hc : 0 < count) : ∃ taken t,
      before.layered = taken ++ (t, after.depth) :: after.layered ∧ after.last = t.location := by
  obtain ⟨hle, rfl⟩ := h
  have hne : before.layered.take count ≠ [] := by
    rw [← List.length_pos_iff, List.length_take]
    omega
  obtain ⟨taken, ⟨t, level⟩, htake⟩ := List.eq_nil_or_concat _ |>.resolve_left hne
  have hlast := last_advance before count
  rw [htake, List.concat_eq_append, List.getLast?_concat] at hlast
  obtain ⟨hl, hd⟩ := Prod.mk.inj hlast
  refine ⟨taken, t, ?_, hl⟩
  calc before.layered
      = before.layered.take count ++ before.layered.drop count :=
        (List.take_append_drop count _).symm
    _ = taken ++ (t, (before.advance count).depth) :: (before.advance count).layered := by
        rw [htake, hd, layered_advance, List.concat_eq_append, List.append_assoc,
          List.singleton_append]

end TokenStream

namespace Analysis

/-- The work reads tokens and leaves the stream alone otherwise. -/
def OnlyReads {α : Type} (a : Attempt Analysis α) : Prop :=
  ∀ s, ∃ count, Reads s.stream count (a s).2.stream

theorem only_reads_parse {α : Type} (p : Parser α) : OnlyReads (parse p) := by
  refine fun s => ⟨_, ?_, rfl⟩
  rw [unread_eq, List.length_map]
  exact Nat.sub_le ..

theorem reads_of_parse {α : Type} {p : Parser α} {r : Except CompileError α} {s s' : Analysis}
    (h : parse p s = (r, s')) : ∃ count, Reads s.stream count s'.stream := by
  have hr := only_reads_parse p s
  rwa [h] at hr

theorem only_reads_bind {α β : Type} {a : Attempt Analysis α} {f : α → Attempt Analysis β}
    (ha : OnlyReads a) (hf : ∀ x, OnlyReads (f x)) : OnlyReads (a >>= f) := by
  intro s
  obtain ⟨m, hm⟩ := ha s
  rw [Attempt.bind_apply]
  rcases hr : a s with ⟨_ | x, s'⟩
  · rw [hr] at hm
    exact ⟨m, hm⟩
  · rw [hr] at hm
    obtain ⟨n, hn⟩ := hf x s'
    exact ⟨m + n, hm.trans hn⟩

theorem only_reads_modify {f : Analysis → Analysis} (hf : ∀ s, (f s).stream = s.stream) :
    OnlyReads (Attempt.modify f) := by
  refine fun s => ⟨0, ?_⟩
  rw [Attempt.modify_apply, hf]
  exact reads_nothing _

theorem only_reads : PartWise OnlyReads where
  fail _ _ := ⟨0, reads_nothing _⟩
  succeed _ _ := ⟨0, reads_nothing _⟩
  bind := only_reads_bind
  registry hg s := hg s.registry s
  parse _ := only_reads_parse _
  print _ := only_reads_modify fun _ => rfl
  register _ := only_reads_modify fun _ => rfl
  collect _ := only_reads_modify fun _ => rfl

/-- The next block of `s` is an import directive. All the files that it names could be read, and
hold `tokens`; `behind` is the state with the directive read. -/
inductive Importing (w : Surroundings) (s : Analysis) : (behind : Analysis) → List Token → Prop
  | intro {head : Token} {requested tokens : List Token} {s₀ behind : Analysis}
      (starts : s.startsDirective = true)
      (reads_head : parse (Parser.ensureKind .directive) s = (.ok head, s₀))
      (names_import : head.text = "import")
      (reads_arguments : parse arguments s₀ = (.ok requested, behind))
      (nonempty : requested ≠ [])
      (reads_files : w.readImports requested = .ok tokens) : Importing w s behind tokens

/-- Behind an import only its tokens are left to be put in. -/
theorem Importing.step_eq {w : Surroundings} {s behind : Analysis} {tokens : List Token}
    (h : Importing w s behind tokens) : step w s = insertTokens tokens behind := by
  obtain ⟨hs, hh, hi, ha, hne, hr⟩ := h
  have hne' := List.isEmpty_eq_false_iff.mpr hne
  rw [step, if_pos hs, directive, Attempt.bind_ok hh, runDirective, if_neg (by simp [hi]),
    if_pos hi, importFiles, Attempt.bind_ok ha, hne', if_neg Bool.false_ne_true, hr,
    Attempt.lift_ok, Attempt.bind_ok (Attempt.succeed_apply _ _)]

/-- What becomes of imported tokens. -/
theorem insert_tokens_cases (tokens : List Token) (s : Analysis) :
    (s.stream.depth < depthLimit ∧
      insertTokens tokens s = (.ok (), { s with stream := s.stream.splice tokens })) ∨
    (depthLimit ≤ s.stream.depth ∧ insertTokens tokens s =
      (.error (.meaning s.stream.last (.importsTooDeep depthLimit)), s)) := by
  unfold insertTokens
  split
  · rename_i h
    exact .inl ⟨h, rfl⟩
  · rename_i h
    exact .inr ⟨Nat.le_of_not_lt h, rfl⟩

/-- An import reads at least its head. -/
theorem Importing.reads {w : Surroundings} {s behind : Analysis} {tokens : List Token}
    (h : Importing w s behind tokens) :
    ∃ count, 0 < count ∧ Reads s.stream count behind.stream := by
  obtain ⟨-, hh, -, ha, -, -⟩ := h
  obtain ⟨m, hm⟩ := reads_of_parse hh
  obtain ⟨n, hn⟩ := reads_of_parse ha
  refine ⟨m + n, ?_, hm.trans hn⟩
  have hpos : m ≠ 0 := by
    rintro rfl
    have hfall := (progressed_ensure hh).countFall
    rw [hm.2, advance] at hfall
    exact Nat.lt_irrefl _ hfall
  omega

/-- An import that is not ready to put tokens in only reads. -/
theorem import_only_reads {w : Surroundings} {head : Token} {s : Analysis}
    (h : ∀ behind requested tokens, parse arguments s = (.ok requested, behind) →
      requested ≠ [] → w.readImports requested ≠ .ok tokens) :
    ∃ count, Reads s.stream count (importFiles w head s).2.stream := by
  unfold importFiles
  rw [Attempt.bind_apply]
  rcases ha : parse arguments s with ⟨_ | requested, behind⟩
  · exact reads_of_parse ha
  · obtain ⟨n, hn⟩ := reads_of_parse ha
    refine ⟨n, ?_⟩
    dsimp only
    split
    · exact hn
    · rename_i hne
      cases hr : w.readImports requested with
      | error e => exact hn
      | ok tokens => exact absurd hr (h behind requested tokens ha (by simpa using hne))

/-- Every other step only reads. -/
theorem step_only_reads {w : Surroundings} {s : Analysis}
    (h : ∀ behind tokens, ¬ Importing w s behind tokens) :
    ∃ count, Reads s.stream count (step w s).2.stream := by
  unfold step
  split
  · rename_i hs
    unfold directive
    rw [Attempt.bind_apply]
    rcases hh : parse (Parser.ensureKind .directive) s with ⟨_ | head, s₀⟩
    · exact reads_of_parse hh
    · obtain ⟨m, hm⟩ := reads_of_parse hh
      suffices hn : ∃ n, Reads s₀.stream n (runDirective w head s₀).2.stream by
        obtain ⟨n, hn⟩ := hn
        exact ⟨m + n, hm.trans hn⟩
      unfold runDirective
      split
      · exact only_reads.output s₀
      · split
        · rename_i hi
          exact import_only_reads fun behind requested tokens ha hne hr =>
            h behind tokens (.intro hs hh hi ha hne hr)
        · split
          · exact only_reads.define head s₀
          · exact only_reads.fail _ s₀
  · split
    · exact only_reads.declare s
    · split <;> exact ⟨0, reads_nothing _⟩

/-! A run, block by block -/

theorem run_finished {w : Surroundings} {s : Analysis} (h : s.stream.isFinished = true) :
    run w s = (.ok (), s) := by
  rw [run, if_pos h]

theorem run_block {w : Surroundings} {s s' : Analysis} (hf : s.stream.isFinished = false)
    (h : step w s = (.ok (), s')) : run w s = run w s' := by
  rw [run, if_neg (by simp [hf])]
  split
  · rename_i hs
    rw [(Prod.mk.inj (hs.symm.trans h)).2]
  · rename_i hs
    cases hs.symm.trans h

theorem run_failed {w : Surroundings} {s s' : Analysis} {e : CompileError}
    (hf : s.stream.isFinished = false) (h : step w s = (.error e, s')) :
    run w s = (.error e, s') := by
  rw [run, if_neg (by simp [hf])]
  split
  · rename_i hs
    cases hs.symm.trans h
  · rename_i hs
    exact hs.symm.trans h

end Analysis

end ResourceCompiler
