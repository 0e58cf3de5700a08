import ResourceCompiler.Proofs.Analysis.Steps
import ResourceCompiler.Proofs.Reading.Nesting

/-!
What an analysis makes of the tokens in front does not depend on those behind them. If it comes to
some tokens of the main file between two blocks, it comes to any others in their place as well, and
in the same state.
-/

namespace ResourceCompiler

open TokenStream

namespace Analysis

/-- Two states that differ in nothing but the tokens at the end. -/
structure SameFront (rest other : List (Token × Nat)) (s s' : Analysis) : Prop where
  layered : ∃ front, s.stream.layered = front ++ rest ∧ s'.stream.layered = front ++ other
  last : s'.stream.last = s.stream.last
  depth : s'.stream.depth = s.stream.depth
  registry : s'.registry = s.registry
  instances : s'.instances = s.instances
  messages : s'.messages = s.messages
  diagnostics : s'.diagnostics = s.diagnostics

variable {rest other : List (Token × Nat)} {α β : Type}

/-- Work that succeeds without reading any of the tokens at the end succeeds with others there, too,
and does the same. -/
def Carries (rest other : List (Token × Nat)) (a : Attempt Analysis α) : Prop :=
  ∀ s x t, a s = (.ok x, t) → rest <:+ t.stream.layered → rest <:+ s.stream.layered ∧
    ∀ s', SameFront rest other s s' → ∃ t', a s' = (.ok x, t') ∧ SameFront rest other t t'

theorem Carries.bind {a : Attempt Analysis α} {f : α → Attempt Analysis β}
    (ha : Carries rest other a) (hf : ∀ x, Carries rest other (f x)) :
    Carries rest other (a >>= f) := by
  intro s y t h ht
  obtain ⟨x, s₁, h₁, h₂⟩ := Attempt.bind_eq_ok.mp h
  obtain ⟨hrest₁, hcarry₂⟩ := hf x s₁ y t h₂ ht
  obtain ⟨hrest, hcarry₁⟩ := ha s x s₁ h₁ hrest₁
  refine ⟨hrest, fun s' hs => ?_⟩
  obtain ⟨s₁', h₁', hs₁⟩ := hcarry₁ s' hs
  obtain ⟨t', h₂', ht'⟩ := hcarry₂ s₁' hs₁
  exact ⟨t', Attempt.bind_eq_ok.mpr ⟨x, s₁', h₁', h₂'⟩, ht'⟩

/-- Work that looks at the registry only. -/
theorem carries_registry {g : Registry → Attempt Analysis α} (hg : ∀ r, Carries rest other (g r)) :
    Carries rest other (Attempt.get >>= fun a => g a.registry) := by
  intro s x t h ht
  obtain ⟨hrest, hcarry⟩ := hg s.registry s x t h ht
  refine ⟨hrest, fun s' hs => ?_⟩
  obtain ⟨t', h', ht'⟩ := hcarry s' hs
  rw [← hs.registry] at h'
  exact ⟨t', h', ht'⟩

theorem carries_modify {f : Analysis → Analysis} (hf : ∀ s, (f s).stream = s.stream)
    (hsame : ∀ s s', SameFront rest other s s' → SameFront rest other (f s) (f s')) :
    Carries rest other (Attempt.modify f) := by
  intro s x t h ht
  cases h
  rw [hf] at ht
  exact ⟨ht, fun s' hs => ⟨f s', rfl, hsame s s' hs⟩⟩

/-! Reading -/

/-- However a parser ends, the stream is behind the tokens that it has read. -/
theorem parse_of_reads {p : Parser α} {s : Analysis} {result : Except CompileError α}
    {taken unread : List Token} {last : Location} (hu : s.stream.unread = taken ++ unread)
    (h : p s.cursor = (result, ⟨unread, last⟩)) :
    parse p s = (result, { s with stream := s.stream.advance taken.length }) := by
  have hcount : s.stream.unread.length - unread.length = taken.length := by
    rw [hu, List.length_append]
    omega
  simp only [cursor] at h
  simp only [parse, TokenStream.parse, h, hcount]

/-- A parser that succeeds takes some tokens off the stream. -/
theorem parse_ok {n a : Nat} {p : Parser α} (hp : Parser.Local n a p) {s t : Analysis} {x : α}
    (h : parse p s = (.ok x, t)) : ∃ taken last,
      s.stream.layered = taken ++ t.stream.layered ∧ n ≤ taken.length ∧
      t = { s with stream := s.stream.advance taken.length } ∧
      p s.cursor = (.ok x, ⟨t.stream.unread, last⟩) := by
  rcases hc : p s.cursor with ⟨_ | y, c⟩
  · simp only [cursor] at hc
    simp [parse, TokenStream.parse, hc] at h
  · obtain ⟨read, hu, hn⟩ := hp.reads hc
    have ht := (parse_of_reads hu hc).symm.trans h
    simp only [Prod.mk.injEq, Except.ok.injEq] at ht
    obtain ⟨rfl, rfl⟩ := ht
    have hsplit := List.take_append_drop read.length s.stream.layered
    have hlen : (s.stream.layered.take read.length).length = read.length := by
      have hle := congrArg List.length hu
      rw [cursor, unread_eq, List.length_map, List.length_append] at hle
      rw [List.length_take]
      omega
    refine ⟨s.stream.layered.take read.length, c.last, ?_, by omega, by rw [hlen], ?_⟩
    · rw [layered_advance]
      exact hsplit.symm
    · have hleft : (s.stream.advance read.length).unread = c.unread := by
        rw [unread_advance]
        exact (congrArg (List.drop read.length) hu).trans List.drop_left
      rw [hleft]

/-- Reading keeps the likeness of two states as long as it stays in front. -/
theorem SameFront.advance {s s' : Analysis} (hs : SameFront rest other s s')
    {taken behind : List (Token × Nat)} (h : s.stream.layered = taken ++ (behind ++ rest))
    (h' : s'.stream.layered = taken ++ (behind ++ other)) :
    SameFront rest other { s with stream := s.stream.advance taken.length }
      { s' with stream := s'.stream.advance taken.length } := by
  have hlast : ((s'.stream.advance taken.length).last, (s'.stream.advance taken.length).depth) =
      ((s.stream.advance taken.length).last, (s.stream.advance taken.length).depth) := by
    rw [last_advance, last_advance, h, h', List.take_left, List.take_left, hs.last, hs.depth]
  exact
    { layered := ⟨behind, by rw [layered_advance, h, List.drop_left],
        by rw [layered_advance, h', List.drop_left]⟩
      last := congrArg Prod.fst hlast
      depth := congrArg Prod.snd hlast
      registry := hs.registry
      instances := hs.instances
      messages := hs.messages
      diagnostics := hs.diagnostics }

theorem carries_parse {n : Nat} {p : Parser α} (hp : Parser.Local n 0 p) :
    Carries rest other (parse p) := by
  intro s x t h ht
  obtain ⟨taken, last, hlayered, -, rfl, hc⟩ := parse_ok hp h
  obtain ⟨behind, hbehind⟩ := ht
  rw [← hbehind] at hlayered
  refine ⟨⟨taken ++ behind, by rw [hlayered, List.append_assoc]⟩, fun s' hs => ?_⟩
  obtain ⟨front, hfront, hother⟩ := hs.layered
  obtain rfl : front = taken ++ behind := by
    rw [hlayered, ← List.append_assoc] at hfront
    exact (List.append_cancel_right hfront).symm
  rw [List.append_assoc] at hother
  have hread : p ⟨(taken ++ behind).map Prod.fst ++ rest.map Prod.fst, s.stream.last⟩ =
      (.ok x, ⟨behind.map Prod.fst ++ rest.map Prod.fst, last⟩) := by
    rw [cursor, unread_eq, unread_eq, hfront, ← hbehind] at hc
    simpa only [List.map_append] using hc
  have hread' := hp.carries hread (Nat.zero_le _) (other.map Prod.fst)
  have hu : s'.stream.unread =
      taken.map Prod.fst ++ (behind.map Prod.fst ++ other.map Prod.fst) := by
    rw [unread_eq, hother, List.map_append, List.map_append]
  have hc' : p s'.cursor = (.ok x, ⟨behind.map Prod.fst ++ other.map Prod.fst, last⟩) := by
    rw [cursor, hu, hs.last, ← hread', List.map_append, List.append_assoc]
  refine ⟨_, parse_of_reads hu hc', ?_⟩
  rw [List.length_map]
  exact hs.advance hlayered hother

/-! Imports -/

/-- The tokens of the main file are not among those that are put in. -/
theorem suffix_of_splice {rest : List Token} {depth : Nat} {tokens : List Token}
    {layered : List (Token × Nat)}
    (h : atDepth 0 rest <:+ atDepth (depth + 1) tokens ++ layered) :
    atDepth 0 rest <:+ layered := by
  rcases List.suffix_or_suffix_of_suffix h (List.suffix_append _ layered) with hle | ⟨more, hmore⟩
  · exact hle
  · cases more with
    | nil => exact ⟨[], hmore.symm⟩
    | cons p more =>
      obtain ⟨before, hbefore⟩ := h
      rw [← hmore, ← List.append_assoc] at hbefore
      have hin : p ∈ atDepth (depth + 1) tokens := by
        rw [← List.append_cancel_right hbefore]
        simp
      have hrest : p ∈ atDepth 0 rest := by
        rw [← hmore]
        simp
      obtain ⟨_, -, rfl⟩ := List.mem_map.mp hin
      simp [atDepth] at hrest

theorem carries_insert_tokens {rest : List Token} (tokens : List Token) :
    Carries (atDepth 0 rest) other (insertTokens tokens) := by
  intro s x t h ht
  unfold insertTokens at h
  split at h
  · rename_i hd
    cases h
    dsimp only at ht
    rw [layered_splice] at ht
    refine ⟨suffix_of_splice ht, fun s' hs => ?_⟩
    refine ⟨{ s' with stream := s'.stream.splice tokens }, ?_, ?_⟩
    · rw [insertTokens, hs.depth, if_pos hd]
    · obtain ⟨front, hfront, hother⟩ := hs.layered
      exact
        { layered := ⟨atDepth (s.stream.depth + 1) tokens ++ front,
            by rw [layered_splice, hfront, List.append_assoc],
            by rw [layered_splice, hother, hs.depth, List.append_assoc]⟩
          last := hs.last
          depth := hs.depth
          registry := hs.registry
          instances := hs.instances
          messages := hs.messages
          diagnostics := hs.diagnostics }
  · cases h

theorem carries : PartWise (Carries rest other) where
  fail e s x t h := by cases h
  succeed x s y t h ht := by
    cases h
    exact ⟨ht, fun s' hs => ⟨s', rfl, hs⟩⟩
  bind := Carries.bind
  registry := carries_registry
  parse := carries_parse
  print tokens := carries_modify (fun _ => rfl) fun s s' hs =>
    { hs with
      messages := by rw [print, print, hs.messages]
      diagnostics := by rw [print, print, hs.diagnostics] }
  register _ := carries_modify (fun _ => rfl) fun _ _ hs => { hs with registry := rfl }
  collect _ := carries_modify (fun _ => rfl) fun _ _ hs =>
    { hs with instances := by rw [hs.instances] }

/-! Blocks -/

/-- The first tokens are the same if enough of them lie in front. -/
theorem SameFront.expects {s s' : Analysis} (hs : SameFront rest other s s')
    {taken behind : List (Token × Nat)} (h : s.stream.layered = taken ++ (behind ++ rest))
    (conditions : List Condition) (hlen : conditions.length ≤ taken.length) :
    s'.cursor.expects conditions = s.cursor.expects conditions := by
  obtain ⟨front, hfront, hother⟩ := hs.layered
  obtain rfl : front = taken ++ behind := by
    rw [h, ← List.append_assoc] at hfront
    exact (List.append_cancel_right hfront).symm
  simp only [Cursor.expects, cursor, unread_eq, hfront, hother, List.map_append, List.append_assoc]
  exact Parser.all_hold_append _ _ (by rwa [List.length_map])

/-- A directive was there if one was read. -/
theorem directive_reads {rest : List Token} {w : Surroundings} {s t : Analysis}
    (h : directive w s = (.ok (), t)) (ht : atDepth 0 rest <:+ t.stream.layered) :
    ∃ taken behind, s.stream.layered = taken ++ (behind ++ atDepth 0 rest) ∧ 1 ≤ taken.length := by
  obtain ⟨head, s₁, h₁, h₂⟩ := Attempt.bind_eq_ok.mp h
  have hkeep : Carries (atDepth 0 rest) [] (runDirective w head) :=
    carries.runDirective carries_insert_tokens w head
  obtain ⟨behind, hbehind⟩ := (hkeep s₁ () t h₂ ht).1
  obtain ⟨taken, _, hlayered, hn, -⟩ := parse_ok (Parser.local_ensure _) h₁
  exact ⟨taken, behind, by rw [hlayered, hbehind], hn⟩

/-- A declaration has at least its opening. -/
theorem declare_reads {s t : Analysis} (h : declare s = (.ok (), t))
    (ht : rest <:+ t.stream.layered) :
    ∃ taken behind, s.stream.layered = taken ++ (behind ++ rest) ∧ 3 ≤ taken.length := by
  obtain ⟨trees, s₂, h₂, hmodify⟩ := Attempt.bind_eq_ok.mp h
  obtain ⟨head, s₁, h₁, hbody⟩ := Attempt.bind_eq_ok.mp h₂
  obtain ⟨taken₁, _, hlayered₁, hn₁, -⟩ := parse_ok (Parser.local_ensure _) h₁
  obtain ⟨taken₂, _, hlayered₂, hn₂, -⟩ := parse_ok Declaration.local_body hbody
  cases hmodify
  obtain ⟨behind, hbehind⟩ := ht
  refine ⟨taken₁ ++ taken₂, behind, by rw [hlayered₁, hlayered₂, hbehind, List.append_assoc], ?_⟩
  rw [List.length_append]
  omega

theorem carries_step {rest : List Token} (w : Surroundings) :
    Carries (atDepth 0 rest) other (step w) := by
  intro s x t h ht
  unfold step at h
  split at h
  · rename_i hd
    obtain ⟨taken, behind, hlayered, hlen⟩ := directive_reads h ht
    obtain ⟨hrest, hcarry⟩ := carries.directive carries_insert_tokens w s x t h ht
    refine ⟨hrest, fun s' hs => ?_⟩
    obtain ⟨t', h', ht'⟩ := hcarry s' hs
    have hd' : s'.startsDirective = true := (hs.expects hlayered [_] hlen).trans hd
    exact ⟨t', by rw [step, if_pos hd', h'], ht'⟩
  · rename_i hd
    split at h
    · rename_i hb
      obtain ⟨taken, behind, hlayered, hlen⟩ := declare_reads h ht
      obtain ⟨hrest, hcarry⟩ := carries.declare s x t h ht
      refine ⟨hrest, fun s' hs => ?_⟩
      obtain ⟨t', h', ht'⟩ := hcarry s' hs
      have hd' : ¬ s'.startsDirective = true := by
        rw [startsDirective, hs.expects hlayered _ (Nat.le_trans (by decide) hlen)]
        exact hd
      have hb' : s'.startsDeclaration = true :=
        (hs.expects hlayered Declaration.opening hlen).trans hb
      exact ⟨t', by rw [step, if_neg hd', if_pos hb', h'], ht'⟩
    · split at h <;> cases h

/-- Blocks are read one after the other without an error. -/
inductive Leads (w : Surroundings) : Analysis → Analysis → Prop
  | refl (s : Analysis) : Leads w s s
  | block {s s₁ t : Analysis} : step w s = (.ok (), s₁) → Leads w s₁ t → Leads w s t

theorem Leads.next {w : Surroundings} {s t : Analysis} (h : Leads w s t)
    (ht : (step w t).1 = .ok ()) : Leads w s (step w t).2 := by
  induction h with
  | refl s => exact .block (Prod.ext ht rfl) (.refl _)
  | block hstep _ ih => exact .block hstep (ih ht)

/-- If blocks lead to tokens of the main file, they lead to others in their place as well. -/
theorem Leads.carries {rest : List Token} {w : Surroundings} {s t : Analysis} (h : Leads w s t)
    (ht : atDepth 0 rest <:+ t.stream.layered) : atDepth 0 rest <:+ s.stream.layered ∧
      ∀ s', SameFront (atDepth 0 rest) other s s' →
        ∃ t', Leads w s' t' ∧ SameFront (atDepth 0 rest) other t t' := by
  induction h with
  | refl s => exact ⟨ht, fun s' hs => ⟨s', .refl s', hs⟩⟩
  | block hstep _ ih =>
    obtain ⟨hrest₁, hcarry₁⟩ := ih ht
    obtain ⟨hrest, hcarry⟩ := carries_step w _ _ _ hstep hrest₁
    refine ⟨hrest, fun s' hs => ?_⟩
    obtain ⟨s₁', hstep', hs₁⟩ := hcarry s' hs
    obtain ⟨t', hleads, ht'⟩ := hcarry₁ s₁' hs₁
    exact ⟨t', .block hstep' hleads, ht'⟩

/-- At the end of the input there is no block. -/
theorem not_finished_of_step {w : Surroundings} {s t : Analysis} (h : step w s = (.ok (), t)) :
    s.stream.isFinished = false := by
  refine Bool.eq_false_iff.mpr fun hf => ?_
  have hu : s.stream.unread = [] := by
    rw [unread_eq, (is_finished_iff _).mp hf, List.map_nil]
  have hd : s.startsDirective = false := by
    simp [startsDirective, cursor, Cursor.expects, hu, Condition.allHold]
  have hb : s.startsDeclaration = false := by
    simp [startsDeclaration, cursor, Cursor.expects, hu, Declaration.opening, Condition.allHold]
  simp [step, hd, hb, peek_zero, hu] at h

theorem Leads.run_eq {w : Surroundings} {s t : Analysis} (h : Leads w s t) : run w s = run w t := by
  induction h with
  | refl s => rfl
  | block hstep _ ih => rw [run_block (not_finished_of_step hstep) hstep, ih]

end Analysis

end ResourceCompiler
