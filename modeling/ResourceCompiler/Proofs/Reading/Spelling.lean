import ResourceCompiler.Proofs.Reading.Local

/-!
What a parser makes of tokens of which only the spelling is known. Where tokens stand does not
matter to what is read, and of what follows them at most the kind of the first token does.
-/

namespace ResourceCompiler

/-- A token without its place. -/
abbrev Spelling := TokenKind × String

def Token.spelling (t : Token) : Spelling := (t.kind, t.text)

/-- The start of an assignment. -/
def assigned (key : String) : List Spelling := [(.identifier, key), (.equals, "=")]

/-- A name in parentheses. -/
def called (name : String) : List Spelling :=
  [(.leftParen, "("), (.string, name), (.rightParen, ")")]

/-- A line that a word starts and a semicolon ends. -/
def line (word : String) (body : List Spelling) : List Spelling :=
  (.identifier, word) :: (body ++ [(.semicolon, ";")])

/-- Parts with a spelling of each, in braces. -/
def block {ι : Type} (items : List (ι × List Spelling)) : List Spelling :=
  (.leftBrace, "\x7b") :: (items.flatMap Prod.snd ++ [(.rightBrace, "\x7d")])

/-- Parts that can be spelled one by one are spelled as a list. -/
theorem exists_spellings {ι : Type} {spells : ι → List Spelling → Prop} {parts : List ι}
    (h : ∀ x ∈ parts, ∃ spelled, spells x spelled) :
    ∃ items : List (ι × List Spelling), items.map Prod.fst = parts ∧
      ∀ x ∈ items, spells x.1 x.2 := by
  induction parts with
  | nil => exact ⟨[], rfl, by simp⟩
  | cons x rest ih =>
    obtain ⟨spelled, hx⟩ := h x List.mem_cons_self
    obtain ⟨items, hitems, hrest⟩ := ih fun y hy => h y (List.mem_cons_of_mem x hy)
    refine ⟨(x, spelled) :: items, by rw [List.map_cons, hitems], ?_⟩
    exact List.forall_mem_cons.mpr ⟨hx, hrest⟩

namespace Parser

variable {α β : Type}

def nextKind (tokens : List Token) : Option TokenKind := tokens.head?.map (·.kind)

/-- Whatever follows. -/
def anything : Option TokenKind → Prop := fun _ => True

/-- The parser reads just the tokens that are spelled so, if what follows them is allowed there, and
its result has a property. -/
def Reads (p : Parser α) (spelled : List Spelling) (follow : Option TokenKind → Prop)
    (result : α → Prop) : Prop :=
  ∀ (tokens rest : List Token) (last : Location), tokens.map Token.spelling = spelled →
    follow (nextKind rest) → ∃ a last', p ⟨tokens ++ rest, last⟩ = (.ok a, ⟨rest, last'⟩) ∧ result a

variable {p : Parser α} {f : α → Parser β} {spelled others : List Spelling}
  {follow follow' : Option TokenKind → Prop} {result result' : α → Prop} {wanted : β → Prop}

theorem next_kind_append {tokens rest : List Token} (h : tokens.map Token.spelling = spelled) :
    nextKind (tokens ++ rest) = (spelled.head?.map (·.1)).or (nextKind rest) := by
  subst h
  cases tokens <;> rfl

theorem Reads.mono (h : Reads p spelled follow result) (hfollow : ∀ k, follow' k → follow k)
    (hresult : ∀ a, result a → result' a) : Reads p spelled follow' result' := by
  intro tokens rest last ht hrest
  obtain ⟨a, last', hp, ha⟩ := h tokens rest last ht (hfollow _ hrest)
  exact ⟨a, last', hp, hresult a ha⟩

/-- The second part reads behind the first, which has to allow what it finds there. -/
theorem Reads.bind_before (hp : Reads p spelled follow result)
    (hf : ∀ a, result a → Reads (f a) others follow' wanted)
    (hfollow : ∀ k, follow' k → follow ((others.head?.map (·.1)).or k)) :
    Reads (p >>= f) (spelled ++ others) follow' wanted := by
  intro tokens rest last ht hrest
  obtain ⟨front, back, rfl, hfront, hback⟩ := List.map_eq_append_iff.mp ht
  have hnext : follow (nextKind (back ++ rest)) := by
    rw [next_kind_append hback]
    exact hfollow _ hrest
  obtain ⟨a, last₁, hp, ha⟩ := hp front (back ++ rest) last hfront hnext
  obtain ⟨b, last₂, hf, hb⟩ := hf a ha back rest last₁ hback hrest
  refine ⟨b, last₂, ?_, hb⟩
  rw [List.append_assoc]
  exact Attempt.bind_eq_ok.mpr ⟨a, _, hp, hf⟩

theorem Reads.bind (hp : Reads p spelled anything result)
    (hf : ∀ a, result a → Reads (f a) others follow' wanted) :
    Reads (p >>= f) (spelled ++ others) follow' wanted :=
  hp.bind_before hf fun _ _ => trivial

/-- A part that reads nothing, before something of a known kind or before what follows. -/
theorem Reads.bind_nothing (hp : Reads p [] follow result)
    (hf : ∀ a, result a → Reads (f a) others follow' wanted)
    (hfollow : ∀ k, follow' k → follow ((others.head?.map (·.1)).or k)) :
    Reads (p >>= f) others follow' wanted :=
  hp.bind_before hf hfollow

theorem reads_pure {a : α} (h : result a) : Reads (pure a) [] follow result := by
  intro tokens rest last ht _
  obtain rfl := List.map_eq_nil_iff.mp ht
  exact ⟨a, last, rfl, h⟩

/-- One token that has to be there. -/
theorem reads_token {kind : TokenKind} {text : String} {f : Token → Parser β}
    (hf : ∀ t, t.kind = kind → t.text = text → Reads (f t) others follow' wanted) :
    Reads (ensureKind kind >>= f) ((kind, text) :: others) follow' wanted := by
  have hensure : Reads (ensureKind kind) [(kind, text)] anything
      fun t => t.kind = kind ∧ t.text = text := by
    intro tokens rest last ht _
    obtain ⟨t, rfl, hspelled⟩ := List.map_eq_singleton_iff.mp ht
    obtain ⟨hkind, htext⟩ := Prod.mk.inj hspelled
    refine ⟨t, t.location, ?_, hkind, htext⟩
    simp [ensureKind, ensure, Condition.holds, Condition.ofKind, hkind]
  exact hensure.bind fun t ht => hf t ht.1 ht.2

/-- A token whose text is wanted. -/
theorem reads_text (kind : TokenKind) (text : String) :
    Reads (ensureKind kind) [(kind, text)] follow fun t => t.text = text := by
  rw [← bind_pure (ensureKind kind)]
  exact reads_token fun t _ htext => reads_pure htext

theorem reads_next {kind : TokenKind} {text : String} {f : Token → Parser β}
    (hf : ∀ t, t.kind = kind → t.text = text → Reads (f t) others follow' wanted) :
    Reads (next >>= f) ((kind, text) :: others) follow' wanted := by
  have hnext : Reads next [(kind, text)] anything fun t => t.kind = kind ∧ t.text = text := by
    intro tokens rest last ht _
    obtain ⟨t, rfl, hspelled⟩ := List.map_eq_singleton_iff.mp ht
    obtain ⟨hkind, htext⟩ := Prod.mk.inj hspelled
    exact ⟨t, t.location, rfl, hkind, htext⟩
  exact hnext.bind fun t ht => hf t ht.1 ht.2

theorem reads_peek {first : Spelling} {f : Token → Parser β}
    (hf : ∀ t, Reads (f t) (first :: others) follow' wanted) :
    Reads (peek 0 >>= f) (first :: others) follow' wanted := by
  intro tokens rest last ht hrest
  obtain ⟨t, behind, rfl, -, -⟩ := List.map_eq_cons_iff.mp ht
  obtain ⟨b, last', hp, hb⟩ := hf t (t :: behind) rest last ht hrest
  exact ⟨b, last', Attempt.bind_eq_ok.mpr ⟨t, _, rfl, hp⟩, hb⟩

theorem next_is_eq (kind : TokenKind) (c : Cursor) :
    nextIs (.ofKind kind) c = (.ok (decide (nextKind c.unread = some kind)), c) := by
  obtain ⟨unread, last⟩ := c
  cases unread with
  | nil => rfl
  | cons t rest =>
    simp [nextIs, expects, Cursor.expects, Condition.allHold, Condition.holds, Condition.ofKind,
      nextKind, Bool.beq_eq_decide_eq]

/-- A word that has to be there. -/
theorem reads_keyword {text : String} {f : Token → Parser β}
    (hf : ∀ t, Reads (f t) others follow' wanted) :
    Reads (ensure (.keyword text) >>= f) ((.identifier, text) :: others) follow' wanted := by
  have hensure : Reads (ensure (.keyword text)) [(.identifier, text)] anything fun _ => True := by
    intro tokens rest last ht _
    obtain ⟨t, rfl, hspelled⟩ := List.map_eq_singleton_iff.mp ht
    obtain ⟨hkind, htext⟩ := Prod.mk.inj hspelled
    refine ⟨t, t.location, ?_, trivial⟩
    simp [ensure, Condition.holds, Condition.keyword, Condition.exactly, hkind, htext]
  exact hensure.bind fun t _ => hf t

/-- A look at the unread tokens whose outcome their spelling settles. -/
theorem reads_look {γ : Type} {g : Cursor → γ} (found : γ) {f : γ → Parser β}
    (hf : Reads (f found) others follow' wanted)
    (hg : ∀ tokens rest last, tokens.map Token.spelling = others →
      g ⟨tokens ++ rest, last⟩ = found) :
    Reads (look g >>= f) others follow' wanted := by
  intro tokens rest last ht hk
  obtain ⟨b, last', hp, hb⟩ := hf tokens rest last ht hk
  refine ⟨b, last', Attempt.bind_eq_ok.mpr ⟨found, _, ?_, hp⟩, hb⟩
  rw [look, hg tokens rest last ht]

/-- Looking whether a token of a kind is next. -/
theorem reads_next_is (found : Bool) {kind : TokenKind} {f : Bool → Parser β}
    (hf : Reads (f found) others follow' wanted)
    (hfollow : ∀ k, follow' k → found = decide ((others.head?.map (·.1)).or k = some kind)) :
    Reads (nextIs (.ofKind kind) >>= f) others follow' wanted := by
  have hlook : Reads (nextIs (.ofKind kind)) [] (fun k => found = decide (k = some kind))
      (· = found) := by
    intro tokens rest last ht hk
    obtain rfl := List.map_eq_nil_iff.mp ht
    exact ⟨found, last, hk ▸ next_is_eq kind _, rfl⟩
  exact hlook.bind_nothing (fun a ha => ha ▸ hf) hfollow

theorem accept_found {kind : TokenKind} {t : Token} (rest : List Token) (last : Location)
    (h : t.kind = kind) :
    acceptKind kind ⟨t :: rest, last⟩ = (.ok (some t), ⟨rest, t.location⟩) := by
  simp [acceptKind, accept, Condition.holds, Condition.ofKind, h]

theorem accept_missing {kind : TokenKind} {rest : List Token} (last : Location)
    (h : nextKind rest ≠ some kind) : acceptKind kind ⟨rest, last⟩ = (.ok none, ⟨rest, last⟩) := by
  cases rest with
  | nil => rfl
  | cons t rest =>
    have hother : t.kind ≠ kind := by simpa [nextKind] using h
    simp [acceptKind, accept, Condition.holds, Condition.ofKind, hother]

/-- A token that may be there, and is. -/
theorem reads_accepted {kind : TokenKind} {text : String} {f : Option Token → Parser β}
    (hf : ∀ t, t.kind = kind → t.text = text → Reads (f (some t)) others follow' wanted) :
    Reads (acceptKind kind >>= f) ((kind, text) :: others) follow' wanted := by
  have haccept : Reads (acceptKind kind) [(kind, text)] anything
      fun found => ∃ t, found = some t ∧ t.kind = kind ∧ t.text = text := by
    intro tokens rest last ht _
    obtain ⟨t, rfl, hspelled⟩ := List.map_eq_singleton_iff.mp ht
    obtain ⟨hkind, htext⟩ := Prod.mk.inj hspelled
    exact ⟨some t, t.location, accept_found rest last hkind, t, rfl, hkind, htext⟩
  refine haccept.bind fun found ht => ?_
  obtain ⟨t, rfl, hkind, htext⟩ := ht
  exact hf t hkind htext

/-- A token that may be there, and is not. -/
theorem reads_not_accepted {kind : TokenKind} {f : Option Token → Parser β}
    (hf : Reads (f none) others follow' wanted)
    (hfollow : ∀ k, follow' k → (others.head?.map (·.1)).or k ≠ some kind) :
    Reads (acceptKind kind >>= f) others follow' wanted := by
  have haccept : Reads (acceptKind kind) [] (· ≠ some kind) (· = none) := by
    intro tokens rest last ht hk
    obtain rfl := List.map_eq_nil_iff.mp ht
    exact ⟨none, last, accept_missing last hk, rfl⟩
  exact haccept.bind_nothing (fun a ha => ha ▸ hf) hfollow

theorem reads_demand {a : α} {value : Option α} {location : Location} {fault : MeaningFault}
    {f : α → Parser β} (h : value = some a) (hf : Reads (f a) others follow' wanted) :
    Reads (demand value location fault >>= f) others follow' wanted := by
  subst h
  exact hf

theorem reads_demanded {a : α} {value : Option α} {location : Location} {fault : MeaningFault}
    (h : value = some a) : Reads (demand value location fault) [] follow (· = a) := by
  subst h
  exact reads_pure rfl

/-! Lines -/

theorem reads_end {y : β} (h : wanted y) :
    Reads (do
      let _ ← ensureKind .semicolon
      return y) [(.semicolon, ";")] follow' wanted :=
  reads_token fun _ _ _ => reads_pure h

/-- The last part of a line, in front of the semicolon. -/
theorem reads_ended {p : Parser α} {g : α → β} {result : α → Prop}
    (hp : Reads p spelled (· = some .semicolon) result) (hresult : ∀ a, result a → wanted (g a)) :
    Reads (do
      let x ← p
      let y ← pure (g x)
      let _ ← ensureKind .semicolon
      return y) (spelled ++ [(.semicolon, ";")]) follow' wanted :=
  hp.bind_before (fun a ha => reads_end (hresult a ha)) fun _ _ => rfl

/-! Blocks -/

variable {ι : Type}

/-- Items that are read one by one, wherever they stand among the others. Each one adds itself to
the state that those in front of it have made, and none begins like the closing mark. -/
structure ReadsItems (item : β → Parser β) (closing : TokenKind) (follow : Option TokenKind → Prop)
    (spelled : ι → List Spelling) (state : List ι → β → Prop) (items : List ι) : Prop where
  local_item : ∀ b, Local 1 1 (item b)
  starts : ∀ x ∈ items, ∃ kind, kind ≠ closing ∧ (spelled x).head?.map (·.1) = some kind
  reads : ∀ done x rest, items = done ++ x :: rest → ∀ b, state done b →
    Reads (item b) (spelled x) follow (state (done ++ [x]))

/-- The items with a comma between neighbours, and one behind the last where that is wanted. -/
def separated (spelled : ι → List Spelling) (trailing : Bool) : List ι → List Spelling
  | [] => []
  | x :: rest => spelled x ++
      if rest.isEmpty && !trailing then [] else (.comma, ",") :: separated spelled trailing rest

section Repetition

variable {round : β → Parser (Round β)} {b : β}

theorem reads_done (hp : ∀ b, Progresses (round b)) {wanted : β → Prop}
    (h : Reads (round b) spelled follow fun r => ∃ b', r = .done b' ∧ wanted b') :
    Reads (repeating round b) spelled follow wanted := by
  intro tokens rest last ht hrest
  obtain ⟨_, last', hround, b', rfl, hb'⟩ := h tokens rest last ht hrest
  exact ⟨b', last', (repeating_eq_ok hp).mpr (.done hround), hb'⟩

/-- A round that is not the last one, and what the others read. -/
theorem reads_again (follow : Option TokenKind → Prop) (hp : ∀ b, Progresses (round b))
    {reached wanted : β → Prop}
    (h : Reads (round b) spelled follow fun r => ∃ b', r = .again b' ∧ reached b')
    (hrest : ∀ b', reached b' → Reads (repeating round b') others follow' wanted)
    (hfollow : ∀ k, follow' k → follow ((others.head?.map (·.1)).or k)) :
    Reads (repeating round b) (spelled ++ others) follow' wanted := by
  intro tokens rest last ht hk
  obtain ⟨front, back, rfl, hfront, hback⟩ := List.map_eq_append_iff.mp ht
  have hnext : follow (nextKind (back ++ rest)) := by
    rw [next_kind_append hback]
    exact hfollow _ hk
  obtain ⟨_, last₁, hround, b₁, rfl, hb₁⟩ := h front (back ++ rest) last hfront hnext
  obtain ⟨b', last', hothers, hb'⟩ := hrest b₁ hb₁ back rest last₁ hback hk
  rw [List.append_assoc]
  exact ⟨b', last', (repeating_eq_ok hp).mpr (.again hround ((repeating_eq_ok hp).mp hothers)), hb'⟩

end Repetition

namespace ReadsItems

variable {item : β → Parser β} {closing : TokenKind} {words : ι → List Spelling}
  {state : List ι → β → Prop} {items : List ι}

/-- A round of a block. -/
def blockRound (closing : TokenKind) (more : β → Parser (Round β)) (state : β) :
    Parser (Round β) := do
  if ← nextIs (.ofKind closing) then return .done state else more state

theorem progresses_block_round {more : β → Parser (Round β)} (hmore : ∀ b, Local 1 1 (more b)) :
    ∀ b, Progresses (blockRound closing more b) :=
  fun b => (local_closing_round closing hmore b).2

/-- The rounds of a block: one for each item, and one that finds the closing mark. -/
theorem rounds (spelling : List ι → List Spelling) {more : β → Parser (Round β)}
    (hmore : ∀ b, Local 1 1 (more b)) (hnil : spelling [] = [])
    (hitem : ∀ done x rest, items = done ++ x :: rest → ∀ b, state done b →
      (∀ b', state (done ++ [x]) b' → Reads (repeating (blockRound closing more) b') (spelling rest)
        (· = some closing) (state items)) →
      Reads (repeating (blockRound closing more) b) (spelling (x :: rest)) (· = some closing)
        (state items))
    {b : β} (hb : state [] b) (text : String) :
    Reads (do
      let state ← repeating (blockRound closing more) b
      let _ ← ensureKind closing
      return state) (spelling items ++ [(closing, text)]) anything (state items) := by
  have hrounds : ∀ left done, items = done ++ left → ∀ b, state done b →
      Reads (repeating (blockRound closing more) b) (spelling left) (· = some closing)
        (state items) := by
    intro left
    induction left with
    | nil =>
      intro done hdone b hb
      rw [hnil]
      refine reads_done (progresses_block_round hmore) ?_
      refine reads_next_is true (reads_pure ⟨b, rfl, ?_⟩) fun k hk => by simp [hk]
      rwa [hdone, List.append_nil]
    | cons x left ih =>
      intro done hdone b hb
      exact hitem done x left hdone b hb fun b' hb' => ih (done ++ [x]) (by simp [hdone]) b' hb'
  exact (hrounds items [] rfl b hb).bind_before
    (fun b' hb' => reads_token fun _ _ _ => reads_pure hb') fun _ _ => rfl

/-- In front of an item the closing mark is not found. -/
theorem not_closed (h : ReadsItems item closing follow words state items) {x : ι} (hx : x ∈ items)
    (others : List Spelling) (k : Option TokenKind) :
    false = decide (((words x ++ others).head?.map (·.1)).or k = some closing) := by
  obtain ⟨kind, hkind, hhead⟩ := h.starts x hx
  rw [List.head?_append, Option.map_or, hhead]
  simp [hkind]

/-- The items of a block and the mark that closes it. Behind an item stands the next one, or the
mark. -/
theorem until_closed_before (h : ReadsItems item closing follow words state items)
    (hclosing : follow (some closing)) (hnext : ∀ x ∈ items, follow ((words x).head?.map (·.1)))
    {b : β} (hb : state [] b) (text : String) :
    Reads (untilClosed closing item b) (items.flatMap words ++ [(closing, text)]) anything
      (state items) := by
  have hmore (b : β) : Local 1 1 (do return Round.again (← item b)) :=
    (h.local_item b).bind fun _ => local_pure _
  refine rounds (·.flatMap words) hmore rfl (fun done x rest hitems b hb hrest => ?_) hb text
  have hx : x ∈ items := hitems ▸ by simp
  rw [List.flatMap_cons]
  refine reads_again follow (progresses_block_round hmore) ?_ hrest ?_
  · rw [← List.append_nil (words x)]
    refine reads_next_is false ?_ fun k _ => h.not_closed hx [] k
    exact (h.reads done x rest hitems b hb).bind_before (fun b' hb' => reads_pure ⟨b', rfl, hb'⟩)
      fun _ hk => hk
  · rintro _ rfl
    cases rest with
    | nil => exact hclosing
    | cons y rest =>
      have hy : y ∈ items := hitems ▸ by simp
      obtain ⟨kind, -, hhead⟩ := h.starts y hy
      have hfollow := hnext y hy
      rw [List.flatMap_cons, List.head?_append, Option.map_or]
      rw [hhead] at hfollow ⊢
      exact hfollow

theorem until_closed (h : ReadsItems item closing anything words state items) {b : β}
    (hb : state [] b) (text : String) :
    Reads (untilClosed closing item b) (items.flatMap words ++ [(closing, text)]) anything
      (state items) :=
  h.until_closed_before trivial (fun _ _ => trivial) hb text

theorem list_until_closed
    (h : ReadsItems item closing (fun k => k = some .comma ∨ k = some closing) words state items)
    (hcomma : closing ≠ .comma) {b : β} (hb : state [] b) (trailing : Bool) (text : String) :
    Reads (listUntilClosed closing item b) (separated words trailing items ++ [(closing, text)])
      anything (state items) := by
  have hmore := local_list_round h.local_item
  refine rounds (separated words trailing) hmore rfl
    (fun done x rest hitems b hb hrest => ?_) hb text
  have hx : x ∈ items := hitems ▸ by simp
  rw [separated]
  split
  · rename_i hlast
    obtain ⟨rfl, -⟩ : rest = [] ∧ trailing = false := by simpa using hlast
    refine reads_done (progresses_block_round hmore) ?_
    refine reads_next_is false ?_ fun k _ => h.not_closed hx [] k
    refine (h.reads done x [] hitems b hb).bind_before (fun b' hb' => ?_) fun k hk => .inr hk
    refine reads_not_accepted (reads_pure ⟨b', rfl, hitems ▸ hb'⟩) fun k hk => ?_
    simp [hk, hcomma]
  · rw [← List.singleton_append, ← List.append_assoc]
    refine reads_again anything (progresses_block_round hmore) ?_ hrest fun _ _ => trivial
    refine reads_next_is false ?_ fun k _ => h.not_closed hx [(.comma, ",")] k
    refine (h.reads done x rest hitems b hb).bind_before (fun b' hb' => ?_) fun _ _ => .inl rfl
    exact reads_accepted fun _ _ _ => reads_pure ⟨b', rfl, hb'⟩

/-- The lines of a block, each of which starts with a word. -/
theorem lines_until_closed (state : List ι → β → Prop) {spells : ι → List Spelling → Prop}
    (hlocal : ∀ b, Local 1 1 (item b))
    (hword : ∀ x spelled, spells x spelled → spelled.head?.map (·.1) = some .identifier)
    {items : List (ι × List Spelling)} (hspelled : ∀ x ∈ items, spells x.1 x.2)
    (hitem : ∀ done x rest, items.map Prod.fst = done ++ x :: rest → ∀ spelled, spells x spelled →
      ∀ b, state done b → Reads (item b) spelled anything (state (done ++ [x])))
    {b : β} (hb : state [] b) (text : String) :
    Reads (untilClosed .rightBrace item b) (items.flatMap Prod.snd ++ [(.rightBrace, text)])
      anything (state (items.map Prod.fst)) := by
  have hreads : ReadsItems item .rightBrace anything Prod.snd
      (fun done => state (done.map Prod.fst)) items := by
    refine ⟨hlocal, fun x hx => ⟨_, by decide, hword _ _ (hspelled x hx)⟩, ?_⟩
    intro done x rest hsplit b hdone
    rw [List.map_append]
    exact hitem (done.map Prod.fst) x.1 (rest.map Prod.fst) (by rw [hsplit, List.map_append]; rfl)
      x.2 (hspelled x (by simp [hsplit])) b hdone
  exact hreads.until_closed hb text

end ReadsItems

end Parser

end ResourceCompiler
