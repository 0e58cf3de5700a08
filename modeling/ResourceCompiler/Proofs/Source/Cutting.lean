import ResourceCompiler.Proofs.Source.Lexemes

/-!
A source text cut into gaps and tokens. There is at most one way to cut a text to its end, and the
lexer finds it. Where there is none, the lexer stops at the place where every attempt stops.
-/

namespace ResourceCompiler.Lexer

/-- Whether nothing but white space stands in front of a place on its line. -/
def OpensLine (before : List Char) : Prop :=
  ∀ c ∈ before.reverse.takeWhile (· != '\n'), isBlank c = true

/-- What can stand between two tokens, or around them: white space, ends of lines, and comments,
which start with the first visible character of a line and leave the end of the line over. -/
inductive Gap : (before : List Char) → List Char → Prop
  | nil {before : List Char} : Gap before []
  | space {before gap : List Char} {c : Char} : ¬ Visible c → Gap (before ++ [c]) gap →
      Gap before (c :: gap)
  | comment {before comment gap : List Char} : OpensLine before → '\n' ∉ comment →
      Gap (before ++ ';' :: comment) ('\n' :: gap) → Gap before (';' :: comment ++ '\n' :: gap)

/-- A token at a place, and no longer one stands there. A semicolon that could start a comment is
none. -/
structure Stands (before following : List Char) (kind : TokenKind) (text : List Char) : Prop where
  token : IsToken kind text
  stands : written kind text <+: following
  longest : ∀ kind' text', IsToken kind' text' → written kind' text' <+: following →
    (written kind' text').length ≤ (written kind text).length
  no_comment : kind = .semicolon → ¬ OpensLine before

/-- A token and the gap behind it. -/
structure Part where
  kind : TokenKind
  text : List Char
  gap : List Char

def Part.source (p : Part) : List Char := written p.kind p.text

/-- The text behind `before` is cut into a gap, then tokens with a gap behind each, then a rest. -/
def Cut (before source gap : List Char) : List Part → (rest : List Char) → Prop
  | [], rest => Gap before gap ∧ source = gap ++ rest
  | p :: parts, rest => Gap before gap ∧ ∃ following, source = gap ++ (p.source ++ following) ∧
      Stands (before ++ gap) (p.source ++ following) p.kind p.text ∧
      Cut (before ++ gap ++ p.source) following p.gap parts rest

/-- The tokens of a text that is cut, each with the line on which it starts. -/
def tokensOf (file : String) (before gap : List Char) : List Part → List Token
  | [] => []
  | p :: parts =>
    ⟨p.kind, String.ofList p.text, ⟨file, 1 + (before ++ gap).count '\n'⟩⟩ ::
      tokensOf file (before ++ gap ++ p.source) p.gap parts

/-- The text that is cut, up to the rest. -/
def covered (gap : List Char) (parts : List Part) : List Char :=
  gap ++ parts.flatMap fun p => p.source ++ p.gap

/-- Neither a gap nor a token starts here. -/
def Stuck (rest : List Char) : Prop :=
  (∃ c ∈ rest.head?, Visible c) ∧ ∀ kind text, IsToken kind text → ¬ written kind text <+: rest

variable {before front source gap gap' rest rest' : List Char} {parts parts' : List Part}

theorem Cut.source_eq (h : Cut before source gap parts rest) :
    source = covered gap parts ++ rest := by
  induction parts generalizing before source gap with
  | nil => simpa [covered] using h.2
  | cons p parts ih =>
    obtain ⟨-, following, rfl, -, hrest⟩ := h
    rw [ih hrest]
    simp [covered]

/-! The start of a line -/

theorem opens_line_append_newline (before : List Char) : OpensLine (before ++ ['\n']) := by
  simp [OpensLine]

theorem opens_line_append_blank {c : Char} (h : isBlank c = true) :
    OpensLine (before ++ [c]) ↔ OpensLine before := by
  have hc : c ≠ '\n' := by
    rintro rfl
    cases h
  simp [OpensLine, hc, h]

theorem not_opens_line_append {c : Char} (h : Visible c) : ¬ OpensLine (before ++ [c]) := by
  have hc : (c != '\n') = true := bne_iff_ne.mpr h.2
  simp [OpensLine, hc, h.1]

/-! Uniqueness -/

/-- No gap goes on here. -/
def NoGap (before : List Char) (rest : List Char) : Prop :=
  ∀ c ∈ rest.head?, Visible c ∧ (c = ';' → ¬ OpensLine before)

theorem comment_unique {comment comment' : List Char} (h : '\n' ∉ comment) (h' : '\n' ∉ comment')
    (heq : comment ++ '\n' :: rest = comment' ++ '\n' :: rest') : comment = comment' := by
  have hline {text : List Char} (ht : '\n' ∉ text) (rest : List Char) :
      (text ++ '\n' :: rest).takeWhile (· != '\n') = text := by
    have hall : ∀ c ∈ text, (c != '\n') = true :=
      fun c hc => bne_iff_ne.mpr fun he => ht (he ▸ hc)
    simp [List.takeWhile_append_of_pos hall]
  rw [← hline h rest, heq, hline h' rest']

/-- Gaps that do not go on are the same. -/
theorem gap_unique (h : Gap before gap) (h' : Gap before gap') (hrest : NoGap (before ++ gap) rest)
    (hrest' : NoGap (before ++ gap') rest') (heq : gap ++ rest = gap' ++ rest') : gap = gap' := by
  have hsemicolon : Visible ';' := ⟨rfl, by decide⟩
  induction h generalizing gap' with
  | nil =>
    rw [List.append_nil] at hrest
    rw [List.nil_append] at heq
    subst heq
    cases h' with
    | nil => rfl
    | space hc _ => exact absurd (hrest _ rfl).1 hc
    | comment ho _ _ => exact absurd ho ((hrest _ rfl).2 rfl)
  | space hc _ ih =>
    cases h' with
    | nil =>
      rw [List.append_nil] at hrest'
      rw [List.nil_append] at heq
      subst heq
      exact absurd (hrest' _ rfl).1 hc
    | space _ hgap' =>
      obtain ⟨rfl, htail⟩ := List.cons.inj heq
      rw [List.append_cons] at hrest hrest'
      rw [ih hgap' hrest hrest' htail]
    | comment =>
      obtain ⟨rfl, -⟩ := List.cons.inj heq
      exact absurd hsemicolon hc
  | comment ho hn _ ih =>
    cases h' with
    | nil =>
      rw [List.append_nil] at hrest'
      rw [List.nil_append] at heq
      subst heq
      exact absurd ho ((hrest' _ rfl).2 rfl)
    | space hc _ =>
      obtain ⟨rfl, -⟩ := List.cons.inj heq
      exact absurd hsemicolon hc
    | comment _ hn' hgap' =>
      simp only [List.cons_append, List.append_assoc, List.cons.injEq, true_and] at heq
      obtain rfl := comment_unique hn hn' heq
      rw [← List.append_assoc] at hrest hrest'
      rw [ih hgap' hrest hrest' (List.append_cancel_left heq)]

theorem no_gap_nil (before : List Char) : NoGap before [] := by simp [NoGap]

theorem Stuck.no_gap (h : Stuck rest) (before : List Char) : NoGap before rest := by
  obtain ⟨⟨c, hc, hvisible⟩, hnone⟩ := h
  obtain ⟨more, rfl⟩ := List.head?_eq_some_iff.mp hc
  intro d hd
  obtain rfl : c = d := Option.some.inj hd
  refine ⟨hvisible, ?_⟩
  rintro rfl
  exact absurd (List.prefix_append [';'] more) (hnone .semicolon [';'] (.mark rfl))

theorem Stands.no_gap {kind : TokenKind} {text following : List Char}
    (h : Stands before following kind text) : NoGap before following := by
  obtain ⟨c, more, hc, hvisible⟩ := (token_visible h.token).1
  obtain ⟨behind, rfl⟩ := h.stands
  intro d hd
  rw [hc] at hd
  obtain rfl : c = d := Option.some.inj hd
  refine ⟨hvisible, ?_⟩
  rintro rfl
  exact h.no_comment (kind_of_semicolon h.token hc)

/-- No longer one stands at a place, so there is just one. -/
theorem stands_unique {kind kind' : TokenKind} {text text' following : List Char}
    (h : Stands before following kind text) (h' : Stands before following kind' text') :
    kind = kind' ∧ text = text' := by
  have hlength := Nat.le_antisymm (h'.longest _ _ h.token h.stands)
    (h.longest _ _ h'.token h'.stands)
  refine token_eq_of_written h.token h'.token ?_
  exact (List.prefix_of_prefix_length_le h.stands h'.stands (Nat.le_of_eq hlength)).eq_of_length
    hlength

/-- The ends of the cuts that do not go on. -/
def Final (rest : List Char) : Prop := rest = [] ∨ Stuck rest

theorem Final.no_gap (h : Final rest) (before : List Char) : NoGap before rest := by
  rcases h with rfl | h
  · exact no_gap_nil before
  · exact h.no_gap before

theorem Final.not_stands (h : Final rest) {kind : TokenKind} {text : List Char} :
    ¬ Stands before rest kind text := by
  intro hs
  rcases h with rfl | h
  · obtain ⟨c, more, hc, -⟩ := (token_visible hs.token).1
    have hnil := List.prefix_nil.mp hs.stands
    rw [hc] at hnil
    cases hnil
  · exact h.2 _ _ hs.token hs.stands

theorem cut_unique (h : Cut before source gap parts rest) (h' : Cut before source gap' parts' rest')
    (hrest : Final rest) (hrest' : Final rest') : gap = gap' ∧ parts = parts' ∧ rest = rest' := by
  induction parts generalizing before source gap gap' parts' with
  | nil =>
    obtain ⟨hgap, rfl⟩ := h
    cases parts' with
    | nil =>
      obtain ⟨hgap', heq⟩ := h'
      obtain rfl := gap_unique hgap hgap' (hrest.no_gap _) (hrest'.no_gap _) heq
      exact ⟨rfl, rfl, List.append_cancel_left heq⟩
    | cons p parts' =>
      obtain ⟨hgap', following, heq, hs, -⟩ := h'
      obtain rfl := gap_unique hgap hgap' (hrest.no_gap _) hs.no_gap heq
      rw [← List.append_cancel_left heq] at hs
      exact absurd hs hrest.not_stands
  | cons p parts ih =>
    obtain ⟨hgap, following, rfl, hs, hbehind⟩ := h
    cases parts' with
    | nil =>
      obtain ⟨hgap', heq⟩ := h'
      obtain rfl := gap_unique hgap hgap' hs.no_gap (hrest'.no_gap _) heq
      rw [List.append_cancel_left heq] at hs
      exact absurd hs hrest'.not_stands
    | cons p' parts' =>
      obtain ⟨hgap', following', heq, hs', hbehind'⟩ := h'
      obtain rfl := gap_unique hgap hgap' hs.no_gap hs'.no_gap heq
      have hsame := List.append_cancel_left heq
      rw [← hsame] at hs'
      obtain ⟨hkind, htext⟩ := stands_unique hs hs'
      have hsource : p.source = p'.source := by rw [Part.source, Part.source, hkind, htext]
      rw [hsource] at hsame hbehind
      obtain rfl := List.append_cancel_left hsame
      obtain ⟨hgap, rfl, rfl⟩ := ih hbehind hbehind'
      refine ⟨rfl, ?_, rfl⟩
      obtain ⟨kind, text, gap⟩ := p
      obtain ⟨kind', text', gap'⟩ := p'
      dsimp only at hkind htext hgap
      rw [hkind, htext, hgap]

/-! What the lexer finds -/

/-- What the lexer comes to agrees with a cut of the text: to the end, or to where it gets stuck. -/
def Scanned (file : String) (before source : List Char) (r : Except CompileError (List Token)) :
    Prop :=
  ∃ gap parts rest, Cut before source gap parts rest ∧
    match r with
    | .ok tokens => rest = [] ∧ tokens = tokensOf file before gap parts
    | .error e => Stuck rest ∧ ∃ fault,
      e = .lexical ⟨file, 1 + (before ++ covered gap parts).count '\n'⟩ fault

variable {file : String} {r : Except CompileError (List Token)}

theorem scanned_nothing : Scanned file before [] (.ok []) :=
  ⟨[], [], [], ⟨.nil, rfl⟩, rfl, rfl⟩

/-- What is skipped goes into the first gap. -/
theorem Scanned.behind (hgap : ∀ gap, Gap (before ++ front) gap → Gap before (front ++ gap))
    (h : Scanned file (before ++ front) source r) : Scanned file before (front ++ source) r := by
  obtain ⟨gap, parts, rest, hcut, hr⟩ := h
  refine ⟨front ++ gap, parts, rest, ?_, ?_⟩
  · cases parts with
    | nil => exact ⟨hgap _ hcut.1, by rw [hcut.2, List.append_assoc]⟩
    | cons p parts =>
      obtain ⟨hg, following, rfl, hs, hbehind⟩ := hcut
      rw [List.append_assoc] at hs
      rw [List.append_assoc before] at hbehind
      exact ⟨hgap _ hg, following, (List.append_assoc ..).symm, hs, hbehind⟩
  · have htokens : tokensOf file (before ++ front) gap parts =
        tokensOf file before (front ++ gap) parts := by
      cases parts <;> simp [tokensOf]
    have hcovered : before ++ front ++ covered gap parts =
        before ++ covered (front ++ gap) parts := by
      simp [covered]
    rwa [htokens, hcovered] at hr

theorem Scanned.space {c : Char} (hc : ¬ Visible c) (h : Scanned file (before ++ [c]) source r) :
    Scanned file before (c :: source) r :=
  h.behind fun _ hgap => .space hc hgap

theorem Scanned.comment {comment : List Char} (ho : OpensLine before) (hc : '\n' ∉ comment)
    (h : Scanned file (before ++ (';' :: comment ++ ['\n'])) source r) :
    Scanned file before (';' :: comment ++ '\n' :: source) r := by
  have hbehind := h.behind fun gap hgap => by
    rw [← List.append_assoc] at hgap
    rw [List.append_assoc, List.singleton_append]
    exact .comment ho hc (.space (by simp [Visible]) hgap)
  rwa [List.append_assoc, List.singleton_append] at hbehind

theorem scanned_stuck {line : Nat} {fault : LexicalFault} (h : Stuck source)
    (hline : line = 1 + before.count '\n') :
    Scanned file before source (.error (.lexical ⟨file, line⟩ fault)) :=
  ⟨[], [], source, ⟨.nil, rfl⟩, h, fault, by simp [covered, hline]⟩

theorem Scanned.token {kind : TokenKind} {text following : List Char} {line : Nat}
    (hs : Stands before (written kind text ++ following) kind text)
    (hline : line = 1 + before.count '\n')
    (h : Scanned file (before ++ written kind text) following r) :
    Scanned file before (written kind text ++ following)
      (r.map (⟨kind, String.ofList text, ⟨file, line⟩⟩ :: ·)) := by
  obtain ⟨gap, parts, rest, hcut, hr⟩ := h
  refine ⟨[], ⟨kind, text, gap⟩ :: parts, rest, ⟨.nil, following, rfl, ?_, ?_⟩, ?_⟩
  · rwa [List.append_nil]
  · rwa [List.append_nil]
  · cases r with
    | ok tokens =>
      obtain ⟨rfl, rfl⟩ := hr
      exact ⟨rfl, by simp [tokensOf, Part.source, hline]⟩
    | error e =>
      obtain ⟨hstuck, fault, rfl⟩ := hr
      exact ⟨hstuck, fault, by simp [covered, Part.source]⟩

theorem semicolon_text {kind : TokenKind} {text : List Char} (h : IsToken kind text)
    (hkind : kind = .semicolon) : text = [';'] := by
  cases h with
  | mark hm =>
    subst hkind
    unfold mark? at hm
    split at hm <;> cases hm
    rfl
  | _ => cases hkind

theorem lexeme_stands {c : Char} {following : List Char} {l : Lexeme}
    (h : lexeme c following = .ok l) (hc : c = ';' → ¬ OpensLine before) :
    Stands before (c :: following) l.kind l.text := by
  obtain ⟨htoken, happend⟩ := lexeme_sound h
  refine ⟨htoken, ⟨l.rest, happend⟩, fun kind text ht hp => ?_, fun hkind => hc ?_⟩
  · obtain ⟨d, more, hd, -⟩ := (token_visible ht).1
    obtain ⟨after, hafter⟩ := hp
    rw [hd, List.cons_append] at hafter
    obtain ⟨rfl, rfl⟩ := List.cons.inj hafter
    obtain ⟨l', hl', hlonger, -⟩ := lexeme_covers ht hd after
    rwa [Except.ok.inj (h.symm.trans hl')]
  · rw [hkind, semicolon_text htoken hkind] at happend
    exact (List.cons.inj happend).1.symm

theorem lexeme_stuck {c : Char} {following : List Char} {fault : LexicalFault}
    (h : lexeme c following = .error fault) (hc : Visible c) : Stuck (c :: following) := by
  refine ⟨⟨c, rfl, hc⟩, fun kind text ht ⟨after, hafter⟩ => ?_⟩
  obtain ⟨d, more, hd, -⟩ := (token_visible ht).1
  rw [hd, List.cons_append] at hafter
  obtain ⟨rfl, rfl⟩ := List.cons.inj hafter
  obtain ⟨l, hl, -⟩ := lexeme_covers ht hd after
  cases h.symm.trans hl

/-! The lexer keeps the number of the line, and whether something visible stands on it. -/

structure Tracks (before : List Char) (line : Nat) (used : Bool) : Prop where
  line : line = 1 + before.count '\n'
  used : used = false ↔ OpensLine before

variable {line : Nat} {used : Bool} {c : Char} {following : List Char}

theorem tracks_start : Tracks [] 1 false := ⟨rfl, by simp [OpensLine]⟩

theorem is_blank_of_not_visible (h : ¬ Visible c) (hc : c ≠ '\n') : isBlank c = true := by
  by_contra hb
  exact h ⟨by simpa using hb, hc⟩

theorem Tracks.space (h : Tracks before line used) (hc : ¬ Visible c) :
    Tracks (before ++ [c]) (line + [c].count '\n') (if c = '\n' then false else used) := by
  refine ⟨by rw [h.line, List.count_append, Nat.add_assoc], ?_⟩
  split
  · rename_i hnewline
    subst hnewline
    simp [opens_line_append_newline]
  · rename_i hnewline
    rw [h.used, opens_line_append_blank (is_blank_of_not_visible hc hnewline)]

theorem Tracks.comment {comment : List Char} (h : Tracks before line used)
    (hc : '\n' ∉ comment) : Tracks (before ++ (';' :: comment ++ ['\n'])) (line + 1) false := by
  refine ⟨?_, ?_⟩
  · simp [h.line, List.count_eq_zero.mpr hc, Nat.add_assoc]
  · rw [← List.append_assoc]
    exact ⟨fun _ => opens_line_append_newline _, fun _ => rfl⟩

theorem Tracks.token {kind : TokenKind} {text : List Char} (h : Tracks before line used)
    (ht : IsToken kind text) :
    Tracks (before ++ written kind text) (line + text.count '\n') true := by
  refine ⟨by rw [h.line, List.count_append, count_written, Nat.add_assoc], ?_⟩
  obtain ⟨-, front, d, hd, hvisible⟩ := token_visible ht
  rw [hd, ← List.append_assoc]
  exact ⟨nofun, fun ho => absurd ho (not_opens_line_append hvisible)⟩

theorem scan_space (h : ¬ Visible c) (file : String) (line : Nat) (used : Bool)
    (following : List Char) : scan file line used (c :: following) =
      scan file (line + [c].count '\n') (if c = '\n' then false else used) following := by
  by_cases hc : c = '\n'
  · subst hc
    rw [scan, if_pos (by decide), if_pos rfl]
    rfl
  · rw [scan, if_neg (by simpa using hc), if_pos (is_blank_of_not_visible h hc), if_neg hc]
    simp [hc]

theorem scan_comment {comment : List Char} (h : '\n' ∉ comment) (file : String) (line : Nat)
    (following : List Char) : scan file line false (';' :: comment ++ '\n' :: following) =
      scan file (line + 1) false following := by
  have hall : ∀ c ∈ comment, (c != '\n') = true :=
    fun c hc => bne_iff_ne.mpr fun he => h (he ▸ hc)
  have hdrop : (comment ++ '\n' :: following).dropWhile (· != '\n') = '\n' :: following := by
    simp [List.dropWhile_append_of_pos hall]
  rw [List.cons_append, scan, if_neg (by decide), if_neg (by decide), if_pos (by decide), hdrop,
    scan, if_pos (by decide)]

theorem scan_visible (h : Visible c) (hc : c = ';' → used = true) (file : String) (line : Nat)
    (following : List Char) :
    scan file line used (c :: following) = match lexeme c following with
      | .error fault => .error (.lexical ⟨file, line⟩ fault)
      | .ok l => (scan file (line + l.text.count '\n') true l.rest).map
        (⟨l.kind, String.ofList l.text, ⟨file, line⟩⟩ :: ·) := by
  rw [scan, if_neg (by simpa using h.2), if_neg (by simp [h.1]), if_neg (by simpa using hc)]
  split <;> rename_i hl <;> rw [hl]
  dsimp only
  cases scan file (line + _) true _ <;> rfl

/-- A comment of a text that ends with a line goes on to the end of a line. -/
theorem exists_comment (h : ∀ c ∈ (';' :: following).getLast?, c = '\n') :
    ∃ comment behind, following = comment ++ '\n' :: behind ∧ '\n' ∉ comment := by
  have hnewline : '\n' ∈ following := by
    have hlast := List.getLast?_eq_some_getLast (List.cons_ne_nil ';' following)
    have hmem := List.getLast_mem (List.cons_ne_nil ';' following)
    rw [h _ hlast] at hmem
    simpa using hmem
  exact List.eq_append_cons_of_mem hnewline

/-- The induction is on the length of the text, since comments and tokens are skipped at once. -/
theorem scan_scanned {text : List Char} (h : Tracks before line used)
    (hend : ∀ c ∈ text.getLast?, c = '\n') :
    Scanned file before text (scan file line used text) := by
  induction hn : text.length using Nat.strong_induction_on generalizing text before line used with
  | _ n ih =>
    subst hn
    have hbehind (front : List Char) {behind : List Char} (heq : text = front ++ behind) :
        ∀ d ∈ behind.getLast?, d = '\n' := by
      intro d hd
      refine hend d ?_
      rw [heq, List.getLast?_append, hd]
      rfl
    cases text with
    | nil =>
      rw [scan]
      exact scanned_nothing
    | cons c text =>
      by_cases hc : Visible c
      · by_cases hcomment : c = ';' ∧ used = false
        · obtain ⟨rfl, rfl⟩ := hcomment
          obtain ⟨comment, following, rfl, hnone⟩ := exists_comment hend
          have hrest : ∀ d ∈ following.getLast?, d = '\n' :=
            hbehind (';' :: comment ++ ['\n']) (by simp)
          have hshorter := ih _ (by simp; omega) (h.comment hnone) hrest rfl
          rw [← List.cons_append, scan_comment hnone]
          exact hshorter.comment (h.used.mp rfl) hnone
        · rw [scan_visible hc (by simpa using hcomment)]
          cases hl : lexeme c text with
          | error fault => exact scanned_stuck (lexeme_stuck hl hc) h.line
          | ok l =>
            have hs : Stands before (c :: text) l.kind l.text :=
              lexeme_stands hl fun he => by
                rw [← h.used]
                exact fun hu => hcomment ⟨he, hu⟩
            obtain ⟨htoken, happend⟩ := lexeme_sound hl
            have hshorter := ih _ (Nat.lt_succ_of_le (lexeme_rest_length hl)) (h.token htoken)
              (hbehind _ happend.symm) rfl
            rw [← happend] at hs ⊢
            exact hshorter.token hs h.line
      · have hshorter := ih _ (Nat.lt_succ_self _) (h.space hc) (hbehind [c] rfl) rfl
        rw [scan_space hc]
        exact hshorter.space hc

theorem tokenize_scanned (source file : String) :
    Scanned file [] (source.toList ++ ['\n']) (tokenize source file) :=
  scan_scanned tracks_start (by simp)

theorem not_stuck_nil : ¬ Stuck [] := by simp [Stuck]

theorem tokenize_ok_iff {source file : String} {tokens : List Token} :
    tokenize source file = .ok tokens ↔
      ∃ gap parts, Cut [] (source.toList ++ ['\n']) gap parts [] ∧
        tokens = tokensOf file [] gap parts := by
  have hscanned := tokenize_scanned source file
  constructor
  · intro h
    rw [h] at hscanned
    obtain ⟨gap, parts, _, hcut, rfl, rfl⟩ := hscanned
    exact ⟨gap, parts, hcut, rfl⟩
  · rintro ⟨gap, parts, hcut, rfl⟩
    cases htokenize : tokenize source file with
    | ok tokens =>
      rw [htokenize] at hscanned
      obtain ⟨gap', parts', _, hcut', rfl, rfl⟩ := hscanned
      obtain ⟨rfl, rfl, -⟩ := cut_unique hcut hcut' (.inl rfl) (.inl rfl)
      rfl
    | error e =>
      rw [htokenize] at hscanned
      obtain ⟨gap', parts', rest, hcut', hstuck, -⟩ := hscanned
      obtain ⟨-, -, rfl⟩ := cut_unique hcut hcut' (.inl rfl) (.inr hstuck)
      exact absurd hstuck not_stuck_nil

theorem tokenize_error {source file : String} {e : CompileError}
    (h : tokenize source file = .error e) :
    ∃ gap parts rest fault, Cut [] (source.toList ++ ['\n']) gap parts rest ∧ Stuck rest ∧
      e = .lexical ⟨file, 1 + (covered gap parts).count '\n'⟩ fault := by
  have hscanned := tokenize_scanned source file
  rw [h] at hscanned
  obtain ⟨gap, parts, rest, hcut, hstuck, fault, rfl⟩ := hscanned
  exact ⟨gap, parts, rest, fault, hcut, hstuck, rfl⟩

/-- Whether a source is lexed, and which tokens it gives, is told by the cuts of its text. Of those
that do not go on there is just one: it reaches the end, or tells where the lexer stops. -/
theorem lexing_accounts_for_every_character (source file : String) :
    (∀ tokens, tokenize source file = .ok tokens ↔
      ∃ gap parts, Cut [] (source.toList ++ ['\n']) gap parts [] ∧
        tokens = tokensOf file [] gap parts) ∧
    (∀ gap parts rest gap' parts' rest', Cut [] (source.toList ++ ['\n']) gap parts rest →
      Cut [] (source.toList ++ ['\n']) gap' parts' rest' → Final rest → Final rest' →
      gap = gap' ∧ parts = parts' ∧ rest = rest') ∧
    ((∃ e, tokenize source file = .error e) ↔
      ¬ ∃ gap parts, Cut [] (source.toList ++ ['\n']) gap parts []) ∧
    ∀ e, tokenize source file = .error e → ∃ gap parts rest fault,
      Cut [] (source.toList ++ ['\n']) gap parts rest ∧ Stuck rest ∧
        e = .lexical ⟨file, 1 + (covered gap parts).count '\n'⟩ fault := by
  refine ⟨fun _ => tokenize_ok_iff, fun _ _ _ _ _ _ => cut_unique, ?_, fun _ => tokenize_error⟩
  constructor
  · rintro ⟨e, he⟩ ⟨gap, parts, hcut⟩
    cases he.symm.trans (tokenize_ok_iff.mpr ⟨gap, parts, hcut, rfl⟩)
  · intro hnone
    cases htokenize : tokenize source file with
    | ok tokens =>
      obtain ⟨gap, parts, hcut, -⟩ := tokenize_ok_iff.mp htokenize
      exact absurd ⟨gap, parts, hcut⟩ hnone
    | error e => exact ⟨e, rfl⟩

end ResourceCompiler.Lexer
