import ResourceCompiler.Proofs.Source.Cutting
import ResourceCompiler.Proofs.Reading.Spelling
import ResourceCompiler.Source.File

/-!
Sources joined by the end of a line. Only a string goes on behind the end of a line, and one that
is not closed by then is an error of the first source. So each source is lexed as if it stood alone,
but for the numbers of its lines.
-/

namespace ResourceCompiler

/-- The place so many lines further down. -/
def Location.below (lines : Nat) (place : Location) : Location :=
  { place with line := place.line + lines }

/-- The same token at another place. -/
def Token.relocate (move : Location → Location) (t : Token) : Token :=
  { t with location := move t.location }

/-- The same error at another place, if it stands in a source. -/
def CompileError.relocate (move : Location → Location) : CompileError → CompileError
  | .lexical place fault => .lexical (move place) fault
  | .grammar place fault => .grammar (move place) fault
  | .meaning place fault => .meaning (move place) fault
  | e => e

namespace Lexer

/-! Tokens at the end of a line -/

section Lines

variable {c : Char} {text : List Char} {p : Char → Bool}

theorem take_while_line (h : p '\n' = false) (text behind : List Char) :
    (text ++ '\n' :: behind).takeWhile p = text.takeWhile p := by
  induction text with
  | nil => simp [h]
  | cons c text ih =>
    rw [List.cons_append, List.takeWhile_cons, List.takeWhile_cons, ih]

theorem drop_while_line (h : p '\n' = false) (text behind : List Char) :
    (text ++ '\n' :: behind).dropWhile p = text.dropWhile p ++ '\n' :: behind := by
  induction text with
  | nil => simp [h]
  | cons c text ih =>
    rw [List.cons_append, List.dropWhile_cons, List.dropWhile_cons, ih]
    split <;> rfl

theorem split_digits_line (text behind : List Char) :
    splitDigits (text ++ '\n' :: behind) =
      ((splitDigits text).1, (splitDigits text).2 ++ '\n' :: behind) := by
  have hnewline : ∀ behind, splitDigits ('\n' :: behind) = ([], '\n' :: behind) := by
    intro behind
    cases behind <;> simp [splitDigits, Text.isGroupingMark]
  fun_induction splitDigits text with
  | case1 => exact hnewline behind
  | case2 c hc => rw [List.singleton_append, split_digits_cons hc, hnewline]; rfl
  | case3 c hc => simp [splitDigits, hc]
  | case4 c next rest hc digits after hs ih =>
    rw [hs] at ih
    simp only [List.cons_append] at ih ⊢
    simp [splitDigits, hc, ih]
  | case5 c next rest hc => simp [splitDigits, hc]

/-- Where the run ends inside a text, what stands behind the text does not matter. -/
theorem run_inside {text : List Char} (h : text.dropWhile p ≠ []) (behind : List Char) :
    (text ++ behind).takeWhile p = text.takeWhile p ∧
      (text ++ behind).dropWhile p = text.dropWhile p ++ behind := by
  induction text with
  | nil => exact absurd rfl h
  | cons c text ih =>
    rw [List.dropWhile_cons] at h
    rw [List.cons_append, List.takeWhile_cons, List.takeWhile_cons, List.dropWhile_cons,
      List.dropWhile_cons]
    split
    · rename_i hc
      rw [if_pos hc] at h
      obtain ⟨htake, hdrop⟩ := ih h
      rw [htake, hdrop]
      exact ⟨rfl, rfl⟩
    · exact ⟨rfl, rfl⟩

/-- The token in front of a longer text. -/
def Lexeme.before (behind : List Char) (l : Lexeme) : Lexeme := { l with rest := l.rest ++ behind }

/-- What a token is, and whether one stands there, is settled at the end of its line, unless it is a
string that is still open. -/
theorem lexeme_line (h : lexeme c text ≠ .error .unterminatedString) (behind : List Char) :
    lexeme c (text ++ '\n' :: behind) = (lexeme c text).map (Lexeme.before ('\n' :: behind)) := by
  have hword : continuesIdentifier '\n' = false := by decide
  have hdigit : Char.isDigit '\n' = false := by decide
  unfold lexeme at h ⊢
  split
  · rw [take_while_line hword, drop_while_line hword]
    split <;> rfl
  rename_i hat
  rw [if_neg hat] at h
  split
  · rename_i hquote
    rw [if_pos hquote] at h
    cases hd : text.dropWhile (· != '"') with
    | nil => simp [hd] at h
    | cons d after =>
      have hne : text.dropWhile (· != '"') ≠ [] := by rw [hd]; exact List.cons_ne_nil d after
      obtain ⟨htake, hdrop⟩ := run_inside hne ('\n' :: behind)
      rw [htake, hdrop, hd]
      rfl
  split
  · rw [take_while_line hdigit, drop_while_line hdigit]
    split <;> rfl
  split
  · rw [split_digits_line]
    rcases splitDigits text with ⟨digits, _ | ⟨d, after⟩⟩
    · rfl
    · by_cases hd : d = '%'
      · subst hd
        rfl
      · simp [hd, Except.map, Lexeme.before]
  split
  · rw [take_while_line hword, drop_while_line hword]
    rfl
  · split <;> rfl

theorem lexeme_line_ok {l : Lexeme} (h : lexeme c text = .ok l) (behind : List Char) :
    lexeme c (text ++ '\n' :: behind) = .ok (l.before ('\n' :: behind)) := by
  rw [lexeme_line (by simp [h]), h]
  rfl

/-- The end of a line does not close a string. -/
theorem lexeme_open (h : lexeme c text = .error .unterminatedString) :
    lexeme c (text ++ ['\n']) = .error .unterminatedString := by
  have hstring : c = '"' ∧ text.dropWhile (· != '"') = [] := by
    unfold lexeme at h
    split at h
    · split at h <;> cases h
    split at h
    · rename_i hquote
      split at h
      · exact ⟨by simpa using hquote, ‹_›⟩
      · cases h
    split at h
    · split at h <;> cases h
    split at h
    · split at h <;> cases h
    split at h
    · cases h
    · split at h <;> cases h
  obtain ⟨rfl, hnone⟩ := hstring
  have hnone' : (text ++ ['\n']).dropWhile (· != '"') = [] := by
    rw [List.dropWhile_append, hnone]
    rfl
  simp [lexeme, hnone']

end Lines

/-! Texts behind the end of a line -/

variable {file : String} {line : Nat} {used : Bool} {text behind : List Char}

/-- The tokens of one text and then those of another. -/
def followedBy (first second : Except CompileError (List Token)) :
    Except CompileError (List Token) := do
  let tokens ← first
  let more ← second
  return tokens ++ more

theorem nothing_followed_by (second : Except CompileError (List Token)) :
    followedBy (.ok []) second = second := by
  cases second <;> rfl

theorem token_followed_by (t : Token) (first second : Except CompileError (List Token)) :
    followedBy (first.map (t :: ·)) second = (followedBy first second).map (t :: ·) := by
  cases first with
  | error e => rfl
  | ok tokens => cases second <;> rfl

theorem count_lexeme {c : Char} {l : Lexeme} (h : lexeme c text = .ok l) :
    (c :: text).count '\n' = l.text.count '\n' + l.rest.count '\n' := by
  obtain ⟨-, happend⟩ := lexeme_sound h
  rw [← happend, List.count_append, count_written]

/-- What was lexed up to the end of a line stays, and what follows is lexed as if it started a file,
further down. The induction is on the length of the first text, since comments and tokens are
skipped at once. -/
theorem scan_line (h : ∀ place, scan file line used (text ++ ['\n']) ≠
      .error (.lexical place .unterminatedString)) :
    scan file line used (text ++ '\n' :: behind) =
      followedBy (scan file line used (text ++ ['\n']))
        (scan file (line + text.count '\n' + 1) false behind) := by
  induction hn : text.length using Nat.strong_induction_on generalizing text line used with
  | _ n ih =>
    subst hn
    cases text with
    | nil =>
      rw [List.nil_append, List.nil_append, scan_space not_visible_newline,
        scan_space not_visible_newline]
      simp [scan, nothing_followed_by]
    | cons c text =>
      by_cases hc : Visible c
      · by_cases hcomment : c = ';' ∧ used = false
        · obtain ⟨rfl, rfl⟩ := hcomment
          by_cases hline : '\n' ∈ text
          · obtain ⟨comment, rest, rfl, hnone⟩ := List.eq_append_cons_of_mem hline
            have hskip : ∀ more, ';' :: (comment ++ '\n' :: rest) ++ more =
                ';' :: comment ++ '\n' :: (rest ++ more) := by simp
            have hcount : (';' :: (comment ++ '\n' :: rest)).count '\n' = 1 + rest.count '\n' := by
              simp [List.count_eq_zero.mpr hnone, Nat.add_comm]
            rw [hskip, scan_comment hnone] at h ⊢
            rw [hskip, scan_comment hnone, ih _ (by simp; omega) h rfl, hcount, ← Nat.add_assoc]
          · rw [scan_comment hline, scan_comment hline]
            simp [scan, nothing_followed_by, List.count_eq_zero.mpr hline]
        · have hused : c = ';' → used = true := by simpa using hcomment
          rw [List.cons_append, scan_visible hc hused] at h ⊢
          rw [List.cons_append, scan_visible hc hused]
          cases hl : lexeme c text with
          | error fault =>
            have hclosed : lexeme c text ≠ .error .unterminatedString := by
              intro ho
              rw [lexeme_open ho] at h
              exact h ⟨file, line⟩ rfl
            rw [lexeme_line hclosed, lexeme_line hclosed, hl]
            rfl
          | ok l =>
            rw [lexeme_line_ok hl] at h ⊢
            rw [lexeme_line_ok hl]
            have hopen : ∀ place, scan file (line + l.text.count '\n') true (l.rest ++ ['\n']) ≠
                .error (.lexical place .unterminatedString) := by
              intro place ho
              exact h place (by simp only [Lexeme.before, ho, Except.map])
            have hshorter := ih _ (Nat.lt_succ_of_le (lexeme_rest_length hl)) hopen rfl
            simp only [Lexeme.before]
            rw [hshorter, token_followed_by, count_lexeme hl, Nat.add_assoc line]
      · have hcount : ([c] ++ text).count '\n' = [c].count '\n' + text.count '\n' :=
          List.count_append
        rw [List.singleton_append] at hcount
        rw [List.cons_append, scan_space hc] at h ⊢
        rw [List.cons_append, scan_space hc, ih _ (Nat.lt_succ_self _) h rfl, hcount,
          Nat.add_assoc line]

/-! The same text at another place -/

/-- The same answer at another place. -/
def relocated (move : Location → Location) :
    Except CompileError (List Token) → Except CompileError (List Token)
  | .ok tokens => .ok (tokens.map (Token.relocate move))
  | .error e => .error (e.relocate move)

theorem relocated_map (move : Location → Location) (t : Token)
    (r : Except CompileError (List Token)) :
    relocated move (r.map (t :: ·)) = (relocated move r).map (t.relocate move :: ·) := by
  cases r <;> rfl

/-- Nothing but the places depends on the file and on the line that a text starts on. -/
theorem scan_relocate {move : Location → Location} {file' : String} {lines : Nat}
    (hmove : ∀ line, move ⟨file, line⟩ = ⟨file', line + lines⟩) (line : Nat) (used : Bool)
    (text : List Char) :
    scan file' (line + lines) used text = relocated move (scan file line used text) := by
  have htoken {line : Nat} {used : Bool} {c : Char} {rest : List Char} {l : Lexeme}
      (hc : Visible c) (hused : c = ';' → used = true) (hl : lexeme c rest = .ok l)
      (ih : scan file' (line + l.text.count '\n' + lines) true l.rest =
        relocated move (scan file (line + l.text.count '\n') true l.rest)) :
      scan file' (line + lines) used (c :: rest) =
        relocated move (scan file line used (c :: rest)) := by
    rw [scan_visible hc hused, scan_visible hc hused, hl]
    simp only [relocated_map, Token.relocate, hmove]
    rw [Nat.add_right_comm, ih]
  have hvisible {c : Char} (hn : ¬ (c == '\n') = true) (hb : ¬ isBlank c = true) : Visible c :=
    ⟨by simpa using hb, by simpa using hn⟩
  induction line, used, text using scan.induct file with
  | case1 line used => simp [scan, relocated]
  | case2 line used c rest hn ih =>
    rw [scan, if_pos hn, scan, if_pos hn, Nat.add_right_comm, ih]
  | case3 line used c rest hn hb ih =>
    rw [scan, if_neg hn, if_pos hb, scan, if_neg hn, if_pos hb, ih]
  | case4 line used c rest hn hb hs ih =>
    rw [scan, if_neg hn, if_neg hb, if_pos hs, scan, if_neg hn, if_neg hb, if_pos hs, ih]
  | case5 line used c rest hn hb hs fault hl =>
    have hused : c = ';' → used = true := by simpa using hs
    rw [scan_visible (hvisible hn hb) hused, scan_visible (hvisible hn hb) hused, hl]
    simp only [relocated, CompileError.relocate, hmove]
  | case6 line used c rest hn hb hs l hl e _ ih =>
    exact htoken (hvisible hn hb) (by simpa using hs) hl ih
  | case7 line used c rest hn hb hs l hl tokens _ ih =>
    exact htoken (hvisible hn hb) (by simpa using hs) hl ih

/-! Whole sources -/

theorem tokenize_joined {a : String} (h : ∀ place, tokenize a file ≠
      .error (.lexical place .unterminatedString)) (b : String) :
    tokenize (a ++ "\n" ++ b) file = followedBy (tokenize a file)
      (relocated (Location.below (1 + a.toList.count '\n')) (tokenize b file)) := by
  have hmove : ∀ line, Location.below (1 + a.toList.count '\n') ⟨file, line⟩ =
      ⟨file, line + (1 + a.toList.count '\n')⟩ := fun _ => rfl
  have htext : (a ++ "\n" ++ b).toList ++ ['\n'] = a.toList ++ '\n' :: (b.toList ++ ['\n']) := by
    simp
  simp only [tokenize] at h ⊢
  rw [htext, scan_line h, ← scan_relocate hmove]
  congr 2
  omega

theorem tokenize_renamed (source file name : String) :
    tokenize source name =
      relocated (fun place => { place with file := name }) (tokenize source file) := by
  change scan name (1 + 0) false _ = relocated _ (scan file 1 false _)
  exact scan_relocate (fun _ => rfl) 1 false _

end Lexer

open Lexer

namespace SourceFile

theorem tokens_of_all_cons {file : SourceFile} {files : List SourceFile} {tokens more : List Token}
    (h : file.tokens = .ok tokens) (hmore : tokensOfAll files = .ok more) :
    tokensOfAll (file :: files) = .ok (tokens ++ more) := by
  obtain ⟨lists, hlists, hflat⟩ := except_bind_eq_ok.mp hmore
  cases hflat
  refine except_bind_eq_ok.mpr ⟨tokens :: lists, ?_, rfl⟩
  rw [List.mapM_cons, h]
  exact except_bind_eq_ok.mpr ⟨tokens, rfl, except_bind_eq_ok.mpr ⟨lists, hlists, rfl⟩⟩

theorem spelling_relocate (move : Location → Location) (tokens : List Token) :
    (tokens.map (Token.relocate move)).map Token.spelling = tokens.map Token.spelling := by
  simp [Token.relocate, Token.spelling, Function.comp_def]

/-- The tokens of files are those of their joined texts. -/
theorem tokens_of_all_joined (name : String) {files : List SourceFile}
    (h : ∀ file ∈ files, ∃ tokens, file.tokens = .ok tokens) :
    ∃ tokens joined, tokensOfAll files = .ok tokens ∧
      tokenize ("\n".intercalate (files.map SourceFile.text)) name = .ok joined ∧
      joined.map Token.spelling = tokens.map Token.spelling := by
  induction files with
  | nil => exact ⟨[], [], rfl, by simp [tokenize, scan], rfl⟩
  | cons file files ih =>
    obtain ⟨⟨tokens, htokens⟩, hfiles⟩ := List.forall_mem_cons.mp h
    obtain ⟨more, joined, hmore, hjoined, hspelling⟩ := ih hfiles
    have hrenamed := tokenize_renamed file.text file.path.text name
    have hfile : tokenize file.text file.path.text = .ok tokens := htokens
    rw [hfile] at hrenamed
    have hall := tokens_of_all_cons htokens hmore
    cases files with
    | nil =>
      obtain rfl : [] = more := Except.ok.inj hmore
      refine ⟨_, _, hall, hrenamed, ?_⟩
      rw [spelling_relocate, List.append_nil]
    | cons next files =>
      have hclosed : ∀ place, tokenize file.text name ≠
          .error (.lexical place .unterminatedString) := by
        intro place ho
        cases hrenamed.symm.trans ho
      have hboth := tokenize_joined hclosed ("\n".intercalate ((next :: files).map SourceFile.text))
      rw [hrenamed, hjoined] at hboth
      rw [List.map_cons, List.map_cons, String.intercalate_cons_cons, ← List.map_cons]
      refine ⟨_, _, hall, hboth, ?_⟩
      rw [List.map_append, List.map_append, spelling_relocate, spelling_relocate, hspelling]

end SourceFile

namespace Lexer

/-- A source that is lexed, or fails but for an open string, does so in front of every other source
as well. The other source behind it is lexed as if it stood alone, only that its lines come further
down. So the files of a compilation are lexed as one text that is joined from theirs. -/
theorem lexing_distributes_over_lines (file : String) :
    (∀ a b tokens, tokenize a file = .ok tokens →
      (∀ more, tokenize b file = .ok more → tokenize (a ++ "\n" ++ b) file =
        .ok (tokens ++ more.map (Token.relocate (Location.below (1 + a.toList.count '\n'))))) ∧
      ∀ e, tokenize b file = .error e → tokenize (a ++ "\n" ++ b) file =
        .error (e.relocate (Location.below (1 + a.toList.count '\n')))) ∧
    (∀ a b e, tokenize a file = .error e → (∀ place, e ≠ .lexical place .unterminatedString) →
      tokenize (a ++ "\n" ++ b) file = .error e) ∧
    ∀ files : List SourceFile, (∀ f ∈ files, ∃ tokens, f.tokens = .ok tokens) →
      ∃ tokens joined, SourceFile.tokensOfAll files = .ok tokens ∧
        tokenize ("\n".intercalate (files.map SourceFile.text)) file = .ok joined ∧
        joined.map Token.spelling = tokens.map Token.spelling := by
  refine ⟨?_, ?_, fun files => SourceFile.tokens_of_all_joined file⟩
  · intro a b tokens ha
    have hclosed : ∀ place, tokenize a file ≠ .error (.lexical place .unterminatedString) := by
      intro place ho
      cases ha.symm.trans ho
    have hboth := tokenize_joined hclosed b
    rw [ha] at hboth
    constructor
    · intro more hb
      rw [hboth, hb]
      rfl
    · intro e hb
      rw [hboth, hb]
      rfl
  · intro a b e ha hopen
    have hclosed : ∀ place, tokenize a file ≠ .error (.lexical place .unterminatedString) := by
      intro place ho
      exact hopen place (Except.error.inj (ha.symm.trans ho))
    rw [tokenize_joined hclosed, ha]
    rfl

/-- A source that ends behind a string of two lines, and one that fails on its second line. -/
theorem lexing_distributes_over_lines_notes :
    (∃ tokens, tokenize "x \"1\n2\" ;" "m" = .ok tokens ∧
      (∀ more, tokenize "; c\n4,5" "m" = .ok more →
        tokenize ("x \"1\n2\" ;" ++ "\n" ++ "; c\n4,5") "m" =
          .ok (tokens ++ more.map (Token.relocate (Location.below 2)))) ∧
      tokenize ("x \"1\n2\" ;" ++ "\n" ++ "; c\n$") "m" =
        .error (.lexical ⟨"m", 4⟩ (.unrecognisedCharacter '$'))) ∧
    tokenize ("; c\n$" ++ "\n" ++ "\"") "m" =
      .error (.lexical ⟨"m", 2⟩ (.unrecognisedCharacter '$')) ∧
    ∃ tokens joined,
      SourceFile.tokensOfAll [⟨⟨"a"⟩, "x \"1\n2\" ;"⟩, ⟨⟨"b"⟩, "; c\n4,5"⟩] = .ok tokens ∧
        tokenize "x \"1\n2\" ;\n; c\n4,5" "m" = .ok joined ∧
        joined.map Token.spelling = tokens.map Token.spelling := by
  obtain ⟨hok, herror, hfiles⟩ := lexing_distributes_over_lines "m"
  have hfirst : ∃ tokens, tokenize "x \"1\n2\" ;" "m" = .ok tokens := ⟨_, by cbv⟩
  have hfails : tokenize "; c\n$" "m" =
      .error (.lexical ⟨"m", 2⟩ (.unrecognisedCharacter '$')) := by
    cbv
  obtain ⟨tokens, htokens⟩ := hfirst
  refine ⟨⟨tokens, htokens, (hok _ _ _ htokens).1, (hok _ _ _ htokens).2 _ hfails⟩, ?_, ?_⟩
  · exact herror _ _ _ hfails (by simp)
  · apply hfiles [⟨⟨"a"⟩, "x \"1\n2\" ;"⟩, ⟨⟨"b"⟩, "; c\n4,5"⟩]
    simp only [List.forall_mem_cons, List.not_mem_nil, false_implies, implies_true, and_true]
    exact ⟨⟨_, by cbv⟩, ⟨_, by cbv⟩⟩

end Lexer

end ResourceCompiler
