import Mathlib.Data.List.TakeWhile
import ResourceCompiler.Disk.FileSystem
import ResourceCompiler.Report.Attempt

/-!
What writing does to the disk. A directory is created where nothing stood; a file is written over
an earlier file or where nothing stood. Every path that led somewhere before leads there still.
-/

namespace ResourceCompiler

/-- The directory that a path stands in, and those above it. -/
inductive Path.Within (p : Path) : Path → Prop
  | directory : Within p p.directory
  | up {q : Path} : Within p q → Within p q.directory

namespace FileSystem

variable {fs fs' fs'' : FileSystem}

/-! Entries -/

theorem lookup_filter_ne {α : Type} (entries : List (List String × α)) (place other : List String) :
    (entries.filter (·.1 ≠ place)).lookup other =
      if other = place then none else entries.lookup other := by
  induction entries with
  | nil => simp
  | cons e rest ih =>
    by_cases he : e.1 = place
    · rw [List.filter_cons_of_neg (by simpa using he), ih, List.lookup_cons]
      by_cases ho : other = place
      · rw [if_pos ho, if_pos ho]
      · have hne : (other == e.1) = false := by simpa [he] using ho
        rw [if_neg ho, if_neg ho, hne]
    · rw [List.filter_cons_of_pos (by simpa using he), List.lookup_cons, List.lookup_cons, ih]
      by_cases ho : other = place
      · have hne : (other == e.1) = false := by simpa [ho] using Ne.symm he
        rw [hne, if_pos ho]
      · rw [if_neg ho, if_neg ho]

/-- What is put at a place stands there, and nothing else changes. -/
theorem entry_put (fs : FileSystem) {place : List String} (hplace : place ≠ [])
    (entry : DiskEntry) (other : List String) :
    entry? (fs.put place entry) other = if other = place then some entry else fs.entry? other := by
  unfold entry? put
  by_cases ho : other = place
  · subst ho
    simp [hplace]
  · have hne : (other == place) = false := by simpa using ho
    simp only [List.lookup_cons, hne, lookup_filter_ne, if_neg ho]

/-! Growing -/

/-- Directories stay, and no place becomes free. -/
structure Grows (fs fs' : FileSystem) : Prop where
  workingDirectory : fs'.workingDirectory = fs.workingDirectory
  directory : ∀ place, fs.entry? place = some .directory → fs'.entry? place = some .directory
  occupied : ∀ place, (fs.entry? place).isSome → (fs'.entry? place).isSome

namespace Grows

theorem refl (fs : FileSystem) : Grows fs fs := ⟨rfl, fun _ h => h, fun _ h => h⟩

theorem trans (h : Grows fs fs') (h' : Grows fs' fs'') : Grows fs fs'' :=
  ⟨h'.workingDirectory.trans h.workingDirectory, fun _ hp => h'.directory _ (h.directory _ hp),
    fun _ hp => h'.occupied _ (h.occupied _ hp)⟩

/-- Nothing is lost by a new entry, unless it comes in place of a directory. -/
theorem put {place : List String} {entry : DiskEntry} (hplace : place ≠ [])
    (hfree : fs.entry? place ≠ some .directory) : Grows fs (fs.put place entry) := by
  refine ⟨rfl, fun other ho => ?_, fun other ho => ?_⟩
  · rw [entry_put fs hplace, if_neg, ho]
    rintro rfl
    exact hfree ho
  · rw [entry_put fs hplace]
    split
    · rfl
    · exact ho

/-- A step along a path leads where it led before. -/
theorem step {place place' : List String} {part : String} (h : Grows fs fs')
    (hs : fs.step place part = .ok place') : fs'.step place part = .ok place' := by
  unfold FileSystem.step at hs ⊢
  cases he : fs.entry? place with
  | none => simp [he] at hs
  | some entry =>
    cases entry with
    | file contents => simp [he] at hs
    | directory =>
      rw [h.directory place he]
      simp only [he] at hs ⊢
      split at hs
      · rename_i hblank
        rw [if_pos hblank, hs]
      · rename_i hblank
        rw [if_neg hblank]
        split at hs
        · rename_i hup
          rw [if_pos hup, hs]
        · rename_i hup
          rw [if_neg hup]
          split at hs
          · simp at hs
          · rename_i hlong
            rw [if_neg hlong]
            split at hs
            · rename_i hthere
              rw [if_pos (h.occupied _ hthere), hs]
            · simp at hs

theorem walk {place place' : List String} {parts : List String} (h : Grows fs fs')
    (hw : fs.walk place parts = .ok place') : fs'.walk place parts = .ok place' := by
  induction parts generalizing place with
  | nil => exact hw
  | cons part rest ih =>
    obtain ⟨next, hs, hr⟩ := except_bind_eq_ok.mp hw
    exact except_bind_eq_ok.mpr ⟨next, h.step hs, ih hr⟩

theorem start (h : Grows fs fs') (p : Path) : fs'.start p = fs.start p := by
  rw [FileSystem.start, FileSystem.start, h.workingDirectory]

/-- A path leads where it led before. -/
theorem locate {p : Path} {place : List String} (h : Grows fs fs')
    (hl : fs.locate p = .ok place) : fs'.locate p = .ok place := by
  unfold FileSystem.locate at hl ⊢
  cases hr : refusal? p with
  | some failure => simp [hr] at hl
  | none =>
    simp only [hr] at hl ⊢
    rw [h.start]
    exact h.walk hl

end Grows

/-! Where a new entry stands -/

theorem step_named {place : List String} {part : String} (hd : fs.entry? place = some .directory)
    (hnames : part ≠ "" ∧ part ≠ "." ∧ part ≠ "..") (hshort : ¬partLimit < part.utf8ByteSize)
    (hthere : (fs.entry? (place ++ [part])).isSome) :
    fs.step place part = .ok (place ++ [part]) := by
  obtain ⟨hempty, hdot, hup⟩ := hnames
  simp only [step, hd, beq_iff_eq, hempty, hdot, Bool.or_eq_true, or_self, if_false, hup, hshort,
    hthere, if_true]

theorem walk_blanks {place : List String} (hd : fs.entry? place = some .directory)
    {blanks : List String} (hblanks : ∀ part ∈ blanks, part = "") :
    fs.walk place blanks = .ok place := by
  induction blanks with
  | nil => rfl
  | cons part rest ih =>
    have hstep : fs.step place part = .ok place := by
      rw [hblanks part List.mem_cons_self]
      simp [step, hd]
    exact except_bind_eq_ok.mpr
      ⟨place, hstep, ih fun part hp => hblanks part (List.mem_cons_of_mem _ hp)⟩

theorem walk_append {place place' : List String} {before after : List String}
    (h : fs.walk place before = .ok place') :
    fs.walk place (before ++ after) = fs.walk place' after := by
  unfold walk at h ⊢
  rw [List.foldlM_append, h]
  rfl

/-- The last part that is not empty, and those around it. -/
theorem eq_of_drop_while_reverse {parts before : List String} {name : String}
    (h : parts.reverse.dropWhile (· == "") = name :: before) :
    name ≠ "" ∧ ∃ blanks, (∀ part ∈ blanks, part = "") ∧
      parts = before.reverse ++ name :: blanks := by
  have hhead := List.head?_dropWhile_not (· == "") parts.reverse
  have hsplit := congrArg List.reverse
    (List.takeWhile_append_dropWhile (p := (· == "")) (l := parts.reverse))
  rw [h] at hhead hsplit
  refine ⟨by simpa using hhead, (parts.reverse.takeWhile (· == "")).reverse, ?_, ?_⟩
  · intro part hpart
    simpa using List.mem_takeWhile_imp (List.mem_reverse.mp hpart)
  · simpa using hsplit.symm

/-- The parts of a path up to the name of a new entry, the name, and nothing but slashes. -/
theorem place_for_eq_ok {p : Path} {place : List String} {name : String}
    (h : fs.placeFor p = .ok (place, some name)) :
    ∃ before blanks, refusal? p = none ∧ p.parts = before ++ name :: blanks ∧
      (∀ part ∈ blanks, part = "") ∧ fs.walk (fs.start p) before = .ok place ∧
      fs.entry? place = some .directory ∧ (name ≠ "" ∧ name ≠ "." ∧ name ≠ "..") ∧
      ¬partLimit < name.utf8ByteSize := by
  unfold placeFor at h
  split at h
  · cases h
  · rename_i hr
    split at h
    · cases h
    · rename_i last before hp
      split at h
      · cases h
      · rename_i place' hw
        split at h
        · rename_i hd
          split at h
          · cases h
          · rename_i hdots
            split at h
            · cases h
            · rename_i hshort
              cases h
              obtain ⟨hempty, blanks, hblanks, hparts⟩ := eq_of_drop_while_reverse hp
              exact ⟨before.reverse, blanks, hr, hparts, hblanks, hw, hd,
                ⟨hempty, by simpa using hdots⟩, hshort⟩
        · cases h
        · cases h

/-- The path of a new entry leads to it as soon as something stands there. A path that ends with a
slash leads to a directory only. -/
theorem locate_new {p : Path} {place : List String} {name : String} {entry : DiskEntry}
    (h : fs.placeFor p = .ok (place, some name)) (hg : Grows fs fs')
    (hentry : fs'.entry? (place ++ [name]) = some entry)
    (hslash : entry = .directory ∨ p.parts.getLast? ≠ some "") :
    fs'.locate p = .ok (place ++ [name]) := by
  obtain ⟨before, blanks, hr, hparts, hblanks, hw, hd, hnames, hshort⟩ := place_for_eq_ok h
  have hstep := step_named (hg.directory _ hd) hnames hshort (by rw [hentry]; rfl)
  have hwalk : fs'.walk (fs.start p) before = .ok place := hg.walk hw
  simp only [locate, hr]
  rw [hg.start, hparts, walk_append hwalk]
  refine except_bind_eq_ok.mpr ⟨_, hstep, ?_⟩
  rcases hslash with rfl | hslash
  · exact walk_blanks hentry hblanks
  · rcases List.eq_nil_or_concat blanks with rfl | ⟨front, last, rfl⟩
    · rfl
    · refine absurd ?_ hslash
      rw [hparts, List.concat_eq_append, ← List.cons_append, ← List.append_assoc,
        List.getLast?_concat, hblanks last (by simp)]

/-! Creating directories -/

/-- All that changed is that directories were created, at places that certain paths lead to. -/
structure AddsDirectories (among : Path → Prop) (fs fs' : FileSystem) : Prop where
  grows : Grows fs fs'
  entries : ∀ place, fs'.entry? place = fs.entry? place ∨
    fs.entry? place = none ∧ fs'.entry? place = some .directory ∧
      ∃ p, among p ∧ fs'.locate p = .ok place

namespace AddsDirectories

variable {among : Path → Prop}

theorem refl (fs : FileSystem) : AddsDirectories among fs fs := ⟨.refl fs, fun _ => .inl rfl⟩

theorem trans (h : AddsDirectories among fs fs') (h' : AddsDirectories among fs' fs'') :
    AddsDirectories among fs fs'' := by
  refine ⟨h.grows.trans h'.grows, fun place => ?_⟩
  rcases h.entries place with hsame | ⟨hnone, hnew, p, hp, hl⟩
  · rw [← hsame]
    exact h'.entries place
  · exact .inr ⟨hnone, h'.grows.directory _ hnew, p, hp, h'.grows.locate hl⟩

theorem create {p : Path} (hp : among p) (h : fs.createDirectory p = .ok fs') :
    AddsDirectories among fs fs' := by
  unfold createDirectory at h
  split at h
  · cases h
  · cases h
  · rename_i place name hplace
    split at h
    · cases h
    · rename_i hfree
      cases h
      have hnone : fs.entry? (place ++ [name]) = none := by simpa using hfree
      have hne : place ++ [name] ≠ [] := by simp
      have hg : Grows fs (fs.put (place ++ [name]) .directory) := .put hne (by simp [hnone])
      have hnew := entry_put fs hne .directory
      refine ⟨hg, fun other => ?_⟩
      by_cases ho : other = place ++ [name]
      · subst ho
        have hthere := (hnew (place ++ [name])).trans (if_pos rfl)
        exact .inr ⟨hnone, hthere, p, hp, locate_new hplace hg hthere (.inl rfl)⟩
      · exact .inl ((hnew other).trans (if_neg ho))

theorem ensure {p : Path} {result : Except DiskFailure Unit} (hp : among p)
    (h : fs.ensureDirectory p = (result, fs')) : AddsDirectories among fs fs' := by
  unfold ensureDirectory at h
  split at h
  · rename_i hcreate
    cases h
    exact create hp hcreate
  · split at h
    · cases h
      exact refl fs
    · cases h
      exact refl fs

/-- Creating a directory creates nothing but it and what it stands in. -/
theorem create_all (hup : ∀ q, among q → among q.directory) {levels : Nat} {p : Path}
    {result : Except DiskFailure Unit} (hp : among p)
    (h : createDirectories levels fs p = (result, fs')) : AddsDirectories among fs fs' := by
  induction levels generalizing fs fs' p result with
  | zero =>
    cases h
    exact refl fs
  | succ levels ih =>
    unfold createDirectories at h
    split at h
    · cases h
      exact refl fs
    · cases hfirst : fs.ensureDirectory p with
      | mk first fs₁ =>
        have hone := ensure hp hfirst
        simp only [hfirst] at h
        split at h
        · rename_i hmissing
          cases hmissing
          cases hrest : createDirectories levels fs₁ p.directory with
          | mk rest fs₂ =>
            have habove := hone.trans (ih (hup p hp) hrest)
            simp only [hrest] at h
            split at h
            · rename_i hrest'
              cases hrest'
              exact habove.trans (ensure hp h)
            · rename_i hrest'
              cases hrest'
              cases h
              exact habove
        · cases h
          exact hone

theorem provide {output : Path} {result : Except DiskFailure Unit}
    (h : fs.provideDirectory output.directory = (result, fs')) :
    AddsDirectories output.Within fs fs' :=
  create_all (fun _ => .up) .directory h

end AddsDirectories

/-! Writing a file -/

/-- A written file is found under its path with what was written. Everything else is as before. -/
theorem write_file_eq_ok {p : Path} {contents : ByteArray}
    (h : fs.writeFile p contents = .ok fs') :
    Grows fs fs' ∧ fs'.readBytes p = .ok contents ∧ ∃ place, fs'.locate p = .ok place ∧
      ∀ other, other ≠ place → fs'.entry? other = fs.entry? other := by
  unfold writeFile at h
  split at h
  · cases h
  · cases h
  · rename_i place name hplace
    split at h
    · cases h
    · rename_i hslash
      have hne : place ++ [name] ≠ [] := by simp
      split at h
      · cases h
      · rename_i hfile
        cases h
        have hg : Grows fs (fs.put (place ++ [name]) (.file contents)) :=
          .put hne (by simpa using hfile)
        have hnew := entry_put fs hne (.file contents)
        have hthere := (hnew (place ++ [name])).trans (if_pos rfl)
        have hlocate := locate_new hplace hg hthere (.inr (by simpa using hslash))
        refine ⟨hg, ?_, _, hlocate, fun other ho => (hnew other).trans (if_neg ho)⟩
        simp only [readBytes, lookup, hlocate, hthere]

end FileSystem

end ResourceCompiler
