import Mathlib
import ResourceCompiler.Compile
import ResourceCompiler.Proofs.Analysis.Front
import ResourceCompiler.Proofs.Disk.Growing

/-!
What a compilation leaves on the disk. Whatever fails before the output is written leaves nothing;
a compilation that succeeds leaves its bytes in the output file, and else at most the directories
that the file stands in. All of this holds however directories are walked through.
-/

namespace ResourceCompiler.Compile

variable {walk : DirectoryWalk} {disk disk' : FileSystem} {options : CompileOptions}
  {input output : Path}

/-! Failing before anything is written -/

/-- A compilation fails in one of its stages, all earlier ones having succeeded. -/
inductive Fails (walk : DirectoryWalk) (disk : FileSystem) (options : CompileOptions)
    (input : Path) : CompileError → Prop
  | loading {e : CompileError} (hload : SourceFile.load walk disk input = .error e) :
      Fails walk disk options input e
  | lexing {e : CompileError} {files : List SourceFile}
      (hload : SourceFile.load walk disk input = .ok files)
      (hlex : SourceFile.tokensOfAll files = .error e) :
      Fails walk disk options input e
  | analysis {e : CompileError} {files : List SourceFile} {tokens : List Token}
      (hload : SourceFile.load walk disk input = .ok files)
      (hlex : SourceFile.tokensOfAll files = .ok tokens)
      (hrun : ((Analysis.start tokens).run ⟨disk, options.includeDirectories⟩).1 = .error e) :
      Fails walk disk options input e
  | assembly {e : CompileError} {files : List SourceFile} {tokens : List Token} {a : Analysis}
      (hload : SourceFile.load walk disk input = .ok files)
      (hlex : SourceFile.tokensOfAll files = .ok tokens)
      (hrun : (Analysis.start tokens).run ⟨disk, options.includeDirectories⟩ = (.ok (), a))
      (hassemble : (Target.assemble disk a.registry a.instances.toList
        (.start a.diagnostics)).1 = .error e) :
      Fails walk disk options input e
  | encoding {e : CompileError} {files : List SourceFile} {tokens : List Token} {a : Analysis}
      {c : Container}
      (hload : SourceFile.load walk disk input = .ok files)
      (hlex : SourceFile.tokensOfAll files = .ok tokens)
      (hrun : (Analysis.start tokens).run ⟨disk, options.includeDirectories⟩ = (.ok (), a))
      (hassemble : (Target.assemble disk a.registry a.instances.toList
        (.start a.diagnostics)).1 = .ok c)
      (hencode : c.encode options.format = .error e) :
      Fails walk disk options input e

theorem compile_tokens_eq_error {tokens : List Token} {analysed : Except CompileError Unit}
    {a : Analysis} {e : CompileError}
    (hrun : (Analysis.start tokens).run ⟨disk, options.includeDirectories⟩ = (analysed, a)) :
    compileTokens disk options tokens = .error e ↔ analysed = .error e ∨ analysed = .ok () ∧
      ((Target.assemble disk a.registry a.instances.toList (.start a.diagnostics)).1 = .error e ∨
        ∃ c, (Target.assemble disk a.registry a.instances.toList
            (.start a.diagnostics)).1 = .ok c ∧ c.encode options.format = .error e) := by
  unfold compileTokens
  simp only [hrun, except_bind_eq_error, pure, Except.pure, reduceCtorEq, and_false, exists_const,
    or_false]
  constructor
  · rintro (h | ⟨⟨⟩, hok, h⟩)
    · exact .inl h
    · exact .inr ⟨hok, h⟩
  · rintro (h | ⟨hok, h⟩)
    · exact .inl h
    · exact .inr ⟨(), hok, h⟩

theorem load_tokens_eq_error {e : CompileError} : loadTokens walk disk input = .error e ↔
    SourceFile.load walk disk input = .error e ∨
      ∃ files, SourceFile.load walk disk input = .ok files ∧
        SourceFile.tokensOfAll files = .error e :=
  except_bind_eq_error

theorem load_tokens_eq_ok {tokens : List Token} : loadTokens walk disk input = .ok tokens ↔
    ∃ files, SourceFile.load walk disk input = .ok files ∧
      SourceFile.tokensOfAll files = .ok tokens :=
  except_bind_eq_ok

/-- There are no other failures. -/
theorem compile_path_eq_error {e : CompileError} :
    compilePath walk disk options input = .error e ↔ Fails walk disk options input e := by
  unfold compilePath
  rw [except_bind_eq_error, load_tokens_eq_error]
  simp only [load_tokens_eq_ok]
  constructor
  · rintro ((hload | ⟨files, hload, hlex⟩) | ⟨tokens, ⟨files, hload, hlex⟩, h⟩)
    · exact .loading hload
    · exact .lexing hload hlex
    · rcases (compile_tokens_eq_error rfl).mp h with hrun | ⟨hrun, h⟩
      · exact .analysis hload hlex hrun
      · rcases h with hassemble | ⟨c, hassemble, hencode⟩
        · exact .assembly hload hlex (Prod.ext hrun rfl) hassemble
        · exact .encoding hload hlex (Prod.ext hrun rfl) hassemble hencode
  · intro h
    cases h with
    | loading hload => exact .inl (.inl hload)
    | lexing hload hlex => exact .inl (.inr ⟨_, hload, hlex⟩)
    | analysis hload hlex hrun =>
      exact .inr ⟨_, ⟨_, hload, hlex⟩, (compile_tokens_eq_error rfl).mpr (.inl hrun)⟩
    | assembly hload hlex hrun hassemble =>
      refine .inr ⟨_, ⟨_, hload, hlex⟩, ?_⟩
      exact (compile_tokens_eq_error hrun).mpr (.inr ⟨rfl, .inl hassemble⟩)
    | encoding hload hlex hrun hassemble hencode =>
      refine .inr ⟨_, ⟨_, hload, hlex⟩, ?_⟩
      exact (compile_tokens_eq_error hrun).mpr (.inr ⟨rfl, .inr ⟨_, hassemble, hencode⟩⟩)

/-- A compilation succeeds if all of its stages do. -/
theorem compile_path_of_stages {files : List SourceFile} {tokens : List Token} {a : Analysis}
    {c : Container} {bytes : ByteArray} (hload : SourceFile.load walk disk input = .ok files)
    (hlex : SourceFile.tokensOfAll files = .ok tokens)
    (hrun : (Analysis.start tokens).run ⟨disk, options.includeDirectories⟩ = (.ok (), a))
    (hassemble : (Target.assemble disk a.registry a.instances.toList
      (.start a.diagnostics)).1 = .ok c)
    (hencode : c.encode options.format = .ok bytes) :
    ∃ artifact, compilePath walk disk options input = .ok artifact ∧ artifact.bytes = bytes ∧
      artifact.resources = c.summaries := by
  have hloaded : loadTokens walk disk input = .ok tokens :=
    load_tokens_eq_ok.mpr ⟨files, hload, hlex⟩
  have hcompiled : compileTokens disk options tokens =
      .ok ⟨bytes, c.summaries, a.messages, (Target.assemble disk a.registry a.instances.toList
        (.start a.diagnostics)).2.diagnostics⟩ := by
    unfold compileTokens
    rw [hrun]
    refine except_bind_eq_ok.mpr ⟨(), rfl, ?_⟩
    exact except_bind_eq_ok.mpr ⟨c, hassemble, except_bind_eq_ok.mpr ⟨bytes, hencode, rfl⟩⟩
  exact ⟨_, except_bind_eq_ok.mpr ⟨tokens, hloaded, hcompiled⟩, rfl, rfl⟩

/-- Nothing is written without a result. -/
theorem compile_to_file_of_error {e : CompileError}
    (h : compilePath walk disk options input = .error e) :
    compileToFile walk disk options input output = (.error e, disk) := by
  unfold compileToFile
  rcases except_bind_eq_error.mp h with hload | ⟨tokens, hload, hcompile⟩
  · rw [hload]
  · rw [hload]
    dsimp only
    rw [hcompile]

/-- A result is written, and is the one of the compilation to a file unless that fails. -/
theorem compile_to_file_of_ok {artifact : Artifact} {written : Except CompileError Unit}
    (h : compilePath walk disk options input = .ok artifact)
    (hwrite : writeOutput output artifact.bytes disk = (written, disk')) :
    compileToFile walk disk options input output = (written.map fun _ => artifact, disk') := by
  unfold compileToFile
  obtain ⟨tokens, hload, hcompile⟩ := except_bind_eq_ok.mp h
  rw [hload]
  dsimp only
  rw [hcompile]
  dsimp only
  rw [hwrite]
  cases written <;> rfl

/-! The output file -/

/-- Only the output file and directories that it stands in differ. -/
def OnlyOutput (output : Path) (place : List String) (disk disk' : FileSystem) : Prop :=
  ∀ other, other ≠ place → disk'.entry? other = disk.entry? other ∨
    disk.entry? other = none ∧ disk'.entry? other = some .directory ∧
      ∃ directory, output.Within directory ∧ disk'.locate directory = .ok other

/-- The output is written once its directories are there. -/
theorem write_output_ok {bytes : ByteArray} (h : writeOutput output bytes disk = (.ok (), disk')) :
    ∃ provided, FileSystem.AddsDirectories output.Within disk provided ∧
      provided.writeFile output bytes = .ok disk' := by
  unfold writeOutput at h
  dsimp only at h
  split at h
  · refine ⟨disk, .refl disk, ?_⟩
    split at h
    · rename_i hwrite
      cases h
      exact hwrite
    · cases h
  · split at h
    · rename_i provided hprovide
      refine ⟨provided, .provide hprovide, ?_⟩
      split at h
      · rename_i hwrite
        cases h
        exact hwrite
      · cases h
    · cases h

/-- If the output cannot be written, some of its directories may be there now. -/
theorem write_output_error {bytes : ByteArray} {e : CompileError}
    (h : writeOutput output bytes disk = (.error e, disk')) :
    FileSystem.AddsDirectories output.Within disk disk' := by
  unfold writeOutput at h
  dsimp only at h
  split at h
  · split at h
    · cases h
    · cases h
      exact .refl disk
  · split at h
    · rename_i provided hprovide
      split at h
      · cases h
      · cases h
        exact .provide hprovide
    · rename_i provided hprovide
      cases h
      exact .provide hprovide

/-- The output holds what was written, and nothing else has changed but its directories. -/
theorem written_output {bytes : ByteArray} (h : writeOutput output bytes disk = (.ok (), disk')) :
    disk'.readBytes output = .ok bytes ∧ disk'.workingDirectory = disk.workingDirectory ∧
      ∃ place, disk'.locate output = .ok place ∧ OnlyOutput output place disk disk' := by
  obtain ⟨provided, hadds, hwrite⟩ := write_output_ok h
  obtain ⟨hgrows, hread, place, hlocate, hothers⟩ := FileSystem.write_file_eq_ok hwrite
  refine ⟨hread, hgrows.workingDirectory.trans hadds.grows.workingDirectory, place, hlocate, ?_⟩
  intro other ho
  rw [hothers other ho]
  rcases hadds.entries other with hsame | ⟨hnone, hnew, directory, hwithin, hl⟩
  · exact .inl hsame
  · exact .inr ⟨hnone, hnew, directory, hwithin, hgrows.locate hl⟩

/-- A compilation whose output cannot be written leaves every file as it was. -/
theorem failed_compile_keeps_files {e : CompileError}
    (h : compileToFile walk disk options input output = (.error e, disk')) :
    FileSystem.AddsDirectories output.Within disk disk' := by
  cases hcompile : compilePath walk disk options input with
  | error e' =>
    cases (compile_to_file_of_error hcompile).symm.trans h
    exact .refl disk
  | ok artifact =>
    rcases hwrite : writeOutput output artifact.bytes disk with ⟨e' | ⟨⟩, disk₁⟩
    · cases (compile_to_file_of_ok hcompile hwrite).symm.trans h
      exact write_output_error hwrite
    · cases (compile_to_file_of_ok hcompile hwrite).symm.trans h

/-- A compilation that fails in any of its stages leaves the disk as it was. One that succeeds has
compiled the disk as it was before, and leaves the bytes in the output file and nothing else but
directories that the file stands in. The walk through a directory may fail or not, and come by the
sources in any order; nothing depends on it. -/
theorem compile_to_file_all_or_nothing (walk : DirectoryWalk) (disk : FileSystem)
    (options : CompileOptions) (input output : Path) :
    (∀ e, compilePath walk disk options input = .error e ↔ Fails walk disk options input e) ∧
    (∀ e, Fails walk disk options input e →
      compileToFile walk disk options input output = (.error e, disk)) ∧
    ∀ artifact disk', compileToFile walk disk options input output = (.ok artifact, disk') →
      compilePath walk disk options input = .ok artifact ∧
      disk'.readBytes output = .ok artifact.bytes ∧
      disk'.workingDirectory = disk.workingDirectory ∧
      ∃ place, disk'.locate output = .ok place ∧ OnlyOutput output place disk disk' := by
  refine ⟨fun e => compile_path_eq_error, fun e h => ?_, fun artifact disk' h => ?_⟩
  · exact compile_to_file_of_error (compile_path_eq_error.mpr h)
  · cases hcompile : compilePath walk disk options input with
    | error e => cases (compile_to_file_of_error hcompile).symm.trans h
    | ok artifact' =>
      rcases hwrite : writeOutput output artifact'.bytes disk with ⟨e | ⟨⟩, disk₁⟩
      · cases (compile_to_file_of_ok hcompile hwrite).symm.trans h
      · cases (compile_to_file_of_ok hcompile hwrite).symm.trans h
        exact ⟨rfl, written_output hwrite⟩

/-! A desk with a source in a directory, one that cannot be assembled, and an older output -/

def desk (good bad : ByteArray) : FileSystem :=
  ⟨[(["h"], .directory), (["h", "b"], .file bad), (["h", "d"], .directory),
    (["h", "d", "a.kdl"], .file good), (["h", "k"], .file (bytesOf [1, 2, 3]))], ["h"]⟩

def typeSource : String :=
  "@define \x7b name = \"T\"; code = \"TTTT\"; field(\"f\") \x7b" ++
    "value(offset = 0, type = p_string); \x7d; \x7d"

def goodSource : String := typeSource ++ "declare T \x7b new \x7b f = \"a\"; \x7d \x7d"

/-- The field is no text. -/
def badSource : String := typeSource ++ "declare T \x7b new \x7b f = 1; \x7d \x7d"

def sources : FileSystem := desk goodSource.toUTF8 badSource.toUTF8

/-- A walk that comes to something it may not look at. -/
def lockedWalk : DirectoryWalk := fun _ directory =>
  [.ok directory, .error ⟨some (directory.join ⟨"x"⟩), .permissionDenied⟩]

theorem read_text {text : String} (hbytes : disk.readBytes input = .ok text.toUTF8) :
    SourceFile.read disk input = .ok ⟨input, text⟩ := by
  have htext : String.fromUTF8? text.toUTF8 = some text := dif_pos text.isValidUTF8
  rw [SourceFile.read, FileSystem.readText, hbytes]
  dsimp only
  rw [htext]

theorem lookup_source (good bad : ByteArray) :
    (desk good bad).lookup ⟨"d/a.kdl"⟩ = .ok (.file good) := by
  have hrefusal : FileSystem.refusal? ⟨"d/a.kdl"⟩ = none := by cbv
  have hparts : (Path.mk "d/a.kdl").parts = ["d", "a.kdl"] := by decide +kernel
  have habsolute : (Path.mk "d/a.kdl").isAbsolute = false := by decide +kernel
  have hlocate : (desk good bad).locate ⟨"d/a.kdl"⟩ = .ok ["h", "d", "a.kdl"] := by
    rw [FileSystem.locate, hrefusal, hparts, FileSystem.start, habsolute]
    cbv
  rw [FileSystem.lookup, hlocate]
  cbv

theorem paths_of_desk (good bad : ByteArray) :
    SourceFile.paths .overEntries (desk good bad) ⟨"d"⟩ = .ok [⟨"d/a.kdl"⟩] := by
  have hdirectory : (desk good bad).isDirectory ⟨"d"⟩ = true := by cbv
  have hwalk : DirectoryWalk.overEntries (desk good bad) ⟨"d"⟩ =
      [.ok ⟨"d"⟩, .ok ⟨"d/a.kdl"⟩] := by cbv
  have hfile : (desk good bad).isFile ⟨"d/a.kdl"⟩ = true := by
    rw [FileSystem.isFile, lookup_source]
  have hsource : SourceFile.isSource ⟨"d/a.kdl"⟩ = true := by decide +kernel
  have hother : SourceFile.isSource ⟨"d"⟩ = false := by decide +kernel
  rw [SourceFile.paths, hdirectory, hwalk]
  refine except_bind_eq_ok.mpr ⟨[⟨"d"⟩, ⟨"d/a.kdl"⟩], rfl, ?_⟩
  simp [hfile, hsource, hother, pure, Except.pure]

theorem load_good :
    SourceFile.load .overEntries sources ⟨"d"⟩ = .ok [⟨⟨"d/a.kdl"⟩, goodSource⟩] := by
  have hbytes : sources.readBytes ⟨"d/a.kdl"⟩ = .ok goodSource.toUTF8 := by
    rw [FileSystem.readBytes, sources, lookup_source]
  refine except_bind_eq_ok.mpr ⟨_, paths_of_desk .., ?_⟩
  rw [List.mapM_cons, read_text hbytes]
  rfl

theorem load_bad : SourceFile.load walk sources ⟨"b"⟩ = .ok [⟨⟨"b"⟩, badSource⟩] := by
  have hdirectory (good bad : ByteArray) : (desk good bad).isDirectory ⟨"b"⟩ = false := by cbv
  have hcontents (good bad : ByteArray) : (desk good bad).readBytes ⟨"b"⟩ = .ok bad := by cbv
  have hbytes : sources.readBytes ⟨"b"⟩ = .ok badSource.toUTF8 := hcontents ..
  have hpaths : SourceFile.paths walk sources ⟨"b"⟩ = .ok [⟨"b"⟩] := by
    rw [SourceFile.paths, sources, hdirectory]
    rfl
  refine except_bind_eq_ok.mpr ⟨_, hpaths, ?_⟩
  rw [List.mapM_cons, read_text hbytes]
  rfl

theorem load_locked :
    SourceFile.load lockedWalk sources ⟨"d"⟩ = .error (.disk ⟨"d/x"⟩ .permissionDenied) := by
  have hdirectory (good bad : ByteArray) : (desk good bad).isDirectory ⟨"d"⟩ = true := by cbv
  have hvisits (disk : FileSystem) : (lockedWalk disk ⟨"d"⟩).mapM (SourceFile.visited ⟨"d"⟩) =
      .error (.disk ⟨"d/x"⟩ .permissionDenied) := by cbv
  refine except_bind_eq_error.mpr (.inl ?_)
  rw [SourceFile.paths, sources, hdirectory]
  exact except_bind_eq_error.mpr (.inl (hvisits _))

theorem run_two_blocks {w : Surroundings} {s s₁ s₂ : Analysis}
    (h₁ : s.step w = (.ok (), s₁)) (h₂ : s₁.step w = (.ok (), s₂))
    (hfinished : s₂.stream.isFinished = true) : s.run w = (.ok (), s₂) :=
  (Analysis.run_block (Analysis.not_finished_of_step h₁) h₁).trans
    ((Analysis.run_block (Analysis.not_finished_of_step h₂) h₂).trans
      (Analysis.run_finished hfinished))

theorem compile_good : ∃ artifact,
    compilePath .overEntries sources ⟨.standard, []⟩ ⟨"d"⟩ = .ok artifact ∧
      artifact.resources = [⟨"TTTT", 0, "", 2⟩] := by
  have hstages : ∃ tokens, SourceFile.tokensOfAll [⟨⟨"d/a.kdl"⟩, goodSource⟩] = .ok tokens ∧
      ∃ s₁, (Analysis.start tokens).step ⟨sources, []⟩ = (.ok (), s₁) ∧
      ∃ s₂, s₁.step ⟨sources, []⟩ = (.ok (), s₂) ∧ s₂.stream.isFinished = true ∧
      ∃ c, (Target.assemble sources s₂.registry s₂.instances.toList (.start s₂.diagnostics)).1 =
        .ok c ∧ c.summaries = [⟨"TTTT", 0, "", 2⟩] ∧ (c.encode .standard).isOk = true :=
    ⟨_, by cbv, _, by rfl, _, by rfl, by rfl, _, by cbv, by cbv, by decide +kernel⟩
  obtain ⟨tokens, hlex, s₁, h₁, s₂, h₂, hfinished, c, hassemble, hresources, hencode⟩ := hstages
  cases hbytes : c.encode .standard with
  | error e => simp [hbytes, Except.isOk, Except.toBool] at hencode
  | ok bytes =>
    have hcompile : ∃ artifact, compilePath .overEntries sources ⟨.standard, []⟩ ⟨"d"⟩ =
        .ok artifact ∧ artifact.bytes = bytes ∧ artifact.resources = c.summaries :=
      compile_path_of_stages load_good hlex (run_two_blocks h₁ h₂ hfinished) hassemble hbytes
    obtain ⟨artifact, hcompile, -, hsame⟩ := hcompile
    exact ⟨artifact, hcompile, hsame.trans hresources⟩

theorem assembly_fails : Fails walk sources ⟨.standard, []⟩ ⟨"b"⟩
    (.meaning ⟨"b", 1⟩ (.valueNotPermitted .integer "1" .pascalString "f" "f")) := by
  have hstages : ∃ tokens, SourceFile.tokensOfAll [⟨⟨"b"⟩, badSource⟩] = .ok tokens ∧
      ∃ s₁, (Analysis.start tokens).step ⟨sources, []⟩ = (.ok (), s₁) ∧
      ∃ s₂, s₁.step ⟨sources, []⟩ = (.ok (), s₂) ∧ s₂.stream.isFinished = true ∧
      (Target.assemble sources s₂.registry s₂.instances.toList (.start s₂.diagnostics)).1 =
        .error (.meaning ⟨"b", 1⟩ (.valueNotPermitted .integer "1" .pascalString "f" "f")) :=
    ⟨_, by cbv, _, by rfl, _, by rfl, by rfl, by cbv⟩
  obtain ⟨tokens, hlex, s₁, h₁, s₂, h₂, hfinished, hassemble⟩ := hstages
  exact .assembly load_bad hlex (run_two_blocks h₁ h₂ hfinished) hassemble

theorem write_new_directory (good bad bytes : ByteArray) :
    (writeOutput ⟨"o/k"⟩ bytes (desk good bad)).1 = .ok () := by
  have hdirectory : (Path.mk "o/k").directory = ⟨"o"⟩ := by decide +kernel
  unfold writeOutput
  dsimp only
  rw [hdirectory]
  cbv

/-- A compilation of the whole directory, into one that is still to be created. Then one that fails
in the assembly, with an older output in place, and one whose walk fails. -/
theorem compile_to_file_all_or_nothing_desk :
    (∃ artifact disk',
      compileToFile .overEntries sources ⟨.standard, []⟩ ⟨"d"⟩ ⟨"o/k"⟩ = (.ok artifact, disk') ∧
      artifact.resources = [⟨"TTTT", 0, "", 2⟩] ∧ sources.lookup ⟨"o"⟩ = .error .notFound ∧
      disk'.readBytes ⟨"o/k"⟩ = .ok artifact.bytes) ∧
    (compileToFile .overEntries sources ⟨.standard, []⟩ ⟨"b"⟩ ⟨"k"⟩ =
      (.error (.meaning ⟨"b", 1⟩ (.valueNotPermitted .integer "1" .pascalString "f" "f")),
        sources) ∧
      sources.readBytes ⟨"k"⟩ = .ok (bytesOf [1, 2, 3])) ∧
    compileToFile lockedWalk sources ⟨.standard, []⟩ ⟨"d"⟩ ⟨"o/k"⟩ =
      (.error (.disk ⟨"d/x"⟩ .permissionDenied), sources) := by
  have hmissing (good bad : ByteArray) : (desk good bad).lookup ⟨"o"⟩ = .error .notFound := by cbv
  have holder (good bad : ByteArray) :
      (desk good bad).readBytes ⟨"k"⟩ = .ok (bytesOf [1, 2, 3]) := by cbv
  refine ⟨?_, ⟨?_, holder ..⟩, ?_⟩
  · obtain ⟨-, -, hsuccess⟩ :=
      compile_to_file_all_or_nothing .overEntries sources ⟨.standard, []⟩ ⟨"d"⟩ ⟨"o/k"⟩
    obtain ⟨artifact, hcompile, hresources⟩ := compile_good
    have hwrite : writeOutput ⟨"o/k"⟩ artifact.bytes sources =
        (.ok (), (writeOutput ⟨"o/k"⟩ artifact.bytes sources).2) :=
      Prod.ext (write_new_directory ..) rfl
    have hfile := compile_to_file_of_ok hcompile hwrite
    exact ⟨artifact, _, hfile, hresources, hmissing .., (hsuccess _ _ hfile).2.1⟩
  · obtain ⟨-, hfailure, -⟩ :=
      compile_to_file_all_or_nothing .overEntries sources ⟨.standard, []⟩ ⟨"b"⟩ ⟨"k"⟩
    exact hfailure _ assembly_fails
  · obtain ⟨-, hfailure, -⟩ :=
      compile_to_file_all_or_nothing lockedWalk sources ⟨.standard, []⟩ ⟨"d"⟩ ⟨"o/k"⟩
    exact hfailure _ (.loading load_locked)

end ResourceCompiler.Compile
