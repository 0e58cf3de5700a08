import ResourceCompiler.Proofs.Analysis.DefinitionRoundTrip
import ResourceCompiler.Proofs.Reading.DeclarationSpelling

/-!
Resources that are valid in a registry can be declared, and each of their declarations gives them
back, with those that are nested in others. The analysis goes on right behind the declaration.
-/

namespace ResourceCompiler.Analysis

open ResourceCompiler.Parser

/-- Every list of valid resources of a registered type can be declared, and each of its declarations
is read back: the resources are found wherever they stand, and just what follows the declaration
is left. -/
theorem declaration_read_back {registry : Registry} {type : String} {schema : Schema}
    {trees : List InstanceTree} (htype : registry.get? type = some schema)
    (h : ∀ tree ∈ trees, tree.root.typeName = type ∧ tree.Valid registry) :
    (∃ spelled, Declaration.Spells registry type trees spelled) ∧
      ∀ (s : Analysis) (spelled : List Spelling) (tokens rest : List Token),
        Declaration.Spells registry type trees spelled →
        tokens.map Token.spelling = spelled →
        s.stream.unread = tokens ++ rest →
        s.registry = registry →
        ∃ read stream, declaration s = (.ok read, { s with stream }) ∧ stream.unread = rest ∧
          read.map InstanceTree.plain = trees.map InstanceTree.plain := by
  refine ⟨Declaration.exists_declaration_spelling type fun tree htree => (h tree htree).2, ?_⟩
  rintro s _ tokens rest ⟨items, rfl, hspells, rfl⟩ htokens hunread rfl
  obtain ⟨head, body, rfl, hhead, hbody⟩ := List.map_eq_cons_iff.mp htokens
  have hword : [head].map Token.spelling = [(.identifier, "declare")] := by
    rw [List.map_singleton, hhead]
  have hdeclare : Reads (ensure (.keyword "declare")) [(.identifier, "declare")] anything
      fun _ => True := by
    rw [← bind_pure (ensure _)]
    exact reads_keyword fun _ => reads_pure trivial
  obtain ⟨t, behind, hfirst, -, hbehind⟩ := parse_reads hdeclare hword hunread
  have hvalid : ∀ x ∈ items, x.1.root.typeName = type ∧ x.1.Valid s.registry :=
    fun x hx => h x.1 (List.mem_map_of_mem hx)
  obtain ⟨read, stream, hsecond, hread, hstream⟩ :=
    parse_reads (s := { s with stream := behind }) (Declaration.reads_body htype hvalid hspells)
      hbody hbehind
  refine ⟨read, stream, ?_, hstream, hread⟩
  rw [declaration, Attempt.bind_ok hfirst]
  exact hsecond

/-! A type whose resources declare others of another type inside them -/

def asteroidType : Schema :=
  ⟨"Asteroid", "ast ", [⟨"strength", true, "", [⟨"strength", .integer 2 true, 0, 2, [], none⟩]⟩],
    [⟨"explosion", "Explosion", 0, 255, .identity⟩], .unknown⟩

def explosionType : Schema :=
  ⟨"Explosion", "expl", [⟨"frames", true, "", [⟨"frames", .integer 2 true, 0, 2, [], none⟩]⟩], [],
    .unknown⟩

def asteroidTypes : Registry :=
  ⟨#[asteroidType, explosionType], .ofList [("Asteroid", 0), ("Explosion", 1)],
    .ofList [("ast ", 0), ("expl", 1)]⟩

def explosion : Instance :=
  ⟨"Explosion", 128, "Big", [⟨"frames", [⟨.integer, "-4", .unknown⟩], .unknown⟩], .unknown⟩

def asteroid : Instance :=
  ⟨"Asteroid", 128, "Big", [⟨"strength", [⟨.integer, "9", .unknown⟩], .unknown⟩], .unknown⟩

def asteroids : List InstanceTree :=
  [.node asteroid [.node explosion []], .node ⟨"Asteroid", 0, "", [], .unknown⟩ []]

theorem explosion_nests : asteroid.Nests asteroidTypes "explosion" 128 explosion :=
  ⟨asteroidType, ⟨"explosion", "Explosion", 0, 255, .identity⟩, explosionType, by decide +kernel,
    by decide, rfl, by decide +kernel, by decide +kernel, by decide⟩

theorem asteroids_valid :
    ∀ tree ∈ asteroids, tree.root.typeName = "Asteroid" ∧ tree.Valid asteroidTypes := by
  have hexplosion : InstanceTree.Valid asteroidTypes (.node explosion []) :=
    .node (by decide) (by decide) (by simp [explosion, Value.Spellable]) (by simp) (by simp)
  have hasteroid : InstanceTree.Valid asteroidTypes (.node asteroid [.node explosion []]) :=
    .node (by decide) (by decide) (by simp [asteroid, Value.Spellable])
      (List.forall_mem_singleton.mpr ⟨_, _, explosion_nests⟩)
      (List.forall_mem_singleton.mpr hexplosion)
  have hlast : InstanceTree.Valid asteroidTypes (.node ⟨"Asteroid", 0, "", [], .unknown⟩ []) :=
    .node (by decide) (by decide) (by simp) (by simp) (by simp)
  exact List.forall_mem_cons.mpr ⟨⟨rfl, hasteroid⟩, List.forall_mem_singleton.mpr ⟨rfl, hlast⟩⟩

/-- The explosion has its id and its name from the asteroid around it. -/
def explosionSpelling : List Spelling :=
  [(.identifier, "new"), (.leftBrace, "\x7b"), (.identifier, "frames"), (.equals, "="),
    (.minus, "-"), (.integer, "4"), (.semicolon, ";"), (.rightBrace, "\x7d")]

def asteroidSpelling : List Spelling :=
  [(.identifier, "new"), (.leftParen, "("), (.identifier, "name"), (.equals, "="), (.string, "Big"),
    (.comma, ","), (.identifier, "id"), (.equals, "="), (.resourceId, "128"), (.rightParen, ")"),
    (.leftBrace, "\x7b"), (.identifier, "explosion"), (.equals, "=")] ++ explosionSpelling ++
  [(.identifier, "strength"), (.equals, "="), (.integer, "9"), (.semicolon, ";"),
    (.rightBrace, "\x7d")]

def asteroidItems : List (InstanceTree × List Spelling) :=
  [(.node asteroid [.node explosion []], asteroidSpelling ++ [(.semicolon, ";")]),
    (.node ⟨"Asteroid", 0, "", [], .unknown⟩ [],
      [(.identifier, "new"), (.leftBrace, "\x7b"), (.rightBrace, "\x7d")])]

theorem explosion_spelled :
    (InstanceTree.node explosion []).Spells asteroidTypes (128, "Big") explosionSpelling := by
  have hvalues : (⟨"frames", [⟨.integer, "-4", .unknown⟩], .unknown⟩ : Assignment).Spells
      [(.identifier, "frames"), (.equals, "="), (.minus, "-"), (.integer, "4"),
        (.semicolon, ";")] := by
    refine ⟨[(⟨.integer, "-4", .unknown⟩, [(.minus, "-"), (.integer, "4")])], rfl, ?_, rfl⟩
    exact List.forall_mem_singleton.mpr (.inr ⟨"4", rfl, .inl rfl⟩)
  exact @InstanceTree.Spells.node asteroidTypes _ explosion [] []
    [.values _ _] ⟨false, [], rfl, by simp, .inl ⟨rfl, rfl⟩⟩ rfl rfl
    (List.forall_mem_singleton.mpr hvalues) (by simp)

theorem asteroid_spelled : (InstanceTree.node asteroid [.node explosion []]).Spells asteroidTypes
    (0, "") asteroidSpelling := by
  have hvalues : (⟨"strength", [⟨.integer, "9", .unknown⟩], .unknown⟩ : Assignment).Spells
      [(.identifier, "strength"), (.equals, "="), (.integer, "9"), (.semicolon, ";")] := by
    refine ⟨[(⟨.integer, "9", .unknown⟩, [(.integer, "9")])], rfl, ?_, rfl⟩
    exact List.forall_mem_singleton.mpr (.inl rfl)
  refine @InstanceTree.Spells.node asteroidTypes _ asteroid [.node explosion []] _
    [.nested "explosion" 128 (.node explosion []) explosionSpelling false, .values _ _]
    ⟨false, [(.name "Big", assigned "name" ++ [(.string, "Big")]),
      (.id 128, assigned "id" ++ [(.resourceId, "128")])], rfl, ?_, .inr rfl⟩ rfl rfl
    (List.forall_mem_cons.mpr ⟨explosion_nests, List.forall_mem_singleton.mpr hvalues⟩) ?_
  · exact List.forall_mem_cons.mpr ⟨rfl, List.forall_mem_singleton.mpr
      ⟨"128", by decide +kernel, rfl⟩⟩
  · intro field id child spelled ended hline
    obtain ⟨rfl, rfl, rfl, rfl, rfl⟩ := Declaration.Line.nested.inj (by simpa using hline)
    exact explosion_spelled

theorem asteroids_spelled : Declaration.Spells asteroidTypes "Asteroid" asteroids
    ((.identifier, "declare") :: (.identifier, "Asteroid") :: block asteroidItems) := by
  have hlast : (InstanceTree.node ⟨"Asteroid", 0, "", [], .unknown⟩ []).Spells asteroidTypes (0, "")
      [(.identifier, "new"), (.leftBrace, "\x7b"), (.rightBrace, "\x7d")] :=
    @InstanceTree.Spells.node asteroidTypes _ _ [] [] [] ⟨false, [], rfl, by simp,
      .inl ⟨rfl, rfl⟩⟩ rfl rfl (by simp) (by simp)
  exact ⟨asteroidItems, rfl, List.forall_mem_cons.mpr ⟨⟨_, true, asteroid_spelled, rfl⟩,
    List.forall_mem_singleton.mpr ⟨_, false, hlast, rfl⟩⟩, rfl⟩

/-- A semicolon stands behind the first of two asteroids, and a word behind the declaration. -/
theorem declaration_read_back_asteroids :
    asteroidTypes.get? "Asteroid" = some asteroidType ∧
      (∀ tree ∈ asteroids, tree.root.typeName = "Asteroid" ∧ tree.Valid asteroidTypes) ∧
      ∃ read stream,
        let tokens := tokensSpelled
          ((.identifier, "declare") :: (.identifier, "Asteroid") :: block asteroidItems)
        let behind := tokensSpelled [(.identifier, "declare")]
        let s := { start (tokens ++ behind) with registry := asteroidTypes }
        declaration s = (.ok read, { s with stream }) ∧ stream.unread = behind ∧
          read.map InstanceTree.plain = asteroids.map InstanceTree.plain := by
  have htype : asteroidTypes.get? "Asteroid" = some asteroidType := by decide +kernel
  exact ⟨htype, asteroids_valid, (declaration_read_back htype asteroids_valid).2 _ _ _ _
    asteroids_spelled (map_spelling_tokens _) rfl rfl⟩

end ResourceCompiler.Analysis
