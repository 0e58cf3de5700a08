import ResourceCompiler.Proofs.Analysis.Blocks
import ResourceCompiler.Proofs.Analysis.DeclarationRoundTrip
import ResourceCompiler.Proofs.Reading.Inheritance

/-!
The resources of a declaration, at every depth: what may be nested in what, and with which id and
name.
-/

namespace ResourceCompiler.Analysis

open ResourceCompiler.Parser

/-- Every resource that a declaration gives, at whatever depth, is one that its tokens declare: its
type is registered, and where another resource is nested in it a reference of its type leads to
that, with the id mapped from its own and allowed by the reference. -/
theorem nested_resources_respect_references {s s' : Analysis} {trees : List InstanceTree}
    (h : declaration s = (.ok trees, s')) : ∃ head taken,
      s.stream.unread = head :: (taken ++ s'.stream.unread) ∧
      (Condition.keyword "declare").holds head = true ∧
      Declaration.Declares s.registry taken trees := by
  obtain ⟨head, s₁, hhead, hrest⟩ := Attempt.bind_eq_ok.mp h
  obtain ⟨known, _, hget, hbody⟩ := Attempt.bind_eq_ok.mp hrest
  cases hget
  obtain ⟨_, _, hunread, rfl, ⟨rfl, hkeyword⟩, -⟩ := parse_takes (takes_ensure _) hhead
  obtain ⟨taken, _, hunread', -, hdeclares, -⟩ := parse_takes Declaration.takes_body hbody
  refine ⟨head, taken, ?_, hkeyword, hdeclares⟩
  rw [hunread, hunread']
  rfl

/-! The asteroids again, one of which has an explosion inside it -/

def beforeAsteroids : Analysis :=
  { start (tokensSpelled ((.identifier, "declare") :: (.identifier, "Asteroid") ::
      block asteroidItems)) with registry := asteroidTypes }

/-- The explosion says neither its id nor its name. -/
def asteroidsRead : List InstanceTree :=
  let place : Location := ⟨"m", 1⟩
  let assigned (field number : String) : Assignment :=
    ⟨field, [⟨.integer, number, place⟩], place⟩
  let inside : Instance := ⟨"Explosion", 128, "Big", [assigned "frames" "-4"], place⟩
  [.node ⟨"Asteroid", 128, "Big", [assigned "strength" "9"], place⟩ [.node inside []],
    .node ⟨"Asteroid", 0, "", [], place⟩ []]

theorem nested_resources_respect_references_asteroids :
    ∃ behind, declaration beforeAsteroids = (.ok asteroidsRead, behind) ∧ ∃ head taken,
      beforeAsteroids.stream.unread = head :: (taken ++ behind.stream.unread) ∧
      (Condition.keyword "declare").holds head = true ∧
      Declaration.Declares asteroidTypes taken asteroidsRead := by
  have hread : declaration beforeAsteroids =
      (.ok asteroidsRead, beforeAsteroids.past beforeAsteroids.stream.unread) := by rfl
  exact ⟨_, hread, nested_resources_respect_references hread⟩

end ResourceCompiler.Analysis
