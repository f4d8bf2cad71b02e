import ShaderPipeline.Journal
import ShaderPipeline.Proofs.Outcome

/-!
# A journal changes no result

Steps that write a journal go through the same outcomes as the steps without one.
Writing a program down may fail where lowering itself would not, so this goes one
way: what succeeds with a journal succeeds without, with the same value.
-/

namespace ShaderPipeline

namespace Journal

variable {α β : Type}

/-- Whatever the journal, where the steps succeed the outcome has their value. -/
def Follows (steps : Journaled α) (outcome : Result α) : Prop :=
  ∀ (before after : List JournalEntry) (value : α),
    (ExceptT.run steps).run before = (.ok value, after) → outcome = .ok value

/-- Steps without a value have only one way to succeed. -/
theorem follows_unit (steps : Journaled Unit) : Follows steps (.ok ()) :=
  fun _ _ _ _ => rfl

/-- Giving a value follows the outcome with that value. -/
theorem follows_pure (value : α) : Follows (pure value) (.ok value) := by
  intro before after other runs
  obtain ⟨same, -⟩ := Prod.mk.inj runs
  exact same

/-- A failure follows itself, because it never succeeds. -/
theorem follows_throw (failure : Failure) :
    Follows (throw failure : Journaled α) (.error failure) := by
  intro before after value runs
  obtain ⟨same, -⟩ := Prod.mk.inj runs
  cases same

/-- An operation without a journal follows its own outcome. -/
theorem follows_lift (outcome : Result α) : Follows (Lowering.lift outcome) outcome := by
  cases outcome with
  | ok value => exact follows_pure value
  | error failure => exact follows_throw failure

/-- Steps follow the outcome if the first ones do and the others do after them. -/
theorem Follows.bind {first : Journaled α} {next : α → Journaled β} {outcome : Result α}
    {others : α → Result β} (follows : Follows first outcome)
    (nextFollows : ∀ value, Follows (next value) (others value)) :
    Follows (first >>= next) (outcome >>= others) := by
  intro before after value runs
  rw [ExceptT.run_bind, StateT.run_bind] at runs
  cases reached : (ExceptT.run first).run before with
  | mk result middle =>
    rw [reached] at runs
    cases result with
    | error failure => cases (Prod.mk.inj runs).1
    | ok found =>
      rw [follows _ _ _ reached]
      exact nextFollows found _ _ _ runs

/-- A check that passes with a journal passes. -/
theorem follows_audit (program : Program) :
    Follows (Lowering.audit observe program) (Lowering.audit (fun _ => .ok ()) program) := by
  unfold Lowering.audit
  split
  · exact follows_pure ()
  · dsimp only
    split
    · exact (follows_unit _).bind fun _ => follows_throw _
    · exact follows_throw _

/-- Where lowering a category succeeds with a journal, it does so without one. -/
theorem follows_lowerCategory (supplied : Option VariableId) (shader : Shader)
    (category : Category) :
    Follows (Lowering.lowerCategory observe supplied shader category)
      (Lowering.lowerCategory (fun _ => .ok ()) supplied shader category) := by
  unfold Lowering.lowerCategory
  simp only [Lowering.lift_eq_self]
  refine (follows_lift _).bind fun found => ?_
  obtain ⟨_ | gathering, gathered⟩ := found
  · exact follows_pure _
  · exact (follows_unit _).bind fun _ => (follows_lift _).bind fun installed =>
      (follows_audit _).bind fun _ => (follows_unit _).bind fun _ => follows_pure _

/-- So has lowering several. -/
theorem follows_lowerCategories (supplied : Option VariableId) (categories : List Category)
    (shader : Shader) :
    Follows (Lowering.lowerCategories observe supplied categories shader)
      (Lowering.lowerCategories (fun _ => .ok ()) supplied categories shader) := by
  induction categories generalizing shader with
  | nil => exact follows_pure _
  | cons category categories inductionHypothesis =>
    exact (follows_lowerCategory supplied shader category).bind fun made =>
      (inductionHypothesis made.2).bind fun _ => follows_pure _

end Journal

/-- A lowering that succeeds with a journal succeeds without one, with the same result. -/
theorem Shader.lower_of_journaled {shader lowered : Shader} {supplied : Option VariableId}
    {entries : List JournalEntry} {structs : CategoryStructs}
    (lowers : shader.lowerJournaled supplied = (entries, .ok (structs, lowered))) :
    shader.lower supplied = .ok (structs, lowered) := by
  have follows := Journal.follows_lowerCategories supplied Category.all shader
  unfold lowerJournaled Journal.run at lowers
  dsimp only at lowers
  split at lowers
  case h_1 failed =>
    obtain ⟨-, same⟩ := Prod.mk.inj lowers
    rw [failed] at same
    cases same
  case h_2 =>
    obtain ⟨-, same⟩ := Prod.mk.inj lowers
    exact follows _ _ _ (Prod.ext same rfl)

end ShaderPipeline
