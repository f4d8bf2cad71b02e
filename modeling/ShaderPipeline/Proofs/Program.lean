import Mathlib.Data.List.Nodup
import ShaderPipeline.Proofs.Tables
import ShaderPipeline.Validity

/-!
# The entry point of a program

A valid program defines exactly one entry point. It is found at its place among
the declarations, and no other definition is one.
-/

namespace ShaderPipeline

namespace Program

variable {program : Program} {tables : Tables} {globals : List Global}

/-- The definitions are those among the declarations. -/
theorem mem_definitions {function : FunctionId} {body : Block} :
    (function, body) ∈ program.definitions ↔ .definition function body ∈ program.globals := by
  simp only [definitions, List.mem_filterMap]
  constructor
  · rintro ⟨global, member, same⟩
    cases global <;> simp_all [Global.definition?]
  · intro member
    exact ⟨_, member, rfl⟩

/-- The signatures of all definitions are known. -/
def Known (tables : Tables) (globals : List Global) : Prop :=
  ∀ {function : FunctionId} {body : Block}, .definition function body ∈ globals →
    ∃ entry, tables.functions[function.index]? = some entry

/-- The entry point that is found stands at its place. -/
theorem findMain_inv {place : Nat} {main : FunctionId}
    (found : tables.findMain globals = .ok (some (place, main))) :
    place < globals.length ∧ (∃ body, globals[place]? = some (.definition main body)) ∧
      ∃ entry, tables.functions[main.index]? = some entry ∧ entry.isMain = true := by
  induction globals generalizing place with
  | nil => simp [Tables.findMain] at found
  | cons global rest inductionHypothesis =>
    -- Whatever stands first, the entry point may be found among the rest.
    have later {other : Nat} (foundRest : tables.findMain rest = .ok (some (other, main)))
        (same : other + 1 = place) :
        place < (global :: rest).length ∧
          (∃ body, (global :: rest)[place]? = some (.definition main body)) ∧
          ∃ entry, tables.functions[main.index]? = some entry ∧ entry.isMain = true := by
      obtain ⟨inside, there, isMain⟩ := inductionHypothesis foundRest
      subst same
      exact ⟨by simpa using inside, by simpa using there, isMain⟩
    have mapped {result : Option (Nat × FunctionId)}
        (foundRest : tables.findMain rest = .ok result)
        (same : (result.map fun found => (found.1 + 1, found.2)) = some (place, main)) :
        ∃ other, tables.findMain rest = .ok (some (other, main)) ∧ other + 1 = place := by
      obtain ⟨⟨other, otherMain⟩, rfl, equal⟩ := Option.map_eq_some_iff.mp same
      simp only [Prod.mk.injEq] at equal
      exact ⟨other, equal.2 ▸ foundRest, equal.1⟩
    cases global with
    | definition function body =>
      simp only [Tables.findMain, Outcome.bind_eq_ok_iff, Tables.functionAt_eq_ok_iff] at found
      obtain ⟨entry, known, found⟩ := found
      split at found
      case isTrue isMain =>
        simp only [Outcome.pure_eq_ok, Except.ok.injEq, Option.some.injEq, Prod.mk.injEq] at found
        obtain ⟨rfl, rfl⟩ := found
        exact ⟨by simp, ⟨body, rfl⟩, entry, known, isMain⟩
      case isFalse =>
        simp only [Outcome.bind_eq_ok_iff, Outcome.pure_eq_ok, Except.ok.injEq] at found
        obtain ⟨result, foundRest, same⟩ := found
        obtain ⟨other, foundMain, equal⟩ := mapped foundRest same
        exact later foundMain equal
    | struct | var | prototype =>
      simp only [Tables.findMain, Outcome.bind_eq_ok_iff, Outcome.pure_eq_ok,
        Except.ok.injEq] at found
      obtain ⟨result, foundRest, same⟩ := found
      obtain ⟨other, foundMain, equal⟩ := mapped foundRest same
      exact later foundMain equal

/-- Where all definitions are known, looking for the entry point succeeds, and finds one if there
is one. -/
theorem findMain_ok (known : Known tables globals) :
    ∃ found, tables.findMain globals = .ok found ∧
      ((∃ function body entry, .definition function body ∈ globals ∧
        tables.functions[function.index]? = some entry ∧ entry.isMain = true) →
          found.isSome = true) := by
  induction globals with
  | nil => exact ⟨none, rfl, by simp⟩
  | cons global rest inductionHypothesis =>
    obtain ⟨found, foundOk, exists'⟩ := inductionHypothesis fun member =>
      known (List.mem_cons_of_mem _ member)
    cases global with
    | definition function body =>
      obtain ⟨entry, there⟩ := known (List.mem_cons_self ..)
      have entryOk : tables.functionAt function = .ok entry := by simpa using there
      by_cases isMain : entry.isMain = true
      · exact ⟨some (0, function), by simp [Tables.findMain, entryOk, isMain], by simp⟩
      · refine ⟨found.map fun found => (found.1 + 1, found.2),
          by simp [Tables.findMain, entryOk, isMain, foundOk], ?_⟩
        rintro ⟨other, otherBody, otherEntry, member, otherThere, otherMain⟩
        rw [Option.isSome_map]
        refine exists' ⟨other, otherBody, otherEntry, ?_, otherThere, otherMain⟩
        rcases List.mem_cons.mp member with same | later
        · obtain ⟨rfl, rfl⟩ := Global.definition.inj same
          obtain rfl : otherEntry = entry := by simpa [there] using otherThere.symm
          exact absurd otherMain isMain
        · exact later
    | struct | var | prototype =>
      refine ⟨found.map fun found => (found.1 + 1, found.2),
        by simp [Tables.findMain, foundOk], ?_⟩
      rintro ⟨other, otherBody, otherEntry, member, otherThere, otherMain⟩
      rw [Option.isSome_map]
      exact exists' ⟨other, otherBody, otherEntry, by simpa using member, otherThere, otherMain⟩

/-- The only entry point of a program, and the signatures of all its definitions. -/
structure Enters (program : Program) (main : FunctionId) : Prop where
  defined : ∃ body, (main, body) ∈ program.definitions
  isMain : ∀ definition ∈ program.definitions, ∃ entry,
    program.tables.functions[definition.1.index]? = some entry ∧
      (entry.isMain = true ↔ definition.1 = main)

/-- A program has one entry point. -/
theorem Enters.unique {main other : FunctionId} (enters : program.Enters main)
    (also : program.Enters other) : main = other := by
  obtain ⟨body, defined⟩ := enters.defined
  obtain ⟨entry, known, isMain⟩ := enters.isMain _ defined
  obtain ⟨same, sameKnown, isOther⟩ := also.isMain _ defined
  obtain rfl : entry = same := by simpa [known] using sameKnown
  exact isOther.mp (isMain.mpr rfl)

/-- Whether the entry of a function is that of an entry point. -/
def isEntry (program : Program) (function : FunctionId) : Bool :=
  program.tables.functions[function.index]?.any Function.isMain

/-- Whether a function is the entry point is part of its entry in the tables. -/
theorem isEntry_of_known {function : FunctionId} {entry : Function}
    (known : program.tables.functions[function.index]? = some entry) :
    program.isEntry function = entry.isMain := by
  simp [isEntry, known]

/-- Entry points can be counted exactly if all definitions are known. -/
theorem mainCount_eq_ok_iff {count : Nat} : program.mainCount = .ok count ↔
    (∀ definition ∈ program.definitions,
      ∃ entry, program.tables.functions[definition.1.index]? = some entry) ∧
    program.definitions.countP (fun definition => program.isEntry definition.1) = count := by
  have counted {functions : List Function}
      (known : List.Forall₂ (fun definition entry =>
        program.tables.functions[definition.1.index]? = some entry) program.definitions functions) :
      program.definitions.countP (fun definition => program.isEntry definition.1) =
        functions.countP Function.isMain := by
    generalize program.definitions = definitions at known
    induction known with
    | nil => rfl
    | cons head _ inductionHypothesis =>
      simp [List.countP_cons, inductionHypothesis, isEntry_of_known head]
  simp only [mainCount, Outcome.bind_eq_ok_iff, Outcome.pure_eq_ok, Except.ok.injEq]
  constructor
  · rintro ⟨functions, walked, rfl⟩
    simp only [Outcome.mapM_eq_ok_iff, Tables.functionAt_eq_ok_iff] at walked
    refine ⟨fun definition member => ?_, counted walked⟩
    obtain ⟨entry, -, known⟩ := Outcome.forall₂_exists_right walked member
    exact ⟨entry, known⟩
  · rintro ⟨known, rfl⟩
    have found : ∀ definition ∈ program.definitions,
        ∃ entry, program.tables.functionAt definition.1 = .ok entry := by simpa using known
    obtain ⟨functions, walked⟩ := Outcome.exists_mapM_ok found
    refine ⟨functions, walked, (counted ?_).symm⟩
    simpa only [Outcome.mapM_eq_ok_iff, Tables.functionAt_eq_ok_iff] using walked

/-- One definition of an entry point is that of the only one. -/
theorem enters_of_mainCount (counted : program.mainCount = .ok 1) :
    ∃ main, program.Enters main := by
  obtain ⟨known, single⟩ := mainCount_eq_ok_iff.mp counted
  rw [List.countP_eq_length_filter, List.length_eq_one_iff] at single
  obtain ⟨main, mains⟩ := single
  have mem_iff (definition : FunctionId × Block) :
      definition ∈ program.definitions ∧ program.isEntry definition.1 = true ↔
        definition = main := by
    rw [← List.mem_singleton (a := definition), ← mains, List.mem_filter]
  obtain ⟨defined, enters⟩ := (mem_iff main).mpr rfl
  refine ⟨main.1, ⟨main.2, defined⟩, fun definition member => ?_⟩
  obtain ⟨entry, there⟩ := known definition member
  refine ⟨entry, there, ?_⟩
  rw [← isEntry_of_known there]
  constructor
  · intro isMain
    rw [(mem_iff definition).mp ⟨member, isMain⟩]
  · intro same
    rw [same]
    exact enters

/-- Conversely, a program with one entry point that is defined once has one. -/
theorem Enters.mainCount {main : FunctionId} (enters : program.Enters main)
    (once : (program.definitions.map Prod.fst).Nodup) : program.mainCount = .ok 1 := by
  refine mainCount_eq_ok_iff.mpr ⟨fun definition defined => ?_, ?_⟩
  · obtain ⟨entry, known, -⟩ := enters.isMain definition defined
    exact ⟨entry, known⟩
  · have counted : program.definitions.countP (fun definition => program.isEntry definition.1) =
        (program.definitions.map Prod.fst).count main := by
      rw [List.count, List.countP_map]
      refine List.countP_congr fun definition member => ?_
      obtain ⟨entry, known, isMain⟩ := enters.isMain definition member
      simpa [isEntry_of_known known] using isMain
    obtain ⟨body, defined⟩ := enters.defined
    rw [counted]
    exact List.count_eq_one_of_mem once (List.mem_map.mpr ⟨_, defined, rfl⟩)

end Program

end ShaderPipeline
