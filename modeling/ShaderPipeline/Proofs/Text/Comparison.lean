import ShaderPipeline.Proofs.Text.Globals
import ShaderPipeline.Proofs.Text.Program

/-!
# Comparing texts

Two programs over the same legible tables that are valid and unambiguous have the same
text only if they have the same declarations. The second condition is needed: an element
of an address is written like the address of the element, and a negated constant like
the constant's negative.
-/

namespace ShaderPipeline

/-! ## Programs -/

/-- Nothing in the bodies of a program is written like something else, and the structs that it
declares have a spelling of their own. -/
structure Program.Unambiguous (program : Program) : Prop where
  bodies : ∀ definition ∈ program.definitions, Block.Every program.tables.Plain definition.2
  structs : ∀ type, .struct type ∈ program.globals → program.tables.Distinctive type

namespace Program

variable {program : Program}

/-- The expressions of a valid unambiguous program can be read. -/
theorem Unambiguous.readable (plain : program.Unambiguous) (legible : program.tables.Legible)
    (sound : program.tables.Sound) (valid : program.check = .ok ())
    {definition : FunctionId × Block} (defined : definition ∈ program.definitions) :
    ∀ root ∈ Block.roots definition.2, program.tables.Readable root := by
  intro root own text written
  obtain ⟨visible, -, checked⟩ := (Validity.checkDefinition_checked
    (check_definition valid defined)).1 root own root root.self_mem_nodes
  have plainRoot := plain.bodies definition defined root own
  obtain ⟨phrase, reads, spelled⟩ :=
    Tables.exists_reads legible sound rfl checked plainRoot written
  exact ⟨phrase, ⟨reads, plainRoot⟩, spelled⟩

/-- The lines of a program that can be read. -/
theorem Unambiguous.exists_lines (plain : program.Unambiguous)
    (legible : program.tables.Legible) (sound : program.tables.Sound)
    (valid : program.check = .ok ()) {text : String} (written : program.text = .ok text) : ∃ lines,
      List.Forall₂ program.tables.ShowsGlobal program.globals lines ∧
        text.toList.splitOn '\n' =
          (("// " ++ program.tables.stage.text) :: lines.flatten).map String.toList := by
  obtain ⟨lines, globalsWritten, same⟩ := Outcome.bind_eq_ok_iff.mp written
  obtain rfl := Except.ok.inj same
  have shows : List.Forall₂ program.tables.ShowsGlobal program.globals lines := by
    refine Outcome.forall₂_imp_mem (Outcome.mapM_eq_ok_iff.mp globalsWritten) ?_
    rintro global member lines written
    refine ⟨written, ?_⟩
    rintro function body rfl
    exact plain.readable legible sound valid (List.mem_filterMap.mpr ⟨_, member, rfl⟩)
  refine ⟨lines, shows, ?_⟩
  rw [String.toList_intercalate]
  refine List.splitOn_intercalate '\n' ?_ (List.cons_ne_nil _ _)
  have remark : OneLine ("// " ++ program.tables.stage.text) := by
    cases program.tables.stage <;> exact show '\n' ∉ _ by decide
  rw [List.forall_mem_map, List.forall_mem_cons]
  refine ⟨remark, fun line inside => ?_⟩
  obtain ⟨part, member, inPart⟩ := List.mem_flatten.mp inside
  obtain ⟨global, -, showsPart⟩ := Outcome.forall₂_exists_left shows member
  exact showsPart.oneLine legible line inPart

end Program

/-! ## Deciding legibility and plainness -/

namespace Tables

variable {tables : Tables}

/-- A type that is spelled is known. -/
theorem index_lt_of_typeText {type : TypeId} {text : String}
    (spelled : tables.typeText type = .ok text) : type.index < tables.types.size := by
  obtain ⟨entry, known, -⟩ := Outcome.bind_eq_ok_iff.mp spelled
  exact index_lt_of_getElem? (typeAt_eq_ok_iff.mp known)

/-- A spelling is distinctive if no other type of the tables has it. -/
theorem distinctive_of_forall {type : TypeId}
    (each : ∀ index < tables.types.size, index ≠ type.index →
      (tables.typeText ⟨index⟩).toOption ≠ (tables.typeText type).toOption) :
    tables.Distinctive type := by
  intro other text spelled otherSpelled
  by_contra different
  refine each other.index (index_lt_of_typeText otherSpelled) (fun same => ?_) ?_
  · exact different (congrArg TypeId.mk same).symm
  · rw [spelled, otherSpelled]

/-- Whether a part of an expression is plain, given types with a spelling of their own. -/
def plainAmong (types : List TypeId) : Expr → Bool
  | .const value => !value.isNaN
  | .field base _ | .index base _ => !base.isSigned
  | .unary .negate (.const value) => !value.hasNegative
  | .construct type _ => type ∈ types
  | _ => true

/-- An expression that a test finds plain is plain, if the constructed types are distinctive. -/
theorem plain_of_among {types : List TypeId} (distinctive : ∀ type ∈ types, tables.Distinctive type)
    {expr : Expr} (among : plainAmong types expr = true) : tables.Plain expr := by
  cases expr with
  | const | field | index => simpa [plainAmong, Plain] using among
  | unary op operand =>
    rintro rfl value rfl
    simpa [plainAmong] using among
  | construct type args => exact distinctive type (by simpa [plainAmong] using among)
  | var | binary | call | sample | addressOf => trivial

/-- The names that spellings give are identifiers, and different ones. -/
def NamesDiffer {count : Nat} (spelling : Fin count → String) : Prop :=
  (∀ index, IsName (spelling index)) ∧
    ∀ first second, spelling first = spelling second → first = second

instance {count : Nat} (spelling : Fin count → String) : Decidable (NamesDiffer spelling) :=
  inferInstanceAs (Decidable ((∀ index, IsName (spelling index)) ∧
    ∀ first second, spelling first = spelling second → first = second))

/-- The names in a type, if it is a struct. -/
def StructNames (index : Nat) : Ty → Prop
  | .struct name fields => IsName (name.spell index) ∧
      NamesDiffer fun position : Fin fields.length => (fields.get position).name.spell position
  | _ => True

instance (index : Nat) (type : Ty) : Decidable (StructNames index type) := by
  unfold StructNames
  split <;> infer_instance

/-- The names of structs can be tested type by type. -/
theorem structNames_of_forall
    (structs : ∀ index : Fin tables.types.size, StructNames index tables.types[index]) {index : Nat}
    {type : Ty} (known : tables.types[index]? = some type) : StructNames index type :=
  forall_getElem?_iff.mpr structs known

/-- Tables are legible if their finitely many names are. -/
theorem legible_of_forall
    (vars : NamesDiffer fun index : Fin tables.vars.size => tables.vars[index].name.spell index)
    (functions : NamesDiffer fun index : Fin tables.functions.size =>
      tables.functions[index].name.spell index)
    (structs : ∀ index : Fin tables.types.size, StructNames index tables.types[index])
    (others : ∀ (index : Fin tables.functions.size) (type : Fin tables.types.size),
      (tables.typeText ⟨type⟩).toOption ≠ some (tables.functions[index].name.spell index)) :
    tables.Legible where
  vars known := by
    obtain ⟨inside, rfl⟩ := Array.getElem?_eq_some_iff.mp known
    exact vars.1 ⟨_, inside⟩
  functions known := by
    obtain ⟨inside, rfl⟩ := Array.getElem?_eq_some_iff.mp known
    exact functions.1 ⟨_, inside⟩
  structs known := (structNames_of_forall structs known).1
  fields known there := by
    obtain ⟨inside, rfl⟩ := List.getElem?_eq_some_iff.mp there
    exact (structNames_of_forall structs known).2.1 ⟨_, inside⟩
  distinctVariables known otherKnown same := by
    obtain ⟨inside, rfl⟩ := Array.getElem?_eq_some_iff.mp known
    obtain ⟨otherInside, rfl⟩ := Array.getElem?_eq_some_iff.mp otherKnown
    exact congrArg Fin.val (vars.2 ⟨_, inside⟩ ⟨_, otherInside⟩ same)
  distinctFunctions known otherKnown same := by
    obtain ⟨inside, rfl⟩ := Array.getElem?_eq_some_iff.mp known
    obtain ⟨otherInside, rfl⟩ := Array.getElem?_eq_some_iff.mp otherKnown
    exact congrArg Fin.val (functions.2 ⟨_, inside⟩ ⟨_, otherInside⟩ same)
  distinctFields known there otherThere same := by
    obtain ⟨inside, rfl⟩ := List.getElem?_eq_some_iff.mp there
    obtain ⟨otherInside, rfl⟩ := List.getElem?_eq_some_iff.mp otherThere
    exact congrArg Fin.val
      ((structNames_of_forall structs known).2.2 ⟨_, inside⟩ ⟨_, otherInside⟩ same)
  functionsNoTypes known spelled := by
    obtain ⟨inside, rfl⟩ := Array.getElem?_eq_some_iff.mp known
    exact others ⟨_, inside⟩ ⟨_, index_lt_of_typeText spelled⟩ (by rw [spelled]; rfl)

end Tables

/-! ## What the text tells -/

/-- The text of a program tells when its declarations change: another program over the same legible
tables has the same text just if it has the same declarations, provided both are valid and
unambiguous. -/
theorem Program.text_eq_iff {first second : Program} {text : String}
    (sameTables : second.tables = first.tables) (legible : first.tables.Legible)
    (sound : first.tables.Sound) (valid : first.check = .ok ()) (otherValid : second.check = .ok ())
    (plain : first.Unambiguous) (otherPlain : second.Unambiguous)
    (written : first.text = .ok text) :
    second.text = .ok text ↔ second.globals = first.globals := by
  constructor
  · intro otherWritten
    obtain ⟨lines, shows, split⟩ := plain.exists_lines legible sound valid written
    obtain ⟨others, otherShows, otherSplit⟩ := otherPlain.exists_lines (sameTables ▸ legible)
      (sameTables ▸ sound) otherValid otherWritten
    rw [sameTables] at otherShows otherSplit
    have sameLines := List.map_injective_iff.mpr (fun _ _ => String.toList_inj.mp)
      (split.symm.trans otherSplit)
    exact (Tables.showsGlobals_inj legible shows otherShows plain.structs
      (List.cons.inj sameLines).2).symm
  · intro sameGlobals
    cases first
    cases second
    obtain rfl : _ = _ := sameTables
    obtain rfl : _ = _ := sameGlobals
    exact written

/-- The names of the shader that tints are spelled as identifiers and differ. -/
theorem tinting_legible : tinting.program.tables.Legible :=
  Tables.legible_of_forall (by decide) (by decide) (by decide) (by decide +kernel)

/-- Over the tables of the tinting program, vectors and the struct have a spelling of their own. -/
theorem plain_of_tables {program : Program} (same : program.tables = tinting.program.tables)
    (among : ∀ definition ∈ program.definitions,
      Block.Every (Tables.plainAmong [.vec4] · = true) definition.2)
    (structs : ∀ type, .struct type ∈ program.globals → type = ⟨22⟩) : program.Unambiguous where
  bodies definition defined := by
    have vec4 : program.tables.Distinctive .vec4 := by
      rw [same]
      exact Tables.distinctive_of_forall (by decide +kernel)
    exact fun root own => (among definition defined root own).imp fun node =>
      Tables.plain_of_among (List.forall_mem_singleton.mpr vec4)
  structs type declared := by
    obtain rfl := structs type declared
    rw [same]
    exact Tables.distinctive_of_forall (by decide +kernel)

/-- The tinting program with the weight itself in place of its negative. -/
def brightening : Program where
  tables := tinting.program.tables
  globals := tinting.program.globals.take 4 ++
    [.definition ⟨0⟩
      [.ret (some (.binary .mul (.field (.var ⟨0⟩) 0)
        (.construct .vec4 [.index (.field (.var ⟨0⟩) 1) (.var ⟨1⟩)])))]]

/-- The change of a sign shows. -/
theorem Program.text_eq_iff_brightening : ∃ text,
    brightening.tables = tinting.program.tables ∧ tinting.program.tables.Legible ∧
      tinting.program.tables.Sound ∧ tinting.program.check = .ok () ∧ brightening.check = .ok () ∧
      tinting.program.Unambiguous ∧ brightening.Unambiguous ∧ tinting.program.text = .ok text ∧
      (brightening.text = .ok text ↔ brightening.globals = tinting.program.globals) ∧
      brightening.globals ≠ tinting.program.globals := by
  have valid : tinting.program.check = .ok () := Outcome.eq_ok_of_isOk (by decide)
  have otherValid : brightening.check = .ok () := Outcome.eq_ok_of_isOk (by decide)
  have plain : tinting.program.Unambiguous :=
    plain_of_tables rfl (by decide) fun type declared => by simpa [tinting] using declared
  have otherPlain : brightening.Unambiguous :=
    plain_of_tables rfl (by decide) fun type declared => by
      simpa [brightening, tinting] using declared
  obtain ⟨text, written, -⟩ := Outcome.exists_ok_of_any
    (show tinting.program.text.toOption.any (fun _ => true) = true by decide +kernel)
  refine ⟨text, rfl, tinting_legible, tinting_reachable.sound, valid, otherValid, plain, otherPlain,
    written, Program.text_eq_iff rfl tinting_legible tinting_reachable.sound valid otherValid plain
      otherPlain written, ?_⟩
  simp [brightening, tinting]

/-- A global vector and the entry point. -/
def vectorTables : Tables where
  stage := .fragment
  vars := #[{ name := .temporary "x", type := .vec4, precision := .high, scope := .global }]
  functions := #[.named "main" [] .void .notApplicable]

/-- An element of an address, and a negated constant. -/
def elementOfAddress : Program where
  tables := vectorTables
  globals :=
    [.var ⟨0⟩,
      .definition ⟨0⟩
        [.eval (.index (.addressOf (.var ⟨0⟩)) (.int 0)), .eval (.unary .negate (.int 3))]]

/-- The address of an element, and a negative constant. -/
def addressOfElement : Program where
  tables := vectorTables
  globals :=
    [.var ⟨0⟩,
      .definition ⟨0⟩
        [.eval (.addressOf (.index (.var ⟨0⟩) (.int 0))), .eval (.const (.int (-3)))]]

/-- What is written for both. -/
def vectorText : String := "\n".intercalate
  ["// Fragment Shader", "highp vec4 x_0;", "void main()", "\x7b", "    &x_0[0];", "    -3;",
    "\x7d"]

/-- A text alone does not tell the declarations: two valid programs over the same
legible tables are written the same. -/
theorem Program.text_eq_of_different :
    elementOfAddress.tables = addressOfElement.tables ∧ elementOfAddress.tables.Legible ∧
      elementOfAddress.check = .ok () ∧ addressOfElement.check = .ok () ∧
      elementOfAddress.text = .ok vectorText ∧ addressOfElement.text = .ok vectorText ∧
      elementOfAddress.globals ≠ addressOfElement.globals := by
  have shown {program : Program} (same : program.text.toOption.any (· == vectorText) = true) :
      program.text = .ok vectorText := by
    obtain ⟨text, written, equal⟩ := Outcome.exists_ok_of_any same
    rw [written, eq_of_beq equal]
  refine ⟨rfl, Tables.legible_of_forall (by decide) (by decide) (by decide) (by decide +kernel),
    Outcome.eq_ok_of_isOk (by decide), Outcome.eq_ok_of_isOk (by decide),
    shown (by decide +kernel), shown (by decide +kernel), ?_⟩
  simp [elementOfAddress, addressOfElement]

end ShaderPipeline
