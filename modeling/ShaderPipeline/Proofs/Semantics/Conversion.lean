import Mathlib.Algebra.Group.Nat.Defs
import ShaderPipeline.Proofs.Semantics.Encoding
import ShaderPipeline.Proofs.Semantics.Entry

/-!
# Runs of the conversion function

The body of a conversion function only assigns parts of the struct that it writes,
from parts of the struct that it reads. So running it is a sequence of writes into
a value. Writing to the external struct sets all its fields to the encoded parts,
and writing to the internal struct puts the encoded parts back.
-/

namespace ShaderPipeline

/-! ## Sequences of writes -/

namespace Value

/-- The value after several writes, each at the end of a path. -/
def writeAll (value : Value) (writes : List (List Nat × Value)) : Value :=
  writes.foldl (fun value write => value.write write.1 write.2) value

/-- Several writes are done from first to last. -/
theorem writeAll_cons (value : Value) (write : List Nat × Value)
    (writes : List (List Nat × Value)) :
    value.writeAll (write :: writes) = (value.write write.1 write.2).writeAll writes := rfl

/-- Rebuilding a value is a sequence of writes. -/
theorem writeAll_rebuild (source : Value) (paths : List (List Nat)) (value : Value) :
    value.writeAll (paths.map fun path => (path, source.read path)) = source.rebuild paths value :=
  List.foldl_map

/-- Writing every part of an aggregate leaves nothing of the old parts. -/
theorem writeAll_parts {α : Type} (new : α → Value) (entries : List α) (parts done : List Value)
    (count : parts.length = entries.length) :
    (aggregate (done ++ parts)).writeAll
        (entries.mapIdx fun position entry => ([done.length + position], new entry)) =
      aggregate (done ++ entries.map new) := by
  induction entries generalizing parts done with
  | nil =>
    obtain rfl := List.eq_nil_of_length_eq_zero count
    rfl
  | cons entry entries inductionHypothesis =>
    cases parts with
    | nil => simp at count
    | cons part parts =>
      have goesOn := inductionHypothesis parts (done ++ [new entry]) (by simpa using count)
      rw [List.length_append, List.length_singleton, List.append_assoc, List.append_assoc,
        List.singleton_append, List.singleton_append] at goesOn
      rw [List.mapIdx_cons, writeAll_cons, List.map_cons, ← goesOn]
      congr 1
      · simp [setPart]
      · simp [Nat.add_assoc, Nat.add_comm 1]

end Value

namespace Setting

variable {setting : Setting} {source target : Root} {input : Value}

/-- While one variable holds the input, a statement writes to a part of another one. -/
def Puts (setting : Setting) (source target : Root) (input : Value) (stmt : Stmt)
    (write : List Nat × Value) : Prop :=
  ∀ store : Store, store source = input →
    setting.exec stmt store = some (some .next, store.write ⟨target, write.1⟩ write.2)

/-- Such statements write one after the other. -/
theorem execAll_puts (apart : source ≠ target) {stmts : Block} {writes : List (List Nat × Value)}
    (each : List.Forall₂ (setting.Puts source target input) stmts writes) {store : Store}
    (holds : store source = input) :
    ∃ after, setting.execAll stmts store = some (some .next, after) ∧
      (∀ root, root ≠ target → after root = store root) ∧
      after target = (store target).writeAll writes := by
  induction each generalizing store with
  | nil => exact ⟨store, by rw [execAll]; rfl, fun _ _ => rfl, rfl⟩
  | @cons stmt write stmts writes puts _ inductionHypothesis =>
    let next := store.write ⟨target, write.1⟩ write.2
    have keeps (root : Root) (other : root ≠ target) : next root = store root :=
      Store.write_of_ne _ _ other
    obtain ⟨after, runs, keepsRest, ends⟩ := inductionHypothesis ((keeps _ apart).trans holds)
    refine ⟨after, ?_, fun root other => (keepsRest root other).trans (keeps root other), ?_⟩
    · rw [execAll, Run.bind_of_some (puts store holds)]
      exact runs
    · rw [ends, Value.writeAll_cons]
      congr 1
      exact Store.write_self store ⟨target, write.1⟩ write.2

/-- An element of an array is found at its position. -/
theorem eval_atPosition {expr : Expr} {root : Root} {path : List Nat}
    (evaluates : setting.eval expr = pure (.place ⟨root, path⟩)) {position : List Nat}
    (small : ∀ element ∈ position, element < 2 ^ 31) :
    setting.eval (expr.atPosition position) = pure (.place ⟨root, path ++ position⟩) := by
  induction position generalizing expr path with
  | nil => simpa [Expr.atPosition] using evaluates
  | cons element position inductionHypothesis =>
    rw [List.forall_mem_cons] at small
    have selects : (Value.scalar (.int (Int32.ofNat element))).position? = some element := by
      simp [Value.position?, Int32.toInt_ofNat_of_lt small.1]
    have inside : setting.eval (.index expr (.int element)) =
        pure (.place ⟨root, path ++ [element]⟩) := by
      simp only [eval, Expr.int, evaluates, Run.pure_bind]
      funext store
      rw [Run.bind_of_some (Run.load_apply _ store)]
      simp only [Operand.load, selects]
      rfl
    have goesOn := inductionHypothesis inside small.2
    rwa [List.append_assoc, List.singleton_append] at goesOn

/-- The value of a part of the input. -/
theorem value_of_place {expr : Expr} {path : List Nat}
    (evaluates : setting.eval expr = pure (.place ⟨source, path⟩)) {store : Store}
    (holds : store source = input) :
    setting.value expr store = some (some (input.read path), store) := by
  simp only [value, evaluates, Run.pure_bind, Run.load_apply, Operand.load, Store.read, holds]

/-- Assigning a part of the input writes it. -/
theorem puts_part {into part : Expr} {path inputPath : List Nat}
    (evaluates : setting.eval into = pure (.place ⟨target, path⟩))
    (reads : setting.eval part = pure (.place ⟨source, inputPath⟩)) :
    setting.Puts source target input (.assign into part) (path, input.read inputPath) := by
  intro store holds
  simp only [exec, evaluates, Run.pure_bind]
  rw [Run.bind_of_some (value_of_place reads holds)]
  rfl

/-- Assigning what is made from a part of the input writes that. -/
theorem puts_constructed {into part : Expr} {path inputPath : List Nat} (type : TypeId)
    (evaluates : setting.eval into = pure (.place ⟨target, path⟩))
    (reads : setting.eval part = pure (.place ⟨source, inputPath⟩)) :
    setting.Puts source target input (.assign into (.construct type [part]))
      (path, setting.interp.construct type [input.read inputPath]) := by
  intro store holds
  have made : setting.value (.construct type [part]) store =
      some (some (setting.interp.construct type [input.read inputPath]), store) := by
    simp only [value, eval, evalAll, reads, Run.pure_bind, Run.bind_assoc]
    rw [Run.bind_of_some (Run.load_apply _ store)]
    simp only [Operand.load, Store.read, holds]
    rfl
  simp only [exec, evaluates, Run.pure_bind]
  rw [Run.bind_of_some made]
  rfl

end Setting

/-! ## The body of a conversion function -/

namespace Layout

/-- What copying a part writes. -/
def copyWrites (interp : Interpretation) (tables : Tables) (path : List Nat) (targetType : TypeId)
    (value : Value) (valueType : TypeId) : List (List Nat × Value) :=
  if targetType = valueType then
    [(path, value)]
  else
    (positions (tables.shapeOf targetType).extents).map fun position =>
      (path ++ position,
        interp.construct (tables.shapeOf targetType).base [value.read position])

/-- What converting one external field writes, if the input is the other struct. -/
def fieldWrites (interp : Interpretation) (tables : Tables) (conversion : Conversion)
    (input : Value) (place : Nat) (placement : Placement) : List (List Nat × Value) :=
  let inner := placement.source :: placement.position
  match conversion with
  | .toExternal =>
      copyWrites interp tables [place] placement.field.type (input.read inner) placement.type
  | .toInternal =>
      copyWrites interp tables inner placement.type (input.part place) placement.field.type

variable {setting : Setting} {tables : Tables} {source target : Root} {input : Value}

/-- The positions in an array stay below its extents. -/
theorem small_of_mem_positions {extents position : List Nat} {bound : Nat}
    (small : ∀ extent ∈ extents, extent ≤ bound) (member : position ∈ positions extents) :
    ∀ element ∈ position, element < bound := by
  induction extents generalizing position with
  | nil =>
    obtain rfl : position = [] := by simpa [positions] using member
    simp
  | cons extent extents inductionHypothesis =>
    rw [List.forall_mem_cons] at small
    simp only [positions, List.mem_flatMap, List.mem_range, List.mem_map] at member
    obtain ⟨first, inside, rest, isRest, rfl⟩ := member
    exact List.forall_mem_cons.mpr ⟨Nat.lt_of_lt_of_le inside small.1,
      inductionHypothesis small.2 isRest⟩

/-- No part is found at a position that is not a signed word. -/
theorem PlacedFrom.small {rules : LayoutRules} {fields : List Field} {placements : List Placement}
    (placed : PlacedFrom tables rules fields 0 placements) (sized : tables.Sized (· < 2 ^ 31)) :
    ∀ placement ∈ placements, ∀ element ∈ placement.position, element < 2 ^ 31 := by
  intro placement member
  obtain ⟨field, -, extents, splits, inside, -⟩ := placed.holds placement member
  exact small_of_mem_positions
    (fun extent own => Nat.le_of_lt (splits.sized sized extent own)) inside

/-- Extents that are signed words are counted in full. -/
theorem counted_eq {extents : List Nat} (small : ∀ extent ∈ extents, extent < 2 ^ 31) :
    (extents.map fun extent => (Int32.ofNat extent).toInt.toNat) = extents := by
  conv_rhs => rw [← List.map_id extents]
  exact List.map_congr_left fun extent member => by
    simp [Int32.toInt_ofNat_of_lt (small extent member)]

/-- Copying a part writes it. -/
theorem copy_puts {into part : Expr} {path inputPath : List Nat} (targetType valueType : TypeId)
    (evaluates : setting.eval into = pure (.place ⟨target, path⟩))
    (reads : setting.eval part = pure (.place ⟨source, inputPath⟩))
    (small : ∀ extent ∈ (tables.shapeOf targetType).extents, extent < 2 ^ 31) :
    List.Forall₂ (setting.Puts source target input)
      (copy tables into targetType part valueType)
      (copyWrites setting.interp tables path targetType (input.read inputPath) valueType) := by
  unfold copy copyWrites
  split
  · exact .cons (Setting.puts_part evaluates reads) .nil
  · simp only [counted_eq small]
    rw [List.forall₂_map_left_iff, List.forall₂_map_right_iff, List.forall₂_same]
    intro position member
    have few := small_of_mem_positions (fun extent own => Nat.le_of_lt (small extent own)) member
    have puts := @Setting.puts_constructed setting source target input _ _ _ _
      (tables.shapeOf targetType).base
      (Setting.eval_atPosition evaluates few) (Setting.eval_atPosition reads few)
    rwa [Value.read_append] at puts

/-- What holds of two lists made of the same entries holds of all that they are made of. -/
theorem forall₂_flatten_mapIdx {α β γ : Type} {related : β → γ → Prop} {entries : List α}
    {first : Nat → α → List β} {second : Nat → α → List γ}
    (each : ∀ place, ∀ entry ∈ entries,
      List.Forall₂ related (first place entry) (second place entry)) :
    List.Forall₂ related (entries.mapIdx first).flatten (entries.mapIdx second).flatten := by
  induction entries generalizing first second with
  | nil => exact .nil
  | cons entry entries inductionHypothesis =>
    simp only [List.mapIdx_cons, List.flatten_cons]
    exact List.rel_append (each 0 entry (by simp)) (inductionHypothesis fun place other member =>
      each (place + 1) other (List.mem_cons_of_mem _ member))

end Layout

/-- What a conversion reads. -/
def Conversion.source {α : Type} (internal external : α) : Conversion → α
  | .toExternal => internal
  | .toInternal => external

/-- What a conversion writes. -/
def Conversion.target {α : Type} (internal external : α) : Conversion → α
  | .toExternal => external
  | .toInternal => internal

/-- A conversion reads one of the two and writes the other. -/
theorem Conversion.sides {α : Type} {rule : α → Prop} {internal external : α} (inner : rule internal)
    (outer : rule external) (conversion : Conversion) :
    ∀ side ∈ [conversion.source internal external, conversion.target internal external],
      rule side := by
  cases conversion <;> simp [source, target, inner, outer]

namespace Layout

variable {setting : Setting} {tables : Tables} {input : Value} {conversion : Conversion}
  {internal external : VariableId} {source target : Root}

/-- Converting one external field writes its parts. -/
theorem convertField_puts
    (findsSource : setting.locate (conversion.source internal external) = ⟨source, []⟩)
    (findsTarget : setting.locate (conversion.target internal external) = ⟨target, []⟩)
    (small : tables.Sized (· < 2 ^ 31)) (place : Nat) {placement : Placement}
    (few : ∀ element ∈ placement.position, element < 2 ^ 31) :
    List.Forall₂ (setting.Puts source target input)
      (convertField tables conversion internal external place placement)
      (fieldWrites setting.interp tables conversion input place placement) := by
  have atField {id : VariableId} {root : Root} (finds : setting.locate id = ⟨root, []⟩)
      (position : Nat) : setting.eval (.field (.var id) position) =
        pure (.place ⟨root, [position]⟩) := by
    simp only [Setting.eval, finds, Run.pure_bind]
    rfl
  have atInner {root : Root} (finds : setting.locate internal = ⟨root, []⟩) :
      setting.eval ((Expr.field (.var internal) placement.source).atPosition placement.position) =
        pure (.place ⟨root, placement.source :: placement.position⟩) := by
    simpa using Setting.eval_atPosition (atField finds placement.source) few
  cases conversion with
  | toExternal =>
    exact copy_puts placement.field.type placement.type (atField findsTarget place)
      (atInner findsSource) (small.shapeOf _)
  | toInternal =>
    exact copy_puts placement.type placement.field.type (atInner findsTarget)
      (atField findsSource place) (small.shapeOf _)

/-- The body of a conversion function writes all parts. -/
theorem convertBody_puts
    (findsSource : setting.locate (conversion.source internal external) = ⟨source, []⟩)
    (findsTarget : setting.locate (conversion.target internal external) = ⟨target, []⟩)
    (small : tables.Sized (· < 2 ^ 31)) {placements : List Placement}
    (few : ∀ placement ∈ placements, ∀ element ∈ placement.position, element < 2 ^ 31) :
    List.Forall₂ (setting.Puts source target input)
      (convertBody tables conversion internal external placements)
      (placements.mapIdx (fieldWrites setting.interp tables conversion input)).flatten :=
  forall₂_flatten_mapIdx fun place placement member =>
    convertField_puts findsSource findsTarget small place (few placement member)

/-- A conversion function reads its first parameter and writes the second. -/
theorem convertParams_eq (conversion : Conversion) (internal external : VariableId) :
    convertParams conversion internal external =
      [⟨conversion.source internal external, .input⟩,
        ⟨conversion.target internal external, .output⟩] := by
  cases conversion <;> rfl

end Layout

/-! ## What the writes give -/

namespace Layout

variable {tables : Tables} {rules : LayoutRules} {interp : Interpretation}

section Fields

variable (sound : tables.Sound) {fields : List Field} {values : List Value}
  (typed : HaveValues tables fields values) {placement : Placement}
  (holds : Holds tables rules fields placement) {place : Nat}

include sound typed holds

/-- Converting an external field to the internal layout writes the parts that it holds to where they
belong. -/
theorem fieldWrites_toInternal (reads : rules.widenBools = true → interp.ReadsTruth tables)
    {encoded : Value} (held : encoded.part place = placement.held (.aggregate values)) :
    fieldWrites interp tables .toInternal encoded place placement =
      (placement.innerPaths tables).map fun path => (path, (Value.aggregate values).read path) := by
  have isPart := holds.hasValue typed
  obtain ⟨-, -, -, -, -, retypes⟩ := holds
  rw [Placement.held] at held
  simp only [fieldWrites, copyWrites, Placement.innerPaths, copyPaths, held]
  by_cases same : placement.type = placement.field.type
  · simp [same]
  · obtain ⟨widens, extents, base, wide, shape, wider, -⟩ := retypes.widened (Ne.symm same)
    obtain ⟨entry, known, isTruth⟩ := wider.isTruth
    have isShape := shape.shapeOf_eq (Nat.le_of_lt shape.length_lt)
    rw [if_neg same, if_neg same, if_neg (Ne.symm same), isShape, List.map_map]
    refine List.map_congr_left fun position own => ?_
    have isLeaf := shape.hasValue_read isPart own
    rw [Value.widen_read, (reads widens).construct_widen sound known isTruth isLeaf,
      ← Value.read_append]
    rfl

/-- Converting it to the external layout writes what it holds. -/
theorem fieldWrites_toExternal
    (converts : rules.widenBools = true → interp.ConvertsTruth tables) {encoded : Value}
    (held : encoded.part place = placement.held (.aggregate values)) :
    fieldWrites interp tables .toExternal (.aggregate values) place placement =
      (placement.outerPaths tables place).map fun path => (path, encoded.read path) := by
  have isPart := holds.hasValue typed
  obtain ⟨-, -, -, -, -, retypes⟩ := holds
  rw [Placement.held] at held
  simp only [fieldWrites, copyWrites, Placement.outerPaths, copyPaths, List.map_map,
    Function.comp_def, Value.read_cons, held]
  by_cases same : placement.field.type = placement.type
  · simp [same]
  · obtain ⟨widens, extents, base, wide, shape, wider, wideShape⟩ := retypes.widened same
    have isShape := wideShape.shapeOf_eq (Nat.le_of_lt wideShape.length_lt)
    rw [if_neg same, if_neg same, if_neg same, isShape]
    refine List.map_congr_left fun position own => ?_
    have isLeaf := shape.hasValue_read isPart own
    rw [Value.widen_read]
    exact congrArg (place :: position, ·) ((converts widens).construct_wide sound wider isLeaf)

end Fields

/-- A single entry for each position makes a list of the same length. -/
theorem flatten_mapIdx_singleton {α β : Type} (entries : List α) (made : Nat → α → β) :
    (entries.mapIdx fun place entry => [made place entry]).flatten = entries.mapIdx made := by
  induction entries generalizing made with
  | nil => rfl
  | cons entry entries inductionHypothesis => simp [List.mapIdx_cons, inductionHypothesis]

/-- Where no type changes, the external fields are set to what they hold. -/
theorem fieldWrites_same {input : Value} (place : Nat)
    {placement : Placement} (sameType : placement.field.type = placement.type) :
    fieldWrites interp tables .toExternal input place placement =
      [([place], placement.held input)] := by
  simp [fieldWrites, copyWrites, sameType, Placement.held]

/-- So converting to the external layout gives the encoded parts. -/
theorem writeAll_same {input : Value} {placements : List Placement}
    (sameTypes : ∀ placement ∈ placements, placement.field.type = placement.type)
    {parts : List Value} (count : parts.length = placements.length) :
    (Value.aggregate parts).writeAll
        (placements.mapIdx (fieldWrites interp tables .toExternal input)).flatten =
      .aggregate (placements.map (Placement.held input)) := by
  have writes : (placements.mapIdx (fieldWrites interp tables .toExternal input)).flatten =
      placements.mapIdx fun place placement => ([place], placement.held input) := by
    refine Eq.trans (congrArg List.flatten ?_) (flatten_mapIdx_singleton placements _)
    rw [List.mapIdx_eq_mapIdx_iff]
    exact fun place inside => fieldWrites_same place (sameTypes _ (List.getElem_mem inside))
  simpa [writes] using Value.writeAll_parts (Placement.held input) placements parts [] count

/-- Writes that take the parts of a value to where they belong rebuild the value. -/
theorem writeAll_fields {placements : List Placement} {conversion : Conversion} {input : Value}
    {paths : Nat → Placement → List (List Nat)} {result : Value}
    (writes : ∀ place (inside : place < placements.length),
      fieldWrites interp tables conversion input place placements[place] =
        (paths place placements[place]).map fun path => (path, result.read path))
    (value : Value) :
    value.writeAll (placements.mapIdx (fieldWrites interp tables conversion input)).flatten =
      result.rebuild (placements.mapIdx paths).flatten value := by
  have same : placements.mapIdx (fieldWrites interp tables conversion input) =
      (placements.mapIdx paths).map fun part => part.map fun path => (path, result.read path) := by
    refine List.ext_getElem (by simp) fun place inside _ => ?_
    simpa using writes place (by simpa using inside)
  rw [same, ← List.map_flatten, Value.writeAll_rebuild]

/-- Lists that do not depend on the position are put together as they are. -/
theorem flatten_mapIdx_const {α β : Type} (entries : List α) (made : α → List β) :
    (entries.mapIdx fun _ entry => made entry).flatten = entries.flatMap made := by
  rw [List.flatMap_def]
  congr 1
  exact List.ext_getElem (by simp) fun _ _ _ => by simp

section Structs

variable (filled : tables.Sized (0 < ·)) {fields : List Field} {placements ordered : List Placement}
  (placed : PlacedFrom tables rules fields 0 placements) (sameParts : ordered.Perm placements)

include placed sameParts

/-- In whatever order, every placement holds a part of its field. -/
theorem holds_of_perm : ∀ placement ∈ ordered, Holds tables rules fields placement :=
  fun placement member => placed.holds placement (sameParts.mem_iff.mp member)

section Internal

variable {struct : TypeId} {name : Name}
  (known : tables.types[struct.index]? = some (.struct name fields))

include filled known

/-- Converting to the internal layout covers the internal struct. -/
theorem coveredOnce_inner (some : fields ≠ []) :
    tables.CoveredOnce struct (ordered.flatMap (Placement.innerPaths tables)) :=
  ((placed.covered filled).once known rfl (by simpa using some)).perm (sameParts.flatMap_right _)

/-- It gives the struct that was encoded. -/
theorem writeAll_toInternal (sound : tables.Sound)
    (reads : rules.widenBools = true → interp.ReadsTruth tables) {values parts : List Value}
    (typed : HaveValues tables fields values) (also : HaveValues tables fields parts) :
    (Value.aggregate parts).writeAll (ordered.mapIdx (fieldWrites interp tables .toInternal
        (.aggregate (ordered.map (Placement.held (.aggregate values)))))).flatten =
      .aggregate values := by
  have writes := @writeAll_fields tables interp ordered .toInternal
    (.aggregate (ordered.map (Placement.held (.aggregate values))))
    (fun _ => Placement.innerPaths tables) (.aggregate values) (fun place inside =>
      fieldWrites_toInternal sound typed
        (holds_of_perm placed sameParts _ (List.getElem_mem inside)) reads
        (by simp [Value.part, inside]))
    (.aggregate parts)
  rw [writes, flatten_mapIdx_const]
  by_cases none : fields = []
  · subst none
    cases typed
    cases also
    cases placed
    rw [List.perm_nil.mp sameParts]
    rfl
  · exact (coveredOnce_inner filled placed sameParts known none).rebuild
      (.of_parts known rfl (List.forall₂_map_left_iff.mpr typed))
      (.of_parts known rfl (List.forall₂_map_left_iff.mpr also))

end Internal

section External

variable {struct : TypeId} {name : Name}
  (known : tables.types[struct.index]? = some (.struct name (ordered.map Placement.field)))

include known

/-- What is encoded is a value of the external struct. -/
theorem hasValue_encoded (sound : tables.Sound) {values : List Value}
    (typed : HaveValues tables fields values) :
    tables.HasValue struct (.aggregate (ordered.map (Placement.held (.aggregate values)))) := by
  refine .of_parts known rfl ?_
  rw [List.forall₂_map_left_iff, List.forall₂_map_left_iff, List.forall₂_map_right_iff,
    List.forall₂_same]
  exact fun placement member =>
    (holds_of_perm placed sameParts placement member).hasValue_held sound typed

include filled

/-- Converting to the external layout covers the external struct. -/
theorem coveredOnce_outer (some : ordered ≠ []) :
    tables.CoveredOnce struct
      (ordered.mapIdx fun place placement => placement.outerPaths tables place).flatten := by
  have retypes : ∀ placement ∈ ordered,
      Retypes tables rules placement.type placement.field.type := by
    intro placement member
    obtain ⟨-, -, -, -, -, retypes⟩ := holds_of_perm placed sameParts placement member
    exact retypes
  have covered := coveredFrom_outerPaths filled retypes 0
  simp only [Nat.zero_add] at covered
  exact covered.once known (by simp [Ty.members?]) (by simpa using some)

/-- It gives what is encoded. -/
theorem writeAll_toExternal (some : ordered ≠ []) (sound : tables.Sound)
    (converts : rules.widenBools = true → interp.ConvertsTruth tables) {values : List Value}
    (typed : HaveValues tables fields values) {value : Value}
    (also : tables.HasValue struct value) :
    value.writeAll (ordered.mapIdx
        (fieldWrites interp tables .toExternal (.aggregate values))).flatten =
      .aggregate (ordered.map (Placement.held (.aggregate values))) := by
  have writes := @writeAll_fields tables interp ordered .toExternal (.aggregate values)
    (fun place placement => placement.outerPaths tables place)
    (.aggregate (ordered.map (Placement.held (.aggregate values)))) (fun place inside =>
      fieldWrites_toExternal sound typed
        (holds_of_perm placed sameParts _ (List.getElem_mem inside)) converts
        (by simp [Value.part, inside])) value
  rw [writes]
  exact (coveredOnce_outer filled placed sameParts known some).rebuild
    (hasValue_encoded placed sameParts known sound typed) also

end External

end Structs

end Layout

/-! ## Calls of a conversion function -/

/-- A parameter that is no reference stands for itself. -/
theorem Tables.aliased_eq_none {tables : Tables} {pair : Param × Passed}
    (plain : tables.isReference pair.1.variableId = false) : tables.aliased pair = none := by
  simp [aliased, plain]

/-- A function that is given a value and writes to a variable of its caller, if its body only
writes to the parameter for that. -/
theorem Program.call_puts {program : Program} {function : FunctionId} {signature : Function}
    {body : Block} (known : program.tables.functions[function.index]? = some signature)
    (hasBody : program.body? function = some body) {source target : VariableId}
    (params : signature.params = [⟨source, .input⟩, ⟨target, .output⟩]) (apart : source ≠ target)
    (plain : ∀ id ∈ [source, target],
      program.tables.isReference id = false ∧ program.tables.isGlobal id = false)
    {interp : Interpretation} {depth : Nat} {input : Value} {writes : List (List Nat × Value)}
    (puts : ∀ setting : Setting, setting.interp = interp →
      setting.locate source = ⟨.frame depth source, []⟩ →
      setting.locate target = ⟨.frame depth target, []⟩ →
        List.Forall₂ (setting.Puts (.frame depth source) (.frame depth target) input) body writes)
    (fuel : Nat) (origin : Option Place) {root : Root} (held : Value)
    (outside : ∀ id, root ≠ .frame depth id) (store : Store) :
    ∃ after, program.call interp (fuel + 1) depth function
        [⟨origin, input⟩, ⟨some ⟨root, []⟩, held⟩] store = some (some default, after) ∧
      after root = (program.tables.initial target).writeAll writes ∧
      (∀ id, id ≠ source → id ≠ target → after (.frame depth id) = program.tables.initial id) ∧
      ∀ other, other ≠ root → (∀ id, other ≠ .frame depth id) → after other = store other := by
  have aliasSource (direction : Direction) (passed : Passed) :
      program.tables.aliased (⟨source, direction⟩, passed) = none :=
    Tables.aliased_eq_none (plain source (by simp)).1
  have aliasTarget (direction : Direction) (passed : Passed) :
      program.tables.aliased (⟨target, direction⟩, passed) = none :=
    Tables.aliased_eq_none (plain target (by simp)).1
  obtain ⟨pairs, isPairs⟩ : ∃ pairs : List (Param × Passed), pairs =
      [(⟨source, .input⟩, ⟨origin, input⟩), (⟨target, .output⟩, ⟨some ⟨root, []⟩, held⟩)] := ⟨_, rfl⟩
  have zipped : signature.params.zip
      [(⟨origin, input⟩ : Passed), ⟨some ⟨root, []⟩, held⟩] = pairs := by
    rw [params, isPairs]
    rfl
  have finds (id : VariableId) (among : id ∈ [source, target]) :
      program.tables.locate depth pairs id = ⟨.frame depth id, []⟩ :=
    Tables.locate_frame (fun pair _ same => Tables.aliased_eq_none (same ▸ (plain id among).1))
      (plain id among).2
  generalize isCleared : program.tables.clear depth store = cleared
  generalize isEntered : cleared.write ⟨.frame depth source, []⟩ input = entered
  have enters : program.tables.enter depth pairs cleared = some (some (), entered) := by
    rw [isPairs, ← isEntered]
    simp only [Tables.enter, Tables.copyIn, aliasSource, aliasTarget]
    rfl
  have fresh (id : VariableId) (other : id ≠ source) :
      entered (.frame depth id) = program.tables.initial id := by
    rw [← isEntered, Store.write_of_ne _ _ (by simpa using other), ← isCleared]
    simp [Tables.clear]
  have holds : entered (.frame depth source) = input := by
    rw [← isEntered, Store.write_root]
  obtain ⟨done, runs, keeps, ends⟩ := Setting.execAll_puts (by simpa using apart)
    (puts (program.tables.frame interp fuel depth pairs (program.call interp fuel (depth + 1)))
      rfl (finds source (by simp)) (finds target (by simp))) holds
  have leaves : program.tables.leave depth pairs done =
      some (some (), done.write ⟨root, []⟩ (done (.frame depth target))) := by
    rw [isPairs]
    simp only [Tables.leave, Tables.copyBack, aliasSource, aliasTarget]
    rfl
  refine ⟨done.write ⟨root, []⟩ (done (.frame depth target)), ?_, ?_, fun id notSource notTarget => ?_,
    fun other notRoot notFrame => ?_⟩
  · simp only [Program.call, known, hasBody, zipped]
    rw [Run.bind_of_some (Run.modify_apply _ store), isCleared]
    rw [Run.bind_of_some enters, Run.bind_of_some runs, Run.bind_of_some leaves]
    rfl
  · rw [Store.write_root, ends, fresh target (Ne.symm apart)]
  · rw [Store.write_of_ne _ _ (Ne.symm (outside id)), keeps _ (by simpa using notTarget),
      fresh id notSource]
  · rw [Store.write_of_ne _ _ notRoot, keeps _ (notFrame target), ← isEntered,
      Store.write_of_ne _ _ (notFrame source), ← isCleared]
    cases other with
    | global id => rfl
    | frame level id =>
      have other : level ≠ depth := fun same => notFrame id (same ▸ rfl)
      simp [Tables.clear, other]

end ShaderPipeline
