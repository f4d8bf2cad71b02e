import Mathlib.Data.List.Induction
import Mathlib.Data.List.Nodup
import Mathlib.Data.List.Pairwise
import ShaderPipeline.Proofs.Parts

/-!
# Names and locations in an external struct

The parts of an array field are named after the field and their position in it,
and keep all its decorations. So two fields of an external struct have the same
name only if a field is named like an element of another one, and they have the
same location only if they hold parts of the same field.
-/

namespace ShaderPipeline

/-! ## Texts of parts -/

/-- What follows the last separator can be told from a list, and what stands before it. -/
theorem append_separator_inj {α : Type} {separator : α} {first second tail other : List α}
    (plain : separator ∉ tail) (otherPlain : separator ∉ other)
    (same : first ++ separator :: tail = second ++ separator :: other) :
    first = second ∧ tail = other := by
  induction first generalizing second with
  | nil =>
    cases second with
    | nil => exact ⟨rfl, (List.cons.inj same).2⟩
    | cons _ second =>
      obtain ⟨-, rfl⟩ := List.cons.inj same
      simp at plain
  | cons _ first inductionHypothesis =>
    cases second with
    | nil =>
      obtain ⟨-, rfl⟩ := List.cons.inj same
      simp at otherPlain
    | cons _ second =>
      obtain ⟨rfl, rest⟩ := List.cons.inj same
      obtain ⟨rfl, rfl⟩ := inductionHypothesis rest
      exact ⟨rfl, rfl⟩

namespace Layout

/-- The last element of a position can be read off a text, because no number has a separator. -/
theorem text_element_inj {first second : String} {element other : Nat}
    (same : first ++ "_" ++ toString element = second ++ "_" ++ toString other) :
    first = second ∧ element = other := by
  have lists : first.toList ++ '_' :: Nat.toDigits 10 element =
      second.toList ++ '_' :: Nat.toDigits 10 other := by
    simpa [Nat.toString_eq_ofList_toDigits] using congrArg String.toList same
  obtain ⟨sameText, sameDigits⟩ := append_separator_inj Nat.underscore_not_in_toDigits
    Nat.underscore_not_in_toDigits lists
  refine ⟨String.toList_injective sameText, ?_⟩
  rw [← @Nat.ofDigitChars_ten_toDigits element, sameDigits, Nat.ofDigitChars_ten_toDigits]

/-- The name of an element of an element is made step by step. -/
theorem partText_append (text : String) (first second : List Nat) :
    partText text (first ++ second) = partText (partText text first) second :=
  List.foldl_append

/-- The last position comes last in the name of an element. -/
theorem partText_concat (text : String) (position : List Nat) (element : Nat) :
    partText text (position ++ [element]) = partText text position ++ "_" ++ toString element := by
  rw [partText_append]
  rfl

/-- The text of a part is longer than that of the whole. -/
theorem partText_eq_self_iff {text : String} {position : List Nat} :
    partText text position = text ↔ position = [] := by
  have length (position : List Nat) :
      text.length + position.length ≤ (partText text position).length := by
    induction position using List.reverseRecOn with
    | nil => simp [partText]
    | append_singleton position element inductionHypothesis =>
      have separator : "_".length = 1 := rfl
      rw [partText_concat, String.length_append, String.length_append, List.length_append,
        List.length_singleton]
      omega
  refine ⟨fun same => ?_, fun empty => by rw [empty]; rfl⟩
  have long := length position
  rw [same] at long
  exact List.eq_nil_of_length_eq_zero (by omega)

/-- Two parts have the same text only if the shorter position ends the longer one, and one whole
is named like an element of the other. -/
theorem partText_inj {first second : String} {position other : List Nat}
    (same : partText first position = partText second other) :
    (∃ lead, position = lead ++ other ∧ second = partText first lead) ∨
      ∃ lead, other = lead ++ position ∧ first = partText second lead := by
  induction position using List.reverseRecOn generalizing other with
  | nil => exact .inr ⟨other, by simp, same⟩
  | append_singleton position element inductionHypothesis =>
    cases other using List.reverseRecOn with
    | nil => exact .inl ⟨position ++ [element], by simp, same.symm⟩
    | append_singleton other otherElement =>
      rw [partText_concat, partText_concat] at same
      obtain ⟨sameText, rfl⟩ := text_element_inj same
      rcases inductionHypothesis sameText with ⟨lead, rfl, named⟩ | ⟨lead, rfl, named⟩
      · exact .inl ⟨lead, by simp, named⟩
      · exact .inr ⟨lead, by simp, named⟩

/-- No element of an array is listed twice. -/
theorem positions_nodup (extents : List Nat) : (positions extents).Nodup := by
  induction extents with
  | nil => simp [positions]
  | cons size inner inductionHypothesis =>
    rw [positions, List.nodup_flatMap]
    refine ⟨fun first _ => inductionHypothesis.map List.cons_injective, ?_⟩
    refine List.nodup_range.pairwise_of_forall_ne fun first _ second _ differ => ?_
    simp only [Function.onFun, List.disjoint_left, List.mem_map]
    rintro position ⟨_, -, rfl⟩ ⟨_, -, same⟩
    exact differ (List.cons.inj same).1.symm

/-- So no part of a type is. -/
theorem partPositions_nodup (tables : Tables) (rules : LayoutRules) (type : TypeId) :
    (partPositions tables rules type).Nodup := by
  unfold partPositions
  split
  · exact positions_nodup _
  · simp

/-! ## The fields that hold the parts -/

variable {tables after : Tables} {rules : LayoutRules}

/-- What is told from a part alone is told of the parts field by field, up to their order. -/
theorem parts_map_perm {α : Type} (tables : Tables) (rules : LayoutRules) (fields : List Field)
    (told : Field → List Nat → α) :
    ((parts tables rules fields).map fun part => told part.field part.position).Perm
      (fields.flatMap fun field => (partPositions tables rules field.type).map (told field)) := by
  have inOrder (source : Nat) :
      ((partsFrom tables rules fields source).map fun part => told part.field part.position) =
        fields.flatMap fun field => (partPositions tables rules field.type).map (told field) := by
    induction fields generalizing source with
    | nil => rfl
    | cons field fields inductionHypothesis =>
      simp [partsFrom, inductionHypothesis, Function.comp_def]
  rw [← inOrder 0]
  unfold parts
  split
  · exact (List.filter_append_perm _ _).map _
  · rfl

/-- The fields of the external struct hold the parts, one by one. -/
theorem createBridge_parts {invariance registry : Invariance} {struct : TypeId} {name : Name}
    {bridge : Bridge} {fields : List Field} (isStruct : tables.fieldsOf struct = .ok fields)
    (made : tables.createBridge invariance rules struct name = .ok (some bridge, after, registry)) :
    ∃ external, after.fieldsOf bridge.struct = .ok external ∧
      List.Forall₂ Part.HeldBy (parts after rules fields) external := by
  obtain ⟨-, ⟨isNone, -, -⟩ | ⟨_, others, placements, grown, same, fieldsOk, placesOk, bridges, adds,
    -⟩⟩ := createBridge_inv made
  · cases isNone
  · obtain rfl := Option.some.inj same
    obtain rfl : fields = others := Except.ok.inj (isStruct.symm.trans fieldsOk)
    have evolves : grown.Evolves after :=
      (Tables.addStruct_registers name _).evolves.trans adds.evolves
    refine ⟨_, Tables.fieldsOf_eq_ok_iff.mpr ⟨name, bridges.external⟩, ?_⟩
    rw [List.forall₂_map_right_iff]
    exact (order_parts placesOk evolves).imp fun _ _ placed => placed.heldBy

/-- What a field shares with the field that it holds a part of. -/
theorem map_of_heldBy {α : Type} {inOrder : List Part} {external : List Field}
    (held : List.Forall₂ Part.HeldBy inOrder external) (told : Field → α)
    (toldPart : Field → List Nat → α) (same : ∀ (field : Field) (position : List Nat) (type : TypeId),
      told { field with name := partName field.name position, type } = toldPart field position) :
    external.map told = inOrder.map fun part => toldPart part.field part.position := by
  rw [← List.forall₂_eq_eq_eq, List.forall₂_map_left_iff, List.forall₂_map_right_iff]
  refine held.flip.imp fun field part heldBy => ?_
  rw [heldBy]
  exact same _ _ _

/-! ## Names -/

/-- A field is named like an element of an array, or like an array in it, and both are taken apart
to parts that go on in the same way. -/
def NamesClash (tables : Tables) (rules : LayoutRules) (array other : Field) : Prop :=
  ∃ lead rest, lead ≠ [] ∧ lead ++ rest ∈ partPositions tables rules array.type ∧
    rest ∈ partPositions tables rules other.type ∧ other.name = partName array.name lead

/-- The whole has its own name. -/
theorem partName_nil {name : Name} : partName name [] = name := rfl

/-- Different positions give different names. -/
theorem partName_injective (name : Name) : Function.Injective (partName name) := by
  intro position other same
  have sameText : partText name.text position = partText name.text other := congrArg Name.text same
  rcases partText_inj sameText with ⟨lead, rfl, named⟩ | ⟨lead, rfl, named⟩
  · simp [partText_eq_self_iff.mp named.symm]
  · simp [partText_eq_self_iff.mp named.symm]

/-- Fields whose parts clash do not have the same name themselves. -/
theorem NamesClash.name_ne {array other : Field} (clash : NamesClash tables rules array other) :
    array.name ≠ other.name := by
  obtain ⟨lead, -, proper, -, -, named⟩ := clash
  rw [named]
  exact fun same => proper (partName_injective array.name (same.symm.trans partName_nil.symm))

/-- Fields with different names have parts with the same name just in case one of them is named
like an element of the other one. -/
theorem exists_partName_eq_iff {first second : Field} (differ : first.name ≠ second.name) :
    (∃ position ∈ partPositions tables rules first.type,
        ∃ other ∈ partPositions tables rules second.type,
          partName first.name position = partName second.name other) ↔
      NamesClash tables rules first second ∨ NamesClash tables rules second first := by
  have proper {name other : Name} {lead : List Nat} (differ : name ≠ other)
      (named : other = partName name lead) : lead ≠ [] := by
    rintro rfl
    exact differ named.symm
  have rename {name other : Name} {lead : List Nat} (source : name.source = other.source)
      (named : other.text = partText name.text lead) : other = partName name lead := by
    rw [partName, source, ← named]
  constructor
  · rintro ⟨position, own, other, isOther, same⟩
    have source : first.name.source = second.name.source := (Name.mk.inj same).2
    rcases partText_inj (Name.mk.inj same).1 with ⟨lead, rfl, named⟩ | ⟨lead, rfl, named⟩
    · have isNamed := rename source named
      exact .inl ⟨lead, other, proper differ isNamed, own, isOther, isNamed⟩
    · have isNamed := rename source.symm named
      exact .inr ⟨lead, position, proper differ.symm isNamed, isOther, own, isNamed⟩
  · have common {name : Name} {lead rest : List Nat} :
        partName name (lead ++ rest) = partName (partName name lead) rest := by
      rw [partName, partText_append]
      rfl
    rintro (⟨lead, rest, -, own, isOther, named⟩ | ⟨lead, rest, -, own, isOther, named⟩)
    · exact ⟨lead ++ rest, own, rest, isOther, by rw [named, common]⟩
    · exact ⟨rest, isOther, lead ++ rest, own, by rw [named, common]⟩

/-- Of fields with different names, the parts have different names unless two fields clash. -/
theorem partNames_nodup_iff {fields : List Field} (distinct : (fields.map Field.name).Nodup) :
    (fields.flatMap fun field =>
        (partPositions tables rules field.type).map (partName field.name)).Nodup ↔
      ∀ array ∈ fields, ∀ other ∈ fields, ¬ NamesClash tables rules array other := by
  let names (field : Field) := (partPositions tables rules field.type).map (partName field.name)
  have each : ∀ field ∈ fields, (names field).Nodup := fun field _ =>
    (partPositions_nodup tables rules field.type).map (partName_injective field.name)
  have disjoint_iff {first second : Field} (differ : first.name ≠ second.name) :
      (names first).Disjoint (names second) ↔
        ¬ (NamesClash tables rules first second ∨ NamesClash tables rules second first) := by
    rw [← exists_partName_eq_iff differ]
    simp only [names, List.disjoint_left, List.mem_map]
    grind
  have symmetric : Std.Symm (Function.onFun List.Disjoint names) := ⟨fun _ _ apart =>
    List.disjoint_comm.mp apart⟩
  rw [List.nodup_flatMap, and_iff_right each]
  constructor
  · intro apart array own other isOther clash
    have differ := clash.name_ne
    have disjoint := apart.forall own isOther fun same => differ (congrArg Field.name same)
    exact (disjoint_iff differ).mp disjoint (.inl clash)
  · intro clear
    refine (distinct.of_map _).pairwise_of_forall_ne fun first own second also apart => ?_
    have differ : first.name ≠ second.name := fun same =>
      apart (List.inj_on_of_nodup_map distinct own also same)
    exact (disjoint_iff differ).mpr (not_or.mpr ⟨clear _ own _ also, clear _ also _ own⟩)

/-- The fields of an external struct have different names exactly if no field of the internal
struct, whose fields have different names, is named like an element of another one. -/
theorem createBridge_names_nodup_iff {invariance registry : Invariance} {struct : TypeId}
    {name : Name} {bridge : Bridge} {fields : List Field}
    (isStruct : tables.fieldsOf struct = .ok fields) (distinct : (fields.map Field.name).Nodup)
    (made : tables.createBridge invariance rules struct name = .ok (some bridge, after, registry)) :
    ∃ external, after.fieldsOf bridge.struct = .ok external ∧
      ((external.map Field.name).Nodup ↔
        ∀ array ∈ fields, ∀ other ∈ fields, ¬ NamesClash after rules array other) := by
  obtain ⟨external, isExternal, held⟩ := createBridge_parts isStruct made
  refine ⟨external, isExternal, ?_⟩
  rw [map_of_heldBy held Field.name (fun field => partName field.name) fun _ _ _ => rfl,
    (parts_map_perm after rules fields fun field => partName field.name).nodup_iff]
  exact partNames_nodup_iff distinct

/-- The tables of a shader with a struct of two fields: the color, an array with the given extents,
and another one. -/
def pairing (extents : List Nat) (other : String) : Tables :=
  let (array, tables) := ({ stage := .vertex } : Tables).arrayOver extents .float
  (tables.addStruct (.exact "Pair")
    [⟨⟨"color", .shaderInterface⟩, array, .high, [.smooth, .location 0], none⟩,
      ⟨⟨other, .shaderInterface⟩, .float, .high, [.location 1], none⟩]).2

/-- Takes arrays apart, and nothing else. -/
def inlining : LayoutRules := ⟨.toExternal, true, false, false⟩

/-- A field that is named like a row of an array has another name than all elements. -/
theorem createBridge_names_nodup_iff_rows :
    ∃ fields, (pairing [2, 2] "color_1").fieldsOf ⟨23⟩ = .ok fields ∧
      (fields.map Field.name).Nodup ∧
    ∃ bridge after registry,
      (pairing [2, 2] "color_1").createBridge {} inlining ⟨23⟩ (.exact "PairOut") =
        .ok (some bridge, after, registry) ∧
      ∀ array ∈ fields, ∀ other ∈ fields, ¬ NamesClash after inlining array other := by
  refine ⟨_, rfl, by decide, _, _, _, rfl, ?_⟩
  obtain ⟨external, isExternal, names_iff⟩ := createBridge_names_nodup_iff rfl (by decide)
    (rfl : (pairing [2, 2] "color_1").createBridge {} inlining ⟨23⟩ (.exact "PairOut") = _)
  obtain rfl := Except.ok.inj isExternal
  exact names_iff.mp (by decide)

/-- A field that is named like an element of an array has a namesake in the external struct. -/
theorem pairing_namesakes :
    ∃ fields, (pairing [2] "color_0").fieldsOf ⟨22⟩ = .ok fields ∧
      (fields.map Field.name).Nodup ∧
    ∃ bridge after registry external,
      (pairing [2] "color_0").createBridge {} inlining ⟨22⟩ (.exact "PairOut") =
        .ok (some bridge, after, registry) ∧
      after.fieldsOf bridge.struct = .ok external ∧ ¬ (external.map Field.name).Nodup :=
  ⟨_, rfl, by decide, _, _, _, _, rfl, rfl, by decide⟩

end Layout

/-! ## Locations -/

/-- The locations of a field. -/
def Field.locations (field : Field) : List Nat :=
  field.decorations.filterMap fun
    | .location slot => some slot
    | _ => none

namespace Layout

variable {tables after : Tables} {rules : LayoutRules}

/-- No two fields have the same location. -/
def LocationsApart (fields : List Field) : Prop :=
  fields.Pairwise fun one other => one.locations.Disjoint other.locations

instance (fields : List Field) : Decidable (LocationsApart fields) :=
  inferInstanceAs (Decidable (fields.Pairwise fun one other =>
    ∀ slot ∈ one.locations, slot ∉ other.locations))

/-- The source of a part tells the field that it is a part of. -/
theorem source_of_mem_partsFrom {fields : List Field} {source : Nat} {part : Part}
    (member : part ∈ partsFrom tables rules fields source) :
    ∃ offset, part.source = source + offset ∧ fields[offset]? = some part.field := by
  induction fields generalizing source with
  | nil => simp [partsFrom] at member
  | cons field fields inductionHypothesis =>
    rcases List.mem_append.mp member with here | later
    · obtain ⟨position, -, rfl⟩ := List.mem_map.mp here
      exact ⟨0, rfl, rfl⟩
    · obtain ⟨offset, isSource, isField⟩ := inductionHypothesis later
      exact ⟨offset + 1, by omega, isField⟩

/-- A part belongs to the field at its source. -/
theorem source_of_mem_parts {fields : List Field} {part : Part}
    (member : part ∈ parts tables rules fields) : fields[part.source]? = some part.field := by
  have placed : part ∈ partsFrom tables rules fields 0 := by
    unfold parts at member
    split at member
    · exact (List.filter_append_perm _ _).mem_iff.mp member
    · exact member
  obtain ⟨offset, isSource, isField⟩ := source_of_mem_partsFrom placed
  rwa [isSource, Nat.zero_add]

/-- Only parts of the same field can have the same location. -/
theorem LocationsApart.source_eq {fields : List Field} (apart : LocationsApart fields)
    {one other : Part} (own : one ∈ parts tables rules fields)
    (also : other ∈ parts tables rules fields)
    (shared : ¬ one.field.locations.Disjoint other.field.locations) : one.source = other.source := by
  obtain ⟨inside, isOne⟩ := List.getElem?_eq_some_iff.mp (source_of_mem_parts own)
  obtain ⟨there, isOther⟩ := List.getElem?_eq_some_iff.mp (source_of_mem_parts also)
  have differ := List.pairwise_iff_getElem.mp apart
  rw [← isOne, ← isOther] at shared
  rcases Nat.lt_trichotomy one.source other.source with ahead | same | behind
  · exact absurd (differ _ _ inside there ahead) shared
  · exact same
  · exact absurd (List.disjoint_comm.mp (differ _ _ there inside behind)) shared

/-- Parts have different locations unless a field with a location has several of them. -/
theorem partLocations_pairwise_iff {fields : List Field} (apart : LocationsApart fields) :
    (fields.flatMap fun field => (partPositions tables rules field.type).map
        fun _ => field.locations).Pairwise List.Disjoint ↔
      ∀ field ∈ fields, field.locations ≠ [] →
        (partPositions tables rules field.type).length ≤ 1 := by
  have between : fields.Pairwise fun one other =>
      ∀ first ∈ (partPositions tables rules one.type).map fun _ => one.locations,
        ∀ second ∈ (partPositions tables rules other.type).map fun _ => other.locations,
          first.Disjoint second := by
    refine apart.imp fun disjoint first own second also => ?_
    rw [List.map_const'] at own also
    rwa [List.eq_of_mem_replicate own, List.eq_of_mem_replicate also]
  rw [List.pairwise_flatMap, and_iff_left between]
  refine forall₂_congr fun field _ => ?_
  have disjoint_self : field.locations.Disjoint field.locations ↔ field.locations = [] :=
    ⟨fun disjoint => List.eq_nil_iff_forall_not_mem.mpr fun _ own => disjoint own own,
      fun empty => by simp [empty]⟩
  rw [List.map_const', List.pairwise_replicate, disjoint_self, or_iff_not_imp_right]

/-- Fields of an external struct have the same location only if they hold parts of the same field of
the internal struct, whose fields have different locations. So the locations stay different exactly
if every field with a location is held by at most one field. -/
theorem createBridge_locations {invariance registry : Invariance} {struct : TypeId} {name : Name}
    {bridge : Bridge} {fields : List Field} (isStruct : tables.fieldsOf struct = .ok fields)
    (apart : LocationsApart fields)
    (made : tables.createBridge invariance rules struct name = .ok (some bridge, after, registry)) :
    ∃ external, after.fieldsOf bridge.struct = .ok external ∧
      List.Forall₂ Part.HeldBy (parts after rules fields) external ∧
      (∀ one ∈ (parts after rules fields).zip external,
        ∀ other ∈ (parts after rules fields).zip external,
          ¬ one.2.locations.Disjoint other.2.locations → one.1.source = other.1.source) ∧
      (LocationsApart external ↔ ∀ field ∈ fields, field.locations ≠ [] →
        (partPositions after rules field.type).length ≤ 1) := by
  obtain ⟨external, isExternal, held⟩ := createBridge_parts isStruct made
  have locations {part : Part} {field : Field} (heldBy : part.HeldBy field) :
      field.locations = part.field.locations := by
    rw [heldBy]
    rfl
  refine ⟨external, isExternal, held, fun one own other also shared => ?_, ?_⟩
  · have heldOne := List.forall₂_zip held own
    have heldOther := List.forall₂_zip held also
    rw [locations heldOne, locations heldOther] at shared
    exact apart.source_eq (List.of_mem_zip own).1 (List.of_mem_zip also).1 shared
  · rw [← partLocations_pairwise_iff apart, LocationsApart, ← List.pairwise_map,
      map_of_heldBy held Field.locations (fun field _ => field.locations) fun _ _ _ => rfl]
    exact (parts_map_perm after rules fields fun field _ => field.locations).pairwise_iff
      List.disjoint_comm.mp

/-- An array of one element keeps its location to itself. -/
theorem createBridge_locations_single :
    ∃ fields, (pairing [1] "depth").fieldsOf ⟨22⟩ = .ok fields ∧ LocationsApart fields ∧
    ∃ bridge after registry external,
      (pairing [1] "depth").createBridge {} inlining ⟨22⟩ (.exact "PairOut") =
        .ok (some bridge, after, registry) ∧
      after.fieldsOf bridge.struct = .ok external ∧ LocationsApart external := by
  obtain ⟨external, isExternal, -, -, locations_iff⟩ := createBridge_locations rfl (by decide)
    (rfl : (pairing [1] "depth").createBridge {} inlining ⟨22⟩ (.exact "PairOut") = _)
  exact ⟨_, rfl, by decide, _, _, _, external, rfl, isExternal, locations_iff.mpr (by decide)⟩

/-- The elements of an array with a location all have that location. -/
theorem pairing_locations :
    ∃ fields, (pairing [2] "depth").fieldsOf ⟨22⟩ = .ok fields ∧ LocationsApart fields ∧
    ∃ bridge after registry external,
      (pairing [2] "depth").createBridge {} inlining ⟨22⟩ (.exact "PairOut") =
        .ok (some bridge, after, registry) ∧
      after.fieldsOf bridge.struct = .ok external ∧ ¬ LocationsApart external := by
  exact ⟨_, rfl, by decide, _, _, _, _, rfl, rfl, by decide⟩

end Layout

end ShaderPipeline
