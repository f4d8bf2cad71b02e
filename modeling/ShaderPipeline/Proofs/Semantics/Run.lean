import ShaderPipeline.Proofs.Semantics.Value

/-!
# Runs and their coupling

A run takes a store to a result and a store, is discarded on the way, or does not
end within the fuel it was given. A coupling relates the stores and the places of
two programs, and `Simulates` says that two runs which start from related stores
go the same way and end in related ones.
-/

namespace ShaderPipeline

/-! ## Stores -/

/-- Where a variable lives: globally, or in the frame of the call at some depth. -/
inductive Root where
  | global (id : VariableId)
  | frame (depth : Nat) (id : VariableId)
deriving DecidableEq

/-- A part of a variable. -/
structure Place where
  root : Root
  path : List Nat := []

/-- The place of a part. -/
def Place.part (place : Place) (position : Nat) : Place :=
  { place with path := place.path ++ [position] }

/-- What every variable holds. -/
abbrev Store := Root → Value

namespace Store

/-- What is found at a place. -/
def read (store : Store) (place : Place) : Value := (store place.root).read place.path

/-- The store with something else at a place. -/
def write (store : Store) (place : Place) (value : Value) : Store := fun root =>
  if root = place.root then (store root).write place.path value else store root

/-- The variable of a place is what it was, but for the part that is written. -/
theorem write_self (store : Store) (place : Place) (value : Value) :
    store.write place value place.root = (store place.root).write place.path value := by
  simp [write]

/-- No other variable changes. -/
theorem write_of_ne (store : Store) {place : Place} (value : Value) {root : Root}
    (other : root ≠ place.root) : store.write place value root = store root := by
  simp [write, other]

/-- Writing to a whole variable replaces its value. -/
theorem write_root (store : Store) (root : Root) (value : Value) :
    store.write ⟨root, []⟩ value root = value := by
  simp [write]

end Store

/-! ## Operands -/

/-- What an expression evaluates to: a place, which is read when its value is needed, or a value. -/
inductive Operand where
  | place (spot : Place)
  | value (held : Value)

namespace Operand

/-- The operand for a part. -/
def part : Operand → Nat → Operand
  | place spot, position => .place (spot.part position)
  | value held, position => .value (held.part position)

/-- The operand for the part that an index selects, if it selects one. -/
def element (operand : Operand) : Option Nat → Operand
  | some position => operand.part position
  | none => .value default

/-- The place of an operand that has one. -/
def place? : Operand → Option Place
  | place spot => some spot
  | value _ => none

/-- The value of an operand. -/
def load (store : Store) : Operand → Value
  | place spot => store.read spot
  | value held => held

end Operand

/-- An argument: its value when it was evaluated, and its place if it has one. -/
structure Passed where
  place : Option Place
  value : Value

/-- Values as arguments without a place. -/
def Passed.values (args : List Value) : List Passed := args.map fun value => ⟨none, value⟩

/-! ## Runs -/

/-- A computation on stores. It gives no result within its fuel, is discarded, or has a result. -/
def Run (α : Type) : Type := Store → Option (Option α × Store)

namespace Run

variable {α β : Type}

instance : Monad Run where
  pure value := fun store => some (some value, store)
  bind first next := fun store =>
    match first store with
    | none => none
    | some (none, after) => some (none, after)
    | some (some value, after) => next value after

/-- No result, however much there is left to do. -/
def exhausted : Run α := fun _ => none

/-- The end of the whole run. -/
def abort : Run α := fun store => some (none, store)

/-- A change of the store. -/
def modify (change : Store → Store) : Run Unit := fun store => some (some (), change store)

/-- The value of an operand. -/
def load (operand : Operand) : Run Value := fun store => some (some (operand.load store), store)

/-- Writes to a place. -/
def write (place : Place) (value : Value) : Run Unit := modify (·.write place value)

/-- Writes to the place of an operand. Without a place, nothing happens. -/
def assign (operand : Operand) (value : Value) : Run Unit :=
  match operand with
  | .place place => write place value
  | .value _ => pure ()

@[simp] theorem pure_apply (value : α) (store : Store) :
    (pure value : Run α) store = some (some value, store) := rfl

@[simp] theorem modify_apply (change : Store → Store) (store : Store) :
    modify change store = some (some (), change store) := rfl

@[simp] theorem write_apply (place : Place) (value : Value) (store : Store) :
    write place value store = some (some (), store.write place value) := rfl

@[simp] theorem load_apply (operand : Operand) (store : Store) :
    load operand store = some (some (operand.load store), store) := rfl

/-- A run goes on unless its first part has no result. -/
theorem bind_apply (first : Run α) (next : α → Run β) (store : Store) :
    (first >>= next) store = match first store with
      | none => none
      | some (none, after) => some (none, after)
      | some (some value, after) => next value after := rfl

/-- A run goes on from the result of its first part. -/
theorem bind_of_some {first : Run α} {next : α → Run β} {value : α} {store after : Store}
    (runs : first store = some (some value, after)) : (first >>= next) store = next value after := by
  rw [bind_apply, runs]

/-- How a run goes on depends on how its first part ended. -/
theorem bind_congr_apply {first second : Run α} {store other : Store}
    (same : first store = second other) (next : α → Run β) :
    (first >>= next) store = (second >>= next) other := by
  rw [bind_apply, bind_apply, same]

/-- It does not matter how runs are put together. -/
theorem bind_assoc {γ : Type} (first : Run α) (next : α → Run β) (last : β → Run γ) :
    first >>= next >>= last = first >>= fun value => next value >>= last := by
  funext store
  simp only [bind_apply]
  rcases first store with _ | ⟨_ | value, after⟩ <;> rfl

/-- A run that is followed by nothing is itself. -/
theorem bind_pure (first : Run α) : first >>= pure = first := by
  funext store
  rw [bind_apply]
  rcases first store with _ | ⟨_ | value, after⟩ <;> rfl

@[simp] theorem pure_bind (value : α) (next : α → Run β) : pure value >>= next = next value := rfl

end Run

/-! ## Couplings -/

/-- How the stores and the places of two programs correspond. -/
structure Coupling where
  /-- The second program may still have fuel when the first has none. -/
  lags : Prop
  /-- The first program may still have fuel when the second has none. -/
  leads : Prop
  stores : Store → Store → Prop
  places : Place → Place → Prop
  part : ∀ {place moved : Place}, places place moved → ∀ position,
    places (place.part position) (moved.part position)
  read : ∀ {place moved : Place} {store other : Store}, places place moved → stores store other →
    other.read moved = store.read place
  write : ∀ {place moved : Place} {store other : Store} (value : Value), places place moved →
    stores store other → stores (store.write place value) (other.write moved value)

namespace Coupling

variable {α β γ δ : Type}

/-- Two runs from related stores went the same way. -/
inductive Matches (coupling : Coupling) (post : α → β → Store → Store → Prop) :
    Option (Option α × Store) → Option (Option β × Store) → Prop where
  | exhausted : Matches coupling post none none
  | lag (lags : coupling.lags) (ended : Option β × Store) : Matches coupling post none (some ended)
  | lead (leads : coupling.leads) (ended : Option α × Store) :
      Matches coupling post (some ended) none
  | aborted {store other : Store} (related : coupling.stores store other) :
      Matches coupling post (some (none, store)) (some (none, other))
  | done {value : α} {result : β} {store other : Store} (related : coupling.stores store other)
      (holds : post value result store other) :
      Matches coupling post (some (some value, store)) (some (some result, other))

/-- From related stores, two runs go the same way. -/
def Simulates (coupling : Coupling) (post : α → β → Store → Store → Prop) (first : Run α)
    (second : Run β) : Prop :=
  ∀ store other, coupling.stores store other → coupling.Matches post (first store) (second other)

/-- A relation of results that has nothing to do with the stores. -/
def Always (related : α → β → Prop) : α → β → Store → Store → Prop :=
  fun value result _ _ => related value result

variable {coupling : Coupling} {post : α → β → Store → Store → Prop}
  {after : γ → δ → Store → Store → Prop} {related : α → β → Prop}

/-- Results that are related wherever the stores are simulate one another. -/
theorem simulates_pure {value : α} {result : β}
    (holds : ∀ store other, coupling.stores store other → post value result store other) :
    coupling.Simulates post (pure value) (pure result) := fun store other kept =>
  .done kept (holds store other kept)

/-- Runs without a result simulate one another. -/
theorem simulates_exhausted : coupling.Simulates post Run.exhausted Run.exhausted :=
  fun _ _ _ => .exhausted

/-- So do runs that are discarded at once. -/
theorem simulates_abort : coupling.Simulates post Run.abort Run.abort :=
  fun _ _ kept => .aborted kept

/-- A run out of fuel lags behind any other. -/
theorem simulates_lag (lags : coupling.lags) (second : Run β) :
    coupling.Simulates post Run.exhausted second := by
  intro store other _
  unfold Run.exhausted
  cases second other with
  | none => exact .exhausted
  | some ended => exact .lag lags ended

/-- Runs that went the same way go on in the same way. -/
theorem Matches.bind {first : Run α} {second : Run β} {next : α → Run γ} {goes : β → Run δ}
    {store other : Store} (begins : coupling.Matches post (first store) (second other))
    (continues : ∀ value result ended also, coupling.stores ended also →
      post value result ended also → coupling.Matches after (next value ended) (goes result also)) :
    coupling.Matches after ((first >>= next) store) ((second >>= goes) other) := by
  rw [Run.bind_apply, Run.bind_apply]
  generalize first store = left at begins ⊢
  generalize second other = right at begins ⊢
  cases begins with
  | exhausted => exact .exhausted
  | lag lags ended =>
    -- Whatever the second run goes on to do, the first one does not follow.
    generalize (match some ended with
      | none => none
      | some (none, ended) => some (none, ended)
      | some (some result, ended) => goes result ended) = outcome
    cases outcome with
    | none => exact .exhausted
    | some ended => exact .lag lags ended
  | lead leads ended =>
    generalize (match some ended with
      | none => none
      | some (none, ended) => some (none, ended)
      | some (some value, ended) => next value ended) = outcome
    cases outcome with
    | none => exact .exhausted
    | some ended => exact .lead leads ended
  | aborted kept => exact .aborted kept
  | done kept holds => exact continues _ _ _ _ kept holds

/-- Runs are simulated part by part. -/
theorem Simulates.bind {first : Run α} {second : Run β} {next : α → Run γ} {goes : β → Run δ}
    (begins : coupling.Simulates post first second)
    (continues : ∀ value result store other, coupling.stores store other →
      post value result store other →
        coupling.Matches after (next value store) (goes result other)) :
    coupling.Simulates after (first >>= next) (second >>= goes) := fun store other kept =>
  (begins store other kept).bind continues

/-- Where the results are related whatever the stores are, so may be what follows. -/
theorem Simulates.andThen {first : Run α} {second : Run β} {next : α → Run γ} {goes : β → Run δ}
    (begins : coupling.Simulates (Always related) first second)
    (continues : ∀ value result, related value result →
      coupling.Simulates after (next value) (goes result)) :
    coupling.Simulates after (first >>= next) (second >>= goes) :=
  begins.bind fun value result store other kept holds =>
    continues value result holds store other kept

/-- Where the results are the same, so may be what follows. -/
theorem Simulates.thenSame {first second : Run α} {next : α → Run γ} {goes : α → Run δ}
    (begins : coupling.Simulates (Always Eq) first second)
    (continues : ∀ value, coupling.Simulates after (next value) (goes value)) :
    coupling.Simulates after (first >>= next) (second >>= goes) :=
  begins.andThen fun value _ same => same ▸ continues value

/-! ## Operands and places -/

/-- Operands of the two programs that stand for the same. -/
inductive Operands (coupling : Coupling) : Operand → Operand → Prop where
  | place {place moved : Place} (moves : coupling.places place moved) :
      Operands coupling (.place place) (.place moved)
  | value (value : Value) : Operands coupling (.value value) (.value value)

/-- Arguments of the two programs that stand for the same. -/
structure Passes (coupling : Coupling) (passed other : Passed) : Prop where
  place : Option.Rel coupling.places passed.place other.place
  value : other.value = passed.value

/-- Parts of operands that stand for the same do so, too. -/
theorem Operands.part {operand other : Operand} (operands : coupling.Operands operand other)
    (position : Nat) : coupling.Operands (operand.part position) (other.part position) := by
  cases operands with
  | place moves => exact .place (coupling.part moves position)
  | value value => exact .value (value.part position)

/-- So do elements that are selected by the same index. -/
theorem Operands.element {operand other : Operand} (operands : coupling.Operands operand other)
    (position : Option Nat) :
    coupling.Operands (operand.element position) (other.element position) := by
  cases position with
  | none => exact .value default
  | some position => exact operands.part position

/-- Either both have a place, and the places correspond, or none has. -/
theorem Operands.place? {operand other : Operand} (operands : coupling.Operands operand other) :
    Option.Rel coupling.places operand.place? other.place? := by
  cases operands with
  | place moves => exact .some moves
  | value => exact .none

/-- Operands that stand for the same have the same value. -/
theorem Operands.load {operand other : Operand} (operands : coupling.Operands operand other) :
    coupling.Simulates (Always Eq) (Run.load operand) (Run.load other) := by
  intro store changed kept
  refine .done kept ?_
  cases operands with
  | place moves => exact (coupling.read moves kept).symm
  | value => rfl

/-- Writing the same to places that correspond keeps the stores related. -/
theorem simulates_write {place moved : Place} (moves : coupling.places place moved)
    (value : Value) :
    coupling.Simulates (Always Eq) (Run.write place value) (Run.write moved value) :=
  fun _ _ kept => .done (coupling.write value moves kept) rfl

/-- So does assigning the same to operands that stand for the same. -/
theorem Operands.assign {operand other : Operand} (operands : coupling.Operands operand other)
    (value : Value) :
    coupling.Simulates (Always Eq) (Run.assign operand value) (Run.assign other value) := by
  cases operands with
  | place moves => exact simulates_write moves value
  | value => exact simulates_pure fun _ _ _ => rfl

end Coupling

end ShaderPipeline
