import Mathlib.Data.Nat.Notation
import Mathlib.Logic.Function.Basic

/-! # The hearts of one `UserProvider`

What `UserContext.tsx` keeps in its refs, and its callbacks as functions on it: `toggleSave` with the
handler of its failure, the two ends of a load of saved ids, and the two ends of a logout. `saveGuard`'s
epoch is kept with them.
-/

namespace WarsawEvents.Hearts
set_option autoImplicit false

/-- `savedIdsRef` is what the hearts show; a generation that is missing is a key the map has not. -/
structure Provider (ι : Type) where
  savedIds : ι → Bool := fun _ => false
  saveGeneration : ι → Option ℕ := fun _ => none
  saveEpoch : ℕ := 0

/-- What a click leaves for the handler of its request, a `DELETE` if the item `wasSaved`. -/
structure Request (ι : Type) where
  id : ι
  wasSaved : Bool
  epoch : ℕ
  generation : ℕ
  deriving DecidableEq

/-- A load of saved ids that is under way: `epoch` and `generationAtStart`. -/
structure Load (ι : Type) where
  epoch : ℕ
  generationAtStart : ι → Option ℕ

variable {ι : Type} [DecidableEq ι]

/-! ## Clicks -/

def nextGeneration (p : Provider ι) (id : ι) : ℕ := (p.saveGeneration id).getD 0 + 1

def toggleSave (p : Provider ι) (id : ι) : Request ι × Provider ι :=
  let wasSaved := p.savedIds id
  let generation := nextGeneration p id
  (⟨id, wasSaved, p.saveEpoch, generation⟩,
    { p with
      savedIds := Function.update p.savedIds id (!wasSaved)
      saveGeneration := Function.update p.saveGeneration id (some generation) })

/-- The handler of a failure goes on: the epoch and the generation are still the request's. -/
def Request.taken (p : Provider ι) (r : Request ι) : Bool :=
  p.saveEpoch = r.epoch && p.saveGeneration r.id = some r.generation

/-- `request.catch`. -/
def requestFailed (p : Provider ι) (r : Request ι) : Provider ι :=
  if r.taken p then
    { p with
      savedIds := Function.update p.savedIds r.id r.wasSaved
      saveGeneration := Function.update p.saveGeneration r.id none }
  else p

/-! ## Sessions -/

/-- The start of `applySession`, and of the first load after `/me`. -/
def beginLoad (p : Provider ι) : Load ι × Provider ι :=
  (⟨p.saveEpoch + 1, p.saveGeneration⟩, { p with saveEpoch := p.saveEpoch + 1 })

/-- A generation that is newer than the load. -/
def Load.clicked (load : Load ι) (p : Provider ι) (id : ι) : Bool :=
  match p.saveGeneration id with
  | none => false
  | some generation => generation ≠ (load.generationAtStart id).getD 0

/-- `savedIdsFromLoad` and the publishing of what it returns. -/
def publishLoad (p : Provider ι) (load : Load ι) (ids : List ι) : Provider ι :=
  if p.saveEpoch = load.epoch then
    { p with
      savedIds := fun id => if load.clicked p id then p.savedIds id else ids.contains id
      saveGeneration := fun id =>
        if load.clicked p id && p.savedIds id = ids.contains id then
          some (nextGeneration p id)
        else p.saveGeneration id }
  else p

/-- `logout` before its request. -/
def beginLogout (p : Provider ι) : Provider ι := { p with saveEpoch := p.saveEpoch + 1 }

/-- `logout` after its request. -/
def endLogout (p : Provider ι) : Provider ι := { p with savedIds := fun _ => false }

/-! ## One item, and the others -/

variable {p : Provider ι} {id id' : ι} {r : Request ι}

@[simp] theorem toggleSave_id : (toggleSave p id).1.id = id := rfl

@[simp] theorem toggleSave_wasSaved : (toggleSave p id).1.wasSaved = p.savedIds id := rfl

@[simp] theorem toggleSave_epoch : (toggleSave p id).2.saveEpoch = p.saveEpoch := rfl

theorem toggleSave_savedIds : (toggleSave p id).2.savedIds id = !p.savedIds id :=
  Function.update_self _ _ _

theorem toggleSave_savedIds_other (h : id' ≠ id) :
    (toggleSave p id).2.savedIds id' = p.savedIds id' := Function.update_of_ne h _ _

theorem toggleSave_generation : (toggleSave p id).2.saveGeneration id = some (nextGeneration p id) :=
  Function.update_self _ _ _

theorem toggleSave_generation_other (h : id' ≠ id) :
    (toggleSave p id).2.saveGeneration id' = p.saveGeneration id' := Function.update_of_ne h _ _

/-- The newest click is the one whose failure is heard. -/
theorem toggleSave_taken : (toggleSave p id).1.taken (toggleSave p id).2 = true := by
  have hgeneration : (toggleSave p id).2.saveGeneration id = some (toggleSave p id).1.generation :=
    toggleSave_generation
  unfold Request.taken
  rw [toggleSave_id, hgeneration]
  simp [toggleSave]

theorem taken_toggleSave_other (h : r.id ≠ id) : r.taken (toggleSave p id).2 = r.taken p := by
  unfold Request.taken
  rw [toggleSave_epoch, toggleSave_generation_other h]

theorem requestFailed_of_not_taken (h : r.taken p = false) : requestFailed p r = p := by
  unfold requestFailed
  rw [h, if_neg Bool.false_ne_true]

theorem requestFailed_savedIds (h : r.taken p = true) :
    (requestFailed p r).savedIds r.id = r.wasSaved := by
  unfold requestFailed
  rw [if_pos h]
  exact Function.update_self _ _ _

theorem requestFailed_generation (h : r.taken p = true) :
    (requestFailed p r).saveGeneration r.id = none := by
  unfold requestFailed
  rw [if_pos h]
  exact Function.update_self _ _ _

theorem requestFailed_savedIds_other (h : id ≠ r.id) :
    (requestFailed p r).savedIds id = p.savedIds id := by
  unfold requestFailed
  split
  · exact Function.update_of_ne h _ _
  · rfl

theorem requestFailed_generation_other (h : id ≠ r.id) :
    (requestFailed p r).saveGeneration id = p.saveGeneration id := by
  unfold requestFailed
  split
  · exact Function.update_of_ne h _ _
  · rfl

theorem requestFailed_epoch : (requestFailed p r).saveEpoch = p.saveEpoch := by
  unfold requestFailed
  split
  · rfl
  · rfl

theorem taken_requestFailed_other {r' : Request ι} (h : r'.id ≠ r.id) :
    r'.taken (requestFailed p r) = r'.taken p := by
  unfold Request.taken
  rw [requestFailed_epoch, requestFailed_generation_other h]

end WarsawEvents.Hearts
