import Transferia.Pipeline.AdmissionDriver

/-!
# The admission coordinator

A batch whose dataset is unknown, or known with another schema, has to be
prepared; a dataset that the discovery already holds is not prepared again.
Schemas, middlewares and the checks of other components are parameters.
-/

namespace Transferia.Delivery
open Pipeline

inductive DatasetRole where
  | main
  | deadLetterQueue
  deriving DecidableEq

def DatasetRole.fromIsDlq : Bool → DatasetRole
  | true => .deadLetterQueue
  | false => .main

inductive UpdatePolicy where
  | strict
  | fullImageUpsert
  deriving DecidableEq

structure DiscoveredDataset (S C : Type*) where
  inNamespace : Option String
  name : String
  role : DatasetRole
  updatePolicy : UpdatePolicy
  (incomingSchema storedSchema : S)
  systemColumns : List C
  deriving DecidableEq

/-- A sink batch with the schema it carries. -/
structure SinkBatch (S C : Type*) where
  inNamespace : Option String
  table : String
  isDlq : Bool
  schema : S
  systemColumns : List C

variable {S C : Type*}

/-- What the coordinator asks of other components. -/
structure AdmissionChecks (S C : Type*) where
  dataset : SinkBatch S C → Bool → Except String (DiscoveredDataset S C)
  retainSystemColumns : DiscoveredDataset S C → Bool → DiscoveredDataset S C
  hasMiddlewares : Bool
  validateMiddlewares : List (DiscoveredDataset S C) → Except String (List (DiscoveredDataset S C))
  mergeCompatibleDatasets : List (DiscoveredDataset S C) →
    Except String (List (DiscoveredDataset S C))
  validateDiscoveredPipeline : List (DiscoveredDataset S C) → Except String Unit

structure AdmissionCoordinator (S C : Type*) where
  datasets : List (DiscoveredDataset S C)
  keepSystemColumns : Bool

namespace DiscoveredDataset

/-- Datasets with the same namespace, name and role share a destination. -/
def sameIdentity (dataset other : DiscoveredDataset S C) : Bool :=
  dataset.inNamespace = other.inNamespace ∧ dataset.name = other.name ∧ dataset.role = other.role

end DiscoveredDataset
namespace AdmissionCoordinator
variable [DecidableEq S] [DecidableEq C] (checks : AdmissionChecks S C)
  (coordinator : AdmissionCoordinator S C)

def existing (batch : SinkBatch S C) : Option (DiscoveredDataset S C) :=
  coordinator.datasets.find? fun dataset =>
    dataset.name = batch.table ∧ dataset.inNamespace = batch.inNamespace ∧
      dataset.role = .fromIsDlq batch.isDlq

def collectPending : List (SinkBatch S C) → List (DiscoveredDataset S C) →
    Except String (List (DiscoveredDataset S C))
  | [], pending => .ok pending
  | batch :: rest, pending =>
    let existing := coordinator.existing batch
    if existing.any fun dataset =>
        decide (dataset.incomingSchema = batch.schema) then
      collectPending rest pending
    else
      match checks.dataset batch coordinator.keepSystemColumns with
      | .error error => .error error
      | .ok dataset =>
        let dataset :=
          match existing with
          | none => dataset
          | some known =>
            { dataset with updatePolicy := known.updatePolicy }
        if pending.any fun previous => previous.sameIdentity dataset &&
            decide (previous.incomingSchema = dataset.incomingSchema) then
          collectPending rest pending
        else collectPending rest (pending ++ [dataset])

def pendingDatasets (outputs : List (SinkBatch S C)) :
    Except String (List (DiscoveredDataset S C)) :=
  coordinator.collectPending checks outputs []

/-- Replace the datasets that share a destination with an added one. -/
def replaceDatasets (datasets added : List (DiscoveredDataset S C)) :
    List (DiscoveredDataset S C) :=
  added.foldl (fun combined dataset =>
      (combined.filter (!·.sameIdentity dataset)) ++ [dataset])
    datasets

/-- The discovery with the added datasets, or nothing when it is as before. -/
def combinedDatasets (stage : DatasetStage) (added : List (DiscoveredDataset S C)) :
    Except String (Option (List (DiscoveredDataset S C))) :=
  if stage = .source ∧ checks.hasMiddlewares then
    match checks.mergeCompatibleDatasets (coordinator.datasets ++ added) with
    | .error error => .error error
    | .ok combined =>
      if combined = coordinator.datasets then .ok none
      else .ok (some combined)
  else .ok (some (replaceDatasets coordinator.datasets added))

/-- Validate one dataset and prepare its destination.  `answer` is what the
destination says when it is asked; it is asked about added datasets only. -/
def prepare (dataset : DiscoveredDataset S C) (stage : DatasetStage) (answer : Except String Unit) :
    Except String (AdmissionCoordinator S C) :=
  let validated :=
    match stage with
    | .source =>
      checks.validateMiddlewares [checks.retainSystemColumns dataset coordinator.keepSystemColumns]
    | .sink => .ok [dataset]
  match validated with
  | .error error => .error error
  | .ok added =>
    if added.all fun dataset => decide (dataset ∈ coordinator.datasets) then
      .ok coordinator
    else
      match coordinator.combinedDatasets checks stage added with
      | .error error => .error error
      | .ok none => .ok coordinator
      | .ok (some combined) =>
        match checks.validateDiscoveredPipeline combined with
        | .error error => .error error
        | .ok () =>
          match answer with
          | .error error => .error error
          | .ok () => .ok { coordinator with datasets := combined }

def admission : DatasetAdmission (AdmissionCoordinator S C) (SinkBatch S C)
      (DiscoveredDataset S C) where
  pendingDatasets coordinator outputs := coordinator.pendingDatasets checks outputs
  prepare coordinator dataset stage answer := coordinator.prepare checks dataset stage answer

variable {checks coordinator}
end AdmissionCoordinator
end Transferia.Delivery
