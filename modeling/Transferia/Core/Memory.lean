import Transferia.Support.WeighedMap
import Transferia.Support.Transition

/-!
# The memory budget of a partition

Every stage of a pipeline accounts its buffers in one budget.  The counters are
64-bit words: additions that must not overflow are checked, the others and all
subtractions wrap around.  An operation that has to wait has no effect until it
can proceed.  The reservations that are alive are part of the state.
-/

namespace Transferia.Core
open Support Nat

def usizeValues : ℕ := 2 ^ 64

def checkedAdd (value added : ℕ) : Option ℕ :=
  if value + added < usizeValues then some (value + added) else none

def fetchAdd (value added : ℕ) : ℕ := (value + added) % usizeValues

def fetchSub (value removed : ℕ) : ℕ := (value + usizeValues - removed) % usizeValues

theorem checkedAdd_eq_some {value added sum : ℕ} :
    checkedAdd value added = some sum ↔ value + added < usizeValues ∧ value + added = sum := by
  unfold checkedAdd
  split <;> simp_all

theorem fetchAdd_of_lt {value added : ℕ} (h : value + added < usizeValues) :
    fetchAdd value added = value + added :=
  mod_eq_of_lt h

theorem fetchSub_of_le {value removed : ℕ} (hle : removed ≤ value) (hlt : value < usizeValues) :
    fetchSub value removed = value - removed := by
  have hsplit : value + usizeValues - removed = value - removed + usizeValues := by omega
  rw [fetchSub, hsplit, add_mod_right]
  exact mod_eq_of_lt (by omega)

inductive ReservationKind where
  | source
  | progressSource
  | transform
  deriving DecidableEq

/-- The shared counters, with a mark that some subtraction took more than there
was. -/
structure MemoryInner where
  (limit used sourceUsed transformUsed progressSourceActive activeTransform : ℕ)
  underflow : Bool

namespace MemoryInner
variable (inner : MemoryInner)

def subUsed (bytes : ℕ) : MemoryInner := { inner with
    used := fetchSub inner.used bytes, underflow := inner.underflow || decide (inner.used < bytes) }

def addKind (kind : ReservationKind) (bytes : ℕ) : MemoryInner :=
  match kind with
  | .source | .progressSource =>
    { inner with sourceUsed := fetchAdd inner.sourceUsed bytes }
  | .transform =>
    { inner with transformUsed := fetchAdd inner.transformUsed bytes }

def subKind (kind : ReservationKind) (bytes : ℕ) : MemoryInner :=
  match kind with
  | .source | .progressSource =>
    { inner with
      sourceUsed := fetchSub inner.sourceUsed bytes
      underflow := inner.underflow || decide (inner.sourceUsed < bytes) }
  | .transform =>
    { inner with
      transformUsed := fetchSub inner.transformUsed bytes
      underflow := inner.underflow || decide (inner.transformUsed < bytes) }

end MemoryInner

/-- A lease with the number of its owners: clones share one lease. -/
structure MemoryLease where
  bytes : ℕ
  kind : ReservationKind
  owners : ℕ

/-- A budget with the leases and the active transforms that are alive, under
the names their holders gave them. -/
structure PipelineMemory where
  inner : MemoryInner
  leases : AList fun _ : ℕ => MemoryLease
  activeTransforms : AList fun _ : ℕ => ℕ

inductive Reply where
  | granted
  | refused (message : String)
  | shrunk (reduced : Bool)

inductive Outcome where
  | waits
  | panics (message : String)
  | returns (reply : Reply) (memory : PipelineMemory)

def Outcome.memory : Outcome → Option PipelineMemory
  | .returns _ memory => some memory
  | _ => none

def accountingOverflow : String := "pipeline memory accounting overflow"

def sourceAccountingOverflow : String := "pipeline source memory accounting overflow"

def onlyProgressGrows : String := "only a progress-source reservation can grow"

def onlyProgressCompanion : String :=
  "only a progress-source reservation can create a source companion"

namespace PipelineMemory

def new (limit : ℕ) : Option PipelineMemory :=
  if 0 < limit then
    some
      { inner :=
          { limit
            used := 0, sourceUsed := 0, transformUsed := 0, progressSourceActive := 0
            activeTransform := 0, underflow := false }
        leases := ∅, activeTransforms := ∅ }
  else none

variable (memory : PipelineMemory)

def lend (inner : MemoryInner) (name bytes : ℕ) (kind : ReservationKind) : PipelineMemory :=
  { memory with inner, leases := memory.leases.insert name { bytes, kind, owners := 1 } }

/-- An allocation above the limit fits an empty budget only. -/
def fits (bytes : ℕ) : Bool :=
  if bytes > memory.inner.limit then memory.inner.used = 0
  else
    match checkedAdd memory.inner.used bytes with
    | none => false
    | some next => next ≤ memory.inner.limit

section
variable (name bytes : ℕ)

def reserve : Outcome :=
  let bytes := max bytes 1
  if memory.fits bytes then
    let inner := { memory.inner with used := min (memory.inner.used + bytes) (usizeValues - 1) }
    .returns .granted (memory.lend (inner.addKind .source bytes) name bytes .source)
  else .waits

def reserveProgressSource : Outcome :=
  let bytes := max bytes 1
  if memory.inner.progressSourceActive = 0 then
    match checkedAdd memory.inner.used bytes with
    | none => .panics accountingOverflow
    | some used =>
      let inner := { memory.inner with progressSourceActive := 1, used }
      .returns .granted
        (memory.lend (inner.addKind .progressSource bytes) name bytes .progressSource)
  else .waits

def reserveTransform : Outcome :=
  let bytes := max bytes 1
  match checkedAdd memory.inner.used bytes with
  | none => .panics accountingOverflow
  | some used =>
    let inner := { memory.inner with used }
    .returns .granted (memory.lend (inner.addKind .transform bytes) name bytes .transform)

def admitActiveTransform : Outcome :=
  let bytes := max bytes 1
  if memory.inner.transformUsed < memory.inner.limit ∧ memory.inner.activeTransform = 0 then
    match checkedAdd memory.inner.used bytes with
    | none => .panics accountingOverflow
    | some used =>
      .returns .granted
        { memory with
          inner := { memory.inner with activeTransform := bytes, used }
          activeTransforms := memory.activeTransforms.insert name bytes }
  else .waits

end

/-- Turn the active transform `name`, admitted with the estimate `estimate`,
into a lease. -/
def finish (name estimate lease bytes : ℕ) : Outcome :=
  let bytes := max bytes 1
  let settled (inner : MemoryInner) : Outcome :=
    let inner := inner.addKind .transform bytes
    .returns .granted
      { inner := { inner with activeTransform := 0 }
        leases := memory.leases.insert lease { bytes, kind := .transform, owners := 1 }
        activeTransforms := memory.activeTransforms.erase name }
  if estimate ≤ bytes then
    match checkedAdd memory.inner.used (bytes - estimate) with
    | none => .panics accountingOverflow
    | some used => settled { memory.inner with used }
  else settled (memory.inner.subUsed (estimate - bytes))

def dropActiveTransform (name estimate : ℕ) : Outcome := .returns .granted
    { memory with
      inner := { memory.inner.subUsed estimate with activeTransform := 0 }
      activeTransforms := memory.activeTransforms.erase name }

def resize (inner : MemoryInner) (name : ℕ) (lease : MemoryLease) (bytes : ℕ) : PipelineMemory :=
  { memory with inner, leases := memory.leases.insert name { lease with bytes } }

variable (name : ℕ)
section
variable (lease : MemoryLease)

def growProgressSourceTo (bytes : ℕ) : Outcome :=
  if lease.kind = .progressSource then
    let bytes := max bytes 1
    if bytes ≤ lease.bytes then .returns .granted memory
    else
      match checkedAdd memory.inner.used (bytes - lease.bytes) with
      | none => .returns (.refused accountingOverflow) memory
      | some used =>
        let inner := { memory.inner with used }
        match checkedAdd inner.sourceUsed (bytes - lease.bytes) with
        | none =>
          .returns (.refused sourceAccountingOverflow) { memory with inner }
        | some sourceUsed =>
          .returns .granted (memory.resize { inner with sourceUsed } name lease bytes)
  else .returns (.refused onlyProgressGrows) memory

def reserveSourceCompanion (name bytes : ℕ) : Outcome :=
  if lease.kind = .progressSource then
    let bytes := max bytes 1
    match checkedAdd memory.inner.used bytes with
    | none => .returns (.refused accountingOverflow) memory
    | some used =>
      let inner := { memory.inner with used }
      match checkedAdd inner.sourceUsed bytes with
      | none =>
        .returns (.refused sourceAccountingOverflow) { memory with inner := inner.subUsed bytes }
      | some sourceUsed =>
        .returns .granted (memory.lend { inner with sourceUsed } name bytes .source)
  else .returns (.refused onlyProgressCompanion) memory

def shrinkTo (bytes : ℕ) : Outcome :=
  let bytes := max bytes 1
  if lease.bytes ≤ bytes then .returns (.shrunk false) memory
  else
    let released := lease.bytes - bytes
    .returns (.shrunk true)
      (memory.resize ((memory.inner.subUsed released).subKind lease.kind released) name lease bytes)

def cloneLease : Outcome := .returns .granted
    { memory with leases := memory.leases.insert name { lease with owners := lease.owners + 1 } }

def releaseLease : PipelineMemory :=
  let inner := (memory.inner.subUsed lease.bytes).subKind lease.kind lease.bytes
  { memory with
    inner :=
      if lease.kind = .progressSource then
        { inner with progressSourceActive := 0 }
      else inner
    leases := memory.leases.erase name }

def dropLease : Outcome :=
  if lease.owners = 1 then .returns .granted (memory.releaseLease name lease)
  else
    .returns .granted
      { memory with leases := memory.leases.insert name { lease with owners := lease.owners - 1 } }

end
end PipelineMemory

/-- An operation with the names of the reservations it works on.  Sizes are
machine words. -/
inductive MemoryOperation where
  | reserve (name : ℕ) (bytes : UInt64)
  | reserveProgressSource (name : ℕ) (bytes : UInt64)
  | reserveTransform (name : ℕ) (bytes : UInt64)
  | admitActiveTransform (name : ℕ) (bytes : UInt64)
  | finish (name lease : ℕ) (bytes : UInt64)
  | dropActiveTransform (name : ℕ)
  | growProgressSourceTo (name : ℕ) (bytes : UInt64)
  | reserveSourceCompanion (parent name : ℕ) (bytes : UInt64)
  | shrinkTo (name : ℕ) (bytes : UInt64)
  | cloneLease (name : ℕ)
  | dropLease (name : ℕ)

namespace PipelineMemory

/-- The memory after an operation that returns.  An operation works on
reservations that are alive and gives a new one a name that is free. -/
def step (memory : PipelineMemory) : MemoryOperation → Option PipelineMemory
  | .reserve name bytes =>
    if (memory.leases.lookup name).isNone then
      (memory.reserve name bytes.toNat).memory
    else none
  | .reserveProgressSource name bytes =>
    if (memory.leases.lookup name).isNone then
      (memory.reserveProgressSource name bytes.toNat).memory
    else none
  | .reserveTransform name bytes =>
    if (memory.leases.lookup name).isNone then
      (memory.reserveTransform name bytes.toNat).memory
    else none
  | .admitActiveTransform name bytes =>
    if (memory.activeTransforms.lookup name).isNone then
      (memory.admitActiveTransform name bytes.toNat).memory
    else none
  | .finish name lease bytes =>
    if (memory.leases.lookup lease).isNone then
      (memory.activeTransforms.lookup name).bind fun estimate =>
        (memory.finish name estimate lease bytes.toNat).memory
    else none
  | .dropActiveTransform name =>
    (memory.activeTransforms.lookup name).bind fun estimate =>
      (memory.dropActiveTransform name estimate).memory
  | .growProgressSourceTo name bytes =>
    (memory.leases.lookup name).bind fun lease =>
      (memory.growProgressSourceTo name lease bytes.toNat).memory
  | .reserveSourceCompanion parent name bytes =>
    if (memory.leases.lookup name).isNone then
      (memory.leases.lookup parent).bind fun lease =>
        (memory.reserveSourceCompanion lease name bytes.toNat).memory
    else none
  | .shrinkTo name bytes =>
    (memory.leases.lookup name).bind fun lease => (memory.shrinkTo name lease bytes.toNat).memory
  | .cloneLease name =>
    (memory.leases.lookup name).bind fun lease => (memory.cloneLease name lease).memory
  | .dropLease name =>
    (memory.leases.lookup name).bind fun lease => (memory.dropLease name lease).memory

end PipelineMemory
end Transferia.Core
