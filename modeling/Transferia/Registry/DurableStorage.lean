import Mathlib

/-!
# Revisioned durable storage

A value carries the revision under which it was written, and a write names the
revision it replaces.  Both operations take effect at one point in time.
-/

namespace Transferia.Registry

structure DurableValue (Bytes : Type*) where
  revision : ℕ
  payload : Bytes

inductive CompareExchangeResult (Bytes : Type*) where
  | applied (value : DurableValue Bytes)
  | conflict (current : Option (DurableValue Bytes))

abbrev DurableStorage (Bytes : Type*) := String → Option (DurableValue Bytes)

def revisionOverflow : String := "durable revision overflow"

def nextRevision : Option ℕ → Except String ℕ
  | none => .ok 0
  | some revision =>
    if revision + 1 < 2 ^ 64 then .ok (revision + 1)
    else .error revisionOverflow

namespace DurableStorage
variable {Bytes : Type*} {storage storage' : DurableStorage Bytes} {key : String}
  {expectedRevision : Option ℕ} {payload : Bytes} {result : CompareExchangeResult Bytes}

def compareExchange (storage : DurableStorage Bytes) (key : String)
    (expectedRevision : Option ℕ) (payload : Bytes) :
    Except String (CompareExchangeResult Bytes × DurableStorage Bytes) :=
  if (storage key).map DurableValue.revision = expectedRevision then
    match nextRevision expectedRevision with
    | .error reason => .error reason
    | .ok revision =>
      let value : DurableValue Bytes := { revision, payload }
      .ok (.applied value, Function.update storage key (some value))
  else .ok (.conflict (storage key), storage)

/-- A write either leaves the storage alone or replaces the value whose
revision it named. -/
theorem compareExchange_ok
    (h : storage.compareExchange key expectedRevision payload = .ok (result, storage')) :
    (∃ current, result = .conflict current ∧ storage' = storage) ∨ ∃ revision,
    (storage key).map DurableValue.revision = expectedRevision ∧
    nextRevision expectedRevision = .ok revision ∧ result = .applied { revision, payload } ∧
    storage' = Function.update storage key (some { revision, payload }) := by
  unfold compareExchange at h
  split at h
  · split at h
    · cases h
    rename_i revision hnext
    cases h
    exact .inr ⟨revision, ‹_›, hnext, rfl, rfl⟩
  cases h
  exact .inl ⟨_, rfl, rfl⟩

theorem compareExchange_stored {P : Bytes → Prop}
    (hw : storage.compareExchange key expectedRevision payload = .ok (result, storage'))
    (hpayload : P payload) (h : ∀ other value, storage other = some value → P value.payload) :
    ∀ other value, storage' other = some value → P value.payload := by
  rcases compareExchange_ok hw with ⟨-, -, rfl⟩ | ⟨revision, -, -, -, rfl⟩
  · exact h
  intro other value hval
  by_cases hother : other = key
  · rw [hother, Function.update_self] at hval
    cases hval
    exact hpayload
  rw [Function.update_of_ne hother] at hval
  exact h other value hval

end DurableStorage
end Transferia.Registry
