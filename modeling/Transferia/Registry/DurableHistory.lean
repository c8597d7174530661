import Transferia.Registry.DurableStorage

/-!
# The values that a key has had

Every applied write raises the revision of its key by one, so the revision of a
value is its place among all values of the key.  A write that names a revision
applies only while that value is the last one.
-/

namespace Transferia.Registry
open List Option
namespace DurableStorage
variable {Bytes : Type*} {storage storage' : DurableStorage Bytes}
  {key : String} {history : List Bytes}

/-- `history` are the values that `key` has had, oldest first. -/
def Holds (storage : DurableStorage Bytes) (key : String) (history : List Bytes) : Prop :=
  storage key = history.getLast?.map fun payload =>
    { revision := history.length - 1, payload }

section
variable (h : storage.Holds key history)
include h

theorem Holds.eq_nil (hnone : storage key = none) : history = [] := by
  rw [Holds, hnone] at h
  exact getLast?_eq_none_iff.mp (map_eq_none_iff.mp h.symm)

theorem Holds.read {value : DurableValue Bytes} (hval : storage key = some value) :
    history.length = value.revision + 1 ∧ history[value.revision]? = some value.payload := by
  rw [Holds, hval] at h
  obtain ⟨payload, hlast, rfl⟩ := map_eq_some_iff.mp h.symm
  have hp : 0 < history.length := by
    refine length_pos_iff.mpr fun hnil => ?_
    rw [hnil] at hlast
    cases hlast
  refine ⟨(Nat.sub_add_cancel hp).symm, ?_⟩
  rw [← getLast?_eq_getElem?]
  exact hlast

/-- What a compare-exchange does: a conflict changes nothing, and an applied
write adds one value behind the one that it names. -/
theorem Holds.compareExchange {expRev : Option ℕ} {payload : Bytes}
    {res : CompareExchangeResult Bytes}
    (hw : storage.compareExchange key expRev payload = .ok (res, storage')) :
    (∃ cur, res = .conflict cur ∧ storage' = storage) ∨
    (expRev = none ∧ history = [] ∨
      ∃ revision, expRev = some revision ∧ history.length = revision + 1) ∧
      res = .applied { revision := history.length, payload } ∧
      storage'.Holds key (history ++ [payload]) := by
  rcases compareExchange_ok hw with hc | ⟨revision, hexp, hnext, rfl, rfl⟩
  · exact .inl hc
  right
  have hlen : revision = history.length ∧ (expRev = none ∧
      history = [] ∨ ∃ revision, expRev = some revision ∧ history.length = revision + 1) := by
    cases hval : storage key with
    | none =>
      rw [hval, map_none] at hexp
      subst hexp
      cases hnext
      have hnil := h.eq_nil hval
      exact ⟨hnil ▸ rfl, .inl ⟨rfl, hnil⟩⟩
    | some value =>
      rw [hval, map_some] at hexp
      subst hexp
      obtain ⟨hlen, -⟩ := h.read hval
      simp only [nextRevision] at hnext
      split at hnext
      · cases hnext
        exact ⟨hlen.symm, .inr ⟨_, rfl, hlen⟩⟩
      · cases hnext
  obtain ⟨rfl, hcase⟩ := hlen
  refine ⟨hcase, rfl, ?_⟩
  rw [Holds, Function.update_self, getLast?_concat, length_append, length_singleton]
  rfl

end
end DurableStorage
end Transferia.Registry
