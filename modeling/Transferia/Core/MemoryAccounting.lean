import Transferia.Core.Memory

/-!
# The counters of a memory budget

The counters are sums over the reservations that are alive.  One operation
changes a counter and the reservations by the same amount, whatever the order
of the operations and whoever holds the reservations.
-/

namespace Transferia.Core
open Option Support MemoryLease MemoryInner Nat

/-! ## Sums over leases -/

namespace MemoryLease
variable (lease : MemoryLease)

def sourceBytes : ℕ :=
  match lease.kind with
  | .source | .progressSource => lease.bytes
  | .transform => 0

def transformBytes : ℕ :=
  match lease.kind with
  | .source | .progressSource => 0
  | .transform => lease.bytes

def progressLeases : ℕ :=
  match lease.kind with
  | .progressSource => 1
  | _ => 0

theorem sourceBytes_add_transformBytes :
    lease.sourceBytes + lease.transformBytes = lease.bytes := by
  cases hkind : lease.kind <;> simp [sourceBytes, transformBytes, hkind]

theorem bytes_split {part rest : ℕ} (h : part + rest = lease.bytes) :
    sourceBytes { lease with bytes := part } + sourceBytes { lease with bytes := rest } =
      lease.sourceBytes ∧
    transformBytes { lease with bytes := part } + transformBytes { lease with bytes := rest } =
      lease.transformBytes := by
  cases hkind : lease.kind <;> simp [sourceBytes, transformBytes, hkind, h]

end MemoryLease

/-- The counters agree with the reservations that are alive. -/
structure PipelineMemory.Accounts (memory : PipelineMemory) : Prop where
  used :
    memory.inner.used = total MemoryLease.bytes memory.leases + total id memory.activeTransforms
  sourceUsed : memory.inner.sourceUsed = total sourceBytes memory.leases
  transformUsed : memory.inner.transformUsed = total transformBytes memory.leases
  progress : memory.inner.progressSourceActive = total progressLeases memory.leases
  active : memory.inner.activeTransform = total id memory.activeTransforms
  used_lt : memory.inner.used < usizeValues
  progress_le : memory.inner.progressSourceActive ≤ 1
  active_le : total (fun _ => 1) memory.activeTransforms ≤ 1
  noUnderflow : memory.inner.underflow = false
  lease_pos :
    ∀ name lease, memory.leases.lookup name = some lease → 0 < lease.bytes ∧ 0 < lease.owners
  estimate_pos : ∀ name estimate, memory.activeTransforms.lookup name = some estimate → 0 < estimate

namespace PipelineMemory
variable {memory memory' : PipelineMemory} {name bytes : ℕ} {inner : MemoryInner}
  {lease : MemoryLease}

theorem Accounts.sourceUsed_le (h : memory.Accounts) :
    memory.inner.sourceUsed ≤ memory.inner.used := by
  have hle :=
    total_le_total memory.leases fun lease => le.intro lease.sourceBytes_add_transformBytes
  rw [h.sourceUsed, h.used]
  omega

theorem Accounts.transformUsed_le (h : memory.Accounts) :
    memory.inner.transformUsed ≤ memory.inner.used := by
  have hle := total_le_total memory.leases fun lease => le.intro
    ((add_comm _ _).trans lease.sourceBytes_add_transformBytes)
  rw [h.transformUsed, h.used]
  omega

/-! ## New leases -/

theorem Accounts.insertLease (h : memory.Accounts) {activeTransforms : AList fun _ : ℕ => ℕ}
    (hfree : memory.leases.lookup name = none) (hpos : 0 < lease.bytes ∧ 0 < lease.owners)
    (hused : inner.used + total id memory.activeTransforms =
      memory.inner.used + lease.bytes + total id activeTransforms)
    (hsrc : inner.sourceUsed = memory.inner.sourceUsed + lease.sourceBytes)
    (htransform : inner.transformUsed = memory.inner.transformUsed + lease.transformBytes)
    (hprogress :
      inner.progressSourceActive = memory.inner.progressSourceActive + lease.progressLeases)
    (hact : inner.activeTransform = total id activeTransforms)
    (hused_lt : inner.used < usizeValues) (hprogress_le : inner.progressSourceActive ≤ 1)
    (hactive_le : total (fun _ => 1) activeTransforms ≤ 1) (hunderflow : inner.underflow = false)
    (hestimate : ∀ name estimate, activeTransforms.lookup name = some estimate → 0 < estimate) :
    Accounts { inner, leases := memory.leases.insert name lease, activeTransforms } where
  used := by
    have hbefore := h.used
    simp only [total_insert_of_none _ hfree]
    omega
  sourceUsed := by simp only [total_insert_of_none _ hfree, hsrc, h.sourceUsed]
  transformUsed := by simp only [total_insert_of_none _ hfree, htransform, h.transformUsed]
  progress := by simp only [total_insert_of_none _ hfree, hprogress, h.progress]
  active := hact
  used_lt := hused_lt
  progress_le := hprogress_le
  active_le := hactive_le
  noUnderflow := hunderflow
  lease_pos := by
    intro other found hlook
    rcases lookup_insert_cases hlook with ⟨_, rfl⟩ | hlook
    · exact hpos
    · exact h.lease_pos other found hlook
  estimate_pos := hestimate

theorem fits_lt (hbytes : bytes < usizeValues) (hfits : memory.fits bytes) :
    memory.inner.used + bytes < usizeValues ∧
    (memory.inner.used + bytes ≤ memory.inner.limit ∨ memory.inner.used = 0) := by
  unfold fits at hfits
  split at hfits
  · have hempty : memory.inner.used = 0 := by simpa using hfits
    exact ⟨by omega, .inr hempty⟩
  cases hnext : checkedAdd memory.inner.used bytes with
  | none => simp [hnext] at hfits
  | some next =>
    obtain ⟨hlt, rfl⟩ := checkedAdd_eq_some.mp hnext
    have hle : memory.inner.used + bytes ≤ memory.inner.limit := by simpa [hnext] using hfits
    exact ⟨hlt, .inl hle⟩

theorem reserve_returns (hret : (memory.reserve name bytes).memory = some memory') :
    memory.fits (max bytes 1) ∧ memory' = memory.lend (addKind { memory.inner with
              used := min (memory.inner.used + max bytes 1) (usizeValues - 1) } .source
            (max bytes 1)) name (max bytes 1) .source := by
  simp only [reserve] at hret
  split at hret
  · cases hret
    exact ⟨‹_›, rfl⟩
  · cases hret

section
variable (h : memory.Accounts) (hfree : memory.leases.lookup name = none)
include h hfree

theorem accounts_lend (kind : ReservationKind) {used progressSourceActive : ℕ}
    (hused : used = memory.inner.used + max bytes 1) (hlt : used < usizeValues)
    (hprogress : progressSourceActive = memory.inner.progressSourceActive +
      progressLeases ⟨max bytes 1, kind, 1⟩)
    (hle : progressSourceActive ≤ 1) :
    (memory.lend (addKind { memory.inner with used, progressSourceActive } kind (max bytes 1))
      name (max bytes 1) kind).Accounts := by
  have hsrc := h.sourceUsed_le
  have htransform := h.transformUsed_le
  have hadd : ∀ old, old ≤ memory.inner.used → fetchAdd old (max bytes 1) = old + max bytes 1 :=
    fun _ hold => fetchAdd_of_lt (by omega)
  cases kind <;>
    refine h.insertLease hfree ⟨by simp, by simp⟩ ?_ ?_ ?_ hprogress h.active hlt hle h.active_le
      h.noUnderflow h.estimate_pos <;>
    simp [addKind, sourceBytes, transformBytes, hadd, hsrc, htransform, hused]

theorem accounts_reserve (hbytes : bytes < usizeValues)
    (hret : (memory.reserve name bytes).memory = some memory') : memory'.Accounts := by
  obtain ⟨hfits, rfl⟩ := reserve_returns hret
  have hmax : max bytes 1 < usizeValues := max_lt hbytes (by decide)
  have hlt := (fits_lt hmax hfits).1
  exact accounts_lend h hfree .source (by omega) (by omega) rfl h.progress_le

theorem accounts_reserveProgressSource
    (hret : (memory.reserveProgressSource name bytes).memory = some memory') :
    memory'.Accounts := by
  simp only [reserveProgressSource] at hret
  split at hret
  · next hnone =>
    split at hret
    next => cases hret
    rename_i used hnext
    cases hret
    obtain ⟨hlt, rfl⟩ := checkedAdd_eq_some.mp hnext
    exact accounts_lend h hfree .progressSource rfl hlt (by simp [hnone, progressLeases]) le_rfl
  · cases hret

theorem accounts_reserveTransform
    (hret : (memory.reserveTransform name bytes).memory = some memory') : memory'.Accounts := by
  simp only [reserveTransform] at hret
  split at hret
  next => cases hret
  rename_i used hnext
  cases hret
  obtain ⟨hlt, rfl⟩ := checkedAdd_eq_some.mp hnext
  exact accounts_lend h hfree .transform rfl hlt rfl h.progress_le

theorem accounts_reserveSourceCompanion
    (hret : (memory.reserveSourceCompanion lease name bytes).memory = some memory') :
    memory'.Accounts := by
  simp only [reserveSourceCompanion] at hret
  split at hret
  · cases hnext : checkedAdd memory.inner.used (max bytes 1) with
    | none =>
      rw [hnext] at hret
      cases hret
      exact h
    | some used =>
      obtain ⟨hlt, rfl⟩ := checkedAdd_eq_some.mp hnext
      have hsrc := h.sourceUsed_le
      have hsum : checkedAdd memory.inner.sourceUsed (max bytes 1) =
          some (memory.inner.sourceUsed + max bytes 1) :=
        checkedAdd_eq_some.mpr ⟨by omega, rfl⟩
      simp only [hnext, hsum] at hret
      cases hret
      exact h.insertLease hfree ⟨by simp, by simp⟩ rfl rfl rfl rfl h.active hlt h.progress_le
        h.active_le h.noUnderflow h.estimate_pos
  cases hret
  exact h

end

/-! ## Active transforms -/

theorem Accounts.activeTransforms_empty (h : memory.Accounts)
    (hnone : memory.inner.activeTransform = 0) : memory.activeTransforms = ∅ :=
  eq_empty_of_total_eq_zero h.estimate_pos (h.active.symm.trans hnone)

theorem accounts_admitActiveTransform (h : memory.Accounts)
    (hret : (memory.admitActiveTransform name bytes).memory = some memory') : memory'.Accounts := by
  simp only [admitActiveTransform] at hret
  split at hret
  · next hroom =>
    split at hret
    next => cases hret
    rename_i used hnext
    cases hret
    obtain ⟨hlt, rfl⟩ := checkedAdd_eq_some.mp hnext
    have he := h.activeTransforms_empty hroom.2
    have hused := h.used
    rw [he, total_empty] at hused
    have hfree : (∅ : AList fun _ : ℕ => ℕ).lookup name = none := rfl
    refine { h with used := ?_, active := ?_, used_lt := hlt, active_le := ?_, estimate_pos := ?_ }
    · simp only [he, total_insert_of_none _ hfree, total_empty, id]
      omega
    · simp only [he, total_insert_of_none _ hfree, total_empty, id, zero_add]
    · simp only [he, total_insert_of_none _ hfree, total_empty, le_refl]
    intro other estimate hlook
    rcases lookup_insert_cases hlook with ⟨_, rfl⟩ | hlook
    · simp
    · exact h.estimate_pos other estimate hlook
  · cases hret

variable {estimate : ℕ}

theorem Accounts.activeTransforms_erase (h : memory.Accounts)
    (hlook : memory.activeTransforms.lookup name = some estimate) :
    total id memory.activeTransforms = estimate ∧ total id (memory.activeTransforms.erase name) =
    0 ∧ total (fun _ => 1) (memory.activeTransforms.erase name) ≤ 1 := by
  have hcount := total_erase (fun _ => 1) hlook
  have hle := h.active_le
  have hzero : total (fun _ => 1) (memory.activeTransforms.erase name) = 0 := by omega
  have hempty :
    memory.activeTransforms.erase name = ∅ := eq_empty_of_total_eq_zero (fun _ _ _ => one_pos) hzero
  have hestimate := total_erase id hlook
  rw [hempty] at hestimate ⊢
  exact ⟨by simpa using hestimate.symm, rfl, by simp⟩

theorem subUsed_eq (hle : bytes ≤ inner.used) (hlt : inner.used < usizeValues) :
    inner.subUsed bytes = { inner with used := inner.used - bytes } := by
  simp [subUsed, fetchSub_of_le hle hlt, hle]

theorem accounts_finish (h : memory.Accounts) {lease : ℕ}
    (hfree : memory.leases.lookup lease = none)
    (hlook : memory.activeTransforms.lookup name = some estimate)
    (hret : (memory.finish name estimate lease bytes).memory = some memory') :
    memory'.Accounts := by
  obtain ⟨htotal, herased, hcount⟩ := h.activeTransforms_erase hlook
  have hused := h.used
  have hused_lt := h.used_lt
  have htransform : memory.inner.transformUsed + estimate ≤ memory.inner.used := by
    have hle := total_le_total memory.leases fun lease => le.intro
      ((add_comm _ _).trans lease.sourceBytes_add_transformBytes)
    have hbefore := h.transformUsed
    omega
  -- Both branches settle the same amount: the estimate leaves, the output
  -- comes in.
  have hs : ∀ used, used + estimate = memory.inner.used + max bytes 1 → used < usizeValues →
      Accounts
        { inner := { addKind { memory.inner with used } .transform (max bytes 1) with
            activeTransform := 0 }
          leases := memory.leases.insert lease
            { bytes := max bytes 1, kind := .transform, owners := 1 }
          activeTransforms := memory.activeTransforms.erase name } := by
    intro used hsum hlt
    have hadd : fetchAdd memory.inner.transformUsed (max bytes 1) =
        memory.inner.transformUsed + max bytes 1 := fetchAdd_of_lt (by omega)
    refine h.insertLease hfree ⟨by simp, by simp⟩ ?_ ?_ ?_ ?_ herased.symm hlt h.progress_le hcount
      h.noUnderflow ?_
    · simp only [addKind]
      omega
    · simp [addKind, sourceBytes]
    · simpa [addKind, transformBytes] using hadd
    · simp [addKind, progressLeases]
    intro other found hother
    exact h.estimate_pos other found (lookup_of_lookup_erase hother)
  simp only [finish] at hret
  split at hret
  · split at hret
    next => cases hret
    rename_i used hnext
    cases hret
    obtain ⟨hlt, rfl⟩ := checkedAdd_eq_some.mp hnext
    exact hs _ (by omega) hlt
  rw [subUsed_eq (by omega) hused_lt] at hret
  cases hret
  exact hs _ (by omega) (by omega)

theorem accounts_dropActiveTransform (h : memory.Accounts)
    (hlook : memory.activeTransforms.lookup name = some estimate)
    (hret : (memory.dropActiveTransform name estimate).memory = some memory') :
    memory'.Accounts := by
  obtain ⟨htotal, herased, hcount⟩ := h.activeTransforms_erase hlook
  have hused := h.used
  have hlt := h.used_lt
  simp only [dropActiveTransform] at hret
  rw [subUsed_eq (by omega) hlt] at hret
  cases hret
  refine
    { h with
      used := ?_, active := herased.symm, used_lt := ?_, active_le := hcount, estimate_pos := ?_ }
  · simp only [herased]
    omega
  · simp only
    omega
  intro other found hother
  exact h.estimate_pos other found (lookup_of_lookup_erase hother)

/-! ## Leases that change -/

section
variable (h : memory.Accounts)
include h

theorem Accounts.replaceLease {next : MemoryLease}
    (hlook : memory.leases.lookup name = some lease)
    (hkind : next.kind = lease.kind) (hpos : 0 < next.bytes ∧ 0 < next.owners)
    (hused : inner.used + lease.bytes = memory.inner.used + next.bytes)
    (hsrc : inner.sourceUsed + lease.sourceBytes = memory.inner.sourceUsed + next.sourceBytes)
    (htransform : inner.transformUsed + lease.transformBytes =
      memory.inner.transformUsed + next.transformBytes)
    (hprogress : inner.progressSourceActive = memory.inner.progressSourceActive)
    (hact : inner.activeTransform = memory.inner.activeTransform)
    (hused_lt : inner.used < usizeValues) (hunderflow : inner.underflow = false) :
    Accounts { memory with inner, leases := memory.leases.insert name next } where
  used := by
    have hb := h.used
    have hr := total_insert_of_lookup MemoryLease.bytes hlook next
    simp only
    omega
  sourceUsed := by
    have hb := h.sourceUsed
    have hr := total_insert_of_lookup sourceBytes hlook next
    simp only
    omega
  transformUsed := by
    have hb := h.transformUsed
    have hr := total_insert_of_lookup transformBytes hlook next
    simp only
    omega
  progress := by
    have hb := h.progress
    have hr := total_insert_of_lookup progressLeases hlook next
    have hsame : next.progressLeases = lease.progressLeases := by simp only [progressLeases, hkind]
    simp only
    omega
  active := hact.trans h.active
  used_lt := hused_lt
  progress_le := hprogress.le.trans h.progress_le
  active_le := h.active_le
  noUnderflow := hunderflow
  lease_pos := by
    intro other found hother
    rcases lookup_insert_cases hother with ⟨_, rfl⟩ | hother
    · exact hpos
    · exact h.lease_pos other found hother
  estimate_pos := h.estimate_pos

section
variable {lease : MemoryLease} (hlook : memory.leases.lookup name = some lease)
include hlook

theorem accounts_growProgressSourceTo
    (hret : (memory.growProgressSourceTo name lease bytes).memory = some memory') :
    memory'.Accounts := by
  simp only [growProgressSourceTo] at hret
  split at hret
  · next hkind =>
    split at hret
    · cases hret
      exact h
    cases hnext : checkedAdd memory.inner.used (max bytes 1 - lease.bytes) with
    | none =>
      rw [hnext] at hret
      cases hret
      exact h
    | some used =>
      obtain ⟨hlt, rfl⟩ := checkedAdd_eq_some.mp hnext
      have hsrc := h.sourceUsed_le
      have hsum : checkedAdd memory.inner.sourceUsed (max bytes 1 - lease.bytes) =
          some (memory.inner.sourceUsed + (max bytes 1 - lease.bytes)) :=
        checkedAdd_eq_some.mpr ⟨by omega, rfl⟩
      simp only [hnext, hsum] at hret
      cases hret
      have howners := (h.lease_pos name lease hlook).2
      refine h.replaceLease hlook rfl ?_ ?_ ?_ ?_ rfl rfl hlt h.noUnderflow
      · exact ⟨by simp, howners⟩
      · simp only
        omega
      · simp only [sourceBytes, hkind]
        omega
      simp only [transformBytes, hkind]
  cases hret
  exact h

theorem Accounts.released {released : ℕ} (hle : released ≤ lease.bytes) :
    ∃ used sourceUsed transformUsed, (memory.inner.subUsed released).subKind lease.kind released =
        { memory.inner with used, sourceUsed, transformUsed } ∧
      used + released = memory.inner.used ∧
      sourceUsed + sourceBytes { lease with bytes := released } = memory.inner.sourceUsed ∧
      transformUsed + transformBytes { lease with bytes := released } =
        memory.inner.transformUsed := by
  have hlt := h.used_lt
  have hbytes := le_total_of_lookup MemoryLease.bytes hlook
  have hsrc := le_total_of_lookup sourceBytes hlook
  have htransform := le_total_of_lookup transformBytes hlook
  have hused := h.used
  have hsourceUsed := h.sourceUsed
  have htransformUsed := h.transformUsed
  have hsourceUsed_le := h.sourceUsed_le
  have htransformUsed_le := h.transformUsed_le
  rw [subUsed_eq (by omega) hlt]
  cases hkind : lease.kind with
  | transform =>
    simp only [transformBytes, hkind] at htransform
    have hc : released ≤ memory.inner.transformUsed := by omega
    refine ⟨memory.inner.used - released, memory.inner.sourceUsed,
      memory.inner.transformUsed - released, ?_, by omega, ?_, ?_⟩
    · simp [subKind, hc, fetchSub_of_le hc (by omega)]
    · simp [sourceBytes]
    · simp [transformBytes, hc]
  | _ =>
    simp only [sourceBytes, hkind] at hsrc
    have hc : released ≤ memory.inner.sourceUsed := by omega
    refine ⟨memory.inner.used - released,
      memory.inner.sourceUsed - released, memory.inner.transformUsed, ?_, by omega, ?_, ?_⟩
    · simp [subKind, hc, fetchSub_of_le hc (by omega)]
    · simp [sourceBytes, hc]
    · simp [transformBytes]

theorem accounts_shrinkTo (hret : (memory.shrinkTo name lease bytes).memory = some memory') :
    memory'.Accounts := by
  simp only [shrinkTo] at hret
  split at hret
  · cases hret
    exact h
  obtain ⟨used, sourceUsed, transformUsed, hinner, hused, hsrc, htransform⟩ :=
    h.released hlook (sub_le lease.bytes (max bytes 1))
  rw [hinner] at hret
  cases hret
  have hlt := h.used_lt
  have hsplit : lease.bytes - max bytes 1 + max bytes 1 = lease.bytes := by omega
  obtain ⟨hsourceSplit, htransformSplit⟩ := lease.bytes_split hsplit
  have howners := (h.lease_pos name lease hlook).2
  refine h.replaceLease hlook rfl ⟨by simp, howners⟩ ?_ ?_ ?_ rfl rfl ?_ h.noUnderflow
  all_goals
    simp only
    omega

end

theorem accounts_owners {owners : ℕ} (hlook : memory.leases.lookup name = some lease)
    (hpos : 0 < owners) :
    Accounts { memory with leases := memory.leases.insert name { lease with owners } } :=
  h.replaceLease hlook rfl ⟨(h.lease_pos name lease hlook).1, hpos⟩ rfl
    rfl rfl rfl rfl h.used_lt h.noUnderflow

section
variable {lease : MemoryLease} (hlook : memory.leases.lookup name = some lease)
include hlook

theorem accounts_releaseLease : (memory.releaseLease name lease).Accounts := by
  obtain ⟨used, sourceUsed, transformUsed, hinner, hused, hsrc, htransform⟩ := h.released hlook
      le_rfl
  change sourceUsed + lease.sourceBytes = _ at hsrc
  change transformUsed + lease.transformBytes = _ at htransform
  have hprogress := total_erase progressLeases hlook
  have hprogress_le := h.progress_le
  have hbefore := h.progress
  -- Only a progress lease resets the flag, and it was the only one.
  have hflag : ∀ inner : MemoryInner,
      inner.progressSourceActive = memory.inner.progressSourceActive →
      (if lease.kind = .progressSource then
          { inner with progressSourceActive := 0 }
        else inner).progressSourceActive =
        total progressLeases (memory.leases.erase name) := by
    by_cases hkind : lease.kind = .progressSource
    · have hone : lease.progressLeases = 1 := by simp [progressLeases, hkind]
      simp only [hkind, if_true]
      omega
    have hnone : lease.progressLeases = 0 := by
      cases hkind' : lease.kind <;> simp_all [progressLeases]
    simp only [hkind, if_false]
    omega
  have husedErase := total_erase MemoryLease.bytes hlook
  have hsourceErase := total_erase sourceBytes hlook
  have htransformErase := total_erase transformBytes hlook
  have husedBefore := h.used
  have hsourceBefore := h.sourceUsed
  have htransformBefore := h.transformUsed
  have hlt := h.used_lt
  simp only [releaseLease, hinner]
  refine
    { used := ?_
      sourceUsed := ?_, transformUsed := ?_, progress := hflag _ rfl, active := ?_, used_lt := ?_
      progress_le := ?_, active_le := h.active_le, noUnderflow := ?_, lease_pos := ?_
      estimate_pos := h.estimate_pos }
  · split <;> simp only <;> omega
  · split <;> simp only <;> omega
  · split <;> simp only <;> omega
  · split <;> exact h.active
  · split <;> simp only <;> omega
  · split <;> simp only <;> omega
  · split <;> exact h.noUnderflow
  intro other found hother
  exact h.lease_pos other found (lookup_of_lookup_erase hother)

theorem accounts_dropLease (hret : (memory.dropLease name lease).memory = some memory') :
    memory'.Accounts := by
  have howners := (h.lease_pos name lease hlook).2
  simp only [dropLease] at hret
  split at hret
  · cases hret
    exact accounts_releaseLease h hlook
  cases hret
  exact accounts_owners h hlook (by omega)

end
end

/-! ## Every sequence of operations -/

theorem accounts_step (h : memory.Accounts) {op : MemoryOperation}
    (hstep : memory.step op = some memory') : memory'.Accounts := by
  cases op with simp only [step, ite_none_right_eq_some] at hstep
  | reserve name bytes =>
    exact accounts_reserve h (isNone_iff_eq_none.mp hstep.1) bytes.toNat_lt hstep.2
  | reserveProgressSource name bytes =>
    exact accounts_reserveProgressSource h (isNone_iff_eq_none.mp hstep.1) hstep.2
  | reserveTransform name bytes =>
    exact accounts_reserveTransform h (isNone_iff_eq_none.mp hstep.1) hstep.2
  | admitActiveTransform name bytes => exact accounts_admitActiveTransform h hstep.2
  | finish name lease bytes =>
    obtain ⟨estimate, hlook, hret⟩ := bind_eq_some_iff.mp hstep.2
    exact accounts_finish h (isNone_iff_eq_none.mp hstep.1) hlook hret
  | dropActiveTransform name =>
    obtain ⟨estimate, hlook, hret⟩ := bind_eq_some_iff.mp hstep
    exact accounts_dropActiveTransform h hlook hret
  | growProgressSourceTo name bytes =>
    obtain ⟨lease, hlook, hret⟩ := bind_eq_some_iff.mp hstep
    exact accounts_growProgressSourceTo h hlook hret
  | reserveSourceCompanion parent name bytes =>
    obtain ⟨lease, hlook, hret⟩ := bind_eq_some_iff.mp hstep.2
    exact accounts_reserveSourceCompanion h (isNone_iff_eq_none.mp hstep.1) hret
  | shrinkTo name bytes =>
    obtain ⟨lease, hlook, hret⟩ := bind_eq_some_iff.mp hstep
    exact accounts_shrinkTo h hlook hret
  | cloneLease name =>
    obtain ⟨lease, hlook, ⟨⟩⟩ := bind_eq_some_iff.mp hstep
    exact accounts_owners h hlook (succ_pos _)
  | dropLease name =>
    obtain ⟨lease, hlook, hret⟩ := bind_eq_some_iff.mp hstep
    exact accounts_dropLease h hlook hret

theorem accounts_new {limit : ℕ} (h : new limit = some memory) : memory.Accounts := by
  simp only [new, ite_none_right_eq_some] at h
  obtain ⟨_, ⟨⟩⟩ := h
  exact
    { used := rfl, sourceUsed := rfl, transformUsed := rfl, progress := rfl, active := rfl
      used_lt := Nat.two_pow_pos 64, progress_le := zero_le 1, active_le := zero_le 1
      noUnderflow := rfl, lease_pos := by simp
      estimate_pos := by simp }

theorem accounts_of_reachable {limit : ℕ} {start : PipelineMemory}
    (hnew : new limit = some start) (hreach : Reachable step start memory) : memory.Accounts :=
  hreach.invariant (fun _ _ _ h hstep => accounts_step h hstep) (accounts_new hnew)

theorem Accounts.reserve_fits (h : memory.Accounts) {bytes : UInt64}
    (hstep : memory.step (.reserve name bytes) = some memory') :
    memory'.inner.used ≤ memory.inner.limit ∨ memory.leases = ∅ ∧ memory.activeTransforms = ∅ := by
  simp only [step, ite_none_right_eq_some] at hstep
  obtain ⟨hfits, rfl⟩ := reserve_returns hstep.2
  have hbytes : max bytes.toNat 1 < usizeValues := max_lt bytes.toNat_lt (by decide)
  rcases (fits_lt hbytes hfits).2 with hle | hzero
  · exact .inl ((min_le_left _ _).trans hle)
  have hused := h.used
  refine .inr ⟨?_, ?_⟩
  · exact eq_empty_of_total_eq_zero (fun name lease hlook => (h.lease_pos name lease hlook).1)
      (by omega : total MemoryLease.bytes memory.leases = 0)
  exact eq_empty_of_total_eq_zero h.estimate_pos (by omega : total id memory.activeTransforms = 0)

/-- After every sequence of operations the counters are the sums over the
reservations that are alive, no subtraction has underflowed, there is at most
one progress lease and one active transform, an ordinary reservation is granted
within the limit or to an empty budget, and a budget without reservations has
all counters at zero. -/
theorem memory_accounting {limit : ℕ} {start : PipelineMemory}
    (hnew : new limit = some start) (hreach : Reachable step start memory) :
    memory.inner.used = total MemoryLease.bytes memory.leases + total id memory.activeTransforms ∧
      memory.inner.sourceUsed = total sourceBytes memory.leases ∧
      memory.inner.transformUsed = total transformBytes memory.leases ∧
      memory.inner.underflow = false ∧
      total progressLeases memory.leases ≤ 1 ∧
      memory.activeTransforms.entries.length ≤ 1 ∧
      (∀ name bytes memory', memory.step (.reserve name bytes) = some memory' →
        memory'.inner.used ≤ memory.inner.limit ∨
          memory.leases = ∅ ∧ memory.activeTransforms = ∅) ∧
      (memory.leases = ∅ → memory.activeTransforms = ∅ →
        memory.inner.used = 0 ∧ memory.inner.sourceUsed = 0 ∧ memory.inner.transformUsed = 0 ∧
          memory.inner.progressSourceActive = 0 ∧
          memory.inner.activeTransform = 0) := by
  have h := accounts_of_reachable hnew hreach
  refine ⟨h.used, h.sourceUsed, h.transformUsed, h.noUnderflow,
    h.progress ▸ h.progress_le, ?_, fun _ _ _ => h.reserve_fits, ?_⟩
  · simpa [total] using h.active_le
  intro hleases hact
  rw [h.used, h.sourceUsed, h.transformUsed, h.progress, h.active, hleases, hact]
  simp

theorem memory_accounting_finished :
    ∃ start memory, new 10 = some start ∧
      exec step start
        [.reserveProgressSource 0 7, .reserveSourceCompanion 0 1 13,
          .admitActiveTransform 0 5, .cloneLease 1, .shrinkTo 0 3,
          .finish 0 2 8, .dropLease 0, .dropLease 1] = some memory ∧
      memory.inner.used = 21 ∧
      total MemoryLease.bytes memory.leases + total id memory.activeTransforms = 21 := by
  obtain ⟨memory, hrun⟩ := isSome_iff_exists.mp (rfl : (((new 10).bind fun start => exec step start
        [.reserveProgressSource 0 7, .reserveSourceCompanion 0 1 13, .admitActiveTransform 0 5,
        .cloneLease 1, .shrinkTo 0 3, .finish 0 2 8, .dropLease 0, .dropLease 1]).isSome))
  obtain ⟨start, hnew, hexec⟩ := bind_eq_some_iff.mp hrun
  have hused := (memory_accounting hnew ⟨_, hexec⟩).1
  refine ⟨start, memory, hnew, hexec, ?_, ?_⟩
  · cases hnew
    cases hexec
    rfl
  cases hnew
  cases hexec
  rfl

end PipelineMemory
end Transferia.Core
