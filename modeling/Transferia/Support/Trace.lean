import Mathlib

/-!
# Histories of events

A safety law says of every event that the events before it justify it; a history
grows at its end, so that such a law is checked once, when the event happens.
-/

namespace Transferia.Support
variable {ε : Type*}

/-- An event of an extended history is one of the new events or one that the
history already had at that place. -/
theorem event_of_append {log events before after : List ε} {event : ε}
    (h : log ++ events = before ++ event :: after) : (∃ earlier, before = log ++ earlier ∧
    events = earlier ++ event :: after) ∨ ∃ rest, log = before ++ event :: rest := by
  obtain ⟨later, hbefore, hevents⟩ | ⟨rest, hlog, hrest⟩ := List.append_eq_append_iff.mp h
  · exact .inl ⟨later, hbefore, hevents⟩
  cases rest with
  | nil =>
    refine .inl ⟨[], by simpa using hlog.symm, ?_⟩
    simpa using hrest.symm
  | cons first rest =>
    cases hrest
    exact .inr ⟨rest, hlog⟩

theorem event_of_append_singleton {log before after : List ε} {event last : ε}
    (h : log ++ [last] = before ++ event :: after) :
    (before = log ∧ event = last) ∨ ∃ rest, log = before ++ event :: rest := by
  obtain ⟨earlier, rfl, hlast⟩ | hold := event_of_append h
  · cases earlier with
    | nil =>
      cases hlast
      exact .inl ⟨List.append_nil _, rfl⟩
    | cons first rest => simp at hlast
  exact .inr hold

/-- Every event is justified by the events before it. -/
def Justified (law : List ε → ε → Prop) (trace : List ε) : Prop :=
  ∀ before event after, trace = before ++ event :: after → law before event

namespace Justified
variable {law : List ε → ε → Prop} {trace : List ε}

theorem nil : Justified law [] := by
  intro before event after h
  simp at h

theorem append_singleton {last : ε} (h : Justified law trace) (hlast : law trace last) :
    Justified law (trace ++ [last]) := by
  intro before event after hsplit
  obtain ⟨rfl, rfl⟩ | ⟨rest, hold⟩ := event_of_append_singleton hsplit
  · exact hlast
  · exact h before event rest hold

/-- Events that the law always allows may follow. -/
theorem append_of_forall {events : List ε} (h : Justified law trace)
    (hevents : ∀ event ∈ events, ∀ before, law before event) : Justified law (trace ++ events) := by
  intro before event after hsplit
  obtain ⟨earlier, _, rfl⟩ | ⟨rest, hold⟩ := event_of_append hsplit
  · exact hevents event (by simp) before
  · exact h before event rest hold

theorem restrict {earlier : List ε} (h : Justified law trace) (hearlier : earlier <+: trace) :
    Justified law earlier := by
  obtain ⟨later, rfl⟩ := hearlier
  intro before event after hsplit
  exact h before event (after ++ later) (by simp [hsplit])

end Justified
end Transferia.Support
