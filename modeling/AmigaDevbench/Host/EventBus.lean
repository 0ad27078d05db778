import AmigaDevbench.Host.Python

/-!
# The event bus

A waiting task sees the events that are published from the moment it subscribes until its
deadline, in order, and takes the first one that it is waiting for.
-/

namespace AmigaDevbench

/-- A published event: its name and its data. -/
structure Event where
  name : String
  data : Dict

/-- `bus.wait_for`, for the events that are published before the timeout. -/
def waitFor (name : String) (predicate : Dict → Bool) (events : List Event) : Option Dict :=
  (events.find? fun e => e.name = name && predicate e.data).map (·.data)

/-- What a wait returns is one of the events, and satisfies the predicate. -/
theorem mem_of_waitFor {name : String} {predicate : Dict → Bool} {events : List Event} {d : Dict}
    (h : waitFor name predicate events = some d) : ⟨name, d⟩ ∈ events ∧ predicate d = true := by
  obtain ⟨e, he, rfl⟩ := Option.map_eq_some_iff.mp h
  have hmatch := List.find?_some he
  simp only [Bool.and_eq_true, decide_eq_true_eq] at hmatch
  obtain ⟨rfl, hpred⟩ := hmatch
  exact ⟨List.mem_of_find?_eq_some he, hpred⟩

/-- A single event that satisfies the predicate is returned. -/
theorem waitFor_singleton {name : String} {predicate : Dict → Bool} {d : Dict}
    (h : predicate d = true) : waitFor name predicate [⟨name, d⟩] = some d := by
  simp [waitFor, h]

end AmigaDevbench
