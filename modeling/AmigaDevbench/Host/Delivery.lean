import Mathlib.Logic.Function.Basic
import AmigaDevbench.Core.Backlog
import AmigaDevbench.Core.Runs

/-!
# Delivery of events

`EventBus` puts a published event into the queue of every subscriber that asked for its name or
for all events. A subscriber reads its queue whenever it likes, also after it has unsubscribed.
-/

namespace AmigaDevbench

/-- `EventBus`, with the queue objects that it has made. -/
structure EventBus (α : Type) where
  /-- `_subscribers`, in insertion order: the id and the names asked for. -/
  subscribers : List (Nat × List String)
  queues : Nat → List (String × α)
  /-- `_next_id`. -/
  nextId : Nat

namespace EventBus

variable {α : Type}

/-- `maxsize` of a queue. -/
def maxsize : Nat := 1000

def initial : EventBus α := ⟨[], fun _ => [], 0⟩

/-- `put_nowait`; `none` is `QueueFull`. -/
def putNowait (queue : List (String × α)) (event : String × α) : Option (List (String × α)) :=
  if maxsize ≤ queue.length then none else some (queue ++ [event])

/-- The body of the loop in `publish`. `get_nowait` on an empty queue has no effect. -/
def offer (queue : List (String × α)) (event : String × α) : List (String × α) :=
  match putNowait queue event with
  | some queue => queue
  | none =>
    let rest := queue.tail
    (putNowait rest event).getD rest

/-- `event in events or "*" in events`. -/
def asksFor (events : List String) (event : String) : Bool := event ∈ events || "*" ∈ events

/-- `publish`. -/
def publish (bus : EventBus α) (event : String) (data : α) : EventBus α :=
  { bus with
    queues := bus.subscribers.foldl (fun queues s =>
      if asksFor s.2 event then Function.update queues s.1 (offer (queues s.1) (event, data))
      else queues) bus.queues }

/-- `subscribe`, up to the `yield`. -/
def subscribe (bus : EventBus α) (events : List String) : EventBus α where
  subscribers := bus.subscribers ++ [(bus.nextId, events)]
  queues := Function.update bus.queues bus.nextId []
  nextId := bus.nextId + 1

/-- The `finally` clause of `subscribe`. -/
def unsubscribe (bus : EventBus α) (sid : Nat) : EventBus α :=
  { bus with subscribers := bus.subscribers.filter (·.1 ≠ sid) }

/-- What the tasks do. Subscriber `n` is the one that subscribed after `n` others. -/
inductive Label (α : Type) where
  | subscribe (events : List String)
  | publish (event : String) (data : α)
  /-- `queue.get()` returns. -/
  | get (sid : Nat)
  | unsubscribe (sid : Nat)

/-- The bus and what each subscriber has received. -/
structure System (α : Type) where
  bus : EventBus α
  received : Nat → List (String × α)

/-- One step. `queue.get()` waits on an empty queue. -/
def step (s : System α) : Label α → Option (System α)
  | .subscribe events => some { s with bus := s.bus.subscribe events }
  | .publish event data => some { s with bus := s.bus.publish event data }
  | .unsubscribe sid => some { s with bus := s.bus.unsubscribe sid }
  | .get sid =>
    match s.bus.queues sid with
    | [] => none
    | event :: queue =>
      some {
        bus := { s.bus with queues := Function.update s.bus.queues sid queue }
        received := Function.update s.received sid (s.received sid ++ [event]) }

def start : System α := ⟨initial, fun _ => []⟩

/-! ### What is addressed to a subscriber -/

/-- How many have subscribed, what the subscriber asks for while it is subscribed, and the events
published in that time that it asked for. -/
structure Address (α : Type) where
  subscribed : Nat
  interest : Option (List String)
  events : List (String × α)

/-- The labels of a run, as far as they concern a subscriber. -/
def Address.note (sid : Nat) (a : Address α) : Label α → Address α
  | .subscribe events =>
    ⟨a.subscribed + 1, if a.subscribed = sid then some events else a.interest, a.events⟩
  | .publish event data =>
    if (a.interest.map (asksFor · event)).getD false then
      { a with events := a.events ++ [(event, data)] }
    else a
  | .get _ => a
  | .unsubscribe other => if other = sid then { a with interest := none } else a

def addressOf (sid : Nat) (labels : List (Label α)) : Address α :=
  labels.foldl (Address.note sid) ⟨0, none, []⟩

/-- The events addressed to a subscriber in the course of a run. -/
def addressed (sid : Nat) (labels : List (Label α)) : List (String × α) :=
  (addressOf sid labels).events

/-! ### One step -/

theorem offer_eq (queue : List (String × α)) (event : String × α) (h : queue.length ≤ maxsize) :
    offer queue event = Backlog.push maxsize queue event := by
  unfold offer putNowait Backlog.push
  by_cases hroom : queue.length < maxsize
  · rw [if_neg (Nat.not_le.mpr hroom), if_pos hroom]
  · have hpos : 0 < maxsize := by decide
    have htail : ¬ maxsize ≤ queue.tail.length := by
      rw [List.length_tail]
      omega
    rw [if_pos (Nat.not_lt.mp hroom), if_neg hroom]
    simp only [if_neg htail, Option.getD_some]

/-- A queue changes at the id of its subscriber only. -/
theorem publish_queues_of_notMem {subscribers : List (Nat × List String)} {sid : Nat}
    (h : sid ∉ subscribers.map Prod.fst) (event : String) (data : α)
    (queues : Nat → List (String × α)) :
    subscribers.foldl (fun queues s =>
      if asksFor s.2 event then Function.update queues s.1 (offer (queues s.1) (event, data))
      else queues) queues sid = queues sid := by
  induction subscribers generalizing queues with
  | nil => rfl
  | cons s subscribers ih =>
    rw [List.map_cons, List.mem_cons, not_or] at h
    rw [List.foldl_cons, ih h.2]
    split
    · rw [Function.update_of_ne h.1]
    · rfl

/-- The loop of `publish` offers the event once to each subscriber that asked for it. -/
theorem publish_queues {subscribers : List (Nat × List String)}
    (hnodup : (subscribers.map Prod.fst).Nodup) {sid : Nat} {events : List String}
    (hmem : (sid, events) ∈ subscribers) (event : String) (data : α)
    (queues : Nat → List (String × α)) :
    subscribers.foldl (fun queues s =>
      if asksFor s.2 event then Function.update queues s.1 (offer (queues s.1) (event, data))
      else queues) queues sid =
        if asksFor events event then offer (queues sid) (event, data) else queues sid := by
  induction subscribers generalizing queues with
  | nil => exact (List.not_mem_nil hmem).elim
  | cons s subscribers ih =>
    rw [List.map_cons, List.nodup_cons] at hnodup
    rw [List.foldl_cons]
    rcases List.mem_cons.mp hmem with rfl | hmem
    · rw [publish_queues_of_notMem hnodup.1]
      split
      · rw [Function.update_self]
      · rfl
    · have hne : sid ≠ s.1 := by
        rintro rfl
        exact hnodup.1 (List.mem_map.mpr ⟨_, hmem, rfl⟩)
      have hsame : (if asksFor s.2 event then
          Function.update queues s.1 (offer (queues s.1) (event, data)) else queues) sid =
            queues sid := by
        split
        · rw [Function.update_of_ne hne]
        · rfl
      rw [ih hnodup.2 hmem, hsame]

/-- Where a subscriber stands: the bus knows what it asks for, and it has read some of the events
addressed to it. -/
structure Standing (s : System α) (sid : Nat) (a : Address α) (read : List Nat) : Prop where
  nextId : s.bus.nextId = a.subscribed
  subscribed : ∀ events, (sid, events) ∈ s.bus.subscribers ↔ a.interest = some events
  kept : Backlog.Kept maxsize a.events read (s.bus.queues sid)
  received : s.received sid = read.filterMap (a.events[·]?)
  fresh : a.subscribed ≤ sid → a.events = []

/-- The ids of the subscribers are different and have been given out. -/
structure Distinct (bus : EventBus α) : Prop where
  nodup : (bus.subscribers.map Prod.fst).Nodup
  lt : ∀ s ∈ bus.subscribers, s.1 < bus.nextId

theorem Distinct.step {s s' : System α} {label : Label α} (h : Distinct s.bus)
    (hstep : step s label = some s') : Distinct s'.bus := by
  cases label with
  | subscribe events =>
    cases hstep
    constructor
    · change ((s.bus.subscribers ++ [(s.bus.nextId, events)]).map Prod.fst).Nodup
      rw [List.map_append, List.nodup_append]
      refine ⟨h.nodup, List.nodup_cons.mpr ⟨List.not_mem_nil, List.nodup_nil⟩, ?_⟩
      rintro sid hsid _ hnew rfl
      obtain ⟨t, ht, rfl⟩ := List.mem_map.mp hsid
      have hlt := h.lt t ht
      rw [List.map_singleton, List.mem_singleton] at hnew
      omega
    · intro t ht
      rcases List.mem_append.mp ht with ht | ht
      · exact Nat.lt_succ_of_lt (h.lt t ht)
      · rw [List.mem_singleton.mp ht]
        exact Nat.lt_succ_self _
  | publish event data =>
    cases hstep
    exact ⟨h.nodup, h.lt⟩
  | unsubscribe sid =>
    cases hstep
    exact ⟨h.nodup.sublist (List.filter_sublist.map _), fun t ht => h.lt t (List.mem_of_mem_filter ht)⟩
  | get sid =>
    rw [EventBus.step] at hstep
    split at hstep
    · cases hstep
    · cases hstep
      exact ⟨h.nodup, h.lt⟩

theorem Standing.subscribe {s : System α} {sid : Nat} {a : Address α} {read : List Nat}
    (h : Standing s sid a read) (hdistinct : Distinct s.bus) (names : List String) :
    Standing { s with bus := s.bus.subscribe names } sid (a.note sid (.subscribe names)) read := by
  have hmem : ∀ events, (sid, events) ∈ (s.bus.subscribe names).subscribers ↔
      (sid, events) ∈ s.bus.subscribers ∨ a.subscribed = sid ∧ names = events := by
    intro events
    change (sid, events) ∈ s.bus.subscribers ++ [(s.bus.nextId, names)] ↔ _
    rw [List.mem_append, List.mem_singleton, Prod.mk.injEq, h.nextId, eq_comm,
      eq_comm (a := events)]
  by_cases hnew : a.subscribed = sid
  · have hnone : ∀ events, (sid, events) ∉ s.bus.subscribers := by
      intro events hin
      have hlt := hdistinct.lt _ hin
      have hnext := h.nextId
      simp only at hlt
      omega
    have hempty := h.fresh (Nat.le_of_eq hnew)
    have hread : read = [] := by
      refine List.eq_nil_iff_forall_not_mem.mpr fun p hp => ?_
      have hin := h.kept.inside p hp
      rw [hempty] at hin
      exact Nat.not_lt_zero p hin
    refine ⟨congrArg (· + 1) h.nextId, fun events => ?_, ?_, h.received, fun _ => hempty⟩
    · rw [hmem]
      simp [Address.note, hnew, hnone]
    · change Backlog.Kept maxsize a.events read
        (Function.update s.bus.queues s.bus.nextId [] sid)
      rw [h.nextId, hnew, Function.update_self, hempty, hread]
      exact Backlog.kept_nil
  · refine ⟨congrArg (· + 1) h.nextId, fun events => ?_, ?_, h.received, fun hle => ?_⟩
    · rw [hmem, h.subscribed]
      simp [Address.note, hnew]
    · change Backlog.Kept maxsize a.events read
        (Function.update s.bus.queues s.bus.nextId [] sid)
      rw [h.nextId, Function.update_of_ne (Ne.symm hnew)]
      exact h.kept
    · exact h.fresh (Nat.le_of_succ_le hle)

theorem Standing.publish {s : System α} {sid : Nat} {a : Address α} {read : List Nat}
    (h : Standing s sid a read) (hdistinct : Distinct s.bus) (event : String) (data : α) :
    Standing { s with bus := s.bus.publish event data } sid (a.note sid (.publish event data))
      read := by
  have hkeep : (∀ events, a.interest = some events → asksFor events event = false) →
      (s.bus.publish event data).queues sid = s.bus.queues sid ∧
        a.note sid (.publish event data) = a := by
    intro hnone
    constructor
    · by_cases hin : sid ∈ s.bus.subscribers.map Prod.fst
      · obtain ⟨⟨_, events⟩, hmem, rfl⟩ := List.mem_map.mp hin
        have hasks := hnone events ((h.subscribed events).mp hmem)
        exact (publish_queues hdistinct.nodup hmem event data s.bus.queues).trans
          (if_neg (by simp [hasks]))
      · exact publish_queues_of_notMem hin event data s.bus.queues
    · rw [Address.note]
      cases hi : a.interest with
      | none => rfl
      | some events => simp [hnone events hi]
  by_cases hasks : ∃ events, a.interest = some events ∧ asksFor events event = true
  · obtain ⟨events, hinterest, hasks⟩ := hasks
    have hmem := (h.subscribed events).mpr hinterest
    have hnote : a.note sid (.publish event data) =
        { a with events := a.events ++ [(event, data)] } := by
      simp [Address.note, hinterest, hasks]
    have hqueue : (s.bus.publish event data).queues sid =
        Backlog.push maxsize (s.bus.queues sid) (event, data) := by
      rw [← offer_eq _ _ h.kept.length_le]
      exact (publish_queues hdistinct.nodup hmem event data s.bus.queues).trans (if_pos hasks)
    rw [hnote]
    refine ⟨h.nextId, h.subscribed, ?_, ?_, fun hle => ?_⟩
    · change Backlog.Kept maxsize (a.events ++ [(event, data)]) read
        ((s.bus.publish event data).queues sid)
      rw [hqueue]
      exact h.kept.push (by decide) (event, data)
    · refine h.received.trans (List.filterMap_congr fun p hp => ?_)
      exact (List.getElem?_append_left (h.kept.inside p hp)).symm
    · have hlt := hdistinct.lt _ hmem
      have hnext := h.nextId
      simp only at hlt hle
      omega
  · have hnone : ∀ events, a.interest = some events → asksFor events event = false := by
      intro events hinterest
      exact Bool.eq_false_iff.mpr fun htrue => hasks ⟨events, hinterest, htrue⟩
    obtain ⟨hqueue, hnote⟩ := hkeep hnone
    rw [hnote]
    refine ⟨h.nextId, h.subscribed, ?_, h.received, h.fresh⟩
    change Backlog.Kept maxsize a.events read ((s.bus.publish event data).queues sid)
    rw [hqueue]
    exact h.kept

theorem Standing.unsubscribe {s : System α} {sid : Nat} {a : Address α} {read : List Nat}
    (h : Standing s sid a read) (other : Nat) :
    Standing { s with bus := s.bus.unsubscribe other } sid (a.note sid (.unsubscribe other))
      read := by
  have hmem : ∀ events, (sid, events) ∈ (s.bus.unsubscribe other).subscribers ↔
      (sid, events) ∈ s.bus.subscribers ∧ sid ≠ other := by
    intro events
    change (sid, events) ∈ s.bus.subscribers.filter _ ↔ _
    rw [List.mem_filter, decide_eq_true_iff]
  by_cases heq : other = sid
  · have hnote : a.note sid (.unsubscribe other) = { a with interest := none } := if_pos heq
    rw [hnote]
    refine ⟨h.nextId, fun events => ?_, h.kept, h.received, h.fresh⟩
    rw [hmem]
    exact iff_of_false (fun hin => hin.2 heq.symm) (Option.some_ne_none events).symm
  · have hnote : a.note sid (.unsubscribe other) = a := if_neg heq
    rw [hnote]
    refine ⟨h.nextId, fun events => ?_, h.kept, h.received, h.fresh⟩
    rw [hmem, h.subscribed]
    exact and_iff_left (Ne.symm heq)

/-- A read of the queue takes the oldest event that waits. -/
theorem Standing.get {s s' : System α} {sid other : Nat} {a : Address α} {read : List Nat}
    (h : Standing s sid a read) (hstep : step s (.get other) = some s') :
    ∃ read', Standing s' sid a read' := by
  rw [step] at hstep
  split at hstep
  · cases hstep
  · next event queue hqueue =>
    cases hstep
    by_cases heq : sid = other
    · subst heq
      have hkept := h.kept
      rw [hqueue] at hkept
      obtain ⟨p, hget, htaken⟩ := hkept.take
      refine ⟨read ++ [p], h.nextId, h.subscribed, ?_, ?_, h.fresh⟩
      · change Backlog.Kept maxsize a.events (read ++ [p])
          (Function.update s.bus.queues sid queue sid)
        rw [Function.update_self]
        exact htaken
      · change Function.update s.received sid (s.received sid ++ [event]) sid = _
        rw [Function.update_self, List.filterMap_append, ← h.received]
        simp [hget]
    · refine ⟨read, h.nextId, h.subscribed, ?_, ?_, h.fresh⟩
      · change Backlog.Kept maxsize a.events read
          (Function.update s.bus.queues other queue sid)
        rw [Function.update_of_ne heq]
        exact h.kept
      · change Function.update s.received other (s.received other ++ [event]) sid = _
        rw [Function.update_of_ne heq]
        exact h.received

/-- One step of a run, as a subscriber sees it. -/
theorem Standing.step {s s' : System α} {sid : Nat} {a : Address α} {read : List Nat}
    {label : Label α} (h : Standing s sid a read) (hdistinct : Distinct s.bus)
    (hstep : EventBus.step s label = some s') :
    ∃ read', Standing s' sid (a.note sid label) read' := by
  cases label with
  | subscribe events =>
    cases hstep
    exact ⟨read, h.subscribe hdistinct events⟩
  | publish event data =>
    cases hstep
    exact ⟨read, h.publish hdistinct event data⟩
  | unsubscribe other =>
    cases hstep
    exact ⟨read, h.unsubscribe other⟩
  | get other => exact h.get hstep

/-! ### Runs -/

/-- Every run keeps account of what has been addressed to a subscriber. -/
theorem standing_run {labels : List (Label α)} {sid : Nat} :
    ∀ {s t : System α} {a : Address α} {read : List Nat}, Standing s sid a read →
      Distinct s.bus → runLabels step s labels = some t →
        ∃ read', Standing t sid (labels.foldl (Address.note sid) a) read' := by
  induction labels with
  | nil =>
    intro s t a read h _ hrun
    cases hrun
    exact ⟨read, h⟩
  | cons label labels ih =>
    intro s t a read h hdistinct hrun
    obtain ⟨s', hstep, hrest⟩ := Option.bind_eq_some_iff.mp hrun
    obtain ⟨read', h'⟩ := h.step hdistinct hstep
    exact ih h' (hdistinct.step hstep) hrest

theorem standing_start (sid : Nat) : Standing (start : System α) sid ⟨0, none, []⟩ [] :=
  ⟨rfl, fun _ => by simp [start, initial], Backlog.kept_nil, rfl, fun _ => rfl⟩

theorem distinct_initial : Distinct (initial : EventBus α) :=
  ⟨List.nodup_nil, fun _ h => (List.not_mem_nil h).elim⟩

/-- In every run, of the events addressed to a subscriber it has received some, each at most once
and in the order of publication; its queue holds the latest of those behind the last one received,
up to the limit; and an event that it was not given is one for which the full limit of later events
was put into its queue. -/
theorem delivery (labels : List (Label α)) (s : System α)
    (hrun : runLabels step start labels = some s) (sid : Nat) :
    ∃ read, Backlog.Kept maxsize (addressed sid labels) read (s.bus.queues sid) ∧
      s.received sid = read.filterMap ((addressed sid labels)[·]?) := by
  obtain ⟨read, h⟩ := standing_run (standing_start sid) distinct_initial hrun
  exact ⟨read, h.kept, h.received⟩

/-- A subscriber of logs and another of everything: the first misses the connection, both see the
log. -/
def twoSubscribers : List (Label Unit) :=
  [.subscribe ["log"], .publish "connected" (), .subscribe ["*"], .publish "log" (), .get 1]

theorem delivery_twoSubscribers : ∃ s, runLabels step start twoSubscribers = some s ∧
    ∃ read, Backlog.Kept maxsize (addressed 1 twoSubscribers) read (s.bus.queues 1) ∧
      s.received 1 = read.filterMap ((addressed 1 twoSubscribers)[·]?) := by
  obtain ⟨s, hs⟩ : ∃ s, runLabels step start twoSubscribers = some s := ⟨_, rfl⟩
  exact ⟨s, hs, delivery twoSubscribers s hs 1⟩

end EventBus

end AmigaDevbench
