import Mathlib.Data.List.Nodup
import Mathlib.Data.List.Perm.Basic
import AmigaDevbench.Core.Runs
import AmigaDevbench.Core.Sizes

/-!
# The event ring of `snoop.c`

Any task records an event: it reserves a slot with interrupts disabled and fills the slot in
afterwards. The daemon's main loop sends the entries from the tail on and advances the tail behind
each. Beside the code each event has a number, and the model keeps which were sent and which were
counted as dropped since the last start.
-/

namespace AmigaDevbench.Snoop

/-- `SNOOP_RING_SIZE`. -/
abbrev ringSize : Nat := 128

/-- Where the daemon's task is. -/
inductive Daemon where
  | idle
  /-- At the loop test of `snoop_drain`, with its `count`. -/
  | testing (count : Nat)
  /-- `e` points to a slot. -/
  | picked (slot count : Nat)
  | sent (count : Nat)
  /-- The value of `g_tail` is loaded. -/
  | advancing (tail count : Nat)
  /-- In `snoop_start`, before each of its four stores and behind them. -/
  | starting | resetTail | resetEvents | resetDrops | patching
  deriving DecidableEq

/-- Whether the entry at the tail has been sent. -/
def Daemon.sending : Daemon → Bool
  | .sent _ | .advancing _ _ => true
  | .idle | .testing _ | .picked _ _ | .starting | .resetTail | .resetEvents | .resetDrops
  | .patching => false

/-- The slot that `e` points to, while its entry is formatted. -/
def Daemon.pointed : Daemon → Option Nat
  | .picked slot _ => some slot
  | .idle | .testing _ | .sent _ | .advancing _ _ | .starting | .resetTail | .resetEvents
  | .resetDrops | .patching => none

/-- Whether the daemon is between the first and the last store of `snoop_start`. -/
def Daemon.resetting : Daemon → Bool
  | .resetTail | .resetEvents | .resetDrops => true
  | .idle | .testing _ | .picked _ _ | .sent _ | .advancing _ _ | .starting | .patching => false

/-- Whether the event count has yet to be set to zero, the head having been. -/
def Daemon.clearing : Daemon → Bool
  | .resetTail | .resetEvents => true
  | .idle | .testing _ | .picked _ _ | .sent _ | .advancing _ _ | .starting | .resetDrops
  | .patching => false

/-- Whether an entry is being handled, or the drop count has yet to be set to zero. -/
def Daemon.handling : Daemon → Bool
  | .picked _ _ | .sent _ | .advancing _ _ | .resetDrops => true
  | .idle | .testing _ | .starting | .resetTail | .resetEvents | .patching => false

/-- The static variables of `snoop.c`, the callers of `snoop_record`, and the history. -/
structure Ring where
  active : Bool
  head : Nat
  tail : Nat
  eventCount : UInt32
  dropCount : UInt32
  /-- The event whose data a slot of `g_ring` holds. -/
  entry : Nat → Option Nat
  /-- The event that a slot was last reserved for. -/
  owner : Nat → Option Nat
  /-- How many calls have found `g_active` set and have yet to reserve a slot. -/
  callers : Nat
  /-- The events that have yet to be filled in, with their slots. -/
  filling : List (Nat × Nat)
  daemon : Daemon
  /-- How many events have been recorded, and how many of them before the last start. -/
  recorded : Nat
  base : Nat
  sent : List (Option Nat)
  dropped : List (Option Nat)

namespace Ring

def start : Ring where
  active := false
  head := 0
  tail := 0
  eventCount := 0
  dropCount := 0
  entry := fun _ => none
  owner := fun _ => none
  callers := 0
  filling := []
  daemon := .idle
  recorded := 0
  base := 0
  sent := []
  dropped := []

/-- The steps of the tasks that record, and of the daemon. -/
inductive Label where
  /-- A call finds `g_active` set. -/
  | enter
  /-- It reserves a slot. -/
  | reserve
  /-- One of the reserved slots is filled in. -/
  | fill (i : Nat)
  /-- The main loop calls `snoop_drain`. -/
  | drain
  | pick
  /-- The entry is formatted and sent. -/
  | send
  | load
  | advance
  /-- `snoop_start` is called, and its next step. -/
  | start
  | reset
  | stop
  | status
  deriving DecidableEq

/-- No slot is free but the one that marks the end. -/
def Full (s : Ring) : Prop := (s.head + 1) % ringSize = s.tail

instance (s : Ring) : Decidable s.Full := inferInstanceAs (Decidable (_ = _))

/-- The critical section of `snoop_record`. -/
def reserve (s : Ring) : Ring :=
  { s with
    tail := if s.Full then (s.tail + 1) % ringSize else s.tail
    dropCount := if s.Full then s.dropCount + 1 else s.dropCount
    dropped := if s.Full then s.dropped ++ [s.owner s.tail] else s.dropped
    owner := Function.update s.owner s.head (some s.recorded)
    head := (s.head + 1) % ringSize
    eventCount := s.eventCount + 1
    callers := s.callers - 1
    filling := s.filling ++ [(s.recorded, s.head)]
    recorded := s.recorded + 1 }

/-- One step. -/
def next (s : Ring) : Label → Option Ring
  | .enter => if s.active then some { s with callers := s.callers + 1 } else none
  | .reserve => if 0 < s.callers then some s.reserve else none
  | .fill i =>
    match s.filling[i]? with
    | some (event, slot) =>
      some { s with
        entry := Function.update s.entry slot (some event)
        filling := s.filling.eraseIdx i }
    | none => none
  | .drain =>
    if s.daemon = .idle ∧ s.active then some { s with daemon := .testing 0 } else none
  | .pick =>
    match s.daemon with
    | .testing count =>
      some { s with
        daemon := if s.tail ≠ s.head ∧ count < 8 then .picked s.tail count else .idle }
    | _ => none
  | .send =>
    match s.daemon with
    | .picked slot count =>
      some { s with sent := s.sent ++ [s.entry slot], daemon := .sent count }
    | _ => none
  | .load =>
    match s.daemon with
    | .sent count => some { s with daemon := .advancing s.tail count }
    | _ => none
  | .advance =>
    match s.daemon with
    | .advancing tail count =>
      some { s with tail := (tail + 1) % ringSize, daemon := .testing (count + 1) }
    | _ => none
  | .start => if s.daemon = .idle ∧ ¬ s.active then some { s with daemon := .starting } else none
  | .reset =>
    match s.daemon with
    | .starting => some { s with head := 0, daemon := .resetTail }
    | .resetTail => some { s with tail := 0, daemon := .resetEvents }
    | .resetEvents =>
      some { s with
        eventCount := 0
        daemon := .resetDrops
        base := s.recorded
        sent := []
        dropped := [] }
    | .resetDrops => some { s with dropCount := 0, daemon := .patching }
    | .patching => some { s with active := true, daemon := .idle }
    | _ => none
  | .stop => if s.daemon = .idle ∧ s.active then some { s with active := false } else none
  | .status => if s.daemon = .idle then some s else none

/-- The number of buffered entries, as `snoop_handle_status` computes it. -/
def buffered (s : Ring) : Nat :=
  if s.tail ≤ s.head then s.head - s.tail else ringSize - s.tail + s.head

/-- The events from the tail to the head, in order. -/
def held (s : Ring) : List (Option Nat) :=
  (List.range s.buffered).map fun k => s.owner ((s.tail + k) % ringSize)

/-- The buffered events that are still to be sent. -/
def unsent (s : Ring) : List (Option Nat) := s.held.drop s.daemon.sending.toNat

/-- The events recorded since the last start are each sent, counted as dropped, or still buffered,
and they are sent in order. -/
structure Accounted (s : Ring) : Prop where
  once : (s.sent ++ s.dropped ++ s.unsent).Perm
    ((List.range' s.base (s.recorded - s.base)).map some)
  inOrder : ∃ events : List Nat, s.sent = events.map some ∧ events.Pairwise (· < ·)
  drops : s.dropCount = UInt32.ofNat s.dropped.length
  total : s.eventCount =
    UInt32.ofNat s.sent.length + s.dropCount + UInt32.ofNat s.unsent.length

/-- The ring is not full when an event is recorded while an entry is handled, an entry is filled
in when it is sent, and no event is recorded within the stores of a start. -/
def Orderly (s : Ring) : Label → Prop
  | .reserve => s.daemon.clearing = false ∧ (s.daemon.handling = true → ¬ s.Full)
  | .send => ∀ slot ∈ s.daemon.pointed, s.entry slot = s.owner slot
  | .enter | .fill _ | .drain | .pick | .load | .advance | .start | .reset | .stop
  | .status => True

instance (s : Ring) : DecidablePred s.Orderly
  | .reserve => inferInstanceAs (Decidable (_ ∧ _))
  | .send => inferInstanceAs (Decidable (∀ slot ∈ s.daemon.pointed, _))
  | .enter | .fill _ | .drain | .pick | .load | .advance | .start | .reset | .stop
  | .status => isTrue trivial

/-! ### The invariant -/

/-- The slots from the tail to the head belong to the events from `oldest` on. -/
structure Window (s : Ring) (oldest : Nat) : Prop where
  base : s.base ≤ oldest
  newest : oldest ≤ s.recorded
  room : s.recorded - oldest < ringSize
  head : s.head = (s.recorded - s.base) % ringSize
  tail : s.tail = (oldest - s.base) % ringSize
  owner (event : Nat) (hold : oldest ≤ event) (hnew : event < s.recorded) :
    s.owner ((event - s.base) % ringSize) = some event
  events : s.eventCount = UInt32.ofNat (s.recorded - s.base)

/-- The events before `upto` were sent, in order, or dropped. -/
def Settled (s : Ring) (upto : Nat) : Prop :=
  ∃ events gone : List Nat, s.sent = events.map some ∧ s.dropped = gone.map some ∧
    events.Pairwise (· < ·) ∧ (events ++ gone).Perm (List.range' s.base (upto - s.base))

def DropsCounted (s : Ring) : Prop := s.dropCount = UInt32.ofNat s.dropped.length

/-- The invariant of orderly runs. -/
def Inv (s : Ring) : Prop :=
  match s.daemon with
  | .resetTail => s.head = 0
  | .resetEvents => s.head = 0 ∧ s.tail = 0
  | .resetDrops => ∃ oldest, s.Window oldest ∧ s.Settled oldest ∧ s.dropped = []
  | .idle | .testing _ | .starting | .patching =>
    ∃ oldest, s.Window oldest ∧ s.Settled oldest ∧ s.DropsCounted
  | .picked slot _ => ∃ oldest, s.Window oldest ∧ s.Settled oldest ∧ s.DropsCounted ∧
      oldest < s.recorded ∧ slot = s.tail
  | .sent _ => ∃ oldest, s.Window oldest ∧ s.Settled (oldest + 1) ∧ s.DropsCounted ∧
      oldest < s.recorded
  | .advancing tail _ => ∃ oldest, s.Window oldest ∧ s.Settled (oldest + 1) ∧ s.DropsCounted ∧
      oldest < s.recorded ∧ tail = s.tail

/-- Without an entry the tail is the head. -/
theorem window_empty {s : Ring} {oldest : Nat} (hbase : s.base = oldest)
    (hrecorded : s.recorded = oldest) (hhead : s.head = 0) (htail : s.tail = 0)
    (hevents : s.eventCount = 0) : s.Window oldest := by
  subst hbase
  refine ⟨Nat.le_refl _, Nat.le_of_eq hrecorded.symm, ?_, ?_, ?_, fun event hold hnew => ?_, ?_⟩
  · rw [hrecorded, Nat.sub_self]
    decide
  · rw [hhead, hrecorded, Nat.sub_self]
    rfl
  · rw [htail, Nat.sub_self]
    rfl
  · omega
  · rw [hevents, hrecorded, Nat.sub_self]
    rfl

theorem inv_start : Inv start :=
  ⟨0, window_empty rfl rfl rfl rfl rfl, ⟨[], [], rfl, rfl, List.Pairwise.nil, List.Perm.refl _⟩,
    rfl⟩

/-- The slot behind that of the `n`th event is the next event's. -/
theorem slot_succ (n : Nat) : (n % ringSize + 1) % ringSize = (n + 1) % ringSize :=
  Nat.mod_add_mod n ringSize 1

/-- Events less than a ring apart have slots of their own. -/
theorem slot_ne {m n : Nat} (hlt : m < n) (hnear : n - m < ringSize) :
    m % ringSize ≠ n % ringSize := by
  simp only [ringSize] at hnear ⊢
  omega

section Windows

variable {s : Ring} {oldest upto : Nat}

/-- The rest of the state has no part in it. -/
theorem Window.frame (h : s.Window oldest) {active : Bool} {dropCount : UInt32}
    {entry : Nat → Option Nat} {callers : Nat} {filling : List (Nat × Nat)} {daemon : Daemon}
    {sent dropped : List (Option Nat)} :
    Window { s with active, dropCount, entry, callers, filling, daemon, sent, dropped } oldest :=
  ⟨h.base, h.newest, h.room, h.head, h.tail, h.owner, h.events⟩

theorem Window.buffered_eq (h : s.Window oldest) : s.buffered = s.recorded - oldest := by
  obtain ⟨hbase, hnewest, hroom, hhead, htail, -, -⟩ := h
  unfold buffered
  rw [hhead, htail]
  simp only [ringSize] at hroom ⊢
  split <;> omega

theorem Window.held_eq (h : s.Window oldest) :
    s.held = (List.range' oldest (s.recorded - oldest)).map some := by
  rw [held, h.buffered_eq, List.range'_eq_map_range, List.map_map]
  apply List.map_congr_left
  intro k hk
  rw [List.mem_range] at hk
  have hbase := h.base
  have hslot : (s.tail + k) % ringSize = (oldest + k - s.base) % ringSize := by
    rw [h.tail]
    simp only [ringSize]
    omega
  rw [hslot]
  exact h.owner (oldest + k) (Nat.le_add_right _ _) (by omega)

theorem Window.full_iff (h : s.Window oldest) : s.Full ↔ s.recorded - oldest = ringSize - 1 := by
  obtain ⟨hbase, hnewest, hroom, hhead, htail, -, -⟩ := h
  unfold Full
  rw [hhead, htail]
  simp only [ringSize] at hroom ⊢
  omega

theorem Window.tail_ne_head (h : s.Window oldest) : s.tail ≠ s.head ↔ oldest < s.recorded := by
  obtain ⟨hbase, hnewest, hroom, hhead, htail, -, -⟩ := h
  rw [hhead, htail]
  simp only [ringSize] at hroom ⊢
  omega

/-- The entry at the tail belongs to the oldest event. -/
theorem Window.owner_tail (h : s.Window oldest) (hne : oldest < s.recorded) :
    s.owner s.tail = some oldest := by
  rw [h.tail]
  exact h.owner oldest (Nat.le_refl _) hne

/-- The oldest event after a slot is reserved. -/
theorem Window.oldest_reserve (h : s.Window oldest) :
    oldest ≤ (if s.Full then oldest + 1 else oldest) ∧
      (if s.Full then oldest + 1 else oldest) ≤ s.recorded ∧
      s.recorded + 1 - (if s.Full then oldest + 1 else oldest) < ringSize := by
  have hnewest := h.newest
  have hroom := h.room
  by_cases hfull : s.Full
  · have hcount := h.full_iff.mp hfull
    simp only [if_pos hfull, ringSize] at hcount ⊢
    omega
  · have hcount := mt h.full_iff.mpr hfull
    simp only [if_neg hfull, ringSize] at hcount hroom ⊢
    omega

/-- A reserved slot is none of those from the tail to the head. -/
theorem Window.reserve (h : s.Window oldest) :
    s.reserve.Window (if s.Full then oldest + 1 else oldest) := by
  obtain ⟨hkept, hlast, hfits⟩ := h.oldest_reserve
  obtain ⟨hbase, hnewest, hroom, hhead, htail, howner, hevents⟩ := h
  have hcount : s.recorded + 1 - s.base = s.recorded - s.base + 1 := by omega
  constructor
  · exact Nat.le_trans hbase hkept
  · exact Nat.le_succ_of_le hlast
  · exact hfits
  · change (s.head + 1) % ringSize = (s.recorded + 1 - s.base) % ringSize
    rw [hhead, hcount, slot_succ]
  · change (if s.Full then (s.tail + 1) % ringSize else s.tail) =
      ((if s.Full then oldest + 1 else oldest) - s.base) % ringSize
    rw [htail]
    split
    · rw [slot_succ, Nat.sub_add_comm hbase]
    · rfl
  · intro event hold hnew
    have hlt : event < s.recorded + 1 := hnew
    have hold' : oldest ≤ event := Nat.le_trans hkept hold
    change Function.update s.owner s.head (some s.recorded) ((event - s.base) % ringSize) = _
    rw [Function.update_apply]
    by_cases heq : event = s.recorded
    · rw [heq, if_pos hhead.symm]
    · have hother : (event - s.base) % ringSize ≠ s.head := by
        rw [hhead]
        exact slot_ne (by omega) (by omega)
      rw [if_neg hother]
      exact howner event hold' (by omega)
  · change s.eventCount + 1 = UInt32.ofNat (s.recorded + 1 - s.base)
    rw [hevents, hcount, UInt32.ofNat_add]
    rfl

theorem Window.reserve_of_not_full (h : s.Window oldest) (hfull : ¬ s.Full) :
    s.reserve.Window oldest := by
  have hreserve := h.reserve
  rwa [if_neg hfull] at hreserve

theorem reserve_dropped (hfull : ¬ s.Full) : s.reserve.dropped = s.dropped := if_neg hfull

theorem Settled.reserve_of_not_full (h : s.Settled upto) (hfull : ¬ s.Full) :
    s.reserve.Settled upto := by
  obtain ⟨events, gone, hsent, hdropped, hordered, hperm⟩ := h
  exact ⟨events, gone, hsent, (reserve_dropped hfull).trans hdropped, hordered, hperm⟩

theorem reserve_tail (hfull : ¬ s.Full) : s.reserve.tail = s.tail := if_neg hfull

/-- A dropped event is counted and settled. -/
theorem Settled.reserve (hw : s.Window oldest) (h : s.Settled oldest) :
    s.reserve.Settled (if s.Full then oldest + 1 else oldest) := by
  by_cases hfull : s.Full
  · obtain ⟨events, gone, hsent, hdropped, hordered, hperm⟩ := h
    have hne : oldest < s.recorded := by
      have hcount := hw.full_iff.mp hfull
      simp only [ringSize] at hcount
      omega
    rw [if_pos hfull]
    refine ⟨events, gone ++ [oldest], hsent, ?_, hordered, ?_⟩
    · change (if s.Full then s.dropped ++ [s.owner s.tail] else s.dropped) = _
      rw [if_pos hfull, hdropped, hw.owner_tail hne, List.map_append]
      rfl
    · change (events ++ (gone ++ [oldest])).Perm (List.range' s.base (oldest + 1 - s.base))
      rw [Nat.sub_add_comm hw.base, List.range'_concat, ← List.append_assoc, Nat.one_mul,
        Nat.add_sub_cancel' hw.base]
      exact hperm.append_right _
  · rw [if_neg hfull]
    exact h.reserve_of_not_full hfull

theorem DropsCounted.reserve (h : s.DropsCounted) : s.reserve.DropsCounted := by
  change (if s.Full then s.dropCount + 1 else s.dropCount) = UInt32.ofNat
    (if s.Full then s.dropped ++ [s.owner s.tail] else s.dropped).length
  split
  · rw [h, List.length_append, UInt32.ofNat_add]
    rfl
  · exact h

/-- Sending the oldest entry settles it. -/
theorem Settled.send (hw : s.Window oldest) (h : s.Settled oldest) (hne : oldest < s.recorded)
    (hentry : s.entry s.tail = s.owner s.tail) (daemon : Daemon) :
    Settled { s with sent := s.sent ++ [s.entry s.tail], daemon } (oldest + 1) := by
  obtain ⟨events, gone, hsent, hdropped, hordered, hperm⟩ := h
  have hbase := hw.base
  refine ⟨events ++ [oldest], gone, ?_, hdropped, ?_, ?_⟩
  · change s.sent ++ [s.entry s.tail] = _
    rw [hentry, hw.owner_tail hne, hsent, List.map_append]
    rfl
  · rw [List.pairwise_append]
    refine ⟨hordered, List.pairwise_singleton _ _, fun event hevent other hother => ?_⟩
    rw [List.mem_singleton.mp hother]
    have hmem : event ∈ List.range' s.base (oldest - s.base) :=
      hperm.mem_iff.mp (List.mem_append_left gone hevent)
    rw [List.mem_range'_1] at hmem
    omega
  · have hcount : oldest + 1 - s.base = oldest - s.base + 1 := by omega
    change (events ++ [oldest] ++ gone).Perm (List.range' s.base (oldest + 1 - s.base))
    rw [hcount, List.range'_concat, Nat.one_mul, Nat.add_sub_cancel' hbase]
    have hswap : (events ++ [oldest] ++ gone).Perm (events ++ gone ++ [oldest]) := by
      rw [List.append_assoc, List.append_assoc]
      exact List.Perm.append_left events List.perm_append_comm
    exact hswap.trans (hperm.append_right _)

theorem Window.advance (h : s.Window oldest) (hne : oldest < s.recorded) (daemon : Daemon) :
    Window { s with tail := (s.tail + 1) % ringSize, daemon } (oldest + 1) := by
  obtain ⟨hbase, hnewest, hroom, hhead, htail, howner, hevents⟩ := h
  refine ⟨Nat.le_succ_of_le hbase, hne, ?_, hhead, ?_, fun event hold hnew => ?_, hevents⟩
  · change s.recorded - (oldest + 1) < ringSize
    omega
  · change (s.tail + 1) % ringSize = (oldest + 1 - s.base) % ringSize
    rw [htail, slot_succ, Nat.sub_add_comm hbase]
  · exact howner event (Nat.le_of_succ_le hold) hnew

/-- What the parts of the invariant say about the accounts. -/
theorem Window.accounted (hw : s.Window oldest)
    (h : s.Settled (oldest + s.daemon.sending.toNat))
    (hne : s.daemon.sending = true → oldest < s.recorded) (hdrops : s.DropsCounted) :
    Accounted s := by
  obtain ⟨events, gone, hsent, hdropped, hordered, hperm⟩ := h
  have hbase := hw.base
  have hnewest := hw.newest
  have hle : oldest + s.daemon.sending.toNat ≤ s.recorded := by
    cases hsending : s.daemon.sending with
    | false => exact hnewest
    | true => exact hne hsending
  generalize hupto : oldest + s.daemon.sending.toNat = upto at hperm hle
  have hunsent : s.unsent = (List.range' upto (s.recorded - upto)).map some := by
    rw [unsent, hw.held_eq, ← List.map_drop, List.drop_range', Nat.mul_one, hupto]
    congr 2
    omega
  have hparts : (s.sent ++ s.dropped ++ s.unsent).Perm
      ((List.range' s.base (s.recorded - s.base)).map some) := by
    rw [hsent, hdropped, hunsent, ← List.map_append, ← List.map_append]
    apply List.Perm.map
    have hsplit : List.range' s.base (s.recorded - s.base) =
        List.range' s.base (upto - s.base) ++ List.range' upto (s.recorded - upto) := by
      have hat : s.base + (upto - s.base) = upto := by omega
      have hcount : s.recorded - s.base = upto - s.base + (s.recorded - upto) := by omega
      rw [hcount, ← List.range'_append_1, hat]
    rw [hsplit]
    exact hperm.append_right _
  refine ⟨hparts, ⟨events, hsent, hordered⟩, hdrops, ?_⟩
  have hlength := hparts.length_eq
  rw [List.length_append, List.length_append, List.length_map, List.length_range'] at hlength
  rw [hw.events, hdrops, ← hlength, UInt32.ofNat_add, UInt32.ofNat_add]

/-- The events that are being recorded have no part in the invariant. -/
theorem Inv.frame (h : s.Inv) {active : Bool} {entry : Nat → Option Nat} {callers : Nat}
    {filling : List (Nat × Nat)} : Inv { s with active, entry, callers, filling } := by
  simp only [Inv] at h ⊢
  cases hdaemon : s.daemon with
  | resetTail | resetEvents =>
    simp only [hdaemon] at h
    exact h
  | resetDrops | idle | testing _ | starting | patching | picked _ _ | sent _ | advancing _ _ =>
    simp only [hdaemon] at h
    obtain ⟨oldest, hw, hrest⟩ := h
    exact ⟨oldest, hw.frame, hrest⟩

@[simp] theorem reserve_daemon : s.reserve.daemon = s.daemon := rfl

/-- Recording keeps the invariant where no other entry than the oldest can be dropped. -/
theorem Inv.reserve (h : s.Inv) (horderly : s.Orderly .reserve) : s.reserve.Inv := by
  obtain ⟨hclear, hroom⟩ := horderly
  simp only [Inv, reserve_daemon] at h ⊢
  cases hdaemon : s.daemon with
  | resetTail | resetEvents =>
    rw [hdaemon] at hclear
    cases hclear
  | idle | testing _ | starting | patching =>
    simp only [hdaemon] at h
    obtain ⟨oldest, hw, hs, hd⟩ := h
    exact ⟨_, hw.reserve, hs.reserve hw, hd.reserve⟩
  | resetDrops =>
    simp only [hdaemon] at h hroom
    obtain ⟨oldest, hw, hs, hd⟩ := h
    have hfull := hroom rfl
    exact ⟨oldest, hw.reserve_of_not_full hfull, hs.reserve_of_not_full hfull,
      (reserve_dropped hfull).trans hd⟩
  | picked slot _ =>
    simp only [hdaemon] at h hroom
    obtain ⟨oldest, hw, hs, hd, hne, hslot⟩ := h
    have hfull := hroom rfl
    exact ⟨oldest, hw.reserve_of_not_full hfull, hs.reserve_of_not_full hfull, hd.reserve,
      Nat.lt_succ_of_lt hne, hslot.trans (reserve_tail hfull).symm⟩
  | sent _ =>
    simp only [hdaemon] at h hroom
    obtain ⟨oldest, hw, hs, hd, hne⟩ := h
    have hfull := hroom rfl
    exact ⟨oldest, hw.reserve_of_not_full hfull, hs.reserve_of_not_full hfull, hd.reserve,
      Nat.lt_succ_of_lt hne⟩
  | advancing tail _ =>
    simp only [hdaemon] at h hroom
    obtain ⟨oldest, hw, hs, hd, hne, htail⟩ := h
    have hfull := hroom rfl
    exact ⟨oldest, hw.reserve_of_not_full hfull, hs.reserve_of_not_full hfull, hd.reserve,
      Nat.lt_succ_of_lt hne, htail.trans (reserve_tail hfull).symm⟩

/-- The loop of `snoop_drain` sends the oldest entry and moves on to the next. -/
theorem Inv.drain {s' : Ring} {a : Label} (h : s.Inv) (horderly : s.Orderly a)
    (ha : a = .drain ∨ a = .pick ∨ a = .send ∨ a = .load ∨ a = .advance)
    (hstep : s.next a = some s') : s'.Inv := by
  simp only [Inv] at h
  rcases ha with rfl | rfl | rfl | rfl | rfl
  · simp only [next, Option.ite_none_right_eq_some, Option.some.injEq] at hstep
    obtain ⟨⟨hdaemon, -⟩, rfl⟩ := hstep
    simp only [hdaemon] at h
    obtain ⟨oldest, hw, hrest⟩ := h
    exact ⟨oldest, hw.frame, hrest⟩
  · simp only [next] at hstep
    split at hstep
    · rename_i count hdaemon
      cases hstep
      simp only [hdaemon] at h
      obtain ⟨oldest, hw, hs, hd⟩ := h
      by_cases hmore : s.tail ≠ s.head ∧ count < 8
      · rw [if_pos hmore]
        exact ⟨oldest, hw.frame, hs, hd, hw.tail_ne_head.mp hmore.1, rfl⟩
      · rw [if_neg hmore]
        exact ⟨oldest, hw.frame, hs, hd⟩
    · cases hstep
  · simp only [next] at hstep
    split at hstep
    · rename_i slot count hdaemon
      cases hstep
      have hentry := horderly slot (congrArg Daemon.pointed hdaemon)
      simp only [hdaemon] at h
      obtain ⟨oldest, hw, hs, hd, hne, rfl⟩ := h
      exact ⟨oldest, hw.frame, hs.send hw hne hentry _, hd, hne⟩
    · cases hstep
  · simp only [next] at hstep
    split at hstep
    · rename_i count hdaemon
      cases hstep
      simp only [hdaemon] at h
      obtain ⟨oldest, hw, hs, hd, hne⟩ := h
      exact ⟨oldest, hw.frame, hs, hd, hne, rfl⟩
    · cases hstep
  · simp only [next] at hstep
    split at hstep
    · rename_i tail count hdaemon
      cases hstep
      simp only [hdaemon] at h
      obtain ⟨oldest, hw, hs, hd, hne, rfl⟩ := h
      exact ⟨oldest + 1, hw.advance hne _, hs, hd⟩
    · cases hstep

/-- The stores of `snoop_start` begin a new account. -/
theorem Inv.reset {s' : Ring} {a : Label} (h : s.Inv) (ha : a = .start ∨ a = .reset)
    (hstep : s.next a = some s') : s'.Inv := by
  simp only [Inv] at h
  rcases ha with rfl | rfl
  · simp only [next, Option.ite_none_right_eq_some, Option.some.injEq] at hstep
    obtain ⟨⟨hdaemon, -⟩, rfl⟩ := hstep
    simp only [hdaemon] at h
    obtain ⟨oldest, hw, hrest⟩ := h
    exact ⟨oldest, hw.frame, hrest⟩
  · simp only [next] at hstep
    split at hstep
    · cases hstep
      rfl
    · rename_i hdaemon
      cases hstep
      simp only [hdaemon] at h
      exact ⟨h, rfl⟩
    · rename_i hdaemon
      cases hstep
      simp only [hdaemon] at h
      refine ⟨s.recorded, window_empty rfl rfl h.1 h.2 rfl, ?_, rfl⟩
      refine ⟨[], [], rfl, rfl, List.Pairwise.nil, ?_⟩
      change List.Perm [] (List.range' s.recorded (s.recorded - s.recorded))
      rw [Nat.sub_self]
      exact List.Perm.refl []
    · rename_i hdaemon
      cases hstep
      simp only [hdaemon] at h
      obtain ⟨oldest, hw, hs, hd⟩ := h
      refine ⟨oldest, hw.frame, hs, ?_⟩
      change 0 = UInt32.ofNat s.dropped.length
      rw [hd]
      rfl
    · rename_i hdaemon
      cases hstep
      simp only [hdaemon] at h
      obtain ⟨oldest, hw, hrest⟩ := h
      exact ⟨oldest, hw.frame, hrest⟩
    · cases hstep

end Windows

/-- Every orderly step keeps the invariant. -/
theorem inv_next (s : Ring) (a : Label) (s' : Ring) (h : s.Inv) (horderly : s.Orderly a)
    (hstep : s.next a = some s') : s'.Inv := by
  cases a with
  | drain => exact h.drain horderly (by simp) hstep
  | pick => exact h.drain horderly (by simp) hstep
  | send => exact h.drain horderly (by simp) hstep
  | load => exact h.drain horderly (by simp) hstep
  | advance => exact h.drain horderly (by simp) hstep
  | start => exact h.reset (by simp) hstep
  | reset => exact h.reset (by simp) hstep
  | enter =>
    simp only [next, Option.ite_none_right_eq_some, Option.some.injEq] at hstep
    obtain ⟨-, rfl⟩ := hstep
    exact h.frame
  | reserve =>
    simp only [next, Option.ite_none_right_eq_some, Option.some.injEq] at hstep
    obtain ⟨-, rfl⟩ := hstep
    exact h.reserve horderly
  | fill i =>
    simp only [next] at hstep
    split at hstep
    · cases hstep
      exact h.frame
    · cases hstep
  | stop =>
    simp only [next, Option.ite_none_right_eq_some, Option.some.injEq] at hstep
    obtain ⟨-, rfl⟩ := hstep
    exact h.frame
  | status =>
    simp only [next, Option.ite_none_right_eq_some, Option.some.injEq] at hstep
    obtain ⟨-, rfl⟩ := hstep
    exact h

/-- What the invariant says about the accounts. -/
theorem Inv.accounted {s : Ring} (h : s.Inv) (hreset : s.daemon.resetting = false) :
    s.Accounted := by
  simp only [Inv] at h
  cases hdaemon : s.daemon with
  | resetTail | resetEvents | resetDrops =>
    rw [hdaemon] at hreset
    cases hreset
  | idle | testing _ | starting | patching =>
    simp only [hdaemon] at h
    obtain ⟨oldest, hw, hs, hd⟩ := h
    refine hw.accounted ?_ ?_ hd
    · rw [hdaemon]
      exact hs
    · rw [hdaemon]
      exact fun hsending => absurd hsending Bool.false_ne_true
  | picked slot _ =>
    simp only [hdaemon] at h
    obtain ⟨oldest, hw, hs, hd, hne, -⟩ := h
    refine hw.accounted ?_ (fun _ => hne) hd
    rw [hdaemon]
    exact hs
  | sent _ =>
    simp only [hdaemon] at h
    obtain ⟨oldest, hw, hs, hd, hne⟩ := h
    refine hw.accounted ?_ (fun _ => hne) hd
    rw [hdaemon]
    exact hs
  | advancing tail _ =>
    simp only [hdaemon] at h
    obtain ⟨oldest, hw, hs, hd, hne, -⟩ := h
    refine hw.accounted ?_ (fun _ => hne) hd
    rw [hdaemon]
    exact hs

/-! ### The accounts -/

/-- `snoop_start`, with its stores. -/
def starting : List Label := .start :: List.replicate 5 .reset

/-- A call of `snoop_record` that nothing interrupts. -/
def recording : List Label := [.enter, .reserve, .fill 0]

/-- One turn of the loop of `snoop_drain`. -/
def sending : List Label := [.pick, .send, .load, .advance]

/-- Two events, of which the second is filled in behind the first is sent. -/
def twoEvents : List Label :=
  starting ++ recording ++ [.enter, .reserve, .drain] ++ sending ++ .fill 0 :: sending ++
    [.pick, .stop, .status]

/-- An event recorded while the ring is full and its oldest entry is about to be sent. -/
def overrun : List Label :=
  starting ++ (List.replicate 127 recording).flatten ++ [.drain, .pick] ++ recording ++
    [.send, .load, .advance]

end Ring

end AmigaDevbench.Snoop
