import Mathlib.Data.Finset.Lattice.Lemmas
import AmigaDevbench.Core.Returns
import AmigaDevbench.Core.Runs
import AmigaDevbench.Host.Winuae.Debugger

/-!
# The session's points and the target's

Every operation changes the two sides one request at a time. A point enters or leaves `_points`
after the request that arms or disarms it is answered `OK`, so an exception between two requests
does no harm; only the loop that puts lifted points back after a checkpoint save changes the target
alone.
-/

namespace AmigaDevbench.Winuae

open Raises

/-- The keys of `_points`. -/
def Session.keys (s : Session) : Finset Key := (s.points.map Point.key).toFinset

/-- The session's points are those armed in the target. -/
def Mirrors (s : Session) : Prop := s.keys = s.armed

/-- The session behind a request. -/
def Session.asked (s : Session) (command : Command) (reply : Reply) : Session :=
  { s with armed := command.effect reply s.armed }

theorem mem_keys {s : Session} {key : Key} : key ∈ s.keys ↔ ∃ p ∈ s.points, p.key = key := by
  simp [Session.keys]

theorem keys_setPoint (s : Session) (p : Point) : (s.setPoint p).keys = s.keys ∪ {p.key} := by
  ext key
  simp only [Finset.mem_union, Finset.mem_singleton, mem_keys, Session.setPoint]
  split
  · rename_i hany
    obtain ⟨old, hold, hkey⟩ := List.any_eq_true.mp hany
    have hkey : old.key = p.key := of_decide_eq_true hkey
    constructor
    · rintro ⟨q, hq, rfl⟩
      obtain ⟨r, hr, rfl⟩ := List.mem_map.mp hq
      split
      · exact .inr rfl
      · exact .inl ⟨r, hr, rfl⟩
    · rintro (⟨q, hq, rfl⟩ | rfl)
      · refine ⟨_, List.mem_map_of_mem hq, ?_⟩
        split
        · rename_i heq
          exact heq.symm
        · rfl
      · exact ⟨p, List.mem_map.mpr ⟨old, hold, if_pos hkey⟩, rfl⟩
  · simp only [List.mem_append, List.mem_singleton, or_and_right, exists_or, exists_eq_left]
    exact or_congr_right eq_comm

theorem keys_delPoint (s : Session) (key : Key) : (s.delPoint key).keys = s.keys.erase key := by
  ext other
  simp only [Finset.mem_erase, mem_keys, Session.delPoint, List.mem_filter, decide_eq_true_eq]
  constructor
  · rintro ⟨p, ⟨hp, hne⟩, rfl⟩
    exact ⟨hne, p, hp, rfl⟩
  · rintro ⟨hne, p, hp, rfl⟩
    exact ⟨p, ⟨hp, hne⟩, rfl⟩

theorem mem_keys_of_point? {s : Session} {key : Key} {p : Point} (h : s.point? key = some p) :
    p.key = key ∧ key ∈ s.keys := by
  unfold Session.point? at h
  have hkey : p.key = key := by simpa using List.find?_some h
  exact ⟨hkey, mem_keys.mpr ⟨p, List.mem_of_find?_eq_some h, hkey⟩⟩

/-- A new value for a key keeps the two sides in step. -/
theorem mirrors_setPoint {s : Session} {p : Point} (h : Mirrors s) (hp : p.key ∈ s.keys) :
    Mirrors (s.setPoint p) := by
  rw [Mirrors, keys_setPoint, Finset.union_eq_left.mpr (Finset.singleton_subset_iff.mpr hp)]
  exact h

theorem mem_keys_of_point?_isSome {s : Session} {key : Key}
    (h : ¬ (s.point? key).isNone = true) : key ∈ s.keys := by
  rw [Option.isNone_iff_eq_none] at h
  obtain ⟨p, hp⟩ := Option.ne_none_iff_exists'.mp h
  exact (mem_keys_of_point? hp).2

section Requests

variable {P : Session → Prop} {E : Session → Prop} {command : Command} {reply : Reply} {key : Key}

theorem triple_request {Q : Reply → Session → Prop}
    (hreturn : ∀ s, P s → reply ≠ .rejected → reply ≠ .unsupported →
      Q reply (s.asked command reply))
    (hraise : ∀ s, P s → reply = .rejected ∨ reply = .unsupported → E (s.asked command reply)) :
    Triple P (request command reply) Q E := by
  refine triple_bind (Q := fun _ s' => ∃ s, P s ∧ s' = s.asked command reply)
    (triple_modify fun s hs => ⟨s, hs, rfl⟩) fun _ => ?_
  cases reply with
  | rejected =>
    apply triple_throw
    rintro s' ⟨s, hs, rfl⟩
    exact hraise s hs (.inl rfl)
  | unsupported =>
    apply triple_throw
    rintro s' ⟨s, hs, rfl⟩
    exact hraise s hs (.inr rfl)
  | ok | value n =>
    apply triple_pure
    rintro s' ⟨s, hs, rfl⟩
    exact hreturn s hs (fun h => nomatch h) (fun h => nomatch h)

/-- An acknowledged change takes effect, another leaves the target as it is. -/
theorem triple_ok {Q : PUnit → Session → Prop}
    (hnone : ∀ armed, reply ≠ .ok → command.effect reply armed = armed)
    (hreturn : ∀ s, P s → reply = .ok → Q ⟨⟩ (s.asked command .ok))
    (hraise : ∀ s, P s → reply ≠ .ok → E s) : Triple P (ok command reply) Q E := by
  have hsame (s : Session) (h : reply ≠ .ok) : s.asked command reply = s := by
    simp only [Session.asked, hnone s.armed h]
  refine triple_bind (Q := fun r s' => r = reply ∧ ∃ s, P s ∧ s' = s.asked command reply)
    (triple_request (fun s hs _ _ => ⟨rfl, s, hs, rfl⟩) ?_) fun r => ?_
  · intro s hs hfail
    have hne : reply ≠ .ok := by rintro rfl; simp at hfail
    rw [hsame s hne]
    exact hraise s hs hne
  · split
    · rename_i hne
      apply triple_throw
      rintro s' ⟨rfl, s, hs, rfl⟩
      rw [hsame s hne]
      exact hraise s hs hne
    · rename_i heq
      apply triple_pure
      rintro s' ⟨rfl, s, hs, rfl⟩
      have hok : r = .ok := not_not.mp heq
      rw [hok]
      exact hreturn s hs hok

theorem triple_insert {Q : PUnit → Session → Prop}
    (hreturn : ∀ s, P s → reply = .ok → Q ⟨⟩ { s with armed := s.armed ∪ {key} })
    (hraise : ∀ s, P s → reply ≠ .ok → E s) : Triple P (ok (.insert key) reply) Q E :=
  triple_ok (by intro armed h; cases reply <;> simp [Command.effect] at h ⊢) hreturn hraise

theorem triple_remove {Q : PUnit → Session → Prop}
    (hreturn : ∀ s, P s → reply = .ok → Q ⟨⟩ { s with armed := s.armed.erase key })
    (hraise : ∀ s, P s → reply ≠ .ok → E s) : Triple P (ok (.remove key) reply) Q E :=
  triple_ok (by intro armed h; cases reply <;> simp [Command.effect] at h ⊢) hreturn hraise

end Requests

/-- A change of anything but the points keeps the two sides in step. -/
theorem keeps_modify {f : Session → Session} (hpoints : ∀ s, (f s).points = s.points)
    (harmed : ∀ s, (f s).armed = s.armed) : Keeps Mirrors (modify f : Action PUnit) := by
  refine triple_modify fun s hs => ?_
  simpa only [Mirrors, Session.keys, hpoints, harmed] using hs

/-- A request that touches no point keeps them in step. -/
theorem keeps_request {command : Command} {reply : Reply}
    (hnone : ∀ armed, command.effect reply armed = armed) :
    Keeps Mirrors (discard (request command reply)) := by
  have hsame (s : Session) : s.asked command reply = s := by
    simp only [Session.asked, hnone s.armed]
  refine triple_bind (Q := fun _ => Mirrors) (triple_request ?_ ?_) fun _ => triple_pure fun _ => id
  · intro s hs _ _
    rwa [hsame s]
  · intro s hs _
    rwa [hsame s]

/-- A point leaves the target first. -/
theorem triple_removed (key : Key) (reply : Reply) : Triple Mirrors (ok (.remove key) reply)
    (fun _ s => s.keys.erase key = s.armed) Mirrors :=
  triple_remove (fun _ hs _ => congrArg (Finset.erase · key) hs) fun _ hs _ => hs

/-- Then it leaves the session. -/
theorem triple_delPoint (key : Key) : Triple (fun s => s.keys.erase key = s.armed)
    (modify (·.delPoint key) : Action PUnit) (fun _ => Mirrors) Mirrors := by
  apply triple_modify
  intro s hs
  rw [Mirrors, keys_delPoint]
  exact hs

theorem keeps_clearPoints (keys : List Key) (replies : Nat → Reply) :
    Keeps Mirrors (clearPoints keys replies) := by
  induction keys generalizing replies with
  | nil => exact triple_pure fun _ => id
  | cons key keys ih =>
    exact triple_bind (triple_removed key (replies 0)) fun _ =>
      triple_bind (triple_delPoint key) fun _ => ih _

/-- A point that `add` stores has the key that was armed, and no hits. -/
theorem point_eq {args : Arguments} {key : Key} {point : Point} (h : args.point key = .ok point) :
    ∃ skip oneshot symbol,
      point = ⟨key.kind, key.address, key.size, 0, skip, oneshot, symbol⟩ := by
  obtain ⟨skip, _, hrest⟩ := bind_eq_ok_iff.mp h
  obtain ⟨oneshot, _, hrest⟩ := bind_eq_ok_iff.mp hrest
  split at hrest
  · cases hrest
  · cases hrest
    exact ⟨_, _, _, rfl⟩

theorem key_point {args : Arguments} {key : Key} {point : Point}
    (h : args.point key = .ok point) : point.key = key := by
  obtain ⟨skip, oneshot, symbol, rfl⟩ := point_eq h
  rfl

/-- The point is stored after the target has armed it, if it is new. -/
theorem keeps_breakpoint (symbols : Text → Option Nat) (args : Arguments)
    (replies : Nat → Reply) : Keeps Mirrors (breakpoint symbols args replies) := by
  unfold breakpoint
  split
  · exact triple_pure fun _ => id
  split
  · exact triple_bind (Q := fun _ => Mirrors) (triple_get fun _ => id)
      fun _ => keeps_clearPoints _ _
  split
  · exact triple_throw fun _ => id
  refine triple_bind (Q := fun _ => Mirrors) (triple_liftExcept (fun _ _ _ => id) fun _ => id)
    fun key => ?_
  split
  · refine triple_bind (Q := fun _ => Mirrors) (triple_get fun _ => id) fun t => ?_
    dsimp only
    have hremove := triple_bind (triple_removed key (replies 0)) fun _ => triple_delPoint key
    split
    · exact triple_bind (Q := fun _ => Mirrors) (triple_throw fun _ => id) fun _ => hremove
    · exact hremove
  · refine triple_bind (Q := fun point s => point.key = key ∧ Mirrors s)
      (triple_liftExcept (fun _ _ h hs => ⟨key_point h, hs⟩) fun _ => id) fun point => ?_
    refine triple_bind (Q := fun t s => point.key = key ∧ t = s ∧ Mirrors s)
      (triple_get fun _ h => ⟨h.1, rfl, h.2⟩) fun t => ?_
    dsimp only
    -- The point is in both sides before it is stored, whether it was new or not.
    have hstore : Triple (fun s => point.key = key ∧ s.keys ∪ {key} = s.armed)
        (modify (·.setPoint point) : Action PUnit) (fun _ => Mirrors) Mirrors := by
      apply triple_modify
      rintro s ⟨hkey, hs⟩
      rw [Mirrors, keys_setPoint, hkey]
      exact hs
    split
    · refine triple_bind (Q := fun _ s => point.key = key ∧ s.keys ∪ {key} = s.armed)
        (triple_insert ?_ ?_) fun _ => hstore
      · rintro s ⟨hkey, _, hs⟩ _
        exact ⟨hkey, congrArg (· ∪ {key}) hs⟩
      · rintro s ⟨_, _, hs⟩ _
        exact hs
    · rename_i hold
      refine hstore.conseq ?_ (fun _ _ => id) fun _ => id
      rintro s ⟨hkey, rfl, hs⟩
      have hmem := mem_keys_of_point?_isSome hold
      refine ⟨hkey, ?_⟩
      rw [Finset.union_eq_left.mpr (Finset.singleton_subset_iff.mpr hmem)]
      exact hs

/-- A one-shot breakpoint leaves the session after it has left the target. -/
theorem keeps_examine (pc removal : Reply) : Keeps Mirrors (examine pc removal) := by
  refine triple_bind (Q := fun _ => Mirrors) (triple_request (fun _ hs _ _ => hs) fun _ hs _ => hs)
    fun reply => ?_
  cases reply with
  | ok | rejected | unsupported => exact triple_throw fun _ => id
  | value pc =>
    refine triple_bind (Q := fun t s => t = s ∧ Mirrors s) (triple_get fun _ h => ⟨rfl, h⟩)
      fun t => ?_
    split
    · exact triple_pure fun _ h => h.2
    · rename_i point hpoint
      have hstored (hits skip : Nat) (s : Session) (hs : Mirrors s ∧ executeKey pc ∈ s.keys) :
          Mirrors (s.setPoint { point with hits := hits, skip := skip }) ∧
            executeKey pc ∈ (s.setPoint { point with hits := hits, skip := skip }).keys := by
        have hkey : ({ point with hits := hits, skip := skip } : Point).key = executeKey pc :=
          (mem_keys_of_point? hpoint).1
        have hsame := mirrors_setPoint hs.1 (hkey ▸ hs.2)
        exact ⟨hsame, by rw [keys_setPoint]; exact Finset.mem_union_left _ hs.2⟩
      refine triple_bind (Q := fun _ s => Mirrors s ∧ executeKey pc ∈ s.keys)
        (triple_modify ?_) fun _ => triple_bind
          (Q := fun _ s => Mirrors s ∧ executeKey pc ∈ s.keys) (triple_get fun _ => id) fun s => ?_
      · rintro s ⟨rfl, hs⟩
        exact hstored _ _ t ⟨hs, (mem_keys_of_point? hpoint).2⟩
      split
      · exact triple_bind (Q := fun _ => Mirrors) (triple_modify fun s hs => (hstored _ _ s hs).1)
          fun _ => triple_pure fun _ => id
      split
      · exact triple_bind ((triple_removed (executeKey pc) removal).conseq (fun _ h => h.1)
          (fun _ _ => id) fun _ => id) fun _ => triple_bind (triple_delPoint _) fun _ =>
          triple_pure fun _ => id
      · exact triple_pure fun _ h => h.1

/-- A stop is examined, then passed or signalled. -/
theorem keeps_processStop (reply : Text) (pc removal : Reply) :
    Keeps Mirrors (processStop reply pc removal) := by
  refine triple_bind (Q := fun _ => Mirrors)
    (triple_tryCatch (keeps_examine pc removal) fun _ => triple_pure fun _ => id) fun resumed =>
    triple_bind (Q := fun _ => Mirrors) (keeps_modify (fun _ => rfl) fun _ => rfl) fun _ => ?_
  cases resumed with
  | true => exact triple_pure fun _ => id
  | false => exact keeps_modify (fun _ => rfl) fun _ => rfl

theorem keeps_rearmRest (rest : List Reply) : Keeps Mirrors (rearmRest rest) := by
  induction rest with
  | nil => exact triple_pure fun _ => id
  | cons reply rest ih =>
    exact triple_bind (Q := fun _ => Mirrors)
      (keeps_request fun _ => by cases reply <;> rfl) fun _ => ih

theorem keeps_rearmPoints (points : List Point) (replies : Nat → Reply) :
    Keeps Mirrors (rearmPoints points replies) := by
  induction points generalizing replies with
  | nil => exact triple_pure fun _ => id
  | cons point points ih =>
    refine triple_bind (Q := fun _ s => s.keys ∪ {point.key} = s.armed)
      (triple_insert (fun s hs _ => congrArg (· ∪ {point.key}) hs) fun _ hs _ => hs)
      fun _ => triple_bind (Q := fun _ => Mirrors) (triple_modify fun s hs => ?_) fun _ => ih _
    rw [Mirrors, keys_setPoint]
    exact hs

/-- The session forgets its points and takes each back as the target arms it. -/
theorem triple_rearm (inserts : Nat → Reply) (rest : List Reply) :
    Triple (fun s => s.armed = ∅) (rearm inserts rest) (fun _ => Mirrors) Mirrors := by
  refine triple_bind (Q := fun _ s => s.armed = ∅) (triple_get fun _ => id) fun t =>
    triple_bind (Q := fun _ => Mirrors) (triple_modify ?_) fun _ =>
    triple_bind (Q := fun _ => Mirrors) (keeps_rearmPoints _ _) fun _ => keeps_rearmRest rest
  intro s hs
  change ∅ = s.armed
  exact hs.symm

theorem keeps_afterCheckpoint (registers : Reply) : Keeps Mirrors (afterCheckpoint registers) :=
  triple_bind (Q := fun _ => Mirrors) (keeps_modify (fun _ => rfl) fun _ => rfl) fun _ =>
    keeps_request fun _ => by cases registers <;> rfl

/-- A refused restore leaves the target alone, another clears it before the points are rearmed. -/
theorem keeps_checkpointRestore (isFile : Bool) (restored : Reply) (inserts : Nat → Reply)
    (rest : List Reply) (registers : Reply) :
    Keeps Mirrors (checkpointRestore isFile restored inserts rest registers) := by
  have hrequest : Triple Mirrors (discard (request .restore restored)) (fun _ s => s.armed = ∅)
      Mirrors := by
    refine triple_bind (Q := fun _ s => s.armed = ∅) (triple_request ?_ ?_) fun _ =>
      triple_pure fun _ => id
    · intro s hs hrejected hunsupported
      cases restored with
      | ok | value n => rfl
      | rejected => exact absurd rfl hrejected
      | unsupported => exact absurd rfl hunsupported
    · rintro s hs (rfl | rfl)
      · exact hs
      · exact hs
  have hrestore := triple_bind hrequest fun _ =>
    triple_bind (Q := fun _ s => s.armed = ∅) (triple_modify (E := Mirrors)
      (f := fun s => { s with lastStop := none }) fun _ hs => hs) fun _ =>
    triple_bind (triple_rearm inserts rest) fun _ => keeps_afterCheckpoint registers
  unfold checkpointRestore
  split
  · exact triple_bind (Q := fun _ => Mirrors) (triple_throw fun _ => id) fun _ => hrestore
  · exact hrestore

/-- How many of the first `n` replies are `OK` before another comes. -/
def leading (replies : Nat → Reply) : Nat → Nat
  | 0 => 0
  | n + 1 => if replies 0 = .ok then leading (later replies) n + 1 else 0

/-- While a save is under way, the session's points are the armed and the lifted ones. -/
def Lifting (lifted : Nat) (s : Session) : Prop :=
  s.keys = s.armed ∪ s.lifted.toFinset ∧ s.lifted.length = lifted

/-- The loop lifts the points up to the first refusal. -/
theorem triple_liftPoints (keys : List Key) (replies : Nat → Reply) (n : Nat) :
    Triple (fun s => keys.toFinset ⊆ s.keys ∧ Lifting n s) (liftPoints keys replies)
      (fun _ => Lifting (n + leading replies keys.length))
      (Lifting (n + leading replies keys.length)) := by
  induction keys generalizing replies n with
  | nil => exact triple_pure fun _ h => h.2
  | cons key keys ih =>
    by_cases hreply : replies 0 = .ok
    · have hcount : n + leading replies (key :: keys).length =
          n + 1 + leading (later replies) keys.length := by
        simp only [List.length_cons, leading, if_pos hreply]
        omega
      rw [hcount]
      refine triple_bind (Q := fun _ s => keys.toFinset ⊆ s.keys ∧
          s.keys = s.armed ∪ (s.lifted ++ [key]).toFinset ∧ s.lifted.length = n)
        (triple_remove ?_ fun _ _ h => absurd hreply h) fun _ =>
        triple_bind (Q := fun _ s => keys.toFinset ⊆ s.keys ∧ Lifting (n + 1) s)
          (triple_modify ?_) fun _ => ih _ _
      · rintro s ⟨hsub, hkeys, hlength⟩ _
        rw [List.toFinset_cons, Finset.insert_subset_iff] at hsub
        refine ⟨hsub.2, ?_, hlength⟩
        change s.keys = s.armed.erase key ∪ (s.lifted ++ [key]).toFinset
        ext other
        by_cases hother : other = key
        · simp [hother, hsub.1]
        · simp [hother, hkeys]
      · rintro s ⟨hsub, hkeys, hlength⟩
        exact ⟨hsub, hkeys, by simp [hlength]⟩
    · have hcount : n + leading replies (key :: keys).length = n := by
        simp only [List.length_cons, leading, if_neg hreply, Nat.add_zero]
      rw [hcount]
      exact triple_bind (Q := fun _ _ => False)
        (triple_remove (fun _ _ h => absurd h hreply) fun _ hs _ => hs.2) fun _ _ h => h.elim

/-- If every point put back is acknowledged, the two sides are in step again. -/
theorem triple_putBack (keys : List Key) (replies : Nat → Reply)
    (hok : ∀ i < keys.length, replies i = .ok) :
    Triple (fun s => s.keys = s.armed ∪ keys.toFinset) (putBack keys replies) (fun _ => Mirrors)
      Mirrors := by
  induction keys generalizing replies with
  | nil =>
    apply triple_pure
    intro s hs
    rw [List.toFinset_nil, Finset.union_empty] at hs
    exact hs
  | cons key keys ih =>
    refine triple_bind (Q := fun _ s => s.keys = s.armed ∪ keys.toFinset)
      (triple_insert ?_ fun _ _ h => absurd (hok 0 (by simp)) h) fun _ =>
      ih _ fun i hi => hok (i + 1) (by simpa using hi)
    intro s hs _
    change s.keys = _
    rw [hs, List.toFinset_cons, Finset.insert_eq, Finset.union_assoc]

/-- A save lifts points and puts exactly those back. -/
theorem keeps_checkpointSave {points : Nat} {lifts inserts : Nat → Reply} (saved : Reply)
    (registers : Reply) (hok : ∀ i < leading lifts points, inserts i = .ok) :
    Triple (fun s => s.points.length = points ∧ Mirrors s)
      (checkpointSave lifts saved inserts registers) (fun _ => Mirrors) Mirrors := by
  have hlift : Triple (fun s => s.points.length = points ∧ Lifting 0 s) (do
        liftPoints ((← get).points.map Point.key) lifts
        discard (request .save saved))
      (fun _ => Lifting (leading lifts points)) (Lifting (leading lifts points)) := by
    refine triple_bind (Q := fun t s => t = s ∧ t.points.length = points ∧ Lifting 0 t)
      (triple_get fun _ h => ⟨rfl, h⟩) fun t => triple_bind
        (Q := fun _ => Lifting (leading lifts points)) ?_ fun _ => ?_
    · by_cases hlength : t.points.length = points
      · have hall := triple_liftPoints (t.points.map Point.key) lifts 0
        rw [List.length_map, hlength, Nat.zero_add] at hall
        refine hall.conseq ?_ (fun _ _ => id) fun _ => id
        rintro s ⟨rfl, _, hs⟩
        exact ⟨Finset.Subset.refl _, hs⟩
      · rintro s ⟨_, hs, _⟩
        exact absurd hs hlength
    · refine triple_bind (Q := fun _ => Lifting (leading lifts points))
        (triple_request (fun _ hs _ _ => ?_) fun _ hs _ => ?_) fun _ => triple_pure fun _ => id
      · cases saved <;> exact hs
      · cases saved <;> exact hs
  have hback : Triple (Lifting (leading lifts points))
      (do putBack (← get).lifted inserts) (fun _ => Mirrors) Mirrors := by
    refine triple_bind (Q := fun t s => t = s ∧ Lifting (leading lifts points) t)
      (triple_get fun _ h => ⟨rfl, h⟩) fun t => ?_
    by_cases hlength : t.lifted.length = leading lifts points
    · refine (triple_putBack t.lifted inserts fun i hi => hok i (by omega)).conseq ?_
        (fun _ _ => id) fun _ => id
      rintro s ⟨rfl, hs⟩
      exact hs.1
    · rintro s ⟨_, hs⟩
      exact absurd hs.2 hlength
  refine triple_bind (Q := fun _ s => s.points.length = points ∧ Lifting 0 s) (triple_modify ?_)
    fun _ => triple_bind (Q := fun _ => Mirrors)
      (triple_tryFinally hlift (fun _ => hback) hback) fun _ => keeps_afterCheckpoint registers
  rintro s ⟨hlength, hs⟩
  refine ⟨hlength, ?_, rfl⟩
  rw [List.toFinset_nil, Finset.union_empty]
  exact hs

/-- The operations that change points, with the replies they are given. -/
inductive Operation where
  | breakpoint (args : Arguments) (replies : Nat → Reply)
  /-- A stop reply, and the answers to `p11` and to the removal of a one-shot breakpoint. -/
  | stop (reply : Text) (pc removal : Reply)
  | save (lifts : Nat → Reply) (saved : Reply) (inserts : Nat → Reply) (registers : Reply)
  | restore (isFile : Bool) (restored : Reply) (inserts : Nat → Reply) (rest : List Reply)
    (registers : Reply)
  /-- `rearm` on a target that has lost its points, as it has after a reset. -/
  | rearm (inserts : Nat → Reply) (rest : List Reply)

/-- What an operation runs under the lock. -/
def Operation.action (symbols : Text → Option Nat) : Operation → Action PUnit
  | .breakpoint args replies => Winuae.breakpoint symbols args replies
  | .stop reply pc removal => do
    if (← get).asksForPc reply then
      modify fun s => { s with processing := s.processing + 1 }
      processStop reply pc removal
    else modify (·.signalStop reply)
  | .save lifts saved inserts registers => checkpointSave lifts saved inserts registers
  | .restore isFile restored inserts rest registers =>
    checkpointRestore isFile restored inserts rest registers
  | .rearm inserts rest => do
    modify fun s => { s with armed := ∅ }
    Winuae.rearm inserts rest

/-- An operation ends, by returning or by raising. -/
def Session.step (symbols : Text → Option Nat) (s : Session) (op : Operation) : Option Session :=
  some ((op.action symbols).outcome s).2

/-- A new connection to a paused target. -/
def Session.start : Session where
  points := []
  execution := .stopped
  runMode := none
  interrupting := false
  stopSet := true
  generation := 0
  processing := 0
  lastStop := none
  lifted := []
  armed := ∅

/-- Every point that a save has lifted is put back. -/
def Permitted (s : Session) : Operation → Prop
  | .save lifts _ inserts _ => ∀ i < leading lifts s.points.length, inserts i = .ok
  | _ => True

theorem triple_state {P : Session → Prop} {x : Action PUnit}
    (h : Triple P x (fun _ => Mirrors) Mirrors) {s : Session} (hs : P s) :
    Mirrors (x.outcome s).2 := by
  have hexit := h s hs
  revert hexit
  rcases x.outcome s with ⟨r, s'⟩
  cases r with
  | ok a => exact id
  | error e => exact id

theorem mirrors_step {symbols : Text → Option Nat} {s s' : Session} {op : Operation}
    (h : Mirrors s) (hpermitted : Permitted s op) (hstep : s.step symbols op = some s') :
    Mirrors s' := by
  cases hstep
  cases op with
  | breakpoint args replies => exact triple_state (keeps_breakpoint symbols args replies) h
  | stop reply pc removal =>
    refine triple_state (P := Mirrors) (triple_bind (Q := fun _ => Mirrors)
      (triple_get fun _ => id) fun t => ?_) h
    split
    · exact triple_bind (Q := fun _ => Mirrors) (keeps_modify (fun _ => rfl) fun _ => rfl)
        fun _ => keeps_processStop reply pc removal
    · exact keeps_modify (fun _ => rfl) fun _ => rfl
  | save lifts saved inserts registers =>
    exact triple_state (keeps_checkpointSave saved registers hpermitted) ⟨rfl, h⟩
  | restore isFile restored inserts rest registers =>
    exact triple_state (keeps_checkpointRestore isFile restored inserts rest registers) h
  | rearm inserts rest =>
    exact triple_state (P := fun _ => True) (triple_bind (Q := fun _ s => s.armed = ∅)
      (triple_modify fun _ _ => rfl) fun _ => triple_rearm inserts rest) trivial

/-- After each operation of a run in which lifted points are put back, the session's points are
those armed in the target, whatever else was refused. -/
theorem session_mirrors_target {symbols : Text → Option Nat} {s : Session}
    (hrun : Reaches (Session.step symbols) Permitted .start s) : Mirrors s :=
  hrun.invariant Mirrors rfl fun _ _ _ => mirrors_step

instance (s : Session) : (op : Operation) → Decidable (Permitted s op)
  | .save _ _ _ _ => inferInstanceAs (Decidable (∀ i < _, _))
  | .breakpoint _ _ | .stop _ _ _ | .restore _ _ _ _ _ | .rearm _ _ => isTrue trivial

/-- Add an execute breakpoint. -/
def addBreakpoint (address : Nat) (oneshot : Bool) (reply : Reply) : Operation :=
  .breakpoint ⟨"add".toList, some (.int address), "execute".toList, .int 1, .int 0, .bool oneshot,
    none⟩ fun _ => reply

/-- Two breakpoints, one of them for one stop, and a save whose second lift is refused. -/
theorem session_mirrors_target_save :
    ∃ s, Reaches (Session.step fun _ => none) Permitted .start s ∧
      s.points.map Point.key = [executeKey 4096, executeKey 8192] ∧ Mirrors s := by
  have hend : (runLabels (Session.step fun _ => none) .start
      [addBreakpoint 4096 false .ok, addBreakpoint 16384 true .ok, addBreakpoint 20480 false .rejected,
        .stop "S05".toList (.value 16384) .ok, addBreakpoint 8192 false .ok,
        .save (fun i => if i = 0 then .ok else .rejected) .ok (fun _ => .ok) .ok]).map
          (fun s => s.points.map Point.key) = some [executeKey 4096, executeKey 8192] := by
    decide
  have hpermitted : AllPermitted (Session.step fun _ => none) Permitted .start
      [addBreakpoint 4096 false .ok, addBreakpoint 16384 true .ok, addBreakpoint 20480 false .rejected,
        .stop "S05".toList (.value 16384) .ok, addBreakpoint 8192 false .ok,
        .save (fun i => if i = 0 then .ok else .rejected) .ok (fun _ => .ok) .ok] := by
    decide
  obtain ⟨s, hrun, hpoints⟩ := Option.map_eq_some_iff.mp hend
  have hreaches := Reaches.refl.of_labels hrun hpermitted
  exact ⟨s, hreaches, hpoints, session_mirrors_target hreaches⟩

/-- A point that is not put back after a save stays in the session. -/
theorem session_not_mirrors_target :
    ¬ ∀ s, Reaches (Session.step fun _ => none) (fun _ _ => True) .start s → Mirrors s := by
  intro hall
  have hend : (runLabels (Session.step fun _ => none) .start
      [addBreakpoint 4096 false .ok, .save (fun _ => .ok) .ok (fun _ => .rejected) .ok]).map
        (fun s => (s.keys, s.armed)) = some ({executeKey 4096}, ∅) := by decide
  obtain ⟨s, hrun, hsides⟩ := Option.map_eq_some_iff.mp hend
  obtain ⟨hkeys, harmed⟩ := Prod.mk.inj hsides
  have hmirrors := hall s (Reaches.refl.of_labels hrun (allPermitted_true ..))
  rw [Mirrors, hkeys, harmed] at hmirrors
  exact absurd hmirrors (by decide)

end AmigaDevbench.Winuae
