import AmigaDevbench.Host.Winuae.Points

/-!
# Operations on a target that acknowledges everything

With every request answered, each operation is an equation on the session: what is stored, what is
gone on both sides, and what a stop does to the breakpoint at its PC.
-/

namespace AmigaDevbench.Winuae

open Raises

/-- The replies of a target that acknowledges everything. -/
def allOk : Nat → Reply := fun _ => .ok

/-- The session behind an action. -/
def Session.after (s : Session) (x : Action PUnit) : Session := (x.outcome s).2

/-- The point that `breakpoint add` stores. -/
def Arguments.added (args : Arguments) (symbols : Text → Option Nat) : Option Point :=
  if args.operation = "add".toList then
    (args.key symbols >>= args.point).toOption
  else none

section Sessions

variable (s : Session) (p : Point) (key : Key)

/-- Replacing the value of a key is seen under that key only. -/
theorem find?_replace (points : List Point) :
    (points.map fun q => if q.key = p.key then p else q).find? (·.key = key) =
      if p.key = key ∧ points.any (·.key = p.key) then some p
      else points.find? (·.key = key) := by
  induction points with
  | nil => simp
  | cons q points ih =>
    by_cases hq : q.key = p.key <;> by_cases hp : p.key = key <;>
      simp_all [List.find?_cons]

theorem point?_setPoint :
    (s.setPoint p).point? key = if p.key = key then some p else s.point? key := by
  unfold Session.point? Session.setPoint
  by_cases hany : s.points.any (·.key = p.key) = true
  · simp only [hany, if_true, find?_replace, and_true]
  · simp only [hany, Bool.false_eq_true, if_false, List.find?_append]
    have hnone : s.points.find? (·.key = p.key) = none := by
      simpa [List.find?_eq_none] using hany
    by_cases hp : p.key = key
    · subst hp
      simp [hnone]
    · simp [hp]

/-- Points whose keys are among the gone ones are not found, the others are. -/
theorem find?_gone (points : List Point) (gone : List Key) :
    (points.filter (·.key ∉ gone)).find? (·.key = key) =
      if key ∈ gone then none else points.find? (·.key = key) := by
  rw [List.find?_filter]
  split
  · rename_i hgone
    refine List.find?_eq_none.mpr fun q _ => ?_
    grind
  · congr 1
    funext q
    grind

theorem point?_isSome : (s.point? key).isSome = true ↔ key ∈ s.keys := by
  rw [mem_keys]
  simp [Session.point?, List.find?_isSome]

theorem point?_isNone : (s.point? key).isNone = true ↔ key ∉ s.keys := by
  rw [← point?_isSome, Bool.not_eq_true, ← Option.not_isSome, Bool.not_eq_true']

theorem nodup_setPoint (h : (s.points.map Point.key).Nodup) :
    ((s.setPoint p).points.map Point.key).Nodup := by
  unfold Session.setPoint
  by_cases hany : s.points.any (·.key = p.key) = true
  · have hsame : (s.points.map fun q => if q.key = p.key then p else q).map Point.key =
        s.points.map Point.key := by
      rw [List.map_map]
      refine List.map_congr_left fun q _ => ?_
      simp only [Function.comp_apply]
      split
      · rename_i hkey
        exact hkey.symm
      · rfl
    simpa only [hany, if_true, hsame] using h
  · have hnew : p.key ∉ s.points.map Point.key := by
      intro hmem
      obtain ⟨q, hq, hkey⟩ := List.mem_map.mp hmem
      exact hany (List.any_eq_true.mpr ⟨q, hq, decide_eq_true hkey⟩)
    simp only [hany, Bool.false_eq_true, if_false, List.map_append, List.map_cons, List.map_nil]
    exact List.nodup_append.mpr ⟨h, List.nodup_singleton _, fun a ha b hb => by
      rw [List.mem_singleton.mp hb]
      exact fun heq => hnew (heq ▸ ha)⟩

end Sessions

/-- The session and the target without some points. -/
def Session.without (s : Session) (gone : List Key) : Session :=
  { s with points := s.points.filter (·.key ∉ gone), armed := s.armed \ gone.toFinset }

theorem point?_without (s : Session) (gone : List Key) (key : Key) :
    (s.without gone).point? key = if key ∈ gone then none else s.point? key :=
  find?_gone key s.points gone

theorem nodup_without {s : Session} (h : (s.points.map Point.key).Nodup) (gone : List Key) :
    ((s.without gone).points.map Point.key).Nodup :=
  h.sublist (List.filter_sublist.map _)

/-- A stored point has not been hit. -/
theorem hits_added {symbols : Text → Option Nat} {args : Arguments} {p : Point}
    (h : args.added symbols = some p) : p.hits = 0 := by
  obtain ⟨_, h⟩ := Option.ite_none_right_eq_some.mp h
  have hstored : args.key symbols >>= args.point = .ok p := by
    revert h
    cases args.key symbols >>= args.point with
    | ok q => exact fun h => congrArg Except.ok (Option.some.inj h)
    | error e => exact fun h => nomatch h
  obtain ⟨key, _, hpoint⟩ := bind_eq_ok_iff.mp hstored
  obtain ⟨skip, oneshot, symbol, rfl⟩ := point_eq hpoint
  rfl

/-- The session with a point armed, if it is new, and stored. -/
def Session.with (s : Session) (p : Point) : Session :=
  { s with armed := s.armed ∪ {p.key} }.setPoint p

section Acknowledged

variable (s : Session)

@[simp] theorem outcome_ok (command : Command) :
    (ok command .ok).outcome s = (.ok ⟨⟩, s.asked command .ok) := rfl

@[simp] theorem later_allOk : later allOk = allOk := rfl

@[simp] theorem allOk_eq (n : Nat) : allOk n = .ok := rfl

theorem without_nil : s.without [] = s := by
  simp [Session.without]

theorem without_cons (key : Key) (keys : List Key) :
    ((s.asked (.remove key) .ok).delPoint key).without keys = s.without (key :: keys) := by
  simp only [Session.without, Session.delPoint, Session.asked, Command.effect, List.filter_filter,
    List.toFinset_cons, Finset.sdiff_insert, Finset.erase_sdiff_comm]
  congr 1
  refine List.filter_congr fun q _ => ?_
  grind

/-- Every point of the loop is gone on both sides. -/
theorem outcome_clearPoints (keys : List Key) :
    (clearPoints keys allOk).outcome s = (.ok ⟨⟩, s.without keys) := by
  induction keys generalizing s with
  | nil => rw [without_nil]; rfl
  | cons key keys ih =>
    simp only [clearPoints, outcome_bind, allOk_eq, outcome_ok, outcome_modify, later_allOk, ih,
      without_cons]

theorem outcome_liftPoints (keys : List Key) :
    (liftPoints keys allOk).outcome s = (.ok ⟨⟩,
      { s with lifted := s.lifted ++ keys, armed := s.armed \ keys.toFinset }) := by
  induction keys generalizing s with
  | nil => simp [liftPoints]
  | cons key keys ih =>
    simp only [liftPoints, outcome_bind, allOk_eq, outcome_ok, outcome_modify, later_allOk, ih,
      Session.asked, Command.effect, List.append_assoc, List.singleton_append, List.toFinset_cons,
      Finset.sdiff_insert, Finset.erase_sdiff_comm]

theorem outcome_putBack (keys : List Key) :
    (putBack keys allOk).outcome s = (.ok ⟨⟩, { s with armed := s.armed ∪ keys.toFinset }) := by
  induction keys generalizing s with
  | nil => simp [putBack]
  | cons key keys ih =>
    simp only [putBack, outcome_bind, allOk_eq, outcome_ok, later_allOk, ih, Session.asked,
      Command.effect, List.toFinset_cons, Finset.insert_eq, Finset.union_assoc]

/-- The points come back in their order. -/
theorem outcome_rearmPoints (points : List Point)
    (hnodup : ((s.points ++ points).map Point.key).Nodup) :
    (rearmPoints points allOk).outcome s = (.ok ⟨⟩,
      { s with
        points := s.points ++ points
        armed := s.armed ∪ (points.map Point.key).toFinset }) := by
  induction points generalizing s with
  | nil => simp [rearmPoints]
  | cons point points ih =>
    have hnew : s.points.any (·.key = point.key) = false := by
      rw [List.any_eq_false]
      intro q hq heq
      rw [List.map_append, List.map_cons, List.nodup_append] at hnodup
      exact hnodup.2.2 q.key (List.mem_map_of_mem hq) point.key List.mem_cons_self
        (of_decide_eq_true heq)
    have hstored : (s.asked (.insert point.key) .ok).setPoint point =
        { s with points := s.points ++ [point], armed := s.armed ∪ {point.key} } := by
      simp only [Session.setPoint, Session.asked, Command.effect, hnew, Bool.false_eq_true,
        if_false]
    simp only [rearmPoints, outcome_bind, allOk_eq, outcome_ok, outcome_modify, later_allOk,
      hstored]
    rw [ih _ (by simpa using hnodup)]
    simp only [List.append_assoc, List.singleton_append, List.map_cons, List.toFinset_cons,
      Finset.insert_eq, Finset.union_assoc]

/-- The monitor commands behind `rearm` change nothing here. -/
theorem outcome_rearmRest (rest : List Reply) : ((rearmRest rest).outcome s).2 = s := by
  induction rest with
  | nil => rfl
  | cons reply rest ih =>
    cases reply with
    | ok | value n =>
      rw [rearmRest, outcome_bind]
      exact ih
    | rejected | unsupported => rfl

theorem outcome_afterCheckpoint (registers : Reply) :
    ((afterCheckpoint registers).outcome s).2 =
      { s with execution := .stopped, stopSet := true } := by
  cases registers <;> rfl

@[simp] theorem outcome_liftExcept {α : Type} (r : Except DebugError α) :
    (liftExcept r : Action α).outcome s = (r, s) := by
  cases r <;> rfl

/-- A breakpoint operation stores a point, armed if it is new, or takes points away. -/
theorem outcome_breakpoint (symbols : Text → Option Nat) (args : Arguments) :
    s.after (breakpoint symbols args allOk) =
      if args.operation = "list".toList then s
      else if args.operation = "clear".toList then s.without (s.points.map Point.key)
      else if args.operation ≠ "add".toList ∧ args.operation ≠ "remove".toList then s
      else match args.key symbols with
        | .error _ => s
        | .ok key =>
          if args.operation = "remove".toList then if key ∈ s.keys then s.without [key] else s
          else match args.point key with
            | .error _ => s
            | .ok p => if key ∈ s.keys then s.setPoint p else s.with p := by
  unfold Session.after breakpoint
  split
  · rfl
  split
  · simp only [outcome_bind, outcome_get, outcome_clearPoints]
  split
  · rfl
  rw [outcome_bind, outcome_liftExcept]
  cases hkey : args.key symbols with
  | error e => rfl
  | ok key =>
    dsimp only
    split
    · simp only [outcome_bind, outcome_get, point?_isNone, allOk_eq]
      by_cases hmem : key ∈ s.keys
      · rw [if_neg (not_not.mpr hmem), if_pos hmem, ← without_cons, without_nil]
        rfl
      · rw [if_pos hmem, if_neg hmem]
        rfl
    · rw [outcome_bind, outcome_liftExcept]
      cases hpoint : args.point key with
      | error e => rfl
      | ok p =>
        simp only [outcome_bind, outcome_get, point?_isNone, allOk_eq]
        by_cases hmem : key ∈ s.keys
        · rw [if_neg (not_not.mpr hmem), if_pos hmem]
          rfl
        · rw [if_pos hmem, if_neg hmem, Session.with, key_point hpoint]
          rfl

/-- Either the point that the ledger is opened for is stored, or some points are gone. -/
theorem breakpoint_cases (symbols : Text → Option Nat) (args : Arguments) :
    (∃ p, args.added symbols = some p ∧
      s.after (breakpoint symbols args allOk) =
        if p.key ∈ s.keys then s.setPoint p else s.with p) ∨
    args.added symbols = none ∧
      ∃ gone, s.after (breakpoint symbols args allOk) = s.without gone := by
  have hsame : ∃ gone, s = s.without gone := ⟨[], (without_nil s).symm⟩
  rw [outcome_breakpoint]
  unfold Arguments.added
  by_cases hadd : args.operation = "add".toList
  · have hlist : args.operation ≠ "list".toList := by rw [hadd]; decide
    have hclear : args.operation ≠ "clear".toList := by rw [hadd]; decide
    have hremove : args.operation ≠ "remove".toList := by rw [hadd]; decide
    have hother : ¬ (args.operation ≠ "add".toList ∧ args.operation ≠ "remove".toList) :=
      fun h => h.1 hadd
    simp only [if_neg hlist, if_neg hclear, if_neg hother, if_neg hremove, if_pos hadd]
    cases args.key symbols with
    | error e => exact .inr ⟨rfl, hsame⟩
    | ok key =>
      have hadded : (Except.ok key >>= args.point).toOption = (args.point key).toOption := rfl
      rw [hadded]
      dsimp only
      cases hpoint : args.point key with
      | error e => exact .inr ⟨rfl, hsame⟩
      | ok p => exact .inl ⟨p, rfl, by rw [key_point hpoint]⟩
  · refine .inr ⟨if_neg hadd, ?_⟩
    split
    · exact hsame
    split
    · exact ⟨_, rfl⟩
    split
    · exact hsame
    split
    · exact hsame
    split
    · split
      · exact ⟨_, rfl⟩
      · exact hsame
    · rename_i hnot _ _ _ hremove
      exact absurd ⟨hadd, hremove⟩ hnot

/-- A restore leaves the points as they were, whether it is refused or not. -/
theorem restore_after (hmirrors : Mirrors s) (hnodup : (s.points.map Point.key).Nodup)
    (hstopped : s.execution = .stopped) (hset : s.stopSet = true) (isFile accepted : Bool)
    (rest : List Reply) (registers : Reply) :
    ∃ lastStop, s.after (checkpointRestore isFile (if accepted then .ok else .rejected) allOk rest
      registers) = { s with lastStop := lastStop } := by
  cases isFile with
  | false => exact ⟨s.lastStop, rfl⟩
  | true =>
    cases accepted with
    | false => exact ⟨s.lastStop, rfl⟩
    | true =>
      refine ⟨none, ?_⟩
      have hrearm : (rearmPoints s.points allOk).outcome
          { s with points := [], armed := ∅, lastStop := none } =
          (.ok ⟨⟩, { s with lastStop := none }) := by
        rw [outcome_rearmPoints _ _ (by simpa using hnodup)]
        simp only [List.nil_append, Finset.empty_union]
        rw [show (s.points.map Point.key).toFinset = s.armed from hmirrors]
      have htail : (((rearm allOk rest >>= fun _ => afterCheckpoint registers) :
          Action PUnit).outcome { s with armed := ∅, lastStop := none }).2 =
          { s with lastStop := none } := by
        unfold rearm
        simp only [outcome_bind, outcome_get, outcome_modify, hrearm]
        have hrest := outcome_rearmRest { s with lastStop := none } rest
        rcases hout : (rearmRest rest).outcome { s with lastStop := none } with ⟨r, s'⟩
        rw [hout] at hrest
        subst hrest
        cases r with
        | ok a =>
          change ((afterCheckpoint registers).outcome _).2 = _
          rw [outcome_afterCheckpoint, ← hstopped, ← hset]
        | error e => rfl
      exact htail

/-- What `_process_stop` makes of a PC: whether it passes the stop, and the session. -/
def Session.examined (s : Session) (pc : Nat) : Bool × Session :=
  match s.point? (executeKey pc) with
  | none => (false, s)
  | some p =>
    if p.skip ≠ 0 ∧ s.runMode = some .cont ∧ s.interrupting = false then
      (true, s.setPoint { p with hits := p.hits + 1, skip := p.skip - 1 })
    else if p.oneshot then
      (false, (s.setPoint { p with hits := p.hits + 1 }).without [executeKey pc])
    else (false, s.setPoint { p with hits := p.hits + 1 })

/-- The last value stored under a key stays. -/
theorem setPoint_setPoint {p q : Point} (h : p.key = q.key) :
    (s.setPoint p).setPoint q = s.setPoint q := by
  unfold Session.setPoint
  by_cases hany : s.points.any (·.key = q.key) = true
  · have hreplaced : (s.points.map fun r => if r.key = q.key then p else r).any
        (·.key = q.key) = true := by
      obtain ⟨r, hr, hkey⟩ := List.any_eq_true.mp hany
      refine List.any_eq_true.mpr ⟨_, List.mem_map_of_mem hr, ?_⟩
      rw [if_pos (of_decide_eq_true hkey), h]
      exact decide_eq_true rfl
    simp only [h, hany, hreplaced, if_true, List.map_map]
    congr 1
    refine List.map_congr_left fun r _ => ?_
    simp only [Function.comp_apply]
    by_cases hr : r.key = q.key
    · simp only [if_pos hr, h, if_true]
    · simp only [if_neg hr]
  · have hnone : ∀ r ∈ s.points, (if r.key = q.key then q else r) = r := by
      intro r hr
      refine if_neg fun hkey => hany (List.any_eq_true.mpr ⟨r, hr, decide_eq_true hkey⟩)
    simp only [h, hany, Bool.false_eq_true, if_false, List.any_append, List.any_cons,
      decide_true, Bool.true_or, Bool.or_true, if_true, List.map_append, List.map_cons,
      List.map_nil, List.map_congr_left hnone, List.map_id']

theorem outcome_examine (pc : Nat) : (examine (.value pc) .ok).outcome s =
    (.ok (s.examined pc).1, (s.examined pc).2) := by
  unfold examine Session.examined
  rw [outcome_bind]
  change (match s.point? (executeKey pc) with
    | none => pure false
    | some p => _ : Action Bool).outcome s = _
  cases hpoint : s.point? (executeKey pc) with
  | none => rfl
  | some p =>
    simp only [outcome_bind, outcome_modify, outcome_get]
    change Raises.outcome (if p.skip ≠ 0 ∧ s.runMode = some .cont ∧ s.interrupting = false then _
      else _) _ = _
    split
    · rename_i hskip
      simp only [outcome_bind, outcome_modify, outcome_pure]
      rw [setPoint_setPoint s (by rfl)]
    split
    · simp only [outcome_bind, outcome_modify, outcome_pure, outcome_ok]
      rw [← without_cons, without_nil]
    · rfl

theorem processStop_after (reply : Text) (pc : Nat) :
    s.after (processStop reply (.value pc) .ok) =
      let s' := (s.examined pc).2
      if (s.examined pc).1 then { s' with processing := s'.processing - 1 }
      else { s' with processing := s'.processing - 1 }.signalStop reply := by
  unfold Session.after processStop
  rw [outcome_bind, outcome_tryCatch, outcome_examine]
  cases (s.examined pc).1 with
  | true => rfl
  | false => rfl

end Acknowledged

end AmigaDevbench.Winuae
