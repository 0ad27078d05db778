import AmigaDevbench.Host.Winuae.Dwarf.Expression

/-!
# Unwinding a frame

The CFI row of a program counter says where the caller's registers are. What the helper returns
for a frame is the caller that the row defines. What gets past its handler comes from an operation
of the CFA expression that finds too few operands.
-/

namespace AmigaDevbench.Winuae

namespace Dwarf

open Raises HunkLoad Bytes

/-- A register rule of a CFI row. -/
inductive RegisterRule where
  | offset (n : Int)
  | valOffset (n : Int)
  | sameValue
  | register (reg : Nat)
  | undefined
  /-- `EXPRESSION`, `VAL_EXPRESSION` and `ARCHITECTURAL` -/
  | other (type : String)
  deriving DecidableEq

/-- The rule for the CFA. A row without one has no register. -/
inductive CfaRule where
  | expression (expr : Expression)
  | register (reg : Option Nat) (offset : Int)

/-- A row of a decoded table: the keys `pc` and `cfa`, and those of the registers. -/
structure Row where
  pc : Nat
  cfa : CfaRule
  rules : List (Nat × RegisterRule)
  nodup : (rules.map Prod.fst).Nodup

/-- An entry of the CFI. -/
structure Entry where
  initialLocation : Nat
  addressRange : Nat
  /-- What `get_decoded` makes of the entry: the table, or the message of its error. -/
  decoded : Except String (List Row)
  /-- `return_address_register` of the CIE. -/
  returnColumn : Nat

/-- A line of the line table. -/
structure SourceLine where
  file : String
  directory : String
  line : Nat
  column : Nat
  deriving DecidableEq

/-- The reply of `source`. -/
structure Source where
  address : Int
  linkedAddress : Int
  functions : List (Option String)
  locations : List SourceLine
  deriving DecidableEq

/-- What the helper works on. -/
structure Analysis where
  maps : List Mapping
  guest : Guest
  cfi : List Entry
  pc : Int
  regs : Registers
  /-- The functions and lines that the debug data give for a linked address, or the message of
  the error that is raised for it. -/
  lines : Int → Except String (List (Option String) × List SourceLine)

variable (a : Analysis)

/-- `source`. -/
def Analysis.source (runtimePc : Int) : Except Raised Source := do
  let pc ← translate a.maps runtimePc true
  let (functions, locations) ← (a.lines pc).mapError valueError
  return ⟨runtimePc, pc, functions, locations⟩

/-- The rows of the entry for a linked address that begin at or before it. -/
def Entry.eligible (linked : Int) (rows : List Row) : List Row := rows.filter (·.pc ≤ linked)

/-- The first entry that covers a linked address. -/
def Analysis.entryAt (linked : Int) : Option Entry :=
  a.cfi.find? fun e => e.initialLocation ≤ linked ∧ linked < e.initialLocation + e.addressRange

/-- The row in `frame_rule`. -/
def Analysis.rowAt (pc : Int) : Except Raised (Entry × Row) := do
  let linked ← translate a.maps pc true
  match a.entryAt linked with
  | none => throw (valueError "No CFI for this instruction; no stack-scan fallback")
  | some entry =>
    let rows ← entry.decoded.mapError valueError
    if rows.length > 65536 then throw (valueError "CFI row budget exceeded")
    else match (Entry.eligible linked rows).getLast? with
      | none => throw (valueError "No CFI row for this instruction")
      | some row => return (entry, row)

/-- The context of a CFA expression. -/
def Analysis.context (regs : Registers) : Context := ⟨a.maps, a.guest, regs, none, none⟩

/-- The CFA in `frame_rule`. -/
def Analysis.cfaOf (regs : Registers) : CfaRule → Helper Int
  | .expression expr => do
    let (cfa, kind) ← evaluate (a.context regs) expr
    if kind ≠ .address then throw (valueError "Invalid CFA expression") else return cfa
  | .register reg offset =>
    match reg.bind regs with
    | none => throw (valueError "CFA uses an unavailable register")
    | some value => return value + offset

/-- `frame_rule`. -/
def Analysis.frameRule (pc : Int) (regs : Registers) : Helper (Row × Int × Nat) := do
  let (entry, row) ← liftExcept (a.rowAt pc)
  let cfa ← a.cfaOf regs row.cfa
  let _ ← liftExcept (checked cfa 0xffffffff)
  if cfa % 2 ≠ 0 then throw (valueError "Unaligned CFA")
  else return (row, cfa, entry.returnColumn)

/-- `CALLEE_SAVED`. -/
def calleeSaved : List Nat := [2, 3, 4, 5, 6, 7, 10, 11, 12, 13, 14]

/-- `caller[reg] = value`. -/
def Registers.set (regs : Registers) (reg : Nat) (value : Option Int) : Registers :=
  fun r => if r = reg then value else regs r

/-- What a rule gives for a register of the caller; `none` takes the register away. -/
def Analysis.restore (regs : Registers) (cfa : Int) (reg : Nat) :
    RegisterRule → Helper (Option Int)
  | .offset n => do return some (← readLong a.guest (cfa + n))
  | .valOffset n => do return some (← liftExcept (checked (cfa + n) 0xffffffff))
  | .sameValue =>
    match regs reg with
    | none => throw (valueError "Unavailable preserved register")
    | some value => return some value
  | .register saved =>
    match regs saved with
    | none => throw (valueError "Unavailable saved register")
    | some value => return some value
  | .undefined => return none
  | .other type => throw (valueError ("Unsupported unwind rule: " ++ type))

/-- The loop over the row. -/
def Analysis.applyRules (regs : Registers) (cfa : Int) (returnColumn : Nat) :
    List (Nat × RegisterRule) → Registers → Helper Registers
  | [], caller => return caller
  | (reg, rule) :: rules, caller =>
    if reg < 16 ∨ reg = returnColumn then do
      let value ← a.restore regs cfa reg rule
      applyRules regs cfa returnColumn rules (caller.set reg value)
    else applyRules regs cfa returnColumn rules caller

/-- The registers that a caller has before the rules. -/
def Registers.saved (regs : Registers) : Registers :=
  fun reg => if reg ∈ calleeSaved then regs reg else none

/-- The caller behind a frame rule. -/
def Analysis.stepOut (regs : Registers) (row : Row) (cfa : Int) (returnColumn : Nat) :
    Helper (Int × Registers × Int) :=
  match regs 15 with
  | none => throw ⟨.keyError, "15"⟩
  | some sp =>
    if cfa ≤ sp ∨ cfa - sp > 1048576 then throw (valueError "Invalid caller stack progression")
    else if returnColumn ≠ 24 ∧ returnColumn ≠ 25 then
      throw (valueError "Unsupported m68k return column")
    else do
      let caller ← a.applyRules regs cfa returnColumn row.rules regs.saved
      match caller returnColumn with
      | none => throw (valueError "Return address is unavailable")
      | some pc =>
        if pc % 2 ≠ 0 then throw (valueError "Unaligned return address")
        else return (pc, (caller.set returnColumn none).set 15 (some cfa), cfa)

/-- The body of the second `try` in `backtrace`: the return address, the registers of the caller
and the CFA. -/
def Analysis.callerOf (lookup : Int) (regs : Registers) : Helper (Int × Registers × Int) := do
  let (row, cfa, returnColumn) ← a.frameRule lookup regs
  a.stepOut regs row cfa returnColumn

/-- The exceptions that end a backtrace. -/
def Raised.Caught (e : Raised) : Prop := e.error = .valueError ∨ e.error = .keyError

instance (e : Raised) : Decidable e.Caught := inferInstanceAs (Decidable (_ ∨ _))

/-! ### What the CFI defines -/

/-- The rule that a list of rules has for a register. -/
def ruleOf (rules : List (Nat × RegisterRule)) (reg : Nat) : Option RegisterRule :=
  (rules.find? (·.1 = reg)).map Prod.snd

/-- The value of a register of the caller. Without a rule a callee-saved register keeps its value
and the other ones are lost. -/
def Analysis.ruleValue (regs : Registers) (cfa : Int) (reg : Nat) :
    Option RegisterRule → Option Int
  | none => regs.saved reg
  | some (.offset n) => some (fromBigEndian (readMemory a.guest.memory (cfa + n).toNat 4) : Nat)
  | some (.valOffset n) => some (cfa + n)
  | some .sameValue => regs reg
  | some (.register saved) => regs saved
  | some .undefined | some (.other _) => none

/-- A return address and a register file are those of the caller by the row of the callee. -/
structure Analysis.IsCaller (lookup : Int) (regs : Registers) (pc : Int) (caller : Registers)
    (cfa : Int) (entry : Entry) (row : Row) : Prop where
  row_eq : a.rowAt lookup = .ok (entry, row)
  cfa_eq : ∃ s s', (a.cfaOf regs row.cfa).outcome s = (.ok cfa, s')
  sp_lt : ∃ sp, regs 15 = some sp ∧ sp < cfa
  pc_eq : a.ruleValue regs cfa entry.returnColumn (ruleOf row.rules entry.returnColumn) = some pc
  registers : ∀ reg, caller reg =
    if reg = 15 then some cfa
    else if reg < 16 then a.ruleValue regs cfa reg (ruleOf row.rules reg) else none

/-! ### Too few operands -/

section Underflow

variable {context : Context} {count : Nat}

/-- How many operands an operation takes from the stack. -/
def Operation.needs : Operation → Nat
  | .plusUconst _ | .deref => 1
  | .plus | .minus => 2
  | .addr _ | .breg _ _ | .reg _ | .regvalType _ _ | .fbreg _ | .callFrameCfa | .const _
  | .constx _ | .lit _ | .stackValue | .nop | .other _ => 0

/-- How many values it puts there. -/
def Operation.leaves : Operation → Nat
  | .stackValue | .nop | .regvalType _ _ | .other _ => 0
  | .addr _ | .breg _ _ | .reg _ | .fbreg _ | .callFrameCfa | .const _ | .constx _ | .lit _
  | .plusUconst _ | .plus | .minus | .deref => 1

/-- The depth of the stack behind operations that begin at depth `d`. -/
def depth (d : Nat) (ops : List Operation) : Nat :=
  ops.foldl (fun d op => d - op.needs + op.leaves) d

/-- An operation needs more than the operations before it leave, and these are carried out. -/
def Underflows (context : Context) (count : Nat) (ops : List Operation) (stack : List Int)
    (kind : Kind) (s : Budget) : Prop :=
  ∃ before op behind, ops = before ++ op :: behind ∧ depth stack.length before < op.needs ∧
    ∃ p s', (executeAll context count before stack kind).outcome s = (.ok p, s')

theorem caught_valueError {message : String} : (valueError message).Caught := .inl rfl

/-- With enough operands an operation leaves the depth that it should or raises `ValueError`. -/
theorem yields_execute_depth (context : Context) (count : Nat) (kind : Kind) {op : Operation}
    {stack : List Int} (h : op.needs ≤ stack.length) :
    Yields (fun p => p.1.length = stack.length - op.needs + op.leaves) Raised.Caught
      (execute context count stack kind op) := by
  cases op with
  | addr address =>
    exact yields_bind (R := fun _ : Int => True)
      (yields_liftExcept (r := translate context.maps address false) (fun _ _ => trivial)
        fun e h => .inl (translate_error h)) fun n _ => yields_pure rfl
  | breg reg offset =>
    rw [execute]
    cases context.regs reg with
    | none => exact yields_throw caught_valueError
    | some n => exact yields_pure rfl
  | reg reg =>
    rw [execute]
    cases context.regs reg with
    | none => exact yields_throw caught_valueError
    | some n =>
      simp only
      split
      · exact yields_throw caught_valueError
      · exact yields_pure rfl
  | regvalType _ _ => exact yields_throw caught_valueError
  | fbreg offset =>
    rw [execute]
    cases context.frameBase with
    | none => exact yields_throw caught_valueError
    | some n => exact yields_pure rfl
  | callFrameCfa =>
    rw [execute]
    cases context.cfa with
    | none => exact yields_throw caught_valueError
    | some n => exact yields_pure rfl
  | const _ | constx _ | lit _ => exact yields_pure rfl
  | stackValue | nop => exact yields_pure rfl
  | other name => exact yields_throw caught_valueError
  | plusUconst n =>
    cases stack with
    | nil => exact absurd h (by simp [Operation.needs])
    | cons top rest => exact yields_pure rfl
  | plus =>
    cases stack with
    | nil => exact absurd h (by simp [Operation.needs])
    | cons first rest =>
      cases rest with
      | nil => exact absurd h (by simp [Operation.needs])
      | cons second rest => exact yields_pure rfl
  | minus =>
    cases stack with
    | nil => exact absurd h (by simp [Operation.needs])
    | cons right rest =>
      cases rest with
      | nil => exact absurd h (by simp [Operation.needs])
      | cons left rest => exact yields_pure rfl
  | deref =>
    cases stack with
    | nil => exact absurd h (by simp [Operation.needs])
    | cons top rest =>
      refine yields_bind (R := fun p => p = (top, rest)) (yields_pure rfl) ?_
      rintro _ rfl
      exact yields_bind ((yields_readLong context.guest top).mono (fun _ h => h)
        fun e h => .inl h) fun n _ => yields_pure rfl

/-- With too few it raises `IndexError`. -/
theorem execute_underflow (context : Context) (count : Nat) (kind : Kind) (s : Budget)
    {op : Operation} {stack : List Int} (h : stack.length < op.needs) :
    Escapes Raised.Caught (execute context count stack kind op) s := by
  have hindex : ∀ message, ¬ (indexError message).Caught := fun message h => by
    rcases h with h | h <;> cases h
  cases op with
  | plusUconst n =>
    match stack with
    | [] => exact ⟨_, s, rfl, hindex _⟩
    | _ :: rest => exact absurd h (by simp [Operation.needs])
  | plus =>
    match stack with
    | [] => exact ⟨_, s, rfl, hindex _⟩
    | [_] => exact ⟨_, s, rfl, hindex _⟩
    | _ :: _ :: rest => exact absurd h (by simp [Operation.needs])
  | minus =>
    match stack with
    | [] => exact ⟨_, s, rfl, hindex _⟩
    | [_] => exact ⟨_, s, rfl, hindex _⟩
    | _ :: _ :: rest => exact absurd h (by simp [Operation.needs])
  | deref =>
    match stack with
    | [] => exact ⟨_, s, rfl, hindex _⟩
    | _ :: rest => exact absurd h (by simp [Operation.needs])
  | addr _ | breg _ _ | reg _ | regvalType _ _ | fbreg _ | callFrameCfa | const _ | constx _
  | lit _ | stackValue | nop | other _ => exact absurd h (Nat.not_lt_zero _)

/-- An operation that has its operands leaves the question to the other ones. -/
theorem underflows_cons_iff {op : Operation} {ops : List Operation} {stack : List Int}
    {kind : Kind} {s : Budget} (h : op.needs ≤ stack.length) :
    Underflows context count (op :: ops) stack kind s ↔
      ∃ before op' behind, ops = before ++ op' :: behind ∧
        depth (stack.length - op.needs + op.leaves) before < op'.needs ∧
          ∃ p s', (executeAll context count (op :: before) stack kind).outcome s = (.ok p, s') := by
  constructor
  · rintro ⟨before, op', behind, hops, hdepth, hrun⟩
    cases before with
    | nil =>
      cases hops
      exact absurd hdepth (Nat.not_lt.mpr h)
    | cons first before =>
      cases hops
      exact ⟨before, op', behind, rfl, hdepth, hrun⟩
  · rintro ⟨before, op', behind, rfl, hdepth, hrun⟩
    exact ⟨op :: before, op', behind, rfl, hdepth, hrun⟩

/-- Nothing but too few operands gets past the handler. -/
theorem escapes_executeAll_iff {ops : List Operation} {stack : List Int} {kind : Kind}
    {s : Budget} : Escapes Raised.Caught (executeAll context count ops stack kind) s ↔
      Underflows context count ops stack kind s := by
  induction ops generalizing stack kind s with
  | nil =>
    refine iff_of_false escapes_pure ?_
    rintro ⟨before, op, behind, hops, _⟩
    exact absurd hops.symm (List.append_ne_nil_of_right_ne_nil _ (List.cons_ne_nil _ _))
  | cons op ops ih =>
    rcases Nat.lt_or_ge stack.length op.needs with hfew | henough
    · obtain ⟨e, s', he, hcaught⟩ := execute_underflow context count kind s hfew
      rw [executeAll]
      refine iff_of_true ((escapes_bind_of_error he).mpr hcaught) ?_
      exact ⟨[], op, ops, rfl, hfew, _, _, rfl⟩
    · have hyields := yields_execute_depth context count kind henough
      rw [underflows_cons_iff henough]
      simp only [executeAll, outcome_bind]
      rcases hout : (execute context count stack kind op).outcome s with ⟨r, s'⟩
      cases r with
      | error e =>
        refine iff_of_false (fun h => ?_) ?_
        · exact (escapes_bind_of_error hout).mp h (hyields.of_error hout)
        · rintro ⟨before, op', behind, _, _, p, s'', hrun⟩
          cases hrun
      | ok p =>
        obtain ⟨stack', kind'⟩ := p
        have hlen : stack'.length = stack.length - op.needs + op.leaves := hyields.of_ok hout
        rw [escapes_bind_of_ok hout, ← hlen]
        simp only
        split
        · refine iff_of_false (fun h => escapes_throw.mp h caught_valueError) ?_
          rintro ⟨before, op', behind, _, _, p, s'', hrun⟩
          cases hrun
        · exact ih

end Underflow

/-! ### One frame -/

section Frames

variable {a : Analysis} {regs : Registers} {lookup cfa : Int}

/-- The CFA expression of a rule finds too few operands. -/
def Analysis.CfaUnderflows (a : Analysis) (lookup : Int) (regs : Registers) (s : Budget) : Prop :=
  ∃ entry row ops, a.rowAt lookup = .ok (entry, row) ∧ row.cfa = .expression (.ok ops) ∧
    ops.length ≤ 128 ∧ Underflows (a.context regs) ops.length ops [] .address s

theorem caught_of_valueError {e : Raised} (h : e.error = .valueError) : e.Caught := .inl h

theorem escapes_evaluate_iff {context : Context} {expr : Expression} {s : Budget} :
    Escapes Raised.Caught (evaluate context expr) s ↔
      ∃ ops, expr = .ok ops ∧ ops.length ≤ 128 ∧
        Underflows context ops.length ops [] .address s := by
  cases expr with
  | error message =>
    refine iff_of_false (fun h => ?_) ?_
    · exact escapes_throw.mp h caught_valueError
    · rintro ⟨ops, hops, _⟩
      cases hops
  | ok ops =>
    have hok : Escapes Raised.Caught (evaluate context (.ok ops)) s ↔
        ops.length ≤ 128 ∧ Underflows context ops.length ops [] .address s := by
      change Escapes Raised.Caught (if ops.length > 128 then _ else _) s ↔ _
      split
      · next hlong =>
        exact iff_of_false (fun h => escapes_throw.mp h caught_valueError)
          fun h => absurd h.1 (by omega)
      · next hshort =>
        rw [escapes_bind_iff, escapes_executeAll_iff, and_iff_right (by omega)]
        rintro ⟨stack, kind⟩ s'
        match stack with
        | [] => exact fun h => escapes_throw.mp h caught_valueError
        | [_] => exact escapes_pure
        | _ :: _ :: _ => exact fun h => escapes_throw.mp h caught_valueError
    rw [hok]
    constructor
    · exact fun h => ⟨ops, rfl, h⟩
    · rintro ⟨_, hops, h⟩
      cases hops
      exact h

theorem rowAt_error {e : Raised} (h : a.rowAt lookup = .error e) : e.Caught := by
  rw [Analysis.rowAt] at h
  cases hlinked : translate a.maps lookup true with
  | error e' =>
    rw [hlinked] at h
    cases h
    exact caught_of_valueError (translate_error hlinked)
  | ok linked =>
    simp only [hlinked, bind, Except.bind] at h
    split at h
    · cases h
      exact caught_valueError
    · next entry _ =>
      cases hrows : entry.decoded with
      | error message =>
        rw [hrows] at h
        cases h
        exact caught_valueError
      | ok rows =>
        simp only [hrows, Except.mapError] at h
        split at h
        · cases h
          exact caught_valueError
        · split at h
          · cases h
            exact caught_valueError
          · cases h

theorem escapes_cfaOf_iff {rule : CfaRule} {s : Budget} :
    Escapes Raised.Caught (a.cfaOf regs rule) s ↔
      ∃ ops, rule = .expression (.ok ops) ∧ ops.length ≤ 128 ∧
        Underflows (a.context regs) ops.length ops [] .address s := by
  cases rule with
  | expression expr =>
    simp only [Analysis.cfaOf, CfaRule.expression.injEq]
    rw [escapes_bind_iff, escapes_evaluate_iff]
    rintro ⟨value, kind⟩ s'
    simp only
    split
    · exact fun h => escapes_throw.mp h caught_valueError
    · exact escapes_pure
  | register reg offset =>
    refine iff_of_false ?_ ?_
    · simp only [Analysis.cfaOf]
      split
      · exact fun h => escapes_throw.mp h caught_valueError
      · exact escapes_pure
    · rintro ⟨ops, hops, _⟩
      cases hops

theorem yields_checked (value maximum : Int) :
    Yields (fun n => n = value) Raised.Caught (liftExcept (checked value maximum) : Helper Int) :=
  yields_liftExcept (fun _ h => (checked_ok h).1) fun _ h => caught_of_valueError (checked_error h)

theorem escapes_frameRule_iff {s : Budget} :
    Escapes Raised.Caught (a.frameRule lookup regs) s ↔ a.CfaUnderflows lookup regs s := by
  rw [Analysis.frameRule, Analysis.CfaUnderflows]
  cases hrow : a.rowAt lookup with
  | error e =>
    refine iff_of_false (fun h => ?_) ?_
    · exact (escapes_bind_of_error (outcome_liftExcept _ s)).mp h (rowAt_error hrow)
    · rintro ⟨entry, row, ops, h, _⟩
      cases h
  | ok found =>
    obtain ⟨entry, row⟩ := found
    have hcheck : ∀ cfa s', ¬ Escapes Raised.Caught (do
        let _ ← liftExcept (checked cfa 0xffffffff)
        if cfa % 2 ≠ 0 then throw (valueError "Unaligned CFA")
        else return (row, cfa, entry.returnColumn) : Helper (Row × Int × Nat)) s' := by
      intro cfa s'
      refine (yields_bind (yields_checked cfa _) fun n _ => ?_ :
        Yields (fun _ => True) _ _).not_escapes s'
      split
      · exact yields_throw caught_valueError
      · exact yields_pure trivial
    rw [escapes_bind_of_ok (outcome_liftExcept _ s)]
    simp only
    rw [escapes_bind_iff hcheck, escapes_cfaOf_iff]
    constructor
    · rintro ⟨ops, h⟩
      exact ⟨entry, row, ops, rfl, h⟩
    · rintro ⟨entry', row', ops, heq, h⟩
      cases heq
      exact ⟨ops, h⟩

/-- The value of a restored register is the one that its rule defines. -/
theorem yields_restore (reg : Nat) (rule : RegisterRule) :
    Yields (fun v => v = a.ruleValue regs cfa reg (some rule)) Raised.Caught
      (a.restore regs cfa reg rule) := by
  cases rule with
  | offset n =>
    refine yields_bind ((yields_readLong a.guest (cfa + n)).mono (fun _ h => h)
      fun _ h => caught_of_valueError h) ?_
    rintro value ⟨rfl, _⟩
    exact yields_pure rfl
  | valOffset n =>
    refine yields_bind (yields_checked (cfa + n) _) ?_
    rintro value rfl
    exact yields_pure rfl
  | sameValue =>
    simp only [Analysis.restore, Analysis.ruleValue]
    cases regs reg with
    | none => exact yields_throw caught_valueError
    | some value => exact yields_pure rfl
  | register saved =>
    simp only [Analysis.restore, Analysis.ruleValue]
    cases regs saved with
    | none => exact yields_throw caught_valueError
    | some value => exact yields_pure rfl
  | undefined => exact yields_pure rfl
  | other type => exact yields_throw caught_valueError

/-- The loop sets the registers that have a rule, and leaves the other ones. -/
theorem yields_applyRules (returnColumn : Nat) {rules : List (Nat × RegisterRule)}
    (hnodup : (rules.map Prod.fst).Nodup) (caller : Registers) :
    Yields (fun caller' => ∀ reg, caller' reg =
        match ruleOf rules reg with
        | none => caller reg
        | some rule => if reg < 16 ∨ reg = returnColumn then
            a.ruleValue regs cfa reg (some rule) else caller reg)
      Raised.Caught (a.applyRules regs cfa returnColumn rules caller) := by
  induction rules generalizing caller with
  | nil => exact yields_pure fun _ => rfl
  | cons head rules ih =>
    obtain ⟨reg, rule⟩ := head
    rw [List.map_cons, List.nodup_cons] at hnodup
    have hnone : ruleOf rules reg = none := by
      rw [ruleOf, List.find?_eq_none.mpr, Option.map_none]
      intro x hx hreg
      exact hnodup.1 (List.mem_map.mpr ⟨x, hx, of_decide_eq_true hreg⟩)
    have hhead : ∀ r, ruleOf ((reg, rule) :: rules) r =
        if reg = r then some rule else ruleOf rules r := by
      intro r
      rw [ruleOf, List.find?_cons]
      by_cases h : reg = r
      · rw [if_pos h, decide_eq_true h]
        rfl
      · rw [if_neg h, decide_eq_false h]
        rfl
    rw [Analysis.applyRules]
    split
    · next hreg =>
      refine yields_bind (yields_restore reg rule) ?_
      rintro value rfl
      refine (ih hnodup.2 _).mono (fun caller' h r => ?_) fun _ h => h
      rw [h r, hhead]
      by_cases hr : reg = r
      · subst hr
        rw [hnone, if_pos rfl]
        simp only [Registers.set, if_true, if_pos hreg]
      · rw [if_neg hr]
        simp only [Registers.set, if_neg (Ne.symm hr)]
    · next hreg =>
      refine (ih hnodup.2 _).mono (fun caller' h r => ?_) fun _ h => h
      rw [h r, hhead]
      by_cases hr : reg = r
      · subst hr
        rw [hnone, if_pos rfl]
        simp only [if_neg hreg]
      · rw [if_neg hr]

theorem yields_frameRule :
    Yields (fun r => ∃ entry, a.rowAt lookup = .ok (entry, r.1) ∧ r.2.2 = entry.returnColumn ∧
        ∃ s s', (a.cfaOf regs r.1.cfa).outcome s = (.ok r.2.1, s'))
      (fun _ => True) (a.frameRule lookup regs) := by
  rw [Analysis.frameRule]
  refine yields_bind (yields_liftExcept (fun _ h => h) fun _ _ => trivial) ?_
  rintro ⟨entry, row⟩ hrow
  refine yields_bind (yields_outcome (a.cfaOf regs row.cfa)) fun cfa hcfa => ?_
  refine yields_bind ((yields_checked cfa _).mono (fun _ h => h) fun _ _ => trivial) fun _ _ => ?_
  split
  · exact yields_throw trivial
  · exact yields_pure ⟨entry, hrow, rfl, hcfa⟩

/-- The rules of a row and the return column give the registers that the CFI defines. -/
theorem registers_of_rules {rules : List (Nat × RegisterRule)} {returnColumn : Nat}
    (hcolumn : 16 ≤ returnColumn) {caller : Registers}
    (h : ∀ reg, caller reg = match ruleOf rules reg with
      | none => regs.saved reg
      | some rule => if reg < 16 ∨ reg = returnColumn then
          a.ruleValue regs cfa reg (some rule) else regs.saved reg) (reg : Nat) :
    (caller.set returnColumn none).set 15 (some cfa) reg =
      if reg = 15 then some cfa
      else if reg < 16 then a.ruleValue regs cfa reg (ruleOf rules reg) else none := by
  have hlost : ∀ r, ¬ r < 16 → regs.saved r = none := by
    intro r hr
    refine if_neg fun hmem => hr ?_
    have hall : ∀ x ∈ calleeSaved, x < 16 := by decide
    exact hall r hmem
  simp only [Registers.set]
  split
  · rfl
  · split
    · next hreg =>
      rw [if_neg (by omega)]
    · next hreg =>
      split
      · next hlow =>
        rw [h reg]
        cases ruleOf rules reg with
        | none => rfl
        | some rule => exact if_pos (.inl hlow)
      · next hhigh =>
        rw [h reg]
        cases ruleOf rules reg with
        | none => exact hlost reg hhigh
        | some rule => exact (if_neg (by omega)).trans (hlost reg hhigh)

/-- What is returned is the caller that the CFI defines. -/
theorem yields_stepOut {entry : Entry} {row : Row} (hrow : a.rowAt lookup = .ok (entry, row))
    (hcfa : ∃ s s', (a.cfaOf regs row.cfa).outcome s = (.ok cfa, s')) :
    Yields (fun c => a.IsCaller lookup regs c.1 c.2.1 c.2.2 entry row) Raised.Caught
      (a.stepOut regs row cfa entry.returnColumn) := by
  rw [Analysis.stepOut]
  cases hsp : regs 15 with
  | none => exact yields_throw (.inr rfl)
  | some sp =>
    simp only
    split
    · exact yields_throw caught_valueError
    · next hgrows =>
      split
      · exact yields_throw caught_valueError
      · next hknown =>
        refine yields_bind (yields_applyRules _ row.nodup _) fun caller hcaller => ?_
        cases hpc : caller entry.returnColumn with
        | none => exact yields_throw caught_valueError
        | some pc =>
          simp only
          split
          · exact yields_throw caught_valueError
          · refine yields_pure ?_
            have hcolumn : 16 ≤ entry.returnColumn := by omega
            exact {
              row_eq := hrow
              cfa_eq := hcfa
              sp_lt := ⟨sp, hsp, by simp only; omega⟩
              pc_eq := by
                rw [← hpc, hcaller]
                cases ruleOf row.rules entry.returnColumn with
                | none => rfl
                | some rule => exact (if_pos (.inr rfl)).symm
              registers := registers_of_rules hcolumn hcaller }

theorem yields_callerOf :
    Yields (fun c => ∃ entry row, a.IsCaller lookup regs c.1 c.2.1 c.2.2 entry row)
      (fun _ => True) (a.callerOf lookup regs) := by
  rw [Analysis.callerOf]
  refine yields_bind yields_frameRule ?_
  rintro ⟨row, cfa, returnColumn⟩ ⟨entry, hrow, rfl, hcfa⟩
  exact (yields_stepOut hrow hcfa).mono (fun _ h => ⟨entry, row, h⟩) fun _ _ => trivial

/-- Only a CFA expression with too few operands gets past the handler. -/
theorem escapes_callerOf_iff {s : Budget} :
    Escapes Raised.Caught (a.callerOf lookup regs) s ↔ a.CfaUnderflows lookup regs s := by
  rw [Analysis.callerOf, ← escapes_frameRule_iff]
  rcases h : (a.frameRule lookup regs).outcome s with ⟨r, s'⟩
  cases r with
  | error e => rw [escapes_bind_of_error h, escapes_of_error h]
  | ok found =>
    obtain ⟨entry, hrow, hcolumn, hcfa⟩ := yields_frameRule.of_ok h
    rw [escapes_bind_of_ok h]
    simp only
    rw [hcolumn]
    exact iff_of_false ((yields_stepOut hrow hcfa).not_escapes s') (not_escapes_of_ok h)

end Frames

end Dwarf

end AmigaDevbench.Winuae
