import AmigaDevbench.Client.Registration
import AmigaDevbench.Daemon.Entries
import AmigaDevbench.Link.Variables

/-!
# The daemon's mirror of a client's tables

A client tells the daemon about every entry it writes or clears, and the daemon keeps tables of
its own for each client. The tables agree after each step, except where an entry is left over from
a program that ended without cleaning up, where the message cannot carry the name and the
description, or where a cut name meets another one.
-/

namespace AmigaDevbench.RegistryMirror

open CText CNumber Client Daemon Registry Ipc

/-- The program and the registry of the daemon. -/
structure System where
  program : Program
  registry : Registry

namespace System

/-- Neither the daemon nor the program has done anything. -/
def initial : System := ⟨.started, .initial⟩

/-- A call of the program and the message it sends, which is replied to before the call ends. -/
def send (s : System) (call : Program × Option ClientMsg) : System :=
  ⟨call.1, call.2.elim s.registry fun msg => (ipcProcess s.registry s.program.clientId msg).1⟩

/-- `ab_init`: a program that is not connected registers, if it has a reply port. -/
def init (s : System) (appName : CString) (replyPort : Option Port) : System :=
  if s.program.connected then s
  else
    match replyPort with
    | some port =>
      let replied := ipcProcess s.registry s.program.clientId
        (.register (dataField appName.val) (some port))
      ⟨abInit s.program (some replied.2), replied.1⟩
    | none => { s with program := abInit s.program none }

end System

/-- The calls of the program, its end without `ab_cleanup`, and a message of another program. -/
inductive Label where
  | init (appName : CString) (replyPort : Option Port)
  | registerVar (name : Option CString) (type : Int32) (ptr : Nat)
  | unregisterVar (name : Option CString)
  | registerHook (name description : Option CString) (fn : Nat)
  | unregisterHook (name : Option CString)
  | registerMemregion (name : Option CString) (addr size : UInt32) (description : Option CString)
  | unregisterMemregion (name : Option CString)
  | cleanup
  | exit
  | other (clientId : UInt32) (msg : ClientMsg)

/-- One step. -/
def step (s : System) : Label → Option System
  | .init appName replyPort => some (s.init appName replyPort)
  | .registerVar name type ptr => some (s.send (abRegisterVar s.program name type ptr))
  | .unregisterVar name => some (s.send (abUnregisterVar s.program name))
  | .registerHook name description fn =>
    some (s.send (abRegisterHook s.program name description fn))
  | .unregisterHook name => some (s.send (abUnregisterHook s.program name))
  | .registerMemregion name addr size description =>
    some (s.send (abRegisterMemregion s.program name addr size description))
  | .unregisterMemregion name => some (s.send (abUnregisterMemregion s.program name))
  | .cleanup => some (s.send (abCleanup s.program))
  | .exit => some { s with program := .started }
  | .other clientId msg => some { s with registry := (ipcProcess s.registry clientId msg).1 }

/-- While the program is connected, the tables of its entry hold what its own tables hold. -/
def Mirrors (s : System) : Prop :=
  s.program.connected → ∃ ce, s.registry.entryOf s.program.clientId = some ce ∧
    (s.program.vars.entries.map VarEntry.info).Perm ce.vars ∧
    (s.program.hooks.entries.map HookEntry.info).Perm ce.hooks ∧
    (s.program.memregs.entries.map MemRegEntry.info).Perm ce.memregs

/-! ### The condition -/

/-- A name that is read back in front of the separator, that is stored whole or begins like no
other, and that leaves room for the rest of the message. -/
def Carried {n : Nat} {α : Type} (t : Slots n α) (key : α → Text) (name : Text) (rest : Nat) :
    Prop :=
  '|' ∉ name ∧ (name.length ≤ 33 ∨ t.find (fun e => key e = name.take 33) = none) ∧
    name.length + rest < maxData

instance {n : Nat} {α : Type} (t : Slots n α) (key : α → Text) (name : Text) (rest : Nat) :
    Decidable (Carried t key name rest) :=
  inferInstanceAs (Decidable (_ ∧ _ ∧ _))

/-- A new client gets the id. -/
def GivesId (r : Registry) (id : UInt32) : ClientMsg → Prop
  | .register name port => CreatesClient r name port ∧ r.nextClientId = id
  | _ => False

instance (r : Registry) (id : UInt32) : ∀ msg, Decidable (GivesId r id msg)
  | .register _ _ => inferInstanceAs (Decidable (_ ∧ _))
  | .unregister | .varRegister _ | .varUnregister _ | .hookRegister _ | .hookUnregister _
  | .memregRegister _ | .memregUnregister _ => isFalse nofun

/-- No entry with tables has the id the program gets, the messages of its registrations carry
what it stores, and no other program uses its id. -/
def Permitted (s : System) : Label → Prop
  | .init appName _ => s.program.connected = false → ∀ i, ∀ ce ∈ s.registry.clients i,
      ce.clientId = s.registry.registeredId (dataField appName.val) → Bare ce
  | .registerVar (some name) type ptr => s.program.connected ∧ ptr ≠ 0 →
      Carried s.program.vars VarEntry.name name.val (1 + (longText type.toInt).length)
  | .registerHook (some name) description fn =>
      s.program.connected ∧ fn ≠ 0 ∧ (s.program.hooks.slotFor (·.name = name.val)).isSome →
        Carried s.program.hooks HookEntry.name name.val (1 + min 63 (orEmpty description).length)
  | .registerMemregion (some name) addr size description =>
      s.program.connected ∧ addr ≠ 0 ∧ size ≠ 0 ∧
        (s.program.memregs.slotFor (·.name = name.val)).isSome →
          Carried s.program.memregs MemRegEntry.name name.val
            ((memregHead [] addr.toNat size.toNat).length + min 63 (orEmpty description).length)
  | .other clientId msg => s.program.connected →
      clientId ≠ s.program.clientId ∧ ¬ GivesId s.registry s.program.clientId msg
  | _ => True

instance (s : System) : ∀ a, Decidable (Permitted s a)
  | .init _ _ => inferInstanceAs (Decidable (_ → ∀ i, ∀ ce ∈ s.registry.clients i, _ → Bare ce))
  | .registerVar (some _) _ _ => inferInstanceAs (Decidable (_ → Carried _ _ _ _))
  | .registerHook (some _) _ _ => inferInstanceAs (Decidable (_ → Carried _ _ _ _))
  | .registerMemregion (some _) _ _ _ => inferInstanceAs (Decidable (_ → Carried _ _ _ _))
  | .other _ _ => inferInstanceAs (Decidable (_ → _ ≠ _ ∧ ¬ GivesId _ _ _))
  | .registerVar none _ _ | .unregisterVar _ | .registerHook none _ _ | .unregisterHook _
  | .registerMemregion none _ _ _ | .unregisterMemregion _ | .cleanup | .exit => isTrue trivial

/-! ### One table -/

section Table

variable {α β : Type} {n : Nat} {info : α → β} {key : β → Text} {t : Slots n α} {l : List β}

/-- The tables hold the same entries, under different names that fit in their arrays. -/
structure Matches (info : α → β) (key : β → Text) (t : Slots n α) (l : List β) : Prop
    extends Packed.SameEntries info key t l where
  short : ∀ b ∈ l, (key b).length ≤ 33

theorem matches_empty : Matches info key (.empty : Slots n α) [] where
  perm := by rw [Slots.entries_empty, List.map_nil]
  nodup := List.nodup_nil
  short := nofun

theorem fit_name (name : CString) (len : Nat) : fit len name.val = name.val.take len := by
  rw [fit, cut_eq_self name.property]

/-- A name that is too long for the arrays is not found. -/
theorem Matches.find_long (h : Matches info key t l) (name : Text) (hlong : 33 < name.length) :
    t.find (fun e => key (info e) = name) = none ∧ name ∉ l.map key := by
  have hnone : name ∉ l.map key := by
    intro hmem
    obtain ⟨b, hb, rfl⟩ := List.mem_map.mp hmem
    have hshort := h.short b hb
    omega
  exact ⟨h.find_eq_none.mpr hnone, hnone⟩

/-- Both tables get the entry. -/
theorem Matches.store (h : Matches info key t l) {name : CString} {a : α} {rest : Nat}
    (ha : key (info a) = fit 33 name.val) (hcarried : Carried t (key ∘ info) name.val rest) :
    Matches info key (t.store (fun e => key (info e) = name.val) a)
      (Packed.upsert key n l (info a)) := by
  have hcut : key (info a) = name.val.take 33 := ha.trans (fit_name name 33)
  have hsame : t.store (fun e => key (info e) = name.val) a =
      t.store (fun e => key (info e) = key (info a)) a := by
    by_cases hlen : name.val.length ≤ 33
    · rw [hcut, List.take_of_length_le hlen]
    · have hlong := (h.find_long name.val (not_le.mp hlen)).1
      have hfree : t.find (fun e => key (info e) = key (info a)) = none := by
        rw [hcut]
        exact hcarried.2.1.resolve_left hlen
      rw [Slots.store, Slots.store, Slots.slotFor, Slots.slotFor, hlong, hfree]
  rw [hsame]
  refine ⟨h.toSameEntries.store a, fun b hb => ?_⟩
  rcases Packed.mem_upsert hb with rfl | hb
  · rw [hcut]
    exact List.length_take_le 33 name.val
  · exact h.short b hb

/-- Both tables lose the entry with the name. -/
theorem Matches.discard (h : Matches info key t l) (name : Text) :
    Matches info key (t.discard fun e => key (info e) = name)
      (Packed.remove key l (dataField name)) := by
  by_cases hlen : name.length ≤ maxData
  · rw [dataField, List.take_of_length_le hlen]
    exact ⟨h.toSameEntries.discard name,
      fun b hb => h.short b ((Packed.sublist_remove l).mem hb)⟩
  · have hmax : maxData = 256 := rfl
    have hfind := (h.find_long name (by omega)).1
    have hnone := (h.find_long (dataField name)
      (by rw [dataField, List.length_take]; omega)).2
    rw [Slots.discard, hfind, Packed.remove, Packed.splice_of_notMem hnone]
    exact h

end Table

/-! ### The messages -/

section Messages

variable {name : CString} {ce : ClientEntry}

/-- The beginning of a description that fits is sent. -/
theorem dataField_withDescription (head : Text) {description : Text} (hnul : nul ∉ description)
    (hfits : head.length + min 63 description.length < maxData) :
    ∃ rest, dataField (withDescription head description) = head ++ rest ∧
      fit 63 rest = fit 63 description := by
  have hmax : maxData = 256 := rfl
  refine ⟨description.take (255 - head.length), ?_, ?_⟩
  · rw [dataField, withDescription, List.take_take, hmax, List.take_append,
      List.take_of_length_le (by omega)]
    rfl
  · have hrest : nul ∉ description.take (255 - head.length) :=
      fun hmem => hnul (List.mem_of_mem_take hmem)
    rw [fit, fit, cut_eq_self hrest, cut_eq_self hnul, List.take_take]
    rcases Nat.le_total 63 description.length with hlen | hlen
    · rw [Nat.min_eq_left (by omega)]
    · rw [List.take_of_length_le (by omega), List.take_of_length_le hlen]

theorem fit_take (name : CString) : fit 33 (name.val.take 33) = fit 33 name.val := by
  have hnul : nul ∉ name.val.take 33 := fun hmem => name.property (List.mem_of_mem_take hmem)
  rw [fit, cut_eq_self hnul, List.take_take, fit_name, Nat.min_self]

/-- The daemon reads the variable that the client has stored. -/
theorem readVar_dataField {type : Int32} (hbar : '|' ∉ name.val)
    (hfits : name.val.length + (1 + (longText type.toInt).length) < maxData) :
    readVar (dataField (name.val ++ '|' :: longText type.toInt)) ce =
      { ce with
        vars := Packed.upsert VarInfo.name maxVars ce.vars ⟨fit 33 name.val, type.toInt⟩ } := by
  have hwhole : dataField (name.val ++ '|' :: longText type.toInt) =
      name.val ++ '|' :: longText type.toInt := by
    refine List.take_of_length_le ?_
    rw [List.length_append, List.length_cons]
    omega
  have hlow : -2 ^ 31 ≤ type.toInt := type.le_toInt
  have hhigh : type.toInt < 2 ^ 31 := type.toInt_lt
  have htype := Variables.strtol_longText hlow hhigh
  simp only [readVar, hwhole, Text.after?_append hbar, Text.before_append hbar, ClientEntry.addVar,
    fit_take, htype]

/-- The daemon reads the hook that the client has stored. -/
theorem readHook_dataField {description : Option CString} (hbar : '|' ∉ name.val)
    (hfits : name.val.length + (1 + min 63 (orEmpty description).length) < maxData) :
    readHook (dataField (withDescription (name.val ++ ['|']) (orEmpty description))) ce =
      { ce with
        hooks := Packed.upsert HookInfo.name maxHooks ce.hooks
          ⟨fit 33 name.val, fit 63 (orEmpty description)⟩ } := by
  have hnul : nul ∉ orEmpty description := by
    cases description with
    | none => exact List.not_mem_nil
    | some description => exact description.property
  obtain ⟨rest, hdata, hrest⟩ := dataField_withDescription (name.val ++ ['|']) hnul
    (by rw [List.length_append, List.length_singleton]; omega)
  rw [List.append_assoc, List.singleton_append] at hdata
  simp only [readHook, hdata, Text.after?_append hbar, Text.before_append hbar,
    ClientEntry.addHook, fit_take, hrest]

/-- The daemon reads the memory region that the client has stored. -/
theorem readMemreg_dataField {addr size : UInt32} {description : Option CString}
    (hbar : '|' ∉ name.val)
    (hfits : name.val.length + ((memregHead [] addr.toNat size.toNat).length +
      min 63 (orEmpty description).length) < maxData) :
    readMemreg (dataField (withDescription (memregHead name.val addr.toNat size.toNat)
        (orEmpty description))) ce =
      { ce with
        memregs := Packed.upsert MemRegInfo.name maxMemRegions ce.memregs
          ⟨fit 33 name.val, addr.toNat, size.toNat, fit 63 (orEmpty description)⟩ } := by
  have hnul : nul ∉ orEmpty description := by
    cases description with
    | none => exact List.not_mem_nil
    | some description => exact description.property
  have hlen : (memregHead name.val addr.toNat size.toNat).length =
      name.val.length + (memregHead [] addr.toNat size.toNat).length := by
    rw [memregHead, memregHead, List.length_append, List.nil_append]
  obtain ⟨rest, hdata, hrest⟩ := dataField_withDescription
    (memregHead name.val addr.toNat size.toNat) hnul (by omega)
  have hparts : memregHead name.val addr.toNat size.toNat ++ rest = name.val ++ '|' ::
      (hex8 addr.toNat ++ '|' :: (decimal size.toNat ++ '|' :: rest)) := by
    simp only [memregHead, List.append_assoc, List.cons_append, List.nil_append]
  have haddr := Replies.bar_notMem_hex8 addr.toNat
  have hsize := Replies.bar_notMem_decimal size.toNat
  have haddrRead : strtoul 16 (hex8 addr.toNat ++ '|' :: (decimal size.toNat ++ '|' :: rest)) =
      addr.toNat := by
    rw [strtoul_append_bar (.inr rfl), Variables.strtoul_hex8 addr.toNat_lt]
  have hsizeRead : strtoul 10 (decimal size.toNat ++ '|' :: rest) = size.toNat := by
    rw [strtoul_append_bar (.inl rfl), decimal, strtoul_toDigits size.toNat_lt]
  simp only [readMemreg, hdata, hparts, Text.after?_append hbar, Text.before_append hbar,
    Text.after?_append haddr, Text.after?_append hsize, haddrRead, hsizeRead, Option.getD_some,
    ClientEntry.addMemreg, fit_take, hrest]

end Messages

/-! ### Runs -/

section Runs

variable {s s' : System}

/-- The tables of a program and of its entry. -/
structure Mirrored (p : Program) (ce : ClientEntry) : Prop where
  vars : Matches VarEntry.info VarInfo.name p.vars ce.vars
  hooks : Matches HookEntry.info HookInfo.name p.hooks ce.hooks
  memregs : Matches MemRegEntry.info MemRegInfo.name p.memregs ce.memregs

/-- The entry of a connected program has its tables. -/
def Inv (s : System) : Prop :=
  s.program.connected → ∃ ce, s.registry.entryOf s.program.clientId = some ce ∧
    Mirrored s.program ce

theorem Inv.mirrors (h : Inv s) : Mirrors s := by
  intro hconnected
  obtain ⟨ce, hentry, hvars, hhooks, hmemregs⟩ := h hconnected
  exact ⟨ce, hentry, hvars.perm, hhooks.perm, hmemregs.perm⟩

/-- A message that changes the entry like the call changes the tables. -/
theorem Inv.update (h : Inv s) {p : Program} {f : ClientEntry → ClientEntry}
    (hf : ∀ ce, (f ce).clientId = ce.clientId) (hconnected : s.program.connected)
    (hid : p.clientId = s.program.clientId)
    (hkeep : ∀ ce, Mirrored s.program ce → Mirrored p (f ce)) :
    Inv ⟨p, s.registry.update s.program.clientId f⟩ := by
  intro _
  obtain ⟨ce, hentry, hmirrored⟩ := h hconnected
  refine ⟨f ce, ?_, hkeep ce hmirrored⟩
  dsimp only
  rw [hid, entryOf_update hf, hentry, Option.map_some]

theorem inv_registerVar (h : Inv s) {name : Option CString} {type : Int32} {ptr : Nat}
    (hpermit : Permitted s (.registerVar name type ptr)) :
    Inv (s.send (abRegisterVar s.program name type ptr)) := by
  cases name with
  | none => exact h
  | some name =>
    simp only [abRegisterVar]
    split_ifs with hcall
    · have hcarried := hpermit hcall
      refine h.update (clientId_readVar _) hcall.1 rfl fun ce hce => ?_
      rw [readVar_dataField hcarried.1 hcarried.2.2]
      exact ⟨hce.vars.store rfl hcarried, hce.hooks, hce.memregs⟩
    · exact h

theorem inv_registerHook (h : Inv s) {name description : Option CString} {fn : Nat}
    (hpermit : Permitted s (.registerHook name description fn)) :
    Inv (s.send (abRegisterHook s.program name description fn)) := by
  cases name with
  | none => exact h
  | some name =>
    simp only [abRegisterHook]
    split_ifs with hcall
    · have hcarried := hpermit hcall
      refine h.update (clientId_readHook _) hcall.1 rfl fun ce hce => ?_
      rw [readHook_dataField hcarried.1 hcarried.2.2]
      exact ⟨hce.vars, hce.hooks.store rfl hcarried, hce.memregs⟩
    · exact h

theorem inv_registerMemregion (h : Inv s) {name description : Option CString}
    {addr size : UInt32} (hpermit : Permitted s (.registerMemregion name addr size description)) :
    Inv (s.send (abRegisterMemregion s.program name addr size description)) := by
  cases name with
  | none => exact h
  | some name =>
    simp only [abRegisterMemregion]
    split_ifs with hcall
    · have hcarried := hpermit hcall
      refine h.update (clientId_readMemreg _) hcall.1 rfl fun ce hce => ?_
      rw [readMemreg_dataField hcarried.1 hcarried.2.2]
      exact ⟨hce.vars, hce.hooks, hce.memregs.store rfl hcarried⟩
    · exact h

theorem inv_unregisterVar (h : Inv s) (name : Option CString) :
    Inv (s.send (abUnregisterVar s.program name)) := by
  cases name with
  | none => exact h
  | some name =>
    simp only [abUnregisterVar]
    split_ifs with hcall
    · exact h.update (fun ce => rfl) hcall rfl fun ce hce =>
        ⟨hce.vars.discard name.val, hce.hooks, hce.memregs⟩
    · exact h

theorem inv_unregisterHook (h : Inv s) (name : Option CString) :
    Inv (s.send (abUnregisterHook s.program name)) := by
  cases name with
  | none => exact h
  | some name =>
    simp only [abUnregisterHook]
    split_ifs with hcall
    · exact h.update (fun ce => rfl) hcall rfl fun ce hce =>
        ⟨hce.vars, hce.hooks.discard name.val, hce.memregs⟩
    · exact h

theorem inv_unregisterMemregion (h : Inv s) (name : Option CString) :
    Inv (s.send (abUnregisterMemregion s.program name)) := by
  cases name with
  | none => exact h
  | some name =>
    simp only [abUnregisterMemregion]
    split_ifs with hcall
    · exact h.update (fun ce => rfl) hcall rfl fun ce hce =>
        ⟨hce.vars, hce.hooks, hce.memregs.discard name.val⟩
    · exact h

/-- A program that registers starts with empty tables, and so does its entry. -/
theorem inv_init (h : Inv s) {appName : CString} {replyPort : Option Port}
    (hpermit : Permitted s (.init appName replyPort)) : Inv (s.init appName replyPort) := by
  unfold System.init
  split_ifs with hconnected
  · exact h
  · rw [Bool.not_eq_true] at hconnected
    cases replyPort with
    | none =>
      intro hon
      obtain ⟨_, hreply, _⟩ := abInit_connected hconnected hon
      cases hreply
    | some port =>
      intro hon
      obtain ⟨clientId, hreply, hprogram⟩ := abInit_connected hconnected hon
      have hreplied := Option.some.inj hreply
      obtain ⟨ce, hentry, hvars, hhooks, hmemregs⟩ := entryOf_register port
        s.program.clientId (hpermit hconnected) (by rw [hreplied])
      dsimp only
      rw [hprogram]
      rw [hreplied] at hentry
      refine ⟨ce, hentry, ?_, ?_, ?_⟩
      · rw [hvars]
        exact matches_empty
      · rw [hhooks]
        exact matches_empty
      · rw [hmemregs]
        exact matches_empty

/-- A message of another program keeps the entry. -/
theorem inv_other (h : Inv s) {clientId : UInt32} {msg : ClientMsg}
    (hpermit : Permitted s (.other clientId msg)) :
    Inv { s with registry := (ipcProcess s.registry clientId msg).1 } := by
  intro hconnected
  obtain ⟨ce, hentry, hvars, hhooks, hmemregs⟩ := h hconnected
  obtain ⟨hne, hnew⟩ := hpermit hconnected
  have hfresh : ∀ name port, msg = .register name port → CreatesClient s.registry name port →
      s.registry.nextClientId ≠ s.program.clientId := by
    rintro name port rfl hcreates hid
    exact hnew ⟨hcreates, hid⟩
  obtain ⟨ce', hentry', hsame⟩ := entryOf_ipcProcess_of_ne hne hfresh hentry
  exact ⟨ce', hentry', hsame.vars ▸ hvars, hsame.hooks ▸ hhooks, hsame.memregs ▸ hmemregs⟩

/-- Every permitted step keeps the invariant. -/
theorem inv_step {a : Label} (h : Inv s) (hpermit : Permitted s a) (hstep : step s a = some s') :
    Inv s' := by
  cases a <;> cases hstep
  case init => exact inv_init h hpermit
  case registerVar => exact inv_registerVar h hpermit
  case unregisterVar => exact inv_unregisterVar h _
  case registerHook => exact inv_registerHook h hpermit
  case unregisterHook => exact inv_unregisterHook h _
  case registerMemregion => exact inv_registerMemregion h hpermit
  case unregisterMemregion => exact inv_unregisterMemregion h _
  case cleanup =>
    unfold abCleanup
    split_ifs with hconnected
    · exact nofun
    · exact h
  case exit => exact nofun
  case other => exact inv_other h hpermit

end Runs

/-- In every run whose steps meet the condition, the daemon mirrors the client's tables in every
state. -/
theorem registry_mirrors {s : System} (h : Reaches step Permitted .initial s) : Mirrors s :=
  (h.invariant Inv (fun hconnected => absurd hconnected (by decide)) fun _ _ _ hinv hpermit
    hstep => inv_step hinv hpermit hstep).mirrors

/-- A run with two programs, a long name, a cleanup and a second registration. -/
theorem registry_mirrors_game : ∃ s : System, s.program.connected ∧
    s.program.vars.entries ≠ [] ∧ s.program.memregs.entries ≠ [] ∧ Mirrors s := by
  let game : CString := ⟨"game".toList, by decide⟩
  let score : CString := ⟨"score".toList, by decide⟩
  let long : CString := ⟨"the_number_of_enemies_left_in_the_current_level".toList, by decide⟩
  let labels : List Label := [.other 0 (.register "shell".toList (some 1)), .init game (some 2),
    .registerVar (some score) 0 4096, .registerHook (some score) (some game) 8192, .cleanup, .exit,
    .init game (some 3), .registerVar (some score) (-1) 4096, .registerVar (some long) 1 4100,
    .registerMemregion (some score) 4096 16 none, .other 1 (.varRegister "score|2".toList),
    .unregisterVar (some score), .unregisterVar (some long)]
  have hrun : (runLabels step .initial labels).any (fun s => s.program.connected ∧
      s.program.vars.entries ≠ [] ∧ s.program.memregs.entries ≠ []) = true := by decide
  have hpermitted : AllPermitted step Permitted .initial labels := by decide
  obtain ⟨s, hs, hfacts⟩ := (Option.any_eq_true ..).mp hrun
  obtain ⟨hconnected, hvars, hmemregs⟩ := of_decide_eq_true hfacts
  exact ⟨s, hconnected, hvars, hmemregs, registry_mirrors (Reaches.of_labels .refl hs hpermitted)⟩

/-- A program that ended without cleaning up gets its old entry again, with a variable that it has
not registered. -/
theorem registry_not_mirrors : ¬ ∀ (labels : List Label) (s : System),
    runLabels step .initial labels = some s → Mirrors s := by
  intro hall
  let game : CString := ⟨"game".toList, by decide⟩
  let score : CString := ⟨"score".toList, by decide⟩
  have hrun : (runLabels step .initial [.init game (some 1), .registerVar (some score) 0 4096,
      .exit, .init game (some 2)]).any (fun s => s.program.connected ∧
        s.program.vars.entries = [] ∧
        (s.registry.entryOf s.program.clientId).map (·.vars) = some [⟨"score".toList, 0⟩]) =
      true := by decide
  obtain ⟨s, hs, hfacts⟩ := (Option.any_eq_true ..).mp hrun
  obtain ⟨hconnected, hnone, hlisted⟩ := of_decide_eq_true hfacts
  obtain ⟨ce, hentry, hvars, -, -⟩ := hall _ s hs hconnected
  rw [hentry, Option.map_some] at hlisted
  rw [hnone, Option.some.inj hlisted] at hvars
  cases hvars.length_eq

end AmigaDevbench.RegistryMirror
