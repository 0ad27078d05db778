import AmigaDevbench.Daemon.Reachability

/-!
# The entry of an id

The daemon finds a client's entry by its id, the first one that carries it. A message under another
id keeps the tables of that entry, unless the next id comes round to it.
-/

namespace AmigaDevbench.Daemon

open CText CNumber Registry Ipc

/-- The entry that `client_find` returns. -/
def Registry.entryOf (r : Registry) (id : UInt32) : Option ClientEntry :=
  (r.clientFind id).bind r.clients

/-- The tables of an entry are the same. -/
structure SameTables (ce ce' : ClientEntry) : Prop where
  vars : ce'.vars = ce.vars
  hooks : ce'.hooks = ce.hooks
  memregs : ce'.memregs = ce.memregs

/-- The tables of an entry are empty. -/
def Bare (ce : ClientEntry) : Prop := ce.vars = [] ∧ ce.hooks = [] ∧ ce.memregs = []

instance (ce : ClientEntry) : Decidable (Bare ce) := inferInstanceAs (Decidable (_ ∧ _ ∧ _))

/-- The id that a program gets when it registers under a name. -/
def Registry.registeredId (r : Registry) (name : Text) : UInt32 :=
  ((r.clientFindByName name).bind r.clients).elim r.nextClientId (·.clientId)

variable {r r' : Registry} {id other : UInt32} {ce : ClientEntry} {f : ClientEntry → ClientEntry}

theorem entryOf_eq_some :
    r.entryOf id = some ce ↔ ∃ i, r.clientFind id = some i ∧ r.clients i = some ce :=
  Option.bind_eq_some_iff

/-- The first slot with an id depends on the ids only. -/
theorem clientFind_of_sameIds (h : SameIds r r') (id : UInt32) :
    r'.clientFind id = r.clientFind id := by
  refine Slots.find_congr fun i => ?_
  have hid := congrArg (Option.any (· = id)) (h i)
  rwa [Option.any_map, Option.any_map] at hid

theorem entryOf_update (hf : ∀ ce, (f ce).clientId = ce.clientId) :
    (r.update id f).entryOf id = (r.entryOf id).map f := by
  have hsame : (r.update id f).clientFind id = r.clientFind id :=
    clientFind_of_sameIds (sameIds_update hf) id
  rw [entryOf, entryOf, hsame]
  cases hfind : r.clientFind id with
  | none => rfl
  | some i =>
    rw [update, hfind]
    exact Slots.modify_self

/-- Changing one entry keeps the others. -/
theorem entryOf_update_of_ne (hf : ∀ ce, (f ce).clientId = ce.clientId) (hne : other ≠ id) :
    (r.update other f).entryOf id = r.entryOf id := by
  have hsame : (r.update other f).clientFind id = r.clientFind id :=
    clientFind_of_sameIds (sameIds_update hf) id
  rw [entryOf, entryOf, hsame]
  cases hfind : r.clientFind id with
  | none => rfl
  | some i =>
    rw [update]
    cases hother : r.clientFind other with
    | none => rfl
    | some j =>
      refine Slots.modify_of_ne fun hij => hne ?_
      obtain ⟨ce, hi, hid⟩ := id_of_clientFind hfind
      obtain ⟨ce', hj, hid'⟩ := id_of_clientFind hother
      rw [← hij, hi] at hj
      rw [← hid, ← hid', Option.some.inj hj]

/-- An entry that gets another reply port keeps its tables, like all others. -/
theorem entryOf_replyPort (i : Fin maxClients) (port : Port) (h : r.entryOf id = some ce) :
    ∃ ce', Registry.entryOf { r with
        clients := r.clients.modify i fun ce => { ce with replyPort := port } } id = some ce' ∧
      SameTables ce ce' := by
  obtain ⟨j, hfind, hj⟩ := entryOf_eq_some.mp h
  have hsame := clientFind_of_sameIds
    (sameIds_modify (r := r) (i := i) (f := fun ce => { ce with replyPort := port })
      r.nextClientId fun ce => rfl) id
  by_cases hij : j = i
  · refine ⟨{ ce with replyPort := port }, entryOf_eq_some.mpr ⟨j, hsame.trans hfind, ?_⟩,
      rfl, rfl, rfl⟩
    dsimp only
    rw [hij, Slots.modify_self, ← hij, hj]
    rfl
  · refine ⟨ce, entryOf_eq_some.mpr ⟨j, hsame.trans hfind, ?_⟩, rfl, rfl, rfl⟩
    dsimp only
    rw [Slots.modify_of_ne hij, hj]

/-- A slot whose entry has another id does not change what is found. -/
theorem entryOf_of_agree {i : Fin maxClients} (hagree : ∀ j, j ≠ i → r'.clients j = r.clients j)
    (hbefore : ∀ ce, r.clients i = some ce → ce.clientId ≠ id)
    (hafter : ∀ ce, r'.clients i = some ce → ce.clientId ≠ id) : r'.entryOf id = r.entryOf id := by
  have hfind : r'.clientFind id = r.clientFind id := by
    refine Slots.find_congr fun j => ?_
    by_cases hj : j = i
    · have hnone : ∀ o : Option ClientEntry, (∀ ce, o = some ce → ce.clientId ≠ id) →
          o.any (fun ce => ce.clientId = id) = false := by
        intro o ho
        rw [Option.any_eq_false]
        exact fun ce hce => by simpa using ho ce hce
      rw [hj, hnone _ hbefore, hnone _ hafter]
    · rw [hagree j hj]
  rw [entryOf, entryOf, hfind]
  cases hi : r.clientFind id with
  | none => rfl
  | some j =>
    refine hagree j ?_
    rintro rfl
    obtain ⟨ce, hj, hid⟩ := id_of_clientFind hi
    exact hbefore ce hj hid

section Register

variable {name : Text} {i : Fin maxClients}

theorem clientRegister_known (port : Port) (hname : r.clientFindByName name = some i)
    (hi : r.clients i = some ce) : r.clientRegister name (some port) =
      ({ r with clients := r.clients.modify i fun ce => { ce with replyPort := port } },
        toSigned 32 ce.clientId.toNat) := by
  unfold clientRegister
  rw [hname]
  dsimp only
  rw [hi, Option.elim_some]

theorem clientRegister_full (hname : r.clientFindByName name = none)
    (hfree : r.clients.findFree = none) : r.clientRegister name (some port) = (r, -1) := by
  unfold clientRegister
  rw [hname]
  dsimp only
  rw [hfree]

theorem clientRegister_new (port : Port) (hname : r.clientFindByName name = none)
    (hfree : r.clients.findFree = some i) : r.clientRegister name (some port) =
      (⟨r.clients.put i ⟨r.nextClientId, .register name, port, [], [], []⟩, r.nextClientId + 1⟩,
        toSigned 32 r.nextClientId.toNat) := by
  unfold clientRegister
  rw [hname]
  dsimp only
  rw [hfree]

theorem ipcProcess_register (r : Registry) (clientId : UInt32) (name : Text)
    (port : Option Port) : (ipcProcess r clientId (.register name port)).1 =
      (r.clientRegister name port).1 := by
  simp only [ipcProcess]
  split_ifs <;> rfl

/-- An id that fits in a signed number survives the reply. -/
theorem ofNat_toSigned (h : 0 ≤ toSigned 32 id.toNat) :
    UInt32.ofNat (toSigned 32 id.toNat).toNat = id := by
  have hlt := id.toNat_lt
  have hto : (toSigned 32 id.toNat).toNat = id.toNat := by
    unfold toSigned at h ⊢
    omega
  rw [hto, UInt32.ofNat_toNat]

/-- The reply to a registration with a result of zero carries the id. -/
theorem ipcProcess_registered {clientId : UInt32} {port : Option Port}
    (h : r.clientRegister name port = (r', toSigned 32 id.toNat))
    (hresult : (ipcProcess r clientId (.register name port)).2.2 = 0) :
    (ipcProcess r clientId (.register name port)).1 = r' ∧
      (ipcProcess r clientId (.register name port)).2.1 = id := by
  simp only [ipcProcess, h] at hresult ⊢
  split_ifs at hresult ⊢ with hcid
  · exact ⟨rfl, ofNat_toSigned hcid⟩
  · cases hresult

end Register

/-- A message under another id keeps the tables of an entry, unless a new client gets its id. -/
theorem entryOf_ipcProcess_of_ne {msg : ClientMsg} (hne : other ≠ id)
    (hnew : ∀ name port, msg = .register name port → CreatesClient r name port →
      r.nextClientId ≠ id) (h : r.entryOf id = some ce) :
    ∃ ce', (ipcProcess r other msg).1.entryOf id = some ce' ∧ SameTables ce ce' := by
  have hupdate : ∀ g : ClientEntry → ClientEntry, (∀ ce, (g ce).clientId = ce.clientId) →
      ∃ ce', (r.update other g).entryOf id = some ce' ∧ SameTables ce ce' := fun g hg =>
    ⟨ce, (entryOf_update_of_ne hg hne).trans h, rfl, rfl, rfl⟩
  cases msg with
  | register name port =>
    rw [ipcProcess_register]
    cases port with
    | none => exact ⟨ce, h, rfl, rfl, rfl⟩
    | some port =>
      cases hname : r.clientFindByName name with
      | some i =>
        obtain ⟨known, hi, -⟩ := Slots.find_eq_some hname
        rw [clientRegister_known _ hname hi]
        exact entryOf_replyPort _ _ h
      | none =>
        cases hfree : r.clients.findFree with
        | none =>
          rw [clientRegister_full hname hfree]
          exact ⟨ce, h, rfl, rfl, rfl⟩
        | some i =>
          have hid := hnew name (some port) rfl ⟨rfl, hname, by rw [hfree]; rfl⟩
          rw [clientRegister_new _ hname hfree]
          refine ⟨ce, (entryOf_of_agree (i := i) (fun j hj => Slots.put_of_ne hj) ?_ ?_).trans h,
            rfl, rfl, rfl⟩
          · intro ce' hi
            rw [Slots.findFree_eq_some hfree] at hi
            cases hi
          · intro ce' hi
            have hput := Slots.put_self.symm.trans hi
            rw [← Option.some.inj hput]
            exact hid
  | unregister =>
    change ∃ ce', (r.clientUnregister other).entryOf id = some ce' ∧ SameTables ce ce'
    rw [clientUnregister]
    cases hfind : r.clientFind other with
    | none => exact ⟨ce, h, rfl, rfl, rfl⟩
    | some i =>
      obtain ⟨old, hold, hid⟩ := id_of_clientFind hfind
      refine ⟨ce, (entryOf_of_agree (i := i) (fun j hj => Slots.clear_of_ne hj) ?_ ?_).trans h,
        rfl, rfl, rfl⟩
      · intro ce' hi
        rw [hold] at hi
        rw [← Option.some.inj hi, hid]
        exact hne
      · intro ce' hi
        have hclear := Slots.clear_self.symm.trans hi
        cases hclear
  | varRegister data => exact hupdate _ (clientId_readVar data)
  | varUnregister data => exact hupdate _ fun ce => rfl
  | hookRegister data => exact hupdate _ (clientId_readHook data)
  | hookUnregister data => exact hupdate _ fun ce => rfl
  | memregRegister data => exact hupdate _ (clientId_readMemreg data)
  | memregUnregister data => exact hupdate _ fun ce => rfl

/-- A registered program finds an entry without tables, if every entry with its id has none. -/
theorem entryOf_register {name : Text} (port : Port) (clientId : UInt32)
    (hbare : ∀ i ce, r.clients i = some ce → ce.clientId = r.registeredId name → Bare ce)
    (hresult : (ipcProcess r clientId (.register name (some port))).2.2 = 0) :
    ∃ ce, (ipcProcess r clientId (.register name (some port))).1.entryOf
      (ipcProcess r clientId (.register name (some port))).2.1 = some ce ∧ Bare ce := by
  cases hname : r.clientFindByName name with
  | some i =>
    obtain ⟨known, hi, -⟩ := Slots.find_eq_some hname
    have hknown := clientRegister_known port hname hi
    have hid : r.registeredId name = known.clientId := by
      rw [registeredId, hname, Option.bind_some, hi, Option.elim_some]
    obtain ⟨hregistry, hreply⟩ := ipcProcess_registered hknown hresult
    rw [hregistry, hreply]
    have hfound : (r.clientFind known.clientId).isSome :=
      Slots.find_isSome.mpr ⟨i, known, hi, decide_eq_true rfl⟩
    obtain ⟨j, hj⟩ := Option.isSome_iff_exists.mp hfound
    obtain ⟨old, hold, hsameId⟩ := id_of_clientFind hj
    obtain ⟨ce', hce', hsame⟩ := entryOf_replyPort i port
      (entryOf_eq_some.mpr ⟨j, hj, hold⟩)
    obtain ⟨hvars, hhooks, hmemregs⟩ := hbare j old hold (hsameId.trans hid.symm)
    exact ⟨ce', hce', hsame.vars.trans hvars, hsame.hooks.trans hhooks,
      hsame.memregs.trans hmemregs⟩
  | none =>
    cases hfree : r.clients.findFree with
    | none =>
      simp only [ipcProcess, clientRegister_full hname hfree] at hresult
      split_ifs at hresult with hcid
      · omega
      · cases hresult
    | some i =>
      have hnew := clientRegister_new port hname hfree
      have hid : r.registeredId name = r.nextClientId := by
        rw [registeredId, hname]
        rfl
      obtain ⟨hregistry, hreply⟩ := ipcProcess_registered hnew hresult
      rw [hregistry, hreply]
      generalize hentry : (⟨r.nextClientId, .register name, port, [], [], []⟩ : ClientEntry) = new
      have hnewId : new.clientId = r.nextClientId := by rw [← hentry]
      have hfound : (Registry.clientFind ⟨r.clients.put i new, r.nextClientId + 1⟩
          r.nextClientId).isSome :=
        Slots.find_isSome.mpr ⟨i, new, Slots.put_self, decide_eq_true hnewId⟩
      obtain ⟨j, hj⟩ := Option.isSome_iff_exists.mp hfound
      obtain ⟨ce, hce, hceId⟩ := id_of_clientFind hj
      refine ⟨ce, entryOf_eq_some.mpr ⟨j, hj, hce⟩, ?_⟩
      by_cases hij : j = i
      · rw [hij] at hce
        rw [← Option.some.inj (Slots.put_self.symm.trans hce), ← hentry]
        exact ⟨rfl, rfl, rfl⟩
      · exact hbare j ce ((Slots.put_of_ne hij).symm.trans hce) (hceId.trans hid.symm)

end AmigaDevbench.Daemon
