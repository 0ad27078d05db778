import AmigaDevbench.Core.Runs
import AmigaDevbench.Daemon.Clients

/-!
# Reaching every client

The daemon gives out ids without end, and its loops look for clients by id: the listings up to
100, the fallback of EXEC and the shutdown up to the size of the table. A message to a client that
does not reply in time is lost to the pool. Every client is reached by every loop exactly as long
as the ids of the active clients are different and within the size of the table, and the pool has
a message for each of them.
-/

namespace AmigaDevbench.Daemon

open Registry

/-- The registry, and how many messages of the pool are lost. -/
structure Ipc where
  registry : Registry
  leaked : Nat

/-- A client's message, or a message to a client that is replied to in time or not. -/
inductive IpcLabel where
  | message (clientId : UInt32) (msg : ClientMsg)
  | forward (answered : Bool)

namespace Ipc

/-- The daemon when it starts. -/
def initial : Ipc := ⟨.initial, 0⟩

/-- One step. Without a free message of the pool nothing is sent. -/
def step (s : Ipc) : IpcLabel → Option Ipc
  | .message clientId msg => some { s with registry := (ipcProcess s.registry clientId msg).1 }
  | .forward answered =>
    some { s with leaked := if answered ∨ 8 ≤ s.leaked then s.leaked else s.leaked + 1 }

/-- The slots in an order in which each active client stands once. -/
def OnceEach (r : Registry) (order : List (Fin maxClients)) : Prop :=
  ∀ i, order.count i = if (r.clients i).isSome then 1 else 0

/-- Every active client is listed once, considered by EXEC and notified of the shutdown. -/
structure EveryClientReachable (s : Ipc) : Prop where
  clients : ∃ order, OnceEach s.registry order ∧ s.registry.protocolSendClients =
    clientsHead s.registry.clientCount ++
      [','].intercalate ((order.filterMap s.registry.clients).map clientText)
  hooks : s.registry.clientCount ≠ 0 → ∃ order, OnceEach s.registry order ∧
    s.registry.handleListhooks = (order.filterMap s.registry.clients).map hooksLine
  memregs : s.registry.clientCount ≠ 0 → ∃ order, OnceEach s.registry order ∧
    s.registry.handleListmemregs = (order.filterMap s.registry.clients).map memregsLine
  exec : ∀ i, (s.registry.clients i).isSome → i ∈ s.registry.execCandidates
  shutdown : ∀ answers i, (s.registry.clients i).isSome →
    i ∈ notifyShutdown answers s.leaked s.registry.execCandidates

/-- The ids of the active clients are different. -/
def DistinctIds (r : Registry) : Prop :=
  ∀ i j ce ce', r.clients i = some ce → r.clients j = some ce' → ce.clientId = ce'.clientId → i = j

/-- The loops over the first ids find every active client. -/
def LowIds (r : Registry) : Prop :=
  ∀ i ce, r.clients i = some ce → 1 ≤ ce.clientId.toNat ∧ ce.clientId.toNat ≤ maxClients

/-- The pool has a message for every active client. -/
def PoolSuffices (s : Ipc) : Prop :=
  s.registry.clientCount = 0 ∨ s.leaked + s.registry.clientCount ≤ 8

section Loops

variable {r : Registry} {i : Fin maxClients} {id : UInt32} {last : Nat}

theorem mem_idsTo (hlast : last < 2 ^ 32) :
    id ∈ idsTo last ↔ 1 ≤ id.toNat ∧ id.toNat ≤ last := by
  simp only [idsTo, List.mem_map, List.mem_range]
  constructor
  · rintro ⟨k, hk, rfl⟩
    rw [UInt32.toNat_ofNat_of_lt' (show k + 1 < 2 ^ 32 by omega)]
    omega
  · rintro ⟨hlow, hhigh⟩
    refine ⟨id.toNat - 1, by omega, ?_⟩
    rw [Nat.sub_add_cancel hlow, UInt32.ofNat_toNat]

theorem nodup_idsTo (hlast : last < 2 ^ 32) : (idsTo last).Nodup := by
  refine List.Nodup.map_on ?_ List.nodup_range
  intro k hk l hl heq
  have hk' := List.mem_range.mp hk
  have hl' := List.mem_range.mp hl
  have hnat := congrArg UInt32.toNat heq
  rw [UInt32.toNat_ofNat_of_lt' (show k + 1 < 2 ^ 32 by omega),
    UInt32.toNat_ofNat_of_lt' (show l + 1 < 2 ^ 32 by omega)] at hnat
  omega

theorem id_of_clientFind (h : r.clientFind id = some i) :
    ∃ ce, r.clients i = some ce ∧ ce.clientId = id := by
  obtain ⟨ce, hi, hid⟩ := Slots.find_eq_some h
  exact ⟨ce, hi, of_decide_eq_true hid⟩

/-- Different ids find different clients. -/
theorem nodup_filterMap_clientFind {ids : List UInt32} (h : ids.Nodup) :
    (ids.filterMap r.clientFind).Nodup := by
  refine h.filterMap fun id id' i hi hi' => ?_
  obtain ⟨ce, hce, hid⟩ := id_of_clientFind hi
  obtain ⟨ce', hce', hid'⟩ := id_of_clientFind hi'
  rw [hce] at hce'
  cases hce'
  exact hid.symm.trans hid'

theorem clientCount_eq (r : Registry) : r.clientCount =
    ((List.finRange maxClients).filter fun i => (r.clients i).isSome).length := by
  rw [clientCount, Slots.entries, List.length_filterMap_eq_countP, List.countP_eq_length_filter]

/-- Clients found by different ids are not more than the active ones. -/
theorem length_filterMap_clientFind_le {ids : List UInt32} (h : ids.Nodup) :
    (ids.filterMap r.clientFind).length ≤ r.clientCount := by
  have hactive : ∀ i ∈ ids.filterMap r.clientFind, (r.clients i).isSome := by
    intro i hi
    obtain ⟨id, -, hfind⟩ := List.mem_filterMap.mp hi
    obtain ⟨ce, hce, -⟩ := id_of_clientFind hfind
    rw [hce]
    rfl
  have hsub : (ids.filterMap r.clientFind).Subperm
      ((List.finRange maxClients).filter fun i => (r.clients i).isSome) :=
    List.subperm_of_subset (nodup_filterMap_clientFind h) fun i hi =>
      List.mem_filter.mpr ⟨List.mem_finRange i, hactive i hi⟩
  rw [clientCount_eq]
  exact hsub.length_le

/-- The loop over the ids finds what each of them finds. -/
theorem findIds_eq {ids : List UInt32} :
    ∀ {before : List UInt32}, (before ++ ids).Nodup →
      r.findIds (before.filterMap r.clientFind).length ids = ids.filterMap r.clientFind := by
  induction ids with
  | nil => intro before _; rfl
  | cons id ids ih =>
    intro before hnodup
    have hnext : (before ++ [id] ++ ids).Nodup := by rwa [List.append_assoc]
    have hrest := ih hnext
    rw [List.filterMap_append, List.length_append] at hrest
    have hall := length_filterMap_clientFind_le (r := r) hnodup
    rw [List.filterMap_append, List.length_append] at hall
    rw [findIds]
    cases hfind : r.clientFind id with
    | some i =>
      rw [List.filterMap_cons_some hfind] at hall ⊢
      rw [List.filterMap_cons_some hfind] at hrest
      rw [List.length_cons] at hall
      rw [if_pos (by omega)]
      exact congrArg (i :: ·) hrest
    | none =>
      rw [List.filterMap_cons_none hfind] at hall ⊢
      rw [List.filterMap_cons_none hfind] at hrest
      split_ifs with hfound
      · exact hrest
      · exact (List.eq_nil_of_length_eq_zero (by omega)).symm

theorem enumerate_eq : r.enumerate = (idsTo 100).filterMap r.clientFind :=
  @findIds_eq _ _ [] (nodup_idsTo (by decide))

/-- A loop over enough ids meets each active client once. -/
theorem onceEach_filterMap (hlow : LowIds r) (hdistinct : DistinctIds r) (hlast : last < 2 ^ 32)
    (hle : maxClients ≤ last) : OnceEach r ((idsTo last).filterMap r.clientFind) := by
  intro i
  cases hi : r.clients i with
  | none =>
    rw [List.count_eq_zero.mpr]
    · rfl
    · intro hmem
      obtain ⟨id, -, hfind⟩ := List.mem_filterMap.mp hmem
      obtain ⟨ce, hce, -⟩ := id_of_clientFind hfind
      rw [hi] at hce
      cases hce
  | some ce =>
    have hfind : r.clientFind ce.clientId = some i :=
      Slots.find_of_unique hi (decide_eq_true rfl) fun j ce' hj hid =>
        hdistinct j i ce' ce hj hi (of_decide_eq_true hid)
    have hid := hlow i ce hi
    have hmem : i ∈ (idsTo last).filterMap r.clientFind :=
      List.mem_filterMap.mpr ⟨ce.clientId, (mem_idsTo hlast).mpr ⟨hid.1, hid.2.trans hle⟩, hfind⟩
    exact List.count_eq_one_of_mem (nodup_filterMap_clientFind (nodup_idsTo hlast)) hmem

/-- The first ids reach every active client only if they are different and low. -/
theorem lowIds_of_exec (h : ∀ i, (r.clients i).isSome → i ∈ r.execCandidates) :
    LowIds r ∧ DistinctIds r := by
  have hfound : ∀ i ce, r.clients i = some ce →
      ce.clientId ∈ idsTo maxClients ∧ r.clientFind ce.clientId = some i := by
    intro i ce hi
    obtain ⟨id, hid, hfind⟩ := List.mem_filterMap.mp (h i (by rw [hi]; rfl))
    obtain ⟨ce', hce', heq⟩ := id_of_clientFind hfind
    rw [hi] at hce'
    cases hce'
    rw [heq]
    exact ⟨hid, hfind⟩
  refine ⟨fun i ce hi => (mem_idsTo (by decide)).mp (hfound i ce hi).1, ?_⟩
  intro i j ce ce' hi hj heq
  have hfirst := (hfound i ce hi).2
  rw [heq, (hfound j ce' hj).2] at hfirst
  exact (Option.some.inj hfirst).symm

end Loops

section Lines

/-- The length of one entry of the CLIENTS line. -/
theorem length_clientText_le (ce : ClientEntry) : (clientText ce).length ≤ 45 := by
  have hname := ce.name.length_le
  have hid : (decimal ce.clientId.toNat).length ≤ 10 := by
    have hlt := ce.clientId.toNat_lt
    rw [decimal, Nat.length_toDigits_le_iff (by decide) (by decide)]
    omega
  simp only [clientText, List.length_append, List.length_cons, List.length_nil]
  omega

/-- Entries that fit are written with commas between them. -/
theorem writeClients_eq (ces : List ClientEntry) : ∀ {found : Nat} {cbuf : Text},
    cbuf.length + 46 * ces.length < maxLine - 64 →
      writeClients found cbuf ces = cbuf ++
        (if 0 < found ∧ ces ≠ [] then [','] else []) ++ [','].intercalate (ces.map clientText) := by
  have hline : maxLine = 8192 := rfl
  induction ces with
  | nil =>
    intro found cbuf _
    simp [writeClients, List.intercalate]
  | cons ce ces ih =>
    intro found cbuf hlen
    have htext := length_clientText_le ce
    rw [List.length_cons] at hlen
    have hcomma : (if 0 < found ∧ cbuf.length < maxLine - 2 then cbuf ++ [','] else cbuf) =
        cbuf ++ (if 0 < found ∧ ce :: ces ≠ [] then [','] else []) := by
      by_cases hfound : 0 < found
      · rw [if_pos ⟨hfound, by omega⟩, if_pos ⟨hfound, List.cons_ne_nil _ _⟩]
      · rw [if_neg fun h => hfound h.1, if_neg fun h => hfound h.1, List.append_nil]
    have hshort : (cbuf ++ (if 0 < found ∧ ce :: ces ≠ [] then [','] else []) ++
        clientText ce).length ≤ cbuf.length + 46 := by
      simp only [List.length_append]
      split_ifs
      · rw [List.length_singleton]; omega
      · rw [List.length_nil]; omega
    simp only [writeClients, hcomma]
    rw [if_neg (by omega), ih (by omega)]
    cases ces with
    | nil => simp [List.intercalate]
    | cons ce' ces =>
      have hnext : 0 < found + 1 ∧ ce' :: ces ≠ [] := ⟨by omega, List.cons_ne_nil _ _⟩
      simp only [if_pos hnext, List.map_cons, List.intercalate_cons_cons, List.append_assoc]

theorem length_clientsHead_le {r : Registry} : (clientsHead r.clientCount).length ≤ 16 := by
  have hcount : r.clientCount ≤ 16 := Slots.length_entries_le
  have hdecimal : (decimal r.clientCount).length ≤ 7 := by
    rw [decimal, Nat.length_toDigits_le_iff (by decide) (by decide)]
    omega
  have hclients : "CLIENTS|".toList.length = 8 := rfl
  change ("CLIENTS|".toList ++ decimal r.clientCount ++ ['|']).length ≤ 16
  simp only [List.length_append, hclients, List.length_singleton]
  omega

/-- The CLIENTS line has room for all clients that are found. -/
theorem protocolSendClients_eq (r : Registry) : r.protocolSendClients =
    clientsHead r.clientCount ++
      [','].intercalate ((r.enumerate.filterMap r.clients).map clientText) := by
  have hhead := length_clientsHead_le (r := r)
  have hline : maxLine = 8192 := rfl
  have hcount : r.clientCount ≤ 16 := Slots.length_entries_le
  have hlen : (r.enumerate.filterMap r.clients).length ≤ r.clientCount := by
    refine (List.length_filterMap_le _ _).trans ?_
    rw [enumerate_eq]
    exact length_filterMap_clientFind_le (nodup_idsTo (by decide))
  rw [protocolSendClients, writeClients_eq _ (by omega)]
  simp

end Lines

section Exact

variable {s s' : Ipc} {r : Registry}

/-- While the pool has a message for each, all are notified. -/
theorem notifyShutdown_eq (answers : Fin maxClients → Bool) :
    ∀ (order : List (Fin maxClients)) {leaked : Nat}, leaked + order.length ≤ 8 →
      notifyShutdown answers leaked order = order := by
  intro order
  induction order with
  | nil => intro leaked _; rfl
  | cons i order ih =>
    intro leaked hlen
    rw [List.length_cons] at hlen
    rw [notifyShutdown, if_pos (by omega), ih]
    split_ifs <;> omega

/-- If nobody answers, the lost messages and the notified clients are at most the pool. -/
theorem length_notifyShutdown_silent (order : List (Fin maxClients)) :
    ∀ {leaked : Nat}, leaked ≤ 8 →
      leaked + (notifyShutdown (fun _ => false) leaked order).length ≤ 8 := by
  induction order with
  | nil => intro leaked hle; simpa [notifyShutdown] using hle
  | cons i order ih =>
    intro leaked hle
    by_cases hroom : leaked < 8
    · have hrest := @ih (leaked + 1) (by omega)
      simp only [notifyShutdown, if_pos hroom, Bool.false_eq_true, if_false, List.length_cons]
      omega
    · rw [notifyShutdown, if_neg hroom]
      exact ih hle

theorem notifyShutdown_of_empty (answers : Fin maxClients → Bool) :
    ∀ (order : List (Fin maxClients)) {leaked : Nat}, 8 ≤ leaked →
      notifyShutdown answers leaked order = [] := by
  intro order
  induction order with
  | nil => intro leaked _; rfl
  | cons i order ih =>
    intro leaked hle
    rw [notifyShutdown, if_neg (by omega), ih hle]

/-- The number of clients in an order that lists each once. -/
theorem OnceEach.perm {order : List (Fin maxClients)} (h : OnceEach r order) :
    order.Perm ((List.finRange maxClients).filter fun i => (r.clients i).isSome) := by
  rw [List.perm_iff_count]
  intro i
  rw [h i]
  split_ifs with hi
  · exact (List.count_eq_one_of_mem ((List.nodup_finRange _).filter _)
      (List.mem_filter.mpr ⟨List.mem_finRange i, hi⟩)).symm
  · refine (List.count_eq_zero.mpr fun hmem => ?_).symm
    exact hi (List.mem_filter.mp hmem).2

/-- Every client is reached exactly if the ids are low and different and the pool suffices. -/
theorem everyClientReachable_iff : EveryClientReachable s ↔
    LowIds s.registry ∧ DistinctIds s.registry ∧ PoolSuffices s := by
  constructor
  · intro h
    obtain ⟨hlow, hdistinct⟩ := lowIds_of_exec h.exec
    refine ⟨hlow, hdistinct, ?_⟩
    by_cases hzero : s.registry.clientCount = 0
    · exact .inl hzero
    · right
      have hnotified : ((List.finRange maxClients).filter fun i =>
          (s.registry.clients i).isSome).length ≤
            (notifyShutdown (fun _ => false) s.leaked s.registry.execCandidates).length :=
        (List.subperm_of_subset ((List.nodup_finRange _).filter _) fun i hi =>
          h.shutdown _ i (List.mem_filter.mp hi).2).length_le
      rw [← clientCount_eq] at hnotified
      by_cases hpool : s.leaked ≤ 8
      · have hsilent := length_notifyShutdown_silent s.registry.execCandidates hpool
        omega
      · rw [notifyShutdown_of_empty _ _ (by omega), List.length_nil] at hnotified
        omega
  · rintro ⟨hlow, hdistinct, hpool⟩
    have hlisted : OnceEach s.registry s.registry.enumerate := by
      rw [enumerate_eq]
      exact onceEach_filterMap hlow hdistinct (by decide) (by decide)
    have hexec : OnceEach s.registry s.registry.execCandidates :=
      onceEach_filterMap hlow hdistinct (by decide) le_rfl
    have hactive : ∀ i, (s.registry.clients i).isSome → i ∈ s.registry.execCandidates := by
      intro i hi
      have hcount := hexec i
      rw [if_pos hi] at hcount
      exact List.count_pos_iff.mp (by omega)
    have hnonempty : s.registry.clientCount ≠ 0 → s.registry.enumerate ≠ [] := by
      intro hcount hnil
      rw [clientCount_eq, ← hlisted.perm.length_eq, hnil] at hcount
      exact hcount rfl
    refine ⟨⟨_, hlisted, protocolSendClients_eq _⟩, ?_, ?_, hactive, ?_⟩
    · exact fun hcount => ⟨_, hlisted, if_neg (hnonempty hcount)⟩
    · exact fun hcount => ⟨_, hlisted, if_neg (hnonempty hcount)⟩
    · intro answers i hi
      have hmem := hactive i hi
      have hlen : s.registry.execCandidates.length = s.registry.clientCount := by
        rw [hexec.perm.length_eq, clientCount_eq]
      rcases hpool with hzero | hpool
      · rw [hzero] at hlen
        rw [List.eq_nil_of_length_eq_zero hlen] at hmem
        cases hmem
      · rw [notifyShutdown_eq answers _ (by omega)]
        exact hmem

/-- A registration that makes a new entry. -/
def CreatesClient (r : Registry) (name : Text) (replyPort : Option Port) : Prop :=
  replyPort.isSome ∧ r.clientFindByName name = none ∧ r.clients.findFree.isSome

instance (r : Registry) (name : Text) (replyPort : Option Port) :
    Decidable (CreatesClient r name replyPort) :=
  inferInstanceAs (Decidable (_ ∧ _ ∧ _))

/-- A new client gets a low id that no active client has, and a message is left for it; a message
that is not replied to leaves one for every active client. -/
def Permitted (s : Ipc) : IpcLabel → Prop
  | .message _ (.register name replyPort) =>
    CreatesClient s.registry name replyPort →
      (1 ≤ s.registry.nextClientId.toNat ∧ s.registry.nextClientId.toNat ≤ maxClients) ∧
      s.registry.clientFind s.registry.nextClientId = none ∧
      s.leaked + s.registry.clientCount < 8
  | .message _ _ => True
  | .forward answered =>
    answered = true ∨ 8 ≤ s.leaked ∨ s.registry.clientCount = 0 ∨
      s.leaked + s.registry.clientCount < 8

/-- Slots that keep their ids. -/
def SameIds (r r' : Registry) : Prop :=
  ∀ i, (r'.clients i).map (·.clientId) = (r.clients i).map (·.clientId)

/-- The condition speaks about the ids only. -/
theorem SameIds.conditions {r' : Registry} (h : SameIds r r') :
    (LowIds r → LowIds r') ∧ (DistinctIds r → DistinctIds r') ∧ r'.clientCount = r.clientCount := by
  have hback : ∀ i ce, r'.clients i = some ce →
      ∃ ce', r.clients i = some ce' ∧ ce'.clientId = ce.clientId := by
    intro i ce hi
    have hsame := h i
    rw [hi, Option.map_some] at hsame
    exact Option.map_eq_some_iff.mp hsame.symm
  refine ⟨fun hlow i ce hi => ?_, fun hdistinct i j ce ce' hi hj heq => ?_, ?_⟩
  · obtain ⟨ce', hi', hid⟩ := hback i ce hi
    rw [← hid]
    exact hlow i ce' hi'
  · obtain ⟨old, hold, hid⟩ := hback i ce hi
    obtain ⟨old', hold', hid'⟩ := hback j ce' hj
    exact hdistinct i j old old' hold hold' (hid.trans (heq.trans hid'.symm))
  · have hsome : ∀ i, (r'.clients i).isSome = (r.clients i).isSome := by
      intro i
      rw [← Option.isSome_map, h i, Option.isSome_map]
    rw [clientCount_eq, clientCount_eq]
    simp only [hsome]

theorem sameIds_modify {i : Fin maxClients} {f : ClientEntry → ClientEntry} (nextClientId : UInt32)
    (hf : ∀ ce, (f ce).clientId = ce.clientId) :
    SameIds r ⟨r.clients.modify i f, nextClientId⟩ := by
  intro j
  dsimp only
  by_cases hj : j = i
  · rw [hj, Slots.modify_self, Option.map_map]
    cases r.clients i with
    | none => rfl
    | some ce => exact congrArg some (hf ce)
  · rw [Slots.modify_of_ne hj]

theorem sameIds_update {id : UInt32} {f : ClientEntry → ClientEntry}
    (hf : ∀ ce, (f ce).clientId = ce.clientId) : SameIds r (r.update id f) := by
  unfold update
  cases r.clientFind id with
  | none => exact fun i => rfl
  | some i => exact sameIds_modify _ hf

/-- What a message does to the ids: nothing, it frees a slot, or it gives the next id to a new
client. -/
theorem ipcProcess_cases (r : Registry) (clientId : UInt32) (msg : ClientMsg) :
    SameIds r (ipcProcess r clientId msg).1 ∧
        (∀ name port, msg = .register name port → ¬ CreatesClient r name port) ∨
      (∃ i, msg = .unregister ∧ (ipcProcess r clientId msg).1.clients = r.clients.clear i) ∨
      ∃ name port i ce, msg = .register name port ∧ CreatesClient r name port ∧
        r.clients i = none ∧ ce.clientId = r.nextClientId ∧
        (ipcProcess r clientId msg).1.clients = r.clients.put i ce := by
  cases msg with
  | register name port =>
    have hprocess : (ipcProcess r clientId (.register name port)).1 =
        (r.clientRegister name port).1 := by
      simp only [ipcProcess]
      split_ifs <;> rfl
    rw [hprocess]
    unfold clientRegister
    cases port with
    | none =>
      refine .inl ⟨fun i => rfl, fun name' port' heq => ?_⟩
      cases heq
      exact fun hcreates => absurd hcreates.1 (by decide)
    | some port =>
      cases hfind : r.clientFindByName name with
      | some i =>
        refine .inl ⟨sameIds_modify _ fun ce => rfl, fun name' port' heq hcreates => ?_⟩
        cases heq
        exact absurd (hfind.symm.trans hcreates.2.1) (by simp)
      | none =>
        cases hfree : r.clients.findFree with
        | none =>
          refine .inl ⟨fun i => rfl, fun name' port' heq hcreates => ?_⟩
          cases heq
          exact absurd hcreates.2.2 (by simp [hfree])
        | some i =>
          refine .inr (.inr ⟨name, some port, i, _, rfl, ⟨rfl, hfind, ?_⟩,
            Slots.findFree_eq_some hfree, rfl, rfl⟩)
          rw [hfree]
          rfl
  | unregister =>
    have hprocess : (ipcProcess r clientId .unregister).1 = r.clientUnregister clientId := rfl
    rw [hprocess]
    unfold clientUnregister
    cases hfind : r.clientFind clientId with
    | none => exact .inl ⟨fun i => rfl, nofun⟩
    | some i => exact .inr (.inl ⟨i, rfl, rfl⟩)
  | varRegister data => exact .inl ⟨sameIds_update (clientId_readVar data), nofun⟩
  | varUnregister data => exact .inl ⟨sameIds_update fun ce => rfl, nofun⟩
  | hookRegister data => exact .inl ⟨sameIds_update (clientId_readHook data), nofun⟩
  | hookUnregister data => exact .inl ⟨sameIds_update fun ce => rfl, nofun⟩
  | memregRegister data => exact .inl ⟨sameIds_update (clientId_readMemreg data), nofun⟩
  | memregUnregister data => exact .inl ⟨sameIds_update fun ce => rfl, nofun⟩

/-- The condition on a state. -/
def Covered (s : Ipc) : Prop := LowIds s.registry ∧ DistinctIds s.registry ∧ PoolSuffices s

/-- A message keeps the condition exactly if it is permitted. -/
theorem covered_message_iff (h : Covered s) (clientId : UInt32) (msg : ClientMsg) :
    Covered { s with registry := (ipcProcess s.registry clientId msg).1 } ↔
      Permitted s (.message clientId msg) := by
  obtain ⟨hlow, hdistinct, hpool⟩ := h
  rcases ipcProcess_cases s.registry clientId msg with ⟨hsame, hnew⟩ | ⟨i, rfl, hclients⟩ |
    ⟨name, port, i, ce, rfl, hcreates, hfree, hid, hclients⟩
  · obtain ⟨hlow', hdistinct', hcount⟩ := hsame.conditions
    refine iff_of_true ⟨hlow' hlow, hdistinct' hdistinct, ?_⟩ ?_
    · unfold PoolSuffices
      rw [hcount]
      exact hpool
    · cases msg with
      | register name port => exact fun hcreates => absurd hcreates (hnew name port rfl)
      | _ => trivial
  · refine iff_of_true ?_ trivial
    have hback : ∀ j ce, (s.registry.clients.clear i) j = some ce →
        s.registry.clients j = some ce := by
      intro j ce hj
      by_cases hji : j = i
      · rw [hji, Slots.clear_self] at hj
        cases hj
      · rwa [Slots.clear_of_ne hji] at hj
    refine ⟨fun j ce hj => ?_, fun j k ce ce' hj hk => ?_, ?_⟩
    · rw [hclients] at hj
      exact hlow j ce (hback j ce hj)
    · rw [hclients] at hj hk
      exact hdistinct j k ce ce' (hback j ce hj) (hback k ce' hk)
    · have hcount : (ipcProcess s.registry clientId .unregister).1.clientCount ≤
          s.registry.clientCount := by
        rw [clientCount, clientCount, hclients]
        cases hi : s.registry.clients i with
        | none =>
          have hclear : s.registry.clients.clear i = s.registry.clients := by
            rw [Slots.clear, ← hi, Function.update_eq_self]
          rw [hclear]
        | some ce =>
          obtain ⟨rest, hbefore, hafter, -⟩ := Slots.perm_used hi
          rw [hbefore.length_eq, hafter.length_eq, List.length_cons]
          omega
      unfold PoolSuffices at hpool ⊢
      dsimp only
      omega
  · have hcount : (ipcProcess s.registry clientId (.register name port)).1.clientCount =
        s.registry.clientCount + 1 := by
      rw [clientCount, hclients, (Slots.perm_put_free hfree).length_eq, List.length_cons]
      rfl
    have hother : ∀ j old, s.registry.clients j = some old → j ≠ i := by
      rintro j old hj rfl
      rw [hfree] at hj
      cases hj
    have hput : ∀ j old, s.registry.clients j = some old →
        (ipcProcess s.registry clientId (.register name port)).1.clients j = some old := by
      intro j old hj
      rw [hclients, Slots.put_of_ne (hother j old hj), hj]
    have hnew : (ipcProcess s.registry clientId (.register name port)).1.clients i = some ce := by
      rw [hclients, Slots.put_self]
    constructor
    · rintro ⟨hlow', hdistinct', hpool'⟩ -
      refine ⟨hid ▸ hlow' i ce hnew, ?_, ?_⟩
      · cases hfind : s.registry.clientFind s.registry.nextClientId with
        | none => rfl
        | some j =>
          obtain ⟨old, hj, hold⟩ := id_of_clientFind hfind
          exact absurd (hdistinct' j i old ce (hput j old hj) hnew (hold.trans hid.symm))
            (hother j old hj)
      · rcases hpool' with hzero | hle
        · exact absurd (hcount.symm.trans hzero) (by omega)
        · have hle' : s.leaked + (s.registry.clientCount + 1) ≤ 8 := hcount ▸ hle
          omega
    · intro hpermit
      obtain ⟨hid', hunused, hroom⟩ := hpermit hcreates
      have hsplit : ∀ j old, (ipcProcess s.registry clientId (.register name port)).1.clients j =
          some old → j = i ∧ old = ce ∨ s.registry.clients j = some old := by
        intro j old hj
        rw [hclients] at hj
        by_cases hji : j = i
        · rw [hji, Slots.put_self] at hj
          exact .inl ⟨hji, (Option.some.inj hj).symm⟩
        · rw [Slots.put_of_ne hji] at hj
          exact .inr hj
      have hfresh : ∀ j old, s.registry.clients j = some old → old.clientId ≠ ce.clientId := by
        intro j old hj heq
        have hnone := Slots.find_eq_none.mp hunused j old hj
        exact absurd (heq.trans hid) (of_decide_eq_false hnone)
      refine ⟨fun j old hj => ?_, fun j k old old' hj hk heq => ?_, .inr ?_⟩
      · rcases hsplit j old hj with ⟨-, rfl⟩ | hj
        · rw [hid]
          exact hid'
        · exact hlow j old hj
      · rcases hsplit j old hj with ⟨rfl, rfl⟩ | hj <;> rcases hsplit k old' hk with ⟨rfl, rfl⟩ | hk
        · rfl
        · exact absurd heq.symm (hfresh k old' hk)
        · exact absurd heq (hfresh j old hj)
        · exact hdistinct j k old old' hj hk heq
      · dsimp only
        rw [hcount]
        omega

/-- A message to a client keeps the condition exactly if it is permitted. -/
theorem covered_forward_iff (h : Covered s) (answered : Bool) :
    Covered { s with leaked := if answered ∨ 8 ≤ s.leaked then s.leaked else s.leaked + 1 } ↔
      Permitted s (.forward answered) := by
  obtain ⟨hlow, hdistinct, hpool⟩ := h
  unfold Covered PoolSuffices Permitted
  dsimp only
  unfold PoolSuffices at hpool
  simp only [hlow, hdistinct, true_and]
  cases answered with
  | true => simpa using hpool
  | false =>
    simp only [Bool.false_eq_true, false_or]
    split_ifs <;> omega

/-- In every run every active client is reached by every loop throughout exactly if each step is
permitted. -/
theorem every_client_reachable_iff (labels : List IpcLabel) :
    Always step EveryClientReachable initial labels ↔
      AllPermitted step Permitted initial labels := by
  have hinv : ∀ s label s', True → step s label = some s' → True := fun _ _ _ h _ => h
  refine always_iff_allPermitted hinv ?_ nofun labels _ trivial ?_
  · intro s label s' _ hreachable hstep
    have hcovered : Covered s := everyClientReachable_iff.mp hreachable
    rw [everyClientReachable_iff]
    cases label with
    | message clientId msg =>
      cases hstep
      exact covered_message_iff hcovered clientId msg
    | forward answered =>
      cases hstep
      exact covered_forward_iff hcovered answered
  · have hempty : initial.registry.clientCount = 0 := congrArg List.length Slots.entries_empty
    exact everyClientReachable_iff.mpr ⟨nofun, nofun, .inl hempty⟩

end Exact

/-- A program that is started and ended, over and over. -/
def restarts : Nat → List IpcLabel
  | 0 => []
  | n + 1 => restarts n ++
      [.message 0 (.register ['a'] (some 1)), .message (UInt32.ofNat (n + 1)) .unregister]

/-- The seventeenth client gets the id 17, which neither EXEC nor the shutdown looks for. -/
theorem every_client_not_reachable :
    ¬ ∀ labels, Always step EveryClientReachable initial labels := by
  intro hall
  have hend : (runLabels step initial
      (restarts 16 ++ [.message 0 (.register ['a'] (some 1))])).map
        (fun s => ((s.registry.clients 0).isSome, decide (0 ∈ s.registry.execCandidates))) =
      some (true, false) := by
    decide +kernel
  obtain ⟨s, hrun, hresult⟩ := Option.map_eq_some_iff.mp hend
  obtain ⟨hactive, hexec⟩ := Prod.mk.inj hresult
  exact of_decide_eq_false hexec (((hall _).last hrun).exec 0 hactive)

end Ipc

end AmigaDevbench.Daemon
