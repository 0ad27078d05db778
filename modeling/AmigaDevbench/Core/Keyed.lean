import Mathlib.Data.List.Nodup
import Mathlib.Data.List.Perm.Basic
import Mathlib.Data.List.Sublists

/-!
# Dictionaries in insertion order

A dictionary is the list of its items. A new value for a key that is there takes the place of the
old one, so a dictionary made of a list of items has as many of them as the list has different
keys, and is the list itself if all keys are different.
-/

namespace AmigaDevbench

namespace Keyed

variable {κ β γ : Type*} [DecidableEq κ]

/-- The keys, in insertion order. -/
def keys (d : List (κ × β)) : List κ := d.map Prod.fst

/-- `d.get(k)`. -/
def lookup (d : List (κ × β)) (k : κ) : Option β := (d.find? (·.1 = k)).map Prod.snd

/-- `d[k] = v`. -/
def assign (d : List (κ × β)) (k : κ) (v : β) : List (κ × β) :=
  if k ∈ keys d then d.map fun e => if e.1 = k then (k, v) else e else d ++ [(k, v)]

/-- One assignment after the other. -/
def assignAll (d items : List (κ × β)) : List (κ × β) :=
  items.foldl (fun d e => assign d e.1 e.2) d

variable {d items : List (κ × β)} {k : κ} {v : β}

omit [DecidableEq κ] in
theorem mem_keys_of_mem (h : (k, v) ∈ d) : k ∈ keys d := List.mem_map.mpr ⟨_, h, rfl⟩

theorem lookup_eq_none : lookup d k = none ↔ k ∉ keys d := by
  rw [lookup, Option.map_eq_none_iff, List.find?_eq_none]
  constructor
  · intro h hmem
    obtain ⟨e, he, rfl⟩ := List.mem_map.mp hmem
    exact h e he (decide_eq_true rfl)
  · intro h e he heq
    exact h (of_decide_eq_true heq ▸ mem_keys_of_mem he)

theorem lookup_isSome : (lookup d k).isSome ↔ k ∈ keys d := by
  rw [← not_iff_not, Bool.not_eq_true, Option.isSome_eq_false_iff, Option.isNone_iff_eq_none,
    lookup_eq_none]

/-- The value of a key is one of the items. -/
theorem mem_of_lookup (h : lookup d k = some v) : (k, v) ∈ d := by
  obtain ⟨e, he, rfl⟩ := Option.map_eq_some_iff.mp h
  obtain rfl : e.1 = k := by simpa using List.find?_some he
  exact List.mem_of_find?_eq_some he

/-- An assignment adds its key or keeps the keys. -/
theorem keys_assign : keys (assign d k v) = if k ∈ keys d then keys d else keys d ++ [k] := by
  rw [assign]
  split
  · rw [keys, List.map_map, keys]
    refine List.map_congr_left fun e _ => ?_
    simp only [Function.comp]
    split
    · next h => exact h.symm
    · rfl
  · exact List.map_append

theorem mem_keys_assign {j : κ} : j ∈ keys (assign d k v) ↔ j = k ∨ j ∈ keys d := by
  rw [keys_assign]
  split
  · next h =>
    refine ⟨.inr, ?_⟩
    rintro (rfl | h')
    · exact h
    · exact h'
  · rw [List.mem_append, List.mem_singleton, or_comm]

theorem nodup_keys_assign (hd : (keys d).Nodup) : (keys (assign d k v)).Nodup := by
  rw [keys_assign]
  split
  · exact hd
  · next h => exact List.nodup_append.mpr ⟨hd, List.nodup_singleton k, fun j hj l hl => by
      rintro rfl
      exact h (List.mem_singleton.mp hl ▸ hj)⟩

/-- An assignment changes the value of its key only. -/
theorem lookup_assign (j : κ) :
    lookup (assign d k v) j = if j = k then some v else lookup d j := by
  rw [assign]
  by_cases hmem : k ∈ keys d
  · let put (e : κ × β) : κ × β := if e.1 = k then (k, v) else e
    have hkey : ∀ e, (put e).1 = e.1 := by
      intro e
      simp only [put]
      split
      · next h => exact h.symm
      · rfl
    have hfind : (d.map put).find? (·.1 = j) = (d.find? (·.1 = j)).map put := by
      rw [List.find?_map]
      simp only [Function.comp_def, hkey]
    rw [if_pos hmem, lookup, hfind, Option.map_map]
    by_cases hj : j = k
    · subst hj
      obtain ⟨w, hw⟩ := Option.isSome_iff_exists.mp (lookup_isSome.mpr hmem)
      obtain ⟨e, he, rfl⟩ := Option.map_eq_some_iff.mp hw
      have hkeyed := List.find?_some he
      simp only [decide_eq_true_eq] at hkeyed
      rw [he, Option.map_some, if_pos rfl, Function.comp]
      simp only [put, if_pos hkeyed]
    · rw [if_neg hj, lookup]
      cases hfound : d.find? (·.1 = j) with
      | none => rfl
      | some e =>
        have hkeyed := List.find?_some hfound
        simp only [decide_eq_true_eq] at hkeyed
        have hne : e.1 ≠ k := hkeyed ▸ hj
        simp only [Option.map_some, Function.comp, put, if_neg hne]
  · rw [if_neg hmem, lookup, List.find?_append]
    by_cases hj : j = k
    · subst hj
      have hnone := Option.map_eq_none_iff.mp (lookup_eq_none.mpr hmem)
      rw [hnone, if_pos rfl]
      simp
    · rw [if_neg hj, lookup]
      simp [Ne.symm hj]

/-- A key that is deleted is not found, the others are. -/
theorem lookup_filter_ne (j : κ) :
    lookup (d.filter (·.1 ≠ k)) j = if j = k then none else lookup d j := by
  rw [lookup, List.find?_filter]
  by_cases hj : j = k
  · subst hj
    rw [if_pos rfl, Option.map_eq_none_iff, List.find?_eq_none]
    intro e _
    simp
  · rw [if_neg hj, lookup]
    congr 2
    ext e
    by_cases he : e.1 = j
    · simp [he, hj]
    · simp [he]

/-- Keys that are renamed without a clash find the same value. -/
theorem lookup_map_key {ι : Type*} [DecidableEq ι] {f : ι → κ} {d : List (ι × β)} {x : ι}
    (h : ∀ y ∈ keys d, f y = f x → y = x) :
    lookup (d.map fun e => (f e.1, e.2)) (f x) = lookup d x := by
  induction d with
  | nil => rfl
  | cons e d ih =>
    have htail := ih fun y hy => h y (List.mem_cons_of_mem _ hy)
    rw [lookup, lookup] at htail ⊢
    rw [List.map_cons, List.find?_cons, List.find?_cons]
    by_cases hkey : e.1 = x
    · simp [hkey]
    · have hrenamed : f e.1 ≠ f x := fun heq => hkey (h _ List.mem_cons_self heq)
      simpa [hkey, hrenamed] using htail

@[simp] theorem assignAll_nil : assignAll d [] = d := rfl

@[simp] theorem assignAll_cons (e : κ × β) :
    assignAll d (e :: items) = assignAll (assign d e.1 e.2) items := rfl

/-- The items of an assignment are the new one and old ones. -/
theorem mem_assign {e : κ × β} (h : e ∈ assign d k v) : e = (k, v) ∨ e ∈ d := by
  rw [assign] at h
  split at h
  · obtain ⟨e', he', rfl⟩ := List.mem_map.mp h
    split
    · exact .inl rfl
    · exact .inr he'
  · rcases List.mem_append.mp h with h | h
    · exact .inr h
    · exact .inl (List.mem_singleton.mp h)

theorem mem_assignAll {e : κ × β} (h : e ∈ assignAll d items) : e ∈ d ∨ e ∈ items := by
  induction items generalizing d with
  | nil => exact .inl h
  | cons item items ih =>
    rcases ih h with h | h
    · rcases mem_assign h with rfl | h
      · exact .inr List.mem_cons_self
      · exact .inl h
    · exact .inr (List.mem_cons_of_mem item h)

theorem nodup_keys_assignAll (hd : (keys d).Nodup) : (keys (assignAll d items)).Nodup := by
  induction items generalizing d with
  | nil => exact hd
  | cons e items ih => exact ih (nodup_keys_assign hd)

/-- There are not more items than were there and have been assigned, and that many only if all
keys are different. -/
theorem length_assignAll_le : (assignAll d items).length ≤ d.length + items.length ∧
    ((keys d).Nodup → (assignAll d items).length = d.length + items.length →
      (keys (d ++ items)).Nodup) := by
  induction items generalizing d with
  | nil => exact ⟨Nat.le_refl _, fun hd _ => by rwa [List.append_nil]⟩
  | cons e items ih =>
    have hlength : (assign d e.1 e.2).length =
        if e.1 ∈ keys d then d.length else d.length + 1 := by
      have h := congrArg List.length (keys_assign (d := d) (k := e.1) (v := e.2))
      rw [keys, List.length_map] at h
      rw [h]
      split <;> simp [keys]
    obtain ⟨hle, hnodup⟩ := ih (d := assign d e.1 e.2)
    rw [assignAll_cons, List.length_cons]
    refine ⟨?_, fun hd heq => ?_⟩
    · split at hlength <;> omega
    · have hnew : e.1 ∉ keys d := by
        intro hmem
        rw [if_pos hmem] at hlength
        omega
      have hassign : assign d e.1 e.2 = d ++ [e] := if_neg hnew
      rw [hassign] at hnodup
      rw [hassign] at heq
      have hall := hnodup (by
        have hkeys := nodup_keys_assign (k := e.1) (v := e.2) hd
        rwa [hassign] at hkeys) (by simp only [List.length_append, List.length_singleton]; omega)
      rwa [List.append_assoc, List.singleton_append] at hall

/-- Different keys are assigned one behind the other. -/
theorem assignAll_eq_append (h : (keys (d ++ items)).Nodup) : assignAll d items = d ++ items := by
  induction items generalizing d with
  | nil => rw [assignAll_nil, List.append_nil]
  | cons e items ih =>
    have hnew : e.1 ∉ keys d := by
      intro hmem
      rw [keys, List.map_append] at h
      exact (List.nodup_append.mp h).2.2 _ hmem _ (List.mem_map_of_mem List.mem_cons_self) rfl
    have hassign : assign d e.1 e.2 = d ++ [e] := if_neg hnew
    have happend : d ++ e :: items = d ++ [e] ++ items := by simp
    rw [assignAll_cons, hassign, happend]
    exact ih (happend ▸ h)

/-- The dictionary of some items has all of them exactly if their keys are different. -/
theorem length_assignAll_eq_iff :
    (assignAll [] items).length = items.length ↔ (keys items).Nodup := by
  constructor
  · intro h
    have hnil : (keys ([] : List (κ × β))).Nodup := List.nodup_nil
    exact length_assignAll_le.2 hnil (h.trans (Nat.zero_add _).symm)
  · intro h
    rw [assignAll_eq_append (d := []) h, List.nil_append]

/-! ### Two dictionaries -/

omit [DecidableEq κ] in
theorem length_filter_keys (p : κ → Bool) (d : List (κ × β)) :
    ((keys d).filter p).length = (d.filter fun e => p e.1).length := by
  rw [keys, List.filter_map, List.length_map]
  rfl

/-- A condition that holds of as many elements as a stronger one holds of the same. -/
theorem filter_eq_of_length {l : List β} {p q : β → Bool} (h : ∀ x ∈ l, p x → q x)
    (hlength : (l.filter p).length = (l.filter q).length) : l.filter p = l.filter q := by
  have hboth : (l.filter q).filter p = l.filter p := by
    rw [List.filter_filter]
    refine List.filter_congr fun x hx => ?_
    cases hp : p x with
    | false => rfl
    | true => simp [h x hx hp]
  rw [← hboth]
  refine List.Sublist.eq_of_length List.filter_sublist ?_
  rw [hboth, hlength]

/-- As many items of one dictionary have a key of the other as the other way round. -/
theorem length_filter_isSome {d : List (κ × β)} {e : List (κ × γ)} (hd : (keys d).Nodup)
    (he : (keys e).Nodup) :
    (d.filter fun x => (lookup e x.1).isSome).length =
      (e.filter fun x => (lookup d x.1).isSome).length := by
  rw [← length_filter_keys (fun k => (lookup e k).isSome) d,
    ← length_filter_keys (fun k => (lookup d k).isSome) e]
  refine List.Perm.length_eq ((List.perm_ext_iff_of_nodup (hd.filter _) (he.filter _)).mpr ?_)
  intro k
  rw [List.mem_filter, List.mem_filter, lookup_isSome, lookup_isSome]
  exact and_comm

/-- An item has a key of the other dictionary or not. -/
theorem length_filter_add (d : List (κ × β)) (e : List (κ × γ)) :
    (d.filter fun x => (lookup e x.1).isSome).length +
      (d.filter fun x => (lookup e x.1).isNone).length = d.length := by
  induction d with
  | nil => rfl
  | cons x d ih =>
    rw [List.filter_cons, List.filter_cons, List.length_cons]
    cases lookup e x.1 with
    | none =>
      simp only [Option.isSome_none, Option.isNone_none, Bool.false_eq_true, if_false, if_true,
        List.length_cons]
      omega
    | some y =>
      simp only [Option.isSome_some, Option.isNone_some, Bool.false_eq_true, if_false, if_true,
        List.length_cons]
      omega

end Keyed

end AmigaDevbench
