import AmigaDevbench.Host.Winuae.HunkRelocate

/-!
# The images of relocated hunks

The parser has made sure that no two relocations of a hunk share a byte. So each of them finds the
longword that the file has there, whatever was relocated before.
-/

namespace AmigaDevbench.Winuae

/-- The longword at an offset. -/
def longword (image : Bytes) (offset : Nat) : Nat :=
  Bytes.fromBigEndian ((image.drop offset).take 4)

/-- The byte is one of the longword that is relocated. -/
def Covers (q : Nat × Nat) (a : Nat) : Prop := q.1 ≤ a ∧ a < q.1 + 4

/-- The address of the hunk that a relocation refers to. -/
def base (regions : List (Nat × Nat)) (q : Nat × Nat) : Nat := (regions.getD q.2 (0, 0)).1

/-- The longwords are those of the original image plus their bases, and all other bytes the same. -/
structure Relocates (regions rs : List (Nat × Nat)) (image image' : Bytes) : Prop where
  length : image'.length = image.length
  longwords : ∀ q ∈ rs, longword image' q.1 = longword image q.1 + base regions q
  frame : ∀ a, (∀ q ∈ rs, ¬ Covers q a) → image'[a]? = image[a]?

/-- No two longwords share a byte. -/
def Apart (rs : List (Nat × Nat)) : Prop :=
  rs.Pairwise fun p q => p.1 + 4 ≤ q.1 ∨ q.1 + 4 ≤ p.1

variable {regions rs rs' : List (Nat × Nat)} {image image' image'' : Bytes} {q p : Nat × Nat}

/-! ### One relocation -/

theorem getElem?_longword (image : Bytes) (offset i : Nat) :
    ((image.drop offset).take 4)[i]? = if i < 4 then image[offset + i]? else none := by
  rw [List.getElem?_take, List.getElem?_drop]

/-- A longword depends on its own bytes only. -/
theorem longword_congr {offset : Nat}
    (h : ∀ a, offset ≤ a → a < offset + 4 → image'[a]? = image[a]?) :
    longword image' offset = longword image offset := by
  have hslice : (image'.drop offset).take 4 = (image.drop offset).take 4 := by
    apply List.ext_getElem?
    intro i
    rw [getElem?_longword, getElem?_longword]
    split
    · exact h _ (by omega) (by omega)
    · rfl
  rw [longword, hslice, longword]

theorem longword_lt (image : Bytes) (offset : Nat) : longword image offset < 2 ^ 32 := by
  have hlt := Bytes.fromBigEndian_lt ((image.drop offset).take 4)
  have hle := List.length_take_le 4 (image.drop offset)
  have hpow : 256 ^ ((image.drop offset).take 4).length ≤ 256 ^ 4 :=
    Nat.pow_le_pow_right (by omega) hle
  exact hlt.trans_le hpow

/-- A relocation fails exactly if it overflows. -/
theorem relocateAt_eq (regions : List (Nat × Nat)) (image : Bytes) (q : Nat × Nat) :
    relocateAt regions image q =
      if 2 ^ 32 ≤ longword image q.1 + base regions q then
        .error ⟨"A relocation overflows the guest address space"⟩
      else .ok (image.take q.1 ++ Bytes.bigEndian 4 (longword image q.1 + base regions q) ++
        image.drop (q.1 + 4)) := by
  rw [relocateAt]
  rfl

theorem getElem?_patch {image value : Bytes} {o : Nat} (hvalue : value.length = 4)
    (ho : o + 4 ≤ image.length) (a : Nat) :
    (image.take o ++ value ++ image.drop (o + 4))[a]? =
      if o ≤ a ∧ a < o + 4 then value[a - o]? else image[a]? := by
  have htake : (image.take o).length = o := List.length_take_of_le (by omega)
  rcases Nat.lt_or_ge a o with hlt | hge
  · rw [if_neg (by omega), List.append_assoc, List.getElem?_append_left (by omega),
      List.getElem?_take_of_lt hlt]
  · rcases Nat.lt_or_ge a (o + 4) with hin | hout
    · rw [if_pos ⟨hge, hin⟩, List.append_assoc, List.getElem?_append_right (by omega), htake,
        List.getElem?_append_left (by omega)]
    · rw [if_neg (by omega), List.getElem?_append_right
        (by rw [List.length_append]; omega), List.length_append, htake, hvalue,
        List.getElem?_drop]
      congr 1
      omega

/-- One relocation adds the base to its longword. -/
theorem relocates_relocateAt (hinside : q.1 + 4 ≤ image.length)
    (h : relocateAt regions image q = .ok image') : Relocates regions [q] image image' := by
  rw [relocateAt_eq] at h
  split at h
  · cases h
  · next hfits =>
    have hlength : (Bytes.bigEndian 4 (longword image q.1 + base regions q)).length = 4 :=
      Bytes.length_bigEndian 4 _
    obtain rfl := Except.ok.inj h
    refine ⟨?_, fun p hp => ?_, fun a ha => ?_⟩
    · rw [List.length_append, List.length_append, hlength, List.length_take, List.length_drop]
      omega
    · obtain rfl := List.mem_singleton.mp hp
      have hslice : (image.take p.1 ++ Bytes.bigEndian 4 (longword image p.1 + base regions p) ++
          image.drop (p.1 + 4)).drop p.1 =
            Bytes.bigEndian 4 (longword image p.1 + base regions p) ++ image.drop (p.1 + 4) := by
        rw [List.append_assoc, List.drop_left' (List.length_take_of_le (by omega))]
      rw [longword, hslice, List.take_left' hlength, Bytes.fromBigEndian_bigEndian (by omega)]
    · have hout : ¬ (q.1 ≤ a ∧ a < q.1 + 4) := ha q (List.mem_singleton_self q)
      rw [getElem?_patch hlength hinside, if_neg hout]

/-! ### All relocations of a hunk -/

theorem Relocates.nil (regions : List (Nat × Nat)) (image : Bytes) :
    Relocates regions [] image image :=
  ⟨rfl, fun _ hq => absurd hq List.not_mem_nil, fun _ _ => rfl⟩

/-- A longword that is apart from the relocated ones stays. -/
theorem Relocates.other (h : Relocates regions rs image image')
    (hp : ∀ q ∈ rs, p.1 + 4 ≤ q.1 ∨ q.1 + 4 ≤ p.1) :
    longword image' p.1 = longword image p.1 := by
  refine longword_congr fun a hlow hhigh => h.frame a fun q hq hcovers => ?_
  rw [Covers] at hcovers
  have := hp q hq
  omega

/-- One relocation in front of the others. -/
theorem Relocates.cons (happart : Apart (q :: rs)) (h : Relocates regions [q] image image')
    (hrest : Relocates regions rs image' image'') : Relocates regions (q :: rs) image image'' := by
  obtain ⟨hq, -⟩ := List.pairwise_cons.mp happart
  refine ⟨hrest.length.trans h.length, List.forall_mem_cons.mpr ⟨?_, fun p hp => ?_⟩,
    fun a ha => ?_⟩
  · rw [hrest.other hq, h.longwords q (List.mem_singleton_self q)]
  · have hsame : longword image' p.1 = longword image p.1 := h.other fun q' hq' => by
      obtain rfl := List.mem_singleton.mp hq'
      exact (hq p hp).symm
    rw [hrest.longwords p hp, hsame]
  · obtain ⟨haq, hars⟩ := List.forall_mem_cons.mp ha
    rw [hrest.frame a hars, h.frame a fun q' hq' => (List.mem_singleton.mp hq') ▸ haq]

/-- What the loop over the relocations leaves. -/
theorem relocates_foldlM (hinside : ∀ q ∈ rs, q.1 + 4 ≤ image.length) (happart : Apart rs)
    (h : rs.foldlM (relocateAt regions) image = .ok image') :
    Relocates regions rs image image' := by
  induction rs generalizing image with
  | nil =>
    cases h
    exact .nil regions _
  | cons q rs ih =>
    rw [List.foldlM_cons] at h
    obtain ⟨next, hnext, h⟩ := bind_eq_ok_iff.mp h
    have hfirst := relocates_relocateAt (hinside q List.mem_cons_self) hnext
    refine hfirst.cons happart (ih (fun p hp => ?_) (List.pairwise_cons.mp happart).2 h)
    rw [hfirst.length]
    exact hinside p (List.mem_cons_of_mem q hp)

/-- The loop goes through if no relocation overflows. -/
theorem exists_foldlM (regions : List (Nat × Nat))
    (hinside : ∀ q ∈ rs, q.1 + 4 ≤ image.length) (happart : Apart rs)
    (hfits : ∀ q ∈ rs, longword image q.1 + base regions q < 2 ^ 32) :
    ∃ image', rs.foldlM (relocateAt regions) image = .ok image' := by
  induction rs generalizing image with
  | nil => exact ⟨image, rfl⟩
  | cons q rs ih =>
    obtain ⟨hq, hrs⟩ := List.pairwise_cons.mp happart
    obtain ⟨next, hnext⟩ : ∃ next, relocateAt regions image q = .ok next := by
      rw [relocateAt_eq, if_neg (Nat.not_le.mpr (hfits q List.mem_cons_self))]
      exact ⟨_, rfl⟩
    have hfirst := relocates_relocateAt (hinside q List.mem_cons_self) hnext
    obtain ⟨image', himage⟩ := @ih next
      (fun p hp => hfirst.length ▸ hinside p (List.mem_cons_of_mem q hp)) hrs fun p hp => by
        have hsame : longword next p.1 = longword image p.1 := hfirst.other fun q' hq' => by
          obtain rfl := List.mem_singleton.mp hq'
          exact (hq p hp).symm
        rw [hsame]
        exact hfits p (List.mem_cons_of_mem q hp)
    refine ⟨image', ?_⟩
    rw [List.foldlM_cons, hnext]
    exact himage

/-- The image is determined by its longwords and the other bytes. -/
theorem Relocates.unique (hinside : ∀ q ∈ rs, q.1 + 4 ≤ image.length)
    (h : Relocates regions rs image image') (h' : Relocates regions rs image image'') :
    image' = image'' := by
  have hbytes : ∀ q ∈ rs, (image'.drop q.1).take 4 = (image''.drop q.1).take 4 := by
    intro q hq
    have hlen' : ((image'.drop q.1).take 4).length = 4 := by
      have := hinside q hq
      rw [List.length_take, List.length_drop, h.length]
      omega
    have hlen'' : ((image''.drop q.1).take 4).length = 4 := by
      have := hinside q hq
      rw [List.length_take, List.length_drop, h'.length]
      omega
    have hlong : longword image' q.1 = longword image'' q.1 :=
      (h.longwords q hq).trans (h'.longwords q hq).symm
    rw [← Bytes.bigEndian_fromBigEndian ((image'.drop q.1).take 4),
      ← Bytes.bigEndian_fromBigEndian ((image''.drop q.1).take 4), hlen', hlen'']
    exact congrArg (Bytes.bigEndian 4) hlong
  apply List.ext_getElem?
  intro a
  by_cases hcovers : ∃ q ∈ rs, Covers q a
  · obtain ⟨q, hq, hlow, hhigh⟩ := hcovers
    have hslice := congrArg (·[a - q.1]?) (hbytes q hq)
    simp only [getElem?_longword, if_pos (show a - q.1 < 4 by omega),
      Nat.add_sub_cancel' hlow] at hslice
    exact hslice
  · have hnone : ∀ q ∈ rs, ¬ Covers q a := fun q hq hc => hcovers ⟨q, hq, hc⟩
    rw [h.frame a hnone, h'.frame a hnone]

/-- The order of the relocations plays no part in what they do. -/
theorem Relocates.perm (hperm : rs.Perm rs') (h : Relocates regions rs image image') :
    Relocates regions rs' image image' :=
  ⟨h.length, fun q hq => h.longwords q (hperm.mem_iff.mpr hq),
    fun a ha => h.frame a fun q hq => ha q (hperm.mem_iff.mp hq)⟩

theorem Apart.perm (hperm : rs.Perm rs') (h : Apart rs) : Apart rs' :=
  (hperm.pairwise_iff fun h => h.symm).mp h

/-- Applied in another order they leave the same image. -/
theorem foldlM_perm (hinside : ∀ q ∈ rs, q.1 + 4 ≤ image.length) (happart : Apart rs)
    (hperm : rs.Perm rs') (h : rs.foldlM (relocateAt regions) image = .ok image') :
    rs'.foldlM (relocateAt regions) image = .ok image' := by
  have hspec := (relocates_foldlM hinside happart h).perm hperm
  have hinside' : ∀ q ∈ rs', q.1 + 4 ≤ image.length :=
    fun q hq => hinside q (hperm.mem_iff.mpr hq)
  obtain ⟨image'', h''⟩ := exists_foldlM regions hinside' (happart.perm hperm)
    fun q hq => by
      rw [← hspec.longwords q hq]
      exact longword_lt image' q.1
  have hspec'' := relocates_foldlM hinside' (happart.perm hperm) h''
  rw [h'', hspec''.unique hinside' hspec]

/-! ### The hunks of a file -/

/-- The same hunks with their relocations in another order. -/
def Reordered (hunks hunks' : List Hunk) : Prop :=
  List.Forall₂ (fun h h' => ∃ rs, h.relocations.Perm rs ∧ h' = { h with relocations := rs })
    hunks hunks'

/-- The image of a hunk: its relocated longwords are those of the payload and the zeros behind it
plus the base of their target, without a carry, and its other bytes are those. -/
structure ImageOf (regions : List (Nat × Nat)) (hunk : Hunk) (image : Bytes) : Prop where
  length : image.length = hunk.size
  longwords : ∀ q ∈ hunk.relocations,
    longword image q.1 = longword (blankImage hunk) q.1 + base regions q ∧
      longword (blankImage hunk) q.1 + base regions q < 2 ^ 32
  frame : ∀ a < hunk.size, (∀ q ∈ hunk.relocations, ¬ Covers q a) →
    image[a]? = some (hunk.data.getD a 0)

theorem getElem?_blankImage {hunk : Hunk} {a : Nat}
    (ha : a < hunk.size) : (blankImage hunk)[a]? = some (hunk.data.getD a 0) := by
  rw [blankImage]
  rcases Nat.lt_or_ge a hunk.data.length with hlt | hge
  · rw [List.getElem?_append_left hlt, List.getD_eq_getElem _ _ hlt, List.getElem?_eq_getElem hlt]
  · rw [List.getElem?_append_right hge, List.getElem?_drop, List.getD_eq_default _ _ hge,
      List.getElem?_replicate, if_pos (by omega)]

theorem imageOf_foldlM {count : Nat} {hunk : Hunk} {image : Bytes}
    (hhunk : HunkFormat.WellFormed count hunk)
    (h : hunk.relocations.foldlM (relocateAt regions) (blankImage hunk) = .ok image) :
    ImageOf regions hunk image := by
  have hblank := length_blankImage hhunk.data
  have hinside : ∀ q ∈ hunk.relocations, q.1 + 4 ≤ (blankImage hunk).length :=
    fun q hq => hblank ▸ (hhunk.relocations q hq).2.1
  have hspec := relocates_foldlM hinside hhunk.apart h
  refine ⟨hspec.length.trans hblank, fun q hq => ⟨hspec.longwords q hq, ?_⟩, fun a ha hnone => ?_⟩
  · rw [← hspec.longwords q hq]
    exact longword_lt image q.1
  · rw [hspec.frame a hnone, getElem?_blankImage ha]

/-- A placement is checked against the fields of a hunk that have nothing to do with its
relocations. -/
theorem placementRegion_reordered (hunk : Hunk) (rs : List (Nat × Nat)) (p : Val) :
    placementRegion { hunk with relocations := rs } p = placementRegion hunk p := by
  cases p <;> rfl

theorem mapM_congr_forall₂ {ε α β γ : Type} {f : α → Except ε γ} {g : β → Except ε γ}
    {xs : List α} {ys : List β} {zs : List γ}
    (h : List.Forall₂ (fun x y => ∀ z, f x = .ok z → g y = .ok z) xs ys)
    (hf : xs.mapM f = .ok zs) : ys.mapM g = .ok zs := by
  induction h generalizing zs with
  | nil => exact hf
  | @cons x y xs ys hxy _ ih =>
    rw [List.mapM_cons] at hf ⊢
    obtain ⟨z, hz, hf⟩ := bind_eq_ok_iff.mp hf
    obtain ⟨rest, hrest, hf⟩ := bind_eq_ok_iff.mp hf
    rw [hxy z hz]
    have hys := ih hrest
    simp only [hys]
    exact hf

theorem zip_reordered {hunks hunks' : List Hunk} (h : Reordered hunks hunks') :
    ∀ ps : List Val, List.Forall₂ (fun x y => ∀ z, placementRegion x.1 x.2 = .ok z →
      placementRegion y.1 y.2 = .ok z) (hunks.zip ps) (hunks'.zip ps) := by
  induction h with
  | nil => exact fun ps => .nil
  | @cons hunk hunk' hunks hunks' hhunk _ ih =>
    intro ps
    obtain ⟨rs, -, rfl⟩ := hhunk
    cases ps with
    | nil => exact .nil
    | cons p ps => exact .cons (fun z hz => (placementRegion_reordered hunk rs p).trans hz) (ih ps)

/-- With its relocations in another order a program is relocated to the same images. -/
theorem relocate_reordered {hunks hunks' : List Hunk} (hprogram : HunkFormat.Sized hunks)
    (hreorder : Reordered hunks hunks') {placements : Val} {images : List Bytes}
    (h : relocate hunks placements = .ok (regions, images)) :
    relocate hunks' placements = .ok (regions, images) := by
  obtain ⟨ps, rfl, hlength, hregions, hmeet, himages⟩ := relocate_eq_ok h
  have hregions' : (hunks'.zip ps).mapM (fun hp => placementRegion hp.1 hp.2) = .ok regions :=
    mapM_congr_forall₂ (zip_reordered hreorder ps) hregions
  have himages' : hunks'.mapM (fun hunk =>
      hunk.relocations.foldlM (relocateAt regions) (blankImage hunk)) = .ok images := by
    refine mapM_congr_forall₂ ?_ himages
    refine ((List.forall₂_and_left _ _).mpr ⟨hprogram.wellFormed, hreorder⟩).imp ?_
    rintro hunk _ ⟨hhunk, rs, hperm, rfl⟩ image himage
    have hinside : ∀ q ∈ hunk.relocations, q.1 + 4 ≤ (blankImage hunk).length := fun q hq => by
      rw [length_blankImage hhunk.data]
      exact (hhunk.relocations q hq).2.1
    exact foldlM_perm hinside hhunk.apart hperm himage
  have hcount : ps.length = hunks'.length := hlength.trans hreorder.length_eq
  rw [relocate, if_neg (not_not.mpr hcount)]
  refine bind_eq_ok_iff.mpr ⟨regions, hregions', ?_⟩
  rw [if_neg (not_not.mpr hmeet)]
  exact bind_eq_ok_iff.mpr ⟨images, himages', rfl⟩

/-- Relocation is exact. The placements of a parsed program are apart where they are not empty, and
each suits its hunk. The images have the relocated longwords, and otherwise the payload and zeros.
Any other order of the relocations leads to the same images. -/
theorem relocate_exact {data : Bytes} {hunks : List Hunk} (hparse : parseHunk data = .ok hunks)
    {placements : Val} {images : List Bytes}
    (h : relocate hunks placements = .ok (regions, images)) :
    (∃ ps, placements = .list ps ∧ ps.length = hunks.length ∧
      List.Forall₂ (fun hp region => Suits hp.1 hp.2 region) (hunks.zip ps) regions) ∧
    regions.Pairwise (fun x y => ¬ Meet x y ∧ ¬ Meet y x) ∧
    List.Forall₂ (ImageOf regions) hunks images ∧
    ∀ hunks', Reordered hunks hunks' → relocate hunks' placements = .ok (regions, images) := by
  have hprogram := ((HunkFormat.parseHunk_eq_ok_iff data hunks).mp hparse).1.toSized
  obtain ⟨ps, hps, hlength, hregions, hmeet, himages⟩ := relocate_eq_ok h
  refine ⟨⟨ps, hps, hlength, ?_⟩, ?_, ?_, ?_⟩
  · exact (forall₂_of_mapM hregions).imp fun hp region => suits_of_placementRegion
  · exact hmeet.imp fun hno => ⟨fun hyes => hno ⟨hyes.2.1, hyes.1, hyes.2.2.2, hyes.2.2.1⟩, hno⟩
  · exact ((List.forall₂_and_left _ _).mpr ⟨hprogram.wellFormed, forall₂_of_mapM himages⟩).imp
      fun hunk image himage => imageOf_foldlM himage.1 himage.2
  · exact fun hunks' hreorder => relocate_reordered hprogram hreorder h

/-- A hunk of code with one relocation to itself, and its file. -/
def selfHunk : Hunk :=
  ⟨0, 8, .code, .any, [0x4E, 0x75, 0, 0, 0, 0, 0, 2], [(4, 0)], []⟩

def selfFile : Bytes :=
  [0, 0, 3, 0xF3, 0, 0, 0, 0, 0, 0, 0, 1, 0, 0, 0, 0, 0, 0, 0, 0, 0, 0, 0, 2,
    0, 0, 3, 0xE9, 0, 0, 0, 2, 0x4E, 0x75, 0, 0, 0, 0, 0, 2,
    0, 0, 3, 0xEC, 0, 0, 0, 1, 0, 0, 0, 0, 0, 0, 0, 4, 0, 0, 0, 0, 0, 0, 3, 0xF2]

theorem parseHunk_selfFile : parseHunk selfFile = .ok [selfHunk] := by
  have hparse : (parseHunk selfFile).toOption = some [selfHunk] := by decide +kernel
  cases h : parseHunk selfFile with
  | error e =>
    rw [h] at hparse
    cases hparse
  | ok hunks =>
    rw [h] at hparse
    exact congrArg Except.ok (Option.some.inj hparse)

def selfPlacements : Val :=
  .list [.dict [("address", .int 0x20000), ("capacity", .int 8), ("memory", .str "chip".toList)]]

theorem relocate_selfHunk : relocate [selfHunk] selfPlacements =
    .ok ([(0x20000, 8)], [[0x4E, 0x75, 0, 0, 0, 2, 0, 2]]) := by
  decide

theorem relocate_exact_selfHunk : List.Forall₂ (ImageOf [(0x20000, 8)]) [selfHunk]
    [[0x4E, 0x75, 0, 0, 0, 2, 0, 2]] :=
  (relocate_exact parseHunk_selfFile relocate_selfHunk).2.2.1

end AmigaDevbench.Winuae
