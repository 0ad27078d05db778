import Mathlib.Data.List.GetD
import AmigaDevbench.Core.Returns
import AmigaDevbench.Host.Winuae.HunkExact

/-!
# The placement and relocation of hunks
-/

namespace AmigaDevbench.Winuae

/-- `d.get(key)`, with an unusable value for a key that is missing. -/
def getOrNone (d : Dict) (key : String) : Val := (d.get? key).getD (.list [])

def isText (v : Val) (s : String) : Bool :=
  match v with
  | .str t => t == s.toList
  | .int _ | .bool _ | .list _ | .dict _ => false

/-- The text of a hunk's memory, as the placements have it. -/
def HunkMemory.text : HunkMemory → String
  | .any => "any"
  | .chip => "chip"
  | .fast => "fast"

/-- The region of one placement. -/
def placementRegion (hunk : Hunk) (p : Val) : Except DebugError (Nat × Nat) :=
  match p with
  | .dict d => do
    let address ← integer (getOrNone d "address") "placement address" 0xffffffff 0
    let capacity ← integer (getOrNone d "capacity") "placement capacity" (8 * 1024 * 1024) 0
    if address % 4 ≠ 0 ∨ capacity < hunk.size ∨ address + capacity > 0x100000000 then
      throw ⟨"Invalid placement capacity or alignment"⟩
    let memory := getOrNone d "memory"
    if ¬ (isText memory "chip" ∨ isText memory "fast") then
      throw ⟨"Placement memory must be chip or fast"⟩
    if hunk.memory ≠ .any ∧ ¬ isText memory hunk.memory.text then
      throw ⟨"Hunk " ++ toString hunk.index ++ " requires " ++ hunk.memory.text ++ " memory"⟩
    return (address.toNat, capacity.toNat)
  | .str _ | .int _ | .bool _ | .list _ =>
    throw ⟨"Each placement is an object with address, capacity and memory"⟩

/-- Two regions that are not empty have an address in common. -/
def Meet (x y : Nat × Nat) : Prop :=
  x.2 ≠ 0 ∧ y.2 ≠ 0 ∧ x.1 < y.1 + y.2 ∧ y.1 < x.1 + x.2

instance (x y : Nat × Nat) : Decidable (Meet x y) := inferInstanceAs (Decidable (_ ∧ _ ∧ _ ∧ _))

/-- The payload, and zeros up to the size of the hunk. -/
def blankImage (hunk : Hunk) : Bytes :=
  hunk.data ++ (List.replicate hunk.size 0).drop hunk.data.length

/-- One relocation. -/
def relocateAt (regions : List (Nat × Nat)) (image : Bytes) (q : Nat × Nat) :
    Except DebugError Bytes :=
  let value := Bytes.fromBigEndian ((image.drop q.1).take 4) + (regions.getD q.2 (0, 0)).1
  if value > 0xffffffff then throw ⟨"A relocation overflows the guest address space"⟩
  else return image.take q.1 ++ Bytes.bigEndian 4 value ++ image.drop (q.1 + 4)

/-- `relocate`. -/
def relocate (hunks : List Hunk) (placements : Val) :
    Except DebugError (List (Nat × Nat) × List Bytes) :=
  match placements with
  | .list placements => do
    if placements.length ≠ hunks.length then throw ⟨"Supply one placement per hunk"⟩
    let regions ← (hunks.zip placements).mapM fun hp => placementRegion hp.1 hp.2
    if ¬ regions.Pairwise fun x y => ¬ Meet y x then throw ⟨"Hunk placements overlap"⟩
    let images ← hunks.mapM fun hunk =>
      hunk.relocations.foldlM (relocateAt regions) (blankImage hunk)
    return (regions, images)
  | .str _ | .int _ | .bool _ | .dict _ => throw ⟨"Supply one placement per hunk"⟩

/-! ### The images fit into regions that are apart -/

/-- An address of the region. -/
def Inside (region : Nat × Nat) (a : Nat) : Prop := region.1 ≤ a ∧ a < region.1 + region.2

/-- One region for each image, as large as that and apart from the other regions. -/
structure Placed (regions : List (Nat × Nat)) (images : List Bytes) : Prop where
  count : images.length = regions.length
  fits : ∀ i, (images.getD i []).length ≤ (regions.getD i (0, 0)).2
  apart : ∀ i j a, i ≠ j → Inside (regions.getD i (0, 0)) a → ¬ Inside (regions.getD j (0, 0)) a

/-- A check that raises has been passed. -/
theorem passed {ε α : Type} {c : Prop} [Decidable c] {e : ε} {next : PUnit → Except ε α} {a : α}
    (h : (if c then throw e >>= next else next ⟨⟩) = .ok a) : ¬ c ∧ next ⟨⟩ = .ok a := by
  split at h
  · cases h
  · next hc => exact ⟨hc, h⟩

/-- A placement that suits a hunk: an aligned region of the address space, as large as the hunk and
of its kind of memory. -/
structure Suits (hunk : Hunk) (p : Val) (region : Nat × Nat) : Prop where
  placement : ∃ d, p = .dict d ∧
    integer (getOrNone d "address") "placement address" 0xffffffff 0 = .ok region.1 ∧
    integer (getOrNone d "capacity") "placement capacity" (8 * 1024 * 1024) 0 = .ok region.2 ∧
    (isText (getOrNone d "memory") "chip" ∨ isText (getOrNone d "memory") "fast") ∧
    (hunk.memory = .any ∨ isText (getOrNone d "memory") hunk.memory.text)
  aligned : region.1 % 4 = 0
  capacity : hunk.size ≤ region.2
  inside : region.1 + region.2 ≤ 2 ^ 32

theorem integer_bounds {value : Val} {name : String} {maximum minimum n : Int}
    (h : integer value name maximum minimum = .ok n) : minimum ≤ n ∧ n ≤ maximum := by
  have hcheck : ∀ {m : Int}, (if minimum ≤ m ∧ m ≤ maximum then pure m
      else throw ⟨name ++ " must be in " ++ toString minimum ++ ".." ++ toString maximum⟩ :
        Except DebugError Int) = .ok n → minimum ≤ n ∧ n ≤ maximum := by
    intro m hm
    split at hm
    · next hbounds =>
      cases hm
      exact hbounds
    · cases hm
  rw [integer.eq_def] at h
  cases value with
  | str text =>
    simp only at h
    split at h
    · exact hcheck h
    · cases h
  | int m => exact hcheck h
  | bool b => cases h
  | list l => cases h
  | dict d => cases h

theorem suits_of_placementRegion {hunk : Hunk} {p : Val} {region : Nat × Nat}
    (h : placementRegion hunk p = .ok region) : Suits hunk p region := by
  rw [placementRegion.eq_def] at h
  cases p with
  | str s => cases h
  | int n => cases h
  | bool b => cases h
  | list l => cases h
  | dict d =>
    obtain ⟨address, haddress, h⟩ := bind_eq_ok_iff.mp h
    obtain ⟨capacity, hcapacity, h⟩ := bind_eq_ok_iff.mp h
    obtain ⟨hregion, h⟩ := passed h
    obtain ⟨hkind, h⟩ := passed h
    obtain ⟨hmemory, h⟩ := passed h
    obtain rfl : (address.toNat, capacity.toNat) = region := Except.ok.inj h
    have ha := integer_bounds haddress
    have hc := integer_bounds hcapacity
    have hcastA : ((address.toNat : Nat) : Int) = address := Int.toNat_of_nonneg ha.1
    have hcastC : ((capacity.toNat : Nat) : Int) = capacity := Int.toNat_of_nonneg hc.1
    refine ⟨⟨d, rfl, ?_, ?_, not_not.mp hkind, ?_⟩, ?_, ?_, ?_⟩
    · rw [hcastA]
      exact haddress
    · rw [hcastC]
      exact hcapacity
    · by_cases hany : hunk.memory = .any
      · exact .inl hany
      · exact .inr (not_not.mp fun hnot => hmemory ⟨hany, hnot⟩)
    · simp only
      omega
    · simp only
      omega
    · simp only
      omega

theorem length_blankImage {hunk : Hunk} (h : hunk.data.length ≤ hunk.size) :
    (blankImage hunk).length = hunk.size := by
  rw [blankImage, List.length_append, List.length_drop, List.length_replicate]
  omega

/-- A relocation inside the image keeps its length. -/
theorem length_relocateAt {regions : List (Nat × Nat)} {image image' : Bytes} {q : Nat × Nat}
    (hinside : q.1 + 4 ≤ image.length) (h : relocateAt regions image q = .ok image') :
    image'.length = image.length := by
  rw [relocateAt] at h
  split at h
  · cases h
  · cases h
    rw [List.length_append, List.length_append, List.length_take, List.length_drop,
      Bytes.length_bigEndian]
    omega

theorem relocate_eq_ok {hunks : List Hunk} {placements : Val} {regions : List (Nat × Nat)}
    {images : List Bytes} (h : relocate hunks placements = .ok (regions, images)) :
    ∃ ps, placements = .list ps ∧ ps.length = hunks.length ∧
      (hunks.zip ps).mapM (fun hp => placementRegion hp.1 hp.2) = .ok regions ∧
      regions.Pairwise (fun x y => ¬ Meet y x) ∧
      hunks.mapM (fun hunk => hunk.relocations.foldlM (relocateAt regions) (blankImage hunk)) =
        .ok images := by
  rw [relocate.eq_def] at h
  cases placements with
  | str s => cases h
  | int n => cases h
  | bool b => cases h
  | dict d => cases h
  | list ps =>
    obtain ⟨hlength, h⟩ := passed h
    obtain ⟨regions', hregions, h⟩ := bind_eq_ok_iff.mp h
    obtain ⟨hmeet, h⟩ := passed h
    obtain ⟨images', himages, h⟩ := bind_eq_ok_iff.mp h
    cases h
    exact ⟨ps, rfl, not_not.mp hlength, hregions, not_not.mp hmeet, himages⟩

theorem length_image {regions : List (Nat × Nat)} {count : Nat} {hunk : Hunk} {image : Bytes}
    (hhunk : HunkFormat.WellFormed count hunk)
    (h : hunk.relocations.foldlM (relocateAt regions) (blankImage hunk) = .ok image) :
    image.length = hunk.size := by
  refine foldlM_keeps (P := fun image => image.length = hunk.size) (fun q hq a b ha hb => ?_)
    (length_blankImage hhunk.data) h
  rw [length_relocateAt (ha ▸ (hhunk.relocations q hq).2.1) hb, ha]

/-- Regions that do not meet have no address in common. -/
theorem not_inside_of_pairwise {regions : List (Nat × Nat)}
    (h : regions.Pairwise fun x y => ¬ Meet y x) {i j a : Nat} (hij : i < j)
    (hi : Inside (regions.getD i (0, 0)) a) : ¬ Inside (regions.getD j (0, 0)) a := by
  intro hj
  rcases Nat.lt_or_ge j regions.length with hlt | hge
  · have hmeet := List.pairwise_iff_getElem.mp h i j (hij.trans hlt) hlt hij
    rw [List.getD_eq_getElem _ _ (hij.trans hlt)] at hi
    rw [List.getD_eq_getElem _ _ hlt] at hj
    rw [Inside] at hi hj
    exact hmeet ⟨by omega, by omega, by omega, by omega⟩
  · rw [List.getD_eq_default _ _ hge, Inside] at hj
    omega

/-- What `relocate` returns for a program can be placed. -/
theorem placed_of_relocate {hunks : List Hunk} (hprogram : HunkFormat.Sized hunks)
    {placements : Val} {regions : List (Nat × Nat)} {images : List Bytes}
    (h : relocate hunks placements = .ok (regions, images)) : Placed regions images := by
  obtain ⟨ps, -, hlength, hregions, hmeet, himages⟩ := relocate_eq_ok h
  have hregion := forall₂_of_mapM hregions
  have himage := forall₂_of_mapM himages
  have hcount : regions.length = hunks.length := by
    rw [← hregion.length_eq, List.length_zip, hlength, Nat.min_self]
  refine ⟨?_, fun i => ?_, fun i j a hij hi hj => ?_⟩
  · rw [← himage.length_eq, hcount]
  · rcases Nat.lt_or_ge i hunks.length with hlt | hge
    · have hsize := (suits_of_placementRegion
        (hregion.get (by rwa [hregion.length_eq, hcount]) (hcount ▸ hlt))).capacity
      have hlen := length_image (hprogram.wellFormed _ (List.get_mem hunks ⟨i, hlt⟩))
        (himage.get hlt (himage.length_eq ▸ hlt))
      rw [List.getD_eq_getElem _ _ (himage.length_eq ▸ hlt),
        List.getD_eq_getElem _ _ (hcount ▸ hlt)]
      simp only [List.get_eq_getElem, List.getElem_zip] at hsize hlen
      omega
    · rw [List.getD_eq_default _ _ (himage.length_eq ▸ hge)]
      exact Nat.zero_le _
  · rcases Nat.lt_or_gt_of_ne hij with hlt | hgt
    · exact not_inside_of_pairwise hmeet hlt hi hj
    · exact not_inside_of_pairwise hmeet hgt hj hi

end AmigaDevbench.Winuae
