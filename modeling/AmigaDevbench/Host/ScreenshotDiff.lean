import AmigaDevbench.Core.FloodFill

/-!
# The comparison of screenshots

Two images are compared over the area that both have. The blocks of this area with enough changed
pixels are gathered into regions, one for each connected component.
-/

namespace AmigaDevbench

namespace ScreenshotDiff

/-- A pixel: red, green and blue. -/
abbrev Rgb := Nat × Nat × Nat

/-- An image in RGB mode. -/
structure Image where
  width : Nat
  height : Nat
  pixels : Nat → Nat → Rgb

/-- `_pixel_diff`. -/
def pixelDiff (a b : Rgb) : Int :=
  max (max ((a.1 : Int) - b.1).natAbs ((a.2.1 : Int) - b.2.1).natAbs)
    ((a.2.2 : Int) - b.2.2).natAbs

/-- A block of the grid. -/
abbrev Cell := Int × Int

/-- The least and the greatest block in each direction. -/
structure Box where
  minX : Int
  maxX : Int
  minY : Int
  maxY : Int

def Box.single (c : Cell) : Box := ⟨c.1, c.1, c.2, c.2⟩

def Box.add (c : Cell) (b : Box) : Box :=
  ⟨min b.minX c.1, max b.maxX c.1, min b.minY c.2, max b.maxY c.2⟩

/-- A region in pixels. -/
structure Region where
  x : Int
  y : Int
  w : Int
  h : Int
  deriving DecidableEq

/-- The region of a box in an image. -/
def Box.region (blockSize imgW imgH : Nat) (b : Box) : Region :=
  let x := b.minX * blockSize
  let y := b.minY * blockSize
  ⟨x, y, min ((b.maxX + 1) * blockSize) imgW - x, min ((b.maxY + 1) * blockSize) imgH - y⟩

/-- What is pushed behind a block. The top of the stack is the head here. -/
def neighbours (c : Cell) : List Cell :=
  [(c.1, c.2 + 1), (c.1, c.2 - 1), (c.1 + 1, c.2), (c.1 - 1, c.2)]

/-- The blocks in the order of the two loops. -/
def blocks (gridW gridH : Nat) : List Cell :=
  (List.range gridH).flatMap fun (gy : Nat) => (List.range gridW).map fun (gx : Nat) =>
    ((gx : Int), (gy : Int))

/-- The blocks that the filling visits. -/
def isChanged (changed : Nat → Nat → Bool) (gridW gridH : Nat) (c : Cell) : Bool :=
  decide (¬ (c.1 < 0 ∨ c.1 ≥ gridW ∨ c.2 < 0 ∨ c.2 ≥ gridH)) && changed c.1.toNat c.2.toNat

/-- `_detect_regions`. A filling takes no more than five turns for a block. -/
def detectRegions (changed : Nat → Nat → Bool) (gridW gridH blockSize imgW imgH : Nat) :
    List Region :=
  (FloodFill.sweep (isChanged changed gridW gridH) neighbours Box.add Box.single
    (1 + 5 * (gridW * gridH)) (blocks gridW gridH) []).map (Box.region blockSize imgW imgH)

/-- What the loop over the pixels counts: the changed pixels, and for each block the changed ones
and all. -/
structure Tally where
  changedPixels : Nat
  changed : Nat → Nat → Nat
  total : Nat → Nat → Nat

/-- `counts[gy][gx] += 1`. -/
def increment (counts : Nat → Nat → Nat) (gx gy : Nat) : Nat → Nat → Nat :=
  fun x y => if x = gx ∧ y = gy then counts x y + 1 else counts x y

def blockSize : Nat := 16

/-- The loop body over the pixels. -/
def Tally.add (a b : Image) (threshold : Int) (t : Tally) (pixel : Nat × Nat) : Tally :=
  let gx := pixel.1 / blockSize
  let gy := pixel.2 / blockSize
  let total := increment t.total gx gy
  if pixelDiff (a.pixels pixel.1 pixel.2) (b.pixels pixel.1 pixel.2) > threshold then
    ⟨t.changedPixels + 1, increment t.changed gx gy, total⟩
  else { t with total := total }

/-- The pixels in the order of the two loops. -/
def area (w h : Nat) : List (Nat × Nat) :=
  (List.range h).flatMap fun y => (List.range w).map fun x => (x, y)

def tally (a b : Image) (threshold : Int) (w h : Nat) : Tally :=
  (area w h).foldl (Tally.add a b threshold) ⟨0, fun _ _ => 0, fun _ _ => 0⟩

/-- The grid of changed blocks: those with more than a twentieth of their pixels changed. -/
def Tally.changedGrid (t : Tally) (gx gy : Nat) : Bool :=
  decide (t.total gx gy > 0 ∧ t.changed gx gy * 20 > t.total gx gy)

/-- The reply of `compare_screenshots`. -/
structure Comparison where
  totalPixels : Nat
  changedPixels : Nat
  identical : Bool
  dimensionsMatch : Bool
  sizeA : Nat × Nat
  sizeB : Nat × Nat
  regions : List Region

/-- `compare_screenshots`. -/
def compareScreenshots (a b : Image) (threshold : Int) : Comparison :=
  let sizeA := (a.width, a.height)
  let sizeB := (b.width, b.height)
  let w := min a.width b.width
  let h := min a.height b.height
  let t := tally a b threshold w h
  let gridW := (w + blockSize - 1) / blockSize
  let gridH := (h + blockSize - 1) / blockSize
  { totalPixels := w * h
    changedPixels := t.changedPixels
    identical := t.changedPixels = 0
    dimensionsMatch := sizeA = sizeB
    sizeA := sizeA
    sizeB := sizeB
    regions := detectRegions t.changedGrid gridW gridH blockSize w h }

/-! ### What is counted -/

variable {a b : Image} {threshold : Int}

/-- The pixel differs by more than the threshold. -/
def Differs (a b : Image) (threshold : Int) (pixel : Nat × Nat) : Prop :=
  pixelDiff (a.pixels pixel.1 pixel.2) (b.pixels pixel.1 pixel.2) > threshold

instance (pixel : Nat × Nat) : Decidable (Differs a b threshold pixel) :=
  inferInstanceAs (Decidable (_ > _))

/-- The pixel lies in the block. -/
def InBlock (gx gy : Nat) (pixel : Nat × Nat) : Prop :=
  pixel.1 / blockSize = gx ∧ pixel.2 / blockSize = gy

instance (gx gy : Nat) (pixel : Nat × Nat) : Decidable (InBlock gx gy pixel) :=
  inferInstanceAs (Decidable (_ ∧ _))

theorem mem_area {w h : Nat} {pixel : Nat × Nat} :
    pixel ∈ area w h ↔ pixel.1 < w ∧ pixel.2 < h := by
  obtain ⟨x, y⟩ := pixel
  simp only [area, List.mem_flatMap, List.mem_map, List.mem_range, Prod.mk.injEq]
  constructor
  · rintro ⟨y', hy, x', hx, rfl, rfl⟩
    exact ⟨hx, hy⟩
  · rintro ⟨hx, hy⟩
    exact ⟨y, hy, x, hx, rfl, rfl⟩

theorem add_changedPixels (t : Tally) (p : Nat × Nat) :
    (Tally.add a b threshold t p).changedPixels =
      t.changedPixels + if Differs a b threshold p then 1 else 0 := by
  by_cases hdiffers : Differs a b threshold p
  · rw [if_pos hdiffers]
    exact congrArg Tally.changedPixels (if_pos hdiffers)
  · have hadd : Tally.add a b threshold t p =
        { t with total := increment t.total (p.1 / blockSize) (p.2 / blockSize) } := if_neg hdiffers
    rw [if_neg hdiffers, hadd, Nat.add_zero]

theorem increment_eq (counts : Nat → Nat → Nat) (p : Nat × Nat) (gx gy : Nat) :
    increment counts (p.1 / blockSize) (p.2 / blockSize) gx gy =
      counts gx gy + if InBlock gx gy p then 1 else 0 := by
  by_cases hblock : InBlock gx gy p
  · rw [if_pos hblock]
    exact if_pos ⟨hblock.1.symm, hblock.2.symm⟩
  · rw [if_neg hblock]
    exact if_neg fun h => hblock ⟨h.1.symm, h.2.symm⟩

theorem add_changed (t : Tally) (p : Nat × Nat) (gx gy : Nat) :
    (Tally.add a b threshold t p).changed gx gy =
      t.changed gx gy + if InBlock gx gy p ∧ Differs a b threshold p then 1 else 0 := by
  by_cases hdiffers : Differs a b threshold p
  · simp only [hdiffers, and_true, ← increment_eq]
    exact congrFun (congrFun (congrArg Tally.changed (if_pos hdiffers)) gx) gy
  · simp only [hdiffers, and_false, if_false]
    exact congrFun (congrFun (congrArg Tally.changed (if_neg hdiffers)) gx) gy

theorem add_total (t : Tally) (p : Nat × Nat) (gx gy : Nat) :
    (Tally.add a b threshold t p).total gx gy =
      t.total gx gy + if InBlock gx gy p then 1 else 0 := by
  rw [← increment_eq]
  by_cases hdiffers : Differs a b threshold p
  · exact congrFun (congrFun (congrArg Tally.total (if_pos hdiffers)) gx) gy
  · exact congrFun (congrFun (congrArg Tally.total (if_neg hdiffers)) gx) gy

variable (a b threshold) in
/-- The loop counts the pixels that differ, and in each block those that differ and all. -/
theorem foldl_add (pixels : List (Nat × Nat)) : ∀ t : Tally,
    (pixels.foldl (Tally.add a b threshold) t).changedPixels =
        t.changedPixels + pixels.countP (Differs a b threshold ·) ∧
      ∀ gx gy, (pixels.foldl (Tally.add a b threshold) t).changed gx gy =
          t.changed gx gy +
            pixels.countP (fun p => InBlock gx gy p ∧ Differs a b threshold p) ∧
        (pixels.foldl (Tally.add a b threshold) t).total gx gy =
          t.total gx gy + pixels.countP (InBlock gx gy ·) := by
  induction pixels with
  | nil => exact fun _ => ⟨rfl, fun _ _ => ⟨rfl, rfl⟩⟩
  | cons p pixels ih =>
    intro t
    obtain ⟨hpixels, hblocks⟩ := ih (Tally.add a b threshold t p)
    rw [List.foldl_cons, hpixels, add_changedPixels, List.countP_cons]
    refine ⟨by simp only [decide_eq_true_eq]; omega, fun gx gy => ?_⟩
    obtain ⟨hchanged, htotal⟩ := hblocks gx gy
    rw [hchanged, htotal, add_changed, add_total, List.countP_cons, List.countP_cons]
    simp only [decide_eq_true_eq]
    omega

/-! ### The regions -/

/-- The size of the area that both images have. -/
def common (a b : Image) : Nat × Nat := (min a.width b.width, min a.height b.height)

/-- A block of the common area of whose pixels more than a twentieth differ. -/
def Marked (a b : Image) (threshold : Int) (c : Cell) : Prop :=
  ∃ gx gy : Nat, c = ((gx : Int), (gy : Int)) ∧
    (area (common a b).1 (common a b).2).countP (InBlock gx gy ·) <
      20 * (area (common a b).1 (common a b).2).countP
        fun p => InBlock gx gy p ∧ Differs a b threshold p

/-- Two blocks with a common side. -/
def Touching (c d : Cell) : Prop := (c.1 - d.1).natAbs + (c.2 - d.2).natAbs = 1

/-- The marked blocks that are connected with a block. -/
def component (a b : Image) (threshold : Int) (c : Cell) : Set Cell :=
  {d | Relation.ReflTransGen
    (fun c d => Marked a b threshold c ∧ Marked a b threshold d ∧ Touching c d) c d}

/-- The bounding box of some blocks. -/
structure IsBoundingBox (C : Set Cell) (box : Box) : Prop where
  inside : ∀ c ∈ C, box.minX ≤ c.1 ∧ c.1 ≤ box.maxX ∧ box.minY ≤ c.2 ∧ c.2 ≤ box.maxY
  left : ∃ c ∈ C, c.1 = box.minX
  right : ∃ c ∈ C, c.1 = box.maxX
  top : ∃ c ∈ C, c.2 = box.minY
  bottom : ∃ c ∈ C, c.2 = box.maxY

/-- The pixels of the bounding box of some blocks, as far as they belong to an area. -/
def IsRegion (w h : Nat) (C : Set Cell) (r : Region) : Prop :=
  ∃ box, IsBoundingBox C box ∧ r.x = box.minX * blockSize ∧ r.y = box.minY * blockSize ∧
    r.x + r.w = min ((box.maxX + 1) * blockSize) w ∧
    r.y + r.h = min ((box.maxY + 1) * blockSize) h

/-- The blocks that the filling visits are the marked ones. -/
theorem isChanged_iff (c : Cell) :
    isChanged (tally a b threshold (common a b).1 (common a b).2).changedGrid
        (((common a b).1 + blockSize - 1) / blockSize)
        (((common a b).2 + blockSize - 1) / blockSize) c = true ↔ Marked a b threshold c := by
  have hgrid : ∀ gx gy, (tally a b threshold (common a b).1 (common a b).2).changedGrid gx gy =
      true ↔ (area (common a b).1 (common a b).2).countP (InBlock gx gy ·) <
        20 * (area (common a b).1 (common a b).2).countP
          fun p => InBlock gx gy p ∧ Differs a b threshold p := by
    intro gx gy
    have hcounts := (foldl_add a b threshold (area (common a b).1 (common a b).2)
      ⟨0, fun _ _ => 0, fun _ _ => 0⟩).2 gx gy
    have hle : (area (common a b).1 (common a b).2).countP
        (fun p => InBlock gx gy p ∧ Differs a b threshold p) ≤
        (area (common a b).1 (common a b).2).countP (InBlock gx gy ·) := by
      refine List.countP_mono_left fun p _ hp => ?_
      simp only [decide_eq_true_eq] at hp ⊢
      exact hp.1
    simp only [Nat.zero_add] at hcounts
    rw [Tally.changedGrid, decide_eq_true_eq, tally, hcounts.1, hcounts.2]
    omega
  rw [isChanged, Bool.and_eq_true, decide_eq_true_eq, hgrid]
  constructor
  · rintro ⟨hinside, hcount⟩
    refine ⟨c.1.toNat, c.2.toNat, ?_, hcount⟩
    refine Prod.ext ?_ ?_ <;> omega
  · rintro ⟨gx, gy, rfl, hcount⟩
    refine ⟨?_, hcount⟩
    -- A marked block has a pixel, so it belongs to the grid.
    obtain ⟨p, hp, hblock⟩ : ∃ p ∈ area (common a b).1 (common a b).2, InBlock gx gy p := by
      obtain ⟨p, hp, hboth⟩ := List.countP_pos_iff.mp (Nat.pos_of_mul_pos_left (a := 20)
        (Nat.lt_of_le_of_lt (Nat.zero_le _) hcount))
      exact ⟨p, hp, (of_decide_eq_true hboth).1⟩
    have harea := mem_area.mp hp
    have hx := hblock.1
    have hy := hblock.2
    simp only [blockSize] at hx hy ⊢
    omega

theorem mem_neighbours {c d : Cell} : d ∈ neighbours c ↔ Touching c d := by
  obtain ⟨cx, cy⟩ := c
  obtain ⟨dx, dy⟩ := d
  simp only [neighbours, Touching, List.mem_cons, List.not_mem_nil, or_false, Prod.mk.injEq]
  omega

theorem touching_comm {c d : Cell} : Touching c d ↔ Touching d c := by
  rw [Touching, Touching]
  omega

/-- The components of the filling are those of the marked blocks. -/
theorem component_eq_fill (c : Cell) :
    component a b threshold c = FloodFill.component
      (isChanged (tally a b threshold (common a b).1 (common a b).2).changedGrid
        (((common a b).1 + blockSize - 1) / blockSize)
        (((common a b).2 + blockSize - 1) / blockSize)) neighbours c := by
  have hadjacent : (fun c d => Marked a b threshold c ∧ Marked a b threshold d ∧ Touching c d) =
      FloodFill.Adjacent
        (isChanged (tally a b threshold (common a b).1 (common a b).2).changedGrid
          (((common a b).1 + blockSize - 1) / blockSize)
          (((common a b).2 + blockSize - 1) / blockSize)) neighbours := by
    funext c d
    rw [FloodFill.Adjacent, isChanged_iff, isChanged_iff, mem_neighbours]
  rw [component, FloodFill.component, hadjacent]

theorem boundingBox_foldr (first : Cell) (new : List Cell) :
    IsBoundingBox {c | c = first ∨ c ∈ new} (new.foldr Box.add (Box.single first)) := by
  induction new with
  | nil =>
    refine ⟨?_, ⟨first, .inl rfl, rfl⟩, ⟨first, .inl rfl, rfl⟩, ⟨first, .inl rfl, rfl⟩,
      ⟨first, .inl rfl, rfl⟩⟩
    rintro c (rfl | hc)
    · exact ⟨Int.le_refl _, Int.le_refl _, Int.le_refl _, Int.le_refl _⟩
    · cases hc
  | cons d new ih =>
    have hold : ∀ {c}, c = first ∨ c ∈ new → c = first ∨ c ∈ d :: new :=
      fun h => h.imp_right (List.mem_cons_of_mem d)
    have hd : d = first ∨ d ∈ d :: new := .inr List.mem_cons_self
    rw [List.foldr_cons]
    obtain ⟨hinside, ⟨l, hl, hleft⟩, ⟨r, hr, hright⟩, ⟨t, ht, htop⟩, ⟨m, hm, hbottom⟩⟩ := ih
    refine ⟨?_, ?_, ?_, ?_, ?_⟩
    · intro c hc
      have hcases : c = d ∨ (c = first ∨ c ∈ new) := by
        rcases hc with hc | hc
        · exact .inr (.inl hc)
        · exact (List.mem_cons.mp hc).imp_right .inr
      simp only [Box.add]
      rcases hcases with rfl | hc
      · omega
      · have := hinside c hc
        omega
    · rcases Int.le_total (new.foldr Box.add (Box.single first)).minX d.1 with hle | hle
      · exact ⟨l, hold hl, hleft.trans (Int.min_eq_left hle).symm⟩
      · exact ⟨d, hd, (Int.min_eq_right hle).symm⟩
    · rcases Int.le_total d.1 (new.foldr Box.add (Box.single first)).maxX with hle | hle
      · exact ⟨r, hold hr, hright.trans (Int.max_eq_left hle).symm⟩
      · exact ⟨d, hd, (Int.max_eq_right hle).symm⟩
    · rcases Int.le_total (new.foldr Box.add (Box.single first)).minY d.2 with hle | hle
      · exact ⟨t, hold ht, htop.trans (Int.min_eq_left hle).symm⟩
      · exact ⟨d, hd, (Int.min_eq_right hle).symm⟩
    · rcases Int.le_total d.2 (new.foldr Box.add (Box.single first)).maxY with hle | hle
      · exact ⟨m, hold hm, hbottom.trans (Int.max_eq_left hle).symm⟩
      · exact ⟨d, hd, (Int.max_eq_right hle).symm⟩

/-- What has been gathered over a component is its bounding box. -/
theorem isBoundingBox_of_gathered {C : Set Cell} {box : Box}
    (h : FloodFill.Gathered Box.add Box.single C box) : IsBoundingBox C box := by
  obtain ⟨first, new, hfirst, hmem, rfl⟩ := h
  have hC : C = {c | c = first ∨ c ∈ new} := by
    ext c
    rw [← hmem]
    refine ⟨.inr, ?_⟩
    rintro (rfl | h)
    · exact hfirst
    · exact h
  rw [hC]
  exact boundingBox_foldr first new

theorem isRegion_region {w h : Nat} {C : Set Cell} {box : Box} (hbox : IsBoundingBox C box) :
    IsRegion w h C (box.region blockSize w h) := by
  refine ⟨box, hbox, rfl, rfl, ?_, ?_⟩ <;> simp only [Box.region] <;> omega

theorem mem_blocks {gridW gridH : Nat} {c : Cell} :
    c ∈ blocks gridW gridH ↔ 0 ≤ c.1 ∧ c.1 < gridW ∧ 0 ≤ c.2 ∧ c.2 < gridH := by
  obtain ⟨x, y⟩ := c
  simp only [blocks, List.mem_flatMap, List.mem_map, List.mem_range, Prod.mk.injEq]
  constructor
  · rintro ⟨gy, hgy, gx, hgx, rfl, rfl⟩
    omega
  · intro h
    exact ⟨y.toNat, by omega, x.toNat, by omega, by omega, by omega⟩

theorem length_blocks (gridW gridH : Nat) : (blocks gridW gridH).length = gridW * gridH := by
  simp [blocks, List.length_flatMap, Nat.mul_comm]

/-! ### The comparison -/

/-- The regions are those of the components of the marked blocks, one for each, the images are
identical if no pixel that both have differs, and whether they have the same size is told apart. -/
structure Exact (a b : Image) (threshold : Int) (r : Comparison) : Prop where
  regions : ∃ components : List (Set Cell), components.Nodup ∧
    (∀ C, C ∈ components ↔ ∃ c, Marked a b threshold c ∧ C = component a b threshold c) ∧
    List.Forall₂ (IsRegion (common a b).1 (common a b).2) components r.regions
  identical : r.identical = true ↔
    ∀ x y, x < (common a b).1 → y < (common a b).2 → ¬ Differs a b threshold (x, y)
  dimensions : r.dimensionsMatch = true ↔ a.width = b.width ∧ a.height = b.height

theorem regions_exact : ∃ components : List (Set Cell), components.Nodup ∧
    (∀ C, C ∈ components ↔ ∃ c, Marked a b threshold c ∧ C = component a b threshold c) ∧
    List.Forall₂ (IsRegion (common a b).1 (common a b).2) components
      (compareScreenshots a b threshold).regions := by
  let gridW := ((common a b).1 + blockSize - 1) / blockSize
  let gridH := ((common a b).2 + blockSize - 1) / blockSize
  let isOpen := isChanged (tally a b threshold (common a b).1 (common a b).2).changedGrid gridW gridH
  have hopen : ∀ c, isOpen c = true ↔ Marked a b threshold c := isChanged_iff
  have hcells : ∀ c, isOpen c = true → c ∈ blocks gridW gridH := by
    intro c hc
    have hinside := of_decide_eq_true (Bool.and_eq_true_iff.mp hc).1
    refine mem_blocks.mpr ?_
    omega
  have hfuel : 1 + (4 + 1) * (blocks gridW gridH).length ≤ 1 + 5 * (gridW * gridH) := by
    rw [length_blocks]
  have hclosed : FloodFill.Closed isOpen neighbours [] := fun c hc => (List.not_mem_nil hc).elim
  obtain ⟨components, hnodup, hall, hgathered⟩ :=
    FloodFill.sweep_components hcells (fun c => Nat.le_refl 4)
      (fun c d h => mem_neighbours.mpr (touching_comm.mp (mem_neighbours.mp h))) hfuel Box.add
      Box.single (blocks gridW gridH) hclosed
  refine ⟨components, hnodup, fun C => ?_, ?_⟩
  · rw [hall]
    constructor
    · rintro ⟨c, -, hc, -, rfl⟩
      exact ⟨c, (hopen c).mp hc, (component_eq_fill c).symm⟩
    · rintro ⟨c, hc, rfl⟩
      have hc' := (hopen c).mpr hc
      exact ⟨c, hcells c hc', hc', List.not_mem_nil, component_eq_fill c⟩
  · refine List.forall₂_map_right_iff.mpr (hgathered.imp fun C box hbox => ?_)
    exact isRegion_region (isBoundingBox_of_gathered hbox)

theorem identical_iff : (compareScreenshots a b threshold).identical = true ↔
    ∀ x y, x < (common a b).1 → y < (common a b).2 → ¬ Differs a b threshold (x, y) := by
  have hcount : (tally a b threshold (common a b).1 (common a b).2).changedPixels =
      (area (common a b).1 (common a b).2).countP (Differs a b threshold ·) := by
    rw [tally, (foldl_add a b threshold _ _).1, Nat.zero_add]
  have hidentical : (compareScreenshots a b threshold).identical = true ↔
      (tally a b threshold (common a b).1 (common a b).2).changedPixels = 0 := decide_eq_true_iff
  rw [hidentical, hcount, List.countP_eq_zero]
  constructor
  · exact fun h x y hx hy hdiffers => h (x, y) (mem_area.mpr ⟨hx, hy⟩) (decide_eq_true hdiffers)
  · intro h p hp hdiffers
    have harea := mem_area.mp hp
    exact h p.1 p.2 harea.1 harea.2 (of_decide_eq_true hdiffers)

theorem compareScreenshots_exact (a b : Image) (threshold : Int) :
    Exact a b threshold (compareScreenshots a b threshold) where
  regions := regions_exact
  identical := identical_iff
  dimensions := by
    rw [compareScreenshots, decide_eq_true_eq, Prod.mk.injEq]

/-- An image of one pixel and a wider one are called identical. -/
theorem identical_of_different_sizes : ¬ ∀ (a b : Image) (threshold : Int),
    (compareScreenshots a b threshold).identical = true ↔
      (a.width = b.width ∧ a.height = b.height) ∧
        ∀ x y, x < (common a b).1 → y < (common a b).2 → ¬ Differs a b threshold (x, y) := by
  intro h
  have hcase := (h ⟨1, 1, fun _ _ => (0, 0, 0)⟩ ⟨2, 1, fun _ _ => (0, 0, 0)⟩ 10).mp rfl
  exact absurd hcase.1.1 (by decide)

end ScreenshotDiff

end AmigaDevbench
