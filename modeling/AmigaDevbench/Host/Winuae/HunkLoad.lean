import AmigaDevbench.Core.Raises
import AmigaDevbench.Host.Winuae.HunkRelocate

/-!
# Loading a hunk executable

The loader writes the images into the guest's memory in chunks and reads each one back. After a
failure it writes back what it has overwritten. What becomes of each request is up to the target:
it may be answered, be refused, or take the connection with it, and a write leaves anything in its
own range.
-/

namespace AmigaDevbench.Winuae

open Raises

namespace HunkLoad

/-- What becomes of a request, with the message of the exception. -/
inductive Fate where
  | answered
  | refused (message : String)
  | lost (message : String)

/-- The reply to `memory-check`. -/
structure RamCheck where
  writableRam : Bool
  memory : Text

/-- The target, and the packet size that was agreed on with it. Requests are numbered. -/
structure Target where
  packetSize : Nat
  fate : Nat → Fate
  /-- What the write request of these bytes leaves at each of their places. -/
  left : Nat → Bytes → Nat → UInt8
  /-- What `memory-check` replies, if that is an object. -/
  ram : Nat → Option RamCheck
  packetSize_ge : 64 ≤ packetSize

/-- The guest's memory and the connection, and the variable `attempted`. -/
structure Guest where
  memory : Nat → UInt8
  connected : Bool
  requests : Nat
  attempted : Option Nat

abbrev Load := Raises DebugError Guest

section Requests

variable (target : Target)

/-- `_request`, of a request with this effect on the memory. -/
def sendRequest (effect : Guest → Nat → UInt8) : Load Nat := do
  let s ← get
  if !s.connected then throw ⟨"Connect to the WinUAE debugger first"⟩
  modify fun s => { s with memory := effect s, requests := s.requests + 1 }
  match target.fate s.requests with
  | .answered => return s.requests
  | .refused message => throw ⟨message⟩
  | .lost message => do
    modify fun s => { s with connected := false }
    throw ⟨message⟩

/-- The memory of `size` bytes from an address. -/
def readMemory (memory : Nat → UInt8) (address size : Nat) : Bytes :=
  (List.range size).map fun i => memory (address + i)

def chunkSize : Nat := min 4096 ((target.packetSize - 40) / 2)

/-- `range(0, size, chunk_size)`. -/
def chunkOffsets (size : Nat) : List Nat :=
  (List.range ((size + (chunkSize target - 1)) / chunkSize target)).map (· * chunkSize target)

/-- The loop of `read_bytes`. -/
def readChunks (address size : Nat) : List Nat → Load Bytes
  | [] => return []
  | offset :: offsets => do
    let length := min (chunkSize target) (size - offset)
    let _ ← sendRequest target fun s => s.memory
    let s ← get
    let rest ← readChunks address size offsets
    return readMemory s.memory (address + offset) length ++ rest

def readBytes (address size : Nat) : Load Bytes := do
  if address + size > 0x100000000 then throw ⟨"Memory range wraps the address space"⟩
  readChunks target address size (chunkOffsets target size)

/-- The memory behind a write request. -/
def written (address : Nat) (part : Bytes) (s : Guest) (a : Nat) : UInt8 :=
  if address ≤ a ∧ a < address + part.length then target.left s.requests part (a - address)
  else s.memory a

/-- The loop of `write_bytes`. -/
def writeChunks (address : Nat) (data : Bytes) : List Nat → Load Unit
  | [] => return ()
  | offset :: offsets => do
    let part := (data.drop offset).take (chunkSize target)
    let _ ← sendRequest target (written target (address + offset) part)
    writeChunks address data offsets

/-- `write_bytes`, without the check. -/
def writeBytes (address : Nat) (data : Bytes) : Load Unit := do
  if address + data.length > 0x100000000 then throw ⟨"Memory range wraps the address space"⟩
  writeChunks target address data (chunkOffsets target data.length)

/-- `placements[i]["memory"]`. -/
def placementMemory (placements : Val) (i : Nat) : Text :=
  match placements with
  | .list ps =>
    match ps.getD i (.list []) with
    | .dict d => Dict.getText d "memory" []
    | .str _ | .int _ | .bool _ | .list _ => []
  | .str _ | .int _ | .bool _ | .dict _ => []

/-- `regions[i][0]`. -/
def regionAddress (regions : List (Nat × Nat)) (i : Nat) : Nat := (regions.getD i (0, 0)).1

/-- `memory-check` for an image that is not empty. -/
def checkImage (placements : Val) (i : Nat) (image : Bytes) : Load Unit :=
  if image = [] then return ()
  else do
    let number ← sendRequest target fun s => s.memory
    let memory := placementMemory placements i
    let fits := match target.ram number with
      | some check => check.writableRam && check.memory == memory
      | none => false
    if !fits then
      throw ⟨"Hunk " ++ toString i ++ " placement is not " ++ String.ofList memory ++ " RAM"⟩

/-- The first loop of `_hunk_load`. -/
def checkRam (placements : Val) : Nat → List Bytes → Load Unit
  | _, [] => return ()
  | i, image :: images => do
    checkImage target placements i image
    checkRam placements (i + 1) images

/-- The bytes that an image is going to overwrite. -/
def backUp (regions : List (Nat × Nat)) (i : Nat) (image : Bytes) : Load Bytes :=
  if image = [] then return [] else readBytes target (regionAddress regions i) image.length

/-- The list `backups`. -/
def readBackups (regions : List (Nat × Nat)) : Nat → List Bytes → Load (List Bytes)
  | _, [] => return []
  | i, image :: images => do
    let backup ← backUp target regions i image
    let backups ← readBackups regions (i + 1) images
    return backup :: backups

/-- The bytes are written and read back. -/
def writeAndRead (address : Nat) (data : Bytes) : Load Bytes := do
  writeBytes target address data
  readBytes target address data.length

/-- One image is written and verified. -/
def loadImage (regions : List (Nat × Nat)) (i : Nat) (image : Bytes) : Load Unit := do
  modify fun s => { s with attempted := some i }
  if image = [] then return ()
  else do
    let now ← writeAndRead target (regionAddress regions i) image
    if now ≠ image then throw ⟨"Hunk " ++ toString i ++ " verification failed"⟩

/-- The loop that writes the images. -/
def loadImages (regions : List (Nat × Nat)) : Nat → List Bytes → Load Unit
  | _, [] => return ()
  | i, image :: images => do
    loadImage target regions i image
    loadImages regions (i + 1) images

/-- One hunk is written back; it fails where the write or the reading back does. -/
def restore (regions : List (Nat × Nat)) (i : Nat) (backup : Bytes) : Load Bool :=
  if backup = [] then return true
  else tryCatch (do
    let now ← writeAndRead target (regionAddress regions i) backup
    return now == backup) fun _ => return false

/-- The hunks below the given number are written back, the last one first. -/
def rollback (regions : List (Nat × Nat)) (backups : List Bytes) :
    Nat → List Nat → Load (List Nat)
  | 0, failed => return failed
  | i + 1, failed => do
    let restored ← restore target regions i (backups.getD i [])
    rollback regions backups i (if restored then failed else failed ++ [i])

/-- `f"{failed}"` of a list of numbers. -/
def listText (l : List Nat) : String := "[" ++ ", ".intercalate (l.map toString) ++ "]"

/-- `note`. -/
def note (failed : List Nat) : String :=
  if failed = [] then "original bytes restored"
  else "rollback failed for hunks " ++ listText failed ++ "; memory may be partly modified"

/-- The exception that a failed load raises. -/
def report (cause : DebugError) (failed : List Nat) : DebugError :=
  ⟨cause.message ++ "; " ++ note failed⟩

/-- The entry of a hunk in the result. -/
structure LoadedHunk where
  index : Nat
  address : Nat
  size : Nat
  kind : HunkKind
  memory : HunkMemory

/-- `parse_hunk`, as it is called. That its loops are given enough turns is proved elsewhere. -/
def parsedHunks (data : Bytes) : Except DebugError (List Hunk) :=
  match parseHunk data with
  | .ok hunks => .ok hunks
  | .error (.raised e) => .error e
  | .error .stuck => .error ⟨"stuck"⟩

/-- What is rolled back after a failure. -/
def undo (regions : List (Nat × Nat)) (backups : List Bytes) (cause : DebugError) : Load Unit := do
  let s ← get
  let failed ← rollback target regions backups ((s.attempted.map (· + 1)).getD 0) []
  throw (report cause failed)

/-- `_hunk_load`; `file` is what `read_file_async` returns or raises. -/
def hunkLoad (file : Except DebugError Bytes) (placements : Val) : Load (List LoadedHunk) := do
  let data ← liftExcept file
  let hunks ← liftExcept (parsedHunks data)
  let (regions, images) ← liftExcept (relocate hunks placements)
  checkRam target placements 0 images
  let backups ← readBackups target regions 0 images
  modify fun s => { s with attempted := none }
  tryCatch (loadImages target regions 0 images) (undo target regions backups)
  return hunks.map fun h => ⟨h.index, regionAddress regions h.index, h.size, h.kind, h.memory⟩

end Requests

/-! ### Requests and memory -/

section Triples

variable {target : Target} {P Q : (Nat → UInt8) → Option Nat → Prop}

/-- A condition on the memory and on `attempted`. -/
def On (P : (Nat → UInt8) → Option Nat → Prop) (s : Guest) : Prop := P s.memory s.attempted

/-- A request that has been sent has its effect, whatever becomes of it. -/
theorem triple_sendRequest {effect : Guest → Nat → UInt8} (hkeep : ∀ m k, P m k → Q m k)
    (heffect : ∀ s, On P s → Q (effect s) s.attempted) :
    Triple (On P) (sendRequest target effect) (fun _ => On Q) (On Q) := by
  intro s hs
  rw [sendRequest, outcome_bind, outcome_get]
  simp only
  split
  · have hraise : Triple (On P) (throw ⟨"Connect to the WinUAE debugger first"⟩ : Load PUnit)
        (fun _ _ => False) (On Q) := triple_throw fun s => hkeep s.memory s.attempted
    exact triple_bind hraise (fun _ _ h => h.elim) s hs
  · refine triple_bind (Q := fun _ => On Q) (triple_modify ?_) (fun _ => ?_) s hs
    · exact heffect
    · split
      · exact triple_pure fun _ h => h
      · exact triple_throw fun _ h => h
      · exact triple_bind (Q := fun _ => On Q) (triple_modify fun _ h => h) fun _ =>
          triple_throw fun _ h => h

/-- A request that only reads. -/
theorem keeps_ask : Keeps (On P) (sendRequest target fun s => s.memory) :=
  triple_sendRequest (fun _ _ h => h) fun _ h => h

/-- The state is the one of a moment before. -/
theorem triple_of_at {α : Type} {x : Load α} {R : α → Guest → Prop}
    (h : ∀ m k, Triple (On fun m' k' => m' = m ∧ k' = k) x
      (fun a s => R a s ∧ On (fun m' k' => m' = m ∧ k' = k) s)
      (On fun m' k' => m' = m ∧ k' = k)) :
    Triple (On P) x (fun a s => R a s ∧ On P s) (On P) := by
  intro s hs
  have hat : ∀ t, On (fun m' k' => m' = s.memory ∧ k' = s.attempted) t → On P t := by
    rintro t ⟨hm, hk⟩
    rw [On, hm, hk]
    exact hs
  exact ((h s.memory s.attempted).conseq (fun t ht => ht)
    (fun a t ht => And.intro ht.1 (hat t ht.2)) hat) s ⟨rfl, rfl⟩

theorem readMemory_add (m : Nat → UInt8) (a n k : Nat) :
    readMemory m a (n + k) = readMemory m a n ++ readMemory m (a + n) k := by
  rw [readMemory, List.range_add, List.map_append, List.map_map]
  simp only [readMemory, Function.comp_def, Nat.add_assoc]

@[simp] theorem length_readMemory (m : Nat → UInt8) (a n : Nat) :
    (readMemory m a n).length = n := by
  rw [readMemory, List.length_map, List.length_range]

theorem readMemory_congr {m m' : Nat → UInt8} {a n : Nat}
    (h : ∀ i < n, m (a + i) = m' (a + i)) : readMemory m a n = readMemory m' a n :=
  List.map_congr_left fun i hi => h i (List.mem_range.mp hi)

theorem readMemory_inj {m m' : Nat → UInt8} {a n : Nat} (h : readMemory m a n = readMemory m' a n)
    {x : Nat} (hge : a ≤ x) (hlt : x < a + n) : m x = m' x := by
  have hx := List.map_inj_left.mp h (x - a) (List.mem_range.mpr (by omega))
  rwa [show a + (x - a) = x by omega] at hx

/-- The chunks from one on make up the rest of the range. -/
theorem triple_readChunks (address size : Nat) (m : Nat → UInt8) (k : Option Nat) (r : Nat) :
    ∀ j, size ≤ (j + r) * chunkSize target →
      Triple (On fun m' k' => m' = m ∧ k' = k)
        (readChunks target address size ((List.range' j r).map (· * chunkSize target)))
        (fun b s => b = readMemory m (address + j * chunkSize target)
          (size - j * chunkSize target) ∧ On (fun m' k' => m' = m ∧ k' = k) s)
        (On fun m' k' => m' = m ∧ k' = k) := by
  induction r with
  | zero =>
    intro j hj
    refine triple_pure fun s hs => ⟨?_, hs⟩
    have hnone : size - j * chunkSize target = 0 := Nat.sub_eq_zero_of_le hj
    rw [hnone]
    rfl
  | succ r ih =>
    intro j hj
    have hnext := ih (j + 1) (by rwa [Nat.add_right_comm, Nat.add_assoc])
    rw [List.range'_succ, List.map_cons, readChunks]
    refine triple_bind keeps_ask fun _ => triple_bind
      (Q := fun t s => t.memory = m ∧ On (fun m' k' => m' = m ∧ k' = k) s)
      (triple_get fun s hs => ⟨hs.1, hs⟩) fun t => ?_
    intro s hs
    obtain ⟨ht, hs⟩ := hs
    refine (triple_bind hnext fun rest => triple_pure ?_) s hs
    rintro s' ⟨rfl, hs'⟩
    refine ⟨?_, hs'⟩
    rw [ht, Nat.succ_mul, ← Nat.add_assoc]
    rcases Nat.le_total (chunkSize target) (size - j * chunkSize target) with hfull | hlast
    · rw [Nat.min_eq_left hfull, ← readMemory_add]
      congr 1
      omega
    · have hnone : size - (j * chunkSize target + chunkSize target) = 0 := by omega
      rw [Nat.min_eq_right hlast, hnone]
      exact List.append_nil _

theorem chunkSize_pos : 0 < chunkSize target := by
  have := target.packetSize_ge
  rw [chunkSize]
  omega

/-- The bytes read are the ones in memory, and reading changes nothing. -/
theorem triple_readBytes (address size : Nat) :
    Triple (On P) (readBytes target address size)
      (fun b s => b = readMemory s.memory address size ∧ On P s) (On P) := by
  refine (triple_of_at (R := fun b s => b = readMemory s.memory address size) fun m k => ?_)
  rw [readBytes]
  split
  · exact triple_bind (Q := fun _ _ => False) (triple_throw fun _ h => h) fun _ _ h => h.elim
  · have hcover : size ≤ (0 + (size + (chunkSize target - 1)) / chunkSize target) *
        chunkSize target := by
      have hpos : 0 < chunkSize target := chunkSize_pos
      have := Nat.div_add_mod (size + (chunkSize target - 1)) (chunkSize target)
      have := Nat.mod_lt (size + (chunkSize target - 1)) hpos
      rw [Nat.zero_add, Nat.mul_comm]
      omega
    have hread := triple_readChunks address size m k _ 0 hcover
    rw [← List.range_eq_range', Nat.zero_mul, Nat.add_zero, Nat.sub_zero] at hread
    refine hread.conseq (fun _ h => h) (fun b s hb => ?_) fun _ h => h
    rw [hb.2.1]
    exact hb

/-- What survives every change of these bytes survives the writing of the chunks. -/
theorem keeps_writeChunks {address : Nat} {data : Bytes}
    (hwithin : ∀ m m' k, P m k →
      (∀ a, ¬ (address ≤ a ∧ a < address + data.length) → m' a = m a) → P m' k)
    (offsets : List Nat) : Keeps (On P) (writeChunks target address data offsets) := by
  induction offsets with
  | nil => exact triple_pure fun _ h => h
  | cons offset offsets ih =>
    refine triple_bind (triple_sendRequest (fun _ _ h => h) fun s hs => ?_) fun _ => ih
    refine hwithin s.memory _ _ hs fun a ha => if_neg fun hin => ha ?_
    rw [List.length_take, List.length_drop] at hin
    omega

theorem keeps_writeBytes {address : Nat} {data : Bytes}
    (hwithin : ∀ m m' k, P m k →
      (∀ a, ¬ (address ≤ a ∧ a < address + data.length) → m' a = m a) → P m' k) :
    Keeps (On P) (writeBytes target address data) := by
  rw [writeBytes]
  split
  · exact triple_bind (Q := fun _ _ => False) (triple_throw fun _ h => h) fun _ _ h => h.elim
  · exact keeps_writeChunks hwithin _

/-- The bytes are written somehow, and the ones read are in memory. -/
theorem triple_writeAndRead {address : Nat} {data : Bytes}
    (hwithin : ∀ m m' k, P m k →
      (∀ a, ¬ (address ≤ a ∧ a < address + data.length) → m' a = m a) → P m' k) :
    Triple (On P) (writeAndRead target address data)
      (fun b s => b = readMemory s.memory address data.length ∧ On P s) (On P) :=
  triple_bind (keeps_writeBytes hwithin) fun _ => triple_readBytes address data.length

theorem keeps_checkRam (placements : Val) (images : List Bytes) :
    ∀ i, Keeps (On P) (checkRam target placements i images) := by
  induction images with
  | nil => exact fun i => triple_pure fun _ h => h
  | cons image images ih =>
    intro i
    refine triple_bind (Q := fun _ => On P) ?_ fun _ => ih (i + 1)
    rw [checkImage]
    split
    · exact triple_pure fun _ h => h
    · have hend : ∀ (fits : Bool) (e : DebugError),
          Keeps (On P) (if !fits then throw e else return () : Load Unit) := by
        intro fits e
        cases fits with
        | false => exact triple_throw fun _ h => h
        | true => exact triple_pure fun _ h => h
      exact triple_bind keeps_ask fun number => hend _ _

end Triples

/-! ### Which bytes may have changed -/

/-- The address of a byte of an image. -/
def InImage (regions : List (Nat × Nat)) (images : List Bytes) (i a : Nat) : Prop :=
  regionAddress regions i ≤ a ∧ a < regionAddress regions i + (images.getD i []).length

/-- Only bytes of the touched hunks have changed. -/
def Confined (regions : List (Nat × Nat)) (images : List Bytes) (before : Nat → UInt8)
    (touched : Nat → Prop) (m : Nat → UInt8) : Prop :=
  ∀ a, (∀ i, touched i → ¬ InImage regions images i a) → m a = before a

/-- The memory has the image of a hunk. -/
def Holds (regions : List (Nat × Nat)) (images : List Bytes) (m : Nat → UInt8) (i : Nat) : Prop :=
  readMemory m (regionAddress regions i) (images.getD i []).length = images.getD i []

/-- The hunks below a number have been loaded. -/
def Loaded (regions : List (Nat × Nat)) (images : List Bytes) (before : Nat → UInt8) (i : Nat)
    (m : Nat → UInt8) : Prop :=
  Confined regions images before (· < i) m ∧ ∀ j < i, Holds regions images m j

/-- A hunk has been attempted and no later one. -/
def Attempted (regions : List (Nat × Nat)) (images : List Bytes) (before : Nat → UInt8)
    (m : Nat → UInt8) (k : Option Nat) : Prop :=
  ∃ i < images.length, k = some i ∧ Confined regions images before (· < i + 1) m

/-- The backups are the bytes that were under the images. -/
def SavedAt (regions : List (Nat × Nat)) (before : Nat → UInt8) (i : Nat) (images : List Bytes)
    (backups : List Bytes) : Prop :=
  ∀ j, backups.getD j [] =
    readMemory before (regionAddress regions (i + j)) (images.getD j []).length

section Changes

variable {target : Target} {regions : List (Nat × Nat)} {images : List Bytes}
  {before : Nat → UInt8}

theorem Confined.mono {touched touched' : Nat → Prop} {m : Nat → UInt8}
    (h : Confined regions images before touched m) (himp : ∀ i, touched i → touched' i) :
    Confined regions images before touched' m :=
  fun a ha => h a fun i hi => ha i (himp i hi)

/-- Another change of a hunk that has been touched. -/
theorem Confined.change {touched : Nat → Prop} {m m' : Nat → UInt8} {i : Nat}
    (h : Confined regions images before touched m) (hi : touched i)
    (hchange : ∀ a, ¬ InImage regions images i a → m' a = m a) :
    Confined regions images before touched m' :=
  fun a ha => (hchange a (ha i hi)).trans (h a ha)

/-- A hunk whose bytes are the ones of before is not touched. -/
theorem Confined.restored {touched touched' : Nat → Prop} {m : Nat → UInt8} {i : Nat}
    (h : Confined regions images before touched m) (hi : ∀ j, touched j → j = i ∨ touched' j)
    (hbytes : ∀ a, InImage regions images i a → m a = before a) :
    Confined regions images before touched' m := by
  intro a ha
  by_cases hin : InImage regions images i a
  · exact hbytes a hin
  · refine h a fun j hj => ?_
    rcases hi j hj with rfl | hj
    · exact hin
    · exact ha j hj

section Placements

variable (hplaced : Placed regions images)
include hplaced

theorem InImage.inside {i a : Nat} (h : InImage regions images i a) :
    Inside (regions.getD i (0, 0)) a :=
  ⟨h.1, h.2.trans_le (Nat.add_le_add_left (hplaced.fits i) _)⟩

theorem InImage.apart {i j a : Nat} (hij : i ≠ j) (h : InImage regions images i a) :
    ¬ InImage regions images j a :=
  fun hj => hplaced.apart i j a hij (h.inside hplaced) (hj.inside hplaced)

/-- A change of one hunk leaves the images of the others. -/
theorem Holds.change {m m' : Nat → UInt8} {i j : Nat} (h : Holds regions images m j)
    (hij : j ≠ i) (hchange : ∀ a, ¬ InImage regions images i a → m' a = m a) :
    Holds regions images m' j := by
  rw [Holds] at h ⊢
  rw [← readMemory_congr fun k hk => (hchange _ ?_).symm, h]
  exact InImage.apart hplaced hij ⟨Nat.le_add_right _ _, Nat.add_lt_add_left hk _⟩

/-! ### The load -/

theorem triple_loadImage {i : Nat} (hi : i < images.length) :
    Triple (On fun m _ => Loaded regions images before i m)
      (loadImage target regions i (images.getD i []))
      (fun _ => On fun m _ => Loaded regions images before (i + 1) m)
      (On (Attempted regions images before)) := by
  refine triple_bind (Q := fun _ => On fun m k => k = some i ∧
    Confined regions images before (· < i + 1) m ∧ ∀ j < i, Holds regions images m j)
    (triple_modify fun s hs => ⟨rfl, hs.1.mono fun _ => Nat.lt_succ_of_lt, hs.2⟩) fun _ => ?_
  have hall : ∀ m, (∀ j < i, Holds regions images m j) → Holds regions images m i →
      ∀ j < i + 1, Holds regions images m j := by
    intro m hbelow hhere j hj
    rcases Nat.lt_succ_iff_lt_or_eq.mp hj with hlt | rfl
    · exact hbelow j hlt
    · exact hhere
  split
  · next hempty =>
    refine triple_pure fun s hs => ⟨hs.2.1, hall _ hs.2.2 ?_⟩
    rw [Holds, hempty]
    rfl
  · refine triple_bind ((triple_writeAndRead ?_).conseq (fun _ h => h) (fun _ _ h => h)
      fun s hs => ⟨i, hi, hs.1, hs.2.1⟩) fun now => ?_
    · rintro m m' k ⟨hk, hconfined, hbelow⟩ hchange
      exact ⟨hk, hconfined.change (Nat.lt_succ_self i) hchange,
        fun j hj => (hbelow j hj).change hplaced (Nat.ne_of_lt hj) hchange⟩
    · split
      · exact triple_throw fun s hs => ⟨i, hi, hs.2.1, hs.2.2.1⟩
      · next hsame =>
        refine triple_pure fun s hs => ⟨hs.2.2.1, hall _ hs.2.2.2 ?_⟩
        exact hs.1.symm.trans (not_not.mp hsame)

theorem triple_loadImages (rest : List Bytes) : ∀ i ≤ images.length, images.drop i = rest →
    Triple (On fun m _ => Loaded regions images before i m) (loadImages target regions i rest)
      (fun _ => On fun m _ => Loaded regions images before images.length m)
      (On (Attempted regions images before)) := by
  induction rest with
  | nil =>
    intro i hle hrest
    rw [show i = images.length from Nat.le_antisymm hle (List.drop_eq_nil_iff.mp hrest)]
    exact triple_pure fun s hs => hs
  | cons image rest ih =>
    intro i _ hrest
    have hi : i < images.length := by
      by_contra hge
      rw [List.drop_eq_nil_of_le (by omega)] at hrest
      cases hrest
    have himage : images.getD i [] = image := by
      rw [List.getD_eq_getElem _ _ hi]
      exact (List.cons.inj ((List.drop_eq_getElem_cons hi).symm.trans hrest)).1
    have hnext : images.drop (i + 1) = rest :=
      (List.cons.inj ((List.drop_eq_getElem_cons hi).symm.trans hrest)).2
    have hload : Triple (On fun m _ => Loaded regions images before i m)
        (loadImage target regions i (images.getD i [])) _ _ := triple_loadImage hplaced hi
    rw [himage] at hload
    exact triple_bind hload fun _ => ih (i + 1) hi hnext

end Placements

/-! ### The rollback -/

theorem triple_backUp {P : (Nat → UInt8) → Option Nat → Prop} (i : Nat) (image : Bytes) :
    Triple (On P) (backUp target regions i image)
      (fun b s => b = readMemory s.memory (regionAddress regions i) image.length ∧ On P s)
      (On P) := by
  rw [backUp]
  split
  · next hempty =>
    rw [hempty]
    exact triple_pure fun s hs => ⟨rfl, hs⟩
  · exact triple_readBytes _ _

theorem triple_readBackups (images : List Bytes) : ∀ i,
    Triple (On fun m _ => m = before) (readBackups target regions i images)
      (fun backups s => SavedAt regions before i images backups ∧ On (fun m _ => m = before) s)
      (On fun m _ => m = before) := by
  induction images with
  | nil => exact fun i => triple_pure fun s hs => ⟨fun j => rfl, hs⟩
  | cons image images ih =>
    intro i
    refine triple_bind (triple_backUp i image) fun backup => ?_
    intro s hs
    refine triple_bind (ih (i + 1)) (fun backups => triple_pure fun s' hs' => ⟨?_, hs'.2⟩) s hs.2
    intro j
    cases j with
    | zero => exact hs.1.trans (by rw [show s.memory = before from hs.2]; rfl)
    | succ j =>
      rw [show i + (j + 1) = i + 1 + j by omega]
      exact hs'.1 j

/-- A hunk is written back, or is among the ones that may have changed. -/
theorem triple_restore {i : Nat} {backup : Bytes} {failed : List Nat}
    (hbackup : backup =
      readMemory before (regionAddress regions i) (images.getD i []).length) :
    Triple (On fun m _ => Confined regions images before (fun j => j < i + 1 ∨ j ∈ failed) m)
      (restore target regions i backup)
      (fun restored => On fun m _ => Confined regions images before
        (fun j => j < i ∨ j ∈ if restored then failed else failed ++ [i]) m)
      (fun _ => False) := by
  have hlength : backup.length = (images.getD i []).length := by rw [hbackup, length_readMemory]
  have htouched : ∀ j, j < i + 1 ∨ j ∈ failed → j = i ∨ j < i ∨ j ∈ failed := by
    rintro j (hj | hj)
    · omega
    · exact .inr (.inr hj)
  have hfailed : ∀ m, Confined regions images before (fun j => j < i + 1 ∨ j ∈ failed) m →
      Confined regions images before (fun j => j < i ∨ j ∈ failed ++ [i]) m := by
    refine fun m hm => hm.mono fun j hj => ?_
    rw [List.mem_append, List.mem_singleton]
    rcases htouched j hj with rfl | hj | hj
    · exact .inr (.inr rfl)
    · exact .inl hj
    · exact .inr (.inl hj)
  rw [restore]
  split
  · next hempty =>
    refine triple_pure fun s hs => hs.restored htouched fun a ha => ?_
    rw [hempty] at hlength
    rw [InImage, ← hlength] at ha
    exact absurd ha (by simp only [List.length_nil]; omega)
  · refine triple_tryCatch (E := On fun m _ => Confined regions images before
      (fun j => j < i + 1 ∨ j ∈ failed) m) (triple_bind (triple_writeAndRead ?_) fun now =>
        triple_pure ?_) fun e => triple_pure fun s hs => hfailed _ hs
    · intro m m' k hm hchange
      rw [hlength] at hchange
      exact hm.change (i := i) (.inl (Nat.lt_succ_self i)) hchange
    · rintro s ⟨hnow, hs⟩
      by_cases hsame : now = backup
      · rw [beq_iff_eq.mpr hsame]
        refine hs.restored htouched fun a ha => ?_
        refine readMemory_inj ?_ ha.1 ha.2
        rw [← hbackup, ← hsame, hnow, hlength]
      · rw [beq_eq_false_iff_ne.mpr hsame]
        exact hfailed _ hs

/-- The rollback does not raise, and only the hunks it names may have changed. -/
theorem triple_rollback {backups : List Bytes} (hsaved : SavedAt regions before 0 images backups)
    (i : Nat) : ∀ failed,
    Triple (On fun m _ => Confined regions images before (fun j => j < i ∨ j ∈ failed) m)
      (rollback target regions backups i failed)
      (fun failed => On fun m _ => Confined regions images before (· ∈ failed) m)
      (fun _ => False) := by
  induction i with
  | zero =>
    exact fun failed => triple_pure fun s hs => hs.mono fun j hj => hj.resolve_left (by omega)
  | succ i ih =>
    intro failed
    have hbackup := hsaved i
    rw [Nat.zero_add] at hbackup
    exact triple_bind (triple_restore hbackup) fun restored => ih _

end Changes

/-! ### What is reported is true -/

/-- The file is an executable, and these are its images at their places. -/
def Relocated (file : Except DebugError Bytes) (placements : Val) (regions : List (Nat × Nat))
    (images : List Bytes) : Prop :=
  ∃ data hunks, file = .ok data ∧ parseHunk data = .ok hunks ∧
    relocate hunks placements = .ok (regions, images)

/-- What a call tells of the guest's memory. A return stands for the images. A failed load names
the hunks that may differ, or tells that the bytes were restored if there is none; before the load
nothing has changed. -/
def Reported (file : Except DebugError Bytes) (placements : Val) (before : Nat → UInt8)
    {α : Type} : Except DebugError α × Guest → Prop
  | (.ok _, s) => ∃ regions images, Relocated file placements regions images ∧
      ∀ i, Holds regions images s.memory i
  | (.error e, s) => s.memory = before ∨
      ∃ regions images cause failed, Relocated file placements regions images ∧
        e = report cause failed ∧ (failed = [] → s.memory = before) ∧
        ∀ i ∉ failed, ∀ a, Inside (regions.getD i (0, 0)) a → s.memory a = before a

theorem placed_of_relocated {file : Except DebugError Bytes} {placements : Val}
    {regions : List (Nat × Nat)} {images : List Bytes}
    (h : Relocated file placements regions images) : Placed regions images := by
  obtain ⟨data, hunks, -, hparse, hrelocate⟩ := h
  exact placed_of_relocate ((HunkFormat.parseHunk_eq_ok_iff data hunks).mp hparse).1.toSized
    hrelocate

section Reports

variable {target : Target} {file : Except DebugError Bytes} {placements : Val}
  {before : Nat → UInt8}

/-- Before the load an exception finds the memory as it was. -/
theorem reported_bind {α β : Type} {P : Guest → Prop} {Q : α → Guest → Prop} {x : Load α}
    {f : α → Load β} (hx : Triple P x Q (On fun m _ => m = before))
    (hf : ∀ a s, Q a s → Reported file placements before ((f a).outcome s)) (s : Guest)
    (hs : P s) : Reported file placements before ((x >>= f).outcome s) := by
  have hfirst := hx s hs
  rw [outcome_bind]
  revert hfirst
  rcases x.outcome s with ⟨r, s'⟩
  cases r with
  | ok a => exact hf a s'
  | error e => exact Or.inl

theorem reported_undo {regions : List (Nat × Nat)} {images backups : List Bytes}
    (hrelocated : Relocated file placements regions images)
    (hsaved : SavedAt regions before 0 images backups) (cause : DebugError) (s : Guest)
    (hs : On (Attempted regions images before) s) :
    Reported file placements before ((undo target regions backups cause).outcome s) := by
  obtain ⟨k, hk, hattempted, hconfined⟩ := hs
  have hroll : Exits _ _ ((rollback target regions backups (k + 1) []).outcome s) :=
    triple_rollback hsaved (k + 1) [] s (hconfined.mono fun j hj => Or.inl hj)
  rw [undo, outcome_bind, outcome_get]
  simp only [hattempted, Option.map_some, Option.getD_some, outcome_bind]
  revert hroll
  rcases (rollback target regions backups (k + 1) []).outcome s with ⟨r, s'⟩
  cases r with
  | error e => exact False.elim
  | ok failed =>
    intro hfinal
    refine Or.inr ⟨regions, images, cause, failed, hrelocated, rfl, ?_, fun i hi a ha => ?_⟩
    · rintro rfl
      exact funext fun a => hfinal a (fun j hj => absurd hj List.not_mem_nil)
    · refine hfinal a fun j hj hin => ?_
      exact (placed_of_relocated hrelocated).apart i j a (fun heq => hi (heq ▸ hj)) ha
        (hin.inside (placed_of_relocated hrelocated))

/-- The load with its rollback. -/
theorem reported_loadImages {β : Type} {regions : List (Nat × Nat)} {images backups : List Bytes}
    (hrelocated : Relocated file placements regions images)
    (hsaved : SavedAt regions before 0 images backups) (result : β) (s : Guest)
    (hs : s.memory = before) :
    Reported file placements before ((do
      tryCatch (loadImages target regions 0 images) (undo target regions backups)
      return result : Load β).outcome s) := by
  have hload : Triple (On fun m _ => Loaded regions images before 0 m)
      (loadImages target regions 0 images) _ _ :=
    triple_loadImages (placed_of_relocated hrelocated) images 0 (Nat.zero_le _) rfl
  have hload := hload s ⟨fun a _ => congrFun hs a, fun j hj => absurd hj (Nat.not_lt_zero j)⟩
  rw [outcome_bind, outcome_tryCatch]
  revert hload
  rcases (loadImages target regions 0 images).outcome s with ⟨r, s'⟩
  cases r with
  | ok _ =>
    intro hloaded
    refine ⟨regions, images, hrelocated, fun i => ?_⟩
    rcases Nat.lt_or_ge i images.length with hlt | hge
    · exact hloaded.2 i hlt
    · rw [Holds, List.getD_eq_default _ _ hge]
      rfl
  | error cause =>
    intro hattempted
    have hundo : Reported file placements before
        ((undo target regions backups cause).outcome s') :=
      reported_undo hrelocated hsaved cause s' hattempted
    simp only
    revert hundo
    rcases hrun : (undo target regions backups cause).outcome s' with ⟨r, s''⟩
    cases r with
    | error e => exact id
    | ok _ => exact id

theorem parseHunk_of_parsedHunks {data : Bytes} {hunks : List Hunk}
    (h : parsedHunks data = .ok hunks) : parseHunk data = .ok hunks := by
  rw [parsedHunks] at h
  split at h
  · next hparse => exact hparse.trans (congrArg _ (Except.ok.inj h))
  · cases h
  · cases h

/-- A pure computation that the load begins with. -/
theorem reported_liftExcept {α β : Type} {r : Except DebugError α} {f : α → Load β} (s : Guest)
    (hf : ∀ a, r = .ok a → Reported file placements s.memory ((f a).outcome s)) :
    Reported file placements s.memory ((liftExcept r >>= f).outcome s) :=
  reported_bind (P := (· = s)) (Q := fun a s' => r = .ok a ∧ s' = s)
    (triple_liftExcept (fun _ _ hr hs => ⟨hr, hs⟩) fun _ hs => hs ▸ rfl)
    (fun a _ hs => hs.2 ▸ hf a hs.1) s rfl

/-- Loading an executable is atomic, as far as the report tells. -/
theorem hunkLoad_atomic (target : Target) (file : Except DebugError Bytes) (placements : Val)
    (s : Guest) :
    Reported file placements s.memory ((hunkLoad target file placements).outcome s) := by
  refine reported_liftExcept s fun data hfile => reported_liftExcept s fun hunks hparse =>
    reported_liftExcept s fun (regions, images) hrelocate => ?_
  have hrelocated : Relocated file placements regions images :=
    ⟨data, hunks, hfile, parseHunk_of_parsedHunks hparse, hrelocate⟩
  refine reported_bind (keeps_checkRam (P := fun m _ => m = s.memory) placements images 0)
    (fun _ s₁ h₁ => ?_) s rfl
  refine reported_bind (triple_readBackups images 0) (fun backups s₂ h₂ => ?_) s₁ h₁
  rw [outcome_bind, outcome_modify]
  exact reported_loadImages hrelocated h₂.1 _ _ h₂.2

end Reports

end HunkLoad

end AmigaDevbench.Winuae
