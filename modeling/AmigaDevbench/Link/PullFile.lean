import AmigaDevbench.Host.FileTransfer
import AmigaDevbench.Link.Replies

/-!
# Pulling a file

A FILE reply is taken for the answer to the current request if it names the path and has the
requested length, whatever its offset. So a pull assembles pieces of the file that may come from
anywhere, and only the CRC-32 of the whole tells a wrong assembly from the file.
-/

namespace AmigaDevbench.PullFile

open Daemon FileTransfer Replies

/-- A READFILE of the path that is pulled, by this pull or by an earlier reader. -/
structure Request where
  offset : Nat
  size : Nat
  offset_lt : offset < 2 ^ 32

variable (path : Text) (file : Bytes) (chunkSize : Nat) (requests : Set Request)

/-- The bytes of the daemon's answer. -/
def piece (r : Request) : Bytes := fileChunk path r.offset r.size file

/-- What can be published about the path while the file is unchanged: the checksum of the file,
and the answers to the requests, in any order and number. -/
structure Arrives (e : Event) : Prop where
  fileReply : e.name = "file" → e.data.hasText "path" path = true → ∃ r ∈ requests, ∃ hasDbg now,
    [e] = published hasDbg now (protocolSendFile path r.offset r.size (some file))
  checksumReply : e.name = "checksum" → e.data.hasText "path" path = true → ∃ hasDbg now,
    [e] = published hasDbg now (handleChecksum path (some file))

/-- A pull that returns data returns the file. -/
def PullsFile : Prop :=
  ∀ (checksum err : List Event) (arrivals : Nat → List Event),
    (∀ e ∈ checksum, Arrives path file requests e) →
    (∀ i, ∀ e ∈ arrivals i, Arrives path file requests e) →
    ∀ data crcMatch, pullFile path chunkSize arrivals checksum err = some (.done data crcMatch) →
      data = file

/-- What can be assembled: every piece has the length that is requested for its place. -/
inductive Assembled : Bytes → Prop where
  | start : Assembled []
  | next {data : Bytes} {r : Request} (hdata : Assembled data)
      (hmore : data.length < file.length) (hr : r ∈ requests)
      (hlen : (piece path file r).length = min chunkSize (file.length - data.length)) :
      Assembled (data ++ piece path file r)

/-- Every assembly of the whole length with the CRC-32 of the file is the file. -/
def Distinguished : Prop :=
  ∀ data, Assembled path file chunkSize requests data → data.length = file.length →
    Crc32.crc32 data = Crc32.crc32 file → data = file

section Sound

variable {path file chunkSize requests}

theorem Assembled.length_le {data : Bytes} (h : Assembled path file chunkSize requests data) :
    data.length ≤ file.length := by
  induction h with
  | start => exact Nat.zero_le _
  | next hdata hmore hr hlen ih =>
    rw [List.length_append, hlen]
    omega

/-- A FILE reply that is taken carries the bytes of a request. -/
theorem hexData_of_arrives (hpath : '|' ∉ path) {d : Dict}
    (h : Arrives path file requests ⟨"file", d⟩) (hd : d.hasText "path" path = true) :
    ∃ r ∈ requests, Py.fromhex (d.getText "hexData" []) = .ok (piece path file r) := by
  obtain ⟨r, hr, hasDbg, now, he⟩ := h.fileReply rfl hd
  rw [published_file hasDbg now r.size file hpath r.offset_lt] at he
  have hdata : d = fileMsg path r.offset (piece path file r) :=
    congrArg Event.data (List.cons.inj he).1
  refine ⟨r, hr, ?_⟩
  rw [hdata]
  exact Py.fromhex_hex _

variable {arrivals : Nat → List Event}

/-- A piece that is accepted is the answer to some request, with the requested length. -/
theorem readChunk_spec (hpath : '|' ∉ path)
    (harr : ∀ i, ∀ e ∈ arrivals i, Arrives path file requests e) {reqSize : Nat} :
    ∀ {tries i next : Nat} {chunk : Bytes},
      readChunk path arrivals reqSize tries i = (some chunk, next) →
      ∃ r ∈ requests, chunk = piece path file r ∧ chunk.length = reqSize
  | 0, i, next, chunk, h => by cases h
  | tries + 1, i, next, chunk, h => by
    rw [readChunk] at h
    cases hwait : waitFor "file" (·.hasText "path" path) (arrivals i) with
    | none =>
      rw [hwait] at h
      exact readChunk_spec hpath harr h
    | some msg =>
      obtain ⟨hmem, hmsg⟩ := mem_of_waitFor hwait
      obtain ⟨r, hr, hhex⟩ := hexData_of_arrives hpath (harr i _ hmem) hmsg
      simp only [hwait, hhex] at h
      by_cases hlen : (piece path file r).length = reqSize
      · rw [if_neg (not_not_intro hlen)] at h
        have hchunk : piece path file r = chunk := Option.some.inj (Prod.mk.inj h).1
        exact ⟨r, hr, hchunk.symm, hchunk ▸ hlen⟩
      · rw [if_pos hlen] at h
        exact readChunk_spec hpath harr h

/-- What the loop over the pieces returns is an assembly of the whole length. -/
theorem readChunks_spec (hpath : '|' ∉ path)
    (harr : ∀ i, ∀ e ∈ arrivals i, Arrives path file requests e) :
    ∀ {rounds i chunkNum next : Nat} {collected data : Bytes},
      Assembled path file chunkSize requests collected →
      readChunks path chunkSize file.length arrivals rounds i chunkNum collected =
        some (.ok data, next) →
      Assembled path file chunkSize requests data ∧ data.length = file.length := by
  intro rounds
  induction rounds with
  | zero =>
    intro i chunkNum next collected data hcollected h
    rw [readChunks] at h
    split at h
    · next hdone =>
      cases h
      exact ⟨hcollected, Nat.le_antisymm hcollected.length_le hdone⟩
    · cases h
  | succ rounds ih =>
    intro i chunkNum next collected data hcollected h
    rw [readChunks] at h
    split at h
    · next hdone =>
      cases h
      exact ⟨hcollected, Nat.le_antisymm hcollected.length_le hdone⟩
    · next hmore =>
      cases hread : readChunk path arrivals (min chunkSize (file.length - collected.length))
          maxRetries i with
      | mk chunk next' =>
        rw [hread] at h
        cases chunk with
        | none => cases h
        | some chunk =>
          obtain ⟨r, hr, rfl, hlen⟩ := readChunk_spec hpath harr hread
          exact ih (.next hcollected (by omega) hr hlen) h

/-- The CRC of a CHECKSUM reply matches only that of the file. -/
theorem crcMatch_hex8 (data : Bytes) :
    crcMatch (hex8 (Crc32.crc32 file).toNat) (Crc32.crc32 data) =
      some (decide (Crc32.crc32 file = Crc32.crc32 data)) := by
  have hne : hex8 (Crc32.crc32 file).toNat ≠ [] := by
    simp [hex8, Nat.toDigits_ne_nil]
  rw [crcMatch, if_neg hne, int_hex8]
  simp only [Int.natCast_inj, BitVec.toNat_inj]

/-- An attempt whose CRC matches has assembled the whole length. -/
theorem assembled_of_match (hpath : '|' ∉ path)
    (harr : ∀ i, ∀ e ∈ arrivals i, Arrives path file requests e) {i next : Nat} {data : Bytes}
    (hread : readChunks path chunkSize file.length arrivals file.length i 0 [] =
      some (.ok data, next))
    (hmatch : some (decide (Crc32.crc32 file = Crc32.crc32 data)) ≠ some false) :
    Assembled path file chunkSize requests data ∧ data.length = file.length ∧
      Crc32.crc32 data = Crc32.crc32 file := by
  obtain ⟨hassembled, hlen⟩ := readChunks_spec hpath harr .start hread
  have hcrc : Crc32.crc32 file = Crc32.crc32 data := by simpa using hmatch
  exact ⟨hassembled, hlen, hcrc.symm⟩

/-- Data that is returned is an assembly with the CRC of the file. -/
theorem readAttempts_spec (hpath : '|' ∉ path)
    (harr : ∀ i, ∀ e ∈ arrivals i, Arrives path file requests e) {attempts : Nat} :
    ∀ {i : Nat} {data : Bytes} {m : Option Bool},
      readAttempts path chunkSize file.length arrivals (hex8 (Crc32.crc32 file).toNat) attempts i =
        some (.done data m) →
      Assembled path file chunkSize requests data ∧ data.length = file.length ∧
        Crc32.crc32 data = Crc32.crc32 file := by
  induction attempts with
  | zero =>
    intro i data m h
    rw [readAttempts] at h
    split at h
    · cases h
    · cases h
    · next collected next hread =>
      simp only [crcMatch_hex8] at h
      split at h
      · next hmatch =>
        cases h
        exact assembled_of_match hpath harr hread hmatch
      · cases h
  | succ attempts ih =>
    intro i data m h
    rw [readAttempts] at h
    split at h
    · cases h
    · cases h
    · next collected next hread =>
      simp only [crcMatch_hex8] at h
      split at h
      · next hmatch =>
        cases h
        exact assembled_of_match hpath harr hread hmatch
      · exact ih h

/-- If the CRC-32 tells every other assembly from the file, only the file is returned. -/
theorem pullsFile_of_distinguished (hsize : file.length < 2 ^ 32) (hpath : '|' ∉ path)
    (hdist : Distinguished path file chunkSize requests) :
    PullsFile path file chunkSize requests := by
  intro checksum err arrivals hchecksum harr data m h
  rw [pullFile] at h
  split at h
  · cases h
  · next msg hwait =>
    obtain ⟨hmem, hmsg⟩ := mem_of_waitFor hwait
    obtain ⟨hasDbg, now, he⟩ := (hchecksum _ hmem).checksumReply rfl hmsg
    rw [published_checksum hasDbg now hpath hsize] at he
    have hdata : msg = checksumMsg path file := congrArg Event.data (List.cons.inj he).1
    have hlength : msg.getInt "size" 0 = file.length := by rw [hdata]; rfl
    have hcrc : msg.getText "crc32" [] = hex8 (Crc32.crc32 file).toNat := by rw [hdata]; rfl
    simp only [hlength, hcrc, Int.toNat_natCast] at h
    split at h
    · cases h
    · obtain ⟨hassembled, hlen, hsame⟩ := readAttempts_spec hpath harr h
      exact hdist data hassembled hlen hsame

/-- A path with a separator is never recognised, so nothing is returned. -/
theorem pullsFile_of_bar (hpath : '|' ∈ path) : PullsFile path file chunkSize requests := by
  intro checksum err arrivals hchecksum harr data m h
  rw [pullFile] at h
  split at h
  · cases h
  · next msg hwait =>
    obtain ⟨hmem, hmsg⟩ := mem_of_waitFor hwait
    obtain ⟨hasDbg, now, he⟩ := (hchecksum _ hmem).checksumReply rfl hmsg
    have hfalse := published_checksum_of_bar hasDbg now file hpath he
    rw [hmsg] at hfalse
    cases hfalse

end Sound

section Complete

variable {path file chunkSize requests}

/-- The answer to a request can arrive. -/
theorem arrives_piece (hpath : '|' ∉ path) {r : Request} (hr : r ∈ requests) :
    Arrives path file requests ⟨"file", fileMsg path r.offset (piece path file r)⟩ where
  fileReply _ _ :=
    ⟨r, hr, false, [], (published_file false [] r.size file hpath r.offset_lt).symm⟩
  checksumReply h _ := absurd h (show "file" ≠ "checksum" by decide)

theorem arrives_checksum (hsize : file.length < 2 ^ 32) (hpath : '|' ∉ path) :
    Arrives path file requests ⟨"checksum", checksumMsg path file⟩ where
  fileReply h _ := absurd h (show "checksum" ≠ "file" by decide)
  checksumReply _ _ := ⟨false, [], (published_checksum false [] hpath hsize).symm⟩

/-- The loop ends when the whole length is collected. -/
theorem readChunks_of_length_le {size : Nat} {arrivals : Nat → List Event}
    {rounds i chunkNum : Nat} {collected : Bytes} (h : size ≤ collected.length) :
    readChunks path chunkSize size arrivals rounds i chunkNum collected =
      some (.ok collected, i) := by
  cases rounds <;> rw [readChunks, if_pos h]

/-- A reply of the requested length is accepted at the first try. -/
theorem readChunk_of_event {arrivals : Nat → List Event} {r : Request} {i reqSize : Nat} (tries : Nat)
    (harr : arrivals i = [⟨"file", fileMsg path r.offset (piece path file r)⟩])
    (hlen : (piece path file r).length = reqSize) :
    readChunk path arrivals reqSize (tries + 1) i = (some (piece path file r), i + 1) := by
  have hwait : waitFor "file" (·.hasText "path" path) (arrivals i) =
      some (fileMsg path r.offset (piece path file r)) := by
    rw [harr]
    exact waitFor_singleton (hasText_fileMsg _ _ _)
  have hhex : Py.fromhex ((fileMsg path r.offset (piece path file r)).getText "hexData" []) =
      .ok (piece path file r) := Py.fromhex_hex _
  simp only [readChunk, hwait, hhex, hlen, ne_eq, not_true_eq_false, if_false]

/-- Every assembly can be brought about by the answers arriving in its order. -/
theorem Assembled.replay (hpath : '|' ∉ path) {data : Bytes}
    (h : Assembled path file chunkSize requests data) :
    ∃ es : List Event, (∀ e ∈ es, Arrives path file requests e) ∧
      (0 < chunkSize → es.length ≤ data.length) ∧
      ∀ arrivals : Nat → List Event, (∀ j e, es[j]? = some e → arrivals j = [e]) → ∀ rounds,
        readChunks path chunkSize file.length arrivals (es.length + rounds) 0 0 [] =
          readChunks path chunkSize file.length arrivals rounds es.length es.length data := by
  induction h with
  | start => exact ⟨[], by simp, by simp, fun arrivals _ rounds => by simp⟩
  | @next data r hdata hmore hr hlen ih =>
    obtain ⟨es, hes, hbound, hreplay⟩ := ih
    let e : Event := ⟨"file", fileMsg path r.offset (piece path file r)⟩
    refine ⟨es ++ [e], ?_, ?_, ?_⟩
    · intro e' he'
      rcases List.mem_append.mp he' with he' | he'
      · exact hes e' he'
      · rw [List.mem_singleton.mp he']
        exact arrives_piece hpath hr
    · intro hpos
      have hle := hbound hpos
      rw [List.length_append, List.length_append, hlen, List.length_singleton]
      omega
    · intro arrivals harr rounds
      have hfront : ∀ j e', es[j]? = some e' → arrivals j = [e'] := by
        intro j e' he'
        apply harr
        rw [List.getElem?_append_left (List.getElem?_eq_some_iff.mp he').1, he']
      have hlast : arrivals es.length = [e] := harr _ _ (by simp)
      have hread := readChunk_of_event 5 hlast hlen
      have hcount : (es ++ [e]).length + rounds = es.length + (rounds + 1) := by
        rw [List.length_append, List.length_singleton]
        omega
      rw [hcount, hreplay arrivals hfront (rounds + 1), readChunks, if_neg (by omega)]
      simp only [maxRetries, hread, List.length_append, List.length_singleton]

/-- Pieces of size zero assemble nothing. -/
theorem Assembled.eq_nil {data : Bytes} (h : Assembled path file 0 requests data) : data = [] := by
  induction h with
  | start => rfl
  | next hdata hmore hr hlen ih =>
    rw [Nat.zero_min, List.length_eq_zero_iff] at hlen
    rw [ih, hlen, List.nil_append]

/-- An assembly with the CRC of the file can be returned. -/
theorem distinguished_of_pullsFile (hsize : file.length < 2 ^ 32) (hpath : '|' ∉ path)
    (hpulls : PullsFile path file chunkSize requests) :
    Distinguished path file chunkSize requests := by
  intro data hassembled hlen hcrc
  rcases Nat.eq_zero_or_pos file.length with hempty | hpos
  · rw [List.length_eq_zero_iff.mp hempty, List.length_eq_zero_iff.mp (hlen.trans hempty)]
  have hchunk : 0 < chunkSize := by
    rcases Nat.eq_zero_or_pos chunkSize with rfl | h
    · rw [hassembled.eq_nil] at hlen
      simp only [List.length_nil] at hlen
      omega
    · exact h
  obtain ⟨es, hes, hbound, hreplay⟩ := hassembled.replay hpath
  let arrivals : Nat → List Event := fun j => (es[j]?).toList
  have harr : ∀ j, ∀ e ∈ arrivals j, Arrives path file requests e := by
    intro j e he
    exact hes e (List.mem_of_getElem? (Option.mem_toList.mp he))
  have hread : readChunks path chunkSize file.length arrivals file.length 0 0 [] =
      some (.ok data, es.length) := by
    have hrounds : file.length = es.length + (file.length - es.length) := by
      have hle := hbound hchunk
      omega
    have hstep := hreplay arrivals (fun j e he => by simp [arrivals, he])
      (file.length - es.length)
    rw [← hrounds] at hstep
    rw [hstep, readChunks_of_length_le (by omega)]
  have hwait : waitFor "checksum" (·.hasText "path" path)
      [⟨"checksum", checksumMsg path file⟩] = some (checksumMsg path file) :=
    waitFor_singleton (hasText_checksumMsg path file)
  have hlength : (checksumMsg path file).getInt "size" 0 = file.length := rfl
  have hremote : (checksumMsg path file).getText "crc32" [] = hex8 (Crc32.crc32 file).toNat := rfl
  have hpull : pullFile path chunkSize arrivals [⟨"checksum", checksumMsg path file⟩] [] =
      some (.done data (some true)) := by
    have hattempt : readAttempts path chunkSize file.length arrivals
        (hex8 (Crc32.crc32 file).toNat) 2 0 = some (.done data (some true)) := by
      rw [readAttempts, hread]
      simp [crcMatch_hex8, hcrc]
    simp only [pullFile, hwait, hlength, hremote, Int.toNat_natCast, hattempt]
    rw [if_neg (by omega)]
  refine hpulls _ _ arrivals ?_ harr data _ hpull
  intro e he
  rw [List.mem_singleton.mp he]
  exact arrives_checksum hsize hpath

end Complete

/-- Whatever replies arrive and in whatever order, a pull returns nothing but the file, if and
only if the CRC-32 tells the file from every other assembly of the readable pieces. -/
theorem pull_file (path : Text) (file : Bytes) (hsize : file.length < 2 ^ 32) (chunkSize : Nat)
    (requests : Set Request) :
    PullsFile path file chunkSize requests ↔
      '|' ∈ path ∨ Distinguished path file chunkSize requests := by
  constructor
  · intro hpulls
    by_cases hpath : '|' ∈ path
    · exact Or.inl hpath
    · exact Or.inr (distinguished_of_pullsFile hsize hpath hpulls)
  · rintro (hpath | hdist)
    · exact pullsFile_of_bar hpath
    · by_cases hpath : '|' ∈ path
      · exact pullsFile_of_bar hpath
      · exact pullsFile_of_distinguished hsize hpath hdist

/-- A greeting is pulled in one piece, with answers to any requests for its beginning around. -/
theorem pull_file_greeting :
    PullsFile "RAM:hi".toList [0x68, 0x69, 0x21] 1024 {r | r.offset = 0} := by
  refine (pull_file _ _ (by decide) _ _).mpr (Or.inr ?_)
  intro data hassembled hlen _
  cases hassembled with
  | start => cases hlen
  | @next data r hdata hmore hr hpiece =>
    cases hdata with
    | start =>
      have hfront : piece "RAM:hi".toList [0x68, 0x69, 0x21] r <+: [0x68, 0x69, 0x21] := by
        rw [piece, hr, fileChunk, fsReadFile, List.drop_zero]
        exact List.take_prefix _ _
      exact hfront.eq_of_length hlen
    | @next data r' _ hmore' _ hpiece' =>
      rw [List.length_append, hpiece'] at hmore
      simp only [List.length_cons, List.length_nil] at hmore hmore'
      omega

/-- Ten bytes whose halves differ by a multiple of the generator. -/
def halves : Bytes := [0x68, 0x65, 0x6c, 0x6c, 0x6f, 0x29, 0x63, 0x1d, 0xb7, 0x6e]

/-- The requests of a pull of ten bytes in two pieces. -/
def halfRequests : Set Request := {r | r.size = 5 ∧ (r.offset = 0 ∨ r.offset = 5)}

/-- A late answer to the first request of an earlier pull can be taken for the second half, and
the CRC-32 does not tell. -/
theorem pull_file_repeated : ¬ PullsFile "RAM:f".toList halves 5 halfRequests := by
  intro hpulls
  have hdist := distinguished_of_pullsFile (by decide) (by decide) hpulls
  let first : Request := ⟨0, 5, by decide⟩
  have hfirst : first ∈ halfRequests := ⟨rfl, Or.inl rfl⟩
  have hpiece : piece "RAM:f".toList halves first = halves.take 5 := by decide
  have hone : Assembled "RAM:f".toList halves 5 halfRequests ([] ++ piece _ _ first) :=
    .next .start (by decide) hfirst (by rw [hpiece]; decide)
  have htwo := Assembled.next hone (by rw [hpiece]; decide) hfirst (by rw [hpiece]; decide)
  rw [hpiece] at htwo
  exact absurd (hdist _ htwo (by decide) (by decide +kernel)) (by decide)

end AmigaDevbench.PullFile
