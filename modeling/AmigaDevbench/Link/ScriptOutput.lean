import AmigaDevbench.Link.Replies

/-!
# The output of a script

The host reads the capture file of a script piece by piece and takes a piece shorter than it
asked for as the end of the file. The daemon's pieces are always shorter, because the line that
carries them has no room for so many bytes, so the host sees one piece of every file. The
output is complete exactly when the sentinel still lies in that piece and is not completed by an
output that ends like its beginning.
-/

namespace AmigaDevbench.ScriptOutput

open Daemon Replies Script

/-- One poll against the daemon: `snap i` is the capture file when the `i`-th READFILE is
served. -/
def daemonPoll (hasDbg : Bool) (now : Text) (cmdId : Nat) (snap : Nat → Bytes) : Poll where
  events path i offset := published hasDbg now
    (protocolSendFile path offset chunkSize (if path = outPath cmdId then some (snap i) else none))
  connected := true

/-- The sentinel as it stands in a file. -/
def sentinelBytes : Bytes := scriptSentinel.map fun c => UInt8.ofNat c.toNat

/-- `script_execute` against the daemon, the launch being acknowledged. -/
def run (hasDbg : Bool) (now : Text) (cmdId : Nat) (snaps : List (Nat → Bytes)) :
    Except PyError (Status × Text) :=
  scriptExecute cmdId (published hasDbg now (handleScript cmdId)) true
    (snaps.map (daemonPoll hasDbg now cmdId))

/-- However the capture file grows between and within the polls: if some poll still finds the
finished file, the whole output is returned, and nothing is returned as complete before the
sentinel stands in the file behind the whole output. -/
def WholeOutput (cmdId : Nat) (out : Bytes) : Prop :=
  ∀ (hasDbg : Bool) (now : Text) (snaps : List (Nat → Bytes)),
    (∀ snap ∈ snaps, ∀ i, snap i <+: capture out) →
    ((∃ snap ∈ snaps, ∀ i, snap i = capture out) →
      run hasDbg now cmdId snaps = .ok (.ok, Py.rstrip out.latin1)) ∧
    ∀ text, run hasDbg now cmdId snaps = .ok (.ok, text) →
      ∃ snap ∈ snaps, ∃ i, out ++ sentinelBytes <+: snap i

/-- The sentinel behind the output lies within one reply. -/
def Fits (cmdId : Nat) (out : Bytes) : Prop :=
  out.length + sentinel.length ≤ maxBytes (outPath cmdId)

/-- The output ends with a beginning of the sentinel that, with the sentinel behind it, completes
an earlier one. -/
def EndsLikeSentinel (out : Bytes) : Prop :=
  ∃ k ∈ [9, 10, 11], sentinel.take k <:+ out.latin1

instance (out : Bytes) : Decidable (EndsLikeSentinel out) :=
  inferInstanceAs (Decidable (∃ k ∈ _, _))

section Reading

variable {cmdId : Nat}

theorem bar_notMem_outPath (cmdId : Nat) : '|' ∉ outPath cmdId := by
  intro h
  rcases List.mem_append.mp h with h | h
  · exact absurd h (by decide)
  · exact bar_notMem_decimal cmdId h

/-- The line of a FILE reply has no room for a whole chunk. -/
theorem maxBytes_lt (h : cmdId < 100000) : maxBytes (outPath cmdId) < chunkSize := by
  have hlen := length_outPath h
  simp only [maxBytes, maxLine, chunkSize]
  omega

theorem le_maxBytes (h : cmdId < 100000) : 4068 ≤ maxBytes (outPath cmdId) := by
  have hlen := length_outPath h
  simp only [maxBytes, maxLine]
  omega

/-- The text that a poll reads. -/
def seen (cmdId : Nat) (snap : Nat → Bytes) : Text :=
  Bytes.latin1 ((snap 0).take (maxBytes (outPath cmdId)))

/-- The first answer is taken for the whole file. -/
theorem readAmigaFileText_daemonPoll (h : cmdId < 100000) (hasDbg : Bool) (now : Text)
    (snap : Nat → Bytes) :
    readAmigaFileText (outPath cmdId) (daemonPoll hasDbg now cmdId snap) =
      .ok (some (seen cmdId snap)) := by
  have hcap := maxBytes_lt h
  let chunk : Bytes := (snap 0).take (maxBytes (outPath cmdId))
  have hchunk : fileChunk (outPath cmdId) 0 chunkSize (snap 0) = chunk := by
    have hmin : min (min chunkSize 4096) (maxBytes (outPath cmdId)) = maxBytes (outPath cmdId) :=
      Nat.min_eq_right (le_of_lt (by simpa [chunkSize] using hcap))
    rw [fileChunk, hmin, fsReadFile, List.drop_zero]
  have hshort : chunk.length < chunkSize := (List.length_take_le _ _).trans_lt hcap
  have hevents : (daemonPoll hasDbg now cmdId snap).events (outPath cmdId) 0 0 =
      [⟨"file", fileMsg (outPath cmdId) 0 chunk⟩] := by
    have hpub := published_file hasDbg now chunkSize (snap 0)
      (bar_notMem_outPath cmdId) (show 0 < 2 ^ 32 by decide)
    rw [hchunk] at hpub
    simpa only [daemonPoll, if_true] using hpub
  have hpath : (fileMsg (outPath cmdId) 0 chunk).hasText "path" (outPath cmdId) = true :=
    hasText_fileMsg _ _ _
  have hhex : (fileMsg (outPath cmdId) 0 chunk).getText "hexData" [] = chunk.hex := rfl
  have hawait : awaitFile (outPath cmdId) [⟨"file", fileMsg (outPath cmdId) 0 chunk⟩] =
      some (fileMsg (outPath cmdId) 0 chunk) := by
    simp [awaitFile, answersFile, hpath]
  have hloop : readLoop (outPath cmdId) ((daemonPoll hasDbg now cmdId snap).events (outPath cmdId))
      16 0 [] = .ok (some chunk) := by
    simp only [readLoop, List.length_nil, hevents, hawait, hhex, List.nil_append]
    by_cases hnil : chunk = []
    · simp only [hnil, Bytes.hex_nil, if_true]
      rfl
    · rw [if_neg (by simpa using hnil), Py.fromhex_hex]
      simp only [Except.bind, bind, hshort, if_true]
      rfl
  rw [readAmigaFileText, hloop]
  rfl

/-- The sentinel is in the text that a poll reads. -/
def found (cmdId : Nat) (snap : Nat → Bytes) : Bool :=
  (Text.beforeStr? sentinel (seen cmdId snap)).isSome

/-- The loop ends with the first poll that finds the sentinel. -/
theorem pollLoop_cases (h : cmdId < 100000) (hasDbg : Bool) (now : Text)
    (snaps : List (Nat → Bytes)) (last : Text) :
    (∃ snap ∈ snaps, found cmdId snap = true ∧
      pollLoop (outPath cmdId) (snaps.map (daemonPoll hasDbg now cmdId)) last =
        .ok (.ok, output (seen cmdId snap))) ∨
    (∀ snap ∈ snaps, found cmdId snap = false) ∧
      ∃ text, pollLoop (outPath cmdId) (snaps.map (daemonPoll hasDbg now cmdId)) last =
        .ok (.running, text) := by
  induction snaps generalizing last with
  | nil => exact Or.inr ⟨by simp, _, rfl⟩
  | cons snap snaps ih =>
    have hread := readAmigaFileText_daemonPoll h hasDbg now snap
    by_cases hfound : found cmdId snap = true
    · refine Or.inl ⟨snap, List.mem_cons_self, hfound, ?_⟩
      simp only [List.map_cons, pollLoop, hread, bind, Except.bind]
      rw [found] at hfound
      simp only [hfound, if_true]
      rfl
    · have hloop : pollLoop (outPath cmdId)
          ((snap :: snaps).map (daemonPoll hasDbg now cmdId)) last =
          pollLoop (outPath cmdId) (snaps.map (daemonPoll hasDbg now cmdId))
            (seen cmdId snap) := by
        simp only [List.map_cons, pollLoop, hread, bind, Except.bind]
        rw [found] at hfound
        simp only [hfound, if_false, Bool.false_eq_true]
      rw [hloop]
      rcases ih (seen cmdId snap) with ⟨s, hs, hsfound, hres⟩ | ⟨hnone, hres⟩
      · exact Or.inl ⟨s, List.mem_cons_of_mem snap hs, hsfound, hres⟩
      · refine Or.inr ⟨?_, hres⟩
        intro s hs
        rcases List.mem_cons.mp hs with rfl | hs
        · simpa using hfound
        · exact hnone s hs

/-- The acknowledgement hands the path of the capture file to the loop. -/
theorem run_eq (h : cmdId < 100000) (hasDbg : Bool) (now : Text) (snaps : List (Nat → Bytes)) :
    run hasDbg now cmdId snaps =
      pollLoop (outPath cmdId) (snaps.map (daemonPoll hasDbg now cmdId)) [] := by
  let msg := cmdMsg cmdId "OK".toList ("ASYNC|".toList ++ outPath cmdId)
  have hack : published hasDbg now (handleScript cmdId) = [⟨"cmd", msg⟩] :=
    published_cmd hasDbg now _ (by omega) (by decide)
  have hid : msg.getInt "id" (-1) = cmdId := rfl
  have hdata : msg.getText "data" [] = "ASYNC|".toList ++ outPath cmdId := rfl
  have hacks : acknowledges cmdId ⟨"cmd", msg⟩ = true := by
    simp [acknowledges, hid]
  have hfind : [(⟨"cmd", msg⟩ : Event)].find? (acknowledges cmdId) = some ⟨"cmd", msg⟩ := by
    rw [List.find?_cons_of_pos hacks]
  have hstrip : Py.strip (outPath cmdId) = outPath cmdId := by
    apply Text.stripBy_eq_self
    intro c hc
    rcases List.mem_append.mp hc with hc | hc
    · have hfront : ∀ c ∈ "T:ab_sout_".toList, Py.isSpace c = false := by decide
      exact hfront c hc
    · have hdigit := Nat.isDigit_of_mem_toDigits (b := 10) (by omega) (by omega) hc
      exact Py.isSpace_of_isDigit hdigit
  have hfront : "ASYNC|".toList.isPrefixOf ("ASYNC|".toList ++ outPath cmdId) = true :=
    List.isPrefixOf_iff_prefix.mpr (List.prefix_append _ _)
  have hdrop : ("ASYNC|".toList ++ outPath cmdId).drop "ASYNC|".toList.length = outPath cmdId :=
    List.drop_left
  rw [run, hack, scriptExecute, hfind]
  simp only [hdata, hfront, hdrop, hstrip, if_true]
  rfl

end Reading

section Sentinel

variable {cmdId : Nat} {out : Bytes}

theorem latin1_sentinelBytes : sentinelBytes.latin1 = sentinel := by decide

theorem latin1_capture (out : Bytes) :
    (capture out).latin1 = out.latin1 ++ sentinel ++ ['\n'] := by
  have hcapture : capture out = out ++ sentinelBytes ++ [10] := rfl
  rw [hcapture, Bytes.latin1_append, Bytes.latin1_append, latin1_sentinelBytes]
  rfl

/-- Only three beginnings of the sentinel are completed by the sentinel itself. -/
theorem endsLikeSentinel_of_early {b : Text} (hno : ¬ sentinel <:+: out.latin1)
    (h : b ++ sentinel <+: (capture out).latin1) (hlen : b.length < out.length) :
    EndsLikeSentinel out := by
  have hself : ∀ k < sentinel.length, 0 < k → sentinel.drop k <+: sentinel ++ ['\n'] →
      k ∈ [9, 10, 11] := by decide
  rw [latin1_capture] at h
  obtain ⟨k, hpos, hk, hout, hdrop⟩ :=
    Text.early_occurrence h (by rwa [Bytes.length_latin1]) hno
  exact ⟨k, hself k hk hpos hdrop, b, hout.symm⟩

/-- Such an output has an early sentinel, and no blanks at its end. -/
theorem early_of_endsLikeSentinel (h : EndsLikeSentinel out) :
    (∃ b : Text, b.length < out.length ∧ b ++ sentinel <+: (capture out).latin1) ∧
      Py.rstrip out.latin1 = out.latin1 := by
  have hself : ∀ k ∈ [9, 10, 11], sentinel <+: sentinel.take k ++ sentinel ++ ['\n'] := by decide
  have hlast : ∀ k ∈ [9, 10, 11], ∃ c ∈ ['#', 'E'], sentinel.take (k - 1) ++ [c] =
      sentinel.take k := by decide
  have hsolid : ∀ c ∈ ['#', 'E'], Py.isSpace c = false := by decide
  obtain ⟨k, hk, b, hb⟩ := h
  obtain ⟨c, hc, htake⟩ := hlast k hk
  constructor
  · refine ⟨b, ?_, ?_⟩
    · rw [← Bytes.length_latin1, ← hb, ← htake]
      simp
    · rw [latin1_capture, ← hb, List.append_assoc, List.append_assoc, List.prefix_append_right_inj,
        ← List.append_assoc]
      exact hself k hk
  · rw [← hb, ← htake, ← List.append_assoc]
    exact Text.rstripBy_append_cons (hsolid c hc) _ []

/-- Nothing but the whole output is returned, and only when the sentinel stands behind it. -/
theorem output_of_found (hno : ¬ sentinel <:+: out.latin1) (hends : ¬ EndsLikeSentinel out)
    {snap : Nat → Bytes} (hsnap : snap 0 <+: capture out) (hfound : found cmdId snap = true) :
    output (seen cmdId snap) = Py.rstrip out.latin1 ∧ out ++ sentinelBytes <+: snap 0 := by
  obtain ⟨b, hb⟩ := Option.isSome_iff_exists.mp hfound
  have hbseen := Text.beforeStr?_prefix hb
  have hseen : seen cmdId snap <+: (snap 0).latin1 := Bytes.latin1_prefix (List.take_prefix _ _)
  have hbcap : b ++ sentinel <+: (capture out).latin1 :=
    (hbseen.trans hseen).trans (Bytes.latin1_prefix hsnap)
  have houtcap : out.latin1 <+: (capture out).latin1 := by
    rw [latin1_capture, List.append_assoc]
    exact List.prefix_append _ _
  have hge : out.length ≤ b.length := by
    by_contra hlt
    exact hends (endsLikeSentinel_of_early hno hbcap (by omega))
  have hsum : (capture out).latin1.length = out.length + sentinel.length + 1 := by
    rw [latin1_capture, List.length_append, List.length_append, Bytes.length_latin1]
    rfl
  have hle : b.length + sentinel.length ≤ (capture out).latin1.length := by
    rw [← List.length_append]
    exact hbcap.length_le
  have hne : b.length ≠ out.length + 1 := by
    intro hlen
    have heq := hbcap.eq_of_length (by rw [List.length_append]; omega)
    have hlast := congrArg List.getLast? heq
    have hright : (capture out).latin1.getLast? = some '\n' := by
      rw [latin1_capture, List.getLast?_append]
      rfl
    have hleft : (b ++ sentinel).getLast? = some '#' := by
      rw [List.getLast?_append]
      rfl
    rw [hright, hleft] at hlast
    exact absurd hlast (by decide)
  have hlen : b.length = out.length := by omega
  have hbout : b = out.latin1 := by
    have hpre : b <+: out.latin1 := List.prefix_of_prefix_length_le
      ((List.prefix_append b sentinel).trans hbcap) houtcap (by rw [Bytes.length_latin1]; omega)
    exact hpre.eq_of_length (by rw [Bytes.length_latin1, hlen])
  constructor
  · rw [output, hb, hbout]
    rfl
  · have hshort : out ++ sentinelBytes <+: capture out := ⟨[10], rfl⟩
    refine List.prefix_of_prefix_length_le hshort hsnap ?_
    have hlong := (hbseen.trans hseen).length_le
    rw [List.length_append, Bytes.length_latin1] at hlong
    rw [List.length_append]
    have hbytes : sentinelBytes.length = sentinel.length := by decide
    omega

/-- A poll that finds the finished file finds the sentinel, if that lies within one reply. -/
theorem found_of_fits (hfits : Fits cmdId out) {snap : Nat → Bytes} (hsnap : snap 0 = capture out) :
    found cmdId snap = true := by
  have hbytes : sentinelBytes.length = sentinel.length := by decide
  have hcap : out ++ sentinelBytes <+: (snap 0).take (maxBytes (outPath cmdId)) := by
    rw [hsnap, List.prefix_take_iff]
    refine ⟨⟨[10], rfl⟩, ?_⟩
    rw [List.length_append, hbytes]
    exact hfits
  have hseen := Bytes.latin1_prefix hcap
  rw [Bytes.latin1_append, latin1_sentinelBytes] at hseen
  obtain ⟨b, hb, _⟩ := Text.beforeStr?_first hseen
  exact Option.isSome_iff_exists.mpr ⟨b, hb⟩

/-- One poll of the finished file that returns the output has read the sentinel behind it. -/
theorem fits_of_output {snap : Nat → Bytes} (hno : ¬ sentinel <:+: out.latin1)
    (hsnap : snap 0 = capture out) (hfound : found cmdId snap = true)
    (hout : output (seen cmdId snap) = Py.rstrip out.latin1) :
    Fits cmdId out ∧ ¬ EndsLikeSentinel out := by
  obtain ⟨b, hb⟩ := Option.isSome_iff_exists.mp hfound
  have hbseen := Text.beforeStr?_prefix hb
  have hseen : seen cmdId snap <+: (capture out).latin1 := by
    rw [← hsnap]
    exact Bytes.latin1_prefix (List.take_prefix _ _)
  have hstrip : Py.rstrip b = Py.rstrip out.latin1 := by
    rw [← hout, output, hb]
    rfl
  -- An output that ends like the sentinel keeps its end, which the shorter text has not.
  have hshort : EndsLikeSentinel out → ¬ b.length < out.length := by
    intro hends hlt
    have hkeep := (early_of_endsLikeSentinel hends).2
    have hle : (Py.rstrip b).length ≤ b.length := Text.length_rstripBy_le _ b
    rw [hstrip, hkeep, Bytes.length_latin1] at hle
    omega
  have hge : out.length ≤ b.length := by
    by_contra hlt
    have hends := endsLikeSentinel_of_early hno (hbseen.trans hseen) (by omega)
    exact hshort hends (by omega)
  have hlen := hbseen.length_le
  rw [List.length_append] at hlen
  constructor
  · have hcap : (seen cmdId snap).length ≤ maxBytes (outPath cmdId) := by
      rw [seen, Bytes.length_latin1]
      exact List.length_take_le _ _
    unfold Fits
    omega
  · intro hends
    obtain ⟨b', hlt, hb'⟩ := (early_of_endsLikeSentinel hends).1
    have hvisible : b' ++ sentinel <+: seen cmdId snap :=
      List.prefix_of_prefix_length_le hb' hseen (by rw [List.length_append]; omega)
    obtain ⟨b'', hb'', hle⟩ := Text.beforeStr?_first hvisible
    rw [hb] at hb''
    cases hb''
    omega

end Sentinel

section Whole

variable {cmdId : Nat} {out : Bytes}

/-- A finished file is read as a whole only under the two conditions. -/
theorem fits_of_wholeOutput (h : cmdId < 100000) (hno : ¬ sentinel <:+: out.latin1)
    (hwhole : WholeOutput cmdId out) : Fits cmdId out ∧ ¬ EndsLikeSentinel out := by
  let snap : Nat → Bytes := fun _ => capture out
  have hrun := (hwhole false [] [snap] (by simp [snap])).1 ⟨snap, by simp, fun _ => rfl⟩
  rw [run_eq h] at hrun
  rcases pollLoop_cases h false [] [snap] [] with ⟨s, hs, hfound, hres⟩ | ⟨_, text, hres⟩
  · rw [List.mem_singleton.mp hs] at hfound hres
    rw [hres] at hrun
    exact fits_of_output hno rfl hfound (Prod.mk.inj (Except.ok.inj hrun)).2
  · rw [hres] at hrun
    exact absurd (Prod.mk.inj (Except.ok.inj hrun)).1 (by decide)

/-- Under the two conditions every run returns the whole output, and only when it is complete. -/
theorem wholeOutput_of_fits (h : cmdId < 100000) (hno : ¬ sentinel <:+: out.latin1)
    (hfits : Fits cmdId out) (hends : ¬ EndsLikeSentinel out) : WholeOutput cmdId out := by
  intro hasDbg now snaps hsnaps
  rw [run_eq h]
  rcases pollLoop_cases h hasDbg now snaps [] with ⟨s, hs, hfound, hres⟩ | ⟨hnone, text, hres⟩
  · obtain ⟨hout, hbehind⟩ := output_of_found hno hends (hsnaps s hs 0) hfound
    rw [hres, hout]
    exact ⟨fun _ => rfl, fun _ _ => ⟨s, hs, 0, hbehind⟩⟩
  · rw [hres]
    constructor
    · rintro ⟨s, hs, hdone⟩
      exact absurd (found_of_fits hfits (hdone 0)) (by simp [hnone s hs])
    · intro t ht
      exact absurd (Prod.mk.inj (Except.ok.inj ht)).1 (by decide)

/-- An output of a whole chunk leaves no room. -/
theorem not_fits (h : cmdId < 100000) (hlong : chunkSize ≤ out.length) : ¬ Fits cmdId out := by
  have hcap := maxBytes_lt h
  intro hfits
  unfold Fits at hfits
  omega

/-- The host gets the whole output of a script exactly when the output and the sentinel lie
within one reply of the daemon and the output does not end with a beginning of the sentinel that
the sentinel itself completes. -/
theorem script_output (cmdId : Nat) (h : cmdId < 100000) (out : Bytes)
    (hno : ¬ sentinel <:+: out.latin1) :
    WholeOutput cmdId out ↔ Fits cmdId out ∧ ¬ EndsLikeSentinel out :=
  ⟨fits_of_wholeOutput h hno, fun ⟨hfits, hends⟩ => wholeOutput_of_fits h hno hfits hends⟩

/-- The two lines of an `Echo` are returned. -/
theorem script_output_echo : WholeOutput 4711 [0x68, 0x69, 0x0a] :=
  (script_output 4711 (by decide) [0x68, 0x69, 0x0a] (by decide)).mpr
    ⟨le_trans (by decide) (le_maxBytes (by decide)), by decide⟩

/-- An output of 4096 bytes is never returned, although it is far below the limit, and neither is
a short one that ends with nine characters of the sentinel. -/
theorem script_output_cut :
    (4096 + 13 ≤ 65536 ∧ ¬ sentinel <:+: Bytes.latin1 (List.replicate 4096 0x61) ∧
      ¬ WholeOutput 4711 (List.replicate 4096 0x61)) ∧
    (¬ sentinel <:+: Bytes.latin1 (sentinelBytes.take 9) ∧
      ¬ WholeOutput 4711 (sentinelBytes.take 9)) := by
  have hlong : ¬ sentinel <:+: Bytes.latin1 (List.replicate 4096 0x61) := by
    intro h
    have hmem : '#' ∈ Bytes.latin1 (List.replicate 4096 0x61) := h.subset (by decide)
    rw [Bytes.latin1, List.map_replicate] at hmem
    exact absurd (List.eq_of_mem_replicate hmem) (by decide)
  have hnine : ¬ sentinel <:+: Bytes.latin1 (sentinelBytes.take 9) := by decide +kernel
  refine ⟨⟨by decide, hlong, ?_⟩, hnine, ?_⟩
  · intro hwhole
    have hlen : chunkSize ≤ (List.replicate 4096 (0x61 : UInt8)).length := by
      rw [List.length_replicate, chunkSize]
    exact not_fits (by decide) hlen (fits_of_wholeOutput (by decide) hlong hwhole).1
  · intro hwhole
    exact (fits_of_wholeOutput (by decide) hnine hwhole).2 (by decide +kernel)

end Whole

end AmigaDevbench.ScriptOutput
