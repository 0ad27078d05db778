import AmigaDevbench.Daemon.Files

/-!
# Writing a script through a buffer

The commands of a script are copied into a buffer piece by piece, their semicolons become newlines,
and each piece is written. Behind the last one stands a newline, whatever the size of the buffer.
-/

namespace AmigaDevbench.Daemon

/-- A semicolon separates two commands. -/
def newlineFor (c : Char) : Char := if c = ';' then '\n' else c

/-- The loop of `script_write_semicolon_delimited`, up to a number of rounds: the blocks that it
writes, and `last`; nothing as long as it goes on. -/
def writeChunks (bufsize : Nat) : Nat → Text → Char → Option (List Text × Char)
  | 0, _, _ => none
  | rounds + 1, src, last =>
    if src.length = 0 then some ([], last)
    else
      let chunk := if bufsize < src.length then bufsize else src.length
      let buf := (src.take chunk).map newlineFor
      match writeChunks bufsize rounds (src.drop chunk) (buf.getD (chunk - 1) last) with
      | some (blocks, last) => some (buf :: blocks, last)
      | none => none

/-- `script_write_semicolon_delimited`: the blocks that it writes. -/
def scriptWriteSemicolonDelimited (bufsize rounds : Nat) (src : Text) : Option (List Text) :=
  match writeChunks bufsize rounds src (Char.ofNat 0) with
  | some (blocks, last) => some (if last ≠ '\n' then blocks ++ [['\n']] else blocks)
  | none => none

/-- The last character of the text, or of what was written before. -/
def lastOf (text : Text) (last : Char) : Char := text.getLast?.getD last

theorem getD_length_sub_one (text : Text) (last : Char) :
    text.getD (text.length - 1) last = lastOf text last := by
  rw [lastOf, List.getLast?_eq_getElem?, List.getD_eq_getElem?_getD]

theorem lastOf_append (a b : Text) (last : Char) :
    lastOf (a ++ b) last = lastOf b (lastOf a last) := by
  rw [lastOf, List.getLast?_append]
  cases h : b.getLast? with
  | none =>
    rw [lastOf, h]
    rfl
  | some c =>
    rw [lastOf, h]
    rfl

/-- With a buffer the loop ends, its blocks are the text in pieces that fit into the buffer, and the
last character is known. -/
theorem writeChunks_eq {bufsize : Nat} (hbuf : 1 ≤ bufsize) (rounds : Nat) :
    ∀ {src : Text} (last : Char), src.length < rounds → ∃ blocks,
      writeChunks bufsize rounds src last =
        some (blocks, lastOf (src.map newlineFor) last) ∧
      blocks.flatten = src.map newlineFor ∧ ∀ block ∈ blocks, block.length ≤ bufsize := by
  induction rounds with
  | zero => exact fun last h => absurd h (Nat.not_lt_zero _)
  | succ rounds ih =>
    intro src last hrounds
    rw [writeChunks]
    split
    · next hempty =>
      obtain rfl := List.eq_nil_of_length_eq_zero hempty
      exact ⟨[], rfl, rfl, fun block hblock => by cases hblock⟩
    · next hmore =>
      simp only
      generalize hchunk : (if bufsize < src.length then bufsize else src.length) = chunk
      have hpos : 0 < chunk ∧ chunk ≤ bufsize ∧ chunk ≤ src.length := by
        split at hchunk <;> omega
      have hlength : ((src.take chunk).map newlineFor).length = chunk := by
        rw [List.length_map, List.length_take, Nat.min_eq_left hpos.2.2]
      have hlast : ((src.take chunk).map newlineFor).getD (chunk - 1) last =
          lastOf ((src.take chunk).map newlineFor) last := by
        have h := getD_length_sub_one ((src.take chunk).map newlineFor) last
        rwa [hlength] at h
      obtain ⟨blocks, hloop, hflatten, hblocks⟩ := @ih (src.drop chunk)
        (lastOf ((src.take chunk).map newlineFor) last) (by rw [List.length_drop]; omega)
      have hwhole : (src.take chunk).map newlineFor ++ (src.drop chunk).map newlineFor =
          src.map newlineFor := by
        rw [← List.map_append, List.take_append_drop]
      refine ⟨(src.take chunk).map newlineFor :: blocks, ?_, ?_, ?_⟩
      · rw [hlast, hloop, ← lastOf_append, hwhole]
      · rw [List.flatten_cons, hflatten, hwhole]
      · exact List.forall_mem_cons.mpr ⟨hlength.le.trans hpos.2.1, hblocks⟩

theorem semicolonDelimited_eq (src : Text) : semicolonDelimited src = src.map newlineFor ++
    (if (src.map newlineFor).getLast? = some '\n' then [] else ['\n']) := by
  by_cases h : (src.map newlineFor).getLast? = some '\n'
  · rw [if_pos h, List.append_nil]
    exact if_pos h
  · rw [if_neg h]
    exact if_neg h

/-- The loop has ended when it has gone one round more than there are characters. Its blocks are the
script with its semicolons replaced, and one newline behind it if there is none, and no block is
larger than the buffer. -/
theorem scriptWrite_independent {bufsize : Nat} (hbuf : 1 ≤ bufsize) (src : Text) {rounds : Nat}
    (hrounds : src.length < rounds) : ∃ blocks,
      scriptWriteSemicolonDelimited bufsize rounds src = some blocks ∧
      blocks.flatten = src.map newlineFor ++
        (if (src.map newlineFor).getLast? = some '\n' then [] else ['\n']) ∧
      blocks.flatten = semicolonDelimited src ∧ ∀ block ∈ blocks, block.length ≤ bufsize := by
  obtain ⟨blocks, hloop, hflatten, hblocks⟩ := writeChunks_eq hbuf rounds (Char.ofNat 0) hrounds
  have hlast : lastOf (src.map newlineFor) (Char.ofNat 0) = '\n' ↔
      (src.map newlineFor).getLast? = some '\n' := by
    rw [lastOf]
    cases (src.map newlineFor).getLast? with
    | none => exact iff_of_false (by decide) (fun h => by cases h)
    | some c => exact (Option.some_inj).symm
  rw [semicolonDelimited_eq, scriptWriteSemicolonDelimited, hloop]
  by_cases h : (src.map newlineFor).getLast? = some '\n'
  · have hwhole : blocks.flatten = src.map newlineFor ++ [] := hflatten.trans (List.append_nil _).symm
    rw [if_pos h]
    exact ⟨blocks, congrArg some (if_neg (not_not.mpr (hlast.mpr h))), hwhole, hwhole, hblocks⟩
  · have hwhole : (blocks ++ [['\n']]).flatten = src.map newlineFor ++ ['\n'] := by
      rw [List.flatten_append, hflatten]
      rfl
    rw [if_neg h]
    refine ⟨blocks ++ [['\n']], congrArg some (if_pos (mt hlast.mp h)), hwhole, hwhole, ?_⟩
    intro block hblock
    rcases List.mem_append.mp hblock with hblock | hblock
    · exact hblocks block hblock
    · exact (List.mem_singleton.mp hblock) ▸ hbuf

/-- Two commands in a buffer of four characters. -/
theorem scriptWrite_two : ∃ blocks,
    scriptWriteSemicolonDelimited 4 9 "List;Dir".toList = some blocks ∧
      blocks.flatten = "List\nDir\n".toList := by
  obtain ⟨blocks, hblocks, hflatten, -⟩ :=
    @scriptWrite_independent 4 (by decide) "List;Dir".toList 9 (by decide)
  refine ⟨blocks, hblocks, hflatten.trans ?_⟩
  decide

end AmigaDevbench.Daemon
