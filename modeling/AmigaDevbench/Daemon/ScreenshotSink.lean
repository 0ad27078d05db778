import AmigaDevbench.Daemon.Commands

/-!
# The sink of a screenshot

The lines of a screenshot are kept until the screen is unlocked: in memory, or in a file, or not at
all. A line for which the memory has no room is sent at once, in front of those that are kept.
-/

namespace AmigaDevbench.Daemon

open CText

/-- An already formatted line, without its newline. -/
structure SinkLine where
  chars : Text
  nul_notMem : nul ∉ chars
  newline_notMem : '\n' ∉ chars

inductive SinkMode where
  | ram
  | file
  | direct

/-- `struct ScrSink`, with what the buffer and the file hold and the lines that were sent. -/
structure ScrSink where
  mode : SinkMode
  cap : Nat
  ram : Text
  file : Text
  sent : List Text

/-- The memory and the disk of a machine: what is free, and whether `AllocMem` and `Open` succeed. -/
structure Machine where
  availMem : Nat
  allocates : Bool
  opens : Bool

/-- The size of the buffer. -/
def sinkCap (estBytes : Nat) : Nat := if estBytes < 4096 then 4096 else estBytes

/-- `scrsink_init`. -/
def scrsinkInit (machine : Machine) (estBytes : Nat) : ScrSink :=
  if (sinkCap estBytes + 256 * 1024) % 2 ^ 32 < machine.availMem ∧ machine.allocates then
    ⟨.ram, sinkCap estBytes, [], [], []⟩
  else if machine.opens then ⟨.file, 0, [], [], []⟩
  else ⟨.direct, 0, [], [], []⟩

/-- `scrsink_line`. -/
def scrsinkLine (s : ScrSink) (line : Text) : ScrSink :=
  match s.mode with
  | .ram =>
    if s.ram.length + line.length + 1 ≤ s.cap then { s with ram := s.ram ++ line ++ ['\n'] }
    else { s with sent := s.sent ++ [line] }
  | .file => { s with file := s.file ++ line ++ ['\n'] }
  | .direct => { s with sent := s.sent ++ [line] }

/-- The loop over the buffer, with the characters since `start`. -/
def ramLines : Text → Text → List Text
  | _, [] => []
  | line, c :: ram => if c = '\n' then line :: ramLines [] ram else ramLines (line ++ [c]) ram

/-- `FGets` with a buffer for `room` characters: a line with its newline, or as much of it as fits,
and what stands behind it. -/
def fgets : Nat → Text → Text × Text
  | 0, s => ([], s)
  | _ + 1, [] => ([], [])
  | room + 1, c :: s => if c = '\n' then ([c], s) else ((c :: (fgets room s).1), (fgets room s).2)

theorem fgets_append (room : Nat) (s : Text) : (fgets room s).1 ++ (fgets room s).2 = s := by
  induction s generalizing room with
  | nil => cases room <;> rfl
  | cons c s ih =>
    cases room with
    | zero => rfl
    | succ room =>
      rw [fgets]
      split
      · rfl
      · exact congrArg (c :: ·) (ih room)

/-- The ends of a line that was read from the file. -/
def lineEnd (c : Char) : Bool := c == '\n' || c == '\r'

/-- The loop over the file. -/
def fileLines : Text → List Text
  | [] => []
  | c :: s =>
    (fgets (maxLine - 1) (c :: s)).1.rstripBy lineEnd ::
      fileLines (fgets (maxLine - 1) (c :: s)).2
termination_by s => s.length
decreasing_by
  have hlength := congrArg List.length (fgets_append (maxLine - 1) (c :: s))
  have hpos : 0 < (fgets (maxLine - 1) (c :: s)).1.length := by
    have hroom : maxLine - 1 = 8190 + 1 := rfl
    rw [hroom, fgets]
    split <;> exact Nat.succ_pos _
  rw [List.length_append] at hlength
  omega

/-- `scrsink_drain`: all lines that were sent in the end. -/
def scrsinkDrain (s : ScrSink) : List Text :=
  match s.mode with
  | .ram => s.sent ++ ramLines [] s.ram
  | .file => s.sent ++ fileLines s.file
  | .direct => s.sent

/-- The lines that a machine sends. -/
def delivered (machine : Machine) (estBytes : Nat) (lines : List Text) : List Text :=
  scrsinkDrain (lines.foldl scrsinkLine (scrsinkInit machine estBytes))

/-! ### In memory -/

/-- The lines for which there is room. -/
def buffered (cap : Nat) : Nat → List Text → List Text
  | _, [] => []
  | used, line :: lines =>
    if used + line.length + 1 ≤ cap then line :: buffered cap (used + line.length + 1) lines
    else buffered cap used lines

/-- The lines for which there is none. -/
def overflowing (cap : Nat) : Nat → List Text → List Text
  | _, [] => []
  | used, line :: lines =>
    if used + line.length + 1 ≤ cap then overflowing cap (used + line.length + 1) lines
    else line :: overflowing cap used lines

/-- Lines with their newlines. -/
def withNewlines (lines : List Text) : Text := lines.flatMap (· ++ ['\n'])

theorem foldl_ram (lines : List Text) : ∀ s : ScrSink, s.mode = .ram →
    lines.foldl scrsinkLine s =
      { s with
        ram := s.ram ++ withNewlines (buffered s.cap s.ram.length lines)
        sent := s.sent ++ overflowing s.cap s.ram.length lines } := by
  induction lines with
  | nil =>
    intro s _
    simp [withNewlines, buffered, overflowing]
  | cons line lines ih =>
    intro s hmode
    by_cases hroom : s.ram.length + line.length + 1 ≤ s.cap
    · have hstep : scrsinkLine s line = { s with ram := s.ram ++ line ++ ['\n'] } := by
        rw [scrsinkLine, hmode]
        exact if_pos hroom
      have hlength : (s.ram ++ (line ++ ['\n'])).length = s.ram.length + line.length + 1 := by
        rw [List.length_append, List.length_append, List.length_singleton, Nat.add_assoc]
      rw [List.append_assoc] at hstep
      rw [List.foldl_cons, hstep, ih { s with ram := s.ram ++ (line ++ ['\n']) } hmode]
      simp only [hlength, buffered, overflowing, if_pos hroom, withNewlines, List.flatMap_cons,
        List.append_assoc]
    · have hstep : scrsinkLine s line = { s with sent := s.sent ++ [line] } := by
        rw [scrsinkLine, hmode]
        exact if_neg hroom
      rw [List.foldl_cons, hstep, ih { s with sent := s.sent ++ [line] } hmode]
      simp only [buffered, overflowing, if_neg hroom, List.append_assoc, List.singleton_append]

theorem ramLines_append {line : Text} (h : '\n' ∉ line) (start ram : Text) :
    ramLines start (line ++ '\n' :: ram) = (start ++ line) :: ramLines [] ram := by
  induction line generalizing start with
  | nil => rw [List.nil_append, ramLines, if_pos rfl, List.append_nil]
  | cons c line ih =>
    obtain ⟨hc, hline⟩ := not_or.mp (mt List.mem_cons.mpr h)
    rw [List.cons_append, ramLines, if_neg (Ne.symm hc), ih hline, List.append_assoc,
      List.singleton_append]

/-- Lines without newlines in them come out of the buffer as they were put in. -/
theorem ramLines_withNewlines {lines : List Text} (h : ∀ line ∈ lines, '\n' ∉ line) :
    ramLines [] (withNewlines lines) = lines := by
  induction lines with
  | nil => rfl
  | cons line lines ih =>
    have hrest : withNewlines (line :: lines) = line ++ '\n' :: withNewlines lines := by
      rw [withNewlines, List.flatMap_cons, List.append_assoc]
      rfl
    rw [hrest, ramLines_append (h line List.mem_cons_self), List.nil_append,
      ih fun l hl => h l (List.mem_cons_of_mem line hl)]

theorem buffered_sublist (cap used : Nat) (lines : List Text) :
    (buffered cap used lines).Sublist lines := by
  induction lines generalizing used with
  | nil => exact List.Sublist.refl []
  | cons line lines ih =>
    rw [buffered]
    split
    · exact (ih _).cons_cons line
    · exact (ih _).cons line

/-! ### In a file -/

/-- A line with room for its newline is read as a whole, of any other one a part. -/
theorem fgets_line {line : Text} (h : '\n' ∉ line) (room : Nat) (rest : Text) :
    fgets room (line ++ '\n' :: rest) =
      if line.length < room then (line ++ ['\n'], rest)
      else (line.take room, line.drop room ++ '\n' :: rest) := by
  induction line generalizing room with
  | nil =>
    cases room with
    | zero => rfl
    | succ room => exact (if_pos (Nat.succ_pos room)).symm
  | cons c line ih =>
    obtain ⟨hc, hline⟩ := not_or.mp (mt List.mem_cons.mpr h)
    cases room with
    | zero => rfl
    | succ room =>
      rw [List.cons_append, fgets, if_neg (Ne.symm hc), ih hline]
      by_cases hlen : line.length < room
      · rw [if_pos hlen]
        exact (if_pos (Nat.succ_lt_succ hlen)).symm
      · rw [if_neg hlen]
        exact (if_neg fun hlt => hlen (Nat.lt_of_succ_lt_succ hlt)).symm

theorem fileLines_of_ne_nil {s : Text} (h : s ≠ []) : fileLines s =
    (fgets (maxLine - 1) s).1.rstripBy lineEnd :: fileLines (fgets (maxLine - 1) s).2 := by
  cases s with
  | nil => exact absurd rfl h
  | cons c s => rw [fileLines]

/-- A line of the file is sent as a whole without its end, or in several parts. -/
theorem fileLines_line {line : Text} (h : '\n' ∉ line) (rest : Text) : ∃ parts,
    fileLines (line ++ '\n' :: rest) = parts ++ fileLines rest ∧
      if line.length + 1 < maxLine then parts = [line.rstripBy lineEnd] else 1 < parts.length := by
  induction hn : line.length using Nat.strong_induction_on generalizing line with
  | _ n ih =>
    have hne : line ++ '\n' :: rest ≠ [] :=
      List.append_ne_nil_of_right_ne_nil _ (List.cons_ne_nil _ _)
    rw [fileLines_of_ne_nil hne, fgets_line h]
    have hmax : maxLine = 8192 := rfl
    by_cases hlen : line.length + 1 < maxLine
    · refine ⟨[line.rstripBy lineEnd], ?_, by rw [if_pos (hn ▸ hlen)]⟩
      rw [if_pos (by omega)]
      have hend : (line ++ ['\n']).rstripBy lineEnd = line.rstripBy lineEnd := by
        rw [Text.rstripBy, List.reverse_append, List.reverse_singleton, List.singleton_append,
          List.dropWhile_cons_of_pos (by decide)]
        rfl
      rw [hend]
      rfl
    · obtain ⟨parts, hparts, hcount⟩ := @ih (line.drop (maxLine - 1)).length
        (by rw [List.length_drop]; omega) (line.drop (maxLine - 1))
        (fun hmem => h (List.mem_of_mem_drop hmem)) rfl
      refine ⟨Text.rstripBy lineEnd (line.take (maxLine - 1)) :: parts, ?_, ?_⟩
      · rw [if_neg (by omega)]
        simp only
        rw [hparts, List.cons_append]
      · rw [if_neg (hn ▸ hlen), List.length_cons]
        split at hcount
        · rw [hcount]
          exact Nat.lt_succ_self 1
        · omega

/-- A line that comes out of the file as it was written. -/
def Spoolable (line : Text) : Prop := line.length + 1 < maxLine ∧ line.getLast? ≠ some '\r'

instance (line : Text) : Decidable (Spoolable line) := inferInstanceAs (Decidable (_ ∧ _))

theorem rstripBy_lineEnd_iff {line : Text} (h : '\n' ∉ line) :
    line.rstripBy lineEnd = line ↔ line.getLast? ≠ some '\r' := by
  rcases List.eq_nil_or_concat line with rfl | ⟨front, c, rfl⟩
  · exact iff_of_true rfl (by decide)
  · have hnewline : c ≠ '\n' := by
      rintro rfl
      exact h (by simp)
    rw [List.concat_eq_append, List.getLast?_concat]
    by_cases hc : c = '\r'
    · subst hc
      refine iff_of_false (fun heq => ?_) (not_not.mpr rfl)
      have hdrop : Text.rstripBy lineEnd (front ++ ['\r']) = Text.rstripBy lineEnd front := by
        rw [Text.rstripBy, List.reverse_append, List.reverse_singleton, List.singleton_append,
          List.dropWhile_cons_of_pos (by decide)]
        rfl
      have hle := Text.length_rstripBy_le lineEnd front
      have hlength := congrArg List.length (hdrop.symm.trans heq)
      rw [List.length_append, List.length_singleton] at hlength
      omega
    · refine iff_of_true ?_ fun heq => hc (Option.some.inj heq)
      have hstay : lineEnd c = false := by simp [lineEnd, hnewline, hc]
      rw [Text.rstripBy_append_cons hstay]
      rfl

theorem withNewlines_cons (line : Text) (lines : List Text) :
    withNewlines (line :: lines) = line ++ '\n' :: withNewlines lines := by
  rw [withNewlines, List.flatMap_cons, List.append_assoc]
  rfl

/-- There are at least as many lines as were written. If there are no more, each of them is one that
was written, without its end. -/
theorem fileLines_withNewlines {lines : List Text} (h : ∀ line ∈ lines, '\n' ∉ line) :
    lines.length ≤ (fileLines (withNewlines lines)).length ∧
      ((fileLines (withNewlines lines)).length ≤ lines.length →
        (∀ line ∈ lines, line.length + 1 < maxLine) ∧
          fileLines (withNewlines lines) = lines.map (Text.rstripBy lineEnd)) := by
  induction lines with
  | nil =>
    have hnil : fileLines (withNewlines []) = [] := by
      rw [withNewlines, List.flatMap_nil, fileLines]
    rw [hnil]
    exact ⟨Nat.le_refl 0, fun _ => ⟨fun line hline => (by cases hline), rfl⟩⟩
  | cons line lines ih =>
    obtain ⟨hle, hall⟩ := ih fun l hl => h l (List.mem_cons_of_mem line hl)
    obtain ⟨parts, hparts, hcount⟩ :=
      fileLines_line (h line List.mem_cons_self) (withNewlines lines)
    rw [withNewlines_cons, hparts, List.length_append, List.length_cons]
    split at hcount
    · next hshort =>
      subst hcount
      refine ⟨by rw [List.length_singleton]; omega, fun hlen => ?_⟩
      rw [List.length_singleton] at hlen
      obtain ⟨hfit, heq⟩ := hall (by omega)
      refine ⟨List.forall_mem_cons.mpr ⟨hshort, hfit⟩, ?_⟩
      rw [heq]
      rfl
    · exact ⟨by omega, fun hlen => by omega⟩

/-- The lines come out of the file as they were written exactly if each of them does. -/
theorem fileLines_withNewlines_iff {lines : List Text} (h : ∀ line ∈ lines, '\n' ∉ line) :
    fileLines (withNewlines lines) = lines ↔ ∀ line ∈ lines, Spoolable line := by
  constructor
  · intro heq
    obtain ⟨hshort, hmap⟩ := (fileLines_withNewlines h).2 (by rw [heq])
    have hstrip : lines.map (Text.rstripBy lineEnd) = lines.map id :=
      hmap.symm.trans (heq.trans (List.map_id lines).symm)
    intro line hline
    exact ⟨hshort line hline,
      (rstripBy_lineEnd_iff (h line hline)).mp (List.map_inj_left.mp hstrip line hline)⟩
  · intro hspool
    induction lines with
    | nil => rw [withNewlines, List.flatMap_nil, fileLines]
    | cons line lines ih =>
      obtain ⟨hshort, hlast⟩ := hspool line List.mem_cons_self
      obtain ⟨parts, hparts, hcount⟩ :=
        fileLines_line (h line List.mem_cons_self) (withNewlines lines)
      rw [if_pos hshort, (rstripBy_lineEnd_iff (h line List.mem_cons_self)).mpr hlast] at hcount
      rw [withNewlines_cons, hparts, hcount, ih (fun l hl => h l (List.mem_cons_of_mem line hl))
        fun l hl => hspool l (List.mem_cons_of_mem line hl)]
      rfl

/-! ### All modes -/

theorem foldl_file (lines : List Text) : ∀ s : ScrSink, s.mode = .file →
    lines.foldl scrsinkLine s = { s with file := s.file ++ withNewlines lines } := by
  induction lines with
  | nil =>
    intro s _
    simp [withNewlines]
  | cons line lines ih =>
    intro s hmode
    have hstep : scrsinkLine s line = { s with file := s.file ++ line ++ ['\n'] } := by
      rw [scrsinkLine, hmode]
    rw [List.foldl_cons, hstep, ih { s with file := s.file ++ line ++ ['\n'] } hmode]
    simp only [withNewlines_cons, List.append_assoc, List.singleton_append]

theorem foldl_direct (lines : List Text) : ∀ s : ScrSink, s.mode = .direct →
    lines.foldl scrsinkLine s = { s with sent := s.sent ++ lines } := by
  induction lines with
  | nil =>
    intro s _
    simp
  | cons line lines ih =>
    intro s hmode
    have hstep : scrsinkLine s line = { s with sent := s.sent ++ [line] } := by
      rw [scrsinkLine, hmode]
    rw [List.foldl_cons, hstep, ih { s with sent := s.sent ++ [line] } hmode]
    simp only [List.append_assoc, List.singleton_append]

/-- The texts of lines. -/
def SinkLine.texts (lines : List SinkLine) : List Text := lines.map SinkLine.chars

theorem newline_notMem_texts (lines : List SinkLine) : ∀ line ∈ SinkLine.texts lines,
    '\n' ∉ line := by
  intro line hline
  obtain ⟨l, -, rfl⟩ := List.mem_map.mp hline
  exact l.newline_notMem

section Machine

variable {machine : Machine} {estBytes : Nat} {lines : List Text}

theorem delivered_ram (h : (scrsinkInit machine estBytes).mode = .ram)
    (hlines : ∀ line ∈ lines, '\n' ∉ line) : delivered machine estBytes lines =
      overflowing (sinkCap estBytes) 0 lines ++ buffered (sinkCap estBytes) 0 lines := by
  have hinit : scrsinkInit machine estBytes = ⟨.ram, sinkCap estBytes, [], [], []⟩ := by
    rw [scrsinkInit] at h ⊢
    split_ifs at h ⊢
    rfl
  have hbuffered : ∀ line ∈ buffered (sinkCap estBytes) 0 lines, '\n' ∉ line :=
    fun line hline => hlines line ((buffered_sublist _ _ _).subset hline)
  rw [delivered, hinit, foldl_ram _ _ rfl]
  exact congrArg (overflowing (sinkCap estBytes) 0 lines ++ ·) (ramLines_withNewlines hbuffered)

theorem delivered_file (h : (scrsinkInit machine estBytes).mode = .file) :
    delivered machine estBytes lines = fileLines (withNewlines lines) := by
  have hinit : scrsinkInit machine estBytes = ⟨.file, 0, [], [], []⟩ := by
    rw [scrsinkInit] at h ⊢
    split_ifs at h ⊢
    rfl
  rw [delivered, hinit, foldl_file _ _ rfl]
  rfl

theorem delivered_direct (h : (scrsinkInit machine estBytes).mode = .direct) :
    delivered machine estBytes lines = lines := by
  have hinit : scrsinkInit machine estBytes = ⟨.direct, 0, [], [], []⟩ := by
    rw [scrsinkInit] at h ⊢
    split_ifs at h ⊢
    rfl
  rw [delivered, hinit, foldl_direct _ _ rfl]
  rfl

end Machine

/-- A machine with memory, one with a disk only, and one with neither. -/
def Machine.roomy : Machine := ⟨2 ^ 32, true, true⟩

def Machine.tight : Machine := ⟨0, false, true⟩

def Machine.bare : Machine := ⟨0, false, false⟩

theorem mode_roomy (estBytes : Nat) : (scrsinkInit .roomy estBytes).mode = .ram := by
  rw [scrsinkInit, if_pos ⟨Nat.mod_lt _ (by decide), rfl⟩]

theorem mode_tight (estBytes : Nat) : (scrsinkInit .tight estBytes).mode = .file := by
  rw [scrsinkInit, if_neg fun h => absurd h.2 (by decide), if_pos (by decide)]

theorem mode_bare (estBytes : Nat) : (scrsinkInit .bare estBytes).mode = .direct := by
  rw [scrsinkInit, if_neg fun h => absurd h.2 (by decide), if_neg (by decide)]

/-- All machines send the same lines. -/
def ModesAgree (estBytes : Nat) (lines : List SinkLine) : Prop :=
  ∀ m m' : Machine, delivered m estBytes (SinkLine.texts lines) =
    delivered m' estBytes (SinkLine.texts lines)

/-- The lines for which the buffer has no room are the first ones, and those in it the others. -/
def OverflowFirst (cap : Nat) (lines : List Text) : Prop :=
  overflowing cap 0 lines ++ buffered cap 0 lines = lines

/-- The modes agree exactly if every line comes out of the file as it was written, and moving the
lines for which the buffer has no room to the front does not change the sequence. -/
theorem modesAgree_iff (estBytes : Nat) (lines : List SinkLine) : ModesAgree estBytes lines ↔
    (∀ line ∈ SinkLine.texts lines, Spoolable line) ∧
      OverflowFirst (sinkCap estBytes) (SinkLine.texts lines) := by
  have hlines := newline_notMem_texts lines
  constructor
  · intro h
    have hdirect : delivered .bare estBytes (SinkLine.texts lines) = SinkLine.texts lines :=
      delivered_direct (mode_bare estBytes)
    refine ⟨(fileLines_withNewlines_iff hlines).mp ?_, ?_⟩
    · exact (delivered_file (mode_tight estBytes)).symm.trans ((h .tight .bare).trans hdirect)
    · exact (delivered_ram (mode_roomy estBytes) hlines).symm.trans ((h .roomy .bare).trans hdirect)
  · rintro ⟨hspool, hfirst⟩
    have hsame : ∀ m : Machine, delivered m estBytes (SinkLine.texts lines) =
        SinkLine.texts lines := by
      intro m
      cases hmode : (scrsinkInit m estBytes).mode with
      | ram => exact (delivered_ram hmode hlines).trans hfirst
      | file => exact (delivered_file hmode).trans ((fileLines_withNewlines_iff hlines).mpr hspool)
      | direct => exact delivered_direct hmode
    exact fun m m' => (hsame m).trans (hsame m').symm

/-- A line of one character, again and again. -/
def SinkLine.filled (n : Nat) (c : Char) (hnul : c ≠ nul) (hnewline : c ≠ '\n') : SinkLine where
  chars := List.replicate n c
  nul_notMem hmem := hnul (List.eq_of_mem_replicate hmem).symm
  newline_notMem hmem := hnewline (List.eq_of_mem_replicate hmem).symm

theorem exists_sinkLine (n : Nat) : ∃ line : SinkLine, line.chars.length = n :=
  ⟨.filled n 'a' (by decide) (by decide), List.length_replicate⟩

/-- The second line does not fit behind the first one, and is sent before it. -/
theorem not_modesAgree : ¬ ∀ (estBytes : Nat) (lines : List SinkLine),
    ModesAgree estBytes lines := by
  intro h
  obtain ⟨first, hfirst⟩ := exists_sinkLine 4000
  obtain ⟨second, hsecond⟩ := exists_sinkLine 200
  have hlines : ∀ line ∈ [first.chars, second.chars], '\n' ∉ line :=
    newline_notMem_texts [first, second]
  have hcap : sinkCap 0 = 4096 := rfl
  have hram : delivered .roomy 0 [first.chars, second.chars] = [second.chars, first.chars] := by
    rw [delivered_ram (mode_roomy 0) hlines, hcap]
    simp [overflowing, buffered, hfirst, hsecond]
  have hdirect : delivered .bare 0 [first.chars, second.chars] = [first.chars, second.chars] :=
    delivered_direct (mode_bare 0)
  have hsame := hram.symm.trans ((h 0 [first, second] .roomy .bare).trans hdirect)
  rw [(List.cons.inj hsame).1, hfirst] at hsecond
  omega

/-- No line for which the buffer has no room stands behind one that is in it. -/
def NoneBehind (cap : Nat) : Nat → List Text → Prop
  | _, [] => True
  | used, line :: lines =>
    if used + line.length + 1 ≤ cap then overflowing cap (used + line.length + 1) lines = []
    else NoneBehind cap used lines

theorem overflowing_sublist (cap used : Nat) (lines : List Text) :
    (overflowing cap used lines).Sublist lines := by
  induction lines generalizing used with
  | nil => exact List.Sublist.refl []
  | cons line lines ih =>
    rw [overflowing]
    split
    · exact (ih _).cons line
    · exact (ih _).cons_cons line

theorem buffered_of_overflowing_nil {cap used : Nat} {lines : List Text}
    (h : overflowing cap used lines = []) : buffered cap used lines = lines := by
  induction lines generalizing used with
  | nil => rfl
  | cons line lines ih =>
    rw [overflowing] at h
    split at h
    · next hroom => rw [buffered, if_pos hroom, ih h]
    · cases h

/-- Among lines that are all different, as the rows of a screenshot are, no line without room may
stand behind one with room. -/
theorem overflowFirst_iff_of_nodup {cap : Nat} {lines : List Text} (h : lines.Nodup) :
    OverflowFirst cap lines ↔ NoneBehind cap 0 lines := by
  rw [OverflowFirst]
  generalize 0 = used
  induction lines generalizing used with
  | nil => exact iff_of_true rfl trivial
  | cons line lines ih =>
    obtain ⟨hline, hrest⟩ := List.nodup_cons.mp h
    rw [overflowing, buffered, NoneBehind]
    split
    · next hroom =>
      constructor
      · intro heq
        cases hover : overflowing cap (used + line.length + 1) lines with
        | nil => rfl
        | cons first others =>
          rw [hover] at heq
          have hfirst : first = line := (List.cons.inj heq).1
          have hmem : first ∈ lines :=
            (overflowing_sublist cap _ lines).subset (hover ▸ List.mem_cons_self)
          exact absurd (hfirst ▸ hmem) hline
      · intro hnone
        rw [hnone, buffered_of_overflowing_nil hnone]
        rfl
    · rw [List.cons_append, List.cons_inj_right]
      exact ih hrest used

end AmigaDevbench.Daemon
