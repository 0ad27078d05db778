import Mathlib.Data.List.Induction
import AmigaDevbench.Core.CText
import AmigaDevbench.Core.Fitting

/-!
# The lists of the CAPABILITIES reply

A list is joined with commas in a buffer whose capacity counts the terminator. A name that does not
fit is left out together with all names behind it, and the length that is returned is that of the
whole list. Sizes have 32 bits on the Amiga.
-/

namespace AmigaDevbench.Daemon.CapsUtil

open CText

/-- An entry of a table: a name, and whether each of the two builds has it. -/
structure CapEntry where
  name : CString
  on68k : Bool
  onPpc : Bool

def capsArch68k : Int := 0

def capsArchPpc : Int := 1

def CapEntry.enabled (arch : Int) (e : CapEntry) : Bool :=
  if arch = capsArchPpc then e.onPpc else e.on68k

/-- `strlen` -/
def strlen (s : CString) : UInt32 := UInt32.ofNat s.val.length

/-- The variables of the loop. The characters behind `out` are those from its address on, of which
the first `cap` are the buffer. -/
structure Builder where
  out : Option (Nat → Char)
  need : UInt32
  pos : UInt32
  first : Bool

/-- The name is written behind a comma, unless it is the first one. -/
def Builder.write (b : Builder) (out : Nat → Char) (name : CString) (need : UInt32) : Builder :=
  let commaOut := if b.first then out else store out b.pos.toNat [',']
  let commaPos := if b.first then b.pos else b.pos + 1
  let nameOut := store commaOut commaPos.toNat name.val
  let namePos := commaPos + strlen name
  ⟨some (store nameOut namePos.toNat [nul]), need, namePos, false⟩

/-- The loop body, for an entry that is enabled. -/
def Builder.add (cap : UInt32) (b : Builder) (name : CString) : Builder :=
  let need := b.need + ((if b.first then 0 else 1) + strlen name)
  match b.out with
  | none => { b with need, first := false }
  | some out => if need < cap then b.write out name need else { b with need, first := false }

/-- The loop body. -/
def Builder.visit (cap : UInt32) (arch : Int) (b : Builder) (e : CapEntry) : Builder :=
  if e.enabled arch then b.add cap e.name else b

/-- The variables before the loop. -/
def Builder.start (out : Option (Nat → Char)) (cap : UInt32) : Builder :=
  ⟨out.map fun cells => if 0 < cap then store cells 0 [nul] else cells, 0, 0, true⟩

/-- `build_list`: the characters behind `out` and the length that is returned. -/
def buildList (out : Option (Nat → Char)) (cap : UInt32) (tab : List CapEntry) (arch : Int) :
    Option (Nat → Char) × UInt32 :=
  let b := tab.foldl (Builder.visit cap arch) (Builder.start out cap)
  (b.out, b.need)

/-! ### The tables -/

/-- A string literal. -/
def literal (name : String) : CString := ⟨cut name.toList, nul_notMem_cut _⟩

/-- What both builds have. -/
def both (name : String) : CapEntry := ⟨literal name, true, true⟩

/-- What takes a 68k processor or the classic chipset. -/
def only68k (name : String) : CapEntry := ⟨literal name, true, false⟩

def onlyPpc (name : String) : CapEntry := ⟨literal name, false, true⟩

/-- The commands, in the order in which they have always been advertised. -/
def commands : List CapEntry :=
  [both "PING", both "INSPECT", both "GETVAR", both "SETVAR", both "EXEC", both "LISTCLIENTS",
   both "LISTTASKS", both "LISTLIBS", both "LISTDEVICES", both "LISTDEVS", both "LISTVOLUMES",
   both "LISTDIR", both "READFILE", both "WRITEFILE", both "FILEINFO", both "DELETE",
   both "DELETEFILE", both "MAKEDIR", both "LAUNCH", both "DOSCOMMAND", both "RUN", both "BREAK",
   both "LISTHOOKS", both "CALLHOOK", both "LISTMEMREGS", both "READMEMREG", both "CLIENTINFO",
   both "STOP", both "SCRIPT", both "WRITEMEM", both "SCREENSHOT", both "PALETTE",
   both "SETPALETTE", only68k "COPPERLIST", only68k "SPRITES", both "LISTRESOURCES",
   both "GETPERF", only68k "LASTCRASH", only68k "CRASHINIT", only68k "CRASHREMOVE",
   only68k "CRASHTEST", both "MEMMAP", both "STACKINFO", only68k "CHIPREGS", only68k "READREGS",
   both "SEARCH", both "LIBINFO", both "DEVINFO", only68k "LIBFUNCS", only68k "SNOOPSTART",
   only68k "SNOOPSTOP", only68k "SNOOPSTATUS", only68k "AUDIOCHANNELS", only68k "AUDIOSAMPLE",
   both "LISTSCREENS", both "LISTWINDOWS", both "LISTWINDOWS2", both "LISTGADGETS",
   both "WINACTIVATE", both "WINTOFRONT", both "WINTOBACK", both "WINZIP", both "WINMOVE",
   both "WINSIZE", both "SCRTOFRONT", both "SCRTOBACK", both "INPUTKEY", both "INPUTMOVE",
   both "INPUTPOS", both "INPUTCLICK", both "LISTFONTS", both "FONTINFO", only68k "CHIPLOGSTART",
   only68k "CHIPLOGSTOP", only68k "CHIPLOGSNAPSHOT", only68k "POOLSTART", only68k "POOLSTOP",
   only68k "POOLS", both "CLIPGET", both "CLIPSET", both "AREXXPORTS", both "AREXXSEND",
   both "SHUTDOWN", both "CAPABILITIES", both "PROCLIST", both "PROCSTAT", both "SIGNAL",
   both "TAIL", both "STOPTAIL", both "CHECKSUM", both "ASSIGNS", both "ASSIGN", both "PROTECT",
   both "RENAME", both "SETCOMMENT", both "COPY", both "APPEND", both "VERSION", both "GETENV",
   both "SETENV", both "SETDATE", both "VOLUMES", both "PORTS", both "SYSINFO", both "UPTIME",
   both "REBOOT", only68k "DBGATTACH", only68k "DBGDETACH", only68k "BPSET", only68k "BPCLEAR",
   only68k "BPLIST", only68k "DBGSTEP", only68k "DBGNEXT", only68k "DBGCONT", only68k "DBGREGS",
   only68k "DBGSETREG", only68k "DBGBT", only68k "DBGBREAK", only68k "DBGCLEARALLBP",
   only68k "DBGSTATUS", only68k "DBGLAUNCH"]

/-- Behaviours that are not a single command. -/
def features : List CapEntry :=
  [both "exec.async", both "exec.signals", both "env.vars", both "fs.tail", both "fs.attrs",
   only68k "gfx.planar", onlyPpc "gfx.chunky", both "gfx.truecolor", both "gfx.palette.read",
   both "gfx.palette.write", both "gfx.window", only68k "mem.regs", only68k "dbg.attach",
   only68k "dbg.breakpoints", only68k "dbg.step", only68k "dbg.backtrace",
   only68k "dbg.registers.write", only68k "dbg.crash", both "client.lib", both "amiga.intuition",
   both "amiga.arexx", both "amiga.libs", only68k "amiga.libs.jumptable", only68k "amiga.copper",
   only68k "amiga.paula", only68k "amiga.chipset", only68k "amiga.snoop", both "amiga.assigns",
   only68k "amiga.pools", both "amiga.clipboard", both "amiga.fonts"]

/-- Sets of commands that a build implements in full. -/
def profiles : List CapEntry :=
  [both "core", both "mem", both "fs", both "exec", both "gfx", both "input", only68k "debug",
   both "client"]

/-- `caps_build_commands` -/
def capsBuildCommands (out : Option (Nat → Char)) (cap : UInt32) (arch : Int) :
    Option (Nat → Char) × UInt32 := buildList out cap commands arch

/-- `caps_build_features` -/
def capsBuildFeatures (out : Option (Nat → Char)) (cap : UInt32) (arch : Int) :
    Option (Nat → Char) × UInt32 := buildList out cap features arch

/-- `caps_build_profiles` -/
def capsBuildProfiles (out : Option (Nat → Char)) (cap : UInt32) (arch : Int) :
    Option (Nat → Char) × UInt32 := buildList out cap profiles arch

/-! ### The specification -/

/-- The names that are listed. -/
def enabledNames (arch : Int) (tab : List CapEntry) : List Text :=
  (tab.filter (CapEntry.enabled arch)).map (·.name.val)

def joined (names : List Text) : Text := [','].intercalate names

/-- A list in a buffer: the longest prefix of the names that leaves room for its terminator is
written, nothing behind it is touched, and the length is that of the whole list. -/
structure Listed (names : List Text) (cap : Nat) (before after : Nat → Char) (length : Nat) :
    Prop where
  written : ∃ k, IsGreatest (Fitting (fun names => (joined names).length) cap names) k ∧
    after = store before 0 (joined (names.take k) ++ [nul])
  inside : ∀ i, cap ≤ i → after i = before i
  length_eq : length = (joined names).length

/-! ### The loop -/

section Loop

variable {tab : List CapEntry} {arch : Int} {cap : UInt32} {b : Builder} {names : List Text}
  {name : CString} {before : Nat → Char} {out : Option (Nat → Char)}

theorem enabledNames_concat (arch : Int) (tab : List CapEntry) (e : CapEntry) :
    enabledNames arch (tab ++ [e]) =
      if e.enabled arch then enabledNames arch tab ++ [e.name.val] else enabledNames arch tab := by
  rw [enabledNames, List.filter_append, List.map_append, List.filter_singleton]
  cases e.enabled arch with
  | true => rfl
  | false => exact List.append_nil _

/-- What stands in front of the next name. -/
def separator (first : Bool) : Text := if first then [] else [',']

theorem joined_concat (names : List Text) (name : Text) :
    joined (names ++ [name]) = joined names ++ (separator (decide (names = [])) ++ name) := by
  rw [joined, Text.intercalate_concat_eq, separator]
  by_cases h : names = []
  · rw [if_pos h, if_pos (decide_eq_true h)]
    rfl
  · rw [if_neg h, if_neg (by rw [decide_eq_true_iff]; exact h)]
    rfl

theorem separator_length (first : Bool) :
    UInt32.ofNat (separator first).length = if first then 0 else 1 := by
  cases first <;> rfl

/-- Whether a name has been visited, and the length of what is joined so far. -/
structure Counted (names : List Text) (b : Builder) : Prop where
  first : b.first = decide (names = [])
  need : b.need = UInt32.ofNat (joined names).length

theorem Counted.add (h : Counted names b) (cap : UInt32) (name : CString) :
    Counted (names ++ [name.val]) (b.add cap name) := by
  have hneed : b.need + ((if b.first then 0 else 1) + strlen name) =
      UInt32.ofNat (joined (names ++ [name.val])).length := by
    rw [joined_concat, List.length_append, List.length_append, UInt32.ofNat_add,
      UInt32.ofNat_add, separator_length, h.need, h.first, strlen]
  have hfirst : false = decide (names ++ [name.val] = []) :=
    (decide_eq_false (List.append_ne_nil_of_right_ne_nil _ (List.cons_ne_nil _ _))).symm
  rw [Builder.add]
  generalize b.need + ((if b.first then 0 else 1) + strlen name) = need at hneed ⊢
  cases b.out with
  | none => exact ⟨hfirst, hneed⟩
  | some out =>
    dsimp only
    split
    · exact ⟨hfirst, hneed⟩
    · exact ⟨hfirst, hneed⟩

/-- The run of the loop over a table. -/
def run (out : Option (Nat → Char)) (cap : UInt32) (tab : List CapEntry) (arch : Int) : Builder :=
  tab.foldl (Builder.visit cap arch) (Builder.start out cap)

theorem run_concat (e : CapEntry) :
    run out cap (tab ++ [e]) arch = (run out cap tab arch).visit cap arch e :=
  List.foldl_concat ..

theorem counted_run (out : Option (Nat → Char)) (cap : UInt32) (tab : List CapEntry) (arch : Int) :
    Counted (enabledNames arch tab) (run out cap tab arch) := by
  induction tab using List.reverseRecOn with
  | nil => exact ⟨rfl, rfl⟩
  | append_singleton tab e ih =>
    rw [run_concat, enabledNames_concat, Builder.visit]
    split
    · exact ih.add cap e.name
    · exact ih

/-- The text in the buffer, and the position behind it as long as no name is left out. -/
structure Filled (names : List Text) (cap : Nat) (before : Nat → Char) (b : Builder) (k : Nat) :
    Prop where
  greatest : IsGreatest (Fitting (fun names => (joined names).length) cap names) k
  out : b.out = some (store before 0 (joined (names.take k) ++ [nul]))
  pos : k = names.length → b.pos.toNat = (joined names).length

/-- A name behind the text, and its terminator. -/
theorem write_eq (out : Nat → Char) (need : UInt32)
    (hroom : b.pos.toNat + (separator b.first ++ name.val).length < 2 ^ 32) :
    (b.write out name need).out =
        some (store out b.pos.toNat (separator b.first ++ name.val ++ [nul])) ∧
      (b.write out name need).pos.toNat =
        b.pos.toNat + (separator b.first ++ name.val).length := by
  rw [List.length_append] at hroom
  have hlt : name.val.length < 2 ^ 32 := by omega
  have hname : (strlen name).toNat = name.val.length := UInt32.toNat_ofNat_of_lt' hlt
  cases hfirst : b.first with
  | true =>
    have hpos : (b.pos + strlen name).toNat = b.pos.toNat + name.val.length := by
      rw [UInt32.toNat_add, hname, Nat.mod_eq_of_lt (by omega)]
    simp only [Builder.write, hfirst, if_true, separator, List.nil_append, hpos, store_store,
      and_self]
  | false =>
    rw [hfirst, separator, if_neg Bool.false_ne_true, List.length_singleton] at hroom
    have hcomma : (b.pos + 1).toNat = b.pos.toNat + [','].length := by
      rw [UInt32.toNat_add, Nat.mod_eq_of_lt (by change b.pos.toNat + 1 < 2 ^ 32; omega)]
      rfl
    have hpos : (b.pos + 1 + strlen name).toNat = b.pos.toNat + ([','] ++ name.val).length := by
      rw [UInt32.toNat_add, hcomma, hname, Nat.mod_eq_of_lt (by rw [List.length_singleton]; omega),
        List.length_append, Nat.add_assoc]
    simp only [Builder.write, hfirst, Bool.false_eq_true, if_false, separator, hcomma, hpos,
      store_store, and_self]

theorem filled_start (hcap : 0 < cap) :
    Filled [] cap.toNat before (Builder.start (some before) cap) 0 := by
  refine ⟨fitting_nil (UInt32.lt_iff_toNat_lt.mp hcap), ?_, fun _ => rfl⟩
  rw [Builder.start, Option.map_some, if_pos hcap]
  rfl

/-- A name is written if the list so far and the name fit, and otherwise the list stays as it is. -/
theorem Filled.add {k : Nat} (h : Filled names cap.toNat before b k) (hcount : Counted names b)
    (hlength : (joined (names ++ [name.val])).length < 2 ^ 32) :
    ∃ k, Filled (names ++ [name.val]) cap.toNat before (b.add cap name) k := by
  have hneed : (b.add cap name).need.toNat = (joined (names ++ [name.val])).length := by
    rw [(hcount.add cap name).need]
    exact UInt32.toNat_ofNat_of_lt' hlength
  have htotal : (joined (names ++ [name.val])).length =
      (joined names).length + (separator b.first ++ name.val).length := by
    rw [joined_concat, hcount.first, List.length_append]
  revert hneed
  rw [Builder.add, h.out]
  generalize b.need + ((if b.first then 0 else 1) + strlen name) = need
  dsimp only
  split
  · next hfits =>
    intro hneed
    change need.toNat = _ at hneed
    have hlt : (joined (names ++ [name.val])).length < cap.toNat :=
      hneed ▸ UInt32.lt_iff_toNat_lt.mp hfits
    have hk : k = names.length := (eq_length_iff h.greatest).mpr (by omega)
    have hend : b.pos.toNat = (joined names).length := h.pos hk
    have hover := store_over_last before 0 (joined names) nul
      (List.append_ne_nil_of_right_ne_nil (separator b.first ++ name.val) (List.cons_ne_nil nul []))
    obtain ⟨hout, hpos⟩ := write_eq (store before 0 (joined names ++ [nul])) need
      (show b.pos.toNat + (separator b.first ++ name.val).length < 2 ^ 32 by omega)
    rw [Nat.zero_add] at hover
    rw [hk, List.take_length]
    refine ⟨_, isGreatest_length hlt, ?_, fun _ => ?_⟩
    · rw [hout, hend, hover, List.take_length, joined_concat, ← hcount.first]
      simp only [List.append_assoc]
    · rw [hpos, hend, htotal]
  · next hfits =>
    intro hneed
    change need.toNat = _ at hneed
    have hle : cap.toNat ≤ (joined (names ++ [name.val])).length :=
      hneed ▸ Nat.not_lt.mp fun hlt => hfits (UInt32.lt_iff_toNat_lt.mpr hlt)
    have hk : k ≤ names.length := h.greatest.1.1
    refine ⟨k, isGreatest_concat h.greatest hle, ?_, fun hlast => ?_⟩
    · rw [List.take_append_of_le_length hk]
    · rw [List.length_append, List.length_singleton] at hlast
      omega

theorem length_joined_enabledNames_le (arch : Int) (tab : List CapEntry) (e : CapEntry) :
    (joined (enabledNames arch tab)).length ≤ (joined (enabledNames arch (tab ++ [e]))).length := by
  rw [enabledNames_concat]
  split
  · rw [joined_concat, List.length_append]
    exact Nat.le_add_right _ _
  · exact Nat.le_refl _

/-- One name after the other. -/
theorem filled_run (before : Nat → Char) (hcap : 0 < cap)
    (hlength : (joined (enabledNames arch tab)).length < 2 ^ 32) :
    ∃ k, Filled (enabledNames arch tab) cap.toNat before (run (some before) cap tab arch) k := by
  induction tab using List.reverseRecOn with
  | nil => exact ⟨0, filled_start hcap⟩
  | append_singleton tab e ih =>
    obtain ⟨k, hfilled⟩ := ih ((length_joined_enabledNames_le arch tab e).trans_lt hlength)
    rw [enabledNames_concat] at hlength ⊢
    rw [run_concat, Builder.visit]
    split at hlength
    · next henabled =>
      rw [if_pos henabled, if_pos henabled]
      exact hfilled.add (counted_run ..) hlength
    · next henabled =>
      rw [if_neg henabled, if_neg henabled]
      exact ⟨k, hfilled⟩

/-- Without a buffer, or with a buffer of no characters, nothing is written. -/
theorem out_run_of_none (hout : out = none ∨ cap = 0) : (run out cap tab arch).out = out := by
  induction tab using List.reverseRecOn with
  | nil =>
    rcases hout with rfl | rfl
    · rfl
    · cases out <;> rfl
  | append_singleton tab e ih =>
    rw [run_concat, Builder.visit]
    split
    · rw [Builder.add, ih]
      rcases hout with rfl | rfl
      · rfl
      · cases out with
        | none => rfl
        | some cells =>
          dsimp only
          rw [if_neg UInt32.not_lt_zero]
    · exact ih

/-- The text and its terminator lie in the buffer. -/
theorem Filled.listed {k length : Nat} {after : Nat → Char} (h : Filled names cap.toNat before b k)
    (hafter : b.out = some after) (hlength : length = (joined names).length) :
    Listed names cap.toNat before after length := by
  obtain rfl : store before 0 (joined (names.take k) ++ [nul]) = after :=
    Option.some.inj (h.out.symm.trans hafter)
  refine ⟨⟨k, h.greatest, rfl⟩, fun i hi => store_of_le ?_, hlength⟩
  have hfits : (joined (names.take k)).length < cap.toNat := h.greatest.1.2
  rw [List.length_append, List.length_singleton]
  omega

end Loop

/-- What a call leaves behind `out` and what it returns. -/
def BuildsList (tab : List CapEntry) (arch : Int) (cap : UInt32) (before : Nat → Char) : Prop :=
  ∃ after, (buildList (some before) cap tab arch).1 = some after ∧
    Listed (enabledNames arch tab) cap.toNat before after
      (buildList (some before) cap tab arch).2.toNat

/-- The list in a buffer is the longest prefix that fits, and the length is that of the whole list,
exactly if the buffer has room for a terminator and a size can hold that length. In a buffer of no
characters, and without a buffer, nothing is written. -/
theorem buildList_listed (tab : List CapEntry) (arch : Int) :
    (∀ cap before, BuildsList tab arch cap before ↔
      0 < cap ∧ (joined (enabledNames arch tab)).length < 2 ^ 32) ∧
    ∀ out cap, out = none ∨ cap = 0 →
      buildList out cap tab arch = (out, UInt32.ofNat (joined (enabledNames arch tab)).length) := by
  refine ⟨fun cap before => ⟨?_, ?_⟩, fun out cap hout => ?_⟩
  · rintro ⟨after, -, ⟨k, hk, -⟩, -, hlength⟩
    have hpos := hk.1.2
    exact ⟨UInt32.lt_iff_toNat_lt.mpr (by rw [UInt32.toNat_zero]; omega),
      hlength ▸ UInt32.toNat_lt _⟩
  · rintro ⟨hcap, hlength⟩
    obtain ⟨k, hfilled⟩ := filled_run before hcap hlength
    refine ⟨_, hfilled.out, hfilled.listed hfilled.out ?_⟩
    rw [buildList, ← run, (counted_run ..).need]
    exact UInt32.toNat_ofNat_of_lt' hlength
  · rw [buildList, ← run, out_run_of_none hout, (counted_run ..).need]

def letters (n : Nat) : CString :=
  ⟨List.replicate n 'a', fun h => absurd (List.eq_of_mem_replicate h) (show nul ≠ 'a' by decide)⟩

theorem length_letters (n : Nat) : (letters n).val.length = n := List.length_replicate

theorem enabled_both (arch : Int) (name : CString) :
    CapEntry.enabled arch ⟨name, true, true⟩ = true := ite_self true

/-- A table of `2 ^ 21` names. -/
def longTable : List CapEntry := List.replicate (2097151 + 1) ⟨letters 4095, true, true⟩

/-- A buffer of no characters gets no terminator, and the length of a list of more than 4 gigabytes
is not returned. -/
theorem buildList_not_listed :
    ¬ BuildsList [] capsArch68k 0 (fun _ => 'x') ∧
      ¬ BuildsList longTable capsArch68k 16 (fun _ => 'x') := by
  constructor
  · rintro ⟨after, -, ⟨k, hk, -⟩, -⟩
    exact absurd hk.1.2 (Nat.not_lt_zero _)
  · rintro ⟨after, -, hlisted⟩
    have hnames : enabledNames capsArch68k longTable =
        List.replicate (2097151 + 1) (letters 4095).val := by
      rw [enabledNames, longTable, List.filter_replicate_of_pos (enabled_both ..),
        List.map_replicate]
    have hlength := hlisted.length_eq
    rw [hnames, joined, Text.length_intercalate_replicate, length_letters] at hlength
    have hlt := (buildList (some fun _ => 'x') 16 longTable capsArch68k).2.toNat_lt
    omega

/-! ### The reply -/

/-- A list that is shorter than its buffer is complete. -/
theorem buildList_complete {tab : List CapEntry} {arch : Int} {cap : UInt32} (before : Nat → Char)
    (h : (joined (enabledNames arch tab)).length < cap.toNat) :
    (buildList (some before) cap tab arch).1 =
      some (store before 0 (joined (enabledNames arch tab) ++ [nul])) := by
  have hcap : 0 < cap := UInt32.lt_iff_toNat_lt.mpr (by rw [UInt32.toNat_zero]; omega)
  obtain ⟨k, hfilled⟩ := filled_run before hcap (h.trans cap.toNat_lt)
  have hk := (eq_length_iff hfilled.greatest).mpr h
  rw [buildList, ← run, hfilled.out, hk, List.take_length]

/-- Each name takes its length, and the comma in front of it. -/
theorem length_joined_le (arch : Int) (tab : List CapEntry) :
    (joined (enabledNames arch tab)).length ≤ (tab.map fun e => e.name.val.length + 1).sum := by
  induction tab using List.reverseRecOn with
  | nil => exact Nat.le_refl 0
  | append_singleton tab e ih =>
    rw [enabledNames_concat, List.map_append, List.sum_append, List.map_singleton,
      List.sum_singleton]
    split
    · have hseparator (first : Bool) : (separator first).length ≤ 1 := by cases first <;> decide
      have hle := hseparator (decide (enabledNames arch tab = []))
      rw [joined_concat, List.length_append, List.length_append]
      omega
    · omega

theorem tables_lt : (commands.map fun e => e.name.val.length + 1).sum < 2048 ∧
    (features.map fun e => e.name.val.length + 1).sum < 512 ∧
      (profiles.map fun e => e.name.val.length + 1).sum < 128 := by
  decide +kernel

/-- The lists of both builds, in the buffers of `sys_handle_capabilities`. -/
theorem capabilities_complete (arch : Int) (before : Nat → Char) :
    (capsBuildCommands (some before) 2048 arch).1 =
        some (store before 0 (joined (enabledNames arch commands) ++ [nul])) ∧
      (capsBuildFeatures (some before) 512 arch).1 =
        some (store before 0 (joined (enabledNames arch features) ++ [nul])) ∧
      (capsBuildProfiles (some before) 128 arch).1 =
        some (store before 0 (joined (enabledNames arch profiles) ++ [nul])) :=
  ⟨buildList_complete before ((length_joined_le arch commands).trans_lt tables_lt.1),
    buildList_complete before ((length_joined_le arch features).trans_lt tables_lt.2.1),
    buildList_complete before ((length_joined_le arch profiles).trans_lt tables_lt.2.2)⟩

end AmigaDevbench.Daemon.CapsUtil
