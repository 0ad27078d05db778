import AmigaDevbench.Daemon.Inventory
import AmigaDevbench.Daemon.MemorySearch

/-!
# Screens, windows and gadgets on the daemon

`intuition_inspector.c` walks the lists of Intuition and sends a line for each list. A walk ends at
a pointer that it rejects. The addresses on a line are the ones that later commands name a screen or
a window with.
-/

namespace AmigaDevbench.Daemon.Intuition

open CText CNumber

/-- A gadget. Its text is missing where a pointer to it is rejected. -/
structure Gadget where
  gadgetID : UInt16
  leftEdge : Int16
  topEdge : Int16
  width : Int16
  height : Int16
  gadgetType : UInt16
  flags : UInt16
  gadgetText : Option CString
  addr : UInt32

/-- A window, with its gadgets. -/
structure Window where
  title : Option CString
  leftEdge : Int16
  topEdge : Int16
  width : Int16
  height : Int16
  flags : UInt32
  idcmpFlags : UInt32
  addr : UInt32
  gadgets : List Gadget

/-- A screen, with its windows. The depth is 0 where the pointer to the bitmap is rejected. -/
structure Screen where
  title : Option CString
  width : Int16
  height : Int16
  depth : UInt8
  modes : UInt16
  flags : UInt16
  addr : UInt32
  windows : List Window

/-- `IntuitionBase`. Different structures have different addresses. -/
structure Base where
  screens : List Screen
  screens_nodup : (screens.map Screen.addr).Nodup
  windows_nodup : ((screens.flatMap Screen.windows).map Window.addr).Nodup

/-- `sanitize_text` -/
def sanitizeText (src : Option CString) (maxLen : Nat) : Text :=
  src.elim [] fun s => (s.val.take maxLen).map fun c =>
    if c = '|' ∨ c = ',' ∨ c = ':' ∨ c = '\n' ∨ c = '\r' then ' ' else c

/-- A text, or what stands for an empty one. -/
def shownText (src : Option CString) (default : String) : Text :=
  if sanitizeText src 40 = [] then default.toList else sanitizeText src 40

/-- `"%s:%ld:%ld:%ld:%lx:%lx:%lx"` -/
def Screen.entry (scr : Screen) : Text :=
  shownText scr.title "(untitled)" ++ ':' :: (Client.longText scr.width.toInt ++ ':' ::
    (Client.longText scr.height.toInt ++ ':' :: (decimal scr.depth.toNat ++ ':' ::
      (hexLong scr.modes.toNat ++ ':' :: (hexLong scr.flags.toNat ++ ':' ::
        hexLong scr.addr.toNat)))))

/-- `"%s:%ld:%ld:%ld:%ld:%lx:%lx:%lx"` -/
def Window.entry (win : Window) : Text :=
  shownText win.title "(untitled)" ++ ':' :: (Client.longText win.leftEdge.toInt ++ ':' ::
    (Client.longText win.topEdge.toInt ++ ':' :: (Client.longText win.width.toInt ++ ':' ::
      (Client.longText win.height.toInt ++ ':' :: (hexLong win.flags.toNat ++ ':' ::
        (hexLong win.idcmpFlags.toNat ++ ':' :: hexLong win.addr.toNat))))))

/-- `"%ld:%ld:%ld:%ld:%ld:%ld:%ld:%s:%lx"` -/
def Gadget.entry (gad : Gadget) : Text :=
  decimal gad.gadgetID.toNat ++ ':' :: (Client.longText gad.leftEdge.toInt ++ ':' ::
    (Client.longText gad.topEdge.toInt ++ ':' :: (Client.longText gad.width.toInt ++ ':' ::
      (Client.longText gad.height.toInt ++ ':' :: (decimal gad.gadgetType.toNat ++ ':' ::
        (decimal gad.flags.toNat ++ ':' :: (shownText gad.gadgetText "n/a" ++ ':' ::
          hexLong gad.addr.toNat)))))))

/-- A pointer that is not rejected. -/
def valid (addr : UInt32) : Bool := 0x100 ≤ addr ∧ addr ≤ 0x10000000

/-- `intui_handle_screens`, without the base if it is not open. -/
def handleScreens : Option Base → Text
  | none => "ERR|SCREENS|IntuitionBase not open".toList
  | some base =>
    countedLine "SCREENS|".toList ((base.screens.takeWhile (valid ·.addr)).map Screen.entry)

/-- What stands in front of the number of entries in a list that is asked for with an address. -/
def header (type : Text) (addr : UInt32) : Text := type ++ '|' :: (hexLong addr.toNat ++ ['|'])

/-- The line of the windows of a screen. -/
def windowsLine (scr : Screen) : Text :=
  countedLine (header "WINDOWS".toList scr.addr)
    ((scr.windows.takeWhile (valid ·.addr)).map Window.entry)

/-- `intui_handle_windows` -/
def handleWindows (base : Option Base) (args : Text) : Text :=
  match base with
  | none => "ERR|WINDOWS|IntuitionBase not open".toList
  | some base =>
    if args ≠ [] then
      let scrAddr := strtoul 16 args
      if scrAddr < 0x100 ∨ 0x10000000 < scrAddr then "ERR|WINDOWS|Invalid screen address".toList
      else
        match base.screens.find? (·.addr.toNat = scrAddr) with
        | some scr => windowsLine scr
        | none => "ERR|WINDOWS|Screen not found at given address".toList
    else
      match base.screens.head? with
      | some scr => windowsLine scr
      | none => "ERR|WINDOWS|No screen found".toList

/-- The windows that a walk over all screens comes by. -/
def Base.walked (base : Base) : List Window :=
  (base.screens.takeWhile (valid ·.addr)).flatMap fun scr => scr.windows.takeWhile (valid ·.addr)

/-- The line of the gadgets of a window. -/
def gadgetsLine (win : Window) : Text :=
  countedLine (header "GADGETS".toList win.addr)
    ((win.gadgets.takeWhile (valid ·.addr)).map Gadget.entry)

/-- `intui_handle_gadgets` -/
def handleGadgets (base : Option Base) (args : Text) : Text :=
  match base with
  | none => "ERR|GADGETS|IntuitionBase not open".toList
  | some base =>
    if args = [] then "ERR|GADGETS|Missing window address".toList
    else
      let winAddr := strtoul 16 args
      if winAddr < 0x100 ∨ 0x10000000 < winAddr then "ERR|GADGETS|Invalid window address".toList
      else
        match base.walked.find? (·.addr.toNat = winAddr) with
        | some win => gadgetsLine win
        | none => "ERR|GADGETS|Window not found at given address".toList

/-- The commands for the lists, as a line names them. -/
def answer (base : Option Base) (line : Text) : Option Text :=
  let command := (line.before '|').take 31
  let args := (line.after? '|').getD []
  if command = "LISTSCREENS".toList then some (handleScreens base)
  else if command = "LISTWINDOWS2".toList then some (handleWindows base args)
  else if command = "LISTGADGETS".toList then some (handleGadgets base args)
  else none

/-! ### What the entries contain -/

section Texts

variable (src : Option CString) {d : String}

theorem length_shownText_le (h : d.toList.length ≤ 40) :
    (shownText src d).length ≤ 40 := by
  rw [shownText]
  split
  · exact h
  · cases src with
    | none => exact Nat.zero_le _
    | some s =>
      rw [sanitizeText, Option.elim_some, List.length_map]
      exact List.length_take_le _ _

/-- No separator is left in a text. -/
theorem free_shownText (h : Text.Free ['|', ',', ':'] d.toList) :
    Text.Free ['|', ',', ':'] (shownText src d) := by
  rw [shownText]
  split
  · exact h
  · cases src with
    | none => exact fun c hc => absurd hc List.not_mem_nil
    | some s =>
      intro c hc hsep
      obtain ⟨e, _, rfl⟩ := List.mem_map.mp hc
      split at hsep
      · exact absurd hsep (by decide)
      · next hother =>
        simp only [List.mem_cons, List.not_mem_nil, or_false] at hsep
        exact hother (by tauto)

end Texts

theorem length_hexLong_le {n k : Nat} (hk : 0 < k) (h : n < 16 ^ k) : (hexLong n).length ≤ k := by
  rw [hexLong, Nat.length_toDigits_le_iff (by decide) hk]
  exact h

theorem length_longText_int16 (n : Int16) : (Client.longText n.toInt).length ≤ 6 := by
  have hlow := n.le_toInt
  have hhigh := n.toInt_lt
  have hdigits {k : Nat} (hk : k ≤ 2 ^ 15) : (decimal k).length ≤ 5 := by
    rw [decimal, Nat.length_toDigits_le_iff (by decide) (by decide)]
    omega
  rw [Client.longText]
  split
  · rw [List.length_cons]
    exact Nat.succ_le_succ (hdigits (by omega))
  · exact (hdigits (by omega)).trans (Nat.le_succ 5)

theorem length_decimal_uint16 (n : UInt16) : (decimal n.toNat).length ≤ 5 := by
  have hlt := n.toNat_lt
  rw [decimal, Nat.length_toDigits_le_iff (by decide) (by decide)]
  omega

theorem length_hexLong_uint16 (n : UInt16) : (hexLong n.toNat).length ≤ 4 :=
  length_hexLong_le (by decide) n.toNat_lt

theorem length_hexLong_uint32 (n : UInt32) : (hexLong n.toNat).length ≤ 8 :=
  length_hexLong_le (by decide) n.toNat_lt

/-- An entry fits into its array. -/
theorem Screen.length_entry_lt (scr : Screen) : scr.entry.length < 128 := by
  have htitle := length_shownText_le scr.title (d := "(untitled)") (by decide)
  have hwidth := length_longText_int16 scr.width
  have hheight := length_longText_int16 scr.height
  have hdepth : (decimal scr.depth.toNat).length ≤ 3 := by
    have hlt := scr.depth.toNat_lt
    rw [decimal, Nat.length_toDigits_le_iff (by decide) (by decide)]
    omega
  have hmodes := length_hexLong_uint16 scr.modes
  have hflags := length_hexLong_uint16 scr.flags
  have haddr := length_hexLong_uint32 scr.addr
  simp only [Screen.entry, List.length_append, List.length_cons]
  omega

theorem Window.length_entry_lt (win : Window) : win.entry.length < 128 := by
  have htitle := length_shownText_le win.title (d := "(untitled)") (by decide)
  have hleft := length_longText_int16 win.leftEdge
  have htop := length_longText_int16 win.topEdge
  have hwidth := length_longText_int16 win.width
  have hheight := length_longText_int16 win.height
  have hflags := length_hexLong_uint32 win.flags
  have hidcmp := length_hexLong_uint32 win.idcmpFlags
  have haddr := length_hexLong_uint32 win.addr
  simp only [Window.entry, List.length_append, List.length_cons]
  omega

theorem Gadget.length_entry_lt (gad : Gadget) : gad.entry.length < 128 := by
  have hid := length_decimal_uint16 gad.gadgetID
  have hleft := length_longText_int16 gad.leftEdge
  have htop := length_longText_int16 gad.topEdge
  have hwidth := length_longText_int16 gad.width
  have hheight := length_longText_int16 gad.height
  have htype := length_decimal_uint16 gad.gadgetType
  have hflags := length_decimal_uint16 gad.flags
  have htext := length_shownText_le gad.gadgetText (d := "n/a") (by decide)
  have haddr := length_hexLong_uint32 gad.addr
  simp only [Gadget.entry, List.length_append, List.length_cons]
  omega

end AmigaDevbench.Daemon.Intuition
