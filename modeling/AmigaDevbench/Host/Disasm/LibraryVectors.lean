import AmigaDevbench.Core.Text

/-!
# The library vectors of the disassembler

Offsets of library functions from the library base, one jump of six bytes each. Functions next to
each other are listed as a run, from the highest offset down.
-/

namespace AmigaDevbench.Disasm

/-- Functions six bytes apart, the first at the highest offset. -/
structure Run where
  first : Int
  names : List String

namespace Run

/-- The function at an offset. -/
def get? (r : Run) (offset : Int) : Option String :=
  if offset ≤ r.first ∧ (r.first - offset) % 6 = 0 then r.names[((r.first - offset) / 6).toNat]?
  else none

end Run

def execLvos : List Run := [
  ⟨-0x1E, ["Supervisor", "execPrivate1", "execPrivate2", "execPrivate3", "execPrivate4",
    "execPrivate5", "execPrivate6", "InitCode", "InitStruct", "MakeLibrary", "MakeFunctions",
    "FindResident", "InitResident", "Alert", "Debug", "Disable", "Enable", "Forbid", "Permit",
    "SetSR", "SuperState", "UserState", "SetIntVector", "AddIntServer", "RemIntServer", "Cause",
    "Allocate", "Deallocate", "AllocMem", "AllocAbs", "FreeMem", "AvailMem", "AllocEntry",
    "FreeEntry", "Insert", "AddHead", "AddTail", "Remove", "RemHead", "RemTail", "Enqueue",
    "FindName", "AddTask", "RemTask", "FindTask", "SetTaskPri", "SetSignal", "SetExcept", "Wait",
    "Signal", "AllocSignal", "FreeSignal", "AllocTrap", "FreeTrap", "AddPort", "RemPort",
    "PutMsg", "GetMsg", "ReplyMsg", "WaitPort", "FindPort", "AddLibrary", "RemLibrary",
    "OldOpenLibrary", "CloseLibrary", "SetFunction", "SumLibrary", "AddDevice", "RemDevice",
    "OpenDevice", "CloseDevice", "DoIO", "SendIO", "CheckIO", "WaitIO", "AbortIO", "AddResource",
    "RemResource", "OpenResource", "execPrivate7", "execPrivate8", "execPrivate9", "RawDoFmt",
    "GetCC", "TypeOfMem", "Procure", "Vacate", "OpenLibrary", "InitSemaphore", "ObtainSemaphore",
    "ReleaseSemaphore", "AttemptSemaphore", "ObtainSemaphoreList", "ReleaseSemaphoreList",
    "FindSemaphore", "AddSemaphore", "RemSemaphore", "SumKickData", "AddMemList", "CopyMem",
    "CopyMemQuick", "CacheClearU", "CacheClearE", "CacheControl", "CreateIORequest",
    "DeleteIORequest", "CreateMsgPort", "DeleteMsgPort", "ObtainSemaphoreShared", "AllocVec",
    "FreeVec", "CreatePool", "DeletePool", "AllocPooled", "FreePooled", "AttemptSemaphoreShared",
    "ColdReboot", "StackSwap", "execPrivate10", "execPrivate11", "execPrivate12", "execPrivate13",
    "CachePreDMA", "CachePostDMA", "AddMemHandler", "RemMemHandler", "ObtainQuickVector",
    "execPrivate14", "execPrivate15", "execPrivate16", "execPrivate17", "execPrivate18",
    "execPrivate19", "NewMinList", "execPrivate20", "execPrivate21", "execPrivate22",
    "execPrivate23", "execPrivate24", "execPrivate25", "execPrivate26", "execPrivate27",
    "execPrivate28", "execPrivate29", "execPrivate30", "execPrivate31", "execPrivate32",
    "execPrivate33"]⟩]

def dosLvos : List Run := [
  ⟨-0x1E, ["Open", "Close", "Read", "Write", "Input", "Output", "Seek", "DeleteFile", "Rename",
    "Lock", "UnLock", "DupLock", "Examine", "ExNext", "Info", "CreateDir", "CurrentDir", "IoErr",
    "CreateProc", "Exit", "LoadSeg", "UnLoadSeg", "dosPrivate1", "dosPrivate2", "DeviceProc",
    "SetComment", "SetProtection", "DateStamp", "Delay", "WaitForChar", "ParentDir",
    "IsInteractive", "Execute", "AllocDosObject", "FreeDosObject", "DoPkt", "SendPkt", "WaitPkt",
    "ReplyPkt", "AbortPkt", "LockRecord", "LockRecords", "UnLockRecord", "UnLockRecords",
    "SelectInput", "SelectOutput", "FGetC", "FPutC", "UnGetC", "FRead", "FWrite", "FGets",
    "FPuts", "VFWritef", "VFPrintf", "Flush", "SetVBuf", "DupLockFromFH", "OpenFromLock",
    "ParentOfFH", "ExamineFH", "SetFileDate", "NameFromLock", "NameFromFH", "SplitName",
    "SameLock", "SetMode", "ExAll", "ReadLink", "MakeLink", "ChangeMode", "SetFileSize",
    "SetIoErr", "Fault", "PrintFault", "ErrorReport"]⟩,
  ⟨-0x1EC, ["Cli", "CreateNewProc", "RunCommand", "GetConsoleTask", "SetConsoleTask",
    "GetFileSysTask", "SetFileSysTask", "GetArgStr", "SetArgStr", "FindCliProc", "MaxCli",
    "SetCurrentDirName", "GetCurrentDirName", "SetProgramName", "GetProgramName", "SetPrompt",
    "GetPrompt", "SetProgramDir", "GetProgramDir", "SystemTagList", "AssignLock", "AssignLate",
    "AssignPath", "AssignAdd", "RemAssignList", "GetDeviceProc", "FreeDeviceProc", "LockDosList",
    "UnLockDosList", "AttemptLockDosList", "RemDosEntry", "AddDosEntry", "FindDosEntry",
    "NextDosEntry", "MakeDosEntry", "FreeDosEntry", "IsFileSystem", "Format", "Relabel",
    "Inhibit", "AddBuffers", "CompareDates", "DateToStr", "StrToDate", "InternalLoadSeg",
    "InternalUnLoadSeg", "NewLoadSeg", "AddSegment", "FindSegment", "RemSegment", "CheckSignal",
    "ReadArgs", "FindArg", "ReadItem", "StrToLong", "MatchFirst", "MatchNext", "MatchEnd",
    "ParsePattern", "MatchPattern", "dosPrivate3", "FreeArgs"]⟩,
  ⟨-0x366, ["FilePart", "PathPart", "AddPart", "StartNotify", "EndNotify", "SetVar", "GetVar",
    "DeleteVar", "FindVar", "dosPrivate4", "CliInitNewcli", "CliInitRun", "WriteChars", "PutStr",
    "VPrintf", "dosPrivate5", "ParsePatternNoCase", "MatchPatternNoCase", "dosPrivate6",
    "SameDevice", "ExAllEnd", "SetOwner"]⟩,
  ⟨-0x3F6, ["VolumeRequestHook", "dosPrivate7", "GetCurrentDir"]⟩,
  ⟨-0x468, ["PutErrStr", "ErrorOutput", "SelectError"]⟩,
  ⟨-0x480, ["DoShellMethodTagList", "ScanStackToken"]⟩]

def intuitionLvos : List Run := [
  ⟨-0x1E, ["OpenIntuition", "Intuition", "AddGadget", "ClearDMRequest", "ClearMenuStrip",
    "ClearPointer", "CloseScreen", "CloseWindow", "CloseWorkBench", "CurrentTime", "DisplayAlert",
    "DisplayBeep", "DoubleClick", "DrawBorder", "DrawImage", "EndRequest", "GetDefPrefs",
    "GetPrefs", "InitRequester", "ItemAddress", "ModifyIDCMP", "ModifyProp", "MoveScreen",
    "MoveWindow", "OffGadget", "OffMenu", "OnGadget", "OnMenu", "OpenScreen", "OpenWindow",
    "OpenWorkBench", "PrintIText", "RefreshGadgets", "RemoveGadget", "ReportMouse", "Request",
    "ScreenToBack", "ScreenToFront", "SetDMRequest", "SetMenuStrip", "SetPointer",
    "SetWindowTitles", "ShowTitle", "SizeWindow", "ViewAddress", "ViewPortAddress",
    "WindowToBack", "WindowToFront", "WindowLimits", "SetPrefs", "IntuiTextLength",
    "WBenchToBack", "WBenchToFront", "AutoRequest", "BeginRefresh", "BuildSysRequest",
    "EndRefresh", "FreeSysRequest", "MakeScreen", "RemakeDisplay", "RethinkDisplay",
    "AllocRemember", "AlohaWorkbench", "FreeRemember", "LockIBase", "UnlockIBase",
    "GetScreenData", "RefreshGList", "AddGList", "RemoveGList", "ActivateWindow",
    "RefreshWindowFrame", "ActivateGadget", "NewModifyProp", "QueryOverscan",
    "MoveWindowInFrontOf", "ChangeWindowBox", "SetEditHook", "SetMouseQueue", "ZipWindow",
    "LockPubScreen", "UnlockPubScreen", "LockPubScreenList", "UnlockPubScreenList",
    "NextPubScreen", "SetDefaultPubScreen", "SetPubScreenModes", "PubScreenStatus",
    "ObtainGIRPort", "ReleaseGIRPort", "GadgetMouse", "intuitionPrivate1", "GetDefaultPubScreen",
    "EasyRequestArgs", "BuildEasyRequestArgs", "SysReqHandler", "OpenWindowTagList",
    "OpenScreenTagList", "DrawImageState", "PointInImage", "EraseImage", "NewObjectA",
    "DisposeObject", "SetAttrsA", "GetAttr", "SetGadgetAttrsA", "NextObject", "intuitionPrivate2",
    "MakeClass", "AddClass", "GetScreenDrawInfo", "FreeScreenDrawInfo", "ResetMenuStrip",
    "RemoveClass", "FreeClass", "intuitionPrivate3", "intuitionPrivate4"]⟩,
  ⟨-0x300, ["AllocScreenBuffer", "FreeScreenBuffer", "ChangeScreenBuffer", "ScreenDepth",
    "ScreenPosition", "ScrollWindowRaster", "LendMenus", "DoGadgetMethodA", "SetWindowPointerA",
    "TimedDisplayAlert", "HelpControl", "ShowWindow", "HideWindow"]⟩,
  ⟨-0x4BC, ["IntuitionControlA"]⟩]

def gfxLvos : List Run := [
  ⟨-0x1E, ["BltBitMap", "BltTemplate", "ClearEOL", "ClearScreen", "TextLength", "Text", "SetFont",
    "OpenFont", "CloseFont", "AskSoftStyle", "SetSoftStyle", "AddBob", "AddVSprite",
    "DoCollision", "DrawGList", "InitGels", "InitMasks", "RemIBob", "RemVSprite", "SetCollision",
    "SortGList", "AddAnimOb", "Animate", "GetGBuffers", "InitGMasks", "DrawEllipse",
    "AreaEllipse", "LoadRGB4", "InitRastPort", "InitVPort", "MrgCop", "MakeVPort", "LoadView",
    "WaitBlit", "SetRast", "Move", "Draw", "AreaMove", "AreaDraw", "AreaEnd", "WaitTOF", "QBlit",
    "InitArea", "SetRGB4", "QBSBlit", "BltClear", "RectFill", "BltPattern", "ReadPixel",
    "WritePixel", "Flood", "PolyDraw", "SetAPen", "SetBPen", "SetDrMd", "InitView", "CBump",
    "CMove", "CWait", "VBeamPos", "InitBitMap", "ScrollRaster", "WaitBOVP", "GetSprite",
    "FreeSprite", "ChangeSprite", "MoveSprite", "LockLayerRom", "UnlockLayerRom", "SyncSBitMap",
    "CopySBitMap", "OwnBlitter", "DisownBlitter", "InitTmpRas", "AskFont", "AddFont", "RemFont",
    "AllocRaster", "FreeRaster", "AndRectRegion", "OrRectRegion", "NewRegion", "ClearRectRegion",
    "ClearRegion", "DisposeRegion", "FreeVPortCopLists", "FreeCopList", "ClipBlit",
    "XorRectRegion", "FreeCprList", "GetColorMap", "FreeColorMap", "GetRGB4", "ScrollVPort",
    "UCopperListInit", "FreeGBuffers", "BltBitMapRastPort", "OrRegionRegion", "XorRegionRegion",
    "AndRegionRegion", "SetRGB4CM", "BltMaskBitMapRastPort", "graphicsPrivate1",
    "graphicsPrivate2", "AttemptLockLayerRom", "GfxNew", "GfxFree", "GfxAssociate", "BitMapScale",
    "ScalerDiv", "TextExtent", "TextFit", "GfxLookUp", "VideoControl", "OpenMonitor",
    "CloseMonitor", "FindDisplayInfo", "NextDisplayInfo", "graphicsPrivate3", "graphicsPrivate4",
    "graphicsPrivate5", "GetDisplayInfoData", "FontExtent", "ReadPixelLine8", "WritePixelLine8",
    "ReadPixelArray8", "WritePixelArray8", "GetVPModeID", "ModeNotAvailable", "WeighTAMatch",
    "EraseRect", "ExtendFont", "StripFont", "CalcIVG", "AttachPalExtra", "ObtainBestPenA",
    "graphicsPrivate6", "SetRGB32", "GetAPen", "GetBPen", "GetDrMd", "GetOutlinePen", "LoadRGB32",
    "SetChipRev", "SetABPenDrMd", "GetRGB32", "graphicsPrivate7", "graphicsPrivate8",
    "AllocBitMap", "FreeBitMap", "GetExtSpriteA", "CoerceMode", "ChangeVPBitMap", "ReleasePen",
    "ObtainPen", "GetBitMapAttr", "AllocDBufInfo", "FreeDBufInfo", "SetOutlinePen",
    "SetWriteMask", "SetMaxPen", "SetRGB32CM", "ScrollRasterBF", "FindColor", "graphicsPrivate9",
    "AllocSpriteDataA", "ChangeExtSpriteA", "FreeSpriteData", "SetRPAttrsA", "GetRPAttrsA",
    "BestModeIDA", "WriteChunkyPixels"]⟩]

/-- The libraries in the order in which they are searched. -/
def allLvos : List (String × List Run) :=
  [("exec", execLvos), ("dos", dosLvos), ("intuition", intuitionLvos), ("gfx", gfxLvos)]

/-- The name of a vector: that of the first library that has one at the offset, marked with the
library unless it is Exec. -/
def lvoName (offset : Int) : Option Text :=
  allLvos.findSome? fun (lib, table) => do
    let name ← table.findSome? (·.get? offset)
    return if lib ≠ "exec" then name.toList ++ " [".toList ++ lib.toList ++ "]".toList
      else name.toList

example : lvoName (-552) = some "OpenLibrary".toList := by decide

end AmigaDevbench.Disasm
