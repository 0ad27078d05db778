import Mathlib.Logic.Function.Basic
import AmigaDevbench.Core.Runs
import AmigaDevbench.Core.Sizes

/-!
# The function patches of `snoop.c` and `pool_tracker.c`

Both trackers put their own routine into a library's vector with `SetFunction`. A patch routine
restores the saved pointer, calls the function through the vector and puts itself back; only the
two `SetFunction` calls are inside `Disable`. The machine below takes those steps for any number of
tasks, together with the daemon's start and stop.
-/

namespace AmigaDevbench.Patches

/-- The two users of the pattern. -/
inductive Tracker where
  | snoop | pool
  deriving DecidableEq

/-- The patched functions of `exec.library` and `dos.library`. -/
inductive LibraryFunction where
  | OpenLibrary | CloseLibrary | OpenDevice | CloseDevice
  | Open | Close | Lock | UnLock | LoadSeg | UnLoadSeg
  | CreatePool | DeletePool | AllocPooled | FreePooled
  deriving DecidableEq

/-- The functions a tracker patches, in the order in which it saves and clears their pointers. -/
def Tracker.functions : Tracker → List LibraryFunction
  | .snoop => [.OpenLibrary, .CloseLibrary, .OpenDevice, .CloseDevice, .Open, .Close, .Lock,
      .UnLock, .LoadSeg, .UnLoadSeg]
  | .pool => [.CreatePool, .DeletePool, .AllocPooled, .FreePooled]

/-- The tracker that patches a function. -/
def LibraryFunction.tracker : LibraryFunction → Tracker
  | .CreatePool | .DeletePool | .AllocPooled | .FreePooled => .pool
  | _ => .snoop

theorem mem_functions (f : LibraryFunction) (tracker : Tracker) :
    f ∈ tracker.functions ↔ f.tracker = tracker := by
  cases tracker <;> cases f <;> decide

/-- What a vector or an `orig_` variable points to. -/
inductive Pointer where
  | null
  | original (f : LibraryFunction)
  | patch (f : LibraryFunction)
  deriving DecidableEq

/-- How far a patch routine has come. -/
inductive Phase where
  /-- Before the first `Disable`. -/
  | entered
  /-- The saved pointer is back in the vector. -/
  | unhooked
  /-- The call through the vector has not returned. -/
  | calling
  /-- Before the second `Disable`. -/
  | returned
  /-- The patch is in the vector again. -/
  | rehooked
  deriving DecidableEq

/-- A call on a task's stack. `reached` counts the runs of the original on behalf of the call. -/
inductive Frame where
  | original (f : LibraryFunction)
  | patch (f : LibraryFunction) (phase : Phase) (reached : Nat)
  /-- The call jumped to address zero. -/
  | astray
  deriving DecidableEq

/-- The frame a jump to a pointer opens. -/
def Pointer.frame : Pointer → Frame
  | .null => .astray
  | .original f => .original f
  | .patch f => .patch f .entered 0

/-- The daemon is one of the tasks. -/
def daemon : Nat := 0

/-- Vectors, static variables, the daemon's position in a stop, and every task's calls. -/
structure Machine where
  /-- `g_active` of each tracker. -/
  active : Tracker → Bool
  /-- The library's jump table. -/
  vector : LibraryFunction → Pointer
  /-- The `orig_` variables. -/
  saved : LibraryFunction → Pointer
  /-- The variables that a stop under way has still to clear. -/
  clearing : List LibraryFunction
  /-- The calls of each task, innermost first. -/
  stack : Nat → List Frame
  /-- The calls that have returned, with the number of times each reached the original. -/
  returned : List (LibraryFunction × Nat)

/-- Neither tracker has been started. -/
def Machine.initial : Machine where
  active := fun _ => false
  vector := .original
  saved := fun _ => .null
  clearing := []
  stack := fun _ => []
  returned := []

/-- `SetFunction`: a new entry in the vector. -/
def Machine.setFunction (m : Machine) (f : LibraryFunction) (p : Pointer) : Machine :=
  { m with vector := Function.update m.vector f p }

/-- Replace a task's calls. -/
def Machine.setStack (m : Machine) (task : Nat) (frames : List Frame) : Machine :=
  { m with stack := Function.update m.stack task frames }

theorem setFunction_self (m : Machine) (f : LibraryFunction) (p : Pointer) :
    (m.setFunction f p).vector f = p :=
  Function.update_self ..

theorem setFunction_of_ne (m : Machine) {f g : LibraryFunction} (p : Pointer) (h : g ≠ f) :
    (m.setFunction f p).vector g = m.vector g :=
  Function.update_of_ne h ..

theorem setStack_self (m : Machine) (task : Nat) (frames : List Frame) :
    (m.setStack task frames).stack task = frames :=
  Function.update_self ..

theorem setStack_of_ne (m : Machine) {task other : Nat} (frames : List Frame)
    (h : other ≠ task) : (m.setStack task frames).stack other = m.stack other :=
  Function.update_of_ne h ..

/-- A call returns to the patch routine that made it, or to the code that called the function. -/
def Machine.ret (m : Machine) (task : Nat) (f : LibraryFunction) (reached : Nat) :
    List Frame → Machine
  | .patch g .calling count :: rest =>
    m.setStack task (.patch g .returned (count + reached) :: rest)
  | rest => { m.setStack task rest with returned := m.returned ++ [(f, reached)] }

/-- One step of a task inside a call. -/
def Machine.advance (m : Machine) (task : Nat) : Option Machine :=
  match m.stack task with
  | .original f :: rest => some (m.ret task f 1 rest)
  | .patch f .entered reached :: rest =>
    some ((m.setFunction f (m.saved f)).setStack task (.patch f .unhooked reached :: rest))
  | .patch f .unhooked reached :: rest =>
    some (m.setStack task ((m.vector f).frame :: .patch f .calling reached :: rest))
  | .patch f .returned reached :: rest =>
    some (({ m with saved := Function.update m.saved f (m.vector f) }.setFunction f
      (.patch f)).setStack task (.patch f .rehooked reached :: rest))
  | .patch f .rehooked reached :: rest => some (m.ret task f reached rest)
  | .patch _ .calling _ :: _ | .astray :: _ | [] => none

/-- Whether a task is in code that calls library functions by itself. -/
def Machine.canCall (m : Machine) (task : Nat) : Bool :=
  match m.stack task with
  | [] => task != daemon || m.clearing.isEmpty
  | .original _ :: _ => true
  | _ => false

/-- `snoop_start` and `pool_handle_start`. -/
def Machine.start (m : Machine) (tracker : Tracker) : Machine :=
  if m.active tracker then m
  else
    { m with
      active := Function.update m.active tracker true
      saved := fun f => if f ∈ tracker.functions then m.vector f else m.saved f
      vector := fun f => if f ∈ tracker.functions then .patch f else m.vector f }

/-- `snoop_stop` and `pool_handle_stop` up to the last `Enable`. -/
def Machine.stop (m : Machine) (tracker : Tracker) : Machine :=
  if m.active tracker then
    { m with
      active := Function.update m.active tracker false
      vector := fun f =>
        if f ∈ tracker.functions ∧ m.saved f ≠ .null then m.saved f else m.vector f
      clearing := tracker.functions }
  else m

/-- The moves of the tasks and of the daemon. -/
inductive Label where
  | call (task : Nat) (f : LibraryFunction)
  | advance (task : Nat)
  | start (tracker : Tracker)
  | stop (tracker : Tracker)
  /-- A stop under way sets the next `orig_` variable to `NULL`. -/
  | clear
  deriving DecidableEq

/-- The daemon starts and stops a tracker between its own calls, one command at a time. -/
def Machine.step (m : Machine) : Label → Option Machine
  | .call task f =>
    if m.canCall task then some (m.setStack task ((m.vector f).frame :: m.stack task)) else none
  | .advance task => m.advance task
  | .start tracker =>
    if m.stack daemon = [] ∧ m.clearing = [] then some (m.start tracker) else none
  | .stop tracker =>
    if m.stack daemon = [] ∧ m.clearing = [] then some (m.stop tracker) else none
  | .clear =>
    match m.clearing with
    | f :: rest => some { m with saved := Function.update m.saved f .null, clearing := rest }
    | [] => none

/-- A call of the patch routine of `f` is under way. -/
def Machine.InFlight (m : Machine) (f : LibraryFunction) : Prop :=
  ∃ task phase reached, .patch f phase reached ∈ m.stack task

/-- What a call in progress has reached so far, by the phase of its patch routine. -/
def Frame.Sound : Frame → Prop
  | .original _ => True
  | .patch _ .returned reached | .patch _ .rehooked reached => reached = 1
  | .patch _ _ reached => reached = 0
  | .astray => False

/-- The patches leave the library as it is: the saved pointers denote the originals, the calls
reach them, and a stop leaves the vectors as they were. -/
structure Faithful (m : Machine) : Prop where
  saved (f : LibraryFunction) : m.saved f = .null ∨ m.saved f = .original f
  savedWhileActive (f : LibraryFunction) (h : m.active f.tracker = true) :
    m.saved f = .original f
  vector (f : LibraryFunction) : m.vector f = .original f ∨ m.vector f = .patch f
  /-- A call that has returned reached the original once. -/
  once (call : LibraryFunction × Nat) (h : call ∈ m.returned) : call.2 = 1
  /-- A call in progress reached it once if the patch routine has its result, else not yet. -/
  underWay (task : Nat) (frame : Frame) (h : frame ∈ m.stack task) : frame.Sound
  /-- A call that enters the patch routine gets to the original by itself. -/
  reaches (task : Nat) (f : LibraryFunction) (reached : Nat) (rest : List Frame)
    (h : m.stack task = .patch f .entered reached :: rest) (hactive : m.active f.tracker = true) :
    ∃ m', (m.advance task).bind (·.advance task) = some m' ∧
      m'.stack task = .original f :: .patch f .calling reached :: rest
  restored (f : LibraryFunction) (hstopped : m.active f.tracker = false) (hdone : m.clearing = [])
    (hreturned : ¬ m.InFlight f) : m.vector f = .original f

/-- A patch routine restores a pointer that no stop has cleared, and it puts itself back while its
tracker runs and no other call has put it back. -/
def Permitted (m : Machine) : Label → Prop
  | .advance task =>
    match m.stack task with
    | .patch f .entered _ :: _ => m.saved f ≠ .null
    | .patch f .returned _ :: _ => m.active f.tracker = true ∧ m.vector f ≠ .patch f
    | _ => True
  | _ => True

/-- The invariant of the permitted runs. -/
structure Inv (m : Machine) : Prop where
  saved (f : LibraryFunction) : m.saved f = .null ∨ m.saved f = .original f
  active (f : LibraryFunction) (h : m.active f.tracker = true) : m.saved f = .original f
  inactive (f : LibraryFunction) (h : m.active f.tracker = false) : m.vector f = .original f
  vector (f : LibraryFunction) : m.vector f = .original f ∨ m.vector f = .patch f
  clearing (f : LibraryFunction) (h : f ∈ m.clearing) : m.active f.tracker = false
  once (call : LibraryFunction × Nat) (h : call ∈ m.returned) : call.2 = 1
  frames (task : Nat) (frame : Frame) (h : frame ∈ m.stack task) : frame.Sound

theorem inv_initial : Inv .initial where
  saved _ := .inl rfl
  active _ h := nomatch h
  inactive _ _ := rfl
  vector _ := .inl rfl
  clearing _ h := nomatch h
  once _ h := nomatch h
  frames _ _ h := nomatch h

section Steps

variable {m : Machine} {task : Nat}

/-- Only sound frames go on a stack. -/
theorem Inv.setStack (h : Inv m) {frames : List Frame}
    (hframes : ∀ frame ∈ frames, frame.Sound) : Inv (m.setStack task frames) where
  saved := h.saved
  active := h.active
  inactive := h.inactive
  vector := h.vector
  clearing := h.clearing
  once := h.once
  frames other frame hmem := by
    by_cases hother : other = task
    · subst hother
      rw [setStack_self] at hmem
      exact hframes frame hmem
    · rw [setStack_of_ne m frames hother] at hmem
      exact h.frames other frame hmem

/-- A jump through a vector opens a sound frame. -/
theorem Inv.sound_frame (h : Inv m) (f : LibraryFunction) : (m.vector f).frame.Sound := by
  rcases h.vector f with hvector | hvector
  · rw [hvector]
    trivial
  · rw [hvector]
    rfl

/-- The frames below the innermost one are sound. -/
theorem Inv.rest (h : Inv m) {frame : Frame} {rest : List Frame}
    (hstack : m.stack task = frame :: rest) : ∀ below ∈ rest, below.Sound := by
  intro below hmem
  exact h.frames task below (by rw [hstack]; exact List.mem_cons_of_mem _ hmem)

/-- The innermost frame is sound. -/
theorem Inv.top (h : Inv m) {frame : Frame} {rest : List Frame}
    (hstack : m.stack task = frame :: rest) : frame.Sound :=
  h.frames task frame (by rw [hstack]; exact List.mem_cons_self)

/-- A call that reached the original once returns soundly. -/
theorem Inv.ret (h : Inv m) (f : LibraryFunction) {rest : List Frame}
    (hrest : ∀ below ∈ rest, below.Sound) : Inv (m.ret task f 1 rest) := by
  have houtside : Inv { m.setStack task rest with returned := m.returned ++ [(f, 1)] } := by
    have hstack : Inv (m.setStack task rest) := h.setStack hrest
    refine { hstack with once := ?_ }
    intro call hcall
    rcases List.mem_append.mp hcall with hold | hnew
    · exact h.once call hold
    · rw [List.mem_singleton.mp hnew]
  unfold Machine.ret
  split
  · rename_i g count below
    have hcount : count = 0 := hrest _ List.mem_cons_self
    apply h.setStack
    intro frame hmem
    rcases List.mem_cons.mp hmem with heq | hbelow
    · rw [heq, hcount]
      rfl
    · exact hrest frame (List.mem_cons_of_mem _ hbelow)
  · exact houtside

/-- The saved pointer goes back into the vector. -/
theorem Inv.unhook (h : Inv m) {f : LibraryFunction} (hsaved : m.saved f ≠ .null) :
    Inv (m.setFunction f (m.saved f)) := by
  have horiginal : m.saved f = .original f := (h.saved f).resolve_left hsaved
  have hvector (g : LibraryFunction) : (m.setFunction f (m.saved f)).vector g = .original g ∨
      (m.setFunction f (m.saved f)).vector g = m.vector g := by
    by_cases hg : g = f
    · subst hg
      exact .inl (by rw [setFunction_self, horiginal])
    · exact .inr (setFunction_of_ne m _ hg)
  refine { h with inactive := ?_, vector := ?_ }
  · intro g hinactive
    rcases hvector g with heq | heq
    · exact heq
    · rw [heq, h.inactive g hinactive]
  · intro g
    rcases hvector g with heq | heq
    · exact .inl heq
    · rw [heq]
      exact h.vector g

/-- The patch goes back into the vector, and the original is saved. -/
theorem Inv.rehook (h : Inv m) {f : LibraryFunction} (hactive : m.active f.tracker = true)
    (hvector : m.vector f ≠ .patch f) :
    Inv ({ m with saved := Function.update m.saved f (m.vector f) }.setFunction f (.patch f)) := by
  have horiginal : m.vector f = .original f := (h.vector f).resolve_right hvector
  have hsaved (g : LibraryFunction) : Function.update m.saved f (m.vector f) g = .original g ∨
      Function.update m.saved f (m.vector f) g = m.saved g := by
    by_cases hg : g = f
    · subst hg
      exact .inl (by rw [Function.update_self, horiginal])
    · exact .inr (by rw [Function.update_of_ne hg])
  refine { h with saved := ?_, active := ?_, inactive := ?_, vector := ?_ }
  · intro g
    rcases hsaved g with heq | heq
    · exact .inr heq
    · exact (h.saved g).imp heq.trans heq.trans
  · intro g hg
    rcases hsaved g with heq | heq
    · exact heq
    · exact heq.trans (h.active g hg)
  · intro g hg
    have hne : g ≠ f := by
      intro heq
      rw [heq] at hg
      exact nomatch hactive.symm.trans hg
    rw [setFunction_of_ne _ _ hne]
    exact h.inactive g hg
  · intro g
    by_cases hg : g = f
    · subst hg
      exact .inr (setFunction_self ..)
    · rw [setFunction_of_ne _ _ hg]
      exact h.vector g

theorem Inv.advance (h : Inv m) (hpermitted : Permitted m (.advance task)) {m' : Machine}
    (hstep : m.advance task = some m') : Inv m' := by
  have hset (next : Machine) (hnext : Inv next) {frame : Frame} {rest : List Frame}
      (hframe : frame.Sound) (hrest : ∀ below ∈ rest, below.Sound) :
      Inv (next.setStack task (frame :: rest)) :=
    hnext.setStack (List.forall_mem_cons.mpr ⟨hframe, hrest⟩)
  unfold Machine.advance at hstep
  simp only [Permitted] at hpermitted
  split at hstep
  · rename_i f rest hstack
    cases hstep
    exact h.ret f (h.rest hstack)
  · rename_i f reached rest hstack
    cases hstep
    rw [hstack] at hpermitted
    have hnone : reached = 0 := h.top hstack
    exact hset _ (h.unhook hpermitted) hnone (h.rest hstack)
  · rename_i f reached rest hstack
    cases hstep
    have hnone : reached = 0 := h.top hstack
    exact hset m h (h.sound_frame f)
      (List.forall_mem_cons.mpr ⟨hnone, h.rest hstack⟩)
  · rename_i f reached rest hstack
    cases hstep
    rw [hstack] at hpermitted
    have honce : reached = 1 := h.top hstack
    exact hset _ (h.rehook hpermitted.1 hpermitted.2) honce (h.rest hstack)
  · rename_i f reached rest hstack
    cases hstep
    have honce : reached = 1 := h.top hstack
    rw [honce]
    exact h.ret f (h.rest hstack)
  all_goals cases hstep

theorem Inv.start (h : Inv m) (hclearing : m.clearing = []) (tracker : Tracker) :
    Inv (m.start tracker) := by
  unfold Machine.start
  split
  · exact h
  · rename_i hactive
    have hbefore (f : LibraryFunction) (hf : f.tracker = tracker) : m.vector f = .original f :=
      h.inactive f (by rw [hf]; exact Bool.eq_false_iff.mpr hactive)
    refine { h with saved := ?_, active := ?_, inactive := ?_, vector := ?_, clearing := ?_ }
    · intro f
      simp only [mem_functions]
      split
      · rename_i hf
        exact .inr (hbefore f hf)
      · exact h.saved f
    · intro f hf
      simp only [mem_functions]
      split
      · rename_i hmem
        exact hbefore f hmem
      · rename_i hne
        exact h.active f ((Function.update_of_ne hne ..).symm.trans hf)
    · intro f hf
      have hne : f.tracker ≠ tracker := by
        intro heq
        simp only [heq, Function.update_self, Bool.true_eq_false] at hf
      simp only [mem_functions, if_neg hne]
      exact h.inactive f ((Function.update_of_ne hne ..).symm.trans hf)
    · intro f
      simp only [mem_functions]
      split
      · exact .inr rfl
      · exact h.vector f
    · intro f hf
      rw [hclearing] at hf
      exact nomatch hf

theorem Inv.stop (h : Inv m) (tracker : Tracker) : Inv (m.stop tracker) := by
  unfold Machine.stop
  split
  · rename_i hactive
    have hsaved (f : LibraryFunction) (hf : f.tracker = tracker) :
        m.saved f = .original f := h.active f (by rw [hf]; exact hactive)
    have hvector (f : LibraryFunction) : (if f ∈ tracker.functions ∧ m.saved f ≠ .null
        then m.saved f else m.vector f) = if f.tracker = tracker then .original f
        else m.vector f := by
      by_cases hf : f.tracker = tracker
      · simp [mem_functions, hf, hsaved f hf]
      · simp [mem_functions, hf]
    refine { h with active := ?_, inactive := ?_, vector := ?_, clearing := ?_ }
    · intro f hf
      have hne : f.tracker ≠ tracker := by
        intro heq
        simp only [heq, Function.update_self, Bool.false_eq_true] at hf
      exact h.active f ((Function.update_of_ne hne ..).symm.trans hf)
    · intro f hf
      simp only [hvector]
      split
      · rfl
      · rename_i hne
        exact h.inactive f ((Function.update_of_ne hne ..).symm.trans hf)
    · intro f
      simp only [hvector]
      split
      · exact .inl rfl
      · exact h.vector f
    · intro f hf
      simp only [(mem_functions f tracker).mp hf, Function.update_self]
  · exact h

theorem Inv.clear (h : Inv m) {f : LibraryFunction} {rest : List LibraryFunction}
    (hclearing : m.clearing = f :: rest) :
    Inv { m with saved := Function.update m.saved f .null, clearing := rest } := by
  have hinactive : m.active f.tracker = false :=
    h.clearing f (by rw [hclearing]; exact List.mem_cons_self)
  refine { h with saved := ?_, active := ?_, clearing := ?_ }
  · intro g
    by_cases hg : g = f
    · subst hg
      exact .inl (Function.update_self ..)
    · have heq := Function.update_of_ne hg Pointer.null m.saved
      exact (h.saved g).imp heq.trans heq.trans
  · intro g hactive
    have hne : g ≠ f := by
      intro heq
      rw [heq] at hactive
      exact nomatch hactive.symm.trans hinactive
    exact (Function.update_of_ne hne ..).trans (h.active g hactive)
  · intro g hmem
    exact h.clearing g (by rw [hclearing]; exact List.mem_cons_of_mem _ hmem)

theorem inv_step {m' : Machine} {label : Label} (h : Inv m) (hpermitted : Permitted m label)
    (hstep : m.step label = some m') : Inv m' := by
  cases label with
  | call task f =>
    obtain ⟨_, hnext⟩ := Option.ite_none_right_eq_some.mp hstep
    cases hnext
    exact h.setStack (List.forall_mem_cons.mpr ⟨h.sound_frame f, h.frames task⟩)
  | advance task => exact h.advance hpermitted hstep
  | start tracker =>
    obtain ⟨⟨_, hclearing⟩, hnext⟩ := Option.ite_none_right_eq_some.mp hstep
    cases hnext
    exact h.start hclearing tracker
  | stop tracker =>
    obtain ⟨_, hnext⟩ := Option.ite_none_right_eq_some.mp hstep
    cases hnext
    exact h.stop tracker
  | clear =>
    simp only [Machine.step] at hstep
    split at hstep
    · rename_i f rest hclearing
      cases hstep
      exact h.clear hclearing
    · cases hstep

end Steps

/-- A call that enters the patch routine restores the original and calls it. -/
theorem Inv.reaches {m : Machine} (h : Inv m) {task : Nat} {f : LibraryFunction} {reached : Nat}
    {rest : List Frame} (hstack : m.stack task = .patch f .entered reached :: rest)
    (hactive : m.active f.tracker = true) :
    ∃ m', (m.advance task).bind (·.advance task) = some m' ∧
      m'.stack task = .original f :: .patch f .calling reached :: rest := by
  have hsaved := h.active f hactive
  have hunhook : m.advance task =
      some ((m.setFunction f (m.saved f)).setStack task (.patch f .unhooked reached :: rest)) := by
    simp only [Machine.advance, hstack]
  have hcall (next : Machine) (hnext : next.stack task = .patch f .unhooked reached :: rest) :
      next.advance task =
        some (next.setStack task ((next.vector f).frame :: .patch f .calling reached :: rest)) := by
    simp only [Machine.advance, hnext]
  refine ⟨_, Option.bind_eq_some_iff.mpr ⟨_, hunhook, hcall _ (setStack_self ..)⟩, ?_⟩
  rw [setStack_self]
  change ((m.setFunction f (m.saved f)).vector f).frame :: _ = _
  rw [setFunction_self, hsaved]
  rfl

theorem Inv.faithful {m : Machine} (h : Inv m) : Faithful m where
  saved := h.saved
  savedWhileActive := h.active
  vector := h.vector
  once := h.once
  underWay := h.frames
  reaches _ _ _ _ hstack hactive := h.reaches hstack hactive
  restored f hstopped _ _ := h.inactive f hstopped

/-- In every run in which no patch routine puts itself back after a stop or after another call has
done so, and none restores a cleared pointer, the vectors stay sound. -/
theorem patches_faithful {m : Machine}
    (hrun : Reaches Machine.step Permitted .initial m) : Faithful m :=
  (hrun.invariant Inv inv_initial fun _ _ _ h hpermitted hstep =>
    inv_step h hpermitted hstep).faithful

instance (m : Machine) : (label : Label) → Decidable (Permitted m label)
  | .advance task =>
    match h : m.stack task with
    | .patch f .entered _ :: _ =>
      decidable_of_iff (m.saved f ≠ .null) (by simp only [Permitted, h])
    | .patch f .returned _ :: _ =>
      decidable_of_iff (m.active f.tracker = true ∧ m.vector f ≠ .patch f)
        (by simp only [Permitted, h])
    | [] | .original _ :: _ | .astray :: _ | .patch _ .unhooked _ :: _
    | .patch _ .calling _ :: _ | .patch _ .rehooked _ :: _ =>
      isTrue (by simp only [Permitted, h])
  | .call _ _ | .start _ | .stop _ | .clear => isTrue trivial

/-- A task calls `Open` while snooping and has the patch routine call the original. -/
def openFile (task : Nat) : List Label := .call task .Open :: List.replicate 2 (.advance task)

/-- The original returns, the patch routine puts itself back and returns. -/
def finishOpen (task : Nat) : List Label := List.replicate 3 (.advance task)

/-- A tracker stops and clears its pointers. -/
def stopTracker (tracker : Tracker) : List Label :=
  .stop tracker :: List.replicate tracker.functions.length .clear

/-- A call inside another task's call goes to the original, as does one after the stop. -/
theorem patches_faithful_open :
    ∃ m, Reaches Machine.step Permitted .initial m ∧
      m.returned = [(.Open, 1), (.Open, 1), (.Open, 1)] ∧ m.vector .Open = .original .Open ∧
      Faithful m := by
  have hend : (runLabels Machine.step .initial (.start .snoop :: openFile 1 ++
      [.call 2 .Open, .advance 2] ++ finishOpen 1 ++ stopTracker .snoop ++
      [.call 2 .Open, .advance 2])).map (fun m => (m.returned, m.vector .Open)) =
      some ([(.Open, 1), (.Open, 1), (.Open, 1)], .original .Open) := by decide
  have hpermitted : AllPermitted Machine.step Permitted .initial (.start .snoop :: openFile 1 ++
      [.call 2 .Open, .advance 2] ++ finishOpen 1 ++ stopTracker .snoop ++
      [.call 2 .Open, .advance 2]) := by decide
  obtain ⟨m, hrun, hresult⟩ := Option.map_eq_some_iff.mp hend
  have hreaches := Reaches.refl.of_labels hrun hpermitted
  exact ⟨m, hreaches, (Prod.mk.inj hresult).1, (Prod.mk.inj hresult).2,
    patches_faithful hreaches⟩

/-- A stop during a call leaves the patch in the vector, and the next start saves the patch as the
original. -/
theorem patches_not_faithful :
    ¬ ∀ m, Reaches Machine.step (fun _ _ => True) .initial m → Faithful m := by
  intro hall
  have hend : (runLabels Machine.step .initial (.start .snoop :: openFile 1 ++
      stopTracker .snoop ++ finishOpen 1 ++ [.start .snoop])).map (fun m => m.saved .Open) =
      some (.patch .Open) := by decide
  obtain ⟨m, hrun, hsaved⟩ := Option.map_eq_some_iff.mp hend
  have hreaches := Reaches.refl.of_labels hrun (allPermitted_true ..)
  rcases (hall m hreaches).saved .Open with hnull | horiginal
  · exact nomatch hsaved.symm.trans hnull
  · exact nomatch hsaved.symm.trans horiginal

end AmigaDevbench.Patches
