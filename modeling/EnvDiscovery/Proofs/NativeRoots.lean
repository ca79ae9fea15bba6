import EnvDiscovery.Proofs.Spellings
import EnvDiscovery.Proofs.WorkspaceRuns

/-!
**Directories that are watched natively.**

A watcher is told of every folder that is opened or closed, and watches natively below the folders
it was told of. It tells folders apart by their components, where the host goes by their places. So
a folder that is closed in another spelling than it was opened in is left behind: it is open no
longer, and what lies below it is still watched natively.

Main definitions:
* `NativeRoots.Spells` — the native roots are spelled like a list of paths;
* `Session.leftBehind` — the folders that a run leaves behind;
* `Session.NativeRootsAt` — the native roots are the open folders and some that were left behind.

Main results:
* `NativeRoots.Spells.add`, `NativeRoots.Spells.remove` — what opening and closing a folder does to
  the spellings;
* `Session.NativeRootsAt.step`, `Session.NativeRootsAt.acts` — what a step and a run keep;
* `Session.native_below_open_or_left_folders` — **which directories are watched natively**, and that
  these are the ones below open folders if folders are closed in the spelling they were opened in;
* `Session.native_below_closed_folder` — a directory below no open folder that is watched natively.
-/

namespace EnvDiscovery

/-! ### Spellings -/

namespace NativeRoots

variable {n : NativeRoots} {paths : List Path} {root : Path} {cs : List Path.Component}

theorem mem_components_add :
    cs ∈ (n.add root).roots.map Path.components ↔ cs ∈ n.roots.map Path.components ∨
    cs = root.components := by
  rw [add]
  split
  case isTrue h =>
    obtain ⟨p, hp, hsame⟩ := List.any_eq_true.1 h
    constructor
    · exact Or.inl
    · rintro (hcs | rfl)
      · exact hcs
      · exact List.mem_map.2 ⟨p, hp, Path.sameComponents_iff.1 hsame⟩
  case isFalse h => simp

theorem mem_components_remove :
    cs ∈ (n.remove root).roots.map Path.components ↔ cs ∈ n.roots.map Path.components ∧
    cs ≠ root.components := by
  rw [remove]
  constructor
  · intro hcs
    obtain ⟨p, hp, rfl⟩ := List.mem_map.1 hcs
    obtain ⟨hp, hother⟩ := List.mem_filter.1 hp
    refine ⟨List.mem_map_of_mem hp, fun heq => ?_⟩
    rw [Path.sameComponents_iff.2 heq] at hother
    cases hother
  · rintro ⟨hcs, hne⟩
    obtain ⟨p, hp, rfl⟩ := List.mem_map.1 hcs
    refine List.mem_map_of_mem (List.mem_filter.2 ⟨hp, ?_⟩)
    simpa [Path.sameComponents] using hne

/-- The native roots are spelled like the given paths. -/
def Spells (n : NativeRoots) (paths : List Path) : Prop :=
  ∀ cs, cs ∈ n.roots.map Path.components ↔ cs ∈ paths.map Path.components

/-- Native watching is watching below paths of the same spellings. -/
theorem Spells.isNative_iff (h : n.Spells paths) (dir : Path) :
    n.isNative dir = true ↔ ∃ p ∈ paths, dir.within p = true := by
  rw [isNative, List.any_eq_true]
  constructor
  · rintro ⟨p, hp, hdir⟩
    obtain ⟨q, hq, heq⟩ := List.mem_map.1 ((h p.components).1 (List.mem_map_of_mem hp))
    exact ⟨q, hq, (Path.within_congr heq dir).trans hdir⟩
  · rintro ⟨p, hp, hdir⟩
    obtain ⟨q, hq, heq⟩ := List.mem_map.1 ((h p.components).2 (List.mem_map_of_mem hp))
    exact ⟨q, hq, (Path.within_congr heq dir).trans hdir⟩

theorem Spells.add {folders left : List Path} (h : n.Spells (folders ++ left)) (root : Path) :
    (n.add root).Spells (folders ++ [root] ++ left) := by
  intro cs
  rw [mem_components_add, h cs]
  simp only [List.map_append, List.mem_append, List.map_cons, List.map_nil, List.mem_singleton]
  exact or_right_comm

/-- When a folder is closed, the other spellings of it stay. -/
theorem Spells.remove {folders left : List Path} (h : n.Spells (folders ++ left)) (root : Path) :
    (n.remove root).Spells (folders.filter (!·.samePlace root) ++
      (left ++ folders.filter (·.samePlace root)).filter (!·.sameComponents root)) := by
  intro cs
  rw [mem_components_remove, h cs]
  constructor
  · rintro ⟨hcs, hne⟩
    obtain ⟨p, hp, rfl⟩ := List.mem_map.1 hcs
    have hother : (!p.sameComponents root) = true := by simpa [Path.sameComponents] using hne
    refine List.mem_map_of_mem ?_
    cases hplace : p.samePlace root with
    | false =>
        rcases List.mem_append.1 hp with hp | hp
        · exact List.mem_append_left _ (List.mem_filter.2 ⟨hp, by rw [hplace]; rfl⟩)
        · exact List.mem_append_right _ (List.mem_filter.2 ⟨List.mem_append_left _ hp, hother⟩)
    | true =>
        refine List.mem_append_right _ (List.mem_filter.2 ⟨?_, hother⟩)
        rcases List.mem_append.1 hp with hp | hp
        · exact List.mem_append_right _ (List.mem_filter.2 ⟨hp, hplace⟩)
        · exact List.mem_append_left _ hp
  · intro hcs
    obtain ⟨p, hp, rfl⟩ := List.mem_map.1 hcs
    rcases List.mem_append.1 hp with hp | hp
    · obtain ⟨hp, hplace⟩ := List.mem_filter.1 hp
      refine ⟨List.mem_map_of_mem (List.mem_append_left _ hp), fun heq => ?_⟩
      rw [Path.samePlace_of_components heq] at hplace
      cases hplace
    · obtain ⟨hp, hother⟩ := List.mem_filter.1 hp
      refine ⟨List.mem_map_of_mem ?_, fun heq => ?_⟩
      · rcases List.mem_append.1 hp with hp | hp
        · exact List.mem_append_right _ hp
        · exact List.mem_append_left _ (List.mem_filter.1 hp).1
      · rw [Path.sameComponents_iff.2 heq] at hother
        cases hother

end NativeRoots

namespace Watcher

variable {w : Watcher}

theorem addNative_of_enabled (h : w.enabled = true) (root : Path) :
    w.addNative root = { w with native := w.native.add root } := by
  rw [addNative, if_pos h]

theorem removeNative_of_enabled (h : w.enabled = true) (root : Path) :
    w.removeNative root = { w with native := w.native.remove root } := by
  rw [removeNative, if_pos h]

/-- Folders that are watched from the start are native roots in their spellings. -/
theorem foldl_addNative (hw : w.enabled = true) {before : List Path} (h : w.native.Spells before)
    (folders : List Path) :
    (folders.foldl addNative w).enabled = true ∧
    (folders.foldl addNative w).native.Spells (before ++ folders) := by
  induction folders generalizing w before with
  | nil =>
      rw [List.append_nil]
      exact ⟨hw, h⟩
  | cons root folders ih =>
      rw [← List.append_nil before] at h
      have hadded : (w.native.add root).Spells (before ++ [root]) := by simpa using h.add root
      rw [List.foldl_cons, addNative_of_enabled hw, List.append_cons]
      exact ih (w := { w with native := w.native.add root }) hw hadded

end Watcher

namespace Session

variable {s s' : Session} {a : WorkspaceAct} {left : List Path}

/-! ### Folders that are left behind -/

/-- The folders left behind after an act: the other spellings of a folder that is closed join those
that were left before, and its own spelling is left no longer. -/
def leaves (s : Session) (left : List Path) : WorkspaceAct → List Path
  | .closeFolder root =>
    if s.folders.any (·.samePlace root) then
      (left ++ s.folders.filter (·.samePlace root)).filter (!·.sameComponents root)
    else left
  | _ => left

/-- The folders left behind after some acts. -/
def leftBehind : Session → List Path → List WorkspaceAct → List Path
  | _, left, [] => left
  | s, left, a :: as => leftBehind (s.act a) (s.leaves left a) as

/-- The native roots of a session that watches files are the open folders and some that were left
behind. -/
structure NativeRootsAt (s : Session) (left : List Path) : Prop where
  enabled : s.watcher.enabled = true
  spells : s.watcher.native.Spells (s.folders ++ left)

namespace NativeRootsAt

theorem of_eq (h : s.NativeRootsAt left) (hfolders : s'.folders = s.folders)
    (hw : Watcher.SameNative s.watcher s'.watcher) : s'.NativeRootsAt left := by
  constructor
  · rw [hw.enabled, h.enabled]
  · rw [hw.native, hfolders]
    exact h.spells

theorem opened (h : s.NativeRootsAt left) {root : Path}
    (hfolders : s'.folders = s.folders ++ [root])
    (hw : Watcher.SameNative (s.watcher.addNative root) s'.watcher) : s'.NativeRootsAt left := by
  rw [Watcher.addNative_of_enabled h.enabled] at hw
  constructor
  · rw [hw.enabled, h.enabled]
  · rw [hw.native, hfolders]
    exact h.spells.add root

theorem closed (h : s.NativeRootsAt left) {root : Path}
    (hfolders : s'.folders = s.folders.filter (!·.samePlace root))
    (hw : Watcher.SameNative (s.watcher.removeNative root) s'.watcher) :
    s'.NativeRootsAt ((left ++ s.folders.filter (·.samePlace root)).filter
      (!·.sameComponents root)) := by
  rw [Watcher.removeNative_of_enabled h.enabled] at hw
  constructor
  · rw [hw.enabled, h.enabled]
  · rw [hw.native, hfolders]
    exact h.spells.remove root

/-- Every step opens and closes native roots along with the folders. -/
theorem step (h : s.NativeRootsAt left) (hstep : s.Step a s') :
    s'.NativeRootsAt (s.leaves left a) := by
  cases hstep with
  | wasOpen => exact h
  | openedApart => exact h.opened rfl (.refl _)
  | opened _ _ _ _ _ _ hw => exact h.opened rfl hw
  | wasClosed hclosed =>
      rw [leaves, if_neg (by simp [hclosed])]
      exact h
  | closedApart hopen =>
      rw [leaves, if_pos hopen]
      exact h.closed rfl (.refl _)
  | closed hopen _ _ _ hw =>
      rw [leaves, if_pos hopen]
      exact h.closed rfl hw
  | @subscribed client roots w _ _ _ hw =>
      obtain ⟨hfolders, hwatcher, -⟩ := (s.registered client roots w).withdrawn_frame client
      exact h.of_eq hfolders (hw.trans (.of_eq hwatcher))
  | @unsubscribed client =>
      obtain ⟨hfolders, hwatcher, -⟩ := s.withdrawn_frame client
      exact h.of_eq hfolders (.of_eq hwatcher)
  | reported => exact h.of_eq rfl (.refl _)
  | disposed _ hw => exact h.of_eq rfl hw

/-- After any run the native roots are the open folders and those left behind. -/
theorem acts (h : s.NativeRootsAt left) (as : List WorkspaceAct) :
    (s.acts as).NativeRootsAt (leftBehind s left as) := by
  induction as generalizing s left with
  | nil => exact h
  | cons a as ih => exact ih (h.step (s.act_step a))

end NativeRootsAt

theorem nativeRootsAt_newWith (factories : List RootFactory) (machine : Machine)
    (cache : Option Resolution.Cache) (now : Timestamp) (store : Store) (sources : List Locator)
    (refused folders : List Path) (joinsWorkspace : Bool) :
    (newWith factories machine cache now store sources (.new true refused) folders
      joinsWorkspace).NativeRootsAt
      [] := by
  have hnone : (Watcher.new true refused).native.Spells [] := fun _ => Iff.rfl
  obtain ⟨henabled, hspells⟩ := Watcher.foldl_addNative rfl hnone folders
  have hw := Workspace.ofFolders_sameNative factories machine.host
    (folders.foldl Watcher.addNative (.new true refused)) folders
  constructor
  · exact hw.enabled.trans henabled
  · change (Workspace.ofFolders factories machine.host _ folders).2.native.Spells (folders ++ [])
    rw [hw.native, List.append_nil]
    exact hspells

/-- Nothing is left behind if folders are closed in the spelling they are open in. -/
theorem leftBehind_eq_nil {as : List WorkspaceAct}
    (h : ∀ before root after, as = before ++ .closeFolder root :: after →
      ∀ f ∈ (s.acts before).folders, f.samePlace root = true → f.sameComponents root = true) :
    leftBehind s [] as = [] := by
  induction as generalizing s with
  | nil => rfl
  | cons a as ih =>
      have hhead : s.leaves [] a = [] := by
        cases a with
        | closeFolder root =>
            rw [leaves]
            split
            · rw [List.nil_append, List.filter_filter, List.filter_eq_nil_iff]
              intro f hf hkept
              rw [Bool.and_eq_true] at hkept
              rw [h [] root as rfl f hf hkept.2] at hkept
              cases hkept.1
            · rfl
        | _ => rfl
      rw [leftBehind, hhead]
      refine ih fun before root after heq => ?_
      exact h (a :: before) root after (by rw [heq, List.cons_append])

/-- **Which directories are watched natively.** After any run of a session that watches files, from
any folders, a directory is watched natively if and only if it lies below an open folder or below
one that was left behind, closed in another spelling than its own. If every folder is closed in the
spelling it is open in, it is so if and only if the directory lies below an open folder. -/
theorem native_below_open_or_left_folders (factories : List RootFactory) (machine : Machine)
    (cache : Option Resolution.Cache) (now : Timestamp) (store : Store) (sources : List Locator)
    (refused folders : List Path) (joinsWorkspace : Bool) (as : List WorkspaceAct) (dir : Path) :
    let start :=
      newWith factories machine cache now store sources (.new true refused) folders joinsWorkspace
    let s := start.acts as
    (s.watcher.native.isNative dir = true ↔
      (∃ f ∈ s.folders, dir.within f = true) ∨ ∃ f ∈ leftBehind start [] as, dir.within f = true) ∧
    ((∀ before root after, as = before ++ .closeFolder root :: after →
        ∀ f ∈ (start.acts before).folders, f.samePlace root = true → f.sameComponents root = true) →
      (s.watcher.native.isNative dir = true ↔ ∃ f ∈ s.folders, dir.within f = true)) := by
  intro start s
  have hstart : start.NativeRootsAt [] :=
    nativeRootsAt_newWith factories machine cache now store sources refused folders joinsWorkspace
  have hnative := (hstart.acts as).spells.isNative_iff dir
  constructor
  · rw [hnative, ← exists_or]
    simp only [List.mem_append, or_and_right]
    exact Iff.rfl
  · intro h
    rw [hnative, leftBehind_eq_nil h, List.append_nil]

/-- Of two open folders one is closed: in another spelling it is left behind and watched natively,
and in a spelling with the same components it is not. -/
theorem native_below_open_or_left_folders_respelled :
    let folders : List Path := [⟨"/ws/a"⟩, ⟨"/ws/b"⟩]
    let start := overFolders folders
    let other : List WorkspaceAct := [.closeFolder ⟨"/ws/x/../a"⟩]
    let alike : List WorkspaceAct := [.closeFolder ⟨"/ws/./a/"⟩]
    let dir : Path := ⟨"/ws/a/.venv"⟩
    (leftBehind start [] other = [⟨"/ws/a"⟩] ∧
      (start.acts other).watcher.native.isNative dir = true) ∧
      (∀ before root after, alike = before ++ .closeFolder root :: after →
        ∀ f ∈ (start.acts before).folders, f.samePlace root = true → f.sameComponents root = true) ∧
      (start.acts alike).folders = [⟨"/ws/b"⟩] ∧
      ((start.acts alike).watcher.native.isNative dir = true ↔
        ∃ f ∈ (start.acts alike).folders, dir.within f = true) := by
  intro folders start other alike dir
  have hleft : leftBehind start [] other = [⟨"/ws/a"⟩] := by decide +kernel
  have hbelow : dir.within ⟨"/ws/a"⟩ = true := by decide +kernel
  have halike : ∀ before root after, alike = before ++ .closeFolder root :: after →
      ∀ f ∈ (start.acts before).folders, f.samePlace root = true →
        f.sameComponents root = true := by
    intro before root after heq
    rcases List.append_eq_singleton_iff.1 heq.symm with ⟨rfl, hlast⟩ | ⟨-, hlast⟩
    · cases hlast
      decide +kernel
    · cases hlast
  have hother :=
    (native_below_open_or_left_folders [RootVirtualEnvs.factory] .bare none ⟨0, 0⟩ .inMemory [] []
    folders true other dir).1
  have hsame :=
    (native_below_open_or_left_folders [RootVirtualEnvs.factory] .bare none ⟨0, 0⟩ .inMemory [] []
    folders true alike dir).2 halike
  refine ⟨⟨hleft, hother.2 (.inr ⟨⟨"/ws/a"⟩, ?_, hbelow⟩)⟩, halike, by decide +kernel, hsame⟩
  exact hleft ▸ List.mem_singleton_self _

/-- A folder that is closed in another spelling is left behind: no folder is open, and a directory
below the folder that was open is still watched natively. -/
theorem native_below_closed_folder :
    let s := (overFolders [⟨"/ws/a"⟩]).act (.closeFolder ⟨"/ws/b/../a"⟩)
    s.folders = [] ∧ s.watcher.native.isNative ⟨"/ws/a/.venv"⟩ = true := by
  decide +kernel

end Session

end EnvDiscovery
