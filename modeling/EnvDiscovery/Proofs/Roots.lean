import EnvDiscovery.Proofs.Places
import EnvDiscovery.Proofs.WorkspaceRuns

/-!
**The roots follow the folders.**

The host keeps a list of folders, and the workspace a list of roots, which it changes on its own
when it hears of a folder. As long as the workspace has not ended the two lists agree: the roots are
the folders, each place once.

Main results:
* `Session.followsFolders_newWith`, `Session.FollowsFolders.step` — the two lists agree at first,
  and every act but the end keeps that;
* `Session.roots_follow_folders` — **the roots of every run**, and what opening and closing a folder
  leaves.
-/

namespace EnvDiscovery.Session

variable {s s' : Session} {a : WorkspaceAct}

/-! ### Folders after an act -/

theorem folders_openFolder (s : Session) (root : Path) :
    (s.act (.openFolder root)).folders = (Folders.open? s.folders root).getD s.folders := by
  have h := s.act_step (.openFolder root)
  generalize s.act (.openFolder root) = s' at h
  cases h with
  | wasOpen h => rw [Folders.open?, if_pos h, Option.getD_none]
  | openedApart h => rw [Folders.open?, if_neg (by simp [h]), Option.getD_some]
  | opened h => rw [Folders.open?, if_neg (by simp [h]), Option.getD_some]

theorem folders_closeFolder (s : Session) (root : Path) :
    (s.act (.closeFolder root)).folders = s.folders.filter (!·.samePlace root) := by
  have h := s.act_step (.closeFolder root)
  generalize s.act (.closeFolder root) = s' at h
  cases h with
  | wasClosed h => rw [Path.filter_samePlace_of_notMem (Path.any_samePlace_eq_false.1 h)]
  | closedApart h => rfl
  | closed h => rfl

/-- A folder that was closed, opened and closed again, in whatever spelling, leaves the folders as
they were. -/
theorem folders_openFolder_closeFolder {root root' : Path}
    (hclosed : s.folders.any (·.samePlace root) = false) (hsame : root'.samePlace root = true) :
    ((s.act (.openFolder root)).act (.closeFolder root')).folders = s.folders := by
  have hkey : root.key = root'.key := (Path.samePlace_iff.1 hsame).symm
  have hnotMem : root'.key ∉ s.folders.map Path.key := by
    rw [← hkey]
    exact Path.any_samePlace_eq_false.1 hclosed
  have hroot : [root].filter (!·.samePlace root') = [] := by simp [Path.samePlace_iff.2 hkey]
  rw [folders_closeFolder, folders_openFolder, Folders.open?, if_neg (by simp [hclosed]),
    Option.getD_some, List.filter_append, Path.filter_samePlace_of_notMem hnotMem, hroot,
    List.append_nil]

/-! ### The two lists -/

/-- The workspace is attached to the host, and its roots are the folders, each place in its first
spelling. -/
structure FollowsFolders (s : Session) : Prop where
  attached : s.workspace.attached = true
  paths : s.workspace.paths = Path.distinct s.folders

namespace FollowsFolders

theorem of_eq (h : s.FollowsFolders) (hfolders : s'.folders = s.folders)
    (hattached : s'.workspace.attached = s.workspace.attached)
    (hpaths : s'.workspace.paths = s.workspace.paths) :
    s'.FollowsFolders :=
  ⟨hattached.trans h.attached, by rw [hpaths, hfolders, h.paths]⟩

/-- The workspace has a root for a folder if and only if the folder is open. -/
theorem any_paths (h : s.FollowsFolders) (root : Path) :
    s.workspace.paths.any (·.samePlace root) = s.folders.any (·.samePlace root) := by
  rw [Bool.eq_iff_iff, Path.any_samePlace, Path.any_samePlace, h.paths, Path.key_mem_distinct]

/-- The workspace does not stand apart from a folder that is opened or closed. -/
theorem not_apart (h : s.FollowsFolders) {root : Path} {isOpen : Bool}
    (hfolders : s.folders.any (·.samePlace root) = isOpen) :
    ¬ (s.workspace.attached = false ∨ s.workspace.paths.any (·.samePlace root) = !isOpen) := by
  rw [h.attached, h.any_paths, hfolders]
  simp

/-- Every act but the end keeps the two lists in agreement. -/
theorem step (h : s.FollowsFolders) (hstep : s.Step a s') (ha : a ≠ .dispose) :
    s'.FollowsFolders := by
  cases hstep with
  | wasOpen => exact h
  | openedApart hclosed hws => exact absurd hws (h.not_apart hclosed)
  | @opened root r w hclosed hattached hnew hnumber hroot =>
      refine ⟨hattached, ?_⟩
      have hnotMem : root.key ∉ s.folders.map Path.key := Path.any_samePlace_eq_false.1 hclosed
      calc (s.workspace.roots ++ [r]).map (·.root)
          = s.workspace.paths ++ [root] := by rw [List.map_append, ← hroot]; rfl
        _ = Path.distinct (s.folders ++ [root]) := by
          rw [h.paths, Path.distinct_concat_of_notMem hnotMem]
  | wasClosed => exact h
  | closedApart hopen hws => exact absurd hws (h.not_apart hopen)
  | @closed root retired w hopen hattached =>
      refine ⟨hattached, ?_⟩
      calc (s.workspace.roots.filter (!·.root.samePlace root)).map (·.root)
          = s.workspace.paths.filter (!·.samePlace root) := by
            rw [Workspace.paths, List.filter_map, Function.comp_def]
        _ = Path.distinct (s.folders.filter (!·.samePlace root)) := by
          rw [h.paths, Path.distinct_filter]
  | @subscribed client roots w hnumbers hpaths =>
      obtain ⟨hfolders, -, -, emitter, hworkspace⟩ :=
        (s.registered client roots w).withdrawn_frame client
      have hattached := congrArg Workspace.attached hworkspace
      have hroots := congrArg Workspace.paths hworkspace
      exact h.of_eq hfolders hattached (hroots.trans hpaths)
  | @unsubscribed client =>
      obtain ⟨hfolders, -, -, emitter, hworkspace⟩ := s.withdrawn_frame client
      have hattached := congrArg Workspace.attached hworkspace
      have hroots := congrArg Workspace.paths hworkspace
      exact h.of_eq hfolders hattached hroots
  | reported => exact ⟨h.attached, h.paths⟩
  | disposed => exact absurd rfl ha

end FollowsFolders

theorem followsFolders_newWith (factories : List RootFactory) (machine : Machine)
    (cache : Option Resolution.Cache) (now : Timestamp) (store : Store) (sources : List Locator)
    (watcher : Watcher) (folders : List Path) (joinsWorkspace : Bool) :
    (newWith factories machine cache now store sources watcher folders
      joinsWorkspace).FollowsFolders := by
  have h := Workspace.ofFolders_induction
    (P := fun folders ws _ => ws.attached = true ∧ ws.paths = Path.distinct folders)
    factories machine.host (folders.foldl Watcher.addNative watcher) folders ⟨rfl, rfl⟩ ?_ ?_
  · exact ⟨h.1, h.2⟩
  · rintro folders ws w root ⟨hattached, hpaths⟩ hmem
    refine ⟨hattached, ?_⟩
    rw [hpaths, Path.any_samePlace, Path.key_mem_distinct] at hmem
    rw [Path.distinct_concat_of_mem hmem, hpaths]
  · rintro folders ws w root r w' ⟨hattached, hpaths⟩ hnew - hroot - -
    refine ⟨hattached, ?_⟩
    rw [hpaths, Path.any_samePlace_eq_false, Path.key_mem_distinct] at hnew
    rw [Path.distinct_concat_of_notMem hnew, ← hpaths, ← hroot, Workspace.paths, List.map_append]
    rfl

/-- **The roots follow the folders.** After any run before the end, from any folders, the roots are
the folders, in order and with the later spellings of a place left out; no two roots are the same
place; and a folder that is opened while it was closed, and then closed again in any spelling,
leaves folders and roots as they were. -/
theorem roots_follow_folders (factories : List RootFactory) (machine : Machine)
    (cache : Option Resolution.Cache) (now : Timestamp) (store : Store) (sources : List Locator)
    (watcher : Watcher) (folders : List Path) (joinsWorkspace : Bool) (as : List WorkspaceAct)
    (has : WorkspaceAct.dispose ∉ as) :
    let s :=
      (newWith factories machine cache now store sources watcher folders joinsWorkspace).acts as
    s.workspace.paths = Path.distinct s.folders ∧
      s.workspace.paths.Pairwise (fun p q => p.samePlace q = false) ∧
      ∀ root root' : Path, s.folders.any (·.samePlace root) = false → root'.samePlace root = true →
        let t := (s.act (.openFolder root)).act (.closeFolder root')
        t.folders = s.folders ∧ t.workspace.paths = s.workspace.paths := by
  intro s
  have hs : s.FollowsFolders := by
    refine acts_induction
      (followsFolders_newWith factories machine cache now store sources watcher folders
        joinsWorkspace) ?_
    intro s a ha s' h hstep
    refine h.step hstep ?_
    rintro rfl
    exact has ha
  refine ⟨hs.paths, ?_, ?_⟩
  · rw [hs.paths]
    exact (List.pairwise_map.1 (Path.nodup_keys_distinct s.folders)).imp
      Path.samePlace_eq_false_iff.2
  · intro root root' hclosed hsame t
    have hopened : (s.act (.openFolder root)).FollowsFolders :=
      hs.step (s.act_step (.openFolder root)) nofun
    have ht : t.FollowsFolders := hopened.step (act_step _ (.closeFolder root')) nofun
    have hfolders : t.folders = s.folders := folders_openFolder_closeFolder hclosed hsame
    exact ⟨hfolders, by rw [ht.paths, hfolders, hs.paths]⟩

/-- One folder is open twice at first, another is closed in a spelling of its own, and a third one
comes and goes. -/
theorem roots_follow_folders_respelled :
    let folders : List Path := [⟨"/ws/a"⟩, ⟨"/ws/./a"⟩, ⟨"/ws/b"⟩]
    let as : List WorkspaceAct :=
      [.closeFolder ⟨"/ws/x/../b"⟩, .subscribe "client", .openFolder ⟨"/ws/c/"⟩]
    let s := (overFolders folders).acts as
    let t := (s.act (.openFolder ⟨"/ws/d"⟩)).act (.closeFolder ⟨"/ws/e/../d"⟩)
    WorkspaceAct.dispose ∉ as ∧ s.folders = [⟨"/ws/a"⟩, ⟨"/ws/./a"⟩, ⟨"/ws/c/"⟩] ∧
      s.workspace.paths = [⟨"/ws/a"⟩, ⟨"/ws/c/"⟩] ∧
      s.folders.any (·.samePlace ⟨"/ws/d"⟩) = false ∧
        Path.samePlace ⟨"/ws/e/../d"⟩ ⟨"/ws/d"⟩ = true ∧
      t.folders = s.folders ∧ t.workspace.paths = s.workspace.paths := by
  intro folders as s t
  have has : WorkspaceAct.dispose ∉ as := by decide
  have hfolders : s.folders = [⟨"/ws/a"⟩, ⟨"/ws/./a"⟩, ⟨"/ws/c/"⟩] := by decide +kernel
  have hclosed : s.folders.any (·.samePlace ⟨"/ws/d"⟩) = false := by decide +kernel
  have hsame : Path.samePlace ⟨"/ws/e/../d"⟩ ⟨"/ws/d"⟩ = true := by decide +kernel
  obtain ⟨hpaths, -, hrestored⟩ :=
    roots_follow_folders [RootVirtualEnvs.factory] .bare none ⟨0, 0⟩ .inMemory []
    (.new true []) folders true as has
  refine ⟨has, hfolders, hpaths.trans ?_, hclosed, hsame, hrestored _ _ hclosed hsame⟩
  decide +kernel

end EnvDiscovery.Session
