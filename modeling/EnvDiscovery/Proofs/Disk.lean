import EnvDiscovery.Proofs.Store
import EnvDiscovery.Store.Disk

/-!
**Opening a directory again.**

A walk that arrives in a tree arrives at the same place in a larger one. So a database that was made
in a directory is found there when the directory is opened again, with what was kept in it.

Main definitions:
* `FileTree.Extends` — trees that have all of another tree;
* `Disk.Seats` — a store that is open in a directory.

Main results:
* `FileTree.Extends.walk` — walks in larger trees;
* `Disk.seats_of_openIn` — an opened store has its place in the directory;
* `Disk.Seats.openStore_save` — **opening a directory again** gives the store that was kept there.
-/

namespace EnvDiscovery

/-! ### Trees that grow -/

namespace FileTree

/-- Everything that stands in the first tree stands in the second. -/
structure Extends (t t' : FileTree) : Prop where
  node_eq : ∀ {p : Place} {n : Node}, t.node? p = some n → t'.node? p = some n
  cwd_eq : t'.cwd = t.cwd

theorem Extends.not_isDirAt {t t' : FileTree} (h : t.Extends t') {p : Place}
    (hp : ¬(!t.isDirAt p) = true) :
    ¬(!t'.isDirAt p) = true := by
  unfold FileTree.isDirAt at hp ⊢
  cases hn : t.node? p with
  | none => simp [hn] at hp
  | some n =>
      rw [h.node_eq hn]
      rwa [hn] at hp

/-- A walk that arrives passes the same places in a larger tree. -/
theorem Extends.walk {t t' : FileTree} (h : t.Extends t') {follow : Bool} {links : Nat}
    {here place : Place} {segs : List String} (hwalk : t.walk follow links here segs = some place) :
    t'.walk follow links here segs = some place := by
  -- along the walk in the smaller tree: the directories and links that it passes stand in the
  -- larger one
  fun_induction FileTree.walk t follow links here segs with
  | case1 => rwa [FileTree.walk]
  | case2 | case5 | case7 | case8 => cases hwalk
  | case3 links here s rest hdir htrivial ih =>
      rw [FileTree.walk, if_neg (h.not_isDirAt hdir), if_pos htrivial]
      exact ih hwalk
  | case4 links here rest hdir htrivial ih =>
      rw [FileTree.walk, if_neg (h.not_isDirAt hdir), if_neg htrivial, if_pos rfl]
      exact ih hwalk
  | case6 links here s rest hdir htrivial hup target hnode hlast =>
      rw [FileTree.walk, if_neg (h.not_isDirAt hdir), if_neg htrivial, if_neg hup, h.node_eq hnode]
      simp only [if_pos hlast]
      exact hwalk
  | case9 here s rest hdir htrivial hup target hnode hlast htarget links start ih =>
      rw [FileTree.walk, if_neg (h.not_isDirAt hdir), if_neg htrivial, if_neg hup, h.node_eq hnode]
      simp only [if_neg hlast, if_neg htarget]
      exact ih hwalk
  | case10 links here s rest hdir htrivial hup n hlink hnode ih =>
      rw [FileTree.walk, if_neg (h.not_isDirAt hdir), if_neg htrivial, if_neg hup, h.node_eq hnode]
      cases n with
      | link target => exact absurd rfl (hlink target)
      | file | dir => exact ih hwalk

theorem Extends.locate {t t' : FileTree} (h : t.Extends t') {follow : Bool} {p : Path}
    {place : Place} (hlocate : t.locate follow p = some place) :
    t'.locate follow p = some place := by
  unfold FileTree.locate at hlocate ⊢
  split at hlocate
  case isTrue => cases hlocate
  case isFalse hempty =>
    rw [if_neg hempty, h.cwd_eq]
    exact h.walk hlocate

/-- A walk along an absolute path begins at the root. -/
theorem locate_eq_walk {p : Path} {names : List String} (hp : p.segments = "" :: names)
    (habsolute : p.isAbsolute = true) (htext : p.text.isEmpty = false) (t : FileTree)
    (follow : Bool) :
    t.locate follow p = t.walk follow linkLimit [] names := by
  rw [locate, hp, habsolute, htext, walk]
  simp [isDirAt, node?, Path.isTrivial]

theorem node?_put_self (t : FileTree) {q : Place} (hq : q ≠ []) (n : Node) :
    (t.put q n).node? q = some n := by
  cases q with
  | nil => exact absurd rfl hq
  | cons name above => simp [node?, put]

theorem node?_put_of_ne (t : FileTree) {p q : Place} (h : p ≠ q) (n : Node) :
    (t.put q n).node? p = t.node? p := by
  cases p with
  | nil => rfl
  | cons name above =>
      have hne : (name :: above == q) = false := by simpa using h
      simp only [node?, put, List.lookup_cons, hne]
      exact lookup_filter_ne h t.nodes

/-- A tree with something new in it has all that it had. -/
theorem extends_put {t : FileTree} {q : Place} (hnew : t.node? q = none) (n : Node) :
    t.Extends (t.put q n) where
  node_eq := by
    intro p m hp
    have hne : p ≠ q := by
      rintro rfl
      simp [hnew] at hp
    rw [node?_put_of_ne t hne, hp]
  cwd_eq := rfl

end FileTree

/-! ### Opening a directory again -/

namespace Disk

/-- The store is open in the directory, and its database stands at the place. -/
structure Seats (d : Disk) (o : OpenStore) (dir : Path) (place : FileTree.Place) : Prop where
  directory_eq : o.directory = some dir
  place_eq : o.place = some place
  database_eq : databasePlace d.tree dir = some place
  present : (d.tree.node? place).isSome = true

theorem exists_home_of_databasePlace {t : FileTree} {dir : Path} {place : FileTree.Place}
    (h : databasePlace t dir = some place) :
    ∃ home, t.locate true dir = some home ∧ ¬(!t.isDirAt home) = true ∧
      place = CacheDirectory.databaseFile :: home := by
  unfold databasePlace at h
  cases hhome : t.locate true dir with
  | none => simp [hhome] at h
  | some home =>
      simp only [hhome] at h
      split at h
      case isTrue => cases h
      case isFalse hdir =>
        refine ⟨home, rfl, hdir, ?_⟩
        split at h
        · exact (Option.some.inj h).symm
        · split at h
          · exact (Option.some.inj h).symm
          · cases h

/-- A database that is made in a directory is found there. -/
theorem databasePlace_put {t : FileTree} {dir : Path} {place : FileTree.Place}
    (h : databasePlace t dir = some place) (hnew : t.node? place = none) :
    databasePlace (t.put place (.text "")) dir = some place := by
  obtain ⟨home, hhome, hdir, rfl⟩ := exists_home_of_databasePlace h
  have hextends := FileTree.extends_put hnew (.text "")
  have hnode := t.node?_put_self (List.cons_ne_nil CacheDirectory.databaseFile home) (.text "")
  have hempty : ((FileTree.Node.text "").content == some "") = true := by decide
  simp only [databasePlace, hextends.locate hhome, if_neg (hextends.not_isDirAt hdir), hnode,
    hempty, if_true]

theorem seats_of_openIn {d d₀ : Disk} {dir : Path} {o : OpenStore}
    (h : d.openIn dir = some (d₀, o)) :
    ∃ place, d₀.Seats o dir place ∧ o.store = (d.databases.lookup place).getD .database := by
  obtain ⟨tree, -, h⟩ := Option.bind_eq_some_iff.1 h
  obtain ⟨place, hplace, h⟩ := Option.bind_eq_some_iff.1 h
  obtain ⟨rfl, rfl⟩ := Prod.mk.inj (Option.some.inj h)
  cases hnode : tree.node? place with
  | some n => exact ⟨place, ⟨rfl, rfl, by simpa [hnode] using hplace, by simp [hnode]⟩, rfl⟩
  | none =>
      have hput : ((tree.put place (.text "")).node? place).isSome = true := by
        obtain ⟨home, -, -, rfl⟩ := exists_home_of_databasePlace hplace
        rw [tree.node?_put_self (List.cons_ne_nil _ _), Option.isSome_some]
      exact ⟨place, ⟨rfl, rfl, by simpa [hnode] using databasePlace_put hplace hnode,
        by simpa [hnode] using hput⟩, rfl⟩

/-- **Opening a directory again** gives the store that was kept there. -/
theorem Seats.openStore_save {d : Disk} {o : OpenStore} {dir : Path} {place : FileTree.Place}
    (h : d.Seats o dir place) : (d.save o).openStore o.directory = (d.save o, o) := by
  obtain ⟨store, directory, at?⟩ := o
  obtain ⟨hdirectory, hat, hplace, hpresent⟩ := h
  obtain rfl : directory = some dir := hdirectory
  obtain rfl : at? = some place := hat
  obtain ⟨home, hhome, -, -⟩ := exists_home_of_databasePlace hplace
  have hthere : withDirectory d.tree dir = some d.tree := by simp [withDirectory, hhome]
  simp [openStore, openIn, save, hthere, hplace, hpresent]

theorem Seats.save {d : Disk} {o : OpenStore} {dir : Path} {place : FileTree.Place}
    (h : d.Seats o dir place) :
    (d.save o).Seats o dir place where
  directory_eq := h.directory_eq
  place_eq := h.place_eq
  database_eq := by simpa [Disk.save, h.place_eq] using h.database_eq
  present := by simpa [Disk.save, h.place_eq] using h.present

theorem Seats.withStore {d : Disk} {o : OpenStore} {dir : Path} {place : FileTree.Place}
    (h : d.Seats o dir place) (s : Store) : d.Seats { o with store := s } dir place :=
  ⟨h.directory_eq, h.place_eq, h.database_eq, h.present⟩

end Disk

end EnvDiscovery
