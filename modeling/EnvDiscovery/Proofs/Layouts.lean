import EnvDiscovery.Classify
import EnvDiscovery.Proofs.MergedDetails
import EnvDiscovery.Proofs.Occurrences

/-!
**The kind that the layout of an environment tells.**

Seven predicates look at a candidate one after the other, and the first claim counts. Merging
decides by a rank of the kinds instead. The two agree: a predicate only gives kinds of a higher rank
than all predicates after it, so the first claim has the highest rank of all, and no other claim has
the same.

Main definitions:
* `Classify.HasLayout` — what has to lie on disk for a candidate to be of a kind;
* `Classify.Descending` — claims of which each outranks all later ones;
* `Classify.rankedClaims` — the claims with the ranks of the kinds that they can give.

Main results:
* `Classify.some_mem_claims_iff` — the predicates claim exactly the kinds whose layout the candidate
  has;
* `Classify.descending_claims` — **the order of the predicates follows the rank of the kinds**;
* `Classify.Descending.findSome?_eq_some` — the first of descending claims outranks all others;
* `Classify.foldl_merge_kind` — reports of claimed kinds merge to the kind of the first claim, if
  one of them has it;
* `Classify.first_claim_is_most_specific` — **the first claim is the most specific one, and merging
  keeps it**.
-/

namespace EnvDiscovery

namespace Classify

variable {fs : FileSystem} {host : Host} {c : Candidate} {home : Path} {k k' : EnvKind}

/-! ### Layouts -/

/-- The name of the file that marks a project of pipenv. -/
def pipfileName (host : Host) : String :=
  (host.var "PIPENV_PIPFILE").getD "Pipfile"

/-- There is an activation script beside the interpreter of an environment. -/
def HasActivateScript (fs : FileSystem) (home : Path) : Prop :=
  ∃ entry ∈ fs.listDir (home / Path.scriptsDir), ∃ name, entry.fileName? = some name ∧
    isActivateName name = true

/-- What has to lie on disk for a candidate to be of a kind. A candidate may have the layouts of
several kinds. -/
inductive HasLayout (fs : FileSystem) (host : Host) (c : Candidate) : EnvKind → Prop where
  | condaBase {home marker : Path} (hhome : c.home = some home)
      (hmeta : fs.isDir (home / "conda-meta") = true)
      (hmarker : marker ∈ baseMarkers home)
      (hpresent : fs.present marker = true) : HasLayout fs host c .condaBase
  | conda {home : Path} (hhome : c.home = some home) (hmeta : fs.isDir (home / "conda-meta") = true)
      (hplain : ∀ marker ∈ baseMarkers home, fs.present marker = false) : HasLayout fs host c .conda
  | windowsStore (hstore : "microsoft\\windowsapps".toList <:+:
      (Text.asciiLower c.executable.key).toList ∨
      "microsoft/windowsapps".toList <:+: (Text.asciiLower c.executable.key).toList) : HasLayout fs
        host c .windowsStore
  | pipenvProject {home : Path} {content : String} (hhome : c.home = some home)
      (hread : fs.readText (home / ".project") = some content) (hnamed : Text.trim content ≠ "")
      (hpipfile : fs.present ((⟨Text.trim content⟩ : Path) / pipfileName host) = true) : HasLayout
        fs host c .pipenv
  | pipenvFolder {home project : Path} (hhome : c.home = some home)
      (hname : home.fileName? = some ".venv")
      (hparent : home.parent? = some project)
      (hpipfile : fs.present (project / pipfileName host) = true) :
      HasLayout fs host c .pipenv
  | pyenv {root : Path} (hroot : host.pyenvRoot = some root)
      (hwithin : c.executable.within (root / "versions") = true) :
      HasLayout fs host c .pyenv
  | venv {home : Path} (hhome : c.home = some home)
      (hconfig : fs.present (home / "pyvenv.cfg") = true) :
      HasLayout fs host c .venv
  | virtualEnvWrapper {home folder : Path} (hhome : c.home = some home)
      (hfolder : host.workonHome = some folder)
      (hwithin : home.within folder = true) (hscript : HasActivateScript fs home) :
      HasLayout fs host c .virtualEnvWrapper
  | virtualEnv {home : Path} (hhome : c.home = some home) (hscript : HasActivateScript fs home) :
      HasLayout fs host c .virtualEnv

/-! ### What each predicate claims -/

theorem conda_eq_some_iff : conda fs c = some k ↔
    ∃ home, c.home = some home ∧ fs.isDir (home / "conda-meta") = true ∧
      k = if (baseMarkers home).any fs.present then .condaBase else .conda := by
  rw [conda, Option.bind_eq_bind, Option.bind_eq_some_iff]
  refine exists_congr fun home => and_congr_right fun _ => ?_
  cases fs.isDir (home / "conda-meta") with
  | false => simp
  | true => cases (baseMarkers home).any fs.present <;> simp [eq_comm]

theorem windowsStore_eq_some_iff : windowsStore c = some k ↔
    ("microsoft\\windowsapps".toList <:+: (Text.asciiLower c.executable.key).toList ∨
      "microsoft/windowsapps".toList <:+: (Text.asciiLower c.executable.key).toList) ∧
        k = .windowsStore := by
  rw [windowsStore, Option.ite_none_right_eq_some, Bool.or_eq_true, Text.occursIn_iff,
    Text.occursIn_iff, Option.some_inj, eq_comm (a := EnvKind.windowsStore)]

theorem hasPipenvProject_iff {pipfile : String} : hasPipenvProject fs home pipfile = true ↔
    ∃ content, fs.readText (home / ".project") = some content ∧ Text.trim content ≠ "" ∧
      fs.present ((⟨Text.trim content⟩ : Path) / pipfile) = true := by
  rw [hasPipenvProject]
  cases fs.readText (home / ".project") with
  | none => simp
  | some content => simp

theorem isBesidePipfile_iff {pipfile : String} : isBesidePipfile fs home pipfile = true ↔
    home.fileName? = some ".venv" ∧ ∃ project, home.parent? = some project ∧
    fs.present (project / pipfile) = true := by
  rw [isBesidePipfile, Bool.and_eq_true, beq_iff_eq, Option.any_eq_true]

theorem pipenv_eq_some_iff : pipenv fs host c = some k ↔
    ∃ home, c.home = some home ∧ (hasPipenvProject fs home (pipfileName host) = true ∨
      isBesidePipfile fs home (pipfileName host) = true) ∧ k = .pipenv := by
  rw [pipenv, Option.bind_eq_bind, Option.bind_eq_some_iff]
  refine exists_congr fun home => and_congr_right fun _ => ?_
  rw [Option.ite_none_right_eq_some, Bool.or_eq_true, Option.some_inj,
    eq_comm (a := EnvKind.pipenv), pipfileName]

theorem pyenv_eq_some_iff : pyenv host c = some k ↔
    ∃ root, host.pyenvRoot = some root ∧ c.executable.within (root / "versions") = true ∧
    k = .pyenv := by
  rw [pyenv, Option.bind_eq_bind, Option.bind_eq_some_iff]
  refine exists_congr fun root => and_congr_right fun _ => ?_
  rw [Option.ite_none_right_eq_some, Option.some_inj, eq_comm (a := EnvKind.pyenv)]

theorem venv_eq_some_iff : venv fs c = some k ↔
    ∃ home, c.home = some home ∧ fs.present (home / "pyvenv.cfg") = true ∧ k = .venv := by
  rw [venv, Option.bind_eq_bind, Option.bind_eq_some_iff]
  refine exists_congr fun home => and_congr_right fun _ => ?_
  rw [Option.ite_none_right_eq_some, Option.some_inj, eq_comm (a := EnvKind.venv)]

theorem virtualEnv_eq_some_iff : virtualEnv fs c = some k ↔
    ∃ home, c.home = some home ∧ HasActivateScript fs home ∧ k = .virtualEnv := by
  rw [virtualEnv, Option.bind_eq_bind, Option.bind_eq_some_iff]
  refine exists_congr fun home => and_congr_right fun _ => ?_
  rw [Option.ite_none_right_eq_some, Option.some_inj, eq_comm (a := EnvKind.virtualEnv),
    List.any_eq_true, HasActivateScript]
  simp only [Option.any_eq_true]

theorem virtualEnvWrapper_eq_some_iff : virtualEnvWrapper fs host c = some k ↔
    ∃ home, c.home = some home ∧ ∃ folder, host.workonHome = some folder ∧
    home.within folder = true ∧
      HasActivateScript fs home ∧ k = .virtualEnvWrapper := by
  rw [virtualEnvWrapper, Option.bind_eq_bind, Option.bind_eq_some_iff]
  refine exists_congr fun home => and_congr_right fun hhome => ?_
  rw [Option.bind_eq_some_iff]
  refine exists_congr fun folder => and_congr_right fun _ => ?_
  rw [Option.ite_none_right_eq_some, Option.map_eq_some_iff]
  refine and_congr_right fun _ => ?_
  constructor
  · rintro ⟨k', hk', rfl⟩
    obtain ⟨home', hhome', hscript, -⟩ := virtualEnv_eq_some_iff.1 hk'
    obtain rfl : home' = home := Option.some.inj (hhome'.symm.trans hhome)
    exact ⟨hscript, rfl⟩
  · rintro ⟨hscript, rfl⟩
    exact ⟨.virtualEnv, virtualEnv_eq_some_iff.2 ⟨home, hhome, hscript, rfl⟩, rfl⟩

theorem some_mem_claims : some k ∈ claims fs host c ↔
    conda fs c = some k ∨ windowsStore c = some k ∨ pipenv fs host c = some k ∨
    pyenv host c = some k ∨
      venv fs c = some k ∨ virtualEnvWrapper fs host c = some k ∨ virtualEnv fs c = some k := by
  rw [claims]
  simp only [List.mem_cons, List.not_mem_nil, or_false, eq_comm (a := some k)]

/-- The predicates claim exactly the kinds whose layout the candidate has. -/
theorem some_mem_claims_iff : some k ∈ claims fs host c ↔ HasLayout fs host c k := by
  rw [some_mem_claims]
  constructor
  · rintro (h | h | h | h | h | h | h)
    · obtain ⟨home, hhome, hmeta, rfl⟩ := conda_eq_some_iff.1 h
      split
      case isTrue hmarked =>
        obtain ⟨marker, hmarker, hpresent⟩ := List.any_eq_true.1 hmarked
        exact .condaBase hhome hmeta hmarker hpresent
      case isFalse hplain =>
        rw [Bool.not_eq_true, List.any_eq_false] at hplain
        exact .conda hhome hmeta fun marker hmarker => Bool.eq_false_iff.2 (hplain marker hmarker)
    · obtain ⟨hstore, rfl⟩ := windowsStore_eq_some_iff.1 h
      exact .windowsStore hstore
    · obtain ⟨home, hhome, hproject | hbeside, rfl⟩ := pipenv_eq_some_iff.1 h
      · obtain ⟨content, hread, hnamed, hpipfile⟩ := hasPipenvProject_iff.1 hproject
        exact .pipenvProject hhome hread hnamed hpipfile
      · obtain ⟨hname, project, hparent, hpipfile⟩ := isBesidePipfile_iff.1 hbeside
        exact .pipenvFolder hhome hname hparent hpipfile
    · obtain ⟨root, hroot, hwithin, rfl⟩ := pyenv_eq_some_iff.1 h
      exact .pyenv hroot hwithin
    · obtain ⟨home, hhome, hconfig, rfl⟩ := venv_eq_some_iff.1 h
      exact .venv hhome hconfig
    · obtain ⟨home, hhome, folder, hfolder, hwithin, hscript, rfl⟩ :=
        virtualEnvWrapper_eq_some_iff.1 h
      exact .virtualEnvWrapper hhome hfolder hwithin hscript
    · obtain ⟨home, hhome, hscript, rfl⟩ := virtualEnv_eq_some_iff.1 h
      exact .virtualEnv hhome hscript
  · intro h
    cases h with
    | @condaBase home marker hhome hmeta hmarker hpresent =>
        have hmarked : (baseMarkers home).any fs.present = true :=
          List.any_eq_true.2 ⟨marker, hmarker, hpresent⟩
        exact .inl (conda_eq_some_iff.2 ⟨home, hhome, hmeta, by rw [if_pos hmarked]⟩)
    | @conda home hhome hmeta hplain =>
        have hunmarked : ¬(baseMarkers home).any fs.present = true := by
          rw [Bool.not_eq_true, List.any_eq_false]
          exact fun marker hmarker => Bool.eq_false_iff.1 (hplain marker hmarker)
        exact .inl (conda_eq_some_iff.2 ⟨home, hhome, hmeta, by rw [if_neg hunmarked]⟩)
    | windowsStore hstore => exact .inr (.inl (windowsStore_eq_some_iff.2 ⟨hstore, rfl⟩))
    | pipenvProject hhome hread hnamed hpipfile =>
        have hproject := hasPipenvProject_iff.2 ⟨_, hread, hnamed, hpipfile⟩
        exact .inr (.inr (.inl (pipenv_eq_some_iff.2 ⟨_, hhome, .inl hproject, rfl⟩)))
    | pipenvFolder hhome hname hparent hpipfile =>
        have hbeside := isBesidePipfile_iff.2 ⟨hname, _, hparent, hpipfile⟩
        exact .inr (.inr (.inl (pipenv_eq_some_iff.2 ⟨_, hhome, .inr hbeside, rfl⟩)))
    | pyenv hroot hwithin =>
        exact .inr (.inr (.inr (.inl (pyenv_eq_some_iff.2 ⟨_, hroot, hwithin, rfl⟩))))
    | venv hhome hconfig =>
        exact .inr (.inr (.inr (.inr (.inl (venv_eq_some_iff.2 ⟨_, hhome, hconfig, rfl⟩)))))
    | virtualEnvWrapper hhome hfolder hwithin hscript =>
        have h := virtualEnvWrapper_eq_some_iff.2 ⟨_, hhome, _, hfolder, hwithin, hscript, rfl⟩
        exact .inr (.inr (.inr (.inr (.inr (.inl h)))))
    | virtualEnv hhome hscript =>
        have h := virtualEnv_eq_some_iff.2 ⟨_, hhome, hscript, rfl⟩
        exact .inr (.inr (.inr (.inr (.inr (.inr h)))))

/-! ### The order of the predicates -/

/-- Every claim outranks all claims after it. -/
def Descending (claims : List (Option EnvKind)) : Prop :=
  claims.Pairwise fun earlier later => ∀ k ∈ earlier, ∀ k' ∈ later, k'.specificity < k.specificity

/-- The first of descending claims is one of them, and it outranks all others. -/
theorem Descending.findSome?_eq_some {claims : List (Option EnvKind)} (h : Descending claims)
    (hk : claims.findSome? id = some k) :
    some k ∈ claims ∧ ∀ k', some k' ∈ claims → k' = k ∨ k'.specificity < k.specificity := by
  induction claims with
  | nil => cases hk
  | cons claim claims ih =>
      obtain ⟨hfirst, hrest⟩ := List.pairwise_cons.1 h
      cases claim with
      | none =>
          obtain ⟨hmem, hbest⟩ := ih hrest hk
          refine ⟨List.mem_cons_of_mem _ hmem, fun k' hk' => ?_⟩
          rcases List.mem_cons.1 hk' with heq | hlater
          · cases heq
          · exact hbest k' hlater
      | some first =>
          obtain rfl : first = k := Option.some.inj hk
          refine ⟨List.mem_cons_self, fun k' hk' => ?_⟩
          rcases List.mem_cons.1 hk' with heq | hlater
          · exact .inl (Option.some.inj heq)
          · exact .inr (hfirst (some k') hlater first rfl k' rfl)

/-- The claims with the ranks of the kinds that they can give. -/
def rankedClaims (fs : FileSystem) (host : Host) (c : Candidate) : List (Option EnvKind × Nat) :=
  [(conda fs c, 10), (windowsStore c, 9), (pipenv fs host c, 8), (pyenv host c, 7), (venv fs c, 6),
   (virtualEnvWrapper fs host c, 5), (virtualEnv fs c, 4)]

theorem specificity_of_mem_rankedClaims :
    ∀ x ∈ rankedClaims fs host c, ∀ k ∈ x.1, k.specificity = x.2 := by
  simp only [rankedClaims, List.forall_mem_cons]
  refine ⟨?_, ?_, ?_, ?_, ?_, ?_, ?_, nofun⟩ <;> intro k hk
  · obtain ⟨home, -, -, rfl⟩ := conda_eq_some_iff.1 hk
    split <;> rfl
  · obtain ⟨-, rfl⟩ := windowsStore_eq_some_iff.1 hk
    rfl
  · obtain ⟨-, -, -, rfl⟩ := pipenv_eq_some_iff.1 hk
    rfl
  · obtain ⟨-, -, -, rfl⟩ := pyenv_eq_some_iff.1 hk
    rfl
  · obtain ⟨-, -, -, rfl⟩ := venv_eq_some_iff.1 hk
    rfl
  · obtain ⟨-, -, -, -, -, -, rfl⟩ := virtualEnvWrapper_eq_some_iff.1 hk
    rfl
  · obtain ⟨-, -, -, rfl⟩ := virtualEnv_eq_some_iff.1 hk
    rfl

/-- **The order of the predicates follows the rank of the kinds.** -/
theorem descending_claims (fs : FileSystem) (host : Host) (c : Candidate) :
    Descending (claims fs host c) := by
  have hclaims : claims fs host c = (rankedClaims fs host c).map Prod.fst := by
    simp only [claims, rankedClaims, List.map_cons, List.map_nil]
  have hranks : (rankedClaims fs host c).Pairwise fun x y => y.2 < x.2 := by
    simp [rankedClaims]
  rw [Descending, hclaims, List.pairwise_map]
  refine hranks.imp_of_mem fun {x y} hx hy hlt k hk k' hk' => ?_
  rw [specificity_of_mem_rankedClaims x hx k hk, specificity_of_mem_rankedClaims y hy k' hk']
  exact hlt

theorem identify_eq_none_iff :
    identify fs host c = none ↔ ∀ claim ∈ claims fs host c, claim = none := by
  rw [identify, List.findSome?_eq_none_iff]
  rfl

/-- The kind that is told is claimed, and it outranks every other claim. -/
theorem identify_spec (h : identify fs host c = some k) :
    some k ∈ claims fs host c ∧ ∀ k', some k' ∈ claims fs host c → k' = k ∨
    k'.specificity < k.specificity :=
  (descending_claims fs host c).findSome?_eq_some h

/-! ### Merging -/

/-- Reports of claimed kinds merge to the kind that is told if one of them has it, whatever their
order. -/
theorem foldl_merge_kind (h : identify fs host c = some k) {d : EnvRecord} {rest : List EnvRecord}
    (hclaimed : ∀ e ∈ d :: rest, some e.kind ∈ claims fs host c)
    (htold : ∃ e ∈ d :: rest, e.kind = k) :
    (rest.foldl EnvRecord.merge d).kind = k := by
  obtain ⟨told, hmem, rfl⟩ := htold
  have hpicks : ∀ a b : EnvRecord, (a.merge b).kind = a.kind ∨ (a.merge b).kind = b.kind :=
    fun a b =>
    (EnvRecord.merge_origin a b).imp And.left And.left
  obtain ⟨e, he, hkind⟩ := EnvRecord.exists_mem_of_picks hpicks d rest
  have hbest := (EnvRecord.absorbs_of_mem hmem).covers.2
  rw [hkind] at hbest ⊢
  rcases (identify_spec h).2 e.kind (hclaimed e he) with heq | hlt
  · exact heq
  · omega

/-- **The first claim is the most specific one, and merging keeps it.** For every file system, host
and candidate: the predicates claim the kinds whose layout the candidate has. None is told exactly
if none is claimed. A kind that is told is claimed, and no claimed kind is more specific. A record
of that kind keeps it when it is merged with a record of any claimed kind, whichever of the two
comes first. -/
theorem first_claim_is_most_specific (fs : FileSystem) (host : Host) (c : Candidate) :
    (∀ k, some k ∈ claims fs host c ↔ HasLayout fs host c k) ∧
      (identify fs host c = none ↔ ∀ claim ∈ claims fs host c, claim = none) ∧
      ∀ k, identify fs host c = some k →
        (some k ∈ claims fs host c ∧ ∀ k', some k' ∈ claims fs host c →
          k'.specificity ≤ k.specificity) ∧
        ∀ told other : EnvRecord, told.kind = k → some other.kind ∈ claims fs host c →
          (told.merge other).kind = k ∧ (other.merge told).kind = k := by
  refine ⟨fun k => some_mem_claims_iff, identify_eq_none_iff, ?_⟩
  intro k hk
  obtain ⟨hmem, hbest⟩ := identify_spec hk
  refine ⟨⟨hmem, fun k' hk' => ?_⟩, ?_⟩
  · rcases hbest k' hk' with rfl | hlt
    · exact le_rfl
    · exact hlt.le
  · rintro told other rfl hother
    have hclaimed : ∀ e ∈ [told, other], some e.kind ∈ claims fs host c := by simp [hmem, hother]
    have hclaimed' : ∀ e ∈ [other, told], some e.kind ∈ claims fs host c := by simp [hmem, hother]
    exact ⟨foldl_merge_kind hk hclaimed ⟨told, by simp, rfl⟩,
      foldl_merge_kind hk hclaimed' ⟨told, by simp, rfl⟩⟩

/-- A folder with the marks of a pipenv environment, of a venv and of a virtualenv. -/
def markedFolder : FileSystem where
  present p := p.key = "/proj/Pipfile" || p.key = "/proj/.venv/pyvenv.cfg"
  lstat _ := none
  stat _ := none
  listDir p := if p.key = "/proj/.venv/bin" then [p / "activate.fish"] else []
  readLink _ := none
  realPath _ := none
  readText _ := none

/-- An environment that three predicates claim, and a report that only says it is a virtualenv. -/
theorem first_claim_is_most_specific_marked :
    let c := Candidate.ofExecutable ⟨"/proj/.venv/bin/python"⟩
    let host : Host := ⟨none, []⟩
    let told := EnvRecord.new c.executable .pipenv
    let other := EnvRecord.new c.executable .virtualEnv
    identify markedFolder host c = some .pipenv ∧
      some EnvKind.virtualEnv ∈ claims markedFolder host c ∧
      EnvKind.virtualEnv.specificity ≤ EnvKind.pipenv.specificity ∧
      (told.merge other).kind = .pipenv ∧ (other.merge told).kind = .pipenv := by
  intro c host told other
  have hidentify : identify markedFolder host c = some .pipenv := by decide +kernel
  have hclaimed : some EnvKind.virtualEnv ∈ claims markedFolder host c := by decide +kernel
  obtain ⟨-, -, htold⟩ := first_claim_is_most_specific markedFolder host c
  obtain ⟨⟨-, hbest⟩, hmerge⟩ := htold .pipenv hidentify
  exact ⟨hidentify, hclaimed, hbest .virtualEnv hclaimed, hmerge told other rfl hclaimed⟩

end Classify

end EnvDiscovery
