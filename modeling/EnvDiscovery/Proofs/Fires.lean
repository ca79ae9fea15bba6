import EnvDiscovery.Proofs.Histories
import Mathlib.Data.List.Nodup

/-!
**Fires and their calls.**

A fire is served by the part of the history after it: its listeners are called, and then it returns.
While they are called they may fire again, so that fires nest. A part of a history that belongs to a
conduct is balanced: every fire that begins in it is served in it, and it says nothing of the fires
under way.

Main definitions:
* `Emitter.Balanced` — the fires of a part of a history are served in it;
* `Emitter.Leads`, `Emitter.Passes` — what has happened from one world to another.

Main results:
* `Emitter.deliver_leads`, `Emitter.fire_leads` — one fire, one listener after another;
* `Emitter.exec_leads` — **the calls of a fire are those of the listeners registered at its
  moment**, through all nesting;
* `Emitter.orderly_run` — every run with at most `UInt64.size` subscriptions has an orderly history;
* `Emitter.Orderly.callsOf_fire` — every fire calls them all as long as no listener owns a handle.
-/

namespace EnvDiscovery.Emitter

/-! ### Calls -/

section Calls

variable {σ α ε : Type} {lo mid hi : Nat} {seg more : List (Moment α ε)}

/-- A part of a history in which the fires from `lo` to `hi` begin and end. It may also hold calls
for fires that began before it. -/
structure Balanced (lo hi : Nat) (seg : List (Moment α ε)) : Prop where
  le : lo ≤ hi
  range : ∀ number ∈ fires seg, lo ≤ number ∧ number < hi
  numbered : (fires seg).Pairwise (· < ·)
  calls : ∀ before m after number e, seg = before ++ m :: after → m.entry = .fired number e →
    Silent number before ∧ Served number e m.registered after
  answered : ∀ number, lo ≤ number → ∀ call ∈ callsOf number seg, ∃ m ∈ seg,
    m.entry = .fired number call.2
  ended : ∀ number ∈ returns seg, lo ≤ number → number ∈ fires seg

theorem Served.append {number : Nat} {e : ε} {registered : List (UInt64 × α)}
    (h : Served number e registered seg) (hmore : Silent number more) :
    Served number e registered (seg ++ more) where
  called := by
    rw [callsOf_append, hmore.1, List.append_nil]
    exact h.called
  all := by
    intro hreturns
    rw [returns_append, List.mem_append, or_iff_left hmore.2] at hreturns
    rw [callsOf_append, hmore.1, List.append_nil]
    exact h.all hreturns
  returns := by
    intro hopen
    rw [stalls_append, not_or] at hopen
    rw [returns_append]
    exact List.mem_append_left _ (h.returns hopen.1)

namespace Balanced

/-- Nothing is said of later fires. -/
theorem silent (h : Balanced lo hi seg) {number : Nat} (hnumber : hi ≤ number) :
    Silent number seg := by
  have hle := h.le
  constructor
  · rw [List.eq_nil_iff_forall_not_mem]
    intro call hcall
    obtain ⟨m, hm, hentry⟩ := h.answered number (by omega) call hcall
    have := h.range number (mem_fires hm hentry)
    omega
  · intro hreturns
    have := h.range number (h.ended number hreturns (by omega))
    omega

theorem nil (n : Nat) : Balanced n n ([] : List (Moment α ε)) where
  le := Nat.le_refl n
  range := nofun
  numbered := .nil
  calls := fun before m after number e h => by simp at h
  answered := nofun
  ended := nofun

/-- One moment that begins no fire and says nothing of later ones. -/
theorem single {m : Moment α ε} (hfire : m.entry.fire? = none)
    (hsilent : ∀ number, lo ≤ number → Silent number [m]) : Balanced lo lo [m] where
  le := Nat.le_refl lo
  range := by simp [fires, hfire]
  numbered := by simp [fires, hfire]
  calls := by
    intro before m' after number e hcut hentry
    have hmem : m' ∈ [m] := hcut ▸ List.mem_append_right _ List.mem_cons_self
    rw [List.mem_singleton.1 hmem] at hentry
    rw [hentry] at hfire
    cases hfire
  answered := by
    intro number hnumber call hcall
    rw [(hsilent number hnumber).1] at hcall
    cases hcall
  ended := by
    intro number hreturns hnumber
    exact absurd hreturns (hsilent number hnumber).2

/-- One part after another, if the second says nothing of the fires of the first. -/
theorem append (h : Balanced lo mid seg) (k : Balanced mid hi more)
    (hquiet : ∀ number, lo ≤ number → number < mid → Silent number more) :
    Balanced lo hi (seg ++ more) where
  le := Nat.le_trans h.le k.le
  range := by
    intro number hnumber
    have hlo := h.le
    have hhi := k.le
    rw [fires_append, List.mem_append] at hnumber
    rcases hnumber with hfirst | hsecond
    · have := h.range number hfirst
      omega
    · have := k.range number hsecond
      omega
  numbered := by
    rw [fires_append, List.pairwise_append]
    refine ⟨h.numbered, k.numbered, ?_⟩
    intro i hi j hj
    exact Nat.lt_of_lt_of_le (h.range i hi).2 (k.range j hj).1
  calls := by
    intro before m after number e hcut hentry
    rcases cut_append hcut with ⟨rest, rfl, rfl⟩ | ⟨rest, rfl, rfl⟩
    · have hnumber := h.range number (mem_fires (List.mem_append_right _ List.mem_cons_self) hentry)
      obtain ⟨hbefore, hserved⟩ := h.calls before m rest number e rfl hentry
      exact ⟨hbefore, hserved.append (hquiet number hnumber.1 hnumber.2)⟩
    · have hnumber := k.range number (mem_fires (List.mem_append_right _ List.mem_cons_self) hentry)
      obtain ⟨hbefore, hserved⟩ := k.calls rest m after number e rfl hentry
      exact ⟨silent_append.2 ⟨h.silent hnumber.1, hbefore⟩, hserved⟩
  answered := by
    intro number hnumber call hcall
    rw [callsOf_append, List.mem_append] at hcall
    rcases hcall with hfirst | hsecond
    · obtain ⟨m, hm, hentry⟩ := h.answered number hnumber call hfirst
      exact ⟨m, List.mem_append_left _ hm, hentry⟩
    · have hmid : mid ≤ number := by
        by_contra hlt
        rw [(hquiet number hnumber (by omega)).1] at hsecond
        cases hsecond
      obtain ⟨m, hm, hentry⟩ := k.answered number hmid call hsecond
      exact ⟨m, List.mem_append_right _ hm, hentry⟩
  ended := by
    intro number hreturns hnumber
    rw [returns_append, List.mem_append] at hreturns
    rw [fires_append, List.mem_append]
    rcases hreturns with hfirst | hsecond
    · exact .inl (h.ended number hfirst hnumber)
    · have hmid : mid ≤ number := by
        by_contra hlt
        exact (hquiet number hnumber (by omega)).2 hsecond
      exact .inr (k.ended number hsecond hmid)

/-- A fire and the part in which it is served. -/
theorem fire {m : Moment α ε} {e : ε} (hentry : m.entry = .fired lo e)
    (h : Balanced (lo + 1) hi seg) (hserved : Served lo e m.registered seg) :
    Balanced lo hi (m :: seg) := by
  have hfires : fires (m :: seg) = lo :: fires seg := by simp [fires, hentry, Entry.fire?]
  have hcalls : ∀ number, callsOf number (m :: seg) = callsOf number seg := by
    intro number
    simp [callsOf, hentry, Entry.callOf?]
  have hreturns : returns (m :: seg) = returns seg := by simp [returns, hentry, Entry.return?]
  exact {
    le := Nat.le_of_succ_le h.le
    range := by
      intro number hnumber
      have hle := h.le
      rw [hfires, List.mem_cons] at hnumber
      rcases hnumber with rfl | hlater
      · omega
      · have := h.range number hlater
        omega
    numbered := by
      rw [hfires, List.pairwise_cons]
      exact ⟨fun number hnumber => (h.range number hnumber).1, h.numbered⟩
    calls := by
      intro before m' after number e' hcut hentry'
      rcases List.cons_eq_append_iff.1 hcut with ⟨rfl, hhead⟩ | ⟨rest, rfl, rfl⟩
      · obtain ⟨rfl, rfl⟩ := List.cons.inj hhead
        obtain ⟨rfl, rfl⟩ := Entry.fired.inj (hentry.symm.trans hentry')
        exact ⟨silent_nil _, hserved⟩
      · obtain ⟨hbefore, hafter⟩ := h.calls rest m' after number e' rfl hentry'
        refine ⟨⟨?_, ?_⟩, hafter⟩
        · simpa [callsOf, hentry, Entry.callOf?] using hbefore.1
        · simpa [returns, hentry, Entry.return?] using hbefore.2
    answered := by
      intro number hnumber call hcall
      rw [hcalls] at hcall
      rcases Nat.eq_or_lt_of_le hnumber with rfl | hlater
      · obtain ⟨r, -, rfl⟩ := List.mem_map.1 (hserved.called.subset hcall)
        exact ⟨m, List.mem_cons_self, hentry⟩
      · obtain ⟨m', hm', hentry'⟩ := h.answered number hlater call hcall
        exact ⟨m', List.mem_cons_of_mem _ hm', hentry'⟩
    ended := by
      intro number hnumber hlo
      rw [hreturns] at hnumber
      rw [hfires, List.mem_cons]
      rcases Nat.eq_or_lt_of_le hlo with rfl | hlater
      · exact .inl rfl
      · exact .inr (h.ended number hnumber hlater) }

end Balanced

/-- What has happened from one world to another. -/
structure Leads (w u : World σ α ε) (seg : List (Moment α ε)) : Prop where
  history : u.history = w.history ++ seg
  balanced : Balanced w.hub.fires u.hub.fires seg
  stuck : u.hub.stuck = true ↔ w.hub.stuck = true ∨ Stalls seg

theorem Leads.refl (w : World σ α ε) : Leads w w [] :=
  ⟨(List.append_nil _).symm, .nil _, by simp [Stalls]⟩

theorem Leads.trans {w u v : World σ α ε} (h : Leads w u seg) (k : Leads u v more)
    (hquiet : ∀ number, w.hub.fires ≤ number → number < u.hub.fires → Silent number more) :
    Leads w v (seg ++ more) where
  history := by rw [k.history, h.history, List.append_assoc]
  balanced := h.balanced.append k.balanced hquiet
  stuck := by rw [k.stuck, h.stuck, stalls_append, or_assoc]

/-- An entry that begins no fire and says nothing of later ones. -/
theorem Leads.advance {w : World σ α ε} {hub : Hub α} {entry : Entry α ε}
    (hopen : w.hub.stuck = false) (hfires : hub.fires = w.hub.fires)
    (hstuck : hub.stuck = true ↔ ∃ id, entry = .stalled id) (hfire : entry.fire? = none)
    (hsilent : ∀ number, w.hub.fires ≤ number → Silent number [⟨entry, hub.emitter.listeners⟩]) :
    Leads w (w.advance hub entry) [⟨entry, hub.emitter.listeners⟩] := by
  rw [World.advance_of_not_stuck hopen]
  refine ⟨rfl, ?_, ?_⟩
  · rw [hfires]
    exact .single hfire hsilent
  · simp [hopen, hstuck, Stalls]

/-- What has happened from one world to another says nothing of the fires under way. -/
def Passes (w u : World σ α ε) : Prop :=
  ∃ seg, Leads w u seg ∧ ∀ number < w.hub.fires, Silent number seg

theorem Passes.refl (w : World σ α ε) : Passes w w :=
  ⟨[], .refl w, fun number _ => silent_nil number⟩

theorem Passes.trans {w u v : World σ α ε} : Passes w u → Passes u v → Passes w v := by
  rintro ⟨seg, hseg, hfirst⟩ ⟨more, hmore, hsecond⟩
  have hle := hseg.balanced.le
  refine ⟨seg ++ more, hseg.trans hmore fun n _ hn => hsecond n hn, ?_⟩
  intro n hn
  exact silent_append.2 ⟨hfirst n hn, hsecond n (by omega)⟩

/-- An entry that is neither the beginning nor the end of a fire nor a call. -/
theorem Passes.advance (w : World σ α ε) {hub : Hub α} {entry : Entry α ε}
    (hfires : hub.fires = w.hub.fires) (hstuck : w.hub.stuck = false →
      (hub.stuck = true ↔ ∃ id, entry = .stalled id))
    (hfire : entry.fire? = none) (hreturn : entry.return? = none)
    (hcall : ∀ number, entry.callOf? number = none) :
    Passes w (w.advance hub entry) := by
  cases hopen : w.hub.stuck with
  | true =>
      rw [World.advance_of_stuck hopen]
      exact .refl w
  | false =>
      have hsilent : ∀ number, Silent number [⟨entry, hub.emitter.listeners⟩] := by
        intro number
        simp [Silent, callsOf, returns, hreturn, hcall]
      exact ⟨_, .advance hopen hfires (hstuck hopen) hfire fun n _ => hsilent n,
        fun n _ => hsilent n⟩

theorem unsubscribe_passes (w : World σ α ε) (id : UInt64) : Passes w (w.unsubscribe id) := by
  refine Passes.advance w ?_ ?_ ?_ ?_ ?_
  · rw [Hub.unsubscribe]
    split <;> rfl
  · intro _
    split <;> simp_all
  all_goals split <;> intros <;> rfl

theorem release_passes (w : World σ α ε) (number : Nat) (id : UInt64) :
    Passes w (w.release number id) := by
  refine List.foldlRecOn _ _ ?_ fun u hu i _ => hu.trans (unsubscribe_passes u i)
  refine Passes.advance w rfl ?_ rfl rfl fun _ => rfl
  intro hopen
  simp [Hub.letGo, hopen]

/-- The calls of one fire, one listener after another. -/
theorem deliver_leads {body : UInt64 × α → Conduct σ α ε}
    (hbody : ∀ r w, Passes w ((body r).exec w)) (number : Nat) (e : ε) (rs : List (UInt64 × α))
    (w u : World σ α ε) (hnumber : number < w.hub.fires)
    (hu : u = rs.foldl (fun u r => ((body r).exec (u.note (.called number r e))).release number r.1)
      w) :
    ∃ seg, Leads w u seg ∧ callsOf number seg <+: rs.map (·, e) ∧
      (u.hub.stuck = false → callsOf number seg = rs.map (·, e)) ∧ number ∉ returns seg ∧
      ∀ n < w.hub.fires, n ≠ number → Silent n seg := by
  induction rs generalizing w with
  | nil =>
      exact ⟨[], hu ▸ .refl w, List.prefix_rfl, fun _ => rfl, List.not_mem_nil,
        fun n _ _ => silent_nil n⟩
  | cons r rs ih =>
      cases hopen : w.hub.stuck with
      | true =>
          have hsame : u = w := by
            rw [hu]
            refine List.foldl_fixed' (fun r => ?_) _
            rw [World.note, World.advance_of_stuck hopen, World.exec_of_stuck _ hopen,
              World.release_of_stuck hopen]
          rw [hsame]
          refine ⟨[], .refl w, List.nil_prefix, fun hend => ?_, List.not_mem_nil,
            fun n _ _ => silent_nil n⟩
          exact absurd (hopen.symm.trans hend) Bool.noConfusion
      | false =>
          let m : Moment α ε := ⟨.called number r e, w.hub.emitter.listeners⟩
          have hothers : ∀ n, n ≠ number → Silent n [m] := by
            intro n hn
            simp [Silent, callsOf, returns, m, Entry.callOf?, Entry.return?, Ne.symm hn]
          have hcall : Leads w (w.note m.entry) [m] :=
            .advance hopen rfl (by simp [hopen, m]) rfl fun n hn => hothers n (by omega)
          have hfires : (w.note m.entry).hub.fires = w.hub.fires := by
            rw [World.note, World.advance_of_not_stuck hopen]
          obtain ⟨seg, hseg, hquiet⟩ :=
            (hbody r (w.note m.entry)).trans (release_passes _ number r.1)
          rw [hfires] at hquiet
          have hle := hseg.balanced.le
          rw [hfires] at hle
          obtain ⟨more, hmore, hinitial, hall, hreturns, hsilent⟩ :=
            ih _ (Nat.lt_of_lt_of_le hnumber hle) hu
          have hcalls : callsOf number ([m] ++ seg ++ more) = (r, e) :: callsOf number more := by
            rw [callsOf_append, callsOf_append, (hquiet number hnumber).1]
            simp [callsOf, m, Entry.callOf?]
          refine ⟨_, (hcall.trans hseg fun n _ hn => ?_).trans hmore fun n hlo hhi => ?_,
            ?_, ?_, ?_, ?_⟩
          · exact hquiet n (hfires ▸ hn)
          · exact hsilent n hhi (by omega)
          · rw [hcalls, List.map_cons]
            exact List.cons_prefix_cons.2 ⟨rfl, hinitial⟩
          · intro hend
            rw [hcalls, hall hend, List.map_cons]
          · have hnone : returns [m] = [] := rfl
            rw [returns_append, returns_append, hnone, List.nil_append, List.mem_append, not_or]
            exact ⟨(hquiet number hnumber).2, hreturns⟩
          · intro n hn hne
            exact silent_append.2 ⟨silent_append.2 ⟨hothers n hne, hquiet n hn⟩,
              hsilent n (by omega) hne⟩

/-- The end of a fire: it returns unless its calls came to a stop. -/
theorem served_of_calls {v u : World σ α ε} {number : Nat} {e : ε} {registered : List (UInt64 × α)}
    (hopen : v.hub.stuck = false) (hnumber : number < v.hub.fires) (hseg : Leads v u seg)
    (hinitial : callsOf number seg <+: registered.map (·, e))
    (hall : u.hub.stuck = false → callsOf number seg = registered.map (·, e))
    (hreturns : number ∉ returns seg) (hothers : ∀ n < v.hub.fires, n ≠ number → Silent n seg) :
    ∃ more, Leads v (u.note (.returned number)) more ∧ Served number e registered more ∧
      ∀ n < number, Silent n more := by
  cases hstuck : u.hub.stuck with
  | true =>
      rw [World.note, World.advance_of_stuck hstuck]
      have hstalls : Stalls seg := by simpa [hopen, hstuck] using hseg.stuck
      exact ⟨seg, hseg, ⟨hinitial, fun h => absurd h hreturns, fun h => absurd hstalls h⟩,
        fun n hn => hothers n (by omega) (by omega)⟩
  | false =>
      let m : Moment α ε := ⟨.returned number, u.hub.emitter.listeners⟩
      have hle := hseg.balanced.le
      have hcalls : ∀ n, callsOf n [m] = [] := fun _ => rfl
      have hlater : ∀ n, n ≠ number → Silent n [m] := by
        intro n hn
        refine ⟨rfl, ?_⟩
        simpa [returns, m, Entry.return?] using hn
      have hend : Leads u (u.note m.entry) [m] :=
        .advance hstuck rfl (by simp [hstuck, m]) rfl fun n hn => hlater n (by omega)
      refine ⟨seg ++ [m], hseg.trans hend fun n hlo _ => hlater n (by omega), ?_, ?_⟩
      · have hreturned : number ∈ returns (seg ++ [m]) := by simp [returns, m, Entry.return?]
        have heq : callsOf number (seg ++ [m]) = registered.map (·, e) := by
          rw [callsOf_append, hcalls, List.append_nil, hall hstuck]
        exact ⟨heq ▸ List.prefix_rfl, fun _ => heq, fun _ => hreturned⟩
      · intro n hn
        exact silent_append.2 ⟨hothers n (by omega) (by omega), hlater n (by omega)⟩

/-- A fire is served. -/
theorem fire_leads {body : UInt64 × α → Conduct σ α ε} (hbody : ∀ r w, Passes w ((body r).exec w))
    (e : ε) (w : World σ α ε) : Passes w ((Conduct.fire e body .done).exec w) := by
  cases hopen : w.hub.stuck with
  | true =>
      rw [World.exec_of_stuck _ hopen]
      exact .refl w
  | false =>
      let m : Moment α ε := ⟨.fired w.hub.fires e, w.hub.emitter.listeners⟩
      have hfire : w.openFire e = { w with hub := w.hub.beginFire, history := w.history ++ [m] } :=
        World.advance_of_not_stuck hopen _ _
      have hnumber : (w.openFire e).hub.fires = w.hub.fires + 1 := by rw [hfire]; rfl
      have hstill : (w.openFire e).hub.stuck = false := by rw [hfire]; exact hopen
      obtain ⟨seg, hseg, hinitial, hall, hreturns, hothers⟩ :=
        deliver_leads hbody w.hub.fires e w.hub.emitter.listeners (w.openFire e) _ (by omega) rfl
      obtain ⟨more, hmore, hserved, hquiet⟩ :=
        served_of_calls hstill (by omega) hseg hinitial hall hreturns hothers
      refine ⟨m :: more, ⟨?_, ?_, ?_⟩, ?_⟩
      · rw [Conduct.exec, Conduct.exec, hmore.history, hfire, List.append_assoc]
        rfl
      · exact .fire rfl (hnumber ▸ hmore.balanced) hserved
      · rw [Conduct.exec, Conduct.exec, hmore.stuck, hstill]
        simp [Stalls, hopen, m]
      · intro n hn
        refine ⟨?_, ?_⟩
        · simpa [callsOf, m, Entry.callOf?] using (hquiet n hn).1
        · simpa [returns, m, Entry.return?] using (hquiet n hn).2

/-- **The calls of a fire are those of the listeners registered at its moment**, whatever the
listeners do. -/
theorem exec_leads (c : Conduct σ α ε) (w : World σ α ε) : Passes w (c.exec w) := by
  induction c generalizing w with
  | done => exact .refl w
  | panic => exact .advance w rfl (by simp) rfl rfl fun _ => rfl
  | consult change rest ih =>
      rw [Conduct.exec]
      split
      · exact .refl w
      · obtain ⟨seg, hseg, hquiet⟩ := ih w.client { w with client := change w.client }
        exact ⟨seg, ⟨hseg.history, hseg.balanced, hseg.stuck⟩, hquiet⟩
  | subscribe a rest ih =>
      have hfirst : Passes w (w.subscribe a) := by
        refine Passes.advance w rfl ?_ rfl rfl fun _ => rfl
        intro hopen
        simp [Hub.subscribe, hopen]
      exact hfirst.trans (ih _ _)
  | entrust number owner rest ih =>
      have hfirst : Passes w (w.entrust number owner) := by
        rw [World.entrust]
        split
        case isFalse => exact .refl w
        case isTrue hcan =>
          rw [Hub.entrust, if_pos hcan]
          refine Passes.advance w rfl ?_ rfl rfl fun _ => rfl
          intro hopen
          simp [hopen]
      exact hfirst.trans (ih _)
  | unsubscribe id rest ih => exact (unsubscribe_passes w id).trans (ih _)
  | fire e body rest ihbody ihrest => exact (fire_leads ihbody e w).trans (ihrest _)

theorem run_leads (conducts : List (Conduct σ α ε)) (w : World σ α ε) : Passes w (w.run conducts) :=
  List.foldlRecOn _ _ (.refl w) fun u hu c _ => hu.trans (exec_leads c u)

end Calls

/-! ### Runs -/

section Runs

variable {σ α ε : Type} {h before after : List (Moment α ε)} {m : Moment α ε} {id : UInt64}

/-- The counter gives no number twice before it begins again. -/
theorem World.Sound.distinct {w : World σ α ε} (hsound : w.Sound)
    (hcount : (subscriptions w.history).length ≤ UInt64.size) :
    ((subscriptions w.history).map Prod.fst).Nodup := by
  rw [hsound.numbers]
  refine List.Nodup.map_on ?_ List.nodup_range
  intro i hi j hj heq
  have hmod : i % UInt64.size = j % UInt64.size := by
    simpa only [UInt64.toNat_ofNat'] using congrArg UInt64.toNat heq
  rw [List.mem_range] at hi hj
  rwa [Nat.mod_eq_of_lt (by omega), Nat.mod_eq_of_lt (by omega)] at hmod

/-- Unsubscribing removes the one registration of its number, if it is there. -/
theorem standing_unsubscribed (hdistinct : ((subscriptions before).map Prod.fst).Nodup)
    (hback : m.entry.takesBack id = true) :
    (∃ older a newer, standing before = older ++ (id, a) :: newer ∧
      standing (before ++ [m]) = older ++ newer) ∨
    ((∀ a, (id, a) ∉ standing before) ∧ standing (before ++ [m]) = standing before) := by
  have hkept : ∀ rs : List (UInt64 × α), (∀ r ∈ rs, r.1 ≠ id) → rs.filter (·.1 != id) = rs := by
    intro rs hrs
    exact List.filter_eq_self.2 fun r hr => bne_iff_ne.2 (hrs r hr)
  rw [standing_concat_of_takesBack before hback]
  by_cases hid : ∃ a, (id, a) ∈ standing before
  · obtain ⟨a, ha⟩ := hid
    obtain ⟨older, newer, hsplit⟩ := List.append_of_mem ha
    have hone : ((standing before).map Prod.fst).Nodup :=
      hdistinct.sublist ((standing_sublist before).map _)
    rw [hsplit, List.map_append, List.map_cons, List.nodup_append, List.nodup_cons] at hone
    obtain ⟨-, ⟨hnewer, -⟩, holder⟩ := hone
    refine .inl ⟨older, a, newer, hsplit, ?_⟩
    rw [hsplit, List.filter_append, List.filter_cons_of_neg (by simp), hkept older, hkept newer]
    · intro r hr heq
      exact hnewer (List.mem_map.2 ⟨r, hr, heq⟩)
    · intro r hr
      exact holder _ (List.mem_map_of_mem hr) _ List.mem_cons_self
  · refine .inr ⟨fun a ha => hid ⟨a, ha⟩, hkept _ ?_⟩
    rintro ⟨i, a⟩ hr rfl
    exact hid ⟨a, hr⟩

/-- A subscription that was taken back never stands again. -/
theorem not_mem_standing_of_takesBack
    (hdistinct : ((subscriptions (before ++ m :: after)).map Prod.fst).Nodup)
    (hback : m.entry.takesBack id = true) (hid : ∃ a, (id, a) ∈ subscriptions before) (a : α) :
    (id, a) ∉ standing (before ++ m :: after) := by
  intro hmem
  rw [standing_append, List.mem_append] at hmem
  rcases hmem with hold | hnew
  · -- taken back by the entry itself
    have hgone : takesBack (m :: after) id = true := by simp [takesBack, hback]
    simp [hgone] at hold
  · -- subscribed again, under a number that was used before
    obtain ⟨b, hb⟩ := hid
    have hagain := (standing_sublist _).subset hnew
    rw [subscriptions_append, List.map_append, List.nodup_append] at hdistinct
    exact hdistinct.2.2 id (List.mem_map_of_mem hb) id (List.mem_map_of_mem hagain) rfl

theorem World.Sound.orderly {w : World σ α ε} (hsound : w.Sound)
    (hcount : (subscriptions w.history).length ≤ UInt64.size)
    (hbalanced : Balanced 0 w.hub.fires w.history) :
    Orderly w.history where
  distinct := hsound.distinct hcount
  numbered := hbalanced.numbered
  registered := hsound.registered
  calls := hbalanced.calls
  answered := fun number => hbalanced.answered number (Nat.zero_le _)
  removes := by
    intro before m after id hcut hback
    rw [hsound.registered before m after hcut]
    refine standing_unsubscribed ?_ hback
    have hdistinct := hsound.distinct hcount
    rw [hcut, subscriptions_append, List.map_append] at hdistinct
    exact (List.nodup_append.1 hdistinct).1
  gone := by
    intro before m after id hcut hback hid later hlater a
    obtain ⟨between, rest, hsplit⟩ := List.append_of_mem hlater
    -- what has happened up to the later moment begins with what came before and the removal
    obtain ⟨tail, htail⟩ : ∃ tail, between ++ [later] = m :: tail := by
      cases between with
      | nil => exact ⟨[], by rw [(List.cons.inj hsplit).1]; rfl⟩
      | cons x between => exact ⟨between ++ [later], by rw [(List.cons.inj hsplit).1]; rfl⟩
    have hhistory : w.history = before ++ m :: tail ++ rest := by
      rw [hcut, hsplit, ← htail]
      simp
    have hdistinct := hsound.distinct hcount
    rw [hhistory, subscriptions_append, List.map_append] at hdistinct
    rw [hsound.registered (before ++ between) later rest (by rw [hcut, hsplit, List.append_assoc]),
      List.append_assoc, htail]
    exact not_mem_standing_of_takesBack (List.nodup_append.1 hdistinct).1 hback hid a
  blocks := hsound.blocks
  final := hsound.final

/-- An unsubscription never returns only if a handle was given to a listener. -/
theorem Orderly.entrusted_of_stalls (horderly : Orderly h) (hstalls : Stalls h) :
    ∃ m ∈ h, ∃ number owner, m.entry = .entrusted number owner := by
  obtain ⟨m, hm, id, hentry⟩ := hstalls
  obtain ⟨before, after, rfl⟩ := List.append_of_mem hm
  have hback : m.entry.takesBack id = true := by rw [hentry]; exact beq_self_eq_true id
  obtain ⟨-, -, other, -, first, given, last, rfl, hgiven, -⟩ :=
    (horderly.blocks before m after id rfl hback).1 hentry
  exact ⟨given, by simp, other, id, hgiven⟩

/-- As long as no handle is given to a listener, every fire calls all the listeners registered at
its moment, and there are no other calls for it. -/
theorem Orderly.callsOf_fire (horderly : Orderly h)
    (hfree : ∀ m ∈ h, ∀ number owner, m.entry ≠ .entrusted number owner) {number : Nat} {e : ε}
    (hm : m ∈ h) (hentry : m.entry = .fired number e) :
    callsOf number h = m.registered.map (·, e) := by
  obtain ⟨before, after, rfl⟩ := List.append_of_mem hm
  obtain ⟨hsilent, hserved⟩ := horderly.calls before m after number e rfl hentry
  have hopen : ¬Stalls after := by
    rintro ⟨last, hlast, hid⟩
    have hstalls : Stalls (before ++ m :: after) :=
      ⟨last, List.mem_append_right _ (List.mem_cons_of_mem _ hlast), hid⟩
    obtain ⟨given, hgiven, number, owner, hentrusted⟩ := horderly.entrusted_of_stalls hstalls
    exact hfree given hgiven number owner hentrusted
  have hself : callsOf number [m] = [] := by simp [callsOf, hentry, Entry.callOf?]
  rw [List.append_cons, callsOf_append, callsOf_append, hsilent.1, hself,
    hserved.all (hserved.returns hopen)]
  rfl

theorem sound_run (client : σ) (conducts : List (Conduct σ α ε)) :
    ((World.start client).run conducts).Sound :=
  List.foldlRecOn _ _ (World.Sound.start client) fun _ hw c _ => hw.exec c

/-- **Every run has an orderly history**, as long as the counter of subscriptions does not begin
again. -/
theorem orderly_run (client : σ) (conducts : List (Conduct σ α ε))
    (hcount : (subscriptions ((World.start client).run conducts).history).length ≤ UInt64.size) :
    Orderly ((World.start client).run conducts).history := by
  obtain ⟨seg, hseg, -⟩ := run_leads conducts (World.start client)
  have hhistory : ((World.start client).run conducts).history = seg := hseg.history
  exact (sound_run client conducts).orderly hcount (hhistory ▸ hseg.balanced)

end Runs

end EnvDiscovery.Emitter
