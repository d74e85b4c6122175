import QMdmm.Core.Direct

namespace QMdmmCore

open Data Logic

namespace Logic

open LogicP

variable {emit : Emit Direct} {mid : Logic (List Signal)}

theorem Delivers.startRpsForAction (he : Delivers emit) (self : Logic Direct)
    (hcalm : self.env.disturbed = false) (hpost : startRpsForAction post self.queued = .ok mid)
    (hreach : system.Reachable mid) :
    ∃ after, Logic.startRpsForAction emit self = .ok after ∧
      Follows self.env.answers mid after := by
  rw [startRpsForAction_post] at hpost
  cases hpost
  obtain ⟨after, hafter, hfollows, _⟩ :=
    he.last _ (self.modify LogicP.enterRpsForAction) hcalm hreach
  exact ⟨after, hafter, hfollows⟩

theorem Delivers.nextAction (he : Delivers emit) (left : Nat) (self : Logic Direct)
    (hcalm : self.env.disturbed = false) (hpost : nextAction post left self.queued = .ok mid)
    (hreach : system.Reachable mid) :
    ∃ after, Logic.nextAction emit left self = .ok after ∧
      Follows self.env.answers mid after := by
  induction left generalizing self with
  | zero => exact he.startRpsForAction (self.modify LogicP.nextOrder) hcalm hpost hreach
  | succ left ih =>
    simp only [Logic.nextAction] at hpost ⊢
    obtain ⟨p, hp, hpost⟩ := Except.bind_eq_ok.mp hpost
    have hp' : (self.modify LogicP.nextOrder).d.deref ((self.modify LogicP.nextOrder).d.confirmedPlayer
        (self.modify LogicP.nextOrder).d.currentActionOrder) = .ok p := hp
    rw [hp', Except.ok_bind]
    split at hpost
    · next halive =>
      rw [if_pos (by exact halive)]
      cases hpost
      obtain ⟨after, hafter, hfollows, _⟩ := he.last _
        ((self.modify LogicP.nextOrder).modify (·.setState .Action)) hcalm hreach
      exact ⟨after, hafter, hfollows⟩
    · next hdead =>
      rw [if_neg (by exact hdead)]
      exact ih (self.modify LogicP.nextOrder) hcalm hpost

/-- Players without points are passed over. -/
theorem requestUpgrades_skip {G : Type} {emit : Emit G} {names : List String} {self : Logic G}
    (hnone : ∀ name ∈ names, ∃ p, self.d.deref name = .ok p ∧ ¬ p.upgradePoint > 0) :
    requestUpgrades emit names self = .ok self := by
  induction names with
  | nil => rfl
  | cons name rest ih =>
    obtain ⟨p, hp, hpoint⟩ := hnone name List.mem_cons_self
    rw [requestUpgrades, hp, Except.ok_bind, if_neg hpoint]
    exact ih fun other hother => hnone other (List.mem_cons_of_mem _ hother)

/-- A loop that was disturbed only emits what is left of it. -/
theorem Delivers.requestUpgrades_disturbed (he : Delivers emit) (names : List String)
    (self : Logic Direct) (hdisturbed : self.env.disturbed = true)
    (hnames : ∀ name ∈ names, name ∈ self.d.room.playerNames) :
    ∃ after, Logic.requestUpgrades emit names self = .ok after ∧ after.env.disturbed = true ∧
      after.d.room = self.d.room := by
  induction names generalizing self with
  | nil => exact ⟨self, rfl, hdisturbed, rfl⟩
  | cons name rest ih =>
    obtain ⟨p, hp⟩ := deref_of_mem (hnames name List.mem_cons_self)
    have hrest : ∀ other ∈ rest, other ∈ self.d.room.playerNames := fun other hother =>
      hnames other (List.mem_cons_of_mem _ hother)
    rw [Logic.requestUpgrades, hp, Except.ok_bind]
    split
    · rw [he.disturbed _ _ (by exact hdisturbed), Except.ok_bind]
      exact ih _ hdisturbed hrest
    · exact ih self hdisturbed hrest

theorem upgrade_waiting {G : Type} {emit : Emit G} {self : Logic G}
    (hcount : self.d.upgrades.count ≠ self.d.upgraders.length) :
    Logic.upgrade emit self = .ok self := by
  rw [Logic.upgrade]
  split
  · exact if_neg hcount
  · rfl

/-- As long as somebody else still has to be asked, a reply is only recorded. -/
theorem quiet_upgradeReply {d : LogicP} {p : Player} {name : String} (items : List UpgradeItem)
    (hplayer : d.room.player name = some p)
    (hmore : ∀ done, name ∉ d.upgrades →
      QHash.count (AList.insert name done d.upgrades) ≠ d.upgraders.length) :
    ∃ ret d', Quiet d (.upgradeReply name items) ret d' ∧
      (d' = d ∨ ∃ done, d' = { d with upgrades := AList.insert name done d.upgrades }) := by
  have hmember : name ∈ d.room.playerNames := by
    rw [← Room.player_isSome, hplayer]
    rfl
  by_cases haccepts : d.Accepts (.upgradeReply name items)
  · obtain ⟨accepted, hfeasible⟩ := upgradeFeasible_ok hmember items
    refine ⟨accepted, _, fun {G} emit env => ?_, .inr ⟨if accepted then items
      else feasibleItems d.room.logicConfiguration p, rfl⟩⟩
    have hready : d.state = .Upgrade ∧ !d.upgrades.contains name :=
      ⟨haccepts.2.1, by simpa [QHash.contains] using haccepts.2.2⟩
    rw [Logic.call, Logic.upgradeReply, hplayer]
    dsimp only
    rw [if_pos hready, hfeasible, Except.ok_bind, upgrade_waiting (hmore _ haccepts.2.2)]
    rfl
  · exact ⟨false, d, fun emit env => call_of_not_accepts haccepts, .inl rfl⟩

/-- While a player with points is still to come, the players asked before it
cannot have answered for everybody. -/
theorem count_lt_upgraders {d : LogicP} {hash : QHash String (List UpgradeItem)}
    {visited rest : List Player} (hplayers : d.room.players.toList = visited ++ rest)
    (hasked : ∀ name ∈ hash, ∃ p ∈ visited, p.objectName = name ∧ p.upgradePoint > 0)
    (hmore : ∃ q ∈ rest, q.upgradePoint > 0) : hash.count < d.upgraders.length := by
  have hsub : hash.keys ⊆ (visited.filter (·.upgradePoint > 0)).map (·.objectName) := by
    intro name hname
    obtain ⟨p, hp, rfl, hpoint⟩ := hasked name hname
    exact List.mem_map_of_mem (List.mem_filter.mpr ⟨hp, decide_eq_true hpoint⟩)
  have hle : hash.keys.length ≤ _ := (List.Nodup.subperm hash.nodupKeys hsub).length_le
  obtain ⟨q, hq, hpoint⟩ := hmore
  have hpos : 0 < (rest.filter (·.upgradePoint > 0)).length :=
    List.length_pos_of_mem (List.mem_filter.mpr ⟨hq, decide_eq_true hpoint⟩)
  have hkeys : hash.count = hash.keys.length := by simp [QHash.count, AList.keys, List.keys]
  rw [List.length_map] at hle
  rw [upgraders, hplayers, List.filter_append, List.length_append]
  omega

/-- Nobody behind the last player with points has any. -/
theorem laterUpgraders_eq_nil {d : LogicP} {visited rest : List Player} {p : Player}
    (hplayers : d.room.players.toList = visited ++ p :: rest)
    (hmore : ¬ ∃ q ∈ rest, q.upgradePoint > 0) : laterUpgraders d p.objectName = [] := by
  have hsorted := d.room.players.sorted
  rw [hplayers] at hsorted
  have hbefore := (List.pairwise_append.mp hsorted).2.2
  rw [laterUpgraders, List.map_eq_nil_iff, List.filter_eq_nil_iff]
  intro q hq hlt
  obtain ⟨hq, hpoint⟩ := List.mem_filter.mp hq
  rw [hplayers] at hq
  rcases List.mem_append.mp hq with hq | hq
  · exact lt_asymm (hbefore q hq p List.mem_cons_self) (of_decide_eq_true hlt)
  · rcases List.mem_cons.mp hq with rfl | hq
    · exact lt_irrefl _ (of_decide_eq_true hlt)
    · exact hmore ⟨q, hq, of_decide_eq_true hpoint⟩

/-- The requests for the upgrades of some players. -/
def upgradeRequests (players : List Player) : List Signal :=
  (players.filter (·.upgradePoint > 0)).map fun p => .requestUpgrade p.objectName p.upgradePoint

/-- From the first player with points on, the loop is in Upgrade. -/
theorem requestUpgrades_post_cons {self : Logic (List Signal)} {p : Player} {rest : List Player}
    (hplayers : ∀ q ∈ p :: rest, q ∈ self.d.room.players.toList) (hpoint : p.upgradePoint > 0) :
    Logic.requestUpgrades post ((p :: rest).map (·.objectName)) self =
      .ok ⟨self.d.setState .Upgrade,
        self.env ++ [.requestUpgrade p.objectName p.upgradePoint] ++ upgradeRequests rest⟩ := by
  rw [requestUpgrades_post self (p :: rest) hplayers]
  simp [hpoint, setState, upgradeRequests]

theorem requestUpgrades_post_upgrade (self : Logic (List Signal)) {rest : List Player}
    (hplayers : ∀ q ∈ rest, q ∈ self.d.room.players.toList) (hstate : self.d.state = .Upgrade) :
    Logic.requestUpgrades post (rest.map (·.objectName)) self =
      .ok ⟨self.d, self.env ++ upgradeRequests rest⟩ := by
  rw [requestUpgrades_post self rest hplayers, ← hstate, ite_self]
  rfl

/-- A loop over nobody with points that comes after the asked one ends where the
last request has led to. -/
theorem Delivers.requestUpgrades_last (he : Delivers emit) {p : Player} (rest : List Player)
    (self : Logic Direct) (hcalm : self.env.disturbed = false)
    (hafter : ∀ q ∈ rest, q ∈ self.d.room.players.toList ∧ p.objectName < q.objectName ∧
      ¬ q.upgradePoint > 0) (hlater : laterUpgraders self.d p.objectName = [])
    (hreach : system.Reachable ⟨self.d, self.env.signals ++
      [.requestUpgrade p.objectName p.upgradePoint]⟩) :
    ∃ next after, emit (.requestUpgrade p.objectName p.upgradePoint) self = .ok next ∧
      Logic.requestUpgrades emit (rest.map (·.objectName)) next = .ok after ∧
      Follows self.env.answers ⟨self.d, self.env.signals ++
        [.requestUpgrade p.objectName p.upgradePoint]⟩ after := by
  obtain ⟨next, hnext, hfollows, hkeep⟩ := he.last _ self hcalm hreach
  have hnames : ∀ name ∈ rest.map (·.objectName), name ∈ next.d.room.playerNames := by
    intro name hname
    obtain ⟨q, hq, rfl⟩ := List.mem_map.mp hname
    rw [hfollows.names]
    exact List.mem_map_of_mem (hafter q hq).1
  by_cases hdisturbed : next.env.disturbed = true
  · obtain ⟨after, hloop, hstill, hroom⟩ := he.requestUpgrades_disturbed _ next hdisturbed hnames
    refine ⟨next, after, hnext, hloop, ⟨?_, fun hcalm => ?_⟩⟩
    · rw [hroom]
      exact hfollows.names
    · rw [hstill] at hcalm
      cases hcalm
  · refine ⟨next, next, hnext, requestUpgrades_skip fun name hname => ?_, hfollows⟩
    obtain ⟨q, hq⟩ := deref_of_mem (hnames name hname)
    refine ⟨q, hq, fun hpoint => ?_⟩
    -- A player with points behind the asked one: the loop would have been disturbed.
    have hsame := hkeep (by simpa using hdisturbed)
    simp only [disturbs, ne_eq, decide_eq_false_iff_not, not_not] at hsame
    obtain ⟨r, hr, hrname⟩ := List.mem_map.mp hname
    have hqname := deref_objectName hq
    have hmem : (q.objectName, q.upgradePoint) ∈ laterUpgraders next.d p.objectName := by
      refine List.mem_map.mpr ⟨q, List.mem_filter.mpr ⟨List.mem_filter.mpr ⟨?_, ?_⟩, ?_⟩, rfl⟩
      · exact (Room.player_eq_some.mp (deref_eq_ok.mp hq)).1
      · exact decide_eq_true hpoint
      · rw [hqname, ← hrname]
        exact decide_eq_true (hafter r hr).2.1
    rw [← hsame, hlater] at hmem
    exact absurd hmem List.not_mem_nil

/-- A request that others come after: the answers to it are recorded, and the
loop goes on. -/
theorem Delivers.requestUpgrades_more (he : Delivers emit) {visited rest : List Player} {p : Player}
    (self : Logic Direct) (hcalm : self.env.disturbed = false) (hstate : self.d.state = .Upgrade)
    (hplayers : self.d.room.players.toList = (visited ++ [p]) ++ rest)
    (hpoint : p.upgradePoint > 0) (hmore : ∃ q ∈ rest, q.upgradePoint > 0)
    (hasked : ∀ name ∈ self.d.upgrades,
      ∃ q ∈ visited ++ [p], q.objectName = name ∧ q.upgradePoint > 0) :
    ∃ after later, emit (.requestUpgrade p.objectName p.upgradePoint) self = .ok after ∧
      after.env.disturbed = false ∧ after.d.state = .Upgrade ∧ after.d.room = self.d.room ∧
      (∀ name ∈ after.d.upgrades,
        ∃ q ∈ visited ++ [p], q.objectName = name ∧ q.upgradePoint > 0) ∧
      after.env.signals = self.env.signals ++ [.requestUpgrade p.objectName p.upgradePoint] ∧
      after.env.answers = self.env.answers ++ later ∧
      ∀ env, Logic.run post (later.map Prod.fst) ⟨self.d, env⟩ =
        .ok (later.map Prod.snd, ⟨after.d, env⟩) := by
  have hinsert {hash : QHash String (List UpgradeItem)} (done : List UpgradeItem)
      (hasked : ∀ name ∈ hash, ∃ q ∈ visited ++ [p], q.objectName = name ∧ q.upgradePoint > 0) :
      ∀ name ∈ AList.insert p.objectName done hash,
        ∃ q ∈ visited ++ [p], q.objectName = name ∧ q.upgradePoint > 0 := by
    intro name hname
    rcases (AList.mem_insert _).mp hname with rfl | hname
    · exact ⟨p, by simp, rfl, hpoint⟩
    · exact hasked name hname
  obtain ⟨after, later, hafter, ⟨hstate', hroom, hasked'⟩, hrest⟩ := he.quiet
    (fun d => d.state = .Upgrade ∧ d.room = self.d.room ∧ ∀ name ∈ d.upgrades,
      ∃ q ∈ visited ++ [p], q.objectName = name ∧ q.upgradePoint > 0)
    (.requestUpgrade p.objectName p.upgradePoint) self hcalm ⟨hstate, rfl, hasked⟩
    (fun c d hanswers ⟨hstate, hroom, hasked⟩ => by
      cases c with
      | upgradeReply name items =>
        obtain rfl : name = p.objectName := of_decide_eq_true hanswers
        have hmem : p ∈ d.room.players.toList := by simp [hroom, hplayers]
        obtain ⟨ret, d', hquiet, hd'⟩ := quiet_upgradeReply items
          (Room.player_eq_some.mpr ⟨hmem, rfl⟩) fun done _ =>
            (count_lt_upgraders (hroom ▸ hplayers) (hinsert done hasked) hmore).ne
        refine ⟨ret, d', hquiet, ?_⟩
        rcases hd' with rfl | ⟨done, rfl⟩
        · exact ⟨hstate, hroom, hasked⟩
        · exact ⟨hstate, hroom, hinsert done hasked⟩
      | _ => cases hanswers)
    (fun d d' ⟨_, hroom, _⟩ ⟨_, hroom', _⟩ => by
      simp [disturbs, laterUpgraders, upgraders, hroom, hroom'])
  exact ⟨after, later, hafter, hrest.1, hstate', hroom, hasked', hrest.2⟩

theorem Delivers.requestUpgrades (he : Delivers emit) (visited rest : List Player)
    (self : Logic Direct) (hcalm : self.env.disturbed = false)
    (hplayers : self.d.room.players.toList = visited ++ rest)
    (hasked : ∀ name ∈ self.d.upgrades, ∃ p ∈ visited, p.objectName = name ∧ p.upgradePoint > 0)
    (hpost : requestUpgrades post (rest.map (·.objectName)) self.queued = .ok mid)
    (hreach : system.Reachable mid) :
    ∃ after, Logic.requestUpgrades emit (rest.map (·.objectName)) self = .ok after ∧
      Follows self.env.answers mid after := by
  induction rest generalizing self visited mid with
  | nil =>
    cases hpost
    exact ⟨self, rfl, .refl self⟩
  | cons p rest ih =>
    have hrest : ∀ q ∈ p :: rest, q ∈ self.d.room.players.toList := fun q hq => by
      rw [hplayers]
      exact List.mem_append_right _ hq
    have hp : self.d.deref p.objectName = .ok p :=
      deref_eq_ok.mpr (Room.player_eq_some.mpr ⟨hrest p List.mem_cons_self, rfl⟩)
    have hnext : self.d.room.players.toList = (visited ++ [p]) ++ rest := by simp [hplayers]
    have hasked' : ∀ name ∈ self.d.upgrades,
        ∃ q ∈ visited ++ [p], q.objectName = name ∧ q.upgradePoint > 0 := by
      intro name hname
      obtain ⟨q, hq, hfields⟩ := hasked name hname
      exact ⟨q, List.mem_append_left _ hq, hfields⟩
    rw [List.map_cons, Logic.requestUpgrades, hp, Except.ok_bind]
    by_cases hpoint : p.upgradePoint > 0
    · rw [if_pos hpoint]
      rw [requestUpgrades_post_cons hrest hpoint] at hpost
      cases hpost
      by_cases hmore : ∃ q ∈ rest, q.upgradePoint > 0
      · obtain ⟨after, later, hafter, hcalm', hstate', hroom, hasked'', hsignals, hanswers, hrun⟩ :=
          he.requestUpgrades_more (self.modify (·.setState .Upgrade)) hcalm rfl hnext hpoint hmore
            hasked'
        rw [hafter, Except.ok_bind]
        have hpost := requestUpgrades_post_upgrade after.queued (fun q hq => by
          change q ∈ after.d.room.players.toList
          rw [hroom]
          exact hrest q (List.mem_cons_of_mem _ hq)) hstate'
        have hlater := hrun (after.env.signals ++ upgradeRequests rest)
        have hmid : self.env.signals ++ [.requestUpgrade p.objectName p.upgradePoint] =
            after.env.signals := hsignals.symm
        simp only [queued, hmid] at hreach ⊢
        obtain ⟨last, hlast, hfollows⟩ := ih (visited ++ [p]) after hcalm' (hroom ▸ hnext) hasked''
          hpost (reachable_run hreach hlater)
        rw [hanswers] at hfollows
        exact ⟨last, hlast, hfollows.prepend (congrArg Room.playerNames hroom) hlater⟩
      · have hnone : rest.filter (·.upgradePoint > 0) = [] := by
          simpa using hmore
        have hmid : self.env.signals ++ [.requestUpgrade p.objectName p.upgradePoint] ++
            upgradeRequests rest =
              self.env.signals ++ [.requestUpgrade p.objectName p.upgradePoint] := by
          rw [upgradeRequests, hnone, List.map_nil, List.append_nil]
        have hsorted := self.d.room.players.sorted
        rw [hplayers] at hsorted
        have hlt := (List.pairwise_cons.mp (List.pairwise_append.mp hsorted).2.1).1
        have hlater := laterUpgraders_eq_nil hplayers hmore
        simp only [queued, hmid] at hreach ⊢
        obtain ⟨next, after, hnext, hloop, hfollows⟩ :=
          he.requestUpgrades_last rest (self.modify (·.setState .Upgrade)) hcalm
            (fun q hq => ⟨hrest q (List.mem_cons_of_mem _ hq), hlt q hq, fun hq' =>
              hmore ⟨q, hq, hq'⟩⟩) hlater hreach
        rw [hnext, Except.ok_bind]
        exact ⟨after, hloop, hfollows⟩
    · rw [if_neg hpoint]
      refine ih (visited ++ [p]) self hcalm hnext hasked' ?_ hreach
      rw [List.map_cons, Logic.requestUpgrades] at hpost
      have hpost' : self.queued.d.deref p.objectName = .ok p := hp
      rwa [hpost', Except.ok_bind, if_neg hpoint] at hpost

theorem Delivers.startUpgrade (he : Delivers emit) (self : Logic Direct)
    (hcalm : self.env.disturbed = false) (hpost : startUpgrade post self.queued = .ok mid)
    (hreach : system.Reachable mid) :
    ∃ after, Logic.startUpgrade emit self = .ok after ∧ Follows self.env.answers mid after := by
  rw [Logic.startUpgrade] at hpost ⊢
  split at hpost
  · next hover =>
    rw [if_pos (by exact hover)]
    exact he.requestUpgrades [] self.d.room.players.toList
      (self.modify fun d => { d with upgrades := ∅ }) hcalm rfl
      (fun name hname => absurd hname (AList.notMem_empty _)) hpost hreach
  · cases hpost

theorem Delivers.startAction (he : Delivers emit) (self : Logic Direct)
    (hcalm : self.env.disturbed = false) (hpost : startAction post self.queued = .ok mid)
    (hreach : system.Reachable mid) :
    ∃ after, Logic.startAction emit self = .ok after ∧ Follows self.env.answers mid after := by
  rw [Logic.startAction] at hpost ⊢
  split at hpost
  · next hgoing =>
    rw [if_pos (by exact hgoing)]
    exact he.nextAction _ self hcalm hpost hreach
  · next hover =>
    rw [if_neg (by exact hover), he.silent .roundOver self fun c => rfl, Except.ok_bind]
    rw [post_apply, Except.ok_bind] at hpost
    exact he.startUpgrade (self.signalled .roundOver) hcalm hpost hreach

theorem actionOrder_waiting {G : Type} {emit : Emit G} {self : Logic G}
    (hmore : self.d.actionOrderRemainingSelections.count ≠ 0) :
    Logic.actionOrder emit self = .ok self :=
  if_neg hmore

/-- As long as somebody else still has selections left, a pick is only recorded. -/
theorem quiet_actionOrderReply {d : LogicP} {name other : String} (desired : List Int)
    (hother : other ∈ d.actionOrderRemainingSelections) (hne : other ≠ name) :
    ∃ ret d', Quiet d (.actionOrderReply name desired) ret d' ∧
      (d' = d ∨ ∃ chosen yields, d' = d.recordActionOrder name chosen yields) := by
  by_cases haccepts : d.Accepts (.actionOrderReply name desired)
  · obtain ⟨hmember, hstate, hasked⟩ := haccepts
    rcases hchosen : d.chosenOrders (d.actionOrderRemainingSelections.value name (-1)) desired with
      ⟨accepted, chosen, yields⟩
    refine ⟨accepted, _, fun {G} emit env => ?_, .inr ⟨chosen, yields, rfl⟩⟩
    have hready : (d.room.player name).isSome ∧ d.state = .ActionOrder :=
      ⟨Room.player_isSome.mpr hmember, hstate⟩
    have hmore : (d.recordActionOrder name chosen yields).actionOrderRemainingSelections.count ≠ 0 := by
      rw [ne_eq, QHash.count_eq_zero_iff]
      intro hnone
      exact hnone other (AList.mem_erase.mpr ⟨hne, hother⟩)
    rw [Logic.call, Logic.actionOrderReply, if_pos hready]
    dsimp only
    rw [if_pos hasked, hchosen]
    dsimp only
    rw [actionOrder_waiting (by exact hmore)]
    rfl
  · exact ⟨false, d, fun emit env => call_of_not_accepts haccepts, .inl rfl⟩

/-- A request that others come after: the picks are recorded, and the loop goes
on. -/
theorem Delivers.requestActionOrders_more (he : Delivers emit) {name : String} {rest : List String}
    {orders : List Int} {maximum selections : Int} (self : Logic Direct)
    (hcalm : self.env.disturbed = false) (hname : name ∉ rest) (hsome : rest ≠ [])
    (hrest : ∀ other ∈ rest, other ∈ self.d.actionOrderRemainingSelections) :
    ∃ after later, emit (.requestActionOrder name orders maximum selections) self = .ok after ∧
      after.env.disturbed = false ∧
      (∀ other ∈ rest, other ∈ after.d.actionOrderRemainingSelections) ∧
      after.d.rpsForActionWinners = self.d.rpsForActionWinners ∧ after.d.room = self.d.room ∧
      after.env.signals = self.env.signals ++
        [.requestActionOrder name orders maximum selections] ∧
      after.env.answers = self.env.answers ++ later ∧
      ∀ env, Logic.run post (later.map Prod.fst) ⟨self.d, env⟩ =
        .ok (later.map Prod.snd, ⟨after.d, env⟩) := by
  obtain ⟨other, hother⟩ := List.exists_mem_of_ne_nil rest hsome
  have hne {other : String} (hother : other ∈ rest) : other ≠ name := by
    rintro rfl
    exact hname hother
  obtain ⟨after, later, hafter, ⟨hrest', hwinners, hroom⟩, hcalm', hsignals⟩ := he.quiet
    (fun d => (∀ other ∈ rest, other ∈ d.actionOrderRemainingSelections) ∧
      d.rpsForActionWinners = self.d.rpsForActionWinners ∧ d.room = self.d.room)
    (.requestActionOrder name orders maximum selections) self hcalm ⟨hrest, rfl, rfl⟩
    (fun c d hanswers ⟨hrest, hwinners, hroom⟩ => by
      cases c with
      | actionOrderReply replier desired =>
        obtain rfl : replier = name := of_decide_eq_true hanswers
        obtain ⟨ret, d', hquiet, hd'⟩ :=
          quiet_actionOrderReply desired (hrest other hother) (hne hother)
        refine ⟨ret, d', hquiet, ?_⟩
        rcases hd' with rfl | ⟨chosen, yields, rfl⟩
        · exact ⟨hrest, hwinners, hroom⟩
        · exact ⟨fun other hother => AList.mem_erase.mpr ⟨hne hother, hrest other hother⟩,
            hwinners, hroom⟩
      | _ => cases hanswers)
    (fun _ _ _ _ => rfl)
  exact ⟨after, later, hafter, hcalm', hrest', hwinners, hroom, hsignals⟩

theorem Delivers.requestActionOrders (he : Delivers emit) {orders : List Int}
    {striving : QHash String Int} (names : List String) (self : Logic Direct)
    (hcalm : self.env.disturbed = false) (hnodup : names.Nodup)
    (hasked : ∀ name ∈ names, name ∈ self.d.actionOrderRemainingSelections)
    (hpost : requestActionOrders post orders striving names self.queued = .ok mid)
    (hreach : system.Reachable mid) :
    ∃ after, Logic.requestActionOrders emit orders striving names self = .ok after ∧
      Follows self.env.answers mid after := by
  induction names generalizing self mid with
  | nil =>
    cases hpost
    exact ⟨self, rfl, .refl self⟩
  | cons name rest ih =>
    obtain ⟨hname, hnodup⟩ := List.nodup_cons.mp hnodup
    rw [requestActionOrders_post] at hpost
    cases hpost
    rw [Logic.requestActionOrders]
    by_cases hsome : rest = []
    · subst hsome
      obtain ⟨after, hafter, hfollows, _⟩ := he.last (.requestActionOrder name orders
        self.d.rpsForActionWinners.length (striving.value name 0)) self hcalm hreach
      rw [hafter, Except.ok_bind]
      exact ⟨after, rfl, hfollows⟩
    · obtain ⟨after, later, hafter, hcalm', hasked', hwinners, hroom, hsignals, hanswers, hrun⟩ :=
        he.requestActionOrders_more self hcalm hname hsome
          (fun other hother => hasked other (List.mem_cons_of_mem _ hother))
      rw [hafter, Except.ok_bind]
      have hpost := requestActionOrders_post orders striving rest after.queued
      have hmid : self.queued.env ++ (name :: rest).map (fun name =>
          .requestActionOrder name orders self.queued.d.rpsForActionWinners.length
            (striving.value name 0)) =
          after.queued.env ++ rest.map fun name =>
            .requestActionOrder name orders after.queued.d.rpsForActionWinners.length
              (striving.value name 0) := by
        simp only [queued, hsignals, hwinners, List.map_cons, List.append_assoc,
          List.singleton_append]
      rw [hmid] at hreach ⊢
      have hlater := hrun (after.queued.env ++ rest.map fun name =>
        .requestActionOrder name orders after.queued.d.rpsForActionWinners.length
          (striving.value name 0))
      obtain ⟨last, hlast, hfollows⟩ := ih after hcalm' hnodup hasked' hpost
        (reachable_run hreach hlater)
      rw [hanswers] at hfollows
      exact ⟨last, hlast, hfollows.prepend (congrArg Room.playerNames hroom) hlater⟩

theorem strivingNames_nodup (d : LogicP) : d.strivingNames.Nodup :=
  (List.perm_insertionSort (· ≤ ·) _).nodup_iff.mpr d.strivingActionCount.nodupKeys

theorem Delivers.startActionOrder (he : Delivers emit) (self : Logic Direct)
    (hcalm : self.env.disturbed = false) (hpost : startActionOrder post self.queued = .ok mid)
    (hreach : system.Reachable mid) :
    ∃ after, Logic.startActionOrder emit self = .ok after ∧ Follows self.env.answers mid after := by
  rw [Logic.startActionOrder] at hpost ⊢
  split at hpost
  · next hnothing =>
    rw [if_pos (by exact hnothing)]
    obtain ⟨confirmed, hconfirmed, hpost⟩ := Except.bind_eq_ok.mp hpost
    have hconfirmed' : LogicP.handOut self.d.remainingActionOrders 0 self.d.leftoverPlayers
        self.d.confirmedActionOrders = .ok confirmed := hconfirmed
    rw [hconfirmed', Except.ok_bind, he.silent _ _ fun c => rfl, Except.ok_bind]
    rw [post_apply, Except.ok_bind] at hpost
    exact he.startAction _ hcalm hpost hreach
  · next hsome =>
    rw [if_neg (by exact hsome)]
    refine he.requestActionOrders self.d.strivingNames (self.modify LogicP.enterActionOrder) hcalm
      (strivingNames_nodup self.d) (fun name hname => ?_) hpost hreach
    exact QHash.mem_foldl_insert.mpr (.inl hname)

theorem Delivers.rpsForAction (he : Delivers emit) (self : Logic Direct)
    (hcalm : self.env.disturbed = false) (hpost : rpsForAction post self.queued = .ok mid)
    (hreach : system.Reachable mid) :
    ∃ after, Logic.rpsForAction emit self = .ok after ∧ Follows self.env.answers mid after := by
  rw [Logic.rpsForAction] at hpost ⊢
  split at hpost
  · next hcount =>
    rw [if_pos (by exact hcount), he.silent _ _ fun c => rfl, Except.ok_bind]
    rw [post_apply, Except.ok_bind] at hpost
    dsimp only at hpost ⊢
    split at hpost
    · next htie =>
      rw [if_pos (by exact htie)]
      exact he.startRpsForAction _ hcalm hpost hreach
    · next hsome =>
      rw [if_neg (by exact hsome)]
      exact he.startActionOrder _ hcalm hpost hreach
  · next hcount =>
    rw [if_neg (by exact hcount)]
    cases hpost
    exact ⟨self, rfl, .refl self⟩

theorem Delivers.startRpsForActionOrder (he : Delivers emit) (self : Logic Direct)
    (hcalm : self.env.disturbed = false)
    (hpost : startRpsForActionOrder post self.queued = .ok mid) (hreach : system.Reachable mid) :
    ∃ after, Logic.startRpsForActionOrder emit self = .ok after ∧
      Follows self.env.answers mid after := by
  rw [Logic.startRpsForActionOrder] at hpost ⊢
  dsimp only at hpost ⊢
  split at hpost
  · next hnone =>
    rw [if_pos (by exact hnone)]
    exact he.startActionOrder (self.modify LogicP.confirmUncontested) hcalm hpost hreach
  · next hsome =>
    rw [if_neg (by exact hsome)]
    split at hpost
    · cases hpost
    · next horder =>
      rw [if_neg (by exact horder)]
      cases hpost
      obtain ⟨after, hafter, hfollows, _⟩ := he.last _
        ((self.modify LogicP.confirmUncontested).modify (·.enterRpsForActionOrder
          (self.modify LogicP.confirmUncontested).d.lowestContestedOrder)) hcalm hreach
      exact ⟨after, hafter, hfollows⟩

theorem Delivers.actionOrder (he : Delivers emit) (self : Logic Direct)
    (hcalm : self.env.disturbed = false) (hpost : actionOrder post self.queued = .ok mid)
    (hreach : system.Reachable mid) :
    ∃ after, Logic.actionOrder emit self = .ok after ∧ Follows self.env.answers mid after := by
  rw [Logic.actionOrder] at hpost ⊢
  split at hpost
  · next hlast =>
    rw [if_pos (by exact hlast)]
    exact he.startRpsForActionOrder self hcalm hpost hreach
  · next hmore =>
    rw [if_neg (by exact hmore)]
    cases hpost
    exact ⟨self, rfl, .refl self⟩

theorem Delivers.rpsForActionOrder (he : Delivers emit) (self : Logic Direct)
    (hcalm : self.env.disturbed = false) (hpost : rpsForActionOrder post self.queued = .ok mid)
    (hreach : system.Reachable mid) :
    ∃ after, Logic.rpsForActionOrder emit self = .ok after ∧
      Follows self.env.answers mid after := by
  rw [Logic.rpsForActionOrder] at hpost ⊢
  dsimp only at hpost ⊢
  split at hpost
  · next hcount =>
    rw [if_pos (by exact hcount), he.silent _ _ fun c => rfl, Except.ok_bind]
    rw [post_apply, Except.ok_bind] at hpost
    exact he.startRpsForActionOrder _ hcalm hpost hreach
  · next hcount =>
    rw [if_neg (by exact hcount)]
    cases hpost
    exact ⟨self, rfl, .refl self⟩

theorem Delivers.upgrade (he : Delivers emit) (self : Logic Direct)
    (hcalm : self.env.disturbed = false) (hpost : upgrade post self.queued = .ok mid)
    (hreach : system.Reachable mid) :
    ∃ after, Logic.upgrade emit self = .ok after ∧ Follows self.env.answers mid after := by
  rw [Logic.upgrade] at hpost ⊢
  split at hpost
  · next hover =>
    rw [if_pos (by exact hover)]
    split at hpost
    · next hcount =>
      rw [if_pos (by exact hcount)]
      obtain ⟨room, hroom, hpost⟩ := Except.bind_eq_ok.mp hpost
      have hroom' : LogicP.performUpgrades self.d.room self.d.upgrades.entries = .ok room := hroom
      rw [hroom', Except.ok_bind]
      dsimp only at hpost ⊢
      split at hpost
      · next hgame =>
        rw [if_pos (by exact hgame)]
        cases hpost
        obtain ⟨after, hafter, hfollows, _⟩ := he.last (.gameOver room.winnerPlayerNames)
          (self.modify fun d => { d with room := room.resetUpgrades, state := .BeforeRoundStart })
          hcalm hreach
        exact ⟨after, hafter, hfollows⟩
      · next hgame =>
        rw [if_neg (by exact hgame)]
        cases hpost
        obtain ⟨after, hafter, hfollows, _⟩ := he.last (.upgradeResult self.d.upgrades)
          (self.modify fun d => { d with room := room, state := .BeforeRoundStart }) hcalm hreach
        exact ⟨after, hafter, hfollows⟩
    · next hcount =>
      rw [if_neg (by exact hcount)]
      cases hpost
      exact ⟨self, rfl, .refl self⟩
  · next hgoing =>
    rw [if_neg (by exact hgoing)]
    cases hpost
    exact ⟨self, rfl, .refl self⟩

end Logic

end QMdmmCore
