import QMdmm.Core.Membership
import QMdmm.Core.Spending
import QMdmm.Networking.Session

namespace QMdmmCore

open Data Logic

namespace LogicP

variable {d : LogicP} {conf : LogicConfiguration}

/-- Different orders that are all still to be had are a legal choice. -/
theorem checkDesiredOrders_of_remaining {desired chosen : List Int} {yields : Nat}
    (hnodup : (chosen ++ desired).Nodup) (hremaining : ∀ order ∈ desired,
      order ∈ d.remainingActionOrders) :
    d.checkDesiredOrders desired chosen yields = some (chosen ++ desired, yields) := by
  induction desired generalizing chosen with
  | nil => rw [List.append_nil, checkDesiredOrders]
  | cons order rest ih =>
    obtain ⟨⟨hlo, hhi⟩, hopen⟩ :=
      mem_remainingActionOrders.mp (hremaining order List.mem_cons_self)
    have hnew : order ∉ chosen := fun hmem =>
      (List.nodup_append.mp hnodup).2.2 order hmem order List.mem_cons_self rfl
    have hconfirmed : (!d.confirmedActionOrders.contains order) = true := by
      simpa [QHash.contains] using hopen
    rw [List.append_cons] at hnodup ⊢
    rw [checkDesiredOrders, if_neg (by omega), if_pos ⟨hlo, hhi, hconfirmed, hnew⟩]
    exact ih hnodup fun other hother => hremaining other (List.mem_cons_of_mem _ hother)

/-- So many of them are applied as chosen. -/
theorem chosenOrders_of_remaining {selections : Int} {desired : List Int}
    (hlength : (desired.length : Int) = selections) (hnodup : desired.Nodup)
    (hremaining : ∀ order ∈ desired, order ∈ d.remainingActionOrders) :
    d.chosenOrders selections desired = (true, desired, 0) := by
  have hcheck : d.checkDesiredOrders desired [] 0 = some (desired, 0) :=
    checkDesiredOrders_of_remaining hnodup hremaining
  rw [chosenOrders, if_pos hlength, hcheck]

/-- So are the first of those that are still to be had. -/
theorem chosenOrders_take {selections : Int} (hpos : 0 ≤ selections)
    (hle : selections ≤ d.remainingActionOrders.length) :
    d.chosenOrders selections (d.remainingActionOrders.take selections.toNat) =
      (true, d.remainingActionOrders.take selections.toNat, 0) := by
  have hsub := List.take_sublist selections.toNat d.remainingActionOrders
  apply chosenOrders_of_remaining
  · rw [List.length_take]
    omega
  · exact d.remainingActionOrders_nodup.sublist hsub
  · exact fun order horder => hsub.subset horder

/-- The list `upgradeReply` falls back to is as good as a feasible reply. -/
theorem upgradeFeasible_feasibleItems (hsound : d.room.logicConfiguration.Sound) {name : String}
    {p : Player} (hplayer : d.room.player name = some p)
    (h : p.Affords d.room.logicConfiguration) (hpoint : 0 < p.upgradePoint) :
    d.upgradeFeasible name (feasibleItems d.room.logicConfiguration p) = .ok true := by
  have hlength := length_feasibleItems hsound h
  apply upgradeFeasible_eq_ok hplayer
  refine iff_of_true rfl ⟨count_feasibleItems_le hsound h.toStatsInBounds, ?_⟩
  omega

/-- No upgrade at all is no way to spend a point. -/
theorem upgradeFeasible_nil {name : String} {p : Player} (hplayer : d.room.player name = some p)
    (hpoint : 0 < p.upgradePoint) : d.upgradeFeasible name [] = .ok false := by
  apply upgradeFeasible_eq_ok hplayer
  refine iff_of_false (by decide) fun hfeasible => ?_
  have hlength := hfeasible.2
  rw [List.length_nil] at hlength
  omega

end LogicP

namespace Logic

open LogicP

variable {self self' : Logic (List Signal)}

/-- What makes a call return true once it is accepted. -/
def Legal (d : LogicP) : Call → Prop
  | .actionOrderReply name desired =>
    (d.chosenOrders (d.actionOrderRemainingSelections.value name (-1)) desired).1 = true
  | .actionReply name action toPlayer toPlace =>
    d.actionFeasible name action toPlayer toPlace = .ok true
  | .upgradeReply name items => d.upgradeFeasible name items = .ok true
  | _ => True

theorem CallStep.ret_eq_true {c : Call} {ret : Bool} (hstep : CallStep self c ret self')
    (haccepts : self.d.Accepts c) (hlegal : Legal self.d c) : ret = true := by
  cases hstep with
  | rejected hreject => exact absurd haccepts hreject
  | addPlayer | removePlayer | roundStart | rpsForAction | rpsForActionOrder => rfl
  | pick _ _ _ hchosen | lastPick _ _ _ hchosen =>
    rw [Legal, hchosen] at hlegal
    exact hlegal
  | action _ _ hfeasible | upgrade _ _ _ hfeasible =>
    exact Except.ok.inj (hfeasible.symm.trans hlegal)

theorem exists_call_true (hreach : system.Reachable self) {c : Call}
    (haccepts : self.d.Accepts c) (hlegal : Legal self.d c) :
    ∃ logic, self.call post c = .ok (true, logic) := by
  obtain ⟨ret, logic, hcall⟩ := call_ok hreach c
  obtain rfl := (call_cases hcall).ret_eq_true haccepts hlegal
  exact ⟨logic, hcall⟩

/-- The empty list does what the list it is replaced with does. -/
theorem upgradeReply_nil {name : String} {p : Player} (hplayer : self.d.room.player name = some p)
    (hstate : self.d.state = .Upgrade) (hnew : name ∉ self.d.upgrades)
    (hsound : self.d.room.logicConfiguration.Sound)
    (haffords : p.Affords self.d.room.logicConfiguration) (hpoint : 0 < p.upgradePoint)
    {logic : Logic (List Signal)}
    (hcall : self.call post (.upgradeReply name
      (feasibleItems self.d.room.logicConfiguration p)) = .ok (true, logic)) :
    self.call post (.upgradeReply name []) = .ok (false, logic) := by
  have hready : self.d.state = .Upgrade ∧ !self.d.upgrades.contains name := by
    simp [hstate, QHash.contains, hnew]
  simp only [Logic.call, Logic.upgradeReply, hplayer, if_pos hready,
    upgradeFeasible_feasibleItems hsound hplayer haffords hpoint,
    upgradeFeasible_nil hplayer hpoint, Except.ok_bind] at hcall ⊢
  obtain ⟨after, hupgrade, heq⟩ := Except.bind_eq_ok.mp hcall
  cases heq
  exact Except.bind_eq_ok.mpr ⟨logic, hupgrade, rfl⟩

end Logic

end QMdmmCore

namespace QMdmmNetworking

open QMdmmCore Data Logic LogicP

namespace LogicRunnerP

/-- What the handler of a signal asks which agent for. -/
def requests : Signal → List (String × Request)
  | .requestRpsForAction playerNames =>
    playerNames.map fun playerName => (playerName, .rockPaperScissors playerNames 0)
  | .requestActionOrder playerName availableOrders maximumOrderNum selections =>
    [(playerName, .actionOrder availableOrders maximumOrderNum selections)]
  | .requestRpsForActionOrder playerNames strivedOrder =>
    playerNames.map fun playerName => (playerName, .rockPaperScissors playerNames strivedOrder)
  | .requestAction playerName actionOrder => [(playerName, .action actionOrder)]
  | .requestUpgrade playerName upgradePoint => [(playerName, .upgrade upgradePoint)]
  | _ => []

/-- `agentXxxReplied`: the slot call that the reply of an agent becomes. -/
def replied (playerName : String) : Reply → Call
  | .rockPaperScissors rps => .rpsReply playerName rps
  | .actionOrder order => .actionOrderReply playerName order
  | .action act toPlayer toPlace => .actionReply playerName act toPlayer toPlace
  | .upgrade items => .upgradeReply playerName items

/-- A player that has been asked and has not answered is waited for. -/
theorem accepts_of_awaits {logic : Logic (List Signal)} (hneg : NegotiationInv logic)
    {answered : List String} {signal : Signal} (hawaits : Dialogue.Awaits logic.d answered signal)
    {name : String} {req : Request} (hreq : (name, req) ∈ requests signal) (hopen : name ∉ answered)
    {reply : Reply} (hkind : reply.requestId = req.requestId) :
    logic.d.Accepts (replied name reply) := by
  have hphase := hneg.phase
  cases signal with
  | requestRpsForAction playerNames =>
    obtain ⟨_, hname, heq⟩ := List.mem_map.mp hreq
    cases heq
    obtain ⟨hstate, rfl, hreplies⟩ := hawaits
    cases reply with
    | rockPaperScissors =>
      exact ⟨Room.alivePlayerNames_subset hname, .inl ⟨hstate, fun hp => hopen (hreplies _ hp)⟩⟩
    | _ => cases hkind
  | requestRpsForActionOrder playerNames strivedOrder =>
    obtain ⟨_, hname, heq⟩ := List.mem_map.mp hreq
    cases heq
    obtain ⟨hstate, _, rfl, hreplies⟩ := hawaits
    rw [PhaseInv, hstate] at hphase
    cases reply with
    | rockPaperScissors =>
      exact ⟨hphase.2.1.desired_mem hname, .inr ⟨hstate, fun hp => hopen (hreplies _ hp)⟩⟩
    | _ => cases hkind
  | requestActionOrder playerName availableOrders maximumOrderNum selections =>
    cases List.mem_singleton.mp hreq
    obtain ⟨hstate, rfl, hpos, hselections⟩ := hawaits
    have hvalue := hselections hopen
    rw [PhaseInv, hstate] at hphase
    cases reply with
    | actionOrder => exact ⟨(hphase.2.selections_le hpos hvalue).1, hstate, hvalue ▸ hpos.le⟩
    | _ => cases hkind
  | requestAction playerName actionOrder =>
    cases List.mem_singleton.mp hreq
    obtain ⟨hstate, p, hplayer, -⟩ := hawaits
    cases reply with
    | action => exact ⟨Room.player_isSome.mp (by rw [hplayer]; rfl), hstate⟩
    | _ => cases hkind
  | requestUpgrade playerName upgradePoint =>
    cases List.mem_singleton.mp hreq
    obtain ⟨hstate, ⟨p, hplayer, -⟩, hupgrades⟩ := hawaits
    cases reply with
    | upgrade =>
      exact ⟨Room.player_isSome.mp (by rw [hplayer]; rfl), hstate,
        fun hp => hopen (hupgrades _ hp)⟩
    | _ => cases hkind
  | _ => cases hreq

end LogicRunnerP

namespace Request

/-- The orders a request offers are ints. -/
def OrdersFit : Request → Prop
  | .actionOrder remainedOrders _ _ => ∀ order ∈ remainedOrders, FitsInt order
  | _ => True

/-- No element is taken from an exhausted array, and the loop ends. -/
def Suffices : Request → Prop
  | .actionOrder remainedOrders _ selectionNum =>
    0 ≤ selectionNum ∧ selectionNum ≤ remainedOrders.length
  | _ => True

/-- The default reply is the first orders of those that are offered. -/
theorem defaultOrders_payload {remainedOrders : List Int} {maximumOrder selectionNum : Int}
    (hfits : FitsInt selectionNum) (hints : ∀ order ∈ remainedOrders, FitsInt order)
    (hle : selectionNum ≤ remainedOrders.length) :
    ServerConnectionP.defaultOrders (payload (.actionOrder remainedOrders maximumOrder selectionNum))
      = remainedOrders.take selectionNum.toNat := by
  have harr : ((payload (.actionOrder remainedOrders maximumOrder selectionNum)).toObject.value
      "remainedOrders").toArray = remainedOrders.map .ofInt := rfl
  rw [ServerConnectionP.defaultOrders, selectionNum_payload hfits, harr]
  refine List.ext_getElem ?_ fun i hi hi' => ?_
  · rw [List.length_map, List.length_range, List.length_take]
    omega
  · rw [List.length_take] at hi'
    have hindex : i < remainedOrders.length := by omega
    simp only [List.getElem_map, List.getElem_range, List.getElem_take]
    simp only [List.getD_eq_getElem?_getD, List.getElem?_map, List.getElem?_eq_getElem hindex,
      Option.map_some, Option.getD_some]
    exact QJsonValue.toInt_ofInt (hints _ (List.getElem_mem hindex)) 0

end Request

namespace ServerConnectionP

variable {self : Dialogue} {signal : Signal} {name : String}

/-- The default reply to a request that is still to be answered is applied as it
is sent; the empty upgrade list counts as one that spends the player's points. -/
theorem default_reply_consumed (hreach : Dialogue.system.Reachable self)
    (hsignal : signal ∈ self.signals) {req : Request}
    (hreq : (name, req) ∈ LogicRunnerP.requests signal) (hopen : name ∉ self.answered)
    {conn : ServerConnectionP} (hflight : conn.InFlight req) (hints : req.OrdersFit)
    (random : RockPaperScissors) :
    req.Suffices ∧ ∃ reply, (conn.executeDefaultReply random).2 = [.reply reply] ∧
      ((∀ upgradePoint, req ≠ .upgrade upgradePoint) →
        ∃ logic, self.logic.call post (LogicRunnerP.replied name reply) = .ok (true, logic)) ∧
      ∀ upgradePoint, req = .upgrade upgradePoint →
        self.logic.d.room.logicConfiguration.Accepted →
        ∃ items logic, (items.length : Int) = upgradePoint ∧
          self.logic.d.upgradeFeasible name items = .ok true ∧
          self.logic.call post (.upgradeReply name items) = .ok (true, logic) ∧
          self.logic.call post (LogicRunnerP.replied name reply) = .ok (false, logic) := by
  have hlogic := Dialogue.logic_reachable hreach
  have hneg := negotiationInv_invariant.of_reachable hlogic
  have hawaits := Dialogue.awaits_invariant.of_reachable hreach signal hsignal
  have hphase := hneg.phase
  have haccepts (reply : Reply) (hkind : reply.requestId = req.requestId) :
      self.logic.d.Accepts (LogicRunnerP.replied name reply) :=
    LogicRunnerP.accepts_of_awaits hneg hawaits hreq hopen hkind
  have hdefault : (conn.executeDefaultReply random).2 = conn.defaultReply random req.requestId := by
    rw [executeDefaultReply, hflight.currentRequest]
  rw [hdefault]
  cases signal with
  | requestRpsForAction playerNames =>
    obtain ⟨_, -, heq⟩ := List.mem_map.mp hreq
    cases heq
    exact ⟨trivial, _, rfl, fun _ => exists_call_true hlogic (haccepts _ rfl) trivial,
      fun _ h => by cases h⟩
  | requestRpsForActionOrder playerNames strivedOrder =>
    obtain ⟨_, -, heq⟩ := List.mem_map.mp hreq
    cases heq
    exact ⟨trivial, _, rfl, fun _ => exists_call_true hlogic (haccepts _ rfl) trivial,
      fun _ h => by cases h⟩
  | requestActionOrder playerName availableOrders maximumOrderNum selections =>
    cases List.mem_singleton.mp hreq
    obtain ⟨hstate, rfl, hpos, hselections⟩ := hawaits
    have hvalue := hselections hopen
    rw [PhaseInv, hstate] at hphase
    obtain ⟨-, hle⟩ := hphase.2.selections_le hpos hvalue
    have horders : defaultOrders conn.currentRequestValue =
        self.logic.d.remainingActionOrders.take selections.toNat := by
      rw [hflight.currentRequestValue]
      exact Request.defaultOrders_payload hflight.fits hints hle
    refine ⟨⟨hpos.le, hle⟩, .actionOrder (defaultOrders conn.currentRequestValue), rfl,
      fun _ => exists_call_true hlogic (haccepts _ rfl) ?_, fun _ h => by cases h⟩
    change (self.logic.d.chosenOrders _ _).1 = true
    rw [horders, hvalue, chosenOrders_take hpos.le hle]
  | requestAction playerName actionOrder =>
    cases List.mem_singleton.mp hreq
    obtain ⟨hstate, p, hplayer, halive⟩ := hawaits
    refine ⟨trivial, _, rfl, fun _ => exists_call_true hlogic (haccepts _ rfl) ?_,
      fun _ h => by cases h⟩
    change self.logic.d.actionFeasible _ .DoNothing _ _ = .ok true
    rw [actionFeasible, deref_eq_ok.mpr hplayer]
    exact congrArg Except.ok halive
  | requestUpgrade playerName upgradePoint =>
    cases List.mem_singleton.mp hreq
    obtain ⟨hstate, ⟨p, hplayer, rfl, hpoint⟩, hupgrades⟩ := hawaits
    have hnew : name ∉ self.logic.d.upgrades := fun hp => hopen (hupgrades _ hp)
    refine ⟨trivial, .upgrade [], rfl, fun h => absurd rfl (h _), fun _ h hconf => ?_⟩
    cases h
    have hsolvent := (solvent_invariant _ hconf.sound).of_reachable hlogic rfl
    have haffords := hsolvent.affords (by rw [hstate]; decide) p (Room.player_eq_some.mp hplayer).1
    have hfeasible := upgradeFeasible_feasibleItems hconf.sound hplayer haffords hpoint
    obtain ⟨logic, hcall⟩ := exists_call_true hlogic
      (haccepts (.upgrade (feasibleItems self.logic.d.room.logicConfiguration p)) rfl) hfeasible
    have hlength := length_feasibleItems hconf.sound haffords
    rw [max_eq_right hpoint.le] at hlength
    exact ⟨_, logic, hlength, hfeasible, hcall,
      upgradeReply_nil hplayer hstate hnew hconf.sound haffords hpoint hcall⟩
  | _ => cases hreq

/-- Two winners of three players, who are offered the orders 1 and 2. -/
def twoWinnersCalls : List Call := [
  .addPlayer "A", .addPlayer "B", .addPlayer "C", .roundStart,
  .rpsReply "A" .Rock, .rpsReply "B" .Rock, .rpsReply "C" .Scissors]

/-- Of the two orders that A is offered, its default reply takes the first. -/
theorem default_reply_consumed_order :
    ∃ (self : Dialogue) (conn : ServerConnectionP) (reply : Reply),
      .requestActionOrder "A" [1, 2] 2 1 ∈ self.signals ∧
      (conn.executeDefaultReply .Rock).2 = [.reply reply] ∧
      ∃ logic, self.logic.call post (LogicRunnerP.replied "A" reply) = .ok (true, logic) := by
  obtain ⟨self, hreach, hasked⟩ := Dialogue.exists_run .defaults (fun _ _ => true) twoWinnersCalls
    (fun self => decide (.requestActionOrder "A" [1, 2] 2 1 ∈ self.signals ∧ "A" ∉ self.answered))
    (by decide +kernel)
  obtain ⟨hsignal, hopen⟩ := of_decide_eq_true hasked
  have hfits : (Request.actionOrder [1, 2] 2 1).Fits := ⟨by decide, by decide⟩
  have hflight := inFlight_request (new ⟨"A", "A", StateMaskOnline⟩ .defaults 20000) hfits
  obtain ⟨-, reply, hreply, hconsumed, -⟩ := default_reply_consumed (.of_guarded hreach) hsignal
    (List.mem_singleton_self _) hopen hflight (by unfold Request.OrdersFit FitsInt; decide) .Rock
  exact ⟨self, _, reply, hsignal, hreply, hconsumed fun _ h => by cases h⟩

/-- A configuration that is not accepted: knives are sharper than they may be. -/
def inverted : LogicConfiguration where
  object := [
    ("initialKnifeDamage", .ofInt 3), ("maximumKnifeDamage", .ofInt 0),
    ("initialHorseDamage", .ofInt 2), ("maximumHorseDamage", .ofInt 4),
    ("initialMaxHp", .ofInt 1), ("maximumMaxHp", .ofInt 3), ("punishHpModifier", .ofInt 0)]

/-- There the list that takes the place of the empty one spends four points of one. -/
theorem default_reply_overspends :
    ∃ (self : Dialogue) (conn : ServerConnectionP) (reply : Reply) (logic : Logic (List Signal)),
      Dialogue.system.Reachable self ∧ .requestUpgrade "A" 1 ∈ self.signals ∧
      "A" ∉ self.answered ∧ conn.InFlight (.upgrade 1) ∧
      (conn.executeDefaultReply .Rock).2 = [.reply reply] ∧
      self.logic.call post (LogicRunnerP.replied "A" reply) = .ok (false, logic) ∧
      (logic.d.upgrades.value "A" []).length = 4 := by
  obtain ⟨self, hreach, hasked⟩ := Dialogue.exists_run inverted (fun _ _ => true) slashCalls
    (fun self => decide (.requestUpgrade "A" 1 ∈ self.signals ∧ "A" ∉ self.answered) &&
      (self.logic.call post (.upgradeReply "A" [])).toOption.any
        fun result : Bool × Logic (List Signal) =>
          !result.1 && decide ((result.2.d.upgrades.value "A" []).length = 4)) (by decide +kernel)
  obtain ⟨hopen, hcall⟩ := Bool.and_eq_true_iff.mp hasked
  obtain ⟨hsignal, hopen⟩ := of_decide_eq_true hopen
  have hfits : (Request.upgrade 1).Fits := ⟨by decide, by decide⟩
  have hflight := inFlight_request (new ⟨"A", "A", StateMaskOnline⟩ .defaults 20000) hfits
  obtain ⟨⟨ret, logic⟩, hcall, hresult⟩ := Except.toOption_any.mp hcall
  obtain ⟨hret, hlength⟩ := Bool.and_eq_true_iff.mp hresult
  obtain rfl : ret = false := by simpa using hret
  exact ⟨self, _, .upgrade [], logic, .of_guarded hreach, hsignal, hopen, hflight, rfl, hcall,
    of_decide_eq_true hlength⟩

end ServerConnectionP

end QMdmmNetworking
