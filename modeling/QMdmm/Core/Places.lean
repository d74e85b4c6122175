import QMdmm.Core.RoomSteps

namespace QMdmmCore

open Data Logic

namespace Room

/-- Everybody stands in the Village or in one of the cities, of which there are
as many as players. -/
def PlacesExist (self : Room) : Prop :=
  ∀ p ∈ self.players.toList, 0 ≤ p.place ∧ p.place ≤ self.playerNames.length

theorem PlacesExist.setPlayer {self : Room} (h : self.PlacesExist) {p : Player}
    (hp : 0 ≤ p.place ∧ p.place ≤ self.playerNames.length) : (self.setPlayer p).PlacesExist := by
  intro q hq
  rw [setPlayer_playerNames]
  rcases OrderedMap.mem_replace.mp hq with ⟨rfl, _⟩ | ⟨hq, _⟩
  · exact hp
  · exact h q hq

theorem prepareForRoundStart_placesExist (self : Room) : self.prepareForRoundStart.PlacesExist := by
  intro p hp
  obtain ⟨seat, old, hlo, hhi, _, rfl⟩ := mem_prepareForRoundStart hp
  rw [prepareForRoundStart_playerNames]
  simp only [Player.prepareForRoundStart]
  omega

theorem PlacesExist.resetUpgrades {self : Room} (h : self.PlacesExist) :
    self.resetUpgrades.PlacesExist := by
  intro p hp
  obtain ⟨old, hold, rfl⟩ := List.mem_map.mp hp
  rw [resetUpgrades_playerNames]
  exact h old hold

theorem length_addPlayer {self : Room} {name : String} (habsent : name ∉ self.playerNames) :
    (self.addPlayer name).2.playerNames.length = self.playerNames.length + 1 := by
  rw [addPlayer_of_notMem habsent]
  exact OrderedMap.length_keys_insert habsent

theorem PlacesExist.addPlayer {self : Room} (h : self.PlacesExist) {name : String}
    (habsent : name ∉ self.playerNames) : (self.addPlayer name).2.PlacesExist := by
  intro p hp
  rw [length_addPlayer habsent]
  rw [addPlayer_of_notMem habsent] at hp
  rcases (OrderedMap.mem_insert habsent).mp hp with rfl | hp
  · simp only [Player.new, Village]
    omega
  · have := h p hp
    push_cast
    omega

theorem PlacesExist.sameSeat {self : Room} (h : self.PlacesExist) {p q : Player}
    (hp : p ∈ self.players.toList) (hseat : Player.SameSeat p q) : (self.setPlayer q).PlacesExist :=
  h.setPlayer (by rw [hseat.place]; exact h p hp)

/-- Who is left when a player goes stands in a city that is left. -/
theorem PlacesExist.removePlayer_iff {self : Room} (h : self.PlacesExist) {name : String}
    (hmember : name ∈ self.playerNames) :
    (self.removePlayer name).2.PlacesExist ↔
      ∀ p ∈ self.players.toList, p.objectName ≠ name → p.place < self.playerNames.length := by
  have hlength : (self.players.erase name).keys.length + 1 = self.playerNames.length :=
    OrderedMap.length_keys_erase hmember
  have hmem (p : Player) : p ∈ (self.players.erase name).toList ↔
      p ∈ self.players.toList ∧ p.objectName ≠ name := by
    simp [OrderedMap.erase]
  rw [removePlayer_of_mem hmember]
  simp only [PlacesExist, hmem, playerNames] at hlength ⊢
  constructor
  · intro hleft p hp hname
    have := hleft p ⟨hp, hname⟩
    omega
  · rintro hleft p ⟨hp, hname⟩
    have hlt := hleft p hp hname
    have hlo := (h p hp).1
    omega

theorem PlacesExist.setPlayer_iff {self : Room} (h : self.PlacesExist) {p : Player}
    (hmember : p.objectName ∈ self.playerNames) :
    (self.setPlayer p).PlacesExist ↔ 0 ≤ p.place ∧ p.place ≤ self.playerNames.length := by
  constructor
  · intro hset
    have := hset p (OrderedMap.mem_replace.mpr (.inl ⟨rfl, hmember⟩))
    rwa [setPlayer_playerNames] at this
  · exact h.setPlayer

theorem placesExist_resetUpgrades_iff {self : Room} :
    self.resetUpgrades.PlacesExist ↔ self.PlacesExist := by
  simp only [PlacesExist, resetUpgrades_playerNames]
  simp [Room.resetUpgrades, OrderedMap.map, Player.resetUpgrades]

end Room

namespace LogicP

variable {d d' : LogicP}

theorem deref_mem {name : String} {p : Player} (hp : d.deref name = .ok p) :
    p ∈ d.room.players.toList ∧ p.objectName ∈ d.room.playerNames := by
  have hmem := (Room.player_eq_some.mp (deref_eq_ok.mp hp)).1
  exact ⟨hmem, List.mem_map_of_mem hmem⟩

/-- An action that moves nobody leaves everybody in an existing place. -/
theorem performAction_placesExist {name toPlayer : String} {action : Action} {toPlace : Int}
    {ok : Bool} (h : d.room.PlacesExist) (hmove : ¬ (action = .Move ∨ action = .LetMove))
    (hperform : PerformAction d name action toPlayer toPlace ok d') : d'.room.PlacesExist := by
  cases hperform with
  | doNothing => exact h
  | @buyKnife source _ _ hsource => exact h.sameSeat (deref_mem hsource).1 source.buyKnife_sameSeat
  | @buyHorse source _ _ hsource => exact h.sameSeat (deref_mem hsource).1 source.buyHorse_sameSeat
  | @slash source target _ _ hsource htarget =>
    obtain ⟨hself, hslashed⟩ := source.slash_sameSeat d.room.logicConfiguration target
    apply (h.sameSeat (deref_mem hsource).1 hself).setPlayer
    rw [hslashed.place, Room.setPlayer_playerNames]
    exact h target (deref_mem htarget).1
  | @kick source target _ _ hsource htarget =>
    obtain ⟨hself, hkicked⟩ := source.kick_sameSeat d.room.logicConfiguration target
    apply (h.sameSeat (deref_mem hsource).1 hself).setPlayer
    rw [Room.setPlayer_playerNames]
    rcases hkicked with hkicked | hkicked
    · rw [hkicked.place]
      exact h target (deref_mem htarget).1
    · rw [hkicked.2, Village]
      omega
  | move | letMove => simp at hmove

/-- An action leaves everybody in an existing place exactly if it is no
accepted movement to a place that does not exist. -/
theorem performAction_placesExist_iff {name toPlayer : String} {action done : Action}
    {toPlace : Int} {accepted ok : Bool} (h : d.room.PlacesExist)
    (hfeasible : d.actionFeasible name action toPlayer toPlace = .ok accepted)
    (hdone : done = if accepted then action else .DoNothing)
    (hperform : PerformAction d name done toPlayer toPlace ok d') :
    d'.room.PlacesExist ↔ (accepted = true → action = .Move ∨ action = .LetMove →
      0 ≤ toPlace ∧ toPlace ≤ d.room.playerNames.length) := by
  by_cases hmove : done = .Move ∨ done = .LetMove
  · have haccepted : accepted = true := by
      cases accepted with
      | true => rfl
      | false =>
        rw [hdone] at hmove
        simp at hmove
    subst haccepted
    obtain rfl : done = action := hdone
    simp only [hmove, true_implies]
    obtain ⟨source, hsource, hfeasible⟩ := Except.bind_eq_ok.mp hfeasible
    cases hperform with
    | move hsource' =>
      obtain rfl := Except.ok.inj (hsource.symm.trans hsource')
      have hcan : source.canMove d.room.logicConfiguration toPlace = true := Except.ok.inj hfeasible
      simp only [Player.move, hcan, if_true, setPlayer_room]
      exact h.setPlayer_iff (deref_mem hsource).2
    | @letMove _ target _ _ hsource' htarget =>
      obtain rfl := Except.ok.inj (hsource.symm.trans hsource')
      have hcan : source.canLetMove d.room.logicConfiguration target toPlace = true := by
        have hany := Except.ok.inj hfeasible
        rwa [deref_eq_ok.mp htarget, Option.any_some] at hany
      simp only [Player.letMove, hcan, if_true, setPlayer_room]
      exact h.setPlayer_iff (deref_mem htarget).2
    | _ => simp at hmove
  · refine iff_of_true (performAction_placesExist h hmove hperform) fun haccepted haction => ?_
    rw [hdone, haccepted] at hmove
    exact absurd haction hmove

theorem performUpgrades_placesExist {room room' : Room}
    {entries : List (Sigma fun _ : String => List UpgradeItem)} (h : room.PlacesExist)
    (hroom : performUpgrades room entries = .ok room') : room'.PlacesExist := by
  induction entries generalizing room with
  | nil =>
    cases hroom
    exact h
  | cons entry rest ih =>
    rw [performUpgrades] at hroom
    split at hroom
    · cases hroom
    · next up hup =>
      obtain ⟨upgraded, hupgraded, hroom⟩ := Except.bind_eq_ok.mp hroom
      exact ih (h.sameSeat (Room.player_eq_some.mp hup).1 (upgradePlayer_sameSeat hupgraded)) hroom

/-- The check of `ClientP::notifyAction` on the place of a broadcast action,
for a client that knows `agentsCount` agents. -/
def placeChecked (agentsCount : Nat) : Signal → Bool
  | .actionResult _ .Move _ toPlace | .actionResult _ .LetMove _ toPlace =>
    !(toPlace < 0 || toPlace > agentsCount)
  | _ => true

/-- The condition on one call: a movement that is feasible ends in a place that
exists, and a player that leaves does not leave anybody in a city that goes. -/
def PlacesKept (d : LogicP) : Call → Prop
  | .actionReply name action toPlayer toPlace =>
    d.state = .Action → d.actionFeasible name action toPlayer toPlace = .ok true →
      action = .Move ∨ action = .LetMove → 0 ≤ toPlace ∧ toPlace ≤ d.room.playerNames.length
  | .removePlayer name =>
    d.state = .BeforeRoundStart → name ∈ d.room.playerNames →
      ∀ p ∈ d.room.players.toList, p.objectName ≠ name → p.place < d.room.playerNames.length
  | _ => True

end LogicP

namespace Logic

open LogicP

variable {self self' : Logic (List Signal)}

/-- A rejected call meets the condition: its action is nobody's, or not due. -/
theorem placesKept_of_rejected {d : LogicP} {c : Call} (hreject : ¬ d.Accepts c) :
    d.PlacesKept c := by
  cases c with
  | removePlayer name => exact fun hstate hmember => absurd ⟨hstate, hmember⟩ hreject
  | actionReply name action toPlayer toPlace =>
    intro hstate hfeasible
    obtain ⟨source, hsource, _⟩ := Except.bind_eq_ok.mp hfeasible
    have hmember := (deref_mem hsource).2
    rw [deref_objectName hsource] at hmember
    exact absurd ⟨hmember, hstate⟩ hreject
  | _ => trivial

theorem RoomStep.placesExist_iff {d : LogicP} {c : Call} {room : Room} (hstep : RoomStep d c room)
    (h : d.room.PlacesExist) : room.PlacesExist ↔ d.PlacesKept c := by
  cases hstep with
  | rejected hreject => exact iff_of_true h (placesKept_of_rejected hreject)
  | rpsReply | actionOrderReply | upgradeReply => exact iff_of_true h trivial
  | addPlayer _ habsent => exact iff_of_true (h.addPlayer habsent).resetUpgrades trivial
  | removePlayer hstate hmember =>
    rw [Room.placesExist_resetUpgrades_iff, h.removePlayer_iff hmember]
    exact ⟨fun hleft _ _ => hleft, fun hkept => hkept hstate hmember⟩
  | roundStart => exact iff_of_true d.room.prepareForRoundStart_placesExist trivial
  | action _ hstate hfeasible hdone hperform =>
    rw [performAction_placesExist_iff h hfeasible hdone (performAction_cases hperform)]
    simp only [PlacesKept, hstate, true_implies, hfeasible, Except.ok.injEq]
  | upgrade _ hroom => exact iff_of_true (performUpgrades_placesExist h hroom) trivial
  | gameOver _ hroom =>
    exact iff_of_true (performUpgrades_placesExist h hroom).resetUpgrades trivial

theorem NoAction.placeChecked {signal : Signal} (h : NoAction signal) (n : Nat) :
    LogicP.placeChecked n signal = true := by
  cases signal with
  | actionResult name action toPlayer toPlace => exact absurd rfl (h name action toPlayer toPlace)
  | _ => rfl

/-- The signals of one call that meets the condition pass the client's check. -/
theorem CallStep.placeChecked {c : Call} {ret : Bool} (hstep : CallStep self c ret self')
    (hkept : self.d.PlacesKept c) :
    Appends (fun signal => LogicP.placeChecked self.d.room.playerNames.length signal = true)
      self.env self'.env := by
  have hquiet {env env' : List Signal} (h : Appends NoAction env env') :
      Appends (fun signal => LogicP.placeChecked self.d.room.playerNames.length signal = true)
        env env' := by
    obtain ⟨signals, henv, hsignals⟩ := h
    exact ⟨signals, henv, fun signal hsignal => (hsignals signal hsignal).placeChecked _⟩
  rcases hstep.noAction with h | ⟨name, action, toPlayer, toPlace, accepted, done, rfl, hstate,
    hfeasible, hdone, h⟩
  · exact hquiet h
  · refine (Appends.append fun signal hsignal => ?_).trans (hquiet h)
    rw [List.mem_singleton.mp hsignal, hdone]
    cases accepted with
    | false => rfl
    | true =>
      have hplace := hkept hstate hfeasible
      cases action with
      | Move =>
        have := hplace (.inl rfl)
        simp only [if_true, LogicP.placeChecked]
        simp
        omega
      | LetMove =>
        have := hplace (.inr rfl)
        simp only [if_true, LogicP.placeChecked]
        simp
        omega
      | _ => rfl

/-- Everybody stands in a place that exists for as long as every call meets the
condition, and after the first call that does not, somebody does not. Until then
every action that is broadcast passes the client's check of its place. -/
theorem places_exist (hreach : (system.guarded fun logic c => logic.d.PlacesKept c).Reachable self) :
    self.d.room.PlacesExist ∧
      ∀ c self', system.step self c self' →
        (self'.d.room.PlacesExist ↔ self.d.PlacesKept c) ∧
        (self.d.PlacesKept c →
          Appends (fun signal => LogicP.placeChecked self.d.room.playerNames.length signal = true)
            self.env self'.env) := by
  have hstep {logic logic' : Logic (List Signal)} {c : Call} (hplaces : logic.d.room.PlacesExist)
      (hstep : system.step logic c logic') :
      logic'.d.room.PlacesExist ↔ logic.d.PlacesKept c := by
    obtain ⟨ret, hcall⟩ := hstep
    exact (call_cases hcall).room.placesExist_iff hplaces
  have hinv : (system.guarded fun logic c => logic.d.PlacesKept c).Invariant
      fun logic => logic.d.room.PlacesExist := by
    refine .guarded ?_ fun logic c logic' hkept hplaces hnext => (hstep hplaces hnext).mpr hkept
    rintro _ ⟨conf, rfl⟩ p hp
    simp [LogicP.new, Room.new, OrderedMap.empty] at hp
  have hplaces := hinv.of_reachable hreach
  refine ⟨hplaces, fun c self' hnext => ⟨hstep hplaces hnext, fun hkept => ?_⟩⟩
  obtain ⟨ret, hcall⟩ := hnext
  exact (call_cases hcall).placeChecked hkept

/-- A player wins the first action, walks to the Village, wins the next one and
walks on to city 99. -/
def walkCalls (toPlace : Int) : List Call := [
  .addPlayer "A", .addPlayer "B", .roundStart,
  .rpsReply "A" .Rock, .rpsReply "B" .Scissors, .actionReply "A" .Move "" 0,
  .rpsReply "A" .Rock, .rpsReply "B" .Scissors, .actionReply "A" .Move "" toPlace]

theorem places_exist_fails :
    ∃ self, system.Reachable self ∧ ¬ self.d.room.PlacesExist ∧
      ∃ signal ∈ self.env, LogicP.placeChecked self.d.room.playerNames.length signal = false := by
  obtain ⟨self, hreach, hbad⟩ := exists_reachable .defaults (walkCalls 99)
    (fun self => self.d.room.players.toList.any (fun p => p.place > self.d.room.playerNames.length)
      && self.env.any fun signal => !LogicP.placeChecked self.d.room.playerNames.length signal)
    (by decide)
  simp only [Bool.and_eq_true, List.any_eq_true, decide_eq_true_eq, Bool.not_eq_true'] at hbad
  obtain ⟨⟨p, hp, hplace⟩, hsignal⟩ := hbad
  refine ⟨self, hreach, fun hplaces => ?_, hsignal⟩
  have := (hplaces p hp).2
  omega

/-- A check of the condition that is quick to run: every reply names a place that
exists, whatever its action, and nobody leaves. -/
def namesPlace (logic : Logic (List Signal)) : Call → Bool
  | .actionReply _ _ _ toPlace => 0 ≤ toPlace && toPlace ≤ logic.d.room.playerNames.length
  | .removePlayer _ => false
  | _ => true

theorem namesPlace_placesKept (logic : Logic (List Signal)) (c : Call)
    (hnames : namesPlace logic c = true) : logic.d.PlacesKept c := by
  cases c with
  | actionReply name action toPlayer toPlace =>
    intro _ _ _
    simpa [namesPlace] using hnames
  | removePlayer name => cases hnames
  | _ => trivial

theorem places_exist_walk :
    ∃ self : Logic (List Signal), self.d.room.PlacesExist ∧
      ∃ p ∈ self.d.room.players.toList, p.place = 2 ∧ p.initialPlace = 1 := by
  obtain ⟨self, hreach, hwalked⟩ := exists_guarded_reachable .defaults namesPlace (walkCalls 2)
    (fun self => self.d.room.players.toList.any fun p => p.place = 2 && p.initialPlace = 1)
    (by decide)
  refine ⟨self, (places_exist (hreach.guarded_mono namesPlace_placesKept)).1, ?_⟩
  simpa [List.any_eq_true] using hwalked

end Logic

end QMdmmCore
