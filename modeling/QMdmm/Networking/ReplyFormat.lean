import QMdmm.Networking.ServerConnection

namespace QMdmmCore.Data

theorem RockPaperScissors.ofInt_eq_some {n : Int} {rps : RockPaperScissors} :
    ofInt n = some rps ↔ rps.wire = .ofInt n := by
  constructor
  · intro h
    unfold ofInt at h
    split at h <;> cases h <;> rfl
  · intro h
    cases rps <;> cases QJsonValue.ofInt_inj.mp h <;> rfl

theorem Action.ofInt_eq_some {n : Int} {act : Action} :
    ofInt n = some act ↔ act.wire = .ofInt n := by
  constructor
  · intro h
    unfold ofInt at h
    split at h <;> cases h <;> rfl
  · intro h
    cases act <;> cases QJsonValue.ofInt_inj.mp h <;> rfl

theorem UpgradeItem.ofInt_eq_some {n : Int} {item : UpgradeItem} :
    ofInt n = some item ↔ item.wire = .ofInt n := by
  constructor
  · intro h
    unfold ofInt at h
    split at h <;> cases h <;> rfl
  · intro h
    cases item <;> cases QJsonValue.ofInt_inj.mp h <;> rfl

theorem RockPaperScissors.ofInt_wire (rps : RockPaperScissors) :
    ofInt (toUInt8 rps.wire) = some rps := by
  cases rps <;> decide +kernel

theorem Action.ofInt_wire (act : Action) : ofInt (toUInt8 act.wire) = some act := by
  cases act <;> decide +kernel

theorem UpgradeItem.ofInt_wire (item : UpgradeItem) : ofInt (toUInt8 item.wire) = some item := by
  cases item <;> decide +kernel

end QMdmmCore.Data

namespace QMdmmNetworking

open QMdmmCore Data Protocol

namespace Request

def requestId : Request → RequestId
  | .rockPaperScissors _ _ => .RequestRockPaperScissors
  | .actionOrder _ _ _ => .RequestActionOrder
  | .action _ => .RequestAction
  | .upgrade _ => .RequestUpgrade

/-- What a request carries as its payload. -/
def payload : Request → QJsonValue
  | .rockPaperScissors playerNames strivedOrder => .object [
    ("playerNames", .array (playerNames.map .string)),
    ("strivedOrder", .ofInt strivedOrder)]
  | .actionOrder remainedOrders maximumOrder selectionNum => .object [
    ("remainedOrders", .array (remainedOrders.map .ofInt)),
    ("maximumOrder", .ofInt maximumOrder),
    ("selectionNum", .ofInt selectionNum)]
  | .action currentOrder => .ofInt currentOrder
  | .upgrade remainingTimes => .ofInt remainingTimes

/-- The counts a reply is measured by are ints. -/
def Fits : Request → Prop
  | .actionOrder _ _ selectionNum => FitsInt selectionNum
  | .upgrade remainingTimes => FitsInt remainingTimes
  | _ => True

/-- The documented replies to a request, each with what it tells the agent. -/
inductive Documents : Request → QJsonValue → Reply → Prop where
  | rockPaperScissors (playerNames : List String) (strivedOrder : Int) (rps : RockPaperScissors) :
    Documents (.rockPaperScissors playerNames strivedOrder) rps.wire (.rockPaperScissors rps)
  | actionOrder (remainedOrders : List Int) (maximumOrder selectionNum : Int) (order : List Int)
      (hfits : ∀ n ∈ order, FitsInt n) (hlength : (order.length : Int) ≤ selectionNum) :
    Documents (.actionOrder remainedOrders maximumOrder selectionNum) (.array (order.map .ofInt))
      (.actionOrder order)
  | action (currentOrder : Int) (ob : QJsonObject) (act : Action) (toPlayer : String)
      (toPlace : Int) (haction : ob.value "action" = act.wire)
      (hplayer : if act.hasTarget then ob.value "toPlayer" = .string toPlayer else toPlayer = "")
      (hplace : if act.hasPlace then ob.value "toPlace" = .ofInt toPlace ∧ FitsInt toPlace
        else toPlace = 0) :
    Documents (.action currentOrder) (.object ob) (.action act toPlayer toPlace)
  | upgrade (remainingTimes : Int) (items : List UpgradeItem)
      (hlength : (items.length : Int) ≤ remainingTimes) :
    Documents (.upgrade remainingTimes) (.array (items.map UpgradeItem.wire)) (.upgrade items)

/-- A reply of the right shape in which some number only reads as a legal one: what
is no int reads as 0, and an enumeration keeps the low eight bits. -/
def Misreads : Request → QJsonValue → Prop
  | .rockPaperScissors _ _, value =>
    value.isDouble = true ∧ toUInt8 value ≤ 2 ∧ value ≠ .ofInt (toUInt8 value)
  | .actionOrder _ _ selectionNum, value =>
    ∃ arr, value = .array arr ∧ (arr.length : Int) ≤ selectionNum ∧
      (∀ v ∈ arr, v.isDouble = true) ∧ ∃ v ∈ arr, v ≠ .ofInt (v.toInt 0)
  | .action _, value =>
    ∃ ob act, value = .object ob ∧ (QJsonObject.value ob "action").isDouble = true ∧
      Action.ofInt (toUInt8 (QJsonObject.value ob "action")) = some act ∧
      (act.hasTarget = true → (QJsonObject.value ob "toPlayer").isString = true) ∧
      (act.hasPlace = true → (QJsonObject.value ob "toPlace").isDouble = true) ∧
      (QJsonObject.value ob "action" ≠ .ofInt (toUInt8 (QJsonObject.value ob "action")) ∨
        act.hasPlace = true ∧
          QJsonObject.value ob "toPlace" ≠ .ofInt ((QJsonObject.value ob "toPlace").toInt 0))
  | .upgrade remainingTimes, value =>
    ∃ arr, value = .array arr ∧ (arr.length : Int) ≤ remainingTimes ∧
      (∀ v ∈ arr, v.isDouble = true ∧ toUInt8 v ≤ 2) ∧ ∃ v ∈ arr, v ≠ .ofInt (toUInt8 v)

/-- The decoder of the request, on its own payload. -/
def decode (req : Request) (value : QJsonValue) : Option Reply :=
  match req with
  | .rockPaperScissors _ _ => ServerConnectionP.decodeRockPaperScissorsReply value
  | .actionOrder _ _ _ => ServerConnectionP.decodeActionOrderReply req.payload value
  | .action _ => ServerConnectionP.decodeActionReply value
  | .upgrade _ => ServerConnectionP.decodeUpgradeReply req.payload value

theorem selectionNum_payload {remainedOrders : List Int} {maximumOrder selectionNum : Int}
    (hfits : FitsInt selectionNum) :
    ((payload (.actionOrder remainedOrders maximumOrder selectionNum)).toObject.value
      "selectionNum").toInt 0 = selectionNum :=
  QJsonValue.toInt_ofInt hfits 0

theorem decodeRockPaperScissorsReply_eq_some {value : QJsonValue} {reply : Reply} :
    ServerConnectionP.decodeRockPaperScissorsReply value = some reply ↔
      value.isDouble = true ∧ ∃ rps, RockPaperScissors.ofInt (toUInt8 value) = some rps ∧
        reply = .rockPaperScissors rps := by
  unfold ServerConnectionP.decodeRockPaperScissorsReply
  cases value.isDouble <;> simp [eq_comm]

theorem decodeActionOrderReply_eq_some {currentRequestValue value : QJsonValue} {reply : Reply} :
    ServerConnectionP.decodeActionOrderReply currentRequestValue value = some reply ↔
      ∃ arr, value = .array arr ∧
        (arr.length : Int) ≤ (currentRequestValue.toObject.value "selectionNum").toInt 0 ∧
        (∀ v ∈ arr, v.isDouble = true) ∧ reply = .actionOrder (arr.map (·.toInt 0)) := by
  unfold ServerConnectionP.decodeActionOrderReply
  split
  · next arr =>
    dsimp only
    split
    · next hlong => simp; omega
    · next hshort =>
      split
      · next hdouble =>
        simp only [Bool.not_eq_true', List.all_eq_false] at hdouble
        obtain ⟨v, hv, hnot⟩ := hdouble
        simp only [reduceCtorEq, QJsonValue.array.injEq, false_iff]
        rintro ⟨_, rfl, -, hall, -⟩
        exact hnot (hall v hv)
      · next hdouble =>
        simp only [Bool.not_eq_true', Bool.not_eq_false, List.all_eq_true] at hdouble
        constructor
        · intro h
          cases h
          exact ⟨arr, rfl, by omega, hdouble, rfl⟩
        · rintro ⟨_, h, -, -, rfl⟩
          cases h
          rfl
  · next hnot =>
    simp only [reduceCtorEq, false_iff]
    rintro ⟨arr, rfl, -⟩
    exact hnot arr rfl

theorem decodeActionReply_eq_some {value : QJsonValue} {reply : Reply} :
    ServerConnectionP.decodeActionReply value = some reply ↔
      ∃ act, (value.toObject.value "action").isDouble = true ∧
        Action.ofInt (toUInt8 (value.toObject.value "action")) = some act ∧
        (act.hasTarget = true → (value.toObject.value "toPlayer").isString = true) ∧
        (act.hasPlace = true → (value.toObject.value "toPlace").isDouble = true) ∧
        reply = .action act
          (if act.hasTarget then (value.toObject.value "toPlayer").toQString else "")
          (if act.hasPlace then (value.toObject.value "toPlace").toInt 0 else 0) := by
  unfold ServerConnectionP.decodeActionReply
  cases hdouble : (value.toObject.value "action").isDouble with
  | false => simp [hdouble]
  | true =>
    cases hact : Action.ofInt (toUInt8 (value.toObject.value "action")) with
    | none => simp [hdouble, hact]
    | some act =>
      simp only [hdouble, hact, Bool.not_true, Bool.false_eq_true, if_false]
      constructor
      · intro h
        split at h
        · cases h
        · next htarget =>
          split at h
          · cases h
          · next hplace =>
            cases h
            exact ⟨act, trivial, rfl, by simpa using htarget, by simpa using hplace, rfl⟩
      · rintro ⟨_, -, h, htarget, hplace, rfl⟩
        cases h
        have htarget : ¬ (act.hasTarget && !(value.toObject.value "toPlayer").isString) = true := by
          simpa using htarget
        have hplace : ¬ (act.hasPlace && !(value.toObject.value "toPlace").isDouble) = true := by
          simpa using hplace
        rw [if_neg htarget, if_neg hplace]

theorem decodeUpgradeReply_eq_some {currentRequestValue value : QJsonValue} {reply : Reply} :
    ServerConnectionP.decodeUpgradeReply currentRequestValue value = some reply ↔
      ∃ arr items, value = .array arr ∧ (arr.length : Int) ≤ currentRequestValue.toInt 1 ∧
        (∀ v ∈ arr, v.isDouble = true) ∧
        (arr.mapM fun item => UpgradeItem.ofInt (toUInt8 item)) = some items ∧
        reply = .upgrade items := by
  unfold ServerConnectionP.decodeUpgradeReply
  split
  · next arr =>
    split
    · next hlong => simp; omega
    · next hshort =>
      split
      · next hdouble =>
        simp only [Bool.not_eq_true', List.all_eq_false] at hdouble
        obtain ⟨v, hv, hnot⟩ := hdouble
        simp only [reduceCtorEq, QJsonValue.array.injEq, false_iff]
        rintro ⟨_, _, rfl, -, hall, -⟩
        exact hnot (hall v hv)
      · next hdouble =>
        simp only [Bool.not_eq_true', Bool.not_eq_false, List.all_eq_true] at hdouble
        rw [Option.map_eq_some_iff]
        constructor
        · rintro ⟨items, hitems, rfl⟩
          exact ⟨arr, items, rfl, by omega, hdouble, hitems, rfl⟩
        · rintro ⟨_, items, h, -, -, hitems, rfl⟩
          cases h
          exact ⟨items, hitems, rfl⟩
  · next hnot =>
    simp only [reduceCtorEq, false_iff]
    rintro ⟨arr, _, rfl, -⟩
    exact hnot arr rfl

/-- The loop over the items, read number by number. -/
theorem mapM_ofInt_eq_some {arr : List QJsonValue} {items : List UpgradeItem} :
    (arr.mapM fun item => UpgradeItem.ofInt (toUInt8 item)) = some items ↔
      List.Forall₂ (fun v item => UpgradeItem.wire item = .ofInt (toUInt8 v)) arr items := by
  induction arr generalizing items with
  | nil => cases items <;> simp
  | cons v arr ih =>
    rw [List.mapM_cons, Option.bind_eq_bind, Option.bind_eq_some_iff]
    constructor
    · rintro ⟨item, hitem, hbind⟩
      obtain ⟨rest, hrest, hitems⟩ := Option.bind_eq_some_iff.mp hbind
      cases hitems
      exact .cons (UpgradeItem.ofInt_eq_some.mp hitem) (ih.mp hrest)
    · rintro (_ | ⟨hitem, hrest⟩)
      exact ⟨_, UpgradeItem.ofInt_eq_some.mpr hitem,
        Option.bind_eq_some_iff.mpr ⟨_, ih.mpr hrest, rfl⟩⟩

theorem exists_mapM_ofInt {arr : List QJsonValue} :
    (∃ items, (arr.mapM fun item => UpgradeItem.ofInt (toUInt8 item)) = some items) ↔
      ∀ v ∈ arr, toUInt8 v ≤ 2 := by
  induction arr with
  | nil => simp
  | cons v arr ih =>
    rw [List.forall_mem_cons, ← ih]
    constructor
    · rintro ⟨items, hitems⟩
      obtain _ | ⟨hitem, hrest⟩ := mapM_ofInt_eq_some.mp hitems
      refine ⟨?_, _, mapM_ofInt_eq_some.mpr hrest⟩
      next item _ => cases item <;> have := QJsonValue.ofInt_inj.mp hitem <;> omega
    · rintro ⟨hv, items, hitems⟩
      have hpos : 0 ≤ toUInt8 v := Int.emod_nonneg _ (by decide)
      obtain ⟨item, hitem⟩ : ∃ item : UpgradeItem, item.wire = .ofInt (toUInt8 v) := by
        obtain h | h | h : toUInt8 v = 0 ∨ toUInt8 v = 1 ∨ toUInt8 v = 2 := by omega
        · exact ⟨.UpgradeKnife, by rw [h]; rfl⟩
        · exact ⟨.UpgradeHorse, by rw [h]; rfl⟩
        · exact ⟨.UpgradeMaxHp, by rw [h]; rfl⟩
      exact ⟨item :: items, mapM_ofInt_eq_some.mpr (.cons hitem (mapM_ofInt_eq_some.mp hitems))⟩

/-- A documented reply reaches the agent, with its own numbers. -/
theorem decode_of_documents {req : Request} (hfits : req.Fits) {value : QJsonValue} {reply : Reply}
    (hdoc : Documents req value reply) : req.decode value = some reply := by
  cases hdoc with
  | rockPaperScissors playerNames strivedOrder rps =>
    exact decodeRockPaperScissorsReply_eq_some.mpr
      ⟨by cases rps <;> rfl, rps, rps.ofInt_wire, rfl⟩
  | actionOrder remainedOrders maximumOrder selectionNum order hints hlength =>
    refine decodeActionOrderReply_eq_some.mpr ⟨_, rfl, ?_, ?_, ?_⟩
    · rw [selectionNum_payload hfits, List.length_map]
      exact hlength
    · intro v hv
      obtain ⟨n, -, rfl⟩ := List.mem_map.mp hv
      rfl
    · have hread : (order.map QJsonValue.ofInt).map (·.toInt 0) = order := by
        rw [List.map_map]
        exact (List.map_congr_left fun n hn => QJsonValue.toInt_ofInt (hints n hn) 0).trans
          (List.map_id order)
      rw [hread]
  | action currentOrder ob act toPlayer toPlace haction hplayer hplace =>
    refine decodeActionReply_eq_some.mpr ⟨act, ?_, ?_, ?_, ?_, ?_⟩ <;>
      simp only [QJsonValue.toObject]
    · rw [haction]
      cases act <;> rfl
    · rw [haction, act.ofInt_wire]
    · intro htarget
      rw [if_pos htarget] at hplayer
      rw [hplayer]
      rfl
    · intro hhas
      rw [if_pos hhas] at hplace
      rw [hplace.1]
      rfl
    · congr 1
      · split
        · next htarget =>
          rw [if_pos htarget] at hplayer
          rw [hplayer]
          rfl
        · next htarget =>
          rw [if_neg htarget] at hplayer
          exact hplayer
      · split
        · next hhas =>
          rw [if_pos hhas] at hplace
          rw [hplace.1, QJsonValue.toInt_ofInt hplace.2]
        · next hhas =>
          rw [if_neg hhas] at hplace
          exact hplace
  | upgrade remainingTimes items hlength =>
    refine decodeUpgradeReply_eq_some.mpr ⟨_, items, rfl, ?_, ?_, ?_, rfl⟩
    · rw [List.length_map]
      exact hlength.trans_eq (QJsonValue.toInt_ofInt hfits 1).symm
    · intro v hv
      obtain ⟨item, -, rfl⟩ := List.mem_map.mp hv
      cases item <;> rfl
    · refine mapM_ofInt_eq_some.mpr (List.forall₂_map_left_iff.mpr (List.forall₂_same.mpr ?_))
      exact fun item _ => UpgradeItem.ofInt_eq_some.mp item.ofInt_wire

/-- What reaches the agent was documented, unless a number was misread. -/
theorem documents_of_decode {req : Request} (hfits : req.Fits) {value : QJsonValue} {reply : Reply}
    (hdecode : req.decode value = some reply) (hmisreads : ¬ req.Misreads value) :
    Documents req value reply := by
  cases req with
  | rockPaperScissors playerNames strivedOrder =>
    obtain ⟨hdouble, rps, hrps, rfl⟩ := decodeRockPaperScissorsReply_eq_some.mp hdecode
    rw [RockPaperScissors.ofInt_eq_some] at hrps
    have hle : toUInt8 value ≤ 2 := by
      cases rps <;> have := QJsonValue.ofInt_inj.mp hrps <;> omega
    have hexact : value = .ofInt (toUInt8 value) := by
      by_contra hne
      exact hmisreads ⟨hdouble, hle, hne⟩
    rw [hexact, ← hrps]
    exact .rockPaperScissors playerNames strivedOrder rps
  | actionOrder remainedOrders maximumOrder selectionNum =>
    obtain ⟨arr, rfl, hlength, hdouble, rfl⟩ := decodeActionOrderReply_eq_some.mp hdecode
    rw [selectionNum_payload hfits] at hlength
    have hexact : arr = (arr.map (·.toInt 0)).map .ofInt := by
      rw [List.map_map]
      refine ((List.map_congr_left fun v hv => ?_).trans (List.map_id arr)).symm
      by_contra hne
      exact hmisreads ⟨arr, rfl, hlength, hdouble, v, hv, Ne.symm hne⟩
    nth_rewrite 1 [hexact]
    refine .actionOrder _ _ _ _ (fun n hn => ?_) (by rwa [List.length_map])
    obtain ⟨v, -, rfl⟩ := List.mem_map.mp hn
    exact v.fitsInt_toInt
  | action currentOrder =>
    obtain ⟨act, hdouble, hact, htarget, hplace, rfl⟩ := decodeActionReply_eq_some.mp hdecode
    cases value with
    | object ob =>
      simp only [QJsonValue.toObject] at hdouble hact htarget hplace ⊢
      have hexact : QJsonObject.value ob "action" = act.wire := by
        rw [Action.ofInt_eq_some.mp hact]
        by_contra hne
        exact hmisreads ⟨ob, act, rfl, hdouble, hact, htarget, hplace, .inl hne⟩
      refine .action currentOrder ob act _ _ hexact ?_ ?_
      · split
        · next hhas =>
          have hstring := htarget hhas
          cases hvalue : QJsonObject.value ob "toPlayer" with
          | string text => rfl
          | _ => rw [hvalue] at hstring; cases hstring
        · rfl
      · split
        · next hhas =>
          refine ⟨?_, QJsonValue.fitsInt_toInt _⟩
          by_contra hne
          exact hmisreads ⟨ob, act, rfl, hdouble, hact, htarget, hplace, .inr ⟨hhas, hne⟩⟩
        · rfl
    | _ => cases hdouble
  | upgrade remainingTimes =>
    obtain ⟨arr, items, rfl, hlength, hdouble, hitems, rfl⟩ :=
      decodeUpgradeReply_eq_some.mp hdecode
    rw [show (payload (.upgrade remainingTimes)).toInt 1 = remainingTimes from
      QJsonValue.toInt_ofInt hfits 1] at hlength
    have hle := exists_mapM_ofInt.mp ⟨items, hitems⟩
    have hforall := mapM_ofInt_eq_some.mp hitems
    have hnumber : ∀ v ∈ arr, v = .ofInt (toUInt8 v) := by
      intro v hv
      by_contra hne
      exact hmisreads ⟨arr, rfl, hlength, fun w hw => ⟨hdouble w hw, hle w hw⟩, v, hv, hne⟩
    have hexact : arr = items.map UpgradeItem.wire := by
      rw [← List.forall₂_eq_eq_eq, List.forall₂_map_right_iff]
      exact ((List.forall₂_and_left arr items).mpr ⟨hnumber, hforall⟩).imp fun v item h => h.1.trans h.2.symm
    rw [hexact]
    refine .upgrade remainingTimes items ?_
    rwa [hforall.length_eq] at hlength

/-- A misread reply reaches the agent as well. -/
theorem decode_of_misreads {req : Request} (hfits : req.Fits) {value : QJsonValue}
    (hmisreads : req.Misreads value) : ∃ reply, req.decode value = some reply := by
  cases req with
  | rockPaperScissors playerNames strivedOrder =>
    obtain ⟨hdouble, hle, -⟩ := hmisreads
    have hpos : 0 ≤ toUInt8 value := Int.emod_nonneg _ (by decide)
    obtain ⟨rps, hrps⟩ : ∃ rps : RockPaperScissors, rps.wire = .ofInt (toUInt8 value) := by
      obtain h | h | h : toUInt8 value = 0 ∨ toUInt8 value = 1 ∨ toUInt8 value = 2 := by omega
      · exact ⟨.Rock, by rw [h]; rfl⟩
      · exact ⟨.Scissors, by rw [h]; rfl⟩
      · exact ⟨.Paper, by rw [h]; rfl⟩
    exact ⟨_, decodeRockPaperScissorsReply_eq_some.mpr
      ⟨hdouble, rps, RockPaperScissors.ofInt_eq_some.mpr hrps, rfl⟩⟩
  | actionOrder remainedOrders maximumOrder selectionNum =>
    obtain ⟨arr, rfl, hlength, hdouble, -⟩ := hmisreads
    refine ⟨_, decodeActionOrderReply_eq_some.mpr ⟨arr, rfl, ?_, hdouble, rfl⟩⟩
    rwa [selectionNum_payload hfits]
  | action currentOrder =>
    obtain ⟨ob, act, rfl, hdouble, hact, htarget, hplace, -⟩ := hmisreads
    exact ⟨_, decodeActionReply_eq_some.mpr ⟨act, hdouble, hact, htarget, hplace, rfl⟩⟩
  | upgrade remainingTimes =>
    obtain ⟨arr, rfl, hlength, hnumbers, -⟩ := hmisreads
    obtain ⟨items, hitems⟩ := exists_mapM_ofInt.mpr fun v hv => (hnumbers v hv).2
    exact ⟨_, decodeUpgradeReply_eq_some.mpr ⟨arr, items, rfl,
      hlength.trans_eq (QJsonValue.toInt_ofInt hfits 1).symm, fun v hv => (hnumbers v hv).1,
      hitems, rfl⟩⟩

theorem not_documents_of_misreads {req : Request} {value : QJsonValue}
    (hmisreads : req.Misreads value) (reply : Reply) : ¬ Documents req value reply := by
  intro hdoc
  cases hdoc with
  | rockPaperScissors playerNames strivedOrder rps =>
    exact hmisreads.2.2 (RockPaperScissors.ofInt_eq_some.mp rps.ofInt_wire)
  | actionOrder remainedOrders maximumOrder selectionNum order hints hlength =>
    obtain ⟨arr, harr, -, -, v, hv, hne⟩ := hmisreads
    cases harr
    obtain ⟨n, hn, rfl⟩ := List.mem_map.mp hv
    rw [QJsonValue.toInt_ofInt (hints n hn)] at hne
    exact hne rfl
  | action currentOrder ob act toPlayer toPlace haction hplayer hplace =>
    obtain ⟨ob', act', hob, -, hact, -, -, hne⟩ := hmisreads
    cases hob
    obtain hne | ⟨hhas, hne⟩ := hne
    · rw [haction] at hne
      exact hne (Action.ofInt_eq_some.mp act.ofInt_wire)
    · rw [haction, act.ofInt_wire] at hact
      cases hact
      rw [if_pos hhas] at hplace
      rw [hplace.1, QJsonValue.toInt_ofInt hplace.2] at hne
      exact hne rfl
  | upgrade remainingTimes items hlength =>
    obtain ⟨arr, harr, -, -, v, hv, hne⟩ := hmisreads
    cases harr
    obtain ⟨item, -, rfl⟩ := List.mem_map.mp hv
    exact hne (UpgradeItem.ofInt_eq_some.mp item.ofInt_wire)

end Request

namespace ServerConnectionP

/-- The request a connection waits for the reply of. -/
structure InFlight (conn : ServerConnectionP) (req : Request) : Prop where
  currentRequest : conn.currentRequest = req.requestId
  currentRequestValue : conn.currentRequestValue = req.payload
  fits : req.Fits

theorem request_eq_addRequest (conn : ServerConnectionP) (req : Request) :
    conn.request req = conn.addRequest req.requestId req.payload := by
  cases req <;> rfl

theorem inFlight_request (conn : ServerConnectionP) {req : Request} (hfits : req.Fits) :
    (conn.request req).1.InFlight req := by
  rw [request_eq_addRequest, addRequest]
  split <;> exact ⟨rfl, rfl, hfits⟩

theorem decodeReply_eq (conn : ServerConnectionP) {req : Request}
    (hvalue : conn.currentRequestValue = req.payload) (value : QJsonValue) :
    conn.decodeReply value req.requestId = some (req.decode value) := by
  cases req <;> simp only [decodeReply, Request.requestId, Request.decode, hvalue]

/-- The packet a client answers a request with. -/
def replyPacket (req : Request) (value : QJsonValue) : Packet :=
  .ofRequest .TypeReply req.requestId value

theorem packetReceived_reply {conn : ServerConnectionP} {req : Request} (hflight : conn.InFlight req)
    (hsocket : conn.socket.isSome = true) {value : QJsonValue} (hvalue : value.isNull = false)
    (random : RockPaperScissors) :
    (conn.packetReceived (replyPacket req value) random).2 =
      match req.decode value with
      | some reply => [.reply reply]
      | none => .setError :: conn.defaultReply random req.requestId := by
  have hsome : ¬ conn.socket.isNone = true := by simpa using Option.ne_none_iff_isSome.mpr hsocket
  have hdecode := decodeReply_eq { conn with
    heartbeatDeadline := true, requestTimer := false, currentRequest := .RequestInvalid }
    hflight.currentRequestValue value
  have hreply : conn.packetReceived (replyPacket req value) random =
      replyReceived { conn with heartbeatDeadline := true } req.requestId value random := by
    rw [packetReceived, if_neg hsome]
    exact if_pos hflight.currentRequest
  rw [hreply, replyReceived]
  simp only [hvalue, Bool.false_eq_true, if_false, hdecode]
  cases req.decode value with
  | none => cases req <;> rfl
  | some reply => rfl

/-- A documented reply is handed on with its own numbers; any other one is a
protocol error and stands for the default reply. -/
def HandlesReply (conn : ServerConnectionP) (req : Request) (value : QJsonValue)
    (random : RockPaperScissors) : Prop :=
  (∀ reply, req.Documents value reply →
    (conn.packetReceived (replyPacket req value) random).2 = [.reply reply]) ∧
  ((∀ reply, ¬ req.Documents value reply) →
    (conn.packetReceived (replyPacket req value) random).2 =
      .setError :: conn.defaultReply random req.requestId)

theorem handlesReply_iff {conn : ServerConnectionP} {req : Request} (hflight : conn.InFlight req)
    (hsocket : conn.socket.isSome = true) {value : QJsonValue} (hvalue : value.isNull = false)
    (random : RockPaperScissors) :
    conn.HandlesReply req value random ↔ ¬ req.Misreads value := by
  have heffects := packetReceived_reply hflight hsocket hvalue random
  constructor
  · rintro ⟨-, hother⟩ hmisreads
    have herror := hother (Request.not_documents_of_misreads hmisreads)
    obtain ⟨reply, hdecode⟩ := Request.decode_of_misreads hflight.fits hmisreads
    rw [heffects, hdecode] at herror
    cases herror
  · intro hmisreads
    constructor
    · intro reply hdoc
      rw [heffects, Request.decode_of_documents hflight.fits hdoc]
    · intro hnone
      rw [heffects]
      cases hdecode : req.decode value with
      | none => rfl
      | some reply =>
        exact absurd (Request.documents_of_decode hflight.fits hdecode hmisreads) (hnone reply)

/-- A connection with a client that has just been asked for a throw. -/
def askedForThrow : ServerConnectionP :=
  (request ((new ⟨"a", "A", StateMaskOnline⟩ .defaults 20000).setSocket 0).1
    (.rockPaperScissors ["a", "b"] 0)).1

theorem handlesReply_iff_askedForThrow :
    askedForThrow.HandlesReply (.rockPaperScissors ["a", "b"] 0) (.ofInt 2) .Rock ↔
      ¬ (Request.rockPaperScissors ["a", "b"] 0).Misreads (.ofInt 2) :=
  handlesReply_iff (inFlight_request _ (show (Request.rockPaperScissors ["a", "b"] 0).Fits from
    trivial)) rfl rfl .Rock

/-- One and a half is taken for a rock. -/
theorem handlesReply_fails :
    ¬ askedForThrow.HandlesReply (.rockPaperScissors ["a", "b"] 0) (.double (.finite (3 / 2)))
      .Paper := by
  rintro ⟨-, hother⟩
  have hmisreads : (Request.rockPaperScissors ["a", "b"] 0).Misreads
      (.double (.finite (3 / 2))) := by
    refine ⟨rfl, by decide +kernel, ?_⟩
    simp only [QJsonValue.ofInt, ne_eq, QJsonValue.double.injEq, QDouble.finite.injEq]
    decide +kernel
  have herror := hother (Request.not_documents_of_misreads hmisreads)
  exact absurd (congrArg List.length herror) (by decide +kernel)

end ServerConnectionP

end QMdmmNetworking
