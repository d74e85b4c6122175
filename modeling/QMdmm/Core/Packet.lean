import QMdmm.Core.Protocol
import QMdmm.Support.ExceptBind

namespace QMdmmCore

open Protocol

namespace Protocol

def PacketType.toInt : PacketType → Int
  | .TypeInvalid => 0
  | .TypeRequest => 1
  | .TypeReply => 2
  | .TypeNotify => 3

def PacketType.ofInt : Int → Option PacketType
  | 0 => some .TypeInvalid
  | 1 => some .TypeRequest
  | 2 => some .TypeReply
  | 3 => some .TypeNotify
  | _ => none

def RequestId.toInt : RequestId → Int
  | .RequestInvalid => 0
  | .RequestRockPaperScissors => 1
  | .RequestActionOrder => 2
  | .RequestAction => 3
  | .RequestUpgrade => 4

def RequestId.ofInt : Int → Option RequestId
  | 0 => some .RequestInvalid
  | 1 => some .RequestRockPaperScissors
  | 2 => some .RequestActionOrder
  | 3 => some .RequestAction
  | 4 => some .RequestUpgrade
  | _ => none

def NotifyId.toInt : NotifyId → Int
  | .NotifyInvalid => 0
  | .NotifyFromServerMask => 0x1000
  | .NotifyPongServer => 0x1001
  | .NotifyVersion => 0x1002
  | .NotifyFromAgentMask => 0x2000
  | .NotifyLogicConfiguration => 0x2001
  | .NotifyAgentStateChanged => 0x2002
  | .NotifyPlayerAdded => 0x2003
  | .NotifyPlayerRemoved => 0x2004
  | .NotifyGameStart => 0x2005
  | .NotifyRoundStart => 0x2006
  | .NotifyRockPaperScissors => 0x2007
  | .NotifyActionOrder => 0x2008
  | .NotifyAction => 0x2009
  | .NotifyRoundOver => 0x200a
  | .NotifyUpgrade => 0x200b
  | .NotifyGameOver => 0x200c
  | .NotifySpoken => 0x200d
  | .NotifyOperated => 0x200e
  | .NotifyToServerMask => 0x4000
  | .NotifyPingServer => 0x4001
  | .NotifySignIn => 0x4002
  | .NotifyObserve => 0x4003
  | .NotifyStateChange => 0x4004
  | .NotifyToAgentMask => 0x8000
  | .NotifySpeak => 0x8001
  | .NotifyOperate => 0x8002

def NotifyId.ofInt : Int → Option NotifyId
  | 0 => some .NotifyInvalid
  | 0x1000 => some .NotifyFromServerMask
  | 0x1001 => some .NotifyPongServer
  | 0x1002 => some .NotifyVersion
  | 0x2000 => some .NotifyFromAgentMask
  | 0x2001 => some .NotifyLogicConfiguration
  | 0x2002 => some .NotifyAgentStateChanged
  | 0x2003 => some .NotifyPlayerAdded
  | 0x2004 => some .NotifyPlayerRemoved
  | 0x2005 => some .NotifyGameStart
  | 0x2006 => some .NotifyRoundStart
  | 0x2007 => some .NotifyRockPaperScissors
  | 0x2008 => some .NotifyActionOrder
  | 0x2009 => some .NotifyAction
  | 0x200a => some .NotifyRoundOver
  | 0x200b => some .NotifyUpgrade
  | 0x200c => some .NotifyGameOver
  | 0x200d => some .NotifySpoken
  | 0x200e => some .NotifyOperated
  | 0x4000 => some .NotifyToServerMask
  | 0x4001 => some .NotifyPingServer
  | 0x4002 => some .NotifySignIn
  | 0x4003 => some .NotifyObserve
  | 0x4004 => some .NotifyStateChange
  | 0x8000 => some .NotifyToAgentMask
  | 0x8001 => some .NotifySpeak
  | 0x8002 => some .NotifyOperate
  | _ => none

/-- A sentinel or a mask marker names no packet of its own. -/
def NotifyId.isConcrete : NotifyId → Bool
  | .NotifyInvalid | .NotifyFromServerMask | .NotifyFromAgentMask | .NotifyToServerMask
  | .NotifyToAgentMask => false
  | _ => true

theorem PacketType.ofInt_eq_some {n : Int} {type : PacketType} :
    ofInt n = some type ↔ type.toInt = n := by
  constructor
  · intro h
    unfold ofInt at h
    split at h <;> cases h <;> rfl
  · rintro rfl
    cases type <;> rfl

theorem RequestId.ofInt_eq_some {n : Int} {requestId : RequestId} :
    ofInt n = some requestId ↔ requestId.toInt = n := by
  constructor
  · intro h
    unfold ofInt at h
    split at h <;> cases h <;> rfl
  · rintro rfl
    cases requestId <;> rfl

theorem NotifyId.ofInt_eq_some {n : Int} {notifyId : NotifyId} :
    ofInt n = some notifyId ↔ notifyId.toInt = n := by
  constructor
  · intro h
    unfold ofInt at h
    split at h <;> cases h <;> rfl
  · rintro rfl
    cases notifyId <;> rfl

theorem PacketType.toInt_bounds (type : PacketType) : 0 ≤ type.toInt ∧ type.toInt < 256 := by
  cases type <;> decide

theorem RequestId.toInt_bounds (requestId : RequestId) :
    0 ≤ requestId.toInt ∧ requestId.toInt < 256 := by
  cases requestId <;> decide

theorem NotifyId.toInt_bounds (notifyId : NotifyId) :
    0 ≤ notifyId.toInt ∧ notifyId.toInt < 65536 := by
  cases notifyId <;> decide

end Protocol

/-- `PacketDataP`: the object it inherits, and the error of the parse. -/
structure PacketDataP where
  object : QJsonObject
  error : String

/-- The packet of the default constructor. -/
def PacketDataP.new : PacketDataP where
  object := (((QJsonObject.insert [] "type" (.ofInt PacketType.TypeInvalid.toInt)).insert
    "requestId" (.ofInt RequestId.RequestInvalid.toInt)).insert
    "notifyId" (.ofInt NotifyId.NotifyInvalid.toInt)).insert "value" .null
  error := ""

namespace Packet

/-- The number `type()` is; a cast to an enumeration keeps the low bits. -/
def typeOf (d : PacketDataP) : Int :=
  (d.object.value "type").toInt PacketType.TypeInvalid.toInt % 256

def requestIdOf (d : PacketDataP) : Int :=
  let t := typeOf d
  if t = PacketType.TypeRequest.toInt ∨ t = PacketType.TypeReply.toInt then
    (d.object.value "requestId").toInt RequestId.RequestInvalid.toInt % 256
  else RequestId.RequestInvalid.toInt

def notifyIdOf (d : PacketDataP) : Int :=
  let t := typeOf d
  if t = PacketType.TypeNotify.toInt then
    (d.object.value "notifyId").toInt NotifyId.NotifyInvalid.toInt % 65536
  else NotifyId.NotifyInvalid.toInt

def hasError (d : PacketDataP) : Bool := d.error ≠ ""

def isPacketTypeValid (type : Int) : Bool :=
  match PacketType.ofInt (type % 256) with
  | some .TypeInvalid | some .TypeRequest | some .TypeReply | some .TypeNotify => true
  | none => false

def isRequestIdValid (requestId : Int) : Bool :=
  match RequestId.ofInt (requestId % 256) with
  | some .RequestInvalid | some .RequestRockPaperScissors | some .RequestActionOrder
  | some .RequestAction | some .RequestUpgrade => true
  | none => false

def isNotifyIdValid (notifyId : Int) : Bool :=
  match NotifyId.ofInt (notifyId % 65536) with
  | some .NotifyInvalid | some .NotifyPongServer | some .NotifyVersion
  | some .NotifyLogicConfiguration | some .NotifyAgentStateChanged | some .NotifyPlayerAdded
  | some .NotifyPlayerRemoved | some .NotifyGameStart | some .NotifyRoundStart
  | some .NotifyRockPaperScissors | some .NotifyActionOrder | some .NotifyAction
  | some .NotifyRoundOver | some .NotifyUpgrade | some .NotifyGameOver | some .NotifySpoken
  | some .NotifyOperated | some .NotifyPingServer | some .NotifySignIn | some .NotifyObserve
  | some .NotifyStateChange | some .NotifySpeak | some .NotifyOperate => true
  | _ => false

/-- The whole number of the `int` range that a JSON number is. -/
def toIntegral (value : QJsonValue) : Option Int :=
  match value.toDouble with
  | .finite d =>
    if d ≠ ⌊d⌋ ∨ d < -2147483648 ∨ d > 2147483647 then none else some ⌊d⌋
  | _ => none

/-- The four checks of one enumeration field. -/
def readEnum (ob : QJsonObject) (key : String) (isValid : Int → Bool) : Except String Int :=
  if !ob.contains key then .error ("'" ++ key ++ "' is non-existent")
  else if !(ob.value key).isDouble then .error ("'" ++ key ++ "' is not number")
  else
    match toIntegral (ob.value key) with
    | none => .error ("'" ++ key ++ "' is not an integer")
    | some n => if !isValid n then .error ("'" ++ key ++ "' is out of range") else .ok n

/-- What each type asks of the two ids, all three already cast. -/
def checkIds (type requestId notifyId : Int) : Except String Unit :=
  if type = PacketType.TypeRequest.toInt ∨ type = PacketType.TypeReply.toInt then
    if requestId = RequestId.RequestInvalid.toInt then
      .error "'requestId' is invalid for a request/reply packet"
    else if notifyId ≠ NotifyId.NotifyInvalid.toInt then
      .error "'notifyId' should be invalid for a request/reply packet"
    else .ok ()
  else if type = PacketType.TypeNotify.toInt then
    if notifyId = NotifyId.NotifyInvalid.toInt then
      .error "'notifyId' is invalid for a notify packet"
    else if requestId ≠ RequestId.RequestInvalid.toInt then
      .error "'requestId' should be invalid for a notify packet"
    else .ok ()
  else if requestId ≠ RequestId.RequestInvalid.toInt then
    .error "'requestId' should be invalid for an invalid packet"
  else if notifyId ≠ NotifyId.NotifyInvalid.toInt then
    .error "'notifyId' should be invalid for an invalid packet"
  else .ok ()

def checkObject (ob : QJsonObject) : Except String Unit := do
  let typeInt ← readEnum ob "type" isPacketTypeValid
  let requestIdInt ← readEnum ob "requestId" isRequestIdValid
  let notifyIdInt ← readEnum ob "notifyId" isNotifyIdValid
  if !ob.contains "value" then .error "'value' is non-existent"
  else checkIds (typeInt % 256) (requestIdInt % 256) (notifyIdInt % 65536)

/-- `Packet::fromJson`, on what the parser makes of the bytes: a document or the
text of its error. -/
def fromJson (doc : Except String QJsonValue) : PacketDataP :=
  match doc with
  | .error errorString => { PacketDataP.new with error := "Json error: " ++ errorString }
  | .ok (.object ob) =>
    match checkObject ob with
    | .ok _ => ⟨ob, ""⟩
    | .error error => ⟨ob, error⟩
  | .ok _ => { PacketDataP.new with error := "Document is not object" }

theorem isPacketTypeValid_iff {n : Int} :
    isPacketTypeValid n = true ↔ ∃ type, PacketType.ofInt (n % 256) = some type := by
  unfold isPacketTypeValid
  cases htype : PacketType.ofInt (n % 256) with
  | none => simp
  | some type => cases type <;> simp

theorem isRequestIdValid_iff {n : Int} :
    isRequestIdValid n = true ↔ ∃ requestId, RequestId.ofInt (n % 256) = some requestId := by
  unfold isRequestIdValid
  cases hid : RequestId.ofInt (n % 256) with
  | none => simp
  | some requestId => cases requestId <;> simp

theorem isNotifyIdValid_iff {n : Int} :
    isNotifyIdValid n = true ↔ ∃ notifyId, NotifyId.ofInt (n % 65536) = some notifyId ∧
      (notifyId = .NotifyInvalid ∨ notifyId.isConcrete = true) := by
  unfold isNotifyIdValid
  cases hid : NotifyId.ofInt (n % 65536) with
  | none => simp
  | some notifyId => cases notifyId <;> simp [NotifyId.isConcrete]

theorem toIntegral_eq_some {value : QJsonValue} (hvalue : value.isDouble = true) {n : Int} :
    toIntegral value = some n ↔ value = .ofInt n ∧ FitsInt n := by
  cases value with
  | double d =>
    cases d with
    | finite q =>
      simp only [toIntegral, QJsonValue.toDouble, QJsonValue.ofInt, FitsInt]
      constructor
      · intro h
        split at h
        · cases h
        · next hok =>
          push Not at hok
          obtain ⟨hwhole, hlo, hhi⟩ := hok
          cases h
          rw [hwhole] at hlo hhi
          exact ⟨by rw [← hwhole], by exact_mod_cast hlo, by exact_mod_cast hhi⟩
      · rintro ⟨h, hlo, hhi⟩
        cases h
        have hlo : ¬ ((n : ℚ) < -2147483648) := by exact_mod_cast not_lt.mpr hlo
        have hhi : ¬ ((n : ℚ) > 2147483647) := by exact_mod_cast not_lt.mpr hhi
        simp [hlo, hhi]
    | nan => simp [toIntegral, QJsonValue.toDouble, QJsonValue.ofInt]
    | infinite negative => simp [toIntegral, QJsonValue.toDouble, QJsonValue.ofInt]
  | _ => cases hvalue

theorem readEnum_eq_ok {ob : QJsonObject} {key : String} {isValid : Int → Bool} {n : Int} :
    readEnum ob key isValid = .ok n ↔
      ob.value key = .ofInt n ∧ FitsInt n ∧ isValid n = true := by
  constructor
  · intro h
    unfold readEnum at h
    split at h
    · cases h
    · split at h
      · cases h
      · next hdouble =>
        split at h
        · cases h
        · next m hm =>
          split at h
          · cases h
          · next hvalid =>
            cases h
            obtain ⟨hvalue, hfits⟩ := (toIntegral_eq_some (by simpa using hdouble)).mp hm
            exact ⟨hvalue, hfits, by simpa using hvalid⟩
  · rintro ⟨hvalue, hfits, hvalid⟩
    have hcontains : ob.contains key = true :=
      QJsonObject.contains_of_value_ne_undefined (by rw [hvalue]; exact nofun)
    have hdouble : (ob.value key).isDouble = true := by rw [hvalue]; rfl
    have hintegral : toIntegral (ob.value key) = some n :=
      (toIntegral_eq_some hdouble).mpr ⟨hvalue, hfits⟩
    simp [readEnum, hcontains, hdouble, hintegral, hvalid]

/-- The numbers a document carries, and the packet they are once cast. -/
structure ReadsAs (ob : QJsonObject) (typeInt requestIdInt notifyIdInt : Int) (type : PacketType)
    (requestId : RequestId) (notifyId : NotifyId) : Prop where
  type_value : ob.value "type" = .ofInt typeInt
  requestId_value : ob.value "requestId" = .ofInt requestIdInt
  notifyId_value : ob.value "notifyId" = .ofInt notifyIdInt
  has_value : ob.contains "value" = true
  type_fits : FitsInt typeInt
  requestId_fits : FitsInt requestIdInt
  notifyId_fits : FitsInt notifyIdInt
  type_eq : type.toInt = typeInt % 256
  requestId_eq : requestId.toInt = requestIdInt % 256
  notifyId_eq : notifyId.toInt = notifyIdInt % 65536

/-- The ids that go with a type. -/
def Consistent (requestId : RequestId) (notifyId : NotifyId) : PacketType → Prop
  | .TypeRequest | .TypeReply => requestId ≠ .RequestInvalid ∧ notifyId = .NotifyInvalid
  | .TypeNotify => notifyId.isConcrete = true ∧ requestId = .RequestInvalid
  | .TypeInvalid => requestId = .RequestInvalid ∧ notifyId = .NotifyInvalid

theorem checkIds_eq_ok {type : PacketType} {requestId : RequestId} {notifyId : NotifyId}
    (hid : notifyId = .NotifyInvalid ∨ notifyId.isConcrete = true) :
    checkIds type.toInt requestId.toInt notifyId.toInt = .ok () ↔
      Consistent requestId notifyId type := by
  have hrequest : requestId.toInt = RequestId.RequestInvalid.toInt ↔ requestId = .RequestInvalid := by
    cases requestId <;> decide
  have hnotify : notifyId.toInt = NotifyId.NotifyInvalid.toInt ↔ notifyId = .NotifyInvalid := by
    cases notifyId <;> decide
  have hconcrete : notifyId.isConcrete = true ↔ notifyId ≠ .NotifyInvalid := by
    obtain rfl | hid := hid
    · decide
    · refine ⟨fun _ h => ?_, fun _ => hid⟩
      rw [h] at hid
      cases hid
  simp only [checkIds, hrequest, hnotify, ne_eq]
  cases type <;>
    simp only [PacketType.toInt, Consistent, hconcrete] <;>
    by_cases hr : requestId = .RequestInvalid <;> by_cases hn : notifyId = .NotifyInvalid <;>
    simp [hr, hn]

theorem Consistent.valid {type : PacketType} {requestId : RequestId} {notifyId : NotifyId}
    (h : Consistent requestId notifyId type) :
    notifyId = .NotifyInvalid ∨ notifyId.isConcrete = true := by
  cases type with
  | TypeNotify => exact .inr h.1
  | _ => exact .inl h.2

theorem checkObject_eq_ok {ob : QJsonObject} :
    checkObject ob = .ok () ↔ ∃ typeInt requestIdInt notifyIdInt type requestId notifyId,
      ReadsAs ob typeInt requestIdInt notifyIdInt type requestId notifyId ∧
        Consistent requestId notifyId type := by
  constructor
  · intro h
    obtain ⟨typeInt, htype, h⟩ := Except.bind_eq_ok.mp h
    obtain ⟨requestIdInt, hrequest, h⟩ := Except.bind_eq_ok.mp h
    obtain ⟨notifyIdInt, hnotify, h⟩ := Except.bind_eq_ok.mp h
    obtain ⟨htype, htypeFits, htypeValid⟩ := readEnum_eq_ok.mp htype
    obtain ⟨hrequest, hrequestFits, hrequestValid⟩ := readEnum_eq_ok.mp hrequest
    obtain ⟨hnotify, hnotifyFits, hnotifyValid⟩ := readEnum_eq_ok.mp hnotify
    obtain ⟨type, htypeValid⟩ := isPacketTypeValid_iff.mp htypeValid
    obtain ⟨requestId, hrequestValid⟩ := isRequestIdValid_iff.mp hrequestValid
    obtain ⟨notifyId, hnotifyValid, hid⟩ := isNotifyIdValid_iff.mp hnotifyValid
    rw [PacketType.ofInt_eq_some] at htypeValid
    rw [RequestId.ofInt_eq_some] at hrequestValid
    rw [NotifyId.ofInt_eq_some] at hnotifyValid
    split at h
    · cases h
    · next hvalue =>
      rw [← htypeValid, ← hrequestValid, ← hnotifyValid, checkIds_eq_ok hid] at h
      exact ⟨typeInt, requestIdInt, notifyIdInt, type, requestId, notifyId,
        ⟨htype, hrequest, hnotify, by simpa using hvalue, htypeFits, hrequestFits, hnotifyFits,
          htypeValid, hrequestValid, hnotifyValid⟩, h⟩
  · rintro ⟨typeInt, requestIdInt, notifyIdInt, type, requestId, notifyId, hreads, hconsistent⟩
    have htype : readEnum ob "type" isPacketTypeValid = .ok typeInt :=
      readEnum_eq_ok.mpr ⟨hreads.type_value, hreads.type_fits,
        isPacketTypeValid_iff.mpr ⟨type, PacketType.ofInt_eq_some.mpr hreads.type_eq⟩⟩
    have hrequest : readEnum ob "requestId" isRequestIdValid = .ok requestIdInt :=
      readEnum_eq_ok.mpr ⟨hreads.requestId_value, hreads.requestId_fits,
        isRequestIdValid_iff.mpr ⟨requestId, RequestId.ofInt_eq_some.mpr hreads.requestId_eq⟩⟩
    have hnotify : readEnum ob "notifyId" isNotifyIdValid = .ok notifyIdInt :=
      readEnum_eq_ok.mpr ⟨hreads.notifyId_value, hreads.notifyId_fits,
        isNotifyIdValid_iff.mpr ⟨notifyId, NotifyId.ofInt_eq_some.mpr hreads.notifyId_eq,
          hconsistent.valid⟩⟩
    unfold checkObject
    rw [htype, Except.ok_bind, hrequest, Except.ok_bind, hnotify, Except.ok_bind,
      hreads.has_value, ← hreads.type_eq, ← hreads.requestId_eq, ← hreads.notifyId_eq]
    exact (checkIds_eq_ok hconsistent.valid).mpr hconsistent

theorem readEnum_eq_error {ob : QJsonObject} {key error : String} {isValid : Int → Bool}
    (h : readEnum ob key isValid = .error error) : ∃ text, error = "'" ++ key ++ text := by
  unfold readEnum at h
  split at h
  · cases h
    exact ⟨_, rfl⟩
  · split at h
    · cases h
      exact ⟨_, rfl⟩
    · split at h
      · cases h
        exact ⟨_, rfl⟩
      · split at h
        · cases h
          exact ⟨_, rfl⟩
        · cases h

theorem checkIds_eq_error {type requestId notifyId : Int} {error : String}
    (h : checkIds type requestId notifyId = .error error) :
    ∃ key ∈ ["requestId", "notifyId"], ∃ text, error = "'" ++ key ++ text := by
  unfold checkIds at h
  split at h
  · split at h
    · cases h
      exact ⟨"requestId", by decide, "' is invalid for a request/reply packet", by decide⟩
    · split at h
      · cases h
        exact ⟨"notifyId", by decide, "' should be invalid for a request/reply packet", by decide⟩
      · cases h
  · split at h
    · split at h
      · cases h
        exact ⟨"notifyId", by decide, "' is invalid for a notify packet", by decide⟩
      · split at h
        · cases h
          exact ⟨"requestId", by decide, "' should be invalid for a notify packet", by decide⟩
        · cases h
    · split at h
      · cases h
        exact ⟨"requestId", by decide, "' should be invalid for an invalid packet", by decide⟩
      · split at h
        · cases h
          exact ⟨"notifyId", by decide, "' should be invalid for an invalid packet", by decide⟩
        · cases h

/-- An error of the object names the field it is about. -/
theorem checkObject_eq_error {ob : QJsonObject} {error : String}
    (h : checkObject ob = .error error) :
    ∃ key ∈ ["type", "requestId", "notifyId", "value"], ∃ text, error = "'" ++ key ++ text := by
  obtain h | ⟨typeInt, -, h⟩ := Except.bind_eq_error.mp h
  · exact ⟨"type", by decide, readEnum_eq_error h⟩
  obtain h | ⟨requestIdInt, -, h⟩ := Except.bind_eq_error.mp h
  · exact ⟨"requestId", by decide, readEnum_eq_error h⟩
  obtain h | ⟨notifyIdInt, -, h⟩ := Except.bind_eq_error.mp h
  · exact ⟨"notifyId", by decide, readEnum_eq_error h⟩
  split at h
  · cases h
    exact ⟨"value", by decide, "' is non-existent", by decide⟩
  · obtain ⟨key, hkey, htext⟩ := checkIds_eq_error h
    exact ⟨key, by revert hkey; simp; tauto, htext⟩

theorem fromJson_hasError (doc : Except String QJsonValue) :
    hasError (fromJson doc) = false ↔
      ∃ ob, doc = .ok (.object ob) ∧ checkObject ob = .ok () ∧ fromJson doc = ⟨ob, ""⟩ := by
  unfold fromJson
  split
  · simp [hasError]
  · next ob =>
    cases hcheck : checkObject ob with
    | ok u => exact ⟨fun _ => ⟨ob, rfl, hcheck, rfl⟩, fun _ => rfl⟩
    | error error =>
      obtain ⟨key, -, text, rfl⟩ := checkObject_eq_error hcheck
      simp [hasError]
  · next value hvalue =>
    constructor
    · intro h
      exact absurd h (by decide)
    · rintro ⟨ob, h, -⟩
      cases h
      exact absurd rfl (hvalue ob)

theorem fromJson_accepts {doc : Except String QJsonValue} :
    hasError (fromJson doc) = false ↔
      ∃ ob typeInt requestIdInt notifyIdInt type requestId notifyId, doc = .ok (.object ob) ∧
        ReadsAs ob typeInt requestIdInt notifyIdInt type requestId notifyId ∧
        Consistent requestId notifyId type := by
  rw [fromJson_hasError]
  constructor
  · rintro ⟨ob, hdoc, hcheck, -⟩
    obtain ⟨typeInt, requestIdInt, notifyIdInt, type, requestId, notifyId, h⟩ :=
      checkObject_eq_ok.mp hcheck
    exact ⟨ob, typeInt, requestIdInt, notifyIdInt, type, requestId, notifyId, hdoc, h⟩
  · rintro ⟨ob, typeInt, requestIdInt, notifyIdInt, type, requestId, notifyId, rfl, h⟩
    have hcheck := checkObject_eq_ok.mpr
      ⟨typeInt, requestIdInt, notifyIdInt, type, requestId, notifyId, h⟩
    exact ⟨ob, rfl, hcheck, by simp only [fromJson, hcheck]⟩

theorem fromJson_object (ob : QJsonObject) : (fromJson (.ok (.object ob))).object = ob := by
  unfold fromJson
  dsimp only
  split <;> rfl

section Accessors

variable {ob : QJsonObject} {typeInt requestIdInt notifyIdInt : Int} {type : PacketType}
  {requestId : RequestId} {notifyId : NotifyId} {d : PacketDataP}

theorem ReadsAs.typeOf_eq
    (hreads : ReadsAs d.object typeInt requestIdInt notifyIdInt type requestId notifyId) :
    typeOf d = type.toInt := by
  rw [typeOf, hreads.type_value, QJsonValue.toInt_ofInt hreads.type_fits,
    hreads.type_eq]

theorem ReadsAs.requestIdOf_eq
    (hreads : ReadsAs d.object typeInt requestIdInt notifyIdInt type requestId notifyId)
    (hconsistent : Consistent requestId notifyId type) : requestIdOf d = requestId.toInt := by
  rw [requestIdOf, hreads.typeOf_eq, hreads.requestId_value,
    QJsonValue.toInt_ofInt hreads.requestId_fits, ← hreads.requestId_eq]
  cases type with
  | TypeRequest => rfl
  | TypeReply => rfl
  | TypeNotify => rw [hconsistent.2]; rfl
  | TypeInvalid => rw [hconsistent.1]; rfl

theorem ReadsAs.notifyIdOf_eq
    (hreads : ReadsAs d.object typeInt requestIdInt notifyIdInt type requestId notifyId)
    (hconsistent : Consistent requestId notifyId type) : notifyIdOf d = notifyId.toInt := by
  rw [notifyIdOf, hreads.typeOf_eq, hreads.notifyId_value,
    QJsonValue.toInt_ofInt hreads.notifyId_fits, ← hreads.notifyId_eq]
  cases type with
  | TypeNotify => rfl
  | _ => rw [hconsistent.2]; rfl

end Accessors

/-- The object is the packet of these ids, number for number. -/
structure IsPacket (ob : QJsonObject) (type : PacketType) (requestId : RequestId)
    (notifyId : NotifyId) : Prop where
  type_value : ob.value "type" = .ofInt type.toInt
  requestId_value : ob.value "requestId" = .ofInt requestId.toInt
  notifyId_value : ob.value "notifyId" = .ofInt notifyId.toInt
  has_value : ob.contains "value" = true
  consistent : Consistent requestId notifyId type

theorem IsPacket.readsAs {ob : QJsonObject} {type : PacketType} {requestId : RequestId}
    {notifyId : NotifyId} (h : IsPacket ob type requestId notifyId) :
    ReadsAs ob type.toInt requestId.toInt notifyId.toInt type requestId notifyId := by
  have htype := type.toInt_bounds
  have hrequest := requestId.toInt_bounds
  have hnotify := notifyId.toInt_bounds
  constructor
  · exact h.type_value
  · exact h.requestId_value
  · exact h.notifyId_value
  · exact h.has_value
  · exact ⟨by omega, by omega⟩
  · exact ⟨by omega, by omega⟩
  · exact ⟨by omega, by omega⟩
  all_goals omega

/-- Exactly the packets of the protocol are accepted, and the accessors answer
with the numbers the document carries. -/
def MeetsFormat (doc : Except String QJsonValue) : Prop :=
  (hasError (fromJson doc) = false ↔
    ∃ ob type requestId notifyId, doc = .ok (.object ob) ∧ IsPacket ob type requestId notifyId) ∧
  ∀ ob : QJsonObject, doc = .ok (.object ob) → hasError (fromJson doc) = false →
    ob.value "type" = .ofInt (typeOf (fromJson doc)) ∧
    ob.value "requestId" = .ofInt (requestIdOf (fromJson doc)) ∧
    ob.value "notifyId" = .ofInt (notifyIdOf (fromJson doc))

/-- The numbers of the document are those of a packet only once their high bits
are cut off. -/
def WrapsAround (doc : Except String QJsonValue) : Prop :=
  ∃ ob typeInt requestIdInt notifyIdInt type requestId notifyId, doc = .ok (.object ob) ∧
    ReadsAs ob typeInt requestIdInt notifyIdInt type requestId notifyId ∧
    Consistent requestId notifyId type ∧
    ¬((0 ≤ typeInt ∧ typeInt < 256) ∧ (0 ≤ requestIdInt ∧ requestIdInt < 256) ∧
      (0 ≤ notifyIdInt ∧ notifyIdInt < 65536))

theorem meetsFormat_iff (doc : Except String QJsonValue) :
    MeetsFormat doc ↔ ¬ WrapsAround doc := by
  constructor
  · rintro ⟨haccepts, -⟩ ⟨ob, typeInt, requestIdInt, notifyIdInt, type, requestId, notifyId, hdoc,
      hreads, hconsistent, hwraps⟩
    obtain ⟨ob', type', requestId', notifyId', hdoc', hpacket⟩ := haccepts.mp
      (fromJson_accepts.mpr ⟨ob, typeInt, requestIdInt, notifyIdInt, type, requestId, notifyId,
        hdoc, hreads, hconsistent⟩)
    cases hdoc.symm.trans hdoc'
    have htype := QJsonValue.ofInt_inj.mp (hreads.type_value.symm.trans hpacket.type_value)
    have hrequest :=
      QJsonValue.ofInt_inj.mp (hreads.requestId_value.symm.trans hpacket.requestId_value)
    have hnotify :=
      QJsonValue.ofInt_inj.mp (hreads.notifyId_value.symm.trans hpacket.notifyId_value)
    apply hwraps
    rw [htype, hrequest, hnotify]
    exact ⟨type'.toInt_bounds, requestId'.toInt_bounds, notifyId'.toInt_bounds⟩
  · intro hwraps
    -- Without wrapping, every number is that of its enumerator.
    have hplain : ∀ {ob typeInt requestIdInt notifyIdInt type requestId notifyId},
        doc = .ok (.object ob) →
        ReadsAs ob typeInt requestIdInt notifyIdInt type requestId notifyId →
        Consistent requestId notifyId type → IsPacket ob type requestId notifyId := by
      intro ob typeInt requestIdInt notifyIdInt type requestId notifyId hdoc hreads hconsistent
      have hrange : (0 ≤ typeInt ∧ typeInt < 256) ∧ (0 ≤ requestIdInt ∧ requestIdInt < 256) ∧
          (0 ≤ notifyIdInt ∧ notifyIdInt < 65536) := by
        by_contra hnot
        exact hwraps ⟨ob, typeInt, requestIdInt, notifyIdInt, type, requestId, notifyId, hdoc,
          hreads, hconsistent, hnot⟩
      have htype := hreads.type_eq
      have hrequest := hreads.requestId_eq
      have hnotify := hreads.notifyId_eq
      refine ⟨?_, ?_, ?_, hreads.has_value, hconsistent⟩
      · rw [hreads.type_value, htype, Int.emod_eq_of_lt hrange.1.1 hrange.1.2]
      · rw [hreads.requestId_value, hrequest, Int.emod_eq_of_lt hrange.2.1.1 hrange.2.1.2]
      · rw [hreads.notifyId_value, hnotify, Int.emod_eq_of_lt hrange.2.2.1 hrange.2.2.2]
    constructor
    · rw [fromJson_accepts]
      constructor
      · rintro ⟨ob, typeInt, requestIdInt, notifyIdInt, type, requestId, notifyId, hdoc, hreads,
          hconsistent⟩
        exact ⟨ob, type, requestId, notifyId, hdoc, hplain hdoc hreads hconsistent⟩
      · rintro ⟨ob, type, requestId, notifyId, hdoc, hpacket⟩
        exact ⟨ob, _, _, _, type, requestId, notifyId, hdoc, hpacket.readsAs, hpacket.consistent⟩
    · rintro ob hdoc haccepted
      obtain ⟨ob', typeInt, requestIdInt, notifyIdInt, type, requestId, notifyId, hdoc', hreads,
        hconsistent⟩ := fromJson_accepts.mp haccepted
      cases hdoc.symm.trans hdoc'
      have hpacket := hplain hdoc hreads hconsistent
      subst hdoc
      rw [← fromJson_object ob] at hreads
      rw [hreads.typeOf_eq, hreads.requestIdOf_eq hconsistent, hreads.notifyIdOf_eq hconsistent]
      exact ⟨hpacket.type_value, hpacket.requestId_value, hpacket.notifyId_value⟩

/-- A type of 257 is taken for a request. -/
theorem meetsFormat_fails : ¬ MeetsFormat (.ok (.object [
    ("notifyId", .ofInt 0), ("requestId", .ofInt 1), ("type", .ofInt 257), ("value", .null)])) := by
  rintro ⟨-, haccessors⟩
  obtain ⟨htype, -⟩ := haccessors _ rfl (by decide +kernel)
  exact absurd (QJsonValue.ofInt_inj.mp htype) (by decide +kernel)

end Packet

end QMdmmCore
