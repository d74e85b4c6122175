import QMdmm.Core.LogicConfiguration
import QMdmm.Support.OptionFold

namespace QMdmmNetworking

open QMdmmCore

/-- How a server is set up, kept as a JSON object. -/
structure ServerConfiguration where
  object : QJsonObject

namespace ServerConfiguration

def defaults : ServerConfiguration where
  object := [
    ("tcpEnabled", .bool true),
    ("tcpPort", .ofInt 6366),
    ("localEnabled", .bool true),
    ("localSocketName", .string "QMdmm"),
    ("websocketEnabled", .bool true),
    ("websocketName", .string "QMdmm"),
    ("websocketPort", .ofInt 6367),
    ("controlPort", .ofInt 0),
    ("playerNumPerRoom", .ofInt 3),
    ("requestTimeout", .ofInt 20),
    ("maximumPacketSize", .ofInt 1048576),
    ("signInTimeout", .ofInt 5),
    ("maximumRooms", .ofInt 0)]

/-- The member the getter of `key` converts: its own, else the default one. -/
def member (conf : ServerConfiguration) (key : String) : QJsonValue :=
  if conf.object.contains key then conf.object.value key else defaults.object.value key

/-- The cast of an `int` to `uint16_t`. -/
def portMember (conf : ServerConfiguration) (key : String) : Int :=
  (conf.member key).toInt 0 % 65536

def intMember (conf : ServerConfiguration) (key : String) : Int := (conf.member key).toInt 0

/-- What the getters return. -/
structure Values where
  tcpEnabled : Bool
  tcpPort : Int
  localEnabled : Bool
  localSocketName : String
  websocketEnabled : Bool
  websocketName : String
  websocketPort : Int
  controlPort : Int
  playerNumPerRoom : Int
  requestTimeout : Int
  maximumPacketSize : Int
  signInTimeout : Int
  maximumRooms : Int
  deriving DecidableEq, Repr

def values (conf : ServerConfiguration) : Values where
  tcpEnabled := (conf.member "tcpEnabled").toBool
  tcpPort := conf.portMember "tcpPort"
  localEnabled := (conf.member "localEnabled").toBool
  localSocketName := (conf.member "localSocketName").toQString
  websocketEnabled := (conf.member "websocketEnabled").toBool
  websocketName := (conf.member "websocketName").toQString
  websocketPort := conf.portMember "websocketPort"
  controlPort := conf.portMember "controlPort"
  playerNumPerRoom := conf.intMember "playerNumPerRoom"
  requestTimeout := conf.intMember "requestTimeout"
  maximumPacketSize := conf.intMember "maximumPacketSize"
  signInTimeout := conf.intMember "signInTimeout"
  maximumRooms := conf.intMember "maximumRooms"

/-- `CONF_BOOL`, of a member that is present: what is taken over of it. -/
def confBool (v : QJsonValue) : Option QJsonValue := if v.isBool then some v else none

/-- `CONF_STRING`. -/
def confString (v : QJsonValue) : Option QJsonValue := if v.isString then some v else none

/-- A whole number that some numbers are among. -/
def confInt (legal : Int → Bool) (v : QJsonValue) : Option QJsonValue :=
  ((LogicConfiguration.parseNonNegativeInt v).filter legal).map .ofInt

/-- `CONF_PORT`: a transport without a port is none. -/
def confPort : QJsonValue → Option QJsonValue := confInt fun parsed => !(parsed == 0 || parsed > 65535)

/-- The members `deserialize` goes through, each with what it takes over. -/
def fields : List (String × (QJsonValue → Option QJsonValue)) := [
  ("tcpEnabled", confBool),
  ("tcpPort", confPort),
  ("localEnabled", confBool),
  ("localSocketName", confString),
  ("websocketEnabled", confBool),
  ("websocketName", confString),
  ("websocketPort", confPort),
  ("controlPort", confInt fun parsed => !(parsed > 65535)),
  ("playerNumPerRoom", confInt fun parsed => !(parsed < 2)),
  ("requestTimeout", confInt fun parsed => !(parsed ≠ 0 && parsed < 15)),
  ("maximumPacketSize", confInt fun parsed => !(parsed < 1024)),
  ("signInTimeout", confInt fun parsed => !(parsed < 2 || parsed > 60)),
  ("maximumRooms", confInt fun _ => true)]

/-- An absent member is fine, a present one has to be legal. -/
def takeOver (ob : QJsonObject) (result : QJsonObject)
    (field : String × (QJsonValue → Option QJsonValue)) : Option QJsonObject :=
  if ob.contains field.1 then (field.2 (ob.value field.1)).map fun v => result.insert field.1 v
  else some result

/-- What `deserialize` assigns on success. -/
def deserialize : QJsonValue → Option ServerConfiguration
  | .object ob => (fields.foldlM (takeOver ob) []).map ServerConfiguration.mk
  | _ => none

variable {ob : QJsonObject}

/-- Every getter reads one of the fields. -/
theorem values_eq {conf conf' : ServerConfiguration}
    (hsame : ∀ field ∈ fields, conf'.member field.1 = conf.member field.1) :
    conf'.values = conf.values := by
  simp only [fields, List.forall_mem_cons, List.not_mem_nil, false_implies, implies_true,
    and_true] at hsame
  simp only [values, portMember, intMember, hsame]

theorem foldlM_takeOver {list : List (String × (QJsonValue → Option QJsonValue))}
    (hnodup : (list.map Prod.fst).Nodup) (hlegal : ∀ field ∈ list, ob.contains field.1 = true →
      field.2 (ob.value field.1) = some (ob.value field.1)) (result : QJsonObject)
    (hfresh : ∀ field ∈ list, result.contains field.1 = false) :
    ∃ taken, list.foldlM (takeOver ob) result = some taken ∧
      (∀ field ∈ list, taken.contains field.1 = ob.contains field.1 ∧
        (ob.contains field.1 = true → taken.value field.1 = ob.value field.1)) ∧
      ∀ key, key ∉ list.map Prod.fst →
        taken.contains key = result.contains key ∧ taken.value key = result.value key := by
  induction list generalizing result with
  | nil => exact ⟨result, rfl, fun _ h => absurd h List.not_mem_nil, fun _ _ => ⟨rfl, rfl⟩⟩
  | cons field rest ih =>
    obtain ⟨hfield, hrest⟩ := List.nodup_cons.mp hnodup
    obtain ⟨hhead, htail⟩ := List.forall_mem_cons.mp hlegal
    obtain ⟨hfreshHead, hfreshTail⟩ := List.forall_mem_cons.mp hfresh
    obtain ⟨next, hnext, hcontains, hvalue, hothers⟩ : ∃ next, takeOver ob result field = some next ∧
        next.contains field.1 = ob.contains field.1 ∧
        (ob.contains field.1 = true → next.value field.1 = ob.value field.1) ∧
        ∀ key ≠ field.1, next.contains key = result.contains key ∧
          next.value key = result.value key := by
      unfold takeOver
      by_cases hpresent : ob.contains field.1 = true
      · refine ⟨result.insert field.1 (ob.value field.1), ?_, by simp [hpresent], by simp,
          fun key hkey => ?_⟩
        · rw [if_pos hpresent, hhead hpresent, Option.map_some]
        · simp [Ne.symm hkey]
      · rw [if_neg hpresent]
        refine ⟨result, rfl, ?_, fun h => absurd h hpresent, fun _ _ => ⟨rfl, rfl⟩⟩
        rw [hfreshHead]
        simpa using hpresent
    have hne {other : String × (QJsonValue → Option QJsonValue)} (hother : other ∈ rest) :
        other.1 ≠ field.1 := fun heq => hfield (heq ▸ List.mem_map_of_mem hother)
    obtain ⟨taken, htaken, hlisted, hunlisted⟩ := ih hrest htail next fun other hother => by
      rw [(hothers other.1 (hne hother)).1]
      exact hfreshTail other hother
    refine ⟨taken, by rw [List.foldlM_cons, hnext]; exact htaken, ?_, ?_⟩
    · refine List.forall_mem_cons.mpr ⟨?_, hlisted⟩
      obtain ⟨hcontains', hvalue'⟩ := hunlisted field.1 hfield
      rw [hcontains', hvalue']
      exact ⟨hcontains, hvalue⟩
    · intro key hkey
      rw [List.map_cons, List.mem_cons, not_or] at hkey
      obtain ⟨hcontains', hvalue'⟩ := hunlisted key hkey.2
      rw [hcontains', hvalue']
      exact hothers key hkey.1

/-- Legal members are all taken over as they are. -/
theorem deserialize_of_legal (hlegal : ∀ field ∈ fields, ob.contains field.1 = true →
      field.2 (ob.value field.1) = some (ob.value field.1)) :
    ∃ conf, deserialize (.object ob) = some conf ∧ conf.values = values ⟨ob⟩ := by
  obtain ⟨taken, htaken, hlisted, -⟩ :=
    foldlM_takeOver (by decide) hlegal [] fun _ _ => rfl
  refine ⟨⟨taken⟩, by rw [deserialize, htaken, Option.map_some], values_eq fun field hfield => ?_⟩
  obtain ⟨hcontains, hvalue⟩ := hlisted field hfield
  unfold member
  dsimp only
  rw [hcontains]
  split
  · next hpresent => exact hvalue hpresent
  · rfl

/-- One illegal member is enough. -/
theorem deserialize_of_illegal {field : String × (QJsonValue → Option QJsonValue)}
    (hfield : field ∈ fields) (hpresent : ob.contains field.1 = true)
    (hillegal : field.2 (ob.value field.1) = none) : deserialize (.object ob) = none := by
  have hrefused (result : QJsonObject) : takeOver ob result field = none := by
    rw [takeOver, if_pos hpresent, hillegal]
    rfl
  rw [deserialize, List.foldlM_eq_none hfield hrefused]
  rfl

end ServerConfiguration

end QMdmmNetworking
