import QMdmm.Networking.ServerConfiguration
import QMdmm.Support.ExceptBind
import QMdmm.Support.QString

namespace QMdmmServer

open QMdmmCore QMdmmNetworking

/-- The command line as it has been parsed; an option of several names is asked for by any
of them. -/
structure QCommandLineParser where
  isSet : String → Bool
  value : String → String

/-- `Settings`: what each of its three instances holds, by group and key. -/
structure Settings where
  specifiedConfig : String → Option String
  userConfig : String → Option String
  globalConfig : String → Option String

namespace Settings

def contains (self : Settings) (key : String) : Bool :=
  (self.specifiedConfig key).isSome || (self.userConfig key).isSome ||
    (self.globalConfig key).isSome

/-- `value(key).toString()`. -/
def value (self : Settings) (key : String) : String :=
  (self.specifiedConfig key).getD ((self.userConfig key).getD ((self.globalConfig key).getD ""))

end Settings

inductive LogLevel where
  | Off
  | Debug
  | Info
  | Warning
  | Critical
  deriving DecidableEq, Repr

def logLevelHash : List (String × LogLevel) :=
  [("off", .Off), ("debug", .Debug), ("info", .Info), ("warning", .Warning),
    ("critical", .Critical)]

def qMdmmDebugLogLevelFromString (value : String) : Option LogLevel :=
  (logLevelHash.find? fun level => QString.isWord level.1 value).map Prod.snd

def falseValues : List String := ["0", "false", "no", "n", "off", "disable", "disabled"]

def trueValues : List String := ["1", "true", "yes", "y", "on", "enable", "enabled"]

def stringToBool (value : String) : Option Bool :=
  if falseValues.any (QString.isWord value) then some false
  else if trueValues.any (QString.isWord value) then some true
  else none

def stringToInt (value : String) : Option Int := QString.toInt value

def stringToUint16 (value : String) : Option Int :=
  match QString.toUInt value with
  | none => none
  | some result => if result > 65535 then none else some result

def strategyHash : List (String × Int) :=
  [("RoundDown", 0), ("RoundToNearest45", 1), ("RoundUp", 2), ("PlusOne", 3)]

/-- The strategy as the number it is stored as. -/
def stringToPunishHpRoundStrategy (value : String) : Option Int :=
  (strategyHash.find? fun strategy => QString.isWord strategy.1 value).map Prod.snd

/-- One `CONFIG_ITEM`: what a text of it is stored as, and where. -/
structure Item where
  settingName : String
  convert : String → Option QJsonValue
  valueName : String

def boolItem (settingName valueName : String) : Item :=
  ⟨settingName, fun s => (stringToBool s).map .bool, valueName⟩

def intItem (settingName valueName : String) : Item :=
  ⟨settingName, fun s => (stringToInt s).map .ofInt, valueName⟩

def portItem (settingName valueName : String) : Item :=
  ⟨settingName, fun s => (stringToUint16 s).map .ofInt, valueName⟩

/-- A text is stored as it is. -/
def textItem (settingName valueName : String) : Item :=
  ⟨settingName, fun s => some (.string s), valueName⟩

def strategyItem (settingName valueName : String) : Item :=
  ⟨settingName, fun s => (stringToPunishHpRoundStrategy s).map .ofInt, valueName⟩

def playersItem : Item := intItem "players" "playerNumPerRoom"

def serverItems : List Item := [
  boolItem "tcp" "tcpEnabled",
  portItem "tcp-port" "tcpPort",
  boolItem "local" "localEnabled",
  textItem "local-name" "localSocketName",
  boolItem "websocket" "websocketEnabled",
  textItem "websocket-name" "websocketName",
  portItem "websocket-port" "websocketPort",
  portItem "control-port" "controlPort",
  intItem "timeout" "requestTimeout",
  intItem "maximum-packet-size" "maximumPacketSize",
  intItem "sign-in-timeout" "signInTimeout",
  intItem "maximum-rooms" "maximumRooms"]

def logicItems : List Item := [
  intItem "slash" "initialKnifeDamage",
  intItem "maximum-slash" "maximumKnifeDamage",
  intItem "kick" "initialHorseDamage",
  intItem "maximum-kick" "maximumHorseDamage",
  intItem "maxhp" "initialMaxHp",
  intItem "maximum-maxhp" "maximumMaxHp",
  intItem "punish-hp-modifier" "punishHpModifier",
  strategyItem "punish-hp-round-strategy" "punishHpRoundStrategy",
  boolItem "zero-hp-as-dead" "zeroHpAsDead",
  boolItem "enable-let-move" "enableLetMove",
  boolItem "can-buy-only-in-initial-city" "canBuyOnlyInInitialCity"]

/-- Where the items of a run come from; stored rules give way to the presets. -/
structure Source where
  parser : QCommandLineParser
  setting : Settings
  group : String
  presets : Bool

/-- The text of an item and who has set it. -/
def Source.text (source : Source) (settingName : String) : Option (String × String) :=
  if source.parser.isSet settingName then some (source.parser.value settingName, "command line")
  else if source.setting.contains (source.group ++ "/" ++ settingName) then
    if !source.presets then
      some (source.setting.value (source.group ++ "/" ++ settingName), "config file")
    else none
  else none

/-- `configError` ends the process with its message. -/
def reject (bad : Prop) [Decidable bad] (message : String) : Except String Unit :=
  if bad then .error message else .ok ()

def Item.read (source : Source) (ob : QJsonObject) (item : Item) : Except String QJsonObject :=
  match source.text item.settingName with
  | none => .ok ob
  | some (s, origin) =>
    match item.convert s with
    | some v => .ok (ob.insert item.valueName v)
    | none => .error ("Config item " ++ item.settingName ++ " (from " ++ origin ++
        ") can't be parsed.")

def shortForms : List (String × Int) :=
  [("2", 2), ("3", 3), ("4", 4), ("5", 5), ("6", 6), ("7", 7), ("8", 8), ("9", 9)]

/-- The room size that one of the short forms asks for, or 0. -/
def readShortForms (parser : QCommandLineParser) : Except String Int :=
  shortForms.foldlM (fun players shortForm =>
    if parser.isSet shortForm.1 then
      if players = 0 then .ok shortForm.2
      else .error ("-" ++ toString shortForm.2 ++ " can't be specified along with -" ++
        toString players)
    else .ok players) 0

def readPlayers (source : Source) (ob : QJsonObject) : Except String QJsonObject := do
  let players ← readShortForms source.parser
  if players ≠ 0 then
    reject (source.parser.isSet "players" = true)
      ("-" ++ toString players ++ " can't be specified along with -n / --players")
    return ob.insert "playerNumPerRoom" (.ofInt players)
  else playersItem.read source ob

def readLogLevel (parser : QCommandLineParser) : Except String LogLevel :=
  if parser.isSet "log-level" then
    match qMdmmDebugLogLevelFromString (parser.value "log-level") with
    | some level => .ok level
    | none => .error "log-level (from command line) can't be parsed."
  else .ok .Off

/-- `rangeChecks`: a value, its minimum and its name. -/
def rangeChecks (conf : LogicConfiguration) : List (Int × Int × String) := [
  (conf.initialKnifeDamage, 1, "slash"),
  (conf.maximumKnifeDamage, 3, "maximum-slash"),
  (conf.initialHorseDamage, 2, "kick"),
  (conf.maximumHorseDamage, 5, "maximum-kick"),
  (conf.initialMaxHp, 7, "maxhp"),
  (conf.maximumMaxHp, 7, "maximum-maxhp")]

def checkRange (check : Int × Int × String) : Except String Unit :=
  reject (check.1 < check.2.1) ("Config item " ++ check.2.2 ++ " must be at least " ++
    toString check.2.1 ++ " (got " ++ toString check.1 ++ ")")

/-- `crossChecks`: an initial value and its maximum, each with its name. -/
def crossChecks (conf : LogicConfiguration) : List ((Int × String) × Int × String) := [
  ((conf.initialKnifeDamage, "slash"), (conf.maximumKnifeDamage, "maximum-slash")),
  ((conf.initialHorseDamage, "kick"), (conf.maximumHorseDamage, "maximum-kick")),
  ((conf.initialMaxHp, "maxhp"), (conf.maximumMaxHp, "maximum-maxhp"))]

def checkCross (check : (Int × String) × Int × String) : Except String Unit :=
  reject (check.1.1 > check.2.1) ("Config item " ++ check.1.2 ++ " must not exceed " ++
    check.2.2 ++ " (got " ++ toString check.1.1 ++ " and " ++ toString check.2.1 ++ ")")

structure Config where
  serverConfiguration : ServerConfiguration
  logicConfiguration : LogicConfiguration
  logLevel : LogLevel

namespace Config

def serverSource (setting : Settings) (parser : QCommandLineParser) : Source :=
  ⟨parser, setting, "server", false⟩

def logicSource (setting : Settings) (parser : QCommandLineParser) : Source :=
  ⟨parser, setting, "logic", parser.isSet "1"⟩

/-- With the message of the error it exits with. -/
def read_ (setting : Settings) (parser : QCommandLineParser) : Except String Config := do
  let logLevel ← readLogLevel parser
  let rules : QJsonObject := if parser.isSet "1" then LogicConfiguration.v1.object else []
  let server ← serverItems.foldlM (Item.read (serverSource setting parser)) []
  let server ← readPlayers (serverSource setting parser) server
  let serverConfiguration : ServerConfiguration := ⟨server⟩
  let roomSize := serverConfiguration.values.playerNumPerRoom
  reject (roomSize < 2) ("players must be at least 2 (got " ++ toString roomSize ++ ")")
  let rules ← logicItems.foldlM (Item.read (logicSource setting parser)) rules
  let logicConfiguration : LogicConfiguration := ⟨rules⟩
  (rangeChecks logicConfiguration).forM checkRange
  (crossChecks logicConfiguration).forM checkCross
  let timeout := serverConfiguration.values.requestTimeout
  reject (timeout ≠ 0 ∧ timeout < 15)
    ("Config item timeout must be 0 or at least 15 (got " ++ toString timeout ++ ")")
  let maximumPacketSize := serverConfiguration.values.maximumPacketSize
  reject (maximumPacketSize < 1024)
    ("Config item maximum-packet-size must be at least 1024 (got " ++
      toString maximumPacketSize ++ ")")
  let signInTimeout := serverConfiguration.values.signInTimeout
  reject (signInTimeout < 2 ∨ signInTimeout > 60)
    ("Config item sign-in-timeout must be between 2 and 60 (got " ++
      toString signInTimeout ++ ")")
  let maximumRooms := serverConfiguration.values.maximumRooms
  reject (maximumRooms < 0)
    ("Config item maximum-rooms must not be negative (got " ++ toString maximumRooms ++ ")")
  let punishHpModifier := logicConfiguration.punishHpModifier
  reject (punishHpModifier ≠ 0 ∧ punishHpModifier < 2)
    ("Config item punish-hp-modifier must be 0 or at least 2 (got " ++
      toString punishHpModifier ++ ")")
  return ⟨serverConfiguration, logicConfiguration, logLevel⟩

end Config

end QMdmmServer
